import ReacJack.DeviceSystem
import ReacJack.DaemonLedger

/-! Where the audio that reaches the device comes from. A trail follows the system and
remembers every packet received, for each frame of the stream the packet it came in,
and for each real frame handed to the device its place in the stream. It is computed
from what the calls return and from the positions they leave. -/
namespace ReacJack.AudioTrail
open SharedAudio ReaderSide ReacDecode Daemon HalDriver DeviceSystem
open DaemonLedger (position)

structure Origin where
  packet : Nat
  frame : Nat
  deriving DecidableEq, Repr

structure Delivery where
  origin : Origin
  row : Nat → Rat

structure Trail where
  system : System
  packets : List Bytes
  stream : List Origin
  taken : Nat
  delivered : List Delivery

def readPosition (ring : Option (SharedRing Rat)) : UInt64 :=
  (ring.map (fun ring => ring.header.readPos)).getD 0

def received (before after : System) : Action → List Bytes
  | .capture (.frame packet _ _) =>
    if after.loop.daemon.receivedPackets = before.loop.daemon.receivedPackets then [] else [packet]
  | _ => []

def deliveries (t : Trail) (moved : Nat) : Action → List Delivery
  | .readInput ioMainBuffer ioBufferFrameSize =>
    match t.system.ring with
    | none => []
    | some ring =>
      let r := readInput t.system ring ioMainBuffer ioBufferFrameSize
      (List.range r.count.toNat).map fun i =>
        ⟨t.stream.getD (t.taken + (moved - r.count.toNat) + i) ⟨0,0⟩,
          fun ch => r.out (i * kDeviceChannelCount.toNat + ch)⟩
  | _ => []

def follow (t : Trail) (action : Action) (system : System) : Trail :=
  let moved := (readPosition system.ring - readPosition t.system.ring).toNat
  let written := (position system.ring - position t.system.ring).toNat
  { system
    packets := t.packets ++ received t.system system action
    stream := t.stream ++ (List.range written).map (fun f => ⟨t.packets.length,f⟩)
    taken := t.taken + moved
    delivered := t.delivered ++ deliveries t moved action }

def trace (t : Trail) (action : Action) : Option Trail :=
  (inSession t.system action).map (follow t action)

def recording (t : Trail) (now : Nat) : Trail := follow t (.startIo now) (start t.system now)

def untouched (system : System) : Trail := ⟨system,[],[],0,[]⟩

structure Carried (before after : System) : Prop where
  daemon : after.loop.daemon = {before.loop.daemon with ring := after.ring}
  ring : (before.ring = none ∧ after.ring = none) ∨ ∃ ring ring', before.ring = some ring ∧
    after.ring = some ring' ∧ (Sound ring.header → Moved ring ring')

theorem movedSame {α : Type} (ring : SharedRing α) : Moved ring ring :=
  ⟨rfl,rfl,rfl,rfl,rfl,rfl,rfl,rfl,rfl,Nat.le_refl _⟩

theorem carriedSame {before : System} {after : System} (loop : after.loop = before.loop) :
    Carried before after := by
  have same : after.ring = before.ring := by rw [System.ring, loop]; rfl
  refine ⟨by rw [same, loop]; rfl,?_⟩
  rw [same]
  cases before.ring with
  | none => exact .inl ⟨rfl,rfl⟩
  | some ring => exact .inr ⟨ring,ring,rfl,rfl,fun _ => movedSame ring⟩

theorem startCarried (s : System) (now : Nat) : Carried s (start s now) := by
  refine ⟨rfl,?_⟩
  change (s.ring = none ∧ (startIo s.driver s.ring now).2.2 = none) ∨ ∃ ring ring', s.ring = some ring ∧
    (startIo s.driver s.ring now).2.2 = some ring' ∧ (Sound ring.header → Moved ring ring')
  unfold startIo
  cases s.ring with
  | none =>
    refine .inl ⟨rfl,?_⟩
    split
    · rfl
    split <;> rfl
  | some ring =>
    split
    · exact .inr ⟨ring,ring,rfl,rfl,fun _ => movedSame ring⟩
    split
    · exact .inr ⟨ring,_,rfl,rfl,fun sound => movedSeek sound kDeviceTargetFill⟩
    · exact .inr ⟨ring,ring,rfl,rfl,fun _ => movedSame ring⟩

theorem readMoved (s : System) {ring : SharedRing Rat} (sound : Sound ring.header) (out : Nat → Rat)
    (frames : UInt32) : Moved ring (readInput s ring out frames).ring ∧
      (readInput s ring out frames).count.toNat + fill (readInput s ring out frames).ring.header ≤ fill ring.header := by
  unfold readInput doIOOperation
  split
  · exact ⟨movedRegulated sound out _ _ _ _,regulatedTakes sound out _ _ _ _⟩
  · exact ⟨movedSame ring,by simp⟩

theorem actCarried {s next : System} {action : Action} (step : inSession s action = some next)
    (driver : ∀ c, action ≠ .capture c) : Carried s next := by
  cases action with
  | capture c => exact absurd rfl (driver c)
  | startIo now =>
    simp only [inSession, act] at step
    split at step
    · contradiction
    · cases Option.some.inj step
      exact startCarried s now
  | stopIo =>
    simp only [inSession, act] at step
    split at step
    · contradiction
    · cases Option.some.inj step
      exact carriedSame rfl
  | getZeroTimeStamp contended now =>
    simp only [inSession, act] at step
    split at step
    · contradiction
    · cases Option.some.inj step
      exact carriedSame rfl
  | readInput out frames =>
    simp only [inSession, act] at step
    split at step
    · contradiction
    · cases Option.some.inj step
      refine ⟨rfl,?_⟩
      change (s.ring = none ∧ s.ring.map (fun ring => (readInput s ring out frames).ring) = none) ∨
        ∃ ring ring', s.ring = some ring ∧
          s.ring.map (fun ring => (readInput s ring out frames).ring) = some ring' ∧
          (Sound ring.header → Moved ring ring')
      cases s.ring with
      | none => exact .inl ⟨rfl,rfl⟩
      | some ring => exact .inr ⟨ring,_,rfl,rfl,fun sound => (readMoved s sound out frames).1⟩

structure Tracked (t : Trail) : Prop where
  empty : t.system.ring = none → t.packets = [] ∧ t.stream = [] ∧ t.taken = 0
  live : ∀ ring, t.system.ring = some ring → Ready ring t.system.loop.daemon.channels ∧
    t.taken + fill ring.header = t.stream.length

theorem carriedTracked {t : Trail} (tracked : Tracked t) (action : Action) {next : System}
    (carried : Carried t.system next) (driver : ∀ c, action ≠ .capture c) :
    Tracked (follow t action next) ∧ (follow t action next).packets = t.packets ∧
      (follow t action next).stream = t.stream ∧ t.taken ≤ (follow t action next).taken := by
  have nothing : received t.system next action = [] := by
    cases action with
    | capture c => exact absurd rfl (driver c)
    | _ => rfl
  have channels : next.loop.daemon.channels = t.system.loop.daemon.channels := by rw [carried.daemon]
  rcases carried.ring with ⟨before,after⟩ | ⟨ring,ring',before,after,moved⟩
  · have unwritten : (position next.ring - position t.system.ring).toNat = 0 := by
      rw [before, after]
      rfl
    have unread : (readPosition next.ring - readPosition t.system.ring).toNat = 0 := by
      rw [before, after]
      rfl
    have same : follow t action next = ⟨next,t.packets,t.stream,t.taken,
        t.delivered ++ deliveries t 0 action⟩ := by
      simp [follow, nothing, unwritten, unread]
    rw [same]
    refine ⟨⟨fun _ => tracked.empty before,fun ring there => ?_⟩,rfl,rfl,Nat.le_refl _⟩
    simp only [after, reduceCtorEq] at there
  · obtain ⟨ready,sum⟩ := tracked.live ring before
    have moved_ := moved ready.sound
    have unwritten : (position next.ring - position t.system.ring).toNat = 0 := by
      rw [before, after]
      simp [position, moved_.writePos]
    have distance : (readPosition next.ring - readPosition t.system.ring).toNat =
        fill ring.header - fill ring'.header := by
      rw [before, after]
      exact movedDistance moved_
    have same : follow t action next = ⟨next,t.packets,t.stream,
        t.taken + (fill ring.header - fill ring'.header),
        t.delivered ++ deliveries t (fill ring.header - fill ring'.header) action⟩ := by
      simp [follow, nothing, unwritten, distance]
    rw [same]
    refine ⟨⟨fun missing => ?_,fun r there => ?_⟩,rfl,rfl,Nat.le_add_right _ _⟩
    · simp only [after, reduceCtorEq] at missing
    · obtain rfl := Option.some.inj (after.symm.trans there)
      have := moved_.fillLe
      rw [channels]
      refine ⟨⟨movedSound moved_ ready.sound,moved_.capacityFrames.trans ready.capacity,
        moved_.channels.trans ready.channelsEq⟩,?_⟩
      simp only
      omega

theorem lookedUp {stream : List Origin} {i : Nat} (inside : i < stream.length) (default_ : Origin) :
    stream[i]? = some (stream.getD i default_) := by
  rw [List.getD_eq_getElem?_getD, List.getElem?_eq_getElem inside, Option.getD_some]

theorem readDistance {s next : System} {ring : SharedRing Rat} (sound : Sound ring.header)
    (there : s.ring = some ring) {out : Nat → Rat} {frames : UInt32}
    (step : inSession s (.readInput out frames) = some next) :
    (readPosition next.ring - readPosition s.ring).toNat =
      fill ring.header - fill (readInput s ring out frames).ring.header := by
  simp only [inSession, act] at step
  split at step
  · contradiction
  have after : next.ring = s.ring.map (fun ring => (readInput s ring out frames).ring) := by
    rw [← Option.some.inj step]
    rfl
  rw [after, there]
  exact movedDistance (readMoved s sound out frames).1

theorem deliveredFromStream {t : Trail} (tracked : Tracked t) {action : Action} {next : System}
    (step : inSession t.system action = some next) {d : Delivery}
    (member : d ∈ deliveries t (readPosition next.ring - readPosition t.system.ring).toNat action) :
    ∃ i, t.taken ≤ i ∧ t.stream[i]? = some d.origin := by
  cases action with
  | readInput out frames =>
    cases there : t.system.ring with
    | none => simp [deliveries, there] at member
    | some ring =>
      obtain ⟨ready,sum⟩ := tracked.live ring there
      obtain ⟨moved,takes⟩ := readMoved t.system ready.sound out frames
      rw [readDistance ready.sound there step] at member
      simp only [deliveries, there, List.mem_map, List.mem_range] at member
      obtain ⟨i,inside,rfl⟩ := member
      have bound : t.taken + (fill ring.header - fill (readInput t.system ring out frames).ring.header -
          (readInput t.system ring out frames).count.toNat) + i < t.stream.length := by omega
      refine ⟨_,?_,lookedUp bound ⟨0,0⟩⟩
      omega
  | capture c => exact absurd member List.not_mem_nil
  | startIo now => exact absurd member List.not_mem_nil
  | stopIo => exact absurd member List.not_mem_nil
  | getZeroTimeStamp contended now => exact absurd member List.not_mem_nil

section
variable {t : Trail} {loop : Loop} {c : Capture}

theorem quietFollow (ring : loop.daemon.ring = t.system.ring)
    (nothing : received t.system {t.system with loop} (.capture c) = []) :
    follow t (.capture c) {t.system with loop} = {t with system := {t.system with loop}} := by
  have sameRing : ({t.system with loop} : System).ring = t.system.ring := ring
  simp [follow, nothing, sameRing, deliveries]

theorem openedPlace (tracked : Tracked t) {channels : UInt16} {ring : SharedRing Rat}
    (opened : Opened t.system.loop.daemon channels ring) :
    Ready ring channels ∧ t.taken + fill ring.header = t.stream.length ∧
      position t.system.ring = ring.header.writePos ∧ readPosition t.system.ring = ring.header.readPos := by
  rcases opened with ⟨there,rfl⟩ | ⟨missing,rfl⟩
  · have there_ : t.system.ring = some ring := there
    obtain ⟨ready,sum⟩ := tracked.live ring there
    rw [there_]
    exact ⟨ready,sum,rfl,rfl⟩
  · have missing_ : t.system.ring = none := missing
    obtain ⟨_,stream,taken⟩ := tracked.empty missing
    rw [missing_, stream, taken]
    exact ⟨readyCreated channels,by rw [createdFill]; rfl,rfl,rfl⟩

theorem packetFollow {packet : Bytes} {channels : UInt16} {ring : SharedRing Rat} (ready : Ready ring channels)
    (written : position t.system.ring = ring.header.writePos)
    (readPos : readPosition t.system.ring = ring.header.readPos) {storage : Nat → Nat → Rat} {hostTime : UInt64}
    (now : loop.daemon.ring = some (storePacket ring storage hostTime))
    (counts : received t.system {t.system with loop} (.capture c) = [packet]) :
    follow t (.capture c) {t.system with loop} = ⟨{t.system with loop},t.packets ++ [packet],
      t.stream ++ (if 12 ≤ 48000 - fill ring.header
        then (List.range 12).map (fun f => ⟨t.packets.length,f⟩) else []),t.taken,t.delivered⟩ := by
  have capacity := readyCapacity ready
  have after : ({t.system with loop} : System).ring = some (storePacket ring storage hostTime) := now
  rcases Nat.lt_or_ge (48000 - fill ring.header) 12 with full | fits
  · have refused := storeRefused ready.sound storage hostTime (by rw [capacity]; exact full)
    have unwritten : (position (some (storePacket ring storage hostTime)) - ring.header.writePos).toNat = 0 := by
      simp [position, refused]
    have unread : (readPosition (some (storePacket ring storage hostTime)) - ring.header.readPos).toNat = 0 := by
      simp [readPosition, refused]
    rw [if_neg (by omega)]
    simp [follow, counts, after, written, readPos, unwritten, unread, deliveries]
  · have accepted := storeAccepted ready.sound storage hostTime (by rw [capacity]; exact fits)
    have twelve : (position (some (storePacket ring storage hostTime)) - ring.header.writePos).toNat = 12 := by
      simp only [position, accepted, Option.map_some, Option.getD_some, packetLength]
    have unread : (readPosition (some (storePacket ring storage hostTime)) - ring.header.readPos).toNat = 0 := by
      simp [readPosition, accepted]
    rw [if_pos fits]
    simp [follow, counts, after, written, readPos, twelve, unread, deliveries]

end

theorem captureFollow {t : Trail} (tracked : Tracked t) {c : Capture} {next : System}
    (step : inSession t.system (.capture c) = some next) : next.driver = t.system.driver ∧
    ((next.ring = t.system.ring ∧ next.loop.daemon.channels = t.system.loop.daemon.channels ∧
      follow t (.capture c) next = {t with system := next}) ∨
    ∃ packet channels ring storage hostTime, WellFormed packet channels.toNat ∧
      Holds storage packet channels.toNat ∧ Opened t.system.loop.daemon channels ring ∧ Ready ring channels ∧
      t.taken + fill ring.header = t.stream.length ∧
      next.ring = some (storePacket ring storage hostTime) ∧ next.loop.daemon.channels = channels ∧
      follow t (.capture c) next = ⟨next,t.packets ++ [packet],
        t.stream ++ (if 12 ≤ 48000 - fill ring.header
          then (List.range 12).map (fun f => ⟨t.packets.length,f⟩) else []),t.taken,t.delivered⟩) := by
  obtain ⟨loop,round,rfl⟩ := Option.map_eq_some_iff.mp step
  refine ⟨rfl,?_⟩
  cases c with
  | timeout =>
    cases Option.some.inj round
    exact .inl ⟨rfl,rfl,quietFollow rfl rfl⟩
  | error =>
    cases Option.some.inj round
    exact .inl ⟨rfl,rfl,quietFollow rfl rfl⟩
  | frame packet created hostTime =>
    rcases captureFrameCases round with same | same | ⟨channels,ring,counter,storage,formed,opened,holds,took⟩
    · exact .inl ⟨by rw [System.ring, same]; rfl,by rw [same],
        quietFollow (by rw [same]; rfl) (by simp [received, same])⟩
    · exact .inl ⟨by rw [System.ring, same]; rfl,by rw [same]; rfl,
        quietFollow (by rw [same]; rfl) (by simp [received, same, countMalformed])⟩
    · have now : loop.daemon.ring = some (storePacket ring storage hostTime) := by
        rw [took]
        rfl
      obtain ⟨ready,sum,written,readPos⟩ := openedPlace tracked opened
      have counts : received t.system {t.system with loop} (.capture (.frame packet created hostTime)) = [packet] := by
        have more : loop.daemon.receivedPackets = t.system.loop.daemon.receivedPackets + 1 := by
          rw [took]
          rfl
        simp [received, more]
      exact .inr ⟨packet,channels,ring,storage,hostTime,formed,holds,opened,ready,sum,now,by rw [took]; rfl,
        packetFollow ready written readPos now counts⟩

theorem captureTracked {t : Trail} (tracked : Tracked t) {c : Capture} {next : System}
    (step : inSession t.system (.capture c) = some next) : Tracked (follow t (.capture c) next) := by
  rcases (captureFollow tracked step).2 with ⟨ring,channels,same⟩ |
    ⟨packet,channels,ring,storage,hostTime,_,_,_,ready,sum,now,shape,same⟩
  · rw [same]
    refine ⟨fun missing => tracked.empty (ring.symm.trans missing),fun r there => ?_⟩
    rw [channels]
    exact tracked.live r (ring.symm.trans there)
  · have capacity := readyCapacity ready
    rw [same]
    refine ⟨fun missing => ?_,fun r there => ?_⟩
    · simp only [now, reduceCtorEq] at missing
    · obtain rfl := Option.some.inj (now.symm.trans there)
      rw [shape]
      refine ⟨readyStored ready storage hostTime,?_⟩
      simp only [List.length_append]
      split
      · rename_i fits
        rw [storeAccepted ready.sound storage hostTime (by rw [capacity]; exact fits), List.length_map,
          List.length_range]
        have filled := acceptedFill (h := ring.header) (by rw [capacity]; exact fits)
        change t.taken + (ring.header.writePos + 12 - ring.header.readPos).toNat = t.stream.length + 12
        omega
      · rename_i full
        rw [storeRefused ready.sound storage hostTime (by rw [capacity]; omega)]
        exact sum

theorem traceTracked (t : Trail) (action : Action) (next : Trail) (tracked : Tracked t)
    (taken : trace t action = some next) : Tracked next := by
  obtain ⟨system,step,rfl⟩ := Option.map_eq_some_iff.mp taken
  by_cases captured : ∃ c, action = .capture c
  · obtain ⟨c,rfl⟩ := captured
    exact captureTracked tracked step
  · have driver : ∀ c, action ≠ .capture c := fun c same => captured ⟨c,same⟩
    exact (carriedTracked tracked action (actCarried step driver) driver).1

end ReacJack.AudioTrail
