import ReacJack.DaemonSpec
import ReacJack.ReaderSide

/-! Books kept beside the daemon's capture loop: what was captured, what was counted as
received, what the ring took, and the audio frames as they lay in the ring after each
write. Readers use the ring between rounds as they like. -/
namespace ReacJack.DaemonLedger
open CircularBuffer TransitionRuns SharedAudio SharedLedger ReaderSide ReacDecode Daemon

def packetFrames (packet : Bytes) (channels : Nat) : List (List Rat) :=
  (List.range 12).map fun f => (List.range channels).map fun ch => packetSample packet channels ch f

structure Books where
  loop : Loop
  captured : Nat
  received : List Bytes
  accepted : List Bytes
  written : List (List Rat)

def opening (loop : Loop) : Books := ⟨loop,0,[],[],[]⟩

def position (ring : Option (SharedRing Rat)) : UInt64 := (ring.map (fun ring => ring.header.writePos)).getD 0

def freshFrames (before : UInt64) (ring : SharedRing Rat) : List (List Rat) :=
  (List.range (ring.header.writePos - before).toNat).map fun f =>
    (List.range ring.header.channels.toNat).map fun ch =>
      ring.samples (slot ring.header.capacityFrames.toNat ch (before.toNat + f))

def record (b : Books) (packet : Bytes) (next : Loop) : Books where
  loop := next
  captured := b.captured + 1
  received :=
    if next.daemon.receivedPackets = b.loop.daemon.receivedPackets then b.received
    else b.received ++ [packet]
  accepted :=
    if position next.daemon.ring = position b.loop.daemon.ring then b.accepted
    else b.accepted ++ [packet]
  written := b.written ++ (next.daemon.ring.map (freshFrames (position b.loop.daemon.ring))).getD []

def withRing (b : Books) (ring : SharedRing Rat) : Books :=
  {b with loop := {b.loop with daemon := {b.loop.daemon with ring := some ring}}}

inductive Event where
  | capture (c : Capture)
  | reader (call : Call Rat)

def step (b : Books) : Event → Option Books
  | .capture (.frame packet created hostTime) =>
    (captureRound b.loop (.frame packet created hostTime)).map (record b packet)
  | .capture c => (captureRound b.loop c).map (fun loop => {b with loop})
  | .reader call =>
    if readerCall call then
      b.loop.daemon.ring.map (fun ring => withRing b (perform (ring,blank) call).1)
    else none

structure RingBalanced (b : Books) (ring : SharedRing Rat) : Prop where
  ready : Ready ring b.loop.daemon.channels
  overruns : ring.header.overruns = ring.header.droppedPackets
  writePos : ring.header.writePos = 12 * (b.loop.daemon.receivedPackets - ring.header.droppedPackets)
  clockSeq : ring.header.clockSeq = 2 * (b.loop.daemon.receivedPackets - ring.header.droppedPackets)
  clock : b.accepted ≠ [] → ring.header.clockSamplePos = ring.header.writePos
  shape : ∀ packet ∈ b.received, WellFormed packet ring.header.channels.toNat
  written : b.written = b.accepted.flatMap (fun packet => packetFrames packet ring.header.channels.toNat)

structure Balanced (b : Books) : Prop where
  counted : b.loop.daemon.receivedPackets + b.loop.daemon.nonReacPackets +
    b.loop.daemon.malformedPackets = UInt64.ofNat b.captured
  accepted : b.accepted.Sublist b.received
  unopened : b.loop.daemon.ring = none → b.received = [] ∧ b.written = [] ∧
    b.loop.daemon.receivedPackets = 0
  opened : ∀ ring, b.loop.daemon.ring = some ring → RingBalanced b ring

def CountedOnce (before after : ReacDaemon) : Prop :=
  (after.receivedPackets = before.receivedPackets + 1 ∧ after.nonReacPackets = before.nonReacPackets ∧
    after.malformedPackets = before.malformedPackets) ∨
  (after.receivedPackets = before.receivedPackets ∧ after.nonReacPackets = before.nonReacPackets + 1 ∧
    after.malformedPackets = before.malformedPackets) ∨
  (after.receivedPackets = before.receivedPackets ∧ after.nonReacPackets = before.nonReacPackets ∧
    after.malformedPackets = before.malformedPackets + 1)

theorem frameCountedOnce {s next : Loop} {packet : Bytes} {created : Bool} {hostTime : UInt64}
    (taken : captureRound s (.frame packet created hostTime) = some next) :
    CountedOnce s.daemon next.daemon := by
  rcases captureFrameCases taken with same | same | ⟨channels,ring,counter,storage,_,_,_,same⟩
  · rw [same]
    exact .inr (.inl ⟨rfl,rfl,rfl⟩)
  · rw [same]
    exact .inr (.inr ⟨rfl,rfl,rfl⟩)
  · rw [same]
    exact .inl ⟨rfl,rfl,rfl⟩

theorem countedSum {before after : ReacDaemon} (once : CountedOnce before after) {n : Nat}
    (sum : before.receivedPackets + before.nonReacPackets + before.malformedPackets = UInt64.ofNat n) :
    after.receivedPackets + after.nonReacPackets + after.malformedPackets = UInt64.ofNat (n + 1) := by
  rw [UInt64.ofNat_add, ← sum]
  rcases once with ⟨a,b,c⟩ | ⟨a,b,c⟩ | ⟨a,b,c⟩ <;> rw [a, b, c] <;> grind

theorem freshPacket {ring : SharedRing Rat} {storage : Nat → Nat → Rat} {packet : Bytes}
    (holds : Holds storage packet ring.header.channels.toNat) (sound : Sound ring.header)
    (hostTime : UInt64) (fits : 12 ≤ ring.header.capacityFrames.toNat - fill ring.header) :
    freshFrames ring.header.writePos (storePacket ring storage hostTime) =
      packetFrames packet ring.header.channels.toNat := by
  rw [storeAccepted sound storage hostTime fits]
  simp only [freshFrames, packetFrames, packetLength]
  refine List.map_congr_left fun f inside => List.map_congr_left fun ch channel => ?_
  rw [List.mem_range] at inside channel
  rw [copyInAllAt _ _ (by omega) inside channel]
  exact holds ch f channel inside

theorem freshNone (ring : SharedRing Rat) : freshFrames ring.header.writePos ring = [] := by
  simp [freshFrames]

theorem recordSame {b : Books} (balanced : Balanced b) (packet : Bytes) {next : Loop}
    (once : CountedOnce b.loop.daemon next.daemon)
    (ring : next.daemon.ring = b.loop.daemon.ring) (channels : next.daemon.channels = b.loop.daemon.channels)
    (received : next.daemon.receivedPackets = b.loop.daemon.receivedPackets) :
    Balanced (record b packet next) := by
  have fresh : (b.loop.daemon.ring.map (freshFrames (position b.loop.daemon.ring))).getD [] = [] := by
    cases b.loop.daemon.ring with
    | none => rfl
    | some ring => exact freshNone ring
  obtain ⟨counted,accepted,unopened,opened⟩ := balanced
  have same : record b packet next = {b with loop := next, captured := b.captured + 1} := by
    simp only [record, ring, received, if_true, fresh, List.append_nil]
  rw [same]
  refine ⟨countedSum once counted,accepted,?_,?_⟩
  · intro missing
    rw [ring] at missing
    obtain ⟨noneReceived,nothing,zero⟩ := unopened missing
    exact ⟨noneReceived,nothing,received.trans zero⟩
  · intro r there
    rw [ring] at there
    obtain ⟨ready,overruns,writePos,clockSeq,clock,shape,written⟩ := opened r there
    exact ⟨by rw [channels]; exact ready,overruns,by rw [received]; exact writePos,
      by rw [received]; exact clockSeq,clock,shape,written⟩

structure Arriving (b : Books) (channels : UInt16) (ring : SharedRing Rat) : Prop where
  ready : Ready ring channels
  overruns : ring.header.overruns = ring.header.droppedPackets
  writePos : ring.header.writePos = 12 * (b.loop.daemon.receivedPackets - ring.header.droppedPackets)
  clockSeq : ring.header.clockSeq = 2 * (b.loop.daemon.receivedPackets - ring.header.droppedPackets)
  clock : b.accepted ≠ [] → ring.header.clockSamplePos = ring.header.writePos
  shape : ∀ packet ∈ b.received, WellFormed packet ring.header.channels.toNat
  written : b.written = b.accepted.flatMap (fun packet => packetFrames packet ring.header.channels.toNat)
  position : position b.loop.daemon.ring = ring.header.writePos

theorem openedArriving {b : Books} (balanced : Balanced b) {channels : UInt16} {ring : SharedRing Rat}
    (opened : Opened b.loop.daemon channels ring) : Arriving b channels ring := by
  rcases opened with ⟨there,rfl⟩ | ⟨missing,rfl⟩
  · obtain ⟨ready,overruns,writePos,clockSeq,clock,shape,written⟩ := balanced.opened ring there
    exact ⟨ready,overruns,writePos,clockSeq,clock,shape,written,by rw [there]; rfl⟩
  · obtain ⟨noneReceived,nothing,zero⟩ := balanced.unopened missing
    have noneAccepted : b.accepted = [] := by
      have := balanced.accepted
      rw [noneReceived] at this
      exact List.sublist_nil.mp this
    refine ⟨readyCreated channels,rfl,?_,?_,?_,?_,?_,?_⟩
    · rw [zero]
      exact show (0 : UInt64) = 12 * (0 - 0) by decide
    · rw [zero]
      exact show (0 : UInt64) = 2 * (0 - 0) by decide
    · exact fun some => absurd noneAccepted some
    · rw [noneReceived]
      exact fun _ member => absurd member List.not_mem_nil
    · rw [nothing, noneAccepted]
      rfl
    · rw [missing]
      rfl

section
variable {b : Books} {packet : Bytes} {next : Loop} {channels counter : UInt16} {ring : SharedRing Rat}
  {storage : Nat → Nat → Rat} {hostTime : UInt64}

theorem arrivingShape (arriving : Arriving b channels ring) (wellFormed : WellFormed packet channels.toNat) :
    ∀ p ∈ b.received ++ [packet], WellFormed p ring.header.channels.toNat := by
  intro p member
  rcases List.mem_append.mp member with old | new
  · exact arriving.shape p old
  · rw [List.mem_singleton.mp new, arriving.ready.channelsEq, UInt16.toNat_toUInt32]
    exact wellFormed

theorem refusedRing (arriving : Arriving b channels ring) (wellFormed : WellFormed packet channels.toNat)
    (taken : next.daemon = takePacket b.loop.daemon channels (storePacket ring storage hostTime) counter)
    (full : ring.header.capacityFrames.toNat - fill ring.header < 12) :
    RingBalanced ⟨next,b.captured + 1,b.received ++ [packet],b.accepted,b.written⟩
      (storePacket ring storage hostTime) := by
  have kept := readyStored arriving.ready storage hostTime
  have refused := storeRefused arriving.ready.sound storage hostTime full
  have shape := arrivingShape arriving wellFormed
  have receivedNow : next.daemon.receivedPackets = b.loop.daemon.receivedPackets + 1 := congrArg _ taken
  have channelsNow : next.daemon.channels = channels := congrArg ReacDaemon.channels taken
  refine ⟨by rw [channelsNow]; exact kept,?_,?_,?_,?_,?_,?_⟩
  all_goals rw [refused]
  · simp only [arriving.overruns]
  · simp only [receivedNow, arriving.writePos]
    grind
  · simp only [receivedNow, arriving.clockSeq]
    grind
  · exact arriving.clock
  · exact shape
  · exact arriving.written

theorem storedRing (arriving : Arriving b channels ring) (wellFormed : WellFormed packet channels.toNat)
    (taken : next.daemon = takePacket b.loop.daemon channels (storePacket ring storage hostTime) counter)
    (fits : 12 ≤ ring.header.capacityFrames.toNat - fill ring.header) :
    RingBalanced ⟨next,b.captured + 1,b.received ++ [packet],b.accepted ++ [packet],
      b.written ++ packetFrames packet ring.header.channels.toNat⟩ (storePacket ring storage hostTime) := by
  have kept := readyStored arriving.ready storage hostTime
  have accepted := storeAccepted arriving.ready.sound storage hostTime fits
  have shape := arrivingShape arriving wellFormed
  have receivedNow : next.daemon.receivedPackets = b.loop.daemon.receivedPackets + 1 := congrArg _ taken
  have channelsNow : next.daemon.channels = channels := congrArg ReacDaemon.channels taken
  refine ⟨by rw [channelsNow]; exact kept,?_,?_,?_,?_,?_,?_⟩
  all_goals rw [accepted]
  · exact arriving.overruns
  · simp only [receivedNow, arriving.writePos]
    grind
  · simp only [receivedNow, arriving.clockSeq]
    grind
  · exact fun _ => rfl
  · exact shape
  · simp only [arriving.written, List.flatMap_append, List.flatMap_singleton]

theorem recordReceived (arriving : Arriving b channels ring)
    (taken : next.daemon = takePacket b.loop.daemon channels (storePacket ring storage hostTime) counter) :
    record b packet next = ⟨next,b.captured + 1,b.received ++ [packet],
      if (storePacket ring storage hostTime).header.writePos = ring.header.writePos then b.accepted
      else b.accepted ++ [packet],
      b.written ++ freshFrames ring.header.writePos (storePacket ring storage hostTime)⟩ := by
  have ringNow : next.daemon.ring = some (storePacket ring storage hostTime) := congrArg ReacDaemon.ring taken
  have receivedNow : next.daemon.receivedPackets = b.loop.daemon.receivedPackets + 1 := congrArg _ taken
  have more : ¬ b.loop.daemon.receivedPackets + 1 = b.loop.daemon.receivedPackets := by simp
  rw [record, receivedNow, arriving.position, ringNow]
  simp only [more, if_false, position, Option.map_some, Option.getD_some]
  rfl

theorem receivedBalanced (balanced : Balanced b) {accepted : List Bytes} {written : List (List Rat)}
    (taken : next.daemon = takePacket b.loop.daemon channels (storePacket ring storage hostTime) counter)
    (order : accepted.Sublist (b.received ++ [packet]))
    (opened : RingBalanced ⟨next,b.captured + 1,b.received ++ [packet],accepted,written⟩
      (storePacket ring storage hostTime)) :
    Balanced ⟨next,b.captured + 1,b.received ++ [packet],accepted,written⟩ := by
  have ringNow : next.daemon.ring = some (storePacket ring storage hostTime) := congrArg ReacDaemon.ring taken
  have once : CountedOnce b.loop.daemon next.daemon := by
    rw [taken]
    exact .inl ⟨rfl,rfl,rfl⟩
  refine ⟨countedSum once balanced.counted,order,fun missing => ?_,fun r there => ?_⟩
  · simp only [ringNow, reduceCtorEq] at missing
  · obtain rfl := Option.some.inj (ringNow.symm.trans there)
    exact opened

theorem recordTaken (balanced : Balanced b) (wellFormed : WellFormed packet channels.toNat)
    (opened : Opened b.loop.daemon channels ring) (holds : Holds storage packet channels.toNat)
    (taken : next.daemon = takePacket b.loop.daemon channels (storePacket ring storage hostTime) counter) :
    Balanced (record b packet next) := by
  have arriving := openedArriving balanced opened
  have sound := arriving.ready.sound
  have channelsNat : ring.header.channels.toNat = channels.toNat := by
    rw [arriving.ready.channelsEq, UInt16.toNat_toUInt32]
  rw [← channelsNat] at holds
  rw [recordReceived arriving taken]
  rcases Nat.lt_or_ge (ring.header.capacityFrames.toNat - fill ring.header) 12 with full | fits
  · have refused := storeRefused sound storage hostTime full
    have unmoved : (storePacket ring storage hostTime).header.writePos = ring.header.writePos := by rw [refused]
    have fresh : freshFrames ring.header.writePos (storePacket ring storage hostTime) = [] := by
      rw [refused]
      exact freshNone ring
    rw [if_pos unmoved, fresh, List.append_nil]
    exact receivedBalanced balanced taken (balanced.accepted.trans (List.sublist_append_left _ _))
      (refusedRing arriving wellFormed taken full)
  · have accepted := storeAccepted sound storage hostTime fits
    have apart : ¬ (storePacket ring storage hostTime).header.writePos = ring.header.writePos := by
      rw [accepted]
      simp
    rw [if_neg apart, freshPacket holds sound hostTime fits]
    exact receivedBalanced balanced taken (balanced.accepted.append (List.Sublist.refl _))
      (storedRing arriving wellFormed taken fits)

end

theorem readerBalanced {b : Books} (balanced : Balanced b) {ring : SharedRing Rat}
    (there : b.loop.daemon.ring = some ring) {call : Call Rat} (reads : readerCall call = true) :
    Balanced (withRing b (perform (ring,blank) call).1) := by
  obtain ⟨ready,overruns,writePos,clockSeq,clock,shape,written⟩ := balanced.opened ring there
  have moved : Moved ring (perform (ring,blank) call).1 := movedCall (s := (ring,blank)) ready.sound reads
  refine ⟨balanced.counted,balanced.accepted,fun missing => ?_,?_⟩
  · simp only [withRing, reduceCtorEq] at missing
  · intro r now
    obtain rfl := Option.some.inj now
    refine ⟨⟨movedSound moved ready.sound,?_,?_⟩,?_,?_,?_,?_,?_,?_⟩
    · exact moved.capacityFrames.trans ready.capacity
    · exact moved.channels.trans ready.channelsEq
    · rw [moved.overruns, moved.droppedPackets, overruns]
    · rw [moved.writePos, moved.droppedPackets]
      exact writePos
    · rw [moved.clockSeq, moved.droppedPackets]
      exact clockSeq
    · rw [moved.clockSamplePos, moved.writePos]
      exact clock
    · rw [moved.channels]
      exact shape
    · rw [moved.channels]
      exact written

theorem stepBalanced (b : Books) (event : Event) (next : Books) (balanced : Balanced b)
    (taken : step b event = some next) : Balanced next := by
  cases event with
  | capture c =>
    cases c with
    | timeout =>
      cases Option.some.inj taken
      exact balanced
    | error =>
      cases Option.some.inj taken
      obtain ⟨counted,accepted,unopened,opened⟩ := balanced
      refine ⟨counted,accepted,unopened,fun ring there => ?_⟩
      obtain ⟨ready,overruns,writePos,clockSeq,clock,shape,written⟩ := opened ring there
      exact ⟨ready,overruns,writePos,clockSeq,clock,shape,written⟩
    | frame packet created hostTime =>
      obtain ⟨loop,round,rfl⟩ := Option.map_eq_some_iff.mp taken
      have once := frameCountedOnce round
      rcases captureFrameCases round with same | same | ⟨channels,ring,counter,storage,formed,opened,holds,took⟩
      · exact recordSame balanced packet once (by rw [same]) (by rw [same]) (by rw [same])
      · exact recordSame balanced packet once (by rw [same]; rfl) (by rw [same]; rfl) (by rw [same]; rfl)
      · exact recordTaken balanced formed opened holds took
  | reader call =>
    simp only [step] at taken
    split at taken
    · rename_i reads
      obtain ⟨ring,there,rfl⟩ := Option.map_eq_some_iff.mp taken
      exact readerBalanced balanced there reads
    · contradiction

theorem openingBalanced {channels : UInt16} {storage : Nat → Nat → Rat} {created : Bool} {start : Loop}
    (started : runCapture (daemonOf channels) storage created = some start) : Balanced (opening start) := by
  rcases startedLoop started rfl with rfl | rfl
  · exact ⟨rfl,List.Sublist.refl _,fun _ => ⟨rfl,rfl,rfl⟩,fun ring there => by contradiction⟩
  · refine ⟨rfl,List.Sublist.refl _,fun missing => ?_,?_⟩
    · contradiction
    · intro ring there
      obtain rfl := Option.some.inj there
      exact ⟨readyCreated channels,rfl,show (0 : UInt64) = 12 * (0 - 0) by decide,
        show (0 : UInt64) = 2 * (0 - 0) by decide,fun some => absurd rfl some,
        fun _ member => absurd member List.not_mem_nil,rfl⟩

def HasChannels (channels : UInt32) (b : Books) : Prop :=
  ∃ ring, b.loop.daemon.ring = some ring ∧ ring.header.channels = channels

theorem storeChannels (ring : SharedRing Rat) (storage : Nat → Nat → Rat) (hostTime : UInt64) :
    (storePacket ring storage hostTime).header.channels = ring.header.channels := by
  simp only [storePacket, sharedAudioWrite]
  split <;> rfl

theorem stepChannels {channels : UInt32} (b : Books) (event : Event) (next : Books)
    (kept : Balanced b ∧ HasChannels channels b) (taken : step b event = some next) :
    Balanced next ∧ HasChannels channels next := by
  refine ⟨stepBalanced b event next kept.1 taken,?_⟩
  obtain ⟨balanced,ring,there,same⟩ := kept
  cases event with
  | capture c =>
    cases c with
    | timeout =>
      cases Option.some.inj taken
      exact ⟨ring,there,same⟩
    | error =>
      cases Option.some.inj taken
      exact ⟨ring,there,same⟩
    | frame packet created hostTime =>
      obtain ⟨loop,round,rfl⟩ := Option.map_eq_some_iff.mp taken
      rcases captureFrameCases round with now | now | ⟨_,ring',_,storage,_,opened,_,now⟩
      · exact ⟨ring,by simp only [record, now, there],same⟩
      · exact ⟨ring,by simp only [record, now, countMalformed, there],same⟩
      · refine ⟨storePacket ring' storage hostTime,by simp only [record, now]; rfl,?_⟩
        rcases opened with ⟨there',_⟩ | ⟨missing,_⟩
        · obtain rfl := Option.some.inj (there.symm.trans there')
          rw [storeChannels]
          exact same
        · rw [there] at missing
          contradiction
  | reader call =>
    simp only [step] at taken
    split at taken
    · rename_i reads
      obtain ⟨ring',there',rfl⟩ := Option.map_eq_some_iff.mp taken
      obtain rfl := Option.some.inj (there.symm.trans there')
      have moved : Moved ring (perform (ring,blank) call).1 :=
        movedCall (s := (ring,blank)) (balanced.opened ring there).ready.sound reads
      exact ⟨_,rfl,moved.channels.trans same⟩
    · contradiction

theorem roundTotal (s : Loop) (packet : Bytes) (hostTime : UInt64) :
    ∃ next, captureRound s (.frame packet true hostTime) = some next := by
  simp only [captureRound, captureFrame]
  split
  · exact ⟨_,rfl⟩
  split
  · exact ⟨_,rfl⟩
  obtain ⟨daemon,ring,opened,there⟩ := ensureTotal s.daemon
    ((reacParsePacket (some packet) (some cleared)).2.getD cleared).channels
  rw [opened, Option.bind_some]
  split
  · exact ⟨_,rfl⟩
  split
  · exact ⟨_,rfl⟩
  · simp only [there, Option.map_some]
    exact ⟨_,rfl⟩

end ReacJack.DaemonLedger
