import ReacJack.AudioTrail
import ReacJack.ReacWire

/-! How old the first audio of a recording is. A ring that nobody reads keeps the first
4000 packets and refuses the rest; `StartIO` skips to the newest 400 packets that are
in the ring. These are the newest captured ones just as long as none was refused. -/
namespace ReacJack.RecordingStart
open TransitionRuns SharedAudio ReacDecode ReacWire Daemon HalDriver DeviceSystem AudioTrail

def captureTrail (t : Trail) (c : Capture) : Option Trail := trace t (.capture c)

def origins (n : Nat) : List Origin :=
  (List.range n).flatMap fun k => (List.range 12).map fun f => ⟨k,f⟩

theorem originsSucc (n : Nat) :
    origins (n + 1) = origins n ++ (List.range 12).map fun f => ⟨n,f⟩ := by
  simp only [origins, List.range_succ (n := n), List.flatMap_append, List.flatMap_singleton]

theorem originsLength (n : Nat) : (origins n).length = 12 * n := by
  induction n with
  | zero => rfl
  | succ n ih =>
    rw [originsSucc, List.length_append, ih, List.length_map, List.length_range]
    omega

theorem originsAt {n i : Nat} (inside : i < 12 * n) : (origins n)[i]? = some ⟨i / 12,i % 12⟩ := by
  induction n with
  | zero => omega
  | succ n ih =>
    have length := originsLength n
    rw [originsSucc]
    rcases Nat.lt_or_ge i (12 * n) with old | new
    · rw [List.getElem?_append_left (by omega)]
      exact ih old
    · have here : i - 12 * n < 12 := by omega
      rw [List.getElem?_append_right (by omega), length, List.getElem?_map, List.getElem?_range here]
      have packet : n = i / 12 := by omega
      have frame : i - 12 * n = i % 12 := by omega
      rw [Option.map_some, frame, packet]

structure Waiting (t : Trail) : Prop where
  tracked : Tracked t
  stream : t.stream = origins (min t.packets.length 4000)
  taken : t.taken = 0
  delivered : t.delivered = []
  idle : t.system.driver.ioIsRunning = 0

theorem captureWaiting (t : Trail) (c : Capture) (next : Trail) (waiting : Waiting t)
    (taken : captureTrail t c = some next) : Waiting next := by
  obtain ⟨system,step,rfl⟩ := Option.map_eq_some_iff.mp taken
  have tracked := captureTracked waiting.tracked step
  obtain ⟨driver,quiet | ⟨packet,channels,ring,storage,hostTime,_,_,_,ready,sum,_,_,same⟩⟩ :=
    captureFollow waiting.tracked step
  · obtain ⟨_,_,same⟩ := quiet
    obtain ⟨_,stream,none,delivered,idle⟩ := waiting
    rw [same] at tracked ⊢
    exact ⟨tracked,stream,none,delivered,by simp only [driver]; exact idle⟩
  · obtain ⟨_,stream,none,delivered,idle⟩ := waiting
    rw [stream, none, originsLength] at sum
    rw [same] at tracked ⊢
    refine ⟨tracked,?_,none,delivered,by simp only [driver]; exact idle⟩
    simp only [stream, List.length_append, List.length_singleton]
    split
    · rename_i fits
      have earlier : min t.packets.length 4000 = t.packets.length := by omega
      have later : min (t.packets.length + 1) 4000 = t.packets.length + 1 := by omega
      rw [earlier, later, originsSucc]
    · rename_i full
      have filled : min (t.packets.length + 1) 4000 = min t.packets.length 4000 := by omega
      rw [filled, List.append_nil]

theorem untouchedWaiting {channels : UInt16} {storage : Nat → Nat → Rat} {created : Bool} {loop : Loop}
    (started : runCapture (daemonOf channels) storage created = some loop) (numer denom : UInt32) :
    Waiting (untouched (boot loop numer denom)) := by
  refine ⟨⟨fun _ => ⟨rfl,rfl,rfl⟩,fun ring there => ?_⟩,rfl,rfl,rfl,rfl⟩
  rcases startedLoop started rfl with rfl | rfl
  · contradiction
  · obtain rfl := Option.some.inj there
    exact ⟨readyCreated channels,by rw [createdFill]; rfl⟩

structure Recent (n : Nat) (t : Trail) : Prop where
  tracked : Tracked t
  received : n ≤ t.packets.length
  waiting : ∀ i o, t.taken ≤ i → t.stream[i]? = some o → n ≤ o.packet + 400
  heard : ∀ d ∈ t.delivered, n ≤ d.origin.packet + 400

theorem traceRecent {n : Nat} (t : Trail) (action : Action) (next : Trail) (recent : Recent n t)
    (taken : trace t action = some next) : Recent n next := by
  have tracked := traceTracked t action next recent.tracked taken
  obtain ⟨system,step,rfl⟩ := Option.map_eq_some_iff.mp taken
  obtain ⟨before,received,waiting,heard⟩ := recent
  by_cases captured : ∃ c, action = .capture c
  · obtain ⟨c,rfl⟩ := captured
    rcases (captureFollow before step).2 with ⟨_,_,same⟩ | ⟨packet,_,ring,_,_,_,_,_,_,_,_,_,same⟩
    · rw [same] at tracked ⊢
      exact ⟨tracked,received,waiting,heard⟩
    · rw [same] at tracked ⊢
      refine ⟨tracked,?_,?_,heard⟩
      · rw [List.length_append]
        omega
      · intro i o live found
        rcases Nat.lt_or_ge i t.stream.length with old | new
        · simp only [List.getElem?_append_left old] at found
          exact waiting i o live found
        · simp only [List.getElem?_append_right new] at found
          have member := List.mem_of_getElem? found
          split at member
          · obtain ⟨f,_,rfl⟩ := List.mem_map.mp member
            exact received.trans (Nat.le_add_right _ _)
          · exact absurd member List.not_mem_nil
  · have driver : ∀ c, action ≠ .capture c := fun c same => captured ⟨c,same⟩
    obtain ⟨_,packets,stream,later⟩ := carriedTracked before action (actCarried step driver) driver
    refine ⟨tracked,by rw [packets]; exact received,?_,?_⟩
    · rw [stream]
      exact fun i o live found => waiting i o (later.trans live) found
    · intro d member
      rcases List.mem_append.mp member with old | new
      · exact heard d old
      · obtain ⟨i,live,found⟩ := deliveredFromStream before step new
        exact waiting i d.origin live found

theorem recordingStarts {t : Trail} (waiting : Waiting t) {ring : SharedRing Rat} (there : t.system.ring = some ring)
    (now : Nat) : Tracked (recording t now) ∧ (recording t now).packets = t.packets ∧
      (recording t now).stream = t.stream ∧ (recording t now).delivered = [] ∧
      (recording t now).system.driver.ioIsRunning = 1 ∧ (recording t now).system.driver.ringIsOpen = true ∧
      ∃ ring', (recording t now).system.ring = some ring' ∧
        fill ring'.header = min (12 * min t.packets.length 4000) 4800 := by
  obtain ⟨tracked,packets,stream,_⟩ :=
    carriedTracked waiting.tracked (.startIo now) (startCarried t.system now) nofun
  obtain ⟨ready,sum⟩ := waiting.tracked.live ring there
  have started : start t.system now = {t.system.withRing (some (sharedAudioSeekToFill ring kDeviceTargetFill).2) with
      driver := (startIo t.system.driver (some ring) now).2.1} := by
    simp [start, startIo, waiting.idle, there]
  have driver : (start t.system now).driver.ioIsRunning = 1 ∧ (start t.system now).driver.ringIsOpen = true := by
    rw [started]
    simp [startIo, waiting.idle]
  have filled := seekFill ready.sound kDeviceTargetFill
  have target : kDeviceTargetFill.toNat = 4800 := rfl
  rw [waiting.taken, waiting.stream, originsLength, Nat.zero_add] at sum
  rw [sum, target] at filled
  refine ⟨tracked,packets,stream,?_,driver.1,driver.2,_,?_,filled⟩
  · change t.delivered ++ [] = []
    rw [waiting.delivered]
    rfl
  · change (start t.system now).ring = some (sharedAudioSeekToFill ring kDeviceTargetFill).2
    rw [started]
    rfl

theorem recordingRecent {t : Trail} (waiting : Waiting t) (few : t.packets.length ≤ 4000) (now : Nat) :
    Recent t.packets.length (recording t now) := by
  cases there : t.system.ring with
  | none =>
    obtain ⟨tracked,packets,stream,_⟩ :=
      carriedTracked waiting.tracked (.startIo now) (startCarried t.system now) nofun
    obtain ⟨none,_,_⟩ := waiting.tracked.empty there
    refine ⟨tracked,packets.symm ▸ Nat.le_refl _,?_,?_⟩ <;> rw [none] <;> exact fun _ => by simp
  | some ring =>
    obtain ⟨tracked,packets,stream,delivered,_,_,ring',after,filled⟩ := recordingStarts waiting there now
    have sum := (tracked.live ring' after).2
    have all : min t.packets.length 4000 = t.packets.length := Nat.min_eq_left few
    rw [filled, stream, waiting.stream, originsLength, all] at sum
    refine ⟨tracked,packets.symm ▸ Nat.le_refl _,?_,?_⟩
    · intro i o live found
      rw [stream, waiting.stream, all] at found
      have inside := (List.getElem?_eq_some_iff.mp found).1
      rw [originsLength] at inside
      rw [originsAt inside] at found
      obtain rfl := Option.some.inj found
      simp only
      omega
    · rw [delivered]
      exact fun _ member => absurd member List.not_mem_nil

theorem staleRead {t : Trail} (waiting : Waiting t) (many : 4000 < t.packets.length) (now : Nat) :
    ∃ t', run trace (recording t now) [.readInput (fun _ => 0) 1] = some t' ∧
      ∃ d ∈ t'.delivered, d.origin.packet = 3600 := by
  cases there : t.system.ring with
  | none =>
    have none := (waiting.tracked.empty there).1
    rw [none] at many
    contradiction
  | some ring =>
    obtain ⟨tracked,_,stream,_,running,opened,ring',after,filled⟩ := recordingStarts waiting there now
    obtain ⟨ready,sum⟩ := tracked.live ring' after
    have full : min t.packets.length 4000 = 4000 := by omega
    rw [full] at filled
    rw [filled, stream, waiting.stream, originsLength, full] at sum
    have hold : sharedAudioReadInterleavedRegulated ring' (fun _ => 0) kDeviceChannelCount 1 kDeviceTargetFill
        kDeviceFillTolerance = sharedAudioReadInterleaved ring' (fun _ => 0) kDeviceChannelCount 1 :=
      regulatedHold ready.sound _ _ (by rw [filled]; decide) (.inl (by rw [filled]; decide))
    have one : (1 : UInt32).toNat = 1 := rfl
    have count : (sharedAudioReadInterleaved ring' (fun _ => 0) kDeviceChannelCount 1).count.toNat = 1 := by
      rw [readInterleavedCount, readCountToNat ready.sound, filled, one]
      decide
    have plain : readInput (recording t now).system ring' (fun _ => 0) 1 =
        sharedAudioReadInterleaved ring' (fun _ => 0) kDeviceChannelCount 1 := by
      simp only [readInput, doIOOperation, opened, if_true, hold]
    let next := (recording t now).system.withRing
      ((recording t now).system.ring.map (fun ring => (readInput (recording t now).system ring (fun _ => 0) 1).ring))
    have step : trace (recording t now) (.readInput (fun _ => 0) 1) =
        some (follow (recording t now) (.readInput (fun _ => 0) 1) next) := by
      simp only [trace, inSession, running, Nat.one_ne_zero, if_false, act, Option.map_some, next]
    have distance : (readPosition next.ring - readPosition (recording t now).system.ring).toNat = 1 := by
      have takes := ReaderSide.readTakes ready.sound (fun _ => 0) kDeviceChannelCount 1
      have moved := ReaderSide.movedDistance (ReaderSide.movedFinish ready.sound 1)
      have nextRing : next.ring =
          some (sharedAudioReadInterleaved ring' (fun _ => 0) kDeviceChannelCount 1).ring := by
        change (recording t now).system.ring.map
          (fun ring => (readInput (recording t now).system ring (fun _ => 0) 1).ring) = _
        rw [after, Option.map_some, plain]
      rw [nextRing, after]
      change ((sharedAudioReadInterleaved ring' (fun _ => 0) kDeviceChannelCount 1).ring.header.readPos -
        ring'.header.readPos).toNat = 1
      rw [readInterleavedRing] at takes ⊢
      omega
    refine ⟨follow (recording t now) (.readInput (fun _ => 0) 1) next,by simp only [run, step, Option.bind_some],
      ⟨(recording t now).stream.getD 43200 ⟨0,0⟩,
        fun ch => (readInput (recording t now).system ring' (fun _ => 0) 1).out (0 * kDeviceChannelCount.toNat + ch)⟩,
      ?_,?_⟩
    · refine List.mem_append_right _ ?_
      have position : (recording t now).taken + (1 - 1) + 0 = 43200 := by omega
      rw [distance]
      simp only [deliveries, after, plain, count, List.range_one, List.map_cons, List.map_nil, position,
        List.mem_singleton]
    · simp only [stream, waiting.stream, full]
      rw [List.getD_eq_getElem?_getD, originsAt (by decide)]
      rfl

/-- Every real frame of the recording is from a packet captured since `StartIO` or from
one of the last 400 before it, in every session, exactly when at most 4000 packets were
captured before. -/
theorem startsWithCurrentAudio (channels : UInt16) (storage : Nat → Nat → Rat) (created : Bool) (loop : Loop)
    (started : runCapture (daemonOf channels) storage created = some loop) (numer denom : UInt32)
    (captured : List Capture) (t : Trail)
    (reached : run captureTrail (untouched (boot loop numer denom)) captured = some t) (now : Nat) :
    (∀ session t', run trace (recording t now) session = some t' →
      ∀ d ∈ t'.delivered, t.packets.length ≤ d.origin.packet + 400) ↔ t.packets.length ≤ 4000 := by
  have waiting := runInvariant captureWaiting (untouchedWaiting started numer denom) reached
  constructor
  · intro current
    by_contra many
    obtain ⟨t',ran,d,member,packet⟩ := staleRead waiting (Nat.not_le.mp many) now
    have := current _ t' ran d member
    omega
  · intro few session t' ran
    exact (runInvariant traceRecent (recordingRecent waiting few now) ran).heard

def earlyCaptures : List Capture := [.frame quietPacket true 10,.frame [0x88,0x19] true 20,.timeout]

def earlyTrail : Option Trail :=
  run captureTrail (untouched (boot ⟨daemonOf 0,fun _ _ => 0⟩ 125 3)) earlyCaptures

theorem startsWithCurrentAudioEarly :
    (∀ session t', run trace (recording (earlyTrail.get (by decide +kernel)) 100) session = some t' →
      ∀ d ∈ t'.delivered, (earlyTrail.get (by decide +kernel)).packets.length ≤ d.origin.packet + 400) ↔
    (earlyTrail.get (by decide +kernel)).packets.length ≤ 4000 :=
  startsWithCurrentAudio 0 (fun _ _ => 0) true _ rfl 125 3 earlyCaptures _
    (Option.some_get (by decide +kernel)).symm 100

def captures (first n : Nat) : List Capture :=
  (List.range' first n).map fun k => .frame quietPacket true (UInt64.ofNat (6000 * (k + 1)))

theorem capturesRun {n k : Nat} {t : Trail} {ring : SharedRing Rat} (there : t.system.ring = some ring)
    (shape : t.system.loop.daemon.channels = 2) :
    ∃ final, run captureTrail t (captures k n) = some final ∧
      final.packets.length = t.packets.length + n := by
  induction n generalizing k t ring with
  | zero => exact ⟨t,rfl,rfl⟩
  | succ n ih =>
    obtain ⟨storage,counter,_,taken⟩ :=
      captureTaken quietWellFormed there shape true (UInt64.ofNat (6000 * (k + 1)))
    let next : System := {t.system with loop := ⟨takePacket t.system.loop.daemon 2
      (storePacket ring storage (UInt64.ofNat (6000 * (k + 1)))) counter,storage⟩}
    have step : captureTrail t (.frame quietPacket true (UInt64.ofNat (6000 * (k + 1)))) =
        some (follow t (.capture (.frame quietPacket true (UInt64.ofNat (6000 * (k + 1))))) next) := by
      simp only [captureTrail, trace, inSession, act, captureRound, taken, Option.map_some, next]
    have count : (follow t (.capture (.frame quietPacket true (UInt64.ofNat (6000 * (k + 1))))) next).packets =
        t.packets ++ [quietPacket] := by
      have more : next.loop.daemon.receivedPackets = t.system.loop.daemon.receivedPackets + 1 := rfl
      simp [follow, received, more]
    obtain ⟨final,ran,packets⟩ := ih (k := k + 1)
      (t := follow t (.capture (.frame quietPacket true (UInt64.ofNat (6000 * (k + 1))))) next) rfl rfl
    refine ⟨final,?_,?_⟩
    · rw [captures, List.range'_succ, List.map_cons]
      simp only [run, step, Option.bind_some]
      exact ran
    · rw [packets, count, List.length_append, List.length_singleton]
      omega

/-- The 4001st packet was refused; the recording begins 401 packets back. -/
theorem startsWithStaleAudio :
    runCapture (daemonOf 2) (fun _ _ => 0) true = some stereoLoop ∧
    ∃ t t', run captureTrail (untouched (boot stereoLoop 125 3)) (captures 0 4001) = some t ∧
      run trace (recording t 24012000) [.readInput (fun _ => 0) 1] = some t' ∧
      ∃ d ∈ t'.delivered, ¬ t.packets.length ≤ d.origin.packet + 400 := by
  have started : runCapture (daemonOf 2) (fun _ _ => 0) true = some stereoLoop := rfl
  obtain ⟨t,ran,packets⟩ := capturesRun (n := 4001) (k := 0) (t := untouched (boot stereoLoop 125 3)) rfl rfl
  have waiting := runInvariant captureWaiting (untouchedWaiting started 125 3) ran
  have length : t.packets.length = 4001 := packets
  obtain ⟨t',read,d,member,packet⟩ := staleRead waiting (by omega) 24012000
  exact ⟨started,t,t',ran,read,d,member,by omega⟩

end ReacJack.RecordingStart
