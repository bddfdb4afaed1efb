import Mathlib.Algebra.Order.Group.Unbundled.Int
import ReacJack.BridgeStates

/-! `receivedPackages` as a clock of the received audio. Accepted packets and callbacks keep
its lead over the frames that came in; an underrun sets it anew, from a byte count
divided down to frames where packets were meant. -/
namespace ReacJack.ReceivedClock
open ReacDecode JackRingbuffer JackBridge BridgeStates DecodedRows TransitionRuns

variable {capacity : Nat}

structure Metered (capacity : Nat) where
  system : System capacity
  consumed : Nat

def frameBytes (b : Bridge capacity) : Nat := reacBytesPerSample * b.currentNumberOfChannels.toNat

def framesIn (b : Bridge capacity) : Nat := jackRingbufferReadSpace b.ringbuffer / frameBytes b

def Accepted (b : Bridge capacity) (packet : Bytes) : Prop :=
  jackRingbufferReadSpace b.ringbuffer < jackRingbufferReadSpace (copyFrame b packet).ringbuffer

def Underruns (b : Bridge capacity) (cycle : Cycle) : Prop :=
  let bufferSize := cycle.nframes.toNat * b.currentNumberOfChannels.toNat * reacBytesPerSample % 2 ^ 64
  ¬ (b.currentNumberOfChannels = 0 ∨ b.dataSize = 0) ∧ bufferSize ≤ b.processBufferBytes ∧
    jackRingbufferReadSpace b.ringbuffer < bufferSize

instance (b : Bridge capacity) (packet : Bytes) : Decidable (Accepted b packet) :=
  inferInstanceAs (Decidable (_ < _))

instance (b : Bridge capacity) (cycle : Cycle) : Decidable (Underruns b cycle) :=
  inferInstanceAs (Decidable (_ ∧ _ ∧ _))

def framesRead (s : System capacity) : Nat :=
  match s.processing with
  | none => 0
  | some (_,bufferSize) => (jackRingbufferRead s.bridge.ringbuffer bufferSize).1.length / frameBytes s.bridge

inductive Event where
  | copyData (packet : Bytes)
  | processQuery (cycle : Cycle)
  | processRead

def step (s : Metered capacity) : Event → Option (Metered capacity)
  | .copyData packet =>
    if Accepted s.system.bridge packet then
      (act s.system (.copyData (.frame packet))).map fun system => {s with system}
    else none
  | .processQuery cycle => (act s.system (.processQuery cycle)).map fun system =>
      ⟨system,if Underruns s.system.bridge cycle then 0 else s.consumed⟩
  | .processRead => (act s.system .processRead).map fun system =>
      ⟨system,s.consumed + framesRead s.system⟩

def afterReset (s : System capacity) : Metered capacity := ⟨{s with bridge := resetAll s.bridge},0⟩

/-- By how many frames the counter is ahead of the audio that came in. -/
def lead (s : Metered capacity) : Int :=
  12 * (s.system.bridge.receivedPackages : Int) - (framesIn s.system.bridge + s.consumed : Nat)

def Tied (s : Metered capacity) : Prop := |lead s| < 12

theorem copyPayloadCounts (b : Bridge capacity) (packet : ReacPacketView) :
    (copyPayload b packet).receivedPackages = b.receivedPackages + 1 := by
  obtain ⟨_,_,_,left⟩ := copyPayloadLeaves b packet
  rw [left]
  rfl

theorem copyFrameCounts (b : Bridge capacity) (packet : Bytes) :
    (copyFrame b packet).ringbuffer = b.ringbuffer ∨
      (copyFrame b packet).receivedPackages = b.receivedPackages + 1 := by
  simp only [copyFrame]
  split
  · exact .inl rfl
  split
  · exact .inl rfl
  split
  · exact .inr (copyPayloadCounts _ _)
  split
  · exact .inl rfl
  · exact .inr (copyPayloadCounts _ _)

theorem wholeFrames {b : Bridge capacity} {channels frames : Nat} (shaped : Shaped b channels) (some_ : channels ≠ 0)
    (whole : jackRingbufferReadSpace b.ringbuffer = 3 * channels * frames) : framesIn b = frames := by
  rw [framesIn, frameBytes, shaped.count, whole]
  exact Nat.mul_div_cancel_left frames (by omega)

theorem acceptedFrames {s : System capacity} {channels : Nat} (running : Running s channels) {packet : Bytes}
    (accepted : Accepted s.bridge packet) :
    framesIn (copyFrame s.bridge packet) = framesIn s.bridge + 12 ∧
      (copyFrame s.bridge packet).receivedPackages = s.bridge.receivedPackages + 1 := by
  obtain ⟨frames,whole⟩ := running.whole
  obtain ⟨next,shaped,grown,stored⟩ := copyFrameCases running.shaped packet
  rcases stored with same | ⟨wellFormed,room,ring⟩
  · exact absurd accepted (by rw [Accepted, same]; exact Nat.lt_irrefl _)
  have some_ : next ≠ 0 := wellFormed.positive
  have total : jackRingbufferReadSpace (copyFrame s.bridge packet).ringbuffer =
      jackRingbufferReadSpace s.bridge.ringbuffer + 36 * next := by
    have length := wellFormed.length
    rw [ring]
    simp only [jackRingbufferReadSpace, jackRingbufferWrite, Nat.min_eq_left room, List.length_append,
      List.length_take, List.length_drop]
    omega
  refine ⟨?_,?_⟩
  · rcases grown with rfl | ⟨rfl,_⟩
    · rw [wholeFrames running.shaped some_ whole,
        wholeFrames shaped some_ (show _ = 3 * next * (frames + 12) by rw [total, whole]; ring)]
    · have empty : framesIn s.bridge = 0 := by
        rw [framesIn, whole, Nat.mul_zero, Nat.zero_mul, Nat.zero_div]
      rw [empty, wholeFrames shaped some_ (show _ = 3 * next * 12 by rw [total, whole]; ring)]
  · rcases copyFrameCounts s.bridge packet with same | counted
    · exact absurd accepted (by rw [Accepted, same]; exact Nat.lt_irrefl _)
    · exact counted

theorem queryCounts {s : System capacity} {channels : Nat} (running : Running s channels) (cycle : Cycle) :
    framesIn (processQuery s.bridge cycle).1 = framesIn s.bridge ∧
      (processQuery s.bridge cycle).1.receivedPackages =
        if Underruns s.bridge cycle then framesIn s.bridge else s.bridge.receivedPackages := by
  have most := detectedMost running.toDetected
  obtain ⟨shaped,ring,_⟩ := queryCases running.shaped most cycle
  refine ⟨by rw [framesIn, framesIn, frameBytes, frameBytes, shaped.count, running.shaped.count, ring],?_⟩
  have bytes : (3 * s.bridge.currentNumberOfChannels).toNat = frameBytes s.bridge := by
    have count := running.shaped.count
    rw [UInt32.toNat_mul, frameBytes]
    change 3 * s.bridge.currentNumberOfChannels.toNat % 2 ^ 32 = _
    rw [reacBytesPerSample]
    omega
  simp only [processQuery]
  split
  · rename_i idle
    rw [if_neg (show ¬ Underruns s.bridge cycle from fun underruns => underruns.1 idle)]
  rename_i busy
  split
  · rename_i large
    rw [if_neg (show ¬ Underruns s.bridge cycle from fun underruns => absurd underruns.2.1 (Nat.not_le.mpr large))]
  rename_i fits
  split
  · rename_i few
    rw [if_pos (show Underruns s.bridge cycle from ⟨busy,Nat.not_lt.mp fits,few⟩), bytes]
    rfl
  · rename_i enough
    rw [if_neg (show ¬ Underruns s.bridge cycle from fun underruns => enough underruns.2.2)]

theorem readCounts {s : System capacity} {channels : Nat} (running : Running s channels) {cycle : Cycle}
    {bufferSize : Nat} (processing : s.processing = some (cycle,bufferSize)) :
    framesIn (processRead s.bridge cycle bufferSize).1 + framesRead s = framesIn s.bridge ∧
      (processRead s.bridge cycle bufferSize).1.receivedPackages = s.bridge.receivedPackages := by
  obtain ⟨some_,size⟩ := running.pending cycle bufferSize processing
  obtain ⟨frames,whole⟩ := running.whole
  obtain ⟨shaped,ring,_⟩ := readCases running.shaped (running.supported.resolve_left some_) cycle size
  have positive : 0 < 3 * channels := by omega
  have count := running.shaped.count
  refine ⟨?_,?_⟩
  · have taken : (jackRingbufferRead s.bridge.ringbuffer bufferSize).1.length =
        3 * channels * min cycle.nframes.toNat frames := by
      rw [jackRingbufferRead, List.length_take]
      change min bufferSize (jackRingbufferReadSpace s.bridge.ringbuffer) = _
      rw [whole, size, Nat.mul_min_mul_left]
    have left : jackRingbufferReadSpace (processRead s.bridge cycle bufferSize).1.ringbuffer =
        3 * channels * (frames - cycle.nframes.toNat) := by
      rw [ring, jackRingbufferReadSpace, jackRingbufferRead, List.length_drop]
      change jackRingbufferReadSpace s.bridge.ringbuffer - bufferSize = _
      rw [whole, size, ← Nat.mul_sub]
    have read : framesRead s = min cycle.nframes.toNat frames := by
      rw [framesRead, processing]
      simp only [taken, frameBytes, count, reacBytesPerSample]
      exact Nat.mul_div_cancel_left _ positive
    rw [wholeFrames shaped some_ left, wholeFrames running.shaped some_ whole, read]
    omega
  · simp only [processRead]
    split
    · rfl
    split
    · rfl
    split <;> rfl

theorem stepActs {s next : Metered capacity} {event : Event} (taken : step s event = some next) :
    ∃ label, act s.system label = some next.system := by
  cases event with
  | copyData packet =>
    simp only [step] at taken
    split at taken
    · obtain ⟨_,acted,rfl⟩ := Option.map_eq_some_iff.mp taken
      exact ⟨_,acted⟩
    · contradiction
  | processQuery cycle =>
    obtain ⟨_,acted,rfl⟩ := Option.map_eq_some_iff.mp taken
    exact ⟨_,acted⟩
  | processRead =>
    obtain ⟨_,acted,rfl⟩ := Option.map_eq_some_iff.mp taken
    exact ⟨_,acted⟩

theorem copyLead {s next : Metered capacity} {channels : Nat} (running : Running s.system channels) {packet : Bytes}
    (taken : step s (.copyData packet) = some next) : lead next = lead s := by
  simp only [step] at taken
  split at taken
  · rename_i accepted
    obtain ⟨system,acted,rfl⟩ := Option.map_eq_some_iff.mp taken
    simp only [act] at acted
    split at acted
    · cases Option.some.inj acted
      obtain ⟨frames,received⟩ := acceptedFrames running accepted
      simp only [lead, copyDataRound, frames, received]
      push_cast
      ring
    · contradiction
  · contradiction

theorem queryLead {s next : Metered capacity} {channels : Nat} (running : Running s.system channels) {cycle : Cycle}
    (taken : step s (.processQuery cycle) = some next) :
    lead next = if Underruns s.system.bridge cycle then 11 * (framesIn s.system.bridge : Int) else lead s := by
  -- An underrun sets the lead to eleven times the frames in the ring.
  obtain ⟨system,acted,rfl⟩ := Option.map_eq_some_iff.mp taken
  obtain ⟨frames,received⟩ := queryCounts running cycle
  have bridge : system.bridge = (processQuery s.system.bridge cycle).1 := by
    simp only [act] at acted
    split at acted
    · contradiction
    split at acted <;> rename_i queried <;> cases Option.some.inj acted <;> simp only [queried]
  simp only [lead, bridge, frames, received]
  split
  · push_cast
    ring
  · rfl

theorem readLead {s next : Metered capacity} {channels : Nat} (running : Running s.system channels)
    (taken : step s .processRead = some next) : lead next = lead s := by
  obtain ⟨system,acted,rfl⟩ := Option.map_eq_some_iff.mp taken
  obtain ⟨⟨cycle,bufferSize⟩,processing,rfl⟩ := Option.map_eq_some_iff.mp acted
  obtain ⟨frames,received⟩ := readCounts running processing
  simp only [lead, received, ← frames]
  push_cast
  ring

theorem resetLead (s : System capacity) : lead (afterReset s) = 0 := by
  have empty : framesIn (afterReset s).system.bridge = 0 := Nat.zero_div _
  rw [lead, empty]
  rfl

theorem tiedIff {s : Metered capacity} {frames : Nat} (set : lead s = 11 * (frames : Int)) : Tied s ↔ frames < 2 := by
  rw [Tied, set, abs_lt]
  omega

theorem runReachable {jackBufferFrames : UInt32} {s t : Metered capacity} {events : List Event}
    (reachable : Reachable jackBufferFrames s.system) (reached : run step s events = some t) :
    Reachable jackBufferFrames t.system := by
  refine runInvariant (I := fun t => Reachable jackBufferFrames t.system) ?_ reachable reached
  intro u event next before taken
  obtain ⟨label,acted⟩ := stepActs taken
  exact reachesThen before acted

theorem stepTied {s next : Metered capacity} {channels : Nat} (running : Running s.system channels) {event : Event}
    (taken : step s event = some next) (tied : Tied s)
    (few : ∀ cycle, event = .processQuery cycle → Underruns s.system.bridge cycle →
      framesIn s.system.bridge < 2) : Tied next := by
  cases event with
  | copyData packet =>
    rw [Tied, copyLead running taken]
    exact tied
  | processQuery cycle =>
    have moved := queryLead running taken
    split at moved
    · rename_i underruns
      exact (tiedIff moved).mpr (few cycle rfl underruns)
    · rw [Tied, moved]
      exact tied
  | processRead =>
    rw [Tied, readLead running taken]
    exact tied

/-- From the reset on, the counter measures the received audio exactly in the runs whose
underruns all come with fewer than two frames in the ring. -/
theorem clockTied {jackBufferFrames : UInt32} {s : System capacity} (reachable : Reachable jackBufferFrames s)
    {events : List Event} {final : Metered capacity} (reached : run step (afterReset s) events = some final) :
    (∀ before after t, events = before ++ after → run step (afterReset s) before = some t → Tied t) ↔
      ∀ before cycle after t, events = before ++ .processQuery cycle :: after →
        run step (afterReset s) before = some t → Underruns t.system.bridge cycle →
        framesIn t.system.bridge < 2 := by
  have reset : Reachable jackBufferFrames (afterReset s).system :=
    reachesThen reachable (l := .reset) rfl
  constructor
  · rintro always before cycle after t rfl here underruns
    obtain ⟨t',here',later⟩ := runSplit reached
    cases Option.some.inj (here.symm.trans here')
    obtain ⟨next,taken,_⟩ := runCons later
    obtain ⟨channels,running⟩ := reachableRunning (runReachable reset here)
    have set := queryLead running taken
    rw [if_pos underruns] at set
    refine (tiedIff set).mp (always (before ++ [.processQuery cycle]) after next (by simp) ?_)
    exact runAppend here (by simp only [run, taken, Option.bind_some])
  · intro few before
    -- from the last step backwards, so that the state before it is tied already
    induction before using List.reverseRecOn with
    | nil =>
      rintro after t _ here
      cases Option.some.inj here
      rw [Tied, resetLead]
      decide
    | append_singleton before event ih =>
      intro after t split here
      obtain ⟨middle,start,last⟩ := runSplit here
      obtain ⟨next,taken,done⟩ := runCons last
      cases Option.some.inj done
      obtain ⟨channels,running⟩ := reachableRunning (runReachable reset start)
      have whole : events = before ++ event :: after := by rw [split]; simp
      refine stepTied running taken (ih (event :: after) middle whole start) ?_
      rintro cycle rfl underruns
      exact few before cycle after middle whole start underruns

def started : System 131071 := boot (bridgeOf 131071 1024)

def packetThen (nframes : UInt32) : List Event :=
  [.copyData ReacWire.quietPacket,.processQuery (JackAlignment.stereoCycle nframes)]

def oneLeft : List Event := packetThen 11 ++ [.processRead,.processQuery (JackAlignment.stereoCycle 12)]

theorem clockTiedStereo : ∃ final, run step (afterReset started) oneLeft = some final ∧ lead final = 11 ∧
    ∀ before after t, oneLeft = before ++ after → run step (afterReset started) before = some t → Tied t := by
  have leads : (run step (afterReset started) oneLeft).map lead = some 11 := by decide +kernel
  obtain ⟨final,reached,ahead⟩ := Option.map_eq_some_iff.mp leads
  refine ⟨final,reached,ahead,(clockTied (reachesHere (boot (bridgeOf 131071 1024))) reached).mpr ?_⟩
  have first : ∀ t ∈ run step (afterReset started) (oneLeft.take 1),
      ¬ Underruns t.system.bridge (JackAlignment.stereoCycle 11) := by decide +kernel
  have second : ∀ t ∈ run step (afterReset started) (oneLeft.take 3), framesIn t.system.bridge < 2 := by
    decide +kernel
  intro before cycle after t split here underruns
  have asks : oneLeft[before.length]? = some (.processQuery cycle) := by simp [split]
  have start : before = oneLeft.take before.length := by rw [split, List.take_left]
  rw [start] at here
  generalize before.length = n at asks here
  rcases n with _ | _ | _ | _ | n
  · cases asks
  · cases asks
    exact absurd underruns (first t here)
  · cases asks
  · exact second t here
  · rw [List.getElem?_eq_none (Nat.le_add_left 4 n)] at asks
    cases asks

/-- With twelve frames in the ring sixty-four are asked for, and one packet counts as twelve. -/
theorem clockJumps : ¬ ∀ (s : System 131071), Reachable 1024 s → ∀ events final,
    run step (afterReset s) events = some final → Tied final := by
  intro always
  have leads : (run step (afterReset started) (packetThen 64)).map lead = some 132 := by decide +kernel
  obtain ⟨final,reached,ahead⟩ := Option.map_eq_some_iff.mp leads
  have tied := always started (reachesHere _) (packetThen 64) final reached
  rw [Tied, ahead] at tied
  exact absurd tied (by decide)

end ReacJack.ReceivedClock
