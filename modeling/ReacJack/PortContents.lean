import ReacJack.BridgeStates

/-! What a callback of the JACK bridge leaves in the buffers of the output ports. Every
exit reaches the ports of the stream's channels; the ports above them are only silenced
while there is no stream yet. -/
namespace ReacJack.PortContents
open BufferLoops ReacDecode JackRingbuffer JackBridge BridgeStates DecodedRows TransitionRuns

variable {capacity : Nat}

inductive Meanwhile where
  | copyData (result : CaptureResult)
  | reset

def pass (b : Bridge capacity) : Meanwhile → Bridge capacity
  | .copyData result => copyDataRound b result
  | .reset => resetAll b

def process (b : Bridge capacity) (cycle : Cycle) (meanwhile : List Meanwhile) : Bridge capacity × Outputs :=
  match processQuery b cycle with
  | (b,.silent outputs) => (b,outputs)
  | (b,.reading bufferSize) => processRead (meanwhile.foldl pass b) cycle bufferSize

def deliverable (b : Bridge capacity) (cycle : Cycle) (meanwhile : List Meanwhile) : Option Bytes :=
  match processQuery b cycle with
  | (_,.silent _) => none
  | (b,.reading bufferSize) =>
    let b := meanwhile.foldl pass b
    let bytes := (jackRingbufferRead b.ringbuffer bufferSize).1
    if bytes.length = bufferSize ∧ ¬ ∃ i < b.currentNumberOfChannels.toNat, (cycle.buffers i).isNone then
      some bytes
    else none

/-- What port `ch` is meant to play: the audio of its channel, or silence. -/
def intended (b : Bridge capacity) (cycle : Cycle) (meanwhile : List Meanwhile) (ch f : Nat) : Rat :=
  match deliverable b cycle meanwhile with
  | none => 0
  | some bytes =>
    if ch < b.currentNumberOfChannels.toNat then decodedSample bytes b.currentNumberOfChannels.toNat ch f else 0

def Determined (b : Bridge capacity) (cycle : Cycle) (meanwhile : List Meanwhile) : Prop :=
  ∀ i < numberOfChannels.toNat, ∀ buffer, cycle.buffers i = some buffer →
    ∃ out, (process b cycle meanwhile).2 i = some out ∧
      ∀ f < cycle.nframes.toNat, out f = intended b cycle meanwhile i f

def lend (supplied : Nat → Bool) (contents : Nat → Nat → Rat) : Outputs :=
  fun i => if supplied i then some (contents i) else none

def filled (reach : Nat) (nframes : UInt32) (value : Nat → Nat → Rat) (buffers : Outputs) : Outputs :=
  overwritten buffers (fun ch f => decide (ch < reach) && decide (f < nframes.toNat)) value

theorem silenceFills (nframes channels : UInt32) (buffers : Outputs) :
    silenceOutputs nframes channels buffers =
      filled (if channels = 0 ∨ numberOfChannels < channels then numberOfChannels else channels).toNat nframes
        (fun _ _ => 0) buffers := by
  funext i
  unfold silenceOutputs
  rw [loopEach _ (fun _ buffer => Option.map (fun out => memset out 0 0 nframes.toNat) buffer)]
  simp only [filled, overwritten]
  generalize (if channels = 0 ∨ numberOfChannels < channels then numberOfChannels else channels).toNat = limit
  by_cases inside : i < limit
  · rw [if_pos inside]
    congr 1
    funext out f
    by_cases frame : f < nframes.toNat
    · rw [memsetInside _ _ (Nat.zero_le f) (by omega)]
      simp [inside, frame]
    · rw [memsetOutside _ _ (by omega)]
      simp [frame]
  · rw [if_neg inside]
    simp [inside]

theorem passShaped {b : Bridge capacity} {channels : Nat} (shaped : Shaped b channels) (some_ : channels ≠ 0)
    (event : Meanwhile) : Shaped (pass b event) channels := by
  cases event with
  | reset => exact shapedCongr shaped rfl rfl
  | copyData result =>
    cases result with
    | stopped => exact shaped
    | truncated => exact shapedCongr shaped rfl rfl
    | failed => exact shapedCongr shaped rfl rfl
    | frame packet =>
      obtain ⟨next,kept,same,_⟩ := copyFrameCases shaped packet
      rcases same with rfl | ⟨none,_⟩
      · exact kept
      · exact absurd none some_

def reach (channels : Nat) : Nat := if channels = 0 then numberOfChannels.toNat else channels

theorem filledCongr {ports : Nat} {nframes : UInt32} {value value' : Nat → Nat → Rat} (buffers : Outputs)
    (same : ∀ ch < ports, ∀ f, value ch f = value' ch f) :
    filled ports nframes value buffers = filled ports nframes value' buffers := by
  funext ch
  simp only [filled, overwritten]
  congr 1
  funext buffer f
  by_cases inside : ch < ports
  · rw [same ch inside f]
  · simp [inside]

theorem streamLimit {b : Bridge capacity} {channels : Nat} (shaped : Shaped b channels) (supported : Supported channels) :
    (if b.currentNumberOfChannels = 0 ∨ numberOfChannels < b.currentNumberOfChannels then numberOfChannels
      else b.currentNumberOfChannels).toNat = channels := by
  have count := shaped.count
  have most := supported.most
  have forty : numberOfChannels.toNat = 40 := rfl
  rw [if_neg, count]
  rintro (none | many)
  · rw [none] at count
    exact supported.positive count.symm
  · rw [UInt32.lt_iff_toNat_lt] at many
    omega

theorem querySilences {b : Bridge capacity} {channels : Nat} (detected : Detected b channels) (cycle : Cycle)
    {outputs : Outputs} (silent : (processQuery b cycle).2 = .silent outputs) :
    outputs = filled (reach channels) cycle.nframes (fun _ _ => 0) cycle.buffers := by
  have shaped := detected.shaped
  simp only [processQuery] at silent
  by_cases none : b.currentNumberOfChannels = 0 ∨ b.dataSize = 0
  · have zero : channels = 0 := by
      have size := shaped.dataSize
      have count := shaped.count
      rcases none with none | none
      · rw [none] at count
        exact count.symm
      · omega
    rw [if_pos none] at silent
    cases silent
    rw [silenceFills, reach, if_pos zero]
    rfl
  · have some_ : channels ≠ 0 := by
      rintro rfl
      exact none (.inr (by rw [shaped.dataSize]))
    have limit := streamLimit shaped (detected.supported.resolve_left some_)
    rw [if_neg none] at silent
    rw [reach, if_neg some_]
    split at silent
    · cases silent
      rw [silenceFills, limit]
    · split at silent
      · cases silent
        rw [silenceFills, limit]
      · cases silent

theorem readFills {b : Bridge capacity} {channels bufferSize : Nat} (shaped : Shaped b channels)
    (supported : Supported channels) (cycle : Cycle) (size : bufferSize = 3 * channels * cycle.nframes.toNat) :
    (processRead b cycle bufferSize).2 = filled channels cycle.nframes
      (if (jackRingbufferRead b.ringbuffer bufferSize).1.length = bufferSize ∧
          ¬ ∃ i < b.currentNumberOfChannels.toNat, (cycle.buffers i).isNone then
        decodedSample (jackRingbufferRead b.ringbuffer bufferSize).1 channels
      else fun _ _ => 0) cycle.buffers := by
  have limit := streamLimit shaped supported
  have count := shaped.count
  simp only [processRead, count]
  split
  · rename_i short
    rw [if_neg (fun both => short both.1), silenceFills, limit]
  rename_i whole
  rw [not_not] at whole
  split
  · rename_i missing
    rw [if_neg (fun both => both.2 missing), silenceFills, limit]
  rename_i ports
  rw [callbackDecodes shaped supported cycle size whole (lentIff.mpr ports)]
  simp only [ne_eq, not_true_eq_false, if_false, Option.getD_some]
  rw [if_pos ⟨whole,ports⟩]
  rfl

theorem processFills {b : Bridge capacity} {channels : Nat} (detected : Detected b channels) (cycle : Cycle)
    (meanwhile : List Meanwhile) : (process b cycle meanwhile).2 =
      filled (reach channels) cycle.nframes (intended b cycle meanwhile) cycle.buffers := by
  have shaped := detected.shaped
  obtain ⟨kept,_,reading⟩ := queryCases shaped (detectedMost detected) cycle
  cases queried : processQuery b cycle with
  | mk after answer =>
    rw [queried] at kept reading
    cases answer with
    | silent outputs =>
      have silence := querySilences detected cycle
        (show (processQuery b cycle).2 = .silent outputs by rw [queried])
      simp only [process, queried]
      rw [silence]
      refine filledCongr _ ?_
      intro ch _ f
      simp only [intended, deliverable, queried]
    | reading bufferSize =>
      obtain ⟨some_,size,_⟩ := reading bufferSize rfl
      have later : Shaped (meanwhile.foldl pass after) channels :=
        foldInvariant (I := fun b => Shaped b channels) (fun _ event shaped => passShaped shaped some_ event) kept
      have read := readFills later (detected.supported.resolve_left some_) cycle size
      simp only [process, queried]
      rw [read, reach, if_neg some_]
      refine filledCongr _ ?_
      intro ch inside f
      simp only [intended, deliverable, queried, shaped.count, if_pos inside]
      split <;> rfl

theorem intendedBeyond (b : Bridge capacity) (cycle : Cycle) (meanwhile : List Meanwhile) {ch : Nat} (f : Nat)
    (beyond : b.currentNumberOfChannels.toNat ≤ ch) : intended b cycle meanwhile ch f = 0 := by
  unfold intended
  split
  · rfl
  · exact if_neg (by omega)

theorem filledSupplied {buffers : Outputs} {i : Nat} {buffer : Nat → Rat} (there : buffers i = some buffer)
    (ports : Nat) (nframes : UInt32) (value : Nat → Nat → Rat) : filled ports nframes value buffers i =
      some (fun f => if i < ports ∧ f < nframes.toNat then value i f else buffer f) := by
  simp only [filled, overwritten, there, Option.map_some, Bool.and_eq_true, decide_eq_true_eq]

/-- Exactly when no supplied port lies beyond a stream that leaves ports over does a
callback determine every port, whatever the buffers held before. -/
theorem portsDetermined {b : Bridge capacity} {channels : Nat} (detected : Detected b channels)
    (meanwhile : List Meanwhile) (nframes : UInt32) (lastFrameTime : UInt64) (supplied : Nat → Bool) :
    (∀ contents, Determined b ⟨nframes,lastFrameTime,lend supplied contents⟩ meanwhile) ↔
      nframes = 0 ∨ channels = 0 ∨
        ∀ i < numberOfChannels.toNat, channels ≤ i → supplied i = false := by
  have count := detected.shaped.count
  have most := detectedMost detected
  have forty : numberOfChannels.toNat = 40 := rfl
  constructor
  · intro always
    by_contra reached
    simp only [not_or, not_forall] at reached
    obtain ⟨some_,stream,i,inside,beyond,there⟩ := reached
    have here : lend supplied (fun _ _ => 1) i = some fun _ => 1 := if_pos (by simpa using there)
    obtain ⟨out,left,played⟩ := always (fun _ _ => 1) i inside _ here
    have first : 0 < nframes.toNat := by
      rw [← UInt32.toNat_inj] at some_
      exact Nat.pos_of_ne_zero some_
    have above : ¬ i < reach channels := by
      rw [reach, if_neg stream]
      omega
    rw [processFills detected, filledSupplied here] at left
    have kept : out 0 = 1 := by
      rw [← Option.some.inj left]
      exact if_neg (fun both => above both.1)
    exact absurd ((kept.symm.trans (played 0 first)).trans (intendedBeyond _ _ _ 0 (by omega))) (by decide)
  · intro covered contents i inside buffer there
    rw [processFills detected]
    refine ⟨_,filledSupplied there _ _ _,?_⟩
    intro f frame
    have below : i < reach channels := by
      unfold reach
      split
      · exact inside
      rename_i stream
      by_contra beyond
      rcases covered with none | none | ports
      · rw [none] at frame
        exact absurd frame (Nat.not_lt_zero f)
      · exact stream none
      · have missing := ports i inside (by omega)
        simp only [lend, missing] at there
        cases there
    exact if_pos ⟨below,frame⟩

def stereo : System 131071 :=
  (run act (boot (bridgeOf 131071 1024)) [.copyData (.frame ReacWire.quietPacket)]).get (by decide +kernel)

theorem stereoReachable : Reachable 1024 stereo :=
  ⟨[.copyData (.frame ReacWire.quietPacket)],(Option.some_get (by decide +kernel)).symm⟩

theorem portsDeterminedStereo :
    (∀ contents, Determined stereo.bridge ⟨4,1,lend (fun i => decide (i < 2)) contents⟩ []) ↔
      (4 : UInt32) = 0 ∨ 2 = 0 ∨ ∀ i < numberOfChannels.toNat, 2 ≤ i → decide (i < 2) = false :=
  portsDetermined ⟨⟨by decide +kernel,by decide +kernel⟩,.inr ⟨by decide,by decide,by decide⟩⟩ [] 4 1
    (fun i => decide (i < 2))

/-- Four frames are delivered to two ports; the third keeps what it had. -/
theorem thirdPortStale : ¬ ∀ s : System 131071, Reachable 1024 s → ∀ cycle meanwhile,
    Determined s.bridge cycle meanwhile := by
  intro always
  let cycle : Cycle := ⟨4,1,lend (fun _ => true) (fun _ _ => 1)⟩
  obtain ⟨out,left,played⟩ := always stereo stereoReachable cycle [] 2 (by decide) (fun _ => 1) rfl
  have kept : ((process stereo.bridge cycle []).2 2).map (fun out => out 0) = some 1 := by decide +kernel
  rw [left] at kept
  have beyond : stereo.bridge.currentNumberOfChannels.toNat ≤ 2 := by decide +kernel
  have silent := (played 0 (by decide)).trans (intendedBeyond _ _ _ 0 beyond)
  exact absurd ((Option.some.inj kept).symm.trans silent) (by decide)

end ReacJack.PortContents
