import ReacJack.Meter
import ReacJack.RollingWindow
import ReacJack.JackAlignment

/-! The meters of the JACK bridge show the audio of the last 400 callbacks that played,
channel by channel, in every run. -/
namespace ReacJack.MeteredAudio
open ReacWire (makePacket)
open BufferLoops RollingWindow ReacDecode DecodedRows JackBridge JackAlignment Meter TransitionRuns

variable {δ : Type} {capacity : Nat}

def energy (d : Doubles δ) (samples : List Rat) : δ := samples.foldl d.addSquare d.zero
def peakOf (samples : List Rat) : Rat := loudest (samples.map abs)

def samplesOf (outBuffer : Outputs) (nframes ch : Nat) : List Rat := (List.range nframes).map (sampleOf outBuffer ch)

theorem samplesMore (outBuffer : Outputs) (nframes ch : Nat) :
    samplesOf outBuffer (nframes + 1) ch = samplesOf outBuffer nframes ch ++ [sampleOf outBuffer ch nframes] := by
  simp only [samplesOf, List.range_succ, List.map_append, List.map_cons, List.map_nil]

theorem energyMore (d : Doubles δ) (samples : List Rat) (sample : Rat) :
    energy d (samples ++ [sample]) = d.addSquare (energy d samples) sample := by
  simp only [energy, List.foldl_append, List.foldl_cons, List.foldl_nil]

theorem peakMore (samples : List Rat) (sample : Rat) :
    peakOf (samples ++ [sample]) = max (peakOf samples) |sample| := by
  simp only [peakOf, loudest, List.map_append, List.foldl_append, List.map_cons, List.map_nil, List.foldl_cons,
    List.foldl_nil]

theorem raised (peak value : Rat) : (if peak < value then value else peak) = max peak value := by
  rw [max_def_lt]

theorem measuredFrame (d : Doubles δ) (channels : Nat) (sample : Nat → Rat) (both : (Nat → δ) × (Nat → Rat))
    (ch : Nat) :
    let after := loop channels (fun ch (sqVal,peak) =>
      (put sqVal ch (d.addSquare (sqVal ch) (sample ch)),
        if peak ch < |sample ch| then put peak ch |sample ch| else peak)) both
    after.1 ch = (if ch < channels then d.addSquare (both.1 ch) (sample ch) else both.1 ch) ∧
      after.2 ch = (if ch < channels then max (both.2 ch) |sample ch| else both.2 ch) := by
  refine loopInvariant (P := fun n (after : (Nat → δ) × (Nat → Rat)) =>
    after.1 ch = (if ch < n then d.addSquare (both.1 ch) (sample ch) else both.1 ch) ∧
      after.2 ch = (if ch < n then max (both.2 ch) |sample ch| else both.2 ch)) (by simp) ?_
  intro i ⟨sqVal,peak⟩ _ ⟨squares,peaks⟩
  dsimp only at squares peaks ⊢
  by_cases here : ch = i
  · subst here
    simp only [Nat.lt_irrefl, if_false] at squares peaks
    rw [if_pos (Nat.lt_succ_self ch), if_pos (Nat.lt_succ_self ch), putHere, squares, ← peaks, ← raised]
    refine ⟨rfl,?_⟩
    split
    · exact putHere _ _ _
    · rfl
  · have iff : ch < i + 1 ↔ ch < i := by omega
    rw [putElsewhere _ _ here, squares]
    simp only [iff, true_and]
    split
    · rw [putElsewhere _ _ here, peaks]
    · exact peaks

theorem measuredSamples (d : Doubles δ) (nframes channels : UInt32) (outBuffer : Outputs) {ch : Nat}
    (inside : ch < channels.toNat) :
    (measured d nframes channels outBuffer).1 ch = energy d (samplesOf outBuffer nframes.toNat ch) ∧
      (measured d nframes channels outBuffer).2 ch = peakOf (samplesOf outBuffer nframes.toNat ch) := by
  refine loopInvariant (P := fun n (both : (Nat → δ) × (Nat → Rat)) =>
    both.1 ch = energy d (samplesOf outBuffer n ch) ∧ both.2 ch = peakOf (samplesOf outBuffer n ch)) ⟨rfl,rfl⟩ ?_
  intro frame both _ ⟨squares,peaks⟩
  have after := measuredFrame d channels.toNat (fun ch => sampleOf outBuffer ch frame) both ch
  rw [samplesMore, energyMore, peakMore, ← squares, ← peaks]
  simp only [if_pos inside] at after
  exact after

def row (buffer : Nat → δ) (ch v : Nat) : δ := buffer (ch * meterIterations.toNat + v)

theorem rowPut (buffer : Nat → δ) {ch ch' v v' : Nat} (value : δ) (inside : v < meterIterations.toNat)
    (inside' : v' < meterIterations.toNat) :
    row (put buffer (ch' * meterIterations.toNat + v') value) ch v =
      if ch = ch' then put (row buffer ch) v' value v else row buffer ch v := by
  by_cases same : ch = ch'
  · subst same
    rw [if_pos rfl]
    by_cases at_ : v = v'
    · rw [at_, putHere, row, putHere]
    · rw [putElsewhere _ _ at_, row, putElsewhere, row]
      omega
  · rw [if_neg same, row, putElsewhere, row]
    exact fun cell => same (cellInjective inside inside' cell).1

theorem keptIteration (channels : UInt32) (sqVal : Nat → δ) (peak : Nat → Rat) (m : Meters δ)
    (slot : m.meterIteration.toNat < meterIterations.toNat) :
    let kept := keepIteration channels sqVal peak m
    kept.meterIteration = (m.meterIteration + 1) % meterIterations ∧
    kept.channelRMS = m.channelRMS ∧ kept.channelPeak = m.channelPeak ∧
    ∀ ch < channels.toNat, ∀ v < meterIterations.toNat,
      row kept.meterRMS ch v = put (row m.meterRMS ch) m.meterIteration.toNat (sqVal ch) v ∧
      row kept.meterPeak ch v = put (row m.meterPeak ch) m.meterIteration.toNat (peak ch) v := by
  simp only [keepIteration]
  have kept := loopInvariant (n := channels.toNat) (s := m) (f := fun ch m =>
      {m with
        meterRMS := put m.meterRMS (ch * meterIterations.toNat + m.meterIteration.toNat) (sqVal ch)
        meterPeak := put m.meterPeak (ch * meterIterations.toNat + m.meterIteration.toNat) (peak ch)})
    (P := fun n (t : Meters δ) =>
      t.meterIteration = m.meterIteration ∧ t.channelRMS = m.channelRMS ∧ t.channelPeak = m.channelPeak ∧
      ∀ ch, ∀ v < meterIterations.toNat,
        row t.meterRMS ch v = (if ch < n then put (row m.meterRMS ch) m.meterIteration.toNat (sqVal ch) v
          else row m.meterRMS ch v) ∧
        row t.meterPeak ch v = (if ch < n then put (row m.meterPeak ch) m.meterIteration.toNat (peak ch) v
          else row m.meterPeak ch v)) ⟨rfl,rfl,rfl,fun _ _ _ => ⟨rfl,rfl⟩⟩ ?_
  · obtain ⟨iteration,rms,peaks,rows⟩ := kept
    refine ⟨congrArg (fun i => (i + 1) % meterIterations) iteration,rms,peaks,?_⟩
    intro ch inside v low
    have := rows ch v low
    rwa [if_pos inside, if_pos inside] at this
  · intro i t _ ⟨iteration,rms,peaks,rows⟩
    refine ⟨iteration,rms,peaks,?_⟩
    intro ch v low
    obtain ⟨squares,levels⟩ := rows ch v low
    dsimp only
    rw [iteration, rowPut _ _ low slot, rowPut _ _ low slot]
    by_cases here : ch = i
    · subst here
      simp only [Nat.lt_irrefl, if_false] at squares levels
      simp only [if_true, Nat.lt_succ_self, put, squares, levels, and_self]
    · have iff : ch < i + 1 ↔ ch < i := by omega
      simp only [here, if_false, iff]
      exact ⟨squares,levels⟩

theorem sumsUp (d : Doubles δ) (m : Meters δ) (ch : Nat) :
    sumUp d m ch = ((slots meterIterations.toNat (row m.meterRMS ch)).foldl d.add d.zero,
      loudest (slots meterIterations.toNat (row m.meterPeak ch))) := by
  have each := loopInvariant (n := meterIterations.toNat) (s := (d.zero,(0 : Rat)))
    (f := fun v both => (d.add both.1 (row m.meterRMS ch v),
      if both.2 < row m.meterPeak ch v then row m.meterPeak ch v else both.2))
    (P := fun n t => t = ((slots n (row m.meterRMS ch)).foldl d.add d.zero,loudest (slots n (row m.meterPeak ch))))
    rfl ?_
  · exact each
  · rintro v _ _ rfl
    simp only [slots, List.range_succ, List.map_append, List.foldl_append, loudest, List.map_cons, List.map_nil,
      List.foldl_cons, List.foldl_nil]
    exact Prod.ext rfl (raised _ _)

theorem updated (d : Doubles δ) (nframes channels : UInt32) (m : Meters δ) :
    let after := updateChannels d nframes channels m
    after.meterIteration = m.meterIteration ∧ after.meterRMS = m.meterRMS ∧ after.meterPeak = m.meterPeak ∧
    ∀ ch,
      after.channelRMS ch = (if ch < channels.toNat
        then d.rootOfMean (sumUp d m ch).1 (meterIterations * nframes) else m.channelRMS ch) ∧
      after.channelPeak ch = (if ch < channels.toNat then (sumUp d m ch).2 else m.channelPeak ch) := by
  refine loopInvariant (P := fun n (after : Meters δ) =>
    after.meterIteration = m.meterIteration ∧ after.meterRMS = m.meterRMS ∧ after.meterPeak = m.meterPeak ∧
    ∀ ch,
      after.channelRMS ch = (if ch < n
        then d.rootOfMean (sumUp d m ch).1 (meterIterations * nframes) else m.channelRMS ch) ∧
      after.channelPeak ch = (if ch < n then (sumUp d m ch).2 else m.channelPeak ch))
    ⟨rfl,rfl,rfl,fun _ => ⟨rfl,rfl⟩⟩ ?_
  intro i t _ ⟨iteration,squares,peaks,shown⟩
  refine ⟨iteration,squares,peaks,?_⟩
  have same : sumUp d t i = sumUp d m i := by rw [sumsUp, sumsUp, squares, peaks]
  intro ch
  rw [same]
  rcases sum : sumUp d m i with ⟨rms,peakVal⟩
  dsimp only
  by_cases here : ch = i
  · subst here
    rw [putHere, putHere, if_pos (Nat.lt_succ_self ch), if_pos (Nat.lt_succ_self ch), sum]
    exact ⟨rfl,rfl⟩
  · have iff : ch < i + 1 ↔ ch < i := by omega
    rw [putElsewhere _ _ here, putElsewhere _ _ here]
    simp only [iff]
    exact shown ch

theorem meteredBlock (d : Doubles δ) (nframes channels : UInt32) (outBuffer : Outputs) {m : Meters δ}
    (slot : m.meterIteration.toNat < meterIterations.toNat) :
    let after := meterBlock d nframes channels outBuffer m
    after.meterIteration = (m.meterIteration + 1) % meterIterations ∧
    (∀ ch < channels.toNat, ∀ v < meterIterations.toNat,
      row after.meterRMS ch v =
        put (row m.meterRMS ch) m.meterIteration.toNat (energy d (samplesOf outBuffer nframes.toNat ch)) v ∧
      row after.meterPeak ch v =
        put (row m.meterPeak ch) m.meterIteration.toNat (peakOf (samplesOf outBuffer nframes.toNat ch)) v) ∧
    (∀ ch, after.channelRMS ch = if ch < channels.toNat
      then d.rootOfMean ((slots meterIterations.toNat (row after.meterRMS ch)).foldl d.add d.zero)
        (meterIterations * nframes)
      else m.channelRMS ch) ∧
    ∀ ch, after.channelPeak ch = if ch < channels.toNat
      then loudest (slots meterIterations.toNat (row after.meterPeak ch))
      else m.channelPeak ch := by
  obtain ⟨iteration,rms,peak,rows⟩ := keptIteration channels (measured d nframes channels outBuffer).1
    (measured d nframes channels outBuffer).2 m slot
  simp only [meterBlock]
  generalize keepIteration channels (measured d nframes channels outBuffer).1
    (measured d nframes channels outBuffer).2 m = kept at iteration rms peak rows ⊢
  obtain ⟨sameIteration,sameSquares,samePeaks,shown⟩ := updated d nframes channels kept
  refine ⟨sameIteration.trans iteration,?_,?_,?_⟩
  · intro ch inside v low
    obtain ⟨squares,peaks⟩ := measuredSamples d nframes channels outBuffer inside
    rw [sameSquares, samePeaks, ← squares, ← peaks]
    exact rows ch inside v low
  · intro ch
    rw [(shown ch).1, sameSquares, sumsUp, rms]
  · intro ch
    rw [(shown ch).2, samePeaks, sumsUp, peak]

def playedOn (block : Block) (ch : Nat) : List Rat := samplesOf block.outputs block.nframes ch

structure Metered (d : Doubles δ) (m : Meters δ) (blocks : List Block) (channels : Nat) : Prop where
  iteration : m.meterIteration.toNat = blocks.length % meterIterations.toNat
  squares : ∀ ch < channels, Rolls meterIterations.toNat d.zero
    (blocks.map (fun block => energy d (playedOn block ch))) (row m.meterRMS ch)
  peaks : ∀ ch < channels, Rolls meterIterations.toNat 0
    (blocks.map (fun block => peakOf (playedOn block ch))) (row m.meterPeak ch)
  shownPeak : ∀ ch < channels, m.channelPeak ch =
    loudest ((recent meterIterations.toNat blocks).flatMap (fun block => (playedOn block ch).map abs))
  shownRMS : ∀ ch < channels, ∀ last, blocks.getLast? = some last → m.channelRMS ch =
    d.rootOfMean ((slots meterIterations.toNat (row m.meterRMS ch)).foldl d.add d.zero)
      (meterIterations * UInt32.ofNat last.nframes)
  beyond : ∀ ch, channels ≤ ch → m.channelRMS ch = d.zero ∧ m.channelPeak ch = 0
  untouched : blocks = [] → m = cleared d

theorem meteredNothing (d : Doubles δ) (channels : Nat) : Metered d (cleared d) [] channels where
  iteration := rfl
  squares := fun _ _ => rollsFresh _ _
  peaks := fun _ _ => rollsFresh _ _
  shownPeak := fun _ _ => rfl
  shownRMS := fun _ _ _ last => absurd last.symm (Option.some_ne_none _)
  beyond := fun _ _ => ⟨rfl,rfl⟩
  untouched := fun _ => rfl

theorem blockMetered {d : Doubles δ} {m : Meters δ} {blocks : List Block} {channels nframes : UInt32} {block : Block}
    (metered : Metered d m blocks channels.toNat) (frames : block.nframes = nframes.toNat) :
    Metered d (meterBlock d nframes channels block.outputs m) (blocks ++ [block]) channels.toNat := by
  have slot : m.meterIteration.toNat < meterIterations.toNat :=
    metered.iteration ▸ Nat.mod_lt _ (by decide)
  obtain ⟨iteration,rows,rms,peak⟩ := meteredBlock d nframes channels block.outputs slot
  generalize meterBlock d nframes channels block.outputs m = after at iteration rows rms peak
  have squares : ∀ ch < channels.toNat, Rolls meterIterations.toNat d.zero
      ((blocks ++ [block]).map (fun block => energy d (playedOn block ch))) (row after.meterRMS ch) := by
    intro ch inside
    have more := rollsMore (metered.squares ch inside) (energy d (playedOn block ch))
    rw [List.length_map, ← metered.iteration] at more
    rw [List.map_append]
    refine rollsCongr more ?_
    intro v low
    rw [(rows ch inside v low).1, playedOn, frames]
  have peaks : ∀ ch < channels.toNat, Rolls meterIterations.toNat 0
      ((blocks ++ [block]).map (fun block => peakOf (playedOn block ch))) (row after.meterPeak ch) := by
    intro ch inside
    have more := rollsMore (metered.peaks ch inside) (peakOf (playedOn block ch))
    rw [List.length_map, ← metered.iteration] at more
    rw [List.map_append]
    refine rollsCongr more ?_
    intro v low
    rw [(rows ch inside v low).2, playedOn, frames]
  refine ⟨?_,squares,peaks,?_,?_,?_,?_⟩
  · have next : ((m.meterIteration + 1) % meterIterations).toNat =
        (m.meterIteration.toNat + 1) % meterIterations.toNat := by
      have small : m.meterIteration.toNat + 1 < 2 ^ 32 := Nat.lt_trans (Nat.succ_lt_succ slot) (by decide)
      rw [UInt32.toNat_mod, UInt32.toNat_add, UInt32.toNat_one, Nat.mod_eq_of_lt small]
    rw [iteration, next, metered.iteration, Nat.mod_add_mod, List.length_append]
    rfl
  · intro ch inside
    rw [peak, if_pos inside]
    exact loudestSlots (peaks ch inside)
  · intro ch inside last end_
    obtain rfl : block = last := by simpa using end_
    rw [rms, if_pos inside, frames, UInt32.ofNat_toNat]
  · intro ch outside
    rw [rms, peak, if_neg (Nat.not_lt.mpr outside), if_neg (Nat.not_lt.mpr outside)]
    exact metered.beyond ch outside
  · intro none_
    simp at none_

structure Watched (capacity : Nat) (δ : Type) where
  trail : Trail capacity
  meters : Meters δ

def watch (doMeasure : Bool) (d : Doubles δ) (w : Watched capacity δ) (action : Action) : Option (Watched capacity δ) :=
  (trace w.trail action).map (fun trail => ⟨trail,metersAfter doMeasure d w.trail.system w.meters action⟩)

def watched (d : Doubles δ) (capacity : Nat) (jackBufferFrames : UInt32) : Watched capacity δ :=
  ⟨untouched (boot (bridgeOf capacity jackBufferFrames)),cleared d⟩

theorem watchCases {d : Doubles δ} {w : Watched capacity δ} {action : Action} {trail : Trail capacity}
    (taken : trace w.trail action = some trail) :
    (trail.blocks = w.trail.blocks ∧
      ∀ doMeasure, metersAfter doMeasure d w.trail.system w.meters action = w.meters) ∨
    ∃ cycle bufferSize block, w.trail.system.processing = some (cycle,bufferSize) ∧
      trail.blocks = w.trail.blocks ++ [block] ∧ block.nframes = cycle.nframes.toNat ∧
      block.channels = channelsOf w.trail.system ∧
      ∀ doMeasure, metersAfter doMeasure d w.trail.system w.meters action =
        if doMeasure then meterBlock d cycle.nframes (processRead w.trail.system.bridge cycle bufferSize).1.currentNumberOfChannels
          block.outputs w.meters
        else w.meters := by
  obtain ⟨system,step,rfl⟩ := Option.map_eq_some_iff.mp taken
  cases action with
  | copyData => exact .inl ⟨List.append_nil _,fun _ => rfl⟩
  | processQuery => exact .inl ⟨List.append_nil _,fun _ => rfl⟩
  | reset => exact .inl ⟨List.append_nil _,fun _ => rfl⟩
  | processRead =>
    obtain ⟨⟨cycle,bufferSize⟩,processing,rfl⟩ := Option.map_eq_some_iff.mp step
    simp only [follow, JackAlignment.heard, metersAfter, processing]
    by_cases ok : (processRead w.trail.system.bridge cycle bufferSize).1.error = .ok
    · simp only [ok, if_true, and_true]
      exact .inr ⟨_,_,_,rfl,rfl,rfl,rfl,fun _ => rfl⟩
    · simp only [ok, if_false, and_false]
      exact .inl ⟨List.append_nil _,fun _ => trivial⟩

theorem watchMetered (d : Doubles δ) (w : Watched capacity δ) (action : Action) (next : Watched capacity δ)
    (before : ∃ channels, Tracked w.trail channels ∧ Metered d w.meters w.trail.blocks channels)
    (taken : watch true d w action = some next) :
    ∃ channels, Tracked next.trail channels ∧ Metered d next.meters next.trail.blocks channels := by
  obtain ⟨channels,tracked,metered⟩ := before
  obtain ⟨trail,traced,rfl⟩ := Option.map_eq_some_iff.mp taken
  obtain ⟨channels',tracked'⟩ := traceTracked w.trail action trail ⟨channels,tracked⟩ traced
  refine ⟨channels',tracked',?_⟩
  rcases watchCases (d := d) traced with ⟨blocks,same⟩ | ⟨cycle,bufferSize,block,processing,blocks,frames,same,measures⟩
  · rw [blocks, same]
    cases some_ : w.trail.blocks with
    | nil =>
      rw [metered.untouched some_]
      exact meteredNothing d channels'
    | cons block rest =>
      -- The stream was detected before it was played.
      have there : block ∈ w.trail.blocks := some_ ▸ List.mem_cons_self
      have here := (tracked.heard block there).1.symm.trans (tracked'.heard block (blocks ▸ there)).1
      rw [← here, ← some_]
      exact metered
  · obtain ⟨positive,size⟩ := tracked.pending _ _ processing
    obtain ⟨shaped,_⟩ := readCases tracked.shaped (tracked.supported.resolve_left positive) cycle size
    have there : block ∈ trail.blocks := blocks ▸ List.mem_append_right _ List.mem_cons_self
    have here : channels' = channels :=
      (tracked'.heard block there).1.symm.trans (same.trans tracked.shaped.count)
    have count := shaped.count
    rw [here, blocks, measures, if_pos rfl, ← count]
    exact blockMetered (count ▸ metered) frames

def packetSamples (rows : List Row) (ch : Nat) (block : Block) : List Rat :=
  ((rows.drop block.start).take block.nframes).map (fun row => row ch)

theorem playedPackets {rows : List Row} {block : Block} {ch : Nat} (heard : Heard rows block)
    (inside : ch < block.channels) : playedOn block ch = packetSamples rows ch block := by
  apply List.ext_getElem?
  intro f
  simp only [playedOn, samplesOf, packetSamples, List.getElem?_map, List.getElem?_take, List.getElem?_drop]
  split
  · rename_i low
    obtain ⟨row,found,channels⟩ := heard f low
    obtain ⟨buffer,lent,sample⟩ := channels ch inside
    rw [List.getElem?_range low, found, Option.map_some, Option.map_some, sampleOf, lent, ← sample]
    rfl
  · rename_i high
    rw [List.getElem?_eq_none (by simpa using high)]
    rfl

/-- In every run with meters, the peak of a channel is the largest magnitude that the last
400 blocks had on it, and its level the root over 400 sums of squares, one for each of
these blocks, in an order that starts anywhere among them. -/
theorem metersShowRecentAudio (capacity : Nat) (jackBufferFrames : UInt32) (d : Doubles δ) (schedule : List Action)
    (w : Watched capacity δ) (reached : run (watch true d) (watched d capacity jackBufferFrames) schedule = some w) :
    let blocks := w.trail.blocks
    let samples := packetSamples (acceptedRows (channelsOf w.trail.system) w.trail.accepted)
    (∀ ch < channelsOf w.trail.system,
      w.meters.channelPeak ch =
        loudest ((recent meterIterations.toNat blocks).flatMap (fun block => (samples ch block).map abs)) ∧
      ∀ last, blocks.getLast? = some last → ∃ sums : List δ,
        sums.rotate blocks.length =
          latest meterIterations.toNat d.zero (blocks.map (fun block => energy d (samples ch block))) ∧
        w.meters.channelRMS ch =
          d.rootOfMean (sums.foldl d.add d.zero) (meterIterations * UInt32.ofNat last.nframes)) ∧
    ∀ ch, channelsOf w.trail.system ≤ ch → w.meters.channelRMS ch = d.zero ∧ w.meters.channelPeak ch = 0 := by
  obtain ⟨channels,tracked,metered⟩ := runInvariant
    (I := fun w : Watched capacity δ => ∃ channels, Tracked w.trail channels ∧
      Metered d w.meters w.trail.blocks channels)
    (watchMetered d) ⟨0,untouchedTracked capacity jackBufferFrames,meteredNothing d 0⟩ reached
  have count : channelsOf w.trail.system = channels := tracked.shaped.count
  simp only [count]
  refine ⟨?_,metered.beyond⟩
  intro ch inside
  have same : ∀ block ∈ w.trail.blocks,
      playedOn block ch = packetSamples (acceptedRows channels w.trail.accepted) ch block := by
    intro block there
    obtain ⟨width,heard⟩ := tracked.heard block there
    exact playedPackets heard (width ▸ inside)
  constructor
  · rw [metered.shownPeak ch inside]
    refine congrArg loudest (List.flatMap_congr ?_)
    intro block there
    rw [same block (List.mem_of_mem_drop there)]
  · intro last end_
    refine ⟨slots meterIterations.toNat (row w.meters.meterRMS ch),?_,metered.shownRMS ch inside last end_⟩
    have squares : w.trail.blocks.map (fun block => energy d (playedOn block ch)) = w.trail.blocks.map (fun block =>
        energy d (packetSamples (acceptedRows channels w.trail.accepted) ch block)) :=
      List.map_congr_left (fun block there => congrArg (energy d) (same block there))
    have rolls := rolled (metered.squares ch inside)
    rwa [squares, List.length_map] at rolls

def exactSquares : Doubles Rat := ⟨0,fun sum sample => sum + sample * sample,(· + ·),fun sum n => sum / n.toNat⟩

def loudPacket : Bytes :=
  makePacket (fun _ => 0) 0 2 (fun ch _ => ⟨if ch = 1 then 0x400000 else 0,by split <;> decide,by split <;> decide⟩)

def stereoWatched : Option (Watched 131071 Rat) :=
  run (watch true exactSquares) (watched exactSquares 131071 1024)
    [.copyData (.frame loudPacket),.copyData (.frame loudPacket),.processQuery (stereoCycle 8),.processRead,
      .processQuery (stereoCycle 8),.processRead,.reset,.copyData (.frame loudPacket),.processQuery (stereoCycle 4),
      .processRead]

theorem metersShowRecentAudioStereo :
    let w := stereoWatched.get (by decide +kernel)
    w.trail.blocks.map Block.nframes = [8,8,4] ∧ w.meters.channelPeak 0 = 0 ∧ w.meters.channelPeak 1 = 1 / 2 := by
  obtain ⟨shown,_⟩ := metersShowRecentAudio 131071 1024 exactSquares _ _
    (Option.some_get (by decide +kernel : stereoWatched.isSome)).symm
  exact ⟨by decide +kernel,(shown 0 (by decide +kernel)).1.trans (by decide +kernel),
    (shown 1 (by decide +kernel)).1.trans (by decide +kernel)⟩

end ReacJack.MeteredAudio
