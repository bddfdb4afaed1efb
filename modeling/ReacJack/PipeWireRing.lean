import ReacJack.CircularBuffer

/-! The ring of `reacjack-pw.c`, for a `size_t` of any number of bits: its positions run
freely and wrap where the machine word does, which need not be a multiple of the
capacity. An index times the channel count is taken without wrapping: `calloc` has
found memory for all of them. A copying loop gives up when the rounds it is granted do
not suffice; each moves at least one frame, so it is granted as many as there are frames. -/
namespace ReacJack.PipeWireRing
open BufferLoops CircularBuffer

variable {w : Nat} {α : Type}

def reacjackPwRingFrames : BitVec w := 96000#w

structure AudioRing (w : Nat) (α : Type) where
  samples : Nat → α
  capacityFrames : BitVec w
  channels : UInt16
  readPos : BitVec w
  writePos : BitVec w

def audioRingInit [Zero α] (channels : UInt16) (capacityFrames : BitVec w) : AudioRing w α :=
  ⟨fun _ => 0,capacityFrames,channels,0,0⟩

structure Copying (w : Nat) (α : Type) where
  moved : BitVec w
  buffer : Nat → α

def chunk (capacityFrames pos frames moved : BitVec w) : BitVec w × BitVec w :=
  let index := (pos + moved) % capacityFrames
  let contiguous := capacityFrames - index
  let todo := frames - moved
  (index,if contiguous < todo then contiguous else todo)

def writeChunk (ring : AudioRing w α) (interleaved : Nat → α) (frames : BitVec w) (s : Copying w α) : Copying w α :=
  let width := ring.channels.toNat
  let (index,todo) := chunk ring.capacityFrames ring.writePos frames s.moved
  ⟨s.moved + todo,memcpy s.buffer (index.toNat * width)
    (fun i => interleaved (s.moved.toNat * width + i)) (todo.toNat * width)⟩

def audioRingWrite (ring : AudioRing w α) (interleaved : Nat → α) (frames : BitVec w) :
    Option (Int × AudioRing w α) :=
  let used := ring.writePos - ring.readPos
  let freeFrames := ring.capacityFrames - used
  if freeFrames < frames then some (-1,ring)
  else
    (whileLoop (fun s => decide (s.moved < frames)) (writeChunk ring interleaved frames) frames.toNat
      ⟨0,ring.samples⟩).map fun s =>
        (0,{ring with samples := s.buffer, writePos := ring.writePos + frames})

def readChunk (ring : AudioRing w α) (count : BitVec w) (s : Copying w α) : Copying w α :=
  let width := ring.channels.toNat
  let (index,todo) := chunk ring.capacityFrames ring.readPos count s.moved
  ⟨s.moved + todo,memcpy s.buffer (s.moved.toNat * width)
    (fun i => ring.samples (index.toNat * width + i)) (todo.toNat * width)⟩

def audioRingRead [Zero α] (ring : AudioRing w α) (out : Nat → α) (frames : BitVec w) :
    Option (BitVec w × AudioRing w α × (Nat → α)) :=
  let available := ring.writePos - ring.readPos
  let count := if available < frames then available else frames
  let width := ring.channels.toNat
  (whileLoop (fun s => decide (s.moved < count)) (readChunk ring count) count.toNat ⟨0,out⟩).map fun s =>
    let out :=
      if count < frames then memset s.buffer (count.toNat * width) 0 ((frames - count).toNat * width)
      else s.buffer
    (count,{ring with readPos := ring.readPos + count},out)

def interleavePacket (interleaved : Nat → α) (channels : Nat → Nat → α) (channelCount : UInt16)
    (frames : Nat) : Nat → α :=
  loop frames (fun frame interleaved =>
    loop channelCount.toNat (fun ch interleaved =>
      put interleaved (frame * channelCount.toNat + ch) (channels ch frame)) interleaved) interleaved

def fill (ring : AudioRing w α) : Nat := (ring.writePos - ring.readPos).toNat

theorem chunkToNat {capacityFrames frames moved : BitVec w} (pos : BitVec w) (positive : 0 < capacityFrames.toNat)
    (le : moved.toNat ≤ frames.toNat) :
    (chunk capacityFrames pos frames moved).1.toNat = (pos + moved).toNat % capacityFrames.toNat ∧
      (chunk capacityFrames pos frames moved).2.toNat =
        min (frames.toNat - moved.toNat)
          (capacityFrames.toNat - (pos + moved).toNat % capacityFrames.toNat) := by
  have inside := Nat.mod_lt (pos + moved).toNat positive
  have index : ((pos + moved) % capacityFrames).toNat = (pos + moved).toNat % capacityFrames.toNat :=
    BitVec.toNat_umod
  have contiguous : (capacityFrames - (pos + moved) % capacityFrames).toNat =
      capacityFrames.toNat - (pos + moved).toNat % capacityFrames.toNat := by
    rw [BitVec.toNat_sub_of_le (BitVec.le_def.mpr (by rw [index]; exact Nat.le_of_lt inside)), index]
  have left : (frames - moved).toNat = frames.toNat - moved.toNat :=
    BitVec.toNat_sub_of_le (BitVec.le_def.mpr le)
  refine ⟨index,?_⟩
  simp only [chunk]
  split <;> rename_i h <;> rw [BitVec.lt_def, contiguous, left] at h <;> omega

theorem chunkProgress {capacityFrames frames moved : BitVec w} (pos : BitVec w) (positive : 0 < capacityFrames.toNat)
    (less : moved.toNat < frames.toNat) :
    (moved + (chunk capacityFrames pos frames moved).2).toNat =
      moved.toNat + (chunk capacityFrames pos frames moved).2.toNat ∧
    0 < (chunk capacityFrames pos frames moved).2.toNat ∧
    moved.toNat + (chunk capacityFrames pos frames moved).2.toNat ≤ frames.toNat := by
  obtain ⟨_,todo⟩ := chunkToNat pos positive (Nat.le_of_lt less)
  have inside := Nat.mod_lt (pos + moved).toNat positive
  have small := frames.isLt
  have within : moved.toNat + (chunk capacityFrames pos frames moved).2.toNat ≤ frames.toNat := by omega
  refine ⟨?_,by omega,within⟩
  rw [BitVec.toNat_add]
  exact Nat.mod_eq_of_lt (within.trans_lt small)

theorem copyingEnds {capacityFrames : BitVec w} (pos frames : BitVec w) (round : Copying w α → Copying w α)
    (buffer : Nat → α) (moves : ∀ s, (round s).moved = s.moved + (chunk capacityFrames pos frames s.moved).2)
    (positive : 0 < capacityFrames.toNat) {P : Copying w α → Prop}
    (keeps : ∀ s, P s → s.moved.toNat < frames.toNat → P (round s)) (start : P ⟨0,buffer⟩) :
    ∃ s, whileLoop (fun s => decide (s.moved < frames)) round frames.toNat ⟨0,buffer⟩ = some s ∧ P s ∧
      s.moved.toNat = frames.toNat := by
  have rounds : ∀ s, (P s ∧ s.moved.toNat ≤ frames.toNat) → decide (s.moved < frames) = true →
      (P (round s) ∧ (round s).moved.toNat ≤ frames.toNat) ∧
        frames.toNat - (round s).moved.toNat < frames.toNat - s.moved.toNat := by
    rintro s ⟨holds,_⟩ more
    rw [decide_eq_true_eq, BitVec.lt_def] at more
    obtain ⟨moved,some,within⟩ := chunkProgress pos positive more
    rw [← moves s] at moved
    exact ⟨⟨keeps s holds more,by omega⟩,by omega⟩
  obtain ⟨s,result,⟨holds,le⟩,stopped⟩ := whileInvariant
    (fun s : Copying w α => frames.toNat - s.moved.toNat) rounds (s := (⟨0,buffer⟩ : Copying w α)) ⟨start,by simp⟩ (Nat.sub_le _ _)
  rw [decide_eq_false_iff_not, BitVec.lt_def] at stopped
  exact ⟨s,result,holds,by omega⟩

theorem twoRounds {capacityFrames pos frames : BitVec w} (round : Copying w α → Copying w α) (buffer : Nat → α)
    (moves : ∀ s, (round s).moved = s.moved + (chunk capacityFrames pos frames s.moved).2)
    (positive : 0 < capacityFrames.toNat) (fits : frames.toNat ≤ capacityFrames.toNat)
    (straight : pos.toNat + frames.toNat ≤ 2 ^ w) :
    EndsWithin (fun s => decide (s.moved < frames)) round 2 ⟨0,buffer⟩ := by
  let first := min frames.toNat (capacityFrames.toNat - pos.toNat % capacityFrames.toNat)
  let left : Copying w α → Nat := fun s =>
    if s.moved.toNat = frames.toNat then 0 else if s.moved.toNat = 0 then 2 else 1
  have inside := Nat.mod_lt pos.toNat positive
  have rounds : ∀ s : Copying w α, (s.moved.toNat = 0 ∨ s.moved.toNat = first ∨ s.moved.toNat = frames.toNat) →
      decide (s.moved < frames) = true →
      ((round s).moved.toNat = 0 ∨ (round s).moved.toNat = first ∨ (round s).moved.toNat = frames.toNat) ∧
        left (round s) < left s := by
    intro s where_ more
    rw [decide_eq_true_eq, BitVec.lt_def] at more
    obtain ⟨index,todo⟩ := chunkToNat pos positive (Nat.le_of_lt more)
    obtain ⟨moved,some,_⟩ := chunkProgress pos positive more
    have here : (pos + s.moved).toNat = pos.toNat + s.moved.toNat := by
      rw [BitVec.toNat_add]
      exact Nat.mod_eq_of_lt (by omega)
    rw [here] at todo
    rw [← moves s] at moved
    rcases where_ with begun | stopped | ended
    · rw [begun, Nat.add_zero] at todo
      refine ⟨.inr (.inl (by omega)),?_⟩
      simp only [left]
      split_ifs <;> omega
    · -- the circle starts over, and what is left fits into it
      have atEnd : s.moved.toNat = capacityFrames.toNat - pos.toNat % capacityFrames.toNat := by omega
      rw [atEnd, restartsAtZero pos.toNat positive] at todo
      refine ⟨.inr (.inr (by omega)),?_⟩
      simp only [left]
      split_ifs <;> omega
    · omega
  have enough : left ⟨0,buffer⟩ ≤ 2 := by
    simp only [left]
    split_ifs <;> omega
  obtain ⟨s,result,_⟩ := whileInvariant left rounds (s := ⟨0,buffer⟩) (.inl (by simp)) enough
  rw [EndsWithin, result]
  rfl

theorem chunkRows {capacityFrames pos frames moved : BitVec w} (positive : 0 < capacityFrames.toNat)
    (straight : pos.toNat + frames.toNat ≤ 2 ^ w) (less : moved.toNat < frames.toNat) :
    (chunk capacityFrames pos frames moved).1.toNat = (pos.toNat + moved.toNat) % capacityFrames.toNat ∧
    ∀ j < (chunk capacityFrames pos frames moved).2.toNat,
      (pos.toNat + (moved.toNat + j)) % capacityFrames.toNat =
        (chunk capacityFrames pos frames moved).1.toNat + j := by
  obtain ⟨index,todo⟩ := chunkToNat pos positive (Nat.le_of_lt less)
  have here : (pos + moved).toNat = pos.toNat + moved.toNat := by
    rw [BitVec.toNat_add]
    exact Nat.mod_eq_of_lt (by omega)
  rw [here] at index todo
  refine ⟨index,?_⟩
  intro j inside
  rw [index, ← Nat.add_assoc]
  exact firstSegment (by omega)

structure Moved (ring : AudioRing w α) (interleaved : Nat → α) (s : Copying w α) : Prop where
  rows : ∀ f < s.moved.toNat, ∀ ch < ring.channels.toNat,
    s.buffer ((ring.writePos.toNat + f) % ring.capacityFrames.toNat * ring.channels.toNat + ch) =
      interleaved (f * ring.channels.toNat + ch)
  others : ∀ row, (∀ f < s.moved.toNat, row ≠ (ring.writePos.toNat + f) % ring.capacityFrames.toNat) →
    ∀ ch < ring.channels.toNat, s.buffer (row * ring.channels.toNat + ch) =
      ring.samples (row * ring.channels.toNat + ch)

theorem movedRound {ring : AudioRing w α} {interleaved : Nat → α} {frames : BitVec w} {s : Copying w α}
    (positive : 0 < ring.capacityFrames.toNat) (fits : frames.toNat ≤ ring.capacityFrames.toNat)
    (straight : ring.writePos.toNat + frames.toNat ≤ 2 ^ w) (moved : Moved ring interleaved s)
    (less : s.moved.toNat < frames.toNat) : Moved ring interleaved (writeChunk ring interleaved frames s) := by
  obtain ⟨index,rows⟩ := chunkRows positive straight less
  obtain ⟨total,_,within⟩ := chunkProgress ring.writePos positive less
  constructor
  · intro f inside ch channel
    simp only [writeChunk, total] at inside ⊢
    rcases Nat.lt_or_ge f s.moved.toNat with before | now
    · -- within one turn of the circle no row is used twice
      have apart : ∀ j < (chunk ring.capacityFrames ring.writePos frames s.moved).2.toNat,
          (ring.writePos.toNat + f) % ring.capacityFrames.toNat ≠
            (chunk ring.capacityFrames ring.writePos frames s.moved).1.toNat + j := by
        intro j here same
        rw [← rows j here] at same
        have equal := windowInjective (a := ring.writePos.toNat) (by omega) (by omega) same
        omega
      rw [memcpyRowsOutside _ _ channel]
      · exact moved.rows f before ch channel
      · by_contra touched
        have here := apart ((ring.writePos.toNat + f) % ring.capacityFrames.toNat -
          (chunk ring.capacityFrames ring.writePos frames s.moved).1.toNat) (by omega)
        omega
    · have row := rows (f - s.moved.toNat) (by omega)
      rw [Nat.add_sub_cancel' now] at row
      rw [row, memcpyRowsInside _ _ channel (by omega) (by omega), Nat.add_sub_cancel_left]
      congr 1
      rw [Nat.sub_mul]
      have := Nat.mul_le_mul_right ring.channels.toNat now
      omega
  · intro row other ch channel
    simp only [writeChunk, total] at other ⊢
    rw [memcpyRowsOutside _ _ channel]
    · exact moved.others row (fun f inside => other f (by omega)) ch channel
    · by_contra touched
      have here := rows (row - (chunk ring.capacityFrames ring.writePos frames s.moved).1.toNat) (by omega)
      refine other (s.moved.toNat + (row - (chunk ring.capacityFrames ring.writePos frames s.moved).1.toNat))
        (by omega) ?_
      rw [here]
      omega

theorem freeToNat {ring : AudioRing w α} (bounded : fill ring ≤ ring.capacityFrames.toNat) :
    (ring.capacityFrames - (ring.writePos - ring.readPos)).toNat = ring.capacityFrames.toNat - fill ring :=
  BitVec.toNat_sub_of_le (BitVec.le_def.mpr bounded)

theorem writeRefused {ring : AudioRing w α} (bounded : fill ring ≤ ring.capacityFrames.toNat)
    (interleaved : Nat → α) {frames : BitVec w} (full : ring.capacityFrames.toNat - fill ring < frames.toNat) :
    audioRingWrite ring interleaved frames = some (-1,ring) := by
  rw [← freeToNat bounded, ← BitVec.lt_def] at full
  exact if_pos full

theorem writeAccepted {ring : AudioRing w α} (positive : 0 < ring.capacityFrames.toNat)
    (bounded : fill ring ≤ ring.capacityFrames.toNat) (interleaved : Nat → α) {frames : BitVec w}
    (fits : frames.toNat ≤ ring.capacityFrames.toNat - fill ring) :
    ∃ s, audioRingWrite ring interleaved frames =
        some (0,{ring with samples := s.buffer, writePos := ring.writePos + frames}) ∧
      (ring.writePos.toNat + frames.toNat ≤ 2 ^ w →
        Moved ring interleaved s ∧ s.moved.toNat = frames.toNat) := by
  have room : ¬ ring.capacityFrames - (ring.writePos - ring.readPos) < frames := by
    rw [BitVec.lt_def, freeToNat bounded]
    omega
  obtain ⟨s,result,moved,all⟩ := copyingEnds ring.writePos frames (writeChunk ring interleaved frames)
    ring.samples (fun _ => rfl) positive
    (P := fun s => ring.writePos.toNat + frames.toNat ≤ 2 ^ w → Moved ring interleaved s)
    (fun s before less straight => movedRound positive (by omega) straight (before straight) less)
    (fun _ => ⟨fun f none => absurd none (by simp),fun _ _ _ _ => rfl⟩)
  refine ⟨s,?_,fun straight => ⟨moved straight,all⟩⟩
  simp only [audioRingWrite, room, if_false, result, Option.map_some]

theorem writeTotal {ring : AudioRing w α} (positive : 0 < ring.capacityFrames.toNat) (interleaved : Nat → α)
    (frames : BitVec w) : ∃ code ring', audioRingWrite ring interleaved frames = some (code,ring') ∧
      ring'.capacityFrames = ring.capacityFrames := by
  by_cases full : ring.capacityFrames - (ring.writePos - ring.readPos) < frames
  · exact ⟨-1,ring,if_pos full,rfl⟩
  · obtain ⟨s,result,_⟩ := copyingEnds ring.writePos frames (writeChunk ring interleaved frames)
      ring.samples (fun _ => rfl) positive (P := fun _ => True) (fun _ _ _ => trivial) trivial
    refine ⟨0,{ring with samples := s.buffer, writePos := ring.writePos + frames},?_,rfl⟩
    simp only [audioRingWrite, full, if_false, result, Option.map_some]

def Fetched (ring : AudioRing w α) (s : Copying w α) : Prop :=
  ∀ f < s.moved.toNat, ∀ ch < ring.channels.toNat, s.buffer (f * ring.channels.toNat + ch) =
    ring.samples ((ring.readPos.toNat + f) % ring.capacityFrames.toNat * ring.channels.toNat + ch)

theorem fetchedRound {ring : AudioRing w α} {count : BitVec w} {s : Copying w α}
    (positive : 0 < ring.capacityFrames.toNat) (straight : ring.readPos.toNat + count.toNat ≤ 2 ^ w)
    (fetched : Fetched ring s) (less : s.moved.toNat < count.toNat) : Fetched ring (readChunk ring count s) := by
  obtain ⟨index,rows⟩ := chunkRows positive straight less
  obtain ⟨total,_,within⟩ := chunkProgress ring.readPos positive less
  intro f inside ch channel
  simp only [readChunk, total] at inside ⊢
  rcases Nat.lt_or_ge f s.moved.toNat with before | now
  · rw [memcpyRowsOutside _ _ channel (by omega)]
    exact fetched f before ch channel
  · have row := rows (f - s.moved.toNat) (by omega)
    rw [Nat.add_sub_cancel' now] at row
    rw [memcpyRowsInside _ _ channel (by omega) (by omega), row]
    congr 1
    ring

def readCount (ring : AudioRing w α) (frames : BitVec w) : BitVec w :=
  if ring.writePos - ring.readPos < frames then ring.writePos - ring.readPos else frames

theorem readCountToNat (ring : AudioRing w α) (frames : BitVec w) :
    (readCount ring frames).toNat = min (fill ring) frames.toNat := by
  unfold readCount fill
  split <;> rename_i h <;> rw [BitVec.lt_def] at h <;> omega

theorem readSpec [Zero α] {ring : AudioRing w α} (positive : 0 < ring.capacityFrames.toNat) (out : Nat → α)
    (frames : BitVec w) :
    ∃ out', audioRingRead ring out frames =
        some (readCount ring frames,{ring with readPos := ring.readPos + readCount ring frames},out') ∧
      (ring.readPos.toNat + (readCount ring frames).toNat ≤ 2 ^ w →
        ∀ f < (readCount ring frames).toNat, ∀ ch < ring.channels.toNat,
          out' (f * ring.channels.toNat + ch) =
            ring.samples ((ring.readPos.toNat + f) % ring.capacityFrames.toNat * ring.channels.toNat + ch)) ∧
      ∀ f < frames.toNat, (readCount ring frames).toNat ≤ f → ∀ ch < ring.channels.toNat,
        out' (f * ring.channels.toNat + ch) = 0 := by
  obtain ⟨s,result,fetched,all⟩ := copyingEnds ring.readPos (readCount ring frames)
    (readChunk ring (readCount ring frames)) out (fun _ => rfl) positive
    (P := fun s => ring.readPos.toNat + (readCount ring frames).toNat ≤ 2 ^ w → Fetched ring s)
    (fun s before less straight => fetchedRound positive straight (before straight) less)
    (fun _ f none => absurd none (by simp))
  refine ⟨if readCount ring frames < frames then memset s.buffer ((readCount ring frames).toNat *
    ring.channels.toNat) 0 ((frames - readCount ring frames).toNat * ring.channels.toNat) else s.buffer,?_,?_,?_⟩
  · unfold audioRingRead
    change Option.map _ (whileLoop (fun s => decide (s.moved < readCount ring frames))
      (readChunk ring (readCount ring frames)) (readCount ring frames).toNat ⟨0,out⟩) = _
    rw [result]
    rfl
  · intro straight f inside ch channel
    rw [← fetched straight f (by omega) ch channel]
    split
    · exact memcpyRowsOutside _ _ channel (Or.inl inside)
    · rfl
  · intro f inside silent ch channel
    have short : readCount ring frames < frames := BitVec.lt_def.mpr (by omega)
    have rest : (frames - readCount ring frames).toNat = frames.toNat - (readCount ring frames).toNat :=
      BitVec.toNat_sub_of_le (Nat.le_of_lt (BitVec.lt_def.mp short))
    rw [if_pos short, memset, memcpyRowsInside _ _ channel silent (by omega)]

end ReacJack.PipeWireRing
