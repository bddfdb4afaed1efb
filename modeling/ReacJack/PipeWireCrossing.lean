import ReacJack.PipeWireThreads
import ReacJack.StreamHandover

/-! Every interleaving of the capture thread with PipeWire's is a handover of frames: the
state of the two calls, with the positions they have loaded, describes one. -/
namespace ReacJack.PipeWireCrossing
open BufferLoops CircularBuffer TransitionRuns PipeWireRing PipeWireThreads StreamHandover

variable {w : Nat} {α : Type} {capacity width : Nat}

def rowCell (capacity width p ch : Nat) : Nat := p % capacity * width + ch

theorem rowsSeparate (capacity width : Nat) : Separate (rowCell capacity width) width capacity := by
  intro a p q ch ch' channel channel' lowP highP lowQ highQ same
  obtain ⟨rows,channels⟩ := cellInjective channel channel' same
  exact ⟨windowInjective ⟨lowP,highP⟩ ⟨lowQ,highQ⟩ rows,channels⟩

abbrev Passing (α : Type) (capacity width : Nat) := Handover α (rowCell capacity width) width capacity

@[simp] theorem frameRowsLength (interleaved : Nat → α) (frames : Nat) :
    (frameRows width interleaved frames).length = frames := by
  simp [frameRows]

theorem frameRowsAt (interleaved : Nat → α) {frames f : Nat} (inside : f < frames) :
    (frameRows width interleaved frames)[f]? = some (fun ch => interleaved (f * width + ch)) := by
  simp [frameRows, inside]

def WriterOk (ring : AudioRing w α) (h : Passing α capacity width) : WriterPc w α → Prop
  | .idle | .entered .. => h.block = []
  | .checking _ _ readPos =>
    h.block = [] ∧ readPos.toNat ≤ h.taken ∧ h.stream.length ≤ readPos.toNat + capacity
  | .moving interleaved frames writePos written =>
    writePos = ring.writePos ∧ h.block = frameRows width interleaved frames.toNat ∧
    written.toNat ≤ frames.toNat ∧
    ∀ f ch, h.missing f ch → ch < width → written.toNat ≤ f
  | .copying interleaved frames writePos written index todo pending =>
    writePos = ring.writePos ∧ h.block = frameRows width interleaved frames.toNat ∧
    written.toNat < frames.toNat ∧
    index = (chunk ring.capacityFrames writePos frames written).1 ∧
    todo = (chunk ring.capacityFrames writePos frames written).2 ∧
    (∀ e ∈ pending, e < todo.toNat * width) ∧
    ∀ f ch, h.missing f ch → ch < width → written.toNat + todo.toNat ≤ f ∨
      written.toNat ≤ f ∧ (f - written.toNat) * width + ch ∈ pending

def Fetched (h : Passing α capacity width) (out : Nat → α) (rows : Nat) (except : Nat → Nat → Prop) : Prop :=
  ∀ f ch frame, f < rows → ch < width → h.stream[h.taken + f]? = some frame → ¬ except f ch →
    out (f * width + ch) = frame ch

def ReaderOk (ring : AudioRing w α) (h : Passing α capacity width) : ReaderPc w α → Prop
  | .idle | .entered .. => h.claimed = 0
  | .counting _ _ readPos => h.claimed = 0 ∧ readPos = ring.readPos
  | .moving out frames readPos toRead readFrames =>
    readPos = ring.readPos ∧ h.claimed = toRead.toNat ∧ toRead.toNat ≤ frames.toNat ∧
    readFrames.toNat ≤ toRead.toNat ∧ Fetched h out readFrames.toNat (fun _ _ => False)
  | .copying out frames readPos toRead readFrames index todo pending =>
    readPos = ring.readPos ∧ h.claimed = toRead.toNat ∧ toRead.toNat ≤ frames.toNat ∧
    readFrames.toNat < toRead.toNat ∧
    index = (chunk ring.capacityFrames readPos toRead readFrames).1 ∧
    todo = (chunk ring.capacityFrames readPos toRead readFrames).2 ∧
    (∀ e ∈ pending, e < todo.toNat * width) ∧
    Fetched h out (readFrames.toNat + todo.toNat) (fun f ch =>
      readFrames.toNat ≤ f ∧ (f - readFrames.toNat) * width + ch ∈ pending)

def samplesOf (width : Nat) (frame : Nat → α) : List α := (List.range width).map frame

def heard (width : Nat) (deliveries : List (Delivery w α)) : List (List α) :=
  deliveries.flatMap (fun d => (frameRows width d.out d.toRead.toNat).map (samplesOf width))

def Padded [Zero α] (width : Nat) (d : Delivery w α) : Prop :=
  d.toRead.toNat ≤ d.frames.toNat ∧
  ∀ f ch, d.toRead.toNat ≤ f → f < d.frames.toNat → ch < width → d.out (f * width + ch) = 0

theorem heardMore {out : Nat → α} {stream : List (Nat → α)} {from_ n : Nat} (inside : from_ + n ≤ stream.length)
    (same : ∀ f ch frame, f < n → ch < width → stream[from_ + f]? = some frame → out (f * width + ch) = frame ch) :
    (stream.take from_).map (samplesOf width) ++ (frameRows width out n).map (samplesOf width) =
      (stream.take (from_ + n)).map (samplesOf width) := by
  rw [List.take_add, List.map_append]
  congr 1
  refine List.ext_getElem (by simp; omega) ?_
  intro f here there
  rw [List.length_map, frameRowsLength] at here
  simp only [frameRows, List.getElem_map, List.getElem_range, List.getElem_take, List.getElem_drop]
  refine List.map_congr_left fun ch channel => ?_
  exact same f ch _ here (List.mem_range.mp channel) (List.getElem?_eq_getElem (by omega))

structure Follows [Zero α] (s : Threads w α) (h : Passing α capacity width) : Prop where
  capacityEq : s.ring.capacityFrames.toNat = capacity
  positive : 0 < capacity
  widthEq : s.ring.channels.toNat = width
  memory : h.memory = s.ring.samples
  stream : h.stream = s.accepted
  written : s.ring.writePos.toNat = h.stream.length
  taken : s.ring.readPos.toNat = h.taken
  writer : WriterOk s.ring h s.writer
  reader : ReaderOk s.ring h s.reader
  heard : heard width s.deliveries = (h.stream.take h.taken).map (samplesOf width)
  padded : ∀ d ∈ s.deliveries, Padded width d

def promised (s : Threads w α) : Nat :=
  s.accepted.length +
    match s.writer with
    | .moving _ frames .. | .copying _ frames .. => frames.toNat
    | _ => 0

section
variable [Zero α] {s : Threads w α} {h : Passing α capacity width}

theorem ringPositive (follows : Follows s h) : 0 < s.ring.capacityFrames.toNat :=
  follows.capacityEq ▸ follows.positive

theorem writerMoves (follows : Follows s h) {pc : WriterPc w α} (ok : WriterOk s.ring h pc) :
    Follows {s with writer := pc} h :=
  ⟨follows.capacityEq,follows.positive,follows.widthEq,follows.memory,follows.stream,follows.written,
    follows.taken,ok,follows.reader,follows.heard,follows.padded⟩

theorem readerMoves (follows : Follows s h) {pc : ReaderPc w α} (ok : ReaderOk s.ring h pc) :
    Follows {s with reader := pc} h :=
  ⟨follows.capacityEq,follows.positive,follows.widthEq,follows.memory,follows.stream,follows.written,
    follows.taken,follows.writer,ok,follows.heard,follows.padded⟩

theorem pendingCell {capacityFrames pos frames moved : BitVec w} {e : Nat}
    (positive : 0 < capacityFrames.toNat) (straight : pos.toNat + frames.toNat ≤ 2 ^ w)
    (less : moved.toNat < frames.toNat)
    (inside : e < (chunk capacityFrames pos frames moved).2.toNat * width) :
    e % width < width ∧ e / width < (chunk capacityFrames pos frames moved).2.toNat ∧
      (moved.toNat + e / width) * width + e % width = moved.toNat * width + e ∧
      rowCell capacityFrames.toNat width (pos.toNat + (moved.toNat + e / width)) (e % width) =
        (chunk capacityFrames pos frames moved).1.toNat * width + e := by
  have wide : 0 < width := by
    rcases Nat.eq_zero_or_pos width with rfl | wide
    · omega
    · exact wide
  obtain ⟨whole,channel⟩ := cellOf wide e
  have row : e / width < (chunk capacityFrames pos frames moved).2.toNat :=
    Nat.div_lt_of_lt_mul (by rwa [Nat.mul_comm])
  refine ⟨channel,row,?_,?_⟩
  · rw [Nat.add_mul]
    omega
  · rw [rowCell, (chunkRows positive straight less).2 _ row, Nat.add_mul]
    omega

theorem writerAdmits (follows : Follows s h) {interleaved : Nat → α} {frames readPos : BitVec w}
    (at_ : s.writer = .checking interleaved frames readPos)
    (room : ¬ s.ring.capacityFrames - (s.ring.writePos - readPos) < frames) :
    ∃ h' : Passing α capacity width, Follows {s with writer := .moving interleaved frames s.ring.writePos 0} h' := by
  have ok := follows.writer
  rw [at_] at ok
  obtain ⟨none_,stale,near⟩ := ok
  have written := follows.written
  have capacityEq := follows.capacityEq
  have claimedLe := h.claimedLe
  have used : (s.ring.writePos - readPos).toNat = h.stream.length - readPos.toNat := by
    rw [BitVec.toNat_sub_of_le (BitVec.le_def.mpr (by omega)), written]
  rw [BitVec.lt_def, BitVec.toNat_sub_of_le (BitVec.le_def.mpr (by omega)), used, capacityEq] at room
  refine ⟨commit h (frameRows width interleaved frames.toNat) (by rw [frameRowsLength]; omega),
    follows.capacityEq,follows.positive,follows.widthEq,follows.memory,follows.stream,follows.written,
    follows.taken,⟨rfl,rfl,Nat.zero_le _,fun f ch _ _ => ?_⟩,?_,follows.heard,follows.padded⟩
  · simp
  · exact follows.reader

theorem writerCopies (follows : Follows s h) {interleaved : Nat → α}
    {frames writePos written index todo : BitVec w} {e choice : Nat} {pending rest : List Nat}
    (at_ : s.writer = .copying interleaved frames writePos written index todo pending)
    (taken : takePending choice pending = some (e,rest)) (small : writePos.toNat + frames.toNat ≤ 2 ^ w) :
    ∃ h' : Passing α capacity width, Follows {s with
      ring := {s.ring with
        samples := put s.ring.samples (index.toNat * s.ring.channels.toNat + e)
          (interleaved (written.toNat * s.ring.channels.toNat + e))}
      writer := .copying interleaved frames writePos written index todo rest} h' := by
  have ok := follows.writer
  rw [at_] at ok
  obtain ⟨rfl,block,less,rfl,rfl,within,missing⟩ := ok
  have member := takePendingMember taken
  have capacityEq := follows.capacityEq
  obtain ⟨channel,row,place,cell⟩ := pendingCell (ringPositive follows) small less
    (within e ((member e).mpr (.inl rfl)))
  obtain ⟨_,_,fits⟩ := chunkProgress s.ring.writePos (ringPositive follows) less
  have found : h.block[written.toNat + e / width]? =
      some (fun ch => interleaved ((written.toNat + e / width) * width + ch)) := by
    rw [block]
    exact frameRowsAt interleaved (by omega)
  refine ⟨store (rowsSeparate capacity width) h found channel,capacityEq,follows.positive,follows.widthEq,?_,
    follows.stream,follows.written,follows.taken,⟨rfl,block,less,rfl,rfl,?_,?_⟩,follows.reader,follows.heard,
    follows.padded⟩
  · rw [follows.written, capacityEq] at cell
    simp only [store, cell, follows.memory, follows.widthEq, place]
    funext i
    rw [Function.update_apply]
    rfl
  · exact fun k here => within k ((member k).mpr (.inr here))
  · rintro f ch ⟨left,other⟩ channel'
    rcases missing f ch left channel' with later | ⟨now,here⟩
    · exact .inl later
    · rcases (member _).mp here with same | rest_
      · refine absurd ⟨?_,?_⟩ other
        · rw [← same, (rowColumn channel').1]
          omega
        · rw [← same, (rowColumn channel').2]
      · exact .inr ⟨now,rest_⟩

theorem writerPublishes (follows : Follows s h) {interleaved : Nat → α} {frames writePos written : BitVec w}
    (at_ : s.writer = .moving interleaved frames writePos written) (ended : ¬ written < frames)
    (small : writePos.toNat + frames.toNat < 2 ^ w) : ∃ h' : Passing α capacity width, Follows {s with
      ring := {s.ring with writePos := writePos + frames}
      writer := .idle
      accepted := s.accepted ++ frameRows s.ring.channels.toNat interleaved frames.toNat} h' := by
  have ok := follows.writer
  rw [at_] at ok
  obtain ⟨rfl,block,_,missing⟩ := ok
  rw [BitVec.lt_def] at ended
  have length : h.block.length = frames.toNat := by rw [block, frameRowsLength]
  have claimedLe := h.claimedLe
  refine ⟨publish h (fun f ch inside channel left => ?_),follows.capacityEq,follows.positive,follows.widthEq,
    follows.memory,?_,?_,follows.taken,rfl,?_,?_,follows.padded⟩
  · have := missing f ch left channel
    omega
  · simp only [publish, follows.stream, block, follows.widthEq]
  · have written := follows.written
    simp only [publish, List.length_append, length]
    rw [BitVec.toNat_add, Nat.mod_eq_of_lt small, written]
  · -- what the reader has claimed was published before
    have reader := follows.reader
    have same : ∀ f < h.claimed, (publish h (fun f ch inside channel left => by
        have := missing f ch left channel
        omega)).stream[h.taken + f]? = h.stream[h.taken + f]? := fun f inside =>
      List.getElem?_append_left (by omega)
    cases here : s.reader with
    | idle | entered | counting =>
      rw [here] at reader
      exact reader
    | moving out frames readPos toRead readFrames =>
      rw [here] at reader
      obtain ⟨pos,claimed,upTo,within,fetched⟩ := reader
      exact ⟨pos,claimed,upTo,within,fun f ch frame inside channel found =>
        fetched f ch frame inside channel ((same f (by omega)).symm.trans found)⟩
    | copying out frames readPos toRead readFrames index todo pending =>
      rw [here] at reader
      obtain ⟨pos,claimed,upTo,less,index_,todo_,pending_,fetched⟩ := reader
      have fits := (chunkProgress readPos (ringPositive follows) less).2.2
      rw [← todo_] at fits
      exact ⟨pos,claimed,upTo,less,index_,todo_,pending_,fun f ch frame inside channel found =>
        fetched f ch frame inside channel ((same f (by omega)).symm.trans found)⟩
  · rw [follows.heard]
    simp only [publish]
    rw [List.take_append_of_le_length (by omega)]

theorem writerFollows (follows : Follows s h) {choice : Nat} {next : Threads w α}
    (taken : stepWriter s choice = some next) (small : promised next < 2 ^ w) :
    ∃ h' : Passing α capacity width, Follows next h' := by
  have ok := follows.writer
  have written := follows.written
  have length : s.accepted.length = h.stream.length := by rw [follows.stream]
  cases writerActs taken with
  | loads at_ =>
    rw [at_] at ok
    have bounded := h.bounded
    have read := follows.taken
    exact ⟨h,writerMoves follows ⟨ok,by omega,by omega⟩⟩
  | refuses at_ =>
    rw [at_] at ok
    exact ⟨h,writerMoves follows ok.1⟩
  | admits at_ room => exact writerAdmits follows at_ room
  | @begins interleaved frames writePos written_ at_ more =>
    rw [at_] at ok
    obtain ⟨rfl,block,within,missing⟩ := ok
    rw [BitVec.lt_def] at more
    refine ⟨h,writerMoves follows ⟨rfl,block,more,rfl,rfl,fun e here => ?_,fun f ch left channel => ?_⟩⟩
    · rw [List.mem_range, follows.widthEq] at here
      exact here
    · have from_ := missing f ch left channel
      rw [List.mem_range, follows.widthEq]
      rcases Nat.lt_or_ge f (written_.toNat +
        (chunk s.ring.capacityFrames s.ring.writePos frames written_).2.toNat) with now | later
      · exact .inr ⟨from_,cellBound (by omega) channel⟩
      · exact .inl later
  | publishes at_ ended =>
    refine writerPublishes follows at_ ended ?_
    rw [at_] at ok
    simp only [promised, List.length_append, frameRowsLength] at small
    rw [ok.1]
    omega
  | copied at_ =>
    rw [at_] at ok
    obtain ⟨rfl,block,less,rfl,rfl,_,missing⟩ := ok
    obtain ⟨total,_,fits⟩ := chunkProgress s.ring.writePos (ringPositive follows) less
    refine ⟨h,writerMoves follows ⟨rfl,block,by omega,fun f ch left channel => ?_⟩⟩
    rcases missing f ch left channel with later | ⟨_,here⟩
    · omega
    · contradiction
  | copies at_ chosen =>
    refine writerCopies follows at_ chosen ?_
    rw [at_] at ok
    simp only [promised] at small
    rw [ok.1]
    omega

theorem readerCounts (follows : Follows s h) {out : Nat → α} {frames readPos : BitVec w}
    (at_ : s.reader = .counting out frames readPos) : ∃ h' : Passing α capacity width, Follows {s with
      reader := .moving out frames readPos
        (if s.ring.writePos - readPos < frames then s.ring.writePos - readPos else frames) 0} h' := by
  have ok := follows.reader
  rw [at_] at ok
  obtain ⟨_,rfl⟩ := ok
  have written := follows.written
  have read := follows.taken
  have claimedLe := h.claimedLe
  have available : (s.ring.writePos - s.ring.readPos).toNat = h.stream.length - h.taken := by
    rw [BitVec.toNat_sub_of_le (BitVec.le_def.mpr (by omega)), written, read]
  have count := readCountToNat s.ring frames
  rw [PipeWireRing.fill, available] at count
  refine ⟨claim h (readCount s.ring frames).toNat (by omega),follows.capacityEq,follows.positive,follows.widthEq,
    follows.memory,follows.stream,written,read,follows.writer,⟨rfl,rfl,?_,?_,?_⟩,follows.heard,follows.padded⟩
  · rw [← readCount]
    omega
  · exact Nat.zero_le _
  · intro f ch frame none_
    simp at none_

theorem readerCopies (follows : Follows s h) {out : Nat → α}
    {frames readPos toRead readFrames index todo : BitVec w} {e choice : Nat} {pending rest : List Nat}
    (at_ : s.reader = .copying out frames readPos toRead readFrames index todo pending)
    (taken : takePending choice pending = some (e,rest)) : Follows {s with
      reader := .copying (put out (readFrames.toNat * s.ring.channels.toNat + e)
        (s.ring.samples (index.toNat * s.ring.channels.toNat + e)))
        frames readPos toRead readFrames index todo rest} h := by
  have ok := follows.reader
  rw [at_] at ok
  obtain ⟨rfl,claimed,upTo,less,rfl,rfl,within,fetched⟩ := ok
  have member := takePendingMember taken
  have capacityEq := follows.capacityEq
  have positive := ringPositive follows
  have claimedLe := h.claimedLe
  have written := follows.written
  have below := s.ring.writePos.isLt
  have read := follows.taken
  have straight : s.ring.readPos.toNat + toRead.toNat ≤ 2 ^ w := by omega
  obtain ⟨channel,row,place,cell⟩ := pendingCell positive straight less (within e ((member e).mpr (.inl rfl)))
  obtain ⟨_,_,fits⟩ := chunkProgress s.ring.readPos positive less
  refine readerMoves follows ⟨rfl,claimed,upTo,less,rfl,rfl,fun k here => within k ((member k).mpr (.inr here)),?_⟩
  intro f ch frame inside channel' found done
  rw [follows.widthEq]
  by_cases here : f * width + ch = readFrames.toNat * width + e
  · rw [here, putHere]
    rw [← place] at here
    obtain ⟨rfl,rfl⟩ := cellInjective channel' channel here
    rw [← cell, ← follows.memory, capacityEq, read]
    exact loads h found channel
  · rw [putElsewhere _ _ here]
    refine fetched f ch frame inside channel' found (fun ⟨now,left⟩ => ?_)
    rcases (member _).mp left with same | rest_
    · refine here ?_
      have whole := Nat.sub_mul f readFrames.toNat width
      have le := Nat.mul_le_mul_right width now
      omega
    · exact done ⟨now,rest_⟩

theorem readerReleases (follows : Follows s h) {out : Nat → α} {frames readPos toRead readFrames : BitVec w}
    (at_ : s.reader = .moving out frames readPos toRead readFrames) (ended : ¬ readFrames < toRead) :
    Follows {s with
      ring := {s.ring with readPos := readPos + toRead}
      reader := .idle
      deliveries := s.deliveries ++ [⟨frames,toRead,
        if toRead < frames then
          memset out (toRead.toNat * s.ring.channels.toNat) 0 ((frames - toRead).toNat * s.ring.channels.toNat)
        else out⟩]} (release h) := by
  have ok := follows.reader
  rw [at_] at ok
  obtain ⟨rfl,claimed,upTo,within,fetched⟩ := ok
  rw [BitVec.lt_def] at ended
  have claimedLe := h.claimedLe
  have written := follows.written
  have below := s.ring.writePos.isLt
  have read := follows.taken
  have kept : ∀ f ch, f < toRead.toNat → ch < width → (if toRead < frames then
      memset out (toRead.toNat * width) 0 ((frames - toRead).toNat * width) else out) (f * width + ch) =
        out (f * width + ch) := by
    intro f ch inside channel
    split
    · exact memcpyRowsOutside _ _ channel (.inl inside)
    · rfl
  rw [follows.widthEq]
  refine ⟨follows.capacityEq,follows.positive,follows.widthEq,follows.memory,follows.stream,written,?_,?_,rfl,?_,?_⟩
  · simp only [release]
    rw [BitVec.toNat_add, Nat.mod_eq_of_lt (by omega), read, claimed]
  · have writer := follows.writer
    cases here : s.writer with
    | idle | entered | moving | copying =>
      rw [here] at writer
      exact writer
    | checking interleaved frames' seen =>
      rw [here] at writer
      exact ⟨writer.1,writer.2.1.trans (Nat.le_add_right _ _),writer.2.2⟩
  · simp only [PipeWireCrossing.heard, List.flatMap_append, List.flatMap_singleton]
    have before := follows.heard
    simp only [PipeWireCrossing.heard] at before
    simp only [before, release, claimed]
    refine heardMore (by omega) fun f ch frame inside channel found => ?_
    rw [kept f ch inside channel]
    exact fetched f ch frame (by omega) channel found (fun none_ => none_)
  · intro d member
    rcases List.mem_append.mp member with old | new
    · exact follows.padded d old
    · obtain rfl := List.mem_singleton.mp new
      refine ⟨upTo,fun f ch silent inside channel => ?_⟩
      simp only at silent inside ⊢
      have short : toRead < frames := BitVec.lt_def.mpr (by omega)
      have rest : (frames - toRead).toNat = frames.toNat - toRead.toNat :=
        BitVec.toNat_sub_of_le (Nat.le_of_lt (BitVec.lt_def.mp short))
      rw [if_pos short, memset, memcpyRowsInside _ _ channel silent (by omega)]

theorem readerFollows (follows : Follows s h) {choice : Nat} {next : Threads w α}
    (taken : stepReader s choice = some next) : ∃ h' : Passing α capacity width, Follows next h' := by
  have ok := follows.reader
  cases readerActs taken with
  | loads at_ =>
    rw [at_] at ok
    exact ⟨h,readerMoves follows ⟨ok,rfl⟩⟩
  | counts at_ => exact readerCounts follows at_
  | @begins out frames readPos toRead readFrames at_ more =>
    rw [at_] at ok
    obtain ⟨rfl,claimed,upTo,_,fetched⟩ := ok
    rw [BitVec.lt_def] at more
    refine ⟨h,readerMoves follows ⟨rfl,claimed,upTo,more,rfl,rfl,fun e here => ?_,?_⟩⟩
    · rw [List.mem_range, follows.widthEq] at here
      exact here
    · intro f ch frame inside channel found done
      rcases Nat.lt_or_ge f readFrames.toNat with before | now
      · exact fetched f ch frame before channel found (fun none_ => none_)
      · refine absurd ⟨now,?_⟩ done
        rw [List.mem_range, follows.widthEq]
        exact cellBound (by omega) channel
  | returns at_ ended => exact ⟨_,readerReleases follows at_ ended⟩
  | copied at_ =>
    rw [at_] at ok
    obtain ⟨rfl,claimed,upTo,less,rfl,rfl,_,fetched⟩ := ok
    obtain ⟨total,_,fits⟩ := chunkProgress s.ring.readPos (ringPositive follows) less
    refine ⟨h,readerMoves follows ⟨rfl,claimed,upTo,by omega,?_⟩⟩
    intro f ch frame inside channel found _
    exact fetched f ch frame (by omega) channel found (by simp)
  | copies at_ chosen => exact ⟨h,readerCopies follows at_ chosen⟩

theorem stepFollows (follows : Follows s h) {label : Label w α} {next : Threads w α}
    (taken : step s label = some next) (small : promised next < 2 ^ w) :
    ∃ h' : Passing α capacity width, Follows next h' := by
  cases label with
  | write interleaved frames =>
    obtain ⟨idle,rfl⟩ := writeEnters taken
    have ok := follows.writer
    rw [idle] at ok
    exact ⟨h,writerMoves follows ok⟩
  | read out frames =>
    obtain ⟨idle,rfl⟩ := readEnters taken
    have ok := follows.reader
    rw [idle] at ok
    exact ⟨h,readerMoves follows ok⟩
  | writer choice => exact writerFollows follows taken small
  | reader choice => exact readerFollows follows taken

end
end ReacJack.PipeWireCrossing
