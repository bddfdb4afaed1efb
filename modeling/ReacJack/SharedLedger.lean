import ReacJack.SharedFifo

/-! An exact account of any sequence of ring calls, taken only from what the calls
return, from the buffers they fill and from the header they leave. -/
namespace ReacJack.SharedLedger
open BoundedFifo TransitionRuns SharedAudio SharedFifo

variable {α : Type}

inductive Call (α : Type) where
  | write (channels : Nat → Nat → α) (frames : UInt32)
  | read (channels : Nat → Nat → α) (frames : UInt32)
  | readInterleaved (out : Nat → α) (outChannels : UInt16) (frames : UInt32)
  | readInterleavedRegulated (out : Nat → α) (outChannels : UInt16)
      (frames targetFill tolerance : UInt32)
  | seekToFill (targetFill : UInt32)

/-- A stretch of the stream as the reader saw it: real frames in a buffer, good for
so many channels, or a number of frames that were dropped or sought past. -/
inductive Entry (α : Type) where
  | delivered (channels : Nat) (frames : List (Frame α))
  | passedOver (count : Nat)

structure Ledger (α : Type) where
  accepted : List (Frame α)
  returned : Nat
  skipped : Nat
  entries : List (Entry α)

def blank : Ledger α := ⟨[],0,0,[]⟩

def Ledger.deliver (l : Ledger α) (channels : Nat) (frames : List (Frame α)) : Ledger α :=
  {l with returned := l.returned + frames.length, entries := l.entries ++ [.delivered channels frames]}

def Ledger.passOver (l : Ledger α) (count : Nat) : Ledger α :=
  {l with entries := l.entries ++ [.passedOver count]}

def Ledger.skip (l : Ledger α) (count : Nat) : Ledger α :=
  {l with skipped := l.skipped + count, entries := l.entries ++ [.passedOver count]}

abbrev Book (α : Type) := SharedRing α × Ledger α

def perform [Zero α] (s : Book α) : Call α → Book α
  | .write channels frames =>
    let (code,ring) := sharedAudioWrite s.1 channels frames
    (ring,if code = 0 then {s.2 with accepted := s.2.accepted ++ block channels frames.toNat} else s.2)
  | .read channels frames =>
    let r := sharedAudioRead s.1 channels frames
    (r.ring,s.2.deliver s.1.header.channels.toNat (columns r.out r.count.toNat))
  | .readInterleaved out outChannels frames =>
    let r := sharedAudioReadInterleaved s.1 out outChannels frames
    (r.ring,s.2.deliver (min s.1.header.channels.toNat outChannels.toNat)
      (rows r.out outChannels.toNat r.count.toNat))
  | .readInterleavedRegulated out outChannels frames targetFill tolerance =>
    let r := sharedAudioReadInterleavedRegulated s.1 out outChannels frames targetFill tolerance
    let dropped := (r.ring.header.droppedFrames - s.1.header.droppedFrames).toNat
    (r.ring,(s.2.passOver dropped).deliver (min s.1.header.channels.toNat outChannels.toNat)
      (rows r.out outChannels.toNat r.count.toNat))
  | .seekToFill targetFill =>
    let ring := (sharedAudioSeekToFill s.1 targetFill).2
    (ring,s.2.skip (ring.header.readPos - s.1.header.readPos).toNat)

def serve {capacity : Nat} (q : Queue (Frame α) capacity) : Call α → Queue (Frame α) capacity
  | .write channels frames => (offer q (block channels frames.toNat)).getD q
  | .read _ frames => advance q frames.toNat
  | .readInterleaved _ _ frames => advance q frames.toNat
  | .readInterleavedRegulated _ _ frames targetFill tolerance =>
    if targetFill.toNat + tolerance.toNat < q.fill then
      advance (advance q (min (q.fill - targetFill.toNat) 8)) frames.toNat
    else if q.fill + tolerance.toNat < targetFill.toNat then
      advance q (frames.toNat - min (targetFill.toNat - q.fill) 8)
    else advance q frames.toNat
  | .seekToFill targetFill => advance q (q.fill - targetFill.toNat)

def Fits : List (Entry α) → List (Frame α) → Prop
  | [], stretch => stretch = []
  | .delivered k frames :: rest, stretch =>
    List.Forall₂ (AgreeTo k) frames (stretch.take frames.length) ∧ Fits rest (stretch.drop frames.length)
  | .passedOver n :: rest, stretch => n ≤ stretch.length ∧ Fits rest (stretch.drop n)

theorem fitsAppend {entries more : List (Entry α)} {stretch later} (first : Fits entries stretch)
    (second : Fits more later) : Fits (entries ++ more) (stretch ++ later) := by
  induction entries generalizing stretch with
  | nil =>
    cases (show stretch = [] from first)
    exact second
  | cons entry rest ih =>
    cases entry with
    | delivered k frames =>
      obtain ⟨agree,tail⟩ := first
      have enough : frames.length ≤ stretch.length := by
        have := agree.length_eq
        rw [List.length_take] at this
        omega
      refine ⟨?_,?_⟩
      · rw [List.take_append_of_le_length enough]
        exact agree
      · rw [List.drop_append_of_le_length enough]
        exact ih tail
    | passedOver n =>
      obtain ⟨enough,tail⟩ := first
      refine ⟨by rw [List.length_append]; omega,?_⟩
      rw [List.drop_append_of_le_length enough]
      exact ih tail

theorem fitsDelivered {k : Nat} {frames stretch : List (Frame α)}
    (agree : List.Forall₂ (AgreeTo k) frames stretch) : Fits [.delivered k frames] stretch := by
  have length := agree.length_eq
  refine ⟨?_,?_⟩
  · rw [length, List.take_length]
    exact agree
  · rw [length]
    exact List.drop_length

theorem fitsPassedOver (stretch : List (Frame α)) : Fits [.passedOver stretch.length] stretch :=
  ⟨Nat.le_refl _,List.drop_length⟩

structure Balanced {capacity : Nat} (s : Book α) (q : Queue (Frame α) capacity) : Prop where
  refines : Refines s.1 q
  accepted : q.stream = s.2.accepted
  read : q.taken = s.2.returned + s.1.header.droppedFrames.toNat + s.2.skipped
  fits : Fits s.2.entries (q.stream.take q.taken)

theorem balancedDeliver {capacity : Nat} {s : Book α} {q : Queue (Frame α) capacity}
    (balanced : Balanced s q) {ring : SharedRing α} {k n : Nat} {frames : List (Frame α)}
    (refines : Refines ring (advance q n)) (dropped : ring.header.droppedFrames = s.1.header.droppedFrames)
    (agree : List.Forall₂ (AgreeTo k) frames (front q n)) :
    Balanced (ring,s.2.deliver k frames) (advance q n) := by
  have length := agree.length_eq
  rw [frontLength] at length
  refine ⟨refines,balanced.accepted,?_,?_⟩
  · have := balanced.read
    simp only [Ledger.deliver, advance, dropped]
    omega
  · rw [← takenThenFront]
    exact fitsAppend balanced.fits (fitsDelivered agree)

theorem balancedPass {capacity : Nat} {s : Book α} {q : Queue (Frame α) capacity}
    (balanced : Balanced s q) {ring : SharedRing α} {ledger : Ledger α} {n : Nat} (le : n ≤ q.fill)
    (refines : Refines ring (advance q n)) (accepted : ledger.accepted = s.2.accepted)
    (entries : ledger.entries = s.2.entries ++ [.passedOver n])
    (read : q.taken + n = ledger.returned + ring.header.droppedFrames.toNat + ledger.skipped) :
    Balanced (ring,ledger) (advance q n) := by
  refine ⟨refines,by rw [accepted]; exact balanced.accepted,?_,?_⟩
  · simp only [advance, Nat.min_eq_left le]
    exact read
  · have length : (front q n).length = n := by rw [frontLength]; exact Nat.min_eq_left le
    have passed := fitsPassedOver (front q n)
    rw [length] at passed
    rw [← takenThenFront]
    simp only [entries]
    exact fitsAppend balanced.fits passed

theorem performWrite [Zero α] {capacity : Nat} {s : Book α} {q : Queue (Frame α) capacity}
    (balanced : Balanced s q) (channels : Nat → Nat → α) (frames : UInt32)
    (small : (perform s (.write channels frames)).2.accepted.length < 2 ^ 64) :
    Balanced (perform s (.write channels frames)) (serve q (.write channels frames)) := by
  cases h : offer q (block channels frames.toNat) with
  | none =>
    have refused := writeRefusedRefines balanced.refines channels h
    have served : serve q (.write channels frames) = q := by simp only [serve, h, Option.getD_none]
    rw [served]
    simp only [perform, refused]
    obtain ⟨refines,accepted,read,fits⟩ := balanced
    exact ⟨⟨refines.1,refines.2,refines.3,refines.4,refines.5⟩,accepted,read,fits⟩
  | some next =>
    obtain ⟨fitted,stream,taken⟩ := offered h
    have room : frames.toNat ≤ s.1.header.capacityFrames.toNat - fill s.1.header := by
      rw [balanced.refines.capacityEq, refinesFill balanced.refines]
      rwa [blockLength] at fitted
    have accepted := writeAccepted (refinesSound balanced.refines) channels room
    have short : next.stream.length < 2 ^ 64 := by
      rw [stream, balanced.accepted]
      simpa only [perform, accepted, if_true] using small
    have written := (writeRefines balanced.refines h short).2
    rw [accepted] at written
    have served : serve q (.write channels frames) = next := by simp only [serve, h, Option.getD_some]
    rw [served]
    simp only [perform, accepted, if_true]
    refine ⟨written,by rw [stream, balanced.accepted],by rw [taken]; exact balanced.read,?_⟩
    rw [stream, taken, List.take_append_of_le_length q.takenLe]
    exact balanced.fits

theorem performSeek [Zero α] {capacity : Nat} {s : Book α} {q : Queue (Frame α) capacity}
    (balanced : Balanced s q) (targetFill : UInt32) :
    Balanced (perform s (.seekToFill targetFill)) (advance q (q.fill - targetFill.toNat)) := by
  have refines := seekRefines balanced.refines targetFill
  have taken := refines.taken
  have before := balanced.refines.taken
  have := (sharedAudioSeekToFill s.1 targetFill).2.header.readPos.toNat_lt
  have moved : ((sharedAudioSeekToFill s.1 targetFill).2.header.readPos - s.1.header.readPos).toNat =
      q.fill - targetFill.toNat := by
    simp only [advance] at taken
    rw [UInt64.toNat_sub]
    omega
  refine balancedPass balanced (Nat.sub_le _ _) refines rfl ?_ ?_
  · simp only [Ledger.skip, moved]
  · have := balanced.read
    have dropped : (sharedAudioSeekToFill s.1 targetFill).2.header.droppedFrames =
      s.1.header.droppedFrames := rfl
    simp only [Ledger.skip, moved, dropped]
    omega

theorem rowsFillTail [Zero α] (r : ReadResult α (Nat → α)) {outChannels : UInt16} {kept : UInt32} (insert : UInt32)
    (real : r.count.toNat ≤ kept.toNat) {k : Nat} (narrow : k ≤ outChannels.toNat)
    {frames : List (Frame α)}
    (agree : List.Forall₂ (AgreeTo k) (rows r.out outChannels.toNat r.count.toNat) frames) :
    List.Forall₂ (AgreeTo k)
      (rows (fillTail r outChannels kept insert).out outChannels.toNat r.count.toNat) frames := by
  rw [List.forall₂_iff_get] at agree ⊢
  obtain ⟨length,same⟩ := agree
  refine ⟨by rw [← length, rowsLength, rowsLength],?_⟩
  intro f inside inside' ch channel
  rw [rowsLength] at inside
  have before := same f (by rw [rowsLength]; exact inside) inside' ch channel
  have inTable := BufferLoops.cellBound (show f < kept.toNat by omega) (show ch < outChannels.toNat by omega)
  simp only [List.get_eq_getElem, rowsAt] at before ⊢
  rw [fillTailOutside r (.inl inTable)]
  exact before

theorem fillTailRefines [Zero α] {capacity : Nat} {r : ReadResult α (Nat → α)}
    {q : Queue (Frame α) capacity} (refines : Refines r.ring q) (outChannels : UInt16)
    (kept insert : UInt32) : Refines (fillTail r outChannels kept insert).ring q := by
  obtain ⟨capacityEq,positive,written,taken,stored⟩ := refines
  rw [fillTailRing]
  split <;> exact ⟨capacityEq,positive,written,taken,stored⟩

theorem fillTailDropped [Zero α] (r : ReadResult α (Nat → α)) (outChannels : UInt16)
    (kept insert : UInt32) :
    (fillTail r outChannels kept insert).ring.header.droppedFrames = r.ring.header.droppedFrames := by
  rw [fillTailRing]
  split <;> rfl

theorem fillTailChannels [Zero α] (r : ReadResult α (Nat → α)) (outChannels : UInt16)
    (kept insert : UInt32) :
    (fillTail r outChannels kept insert).ring.header.channels = r.ring.header.channels := by
  rw [fillTailRing]
  split <;> rfl

theorem regulatedServes [Zero α] {capacity : Nat} {ring : SharedRing α} {q : Queue (Frame α) capacity}
    (refines : Refines ring q) (out : Nat → α) (outChannels : UInt16) (frames targetFill tolerance : UInt32) :
    let r := sharedAudioReadInterleavedRegulated ring out outChannels frames targetFill tolerance
    ∃ (drop : UInt32) (wanted : Nat), drop.toNat ≤ q.fill ∧
      serve q (.readInterleavedRegulated out outChannels frames targetFill tolerance) =
        advance (advance q drop.toNat) wanted ∧
      Refines r.ring (advance (advance q drop.toNat) wanted) ∧
      r.ring.header.droppedFrames = ring.header.droppedFrames + drop.toUInt64 ∧
      List.Forall₂ (AgreeTo (min ring.header.channels.toNat outChannels.toNat))
        (rows r.out outChannels.toNat r.count.toNat) (front (advance q drop.toNat) wanted) := by
  -- A regulated read passes over some frames, none but for a drop, and hands over the next ones.
  intro r
  have sound := refinesSound refines
  have filled := refinesFill refines
  rcases Nat.lt_or_ge (targetFill.toNat + tolerance.toNat) (fill ring.header) with full | notFull
  · obtain ⟨drop,amount,result⟩ := regulatedDrop sound out outChannels frames full
    have le : drop.toNat ≤ q.fill := by omega
    have shorter := dropRefines refines le
    rw [filled] at full amount
    simp only [r, result]
    refine ⟨drop,frames.toNat,le,?_,finishReadRefines shorter frames,rfl,
      readInterleavedFront shorter out outChannels frames⟩
    simp only [serve, full, if_true, ← amount]
  · have notFull_ : ¬ targetFill.toNat + tolerance.toNat < q.fill := by omega
    have none : ring.header.droppedFrames = ring.header.droppedFrames + (0 : UInt32).toUInt64 :=
      (UInt64.add_zero _).symm
    by_cases low : fill ring.header + tolerance.toNat < targetFill.toNat ∧ 0 < frames.toNat
    · -- a shorter read; the synthesised tail is no stream frame
      obtain ⟨insert,amount,result⟩ := regulatedInsert sound out outChannels low.1 low.2
      have taken := finishReadRefines refines (frames - insert)
      have agree := rowsFillTail (sharedAudioReadInterleaved ring out outChannels (frames - insert))
        insert (readCountLe ring.header (frames - insert)) (Nat.min_le_right _ _)
        (readInterleavedFront refines out outChannels (frames - insert))
      have dropped := fillTailDropped (sharedAudioReadInterleaved ring out outChannels (frames - insert))
        outChannels (frames - insert) insert
      have shortened : (frames - insert).toNat = frames.toNat - min (targetFill.toNat - q.fill) 8 := by
        rw [subToNat (by omega)]
        omega
      rw [filled] at low
      simp only [r, result, fillTailCount]
      refine ⟨0,(frames - insert).toNat,Nat.zero_le _,?_,?_,dropped.trans none,?_⟩
      · simp only [serve, notFull_, low.1, if_true, if_false, ← shortened, UInt32.toNat_zero, advanceZero]
      · rw [UInt32.toNat_zero, advanceZero]
        exact fillTailRefines taken outChannels (frames - insert) insert
      · rw [UInt32.toNat_zero, advanceZero]
        exact agree
    · have hold := regulatedHold sound out outChannels notFull
        (show targetFill.toNat ≤ fill ring.header + tolerance.toNat ∨ frames.toNat = 0 by omega)
      rw [filled] at low
      simp only [r, hold]
      refine ⟨0,frames.toNat,Nat.zero_le _,?_,?_,none,?_⟩
      · rw [UInt32.toNat_zero, advanceZero]
        by_cases nothing : frames.toNat = 0
        · simp only [serve, notFull_, nothing, Nat.zero_sub, if_false, ite_self]
        · have notLow : ¬ q.fill + tolerance.toNat < targetFill.toNat := by omega
          simp only [serve, notFull_, notLow, if_false]
      · rw [UInt32.toNat_zero, advanceZero]
        exact finishReadRefines refines frames
      · rw [UInt32.toNat_zero, advanceZero]
        exact readInterleavedFront refines out outChannels frames

theorem performRegulated [Zero α] {capacity : Nat} {s : Book α} {q : Queue (Frame α) capacity}
    (balanced : Balanced s q) (small : q.stream.length < 2 ^ 64) (out : Nat → α) (outChannels : UInt16)
    (frames targetFill tolerance : UInt32) :
    Balanced (perform s (.readInterleavedRegulated out outChannels frames targetFill tolerance))
      (serve q (.readInterleavedRegulated out outChannels frames targetFill tolerance)) := by
  obtain ⟨drop,wanted,le,served,refines,counted,agree⟩ :=
    regulatedServes balanced.refines out outChannels frames targetFill tolerance
  have dropped : (s.1.header.droppedFrames + drop.toUInt64 - s.1.header.droppedFrames).toNat = drop.toNat ∧
      (s.1.header.droppedFrames + drop.toUInt64).toNat = s.1.header.droppedFrames.toNat + drop.toNat := by
    have := balanced.read
    have := takenAddFill q
    simp only [UInt64.toNat_sub, UInt64.toNat_add, UInt32.toNat_toUInt64]
    omega
  have passed : Balanced (dropFrames s.1 s.1.header.readPos drop,s.2.passOver drop.toNat)
      (advance q drop.toNat) := by
    refine balancedPass balanced le (dropRefines balanced.refines le) rfl rfl ?_
    have := balanced.read
    simp only [dropFrames, Ledger.passOver, dropped.2]
    omega
  rw [served]
  simp only [perform, counted, dropped.1]
  exact balancedDeliver passed refines counted agree

theorem performRead [Zero α] {capacity : Nat} {s : Book α} {q : Queue (Frame α) capacity}
    (balanced : Balanced s q) (channels : Nat → Nat → α) (frames : UInt32) :
    Balanced (perform s (.read channels frames)) (advance q frames.toNat) :=
  balancedDeliver balanced (finishReadRefines balanced.refines frames) rfl
    (readFront balanced.refines channels frames)

theorem performReadInterleaved [Zero α] {capacity : Nat} {s : Book α} {q : Queue (Frame α) capacity}
    (balanced : Balanced s q) (out : Nat → α) (outChannels : UInt16) (frames : UInt32) :
    Balanced (perform s (.readInterleaved out outChannels frames)) (advance q frames.toNat) :=
  balancedDeliver balanced (finishReadRefines balanced.refines frames) rfl
    (readInterleavedFront balanced.refines out outChannels frames)

def Small (s : Book α) : Prop := s.2.accepted.length < 2 ^ 64

theorem performSmall [Zero α] (s : Book α) (call : Call α) (small : Small (perform s call)) : Small s := by
  cases call with
  | write channels frames =>
    unfold Small at *
    simp only [perform] at small
    split at small
    · simp only [List.length_append] at small
      omega
    · exact small
  | read | readInterleaved | readInterleavedRegulated | seekToFill => exact small

theorem performBalanced [Zero α] {capacity : Nat} (s : Book α) (q : Queue (Frame α) capacity)
    (call : Call α) (balanced : Balanced s q) (small : Small (perform s call)) :
    Balanced (perform s call) (serve q call) := by
  cases call with
  | write channels frames => exact performWrite balanced channels frames small
  | read channels frames => exact performRead balanced channels frames
  | readInterleaved out outChannels frames =>
    exact performReadInterleaved balanced out outChannels frames
  | readInterleavedRegulated out outChannels frames targetFill tolerance =>
    have before := performSmall s _ small
    rw [Small, ← balanced.accepted] at before
    exact performRegulated balanced before out outChannels frames targetFill tolerance
  | seekToFill targetFill => exact performSeek balanced targetFill

def opening [Zero α] (sampleRate : UInt32) (channels : UInt16) (capacityFrames : UInt32) : Book α :=
  (sharedAudioCreate sampleRate channels capacityFrames,blank)

theorem openingBalanced [Zero α] (sampleRate : UInt32) (channels : UInt16) {capacity : UInt32}
    (positive : 0 < capacity.toNat) :
    Balanced (opening (α := α) sampleRate channels capacity)
      (empty : Queue (Frame α) capacity.toNat) :=
  ⟨createRefines sampleRate channels positive,rfl,rfl,rfl⟩

theorem runBalanced [Zero α] (sampleRate : UInt32) (channels : UInt16) {capacity : UInt32}
    (positive : 0 < capacity.toNat) (calls : List (Call α))
    (small : Small (calls.foldl perform (opening sampleRate channels capacity))) :
    Balanced (calls.foldl perform (opening sampleRate channels capacity))
      (calls.foldl serve (empty : Queue (Frame α) capacity.toNat)) :=
  foldSimulationWhile performSmall performBalanced (openingBalanced sampleRate channels positive) small

theorem performChannels [Zero α] (s : Book α) (call : Call α) :
    (perform s call).1.header.channels = s.1.header.channels := by
  cases call with
  | write channels frames =>
    simp only [perform, sharedAudioWrite]
    split <;> rfl
  | readInterleavedRegulated out outChannels frames targetFill tolerance =>
    simp only [perform, sharedAudioReadInterleavedRegulated]
    split
    · rfl
    · split
      · exact fillTailChannels _ _ _ _
      · rfl
  | read | readInterleaved | seekToFill => rfl

theorem runChannels [Zero α] (s : Book α) (calls : List (Call α)) :
    (calls.foldl perform s).1.header.channels = s.1.header.channels :=
  foldInvariant (I := fun t : Book α => t.1.header.channels = s.1.header.channels)
    (fun t call same => (performChannels t call).trans same) (s := s) rfl

def RefusesExactly (ring : SharedRing α) (room : Nat) : Prop :=
  ∀ (channels : Nat → Nat → α) (frames : UInt32),
    ((sharedAudioWrite ring channels frames).1 = -1 ↔ room < frames.toNat) ∧
    ((sharedAudioWrite ring channels frames).1 = -1 → (sharedAudioWrite ring channels frames).2 =
      {ring with header := {ring.header with overruns := ring.header.overruns + 1}})

theorem refusesExactly {capacity : Nat} {ring : SharedRing α} {q : Queue (Frame α) capacity}
    (refines : Refines ring q) : RefusesExactly ring (capacity - q.fill) := by
  intro channels frames
  rcases Nat.lt_or_ge (capacity - q.fill) frames.toNat with full | fits
  · have refused := writeRefusedRefines refines channels (refusedIff.mpr
      (by rw [blockLength]; exact full))
    simp only [refused, full, imp_self, and_self]
  · have room : frames.toNat ≤ ring.header.capacityFrames.toNat - fill ring.header := by
      rw [refines.capacityEq, refinesFill refines]
      exact fits
    have stored : (sharedAudioWrite ring channels frames).1 ≠ -1 := by
      rw [writeAccepted (refinesSound refines) channels room]
      simp
    exact ⟨⟨fun code => absurd code stored,by omega⟩,fun code => absurd code stored⟩

/-- Any run of calls on a new ring keeps exact books, and the ring follows a bounded
queue that is served the same calls. -/
theorem booksBalance [Zero α] (sampleRate : UInt32) (channels : UInt16) (capacity : UInt32)
    (positive : 0 < capacity.toNat) (calls : List (Call α))
    (small : (calls.foldl perform (opening sampleRate channels capacity)).2.accepted.length < 2 ^ 64) :
    let s := calls.foldl perform (opening sampleRate channels capacity)
    let q := calls.foldl serve (empty : Queue (Frame α) capacity.toNat)
    let written := s.1.header.writePos.toNat
    let read := s.1.header.readPos.toNat
    s.1.header.channels = channels.toUInt32 ∧
    written = s.2.accepted.length ∧
    read ≤ written ∧ written ≤ read + capacity.toNat ∧
    read = s.2.returned + s.1.header.droppedFrames.toNat + s.2.skipped ∧
    RefusesExactly s.1 (capacity.toNat - (written - read)) ∧
    Fits s.2.entries (s.2.accepted.take read) ∧
    Refines s.1 q ∧ q.stream = s.2.accepted ∧ q.taken = read := by
  intro s q written read
  have balanced : Balanced s q := runBalanced sampleRate channels positive calls small
  have stream := balanced.refines.written
  have taken := balanced.refines.taken
  have fill : written - read = q.fill := by
    unfold Queue.fill
    omega
  refine ⟨runChannels _ calls,?_,?_,?_,?_,?_,?_,balanced.refines,balanced.accepted,taken.symm⟩
  · rw [← balanced.accepted]
    exact stream
  · have := q.takenLe
    omega
  · have := q.bounded
    omega
  · rw [← balanced.read]
    exact taken
  · rw [fill]
    exact refusesExactly balanced.refines
  · rw [← balanced.accepted, show read = q.taken from taken]
    exact balanced.fits

def mixedCalls : List (Call Int) :=
  let tone : Nat → Nat → Int := fun ch f => 10 * ch + f
  [.write tone 3,.read (fun _ _ => 0) 2,.write tone 3,.write tone 1,
    .readInterleavedRegulated (fun _ => 0) 2 1 1 1,.readInterleavedRegulated (fun _ => 0) 1 2 3 0,
    .write tone 4,.seekToFill 1]

theorem booksBalanceMixedCalls :
    (mixedCalls.foldl perform (opening 48000 2 4)).1.header.writePos.toNat =
      (mixedCalls.foldl perform (opening 48000 2 4)).2.accepted.length :=
  (booksBalance 48000 2 4 (by decide) mixedCalls (by decide +kernel)).2.1

end ReacJack.SharedLedger
