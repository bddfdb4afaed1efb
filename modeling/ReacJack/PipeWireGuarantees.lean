import ReacJack.PipeWireCrossing

/-! Two threads, any calls, any interleaving of their steps: the positions stay ordered, no
sample is touched by both, and the real frames of all reads are the accepted ones in order. -/
namespace ReacJack.PipeWireGuarantees
open TransitionRuns PipeWireRing PipeWireThreads PipeWireCrossing StreamHandover

variable {w : Nat} {α : Type} {capacity width : Nat}

theorem writerPromises {s next : Threads w α} {choice : Nat} (taken : stepWriter s choice = some next) :
    promised s ≤ promised next := by
  cases writerActs taken with
  | loads at_ | refuses at_ | admits at_ | begins at_ | publishes at_ | copied at_ | copies at_ =>
    simp [promised, at_]

theorem readerKeeps [Zero α] {s next : Threads w α} {choice : Nat} (taken : stepReader s choice = some next) :
    next.writer = s.writer ∧ next.accepted = s.accepted := by
  cases readerActs taken <;> exact ⟨rfl,rfl⟩

theorem promisedGrows [Zero α] {s next : Threads w α} {label : Label w α} (taken : step s label = some next) :
    promised s ≤ promised next := by
  cases label with
  | write interleaved frames =>
    obtain ⟨idle,rfl⟩ := writeEnters taken
    simp [promised, idle]
  | read out frames =>
    obtain ⟨_,rfl⟩ := readEnters taken
    exact Nat.le_refl _
  | writer choice => exact writerPromises taken
  | reader choice =>
    obtain ⟨writer,accepted⟩ := readerKeeps taken
    simp only [promised, writer, accepted]
    exact Nat.le_refl _

theorem startFollows [Zero α] (channels : UInt16) {capacityFrames : BitVec w} (positive : 0 < capacityFrames.toNat) :
    Follows (start (audioRingInit channels capacityFrames : AudioRing w α))
      (empty (fun _ => 0) : Passing α capacityFrames.toNat channels.toNat) :=
  ⟨rfl,positive,rfl,rfl,rfl,rfl,rfl,rfl,rfl,rfl,fun _ member => absurd member List.not_mem_nil⟩

theorem runFollows [Zero α] {s final : Threads w α} {h : Passing α capacity width} (follows : Follows s h)
    {schedule : List (Label w α)} (reached : run step s schedule = some final) (small : promised final < 2 ^ w) :
    ∃ h' : Passing α capacity width, Follows final h' := by
  refine runInvariantWhile (I := fun t : Threads w α => ∃ h' : Passing α capacity width, Follows t h')
    (W := fun t => promised t < 2 ^ w) ?_ ?_ ⟨h,follows⟩ reached small
  · exact fun t label next taken below => (promisedGrows taken).trans_lt below
  · exact fun t label next ⟨h',before⟩ below taken => stepFollows before taken below

def CellOf (ring : AudioRing w α) (low high i : Nat) : Prop :=
  ∃ p ch, low ≤ p ∧ p < high ∧ ch < ring.channels.toNat ∧
    i = rowCell ring.capacityFrames.toNat ring.channels.toNat p ch

def WriterStores (s : Threads w α) (i : Nat) : Prop :=
  match s.writer with
  | .moving _ frames writePos _ | .copying _ frames writePos .. =>
    CellOf s.ring writePos.toNat (writePos.toNat + frames.toNat) i
  | _ => False

def ReaderLoads (s : Threads w α) (i : Nat) : Prop :=
  match s.reader with
  | .moving _ _ readPos toRead _ | .copying _ _ readPos toRead .. =>
    CellOf s.ring readPos.toNat (readPos.toNat + toRead.toNat) i
  | _ => False

theorem storesFree [Zero α] {s : Threads w α} {h : Passing α capacity width} (follows : Follows s h) {i : Nat}
    (stores : WriterStores s i) :
    ∃ f ch, f < h.block.length ∧ ch < width ∧ i = rowCell capacity width (h.stream.length + f) ch := by
  have ok := follows.writer
  have written := follows.written
  have shape : ∀ {interleaved : Nat → α} {frames writePos : BitVec w}, writePos = s.ring.writePos →
      h.block = frameRows width interleaved frames.toNat →
      CellOf s.ring writePos.toNat (writePos.toNat + frames.toNat) i →
      ∃ f ch, f < h.block.length ∧ ch < width ∧ i = rowCell capacity width (h.stream.length + f) ch := by
    rintro interleaved frames _ rfl block ⟨p,ch,low,high,channel,rfl⟩
    rw [follows.widthEq] at channel
    refine ⟨p - h.stream.length,ch,?_,channel,?_⟩
    · rw [block, frameRowsLength]
      omega
    · rw [follows.capacityEq, follows.widthEq, ← written, Nat.add_sub_cancel' low]
  unfold WriterStores at stores
  split at stores
  · rename_i at_
    rw [at_] at ok
    exact shape ok.1 ok.2.1 stores
  · rename_i at_
    rw [at_] at ok
    exact shape ok.1 ok.2.1 stores
  · contradiction

theorem loadsClaimed [Zero α] {s : Threads w α} {h : Passing α capacity width} (follows : Follows s h) {i : Nat}
    (loads : ReaderLoads s i) :
    ∃ p ch, h.taken ≤ p ∧ p < h.stream.length ∧ ch < width ∧ i = rowCell capacity width p ch := by
  have ok := follows.reader
  have taken := follows.taken
  have claimedLe := h.claimedLe
  have shape : ∀ {readPos toRead : BitVec w}, readPos = s.ring.readPos → h.claimed = toRead.toNat →
      CellOf s.ring readPos.toNat (readPos.toNat + toRead.toNat) i →
      ∃ p ch, h.taken ≤ p ∧ p < h.stream.length ∧ ch < width ∧ i = rowCell capacity width p ch := by
    rintro _ toRead rfl claimed ⟨p,ch,low,high,channel,rfl⟩
    rw [follows.widthEq] at channel
    exact ⟨p,ch,by omega,by omega,channel,by rw [follows.capacityEq, follows.widthEq]⟩
  unfold ReaderLoads at loads
  split at loads
  · rename_i at_
    rw [at_] at ok
    exact shape ok.1 ok.2.1 loads
  · rename_i at_
    rw [at_] at ok
    exact shape ok.1 ok.2.1 loads
  · contradiction

theorem threadsApart [Zero α] {s : Threads w α} {h : Passing α capacity width} (follows : Follows s h) (i : Nat) :
    ¬ (WriterStores s i ∧ ReaderLoads s i) := by
  rintro ⟨stores,loads⟩
  obtain ⟨f,ch,inside,channel,rfl⟩ := storesFree follows stores
  obtain ⟨p,ch',unread,published,channel',same⟩ := loadsClaimed follows loads
  exact storesApart (rowsSeparate capacity width) h inside channel channel' unread published same

theorem captureMeetsPlayback [Zero α] (channels : UInt16) (capacityFrames : BitVec w)
    (positive : 0 < capacityFrames.toNat) (schedule : List (Label w α)) (s : Threads w α)
    (reached : run step (start (audioRingInit channels capacityFrames)) schedule = some s)
    (small : promised s < 2 ^ w) :
    (s.ring.readPos.toNat ≤ s.ring.writePos.toNat ∧
      s.ring.writePos.toNat ≤ s.ring.readPos.toNat + capacityFrames.toNat) ∧
    s.ring.writePos.toNat = s.accepted.length ∧
    (∀ i, ¬ (WriterStores s i ∧ ReaderLoads s i)) ∧
    heard channels.toNat s.deliveries =
      (s.accepted.take s.ring.readPos.toNat).map (samplesOf channels.toNat) ∧
    ∀ d ∈ s.deliveries, Padded channels.toNat d := by
  obtain ⟨h,follows⟩ := runFollows (startFollows channels positive) reached small
  have claimedLe := h.claimedLe
  have bounded := h.bounded
  have written := follows.written
  have taken := follows.taken
  refine ⟨⟨by omega,by omega⟩,?_,threadsApart follows,?_,follows.padded⟩
  · rw [written, follows.stream]
  · rw [follows.heard, follows.stream, taken]

def crossing : List (Label 8 Int) :=
  let tone : Nat → Int := fun i => 5 + i
  Label.write tone 2 :: List.replicate 9 (Label.writer 0) ++
  [Label.read (fun _ => 9) 2,Label.reader 0,Label.reader 0] ++
  Label.write tone 1 :: List.replicate 4 (Label.writer 0) ++
  [Label.reader 0,Label.reader 3,Label.writer 0,Label.reader 0,Label.writer 0,Label.reader 1,Label.writer 0] ++
  List.replicate 3 (Label.reader 0)

def crossed : Threads 8 Int := (run step (start (audioRingInit 2 3)) crossing).getD (start (audioRingInit 2 3))

theorem crossingRuns : run step (start (audioRingInit 2 3)) crossing = some crossed := by
  have runs : (run step (start (audioRingInit 2 3)) crossing).isSome = true := by decide +kernel
  obtain ⟨s,reached⟩ := Option.isSome_iff_exists.mp runs
  rw [crossed, reached, Option.getD_some]

theorem captureMeetsPlaybackCrossed :
    heard 2 crossed.deliveries = [[5,6],[7,8]] ∧ crossed.accepted.length = 3 ∧
      heard 2 crossed.deliveries = (crossed.accepted.take crossed.ring.readPos.toNat).map (samplesOf 2) :=
  ⟨by decide +kernel,by decide +kernel,
    (captureMeetsPlayback 2 3 (by decide) crossing crossed crossingRuns (by decide +kernel)).2.2.2.1⟩

end ReacJack.PipeWireGuarantees
