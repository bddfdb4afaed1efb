import ReacJack.RingRuns

/-! What the invariant is for: the positions stay ordered, the two sides never have
one slot in common, and whatever the reader copies is what the writer stored. -/
namespace ReacJack.RingGuarantees
open CircularBuffer BoundedFifo TransitionRuns SharedAudio SharedFifo RingThreads RingSafety RingRuns

variable {α : Type} {capacity : Nat} {s : Threads α} {q : Queue (Frame α) capacity}

def SlotOf (h : Header) (low high i : Nat) : Prop :=
  ∃ ch p, ch < h.channels.toNat ∧ low ≤ p ∧ p < high ∧ i = slot h.capacityFrames.toNat ch p

/-- The slots the writer can still store to in its current call while the reader
stands still. -/
def WriterMayStore (s : Threads α) (i : Nat) : Prop :=
  let h := s.ring.header
  match s.writer with
  | .idle => False
  | .checking _ frames _ _ =>
    SlotOf h h.writePos.toNat
      (min (h.writePos.toNat + frames.toNat) (h.readPos.toNat + h.capacityFrames.toNat)) i
  | .admitted _ frames => SlotOf h h.writePos.toNat (h.writePos.toNat + frames.toNat) i
  | .copying _ _ _ pending => ∃ c ∈ pending.flatten, i = c.slot

def ReaderMayLoad (s : Threads α) (i : Nat) : Prop :=
  let h := s.ring.header
  match s.reader with
  | .idle | .seeking _ | .aiming .. | .jumping .. => False
  | .copying _ _ _ _ pending => ∃ c ∈ pending.flatten, i = c.slot
  | _ => SlotOf h h.readPos.toNat h.writePos.toNat i

theorem inTableSlot {h : Header} {pos count high : Nat} {c : Copy}
    (table : InTable h.capacityFrames.toNat h.channels.toNat pos count c) (below : pos + count ≤ high) :
    SlotOf h pos high c.slot := by
  have := table.frame
  exact ⟨c.channel,pos + c.frame,table.channel,by omega,by omega,table.slot⟩

theorem slotOfMono {h : Header} {low low' high high' i : Nat} (slot : SlotOf h low high i)
    (lower_ : low' ≤ low) (upper_ : high ≤ high') : SlotOf h low' high' i := by
  obtain ⟨ch,p,channel,lower,upper,same⟩ := slot
  exact ⟨ch,p,channel,by omega,by omega,same⟩

theorem writerInFree (safe : Safe s q) {i : Nat} (may : WriterMayStore s i) :
    SlotOf s.ring.header s.ring.header.writePos.toNat
      (s.ring.header.readPos.toNat + s.ring.header.capacityFrames.toNat) i := by
  have ok := safe.writer
  unfold WriterMayStore at may
  split at may
  · contradiction
  · exact slotOfMono may (Nat.le_refl _) (Nat.min_le_right _ _)
  · rename_i at_
    rw [at_] at ok
    exact slotOfMono may (Nat.le_refl _) ok
  · rename_i at_
    rw [at_] at ok
    obtain ⟨c,member,rfl⟩ := may
    exact inTableSlot (ok.2.2.1 c member) ok.2.1

theorem readerInLive (safe : Safe s q) {i : Nat} (may : ReaderMayLoad s i) :
    SlotOf s.ring.header s.ring.header.readPos.toNat s.ring.header.writePos.toNat i := by
  have ok := safe.reader
  unfold ReaderMayLoad at may
  split at may
  case h_5 at_ =>
    rw [at_] at ok
    obtain ⟨c,member,rfl⟩ := may
    exact inTableSlot (ok.2.2 c member) ok.2.1
  all_goals first | contradiction | exact may

theorem sidesApart (safe : Safe s q) (i : Nat) : ¬ (WriterMayStore s i ∧ ReaderMayLoad s i) := by
  rintro ⟨stores,loads⟩
  obtain ⟨_,sum,_,sound,filled⟩ := positions safe
  have := sound.bounded
  obtain ⟨ch,p,_,low,high,rfl⟩ := writerInFree safe stores
  obtain ⟨ch',p',_,low',high',same⟩ := readerInLive safe loads
  have := slotInjective (a := s.ring.header.readPos.toNat) (by omega) (by omega) same
  omega

theorem writerStaysWithin (safe : Safe s q) {choice : Nat} {next : Threads α}
    (taken : stepWriter s choice = some next) (i : Nat) :
    (WriterMayStore next i → WriterMayStore s i) ∧
    (next.ring.samples i ≠ s.ring.samples i → WriterMayStore s i) := by
  have ok := safe.writer
  cases at_ : s.writer with
  | idle => simp [stepWriter, at_] at taken
  | checking channels frames w r =>
    rw [at_] at ok
    have same : next.ring.samples = s.ring.samples := by
      cases w <;> cases r <;> simp only [stepWriter, at_] at taken
      case none.none | some.some => split at taken <;> cases Option.some.inj taken <;> rfl
      case none.some | some.none => cases Option.some.inj taken; rfl
    refine ⟨?_,fun differs => absurd (congrFun same i) differs⟩
    cases w <;> cases r <;> simp only [stepWriter, at_] at taken
    case none.none =>
      split at taken <;> cases Option.some.inj taken <;> simp only [WriterMayStore, at_] <;> exact id
    case none.some | some.none =>
      cases Option.some.inj taken
      simp only [WriterMayStore, at_]
      exact id
    case some.some =>
      split at taken <;> cases Option.some.inj taken
      · exact False.elim
      · rename_i fits
        have room := checkedRoom safe ok fits
        simp only [WriterMayStore, at_]
        exact fun slot => slotOfMono slot (Nat.le_refl _) (by omega)
  | admitted channels frames =>
    have begun := (writerBegins safe at_).writer
    simp only [stepWriter, at_] at taken
    cases Option.some.inj taken
    refine ⟨?_,fun differs => absurd rfl differs⟩
    simp only [WriterMayStore, at_]
    rintro ⟨c,member,rfl⟩
    exact inTableSlot (begun.2.2.1 c member) (Nat.le_refl _)
  | copying channels frames writePos pending =>
    simp only [stepWriter, at_] at taken
    split at taken
    · cases Option.some.inj taken
      exact ⟨False.elim,fun differs => absurd rfl differs⟩
    · obtain ⟨⟨copy,rest⟩,chosen,rfl⟩ := Option.map_eq_some_iff.mp taken
      have member := takeCopyMember chosen
      simp only [WriterMayStore, at_]
      constructor
      · rintro ⟨c,later,same⟩
        exact ⟨c,(member c).mpr (.inr later),same⟩
      · intro differs
        by_contra elsewhere
        refine differs (BufferLoops.putElsewhere _ _ ?_)
        rintro rfl
        exact elsewhere ⟨copy,(member copy).mpr (.inl rfl),rfl⟩

theorem acceptedGrows {label : Label α} {next : Threads α} (taken : step s label = some next) :
    s.accepted.length ≤ next.accepted.length := by
  cases label with
  | write channels frames =>
    obtain ⟨_,rfl⟩ := writeEnters taken
    exact Nat.le_refl _
  | read call =>
    obtain ⟨_,rfl⟩ := readEnters taken
    exact Nat.le_refl _
  | writer choice =>
    simp only [step, stepWriter] at taken
    split at taken
    case h_1 => contradiction
    case h_2 | h_5 => split at taken <;> cases Option.some.inj taken <;> exact Nat.le_refl _
    case h_3 | h_4 | h_6 => cases Option.some.inj taken; exact Nat.le_refl _
    case h_7 =>
      split at taken
      · cases Option.some.inj taken
        simp only [List.length_append]
        omega
      · obtain ⟨_,_,rfl⟩ := Option.map_eq_some_iff.mp taken
        exact Nat.le_refl _
  | reader choice =>
    simp only [step, stepReader] at taken
    split at taken
    case h_1 => contradiction
    case h_7 =>
      split at taken
      · cases Option.some.inj taken
        exact Nat.le_refl _
      · obtain ⟨_,_,rfl⟩ := Option.map_eq_some_iff.mp taken
        exact Nat.le_refl _
    all_goals cases Option.some.inj taken; exact Nat.le_refl _

theorem startSafe [Zero α] (sampleRate : UInt32) (channels : UInt16) {capacity : UInt32}
    (positive : 0 < capacity.toNat) : Safe (start (sharedAudioCreate (α := α) sampleRate channels capacity))
      (empty : Queue (Frame α) capacity.toNat) :=
  ⟨createRefines sampleRate channels positive,rfl,trivial,trivial,nofun,nofun,nofun⟩

theorem runSafe [Zero α] {sampleRate : UInt32} {channels : UInt16} {capacity : UInt32}
    (positive : 0 < capacity.toNat) {schedule : List (Label α)} {s : Threads α}
    (reached : run step (start (sharedAudioCreate sampleRate channels capacity)) schedule = some s)
    (small : s.accepted.length < 2 ^ 64) : ∃ q : Queue (Frame α) capacity.toNat, Safe s q := by
  refine runInvariantWhile (I := fun t : Threads α => ∃ q : Queue (Frame α) capacity.toNat, Safe t q)
    (W := fun t : Threads α => t.accepted.length < 2 ^ 64) ?_ ?_
    ⟨_,startSafe sampleRate channels positive⟩ reached small
  · exact fun t label next taken below => (acceptedGrows taken).trans_lt below
  · exact fun t label next ⟨q,safe⟩ below taken => stepSafe safe taken below

theorem loadsExact (safe : Safe s q) {l : Access α} (read : l ∈ s.loads) : l ∈ s.stores ∧
    ∀ e ∈ s.stores, e.position = l.position → e.channel = l.channel → e.value = l.value := by
  obtain ⟨channel,frame,found,value⟩ := safe.loads l read
  have stored := safe.complete _ frame _ found channel
  rw [value] at stored
  refine ⟨stored,?_⟩
  intro e logged position channel_
  obtain ⟨frame',found',value'⟩ := safe.stores e logged
  have later : (promised s)[l.position]? = some frame := by
    have inside := (List.getElem?_eq_some_iff.mp found).1
    unfold promised
    split
    · rw [List.getElem?_append_left inside]
      exact found
    · exact found
  rw [position, later] at found'
  rw [← value', ← value, channel_, Option.some.inj found']

theorem singleWriterSingleReader [Zero α] (sampleRate : UInt32) (channels : UInt16) (capacity : UInt32)
    (positive : 0 < capacity.toNat) (schedule : List (Label α)) (s : Threads α)
    (reached : run step (start (sharedAudioCreate sampleRate channels capacity)) schedule = some s)
    (small : s.accepted.length < 2 ^ 64) :
    (s.ring.header.readPos.toNat ≤ s.ring.header.writePos.toNat ∧
      s.ring.header.writePos.toNat ≤ s.ring.header.readPos.toNat + capacity.toNat) ∧
    (∀ i, ¬ (WriterMayStore s i ∧ ReaderMayLoad s i)) ∧
    (∀ l ∈ s.loads, l ∈ s.stores ∧
      ∀ e ∈ s.stores, e.position = l.position → e.channel = l.channel → e.value = l.value) := by
  obtain ⟨q,safe⟩ := runSafe positive reached small
  obtain ⟨_,sum,_,_,_⟩ := positions safe
  have bounded := fillLeCapacity q
  exact ⟨⟨by omega,by omega⟩,sidesApart safe,fun l read => loadsExact safe read⟩

def crossing : List (Label Int) :=
  let tone : Nat → Nat → Int := fun _ f => 7 + f
  .write tone 2 :: List.replicate 7 (.writer 0) ++
  [.read (.read 2),.reader 0,.write tone 1,.writer 1,.reader 0,.writer 0,.reader 1,.writer 0,.writer 0,
    .writer 0,.reader 0,.writer 0,.reader 0]

def crossed : Threads Int := (run step (start (sharedAudioCreate 48000 1 3)) crossing).getD
  (start (sharedAudioCreate 48000 1 3))

theorem singleWriterSingleReaderCrossed :
    crossed.loads.length = 2 ∧ ∀ l ∈ crossed.loads, l ∈ crossed.stores :=
  ⟨by decide,fun l read => ((singleWriterSingleReader 48000 1 3 (by decide) crossing crossed rfl
    (by decide)).2.2 l read).1⟩

end ReacJack.RingGuarantees
