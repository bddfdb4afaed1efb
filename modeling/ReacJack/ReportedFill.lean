import ReacJack.FillObserver
import ReacJack.FillBounds

/-! When the reported fill is one that the ring can have. Between the two loads the
position that is loaded second moves on; the difference stays a possible fill as long as
it moves no further than the first load leaves room for. A side that calls stands still. -/
namespace ReacJack.ReportedFill
open TransitionRuns SharedAudio RingThreads FillObserver FillBounds

variable {α : Type}

def fillAt (p : Positions) : Nat := (p.writePos - p.readPos).toNat

def moved (r : Report) : Nat :=
  match r.operand with
  | .writePos => (r.second.readPos - r.first.readPos).toNat
  | .readPos => (r.second.writePos - r.first.writePos).toNat

def leeway (capacity : Nat) (r : Report) : Nat :=
  match r.operand with
  | .writePos => fillAt r.first
  | .readPos => capacity - fillAt r.first

/-- The second operand moved within the leeway, or so far beyond it that the 32-bit
difference comes round to a possible fill again. -/
def InTime (capacity : Nat) (r : Report) : Prop :=
  moved r ≤ leeway capacity r ∨ (capacity + (moved r - leeway capacity r)) % 2 ^ 32 ≤ capacity

structure Measured (capacity : Nat) (r : Report) : Prop where
  first : fillAt r.first ≤ capacity
  second : fillAt r.second ≤ capacity
  small : capacity < 2 ^ 32
  value : r.value = match r.operand with
    | .writePos => (r.first.writePos - r.second.readPos).toUInt32
    | .readPos => (r.second.writePos - r.first.readPos).toUInt32
  writer : r.party = .writer → r.first.writePos = r.second.writePos
  reader : r.party = .reader → r.first.readPos = r.second.readPos

theorem reportedIff {capacity : Nat} {r : Report} (measured : Measured capacity r) :
    r.value.toNat ≤ capacity ↔ InTime capacity r := by
  obtain ⟨first,_,small,value,_,_⟩ := measured
  have := r.first.writePos.toNat_lt
  have := r.first.readPos.toNat_lt
  have := r.second.writePos.toNat_lt
  have := r.second.readPos.toNat_lt
  cases order : r.operand with
  | writePos =>
    have distance : r.value.toNat = (2 ^ 64 + fillAt r.first - moved r) % 2 ^ 32 := by
      rw [value, order]
      simp only [moved, order, fillAt, UInt64.toNat_toUInt32, UInt64.toNat_sub]
      omega
    have bounded : moved r < 2 ^ 64 := by
      simp only [moved, order]
      exact UInt64.toNat_lt _
    rw [distance, InTime, leeway, order]
    simp only
    omega
  | readPos =>
    have distance : r.value.toNat = (fillAt r.first + moved r) % 2 ^ 32 := by
      rw [value, order]
      simp only [moved, order, fillAt, UInt64.toNat_toUInt32, UInt64.toNat_sub]
      omega
    rw [distance, InTime, leeway, order]
    simp only
    omega

theorem ownReport {capacity : Nat} {r : Report} (measured : Measured capacity r) (own : r.party ≠ .other) :
    r.value.toNat ≤ capacity := by
  obtain ⟨first,second,small,value,writer,reader⟩ := measured
  have fits : ∀ p : Positions, fillAt p ≤ capacity → (p.writePos - p.readPos).toUInt32.toNat ≤ capacity := by
    intro p le
    simp only [UInt64.toNat_toUInt32]
    exact (Nat.mod_le _ _).trans le
  rw [value]
  cases here : r.party with
  | other => exact absurd here own
  | writer =>
    have same := writer here
    split
    · rw [same]
      exact fits r.second second
    · rw [← same]
      exact fits r.first first
  | reader =>
    have same := reader here
    split
    · rw [← same]
      exact fits r.first first
    · rw [same]
      exact fits r.second second

structure Leaves (before after : Header) (mover : Party) : Prop where
  capacityFrames : after.capacityFrames = before.capacityFrames
  readPos : mover = .writer → after.readPos = before.readPos
  writePos : mover = .reader → after.writePos = before.writePos

theorem leavesAll (h : Header) (mover : Party) : Leaves h h mover := ⟨rfl,fun _ => rfl,fun _ => rfl⟩

theorem leavesReadPos {before after : Header} (capacityFrames : after.capacityFrames = before.capacityFrames)
    (readPos : after.readPos = before.readPos) : Leaves before after .writer :=
  ⟨capacityFrames,fun _ => readPos,fun other => absurd other (by simp)⟩

theorem leavesWritePos {before after : Header} (capacityFrames : after.capacityFrames = before.capacityFrames)
    (writePos : after.writePos = before.writePos) : Leaves before after .reader :=
  ⟨capacityFrames,fun other => absurd other (by simp),fun _ => writePos⟩

theorem writerLeaves {s next : Threads α} {choice : Nat} (taken : stepWriter s choice = some next) :
    Leaves s.ring.header next.ring.header .writer := by
  simp only [stepWriter] at taken
  split at taken
  · contradiction
  · split at taken <;> cases Option.some.inj taken <;> exact leavesAll _ _
  · cases Option.some.inj taken
    exact leavesAll _ _
  · cases Option.some.inj taken
    exact leavesAll _ _
  · split at taken <;> cases Option.some.inj taken
    · exact leavesReadPos rfl rfl
    · exact leavesAll _ _
  · cases Option.some.inj taken
    exact leavesAll _ _
  · split at taken
    · cases Option.some.inj taken
      exact leavesReadPos rfl rfl
    · obtain ⟨_,_,rfl⟩ := Option.map_eq_some_iff.mp taken
      exact leavesAll _ _

theorem readerLeaves {s next : Threads α} {choice : Nat} (taken : stepReader s choice = some next) :
    Leaves s.ring.header next.ring.header .reader := by
  simp only [stepReader] at taken
  split at taken
  · contradiction
  case h_7 =>
    split at taken
    · cases Option.some.inj taken
      exact leavesWritePos rfl rfl
    · obtain ⟨_,_,rfl⟩ := Option.map_eq_some_iff.mp taken
      exact leavesAll _ _
  all_goals cases Option.some.inj taken; exact leavesWritePos rfl rfl

theorem stepLeaves {s next : Threads α} {label : Label α} (taken : RingThreads.step s label = some next) :
    Leaves s.ring.header next.ring.header (partyOf label) := by
  cases label with
  | write channels frames =>
    obtain ⟨_,rfl⟩ := writeEnters taken
    exact leavesAll _ _
  | read call =>
    obtain ⟨_,rfl⟩ := readEnters taken
    exact leavesAll _ _
  | writer choice => exact writerLeaves taken
  | reader choice => exact readerLeaves taken

def Underway (capacity : Nat) (h : Header) : Call → Prop
  | .halfway party _ first => fillAt first ≤ capacity ∧ (party = .writer → first.writePos = h.writePos) ∧
    (party = .reader → first.readPos = h.readPos)
  | _ => True

structure Watching (capacity : UInt32) (s : Watched α) : Prop where
  within : Within s.threads
  capacityFrames : s.threads.ring.header.capacityFrames = capacity
  call : Underway capacity.toNat s.threads.ring.header s.call
  reports : ∀ r ∈ s.reports, Measured capacity.toNat r

theorem fillNow {capacity : UInt32} {s : Watched α} (watching : Watching capacity s) :
    fillAt (positions s.threads.ring.header) ≤ capacity.toNat := by
  have bounded := watching.within.sound.bounded
  rw [watching.capacityFrames] at bounded
  exact bounded

theorem underwayStays {capacity : Nat} {h h' : Header} {call : Call} {mover : Party}
    (underway : Underway capacity h call) (leaves : Leaves h h' mover) (apart : caller call ≠ some mover)
    (side : mover ≠ .other) : Underway capacity h' call := by
  -- The caller's own side does not move, so its position is still the one it loaded.
  cases call with
  | idle => trivial
  | begun party => trivial
  | halfway party operand first =>
    obtain ⟨bounded,writer,reader⟩ := underway
    refine ⟨bounded,?_,?_⟩
    · rintro rfl
      cases mover with
      | writer => exact absurd rfl apart
      | reader => rw [leaves.writePos rfl]; exact writer rfl
      | other => exact absurd rfl side
    · rintro rfl
      cases mover with
      | writer => rw [leaves.readPos rfl]; exact reader rfl
      | reader => exact absurd rfl apart
      | other => exact absurd rfl side

theorem finishMeasured {capacity : UInt32} {s : Watched α} (watching : Watching capacity s) {party : Party}
    {operand : Operand} {first : Positions} (here : s.call = .halfway party operand first) :
    Measured capacity.toNat ⟨party,operand,first,positions s.threads.ring.header,
      sharedAudioReadableFrames (loaded s.threads.ring.header operand first)⟩ := by
  obtain ⟨bounded,writer,reader⟩ : Underway capacity.toNat s.threads.ring.header (.halfway party operand first) :=
    here ▸ watching.call
  refine ⟨bounded,fillNow watching,capacity.toNat_lt,?_,writer,reader⟩
  cases operand <;> rfl

theorem stepWatching {capacity : UInt32} (s : Watched α) (action : Action α) (next : Watched α)
    (watching : Watching capacity s) (taken : FillObserver.step s action = some next) : Watching capacity next := by
  cases action with
  | threads label =>
    simp only [FillObserver.step] at taken
    split at taken
    · contradiction
    · rename_i apart
      obtain ⟨threads,stepped,rfl⟩ := Option.map_eq_some_iff.mp taken
      have leaves := stepLeaves stepped
      have side : partyOf label ≠ .other := by cases label <;> exact nofun
      exact ⟨stepWithin watching.within stepped,leaves.capacityFrames.trans watching.capacityFrames,
        underwayStays watching.call leaves apart side,watching.reports⟩
  | call party =>
    simp only [FillObserver.step] at taken
    split at taken
    · split at taken
      · cases Option.some.inj taken
        exact ⟨watching.within,watching.capacityFrames,trivial,watching.reports⟩
      · contradiction
    · contradiction
  | load operand =>
    simp only [FillObserver.step] at taken
    split at taken
    · cases Option.some.inj taken
      exact ⟨watching.within,watching.capacityFrames,⟨fillNow watching,fun _ => rfl,fun _ => rfl⟩,watching.reports⟩
    · contradiction
  | finish =>
    simp only [FillObserver.step] at taken
    split at taken
    · rename_i party operand first here
      cases Option.some.inj taken
      refine ⟨watching.within,watching.capacityFrames,trivial,?_⟩
      intro r member
      rcases List.mem_append.mp member with old | new
      · exact watching.reports r old
      · obtain rfl := List.mem_singleton.mp new
        exact finishMeasured watching here
    · contradiction

/-- A reported fill is a possible one exactly when the other side did not overtake the
call, which it cannot do to a side's own call. -/
theorem fillPossible [Zero α] (sampleRate : UInt32) (channels : UInt16) (capacity : UInt32)
    (positive : 0 < capacity.toNat) (schedule : List (Action α)) (s : Watched α)
    (reached : run FillObserver.step (watch (start (sharedAudioCreate sampleRate channels capacity))) schedule =
      some s) :
    ∀ r ∈ s.reports, (r.value.toNat ≤ capacity.toNat ↔ InTime capacity.toNat r) ∧
      (r.party ≠ .other → r.value.toNat ≤ capacity.toNat) := by
  have opened : Watching capacity (watch (start (sharedAudioCreate (α := α) sampleRate channels capacity))) :=
    ⟨startWithin sampleRate channels positive,rfl,trivial,nofun⟩
  have watching := runInvariant stepWatching opened reached
  intro r member
  exact ⟨reportedIff (watching.reports r member),ownReport (watching.reports r member)⟩

/-- `write_pos` is loaded, then a frame is written and read, then `read_pos` is loaded. -/
def overtaken : List (Action Int) :=
  let tone : Nat → Nat → Int := fun _ f => 7 + f
  [.call .other,.load .writePos,.threads (.write tone 1)] ++ List.replicate 6 (.threads (.writer 0)) ++
    .threads (.read (.read 1)) :: List.replicate 4 (.threads (.reader 0)) ++ [.finish]

theorem overtakenReports :
    (run FillObserver.step (watch (start (sharedAudioCreate 48000 1 3))) overtaken).map (·.reports) =
      some [⟨.other,.writePos,⟨0,0⟩,⟨1,1⟩,4294967295⟩] := by
  decide +kernel

theorem fillPossibleOvertaken : ∃ s,
    run FillObserver.step (watch (start (sharedAudioCreate 48000 1 3))) overtaken = some s ∧
      ∃ r ∈ s.reports, ¬ InTime 3 r := by
  obtain ⟨s,reached,reports⟩ := Option.map_eq_some_iff.mp overtakenReports
  have member : ⟨.other,.writePos,⟨0,0⟩,⟨1,1⟩,4294967295⟩ ∈ s.reports := by rw [reports]; exact List.mem_singleton.mpr rfl
  refine ⟨s,reached,_,member,?_⟩
  intro inTime
  exact absurd ((fillPossible 48000 1 3 (by decide) overtaken s reached _ member).1.mpr inTime) (by decide)

/-- The fill that it prints is 4294967295 frames of a ring of three. -/
theorem fillImpossible : ¬ ∀ (schedule : List (Action Int)) (s : Watched Int),
    run FillObserver.step (watch (start (sharedAudioCreate 48000 1 3))) schedule = some s →
      ∀ r ∈ s.reports, r.value.toNat ≤ 3 := by
  intro always
  obtain ⟨s,reached,reports⟩ := Option.map_eq_some_iff.mp overtakenReports
  have printed := always overtaken s reached _ (by rw [reports]; exact List.mem_singleton.mpr rfl)
  exact absurd printed (by decide)

end ReacJack.ReportedFill
