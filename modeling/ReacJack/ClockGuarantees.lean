import ReacJack.ClockSeqlock

/-! Why a successful get never returns a torn pair: an even sequence number stands
for one count of completed publications, and the data fields only change while it is
odd. -/
namespace ReacJack.ClockGuarantees
open TransitionRuns SharedAudio ClockSeqlock

def Settled (s : State) : Prop :=
  s.clock.seq.toNat = 2 * s.completed ∧
  ∀ n, s.completed = n + 1 → s.publications[n]? = some (s.clock.hostTime,s.clock.samplePos)

def Under (s : State) (pair : Pair) : Prop :=
  s.publications.length = s.completed + 1 ∧ s.publications[s.completed]? = some pair

def WriterOk (s : State) : Prop :=
  match s.writer with
  | .idle => s.publications.length = s.completed ∧ Settled s
  | .entered pair => Under s pair ∧ Settled s
  | .loaded pair seq => Under s pair ∧ Settled s ∧ seq.toNat = 2 * s.completed
  | .markedOdd pair seq =>
    Under s pair ∧ s.clock.seq.toNat = 2 * s.completed + 1 ∧ seq.toNat = 2 * s.completed
  | .storedTime pair seq =>
    Under s pair ∧ s.clock.seq.toNat = 2 * s.completed + 1 ∧ seq.toNat = 2 * s.completed ∧
      s.clock.hostTime = pair.1
  | .storedPos pair seq =>
    Under s pair ∧ s.clock.seq.toNat = 2 * s.completed + 1 ∧ seq.toNat = 2 * s.completed ∧
      s.clock.hostTime = pair.1 ∧ s.clock.samplePos = pair.2

def Seen (clock : Clock) (seq : UInt64) : Prop :=
  seq.toNat % 2 = 0 ∧ seq ≠ 0 ∧ seq.toNat ≤ clock.seq.toNat

def PcOk (clock : Clock) : ReaderPc → Prop
  | .idle | .attempting => True
  | .loadedSeq seq => Seen clock seq
  | .loadedTime seq hostTime => Seen clock seq ∧ (clock.seq = seq → hostTime = clock.hostTime)
  | .loadedPos seq hostTime samplePos =>
    Seen clock seq ∧ (clock.seq = seq → hostTime = clock.hostTime ∧ samplePos = clock.samplePos)

def Missed (a : Attempt) : Prop := a.seq &&& 1 ≠ 0 ∨ ∃ again, a.again = some again ∧ again ≠ a.seq

structure ReaderOk (clock : Clock) (r : Reader) : Prop where
  pc : PcOk clock r.pc
  untouched : r.out = r.before
  few : r.attempts.length < 16
  missed : ∀ a ∈ r.attempts, Missed a

def Succeeded (publications : List Pair) (ret : Return) : Prop :=
  ret.code = 0 ∧ ∃ n, ret.completed = n + 1 ∧ publications[n]? = some ret.after

def Failed (ret : Return) : Prop :=
  ret.code = -1 ∧ ret.after = ret.before ∧
  ((∃ a ∈ ret.attempts, a.seq = 0) ∨ ret.attempts.length = 16 ∧ ∀ a ∈ ret.attempts, Missed a)

structure Inv (s : State) : Prop where
  writer : WriterOk s
  readers : ∀ i, ReaderOk s.clock (s.readers i)
  returns : ∀ ret ∈ s.returns,
    ret.completed ≤ s.completed ∧ (Succeeded s.publications ret ∨ Failed ret)
  ordered : s.returns.Pairwise (fun a b => a.completed ≤ b.completed)

theorem evenSettled {s : State} (ok : WriterOk s) (even : s.clock.seq.toNat % 2 = 0) : Settled s := by
  -- An even number on the clock means that the fields hold the last publication.
  unfold WriterOk at ok
  split at ok
  · exact ok.2
  · exact ok.2
  · exact ok.2.1
  all_goals
    have odd := ok.2.1
    omega

theorem oddIff (seq : UInt64) : seq &&& 1 ≠ 0 ↔ seq.toNat % 2 = 1 := by
  rw [ne_eq, ← UInt64.toNat_inj, UInt64.toNat_and]
  simp only [UInt64.toNat_one, Nat.and_one_is_mod, UInt64.toNat_zero]
  omega

def Moves (before after : Clock) : Prop :=
  before.seq.toNat ≤ after.seq.toNat ∧
  ∀ seq : UInt64, seq.toNat % 2 = 0 → seq.toNat ≤ before.seq.toNat → after.seq = seq →
    before.seq = seq ∧ after.hostTime = before.hostTime ∧ after.samplePos = before.samplePos

theorem readerStable {before after : Clock} {r : Reader} (ok : ReaderOk before r)
    (moves : Moves before after) : ReaderOk after r := by
  refine ⟨?_,ok.untouched,ok.few,ok.missed⟩
  have pc := ok.pc
  have seen : ∀ seq, Seen before seq → Seen after seq :=
    fun seq s => ⟨s.1,s.2.1,s.2.2.trans moves.1⟩
  cases at_ : r.pc with
  | idle | attempting => trivial
  | loadedSeq seq =>
    rw [at_] at pc
    exact seen seq pc
  | loadedTime seq hostTime =>
    rw [at_] at pc
    refine ⟨seen seq pc.1,fun same => ?_⟩
    obtain ⟨still,time,_⟩ := moves.2 seq pc.1.1 pc.1.2.2 same
    rw [time]
    exact pc.2 still
  | loadedPos seq hostTime samplePos =>
    rw [at_] at pc
    refine ⟨seen seq pc.1,fun same => ?_⟩
    obtain ⟨still,time,pos⟩ := moves.2 seq pc.1.1 pc.1.2.2 same
    rw [time, pos]
    exact pc.2 still

theorem writerStep {s next : State} (inv : Inv s) (small : s.publications.length < 2 ^ 63)
    (taken : stepWriter s = some next) :
    WriterOk next ∧ Moves s.clock next.clock ∧ next.readers = s.readers ∧
      next.publications = s.publications ∧ s.completed ≤ next.completed ∧ next.returns = s.returns := by
  have ok := inv.writer
  have still : Moves s.clock s.clock := ⟨Nat.le_refl _,fun seq _ _ same => ⟨same,rfl,rfl⟩⟩
  cases at_ : s.writer with
  | idle => simp [stepWriter, at_] at taken
  | entered pair =>
    simp only [WriterOk, at_] at ok
    simp only [stepWriter, at_] at taken
    cases Option.some.inj taken
    exact ⟨⟨ok.1,ok.2,ok.2.1⟩,still,rfl,rfl,Nat.le_refl _,rfl⟩
  | loaded pair seq =>
    simp only [WriterOk, at_] at ok
    obtain ⟨⟨length,pending⟩,⟨current,_⟩,exact_⟩ := ok
    simp only [stepWriter, at_] at taken
    cases Option.some.inj taken
    have odd : (seq + 1).toNat = 2 * s.completed + 1 := by
      rw [UInt64.toNat_add, UInt64.toNat_one]
      omega
    refine ⟨⟨⟨length,pending⟩,odd,exact_⟩,⟨by simp only; omega,?_⟩,rfl,rfl,Nat.le_refl _,rfl⟩
    rintro q even below rfl
    simp only at even
    omega
  | markedOdd pair seq =>
    simp only [WriterOk, at_] at ok
    obtain ⟨under,odd,exact_⟩ := ok
    simp only [stepWriter, at_] at taken
    cases Option.some.inj taken
    refine ⟨⟨under,odd,exact_,rfl⟩,⟨Nat.le_refl _,?_⟩,rfl,rfl,Nat.le_refl _,rfl⟩
    rintro q even below rfl
    simp only at even
    omega
  | storedTime pair seq =>
    simp only [WriterOk, at_] at ok
    obtain ⟨under,odd,exact_,time⟩ := ok
    simp only [stepWriter, at_] at taken
    cases Option.some.inj taken
    refine ⟨⟨under,odd,exact_,time,rfl⟩,⟨Nat.le_refl _,?_⟩,rfl,rfl,Nat.le_refl _,rfl⟩
    rintro q even below rfl
    simp only at even
    omega
  | storedPos pair seq =>
    simp only [WriterOk, at_] at ok
    obtain ⟨⟨length,pending⟩,odd,exact_,time,pos⟩ := ok
    simp only [stepWriter, at_] at taken
    cases Option.some.inj taken
    have even : (seq + 2).toNat = 2 * (s.completed + 1) := by
      have two : (2 : UInt64).toNat = 2 := rfl
      rw [UInt64.toNat_add, two]
      omega
    refine ⟨⟨length,even,?_⟩,⟨by simp only; omega,?_⟩,rfl,rfl,Nat.le_succ _,rfl⟩
    · intro n count
      obtain rfl : n = s.completed := (Nat.succ.inj count).symm
      simp only [time, pos]
      exact pending
    · rintro q _ below rfl
      simp only at below
      omega

theorem setInv {s : State} (inv : Inv s) {i : Nat} {r : Reader} (ok : ReaderOk s.clock r) :
    Inv (setReader s i r) := by
  refine ⟨inv.writer,fun k => ?_,inv.returns,inv.ordered⟩
  simp only [setReader]
  split
  · exact ok
  · exact inv.readers k

theorem giveBackInv {s : State} (inv : Inv s) {i : Nat} {code : Int} {out : Pair} {attempts : List Attempt}
    (told : Succeeded s.publications ⟨i,code,(s.readers i).before,out,attempts,s.completed⟩ ∨
      Failed ⟨i,code,(s.readers i).before,out,attempts,s.completed⟩) :
    Inv (giveBack s i code out attempts) := by
  have idle : ReaderOk s.clock ⟨.idle,out,out,[]⟩ := ⟨trivial,rfl,Nat.zero_lt_succ 15,nofun⟩
  obtain ⟨writer,readers,returns,ordered⟩ := setInv inv (i := i) idle
  refine ⟨writer,readers,?_,?_⟩
  · intro ret member
    rcases List.mem_append.mp member with old | new
    · exact returns ret old
    · obtain rfl := List.mem_singleton.mp new
      exact ⟨Nat.le_refl _,told⟩
  · refine List.pairwise_append.mpr ⟨ordered,List.pairwise_singleton _ _,?_⟩
    intro a old b new
    obtain rfl := List.mem_singleton.mp new
    exact (returns a old).1

theorem retryInv {s : State} (inv : Inv s) {i : Nat} {attempt : Attempt} (missed : Missed attempt) :
    Inv (retry s i attempt) := by
  have ok := inv.readers i
  have all : ∀ a ∈ (s.readers i).attempts ++ [attempt], Missed a := by
    intro a member
    rcases List.mem_append.mp member with old | new
    · exact ok.missed a old
    · exact List.mem_singleton.mp new ▸ missed
  simp only [retry]
  split
  · rename_i more
    exact setInv inv ⟨trivial,ok.untouched,more,all⟩
  · rename_i last
    have few := ok.few
    rw [List.length_append, List.length_singleton] at last
    refine giveBackInv inv (.inr ⟨rfl,ok.untouched,.inr ⟨?_,all⟩⟩)
    rw [List.length_append, List.length_singleton]
    omega

theorem readerStep {s next : State} {i : Nat} (inv : Inv s) (taken : stepReader s i = some next) :
    Inv next := by
  have ok := inv.readers i
  obtain ⟨pc,untouched,few,missed⟩ := ok
  cases at_ : (s.readers i).pc with
  | idle => simp [stepReader, at_] at taken
  | attempting =>
    simp only [stepReader, at_] at taken
    split at taken
    · rename_i zero
      cases Option.some.inj taken
      refine giveBackInv inv (.inr ⟨rfl,untouched,.inl ⟨⟨s.clock.seq,none⟩,?_,zero⟩⟩)
      exact List.mem_append_right _ (List.mem_singleton.mpr rfl)
    · rename_i nonzero
      split at taken <;> cases Option.some.inj taken
      · rename_i odd
        exact retryInv inv (.inl odd)
      · rename_i notOdd
        rw [oddIff] at notOdd
        exact setInv inv ⟨⟨by omega,nonzero,Nat.le_refl _⟩,untouched,few,missed⟩
  | loadedSeq seq =>
    rw [at_] at pc
    simp only [stepReader, at_] at taken
    cases Option.some.inj taken
    exact setInv inv ⟨⟨pc,fun _ => rfl⟩,untouched,few,missed⟩
  | loadedTime seq hostTime =>
    rw [at_] at pc
    simp only [stepReader, at_] at taken
    cases Option.some.inj taken
    exact setInv inv ⟨⟨pc.1,fun same => ⟨pc.2 same,rfl⟩⟩,untouched,few,missed⟩
  | loadedPos seq hostTime samplePos =>
    rw [at_] at pc
    simp only [stepReader, at_] at taken
    split at taken <;> cases Option.some.inj taken
    · rename_i same
      obtain ⟨⟨even,nonzero,_⟩,kept⟩ := pc
      obtain ⟨rfl,rfl⟩ := kept same
      rw [← same] at even nonzero
      obtain ⟨count,last⟩ := evenSettled inv.writer even
      have some_ : s.completed ≠ 0 := by
        intro none
        rw [none] at count
        exact nonzero (UInt64.toNat_inj.mp count)
      obtain ⟨n,counted⟩ := Nat.exists_eq_succ_of_ne_zero some_
      exact giveBackInv inv (.inl ⟨rfl,n,counted,last n counted⟩)
    · rename_i changed
      exact retryInv inv (.inr ⟨_,rfl,changed⟩)

theorem succeededLater {publications more : List Pair} {ret : Return}
    (succeeded : Succeeded publications ret) : Succeeded (publications ++ more) ret := by
  obtain ⟨code,n,count,found⟩ := succeeded
  have inside := (List.getElem?_eq_some_iff.mp found).1
  exact ⟨code,n,count,by rw [List.getElem?_append_left inside]; exact found⟩

theorem publishStep {s : State} (inv : Inv s) (idle : s.writer = .idle) (pair : Pair) :
    Inv {s with writer := .entered pair, publications := s.publications ++ [pair]} := by
  have ok := inv.writer
  simp only [WriterOk, idle] at ok
  obtain ⟨length,count,last⟩ := ok
  refine ⟨⟨⟨?_,?_⟩,count,?_⟩,inv.readers,?_,inv.ordered⟩
  · rw [List.length_append, List.length_singleton, length]
  · rw [← length]
    exact List.getElem?_concat_length
  · intro n counted
    simp only at counted
    rw [List.getElem?_append_left (by omega)]
    exact last n counted
  · intro ret member
    obtain ⟨below,told⟩ := inv.returns ret member
    exact ⟨below,told.imp succeededLater id⟩

theorem stepInv {s next : State} {label : Label} (inv : Inv s) (small : next.publications.length < 2 ^ 63)
    (taken : step s label = some next) : Inv next := by
  cases label with
  | publish hostTime samplePos =>
    cases at_ : s.writer with
    | idle =>
      simp only [step, at_] at taken
      cases Option.some.inj taken
      exact publishStep inv at_ (hostTime,samplePos)
    | _ => simp [step, at_] at taken
  | writer =>
    have same : next.publications = s.publications := by
      simp only [step, stepWriter] at taken
      split at taken
      · contradiction
      all_goals cases Option.some.inj taken; rfl
    rw [same] at small
    obtain ⟨ok,moves,readers,publications,completed,returns⟩ := writerStep inv small taken
    refine ⟨ok,fun i => ?_,?_,by rw [returns]; exact inv.ordered⟩
    · rw [readers]
      exact readerStable (inv.readers i) moves
    · intro ret member
      rw [returns] at member
      rw [publications]
      exact ⟨(inv.returns ret member).1.trans completed,(inv.returns ret member).2⟩
  | get i out =>
    cases at_ : (s.readers i).pc with
    | idle =>
      simp only [step, at_] at taken
      cases Option.some.inj taken
      exact setInv inv ⟨trivial,rfl,Nat.zero_lt_succ 15,fun _ member => absurd member List.not_mem_nil⟩
    | _ => simp [step, at_] at taken
  | reader i => exact readerStep inv taken

theorem publicationsGrow {s next : State} {label : Label} (taken : step s label = some next) :
    s.publications.length ≤ next.publications.length := by
  cases label with
  | publish hostTime samplePos =>
    simp only [step] at taken
    split at taken
    · cases Option.some.inj taken
      simp only [List.length_append]
      omega
    · contradiction
  | writer =>
    simp only [step, stepWriter] at taken
    split at taken
    · contradiction
    all_goals cases Option.some.inj taken; exact Nat.le_refl _
  | get i out =>
    simp only [step] at taken
    split at taken
    · cases Option.some.inj taken
      exact Nat.le_refl _
    · contradiction
  | reader i =>
    have retried : ∀ a, (retry s i a).publications = s.publications := by
      intro a
      simp only [retry]
      split <;> rfl
    simp only [step, stepReader] at taken
    split at taken
    case h_1 => contradiction
    case h_2 =>
      split at taken
      · cases Option.some.inj taken
        exact Nat.le_refl _
      · split at taken <;> cases Option.some.inj taken
        · exact Nat.le_of_eq (congrArg _ (retried _).symm)
        · exact Nat.le_refl _
    case h_5 =>
      split at taken <;> cases Option.some.inj taken
      · exact Nat.le_refl _
      · exact Nat.le_of_eq (congrArg _ (retried _).symm)
    all_goals
      cases Option.some.inj taken
      exact Nat.le_refl _

theorem startInv : Inv start :=
  ⟨⟨rfl,rfl,nofun⟩,fun _ => ⟨trivial,rfl,Nat.zero_lt_succ 15,nofun⟩,nofun,List.Pairwise.nil⟩

theorem runInv {schedule : List Label} {s : State} (reached : run step start schedule = some s)
    (small : s.publications.length < 2 ^ 63) : Inv s :=
  runInvariantWhile (W := fun t : State => t.publications.length < 2 ^ 63)
    (fun _ _ _ taken below => (publicationsGrow taken).trans_lt below)
    (fun _ _ _ inv below taken => stepInv inv below taken) startInv reached small

/-- A successful get returns the publication that was the latest complete one when it
returned, so later gets never return earlier ones; a failed get says why. -/
theorem getsArePublications (schedule : List Label) (s : State)
    (reached : run step start schedule = some s) (small : s.publications.length < 2 ^ 63) :
    (∀ ret ∈ s.returns, ret.code = 0 →
      ∃ n, ret.completed = n + 1 ∧ s.publications[n]? = some ret.after) ∧
    s.returns.Pairwise (fun a b => a.completed ≤ b.completed) ∧
    (∀ ret ∈ s.returns, ret.code ≠ 0 → ret.after = ret.before ∧
      ((∃ a ∈ ret.attempts, a.seq = 0) ∨
        ret.attempts.length = 16 ∧ ∀ a ∈ ret.attempts, Missed a)) := by
  have inv := runInv reached small
  refine ⟨?_,inv.ordered,?_⟩
  · intro ret member zero
    rcases (inv.returns ret member).2 with ⟨_,published⟩ | ⟨code,_⟩
    · exact published
    · rw [zero] at code
      contradiction
  · intro ret member nonzero
    rcases (inv.returns ret member).2 with ⟨code,_⟩ | ⟨_,failed⟩
    · exact absurd code nonzero
    · exact failed

def racing : List Label :=
  [.publish 5 7,.writer,.writer,.writer,.get 0 (1,1),.reader 0,.writer,.writer,.get 1 (2,2),.reader 0,
    .reader 0,.publish 6 9,.writer,.writer,.reader 0,.reader 0,.writer,.writer,.writer] ++
  List.replicate 4 (.reader 0) ++ [.reader 1,.reader 1,.reader 1,.reader 1]

def raced : State := (run step start racing).getD start

theorem getsArePublicationsRaced :
    raced.returns.map Return.after = [(6,9),(6,9)] ∧
      raced.returns.Pairwise (fun a b => a.completed ≤ b.completed) :=
  ⟨by decide,(getsArePublications racing raced rfl (by decide)).2.1⟩

end ReacJack.ClockGuarantees
