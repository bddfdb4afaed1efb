import ReacJack.RingOpening
import ReacJack.Daemon

/-! Several daemons on one ring name: each creates its ring once, replacing what is
there, and at the end of `main` closes it and removes the name, whoever's ring the
name refers to by then. -/
namespace ReacJack.RingLifetimes
open ObjectNames SharedMapping RingCreation

inductive DaemonAt where
  | starting
  | running
  | closed
  | exited
  deriving DecidableEq, Repr

structure DaemonProcess where
  pc : DaemonAt
  ring : Handle

structure Lives (ι : Type) where
  shm : Shm
  daemons : ι → DaemonProcess
  latest : Option (ι × Nat)

inductive Event (ι : Type) where
  | starts (d : ι) (calls : CreateCalls)
  | closes (d : ι)
  | unlinks (d : ι)

variable {ι : Type} [DecidableEq ι]

def ringFormat (channels : UInt16) : RingFormat := ⟨Daemon.reacjackdSampleRate,channels,Daemon.reacjackdRingFrames⟩

def step (name : Name) (channels : ι → UInt16) (s : Lives ι) : Event ι → Lives ι
  | .starts d calls =>
    if (s.daemons d).pc = .starting then
      let (status,ring,shm) := sharedAudioCreate (s.daemons d).ring s.shm name (ringFormat (channels d)) calls
      if status = 0 then
        {shm, daemons := Function.update s.daemons d ⟨.running,ring⟩,
              latest := ring.header.map (fun object => (d,object))}
      else
        -- `ring_created` is not set: `main` ends without touching the name
        {s with shm, daemons := Function.update s.daemons d ⟨.exited,ring⟩}
    else s
  | .closes d =>
    if (s.daemons d).pc = .running then
      {s with daemons := Function.update s.daemons d ⟨.closed,sharedAudioClose (s.daemons d).ring⟩}
    else s
  | .unlinks d =>
    if (s.daemons d).pc = .closed then
      {s with shm := sharedAudioUnlink s.shm name,
              daemons := Function.update s.daemons d {s.daemons d with pc := .exited}}
    else s

def start (shm : Shm) (handles : ι → Handle) : Lives ι := ⟨shm,fun d => ⟨.starting,handles d⟩,none⟩

def run (name : Name) (channels : ι → UInt16) (s : Lives ι) (events : List (Event ι)) : Lives ι :=
  events.foldl (step name channels) s

def Live (s : Lives ι) (d : ι) (object : Nat) : Prop :=
  s.latest = some (d,object) ∧ (s.daemons d).pc ≠ .exited

def RingKept (name : Name) (s : Lives ι) : Prop :=
  ∀ d object, Live s d object → s.shm.refers name = some object ∧
    ((s.daemons d).pc = .running → (s.daemons d).ring.header = some object) ∧
    ∀ audio, (sharedAudioOpen audio s.shm name ⟨true,true,true⟩).1 = 0 ∧
      (sharedAudioOpen audio s.shm name ⟨true,true,true⟩).2.header = some object

def Reaches (name : Name) (channels : UInt16) : Prop :=
  name.head? = some 47 ∧ name.length < nameMax ∧ channels ≠ 0

/-- No exit while another daemon's ring is the latest, and no start that fails while one is. -/
def Careful (name : Name) (channels : ι → UInt16) (s : Lives ι) : Event ι → Prop
  | .starts d calls => (s.daemons d).pc = .starting → Reaches name (channels d) → calls ≠ ⟨true,true,true⟩ →
      ∀ d' object, ¬ Live s d' object
  | .closes _ => True
  | .unlinks d => (s.daemons d).pc = .closed → ∀ d' object, Live s d' object → d' = d

def CarefulRun (name : Name) (channels : ι → UInt16) (s : Lives ι) (events : List (Event ι)) : Prop :=
  ∀ before event after, events = before ++ event :: after →
    Careful name channels (run name channels s before) event

theorem formatReaches {name : Name} {channels : UInt16} (reaches : Reaches name channels) :
    ¬ ((ringFormat channels).sampleRate = 0 ∨ (ringFormat channels).channels = 0 ∨
      (ringFormat channels).capacityFrames = 0) := by
  have rate : (ringFormat channels).sampleRate ≠ 0 := by
    change (48000 : UInt32) ≠ 0
    decide
  have capacity : (ringFormat channels).capacityFrames ≠ 0 := by
    change (48000 : UInt32) ≠ 0
    decide
  rintro (zero | zero | zero)
  · exact rate zero
  · exact reaches.2.2 zero
  · exact capacity zero

def ringObject (channels : UInt16) : RingObject :=
  ⟨mappingBytes channels.toUInt32 Daemon.reacjackdRingFrames,headerStores (ringFormat channels) 6 blankHeader⟩

theorem createSucceeds {name : Name} {channels : UInt16} (reaches : Reaches name channels) (audio : Handle)
    (shm : Shm) :
    (sharedAudioCreate audio shm name (ringFormat channels) ⟨true,true,true⟩).1 = 0 ∧
    (sharedAudioCreate audio shm name (ringFormat channels) ⟨true,true,true⟩).2.1.header = some shm.next ∧
    (sharedAudioCreate audio shm name (ringFormat channels) ⟨true,true,true⟩).2.2.refers name = some shm.next ∧
    (sharedAudioCreate audio shm name (ringFormat channels) ⟨true,true,true⟩).2.2.objects shm.next =
      ringObject channels := by
  have free : (unlink shm name).refers name = none := unlinkSame shm name
  have valid := initHandleValid reaches.1 reaches.2.1
  simp only [sharedAudioCreate, valid, formatReaches reaches, if_false, if_true, createFree free, mapShared,
    modifyRefers, unlinkNext, Function.update_self, modifyTwice, modifySame, true_and]
  rfl

theorem createUnreached {name : Name} {channels : UInt16} (unreached : ¬ Reaches name channels) (audio : Handle)
    (shm : Shm) (calls : CreateCalls) :
    (sharedAudioCreate audio shm name (ringFormat channels) calls).1 = -1 ∧
    (sharedAudioCreate audio shm name (ringFormat channels) calls).2.2 = shm := by
  unfold sharedAudioCreate
  split
  · exact ⟨rfl,rfl⟩
  · rename_i valid
    obtain ⟨slash,short⟩ := initHandleName valid
    have zero : (ringFormat channels).channels = 0 := by
      by_contra some
      exact unreached ⟨slash,short,some⟩
    rw [if_pos (Or.inr (Or.inl zero))]
    exact ⟨rfl,rfl⟩

theorem createFails {name : Name} {channels : UInt16} (reaches : Reaches name channels) (audio : Handle)
    (shm : Shm) {calls : CreateCalls} (fails : calls ≠ ⟨true,true,true⟩) :
    (sharedAudioCreate audio shm name (ringFormat channels) calls).1 = -1 ∧
    (sharedAudioCreate audio shm name (ringFormat channels) calls).2.2.refers name = none := by
  have free : (unlink shm name).refers name = none := unlinkSame shm name
  have valid := initHandleValid reaches.1 reaches.2.1
  obtain ⟨opened,truncated,mapped⟩ := calls
  cases opened with
  | false =>
    simp only [sharedAudioCreate, valid, formatReaches reaches, if_false, Bool.false_eq_true]
    exact ⟨trivial,free⟩
  | true =>
    cases truncated with
    | false =>
      simp only [sharedAudioCreate, valid, formatReaches reaches, if_false, if_true, createFree free,
        Bool.false_eq_true]
      exact ⟨trivial,unlinkSame _ name⟩
    | true =>
      cases mapped with
      | false =>
        simp only [sharedAudioCreate, valid, formatReaches reaches, if_false, if_true, createFree free, mapShared,
          Bool.false_eq_true]
        exact ⟨trivial,unlinkSame _ name⟩
      | true => exact absurd rfl fails

theorem ringObjectOpens {name : Name} {channels : UInt16} (reaches : Reaches name channels) {shm : Shm}
    {object : Nat} (refers : shm.refers name = some object) (contents : shm.objects object = ringObject channels)
    (audio : Handle) :
    (sharedAudioOpen audio shm name ⟨true,true,true⟩).1 = 0 ∧
      (sharedAudioOpen audio shm name ⟨true,true,true⟩).2.header = some object := by
  have small := neededSmall (ringFormat channels)
  have bytes : (ringObject channels).size.toNat =
      neededBytes channels.toUInt32.toNat Daemon.reacjackdRingFrames.toNat :=
    (mappingBytesToNat channels.toUInt32 Daemon.reacjackdRingFrames).trans (Nat.mod_eq_of_lt small)
  have found : Found shm name ⟨true,true,true⟩ object := by
    refine ⟨reaches.1,reaches.2.1,rfl,refers,?_⟩
    rw [contents, bytes]
    exact (Nat.le_add_right 128 _).trans' (by decide)
  have accepted : headerAccepted (shm.objects object).header (shm.objects object).size = true := by
    rw [headerAcceptedIff, contents]
    refine ⟨rfl,rfl,rfl,?_,(by decide : 0 < (48000 : UInt32).toNat),?_⟩
    · have some := reaches.2.2
      rw [Ne, ← UInt16.toNat_inj, UInt16.toNat_zero] at some
      change 0 < channels.toUInt32.toNat
      rw [UInt16.toNat_toUInt32]
      omega
    · rw [bytes]
      exact Nat.mod_le _ _
  rw [openFound audio found, if_pos accepted]
  exact ⟨rfl,rfl⟩

variable {name : Name} {channels : ι → UInt16}

def Started (name : Name) (channels : ι → UInt16) (s : Lives ι) : Prop :=
  ∀ d object, s.latest = some (d,object) → (s.daemons d).pc ≠ .starting ∧ Reaches name (channels d)

def Kept (name : Name) (channels : ι → UInt16) (s : Lives ι) : Prop :=
  ∀ d object, Live s d object → s.shm.refers name = some object ∧
    s.shm.objects object = ringObject (channels d) ∧
    ((s.daemons d).pc = .running → (s.daemons d).ring.header = some object)

omit [DecidableEq ι] in
theorem ringKept {s : Lives ι} (started : Started name channels s) (kept : Kept name channels s) :
    RingKept name s := by
  intro d object live
  obtain ⟨refers,contents,mapped⟩ := kept d object live
  exact ⟨refers,mapped,ringObjectOpens (started d object live.1).2 refers contents⟩

theorem startsCases (name : Name) (channels : ι → UInt16) (s : Lives ι) (d : ι) (calls : CreateCalls) :
    ((s.daemons d).pc ≠ .starting ∧ step name channels s (.starts d calls) = s) ∨
    ((s.daemons d).pc = .starting ∧ (Reaches name (channels d) ∧ calls = ⟨true,true,true⟩) ∧
      ∃ ring shm, step name channels s (.starts d calls) =
          ⟨shm,Function.update s.daemons d ⟨.running,ring⟩,some (d,s.shm.next)⟩ ∧
        ring.header = some s.shm.next ∧ shm.refers name = some s.shm.next ∧
        shm.objects s.shm.next = ringObject (channels d)) ∨
    ((s.daemons d).pc = .starting ∧ (Reaches name (channels d) ∧ calls ≠ ⟨true,true,true⟩) ∧
      ∃ ring shm, step name channels s (.starts d calls) =
          ⟨shm,Function.update s.daemons d ⟨.exited,ring⟩,s.latest⟩ ∧ shm.refers name = none) ∨
    ((s.daemons d).pc = .starting ∧ ¬ Reaches name (channels d) ∧
      ∃ ring, step name channels s (.starts d calls) =
        ⟨s.shm,Function.update s.daemons d ⟨.exited,ring⟩,s.latest⟩) := by
  by_cases waiting : (s.daemons d).pc = .starting
  swap
  · exact Or.inl ⟨waiting,if_neg waiting⟩
  by_cases reaches : Reaches name (channels d)
  · by_cases all : calls = ⟨true,true,true⟩
    · subst all
      obtain ⟨zero,mapped,refers,contents⟩ := createSucceeds reaches (s.daemons d).ring s.shm
      refine Or.inr (Or.inl ⟨waiting,⟨reaches,rfl⟩,_,_,?_,mapped,refers,contents⟩)
      simp only [step, waiting, if_true, zero, mapped, Option.map_some]
    · obtain ⟨failed,gone⟩ := createFails reaches (s.daemons d).ring s.shm all
      refine Or.inr (Or.inr (Or.inl ⟨waiting,⟨reaches,all⟩,
        (sharedAudioCreate (s.daemons d).ring s.shm name (ringFormat (channels d)) calls).2.1,_,?_,gone⟩))
      simp only [step, waiting, if_true, failed]
      rfl
  · obtain ⟨failed,same⟩ := createUnreached reaches (s.daemons d).ring s.shm calls
    refine Or.inr (Or.inr (Or.inr ⟨waiting,reaches,
      (sharedAudioCreate (s.daemons d).ring s.shm name (ringFormat (channels d)) calls).2.1,?_⟩))
    simp only [step, waiting, if_true, failed, same]
    rfl

theorem startedStep (s : Lives ι) (event : Event ι) (started : Started name channels s) :
    Started name channels (step name channels s event) := by
  -- no daemon goes back to its start
  have onward : ∀ {pc ring} {d : ι}, pc ≠ DaemonAt.starting → ∀ d' object, s.latest = some (d',object) →
      (Function.update s.daemons d ⟨pc,ring⟩ d').pc ≠ .starting ∧ Reaches name (channels d') := by
    intro pc ring d left d' object latest
    obtain ⟨before,reaches⟩ := started d' object latest
    by_cases same : d' = d
    · subst same
      simp only [Function.update_self]
      exact ⟨left,reaches⟩
    · simp only [Function.update_of_ne same]
      exact ⟨before,reaches⟩
  cases event with
  | starts d calls =>
    rcases startsCases name channels s d calls with ⟨_,same⟩ | ⟨_,reaches,ring,shm,result,_⟩ |
      ⟨_,_,ring,shm,result,_⟩ | ⟨_,_,ring,result⟩
    · rw [same]
      exact started
    · rw [result]
      rintro d' object latest
      cases latest
      simp only [Function.update_self]
      exact ⟨by decide,reaches.1⟩
    · rw [result]
      exact onward (by decide)
    · rw [result]
      exact onward (by decide)
  | closes d =>
    simp only [step]
    split
    · exact onward (by decide)
    · exact started
  | unlinks d =>
    simp only [step]
    split
    · exact onward (by decide)
    · exact started

theorem liveBefore {s : Lives ι} {d : ι} {ring : Handle} {shm : Shm} {d' : ι} {object : Nat}
    (live : Live ⟨shm,Function.update s.daemons d ⟨.exited,ring⟩,s.latest⟩ d' object) :
    d' ≠ d ∧ Live s d' object := by
  obtain ⟨latest,here⟩ := live
  have apart : d' ≠ d := by
    rintro rfl
    simp only [Function.update_self] at here
    exact here rfl
  simp only [Function.update_of_ne apart] at here
  exact ⟨apart,latest,here⟩

theorem keptStep (s : Lives ι) (event : Event ι) (kept : Kept name channels s)
    (careful : Careful name channels s event) : Kept name channels (step name channels s event) := by
  cases event with
  | starts d calls =>
    rcases startsCases name channels s d calls with ⟨_,same⟩ |
      ⟨_,_,ring,shm,result,mapped,refers,contents⟩ | ⟨waiting,fails,ring,shm,result,_⟩ | ⟨_,_,ring,result⟩
    · rw [same]
      exact kept
    · rw [result]
      rintro d' object ⟨latest,_⟩
      cases latest
      exact ⟨refers,contents,fun _ => by simp only [Function.update_self, mapped]⟩
    · rw [result]
      intro d' object live
      exact absurd (liveBefore live).2 (careful waiting fails.1 fails.2 d' object)
    · rw [result]
      intro d' object live
      obtain ⟨apart,before⟩ := liveBefore live
      simp only [Function.update_of_ne apart]
      exact kept d' object before
  | closes d =>
    by_cases running : (s.daemons d).pc = .running
    · simp only [step, running, if_true]
      rintro d' object ⟨latest,here⟩
      by_cases same : d' = d
      · subst same
        obtain ⟨refers,contents,_⟩ := kept d' object ⟨latest,by rw [running]; decide⟩
        refine ⟨refers,contents,?_⟩
        simp only [Function.update_self]
        intro closed
        cases closed
      · simp only [Function.update_of_ne same] at here ⊢
        exact kept d' object ⟨latest,here⟩
    · simp only [step, running, if_false]
      exact kept
  | unlinks d =>
    by_cases closed : (s.daemons d).pc = .closed
    · simp only [step, closed, if_true]
      intro d' object live
      obtain ⟨apart,before⟩ := liveBefore live
      exact absurd (careful closed d' object before) apart
    · simp only [step, closed, if_false]
      exact kept

theorem carelessStep (s : Lives ι) (event : Event ι) (started : Started name channels s)
    (careless : ¬ Careful name channels s event) : ¬ RingKept name (step name channels s event) := by
  intro ringKept
  cases event with
  | starts d calls =>
    simp only [Careful, not_forall, not_not] at careless
    obtain ⟨waiting,reaches,fails,d',object,live⟩ := careless
    have apart : d' ≠ d := by
      rintro rfl
      exact (started d' object live.1).1 waiting
    rcases startsCases name channels s d calls with ⟨left,_⟩ | ⟨_,succeeds,_⟩ |
      ⟨_,_,ring,shm,result,gone⟩ | ⟨_,unreached,_⟩
    · exact left waiting
    · exact fails succeeds.2
    · have still : Live (step name channels s (.starts d calls)) d' object := by
        rw [result]
        exact ⟨live.1,by simp only [Function.update_of_ne apart]; exact live.2⟩
      have refers := (ringKept d' object still).1
      rw [result] at refers
      rw [gone] at refers
      cases refers
    · exact unreached reaches
  | closes d => exact careless trivial
  | unlinks d =>
    simp only [Careful, not_forall] at careless
    obtain ⟨closed,d',object,live,apart⟩ := careless
    have still : Live (step name channels s (.unlinks d)) d' object := by
      simp only [step, closed, if_true]
      exact ⟨live.1,by simp only [Function.update_of_ne apart]; exact live.2⟩
    have refers := (ringKept d' object still).1
    simp only [step, closed, if_true, sharedAudioUnlink, unlinkSame] at refers
    cases refers

theorem startedRun {s : Lives ι} (started : Started name channels s) (events : List (Event ι)) :
    Started name channels (run name channels s events) :=
  TransitionRuns.foldInvariant startedStep started

theorem keptRun {s : Lives ι} (kept : Kept name channels s) {events : List (Event ι)}
    (careful : CarefulRun name channels s events) : Kept name channels (run name channels s events) := by
  induction events generalizing s with
  | nil => exact kept
  | cons event rest ih =>
    refine ih (keptStep s event kept (careful [] event rest rfl)) ?_
    rintro before next after rfl
    exact careful (event :: before) next after rfl

/-- Along a run from any contents of the shared memory, the latest creator's ring
stays where it is in every state exactly when every step is careful. -/
theorem ringsKept (name : Name) (channels : ι → UInt16) (shm : Shm) (handles : ι → Handle)
    (events : List (Event ι)) :
    (∀ before after, events = before ++ after → RingKept name (run name channels (start shm handles) before)) ↔
      CarefulRun name channels (start shm handles) events := by
  have started : Started name channels (start shm handles) := by
    intro d object latest
    cases latest
  have kept : Kept name channels (start shm handles) := by
    rintro d object ⟨latest,_⟩
    cases latest
  constructor
  · rintro always before event after rfl
    by_contra careless
    refine carelessStep _ event (startedRun started before) careless ?_
    have later := always (before ++ [event]) after (List.append_assoc before [event] after).symm
    rw [run, List.foldl_append] at later
    exact later
  · rintro careful before after rfl
    refine ringKept (startedRun started before) (keptRun kept ?_)
    rintro early event late rfl
    exact careful early event (late ++ after) (List.append_assoc early (event :: late) after)

def replacedThenExit : List (Event Bool) :=
  [.starts false ⟨true,true,true⟩,.starts true ⟨true,true,true⟩,.closes false,.unlinks false]

theorem exitTakesRing : ¬ ∀ (channels : Bool → UInt16) (shm : Shm) (handles : Bool → Handle)
    (events : List (Event Bool)), RingKept [47, 114] (run [47, 114] channels (start shm handles) events) := by
  intro always
  have kept := always (fun _ => 2) (noNames blank) (fun _ => ⟨none,none,0,0,[]⟩) replacedThenExit
  obtain ⟨refers,_⟩ := kept true 1 ⟨by decide,by decide⟩
  exact absurd refers (by decide)

/-- A start whose `k` first steps come before the `shm_unlink` of another daemon's exit. -/
def startAround (name : Name) (channels : UInt16) (audio : Handle) (shm : Shm) (k : Nat) : CreateCall × Shm :=
  let begun := createAlone name (ringFormat channels) ⟨.initHandle,0,audio⟩ shm (List.replicate k true)
  createAlone name (ringFormat channels) begun.1 (sharedAudioUnlink begun.2 name) (List.replicate (13 - k) true)

def opened : CreateAt → Bool
  | .initHandle | .shmUnlink | .shmOpen => false
  | _ => true

theorem exitCommutes (name : Name) (format : RingFormat) (call : CreateCall) (shm : Shm)
    (apart : call.pc ≠ .shmOpen) :
    createStep name format true call (sharedAudioUnlink shm name) =
      ((createStep name format true call shm).1,
        sharedAudioUnlink (createStep name format true call shm).2 name) := by
  -- Only the step that makes the object looks at the name.
  obtain ⟨pc,fd,audio⟩ := call
  cases pc with
  | initHandle =>
    simp only [createStep]
    split
    · rfl
    split <;> rfl
  | shmOpen => exact absurd rfl apart
  | mapShared =>
    simp only [createStep]
    split <;> rfl
  | shmUnlink | ftruncate | failClose | failUnlink | close | store | owner | returned => rfl

theorem openedStep (name : Name) (format : RingFormat) {call : CreateCall} (shm : Shm)
    (past : opened call.pc = true) : opened (createStep name format true call shm).1.pc = true := by
  obtain ⟨pc,fd,audio⟩ := call
  cases pc with
  | initHandle | shmUnlink | shmOpen => cases past
  | mapShared =>
    simp only [createStep]
    split <;> rfl
  | store field =>
    simp only [createStep]
    split <;> rfl
  | ftruncate | failClose | failUnlink | close | owner | returned => rfl

theorem openedRun (name : Name) (format : RingFormat) {call : CreateCall} (shm : Shm)
    (past : opened call.pc = true) (n : Nat) :
    opened (createAlone name format call shm (List.replicate n true)).1.pc = true := by
  induction n generalizing call shm with
  | zero => exact past
  | succ n ih => exact ih _ (openedStep name format shm past)

theorem exitLater (name : Name) (format : RingFormat) {call : CreateCall} (shm : Shm)
    (past : opened call.pc = true) (n : Nat) :
    createAlone name format call (sharedAudioUnlink shm name) (List.replicate n true) =
      ((createAlone name format call shm (List.replicate n true)).1,
        sharedAudioUnlink (createAlone name format call shm (List.replicate n true)).2 name) := by
  induction n generalizing call shm with
  | zero => rfl
  | succ n ih =>
    have apart : call.pc ≠ .shmOpen := by
      intro here
      rw [here] at past
      cases past
    have later := ih (createStep name format true call shm).2 (openedStep name format shm past)
    simp only [createAlone, List.replicate_succ, List.foldl_cons] at later ⊢
    rw [exitCommutes name format call shm apart]
    exact later

theorem stepsAppend (name : Name) (format : RingFormat) (call : CreateCall) (shm : Shm) (n m : Nat) :
    createAlone name format call shm (List.replicate (n + m) true) =
      createAlone name format (createAlone name format call shm (List.replicate n true)).1
        (createAlone name format call shm (List.replicate n true)).2 (List.replicate m true) := by
  rw [List.replicate_add, createAlone, List.foldl_append]
  rfl

theorem startAlone {name : Name} {channels : UInt16} (reaches : Reaches name channels) (audio : Handle) (shm : Shm) :
    let s := createAlone name (ringFormat channels) ⟨.initHandle,0,audio⟩ shm (List.replicate 13 true)
    s.1.pc = .returned 0 ∧ s.1.audio.header = some shm.next ∧ s.2.refers name = some shm.next ∧
      s.2.objects shm.next = ringObject channels := by
  obtain ⟨zero,mapped,refers,contents⟩ := createSucceeds reaches audio shm
  obtain ⟨returned,handle,memory⟩ := createAloneIs name (ringFormat channels) ⟨true,true,true⟩ audio shm
  rw [zero] at returned
  rw [← handle] at mapped
  rw [← memory] at refers contents
  exact ⟨returned,mapped,refers,contents⟩

theorem exitEarlier (name : Name) (format : RingFormat) (audio : Handle) (shm : Shm) {k : Nat} (early : k < 3) :
    createAlone name format ⟨.initHandle,0,audio⟩ (sharedAudioUnlink shm name) (List.replicate k true) =
      ((createAlone name format ⟨.initHandle,0,audio⟩ shm (List.replicate k true)).1,
        sharedAudioUnlink (createAlone name format ⟨.initHandle,0,audio⟩ shm (List.replicate k true)).2 name) := by
  have first := exitCommutes name format ⟨.initHandle,0,audio⟩ shm CreateAt.noConfusion
  rcases k with _ | _ | _ | k
  · rfl
  · exact first
  · have apart : (createStep name format true ⟨.initHandle,0,audio⟩ shm).1.pc ≠ .shmOpen := by
      simp only [createStep]
      split
      · exact CreateAt.noConfusion
      split <;> exact CreateAt.noConfusion
    have second := exitCommutes name format _ (createStep name format true ⟨.initHandle,0,audio⟩ shm).2 apart
    simp only [createAlone, List.replicate, List.foldl]
    rw [first]
    exact second
  · omega

theorem openedThird {name : Name} {channels : UInt16} (reaches : Reaches name channels) (audio : Handle) (shm : Shm) :
    opened (createAlone name (ringFormat channels) ⟨.initHandle,0,audio⟩ shm (List.replicate 3 true)).1.pc = true := by
  have free : (unlink shm name).refers name = none := unlinkSame shm name
  simp only [createAlone, List.replicate, List.foldl, createStep, initHandleValid reaches.1 reaches.2.1,
    formatReaches reaches, if_false, if_true, createFree free]
  rfl

/-- A start succeeds beside an exit. Its ring keeps the name where the exit came before
its `shm_open`; where it came later, no name refers to the ring. -/
theorem exitWithinStart {name : Name} {channels : UInt16} (reaches : Reaches name channels) (audio : Handle)
    (shm : Shm) {k : Nat} (within : k ≤ 13) :
    let s := startAround name channels audio shm k
    s.1.pc = .returned 0 ∧ s.1.audio.header = some shm.next ∧ s.2.objects shm.next = ringObject channels ∧
      s.2.refers name = if k < 3 then some shm.next else none := by
  intro s
  have count : k + (13 - k) = 13 := by omega
  rcases Nat.lt_or_ge k 3 with early | late
  · -- up to the start's own `shm_unlink` it makes no difference when the name goes
    have whole := stepsAppend name (ringFormat channels) ⟨.initHandle,0,audio⟩ (sharedAudioUnlink shm name) k (13 - k)
    rw [exitEarlier name (ringFormat channels) audio shm early, count] at whole
    obtain ⟨returned,mapped,refers,contents⟩ := startAlone reaches audio (sharedAudioUnlink shm name)
    rw [whole] at returned mapped refers contents
    rw [if_pos early]
    exact ⟨returned,mapped,contents,refers⟩
  · have past := openedRun name (ringFormat channels)
      (createAlone name (ringFormat channels) ⟨.initHandle,0,audio⟩ shm (List.replicate 3 true)).2
      (openedThird reaches audio shm) (k - 3)
    rw [← stepsAppend, Nat.add_sub_cancel' late] at past
    have whole := stepsAppend name (ringFormat channels) ⟨.initHandle,0,audio⟩ shm k (13 - k)
    rw [count] at whole
    have after := exitLater name (ringFormat channels)
      (createAlone name (ringFormat channels) ⟨.initHandle,0,audio⟩ shm (List.replicate k true)).2 past (13 - k)
    rw [← whole] at after
    obtain ⟨returned,mapped,refers,contents⟩ := startAlone reaches audio shm
    have same : s = _ := after
    rw [same, if_neg (Nat.not_lt.mpr late)]
    exact ⟨returned,mapped,contents,unlinkSame _ name⟩

end ReacJack.RingLifetimes
