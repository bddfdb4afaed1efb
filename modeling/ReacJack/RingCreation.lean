import ReacJack.MappedSamples
import ReacJack.TransitionRuns

/-! Any number of create calls and one open call on one name, one system call,
store or load a step. A call that takes no further step has crashed. -/
namespace ReacJack.RingCreation
open SharedAudio (Header)
open ObjectNames SharedMapping

inductive CreateAt where
  | initHandle
  | shmUnlink
  | shmOpen
  | ftruncate
  | mapShared
  | failClose
  | failUnlink
  | close
  | store (field : Fin 6)
  | owner
  | returned (result : Int)
  deriving DecidableEq, Repr

structure CreateCall where
  pc : CreateAt
  fd : Nat
  audio : Handle

/-- `succeeds` is the outcome of the step's system call, where it has one that can fail. -/
def createStep (name : Name) (format : RingFormat) (succeeds : Bool) (call : CreateCall) (shm : Shm) :
    CreateCall × Shm :=
  match call.pc with
  | .initHandle =>
    match initHandle name with
    | none => ({call with pc := .returned (-1)}, shm)
    | some audio =>
      if format.sampleRate = 0 ∨ format.channels = 0 ∨ format.capacityFrames = 0 then
        ({call with pc := .returned (-1), audio}, shm)
      else ({call with pc := .shmUnlink, audio}, shm)
  | .shmUnlink => ({call with pc := .shmOpen}, unlink shm name)
  | .shmOpen =>
    match if succeeds then createExclusive shm name blank else none with
    | none => ({call with pc := .returned (-1)}, shm)
    | some (fd, shm) => ({call with pc := .ftruncate, fd}, shm)
  | .ftruncate =>
    if succeeds then
      ({call with pc := .mapShared}, modify shm call.fd (fun o =>
        {o with size := mappingBytes format.channels.toUInt32 format.capacityFrames}))
    else ({call with pc := .failClose}, shm)
  | .mapShared =>
    match mapShared call.audio call.fd (mappingBytes format.channels.toUInt32 format.capacityFrames) succeeds with
    | none => ({call with pc := .failClose}, shm)
    | some audio => ({call with pc := .close, audio}, shm)
  | .failClose => ({call with pc := .failUnlink}, shm)
  | .failUnlink => ({call with pc := .returned (-1)}, unlink shm name)
  | .close => ({call with pc := .store 0}, shm)
  | .store field =>
    ({call with pc := if h : field.val + 1 < 6 then .store ⟨field.val + 1,h⟩ else .owner},
      modify shm call.fd (fun o => {o with header := headerStore format field.val o.header}))
  | .owner => ({call with pc := .returned 0, audio := {call.audio with owner := 1}}, shm)
  | .returned _ => (call, shm)

inductive OpenAt where
  | initHandle
  | shmOpen
  | fstat
  | failClose
  | mapShared
  | close
  | loadMagic
  | loadAbiVersion
  | loadHeaderBytes
  | loadChannels
  | loadCapacityFrames
  | loadChannelsAgain
  | loadCapacityFramesAgain (channels : UInt32)
  | sharedAudioClose
  | returned (result : Int)
  deriving DecidableEq, Repr

structure OpenCall where
  pc : OpenAt
  fd : Nat
  size : UInt64
  audio : Handle

/-- The loads go through the mapping, which shows the object the descriptor named. -/
def openStep (name : Name) (succeeds : Bool) (call : OpenCall) (shm : Shm) : OpenCall :=
  let header := (shm.objects call.fd).header
  match call.pc with
  | .initHandle =>
    match initHandle name with
    | none => {call with pc := .returned (-1)}
    | some audio => {call with pc := .shmOpen, audio}
  | .shmOpen =>
    match if succeeds then shm.refers name else none with
    | none => {call with pc := .returned (-1)}
    | some fd => {call with pc := .fstat, fd}
  | .fstat =>
    let size := (shm.objects call.fd).size
    if !succeeds || size < headerBytes.toUInt64 then {call with pc := .failClose}
    else {call with pc := .mapShared, size}
  | .failClose => {call with pc := .returned (-1)}
  | .mapShared =>
    match mapShared call.audio call.fd call.size succeeds with
    | none => {call with pc := .failClose}
    | some audio => {call with pc := .close, audio}
  | .close => {call with pc := .loadMagic}
  | .loadMagic => {call with pc := if header.magic = magic then .loadAbiVersion else .sharedAudioClose}
  | .loadAbiVersion =>
    {call with pc := if header.abiVersion = abiVersion then .loadHeaderBytes else .sharedAudioClose}
  | .loadHeaderBytes =>
    {call with pc := if header.headerBytes = headerBytes then .loadChannels else .sharedAudioClose}
  | .loadChannels => {call with pc := if header.channels = 0 then .sharedAudioClose else .loadCapacityFrames}
  | .loadCapacityFrames =>
    {call with pc := if header.capacityFrames = 0 then .sharedAudioClose else .loadChannelsAgain}
  | .loadChannelsAgain => {call with pc := .loadCapacityFramesAgain header.channels}
  | .loadCapacityFramesAgain channels =>
    {call with pc :=
      if call.size < mappingBytes channels header.capacityFrames then .sharedAudioClose else .returned 0}
  | .sharedAudioClose => {call with pc := .returned (-1), audio := sharedAudioClose call.audio}
  | .returned _ => call

structure System (ι : Type) where
  shm : Shm
  creators : ι → CreateCall
  opener : OpenCall

inductive Action (ι : Type) where
  | creates (c : ι) (succeeds : Bool)
  | opens (succeeds : Bool)

variable {ι : Type} [DecidableEq ι]

def step (name : Name) (formats : ι → RingFormat) (s : System ι) : Action ι → System ι
  | .creates c succeeds =>
    let moved := createStep name (formats c) succeeds (s.creators c) s.shm
    {s with shm := moved.2, creators := Function.update s.creators c moved.1}
  | .opens succeeds => {s with opener := openStep name succeeds s.opener s.shm}

def start (handles : ι → Handle) (handle : Handle) : System ι where
  shm := noNames blank
  creators := fun c => ⟨.initHandle,0,handles c⟩
  opener := ⟨.initHandle,0,0,handle⟩

def run (name : Name) (formats : ι → RingFormat) (s : System ι) (actions : List (Action ι)) : System ι :=
  actions.foldl (step name formats) s

def progress : CreateAt → Option Nat
  | .initHandle | .shmUnlink | .shmOpen | .failUnlink => none
  | .ftruncate | .mapShared | .failClose | .close => some 0
  | .store field => some field.val
  | .owner => some 6
  | .returned result => if result = 0 then some 6 else none

structure Quiet (before after : CreateCall) (shm shm' : Shm) : Prop where
  progress : progress after.pc = progress before.pc
  fd : after.fd = before.fd
  next : shm'.next = shm.next
  headers : ∀ object, (shm'.objects object).header = (shm.objects object).header

structure Begins (before after : CreateCall) (shm shm' : Shm) : Prop where
  progress : progress before.pc = none ∧ RingCreation.progress after.pc = some 0
  fd : after.fd = shm.next
  next : shm'.next = shm.next + 1
  fresh : (shm'.objects shm.next).header = blankHeader
  headers : ∀ object, object ≠ shm.next → (shm'.objects object).header = (shm.objects object).header

structure Stores (format : RingFormat) (before after : CreateCall) (shm shm' : Shm) : Prop where
  progress : ∃ field < 6, progress before.pc = some field ∧ RingCreation.progress after.pc = some (field + 1) ∧
    (shm'.objects before.fd).header = headerStore format field (shm.objects before.fd).header
  fd : after.fd = before.fd
  next : shm'.next = shm.next
  headers : ∀ object, object ≠ before.fd → (shm'.objects object).header = (shm.objects object).header

structure GivesUp (before after : CreateCall) (shm shm' : Shm) : Prop where
  progress : progress before.pc = some 0 ∧ RingCreation.progress after.pc = none
  same : shm' = shm

theorem createCases (name : Name) (format : RingFormat) (succeeds : Bool) (call : CreateCall) (shm : Shm) :
    Quiet call (createStep name format succeeds call shm).1 shm (createStep name format succeeds call shm).2 ∨
    Begins call (createStep name format succeeds call shm).1 shm (createStep name format succeeds call shm).2 ∨
    Stores format call (createStep name format succeeds call shm).1 shm
      (createStep name format succeeds call shm).2 ∨
    GivesUp call (createStep name format succeeds call shm).1 shm
      (createStep name format succeeds call shm).2 := by
  obtain ⟨pc,fd,audio⟩ := call
  cases pc with
  | initHandle =>
    refine Or.inl ?_
    simp only [createStep]
    split
    · exact ⟨rfl,rfl,rfl,fun _ => rfl⟩
    · split <;> exact ⟨rfl,rfl,rfl,fun _ => rfl⟩
  | shmUnlink => exact Or.inl ⟨rfl,rfl,rfl,fun _ => rfl⟩
  | shmOpen =>
    simp only [createStep]
    split
    · exact Or.inl ⟨rfl,rfl,rfl,fun _ => rfl⟩
    · rename_i object shm' created
      cases succeeds with
      | false => cases created
      | true =>
        obtain ⟨rfl,rfl⟩ := createdIs created
        refine Or.inr (Or.inl ⟨⟨rfl,rfl⟩,rfl,rfl,?_,?_⟩)
        · simp only [Function.update_self]
          rfl
        · intro object apart
          simp only [Function.update_of_ne apart]
  | ftruncate =>
    refine Or.inl ?_
    simp only [createStep]
    split
    · refine ⟨rfl,rfl,rfl,?_⟩
      intro object
      by_cases same : object = fd
      · subst same
        simp only [modifySame]
      · rw [modifyOther _ _ same]
    · exact ⟨rfl,rfl,rfl,fun _ => rfl⟩
  | mapShared =>
    refine Or.inl ?_
    simp only [createStep]
    split <;> exact ⟨rfl,rfl,rfl,fun _ => rfl⟩
  | failClose => exact Or.inr (Or.inr (Or.inr ⟨⟨rfl,rfl⟩,rfl⟩))
  | failUnlink => exact Or.inl ⟨rfl,rfl,rfl,fun _ => rfl⟩
  | close => exact Or.inl ⟨rfl,rfl,rfl,fun _ => rfl⟩
  | store field =>
    refine Or.inr (Or.inr (Or.inl ⟨⟨field.val,field.isLt,rfl,?_,?_⟩,rfl,rfl,?_⟩))
    · simp only [createStep]
      split
      · rfl
      · have last := field.isLt
        simp only [progress, Option.some.injEq]
        omega
    · simp only [createStep, modifySame]
    · intro object apart
      simp only [createStep]
      rw [modifyOther _ _ apart]
  | owner => exact Or.inl ⟨rfl,rfl,rfl,fun _ => rfl⟩
  | returned result => exact Or.inl ⟨rfl,rfl,rfl,fun _ => rfl⟩

variable {formats : ι → RingFormat} {name : Name}

structure Owned (formats : ι → RingFormat) (shm : Shm) (creators : ι → CreateCall) : Prop where
  headers : ∀ c n, progress (creators c).pc = some n → (creators c).fd < shm.next ∧ n ≤ 6 ∧
    (shm.objects (creators c).fd).header = headerStores (formats c) n blankHeader
  one : ∀ c c', progress (creators c).pc ≠ none → progress (creators c').pc ≠ none →
    (creators c).fd = (creators c').fd → c = c'
  made : ∀ object < shm.next, (shm.objects object).header = blankHeader ∨
    ∃ c, progress (creators c).pc ≠ none ∧ (creators c).fd = object

omit [DecidableEq ι] in
theorem ownedStart (formats : ι → RingFormat) (handles : ι → Handle) (handle : Handle) :
    Owned formats (start handles handle).shm (start handles handle).creators where
  headers := by
    intro c n begun
    cases begun
  one := by
    intro c c' begun
    exact absurd rfl begun
  made := by
    intro object created
    exact absurd created (Nat.not_lt_zero _)

section
variable {shm shm' : Shm} {creators : ι → CreateCall} {c : ι} {after : CreateCall}

theorem ownedQuiet (owned : Owned formats shm creators) (quiet : Quiet (creators c) after shm shm') :
    Owned formats shm' (Function.update creators c after) := by
  have same : ∀ d, progress (Function.update creators c after d).pc = progress (creators d).pc ∧
      (Function.update creators c after d).fd = (creators d).fd := by
    intro d
    by_cases moved : d = c
    · subst moved
      simp only [Function.update_self, quiet.progress, quiet.fd, and_self]
    · simp only [Function.update_of_ne moved, and_self]
  constructor
  · intro d n begun
    rw [(same d).1] at begun
    rw [(same d).2, quiet.headers, quiet.next]
    exact owned.headers d n begun
  · intro d d' begun begun'
    rw [(same d).1] at begun
    rw [(same d').1] at begun'
    rw [(same d).2, (same d').2]
    exact owned.one d d' begun begun'
  · intro object created
    rw [quiet.next] at created
    rw [quiet.headers]
    rcases owned.made object created with untouched | ⟨d,begun,its⟩
    · exact Or.inl untouched
    · exact Or.inr ⟨d,by rw [(same d).1]; exact begun,by rw [(same d).2]; exact its⟩

theorem ownedBegins (owned : Owned formats shm creators) (begins : Begins (creators c) after shm shm') :
    Owned formats shm' (Function.update creators c after) := by
  -- whoever else has an object has an older one
  have older : ∀ d, d ≠ c → progress (creators d).pc ≠ none → (creators d).fd < shm.next := by
    intro d _ begun
    obtain ⟨n,exactly⟩ := Option.ne_none_iff_exists'.mp begun
    exact (owned.headers d n exactly).1
  constructor
  · intro d n begun
    by_cases moved : d = c
    · subst moved
      simp only [Function.update_self] at begun ⊢
      rw [begins.progress.2] at begun
      cases Option.some.inj begun
      rw [begins.fd, begins.next, begins.fresh]
      exact ⟨Nat.lt_succ_self _,Nat.zero_le _,rfl⟩
    · simp only [Function.update_of_ne moved] at begun ⊢
      obtain ⟨created,le,contents⟩ := owned.headers d n begun
      rw [begins.next, begins.headers _ (Nat.ne_of_lt created)]
      exact ⟨by omega,le,contents⟩
  · intro d d' begun begun' same
    by_cases moved : d = c <;> by_cases moved' : d' = c
    · rw [moved, moved']
    · subst moved
      simp only [Function.update_self, Function.update_of_ne moved'] at same begun'
      have before := older d' moved' begun'
      rw [begins.fd] at same
      omega
    · subst moved'
      simp only [Function.update_self, Function.update_of_ne moved] at same begun
      have before := older d moved begun
      rw [begins.fd] at same
      omega
    · simp only [Function.update_of_ne moved, Function.update_of_ne moved'] at same begun begun'
      exact owned.one d d' begun begun' same
  · intro object created
    rw [begins.next] at created
    by_cases fresh : object = shm.next
    · exact Or.inl (by rw [fresh, begins.fresh])
    · rw [begins.headers object fresh]
      rcases owned.made object (by omega) with untouched | ⟨d,begun,its⟩
      · exact Or.inl untouched
      · have moved : d ≠ c := by
          rintro rfl
          exact begun begins.progress.1
        exact Or.inr ⟨d,by rwa [Function.update_of_ne moved],by rwa [Function.update_of_ne moved]⟩

theorem ownedStores (owned : Owned formats shm creators) (stores : Stores (formats c) (creators c) after shm shm') :
    Owned formats shm' (Function.update creators c after) := by
  obtain ⟨field,bound,begun,more,contents⟩ := stores.progress
  obtain ⟨created,_,before⟩ := owned.headers c field begun
  constructor
  · intro d n reached
    by_cases moved : d = c
    · subst moved
      simp only [Function.update_self] at reached ⊢
      rw [more] at reached
      cases Option.some.inj reached
      rw [stores.fd, stores.next, contents, before]
      exact ⟨created,bound,rfl⟩
    · simp only [Function.update_of_ne moved] at reached ⊢
      have apart : (creators d).fd ≠ (creators c).fd := fun same =>
        moved (owned.one d c (by rw [reached]; exact Option.some_ne_none _)
          (by rw [begun]; exact Option.some_ne_none _) same)
      rw [stores.next, stores.headers _ apart]
      exact owned.headers d n reached
  · have same : ∀ d, (progress (Function.update creators c after d).pc ≠ none ↔ progress (creators d).pc ≠ none) ∧
        (Function.update creators c after d).fd = (creators d).fd := by
      intro d
      by_cases moved : d = c
      · subst moved
        simp only [Function.update_self, more, begun, stores.fd, ne_eq, reduceCtorEq, not_false_eq_true, and_self]
      · simp only [Function.update_of_ne moved, and_self]
    intro d d' reached reached'
    rw [(same d).2, (same d').2]
    exact owned.one d d' ((same d).1.mp reached) ((same d').1.mp reached')
  · intro object exists_
    rw [stores.next] at exists_
    by_cases its : object = (creators c).fd
    · refine Or.inr ⟨c,?_,?_⟩
      · rw [Function.update_self, more]
        exact Option.some_ne_none _
      · rw [Function.update_self, stores.fd, its]
    · rw [stores.headers object its]
      rcases owned.made object exists_ with untouched | ⟨d,reached,same⟩
      · exact Or.inl untouched
      · have moved : d ≠ c := by
          rintro rfl
          exact its same.symm
        exact Or.inr ⟨d,by rwa [Function.update_of_ne moved],by rwa [Function.update_of_ne moved]⟩

theorem ownedGivesUp (owned : Owned formats shm creators) (gives : GivesUp (creators c) after shm shm') :
    Owned formats shm' (Function.update creators c after) := by
  have same := gives.same
  subst same
  obtain ⟨begun,gone⟩ := gives.progress
  have others : ∀ d, progress (Function.update creators c after d).pc ≠ none →
      d ≠ c ∧ Function.update creators c after d = creators d := by
    intro d reached
    have moved : d ≠ c := by
      rintro rfl
      rw [Function.update_self] at reached
      exact reached gone
    exact ⟨moved,Function.update_of_ne moved ..⟩
  constructor
  · intro d n reached
    have kept := (others d (by rw [reached]; exact Option.some_ne_none _)).2
    rw [kept] at reached ⊢
    exact owned.headers d n reached
  · intro d d' reached reached' alike
    have kept := (others d reached).2
    have kept' := (others d' reached').2
    rw [kept] at reached alike
    rw [kept'] at reached' alike
    exact owned.one d d' reached reached' alike
  · intro object created
    rcases owned.made object created with untouched | ⟨d,reached,its⟩
    · exact Or.inl untouched
    · by_cases moved : d = c
      · subst moved
        rw [← its]
        exact Or.inl (owned.headers d 0 begun).2.2
      · exact Or.inr ⟨d,by rwa [Function.update_of_ne moved],by rwa [Function.update_of_ne moved]⟩

end

theorem ownedCreates {s : System ι} (owned : Owned formats s.shm s.creators) (c : ι) (succeeds : Bool) :
    Owned formats (step name formats s (.creates c succeeds)).shm
      (step name formats s (.creates c succeeds)).creators := by
  rcases createCases name (formats c) succeeds (s.creators c) s.shm with quiet | begins | stores | gives
  · exact ownedQuiet owned quiet
  · exact ownedBegins owned begins
  · exact ownedStores owned stores
  · exact ownedGivesUp owned gives

theorem closedCreates {shm : Shm} (closed : Closed shm) (format : RingFormat) (succeeds : Bool) (call : CreateCall) :
    Closed (createStep name format succeeds call shm).2 := by
  obtain ⟨pc,fd,audio⟩ := call
  cases pc with
  | initHandle =>
    simp only [createStep]
    split
    · exact closed
    · split <;> exact closed
  | shmUnlink => exact unlinkClosed closed name
  | shmOpen =>
    simp only [createStep]
    split
    · exact closed
    · rename_i created
      cases succeeds with
      | false => cases created
      | true => exact createClosed closed created
  | ftruncate =>
    simp only [createStep]
    split
    · exact modifyClosed closed _ _
    · exact closed
  | mapShared =>
    simp only [createStep]
    split <;> exact closed
  | failUnlink => exact unlinkClosed closed name
  | store field => exact modifyClosed closed _ _
  | failClose | close | owner | returned => exact closed

def createAlone (name : Name) (format : RingFormat) (call : CreateCall) (shm : Shm) (outcomes : List Bool) :
    CreateCall × Shm :=
  outcomes.foldl (fun s succeeds => createStep name format succeeds s.1 s.2) (call,shm)

def outcomes (calls : CreateCalls) : List Bool :=
  [true,true,calls.shmOpen,calls.ftruncate,calls.mmap] ++ List.replicate 8 true

theorem storesSoFar (name : Name) (format : RingFormat) (fd : Nat) (audio : Handle) (shm : Shm) {n : Nat}
    (more : n < 6) : createAlone name format ⟨.close,fd,audio⟩ shm (List.replicate (n + 1) true) =
      (⟨.store ⟨n,more⟩,fd,audio⟩,
        modify shm fd (fun o => {o with header := headerStores format n o.header})) := by
  induction n with
  | zero => exact Prod.ext rfl (modifySelf shm fd).symm
  | succ n ih =>
    have before := ih (by omega)
    unfold createAlone at before ⊢
    rw [List.replicate_succ', List.foldl_append, before]
    simp only [List.foldl, createStep, modifyTwice, more, dif_pos, headerStores]

theorem storesAlone (name : Name) (format : RingFormat) (fd : Nat) (audio : Handle) (shm : Shm) :
    createAlone name format ⟨.close,fd,audio⟩ shm (List.replicate 8 true) =
      (⟨.returned 0,fd,{audio with owner := 1}⟩,
        modify shm fd (fun o => {o with header := headerStores format 6 o.header})) := by
  have before := storesSoFar name format fd audio shm (n := 5) (by omega)
  unfold createAlone at before ⊢
  rw [show List.replicate 8 true = List.replicate 6 true ++ [true,true] from rfl, List.foldl_append, before]
  have last : ∀ t, createStep name format true ⟨.store ⟨5,by omega⟩,fd,audio⟩ t =
      (⟨.owner,fd,audio⟩,modify t fd (fun o => {o with header := headerStore format 5 o.header})) := fun _ => rfl
  simp only [List.foldl, last, modifyTwice]
  rfl

theorem returnedAlone (name : Name) (format : RingFormat) (result : Int) (fd : Nat) (audio : Handle) (shm : Shm)
    (outcomes : List Bool) :
    createAlone name format ⟨.returned result,fd,audio⟩ shm outcomes = (⟨.returned result,fd,audio⟩,shm) := by
  induction outcomes with
  | nil => rfl
  | cons succeeds rest ih => exact ih

theorem createAloneIs (name : Name) (format : RingFormat) (calls : CreateCalls) (audio : Handle) (shm : Shm) :
    let whole := sharedAudioCreate audio shm name format calls
    let alone := createAlone name format ⟨.initHandle,0,audio⟩ shm (outcomes calls)
    alone.1.pc = .returned whole.1 ∧ alone.1.audio = whole.2.1 ∧ alone.2 = whole.2.2 := by
  obtain ⟨opened,truncated,mapped⟩ := calls
  have free : (unlink shm name).refers name = none := unlinkSame shm name
  have onward : ∀ call shm first rest, createAlone name format call shm (first :: rest) =
      createAlone name format (createStep name format first call shm).1
        (createStep name format first call shm).2 rest := fun _ _ _ _ => rfl
  simp only [outcomes, List.cons_append, List.nil_append]
  cases valid : initHandle name with
  | none => simp only [onward, createStep, sharedAudioCreate, valid, returnedAlone, and_self]
  | some handle =>
    by_cases zero : format.sampleRate = 0 ∨ format.channels = 0 ∨ format.capacityFrames = 0
    · simp only [onward, createStep, sharedAudioCreate, valid, zero, if_true, returnedAlone, and_self]
    · cases opened with
      | false =>
        simp only [onward, createStep, sharedAudioCreate, valid, zero, if_false, Bool.false_eq_true, returnedAlone,
          and_self]
      | true =>
      cases truncated with
      | false =>
        simp only [onward, createStep, sharedAudioCreate, valid, zero, if_true, if_false, Bool.false_eq_true,
          createFree free, List.replicate, returnedAlone, and_self]
      | true =>
      cases mapped with
      | false =>
        simp only [onward, createStep, sharedAudioCreate, valid, zero, if_true, if_false, Bool.false_eq_true,
          createFree free, mapShared, List.replicate, returnedAlone, and_self]
      | true =>
        simp only [onward, createStep, sharedAudioCreate, valid, zero, if_true, if_false, createFree free, mapShared,
          storesAlone, and_self]
end ReacJack.RingCreation
