import ReacJack.RingCreation

/-! What an open call may rely on while rings are being created, replaced and
abandoned under its name: a header that shows a capacity is finished, and its
creator never touches it again. -/
namespace ReacJack.RingCreation
open SharedAudio (Header)
open ObjectNames SharedMapping

variable {ι : Type} [DecidableEq ι] {formats : ι → RingFormat} {name : Name}

def Complete (s : System ι) (object : Nat) : Prop :=
  ∃ c, progress (s.creators c).pc = some 6 ∧ (s.creators c).fd = object

theorem capacityLast (format : RingFormat) {n : Nat} (early : n < 6) :
    (headerStores format n blankHeader).capacityFrames = 0 := by
  rcases n with _ | _ | _ | _ | _ | _ | n
  case succ.succ.succ.succ.succ.succ => omega
  all_goals rfl

omit [DecidableEq ι] in
theorem capacityCompletes {s : System ι} (owned : Owned formats s.shm s.creators) {object : Nat}
    (created : object < s.shm.next) (capacity : (s.shm.objects object).header.capacityFrames ≠ 0) :
    Complete s object := by
  -- The capacity is stored last: a header that shows one shows everything.
  rcases owned.made object created with untouched | ⟨c,begun,its⟩
  · rw [untouched] at capacity
    exact absurd rfl capacity
  · obtain ⟨n,reached⟩ := Option.ne_none_iff_exists'.mp begun
    obtain ⟨_,le,contents⟩ := owned.headers c n reached
    rw [its] at contents
    rw [contents] at capacity
    refine ⟨c,?_,its⟩
    rw [reached]
    congr 1
    by_contra few
    exact capacity (capacityLast (formats c) (by omega))

theorem completeStays {s : System ι} (owned : Owned formats s.shm s.creators) (c : ι) (succeeds : Bool)
    {object : Nat} (complete : Complete s object) :
    Complete (step name formats s (.creates c succeeds)) object ∧
      ((step name formats s (.creates c succeeds)).shm.objects object).header =
        (s.shm.objects object).header := by
  obtain ⟨d,all,its⟩ := complete
  have created := (owned.headers d 6 all).1
  have begun : progress (s.creators d).pc ≠ none := by
    rw [all]
    exact Option.some_ne_none _
  -- a step of another call leaves this one as it is
  have other : d ≠ c → Complete (step name formats s (.creates c succeeds)) object := by
    intro apart
    refine ⟨d,?_,?_⟩ <;> simp only [step, Function.update_of_ne apart]
    · exact all
    · exact its
  rcases createCases name (formats c) succeeds (s.creators c) s.shm with quiet | begins | stores | gives
  · refine ⟨?_,quiet.headers object⟩
    by_cases apart : d = c
    · subst apart
      refine ⟨d,?_,?_⟩ <;> simp only [step, Function.update_self]
      · rw [quiet.progress, all]
      · rw [quiet.fd, its]
    · exact other apart
  · refine ⟨other ?_,begins.headers object (by omega)⟩
    rintro rfl
    exact begun begins.progress.1
  · obtain ⟨field,bound,storing,_,_⟩ := stores.progress
    have apart : d ≠ c := by
      rintro rfl
      rw [all, Option.some.injEq] at storing
      omega
    refine ⟨other apart,stores.headers object ?_⟩
    rintro rfl
    exact apart (owned.one d c begun (by rw [storing]; exact Option.some_ne_none _) its)
  · refine ⟨other ?_,?_⟩
    · rintro rfl
      have holding := gives.progress.1
      rw [all] at holding
      exact absurd holding (by decide)
    · simp only [step, gives.same]

def Mapped (s : System ι) : Prop :=
  s.opener.audio.header = some s.opener.fd ∧ s.opener.audio.mappedBytes = s.opener.size ∧
    s.opener.fd < s.shm.next

def Covers (s : System ι) : Prop :=
  neededBytes (s.shm.objects s.opener.fd).header.channels.toNat
    (s.shm.objects s.opener.fd).header.capacityFrames.toNat ≤ s.opener.audio.mappedBytes.toNat

def OpenerKnows (s : System ι) : Prop :=
  match s.opener.pc with
  | .initHandle => True
  | .shmOpen => s.opener.audio.header = none
  | .fstat | .failClose | .mapShared => s.opener.audio.header = none ∧ s.opener.fd < s.shm.next
  | .close | .loadMagic | .loadAbiVersion | .loadHeaderBytes | .loadChannels | .loadCapacityFrames
  | .sharedAudioClose => Mapped s
  | .loadChannelsAgain => Mapped s ∧ Complete s s.opener.fd
  | .loadCapacityFramesAgain channels => Mapped s ∧ Complete s s.opener.fd ∧
    channels = (s.shm.objects s.opener.fd).header.channels
  | .returned result => (result = -1 ∧ s.opener.audio.header = none) ∨
    (result = 0 ∧ Mapped s ∧ Complete s s.opener.fd ∧ Covers s)

theorem nextCreates (s : System ι) (c : ι) (succeeds : Bool) :
    s.shm.next ≤ (step name formats s (.creates c succeeds)).shm.next := by
  rcases createCases name (formats c) succeeds (s.creators c) s.shm with quiet | begins | stores | gives
  · exact Nat.le_of_eq quiet.next.symm
  · exact Nat.le_trans (Nat.le_succ _) (Nat.le_of_eq begins.next.symm)
  · exact Nat.le_of_eq stores.next.symm
  · simp only [step, gives.same, Nat.le_refl]

theorem knowsCreates {s : System ι} (owned : Owned formats s.shm s.creators) (c : ι) (succeeds : Bool)
    (knows : OpenerKnows s) : OpenerKnows (step name formats s (.creates c succeeds)) := by
  have grows : s.shm.next ≤ (step name formats s (.creates c succeeds)).shm.next := nextCreates s c succeeds
  have stays : ∀ object, Complete s object → Complete (step name formats s (.creates c succeeds)) object ∧
      ((step name formats s (.creates c succeeds)).shm.objects object).header = (s.shm.objects object).header :=
    fun _ complete => completeStays owned c succeeds complete
  have mapped : Mapped s → Mapped (step name formats s (.creates c succeeds)) :=
    fun m => ⟨m.1,m.2.1,m.2.2.trans_le grows⟩
  have same : (step name formats s (.creates c succeeds)).opener = s.opener := rfl
  unfold OpenerKnows at knows ⊢
  rw [same]
  cases at_ : s.opener.pc <;> simp only [at_] at knows ⊢
  case shmOpen => exact knows
  case fstat | failClose | mapShared => exact ⟨knows.1,knows.2.trans_le grows⟩
  case close | loadMagic | loadAbiVersion | loadHeaderBytes | loadChannels | loadCapacityFrames
      | sharedAudioClose => exact mapped knows
  case loadChannelsAgain => exact ⟨mapped knows.1,(stays _ knows.2).1⟩
  case loadCapacityFramesAgain channels =>
    obtain ⟨complete,kept⟩ := stays _ knows.2.1
    exact ⟨mapped knows.1,complete,by rw [kept]; exact knows.2.2⟩
  case returned result =>
    rcases knows with failed | ⟨zero,m,whole,covers⟩
    · exact Or.inl failed
    · obtain ⟨complete,kept⟩ := stays _ whole
      refine Or.inr ⟨zero,mapped m,complete,?_⟩
      unfold Covers at covers ⊢
      rw [same, kept]
      exact covers

omit [DecidableEq ι] in
theorem completeHeader {s : System ι} (owned : Owned formats s.shm s.creators) {object : Nat}
    (complete : Complete s object) :
    ∃ c, (s.shm.objects object).header = headerStores (formats c) 6 blankHeader := by
  obtain ⟨c,all,rfl⟩ := complete
  exact ⟨c,(owned.headers c 6 all).2.2⟩

theorem neededSmall (format : RingFormat) :
    neededBytes format.channels.toUInt32.toNat format.capacityFrames.toNat < 2 ^ 64 := by
  have product : format.channels.toUInt32.toNat * format.capacityFrames.toNat < 2 ^ 16 * 2 ^ 32 := by
    rw [UInt16.toNat_toUInt32]
    exact Nat.mul_lt_mul'' format.channels.toNat_lt format.capacityFrames.toNat_lt
  unfold neededBytes
  omega

omit [DecidableEq ι] in
theorem coversOfCheck {s : System ι} (owned : Owned formats s.shm s.creators) (mapped : Mapped s)
    (complete : Complete s s.opener.fd)
    (fits : ¬ s.opener.size < mappingBytes (s.shm.objects s.opener.fd).header.channels
      (s.shm.objects s.opener.fd).header.capacityFrames) : Covers s := by
  obtain ⟨c,contents⟩ := completeHeader owned complete
  have small := neededSmall (formats c)
  rw [UInt64.lt_iff_toNat_lt, mappingBytesToNat, contents] at fits
  unfold Covers
  rw [mapped.2.1, contents]
  change ¬ s.opener.size.toNat < neededBytes (formats c).channels.toUInt32.toNat
    (formats c).capacityFrames.toNat % 2 ^ 64 at fits
  rw [Nat.mod_eq_of_lt small] at fits
  exact Nat.not_lt.mp fits

theorem knowsOpens {s : System ι} (valid : ∃ audio, initHandle name = some audio)
    (owned : Owned formats s.shm s.creators) (closed : Closed s.shm) (succeeds : Bool) (knows : OpenerKnows s) :
    OpenerKnows (step name formats s (.opens succeeds)) := by
  obtain ⟨audio,handle⟩ := valid
  obtain ⟨shm,creators,⟨pc,fd,size,held⟩⟩ := s
  cases pc with
  | initHandle =>
    obtain ⟨slash,short⟩ := initHandleName handle
    simp only [OpenerKnows, step, openStep, initHandleValid slash short]
  | shmOpen =>
    simp only [OpenerKnows, step, openStep] at knows ⊢
    cases succeeds with
    | false => exact Or.inl ⟨rfl,knows⟩
    | true =>
      simp only [if_true]
      cases refers : shm.refers name with
      | none => exact Or.inl ⟨rfl,knows⟩
      | some object => exact ⟨knows,closed name object refers⟩
  | fstat =>
    by_cases short : !succeeds || decide ((shm.objects fd).size < headerBytes.toUInt64)
    · simp only [OpenerKnows, step, openStep, short, if_true]
      exact knows
    · simp only [OpenerKnows, step, openStep, short, if_false, Bool.false_eq_true]
      exact knows
  | failClose => exact Or.inl ⟨rfl,knows.1⟩
  | mapShared =>
    cases succeeds with
    | false => exact knows
    | true => exact ⟨rfl,rfl,knows.2⟩
  | close => exact knows
  | loadMagic =>
    by_cases matches_ : (shm.objects fd).header.magic = magic <;>
      simp only [OpenerKnows, step, openStep, matches_, if_true, if_false] <;> exact knows
  | loadAbiVersion =>
    by_cases matches_ : (shm.objects fd).header.abiVersion = abiVersion <;>
      simp only [OpenerKnows, step, openStep, matches_, if_true, if_false] <;> exact knows
  | loadHeaderBytes =>
    by_cases matches_ : (shm.objects fd).header.headerBytes = headerBytes <;>
      simp only [OpenerKnows, step, openStep, matches_, if_true, if_false] <;> exact knows
  | loadChannels =>
    by_cases none : (shm.objects fd).header.channels = 0 <;>
      simp only [OpenerKnows, step, openStep, none, if_true, if_false] <;> exact knows
  | loadCapacityFrames =>
    by_cases none : (shm.objects fd).header.capacityFrames = 0
    · simp only [OpenerKnows, step, openStep, none, if_true]
      exact knows
    · simp only [OpenerKnows, step, openStep, none, if_false]
      exact ⟨knows,capacityCompletes owned knows.2.2 none⟩
  | loadChannelsAgain => exact ⟨knows.1,knows.2,rfl⟩
  | loadCapacityFramesAgain channels =>
    obtain ⟨mapped,complete,loaded⟩ := knows
    simp only at loaded
    by_cases short : size < mappingBytes channels (shm.objects fd).header.capacityFrames
    · simp only [OpenerKnows, step, openStep, short, if_true]
      exact mapped
    · have covers := coversOfCheck owned mapped complete (by simp only [← loaded]; exact short)
      simp only [OpenerKnows, step, openStep, short, if_false]
      exact Or.inr ⟨trivial,mapped,complete,covers⟩
  | sharedAudioClose =>
    refine Or.inl ⟨rfl,?_⟩
    simp only [step, openStep, SharedMapping.sharedAudioClose]
    split
    · assumption
    · rfl
  | returned result => exact knows

def openAlone (name : Name) (call : OpenCall) (shm : Shm) (outcomes : List Bool) : OpenCall :=
  outcomes.foldl (fun call succeeds => openStep name succeeds call shm) call

def openOutcomes (calls : OpenCalls) : List Bool :=
  [true,calls.shmOpen,calls.fstat,calls.mmap] ++ List.replicate 9 true

theorem openOnward (name : Name) (call : OpenCall) (shm : Shm) (first : Bool) (rest : List Bool) :
    openAlone name call shm (first :: rest) = openAlone name (openStep name first call shm) shm rest := rfl

theorem openReturned (name : Name) (result : Int) (fd : Nat) (size : UInt64) (audio : Handle) (shm : Shm)
    (outcomes : List Bool) :
    openAlone name ⟨.returned result,fd,size,audio⟩ shm outcomes = ⟨.returned result,fd,size,audio⟩ := by
  induction outcomes with
  | nil => rfl
  | cons succeeds rest ih => exact ih

theorem checksAlone (name : Name) (fd : Nat) (size : UInt64) (audio : Handle) (shm : Shm) :
    openAlone name ⟨.close,fd,size,audio⟩ shm (List.replicate 9 true) =
      if headerAccepted (shm.objects fd).header size then ⟨.returned 0,fd,size,audio⟩
      else ⟨.returned (-1),fd,size,SharedMapping.sharedAudioClose audio⟩ := by
  simp only [List.replicate, openOnward]
  by_cases magic_ : (shm.objects fd).header.magic = magic
  swap
  · simp only [openStep, headerAccepted, magic_, if_false, decide_false, Bool.false_and, Bool.false_eq_true,
      openReturned]
  by_cases abi : (shm.objects fd).header.abiVersion = abiVersion
  swap
  · simp only [openStep, headerAccepted, magic_, abi, if_true, if_false, decide_true, decide_false, Bool.true_and,
      Bool.false_and, Bool.false_eq_true]
    rfl
  by_cases bytes : (shm.objects fd).header.headerBytes = headerBytes
  swap
  · simp only [openStep, headerAccepted, magic_, abi, bytes, if_true, if_false, decide_true, decide_false,
      Bool.true_and, Bool.false_and, Bool.false_eq_true]
    rfl
  by_cases channels : (shm.objects fd).header.channels = 0
  · simp [openStep, headerAccepted, magic_, abi, bytes, channels, openReturned]
  by_cases capacity : (shm.objects fd).header.capacityFrames = 0
  · simp [openStep, headerAccepted, magic_, abi, bytes, channels, capacity, openReturned]
  by_cases short : size < mappingBytes (shm.objects fd).header.channels (shm.objects fd).header.capacityFrames
  · have wrong : ¬ mappingBytes (shm.objects fd).header.channels (shm.objects fd).header.capacityFrames ≤ size := by
      rwa [UInt64.not_le]
    simp [openStep, headerAccepted, magic_, abi, bytes, channels, capacity, short, wrong]
    rfl
  · have right : mappingBytes (shm.objects fd).header.channels (shm.objects fd).header.capacityFrames ≤ size := by
      rwa [UInt64.not_lt] at short
    simp [openStep, headerAccepted, magic_, abi, bytes, channels, capacity, short, right]
    rfl

theorem openAloneIs (name : Name) (calls : OpenCalls) (audio : Handle) (shm : Shm) :
    let whole := sharedAudioOpen audio shm name calls
    let alone := openAlone name ⟨.initHandle,0,0,audio⟩ shm (openOutcomes calls)
    alone.pc = .returned whole.1 ∧ alone.audio = whole.2 := by
  obtain ⟨opened,stat,mapped⟩ := calls
  simp only [openOutcomes, List.cons_append, List.nil_append, openOnward]
  cases valid : initHandle name with
  | none => simp only [openStep, sharedAudioOpen, valid, openReturned, and_self]
  | some handle =>
    cases refers : (if opened then shm.refers name else none) with
    | none => simp only [openStep, sharedAudioOpen, valid, refers, openReturned, and_self]
    | some fd =>
      by_cases short : !stat || decide ((shm.objects fd).size < headerBytes.toUInt64)
      · simp only [openStep, sharedAudioOpen, valid, refers, short, if_true, List.replicate, openOnward,
          openReturned, and_self]
      · cases mapped with
        | false =>
          simp only [openStep, sharedAudioOpen, valid, refers, short, if_false, mapShared, List.replicate, openOnward,
            openReturned, Bool.false_eq_true, and_self]
        | true =>
          simp only [openStep, sharedAudioOpen, valid, refers, short, if_false, if_true, mapShared, checksAlone,
            Bool.false_eq_true]
          split <;> exact ⟨rfl,rfl⟩
structure Safe (formats : ι → RingFormat) (s : System ι) : Prop where
  owned : Owned formats s.shm s.creators
  closed : Closed s.shm
  knows : OpenerKnows s

theorem safeStep (valid : ∃ audio, initHandle name = some audio) (s : System ι) (action : Action ι)
    (safe : Safe formats s) : Safe formats (step name formats s action) := by
  cases action with
  | creates c succeeds => exact ⟨ownedCreates safe.owned c succeeds,closedCreates safe.closed _ _ _,
      knowsCreates safe.owned c succeeds safe.knows⟩
  | opens succeeds => exact ⟨safe.owned,safe.closed,knowsOpens valid safe.owned safe.closed succeeds safe.knows⟩

theorem safeRun (valid : ∃ audio, initHandle name = some audio) (formats : ι → RingFormat)
    (handles : ι → Handle) (handle : Handle) (actions : List (Action ι)) :
    Safe formats (run name formats (start handles handle) actions) :=
  TransitionRuns.foldInvariant (safeStep valid)
    ⟨ownedStart formats handles handle,noNamesClosed blank,trivial⟩

structure HeaderOf (format : RingFormat) (header : Header) : Prop where
  magic : header.magic = magic
  abiVersion : header.abiVersion = abiVersion
  headerBytes : header.headerBytes = headerBytes
  sampleRate : header.sampleRate = format.sampleRate
  channels : header.channels = format.channels.toUInt32
  capacityFrames : header.capacityFrames = format.capacityFrames

def remaining : OpenAt → Nat
  | .initHandle => 13
  | .shmOpen => 12
  | .fstat => 11
  | .mapShared => 10
  | .close => 9
  | .loadMagic => 8
  | .loadAbiVersion => 7
  | .loadHeaderBytes => 6
  | .loadChannels => 5
  | .loadCapacityFrames => 4
  | .loadChannelsAgain => 3
  | .loadCapacityFramesAgain _ => 2
  | .sharedAudioClose | .failClose => 1
  | .returned _ => 0

theorem remainingStep (name : Name) (succeeds : Bool) (call : OpenCall) (shm : Shm) :
    remaining (openStep name succeeds call shm).pc ≤ remaining call.pc - 1 := by
  obtain ⟨pc,fd,size,audio⟩ := call
  cases pc <;> simp only [openStep] <;> (try split) <;> simp only [remaining, Nat.le_refl] <;> omega

def isOpen : Action ι → Bool
  | .creates _ _ => false
  | .opens _ => true

theorem remainingRun (name : Name) (formats : ι → RingFormat) (s : System ι) (actions : List (Action ι)) :
    remaining (run name formats s actions).opener.pc ≤ remaining s.opener.pc - actions.countP isOpen := by
  induction actions generalizing s with
  | nil => exact Nat.le_refl _
  | cons action rest ih =>
    have later := ih (step name formats s action)
    cases action with
    | creates c succeeds =>
      rw [List.countP_cons_of_neg (by simp [isOpen])]
      exact later
    | opens succeeds =>
      have moved := remainingStep name succeeds s.opener s.shm
      rw [List.countP_cons_of_pos rfl]
      refine later.trans ?_
      simp only [step]
      omega

theorem returnedOfRemaining {pc : OpenAt} (none : remaining pc = 0) : ∃ result, pc = .returned result := by
  cases pc <;> first
    | exact ⟨_,rfl⟩
    | cases none

/-- No half-initialised ring is accepted, whatever the creators do meanwhile. -/
theorem opensWholeRings (name : Name) (slash : name.head? = some 47) (short : name.length < nameMax)
    (formats : ι → RingFormat) (handles : ι → Handle) (handle : Handle) (actions : List (Action ι)) :
    (13 ≤ actions.countP isOpen →
      ∃ result, (run name formats (start handles handle) actions).opener.pc = .returned result) ∧
    ∀ result, (run name formats (start handles handle) actions).opener.pc = .returned result →
      (result = -1 ∧ (run name formats (start handles handle) actions).opener.audio.header = none) ∨
      (result = 0 ∧ ∃ object c,
        (run name formats (start handles handle) actions).opener.audio.header = some object ∧
        HeaderOf (formats c) ((run name formats (start handles handle) actions).shm.objects object).header ∧
        neededBytes (formats c).channels.toNat (formats c).capacityFrames.toNat ≤
          (run name formats (start handles handle) actions).opener.audio.mappedBytes.toNat) := by
  have safe := safeRun ⟨_,initHandleValid slash short⟩ formats handles handle actions
  constructor
  · intro enough
    have left : _ ≤ 13 - actions.countP isOpen := remainingRun name formats (start handles handle) actions
    exact returnedOfRemaining (by omega)
  · intro result returned
    have knows := safe.knows
    unfold OpenerKnows at knows
    rw [returned] at knows
    rcases knows with failed | ⟨zero,mapped,complete,covers⟩
    · exact Or.inl failed
    · obtain ⟨c,contents⟩ := completeHeader safe.owned complete
      refine Or.inr ⟨zero,_,c,mapped.1,?_,?_⟩
      · rw [contents]
        exact ⟨rfl,rfl,rfl,rfl,rfl,rfl⟩
      · unfold Covers at covers
        rw [contents] at covers
        exact covers

def stereo : RingFormat := ⟨48000,2,480⟩

def createThenOpen : List (Action Unit) :=
  List.replicate 13 (.creates () true) ++ List.replicate 13 (.opens true)

def closedHandle : Handle := ⟨none,none,0,0,[]⟩

def afterOpen : System Unit :=
  run [47, 114] (fun _ => stereo) (start (fun _ => closedHandle) closedHandle) createThenOpen

theorem opensStereo :
    afterOpen.opener.pc = .returned 0 ∧ ∃ object, afterOpen.opener.audio.header = some object ∧
      HeaderOf stereo (afterOpen.shm.objects object).header ∧
      neededBytes 2 480 ≤ afterOpen.opener.audio.mappedBytes.toNat := by
  have whole := (opensWholeRings [47, 114] (by decide) (by decide) (fun _ => stereo)
    (fun _ => closedHandle) closedHandle createThenOpen).2 0
  have returned : afterOpen.opener.pc = .returned 0 := by decide +kernel
  unfold afterOpen at returned ⊢
  rcases whole returned with failed | ⟨_,object,_,mapped,header,covers⟩
  · exact absurd failed.1 (by decide)
  · exact ⟨returned,object,mapped,header,covers⟩

end ReacJack.RingCreation
