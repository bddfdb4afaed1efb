import ReacJack.RingThreads

/-! A call whose steps nobody interrupts is the whole-call function on the ring. -/
namespace ReacJack.RingSequential
open BufferLoops TransitionRuns SharedAudio SharedFifo RingThreads

variable {α : Type}

theorem takeFirst {pending : List (List Copy)} {copy : Copy} {later : List Copy}
    (flat : pending.flatten = copy :: later) :
    ∃ rest, takeCopy 0 pending = some (copy,rest) ∧ rest.flatten = later := by
  induction pending with
  | nil => contradiction
  | cons current tail ih =>
    cases current with
    | nil => exact ih flat
    | cons c cs =>
      rw [List.flatten_cons, List.cons_append, List.cons.injEq] at flat
      obtain ⟨rfl,rfl⟩ := flat
      exact ⟨cs :: tail,rfl,rfl⟩

def storeAll (samples : Nat → α) (channels : Nat → Nat → α) (copies : List Copy) : Nat → α :=
  copies.foldl (fun d c => put d c.slot (channels c.channel c.frame)) samples

theorem putsMemcpy (dst : Nat → α) (start : Nat) (src : Nat → α) (n : Nat) :
    (List.range n).foldl (fun d i => put d (start + i) (src i)) dst = memcpy dst start src n := by
  induction n with
  | zero => rw [memcpyNothing]; rfl
  | succ n ih =>
    rw [List.range_succ, List.foldl_append, ih]
    funext i
    by_cases here : i = start + n
    · subst here
      rw [memcpyInside _ _ (by omega) (by omega), Nat.add_sub_cancel_left]
      exact putHere _ _ _
    · refine (putElsewhere _ _ here).trans ?_
      unfold memcpy
      refine if_congr ?_ rfl rfl
      omega

theorem storeBlock (samples : Nat → α) (channels : Nat → Nat → α) (n : Nat)
    (capacity index frames : UInt32) :
    storeAll samples channels (blockCopies n capacity index frames).flatten =
      loop n (fun ch samples => writeChannel samples (ch * capacity.toNat) index
        (firstPart frames capacity index) frames (channels ch)) samples := by
  induction n with
  | zero => rfl
  | succ n ih =>
    simp only [storeAll, blockCopies, List.range_succ, List.flatMap_append, List.flatten_append,
      List.foldl_append, List.flatMap_singleton, List.flatten_cons, loopSucc] at ih ⊢
    rw [ih]
    unfold writeChannel
    split
    · simp only [List.flatten_cons, List.flatten_nil, List.append_nil, List.foldl_map, putsMemcpy]
    · simp only [List.flatten_nil, List.foldl_nil, List.foldl_map, putsMemcpy]

theorem drainWriter {copies : List Copy} {s : Threads α} {channels : Nat → Nat → α} {frames : UInt32}
    {writePos : UInt64} {pending : List (List Copy)}
    (at_ : s.writer = .copying channels frames writePos pending) (flat : pending.flatten = copies) :
    ∃ s', Reaches step s s' ∧ s'.writer = .idle ∧ s'.reader = s.reader ∧ s'.ring = {
        samples := storeAll s.ring.samples channels copies
        header := {s.ring.header with writePos := writePos + frames.toUInt64}} := by
  induction copies generalizing s pending with
  | nil =>
    have taken : step s (.writer 0) = some {s with
        ring := {s.ring with header := {s.ring.header with writePos := writePos + frames.toUInt64}}
        writer := .idle
        accepted := s.accepted ++ block channels frames.toNat} := by
      simp only [step, stepWriter, at_, flat, List.isEmpty_nil, if_true]
    exact ⟨_,reachesStep taken (reachesHere _),rfl,rfl,rfl⟩
  | cons copy later ih =>
    obtain ⟨rest,chosen,flat'⟩ := takeFirst flat
    let value := channels copy.channel copy.frame
    have taken : step s (.writer 0) = some {s with
        ring := {s.ring with samples := put s.ring.samples copy.slot value}
        writer := .copying channels frames writePos rest
        stores := s.stores ++ [⟨writePos.toNat + copy.frame,copy.channel,value⟩]} := by
      simp only [step, stepWriter, at_, flat, chosen, List.isEmpty_cons, Bool.false_eq_true, if_false,
        Option.map_some]
      rfl
    obtain ⟨s',reached,idle,reader,ring⟩ := ih (s := {s with
        ring := {s.ring with samples := put s.ring.samples copy.slot value}
        writer := .copying channels frames writePos rest
        stores := s.stores ++ [⟨writePos.toNat + copy.frame,copy.channel,value⟩]}) rfl flat'
    exact ⟨s',reachesStep taken reached,idle,reader,ring⟩

theorem loneWrite (s : Threads α) (idle : s.writer = .idle) (channels : Nat → Nat → α) (frames : UInt32) :
    ∃ s', Reaches step s s' ∧ s'.writer = .idle ∧ s'.reader = s.reader ∧
      s'.ring = (sharedAudioWrite s.ring channels frames).2 := by
  let h := s.ring.header
  have enter : step s (.write channels frames) = some {s with writer := .checking channels frames none none} := by
    simp only [step, idle]
  have first : step {s with writer := .checking channels frames none none} (.writer 0) =
    some {s with writer := .checking channels frames (some h.writePos) none} := rfl
  have second : step {s with writer := .checking channels frames (some h.writePos) none} (.writer 0) =
    some {s with writer := .checking channels frames (some h.writePos) (some h.readPos)} := rfl
  by_cases full : sharedAudioWritableFrames h < frames
  · have refused : step {s with writer := .checking channels frames (some h.writePos) (some h.readPos)}
        (.writer 0) = some {s with
          ring := {s.ring with header := {h with overruns := h.overruns + 1}}
          writer := .idle} := if_pos full
    refine ⟨_,reachesStep enter (reachesStep first (reachesStep second (reachesStep refused
      (reachesHere _)))),rfl,rfl,?_⟩
    simp only [sharedAudioWrite, show sharedAudioWritableFrames s.ring.header < frames from full, if_true]
    rfl
  · have admitted : step {s with writer := .checking channels frames (some h.writePos) (some h.readPos)}
        (.writer 0) = some {s with writer := .admitted channels frames} := if_neg full
    have begun : step {s with writer := .admitted channels frames} (.writer 0) =
      some {s with
        writer := .copying channels frames h.writePos
          (blockCopies h.channels.toNat h.capacityFrames (ringIndex h.writePos h.capacityFrames) frames)} := rfl
    obtain ⟨s',reached,idle',reader,ring⟩ := drainWriter (s := {s with
        writer := .copying channels frames h.writePos
          (blockCopies h.channels.toNat h.capacityFrames (ringIndex h.writePos h.capacityFrames) frames)})
      rfl rfl
    refine ⟨s',reachesStep enter (reachesStep first (reachesStep second (reachesStep admitted
      (reachesStep begun reached)))),idle',reader,?_⟩
    rw [ring, storeBlock]
    simp only [sharedAudioWrite, show ¬ sharedAudioWritableFrames s.ring.header < frames from full, if_false]
    rfl

def afterRead (h : Header) (frames insert : UInt32) : Header :=
  let count := readCount h frames
  let inserted := if 0 < count then insert else 0
  let finished := finishRead h h.readPos count frames
  {finished with insertedFrames := finished.insertedFrames + inserted.toUInt64}

theorem afterReadNone (h : Header) (frames : UInt32) :
    afterRead h frames 0 = finishRead h h.readPos (readCount h frames) frames := by
  have none : (0 : UInt32).toUInt64 = 0 := rfl
  simp only [afterRead, ite_self, none, UInt64.add_zero]

theorem drainReader {copies : List Copy} {s : Threads α} {frames insert : UInt32} {readPos : UInt64}
    {count : UInt32} {pending : List (List Copy)}
    (at_ : s.reader = .copying frames insert readPos count pending) (flat : pending.flatten = copies) :
    ∃ s', Reaches step s s' ∧ s'.reader = .idle ∧ s'.writer = s.writer ∧
      s'.loads = s.loads ++ copies.map (fun c =>
        ⟨readPos.toNat + c.frame,c.channel,s.ring.samples c.slot⟩) ∧
      s'.ring = {s.ring with header :=
        let finished := finishRead s.ring.header readPos count frames
        {finished with insertedFrames :=
          finished.insertedFrames + (if 0 < count then insert else 0).toUInt64}} := by
  induction copies generalizing s pending with
  | nil =>
    let finished := finishRead s.ring.header readPos count frames
    have taken : step s (.reader 0) = some {s with
        ring := {s.ring with header := {finished with insertedFrames :=
          finished.insertedFrames + (if 0 < count then insert else 0).toUInt64}}
        reader := .idle} := by
      simp only [step, stepReader, at_, flat, List.isEmpty_nil, if_true]
      rfl
    exact ⟨_,reachesStep taken (reachesHere _),rfl,rfl,(List.append_nil _).symm,rfl⟩
  | cons copy later ih =>
    obtain ⟨rest,chosen,flat'⟩ := takeFirst flat
    let load : Access α := ⟨readPos.toNat + copy.frame,copy.channel,s.ring.samples copy.slot⟩
    have taken : step s (.reader 0) = some {s with
        reader := .copying frames insert readPos count rest
        loads := s.loads ++ [load]} := by
      simp only [step, stepReader, at_, flat, chosen, List.isEmpty_cons, Bool.false_eq_true, if_false,
        Option.map_some]
      rfl
    obtain ⟨s',reached,idle,writer,loads,ring⟩ := ih (s := {s with
        reader := .copying frames insert readPos count rest
        loads := s.loads ++ [load]}) rfl flat'
    refine ⟨s',reachesStep taken reached,idle,writer,?_,ring⟩
    rw [loads, List.append_assoc]
    rfl

theorem loneCopying (s : Threads α) {shape : Shape} {frames insert : UInt32}
    (at_ : s.reader = .reading shape frames insert) :
    ∃ s', Reaches step s s' ∧ s'.reader = .idle ∧ s'.writer = s.writer ∧
      s'.ring = {s.ring with header := afterRead s.ring.header frames insert} := by
  let h := s.ring.header
  have first : step s (.reader 0) = some {s with reader := .counting shape frames insert h.readPos} := by
    simp only [step, stepReader, at_]
    rfl
  have second : step {s with reader := .counting shape frames insert h.readPos} (.reader 0) =
    some {s with
      reader := .copying frames insert h.readPos (readCount h frames)
        (readCopies h shape h.readPos (readCount h frames))} := rfl
  obtain ⟨s',reached,idle,writer,_,ring⟩ := drainReader (s := {s with
      reader := .copying frames insert h.readPos (readCount h frames)
        (readCopies h shape h.readPos (readCount h frames))}) rfl rfl
  exact ⟨s',reachesStep first (reachesStep second reached),idle,writer,ring⟩

theorem afterReadTail [Zero α] (ring : SharedRing α) (out : Nat → α) (outChannels : UInt16)
    (kept insert : UInt32) :
    (fillTail (sharedAudioReadInterleaved ring out outChannels kept) outChannels kept insert).ring =
      {ring with header := afterRead ring.header kept insert} := by
  have none : (0 : UInt32).toUInt64 = 0 := rfl
  rw [fillTailRing, readInterleavedRing, readInterleavedCount]
  by_cases some : 0 < readCount ring.header kept
  · simp only [afterRead, some, if_true]
  · simp only [afterRead, some, if_false, none, UInt64.add_zero]

def afterCall [Zero α] (ring : SharedRing α) : ReadCall → SharedRing α
  | .read frames => (sharedAudioRead ring (fun _ _ => 0) frames).ring
  | .readInterleaved outChannels frames => (sharedAudioReadInterleaved ring (fun _ => 0) outChannels frames).ring
  | .readInterleavedRegulated outChannels frames targetFill tolerance =>
    (sharedAudioReadInterleavedRegulated ring (fun _ => 0) outChannels frames targetFill tolerance).ring
  | .seekToFill targetFill => (sharedAudioSeekToFill ring targetFill).2

theorem loneRegulated [Zero α] (s : Threads α) (outChannels : UInt16)
    (frames targetFill tolerance : UInt32)
    (at_ : s.reader = .regulating outChannels frames targetFill tolerance) :
    ∃ s', Reaches step s s' ∧ s'.reader = .idle ∧ s'.writer = s.writer ∧
      s'.ring = afterCall s.ring (.readInterleavedRegulated outChannels frames targetFill tolerance) := by
  let h := s.ring.header
  let fill := h.writePos - h.readPos
  have first : step s (.reader 0) =
      some {s with reader := .measuring outChannels frames targetFill tolerance h.readPos} := by
    simp only [step, stepReader, at_]
    rfl
  have second : step {s with reader := .measuring outChannels frames targetFill tolerance h.readPos}
      (.reader 0) = some {s with reader := regulate outChannels frames targetFill tolerance h.readPos fill} := rfl
  by_cases full : tooFull fill targetFill tolerance = true
  · let drop := clampCorrection (fill - targetFill.toUInt64).toUInt32
    let dropped := dropFrames s.ring h.readPos drop
    have branch : regulate outChannels frames targetFill tolerance h.readPos fill =
      .dropping outChannels frames h.readPos drop := if_pos full
    rw [branch] at second
    have third : step {s with reader := .dropping outChannels frames h.readPos drop} (.reader 0) =
      some {s with ring := dropped, reader := .reading (.interleaved outChannels) frames 0} := rfl
    obtain ⟨s',reached,idle,writer,ring⟩ :=
      loneCopying {s with ring := dropped, reader := .reading (.interleaved outChannels) frames 0} rfl
    refine ⟨s',reachesStep first (reachesStep second (reachesStep third reached)),idle,writer,?_⟩
    rw [ring, afterReadNone]
    simp only [afterCall, sharedAudioReadInterleavedRegulated,
      show tooFull (s.ring.header.writePos - s.ring.header.readPos) targetFill tolerance = true from full, if_true]
    rfl
  · by_cases low : (tooEmpty fill targetFill tolerance && decide (0 < frames)) = true
    · let insert := clampCorrection (targetFill.toUInt64 - fill).toUInt32
      let insert := if frames < insert then frames else insert
      have branch : regulate outChannels frames targetFill tolerance h.readPos fill =
          .reading (.interleaved outChannels) (frames - insert) insert := by
        simp only [regulate, full, low, if_true, if_false, Bool.false_eq_true]
        rfl
      obtain ⟨s',reached,idle,writer,ring⟩ := loneCopying {s with
          reader := .reading (.interleaved outChannels) (frames - insert) insert} rfl
      rw [branch] at second
      refine ⟨s',reachesStep first (reachesStep second reached),idle,writer,?_⟩
      rw [ring]
      have called : afterCall s.ring (.readInterleavedRegulated outChannels frames targetFill tolerance) =
          (fillTail (sharedAudioReadInterleaved s.ring (fun _ => 0) outChannels (frames - insert))
            outChannels (frames - insert) insert).ring := by
        simp only [afterCall, sharedAudioReadInterleavedRegulated,
          show ¬ tooFull (s.ring.header.writePos - s.ring.header.readPos) targetFill tolerance = true from full,
          show (tooEmpty (s.ring.header.writePos - s.ring.header.readPos) targetFill tolerance &&
            decide (0 < frames)) = true from low, if_true, if_false, Bool.false_eq_true]
        rfl
      rw [called, afterReadTail]
    · have branch : regulate outChannels frames targetFill tolerance h.readPos fill =
          .reading (.interleaved outChannels) frames 0 := by
        simp only [regulate, full, low, if_false, Bool.false_eq_true]
      obtain ⟨s',reached,idle,writer,ring⟩ := loneCopying {s with
          reader := .reading (.interleaved outChannels) frames 0} rfl
      rw [branch] at second
      refine ⟨s',reachesStep first (reachesStep second reached),idle,writer,?_⟩
      rw [ring, afterReadNone]
      simp only [afterCall, sharedAudioReadInterleavedRegulated,
        show ¬ tooFull (s.ring.header.writePos - s.ring.header.readPos) targetFill tolerance = true from full,
        show ¬ (tooEmpty (s.ring.header.writePos - s.ring.header.readPos) targetFill tolerance &&
          decide (0 < frames)) = true from low, if_false, Bool.false_eq_true]
      rfl

theorem loneRead [Zero α] (s : Threads α) (idle : s.reader = .idle) (call : ReadCall) :
    ∃ s', Reaches step s s' ∧ s'.reader = .idle ∧ s'.writer = s.writer ∧ s'.ring = afterCall s.ring call := by
  have entered : step s (.read call) = some {s with reader := enter call} := by
    simp only [step, idle]
  cases call with
  | read frames =>
    obtain ⟨s',reached,idle',writer,ring⟩ :=
      loneCopying {s with reader := .reading .planar frames 0} rfl
    refine ⟨s',reachesStep entered reached,idle',writer,?_⟩
    rw [ring, afterReadNone]
    rfl
  | readInterleaved outChannels frames =>
    obtain ⟨s',reached,idle',writer,ring⟩ :=
      loneCopying {s with reader := .reading (.interleaved outChannels) frames 0} rfl
    refine ⟨s',reachesStep entered reached,idle',writer,?_⟩
    rw [ring, afterReadNone]
    rfl
  | readInterleavedRegulated outChannels frames targetFill tolerance =>
    obtain ⟨s',reached,rest⟩ := loneRegulated
      {s with reader := .regulating outChannels frames targetFill tolerance} outChannels frames targetFill
      tolerance rfl
    exact ⟨s',reachesStep entered reached,rest⟩
  | seekToFill targetFill =>
    let h := s.ring.header
    have first : step {s with reader := .seeking targetFill} (.reader 0) =
      some {s with reader := .aiming targetFill h.writePos} := rfl
    let fill := h.writePos - h.readPos
    let newFill := if fill < targetFill.toUInt64 then fill.toUInt32 else targetFill
    have second : step {s with reader := .aiming targetFill h.writePos} (.reader 0) =
      some {s with reader := .jumping h.writePos newFill} := rfl
    have third : step {s with reader := .jumping h.writePos newFill} (.reader 0) = some {s with
        ring := (sharedAudioSeekToFill s.ring targetFill).2
        reader := .idle} := rfl
    exact ⟨_,reachesStep entered (reachesStep first (reachesStep second (reachesStep third
      (reachesHere _)))),rfl,rfl,rfl⟩

end ReacJack.RingSequential
