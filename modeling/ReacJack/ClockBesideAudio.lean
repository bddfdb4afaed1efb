import ReacJack.RingGuarantees
import ReacJack.ClockGuarantees

/-! A daemon that writes a packet to the ring and then publishes where it ends, beside
readers of the ring and of the clock. Every load and store is a step of its own. The
clock fields and `dropped_packets` stand beside the ring here. -/
namespace ReacJack.ClockBesideAudio
open TransitionRuns SharedAudio RingThreads
open ClockSeqlock (Pair)
open RingSafety (Safe)
open RingRuns (stepSafe)

variable {α : Type}

inductive LoopPc where
  | waiting
  | writing
  | refused
  | written
  | publishing
  deriving DecidableEq, Repr

structure State (α : Type) where
  threads : Threads α
  clock : ClockSeqlock.State
  loop : LoopPc
  droppedPackets : UInt64
  packets : Nat

inductive Label (α : Type) where
  | packet (channels : Nat → Nat → α)
  | daemon (choice : Nat)
  | publish (hostTime : UInt64)
  | read (call : ReadCall)
  | reader (choice : Nat)
  | get (reader : Nat) (out : Pair)
  | getter (reader : Nat)

def returned (before after : WriterPc α) : LoopPc :=
  match before, after with
  | .copying .., .idle => .written
  | _, .idle => .refused
  | _, _ => .writing

def stepLoop (s : State α) (choice : Nat) : Option (State α) :=
  match s.loop with
  | .writing => (RingThreads.step s.threads (.writer choice)).map (fun threads =>
      {s with threads, loop := returned s.threads.writer threads.writer})
  | .refused => some {s with droppedPackets := s.droppedPackets + 1, loop := .waiting}
  | .publishing => (ClockSeqlock.step s.clock .writer).map (fun clock =>
      {s with clock, loop := if clock.writer = .idle then .waiting else .publishing})
  | _ => none

def step (s : State α) : Label α → Option (State α)
  | .packet channels =>
    if s.loop = .waiting then
      (RingThreads.step s.threads (.write channels 12)).map (fun threads =>
        {s with threads, loop := .writing, packets := s.packets + 1})
    else none
  | .daemon choice => stepLoop s choice
  | .publish hostTime =>
    if s.loop = .written then
      (ClockSeqlock.step s.clock (.publish hostTime s.threads.ring.header.writePos)).map (fun clock =>
        {s with clock, loop := .publishing})
    else none
  | .read call => (RingThreads.step s.threads (.read call)).map (fun threads => {s with threads})
  | .reader choice => (RingThreads.step s.threads (.reader choice)).map (fun threads => {s with threads})
  | .get i out => (ClockSeqlock.step s.clock (.get i out)).map (fun clock => {s with clock})
  | .getter i => (ClockSeqlock.step s.clock (.reader i)).map (fun clock => {s with clock})

def start [Zero α] (sampleRate : UInt32) (channels : UInt16) (capacity : UInt32) : State α :=
  ⟨RingThreads.start (sharedAudioCreate sampleRate channels capacity),ClockSeqlock.start,.waiting,0,0⟩

def Twelve : WriterPc α → Prop
  | .idle => True
  | .checking _ frames _ _ | .admitted _ frames | .copying _ frames _ _ => frames = 12

theorem returnedBusy {before after : WriterPc α} (busy : after ≠ .idle) : returned before after = .writing := by
  cases after with
  | idle => exact absurd rfl busy
  | _ => cases before <;> rfl

inductive Wrote (before after : Threads α) : Prop
  | going (busy : after.writer ≠ .idle) (same : after.accepted = before.accepted)
  | refused (idle : after.writer = .idle) (early : returned before.writer .idle = .refused)
      (same : after.accepted = before.accepted)
  | accepted (idle : after.writer = .idle) (late : returned before.writer .idle = .written)
      (more : after.accepted.length = before.accepted.length + 12)

theorem writerWrote {s next : Threads α} {choice : Nat} (twelve : Twelve s.writer)
    (taken : stepWriter s choice = some next) : Wrote s next ∧ Twelve next.writer := by
  cases at_ : s.writer with
  | idle => simp [stepWriter, at_] at taken
  | checking channels frames w r =>
    rw [at_] at twelve
    cases w <;> cases r <;> simp only [stepWriter, at_] at taken
    case none.none =>
      split at taken <;> cases Option.some.inj taken <;> exact ⟨.going (fun eq => by contradiction) rfl,twelve⟩
    case none.some | some.none =>
      cases Option.some.inj taken
      exact ⟨.going (fun eq => by contradiction) rfl,twelve⟩
    case some.some =>
      split at taken <;> cases Option.some.inj taken
      · exact ⟨.refused rfl (by rw [at_]; rfl) rfl,trivial⟩
      · exact ⟨.going (fun eq => by contradiction) rfl,twelve⟩
  | admitted channels frames =>
    rw [at_] at twelve
    simp only [stepWriter, at_] at taken
    cases Option.some.inj taken
    exact ⟨.going (fun eq => by contradiction) rfl,twelve⟩
  | copying channels frames writePos pending =>
    rw [at_] at twelve
    simp only [stepWriter, at_] at taken
    split at taken
    · cases Option.some.inj taken
      refine ⟨.accepted rfl (by rw [at_]; rfl) ?_,trivial⟩
      have frames_ : frames.toNat = 12 := congrArg UInt32.toNat twelve
      rw [List.length_append, SharedFifo.blockLength, frames_]
    · obtain ⟨⟨copy,rest⟩,_,rfl⟩ := Option.map_eq_some_iff.mp taken
      exact ⟨.going (fun eq => by contradiction) rfl,twelve⟩

theorem readerLeaves {s next : Threads α} {choice : Nat} (taken : stepReader s choice = some next) :
    next.writer = s.writer ∧ next.accepted = s.accepted := by
  simp only [stepReader] at taken
  split at taken
  case h_1 => contradiction
  case h_7 =>
    split at taken
    · cases Option.some.inj taken
      exact ⟨rfl,rfl⟩
    · obtain ⟨_,_,rfl⟩ := Option.map_eq_some_iff.mp taken
      exact ⟨rfl,rfl⟩
  all_goals
    cases Option.some.inj taken
    exact ⟨rfl,rfl⟩

structure Same (before after : ClockSeqlock.State) : Prop where
  writer : after.writer = before.writer
  publications : after.publications = before.publications
  completed : after.completed = before.completed

theorem retrySame (s : ClockSeqlock.State) (i : Nat) (attempt : ClockSeqlock.Attempt) :
    Same s (ClockSeqlock.retry s i attempt) := by
  simp only [ClockSeqlock.retry]
  split <;> exact ⟨rfl,rfl,rfl⟩

theorem getterLeaves {s next : ClockSeqlock.State} {i : Nat} (taken : ClockSeqlock.stepReader s i = some next) :
    Same s next := by
  simp only [ClockSeqlock.stepReader] at taken
  split at taken
  case h_1 => contradiction
  case h_2 =>
    split at taken
    · cases Option.some.inj taken
      exact ⟨rfl,rfl,rfl⟩
    · split at taken <;> cases Option.some.inj taken
      · exact retrySame s i _
      · exact ⟨rfl,rfl,rfl⟩
  case h_5 =>
    split at taken <;> cases Option.some.inj taken
    · exact ⟨rfl,rfl,rfl⟩
    · exact retrySame s i _
  all_goals
    cases Option.some.inj taken
    exact ⟨rfl,rfl,rfl⟩

theorem getEnters {s next : ClockSeqlock.State} {i : Nat} {out : Pair}
    (taken : ClockSeqlock.step s (.get i out) = some next) : Same s next := by
  simp only [ClockSeqlock.step] at taken
  split at taken
  · cases Option.some.inj taken
    exact ⟨rfl,rfl,rfl⟩
  · contradiction

theorem publishEnters {s next : ClockSeqlock.State} {hostTime samplePos : UInt64}
    (taken : ClockSeqlock.step s (.publish hostTime samplePos) = some next) :
    next.writer ≠ .idle ∧ next.publications = s.publications ++ [(hostTime,samplePos)] := by
  simp only [ClockSeqlock.step] at taken
  split at taken
  · cases Option.some.inj taken
    exact ⟨fun eq => by contradiction,rfl⟩
  · contradiction

theorem publisherLeaves {s next : ClockSeqlock.State} (taken : ClockSeqlock.step s .writer = some next) :
    next.publications = s.publications := by
  simp only [ClockSeqlock.step, ClockSeqlock.stepWriter] at taken
  split at taken
  · contradiction
  all_goals
    cases Option.some.inj taken
    rfl

def underway : LoopPc → Nat
  | .waiting | .publishing => 0
  | .writing | .refused | .written => 1

/-- The n-th publication is the end of the n-th packet taken, and at most one packet
was taken since the last. -/
structure Follows (capacity : Nat) (s : State α) : Prop where
  safe : ∃ q : BoundedFifo.Queue (SharedFifo.Frame α) capacity, Safe s.threads q
  clock : ClockGuarantees.Inv s.clock
  ringIdle : s.loop ≠ .writing → s.threads.writer = .idle
  publisher : s.loop = .publishing ↔ s.clock.writer ≠ .idle
  twelve : Twelve s.threads.writer
  ends : ∀ n pair, s.clock.publications[n]? = some pair → pair.2.toNat = 12 * (n + 1)
  count : s.threads.accepted.length =
    12 * (s.clock.publications.length + if s.loop = .written then 1 else 0)
  packets : UInt64.ofNat s.packets =
    UInt64.ofNat s.clock.publications.length + s.droppedPackets + UInt64.ofNat (underway s.loop)

variable {capacity : Nat} {s : State α}

theorem writePosIs (follows : Follows capacity s) :
    s.threads.ring.header.writePos.toNat = s.threads.accepted.length := by
  obtain ⟨q,safe⟩ := follows.safe
  rw [safe.refines.written, safe.stream]

theorem publicationsFew (follows : Follows capacity s) (small : s.threads.accepted.length < 2 ^ 64) :
    s.clock.publications.length < 2 ^ 63 := by
  have count := follows.count
  omega

theorem threadsMove (follows : Follows capacity s) {threads : Threads α} {label : RingThreads.Label α}
    (taken : RingThreads.step s.threads label = some threads) (small : threads.accepted.length < 2 ^ 64)
    (writer : threads.writer = s.threads.writer) (accepted : threads.accepted = s.threads.accepted) :
    Follows capacity {s with threads} := by
  obtain ⟨q,safe⟩ := follows.safe
  refine ⟨stepSafe safe taken small,follows.clock,?_,follows.publisher,?_,follows.ends,?_,follows.packets⟩
  · exact fun other => writer.trans (follows.ringIdle other)
  · exact writer ▸ follows.twelve
  · rw [accepted]
    exact follows.count

theorem gettersMove (follows : Follows capacity s) {clock : ClockSeqlock.State} {label : ClockSeqlock.Label}
    (taken : ClockSeqlock.step s.clock label = some clock) (small : s.threads.accepted.length < 2 ^ 64)
    (same : Same s.clock clock) : Follows capacity {s with clock} := by
  have few := publicationsFew follows small
  rw [← same.publications] at few
  refine ⟨follows.safe,ClockGuarantees.stepInv follows.clock few taken,follows.ringIdle,?_,follows.twelve,?_,?_,?_⟩
  · rw [same.writer]
    exact follows.publisher
  · rw [same.publications]
    exact follows.ends
  · rw [same.publications]
    exact follows.count
  · rw [same.publications]
    exact follows.packets

theorem packetFollows (follows : Follows capacity s) (waiting : s.loop = .waiting) {channels : Nat → Nat → α}
    {threads : Threads α} (taken : RingThreads.step s.threads (.write channels 12) = some threads)
    (small : threads.accepted.length < 2 ^ 64) :
    Follows capacity {s with threads, loop := .writing, packets := s.packets + 1} := by
  obtain ⟨q,safe⟩ := follows.safe
  have kept := stepSafe safe taken small
  obtain ⟨_,rfl⟩ := writeEnters taken
  obtain ⟨_,clock,_,publisher,_,ends,count,packets⟩ := follows
  rw [waiting] at publisher count packets
  refine ⟨kept,clock,fun other => absurd rfl other,?_,rfl,ends,count,?_⟩
  · exact ⟨fun other => by contradiction,fun busy => absurd (publisher.mpr busy) (by decide)⟩
  · rw [UInt64.ofNat_add, packets]
    exact congrArg (· + 1) (UInt64.add_zero _)

theorem writerFollows (follows : Follows capacity s) (writing : s.loop = .writing) {choice : Nat}
    {threads : Threads α} (taken : RingThreads.step s.threads (.writer choice) = some threads)
    (small : threads.accepted.length < 2 ^ 64) :
    Follows capacity {s with threads, loop := returned s.threads.writer threads.writer} := by
  obtain ⟨q,safe⟩ := follows.safe
  have kept := stepSafe safe taken small
  obtain ⟨wrote,twelve⟩ := writerWrote follows.twelve taken
  obtain ⟨_,clock,_,publisher,_,ends,count,packets⟩ := follows
  rw [writing] at publisher count packets
  have quiet : ¬ s.clock.writer ≠ .idle := fun busy => absurd (publisher.mpr busy) (by decide)
  cases wrote with
  | going busy same =>
    rw [returnedBusy busy]
    refine ⟨kept,clock,fun other => absurd rfl other,?_,twelve,ends,?_,packets⟩
    · exact ⟨fun other => by contradiction,fun busy => absurd busy quiet⟩
    · rw [same]
      exact count
  | refused idle early same =>
    rw [idle, early]
    refine ⟨kept,clock,fun _ => idle,?_,twelve,ends,?_,packets⟩
    · exact ⟨fun other => by contradiction,fun busy => absurd busy quiet⟩
    · rw [same]
      exact count
  | accepted idle late more =>
    rw [idle, late]
    refine ⟨kept,clock,fun _ => idle,?_,twelve,ends,?_,packets⟩
    · exact ⟨fun other => by contradiction,fun busy => absurd busy quiet⟩
    · rw [more, count]
      rfl

theorem dropFollows (follows : Follows capacity s) (refused : s.loop = .refused) :
    Follows capacity {s with droppedPackets := s.droppedPackets + 1, loop := .waiting} := by
  obtain ⟨safe,clock,ringIdle,publisher,twelve,ends,count,packets⟩ := follows
  rw [refused] at ringIdle publisher count packets
  refine ⟨safe,clock,fun _ => ringIdle (by decide),?_,twelve,ends,count,?_⟩
  · exact ⟨fun other => by contradiction,fun busy => absurd (publisher.mpr busy) (by decide)⟩
  · rw [packets]
    simp only [underway]
    grind

theorem publishFollows (follows : Follows capacity s) (written : s.loop = .written) {hostTime : UInt64}
    {clock : ClockSeqlock.State} (small : s.threads.accepted.length < 2 ^ 64)
    (taken : ClockSeqlock.step s.clock (.publish hostTime s.threads.ring.header.writePos) = some clock) :
    Follows capacity {s with clock, loop := .publishing} := by
  have position := writePosIs follows
  obtain ⟨safe,inv,ringIdle,publisher,twelve,ends,count,packets⟩ := follows
  rw [written] at ringIdle count packets
  obtain ⟨busy,more⟩ := publishEnters taken
  have few : clock.publications.length < 2 ^ 63 := by
    rw [more, List.length_append, List.length_singleton]
    simp only [if_true] at count
    omega
  refine ⟨safe,ClockGuarantees.stepInv inv few taken,fun _ => ringIdle (by decide),⟨fun _ => busy,fun _ => rfl⟩,
    twelve,?_,?_,?_⟩
  · intro n pair found
    rw [more] at found
    rcases Nat.lt_or_ge n s.clock.publications.length with old | new
    · rw [List.getElem?_append_left old] at found
      exact ends n pair found
    · have here : n = s.clock.publications.length := by
        have inside := (List.getElem?_eq_some_iff.mp found).1
        rw [List.length_append, List.length_singleton] at inside
        omega
      rw [here, List.getElem?_concat_length] at found
      obtain rfl := Option.some.inj found
      rw [here, position, count]
      rfl
  · rw [more, List.length_append, List.length_singleton, count]
    rfl
  · rw [packets, more, List.length_append, List.length_singleton, UInt64.ofNat_add]
    simp only [underway]
    grind

theorem publisherFollows (follows : Follows capacity s) (publishing : s.loop = .publishing)
    {clock : ClockSeqlock.State} (small : s.threads.accepted.length < 2 ^ 64)
    (taken : ClockSeqlock.step s.clock .writer = some clock) :
    Follows capacity {s with clock, loop := if clock.writer = .idle then .waiting else .publishing} := by
  have few := publicationsFew follows small
  have same := publisherLeaves taken
  rw [← same] at few
  obtain ⟨safe,inv,ringIdle,_,twelve,ends,count,packets⟩ := follows
  rw [publishing] at ringIdle count packets
  have kept := ClockGuarantees.stepInv inv few taken
  rw [← same] at ends count packets
  by_cases idle : clock.writer = .idle
  · rw [if_pos idle]
    exact ⟨safe,kept,fun _ => ringIdle (by decide),⟨fun other => by contradiction,fun busy => absurd idle busy⟩,
      twelve,ends,count,packets⟩
  · rw [if_neg idle]
    exact ⟨safe,kept,fun _ => ringIdle (by decide),⟨fun _ => idle,fun _ => rfl⟩,twelve,ends,count,packets⟩

theorem stepFollows (follows : Follows capacity s) {label : Label α} {next : State α}
    (taken : step s label = some next) (small : next.threads.accepted.length < 2 ^ 64) : Follows capacity next := by
  cases label with
  | packet channels =>
    simp only [step] at taken
    split at taken
    · rename_i waiting
      obtain ⟨threads,entered,rfl⟩ := Option.map_eq_some_iff.mp taken
      exact packetFollows follows waiting entered small
    · contradiction
  | daemon choice =>
    simp only [step, stepLoop] at taken
    split at taken
    · rename_i writing
      obtain ⟨threads,moved,rfl⟩ := Option.map_eq_some_iff.mp taken
      exact writerFollows follows writing moved small
    · rename_i refused
      cases Option.some.inj taken
      exact dropFollows follows refused
    · rename_i publishing
      obtain ⟨clock,moved,rfl⟩ := Option.map_eq_some_iff.mp taken
      exact publisherFollows follows publishing small moved
    · contradiction
  | publish hostTime =>
    simp only [step] at taken
    split at taken
    · rename_i written
      obtain ⟨clock,entered,rfl⟩ := Option.map_eq_some_iff.mp taken
      exact publishFollows follows written small entered
    · contradiction
  | read call =>
    obtain ⟨threads,entered,rfl⟩ := Option.map_eq_some_iff.mp taken
    refine threadsMove follows entered small ?_ ?_ <;> rw [(readEnters entered).2]
  | reader choice =>
    obtain ⟨threads,moved,rfl⟩ := Option.map_eq_some_iff.mp taken
    obtain ⟨writer,accepted⟩ := readerLeaves moved
    exact threadsMove follows moved small writer accepted
  | get i out =>
    obtain ⟨clock,entered,rfl⟩ := Option.map_eq_some_iff.mp taken
    exact gettersMove follows entered small (getEnters entered)
  | getter i =>
    obtain ⟨clock,moved,rfl⟩ := Option.map_eq_some_iff.mp taken
    exact gettersMove follows moved small (getterLeaves moved)

theorem acceptedGrows {s next : State α} {label : Label α} (taken : step s label = some next) :
    s.threads.accepted.length ≤ next.threads.accepted.length := by
  cases label with
  | packet channels =>
    simp only [step] at taken
    split at taken
    · obtain ⟨threads,entered,rfl⟩ := Option.map_eq_some_iff.mp taken
      exact RingGuarantees.acceptedGrows entered
    · contradiction
  | daemon choice =>
    simp only [step, stepLoop] at taken
    split at taken
    · obtain ⟨threads,moved,rfl⟩ := Option.map_eq_some_iff.mp taken
      exact RingGuarantees.acceptedGrows moved
    · cases Option.some.inj taken
      exact Nat.le_refl _
    · obtain ⟨clock,_,rfl⟩ := Option.map_eq_some_iff.mp taken
      exact Nat.le_refl _
    · contradiction
  | publish hostTime =>
    simp only [step] at taken
    split at taken
    · obtain ⟨clock,_,rfl⟩ := Option.map_eq_some_iff.mp taken
      exact Nat.le_refl _
    · contradiction
  | read call | reader choice =>
    obtain ⟨threads,moved,rfl⟩ := Option.map_eq_some_iff.mp taken
    exact RingGuarantees.acceptedGrows moved
  | get i out | getter i =>
    obtain ⟨clock,_,rfl⟩ := Option.map_eq_some_iff.mp taken
    exact Nat.le_refl _

theorem startFollows [Zero α] (sampleRate : UInt32) (channels : UInt16) {capacity : UInt32}
    (positive : 0 < capacity.toNat) : Follows capacity.toNat (start (α := α) sampleRate channels capacity) where
  safe := ⟨_,RingGuarantees.startSafe sampleRate channels positive⟩
  clock := ClockGuarantees.startInv
  ringIdle := fun _ => rfl
  publisher := ⟨fun other => by contradiction,fun busy => absurd rfl busy⟩
  twelve := trivial
  ends := fun n pair found => absurd (found.symm.trans List.getElem?_nil) (Option.some_ne_none pair)
  count := rfl
  packets := rfl

theorem runFollows [Zero α] {sampleRate : UInt32} {channels : UInt16} {capacity : UInt32}
    (positive : 0 < capacity.toNat) {schedule : List (Label α)} {s : State α}
    (reached : run step (start sampleRate channels capacity) schedule = some s)
    (small : s.threads.accepted.length < 2 ^ 64) : Follows capacity.toNat s :=
  runInvariantWhile (I := Follows capacity.toNat) (W := fun t : State α => t.threads.accepted.length < 2 ^ 64)
    (fun _ _ _ taken below => (acceptedGrows taken).trans_lt below)
    (fun _ _ _ follows below taken => stepFollows follows taken below) (startFollows sampleRate channels positive)
    reached small

theorem completedBehind (follows : Follows capacity s) :
    12 * s.clock.completed ≤ s.threads.accepted.length ∧
      s.threads.accepted.length ≤ 12 * s.clock.completed + 12 := by
  have writer := follows.clock.writer
  have count := follows.count
  have quiet : s.loop ≠ .publishing → s.clock.publications.length = s.clock.completed := by
    intro other
    have idle : s.clock.writer = .idle := not_not.mp (fun busy => other (follows.publisher.mpr busy))
    simp only [ClockGuarantees.WriterOk, idle] at writer
    exact writer.1
  cases at_ : s.loop with
  | publishing =>
    have busy := follows.publisher.mp at_
    have under : s.clock.publications.length = s.clock.completed + 1 := by
      unfold ClockGuarantees.WriterOk at writer
      split at writer
      · rename_i idle
        exact absurd idle busy
      all_goals exact writer.1.1
    rw [at_, under] at count
    simp only [reduceCtorEq, if_false] at count
    omega
  | waiting | writing | refused | written =>
    have settled := quiet (by rw [at_]; decide)
    rw [at_, settled] at count
    simp only [reduceCtorEq, if_false, if_true] at count
    omega

/-- Every position that a reader of the clock was given is the end of a packet whose
frames are all in the stream; the clock lags behind the audio by one packet at most. -/
theorem clockNeverAhead [Zero α] (sampleRate : UInt32) (channels : UInt16) (capacity : UInt32)
    (positive : 0 < capacity.toNat) (schedule : List (Label α)) (s : State α)
    (reached : run step (start sampleRate channels capacity) schedule = some s)
    (small : s.threads.accepted.length < 2 ^ 64) :
    (∀ ret ∈ s.clock.returns, ret.code = 0 → ret.after.2.toNat = 12 * ret.completed ∧
      ret.after.2.toNat ≤ s.threads.ring.header.writePos.toNat) ∧
    12 * s.clock.completed ≤ s.threads.ring.header.writePos.toNat ∧
    s.threads.ring.header.writePos.toNat ≤ 12 * s.clock.completed + 12 ∧
    (s.loop = .waiting →
      UInt64.ofNat s.packets = UInt64.ofNat s.clock.completed + s.droppedPackets ∧
      s.threads.ring.header.writePos.toNat = 12 * s.clock.completed) := by
  have follows := runFollows positive reached small
  have position := writePosIs follows
  obtain ⟨behind,near⟩ := completedBehind follows
  rw [position]
  refine ⟨?_,behind,near,?_⟩
  · intro ret member zero
    obtain ⟨earlier,told⟩ := follows.clock.returns ret member
    rcases told with ⟨_,n,completed,found⟩ | ⟨failed,_⟩
    · have ends := follows.ends n _ found
      exact ⟨by rw [ends, completed],by omega⟩
    · rw [zero] at failed
      contradiction
  · intro waiting
    have idle : s.clock.writer = .idle := by
      refine not_not.mp (fun busy => ?_)
      have publishing := follows.publisher.mpr busy
      rw [waiting] at publishing
      contradiction
    have writer := follows.clock.writer
    simp only [ClockGuarantees.WriterOk, idle] at writer
    have packets := follows.packets
    have count := follows.count
    rw [waiting, writer.1] at packets count
    exact ⟨packets.trans (UInt64.add_zero _),count⟩

/-- The ring holds one packet. A reader asks for the clock while it is being published and
has its answer after the next packet was refused. -/
def alternating : List (Label Int) :=
  .packet (fun _ f => 7 + f) :: List.replicate 17 (.daemon 0) ++
  [.publish 5,.get 0 (1,1),.daemon 0,.daemon 0,.getter 0,.daemon 0,.daemon 0,.daemon 0,.packet (fun _ _ => 1),
    .getter 0,.daemon 0,.daemon 0,.daemon 0,.getter 0,.daemon 0,.getter 0,.getter 0,.read (.read 12)] ++
  List.replicate 15 (.reader 0)

def alternated : Option (State Int) := run step (start 48000 1 12) alternating

theorem clockNeverAheadAlternating :
    (alternated.get (by decide +kernel)).clock.returns.map (fun ret => ret.after) = [(5,12)] ∧
      ∀ ret ∈ (alternated.get (by decide +kernel)).clock.returns, ret.code = 0 →
        ret.after.2.toNat = 12 * ret.completed ∧
          ret.after.2.toNat ≤ (alternated.get (by decide +kernel)).threads.ring.header.writePos.toNat :=
  ⟨by decide +kernel,(clockNeverAhead 48000 1 12 (by decide) alternating _ (Option.some_get _).symm
    (by decide +kernel)).1⟩

end ReacJack.ClockBesideAudio
