import ReacJack.TransitionRuns
import ReacJack.SharedAudio

/-! The published clock under any interleaving: every atomic load and store of
`shared_audio_publish_clock` and `shared_audio_get_clock` is a step of its own, one
writer against any number of readers. -/
namespace ReacJack.ClockSeqlock
open TransitionRuns SharedAudio

structure Clock where
  seq : UInt64
  hostTime : UInt64
  samplePos : UInt64
  deriving DecidableEq, Repr

abbrev Pair := UInt64 × UInt64

inductive WriterPc where
  | idle
  | entered (pair : Pair)
  | loaded (pair : Pair) (seq : UInt64)
  | markedOdd (pair : Pair) (seq : UInt64)
  | storedTime (pair : Pair) (seq : UInt64)
  | storedPos (pair : Pair) (seq : UInt64)
  deriving DecidableEq, Repr

/-- The loads of `clock_seq` in one attempt; `again` is missing when the attempt
ended at the first. -/
structure Attempt where
  seq : UInt64
  again : Option UInt64
  deriving DecidableEq, Repr

inductive ReaderPc where
  | idle
  | attempting
  | loadedSeq (seq : UInt64)
  | loadedTime (seq hostTime : UInt64)
  | loadedPos (seq hostTime samplePos : UInt64)
  deriving DecidableEq, Repr

structure Reader where
  pc : ReaderPc
  before : Pair
  out : Pair
  attempts : List Attempt
  deriving DecidableEq, Repr

structure Return where
  reader : Nat
  code : Int
  before : Pair
  after : Pair
  attempts : List Attempt
  completed : Nat
  deriving DecidableEq, Repr

structure State where
  clock : Clock
  writer : WriterPc
  readers : Nat → Reader
  publications : List Pair
  completed : Nat
  returns : List Return

inductive Label where
  | publish (hostTime samplePos : UInt64)
  | writer
  | get (reader : Nat) (out : Pair)
  | reader (reader : Nat)
  deriving DecidableEq, Repr

def stepWriter (s : State) : Option State :=
  match s.writer with
  | .idle => none
  | .entered pair => some {s with writer := .loaded pair s.clock.seq}
  | .loaded pair seq =>
    some {s with clock := {s.clock with seq := seq + 1}, writer := .markedOdd pair seq}
  | .markedOdd pair seq =>
    some {s with clock := {s.clock with hostTime := pair.1}, writer := .storedTime pair seq}
  | .storedTime pair seq =>
    some {s with clock := {s.clock with samplePos := pair.2}, writer := .storedPos pair seq}
  | .storedPos _ seq =>
    some {s with
      clock := {s.clock with seq := seq + 2}
      writer := .idle
      completed := s.completed + 1}

def setReader (s : State) (i : Nat) (r : Reader) : State :=
  {s with readers := fun k => if k = i then r else s.readers k}

def giveBack (s : State) (i : Nat) (code : Int) (out : Pair) (attempts : List Attempt) : State :=
  let r := s.readers i
  {setReader s i ⟨.idle,out,out,[]⟩ with
    returns := s.returns ++ [⟨i,code,r.before,out,attempts,s.completed⟩]}

def retry (s : State) (i : Nat) (attempt : Attempt) : State :=
  let r := s.readers i
  let attempts := r.attempts ++ [attempt]
  if attempts.length < 16 then setReader s i {r with pc := .attempting, attempts}
  else giveBack s i (-1) r.out attempts

def stepReader (s : State) (i : Nat) : Option State :=
  let r := s.readers i
  match r.pc with
  | .idle => none
  | .attempting =>
    let seq := s.clock.seq
    if seq = 0 then some (giveBack s i (-1) r.out (r.attempts ++ [⟨seq,none⟩]))
    else if seq &&& 1 ≠ 0 then some (retry s i ⟨seq,none⟩)
    else some (setReader s i {r with pc := .loadedSeq seq})
  | .loadedSeq seq => some (setReader s i {r with pc := .loadedTime seq s.clock.hostTime})
  | .loadedTime seq hostTime =>
    some (setReader s i {r with pc := .loadedPos seq hostTime s.clock.samplePos})
  | .loadedPos seq hostTime samplePos =>
    let attempt := ⟨seq,some s.clock.seq⟩
    if s.clock.seq = seq then some (giveBack s i 0 (hostTime,samplePos) (r.attempts ++ [attempt]))
    else some (retry s i attempt)

def step (s : State) : Label → Option State
  | .publish hostTime samplePos =>
    match s.writer with
    | .idle => some {s with
        writer := .entered (hostTime,samplePos)
        publications := s.publications ++ [(hostTime,samplePos)]}
    | _ => none
  | .writer => stepWriter s
  | .get i out =>
    match (s.readers i).pc with
    | .idle => some (setReader s i ⟨.attempting,out,out,[]⟩)
    | _ => none
  | .reader i => stepReader s i

def start : State where
  clock := ⟨0,0,0⟩
  writer := .idle
  readers := fun _ => ⟨.idle,(0,0),(0,0),[]⟩
  publications := []
  completed := 0
  returns := []

def clockOf (h : Header) : Clock := ⟨h.clockSeq,h.clockHostTime,h.clockSamplePos⟩

theorem lonePublish {α : Type} {s : State} {ring : SharedRing α} (here : s.clock = clockOf ring.header)
    (idle : s.writer = .idle) (hostTime samplePos : UInt64) :
    ∃ s', Reaches step s s' ∧ s'.writer = .idle ∧ s'.completed = s.completed + 1 ∧
      s'.clock = clockOf (sharedAudioPublishClock ring hostTime samplePos).header := by
  have entered : step s (.publish hostTime samplePos) = some {s with
      writer := .entered (hostTime,samplePos)
      publications := s.publications ++ [(hostTime,samplePos)]} := by
    simp only [step, idle]
  refine ⟨_,reachesStep entered (reachesStep (l := .writer) rfl (reachesStep (l := .writer) rfl
    (reachesStep (l := .writer) rfl (reachesStep (l := .writer) rfl
    (reachesStep (l := .writer) rfl (reachesHere _)))))),rfl,rfl,?_⟩
  simp only [here]
  rfl

def answer (out : Pair) : Option Pair → Int × Pair
  | some pair => (0,pair)
  | none => (-1,out)

def Answered (s s' : State) (answer : Int × Pair) : Prop :=
  ∃ ret, s'.returns = s.returns ++ [ret] ∧ (ret.code,ret.after) = answer

theorem setReaderSame (s : State) (i : Nat) (r : Reader) : (setReader s i r).readers i = r :=
  if_pos rfl

theorem oddAttempt {s : State} {i : Nat} (attempting : (s.readers i).pc = .attempting)
    (nonzero : s.clock.seq ≠ 0) (odd : s.clock.seq &&& 1 ≠ 0) :
    step s (.reader i) = some (retry s i ⟨s.clock.seq,none⟩) := by
  simp only [step, stepReader, attempting, nonzero, if_false]
  rw [if_pos odd]

theorem loneOdd (n : Nat) {s : State} {i : Nat} (attempting : (s.readers i).pc = .attempting)
    (left : (s.readers i).attempts.length + (n + 1) = 16) (nonzero : s.clock.seq ≠ 0)
    (odd : s.clock.seq &&& 1 ≠ 0) :
    ∃ s', Reaches step s s' ∧ Answered s s' (answer (s.readers i).out none) := by
  induction n generalizing s with
  | zero =>
    have taken := oddAttempt attempting nonzero odd
    simp only [retry, List.length_append, List.length_singleton, left, Nat.lt_irrefl, if_false] at taken
    exact ⟨_,reachesStep taken (reachesHere _),_,rfl,rfl⟩
  | succ n ih =>
    have taken := oddAttempt attempting nonzero odd
    have more : (s.readers i).attempts.length + 1 < 16 := by omega
    simp only [retry, List.length_append, List.length_singleton, more, if_true] at taken
    let attempts := (s.readers i).attempts ++ [(⟨s.clock.seq,none⟩ : Attempt)]
    let r : Reader := {s.readers i with pc := .attempting, attempts}
    have same := setReaderSame s i r
    have length : attempts.length = (s.readers i).attempts.length + 1 := List.length_append
    obtain ⟨s',reached,answered⟩ := ih (s := setReader s i r) (by rw [same])
      (by rw [same]; simp only [r]; omega) nonzero odd
    rw [same] at answered
    exact ⟨s',reachesStep taken reached,answered⟩

theorem loneAttempt {s : State} {i : Nat} (loaded : (s.readers i).pc = .loadedSeq s.clock.seq) :
    ∃ s', Reaches step s s' ∧ Answered s s' (0,(s.clock.hostTime,s.clock.samplePos)) := by
  let timed : Reader := {s.readers i with pc := .loadedTime s.clock.seq s.clock.hostTime}
  let placed : Reader := {timed with pc := .loadedPos s.clock.seq s.clock.hostTime s.clock.samplePos}
  have first : step s (.reader i) = some (setReader s i timed) := by
    simp only [step, stepReader, loaded]
    rfl
  have second : step (setReader s i timed) (.reader i) = some (setReader (setReader s i timed) i placed) := by
    simp only [step, stepReader, setReaderSame, timed]
    rfl
  have third : step (setReader (setReader s i timed) i placed) (.reader i) =
      some (giveBack (setReader (setReader s i timed) i placed) i 0 (s.clock.hostTime,s.clock.samplePos)
        (placed.attempts ++ [⟨s.clock.seq,some s.clock.seq⟩])) := by
    simp only [step, stepReader, setReaderSame, placed]
    exact if_pos rfl
  exact ⟨_,reachesStep first (reachesStep second (reachesStep third (reachesHere _))),_,rfl,rfl⟩

theorem loneGet {α : Type} {s : State} {ring : SharedRing α} (here : s.clock = clockOf ring.header)
    {i : Nat} (idle : (s.readers i).pc = .idle) (out : Pair) :
    ∃ s', Reaches step s s' ∧ Answered s s' (answer out (sharedAudioGetClock ring)) := by
  let r : Reader := ⟨.attempting,out,out,[]⟩
  let seq := s.clock.seq
  have entered : step s (.get i out) = some (setReader s i r) := by
    simp only [step, idle]
    rfl
  have same := setReaderSame s i r
  have attempting : ((setReader s i r).readers i).pc = .attempting := by rw [same]
  have number : ring.header.clockSeq = seq := by simp only [seq, here, clockOf]
  by_cases zero : seq = 0
  · have none : sharedAudioGetClock ring = none := by
      simp only [sharedAudioGetClock, sharedAudioGetClock.attempt, number, zero, if_true]
    have taken : step (setReader s i r) (.reader i) =
        some (giveBack (setReader s i r) i (-1) out [⟨seq,.none⟩]) := by
      simp only [step, stepReader, same, r]
      exact if_pos zero
    rw [none]
    exact ⟨_,reachesStep entered (reachesStep taken (reachesHere _)),_,rfl,rfl⟩
  · by_cases odd : seq &&& 1 ≠ 0
    · have none : sharedAudioGetClock ring = none := by
        simp only [sharedAudioGetClock, sharedAudioGetClock.attempt, number, zero, odd, if_true, if_false,
          ne_eq, not_false_eq_true]
      obtain ⟨s',reached,answered⟩ := loneOdd 15 attempting (by rw [same]; rfl) zero odd
      rw [same] at answered
      rw [none]
      exact ⟨s',reachesStep entered reached,answered⟩
    · have found : sharedAudioGetClock ring = some (s.clock.hostTime,s.clock.samplePos) := by
        simp only [sharedAudioGetClock, sharedAudioGetClock.attempt, number, zero, odd, if_false, here, clockOf]
      have first : step (setReader s i r) (.reader i) =
          some (setReader (setReader s i r) i {r with pc := .loadedSeq seq}) := by
        simp only [step, stepReader, same, r]
        exact (if_neg zero).trans (if_neg odd)
      obtain ⟨s',reached,answered⟩ := loneAttempt (s := setReader (setReader s i r) i
        {r with pc := .loadedSeq seq}) (by rw [setReaderSame]; rfl)
      rw [found]
      exact ⟨s',reachesStep entered (reachesStep first reached),answered⟩

end ReacJack.ClockSeqlock
