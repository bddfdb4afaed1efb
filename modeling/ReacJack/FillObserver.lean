import ReacJack.TransitionRuns
import ReacJack.RingThreads

/-! `shared_audio_readable_frames` load by load while writer and reader go on. The writer's
process calls it in `print_status`, a process that is neither in `print_ring`; a side that
calls it does nothing else meanwhile. -/
namespace ReacJack.FillObserver
open SharedAudio RingThreads

inductive Party where
  | writer
  | reader
  | other
  deriving DecidableEq, Repr

inductive Operand where
  | writePos
  | readPos
  deriving DecidableEq, Repr

structure Positions where
  writePos : UInt64
  readPos : UInt64
  deriving DecidableEq, Repr

structure Report where
  party : Party
  operand : Operand
  first : Positions
  second : Positions
  value : UInt32
  deriving DecidableEq, Repr

inductive Call where
  | idle
  | begun (party : Party)
  -- of `first` the call itself has loaded `operand` only
  | halfway (party : Party) (operand : Operand) (first : Positions)

structure Watched (α : Type) where
  threads : Threads α
  call : Call
  reports : List Report

variable {α : Type}

inductive Action (α : Type) where
  | threads (label : Label α)
  | call (party : Party)
  | load (operand : Operand)
  | finish

def partyOf : Label α → Party
  | .write _ _ => .writer
  | .writer _ => .writer
  | .read _ => .reader
  | .reader _ => .reader

def caller : Call → Option Party
  | .idle => none
  | .begun party => some party
  | .halfway party _ _ => some party

def between (s : Threads α) : Party → Bool
  | .writer => match s.writer with | .idle => true | _ => false
  | .reader => match s.reader with | .idle => true | _ => false
  | .other => true

def positions (h : Header) : Positions := ⟨h.writePos,h.readPos⟩

def loaded (h : Header) (operand : Operand) (first : Positions) : Header :=
  match operand with
  | .writePos => {h with writePos := first.writePos}
  | .readPos => {h with readPos := first.readPos}

def step (s : Watched α) : Action α → Option (Watched α)
  | .threads label =>
    if caller s.call = some (partyOf label) then none
    else (RingThreads.step s.threads label).map (fun threads => {s with threads})
  | .call party =>
    match s.call with
    | .idle => if between s.threads party then some {s with call := .begun party} else none
    | _ => none
  | .load operand =>
    match s.call with
    | .begun party => some {s with call := .halfway party operand (positions s.threads.ring.header)}
    | _ => none
  | .finish =>
    match s.call with
    | .halfway party operand first =>
      let header := s.threads.ring.header
      let value := sharedAudioReadableFrames (loaded header operand first)
      some {s with call := .idle, reports := s.reports ++ [⟨party,operand,first,positions header,value⟩]}
    | _ => none

def watch (threads : Threads α) : Watched α := ⟨threads,.idle,[]⟩

end ReacJack.FillObserver
