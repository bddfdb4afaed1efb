import Mathlib.Data.List.Perm.Basic
import ReacJack.PipeWireRing
import ReacJack.TransitionRuns

/-! `audio_ring_write` on the capture thread and `audio_ring_read` on PipeWire's, step by
step: every load and store of a position and every copied sample is a step of its own, and
the threads take turns in any order. The positions a call has loaded are locals that may
go stale; the buffers of the callers belong to one thread alone. -/
namespace ReacJack.PipeWireThreads
open BufferLoops PipeWireRing

variable {w : Nat} {α : Type}

/-- Where the capture thread stands inside `audio_ring_write`. `pending` are the samples
that the current `memcpy` has still to move, counted from where it begins. -/
inductive WriterPc (w : Nat) (α : Type) where
  | idle
  | entered (interleaved : Nat → α) (frames : BitVec w)
  | checking (interleaved : Nat → α) (frames readPos : BitVec w)
  | moving (interleaved : Nat → α) (frames writePos written : BitVec w)
  | copying (interleaved : Nat → α) (frames writePos written index todo : BitVec w) (pending : List Nat)

inductive ReaderPc (w : Nat) (α : Type) where
  | idle
  | entered (out : Nat → α) (frames : BitVec w)
  | counting (out : Nat → α) (frames readPos : BitVec w)
  | moving (out : Nat → α) (frames readPos toRead readFrames : BitVec w)
  | copying (out : Nat → α) (frames readPos toRead readFrames index todo : BitVec w) (pending : List Nat)

structure Delivery (w : Nat) (α : Type) where
  frames : BitVec w
  toRead : BitVec w
  out : Nat → α

structure Threads (w : Nat) (α : Type) where
  ring : AudioRing w α
  writer : WriterPc w α
  reader : ReaderPc w α
  accepted : List (Nat → α)
  deliveries : List (Delivery w α)

/- A thread enters its next call or takes the next step of the one it is in. `choice` is
the order of the copies inside one `memcpy`, which the code leaves open. -/
inductive Label (w : Nat) (α : Type) where
  | write (interleaved : Nat → α) (frames : BitVec w)
  | read (out : Nat → α) (frames : BitVec w)
  | writer (choice : Nat)
  | reader (choice : Nat)

def frameRows (width : Nat) (interleaved : Nat → α) (frames : Nat) : List (Nat → α) :=
  (List.range frames).map (fun f ch => interleaved (f * width + ch))

def takePending (choice : Nat) (pending : List Nat) : Option (Nat × List Nat) :=
  pending[choice]?.map (fun e => (e,pending.eraseIdx choice))

def stepWriter (s : Threads w α) (choice : Nat) : Option (Threads w α) :=
  let ring := s.ring
  let width := ring.channels.toNat
  match s.writer with
  | .idle => none
  | .entered interleaved frames => some {s with writer := .checking interleaved frames ring.readPos}
  | .checking interleaved frames readPos =>
    let used := ring.writePos - readPos
    let freeFrames := ring.capacityFrames - used
    if freeFrames < frames then some {s with writer := .idle}
    else some {s with writer := .moving interleaved frames ring.writePos 0}
  | .moving interleaved frames writePos written =>
    if written < frames then
      let (index,todo) := chunk ring.capacityFrames writePos frames written
      some {s with
        writer := .copying interleaved frames writePos written index todo (List.range (todo.toNat * width))}
    else
      some {s with
        ring := {ring with writePos := writePos + frames}
        writer := .idle
        accepted := s.accepted ++ frameRows width interleaved frames.toNat}
  | .copying interleaved frames writePos written index todo pending =>
    if pending.isEmpty then some {s with writer := .moving interleaved frames writePos (written + todo)}
    else (takePending choice pending).map fun (e,pending) =>
      {s with
        ring := {ring with
          samples := put ring.samples (index.toNat * width + e) (interleaved (written.toNat * width + e))}
        writer := .copying interleaved frames writePos written index todo pending}

def stepReader [Zero α] (s : Threads w α) (choice : Nat) : Option (Threads w α) :=
  let ring := s.ring
  let width := ring.channels.toNat
  match s.reader with
  | .idle => none
  | .entered out frames => some {s with reader := .counting out frames ring.readPos}
  | .counting out frames readPos =>
    let available := ring.writePos - readPos
    let toRead := if available < frames then available else frames
    some {s with reader := .moving out frames readPos toRead 0}
  | .moving out frames readPos toRead readFrames =>
    if readFrames < toRead then
      let (index,todo) := chunk ring.capacityFrames readPos toRead readFrames
      some {s with
        reader := .copying out frames readPos toRead readFrames index todo (List.range (todo.toNat * width))}
    else
      let out :=
        if toRead < frames then memset out (toRead.toNat * width) 0 ((frames - toRead).toNat * width) else out
      some {s with
        ring := {ring with readPos := readPos + toRead}
        reader := .idle
        deliveries := s.deliveries ++ [⟨frames,toRead,out⟩]}
  | .copying out frames readPos toRead readFrames index todo pending =>
    if pending.isEmpty then some {s with reader := .moving out frames readPos toRead (readFrames + todo)}
    else (takePending choice pending).map fun (e,pending) =>
      let out := put out (readFrames.toNat * width + e) (ring.samples (index.toNat * width + e))
      {s with reader := .copying out frames readPos toRead readFrames index todo pending}

def step [Zero α] (s : Threads w α) : Label w α → Option (Threads w α)
  | .write interleaved frames =>
    match s.writer with
    | .idle => some {s with writer := .entered interleaved frames}
    | _ => none
  | .read out frames =>
    match s.reader with
    | .idle => some {s with reader := .entered out frames}
    | _ => none
  | .writer choice => stepWriter s choice
  | .reader choice => stepReader s choice

def start (ring : AudioRing w α) : Threads w α := ⟨ring,.idle,.idle,[],[]⟩

theorem writeEnters [Zero α] {s next : Threads w α} {interleaved : Nat → α} {frames : BitVec w}
    (taken : step s (.write interleaved frames) = some next) :
    s.writer = .idle ∧ next = {s with writer := .entered interleaved frames} := by
  simp only [step] at taken
  split at taken
  · rename_i idle
    exact ⟨idle,(Option.some.inj taken).symm⟩
  · contradiction

theorem readEnters [Zero α] {s next : Threads w α} {out : Nat → α} {frames : BitVec w}
    (taken : step s (.read out frames) = some next) :
    s.reader = .idle ∧ next = {s with reader := .entered out frames} := by
  simp only [step] at taken
  split at taken
  · rename_i idle
    exact ⟨idle,(Option.some.inj taken).symm⟩
  · contradiction

inductive WriterActs (s : Threads w α) : Threads w α → Prop
  | loads {interleaved frames} (at_ : s.writer = .entered interleaved frames) :
    WriterActs s {s with writer := .checking interleaved frames s.ring.readPos}
  | refuses {interleaved frames readPos} (at_ : s.writer = .checking interleaved frames readPos)
    (full : s.ring.capacityFrames - (s.ring.writePos - readPos) < frames) : WriterActs s {s with writer := .idle}
  | admits {interleaved frames readPos} (at_ : s.writer = .checking interleaved frames readPos)
    (room : ¬ s.ring.capacityFrames - (s.ring.writePos - readPos) < frames) :
    WriterActs s {s with writer := .moving interleaved frames s.ring.writePos 0}
  | begins {interleaved frames writePos written} (at_ : s.writer = .moving interleaved frames writePos written)
    (more : written < frames) : WriterActs s {s with
      writer := .copying interleaved frames writePos written
        (chunk s.ring.capacityFrames writePos frames written).1
        (chunk s.ring.capacityFrames writePos frames written).2
        (List.range ((chunk s.ring.capacityFrames writePos frames written).2.toNat * s.ring.channels.toNat))}
  | publishes {interleaved frames writePos written}
    (at_ : s.writer = .moving interleaved frames writePos written) (ended : ¬ written < frames) :
    WriterActs s {s with
      ring := {s.ring with writePos := writePos + frames}
      writer := .idle
      accepted := s.accepted ++ frameRows s.ring.channels.toNat interleaved frames.toNat}
  | copied {interleaved frames writePos written index todo}
    (at_ : s.writer = .copying interleaved frames writePos written index todo []) :
    WriterActs s {s with writer := .moving interleaved frames writePos (written + todo)}
  | copies {interleaved frames writePos written index todo pending e rest} {choice : Nat}
    (at_ : s.writer = .copying interleaved frames writePos written index todo pending)
    (chosen : takePending choice pending = some (e,rest)) : WriterActs s {s with
      ring := {s.ring with
        samples := put s.ring.samples (index.toNat * s.ring.channels.toNat + e)
          (interleaved (written.toNat * s.ring.channels.toNat + e))}
      writer := .copying interleaved frames writePos written index todo rest}

theorem writerActs {s next : Threads w α} {choice : Nat} (taken : stepWriter s choice = some next) :
    WriterActs s next := by
  cases at_ : s.writer with
  | idle => simp [stepWriter, at_] at taken
  | entered interleaved frames =>
    simp only [stepWriter, at_] at taken
    cases Option.some.inj taken
    exact .loads at_
  | checking interleaved frames readPos =>
    simp only [stepWriter, at_] at taken
    split at taken <;> rename_i test <;> cases Option.some.inj taken
    · exact .refuses at_ test
    · exact .admits at_ test
  | moving interleaved frames writePos written =>
    simp only [stepWriter, at_] at taken
    split at taken <;> rename_i test <;> cases Option.some.inj taken
    · exact .begins at_ test
    · exact .publishes at_ test
  | copying interleaved frames writePos written index todo pending =>
    simp only [stepWriter, at_] at taken
    split at taken
    · rename_i none_
      rw [List.isEmpty_iff] at none_
      subst none_
      cases Option.some.inj taken
      exact .copied at_
    · obtain ⟨⟨e,rest⟩,chosen,rfl⟩ := Option.map_eq_some_iff.mp taken
      exact .copies at_ chosen

inductive ReaderActs [Zero α] (s : Threads w α) : Threads w α → Prop
  | loads {out frames} (at_ : s.reader = .entered out frames) :
    ReaderActs s {s with reader := .counting out frames s.ring.readPos}
  | counts {out frames readPos} (at_ : s.reader = .counting out frames readPos) : ReaderActs s {s with
      reader := .moving out frames readPos
        (if s.ring.writePos - readPos < frames then s.ring.writePos - readPos else frames) 0}
  | begins {out frames readPos toRead readFrames} (at_ : s.reader = .moving out frames readPos toRead readFrames)
    (more : readFrames < toRead) : ReaderActs s {s with
      reader := .copying out frames readPos toRead readFrames
        (chunk s.ring.capacityFrames readPos toRead readFrames).1
        (chunk s.ring.capacityFrames readPos toRead readFrames).2
        (List.range ((chunk s.ring.capacityFrames readPos toRead readFrames).2.toNat * s.ring.channels.toNat))}
  | returns {out frames readPos toRead readFrames} (at_ : s.reader = .moving out frames readPos toRead readFrames)
    (ended : ¬ readFrames < toRead) : ReaderActs s {s with
      ring := {s.ring with readPos := readPos + toRead}
      reader := .idle
      deliveries := s.deliveries ++ [⟨frames,toRead,
        if toRead < frames then
          memset out (toRead.toNat * s.ring.channels.toNat) 0 ((frames - toRead).toNat * s.ring.channels.toNat)
        else out⟩]}
  | copied {out frames readPos toRead readFrames index todo}
    (at_ : s.reader = .copying out frames readPos toRead readFrames index todo []) :
    ReaderActs s {s with reader := .moving out frames readPos toRead (readFrames + todo)}
  | copies {out frames readPos toRead readFrames index todo pending e rest} {choice : Nat}
    (at_ : s.reader = .copying out frames readPos toRead readFrames index todo pending)
    (chosen : takePending choice pending = some (e,rest)) : ReaderActs s {s with
      reader := .copying (put out (readFrames.toNat * s.ring.channels.toNat + e)
        (s.ring.samples (index.toNat * s.ring.channels.toNat + e)))
        frames readPos toRead readFrames index todo rest}

theorem readerActs [Zero α] {s next : Threads w α} {choice : Nat} (taken : stepReader s choice = some next) :
    ReaderActs s next := by
  cases at_ : s.reader with
  | idle => simp [stepReader, at_] at taken
  | entered out frames =>
    simp only [stepReader, at_] at taken
    cases Option.some.inj taken
    exact .loads at_
  | counting out frames readPos =>
    simp only [stepReader, at_] at taken
    cases Option.some.inj taken
    exact .counts at_
  | moving out frames readPos toRead readFrames =>
    simp only [stepReader, at_] at taken
    split at taken <;> rename_i test <;> cases Option.some.inj taken
    · exact .begins at_ test
    · exact .returns at_ test
  | copying out frames readPos toRead readFrames index todo pending =>
    simp only [stepReader, at_] at taken
    split at taken
    · rename_i none_
      rw [List.isEmpty_iff] at none_
      subst none_
      cases Option.some.inj taken
      exact .copied at_
    · obtain ⟨⟨e,rest⟩,chosen,rfl⟩ := Option.map_eq_some_iff.mp taken
      exact .copies at_ chosen

theorem takePendingMember {choice e : Nat} {pending rest : List Nat}
    (taken : takePending choice pending = some (e,rest)) : ∀ k, k ∈ pending ↔ k = e ∨ k ∈ rest := by
  obtain ⟨chosen,here,both⟩ := Option.map_eq_some_iff.mp taken
  obtain ⟨inside,there⟩ := List.getElem?_eq_some_iff.mp here
  cases both
  intro k
  have split := (List.getElem_cons_eraseIdx_perm inside).mem_iff (a := k)
  rw [there, List.mem_cons] at split
  exact split.symm

end ReacJack.PipeWireThreads
