import ReacJack.SharedFifo

/-! The ring's two sides step by step: every load and store of a position and every
copied sample is a step of its own, and the sides take turns in any order. A call
keeps the positions it loaded in its own locals, where they may go stale. The
caller's buffers belong to one side alone and are not part of the state. -/
namespace ReacJack.RingThreads
open SharedAudio SharedFifo

variable {α : Type}

structure Copy where
  channel : Nat
  slot : Nat
  frame : Nat
  deriving DecidableEq, Repr

/-- The `memcpy`s of `shared_audio_write` and `shared_audio_read`, one list each,
in program order. The order inside one `memcpy` is open. -/
def blockCopies (channels : Nat) (capacity index frames : UInt32) : List (List Copy) :=
  let first := firstPart frames capacity index
  (List.range channels).flatMap (fun ch =>
    let base := ch * capacity.toNat
    (List.range first.toNat).map (fun i => ⟨ch,base + index.toNat + i,i⟩) ::
      if first < frames then
        [(List.range (frames - first).toNat).map (fun i => ⟨ch,base + i,first.toNat + i⟩)]
      else [])

def rowCopies (channels : Nat) (capacity : UInt32) (readPos : UInt64) (count : UInt32) : List (List Copy) :=
  (List.range channels).flatMap (fun ch => (List.range count.toNat).map (fun frame =>
    [⟨ch,ch * capacity.toNat + (ringIndex (readPos + UInt64.ofNat frame) capacity).toNat,frame⟩]))

def takeCopy (choice : Nat) : List (List Copy) → Option (Copy × List (List Copy))
  | [] => none
  | [] :: rest => takeCopy choice rest
  | (c :: cs) :: rest =>
    (c :: cs)[choice]?.map (fun copy => (copy,(c :: cs).eraseIdx choice :: rest))

inductive WriterPc (α : Type) where
  | idle
  -- the two operands of `used` are loaded in either order
  | checking (channels : Nat → Nat → α) (frames : UInt32) (writePos readPos : Option UInt64)
  | admitted (channels : Nat → Nat → α) (frames : UInt32)
  | copying (channels : Nat → Nat → α) (frames : UInt32) (writePos : UInt64) (pending : List (List Copy))

inductive Shape where
  | planar
  | interleaved (outChannels : UInt16)
  deriving DecidableEq, Repr

inductive ReaderPc where
  | idle
  | regulating (outChannels : UInt16) (frames targetFill tolerance : UInt32)
  | measuring (outChannels : UInt16) (frames targetFill tolerance : UInt32) (readPos : UInt64)
  | dropping (outChannels : UInt16) (frames : UInt32) (readPos : UInt64) (drop : UInt32)
  | reading (shape : Shape) (frames insert : UInt32)
  | counting (shape : Shape) (frames insert : UInt32) (readPos : UInt64)
  | copying (frames insert : UInt32) (readPos : UInt64) (count : UInt32) (pending : List (List Copy))
  | seeking (targetFill : UInt32)
  | aiming (targetFill : UInt32) (writePos : UInt64)
  | jumping (writePos : UInt64) (newFill : UInt32)

structure Access (α : Type) where
  position : Nat
  channel : Nat
  value : α

structure Threads (α : Type) where
  ring : SharedRing α
  writer : WriterPc α
  reader : ReaderPc
  accepted : List (Frame α)
  stores : List (Access α)
  loads : List (Access α)

inductive ReadCall where
  | read (frames : UInt32)
  | readInterleaved (outChannels : UInt16) (frames : UInt32)
  | readInterleavedRegulated (outChannels : UInt16) (frames targetFill tolerance : UInt32)
  | seekToFill (targetFill : UInt32)

/- A side enters its next call or takes the next step of the one it is in.
`choice` settles what the code leaves open: which operand is loaded first, and the
order of a `memcpy`. -/
inductive Label (α : Type) where
  | write (channels : Nat → Nat → α) (frames : UInt32)
  | read (call : ReadCall)
  | writer (choice : Nat)
  | reader (choice : Nat)

def enter : ReadCall → ReaderPc
  | .read frames => .reading .planar frames 0
  | .readInterleaved outChannels frames => .reading (.interleaved outChannels) frames 0
  | .readInterleavedRegulated outChannels frames targetFill tolerance =>
    .regulating outChannels frames targetFill tolerance
  | .seekToFill targetFill => .seeking targetFill

def stepWriter (s : Threads α) (choice : Nat) : Option (Threads α) :=
  let header := s.ring.header
  match s.writer with
  | .idle => none
  | .checking channels frames none none =>
    if choice = 0 then some {s with writer := .checking channels frames (some header.writePos) none}
    else some {s with writer := .checking channels frames none (some header.readPos)}
  | .checking channels frames (some writePos) none =>
    some {s with writer := .checking channels frames (some writePos) (some header.readPos)}
  | .checking channels frames none (some readPos) =>
    some {s with writer := .checking channels frames (some header.writePos) (some readPos)}
  | .checking channels frames (some writePos) (some readPos) =>
    if sharedAudioWritableFrames {header with writePos, readPos} < frames then
      some {s with
        ring := {s.ring with header := {header with overruns := header.overruns + 1}}
        writer := .idle}
    else some {s with writer := .admitted channels frames}
  | .admitted channels frames =>
    let index := ringIndex header.writePos header.capacityFrames
    let pending := blockCopies header.channels.toNat header.capacityFrames index frames
    some {s with writer := .copying channels frames header.writePos pending}
  | .copying channels frames writePos pending =>
    if pending.flatten.isEmpty then
      some {s with
        ring := {s.ring with header := {header with writePos := writePos + frames.toUInt64}}
        writer := .idle
        accepted := s.accepted ++ block channels frames.toNat}
    else (takeCopy choice pending).map (fun (copy,pending) =>
      let value := channels copy.channel copy.frame
      {s with
        ring := {s.ring with samples := BufferLoops.put s.ring.samples copy.slot value}
        writer := .copying channels frames writePos pending
        stores := s.stores ++ [⟨writePos.toNat + copy.frame,copy.channel,value⟩]})

def regulate (outChannels : UInt16) (frames targetFill tolerance : UInt32) (readPos fill : UInt64) :
    ReaderPc :=
  if tooFull fill targetFill tolerance then
    .dropping outChannels frames readPos (clampCorrection (fill - targetFill.toUInt64).toUInt32)
  else if tooEmpty fill targetFill tolerance && decide (0 < frames) then
    let insert := clampCorrection (targetFill.toUInt64 - fill).toUInt32
    let insert := if frames < insert then frames else insert
    .reading (.interleaved outChannels) (frames - insert) insert
  else .reading (.interleaved outChannels) frames 0

def readCopies (header : Header) (shape : Shape) (readPos : UInt64) (count : UInt32) : List (List Copy) :=
  let capacity := header.capacityFrames
  match shape with
  | .planar => blockCopies header.channels.toNat capacity (ringIndex readPos capacity) count
  | .interleaved outChannels =>
    let copyChannels :=
      if header.channels < outChannels.toUInt32 then header.channels else outChannels.toUInt32
    rowCopies copyChannels.toNat capacity readPos count

def stepReader (s : Threads α) (choice : Nat) : Option (Threads α) :=
  let header := s.ring.header
  match s.reader with
  | .idle => none
  | .regulating outChannels frames targetFill tolerance =>
    some {s with reader := .measuring outChannels frames targetFill tolerance header.readPos}
  | .measuring outChannels frames targetFill tolerance readPos =>
    some {s with
      reader := regulate outChannels frames targetFill tolerance readPos (header.writePos - readPos)}
  | .dropping outChannels frames readPos drop =>
    some {s with
      ring := dropFrames s.ring readPos drop
      reader := .reading (.interleaved outChannels) frames 0}
  | .reading shape frames insert =>
    some {s with reader := .counting shape frames insert header.readPos}
  | .counting shape frames insert readPos =>
    let count := toRead (header.writePos - readPos) frames
    some {s with reader := .copying frames insert readPos count (readCopies header shape readPos count)}
  | .copying frames insert readPos count pending =>
    if pending.flatten.isEmpty then
      let header := finishRead header readPos count frames
      let inserted := if 0 < count then insert else 0
      some {s with
        ring := {s.ring with header := {header with
          insertedFrames := header.insertedFrames + inserted.toUInt64}}
        reader := .idle}
    else (takeCopy choice pending).map (fun (copy,pending) =>
      {s with
        reader := .copying frames insert readPos count pending
        loads := s.loads ++
          [⟨readPos.toNat + copy.frame,copy.channel,s.ring.samples copy.slot⟩]})
  | .seeking targetFill => some {s with reader := .aiming targetFill header.writePos}
  | .aiming targetFill writePos =>
    let fill := writePos - header.readPos
    let newFill := if fill < targetFill.toUInt64 then fill.toUInt32 else targetFill
    some {s with reader := .jumping writePos newFill}
  | .jumping writePos newFill =>
    some {s with
      ring := {s.ring with header := {header with
        readPos := writePos - newFill.toUInt64, resets := header.resets + 1}}
      reader := .idle}

def step (s : Threads α) : Label α → Option (Threads α)
  | .write channels frames =>
    match s.writer with
    | .idle => some {s with writer := .checking channels frames none none}
    | _ => none
  | .read call =>
    match s.reader with
    | .idle => some {s with reader := enter call}
    | _ => none
  | .writer choice => stepWriter s choice
  | .reader choice => stepReader s choice

theorem writeEnters {s next : Threads α} {channels : Nat → Nat → α} {frames : UInt32}
    (taken : step s (.write channels frames) = some next) :
    s.writer = .idle ∧ next = {s with writer := .checking channels frames none none} := by
  simp only [step] at taken
  split at taken
  · rename_i idle
    exact ⟨idle,(Option.some.inj taken).symm⟩
  · contradiction

theorem readEnters {s next : Threads α} {call : ReadCall} (taken : step s (.read call) = some next) :
    s.reader = .idle ∧ next = {s with reader := enter call} := by
  simp only [step] at taken
  split at taken
  · rename_i idle
    exact ⟨idle,(Option.some.inj taken).symm⟩
  · contradiction

def start (ring : SharedRing α) : Threads α := ⟨ring,.idle,.idle,[],[],[]⟩

end ReacJack.RingThreads
