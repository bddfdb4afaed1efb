import ReacJack.PipeWireLedger
import ReacJack.PipeWireGuarantees

/-! `reacjack-pw` as its two threads run it: a round of `capture_thread_main` goes up to
`audio_ring_write`, which then takes its own steps, and what comes after it belongs to the
step that returns; `on_process` the same around `audio_ring_read`. -/
namespace ReacJack.PipeWireProgram
open ReacDecode PipeWire PipeWireThreads
open Daemon (channelPtrs storageBehind)
open PipeWireLedger (asked)
open PipeWireRing (audioRingWrite interleavePacket)

def captureEntry (s : Thread) (bytes : Bytes) : Thread × Option UInt16 :=
  let packetBytes := bytes.take reacjackPwPacketBytes
  let (parseStatus,parsed) := reacParsePacket (some packetBytes) (some cleared)
  let packet := parsed.getD cleared
  if parseStatus = .notReac then
    ({s with app := {s.app with nonReacPackets := s.app.nonReacPackets + 1}},none)
  else if parseStatus ≠ .ok then ({s with app := countMalformed s.app},none)
  else if packet.channels ≠ s.app.channels then ({s with app := countMalformed s.app},none)
  else
    let (decodeStatus,outputs) := reacDecodeSamplesToChannels packet.payload packet.payloadSize
      packet.channels reacFramesPerPacket (some (channelPtrs s.channelStorage))
    let channelStorage := storageBehind outputs s.channelStorage
    if decodeStatus ≠ .ok then ({s with app := countMalformed s.app, channelStorage},none)
    else
      let interleaved := interleavePacket s.interleaved channelStorage s.app.channels reacFramesPerPacket
      (⟨s.app,channelStorage,interleaved⟩,some packet.counter)

def captureExit (app : ReacPw) (counter : UInt16) (code : Int) : ReacPw :=
  if code ≠ 0 then {app with ringOverruns := app.ringOverruns + 1}
  else
    let app := noteCounter app counter
    {app with receivedPackets := app.receivedPackets + 1}

theorem captureFrameSplit (s : Thread) (bytes : Bytes) :
    captureFrame s bytes =
      match captureEntry s bytes with
      | (s',none) => some s'
      | (s',some counter) => (audioRingWrite s'.app.ring s'.interleaved 12).map fun (code,ring) =>
        {s' with app := captureExit {s'.app with ring} counter code} := by
  unfold captureFrame captureEntry
  dsimp only
  split
  · rfl
  split
  · rfl
  split
  · rfl
  split
  · rfl
  refine congrArg (fun f => Option.map f _) ?_
  funext ⟨code,ring⟩
  simp only [captureExit]
  split <;> rfl

def writeReturns (s : Threads 64 Rat) : Option Int :=
  match s.writer with
  | .checking _ frames readPos =>
    if s.ring.capacityFrames - (s.ring.writePos - readPos) < frames then some (-1) else none
  | .moving _ frames _ written => if written < frames then none else some 0
  | _ => none

def readReturns (s : Threads 64 Rat) : Option Bool :=
  match s.reader with
  | .moving _ frames _ toRead readFrames => if readFrames < toRead then none else some (decide (toRead < frames))
  | _ => none

/-- The ring lives in `threads`, the one in `thread.app` is not looked at. `writing` is the
packet that the capture thread is storing, with its counter. -/
structure Program where
  threads : Threads 64 Rat
  thread : Thread
  writing : Option (Bytes × UInt16)
  captured : List Bytes
  accepted : List Bytes

inductive Event where
  | capture (c : Capture)
  | writer (choice : Nat)
  | process (buffer : PwBuffer)
  | reader (choice : Nat)

def writeDone (p : Program) (code : Int) : Program :=
  match p.writing with
  | none => p
  | some (bytes,counter) =>
    {p with
      thread := {p.thread with app := captureExit p.thread.app counter code}
      writing := none
      accepted := if code ≠ 0 then p.accepted else p.accepted ++ [bytes]}

def readDone (p : Program) (short : Bool) : Program :=
  if short then
    {p with thread := {p.thread with app :=
      {p.thread.app with pipewireUnderruns := p.thread.app.pipewireUnderruns + 1}}}
  else p

def step (p : Program) : Event → Option Program
  | .capture c =>
    if p.writing.isSome then none
    else
      match c with
      | .nothing => some p
      | .error =>
        some {p with thread := {p.thread with app :=
          {p.thread.app with captureErrors := p.thread.app.captureErrors + 1}}}
      | .frame bytes =>
        match captureEntry p.thread bytes with
        | (thread,none) => some {p with thread, captured := p.captured ++ [bytes]}
        | (thread,some counter) =>
          (PipeWireThreads.step p.threads (.write thread.interleaved 12)).map fun threads =>
            {p with threads, thread, writing := some (bytes,counter), captured := p.captured ++ [bytes]}
  | .writer choice =>
    (stepWriter p.threads choice).map fun threads =>
      match writeReturns p.threads with
      | some code => writeDone {p with threads} code
      | none => {p with threads}
  | .process buffer =>
    (PipeWireThreads.step p.threads (.read buffer.data (asked p.thread.app buffer).toBitVec)).map fun threads =>
      {p with threads}
  | .reader choice =>
    (stepReader p.threads choice).map fun threads =>
      match readReturns p.threads with
      | some short => readDone {p with threads} short
      | none => {p with threads}

def opening (channels : UInt16) (channelStorage : Nat → Nat → Rat) (interleaved : Nat → Rat) : Program :=
  ⟨start (appOf channels).ring,⟨appOf channels,channelStorage,interleaved⟩,none,[],[]⟩

end ReacJack.PipeWireProgram
