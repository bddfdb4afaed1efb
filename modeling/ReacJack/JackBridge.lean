import ReacJack.JackRingbuffer
import ReacJack.Daemon

/-! `reacjack.c`: the capture thread, the JACK callback and the part of `main` that runs
beside them. A callback is two steps, its query of the ring and its read. -/
namespace ReacJack.JackBridge
open BufferLoops ReacDecode JackRingbuffer
open Daemon (counterGap)

def numberOfChannels : UInt32 := 40

inductive ReacError where
  | ok
  | capture
  | ringRead
  | shortPacket
  | badPacketSize
  | tooManyChannels
  | jackBufferTooLarge
  | jackPort
  deriving DecidableEq, Repr

structure Bridge (capacity : Nat) where
  ringbuffer : Ringbuffer capacity
  processBufferBytes : Nat
  lostPackages : Nat
  netBufferUnderrun : Nat
  jackBufferUnderrun : Nat
  nonREAC : Nat
  malformedPackets : Nat
  captureErrors : Nat
  dataSize : Nat
  currentNumberOfChannels : UInt32
  error : ReacError
  receivedPackages : Nat
  processStartTime : UInt64
  lastCounter : UInt16
  haveLastCounter : Bool
  spaceAmount : Nat
  dataAmount : Nat

variable {capacity : Nat}

def bridgeOf (capacity : Nat) (jackBufferFrames : UInt32) : Bridge capacity where
  ringbuffer := jackRingbufferCreate capacity
  processBufferBytes := jackBufferFrames.toNat * numberOfChannels.toNat * reacBytesPerSample
  lostPackages := 0
  netBufferUnderrun := 0
  jackBufferUnderrun := 0
  nonREAC := 0
  malformedPackets := 0
  captureErrors := 0
  dataSize := 0
  currentNumberOfChannels := 0
  error := .ok
  receivedPackages := 0
  processStartTime := 0
  lastCounter := 0
  haveLastCounter := false
  spaceAmount := 0
  dataAmount := 0

def silenceOutputs (nframes channels : UInt32) (outputs : Outputs) : Outputs :=
  let limit := if channels = 0 ∨ numberOfChannels < channels then numberOfChannels else channels
  loop limit.toNat (fun i outputs =>
    put outputs i ((outputs i).map (fun out => memset out 0 0 nframes.toNat))) outputs

/-! The capture thread. -/

def notePacketCounter (b : Bridge capacity) (counter : UInt16) : Bridge capacity :=
  {b with
    lostPackages := b.lostPackages + (counterGap b.haveLastCounter b.lastCounter counter).toNat
    lastCounter := counter
    haveLastCounter := true}

def writePayloadToRing (b : Bridge capacity) (payload : Bytes) (bytes : Nat) : Int × Bridge capacity :=
  if bytes = 0 then (-1,b)
  else if jackRingbufferWriteSpace b.ringbuffer < bytes then
    (-1,{b with netBufferUnderrun := b.netBufferUnderrun + 1})
  else
    let (written,ringbuffer) := jackRingbufferWrite b.ringbuffer payload bytes
    (if written = bytes then 0 else -1,{b with ringbuffer})

def copyPayload (b : Bridge capacity) (packet : ReacPacketView) : Bridge capacity :=
  let b := notePacketCounter {b with receivedPackages := b.receivedPackages + 1} packet.counter
  let (result,b) := writePayloadToRing b (packet.payload.getD []) b.dataSize
  if result ≠ 0 then {b with error := .ringRead} else b

def copyFrame (b : Bridge capacity) (frame : Bytes) : Bridge capacity :=
  let (parseStatus,parsed) := reacParsePacket (some frame) (some cleared)
  let packet := parsed.getD cleared
  if parseStatus = .notReac then {b with nonREAC := b.nonREAC + 1}
  else if parseStatus ≠ .ok then
    {b with
      malformedPackets := b.malformedPackets + 1
      error := if parseStatus = .shortPacket then .shortPacket else .badPacketSize}
  else if b.dataSize = 0 then
    copyPayload {b with
      dataSize := packet.payloadSize
      currentNumberOfChannels := packet.channels.toUInt32} packet
  else if b.dataSize ≠ packet.payloadSize then
    {b with malformedPackets := b.malformedPackets + 1, error := .badPacketSize}
  else copyPayload b packet

/-- What `capture_next` comes back with. The Linux backend counts a frame that did not
fit its slot as malformed, either backend other failures as capture errors. -/
inductive CaptureResult where
  | stopped
  | truncated
  | failed
  | frame (data : Bytes)

def copyDataRound (b : Bridge capacity) : CaptureResult → Bridge capacity
  | .stopped => b
  | .truncated => {b with malformedPackets := b.malformedPackets + 1, error := .capture}
  | .failed => {b with captureErrors := b.captureErrors + 1, error := .capture}
  | .frame data => copyFrame b data

/-! The callback. -/

structure Cycle where
  nframes : UInt32
  lastFrameTime : UInt64
  buffers : Outputs

inductive Queried where
  | silent (outputs : Outputs)
  | reading (bufferSize : Nat)

/-- `process` up to its read. `size_t` is 64 bits wide. -/
def processQuery (b : Bridge capacity) (cycle : Cycle) : Bridge capacity × Queried :=
  let b := {b with
    dataAmount := jackRingbufferReadSpace b.ringbuffer
    spaceAmount := jackRingbufferWriteSpace b.ringbuffer}
  if b.currentNumberOfChannels = 0 ∨ b.dataSize = 0 then
    (b,.silent (silenceOutputs cycle.nframes numberOfChannels cycle.buffers))
  else
    let bufferSize := cycle.nframes.toNat * b.currentNumberOfChannels.toNat * reacBytesPerSample % 2 ^ 64
    let silence := silenceOutputs cycle.nframes b.currentNumberOfChannels cycle.buffers
    if b.processBufferBytes < bufferSize then
      ({b with error := .jackBufferTooLarge, jackBufferUnderrun := b.jackBufferUnderrun + 1},.silent silence)
    else
      let b := {b with
        processStartTime := if b.processStartTime = 0 then cycle.lastFrameTime else b.processStartTime}
      if b.dataAmount < bufferSize then
        ({b with
          jackBufferUnderrun := b.jackBufferUnderrun + 1
          processStartTime := cycle.lastFrameTime
          receivedPackages := b.dataAmount / (3 * b.currentNumberOfChannels).toNat},.silent silence)
      else (b,.reading bufferSize)

def processRead (b : Bridge capacity) (cycle : Cycle) (bufferSize : Nat) : Bridge capacity × Outputs :=
  let (processBuffer,ringbuffer) := jackRingbufferRead b.ringbuffer bufferSize
  let b := {b with ringbuffer}
  let silence := silenceOutputs cycle.nframes b.currentNumberOfChannels
  let read := processBuffer.length
  if read ≠ bufferSize then ({b with error := .ringRead},silence cycle.buffers)
  else if ∃ i < b.currentNumberOfChannels.toNat, (cycle.buffers i).isNone then
    ({b with error := .jackPort},silence cycle.buffers)
  else
    let (decodeStatus,decoded) := reacDecodeSamplesToChannels (some processBuffer) read
      b.currentNumberOfChannels.toUInt16 cycle.nframes.toNat (some cycle.buffers)
    let outputs := decoded.getD cycle.buffers
    if decodeStatus ≠ .ok then ({b with error := .badPacketSize},silence outputs)
    else ({b with error := .ok},outputs)

def resetAll (b : Bridge capacity) : Bridge capacity :=
  {b with
    ringbuffer := jackRingbufferReset b.ringbuffer
    lostPackages := 0
    netBufferUnderrun := 0
    jackBufferUnderrun := 0
    malformedPackets := 0
    captureErrors := 0
    receivedPackages := 0
    error := .ok
    processStartTime := 0
    haveLastCounter := false}

/-! The three together. -/

structure System (capacity : Nat) where
  bridge : Bridge capacity
  grabbing : Bool
  processing : Option (Cycle × Nat)

inductive Action where
  | copyData (result : CaptureResult)
  | processQuery (cycle : Cycle)
  | processRead
  | reset

def boot (b : Bridge capacity) : System capacity := ⟨b,true,none⟩

def act (s : System capacity) : Action → Option (System capacity)
  | .copyData result =>
    if s.grabbing then
      some {s with
        bridge := copyDataRound s.bridge result
        grabbing := match result with | .stopped => false | _ => true}
    else none
  | .processQuery cycle =>
    match s.processing with
    | some _ => none
    | none =>
      match processQuery s.bridge cycle with
      | (bridge,.silent _) => some {s with bridge}
      | (bridge,.reading bufferSize) => some {s with bridge, processing := some (cycle,bufferSize)}
  | .processRead => s.processing.map (fun (cycle,bufferSize) =>
      {s with bridge := (processRead s.bridge cycle bufferSize).1, processing := none})
  | .reset => some {s with bridge := resetAll s.bridge}

end ReacJack.JackBridge
