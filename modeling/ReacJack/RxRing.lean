import ReacJack.JackBridge

/-! The Linux backend of the capture thread: a ring of slots in memory shared with the
kernel, and `copyData` with `process_rx` and `process_rx_release` access by access. The
kernel writes into a free slot first and says so afterwards. A frame that it does not
flag with `TP_STATUS_COPY` lies whole in its slot. -/
namespace ReacJack.RxRing
open BufferLoops ReacDecode JackBridge

def confRingFrames : Nat := 128
def tpStatusKernel : UInt64 := 0
def tpStatusUser : UInt64 := 1
def tpStatusCopy : UInt64 := 2

structure Slot where
  tpStatus : UInt64
  tpLen : UInt32
  frame : Bytes

/-- `capture_next` makes an `int` of the length, and `copyData` zero of a negative one. -/
def frameData (slot : Slot) (size : Int32) : Bytes :=
  slot.frame.take (if size < 0 then 0 else size.toInt.toNat)

inductive Pc where
  | capturing
  | waiting
  | polling
  | checking
  | skipping
  | skipped
  | failing
  | parsing (size : Int32)
  | storing (packet : ReacPacketView) (size : Int32)
  | releasing
  | released

structure Receiver (capacity : Nat) where
  ring : Nat → Slot
  head : Nat
  filling : Bool
  rxringOffset : Nat
  bridge : Bridge capacity
  pc : Pc

variable {capacity : Nat}

def header (s : Receiver capacity) : Slot := s.ring s.rxringOffset

def setStatus (s : Receiver capacity) (tpStatus : UInt64) : Nat → Slot :=
  put s.ring s.rxringOffset {header s with tpStatus}

def nextOffset (s : Receiver capacity) : Nat := (s.rxringOffset + 1) &&& (confRingFrames - 1)

def parseFrame (s : Receiver capacity) (size : Int32) : Receiver capacity :=
  let b := s.bridge
  let (parseStatus,parsed) := reacParsePacket (some (frameData (header s) size)) (some cleared)
  let packet := parsed.getD cleared
  if parseStatus = .notReac then {s with bridge := {b with nonREAC := b.nonREAC + 1}, pc := .releasing}
  else if parseStatus ≠ .ok then
    {s with
      bridge := {b with
        malformedPackets := b.malformedPackets + 1
        error := if parseStatus = .shortPacket then .shortPacket else .badPacketSize}
      pc := .releasing}
  else if b.dataSize = 0 then
    {s with
      bridge := {b with
        dataSize := packet.payloadSize
        currentNumberOfChannels := packet.channels.toUInt32}
      pc := .storing packet size}
  else if b.dataSize ≠ packet.payloadSize then
    {s with
      bridge := {b with malformedPackets := b.malformedPackets + 1, error := .badPacketSize}
      pc := .releasing}
  else {s with pc := .storing packet size}

def storePayload (s : Receiver capacity) (packet : ReacPacketView) (size : Int32) : Bridge capacity :=
  copyPayload s.bridge {packet with payload := some ((frameData (header s) size).drop reacPacketOverhead)}

def copyData (s : Receiver capacity) : Option (Receiver capacity) :=
  match s.pc with
  | .capturing => some {s with pc := .waiting}
  | .waiting => some {s with pc := if (header s).tpStatus &&& tpStatusUser = 0 then .polling else .checking}
  | .polling => none
  | .checking =>
    if (header s).tpStatus &&& tpStatusCopy ≠ 0 then
      some {s with bridge := {s.bridge with malformedPackets := s.bridge.malformedPackets + 1}, pc := .skipping}
    else some {s with pc := .parsing (header s).tpLen.toInt32}
  | .skipping => some {s with ring := setStatus s tpStatusKernel, pc := .skipped}
  | .skipped => some {s with rxringOffset := nextOffset s, pc := .failing}
  | .failing => some {s with bridge := {s.bridge with error := .capture}, pc := .capturing}
  | .parsing size => some (parseFrame s size)
  | .storing packet size => some {s with bridge := storePayload s packet size, pc := .releasing}
  | .releasing => some {s with ring := setStatus s tpStatusKernel, pc := .released}
  | .released => some {s with rxringOffset := nextOffset s, pc := .capturing}

inductive Poll where
  | ready
  | timeout
  | interrupted
  | failed

def poll (s : Receiver capacity) (result : Poll) : Option (Receiver capacity) :=
  match s.pc with
  | .polling =>
    match result with
    | .failed =>
      some {s with bridge := {s.bridge with captureErrors := s.bridge.captureErrors + 1}, pc := .failing}
    | _ => some {s with pc := .waiting}
  | _ => none

def kernelWrite (s : Receiver capacity) (frame : Bytes) : Option (Receiver capacity) :=
  if s.filling = false ∧ (s.ring s.head).tpStatus = tpStatusKernel then
    some {s with ring := put s.ring s.head ⟨tpStatusKernel,UInt32.ofNat frame.length,frame⟩, filling := true}
  else none

def kernelPublish (s : Receiver capacity) (copy : Bool) : Option (Receiver capacity) :=
  if s.filling then
    some {s with
      ring := put s.ring s.head {s.ring s.head with
        tpStatus := if copy then tpStatusUser ||| tpStatusCopy else tpStatusUser}
      head := (s.head + 1) % confRingFrames
      filling := false}
  else none

inductive Action where
  | kernelWrite (frame : Bytes)
  | kernelPublish (copy : Bool)
  | copyData
  | poll (result : Poll)

def act (s : Receiver capacity) : Action → Option (Receiver capacity)
  | .kernelWrite frame => kernelWrite s frame
  | .kernelPublish copy => kernelPublish s copy
  | .copyData => copyData s
  | .poll result => poll s result

def opened (ring : Nat → Slot) (bridge : Bridge capacity) : Receiver capacity :=
  ⟨fun i => {ring i with tpStatus := tpStatusKernel},0,false,0,bridge,.capturing⟩

end ReacJack.RxRing
