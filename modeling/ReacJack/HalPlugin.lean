import ReacJack.HalDriver
import ReacJack.SharedMapping

/-! The IO entry points of the HAL plug-in with the host's arguments, and the shared mapping
behind `gDevice_Ring`. What they open and close is written down. Between two calls anything
may happen to the shared memory. A call that followed a NULL `header` has no result. -/
namespace ReacJack.HalPlugin
open BufferLoops SharedAudio SharedMapping ObjectNames
open HalDriver hiding startIo stopIo getZeroTimeStamp doIOOperation

def kObjectIDDevice : UInt32 := 2

def kAudioServerPlugInIOOperationReadInput : UInt32 := 0x72656164

def kDeviceRingName : Name := [47,114,101,97,99,106,97,99,107,45,97,117,100,105,111]

inductive Status where
  | ok
  | badObject
  | illegalOperation
  deriving DecidableEq, Repr

def statusOf : OSStatus → Status
  | .ok => .ok
  | .illegalOperation => .illegalOperation

inductive RingCall where
  | opened (succeeded : Bool)
  | closed
  deriving DecidableEq, Repr

structure Plugin (α : Type) where
  driver : Driver
  ring : Handle
  shm : Shm
  samples : Nat → Nat → α
  log : List RingCall

variable {α : Type}

def ringOf (s : Plugin α) (audio : Handle) : Option (SharedRing α) :=
  audio.header.map fun object => ⟨(s.shm.objects object).header,s.samples object⟩

def store (s : Plugin α) (audio : Handle) (ring : Option (SharedRing α)) : Shm :=
  match audio.header, ring with
  | some object, some ring => modify s.shm object (fun o => {o with header := ring.header})
  | _, _ => s.shm

def badObject (inDriver : Bool) (inDeviceObjectID : UInt32) : Bool :=
  !inDriver || inDeviceObjectID ≠ kObjectIDDevice

/-- `inDriver` is whether it is the driver's own reference. -/
def startIo (s : Plugin α) (inDriver : Bool) (inDeviceObjectID : UInt32) (calls : OpenCalls) (now : Nat) :
    Status × Plugin α :=
  if badObject inDriver inDeviceObjectID then (.badObject,s)
  else if s.driver.ioIsRunning = 0 then
    let (code,ring) := sharedAudioOpen s.ring s.shm kDeviceRingName calls
    let (status,driver,sought) := HalDriver.startIo s.driver (if code = 0 then ringOf s ring else none) now
    (statusOf status,{s with driver, ring, shm := store s ring sought, log := s.log ++ [.opened (code = 0)]})
  else
    let (status,driver,_) := HalDriver.startIo s.driver (none : Option (SharedRing α)) now
    (statusOf status,{s with driver})

def stopIo (s : Plugin α) (inDriver : Bool) (inDeviceObjectID : UInt32) : Status × Plugin α :=
  if badObject inDriver inDeviceObjectID then (.badObject,s)
  else
    let (status,driver) := HalDriver.stopIo s.driver
    if s.driver.ioIsRunning ≠ 0 ∧ driver.ioIsRunning = 0 ∧ s.driver.ringIsOpen then
      (statusOf status,{s with driver, ring := sharedAudioClose s.ring, log := s.log ++ [.closed]})
    else (statusOf status,{s with driver})

def getZeroTimeStamp (s : Plugin α) (inDriver : Bool) (inDeviceObjectID : UInt32) (outputs : Bool)
    (fetched : Option (UInt64 × UInt64)) (now : Nat) : Option (Status × Option Stamp × Plugin α) :=
  if badObject inDriver inDeviceObjectID || !outputs then some (.badObject,none,s)
  else if s.driver.ringIsOpen ∧ s.ring.header = none then none
  else
    let (driver,stamp) := HalDriver.getZeroTimeStamp s.driver fetched now
    some (.ok,some stamp,{s with driver})

def doIOOperation [Zero α] (s : Plugin α) (inDriver : Bool) (inDeviceObjectID inOperationID : UInt32)
    (inIOBufferFrameSize : UInt32) (ioMainBuffer : Option (Nat → α)) :
    Option (Status × Option (Nat → α) × Plugin α) :=
  if badObject inDriver inDeviceObjectID then some (.badObject,ioMainBuffer,s)
  else match ioMainBuffer with
  | none => some (.ok,none,s)
  | some buffer =>
    if inOperationID ≠ kAudioServerPlugInIOOperationReadInput then some (.ok,some buffer,s)
    else if s.driver.ringIsOpen then
      (ringOf s s.ring).map fun ring =>
        let r := HalDriver.doIOOperation s.driver ring buffer inIOBufferFrameSize
        (.ok,some r.out,{s with shm := store s s.ring (some r.ring)})
    else
      some (.ok,some (memset buffer 0 0 (inIOBufferFrameSize.toNat * kDeviceChannelCount.toNat)),s)

structure Hosted (α : Type) where
  plugin : Plugin α
  starts : Nat
  stops : Nat

inductive Call (α : Type) where
  | startIo (inDriver : Bool) (inDeviceObjectID : UInt32) (calls : OpenCalls) (now : Nat)
  | stopIo (inDriver : Bool) (inDeviceObjectID : UInt32)
  | getZeroTimeStamp (inDriver : Bool) (inDeviceObjectID : UInt32) (outputs : Bool)
      (fetched : Option (UInt64 × UInt64)) (now : Nat)
  | doIOOperation (inDriver : Bool) (inDeviceObjectID inOperationID inIOBufferFrameSize : UInt32)
      (ioMainBuffer : Option (Nat → α))
  | others (shm : Shm) (samples : Nat → Nat → α)

def counted (status : Status) : Nat := if status = .ok then 1 else 0

def step [Zero α] (s : Hosted α) : Call α → Option (Hosted α)
  | .startIo inDriver inDeviceObjectID calls now =>
    let (status,plugin) := startIo s.plugin inDriver inDeviceObjectID calls now
    some {s with plugin, starts := s.starts + counted status}
  | .stopIo inDriver inDeviceObjectID =>
    let (status,plugin) := stopIo s.plugin inDriver inDeviceObjectID
    some {s with plugin, stops := s.stops + counted status}
  | .getZeroTimeStamp inDriver inDeviceObjectID outputs fetched now =>
    if s.plugin.driver.ioIsRunning = 0 then none
    else (getZeroTimeStamp s.plugin inDriver inDeviceObjectID outputs fetched now).map
      fun (_,_,plugin) => {s with plugin}
  | .doIOOperation inDriver inDeviceObjectID inOperationID inIOBufferFrameSize ioMainBuffer =>
    (doIOOperation s.plugin inDriver inDeviceObjectID inOperationID inIOBufferFrameSize ioMainBuffer).map
      fun (_,_,plugin) => {s with plugin}
  | .others shm samples => some {s with plugin := {s.plugin with shm, samples}}

def initialized (numer denom : UInt32) (shm : Shm) (samples : Nat → Nat → α) : Hosted α :=
  ⟨⟨initialize_ loaded numer denom,⟨none,none,0,0,[]⟩,shm,samples,[]⟩,0,0⟩

end ReacJack.HalPlugin
