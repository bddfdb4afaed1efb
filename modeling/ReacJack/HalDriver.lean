import Mathlib.Data.Rat.Floor
import Mathlib.Algebra.Order.Group.Abs
import ReacJack.SharedAudio

/-! The IO part of the HAL plug-in, called with the driver's own references. A
`Float64` is the rational it stands for and its arithmetic is exact; a conversion to
`UInt64` truncates. Host times are those of `mach_absolute_time`, which a session
never wraps; published observations are the ring's 64-bit values and subtract as
such. The seed counts without its wrap. -/
namespace ReacJack.HalDriver
open BufferLoops SharedAudio

def kDeviceChannelCount : UInt16 := 40
def kDeviceRingFrames : Nat := 8192
def kDeviceTargetFill : UInt32 := 4800
def kDeviceFillTolerance : UInt32 := 2400
def kClockMinObservedFrames : UInt64 := 24000
def kClockMaxRateSkew : Rat := 1 / 100
def kDeviceSampleRate : Rat := 48000

inductive OSStatus where
  | ok
  | illegalOperation
  deriving DecidableEq, Repr

structure Driver where
  ioIsRunning : Nat
  hostTicksPerFrame : Rat
  anchorHostTime : Nat
  anchorSampleTime : Rat
  lastHostTime : Nat
  lastSampleTime : Rat
  timelineSeed : Nat
  slavedTicksPerFrame : Rat
  clockRefValid : Bool
  clockRefHostTime : UInt64
  clockRefSamplePos : UInt64
  ringIsOpen : Bool
  deriving DecidableEq, Repr

def loaded : Driver where
  ioIsRunning := 0
  hostTicksPerFrame := 0
  anchorHostTime := 0
  anchorSampleTime := 0
  lastHostTime := 0
  lastSampleTime := 0
  timelineSeed := 1
  slavedTicksPerFrame := 0
  clockRefValid := false
  clockRefHostTime := 0
  clockRefSamplePos := 0
  ringIsOpen := false

def initialize_ (d : Driver) (numer denom : UInt32) : Driver :=
  let ticksPerSecond : Rat := 1000000000 * denom.toNat / numer.toNat
  {d with hostTicksPerFrame := ticksPerSecond / kDeviceSampleRate}

variable {α : Type}

/-- `shm` is the ring that `shared_audio_open` finds under the device's name. -/
def startIo (d : Driver) (shm : Option (SharedRing α)) (now : Nat) :
    OSStatus × Driver × Option (SharedRing α) :=
  if d.ioIsRunning = 2 ^ 64 - 1 then (.illegalOperation,d,shm)
  else if d.ioIsRunning = 0 then
    (.ok,
      {d with
        anchorHostTime := now
        anchorSampleTime := 0
        lastHostTime := now
        lastSampleTime := 0
        slavedTicksPerFrame := d.hostTicksPerFrame
        clockRefValid := false
        ringIsOpen := shm.isSome
        ioIsRunning := d.ioIsRunning + 1},
      shm.map (fun ring => (sharedAudioSeekToFill ring kDeviceTargetFill).2))
  else (.ok,{d with ioIsRunning := d.ioIsRunning + 1},shm)

def stopIo (d : Driver) : OSStatus × Driver :=
  if d.ioIsRunning = 0 then (.illegalOperation,d)
  else
    let ioIsRunning := d.ioIsRunning - 1
    (.ok,{d with
      ioIsRunning
      ringIsOpen := if ioIsRunning = 0 ∧ d.ringIsOpen then false else d.ringIsOpen})

def clampEstimate (nominal estimate : Rat) : Rat :=
  let low := nominal * (1 - kClockMaxRateSkew)
  let high := nominal * (1 + kClockMaxRateSkew)
  if estimate < low then low
  else if high < estimate then high
  else estimate

/-- `fetched` is what `shared_audio_get_clock` answers. -/
def updateClockEstimate (d : Driver) (fetched : Option (UInt64 × UInt64)) : Driver :=
  if !d.ringIsOpen then d
  else match fetched with
  | none => d
  | some (observedTime,observedPos) =>
    if !d.clockRefValid || decide (observedPos < d.clockRefSamplePos) then
      {d with
        clockRefHostTime := observedTime
        clockRefSamplePos := observedPos
        clockRefValid := true}
    else
      let windowFrames := observedPos - d.clockRefSamplePos
      if windowFrames < kClockMinObservedFrames then d
      else
        let estimate : Rat := (observedTime - d.clockRefHostTime).toNat / windowFrames.toNat
        let estimate := clampEstimate d.hostTicksPerFrame estimate
        if |estimate - d.slavedTicksPerFrame| ≤ d.slavedTicksPerFrame * (2 / 1000000) then d
        else
          {d with
            anchorHostTime := d.lastHostTime
            anchorSampleTime := d.lastSampleTime
            slavedTicksPerFrame := estimate
            timelineSeed := d.timelineSeed + 1}

def truncate (x : Rat) : Nat := ⌊x⌋₊

structure Stamp where
  sampleTime : Rat
  hostTime : Nat
  seed : Nat
  now : Nat
  clamped : Bool
  deriving DecidableEq, Repr

def emitTimeStamp (d : Driver) (now : Nat) : Driver × Stamp :=
  let ticksPerPeriod := d.slavedTicksPerFrame * kDeviceRingFrames
  let elapsedTicks := now - d.anchorHostTime
  let periods := truncate (elapsedTicks / ticksPerPeriod)
  let sampleTime := d.anchorSampleTime + (periods * kDeviceRingFrames : Nat)
  let hostTime := d.anchorHostTime + truncate (periods * ticksPerPeriod)
  let clamped := decide (hostTime < d.lastHostTime)
  let sampleTime := if clamped then d.lastSampleTime else sampleTime
  let hostTime := if clamped then d.lastHostTime else hostTime
  ({d with lastHostTime := hostTime, lastSampleTime := sampleTime},
    ⟨sampleTime,hostTime,d.timelineSeed,now,clamped⟩)

def getZeroTimeStamp (d : Driver) (fetched : Option (UInt64 × UInt64)) (now : Nat) : Driver × Stamp :=
  emitTimeStamp (updateClockEstimate d fetched) now

def doIOOperation [Zero α] (d : Driver) (ring : SharedRing α) (ioMainBuffer : Nat → α)
    (ioBufferFrameSize : UInt32) : ReadResult α (Nat → α) :=
  if d.ringIsOpen then
    sharedAudioReadInterleavedRegulated ring ioMainBuffer kDeviceChannelCount ioBufferFrameSize
      kDeviceTargetFill kDeviceFillTolerance
  else
    ⟨0,ring,memset ioMainBuffer 0 0 (ioBufferFrameSize.toNat * kDeviceChannelCount.toNat)⟩

end ReacJack.HalDriver
