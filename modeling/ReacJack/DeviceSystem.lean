import ReacJack.DaemonSpec
import ReacJack.HalDriver
import ReacJack.TransitionRuns

/-! The daemon and the HAL plug-in on one machine. The ring is the daemon's; the driver
maps it with its first `StartIO` and works on the same memory from then on. Calls of
the two sides follow each other in any order. -/
namespace ReacJack.DeviceSystem
open TransitionRuns SharedAudio Daemon HalDriver

structure System where
  loop : Loop
  driver : Driver

def System.ring (s : System) : Option (SharedRing Rat) := s.loop.daemon.ring

def System.withRing (s : System) (ring : Option (SharedRing Rat)) : System :=
  {s with loop := {s.loop with daemon := {s.loop.daemon with ring}}}

/-- `contended` is whether the sixteen attempts of `shared_audio_get_clock` all met a
publication in progress. -/
inductive Action where
  | capture (c : Capture)
  | startIo (now : Nat)
  | stopIo
  | getZeroTimeStamp (contended : Bool) (now : Nat)
  | readInput (ioMainBuffer : Nat → Rat) (ioBufferFrameSize : UInt32)

def fetchClock (s : System) (contended : Bool) : Option (UInt64 × UInt64) :=
  if contended then none else s.ring.bind sharedAudioGetClock

def start (s : System) (now : Nat) : System :=
  let (_,driver,ring) := startIo s.driver s.ring now
  {s.withRing ring with driver}

def readInput (s : System) (ring : SharedRing Rat) (ioMainBuffer : Nat → Rat) (ioBufferFrameSize : UInt32) :
    ReadResult Rat (Nat → Rat) :=
  doIOOperation s.driver ring ioMainBuffer ioBufferFrameSize

def act (s : System) : Action → Option System
  | .capture c => (captureRound s.loop c).map (fun loop => {s with loop})
  | .startIo now => some (start s now)
  | .stopIo => some {s with driver := (stopIo s.driver).2}
  | .getZeroTimeStamp contended now =>
    some {s with driver := (getZeroTimeStamp s.driver (fetchClock s contended) now).1}
  | .readInput ioMainBuffer ioBufferFrameSize =>
    some (s.withRing (s.ring.map (fun ring => (readInput s ring ioMainBuffer ioBufferFrameSize).ring)))

def inSession (s : System) (action : Action) : Option System :=
  match action with
  | .capture c => act s (.capture c)
  | action => if s.driver.ioIsRunning = 0 then none else act s action

def boot (loop : Loop) (numer denom : UInt32) : System := ⟨loop,initialize_ loaded numer denom⟩

def stereoLoop : Loop :=
  ⟨{daemonOf 2 with ring := some (sharedAudioCreate 48000 2 48000)},fun _ _ => 0⟩

end ReacJack.DeviceSystem
