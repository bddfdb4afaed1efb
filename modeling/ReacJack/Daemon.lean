import ReacJack.SharedAudio
import ReacJack.ReacDecode

/-! The capture loop of `reacjackd.c`. One round of the loop takes one answer of
`pcap_next_ex`; the loop itself is a sequence of rounds, and ends early where the
code returns because the ring cannot be created. -/
namespace ReacJack.Daemon
open SharedAudio ReacDecode

def reacjackdSampleRate : UInt32 := 48000
def reacjackdRingFrames : UInt32 := 48000

structure ReacDaemon where
  ring : Option (SharedRing Rat)
  channels : UInt16
  receivedPackets : UInt64
  lostPackets : UInt64
  nonReacPackets : UInt64
  malformedPackets : UInt64
  captureErrors : UInt64
  lastCounter : UInt16
  haveLastCounter : Bool

def daemonOf (channels : UInt16) : ReacDaemon := ⟨none,channels,0,0,0,0,0,0,false⟩

def counterGap (haveLastCounter : Bool) (lastCounter counter : UInt16) : UInt64 :=
  let expected := lastCounter + 1
  let gap := counter - expected
  if haveLastCounter && decide (counter ≠ expected) then
    if gap < 32768 then gap.toUInt64 else 1
  else 0

def noteCounter (daemon : ReacDaemon) (counter : UInt16) : ReacDaemon :=
  {daemon with
    lostPackets := daemon.lostPackets + counterGap daemon.haveLastCounter daemon.lastCounter counter
    lastCounter := counter
    haveLastCounter := true}

def ensureRing (daemon : ReacDaemon) (channels : UInt16) (created : Bool) : Option ReacDaemon :=
  if daemon.ring.isSome then some daemon
  else if created then
    some {daemon with
      ring := some (sharedAudioCreate reacjackdSampleRate channels reacjackdRingFrames)
      channels}
  else none

structure Loop where
  daemon : ReacDaemon
  channelStorage : Nat → Nat → Rat

def channelPtrs (channelStorage : Nat → Nat → Rat) : Outputs :=
  fun ch => if ch < reacMaxChannels then some (channelStorage ch) else none

def storageBehind (outputs : Option Outputs) (channelStorage : Nat → Nat → Rat) : Nat → Nat → Rat :=
  fun ch => (outputs.bind (fun ptrs => ptrs ch)).getD (channelStorage ch)

def countMalformed (daemon : ReacDaemon) : ReacDaemon :=
  {daemon with malformedPackets := daemon.malformedPackets + 1}

def storePacket (ring : SharedRing Rat) (channelStorage : Nat → Nat → Rat) (hostTime : UInt64) :
    SharedRing Rat :=
  let (code,ring) := sharedAudioWrite ring channelStorage 12
  if code ≠ 0 then
    {ring with header := {ring.header with droppedPackets := ring.header.droppedPackets + 1}}
  else sharedAudioPublishClock ring hostTime ring.header.writePos

/-- What one round meets: the answer of `pcap_next_ex`, with the bytes captured, what
`shared_audio_create` would answer and what the host clock would show. -/
inductive Capture where
  | timeout
  | error
  | frame (packet : Bytes) (created : Bool) (hostTime : UInt64)

def captureFrame (s : Loop) (packet : Bytes) (created : Bool) (hostTime : UInt64) : Option Loop :=
  let (parseStatus,parsed) := reacParsePacket (some packet) (some cleared)
  let view := parsed.getD cleared
  if parseStatus = .notReac then
    some {s with daemon := {s.daemon with nonReacPackets := s.daemon.nonReacPackets + 1}}
  else if parseStatus ≠ .ok then some {s with daemon := countMalformed s.daemon}
  else (ensureRing s.daemon view.channels created).bind fun daemon =>
    if view.channels ≠ daemon.channels then some {s with daemon := countMalformed daemon}
    else
      let (decodeStatus,outputs) := reacDecodeSamplesToChannels view.payload view.payloadSize
        view.channels reacFramesPerPacket (some (channelPtrs s.channelStorage))
      let channelStorage := storageBehind outputs s.channelStorage
      if decodeStatus ≠ .ok then some ⟨countMalformed daemon,channelStorage⟩
      else daemon.ring.map fun ring =>
        let daemon := {daemon with ring := some (storePacket ring channelStorage hostTime)}
        let daemon := noteCounter daemon view.counter
        ⟨{daemon with receivedPackets := daemon.receivedPackets + 1},channelStorage⟩

def captureRound (s : Loop) : Capture → Option Loop
  | .timeout => some s
  | .error => some {s with daemon := {s.daemon with captureErrors := s.daemon.captureErrors + 1}}
  | .frame packet created hostTime => captureFrame s packet created hostTime

def runCapture (daemon : ReacDaemon) (channelStorage : Nat → Nat → Rat) (created : Bool) : Option Loop :=
  if daemon.channels ≠ 0 then
    (ensureRing daemon daemon.channels created).map (fun daemon => ⟨daemon,channelStorage⟩)
  else some ⟨daemon,channelStorage⟩

end ReacJack.Daemon
