import ReacJack.Daemon
import ReacJack.PipeWireRing

/-! `reacjack-pw.c`: a round of the capture thread and of the PipeWire callback, over the
ring of interleaved frames between them. `size_t` is 64 bits wide. -/
namespace ReacJack.PipeWire
open BufferLoops ReacDecode Daemon
open PipeWireRing (audioRingInit audioRingWrite audioRingRead interleavePacket reacjackPwRingFrames)

def reacjackPwPacketBytes : Nat := 2048

abbrev AudioRing := PipeWireRing.AudioRing 64 Rat

structure ReacPw where
  ring : AudioRing
  channels : UInt16
  receivedPackets : UInt64
  nonReacPackets : UInt64
  malformedPackets : UInt64
  lostPackets : UInt64
  captureErrors : UInt64
  ringOverruns : UInt64
  pipewireUnderruns : UInt64
  lastCounter : UInt16
  haveLastCounter : Bool

def appOf (channels : UInt16) : ReacPw :=
  ⟨audioRingInit channels reacjackPwRingFrames,channels,0,0,0,0,0,0,0,0,false⟩

def noteCounter (app : ReacPw) (counter : UInt16) : ReacPw :=
  {app with
    lostPackets := app.lostPackets + counterGap app.haveLastCounter app.lastCounter counter
    lastCounter := counter
    haveLastCounter := true}

structure Thread where
  app : ReacPw
  channelStorage : Nat → Nat → Rat
  interleaved : Nat → Rat

inductive Capture where
  | nothing
  | error
  | frame (bytes : Bytes)

def countMalformed (app : ReacPw) : ReacPw := {app with malformedPackets := app.malformedPackets + 1}

def captureFrame (s : Thread) (bytes : Bytes) : Option Thread :=
  -- `recv` fills the buffer and drops the rest of the frame
  let packetBytes := bytes.take reacjackPwPacketBytes
  let (parseStatus,parsed) := reacParsePacket (some packetBytes) (some cleared)
  let packet := parsed.getD cleared
  if parseStatus = .notReac then
    some {s with app := {s.app with nonReacPackets := s.app.nonReacPackets + 1}}
  else if parseStatus ≠ .ok then some {s with app := countMalformed s.app}
  else if packet.channels ≠ s.app.channels then some {s with app := countMalformed s.app}
  else
    let (decodeStatus,outputs) := reacDecodeSamplesToChannels packet.payload packet.payloadSize
      packet.channels reacFramesPerPacket (some (channelPtrs s.channelStorage))
    let channelStorage := storageBehind outputs s.channelStorage
    if decodeStatus ≠ .ok then some {s with app := countMalformed s.app, channelStorage}
    else
      let interleaved := interleavePacket s.interleaved channelStorage s.app.channels reacFramesPerPacket
      (audioRingWrite s.app.ring interleaved 12).map fun (code,ring) =>
        let app := {s.app with ring}
        if code ≠ 0 then ⟨{app with ringOverruns := app.ringOverruns + 1},channelStorage,interleaved⟩
        else
          let app := noteCounter app packet.counter
          ⟨{app with receivedPackets := app.receivedPackets + 1},channelStorage,interleaved⟩

def captureRound (s : Thread) : Capture → Option Thread
  | .nothing => some s
  | .error => some {s with app := {s.app with captureErrors := s.app.captureErrors + 1}}
  | .frame bytes => captureFrame s bytes

structure PwBuffer where
  data : Nat → Rat
  maxsize : UInt32
  requested : UInt64

def onProcess (app : ReacPw) (buffer : PwBuffer) : Option (ReacPw × (Nat → Rat)) :=
  let stride := app.channels.toUInt64 * 4
  let frames := buffer.maxsize.toUInt64 / stride
  let frames := if 0 < buffer.requested && decide (buffer.requested < frames) then buffer.requested else frames
  (audioRingRead app.ring buffer.data frames.toBitVec).map fun (readFrames,ring,out) =>
    let app := {app with ring}
    (if readFrames < frames.toBitVec then {app with pipewireUnderruns := app.pipewireUnderruns + 1} else app,out)

end ReacJack.PipeWire
