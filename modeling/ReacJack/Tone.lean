import ReacJack.Daemon

/-! `run_tone` of `reacjackd.c`, a round of its outer loop at a time. A round gets the
reading of `CLOCK_MONOTONIC` and catches up with it. The oscillator, floating point, is a
parameter. -/
namespace ReacJack.Tone
open BufferLoops Daemon
open ReacDecode (reacFramesPerPacket)

structure Timespec where
  tvSec : Int64
  tvNsec : Int64
  secNonneg : 0 ≤ tvSec
  nsecNonneg : 0 ≤ tvNsec
  nsecBelow : tvNsec < 1000000000

structure Oscillator (φ : Type) where
  start : φ
  advance : φ → φ
  sample : φ → Rat

structure Generator (φ : Type) where
  daemon : ReacDaemon
  channelStorage : Nat → Nat → Rat
  start : Timespec
  sentFrames : UInt64
  phase : φ

variable {φ : Type}

/-- `elapsed_ns`, whose nanosecond part may be negative before the cast. -/
def elapsedNs (start now : Timespec) : UInt64 :=
  (now.tvSec - start.tvSec).toUInt64 * 1000000000 + (now.tvNsec - start.tvNsec).toUInt64

def dueFrames (start now : Timespec) : UInt64 := elapsedNs start now * 48000 / 1000000000

def fillPacket (osc : Oscillator φ) (channels : UInt16) (channelStorage : Nat → Nat → Rat) (phase : φ) :
    (Nat → Nat → Rat) × φ :=
  loop reacFramesPerPacket (fun i (channelStorage,phase) =>
    (loop channels.toNat (fun ch storage => put storage ch (put (storage ch) i (osc.sample phase)))
      channelStorage,osc.advance phase)) (channelStorage,phase)

def sendPacket (osc : Oscillator φ) (hostTime : UInt64 → UInt64) (s : Generator φ) : Generator φ :=
  let (channelStorage,phase) := fillPacket osc s.daemon.channels s.channelStorage s.phase
  {s with
    daemon := {s.daemon with
      ring := s.daemon.ring.map (fun ring => storePacket ring channelStorage (hostTime s.sentFrames))
      receivedPackets := s.daemon.receivedPackets + 1}
    channelStorage
    sentFrames := s.sentFrames + 12
    phase}

structure Round where
  now : Timespec
  hostTime : UInt64 → UInt64

def toneRound (osc : Oscillator φ) (s : Generator φ) (round : Round) : Option (Generator φ) :=
  let due := dueFrames s.start round.now
  whileLoop (fun s => decide (s.sentFrames + 12 ≤ due)) (sendPacket osc round.hostTime) due.toNat s

def runTone (osc : Oscillator φ) (daemon : ReacDaemon) (channelStorage : Nat → Nat → Rat) (created : Bool)
    (start : Timespec) : Option (Generator φ) :=
  (ensureRing daemon daemon.channels created).map fun daemon => ⟨daemon,channelStorage,start,0,osc.start⟩

end ReacJack.Tone
