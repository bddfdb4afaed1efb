import ReacJack.JackBridge

/-! `reacjack.c`: the meters that a callback keeps at its end for the display of `main`. -/
namespace ReacJack.Meter
open BufferLoops ReacDecode JackBridge

def meterIterations : UInt32 := 400

/-- The arithmetic of `double`, of which nothing is assumed. Samples and their peaks are
exact in it. -/
structure Doubles (δ : Type) where
  zero : δ
  addSquare : δ → Rat → δ
  add : δ → δ → δ
  rootOfMean : δ → UInt32 → δ

structure Meters (δ : Type) where
  meterRMS : Nat → δ
  meterPeak : Nat → Rat
  meterIteration : UInt32
  channelRMS : Nat → δ
  channelPeak : Nat → Rat

variable {δ : Type} {capacity : Nat}

def cleared (d : Doubles δ) : Meters δ := ⟨fun _ => d.zero,fun _ => 0,0,fun _ => d.zero,fun _ => 0⟩

def sampleOf (outBuffer : Outputs) (ch frame : Nat) : Rat := (outBuffer ch).elim 0 (fun buffer => buffer frame)

def measured (d : Doubles δ) (nframes channels : UInt32) (outBuffer : Outputs) : (Nat → δ) × (Nat → Rat) :=
  loop nframes.toNat (fun frame both =>
    loop channels.toNat (fun ch (sqVal,peak) =>
      let sample := sampleOf outBuffer ch frame
      (put sqVal ch (d.addSquare (sqVal ch) sample),if peak ch < |sample| then put peak ch |sample| else peak)) both)
    (fun _ => d.zero,fun _ => 0)

def keepIteration (channels : UInt32) (sqVal : Nat → δ) (peak : Nat → Rat) (m : Meters δ) : Meters δ :=
  let m := loop channels.toNat (fun ch m =>
    let offset := ch * meterIterations.toNat + m.meterIteration.toNat
    {m with meterRMS := put m.meterRMS offset (sqVal ch), meterPeak := put m.meterPeak offset (peak ch)}) m
  {m with meterIteration := (m.meterIteration + 1) % meterIterations}

def sumUp (d : Doubles δ) (m : Meters δ) (ch : Nat) : δ × Rat :=
  loop meterIterations.toNat (fun v (rms,peakVal) =>
    let offset := ch * meterIterations.toNat + v
    (d.add rms (m.meterRMS offset),if peakVal < m.meterPeak offset then m.meterPeak offset else peakVal))
    (d.zero,0)

def updateChannels (d : Doubles δ) (nframes channels : UInt32) (m : Meters δ) : Meters δ :=
  loop channels.toNat (fun ch m =>
    let (rms,peakVal) := sumUp d m ch
    {m with
      channelRMS := put m.channelRMS ch (d.rootOfMean rms (meterIterations * nframes))
      channelPeak := put m.channelPeak ch peakVal}) m

def meterBlock (d : Doubles δ) (nframes channels : UInt32) (outBuffer : Outputs) (m : Meters δ) : Meters δ :=
  let (sqVal,peak) := measured d nframes channels outBuffer
  updateChannels d nframes channels (keepIteration channels sqVal peak m)

def metersAfter (doMeasure : Bool) (d : Doubles δ) (s : System capacity) (m : Meters δ) : Action → Meters δ
  | .processRead =>
    match s.processing with
    | none => m
    | some (cycle,bufferSize) =>
      let (bridge,outBuffer) := processRead s.bridge cycle bufferSize
      if doMeasure ∧ bridge.error = .ok then
        meterBlock d cycle.nframes bridge.currentNumberOfChannels outBuffer m
      else m
  | _ => m

end ReacJack.Meter
