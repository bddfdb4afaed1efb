import ReacJack.DaemonLedger
import ReacJack.PipeWireLedger
import ReacJack.ReacWire

/-! The ledger of both capture loops over whole runs: whatever is captured and however
readers behave, every frame is counted once, positions and clocks follow from the
counters, and what was written is what was decoded. -/
namespace ReacJack.CaptureLedger
open TransitionRuns ReacDecode ReacWire Daemon

structure DaemonHolds (b : DaemonLedger.Books) : Prop where
  balanced : DaemonLedger.Balanced b
  continues : ∀ packet hostTime, ∃ next,
    DaemonLedger.step b (.capture (.frame packet true hostTime)) = some next
  countedOnce : ∀ packet created hostTime next,
    DaemonLedger.step b (.capture (.frame packet created hostTime)) = some next →
      DaemonLedger.CountedOnce b.loop.daemon next.loop.daemon
  shapeKept : ∀ ring, b.loop.daemon.ring = some ring → ∀ events later,
    run DaemonLedger.step b events = some later →
      ∃ ring', later.loop.daemon.ring = some ring' ∧ ring'.header.channels = ring.header.channels

structure PipeWireHolds (b : PipeWireLedger.Books) : Prop where
  balanced : PipeWireLedger.Balanced b
  continues : ∀ event, ∃ next, PipeWireLedger.step b event = some next
  countedOnce : ∀ bytes next, PipeWireLedger.step b (.capture (.frame bytes)) = some next →
    PipeWireLedger.CountedOnce b.thread.app next.thread.app

theorem daemonHolds {b : DaemonLedger.Books} (balanced : DaemonLedger.Balanced b) : DaemonHolds b where
  balanced := balanced
  continues := by
    intro packet hostTime
    obtain ⟨next,round⟩ := DaemonLedger.roundTotal b.loop packet hostTime
    exact ⟨DaemonLedger.record b packet next,by simp only [DaemonLedger.step, round, Option.map_some]⟩
  countedOnce := by
    intro packet created hostTime next taken
    obtain ⟨loop,round,rfl⟩ := Option.map_eq_some_iff.mp taken
    exact DaemonLedger.frameCountedOnce round
  shapeKept := by
    intro ring there events later reached
    exact (runInvariant DaemonLedger.stepChannels ⟨balanced,ring,there,rfl⟩ reached).2

theorem pipeWireHolds {b : PipeWireLedger.Books} (balanced : PipeWireLedger.Balanced b) : PipeWireHolds b where
  balanced := balanced
  continues := by
    intro event
    obtain ⟨next,taken,_⟩ := PipeWireLedger.stepBalanced balanced event
    exact ⟨next,taken⟩
  countedOnce := by
    intro bytes next taken
    obtain ⟨thread,round,rfl⟩ := Option.map_eq_some_iff.mp taken
    exact PipeWireLedger.frameCountedOnce balanced.ready round

theorem captureLoopsBalance :
    (∀ channels storage created start events b,
      runCapture (daemonOf channels) storage created = some start →
      run DaemonLedger.step (DaemonLedger.opening start) events = some b → DaemonHolds b) ∧
    (∀ channels storage interleaved events b,
      run PipeWireLedger.step (PipeWireLedger.opening ⟨PipeWire.appOf channels,storage,interleaved⟩) events =
        some b → PipeWireHolds b) := by
  constructor
  · intro channels storage created start events b started reached
    exact daemonHolds
      (runInvariant DaemonLedger.stepBalanced (DaemonLedger.openingBalanced started) reached)
  · intro channels storage interleaved events b reached
    exact pipeWireHolds
      (PipeWireLedger.runBalanced (PipeWireLedger.openingBalanced channels storage interleaved) reached)

def silence : Nat → Nat → Rat := fun _ _ => 0

def daemonEvents : List DaemonLedger.Event :=
  [.capture (.frame [1,2,3] true 5),.capture (.frame quietPacket true 10),.reader (.seekToFill 4),
    .capture .timeout,.capture (.frame quietPacket true 20)]

def pipeWireEvents : List PipeWireLedger.Event :=
  [.capture (.frame quietPacket),.process ⟨fun _ => 0,64,0⟩,.capture (.frame []),.capture (.frame quietPacket)]

def daemonBooks : Option DaemonLedger.Books :=
  run DaemonLedger.step (DaemonLedger.opening ⟨daemonOf 0,silence⟩) daemonEvents

def pipeWireBooks : Option PipeWireLedger.Books :=
  run PipeWireLedger.step (PipeWireLedger.opening ⟨PipeWire.appOf 2,silence,fun _ => 0⟩) pipeWireEvents

theorem captureLoopsBalanceStereo : DaemonHolds (daemonBooks.get (by decide +kernel)) ∧
    PipeWireHolds (pipeWireBooks.get (by decide +kernel)) :=
  ⟨captureLoopsBalance.1 0 silence true _ daemonEvents _ rfl (Option.some_get (by decide +kernel)).symm,
    captureLoopsBalance.2 2 silence (fun _ => 0) pipeWireEvents _ (Option.some_get (by decide +kernel)).symm⟩

end ReacJack.CaptureLedger
