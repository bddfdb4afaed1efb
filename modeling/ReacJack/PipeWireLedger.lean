import ReacJack.PipeWireSpec
import ReacJack.DaemonLedger

/-! The same books beside the capture thread of the PipeWire client, whose ring keeps
its frames interleaved. The stream callback reads between rounds. -/
namespace ReacJack.PipeWireLedger
open BufferLoops CircularBuffer TransitionRuns ReacDecode PipeWire
open PipeWireRing (fill)
open Daemon (packetSample)
open DaemonLedger (packetFrames)

structure Books where
  thread : Thread
  captured : Nat
  accepted : List Bytes
  written : List Rat

def opening (thread : Thread) : Books := ⟨thread,0,[],[]⟩

def freshSamples (before : BitVec 64) (ring : AudioRing) : List Rat :=
  (List.range (ring.writePos - before).toNat).flatMap fun f =>
    (List.range ring.channels.toNat).map fun ch =>
      ring.samples ((before.toNat + f) % ring.capacityFrames.toNat * ring.channels.toNat + ch)

def record (b : Books) (packet : Bytes) (next : Thread) : Books where
  thread := next
  captured := b.captured + 1
  accepted :=
    if next.app.receivedPackets = b.thread.app.receivedPackets then b.accepted
    else b.accepted ++ [packet]
  written := b.written ++ freshSamples b.thread.app.ring.writePos next.app.ring

inductive Event where
  | capture (c : Capture)
  | process (buffer : PwBuffer)

def step (b : Books) : Event → Option Books
  | .capture (.frame bytes) => (captureRound b.thread (.frame bytes)).map (record b bytes)
  | .capture c => (captureRound b.thread c).map (fun thread => {b with thread})
  | .process buffer =>
    (onProcess b.thread.app buffer).map (fun r => {b with thread := {b.thread with app := r.1}})

structure Balanced (b : Books) : Prop where
  ready : Ready b.thread.app
  counted : b.thread.app.receivedPackets + b.thread.app.nonReacPackets + b.thread.app.malformedPackets +
    b.thread.app.ringOverruns = UInt64.ofNat b.captured
  writePos : b.thread.app.ring.writePos = 12 * b.thread.app.receivedPackets.toBitVec
  shape : ∀ packet ∈ b.accepted, WellFormed packet b.thread.app.channels.toNat
  written : b.written =
    b.accepted.flatMap (fun packet => (packetFrames packet b.thread.app.channels.toNat).flatten)

def CountedOnce (before after : ReacPw) : Prop :=
  ∃ r n m o : UInt64, after.receivedPackets = before.receivedPackets + r ∧
    after.nonReacPackets = before.nonReacPackets + n ∧
    after.malformedPackets = before.malformedPackets + m ∧
    after.ringOverruns = before.ringOverruns + o ∧
    (r,n,m,o) ∈ [((1 : UInt64),(0 : UInt64),(0 : UInt64),(0 : UInt64)),(0,1,0,0),(0,0,1,0),(0,0,0,1)]

theorem countedSum {before after : ReacPw} (once : CountedOnce before after) {n : Nat}
    (sum : before.receivedPackets + before.nonReacPackets + before.malformedPackets +
      before.ringOverruns = UInt64.ofNat n) :
    after.receivedPackets + after.nonReacPackets + after.malformedPackets + after.ringOverruns =
      UInt64.ofNat (n + 1) := by
  obtain ⟨r,n',m,o,a,b,c,d,one⟩ := once
  simp only [List.mem_cons, Prod.mk.injEq, List.not_mem_nil, or_false] at one
  rw [UInt64.ofNat_add, ← sum, a, b, c, d]
  rcases one with ⟨rfl,rfl,rfl,rfl⟩ | ⟨rfl,rfl,rfl,rfl⟩ | ⟨rfl,rfl,rfl,rfl⟩ | ⟨rfl,rfl,rfl,rfl⟩ <;> grind

theorem frameCountedOnce {s next : Thread} (ready : Ready s.app) {bytes : Bytes}
    (taken : captureRound s (.frame bytes) = some next) : CountedOnce s.app next.app := by
  obtain ⟨next',result,cases_⟩ := captureFrameCases ready bytes
  obtain rfl := Option.some.inj (result.symm.trans taken)
  rcases cases_ with ⟨_,same | same⟩ | ⟨_,_,same⟩ | ⟨interleaved,_,_,_,same⟩
  · exact ⟨0,1,0,0,by simp [same]⟩
  · exact ⟨0,0,1,0,by simp [same, PipeWire.countMalformed]⟩
  · exact ⟨0,0,0,1,by simp [same]⟩
  · exact ⟨1,0,0,0,by simp [same, PipeWire.takePacket, PipeWire.noteCounter]⟩

theorem freshPacket {ring : AudioRing} {interleaved : Nat → Rat} {packet : Bytes}
    (capacity : ring.capacityFrames = 96000)
    (holds : ∀ ch f, ch < ring.channels.toNat → f < 12 →
      interleaved (f * ring.channels.toNat + ch) = packetSample packet ring.channels.toNat ch f) :
    freshSamples ring.writePos (withPacket ring interleaved) =
      (packetFrames packet ring.channels.toNat).flatten := by
  have room : 12 ≤ ring.capacityFrames.toNat := by
    rw [capacity]
    decide
  have length : (ring.writePos + 12 - ring.writePos).toNat = 12 := by
    rw [BitVec.add_comm, BitVec.add_sub_cancel]
    rfl
  simp only [freshSamples, packetFrames, withPacket, length, List.flatMap]
  congr 1
  refine List.map_congr_left fun f inside => List.map_congr_left fun ch channel => ?_
  rw [List.mem_range] at inside channel
  rw [copyInRowAt _ _ room inside channel]
  exact holds ch f channel inside

theorem packetFill {ring : AudioRing} {interleaved : Nat → Rat} (fits : fill ring + 12 ≤ 96000) :
    fill (withPacket ring interleaved) = fill ring + 12 := by
  have moved : ring.writePos + 12 - ring.readPos = ring.writePos - ring.readPos + 12 := by
    simp only [BitVec.sub_eq_add_neg, BitVec.add_assoc, BitVec.add_comm 12]
  have twelve : (12 : BitVec 64).toNat = 12 := rfl
  change (ring.writePos + 12 - ring.readPos).toNat = _
  unfold fill at *
  rw [moved, BitVec.toNat_add, twelve]
  omega

theorem freshNone (ring : AudioRing) : freshSamples ring.writePos ring = [] := by
  simp [freshSamples]

theorem recordSame {b : Books} (balanced : Balanced b) (packet : Bytes) {next : Thread}
    (once : CountedOnce b.thread.app next.app) (ring : next.app.ring = b.thread.app.ring)
    (channels : next.app.channels = b.thread.app.channels)
    (received : next.app.receivedPackets = b.thread.app.receivedPackets) :
    Balanced (record b packet next) := by
  obtain ⟨⟨sound,capacity,channelsEq⟩,counted,writePos,shape,written⟩ := balanced
  have same : record b packet next = {b with thread := next, captured := b.captured + 1} := by
    simp only [record, ring, received, if_true, freshNone, List.append_nil]
  rw [same]
  refine ⟨⟨?_,?_,?_⟩,countedSum once counted,?_,?_,?_⟩
  · rw [ring]
    exact sound
  · rw [ring]
    exact capacity
  · rw [ring, channels]
    exact channelsEq
  · rw [ring, received]
    exact writePos
  · rw [channels]
    exact shape
  · rw [channels]
    exact written

theorem recordTaken {b : Books} (balanced : Balanced b) {packet : Bytes} {next : Thread}
    {interleaved : Nat → Rat} {counter : UInt16}
    (wellFormed : WellFormed packet b.thread.app.channels.toNat)
    (fits : fill b.thread.app.ring + 12 ≤ 96000)
    (holds : ∀ ch f, ch < b.thread.app.channels.toNat → f < 12 →
      interleaved (f * b.thread.app.channels.toNat + ch) =
        packetSample packet b.thread.app.channels.toNat ch f)
    (once : CountedOnce b.thread.app next.app)
    (taken : next.app = takePacket b.thread.app interleaved counter) :
    Balanced (record b packet next) := by
  obtain ⟨⟨sound,capacity,channelsEq⟩,counted,writePos,shape,written⟩ := balanced
  have ringNow : next.app.ring = withPacket b.thread.app.ring interleaved := by
    rw [taken]
    rfl
  have receivedNow : next.app.receivedPackets = b.thread.app.receivedPackets + 1 := by
    rw [taken]
    rfl
  have channelsNow : next.app.channels = b.thread.app.channels := by
    rw [taken]
    rfl
  have more : ¬ b.thread.app.receivedPackets + 1 = b.thread.app.receivedPackets := by simp
  rw [← channelsEq] at holds
  have fresh := freshPacket capacity holds
  rw [channelsEq] at fresh
  have same : record b packet next = ⟨next,b.captured + 1,b.accepted ++ [packet],
      b.written ++ (packetFrames packet b.thread.app.channels.toNat).flatten⟩ := by
    rw [record, receivedNow, ringNow, fresh]
    simp only [more, if_false]
  have capacityNat : b.thread.app.ring.capacityFrames.toNat = 96000 := by
    rw [capacity]
    rfl
  rw [same]
  refine ⟨⟨⟨?_,?_⟩,?_,?_⟩,countedSum once counted,?_,?_,?_⟩
  · rw [ringNow]
    exact sound.positive
  · rw [ringNow, packetFill fits]
    change fill b.thread.app.ring + 12 ≤ b.thread.app.ring.capacityFrames.toNat
    omega
  · rw [ringNow]
    exact capacity
  · rw [ringNow, channelsNow]
    exact channelsEq
  · rw [ringNow, receivedNow]
    change b.thread.app.ring.writePos + 12 = 12 * (b.thread.app.receivedPackets.toBitVec + 1)
    rw [writePos, BitVec.mul_add]
    rfl
  · rw [channelsNow]
    intro p member
    rcases List.mem_append.mp member with old | new
    · exact shape p old
    · rw [List.mem_singleton.mp new]
      exact wellFormed
  · rw [channelsNow]
    simp only [written, List.flatMap_append, List.flatMap_singleton]

def asked (app : ReacPw) (buffer : PwBuffer) : UInt64 :=
  let frames := buffer.maxsize.toUInt64 / (app.channels.toUInt64 * 4)
  if 0 < buffer.requested && decide (buffer.requested < frames) then buffer.requested else frames

theorem processSpec {app : ReacPw} (ready : Ready app) (buffer : PwBuffer) :
    ∃ readPos underruns out, onProcess app buffer = some ({app with
      ring := {app.ring with readPos}, pipewireUnderruns := underruns},out) ∧
      (app.ring.writePos - readPos).toNat = fill app.ring - min (fill app.ring) (asked app buffer).toNat := by
  obtain ⟨count,readPos,out,read,left⟩ := ringReadSpec ready.sound buffer.data (asked app buffer).toBitVec
  have result : onProcess app buffer = some (if count < (asked app buffer).toBitVec
      then {app with ring := {app.ring with readPos}, pipewireUnderruns := app.pipewireUnderruns + 1}
      else {app with ring := {app.ring with readPos}},out) := congrArg (Option.map _) read
  rw [result]
  split
  · exact ⟨readPos,app.pipewireUnderruns + 1,out,rfl,left⟩
  · exact ⟨readPos,app.pipewireUnderruns,out,rfl,left⟩

theorem stepBalanced {b : Books} (balanced : Balanced b) (event : Event) :
    ∃ next, step b event = some next ∧ Balanced next := by
  cases event with
  | capture c =>
    cases c with
    | nothing => exact ⟨b,rfl,balanced⟩
    | error =>
      obtain ⟨⟨sound,capacity,channelsEq⟩,counted,writePos,shape,written⟩ := balanced
      exact ⟨_,rfl,⟨⟨sound,capacity,channelsEq⟩,counted,writePos,shape,written⟩⟩
    | frame bytes =>
      obtain ⟨next,result,cases_⟩ := captureFrameCases balanced.ready bytes
      have once : CountedOnce b.thread.app next.app := frameCountedOnce balanced.ready result
      refine ⟨record b bytes next,by simp only [step, captureRound, result, Option.map_some],?_⟩
      rcases cases_ with ⟨_,same | same⟩ | ⟨_,_,same⟩ | ⟨interleaved,formed,fits,holds,took⟩
      · exact recordSame balanced bytes once (by rw [same]) (by rw [same]) (by rw [same])
      · exact recordSame balanced bytes once (by rw [same]; rfl) (by rw [same]; rfl) (by rw [same]; rfl)
      · exact recordSame balanced bytes once (by rw [same]) (by rw [same]) (by rw [same])
      · exact recordTaken balanced formed fits holds once took
  | process buffer =>
    obtain ⟨readPos,underruns,out,read,left⟩ := processSpec balanced.ready buffer
    obtain ⟨⟨sound,capacity,channelsEq⟩,counted,writePos,shape,written⟩ := balanced
    have le : (b.thread.app.ring.writePos - readPos).toNat ≤ fill b.thread.app.ring := by
      rw [left]
      exact Nat.sub_le _ _
    refine ⟨{b with thread := {b.thread with app := {b.thread.app with
      ring := {b.thread.app.ring with readPos}
      pipewireUnderruns := underruns}}},by simp only [step, read, Option.map_some],
      ⟨⟨⟨sound.positive,le.trans sound.bounded⟩,capacity,channelsEq⟩,counted,writePos,shape,written⟩⟩

theorem openingBalanced (channels : UInt16) (storage : Nat → Nat → Rat) (interleaved : Nat → Rat) :
    Balanced (opening ⟨appOf channels,storage,interleaved⟩) :=
  ⟨readyStart channels,rfl,rfl,fun _ member => absurd member List.not_mem_nil,rfl⟩

theorem runBalanced {b final : Books} {events : List Event} (balanced : Balanced b)
    (reached : run step b events = some final) : Balanced final := by
  refine runInvariant (I := Balanced) ?_ balanced reached
  intro s event next before taken
  obtain ⟨next',result,after⟩ := stepBalanced before event
  obtain rfl := Option.some.inj (result.symm.trans taken)
  exact after

end ReacJack.PipeWireLedger
