import ReacJack.LossAccounting
import ReacJack.BridgeStates
import ReacJack.ForeignFrames
import ReacJack.CaptureLedger

/-! One stream, three capture loops. What each of them counts is what one plain listener
counts, who knows nothing of rings and other threads: the daemon, the JACK bridge from
its last reset on, and the PipeWire client. So they agree about the frames that all of
them were shown. -/
namespace ReacJack.CaptureAgreement
open ReacDecode TransitionRuns ForeignFrames LossAccounting
open Daemon (ReacDaemon daemonOf runCapture counterGap)
open JackBridge (Bridge System Shaped resetAll)

variable {capacity : Nat}

inductive Verdict where
  | foreign
  | malformed
  | packet (channels : Nat) (counter : UInt16)
  deriving DecidableEq

def verdict (frame : Bytes) : Verdict :=
  match reacParsePacket (some frame) (some cleared) with
  | (.notReac,_) => .foreign
  | (.ok,view) => .packet (view.getD cleared).channels.toNat (view.getD cleared).counter
  | _ => .malformed

structure Listener where
  channels : Option Nat
  foreign : Nat
  malformed : Nat
  heard : Nat
  lost : Nat
  last : Option UInt16

def missing (last : Option UInt16) (counter : UInt16) : Nat :=
  last.elim 0 (fun last => (counterGap true last counter).toNat)

def hear (l : Listener) (frame : Bytes) : Listener :=
  match verdict frame with
  | .foreign => {l with foreign := l.foreign + 1}
  | .malformed => {l with malformed := l.malformed + 1}
  | .packet channels counter =>
    if l.channels.getD channels = channels then
      {l with
        channels := some channels
        heard := l.heard + 1
        lost := l.lost + missing l.last counter
        last := some counter}
    else {l with malformed := l.malformed + 1}

def listening (channels : UInt16) : Listener where
  channels := if channels = 0 then none else some channels.toNat
  foreign := 0
  malformed := 0
  heard := 0
  lost := 0
  last := none

inductive Parsed (frame : Bytes) : Verdict → Prop where
  | foreign (view : Option ReacPacketView)
    (parsed : reacParsePacket (some frame) (some cleared) = (.notReac,view)) : Parsed frame .foreign
  | malformed (status : ReacStatus) (view : Option ReacPacketView)
    (parsed : reacParsePacket (some frame) (some cleared) = (status,view)) (reac : status ≠ .notReac)
    (failed : status ≠ .ok) : Parsed frame .malformed
  | packet (channels : Nat) (wellFormed : WellFormed frame channels) :
    Parsed frame (.packet channels (viewOf frame channels).counter)

theorem verdictParsed (frame : Bytes) : Parsed frame (verdict frame) := by
  cases parsed : reacParsePacket (some frame) (some cleared) with
  | mk status view =>
    by_cases foreign : status = .notReac
    · subst foreign
      have same : verdict frame = .foreign := by simp only [verdict, parsed]
      rw [same]
      exact .foreign view parsed
    by_cases ok : status = .ok
    · subst ok
      obtain ⟨channels,wellFormed,rfl⟩ := parsedWellFormed parsed
      have same : verdict frame = .packet channels (viewOf frame channels).counter := by
        simp only [verdict, parsed, Option.getD_some, viewChannels frame wellFormed.most]
      rw [same]
      exact .packet channels wellFormed
    · have same : verdict frame = .malformed := by
        simp only [verdict, parsed]
        split
        · rename_i here
          cases here
          exact absurd rfl foreign
        · rename_i here
          cases here
          exact absurd rfl ok
        · rfl
      rw [same]
      exact .malformed status view parsed foreign ok

theorem packetVerdict {frame : Bytes} {channels : Nat} (wellFormed : WellFormed frame channels) :
    verdict frame = .packet channels (viewOf frame channels).counter := by
  simp only [verdict, parseWellFormed wellFormed cleared, Option.getD_some, viewChannels frame wellFormed.most]

theorem hearOurs {l : Listener} {frame : Bytes} {channels : Nat} (wellFormed : WellFormed frame channels)
    (ours : l.channels.getD channels = channels) : hear l frame = {l with
      channels := some channels
      heard := l.heard + 1
      lost := l.lost + missing l.last (viewOf frame channels).counter
      last := some (viewOf frame channels).counter} := by
  simp only [hear, packetVerdict wellFormed, if_pos ours]

theorem hearOther {l : Listener} {frame : Bytes} {channels : Nat} (wellFormed : WellFormed frame channels)
    (other : l.channels.getD channels ≠ channels) : hear l frame = {l with malformed := l.malformed + 1} := by
  simp only [hear, packetVerdict wellFormed, if_neg other]

def Remembers (have_ : Bool) (last : UInt16) (l : Listener) : Prop :=
  have_ = l.last.isSome ∧ ∀ counter, l.last = some counter → last = counter

theorem remembersMissing {have_ : Bool} {last : UInt16} {l : Listener} (remembers : Remembers have_ last l)
    (counter : UInt16) : (counterGap have_ last counter).toNat = missing l.last counter := by
  obtain ⟨rfl,same⟩ := remembers
  cases known : l.last with
  | none => exact congrArg UInt64.toNat (LossTally.firstGap last counter)
  | some earlier =>
    rw [same earlier known]
    rfl

theorem runHears {σ ι τ κ : Type} {step : σ → ι → Option σ} {shown : ι → Option κ} {hears : τ → κ → τ}
    {R : σ → τ → Prop}
    (keeps : ∀ s t label next, R s t → step s label = some next → R next ((shown label).elim t (hears t)))
    {s final : σ} {t : τ} {schedule : List ι} (start : R s t) (h : run step s schedule = some final) :
    R final ((schedule.filterMap shown).foldl hears t) := by
  induction schedule generalizing s t with
  | nil => exact Option.some.inj h ▸ start
  | cons label rest ih =>
    obtain ⟨next,taken,later⟩ := runCons h
    have moved := ih (keeps s t label next start taken) later
    cases seen : shown label with
    | none =>
      rw [seen] at moved
      rw [List.filterMap_cons_none seen]
      exact moved
    | some frame =>
      rw [seen] at moved
      rw [List.filterMap_cons_some seen]
      exact moved

def daemonShown : DaemonLedger.Event → Option Bytes
  | .capture (.frame packet _ _) => some packet
  | _ => none

structure DaemonTells (d : ReacDaemon) (l : Listener) : Prop where
  foreign : d.nonReacPackets = UInt64.ofNat l.foreign
  malformed : d.malformedPackets = UInt64.ofNat l.malformed
  heard : d.receivedPackets = UInt64.ofNat l.heard
  lost : d.lostPackets = UInt64.ofNat l.lost
  last : Remembers d.haveLastCounter d.lastCounter l
  shape : (d.ring = none ∧ d.channels = 0 ∧ l.channels = none) ∨
    (d.ring.isSome = true ∧ l.channels = some d.channels.toNat)

theorem ofNatMore {a : UInt64} {n : Nat} (same : a = UInt64.ofNat n) : a + 1 = UInt64.ofNat (n + 1) := by
  rw [UInt64.ofNat_add, same]
  rfl

theorem ofNatAdds {a b : UInt64} {n m : Nat} (same : a = UInt64.ofNat n) (more : b.toNat = m) :
    a + b = UInt64.ofNat (n + m) := by
  rw [UInt64.ofNat_add, same, ← more, UInt64.ofNat_toNat]

theorem daemonTakes {d ensured_ : ReacDaemon} {l : Listener} {frame : Bytes} {channels : Nat} {created : Bool}
    (tells : DaemonTells d l) (wellFormed : WellFormed frame channels)
    (opened : Daemon.ensureRing d (viewOf frame channels).channels created = some ensured_) :
    ensured_.ring.isSome = true ∧ (ensured_.channels = (viewOf frame channels).channels ↔
      l.channels.getD channels = channels) ∧ ensured_ = {d with
        ring := ensured_.ring, channels := ensured_.channels} ∧
      (ensured_.channels ≠ (viewOf frame channels).channels → l.channels = some ensured_.channels.toNat) := by
  have count := viewChannels frame wellFormed.most
  rcases Daemon.ensured opened with ⟨there,rfl⟩ | ⟨none,rfl⟩
  · rcases tells.shape with ⟨gone,_⟩ | ⟨_,same⟩
    · rw [gone] at there
      contradiction
    · refine ⟨there,?_,rfl,fun _ => same⟩
      rw [same, Option.getD_some, ← UInt16.toNat_inj, count]
  · rcases tells.shape with ⟨_,_,open_⟩ | ⟨there,_⟩
    · refine ⟨rfl,?_,rfl,fun apart => absurd rfl apart⟩
      rw [open_]
      exact ⟨fun _ => rfl,fun _ => rfl⟩
    · rw [none] at there
      contradiction

theorem daemonHears {s next : Daemon.Loop} {l : Listener} {frame : Bytes} {created : Bool} {hostTime : UInt64}
    (tells : DaemonTells s.daemon l) (taken : Daemon.captureFrame s frame created hostTime = some next) :
    DaemonTells next.daemon (hear l frame) := by
  have kind := verdictParsed frame
  cases made : verdict frame with
  | foreign =>
    rw [made] at kind
    obtain ⟨view,parsed⟩ := kind
    simp only [Daemon.captureFrame, parsed, if_true] at taken
    rw [← Option.some.inj taken]
    simp only [hear, made]
    exact {tells with foreign := ofNatMore tells.foreign}
  | malformed =>
    rw [made] at kind
    cases kind with
    | malformed status view parsed reac failed =>
      simp only [Daemon.captureFrame, parsed, if_neg reac, ne_eq, failed, not_false_eq_true, if_true] at taken
      rw [← Option.some.inj taken]
      simp only [hear, made]
      exact {tells with malformed := ofNatMore tells.malformed}
  | packet channels counter =>
    rw [made] at kind
    cases kind with
    | packet channels wellFormed =>
      obtain ⟨outputs,decoded,_⟩ := Daemon.decodeParsed wellFormed s.channelStorage
      simp only [Daemon.captureFrame, parseWellFormed wellFormed cleared, Option.getD_some, reduceCtorEq, if_false,
        ne_eq, not_true_eq_false, decoded] at taken
      obtain ⟨d,opened,taken⟩ := Option.bind_eq_some_iff.mp taken
      obtain ⟨there,ours,same,otherwise_⟩ := daemonTakes tells wellFormed opened
      by_cases shared : (viewOf frame channels).channels = d.channels
      · rw [if_neg (not_not.mpr shared)] at taken
        obtain ⟨ring,_,rfl⟩ := Option.map_eq_some_iff.mp taken
        rw [hearOurs wellFormed (ours.mp shared.symm), same]
        refine ⟨tells.foreign,tells.malformed,ofNatMore tells.heard,?_,⟨rfl,fun counter known => ?_⟩,.inr ⟨rfl,?_⟩⟩
        · exact ofNatAdds tells.lost (remembersMissing tells.last _)
        · exact Option.some.inj known
        · exact congrArg some (by rw [← viewChannels frame wellFormed.most, shared]; rfl)
      · rw [if_pos shared] at taken
        have apart : d.channels ≠ (viewOf frame channels).channels := fun eq => shared eq.symm
        rw [← Option.some.inj taken, hearOther wellFormed (fun eq => apart (ours.mpr eq)), same]
        exact {tells with
          malformed := ofNatMore tells.malformed
          shape := .inr ⟨there,otherwise_ apart⟩}

theorem daemonStep (b : DaemonLedger.Books) (l : Listener) (event : DaemonLedger.Event) (next : DaemonLedger.Books)
    (tells : DaemonTells b.loop.daemon l) (taken : DaemonLedger.step b event = some next) :
    DaemonTells next.loop.daemon ((daemonShown event).elim l (hear l)) := by
  cases event with
  | capture c =>
    cases c with
    | timeout =>
      cases Option.some.inj taken
      exact tells
    | error =>
      cases Option.some.inj taken
      exact {tells with}
    | frame packet created hostTime =>
      obtain ⟨loop,round,rfl⟩ := Option.map_eq_some_iff.mp taken
      exact daemonHears tells round
  | reader call =>
    simp only [DaemonLedger.step] at taken
    split at taken
    · obtain ⟨ring,there,rfl⟩ := Option.map_eq_some_iff.mp taken
      refine {tells with shape := .inr ⟨rfl,?_⟩}
      rcases tells.shape with ⟨none,_⟩ | ⟨_,same⟩
      · rw [none] at there
        contradiction
      · exact same
    · contradiction

theorem daemonStart {channels : UInt16} {storage : Nat → Nat → Rat} {created : Bool} {start : Daemon.Loop}
    (started : runCapture (daemonOf channels) storage created = some start) :
    DaemonTells start.daemon (listening channels) := by
  have nothing : Remembers false 0 (listening channels) := ⟨rfl,fun counter known => by contradiction⟩
  unfold runCapture at started
  by_cases given : channels = 0
  · have open_ : ¬ (daemonOf channels).channels ≠ 0 := not_not.mpr given
    rw [if_neg open_] at started
    cases Option.some.inj started
    exact ⟨rfl,rfl,rfl,rfl,nothing,.inl ⟨rfl,given,if_pos given⟩⟩
  · have fixed : (daemonOf channels).channels ≠ 0 := given
    rw [if_pos fixed] at started
    obtain ⟨d,opened,rfl⟩ := Option.map_eq_some_iff.mp started
    rcases Daemon.ensured opened with ⟨there,_⟩ | ⟨_,rfl⟩
    · contradiction
    · exact ⟨rfl,rfl,rfl,rfl,nothing,.inr ⟨rfl,if_neg given⟩⟩

def bridgeShown : JackBridge.Action → Option Bytes
  | .copyData (.frame data) => some data
  | _ => none

def cutShort : JackBridge.Action → Bool
  | .copyData .truncated => true
  | _ => false

/-- `before` is what `nonREAC` stood at, which `main` does not set back. -/
structure BridgeTells (before cut : Nat) (b : Bridge capacity) (l : Listener) : Prop where
  foreign : b.nonREAC = before + l.foreign
  malformed : b.malformedPackets = l.malformed + cut
  lost : b.lostPackages = l.lost
  last : Remembers b.haveLastCounter b.lastCounter l
  shape : Shaped b (l.channels.getD 0)
  positive : l.channels ≠ some 0

structure Untouched (b next : Bridge capacity) : Prop where
  counters : SameCounters b next
  nonREAC : next.nonREAC = b.nonREAC
  malformedPackets : next.malformedPackets = b.malformedPackets
  currentNumberOfChannels : next.currentNumberOfChannels = b.currentNumberOfChannels

theorem bridgeUntouched {before cut : Nat} {b next : Bridge capacity} {l : Listener} (same : Untouched b next)
    (tells : BridgeTells before cut b l) : BridgeTells before cut next l := by
  obtain ⟨⟨size,have_,last,lost⟩,foreign,malformed,count⟩ := same
  refine ⟨foreign.trans tells.foreign,malformed.trans tells.malformed,lost.trans tells.lost,?_,
    JackBridge.shapedCongr tells.shape size count,tells.positive⟩
  rw [have_, last]
  exact tells.last

theorem queryUntouched (b : Bridge capacity) (cycle : JackBridge.Cycle) :
    Untouched b (JackBridge.processQuery b cycle).1 := by
  refine ⟨querySame b cycle,?_,?_,?_⟩ <;> simp only [JackBridge.processQuery] <;> split
  all_goals first | rfl | (split; rfl; split <;> rfl)

theorem readUntouched (b : Bridge capacity) (cycle : JackBridge.Cycle) (bufferSize : Nat) :
    Untouched b (JackBridge.processRead b cycle bufferSize).1 := by
  refine ⟨readSame b cycle bufferSize,?_,?_,?_⟩ <;> simp only [JackBridge.processRead] <;> split
  all_goals first | rfl | (split; rfl; split <;> rfl)

theorem copyPayloadHears {before cut : Nat} {b : Bridge capacity} {l : Listener} {frame : Bytes} {channels : Nat}
    (tells : BridgeTells before cut b {l with channels := some channels}) :
    BridgeTells before cut (JackBridge.copyPayload b (viewOf frame channels)) {l with
      channels := some channels
      heard := l.heard + 1
      lost := l.lost + missing l.last (viewOf frame channels).counter
      last := some (viewOf frame channels).counter} := by
  obtain ⟨ringbuffer,underruns,error,left⟩ := JackBridge.copyPayloadLeaves b (viewOf frame channels)
  rw [left]
  refine ⟨tells.foreign,tells.malformed,?_,⟨rfl,fun counter known => Option.some.inj known⟩,
    JackBridge.shapedCongr tells.shape rfl rfl,tells.positive⟩
  have gap := remembersMissing tells.last (viewOf frame channels).counter
  have lost : b.lostPackages = l.lost := tells.lost
  simp only [JackBridge.notePacketCounter, gap, lost]

theorem oneMore {m n cut : Nat} (same : m = n + cut) : m + 1 = n + 1 + cut := by omega

theorem bridgeHears {before cut : Nat} {b : Bridge capacity} {l : Listener} (tells : BridgeTells before cut b l)
    (frame : Bytes) : BridgeTells before cut (JackBridge.copyFrame b frame) (hear l frame) := by
  have kind := verdictParsed frame
  cases made : verdict frame with
  | foreign =>
    rw [made] at kind
    obtain ⟨view,parsed⟩ := kind
    simp only [JackBridge.copyFrame, parsed, if_true, hear, made]
    exact {tells with
      foreign := congrArg (· + 1) tells.foreign
      shape := JackBridge.shapedCongr tells.shape rfl rfl}
  | malformed =>
    rw [made] at kind
    cases kind with
    | malformed status view parsed reac failed =>
      simp only [JackBridge.copyFrame, parsed, if_neg reac, ne_eq, failed, not_false_eq_true, if_true, hear, made]
      exact {tells with
        malformed := oneMore tells.malformed
        shape := JackBridge.shapedCongr tells.shape rfl rfl}
  | packet channels counter =>
    rw [made] at kind
    cases kind with
    | packet channels wellFormed =>
      have positive := wellFormed.positive
      have size := tells.shape.dataSize
      have payload : (viewOf frame channels).payloadSize = 36 * channels := rfl
      simp only [JackBridge.copyFrame, parseWellFormed wellFormed cleared, Option.getD_some, reduceCtorEq, if_false,
        ne_eq, not_true_eq_false]
      cases known : l.channels with
      | none =>
        rw [known, Option.getD_none] at size
        rw [if_pos size, hearOurs wellFormed (by rw [known, Option.getD_none])]
        refine copyPayloadHears {tells with shape := ⟨payload,?_⟩, positive := ?_}
        · rw [UInt16.toNat_toUInt32]
          exact viewChannels frame wellFormed.most
        · exact fun zero => positive (Option.some.inj zero)
      | some there =>
        rw [known, Option.getD_some] at size
        have some_ : there ≠ 0 := fun zero => tells.positive (known.trans (congrArg some zero))
        rw [if_neg (by omega)]
        by_cases ours : there = channels
        · subst ours
          rw [if_neg (by omega), hearOurs wellFormed (by rw [known, Option.getD_some])]
          refine copyPayloadHears ?_
          rw [← known]
          exact tells
        · rw [if_pos (by omega), hearOther wellFormed (by rw [known, Option.getD_some]; exact ours)]
          exact {tells with
            malformed := oneMore tells.malformed
            shape := JackBridge.shapedCongr tells.shape rfl rfl}

theorem bridgeStep {before cut : Nat} {s next : System capacity} {l : Listener} {action : JackBridge.Action}
    (tells : BridgeTells before cut s.bridge l) (kept : action ≠ .reset)
    (taken : JackBridge.act s action = some next) :
    BridgeTells before (cut + if cutShort action then 1 else 0) next.bridge
      ((bridgeShown action).elim l (hear l)) := by
  cases action with
  | reset => exact absurd rfl kept
  | copyData result =>
    simp only [JackBridge.act] at taken
    split at taken
    · cases Option.some.inj taken
      cases result with
      | stopped => exact tells
      | truncated =>
        refine {tells with malformed := ?_, shape := JackBridge.shapedCongr tells.shape rfl rfl}
        exact congrArg (· + 1) tells.malformed
      | failed => exact {tells with shape := JackBridge.shapedCongr tells.shape rfl rfl}
      | frame data => exact bridgeHears tells data
    · contradiction
  | processQuery cycle =>
    have same := queryUntouched s.bridge cycle
    simp only [JackBridge.act] at taken
    split at taken
    · contradiction
    · split at taken <;> rename_i queried <;> rw [queried] at same <;> cases Option.some.inj taken
      · exact bridgeUntouched same tells
      · exact bridgeUntouched same tells
  | processRead =>
    obtain ⟨⟨cycle,bufferSize⟩,_,rfl⟩ := Option.map_eq_some_iff.mp taken
    exact bridgeUntouched (readUntouched s.bridge cycle bufferSize) tells

theorem bridgeRun {before cut : Nat} {s final : System capacity} {l : Listener} {actions : List JackBridge.Action}
    (tells : BridgeTells before cut s.bridge l) (kept : ∀ action ∈ actions, action ≠ .reset)
    (reached : run JackBridge.act s actions = some final) :
    BridgeTells before (cut + actions.countP cutShort) final.bridge
      ((actions.filterMap bridgeShown).foldl hear l) := by
  induction actions generalizing s l cut with
  | nil => exact Option.some.inj reached ▸ tells
  | cons action rest ih =>
    obtain ⟨next,taken,later⟩ := runCons reached
    have moved := ih (bridgeStep tells (kept action (List.mem_cons_self ..)) taken)
      (fun other member => kept other (List.mem_cons_of_mem _ member)) later
    have count : cut + (action :: rest).countP cutShort =
        cut + (if cutShort action then 1 else 0) + rest.countP cutShort := by
      rw [List.countP_cons]
      omega
    rw [count]
    cases seen : bridgeShown action with
    | none =>
      rw [seen] at moved
      rw [List.filterMap_cons_none seen]
      exact moved
    | some frame =>
      rw [seen] at moved
      rw [List.filterMap_cons_some seen]
      exact moved

theorem bridgeStart {b : Bridge capacity} {given : UInt16} (shaped : Shaped b given.toNat) :
    BridgeTells b.nonREAC 0 (resetAll b) (listening given) := by
  refine ⟨rfl,rfl,rfl,⟨rfl,fun counter known => by contradiction⟩,?_,?_⟩
  · have known : (listening given).channels.getD 0 = given.toNat := by
      simp only [listening]
      split
      · rename_i zero
        rw [zero]
        rfl
      · rfl
    rw [known]
    exact JackBridge.shapedCongr shaped rfl rfl
  · simp only [listening]
    split
    · exact fun none => by contradiction
    · rename_i positive
      exact fun zero => positive (UInt16.toNat_inj.mp (Option.some.inj zero))

def pipeWireShown : PipeWireLedger.Event → Option Bytes
  | .capture (.frame bytes) => some bytes
  | _ => none

theorem longMalformed {frame : Bytes} (long : 1492 < frame.length) (channels : Nat) :
    ¬ WellFormed frame channels := by
  intro wellFormed
  have length := wellFormed.length
  have most := wellFormed.most
  omega

theorem longVerdict {frame : Bytes} (long : 1492 < frame.length) :
    verdict frame = if Reac frame then .malformed else .foreign := by
  have kind := verdictParsed frame
  by_cases reac : Reac frame
  · rw [if_pos reac]
    cases made : verdict frame with
    | malformed => rfl
    | foreign =>
      rw [made] at kind
      obtain ⟨view,parsed⟩ := kind
      have other := reacNotForeign reac cleared
      rw [parsed] at other
      exact absurd rfl other
    | packet channels counter =>
      rw [made] at kind
      cases kind with
      | packet channels wellFormed => exact absurd wellFormed (longMalformed long channels)
  · rw [if_neg reac]
    simp only [verdict, foreignFrame (show 52 ≤ frame.length by omega) reac]

theorem cutVerdict (frame : Bytes) : verdict (frame.take PipeWire.reacjackPwPacketBytes) = verdict frame := by
  have size : PipeWire.reacjackPwPacketBytes = 2048 := rfl
  rcases Nat.lt_or_ge 2048 frame.length with long | whole
  · have rest : 1492 < (frame.take PipeWire.reacjackPwPacketBytes).length := by
      rw [List.length_take, size]
      omega
    rw [longVerdict rest, longVerdict (show 1492 < frame.length by omega)]
    simp only [Reac, etherTypeTake frame (show 14 ≤ PipeWire.reacjackPwPacketBytes by decide)]
  · rw [List.take_of_length_le (by rw [size]; exact whole)]

structure PipeWireTells (app : PipeWire.ReacPw) (l : Listener) : Prop where
  foreign : app.nonReacPackets = UInt64.ofNat l.foreign
  malformed : app.malformedPackets = UInt64.ofNat l.malformed
  heard : app.receivedPackets + app.ringOverruns = UInt64.ofNat l.heard
  channels : l.channels = some app.channels.toNat

theorem pipeWireHears {s next : PipeWire.Thread} {l : Listener} {bytes : Bytes} (ready : PipeWire.Ready s.app)
    (tells : PipeWireTells s.app l) (taken : PipeWire.captureFrame s bytes = some next) :
    PipeWireTells next.app (hear l bytes) := by
  have kind := verdictParsed (bytes.take PipeWire.reacjackPwPacketBytes)
  rw [cutVerdict] at kind
  cases made : verdict bytes with
  | foreign =>
    rw [made] at kind
    obtain ⟨view,parsed⟩ := kind
    simp only [PipeWire.captureFrame, parsed, if_true] at taken
    rw [← Option.some.inj taken]
    simp only [hear, made]
    exact {tells with foreign := ofNatMore tells.foreign}
  | malformed =>
    rw [made] at kind
    cases kind with
    | malformed status view parsed reac failed =>
      simp only [PipeWire.captureFrame, parsed, if_neg reac, ne_eq, failed, not_false_eq_true, if_true] at taken
      rw [← Option.some.inj taken]
      simp only [hear, made]
      exact {tells with malformed := ofNatMore tells.malformed}
  | packet channels counter =>
    rw [made] at kind
    have wellFormed : WellFormed bytes channels := by
      cases kind with
      | packet channels cut =>
        rw [← PipeWire.uncut cut]
        exact cut
    have count := viewChannels bytes wellFormed.most
    by_cases ours : (viewOf bytes channels).channels = s.app.channels
    · have same : s.app.channels.toNat = channels := by rw [← ours, count]
      rw [hearOurs wellFormed (by rw [tells.channels, Option.getD_some, same])]
      obtain ⟨next',result,cases_⟩ := PipeWire.captureFrameCases ready bytes
      obtain rfl := Option.some.inj (result.symm.trans taken)
      rcases cases_ with ⟨other,_⟩ | ⟨_,_,full⟩ | ⟨interleaved,_,_,_,took⟩
      · rw [same] at other
        exact absurd wellFormed other
      · rw [full]
        refine ⟨tells.foreign,tells.malformed,?_,congrArg some same.symm⟩
        rw [← ofNatMore tells.heard, UInt64.add_assoc]
      · rw [took]
        refine ⟨tells.foreign,tells.malformed,?_,congrArg some same.symm⟩
        rw [← ofNatMore tells.heard]
        simp only [PipeWire.takePacket, PipeWire.noteCounter]
        rw [UInt64.add_assoc, UInt64.add_comm 1, ← UInt64.add_assoc]
    · rw [hearOther wellFormed ?_]
      · simp only [PipeWire.captureFrame, PipeWire.parsesWhole wellFormed, Option.getD_some, reduceCtorEq, if_false,
          ne_eq, not_true_eq_false, ours, not_false_eq_true, if_true] at taken
        rw [← Option.some.inj taken]
        exact {tells with malformed := ofNatMore tells.malformed}
      · intro same
        rw [tells.channels, Option.getD_some] at same
        exact ours (UInt16.toNat_inj.mp (count.trans same.symm))

theorem pipeWireStep (b : PipeWireLedger.Books) (l : Listener) (event : PipeWireLedger.Event)
    (next : PipeWireLedger.Books) (tells : PipeWireLedger.Balanced b ∧ PipeWireTells b.thread.app l)
    (taken : PipeWireLedger.step b event = some next) :
    PipeWireLedger.Balanced next ∧ PipeWireTells next.thread.app ((pipeWireShown event).elim l (hear l)) := by
  obtain ⟨balanced,tells⟩ := tells
  obtain ⟨after,result,kept⟩ := PipeWireLedger.stepBalanced balanced event
  obtain rfl := Option.some.inj (result.symm.trans taken)
  refine ⟨kept,?_⟩
  cases event with
  | capture c =>
    cases c with
    | nothing =>
      cases Option.some.inj taken
      exact tells
    | error =>
      cases Option.some.inj taken
      exact {tells with}
    | frame bytes =>
      obtain ⟨thread,round,rfl⟩ := Option.map_eq_some_iff.mp taken
      exact pipeWireHears balanced.ready tells round
  | process buffer =>
    obtain ⟨readPos,underruns,out,read,_⟩ := PipeWireLedger.processSpec balanced.ready buffer
    simp only [PipeWireLedger.step, read, Option.map_some] at taken
    rw [← Option.some.inj taken]
    exact {tells with}

theorem pipeWireStart {channels : UInt16} (given : channels ≠ 0) :
    PipeWireTells (PipeWire.appOf channels) (listening channels) :=
  ⟨rfl,rfl,rfl,if_neg given⟩

structure BridgeAgrees (before cut : Nat) (d : ReacDaemon) (b : Bridge capacity) : Prop where
  foreign : UInt64.ofNat b.nonREAC = UInt64.ofNat before + d.nonReacPackets
  malformed : UInt64.ofNat b.malformedPackets = d.malformedPackets + UInt64.ofNat cut
  lost : UInt64.ofNat b.lostPackages = d.lostPackets
  channels : Shaped b d.channels.toNat

structure ClientAgrees (d : ReacDaemon) (app : PipeWire.ReacPw) : Prop where
  foreign : app.nonReacPackets = d.nonReacPackets
  malformed : app.malformedPackets = d.malformedPackets
  received : app.receivedPackets + app.ringOverruns = d.receivedPackets
  channels : app.channels = d.channels

theorem bridgeAgrees {before cut : Nat} {d : ReacDaemon} {b : Bridge capacity} {l : Listener}
    (here : DaemonTells d l) (there : BridgeTells before cut b l) : BridgeAgrees before cut d b where
  foreign := by rw [there.foreign, here.foreign, UInt64.ofNat_add]
  malformed := by rw [there.malformed, here.malformed, UInt64.ofNat_add]
  lost := by rw [there.lost, here.lost]
  channels := by
    have shape := there.shape
    rcases here.shape with ⟨_,zero,open_⟩ | ⟨_,known⟩
    · rw [open_] at shape
      rw [zero]
      exact shape
    · rw [known] at shape
      exact shape

theorem clientAgrees {d : ReacDaemon} {app : PipeWire.ReacPw} {l : Listener} (here : DaemonTells d l)
    (there : PipeWireTells app l) : ClientAgrees d app where
  foreign := there.foreign.trans here.foreign.symm
  malformed := there.malformed.trans here.malformed.symm
  received := there.heard.trans here.heard.symm
  channels := by
    rcases here.shape with ⟨_,_,open_⟩ | ⟨_,known⟩
    · exact absurd (open_.symm.trans there.channels) (Option.some_ne_none _).symm
    · exact UInt16.toNat_inj.mp (Option.some.inj (there.channels.symm.trans known))

/-- Rings may be full in one program and not in another, readers and callbacks come and
go; the counters that speak of the network stay the same. -/
theorem captureLoopsAgree {given : UInt16} {storage : Nat → Nat → Rat} {created : Bool} {start : Daemon.Loop}
    {heard : List DaemonLedger.Event} {daemon : DaemonLedger.Books}
    (started : runCapture (daemonOf given) storage created = some start)
    (captured : run DaemonLedger.step (DaemonLedger.opening start) heard = some daemon)
    {s bridge : System capacity} {actions : List JackBridge.Action} (shaped : Shaped s.bridge given.toNat)
    (kept : ∀ action ∈ actions, action ≠ .reset)
    (bridged : run JackBridge.act s (.reset :: actions) = some bridge)
    (same : actions.filterMap bridgeShown = heard.filterMap daemonShown) :
    BridgeAgrees s.bridge.nonREAC (actions.countP cutShort) daemon.loop.daemon bridge.bridge ∧
      ∀ (interleaved : Nat → Rat) (rounds : List PipeWireLedger.Event) (client : PipeWireLedger.Books),
        given ≠ 0 → rounds.filterMap pipeWireShown = heard.filterMap daemonShown →
        run PipeWireLedger.step
            (PipeWireLedger.opening ⟨PipeWire.appOf given,storage,interleaved⟩) rounds = some client →
          ClientAgrees daemon.loop.daemon client.thread.app := by
  have here : DaemonTells daemon.loop.daemon ((heard.filterMap daemonShown).foldl hear (listening given)) :=
    runHears daemonStep (daemonStart started) captured
  constructor
  · obtain ⟨next,taken,later⟩ := runCons bridged
    obtain rfl := Option.some.inj taken
    have there := bridgeRun (bridgeStart shaped) kept later
    rw [same, Nat.zero_add] at there
    exact bridgeAgrees here there
  · intro interleaved rounds client positive shown reached
    have there := (runHears (R := fun b l => PipeWireLedger.Balanced b ∧ PipeWireTells b.thread.app l)
      pipeWireStep ⟨PipeWireLedger.openingBalanced given storage interleaved,pipeWireStart positive⟩ reached).2
    rw [shown] at there
    exact clientAgrees here there

def paddedArp : Bytes := arpRequest ++ List.replicate 18 0

/-- Other traffic, a short frame, a stream with one packet missing, a packet of another. -/
def traffic : List Bytes :=
  [paddedArp,ReacWire.numberedPacket 65535,[1,2,3],ReacWire.makePacket (fun _ => 0) 7 4 ReacWire.edgeSamples,
    ReacWire.numberedPacket 65537]

def trafficHeard : List DaemonLedger.Event :=
  .reader (.seekToFill 4) :: .capture .timeout :: traffic.map (fun frame => .capture (.frame frame true 10))

def trafficBridged : List JackBridge.Action :=
  .copyData .truncated :: traffic.map (fun frame => .copyData (.frame frame))

def trafficRounds : List PipeWireLedger.Event :=
  .process ⟨fun _ => 0,64,0⟩ :: traffic.map (fun frame => .capture (.frame frame))

def settled : System 131071 :=
  (run JackBridge.act (JackBridge.boot (JackBridge.bridgeOf 131071 1024))
    [.copyData (.frame (ReacWire.numberedPacket 9)),.copyData (.frame paddedArp)]).get (by decide +kernel)

def trafficStart : Daemon.Loop := (runCapture (daemonOf 2) CaptureLedger.silence true).get (by decide +kernel)

def trafficBooks : Option DaemonLedger.Books :=
  run DaemonLedger.step (DaemonLedger.opening trafficStart) trafficHeard

def trafficBridge : Option (System 131071) := run JackBridge.act settled (.reset :: trafficBridged)

def trafficClient : Option PipeWireLedger.Books :=
  run PipeWireLedger.step
    (PipeWireLedger.opening ⟨PipeWire.appOf 2,CaptureLedger.silence,fun _ => 0⟩) trafficRounds

theorem captureLoopsAgreeTraffic :
    BridgeAgrees 1 1 (trafficBooks.get (by decide +kernel)).loop.daemon (trafficBridge.get (by decide +kernel)).bridge ∧
      ClientAgrees (trafficBooks.get (by decide +kernel)).loop.daemon
        (trafficClient.get (by decide +kernel)).thread.app := by
  have started : runCapture (daemonOf 2) CaptureLedger.silence true = some trafficStart := (Option.some_get _).symm
  have captured : run DaemonLedger.step (DaemonLedger.opening trafficStart) trafficHeard =
      some (trafficBooks.get (by decide +kernel)) := (Option.some_get _).symm
  have shaped : Shaped settled.bridge (2 : UInt16).toNat := ⟨by decide +kernel,by decide +kernel⟩
  have kept : ∀ action ∈ trafficBridged, action ≠ .reset := by
    simp only [trafficBridged, traffic, List.map_cons, List.map_nil, List.mem_cons, List.not_mem_nil, or_false,
      ne_eq]
    rintro action (rfl | rfl | rfl | rfl | rfl | rfl) <;> exact JackBridge.Action.noConfusion
  have bridged : run JackBridge.act settled (.reset :: trafficBridged) =
      some (trafficBridge.get (by decide +kernel)) := (Option.some_get _).symm
  have before : settled.bridge.nonREAC = 1 := by decide +kernel
  have cut : trafficBridged.countP cutShort = 1 := rfl
  obtain ⟨bridge,client⟩ := captureLoopsAgree started captured shaped kept bridged rfl
  rw [before, cut] at bridge
  exact ⟨bridge,client (fun _ => 0) trafficRounds _ (by decide) rfl (Option.some_get _).symm⟩

end ReacJack.CaptureAgreement
