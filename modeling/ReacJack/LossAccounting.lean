import ReacJack.LossTally
import ReacJack.DaemonLedger
import ReacJack.JackBridgeSpec
import ReacJack.ReacWire

/-! The loss counters of the daemon and of the JACK bridge over whole runs. A frame of
the stream is noted whether or not a ring had room for it; no other frame, no reader
and no callback touches the counter. -/
namespace ReacJack.LossAccounting
open ReacDecode TransitionRuns LossTally
open Daemon (ReacDaemon Loop daemonOf runCapture counterGap)
open JackBridge (Bridge Cycle)

inductive Heard where
  | packet (n : Nat) (frame : Bytes)
  | other (frame : Bytes)

def Fits (channels : Nat) : Heard → Prop
  | .packet n frame => WellFormed frame channels ∧ (viewOf frame channels).counter = UInt16.ofNat n
  | .other frame => ¬ WellFormed frame channels

def number : Heard → Option Nat
  | .packet n _ => some n
  | .other _ => none

def captured (heard : List Heard) : List Nat := heard.filterMap number

def FirstOurs : List Heard → Prop
  | [] => True
  | .packet _ _ :: _ => True
  | .other frame :: rest => (∀ channels, ¬ WellFormed frame channels) ∧ FirstOurs rest

inductive DaemonEvent where
  | hears (h : Heard) (created : Bool) (hostTime : UInt64)
  | timeout
  | error
  | reader (call : SharedLedger.Call Rat)

def frameOf : Heard → Bytes
  | .packet _ frame => frame
  | .other frame => frame

def daemonEvent : DaemonEvent → DaemonLedger.Event
  | .hears h created hostTime => .capture (.frame (frameOf h) created hostTime)
  | .timeout => .capture .timeout
  | .error => .capture .error
  | .reader call => .reader call

def daemonHeard : DaemonEvent → Option Heard
  | .hears h _ _ => some h
  | _ => none

def counters (d : ReacDaemon) : Bool × UInt16 × UInt64 := (d.haveLastCounter,d.lastCounter,d.lostPackets)

def noted (d : ReacDaemon) (counter : UInt16) : Bool × UInt16 × UInt64 :=
  (true,counter,d.lostPackets + counterGap d.haveLastCounter d.lastCounter counter)

theorem capturePacket {s next : Loop} {frame : Bytes} {channels : UInt16} {created : Bool} {hostTime : UInt64}
    (wellFormed : WellFormed frame channels.toNat)
    (shape : (s.daemon.ring.isSome = true ∧ s.daemon.channels = channels) ∨ s.daemon.ring = none)
    (taken : Daemon.captureFrame s frame created hostTime = some next) :
    (next.daemon.ring.isSome = true ∧ next.daemon.channels = channels) ∧
      counters next.daemon = noted s.daemon (viewOf frame channels.toNat).counter := by
  have parsed := parseWellFormed wellFormed cleared
  have view : (viewOf frame channels.toNat).channels = channels := by
    rw [← UInt16.toNat_inj]
    exact viewChannels frame wellFormed.most
  obtain ⟨outputs,decoded,_⟩ := Daemon.decodeParsed wellFormed s.channelStorage
  rw [view] at decoded
  simp only [Daemon.captureFrame, parsed, Option.getD_some, reduceCtorEq, if_false, ne_eq, not_true_eq_false,
    view, decoded] at taken
  obtain ⟨daemon,opened,taken⟩ := Option.bind_eq_some_iff.mp taken
  have same : daemon.channels = channels ∧ counters daemon = counters s.daemon := by
    rcases Daemon.ensured opened with ⟨there,rfl⟩ | ⟨_,rfl⟩
    · rcases shape with ⟨_,same⟩ | missing
      · exact ⟨same,rfl⟩
      · rw [missing] at there
        cases there
    · exact ⟨rfl,rfl⟩
  obtain ⟨kept,counts⟩ := same
  simp only [kept, not_true_eq_false, if_false] at taken
  obtain ⟨ring,_,taken⟩ := Option.map_eq_some_iff.mp taken
  simp only [counters, Prod.mk.injEq] at counts
  obtain ⟨have_,last,lost⟩ := counts
  rw [← taken]
  refine ⟨⟨rfl,rfl⟩,?_⟩
  simp only [counters, Daemon.noteCounter, noted, have_, last, lost]

theorem captureOther {s next : Loop} {frame : Bytes} {channels : UInt16} {created : Bool} {hostTime : UInt64}
    (other : ¬ WellFormed frame channels.toNat)
    (shape : s.daemon.ring.isSome = true ∧ s.daemon.channels = channels)
    (taken : Daemon.captureFrame s frame created hostTime = some next) :
    (next.daemon.ring.isSome = true ∧ next.daemon.channels = channels) ∧
      counters next.daemon = counters s.daemon := by
  cases parsed : reacParsePacket (some frame) (some cleared) with
  | mk parseStatus view =>
    simp only [Daemon.captureFrame, parsed] at taken
    split at taken
    · rw [← Option.some.inj taken]
      exact ⟨shape,rfl⟩
    split at taken
    · rw [← Option.some.inj taken]
      exact ⟨shape,rfl⟩
    rename_i ok
    rw [not_not.mp ok] at parsed
    obtain ⟨count,wellFormed,rfl⟩ := parsedWellFormed parsed
    have apart : (viewOf frame count).channels ≠ s.daemon.channels := by
      intro same
      rw [shape.2] at same
      have counted := viewChannels frame wellFormed.most
      rw [same] at counted
      rw [counted] at other
      exact other wellFormed
    simp only [Option.getD_some, Daemon.ensureRing, shape.1, if_true, Option.bind_some, ne_eq, apart,
      not_false_eq_true] at taken
    rw [← Option.some.inj taken]
    exact ⟨shape,rfl⟩

theorem captureJunk {s next : Loop} {frame : Bytes} {created : Bool} {hostTime : UInt64}
    (junk : ∀ channels, ¬ WellFormed frame channels)
    (taken : Daemon.captureFrame s frame created hostTime = some next) :
    next.daemon.ring = s.daemon.ring ∧ counters next.daemon = counters s.daemon := by
  cases parsed : reacParsePacket (some frame) (some cleared) with
  | mk parseStatus view =>
    simp only [Daemon.captureFrame, parsed] at taken
    split at taken
    · rw [← Option.some.inj taken]
      exact ⟨rfl,rfl⟩
    split at taken
    · rw [← Option.some.inj taken]
      exact ⟨rfl,rfl⟩
    rename_i ok
    rw [not_not.mp ok] at parsed
    obtain ⟨count,wellFormed,_⟩ := parsedWellFormed parsed
    exact absurd wellFormed (junk count)

structure DaemonTallies (channels : UInt16) (d : ReacDaemon) (done : List Nat) (ahead : List Heard) : Prop where
  shape : (d.ring.isSome = true ∧ d.channels = channels) ∨ (d.ring = none ∧ FirstOurs ahead)
  tally : ∃ lost, d.lostPackets = UInt64.ofNat lost ∧ Tally d.haveLastCounter d.lastCounter lost done

theorem tallyCongr {d next : ReacDaemon} {done : List Nat} (same : counters next = counters d)
    (tally : ∃ lost, d.lostPackets = UInt64.ofNat lost ∧ Tally d.haveLastCounter d.lastCounter lost done) :
    ∃ lost, next.lostPackets = UInt64.ofNat lost ∧ Tally next.haveLastCounter next.lastCounter lost done := by
  simp only [counters, Prod.mk.injEq] at same
  obtain ⟨have_,last,lost⟩ := same
  rw [have_, last, lost]
  exact tally

theorem tallyNoted {d next : ReacDaemon} {done : List Nat} {n : Nat} {counter : UInt16}
    (same : counters next = noted d counter) (numbered : counter = UInt16.ofNat n)
    (inOrder : (done ++ [n]).IsChain Follows)
    (tally : ∃ lost, d.lostPackets = UInt64.ofNat lost ∧ Tally d.haveLastCounter d.lastCounter lost done) :
    ∃ lost, next.lostPackets = UInt64.ofNat lost ∧
      Tally next.haveLastCounter next.lastCounter lost (done ++ [n]) := by
  obtain ⟨lost,total,tally⟩ := tally
  simp only [counters, noted, Prod.mk.injEq] at same
  obtain ⟨have_,last,more⟩ := same
  rw [have_, last, more, total, numbered]
  refine ⟨_,?_,tallyStep tally inOrder⟩
  rw [UInt64.ofNat_add, UInt64.ofNat_toNat]

theorem daemonHearsStep {channels : UInt16} {s next : Loop} {done : List Nat} {h : Heard} {ahead : List Heard}
    {created : Bool} {hostTime : UInt64} (tallies : DaemonTallies channels s.daemon done (h :: ahead))
    (fits : Fits channels.toNat h) (inOrder : (done ++ captured (h :: ahead)).IsChain Follows)
    (taken : Daemon.captureFrame s (frameOf h) created hostTime = some next) :
    DaemonTallies channels next.daemon (done ++ captured [h]) ahead := by
  cases h with
  | packet n frame =>
    obtain ⟨wellFormed,numbered⟩ := fits
    obtain ⟨shape,same⟩ := capturePacket wellFormed (tallies.shape.imp_right And.left) taken
    refine ⟨Or.inl shape,tallyNoted same numbered ?_ tallies.tally⟩
    have whole : done ++ captured (.packet n frame :: ahead) = (done ++ [n]) ++ captured ahead := by
      simp [captured, number]
    rw [whole] at inOrder
    exact (List.isChain_append.mp inOrder).1
  | other frame =>
    have none : done ++ captured [.other frame] = done := List.append_nil done
    rw [none]
    rcases tallies.shape with there | ⟨missing,junk,ours⟩
    · obtain ⟨shape,same⟩ := captureOther fits there taken
      exact ⟨Or.inl shape,tallyCongr same tallies.tally⟩
    · obtain ⟨ring,same⟩ := captureJunk junk taken
      exact ⟨Or.inr ⟨ring.trans missing,ours⟩,tallyCongr same tallies.tally⟩

theorem daemonRunTallies {channels : UInt16} {b final : DaemonLedger.Books} {done : List Nat}
    {events : List DaemonEvent}
    (tallies : DaemonTallies channels b.loop.daemon done (events.filterMap daemonHeard))
    (fits : ∀ h ∈ events.filterMap daemonHeard, Fits channels.toNat h)
    (inOrder : (done ++ captured (events.filterMap daemonHeard)).IsChain Follows)
    (reached : run DaemonLedger.step b (events.map daemonEvent) = some final) :
    DaemonTallies channels final.loop.daemon (done ++ captured (events.filterMap daemonHeard)) [] := by
  induction events generalizing b done with
  | nil =>
    cases Option.some.inj reached
    have none : done ++ captured [] = done := List.append_nil done
    rw [List.filterMap_nil, none]
    exact tallies
  | cons event rest ih =>
    obtain ⟨next,taken,later⟩ := runCons reached
    cases event with
    | hears h created hostTime =>
      obtain ⟨loop,round,rfl⟩ := Option.map_eq_some_iff.mp taken
      have ahead : (DaemonEvent.hears h created hostTime :: rest).filterMap daemonHeard =
          h :: rest.filterMap daemonHeard := rfl
      rw [ahead] at tallies fits inOrder ⊢
      have moved := daemonHearsStep tallies (fits h (List.mem_cons_self ..)) inOrder round
      have split_ : captured (h :: rest.filterMap daemonHeard) =
          captured [h] ++ captured (rest.filterMap daemonHeard) := List.filterMap_append (l := [h])
      rw [split_, ← List.append_assoc] at inOrder ⊢
      exact ih moved (fun other member => fits other (List.mem_cons_of_mem _ member)) inOrder later
    | timeout =>
      cases Option.some.inj taken
      exact ih tallies fits inOrder later
    | error =>
      cases Option.some.inj taken
      refine ih ?_ fits inOrder later
      exact ⟨tallies.shape,tallies.tally⟩
    | reader call =>
      simp only [daemonEvent, DaemonLedger.step] at taken
      split at taken
      · obtain ⟨ring,there,rfl⟩ := Option.map_eq_some_iff.mp taken
        refine ih ?_ fits inOrder later
        refine ⟨Or.inl ⟨rfl,?_⟩,tallies.tally⟩
        rcases tallies.shape with ⟨_,same⟩ | ⟨missing,_⟩
        · exact same
        · rw [there] at missing
          cases missing
      · cases taken

theorem daemonStartTallies {channels given : UInt16} {heard : List Heard} {storage : Nat → Nat → Rat}
    {created : Bool} {start : Loop} (fixed : given = channels ∧ given ≠ 0 ∨ given = 0 ∧ FirstOurs heard)
    (started : runCapture (daemonOf given) storage created = some start) :
    DaemonTallies channels start.daemon [] heard := by
  unfold runCapture at started
  rcases fixed with ⟨rfl,positive⟩ | ⟨rfl,ours⟩
  · have sized : (daemonOf given).channels ≠ 0 := positive
    rw [if_pos sized] at started
    obtain ⟨daemon,opened,rfl⟩ := Option.map_eq_some_iff.mp started
    rcases Daemon.ensured opened with ⟨there,_⟩ | ⟨_,rfl⟩
    · cases there
    · exact ⟨Or.inl ⟨rfl,rfl⟩,0,rfl,rfl,rfl⟩
  · have open_ : ¬ (daemonOf 0).channels ≠ 0 := not_not.mpr rfl
    rw [if_neg open_] at started
    cases Option.some.inj started
    exact ⟨Or.inr ⟨rfl,ours⟩,0,rfl,rfl,rfl⟩

variable {capacity : Nat}

inductive BridgeEvent where
  | hears (h : Heard)
  | stopped
  | truncated
  | failed
  | query (cycle : Cycle)
  | read

def bridgeAction : BridgeEvent → JackBridge.Action
  | .hears h => .copyData (.frame (frameOf h))
  | .stopped => .copyData .stopped
  | .truncated => .copyData .truncated
  | .failed => .copyData .failed
  | .query cycle => .processQuery cycle
  | .read => .processRead

def bridgeHeard : BridgeEvent → Option Heard
  | .hears h => some h
  | _ => none

structure SameCounters (before after : Bridge capacity) : Prop where
  dataSize : after.dataSize = before.dataSize
  haveLastCounter : after.haveLastCounter = before.haveLastCounter
  lastCounter : after.lastCounter = before.lastCounter
  lostPackages : after.lostPackages = before.lostPackages

structure Noted (before after : Bridge capacity) (counter : UInt16) : Prop where
  haveLastCounter : after.haveLastCounter = true
  lastCounter : after.lastCounter = counter
  lostPackages : after.lostPackages =
    before.lostPackages + (counterGap before.haveLastCounter before.lastCounter counter).toNat

theorem copyPayloadNotes (b : Bridge capacity) (packet : ReacPacketView) :
    (JackBridge.copyPayload b packet).dataSize = b.dataSize ∧
      Noted b (JackBridge.copyPayload b packet) packet.counter := by
  obtain ⟨_,_,_,left⟩ := JackBridge.copyPayloadLeaves b packet
  rw [left]
  exact ⟨rfl,rfl,rfl,rfl⟩

theorem copyPacket {b : Bridge capacity} {frame : Bytes} {channels : Nat} (wellFormed : WellFormed frame channels)
    (shape : b.dataSize = 36 * channels ∨ b.dataSize = 0) :
    (JackBridge.copyFrame b frame).dataSize = 36 * channels ∧
      Noted b (JackBridge.copyFrame b frame) (viewOf frame channels).counter := by
  have parsed := parseWellFormed wellFormed cleared
  have positive := wellFormed.positive
  simp only [JackBridge.copyFrame, parsed, Option.getD_some, reduceCtorEq, if_false, ne_eq, not_true_eq_false]
  rcases shape with same | first
  · have some : ¬ b.dataSize = 0 := by omega
    have size : ¬ ¬ b.dataSize = (viewOf frame channels).payloadSize := not_not.mpr same
    obtain ⟨kept,notes⟩ := copyPayloadNotes b (viewOf frame channels)
    rw [if_neg some, if_neg size]
    exact ⟨kept.trans same,notes⟩
  · rw [if_pos first]
    obtain ⟨kept,have_,last,lost⟩ := copyPayloadNotes {b with
      dataSize := (viewOf frame channels).payloadSize
      currentNumberOfChannels := (viewOf frame channels).channels.toUInt32} (viewOf frame channels)
    exact ⟨kept,have_,last,lost⟩

theorem copyOther {b : Bridge capacity} {frame : Bytes}
    (other : ∀ channels, WellFormed frame channels → b.dataSize ≠ 0 ∧ b.dataSize ≠ 36 * channels) :
    SameCounters b (JackBridge.copyFrame b frame) := by
  cases parsed : reacParsePacket (some frame) (some cleared) with
  | mk parseStatus view =>
    simp only [JackBridge.copyFrame, parsed]
    split
    · exact ⟨rfl,rfl,rfl,rfl⟩
    split
    · exact ⟨rfl,rfl,rfl,rfl⟩
    rename_i ok
    rw [not_not.mp ok] at parsed
    obtain ⟨channels,wellFormed,rfl⟩ := parsedWellFormed parsed
    obtain ⟨some,apart⟩ := other channels wellFormed
    have size : b.dataSize ≠ (viewOf frame channels).payloadSize := apart
    rw [Option.getD_some, if_neg some, if_pos size]
    exact ⟨rfl,rfl,rfl,rfl⟩

theorem querySame (b : Bridge capacity) (cycle : Cycle) : SameCounters b (JackBridge.processQuery b cycle).1 := by
  simp only [JackBridge.processQuery]
  split
  · exact ⟨rfl,rfl,rfl,rfl⟩
  split
  · exact ⟨rfl,rfl,rfl,rfl⟩
  split <;> exact ⟨rfl,rfl,rfl,rfl⟩

theorem readSame (b : Bridge capacity) (cycle : Cycle) (bufferSize : Nat) :
    SameCounters b (JackBridge.processRead b cycle bufferSize).1 := by
  simp only [JackBridge.processRead]
  split
  · exact ⟨rfl,rfl,rfl,rfl⟩
  split
  · exact ⟨rfl,rfl,rfl,rfl⟩
  split <;> exact ⟨rfl,rfl,rfl,rfl⟩

structure BridgeTallies (channels : Nat) (b : Bridge capacity) (done : List Nat) (ahead : List Heard) : Prop where
  shape : (b.dataSize = 36 * channels ∧ b.dataSize ≠ 0) ∨ (b.dataSize = 0 ∧ FirstOurs ahead)
  tally : Tally b.haveLastCounter b.lastCounter b.lostPackages done

theorem bridgeSame {channels : Nat} {b next : Bridge capacity} {done : List Nat} {ahead : List Heard}
    (same : SameCounters b next) (tallies : BridgeTallies channels b done ahead) :
    BridgeTallies channels next done ahead := by
  obtain ⟨size,have_,last,lost⟩ := same
  exact ⟨by rw [size]; exact tallies.shape,by rw [have_, last, lost]; exact tallies.tally⟩

theorem bridgeHearsStep {channels : Nat} {b : Bridge capacity} {done : List Nat} {h : Heard} {ahead : List Heard}
    (tallies : BridgeTallies channels b done (h :: ahead)) (fits : Fits channels h)
    (inOrder : (done ++ captured (h :: ahead)).IsChain Follows) :
    BridgeTallies channels (JackBridge.copyFrame b (frameOf h)) (done ++ captured [h]) ahead := by
  cases h with
  | packet n frame =>
    obtain ⟨wellFormed,numbered⟩ := fits
    obtain ⟨size,have_,last,lost⟩ := copyPacket (b := b) wellFormed
      (tallies.shape.imp And.left And.left)
    have positive := wellFormed.positive
    have whole : done ++ captured (.packet n frame :: ahead) = (done ++ [n]) ++ captured ahead := by
      simp [captured, number]
    rw [whole] at inOrder
    refine ⟨Or.inl ⟨size,?_⟩,?_⟩
    · rw [frameOf, size]
      omega
    · rw [frameOf, have_, last, lost, numbered]
      exact tallyStep tallies.tally (List.isChain_append.mp inOrder).1
  | other frame =>
    have none : done ++ captured [.other frame] = done := List.append_nil done
    rw [none, frameOf]
    rcases tallies.shape with ⟨size,some⟩ | ⟨first,junk,ours⟩
    · refine bridgeSame (copyOther ?_) ⟨Or.inl ⟨size,some⟩,tallies.tally⟩
      intro count wellFormed
      refine ⟨some,?_⟩
      rw [size]
      intro same
      obtain rfl : channels = count := by omega
      exact fits wellFormed
    · exact bridgeSame (copyOther (fun count wellFormed => absurd wellFormed (junk count)))
        ⟨Or.inr ⟨first,ours⟩,tallies.tally⟩

theorem bridgeRunTallies {channels : Nat} {s final : JackBridge.System capacity} {done : List Nat}
    {events : List BridgeEvent} (tallies : BridgeTallies channels s.bridge done (events.filterMap bridgeHeard))
    (fits : ∀ h ∈ events.filterMap bridgeHeard, Fits channels h)
    (inOrder : (done ++ captured (events.filterMap bridgeHeard)).IsChain Follows)
    (reached : run JackBridge.act s (events.map bridgeAction) = some final) :
    BridgeTallies channels final.bridge (done ++ captured (events.filterMap bridgeHeard)) [] := by
  induction events generalizing s done with
  | nil =>
    cases Option.some.inj reached
    have none : done ++ captured [] = done := List.append_nil done
    rw [List.filterMap_nil, none]
    exact tallies
  | cons event rest ih =>
    obtain ⟨next,taken,later⟩ := runCons reached
    -- any step but the capture of a frame
    have silent : bridgeHeard event = none → SameCounters s.bridge next.bridge →
        BridgeTallies channels final.bridge (done ++ captured ((event :: rest).filterMap bridgeHeard)) [] := by
      intro unheard same
      have ahead : (event :: rest).filterMap bridgeHeard = rest.filterMap bridgeHeard :=
        List.filterMap_cons_none unheard
      rw [ahead] at tallies fits inOrder ⊢
      exact ih (bridgeSame same tallies) fits inOrder later
    cases event with
    | hears h =>
      have ahead : (BridgeEvent.hears h :: rest).filterMap bridgeHeard = h :: rest.filterMap bridgeHeard := rfl
      rw [ahead] at tallies fits inOrder ⊢
      simp only [bridgeAction, JackBridge.act] at taken
      split at taken
      · have moved := bridgeHearsStep tallies (fits h (List.mem_cons_self ..)) inOrder
        cases Option.some.inj taken
        have split_ : captured (h :: rest.filterMap bridgeHeard) =
            captured [h] ++ captured (rest.filterMap bridgeHeard) := List.filterMap_append (l := [h])
        rw [split_, ← List.append_assoc] at inOrder ⊢
        refine ih ?_ (fun other member => fits other (List.mem_cons_of_mem _ member)) inOrder later
        exact moved
      · cases taken
    | stopped | truncated | failed =>
      simp only [bridgeAction, JackBridge.act] at taken
      split at taken
      · cases Option.some.inj taken
        exact silent rfl ⟨rfl,rfl,rfl,rfl⟩
      · cases taken
    | query cycle =>
      have same := querySame s.bridge cycle
      simp only [bridgeAction, JackBridge.act] at taken
      split at taken
      · cases taken
      · split at taken <;> rename_i queried <;> rw [queried] at same <;> cases Option.some.inj taken
        · exact silent rfl same
        · exact silent rfl same
    | read =>
      obtain ⟨⟨cycle,bufferSize⟩,_,rfl⟩ := Option.map_eq_some_iff.mp taken
      exact silent rfl (readSame s.bridge cycle bufferSize)

/-- Both loss counters are exact over every run, so they agree. -/
theorem lossExact (channels : UInt16) (heard : List Heard) (fits : ∀ h ∈ heard, Fits channels.toNat h)
    (inOrder : (captured heard).IsChain Follows) :
    (∀ (given : UInt16) (storage : Nat → Nat → Rat) (created : Bool) (start : Loop) (events : List DaemonEvent)
        (final : DaemonLedger.Books),
      (given = channels ∧ given ≠ 0 ∨ given = 0 ∧ FirstOurs heard) →
      runCapture (daemonOf given) storage created = some start → events.filterMap daemonHeard = heard →
      run DaemonLedger.step (DaemonLedger.opening start) (events.map daemonEvent) = some final →
        final.loop.daemon.lostPackets = UInt64.ofNat (lostOf (captured heard))) ∧
    (∀ (capacity : Nat) (s final : JackBridge.System capacity) (events : List BridgeEvent),
      s.bridge.haveLastCounter = false → s.bridge.lostPackages = 0 →
      (s.bridge.dataSize = 36 * channels.toNat ∧ s.bridge.dataSize ≠ 0 ∨
        s.bridge.dataSize = 0 ∧ FirstOurs heard) →
      events.filterMap bridgeHeard = heard → run JackBridge.act s (events.map bridgeAction) = some final →
        final.bridge.lostPackages = lostOf (captured heard)) := by
  constructor
  · rintro given storage created start events final fixed started rfl reached
    have tallies := daemonRunTallies (b := DaemonLedger.opening start)
      (daemonStartTallies fixed started) fits inOrder reached
    obtain ⟨lost,total,tally⟩ := tallies.tally
    rw [total, tallyLost tally, List.nil_append]
  · rintro capacity s final events fresh none shape rfl reached
    have start : BridgeTallies channels.toNat s.bridge [] (events.filterMap bridgeHeard) := ⟨shape,fresh,none⟩
    have tallies := bridgeRunTallies start fits inOrder reached
    exact tallyLost tallies.tally

def numbered (n : Nat) : Heard := .packet n (ReacWire.numberedPacket n)

theorem numberedFits (n : Nat) : Fits (2 : UInt16).toNat (numbered n) :=
  ⟨ReacWire.numberedWellFormed n,ReacWire.numberedCounter n _⟩

def wrapping : List Heard := [numbered 65535,.other [1,2,3],numbered 65537]

def wrappingDaemon : List DaemonEvent :=
  [.hears (numbered 65535) true 10,.reader (.seekToFill 4),.hears (.other [1,2,3]) true 12,.timeout,
    .hears (numbered 65537) true 14]

def wrappingBridge : List BridgeEvent :=
  [.hears (numbered 65535),.truncated,.hears (.other [1,2,3]),.hears (numbered 65537)]

def wrappingBooks : Option DaemonLedger.Books :=
  run DaemonLedger.step (DaemonLedger.opening ⟨daemonOf 0,fun _ _ => 0⟩) (wrappingDaemon.map daemonEvent)

def wrappingSystem : Option (JackBridge.System 131071) :=
  run JackBridge.act (JackBridge.boot (JackBridge.bridgeOf 131071 1024)) (wrappingBridge.map bridgeAction)

theorem lossExactWrapping : (wrappingBooks.get (by decide +kernel)).loop.daemon.lostPackets = 1 ∧
    (wrappingSystem.get (by decide +kernel)).bridge.lostPackages = 1 := by
  have fits : ∀ h ∈ wrapping, Fits (2 : UInt16).toNat h := by
    intro h member
    simp only [wrapping, List.mem_cons, List.not_mem_nil, or_false] at member
    rcases member with rfl | rfl | rfl
    · exact numberedFits 65535
    · exact fun formed => absurd formed.length (by decide)
    · exact numberedFits 65537
  have inOrder : (captured wrapping).IsChain Follows := by
    change [65535,65537].IsChain Follows
    simp [Follows]
  obtain ⟨daemon,bridge⟩ := lossExact 2 wrapping fits inOrder
  exact ⟨daemon 0 _ true _ wrappingDaemon _ (Or.inr ⟨rfl,trivial⟩) rfl rfl (Option.some_get _).symm,
    bridge _ _ _ wrappingBridge rfl rfl (Or.inr ⟨rfl,trivial⟩) rfl (Option.some_get _).symm⟩

end ReacJack.LossAccounting
