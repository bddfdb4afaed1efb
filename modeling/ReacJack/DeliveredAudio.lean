import ReacJack.RecordingStart

/-! The device plays what was captured: while the ring's positions have not wrapped,
every real frame handed over carries the samples of the packet the trail names for it. -/
namespace ReacJack.DeliveredAudio
open BoundedFifo SharedFifo SharedLedger ReaderSide TransitionRuns SharedAudio ReacDecode Daemon HalDriver
open DeviceSystem AudioTrail RecordingStart
open DaemonLedger (storeChannels)

def Carries (packets : List Bytes) (channels : Nat) (origin : Origin) (frame : Frame Rat) : Prop :=
  ∃ packet, packets[origin.packet]? = some packet ∧ WellFormed packet channels ∧ origin.frame < 12 ∧
    AgreeTo channels frame (fun ch => packetSample packet channels ch origin.frame)

theorem carriesLater {packets : List Bytes} {channels : Nat} {origin : Origin} {frame : Frame Rat}
    (carries : Carries packets channels origin frame) (more : List Bytes) :
    Carries (packets ++ more) channels origin frame := by
  obtain ⟨packet,found,rest⟩ := carries
  have inside := (List.getElem?_eq_some_iff.mp found).1
  exact ⟨packet,by rw [List.getElem?_append_left inside]; exact found,rest⟩

structure Stored (t : Trail) (ring : SharedRing Rat) (q : Queue (Frame Rat) 48000) : Prop where
  refines : Refines ring q
  taken : q.taken = t.taken
  carried : List.Forall₂ (Carries t.packets ring.header.channels.toNat) t.stream q.stream

structure Sounding (t : Trail) : Prop where
  tracked : Tracked t
  stored : ∀ ring, t.system.ring = some ring → ∃ q, Stored t ring q
  heard : ∀ d ∈ t.delivered, ∃ channels, Carries t.packets channels d.origin d.row

theorem storeRefines {capacity : Nat} {ring : SharedRing Rat} {q : Queue (Frame Rat) capacity}
    (refines : Refines ring q) (storage : Nat → Nat → Rat) (hostTime : UInt64)
    (small : q.stream.length + 12 < 2 ^ 64) :
    Refines (storePacket ring storage hostTime) ((offer q (block storage 12)).getD q) := by
  cases offered_ : offer q (block storage (12 : UInt32).toNat) with
  | none =>
    have refused := writeRefusedRefines refines storage offered_
    have same : (offer q (block storage 12)).getD q = q := by
      rw [show offer q (block storage 12) = none from offered_]
      rfl
    rw [same]
    obtain ⟨capacityEq,positive,written,taken,stored⟩ := refines
    simp only [storePacket, refused]
    exact ⟨capacityEq,positive,written,taken,stored⟩
  | some next =>
    obtain ⟨_,stream,_⟩ := offered offered_
    have short : next.stream.length < 2 ^ 64 := by
      rw [stream, List.length_append, blockLength]
      exact small
    have same : (offer q (block storage 12)).getD q = next := by
      rw [show offer q (block storage 12) = some next from offered_]
      rfl
    obtain ⟨code,⟨capacityEq,positive,written,taken,stored⟩⟩ := writeRefines refines offered_ short
    rw [same]
    simp only [storePacket, code, ne_eq, not_true_eq_false, if_false]
    exact ⟨capacityEq,positive,written,taken,stored⟩

theorem packetStored {t : Trail} {ring : SharedRing Rat} {q : Queue (Frame Rat) 48000} (stored : Stored t ring q)
    {packet : Bytes} {channels : UInt16} (ready : Ready ring channels) (formed : WellFormed packet channels.toNat)
    {storage : Nat → Nat → Rat} (holds : Holds storage packet channels.toNat) (hostTime : UInt64)
    (system : System) (small : t.stream.length + 12 < 2 ^ 64) :
    Stored ⟨system,t.packets ++ [packet],
        t.stream ++ (if 12 ≤ 48000 - fill ring.header
          then (List.range 12).map (fun f => ⟨t.packets.length,f⟩) else []),t.taken,t.delivered⟩
      (storePacket ring storage hostTime) ((offer q (block storage 12)).getD q) := by
  have filled := refinesFill stored.refines
  have length := stored.carried.length_eq
  have shape : ring.header.channels.toNat = channels.toNat := by
    rw [ready.channelsEq, UInt16.toNat_toUInt32]
  have kept : List.Forall₂ (Carries (t.packets ++ [packet]) channels.toNat) t.stream q.stream := by
    rw [← shape]
    exact stored.carried.imp (fun _ _ carries => carriesLater carries [packet])
  refine ⟨storeRefines stored.refines storage hostTime (by omega),?_,?_⟩
  · cases offered_ : offer q (block storage 12) with
    | none => exact stored.taken
    | some next => exact (offered offered_).2.2.trans stored.taken
  · rw [storeChannels, shape]
    cases offered_ : offer q (block storage 12) with
    | none =>
      rw [refusedIff, blockLength] at offered_
      rw [if_neg (by omega), List.append_nil]
      exact kept
    | some next =>
      obtain ⟨fits,stream,_⟩ := offered offered_
      rw [blockLength] at fits
      rw [if_pos (by omega), Option.getD_some, stream]
      refine List.rel_append kept ?_
      rw [block, List.forall₂_map_left_iff, List.forall₂_map_right_iff, List.forall₂_same]
      intro f inside
      have below := List.mem_range.mp inside
      refine ⟨packet,?_,formed,below,?_⟩
      · simp only [List.getElem?_concat_length]
      · exact fun ch channel => holds ch f channel below

theorem captureSounding {t : Trail} (sounding : Sounding t) {c : Capture} {next : System}
    (step : inSession t.system (.capture c) = some next) (small : t.stream.length + 12 < 2 ^ 64) :
    Sounding (follow t (.capture c) next) := by
  have tracked := captureTracked sounding.tracked step
  rcases (captureFollow sounding.tracked step).2 with ⟨ring,_,same⟩ |
    ⟨packet,channels,ring,storage,hostTime,formed,holds,opened,ready,_,now,_,same⟩
  · rw [same] at tracked ⊢
    refine ⟨tracked,fun r there => ?_,sounding.heard⟩
    obtain ⟨q,refines,taken,carried⟩ := sounding.stored r (ring.symm.trans there)
    exact ⟨q,refines,taken,carried⟩
  · rw [same] at tracked ⊢
    have before : ∃ q, Stored t ring q := by
      rcases opened with ⟨there,_⟩ | ⟨missing,rfl⟩
      · exact sounding.stored ring there
      · obtain ⟨_,stream,taken⟩ := sounding.tracked.empty missing
        refine ⟨empty,createRefines 48000 channels (by decide),taken.symm,?_⟩
        rw [stream]
        exact .nil
    obtain ⟨q,stored⟩ := before
    refine ⟨tracked,fun r there => ?_,fun d member => ?_⟩
    · obtain rfl := Option.some.inj (now.symm.trans there)
      exact ⟨_,packetStored stored ready formed holds hostTime next small⟩
    · obtain ⟨channels,carries⟩ := sounding.heard d member
      exact ⟨channels,carriesLater carries [packet]⟩

theorem agreeAt {α β : Type} {R : α → β → Prop} {xs : List α} {ys : List β} (agree : List.Forall₂ R xs ys)
    {i : Nat} {x : α} (found : xs[i]? = some x) : ∃ y, ys[i]? = some y ∧ R x y := by
  obtain ⟨inside,rfl⟩ := List.getElem?_eq_some_iff.mp found
  have inside' : i < ys.length := agree.length_eq ▸ inside
  exact ⟨ys[i],List.getElem?_eq_getElem inside',agree.get inside inside'⟩

theorem readCarries {t : Trail} (sounding : Sounding t) {ring : SharedRing Rat}
    (there : t.system.ring = some ring) {out : Nat → Rat} {frames : UInt32} {d : Delivery}
    (member : d ∈ deliveries t (fill ring.header - fill (readInput t.system ring out frames).ring.header)
      (.readInput out frames)) : ∃ channels, Carries t.packets channels d.origin d.row := by
  obtain ⟨q,stored⟩ := sounding.stored ring there
  simp only [deliveries, there, List.mem_map, List.mem_range] at member
  obtain ⟨i,inside,rfl⟩ := member
  unfold readInput doIOOperation at inside ⊢
  split at inside
  · rename_i opened
    simp only [opened, if_true]
    obtain ⟨drop,wanted,le,_,refines,_,agree⟩ := regulatedServes stored.refines out kDeviceChannelCount frames
      kDeviceTargetFill kDeviceFillTolerance
    have before := refinesFill stored.refines
    have after := refinesFill refines
    have count := agree.length_eq
    have sum := takenAddFill q
    have taken := stored.taken
    have length := stored.carried.length_eq
    have dropped : (advance q drop.toNat).fill = q.fill - drop.toNat := by
      simp only [Queue.fill, advance] at le ⊢
      omega
    have rest : (advance (advance q drop.toNat) wanted).fill =
        q.fill - drop.toNat - min wanted (q.fill - drop.toNat) := by
      rw [← dropped]
      simp only [Queue.fill, advance]
      omega
    rw [rowsLength, frontLength, dropped] at count
    rw [before, after, rest]
    generalize sharedAudioReadInterleavedRegulated ring out kDeviceChannelCount frames kDeviceTargetFill
      kDeviceFillTolerance = r at *
    have place : t.taken + (q.fill - (q.fill - drop.toNat - min wanted (q.fill - drop.toNat)) - r.count.toNat) + i =
        (advance q drop.toNat).taken + i := by
      simp only [advance]
      omega
    have bound : (advance q drop.toNat).taken + i < t.stream.length := by
      simp only [advance]
      omega
    have row : (rows r.out kDeviceChannelCount.toNat r.count.toNat)[i]? =
        some (fun ch => r.out (i * kDeviceChannelCount.toNat + ch)) := by
      rw [List.getElem?_eq_getElem (by rw [rowsLength]; exact inside), rowsAt]
    obtain ⟨frame,found,packet,captured,formed,below,same⟩ := agreeAt stored.carried (lookedUp bound ⟨0,0⟩)
    obtain ⟨handed,waiting,agrees⟩ := agreeAt agree row
    rw [frontAt (by omega)] at waiting
    obtain rfl := Option.some.inj (waiting.symm.trans found)
    rw [place]
    refine ⟨_,packet,captured,formed,below,?_⟩
    intro ch channel
    have wide : kDeviceChannelCount.toNat = 40 := rfl
    have most := formed.most
    rw [← same ch channel]
    exact agrees ch (by omega)
  · exact absurd inside (Nat.not_lt_zero i)

theorem carriedSounding {t : Trail} (sounding : Sounding t) (action : Action) {next : System}
    (carried : Carried t.system next) (driver : ∀ c, action ≠ .capture c)
    (heard : ∀ d ∈ deliveries t (readPosition next.ring - readPosition t.system.ring).toNat action,
      ∃ channels, Carries t.packets channels d.origin d.row) : Sounding (follow t action next) := by
  obtain ⟨tracked,packets,stream,_⟩ := carriedTracked sounding.tracked action carried driver
  refine ⟨tracked,fun ring' after => ?_,fun d member => ?_⟩
  · rcases carried.ring with ⟨_,missing⟩ | ⟨ring,moved,before,there,kept⟩
    · exact absurd (missing.symm.trans after) (by simp)
    · obtain rfl := Option.some.inj (there.symm.trans after)
      obtain ⟨q,refines,taken,stored⟩ := sounding.stored ring before
      have same := kept (refinesSound refines)
      refine ⟨_,movedRefines refines same,?_,?_⟩
      · have filled := refinesFill refines
        have distance := movedDistance same
        have passed : (follow t action next).taken = t.taken +
            (readPosition next.ring - readPosition t.system.ring).toNat := rfl
        rw [passed, before, there]
        change (advance q (fill ring.header - fill moved.header)).taken =
          t.taken + (moved.header.readPos - ring.header.readPos).toNat
        simp only [advance]
        omega
      · rw [packets, stream, same.channels]
        exact stored
  · rw [packets]
    rcases List.mem_append.mp member with old | new
    · exact sounding.heard d old
    · exact heard d new

theorem actSounding {t : Trail} (sounding : Sounding t) {action : Action} {next : System}
    (step : inSession t.system action = some next) (driver : ∀ c, action ≠ .capture c) :
    Sounding (follow t action next) := by
  refine carriedSounding sounding action (actCarried step driver) driver ?_
  intro d member
  cases action with
  | readInput out frames =>
    cases there : t.system.ring with
    | none => simp [deliveries, there] at member
    | some ring =>
      obtain ⟨ready,_⟩ := sounding.tracked.live ring there
      rw [readDistance ready.sound there step] at member
      exact readCarries sounding there member
  | capture c => exact absurd rfl (driver c)
  | startIo now => exact absurd member List.not_mem_nil
  | stopIo => exact absurd member List.not_mem_nil
  | getZeroTimeStamp contended now => exact absurd member List.not_mem_nil

def Unwrapped (t : Trail) : Prop := t.stream.length + 12 < 2 ^ 64

theorem followUnwrapped {t : Trail} {action : Action} {next : System} (small : Unwrapped (follow t action next)) :
    Unwrapped t := by
  simp only [Unwrapped, follow, List.length_append] at *
  omega

theorem traceSounding (t : Trail) (action : Action) (next : Trail) (sounding : Unwrapped t → Sounding t)
    (taken : trace t action = some next) : Unwrapped next → Sounding next := by
  intro small
  obtain ⟨system,step,rfl⟩ := Option.map_eq_some_iff.mp taken
  have before := followUnwrapped small
  by_cases captured : ∃ c, action = .capture c
  · obtain ⟨c,rfl⟩ := captured
    exact captureSounding (sounding before) step before
  · exact actSounding (sounding before) step (fun c same => captured ⟨c,same⟩)

theorem recordingSounding {t : Trail} (sounding : Sounding t) (now : Nat) : Sounding (recording t now) :=
  carriedSounding sounding (.startIo now) (startCarried t.system now) (by intro c same; contradiction)
    (fun _ member => absurd member List.not_mem_nil)

theorem untouchedSounding {channels : UInt16} {storage : Nat → Nat → Rat} {created : Bool} {loop : Loop}
    (started : runCapture (daemonOf channels) storage created = some loop) (numer denom : UInt32) :
    Sounding (untouched (boot loop numer denom)) := by
  refine ⟨(untouchedWaiting started numer denom).tracked,fun ring there => ?_,
    fun _ member => absurd member List.not_mem_nil⟩
  rcases startedLoop started rfl with rfl | rfl
  · contradiction
  · obtain rfl := Option.some.inj there
    exact ⟨empty,createRefines 48000 channels (by decide),rfl,.nil⟩

theorem deliversCaptured {channels : UInt16} {storage : Nat → Nat → Rat} {created : Bool} {loop : Loop}
    (started : runCapture (daemonOf channels) storage created = some loop) {numer denom : UInt32}
    {captured : List Capture} {t : Trail}
    (reached : run captureTrail (untouched (boot loop numer denom)) captured = some t) {now : Nat}
    {session : List Action} {t' : Trail} (ran : run trace (recording t now) session = some t')
    (small : Unwrapped t') {d : Delivery} (member : d ∈ t'.delivered) :
    ∃ channels, Carries t'.packets channels d.origin d.row := by
  have before : Unwrapped t → Sounding t := runInvariant (fun s c => traceSounding s (.capture c))
    (fun _ => untouchedSounding started numer denom) reached
  have after : Unwrapped t' → Sounding t' := runInvariant traceSounding
    (fun begun => recordingSounding (before (followUnwrapped begun)) now) ran
  exact (after small).heard d member

end ReacJack.DeliveredAudio
