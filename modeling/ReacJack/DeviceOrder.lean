import ReacJack.DeliveredAudio

/-! Over any number of sessions the device hands over the captured frames in their order,
none twice, and each with the samples of its packet. -/
namespace ReacJack.DeviceOrder
open TransitionRuns SharedAudio ReaderSide ReacDecode Daemon HalDriver DeviceSystem
open AudioTrail RecordingStart DeliveredAudio
open ReacWire (quietPacket)

def hosted (s : System) (action : Action) : Option System :=
  match action with
  | .startIo now => some (start s now)
  | action => inSession s action

def listen (t : Trail) (action : Action) : Option Trail := (hosted t.system action).map (follow t action)

structure Ordered (t : Trail) : Prop where
  sounding : Sounding t
  stream : t.stream.Sublist (origins t.packets.length)
  delivered : (t.delivered.map Delivery.origin).Sublist (t.stream.take t.taken)

theorem deliveriesInside {t : Trail} (tracked : Tracked t) {ring : SharedRing Rat} (there : t.system.ring = some ring)
    (out : Nat → Rat) (frames : UInt32) :
    let moved := fill ring.header - fill (readInput t.system ring out frames).ring.header
    ((deliveries t moved (.readInput out frames)).map Delivery.origin).Sublist
      ((t.stream.drop t.taken).take moved) := by
  obtain ⟨ready,sum⟩ := tracked.live ring there
  obtain ⟨_,takes⟩ := readMoved t.system ready.sound out frames
  intro moved
  have within : t.taken + moved ≤ t.stream.length := by omega
  have same : (deliveries t moved (.readInput out frames)).map Delivery.origin =
      ((t.stream.drop t.taken).take moved).drop (moved - (readInput t.system ring out frames).count.toNat) := by
    simp only [deliveries, there, List.map_map]
    apply List.ext_getElem?
    intro i
    simp only [List.getElem?_map, List.getElem?_drop, List.getElem?_take]
    rcases Nat.lt_or_ge i (readInput t.system ring out frames).count.toNat with inside | outside
    · rw [List.getElem?_range inside, if_pos (by omega), Option.map_some, Function.comp,
        lookedUp (by omega) (⟨0,0⟩ : Origin), Nat.add_assoc]
    · rw [List.getElem?_eq_none (by simpa using outside), if_neg (by omega), Option.map_none]
  rw [same]
  exact List.drop_sublist _ _

theorem carriedOrdered {t : Trail} (ordered : Ordered t) (action : Action) {next : System}
    (carried : Carried t.system next) (driver : ∀ c, action ≠ .capture c) (sounding : Sounding (follow t action next))
    (inside : ((deliveries t (readPosition next.ring - readPosition t.system.ring).toNat action).map
      Delivery.origin).Sublist
        ((t.stream.drop t.taken).take (readPosition next.ring - readPosition t.system.ring).toNat)) :
    Ordered (follow t action next) := by
  obtain ⟨_,packets,stream,_⟩ := carriedTracked ordered.sounding.tracked action carried driver
  refine ⟨sounding,by rw [packets, stream]; exact ordered.stream,?_⟩
  rw [stream]
  simp only [follow, List.map_append, List.take_add]
  exact ordered.delivered.append inside

theorem captureOrdered {t : Trail} (ordered : Ordered t) {c : Capture} {next : System}
    (step : inSession t.system (.capture c) = some next) (small : Unwrapped t) :
    Ordered (follow t (.capture c) next) := by
  have sounding := captureSounding ordered.sounding step small
  rcases (captureFollow ordered.sounding.tracked step).2 with ⟨_,_,same⟩ |
    ⟨packet,channels,ring,storage,hostTime,_,_,_,_,sum,_,_,same⟩
  · rw [same] at sounding ⊢
    exact ⟨sounding,ordered.stream,ordered.delivered⟩
  · rw [same] at sounding ⊢
    refine ⟨sounding,?_,?_⟩
    · simp only [List.length_append, List.length_singleton]
      rw [originsSucc]
      refine ordered.stream.append ?_
      split
      · exact List.Sublist.refl _
      · exact List.nil_sublist _
    · simp only
      rw [List.take_append_of_le_length (by omega)]
      exact ordered.delivered

theorem sessionOrdered {t : Trail} (ordered : Ordered t) {action : Action} {next : System}
    (step : inSession t.system action = some next) (driver : ∀ c, action ≠ .capture c) :
    Ordered (follow t action next) := by
  refine carriedOrdered ordered action (actCarried step driver) driver (actSounding ordered.sounding step driver) ?_
  cases action with
  | readInput out frames =>
    cases there : t.system.ring with
    | none =>
      simp only [deliveries, there, List.map_nil]
      exact List.nil_sublist _
    | some ring =>
      obtain ⟨ready,_⟩ := ordered.sounding.tracked.live ring there
      have distance := readDistance ready.sound there step
      rw [there] at distance
      rw [distance]
      exact deliveriesInside ordered.sounding.tracked there out frames
  | capture | startIo | stopIo | getZeroTimeStamp => exact List.nil_sublist _

theorem listenOrdered (t : Trail) (action : Action) (next : Trail) (ordered : Unwrapped t → Ordered t)
    (taken : listen t action = some next) : Unwrapped next → Ordered next := by
  intro small
  obtain ⟨system,step,rfl⟩ := Option.map_eq_some_iff.mp taken
  have before := ordered (followUnwrapped small)
  cases action with
  | capture c => exact captureOrdered before step (followUnwrapped small)
  | startIo now =>
    obtain rfl := Option.some.inj step
    exact carriedOrdered before (.startIo now) (startCarried t.system now) (by intro c same; contradiction)
      (recordingSounding before.sounding now) (List.nil_sublist _)
  | stopIo => exact sessionOrdered before step (by intro c same; contradiction)
  | getZeroTimeStamp contended now => exact sessionOrdered before step (by intro c same; contradiction)
  | readInput out frames => exact sessionOrdered before step (by intro c same; contradiction)

/-- Whatever is captured and however often the device is started, stopped and read, the
frames it hands over are captured frames in the order of capture, none twice, with the
samples of their packets. -/
theorem deviceKeepsOrder (channels : UInt16) (storage : Nat → Nat → Rat) (created : Bool) (loop : Loop)
    (started : runCapture (daemonOf channels) storage created = some loop) (numer denom : UInt32)
    (actions : List Action) (t : Trail) (reached : run listen (untouched (boot loop numer denom)) actions = some t)
    (small : Unwrapped t) :
    (t.delivered.map Delivery.origin).Sublist (origins t.packets.length) ∧
    ∀ d ∈ t.delivered, ∃ packet, t.packets[d.origin.packet]? = some packet ∧
      ∃ channels, WellFormed packet channels ∧
        ∀ ch < channels, d.row ch = packetSample packet channels ch d.origin.frame := by
  have ordered : Ordered t := runInvariant (I := fun t => Unwrapped t → Ordered t) listenOrdered
    (fun _ => ⟨untouchedSounding started numer denom,List.Sublist.refl _,List.Sublist.refl _⟩) reached small
  refine ⟨ordered.delivered.trans ((List.take_sublist _ _).trans ordered.stream),?_⟩
  intro d member
  obtain ⟨channels,packet,captured,formed,_,agree⟩ := ordered.sounding.heard d member
  exact ⟨packet,captured,channels,formed,agree⟩

def twoSessions : Option Trail :=
  run listen (untouched (boot ⟨daemonOf 0,fun _ _ => 0⟩ 125 3))
    [.capture (.frame quietPacket true 10),.startIo 100,.readInput (fun _ => 0) 10,.capture (.frame quietPacket true 20),
      .stopIo,.startIo 200,.readInput (fun _ => 0) 20]

theorem deviceKeepsOrderTwice :
    let t := twoSessions.get (by decide +kernel)
    t.delivered.length = 14 ∧ (t.delivered.map Delivery.origin).Sublist (origins t.packets.length) ∧
    ∀ d ∈ t.delivered, ∃ packet, t.packets[d.origin.packet]? = some packet ∧
      ∃ channels, WellFormed packet channels ∧
        ∀ ch < channels, d.row ch = packetSample packet channels ch d.origin.frame :=
  ⟨by decide +kernel,deviceKeepsOrder 0 (fun _ _ => 0) true _ rfl 125 3 _ _ (Option.some_get (by decide +kernel)).symm
    (by unfold Unwrapped; decide +kernel)⟩

end ReacJack.DeviceOrder
