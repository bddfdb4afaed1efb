import ReacJack.LinuxBridge

/-! From the slots the kernel fills to the ports JACK plays. What `copyData` does to the slots
does not depend on the globals that the callback and `main` change, so beside every run
there is one without them, which takes the same frames; and the audio stays aligned at
every access, also between the one that fixes the channel count and the one that stores. -/
namespace ReacJack.KernelToPorts
open TransitionRuns ReacDecode JackRingbuffer RxRing LinuxBridge
open RxRingOrder hiding Trail trace follow untouched
open JackBridge (Bridge Shaped Cycle CaptureResult shapedCongr copyPayload copyPayloadStores copyPayloadLeaves Stored
  supportedOf processQuery processRead resetAll)
open JackAlignment (Tracked Heard acceptedRows channelsOf quietTracked storedTracked traceTracked)

variable {capacity : Nat}

theorem parseAlike (r : Receiver capacity) (size : Int32) {shadow : Bridge capacity}
    (same : shadow.dataSize = r.bridge.dataSize) : ∃ shadow',
    parseFrame {r with bridge := shadow} size = {parseFrame r size with bridge := shadow'} ∧
      shadow'.dataSize = (parseFrame r size).bridge.dataSize := by
  cases parsed : reacParsePacket (some (frameData (header r) size)) (some cleared) with
  | mk parseStatus view =>
    have header_ : header {r with bridge := shadow} = header r := rfl
    simp only [parseFrame, header_, parsed, same]
    split
    · exact ⟨_,rfl,rfl⟩
    split
    · exact ⟨_,rfl,rfl⟩
    split
    · exact ⟨_,rfl,rfl⟩
    split
    · exact ⟨_,rfl,rfl⟩
    · exact ⟨_,rfl,same⟩

theorem storeSize (r : Receiver capacity) (packet : ReacPacketView) (size : Int32) :
    (storePayload r packet size).dataSize = r.bridge.dataSize := by
  obtain ⟨_,_,_,left⟩ := copyPayloadLeaves r.bridge
    {packet with payload := some ((frameData (header r) size).drop reacPacketOverhead)}
  rw [storePayload, left]
  rfl

theorem actAlike {r next : Receiver capacity} {action : Action} (taken : RxRing.act r action = some next)
    {shadow : Bridge capacity} (same : shadow.dataSize = r.bridge.dataSize) : ∃ shadow',
    RxRing.act {r with bridge := shadow} action = some {next with bridge := shadow'} ∧
      shadow'.dataSize = next.bridge.dataSize := by
  cases action with
  | kernelWrite frame =>
    simp only [RxRing.act, kernelWrite] at taken ⊢
    split at taken <;> cases taken
    rename_i idle
    exact ⟨shadow,if_pos idle,same⟩
  | kernelPublish copy =>
    simp only [RxRing.act, kernelPublish] at taken ⊢
    split at taken <;> cases taken
    rename_i filling
    exact ⟨shadow,if_pos filling,same⟩
  | poll result =>
    simp only [RxRing.act, poll] at taken ⊢
    split at taken
    · cases result <;> cases taken <;> exact ⟨_,rfl,same⟩
    · contradiction
  | copyData =>
    simp only [RxRing.act, copyData] at taken ⊢
    cases here : r.pc with
    | polling =>
      rw [here] at taken
      contradiction
    | parsing size =>
      rw [here] at taken
      cases taken
      obtain ⟨shadow',parsed,size_⟩ := parseAlike r size same
      exact ⟨shadow',congrArg some parsed,size_⟩
    | storing packet size =>
      rw [here] at taken
      cases taken
      refine ⟨_,rfl,?_⟩
      rw [storeSize, storeSize]
      exact same
    | checking =>
      rw [here] at taken
      simp only at taken ⊢
      split at taken <;> cases taken <;> rename_i test
      · exact ⟨_,if_pos test,same⟩
      · exact ⟨_,if_neg test,same⟩
    | _ =>
      rw [here] at taken
      cases taken
      exact ⟨_,rfl,same⟩

theorem ghostsAlike (t : RxRingOrder.Trail capacity) (shadow : Bridge capacity) (action : Action)
    (next : Receiver capacity) :
    RxRingOrder.follow {t with receiver := {t.receiver with bridge := shadow}} action next =
      RxRingOrder.follow t action next := by
  cases action with
  | copyData =>
    cases here : t.receiver.pc <;>
      simp only [RxRingOrder.follow, published, takenUp, statusCleared, advanced, here] <;> rfl
  | _ => rfl

def Ordered (t : Trail capacity) : Prop :=
  ∃ start shadow : Bridge capacity, shadow.dataSize = t.linux.receiver.bridge.dataSize ∧
    Kept start {rxTrailOf t with receiver := {t.linux.receiver with bridge := shadow}}

theorem captureOrdered {t : Trail capacity} (ordered : Ordered t) {action : Action} {next : Receiver capacity}
    (taken : RxRing.act t.linux.receiver action = some next) :
    Ordered (followCapture t action {t.linux with receiver := next}) := by
  obtain ⟨start,shadow,same,kept⟩ := ordered
  obtain ⟨shadow',alike,same'⟩ := actAlike taken same
  refine ⟨start,shadow',same',?_⟩
  have later := traceKept _ action _ kept (show RxRingOrder.trace _ action = some _ from
    Option.map_eq_some_iff.mpr ⟨_,alike,rfl⟩)
  have ghosts := ghostsAlike (rxTrailOf t) shadow action {next with bridge := shadow'}
  rw [show (rxTrailOf t).receiver = t.linux.receiver from rfl] at ghosts
  rw [ghosts] at later
  exact later

theorem callbackOrdered {t : Trail capacity} (ordered : Ordered t) {action : JackBridge.Action}
    {linux : Linux capacity} (bridge : linux.receiver = {t.linux.receiver with bridge := linux.receiver.bridge})
    (size : linux.receiver.bridge.dataSize = t.linux.receiver.bridge.dataSize) :
    Ordered (followCallback t action linux) := by
  obtain ⟨start,shadow,same,kept⟩ := ordered
  refine ⟨start,shadow,same.trans size.symm,?_⟩
  have alike : {linux.receiver with bridge := shadow} = {t.linux.receiver with bridge := shadow} := by rw [bridge]
  change Kept start ⟨{linux.receiver with bridge := shadow},t.fills,t.results,t.cleared,t.consumed⟩
  rw [alike]
  exact kept

theorem parseCases (r : Receiver capacity) (size : Int32) {channels : Nat} (shaped : Shaped r.bridge channels) :
    ∃ bridge next, (parseFrame r size = {r with bridge, pc := .releasing} ∨
        WellFormed (frameData (header r) size) next ∧
          parseFrame r size = {r with bridge, pc := .storing (viewOf (frameData (header r) size) next) size}) ∧
      Shaped bridge next ∧ (next = channels ∨ channels = 0 ∧ DecodedRows.Supported next) ∧
      bridge.ringbuffer = r.bridge.ringbuffer := by
  cases parsed : reacParsePacket (some (frameData (header r) size)) (some cleared) with
  | mk parseStatus view =>
    simp only [parseFrame, parsed]
    split
    · exact ⟨_,channels,.inl rfl,shapedCongr shaped rfl rfl,.inl rfl,rfl⟩
    split
    · exact ⟨_,channels,.inl rfl,shapedCongr shaped rfl rfl,.inl rfl,rfl⟩
    rename_i ok
    rw [not_not.mp ok] at parsed
    obtain ⟨next,wellFormed,rfl⟩ := parsedWellFormed parsed
    have size_ := shaped.dataSize
    simp only [Option.getD_some]
    split
    · refine ⟨_,next,.inr ⟨wellFormed,rfl⟩,⟨rfl,?_⟩,.inr ⟨by omega,supportedOf wellFormed⟩,rfl⟩
      rw [UInt16.toNat_toUInt32]
      exact viewChannels _ wellFormed.most
    split
    · exact ⟨_,channels,.inl rfl,shapedCongr shaped rfl rfl,.inl rfl,rfl⟩
    · rename_i same
      have payloadSize : r.bridge.dataSize = 36 * next := not_not.mp same
      obtain rfl : next = channels := by omega
      exact ⟨r.bridge,next,.inr ⟨wellFormed,rfl⟩,shaped,.inl rfl,rfl⟩

theorem storeStores (r : Receiver capacity) (size : Int32) {channels : Nat} (shaped : Shaped r.bridge channels)
    (wellFormed : WellFormed (frameData (header r) size) channels) :
    Shaped (storePayload r (viewOf (frameData (header r) size) channels) size) channels ∧
      Stored r.bridge.ringbuffer (storePayload r (viewOf (frameData (header r) size) channels) size).ringbuffer
        (frameData (header r) size) channels := copyPayloadStores shaped wellFormed

def Holding (t : Trail capacity) (channels : Nat) : Prop :=
  match t.linux.receiver.pc with
  | .storing packet size =>
    let frame := frameData (header t.linux.receiver) size
    WellFormed frame channels ∧ packet = viewOf frame channels ∧
      ∃ earlier, handed t.results = earlier ++ [frame] ∧ t.accepted.Sublist earlier
  | _ => t.accepted.Sublist (handed t.results)

structure Carried (t : Trail capacity) (channels : Nat) : Prop where
  ordered : Ordered t
  tracked : Tracked (audioOf t) channels
  holding : Holding t channels

theorem quietCarried {t : Trail capacity} {channels : Nat} (carried : Carried t channels) {action : Action}
    {next : Receiver capacity} (taken : RxRing.act t.linux.receiver action = some next)
    (shaped : Shaped next.bridge channels) (ring : next.bridge.ringbuffer = t.linux.receiver.bridge.ringbuffer)
    (none_ : stored t.linux.receiver next action = [])
    (holding : Holding (followCapture t action {t.linux with receiver := next}) channels) :
    ∃ channels', Carried (followCapture t action {t.linux with receiver := next}) channels' := by
  refine ⟨channels,captureOrdered carried.ordered taken,?_,holding⟩
  have same : {audioOf t with system := systemOf {t.linux with receiver := next}} =
      audioOf (followCapture t action {t.linux with receiver := next}) := by
    simp only [followCapture, audioOf, none_, List.append_nil]
  rw [← same]
  exact quietTracked carried.tracked (.inl rfl) shaped ring carried.tracked.pending

theorem handedMore (results more : List CaptureResult) : handed (results ++ more) = handed results ++ handed more :=
  List.filterMap_append

theorem headerStays {t : Trail capacity} (ordered : Ordered t) {packet : ReacPacketView} {size : Int32}
    (here : t.linux.receiver.pc = .storing packet size) {action : Action} {next : Receiver capacity}
    (taken : RxRing.act t.linux.receiver action = some next) (kernel : action ≠ .copyData) :
    header next = header t.linux.receiver := by
  -- The kernel cannot touch the slot that is in front of `copyData`.
  obtain ⟨start,shadow,_,kept⟩ := ordered
  obtain ⟨busy,_⟩ := holdingAlone kept (by
    change holding t.linux.receiver.pc = true
    rw [here]
    rfl)
  cases action with
  | copyData => contradiction
  | poll result =>
    simp only [RxRing.act, poll, here] at taken
    contradiction
  | kernelWrite frame =>
    simp only [RxRing.act, kernelWrite] at taken
    split at taken
    · rename_i idle
      cases taken
      exact elsewhere idle.2 busy
    · contradiction
  | kernelPublish copy =>
    simp only [RxRing.act, kernelPublish] at taken
    split at taken
    · rename_i filling
      cases taken
      exact elsewhere (headFree kept filling) busy
    · contradiction

def inStore : Pc → Bool
  | .storing _ _ => true
  | _ => false

theorem acceptedHanded {t : Trail capacity} {channels : Nat} (holding : Holding t channels)
    (before : inStore t.linux.receiver.pc = false) : t.accepted.Sublist (handed t.results) := by
  unfold Holding at holding
  split at holding
  · rename_i here
    rw [here] at before
    contradiction
  · exact holding

theorem handedHolding {t : Trail capacity} {channels : Nat} (holding : t.accepted.Sublist (handed t.results))
    (after : inStore t.linux.receiver.pc = false) : Holding t channels := by
  unfold Holding
  split
  · rename_i here
    rw [here] at after
    contradiction
  · exact holding

theorem looseHolding {t : Trail capacity} {channels : Nat} (holding : Holding t channels) {action : Action}
    {next : Receiver capacity} (before : inStore t.linux.receiver.pc = false) (after : inStore next.pc = false)
    (none_ : stored t.linux.receiver next action = []) :
    Holding (followCapture t action {t.linux with receiver := next}) channels := by
  refine handedHolding ?_ after
  simp only [followCapture, none_, List.append_nil, RxRingOrder.follow, handedMore]
  exact (acceptedHanded holding before).trans (List.sublist_append_left _ _)

theorem kernelCarried {t : Trail capacity} {channels : Nat} (carried : Carried t channels) {action : Action}
    {next : Receiver capacity} (taken : RxRing.act t.linux.receiver action = some next)
    (kernel : (∃ frame, action = .kernelWrite frame) ∨ ∃ copy, action = .kernelPublish copy)
    (bridge : next.bridge = t.linux.receiver.bridge) (pc : next.pc = t.linux.receiver.pc) :
    ∃ channels', Carried (followCapture t action {t.linux with receiver := next}) channels' := by
  have quiet : takenUp t.linux.receiver action = [] ∧ stored t.linux.receiver next action = [] ∧
      action ≠ .copyData := by
    rcases kernel with ⟨frame,rfl⟩ | ⟨copy,rfl⟩ <;> exact ⟨rfl,rfl,by intro same; contradiction⟩
  obtain ⟨nothing,none_,other⟩ := quiet
  have holding := carried.holding
  refine quietCarried carried taken (by rw [bridge]; exact carried.tracked.shaped) (by rw [bridge]) none_ ?_
  have results : (followCapture t action {t.linux with receiver := next}).results = t.results := by
    simp only [followCapture, RxRingOrder.follow, rxTrailOf, nothing, List.append_nil]
  have accepted : (followCapture t action {t.linux with receiver := next}).accepted = t.accepted := by
    simp only [followCapture, none_, List.append_nil]
  unfold Holding at holding ⊢
  rw [results, accepted]
  simp only [followCapture, pc]
  cases here : t.linux.receiver.pc with
  | storing packet size =>
    rw [here] at holding
    simp only [headerStays carried.ordered here taken other]
    exact holding
  | _ =>
    rw [here] at holding
    exact holding

theorem pollCarried {t : Trail capacity} {channels : Nat} (carried : Carried t channels) {result : Poll}
    {next : Receiver capacity} (taken : RxRing.act t.linux.receiver (.poll result) = some next) :
    ∃ channels', Carried (followCapture t (.poll result) {t.linux with receiver := next}) channels' := by
  have polled := taken
  simp only [RxRing.act, poll] at taken
  split at taken
  · rename_i here
    have before : inStore t.linux.receiver.pc = false := by rw [here]; rfl
    cases result <;> cases taken <;>
      exact quietCarried carried polled (shapedCongr carried.tracked.shaped rfl rfl) rfl rfl
        (looseHolding carried.holding before rfl rfl)
  · contradiction

theorem parsedCarried {t : Trail capacity} {channels : Nat} (carried : Carried t channels) {size : Int32}
    (here : t.linux.receiver.pc = .parsing size) {next : Receiver capacity}
    (taken : RxRing.act t.linux.receiver .copyData = some next) :
    ∃ channels', Carried (followCapture t .copyData {t.linux with receiver := next}) channels' := by
  have accessed := taken
  have accepted := acceptedHanded carried.holding (by rw [here]; rfl)
  simp only [RxRing.act, copyData, here] at taken
  cases taken
  obtain ⟨bridge,next,branch,shaped,grown,ring⟩ := parseCases t.linux.receiver size carried.tracked.shaped
  have pending : ∀ cycle bufferSize, t.linux.processing = some (cycle,bufferSize) →
      next ≠ 0 ∧ bufferSize = 3 * next * cycle.nframes.toNat := by
    intro cycle bufferSize processing
    obtain ⟨positive,size⟩ := carried.tracked.pending cycle bufferSize processing
    obtain rfl : next = channels := grown.resolve_right fun first => positive first.1
    exact ⟨positive,size⟩
  have more : handed (t.results ++ takenUp t.linux.receiver .copyData) =
      handed t.results ++ [frameData (header t.linux.receiver) size] := by
    simp only [takenUp, here, handedMore]
    rfl
  have none_ : ∀ after, stored t.linux.receiver after .copyData = [] := by
    intro after
    simp only [stored, here]
  rcases branch with parsed | ⟨wellFormed,parsed⟩ <;> rw [parsed] at accessed ⊢ <;>
    refine ⟨next,captureOrdered carried.ordered accessed,?_,?_⟩
  · simp only [followCapture, audioOf, none_, List.append_nil]
    exact quietTracked carried.tracked grown shaped ring pending
  · refine handedHolding ?_ rfl
    simp only [followCapture, none_, List.append_nil, RxRingOrder.follow, rxTrailOf, more]
    exact accepted.trans (List.sublist_append_left _ _)
  · simp only [followCapture, audioOf, none_, List.append_nil]
    exact quietTracked carried.tracked grown shaped ring pending
  · refine ⟨wellFormed,rfl,handed t.results,more,?_⟩
    simp only [followCapture, none_, List.append_nil]
    exact accepted

theorem storedCarried {t : Trail capacity} {channels : Nat} (carried : Carried t channels)
    {packet : ReacPacketView} {size : Int32} (here : t.linux.receiver.pc = .storing packet size)
    {next : Receiver capacity} (taken : RxRing.act t.linux.receiver .copyData = some next) :
    ∃ channels', Carried (followCapture t .copyData {t.linux with receiver := next}) channels' := by
  have accessed := taken
  have holding := carried.holding
  simp only [Holding, here] at holding
  obtain ⟨wellFormed,rfl,earlier,more,accepted⟩ := holding
  simp only [RxRing.act, copyData, here] at taken
  cases taken
  obtain ⟨shaped,stores⟩ := storeStores t.linux.receiver size carried.tracked.shaped wellFormed
  have results : handed (t.results ++ takenUp t.linux.receiver .copyData) =
      earlier ++ [frameData (header t.linux.receiver) size] := by
    simp only [takenUp, here, List.append_nil]
    exact more
  refine ⟨channels,captureOrdered carried.ordered accessed,?_,handedHolding ?_ rfl⟩
  · rcases stores with ring | ⟨formed,room,ring⟩
    · have none_ : stored t.linux.receiver {t.linux.receiver with
          bridge := storePayload t.linux.receiver (viewOf (frameData (header t.linux.receiver) size) channels) size
          pc := .releasing} .copyData = [] := by
        simp only [stored, here, ring, Nat.lt_irrefl, if_false]
      simp only [followCapture, audioOf, none_, List.append_nil]
      exact quietTracked carried.tracked (.inl rfl) shaped ring carried.tracked.pending
    · have grew : jackRingbufferReadSpace t.linux.receiver.bridge.ringbuffer < jackRingbufferReadSpace
          (storePayload t.linux.receiver (viewOf (frameData (header t.linux.receiver) size) channels)
            size).ringbuffer := by
        have length := formed.length
        have positive := formed.positive
        rw [ring]
        simp only [jackRingbufferReadSpace, jackRingbufferWrite, Nat.min_eq_left room, List.length_append,
          List.length_take, List.length_drop]
        omega
      have one : stored t.linux.receiver {t.linux.receiver with
          bridge := storePayload t.linux.receiver (viewOf (frameData (header t.linux.receiver) size) channels) size
          pc := .releasing} .copyData = [frameData (header t.linux.receiver) size] := by
        simp only [stored, here, grew, if_true]
      simp only [followCapture, audioOf, one]
      exact storedTracked carried.tracked formed shaped room ring rfl
  · simp only [followCapture, RxRingOrder.follow, rxTrailOf, results]
    refine accepted.append ?_
    simp only [stored, here]
    split
    · exact List.Sublist.refl _
    · exact List.nil_sublist _

theorem copyDataCarried {t : Trail capacity} {channels : Nat} (carried : Carried t channels)
    {next : Receiver capacity} (taken : RxRing.act t.linux.receiver .copyData = some next) :
    ∃ channels', Carried (followCapture t .copyData {t.linux with receiver := next}) channels' := by
  have accessed := taken
  cases here : t.linux.receiver.pc with
  | parsing size => exact parsedCarried carried here taken
  | storing packet size => exact storedCarried carried here taken
  | polling =>
    simp only [RxRing.act, copyData, here] at taken
    contradiction
  | waiting =>
    have before : inStore t.linux.receiver.pc = false := by rw [here]; rfl
    have none_ : stored t.linux.receiver next .copyData = [] := by simp only [stored, here]
    simp only [RxRing.act, copyData, here] at taken
    cases taken
    refine quietCarried carried accessed (shapedCongr carried.tracked.shaped rfl rfl) rfl none_
      (looseHolding carried.holding before ?_ none_)
    simp only
    split <;> rfl
  | checking =>
    have before : inStore t.linux.receiver.pc = false := by rw [here]; rfl
    have none_ : stored t.linux.receiver next .copyData = [] := by simp only [stored, here]
    simp only [RxRing.act, copyData, here] at taken
    split at taken <;> cases taken <;>
      exact quietCarried carried accessed (shapedCongr carried.tracked.shaped rfl rfl) rfl none_
        (looseHolding carried.holding before rfl none_)
  | _ =>
    have before : inStore t.linux.receiver.pc = false := by rw [here]; rfl
    have none_ : stored t.linux.receiver next .copyData = [] := by simp only [stored, here]
    simp only [RxRing.act, copyData, here] at taken
    cases taken
    exact quietCarried carried accessed (shapedCongr carried.tracked.shaped rfl rfl) rfl none_
      (looseHolding carried.holding before rfl none_)

theorem queryCount (b : Bridge capacity) (cycle : Cycle) :
    (processQuery b cycle).1.currentNumberOfChannels = b.currentNumberOfChannels := by
  simp only [processQuery]
  split
  · rfl
  split
  · rfl
  split <;> rfl

theorem readCount (b : Bridge capacity) (cycle : Cycle) (bufferSize : Nat) :
    (processRead b cycle bufferSize).1.currentNumberOfChannels = b.currentNumberOfChannels := by
  simp only [processRead]
  split
  · rfl
  split
  · rfl
  split <;> rfl

theorem callbackCarried {t : Trail capacity} {channels : Nat} (carried : Carried t channels)
    {action : JackBridge.Action} {linux : Linux capacity} (taken : callback t.linux action = some linux)
    (beside : ∀ result, action ≠ .copyData result) :
    Carried (followCallback t action linux) channels := by
  obtain ⟨system,acted,rfl⟩ := Option.map_eq_some_iff.mp taken
  have count : system.bridge.currentNumberOfChannels = t.linux.receiver.bridge.currentNumberOfChannels ∧
      system.grabbing = true := by
    cases action with
    | copyData result => exact absurd rfl (beside result)
    | reset =>
      cases Option.some.inj acted
      exact ⟨rfl,rfl⟩
    | processRead =>
      obtain ⟨⟨cycle,bufferSize⟩,_,rfl⟩ := Option.map_eq_some_iff.mp acted
      exact ⟨readCount _ cycle bufferSize,rfl⟩
    | processQuery cycle =>
      have same := queryCount t.linux.receiver.bridge cycle
      simp only [JackBridge.act, systemOf] at acted
      split at acted
      · contradiction
      split at acted <;> rename_i queried <;> rw [queried] at same <;> cases acted <;> exact ⟨same,rfl⟩
  obtain ⟨bridge,grabbing,processing⟩ := system
  obtain ⟨count,rfl⟩ := count
  obtain ⟨next,tracked⟩ := traceTracked (audioOf t) action _ ⟨channels,carried.tracked⟩
    (show JackAlignment.trace (audioOf t) action = some _ from Option.map_eq_some_iff.mpr ⟨_,acted,rfl⟩)
  have same : next = channels := by
    rw [← tracked.shaped.count, ← carried.tracked.shaped.count]
    exact congrArg UInt32.toNat count
  subst same
  have size : bridge.dataSize = t.linux.receiver.bridge.dataSize :=
    tracked.shaped.dataSize.trans carried.tracked.shaped.dataSize.symm
  have accepted : (JackAlignment.follow (audioOf t) action ⟨bridge,true,processing⟩).accepted = t.accepted := by
    cases action with
    | copyData result => exact absurd rfl (beside result)
    | _ => exact List.append_nil _
  refine ⟨callbackOrdered carried.ordered rfl size,tracked,?_⟩
  have holding := carried.holding
  unfold Holding at holding ⊢
  simp only [followCallback, systemOf, accepted]
  exact holding

theorem traceCarried (t : Trail capacity) (event : Event) (next : Trail capacity)
    (carried : ∃ channels, Carried t channels) (taken : trace t event = some next) :
    ∃ channels, Carried next channels := by
  obtain ⟨channels,carried⟩ := carried
  obtain ⟨linux,acted,rfl⟩ := Option.map_eq_some_iff.mp taken
  cases event with
  | capture action =>
    obtain ⟨receiver,accessed,rfl⟩ := Option.map_eq_some_iff.mp acted
    have whole := accessed
    cases action with
    | copyData => exact copyDataCarried carried accessed
    | poll result => exact pollCarried carried accessed
    | kernelWrite frame =>
      simp only [RxRing.act, kernelWrite] at accessed
      split at accessed <;> cases accessed
      exact kernelCarried carried whole (.inl ⟨frame,rfl⟩) rfl rfl
    | kernelPublish copy =>
      simp only [RxRing.act, kernelPublish] at accessed
      split at accessed <;> cases accessed
      exact kernelCarried carried whole (.inr ⟨copy,rfl⟩) rfl rfl
  | processQuery cycle => exact ⟨channels,callbackCarried carried acted (by intro result same; contradiction)⟩
  | processRead => exact ⟨channels,callbackCarried carried acted (by intro result same; contradiction)⟩
  | reset => exact ⟨channels,callbackCarried carried acted (by intro result same; contradiction)⟩

theorem untouchedCarried (ring : Nat → Slot) (capacity : Nat) (jackBufferFrames : UInt32) :
    Carried (untouched ring (JackBridge.bridgeOf capacity jackBufferFrames)) 0 :=
  ⟨⟨_,_,rfl,openedKept ring _⟩,JackAlignment.untouchedTracked capacity jackBufferFrames,List.Sublist.refl _⟩

/-- However the kernel, `poll`, `copyData`, the callbacks and `main` take their turns: the
ports play windows of the decoded packets, these are frames the kernel published, each
once and in its order, and only an interruption leaves a gap. -/
theorem portsPlayKernelFrames (ring : Nat → Slot) (capacity : Nat) (jackBufferFrames : UInt32)
    (schedule : List Event) (t : Trail capacity)
    (reached : run trace (untouched ring (JackBridge.bridgeOf capacity jackBufferFrames)) schedule = some t) :
    let slots := t.fills.take (t.consumed + inHand t.linux.receiver.pc)
    let channels := t.linux.receiver.bridge.currentNumberOfChannels.toNat
    t.accepted.Sublist ((slots.filter fun slot => !copied slot).map frameOf) ∧
    (∀ slot ∈ t.fills, slot.frame.length < 2 ^ 31 → frameOf slot = slot.frame) ∧
    (∀ packet ∈ t.accepted, WellFormed packet channels) ∧
    (∀ block ∈ t.blocks, block.channels = channels ∧ Heard (acceptedRows channels t.accepted) block) ∧
    t.blocks.Pairwise (fun a b => a.start + a.nframes ≤ b.start) ∧
    t.blocks.IsChain (fun a b => a.interruptions = b.interruptions → b.start = a.start + a.nframes) := by
  obtain ⟨channels,⟨start,shadow,_,kept⟩,tracked,holding⟩ := runInvariant
    (I := fun t : Trail capacity => ∃ channels, Carried t channels) traceCarried
    ⟨0,untouchedCarried ring capacity jackBufferFrames⟩ reached
  have handed_ : t.accepted.Sublist (handed t.results) := by
    unfold Holding at holding
    split at holding
    · obtain ⟨_,_,earlier,more,accepted⟩ := holding
      rw [more]
      exact accepted.trans (List.sublist_append_left _ _)
    · exact holding
  obtain ⟨_,_,laid⟩ := tracked.laid
  intro slots channels_
  have count : channels_ = channels := tracked.shaped.count
  have frames : handed t.results = (slots.filter fun slot => !copied slot).map frameOf := (takenUpResults kept).1
  rw [count]
  refine ⟨?_,fun slot member short => wholeFrame (kept.lengths slot member) short,tracked.packets,tracked.heard,
    laid.apart,laid.joined⟩
  rw [← frames]
  exact handed_

def betweenAccesses : List Event :=
  [.capture (.kernelWrite ReacWire.quietPacket),.capture (.kernelPublish false)] ++
  List.replicate 4 (.capture .copyData) ++ [.processQuery (JackAlignment.stereoCycle 8),.capture .copyData,
    .processQuery (JackAlignment.stereoCycle 8),.capture .copyData,.processRead,.capture .copyData]

theorem portsPlayKernelFramesBetween :
    let t := (run trace (untouched emptySlots (JackBridge.bridgeOf 131071 1024)) betweenAccesses).get
      (by decide +kernel)
    t.accepted.length = 1 ∧ t.blocks.map (fun block => (block.start,block.nframes)) = [(0,8)] ∧
      (∀ block ∈ t.blocks, block.channels = t.linux.receiver.bridge.currentNumberOfChannels.toNat ∧
        Heard (acceptedRows t.linux.receiver.bridge.currentNumberOfChannels.toNat t.accepted) block) :=
  ⟨by decide +kernel,by decide +kernel,(portsPlayKernelFrames emptySlots 131071 1024 betweenAccesses _
    (Option.some_get (by decide +kernel)).symm).2.2.2.1⟩

end ReacJack.KernelToPorts
