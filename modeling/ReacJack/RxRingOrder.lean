import ReacJack.SlotQueue
import ReacJack.TransitionRuns
import ReacJack.RxRing
import ReacJack.JackBridgeSpec

/-! What the kernel puts into the ring comes out once and in order. A trail remembers the
slots as the kernel published them, what `copyData` took each for, and every status word
it cleared; the invariant says how far each of them has got. -/
namespace ReacJack.RxRingOrder
open BufferLoops BoundedFifo SlotQueue TransitionRuns ReacDecode RxRing
open JackBridge (Bridge CaptureResult copyDataRound copyFrame copyPayload copyPayloadLeaves)

variable {capacity : Nat}

structure Trail (capacity : Nat) where
  receiver : Receiver capacity
  fills : List Slot
  results : List CaptureResult
  cleared : List Nat
  consumed : Nat

def resultOf (slot : Slot) : CaptureResult :=
  if slot.tpStatus &&& tpStatusCopy ≠ 0 then .truncated else .frame (frameData slot slot.tpLen.toInt32)

def published (s : Receiver capacity) : Action → List Slot
  | .kernelPublish copy =>
    [{s.ring s.head with tpStatus := if copy then tpStatusUser ||| tpStatusCopy else tpStatusUser}]
  | _ => []

def takenUp (s : Receiver capacity) : Action → List CaptureResult
  | .copyData =>
    match s.pc with
    | .checking => if (header s).tpStatus &&& tpStatusCopy ≠ 0 then [.truncated] else []
    | .parsing size => [.frame (frameData (header s) size)]
    | _ => []
  | .poll .failed => [.failed]
  | _ => []

def statusCleared (s : Receiver capacity) : Action → List Nat
  | .copyData =>
    match s.pc with
    | .skipping => [s.rxringOffset]
    | .releasing => [s.rxringOffset]
    | _ => []
  | _ => []

def advanced (s : Receiver capacity) : Action → Nat
  | .copyData =>
    match s.pc with
    | .skipped => 1
    | .released => 1
    | _ => 0
  | _ => 0

def follow (t : Trail capacity) (action : Action) (receiver : Receiver capacity) : Trail capacity where
  receiver := receiver
  fills := t.fills ++ published t.receiver action
  results := t.results ++ takenUp t.receiver action
  cleared := t.cleared ++ statusCleared t.receiver action
  consumed := t.consumed + advanced t.receiver action

def trace (t : Trail capacity) (action : Action) : Option (Trail capacity) :=
  (act t.receiver action).map (follow t action)

def untouched (receiver : Receiver capacity) : Trail capacity := ⟨receiver,[],[],[],0⟩

def inHand : Pc → Nat
  | .skipping | .skipped | .storing _ _ | .releasing | .released => 1
  | _ => 0

def leaving : Pc → Nat
  | .skipped | .released => 1
  | _ => 0

def settled (s : Receiver capacity) : Bridge capacity :=
  match s.pc with
  | .skipping | .skipped | .failing => {s.bridge with error := .capture}
  | .storing packet size => storePayload s packet size
  | _ => s.bridge

def caught : CaptureResult → Bool
  | .failed => false
  | _ => true

def Free (slot : Slot) : Prop := slot.tpStatus = tpStatusKernel

def Stands (s : Receiver capacity) : Prop :=
  match s.pc with
  | .checking => ¬ Free (header s)
  | .skipping => ¬ Free (header s) ∧ (header s).tpStatus &&& tpStatusCopy ≠ 0
  | .parsing size | .storing _ size =>
    ¬ Free (header s) ∧ (header s).tpStatus &&& tpStatusCopy = 0 ∧ size = (header s).tpLen.toInt32
  | .releasing => ¬ Free (header s) ∧ (header s).tpStatus &&& tpStatusCopy = 0
  | _ => True

structure Kept (start : Bridge capacity) (t : Trail capacity) : Prop where
  queue : ∃ q : Queue Slot confRingFrames, q.stream = t.fills ∧ q.taken = t.cleared.length ∧
    Occupied Free t.receiver.ring q
  head : t.receiver.head = t.fills.length % confRingFrames
  filling : t.receiver.filling = true → t.fills.length < t.cleared.length + confRingFrames
  written : t.receiver.filling = true → (t.receiver.ring t.receiver.head).tpLen =
    UInt32.ofNat (t.receiver.ring t.receiver.head).frame.length
  lengths : ∀ slot ∈ t.fills, slot.tpLen = UInt32.ofNat slot.frame.length
  cleared : t.cleared = (List.range t.cleared.length).map (· % confRingFrames)
  count : t.cleared.length = t.consumed + leaving t.receiver.pc
  offset : t.receiver.rxringOffset = t.consumed % confRingFrames
  stands : Stands t.receiver
  results : t.results.filter caught = (t.fills.take (t.consumed + inHand t.receiver.pc)).map resultOf
  bridge : settled t.receiver = t.results.foldl copyDataRound start

theorem headerOldest {start : Bridge capacity} {t : Trail capacity} (kept : Kept start t)
    (stays : leaving t.receiver.pc = 0) (busy : ¬ Free (header t.receiver)) :
    t.cleared.length < t.fills.length ∧ t.fills[t.consumed]? = some (header t.receiver) := by
  obtain ⟨q,stream,taken,occupied⟩ := kept.queue
  have count := kept.count
  have here : t.receiver.rxringOffset = q.taken % confRingFrames := by
    rw [kept.offset, taken, count, stays, Nat.add_zero]
  rw [header, here] at busy ⊢
  have waiting := busyIsOldest occupied (by decide) busy
  refine ⟨by rw [← stream, ← taken]; exact waiting,?_⟩
  have same : t.consumed = q.taken := by omega
  rw [oldest occupied waiting, ← stream, same]
  exact List.getElem?_eq_getElem waiting

theorem roundUnaware {s r : Receiver capacity} (pc : r.pc = s.pc) (bridge : r.bridge = s.bridge)
    (same : ¬ Free (header s) → header r = header s) (stands : Stands s) :
    Stands r ∧ settled r = settled s := by
  unfold Stands settled storePayload at *
  rw [pc, bridge]
  cases h : s.pc with
  | checking =>
    rw [h] at stands
    exact ⟨by rw [same stands]; exact stands,rfl⟩
  | skipping =>
    rw [h] at stands
    exact ⟨by rw [same stands.1]; exact stands,rfl⟩
  | parsing size =>
    rw [h] at stands
    exact ⟨by rw [same stands.1]; exact stands,rfl⟩
  | storing packet size =>
    rw [h] at stands
    simp only at stands ⊢
    exact ⟨by rw [same stands.1]; exact stands,by rw [same stands.1]⟩
  | releasing =>
    rw [h] at stands
    exact ⟨by rw [same stands.1]; exact stands,rfl⟩
  | capturing => exact ⟨trivial,rfl⟩
  | waiting => exact ⟨trivial,rfl⟩
  | polling => exact ⟨trivial,rfl⟩
  | skipped => exact ⟨trivial,rfl⟩
  | failing => exact ⟨trivial,rfl⟩
  | released => exact ⟨trivial,rfl⟩

theorem elsewhere {s : Receiver capacity} {slot : Slot} (free : Free (s.ring s.head)) (busy : ¬ Free (header s)) :
    put s.ring s.head slot s.rxringOffset = header s := by
  refine putElsewhere _ _ ?_
  intro same
  rw [header, same] at busy
  exact busy free

theorem writeKept {start : Bridge capacity} {t : Trail capacity} (kept : Kept start t) {frame : Bytes}
    {next : Receiver capacity} (taken : kernelWrite t.receiver frame = some next) :
    Kept start (follow t (.kernelWrite frame) next) := by
  simp only [kernelWrite] at taken
  split at taken
  · rename_i idle
    cases Option.some.inj taken
    obtain ⟨q,stream,taken_,occupied⟩ := kept.queue
    have here : t.receiver.head = q.stream.length % confRingFrames := by rw [stream]; exact kept.head
    have room := freeHasRoom occupied (by decide) (by rw [← here]; exact idle.2)
    obtain ⟨stands,settled_⟩ := roundUnaware (s := t.receiver)
      (r := {t.receiver with
        ring := put t.receiver.ring t.receiver.head ⟨tpStatusKernel,UInt32.ofNat frame.length,frame⟩
        filling := true}) rfl rfl (elsewhere idle.2) kept.stands
    simp only [follow, published, takenUp, statusCleared, advanced, List.append_nil, Nat.add_zero]
    refine ⟨⟨q,stream,taken_,?_⟩,kept.head,?_,?_,kept.lengths,kept.cleared,kept.count,kept.offset,stands,
      kept.results,?_⟩
    · rw [here]
      exact occupiedPrepare occupied room rfl
    · intro _
      rw [stream, taken_] at room
      exact room
    · simp only [putHere, implies_true]
    · exact settled_.trans kept.bridge
  · contradiction

theorem headFree {start : Bridge capacity} {t : Trail capacity} (kept : Kept start t)
    (filling : t.receiver.filling = true) : Free (t.receiver.ring t.receiver.head) := by
  obtain ⟨q,stream,taken,occupied⟩ := kept.queue
  rw [kept.head, ← stream]
  refine occupied.idle _ (Nat.le_refl _) ?_
  rw [stream, taken]
  exact kept.filling filling

theorem takenUpBound {start : Bridge capacity} {t : Trail capacity} (kept : Kept start t) :
    t.consumed + inHand t.receiver.pc ≤ t.fills.length := by
  obtain ⟨q,stream,taken,_⟩ := kept.queue
  have le := q.takenLe
  have count := kept.count
  have stands := kept.stands
  rw [stream, taken] at le
  have held : ¬ Free (header t.receiver) → leaving t.receiver.pc = 0 → t.consumed + 1 ≤ t.fills.length := by
    intro busy stays
    have here := (headerOldest kept stays busy).1
    omega
  unfold Stands at stands
  cases h : t.receiver.pc with
  | skipping =>
    rw [h] at stands
    exact held stands.1 (by rw [h]; rfl)
  | storing packet size =>
    rw [h] at stands
    exact held stands.1 (by rw [h]; rfl)
  | releasing =>
    rw [h] at stands
    exact held stands.1 (by rw [h]; rfl)
  | _ =>
    rw [h] at count
    simp only [inHand, leaving] at count ⊢
    omega

theorem publishKept {start : Bridge capacity} {t : Trail capacity} (kept : Kept start t) {copy : Bool}
    {next : Receiver capacity} (taken : kernelPublish t.receiver copy = some next) :
    Kept start (follow t (.kernelPublish copy) next) := by
  simp only [kernelPublish] at taken
  split at taken
  · rename_i filling
    cases Option.some.inj taken
    obtain ⟨q,stream,taken_,occupied⟩ := kept.queue
    have room := kept.filling filling
    have here : t.receiver.head = q.stream.length % confRingFrames := by rw [stream]; exact kept.head
    have free := headFree kept filling
    let slot : Slot := {t.receiver.ring t.receiver.head with
      tpStatus := if copy then tpStatusUser ||| tpStatusCopy else tpStatusUser}
    have flagged : ∀ copy : Bool,
        (if copy then tpStatusUser ||| tpStatusCopy else tpStatusUser) ≠ tpStatusKernel := by decide
    have busy : ¬ Free slot := flagged copy
    cases offered_ : offer q [slot] with
    | none =>
      have full := refusedIff.mp offered_
      have sum := takenAddFill q
      rw [List.length_singleton] at full
      rw [stream, taken_] at sum
      omega
    | some q' =>
      obtain ⟨_,stream',taken'⟩ := offered offered_
      obtain ⟨stands,settled_⟩ := roundUnaware (s := t.receiver)
        (r := {t.receiver with
          ring := put t.receiver.ring t.receiver.head slot
          head := (t.receiver.head + 1) % confRingFrames
          filling := false}) rfl rfl (elsewhere free) kept.stands
      have bound := takenUpBound kept
      simp only [follow, published, takenUp, statusCleared, advanced, List.append_nil, Nat.add_zero]
      refine ⟨⟨q',by rw [stream', stream],by rw [taken', taken_],?_⟩,?_,?_,?_,?_,kept.cleared,kept.count,
        kept.offset,stands,?_,?_⟩
      · have filled := occupiedFill occupied busy offered_
        rw [← here] at filled
        exact filled
      · simp only [List.length_append, List.length_singleton]
        rw [kept.head, Nat.mod_add_mod]
      · exact fun more => nomatch more
      · exact fun more => nomatch more
      · intro other member
        rcases List.mem_append.mp member with old | new
        · exact kept.lengths other old
        · cases List.mem_singleton.mp new
          exact kept.written filling
      · rw [List.take_append_of_le_length bound]
        exact kept.results
      · exact settled_.trans kept.bridge
  · contradiction

theorem offsetNext (s : Receiver capacity) : nextOffset s = (s.rxringOffset + 1) % confRingFrames :=
  Nat.and_two_pow_sub_one_eq_mod _ 7

theorem quietKept {start : Bridge capacity} {t : Trail capacity} (kept : Kept start t) (bridge : Bridge capacity)
    (pc : Pc) (results : List CaptureResult) (stands : Stands {t.receiver with bridge, pc})
    (stays : leaving pc = leaving t.receiver.pc)
    (caught_ : results.filter caught = (t.fills.take (t.consumed + inHand pc)).map resultOf)
    (settled_ : settled {t.receiver with bridge, pc} = results.foldl copyDataRound start) :
    Kept start ⟨{t.receiver with bridge, pc},t.fills,results,t.cleared,t.consumed⟩ := by
  refine ⟨kept.queue,kept.head,kept.filling,kept.written,kept.lengths,kept.cleared,?_,kept.offset,stands,caught_,
    settled_⟩
  simp only [stays]
  exact kept.count

theorem ownKept {start : Bridge capacity} {t : Trail capacity} (kept : Kept start t) (bridge : Bridge capacity)
    (pc : Pc) (stands : Stands {t.receiver with bridge, pc}) (stays : leaving pc = leaving t.receiver.pc)
    (same : inHand pc = inHand t.receiver.pc) (settled_ : settled {t.receiver with bridge, pc} = settled t.receiver) :
    Kept start ⟨{t.receiver with bridge, pc},t.fills,t.results,t.cleared,t.consumed⟩ :=
  quietKept kept bridge pc t.results stands stays (by rw [same]; exact kept.results) (settled_.trans kept.bridge)

theorem clearedKept {start : Bridge capacity} {t : Trail capacity} (kept : Kept start t) {pc : Pc}
    (busy : ¬ Free (header t.receiver)) (before : leaving t.receiver.pc = 0) (after : leaving pc = 1)
    (same : inHand pc = inHand t.receiver.pc) (stands : Stands {t.receiver with ring := setStatus t.receiver tpStatusKernel, pc})
    (bridge : settled {t.receiver with ring := setStatus t.receiver tpStatusKernel, pc} = settled t.receiver) :
    Kept start ⟨{t.receiver with ring := setStatus t.receiver tpStatusKernel, pc},t.fills,t.results,
      t.cleared ++ [t.receiver.rxringOffset],t.consumed⟩ := by
  obtain ⟨q,stream,taken,occupied⟩ := kept.queue
  obtain ⟨waiting,_⟩ := headerOldest kept before busy
  have count := kept.count
  have offset : t.receiver.rxringOffset = t.cleared.length % confRingFrames := by
    rw [kept.offset, count, before, Nat.add_zero]
  have sum := takenAddFill q
  rw [stream, taken] at sum
  have some_ : q.taken < q.stream.length := by
    rw [stream, taken]
    exact waiting
  refine ⟨⟨advance q 1,stream,?_,?_⟩,kept.head,?_,?_,kept.lengths,?_,?_,kept.offset,stands,?_,?_⟩
  · simp only [advance, List.length_append, List.length_singleton, taken]
    omega
  · have freed := occupiedFree occupied some_
      (show Free {header t.receiver with tpStatus := tpStatusKernel} from rfl)
    rw [taken, ← offset] at freed
    exact freed
  · intro filling
    have room := kept.filling filling
    simp only [List.length_append, List.length_singleton]
    omega
  · intro filling
    have written := kept.written filling
    by_cases same : t.receiver.head = t.receiver.rxringOffset
    · rw [same] at written ⊢
      simp only [setStatus, putHere]
      exact written
    · simp only [setStatus, putElsewhere _ _ same]
      exact written
  · simp only [List.length_append, List.length_singleton, List.range_succ, List.map_append, List.map_singleton,
      ← kept.cleared, offset]
  · simp only [List.length_append, List.length_singleton]
    omega
  · rw [same]
    exact kept.results
  · exact bridge.trans kept.bridge

theorem advancedKept {start : Bridge capacity} {t : Trail capacity} (kept : Kept start t) {pc : Pc}
    (before : leaving t.receiver.pc = 1) (after : leaving pc = 0) (taken : inHand t.receiver.pc = 1) (none : inHand pc = 0)
    (stands : Stands {t.receiver with rxringOffset := nextOffset t.receiver, pc})
    (bridge : settled {t.receiver with rxringOffset := nextOffset t.receiver, pc} = settled t.receiver) :
    Kept start ⟨{t.receiver with rxringOffset := nextOffset t.receiver, pc},t.fills,t.results,t.cleared,
      t.consumed + 1⟩ := by
  have count := kept.count
  have results := kept.results
  refine ⟨kept.queue,kept.head,kept.filling,kept.written,kept.lengths,kept.cleared,?_,?_,stands,?_,
    bridge.trans kept.bridge⟩
  · simp only [after]
    omega
  · simp only [offsetNext, kept.offset, Nat.mod_add_mod]
  · rw [taken] at results
    simp only [none, Nat.add_zero]
    exact results

theorem parseSettles (s : Receiver capacity) (size : Int32) : ∃ bridge pc,
    parseFrame s size = {s with bridge, pc} ∧ (pc = .releasing ∨ ∃ packet, pc = .storing packet size) ∧
      settled {s with bridge, pc} = copyFrame s.bridge (frameData (header s) size) := by
  -- The branches of a parsed frame come to what `copyFrame` makes of it.
  cases parsed : reacParsePacket (some (frameData (header s) size)) (some cleared) with
  | mk parseStatus view =>
    simp only [parseFrame, copyFrame, parsed]
    split
    · exact ⟨_,_,rfl,.inl rfl,rfl⟩
    split
    · exact ⟨_,_,rfl,.inl rfl,rfl⟩
    rename_i ok
    rw [not_not.mp ok] at parsed
    obtain ⟨channels,_,rfl⟩ := parsedWellFormed parsed
    split
    · exact ⟨_,_,rfl,.inr ⟨_,rfl⟩,rfl⟩
    split
    · exact ⟨_,_,rfl,.inl rfl,rfl⟩
    · exact ⟨_,_,rfl,.inr ⟨_,rfl⟩,rfl⟩

theorem takenOneMore {start : Bridge capacity} {t : Trail capacity} (kept : Kept start t)
    (stays : leaving t.receiver.pc = 0) (none : inHand t.receiver.pc = 0) (busy : ¬ Free (header t.receiver)) :
    (t.results ++ [resultOf (header t.receiver)]).filter caught =
      (t.fills.take (t.consumed + 1)).map resultOf := by
  have results := kept.results
  have counts : caught (resultOf (header t.receiver)) = true := by
    unfold resultOf
    split <;> rfl
  rw [none, Nat.add_zero] at results
  rw [List.filter_append, results, List.take_add_one, (headerOldest kept stays busy).2, List.map_append]
  simp [counts]

theorem resultsMore {start : Bridge capacity} {t : Trail capacity} (kept : Kept start t) (result : CaptureResult) :
    (t.results ++ [result]).foldl copyDataRound start = copyDataRound (settled t.receiver) result := by
  rw [List.foldl_append, ← kept.bridge]
  rfl

theorem checkKept {start : Bridge capacity} {t : Trail capacity} (kept : Kept start t)
    (here : t.receiver.pc = .checking) {next : Receiver capacity} (taken : copyData t.receiver = some next) :
    Kept start (follow t .copyData next) := by
  have busy := kept.stands
  have results := kept.results
  simp only [Stands, here] at busy
  rw [here] at results
  simp only [copyData, here] at taken
  simp only [follow, published, takenUp, statusCleared, advanced, here, List.append_nil, Nat.add_zero]
  have settled_ : settled t.receiver = t.receiver.bridge := by simp only [settled, here]
  split at taken
  · rename_i copied
    cases Option.some.inj taken
    have more := takenOneMore kept (by rw [here]; rfl) (by rw [here]; rfl) busy
    rw [resultOf, if_pos copied] at more
    rw [if_pos copied]
    refine quietKept kept _ .skipping _ ⟨busy,copied⟩ (by rw [here]; rfl) more ?_
    rw [resultsMore kept, settled_]
    rfl
  · rename_i whole
    cases Option.some.inj taken
    rw [if_neg whole, List.append_nil]
    refine quietKept kept _ (.parsing _) _ ⟨busy,not_not.mp whole,rfl⟩ (by rw [here]; rfl) results ?_
    rw [← kept.bridge, settled_]
    rfl

theorem parseKept {start : Bridge capacity} {t : Trail capacity} (kept : Kept start t) {size : Int32}
    (here : t.receiver.pc = .parsing size) {next : Receiver capacity} (taken : copyData t.receiver = some next) :
    Kept start (follow t .copyData next) := by
  obtain ⟨busy,whole,length⟩ : ¬ Free (header t.receiver) ∧ (header t.receiver).tpStatus &&& tpStatusCopy = 0 ∧
      size = (header t.receiver).tpLen.toInt32 := by
    have stands := kept.stands
    simp only [Stands, here] at stands
    exact stands
  obtain ⟨bridge,pc,parsed,branch,settles⟩ := parseSettles t.receiver size
  have more := takenOneMore kept (by rw [here]; rfl) (by rw [here]; rfl) busy
  rw [resultOf, if_neg (not_not.mpr whole), ← length] at more
  simp only [copyData, here] at taken
  cases Option.some.inj taken
  rw [parsed]
  simp only [follow, published, takenUp, statusCleared, advanced, here, List.append_nil, Nat.add_zero]
  have handed : settled {t.receiver with bridge, pc} =
      (t.results ++ [CaptureResult.frame (frameData (header t.receiver) size)]).foldl copyDataRound start := by
    rw [resultsMore kept, settles]
    simp only [settled, here]
    rfl
  rcases branch with rfl | ⟨packet,rfl⟩
  · exact quietKept kept bridge _ _ ⟨busy,whole⟩ (by rw [here]; rfl) more handed
  · exact quietKept kept bridge _ _ ⟨busy,whole,length⟩ (by rw [here]; rfl) more handed

theorem copyDataKept {start : Bridge capacity} {t : Trail capacity} (kept : Kept start t)
    {next : Receiver capacity} (taken : copyData t.receiver = some next) :
    Kept start (follow t .copyData next) := by
  have stands := kept.stands
  cases here : t.receiver.pc with
  | checking => exact checkKept kept here taken
  | parsing size => exact parseKept kept here taken
  | polling =>
    simp only [copyData, here] at taken
    contradiction
  | capturing =>
    simp only [copyData, here] at taken
    cases Option.some.inj taken
    simp only [follow, published, takenUp, statusCleared, advanced, here, List.append_nil, Nat.add_zero]
    exact ownKept kept _ .waiting trivial (by rw [here]; rfl) (by rw [here]; rfl) (by simp only [settled, here])
  | waiting =>
    simp only [copyData, here] at taken
    cases Option.some.inj taken
    simp only [follow, published, takenUp, statusCleared, advanced, here, List.append_nil, Nat.add_zero]
    split
    · exact ownKept kept _ .polling trivial (by rw [here]; rfl) (by rw [here]; rfl) (by simp only [settled, here])
    · rename_i user
      refine ownKept kept _ .checking ?_ (by rw [here]; rfl) (by rw [here]; rfl) (by simp only [settled, here])
      intro free
      have zero : (header t.receiver).tpStatus = 0 := free
      rw [zero] at user
      exact user (by decide)
  | failing =>
    simp only [copyData, here] at taken
    cases Option.some.inj taken
    simp only [follow, published, takenUp, statusCleared, advanced, here, List.append_nil, Nat.add_zero]
    exact ownKept kept _ .capturing trivial (by rw [here]; rfl) (by rw [here]; rfl) (by simp only [settled, here])
  | storing packet size =>
    simp only [Stands, here] at stands
    simp only [copyData, here] at taken
    cases Option.some.inj taken
    simp only [follow, published, takenUp, statusCleared, advanced, here, List.append_nil, Nat.add_zero]
    exact ownKept kept _ .releasing ⟨stands.1,stands.2.1⟩ (by rw [here]; rfl) (by rw [here]; rfl)
      (by simp only [settled, here])
  | skipping =>
    simp only [Stands, here] at stands
    simp only [copyData, here] at taken
    cases Option.some.inj taken
    simp only [follow, published, takenUp, statusCleared, advanced, here, List.append_nil, Nat.add_zero]
    exact clearedKept kept stands.1 (by rw [here]; rfl) rfl (by rw [here]; rfl) trivial (by simp only [settled, here])
  | releasing =>
    simp only [Stands, here] at stands
    simp only [copyData, here] at taken
    cases Option.some.inj taken
    simp only [follow, published, takenUp, statusCleared, advanced, here, List.append_nil, Nat.add_zero]
    exact clearedKept kept stands.1 (by rw [here]; rfl) rfl (by rw [here]; rfl) trivial (by simp only [settled, here])
  | skipped =>
    simp only [copyData, here] at taken
    cases Option.some.inj taken
    simp only [follow, published, takenUp, statusCleared, advanced, here, List.append_nil]
    exact advancedKept kept (by rw [here]; rfl) rfl (by rw [here]; rfl) rfl trivial (by simp only [settled, here])
  | released =>
    simp only [copyData, here] at taken
    cases Option.some.inj taken
    simp only [follow, published, takenUp, statusCleared, advanced, here, List.append_nil]
    exact advancedKept kept (by rw [here]; rfl) rfl (by rw [here]; rfl) rfl trivial (by simp only [settled, here])

theorem pollKept {start : Bridge capacity} {t : Trail capacity} (kept : Kept start t) {result : Poll}
    {next : Receiver capacity} (taken : poll t.receiver result = some next) :
    Kept start (follow t (.poll result) next) := by
  have results := kept.results
  simp only [poll] at taken
  split at taken
  · rename_i here
    rw [here] at results
    have own : ∀ t' : Receiver capacity, t' = {t.receiver with pc := .waiting} →
        Kept start ⟨t',t.fills,t.results,t.cleared,t.consumed⟩ := by
      rintro t' rfl
      exact ownKept kept _ .waiting trivial (by rw [here]; rfl) (by rw [here]; rfl) (by simp only [settled, here])
    cases result with
    | failed =>
      cases Option.some.inj taken
      simp only [follow, published, takenUp, statusCleared, advanced, List.append_nil, Nat.add_zero]
      refine quietKept kept _ .failing _ trivial (by rw [here]; rfl) ?_ ?_
      · rw [List.filter_append, results]
        simp [caught, inHand]
      · rw [resultsMore kept]
        simp only [settled, here]
        rfl
    | _ =>
      cases Option.some.inj taken
      simp only [follow, published, takenUp, statusCleared, advanced, List.append_nil, Nat.add_zero]
      exact own _ rfl
  · contradiction

theorem traceKept {start : Bridge capacity} (t : Trail capacity) (action : Action) (next : Trail capacity)
    (kept : Kept start t) (taken : trace t action = some next) : Kept start next := by
  obtain ⟨receiver,acted,rfl⟩ := Option.map_eq_some_iff.mp taken
  cases action with
  | kernelWrite frame => exact writeKept kept acted
  | kernelPublish copy => exact publishKept kept acted
  | copyData => exact copyDataKept kept acted
  | poll result => exact pollKept kept acted

theorem openedKept (ring : Nat → Slot) (bridge : Bridge capacity) : Kept bridge (untouched (opened ring bridge)) where
  queue := ⟨BoundedFifo.empty,rfl,rfl,emptyOccupied fun _ _ => rfl⟩
  head := rfl
  filling := fun more => nomatch more
  written := fun more => nomatch more
  lengths := by simp [untouched]
  cleared := rfl
  count := rfl
  offset := rfl
  stands := trivial
  results := rfl
  bridge := rfl

def copied (slot : Slot) : Bool := slot.tpStatus &&& tpStatusCopy ≠ 0

def frameOf (slot : Slot) : Bytes := frameData slot slot.tpLen.toInt32

def handed (results : List CaptureResult) : List Bytes :=
  results.filterMap fun result => match result with
    | .frame data => some data
    | _ => none

def truncated : CaptureResult → Bool
  | .truncated => true
  | _ => false

def rejected (b : Bridge capacity) (data : Bytes) : Nat :=
  match reacParsePacket (some data) (some cleared) with
  | (.notReac,_) => 0
  | (.ok,view) => if b.dataSize = 0 ∨ b.dataSize = (view.getD cleared).payloadSize then 0 else 1
  | _ => 1

def malformedFrames (b : Bridge capacity) : List CaptureResult → Nat
  | [] => 0
  | .frame data :: rest => rejected b data + malformedFrames (copyFrame b data) rest
  | result :: rest => malformedFrames (copyDataRound b result) rest

def holding : Pc → Bool
  | .parsing _ | .storing _ _ | .releasing => true
  | _ => false

theorem handedCaught (results : List CaptureResult) : handed (results.filter caught) = handed results := by
  induction results with
  | nil => rfl
  | cons result rest ih =>
    cases result <;> simp_all [handed, caught, List.filter_cons]

theorem truncatedCaught (results : List CaptureResult) :
    (results.filter caught).countP truncated = results.countP truncated := by
  rw [List.countP_filter]
  refine List.countP_congr ?_
  intro result _
  cases result <;> simp [truncated, caught]

theorem handedSlots (slots : List Slot) :
    handed (slots.map resultOf) = (slots.filter fun slot => !copied slot).map frameOf := by
  induction slots with
  | nil => rfl
  | cons slot rest ih =>
    by_cases copy : slot.tpStatus &&& tpStatusCopy ≠ 0
    · simp_all [handed, resultOf, copied]
    · simp_all [handed, resultOf, copied, frameOf]

theorem truncatedSlots (slots : List Slot) : (slots.map resultOf).countP truncated = slots.countP copied := by
  rw [List.countP_map]
  refine List.countP_congr ?_
  intro slot _
  by_cases copy : slot.tpStatus &&& tpStatusCopy ≠ 0 <;> simp [resultOf, copied, truncated, copy]

theorem copyPayloadMalformed (b : Bridge capacity) (packet : ReacPacketView) :
    (copyPayload b packet).malformedPackets = b.malformedPackets := by
  obtain ⟨_,_,_,left⟩ := copyPayloadLeaves b packet
  rw [left]
  rfl

theorem copyFrameMalformed (b : Bridge capacity) (data : Bytes) :
    (copyFrame b data).malformedPackets = b.malformedPackets + rejected b data := by
  cases parsed : reacParsePacket (some data) (some cleared) with
  | mk parseStatus view =>
    simp only [copyFrame, rejected, parsed]
    cases parseStatus with
    | ok =>
      by_cases first : b.dataSize = 0
      · simp [first, copyPayloadMalformed]
      by_cases same : b.dataSize = (view.getD cleared).payloadSize
      · have size : ¬ b.dataSize ≠ (view.getD cleared).payloadSize := not_not.mpr same
        simp only [reduceCtorEq, if_false, ne_eq, not_true_eq_false, if_neg first, if_neg size, if_pos (Or.inr same)]
        exact copyPayloadMalformed b _
      · simp [first, same]
    | _ => simp

theorem malformedCounted (start : Bridge capacity) (results : List CaptureResult) :
    (results.foldl copyDataRound start).malformedPackets =
      start.malformedPackets + results.countP truncated + malformedFrames start results := by
  induction results generalizing start with
  | nil => rfl
  | cons result rest ih =>
    rw [List.foldl_cons, ih]
    cases result with
    | frame data =>
      have counted := copyFrameMalformed start data
      have plain : ¬ truncated (.frame data) = true := fun h => nomatch h
      rw [List.countP_cons_of_neg plain]
      simp only [copyDataRound, malformedFrames]
      omega
    | truncated =>
      rw [List.countP_cons_of_pos rfl]
      simp only [copyDataRound, malformedFrames]
      omega
    | _ => rfl

theorem wholeFrame {slot : Slot} (length : slot.tpLen = UInt32.ofNat slot.frame.length)
    (short : slot.frame.length < 2 ^ 31) : frameOf slot = slot.frame := by
  have size : slot.tpLen.toInt32.toInt = slot.frame.length := by
    rw [length, UInt32.toInt32_ofNat', Int32.toInt_ofNat_of_lt short]
  have positive : ¬ slot.tpLen.toInt32 < 0 := by
    rw [Int32.lt_iff_toInt_lt, size]
    simp
  rw [frameOf, frameData, if_neg positive, size]
  exact List.take_of_length_le (Nat.le_refl _)

theorem holdingAlone {start : Bridge capacity} {t : Trail capacity} (kept : Kept start t)
    (holds : holding t.receiver.pc = true) :
    ¬ Free (header t.receiver) ∧ t.fills[t.consumed]? = some (header t.receiver) ∧
      (∀ frame next, kernelWrite t.receiver frame = some next → header next = header t.receiver) ∧
      ∀ copy next, kernelPublish t.receiver copy = some next → header next = header t.receiver := by
  -- The slot in front of the parser is the oldest one, and the kernel cannot touch it.
  have stands := kept.stands
  obtain ⟨busy,stays⟩ : ¬ Free (header t.receiver) ∧ leaving t.receiver.pc = 0 := by
    unfold Stands at stands
    cases here : t.receiver.pc with
    | parsing size =>
      rw [here] at stands
      exact ⟨stands.1,rfl⟩
    | storing packet size =>
      rw [here] at stands
      exact ⟨stands.1,rfl⟩
    | releasing =>
      rw [here] at stands
      exact ⟨stands.1,rfl⟩
    | _ =>
      rw [here] at holds
      contradiction
  refine ⟨busy,(headerOldest kept stays busy).2,?_,?_⟩
  · intro frame next taken
    simp only [kernelWrite] at taken
    split at taken
    · rename_i idle
      cases Option.some.inj taken
      exact elsewhere idle.2 busy
    · contradiction
  · intro copy next taken
    simp only [kernelPublish] at taken
    split at taken
    · rename_i filling
      cases Option.some.inj taken
      exact elsewhere (headFree kept filling) busy
    · contradiction

theorem takenUpResults {start : Bridge capacity} {t : Trail capacity} (kept : Kept start t) :
    let slots := t.fills.take (t.consumed + inHand t.receiver.pc)
    handed t.results = (slots.filter fun slot => !copied slot).map frameOf ∧
      t.results.countP truncated = slots.countP copied := by
  intro slots
  have results : t.results.filter caught = slots.map resultOf := kept.results
  constructor
  · rw [← handedCaught, results, handedSlots]
  · rw [← truncatedCaught, results, truncatedSlots]

theorem consumedOnceInOrder (ring : Nat → Slot) (start : Bridge capacity) (schedule : List Action)
    (t : Trail capacity) (reached : run trace (untouched (opened ring start)) schedule = some t) :
    t.consumed + inHand t.receiver.pc ≤ t.fills.length ∧
      handed t.results =
        ((t.fills.take (t.consumed + inHand t.receiver.pc)).filter fun slot => !copied slot).map frameOf ∧
      (∀ slot ∈ t.fills, slot.frame.length < 2 ^ 31 → frameOf slot = slot.frame) ∧
      t.results.countP truncated = (t.fills.take (t.consumed + inHand t.receiver.pc)).countP copied ∧
      (settled t.receiver).malformedPackets =
        start.malformedPackets + t.results.countP truncated + malformedFrames start t.results ∧
      t.receiver.rxringOffset = t.consumed % confRingFrames ∧
      (holding t.receiver.pc = true → ¬ Free (header t.receiver) ∧
        t.fills[t.consumed]? = some (header t.receiver) ∧
        (∀ frame next, kernelWrite t.receiver frame = some next → header next = header t.receiver) ∧
        ∀ copy next, kernelPublish t.receiver copy = some next → header next = header t.receiver) ∧
      t.cleared = (List.range t.cleared.length).map (· % confRingFrames) ∧
      t.cleared.length = t.consumed + leaving t.receiver.pc := by
  have kept := runInvariant traceKept (openedKept ring start) reached
  obtain ⟨frames,skipped⟩ := takenUpResults kept
  refine ⟨takenUpBound kept,frames,?_,skipped,?_,kept.offset,holdingAlone kept,kept.cleared,kept.count⟩
  · intro slot member short
    exact wholeFrame (kept.lengths slot member) short
  · rw [kept.bridge]
    exact malformedCounted start t.results

def twoSlots : List Action :=
  [.kernelWrite [9],.kernelPublish true,.copyData,.kernelWrite [1,2,3],.copyData,.copyData,.copyData,
    .kernelPublish false,.copyData,.copyData] ++ List.replicate 4 .copyData

def emptySlots : Nat → Slot := fun _ => ⟨tpStatusKernel,0,[]⟩

theorem consumedOnceInOrderTwo : ∃ t,
    run trace (untouched (opened emptySlots (JackBridge.bridgeOf 15 4))) twoSlots = some t ∧
      ¬ Free (header t.receiver) ∧ t.fills[1]? = some (header t.receiver) ∧
      t.receiver.rxringOffset = 1 % confRingFrames ∧ t.cleared = (List.range t.cleared.length).map (· % confRingFrames) := by
  have seen : (run trace (untouched (opened emptySlots (JackBridge.bridgeOf 15 4))) twoSlots).map
      (fun t => (holding t.receiver.pc,t.consumed)) = some (true,1) := by decide +kernel
  obtain ⟨t,reached,here⟩ := Option.map_eq_some_iff.mp seen
  obtain ⟨holds,one⟩ := Prod.mk.inj here
  obtain ⟨_,_,_,_,_,offset,alone,cleared,_⟩ :=
    consumedOnceInOrder emptySlots (JackBridge.bridgeOf 15 4) twoSlots t reached
  rw [one] at offset alone
  exact ⟨t,reached,(alone holds).1,(alone holds).2.1,offset,cleared⟩

end ReacJack.RxRingOrder
