import ReacJack.BlockLayout
import ReacJack.TransitionRuns
import ReacJack.JackBridgeSpec

/-! The JACK bridge keeps its frames and channels aligned. A trail follows the system and
remembers the packets whose payload the ring took, the bytes that left the ring, the
blocks of audio the callbacks ended with, and how often the audio was interrupted. -/
namespace ReacJack.JackAlignment
open ReacDecode JackRingbuffer JackBridge DecodedRows BoundedFifo BlockLayout TransitionRuns
open ReacWire (quietPacket)

/-- What a callback left in the port buffers. `start` counts the frames that had left the
ring before, `interruptions` what had interrupted the audio by then. -/
structure Block where
  start : Nat
  nframes : Nat
  channels : Nat
  interruptions : Nat
  outputs : Outputs

structure Trail (capacity : Nat) where
  system : System capacity
  accepted : List Bytes
  gone : Nat
  interruptions : Nat
  blocks : List Block

variable {capacity : Nat}

def untouched (system : System capacity) : Trail capacity := ⟨system,[],0,0,[]⟩

def channelsOf (s : System capacity) : Nat := s.bridge.currentNumberOfChannels.toNat
def bytesIn (s : System capacity) : Nat := jackRingbufferReadSpace s.bridge.ringbuffer

def entered (before after : System capacity) : Action → List Bytes
  | .copyData (.frame packet) => if bytesIn before < bytesIn after then [packet] else []
  | _ => []

def departed (before after : System capacity) : Action → Nat
  | .processRead => bytesIn before - bytesIn after
  | .reset => bytesIn before - bytesIn after
  | _ => 0

def interrupted (after : System capacity) : Action → Nat
  | .processRead => if after.bridge.error = .ringRead ∨ after.bridge.error = .jackPort then 1 else 0
  | .reset => 1
  | _ => 0

def heard (t : Trail capacity) (after : System capacity) : Action → List Block
  | .processRead =>
    match t.system.processing with
    | none => []
    | some (cycle,bufferSize) =>
      if after.bridge.error = .ok then
        [⟨t.gone / (reacBytesPerSample * channelsOf t.system),cycle.nframes.toNat,channelsOf t.system,
          t.interruptions,(processRead t.system.bridge cycle bufferSize).2⟩]
      else []
  | _ => []

def follow (t : Trail capacity) (action : Action) (system : System capacity) : Trail capacity where
  system := system
  accepted := t.accepted ++ entered t.system system action
  gone := t.gone + departed t.system system action
  interruptions := t.interruptions + interrupted system action
  blocks := t.blocks ++ heard t system action

def trace (t : Trail capacity) (action : Action) : Option (Trail capacity) :=
  (act t.system action).map (follow t action)

def acceptedRows (channels : Nat) (accepted : List Bytes) : List Row :=
  accepted.flatMap (fun packet => decodedRows (UInt16.ofNat channels) reacFramesPerPacket (payloadOf packet))

def Heard (rows : List Row) (block : Block) : Prop :=
  ∀ f < block.nframes, ∃ row, rows[block.start + f]? = some row ∧
    ∀ ch < block.channels, ∃ buffer, block.outputs ch = some buffer ∧ buffer f = row ch

abbrev BlocksLaid (blocks : List Block) (interruptions finish : Nat) : Prop :=
  Laid Block.start Block.nframes Block.interruptions blocks interruptions finish

structure Tracked (t : Trail capacity) (channels : Nat) : Prop where
  shaped : Shaped t.system.bridge channels
  supported : channels = 0 ∨ Supported channels
  packets : ∀ packet ∈ t.accepted, WellFormed packet channels
  queue : ∃ q : Queue UInt8 capacity, q.stream = t.accepted.flatMap payloadOf ∧ q.taken = t.gone ∧
    Backs t.system.bridge.ringbuffer q
  pending : ∀ cycle bufferSize, t.system.processing = some (cycle,bufferSize) →
    channels ≠ 0 ∧ bufferSize = 3 * channels * cycle.nframes.toNat
  laid : ∃ frames, t.gone = 3 * channels * frames ∧ BlocksLaid t.blocks t.interruptions frames
  unheard : channels = 0 → t.blocks = []
  heard : ∀ block ∈ t.blocks, block.channels = channels ∧ Heard (acceptedRows channels t.accepted) block

theorem untouchedTracked (capacity : Nat) (jackBufferFrames : UInt32) :
    Tracked (untouched (boot (bridgeOf capacity jackBufferFrames))) 0 where
  shaped := ⟨rfl,rfl⟩
  supported := .inl rfl
  packets := fun _ => nofun
  queue := ⟨BoundedFifo.empty,rfl,rfl,backsCreate⟩
  pending := fun _ _ => nofun
  laid := ⟨0,rfl,laidNothing 0 0⟩
  unheard := fun _ => rfl
  heard := fun _ => nofun

theorem countToNat {channels : Nat} (supported : Supported channels) : (UInt16.ofNat channels).toNat = channels := by
  have := supported.most
  rw [UInt16.toNat_ofNat']
  omega

theorem acceptedStream {channels : Nat} {accepted : List Bytes} (supported : Supported channels)
    (packets : ∀ packet ∈ accepted, WellFormed packet channels) :
    (accepted.flatMap payloadOf).length = 3 * channels * (12 * accepted.length) ∧
      sampleRows channels (12 * accepted.length) (accepted.flatMap payloadOf) =
        acceptedRows channels accepted := by
  have count := countToNat supported
  have whole : ∀ packet ∈ accepted, (payloadOf packet).length = channels * 12 * 3 := by
    intro packet member
    rw [payloadLength (packets packet member)]
    ring
  obtain ⟨length,rows⟩ := rowsFlatMap supported.even whole
  refine ⟨?_,rows.trans ?_⟩
  · rw [length]
    ring
  · refine List.flatMap_congr fun packet member => ?_
    have most := supported.most
    have decoded := @decodedRowsAre (UInt16.ofNat channels) 12 (payloadOf packet)
    rw [count, whole packet member] at decoded
    exact (decoded supported rfl (by omega)).symm

theorem rowsMore (channels : Nat) (accepted : List Bytes) (packet : Bytes) :
    ∃ more, acceptedRows channels (accepted ++ [packet]) = acceptedRows channels accepted ++ more :=
  ⟨_,List.flatMap_append⟩

theorem heardMore {rows more : List Row} {block : Block} (here : Heard rows block) : Heard (rows ++ more) block := by
  intro f inside
  obtain ⟨row,found,ports⟩ := here f inside
  have below := (List.getElem?_eq_some_iff.mp found).1
  exact ⟨row,by rw [List.getElem?_append_left below]; exact found,ports⟩

theorem framesIn {t : Trail capacity} {channels frames : Nat} (tracked : Tracked t channels)
    (supported : Supported channels) (gone : t.gone = 3 * channels * frames) :
    frames ≤ 12 * t.accepted.length ∧ bytesIn t.system = 3 * channels * (12 * t.accepted.length - frames) := by
  obtain ⟨q,stream,taken,backs⟩ := tracked.queue
  have positive : 0 < 3 * channels := by
    have := supported.positive
    omega
  have length := (acceptedStream supported tracked.packets).1
  have below := q.takenLe
  rw [stream, taken, length, gone] at below
  refine ⟨Nat.le_of_mul_le_mul_left below positive,?_⟩
  rw [bytesIn, backsFill backs, Queue.fill, stream, taken, length, gone, Nat.mul_sub]

theorem heardWindow {t : Trail capacity} {channels frames : Nat} (tracked : Tracked t channels)
    (supported : Supported channels) (gone : t.gone = 3 * channels * frames) {cycle : Cycle}
    (enough : 3 * channels * cycle.nframes.toNat ≤ bytesIn t.system) (lent : Lent cycle.buffers channels)
    (interruptions : Nat) :
    Heard (acceptedRows channels t.accepted) ⟨frames,cycle.nframes.toNat,channels,interruptions,
      overwritten cycle.buffers (fun ch f => decide (ch < channels) && decide (f < cycle.nframes.toNat))
        (decodedSample (jackRingbufferRead t.system.bridge.ringbuffer (3 * channels * cycle.nframes.toNat)).1
          channels)⟩ := by
  -- What a good read puts on the ports.
  intro f inside
  obtain ⟨q,stream,taken,backs⟩ := tracked.queue
  have rows := (acceptedStream supported tracked.packets).2
  obtain ⟨below,bytes⟩ := framesIn tracked supported gone
  have positive : 0 < 3 * channels := by
    have := supported.positive
    omega
  have window : frames + cycle.nframes.toNat ≤ 12 * t.accepted.length := by
    rw [bytes] at enough
    have := Nat.le_of_mul_le_mul_left enough positive
    omega
  have read : (jackRingbufferRead t.system.bridge.ringbuffer (3 * channels * cycle.nframes.toNat)).1 =
      ((t.accepted.flatMap payloadOf).drop (3 * channels * frames)).take (3 * channels * cycle.nframes.toNat) := by
    rw [(backsRead backs _).1, front, stream, taken, gone]
  have sample : ∀ ch, ch < channels → ∃ row, (acceptedRows channels t.accepted)[frames + f]? = some row ∧
      decodedSample (jackRingbufferRead t.system.bridge.ringbuffer (3 * channels * cycle.nframes.toNat)).1
        channels ch f = row ch := by
    intro ch channel
    have sampled := windowSample (t.accepted.flatMap payloadOf) supported.even channel inside window
    rw [rows, ← read] at sampled
    exact sampled
  obtain ⟨row,found,_⟩ := sample 0 (Nat.pos_of_ne_zero supported.positive)
  refine ⟨row,found,fun ch channel => ?_⟩
  obtain ⟨row',found',value⟩ := sample ch channel
  obtain rfl := Option.some.inj (found.symm.trans found')
  obtain ⟨buffer,there⟩ := Option.isSome_iff_exists.mp (lent ch channel)
  obtain ⟨filled,after,now⟩ := overwrittenDone
    (fun ch f => decide (ch < channels) && decide (f < cycle.nframes.toNat))
    (decodedSample (jackRingbufferRead t.system.bridge.ringbuffer (3 * channels * cycle.nframes.toNat)).1 channels)
    (f := f) there (by simp [channel, inside])
  exact ⟨filled,after,now.trans value⟩

theorem noPackets {t : Trail capacity} (tracked : Tracked t 0) : t.accepted = [] := by
  refine List.eq_nil_iff_forall_not_mem.mpr fun packet member => ?_
  exact (tracked.packets packet member).positive rfl

theorem bytesWhole {t : Trail capacity} {channels : Nat} (tracked : Tracked t channels) :
    ∃ frames, bytesIn t.system = 3 * channels * frames := by
  rcases tracked.supported with rfl | supported
  · obtain ⟨q,stream,_,backs⟩ := tracked.queue
    have := takenAddFill q
    rw [stream, noPackets tracked, List.flatMap_nil, List.length_nil] at this
    refine ⟨0,?_⟩
    rw [bytesIn, backsFill backs]
    omega
  · obtain ⟨frames,gone,_⟩ := tracked.laid
    exact ⟨_,(framesIn tracked supported gone).2⟩

theorem quietTracked {t : Trail capacity} {channels next : Nat} (tracked : Tracked t channels)
    (grown : next = channels ∨ channels = 0 ∧ Supported next) {system : System capacity}
    (shaped : Shaped system.bridge next) (ring : system.bridge.ringbuffer = t.system.bridge.ringbuffer)
    (pending : ∀ cycle bufferSize, system.processing = some (cycle,bufferSize) →
      next ≠ 0 ∧ bufferSize = 3 * next * cycle.nframes.toNat) :
    Tracked {t with system} next := by
  have queue : ∃ q : Queue UInt8 capacity, q.stream = t.accepted.flatMap payloadOf ∧ q.taken = t.gone ∧
      Backs system.bridge.ringbuffer q := by
    rw [ring]
    exact tracked.queue
  rcases grown with rfl | ⟨rfl,supported⟩
  · exact {tracked with shaped, queue, pending}
  · have none := noPackets tracked
    have unheard := tracked.unheard rfl
    obtain ⟨frames,gone,_⟩ := tracked.laid
    have start : t.gone = 3 * next * 0 := by rw [gone]; ring
    refine ⟨shaped,.inr supported,?_,queue,pending,⟨0,start,?_⟩,fun _ => unheard,?_⟩
    · rw [none]
      exact fun _ => nofun
    · rw [unheard]
      exact laidNothing _ 0
    · rw [unheard]
      exact fun _ => nofun

theorem storedTracked {t : Trail capacity} {channels : Nat} (tracked : Tracked t channels) {packet : Bytes}
    (wellFormed : WellFormed packet channels) {system : System capacity} (shaped : Shaped system.bridge channels)
    (room : 36 * channels ≤ jackRingbufferWriteSpace t.system.bridge.ringbuffer)
    (ring : system.bridge.ringbuffer =
      (jackRingbufferWrite t.system.bridge.ringbuffer (packet.drop 50) (36 * channels)).2)
    (processing : system.processing = t.system.processing) :
    Tracked {t with system, accepted := t.accepted ++ [packet]} channels where
  shaped := shaped
  supported := tracked.supported
  packets := by
    intro p member
    rcases List.mem_append.mp member with old | new
    · exact tracked.packets p old
    · rw [List.mem_singleton.mp new]
      exact wellFormed
  queue := by
    obtain ⟨q,stream,taken,backs⟩ := tracked.queue
    have enough : 36 * channels ≤ (packet.drop 50).length := by
      have := wellFormed.length
      rw [List.length_drop]
      omega
    obtain ⟨next,accepted,_,backs'⟩ := backsWrite backs enough room
    obtain ⟨_,stream',taken'⟩ := offered accepted
    refine ⟨next,?_,taken'.trans taken,by rw [ring]; exact backs'⟩
    rw [stream', stream, payloadTake wellFormed, List.flatMap_append, List.flatMap_singleton]
  pending := by
    rw [processing]
    exact tracked.pending
  laid := tracked.laid
  unheard := tracked.unheard
  heard := by
    intro block member
    obtain ⟨same,here⟩ := tracked.heard block member
    obtain ⟨more,rows⟩ := rowsMore channels t.accepted packet
    exact ⟨same,by rw [rows]; exact heardMore here⟩

theorem departedTracked {t : Trail capacity} {channels : Nat} (tracked : Tracked t channels) {n : Nat}
    {system : System capacity} (shaped : Shaped system.bridge channels)
    (backs : ∀ q : Queue UInt8 capacity, Backs t.system.bridge.ringbuffer q →
      Backs system.bridge.ringbuffer (advance q n))
    (pending : ∀ cycle bufferSize, system.processing = some (cycle,bufferSize) →
      channels ≠ 0 ∧ bufferSize = 3 * channels * cycle.nframes.toNat)
    {interruptions : Nat} {blocks : List Block}
    (laid : ∃ frames, t.gone + min n (bytesIn t.system) = 3 * channels * frames ∧
      BlocksLaid blocks interruptions frames)
    (unheard : channels = 0 → blocks = [])
    (heard : ∀ block ∈ blocks, block.channels = channels ∧ Heard (acceptedRows channels t.accepted) block) :
    Tracked ⟨system,t.accepted,t.gone + min n (bytesIn t.system),interruptions,blocks⟩ channels where
  shaped := shaped
  supported := tracked.supported
  packets := tracked.packets
  queue := by
    obtain ⟨q,stream,taken,before⟩ := tracked.queue
    have fill : bytesIn t.system = q.fill := backsFill before
    refine ⟨advance q n,stream,?_,backs q before⟩
    simp only [advance, taken, fill]
  pending := pending
  laid := laid
  unheard := unheard
  heard := heard

section
variable {t : Trail capacity} {channels bufferSize : Nat} {cycle : Cycle} {after : System capacity}

theorem readDeparts (ring : after.bridge.ringbuffer = (jackRingbufferRead t.system.bridge.ringbuffer bufferSize).2) :
    departed t.system after .processRead = min bufferSize (bytesIn t.system) := by
  simp only [departed, bytesIn, ring, jackRingbufferRead, jackRingbufferReadSpace, List.length_drop]
  omega

theorem readBacks (ring : after.bridge.ringbuffer = (jackRingbufferRead t.system.bridge.ringbuffer bufferSize).2)
    (q : Queue UInt8 capacity) (before : Backs t.system.bridge.ringbuffer q) :
    Backs after.bridge.ringbuffer (advance q bufferSize) := by
  rw [ring]
  exact (backsRead before bufferSize).2

theorem failedTracked (tracked : Tracked t channels) (processing : t.system.processing = some (cycle,bufferSize))
    (idle : after.processing = none) (shaped : Shaped after.bridge channels)
    (ring : after.bridge.ringbuffer = (jackRingbufferRead t.system.bridge.ringbuffer bufferSize).2)
    (failed : after.bridge.error = .ringRead ∨ after.bridge.error = .jackPort) :
    Tracked (follow t .processRead after) channels := by
  obtain ⟨_,size⟩ := tracked.pending cycle bufferSize processing
  obtain ⟨frames,gone,laid⟩ := tracked.laid
  obtain ⟨held,bytes⟩ := bytesWhole tracked
  have silent : ¬ after.bridge.error = .ok := by
    rcases failed with short | port
    · rw [short]; decide
    · rw [port]; decide
  have same : follow t .processRead after = ⟨after,t.accepted,t.gone + min bufferSize (bytesIn t.system),
      t.interruptions + 1,t.blocks⟩ := by
    simp only [follow, entered, readDeparts ring, interrupted, JackAlignment.heard, processing, if_pos failed,
      if_neg silent, List.append_nil]
  rw [same]
  refine departedTracked tracked shaped (readBacks ring) ?_
    ⟨frames + min cycle.nframes.toNat held,?_,laidGap laid (Nat.le_add_right _ _)⟩ tracked.unheard tracked.heard
  · rw [idle]
    exact fun _ _ under => (Option.some_ne_none _ under.symm).elim
  · rw [gone, size, bytes, Nat.mul_min_mul_left, Nat.mul_add]

theorem playedTracked (tracked : Tracked t channels) (processing : t.system.processing = some (cycle,bufferSize))
    (idle : after.processing = none) (shaped : Shaped after.bridge channels)
    (ring : after.bridge.ringbuffer = (jackRingbufferRead t.system.bridge.ringbuffer bufferSize).2)
    (well : after.bridge.error = .ok) (enough : bufferSize ≤ bytesIn t.system)
    (lent : Lent cycle.buffers channels)
    (outputs : (processRead t.system.bridge cycle bufferSize).2 = overwritten cycle.buffers
      (fun ch f => decide (ch < channels) && decide (f < cycle.nframes.toNat))
      (decodedSample (jackRingbufferRead t.system.bridge.ringbuffer bufferSize).1 channels)) :
    Tracked (follow t .processRead after) channels := by
  obtain ⟨positive,size⟩ := tracked.pending cycle bufferSize processing
  have supported := tracked.supported.resolve_left positive
  obtain ⟨frames,gone,laid⟩ := tracked.laid
  have count : channelsOf t.system = channels := tracked.shaped.count
  let block : Block := ⟨frames,cycle.nframes.toNat,channels,t.interruptions,
    (processRead t.system.bridge cycle bufferSize).2⟩
  have place : t.gone / (3 * channels) = frames := by
    rw [gone, Nat.mul_div_cancel_left]
    omega
  have same : follow t .processRead after = ⟨after,t.accepted,t.gone + min bufferSize (bytesIn t.system),
      t.interruptions,t.blocks ++ [block]⟩ := by
    simp only [follow, entered, readDeparts ring, interrupted, JackAlignment.heard, processing, well, if_true,
      reduceCtorEq, or_self, if_false, List.append_nil, Nat.add_zero, count, reacBytesPerSample, place, block]
  have window : Heard (acceptedRows channels t.accepted) block := by
    have heard_ := heardWindow tracked supported gone (size ▸ enough) lent t.interruptions
    rw [← size, ← outputs] at heard_
    exact heard_
  rw [same]
  refine departedTracked tracked shaped (readBacks ring) ?_
    ⟨frames + cycle.nframes.toNat,?_,laidNext laid rfl rfl⟩ (fun none => absurd none positive) ?_
  · rw [idle]
    exact fun _ _ under => (Option.some_ne_none _ under.symm).elim
  · rw [Nat.min_eq_left enough, gone, size, Nat.mul_add]
  · intro b member
    rcases List.mem_append.mp member with old | new
    · exact tracked.heard b old
    · rw [List.mem_singleton.mp new]
      exact ⟨rfl,window⟩

theorem readTracked (tracked : Tracked t channels) (processing : t.system.processing = some (cycle,bufferSize)) :
    Tracked (follow t .processRead {t.system with
      bridge := (processRead t.system.bridge cycle bufferSize).1
      processing := none}) channels := by
  obtain ⟨positive,size⟩ := tracked.pending cycle bufferSize processing
  have supported := tracked.supported.resolve_left positive
  obtain ⟨shaped,ring,ended⟩ := readCases tracked.shaped supported cycle size
  rcases ended with short | port | ⟨ok,enough,lent,outputs⟩
  · exact failedTracked tracked processing rfl shaped ring (.inl short)
  · exact failedTracked tracked processing rfl shaped ring (.inr port)
  · exact playedTracked tracked processing rfl shaped ring ok enough lent outputs

end

theorem resetTracked {t : Trail capacity} {channels : Nat} (tracked : Tracked t channels) :
    Tracked (follow t .reset {t.system with bridge := resetAll t.system.bridge}) channels := by
  obtain ⟨frames,gone,laid⟩ := tracked.laid
  obtain ⟨held,bytes⟩ := bytesWhole tracked
  let after : System capacity := {t.system with bridge := resetAll t.system.bridge}
  have shaped : Shaped after.bridge channels := shapedCongr tracked.shaped rfl rfl
  have same : follow t .reset after = ⟨after,t.accepted,t.gone + min (bytesIn t.system) (bytesIn t.system),
      t.interruptions + 1,t.blocks⟩ := by
    have nothing : bytesIn after = 0 := rfl
    simp only [follow, entered, departed, interrupted, JackAlignment.heard, nothing, Nat.sub_zero, Nat.min_self,
      List.append_nil]
  have backs : ∀ q : Queue UInt8 capacity, Backs t.system.bridge.ringbuffer q →
      Backs after.bridge.ringbuffer (advance q (bytesIn t.system)) := by
    intro q before
    have fill : bytesIn t.system = q.fill := backsFill before
    rw [fill]
    exact backsReset t.system.bridge.ringbuffer q
  change Tracked (follow t .reset after) channels
  rw [same]
  refine departedTracked tracked shaped backs tracked.pending
    ⟨frames + held,?_,laidGap laid (Nat.le_add_right _ _)⟩ tracked.unheard tracked.heard
  rw [Nat.min_self, bytes, gone, Nat.mul_add]

theorem copyTracked {t : Trail capacity} {channels : Nat} (tracked : Tracked t channels) (result : CaptureResult)
    (grabbing : Bool) : ∃ next, Tracked (follow t (.copyData result)
      {t.system with bridge := copyDataRound t.system.bridge result, grabbing}) next := by
  have still : ∀ (b : Bridge capacity) (grabbing : Bool), b.dataSize = t.system.bridge.dataSize →
      b.currentNumberOfChannels = t.system.bridge.currentNumberOfChannels →
      b.ringbuffer = t.system.bridge.ringbuffer →
      Tracked {t with system := {t.system with bridge := b, grabbing}} channels := by
    intro b grabbing size count ring
    exact quietTracked tracked (.inl rfl) (shapedCongr tracked.shaped size count) ring tracked.pending
  have silent : ∀ system, entered t.system system (.copyData result) = [] →
      follow t (.copyData result) system = {t with system} := by
    intro system none
    simp only [follow, none, departed, interrupted, JackAlignment.heard, List.append_nil, Nat.add_zero]
  cases result with
  | stopped => exact ⟨channels,by rw [silent _ rfl]; exact still _ grabbing rfl rfl rfl⟩
  | truncated => exact ⟨channels,by rw [silent _ rfl]; exact still _ grabbing rfl rfl rfl⟩
  | failed => exact ⟨channels,by rw [silent _ rfl]; exact still _ grabbing rfl rfl rfl⟩
  | frame packet =>
    obtain ⟨next,shaped,grown,stored⟩ := copyFrameCases tracked.shaped packet
    have grown' : next = channels ∨ channels = 0 ∧ Supported next :=
      grown.imp_right fun ⟨first,wellFormed⟩ => ⟨first,supportedOf wellFormed⟩
    have pending : ∀ cycle bufferSize, t.system.processing = some (cycle,bufferSize) →
        next ≠ 0 ∧ bufferSize = 3 * next * cycle.nframes.toNat := by
      intro cycle bufferSize processing
      obtain ⟨positive,size⟩ := tracked.pending cycle bufferSize processing
      obtain rfl : next = channels := grown.resolve_right fun first => positive first.1
      exact ⟨positive,size⟩
    let after : System capacity := {t.system with bridge := copyFrame t.system.bridge packet, grabbing}
    refine ⟨next,?_⟩
    change Tracked (follow t (.copyData (.frame packet)) after) next
    rcases stored with ring | ⟨wellFormed,room,ring⟩
    · have none : entered t.system after (.copyData (.frame packet)) = [] := by
        have same : bytesIn after = bytesIn t.system := congrArg jackRingbufferReadSpace ring
        simp only [entered, same, Nat.lt_irrefl, if_false]
      rw [silent after none]
      exact quietTracked tracked grown' shaped ring pending
    · -- first the channel count, then the payload
      let sized : System capacity := {after with
        bridge := {after.bridge with ringbuffer := t.system.bridge.ringbuffer}}
      have tracked' : Tracked {t with system := sized} next :=
        quietTracked tracked grown' (shapedCongr shaped rfl rfl) rfl pending
      have more : bytesIn t.system < bytesIn after := by
        have length := wellFormed.length
        have positive := wellFormed.positive
        simp only [bytesIn, after, ring, jackRingbufferReadSpace, jackRingbufferWrite, Nat.min_eq_left room,
          List.length_append, List.length_take, List.length_drop]
        omega
      have same : follow t (.copyData (.frame packet)) after =
          {t with system := after, accepted := t.accepted ++ [packet]} := by
        simp only [follow, entered, if_pos more, departed, interrupted, JackAlignment.heard, List.append_nil,
          Nat.add_zero]
      rw [same]
      exact storedTracked tracked' wellFormed shaped room ring rfl

theorem traceTracked (t : Trail capacity) (action : Action) (next : Trail capacity)
    (tracked : ∃ channels, Tracked t channels) (taken : trace t action = some next) :
    ∃ channels, Tracked next channels := by
  obtain ⟨channels,tracked⟩ := tracked
  obtain ⟨system,step,rfl⟩ := Option.map_eq_some_iff.mp taken
  cases action with
  | copyData result =>
    simp only [act] at step
    split at step
    · obtain rfl := Option.some.inj step
      exact copyTracked tracked result _
    · contradiction
  | processQuery cycle =>
    have most : channels ≤ 40 := by
      rcases tracked.supported with rfl | supported
      · exact Nat.zero_le _
      · exact supported.most
    obtain ⟨shaped,ring,reading⟩ := queryCases tracked.shaped most cycle
    have silent : ∀ system, follow t (.processQuery cycle) system = {t with system} := by
      intro system
      simp only [follow, entered, departed, interrupted, JackAlignment.heard, List.append_nil, Nat.add_zero]
    rw [silent]
    simp only [act] at step
    split at step
    · contradiction
    rename_i idle
    split at step
    · rename_i bridge outputs queried
      obtain rfl := Option.some.inj step
      rw [queried] at shaped ring
      refine ⟨channels,quietTracked tracked (.inl rfl) shaped ring ?_⟩
      exact fun _ _ processing => (Option.some_ne_none _ (processing.symm.trans idle)).elim
    · rename_i bridge bufferSize queried
      obtain rfl := Option.some.inj step
      rw [queried] at shaped ring reading
      refine ⟨channels,quietTracked tracked (.inl rfl) shaped ring ?_⟩
      intro cycle' bufferSize' processing
      cases processing
      obtain ⟨positive,size,_,_⟩ := reading bufferSize rfl
      exact ⟨positive,size⟩
  | processRead =>
    obtain ⟨⟨cycle,bufferSize⟩,processing,rfl⟩ := Option.map_eq_some_iff.mp step
    exact ⟨channels,readTracked tracked processing⟩
  | reset =>
    obtain rfl := Option.some.inj step
    exact ⟨channels,resetTracked tracked⟩

/-- In every run the ring holds whole frames, every block is a window of the decoded
packets with each channel on its port, and the blocks follow each other without a gap
except where the audio was interrupted. -/
theorem keepsAlignment (capacity : Nat) (jackBufferFrames : UInt32) (schedule : List Action) (t : Trail capacity)
    (reached : run trace (untouched (boot (bridgeOf capacity jackBufferFrames))) schedule = some t) :
    3 * channelsOf t.system ∣ jackRingbufferReadSpace t.system.bridge.ringbuffer ∧
    (∀ block ∈ t.blocks, block.channels = channelsOf t.system ∧
      Heard (acceptedRows (channelsOf t.system) t.accepted) block) ∧
    t.blocks.Pairwise (fun a b => a.start + a.nframes ≤ b.start) ∧
    t.blocks.IsChain (fun a b => a.interruptions = b.interruptions → b.start = a.start + a.nframes) := by
  obtain ⟨channels,tracked⟩ := runInvariant (I := fun t => ∃ channels, Tracked t channels)
    traceTracked ⟨0,untouchedTracked capacity jackBufferFrames⟩ reached
  have count : channelsOf t.system = channels := tracked.shaped.count
  obtain ⟨_,bytes⟩ := bytesWhole tracked
  obtain ⟨_,_,laid⟩ := tracked.laid
  rw [count]
  exact ⟨⟨_,bytes⟩,tracked.heard,laid.apart,laid.joined⟩

def stereoCycle (nframes : UInt32) : Cycle := ⟨nframes,1,fun _ => some fun _ => 0⟩

/-- Two packets, two blocks of eight frames, the second across the packet boundary; then
a reset that loses eight frames, and a callback while the ring is empty. -/
def stereoTrail : Option (Trail 131071) :=
  run trace (untouched (boot (bridgeOf 131071 1024)))
    [.copyData (.frame quietPacket),.copyData (.frame quietPacket),.processQuery (stereoCycle 8),.processRead,
      .processQuery (stereoCycle 8),.processRead,.reset,.processQuery (stereoCycle 8),.copyData .truncated,
      .copyData (.frame quietPacket),.processQuery (stereoCycle 4),.processRead]

theorem keepsAlignmentStereo :
    let t := stereoTrail.get (by decide +kernel)
    t.blocks.map (fun block => (block.start,block.nframes)) = [(0,8),(8,8),(24,4)] ∧
    3 * channelsOf t.system ∣ jackRingbufferReadSpace t.system.bridge.ringbuffer ∧
    (∀ block ∈ t.blocks, block.channels = channelsOf t.system ∧
      Heard (acceptedRows (channelsOf t.system) t.accepted) block) ∧
    t.blocks.Pairwise (fun a b => a.start + a.nframes ≤ b.start) ∧
    t.blocks.IsChain (fun a b => a.interruptions = b.interruptions → b.start = a.start + a.nframes) :=
  ⟨by decide +kernel,keepsAlignment 131071 1024 _ _ (Option.some_get (by decide +kernel)).symm⟩

end ReacJack.JackAlignment
