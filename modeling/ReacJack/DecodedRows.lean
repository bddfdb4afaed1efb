import ReacJack.ReacWire

/-! Decoding a stream is decoding its parts: where payloads of whole frames follow each
other, the decoder makes of them what it makes of each, one after the other. -/
namespace ReacJack.DecodedRows
open ReacDecode ReacWire

abbrev Row := Nat → Rat

def decodedRows (channels : UInt16) (frames : Nat) (payload : Bytes) : List Row :=
  let decoded := reacDecodeSamplesToChannels (some payload) payload.length channels frames
    (some fun _ => some fun _ => 0)
  (List.range frames).map (fun frame ch => ((decoded.2.bind (fun outputs => outputs ch)).getD fun _ => 0) frame)

structure Supported (channels : Nat) : Prop where
  positive : channels ≠ 0
  most : channels ≤ 40
  even : channels % 2 = 0

def sampleRows (channels frames : Nat) (payload : Bytes) : List Row :=
  (List.range frames).map (fun frame ch => if ch < channels then decodedSample payload channels ch frame else 0)

theorem decodedRowsAre {channels : UInt16} {frames : Nat} {payload : Bytes} (supported : Supported channels.toNat)
    (whole : payload.length = channels.toNat * frames * 3) (small : payload.length < 2 ^ 64) :
    decodedRows channels frames payload = sampleRows channels.toNat frames payload := by
  have lent : Lent (fun _ => some fun _ => 0) channels.toNat := fun _ _ => rfl
  rw [decodedRows, decodeSpec supported.positive supported.most supported.even whole small lent, sampleRows]
  refine List.map_congr_left fun f inside => ?_
  rw [List.mem_range] at inside
  funext ch
  simp only [Option.bind_some, overwritten, Option.map_some, Option.getD_some, inside, decide_true,
    Bool.and_true, decide_eq_true_eq]

theorem rowsLength (channels frames : Nat) (payload : Bytes) : (sampleRows channels frames payload).length = frames := by
  rw [sampleRows, List.length_map, List.length_range]

theorem rowsAt (channels : Nat) {frames f : Nat} (payload : Bytes) (inside : f < frames) :
    (sampleRows channels frames payload)[f]? =
      some (fun ch => if ch < channels then decodedSample payload channels ch f else 0) := by
  rw [sampleRows, List.getElem?_map, List.getElem?_range inside, Option.map_some]

theorem sampleCongr {first second : Bytes} {channels ch f : Nat} (even : channels % 2 = 0)
    (channel : ch < channels) (same : ∀ i, i < 3 * channels * (f + 1) → at_ first i = at_ second i) :
    decodedSample first channels ch f = decodedSample second channels ch f := by
  have pair : ch / 2 < channels / 2 := by omega
  have half : 3 * channels = 6 * (channels / 2) := by omega
  have row : 3 * channels * (f + 1) = 6 * ((f + 1) * (channels / 2)) := by
    rw [half, Nat.mul_assoc, Nat.mul_comm (f + 1)]
  have next : (f + 1) * (channels / 2) = f * (channels / 2) + channels / 2 := Nat.succ_mul _ _
  have byte : ∀ k, k < 6 → at_ first (6 * (f * (channels / 2) + ch / 2) + k) =
      at_ second (6 * (f * (channels / 2) + ch / 2) + k) := by
    intro k inSix
    apply same
    omega
  have zero := byte 0 (by decide)
  rw [Nat.add_zero] at zero
  simp only [decodedSample, rawSample, zero, byte 1 (by decide), byte 2 (by decide), byte 3 (by decide),
    byte 4 (by decide), byte 5 (by decide)]

theorem sampleDrop (payload : Bytes) {channels : Nat} (ch skipped f : Nat) (even : channels % 2 = 0) :
    decodedSample (payload.drop (3 * channels * skipped)) channels ch f =
      decodedSample payload channels ch (skipped + f) := by
  have half : 3 * channels = 6 * (channels / 2) := by omega
  have shift : ∀ n, 3 * channels * skipped + (6 * (f * (channels / 2) + ch / 2) + n) =
      6 * ((skipped + f) * (channels / 2) + ch / 2) + n := by
    intro n
    rw [half]
    ring
  have first := shift 0
  rw [Nat.add_zero, Nat.add_zero] at first
  simp only [decodedSample, rawSample, at_Drop, shift, first]

theorem at_Take {payload : Bytes} {n i : Nat} (inside : i < n) : at_ (payload.take n) i = at_ payload i := by
  simp only [at_, List.getD_eq_getElem?_getD, List.getElem?_take_of_lt inside]

theorem rowsAppend {channels frames : Nat} (more : Nat) {first : Bytes} (second : Bytes) (even : channels % 2 = 0)
    (whole : first.length = channels * frames * 3) :
    sampleRows channels (frames + more) (first ++ second) =
      sampleRows channels frames first ++ sampleRows channels more second := by
  have length : first.length = 3 * channels * frames := by
    rw [whole]
    ring
  have after : (first ++ second).drop (3 * channels * frames) = second := by
    rw [← length, List.drop_left]
  refine List.ext_getElem? fun f => ?_
  rcases Nat.lt_or_ge f frames with old | new
  · rw [List.getElem?_append_left (by rw [rowsLength]; exact old), rowsAt _ _ (by omega), rowsAt _ _ old]
    congr 1
    funext ch
    split
    · rename_i channel
      refine sampleCongr even channel fun i inside => ?_
      have below : 3 * channels * (f + 1) ≤ 3 * channels * frames := Nat.mul_le_mul_left _ old
      rw [at_Append, if_pos (by omega)]
    · rfl
  · rw [List.getElem?_append_right (by rw [rowsLength]; exact new), rowsLength]
    rcases Nat.lt_or_ge f (frames + more) with inside | beyond
    · rw [rowsAt _ _ inside, rowsAt _ _ (by omega)]
      congr 1
      funext ch
      have shifted := sampleDrop (first ++ second) ch frames (f - frames) even
      rw [after, Nat.add_sub_cancel' new] at shifted
      rw [shifted]
    · rw [List.getElem?_eq_none (by rw [rowsLength]; exact beyond),
        List.getElem?_eq_none (by rw [rowsLength]; omega)]

theorem rowsFlatMap {channels frames : Nat} {packets : List Bytes} {payload : Bytes → Bytes}
    (even : channels % 2 = 0) (whole : ∀ packet ∈ packets, (payload packet).length = channels * frames * 3) :
    (packets.flatMap payload).length = channels * (frames * packets.length) * 3 ∧
      sampleRows channels (frames * packets.length) (packets.flatMap payload) =
        packets.flatMap (fun packet => sampleRows channels frames (payload packet)) := by
  induction packets with
  | nil => exact ⟨rfl,rfl⟩
  | cons packet rest ih =>
    have here := whole packet (List.mem_cons_self)
    obtain ⟨length,rows⟩ := ih fun later member => whole later (List.mem_cons_of_mem _ member)
    have frames_ : frames * (packet :: rest).length = frames + frames * rest.length := by
      rw [List.length_cons]
      ring
    rw [frames_, List.flatMap_cons, List.flatMap_cons, rowsAppend _ _ even here, rows]
    refine ⟨?_,rfl⟩
    rw [List.length_append, here, length]
    ring

theorem windowSample {channels frames skipped f n ch : Nat} (stream : Bytes) (even : channels % 2 = 0)
    (channel : ch < channels) (inside : f < n) (below : skipped + n ≤ frames) :
    ∃ row, (sampleRows channels frames stream)[skipped + f]? = some row ∧
      decodedSample ((stream.drop (3 * channels * skipped)).take (3 * channels * n)) channels ch f = row ch := by
  refine ⟨_,rowsAt channels stream (by omega),?_⟩
  rw [if_pos channel, ← sampleDrop stream ch skipped f even]
  refine sampleCongr even channel fun i near => ?_
  have : 3 * channels * (f + 1) ≤ 3 * channels * n := Nat.mul_le_mul_left _ inside
  rw [at_Take (by omega)]

end ReacJack.DecodedRows
