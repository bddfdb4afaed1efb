import ReacJack.PipeWireRing
import ReacJack.TransitionRuns
import Mathlib.Data.Nat.ModEq
import Mathlib.Data.List.Infix

/-! Runs of whole writes and reads on the PipeWire ring, of any length, so also past
the point where the positions wrap. The word does not hold a whole number of
capacities, so the rows on the two sides of that point use slots `2^w % 96000` apart. -/
namespace ReacJack.PipeWireRing
open BufferLoops CircularBuffer TransitionRuns

variable {w : Nat} {α : Type}

def row (buffer : Nat → α) (width f : Nat) : List α :=
  (List.range width).map (fun ch => buffer (f * width + ch))

def rows (buffer : Nat → α) (width n : Nat) : List (List α) := (List.range n).map (row buffer width)

structure Books (w : Nat) (α : Type) where
  ring : AudioRing w α
  accepted : List (List α)
  delivered : List (List α)

inductive Call (w : Nat) (α : Type) where
  | write (interleaved : Nat → α) (frames : BitVec w)
  | read (out : Nat → α) (frames : BitVec w)

def step [Zero α] (b : Books w α) : Call w α → Option (Books w α)
  | .write interleaved frames =>
    (audioRingWrite b.ring interleaved frames).map fun (code,ring) =>
      if code = 0 then
        {b with ring, accepted := b.accepted ++ rows interleaved b.ring.channels.toNat frames.toNat}
      else {b with ring}
  | .read out frames =>
    (audioRingRead b.ring out frames).map fun (count,ring,out) =>
      {b with ring, delivered := b.delivered ++ rows out b.ring.channels.toNat count.toNat}

def opening [Zero α] (channels : UInt16) : Books w α :=
  ⟨audioRingInit channels reacjackPwRingFrames,[],[]⟩

/-- No call's frames straddle the wrap, and no more than `2^w % 96000` frames lie across it. -/
def Clear (ring : AudioRing w α) : Call w α → Prop
  | .write _ frames => frames.toNat ≤ ring.capacityFrames.toNat - fill ring →
      ring.writePos.toNat + frames.toNat ≤ 2 ^ w ∧
      (2 ^ w < ring.readPos.toNat + (fill ring + frames.toNat) →
        fill ring + frames.toNat ≤ 2 ^ w % ring.capacityFrames.toNat)
  | .read _ frames => ring.readPos.toNat + min (fill ring) frames.toNat ≤ 2 ^ w

def ClearRun [Zero α] (b : Books w α) (calls : List (Call w α)) : Prop :=
  ∀ before call after reached, calls = before ++ call :: after → run step b before = some reached →
    Clear reached.ring call

structure Counted (b : Books w α) : Prop where
  capacity : b.ring.capacityFrames = 96000#w
  readPos : b.ring.readPos = BitVec.ofNat w b.delivered.length
  writePos : b.ring.writePos = BitVec.ofNat w b.accepted.length
  le : b.delivered.length ≤ b.accepted.length
  bounded : b.accepted.length ≤ b.delivered.length + 96000

theorem rowsLength (buffer : Nat → α) (width n : Nat) : (rows buffer width n).length = n := by
  simp [rows]

theorem capacityToNat (word : 96000 < 2 ^ w) : (96000#w).toNat = 96000 := by
  rw [BitVec.toNat_ofNat]
  exact Nat.mod_eq_of_lt word

theorem distanceToNat {before after : Nat} (le : before ≤ after) (small : after - before < 2 ^ w) :
    (BitVec.ofNat w after - BitVec.ofNat w before).toNat = after - before := by
  have sum : BitVec.ofNat w after = BitVec.ofNat w before + BitVec.ofNat w (after - before) := by
    rw [← BitVec.ofNat_add, Nat.add_sub_cancel' le]
  rw [sum, BitVec.add_comm, BitVec.add_sub_cancel, BitVec.toNat_ofNat]
  exact Nat.mod_eq_of_lt small

theorem fillCounted (word : 96000 < 2 ^ w) {b : Books w α} (counted : Counted b) :
    fill b.ring = b.accepted.length - b.delivered.length := by
  have bounded := counted.bounded
  rw [fill, counted.readPos, counted.writePos, distanceToNat counted.le (by omega)]

theorem openingCounted [Zero α] (channels : UInt16) : Counted (opening channels : Books w α) :=
  ⟨rfl,rfl,rfl,Nat.le_refl _,Nat.zero_le _⟩

theorem countedPositive (word : 96000 < 2 ^ w) {b : Books w α} (counted : Counted b) :
    b.ring.capacityFrames.toNat = 96000 ∧ fill b.ring ≤ b.ring.capacityFrames.toNat := by
  have capacity : b.ring.capacityFrames.toNat = 96000 := by rw [counted.capacity, capacityToNat word]
  have bounded := counted.bounded
  rw [fillCounted word counted, capacity]
  exact ⟨rfl,by omega⟩

theorem stepCounted [Zero α] (word : 96000 < 2 ^ w) {b : Books w α} (counted : Counted b) (call : Call w α) :
    ∃ next, step b call = some next ∧ Counted next := by
  obtain ⟨capacity,full⟩ := countedPositive word counted
  have filled := fillCounted word counted
  have le := counted.le
  have bounded := counted.bounded
  cases call with
  | write interleaved frames =>
    rcases Nat.lt_or_ge (b.ring.capacityFrames.toNat - fill b.ring) frames.toNat with refused | fits
    · refine ⟨b,?_,counted⟩
      simp [step, writeRefused full interleaved refused]
    · obtain ⟨s,result,_⟩ := writeAccepted (by omega) full interleaved fits
      refine ⟨_,by rw [step, result]; rfl,?_⟩
      refine ⟨counted.capacity,counted.readPos,?_,?_,?_⟩
      · simp only [if_true, List.length_append, rowsLength, BitVec.ofNat_add, counted.writePos,
          BitVec.ofNat_toNat, BitVec.setWidth_eq]
      · simp only [if_true, List.length_append, rowsLength]
        omega
      · simp only [if_true, List.length_append, rowsLength]
        omega
  | read out frames =>
    have count := readCountToNat b.ring frames
    have positive : 0 < b.ring.capacityFrames.toNat := by omega
    obtain ⟨out',result,_⟩ := readSpec positive out frames
    refine ⟨_,by rw [step, result]; rfl,?_⟩
    refine ⟨counted.capacity,?_,counted.writePos,?_,?_⟩
    · simp only [List.length_append, rowsLength, BitVec.ofNat_add, counted.readPos,
        BitVec.ofNat_toNat, BitVec.setWidth_eq]
    · simp only [List.length_append, rowsLength]
      omega
    · simp only [List.length_append, rowsLength]
      omega

theorem runCounted [Zero α] (word : 96000 < 2 ^ w) {b : Books w α} (counted : Counted b)
    (calls : List (Call w α)) : ∃ final, run step b calls = some final ∧ Counted final := by
  induction calls generalizing b with
  | nil => exact ⟨b,rfl,counted⟩
  | cons call rest ih =>
    obtain ⟨next,taken,kept⟩ := stepCounted word counted call
    obtain ⟨final,reached,holds⟩ := ih kept
    exact ⟨final,by rw [run, taken]; exact reached,holds⟩

def slotOf (w position : Nat) : Nat := position % 2 ^ w % 96000

theorem slotApart (start : Nat) {n i j : Nat} (word : 96000 < 2 ^ w) (fits : n ≤ 96000)
    (across : 2 ^ w < start % 2 ^ w + n → n ≤ 2 ^ w % 96000) (less : i < j) (inside : j < n) :
    slotOf w (start + i) ≠ slotOf w (start + j) := by
  -- A window of fewer frames than `2^w % 96000`, or one the wrap does not fall into, uses no slot
  -- twice.
  have small := Nat.mod_lt start (show 0 < 2 ^ w by omega)
  have straight : ∀ k, start % 2 ^ w + k < 2 ^ w → (start + k) % 2 ^ w = start % 2 ^ w + k := by
    intro k below
    rw [← Nat.mod_add_mod, Nat.mod_eq_of_lt below]
  have wrapped : ∀ k < n, 2 ^ w ≤ start % 2 ^ w + k → (start + k) % 2 ^ w = start % 2 ^ w + k - 2 ^ w := by
    intro k below beyond
    rw [← Nat.mod_add_mod, Nat.mod_eq_sub_mod beyond, Nat.mod_eq_of_lt (by omega)]
  unfold slotOf
  intro same
  rcases Nat.lt_or_ge (start % 2 ^ w + j) (2 ^ w) with before | beyond
  · rw [straight i (by omega), straight j before] at same
    have equal := windowInjective (a := start % 2 ^ w) (by omega) (by omega) same
    omega
  · rcases Nat.lt_or_ge (start % 2 ^ w + i) (2 ^ w) with early | late
    · -- the wrap lies between the two
      rw [straight i early, wrapped j inside beyond] at same
      have turned : start % 2 ^ w + j - 2 ^ w + 2 ^ w ≡ start % 2 ^ w + j - 2 ^ w + (j - i) [MOD 96000] := by
        have shifted : start % 2 ^ w + j - 2 ^ w + 2 ^ w = start % 2 ^ w + i + (j - i) := by omega
        rw [shifted]
        exact Nat.ModEq.add_right (j - i) same
      have congruent : 2 ^ w % 96000 = (j - i) % 96000 := Nat.ModEq.add_left_cancel' _ turned
      rw [Nat.mod_eq_of_lt (show j - i < 96000 by omega)] at congruent
      have narrow := across (by omega)
      omega
    · rw [wrapped i (by omega) late, wrapped j inside beyond] at same
      have equal := windowInjective (a := start % 2 ^ w + i - 2 ^ w) (by omega) (by omega) same
      omega

structure Streamed (b : Books w α) : Prop where
  inOrder : b.delivered = b.accepted.take b.delivered.length
  live : ∀ p, b.delivered.length ≤ p → p < b.accepted.length →
    b.accepted[p]? = some (row b.ring.samples b.ring.channels.toNat (slotOf w p))

theorem openingStreamed [Zero α] (channels : UInt16) : Streamed (opening channels : Books w α) :=
  ⟨rfl,fun p _ below => absurd below (Nat.not_lt_zero p)⟩

theorem rowsAt (buffer : Nat → α) (width : Nat) {n f : Nat} (inside : f < n) :
    (rows buffer width n)[f]? = some (row buffer width f) := by
  simp [rows, inside]

theorem rowCongr {buffer buffer' : Nat → α} {width f f' : Nat}
    (same : ∀ ch < width, buffer (f * width + ch) = buffer' (f' * width + ch)) :
    row buffer width f = row buffer' width f' := by
  refine List.map_congr_left ?_
  intro ch member
  exact same ch (List.mem_range.mp member)

theorem callSlot {position frames f : Nat} (straight : position % 2 ^ w + frames ≤ 2 ^ w) (inside : f < frames) :
    (position % 2 ^ w + f) % 96000 = slotOf w (position + f) := by
  have turn : (position + f) % 2 ^ w = position % 2 ^ w + f := by
    rw [← Nat.mod_add_mod, Nat.mod_eq_of_lt (by omega)]
  rw [slotOf, turn]

theorem writeStreamed (word : 96000 < 2 ^ w) {b : Books w α} (counted : Counted b) (streamed : Streamed b)
    {interleaved : Nat → α} {frames : BitVec w} {s : Copying w α}
    (fits : frames.toNat ≤ b.ring.capacityFrames.toNat - fill b.ring)
    (clear : Clear b.ring (.write interleaved frames)) (moved : Moved b.ring interleaved s)
    (all : s.moved.toNat = frames.toNat) :
    Streamed ⟨{b.ring with samples := s.buffer, writePos := b.ring.writePos + frames},
      b.accepted ++ rows interleaved b.ring.channels.toNat frames.toNat,b.delivered⟩ := by
  obtain ⟨capacity,full⟩ := countedPositive word counted
  obtain ⟨straight,across⟩ := clear fits
  have filled := fillCounted word counted
  have le := counted.le
  have writeAt : b.ring.writePos.toNat = b.accepted.length % 2 ^ w := by
    rw [counted.writePos, BitVec.toNat_ofNat]
  have readAt : b.ring.readPos.toNat = b.delivered.length % 2 ^ w := by
    rw [counted.readPos, BitVec.toNat_ofNat]
  rw [writeAt] at straight
  rw [readAt, capacity] at across
  refine ⟨?_,?_⟩
  · simp only [List.take_append_of_le_length le]
    exact streamed.inOrder
  · intro p unread below
    simp only [List.length_append, rowsLength] at below unread ⊢
    rcases Nat.lt_or_ge p b.accepted.length with old | new
    · rw [List.getElem?_append_left old, streamed.live p unread old]
      congr 1
      refine rowCongr ?_
      intro ch channel
      refine (moved.others (slotOf w p) ?_ ch channel).symm
      intro f inside
      rw [all] at inside
      rw [writeAt, capacity, callSlot straight inside]
      have apart := slotApart b.delivered.length (n := fill b.ring + frames.toNat)
        (i := p - b.delivered.length) (j := b.accepted.length + f - b.delivered.length) word (by omega) across
        (by omega) (by omega)
      rw [Nat.add_sub_cancel' unread, Nat.add_sub_cancel' (by omega)] at apart
      exact apart
    · rw [List.getElem?_append_right new, rowsAt _ _ (by omega)]
      congr 1
      refine rowCongr ?_
      intro ch channel
      have stored := moved.rows (p - b.accepted.length) (by omega) ch channel
      rw [writeAt, capacity, callSlot straight (by omega), Nat.add_sub_cancel' new] at stored
      exact stored.symm

theorem readStreamed (word : 96000 < 2 ^ w) {b : Books w α} (counted : Counted b) (streamed : Streamed b)
    {out : Nat → α} {count : BitVec w} (some_ : count.toNat ≤ fill b.ring)
    (straight : b.ring.readPos.toNat + count.toNat ≤ 2 ^ w)
    (fetched : ∀ f < count.toNat, ∀ ch < b.ring.channels.toNat, out (f * b.ring.channels.toNat + ch) =
      b.ring.samples ((b.ring.readPos.toNat + f) % b.ring.capacityFrames.toNat * b.ring.channels.toNat + ch)) :
    Streamed ⟨{b.ring with readPos := b.ring.readPos + count},b.accepted,
      b.delivered ++ rows out b.ring.channels.toNat count.toNat⟩ := by
  obtain ⟨capacity,_⟩ := countedPositive word counted
  have filled := fillCounted word counted
  have le := counted.le
  have readAt : b.ring.readPos.toNat = b.delivered.length % 2 ^ w := by
    rw [counted.readPos, BitVec.toNat_ofNat]
  rw [readAt] at straight
  have block : rows out b.ring.channels.toNat count.toNat =
      (b.accepted.drop b.delivered.length).take count.toNat := by
    refine List.ext_getElem? ?_
    intro f
    rcases Nat.lt_or_ge f count.toNat with inside | beyond
    · rw [rowsAt _ _ inside, List.getElem?_take_of_lt inside, List.getElem?_drop,
        streamed.live _ (Nat.le_add_right _ _) (by omega)]
      congr 1
      refine rowCongr ?_
      intro ch channel
      rw [fetched f inside ch channel, readAt, capacity, callSlot straight inside]
    · rw [List.getElem?_eq_none (by rw [rowsLength]; exact beyond),
        List.getElem?_eq_none (by simp only [List.length_take, List.length_drop]; omega)]
  refine ⟨?_,?_⟩
  · simp only [List.length_append, rowsLength, List.take_add, ← block]
    rw [← streamed.inOrder]
  · intro p unread below
    simp only [List.length_append, rowsLength] at unread
    exact streamed.live p (by omega) below

theorem stepStreamed [Zero α] (word : 96000 < 2 ^ w) {b next : Books w α} (counted : Counted b)
    (streamed : Streamed b) (call : Call w α) (clear : Clear b.ring call) (taken : step b call = some next) :
    Streamed next := by
  obtain ⟨capacity,full⟩ := countedPositive word counted
  cases call with
  | write interleaved frames =>
    rcases Nat.lt_or_ge (b.ring.capacityFrames.toNat - fill b.ring) frames.toNat with refused | fits
    · simp only [step, writeRefused full interleaved refused, Option.map_some] at taken
      cases Option.some.inj taken
      exact streamed
    · obtain ⟨s,result,contents⟩ := writeAccepted (by omega) full interleaved fits
      obtain ⟨moved,all⟩ := contents (clear fits).1
      simp only [step, result, Option.map_some, if_true] at taken
      cases Option.some.inj taken
      exact writeStreamed word counted streamed fits clear moved all
  | read out frames =>
    have count := readCountToNat b.ring frames
    have positive : 0 < b.ring.capacityFrames.toNat := by omega
    obtain ⟨out',result,contents,_⟩ := readSpec positive out frames
    simp only [Clear, ← count] at clear
    simp only [step, result, Option.map_some] at taken
    cases Option.some.inj taken
    exact readStreamed word counted streamed (by omega) clear (contents clear)

theorem runStreamed [Zero α] (word : 96000 < 2 ^ w) {b final : Books w α} (counted : Counted b)
    (streamed : Streamed b) {calls : List (Call w α)} (clear : ClearRun b calls)
    (reached : run step b calls = some final) : Streamed final := by
  induction calls generalizing b with
  | nil =>
    cases Option.some.inj reached
    exact streamed
  | cons call rest ih =>
    obtain ⟨next,taken,later⟩ := runCons reached
    obtain ⟨same,also,kept⟩ := stepCounted word counted call
    cases Option.some.inj (taken.symm.trans also)
    refine ih kept (stepStreamed word counted streamed call (clear [] call rest b rfl rfl) taken) ?_ later
    rintro before other after state rfl arrived
    exact clear (call :: before) other after state rfl (by rw [run, taken]; exact arrived)

def Call.written : Call w α → Nat
  | .write _ frames => frames.toNat
  | .read _ _ => 0

theorem stepAccepts [Zero α] {b next : Books w α} {call : Call w α} (taken : step b call = some next) :
    next.accepted.length ≤ b.accepted.length + call.written := by
  cases call with
  | write interleaved frames =>
    obtain ⟨⟨code,ring⟩,_,rfl⟩ := Option.map_eq_some_iff.mp taken
    simp only [Call.written]
    split
    · simp only [List.length_append, rowsLength, Nat.le_refl]
    · exact Nat.le_add_right _ _
  | read out frames =>
    obtain ⟨⟨count,ring,out'⟩,_,rfl⟩ := Option.map_eq_some_iff.mp taken
    exact Nat.le_refl _

theorem runAccepts [Zero α] {b final : Books w α} {calls : List (Call w α)}
    (reached : run step b calls = some final) :
    final.accepted.length ≤ b.accepted.length + (calls.map Call.written).sum := by
  induction calls generalizing b with
  | nil =>
    cases Option.some.inj reached
    exact Nat.le_add_right _ _
  | cons call rest ih =>
    obtain ⟨next,taken,later⟩ := runCons reached
    have one := stepAccepts taken
    have more := ih later
    rw [List.map_cons, List.sum_cons]
    omega

theorem clearBelow (word : 96000 < 2 ^ w) {b : Books w α} (counted : Counted b) {call : Call w α}
    (below : b.accepted.length + call.written ≤ 2 ^ w) : Clear b.ring call := by
  have filled := fillCounted word counted
  have le := counted.le
  have writeAt : b.ring.writePos.toNat ≤ b.accepted.length := by
    rw [counted.writePos, BitVec.toNat_ofNat]
    exact Nat.mod_le _ _
  have readAt : b.ring.readPos.toNat ≤ b.delivered.length := by
    rw [counted.readPos, BitVec.toNat_ofNat]
    exact Nat.mod_le _ _
  cases call with
  | write interleaved frames =>
    simp only [Call.written] at below
    intro _
    exact ⟨by omega,fun beyond => by omega⟩
  | read out frames =>
    have less := Nat.min_le_left (fill b.ring) frames.toNat
    simp only [Clear]
    omega

theorem earlyClear [Zero α] (word : 96000 < 2 ^ w) (channels : UInt16) {calls : List (Call w α)}
    (few : (calls.map Call.written).sum ≤ 2 ^ w) : ClearRun (opening channels) calls := by
  rintro before call after b rfl arrived
  obtain ⟨b',arrived',counted⟩ := runCounted word (openingCounted channels) before
  obtain rfl := Option.some.inj (arrived.symm.trans arrived')
  have accepted : b.accepted.length ≤ 0 + (before.map Call.written).sum := runAccepts arrived
  rw [List.map_append, List.sum_append, List.map_cons, List.sum_cons] at few
  exact clearBelow word counted (by omega)

/-- The distance bound and the test for room hold in every run; the stream stays in
order as long as every call is clear of the wrap. -/
theorem fifoWhileClear [Zero α] (word : 96000 < 2 ^ w) (channels : UInt16) (calls : List (Call w α)) :
    ∃ b, run step (opening channels) calls = some b ∧ fill b.ring ≤ 96000 ∧
      (∀ interleaved frames, ∃ code ring, audioRingWrite b.ring interleaved frames = some (code,ring) ∧
        (code = 0 ↔ frames.toNat ≤ 96000 - fill b.ring)) ∧
      (ClearRun (opening channels) calls → b.delivered <+: b.accepted) := by
  obtain ⟨b,reached,counted⟩ := runCounted word (openingCounted channels) calls
  obtain ⟨capacity,full⟩ := countedPositive word counted
  refine ⟨b,reached,by omega,?_,?_⟩
  · intro interleaved frames
    rcases Nat.lt_or_ge (b.ring.capacityFrames.toNat - fill b.ring) frames.toNat with refused | fits
    · refine ⟨-1,b.ring,writeRefused full interleaved refused,?_⟩
      constructor
      · intro zero
        cases zero
      · intro room
        omega
    · obtain ⟨s,result,_⟩ := writeAccepted (by omega) full interleaved fits
      exact ⟨0,_,result,by constructor <;> omega⟩
  · intro clear
    have streamed := runStreamed word (openingCounted channels) (openingStreamed channels) clear reached
    rw [streamed.inOrder]
    exact List.take_prefix _ _

def packetCalls : List (Call 32 Nat) :=
  [.write (fun i => i) 12#32,.read (fun _ => 0) 6#32,.write (fun i => 24 + i) 12#32,.read (fun _ => 0) 24#32]

theorem fifoPacket : ∃ b, run step (opening 2) packetCalls = some b ∧ fill b.ring ≤ 96000 ∧
    b.delivered <+: b.accepted ∧ b.delivered.length = 24 := by
  obtain ⟨b,reached,bounded,_,inOrder⟩ := fifoWhileClear (α := Nat) (w := 32) (by decide) 2 packetCalls
  have lengths : (run step (opening 2) packetCalls).map (fun b => b.delivered.length) = some 24 := by
    decide +kernel
  rw [reached] at lengths
  exact ⟨b,reached,bounded,inOrder (earlyClear (by decide) 2 (by decide)),Option.some.inj lengths⟩

theorem acceptedStep [Zero α] (word : 96000 < 2 ^ w) {b : Books w α} (counted : Counted b)
    (interleaved : Nat → α) (frames : BitVec w)
    (fits : b.accepted.length - b.delivered.length + frames.toNat ≤ 96000) :
    ∃ s, step b (.write interleaved frames) = some
        ⟨{b.ring with samples := s.buffer, writePos := b.ring.writePos + frames},
          b.accepted ++ rows interleaved b.ring.channels.toNat frames.toNat,b.delivered⟩ ∧
      (b.ring.writePos.toNat + frames.toNat ≤ 2 ^ w →
        Moved b.ring interleaved s ∧ s.moved.toNat = frames.toNat) := by
  obtain ⟨capacity,full⟩ := countedPositive word counted
  have filled := fillCounted word counted
  have room : frames.toNat ≤ b.ring.capacityFrames.toNat - fill b.ring := by omega
  obtain ⟨s,result,contents⟩ := writeAccepted (by omega) full interleaved room
  refine ⟨s,?_,contents⟩
  simp only [step, result, Option.map_some, if_true]

theorem deliveredStep [Zero α] (word : 96000 < 2 ^ w) {b : Books w α} (counted : Counted b) (out : Nat → α)
    (frames : BitVec w) (held : frames.toNat ≤ b.accepted.length - b.delivered.length) :
    ∃ out', step b (.read out frames) = some ⟨{b.ring with readPos := b.ring.readPos + frames},b.accepted,
        b.delivered ++ rows out' b.ring.channels.toNat frames.toNat⟩ ∧
      (b.ring.readPos.toNat + frames.toNat ≤ 2 ^ w →
        ∀ f < frames.toNat, ∀ ch < b.ring.channels.toNat, out' (f * b.ring.channels.toNat + ch) =
          b.ring.samples ((b.ring.readPos.toNat + f) % 96000 * b.ring.channels.toNat + ch)) := by
  obtain ⟨capacity,_⟩ := countedPositive word counted
  have filled := fillCounted word counted
  have count : readCount b.ring frames = frames := by
    rw [← BitVec.toNat_inj, readCountToNat]
    omega
  have positive : 0 < b.ring.capacityFrames.toNat := by omega
  obtain ⟨out',result,contents,_⟩ := readSpec positive out frames
  rw [count] at result contents
  rw [capacity] at contents
  refine ⟨out',?_,contents⟩
  simp only [step, result, Option.map_some]

def pumps : Nat → List (Call 32 Nat)
  | 0 => []
  | n + 1 => pumps n ++ [.write (fun _ => 0) 96000#32,.read (fun _ => 0) 96000#32]

theorem pumped (n : Nat) :
    ∃ b, run step (opening 1) (pumps n) = some b ∧ Counted b ∧ b.ring.channels = 1 ∧
      b.accepted.length = 96000 * n ∧ b.delivered.length = 96000 * n := by
  induction n with
  | zero => exact ⟨_,rfl,openingCounted 1,rfl,rfl,rfl⟩
  | succ n ih =>
    obtain ⟨b,reached,counted,channels,accepted,delivered⟩ := ih
    have full : (96000#32).toNat = 96000 := rfl
    obtain ⟨s,wrote,_⟩ := acceptedStep (by decide) counted (fun _ => 0) 96000#32 (by omega)
    obtain ⟨_,same,counted'⟩ := stepCounted (by decide) counted (.write (fun _ => 0) 96000#32)
    cases Option.some.inj (wrote.symm.trans same)
    obtain ⟨out',read,_⟩ := deliveredStep (by decide) counted' (fun _ => 0) 96000#32
      (by simp only [List.length_append, rowsLength]; omega)
    obtain ⟨_,same',counted''⟩ := stepCounted (by decide) counted' (.read (fun _ => 0) 96000#32)
    cases Option.some.inj (read.symm.trans same')
    refine ⟨_,runAppend reached ?_,counted'',channels,?_,?_⟩
    · rw [run, wrote, Option.bind_some, run, read]
      rfl
    · simp only [List.length_append, rowsLength]
      omega
    · simp only [List.length_append, rowsLength]
      omega

/-- The buffer is empty 23296 frames before the wrap; a write up to the wrap and one
frame behind it are accepted, and the frame behind it comes out first. -/
theorem wrapOverwrites : ¬ ∀ (channels : UInt16) (calls : List (Call 32 Nat)) (b : Books 32 Nat),
    run step (opening channels) calls = some b → b.delivered <+: b.accepted := by
  intro fifo
  obtain ⟨b,reached,counted,channels,accepted,delivered⟩ := pumped 44739
  have word : 96000 < 2 ^ 32 := by decide
  have block : (23296#32).toNat = 23296 := rfl
  have one : (1#32).toNat = 1 := rfl
  have width : b.ring.channels.toNat = 1 := by rw [channels]; rfl
  -- up to the wrap
  obtain ⟨s,wrote,_⟩ := acceptedStep word counted (fun _ => 1) 23296#32 (by omega)
  obtain ⟨_,same,counted'⟩ := stepCounted word counted (.write (fun _ => 1) 23296#32)
  cases Option.some.inj (wrote.symm.trans same)
  -- one frame more
  obtain ⟨s',wrote',stored⟩ := acceptedStep word counted' (fun _ => 2) 1#32
    (by simp only [List.length_append, rowsLength]; omega)
  obtain ⟨_,same',counted''⟩ := stepCounted word counted' (.write (fun _ => 2) 1#32)
  cases Option.some.inj (wrote'.symm.trans same')
  -- and one frame out
  obtain ⟨out',read,fetched⟩ := deliveredStep word counted'' (fun _ => 0) 1#32
    (by simp only [List.length_append, rowsLength]; omega)
  obtain ⟨tail,begins⟩ := fifo 1 (pumps 44739 ++ [.write (fun _ => 1) 23296#32,.write (fun _ => 2) 1#32,
    .read (fun _ => 0) 1#32]) _ (runAppend reached (by
      rw [run, wrote, Option.bind_some, run, wrote', Option.bind_some, run, read]
      rfl))
  have writeAt : (b.ring.writePos + 23296#32).toNat = 0 := by
    rw [counted.writePos, accepted]
    decide
  have readAt : b.ring.readPos.toNat = 96000 * 44739 := by
    rw [counted.readPos, delivered]
    decide
  obtain ⟨moved,all⟩ := stored (by simp only [writeAt, one]; decide)
  have slot := moved.rows 0 (by rw [all, one]; omega) 0 (by simp only [width]; omega)
  have came := fetched (by simp only [readAt, one]; omega) 0 (by rw [one]; omega) 0
    (by simp only [width]; omega)
  have capacity : b.ring.capacityFrames.toNat = 96000 := (countedPositive word counted).1
  simp only [writeAt, readAt, width, capacity, Nat.add_zero, Nat.zero_mod, Nat.zero_mul, Nat.mul_mod_right] at slot came
  rw [slot] at came
  rw [width] at begins
  have delivers : (b.delivered ++ rows out' 1 1 ++ tail)[96000 * 44739]? = some [2] := by
    rw [List.append_assoc, List.getElem?_append_right (by omega), delivered, Nat.sub_self,
      List.getElem?_append_left (by rw [rowsLength]; omega), rowsAt _ _ (by omega)]
    simp [row, came]
  have accepts : (b.accepted ++ rows (fun _ => 1) 1 23296 ++ rows (fun _ => 2) 1 1)[96000 * 44739]? = some [1] := by
    rw [List.append_assoc, List.getElem?_append_right (by omega), accepted, Nat.sub_self,
      List.getElem?_append_left (by rw [rowsLength]; omega), rowsAt _ _ (by omega)]
    simp [row]
  have same := congrArg (fun frames => frames[96000 * 44739]?) begins
  simp only [one, block, delivers, accepts] at same
  cases same

end ReacJack.PipeWireRing
