import Mathlib.Data.List.GetD
import ReacJack.BufferLoops

/-! Records of a fixed size that are handed out through a caller's buffer, and the `switch`
that finds the record asked for. A buffer that is too small gets nothing, which is an error
for some records and an empty answer for others. -/
namespace ReacJack.BufferedRecords
open BufferLoops

abbrev Buffer := Nat → UInt8

def littleEndian : Nat → Nat → List UInt8
  | 0, _ => []
  | width + 1, value => UInt8.ofNat value :: littleEndian width (value / 256)

@[simp] theorem littleEndianLength (width value : Nat) : (littleEndian width value).length = width := by
  induction width generalizing value with
  | zero => rfl
  | succ width ih => rw [littleEndian, List.length_cons, ih]

def storeBytes (buffer : Buffer) (start : Nat) (bytes : List UInt8) : Buffer :=
  memcpy buffer start (fun i => bytes.getD i 0) bytes.length

theorem storeInside (buffer : Buffer) {start i : Nat} {bytes : List UInt8} (low : start ≤ i)
    (high : i < start + bytes.length) : storeBytes buffer start bytes i = bytes.getD (i - start) 0 :=
  memcpyInside buffer _ low high

theorem storeOutside (buffer : Buffer) {start i : Nat} {bytes : List UInt8}
    (outside : i < start ∨ start + bytes.length ≤ i) : storeBytes buffer start bytes i = buffer i :=
  memcpyOutside buffer _ outside

theorem storeNothing (buffer : Buffer) (start : Nat) : storeBytes buffer start [] = buffer :=
  memcpyNothing buffer start _

theorem storeAppend (buffer : Buffer) {start next : Nat} {first : List UInt8} (rest : List UInt8)
    (adjacent : start + first.length = next) :
    storeBytes (storeBytes buffer start first) next rest = storeBytes buffer start (first ++ rest) := by
  subst adjacent
  funext i
  rcases Nat.lt_or_ge i start with before | low
  · rw [storeOutside _ (by omega), storeOutside _ (by omega), storeOutside _ (by omega)]
  rcases Nat.lt_or_ge i (start + first.length) with inFirst | past
  · rw [storeOutside _ (by omega), storeInside _ low inFirst,
      storeInside _ low (by rw [List.length_append]; omega), List.getD_append _ _ _ _ (by omega)]
  rcases Nat.lt_or_ge i (start + first.length + rest.length) with inRest | beyond
  · rw [storeInside _ past inRest, storeInside _ low (by rw [List.length_append]; omega),
      List.getD_append_right _ _ _ _ (by omega), Nat.sub_sub]
  · rw [storeOutside _ (by omega), storeOutside _ (by omega),
      storeOutside _ (by rw [List.length_append]; omega)]

theorem flatMapLength {f : Nat → List UInt8} {width : Nat} (sized : ∀ i, (f i).length = width) (n : Nat) :
    ((List.range n).flatMap f).length = n * width := by
  induction n with
  | zero => rw [Nat.zero_mul]; rfl
  | succ n ih =>
    rw [List.range_succ, List.flatMap_append, List.length_append, ih, List.flatMap_singleton, sized,
      Nat.succ_mul]

theorem storeLoop (buffer : Buffer) (start : Nat) {f : Nat → List UInt8} {width : Nat}
    (sized : ∀ i, (f i).length = width) (n : Nat) :
    loop n (fun i b => storeBytes b (start + i * width) (f i)) buffer =
      storeBytes buffer start ((List.range n).flatMap f) := by
  induction n with
  | zero => exact (storeNothing buffer start).symm
  | succ n ih =>
    rw [loopSucc, ih, storeAppend _ _ (by rw [flatMapLength sized]), List.range_succ, List.flatMap_append,
      List.flatMap_singleton]

def load : Nat → Buffer → Nat → Nat
  | 0, _, _ => 0
  | width + 1, buffer, start => (buffer start).toNat + 256 * load width buffer (start + 1)

def Holds (buffer : Buffer) (start : Nat) (bytes : List UInt8) : Prop :=
  ∀ i < bytes.length, buffer (start + i) = bytes.getD i 0

instance (buffer : Buffer) (start : Nat) (bytes : List UInt8) : Decidable (Holds buffer start bytes) :=
  inferInstanceAs (Decidable (∀ i < bytes.length, buffer (start + i) = bytes.getD i 0))

theorem holdsBeside {buffer other : Buffer} {start : Nat} {bytes : List UInt8} (holds : Holds buffer start bytes) :
    Holds other start bytes ↔ ∀ i < bytes.length, other (start + i) = buffer (start + i) := by
  constructor
  · exact fun also_ i inside => (also_ i inside).trans (holds i inside).symm
  · exact fun same i inside => (same i inside).trans (holds i inside)

theorem holdsStored (buffer : Buffer) (start : Nat) (bytes : List UInt8) :
    Holds (storeBytes buffer start bytes) start bytes := by
  intro i inside
  rw [storeInside buffer (Nat.le_add_right start i) (Nat.add_lt_add_left inside start), Nat.add_sub_cancel_left]

theorem holdsCons {buffer : Buffer} {start : Nat} {byte : UInt8} {bytes : List UInt8} :
    Holds buffer start (byte :: bytes) ↔ buffer start = byte ∧ Holds buffer (start + 1) bytes := by
  constructor
  · intro holds
    refine ⟨holds 0 (Nat.zero_lt_succ _),fun i inside => ?_⟩
    have next := holds (i + 1) (Nat.succ_lt_succ inside)
    rw [List.getD_cons_succ, ← Nat.add_assoc, Nat.add_right_comm] at next
    exact next
  · rintro ⟨first,rest⟩ i inside
    cases i with
    | zero => exact first
    | succ i =>
      rw [List.getD_cons_succ, ← Nat.add_assoc, Nat.add_right_comm]
      exact rest i (Nat.lt_of_succ_lt_succ inside)

theorem holdsAppend {buffer : Buffer} {start : Nat} {first rest : List UInt8} :
    Holds buffer start (first ++ rest) ↔ Holds buffer start first ∧ Holds buffer (start + first.length) rest := by
  induction first generalizing start with
  | nil => exact ⟨fun holds => ⟨fun i inside => absurd inside (Nat.not_lt_zero i),holds⟩,And.right⟩
  | cons byte first ih =>
    have further : start + 1 + first.length = start + (byte :: first).length := by
      rw [List.length_cons]
      omega
    rw [List.cons_append, holdsCons, holdsCons, ih, further, and_assoc]

theorem loadHolds {width : Nat} {buffer : Buffer} {start value : Nat} (small : value < 256 ^ width) :
    load width buffer start = value ↔ Holds buffer start (littleEndian width value) := by
  induction width generalizing start value with
  | zero =>
    rw [Nat.pow_zero, Nat.lt_one_iff] at small
    exact ⟨fun _ i inside => absurd inside (Nat.not_lt_zero i),fun _ => small.symm⟩
  | succ width ih =>
    have rest : value / 256 < 256 ^ width := by
      rw [Nat.pow_succ, Nat.mul_comm] at small
      exact Nat.div_lt_of_lt_mul small
    have byte := (buffer start).toNat_lt
    rw [littleEndian, holdsCons, ← ih rest, load, ← UInt8.toNat_inj, UInt8.toNat_ofNat']
    omega

theorem loadLt (width : Nat) (buffer : Buffer) (start : Nat) : load width buffer start < 256 ^ width := by
  induction width generalizing start with
  | zero => exact Nat.zero_lt_one
  | succ width ih =>
    have byte := (buffer start).toNat_lt
    have rest := ih (start + 1)
    rw [load, Nat.pow_succ]
    omega

inductive Short where
  | refused
  | empty
  deriving DecidableEq, Repr

structure Record (size : UInt32) where
  content : List UInt8
  filled : content.length = size.toNat
  short : Short

variable {σ : Type}

def answer (ok tooSmall : σ) {size : UInt32} (record : Record size) (capacity reported : UInt32)
    (buffer : Buffer) : σ × UInt32 × Buffer :=
  if size ≤ capacity then (ok,size,storeBytes buffer 0 record.content)
  else match record.short with
  | .refused => (tooSmall,reported,buffer)
  | .empty => (ok,0,buffer)

variable {ok tooSmall : σ} {size capacity : UInt32}

theorem answerFits (record : Record size) (fits : size ≤ capacity) (reported : UInt32) (buffer : Buffer) :
    answer ok tooSmall record capacity reported buffer = (ok,size,storeBytes buffer 0 record.content) :=
  if_pos fits

theorem answerRefused {content : List UInt8} (filled : content.length = size.toNat)
    (capacity reported : UInt32) (buffer : Buffer) :
    answer ok tooSmall ⟨content,filled,.refused⟩ capacity reported buffer =
      if capacity < size then (tooSmall,reported,buffer) else (ok,size,storeBytes buffer 0 content) := by
  by_cases small : capacity < size
  · rw [if_pos small, answer, if_neg (UInt32.not_le.mpr small)]
  · rw [if_neg small, answerFits _ (UInt32.not_lt.mp small)]

theorem answerEmpty {content : List UInt8} (filled : content.length = size.toNat)
    (capacity reported : UInt32) (buffer : Buffer) :
    answer ok tooSmall ⟨content,filled,.empty⟩ capacity reported buffer =
      if capacity < size then (ok,0,buffer) else (ok,size,storeBytes buffer 0 content) := by
  by_cases small : capacity < size
  · rw [if_pos small, answer, if_neg (UInt32.not_le.mpr small)]
  · rw [if_neg small, answerFits _ (UInt32.not_lt.mp small)]

theorem answerCases (ok tooSmall : σ) (record : Record size) (capacity reported : UInt32) (buffer : Buffer) :
    (size ≤ capacity ∧ answer ok tooSmall record capacity reported buffer =
      (ok,size,storeBytes buffer 0 record.content)) ∨
    answer ok tooSmall record capacity reported buffer = (tooSmall,reported,buffer) ∨
    answer ok tooSmall record capacity reported buffer = (ok,0,buffer) := by
  by_cases fits : size ≤ capacity
  · exact .inl ⟨fits,answerFits record fits reported buffer⟩
  · unfold answer
    rw [if_neg fits]
    cases record.short with
    | refused => exact .inr (.inl rfl)
    | empty => exact .inr (.inr rfl)

theorem answerBounded (record : Record size) {capacity reported : UInt32} {buffer : Buffer}
    (apart : tooSmall ≠ ok) (succeeded : (answer ok tooSmall record capacity reported buffer).1 = ok) :
    (answer ok tooSmall record capacity reported buffer).2.1 ≤ capacity ∧
      ∀ i, (answer ok tooSmall record capacity reported buffer).2.1.toNat ≤ i →
        (answer ok tooSmall record capacity reported buffer).2.2 i = buffer i := by
  rcases answerCases ok tooSmall record capacity reported buffer with
    ⟨fits,same⟩ | same | same <;> rw [same] at succeeded ⊢
  · refine ⟨fits,fun i beyond => storeOutside _ (.inr ?_)⟩
    rw [Nat.zero_add, record.filled]
    exact beyond
  · exact absurd succeeded apart
  · exact ⟨UInt32.zero_le,fun i _ => rfl⟩

theorem answerFailed (record : Record size) {capacity reported : UInt32} {buffer : Buffer}
    (failed : (answer ok tooSmall record capacity reported buffer).1 ≠ ok) :
    answer ok tooSmall record capacity reported buffer = (tooSmall,reported,buffer) := by
  rcases answerCases ok tooSmall record capacity reported buffer with
    ⟨_,same⟩ | same | same
  · exact absurd (by rw [same]) failed
  · exact same
  · exact absurd (by rw [same]) failed

variable {κ β : Type} [DecidableEq κ]

def switch (default : β) (k : κ) : List (List κ × β) → β
  | [] => default
  | (labels,body) :: cases => if k ∈ labels then body else switch default k cases

def labelsOf (cases : List (List κ × β)) : List κ := cases.flatMap Prod.fst

theorem switchDefault {default : β} {k : κ} {cases : List (List κ × β)} (missing : k ∉ labelsOf cases) :
    switch default k cases = default := by
  induction cases with
  | nil => rfl
  | cons c cases ih =>
    rw [labelsOf, List.flatMap_cons, List.mem_append, not_or] at missing
    rw [switch, if_neg missing.1]
    exact ih missing.2

theorem switchOutside {default : β} {k : κ} {cases : List (List κ × β)} {labels : List κ}
    (missing : k ∉ labels) (known : (labelsOf cases).all (fun label => decide (label ∈ labels)) = true) :
    switch default k cases = default := by
  refine switchDefault fun member => missing ?_
  rw [List.all_eq_true] at known
  exact of_decide_eq_true (known k member)

end ReacJack.BufferedRecords
