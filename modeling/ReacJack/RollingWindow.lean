import ReacJack.BufferLoops
import Mathlib.Data.List.Rotate
import Mathlib.Data.Rat.Defs
import Mathlib.Algebra.Order.Ring.Rat

/-! A circle of `n` slots that values are written into one after the other. Read from
the slot that is written next, it holds the last `n` values in their order. -/
namespace ReacJack.RollingWindow
open BufferLoops

variable {α : Type}

def slots (n : Nat) (buffer : Nat → α) : List α := (List.range n).map buffer

def recent (n : Nat) (values : List α) : List α := values.drop (values.length - n)

def latest (n : Nat) (fresh : α) (values : List α) : List α :=
  List.replicate (n - values.length) fresh ++ recent n values

theorem latestEq (n : Nat) (fresh : α) (values : List α) :
    latest n fresh values = (List.replicate n fresh ++ values).drop values.length := by
  simp only [latest, recent, List.drop_append, List.drop_replicate, List.length_replicate]

def Rolls (n : Nat) (fresh : α) (values : List α) (buffer : Nat → α) : Prop :=
  ∀ k < n, (List.replicate n fresh ++ values)[values.length + k]? = some (buffer ((values.length + k) % n))

theorem rollsFresh (n : Nat) (fresh : α) : Rolls n fresh [] (fun _ => fresh) := by
  intro k inside
  simp [inside]

theorem rollsCongr {n : Nat} {fresh : α} {values : List α} {buffer buffer' : Nat → α}
    (rolls : Rolls n fresh values buffer) (same : ∀ i < n, buffer' i = buffer i) :
    Rolls n fresh values buffer' := by
  intro k inside
  rw [same _ (Nat.mod_lt _ (by omega))]
  exact rolls k inside

theorem rollsMore {n : Nat} {fresh : α} {values : List α} {buffer : Nat → α}
    (rolls : Rolls n fresh values buffer) (value : α) :
    Rolls n fresh (values ++ [value]) (put buffer (values.length % n) value) := by
  intro k inside
  simp only [List.length_append, List.length_cons, List.length_nil, ← List.append_assoc]
  by_cases last : k + 1 = n
  · have at_ : values.length + (0 + 1) + k = (List.replicate n fresh ++ values).length := by
      simp only [List.length_append, List.length_replicate]
      omega
    have slot : (values.length + (0 + 1) + k) % n = values.length % n := by
      rw [show values.length + (0 + 1) + k = values.length + n by omega, Nat.add_mod_right]
    rw [at_, List.getElem?_concat_length, ← at_, slot, putHere]
  · have before : values.length + (0 + 1) + k < (List.replicate n fresh ++ values).length := by
      simp only [List.length_append, List.length_replicate]
      omega
    have slot : (values.length + (0 + 1) + k) % n ≠ values.length % n := by
      intro same
      have := Nat.sub_mod_eq_zero_of_mod_eq same
      rw [show values.length + (0 + 1) + k - values.length = k + 1 by omega, Nat.mod_eq_of_lt (by omega)] at this
      omega
    rw [List.getElem?_append_left before, putElsewhere _ _ slot,
      show values.length + (0 + 1) + k = values.length + (k + 1) by omega]
    exact rolls (k + 1) (by omega)

theorem rolled {n : Nat} {fresh : α} {values : List α} {buffer : Nat → α}
    (rolls : Rolls n fresh values buffer) : (slots n buffer).rotate values.length = latest n fresh values := by
  rw [latestEq]
  apply List.ext_getElem?
  intro k
  rw [List.getElem?_drop]
  rcases Nat.lt_or_ge k n with inside | outside
  · rw [List.getElem?_rotate (by simpa [slots] using inside), rolls k inside]
    have low : (values.length + k) % n < n := Nat.mod_lt _ (by omega)
    simp only [slots, List.length_map, List.length_range, Nat.add_comm k, List.getElem?_map,
      List.getElem?_range low, Option.map_some]
  · rw [List.getElem?_eq_none (by simpa [slots] using outside), List.getElem?_eq_none]
    simp only [List.length_append, List.length_replicate]
    omega

theorem foldSlots {β : Type} {n : Nat} {fresh : α} {values : List α} {buffer : Nat → α} (f : β → α → β)
    (commutes : ∀ b x y, f (f b x) y = f (f b y) x) (rolls : Rolls n fresh values buffer) (b : β) :
    (slots n buffer).foldl f b = (latest n fresh values).foldl f b := by
  rw [← rolled rolls]
  exact ((List.rotate_perm _ _).foldl_eq' (fun x _ y _ b => commutes b x y) b).symm

def loudest (values : List Rat) : Rat := values.foldl max 0

theorem loudestFrom (values : List Rat) {start : Rat} (positive : 0 ≤ start) :
    values.foldl max start = max start (loudest values) := by
  induction values generalizing start with
  | nil => exact (max_eq_left positive).symm
  | cons value rest ih =>
    simp only [loudest, List.foldl_cons]
    rw [ih (le_max_of_le_left positive), ih (le_max_left 0 value), ← max_assoc, ← max_assoc, max_eq_left positive]

theorem loudestPositive (values : List Rat) : 0 ≤ loudest values := by
  have from_ := loudestFrom values (le_refl (0 : Rat))
  exact max_eq_right_iff.mp from_.symm

theorem loudestAppend (first second : List Rat) :
    loudest (first ++ second) = max (loudest first) (loudest second) := by
  rw [loudest, List.foldl_append]
  exact loudestFrom second (loudestPositive first)

theorem loudestQuiet (n : Nat) : loudest (List.replicate n 0) = 0 := by
  induction n with
  | zero => rfl
  | succ n ih => exact ih

theorem loudestFlatMap (f : α → List Rat) (values : List α) :
    loudest (values.map (fun value => loudest (f value))) = loudest (values.flatMap f) := by
  induction values with
  | nil => rfl
  | cons value rest ih =>
    rw [List.flatMap_cons, loudestAppend, ← ih]
    exact loudestFrom _ (le_max_left 0 _) |>.trans (by rw [max_eq_right (loudestPositive _)])

theorem loudestSlots {n : Nat} {values : List α} {f : α → List Rat} {buffer : Nat → Rat}
    (rolls : Rolls n 0 (values.map (fun value => loudest (f value))) buffer) :
    loudest (slots n buffer) = loudest ((recent n values).flatMap f) := by
  rw [loudest, foldSlots max max_right_comm rolls 0]
  change loudest (latest _ _ _) = _
  rw [latest, loudestAppend, loudestQuiet, max_eq_right (loudestPositive _), recent, List.length_map,
    ← List.map_drop, loudestFlatMap, ← recent]

end ReacJack.RollingWindow
