import Mathlib.Logic.Function.Basic
import Mathlib.Data.Option.Basic

/-! Names for objects that outlive them. A name refers to at most one object;
removing it leaves the object to whoever has it open, and a new object never is
one that existed before. -/
namespace ReacJack.ObjectNames

variable {ν ο : Type} [DecidableEq ν]

structure NameTable (ν ο : Type) where
  refers : ν → Option Nat
  objects : Nat → ο
  next : Nat

def noNames (value : ο) : NameTable ν ο := ⟨fun _ => none,fun _ => value,0⟩

def unlink (t : NameTable ν ο) (name : ν) : NameTable ν ο :=
  {t with refers := Function.update t.refers name none}

def createExclusive (t : NameTable ν ο) (name : ν) (value : ο) : Option (Nat × NameTable ν ο) :=
  match t.refers name with
  | some _ => none
  | none => some (t.next, {
      refers := Function.update t.refers name (some t.next)
      objects := Function.update t.objects t.next value
      next := t.next + 1 })

def modify (t : NameTable ν ο) (object : Nat) (f : ο → ο) : NameTable ν ο :=
  {t with objects := Function.update t.objects object (f (t.objects object))}

@[simp] theorem unlinkSame (t : NameTable ν ο) (name : ν) : (unlink t name).refers name = none :=
  Function.update_self ..

@[simp] theorem unlinkObjects (t : NameTable ν ο) (name : ν) : (unlink t name).objects = t.objects := rfl

@[simp] theorem unlinkNext (t : NameTable ν ο) (name : ν) : (unlink t name).next = t.next := rfl

omit [DecidableEq ν] in
@[simp] theorem modifyRefers (t : NameTable ν ο) (object : Nat) (f : ο → ο) :
    (modify t object f).refers = t.refers := rfl

omit [DecidableEq ν] in
@[simp] theorem modifyNext (t : NameTable ν ο) (object : Nat) (f : ο → ο) :
    (modify t object f).next = t.next := rfl

omit [DecidableEq ν] in
@[simp] theorem modifySame (t : NameTable ν ο) (object : Nat) (f : ο → ο) :
    (modify t object f).objects object = f (t.objects object) := Function.update_self ..

omit [DecidableEq ν] in
theorem modifyOther (t : NameTable ν ο) {object other : Nat} (f : ο → ο) (apart : other ≠ object) :
    (modify t object f).objects other = t.objects other := Function.update_of_ne apart ..

omit [DecidableEq ν] in
theorem modifyTwice (t : NameTable ν ο) (object : Nat) (f g : ο → ο) :
    modify (modify t object f) object g = modify t object (fun o => g (f o)) := by
  simp only [modify, Function.update_self, Function.update_idem]

omit [DecidableEq ν] in
theorem modifySelf (t : NameTable ν ο) (object : Nat) : modify t object (fun o => o) = t := by
  simp only [modify, Function.update_eq_self]

theorem createdIs {t t' : NameTable ν ο} {name : ν} {value : ο} {object : Nat}
    (h : createExclusive t name value = some (object,t')) :
    object = t.next ∧ t' = {
      refers := Function.update t.refers name (some t.next)
      objects := Function.update t.objects t.next value
      next := t.next + 1 } := by
  unfold createExclusive at h
  split at h
  · cases h
  · cases Option.some.inj h
    exact ⟨rfl,rfl⟩

theorem createFree {t : NameTable ν ο} {name : ν} (free : t.refers name = none) (value : ο) :
    createExclusive t name value = some (t.next, {
      refers := Function.update t.refers name (some t.next)
      objects := Function.update t.objects t.next value
      next := t.next + 1 }) := by
  simp only [createExclusive, free]

def Closed (t : NameTable ν ο) : Prop := ∀ name object, t.refers name = some object → object < t.next

omit [DecidableEq ν] in
theorem noNamesClosed (value : ο) : Closed (noNames value : NameTable ν ο) := by
  intro name object refers
  cases refers

theorem unlinkClosed {t : NameTable ν ο} (closed : Closed t) (name : ν) : Closed (unlink t name) := by
  intro other object refers
  by_cases same : other = name
  · subst same
    rw [unlinkSame] at refers
    cases refers
  · simp only [unlink, Function.update_of_ne same] at refers
    exact closed other object refers

omit [DecidableEq ν] in
theorem modifyClosed {t : NameTable ν ο} (closed : Closed t) (object : Nat) (f : ο → ο) :
    Closed (modify t object f) := closed

theorem createClosed {t t' : NameTable ν ο} (closed : Closed t) {name : ν} {value : ο} {object : Nat}
    (h : createExclusive t name value = some (object,t')) : Closed t' := by
  obtain ⟨_,rfl⟩ := createdIs h
  intro other found refers
  by_cases same : other = name
  · subst same
    simp only [Function.update_self, Option.some.injEq] at refers
    simp only
    omega
  · simp only [Function.update_of_ne same] at refers
    have before := closed other found refers
    simp only
    omega

end ReacJack.ObjectNames
