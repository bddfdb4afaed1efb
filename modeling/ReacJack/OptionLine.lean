import Mathlib.Data.List.Basic

/-! A command line of options, some with an argument of their own, read from left to
right. A program's own `if` chain says what each option does. -/
namespace ReacJack.OptionLine

abbrev Argument := List Char

variable {σ ε : Type}

inductive Takes (σ ε : Type) where
  | alone (set : σ → σ)
  | argument (set : σ → Argument → Except ε σ)

/-- `usage` is what an unknown option ends with, and one whose argument is missing. -/
def read (option : Argument → Option (Takes σ ε)) (usage : ε) : σ → List Argument → Except ε σ
  | s, [] => .ok s
  | s, name :: rest =>
    match option name with
    | none => .error usage
    | some (.alone set) => read option usage (set s) rest
    | some (.argument set) =>
      match rest with
      | [] => .error usage
      | value :: rest =>
        match set s value with
        | .ok s => read option usage s rest
        | .error refusal => .error refusal

abbrev Setting := Argument × Option Argument

def words (setting : Setting) : List Argument := setting.1 :: setting.2.toList

def apply (option : Argument → Option (Takes σ ε)) (usage : ε) (s : σ) (setting : Setting) : Except ε σ :=
  match option setting.1, setting.2 with
  | some (.alone set), none => .ok (set s)
  | some (.argument set), some value => set s value
  | _, _ => .error usage

def lastArgument (name : Argument) : List Setting → Option Argument
  | [] => none
  | setting :: rest => (lastArgument name rest).or (if setting.1 = name then setting.2 else none)

theorem lastMember {name text : Argument} {settings : List Setting} (last : lastArgument name settings = some text) :
    (name,some text) ∈ settings := by
  induction settings with
  | nil => contradiction
  | cons setting rest ih =>
    rcases Option.or_eq_some_iff.mp last with later | ⟨_,here⟩
    · exact List.mem_cons_of_mem _ (ih later)
    · split at here
      · rename_i named
        rw [← named, ← here]
        exact List.mem_cons_self
      · contradiction

variable {option : Argument → Option (Takes σ ε)} {usage : ε}

theorem settingsCons {s t : σ} {setting : Setting} {settings : List Setting}
    (applied : (setting :: settings).foldlM (apply option usage) s = .ok t) :
    ∃ next, apply option usage s setting = .ok next ∧ settings.foldlM (apply option usage) next = .ok t := by
  rw [List.foldlM_cons] at applied
  cases first : apply option usage s setting with
  | error refusal =>
    rw [first] at applied
    contradiction
  | ok next =>
    rw [first] at applied
    exact ⟨next,rfl,applied⟩

theorem settingsAll {P : Setting → Prop} (one : ∀ s setting t, apply option usage s setting = .ok t → P setting)
    {settings : List Setting} {s t : σ} (applied : settings.foldlM (apply option usage) s = .ok t) :
    ∀ setting ∈ settings, P setting := by
  induction settings generalizing s with
  | nil => exact fun _ member => absurd member List.not_mem_nil
  | cons setting rest ih =>
    obtain ⟨next,first,later⟩ := settingsCons applied
    intro other member
    rcases List.mem_cons.mp member with rfl | member
    · exact one s _ next first
    · exact ih later other member

theorem settingsLast {β : Type} (get : σ → β) (name : Argument) (f : Argument → β)
    (one : ∀ s setting t, apply option usage s setting = .ok t →
      (∃ text, setting = (name,some text) ∧ get t = f text) ∨ setting.1 ≠ name ∧ get t = get s)
    {settings : List Setting} {s t : σ} (applied : settings.foldlM (apply option usage) s = .ok t) :
    get t = (lastArgument name settings).elim (get s) f := by
  induction settings generalizing s with
  | nil =>
    cases applied
    rfl
  | cons setting rest ih =>
    obtain ⟨next,first,later⟩ := settingsCons applied
    rw [ih later]
    cases last : lastArgument name rest with
    | some text => simp only [lastArgument, last, Option.some_or, Option.elim_some]
    | none =>
      rcases one s setting next first with ⟨text,rfl,set⟩ | ⟨other,same⟩
      · simp only [lastArgument, last, Option.none_or, if_true, Option.elim_some, Option.elim_none, set]
      · simp only [lastArgument, last, Option.none_or, if_neg other, Option.elim_none, same]

theorem settingsAny (get : σ → Bool) (name : Argument)
    (one : ∀ s setting t, apply option usage s setting = .ok t →
      setting.1 = name ∧ get t = true ∨ setting.1 ≠ name ∧ get t = get s)
    {settings : List Setting} {s t : σ} (applied : settings.foldlM (apply option usage) s = .ok t) :
    get t = (get s || settings.any (fun setting => setting.1 = name)) := by
  induction settings generalizing s with
  | nil =>
    cases applied
    exact (Bool.or_false _).symm
  | cons setting rest ih =>
    obtain ⟨next,first,later⟩ := settingsCons applied
    rw [ih later, List.any_cons]
    rcases one s setting next first with ⟨named,set⟩ | ⟨other,same⟩
    · simp only [set, named, decide_true, Bool.true_or, Bool.or_true]
    · simp only [same, other, decide_false, Bool.false_or]

theorem readSetting {s t : σ} {setting : Setting} (applied : apply option usage s setting = .ok t)
    (rest : List Argument) : read option usage s (words setting ++ rest) = read option usage t rest := by
  obtain ⟨name,value⟩ := setting
  simp only [apply] at applied
  split at applied
  · rename_i known
    cases applied
    simp only [words, Option.toList_none, List.cons_append, List.nil_append, read, known]
  · rename_i known
    simp only [words, Option.toList_some, List.cons_append, List.nil_append, read, known, applied]
  · contradiction

theorem readSettings {s t : σ} {line : List Argument} (accepted : read option usage s line = .ok t) :
    ∃ settings : List Setting, line = settings.flatMap words ∧ settings.foldlM (apply option usage) s = .ok t := by
  fun_induction read option usage s line with
  | case1 s => exact ⟨[],rfl,accepted⟩
  | case2 s name rest unknown => contradiction
  | case3 s name rest set known ih =>
    obtain ⟨settings,rfl,applied⟩ := ih accepted
    refine ⟨(name,none) :: settings,rfl,?_⟩
    rw [List.foldlM_cons, apply, known]
    exact applied
  | case4 s name set known => contradiction
  | case5 s name set known value rest t' done ih =>
    obtain ⟨settings,rfl,applied⟩ := ih accepted
    refine ⟨(name,some value) :: settings,rfl,?_⟩
    rw [List.foldlM_cons, apply, known]
    simp only [done]
    exact applied
  | case6 s name set known value rest refusal failed => contradiction

theorem readIff {s t : σ} {line : List Argument} : read option usage s line = .ok t ↔
    ∃ settings : List Setting, line = settings.flatMap words ∧ settings.foldlM (apply option usage) s = .ok t := by
  refine ⟨readSettings,?_⟩
  rintro ⟨settings,rfl,applied⟩
  induction settings generalizing s with
  | nil => exact applied
  | cons setting settings ih =>
    obtain ⟨next,first,later⟩ := settingsCons applied
    rw [List.flatMap_cons, readSetting first]
    exact ih later

end ReacJack.OptionLine
