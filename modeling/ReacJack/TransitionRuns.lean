import Mathlib.Data.Option.Basic
import Mathlib.Data.List.Basic

/-! Runs of a partial step function under a chosen schedule of labels. A schedule
whose next label is not enabled has no run. The rules carry an invariant from
one step to every run, also when it is only wanted while a side condition lasts
that the future cannot restore. -/
namespace ReacJack.TransitionRuns

variable {σ ι : Type} {step : σ → ι → Option σ}

def run (step : σ → ι → Option σ) : σ → List ι → Option σ
  | s, [] => some s
  | s, label :: rest => (step s label).bind (fun next => run step next rest)

theorem runCons {s final : σ} {label rest} (h : run step s (label :: rest) = some final) :
    ∃ next, step s label = some next ∧ run step next rest = some final :=
  Option.bind_eq_some_iff.mp h

theorem runAppend {s middle final : σ} {before after}
    (first : run step s before = some middle) (second : run step middle after = some final) :
    run step s (before ++ after) = some final := by
  induction before generalizing s with
  | nil =>
    cases Option.some.inj first
    exact second
  | cons label rest ih =>
    obtain ⟨next,taken,later⟩ := runCons first
    simp only [List.cons_append, run, taken, Option.bind_some]
    exact ih later

theorem runSplit {s final : σ} {before after} (h : run step s (before ++ after) = some final) :
    ∃ middle, run step s before = some middle ∧ run step middle after = some final := by
  induction before generalizing s with
  | nil => exact ⟨s,rfl,h⟩
  | cons label rest ih =>
    obtain ⟨next,taken,later⟩ := runCons h
    obtain ⟨middle,reached,rest_⟩ := ih later
    exact ⟨middle,by simp only [run, taken, Option.bind_some, reached],rest_⟩

def Reaches (step : σ → ι → Option σ) (s s' : σ) : Prop := ∃ schedule, run step s schedule = some s'

theorem reachesHere (s : σ) : Reaches step s s := ⟨[],rfl⟩

theorem reachesStep {s next s' : σ} {l : ι} (taken : step s l = some next)
    (later : Reaches step next s') : Reaches step s s' := by
  obtain ⟨schedule,reached⟩ := later
  exact ⟨l :: schedule,by simp only [run, taken, Option.bind_some, reached]⟩

theorem reachesTrans {s middle s' : σ} (before : Reaches step s middle) (later : Reaches step middle s') :
    Reaches step s s' := by
  obtain ⟨first,reached⟩ := before
  obtain ⟨second,reached'⟩ := later
  exact ⟨first ++ second,runAppend reached reached'⟩

theorem reachesThen {s next s' : σ} {l : ι} (before : Reaches step s next) (taken : step next l = some s') :
    Reaches step s s' := by
  obtain ⟨schedule,reached⟩ := before
  exact ⟨schedule ++ [l],runAppend reached (by simp only [run, taken, Option.bind_some])⟩

theorem runInvariant {I : σ → Prop} (keeps : ∀ s label next, I s → step s label = some next → I next)
    {s final : σ} {schedule} (start : I s) (h : run step s schedule = some final) : I final := by
  induction schedule generalizing s with
  | nil => exact Option.some.inj h ▸ start
  | cons label rest ih =>
    obtain ⟨next,taken,later⟩ := runCons h
    exact ih (keeps s label next start taken) later

theorem runInvariantWhile {I W : σ → Prop}
    (backward : ∀ s label next, step s label = some next → W next → W s)
    (keeps : ∀ s label next, I s → W next → step s label = some next → I next)
    {s final : σ} {schedule} (start : I s) (h : run step s schedule = some final) (while_ : W final) :
    I final := by
  -- The side condition `W` is only known of the last state; it must have held all the way because
  -- steps never establish it.
  have guarded : W final → I final := by
    refine runInvariant (I := fun t => W t → I t) ?_ (fun _ => start) h
    intro t label next inv taken holds
    exact keeps t label next (inv (backward t label next taken holds)) holds taken
  exact guarded while_

theorem foldSimulationWhile {τ : Type} {f : σ → ι → σ} {g : τ → ι → τ} {R : σ → τ → Prop} {W : σ → Prop}
    (backward : ∀ s label, W (f s label) → W s)
    (keeps : ∀ s t label, R s t → W (f s label) → R (f s label) (g t label))
    {s : σ} {t : τ} {schedule : List ι} (start : R s t) (while_ : W (schedule.foldl f s)) :
    R (schedule.foldl f s) (schedule.foldl g t) := by
  have early : ∀ (labels : List ι) (s : σ), W (labels.foldl f s) → W s := by
    intro labels
    induction labels with
    | nil => exact fun _ holds => holds
    | cons label rest back => exact fun s holds => backward s label (back (f s label) holds)
  induction schedule generalizing s t with
  | nil => exact start
  | cons label rest ih => exact ih (keeps s t label start (early rest _ while_)) while_

theorem runLifts {τ : Type} {g : τ → ι → Option τ} (f : τ → σ)
    (lifts : ∀ t label next, step (f t) label = some next → ∃ t', g t label = some t' ∧ f t' = next)
    {t : τ} {final : σ} {schedule : List ι} (h : run step (f t) schedule = some final) :
    ∃ t', run g t schedule = some t' ∧ f t' = final := by
  induction schedule generalizing t with
  | nil => exact ⟨t,rfl,Option.some.inj h⟩
  | cons label rest ih =>
    obtain ⟨next,taken,later⟩ := runCons h
    obtain ⟨t',lifted,rfl⟩ := lifts t label next taken
    obtain ⟨t'',reached,same⟩ := ih later
    exact ⟨t'',by simp only [run, lifted, Option.bind_some, reached],same⟩

theorem foldInvariant {f : σ → ι → σ} {I : σ → Prop} (keeps : ∀ s label, I s → I (f s label))
    {s : σ} {schedule : List ι} (start : I s) : I (schedule.foldl f s) := by
  induction schedule generalizing s with
  | nil => exact start
  | cons label rest ih => exact ih (keeps s label start)

end ReacJack.TransitionRuns
