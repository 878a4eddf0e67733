import Mathlib.Data.List.Basic

/-!
# Runs of labelled transition systems

A system is a relation `step s a t`: action `a` may take state `s` to state `t`. A run is a
finite sequence of such steps, and what each step keeps, every run keeps. Where the step is a
partial function, `exec` computes the run, so that a schedule can be evaluated.
-/

namespace Runs

variable {σ α : Type*}

/-- `Run step s as t`: the actions `as`, in order, lead from `s` to `t`. -/
inductive Run (step : σ → α → σ → Prop) (s : σ) : List α → σ → Prop
  | nil : Run step s [] s
  | snoc {t u : σ} {as : List α} {a : α} :
      Run step s as t → step t a u → Run step s (as ++ [a]) u

section Relation

variable {step : σ → α → σ → Prop}

theorem Run.single {s t : σ} {a : α} (h : step s a t) : Run step s [a] t :=
  Run.snoc Run.nil h

theorem Run.trans {s t u : σ} {as bs : List α} (hs : Run step s as t) (ht : Run step t bs u) :
    Run step s (as ++ bs) u := by
  induction ht with
  | nil => simpa using hs
  | snoc _ hstep ih =>
      rw [← List.append_assoc]
      exact Run.snoc ih hstep

theorem Run.cons {s t u : σ} {a : α} {as : List α} (h : step s a t) (ht : Run step t as u) :
    Run step s (a :: as) u :=
  (Run.single h).trans ht

/-- A run of one relation is a run of any that has its steps. -/
theorem Run.mono {step' : σ → α → σ → Prop} (hstep : ∀ s a t, step s a t → step' s a t)
    {s t : σ} {as : List α} (h : Run step s as t) : Run step' s as t := by
  induction h with
  | nil => exact Run.nil
  | snoc _ ha ih => exact Run.snoc ih (hstep _ _ _ ha)

/-- What every step keeps, every run keeps. -/
theorem Run.invariant {I : σ → Prop} (hstep : ∀ s a t, I s → step s a t → I t)
    {s t : σ} {as : List α} (h : Run step s as t) (hs : I s) : I t := by
  induction h with
  | nil => exact hs
  | snoc _ ha ih => exact hstep _ _ _ ih ha

/-- As `Run.invariant`, for what only the steps of actions in `P` keep. -/
theorem Run.invariant_of_forall {I : σ → Prop} {P : α → Prop}
    (hstep : ∀ s a t, P a → I s → step s a t → I t)
    {s t : σ} {as : List α} (h : Run step s as t) (hP : ∀ a ∈ as, P a) (hs : I s) : I t := by
  induction h with
  | nil => exact hs
  | @snoc t u as a _ ha ih =>
      have hmem : ∀ b ∈ as, P b := fun b hb => hP b (List.mem_append_left _ hb)
      exact hstep _ _ _ (hP a (by simp)) (ih hmem) ha

end Relation

section Exec

variable (f : σ → α → Option σ)

/-- The run of a partial step function, if every action is enabled when it comes. -/
def exec : σ → List α → Option σ
  | s, [] => some s
  | s, a :: as => (f s a).bind fun t => exec t as

/-- The relation of a partial step function. -/
def Steps (s : σ) (a : α) (t : σ) : Prop := f s a = some t

variable {f}

theorem run_of_exec {s t : σ} {as : List α} (h : exec f s as = some t) :
    Run (Steps f) s as t := by
  induction as generalizing s with
  | nil =>
      obtain rfl : s = t := by simpa [exec] using h
      exact Run.nil
  | cons a as ih =>
      obtain ⟨u, hu, ht⟩ := Option.bind_eq_some_iff.mp h
      exact Run.cons hu (ih ht)

/-- A computed run of which every step passes a check. -/
theorem run_of_exec_checked {check : σ → α → Bool} {P : σ → α → Prop}
    (hP : ∀ s a, check s a = true → P s a) {s t : σ} {as : List α}
    (h : exec (fun s a => if check s a then f s a else none) s as = some t) :
    Run (fun s a t => f s a = some t ∧ P s a) s as t := by
  induction as generalizing s with
  | nil =>
      obtain rfl : s = t := by simpa [exec] using h
      exact Run.nil
  | cons a as ih =>
      obtain ⟨u, hu, ht⟩ := Option.bind_eq_some_iff.mp h
      obtain ⟨hcheck, hu⟩ := Option.ite_none_right_eq_some.mp hu
      exact Run.cons ⟨hu, hP s a hcheck⟩ (ih ht)

theorem exec_append (s : σ) (as bs : List α) :
    exec f s (as ++ bs) = (exec f s as).bind fun t => exec f t bs := by
  induction as generalizing s with
  | nil => rfl
  | cons a as ih =>
      cases hs : f s a with
      | none => simp [exec, hs]
      | some t => simpa [exec, hs] using ih t

theorem exec_of_run {s t : σ} {as : List α} (h : Run (Steps f) s as t) :
    exec f s as = some t := by
  induction h with
  | nil => rfl
  | snoc _ ha ih =>
      rw [exec_append, ih]
      simp [exec, show f _ _ = some _ from ha]

/-- What every enabled action keeps, every computed run keeps. -/
theorem exec_invariant {I : σ → Prop} (hstep : ∀ s a t, I s → f s a = some t → I t)
    {s t : σ} {as : List α} (h : exec f s as = some t) (hs : I s) : I t :=
  (run_of_exec h).invariant hstep hs

end Exec

end Runs
