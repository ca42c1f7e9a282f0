import Mathlib

/-!
# Machines

A machine is a partial step function: an input is refused, or it leads to the
next state. What the environment decides (a crash, a failed write, the order of
messages) is part of the input, so a run is a list of inputs. Invariants are
proved of the runs all of whose steps meet a condition on input and state.
-/

set_option autoImplicit false

namespace Floofclaw.Lib

variable {σ ι : Type}

/-- The state a list of inputs leads to; `none` when one of them is refused. -/
def exec (step : σ → ι → Option σ) (s : σ) : List ι → Option σ
  | [] => some s
  | i :: is => (step s i).bind fun s' => exec step s' is

/-- The runs from a state whose steps all meet the condition. -/
inductive Run (step : σ → ι → Option σ) (ok : σ → ι → Prop) (s : σ) : List ι → σ → Prop
  | nil : Run step ok s [] s
  | snoc {is : List ι} {s' s'' : σ} {i : ι} (h : Run step ok s is s') (hok : ok s' i) (hstep : step s' i = some s'') :
    Run step ok s (is ++ [i]) s''

/-- What holds at the start and is kept by every step that meets the condition holds in every state reached. -/
theorem Run.invariant {step : σ → ι → Option σ} {ok : σ → ι → Prop} {inv : σ → Prop} {s s' : σ} {is : List ι}
    (hrun : Run step ok s is s') (hinit : inv s)
    (hstep : ∀ s i s', inv s → ok s i → step s i = some s' → inv s') : inv s' := by
  induction hrun with
  | nil => exact hinit
  | snoc _ hok hs ih => exact hstep _ _ _ ih hok hs

/-- A run may be met step by step from the front. -/
theorem Run.cons {step : σ → ι → Option σ} {ok : σ → ι → Prop} {s s' s'' : σ} {i : ι} {is : List ι} (hok : ok s i)
    (hstep : step s i = some s') (hrun : Run step ok s' is s'') : Run step ok s (i :: is) s'' := by
  induction hrun with
  | nil => exact .snoc .nil hok hstep
  | snoc _ hok' hs ih => exact .snoc ih hok' hs

theorem exec_invariant {step : σ → ι → Option σ} {inv : σ → Prop} {s s' : σ} {is : List ι} (h : exec step s is = some s')
    (hinit : inv s) (hstep : ∀ s i s', inv s → step s i = some s' → inv s') : inv s' := by
  induction is generalizing s with
  | nil => exact Option.some.inj h ▸ hinit
  | cons i is ih =>
    obtain ⟨s1, hs, hrest⟩ := Option.bind_eq_some_iff.mp h
    exact ih hrest (hstep _ _ _ hinit hs)

/-- Executes the inputs and checks the condition before each. -/
def checkRun (step : σ → ι → Option σ) (ok : σ → ι → Prop) [∀ s i, Decidable (ok s i)] (s : σ) : List ι → Option σ
  | [] => some s
  | i :: is => if ok s i then (step s i).bind fun s' => checkRun step ok s' is else none

theorem Run.of_check {step : σ → ι → Option σ} {ok : σ → ι → Prop} [∀ s i, Decidable (ok s i)] {s s' : σ} {is : List ι}
    (h : checkRun step ok s is = some s') : Run step ok s is s' := by
  induction is generalizing s with
  | nil =>
    rw [checkRun, Option.some.injEq] at h
    exact h ▸ .nil
  | cons i is ih =>
    rw [checkRun] at h
    split at h
    · rename_i hok
      obtain ⟨s1, hstep, hrest⟩ := Option.bind_eq_some_iff.mp h
      exact .cons hok hstep (ih hrest)
    · simp at h

/-- A checked run is an execution. -/
theorem exec_of_check {step : σ → ι → Option σ} {ok : σ → ι → Prop} [∀ s i, Decidable (ok s i)] {s s' : σ} {is : List ι}
    (h : checkRun step ok s is = some s') : exec step s is = some s' := by
  induction is generalizing s with
  | nil => exact h
  | cons i is ih =>
    rw [checkRun] at h
    split at h
    · obtain ⟨s1, hstep, hrest⟩ := Option.bind_eq_some_iff.mp h
      rw [exec, hstep]
      exact ih hrest
    · simp at h

end Floofclaw.Lib
