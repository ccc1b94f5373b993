/-
# Predicates along a run

A run is a list of actions; an action may not come back, and then the run ends there.  `Along` asks a
predicate of every state and the action taken in it.  Two predicates that agree wherever an invariant holds
agree along every run (`along_congr`).
-/
import Mathlib.Data.List.Basic

namespace Gct.Runs

variable {σ α : Type*}

/-- `P` holds of every state of the run and of the action taken in it. -/
def Along (step : σ → α → Option σ) (P : σ → α → Prop) : σ → List α → Prop
  | _, [] => True
  | s, a :: actions => P s a ∧ ∀ s', step s a = some s' → Along step P s' actions

variable {step : σ → α → Option σ} {P Q A : σ → α → Prop} {Inv : σ → Prop}

theorem along_cons {s s' : σ} {a : α} {actions : List α} (hstep : step s a = some s') :
    Along step P s (a :: actions) ↔ P s a ∧ Along step P s' actions := by
  constructor
  · exact fun ⟨hp, hrest⟩ => ⟨hp, hrest s' hstep⟩
  · rintro ⟨hp, hrest⟩
    refine ⟨hp, fun t ht => ?_⟩
    rw [hstep, Option.some.injEq] at ht
    exact ht ▸ hrest

/-- **Where an assumption `A` holds along the run, what is equivalent under an invariant is equivalent along
the run.** -/
theorem along_congr (hstep : ∀ {s a s'}, Inv s → step s a = some s' → Inv s')
    (hiff : ∀ {s a}, Inv s → A s a → (P s a ↔ Q s a)) (actions : List α) {s : σ} (hinv : Inv s)
    (hassume : Along step A s actions) : Along step P s actions ↔ Along step Q s actions := by
  induction actions generalizing s with
  | nil => exact Iff.rfl
  | cons a actions ih =>
    obtain ⟨ha, hrest⟩ := hassume
    refine and_congr (hiff hinv ha) (forall_congr' fun s' => ?_)
    refine forall_congr' fun hs' => ?_
    exact ih (hstep hinv hs') (hrest s' hs')

end Gct.Runs
