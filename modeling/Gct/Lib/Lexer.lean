/-
# Scanners

A scanner is a machine with states.  In each step it looks at its input, passes a part of it and goes to
another state, perhaps with a token; or it stops.  A step need not pass anything, as when a character
is only looked at, so every scanner comes with a size that each step makes smaller.

The size is enough fuel for a whole run, so `tokens` and `rest` have the equations of the loop that they are
(`tokens_of_stop`, `tokens_of_step`, `rest_of_stop`, `rest_of_step`) and nothing has to be said about fuel where they
are used.
-/
import Mathlib.Tactic.Common

/-- A scanner with states `σ` that reads `α` and makes tokens `τ`. -/
structure Lexer (σ α τ : Type) where
  /-- The token of the step, if there is one, the next state and the rest of the input. -/
  step : σ → List α → Option (Option τ × σ × List α)
  size : σ → List α → Nat
  size_lt : ∀ {s input t s' rest}, step s input = some (t, s', rest) → size s' rest < size s input

namespace Lexer

variable {σ α τ : Type} (l : Lexer σ α τ)

def run : Nat → σ → List α → List τ
  | 0, _, _ => []
  | fuel + 1, s, input =>
    match l.step s input with
    | none => []
    | some (t, s', rest) => t.toList ++ run fuel s' rest

/-- All tokens of the input. -/
def tokens (s : σ) (input : List α) : List τ := l.run (l.size s input) s input

def runRest : Nat → σ → List α → List α
  | 0, _, input => input
  | fuel + 1, s, input =>
    match l.step s input with
    | none => input
    | some (_, s', rest) => runRest fuel s' rest

/-- The input that is left when the scanner stops. -/
def rest (s : σ) (input : List α) : List α := l.runRest (l.size s input) s input

variable {l} {s s' : σ} {input input' : List α} {t : Option τ}

/-- An input of size 0 is at its end. -/
theorem step_eq_none (h : l.size s input = 0) : l.step s input = none := by
  cases hstep : l.step s input with
  | none => rfl
  | some r => exact absurd (l.size_lt hstep) (by omega)

/-- More fuel than the size makes no difference. -/
theorem run_of_le : ∀ {fuel : Nat} {s : σ} {input : List α}, l.size s input ≤ fuel → ∀ n,
    l.run (fuel + n) s input = l.run fuel s input ∧ l.runRest (fuel + n) s input = l.runRest fuel s input := by
  intro fuel
  induction fuel with
  | zero =>
    intro s input hsize n
    have hstop := step_eq_none (Nat.le_zero.mp hsize)
    cases n with
    | zero => exact ⟨rfl, rfl⟩
    | succ n => rw [Nat.zero_add, run, run, runRest, runRest, hstop]; exact ⟨rfl, rfl⟩
  | succ fuel ih =>
    intro s input hsize n
    rw [Nat.add_right_comm, run, run, runRest, runRest]
    cases hstep : l.step s input with
    | none => exact ⟨rfl, rfl⟩
    | some r =>
      have hlt : l.size r.2.1 r.2.2 < l.size s input := l.size_lt hstep
      obtain ⟨hrun, hrest⟩ := ih (Nat.le_of_lt_succ (Nat.lt_of_lt_of_le hlt hsize)) n
      exact ⟨congrArg (r.1.toList ++ ·) hrun, hrest⟩

theorem tokens_of_stop (h : l.step s input = none) : l.tokens s input = [] := by
  rw [tokens]
  cases l.size s input with
  | zero => rfl
  | succ n => rw [run, h]

theorem tokens_of_step (h : l.step s input = some (t, s', input')) :
    l.tokens s input = t.toList ++ l.tokens s' input' := by
  obtain ⟨n, hfuel⟩ := Nat.exists_eq_add_of_lt (l.size_lt h)
  rw [tokens, hfuel, run, h]
  exact congrArg (t.toList ++ ·) (run_of_le (Nat.le_refl _) n).1

theorem rest_of_stop (h : l.step s input = none) : l.rest s input = input := by
  rw [rest]
  cases l.size s input with
  | zero => rfl
  | succ n => rw [runRest, h]

theorem rest_of_step (h : l.step s input = some (t, s', input')) : l.rest s input = l.rest s' input' := by
  obtain ⟨n, hfuel⟩ := Nat.exists_eq_add_of_lt (l.size_lt h)
  rw [rest, hfuel, runRest, h]
  exact (run_of_le (Nat.le_refl _) n).2

/-- What a scanner finds is what its first step and what follows make of the input. -/
theorem tokens_congr (h : l.step s input = l.step s input') : l.tokens s input = l.tokens s input' := by
  cases hstep : l.step s input' with
  | none => rw [tokens_of_stop hstep, tokens_of_stop (h.trans hstep)]
  | some r => rw [tokens_of_step hstep, tokens_of_step (h.trans hstep)]

end Lexer
