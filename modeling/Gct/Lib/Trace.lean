/-
# Traces in which something comes first

In the trace of a system some events are allowed only after a certain one.  A trace is guarded if every
event of that kind stands behind the guard.  An extension keeps this if the guard is already there, or if
what is added is harmless.
-/
import Mathlib.Data.List.Basic

namespace Gct.Trace

open List

variable {α : Type*}

/-- Every event that is `late` stands behind `guard`. -/
def Guarded (guard : α) (late : α → Prop) (trace : List α) : Prop :=
  ∀ before event after, trace = before ++ event :: after → late event → guard ∈ before

variable {guard : α} {late : α → Prop} {trace new : List α}

theorem guarded_nil : Guarded guard late [] := by
  intro before event after h
  simp at h

theorem Guarded.of_append (h : Guarded guard late (trace ++ new)) : Guarded guard late trace := by
  intro before event after htrace
  exact h before event (after ++ new) (by rw [htrace, append_assoc, cons_append])

/-- An event of an extension stands in the old part, with the extension behind it, or in the new one. -/
theorem append_eq_append_cons {before after : List α} {event : α} (h : trace ++ new = before ++ event :: after) :
    (∃ rest, trace = before ++ event :: rest) ∨ ∃ middle, before = trace ++ middle ∧ new = middle ++ event :: after := by
  rcases append_eq_append_iff.mp h with ⟨middle, hbefore, hnew⟩ | ⟨middle, htrace, hafter⟩
  · exact .inr ⟨middle, hbefore, hnew⟩
  · cases middle with
    | nil =>
      rw [nil_append] at hafter
      exact .inr ⟨[], by rw [htrace, append_nil, append_nil], hafter.symm⟩
    | cons first rest =>
      rw [cons_append, cons.injEq] at hafter
      exact .inl ⟨rest, by rw [htrace, hafter.1]⟩

theorem Guarded.append_of_mem (h : Guarded guard late trace) (hguard : guard ∈ trace) :
    Guarded guard late (trace ++ new) := by
  intro before event after heq hlate
  rcases append_eq_append_cons heq with ⟨rest, htrace⟩ | ⟨middle, hbefore, -⟩
  · exact h before event rest htrace hlate
  · rw [hbefore]
    exact mem_append_left _ hguard

theorem Guarded.append_of_forall (h : Guarded guard late trace) (hnew : ∀ event ∈ new, ¬ late event) :
    Guarded guard late (trace ++ new) := by
  intro before event after heq hlate
  rcases append_eq_append_cons heq with ⟨rest, htrace⟩ | ⟨middle, -, hmiddle⟩
  · exact h before event rest htrace hlate
  · exact absurd hlate (hnew event (by rw [hmiddle]; simp))

/-- An event that is late, without the guard in front of it. -/
theorem not_guarded_of_notMem {event : α} {rest : List α} (htrace : guard ∉ trace) (hlate : late event) :
    ¬ Guarded guard late (trace ++ event :: rest) :=
  fun h => htrace (h trace event rest rfl hlate)

end Gct.Trace
