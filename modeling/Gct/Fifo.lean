/-
# The queue

`globus_fifo` keeps a list with a pointer to its last cell and its length.  A pointer is given by the number of cells
from its cell on: this does not change with what is done before the cell, and a pointer to a cell that is no longer in
the list has too large a number.  What is put behind it would go into freed memory, so there is no result.

It never comes to that.  But `globus_fifo_copy` looks for the last cell of the copy, and if the queue is empty it takes
the rest of an empty list.  Queues behave as finite sequences exactly if no empty one is copied (`behaves_iff`).
-/
import Mathlib.Data.List.Basic
import Mathlib.Logic.Function.Basic
import Mathlib.Tactic.Common

namespace Gct

open List Function

/-! ## 1. The calls -/

structure Fifo (D : Type*) where
  head : List D := []
  tail : Option Nat := none
  size : Nat := 0

namespace Fifo

variable {D : Type*} (q : Fifo D) (datum : D)

/-- `globus_list_insert`, with `NULL` or behind a cell. -/
def enqueue : Option (Fifo D) :=
  match q.tail with
  | none => some ⟨[datum], some 1, q.size + 1⟩
  | some tail =>
    if 0 < tail ∧ tail ≤ q.head.length then
      some ⟨q.head.insertIdx (q.head.length - tail + 1) datum, some tail, q.size + 1⟩
    else none

def dequeue : Option D × Fifo D :=
  match q.head with
  | [] => (none, q)
  | d :: head => (some d, ⟨head, if head.isEmpty then none else q.tail, q.size - 1⟩)

/-- A pointer when the cell `iter` is taken out behind its own cell. -/
def shift (iter n : Nat) : Nat := if iter < n then n - 1 else n

def remove [DecidableEq D] : Option D × Fifo D :=
  let i := q.head.idxOf datum
  if i < q.head.length then
    let iter := q.head.length - i
    let iterPrev := if i = 0 then none else some (iter + 1)
    let tail := if q.tail = some iter then iterPrev else q.tail
    (some datum, ⟨q.head.eraseIdx i, tail.map (shift iter), q.size - 1⟩)
  else (none, q)

/-- The loop to the last cell goes wrong if there is none. -/
def copy : Option (Fifo D) := if q.head.isEmpty then none else some ⟨q.head, some 1, q.size⟩

end Fifo

inductive FifoCall (D : Type*) where
  | enqueue (fifo : Nat) (datum : D)
  | dequeue (fifo : Nat)
  | remove (fifo : Nat) (datum : D)
  | copy (fifo dest : Nat)
  | move (dest src : Nat)
  | convertToList (fifo : Nat)

inductive FifoReply (D : Type*) where
  | success
  | datum (d : Option D)
  | list (l : List D)
  deriving DecidableEq

/-- The queues by their handles. -/
abbrev Fifos (D : Type*) := Nat → Fifo D

namespace Fifos

variable {D : Type*} [DecidableEq D]

def step (s : Fifos D) : FifoCall D → Option (FifoReply D × Fifos D)
  | .enqueue f d => ((s f).enqueue d).map fun q => (.success, update s f q)
  | .dequeue f => some (.datum (s f).dequeue.1, update s f (s f).dequeue.2)
  | .remove f d => some (.datum ((s f).remove d).1, update s f ((s f).remove d).2)
  | .copy f dest => (s f).copy.map fun q => (.success, update s dest q)
  | .move dest src =>
    -- `globus_fifo_init` comes first, also if both are the same
    let s := update s dest {}
    some (.success, update (update s dest (s src)) src {})
  | .convertToList f => some (.list (s f).head, update s f {})

def run (s : Fifos D) : List (FifoCall D) → Option (List (FifoReply D) × Fifos D)
  | [] => some ([], s)
  | call :: calls => do
    let (reply, s) ← s.step call
    let (replies, s) ← run s calls
    some (reply :: replies, s)

/-! ## 2. Finite sequences -/

/-- What a call means. -/
def act (s : Nat → List D) : FifoCall D → FifoReply D × (Nat → List D)
  | .enqueue f d => (.success, update s f (s f ++ [d]))
  | .dequeue f => (.datum (s f).head?, update s f (s f).tail)
  | .remove f d => (.datum (if d ∈ s f then some d else none), update s f ((s f).erase d))
  | .copy f dest => (.success, update s dest (s f))
  | .move dest src => (.success, update (update s dest (s src)) src [])
  | .convertToList f => (.list (s f), update s f [])

def acts (s : Nat → List D) : List (FifoCall D) → List (FifoReply D) × (Nat → List D)
  | [] => ([], s)
  | call :: calls => ((act s call).1 :: (acts (act s call).2 calls).1, (acts (act s call).2 calls).2)

/-- No empty queue is copied. -/
def CopiesSome (s : Nat → List D) : List (FifoCall D) → Prop
  | [] => True
  | call :: calls => (∀ f dest, call = .copy f dest → s f ≠ []) ∧ CopiesSome (act s call).2 calls

end Fifos

/-! ## 3. A queue -/

namespace Fifo

variable {D : Type*} {l : List D}

/-- The queue of these data: `tail` and `size` are right. -/
def ofList (l : List D) : Fifo D := ⟨l, if l.length = 0 then none else some 1, l.length⟩

theorem enqueue_ofList (d : D) : (ofList l).enqueue d = some (ofList (l ++ [d])) := by
  cases l with
  | nil => rfl
  | cons c l => simp [enqueue, ofList]

theorem dequeue_ofList : (ofList l).dequeue = (l.head?, ofList l.tail) := by
  cases l with
  | nil => rfl
  | cons d l => cases l <;> rfl

theorem remove_ofList [DecidableEq D] (d : D) :
    (ofList l).remove d = (if d ∈ l then some d else none, ofList (l.erase d)) := by
  by_cases hd : d ∈ l
  · have hlt := idxOf_lt_length_iff.mpr hd
    have hofList : ofList l = ⟨l, some 1, l.length⟩ := congrArg (Fifo.mk l · l.length) (if_neg (by omega))
    rw [if_pos hd, hofList, ofList, length_erase_of_mem hd, remove]
    simp only [hlt, ↓reduceIte, eraseIdx_idxOf_eq_erase]
    congr 2
    by_cases hlast : l.length - l.idxOf d = 1
    · rw [hlast, if_pos rfl]
      by_cases hfirst : l.idxOf d = 0
      · rw [if_pos hfirst, if_pos (by omega)]
        rfl
      · rw [if_neg hfirst, if_neg (by omega)]
        rfl
    · rw [if_neg fun h => hlast (Option.some.inj h).symm, if_neg (by omega), Option.map_some, shift, if_neg (by omega)]
  · have hlt := idxOf_lt_length_iff.not.mpr hd
    rw [if_neg hd, erase_of_not_mem hd, remove]
    exact if_neg hlt

end Fifo

/-! ## 4. Runs -/

namespace Fifos

open Fifo

variable {D : Type*} [DecidableEq D] (s : Nat → List D)

theorem step_ofList (call : FifoCall D) (hcall : ∀ f dest, call = .copy f dest → s f ≠ []) :
    step (ofList ∘ s) call = some ((act s call).1, ofList ∘ (act s call).2) := by
  cases call with
  | enqueue f d => simp [step, act, enqueue_ofList, comp_update]
  | dequeue f => simp [step, act, dequeue_ofList, comp_update]
  | remove f d => simp [step, act, remove_ofList, comp_update]
  | copy f dest =>
    have hne := hcall f dest rfl
    simp [step, act, Fifo.copy, comp_update, ofList, hne]
  | move dest src =>
    by_cases heq : src = dest
    · subst heq
      simp only [step, act, comp_update, update_self, update_idem]
      rfl
    · simp only [step, act, comp_update, update_idem, update_of_ne heq]
      rfl
  | convertToList f =>
    simp only [step, act, comp_update]
    rfl

theorem run_ofList (calls : List (FifoCall D)) :
    run (ofList ∘ s) calls = some ((acts s calls).1, ofList ∘ (acts s calls).2) ↔ CopiesSome s calls := by
  induction calls generalizing s with
  | nil => exact iff_of_true rfl trivial
  | cons call calls ih =>
    rw [run, CopiesSome, ← ih]
    by_cases hcall : ∀ f dest, call = .copy f dest → s f ≠ []
    · rw [step_ofList s call hcall, and_iff_right hcall, acts]
      simp only [Option.bind_eq_bind, Option.bind_some]
      cases run (ofList ∘ (act s call).2) calls with
      | none => exact iff_of_false nofun nofun
      | some r => simp [Prod.ext_iff]
    · refine iff_of_false ?_ fun h => hcall h.1
      simp only [not_forall, not_not] at hcall
      obtain ⟨f, dest, rfl, hempty⟩ := hcall
      simp [step, Fifo.copy, ofList, hempty]

/-- The calls do what they mean; `tail` and `size` are right behind them. -/
def Behaves (calls : List (FifoCall D)) : Prop :=
  run (fun _ => {}) calls = some ((acts (fun _ => []) calls).1, fun f => ofList ((acts (fun _ => []) calls).2 f))

/-- **Queues behave as finite sequences exactly if no empty one is copied.** -/
theorem behaves_iff (calls : List (FifoCall D)) : Behaves calls ↔ CopiesSome (fun _ => []) calls :=
  run_ofList _ calls

/-- A new queue is copied. -/
theorem not_behaves_copy : ¬ Behaves [(.copy 0 1 : FifoCall Nat)] := by
  intro h
  cases h

end Fifos

end Gct
