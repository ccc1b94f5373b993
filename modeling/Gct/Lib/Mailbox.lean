/-
# Handing out messages to waiting readers

A stream of messages arrives in pieces, and readers queue up for them.  The first reader in the queue
gets every message as soon as all of it has arrived; a message either leaves the reader in the queue or
sends it away, and handing one over may bring new readers.  A `Box` holds the messages that are
upcoming, how much of them has arrived (`avail`, in units of `size`), the queue, and the log of what was
handed over to whom.  `settle` hands over all it can.
-/
import Mathlib.Tactic.Common

namespace Mailbox

open List

variable {α ρ : Type*}

structure Box (α ρ : Type*) where
  upcoming : List α
  avail : Nat
  readers : List ρ
  log : List (ρ × α)

/-- The first message upcoming is there. -/
def HeadWhole (size : α → Nat) (upcoming : List α) (avail : Nat) : Prop :=
  ∃ m ∈ upcoming.head?, size m ≤ avail

section Settle

variable (size : α → Nat) (keeps : α → Prop) [DecidablePred keeps] (react : ρ → α → List ρ)

/-- The queue after the first reader `r` was handed `m`. -/
def nextReaders (r : ρ) (rs : List ρ) (m : α) : List ρ :=
  (if keeps m then r :: rs else rs) ++ react r m

/-- Hand over what is there, as long as there are readers. -/
def settle : List α → Nat → List ρ → List (ρ × α) → Box α ρ
  | m :: ms, avail, r :: rs, log =>
    if size m ≤ avail then
      settle ms (avail - size m) (nextReaders keeps react r rs m) (log ++ [(r, m)])
    else ⟨m :: ms, avail, r :: rs, log⟩
  | upcoming, avail, readers, log => ⟨upcoming, avail, readers, log⟩

/-- A reader queues up. -/
def Box.enqueue (b : Box α ρ) (r : ρ) : Box α ρ :=
  settle size keeps react b.upcoming b.avail (b.readers ++ [r]) b.log

/-- More of the messages arrives. -/
def Box.receive (b : Box α ρ) (n : Nat) : Box α ρ :=
  settle size keeps react b.upcoming (b.avail + n) b.readers b.log

end Settle

section Facts

variable {size : α → Nat} {keeps : α → Prop} [DecidablePred keeps] {react : ρ → α → List ρ}
  {upcoming : List α} {avail : Nat} {readers : List ρ} {log : List (ρ × α)}

/-- Without a reader, or without a message, nothing happens. -/
theorem settle_of_settled (h : readers = [] ∨ ¬ HeadWhole size upcoming avail) :
    settle size keeps react upcoming avail readers log = ⟨upcoming, avail, readers, log⟩ := by
  cases upcoming with
  | nil => rw [settle]; simp
  | cons m ms =>
    cases readers with
    | nil => rw [settle]; simp
    | cons r rs =>
      have hm : ¬ size m ≤ avail := fun hle => h.resolve_left (by simp) ⟨m, rfl, hle⟩
      rw [settle, if_neg hm]

/-- Nothing is left to be handed over. -/
theorem settled_settle : (settle size keeps react upcoming avail readers log).readers = []
    ∨ ¬ HeadWhole size (settle size keeps react upcoming avail readers log).upcoming
      (settle size keeps react upcoming avail readers log).avail := by
  fun_induction settle size keeps react upcoming avail readers log with
  | case1 _ _ _ _ _ _ _ ih => exact ih
  | case2 m ms _ _ _ _ hm => exact .inr (by simpa [HeadWhole] using hm)
  | case3 upcoming _ readers _ hnone =>
    cases upcoming with
    | nil => exact .inr (by simp [HeadWhole])
    | cons m ms =>
      cases readers with
      | nil => exact .inl rfl
      | cons r rs => exact absurd rfl (hnone m ms r rs rfl)

/-- **What was handed over and what is upcoming is the stream**, in its order. -/
theorem log_settle : (settle size keeps react upcoming avail readers log).log.map Prod.snd
        ++ (settle size keeps react upcoming avail readers log).upcoming = log.map Prod.snd ++ upcoming := by
  fun_induction settle size keeps react upcoming avail readers log with
  | case1 _ _ _ _ _ _ _ ih =>
    rw [ih]
    simp
  | case2 | case3 => rfl

/-- The log only grows. -/
theorem log_prefix_settle : log <+: (settle size keeps react upcoming avail readers log).log := by
  fun_induction settle size keeps react upcoming avail readers log with
  | case1 _ _ _ _ _ log _ ih => exact (prefix_append log _).trans ih
  | case2 | case3 => exact prefix_rfl

/-- With a message and a reader something is handed over. -/
theorem length_lt_log_settle (hm : HeadWhole size upcoming avail) (hr : readers ≠ []) :
    log.length < (settle size keeps react upcoming avail readers log).log.length := by
  obtain ⟨m, hmem, hle⟩ := hm
  cases upcoming with
  | nil => exact absurd hmem (by simp)
  | cons m' ms =>
    obtain rfl : m' = m := by simpa using hmem
    cases readers with
    | nil => exact absurd rfl hr
    | cons r rs =>
      rw [settle, if_pos hle]
      calc log.length < (log ++ [(r, m')]).length := by simp
        _ ≤ _ := log_prefix_settle.length_le

end Facts

end Mailbox
