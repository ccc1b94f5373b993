/-
# Walking in strides

`n` walkers share the natural numbers: walker `i` visits `i`, `i + n`, `i + 2 n`, …, puts out
`out k` at each position `k` it visits and goes on until it meets a position with `stop k`.  A
position is `Reached` if none of those before it in its own stride stops.  With fuel enough for every
walker to stop, what they put out together is what is put out at the positions that are reached
(`mem_flatMap_walk`), and it is pairwise related if this is so at each of them and across positions
(`pairwise_flatMap_walk`).
-/
import Mathlib.Data.List.Range

namespace Stride

open List

/-! ## 1. Positions -/

variable {n : Nat} {stop : Nat → Prop}

/-- No position before `k` in its stride stops. -/
def Reached (n : Nat) (stop : Nat → Prop) (k : Nat) : Prop :=
  ∀ j, 0 < j → j * n ≤ k → ¬ stop (k - j * n)

/-- One stride on. -/
theorem stride_succ (k j n : Nat) : k + (j + 1) * n = k + n + j * n := by
  rw [Nat.succ_mul]
  omega

/-- What follows a position that does not stop is what is met from the next one on. -/
theorem not_stop_succ {k j : Nat} (hk : ¬ stop k) (h : ∀ j' < j, ¬ stop (k + n + j' * n)) :
    ∀ j' < j + 1, ¬ stop (k + j' * n) := by
  intro j' hj'
  cases j' with
  | zero => simpa using hk
  | succ j' =>
    rw [stride_succ]
    exact h j' (by omega)

/-- The positions a walker reaches are those reached. -/
theorem reached_stride {i j : Nat} (hi : i < n) (h : ∀ j' < j, ¬ stop (i + j' * n)) : Reached n stop (i + j * n) := by
  intro a ha hle
  have haj : a ≤ j := by
    by_contra hlt
    have : (j + 1) * n ≤ a * n := Nat.mul_le_mul_right n (by omega)
    rw [Nat.succ_mul] at this
    omega
  have hsub : i + j * n - a * n = i + (j - a) * n := by
    rw [Nat.sub_mul]
    have := Nat.mul_le_mul_right n haj
    omega
  rw [hsub]
  exact h (j - a) (by omega)

/-- Conversely, a position that is reached is reached by the walker of its stride. -/
theorem not_stop_of_reached {k j' : Nat} (hk : Reached n stop k) (hj' : j' < k / n) : ¬ stop (k % n + j' * n) := by
  have hle : (k / n - j') * n ≤ k :=
    le_trans (Nat.mul_le_mul_right n (Nat.sub_le _ _)) (Nat.div_mul_le_self k n)
  have hdiv : k % n + k / n * n = k := by rw [Nat.mul_comm, Nat.mod_add_div]
  have hsub : k % n + j' * n = k - (k / n - j') * n := by
    have h1 : (k / n - j') * n = k / n * n - j' * n := Nat.sub_mul _ _ _
    have h2 := Nat.mul_le_mul_right n hj'.le
    omega
  rw [hsub]
  exact hk (k / n - j') (by omega) hle

/-! ## 2. Walks -/

variable {β : Type*} {out : Nat → List β} [DecidablePred stop] {x : β}

/-- What the walker at position `k` puts out from there on, in at most `fuel` visits. -/
def walk (n : Nat) (out : Nat → List β) (stop : Nat → Prop) [DecidablePred stop] :
    Nat → Nat → List β
  | 0, _ => []
  | fuel + 1, k => out k ++ if stop k then [] else walk n out stop fuel (k + n)

/-- What one walker puts out comes from the positions it reaches. -/
theorem exists_of_mem_walk : ∀ {fuel k : Nat}, x ∈ walk n out stop fuel k →
    ∃ j, (∀ j' < j, ¬ stop (k + j' * n)) ∧ x ∈ out (k + j * n)
  | 0, k, h => absurd h (by simp [walk])
  | fuel + 1, k, h => by
    rw [walk, mem_append] at h
    rcases h with h | h
    · exact ⟨0, by simp, by simpa using h⟩
    · by_cases hk : stop k
      · rw [if_pos hk] at h
        exact absurd h (by simp)
      · rw [if_neg hk] at h
        obtain ⟨j, hj, hx⟩ := exists_of_mem_walk h
        exact ⟨j + 1, not_stop_succ hk hj, by rw [stride_succ]; exact hx⟩

/-- A walker with fuel enough to stop puts out all there is at the positions it reaches. -/
theorem mem_walk_of_mem : ∀ {fuel k : Nat}, (∃ j < fuel, stop (k + j * n)) →
    ∀ j, (∀ j' < j, ¬ stop (k + j' * n)) → x ∈ out (k + j * n) → x ∈ walk n out stop fuel k
  | 0, k, ⟨_, hi, _⟩, _, _, _ => absurd hi (by omega)
  | fuel + 1, k, ⟨i, hi, hstop⟩, j, hj, hx => by
    rw [walk, mem_append]
    cases j with
    | zero => exact .inl (by simpa using hx)
    | succ j =>
      have hk : ¬ stop k := by simpa using hj 0 (by omega)
      rw [if_neg hk]
      refine .inr (mem_walk_of_mem ?_ j (fun j' hj' => ?_) ?_)
      · cases i with
        | zero => exact absurd (by simpa using hstop) hk
        | succ i => exact ⟨i, by omega, by rw [← stride_succ]; exact hstop⟩
      · rw [← stride_succ]
        exact hj (j' + 1) (by omega)
      · rw [← stride_succ]
        exact hx

/-- **Together the walkers put out what is put out at the positions reached.** -/
theorem mem_flatMap_walk (hn : 0 < n) {fuel : Nat} (hfuel : ∀ i < n, ∃ j < fuel, stop (i + j * n)) :
    x ∈ (range n).flatMap (walk n out stop fuel) ↔ ∃ k, Reached n stop k ∧ x ∈ out k := by
  simp only [mem_flatMap, mem_range]
  constructor
  · rintro ⟨i, hi, hx⟩
    obtain ⟨j, hj, hx⟩ := exists_of_mem_walk hx
    exact ⟨i + j * n, reached_stride hi hj, hx⟩
  · rintro ⟨k, hk, hx⟩
    have hi := Nat.mod_lt k hn
    refine ⟨k % n, hi, mem_walk_of_mem (hfuel _ hi) (k / n) (fun j' => not_stop_of_reached hk) ?_⟩
    rw [Nat.mul_comm, Nat.mod_add_div]
    exact hx

section Pairwise

variable {R : β → β → Prop}

theorem pairwise_walk : ∀ {fuel k : Nat}, (∀ j, (∀ i < j, ¬ stop (k + i * n)) → (out (k + j * n)).Pairwise R) →
    (∀ j j', j < j' → (∀ i < j', ¬ stop (k + i * n)) → ∀ x ∈ out (k + j * n), ∀ y ∈ out (k + j' * n), R x y) →
      (walk n out stop fuel k).Pairwise R
  | 0, k, _, _ => List.Pairwise.nil
  | fuel + 1, k, hin, hcross => by
    rw [walk, pairwise_append]
    refine ⟨by simpa using hin 0 (by simp), ?_, ?_⟩
    · by_cases hk : stop k
      · rw [if_pos hk]
        exact List.Pairwise.nil
      · rw [if_neg hk]
        refine pairwise_walk (fun j hj => ?_) (fun j j' hjj hj => ?_)
        · rw [← stride_succ]
          exact hin (j + 1) (not_stop_succ hk hj)
        · rw [← stride_succ, ← stride_succ]
          exact hcross (j + 1) (j' + 1) (by omega) (not_stop_succ hk hj)
    · intro x hx y hy
      by_cases hk : stop k
      · rw [if_pos hk] at hy
        exact absurd hy (by simp)
      · rw [if_neg hk] at hy
        obtain ⟨j, hj, hy⟩ := exists_of_mem_walk hy
        rw [← stride_succ] at hy
        exact hcross 0 (j + 1) (by omega) (not_stop_succ hk hj) x (by simpa using hx) y hy

/-- **Together the walkers put out a list that is pairwise related**, if it is so at every position
reached and across them. -/
theorem pairwise_flatMap_walk (hn : 0 < n) (hin : ∀ k, Reached n stop k → (out k).Pairwise R)
    (hcross : ∀ k k', Reached n stop k → Reached n stop k' → k ≠ k' →
      ∀ x ∈ out k, ∀ y ∈ out k', R x y) {fuel : Nat} : ((range n).flatMap (walk n out stop fuel)).Pairwise R := by
  rw [pairwise_flatMap]
  constructor
  · intro i hi
    have hi' := mem_range.mp hi
    refine pairwise_walk (fun j hj => hin _ (reached_stride hi' hj)) fun j j' hjj hj => ?_
    refine hcross _ _ (reached_stride hi' fun a ha => hj a (by omega)) (reached_stride hi' hj) ?_
    have := Nat.mul_lt_mul_of_pos_right hjj hn
    omega
  · refine List.Pairwise.imp_of_mem ?_ pairwise_lt_range
    intro i i' hi hi' hlt x hx y hy
    have hin' := mem_range.mp hi
    have hin'' := mem_range.mp hi'
    obtain ⟨j, hj, hx⟩ := exists_of_mem_walk hx
    obtain ⟨j', hj', hy⟩ := exists_of_mem_walk hy
    refine hcross _ _ (reached_stride hin' hj) (reached_stride hin'' hj') (fun heq => ?_) x hx y hy
    have hmod := congrArg (· % n) heq
    simp only [Nat.add_mul_mod_self_right, Nat.mod_eq_of_lt hin', Nat.mod_eq_of_lt hin''] at hmod
    omega

end Pairwise

end Stride
