/-
# Canonical lists of half-open intervals

A list of intervals `[lo, hi)` over a linear order, `hi` possibly `⊤`, is CANONICAL when each
interval is nonempty and each one ends strictly before the next begins.  Two facts about such
lists carry everything that is done with them elsewhere:

* the end of an interval is a point the list does NOT cover (`hi_not_mem_points`), which is what
  the strictness buys: neighbours neither overlap nor touch;
* hence the list is determined by the set of points it covers (`Canon.points_injective`).

The second fact is what turns "both computations cover the same points" into "both computations
return the same list", so commutativity and independence of the order of insertion never need an
argument about the lists themselves.
-/
import Mathlib

namespace IvlList

open WithTop

variable {α : Type*}

/-- A part that both sides are disjoint from may be dropped from a union. -/
theorem eq_of_union_eq_of_disjoint {s t u : Set α} (ht : Disjoint s t) (hu : Disjoint s u)
    (h : s ∪ t = s ∪ u) : t = u := by
  calc t = (s ∪ t) \ s := ht.sup_sdiff_cancel_left.symm
    _ = (s ∪ u) \ s := by rw [h]
    _ = u := hu.sup_sdiff_cancel_left

/-- A half-open interval `[lo, hi)`, unbounded above when `hi = ⊤`. -/
@[ext] structure Ivl (α : Type*) where
  lo : α
  hi : WithTop α

section Order

variable [LinearOrder α]

/-- The points of one interval. -/
def Ivl.toSet (i : Ivl α) : Set α := {x | i.lo ≤ x ∧ (x : WithTop α) < i.hi}

/-- `i` ends strictly before `j` begins: the two neither overlap nor touch. -/
def Ivl.Before (i j : Ivl α) : Prop := i.hi < (j.lo : WithTop α)

/-- The points a list of intervals covers. -/
def points (l : List (Ivl α)) : Set α := {x | ∃ i ∈ l, x ∈ i.toSet}

variable {i : Ivl α} {x : α} {l : List (Ivl α)}

@[simp] theorem Ivl.mem_toSet : x ∈ i.toSet ↔ i.lo ≤ x ∧ (x : WithTop α) < i.hi := Iff.rfl

theorem mem_points : x ∈ points l ↔ ∃ i ∈ l, x ∈ i.toSet := Iff.rfl

@[simp] theorem points_nil : points ([] : List (Ivl α)) = ∅ := by
  ext x
  simp [points]

@[simp] theorem points_cons (i : Ivl α) (l : List (Ivl α)) : points (i :: l) = i.toSet ∪ points l := by
  ext x
  simp [points]

@[simp] theorem points_append (l m : List (Ivl α)) : points (l ++ m) = points l ∪ points m := by
  ext x
  simp only [mem_points, List.mem_append, Set.mem_union]
  constructor
  · rintro ⟨i, hi | hi, hx⟩
    · exact .inl ⟨i, hi, hx⟩
    · exact .inr ⟨i, hi, hx⟩
  · rintro (⟨i, hi, hx⟩ | ⟨i, hi, hx⟩)
    · exact ⟨i, .inl hi, hx⟩
    · exact ⟨i, .inr hi, hx⟩

/-- A list of nonempty intervals, each ending strictly before the next begins. -/
structure Canon (α : Type*) [LinearOrder α] where
  ivls : List (Ivl α)
  pos : ∀ i ∈ ivls, (i.lo : WithTop α) < i.hi
  sep : ivls.Pairwise Ivl.Before

/-- The first interval starts at a point of the list, and no point lies before it. -/
theorem lo_le_of_mem_points (hpos : (i.lo : WithTop α) < i.hi)
    (hsep : ∀ j ∈ l, i.Before j) (hx : x ∈ points (i :: l)) : i.lo ≤ x := by
  rw [points_cons] at hx
  rcases hx with hx | ⟨j, hj, hx⟩
  · exact hx.1
  · have h1 : (i.lo : WithTop α) < (j.lo : WithTop α) := hpos.trans (hsep j hj)
    exact (coe_lt_coe.mp h1).le.trans hx.1

/-- **The end of an interval is not covered.**  Everything after the first interval begins
strictly beyond its end. -/
theorem hi_not_mem_points (hsep : ∀ j ∈ l, i.Before j) (hx : i.hi = (x : WithTop α)) : x ∉ points (i :: l) := by
  rw [points_cons]
  rintro (h | ⟨j, hj, h⟩)
  · have := h.2
    rw [hx] at this
    exact lt_irrefl _ this
  · have hb : i.hi < (j.lo : WithTop α) := hsep j hj
    rw [hx] at hb
    exact absurd h.1 (not_le.mpr (coe_lt_coe.mp hb))

/-- Everything after the first interval lies outside it. -/
theorem disjoint_of_before (hsep : ∀ j ∈ l, i.Before j) : Disjoint i.toSet (points l) := by
  rw [Set.disjoint_left]
  rintro x hx ⟨j, hj, hxj⟩
  have h1 : (x : WithTop α) < (j.lo : WithTop α) := hx.2.trans (hsep j hj)
  exact absurd hxj.1 (not_le.mpr (coe_lt_coe.mp h1))

/-- With equal points, the first interval of one list cannot end before that of the other. -/
theorem hi_le_of_points_eq {i j : Ivl α} {l m : List (Ivl α)} (hil : ∀ k ∈ l, i.Before k)
    (hlo : i.lo = j.lo) (hi : (i.lo : WithTop α) < i.hi) (h : points (i :: l) = points (j :: m)) : j.hi ≤ i.hi := by
  by_contra hlt
  rw [not_le] at hlt
  obtain ⟨x, hx⟩ := ne_top_iff_exists.mp hlt.ne_top
  -- the end of `i` is a point of `j` that the first list leaves out
  have hxj : x ∈ points (j :: m) := by
    rw [points_cons]
    refine .inl ⟨?_, by rw [hx]; exact hlt⟩
    rw [← hlo]
    exact (coe_lt_coe.mp (by rw [hx]; exact hi)).le
  rw [← h] at hxj
  exact hi_not_mem_points hil hx.symm hxj

/-- **A canonical list is determined by the points it covers**, list form. -/
theorem eq_of_points_eq : ∀ {l m : List (Ivl α)}, (∀ i ∈ l, (i.lo : WithTop α) < i.hi) →
    l.Pairwise Ivl.Before → (∀ i ∈ m, (i.lo : WithTop α) < i.hi) → m.Pairwise Ivl.Before → points l = points m → l = m
  | [], [], _, _, _, _, _ => rfl
  | [], j :: m, _, _, hpm, _, h => by
    have : j.lo ∈ points (j :: m) := by
      rw [points_cons]
      exact .inl ⟨le_rfl, hpm j (by simp)⟩
    rw [← h, points_nil] at this
    exact absurd this (Set.notMem_empty _)
  | i :: l, [], hpl, _, _, _, h => by
    have : i.lo ∈ points (i :: l) := by
      rw [points_cons]
      exact .inl ⟨le_rfl, hpl i (by simp)⟩
    rw [h, points_nil] at this
    exact absurd this (Set.notMem_empty _)
  | i :: l, j :: m, hpl, hsl, hpm, hsm, h => by
    have hi := hpl i (by simp)
    have hj := hpm j (by simp)
    rw [List.pairwise_cons] at hsl hsm
    have hlo : i.lo = j.lo := by
      apply le_antisymm
      · refine lo_le_of_mem_points hi hsl.1 (l := l) ?_
        rw [h, points_cons]
        exact .inl ⟨le_rfl, hj⟩
      · refine lo_le_of_mem_points hj hsm.1 (l := m) ?_
        rw [← h, points_cons]
        exact .inl ⟨le_rfl, hi⟩
    have hhi : i.hi = j.hi :=
      le_antisymm (hi_le_of_points_eq hsm.1 hlo.symm hj h.symm) (hi_le_of_points_eq hsl.1 hlo hi h)
    have hij : i = j := Ivl.ext hlo hhi
    subst hij
    have htail : points l = points m := by
      rw [points_cons, points_cons] at h
      exact eq_of_union_eq_of_disjoint (disjoint_of_before hsl.1) (disjoint_of_before hsm.1) h
    rw [eq_of_points_eq (fun k hk => hpl k (by simp [hk])) hsl.2 (fun k hk => hpm k (by simp [hk])) hsm.2 htail]

/-- **A canonical list is determined by the points it covers.** -/
theorem Canon.points_injective : Function.Injective (fun c : Canon α => points c.ivls) := by
  rintro ⟨l, hpl, hsl⟩ ⟨m, hpm, hsm⟩ h
  have : l = m := eq_of_points_eq hpl hsl hpm hsm h
  subst this
  rfl

end Order

end IvlList
