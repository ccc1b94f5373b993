/-
# Host names with wildcards

`gss_l_compare_hostnames_with_wildcards` cuts two host names at their dots and compares them component by component.
A side that may have RFC 2818 wildcards can end a component in `*`; a side with GT2 wildcards can have a suffix behind a
`-` in its first component that the other one does not have.  The mode decides which kinds are in use.
-/
import Mathlib.Data.UInt

namespace Gct.Gss

open List UInt8

/-! ## 1. The matcher -/

inductive CompatibilityMode
  | hybrid
  | strictGt2
  | strictRfc2818
  deriving DecidableEq, Repr

inductive Wildcard
  | none
  | gt2
  | rfc2818
  deriving DecidableEq, Repr

/-- The kind of wildcard as far as the mode has it. -/
def Wildcard.inMode (wildcard : Wildcard) : CompatibilityMode → Wildcard
  | .hybrid => wildcard
  | .strictGt2 => if wildcard = .rfc2818 then .none else wildcard
  | .strictRfc2818 => if wildcard = .gt2 then .none else wildcard

abbrev Text := List UInt8

def star : UInt8 := 42
def dash : UInt8 := 45
def dot : UInt8 := 46
def slash : UInt8 := 47

def tolower (c : UInt8) : UInt8 := if 65 ≤ c ∧ c ≤ 90 then c + 32 else c

/-- The pieces that `gss_l_strsep` makes of a text. -/
def components : Text → List Text
  | [] => [[]]
  | c :: cs =>
    if c = dot then [] :: components cs
    else
      match components cs with
      | [] => [[c]]
      | piece :: pieces => (c :: piece) :: pieces

/-- The side stands at a wildcard. -/
def Wildcard.atStar (wildcard : Wildcard) (tok : Text) : Bool := wildcard = .rfc2818 && tok.head? = some star

/-- "Match non-wildcard bits": what is left of the two components. -/
def skipCommon (wildcards₁ wildcards₂ : Wildcard) : Text → Text → Text × Text
  | c₁ :: tok₁, c₂ :: tok₂ =>
    if c₁ = c₂ ∧ wildcards₁.atStar (c₁ :: tok₁) = false ∧ wildcards₂.atStar (c₂ :: tok₂) = false then
      skipCommon wildcards₁ wildcards₂ tok₁ tok₂
    else (c₁ :: tok₁, c₂ :: tok₂)
  | tok₁, tok₂ => (tok₁, tok₂)

variable (wildcards₁ wildcards₂ : Wildcard) (firstToken : Bool) (tok₁ tok₂ : Text)

/-- "If anything remains, check for wildcards". -/
def matchRest : Bool :=
  if wildcards₁.atStar tok₁ then tok₁.tail = []
  else if wildcards₂.atStar tok₂ then tok₂.tail = []
  else if wildcards₁ = .gt2 ∧ tok₁.head? = some dash ∧ firstToken then tok₂ = []
  else if wildcards₂ = .gt2 ∧ tok₂.head? = some dash ∧ firstToken then tok₁ = []
  else tok₁ = [] ∧ tok₂ = []

def matchComponent : Bool :=
  let (rest₁, rest₂) := skipCommon wildcards₁ wildcards₂ tok₁ tok₂
  matchRest wildcards₁ wildcards₂ firstToken rest₁ rest₂

/-- The loop over the components; both names have to end at the same time. -/
def matchComponents (wildcards₁ wildcards₂ : Wildcard) : Bool → List Text → List Text → Bool
  | _, [], [] => true
  | firstToken, tok₁ :: toks₁, tok₂ :: toks₂ =>
    matchComponent wildcards₁ wildcards₂ firstToken tok₁ tok₂ && matchComponents wildcards₁ wildcards₂ false toks₁ toks₂
  | _, _, _ => false

/-- A host that is not there matches nothing. -/
def compareHostnames (mode : CompatibilityMode) (host₁ : Option Text) (wildcards₁ : Wildcard) (host₂ : Option Text)
    (wildcards₂ : Wildcard) : Bool :=
  match host₁, host₂ with
  | some host₁, some host₂ =>
    matchComponents (wildcards₁.inMode mode) (wildcards₂.inMode mode) true (components (host₁.map tolower))
      (components (host₂.map tolower))
  | _, _ => false

/-! ## 2. Components -/

theorem components_ne_nil (text : Text) : components text ≠ [] := by
  cases text with
  | nil => simp [components]
  | cons c cs =>
    unfold components
    split
    · simp
    · split <;> simp

theorem tolower_eq_iff {c : UInt8} {d : UInt8} (hd : d < 65) : tolower c = d ↔ c = d := by
  unfold tolower
  split
  · next hupper =>
    have hc : ¬ c = d := by
      rintro rfl
      exact absurd hupper.1 (UInt8.not_le.mpr hd)
    have hlow : ¬ c + 32 = d := by
      intro h
      have h1 := le_iff_toNat_le.mp hupper.1
      have h2 := le_iff_toNat_le.mp hupper.2
      have h3 := lt_iff_toNat_lt.mp hd
      have h4 := congrArg toNat h
      simp only [UInt8.toNat_add, reduceToNat] at h1 h2 h3 h4
      omega
    exact ⟨fun h => absurd h hlow, fun h => absurd h hc⟩
  · exact Iff.rfl

/-- Lower case does not move the dots. -/
theorem components_map_tolower (text : Text) : components (text.map tolower) = (components text).map (map tolower) := by
  induction text with
  | nil => rfl
  | cons c cs ih =>
    rw [map_cons, components, components, ih]
    by_cases hdot : c = dot
    · rw [if_pos ((tolower_eq_iff (by decide)).mpr hdot), if_pos hdot]
      rfl
    · rw [if_neg (fun h => hdot ((tolower_eq_iff (by decide)).mp h)), if_neg hdot]
      cases components cs <;> rfl

/-! ## 3. What a match says -/

section Match

variable {w₁ w₂ : Wildcard} {firstToken : Bool} {tok₁ tok₂ : Text}

/-- What was skipped is common, and holds no wildcard. -/
theorem skipCommon_spec (w₁ w₂ : Wildcard) (tok₁ tok₂ : Text) :
    ∃ common, tok₁ = common ++ (skipCommon w₁ w₂ tok₁ tok₂).1 ∧ tok₂ = common ++ (skipCommon w₁ w₂ tok₁ tok₂).2 ∧
      (w₁ = .rfc2818 → star ∉ common) := by
  fun_induction skipCommon w₁ w₂ tok₁ tok₂ with
  | case1 c₁ tok₁ c₂ tok₂ hsame ih =>
    obtain ⟨common, h₁, h₂, hstar⟩ := ih
    refine ⟨c₁ :: common, ?_, ?_, fun hw => ?_⟩
    · rw [cons_append, ← h₁]
    · rw [cons_append, ← h₂, hsame.1]
    · have hc : c₁ ≠ star := by
        rintro rfl
        have hstop := hsame.2.1
        simp [Wildcard.atStar, hw] at hstop
      exact fun hmem => (mem_cons.mp hmem).elim (fun h => hc h.symm) (hstar hw)
  | case2 | case3 => exact ⟨[], rfl, rfl, fun _ => not_mem_nil⟩

/-- What makes two components match, when the second side has no `*`. -/
theorem matchComponent_cases (hw₂ : w₂ ≠ .rfc2818) (h : matchComponent w₁ w₂ firstToken tok₁ tok₂ = true) :
    tok₁ = tok₂ ∨ (w₁ = .rfc2818 ∧ ∃ front, tok₁ = front ++ [star] ∧ star ∉ front ∧ front <+: tok₂) ∨
      (w₁ = .gt2 ∧ firstToken = true ∧ ∃ suffix, tok₁ = tok₂ ++ dash :: suffix) ∨
      (w₂ = .gt2 ∧ firstToken = true ∧ ∃ suffix, tok₂ = tok₁ ++ dash :: suffix) := by
  obtain ⟨common, h₁, h₂, hstar⟩ := skipCommon_spec w₁ w₂ tok₁ tok₂
  unfold matchComponent at h
  generalize skipCommon w₁ w₂ tok₁ tok₂ = rest at h h₁ h₂
  obtain ⟨rest₁, rest₂⟩ := rest
  simp only at h h₁ h₂
  have hat₂ : w₂.atStar rest₂ = false := by simp [Wildcard.atStar, hw₂]
  unfold matchRest at h
  rw [hat₂] at h
  split at h
  · next hat₁ =>
    simp only [Wildcard.atStar, Bool.and_eq_true, decide_eq_true_eq] at hat₁ h
    obtain ⟨hw₁, hhead⟩ := hat₁
    refine .inr (.inl ⟨hw₁, common, ?_, hstar hw₁, ?_⟩)
    · rw [h₁, ← cons_head?_tail hhead, h]
    · rw [h₂]
      exact prefix_append _ _
  · rw [if_neg Bool.false_ne_true] at h
    split at h
    · next hat₁ =>
      obtain ⟨hw₁, hhead, hfirst⟩ := hat₁
      simp only [decide_eq_true_eq] at h
      refine .inr (.inr (.inl ⟨hw₁, hfirst, rest₁.tail, ?_⟩))
      rw [h₁, h₂, h, append_nil, cons_head?_tail hhead]
    · split at h
      · next hat₂ =>
        obtain ⟨hw₂, hhead, hfirst⟩ := hat₂
        simp only [decide_eq_true_eq] at h
        refine .inr (.inr (.inr ⟨hw₂, hfirst, rest₂.tail, ?_⟩))
        rw [h₁, h₂, h, append_nil, cons_head?_tail hhead]
      · simp only [Bool.decide_and, Bool.and_eq_true, decide_eq_true_eq] at h
        rw [h₁, h₂, h.1, h.2]
        exact .inl rfl

/-! ## 4. The other way round -/

/-- A `*` is the last character. -/
def StarLast (tok : Text) : Prop := ∀ front rest, tok = front ++ star :: rest → rest = []

theorem skipCommon_swap (w₁ w₂ : Wildcard) (tok₁ tok₂ : Text) :
    skipCommon w₂ w₁ tok₂ tok₁ = (skipCommon w₁ w₂ tok₁ tok₂).swap := by
  fun_induction skipCommon w₁ w₂ tok₁ tok₂ with
  | case1 c₁ tok₁ c₂ tok₂ hsame ih =>
    rw [skipCommon, if_pos ⟨hsame.1.symm, hsame.2.2, hsame.2.1⟩]
    exact ih
  | case2 c₁ tok₁ c₂ tok₂ hstop =>
    rw [skipCommon, if_neg fun h => hstop ⟨h.1.symm, h.2.2, h.2.1⟩]
    rfl
  | case3 tok₁ tok₂ hstop =>
    cases tok₁ with
    | nil => cases tok₂ <;> rfl
    | cons c₁ tok₁ =>
      cases tok₂ with
      | nil => rfl
      | cons c₂ tok₂ => exact absurd rfl (hstop c₁ tok₁ c₂ tok₂ rfl)

/-- The order of the two sides shows only where both stand at a `*`. -/
theorem matchRest_swap (hboth : w₁.atStar tok₁ = true → w₂.atStar tok₂ = true → (tok₁.tail = [] ↔ tok₂.tail = [])) :
    matchRest w₂ w₁ firstToken tok₂ tok₁ = matchRest w₁ w₂ firstToken tok₁ tok₂ := by
  unfold matchRest
  by_cases h₁ : w₁.atStar tok₁ = true
  · by_cases h₂ : w₂.atStar tok₂ = true
    · rw [if_pos h₂, if_pos h₁]
      exact (decide_eq_decide.mpr (hboth h₁ h₂)).symm
    · rw [if_neg h₂, if_pos h₁, if_pos h₁]
  · by_cases h₂ : w₂.atStar tok₂ = true
    · rw [if_pos h₂, if_neg h₁, if_pos h₂]
    · rw [if_neg h₁, if_neg h₂, if_neg h₁, if_neg h₂]
      by_cases h₃ : w₁ = .gt2 ∧ tok₁.head? = some dash ∧ firstToken = true
      · split
        · next h₄ =>
          -- both have a suffix, so neither has ended
          have hne₁ : tok₁ ≠ [] := fun h => by simp [h] at h₃
          have hne₂ : tok₂ ≠ [] := fun h => by simp [h] at h₄
          rw [decide_eq_false hne₁, decide_eq_false hne₂]
        · rfl
      · split
        · rfl
        · exact decide_eq_decide.mpr And.comm

theorem StarLast.tail {tok front rest : Text} (h : StarLast tok) (htok : tok = front ++ rest)
    (hhead : rest.head? = some star) : rest.tail = [] := by
  refine h front rest.tail ?_
  rw [htok, cons_head?_tail hhead]

theorem matchComponent_swap (hstars : w₁ = .rfc2818 → w₂ = .rfc2818 → StarLast tok₁ ∧ StarLast tok₂) :
    matchComponent w₂ w₁ firstToken tok₂ tok₁ = matchComponent w₁ w₂ firstToken tok₁ tok₂ := by
  obtain ⟨common, h₁, h₂, -⟩ := skipCommon_spec w₁ w₂ tok₁ tok₂
  unfold matchComponent
  rw [skipCommon_swap]
  refine matchRest_swap fun hat₁ hat₂ => ?_
  simp only [Wildcard.atStar, Bool.and_eq_true, decide_eq_true_eq] at hat₁ hat₂
  obtain ⟨hlast₁, hlast₂⟩ := hstars hat₁.1 hat₂.1
  exact iff_of_true (hlast₁.tail h₁ hat₁.2) (hlast₂.tail h₂ hat₂.2)

theorem matchComponents_swap {toks₁ toks₂ : List Text}
    (hstars : w₁ = .rfc2818 → w₂ = .rfc2818 → (∀ tok ∈ toks₁, StarLast tok) ∧ ∀ tok ∈ toks₂, StarLast tok) :
    matchComponents w₂ w₁ firstToken toks₂ toks₁ = matchComponents w₁ w₂ firstToken toks₁ toks₂ := by
  induction toks₁ generalizing firstToken toks₂ with
  | nil => cases toks₂ <;> rfl
  | cons tok₁ toks₁ ih =>
    cases toks₂ with
    | nil => rfl
    | cons tok₂ toks₂ =>
      rw [matchComponents, matchComponents, ih fun hw₁ hw₂ => ?_, matchComponent_swap fun hw₁ hw₂ => ?_]
      · exact ⟨(hstars hw₁ hw₂).1 tok₁ mem_cons_self, (hstars hw₁ hw₂).2 tok₂ mem_cons_self⟩
      · exact ⟨fun tok htok => (hstars hw₁ hw₂).1 tok (mem_cons_of_mem _ htok),
          fun tok htok => (hstars hw₁ hw₂).2 tok (mem_cons_of_mem _ htok)⟩

end Match

/-- In every component of the name a `*` is the last character. -/
def StarsLast (host : Text) : Prop := ∀ tok ∈ components host, StarLast tok

theorem StarsLast.tolower {host : Text} (h : StarsLast host) : StarsLast (host.map tolower) := by
  intro tok htok front rest hsplit
  rw [components_map_tolower] at htok
  obtain ⟨tok', htok', rfl⟩ := mem_map.mp htok
  obtain ⟨front', rest', rfl, -, hrest⟩ := map_eq_append_iff.mp hsplit
  obtain ⟨c, rest'', rfl, hc, rfl⟩ := map_eq_cons_iff.mp hrest
  obtain rfl := (tolower_eq_iff (by decide)).mp hc
  rw [h _ htok' front' rest'' rfl]
  rfl

/-- The matcher is symmetric where not both sides may have a `*`, or where a `*` ends its component. -/
theorem compareHostnames_swap {mode : CompatibilityMode} {host₁ host₂ : Option Text} {w₁ w₂ : Wildcard}
    (hstars : w₁ = .rfc2818 → w₂ = .rfc2818 → (∀ host ∈ host₁, StarsLast host) ∧ ∀ host ∈ host₂, StarsLast host) :
    compareHostnames mode host₂ w₂ host₁ w₁ = compareHostnames mode host₁ w₁ host₂ w₂ := by
  have hkind : ∀ w : Wildcard, w.inMode mode = .rfc2818 → w = .rfc2818 := by
    intro w h
    cases mode <;> cases w <;> first | rfl | cases h
  cases host₁ with
  | none => cases host₂ <;> rfl
  | some host₁ =>
    cases host₂ with
    | none => rfl
    | some host₂ =>
      refine matchComponents_swap fun hw₁ hw₂ => ?_
      obtain ⟨h₁, h₂⟩ := hstars (hkind _ hw₁) (hkind _ hw₂)
      exact ⟨(h₁ host₁ rfl).tolower, (h₂ host₂ rfl).tolower⟩

end Gct.Gss
