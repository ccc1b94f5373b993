/-
# `globus_l_gfs_normalize_path`

The server takes every decision about a path on its normal form, without empty components, `.` and `..`.
The function builds it in a buffer, in which `out_ptr` is behind the last component.  For `..` it goes back
over the last component to its `/`; the text behind that stays in the buffer, after a `NUL`.

The buffer always has the path of the stack of components that are left (`Holds`), so the result is that
of `Path.resolvePath` (`normalizePath_resolves`).
-/
import Gct.Lib.Buffer
import Gct.Lib.Path

namespace Gct

open Path Buffer List

/-! ## 1. The program -/

/-- `while(out_ptr > out_path && *out_ptr != '/') out_ptr--` -/
def backToSlash (outPath : List Char) : Nat → Nat
  | 0 => 0
  | outPtr + 1 => if outPath[outPtr + 1]? = some '/' then outPtr + 1 else backToSlash outPath outPtr

/-- The body of the loop, for the component that `next_sep` ends. -/
def normalizeStep (out : List Char × Nat) (c : List Char) : List Char × Nat :=
  let (outPath, outPtr) := out
  match c with
  | [] => out
  | ['.'] => out
  | ['.', '.'] =>
    let outPtr := backToSlash outPath outPtr
    if outPtr = 0 then (write outPath 1 [nul], outPtr) else (write outPath outPtr [nul], outPtr)
  | c => (write outPath outPtr ('/' :: c ++ [nul]), outPtr + 1 + c.length)

variable (path : List Char)

/-- The buffer, of `strlen(path) + 4` bytes, when the loop begins. -/
def outInit : List Char × Nat :=
  ('/' :: nul :: replicate (path.length + 2) nul, 0)

/-- The loop.  A last component that is empty is not looked at in the source; it would change nothing. -/
def normalizeLoop : List Char × Nat :=
  (components path).foldl normalizeStep (outInit path)

/-- `globus_l_gfs_normalize_path` -/
def normalizePath : Except String (List Char) :=
  if path.head? = some '/' then .ok (cstr (normalizeLoop path).1) else .error "path"

/-! ## 2. What is in the buffer -/

/-- The buffer has the path of the stack, and `outPtr` is behind it; at the root it is at the `/`. -/
structure Holds (stack : List (List Char)) (out : List Char × Nat) : Prop where
  ptr : out.2 = (joined stack).length
  text : ∃ rest, out.1 = render stack ++ nul :: rest

theorem backToSlash_eq {outPath : List Char} {m : Nat} (hm : m = 0 ∨ outPath[m]? = some '/') :
    ∀ {n}, m ≤ n → (∀ i, m < i → i ≤ n → outPath[i]? ≠ some '/') → backToSlash outPath n = m
  | 0, hle, _ => (Nat.le_zero.mp hle).symm
  | n + 1, hle, h => by
    rw [backToSlash]
    rcases Nat.lt_or_eq_of_le hle with hlt | rfl
    · rw [if_neg (h (n + 1) hlt (Nat.le_refl _))]
      exact backToSlash_eq hm (Nat.lt_succ_iff.mp hlt) fun i hi hin => h i hi (by omega)
    · rw [if_pos (hm.resolve_left (Nat.succ_ne_zero n))]

/-- Back over the component `d`. -/
theorem backToSlash_append (s : List Char) {d : List Char} (hd : '/' ∉ d) (t : List Char) {n : Nat}
    (hle : s.length ≤ n) (hn : n ≤ s.length + d.length) : backToSlash (s ++ '/' :: (d ++ t)) n = s.length := by
  refine backToSlash_eq (.inr (by simp)) hle fun i hi hin hslash => ?_
  obtain ⟨j, rfl⟩ : ∃ j, i = s.length + (j + 1) := ⟨i - s.length - 1, by omega⟩
  rw [getElem?_append_right (Nat.le_add_right _ _), Nat.add_sub_cancel_left,
    getElem?_cons_succ, getElem?_append_left (by omega)] at hslash
  exact hd (mem_of_getElem? hslash)

namespace Holds

variable {stack : List (List Char)} {out : List Char × Nat} {c : List Char}

/-- The text before `outPtr`. -/
theorem split (h : Holds stack out) : ∃ rest, out.1 = joined stack ++ rest ∧ 2 ≤ out.1.length := by
  obtain ⟨rest, hrest⟩ := h.text
  have hlen : 2 ≤ out.1.length := by
    rw [hrest]
    have := length_pos_of_mem (mem_of_head? (head?_render stack))
    rw [length_append, length_cons]
    omega
  cases stack with
  | nil => exact ⟨out.1, rfl, hlen⟩
  | cons c stack => exact ⟨nul :: rest, hrest, hlen⟩

/-- A name is added. -/
theorem push (h : Holds stack out) :
    Holds (stack ++ [c]) (write out.1 out.2 ('/' :: c ++ [nul]), out.2 + 1 + c.length) := by
  obtain ⟨rest, hrest, -⟩ := h.split
  refine ⟨?_, rest.drop ('/' :: c ++ [nul]).length, ?_⟩
  · simp [h.ptr]
    omega
  · rw [hrest, h.ptr, write_append, render, if_neg (by simp)]
    simp

/-- At the root there is nothing to take away. -/
theorem pop_root (h : Holds [] out) : Holds [] (write out.1 1 [nul], 0) := by
  obtain ⟨rest, hrest⟩ := h.text
  refine ⟨rfl, rest, ?_⟩
  rw [hrest]
  rfl

/-- The last component is taken away. -/
theorem pop (h : Holds (stack ++ [c]) out) (hc : '/' ∉ c) (hne : c ≠ []) :
    backToSlash out.1 out.2 = (joined stack).length ∧ (stack = [] → Holds [] (write out.1 1 [nul], 0)) ∧
    (stack ≠ [] → Holds stack (write out.1 (joined stack).length [nul], (joined stack).length)) := by
  obtain ⟨rest, hrest⟩ := h.text
  have htext : out.1 = joined stack ++ '/' :: (c ++ nul :: rest) := by
    rw [hrest, render, if_neg (by simp)]
    simp
  refine ⟨?_, ?_, ?_⟩
  · have hnul : '/' ∉ c ++ [nul] := by simp [hc, nul]
    have hback := backToSlash_append (joined stack) hnul rest (n := out.2)
    rw [append_assoc, singleton_append, ← htext, h.ptr] at hback
    rw [h.ptr]
    exact hback (by simp) (by simp)
  · rintro rfl
    obtain ⟨x, c, rfl⟩ := exists_cons_of_ne_nil hne
    refine ⟨rfl, c ++ nul :: rest, ?_⟩
    rw [htext]
    rfl
  · intro hstack
    refine ⟨rfl, c ++ nul :: rest, ?_⟩
    rw [htext, write_append, render, if_neg hstack]
    simp

end Holds

theorem normalizeStep_name {c : List Char} (h : IsName c) (out : List Char × Nat) :
    normalizeStep out c = (write out.1 out.2 ('/' :: c ++ [nul]), out.2 + 1 + c.length) := by
  obtain ⟨h1, h2, h3, -⟩ := h
  unfold normalizeStep
  dsimp only
  split
  · exact absurd rfl h1
  · exact absurd rfl h2
  · exact absurd rfl h3
  · rfl

/-- **A component does to the buffer what it does to the stack.** -/
theorem Holds.step {stack : List (List Char)} {out : List Char × Nat} {c : List Char}
    (h : Holds stack out) (hs : ∀ d ∈ stack, IsName d) (hc : '/' ∉ c) :
    Holds (Path.push stack c) (normalizeStep out c) := by
  rcases push_cases hc stack with ⟨hdot, hpush⟩ | ⟨rfl, hpush⟩ | ⟨hname, hpush⟩ <;> rw [hpush]
  · rcases hdot with rfl | rfl
    · exact h
    · exact h
  · rw [normalizeStep]
    rcases eq_nil_or_concat stack with rfl | ⟨stack, d, rfl⟩
    · rw [h.ptr]
      exact h.pop_root
    · obtain ⟨hne, -, -, hslash⟩ := hs d (by simp)
      rw [concat_eq_append] at h ⊢
      obtain ⟨hback, hroot, hinner⟩ := h.pop hslash hne
      rw [dropLast_concat, hback]
      by_cases hstack : stack = []
      · subst hstack
        exact hroot rfl
      · obtain ⟨e, stack', rfl⟩ := exists_cons_of_ne_nil hstack
        rw [if_neg (by simp)]
        exact hinner hstack
  · rw [normalizeStep_name hname]
    exact h.push

theorem holds_foldl {cs stack : List (List Char)} {out : List Char × Nat} (h : Holds stack out)
    (hs : ∀ d ∈ stack, IsName d) (hcs : ∀ c ∈ cs, '/' ∉ c) :
    Holds (cs.foldl Path.push stack) (cs.foldl normalizeStep out) := by
  induction cs generalizing stack out with
  | nil => exact h
  | cons c cs ih =>
    have hc := hcs c mem_cons_self
    exact ih (h.step hs hc) (fun d hd => isName_of_mem_push hc hs hd) fun d hd => hcs d (mem_cons_of_mem c hd)

theorem holds_normalizeLoop : Holds (resolve (components path)) (normalizeLoop path) := by
  refine holds_foldl ⟨rfl, _, rfl⟩ (by simp) fun c hc => slash_notMem_of_mem_components hc

/-! ## 3. Nothing is written outside the buffer -/

/-! ## 4. The result -/

theorem normalizePath_eq {path : List Char} (h : path.head? = some '/') (hnul : nul ∉ path) :
    normalizePath path = .ok (resolvePath path) := by
  obtain ⟨rest, hrest⟩ := (holds_normalizeLoop path).text
  rw [normalizePath, if_pos h, hrest, cstr_append]
  · rfl
  · exact fun hmem => hnul (mem_of_mem_resolvePath h hmem)

/-- **The normal form of a path** is what the resolution of its components gives: it begins with `/`, has
no component that is empty, `.` or `..`, and no `/` at its end, unless it is `/`; and it is its own normal
form. -/
theorem normalizePath_resolves {path : List Char} (h : path.head? = some '/') (hnul : nul ∉ path) :
    normalizePath path = .ok (resolvePath path) ∧ (resolvePath path).head? = some '/' ∧
    (resolvePath path ≠ ['/'] → (resolvePath path).getLast? ≠ some '/' ∧
      ∀ c ∈ components (resolvePath path), c ≠ [] ∧ c ≠ ['.'] ∧ c ≠ ['.', '.']) ∧
    normalizePath (resolvePath path) = .ok (resolvePath path) := by
  have hcanonical := canonical_resolvePath path
  have hhead : (resolvePath path).head? = some '/' := head?_render _
  refine ⟨normalizePath_eq h hnul, hhead, fun hne => ⟨hcanonical.getLast? hne, fun c hc => ?_⟩, ?_⟩
  · obtain ⟨h1, h2, h3, -⟩ := hcanonical.isName hne c hc
    exact ⟨h1, h2, h3⟩
  · rw [normalizePath_eq hhead fun hmem => hnul (mem_of_mem_resolvePath h hmem),
      hcanonical.resolvePath]

theorem normalizePath_dots : normalizePath "/a/./b/../c///d/".toList = .ok "/a/c/d".toList := by
  have hslash : "/a/./b/../c///d/".toList.head? = some '/' := by decide
  have hnul : nul ∉ "/a/./b/../c///d/".toList := by decide
  have hresolve : resolvePath "/a/./b/../c///d/".toList = "/a/c/d".toList := by decide
  rw [(normalizePath_resolves hslash hnul).1, hresolve]

end Gct
