/-
# Paths and their components

A path is a text in which `/` separates the components.  `components` are the pieces behind the first
`/`, the empty ones included, and `joined` puts a `/` before each of them.

`resolve` reads the components from the left with a stack: empty ones and `.` are dropped, and `..` takes
the last one away, if there is one.  A path whose components are `Canonical` is what `resolve` leaves, and
`resolvePath` does nothing to it.
-/
import Mathlib.Data.List.Basic
import Gct.Lib.Words

namespace Path

open List

/-! ## 1. Components -/

/-- The pieces behind the first character. -/
def components (p : List Char) : List (List Char) := p.tail.splitOn '/'

def joined (cs : List (List Char)) : List Char := cs.flatMap ('/' :: ·)

@[simp] theorem joined_nil : joined [] = [] := rfl

@[simp] theorem joined_cons (c : List Char) (cs : List (List Char)) : joined (c :: cs) = '/' :: c ++ joined cs := rfl

@[simp] theorem joined_append (cs ds : List (List Char)) : joined (cs ++ ds) = joined cs ++ joined ds :=
  flatMap_append

variable {cs : List (List Char)} {p : List Char} {c : List Char}

theorem joined_eq_cons_intercalate (h : cs ≠ []) : joined cs = '/' :: ['/'].intercalate cs := by
  induction cs with
  | nil => exact absurd rfl h
  | cons c cs ih =>
    cases cs with
    | nil => simp
    | cons d cs =>
      rw [joined_cons, ih (cons_ne_nil d cs), intercalate_cons_cons]
      simp

theorem joined_components (h : p.head? = some '/') : joined (components p) = p := by
  obtain ⟨q, rfl⟩ := head?_eq_some_iff.mp h
  rw [components, joined_eq_cons_intercalate (splitOn_ne_nil _ _), intercalate_splitOn]
  rfl

theorem components_joined (hne : cs ≠ []) (h : ∀ c ∈ cs, '/' ∉ c) : components (joined cs) = cs := by
  rw [joined_eq_cons_intercalate hne, components, tail_cons, splitOn_intercalate _ h hne]

variable {c p d q : List Char} (stack : List (List Char)) (a b : List (List Char))

theorem slash_notMem_of_mem_splitOn {l : List Char} (h : c ∈ l.splitOn '/') : '/' ∉ c :=
  fun hmem => absurd (Words.of_mem_splitOnP h _ hmem).2 (by decide)

theorem slash_notMem_of_mem_components (h : c ∈ components p) : '/' ∉ c :=
  slash_notMem_of_mem_splitOn h

/-- A `/` is where a component begins. -/
theorem exists_of_slash (hcs : ∀ c ∈ cs, '/' ∉ c) {i : Nat} {t : List Char} (h : (joined cs).drop i = '/' :: t) :
    ∃ a c b, cs = a ++ c :: b ∧ i = (joined a).length ∧ t = c ++ joined b := by
  induction cs generalizing i with
  | nil => simp at h
  | cons c cs ih =>
    cases i with
    | zero =>
      refine ⟨[], c, cs, rfl, rfl, ?_⟩
      exact (cons.inj h).2.symm
    | succ i =>
      rw [joined_cons, cons_append, drop_succ_cons] at h
      rcases Nat.lt_or_ge i c.length with hi | hi
      · -- not inside a component
        rw [drop_append_of_le_length (Nat.le_of_lt hi)] at h
        have hmem : '/' ∈ c.drop i := by
          cases hd : c.drop i with
          | nil =>
            have := congrArg length hd
            rw [length_drop, length_nil] at this
            omega
          | cons x l =>
            rw [hd, cons_append] at h
            rw [(cons.inj h).1]
            exact mem_cons_self
        exact absurd (mem_of_mem_drop hmem) (hcs c mem_cons_self)
      · obtain ⟨j, rfl⟩ := Nat.exists_eq_add_of_le hi
        rw [← drop_drop, drop_left] at h
        obtain ⟨a, d, b, rfl, rfl, rfl⟩ := ih (fun d hd => hcs d (mem_cons_of_mem c hd)) h
        refine ⟨c :: a, d, b, rfl, ?_, rfl⟩
        rw [joined_cons, cons_append, length_cons, length_append]

theorem joined_drop : (joined (a ++ b)).drop (joined a).length = joined b := by
  rw [joined_append, drop_left]

theorem joined_take : (joined (a ++ b)).take (joined a).length = joined a := by
  rw [joined_append, take_left]

theorem length_joined_pos {l : List (List Char)} (h : l ≠ []) : 0 < (joined l).length := by
  obtain ⟨c, l, rfl⟩ := exists_cons_of_ne_nil h
  rw [joined_cons, cons_append, length_cons]
  exact Nat.succ_pos _

/-! ## 2. Resolution -/

/-- What a component does to the stack. -/
def push (c : List Char) : List (List Char) :=
  if c = [] ∨ c = ['.'] then stack
  else if c = ['.', '.'] then stack.dropLast
  else stack ++ [c]

def resolve (cs : List (List Char)) : List (List Char) := cs.foldl push []

/-- The path of a stack. -/
def render : List Char := if stack = [] then ['/'] else joined stack

def resolvePath (p : List Char) : List Char := render (resolve (components p))

/-- A component that stays. -/
def IsName (c : List Char) : Prop := c ≠ [] ∧ c ≠ ['.'] ∧ c ≠ ['.', '.'] ∧ '/' ∉ c

instance (c : List Char) : Decidable (IsName c) := inferInstanceAs (Decidable (_ ∧ _))

theorem push_name (h : IsName c) (stack : List (List Char)) : push stack c = stack ++ [c] := by
  rw [push, if_neg (not_or.mpr ⟨h.1, h.2.1⟩), if_neg h.2.2.1]

/-- The three things a component can be. -/
theorem push_cases (hc : '/' ∉ c) (stack : List (List Char)) : (c = [] ∨ c = ['.']) ∧ push stack c = stack ∨
    c = ['.', '.'] ∧ push stack c = stack.dropLast ∨ IsName c ∧ push stack c = stack ++ [c] := by
  by_cases h1 : c = [] ∨ c = ['.']
  · exact .inl ⟨h1, if_pos h1⟩
  · by_cases h2 : c = ['.', '.']
    · exact .inr (.inl ⟨h2, by rw [push, if_neg h1, if_pos h2]⟩)
    · have hname : IsName c := ⟨fun h => h1 (.inl h), fun h => h1 (.inr h), h2, hc⟩
      exact .inr (.inr ⟨hname, push_name hname stack⟩)

theorem isName_of_mem_push {stack : List (List Char)} (hc : '/' ∉ c)
    (hs : ∀ d ∈ stack, IsName d) (hd : d ∈ push stack c) : IsName d := by
  rcases push_cases hc stack with ⟨-, h⟩ | ⟨-, h⟩ | ⟨hname, h⟩ <;> rw [h] at hd
  · exact hs d hd
  · exact hs d (dropLast_subset stack hd)
  · rcases mem_append.mp hd with hd | hd
    · exact hs d hd
    · rw [mem_singleton.mp hd]
      exact hname

theorem isName_of_mem_resolve (hcs : ∀ c ∈ cs, '/' ∉ c) : ∀ d ∈ resolve cs, IsName d := by
  have h : ∀ (cs stack : List (List Char)), (∀ c ∈ cs, '/' ∉ c) → (∀ d ∈ stack, IsName d) →
      ∀ d ∈ cs.foldl push stack, IsName d := by
    intro cs
    induction cs with
    | nil => exact fun stack _ hs => hs
    | cons c cs ih =>
      intro stack hcs hs
      exact ih (push stack c) (fun d hd => hcs d (mem_cons_of_mem c hd))
        (fun d hd => isName_of_mem_push (hcs c mem_cons_self) hs hd)
  exact h cs [] hcs (by simp)

/-- Resolution makes no new components. -/
theorem mem_of_mem_resolve (hd : d ∈ resolve cs) : d ∈ cs := by
  have hpush : ∀ (stack : List (List Char)) (c : List Char), ∀ e ∈ push stack c, e ∈ stack ∨ e = c := by
    intro stack c e he
    unfold push at he
    split at he
    · exact .inl he
    · split at he
      · exact .inl (dropLast_subset stack he)
      · simpa using he
  have h : ∀ (cs stack : List (List Char)), ∀ e ∈ cs.foldl push stack, e ∈ stack ∨ e ∈ cs := by
    intro cs
    induction cs with
    | nil => exact fun stack e he => .inl he
    | cons c cs ih =>
      intro stack e he
      rcases ih (push stack c) e he with he | he
      · refine (hpush stack c e he).imp_right fun h => ?_
        rw [h]
        exact mem_cons_self
      · exact .inr (mem_cons_of_mem c he)
  exact (h cs [] d hd).resolve_left not_mem_nil

theorem foldl_push_names (h : ∀ c ∈ cs, IsName c) (stack : List (List Char)) : cs.foldl push stack = stack ++ cs := by
  induction cs generalizing stack with
  | nil => simp
  | cons c cs ih =>
    rw [foldl_cons, push_name (h c mem_cons_self),
      ih (fun d hd => h d (mem_cons_of_mem c hd)), append_assoc, singleton_append]

theorem resolve_names (h : ∀ c ∈ cs, IsName c) : resolve cs = cs :=
  (foldl_push_names h []).trans (nil_append cs)

/-- What a component that is empty or `.` leaves. -/
theorem resolve_skip (h : c = [] ∨ c = ['.']) (a b : List (List Char)) : resolve (a ++ c :: b) = resolve (a ++ b) := by
  have hpush : ∀ stack, push stack c = stack := fun stack => if_pos h
  simp only [resolve, foldl_append, foldl_cons, hpush]

/-- A name and the `..` behind it. -/
theorem resolve_name_dotdot (h : IsName d) (a b : List (List Char)) :
    resolve (a ++ d :: ['.', '.'] :: b) = resolve (a ++ b) := by
  have hpush : ∀ stack, push (push stack d) ['.', '.'] = stack := by
    intro stack
    rw [push_name h]
    exact dropLast_concat
  simp only [resolve, foldl_append, foldl_cons, hpush]

/-! ## 3. Canonical paths -/

/-- A path as `resolvePath` leaves it. -/
def Canonical (p : List Char) : Prop := ∃ cs : List (List Char), (∀ c ∈ cs, IsName c) ∧ p = render cs

theorem head?_render : (render stack).head? = some '/' := by
  cases stack with
  | nil | cons => rfl

theorem mem_joined {x : Char} (h : x ∈ joined cs) : x = '/' ∨ ∃ c ∈ cs, x ∈ c := by
  obtain ⟨c, hc, hx⟩ := mem_flatMap.mp h
  exact (mem_cons.mp hx).imp_right fun hx => ⟨c, hc, hx⟩

/-- Nor new characters. -/
theorem mem_of_mem_resolvePath {x : Char} (hp : p.head? = some '/') (hx : x ∈ resolvePath p) : x ∈ p := by
  have hslash : '/' ∈ p := mem_of_head? hp
  have hcomp : ∀ c ∈ components p, ∀ y ∈ c, y ∈ p := by
    intro c hc y hy
    rw [← joined_components hp]
    exact mem_flatMap.mpr ⟨c, hc, mem_cons_of_mem _ hy⟩
  unfold resolvePath render at hx
  split at hx
  · rw [mem_singleton.mp hx]
    exact hslash
  · rcases mem_joined hx with rfl | ⟨c, hc, hxc⟩
    · exact hslash
    · exact hcomp c (mem_of_mem_resolve hc) x hxc

theorem canonical_resolvePath (p : List Char) : Canonical (resolvePath p) :=
  ⟨resolve (components p), isName_of_mem_resolve fun _ => slash_notMem_of_mem_components, rfl⟩

/-- Resolution does nothing to a canonical path. -/
theorem Canonical.resolvePath (h : Canonical p) : resolvePath p = p := by
  obtain ⟨cs, hcs, rfl⟩ := h
  cases cs with
  | nil => decide
  | cons c cs =>
    have hcomp : components (render (c :: cs)) = c :: cs :=
      components_joined (cons_ne_nil c cs) fun d hd => (hcs d hd).2.2.2
    rw [Path.resolvePath, hcomp, resolve_names hcs]

/-- No component of a canonical path is empty, `.` or `..`, unless it is `/`. -/
theorem Canonical.isName (h : Canonical p) (hp : p ≠ ['/']) : ∀ c ∈ components p, IsName c := by
  obtain ⟨cs, hcs, rfl⟩ := h
  cases cs with
  | nil => exact absurd rfl hp
  | cons c cs =>
    rw [render, if_neg (cons_ne_nil c cs), components_joined (cons_ne_nil c cs) fun d hd => (hcs d hd).2.2.2]
    exact hcs

/-- It does not end with `/`, unless it is `/`. -/
theorem Canonical.getLast? (h : Canonical p) (hp : p ≠ ['/']) : p.getLast? ≠ some '/' := by
  obtain ⟨cs, hcs, rfl⟩ := h
  rcases eq_nil_or_concat cs with rfl | ⟨cs, c, rfl⟩
  · exact absurd rfl hp
  · obtain ⟨hne, -, -, hslash⟩ := hcs c (by simp)
    obtain ⟨d, x, rfl⟩ := (eq_nil_or_concat c).resolve_left hne
    have hend : render (cs.concat (d.concat x)) = joined cs ++ '/' :: d ++ [x] := by
      rw [render, if_neg (by simp)]
      simp
    rw [hend, getLast?_concat]
    intro hx
    cases hx
    exact hslash (by simp)

/-! ## 4. From a working directory -/

/-- Where a path leads from the directory `cwd`. -/
def location (cwd : List (List Char)) (p : List Char) : List (List Char) :=
  (p.splitOn '/').foldl push (if p.head? = some '/' then [] else cwd)

theorem splitOn_append_slash (p q : List Char) : (p ++ '/' :: q).splitOn '/' = p.splitOn '/' ++ q.splitOn '/' :=
  splitOnP_append_cons p q (by decide)

theorem location_append (hp : p ≠ []) (cwd : List (List Char)) (q : List Char) :
    location cwd (p ++ '/' :: q) = (q.splitOn '/').foldl push (location cwd p) := by
  have hhead : (p ++ '/' :: q).head? = p.head? := head?_append_of_ne_nil p hp
  rw [location, location, hhead, splitOn_append_slash, foldl_append]

/-- A text all pieces of which stay. -/
def Tidy (p : List Char) : Prop := ∀ c ∈ p.splitOn '/', IsName c

theorem tidy_of_isName (h : IsName p) : Tidy p := by
  intro c hc
  rw [splitOn_eq_singleton h.2.2.2, mem_singleton] at hc
  exact hc ▸ h

theorem isName_of_plain (hp : p ≠ []) (h : ∀ x ∈ p, x ≠ '/' ∧ x ≠ '.') : IsName p := by
  refine ⟨hp, ?_, ?_, fun hmem => (h '/' hmem).1 rfl⟩
  · rintro rfl
    exact (h '.' mem_cons_self).2 rfl
  · rintro rfl
    exact (h '.' mem_cons_self).2 rfl

theorem Tidy.append_slash (hp : Tidy p) (hq : Tidy q) : Tidy (p ++ '/' :: q) := by
  intro c hc
  rw [splitOn_append_slash] at hc
  exact (mem_append.mp hc).elim (hp c) (hq c)

/-- Characters in front of a tidy text that are neither `/` nor `.`. -/
theorem Tidy.append (hp : ∀ x ∈ p, x ≠ '/' ∧ x ≠ '.') (hq : Tidy q) : Tidy (p ++ q) := by
  induction p with
  | nil => exact hq
  | cons x p ih =>
    obtain ⟨⟨hslash, hdot⟩, hp⟩ := forall_mem_cons.mp hp
    have htail := ih hp
    intro c hc
    rw [cons_append, splitOn, splitOnP_cons_eq_if_modifyHead, if_neg (by simpa using hslash)] at hc
    obtain ⟨d, ds, hds⟩ := exists_cons_of_ne_nil (splitOn_ne_nil '/' (p ++ q))
    rw [Tidy, hds] at htail
    rw [splitOn] at hds
    rw [hds, modifyHead_cons] at hc
    rcases mem_cons.mp hc with rfl | hc
    · have hd := (htail d mem_cons_self).2.2.2
      refine ⟨cons_ne_nil x d, ?_, ?_, ?_⟩
      · exact fun h => hdot (cons.inj h).1
      · exact fun h => hdot (cons.inj h).1
      · exact not_mem_cons_of_ne_of_not_mem (Ne.symm hslash) hd
    · exact htail c (mem_cons_of_mem d hc)

theorem location_append_tidy (hp : p ≠ []) (cwd : List (List Char)) (hq : Tidy q) :
    location cwd (p ++ '/' :: q) = location cwd p ++ q.splitOn '/' := by
  rw [location_append hp, foldl_push_names hq]

theorem splitOn_slash_injective (h : p.splitOn '/' = q.splitOn '/') : p = q := by
  have htexts := congrArg (['/'].intercalate ·) h
  simpa only [intercalate_splitOn] using htexts

end Path
