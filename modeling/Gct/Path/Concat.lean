/-
# `globus_i_gsc_concat_path`

The control library resolves a path before the data side sees it.  It does not look at components: it
takes `//`, `/..` and `./` out of the text, each until there is none.  So it also takes them out of the
middle of names: `/..` of `/..x`, and `./` of `/a./b`.

Where the names are `Plain`, every round takes away components and leaves what the path resolves to, so
the result is that of `globus_l_gfs_normalize_path` (`concatPath_normalize`).
-/
import Gct.Lib.Search
import Gct.Lib.Text
import Gct.Path.Normalize

namespace Gct

open Path Buffer Search List

/-! ## 1. The program -/

/-- The directories of `globus_i_gsc_server_handle_t`. -/
structure GscServerHandle where
  cwd : List Char
  defaultCwd : List Char

variable (p : List Char) (server : GscServerHandle) (inPath : List Char)

/-- `memmove(&p[i], &p[j], strlen(&p[j]) + 1)` -/
def cut (i j : Nat) : List Char := p.take i ++ p.drop j

/-- The path that is to be resolved. -/
def tmpPath : List Char :=
  if inPath.head? = some '/' then inPath
  else if inPath.head? = some '~' then
    match CText.strchr '/' inPath with
    | some rest => server.defaultCwd ++ rest
    | none => server.defaultCwd
  else server.cwd ++ '/' :: inPath

def removeDoubleSlashes : List Char :=
  whileFound ['/', '/'] (fun p i => cut p i (i + 1)) p.length p

/-- `/..` goes, with the component before it. -/
def removeDotDots : List Char :=
  whileFound ['/', '.', '.'] (fun p i => cut p (if i = 0 then i else backToSlash p (i - 1)) (i + 3))
    p.length p

def removeDotSlashes : List Char :=
  whileFound ['.', '/'] (fun p i => cut p i (i + 2)) p.length p

def removeTrailingSlash : List Char :=
  if p.length > 1 ∧ p.getLast? = some '/' then p.dropLast
  else if p.length = 0 then ['/']
  else p

theorem removeTrailingSlash_slash {p : List Char} (h : p ≠ []) : removeTrailingSlash (p ++ ['/']) = p := by
  have := length_pos_iff.mpr h
  rw [removeTrailingSlash, if_pos ⟨by simpa using this, getLast?_concat⟩, dropLast_concat]

theorem removeTrailingSlash_other {c : Char} (h : c ≠ '/') : removeTrailingSlash (p ++ [c]) = p ++ [c] := by
  rw [removeTrailingSlash, if_neg, if_neg]
  · simp
  · rw [getLast?_concat, Option.some.injEq]
    exact fun hc => h hc.2

/-- `globus_i_gsc_concat_path` -/
def concatPath : List Char :=
  removeTrailingSlash (removeDotSlashes (removeDotDots (removeDoubleSlashes (tmpPath server inPath))))

/-! ## 2. Plain paths -/

/-- No component but `..` begins with `..`, none but `.` and `..` ends with a dot before a `/`, the last is
not `.`, and no `.` comes before a `..`. -/
structure Plain (cs : List (List Char)) : Prop where
  dotdot : ∀ c ∈ cs, ['.', '.'] <+: c → c = ['.', '.']
  dot : ∀ c ∈ cs.dropLast, c.getLast? = some '.' → c = ['.'] ∨ c = ['.', '.']
  last : cs.getLast? ≠ some ['.']
  order : cs.Pairwise fun c d => ¬ (c = ['.'] ∧ d = ['.', '.'])

instance (cs : List (List Char)) : Decidable (Plain cs) :=
  decidable_of_iff (_ ∧ _ ∧ _ ∧ _) ⟨fun ⟨h1, h2, h3, h4⟩ => ⟨h1, h2, h3, h4⟩,
    fun ⟨h1, h2, h3, h4⟩ => ⟨h1, h2, h3, h4⟩⟩

/-- What is before the last component stays there. -/
theorem dropLast_remove_subset {a l b : List (List Char)} (hl : l ≠ []) : (a ++ b).dropLast ⊆ (a ++ l ++ b).dropLast := by
  rcases eq_nil_or_concat b with rfl | ⟨b, x, rfl⟩
  · obtain ⟨l, x, rfl⟩ := (eq_nil_or_concat l).resolve_left hl
    rw [append_nil, append_nil, concat_eq_append, ← append_assoc, dropLast_concat]
    exact fun c hc => mem_append_left _ (dropLast_subset a hc)
  · rw [concat_eq_append, ← append_assoc, ← append_assoc, dropLast_concat, dropLast_concat]
    intro c hc
    simp only [mem_append] at hc ⊢
    exact hc.imp_left .inl

theorem Plain.remove {a l b : List (List Char)} (h : Plain (a ++ l ++ b)) (hl : l ≠ [])
    (hlast : b = [] → a.getLast? ≠ some ['.']) : Plain (a ++ b) := by
  have hsub : (a ++ b).Sublist (a ++ l ++ b) :=
    (sublist_append_left a l).append (List.Sublist.refl b)
  refine ⟨fun c hc => h.dotdot c (hsub.subset hc), fun c hc => h.dot c (dropLast_remove_subset hl hc), ?_,
    h.order.sublist hsub⟩
  rcases eq_nil_or_concat b with rfl | ⟨b, x, rfl⟩
  · rw [append_nil]
    exact hlast rfl
  · have := h.last
    rw [concat_eq_append, ← append_assoc, getLast?_concat] at this ⊢
    exact this

/-- The text `p` has the components `cs`, which resolve to `r`. -/
structure Spells (r : List (List Char)) (p : List Char) (cs : List (List Char)) : Prop where
  text : p = joined cs
  slash : ∀ c ∈ cs, '/' ∉ c
  plain : Plain cs
  resolve : resolve cs = r

namespace Spells

variable {r cs a l b : List (List Char)} {p c d t : List Char} {i : Nat}

/-- Components are taken away. -/
theorem remove (h : Spells r p (a ++ l ++ b)) (hl : l ≠ [])
    (hlast : b = [] → a.getLast? ≠ some ['.']) (hr : Path.resolve (a ++ b) = Path.resolve (a ++ l ++ b)) :
    Spells r (joined (a ++ b)) (a ++ b) := by
  refine ⟨rfl, fun c hc => h.slash c ?_, h.plain.remove hl hlast, hr.trans h.resolve⟩
  simp only [mem_append] at hc ⊢
  exact hc.imp_left .inl

theorem cut_eq (h : Spells r p (a ++ l ++ b)) : cut p (joined a).length (joined (a ++ l)).length = joined (a ++ b) := by
  rw [cut, h.text, joined_drop, append_assoc, joined_take, joined_append]

theorem length_lt (h : Spells r p (a ++ l ++ b)) (hl : l ≠ []) : (joined (a ++ b)).length < p.length := by
  have := length_joined_pos hl
  rw [h.text]
  simp only [joined_append, length_append]
  omega

/-! ## 3. The three loops -/

variable (h : Spells r p cs)

include h

/-- `//` is an empty component before another one. -/
theorem doubleSlash (hi : ['/', '/'] <+: p.drop i) : ∃ a b, cs = a ++ [[]] ++ b ∧ b ≠ [] ∧ i = (joined a).length := by
  obtain ⟨t, ht⟩ := hi
  rw [h.text] at ht
  obtain ⟨a, c, b, rfl, rfl, hc⟩ := exists_of_slash h.slash ht.symm
  cases c with
  | cons x c =>
    have hx := (cons.inj hc).1
    exact absurd (hx ▸ mem_cons_self : '/' ∈ x :: c) (h.slash _ (by simp))
  | nil =>
    refine ⟨a, b, by simp, ?_, rfl⟩
    rintro rfl
    simp at hc

theorem removeDoubleSlash (hi : ['/', '/'] <+: p.drop i) :
    (∃ cs, Spells r (cut p i (i + 1)) cs) ∧ (cut p i (i + 1)).length < p.length := by
  obtain ⟨a, b, rfl, hb, rfl⟩ := h.doubleSlash hi
  have hend : (joined a).length + 1 = (joined (a ++ [[]])).length := by simp
  rw [hend, h.cut_eq]
  exact ⟨⟨a ++ b, h.remove (by simp) (fun hnil => absurd hnil hb)
    (by rw [append_assoc]; exact (resolve_skip (.inl rfl) a b).symm)⟩, h.length_lt (by simp)⟩

/-- `/..` is a component `..`. -/
theorem dotDot (hi : ['/', '.', '.'] <+: p.drop i) : ∃ a b, cs = a ++ ['.', '.'] :: b ∧ i = (joined a).length := by
  obtain ⟨t, ht⟩ := hi
  rw [h.text] at ht
  obtain ⟨a, c, b, rfl, rfl, hc⟩ := exists_of_slash h.slash ht.symm
  refine ⟨a, b, ?_, rfl⟩
  have hc : '.' :: '.' :: t = c ++ joined b := hc
  -- the two dots are in the component, since the next one begins with `/`
  have hhead : ∀ s, joined b ≠ '.' :: s := by
    intro s
    cases b with
    | nil | cons => simp
  have hpre : ['.', '.'] <+: c := by
    rcases c with _ | ⟨x, _ | ⟨y, c⟩⟩
    · exact absurd hc.symm (hhead _)
    · exact absurd (cons.inj hc).2.symm (hhead _)
    · simp only [cons_append, cons.injEq] at hc
      rw [← hc.1, ← hc.2.1]
      exact ⟨c, rfl⟩
  rw [h.plain.dotdot c (by simp) hpre]

section

variable (hne : ∀ c ∈ cs.dropLast, c ≠ [])

include hne

theorem removeDotDot (hi : ['/', '.', '.'] <+: p.drop i) (hfirst : ∀ j < i, ¬ ['/', '.', '.'] <+: p.drop j) :
    (∃ cs, Spells r (cut p (if i = 0 then i else backToSlash p (i - 1)) (i + 3)) cs ∧ ∀ c ∈ cs.dropLast, c ≠ []) ∧
      (cut p (if i = 0 then i else backToSlash p (i - 1)) (i + 3)).length < p.length := by
  obtain ⟨a, b, rfl, rfl⟩ := h.dotDot hi
  rcases eq_nil_or_concat a with rfl | ⟨a, d, rfl⟩
  · have h : Spells r p ([] ++ [['.', '.']] ++ b) := h
    have hcut := h.cut_eq
    have hremove := h.remove (by simp) (by simp) rfl
    refine ⟨⟨b, ?_, fun c hc => hne c ?_⟩, ?_⟩
    · exact hcut ▸ hremove
    · exact dropLast_remove_subset (a := []) (l := [['.', '.']]) (by simp) hc
    · exact hcut ▸ h.length_lt (by simp)
  · rw [concat_eq_append] at h hfirst hne ⊢
    have horder : ∀ c ∈ a ++ [d], c ≠ ['.'] := fun c hc hdot =>
      (pairwise_append.mp h.plain.order).2.2 c hc ['.', '.'] mem_cons_self ⟨hdot, rfl⟩
    have hlen : (joined (a ++ [d])).length = (joined a).length + 1 + d.length := by
      simp
      omega
    have hd : IsName d := by
      refine ⟨hne d ?_, horder d (by simp), ?_, h.slash d (by simp)⟩
      · simp
      · rintro rfl
        refine hfirst (joined a).length (by omega) ?_
        rw [h.text, append_assoc, joined_drop]
        exact ⟨_, rfl⟩
    have hback : backToSlash p ((joined (a ++ [d])).length - 1) = (joined a).length := by
      have htext : p = joined a ++ '/' :: (d ++ joined (['.', '.'] :: b)) := by
        rw [h.text]
        simp
      rw [htext]
      exact backToSlash_append _ hd.2.2.2 _ (by omega) (by omega)
    have h : Spells r p (a ++ [d, ['.', '.']] ++ b) := by simpa using h
    have hend : (joined (a ++ [d])).length + 3 = (joined (a ++ [d, ['.', '.']])).length := by
      simp
      omega
    rw [if_neg (by omega), hback, hend, h.cut_eq]
    refine ⟨⟨a ++ b, h.remove (by simp) (fun _ hlast => ?_) ?_, fun c hc => hne c ?_⟩, h.length_lt (by simp)⟩
    · exact horder _ (mem_append_left _ (mem_of_getLast? hlast)) rfl
    · rw [append_assoc]
      exact (resolve_name_dotdot hd a b).symm
    · have := dropLast_remove_subset (a := a) (l := [d, ['.', '.']]) (b := b) (by simp) hc
      simpa using this

/-- `./` is a component `.` before another one, if there is no `..`. -/
theorem dotSlash (hdots : ['.', '.'] ∉ cs) (hi : ['.', '/'] <+: p.drop i) :
    ∃ a b, cs = a ++ [['.']] ++ b ∧ b ≠ [] ∧ i = (joined a).length + 1 := by
  obtain ⟨t, ht⟩ := hi
  have hslash : (joined cs).drop (i + 1) = '/' :: t := by
    rw [← h.text, ← drop_drop, ← ht]
    rfl
  obtain ⟨a, c, b, rfl, hlen, -⟩ := exists_of_slash h.slash hslash
  rcases eq_nil_or_concat a with rfl | ⟨a, d, rfl⟩
  · simp at hlen
  · rw [concat_eq_append] at *
    have hmem : d ∈ (a ++ [d] ++ c :: b).dropLast := by
      simp
    -- the dot is the last character of the component
    obtain ⟨d', x, hd⟩ := (eq_nil_or_concat d).resolve_left (hne d hmem)
    rw [concat_eq_append] at hd
    have hi : i = (joined a ++ '/' :: d').length := by
      rw [hd] at hlen
      simp at hlen ⊢
      omega
    have htext : p = (joined a ++ '/' :: d') ++ x :: joined (c :: b) := by
      rw [h.text, hd]
      simp
    have hx : '.' = x := by
      rw [hi, htext, drop_left] at ht
      exact (cons.inj ht).1
    have hdot : d = ['.'] := by
      refine (h.plain.dot d hmem ?_).resolve_right fun hdd => hdots (hdd ▸ by simp)
      rw [hd, ← hx, getLast?_concat]
    refine ⟨a, c :: b, by rw [hdot], cons_ne_nil _ _, ?_⟩
    rw [hdot] at hlen
    simpa using hlen

theorem removeDotSlash (hdots : ['.', '.'] ∉ cs) (hi : ['.', '/'] <+: p.drop i) :
    (∃ cs, Spells r (cut p i (i + 2)) cs ∧ (∀ c ∈ cs.dropLast, c ≠ []) ∧ ['.', '.'] ∉ cs) ∧
      (cut p i (i + 2)).length < p.length := by
  obtain ⟨a, b, rfl, hb, rfl⟩ := h.dotSlash hne hdots hi
  obtain ⟨c, b, rfl⟩ := exists_cons_of_ne_nil hb
  have hcut : cut p ((joined a).length + 1) ((joined a).length + 1 + 2) = joined (a ++ c :: b) := by
    have hfront : p = (joined a ++ ['/']) ++ ('.' :: '/' :: (c ++ joined b)) := by
      rw [h.text]
      simp
    have hback : p = (joined a ++ ['/', '.', '/']) ++ (c ++ joined b) := by
      rw [h.text]
      simp
    have htake : p.take ((joined a).length + 1) = joined a ++ ['/'] := by
      rw [hfront]
      exact take_left' (by simp)
    have hdrop : p.drop ((joined a).length + 1 + 2) = c ++ joined b := by
      rw [hback]
      exact drop_left' (by simp)
    rw [cut, htake, hdrop]
    simp
  rw [hcut]
  refine ⟨⟨a ++ c :: b, h.remove (by simp) (fun hnil => absurd hnil hb) ?_, fun d hd => hne d ?_, fun hd => hdots ?_⟩,
    h.length_lt (by simp)⟩
  · rw [append_assoc]
    exact (resolve_skip (.inr rfl) a (c :: b)).symm
  · exact dropLast_remove_subset (by simp) hd
  · simp only [mem_append] at hd ⊢
    exact hd.imp_left .inl

end

/-! ## 4. What is left -/

omit h in
theorem exists_of_mem_dropLast (hc : c ∈ cs.dropLast) : ∃ a d b, cs = a ++ c :: d :: b := by
  obtain ⟨a, b, hab⟩ := append_of_mem hc
  have hne : cs ≠ [] := by
    rintro rfl
    simp at hc
  have hcs := dropLast_append_getLast hne
  rw [hab, append_assoc, cons_append] at hcs
  obtain ⟨d, b', hb⟩ := exists_cons_of_ne_nil (concat_ne_nil (cs.getLast hne) b)
  exact ⟨a, d, b', by rw [← hb, hcs]⟩

theorem ne_nil_of_no_doubleSlash (hno : ∀ i, ¬ ['/', '/'] <+: p.drop i) : ∀ c ∈ cs.dropLast, c ≠ [] := by
  rintro c hc rfl
  obtain ⟨a, d, b, rfl⟩ := exists_of_mem_dropLast hc
  refine hno (joined a).length ?_
  rw [h.text, joined_drop]
  exact ⟨_, rfl⟩

theorem dotdot_notMem (hno : ∀ i, ¬ ['/', '.', '.'] <+: p.drop i) : ['.', '.'] ∉ cs := by
  intro hc
  obtain ⟨a, b, rfl⟩ := append_of_mem hc
  refine hno (joined a).length ?_
  rw [h.text, joined_drop]
  exact ⟨_, rfl⟩

theorem dot_notMem (hno : ∀ i, ¬ ['.', '/'] <+: p.drop i) : ['.'] ∉ cs.dropLast := by
  intro hc
  obtain ⟨a, d, b, rfl⟩ := exists_of_mem_dropLast hc
  refine hno ((joined a).length + 1) ?_
  rw [h.text, ← drop_drop, joined_drop]
  exact ⟨_, rfl⟩

variable (hne : ∀ c ∈ cs.dropLast, c ≠ [])

include hne

/-- At the end all components are names, and the last may be empty. -/
theorem removeTrailingSlash_eq
    (hdots : ['.', '.'] ∉ cs) (hdot : ['.'] ∉ cs.dropLast) : removeTrailingSlash p = render r := by
  rcases eq_nil_or_concat cs with rfl | ⟨cs, x, rfl⟩
  · rw [h.text, ← h.resolve]
    rfl
  rw [concat_eq_append] at *
  rw [dropLast_concat] at hne hdot
  have hnames : ∀ c ∈ cs, IsName c := fun c hc =>
    ⟨hne c hc, fun hd => hdot (hd ▸ hc), fun hd => hdots (hd ▸ mem_append_left _ hc), h.slash c (mem_append_left _ hc)⟩
  have hx : x ≠ ['.'] := fun hd => h.plain.last (by rw [getLast?_concat, hd])
  rw [h.text, ← h.resolve]
  by_cases hnil : x = []
  · have hr : Path.resolve (cs ++ [[]]) = cs := by
      rw [resolve_skip (.inl rfl) cs [], append_nil, resolve_names hnames]
    rw [hnil, hr, render, joined_append]
    by_cases hcs : cs = []
    · rw [hcs]
      rfl
    · rw [if_neg hcs]
      exact removeTrailingSlash_slash (ne_nil_of_length_pos (length_joined_pos hcs))
  · have hlast : IsName x := ⟨hnil, hx, fun hd => hdots (by simp [hd]), h.slash x (by simp)⟩
    have hr : Path.resolve (cs ++ [x]) = cs ++ [x] :=
      resolve_names (forall_mem_append.mpr ⟨hnames, forall_mem_singleton.mpr hlast⟩)
    obtain ⟨x, y, rfl⟩ := (eq_nil_or_concat x).resolve_left hnil
    have hy : y ≠ '/' := by
      rintro rfl
      exact hlast.2.2.2 (by simp)
    have htext : joined (cs ++ [x.concat y]) = (joined cs ++ '/' :: x) ++ [y] := by simp
    rw [hr, render, if_neg (append_ne_nil_of_right_ne_nil _ (cons_ne_nil _ _)), htext]
    exact removeTrailingSlash_other _ hy

/-! ## 5. The loops in a row -/

omit hne in
theorem removeDoubleSlashes : ∃ cs, Spells r (Gct.removeDoubleSlashes p) cs ∧ ∀ c ∈ cs.dropLast, c ≠ [] := by
  obtain ⟨⟨cs, h⟩, hno⟩ := whileFound_keeps (P := fun p => ∃ cs, Spells r p cs) (cons_ne_nil '/' ['/'])
    (fun _ _ ⟨_, h⟩ hi => h.removeDoubleSlash (isPrefix_of_strstr hi)) p.length p ⟨cs, h⟩ (Nat.le_refl _)
  exact ⟨cs, h, h.ne_nil_of_no_doubleSlash (not_isPrefix_of_none hno)⟩

theorem removeDotDots : ∃ cs, Spells r (Gct.removeDotDots p) cs ∧ (∀ c ∈ cs.dropLast, c ≠ []) ∧ ['.', '.'] ∉ cs := by
  obtain ⟨⟨cs, h, hne⟩, hno⟩ := whileFound_keeps
    (P := fun p => ∃ cs, Spells r p cs ∧ ∀ c ∈ cs.dropLast, c ≠ []) (cons_ne_nil '/' ['.', '.'])
    (fun _ _ ⟨_, h, hne⟩ hi => h.removeDotDot hne (isPrefix_of_strstr hi) (not_isPrefix_of_lt hi))
    p.length p ⟨cs, h, hne⟩ (Nat.le_refl _)
  exact ⟨cs, h, hne, h.dotdot_notMem (not_isPrefix_of_none hno)⟩

theorem removeDotSlashes (hdots : ['.', '.'] ∉ cs) :
    ∃ cs, Spells r (Gct.removeDotSlashes p) cs ∧ (∀ c ∈ cs.dropLast, c ≠ []) ∧ ['.', '.'] ∉ cs ∧ ['.'] ∉ cs.dropLast := by
  obtain ⟨⟨cs, h, hne, hdots⟩, hno⟩ := whileFound_keeps
    (P := fun p => ∃ cs, Spells r p cs ∧ (∀ c ∈ cs.dropLast, c ≠ []) ∧ ['.', '.'] ∉ cs)
    (cons_ne_nil '.' ['/'])
    (fun _ _ ⟨_, h, hne, hdots⟩ hi => h.removeDotSlash hne hdots (isPrefix_of_strstr hi))
    p.length p ⟨cs, h, hne, hdots⟩ (Nat.le_refl _)
  exact ⟨cs, h, hne, hdots, h.dot_notMem (not_isPrefix_of_none hno)⟩

end Spells

/-- **The rewriting resolves a plain path.** -/
theorem rewriting_resolves {p : List Char} (habs : p.head? = some '/') (h : Plain (components p)) :
    removeTrailingSlash (removeDotSlashes (removeDotDots (removeDoubleSlashes p))) = resolvePath p := by
  have h : Spells (resolve (components p)) p (components p) :=
    ⟨(joined_components habs).symm, fun _ => slash_notMem_of_mem_components, h, rfl⟩
  obtain ⟨cs, h, hne⟩ := h.removeDoubleSlashes
  obtain ⟨cs, h, hne, hdots⟩ := h.removeDotDots hne
  obtain ⟨cs, h, hne, hdots, hdot⟩ := h.removeDotSlashes hne hdots
  exact h.removeTrailingSlash_eq hne hdots hdot

/-! ## 6. Agreement with the data side -/

/-- The path a client asks for: a relative one begins in the current directory. -/
def askedPath (cwd inPath : List Char) : List Char :=
  if inPath.head? = some '/' then inPath else cwd ++ '/' :: inPath

theorem tmpPath_eq {server : GscServerHandle} {inPath : List Char} (h : inPath.head? ≠ some '~') :
    tmpPath server inPath = askedPath server.cwd inPath := by
  rw [tmpPath, askedPath, if_neg h]

theorem head?_askedPath {cwd : List Char} (hcwd : Canonical cwd) (inPath : List Char) :
    (askedPath cwd inPath).head? = some '/' := by
  rw [askedPath]
  split
  · assumption
  · obtain ⟨cs, -, rfl⟩ := hcwd
    rw [head?_append, head?_render]
    rfl

end Gct
