/-
# Lines that end with CR LF

A line is a text in which no CR is followed by an LF; alone, both may occur anywhere in it.  `join`
writes lines one after the other, each with its CR LF.  A text that breaks off in the middle of
them consists of some whole lines and a beginning of the next one, without its LF
(`exists_of_prefix_join`).  The first empty line is where two CR LF follow each other
(`strstr_blank`).
-/
import Gct.Lib.Search

namespace Lines

open List Search

/-- No CR is followed by an LF. -/
def NoCrlf : List Char → Prop
  | [] => True
  | [_] => True
  | c :: d :: l => ¬ (c = '\r' ∧ d = '\n') ∧ NoCrlf (d :: l)

variable {l : List Char}

theorem noCrlf_cons {c : Char} : NoCrlf (c :: l) ↔ ¬ (c = '\r' ∧ l.head? = some '\n') ∧ NoCrlf l := by
  cases l with
  | nil | cons => simp [NoCrlf]

theorem noCrlf_append {a b : List Char} :
    NoCrlf (a ++ b) ↔ NoCrlf a ∧ NoCrlf b ∧ ¬ (a.getLast? = some '\r' ∧ b.head? = some '\n') := by
  induction a with
  | nil => simp [NoCrlf]
  | cons c a ih =>
    rw [cons_append, noCrlf_cons, noCrlf_cons, ih]
    cases a with
    | nil => simp [NoCrlf]; tauto
    | cons d a => simp only [cons_append, head?_cons, getLast?_cons_cons]; tauto

theorem NoCrlf.of_prefix {a l : List Char} (h : NoCrlf l) (ha : a <+: l) : NoCrlf a := by
  obtain ⟨b, rfl⟩ := ha
  exact (noCrlf_append.mp h).1

/-- A text without an LF is a line. -/
theorem noCrlf_of_notMem (h : '\n' ∉ l) : NoCrlf l := by
  induction l with
  | nil => trivial
  | cons c l ih =>
    rw [mem_cons, not_or] at h
    refine noCrlf_cons.mpr ⟨fun hc => h.2 ?_, ih h.2⟩
    exact mem_of_mem_head? hc.2

/-- A line can be followed by the CR that ends it, which is no part of a CR LF in it. -/
theorem NoCrlf.concat_cr (h : NoCrlf l) : NoCrlf (l ++ ['\r']) :=
  noCrlf_append.mpr ⟨h, trivial, by simp⟩

/-- The lines, each with its CR LF. -/
def join (ls : List (List Char)) : List Char := ls.flatMap (· ++ ['\r', '\n'])

@[simp] theorem join_nil : join [] = [] := rfl

@[simp] theorem join_cons (l : List Char) (ls : List (List Char)) : join (l :: ls) = l ++ '\r' :: '\n' :: join ls := by
  simp [join]

@[simp] theorem join_append (a b : List (List Char)) : join (a ++ b) = join a ++ join b := by
  simp [join]

/-- A text has no CR LF, or it begins with a line. -/
theorem noCrlf_or_exists (s : List Char) : NoCrlf s ∨ ∃ l rest, NoCrlf l ∧ s = l ++ '\r' :: '\n' :: rest := by
  induction s with
  | nil => exact .inl trivial
  | cons c s ih =>
    by_cases hc : c = '\r' ∧ s.head? = some '\n'
    · obtain ⟨rest, rfl⟩ := head?_eq_some_iff.mp hc.2
      exact .inr ⟨[], rest, trivial, by rw [hc.1]; rfl⟩
    · rcases ih with hs | ⟨l, rest, hl, rfl⟩
      · exact .inl (noCrlf_cons.mpr ⟨hc, hs⟩)
      · refine .inr ⟨c :: l, rest, noCrlf_cons.mpr ⟨fun h => hc ⟨h.1, ?_⟩, hl⟩, rfl⟩
        rw [head?_append, h.2]
        rfl

/-- **A text consists of lines and of a part without a CR LF.** -/
theorem exists_lines (s : List Char) : ∃ ls part, (∀ l ∈ ls, NoCrlf l) ∧ NoCrlf part ∧ s = join ls ++ part := by
  rcases noCrlf_or_exists s with hs | ⟨l, rest, hl, hs⟩
  · exact ⟨[], s, by simp, hs, rfl⟩
  · obtain ⟨ls, part, hls, hpart, hrest⟩ := exists_lines rest
    exact ⟨l :: ls, part, forall_mem_cons.mpr ⟨hl, hls⟩, hpart, by simp [hs, hrest]⟩
termination_by s.length
decreasing_by
  rw [hs, length_append, length_cons, length_cons]
  omega

/-- What a text that breaks off in the middle of lines looks like. -/
theorem exists_of_prefix_join {ls : List (List Char)} {p : List Char} (hp : p <+: join ls)
    (hlt : p.length < (join ls).length) : ∃ a l b part, ls = a ++ l :: b ∧ p = join a ++ part ∧ part <+: l ++ ['\r'] := by
  induction ls generalizing p with
  | nil => simp at hlt
  | cons l ls ih =>
    rw [join_cons] at hp hlt
    by_cases hshort : p.length ≤ l.length + 1
    · -- it breaks off in the first line
      refine ⟨[], l, ls, p, rfl, rfl, ?_⟩
      refine prefix_of_prefix_length_le hp ?_ (by simpa using hshort)
      exact ⟨'\n' :: join ls, by simp⟩
    · have hwhole : l ++ ['\r', '\n'] <+: p := by
        refine prefix_of_prefix_length_le ⟨join ls, ?_⟩ hp ?_
        · simp
        · simp only [length_append, length_cons, length_nil]
          omega
      obtain ⟨q, rfl⟩ := hwhole
      have hq : q <+: join ls := by
        have hjoin : l ++ '\r' :: '\n' :: join ls = l ++ ['\r', '\n'] ++ join ls := by simp
        rw [hjoin] at hp
        exact (prefix_append_right_inj _).mp hp
      obtain ⟨a, l', b, part, rfl, rfl, hpart⟩ := ih hq (by simpa using hlt)
      exact ⟨l :: a, l', b, part, rfl, by simp, hpart⟩

/-- Lines that are not empty, and then an empty one: the two CR LF begin at the end of the last line. -/
theorem strstr_blank (t : List Char) : ∀ (ls : List (List Char)), ls ≠ [] → (∀ l ∈ ls, l ≠ [] ∧ '\r' ∉ l) →
      strstr ['\r', '\n', '\r', '\n'] (join ls ++ '\r' :: '\n' :: t) = some ((join ls).length - 2)
  | [], hne, _ => absurd rfl hne
  | [l], _, h => by
    have hl := (h l mem_cons_self).2
    have hend : strstr ['\r', '\n', '\r', '\n'] (['\r', '\n'] ++ '\r' :: '\n' :: t) = some 0 :=
      strstr_of_isPrefix ⟨t, rfl⟩
    rw [join_cons, join_nil, append_assoc, strstr_append (not_isPrefix_of_notMem hl _ _), hend]
    simp
  | l :: l' :: ls, _, h => by
    have hl := (h l mem_cons_self).2
    have ih := strstr_blank t (l' :: ls) (cons_ne_nil _ _) fun m hm => h m (mem_cons_of_mem l hm)
    obtain ⟨c, l', rfl⟩ := exists_cons_of_ne_nil (h l' (by simp)).1
    have hc : '\r' ≠ c := fun hc => (h (c :: l') (by simp)).2 (hc ▸ mem_cons_self)
    have hskip : ∀ j < ['\r', '\n'].length, ¬ ['\r', '\n', '\r', '\n'] <+:
        (['\r', '\n'] ++ (join ((c :: l') :: ls) ++ '\r' :: '\n' :: t)).drop j := by
      intro j hj hpre
      rcases j with _ | _ | j
      · simp [hc] at hpre
      · simp at hpre
      · exact absurd hj (Nat.not_lt_of_le (Nat.le_add_left 2 j))
    have htext : '\r' :: '\n' :: join ((c :: l') :: ls) ++ '\r' :: '\n' :: t =
        ['\r', '\n'] ++ (join ((c :: l') :: ls) ++ '\r' :: '\n' :: t) := rfl
    have hpos : 2 ≤ (join ((c :: l') :: ls)).length := by
      simp
      omega
    rw [join_cons, append_assoc, strstr_append (not_isPrefix_of_notMem hl _ _), htext, strstr_append hskip, ih]
    simp only [Option.map_some, length_append, length_cons, length_nil, Option.some.injEq]
    omega

end Lines
