/-
# Finding the end of a reply

A reply is a final line (three digits and a space), or a line with three digits and a dash, then lines
that are not final, then a final one.  `globus_l_ftp_control_end_of_reply` finds the end of the first
reply in a buffer (`endOfReply_render`), and nothing in a buffer that breaks off in it
(`endOfReply_of_prefix`), whatever the hint: the fast check looks from the start of the line in which
the last read began, and if the reply was not complete then, its final line is there or behind.

Both searches take a buffer line by line (`replyLoop_join`, `checkFinalLineLoop_join`).  They differ in
the first line only, where the full scan gives up if there is no code (`checkFinalLineFast_iff`).
-/
import Mathlib.Data.List.Induction
import Gct.Lib.Lines
import Gct.Reply.Basic

namespace Gct

open Lines List Response

/-! ## 1. Replies -/

/-- Three digits, then `sep`. -/
def CodeLine (sep : Char) : List Char → Bool
  | a :: b :: c :: d :: _ => a.isDigit && b.isDigit && c.isDigit && d == sep
  | _ => false

theorem CodeLine.length {sep : Char} {l : List Char} (h : CodeLine sep l) : 4 ≤ l.length := by
  match l, h with
  | a :: b :: c :: d :: t, _ => simp

/-- A reply that is not protected: the final line, and the lines before it if there are several. -/
structure Reply where
  front : List (List Char)
  last : List Char
  front_noCrlf : ∀ l ∈ front, NoCrlf l
  front_open : ∀ l ∈ front, CodeLine ' ' l = false
  front_head : ∀ l ∈ front.head?, CodeLine '-' l
  last_noCrlf : NoCrlf last
  last_final : CodeLine ' ' last
  last_clear : last.head? ≠ some '6'

variable (r : Reply) (s : List Char) (unwrap : List Char → Option (List Char))

theorem Reply.lines_noCrlf : ∀ l ∈ r.front ++ [r.last], NoCrlf l :=
  forall_mem_append.mpr ⟨r.front_noCrlf, forall_mem_singleton.mpr r.last_noCrlf⟩

/-- The bytes of a reply. -/
def Reply.render (r : Reply) : List Char := join (r.front ++ [r.last])

theorem Reply.length_render_pos : 0 < r.render.length := by
  simp only [Reply.render, join_append, join_cons, length_append, length_cons]
  omega

/-- The code of a reply is the number at the start of the final line. -/
def Reply.code (r : Reply) : Int := (scanCode r.last).getD 0

/-- The class of a reply is that of the first digit of the final line. -/
def Reply.responseClass (r : Reply) : ResponseClass := responseClassOf (byteAt r.last 0)

/-! ## 2. Lines in a buffer -/

theorem byteAt_append (pre s : List Char) (i : Nat) : byteAt (pre ++ s) ((pre.length + i : Nat) : Int) = byteAt s i := by
  rw [byteAt, byteAt, Int.toNat_natCast, Int.toNat_natCast, getD_eq_getElem?_getD,
    getD_eq_getElem?_getD, getElem?_append_right (Nat.le_add_right _ _),
    Nat.add_sub_cancel_left]

/-- The test of the code is one of the line that starts at `pre.length`: it never looks at what
follows it. -/
theorem codeLine_iff (sep : Char) (hr : sep ≠ '\r') (pre line rest : List Char) :
    (byteAt (pre ++ (line ++ '\r' :: '\n' :: rest)) ((pre.length + 3 : Nat) : Int) = sep
      ∧ threeDigits (pre ++ (line ++ '\r' :: '\n' :: rest)) (pre.length : Nat)) ↔ CodeLine sep line := by
  have h0 := byteAt_append pre (line ++ '\r' :: '\n' :: rest) 0
  have h1 := byteAt_append pre (line ++ '\r' :: '\n' :: rest) 1
  have h2 := byteAt_append pre (line ++ '\r' :: '\n' :: rest) 2
  have h3 := byteAt_append pre (line ++ '\r' :: '\n' :: rest) 3
  simp only [Nat.add_zero, Nat.cast_add, Nat.cast_one, Nat.cast_ofNat, Nat.cast_zero] at h0 h1 h2 h3
  simp only [threeDigits, Nat.cast_add, Nat.cast_ofNat, h0, h1, h2, h3]
  match line with
  | [] => simp [byteAt, CodeLine]
  | [a] => simp [byteAt, CodeLine]
  | [a, b] => simp [byteAt, CodeLine]
  | [a, b, c] => simp [byteAt, CodeLine, hr.symm]
  | a :: b :: c :: d :: t => simp [byteAt, CodeLine]; tauto

/-! ## 3. The search for the end -/

section Search

variable {pre line rest : List Char} {last : Int} {first : Bool}

/-- At the end of a line. -/
def lineEnd (buf line rest : List Char) (current : Nat) (last : Int) (first : Bool) :
    Option (Nat × Int) :=
  if first ∧ ¬ (CodeLine ' ' line ∨ CodeLine '-' line) then none
  else if CodeLine ' ' line then some (current + 1, last)
  else replyLoop buf rest (current + 1) current false

theorem byteAt_pred (pre s : List Char) (a : Nat) :
    byteAt (pre ++ s) (((pre.length + a + 1 : Nat) : Int) - 1) = byteAt s a := by
  rw [← byteAt_append pre s a]
  congr 1
  omega

/-- Within a line the search goes on. -/
theorem replyLoop_skip {buf : List Char} {c : Char} {current : Nat} (h : ¬ (byteAt buf (current - 1) = '\r' ∧ c = '\n')) :
    replyLoop buf (c :: rest) current last first = replyLoop buf rest (current + 1) last first := by
  rw [replyLoop, if_neg h]

/-- At the end of a line the search looks at its start. -/
theorem replyLoop_end (hlast : last + 1 = pre.length) (hfirst : first = true → pre = []) :
    replyLoop (pre ++ (line ++ '\r' :: '\n' :: rest)) ('\n' :: rest) (pre.length + line.length + 1) last first
      = lineEnd (pre ++ (line ++ '\r' :: '\n' :: rest)) line rest (pre.length + line.length + 1) last first := by
  have hcr : byteAt (pre ++ (line ++ '\r' :: '\n' :: rest))
      (((pre.length + line.length + 1 : Nat) : Int) - 1) = '\r' := by
    rw [byteAt_pred, ← Nat.add_zero line.length, byteAt_append]
    rfl
  have h4 : last + 4 = ((pre.length + 3 : Nat) : Int) := by omega
  have hfinal := codeLine_iff ' ' (by decide) pre line rest
  have hdash := codeLine_iff '-' (by decide) pre line rest
  rw [replyLoop, if_pos ⟨hcr, rfl⟩, hlast, h4, lineEnd]
  have hbad : (first ∧ (pre.length + line.length + 1 < 5
        ∨ ¬ (threeDigits (pre ++ (line ++ '\r' :: '\n' :: rest)) pre.length
          ∧ (byteAt (pre ++ (line ++ '\r' :: '\n' :: rest)) ((pre.length + 3 : Nat) : Int) = ' '
            ∨ byteAt (pre ++ (line ++ '\r' :: '\n' :: rest)) ((pre.length + 3 : Nat) : Int) = '-'))))
      ↔ (first ∧ ¬ (CodeLine ' ' line ∨ CodeLine '-' line)) := by
    refine and_congr_right fun hf => ?_
    rw [← hfinal, ← hdash, hfirst hf]
    constructor
    · rintro (hshort | hno)
      · rw [← hfirst hf, hfinal, hdash]
        have hlen : ∀ sep, ¬ CodeLine sep line := by
          intro sep hc
          have := CodeLine.length hc
          omega
        exact fun h => h.elim (hlen _) (hlen _)
      · tauto
    · tauto
  simp only [hbad, hfinal]

/-- A text without an end of a line is passed up to its last byte. -/
theorem replyLoop_within {z : Char} {t : List Char} (hline : NoCrlf (line ++ [z])) :
    replyLoop (pre ++ (line ++ z :: t)) (line ++ z :: t).tail (pre.length + 1) last first
      = replyLoop (pre ++ (line ++ z :: t)) t (pre.length + line.length + 1) last first := by
  induction line generalizing pre with
  | nil => rfl
  | cons x line ih =>
    obtain ⟨hx, hrest⟩ := noCrlf_cons.mp hline
    have hbuf : pre ++ (x :: line ++ z :: t) = pre ++ [x] ++ (line ++ z :: t) := by simp
    have hlen : (pre ++ [x]).length + line.length + 1 = pre.length + (x :: line).length + 1 := by
      simp only [length_append, length_cons, length_nil]
      omega
    have hbyte : byteAt (pre ++ (x :: line ++ z :: t)) (((pre.length + 0 + 1 : Nat) : Int) - 1) = x :=
      byteAt_pred pre _ 0
    have hnext := @ih (pre ++ [x]) hrest
    rw [← hbuf, hlen, length_append, length_singleton] at hnext
    rw [← hnext]
    cases line with
    | nil | cons => exact replyLoop_skip fun h => hx ⟨hbyte ▸ h.1, by simp [h.2]⟩

variable {part : List Char}

/-- In what has no end of a line nothing is found. -/
theorem replyLoop_noCrlf (hpart : NoCrlf part) :
    replyLoop (pre ++ part) part.tail (pre.length + 1) last first = some (0, last) := by
  rcases eq_nil_or_concat' part with rfl | ⟨line, z, rfl⟩
  · rfl
  · exact replyLoop_within hpart

/-- The byte behind the LF of a line ends no line. -/
theorem replyLoop_tail {s : List Char} (hpre : pre.getLast? = some '\n') :
    replyLoop (pre ++ s) s pre.length last first = replyLoop (pre ++ s) s.tail (pre.length + 1) last first := by
  cases s with
  | nil => rfl
  | cons c s =>
    refine replyLoop_skip fun h => absurd h.1 ?_
    obtain ⟨p, rfl⟩ := getLast?_eq_some_iff.mp hpre
    have hlen : (((p ++ ['\n']).length : Nat) : Int) - 1 = ((p.length + 0 : Nat) : Int) := by simp
    have hbyte : byteAt (['\n'] ++ c :: s) 0 = '\n' := rfl
    rw [hlen, append_assoc, byteAt_append, Nat.cast_zero, hbyte]
    decide

/-- What the search makes of lines, the first of which is at `start`. -/
def searchLines : List (List Char) → Nat → Bool → Option (Nat × Int)
  | [], start, _ => some (0, start - 1)
  | l :: ls, start, first =>
    if first ∧ ¬ (CodeLine ' ' l ∨ CodeLine '-' l) then none
    else if CodeLine ' ' l then some (start + l.length + 2, start - 1)
    else searchLines ls (start + l.length + 2) false

/-- **The search takes a buffer line by line.** -/
theorem replyLoop_join (hpart : NoCrlf part) : ∀ (ls : List (List Char))
    (pre : List Char) (first : Bool), (∀ l ∈ ls, NoCrlf l) → (first = true → pre = []) →
      replyLoop (pre ++ (join ls ++ part)) (join ls ++ part).tail (pre.length + 1) (pre.length - 1) first
        = searchLines ls pre.length first
  | [], _, _, _, _ => replyLoop_noCrlf hpart
  | l :: ls, pre, first, hls, hfirst => by
    obtain ⟨hl, hls⟩ := forall_mem_cons.mp hls
    have hrest := replyLoop_join hpart ls (pre ++ (l ++ ['\r', '\n'])) false hls (by simp)
    have hbuf : pre ++ (l ++ ['\r', '\n']) ++ (join ls ++ part)
        = pre ++ (l ++ '\r' :: '\n' :: (join ls ++ part)) := by simp
    have hlen : (pre ++ (l ++ ['\r', '\n'])).length = pre.length + l.length + 1 + 1 := by
      simp only [length_append, length_cons, length_nil]
      omega
    have hlast : (((pre ++ (l ++ ['\r', '\n'])).length : Nat) : Int) - 1 = (pre.length + l.length + 1 : Nat) := by omega
    rw [← replyLoop_tail (by simp), hbuf, hlast, hlen] at hrest
    rw [join_cons, append_assoc, cons_append, cons_append, replyLoop_within hl.concat_cr,
      replyLoop_end (by omega) hfirst, lineEnd, searchLines, hrest]

/-- Lines that are not final are passed. -/
theorem searchLines_append {ls : List (List Char)} : ∀ {front : List (List Char)} {start : Nat}
    {first : Bool}, (∀ l ∈ front, CodeLine ' ' l = false) →
    (first = true → ∀ l ∈ front.head?, CodeLine '-' l) → searchLines (front ++ ls) start first
        = searchLines ls (start + (join front).length) (first && front.isEmpty)
  | [], start, first, _, _ => by simp
  | l :: front, start, first, hopen, hfirst => by
    obtain ⟨hl, hopen⟩ := forall_mem_cons.mp hopen
    have hok : ¬ (first ∧ ¬ (CodeLine ' ' l ∨ CodeLine '-' l)) := fun h =>
      h.2 (.inr (hfirst h.1 l rfl))
    have hlen : start + l.length + 2 + (join front).length = start + (join (l :: front)).length := by
      simp only [join_cons, length_append, length_cons]
      omega
    rw [cons_append, searchLines, if_neg hok, if_neg (by simp [hl]), searchLines_append hopen (by simp),
      hlen, Bool.false_and, isEmpty_cons, Bool.and_false]

/-- **In a buffer with a reply in front the search finds its end.** -/
theorem replyLoop_render : replyLoop (r.render ++ s) (r.render ++ s).tail 1 (-1) true
      = some (r.render.length, ((join r.front).length : Int) - 1) := by
  obtain ⟨ls, part, hls, hpart, rfl⟩ := exists_lines s
  have hbuf : r.render ++ (join ls ++ part) = join (r.front ++ r.last :: ls) ++ part := by
    simp [Reply.render]
  have hlines : ∀ l ∈ r.front ++ r.last :: ls, NoCrlf l :=
    forall_mem_append.mpr ⟨r.front_noCrlf, forall_mem_cons.mpr ⟨r.last_noCrlf, hls⟩⟩
  have hok : ∀ first : Bool, ¬ (first ∧ ¬ (CodeLine ' ' r.last ∨ CodeLine '-' r.last)) := fun _ h =>
    h.2 (.inl r.last_final)
  rw [hbuf]
  refine (replyLoop_join hpart _ [] true hlines fun _ => rfl).trans ?_
  rw [searchLines_append r.front_open fun _ => r.front_head, searchLines, if_neg (hok _), if_pos r.last_final]
  simp [Reply.render, Nat.add_assoc]

/-- **In a buffer that breaks off in a reply it finds nothing.** -/
theorem replyLoop_of_prefix {r : Reply} {p : List Char} (hp : p <+: r.render)
    (hlt : p.length < r.render.length) : ∃ last, replyLoop p p.tail 1 (-1) true = some (0, last) := by
  obtain ⟨a, l, b, part, hls, rfl, hpart⟩ := exists_of_prefix_join hp hlt
  -- the whole lines are among those before the final one
  have ha : a <+: r.front := by
    refine prefix_of_prefix_length_le ⟨l :: b, hls.symm⟩ ⟨[r.last], rfl⟩ ?_
    have := congrArg length hls
    simp only [length_append, length_cons, length_nil] at this
    omega
  have hl : NoCrlf l := r.lines_noCrlf l (by rw [hls]; simp)
  have hhead : ∀ x ∈ a.head?, CodeLine '-' x := by
    intro x hx
    refine r.front_head x ?_
    obtain ⟨t, ht⟩ := ha
    rw [← ht, head?_append, Option.mem_def.mp hx]
    rfl
  have hrun := replyLoop_join (hl.concat_cr.of_prefix hpart) a [] true
    (fun x hx => r.front_noCrlf x (ha.subset hx)) fun _ => rfl
  have hsearch := @searchLines_append [] a 0 true (fun x hx => r.front_open x (ha.subset hx)) fun _ => hhead
  rw [append_nil] at hsearch
  exact ⟨_, hrun.trans hsearch⟩

end Search

/-! ## 4. The fast check -/

/-- A text without an end of a line is passed up to its last byte. -/
theorem checkFinalLineLoop_within {buf line t : List Char} {z : Char} {lineStart i : Nat}
    (hline : NoCrlf (line ++ [z])) : checkFinalLineLoop buf (line ++ z :: t) lineStart i
      = checkFinalLineLoop buf (z :: t) lineStart (i + line.length) := by
  induction line generalizing i with
  | nil => rfl
  | cons x line ih =>
    obtain ⟨hx, hrest⟩ := noCrlf_cons.mp hline
    have hlen : i + 1 + line.length = i + (x :: line).length := by
      rw [length_cons]
      omega
    rw [← hlen, ← ih hrest]
    cases line with
    | nil | cons => exact if_neg fun h => hx ⟨h.1, by simp [h.2]⟩

/-- **The fast check looks for a final line among those from its start on.** -/
theorem checkFinalLineLoop_join (hpart : NoCrlf part) : ∀ (ls : List (List Char))
    (pre : List Char), (∀ l ∈ ls, NoCrlf l) →
      checkFinalLineLoop (pre ++ (join ls ++ part)) (join ls ++ part) pre.length pre.length = ls.any (CodeLine ' ')
  | [], pre, _ => by
    rcases eq_nil_or_concat' part with rfl | ⟨line, z, rfl⟩
    · rfl
    · exact checkFinalLineLoop_within hpart
  | l :: ls, pre, hls => by
    obtain ⟨hl, hls⟩ := forall_mem_cons.mp hls
    have hrest := checkFinalLineLoop_join hpart ls (pre ++ (l ++ ['\r', '\n'])) hls
    have hbuf : pre ++ (l ++ ['\r', '\n']) ++ (join ls ++ part)
        = pre ++ (l ++ '\r' :: '\n' :: (join ls ++ part)) := by simp
    have hlen : (pre ++ (l ++ ['\r', '\n'])).length = pre.length + l.length + 2 := by
      simp [Nat.add_assoc]
    have hfinal : (4 ≤ pre.length + l.length - pre.length
          ∧ byteAt (pre ++ (l ++ '\r' :: '\n' :: (join ls ++ part))) ((pre.length + 3 : Nat) : Int) = ' '
          ∧ threeDigits (pre ++ (l ++ '\r' :: '\n' :: (join ls ++ part))) pre.length)
        ↔ CodeLine ' ' l := by
      rw [codeLine_iff ' ' (by decide) pre l, Nat.add_sub_cancel_left]
      exact ⟨fun h => h.2, fun h => ⟨CodeLine.length h, h⟩⟩
    rw [hbuf, hlen] at hrest
    rw [join_cons, append_assoc, cons_append, cons_append, checkFinalLineLoop_within hl.concat_cr,
      checkFinalLineLoop, if_pos ⟨rfl, rfl⟩]
    simp only [hfinal, hrest, any_cons]
    cases CodeLine ' ' l <;> rfl

theorem getCurrentLineStart_crlf (p s : List Char) :
    getCurrentLineStart (p ++ '\r' :: '\n' :: s) (p.length + 2) = p.length + 2 := by
  have h0 : byteAt (p ++ '\r' :: '\n' :: s) p.length = '\r' := byteAt_append p _ 0
  have h1 : byteAt (p ++ '\r' :: '\n' :: s) (p.length + 1 : Nat) = '\n' := byteAt_append p _ 1
  rw [getCurrentLineStart, if_pos ⟨h1, h0⟩]

theorem getCurrentLineStart_skip {x s : List Char} {c : Char} (h : ¬ (x.getLast? = some '\r' ∧ c = '\n')) :
    getCurrentLineStart (x ++ c :: s) (x.length + 1) = getCurrentLineStart (x ++ c :: s) x.length := by
  rcases eq_nil_or_concat' x with rfl | ⟨y, b, rfl⟩
  · rfl
  · rw [length_append, length_singleton, append_assoc]
    have h0 : byteAt (y ++ ([b] ++ c :: s)) y.length = b := byteAt_append y _ 0
    have h1 : byteAt (y ++ ([b] ++ c :: s)) (y.length + 1 : Nat) = c := byteAt_append y _ 1
    rw [getCurrentLineStart, h0, h1, if_neg]
    simpa [and_comm] using h

/-- The start of the line that `hint` is in. -/
theorem getCurrentLineStart_eq (a : List (List Char)) (hpart : NoCrlf part) (s : List Char) :
    getCurrentLineStart (join a ++ (part ++ s)) ((join a).length + part.length) = (join a).length := by
  induction part using reverseRecOn generalizing s with
  | nil =>
    rcases eq_nil_or_concat' a with rfl | ⟨b, l, rfl⟩
    · rfl
    · have hjoin : join (b ++ [l]) ++ s = join b ++ l ++ '\r' :: '\n' :: s := by simp
      have hlen : (join (b ++ [l])).length = (join b ++ l).length + 2 := by simp [Nat.add_assoc]
      rw [nil_append, length_nil, Nat.add_zero, hjoin, hlen]
      exact getCurrentLineStart_crlf _ _
  | append_singleton part c ih =>
    obtain ⟨h1, -, h2⟩ := noCrlf_append.mp hpart
    have hskip : ¬ ((join a ++ part).getLast? = some '\r' ∧ c = '\n') := by
      rintro ⟨hr, rfl⟩
      rcases eq_nil_or_concat' part with rfl | ⟨y, b, rfl⟩
      · rcases eq_nil_or_concat' a with rfl | ⟨d, l, rfl⟩
        · simp at hr
        · simp [getLast?_append] at hr
      · simp at hr h2
        exact h2 hr
    have hlen : (join a).length + (part ++ [c]).length = (join a ++ part).length + 1 := by
      simp only [length_append, length_singleton]
      omega
    have hbuf : join a ++ (part ++ [c] ++ s) = join a ++ part ++ c :: s := by simp
    have hrest := ih h1 (c :: s)
    rw [hlen, hbuf, getCurrentLineStart_skip hskip, append_assoc, length_append]
    exact hrest

/-- The fast check begins with the line that `hint` is in. -/
theorem checkFinalLineFast_eq {a c : List (List Char)} {p s part : List Char} (hp : NoCrlf p)
    (hc : ∀ l ∈ c, NoCrlf l) (hpart : NoCrlf part) (hps : p ++ s = join c ++ part) :
    checkFinalLineFast (join a ++ (p ++ s)) ((join a).length + p.length) = c.any (CodeLine ' ') := by
  rw [checkFinalLineFast, getCurrentLineStart_eq a hp, drop_left, hps]
  exact checkFinalLineLoop_join hpart c (join a) hc

/-- **The fast check does not overlook the end of a reply** that was not complete when `hint` bytes of
it were there. -/
theorem checkFinalLineFast_render {hint : Nat}
    (hhint : hint < r.render.length) : checkFinalLineFast (r.render ++ s) hint = true := by
  obtain ⟨a, l, b, p, hls, hp, hpl⟩ := exists_of_prefix_join ( take_prefix hint r.render)
    (by rw [length_take, ← Reply.render]; omega)
  obtain ⟨ls, part, hmore, hpart, rfl⟩ := exists_lines s
  have hhint' : hint = (join a).length + p.length := by
    rw [← length_append, ← hp, length_take, Nat.min_eq_left hhint.le]
  have hmem := r.lines_noCrlf
  rw [hls] at hmem
  obtain ⟨t, ht⟩ := hpl
  have hline : p ++ (t ++ '\n' :: (join b ++ (join ls ++ part))) = join (l :: b ++ ls) ++ part := by
    rw [← append_assoc, ht]
    simp
  have hbuf : r.render ++ (join ls ++ part) = join a ++ (p ++ (t ++ '\n' :: (join b ++ (join ls ++ part)))) := by
    rw [Reply.render, hls, hline]
    simp
  have hlast : r.last ∈ l :: b := by
    obtain ⟨c, y, hcy⟩ := (eq_nil_or_concat' (l :: b)).resolve_left (by simp)
    rw [hcy, ← append_assoc] at hls
    rw [hcy, (append_inj' hls rfl).2.symm |> singleton_inj.mp]
    simp
  have hl := hmem l (by simp)
  rw [hbuf, hhint', checkFinalLineFast_eq (hl.concat_cr.of_prefix ⟨t, ht⟩) ?_ hpart hline]
  · exact any_eq_true.mpr ⟨r.last, mem_append_left _ hlast, r.last_final⟩
  · exact forall_mem_append.mpr ⟨fun x hx => hmem x (mem_append_right _ hx), hmore⟩

/-- A complete line of the buffer is final. -/
def HasFinalLine (buf : List Char) : Prop :=
  ∃ ls rest, (∀ l ∈ ls, NoCrlf l) ∧ buf = join ls ++ rest ∧ ∃ l ∈ ls, CodeLine ' ' l

theorem HasFinalLine.check {buf : List Char} (h : HasFinalLine buf) : checkFinalLineLoop buf buf 0 0 = true := by
  obtain ⟨ls, rest, hls, rfl, l, hl, hfinal⟩ := h
  obtain ⟨more, part, hmore, hpart, rfl⟩ := exists_lines rest
  have hcheck := checkFinalLineLoop_join hpart (ls ++ more) [] (forall_mem_append.mpr ⟨hls, hmore⟩)
  rw [join_append, append_assoc] at hcheck
  exact hcheck.trans (any_eq_true.mpr ⟨l, mem_append_left _ hl, hfinal⟩)

/-- The search finds something exactly if a line is final, unless it gives up at the first one. -/
theorem found_iff_any : ∀ {ls : List (List Char)} {start : Nat} {first : Bool} {found : Nat} {last : Int},
    searchLines ls start first = some (found, last) → (found ≠ 0 ↔ ls.any (CodeLine ' ') = true)
  | [], _, _, _, _, h => by
    rw [searchLines, Option.some.injEq, Prod.mk.injEq] at h
    simp [← h.1]
  | l :: ls, start, first, found, last, h => by
    rw [searchLines] at h
    split at h
    · cases h
    · split at h
      next hl =>
        rw [Option.some.injEq, Prod.mk.injEq] at h
        exact iff_of_true (by omega) (by simp [hl])
      next hl =>
        rw [found_iff_any h, any_cons, Bool.eq_false_iff.mpr hl, Bool.false_or]

/-- The response with a reply in front of it: a NUL is put behind the reply, and the code and the class
are those of the reply. -/
def Response.found (response : Response) (r : Reply) (s : List Char) : Response :=
  { code := r.code
    responseClass := r.responseClass
    responseBuffer := r.render ++ nul :: s
    responseBufferSize := max response.responseBufferSize ((r.render ++ s).length + 1) }

/-- The number in front of a final line does not depend on what follows the line. -/
theorem scanCode_append {line : List Char} (h : CodeLine ' ' line) (s : List Char) :
    scanCode (line ++ s) = some ((scanCode line).getD 0) := by
  match line, h with
  | a :: b :: c :: d :: t, h =>
    simp only [CodeLine, Bool.and_eq_true, beq_iff_eq] at h
    obtain ⟨⟨⟨ha, hb⟩, hc⟩, rfl⟩ := h
    simp [scanCode, CText.scanInt_of_isDigit ha, CText.scanDigits, ha, hb, hc]

/-- The first digit of the final line. -/
theorem byteAt_last : byteAt (join r.front ++ (r.last ++ s)) (join r.front).length = byteAt r.last 0
      ∧ byteAt r.last 0 ≠ '6' := by
  have hhead : ∃ c t, r.last = c :: t := by
    have := CodeLine.length r.last_final
    exact exists_cons_of_ne_nil (by rintro h; simp [h] at this)
  obtain ⟨c, t, hct⟩ := hhead
  have hclear := r.last_clear
  rw [hct] at hclear ⊢
  refine ⟨byteAt_append (join r.front) (c :: t ++ s) 0, ?_⟩
  rintro rfl
  exact hclear rfl

/-- **With a reply in front of the buffer its end is found, whatever the hint.** -/
theorem endOfReply_render {response : Response} {r : Reply}
    {s : List Char} (hbuf : response.responseBuffer = r.render ++ s) {hint : Nat}
    (hhint : hint < r.render.length ∨ (r.render ++ s).length ≤ hint) :
    response.endOfReply unwrap hint = .ok (r.render.length + 1, response.found r s) := by
  have hslow : ¬ (hint ≠ 0 ∧ (r.render ++ s).length > hint ∧ ¬ checkFinalLineFast (r.render ++ s) hint) := by
    rintro ⟨-, h1, h2⟩
    rcases hhint with h | h
    · exact h2 (checkFinalLineFast_render r s h)
    · omega
  have hloop := replyLoop_render r s
  rw [← drop_one] at hloop
  have hlast : r.render ++ s = join r.front ++ (r.last ++ '\r' :: '\n' :: s) := by
    simp [Reply.render]
  have hnul : r.render ++ nul :: s = join r.front ++ (r.last ++ '\r' :: '\n' :: nul :: s) := by
    simp [Reply.render]
  have hpos : r.render.length ≠ 0 := r.length_render_pos.ne'
  have hstart : ((join r.front).length : Int) - 1 + 1 = (join r.front).length := by omega
  have hsix : byteAt (r.render ++ s) (join r.front).length ≠ '6' := by
    rw [hlast, (byteAt_last r _).1]
    exact (byteAt_last r s).2
  -- the code and the class are read behind the lines of `front`
  have hcode : (scanCode ((r.render ++ nul :: s).drop (join r.front).length)).getD response.code = r.code := by
    rw [hnul, drop_left, scanCode_append r.last_final]
    rfl
  have hclass : responseClassOf (byteAt (r.render ++ nul :: s) (join r.front).length) = r.responseClass := by
    rw [hnul, (byteAt_last r _).1]
    rfl
  simp only [endOfReply, hbuf, if_neg hslow, hloop, if_neg hpos, hstart, if_neg hsix,
    Int.toNat_natCast, take_left, drop_left, setCode, hcode, hclass, found]

/-- **With a buffer that breaks off in a reply there is nothing to be found.** -/
theorem endOfReply_of_prefix {response : Response} {r : Reply} (hp : response.responseBuffer <+: r.render)
    (hlt : response.responseBuffer.length < r.render.length) (hint : Nat) :
    response.endOfReply unwrap hint = .ok (0, response) := by
  obtain ⟨last, hloop⟩ := replyLoop_of_prefix hp hlt
  rw [← drop_one] at hloop
  simp only [endOfReply, hloop]
  split <;> rfl

end Gct
