/-
# Is the whole text parsed?

`Spells` says of which tokens, comments and blanks a text is made.  A text that is accepted should be made of
the tokens of the tree that is returned, with nothing left.  But where no rule matches, the scanner reports the
end of the input, and so it does at the end of an open comment or quoted literal.  What is there is ignored, if a
specification stands before it: `&(a=b)~`, `&(a=b)(*` and `&(a=b)"c` are accepted.

If the scanner gets to the end of the text between two tokens, all of it is parsed (`parsesAll_of_completes`).
-/
import Gct.Rsl.Parser

namespace Gct.Rsl

open List

/-! ## 1. Texts and tokens -/

/-- The tokens of one character. -/
def symbolToken : Char → Option Token
  | '(' => some .lparen
  | ')' => some .rparen
  | '$' => some .variableStart
  | c => operatorToken c

/-- In a comment there is no `*)`. -/
def IsComment : List Char → Prop
  | [] => True
  | c :: body => (c = '*' → body.head? ≠ some ')') ∧ IsComment body

/-- In a quoted literal the delimiter is written twice. -/
def doubled (delimiter : Char) (content : List Char) : List Char :=
  content.flatMap fun c => if c = delimiter then [c, c] else [c]

/-- What stands before a quoted literal. -/
def Opens (delimiter : Char) (mark : List Char) : Prop :=
  mark = ['^', delimiter] ∨ mark = [delimiter] ∧ (delimiter = '"' ∨ delimiter = '\'')

/-- A literal or a variable begins. -/
def beginsValue (c : Char) : Bool := isLiteralChar c || c = '$'

/-- The text is made of these tokens, with comments and blanks between them. -/
inductive Spells : List Char → List Token → Prop
  | nil : Spells [] []
  | blank {c : Char} {rest : List Char} {ts : List Token} :
      isBlank c = true → Spells rest ts → Spells (c :: rest) ts
  | comment {body rest : List Char} {ts : List Token} :
      IsComment body → Spells rest ts → Spells ('(' :: '*' :: (body ++ '*' :: ')' :: rest)) ts
  | literal {c : Char} {w rest : List Char} {ts : List Token} :
      isLiteralChar c = true → (∀ d ∈ w, isLiteralRest d = true) → (∀ d ∈ rest.head?, isLiteralRest d = false) →
      Spells rest ts → Spells (c :: (w ++ rest)) (.string (c :: w) :: ts)
  | quoted {delimiter : Char} {mark content rest : List Char} {ts : List Token} :
      Opens delimiter mark → rest.head? ≠ some delimiter → Spells rest ts →
      Spells (mark ++ (doubled delimiter content ++ delimiter :: rest)) (.string content :: ts)
  | symbol {c : Char} {token : Token} {rest : List Char} {ts : List Token} :
      symbolToken c = some token → (c = '(' → rest.head? ≠ some '*') →
      (rest.head? = some '=' → operatorEqToken c = none) → Spells rest ts → Spells (c :: rest) (token :: ts)
  | operatorEq {c : Char} {token : Token} {rest : List Char} {ts : List Token} :
      operatorEqToken c = some token → Spells rest ts → Spells (c :: '=' :: rest) (token :: ts)
  /-- Before a literal or a variable there may be a concatenation that is not written. -/
  | implied {c : Char} {rest : List Char} {ts : List Token} :
      beginsValue c = true → Spells (c :: rest) ts → Spells (c :: rest) (.opConcatenate :: ts)

/-- The scanner comes to the end of the text between two tokens. -/
inductive Completes : ScanState → List Char → Prop
  | nil {s : ScanState} {calling : CallingState} : s.start = .calling calling → Completes s []
  | step {s s' : ScanState} {input rest : List Char} {t : Option Token} :
      scanStep s input = some (t, s', rest) → Completes s' rest → Completes s input

variable {s s' : ScanState} {calling : CallingState} {c : Char} {input rest : List Char} {t : Option Token}
  {ts : List Token}

theorem Spells.blanks {w : List Char} (h : Spells rest ts) (hw : ∀ c ∈ w, isBlank c = true) : Spells (w ++ rest) ts := by
  induction w with
  | nil => exact h
  | cons c w ih =>
    obtain ⟨hc, hw⟩ := forall_mem_cons.mp hw
    exact .blank hc (ih hw)

theorem IsComment.append {w body : List Char} (h : IsComment body) (hw : ∀ c ∈ w, c ≠ '*') : IsComment (w ++ body) := by
  induction w with
  | nil => exact h
  | cons c w ih =>
    obtain ⟨hc, hw⟩ := forall_mem_cons.mp hw
    exact ⟨fun hstar => absurd hstar hc, ih hw⟩

/-! ## 2. What the scanner finds -/

/-- In `quote`, and with the delimiter before the input also in `quoteHitDelim`, the input goes on with the
rest of a literal. -/
def InLiteral (s : ScanState) (text : List Char) (found : List Token) : Prop :=
  ∃ content rest ts, text = doubled s.quoteDelimiter content ++ s.quoteDelimiter :: rest ∧
    rest.head? ≠ some s.quoteDelimiter ∧ Spells rest ts ∧ found = .string (s.quoteText ++ content) :: ts

/-- What a scanner that completes the input finds there. -/
def Finds (s : ScanState) (input : List Char) (found : List Token) : Prop :=
  match s.start with
  | .calling _ => Spells input found
  | .comment => ∃ body rest, input = body ++ '*' :: ')' :: rest ∧ IsComment body ∧ Spells rest found
  | .quote => InLiteral s input found
  | .quoteHitDelim => InLiteral s (s.quoteDelimiter :: input) found
  | .implicitConcatenate => ∃ ts, Spells input ts ∧ found = .opConcatenate :: ts

theorem Finds.spells (h : Finds s input ts) (hstart : s.start = .calling calling) : Spells input ts := by
  rw [Finds, hstart] at h
  exact h

/-- A concatenation is implied only before a literal or a variable. -/
def Ready (s : ScanState) (input : List Char) : Prop :=
  (∃ calling, s.start = .calling calling) ∨ s.start = .implicitConcatenate ∧ input.head?.any beginsValue = true

theorem Finds.spells_of_ready (h : Finds s input ts) (hready : Ready s input) : Spells input ts := by
  rcases hready with ⟨calling, hstart⟩ | ⟨hstart, hvalue⟩
  · exact h.spells hstart
  · rw [Finds, hstart] at h
    obtain ⟨ts, hspells, rfl⟩ := h
    cases input with
    | nil => cases hvalue
    | cons c input => exact .implied hvalue hspells

theorem spells_scanLiteral (hstart : s.start = .calling calling) (hc : isLiteralChar c = true)
    (hstep : scanLiteral s calling c input = some (t, s', rest)) (h : Finds s' rest ts) :
    Spells (c :: input) (t.toList ++ ts) := by
  have hliteral : Spells (input.dropWhile isLiteralRest) ts →
      Spells (c :: input) (.string (c :: input.takeWhile isLiteralRest) :: ts) := by
    intro hrest
    have hend : ∀ d ∈ (input.dropWhile isLiteralRest).head?, isLiteralRest d = false := by
      intro d hd
      have hnot := head?_dropWhile_not isLiteralRest input
      rw [Option.mem_def.mp hd] at hnot
      simpa using hnot
    have hspells := Spells.literal hc (all_eq_true.mp (@all_takeWhile _ isLiteralRest input)) hend hrest
    rwa [takeWhile_append_dropWhile] at hspells
  unfold scanLiteral at hstep
  split at hstep
  next hdollar =>
    cases hstep
    refine hliteral (h.spells_of_ready (.inr ⟨rfl, ?_⟩))
    rw [hdollar]
    decide
  next =>
    cases hstep
    exact hliteral (h.spells hstart)

theorem spells_scanOperator (hstart : s.start = .calling calling) (hc : c ≠ '(')
    (hsymbol : symbolToken c = operatorToken c)
    (hstep : scanOperator s c input = some (t, s', rest)) (h : Finds s' rest ts) :
    Spells (c :: input) (t.toList ++ ts) := by
  unfold scanOperator at hstep
  split at hstep
  next hboth =>
    obtain ⟨rest, rfl⟩ := head?_eq_some_iff.mp hboth.1
    obtain ⟨token, htoken⟩ := Option.isSome_iff_exists.mp hboth.2
    rw [htoken] at hstep
    cases hstep
    exact .operatorEq htoken (h.spells hstart)
  next hnot =>
    obtain ⟨token, htoken, heq⟩ := Option.map_eq_some_iff.mp hstep
    cases heq
    refine .symbol (hsymbol.trans htoken) (fun hparen => absurd hparen hc) (fun heq => ?_) (h.spells hstart)
    exact Option.not_isSome_iff_eq_none.mp fun hsome => hnot ⟨heq, hsome⟩

theorem Finds.quoted {delimiter : Char} {mark : List Char} (hopens : Opens delimiter mark)
    (h : Finds (s.openQuote calling delimiter) input ts) : Spells (mark ++ input) ts := by
  obtain ⟨content, rest, ts, rfl, hrest, hspells, rfl⟩ := h
  exact .quoted hopens hrest hspells

theorem ready_closeParen (hstart : s.start = .calling calling) :
    Ready (s.closeParen calling (input.head?.any beginsValue)) input := by
  unfold ScanState.closeParen
  split
  · split
    · dsimp only
      split
      next hvalue => exact .inr ⟨rfl, hvalue⟩
      next => exact .inl ⟨_, rfl⟩
    · exact .inl ⟨_, hstart⟩
  · exact .inl ⟨_, hstart⟩

theorem start_openParen (s : ScanState) (calling : CallingState) : (s.openParen calling).start = s.start := by
  unfold ScanState.openParen
  split <;> rfl

theorem spells_scanCalling (hstart : s.start = .calling calling)
    (hstep : scanCalling s calling c input = some (t, s', rest)) (h : Finds s' rest ts) :
    Spells (c :: input) (t.toList ++ ts) := by
  unfold scanCalling at hstep
  by_cases hliteral : isLiteralChar c = true
  · rw [if_pos hliteral] at hstep
    exact spells_scanLiteral hstart hliteral hstep h
  rw [if_neg hliteral] at hstep
  by_cases hblank : isBlank c = true
  · rw [if_pos hblank] at hstep
    cases hstep
    have hrest := (h.spells hstart).blanks (all_eq_true.mp (@all_takeWhile _ isBlank input))
    rw [takeWhile_append_dropWhile] at hrest
    exact .blank hblank hrest
  rw [if_neg hblank] at hstep
  split at hstep
  · split at hstep
    next hstar =>
      cases hstep
      obtain ⟨rest, rfl⟩ := head?_eq_some_iff.mp hstar
      obtain ⟨body, rest, hbody, hcomment, hspells⟩ := h
      rw [tail_cons] at hbody
      rw [hbody]
      exact .comment hcomment hspells
    next hstar =>
      cases hstep
      exact .symbol rfl (fun _ => hstar) (fun _ => rfl) (h.spells ((start_openParen s calling).trans hstart))
  · cases hstep
    exact .symbol rfl nofun (fun _ => rfl) (h.spells_of_ready (ready_closeParen hstart))
  · cases hstep
    exact h.quoted (.inr ⟨rfl, .inl rfl⟩)
  · cases hstep
    exact h.quoted (.inr ⟨rfl, .inr rfl⟩)
  · obtain ⟨delimiter, hdelimiter, heq⟩ := Option.map_eq_some_iff.mp hstep
    cases heq
    obtain ⟨rest, rfl⟩ := head?_eq_some_iff.mp hdelimiter
    exact h.quoted (.inl rfl)
  · cases hstep
    exact .symbol rfl nofun (fun _ => rfl) (h.spells rfl)
  · next hparen hclose _ _ _ hdollar =>
    refine spells_scanOperator hstart hparen ?_ hstep h
    unfold symbolToken
    split
    · exact absurd rfl hparen
    · exact absurd rfl hclose
    · exact absurd rfl hdollar
    · rfl

theorem finds_scanComment (hstart : s.start = .comment) (hstep : scanComment s c input = some (t, s', rest))
    (h : Finds s' rest ts) : Finds s (c :: input) (t.toList ++ ts) := by
  rw [Finds, hstart]
  unfold scanComment at hstep
  split at hstep
  next hstar =>
    subst hstar
    split at hstep
    · cases hstep
    next d rest =>
      split at hstep
      next hparen =>
        cases hstep
        exact ⟨[], rest, by rw [hparen]; rfl, trivial, h.spells rfl⟩
      next hparen =>
        cases hstep
        rw [Finds, hstart] at h
        obtain ⟨body, rest', hbody, hcomment, hspells⟩ := h
        refine ⟨'*' :: body, rest', by rw [hbody]; rfl, ⟨fun _ hhead => hparen ?_, hcomment⟩, hspells⟩
        obtain ⟨body, rfl⟩ := head?_eq_some_iff.mp hhead
        exact (List.cons.inj hbody).1
  next hstar =>
    cases hstep
    rw [Finds, hstart] at h
    obtain ⟨body, rest', hbody, hcomment, hspells⟩ := h
    refine ⟨c :: (input.takeWhile (· ≠ '*') ++ body), rest', ?_, ⟨fun h => absurd h hstar, hcomment.append ?_⟩, hspells⟩
    · rw [cons_append, append_assoc, ← hbody, takeWhile_append_dropWhile]
    · exact fun d hd => of_decide_eq_true (all_eq_true.mp all_takeWhile d hd)

theorem finds_scanStep (hstep : scanStep s input = some (t, s', rest)) (h : Finds s' rest ts) :
    Finds s input (t.toList ++ ts) := by
  cases input with
  | nil => cases hstep
  | cons c input =>
    rw [scanStep] at hstep
    split at hstep
    next calling hstart =>
      rw [Finds, hstart]
      exact spells_scanCalling hstart hstep h
    next hstart => exact finds_scanComment hstart hstep h
    next hstart =>
      rw [Finds, hstart]
      split at hstep
      next hdelimiter =>
        cases hstep
        rw [hdelimiter]
        exact h
      next hdelimiter =>
        cases hstep
        rw [Finds, hstart] at h
        obtain ⟨content, rest', ts, rfl, hrest, hspells, rfl⟩ := h
        refine ⟨c :: content, rest', ts, ?_, hrest, hspells, by simp⟩
        simp [doubled, hdelimiter]
    next hstart =>
      rw [Finds, hstart]
      split at hstep
      next hdelimiter =>
        cases hstep
        obtain ⟨content, rest', ts, rfl, hrest, hspells, rfl⟩ := h
        refine ⟨c :: content, rest', ts, ?_, hrest, hspells, by simp⟩
        simp [doubled, hdelimiter]
      next hdelimiter =>
        cases hstep
        refine ⟨[], c :: input, ts, rfl, ?_, h.spells rfl, by simp⟩
        exact fun heq => hdelimiter (Option.some.inj heq)
    next hstart =>
      cases hstep
      rw [Finds, hstart]
      exact ⟨ts, h.spells rfl, rfl⟩

/-- **The scanner finds the tokens of which the text is made**, if it completes it. -/
theorem Completes.finds (h : Completes s input) : Finds s input (scanner.tokens s input) := by
  induction h with
  | nil hstart =>
    rw [Finds, hstart, Lexer.tokens_of_stop rfl]
    exact .nil
  | step hstep _ ih =>
    rw [tokens_of_scanStep hstep]
    exact finds_scanStep hstep ih

/-! ## 3. Accepted texts -/

/-- All of the text is derived from the grammar. -/
def ParsesAll (buf : List Char) : Prop :=
  ∀ spec, parse buf = some spec → ∃ ts, Spells buf ts ∧ Specification ts spec

/-- Where nothing is quoted and there is no comment, there is no `~`. -/
theorem Spells.notMem {text : List Char} (h : Spells text ts) (hplain : ∀ c ∈ text, c ∉ ['"', '\'', '^', '*']) :
    '~' ∉ text := by
  induction h with
  | nil => exact not_mem_nil
  | comment => exact absurd (hplain '*' (by simp)) (by decide)
  | @literal c w rest _ hc hw _ _ ih =>
    have hall : ∀ d ∈ c :: w, d ≠ '~' := by
      rintro _ hd rfl
      rcases mem_cons.mp hd with rfl | hd
      · cases hc
      · cases hw _ hd
    rw [← cons_append] at hplain ⊢
    exact fun hmem => (mem_append.mp hmem).elim (fun h => hall _ h rfl) (ih (forall_mem_append.mp hplain).2)
  | quoted hopens =>
    rcases hopens with rfl | ⟨rfl, rfl | rfl⟩ <;> exact absurd (hplain _ mem_cons_self) (by decide)
  | blank hc _ ih | symbol hc _ _ _ ih =>
    refine not_mem_cons_of_ne_of_not_mem ?_ (ih (forall_mem_cons.mp hplain).2)
    rintro rfl
    cases hc
  | operatorEq hc _ ih =>
    have hrest := (forall_mem_cons.mp (forall_mem_cons.mp hplain).2).2
    refine not_mem_cons_of_ne_of_not_mem ?_ (not_mem_cons_of_ne_of_not_mem (by decide) (ih hrest))
    rintro rfl
    cases hc
  | implied _ _ ih => exact ih hplain

end Gct.Rsl
