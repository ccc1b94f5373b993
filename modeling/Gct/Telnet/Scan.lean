/-
# What a client sends, and how it is scanned

A client sends command lines, with telnet sequences anywhere outside the ends of the lines.  A scan is
right byte by byte (`Decodes.judge`), because it knows from `last_char` whether it is inside a sequence.
Three things are excepted: an option behind DONT is not known to be one, so it stays in the line if it is a
character; an option that has the code of IAC, WILL, WONT or DO is taken for that code (`Item.Plain`); and
a line that is scanned again is scanned with the `last_char` of the end (`Place.Rescans`).
-/
import Gct.Telnet.Driver

namespace Gct.Telnet

open List Scanner

/-! ## 1. What a client sends -/

inductive Verb
  | will
  | wont
  | doOption
  | dont
  deriving DecidableEq, Repr

def Verb.code : Verb → UInt8
  | .will => Telnet.will
  | .wont => Telnet.wont
  | .doOption => Telnet.doOption
  | .dont => Telnet.dont

/-- A character, the end of a line, a negotiation, or a command of two bytes. -/
inductive Item
  | text (b : UInt8) (h : 32 ≤ b ∧ b ≤ 126)
  | endOfLine
  | negotiation (verb : Verb) (option : UInt8)
  | command (b : UInt8) (h : 240 ≤ b ∧ b ≤ 249)
  deriving DecidableEq

def Item.encode : Item → List UInt8
  | .text b _ => [b]
  | .endOfLine => [cr, lf]
  | .negotiation verb option => [iac, verb.code, option]
  | .command b _ => [iac, b]

variable (items : List Item)

def encode : List UInt8 := items.flatMap Item.encode

/-- The refusal of a request. -/
def Item.answer : Item → List Answer
  | .negotiation .will option => [(iac, dont, option)]
  | .negotiation .doOption option => [(iac, wont, option)]
  | _ => []

def answers : List Answer := items.flatMap Item.answer

/-- The complete lines, and the line that has not ended. -/
structure Content where
  lines : List (List UInt8)
  current : List UInt8
  deriving DecidableEq, Repr

def Content.add (content : Content) : Item → Content
  | .text b _ => { content with current := content.current ++ [b] }
  | .endOfLine => ⟨content.lines ++ [content.current ++ [cr, lf]], []⟩
  | _ => content

@[simp] theorem Content.add_text (content : Content) (b : UInt8) (h : 32 ≤ b ∧ b ≤ 126) :
    content.add (.text b h) = { content with current := content.current ++ [b] } := rfl

@[simp] theorem Content.add_endOfLine (content : Content) :
    content.add .endOfLine = ⟨content.lines ++ [content.current ++ [cr, lf]], []⟩ := rfl

@[simp] theorem Content.add_negotiation (content : Content) (verb : Verb) (option : UInt8) :
    content.add (.negotiation verb option) = content := rfl

@[simp] theorem Content.add_command (content : Content) (b : UInt8) (h : 240 ≤ b ∧ b ≤ 249) :
    content.add (.command b h) = content := rfl

def content : Content := items.foldl Content.add ⟨[], []⟩

@[simp] theorem content_snoc (item : Item) : content (items ++ [item]) = (content items).add item := by
  simp [content]

@[simp] theorem answers_snoc (item : Item) : answers (items ++ [item]) = answers items ++ item.answer := by
  simp [answers]

theorem lines_append (items items' : List Item) : (content items).lines <+: (content (items ++ items')).lines := by
  induction items' using reverseRecOn with
  | nil => simp
  | append_singleton items' item ih =>
    rw [← append_assoc, content_snoc]
    refine ih.trans ?_
    cases item <;> simp

theorem printable_of_mem_current {items : List Item} {b : UInt8} (h : b ∈ (content items).current) :
    32 ≤ b ∧ b ≤ 126 := by
  induction items using reverseRecOn with
  | nil => exact absurd h (by simp [content])
  | append_singleton items item ih =>
    rw [content_snoc] at h
    cases item with
    | text c hc =>
      rcases mem_append.mp h with h | h
      · exact ih h
      · rw [mem_singleton.mp h]
        exact hc
    | endOfLine => exact absurd h (by simp)
    | negotiation verb option => exact ih h
    | command c hc => exact ih h

/-! ## 2. Bytes that mean nothing to the scan -/

/-- The byte does not make the next one a part of a sequence. -/
def Neutral (b : UInt8) : Prop := b ≠ iac ∧ b ≠ will ∧ b ≠ doOption ∧ b ≠ wont

instance (b : UInt8) : Decidable (Neutral b) :=
  inferInstanceAs (Decidable (b ≠ iac ∧ b ≠ will ∧ b ≠ doOption ∧ b ≠ wont))

theorem neutral_of_le {b c : UInt8} (h : b ≤ c) (hc : c < 251) : Neutral b := by
  have hlt : b < 251 := UInt8.lt_of_le_of_lt h hc
  refine ⟨?_, ?_, ?_, ?_⟩ <;> rintro rfl <;> exact absurd hlt (by decide)

theorem isText_of_printable {b : UInt8} (h : 32 ≤ b ∧ b ≤ 126) : isText b = true := by
  simp [isText, h]

section

variable {s : Scanner} {kept : List UInt8} {b : UInt8} {client : Bool}

theorem judge_text (hs : Neutral s.lastChar) (hb : isText b = true) :
    s.judge client kept b = ({ s with lastChar := b }, .keep) := by
  obtain ⟨h1, h2, h3, h4⟩ := hs
  simp [judge, h1, h2, h3, h4, hb]

theorem judge_other (hs : Neutral s.lastChar) (hb : isText b = false) (hlf : b = lf → s.lastChar ≠ cr) :
    s.judge client kept b = ({ s with lastChar := b }, .remove) := by
  obtain ⟨h1, h2, h3, h4⟩ := hs
  have hend : ¬ (b = lf ∧ s.lastChar = cr) := fun h => hlf h.1 h.2
  simp [judge, h1, h2, h3, h4, hb, hend]

theorem judge_iac (hs : s.lastChar = iac) :
    s.judge client kept b = ({ s with writeBuffer := answerTo b s.writeBuffer, lastChar := b }, .remove) := by
  simp [judge, hs]

theorem judge_lineEnd (hs : s.lastChar = cr) : s.judge false kept lf = ({ s with lastChar := 0 }, .done) := by
  have h : ¬ isText lf = true := by decide
  simp [judge, Scanner.lineEnd, hs, h, show cr ≠ iac by decide, show cr ≠ will by decide,
    show cr ≠ doOption by decide, show cr ≠ wont by decide]

/-- Text is kept, however often it is scanned. -/
theorem scan_text {l : List UInt8} (hs : Neutral s.lastChar) (hl : ∀ b ∈ l, isText b = true ∧ Neutral b)
    (rest : List UInt8) :
    scan client s kept (l ++ rest) = scan client { s with lastChar := l.getLastD s.lastChar } (kept ++ l) rest := by
  induction l generalizing s kept with
  | nil => simp
  | cons b l ih =>
    obtain ⟨hb, hneutral⟩ := hl b mem_cons_self
    have hstep := @ih { s with lastChar := b } (kept ++ [b]) hneutral fun c hc => hl c (mem_cons_of_mem b hc)
    rw [cons_append, scan, judge_text hs hb]
    simp only [hstep, append_assoc, cons_append, nil_append, getLastD_cons]

/-- Nothing is added to the buffer. -/
theorem length_scan (l : List UInt8) :
    (scan client s kept l).2.1.length + (scan client s kept l).2.2.1.length ≤ kept.length + l.length := by
  induction l generalizing s kept with
  | nil => simp [scan]
  | cons b l ih =>
    rw [scan]
    generalize s.judge client kept b = judged
    obtain ⟨s', verdict⟩ := judged
    cases verdict with
    | keep =>
      have h := @ih s' (kept ++ [b])
      simp only [length_append, length_cons, length_nil] at h ⊢
      omega
    | remove =>
      have h := @ih s' kept
      simp only [length_cons]
      omega
    | done =>
      simp only [length_append, length_cons, length_nil]
      omega

end

/-! ## 3. Where a scan is -/

/-- The option has no other meaning for the scan, and behind DONT it is not a character. -/
def Item.Plain : Item → Prop
  | .negotiation verb option => Neutral option ∧ (verb = .dont → isText option = false)
  | _ => True

instance (item : Item) : Decidable item.Plain := by
  cases item with
  | negotiation verb option =>
    exact inferInstanceAs (Decidable (Neutral option ∧ (verb = .dont → isText option = false)))
  | _ => exact isTrue trivial

/-- Between two items, or inside one. -/
inductive Place
  | fresh
  | afterIac (item : Item)
  | afterVerb (verb : Verb) (option : UInt8)
  | afterCr

/-- The item the place is in. -/
def Place.item : Place → List Item
  | .fresh => []
  | .afterIac item => [item]
  | .afterVerb verb option => [.negotiation verb option]
  | .afterCr => [.endOfLine]

/-- The bytes of the item that are still to come. -/
def Place.rest : Place → List UInt8
  | .fresh => []
  | .afterIac item => item.encode.tail
  | .afterVerb _ option => [option]
  | .afterCr => [lf]

/-- What the scan knows of the place. -/
def Place.Matches (s : Scanner) : Place → Prop
  | .fresh => Neutral s.lastChar ∧ s.writeBuffer = none
  | .afterIac item => s.lastChar = iac ∧ s.writeBuffer = none ∧ item.encode = iac :: item.encode.tail
  | .afterVerb .dont _ => Neutral s.lastChar ∧ s.lastChar ≠ cr ∧ s.writeBuffer = none
  | .afterVerb verb _ => s.lastChar = verb.code ∧ s.writeBuffer = answerTo verb.code none
  | .afterCr => s.lastChar = cr ∧ s.writeBuffer = none

/-- The bytes of the line that have been kept. -/
def Place.kept (current : List UInt8) : Place → List UInt8
  | .afterCr => current ++ [cr]
  | _ => current

/-- The scan has come through the items `before` to a place: the lines of these items have been delivered,
their requests have been refused or are queued, and the other items are to come. -/
structure Decodes (delivered : List (List UInt8)) (written : List Answer)
    (before after : List Item) (place : Place) (s : Scanner) (kept toCome : List UInt8) : Prop where
  items_eq : items = before ++ (place.item ++ after)
  toCome_eq : toCome = place.rest ++ encode after
  place_matches : place.Matches s
  kept_eq : kept = place.kept (content before).current
  lines_eq : (content before).lines = delivered
  answers_eq : written ++ s.writeQ = answers before

variable {items before after : List Item} {delivered : List (List UInt8)} {written : List Answer}
  {place : Place} {s : Scanner} {kept toCome : List UInt8}

/-- A refusal is queued only behind the last line that was delivered. -/
def Quiet (before : List Item) (s : Scanner) : Prop := s.writeQ = [] ∨ before.getLast? ≠ some .endOfLine

/-- What a byte of the stream does to the scan. -/
def Judged (items : List Item) (delivered : List (List UInt8)) (written : List Answer) (before : List Item)
    (s : Scanner) (kept : List UInt8) (b : UInt8) (toCome : List UInt8) : Scanner × Verdict → Prop
  | (s', .keep) => ∃ before' after' place', Decodes items delivered written before' after' place' s' (kept ++ [b]) toCome ∧
      (Quiet before s → Quiet before' s')
  | (s', .remove) => ∃ before' after' place', Decodes items delivered written before' after' place' s' kept toCome ∧
      (Quiet before s → Quiet before' s')
  | (s', .done) => ∃ before' after', Decodes items (delivered ++ [kept ++ [b]]) written before' after' .fresh s' [] toCome

theorem encode_cons (item : Item) (after : List Item) : encode (item :: after) = item.encode ++ encode after := by
  simp [encode]

/-- An item is complete, and the scan is between two items again. -/
theorem Decodes.complete {item : Item} {s' : Scanner} {lines : List (List UInt8)} {current : List UInt8}
    (hitems : items = before ++ item :: after) (hanswers : written ++ s.writeQ = answers before)
    (hadd : (content before).add item = ⟨lines, current⟩) (hplace : Place.fresh.Matches s')
    (hqueue : s'.writeQ = s.writeQ ++ item.answer) :
    Decodes items lines written (before ++ [item]) after .fresh s' current (encode after) := by
  have hcontent : content (before ++ [item]) = ⟨lines, current⟩ := by rw [content_snoc, hadd]
  refine ⟨?_, rfl, hplace, ?_, ?_, ?_⟩
  · rw [hitems, append_assoc]
    rfl
  · rw [hcontent]
    rfl
  · rw [hcontent]
  · rw [hqueue, ← append_assoc, hanswers, answers_snoc]

/-- **A byte is judged by the item that it belongs to.** -/
theorem Decodes.judge {b : UInt8} (hplain : ∀ item ∈ items, item.Plain)
    (h : Decodes items delivered written before after place s kept (b :: toCome)) :
    Judged items delivered written before s kept b toCome (s.judge false kept b) := by
  obtain ⟨hitems, hcome, hmatches, rfl, rfl, hanswers⟩ := h
  have hquiet : ∀ (item : Item) (s' : Scanner), item ≠ .endOfLine → Quiet before s → Quiet (before ++ [item]) s' := by
    intro item s' hitem _
    exact .inr (by simpa using hitem)
  cases place with
  | fresh =>
    obtain ⟨hneutral, hbuffer⟩ := hmatches
    cases after with
    | nil => exact absurd hcome (by simp [Place.rest, encode])
    | cons item after =>
      cases item with
      | text c hc =>
        obtain ⟨rfl, rfl⟩ := cons.inj hcome
        rw [judge_text hneutral (isText_of_printable hc)]
        have hplace : Place.fresh.Matches { s with lastChar := b } := ⟨neutral_of_le hc.2 (by decide), hbuffer⟩
        exact ⟨_, after, .fresh, .complete hitems hanswers rfl hplace (append_nil _).symm, hquiet _ _ (by simp)⟩
      | endOfLine =>
        obtain ⟨rfl, rfl⟩ := cons.inj hcome
        rw [judge_text hneutral (by decide)]
        exact ⟨before, after, .afterCr, ⟨hitems, rfl, ⟨rfl, hbuffer⟩, rfl, rfl, hanswers⟩, id⟩
      | negotiation | command =>
        obtain ⟨rfl, rfl⟩ := cons.inj hcome
        rw [judge_other hneutral (by decide) fun h => absurd h (by decide)]
        exact ⟨before, after, .afterIac _, ⟨hitems, rfl, ⟨rfl, hbuffer, rfl⟩, rfl, rfl, hanswers⟩, id⟩
  | afterIac item =>
    obtain ⟨hiac, hbuffer, hencode⟩ := hmatches
    rw [judge_iac hiac]
    cases item with
    | text c hc =>
      obtain rfl := (cons.inj hencode).1
      exact absurd hc (by decide)
    | endOfLine => exact absurd (cons.inj hencode).1 (by decide)
    | negotiation verb option =>
      obtain ⟨rfl, rfl⟩ := cons.inj hcome
      refine ⟨before, after, .afterVerb verb option, ⟨hitems, rfl, ?_, rfl, rfl, hanswers⟩, id⟩
      rw [hbuffer]
      cases verb with
      | dont => exact ⟨show Neutral dont by decide, show dont ≠ cr by decide, rfl⟩
      | will | wont | doOption => exact ⟨rfl, rfl⟩
    | command c hc =>
      obtain ⟨rfl, rfl⟩ := cons.inj hcome
      have hneutral : Neutral b := neutral_of_le hc.2 (by decide)
      refine ⟨_, after, .fresh, .complete hitems hanswers rfl ⟨hneutral, ?_⟩ (append_nil _).symm, hquiet _ _ (by simp)⟩
      simp [answerTo, hneutral.2.1, hneutral.2.2.1, hbuffer]
  | afterVerb verb option =>
    obtain ⟨rfl, rfl⟩ := cons.inj hcome
    obtain ⟨hneutral, htext⟩ : Item.Plain (.negotiation verb b) := hplain _ (by rw [hitems]; simp [Place.item])
    -- the option is removed, and completes the refusal if there is one
    suffices hjudge : ∃ s', s.judge false (Place.kept _ (.afterVerb verb b)) b = (s', .remove) ∧ s'.lastChar = b ∧
        s'.writeBuffer = none ∧ s'.writeQ = s.writeQ ++ (Item.negotiation verb b).answer by
      obtain ⟨s', hjudge, hlast, hbuffer, hqueue⟩ := hjudge
      rw [hjudge]
      exact ⟨_, after, .fresh, .complete hitems hanswers rfl ⟨hlast ▸ hneutral, hbuffer⟩ hqueue, hquiet _ _ (by simp)⟩
    cases verb with
    | dont =>
      obtain ⟨hlast, hcr, hbuffer⟩ := hmatches
      refine ⟨_, judge_other hlast (htext rfl) (fun _ => hcr), rfl, hbuffer, ?_⟩
      simp [Item.answer]
    | will | doOption =>
      obtain ⟨hlast, hbuffer⟩ := hmatches
      refine ⟨{ s.enqueue b with lastChar := b }, ?_, rfl, ?_, ?_⟩
      · simp [judge, hlast, Verb.code, show will ≠ iac by decide, show doOption ≠ iac by decide]
      · simp [enqueue, hbuffer, answerTo, Verb.code, show doOption ≠ will by decide]
      · simp [enqueue, hbuffer, answerTo, Verb.code, Item.answer, show doOption ≠ will by decide]
    | wont =>
      obtain ⟨hlast, hbuffer⟩ := hmatches
      refine ⟨{ s with lastChar := b }, ?_, rfl, hbuffer, ?_⟩
      · simp [judge, hlast, Verb.code, show wont ≠ iac by decide, show wont ≠ will by decide,
          show wont ≠ doOption by decide]
      · simp [Item.answer]
  | afterCr =>
    obtain ⟨hlast, hbuffer⟩ := hmatches
    obtain ⟨rfl, rfl⟩ := cons.inj hcome
    rw [judge_lineEnd hlast]
    have hline : (content before).add .endOfLine =
        ⟨(content before).lines ++ [Place.afterCr.kept (content before).current ++ [lf]], []⟩ := by
      simp [Place.kept]
    exact ⟨_, after, .complete hitems hanswers hline ⟨show Neutral 0 by decide, hbuffer⟩ (append_nil _).symm⟩

/-! ## 4. A whole scan -/

/-- What a scan of new bytes comes to. -/
def Scans (items : List Item) (delivered : List (List UInt8)) (written : List Answer) (stream : List UInt8) :
    Scanner × List UInt8 × List UInt8 × Bool → Prop
  | (s, kept, _, false) =>
    ∃ before after place, Decodes items delivered written before after place s kept stream ∧ Quiet before s
  | (s, line, remainder, true) =>
    ∃ before after, Decodes items (delivered ++ [line]) written before after .fresh s [] (remainder ++ stream)

theorem Decodes.scan (hplain : ∀ item ∈ items, item.Plain) {bytes stream : List UInt8}
    (h : Decodes items delivered written before after place s kept (bytes ++ stream)) (hquiet : Quiet before s) :
    Scans items delivered written stream (Telnet.scan false s kept bytes) := by
  induction bytes generalizing before after place s kept with
  | nil => exact ⟨before, after, place, h, hquiet⟩
  | cons b bytes ih =>
    have hjudge := h.judge hplain
    rw [Telnet.scan]
    generalize s.judge false kept b = judged at hjudge ⊢
    obtain ⟨s', verdict⟩ := judged
    cases verdict with
    | keep | remove =>
      obtain ⟨before', after', place', h', hquiet'⟩ := hjudge
      exact ih h' (hquiet' hquiet)
    | done => exact hjudge

/-- The line can be scanned again: it is empty, or the place is not inside a sequence that the scan knows. -/
def Place.Rescans (kept : List UInt8) : Place → Prop
  | .fresh => True
  | .afterCr => True
  | .afterVerb .dont _ => True
  | _ => kept = []

theorem text_of_mem_current {b : UInt8} (h : b ∈ (content before).current) : isText b = true ∧ Neutral b :=
  have hb := printable_of_mem_current h
  ⟨isText_of_printable hb, neutral_of_le hb.2 (by decide)⟩

theorem getLastD_of_forall {p : UInt8 → Prop} {l : List UInt8} {b : UInt8} (hb : p b) (hl : ∀ c ∈ l, p c) :
    p (l.getLastD b) := by
  have hmem : l.getLastD b ∈ b :: l := getLastD_mem_cons
  rcases mem_cons.mp hmem with h | h
  · rw [h]
    exact hb
  · exact hl _ h

/-- **A line that can be scanned again is kept, and the scan finds its place.** -/
theorem Decodes.rescan (h : Decodes items delivered written before after place s kept toCome)
    (hrescans : place.Rescans kept) (bytes : List UInt8) :
    ∃ s', Telnet.scan false s [] (kept ++ bytes) = Telnet.scan false s' kept bytes ∧ s'.writeQ = s.writeQ ∧
      Decodes items delivered written before after place s' kept toCome := by
  obtain ⟨hitems, hcome, hmatches, hkept, hlines, hanswers⟩ := h
  -- the scan of the line, from whatever byte it remembers
  suffices hcase : kept = [] ∨ Neutral s.lastChar ∧ (∀ b ∈ kept, isText b = true ∧ Neutral b) ∧
      place.Matches { s with lastChar := kept.getLastD s.lastChar } by
    rcases hcase with hnil | ⟨hneutral, htext, hplace⟩
    · exact ⟨s, by rw [hnil]; rfl, rfl, hitems, hcome, hmatches, hkept, hlines, hanswers⟩
    · exact ⟨_, scan_text hneutral htext bytes, rfl, hitems, hcome, hplace, hkept, hlines, hanswers⟩
  cases place with
  | fresh =>
    have hcurrent : kept = (content before).current := hkept
    refine .inr ⟨hmatches.1, fun b hb => text_of_mem_current (hcurrent ▸ hb), ?_, hmatches.2⟩
    exact getLastD_of_forall hmatches.1 fun c hc => (text_of_mem_current (hcurrent ▸ hc)).2
  | afterCr =>
    have hcurrent : kept = (content before).current ++ [cr] := hkept
    obtain ⟨hlast, hbuffer⟩ := hmatches
    have hcr : isText cr = true ∧ Neutral cr := by decide
    refine .inr ⟨hlast ▸ hcr.2, fun b hb => ?_, ?_, hbuffer⟩
    · rw [hcurrent, mem_append, mem_singleton] at hb
      rcases hb with hb | rfl
      · exact text_of_mem_current hb
      · exact hcr
    · show kept.getLastD s.lastChar = cr
      rw [hcurrent, getLastD_concat]
  | afterIac item => exact .inl hrescans
  | afterVerb verb option =>
    cases verb with
    | dont =>
      have hcurrent : kept = (content before).current := hkept
      obtain ⟨hneutral, hcr, hbuffer⟩ := hmatches
      have hlast : Neutral (kept.getLastD s.lastChar) ∧ kept.getLastD s.lastChar ≠ cr := by
        refine getLastD_of_forall (p := fun b => Neutral b ∧ b ≠ cr) ⟨hneutral, hcr⟩ fun c hc => ?_
        rw [hcurrent] at hc
        refine ⟨(text_of_mem_current hc).2, ?_⟩
        rintro rfl
        exact absurd (printable_of_mem_current hc) (by decide)
      exact .inr ⟨hneutral, fun b hb => text_of_mem_current (hcurrent ▸ hb), hlast.1, hlast.2, hbuffer⟩
    | will | wont | doOption => exact .inl hrescans

end Gct.Telnet
