/-
# Which lines of the event log are delivered

A well-formed line has five fields with semicolons between them: the message type, the time, the id of the job, the
state of the job and the exit code.  Those of type 1 that name a known state and are not from before the start should be
delivered, each once and in order, however the log is written.

This is so if all lines are well-formed and no poll finds the log cut between two digits of an exit code
(`follow_events`).  Without the newline the digits that are there count as the exit code, and the others are then taken
for the beginning of the next line, which no longer matches; the generator never gets past it (`follow_cutExitCode`).
The same happens at a malformed line.
-/
import Mathlib.Data.List.Induction
import Gct.Lib.Words
import Gct.JobManager.EventLog

namespace Gct.JobManager

open CText List Option
open Buffer (nul cstr)

/-! ## 1. What should be delivered -/

/-- A number that fits its type. -/
def numberIn (lo hi : Int) (s : List Char) : Option Int := (number? s).filter fun n => lo ≤ n ∧ n ≤ hi

def IsJobid (s : List Char) : Prop := s ≠ [] ∧ s.length ≤ jobidMax ∧ '\n' ∉ s ∧ nul ∉ s

instance (s : List Char) : Decidable (IsJobid s) := inferInstanceAs (Decidable (_ ∧ _))

variable (line : List Char) (lines : List (List Char))

/-- The record of a line, if it is well-formed. -/
def readLine : Option LogRecord :=
  match line.splitOn ';' with
  | [protocolMsgType, stamp, jobid, jobState, exitCode] =>
    if IsJobid jobid then do
      let protocolMsgType ← numberIn intMin intMax protocolMsgType
      let stamp ← numberIn longLongMin longLongMax stamp
      let jobState ← numberIn intMin intMax jobState
      let exitCode ← numberIn intMin intMax exitCode
      some ⟨protocolMsgType, stamp, jobid, jobState, exitCode⟩
    else none
  | _ => none

def WellFormed : Prop := (readLine line).isSome = true

instance (line : List Char) : Decidable (WellFormed line) := inferInstanceAs (Decidable (_ = _))

/-- The fields of a time, the most important one first. -/
def Tm.fields (t : Tm) : List Int := [t.tmYear, t.tmMon, t.tmMday, t.tmHour, t.tmMin, t.tmSec]

def Tm.Before (t t' : Tm) : Prop := List.Lex (· < ·) t.fields t'.fields

instance (t t' : Tm) : Decidable (t.Before t') := inferInstanceAs (Decidable (List.Lex _ _ _))

/-- The event of a line: of a well-formed one of type 1 with a known state, from the start or later. -/
def lineEvent (gmtime : Int → Option Tm) (start : Tm) (line : List Char) : Option SchedulerEvent :=
  (readLine line).bind fun record =>
    if record.protocolMsgType = 1 ∧ (gmtime record.stamp).any (fun t => ¬ t.Before start) then record.event else none

/-- The text of a log with these lines. -/
def logText : List Char := lines.flatMap (· ++ ['\n'])

@[simp] theorem logText_nil : logText [] = [] := rfl

@[simp] theorem logText_cons : logText (line :: lines) = line ++ '\n' :: logText lines := by simp [logText]

@[simp] theorem logText_append (lines lines' : List (List Char)) :
    logText (lines ++ lines') = logText lines ++ logText lines' := flatMap_append

/-- What stands in a log behind its last newline. -/
def lastLine (log : List Char) : List Char := (log.reverse.takeWhile (· ≠ '\n')).reverse

/-- The log ends between two digits of an exit code: four semicolons and a digit stand in its last line, and the next
character that will be written is a digit. -/
def EndsInExitCode (written unwritten : List Char) : Prop :=
  (lastLine written).count ';' = 4 ∧ (lastLine written).getLast?.any Char.isDigit = true ∧
    unwritten.head?.any Char.isDigit = true

instance (written unwritten : List Char) : Decidable (EndsInExitCode written unwritten) :=
  inferInstanceAs (Decidable (_ ∧ _))

variable {lines : List (List Char)} {line : List Char} {record : LogRecord}

theorem lastLine_append {part : List Char} (h : '\n' ∉ part) : lastLine (logText lines ++ part) = part := by
  have hpart : ∀ c ∈ part.reverse, decide (c ≠ '\n') = true := by
    intro c hc
    rw [mem_reverse] at hc
    exact decide_eq_true fun heq => h (heq ▸ hc)
  have hlines : (logText lines).reverse.takeWhile (· ≠ '\n') = [] := by
    rcases eq_nil_or_concat lines with rfl | ⟨before, line, rfl⟩
    · rfl
    · rw [concat_eq_append, logText_append, logText_cons, logText_nil, reverse_append, reverse_append]
      rfl
  rw [lastLine, reverse_append, takeWhile_append_of_pos hpart, hlines, append_nil, reverse_reverse]

/-! ## 2. Times are compared field by field -/

theorem newer_iff {a b : Int} {newer : Bool} :
    (if a < b then false else if a > b then true else newer) = true ↔ b < a ∨ b = a ∧ newer = true := by
  rcases lt_trichotomy a b with h | rfl | h
  · rw [if_pos h]
    simp only [Bool.false_eq_true, false_iff]
    omega
  · simp
  · rw [if_neg (by omega), if_pos h]
    simp [h]

theorem timeIsNewer_iff {value benchmark : Tm} : timeIsNewer value benchmark = true ↔ benchmark.Before value := by
  rw [timeIsNewer, newer_iff, newer_iff, newer_iff, newer_iff, newer_iff, newer_iff]
  simp only [Tm.Before, Tm.fields, cons_lex_cons_iff, not_lex_nil, Bool.false_eq_true]

/-- What the loop does with the record of a well-formed line. -/
theorem deliver_eq_lineEvent {gmtime : Int → Option Tm} {start : Tm}
    (h : readLine line = some record) : deliver gmtime start record = lineEvent gmtime start line := by
  rw [lineEvent, h, bind_some, deliver]
  by_cases htype : record.protocolMsgType = 1
  · cases gmtime record.stamp with
    | none => simp
    | some t =>
      by_cases hnewer : timeIsNewer start t = true
      · simp [hnewer, timeIsNewer_iff.mp hnewer]
      · simp [hnewer, htype, mt timeIsNewer_iff.mpr hnewer]
  · simp [htype]

/-! ## 3. The text of a well-formed line -/

theorem of_numberIn {lo hi n : Int} {s : List Char} (h : numberIn lo hi s = some n) :
    number? s = some n ∧ lo ≤ n ∧ n ≤ hi := by
  rw [numberIn, filter_eq_some_iff] at h
  exact ⟨h.1, of_decide_eq_true h.2⟩

theorem scanInt_numberIn {lo hi n : Int} {s t : List Char} (h : numberIn lo hi s = some n) (ht : NoDigit t) :
    scanInt lo hi (s ++ t) = some (n, t) := by
  obtain ⟨hn, hlo, hhi⟩ := of_numberIn h
  exact scanInt_number hn hlo hhi ht

/-- The fields of a line, as they are written. -/
structure Fields (line : List Char) (record : LogRecord) (protocolMsgType stamp jobState exitCode : List Char) : Prop where
  text : line =
    protocolMsgType ++ ';' :: (stamp ++ ';' :: (record.jobid ++ ';' :: (jobState ++ ';' :: exitCode)))
  protocolMsgType : numberIn intMin intMax protocolMsgType = some record.protocolMsgType
  stamp : numberIn longLongMin longLongMax stamp = some record.stamp
  jobid : IsJobid record.jobid
  noSemicolon : ';' ∉ record.jobid
  jobState : numberIn intMin intMax jobState = some record.jobState
  exitCode : numberIn intMin intMax exitCode = some record.exitCode

theorem fields_of_readLine (h : readLine line = some record) : ∃ a b c d, Fields line record a b c d := by
  unfold readLine at h
  split at h
  · next a b jobid c d hsplit =>
    split at h
    · next hjobid =>
      simp only [bind_eq_bind, bind_eq_some_iff] at h
      obtain ⟨_, ha, _, hb, _, hc, _, hd, h⟩ := h
      obtain rfl := some.inj h
      have htext : intercalate [';'] (line.splitOn ';') = line := intercalate_splitOn ';'
      have hno : ';' ∉ jobid := by
        intro hmem
        have hpart : jobid ∈ line.splitOn ';' := by simp [hsplit]
        exact absurd (Words.of_mem_splitOnP hpart _ hmem).2 (by simp)
      rw [hsplit] at htext
      exact ⟨a, b, c, d, by simpa using htext.symm, ha, hb, hjobid, hno, hc, hd⟩
    · exact absurd h (by simp)
  · exact absurd h (by simp)

section Line

variable {line : List Char} {record : LogRecord} {a b c d : List Char} (h : Fields line record a b c d)

include h

theorem Fields.noNewline : '\n' ∉ line := by
  have hnumber {lo hi n : Int} {s : List Char} (hs : numberIn lo hi s = some n) : '\n' ∉ s :=
    not_mem_number? (of_numberIn hs).1 (by decide) (by decide)
  rw [h.text]
  simp only [mem_append, mem_cons, not_or]
  exact ⟨hnumber h.protocolMsgType, by decide, hnumber h.stamp, by decide, h.jobid.2.2.1, by decide,
    hnumber h.jobState, by decide, hnumber h.exitCode⟩

theorem Fields.scanSet_jobid {s : List Char} (hs : ∀ x ∈ s.head?, x = ';') :
    scanSet jobidMax (· ≠ ';') (record.jobid ++ s) = some (record.jobid, s) :=
  scanSet_append h.jobid.1 h.jobid.2.1 (fun _ hx => decide_eq_true fun heq => h.noSemicolon (heq ▸ hx))
    fun x hx => decide_eq_false (not_not.mpr (hs x hx))

/-- **A line that is there is matched**, with the newline behind it or without. -/
theorem Fields.scanRecord_line {s : List Char} (hs : NoDigit s) :
    scanRecord (line ++ s) = some (record, (scanLiteral '\n' s).getD s) := by
  have hsemi {t : List Char} : NoDigit (';' :: t) := noDigit_cons.mpr (by decide)
  have hjobid : cstr record.jobid = record.jobid := by
    have happend := Buffer.cstr_append_left h.jobid.2.2.2 []
    rwa [append_nil, show cstr [] = [] from rfl, append_nil] at happend
  rw [h.text]
  simp only [append_assoc, cons_append]
  unfold scanRecord
  have hset := @Fields.scanSet_jobid _ _ _ _ _ _ h (';' :: (c ++ ';' :: (d ++ s))) (by simp)
  simp only [scanInt_numberIn h.protocolMsgType hsemi, scanInt_numberIn h.stamp hsemi, hset,
    scanInt_numberIn h.jobState hsemi, scanInt_numberIn h.exitCode hs, bind_eq_bind, bind_some,
    scanLiteral_cons, hjobid]

end Line

/-! ## 4. Parts of a line -/

/-- A part of a text with a semicolon in it ends before the semicolon or behind it. -/
theorem part_cases {part rest field tail : List Char} (h : part ++ rest = field ++ ';' :: tail) :
    (∃ more, field = part ++ more) ∨ ∃ part', part = field ++ ';' :: part' ∧ part' ++ rest = tail := by
  rcases append_eq_append_iff.mp h with ⟨more, hfield, -⟩ | ⟨more, hpart, htail⟩
  · exact .inl ⟨more, hfield⟩
  · cases more with
    | nil => exact .inl ⟨[], by rw [hpart, append_nil, append_nil]⟩
    | cons x more =>
      rw [cons_append, cons.injEq] at htail
      exact .inr ⟨more, by rw [hpart, htail.1], htail.2.symm⟩

/-- A part of a log ends before the end of its first line, at it, or behind the newline. -/
theorem part_newline_cases {part future line tail : List Char} (h : line ++ '\n' :: tail = part ++ future) :
    (part = line ∧ future = '\n' :: tail) ∨ (∃ x rest, line = part ++ x :: rest ∧ future = x :: rest ++ '\n' :: tail) ∨
      ∃ more, part = line ++ '\n' :: more ∧ more ++ future = tail := by
  rcases append_eq_append_iff.mp h with ⟨more, hpart, htail⟩ | ⟨more, hline, hfuture⟩
  · cases more with
    | nil => exact .inl ⟨by rw [hpart, append_nil], htail.symm⟩
    | cons x more =>
      rw [cons_append, cons.injEq] at htail
      exact .inr (.inr ⟨more, by rw [hpart, htail.1], htail.2.symm⟩)
  · cases more with
    | nil => exact .inl ⟨by rw [hline, append_nil], hfuture⟩
    | cons x more => exact .inr (.inl ⟨x, more, hline, hfuture⟩)

theorem count_semicolon_number {lo hi n : Int} {s : List Char} (h : numberIn lo hi s = some n) : s.count ';' = 0 :=
  count_eq_zero.mpr (not_mem_number? (of_numberIn h).1 (by decide) (by decide))

/-- A part of a number is taken to the end of the text. -/
theorem scanInt_part_end {lo hi n : Int} {p r : List Char} (h : numberIn lo hi (p ++ r) = some n) :
    scanInt lo hi p = none ∨ ∃ v, scanInt lo hi p = some (v, []) :=
  (scanInt_part (of_numberIn h).1).imp_right And.left

/-- **A part of a line is not matched**, unless it ends between two digits of the exit code. -/
theorem Fields.scanRecord_part {a b c d : List Char}
    (h : Fields line record a b c d) {part rest : List Char} {x : Char} (hline : line = part ++ x :: rest) :
    scanRecord part = none ∨ part.count ';' = 4 ∧ part.getLast?.any Char.isDigit = true ∧ x.isDigit = true := by
  have hsemi {t : List Char} : NoDigit (';' :: t) := noDigit_cons.mpr (by decide)
  rw [h.text, eq_comm] at hline
  unfold scanRecord
  -- the field in which the part ends
  rcases part_cases hline with ⟨more, ha⟩ | ⟨part₂, rfl, hline₂⟩
  · left
    rcases scanInt_part_end (ha ▸ h.protocolMsgType) with hscan | ⟨v, hscan⟩ <;> rw [hscan] <;> rfl
  simp only [scanInt_numberIn h.protocolMsgType hsemi, bind_eq_bind, bind_some, scanLiteral_cons]
  rcases part_cases hline₂ with ⟨more, hb⟩ | ⟨part₃, rfl, hline₃⟩
  · left
    rcases scanInt_part_end (hb ▸ h.stamp) with hscan | ⟨v, hscan⟩ <;> rw [hscan] <;> rfl
  simp only [scanInt_numberIn h.stamp hsemi, bind_some, scanLiteral_cons]
  rcases part_cases hline₃ with ⟨more, hjobid⟩ | ⟨part₄, rfl, hline₄⟩
  · left
    by_cases hnil : part₃ = []
    · rw [hnil, scanSet_nil]
      rfl
    · have hset : scanSet jobidMax (· ≠ ';') (part₃ ++ []) = some (part₃, []) := by
        refine scanSet_append hnil ?_ ?_ (by simp)
        · have hlen := h.jobid.2.1
          rw [hjobid, length_append] at hlen
          omega
        · exact fun y hy => decide_eq_true fun heq => h.noSemicolon (by rw [hjobid]; exact mem_append_left _ (heq ▸ hy))
      rw [append_nil] at hset
      rw [hset]
      rfl
  have hset := @Fields.scanSet_jobid _ _ _ _ _ _ h (';' :: part₄) (by simp)
  simp only [hset, bind_some, scanLiteral_cons]
  rcases part_cases hline₄ with ⟨more, hc⟩ | ⟨part₅, rfl, hline₅⟩
  · left
    rcases scanInt_part_end (hc ▸ h.jobState) with hscan | ⟨v, hscan⟩ <;> rw [hscan] <;> rfl
  simp only [scanInt_numberIn h.jobState hsemi, bind_some, scanLiteral_cons]
  have hexit := h.exitCode
  rw [← hline₅] at hexit
  rcases @scanInt_part _ _ intMin intMax _ (of_numberIn hexit).1 with hscan | ⟨-, ⟨y, hlast, hy⟩, hrest⟩
  · left
    rw [hscan]
    rfl
  · right
    have hcount : part₅.count ';' = 0 := by
      have hall := count_semicolon_number hexit
      rw [count_append] at hall
      omega
    refine ⟨?_, ?_, hrest x mem_cons_self⟩
    · simp [count_append, count_semicolon_number h.protocolMsgType,
        count_semicolon_number h.stamp, count_eq_zero.mpr h.noSemicolon, count_semicolon_number h.jobState, hcount]
    · have hsome : part₅.getLast? = some y := hlast
      simp [getLast?_append, getLast?_cons, hsome, hy]

/-! ## 5. One poll -/

section

variable {spaces : List Char} (h : ∀ x ∈ spaces, isSpace x = true)

include h

/-- White space in front is passed. -/
theorem scanRecord_append (s : List Char) : scanRecord (spaces ++ s) = scanRecord s := by
  unfold scanRecord
  rw [scanInt_of_spaces h]

theorem scanRecord_spaces : scanRecord spaces = none := by
  rw [← append_nil spaces, scanRecord_append h]
  rfl

end

section Poll

variable {gmtime : Int → Option Tm} {start : Tm}

/-- What is known after some text was looked at: the lines that were passed were delivered, and what is left is the
beginning of the others, all of which are passed when nothing more is to be written. -/
structure Passed (gmtime : Int → Option Tm) (start : Tm) (todo : List (List Char)) (left future : List Char)
    (found : List SchedulerEvent) (passed todo' : List (List Char)) (white : List Char) : Prop where
  lines : todo = passed ++ todo'
  spaces : ∀ x ∈ white, isSpace x = true
  text : left ++ future = white ++ logText todo'
  events : found = passed.filterMap (lineEvent gmtime start)
  all : future = [] → todo' = []

/-- **What a poll does.**  The text that it finds is the beginning of what is still to come: white space from an earlier
line, and the lines `todo`.  It is not cut between two digits of an exit code. -/
theorem parseLoop_lines {todo : List (List Char)} : ∀ {spaces s future : List Char},
    (∀ x ∈ spaces, isSpace x = true) → s ++ future = spaces ++ logText todo → (∀ line ∈ todo, WellFormed line) →
    (∀ passed line todo' part x rest, todo = passed ++ line :: todo' → line = part ++ x :: rest →
      future = x :: rest ++ '\n' :: logText todo' →
      ¬(part.count ';' = 4 ∧ part.getLast?.any Char.isDigit = true ∧ x.isDigit = true)) →
    ∃ passed todo' spaces', Passed gmtime start todo ((parseLoop gmtime start).rest () s) future
      ((parseLoop gmtime start).tokens () s) passed todo' spaces' := by
  induction todo with
  | nil =>
    intro spaces s future hspaces heq _ _
    rw [logText_nil, append_nil] at heq
    have hscan : scanRecord s = none := scanRecord_spaces fun x hx => hspaces x (heq ▸ mem_append_left _ hx)
    rw [rest_parseLoop_of_none hscan, tokens_parseLoop_of_none hscan]
    exact ⟨[], [], spaces, rfl, hspaces, by rw [heq, logText_nil, append_nil], rfl, fun _ => rfl⟩
  | cons line todo ih =>
    intro spaces s future hspaces heq hlines hcut
    obtain ⟨record, hrecord⟩ := isSome_iff_exists.mp (hlines line mem_cons_self)
    obtain ⟨a, b, c, d, hfields⟩ := fields_of_readLine hrecord
    have hstop (hscan : scanRecord s = none) (hfuture : future ≠ []) : ∃ passed todo' spaces',
        Passed gmtime start (line :: todo) ((parseLoop gmtime start).rest () s) future
          ((parseLoop gmtime start).tokens () s) passed todo' spaces' := by
      rw [rest_parseLoop_of_none hscan, tokens_parseLoop_of_none hscan]
      exact ⟨[], line :: todo, spaces, rfl, hspaces, heq, rfl, fun h => absurd h hfuture⟩
    have hevent : (deliver gmtime start record).toList = [line].filterMap (lineEvent gmtime start) := by
      rw [deliver_eq_lineEvent hrecord, filterMap_cons, filterMap_nil]
      cases lineEvent gmtime start line <;> rfl
    have htext := heq
    rw [logText_cons] at htext
    rcases append_eq_append_iff.mp htext with ⟨more, hs, hfuture⟩ | ⟨s', rfl, hline⟩
    · -- not even the white space is there
      refine hstop (scanRecord_spaces fun x hx => hspaces x (hs ▸ mem_append_left _ hx)) ?_
      rw [hfuture]
      simp
    rcases part_newline_cases hline with ⟨hs', hfuture⟩ | ⟨x, rest, hpart, hfuture⟩ | ⟨more, hs', hfuture⟩
    · -- the line without its newline
      have hscan : scanRecord (spaces ++ s') = some (record, []) := by
        have hscan := hfields.scanRecord_line noDigit_nil
        rwa [append_nil, ← hs', ← scanRecord_append hspaces] at hscan
      have hend : scanRecord [] = none := rfl
      rw [rest_parseLoop_of_some hscan, tokens_parseLoop_of_some hscan, rest_parseLoop_of_none hend,
        tokens_parseLoop_of_none hend, append_nil]
      refine ⟨[line], todo, ['\n'], rfl, forall_mem_singleton.mpr rfl, hfuture, hevent, ?_⟩
      rw [hfuture]
      exact fun h => absurd h (by simp)
    · -- a part of the line
      have hnot := hcut [] line todo s' x rest rfl hpart hfuture
      refine hstop ((scanRecord_append hspaces s').trans ((hfields.scanRecord_part hpart).resolve_right hnot)) ?_
      rw [hfuture]
      simp
    · -- the line, and perhaps more
      have hscan : scanRecord (spaces ++ s') = some (record, more) := by
        have hnewline : NoDigit ('\n' :: more) := noDigit_cons.mpr (by decide)
        have hscan := hfields.scanRecord_line hnewline
        rwa [← hs', ← scanRecord_append hspaces, scanLiteral_cons, getD_some] at hscan
      obtain ⟨passed, todo', spaces', hpassed⟩ := @ih [] more future (by simp) hfuture
        (fun l hl => hlines l (mem_cons_of_mem _ hl))
        fun passed l todo' part x rest hl hpart => hcut (line :: passed) l todo' part x rest (by rw [hl]; rfl) hpart
      rw [rest_parseLoop_of_some hscan, tokens_parseLoop_of_some hscan]
      refine ⟨line :: passed, todo', spaces', ?_, hpassed.spaces, hpassed.text, ?_, hpassed.all⟩
      · rw [hpassed.lines]
        rfl
      · rw [hevent, hpassed.events, ← filterMap_append]
        rfl

/-! ## 6. Runs -/

theorem logText_eq_nil (h : logText lines = []) : lines = [] := by
  cases lines with
  | nil => rfl
  | cons line lines => exact absurd h (by simp)

/-- A log that is cut between two digits of the last field of one of its lines. -/
theorem endsInExitCode_of_cut {part rest written tail : List Char} {x : Char}
    (hnewline : '\n' ∉ part) (hwritten : written ++ (x :: rest ++ tail) = logText lines ++ (part ++ (x :: rest ++ tail)))
    (hcount : part.count ';' = 4) (hlast : part.getLast?.any Char.isDigit = true) (hx : x.isDigit = true) :
    EndsInExitCode written (x :: rest ++ tail) := by
  rw [← append_assoc (logText lines)] at hwritten
  obtain rfl := append_cancel_right hwritten
  rw [EndsInExitCode, lastLine_append hnewline]
  exact ⟨hcount, hlast, by simpa using hx⟩

variable {lines pieces : List (List Char)}

theorem follow_append_singleton (before : List (List Char)) (piece : List Char) :
    follow gmtime start (before ++ [piece]) = (follow gmtime start before).poll gmtime start piece := by
  rw [follow, foldl_append]
  rfl

/-- What is known after each poll. -/
theorem follow_passed (hlines : ∀ line ∈ lines, WellFormed line) (hpieces : pieces.flatten = logText lines)
    (hcut : ∀ i ≤ pieces.length, ¬ EndsInExitCode (pieces.take i).flatten (pieces.drop i).flatten)
    (before : List (List Char)) : ∀ {after : List (List Char)}, pieces = before ++ after →
    ∃ passed todo spaces, Passed gmtime start lines (follow gmtime start before).unread after.flatten
      (follow gmtime start before).events passed todo spaces := by
  induction before using reverseRecOn with
  | nil =>
    intro after hafter
    have hflatten : after.flatten = logText lines := by rw [← hpieces, hafter, nil_append]
    refine ⟨[], lines, [], rfl, by simp, hflatten, rfl, ?_⟩
    rw [hflatten]
    exact logText_eq_nil
  | append_singleton before piece ih =>
    intro after hafter
    obtain ⟨passed, todo, spaces, hpassed⟩ := @ih (piece :: after) (by rw [hafter, append_assoc]; rfl)
    have hlines' := hpassed.lines
    have htext := hpassed.text
    rw [flatten_cons, ← append_assoc] at htext
    obtain ⟨passed', todo', spaces', hpassed'⟩ := @parseLoop_lines gmtime start _ _ _ _ hpassed.spaces htext
      (fun line hline => hlines line (by rw [hlines']; exact mem_append_right _ hline)) (by
        rintro done line todo' part x rest rfl hpart hfuture ⟨hcount, hlast, hx⟩
        have hwell : WellFormed line := hlines line (by rw [hlines']; simp)
        obtain ⟨record, hrecord⟩ := isSome_iff_exists.mp hwell
        obtain ⟨a, b, c, d, hfields⟩ := fields_of_readLine hrecord
        have hnewline : '\n' ∉ part := fun hmem => hfields.noNewline (by rw [hpart]; exact mem_append_left _ hmem)
        have hwritten : (before ++ [piece]).flatten ++ after.flatten =
            logText (passed ++ done) ++ (part ++ after.flatten) := by
          rw [← flatten_append, ← hafter, hpieces, hlines', hfuture, hpart]
          simp
        have hlength : (before ++ [piece]).length ≤ pieces.length := by
          rw [hafter]
          exact (prefix_append _ _).length_le
        have hends := hcut _ hlength
        rw [hafter, take_left, drop_left, hfuture] at hends
        rw [hfuture] at hwritten
        exact hends (endsInExitCode_of_cut hnewline hwritten hcount hlast hx))
    rw [follow_append_singleton]
    refine ⟨passed ++ passed', todo', spaces', ?_, hpassed'.spaces, hpassed'.text, ?_, hpassed'.all⟩
    · rw [hlines', hpassed'.lines, append_assoc]
    · rw [filterMap_append, ← hpassed.events, ← hpassed'.events]
      rfl

/-- **Well-formed lines are delivered as they should be**, each once and in order, when no poll finds the log cut between
two digits of an exit code. -/
theorem follow_events (hlines : ∀ line ∈ lines, WellFormed line) (hpieces : pieces.flatten = logText lines)
    (hcut : ∀ i ≤ pieces.length, ¬ EndsInExitCode (pieces.take i).flatten (pieces.drop i).flatten) :
    (follow gmtime start pieces).events = lines.filterMap (lineEvent gmtime start) := by
  obtain ⟨passed, todo, spaces, hpassed⟩ :=
    @follow_passed gmtime start _ _ hlines hpieces hcut pieces [] (append_nil _).symm
  have hall : lines = passed := by
    rw [hpassed.lines, hpassed.all rfl, append_nil]
  rw [hpassed.events, hall]

end Poll

/-- Seconds of the first day of 1970, for the examples. -/
def firstMinutes (stamp : Int) : Option Tm := some ⟨70, 0, 1, 0, stamp / 60, stamp % 60⟩

/-- Two lines, of which the first is written in pieces: within the time, and directly behind the exit code. -/
theorem follow_events_twoLines :
    (follow firstMinutes ⟨70, 0, 1, 0, 0, 0⟩ ["001;1".toList, "00;j;8;12".toList, "\n001;101;k;1;0\n".toList]).events =
      [.done 100 "j".toList 12, .pending 101 "k".toList] := by
  have h := @follow_events firstMinutes ⟨70, 0, 1, 0, 0, 0⟩ ["001;100;j;8;12".toList, "001;101;k;1;0".toList]
    ["001;1".toList, "00;j;8;12".toList, "\n001;101;k;1;0\n".toList] (by decide +kernel) (by decide +kernel) (by decide +kernel)
  decide +kernel

/-- **An exit code is cut.**  The poll comes when the first digit of the exit code 12 is there: the job is reported with the
exit code 1, and the line of the other job is never delivered. -/
theorem follow_cutExitCode :
    ∃ (lines pieces : List (List Char)), pieces.flatten = logText lines ∧ (∀ line ∈ lines, WellFormed line) ∧
      lines.filterMap (lineEvent firstMinutes ⟨70, 0, 1, 0, 0, 0⟩) = [.done 100 "j".toList 12, .done 101 "k".toList 0] ∧
      (follow firstMinutes ⟨70, 0, 1, 0, 0, 0⟩ pieces).events = [.done 100 "j".toList 1] :=
  ⟨["001;100;j;8;12".toList, "001;101;k;8;0".toList], ["001;100;j;8;1".toList, "2\n".toList, "001;101;k;8;0\n".toList],
    by decide +kernel, by decide +kernel, by decide +kernel, by decide +kernel⟩

/-- A malformed line keeps the line behind it from being delivered. -/
example : (follow firstMinutes ⟨70, 0, 1, 0, 0, 0⟩ ["garbled\n".toList, "001;101;k;8;0\n".toList]).events = [] := by decide +kernel

end Gct.JobManager
