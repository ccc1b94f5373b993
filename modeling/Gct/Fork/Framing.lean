/-
# Which requests are answered

Each line that is written to the starter should be parsed once, by itself, whatever the reads are.  `answer` is what one
line gives when it is parsed in a new task.

This is so when every newline is the last byte of its read, and the malformed lines leave nothing behind
(`run_answers`).  When a read goes on behind a newline, the search for the next one is made in the wrong buffer: the
second of two requests in one read stays there and is parsed together with the line that comes next
(`run_mergesRequests`).
-/
import Gct.Lib.Separated
import Gct.Lib.Words
import Gct.Fork.Starter

namespace Gct.Fork

open List Separated Buffer

open Buffer (nul cstr)

/-! ## 1. The lines and their answers -/

/-- The lines that are complete. -/
def completeLines (stream : Text) : List Text := (stream.splitOn '\n').dropLast

/-- What the starter does for one line. -/
def answer (rc : Nat → Int) (log : Log) (line : Text) : Log :=
  match parseRequest none {} line with
  | none => log
  | some parsed =>
    if parsed.good then log.start rc parsed.tagText parsed.attributes else log.refuse parsed.tagText

/-- A line that does not end in the middle of an escape.  If it is malformed, no attribute was set before the error was
found, and no newline was made from an escape. -/
def Harmless (line : Text) : Prop :=
  ∃ parsed ∈ parseRequest none {} line, parsed.good = true ∨ parsed.attributes = {} ∧ '\n' ∉ parsed.region

/-- Reads that bring the lines one by one. -/
structure Orderly (reads : List Text) : Prop where
  newlineLast : ∀ bytes ∈ reads, '\n' ∉ bytes.dropLast
  noNul : ∀ bytes ∈ reads, nul ∉ bytes
  harmless : ∀ line ∈ completeLines reads.flatten, Harmless line

/-! ## 2. What the parser does to the buffer -/

theorem length_unescapeLoop : ∀ (fuel i len : Nat) (value : Text), len < value.length →
    (unescapeLoop fuel i len value).length = value.length := by
  intro fuel
  induction fuel with
  | zero => exact fun _ _ _ _ => rfl
  | succ fuel ih =>
    intro i len value hlen
    rw [unescapeLoop]
    split
    next hi =>
      split
      next =>
        have hset (v : Text) (p : Prop) [Decidable p] : (if p then v.set i '\n' else v).length = v.length := by
          split
          · exact length_set
          · rfl
        have hmoved (p : Prop) [Decidable p] :
            (if p then memmove value i (i + 1) (len - i) else value).length = value.length := by
          split
          · exact length_memmove (by omega) (by omega)
          · rfl
        rw [ih _ _ _ (by rw [hset, hmoved]; omega), hset, hmoved]
      next => exact ih _ _ _ hlen
    next => rfl

theorem length_unescape (value : Text) : (unescape value).length = value.length := by
  rw [unescape, length_take, length_unescapeLoop _ _ _ _ (by simp), length_append]
  simp

theorem length_joined_cons (part : Text) (parts : List Text) (h : parts ≠ []) :
    (joined (part :: parts)).length = part.length + 1 + (joined parts).length := by
  obtain ⟨next, rest, rfl⟩ := exists_cons_of_ne_nil h
  rw [joined, intercalate_cons_cons, joined, length_append, length_append, length_singleton]

theorem length_joined_map (f : Text → Text) (hf : ∀ part, (f part).length = part.length) (parts : List Text) :
    (joined (parts.map f)).length = (joined parts).length := by
  induction parts with
  | nil => rfl
  | cons part parts ih =>
    by_cases h : parts = []
    · subst h
      simp [joined, hf]
    · rw [map_cons, length_joined_cons _ _ (by simpa using h), length_joined_cons _ _ h, ih, hf]

theorem splitEscaped_ne_nil (sep : Char) (part s : Text) : splitEscaped sep part s ≠ [] := by
  fun_induction splitEscaped sep part s with
  | case1 | case2 | case4 => exact cons_ne_nil _ _
  | case3 part c s ih | case5 part c s _ _ _ ih => exact ih

theorem length_joined_splitEscaped (sep : Char) (part s : Text) :
    (joined (splitEscaped sep part s)).length = part.length + s.length := by
  fun_induction splitEscaped sep part s with
  | case1 part | case2 part => simp [joined]
  | case4 part s _ _ ih =>
    rw [length_joined_cons _ _ (splitEscaped_ne_nil _ _ _), ih]
    simp only [length_cons, length_nil]
    omega
  | case3 part c s ih | case5 part c s _ _ _ ih =>
    rw [ih]
    simp only [length_append, length_cons, length_nil]
    omega

theorem length_setAttribute (attributes : Attributes) (attr value : Text) :
    (setAttribute attributes attr value).2.length = value.length := by
  have hparts : (joined (splitString value)).length = value.length := by
    rw [splitString, length_joined_splitEscaped, length_nil, Nat.zero_add]
  have hunescaped : (joined ((splitString value).map unescape)).length = value.length := by
    rw [length_joined_map _ length_unescape, hparts]
  unfold setAttribute
  split_ifs
  · rfl
  · exact hparts
  · exact length_unescape value
  · exact length_unescape value
  · exact hunescaped
  · exact length_unescape value
  · exact hunescaped
  · exact hunescaped
  · rfl

theorem length_of_splitValue {attr field : Text} : ∀ {before value : Text}, splitValue attr field = some (before, value) →
    before.length + 1 + value.length = attr.length + field.length := by
  fun_induction splitValue attr field with
  | case1 | case2 => nofun
  | case4 attr s =>
    rintro before value ⟨⟩
    simp only [length_cons]
    omega
  | case3 attr c s ih | case5 attr c s _ _ _ ih =>
    intro before value h
    have hlen := ih h
    simp only [length_append, length_cons, length_nil] at hlen ⊢
    omega

theorem length_parseAttribute (attributes : Attributes) (field : Text) :
    (parseAttribute attributes field).2.length = field.length := by
  unfold parseAttribute
  split
  next => rfl
  next value h =>
    have hlen := length_of_splitValue h
    rw [length_cons]
    omega
  next attr value _ h =>
    have hlen := length_of_splitValue h
    simp only [length_nil] at hlen
    rw [length_append, length_cons, length_setAttribute]
    omega

theorem le_length_append {tag : Option Nat} {done : Text} (h : ∀ offset ∈ tag, offset ≤ done.length) (bytes more : Text) :
    ∀ offset ∈ tag, offset ≤ (done ++ bytes ++ more).length := by
  intro offset hoffset
  have hle := h offset hoffset
  rw [length_append, length_append]
  omega

variable {parsed : Parsed} {reads : List Text}

/-- The line keeps its length, and the tag is within it. -/
theorem parseLoop_bounds {fieldno : Nat} {tag : Option Nat} {attributes : Attributes} {done field line : Text}
    (htag : ∀ offset ∈ tag, offset ≤ done.length) (h : parseLoop fieldno tag attributes done field line = some parsed) :
    parsed.region.length = done.length + field.length + line.length ∧
      ∀ offset ∈ parsed.tag, offset ≤ parsed.region.length := by
  fun_induction parseLoop fieldno tag attributes done field line with
  | case1 fieldno tag attributes done field =>
    cases h
    have hlen := length_parseAttribute attributes field
    rw [length_append, hlen, length_nil]
    exact ⟨rfl, fun offset hoffset => (htag offset hoffset).trans (by omega)⟩
  | case2 => cases h
  | case4 tag attributes done field line =>
    cases h
    refine ⟨?_, le_length_append htag _ _⟩
    simp only [length_append, length_cons]
  | case5 tag attributes done field line _ _ _ ih =>
    refine (ih (le_length_append htag _ _) h).imp_left fun hlen => hlen.trans ?_
    simp only [length_append, length_cons, length_nil]
    omega
  | case6 tag attributes done field line _ _ ih =>
    have hself : ∀ offset ∈ some done.length, offset ≤ done.length := by
      rintro offset ⟨⟩
      exact Nat.le_refl _
    refine (ih (le_length_append hself _ _) h).imp_left fun hlen => hlen.trans ?_
    simp only [length_append, length_cons, length_nil]
    omega
  | case7 tag attributes done field line fieldno bytes hparse =>
    cases h
    have hbytes := length_parseAttribute attributes field
    rw [hparse] at hbytes
    refine ⟨?_, le_length_append htag _ _⟩
    simp only [length_append, length_cons, hbytes]
  | case8 tag attributes done field line fieldno attributes' bytes hparse _ _ ih =>
    have hbytes := length_parseAttribute attributes field
    rw [hparse] at hbytes
    refine (ih (le_length_append htag _ _) h).imp_left fun hlen => hlen.trans ?_
    simp only [length_append, length_cons, length_nil, hbytes]
    omega
  | case3 fieldno tag attributes done field c line ih | case9 fieldno tag attributes done field c line _ _ _ ih =>
    refine (ih htag h).imp_left fun hlen => hlen.trans ?_
    simp only [length_append, length_cons, length_nil]
    omega

theorem parseRequest_bounds {line : Text} (h : parseRequest none {} line = some parsed) :
    parsed.region.length = line.length ∧ ∀ offset ∈ parsed.tag, offset ≤ parsed.region.length := by
  have hbounds := parseLoop_bounds (fun _ hnone => by cases hnone) h
  simpa using hbounds

theorem cstr_append_nul (s t : Text) : cstr (s ++ nul :: t) = cstr s := by
  induction s with
  | nil => rfl
  | cons c s ih =>
    by_cases hc : c = nul
    · subst hc
      rfl
    · simp only [cstr, cons_append] at ih ⊢
      rw [takeWhile_cons_of_pos (by simpa using hc), takeWhile_cons_of_pos (by simpa using hc), ih]

/-- The tag is read in the line, whatever follows it in the buffer. -/
theorem tagText_eq {line : Text} (stale : Text) (h : parseRequest none {} line = some parsed) :
    (parsed.tag.map fun offset => cstr ((parsed.region ++ nul :: stale).drop offset)) = parsed.tagText := by
  have hbounds := (parseRequest_bounds h).2
  rw [Parsed.tagText]
  cases htag : parsed.tag with
  | none => rfl
  | some offset =>
    have hle := hbounds offset htag
    rw [Option.map_some, Option.map_some, drop_append_of_le_length hle, cstr_append_nul]

/-! ## 3. One read -/

/-- A task in which a part of a line was read, and nothing else.  What stands behind it in the buffer is from an earlier
line. -/
structure Waiting (task : Task) (part : Text) : Prop where
  mem : ∃ stale, task.mem = part ++ stale
  tasklen : task.tasklen = part.length
  tag : task.tag = none
  attributes : task.attributes = {}

section Read

variable {rc : Nat → Int} {task : Task} {part line stale : Text} {log : Log}

/-- When nothing follows the line, the parser gives what it gives for the line alone. -/
theorem parseTask_line (task : Task) (hnul : nul ∉ line) (hparse : parseRequest none {} line = some parsed)
    (hmem : task.mem = line ++ nul :: stale) (htasklen : task.tasklen = line.length + 1) (htag : task.tag = none)
    (hattributes : task.attributes = {}) : parseTask task = if parsed.good then
        some (.good { task with mem := parsed.region ++ nul :: stale, tag := parsed.tag, attributes := parsed.attributes } {})
      else
        match parsed.attributes.clear with
        | none => none
        | some attributes =>
          some (.bad { task with mem := parsed.region ++ nul :: stale, tasklen := 0, tag := parsed.tag, attributes }) := by
  have hcstr : cstr task.mem = line := by rw [hmem, cstr_append hnul]
  have hmem' : nul ∈ task.mem := by rw [hmem]; simp
  have hrest : task.mem.drop line.length = nul :: stale := by rw [hmem, drop_left]
  rw [parseTask, if_neg (not_not.mpr hmem')]
  simp only [hcstr, htag, hattributes, hparse, htasklen, Nat.lt_irrefl, if_false, hrest, Nat.sub_self, take_zero,
    length_nil, nil_append, drop_zero, Nat.not_lt_zero] <;> rfl

theorem readLoop_of_none {scan : Scan} {nbytes fuel : Nat} (h : takeNewline scan nbytes task = some none) :
    readLoop rc (fuel + 1) scan nbytes task log = some (task, log) := by rw [readLoop, h]

/-- After a good line, `buffer` does not lead into the buffer of the new task. -/
theorem afterStart_ne (scan : Scan) (task : Task) (code : Int) (offset : Nat) : scan.afterStart task code ≠ .current offset := by
  cases scan with
  | current offset' =>
    rw [Scan.afterStart]
    split <;> nofun
  | started mem => nofun
  | freed => nofun

theorem takeNewline_zero {scan : Scan} (hscan : ∀ offset, scan ≠ .current offset) (task : Task) :
    takeNewline scan 0 task = some none := by
  cases scan with
  | current offset => exact absurd rfl (hscan offset)
  | started mem => simp [takeNewline]
  | freed => rfl

section Loop

variable {scan scan' : Scan} {nbytes fuel : Nat} {task' parsedTask : Task}
  (hnewline : takeNewline scan nbytes task = some (some (scan', task')))
include hnewline

theorem readLoop_good (hparse : parseTask task' = some (.good parsedTask {})) :
    readLoop rc (fuel + 2) scan nbytes task log = some ({}, log.start rc parsedTask.tagText parsedTask.attributes) := by
  rw [readLoop, hnewline]
  simp only [hparse]
  exact readLoop_of_none (takeNewline_zero (afterStart_ne _ _ _) _)

theorem readLoop_bad (hparse : parseTask task' = some (.bad parsedTask))
    (hno : takeNewline scan' nbytes { parsedTask with tag := none } = some none) :
    readLoop rc (fuel + 2) scan nbytes task log =
      some ({ parsedTask with tag := none }, log.refuse parsedTask.tagText) := by
  rw [readLoop, hnewline]
  simp only [hparse]
  exact readLoop_of_none hno

end Loop

theorem findIdx?_newline {bytes : Text} (hno : '\n' ∉ bytes) : bytes.findIdx? (· = '\n') = none := by
  rw [findIdx?_eq_none_iff]
  intro c hc
  refine decide_eq_false ?_
  rintro rfl
  exact hno hc

theorem takeNewline_current {offset nbytes : Nat} (hlen : offset + nbytes ≤ task.mem.length)
    (hno : '\n' ∉ (task.mem.drop offset).take nbytes) : takeNewline (.current offset) nbytes task = some none := by
  simp only [takeNewline, Nat.not_lt.mpr hlen, if_false, findIdx?_newline hno]

variable {bytes : Text}

theorem takeNewline_last (task : Task) (hno : '\n' ∉ bytes) (hmem : task.mem = part ++ bytes ++ '\n' :: stale) :
    takeNewline (.current part.length) (bytes.length + 1) task =
      some (some (.current part.length, { task with mem := part ++ bytes ++ nul :: stale })) := by
  have hlen : part.length + (bytes.length + 1) ≤ task.mem.length := by
    rw [hmem]
    simp only [length_append, length_cons]
    omega
  have htake : (task.mem.drop part.length).take (bytes.length + 1) = bytes ++ ['\n'] := by
    have hsplit : task.mem = part ++ ((bytes ++ ['\n']) ++ stale) := by rw [hmem]; simp
    rw [hsplit, drop_left, take_left' (by simp)]
  have hfind : (bytes ++ ['\n']).findIdx? (· = '\n') = some bytes.length := by
    simp [findIdx?_append, findIdx?_newline hno]
  have hset : task.mem.set (part.length + bytes.length) nul = part ++ bytes ++ nul :: stale := by
    rw [hmem, ← length_append, set_append_right _ _ (Nat.le_refl _), Nat.sub_self]
    rfl
  simp only [takeNewline, Nat.not_lt.mpr hlen, if_false, htake, hfind, hset]

/-- A read without a newline makes the part longer. -/
theorem readLoop_part (rc : Nat → Int) (log : Log) (hwait : Waiting task part) (hno : '\n' ∉ bytes) (fuel : Nat) :
    ∃ task', readLoop rc (fuel + 1) (.current task.tasklen) bytes.length
        { task with mem := write task.mem task.tasklen bytes, tasklen := task.tasklen + bytes.length } log =
        some (task', log) ∧ Waiting task' (part ++ bytes) ∧ task'.taskbuflen = task.taskbuflen := by
  obtain ⟨⟨stale, hmem⟩, htasklen, htag, hattributes⟩ := hwait
  have hwrite : write task.mem task.tasklen bytes = part ++ bytes ++ stale.drop bytes.length := by
    rw [hmem, htasklen, write_append]
  refine ⟨_, readLoop_of_none (takeNewline_current ?_ ?_), ⟨⟨stale.drop bytes.length, hwrite⟩, ?_, htag, hattributes⟩, rfl⟩
  · rw [hwrite, htasklen]
    simp only [length_append]
    omega
  · rw [hwrite, htasklen, append_assoc, drop_left, take_left]
    exact hno
  · rw [htasklen, length_append]

theorem clear_initial : Attributes.clear {} = some {} := rfl

/-- A read that ends with the newline of the line answers the line, and the next line begins. -/
theorem readLoop_line (rc : Nat → Int) (log : Log) (hwait : Waiting task part) (hno : '\n' ∉ bytes) (hnul : nul ∉ part ++ bytes)
    (hharmless : Harmless (part ++ bytes)) (hbuf : 0 < task.taskbuflen) (fuel : Nat) :
    ∃ task', readLoop rc (fuel + 2) (.current task.tasklen) (bytes ++ ['\n']).length
        { task with
          mem := write task.mem task.tasklen (bytes ++ ['\n'])
          tasklen := task.tasklen + (bytes ++ ['\n']).length } log =
        some (task', answer rc log (part ++ bytes)) ∧ Waiting task' [] ∧ 0 < task'.taskbuflen := by
  obtain ⟨⟨stale, hmem⟩, htasklen, htag, hattributes⟩ := hwait
  obtain ⟨parsed, hparse, hparsed⟩ := hharmless
  have hwrite : write task.mem task.tasklen (bytes ++ ['\n']) =
      part ++ bytes ++ '\n' :: stale.drop (bytes ++ ['\n']).length := by
    rw [hmem, htasklen, write_append]
    simp
  rw [length_append, length_singleton] at hwrite ⊢
  have hnewline := takeNewline_last { task with
    mem := write task.mem task.tasklen (bytes ++ ['\n']), tasklen := task.tasklen + (bytes.length + 1) } hno hwrite
  rw [← htasklen] at hnewline
  have htask := parseTask_line { task with
    mem := part ++ bytes ++ nul :: stale.drop (bytes.length + 1), tasklen := task.tasklen + (bytes.length + 1) }
    hnul hparse rfl (by simp only [htasklen, length_append]; omega) htag hattributes
  have htext := tagText_eq (stale.drop (bytes.length + 1)) hparse
  rw [answer, hparse]
  cases hgood : parsed.good with
  | true =>
    rw [if_pos hgood] at htask
    refine ⟨{}, ?_, ⟨⟨[], rfl⟩, rfl, rfl, rfl⟩, by decide⟩
    rw [readLoop_good hnewline htask]
    simp only [Task.tagText, htext, hgood, if_true]
  | false =>
    obtain ⟨hinitial, hregion⟩ := hparsed.resolve_left (by simp [hgood])
    rw [if_neg (by simp [hgood]), hinitial, clear_initial] at htask
    have hregionLen : task.tasklen + (bytes.length + 1) = (parsed.region ++ [nul]).length := by
      rw [length_append, (parseRequest_bounds hparse).1, length_append, htasklen, length_singleton]
      omega
    have hsplit : parsed.region ++ nul :: stale.drop (bytes.length + 1) =
        (parsed.region ++ [nul]) ++ stale.drop (bytes.length + 1) := by simp
    have hlen : task.tasklen + (bytes.length + 1) ≤ (parsed.region ++ nul :: stale.drop (bytes.length + 1)).length := by
      rw [hsplit, length_append, ← hregionLen]
      omega
    -- what was read is still there, but the newline is not
    have hclear : '\n' ∉ ((parsed.region ++ nul :: stale.drop (bytes.length + 1)).drop task.tasklen).take
        (bytes.length + 1) := by
      intro hmem
      rw [take_drop, hregionLen, hsplit, take_left] at hmem
      rcases mem_append.mp (mem_of_mem_drop hmem) with hmem | hmem
      · exact hregion hmem
      · exact absurd hmem (by decide)
    refine ⟨⟨parsed.region ++ nul :: stale.drop (bytes.length + 1), 0, task.taskbuflen, none, {}⟩, ?_,
      ⟨⟨_, rfl⟩, rfl, rfl, rfl⟩, hbuf⟩
    rw [readLoop_bad hnewline htask (takeNewline_current hlen hclear)]
    simp only [Task.tagText, htext, hgood]
    rfl

end Read

/-! ## 4. Runs -/

theorem splitOn_front {lines : List Text} (hlines : ∀ line ∈ lines, '\n' ∉ line) (text : Text) :
    (front '\n' lines ++ text).splitOn '\n' = lines ++ text.splitOn '\n' := by
  induction lines with
  | nil => rfl
  | cons line lines ih =>
    rw [front_cons, append_assoc, cons_append, splitOn_append_cons_self_of_not_mem (hlines line mem_cons_self),
      ih fun l hl => hlines l (mem_cons_of_mem _ hl), cons_append]

theorem completeLines_front {lines : List Text} {part : Text} (hlines : ∀ line ∈ lines, '\n' ∉ line) (hpart : '\n' ∉ part) :
    completeLines (front '\n' lines ++ part) = lines := by
  rw [completeLines, splitOn_front hlines, splitOn_eq_singleton hpart, dropLast_concat]

/-- Every text is its complete lines and a part of a line. -/
theorem exists_lines (text : Text) :
    ∃ lines part, text = front '\n' lines ++ part ∧ (∀ line ∈ lines, '\n' ∉ line) ∧ '\n' ∉ part := by
  have hno : ∀ line ∈ text.splitOn '\n', '\n' ∉ line := by
    intro line hline hmem
    exact absurd (Words.of_mem_splitOnP hline _ hmem).2 (by decide)
  rcases eq_nil_or_concat (text.splitOn '\n') with hnil | ⟨lines, part, hsplit⟩
  · exact absurd hnil (splitOn_ne_nil _ _)
  · rw [concat_eq_append] at hsplit
    refine ⟨lines, part, ?_, fun line hline => hno line ?_, hno part ?_⟩
    · have htext : ['\n'].intercalate (text.splitOn '\n') = text := intercalate_splitOn '\n'
      rw [hsplit, intercalate_split] at htext
      simpa [back] using htext.symm
    · rw [hsplit]
      exact mem_append_left _ hline
    · rw [hsplit]
      simp

/-- Lines that are complete stay so. -/
theorem completeLines_subset (text more : Text) : completeLines text ⊆ completeLines (text ++ more) := by
  obtain ⟨lines, part, rfl, hlines, hpart⟩ := exists_lines text
  intro line hline
  rw [completeLines_front hlines hpart] at hline
  rw [completeLines, append_assoc, splitOn_front hlines, dropLast_append_of_ne_nil (splitOn_ne_nil _ _)]
  exact mem_append_left _ hline

/-- What holds between two reads: all complete lines are answered, and what was read behind them waits. -/
structure Invariant (rc : Nat → Int) (stream : Text) (s : State) (lines : List Text) (part : Text) : Prop where
  stream_eq : stream = front '\n' lines ++ part
  no_newline : (∀ line ∈ lines, '\n' ∉ line) ∧ '\n' ∉ part
  no_nul : nul ∉ part
  log : s.log = lines.foldl (answer rc) {}
  waiting : s.closed = false → Waiting s.task part
  room : s.closed = false → 0 < s.room ∧ s.room ≤ s.task.taskbuflen - s.task.tasklen

section Run

variable {rc : Nat → Int} {stream : Text} {s : State} {lines : List Text} {part bytes : Text} {eof : Bool}

/-- A task that waits has room for more, if need be in a larger buffer. -/
theorem room_pos {task : Task} (hwait : Waiting task part) (hle : part.length ≤ task.taskbuflen) :
    let task' := if task.tasklen = task.taskbuflen then task.increaseBuffer else task
    Waiting task' part ∧ 0 < task'.taskbuflen - task'.tasklen := by
  split
  next hfull =>
    refine ⟨⟨hwait.mem, hwait.tasklen, hwait.tag, hwait.attributes⟩, ?_⟩
    rw [Task.increaseBuffer]
    dsimp only [taskBufSize]
    omega
  next hfull =>
    refine ⟨hwait, ?_⟩
    rw [hwait.tasklen] at hfull ⊢
    omega

theorem newlineLast_cases (h : '\n' ∉ bytes.dropLast) : '\n' ∉ bytes ∨ ∃ before, bytes = before ++ ['\n'] ∧ '\n' ∉ before := by
  rcases eq_nil_or_concat bytes with rfl | ⟨before, c, rfl⟩
  · exact .inl nofun
  · rw [concat_eq_append, dropLast_concat] at h
    rw [concat_eq_append]
    by_cases hc : c = '\n'
    · exact .inr ⟨before, by rw [hc], h⟩
    · refine .inl fun hmem => ?_
      rcases mem_append.mp hmem with hmem | hmem
      · exact h hmem
      · exact hc (mem_singleton.mp hmem).symm

/-- What the callback does behind its loop. -/
theorem taskRead_of_readLoop {task : Task} {log : Log}
    (hloop : readLoop rc (s.task.tasklen + bytes.length + 1) (.current s.task.tasklen) bytes.length
      { s.task with
        mem := write s.task.mem s.task.tasklen bytes, tasklen := s.task.tasklen + bytes.length } s.log =
      some (task, log))
    (hwait : Waiting task part) (hle : part.length ≤ task.taskbuflen) (eof : Bool) :
    ∃ s', taskRead rc s bytes eof = some s' ∧ s'.log = log ∧ (s'.closed = false → Waiting s'.task part) ∧
      (s'.closed = false → 0 < s'.room ∧ s'.room ≤ s'.task.taskbuflen - s'.task.tasklen) := by
  rw [taskRead]
  simp only [hloop]
  cases eof with
  | true => exact ⟨_, rfl, rfl, nofun, nofun⟩
  | false =>
    obtain ⟨hwait', hpos⟩ := room_pos hwait hle
    exact ⟨_, rfl, rfl, fun _ => hwait', fun _ => ⟨hpos, Nat.le_refl _⟩⟩

/-- One read keeps the invariant. -/
theorem Invariant.read (h : Invariant rc stream s lines part) (hopen : s.closed = false) (hroom : bytes.length ≤ s.room)
    (hlast : '\n' ∉ bytes.dropLast) (hnul : nul ∉ bytes)
    (hharmless : ∀ line ∈ completeLines (stream ++ bytes), Harmless line) (eof : Bool) :
    ∃ s' lines' part', taskRead rc s bytes eof = some s' ∧ Invariant rc (stream ++ bytes) s' lines' part' := by
  have hwait := h.waiting hopen
  obtain ⟨hpos, hle⟩ := h.room hopen
  rw [hwait.tasklen] at hle
  have hnul' : nul ∉ part ++ bytes := by
    rw [mem_append, not_or]
    exact ⟨h.no_nul, hnul⟩
  rcases newlineLast_cases hlast with hno | ⟨before, rfl, hno⟩
  · obtain ⟨task, hloop, hwait', hbuflen⟩ := readLoop_part rc s.log hwait hno (s.task.tasklen + bytes.length)
    obtain ⟨s', hread, hlog, hwaiting, hroom'⟩ := taskRead_of_readLoop hloop hwait'
      (by rw [hbuflen, length_append]; omega) eof
    refine ⟨s', lines, part ++ bytes, hread, ?_, ⟨h.no_newline.1, ?_⟩, hnul', hlog.trans h.log, hwaiting, hroom'⟩
    · rw [h.stream_eq, append_assoc]
    · rw [mem_append, not_or]
      exact ⟨h.no_newline.2, hno⟩
  · have hline : '\n' ∉ part ++ before := by
      rw [mem_append, not_or]
      exact ⟨h.no_newline.2, hno⟩
    have hlines : ∀ line ∈ lines ++ [part ++ before], '\n' ∉ line := by
      exact forall_mem_append.mpr ⟨h.no_newline.1, forall_mem_singleton.mpr hline⟩
    have hstream : stream ++ (before ++ ['\n']) = front '\n' (lines ++ [part ++ before]) ++ [] := by
      rw [h.stream_eq, front, front, flatMap_append, flatMap_singleton, append_nil]
      simp
    have hmem : part ++ before ∈ completeLines (stream ++ (before ++ ['\n'])) := by
      rw [hstream, completeLines_front hlines not_mem_nil]
      simp
    have hnul'' : nul ∉ part ++ before := fun hin => hnul' (by
      rcases mem_append.mp hin with hin | hin
      · exact mem_append_left _ hin
      · exact mem_append_right _ (mem_append_left _ hin))
    obtain ⟨task, hloop, hwait', hbuflen⟩ := readLoop_line rc s.log hwait hno hnul'' (hharmless _ hmem) (by omega)
      (s.task.tasklen + before.length)
    have hfuel : s.task.tasklen + before.length + 2 = s.task.tasklen + (before ++ ['\n']).length + 1 := by
      rw [length_append, length_singleton]
      omega
    rw [hfuel] at hloop
    obtain ⟨s', hread, hlog, hwaiting, hroom'⟩ := taskRead_of_readLoop hloop hwait' (Nat.zero_le _) eof
    refine ⟨s', lines ++ [part ++ before], [], hread, hstream, ⟨hlines, not_mem_nil⟩, not_mem_nil, ?_, hwaiting, hroom'⟩
    rw [hlog, h.log, foldl_append]
    rfl

theorem Orderly.of_append (h : Orderly (reads ++ [bytes])) : Orderly reads ∧ '\n' ∉ bytes.dropLast ∧ nul ∉ bytes ∧
      ∀ line ∈ completeLines (reads.flatten ++ bytes), Harmless line := by
  have hflatten : (reads ++ [bytes]).flatten = reads.flatten ++ bytes := by simp
  have hharmless := h.harmless
  rw [hflatten] at hharmless
  refine ⟨⟨fun b hb => h.newlineLast b (mem_append_left _ hb), fun b hb => h.noNul b (mem_append_left _ hb),
    fun line hline => hharmless line (completeLines_subset _ _ hline)⟩, h.newlineLast bytes (by simp), h.noNul bytes (by simp),
    hharmless⟩

theorem invariant_of_run (hrun : Run rc reads s) (h : Orderly reads) :
    ∃ lines part, Invariant rc reads.flatten s lines part := by
  induction hrun with
  | init =>
    exact ⟨[], [], rfl, ⟨nofun, not_mem_nil⟩, not_mem_nil, rfl, fun _ => ⟨⟨[], rfl⟩, rfl, rfl, rfl⟩,
      fun _ => ⟨by decide, by decide⟩⟩
  | read hrun hopen hroom hstep ih =>
    obtain ⟨hreads, hlast, hnul, hharmless⟩ := h.of_append
    obtain ⟨lines, part, hinv⟩ := ih hreads
    obtain ⟨s', lines', part', hread, hinv'⟩ := hinv.read hopen hroom hlast hnul hharmless _
    cases hread.symm.trans hstep
    exact ⟨lines', part', by simpa using hinv'⟩

/-- **When the lines come one by one, each line is answered once, as if it were the only one, in the order in which they
come; and the starter can always take the next read.** -/
theorem run_answers {reads : List Text} (hrun : Run rc reads s) (h : Orderly reads) :
    s.log = (completeLines reads.flatten).foldl (answer rc) {} ∧
      (s.closed = false → 0 < s.room ∧ ∀ bytes eof, bytes.length ≤ s.room → Orderly (reads ++ [bytes]) →
        ∃ s', taskRead rc s bytes eof = some s') := by
  obtain ⟨lines, part, hinv⟩ := invariant_of_run hrun h
  refine ⟨?_, fun hopen => ⟨(hinv.room hopen).1, fun bytes eof hroom hnext => ?_⟩⟩
  · rw [hinv.stream_eq, completeLines_front hinv.no_newline.1 hinv.no_newline.2, hinv.log]
  · obtain ⟨-, hlast, hnul, hharmless⟩ := hnext.of_append
    obtain ⟨s', -, -, hread, -⟩ := hinv.read hopen hroom hlast hnul hharmless eof
    exact ⟨s', hread⟩

end Run

/-- A request over two reads, and a malformed one. -/
def orderlyReads : List Text := ["100;a;cou".toList, "nt=1\n".toList, "100;b;x=1\n".toList]

theorem run_answers_orderlyReads : ∃ s, Run (fun _ => 0) orderlyReads s ∧
      s.log = (completeLines orderlyReads.flatten).foldl (answer fun _ => 0) {} ∧
      s.log.events = [.started (some "a".toList) { count := 1 }, .refused "b".toList] := by
  have hfirst : Run (fun _ => 0) ["100;a;cou".toList] { task := { mem := "100;a;cou".toList, tasklen := 9 }, room := 503 } :=
    Run.read .init rfl (by decide) (show taskRead _ _ _ false = _ by decide)
  have hsecond : Run (fun _ => 0) ["100;a;cou".toList, "nt=1\n".toList]
      { room := 512, log := ⟨1, [.started (some "a".toList) { count := 1 }]⟩ } :=
    Run.read hfirst rfl (by decide) (show taskRead _ _ _ false = _ by decide)
  have hthird : Run (fun _ => 0) orderlyReads
      { task := { mem := "100;b;x=1".toList.set 3 nul |>.set 5 nul |>.set 7 nul |>.append [nul] }, room := 512
        log := ⟨1, [.started (some "a".toList) { count := 1 }, .refused "b".toList]⟩ } :=
    Run.read hsecond rfl (by decide) (show taskRead _ _ _ false = _ by decide)
  have horderly : Orderly orderlyReads := by
    refine ⟨by decide, by decide, ?_⟩
    intro line hline
    rcases mem_cons.mp hline with rfl | hline
    · exact ⟨_, rfl, .inl rfl⟩
    · obtain rfl := mem_singleton.mp hline
      exact ⟨_, rfl, .inr ⟨rfl, by decide⟩⟩
  exact ⟨_, hthird, (run_answers hthird horderly).1, rfl⟩

/-- Two requests in one read, and a third in the next. -/
def mergedReads : List Text := ["100;a;count=1\n100;b;count=1\n".toList, "100;c;count=1\n".toList]

/-- After the first read the second request stays in the buffer, with its newline. -/
def afterMerged : State where
  task := { mem := "100;b;count=1\n".toList, tasklen := 14 }
  room := 498
  log := ⟨1, [.started (some "a".toList) { count := 1 }]⟩

/-- **The second request is parsed together with the third: it is refused, and the third is not answered.** -/
theorem run_mergesRequests : ∃ s, Run (fun _ => 0) mergedReads s ∧
      s.log.events = [.started (some "a".toList) { count := 1 }, .refused "b".toList] ∧
      ((completeLines mergedReads.flatten).foldl (answer fun _ => 0) {}).events =
        [.started (some "a".toList) { count := 1 }, .started (some "b".toList) { count := 1 },
          .started (some "c".toList) { count := 1 }] := by
  have hfirst : Run (fun _ => 0) ["100;a;count=1\n100;b;count=1\n".toList] afterMerged :=
    Run.read .init rfl (by decide) (show taskRead _ _ _ false = _ by decide)
  have hsecond : ∃ s, taskRead (fun _ => 0) afterMerged "100;c;count=1\n".toList false = some s ∧
      s.log.events = [.started (some "a".toList) { count := 1 }, .refused "b".toList] := ⟨_, rfl, by decide⟩
  obtain ⟨s, hread, hevents⟩ := hsecond
  exact ⟨s, Run.read hfirst rfl (by decide) hread, hevents, by decide⟩

end Gct.Fork
