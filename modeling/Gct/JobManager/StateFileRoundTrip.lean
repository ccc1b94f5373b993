/-
# What comes back from a state file

The reader takes the lines of the writer one by one, as long as no text has a newline in it.  Then everything
comes back except that texts of one blank are taken for `NULL`, and that an original job id that was `NULL` is
an empty text afterwards (`stateFileRead_stateFileWrite`).

The conversion behind the last callback contact takes all newlines that follow, so an empty line of the
gateway user is lost; and a contact ends at its first white space.

Whatever is read has no newline, so these conditions are necessary too (`stateFileRead_iff`).
-/
import Gct.JobManager.StateFile
import Gct.Lib.Scanf
import Gct.Lib.Separated
import Mathlib.Data.Nat.Digits.Defs

namespace Gct.JobManager

open CText Format FileReader Gct.Rsl List ReadError Contact Separated JobStats

/-! ## 1. Numbers -/

variable {s : List Char} {n : Int} {config : Config} {request : JobRequest} {size : Nat} {table : SymbolTable}
  (width : Nat) (timestamps : List Timespec) (counts : List Int32) (info : StagingInfo)
  (contact : Contact)

/-- Blanks before a number are passed. -/
theorem scanInt_leftpad {lo hi n : Int} (hlo : lo ≤ n) (hhi : n ≤ hi)
    (h : NoDigit s) : scanInt lo hi ((printInt n).leftpad width ' ' ++ s) = some (n, s) := by
  rw [leftpad, append_assoc, scanInt_of_spaces fun c hc => by rw [eq_of_mem_replicate hc]; rfl]
  exact scanInt_printInt hlo hhi h

theorem int32_bounds (n : Int32) : -2 ^ 31 ≤ n.toInt ∧ n.toInt ≤ 2 ^ 31 - 1 := by
  have hlo := n.le_toInt
  have hhi := n.toInt_lt
  omega

theorem int64_bounds (n : Int64) : -2 ^ 63 ≤ n.toInt ∧ n.toInt ≤ 2 ^ 63 - 1 := by
  have hlo := n.le_toInt
  have hhi := n.toInt_lt
  omega

theorem atoi_leftpad (n : Int32) (s : List Char) (h : NoDigit s) :
    Gram.atoi ((printInt n.toInt).leftpad width ' ' ++ s) = n := by
  obtain ⟨hlo, hhi⟩ := int32_bounds n
  rw [Gram.atoi, Gram.strtol, scanInt_leftpad width (by omega) (by omega) h]
  exact Int32.ofInt_toInt n

theorem atoi_numberText (n : Int32) : Gram.atoi ((printInt n.toInt).leftpad width ' ') = n := by
  rw [← append_nil ((printInt n.toInt).leftpad width ' ')]
  exact atoi_leftpad width n [] noDigit_nil

theorem atoi_numberLine (n : Int32) : Gram.atoi (numberLine width n.toInt) = n :=
  atoi_leftpad width n ['\n'] (noDigit_cons.mpr (by decide))

theorem leftpad_ne_nil (n : Int) : (printInt n).leftpad width ' ' ≠ [] := by
  have hprint : printInt n ≠ [] := by
    unfold printInt
    split
    · exact cons_ne_nil _ _
    · exact Nat.toDigits_ne_nil
  exact append_ne_nil_of_right_ne_nil _ hprint

theorem newline_notMem_leftpad (n : Int) : '\n' ∉ (printInt n).leftpad width ' ' := by
  rw [leftpad, mem_append, not_or]
  refine ⟨fun hmem => absurd (eq_of_mem_replicate hmem) (by decide), ?_⟩
  exact not_mem_printInt (by decide) (by decide)

section

variable {rest : List Char}

theorem reads_numberLine (n : Int) :
    Reads size (fgets readingStateFile size) (numberLine width n) (numberLine width n) rest :=
  reads_fgets (newline_notMem_leftpad width n)

theorem reads_numberText (n : Int) : Reads size (readText readingStateFile size) (numberLine width n)
      ((printInt n).leftpad width ' ') rest :=
  reads_readText (newline_notMem_leftpad width n)

theorem reads_textLine (h : '\n' ∉ s) : Reads size (readText readingStateFile size) (textLine s) s rest :=
  reads_readText h

theorem sscanfInt_leftpad {lo hi n : Int} (hlo : lo ≤ n) (hhi : n ≤ hi) :
    sscanfInt lo hi ((printInt n).leftpad width ' ') = pure n := by
  have hscan := scanInt_leftpad width hlo hhi noDigit_nil
  rw [append_nil] at hscan
  rw [sscanfInt, hscan]

theorem reads_sscanfInt (n : Int32) :
    Reads size (sscanfInt (-2 ^ 31) (2 ^ 31 - 1) ((printInt n.toInt).leftpad width ' ')) [] n.toInt rest := by
  obtain ⟨hlo, hhi⟩ := int32_bounds n
  rw [sscanfInt_leftpad width hlo hhi]
  exact Reads.pure _

theorem reads_sscanfLongLong (n : Int64) :
    Reads size (sscanfLongLong ((printInt n.toInt).leftpad width ' ')) [] n rest := by
  obtain ⟨hlo, hhi⟩ := int64_bounds n
  rw [sscanfLongLong, sscanfInt_leftpad width hlo hhi]
  intro _
  exact congrArg (fun m => Except.ok (m, rest)) (Int64.ofInt_toInt n)

theorem reads_checkLine (h : '\n' ∉ s) : Reads size (checkLine size s) (textLine s) () rest := by
  intro hlt
  rw [checkLine, bind_of_ok (reads_textLine h hlt), if_neg (not_not_intro rfl)]
  rfl

theorem reads_twoPhaseCommit (n : Int32) : Reads size (readTwoPhaseCommit size) (numberLine 0 n.toInt) n rest := by
  intro hlt
  obtain ⟨hlo, hhi⟩ := int32_bounds n
  have hscan := scanInt_leftpad 0 hlo hhi noDigit_nil
  rw [append_nil] at hscan
  rw [readTwoPhaseCommit, bind_of_ok (reads_numberText 0 n.toInt hlt), hscan, atoi_numberText]
  rfl

/-! ## 2. Staging lists -/

/-- The request was created from an RSL that has been evaluated, so there are only literals. -/
def StagingInfo.IsLiteral : Prop :=
  ∃ source target, info = ⟨.literal source, some source, .literal target, some target⟩

/-- The values are on one line each. -/
def StagingInfo.OnLines : Prop :=
  ∀ s, info.fromValue = .literal s ∨ info.toValue = .literal s → '\n' ∉ s

variable {string : List Char}

theorem mem_doubleQuotes {c : Char} : c ∈ doubleQuotes string ↔ c ∈ string := by
  induction string with
  | nil => exact Iff.rfl
  | cons d string ih =>
    rw [doubleQuotes]
    split
    next hd =>
      rw [mem_cons, mem_cons, mem_cons, ih, hd, or_self_left]
    · rw [mem_cons, mem_cons, ih]

theorem newline_notMem_unparsed (h : '\n' ∉ string) : '\n' ∉ unparsed (.literal string) := by
  have htext : unparsed (.literal string) = '"' :: (doubleQuotes string ++ ['"']) := rfl
  rw [htext, mem_cons, mem_append, mem_doubleQuotes]
  rintro (hc | hmem | hmem)
  · exact absurd hc (by decide)
  · exact h hmem
  · exact absurd hmem (by decide)

theorem reads_value (h : '\n' ∉ string) : Reads size (scanLine readingStateFile) (textLine (unparsed (.literal string)))
      (unparseStringLiteral string) rest :=
  reads_scanLine (cons_ne_nil _ _) (newline_notMem_unparsed h)

theorem reads_parseValue (string : List Char) :
    Reads size (parseValue (unparseStringLiteral string)) [] (.literal string) rest := by
  rw [parseValue, rslParseValue_literal]
  exact Reads.pure _

theorem reads_evaluateValue (table : SymbolTable) (string : List Char) :
    Reads size (evaluateValue table (.literal string)) [] (some string) rest := fun _ => rfl

theorem reads_stagingInfo (table : SymbolTable) {info : StagingInfo} (hliteral : info.IsLiteral)
    (hlines : info.OnLines) : Reads size (readStagingInfo table) info.lines.flatten info rest := by
  obtain ⟨source, target, rfl⟩ := hliteral
  exact (reads_value (hlines source (.inl rfl))).bind <| (reads_parseValue source).bind_nil <|
    (reads_value (hlines target (.inr rfl))).bind <| (reads_parseValue target).bind_nil <|
    (reads_evaluateValue table source).bind_nil <| (reads_evaluateValue table target).bind_nil <| Reads.pure _

section

variable {infos : List StagingInfo} (hliteral : ∀ info ∈ infos, info.IsLiteral) (hlines : ∀ info ∈ infos, info.OnLines)

include hliteral hlines

theorem reads_stagingInfos (table : SymbolTable) (done : List StagingInfo) :
    Reads size (readStagingInfos table infos.length done) (infos.flatMap StagingInfo.lines).flatten
      (infos.reverse ++ done) rest := by
  induction infos generalizing done with
  | nil => exact Reads.pure _
  | cons info infos ih =>
    obtain ⟨hliteral, hliterals⟩ := forall_mem_cons.mp hliteral
    obtain ⟨hlines, hline⟩ := forall_mem_cons.mp hlines
    have ih := ih hliterals hline (info :: done)
    rw [flatMap_cons, flatten_append, reverse_cons, append_assoc]
    exact (reads_stagingInfo table hliteral hlines).append ih

theorem reads_stagingList (table : SymbolTable) (hlength : infos.length < 2 ^ 31) :
    Reads size (stagingListReadState table) (stagingLines infos).flatten infos.reverse rest := by
  have hcount : (Int32.ofInt infos.length).toInt = infos.length :=
    Int32.toInt_ofInt_of_le (by omega) (by omega)
  refine (reads_scanLine (leftpad_ne_nil 0 _) (newline_notMem_leftpad 0 _)).bind ?_
  rw [← hcount, atoi_numberText, hcount, Int.toNat_natCast]
  have hinfos := @reads_stagingInfos size rest _ hliteral hlines table []
  rwa [append_nil] at hinfos

end

/-! ## 3. Callback contacts -/

/-- The contact is a word. -/
def Contact.IsWord : Prop :=
  contact.contact ≠ [] ∧ ∀ c ∈ contact.contact, isSpace c = false

theorem scanDecimal_printInt (hlo : -2 ^ 31 ≤ n) (hhi : n ≤ 2 ^ 31 - 1) (h : NoDigit s) :
    scanDecimal readingStateFile (printInt n ++ s) = .ok (n, s) := by
  rw [scanDecimal, scanInt_printInt hlo hhi h]

theorem skipNewlines_cons (text : List Char) :
    (skipNewlines : Reader ReadError Unit) ('\n' :: text) = .ok ((), text.dropWhile (· = '\n')) :=
  congrArg (fun file => Except.ok ((), file)) (dropWhile_cons_of_pos (by decide))

/-- The newlines that follow the line are taken too. -/
theorem readContact_line {contact : Contact} (h : contact.IsWord) (rest : List Char) :
    readContact (contact.line ++ rest) = .ok (contact, rest.dropWhile (· = '\n')) := by
  obtain ⟨jobStateMask, word⟩ := contact
  obtain ⟨hlo, hhi⟩ := int32_bounds jobStateMask
  have hline : line ⟨jobStateMask, word⟩ ++ rest = printInt jobStateMask.toInt ++ (' ' :: (word ++ '\n' :: rest)) := by
    rw [line, textLine, append_assoc, cons_append, append_assoc]
    rfl
  have hmask : scanDecimal readingStateFile (printInt jobStateMask.toInt ++ (' ' :: (word ++ '\n' :: rest))) =
      .ok (jobStateMask.toInt, ' ' :: (word ++ '\n' :: rest)) :=
    scanDecimal_printInt hlo hhi (noDigit_cons.mpr (by decide))
  have hword : scanWord readingStateFile (' ' :: (word ++ '\n' :: rest)) = .ok (word, '\n' :: rest) :=
    scanWord_of_word h.1 h.2 ⟨'\n', rest, rfl, rfl⟩
  rw [hline, readContact, bind_of_ok hmask, bind_of_ok hword, bind_of_ok (skipNewlines_cons rest), Int32.ofInt_toInt]
  rfl

/-- A line with a contact does not begin with a newline. -/
theorem dropNewlines_contactLines (contacts : List Contact) (rest : List Char) :
    (((contact :: contacts).map line).flatten ++ rest).dropWhile (· = '\n') =
      ((contact :: contacts).map line).flatten ++ rest := by
  refine dropNewlines_of_noSpace ?_
  rw [map_cons, flatten_cons, append_assoc, line, append_assoc]
  exact noSpace_printInt _ _

section

variable {contacts : List Contact} (h : ∀ contact ∈ contacts, contact.IsWord)

include h

theorem readContacts_lines (hne : contacts ≠ []) (rest : List Char) :
    readContacts contacts.length ((contacts.map line).flatten ++ rest) = .ok (contacts, rest.dropWhile (· = '\n')) := by
  induction contacts with
  | nil => exact absurd rfl hne
  | cons contact contacts ih =>
    have hfirst := readContact_line (h contact mem_cons_self) ((contacts.map line).flatten ++ rest)
    have htext : ((contact :: contacts).map line).flatten ++ rest =
        contact.line ++ ((contacts.map line).flatten ++ rest) := append_assoc _ _ _
    rw [htext, length_cons, readContacts, bind_of_ok hfirst]
    cases contacts with
    | nil => rfl
    | cons next contacts =>
      have ih := ih (fun c hc => h c (mem_cons_of_mem _ hc)) (cons_ne_nil _ _)
      rw [dropNewlines_contactLines, bind_of_ok ih]
      rfl

/-- **The contacts come back, but the newlines that follow them are lost.** -/
theorem readCallbackContacts_lines (hlength : contacts.length < 2 ^ 31) (rest : List Char) :
    readCallbackContacts ((contactLines contacts).flatten ++ rest) = .ok (contacts, rest.dropWhile (· = '\n')) := by
  have htext : (contactLines contacts).flatten ++ rest =
      printInt contacts.length ++ '\n' :: ((contacts.map line).flatten ++ rest) := by
    rw [contactLines, flatten_cons, numberLine, textLine, leftpad, Nat.zero_sub, replicate_zero,
      nil_append, append_assoc, append_assoc]
    rfl
  have hcount : ∀ text, scanDecimal readingStateFile (printInt contacts.length ++ '\n' :: text) =
      .ok (contacts.length, '\n' :: text) := fun text =>
    scanDecimal_printInt (by omega) (by omega) (noDigit_cons.mpr (by decide))
  rw [htext, readCallbackContacts, bind_of_ok (hcount _), bind_of_ok (skipNewlines_cons _), Int.toNat_natCast]
  cases contacts with
  | nil => rfl
  | cons contact contacts =>
    rw [dropNewlines_contactLines]
    exact readContacts_lines h (cons_ne_nil _ _) rest

end

end

/-! ## 4. Statistics -/

/-- The nanoseconds of a time. -/
def Timespec.Normalized (t : Timespec) : Prop := 0 ≤ t.nsec.toInt ∧ t.nsec.toInt < 1000000000

theorem ofDigitChars_zeros (k : Nat) (ds : List Char) :
    Nat.ofDigitChars 10 (replicate k '0' ++ ds) 0 = Nat.ofDigitChars 10 ds 0 := by
  induction k with
  | zero => rfl
  | succ k ih =>
    rw [replicate_succ, cons_append, Nat.ofDigitChars_cons]
    exact ih

/-- A number with zeros before it. -/
theorem scanInt_zeros {lo hi : Int} (n k : Nat) (hhi : (n : Int) ≤ hi) :
    scanInt lo hi (replicate k '0' ++ printUnsigned n) = some ((n : Int), []) := by
  have hall : ∀ c ∈ replicate k '0' ++ printUnsigned n, c.isDigit = true := by
    intro c hc
    rcases mem_append.mp hc with hc | hc
    · rw [eq_of_mem_replicate hc]
      rfl
    · exact isDigit_of_mem_printUnsigned hc
  have hvalue : Nat.ofDigitChars 10 (replicate k '0' ++ printUnsigned n) 0 = n := by
    rw [ofDigitChars_zeros, ofDigitChars_printUnsigned]
  have hdigits : IsDigits (replicate k '0' ++ printUnsigned n) :=
    ⟨append_ne_nil_of_right_ne_nil _ Nat.toDigits_ne_nil, hall⟩
  have hscan := @scanInt_digits [] _ lo hi hdigits noDigit_nil
  rwa [append_nil, hvalue, min_eq_right hhi] at hscan

theorem scanNum_nanoseconds (h0 : 0 ≤ n) (h : n < 1000000000) (t : List Char) :
    scanNum (-2 ^ 63) (2 ^ 63 - 1) 9 (printNanoseconds n ++ t) = some (n, t) := by
  have hdigits : (printUnsigned n.toNat).length ≤ 9 :=
    (Nat.length_toDigits_le_iff (by decide) (by decide)).mpr (by omega)
  have hprint : printNanoseconds n = (printUnsigned n.toNat).leftpad 9 '0' := if_neg (Int.not_lt.mpr h0)
  have hlength : (printNanoseconds n).length = 9 := by
    rw [hprint, leftpad, length_append, length_replicate]
    exact Nat.sub_add_cancel hdigits
  have hscan : scanInt (-2 ^ 63) (2 ^ 63 - 1) (printNanoseconds n) = some (n, []) := by
    rw [hprint]
    have hzeros := @scanInt_zeros (-2 ^ 63) (2 ^ 63 - 1) n.toNat (9 - (printUnsigned n.toNat).length) (by omega)
    rwa [Int.toNat_of_nonneg h0] at hzeros
  have hspace : (printNanoseconds n ++ t).dropWhile isSpace = printNanoseconds n ++ t := by
    refine dropWhile_noSpace (noSpace_of_word (fun hnil => ?_) (fun c hc => ?_) t)
    · rw [hnil] at hlength
      cases hlength
    · rw [hprint, leftpad] at hc
      rcases mem_append.mp hc with hc | hc
      · rw [eq_of_mem_replicate hc]
        rfl
      · exact isSpace_eq_false_of_isDigit (isDigit_of_mem_printUnsigned hc)
  rw [scanNum, if_neg (by decide), hspace]
  dsimp only
  rw [take_left' hlength, drop_left' hlength, hscan]
  rfl

theorem noSpace_timestamps (hs : NoSpace s) : NoSpace (timestamps.flatMap (fun t => t.print ++ [' ']) ++ s) := by
  cases timestamps with
  | nil => exact hs
  | cons t timestamps =>
    rw [flatMap_cons, Timespec.print, append_assoc, append_assoc, append_assoc]
    exact noSpace_printInt _ _

theorem scan_timestamps {timestamps : List Timespec} (h : ∀ t ∈ timestamps, t.Normalized) (ds : List Directive) (hs : NoSpace s) :
    scan ((replicate timestamps.length timestampFormat).flatten ++ ds)
      (timestamps.flatMap (fun t => t.print ++ [' ']) ++ s) =
    (timestamps.flatMap (fun t => [.int t.sec.toInt, .int t.nsec.toInt]) ++ (scan ds s).1, (scan ds s).2) := by
  induction timestamps with
  | nil => rfl
  | cons t timestamps ih =>
    obtain ⟨h0, hlt⟩ := h t mem_cons_self
    have ih := ih fun t' ht' => h t' (mem_cons_of_mem _ ht')
    obtain ⟨hlo, hhi⟩ := int64_bounds t.sec
    have htext : (t :: timestamps).flatMap (fun t => t.print ++ [' ']) ++ s =
        printInt t.sec.toInt ++ ('.' :: (printNanoseconds t.nsec.toInt ++
          (' ' :: (timestamps.flatMap (fun t => t.print ++ [' ']) ++ s)))) := by
      rw [flatMap_cons, Timespec.print, append_assoc, append_assoc, append_assoc, cons_append, singleton_append]
    have hformat : (replicate (t :: timestamps).length timestampFormat).flatten ++ ds =
        .num (-2 ^ 63) (2 ^ 63 - 1) 0 :: .lit '.' :: .num (-2 ^ 63) (2 ^ 63 - 1) 9 :: .lit ' ' ::
          ((replicate timestamps.length timestampFormat).flatten ++ ds) := rfl
    rw [htext, hformat, scan_num _ hlo hhi (noDigit_cons.mpr (by decide)), Format.scan, skip_self _ (by decide)]
    dsimp only
    rw [Format.scan, scanNum_nanoseconds h0 hlt]
    dsimp only
    rw [Format.scan, skip_space rfl, dropWhile_cons_of_pos rfl, dropWhile_noSpace (noSpace_timestamps timestamps hs)]
    dsimp only
    rw [ih]
    rfl

theorem scan_counts : scan (replicate counts.length [.lit ' ', decimal]).flatten
      (back ' ' (counts.map fun n => printInt n.toInt)) = (counts.map fun n => .int n.toInt, some []) := by
  induction counts with
  | nil => rfl
  | cons n counts ih =>
    obtain ⟨hlo, hhi⟩ := int32_bounds n
    have hformat : (replicate (n :: counts).length [.lit ' ', decimal]).flatten =
        .lit ' ' :: .num (-2 ^ 31) (2 ^ 31 - 1) 0 :: (replicate counts.length [.lit ' ', decimal]).flatten := rfl
    have hdigit : NoDigit (back ' ' (counts.map fun n => printInt n.toInt)) := by
      rcases @Separated.back_eq_nil_or Char ' ' (counts.map fun n => printInt n.toInt) with hback | ⟨t, hback⟩
      · rw [hback]
        exact noDigit_nil
      · rw [hback]
        exact noDigit_cons.mpr (by decide)
    rw [hformat, map_cons, back_cons, Format.scan, skip_space rfl, dropWhile_cons_of_pos rfl,
      dropWhile_noSpace (noSpace_printInt _ _)]
    dsimp only
    rw [scan_num _ hlo hhi hdigit, ih]
    rfl

theorem takeTimestamps_flatMap (values : List Format.Value) : takeTimestamps timestamps.length
      (timestamps.flatMap (fun t => [.int t.sec.toInt, .int t.nsec.toInt]) ++ values) = some (timestamps, values) := by
  induction timestamps with
  | nil => rfl
  | cons t timestamps ih =>
    have hvalues : (t :: timestamps).flatMap (fun t => [Format.Value.int t.sec.toInt, .int t.nsec.toInt]) ++ values =
        .int t.sec.toInt :: .int t.nsec.toInt ::
          (timestamps.flatMap (fun t => [.int t.sec.toInt, .int t.nsec.toInt]) ++ values) := rfl
    rw [hvalues, length_cons, takeTimestamps, ih, Option.map_some, Int64.ofInt_toInt, Int64.ofInt_toInt]

theorem takeCounts_map : takeCounts counts.length (counts.map fun n => .int n.toInt) = some counts := by
  induction counts with
  | nil => rfl
  | cons n counts ih => rw [map_cons, length_cons, takeCounts, ih, Option.map_some, Int32.ofInt_toInt]

/-- **The statistics come back.** -/
theorem sscanfStats_print {stats : JobStats} (h : ∀ t ∈ stats.timestamps, t.Normalized) :
    sscanfStats stats.print = some (stats.timestamps, stats.counts) := by
  have hcounts : [' '].intercalate (stats.counts.map fun n => printInt n.toInt) = printInt stats.restartCount.toInt ++
        back ' ' (stats.counts.tail.map fun n => printInt n.toInt) := intercalate_cons _ _
  obtain ⟨hlo, hhi⟩ := int32_bounds stats.restartCount
  have hdigit : NoDigit (back ' ' (stats.counts.tail.map fun n => printInt n.toInt)) :=
    noDigit_cons.mpr (by decide)
  have hscan : (scan statsFormat stats.print).1 =
      stats.timestamps.flatMap (fun t => [.int t.sec.toInt, .int t.nsec.toInt]) ++
        (stats.counts.map fun n => .int n.toInt) := by
    have htimes := scan_timestamps h (decimal :: (replicate 19 [.lit ' ', decimal]).flatten)
      (noSpace_printInt stats.restartCount.toInt (back ' ' (stats.counts.tail.map fun n => printInt n.toInt)))
    rw [JobStats.print, hcounts]
    refine (congrArg Prod.fst htimes).trans ?_
    rw [decimal, scan_num _ hlo hhi hdigit]
    exact congrArg (fun values => _ ++ _ :: values) (congrArg Prod.fst (scan_counts stats.counts.tail))
  rw [sscanfStats, hscan, show 7 = stats.timestamps.length from rfl, takeTimestamps_flatMap,
    show 20 = stats.counts.length from rfl]
  dsimp only
  rw [takeCounts_map, Option.map_some]

/-! ## 5. Which requests come back -/

/-- What holds of every request that was created from an RSL. -/
structure JobRequest.Created (request : JobRequest) : Prop where
  jobContact : ∀ s ∈ request.jobContact, '\n' ∉ s
  timestamps : ∀ t ∈ request.jobStats.timestamps, t.Normalized
  stageIn : ∀ info ∈ request.stageInTodo, info.IsLiteral
  stageInShared : ∀ info ∈ request.stageInSharedTodo, info.IsLiteral
  stageOut : ∀ info ∈ request.stageOutTodo, info.IsLiteral
  stageStream : ∀ info ∈ request.stageStreamTodo, info.IsLiteral
  -- the size of a list is an `int`
  lengths : ∀ infos ∈ [request.stageInTodo, request.stageInSharedTodo, request.stageOutTodo,
    request.stageStreamTodo], infos.length < 2 ^ 31
  contactsLength : request.clientContacts.length < 2 ^ 31

/-- The text is on one line, and is not the blank that stands for `NULL`. -/
def Survives (s : List Char) : Prop := '\n' ∉ s ∧ s ≠ [' ']

/-- The lines up to the callback contacts are read back. -/
structure JobRequest.ReadableHead (config : Config) (request : JobRequest) : Prop where
  jobmanagerType : '\n' ∉ config.jobmanagerType
  rslSpec : '\n' ∉ request.rslSpec
  cacheTag : '\n' ∉ request.cacheTag
  jobIdString : ∀ s ∈ request.jobIdString, Survives s
  scratchdir : ∀ s ∈ request.scratchdir, Survives s
  stageIn : ∀ info ∈ request.stageInTodo, info.OnLines
  stageInShared : ∀ info ∈ request.stageInSharedTodo, info.OnLines
  stageOut : ∀ info ∈ request.stageOutTodo, info.OnLines
  stageStream : ∀ info ∈ request.stageStreamTodo, info.OnLines
  clientContacts : ∀ contact ∈ request.clientContacts, contact.IsWord

/-- The lines behind the callback contacts, but the original job id, are read back. -/
structure JobRequest.ReadableTail (config : Config) (request : JobRequest) : Prop where
  serviceTag : '\n' ∉ config.serviceTag
  gatewayUser : ∀ s ∈ request.gatewayUser, Survives s
  clientAddress : ∀ s ∈ request.jobStats.clientAddress, Survives s
  userDn : ∀ s ∈ request.jobStats.userDn, Survives s

theorem unlessBlank_orBlank {s : Option (List Char)} (h : ∀ t ∈ s, Survives t) : unlessBlank (orBlank s) = s := by
  cases s with
  | none => rfl
  | some t => exact if_neg (h t rfl).2

theorem newline_notMem_orBlank {s : Option (List Char)} (h : ∀ t ∈ s, '\n' ∉ t) : '\n' ∉ orBlank s := by
  cases s with
  | none => decide
  | some t => exact h t rfl

theorem survives_of_unlessBlank {buffer : List Char} (hline : '\n' ∉ buffer) : ∀ s ∈ unlessBlank buffer, Survives s := by
  intro s h
  unfold unlessBlank at h
  split at h
  · cases h
  next hne =>
    cases h
    exact ⟨hline, hne⟩

/-! ## 6. Reading what was written -/

section

variable {rest : List Char}

/-- The part of the request that stands before the staging lists. -/
def JobRequest.head (request : JobRequest) : RestoredHead where
  restartState := (if request.jobmanagerState = .stop then request.restartState else request.jobmanagerState).code
  status := request.status.code
  failureCode := request.failureCode
  jobIdString := request.jobIdString
  rslSpec := request.rslSpec
  cacheTag := request.cacheTag
  twoPhaseCommit := request.twoPhaseCommit
  scratchdir := request.scratchdir
  segLastTimestamp := request.segLastTimestamp
  creationTime := request.creationTime
  queuedTime := request.queuedTime

theorem reads_readHead (h : request.ReadableHead config) :
    Reads size (readHead config size) (headLines config request).flatten request.head rest := by
  have hjobId := newline_notMem_orBlank fun s hs => (h.jobIdString s hs).1
  have hscratchdir := newline_notMem_orBlank fun s hs => (h.scratchdir s hs).1
  refine (reads_numberLine 4 _).bind ((reads_numberLine 4 _).bind ((reads_numberLine 4 _).bind
    ((reads_textLine hjobId).bind ((reads_textLine h.rslSpec).bind ((reads_textLine h.cacheTag).bind
    ((reads_checkLine h.jobmanagerType).bind ((reads_twoPhaseCommit _).bind ((reads_textLine hscratchdir).bind
    ((reads_numberText 0 _).bind ((reads_sscanfLongLong 0 _).bind_nil ((reads_numberText 0 _).bind
    ((reads_sscanfLongLong 0 _).bind_nil ((reads_numberText 0 _).bind ((reads_sscanfLongLong 0 _).bind_nil
    ?_))))))))))))))
  rw [atoi_numberLine, atoi_numberLine, atoi_numberLine, unlessBlank_orBlank h.jobIdString,
    unlessBlank_orBlank h.scratchdir]
  exact Reads.pure request.head

/-- The part of the request behind the callback contacts, with what is read of the original job id. -/
def JobRequest.tail (request : JobRequest) : RestoredTail where
  gatewayUser := request.gatewayUser
  exitCode := request.exitCode
  jobStats := request.jobStats
  expectedTerminalState := request.expectedTerminalState.code
  originalJobIdString := unlessBlank (request.originalJobIdString.getD [])
  jobLogLevel := request.jobLogLevel

theorem newline_notMem_nanoseconds (n : Int) : '\n' ∉ printNanoseconds n := by
  have hpad : ∀ width m, '\n' ∉ (printUnsigned m).leftpad width '0' := by
    intro width m hmem
    rcases mem_append.mp hmem with hmem | hmem
    · exact absurd (eq_of_mem_replicate hmem) (by decide)
    · exact not_mem_printUnsigned (by decide) hmem
  unfold printNanoseconds
  split
  · rw [mem_cons, not_or]
    exact ⟨by decide, hpad _ _⟩
  · exact hpad _ _

theorem newline_notMem_stats (stats : JobStats) : '\n' ∉ stats.print := by
  have hint : ∀ n, '\n' ∉ printInt n := fun n => not_mem_printInt (by decide) (by decide)
  have hcounts : stats.counts = stats.restartCount :: stats.counts.tail := rfl
  rw [JobStats.print, hcounts, map_cons, intercalate_cons, mem_append, mem_append, not_or, not_or]
  refine ⟨fun hmem => ?_, hint _, fun hmem => ?_⟩
  · obtain ⟨t, -, hmem⟩ := mem_flatMap.mp hmem
    simp only [Timespec.print, mem_append, mem_cons] at hmem
    rcases hmem with (hmem | hc | hmem) | hc
    · exact hint _ hmem
    · exact absurd hc (by decide)
    · exact newline_notMem_nanoseconds _ hmem
    · exact absurd hc (by decide)
  · obtain ⟨text, htext, hmem⟩ := mem_flatMap.mp hmem
    obtain ⟨n, -, rfl⟩ := mem_map.mp htext
    rcases mem_cons.mp hmem with hc | hmem
    · exact absurd hc (by decide)
    · exact hint _ hmem

theorem reads_readTail (hcreated : request.Created) (h : request.ReadableTail config)
    (horiginal : ∀ s ∈ request.originalJobIdString, '\n' ∉ s) :
    Reads size (readTail config size) (tailLines config request).flatten request.tail rest := by
  have hgateway := newline_notMem_orBlank fun s hs => (h.gatewayUser s hs).1
  have hclient := newline_notMem_orBlank fun s hs => (h.clientAddress s hs).1
  have huser := newline_notMem_orBlank fun s hs => (h.userDn s hs).1
  have horiginal : '\n' ∉ request.originalJobIdString.getD [] := by
    cases heq : request.originalJobIdString with
    | none => exact not_mem_nil
    | some s => exact horiginal s heq
  refine (reads_textLine hgateway).bind ((reads_numberText 0 _).bind ((reads_sscanfInt 0 _).bind_nil
    ((reads_textLine (newline_notMem_stats _)).bind ((reads_textLine hclient).bind ((reads_textLine huser).bind ?_)))))
  rw [unlessBlank_orBlank h.clientAddress, unlessBlank_orBlank h.userDn, unlessBlank_orBlank h.gatewayUser]
  rw [readStats, sscanfStats_print hcreated.timestamps]
  refine (Reads.pure _).bind_nil ((reads_numberLine 4 _).bind
    ((reads_checkLine h.serviceTag).bind ((reads_textLine horiginal).bind ((reads_numberText 0 _).bind ?_))))
  have hlevel : (printInt request.jobLogLevel.toInt).leftpad 0 ' ' ≠ [' '] := by
    intro hblank
    have hprint : printInt request.jobLogLevel.toInt = [' '] := by
      rwa [leftpad, Nat.zero_sub, replicate_zero, nil_append] at hblank
    have hspace := noSpace_printInt request.jobLogLevel.toInt []
    rw [hprint] at hspace
    exact absurd (hspace ' ' rfl) (by decide)
  rw [if_neg hlevel, atoi_numberText, atoi_numberLine, Int32.ofInt_toInt]
  exact Reads.pure request.tail

/-- The request, in which the staging lists are turned round. -/
def JobRequest.restored (request : JobRequest) (tail : RestoredTail) : Restored :=
  restore request.head request.stageInTodo.reverse request.stageInSharedTodo.reverse
    request.stageOutTodo.reverse request.stageStreamTodo.reverse request.clientContacts tail

end

/-- **Up to the callback contacts everything is read back, whatever follows.** -/
theorem stateFileRead_eq (table : SymbolTable) (hcreated : request.Created) (h : request.ReadableHead config) :
    stateFileRead config table (stateFileWrite config request) = (readTail config (stateFileWrite config request).length
        ((tailLines config request).flatten.dropWhile (· = '\n'))).map fun p => request.restored p.1 := by
  have hcontact := newline_notMem_orBlank hcreated.jobContact
  obtain ⟨hin, hshared, hout, hstream⟩ : _ ∧ _ ∧ _ ∧ _ := by simpa using hcreated.lengths
  have hcontacts := readCallbackContacts_lines h.clientContacts hcreated.contactsLength (tailLines config request).flatten
  obtain ⟨body, hbody, hfile⟩ : ∃ body, body = (headLines config request).flatten ++
      ((stagingLines request.stageInTodo).flatten ++ ((stagingLines request.stageInSharedTodo).flatten ++
      ((stagingLines request.stageOutTodo).flatten ++ ((stagingLines request.stageStreamTodo).flatten ++
      ((contactLines request.clientContacts).flatten ++ (tailLines config request).flatten))))) ∧
      stateFileWrite config request = orBlank request.jobContact ++ '\n' :: body := by
    refine ⟨_, rfl, ?_⟩
    rw [stateFileWrite, textLine]
    simp only [flatten_cons, flatten_nil, append_nil, append_assoc, singleton_append]
  generalize hsize : (stateFileWrite config request).length = size
  have hsize' := hsize
  rw [hfile, length_append, length_cons] at hsize'
  have hlt : body.length < size := by omega
  rw [hbody] at hlt hsize' hfile
  have hlt₁ := length_lt_of_append hlt
  have hlt₂ := length_lt_of_append hlt₁
  have hlt₃ := length_lt_of_append hlt₂
  have hlt₄ := length_lt_of_append hlt₃
  have hpos : 0 < (headLines config request).flatten.length :=
    length_pos_of_ne_nil (append_ne_nil_of_left_ne_nil (append_ne_nil_of_right_ne_nil _ (cons_ne_nil _ _)) _)
  have hline : (orBlank request.jobContact).length + 1 < size := by
    rw [length_append] at hsize'
    omega
  rw [stateFileRead, hsize, hfile, readStateFile, bind_of_ok (fgets_of_length_lt hcontact hline),
    (reads_readHead h).bind_eq hlt, (reads_stagingList hcreated.stageIn h.stageIn table hin).bind_eq hlt₁,
    (reads_stagingList hcreated.stageInShared h.stageInShared table hshared).bind_eq hlt₂,
    (reads_stagingList hcreated.stageOut h.stageOut table hout).bind_eq hlt₃,
    (reads_stagingList hcreated.stageStream h.stageStream table hstream).bind_eq hlt₄, bind_of_ok hcontacts]
  generalize (tailLines config request).flatten.dropWhile (· = '\n') = file
  cases htail : readTail config size file with
  | error e =>
    rw [bind_of_error htail]
    rfl
  | ok p =>
    rw [bind_of_ok htail]
    rfl

/-- The lines behind the callback contacts are shorter than the file. -/
theorem length_tail_lt (config : Config) (request : JobRequest) :
    (tailLines config request).flatten.length < (stateFileWrite config request).length := by
  rw [stateFileWrite, textLine]
  simp only [flatten_cons, flatten_nil, length_append, length_cons, length_nil]
  omega

/-- A gateway user that is not empty stops the search for newlines. -/
theorem dropNewlines_tail (h : ∀ s ∈ request.gatewayUser, Survives s) (hgateway : request.gatewayUser ≠ some []) :
    (tailLines config request).flatten.dropWhile (· = '\n') = (tailLines config request).flatten := by
  have hnewline := newline_notMem_orBlank fun s hs => (h s hs).1
  obtain ⟨c, text, htext⟩ : ∃ c text, orBlank request.gatewayUser = c :: text := by
    cases huser : request.gatewayUser with
    | none => exact ⟨' ', [], rfl⟩
    | some s =>
      refine exists_cons_of_ne_nil (l := s) ?_
      rintro rfl
      exact hgateway huser
  rw [htext, mem_cons, not_or] at hnewline
  rw [tailLines, flatten_cons, textLine, htext]
  exact dropWhile_cons_of_neg fun heq => hnewline.1 (of_decide_eq_true heq).symm

/-- **Everything comes back but an original job id that is `NULL`, which is an empty text afterwards.** -/
theorem stateFileRead_stateFileWrite (table : SymbolTable)
    (hcreated : request.Created) (hhead : request.ReadableHead config) (htail : request.ReadableTail config)
    (hgateway : request.gatewayUser ≠ some []) (horiginal : ∀ s ∈ request.originalJobIdString, '\n' ∉ s) :
    stateFileRead config table (stateFileWrite config request) = .ok (request.restored request.tail) := by
  have hreads := @reads_readTail config request (stateFileWrite config request).length [] hcreated htail horiginal
  have hlt := length_tail_lt config request
  rw [stateFileRead_eq table hcreated hhead, dropNewlines_tail htail.gatewayUser hgateway]
  rw [← append_nil (tailLines config request).flatten] at hlt ⊢
  rw [hreads hlt]
  rfl

/-! ## 7. Whatever is read -/

theorem gives_checkLine : Gives (checkLine size s) fun _ => '\n' ∉ s := by
  refine gives_readText.bind fun buffer hbuffer => ?_
  split
  · intro file a file' h
    cases h
  next heq =>
    rw [not_not.mp heq] at hbuffer
    exact .pure hbuffer

theorem gives_readHead : Gives (readHead config size) fun head =>
      '\n' ∉ config.jobmanagerType ∧ '\n' ∉ head.rslSpec ∧ '\n' ∉ head.cacheTag ∧
        (∀ s ∈ head.jobIdString, Survives s) ∧ ∀ s ∈ head.scratchdir, Survives s := by
  refine .bind' fun _ => .bind' fun _ => .bind' fun _ => gives_readText.bind fun jobIdString hjobId =>
    gives_readText.bind fun rslSpec hrslSpec => gives_readText.bind fun cacheTag hcacheTag =>
    gives_checkLine.bind fun _ htype => .bind' fun _ => gives_readText.bind fun scratchdir hscratchdir =>
    .bind' fun _ => .bind' fun _ => .bind' fun _ => .bind' fun _ => .bind' fun _ => .bind' fun _ => .pure ?_
  exact ⟨htype, hrslSpec, hcacheTag, survives_of_unlessBlank hjobId, survives_of_unlessBlank hscratchdir⟩

theorem gives_parseValue {buffer : List Char} (h : '\n' ∉ buffer) :
    Gives (parseValue buffer) fun value => ∀ s, value = .literal s → '\n' ∉ s := by
  rw [parseValue]
  cases hparse : rslParseValue buffer with
  | none => exact nofun
  | some value =>
    refine .pure fun s hs => ?_
    subst hs
    exact notMem_of_rslParseValue h hparse

theorem gives_readStagingInfo : Gives (readStagingInfo table) StagingInfo.OnLines := by
  refine gives_scanLine.bind fun fromLine hfromLine => (gives_parseValue hfromLine).bind fun fromValue hfrom =>
    gives_scanLine.bind fun toLine htoLine => (gives_parseValue htoLine).bind fun toValue hto =>
    .bind' fun _ => .bind' fun _ => .pure ?_
  rintro s (hs | hs)
  · exact hfrom s hs
  · exact hto s hs

theorem gives_readStagingInfos (n : Nat) : ∀ {done : List StagingInfo}, (∀ info ∈ done, info.OnLines) →
      Gives (readStagingInfos table n done) fun infos => ∀ info ∈ infos, info.OnLines := by
  induction n with
  | zero => exact fun h => .pure h
  | succ n ih =>
    exact fun h => gives_readStagingInfo.bind fun info hinfo => ih (forall_mem_cons.mpr ⟨hinfo, h⟩)

theorem gives_stagingListReadState : Gives (stagingListReadState table) fun infos => ∀ info ∈ infos, info.OnLines :=
  .bind' fun _ => gives_readStagingInfos _ (forall_mem_nil _)

theorem gives_readContact : Gives readContact Contact.IsWord :=
  .bind' fun _ => gives_scanWord.bind fun _ hword => .bind' fun _ => .pure hword

theorem gives_readContacts (n : Nat) : Gives (readContacts n) fun contacts => ∀ contact ∈ contacts, contact.IsWord := by
  induction n with
  | zero => exact .pure (forall_mem_nil _)
  | succ n ih =>
    exact gives_readContact.bind fun contact hcontact => ih.bind fun contacts hcontacts =>
      .pure (forall_mem_cons.mpr ⟨hcontact, hcontacts⟩)

theorem gives_readCallbackContacts : Gives readCallbackContacts fun contacts => ∀ contact ∈ contacts, contact.IsWord :=
  .bind' fun _ => .bind' fun _ => gives_readContacts _

theorem ofLists_eq_some {timestamps : List Timespec} {counts : List Int32} {clientAddress userDn : Option (List Char)}
    {stats : JobStats} (h : ofLists timestamps counts clientAddress userDn = some stats) :
    stats.clientAddress = clientAddress ∧ stats.userDn = userDn := by
  unfold ofLists at h
  split at h
  · cases h
    exact ⟨rfl, rfl⟩
  · cases h

theorem gives_readStats {stats : List Char} {clientAddress userDn : Option (List Char)} :
    Gives (readStats stats clientAddress userDn) fun stats =>
      stats.clientAddress = clientAddress ∧ stats.userDn = userDn := by
  rw [readStats]
  cases sscanfStats stats with
  | none => exact nofun
  | some lists =>
    dsimp only
    cases hstats : ofLists lists.1 lists.2 clientAddress userDn with
    | none => exact nofun
    | some stats => exact .pure (ofLists_eq_some hstats)

theorem gives_readTail : Gives (readTail config size) fun tail =>
      '\n' ∉ config.serviceTag ∧ (∀ s ∈ tail.gatewayUser, Survives s) ∧
        (∀ s ∈ tail.jobStats.clientAddress, Survives s) ∧ (∀ s ∈ tail.jobStats.userDn, Survives s) ∧
        ∀ s ∈ tail.originalJobIdString, Survives s := by
  refine gives_readText.bind fun gatewayUser hgateway => .bind' fun _ => .bind' fun _ => .bind' fun _ =>
    gives_readText.bind fun clientAddress hclient => gives_readText.bind fun userDn huser =>
    gives_readStats.bind fun stats hstats => .bind' fun _ => gives_checkLine.bind fun _ htag =>
    gives_readText.bind fun original horiginal => .bind' fun _ => .pure ?_
  refine ⟨htag, survives_of_unlessBlank hgateway, ?_, ?_, survives_of_unlessBlank horiginal⟩
  · rw [hstats.1]
    exact survives_of_unlessBlank hclient
  · rw [hstats.2]
    exact survives_of_unlessBlank huser

/-- The gateway user is the first line that is left. -/
theorem gatewayUser_of_readTail {file file' : List Char} {tail : RestoredTail}
    (h : readTail config size file = .ok (tail, file')) :
    ∃ text file₁, readText readingStateFile size file = .ok (text, file₁) ∧ tail.gatewayUser = unlessBlank text := by
  obtain ⟨text, file₁, htext, h⟩ := bind_eq_ok h
  refine ⟨text, file₁, htext, ?_⟩
  refine Gives.bind' (Q := fun tail => tail.gatewayUser = unlessBlank text) (fun _ => .bind' fun _ => .bind' fun _ =>
    .bind' fun _ => .bind' fun _ => .bind' fun _ => .bind' fun _ => .bind' fun _ => .bind' fun _ => .bind' fun _ =>
    .pure rfl) file₁ tail file' h

theorem exists_of_map_ok {ε α β : Type} {x : Except ε α} {f : α → β} {b : β} (h : x.map f = .ok b) :
    ∃ a, x = .ok a ∧ f a = b := by
  cases x with
  | error e => cases h
  | ok a => exact ⟨a, rfl, Except.ok.inj h⟩

/-- **An empty gateway user does not come back.** -/
theorem gatewayUser_ne_empty {restored : Restored} (hcreated : request.Created) (h : request.ReadableHead config)
    (hread : stateFileRead config table (stateFileWrite config request) = .ok restored)
    (hgateway : restored.gatewayUser = request.gatewayUser) : request.gatewayUser ≠ some [] := by
  intro hempty
  rw [hempty] at hgateway
  generalize hrest : (tailLines config request).tail.tail.flatten = rest
  have htail : (tailLines config request).flatten = '\n' :: (numberLine 0 request.exitCode.toInt ++ rest) := by
    rw [tailLines, flatten_cons, hempty, ← hrest]
    rfl
  have hspace : NoSpace (numberLine 0 request.exitCode.toInt ++ rest) := by
    rw [numberLine, textLine, leftpad, Nat.zero_sub, replicate_zero, nil_append, append_assoc]
    exact noSpace_printInt _ _
  have hlt := length_tail_lt config request
  rw [stateFileRead_eq table hcreated h] at hread
  rw [htail] at hread hlt
  rw [dropWhile_cons_of_pos (by decide), dropNewlines_of_noSpace hspace] at hread
  obtain ⟨p, hp, rfl⟩ := exists_of_map_ok hread
  obtain ⟨text, file₁, hline, huser⟩ := gatewayUser_of_readTail hp
  rw [reads_numberText 0 request.exitCode.toInt (Nat.lt_of_succ_lt hlt)] at hline
  cases hline
  have hsome : unlessBlank ((printInt request.exitCode.toInt).leftpad 0 ' ') = some [] := huser.symm.trans hgateway
  unfold unlessBlank at hsome
  split at hsome
  · cases hsome
  · exact leftpad_ne_nil 0 _ (Option.some.inj hsome)

/-! ## 8. The round trip -/

/-- Everything is restored, the staging lists up to their order. -/
structure Restores (request : JobRequest) (restored : Restored) : Prop where
  restartState : restored.restartState =
    (if request.jobmanagerState = .stop then request.restartState else request.jobmanagerState).code
  status : restored.status = request.status.code
  failureCode : restored.failureCode = request.failureCode
  jobIdString : restored.jobIdString = request.jobIdString
  rslSpec : restored.rslSpec = request.rslSpec
  cacheTag : restored.cacheTag = request.cacheTag
  twoPhaseCommit : restored.twoPhaseCommit = request.twoPhaseCommit
  scratchdir : restored.scratchdir = request.scratchdir
  segLastTimestamp : restored.segLastTimestamp = request.segLastTimestamp
  creationTime : restored.creationTime = request.creationTime
  queuedTime : restored.queuedTime = request.queuedTime
  stageInTodo : restored.stageInTodo.Perm request.stageInTodo
  stageInSharedTodo : restored.stageInSharedTodo.Perm request.stageInSharedTodo
  stageOutTodo : restored.stageOutTodo.Perm request.stageOutTodo
  stageStreamTodo : restored.stageStreamTodo.Perm request.stageStreamTodo
  clientContacts : restored.clientContacts = request.clientContacts
  gatewayUser : restored.gatewayUser = request.gatewayUser
  exitCode : restored.exitCode = request.exitCode
  jobStats : restored.jobStats = request.jobStats
  expectedTerminalState : restored.expectedTerminalState = request.expectedTerminalState.code
  originalJobIdString : restored.originalJobIdString = request.originalJobIdString

theorem restores_restored_iff (request : JobRequest) : Restores request (request.restored request.tail) ↔
      unlessBlank (request.originalJobIdString.getD []) = request.originalJobIdString := by
  constructor
  · exact fun h => h.originalJobIdString
  · exact fun h => ⟨rfl, rfl, rfl, rfl, rfl, rfl, rfl, rfl, rfl, rfl, rfl, reverse_perm _, reverse_perm _,
      reverse_perm _, reverse_perm _, rfl, rfl, rfl, rfl, rfl, h⟩

/-- The condition on the request and the configuration: every text is on one line, and none of those that can
be `NULL` is the blank that stands for it; the gateway user is not empty, a contact is a word, and the original
job id is not `NULL`. -/
structure JobRequest.Readable (config : Config) (request : JobRequest) : Prop where
  head : request.ReadableHead config
  tail : request.ReadableTail config
  gatewayUser : request.gatewayUser ≠ some []
  originalJobIdString : ∃ s, request.originalJobIdString = some s ∧ Survives s

/-- What is known of everything that is read. -/
theorem gives_readStateFile : Gives (readStateFile config table size) fun restored => Restores request restored →
      request.ReadableHead config ∧ request.ReadableTail config ∧ ∀ s ∈ request.originalJobIdString, Survives s := by
  refine .bind' fun _ => gives_readHead.bind fun _ hhead => gives_stagingListReadState.bind fun _ hin =>
    gives_stagingListReadState.bind fun _ hshared => gives_stagingListReadState.bind fun _ hout =>
    gives_stagingListReadState.bind fun _ hstream => gives_readCallbackContacts.bind fun _ hcontacts =>
    gives_readTail.bind fun _ htail => .pure fun h => ?_
  obtain ⟨htype, hrslSpec, hcacheTag, hjobId, hscratchdir⟩ := hhead
  obtain ⟨htag, hgateway, hclient, huser, horiginal⟩ := htail
  refine ⟨⟨htype, h.rslSpec ▸ hrslSpec, h.cacheTag ▸ hcacheTag, h.jobIdString ▸ hjobId, h.scratchdir ▸ hscratchdir,
    fun info hinfo => hin info (h.stageInTodo.mem_iff.mpr hinfo),
    fun info hinfo => hshared info (h.stageInSharedTodo.mem_iff.mpr hinfo),
    fun info hinfo => hout info (h.stageOutTodo.mem_iff.mpr hinfo),
    fun info hinfo => hstream info (h.stageStreamTodo.mem_iff.mpr hinfo), h.clientContacts ▸ hcontacts⟩, ?_⟩
  exact ⟨⟨htag, h.gatewayUser ▸ hgateway, h.jobStats ▸ hclient, h.jobStats ▸ huser⟩, h.originalJobIdString ▸ horiginal⟩

theorem readable_of_restores {restored : Restored} (hcreated : request.Created)
    (hread : stateFileRead config table (stateFileWrite config request) = .ok restored)
    (h : Restores request restored) : request.Readable config := by
  obtain ⟨⟨_, file'⟩, hfile, rfl⟩ := exists_of_map_ok hread
  obtain ⟨hhead, htail, horiginal⟩ := gives_readStateFile _ _ _ hfile h
  have hempty := gatewayUser_ne_empty hcreated hhead hread h.gatewayUser
  refine ⟨hhead, htail, hempty, ?_⟩
  rw [stateFileRead_stateFileWrite table hcreated hhead htail hempty fun s hs => (horiginal s hs).1] at hread
  rw [← Except.ok.inj hread, restores_restored_iff] at h
  cases hjob : request.originalJobIdString with
  | none =>
    rw [hjob] at h
    cases h
  | some s => exact ⟨s, rfl, horiginal s hjob⟩

/-- **The request comes back if and only if every text is on its line and the original job id is set.** -/
theorem stateFileRead_iff {config : Config} {table : SymbolTable} {request : JobRequest}
    (hcreated : request.Created) :
    (∃ restored, stateFileRead config table (stateFileWrite config request) = .ok restored ∧
      Restores request restored) ↔ request.Readable config := by
  constructor
  · rintro ⟨restored, hread, h⟩
    exact readable_of_restores hcreated hread h
  · rintro ⟨hhead, htail, hgateway, s, hs, hsurvives⟩
    refine ⟨_, stateFileRead_stateFileWrite table hcreated hhead htail hgateway ?_,
      (restores_restored_iff request).mpr ?_⟩
    · intro t ht
      rw [hs] at ht
      cases ht
      exact hsurvives.1
    · rw [hs]
      exact if_neg hsurvives.2

theorem created_newRequest {jobContact : List Char} (h : '\n' ∉ jobContact) (rslSpec : List Char) (now : Int64)
    (jobLogLevel : Int32) : (newRequest jobContact rslSpec now jobLogLevel).Created where
  jobContact := by
    rintro s ⟨⟩
    exact h
  timestamps := by
    intro t ht
    have hzero : t.nsec = 0 := by
      simp only [newRequest, timestamps, mem_cons, not_mem_nil, or_false] at ht
      rcases ht with rfl | rfl | rfl | rfl | rfl | rfl | rfl <;> rfl
    rw [Timespec.Normalized, hzero]
    decide
  stageIn := forall_mem_nil _
  stageInShared := forall_mem_nil _
  stageOut := forall_mem_nil _
  stageStream := forall_mem_nil _
  lengths := by
    intro infos hinfos
    have hnil : infos = [] := by
      simp only [newRequest, mem_cons, not_mem_nil, or_false, or_self] at hinfos
      exact hinfos
    rw [hnil]
    decide
  contactsLength := Nat.two_pow_pos 31

theorem JobRequest.Created.submitted (h : request.Created) (jobId : List Char) : (request.submitted jobId).Created :=
  ⟨h.jobContact, h.timestamps, h.stageIn, h.stageInShared, h.stageOut, h.stageStream, h.lengths, h.contactsLength⟩

/-- A new request that has been submitted. -/
theorem stateFileRead_submitted :
    ∃ restored, stateFileRead ⟨['f'], ['u']⟩ [[]] (stateFileWrite ⟨['f'], ['u']⟩
        ((newRequest ['h', '/'] ['&'] 0 0).submitted ['7'])) = .ok restored ∧
      Restores ((newRequest ['h', '/'] ['&'] 0 0).submitted ['7']) restored := by
  have hcreated : (newRequest ['h', '/'] ['&'] 0 0).Created := created_newRequest (by decide) _ _ _
  have hnull : ∀ s ∈ (none : Option (List Char)), Survives s := nofun
  have hid : Survives ['7'] := ⟨by decide, by decide⟩
  have hids : ∀ s ∈ some ['7'], Survives s := by
    rintro s ⟨⟩
    exact hid
  refine (stateFileRead_iff (hcreated.submitted ['7'])).mpr ⟨⟨by decide, by decide, by decide, hids, hnull,
    forall_mem_nil _, forall_mem_nil _, forall_mem_nil _, forall_mem_nil _, forall_mem_nil _⟩, ⟨by decide, hnull, hnull, hnull⟩, nofun, ['7'], rfl, hid⟩

/-- A new request does not come back: its original job id is `NULL`. -/
theorem stateFileRead_newRequest :
    ∃ spec text, parse "&(a=b)".toList = some spec ∧ spec.unparse = some text ∧
      (newRequest ['h', '/'] text 0 0).Created ∧
      ¬ ∃ restored, stateFileRead ⟨['f'], ['u']⟩ [[]] (stateFileWrite ⟨['f'], ['u']⟩
          (newRequest ['h', '/'] text 0 0)) = .ok restored ∧
        Restores (newRequest ['h', '/'] text 0 0) restored := by
  have hscan : Rsl.scan "&(a=b)".toList = [.opAnd, .lparen, .string ['a'], .opEq, .string ['b'], .rparen] := by
    decide +kernel
  have hcreated : (newRequest ['h', '/'] "&(\"a\" = \"b\" )".toList 0 0).Created :=
    created_newRequest (by decide) _ _ _
  refine ⟨.boolean .and [.relation .eq ['a'] [.literal ['b']]], "&(\"a\" = \"b\" )".toList, ?_, rfl, hcreated, ?_⟩
  · rw [parse, hscan]
    rfl
  · rintro ⟨restored, hread, h⟩
    obtain ⟨s, hs, -⟩ := (readable_of_restores hcreated hread h).originalJobIdString
    cases hs

end Gct.JobManager
