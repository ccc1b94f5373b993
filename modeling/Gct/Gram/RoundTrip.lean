/-
# What is packed is unpacked

A packed message is a list of fields, and the loop of `globus_gram_protocol_unpack_message` takes one field
after the other (`unpackLoop_fields`): a quoted value ends at its quote, whatever is in it, and any other
value at its CR.  So every message that was written can be read, with all its attributes and no others.

Two things stand against it.  An empty callback URL is read as none.  And not every message can be written:
the buffers are allocated for numbers of few digits, and for each extension two bytes too few, which only
the characters that need no backslash make up for.  `comesBack_iff` says exactly when a message comes back.
-/
import Gct.Gram.Pack

namespace Gct.Gram

open Format Buffer List
open CText (printInt)

/-! ## 1. Values -/

/-- A value that is written without quotes. -/
structure IsContact (s : List Char) : Prop where
  cr : '\r' ∉ s
  nul : nul ∉ s
  backslash : '\\' ∉ s
  quote : s.head? ≠ some '"'

/-- `written` stands for `value` in a message. -/
inductive Writes : List Char → List Char → Prop
  | plain {s : List Char} : IsContact s → Writes s s
  | quoted {s : List Char} : nul ∉ s → Writes (quoteString s) s

variable {s : List Char} (next : Char)

theorem rawQuoted_escape (h : nul ∉ s) (t : List Char) :
    rawQuoted false (escape s ++ '"' :: t) = (escape s, '"' :: t) := by
  induction s with
  | nil => rfl
  | cons c s ih =>
    rw [mem_cons, not_or] at h
    have hc : c ≠ nul := fun hc => h.1 hc.symm
    have ih := ih h.2
    rw [escape]
    split
    · -- the backslash, and the character it protects
      rw [cons_append, cons_append, rawQuoted, if_neg (by decide), if_neg (by decide), if_neg (by decide)]
      simp only [decide_true]
      rw [rawQuoted, if_neg hc, if_pos rfl, ih]
    next hspecial =>
      rw [not_or] at hspecial
      rw [cons_append, rawQuoted, if_neg hc, if_neg (by decide), if_neg hspecial.1]
      simp only [hspecial.2, decide_false, ih]

theorem unescape_cons_of_ne {c : Char} (h : c ≠ '\\') (s : List Char) :
    unescape next (c :: s) = c :: unescape next s := by
  rw [unescape.eq_def]
  exact if_neg h

theorem unescape_escape (s : List Char) : unescape next (escape s) = s := by
  induction s with
  | nil => rfl
  | cons c s ih =>
    rw [escape]
    split
    · rw [unescape, if_pos rfl, ih]
    next hspecial =>
      rw [unescape_cons_of_ne next fun hc => hspecial (.inr hc), ih]

theorem unescape_plain (h : '\\' ∉ s) : unescape next s = s := by
  induction s with
  | nil => rfl
  | cons c s ih =>
    rw [mem_cons, not_or] at h
    rw [unescape_cons_of_ne next fun hc => h.1 hc.symm, ih h.2]

theorem takeWhile_stop {stop : Char} (hstop : stop ∉ s) (hnul : nul ∉ s) (t : List Char) :
    (s ++ stop :: t).takeWhile (fun c => c ≠ stop ∧ c ≠ nul) = s := by
  have hall : ∀ c ∈ s, decide (c ≠ stop ∧ c ≠ nul) = true := by
    intro c hc
    rw [decide_eq_true_eq]
    exact ⟨fun hr => hstop (hr ▸ hc), fun hn => hnul (hn ▸ hc)⟩
  rw [takeWhile_append_of_pos hall, takeWhile_cons_of_neg (by simp), append_nil]

theorem readValue_plain (h : IsContact s) (t : List Char) : readValue (s ++ '\r' :: t) = (s, '\r' :: t) := by
  have hhead : ∀ p, s ++ '\r' :: t ≠ '"' :: p := by
    intro p hp
    have hq := h.quote
    cases s with
    | nil => exact absurd (cons.inj hp).1 (by decide)
    | cons c s => exact hq (congrArg some (cons.inj hp).1)
  rw [readValue]
  · rw [takeWhile_stop h.cr h.nul, drop_left, unescape_plain _ h.backslash]
  · exact hhead

theorem readValue_quoted (h : nul ∉ s) (t : List Char) : readValue (quoteString s ++ t) = (s, t) := by
  have htext : quoteString s ++ t = '"' :: (escape s ++ '"' :: t) := by simp [quoteString]
  rw [htext, readValue, rawQuoted_escape h]
  simp only [headD_cons, unescape_escape, tail_cons]

theorem Writes.readValue {written value : List Char} (h : Writes written value) (t : List Char) :
    readValue (written ++ '\r' :: t) = (value, '\r' :: t) := by
  cases h with
  | plain h => exact readValue_plain h t
  | quoted h => exact readValue_quoted h _

/-! ## 2. Fields -/

/-- A name that an attribute can have. -/
structure IsName (attr : List Char) : Prop where
  ne : attr ≠ []
  colon : ':' ∉ attr
  nul : nul ∉ attr

/-- A line of a message. -/
structure Field where
  attr : List Char
  written : List Char
  value : List Char

namespace Field

def text (f : Field) : List Char := f.attr ++ ':' :: ' ' :: (f.written ++ crlf)

def entry (f : Field) : List Char × List Char := (f.attr, f.value)

theorem length_text (f : Field) : f.text.length = f.attr.length + f.written.length + 4 := by
  simp [text, crlf]
  omega

structure Good (f : Field) : Prop where
  name : IsName f.attr
  writes : Writes f.written f.value

def number (attr : List Char) (n : Int32) : Field :=
  ⟨attr, printInt n.toInt, printInt n.toInt⟩

def contact (attr s : List Char) : Field := ⟨attr, s, s⟩

def quoted (attr s : List Char) : Field := ⟨attr, quoteString s, s⟩

end Field

variable {f : Field} (attr : List Char) (n : Int32)

theorem readLine_field (h : f.Good) (t : List Char) :
    readLine (':' :: ' ' :: (f.written ++ crlf ++ t)) = .ok (f.value, t) := by
  have htext : f.written ++ crlf ++ t = f.written ++ '\r' :: '\n' :: t := append_assoc _ _ _
  rw [htext, readLine, h.writes.readValue]
  rfl

/-- The loop takes one field. -/
theorem unpackLoop_field (h : f.Good) (fuel : Nat) (t : List Char) (table : Table) :
    unpackLoop (fuel + 1) (f.text ++ t) table = unpackLoop fuel t (table.insert f.attr f.value) := by
  have htext : f.text ++ t = f.attr ++ ':' :: ' ' :: (f.written ++ crlf ++ t) := by
    simp [Field.text]
  have hhead : (f.attr ++ ':' :: ' ' :: (f.written ++ crlf ++ t)).headD nul ≠ nul := by
    obtain ⟨c, s, hs⟩ := exists_cons_of_ne_nil h.name.ne
    rw [hs]
    exact fun hc => h.name.nul (by rw [hs, ← hc]; exact mem_cons_self)
  rw [htext, unpackLoop, if_neg hhead]
  simp only [takeWhile_stop h.name.colon h.name.nul, drop_left, readLine_field h]

/-- **The loop takes all fields of a message**, and puts them in the table in their order. -/
theorem unpackLoop_fields {fields : List Field} (hgood : ∀ f ∈ fields, f.Good) (fuel : Nat) (table : Table)
    (hnodup : (table.map Prod.fst ++ fields.map Field.attr).Nodup) :
    unpackLoop (fields.length + fuel) (fields.flatMap Field.text ++ [nul]) table =
      .ok (table ++ fields.map Field.entry) := by
  induction fields generalizing table with
  | nil =>
    rw [map_nil, append_nil, flatMap_nil, nil_append, length_nil, Nat.zero_add]
    cases fuel with
    | zero => rfl
    | succ fuel =>
      rw [unpackLoop]
      exact if_pos rfl
  | cons f fields ih =>
    have hnew : f.attr ∉ table.map Prod.fst := by
      rw [map_cons, nodup_append] at hnodup
      exact fun hmem => hnodup.2.2 _ hmem _ mem_cons_self rfl
    have hrest : ((table ++ [f.entry]).map Prod.fst ++ fields.map Field.attr).Nodup := by
      rwa [map_append, map_singleton, append_assoc]
    rw [length_cons, Nat.add_right_comm, flatMap_cons, append_assoc,
      unpackLoop_field (hgood f mem_cons_self), Table.insert_of_notMem hnew, ← Field.entry,
      ih (fun g hg => hgood g (mem_cons_of_mem f hg)) _ hrest, map_cons, append_assoc]
    rfl

theorem length_fields_le (fields : List Field) : fields.length ≤ (fields.flatMap Field.text).length := by
  induction fields with
  | nil => exact Nat.le_refl 0
  | cons f fields ih =>
    rw [flatMap_cons, length_append, length_cons, Field.length_text]
    omega

theorem unpackMessage_fields {fields : List Field} (hgood : ∀ f ∈ fields, f.Good)
    (hnodup : (fields.map Field.attr).Nodup) :
    unpackMessage (fields.flatMap Field.text ++ [nul]) = .ok (fields.map Field.entry) := by
  have hlen := length_fields_le fields
  obtain ⟨fuel, hfuel⟩ := Nat.exists_eq_add_of_le (Nat.le_add_right_of_le (k := 1) hlen)
  rw [unpackMessage, length_append, length_singleton, hfuel]
  exact unpackLoop_fields hgood fuel [] hnodup

/-! ## 3. Numbers -/

/-- The number of characters of a code. -/
def width (n : Int32) : Nat := (printInt n.toInt).length

theorem width_le : width n ≤ 11 := by
  have hlo := n.le_toInt
  have hhi := n.toInt_lt
  have hdigits : ∀ k : Nat, k ≤ 2 ^ 31 → (CText.printUnsigned k).length ≤ 10 := fun k hk =>
    (Nat.length_toDigits_le_iff (by decide) (by decide)).mpr (by omega)
  rw [width, printInt]
  split
  · exact Nat.succ_le_succ (hdigits n.toInt.natAbs (by omega))
  · have h := hdigits n.toInt.toNat (by omega)
    omega

theorem writes_number : Writes (Field.number attr n).written (Field.number attr n).value := by
  have hdash : ∀ c : Char, c.isDigit = false → c ≠ '-' → c ∉ printInt n.toInt := fun c hc hd =>
    CText.not_mem_printInt hc hd
  refine .plain ⟨hdash _ (by decide) (by decide), hdash _ (by decide) (by decide),
    hdash _ (by decide) (by decide), fun hhead => ?_⟩
  exact hdash '"' (by decide) (by decide) (mem_of_mem_head? hhead)

theorem strtol_printInt : strtol (printInt n.toInt) = n.toInt := by
  have hlo := n.le_toInt
  have hhi := n.toInt_lt
  have hscan : CText.scanInt (-2 ^ 63) (2 ^ 63 - 1) (printInt n.toInt) = some (n.toInt, []) := by
    rw [← append_nil (printInt n.toInt)]
    exact CText.scanInt_printInt (by omega) (by omega) CText.noDigit_nil
  rw [strtol, hscan]

theorem atoi_printInt : atoi (printInt n.toInt) = n := by
  rw [atoi, strtol_printInt, Int32.ofInt_toInt]

/-! ## 4. Lines -/

variable (ds : List Directive)

theorem print_numberLine (vs : List Value) :
    print (numberLine attr ++ ds) (int n :: vs) = (Field.number attr n).text ++ print ds vs := by
  rw [numberLine, append_assoc, cons_append, print_lits, decimal, int, print_num, print_lits]
  simp [Field.text, Field.number]

theorem print_textLine (s : List Char) (vs : List Value) :
    print (textLine attr ++ ds) (.text s :: vs) = (Field.contact attr s).text ++ print ds vs := by
  rw [textLine, append_assoc, cons_append, print_lits, print_str, print_lits]
  simp [Field.text, Field.contact]

theorem print_numberLine_end : print (numberLine attr) [int n] = (Field.number attr n).text := by
  rw [← append_nil (numberLine attr), print_numberLine]
  exact append_nil _

theorem print_textLine_end (s : List Char) : print (textLine attr) [.text s] = (Field.contact attr s).text := by
  rw [← append_nil (textLine attr), print_textLine]
  exact append_nil _

theorem length_quoteString (s : List Char) : (quoteString s).length = (escape s).length + 2 := by
  simp [quoteString]

theorem length_number : (Field.number attr n).text.length = attr.length + width n + 4 :=
  Field.length_text _

theorem length_contact (s : List Char) : (Field.contact attr s).text.length = attr.length + s.length + 4 :=
  Field.length_text _

theorem length_quoted (s : List Char) : (Field.quoted attr s).text.length = attr.length + (escape s).length + 6 := by
  have h := Field.length_text (Field.quoted attr s)
  rw [h, Field.quoted, length_quoteString]
  rfl

/-! ## 5. Messages -/

/-- A message.  The extensions are `none` where the function without them is called. -/
inductive Message where
  | jobRequest (jobStateMask : Int32) (callbackUrl : Option (List Char)) (rsl : List Char)
  | jobRequestReply (status : Int32) (jobContact : Option (List Char)) (extensions : Option (List Extension))
  | statusRequest (statusRequest : List Char)
  | statusReply (jobStatus failureCode jobFailureCode : Int32) (extensions : Option (List Extension))
  | statusUpdate (jobContact : List Char) (status failureCode : Int32) (extensions : Option (List Extension))

namespace Message

variable (jobStatus failureCode jobFailureCode : Int32) (query : List Char) (m : Message) (es : List Extension)

def pack : Message → Option (List Char)
  | jobRequest jobStateMask callbackUrl rsl => packJobRequest jobStateMask callbackUrl rsl
  | jobRequestReply status jobContact none => packJobRequestReply status jobContact
  | jobRequestReply status jobContact (some es) => packJobRequestReplyWithExtensions status jobContact es
  | statusRequest s => packStatusRequest s
  | statusReply jobStatus failureCode jobFailureCode none =>
    packStatusReply jobStatus failureCode jobFailureCode
  | statusReply jobStatus failureCode jobFailureCode (some es) =>
    packStatusReplyWithExtensions jobStatus failureCode jobFailureCode es
  | statusUpdate jobContact status failureCode none => packStatusUpdateMessage jobContact status failureCode
  | statusUpdate jobContact status failureCode (some es) =>
    packStatusUpdateMessageWithExtensions jobContact status failureCode es

def extensions : Message → List Extension
  | jobRequestReply _ _ es => es.getD []
  | statusReply _ _ _ es => es.getD []
  | statusUpdate _ _ _ es => es.getD []
  | _ => []

/-- The contact string or the callback URL. -/
def contact : Message → Option (List Char)
  | jobRequest _ callbackUrl _ => callbackUrl
  | jobRequestReply _ jobContact _ => jobContact
  | statusUpdate jobContact _ _ _ => some jobContact
  | _ => none

/-- The RSL or the query. -/
def description : Message → Option (List Char)
  | jobRequest _ _ rsl => some rsl
  | statusRequest s => some s
  | _ => none

/-- The attributes that a message of this kind can have without extensions. -/
def standardNames : Message → List (List Char)
  | jobRequest .. =>
    ["protocol-version".toList, "job-state-mask".toList, "callback-url".toList, "rsl".toList]
  | jobRequestReply .. => ["protocol-version".toList, "status".toList, "job-manager-url".toList]
  | statusRequest _ => []
  | statusReply .. =>
    ["protocol-version".toList, "status".toList, "failure-code".toList, "job-failure-code".toList]
  | statusUpdate .. =>
    ["protocol-version".toList, "job-manager-url".toList, "status".toList, "failure-code".toList]

/-- The fields before the extensions. -/
def standard : Message → List Field
  | jobRequest jobStateMask callbackUrl rsl =>
    [.number "protocol-version".toList protocolVersion, .number "job-state-mask".toList jobStateMask,
     match callbackUrl with
      | some url => .contact "callback-url".toList url
      | none => .quoted "callback-url".toList [],
     .quoted "rsl".toList rsl]
  | jobRequestReply status (some jobContact) _ =>
    [.number "protocol-version".toList protocolVersion, .number "status".toList status,
     .contact "job-manager-url".toList jobContact]
  | jobRequestReply status none _ =>
    [.number "protocol-version".toList protocolVersion, .number "status".toList status]
  | statusRequest _ => []
  | statusReply jobStatus failureCode jobFailureCode _ =>
    [.number "protocol-version".toList protocolVersion, .number "status".toList jobStatus,
     .number "failure-code".toList failureCode, .number "job-failure-code".toList jobFailureCode]
  | statusUpdate jobContact status failureCode _ =>
    [.number "protocol-version".toList protocolVersion, .contact "job-manager-url".toList jobContact,
     .number "status".toList status, .number "failure-code".toList failureCode]

def fields : List Field :=
  m.standard ++ m.extensions.map fun e => .quoted e.attr e.value

/-- The attributes of the message with their values. -/
def table : Table := m.fields.map Field.entry

structure WellFormed : Prop where
  contact : ∀ s ∈ m.contact, IsContact s
  description : ∀ s ∈ m.description, nul ∉ s
  attr : ∀ e ∈ m.extensions, IsName e.attr ∧ e.attr ∉ m.standardNames
  nodup : (m.extensions.map Extension.attr).Nodup
  value : ∀ e ∈ m.extensions, nul ∉ e.value

/-- The function that unpacks messages of this kind returns what was packed. -/
def Unpacks : Message → Prop
  | jobRequest jobStateMask callbackUrl rsl =>
    unpackJobRequest query = .ok (jobStateMask, callbackUrl, rsl)
  | jobRequestReply status jobContact none => unpackJobRequestReply query = .ok (status, jobContact)
  | jobRequestReply status jobContact (some es) =>
    unpackJobRequestReplyWithExtensions query =
      .ok (status, jobContact, (jobRequestReply status jobContact (some es)).table)
  | statusRequest s => unpackStatusRequest query = .ok s
  | statusReply jobStatus failureCode jobFailureCode none =>
    unpackStatusReply query = .ok (jobStatus, failureCode, jobFailureCode)
  | statusReply jobStatus failureCode jobFailureCode (some es) =>
    unpackStatusReplyWithExtensions query =
      .ok (statusReply jobStatus failureCode jobFailureCode (some es)).table
  | statusUpdate jobContact status failureCode none =>
    unpackStatusUpdateMessage query = .ok (jobContact, status, failureCode)
  | statusUpdate jobContact status failureCode (some es) =>
    unpackStatusUpdateMessageWithExtensions query =
      .ok (statusUpdate jobContact status failureCode (some es)).table

/-- The message is read as its table.  A status request has no attribute but the version. -/
def Parses : Message → Prop
  | statusRequest _ => True
  | m => unpackMessage query = .ok m.table

/-- The message can be written, and what is written is read as the message. -/
def RoundTrips : Prop := ∃ query, m.pack = some query ∧ m.Unpacks query ∧ m.Parses query

/-! ## 6. What is written -/

/-- The text of a message. -/
def text : Message → List Char
  | statusRequest s =>
    (Field.number "protocol-version".toList protocolVersion).text ++ quoteString s ++ crlf
  | m => m.fields.flatMap Field.text

/-- The size of the buffer. -/
def size : Message → Nat
  | jobRequest _ callbackUrl rsl => 76 + (callbackUrl.getD ['"', '"']).length + 2 * rsl.length
  | jobRequestReply _ jobContact none => 58 + (jobContact.getD []).length
  | jobRequestReply _ (some jobContact) (some es) => 59 + jobContact.length + extensionsLength es
  | jobRequestReply _ none (some es) => 38 + extensionsLength es
  | statusRequest s => 26 + 2 * s.length
  | statusReply _ _ _ none => 78
  | statusReply _ _ _ (some es) => 78 + extensionsLength es
  | statusUpdate jobContact _ _ none => 78 + jobContact.length
  | statusUpdate jobContact status failureCode (some es) =>
    67 + jobContact.length + width status + width failureCode + extensionsLength es

theorem fields_text : m.fields.flatMap Field.text = m.standard.flatMap Field.text ++ printExtensions m.extensions := by
  rw [fields, flatMap_append, flatMap_map, printExtensions]
  simp [Field.text, Field.quoted]

theorem text_of_standard {m : Message} {standard : List Char} (hm : m.text = m.fields.flatMap Field.text)
    (h : standard = m.standard.flatMap Field.text) : standard ++ printExtensions m.extensions = m.text := by
  rw [hm, fields_text, h]

theorem printJobRequest_eq (jobStateMask : Int32) (callbackUrl : Option (List Char)) (rsl : List Char) :
    print (protocolVersionLine ++ jobStateMaskLine ++ callbackUrlLine ++ lits "rsl: ".toList)
        [int protocolVersion, int jobStateMask, .text (callbackUrl.getD ['"', '"'])] ++
      quoteString rsl ++ crlf = (jobRequest jobStateMask callbackUrl rsl).text := by
  have hlines : protocolVersionLine ++ jobStateMaskLine ++ callbackUrlLine ++ lits "rsl: ".toList =
      numberLine "protocol-version".toList ++ (numberLine "job-state-mask".toList ++
        (textLine "callback-url".toList ++ lits "rsl: ".toList)) := rfl
  rw [hlines, print_numberLine, print_numberLine, print_textLine, print_lits_end]
  cases callbackUrl <;>
    simp [text, fields, standard, extensions, Field.text, Field.contact, Field.quoted, quoteString, escape]

theorem printJobRequestReply_eq (status : Int32) (jobContact : Option (List Char)) (es : Option (List Extension)) :
    printJobRequestReply status jobContact = (jobRequestReply status jobContact es).standard.flatMap Field.text := by
  cases jobContact with
  | none =>
    rw [printJobRequestReply, protocolVersionLine, statusLine, print_numberLine, print_numberLine_end]
    simp [standard]
  | some jobContact =>
    rw [printJobRequestReply, protocolVersionLine, statusLine, jobManagerUrlLine, append_assoc,
      print_numberLine, print_numberLine, print_textLine_end]
    simp [standard]

theorem printStatusReply_eq (es : Option (List Extension)) : printStatusReply jobStatus failureCode jobFailureCode =
      (statusReply jobStatus failureCode jobFailureCode es).standard.flatMap Field.text := by
  rw [printStatusReply, statusReplyLines, protocolVersionLine, statusLine, failureCodeLine, jobFailureCodeLine,
    append_assoc, append_assoc, print_numberLine, print_numberLine, print_numberLine,
    print_numberLine_end]
  simp [standard]

theorem printStatusUpdate_eq (jobContact : List Char) (status failureCode : Int32)
    (es : Option (List Extension)) : printStatusUpdate jobContact status failureCode =
      (statusUpdate jobContact status failureCode es).standard.flatMap Field.text := by
  rw [printStatusUpdate, protocolVersionLine, statusLine, failureCodeLine, jobManagerUrlLine,
    append_assoc, append_assoc, print_numberLine, print_textLine, print_numberLine,
    print_numberLine_end]
  simp [standard]

/-- The length of the fields before the extensions. -/
def standardLength : Message → Nat
  | jobRequest jobStateMask callbackUrl rsl =>
    64 + width jobStateMask + (callbackUrl.getD ['"', '"']).length + (escape rsl).length
  | jobRequestReply status (some jobContact) _ => 50 + width status + jobContact.length
  | jobRequestReply status none _ => 31 + width status
  | statusRequest _ => 0
  | statusReply jobStatus failureCode jobFailureCode _ =>
    67 + width jobStatus + width failureCode + width jobFailureCode
  | statusUpdate jobContact status failureCode _ =>
    66 + jobContact.length + width status + width failureCode

theorem length_names : "protocol-version".toList.length = 16 ∧ "job-state-mask".toList.length = 14 ∧
      "callback-url".toList.length = 12 ∧ "rsl".toList.length = 3 ∧ "status".toList.length = 6 ∧
      "failure-code".toList.length = 12 ∧ "job-failure-code".toList.length = 16 ∧
      "job-manager-url".toList.length = 15 := by
  decide

theorem length_standard : (m.standard.flatMap Field.text).length = m.standardLength := by
  have hversion : width protocolVersion = 1 := by decide
  obtain ⟨h1, h2, h3, h4, h5, h6, h7, h8⟩ := length_names
  unfold standard
  split <;> simp only [standardLength, flatMap_cons, flatMap_nil, length_append, length_number,
    length_contact, length_quoted, hversion, h1, h2, h4, h5, h6, h7, h8, length_nil]
  next callbackUrl _ =>
    cases callbackUrl with
    | none =>
      rw [length_quoted, h3]
      simp [escape]
      omega
    | some url =>
      rw [length_contact, h3, Option.getD]
      omega
  all_goals omega

/-- The lengths of the formats. -/
theorem formatLength_lines : formatLength protocolVersionLine = 22 ∧ formatLength statusLine = 12 ∧
      formatLength failureCodeLine = 18 ∧ formatLength jobFailureCodeLine = 22 ∧
      formatLength jobManagerUrlLine = 21 ∧ formatLength jobStateMaskLine = 20 ∧ formatLength callbackUrlLine = 18 := by
  decide

/-- **What is written and where**: every message is a list of fields in a buffer of its size. -/
theorem pack_eq : m.pack = within m.size m.text := by
  obtain ⟨hversion, hstatus, hfailure, hjob, hcontact, hmask, hurl⟩ := formatLength_lines
  cases m with
  | jobRequest jobStateMask callbackUrl rsl =>
    refine congrArg₂ within ?_ (printJobRequest_eq jobStateMask callbackUrl rsl)
    cases callbackUrl <;> simp only [size, hversion, hmask, hurl, Option.getD, List.length] <;> omega
  | jobRequestReply status jobContact es =>
    have htext := text_of_standard rfl (printJobRequestReply_eq status jobContact es)
    cases es with
    | none =>
      refine congrArg₂ within ?_ ((append_nil _).symm.trans htext)
      cases jobContact with
      | none => rfl
      | some jobContact =>
        simp only [size, hversion, hstatus, hcontact, Option.getD]
        omega
    | some es =>
      refine congrArg₂ within ?_ htext
      cases jobContact <;> simp only [size, hversion, hstatus, hcontact] <;> omega
  | statusRequest s =>
    rw [pack, packStatusRequest, protocolVersionLine, print_numberLine_end]
    rfl
  | statusReply jobStatus failureCode jobFailureCode es =>
    have htext := text_of_standard rfl (printStatusReply_eq jobStatus failureCode jobFailureCode es)
    cases es with
    | none => exact congrArg₂ within rfl ((append_nil _).symm.trans htext)
    | some es =>
      refine congrArg₂ within ?_ htext
      simp only [size, hversion, hstatus, hfailure, hjob]
      omega
  | statusUpdate jobContact status failureCode es =>
    have htext := text_of_standard rfl (printStatusUpdate_eq jobContact status failureCode es)
    cases es with
    | none =>
      refine congrArg₂ within ?_ ((append_nil _).symm.trans htext)
      simp only [size, hversion, hstatus, hfailure, hcontact]
      omega
    | some es =>
      refine congrArg₂ within ?_ htext
      rw [printStatusUpdate_eq _ _ _ (some es), length_standard]
      simp only [size, standardLength]
      omega

/-! ## 7. What fits -/

/-- The number of characters that are written without a backslash. -/
def plain (s : List Char) : Nat := s.countP fun c => ¬(c = '"' ∨ c = '\\')

/-- The same for the values of all extensions. -/
def plainValues : Nat := (es.map fun e => plain e.value).sum

theorem length_escape (s : List Char) : (escape s).length + plain s = 2 * s.length := by
  induction s with
  | nil => rfl
  | cons c s ih =>
    rw [escape, plain, countP_cons, ← plain]
    by_cases hc : c = '"' ∨ c = '\\'
    · rw [if_pos hc, if_neg (by simp [hc]), length_cons, length_cons, length_cons]
      omega
    · rw [if_neg hc, if_pos (by simp [hc]), length_cons, length_cons]
      omega

/-- An extension takes two bytes more than are allocated for it, and one less for each character without
a backslash. -/
theorem length_printExtensions : (printExtensions es).length + plainValues es = extensionsLength es + 2 * es.length := by
  induction es with
  | nil => rfl
  | cons e es ih =>
    have hvalue := length_escape e.value
    have hquoted := length_quoteString e.value
    simp only [printExtensions, plainValues, extensionsLength, flatMap_cons, map_cons,
      sum_cons, length_append, length_cons, hquoted, crlf, length_nil] at ih ⊢
    omega

/-- The buffer is long enough.  The codes must not have too many digits, and the values of the extensions
must have characters enough that need no backslash. -/
def Fits : Message → Prop
  | jobRequest .. => True
  | jobRequestReply status (some _) none => width status ≤ 7
  | jobRequestReply _ none none => True
  | jobRequestReply status (some _) (some es) => 2 * es.length + width status ≤ plainValues es + 8
  | jobRequestReply status none (some es) => 2 * es.length + width status ≤ plainValues es + 6
  | statusRequest _ => True
  | statusReply jobStatus failureCode jobFailureCode none =>
    width jobStatus + width failureCode + width jobFailureCode ≤ 10
  | statusReply jobStatus failureCode jobFailureCode (some es) =>
    2 * es.length + width jobStatus + width failureCode + width jobFailureCode ≤ plainValues es + 10
  | statusUpdate _ status failureCode none => width status + width failureCode ≤ 11
  | statusUpdate _ _ _ (some es) => 2 * es.length ≤ plainValues es

theorem length_fields :
    (m.fields.flatMap Field.text).length = m.standardLength + (printExtensions m.extensions).length := by
  rw [fields_text, length_append, length_standard]

theorem length_statusRequest (s : List Char) : (statusRequest s).text.length = 25 + (escape s).length := by
  have hversion : width protocolVersion = 1 := by decide
  rw [text, length_append, length_append, length_number, length_quoteString, length_names.1, hversion, crlf]
  simp only [length_cons, length_nil]
  omega

/-- **When a message fits in its buffer.** -/
theorem fits_iff : m.text.length + 1 ≤ m.size ↔ m.Fits := by
  have hlen := length_fields m
  have hes := length_printExtensions m.extensions
  have hnone : (printExtensions []).length = 0 := rfl
  cases m with
  | jobRequest jobStateMask callbackUrl rsl =>
    have hmask := width_le jobStateMask
    have hrsl := length_escape rsl
    simp only [text, size, Fits, hlen, standardLength, extensions, hnone, iff_true]
    omega
  | jobRequestReply status jobContact es =>
    have hstatus := width_le status
    cases es <;> cases jobContact <;> simp only [text, size, Fits, hlen, standardLength, extensions, hnone,
      Option.getD, iff_true] at hes ⊢ <;> omega
  | statusRequest s =>
    have hs := length_escape s
    simp only [length_statusRequest, size, Fits, iff_true]
    omega
  | statusReply _ _ _ es | statusUpdate _ _ _ es =>
    cases es <;> simp only [text, size, Fits, hlen, standardLength, extensions, hnone, Option.getD] at hes ⊢ <;> omega

theorem pack_eq_some_iff (query : List Char) : m.pack = some query ↔ m.Fits ∧ query = m.text ++ [nul] := by
  rw [pack_eq, within]
  split
  next hfits =>
    rw [fits_iff] at hfits
    simp [hfits, eq_comm]
  next hfits =>
    rw [fits_iff] at hfits
    simp [hfits]

/-- The writing pass produces no more bytes, with the NUL, than the sizing pass has counted. -/
def SizedRight : Prop := m.pack.isSome = true

/-- **The size is right just if the values have characters enough that need no backslash.** -/
theorem sizedRight_iff (m : Message) : m.SizedRight ↔ m.Fits := by
  rw [SizedRight, Option.isSome_iff_exists]
  constructor
  · rintro ⟨query, hpack⟩
    exact ((pack_eq_some_iff m query).mp hpack).1
  · intro hfits
    exact ⟨_, (pack_eq_some_iff m _).mpr ⟨hfits, rfl⟩⟩

/-- An extension with an empty value is two bytes longer than was counted. -/
theorem statusUpdate_too_long :
    ¬ (statusUpdate "https://a:1/2".toList 2 0 (some [⟨"a".toList, []⟩])).SizedRight := by
  unfold SizedRight
  decide +kernel

/-! ## 8. What is read -/

theorem bind_of_ok {ε α β : Type} {x : Except ε α} {a : α} (h : x = .ok a) (f : α → Except ε β) : (x >>= f) = f a := by
  rw [h]
  rfl

theorem discard_of_ok {ε α : Type} {x : Except ε α} {a : α} (h : x = .ok a) : (discard x : Except ε PUnit) = .ok ⟨⟩ := by
  rw [h]
  rfl

variable {m : Message} {es : Option (List Extension)}

theorem isName_of_mem_standardNames {attr : List Char} (h : attr ∈ m.standardNames) : IsName attr := by
  have hall : ∀ attr ∈ m.standardNames, attr ≠ [] ∧ ':' ∉ attr ∧ nul ∉ attr := by
    unfold standardNames
    split <;> decide
  exact ⟨(hall attr h).1, (hall attr h).2.1, (hall attr h).2.2⟩

/-- The fields before the extensions are standard ones, each at most once. -/
theorem standard_sublist (m : Message) : (m.standard.map Field.attr).Sublist m.standardNames := by
  cases m with
  | jobRequest jobStateMask callbackUrl rsl => cases callbackUrl <;> exact List.Sublist.refl _
  | jobRequestReply status jobContact es =>
    cases jobContact with
    | none => exact .cons_cons _ (.cons_cons _ (nil_sublist _))
    | some jobContact => exact List.Sublist.refl _
  | statusRequest | statusReply | statusUpdate => exact List.Sublist.refl _

theorem nodup_standardNames (m : Message) : m.standardNames.Nodup := by
  unfold standardNames
  split <;> decide

section

variable (h : m.WellFormed)

include h

theorem WellFormed.writes : ∀ f ∈ m.standard, Writes f.written f.value := by
  unfold standard
  split <;> simp only [forall_mem_cons, not_mem_nil, false_implies, implies_true, and_true]
  · refine ⟨writes_number _ _, writes_number _ _, ?_, .quoted (h.description _ rfl)⟩
    split
    · exact .plain (h.contact _ rfl)
    · exact .quoted not_mem_nil
  · exact ⟨writes_number _ _, writes_number _ _, .plain (h.contact _ rfl)⟩
  · exact ⟨writes_number _ _, writes_number _ _⟩
  · exact ⟨writes_number _ _, writes_number _ _, writes_number _ _, writes_number _ _⟩
  · exact ⟨writes_number _ _, .plain (h.contact _ rfl), writes_number _ _, writes_number _ _⟩

theorem WellFormed.good : ∀ f ∈ m.fields, f.Good := by
  intro f hf
  rcases mem_append.mp hf with hf | hf
  · have hname := (standard_sublist m).mem (mem_map_of_mem hf)
    exact ⟨isName_of_mem_standardNames hname, h.writes f hf⟩
  · obtain ⟨e, he, rfl⟩ := mem_map.mp hf
    exact ⟨(h.attr e he).1, .quoted (h.value e he)⟩

omit h in
theorem map_attr_fields (m : Message) :
    m.fields.map Field.attr = m.standard.map Field.attr ++ m.extensions.map Extension.attr := by
  rw [fields, map_append, map_map]
  rfl

theorem WellFormed.nodup_fields : (m.fields.map Field.attr).Nodup := by
  rw [map_attr_fields, nodup_append]
  refine ⟨(nodup_standardNames m).sublist (standard_sublist m), h.nodup, fun a ha b hb hab => ?_⟩
  obtain ⟨e, he, rfl⟩ := mem_map.mp hb
  exact (h.attr e he).2 ((standard_sublist m).mem (hab ▸ ha))

/-- **Every message of fields is read as its table.** -/
theorem WellFormed.parses : m.Parses (m.text ++ [nul]) := by
  have hread := unpackMessage_fields h.good h.nodup_fields
  cases m with
  | statusRequest s => exact trivial
  | jobRequest | jobRequestReply | statusReply | statusUpdate => exact hread

omit h in
theorem map_fst_table (m : Message) : m.table.map Prod.fst = m.fields.map Field.attr := map_map

theorem WellFormed.lookup (hf : f ∈ m.standard) : m.table.lookup f.attr = some f.value := by
  have hmem : f.entry ∈ m.table := mem_map_of_mem (mem_append_left _ hf)
  refine Table.lookup_of_mem ?_ hmem
  rw [map_fst_table]
  exact h.nodup_fields

theorem WellFormed.getString (hf : f ∈ m.standard) : getStringAttribute m.table f.attr = .ok f.value := by
  rw [getStringAttribute, h.lookup hf]

theorem WellFormed.getInt {attr : List Char} {n : Int32}
    (hf : .number attr n ∈ m.standard) : getIntAttribute m.table attr = .ok n := by
  have hget : getStringAttribute m.table attr = .ok (printInt n.toInt) := h.getString hf
  rw [getIntAttribute, hget, Except.map, atoi_printInt]

variable (hf : .number "protocol-version".toList protocolVersion ∈ m.standard)

include hf

theorem WellFormed.checkVersion : checkVersion m.table = .ok () := by
  rw [Gram.checkVersion, h.getInt hf]
  rfl

theorem WellFormed.checkVersionLong : checkVersionLong m.table = .ok () := by
  have hget : getStringAttribute m.table "protocol-version".toList =
    .ok (printInt protocolVersion.toInt) := h.getString hf
  rw [Gram.checkVersionLong, hget]
  rfl

end

/-- An empty callback URL is not told from none. -/
theorem WellFormed.unpackJobRequest {jobStateMask : Int32} {callbackUrl : Option (List Char)}
    {rsl : List Char} (h : (jobRequest jobStateMask callbackUrl rsl).WellFormed) :
    unpackJobRequest ((jobRequest jobStateMask callbackUrl rsl).text ++ [nul]) =
      .ok (jobStateMask, callbackUrl.filter (· ≠ []), rsl) := by
  have hversion := h.checkVersion mem_cons_self
  have hmask := @WellFormed.getInt _ h "job-state-mask".toList jobStateMask (.tail _ (.head _))
  have hrsl : getStringAttribute _ "rsl".toList = .ok rsl := h.getString (.tail _ (.tail _ (.tail _ (.head _))))
  have hurl : getStringAttribute (jobRequest jobStateMask callbackUrl rsl).table "callback-url".toList =
      .ok (callbackUrl.getD []) := by
    cases callbackUrl with
    | none | some => exact h.getString (.tail _ (.tail _ (.head _)))
  rw [Gram.unpackJobRequest, bind_of_ok h.parses, bind_of_ok hversion, bind_of_ok hmask, bind_of_ok hurl, bind_of_ok hrsl]
  cases callbackUrl with
  | none => rfl
  | some url => cases url <;> rfl

section

variable {status : Int32} {jobContact : Option (List Char)} (h : m.WellFormed)
  (hm : m = jobRequestReply status jobContact es)

include h hm

theorem WellFormed.lookup_contact : m.table.lookup "job-manager-url".toList = jobContact := by
  subst hm
  cases jobContact with
  | some jobContact =>
    exact @WellFormed.lookup (.contact "job-manager-url".toList jobContact) _ h (.tail _ (.tail _ (.head _)))
  | none =>
    rw [lookup_eq_none_iff]
    intro p hp
    rw [bne_iff_ne]
    intro heq
    have hmem : "job-manager-url".toList ∈ (jobRequestReply status none es).fields.map Field.attr := by
      rw [heq, ← map_fst_table]
      exact mem_map_of_mem hp
    rw [map_attr_fields] at hmem
    rcases mem_append.mp hmem with hmem | hmem
    · have hstandard : (jobRequestReply status none es).standard.map Field.attr =
          ["protocol-version".toList, "status".toList] := rfl
      rw [hstandard] at hmem
      exact absurd hmem (by decide)
    · obtain ⟨e, he, hattr⟩ := mem_map.mp hmem
      exact (h.attr e he).2 (hattr ▸ .tail _ (.tail _ (.head _)))

theorem WellFormed.unpackJobRequestReply : unpackJobRequestReply (m.text ++ [nul]) = .ok (status, jobContact) ∧
      unpackJobRequestReplyWithExtensions (m.text ++ [nul]) = .ok (status, jobContact, m.table) := by
  have hcontact := h.lookup_contact hm
  subst hm
  have hfirst : .number "protocol-version".toList protocolVersion ∈ (jobRequestReply status jobContact es).standard := by
    cases jobContact <;> exact mem_cons_self
  have hversion := h.checkVersion hfirst
  have hlong := h.checkVersionLong hfirst
  have hstatus := @WellFormed.getInt _ h "status".toList status (by cases jobContact <;> exact (.tail _ (.head _)))
  constructor
  · rw [Gram.unpackJobRequestReply, bind_of_ok h.parses, bind_of_ok hversion, bind_of_ok hstatus, hcontact]
    rfl
  · rw [unpackJobRequestReplyWithExtensions, bind_of_ok h.parses, bind_of_ok hlong, bind_of_ok hstatus, hcontact]
    rfl

end

theorem WellFormed.unpackStatusReplyWithExtensions {jobStatus failureCode jobFailureCode : Int32} (h : m.WellFormed)
    (hm : m = statusReply jobStatus failureCode jobFailureCode es) :
    unpackStatusReplyWithExtensions (m.text ++ [nul]) = .ok m.table := by
  subst hm
  have hlong := h.checkVersionLong mem_cons_self
  have hstatus : getStringAttribute _ "status".toList = _ := h.getString (.tail _ (.head _))
  have hfailure : getStringAttribute _ "failure-code".toList = _ := h.getString (.tail _ (.tail _ (.head _)))
  have hjob : getStringAttribute _ "job-failure-code".toList = _ :=
    h.getString (.tail _ (.tail _ (.tail _ (.head _))))
  rw [Gram.unpackStatusReplyWithExtensions, bind_of_ok h.parses, bind_of_ok hlong,
    bind_of_ok (discard_of_ok hstatus), bind_of_ok (discard_of_ok hfailure), bind_of_ok (discard_of_ok hjob)]
  rfl

theorem WellFormed.unpackStatusUpdate {jobContact : List Char} {status failureCode : Int32} (h : m.WellFormed)
    (hm : m = statusUpdate jobContact status failureCode es) :
    unpackStatusUpdateMessageWithExtensions (m.text ++ [nul]) = .ok m.table ∧
      unpackStatusUpdateMessage (m.text ++ [nul]) = .ok (jobContact, status, failureCode) := by
  subst hm
  have hversion := h.checkVersion mem_cons_self
  have hcontact : getStringAttribute _ "job-manager-url".toList = .ok jobContact := h.getString (.tail _ (.head _))
  have hstatusText : getStringAttribute _ "status".toList = _ := h.getString (.tail _ (.tail _ (.head _)))
  have hstatus := @WellFormed.getInt _ h "status".toList status (.tail _ (.tail _ (.head _)))
  have hfailure := @WellFormed.getInt _ h "failure-code".toList failureCode (.tail _ (.tail _ (.tail _ (.head _))))
  refine and_iff_left_of_imp (fun hext => ?_) |>.mpr ?_
  · rw [unpackStatusUpdateMessage, bind_of_ok hext, bind_of_ok hcontact, bind_of_ok hstatus, bind_of_ok hfailure]
    rfl
  · rw [unpackStatusUpdateMessageWithExtensions, bind_of_ok h.parses, bind_of_ok hversion,
      bind_of_ok (discard_of_ok hcontact), bind_of_ok (discard_of_ok hstatusText),
      bind_of_ok (discard_of_ok hfailure)]
    rfl

theorem nul_notMem_escape (h : nul ∉ s) : nul ∉ escape s := by
  induction s with
  | nil => exact not_mem_nil
  | cons c s ih =>
    rw [mem_cons, not_or] at h
    rw [escape]
    split
    · rw [mem_cons, mem_cons, not_or, not_or]
      exact ⟨by decide, h.1, ih h.2⟩
    · rw [mem_cons, not_or]
      exact ⟨h.1, ih h.2⟩

/-- The other reader of quoted texts agrees with the first. -/
theorem unquoteQuoted_escape (h : nul ∉ s) (t : List Char) : unquoteQuoted (escape s ++ '"' :: t) = .ok s := by
  induction s with
  | nil =>
    rw [escape, nil_append, unquoteQuoted.eq_def]
    rfl
  | cons c s ih =>
    rw [mem_cons, not_or] at h
    have ih := ih h.2
    rw [escape]
    split
    · rw [cons_append, cons_append, unquoteQuoted, ih]
      rfl
    next hspecial =>
      rw [not_or] at hspecial
      rw [cons_append, unquoteQuoted.eq_def]
      simp only [if_neg (Ne.symm h.1), if_neg hspecial.1, if_neg hspecial.2, ih]
      rfl

theorem versionField :
    (Field.number "protocol-version".toList protocolVersion).text = "protocol-version: 2".toList ++ crlf := by
  decide

theorem scan_protocolVersionLine (t : List Char) :
    (scan protocolVersionLine ("protocol-version: 2".toList ++ crlf ++ t)).1 = [.int protocolVersion.toInt] := by
  have hformat : protocolVersionLine = lits "protocol-version: ".toList ++ decimal :: lits crlf := rfl
  have htext : "protocol-version: 2".toList ++ crlf ++ t =
      "protocol-version: ".toList ++ (printInt protocolVersion.toInt ++ (crlf ++ t)) := rfl
  rw [hformat, htext, scan_lits _ (noSpace_printInt _ _), decimal,
    scan_num _ (by decide) (by decide) (by simp [crlf]), scan_lits_fst]

theorem unpackStatusRequest_text (h : nul ∉ s) : unpackStatusRequest ((statusRequest s).text ++ [nul]) = .ok s := by
  have htext : (statusRequest s).text = "protocol-version: 2".toList ++ crlf ++ ('"' :: (escape s ++ '"' :: crlf)) := by
    rw [text, versionField, quoteString]
    simp
  have hnul : nul ∉ (statusRequest s).text := by
    rw [htext]
    simp only [mem_append, mem_cons, not_or]
    exact ⟨⟨by decide, by decide⟩, by decide, nul_notMem_escape h, by decide, by decide⟩
  have hline : Search.strstr crlf (statusRequest s).text = some 19 := by
    have hcr : '\r' ∉ "protocol-version: 2".toList := by decide
    have hbefore : ∀ t, ∀ j < "protocol-version: 2".toList.length,
        ¬ crlf <+: ("protocol-version: 2".toList ++ t).drop j := Search.not_isPrefix_of_notMem hcr _
    rw [htext, append_assoc, Search.strstr_append (hbefore _), Search.strstr_of_isPrefix (prefix_append _ _)]
    rfl
  have hdrop : ((statusRequest s).text ++ [nul]).drop (19 + 2) = '"' :: (escape s ++ '"' :: (crlf ++ [nul])) := by
    rw [htext, append_assoc]
    exact (@drop_left Char ("protocol-version: 2".toList ++ crlf) _).trans (by simp)
  rw [unpackStatusRequest, cstr_append hnul, hline, htext, scan_protocolVersionLine]
  simp only [if_true]
  rw [← htext, hdrop]
  exact unquoteQuoted_escape h _

theorem scan_decimal {t : List Char} (h : CText.NoDigit t) :
    scan (decimal :: ds) (printInt n.toInt ++ t) = (.int n.toInt :: (scan ds t).1, (scan ds t).2) := by
  have hlo := n.le_toInt
  have hhi := n.toInt_lt
  exact scan_num ds (by omega) (by omega) h

theorem unpackStatusReply_text (hm : m = statusReply jobStatus failureCode jobFailureCode none) :
    unpackStatusReply (m.text ++ [nul]) = .ok (jobStatus, failureCode, jobFailureCode) := by
  have hformat : statusReplyLines = lits "protocol-version: ".toList ++ decimal ::
      (lits (crlf ++ "status: ".toList) ++ decimal :: (lits (crlf ++ "failure-code: ".toList) ++ decimal ::
        (lits (crlf ++ "job-failure-code: ".toList) ++ decimal :: lits crlf))) := rfl
  have htext : m.text = "protocol-version: ".toList ++ (printInt protocolVersion.toInt ++
        ((crlf ++ "status: ".toList) ++ (printInt jobStatus.toInt ++
          ((crlf ++ "failure-code: ".toList) ++ (printInt failureCode.toInt ++
            ((crlf ++ "job-failure-code: ".toList) ++ (printInt jobFailureCode.toInt ++ crlf))))))) := by
    simp [hm, text, fields, standard, extensions, Field.text, Field.number]
  have hnumber : ∀ n : Int32, nul ∉ printInt n.toInt := fun n =>
    CText.not_mem_printInt (by decide) (by decide)
  have hnul : nul ∉ m.text := by
    rw [htext]
    simp only [mem_append, not_or, hnumber]
    decide
  have hscan : (scan statusReplyLines m.text).1 =
      [.int protocolVersion.toInt, .int jobStatus.toInt, .int failureCode.toInt, .int jobFailureCode.toInt] := by
    rw [hformat, htext, scan_lits _ (noSpace_printInt _ _), scan_decimal _ _ (by simp [crlf]),
      scan_lits _ (noSpace_printInt _ _), scan_decimal _ _ (by simp [crlf]),
      scan_lits _ (noSpace_printInt _ _), scan_decimal _ _ (by simp [crlf]),
      scan_lits _ (noSpace_printInt _ _), scan_decimal _ _ (by simp [crlf]), scan_lits_fst]
  rw [unpackStatusReply, cstr_append hnul, hscan]
  simp only [if_true, Int32.ofInt_toInt]

/-! ## 9. The round trip -/

/-- There is no callback URL, or one that is not empty. -/
def HasCallback : Message → Prop
  | jobRequest _ callbackUrl _ => callbackUrl ≠ some []
  | _ => True

theorem WellFormed.unpacks_iff (h : m.WellFormed) : m.Unpacks (m.text ++ [nul]) ↔ m.HasCallback := by
  cases m with
  | jobRequest jobStateMask callbackUrl rsl =>
    rw [Unpacks, h.unpackJobRequest, HasCallback]
    rcases callbackUrl with _ | _ | ⟨c, url⟩ <;> simp
  | jobRequestReply status jobContact es =>
    cases es with
    | none => exact iff_of_true (h.unpackJobRequestReply rfl).1 trivial
    | some es => exact iff_of_true (h.unpackJobRequestReply rfl).2 trivial
  | statusRequest s => exact iff_of_true (unpackStatusRequest_text (h.description s rfl)) trivial
  | statusReply jobStatus failureCode jobFailureCode es =>
    cases es with
    | none => exact iff_of_true (unpackStatusReply_text _ _ _ rfl) trivial
    | some es => exact iff_of_true (h.unpackStatusReplyWithExtensions rfl) trivial
  | statusUpdate jobContact status failureCode es =>
    cases es with
    | none => exact iff_of_true (h.unpackStatusUpdate rfl).2 trivial
    | some es => exact iff_of_true (h.unpackStatusUpdate rfl).1 trivial

/-- **A message comes back just if it fits in its buffer and has no empty callback URL.** -/
theorem WellFormed.comesBack_iff {m : Message} (h : m.WellFormed) :
    m.RoundTrips ↔ m.Fits ∧ m.HasCallback := by
  constructor
  · rintro ⟨query, hpack, hunpack, -⟩
    obtain ⟨hfits, rfl⟩ := (pack_eq_some_iff m query).mp hpack
    exact ⟨hfits, h.unpacks_iff.mp hunpack⟩
  · rintro ⟨hfits, hcallback⟩
    exact ⟨_, (pack_eq_some_iff m _).mpr ⟨hfits, rfl⟩, h.unpacks_iff.mpr hcallback, h.parses⟩

theorem wellFormed_update {attr value : List Char} (hname : IsName attr)
    (hnew : attr ∉ (statusUpdate [] 0 0 none).standardNames) (hvalue : nul ∉ value) :
    (statusUpdate "https://a:1/2".toList 2 0 (some [⟨attr, value⟩])).WellFormed where
  contact := by
    rintro s ⟨⟩
    exact ⟨by decide, by decide, by decide, by decide⟩
  description := by rintro s ⟨⟩
  attr := forall_mem_singleton.mpr ⟨hname, hnew⟩
  nodup := pairwise_singleton _ _
  value := forall_mem_singleton.mpr hvalue

/-- A value with a quote and a line break comes back. -/
theorem roundTrips_note : (statusUpdate "https://a:1/2".toList 2 0
      (some [⟨"note".toList, "a\"b\r\nc".toList⟩])).RoundTrips :=
  (wellFormed_update ⟨by decide, by decide, by decide⟩ (by decide) (by decide)).comesBack_iff.mpr
    ⟨by unfold Fits; decide, trivial⟩

/-- A job request with an empty callback URL does not come back, and a status update with an extension of an
empty value is not written in its buffer. -/
theorem not_roundTrips :
    ((jobRequest 0 (some []) "&(a=b)".toList).WellFormed ∧ ¬ (jobRequest 0 (some []) "&(a=b)".toList).RoundTrips) ∧
      (statusUpdate "https://a:1/2".toList 2 0 (some [⟨['a'], []⟩])).WellFormed ∧
      ¬ (statusUpdate "https://a:1/2".toList 2 0 (some [⟨['a'], []⟩])).RoundTrips := by
  have hrequest : (jobRequest 0 (some []) "&(a=b)".toList).WellFormed := by
    refine ⟨?_, ?_, ?_, nodup_nil, ?_⟩
    · rintro s ⟨⟩
      exact ⟨by decide, by decide, by decide, by decide⟩
    · rintro s ⟨⟩
      decide
    · exact forall_mem_nil _
    · exact forall_mem_nil _
  have hupdate : (statusUpdate "https://a:1/2".toList 2 0 (some [⟨['a'], []⟩])).WellFormed :=
    wellFormed_update ⟨by decide, by decide, by decide⟩ (by decide) not_mem_nil
  refine ⟨⟨hrequest, ?_⟩, hupdate, ?_⟩
  · rintro ⟨query, hpack, hunpack, -⟩
    obtain ⟨-, rfl⟩ := (pack_eq_some_iff _ query).mp hpack
    exact hrequest.unpacks_iff.mp hunpack rfl
  · rintro ⟨query, hpack, -, -⟩
    obtain ⟨hfits, -⟩ := (pack_eq_some_iff _ query).mp hpack
    exact absurd hfits (by unfold Fits; decide)

end Message

end Gct.Gram
