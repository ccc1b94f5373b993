/-
# Does the server read the request that was sent?

Keys end in `=` and none is the end of another one, so a key is never found in another key.  But a value can hold a key:
`strstr` finds it there, and the rest of that value is taken for the value of the key.  `injected` lists what is found
for a key in the values of other fields.

The request is read as it was sent exactly when nothing is injected (`deserialize_serialize_iff`), apart from two fields
where what is injected may be what an absent field means: an empty new passphrase, and 0 for the trusted
certificates.  A client can so set a field it does not send with the text of another one
(`deserialize_injectedRetriever`).
-/
import Gct.MyProxy.Request

namespace Gct.MyProxy

open List Separated Words CText Keyed Option
open Option (bind_eq_some_iff)

/-! ## 1. Lines -/

abbrev Line := Key × Text

variable (key : Key) (request : Request) (value : Option Text) (names : Option Text)

def optionalLine : List Line := value.toList.map (key, ·)

def listLines : List Line :=
  (names.toList.flatMap (words (· = '\n'))).map (key, ·)

/-- The lines of a request. -/
def Request.lines (command : Text) : List Line :=
  [(.version, request.version), (.command, command), (.username, request.username), (.passphrase, request.passphrase)] ++
    (if request.newPassphrase ≠ [] then [(.newPassphrase, request.newPassphrase)] else []) ++
    [(.lifetime, printInt request.proxyLifetime)] ++
    optionalLine .retriever request.retrievers ++ optionalLine .renewer request.renewers ++
    optionalLine .credName (request.credname.map (stripChar · '\n')) ++
    optionalLine .credDesc (request.creddesc.map (stripChar · '\n')) ++
    optionalLine .keyRetriever request.keyretrieve ++ optionalLine .trustedRetriever request.trustedRetrievers ++
    (if request.wantTrustedCerts ≠ 0 then [(.trustedCerts, "1".toList)] else []) ++
    listLines .voname request.voname ++ listLines .vomses request.vomses

variable (lines : List Line)

def message : Text := lines.flatMap fun line => field line.1 line.2

@[simp] theorem message_nil : message [] = [] := rfl

variable (a b : List Line) (line : Line)

@[simp] theorem message_append : message (a ++ b) = message a ++ message b := flatMap_append

@[simp] theorem message_cons (lines : List Line) :
    message (line :: lines) = field line.1 line.2 ++ message lines := flatMap_cons

@[simp] theorem message_optionalLine : message (optionalLine key value) = optionalField key value := by
  cases value with
  | none => rfl
  | some value => exact append_nil _

@[simp] theorem message_listLines : message (listLines key names) = listField key names := by
  cases names with
  | none => rfl
  | some names =>
    rw [message, listLines, listField, flatMap_map, toList_some, flatMap_singleton]

variable {p : Prop} {value : Text} {names : Option Text}

theorem message_ite [Decidable p] :
    message (if p then a else b) = if p then message a else message b := apply_ite message p a b

theorem serializeRequest_eq :
    serializeRequest request = (encodeCommand request.commandType).map fun command => message (request.lines command) := by
  rw [serializeRequest]
  cases encodeCommand request.commandType with
  | none => rfl
  | some command =>
    simp only [map_some, Request.lines, message_append, message_cons, message_nil, message_optionalLine,
      message_listLines, message_ite, append_nil, append_assoc]

/-! ## 2. What is found for a key -/

/-- The values of the lines of a key. -/
def own : List Text := lines.filterMap fun line => if line.1 = key then some line.2 else none

/-- What is found for a key in the values of other lines. -/
def injected : List Text :=
  lines.filterMap fun line => if line.1 = key then none else valueIn key.text line.2

def allKeys : List Key :=
  [.version, .command, .username, .passphrase, .newPassphrase, .lifetime, .retriever, .renewer, .credName, .credDesc,
    .keyRetriever, .trustedRetriever, .trustedCerts, .voname, .vomses]

theorem mem_allKeys : key ∈ allKeys := by cases key <;> decide

def Key.name : Text := key.text.dropLast

theorem Key.text_eq : key.text = key.name ++ ['='] := by cases key <;> decide

theorem Key.notMem : '=' ∉ key.name ∧ '\n' ∉ key.text := by cases key <;> decide

/-- No key is the end of another one. -/
theorem Key.eq_of_suffix {key key' : Key} (h : key.text <:+ key'.text) : key = key' := by
  have hall : ∀ key ∈ allKeys, ∀ key' ∈ allKeys, key.text <:+ key'.text → key = key' := by decide +kernel
  exact hall key (mem_allKeys key) key' (mem_allKeys key') h

theorem valueIn_line : valueIn key.text (line.1.text ++ line.2) =
      if line.1 = key then some line.2 else valueIn key.text line.2 := by
  split
  next heq =>
    rw [heq]
    exact valueIn_self _ _
  next hne =>
    have hsuffix : ¬ key.name ++ ['='] <:+ line.1.name ++ ['='] := by
      rw [← Key.text_eq, ← Key.text_eq]
      exact fun h => hne (Key.eq_of_suffix h).symm
    rw [Key.text_eq key, Key.text_eq line.1]
    exact valueIn_append key.notMem.1 line.1.notMem.1 hsuffix line.2

/-- The values have no newline. -/
def Plain : Prop := ∀ line ∈ lines, '\n' ∉ line.2

section Found

variable {lines : List Line} (key : Key)

variable (h : Plain lines)

include h

theorem findValues_message : findValues key (message lines) =
      lines.filterMap fun line => if line.1 = key then some line.2 else valueIn key.text line.2 := by
  have hfront : message lines = front '\n' (lines.map fun line => line.1.text ++ line.2) := by
    rw [message, front, flatMap_map]
    rfl
  have hno : ∀ text ∈ lines.map (fun line => line.1.text ++ line.2), '\n' ∉ text := by
    intro text htext
    obtain ⟨line, hline, rfl⟩ := mem_map.mp htext
    rw [mem_append, not_or]
    exact ⟨line.1.notMem.2, h line hline⟩
  rw [findValues, hfront, tokens_reader key.text_ne_nil key.notMem.2 hno, filterMap_map]
  exact congrArg (filterMap · lines) (funext fun line => valueIn_line key line)

theorem findValues_eq_own (hinj : injected key lines = []) : findValues key (message lines) = own key lines := by
  rw [findValues_message key h, own]
  refine filterMap_congr fun line hline => ?_
  split
  next => rfl
  next hne =>
    have hnone := filterMap_eq_nil_iff.mp hinj line hline
    rwa [if_neg hne] at hnone

theorem findValues_eq_injected (hown : own key lines = []) : findValues key (message lines) = injected key lines := by
  rw [findValues_message key h, injected]
  refine filterMap_congr fun line hline => ?_
  have hnone := filterMap_eq_nil_iff.mp hown line hline
  split
  next heq =>
    rw [if_pos heq] at hnone
    cases hnone
  next => rfl

theorem findValues_perm : (findValues key (message lines)).Perm (own key lines ++ injected key lines) := by
  rw [findValues_message key h]
  clear h
  induction lines with
  | nil => exact .nil
  | cons line lines ih =>
    simp only [own, injected, filterMap_cons] at ih ⊢
    by_cases heq : line.1 = key
    · simp only [if_pos heq]
      exact ih.cons _
    · simp only [if_neg heq]
      cases valueIn key.text line.2 with
      | none => exact ih
      | some value => exact (ih.cons value).trans perm_middle.symm

theorem length_findValues :
    (findValues key (message lines)).length = (own key lines).length + (injected key lines).length := by
  rw [(findValues_perm key h).length_eq, length_append]

theorem findValues_ne_nil (hown : own key lines ≠ []) : findValues key (message lines) ≠ [] := by
  intro hnil
  have hlen := length_findValues key h
  have hpos := length_pos_iff.mpr hown
  rw [hnil, length_nil] at hlen
  omega

/-- With all its values put together, a key has a longer text if something is injected. -/
theorem length_intercalate_findValues (hown : own key lines ≠ []) (hinj : injected key lines ≠ []) :
    (['\n'].intercalate (own key lines)).length < (['\n'].intercalate (findValues key (message lines))).length := by
  have hfound := findValues_ne_nil key h hown
  have hfront : (front '\n' (findValues key (message lines))).length =
      (front '\n' (own key lines)).length + (front '\n' (injected key lines)).length := by
    rw [← length_append, front, front, front, ← flatMap_append]
    exact ((findValues_perm key h).flatMap_right _).length_eq
  have hmore : 0 < (front '\n' (injected key lines)).length := by
    rw [front_eq_append _ hinj, length_append, length_singleton]
    omega
  rw [front_eq_append _ hfound, front_eq_append _ hown, length_append, length_append] at hfront
  omega

end Found

/-! ## 3. Reading the fields -/

section Read

variable {key : Key} {data : Text} {lines : List Line}

theorem convertMessage_of_two (h : 2 ≤ (findValues key data).length) : convertMessage data key false = .failed := by
  rw [convertMessage]
  split
  next heq =>
    rw [heq] at h
    cases h
  next heq =>
    rw [heq, length_singleton] at h
    omega
  next => rfl

theorem convertMessage_multiple (h : findValues key data ≠ []) :
    convertMessage data key true = .line (['\n'].intercalate (findValues key data)) := by
  rw [convertMessage]
  split
  next heq => exact absurd heq h
  next heq => rw [heq, intercalate_singleton]
  next => rfl

theorem convertMessage_eq_notFound_iff {allowMultiple : Bool} :
    convertMessage data key allowMultiple = .notFound ↔ findValues key data = [] := by
  rw [convertMessage]
  split
  next heq => exact iff_of_true rfl heq
  next heq => exact iff_of_false nofun (by rw [heq]; exact cons_ne_nil _ _)
  next hnil _ => cases allowMultiple <;> exact iff_of_false nofun hnil

theorem readOptional_eq_none_iff {allowMultiple : Bool} :
    readOptional data key allowMultiple = some none ↔ findValues key data = [] := by
  rw [← @convertMessage_eq_notFound_iff key data allowMultiple, readOptional]
  cases convertMessage data key allowMultiple with
  | failed | line => exact iff_of_false nofun nofun
  | notFound => exact iff_of_true rfl rfl

variable (h : Plain lines)

include h

section

variable (hown : own key lines = [value])

include hown

/-- With a line of its own, a key is an error as soon as something is injected. -/
theorem convertMessage_of_own :
    convertMessage (message lines) key false = if injected key lines = [] then .line value else .failed := by
  split
  next hinj => rw [convertMessage, findValues_eq_own key h hinj, hown]
  next hinj =>
    have hlen := length_findValues key h
    have hpos := length_pos_iff.mpr hinj
    rw [hown, length_singleton] at hlen
    exact convertMessage_of_two (by omega)

theorem requiredField_of_own :
    requiredField (message lines) key = if injected key lines = [] then some value else none := by
  rw [requiredField, convertMessage_of_own h hown]
  split_ifs <;> rfl

theorem readOptional_of_own :
    readOptional (message lines) key false = if injected key lines = [] then some (some value) else none := by
  rw [readOptional, convertMessage_of_own h hown]
  split_ifs <;> rfl

end

/-- Without a line of its own, a key has what is injected. -/
theorem readOptional_of_no_own (hown : own key lines = []) :
    readOptional (message lines) key false = match injected key lines with
      | [] => some none
      | [value] => some (some value)
      | _ => none := by
  rw [readOptional, convertMessage, findValues_eq_injected key h hown]
  match injected key lines with
  | [] => rfl
  | [value] => rfl
  | _ :: _ :: _ => rfl

theorem readOptional_iff {value : Option Text} (hown : own key lines = value.toList) :
    readOptional (message lines) key false = some value ↔ injected key lines = [] := by
  cases value with
  | none => rw [readOptional_eq_none_iff, findValues_eq_injected key h hown]
  | some value =>
    rw [readOptional_of_own h hown]
    split
    next hinj => exact iff_of_true rfl hinj
    next hinj => exact iff_of_false nofun hinj

theorem readList_iff (hown : ∀ text ∈ names, own key lines ≠ [] ∧ ['\n'].intercalate (own key lines) = text)
    (hnone : names = none → own key lines = []) :
    readOptional (message lines) key true = some names ↔ injected key lines = [] := by
  cases names with
  | none => rw [readOptional_eq_none_iff, findValues_eq_injected key h (hnone rfl)]
  | some text =>
    obtain ⟨hne, htext⟩ := hown text rfl
    rw [readOptional, convertMessage_multiple (findValues_ne_nil key h hne)]
    constructor
    · intro hread
      by_contra hinj
      have hlt := length_intercalate_findValues key h hne hinj
      rw [htext, some.inj (some.inj hread)] at hlt
      exact Nat.lt_irrefl _ hlt
    · intro hinj
      rw [findValues_eq_own key h hinj, htext]

end Read

/-! ## 4. Requests that can be sent -/

/-- A text without a newline and a NUL. -/
def Clean (text : Text) : Prop := '\n' ∉ text ∧ Char.ofNat 0 ∉ text

instance (text : Text) : Decidable (Clean text) := inferInstanceAs (Decidable (_ ∧ _))

/-- A list of names, none of them empty, with a newline between two of them. -/
def IsNames (text : Text) : Prop :=
  ∃ names : List Text, names ≠ [] ∧ text = ['\n'].intercalate names ∧ ∀ name ∈ names, name ≠ [] ∧ Clean name

/-- The requests that clients can send. -/
structure Sendable : Prop where
  command : ∀ value, request.commandType ≠ .other value
  lifetime : -2 ^ 31 ≤ request.proxyLifetime ∧ request.proxyLifetime < 2 ^ 31
  version : Clean request.version
  username : Clean request.username
  passphrase : Clean request.passphrase ∧ request.passphrase.length ≤ maxPassLen
  newPassphrase : Clean request.newPassphrase ∧ request.newPassphrase.length ≤ maxPassLen
  retrievers : ∀ text ∈ request.retrievers, Clean text
  renewers : ∀ text ∈ request.renewers, Clean text
  credname : ∀ text ∈ request.credname, Clean text
  creddesc : ∀ text ∈ request.creddesc, Clean text
  keyretrieve : ∀ text ∈ request.keyretrieve, Clean text
  trustedRetrievers : ∀ text ∈ request.trustedRetrievers, Clean text
  voname : ∀ text ∈ request.voname, IsNames text
  vomses : ∀ text ∈ request.vomses, IsNames text

/-- The lines that are sent for a request. -/
def Request.sent : List Line := request.lines ((encodeCommand request.commandType).getD [])

theorem serializeRequest_of_sendable {request : Request} (h : Sendable request) :
    serializeRequest request = some (message request.sent) := by
  rw [serializeRequest_eq, Request.sent]
  cases hcommand : request.commandType with
  | other value => exact absurd hcommand (h.command value)
  | _ => rfl

theorem stripChar_eq_self {text : Text} (h : Clean text) : stripChar text '\n' = text := by
  refine filter_eq_self.mpr fun c hc => decide_eq_true ?_
  rintro rfl
  exact h.1 hc

theorem map_stripChar_eq_self {value : Option Text} (h : ∀ text ∈ value, Clean text) :
    value.map (stripChar · '\n') = value := by
  cases value with
  | none => rfl
  | some text => exact congrArg some (stripChar_eq_self (h text rfl))

theorem words_intercalate {names : List Text} (h : ∀ name ∈ names, name ≠ [] ∧ Clean name) (hne : names ≠ []) :
    words (· = '\n') (['\n'].intercalate names) = names := by
  induction names with
  | nil => exact absurd rfl hne
  | cons name names ih =>
    obtain ⟨hname, hclean⟩ := h name mem_cons_self
    have hno : ∀ c ∈ name, decide (c = '\n') = false := by
      intro c hc
      refine decide_eq_false ?_
      rintro rfl
      exact hclean.1 hc
    cases names with
    | nil =>
      rw [intercalate_singleton]
      exact words_of_no_sep hname hno
    | cons name' names =>
      rw [intercalate_cons_cons, append_assoc, singleton_append, words_append hname hno (by simp),
        ih (fun n hn => h n (mem_cons_of_mem _ hn)) (cons_ne_nil _ _)]

section Sent

variable {request : Request} (key : Key)

theorem own_nil : own key [] = [] := rfl

theorem own_append : own key (a ++ b) = own key a ++ own key b := filterMap_append

theorem own_optionalLine (key key' : Key) (value : Option Text) :
    own key (optionalLine key' value) = if key' = key then value.toList else [] := by
  cases value with
  | none => simp [own, optionalLine]
  | some value =>
    by_cases h : key' = key
    · simp [own, optionalLine, h]
    · simp [own, optionalLine, h]

theorem own_listLines (key key' : Key) (names : Option Text) :
    own key (listLines key' names) = if key' = key then names.toList.flatMap (words (· = '\n')) else [] := by
  by_cases h : key' = key
  · simp [own, listLines, h, filterMap_map]
  · simp [own, listLines, h, filterMap_map]

theorem own_cons (lines : List Line) :
    own key (line :: lines) = (if line.1 = key then [line.2] else []) ++ own key lines := by
  rw [own, filterMap_cons]
  split_ifs <;> rfl

theorem own_ite [Decidable p] :
    own key (if p then a else b) = if p then own key a else own key b := apply_ite (own key) p a b

theorem own_sent (h : Sendable request) (key : Key) : own key request.sent = match key with
    | .version => [request.version]
    | .command => [(encodeCommand request.commandType).getD []]
    | .username => [request.username]
    | .passphrase => [request.passphrase]
    | .newPassphrase => if request.newPassphrase ≠ [] then [request.newPassphrase] else []
    | .lifetime => [printInt request.proxyLifetime]
    | .retriever => request.retrievers.toList
    | .renewer => request.renewers.toList
    | .credName => request.credname.toList
    | .credDesc => request.creddesc.toList
    | .keyRetriever => request.keyretrieve.toList
    | .trustedRetriever => request.trustedRetrievers.toList
    | .trustedCerts => if request.wantTrustedCerts ≠ 0 then ["1".toList] else []
    | .voname => request.voname.toList.flatMap (words (· = '\n'))
    | .vomses => request.vomses.toList.flatMap (words (· = '\n')) := by
  rw [Request.sent, Request.lines, map_stripChar_eq_self h.credname, map_stripChar_eq_self h.creddesc]
  simp only [own_append, own_cons, own_nil, own_optionalLine, own_listLines, own_ite]
  cases key <;> simp

theorem notMem_of_mem_toList {value : Option Text} (h : ∀ text ∈ value, Clean text) :
    ∀ text ∈ value.toList, '\n' ∉ text :=
  fun text htext => (h text (mem_toList.mp htext)).1

theorem notMem_of_mem_names (h : ∀ text ∈ names, IsNames text) :
    ∀ name ∈ names.toList.flatMap (words (· = '\n')), '\n' ∉ name := by
  intro name hname
  obtain ⟨text, htext, hname⟩ := mem_flatMap.mp hname
  obtain ⟨list, hne, rfl, hlist⟩ := h text (mem_toList.mp htext)
  rw [words_intercalate hlist hne] at hname
  exact (hlist name hname).2.1

theorem plain_sent (h : Sendable request) : Plain request.sent := by
  -- a line is among the values of its own key
  suffices hown : ∀ key, ∀ value ∈ own key request.sent, '\n' ∉ value from
    fun line hline => hown line.1 line.2 (mem_filterMap.mpr ⟨line, hline, if_pos rfl⟩)
  intro key
  rw [own_sent h]
  cases key with
  | version => exact forall_mem_singleton.mpr h.version.1
  | command =>
    refine forall_mem_singleton.mpr ?_
    cases request.commandType with
    | other value => exact not_mem_nil
    | _ => decide
  | username => exact forall_mem_singleton.mpr h.username.1
  | passphrase => exact forall_mem_singleton.mpr h.passphrase.1.1
  | newPassphrase =>
    dsimp only
    split
    · exact forall_mem_singleton.mpr h.newPassphrase.1.1
    · exact forall_mem_nil _
  | lifetime => exact forall_mem_singleton.mpr (not_mem_printInt (by decide) (by decide))
  | retriever => exact notMem_of_mem_toList h.retrievers
  | renewer => exact notMem_of_mem_toList h.renewers
  | credName => exact notMem_of_mem_toList h.credname
  | credDesc => exact notMem_of_mem_toList h.creddesc
  | keyRetriever => exact notMem_of_mem_toList h.keyretrieve
  | trustedRetriever => exact notMem_of_mem_toList h.trustedRetrievers
  | trustedCerts =>
    dsimp only
    split <;> decide
  | voname => exact notMem_of_mem_names h.voname
  | vomses => exact notMem_of_mem_names h.vomses

end Sent

/-! ## 5. The round trip -/

/-- What the message gives for the field of a key. -/
def Reads (data : Text) (request : Request) : Key → Prop
  | .version => requiredField data .version = some request.version
  | .command => (requiredField data .command).bind parseCommand = some request.commandType
  | .username => requiredField data .username = some request.username
  | .passphrase => (requiredField data .passphrase).bind (some ∘ copyPassphrase) = some request.passphrase
  | .newPassphrase => ∃ value, readOptional data .newPassphrase false = some value ∧
    copyPassphrase (value.getD []) = request.newPassphrase
  | .lifetime => (requiredField data .lifetime).bind stringToInt = some request.proxyLifetime
  | .retriever => readOptional data .retriever false = some request.retrievers
  | .renewer => readOptional data .renewer false = some request.renewers
  | .credName => readOptional data .credName false = some request.credname
  | .credDesc => readOptional data .credDesc false = some request.creddesc
  | .keyRetriever => readOptional data .keyRetriever false = some request.keyretrieve
  | .trustedRetriever => readOptional data .trustedRetriever false = some request.trustedRetrievers
  | .trustedCerts => readTrustedCerts data = some request.wantTrustedCerts
  | .voname => readOptional data .voname true = some request.voname
  | .vomses => readOptional data .vomses true = some request.vomses

theorem deserializeRequest_iff {data : Text} {request : Request} : deserializeRequest data = some request ↔
      (∀ key, Reads data request key) ∧ request.authzcreds = none ∧ request.certreq = none := by
  constructor
  · intro h
    obtain ⟨_, hversion, h⟩ := bind_eq_some_iff.mp h
    obtain ⟨_, hcommand, h⟩ := bind_eq_some_iff.mp h
    obtain ⟨_, husername, h⟩ := bind_eq_some_iff.mp h
    obtain ⟨_, hpassphrase, h⟩ := bind_eq_some_iff.mp h
    obtain ⟨newPassphrase, hnew, h⟩ := bind_eq_some_iff.mp h
    obtain ⟨_, hlifetime, h⟩ := bind_eq_some_iff.mp h
    obtain ⟨_, hretrievers, h⟩ := bind_eq_some_iff.mp h
    obtain ⟨_, hrenewers, h⟩ := bind_eq_some_iff.mp h
    obtain ⟨_, hcredname, h⟩ := bind_eq_some_iff.mp h
    obtain ⟨_, hcreddesc, h⟩ := bind_eq_some_iff.mp h
    obtain ⟨_, hkeyretrieve, h⟩ := bind_eq_some_iff.mp h
    obtain ⟨_, htrustedRetrievers, h⟩ := bind_eq_some_iff.mp h
    obtain ⟨_, hwant, h⟩ := bind_eq_some_iff.mp h
    obtain ⟨_, hvoname, h⟩ := bind_eq_some_iff.mp h
    obtain ⟨_, hvomses, h⟩ := bind_eq_some_iff.mp h
    cases h
    refine ⟨fun key => ?_, rfl, rfl⟩
    cases key with
    | passphrase =>
      rw [Reads, hpassphrase]
      rfl
    | newPassphrase => exact ⟨newPassphrase, hnew, rfl⟩
    | version => exact hversion
    | command => exact hcommand
    | username => exact husername
    | lifetime => exact hlifetime
    | retriever => exact hretrievers
    | renewer => exact hrenewers
    | credName => exact hcredname
    | credDesc => exact hcreddesc
    | keyRetriever => exact hkeyretrieve
    | trustedRetriever => exact htrustedRetrievers
    | trustedCerts => exact hwant
    | voname => exact hvoname
    | vomses => exact hvomses
  · rintro ⟨h, hauthz, hcertreq⟩
    obtain ⟨passphrase, hpassphrase, hcopy⟩ := bind_eq_some_iff.mp (h .passphrase)
    obtain ⟨newPassphrase, hnew, hnewCopy⟩ := h .newPassphrase
    rw [deserializeRequest, (h .version : _ = _), (h .command : _ = _), (h .username : _ = _), hpassphrase, hnew,
      (h .lifetime : _ = _), (h .retriever : _ = _), (h .renewer : _ = _), (h .credName : _ = _), (h .credDesc : _ = _),
      (h .keyRetriever : _ = _), (h .trustedRetriever : _ = _), (h .trustedCerts : _ = _), (h .voname : _ = _),
      (h .vomses : _ = _)]
    cases request
    cases hcopy
    cases hnewCopy
    cases hauthz
    cases hcertreq
    rfl

/-- No text of a request changes another field. -/
structure NothingInjected (request : Request) : Prop where
  keys : ∀ key, key ≠ .newPassphrase → key ≠ .trustedCerts → injected key request.sent = []
  /-- An absent new passphrase may be found once, if it is empty. -/
  newPassphrase : injected .newPassphrase request.sent = [] ∨
    request.newPassphrase = [] ∧ injected .newPassphrase request.sent = [[]]
  /-- Absent trusted certificates may be found once, if they are 0. -/
  trustedCerts : injected .trustedCerts request.sent = [] ∨
    request.wantTrustedCerts = 0 ∧ ∃ value, injected .trustedCerts request.sent = [value] ∧ stringToInt value = some 0
  wantTrustedCerts : request.wantTrustedCerts = 0 ∨ request.wantTrustedCerts = 1
  /-- These fields are never sent. -/
  notSent : request.authzcreds = none ∧ request.certreq = none

theorem stringToInt_printInt {n : Int} (hlo : -2 ^ 31 ≤ n) (hhi : n < 2 ^ 31) : stringToInt (printInt n) = some n := by
  have hne : printInt n ≠ [] := by
    rw [printInt]
    split
    · exact cons_ne_nil _ _
    · exact Nat.toDigits_ne_nil
  have hmin : longMin < n := lt_of_lt_of_le (by decide) hlo
  have hmax : n < longMax := lt_of_lt_of_le hhi (by decide)
  have hmod : n.bmod (2 ^ 32) = n := Int.bmod_eq_of_le (by omega) (by omega)
  rw [stringToInt, if_neg hne, strtol_printInt hmin.le hmax.le]
  simp only [if_neg hmin.ne', if_neg hmax.ne, ne_eq, not_true_eq_false, if_false, hmod]

theorem parseCommand_encodeCommand {commandType : RequestType} (h : ∀ value, commandType ≠ .other value) :
    parseCommand ((encodeCommand commandType).getD []) = some commandType := by
  cases commandType with
  | other value => exact absurd rfl (h value)
  | _ => decide

section RoundTrip

variable {request : Request} (h : Sendable request) {key : Key}
include h

theorem own_names (hnames : ∀ text ∈ names, IsNames text)
    (hown : own key request.sent = names.toList.flatMap (words (· = '\n'))) :
    readOptional (message request.sent) key true = some names ↔ injected key request.sent = [] := by
  refine readList_iff (plain_sent h) (fun text htext => ?_) fun hnone => ?_
  · obtain ⟨list, hne, rfl, hlist⟩ := hnames text htext
    rw [hown, htext, toList_some, flatMap_singleton, words_intercalate hlist hne]
    exact ⟨hne, rfl⟩
  · rw [hown, hnone]
    rfl

theorem readNewPassphrase_iff : (∃ value, readOptional (message request.sent) .newPassphrase false = some value ∧
      copyPassphrase (value.getD []) = request.newPassphrase) ↔ (injected .newPassphrase request.sent = [] ∨
        request.newPassphrase = [] ∧ injected .newPassphrase request.sent = [[]]) := by
  have hown := own_sent h .newPassphrase
  by_cases hnew : request.newPassphrase = []
  · simp only [hnew, ne_eq, not_true_eq_false, if_false] at hown
    rw [readOptional_of_no_own (plain_sent h) hown, hnew]
    match injected .newPassphrase request.sent with
    | [] => exact iff_of_true ⟨none, rfl, rfl⟩ (.inl rfl)
    | [value] =>
      have hcopy : copyPassphrase value = [] ↔ value = [] := by
        rw [copyPassphrase, take_eq_nil_iff]
        exact or_iff_right (by decide)
      simp [hcopy]
    | _ :: _ :: _ => simp
  · simp only [hnew, ne_eq, not_false_eq_true, if_true] at hown
    rw [readOptional_of_own (plain_sent h) hown]
    split
    next hinj => exact iff_of_true ⟨_, rfl, take_of_length_le h.newPassphrase.2⟩ (.inl hinj)
    next hinj =>
      refine iff_of_false (fun ⟨_, hnone, _⟩ => by cases hnone) ?_
      rintro (hnil | ⟨hnil, -⟩)
      · exact hinj hnil
      · exact hnew hnil

theorem readTrustedCerts_iff : readTrustedCerts (message request.sent) = some request.wantTrustedCerts ↔
      (injected .trustedCerts request.sent = [] ∨ request.wantTrustedCerts = 0 ∧
          ∃ value, injected .trustedCerts request.sent = [value] ∧ stringToInt value = some 0) ∧
      (request.wantTrustedCerts = 0 ∨ request.wantTrustedCerts = 1) := by
  have hown := own_sent h .trustedCerts
  rw [readTrustedCerts]
  by_cases hwant : request.wantTrustedCerts = 0
  · simp only [hwant, ne_eq, not_true_eq_false, if_false] at hown
    rw [readOptional_of_no_own (plain_sent h) hown, hwant]
    match injected .trustedCerts request.sent with
    | [] => simp
    | [value] => simp
    | _ :: _ :: _ => simp
  · simp only [hwant, ne_eq, not_false_eq_true, if_true] at hown
    have hone : stringToInt "1".toList = some 1 := by decide
    rw [readOptional_of_own (plain_sent h) hown]
    split
    next hread =>
      split at hread
      next => cases hread
      next hinj => simp [hinj, hwant]
    next hread =>
      split at hread <;> cases hread
    next value hread =>
      split at hread
      next hinj =>
        cases hread
        rw [hone]
        simp [hinj, hwant, eq_comm]
      next => cases hread

theorem required_iff {β : Type} {read : Text → Option β} {result : β}
    (hown : own key request.sent = [value]) (hread : read value = some result) :
    (requiredField (message request.sent) key).bind read = some result ↔ injected key request.sent = [] := by
  rw [requiredField_of_own (plain_sent h) hown]
  split
  next hinj => exact iff_of_true hread hinj
  next hinj => exact iff_of_false nofun hinj

theorem requiredField_iff (hown : own key request.sent = [value]) :
    requiredField (message request.sent) key = some value ↔ injected key request.sent = [] := by
  rw [← required_iff h hown rfl, bind_fun_some]

theorem reads_iff (hnew : key ≠ .newPassphrase) (hcerts : key ≠ .trustedCerts) :
    Reads (message request.sent) request key ↔ injected key request.sent = [] := by
  cases key with
  | version | username => exact requiredField_iff h (own_sent h _)
  | command => exact required_iff h (own_sent h .command) (parseCommand_encodeCommand h.command)
  | passphrase => exact required_iff h (own_sent h .passphrase) (congrArg some (take_of_length_le h.passphrase.2))
  | newPassphrase => exact absurd rfl hnew
  | lifetime => exact required_iff h (own_sent h .lifetime) (stringToInt_printInt h.lifetime.1 h.lifetime.2)
  | retriever | renewer | credName | credDesc | keyRetriever | trustedRetriever =>
    exact readOptional_iff (plain_sent h) (own_sent h _)
  | trustedCerts => exact absurd rfl hcerts
  | voname => exact own_names h h.voname (own_sent h .voname)
  | vomses => exact own_names h h.vomses (own_sent h .vomses)

/-- **The server reads the request that was sent exactly when no text of it holds the key of another field**, up to
the two fields that may be found with the value that an absent field has. -/
theorem deserialize_serialize_iff :
    (serializeRequest request).bind deserializeRequest = some request ↔ NothingInjected request := by
  rw [serializeRequest_of_sendable h, bind_some, deserializeRequest_iff]
  constructor
  · rintro ⟨hreads, hnot⟩
    have htrusted := (readTrustedCerts_iff h).mp (hreads .trustedCerts)
    exact ⟨fun key hnew hcerts => (reads_iff h hnew hcerts).mp (hreads key),
      (readNewPassphrase_iff h).mp (hreads .newPassphrase), htrusted.1, htrusted.2, hnot⟩
  · intro hinj
    refine ⟨fun key => ?_, hinj.notSent⟩
    by_cases hnew : key = .newPassphrase
    · subst hnew
      exact (readNewPassphrase_iff h).mpr hinj.newPassphrase
    by_cases hcerts : key = .trustedCerts
    · subst hcerts
      exact (readTrustedCerts_iff h).mpr ⟨hinj.trustedCerts, hinj.wantTrustedCerts⟩
    exact (reads_iff h hnew hcerts).mpr (hinj.keys key hnew hcerts)

end RoundTrip

/-- A request to store a credential for two organisations. -/
def storeForOrganisations : Request where
  version := "MYPROXYv2".toList
  username := "alice".toList
  passphrase := "a=b, c".toList
  commandType := .putProxy
  proxyLifetime := -43200
  retrievers := some "*".toList
  creddesc := some "USERNAME".toList
  wantTrustedCerts := 1
  voname := some "astro\nbio".toList

/-- It is read as it was sent. -/
theorem deserialize_serialize_organisations :
    (serializeRequest storeForOrganisations).bind deserializeRequest = some storeForOrganisations := by
  have hsendable : Sendable storeForOrganisations := by
    refine ⟨nofun, by decide, by decide, by decide, by decide, by decide, ?_, nofun, nofun, ?_, nofun, nofun, ?_, nofun⟩
    · rintro text ⟨⟩
      decide
    · rintro text ⟨⟩
      decide
    · rintro text ⟨⟩
      exact ⟨["astro".toList, "bio".toList], by decide, by decide, by decide⟩
  have hall : ∀ key ∈ allKeys, injected key storeForOrganisations.sent = [] := by decide +kernel
  exact (deserialize_serialize_iff hsendable).mpr ⟨fun key _ _ => hall key (mem_allKeys key), .inl (hall _ (mem_allKeys _)),
    .inl (hall _ (mem_allKeys _)), .inr rfl, rfl, rfl⟩

/-- A passphrase that holds the key of the retrievers, which the request does not have. -/
def injectedRetriever : Request where
  version := "MYPROXYv2".toList
  username := "alice".toList
  passphrase := "abcRETRIEVER=*".toList
  commandType := .putProxy
  proxyLifetime := 0

/-- **The passphrase sets the retrievers: the server lets everyone retrieve the credential.** -/
theorem deserialize_injectedRetriever : Sendable injectedRetriever ∧
      (serializeRequest injectedRetriever).bind deserializeRequest =
        some { injectedRetriever with retrievers := some "*".toList } ∧
      (serializeRequest injectedRetriever).bind deserializeRequest ≠ some injectedRetriever := by
  have hread : (serializeRequest injectedRetriever).bind deserializeRequest =
      some { injectedRetriever with retrievers := some "*".toList } := by decide +kernel
  refine ⟨⟨nofun, by decide, by decide, by decide, by decide, by decide, nofun, nofun, nofun, nofun, nofun, nofun, nofun,
    nofun⟩, hread, ?_⟩
  decide

end Gct.MyProxy
