/-
# Which accounts a gridmap file grants

The documentation of `parse_line` says that the accounts are separated by a comma and no white space, and that everything
behind them and everything behind a comment character is ignored.  `accountList` is the list that a line has by this
rule; the DN may use the accounts on the list of its first line.

`parse_line` does not stop at the end of that list: every word of the line is an account, also a word of a comment.  The
lookups follow the documentation exactly where the other words grant nothing new (`followsFormat_iff`).
-/
import Gct.Gridmap.File

namespace Gct.Gridmap

open List Words

/-! ## 1. The format -/

variable (rest : List Char)

/-- The names between single commas, from the beginning of the text to a blank, a comment or an empty name. -/
def accountList : List (List Char) :=
  ((rest.takeWhile fun c => c ∉ whitespaceChars ∧ c ∉ commentChars).splitOn ',').takeWhile (!·.isEmpty)

/-- The DNs of the lines that can be parsed, each with the text behind it. -/
def entries (file : List Char) : List (List Char × List Char) :=
  (lines file).filterMap fun line => (parseDn line).toOption.join

section Lookup

variable (dnCmp : List Char → List Char → Int) (file dn : List Char)

/-- The text behind the DN in the first line of a DN. -/
def accountText : Option (List Char) :=
  ((entries file).find? fun entry => dnCmp dn entry.1 = 0).map (·.2)

/-- The accounts that a DN may use. -/
def accounts : List (List Char) :=
  match accountText dnCmp file dn with
  | none => []
  | some rest => accountList rest

/-- Both lookups follow the format, whatever the pools give out. -/
def FollowsFormat : Prop :=
  ∀ dir : Gridmapdir, (∀ userid, beginsWithDot userid = false →
      (userok dnCmp dir file dn userid = true ↔ userid ∈ accounts dnCmp file dn)) ∧
    gridmap dnCmp dir file dn = (accounts dnCmp file dn).head?

end Lookup

/-- The words of a text, which commas and blanks separate. -/
def words : List (List Char) := Words.words (· ∈ useridTerminatorChars) rest

/-- Nothing in the text grants more than its account list: the text does not begin with a comma, its first word is not a
pool, and all other words are pools or accounts that are on the list. -/
structure GrantsList : Prop where
  noComma : rest.head? ≠ some ','
  noPool : ∀ word ∈ (words rest).head?, beginsWithDot word = false
  listed : ∀ word ∈ words rest, beginsWithDot word = true ∨ word ∈ accountList rest

instance (rest : List Char) : Decidable (GrantsList rest) :=
  decidable_of_iff (rest.head? ≠ some ',' ∧ (∀ word ∈ (words rest).head?, beginsWithDot word = false) ∧
      ∀ word ∈ words rest, beginsWithDot word = true ∨ word ∈ accountList rest)
    ⟨fun ⟨h₁, h₂, h₃⟩ => ⟨h₁, h₂, h₃⟩, fun h => ⟨h.noComma, h.noPool, h.listed⟩⟩

/-! ## 2. The account list and the words -/

/-- A character of an account name. -/
def isNameChar (c : Char) : Bool := c ∉ useridTerminatorChars ∧ c ∉ commentChars

section List

variable {name rest : List Char}

theorem eq_of_not_isNameChar {c : Char} (h : isNameChar c = false) : c ∈ whitespaceChars ∨ c = '#' ∨ c = ',' := by
  simp only [isNameChar, decide_eq_false_iff_not, not_and_or, not_not] at h
  rcases h with h | h
  · rcases mem_append.mp h with h | h
    · exact .inr (.inr (mem_singleton.mp h))
    · exact .inl h
  · exact .inr (.inl (mem_singleton.mp h))

theorem isNameChar_imp {c : Char} (h : isNameChar c = true) :
    c ∉ whitespaceChars ∧ c ∉ commentChars ∧ c ≠ ',' ∧ c ∉ useridTerminatorChars := by
  obtain ⟨hterm, hcomment⟩ := of_decide_eq_true h
  refine ⟨fun hc => hterm (mem_append_right _ hc), hcomment, ?_, hterm⟩
  rintro rfl
  exact hterm (by decide)

/-- The part of the text that can hold the account list. -/
def listText (rest : List Char) : List Char := rest.takeWhile fun c => c ∉ whitespaceChars ∧ c ∉ commentChars

theorem listText_append (hname : ∀ c ∈ name, isNameChar c = true) : listText (name ++ rest) = name ++ listText rest := by
  refine takeWhile_append_of_pos fun c hc => ?_
  obtain ⟨hblank, hcomment, -, -⟩ := isNameChar_imp (hname c hc)
  exact decide_eq_true ⟨hblank, hcomment⟩

theorem listText_comma : listText (',' :: rest) = ',' :: listText rest := takeWhile_cons_of_pos (by decide)

theorem listText_of_end (h : ∀ c ∈ rest.head?, c ∈ whitespaceChars ∨ c = '#') : listText rest = [] := by
  cases rest with
  | nil => rfl
  | cons c rest =>
    refine takeWhile_cons_of_neg ?_
    rcases h c rfl with hc | rfl
    · simp [hc]
    · decide

section

variable (hne : name ≠ []) (hname : ∀ c ∈ name, isNameChar c = true)

include hne hname

theorem accountList_comma : accountList (name ++ ',' :: rest) = name :: accountList rest := by
  have hcomma : ',' ∉ name := fun h => (isNameChar_imp (hname _ h)).2.2.1 rfl
  change ((listText (name ++ ',' :: rest)).splitOn ',').takeWhile (!·.isEmpty) = _
  rw [listText_append hname, listText_comma, splitOn_append_cons_self_of_not_mem hcomma,
    takeWhile_cons_of_pos (by simpa using hne)]
  rfl

theorem accountList_of_end
    (hend : ∀ c ∈ rest.head?, c ∈ whitespaceChars ∨ c = '#') : accountList (name ++ rest) = [name] := by
  have hcomma : ',' ∉ name := fun h => (isNameChar_imp (hname _ h)).2.2.1 rfl
  change ((listText (name ++ rest)).splitOn ',').takeWhile (!·.isEmpty) = _
  rw [listText_append hname, listText_of_end hend, append_nil, splitOn_eq_singleton hcomma,
    takeWhile_cons_of_pos (by simpa using hne), takeWhile_nil]

end

theorem accountList_of_no_name (h : ∀ c ∈ rest.head?, isNameChar c = false) : accountList rest = [] := by
  change ((listText rest).splitOn ',').takeWhile (!·.isEmpty) = _
  by_cases hcomma : rest.head? = some ','
  · obtain ⟨t, rfl⟩ := head?_eq_some_iff.mp hcomma
    rw [listText_comma, splitOn_cons_eq_if_modifyHead, if_pos (by decide)]
    rfl
  · have hend : ∀ c ∈ rest.head?, c ∈ whitespaceChars ∨ c = '#' := by
      intro c hc
      rcases eq_of_not_isNameChar (h c hc) with hblank | hcomment | rfl
      · exact .inl hblank
      · exact .inr hcomment
      · exact absurd hc hcomma
    rw [listText_of_end hend]
    rfl

/-- How the account list and the words of a text begin. -/
inductive ListView (rest : List Char) : Prop
  /-- There is no account name at the beginning. -/
  | none (h : ∀ c ∈ rest.head?, c ∈ useridTerminatorChars) (hlist : accountList rest = [])
  /-- A comment character ends the list, but not the word. -/
  | comment (name word : List Char) (hword : word ∈ (words rest).head?) (hcomment : name ++ ['#'] <+: word)
      (hlist : ∀ account ∈ accountList rest, account = name)
  | last (name : List Char) (more : List (List Char)) (hwords : words rest = name :: more)
      (hlist : accountList rest = [name])
  | more (name t : List Char) (hrest : rest = name ++ ',' :: t) (hwords : words rest = name :: words t)
      (hlist : accountList rest = name :: accountList t)

theorem listView_comment (hname : ∀ c ∈ name, isNameChar c = true) : ListView (name ++ '#' :: rest) := by
  have hcomment : decide ('#' ∈ useridTerminatorChars) = false := by decide
  have hsep : ∀ c ∈ name, decide (c ∈ useridTerminatorChars) = false := fun c hc =>
    decide_eq_false (isNameChar_imp (hname c hc)).2.2.2
  have hhead : (words (name ++ '#' :: rest)).head? =
      some ((name ++ '#' :: rest).takeWhile fun c => !decide (c ∈ useridTerminatorChars)) := by
    refine head?_words (by simp) fun c hc => ?_
    cases name with
    | nil =>
      cases hc
      exact hcomment
    | cons d name =>
      cases hc
      exact hsep _ mem_cons_self
  have hword : ((name ++ '#' :: rest).takeWhile fun c => !decide (c ∈ useridTerminatorChars)) =
      (name ++ ['#']) ++ rest.takeWhile fun c => !decide (c ∈ useridTerminatorChars) := by
    rw [takeWhile_append_of_pos (fun c hc => by rw [hsep c hc]; rfl),
      takeWhile_cons_of_pos (by rw [hcomment]; rfl), append_assoc, singleton_append]
  refine .comment name _ hhead ?_ ?_
  · rw [hword]
    exact prefix_append _ _
  · intro account haccount
    cases name with
    | nil =>
      cases haccount
    | cons d name =>
      rw [accountList_of_end (by simp) hname (by rintro c ⟨⟩; exact .inr rfl)] at haccount
      exact mem_singleton.mp haccount

theorem listView (rest : List Char) : ListView rest := by
  have hsplit : rest.takeWhile isNameChar ++ rest.dropWhile isNameChar = rest := takeWhile_append_dropWhile
  have hname : ∀ c ∈ rest.takeWhile isNameChar, isNameChar c = true := fun c hc => mem_takeWhile_imp hc
  have hrest : ∀ c ∈ (rest.dropWhile isNameChar).head?, isNameChar c = false := eq_false_of_mem_head?_dropWhile
  generalize rest.takeWhile isNameChar = name at hsplit hname
  generalize rest.dropWhile isNameChar = t at hsplit hrest
  subst hsplit
  have hsep : ∀ c ∈ name, decide (c ∈ useridTerminatorChars) = false := fun c hc =>
    decide_eq_false (isNameChar_imp (hname c hc)).2.2.2
  cases t with
  | nil =>
    rw [append_nil]
    by_cases hne : name = []
    · subst hne
      exact .none (by simp) rfl
    · refine .last name [] (words_of_no_sep hne hsep) ?_
      have hlist : accountList (name ++ []) = [name] := accountList_of_end hne hname (by simp)
      rwa [append_nil] at hlist
  | cons c t =>
    have hwords (hne : name ≠ []) (hc : c ∈ useridTerminatorChars) : words (name ++ c :: t) = name :: words t :=
      words_append hne hsep (decide_eq_true hc)
    -- a separator without a name before it
    have hnone (hne : name = []) (hc : c ∈ useridTerminatorChars) : ListView (name ++ c :: t) := by
      subst hne
      exact .none (by rintro d ⟨⟩; exact hc) (accountList_of_no_name hrest)
    rcases eq_of_not_isNameChar (hrest c rfl) with hblank | rfl | rfl
    · have hc : c ∈ useridTerminatorChars := mem_append_right _ hblank
      by_cases hne : name = []
      · exact hnone hne hc
      · exact .last name (words t) (hwords hne hc) (accountList_of_end hne hname (by rintro d ⟨⟩; exact .inl hblank))
    · exact listView_comment hname
    · have hc : ',' ∈ useridTerminatorChars := by decide
      by_cases hne : name = []
      · exact hnone hne hc
      · exact .more name t rfl (hwords hne hc) (accountList_comma hne hname)

variable {account : List Char}

/-- An account of the list is a word, unless a comment follows it directly. -/
theorem mem_words_of_mem_accountList (h : account ∈ accountList rest) :
    account ∈ words rest ∨ ∃ word ∈ words rest, account ++ ['#'] <+: word := by
  induction hn : rest.length using Nat.strong_induction_on generalizing rest with
  | _ n ih =>
    cases listView rest with
    | none _ hlist =>
      rw [hlist] at h
      cases h
    | comment name word hword hcomment hlist =>
      obtain rfl := hlist account h
      exact .inr ⟨word, mem_of_mem_head? hword, hcomment⟩
    | last name more hwords hlist =>
      rw [hlist, mem_singleton] at h
      rw [hwords, h]
      exact .inl mem_cons_self
    | more name t hrest hwords hlist =>
      rw [hlist] at h
      have hlt : t.length < n := by
        rw [← hn, hrest, length_append, length_cons]
        omega
      rw [hwords]
      rcases mem_cons.mp h with rfl | h
      · exact .inl mem_cons_self
      · rcases ih _ hlt h rfl with hmem | ⟨word, hword, hcomment⟩
        · exact .inl (mem_cons_of_mem _ hmem)
        · exact .inr ⟨word, mem_cons_of_mem _ hword, hcomment⟩

/-- The names on the list are not empty and hold neither a comma nor a comment character. -/
theorem of_mem_accountList (h : account ∈ accountList rest) : account ≠ [] ∧ ',' ∉ account ∧ '#' ∉ account := by
  have hpart := of_mem_splitOnP (takeWhile_subset _ h)
  refine ⟨by simpa using mem_takeWhile_imp h, fun hcomma => ?_, fun hcomment => ?_⟩
  · exact absurd (hpart _ hcomma).2 (by decide)
  · have htext := mem_takeWhile_imp (hpart _ hcomment).1
    exact absurd htext (by decide)

end List

/-! ## 3. The accounts that the code takes from a line -/

section Userids

variable {rest : List Char}

theorem parseUserids_eq_words (h : ∀ c ∈ rest.head?, c ∉ useridTerminatorChars) : parseUserids rest = words rest :=
  tokens_cutter fun c hc => decide_eq_false (h c hc)

theorem parseUserids_of_comma (h : rest.head? = some ',') : ∃ more, parseUserids rest = [] :: more := by
  obtain ⟨t, rfl⟩ := head?_eq_some_iff.mp h
  exact ⟨_, tokens_cutter_cons_of_sep (by decide)⟩

/-- Where the words grant only what is on the list, the list is found whole. -/
theorem GrantsList.mem_iff (h : GrantsList rest) (haccount : beginsWithDot account = false) :
    account ∈ words rest ↔ account ∈ accountList rest := by
  constructor
  · intro hmem
    rcases h.listed account hmem with hdot | hlist
    · rw [haccount] at hdot
      cases hdot
    · exact hlist
  · intro hmem
    rcases mem_words_of_mem_accountList hmem with hword | ⟨word, hword, hpre⟩
    · exact hword
    · -- the word goes on with the comment, so it is not on the list, and it is no pool, as it begins like the account
      exfalso
      have hcomment : '#' ∈ word := hpre.subset (by simp)
      rcases h.listed word hword with hdot | hlist
      · have hhead : word.head? = account.head? := by
          obtain ⟨t, rfl⟩ := hpre
          obtain ⟨c, s, rfl⟩ := exists_cons_of_ne_nil (of_mem_accountList hmem).1
          rfl
        rw [beginsWithDot, hhead] at hdot
        rw [beginsWithDot, hdot] at haccount
        cases haccount
      · exact (of_mem_accountList hlist).2.2 hcomment

theorem GrantsList.head?_eq (h : GrantsList rest) (hblank : ∀ c ∈ rest.head?, c ∉ whitespaceChars) :
    (words rest).head? = (accountList rest).head? := by
  cases listView rest with
  | none hnone hlist =>
    have hnil : rest = [] := by
      cases rest with
      | nil => rfl
      | cons c t =>
        rcases mem_append.mp (hnone c rfl) with hc | hc
        · obtain rfl := mem_singleton.mp hc
          exact absurd rfl h.noComma
        · exact absurd hc (hblank c rfl)
    subst hnil
    rfl
  | comment name word hword hpre hlist =>
    exfalso
    have hcomment : '#' ∈ word := hpre.subset (by simp)
    rcases h.listed word (mem_of_mem_head? hword) with hdot | hmem
    · rw [h.noPool word hword] at hdot
      cases hdot
    · exact (of_mem_accountList hmem).2.2 hcomment
  | last _ _ hwords hlist | more _ _ _ hwords hlist => rw [hwords, hlist]; rfl

end Userids

/-! ## 4. The lookups -/

section Lookup

variable {dnCmp : List Char → List Char → Int} {dir : Gridmapdir} {file dn rest : List Char}

theorem findLine_eq (ls : List (List Char)) : (findLine dnCmp dn ls).map (·.userIds) =
      (((ls.filterMap fun line => (parseDn line).toOption.join).find? fun entry => dnCmp dn entry.1 = 0).map
        fun entry => parseUserids entry.2) := by
  induction ls with
  | nil => rfl
  | cons line ls ih =>
    rw [findLine, parseLine]
    cases hdn : parseDn line with
    | error e => simpa [Except.toOption, hdn] using ih
    | ok entry =>
      cases entry with
      | none => simpa [Except.toOption, hdn] using ih
      | some entry =>
        by_cases hcmp : dnCmp dn entry.1 = 0
        · simp [Except.toOption, hdn, hcmp]
        · simpa [Except.toOption, hdn, hcmp] using ih

theorem findDn_eq (dnCmp : List Char → List Char → Int) (file dn : List Char) :
    (findDn dnCmp file dn).map (·.userIds) = (accountText dnCmp file dn).map parseUserids := by
  rw [findDn, findLine_eq, accountText, entries, Option.map_map]
  rfl

/-- The text behind a DN begins with no blank. -/
theorem no_blank_of_parseDn {line : List Char} (h : parseDn line = .ok (some (dn, rest))) :
    ∀ c ∈ rest.head?, c ∉ whitespaceChars := by
  have hskip : ∃ text, rest = skipWhitespace text := by
    unfold parseDn at h
    split at h
    · cases h
    next c line hline =>
      split_ifs at h with hcomment hquote
      · cases h
      · split at h
        · cases h
        · cases h
          exact ⟨_, rfl⟩
      · split at h
        · cases h
        · cases h
          exact ⟨_, rfl⟩
  obtain ⟨text, rfl⟩ := hskip
  intro c hc
  exact of_decide_eq_false (eq_false_of_mem_head?_dropWhile c hc)

theorem no_blank_of_accountText (h : accountText dnCmp file dn = some rest) : ∀ c ∈ rest.head?, c ∉ whitespaceChars := by
  obtain ⟨entry, hfind, rfl⟩ := Option.map_eq_some_iff.mp h
  obtain ⟨line, -, hline⟩ := mem_filterMap.mp (mem_of_find?_eq_some hfind)
  cases hdn : parseDn line with
  | error e =>
    rw [hdn] at hline
    cases hline
  | ok parsed =>
    rw [hdn] at hline
    have hparsed : parsed = some entry := hline
    rw [hparsed] at hdn
    exact no_blank_of_parseDn hdn

theorem exists_findDn (h : accountText dnCmp file dn = some rest) :
    ∃ dn', findDn dnCmp file dn = some ⟨dn', parseUserids rest⟩ := by
  have hmap := findDn_eq dnCmp file dn
  rw [h] at hmap
  obtain ⟨gline, hfind, hids⟩ := Option.map_eq_some_iff.mp hmap
  refine ⟨gline.dn, ?_⟩
  rw [hfind, ← hids]

theorem followsFormat_of_none (h : accountText dnCmp file dn = none) : FollowsFormat dnCmp file dn := by
  have hfind : findDn dnCmp file dn = none := by
    have hmap := findDn_eq dnCmp file dn
    rw [h] at hmap
    exact Option.map_eq_none_iff.mp hmap
  intro dir
  simp [userok, gridmap, accounts, hfind, h]

section Found

variable (hrest : accountText dnCmp file dn = some rest)
include hrest

section

variable (hfirst : ∀ first ∈ (parseUserids rest).head?, beginsWithDot first = false)

include hfirst

theorem userok_iff (userid : List Char) : userok dnCmp dir file dn userid = true ↔ userid ∈ parseUserids rest := by
  obtain ⟨dn', hfind⟩ := exists_findDn hrest
  cases hids : parseUserids rest with
  | nil => simp [userok, hfind, hids]
  | cons first more =>
    have hpool : beginsWithDot first = false := hfirst first (by rw [hids]; rfl)
    simp [userok, hfind, hids, hpool, @eq_comm _ userid]

theorem gridmap_eq : gridmap dnCmp dir file dn = (parseUserids rest).head? := by
  obtain ⟨dn', hfind⟩ := exists_findDn hrest
  cases hids : parseUserids rest with
  | nil => simp [gridmap, hfind, hids]
  | cons first more =>
    have hpool : beginsWithDot first = false := hfirst first (by rw [hids]; rfl)
    simp [gridmap, hfind, hids, hpool]

end

theorem userok_pool {first : List Char} (hhead : first ∈ (parseUserids rest).head?) (hfirst : beginsWithDot first = true)
    (userid : List Char) : userok dnCmp dir file dn userid = dir.userok dn userid := by
  obtain ⟨dn', hfind⟩ := exists_findDn hrest
  obtain ⟨more, hids⟩ := head?_eq_some_iff.mp hhead
  simp [userok, hfind, hids, hfirst]

theorem accounts_eq : accounts dnCmp file dn = accountList rest := by rw [accounts, hrest]

theorem followsFormat_of_grantsList (h : GrantsList rest) : FollowsFormat dnCmp file dn := by
  have hblank := no_blank_of_accountText hrest
  have hwords : parseUserids rest = words rest := by
    refine parseUserids_eq_words fun c hc hterm => ?_
    rcases mem_append.mp hterm with hcomma | hwhite
    · exact h.noComma (mem_singleton.mp hcomma ▸ hc)
    · exact hblank c hc hwhite
  have hfirst : ∀ first ∈ (parseUserids rest).head?, beginsWithDot first = false := by
    rw [hwords]
    exact h.noPool
  intro dir
  refine ⟨fun userid huserid => ?_, ?_⟩
  · rw [userok_iff hrest hfirst, accounts_eq hrest, hwords]
    exact h.mem_iff huserid
  · rw [gridmap_eq hrest hfirst, accounts_eq hrest, hwords]
    exact h.head?_eq hblank

theorem grantsList_of_followsFormat (h : FollowsFormat dnCmp file dn) : GrantsList rest := by
  rw [FollowsFormat, accounts_eq hrest] at h
  -- pools that give out every account, also one that no list can hold
  have hpool : ∀ first ∈ (parseUserids rest).head?, beginsWithDot first = false := by
    intro first hhead
    by_contra hdot
    have hok := (h ⟨fun _ _ => true, fun _ _ => none⟩).1 [','] rfl
    rw [userok_pool hrest hhead (Bool.not_eq_false _ ▸ hdot)] at hok
    exact (of_mem_accountList (hok.mp rfl)).2.1 mem_cons_self
  have hgranted : ∀ userid ∈ parseUserids rest, beginsWithDot userid = true ∨ userid ∈ accountList rest := by
    intro userid hmem
    cases hdot : beginsWithDot userid with
    | true => exact .inl rfl
    | false =>
      have hok := (h ⟨fun _ _ => true, fun _ _ => none⟩).1 userid hdot
      rw [userok_iff hrest hpool] at hok
      exact .inr (hok.mp hmem)
  have hcomma : rest.head? ≠ some ',' := by
    intro hhead
    obtain ⟨more, hids⟩ := parseUserids_of_comma hhead
    rcases hgranted [] (hids ▸ mem_cons_self) with hdot | hlist
    · cases hdot
    · exact (of_mem_accountList hlist).1 rfl
  have hwords : parseUserids rest = words rest := by
    refine parseUserids_eq_words fun c hc hterm => ?_
    rcases mem_append.mp hterm with hsep | hwhite
    · exact hcomma (mem_singleton.mp hsep ▸ hc)
    · exact no_blank_of_accountText hrest c hc hwhite
  exact ⟨hcomma, hwords ▸ hpool, hwords ▸ hgranted⟩

end Found

/-- **The lookups follow the documented format of the file for a DN exactly when its first line grants nothing but its
account list.** -/
theorem followsFormat_iff (dnCmp : List Char → List Char → Int) (file dn : List Char) :
    FollowsFormat dnCmp file dn ↔ ∀ rest ∈ accountText dnCmp file dn, GrantsList rest := by
  constructor
  · intro h rest hrest
    exact grantsList_of_followsFormat hrest h
  · intro h
    cases hrest : accountText dnCmp file dn with
    | none => exact followsFormat_of_none hrest
    | some rest => exact followsFormat_of_grantsList hrest (h rest hrest)

/-- A word of a comment is an account. -/
def commentedLine : List Char := "\"/CN=x\" alice # not bob\n".toList

/-- **`bob` is let in, though the line has only the account `alice`.** -/
theorem userok_commentedLine :
    userok (fun a b => if a = b then 0 else 1) ⟨fun _ _ => false, fun _ _ => none⟩ commentedLine "/CN=x".toList
        "bob".toList = true ∧
      accounts (fun a b => if a = b then 0 else 1) commentedLine "/CN=x".toList = ["alice".toList] ∧
      ¬ FollowsFormat (fun a b => if a = b then 0 else 1) commentedLine "/CN=x".toList := by
  have hok : userok (fun a b => if a = b then 0 else 1) ⟨fun _ _ => false, fun _ _ => none⟩ commentedLine "/CN=x".toList
      "bob".toList = true := by decide
  have haccounts : accounts (fun a b => if a = b then 0 else 1) commentedLine "/CN=x".toList = ["alice".toList] := by decide
  refine ⟨hok, haccounts, fun h => ?_⟩
  have hmem := ((h ⟨fun _ _ => false, fun _ _ => none⟩).1 "bob".toList rfl).mp hok
  rw [haccounts] at hmem
  exact absurd hmem (by decide)

end Lookup

end Gct.Gridmap
