/-
# Restricted paths: reading the list

`globus_l_gfs_data_parse_restricted_paths` reads a text such as `RW/home,N/home/private`: parts between
commas, each some letters and a path.  A path without letters may be read and written, and one `N`
outweighs all other letters.  A part may name another path behind a colon, by which the clients see it,
and `%` followed by two hexadecimal digits stands for a character.

The entries come out in the reverse order of `strcmp`, where a wildcard counts less than every other
character (`parseRestrictedPaths_entries`).
-/
import Gct.GlobusList
import Gct.Lib.Buffer
import Mathlib.Data.String.Basic

namespace Gct.RestrictedPaths

open Buffer List

/-! ## 1. Entries -/

/-- The flags `GFS_L_READ`, `GFS_L_WRITE`, `GFS_L_LIST`, `GFS_L_DIR` and `GFS_L_NONE`. -/
structure Access where
  read : Bool := false
  write : Bool := false
  list : Bool := false
  dir : Bool := false
  none : Bool := false
  deriving DecidableEq, Repr

/-- `a & b`, as a condition. -/
def Access.meets (a b : Access) : Bool :=
  a.read && b.read || a.write && b.write || a.list && b.list || a.dir && b.dir || a.none && b.none

/-- `globus_l_gfs_alias_ent_t` -/
structure AliasEnt where
  aliasPath : List Char
  realpath : Option (List Char)
  access : Access
  deriving DecidableEq, Repr

/-- What `globus_l_gfs_data_session_t` says about paths.  `realpath` is the function of the storage
interface, if it has one and symbolic links are not to be followed. -/
structure Session where
  activeRpList : List AliasEnt
  rpList : List AliasEnt
  chrootPath : Option (List Char)
  homeDir : List Char
  realpath : Option (List Char → Option (List Char))

def isWildcard (c : Char) : Bool := c = '[' || c = '*' || c = '?'

/-! ## 2. Reading -/

/-- `isxdigit`, with the value of the digit. -/
def hexDigit (c : Char) : Option Nat :=
  if '0' ≤ c ∧ c ≤ '9' then some (c.toNat - '0'.toNat)
  else if 'a' ≤ c ∧ c ≤ 'f' then some (c.toNat - 'a'.toNat + 10)
  else if 'A' ≤ c ∧ c ≤ 'F' then some (c.toNat - 'A'.toNat + 10)
  else none

/-- `globus_url_string_hex_decode` -/
def urlStringHexDecode : List Char → List Char
  | '%' :: '%' :: s => '%' :: urlStringHexDecode s
  | '%' :: a :: b :: s =>
    match hexDigit a, hexDigit b with
    | some x, some y => Char.ofNat (16 * x + y) :: urlStringHexDecode s
    | _, _ => '%' :: urlStringHexDecode (a :: b :: s)
  | c :: s => c :: urlStringHexDecode s
  | [] => []

/-- The letters at the beginning of an entry, and the path behind them. -/
def readAccess (entStr : List Char) : List Char → Access → Except String (Access × List Char)
  | [], access => .ok (access, [])
  | c :: ptr, access =>
    if c = 'r' ∨ c = 'R' then readAccess entStr ptr { access with read := true }
    else if c = 'w' ∨ c = 'W' then readAccess entStr ptr { access with write := true }
    else if c = 'n' ∨ c = 'N' then readAccess entStr ptr { access with none := true }
    else if c ∈ ['/', '~', '$', '*', '?', '['] then
      .ok (if access = {} then { read := true, write := true } else access, c :: ptr)
    else .error ("Path restriction entries must be full paths, prefixed only with R, W, or N." ++
      "The entry '" ++ String.ofList entStr ++ "' is invalid.\n")

/-- Every entry may be listed, but `N` leaves nothing else. -/
def finishAccess (access : Access) : Access :=
  if access.none then { none := true } else { access with list := true }

/-- `GFS_RP_LEAD_CHARS`; `strchr` also finds the end of the text. -/
def isLead (aliasPath : List Char) : Bool :=
  match aliasPath with
  | [] => true
  | c :: _ => c ∈ ['/', '~', '$', '*', '[', '?']

def escapeGlob (s : List Char) : List Char :=
  s.flatMap fun c => if isWildcard c || c = ']' || c = '\\' then ['\\', c] else [c]

variable (session : Session)

def chrootPathEsc (isVirtual : Bool) : Option (List Char) :=
  session.chrootPath.map fun root => if isVirtual && root.any isWildcard then escapeGlob root else root

/-- The path and the path behind a colon, by which it is known. -/
def splitAlias (ptr : List Char) : List Char × Option (List Char) :=
  match CText.strchr ':' ptr with
  | some aliasPath => (cstr (urlStringHexDecode aliasPath.tail),
      some (cstr (urlStringHexDecode (ptr.take (ptr.length - aliasPath.length)))))
  | none => (cstr (urlStringHexDecode ptr), none)

/-- Where an entry that the client set is in the file system. -/
def rebasedAlias (aliasPath : List Char) : List Char :=
  if aliasPath.head? = some '~' then
    (if session.chrootPath.isSome then ['/'] else session.homeDir) ++ aliasPath.tail
  else
    match chrootPathEsc session true with
    | some root => root ++ aliasPath
    | none => aliasPath

def virtualAlias (aliasPath : List Char) : List Char :=
  let tmpPath := rebasedAlias session aliasPath
  if tmpPath.length > 1 ∧ tmpPath.getLast? = some '/' then tmpPath.dropLast else tmpPath

/-- One entry; `none` if it is left out. -/
def parseEntry (isVirtual : Bool) (entStr : List Char) : Except String (Option AliasEnt) :=
  match readAccess entStr entStr {} with
  | .error e => .error e
  | .ok (access, ptr) =>
    let (aliasPath, realpath) := splitAlias ptr
    if isLead aliasPath then
      if isVirtual then .ok (some ⟨virtualAlias session aliasPath, none, finishAccess access⟩)
      else .ok (some ⟨aliasPath, realpath, finishAccess access⟩)
    else .ok none

/-- The loop over the entries: each goes to the front of `tmpList`. -/
def parseEntries (session : Session) (isVirtual : Bool) :
    List (List Char) → List AliasEnt → Except String (List AliasEnt)
  | [], tmpList => .ok tmpList
  | entStr :: list, tmpList =>
    match parseEntry session isVirtual entStr with
    | .error e => .error e
    | .ok none => parseEntries session isVirtual list tmpList
    | .ok (some ent) => parseEntries session isVirtual list (ent :: tmpList)

/-- The first wildcard becomes a low character. -/
def sortKey : List Char → List Char
  | [] => []
  | c :: s =>
    if c = '*' then Char.ofNat 1 :: s
    else if c = '?' then Char.ofNat 2 :: s
    else if c = '[' then Char.ofNat 3 :: s
    else c :: sortKey s

/-- `globus_list_cmp_alias_ent` -/
def listCmpAliasEnt (a b : AliasEnt) : Bool := decide (sortKey b.aliasPath ≤ sortKey a.aliasPath)

/-- `globus_l_gfs_data_parse_restricted_paths` -/
def parseRestrictedPaths (restrictPaths : List Char) (isVirtual : Bool) :
    Except String (List AliasEnt) :=
  match parseEntries session isVirtual (listFromString restrictPaths ',' []) [] with
  | .error e => .error e
  | .ok [] => .error "No valid paths added to restricted list."
  | .ok tmpList => .ok (listSort listCmpAliasEnt tmpList)

/-! ## 3. The order -/

theorem sortKey_eq {s : List Char} (h : s.any isWildcard = false) : sortKey s = s := by
  induction s with
  | nil => rfl
  | cons c s ih =>
    rw [any_cons, Bool.or_eq_false_iff] at h
    simp only [isWildcard, Bool.or_eq_false_iff, decide_eq_false_iff_not] at h
    rw [sortKey, if_neg h.1.1.2, if_neg h.1.2, if_neg h.1.1.1, ih h.2]

theorem pairwise_listSort_cmp (ents : List AliasEnt) :
    (listSort listCmpAliasEnt ents).Pairwise fun a b => sortKey b.aliasPath ≤ sortKey a.aliasPath := by
  have h := @pairwise_listSort _ listCmpAliasEnt (fun a b c hab hbc => by
      rw [listCmpAliasEnt, decide_eq_true_eq] at hab hbc ⊢
      exact le_trans hbc hab)
    (fun a b => by
      rw [listCmpAliasEnt, listCmpAliasEnt, Bool.or_eq_true, decide_eq_true_eq, decide_eq_true_eq]
      exact le_total _ _) ents
  exact h.imp fun hab => of_decide_eq_true hab

/-! ## 4. Entries as they are written -/

/-- Letters and an absolute path, which may hold characters in hexadecimal. -/
structure Entry where
  letters : List Char
  text : List Char
  letter : ∀ c ∈ letters, c ∈ ['r', 'R', 'w', 'W', 'n', 'N']
  slash : text.head? = some '/'
  colon : ':' ∉ text

namespace Entry

variable (e : Entry)

def written : List Char := e.letters ++ e.text

def path : List Char := cstr (urlStringHexDecode e.text)

/-- There is no wildcard and no `/` at the end, unless the path is the root. -/
def Plain : Prop :=
  e.path.any isWildcard = false ∧ (e.path ≠ ['/'] → e.path.getLast? ≠ some '/')

def denies : Bool := e.letters.any fun c => c = 'n' || c = 'N'

def reads : Bool := e.letters.isEmpty || e.letters.any fun c => c = 'r' || c = 'R'

def writes : Bool := e.letters.isEmpty || e.letters.any fun c => c = 'w' || c = 'W'

/-- The entry of the list. -/
def ent : AliasEnt :=
  ⟨e.path, none, if e.denies then { none := true } else { read := e.reads, write := e.writes, list := true }⟩

@[simp] theorem ent_aliasPath : e.ent.aliasPath = e.path := rfl

theorem path_slash : e.path.head? = some '/' := by
  obtain ⟨s, hs⟩ := head?_eq_some_iff.mp e.slash
  rw [path, hs, urlStringHexDecode, cstr, takeWhile_cons_of_pos (by decide)]
  · rfl
  all_goals simp

end Entry

theorem readAccess_letters (entStr s : List Char) :
    ∀ (letters : List Char) (access : Access), (∀ c ∈ letters, c ∈ ['r', 'R', 'w', 'W', 'n', 'N']) →
      readAccess entStr (letters ++ s) access = readAccess entStr s { access with
          read := access.read || letters.any fun c => c = 'r' || c = 'R'
          write := access.write || letters.any fun c => c = 'w' || c = 'W'
          none := access.none || letters.any fun c => c = 'n' || c = 'N' }
  | [], access, _ => by simp
  | c :: letters, access, h => by
    have hc := h c mem_cons_self
    have ih := fun access => readAccess_letters entStr s letters access fun d hd => h d (mem_cons_of_mem c hd)
    rw [cons_append, readAccess]
    simp only [mem_cons, not_mem_nil, or_false] at hc
    rcases hc with rfl | rfl | rfl | rfl | rfl | rfl <;> simp [ih]

/-- Without letters no flag is set, and with letters one is. -/
theorem letters_flags (e : Entry) :
    ({ read := e.letters.any fun c => c = 'r' || c = 'R', write := e.letters.any fun c => c = 'w' || c = 'W',
       none := e.letters.any fun c => c = 'n' || c = 'N' } : Access) = {} ↔ e.letters = [] := by
  constructor
  · intro h
    rw [Access.mk.injEq] at h
    obtain ⟨hr, hw, -, -, hn⟩ := h
    refine eq_nil_iff_forall_not_mem.mpr fun c hc => ?_
    have hletter := e.letter c hc
    have hr := any_eq_false.mp hr c hc
    have hw := any_eq_false.mp hw c hc
    have hn := any_eq_false.mp hn c hc
    simp only [Bool.or_eq_true, decide_eq_true_eq, not_or] at hr hw hn
    simp [hr, hw, hn] at hletter
  · intro h
    rw [h]
    rfl

/-- The letters of an entry make its access. -/
theorem readAccess_written (e : Entry) : ∃ access,
    readAccess e.written e.written {} = .ok (access, e.text) ∧ finishAccess access = e.ent.access := by
  obtain ⟨s, hs⟩ := head?_eq_some_iff.mp e.slash
  have hread := readAccess_letters e.written e.text e.letters {} e.letter
  rw [← Entry.written] at hread
  rw [hread, hs, readAccess]
  refine ⟨_, rfl, ?_⟩
  simp only [Bool.false_or]
  have hent : e.ent.access =
      if e.denies then { none := true } else { read := e.reads, write := e.writes, list := true } := rfl
  rw [hent]
  by_cases hnil : e.letters = []
  · simp [finishAccess, Entry.denies, Entry.reads, Entry.writes, hnil]
  · have hempty : e.letters.isEmpty = false := by simpa using hnil
    rw [if_neg (mt (letters_flags e).mp hnil), finishAccess, Entry.reads, Entry.writes, hempty]
    cases hdenies : e.denies with
    | true | false => simp only [Entry.denies] at hdenies; simp [hdenies]

variable {session : Session}

theorem virtualAlias_eq {e : Entry} (hchroot : session.chrootPath = none) (h : e.Plain) :
    virtualAlias session e.path = e.path := by
  have hrebased : rebasedAlias session e.path = e.path := by
    rw [rebasedAlias, e.path_slash, if_neg (by decide), chrootPathEsc, hchroot]
    rfl
  rw [virtualAlias, hrebased]
  refine if_neg fun hlast => h.2 (fun hpath => ?_) hlast.2
  rw [hpath] at hlast
  exact absurd hlast.1 (by decide)

theorem parseEntry_written {e : Entry} (hchroot : session.chrootPath = none)
    (h : e.Plain) (isVirtual : Bool) : parseEntry session isVirtual e.written = .ok (some e.ent) := by
  obtain ⟨access, hread, hfinish⟩ := readAccess_written e
  have hsplit : splitAlias e.text = (e.path, none) := by
    rw [splitAlias, CText.strchr_eq_none_iff.mpr e.colon]
    rfl
  have hlead : isLead e.path = true := by
    obtain ⟨s, hs⟩ := head?_eq_some_iff.mp e.path_slash
    rw [hs]
    rfl
  simp only [parseEntry, hread, hsplit, hlead, if_true, hfinish, virtualAlias_eq hchroot h, ite_self]
  rfl

theorem parseEntries_written (hchroot : session.chrootPath = none) (isVirtual : Bool) :
    ∀ (es : List Entry) (tmpList : List AliasEnt), (∀ e ∈ es, e.Plain) →
      parseEntries session isVirtual (es.map Entry.written) tmpList = .ok ((es.map Entry.ent).reverse ++ tmpList)
  | [], _, _ => rfl
  | e :: es, tmpList, h => by
    rw [map_cons, parseEntries, parseEntry_written hchroot (h e mem_cons_self)]
    simp only
    rw [parseEntries_written hchroot isVirtual es _ fun d hd => h d (mem_cons_of_mem e hd)]
    simp

/-- **Plain entries are all taken, and come out sorted.** -/
theorem parseRestrictedPaths_written {restrictPaths : List Char} {es : List Entry}
    (hchroot : session.chrootPath = none) (hplain : ∀ e ∈ es, e.Plain) (hne : es ≠ [])
    (hparts : listFromString restrictPaths ',' [] = (es.map Entry.written).reverse) (isVirtual : Bool) :
    parseRestrictedPaths session restrictPaths isVirtual = .ok (listSort listCmpAliasEnt (es.map Entry.ent)) := by
  obtain ⟨e, es, rfl⟩ := exists_cons_of_ne_nil hne
  have hentries := parseEntries_written hchroot isVirtual (e :: es).reverse [] fun d hd =>
    hplain d (mem_reverse.mp hd)
  rw [map_reverse, ← hparts, map_reverse, reverse_reverse, append_nil] at hentries
  rw [parseRestrictedPaths, hentries]
  rfl

end Gct.RestrictedPaths
