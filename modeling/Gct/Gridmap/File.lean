/-
# The gridmap file

A gridmap file has a line for each subject name (DN) with the local accounts it may use.  `parse_line` takes a line apart
with steps of `strspn` and `strcspn`: the DN, in quotes or up to the first blank, and then the accounts.  A line that is
blank or a comment has no entry, and one that cannot be parsed is passed over by `find_dn`.

The accounts are cut at commas and blanks alike, up to the end of the line.
-/
import Gct.Lib.Buffer
import Gct.Lib.Hex
import Gct.Lib.Words

namespace Gct.Gridmap

/-! ## 1. Character classes -/

def whitespaceChars : List Char := [' ', '\t', '\n']
def quotingChars : List Char := ['"']
def escapingChars : List Char := ['\\']
def commentChars : List Char := ['#']
def useridSepChars : List Char := [',']
def useridTerminatorChars : List Char := useridSepChars ++ whitespaceChars

/-- The text behind the white space at its beginning. -/
def skipWhitespace (s : List Char) : List Char := s.dropWhile (· ∈ whitespaceChars)

/-! ## 2. Lines -/

/-- `globus_l_gss_assist_read_line`: a line with its newline, which the last one may lack.  The buffer is made larger by
`BUFSIZ` each time it is full, so there is no limit to the length of a line. -/
def readLine : Lexer Unit Char (List Char) where
  step _ stream := if stream.isEmpty then none
    else some (some (stream.takeWhile (· ≠ '\n') ++ (stream.dropWhile (· ≠ '\n')).take 1), (),
      (stream.dropWhile (· ≠ '\n')).drop 1)
  size _ stream := stream.length
  size_lt := by
    intro _ stream t _ rest h
    split at h
    · cases h
    next hne =>
      cases h
      have hpos : 0 < stream.length := List.length_pos_iff.mpr (by simpa using hne)
      have hle := (List.dropWhile_suffix (l := stream) (· ≠ '\n')).length_le
      rw [List.length_drop]
      omega

/-- The lines of the file as `parse_line` sees them. -/
def lines (file : List Char) : List (List Char) := (readLine.tokens () file).map Buffer.cstr

/-! ## 3. A line -/

def hexdigit (n : Nat) : Char := "0123456789ABCDEF".toList.getD (n % 16) '0'

/-- A character of the DN in the form in which names are compared. -/
def dnChar (c : Char) : List Char :=
  if c < ' ' ∨ '~' < c then ['\\', 'x', hexdigit (c.toNat / 16), hexdigit c.toNat] else [c]

def xdigitToValue (c : Char) : Nat := (CText.hexDigit c).getD 0

/-- The loop of `globus_i_gss_assist_gridmap_parse_globusid`; `escaped` says that a backslash stands before. -/
def parseGlobusid : Bool → List Char → List Char
  | _, [] => []
  | true, 'x' :: a :: b :: unparsed =>
    if CText.isHexDigit a ∧ CText.isHexDigit b then
      dnChar (Char.ofNat (16 * xdigitToValue a + xdigitToValue b)) ++ parseGlobusid false unparsed
    else 'x' :: parseGlobusid false (a :: b :: unparsed)
  | escaped, c :: unparsed =>
    if c ∈ escapingChars ∧ escaped = false then parseGlobusid true unparsed
    else dnChar c ++ parseGlobusid false unparsed

/-- The errors of `globus_i_gss_assist_gridmap_parse_line`. -/
inductive FormatError where
  | closingQuoteMissing
  | nothingFollowsDn
  deriving DecidableEq, Repr

/-- The text up to the first quote without a backslash before it, and the text behind that quote. -/
def closingQuote (before : Char) : List Char → Option (List Char × List Char)
  | [] => none
  | c :: line =>
    if c ∈ quotingChars ∧ before ∉ escapingChars then some ([], line)
    else (closingQuote c line).map fun (dn, rest) => (c :: dn, rest)

/-- The first half of `globus_i_gss_assist_gridmap_parse_line`: the DN and what stands behind it, or nothing for a line
without an entry. -/
def parseDn (line : List Char) : Except FormatError (Option (List Char × List Char)) :=
  match skipWhitespace line with
  | [] => .ok none
  | c :: line =>
    if c ∈ commentChars then .ok none
    else if c ∈ quotingChars then
      match closingQuote c line with
      | none => .error .closingQuoteMissing
      | some (dn, rest) => .ok (some (parseGlobusid false dn, skipWhitespace rest))
    else
      match (c :: line).dropWhile (· ∉ whitespaceChars) with
      | [] => .error .nothingFollowsDn
      | _ :: rest =>
        .ok (some (parseGlobusid false ((c :: line).takeWhile (· ∉ whitespaceChars)), skipWhitespace rest))

/-- The loop of `globus_i_gss_assist_gridmap_parse_line` over the rest of the line. -/
def parseUserids (rest : List Char) : List (List Char) :=
  (Words.cutter (· ∈ useridTerminatorChars)).tokens () rest

/-- `globus_i_gss_assist_gridmap_line_t`; no accounts stand for a `user_ids` that is `NULL`. -/
structure GridmapLine where
  dn : List Char
  userIds : List (List Char)
  deriving DecidableEq, Repr

/-- `globus_i_gss_assist_gridmap_parse_line`. -/
def parseLine (line : List Char) : Except FormatError (Option GridmapLine) :=
  match parseDn line with
  | .error e => .error e
  | .ok none => .ok none
  | .ok (some (dn, rest)) => .ok (some ⟨dn, parseUserids rest⟩)

/-! ## 4. Looking up a DN -/

section Lookup

-- `globus_i_gsi_cert_utils_dn_cmp`, which is 0 for names that are the same.
variable (dnCmp : List Char → List Char → Int)

/-- The loop of `globus_i_gss_assist_gridmap_find_dn`. -/
def findLine (dn : List Char) : List (List Char) → Option GridmapLine
  | [] => none
  | line :: rest =>
    match parseLine line with
    | .error _ => findLine dn rest
    | .ok none => findLine dn rest
    | .ok (some gline) => if dnCmp dn gline.dn = 0 then some gline else findLine dn rest

/-- `globus_i_gss_assist_gridmap_find_dn`. -/
def findDn (file dn : List Char) : Option GridmapLine := findLine dnCmp dn (lines file)

/-- The accounts of a pool: `gridmapdir_userok` and `gridmapdir_userid`, with what they find in the directory. -/
structure Gridmapdir where
  userok : List Char → List Char → Bool
  userid : List Char → List Char → Option (List Char)

def beginsWithDot (userid : List Char) : Bool := userid.head? = some '.'

variable (dir : Gridmapdir)

/-- `globus_gss_assist_userok`: true if it returns 0. -/
def userok (file globusid userid : List Char) : Bool :=
  match findDn dnCmp file globusid with
  | none => false
  | some gline =>
    match gline.userIds with
    | [] => false
    | first :: rest =>
      if beginsWithDot first then dir.userok globusid userid
      else (first :: rest).any (· = userid)

/-- `globus_gss_assist_gridmap`: the account if it returns 0. -/
def gridmap (file globusid : List Char) : Option (List Char) :=
  match findDn dnCmp file globusid with
  | none => none
  | some gline =>
    match gline.userIds with
    | [] => none
    | first :: _ => if beginsWithDot first then dir.userid globusid first.tail else some first

end Lookup

end Gct.Gridmap
