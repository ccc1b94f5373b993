/-
# Requests to the fork starter

A request is a line `100;TAG;ATTRIBUTE=VALUE;...` in which a backslash takes the meaning from the character behind it.
`globus_l_fork_parse_task` works in the buffer in which the line was read: it ends fields, attributes and values with NUL
bytes and removes escapes in place, so what is left in the buffer is part of the result (`region`).

A pointer that steps over an escape at the very end of the line steps over its NUL too; the result is then `none`.
-/
import Gct.Lib.Buffer
import Gct.Lib.Text

namespace Gct.Fork

abbrev Text := List Char

open Buffer (nul cstr)

/-! ## 1. Attributes -/

/-- A pointer to memory that belongs to the task. -/
inductive Owned (α : Type) where
  | null
  | held (value : α)
  | freed
  deriving DecidableEq, Repr

/-- `free`, for a pointer that may be `NULL`; memory cannot be freed twice. -/
def Owned.free {α : Type} : Owned α → Option (Owned α)
  | .null => some .null
  | .held _ => some .freed
  | .freed => none

/-- The attributes in `globus_l_fork_task_t`.  The counts of lists include the `NULL` at their end. -/
structure Attributes where
  count : Int := 0
  directory : Option Text := none
  environment : Owned (List Text) := .null
  environmentCount : Nat := 0
  executable : Option Text := none
  arguments : Owned (List Text) := .null
  argumentCount : Nat := 0
  stdinPath : Option Text := none
  stdoutPath : Option (List Text) := none
  stdoutCount : Nat := 0
  stderrPath : Option (List Text) := none
  stderrCount : Nat := 0
  deriving DecidableEq, Repr

/-! ## 2. Values -/

/-- The loop of `globus_l_fork_unescape`, over a value with its NUL. -/
def unescapeLoop : Nat → Nat → Nat → Text → Text
  | 0, _, _, value => value
  | fuel + 1, i, len, value =>
    if i < len then
      if value[i]? = some '\\' then
        let moved := if value[i + 1]? ∈ [some '\\', some ';', some ',', some 'n', some '='] then
            Buffer.memmove value i (i + 1) (len - i)
          else value
        let replaced := if moved[i]? = some 'n' then moved.set i '\n' else moved
        unescapeLoop fuel (i + 1) (len - 1) replaced
      else unescapeLoop fuel (i + 1) len value
    else value

variable (value : Text) (attributes : Attributes)

/-- `globus_l_fork_unescape`: the bytes of the value afterwards. -/
def unescape : Text :=
  (unescapeLoop value.length 0 value.length (value ++ [nul])).take value.length

/-- The parts between separators that are not escaped. -/
def splitEscaped (sep : Char) (part : Text) : Text → List Text
  | [] => [part]
  | ['\\'] => [part ++ ['\\']]
  | '\\' :: c :: s => splitEscaped sep (part ++ ['\\', c]) s
  | c :: s => if c = sep then part :: splitEscaped sep [] s else splitEscaped sep (part ++ [c]) s

/-- `globus_l_fork_split_string`: the strings, which have NUL bytes between them in the buffer. -/
def splitString : List Text := splitEscaped ',' [] value

/-- The bytes of the strings of a list. -/
def joined (parts : List Text) : Text := [nul].intercalate parts

def atoi : Int :=
  match CText.scanInt (-2 ^ 31) (2 ^ 31 - 1) value with
  | none => 0
  | some (n, _) => n

/-- `globus_l_fork_set_attribute`: the attributes, unless it fails, and the bytes of the value afterwards. -/
def setAttribute (attr value : Text) : Option Attributes × Text :=
  let parts := splitString value
  let strings := parts.map fun part => cstr (unescape part)
  if attr = "directory".toList then (some { attributes with directory := some value }, value)
  else if attr = "environment".toList then
    (some { attributes with environment := .held parts, environmentCount := parts.length + 1 }, joined parts)
  else if attr = "count".toList then
    (some { attributes with count := atoi (cstr (unescape value)) }, unescape value)
  else if attr = "executable".toList then
    (some { attributes with executable := some (cstr (unescape value)) }, unescape value)
  else if attr = "arguments".toList then
    (some { attributes with arguments := .held strings, argumentCount := parts.length + 1 }, joined (parts.map unescape))
  else if attr = "stdin".toList then
    (some { attributes with stdinPath := some (cstr (unescape value)) }, unescape value)
  else if attr = "stdout".toList then
    (some { attributes with stdoutPath := some strings, stdoutCount := parts.length + 1 }, joined (parts.map unescape))
  else if attr = "stderr".toList then
    (some { attributes with stderrPath := some strings, stderrCount := parts.length + 1 }, joined (parts.map unescape))
  else (none, value)

/-! ## 3. Lines -/

/-- The attribute and the value at the first `=` that is not escaped. -/
def splitValue (attr : Text) : Text → Option (Text × Text)
  | [] => none
  | ['\\'] => none
  | '\\' :: c :: s => splitValue (attr ++ ['\\', c]) s
  | c :: s => if c = '=' then some (attr, s) else splitValue (attr ++ [c]) s

/-- A field that sets an attribute, with its bytes afterwards. -/
def parseAttribute (field : Text) : Option Attributes × Text :=
  match splitValue [] field with
  | none => (if field = [] then some attributes else none, field)
  | some ([], value) => (some attributes, nul :: value)
  | some (attr, value) =>
    let set := setAttribute attributes attr value
    (set.1, attr ++ nul :: set.2)

/-- What `globus_l_fork_parse_task` finds in a line. -/
structure Parsed where
  good : Bool
  /-- The pointer to the tag, relative to the beginning of the line. -/
  tag : Option Nat
  attributes : Attributes
  /-- The bytes of the line afterwards. -/
  region : Text
  deriving DecidableEq, Repr

/-- The loop of `globus_l_fork_parse_task` and the field behind it.  `done` are the bytes of the fields that are parsed,
`field` is the beginning of the field in which the loop is. -/
def parseLoop (fieldno : Nat) (tag : Option Nat) (attributes : Attributes) (done field : Text) : Text → Option Parsed
  | [] =>
    let parsed := parseAttribute attributes field
    some ⟨parsed.1.isSome, tag, parsed.1.getD attributes, done ++ parsed.2⟩
  | ['\\'] => none
  | '\\' :: c :: line => parseLoop fieldno tag attributes done (field ++ ['\\', c]) line
  | c :: line =>
    if c = ';' then
      match fieldno with
      | 0 =>
        if field ≠ "100".toList then some ⟨false, tag, attributes, done ++ field ++ nul :: line⟩
        else parseLoop 1 tag attributes (done ++ field ++ [nul]) [] line
      | 1 => parseLoop 2 (some done.length) attributes (done ++ field ++ [nul]) [] line
      | fieldno + 2 =>
        match parseAttribute attributes field with
        | (none, bytes) => some ⟨false, tag, attributes, done ++ bytes ++ nul :: line⟩
        | (some attributes, bytes) => parseLoop (fieldno + 3) tag attributes (done ++ bytes ++ [nul]) [] line
    else parseLoop fieldno tag attributes done (field ++ [c]) line

/-- `globus_l_fork_parse_task`, as far as it looks at the line. -/
def parseRequest (tag : Option Nat) (attributes : Attributes) (line : Text) : Option Parsed :=
  parseLoop 0 tag attributes [] [] line

/-- The tag, as it is printed. -/
def Parsed.tagText (parsed : Parsed) : Option Text := parsed.tag.map fun offset => cstr (parsed.region.drop offset)

end Gct.Fork
