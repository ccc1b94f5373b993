/-
# The names of cache entries

A GASS cache keeps the copy of a URL in a directory whose name is made from the URL, and one for each tag
beside it whose name is made from tag and URL.  `globus_l_gass_cache_mangle` turns a string into a name: with
the option "html" it escapes what is not safe, as in a URL; with "md5" it takes the digest and cuts the first
bytes off as directories of their own.  The parts are joined with the separator of the cache, `/` in a normal
cache and `_` in a flat one.

MD5 is a parameter.  A `char` is signed: `sprintf` prints eight digits for one above 127, of which two are
left when the next character is written three bytes on.
-/
import Mathlib.Data.List.Basic

namespace Gct.GassCache

/-! ## 1. Mangling -/

/-- What is copied besides letters and digits. -/
def safe : List Char := "$-_.+".toList

def extra : List Char := "!*'(),".toList

/-- `%02x` of a byte. -/
def hexByte (b : UInt8) : List Char := [(b.toNat / 16).digitChar, (b.toNat % 16).digitChar]

/-- `%02x` of a `char` that has become an `int`. -/
def hexChar (c : UInt8) : List Char := if c < 128 then hexByte c else "ffffff".toList ++ hexByte c

/-- What remains of `%%%02x`: the next character goes three bytes behind this one. -/
def escape (c : UInt8) : List Char := ('%' :: hexChar c).take 3

/-- The character goes into the name as it is: letters, digits, safe and extra ones, and a separator that
does not follow another. -/
def isCopied (separator : Char) (mangleSeparator : Bool) (c : Char) : Bool :=
  c.isAlphanum || safe.contains c || extra.contains c || (separator == c && !mangleSeparator)

/-- The loop of `globus_l_gass_cache_mangle_html`. -/
def mangleHtmlLoop (separator : Char) : Bool → List UInt8 → List Char
  | _, [] => []
  | mangleSeparator, c :: string =>
    if isCopied separator mangleSeparator (Char.ofUInt8 c) then
      Char.ofUInt8 c :: mangleHtmlLoop separator (separator == Char.ofUInt8 c) string
    else
      escape c ++ mangleHtmlLoop separator (if separator ≠ Char.ofUInt8 c then false else mangleSeparator) string

def mangleHtml (separator : Char) (string : List UInt8) : List Char := mangleHtmlLoop separator false string

/-- Sixteen bytes. -/
structure Md5Digest where
  bytes : List UInt8
  length_bytes : bytes.length = 16
  deriving DecidableEq

/-- The bytes of the digest from index `i` on, with a separator behind the first `levels - 1` of them. -/
def hexLoop (separator : Char) (levels : Nat) : Nat → List UInt8 → List Char
  | _, [] => []
  | i, b :: bytes =>
    hexByte b ++ (if (i : Int) ≤ (levels : Int) - 2 then [separator] else []) ++ hexLoop separator levels (i + 1) bytes

section

variable (md5 : List UInt8 → Md5Digest)

def mangleMd5 (separator : Char) (levels : Nat) (string : List UInt8) : List Char :=
  hexLoop separator levels 0 (md5 string).bytes

/-! ## 2. The cache and its options -/

inductive CacheType
  | normal
  | flat
  deriving DecidableEq, Repr

/-- `directory_separator`. -/
def CacheType.separator : CacheType → Char
  | normal => '/'
  | flat => '_'

inductive CacheError
  | nameTooLong
  deriving DecidableEq, Repr

/-- A cache as `globus_gass_cache_open` leaves it. -/
structure Cache where
  cacheDirectoryPath : List Char
  cacheType : CacheType
  manglingOptions : Nat
  directoryLevels : Nat
  path_ne : cacheDirectoryPath ≠ []
  /-- `GLOBUS_L_GASS_CACHE_MAX_LEVELS`. -/
  levels_le : directoryLevels ≤ 4

variable (cache : Cache)

def Cache.separator : Char := cache.cacheType.separator

def buildFilename (dir : List Char) (separator : Char) (file uniq : Option (List Char)) : List Char :=
  dir ++ (match file with | some file => separator :: file | none => []) ++ uniq.getD []

def Cache.globalDirectoryPath : List Char :=
  buildFilename cache.cacheDirectoryPath '/' (some "global".toList) none

def Cache.localDirectoryPath : List Char :=
  buildFilename cache.cacheDirectoryPath '/' (some "local".toList) none

/-- `max_mangled_url` and `max_mangled_tag`: half of what `_POSIX_PATH_MAX` leaves. -/
def Cache.maxMangled : Int := (256 - ((cache.globalDirectoryPath.length : Int) + 8)).tdiv 2

def manglingOptionHtml : Nat := 1

def manglingOptionMd5 : Nat := 2

/-- A line of `cache_mangling_list`.  `length` counts the byte at the end. -/
structure ManglingOption where
  flagbits : Nat
  prefixText : List Char
  mangleFunction : Char → Nat → List UInt8 → List Char
  length : Char → Nat → List UInt8 → Nat

def htmlOption : ManglingOption where
  flagbits := manglingOptionHtml
  prefixText := "html".toList
  mangleFunction := fun separator _ string => mangleHtml separator string
  length := fun separator _ string => (mangleHtml separator string).length + 1

def md5Option : ManglingOption where
  flagbits := manglingOptionMd5
  prefixText := "md5".toList
  mangleFunction := mangleMd5 md5
  length := fun _ _ _ => 16 * 2 + 1 + 3 + 3

def cacheManglingList : List ManglingOption := [htmlOption, md5Option md5]

/-- The option is on and its name for the string is short enough. -/
def Cache.admits (maxMangledLen : Int) (string : List UInt8) (option : ManglingOption) : Bool :=
  cache.manglingOptions &&& option.flagbits ≠ 0 ∧ 0 < maxMangledLen ∧
    ((option.length cache.separator cache.directoryLevels string + (option.prefixText.length + 1) : Nat) : Int) ≤ maxMangledLen

def Cache.mangle (string : List UInt8) (maxMangledLen : Int) : Except CacheError (List Char) :=
  match (cacheManglingList md5).find? (cache.admits maxMangledLen string) with
  | some option =>
    .ok (option.prefixText ++ cache.separator :: option.mangleFunction cache.separator cache.directoryLevels string)
  | none => .error .nameTooLong

/-! ## 3. The names of an entry -/

def buildDirname (root : List Char) (separator : Char) (mangledTag mangledUrl : Option (List Char)) : List Char :=
  root ++ (match mangledTag with | some tag => separator :: tag | none => []) ++
    (match mangledUrl with | some url => separator :: url | none => [])

/-- The directories of an entry and the files that are always in them. -/
structure CacheNames where
  mangledUrl : List Char
  mangledTag : List Char
  globalDir : List Char
  globalDataFile : List Char
  globalUrlFile : List Char
  localBaseDir : List Char
  localTagFile : List Char
  localDir : List Char
  localDataFile : List Char
  localTagLink : List Char

/-- `globus_l_gass_cache_names_fill_global` and `globus_l_gass_cache_names_fill_local`. -/
def Cache.namesFill (mangledUrl mangledTag : List Char) : CacheNames :=
  let globalDir := buildDirname cache.globalDirectoryPath cache.separator none (some mangledUrl)
  let localBaseDir := buildDirname cache.localDirectoryPath cache.separator (some mangledTag) none
  let localDir := buildDirname cache.localDirectoryPath cache.separator (some mangledTag) (some mangledUrl)
  { mangledUrl, mangledTag, globalDir, localBaseDir, localDir
    globalDataFile := buildFilename globalDir cache.separator (some "data".toList) none
    globalUrlFile := buildFilename globalDir cache.separator (some "url".toList) none
    localTagFile := buildFilename localBaseDir cache.separator (some "tag".toList) none
    localDataFile := buildFilename localDir cache.separator (some "data".toList) none
    localTagLink := buildFilename localDir cache.separator (some "tag".toList) none }

/-- `GLOBUS_L_GASS_CACHE_NULL_TAG`, "null". -/
def nullTag : List UInt8 := [0x6e, 0x75, 0x6c, 0x6c]

def Cache.namesInit (url : List UInt8) (tag : Option (List UInt8)) : Except CacheError CacheNames := do
  let mangledUrl ← cache.mangle md5 url cache.maxMangled
  let mangledTag ← cache.mangle md5 (tag.getD nullTag) cache.maxMangled
  return cache.namesFill mangledUrl mangledTag

end

end Gct.GassCache
