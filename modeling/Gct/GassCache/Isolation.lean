/-
# Entries that do not meet

Two different pairs of URL and tag should have different directories, all of them beneath the root of the
cache.  Directories are compared as places in the file system: `.` and `..` are resolved and repeated
slashes collapsed.

* With the option "md5" alone this holds.  The name of a digest has a fixed length, its components are made
  of hexadecimal digits, and nothing of the string is left in it (`hexLoop_injective`, `tidy_hexLoop`).
* With the option "html" it does not.  Dots and separators are copied: `.` names the directory it stands in,
  `..` climbs out of the cache, and a string may contain the text that separates tag and URL.

The option "html" is harmless only where names are so short that nothing of this fits, that is where the path
of the cache is nearly as long as `_POSIX_PATH_MAX` allows (`isolated_iff`).
-/
import Gct.GassCache.Names
import Gct.Lib.Path
import Mathlib.Tactic.IntervalCases

namespace Gct.GassCache

open Path List Cache

/-! ## 1. Isolation -/

section

variable (md5 : List UInt8 → Md5Digest) (cache : Cache) (cwd : List (List Char))

/-- MD5 tells the two strings apart, if it is used for them. -/
def Cache.DigestsDiffer (s s' : List UInt8) : Prop :=
  cache.admits cache.maxMangled s htmlOption = false → cache.admits cache.maxMangled s' htmlOption = false →
    md5 s = md5 s' → s = s'

/-- `dir` lies strictly beneath the root of the cache. -/
def Cache.Confines (dir : List Char) : Prop :=
  ∃ rest, rest ≠ [] ∧ location cwd dir = location cwd cache.cacheDirectoryPath ++ rest

/-- All entries are beneath the root.  The local directories of different pairs of URL and tag differ, and so
do the global ones of different URLs. -/
def Cache.Isolated : Prop :=
  ∀ (url tag url' tag' : List UInt8) (names names' : CacheNames),
    0 ∉ url → 0 ∉ tag → 0 ∉ url' → 0 ∉ tag' →
    cache.namesInit md5 url (some tag) = .ok names → cache.namesInit md5 url' (some tag') = .ok names' →
    cache.DigestsDiffer md5 url url' → cache.DigestsDiffer md5 tag tag' →
      cache.Confines cwd names.localDir ∧ cache.Confines cwd names.globalDir ∧
      ((url, tag) ≠ (url', tag') → location cwd names.localDir ≠ location cwd names'.localDir) ∧
      (url ≠ url' → location cwd names.globalDir ≠ location cwd names'.globalDir)

end

/-! ## 2. Which option is taken -/

section Options

variable {md5 : List UInt8 → Md5Digest} {cache : Cache} {string : List UInt8} {option : ManglingOption}
  (mangledUrl mangledTag : List Char)

theorem tdiv_two_nonpos {a : Int} (h : a ≤ 0) : a.tdiv 2 ≤ 0 := by
  obtain ⟨m, rfl⟩ : ∃ m, a = -m := ⟨-a, (neg_neg a).symm⟩
  rw [Int.neg_tdiv, Int.tdiv_eq_ediv_of_nonneg (by omega)]
  omega

theorem half_iff {k n : Nat} (hk : 0 < k) :
    (0 < (256 - (((n + 7 : Nat) : Int) + 8)).tdiv 2 ∧ (k : Int) ≤ (256 - (((n + 7 : Nat) : Int) + 8)).tdiv 2) ↔
      2 * k + n ≤ 241 := by
  rcases Nat.lt_or_ge 241 n with hlong | hshort
  · have hnone := @tdiv_two_nonpos (256 - (((n + 7 : Nat) : Int) + 8)) (by omega)
    omega
  · rw [Int.tdiv_eq_ediv_of_nonneg (by omega)]
    omega

theorem maxMangled_eq (cache : Cache) :
    cache.maxMangled = (256 - (((cache.cacheDirectoryPath.length + 7 : Nat) : Int) + 8)).tdiv 2 := by
  have hlength : cache.globalDirectoryPath.length = cache.cacheDirectoryPath.length + 7 := by
    simp [globalDirectoryPath, buildFilename]
  unfold maxMangled
  rw [hlength]

theorem maxMangled_iff {k : Nat} (hk : 0 < k) :
    (0 < cache.maxMangled ∧ (k : Int) ≤ cache.maxMangled) ↔ 2 * k + cache.cacheDirectoryPath.length ≤ 241 := by
  have hhalf := @half_iff k cache.cacheDirectoryPath.length hk
  rwa [← maxMangled_eq cache] at hhalf

/-- An option is taken if it is on and the path of the cache leaves room for twice the name. -/
theorem admits_iff : cache.admits cache.maxMangled string option = true ↔ cache.manglingOptions &&& option.flagbits ≠ 0 ∧
      2 * (option.length cache.separator cache.directoryLevels string + (option.prefixText.length + 1)) +
        cache.cacheDirectoryPath.length ≤ 241 := by
  rw [admits, decide_eq_true_iff, maxMangled_iff (by omega)]

/-- The names of the two options. -/
def Cache.htmlName (cache : Cache) (string : List UInt8) : List Char :=
  "html".toList ++ cache.separator :: mangleHtml cache.separator string

def Cache.md5Name (md5 : List UInt8 → Md5Digest) (cache : Cache) (string : List UInt8) : List Char :=
  "md5".toList ++ cache.separator :: mangleMd5 md5 cache.separator cache.directoryLevels string

theorem mangle_cases {mangled : List Char} (h : cache.mangle md5 string cache.maxMangled = .ok mangled) :
    (cache.admits cache.maxMangled string htmlOption = true ∧ mangled = cache.htmlName string) ∨
    (cache.admits cache.maxMangled string htmlOption = false ∧
      cache.admits cache.maxMangled string (md5Option md5) = true ∧ mangled = cache.md5Name md5 string) := by
  rw [mangle, cacheManglingList] at h
  cases hhtml : cache.admits cache.maxMangled string htmlOption with
  | true =>
    rw [find?_cons_of_pos hhtml] at h
    exact .inl ⟨rfl, (Except.ok.inj h).symm⟩
  | false =>
    rw [find?_cons_of_neg (by simp [hhtml])] at h
    cases hmd5 : cache.admits cache.maxMangled string (md5Option md5) with
    | true =>
      rw [find?_cons_of_pos hmd5] at h
      exact .inr ⟨rfl, rfl, (Except.ok.inj h).symm⟩
    | false =>
      rw [find?_cons_of_neg (by simp [hmd5]), find?_nil] at h
      cases h

theorem mangle_html (h : cache.admits cache.maxMangled string htmlOption = true) :
    cache.mangle md5 string cache.maxMangled = .ok (cache.htmlName string) := by
  rw [mangle, cacheManglingList, find?_cons_of_pos h]
  rfl

/-- The names of an entry are made from the two mangled strings. -/
theorem namesInit_ok {url tag : List UInt8} {names : CacheNames} (h : cache.namesInit md5 url (some tag) = .ok names) :
    ∃ mangledUrl mangledTag, cache.mangle md5 url cache.maxMangled = .ok mangledUrl ∧
      cache.mangle md5 tag cache.maxMangled = .ok mangledTag ∧ names = cache.namesFill mangledUrl mangledTag := by
  rw [namesInit, Option.getD_some] at h
  cases hurl : cache.mangle md5 url cache.maxMangled with
  | error e => rw [hurl] at h; cases h
  | ok mangledUrl =>
    cases htag : cache.mangle md5 tag cache.maxMangled with
    | error e => rw [hurl, htag] at h; cases h
    | ok mangledTag =>
      rw [hurl, htag] at h
      exact ⟨mangledUrl, mangledTag, rfl, rfl, (Except.ok.inj h).symm⟩

/-- What stands behind the path of the cache in the name of the local directory. -/
def localText (separator : Char) (mangledTag mangledUrl : List Char) : List Char :=
  "local".toList ++ separator :: (mangledTag ++ separator :: mangledUrl)

def globalText (separator : Char) (mangledUrl : List Char) : List Char := "global".toList ++ separator :: mangledUrl

theorem localDir_namesFill : (cache.namesFill mangledUrl mangledTag).localDir =
      cache.cacheDirectoryPath ++ '/' :: localText cache.separator mangledTag mangledUrl := by
  simp [namesFill, buildDirname, localDirectoryPath, buildFilename, localText]

theorem globalDir_namesFill : (cache.namesFill mangledUrl mangledTag).globalDir =
      cache.cacheDirectoryPath ++ '/' :: globalText cache.separator mangledUrl := by
  simp [namesFill, buildDirname, globalDirectoryPath, buildFilename, globalText]

end Options

/-! ## 3. Names of digests -/

theorem digitChar_plain : ∀ n < 16, n.digitChar ≠ '/' ∧ n.digitChar ≠ '.' := by decide

theorem digitChar_injective : ∀ n < 16, ∀ m < 16, n.digitChar = m.digitChar → n = m := by decide

theorem hexByte_plain (b : UInt8) : ∀ x ∈ hexByte b, x ≠ '/' ∧ x ≠ '.' := by
  have hlt := b.toNat_lt
  have hhigh := digitChar_plain (b.toNat / 16) (by omega)
  have hlow := digitChar_plain (b.toNat % 16) (by omega)
  rw [hexByte, forall_mem_cons, forall_mem_singleton]
  exact ⟨hhigh, hlow⟩

theorem tidy_hexByte (b : UInt8) : Tidy (hexByte b) :=
  tidy_of_isName (isName_of_plain (by simp [hexByte]) (hexByte_plain b))

theorem hexByte_injective {b b' : UInt8} (h : hexByte b = hexByte b') : b = b' := by
  have hlt := b.toNat_lt
  have hlt' := b'.toNat_lt
  obtain ⟨hhigh, hlow⟩ : (b.toNat / 16).digitChar = (b'.toNat / 16).digitChar ∧
      (b.toNat % 16).digitChar = (b'.toNat % 16).digitChar := by
    simpa only [hexByte, cons.injEq, and_true] using h
  have hdiv := digitChar_injective _ (by omega) _ (by omega) hhigh
  have hmod := digitChar_injective _ (by omega) _ (by omega) hlow
  exact UInt8.toNat_inj.mp (by omega)

section Digest

variable {separator : Char} {levels : Nat}

theorem length_hexLoop : ∀ {i : Nat} {bytes bytes' : List UInt8}, bytes.length = bytes'.length →
    (hexLoop separator levels i bytes).length = (hexLoop separator levels i bytes').length
  | _, [], [], _ => rfl
  | i, b :: bytes, b' :: bytes', h => by
    have hrest := @length_hexLoop (i + 1) bytes bytes' (Nat.succ.inj h)
    rw [hexLoop, hexLoop, length_append, length_append, length_append, length_append, hrest]
    rfl

theorem hexLoop_ne_nil {i : Nat} : ∀ {bytes : List UInt8}, bytes ≠ [] → hexLoop separator levels i bytes ≠ []
  | [], h => absurd rfl h
  | b :: bytes, _ => by simp [hexLoop, hexByte]

/-- A digest can be read back from its name. -/
theorem hexLoop_injective : ∀ {i : Nat} {bytes bytes' : List UInt8}, bytes.length = bytes'.length →
    hexLoop separator levels i bytes = hexLoop separator levels i bytes' → bytes = bytes'
  | _, [], [], _, _ => rfl
  | i, b :: bytes, b' :: bytes', hlength, h => by
    rw [hexLoop, hexLoop, append_assoc, append_assoc] at h
    obtain ⟨hbyte, hrest⟩ := append_inj h rfl
    rw [hexByte_injective hbyte, hexLoop_injective (Nat.succ.inj hlength) (append_cancel_left hrest)]

/-- Separators stand between bytes only, as long as there are enough of them. -/
theorem tidy_hexLoop (hlevels : levels ≤ 4) : ∀ {i : Nat} {bytes : List UInt8}, bytes ≠ [] → i + bytes.length = 16 →
    Tidy (hexLoop '/' levels i bytes)
  | _, [], hne, _ => absurd rfl hne
  | i, [b], _, hlength => by
    have hlast : ¬ (i : Int) ≤ (levels : Int) - 2 := by
      rw [length_singleton] at hlength
      omega
    rw [hexLoop, if_neg hlast, append_nil, hexLoop, append_nil]
    exact tidy_hexByte b
  | i, b :: b' :: bytes, _, hlength => by
    have hrest : Tidy (hexLoop '/' levels (i + 1) (b' :: bytes)) := by
      refine tidy_hexLoop hlevels (cons_ne_nil _ _) ?_
      rw [length_cons] at hlength
      omega
    rw [hexLoop]
    split
    · rw [append_assoc]
      exact (tidy_hexByte b).append_slash hrest
    · rw [append_nil]
      exact hrest.append (hexByte_plain b)

theorem plain_hexLoop (hseparator : separator ≠ '/' ∧ separator ≠ '.') : ∀ {i : Nat} {bytes : List UInt8},
    ∀ x ∈ hexLoop separator levels i bytes, x ≠ '/' ∧ x ≠ '.'
  | _, [], _, h => by cases h
  | i, b :: bytes, x, h => by
    rcases mem_append.mp h with h | h
    · rcases mem_append.mp h with h | h
      · exact hexByte_plain b x h
      · split at h
        · rw [mem_singleton.mp h]
          exact hseparator
        · cases h
    · exact plain_hexLoop hseparator x h

end Digest

/-! ## 4. Tidy names -/

variable {md5 : List UInt8 → Md5Digest} {cache : Cache} {cwd : List (List Char)}

/-- A name that some string has. -/
def Cache.IsMangled (md5 : List UInt8 → Md5Digest) (cache : Cache) (mangled : List Char) : Prop :=
  ∃ string, cache.mangle md5 string cache.maxMangled = .ok mangled

theorem confines_of_tidy {text : List Char} (h : Tidy text) :
    cache.Confines cwd (cache.cacheDirectoryPath ++ '/' :: text) :=
  ⟨text.splitOn '/', splitOn_ne_nil _ _, location_append_tidy cache.path_ne cwd h⟩

theorem eq_of_location {text text' : List Char} (h : Tidy text) (h' : Tidy text')
    (heq : location cwd (cache.cacheDirectoryPath ++ '/' :: text) =
      location cwd (cache.cacheDirectoryPath ++ '/' :: text')) : text = text' := by
  rw [location_append_tidy cache.path_ne cwd h, location_append_tidy cache.path_ne cwd h'] at heq
  exact splitOn_slash_injective (append_cancel_left heq)

theorem globalText_injective {separator : Char} {mangledUrl mangledUrl' : List Char}
    (h : globalText separator mangledUrl = globalText separator mangledUrl') : mangledUrl = mangledUrl' :=
  (cons.inj (append_cancel_left h)).2

/-- Where all texts are tidy, it is enough that names can be taken apart and read back. -/
theorem isolated_of_tidy
    (htidy : ∀ mangledUrl mangledTag, cache.IsMangled md5 mangledUrl → cache.IsMangled md5 mangledTag →
      Tidy (localText cache.separator mangledTag mangledUrl) ∧ Tidy (globalText cache.separator mangledUrl))
    (hparts : ∀ mangledUrl mangledTag mangledUrl' mangledTag', cache.IsMangled md5 mangledUrl →
      cache.IsMangled md5 mangledTag → cache.IsMangled md5 mangledUrl' → cache.IsMangled md5 mangledTag' →
      localText cache.separator mangledTag mangledUrl = localText cache.separator mangledTag' mangledUrl' →
        mangledTag = mangledTag' ∧ mangledUrl = mangledUrl')
    (hread : ∀ s s' mangled, cache.mangle md5 s cache.maxMangled = .ok mangled →
      cache.mangle md5 s' cache.maxMangled = .ok mangled → cache.DigestsDiffer md5 s s' → s = s') :
    cache.Isolated md5 cwd := by
  intro url tag url' tag' names names' _ _ _ _ hnames hnames' hurls htags
  obtain ⟨mangledUrl, mangledTag, hurl, htag, rfl⟩ := namesInit_ok hnames
  obtain ⟨mangledUrl', mangledTag', hurl', htag', rfl⟩ := namesInit_ok hnames'
  obtain ⟨hlocal, hglobal⟩ := htidy mangledUrl mangledTag ⟨url, hurl⟩ ⟨tag, htag⟩
  obtain ⟨hlocal', hglobal'⟩ := htidy mangledUrl' mangledTag' ⟨url', hurl'⟩ ⟨tag', htag'⟩
  simp only [localDir_namesFill, globalDir_namesFill]
  refine ⟨confines_of_tidy hlocal, confines_of_tidy hglobal, fun hne heq => hne ?_, fun hne heq => hne ?_⟩
  · obtain ⟨rfl, rfl⟩ := hparts _ _ _ _ ⟨url, hurl⟩ ⟨tag, htag⟩ ⟨url', hurl'⟩ ⟨tag', htag'⟩
      (eq_of_location hlocal hlocal' heq)
    rw [hread url url' _ hurl hurl' hurls, hread tag tag' _ htag htag' htags]
  · obtain rfl := globalText_injective (eq_of_location hglobal hglobal' heq)
    exact hread url url' _ hurl hurl' hurls

/-! ## 5. The option "md5" alone -/

theorem length_md5Name (s s' : List UInt8) : (cache.md5Name md5 s).length = (cache.md5Name md5 s').length := by
  have hlength : (md5 s).bytes.length = (md5 s').bytes.length := by
    rw [(md5 s).length_bytes, (md5 s').length_bytes]
  rw [md5Name, md5Name, length_append, length_append, length_cons, length_cons,
    mangleMd5, mangleMd5, length_hexLoop hlength]

theorem md5_eq_of_md5Name {s s' : List UInt8} (h : cache.md5Name md5 s = cache.md5Name md5 s') : md5 s = md5 s' := by
  have hlength : (md5 s).bytes.length = (md5 s').bytes.length := by
    rw [(md5 s).length_bytes, (md5 s').length_bytes]
  have hbytes := hexLoop_injective hlength (cons.inj (append_cancel_left h)).2
  cases hs : md5 s
  cases hs' : md5 s'
  simp only [hs, hs'] at hbytes
  simp only [hbytes]

/-- A tidy text, which is a single component in a flat cache. -/
def Cache.Neat (cache : Cache) (text : List Char) : Prop :=
  Tidy text ∧ (cache.cacheType = .flat → ∀ x ∈ text, x ≠ '/' ∧ x ≠ '.')

theorem neat_of_plain {text : List Char} (hne : text ≠ []) (h : ∀ x ∈ text, x ≠ '/' ∧ x ≠ '.') : cache.Neat text :=
  ⟨tidy_of_isName (isName_of_plain hne h), fun _ => h⟩

theorem Cache.Neat.append {text text' : List Char} (h : cache.Neat text) (h' : cache.Neat text') :
    cache.Neat (text ++ cache.separator :: text') := by
  cases htype : cache.cacheType with
  | normal =>
    rw [separator, htype]
    exact ⟨h.1.append_slash h'.1, fun hflat => nomatch htype.symm.trans hflat⟩
  | flat =>
    refine neat_of_plain (by simp) ?_
    rw [separator, htype, forall_mem_append, forall_mem_cons]
    exact ⟨h.2 htype, by decide, h'.2 htype⟩

theorem neat_md5Name (string : List UInt8) : cache.Neat (cache.md5Name md5 string) := by
  have hbytes := (md5 string).length_bytes
  have hne : (md5 string).bytes ≠ [] := by
    intro h
    rw [h] at hbytes
    cases hbytes
  have hdigest : cache.Neat (mangleMd5 md5 cache.separator cache.directoryLevels string) := by
    cases htype : cache.cacheType with
    | normal =>
      rw [mangleMd5, separator, htype]
      exact ⟨tidy_hexLoop cache.levels_le hne (by rw [hbytes]), fun hflat => nomatch htype.symm.trans hflat⟩
    | flat =>
      rw [mangleMd5, separator, htype]
      exact neat_of_plain (hexLoop_ne_nil hne) (plain_hexLoop (by decide))
  exact Cache.Neat.append (neat_of_plain (by decide) (by simp)) hdigest

theorem isolated_md5 (hoff : cache.manglingOptions &&& manglingOptionHtml = 0) : cache.Isolated md5 cwd := by
  have hhtml : ∀ string, cache.admits cache.maxMangled string htmlOption = false :=
    fun string => Bool.eq_false_iff.mpr fun h => (admits_iff.mp h).1 hoff
  have hname : ∀ {string mangled}, cache.mangle md5 string cache.maxMangled = .ok mangled →
      mangled = cache.md5Name md5 string := by
    intro string mangled h
    rcases mangle_cases h with ⟨htrue, -⟩ | ⟨-, -, hmangled⟩
    · rw [hhtml] at htrue
      cases htrue
    · exact hmangled
  apply isolated_of_tidy
  · rintro mangledUrl mangledTag ⟨url, hurl⟩ ⟨tag, htag⟩
    rw [hname hurl, hname htag]
    have hlocal : cache.Neat "local".toList := neat_of_plain (by decide) (by simp)
    have hglobal : cache.Neat "global".toList := neat_of_plain (by decide) (by simp)
    exact ⟨(hlocal.append ((neat_md5Name tag).append (neat_md5Name url))).1, (hglobal.append (neat_md5Name url)).1⟩
  · rintro mangledUrl mangledTag mangledUrl' mangledTag' ⟨url, hurl⟩ ⟨tag, htag⟩ ⟨url', hurl'⟩ ⟨tag', htag'⟩ heq
    rw [hname htag, hname htag'] at heq ⊢
    obtain ⟨htags, hurls⟩ := append_inj (cons.inj (append_cancel_left heq)).2 (length_md5Name tag tag')
    exact ⟨htags, (cons.inj hurls).2⟩
  · intro s s' mangled hs hs' hdiffer
    exact hdiffer (hhtml s) (hhtml s') (md5_eq_of_md5Name ((hname hs).symm.trans (hname hs')))

/-! ## 6. The option "html" with hardly any room -/

/-- A name of the option "html" and how long it may be. -/
theorem mangle_html_of_short (hshort : 224 ≤ cache.cacheDirectoryPath.length) {string : List UInt8} {mangled : List Char}
    (h : cache.mangle md5 string cache.maxMangled = .ok mangled) : mangled = cache.htmlName string ∧
      2 * ((mangleHtml cache.separator string).length + 6) + cache.cacheDirectoryPath.length ≤ 241 := by
  rcases mangle_cases h with ⟨hhtml, hmangled⟩ | ⟨-, hmd5, -⟩
  · refine ⟨hmangled, ?_⟩
    have hlength := (admits_iff.mp hhtml).2
    simp only [htmlOption] at hlength
    rw [show "html".toList.length = 4 from rfl] at hlength
    omega
  · have hlength := (admits_iff.mp hmd5).2
    simp only [md5Option] at hlength
    omega

theorem length_escape (c : UInt8) : (escape c).length = 3 := by
  unfold escape hexChar
  split <;> rfl

theorem mangleHtml_eq_nil {separator : Char} {string : List UInt8} (h : mangleHtml separator string = []) :
    string = [] := by
  cases string with
  | nil => rfl
  | cons c string =>
    rw [mangleHtml, mangleHtmlLoop] at h
    split at h
    · cases h
    · have hlength := length_escape c
      rw [(append_eq_nil_iff.mp h).1] at hlength
      cases hlength

theorem ofUInt8_injective {c c' : UInt8} (h : Char.ofUInt8 c = Char.ofUInt8 c') : c = c' := by
  have hvalue := congrArg Char.toNat h
  exact UInt8.toNat_inj.mp hvalue

/-- Two characters leave no room for an escape. -/
theorem mangleHtmlLoop_of_short {separator : Char} {mangleSeparator : Bool} {string : List UInt8}
    (h : (mangleHtmlLoop separator mangleSeparator string).length ≤ 2) :
    mangleHtmlLoop separator mangleSeparator string = string.map Char.ofUInt8 := by
  induction string generalizing mangleSeparator with
  | nil => rfl
  | cons c string ih =>
    rw [mangleHtmlLoop] at h ⊢
    split at h
    · next hcopied =>
      rw [length_cons] at h
      rw [if_pos hcopied, ih (by omega), map_cons]
    · rw [length_append, length_escape] at h
      omega

theorem slash_notMem_escape (c : UInt8) : '/' ∉ escape c := by
  have hhex : '/' ∉ hexByte c := fun h => (hexByte_plain c _ h).1 rfl
  intro h
  rcases mem_cons.mp (mem_of_mem_take h) with h | h
  · cases h
  · rw [hexChar] at h
    split at h
    · exact hhex h
    · exact (mem_append.mp h).elim (by decide) hhex

/-- In a flat cache `/` is escaped. -/
theorem slash_notMem_mangleHtmlLoop {mangleSeparator : Bool} {string : List UInt8} :
    '/' ∉ mangleHtmlLoop '_' mangleSeparator string := by
  induction string generalizing mangleSeparator with
  | nil => exact not_mem_nil
  | cons c string ih =>
    rw [mangleHtmlLoop]
    split
    · next hcopied =>
      refine not_mem_cons_of_ne_of_not_mem ?_ ih
      intro hslash
      rw [← hslash] at hcopied
      cases mangleSeparator <;> exact absurd hcopied (by decide)
    · exact fun h => (mem_append.mp h).elim (slash_notMem_escape c) ih

/-- The text between tag and URL is five characters longer than what could be mistaken for it. -/
theorem parts_of_short {t t' u u' : List Char} (ht : t.length ≤ 2) (ht' : t'.length ≤ 2)
    (h : t ++ "_html_".toList ++ u = t' ++ "_html_".toList ++ u') : t = t' ∧ u = u' := by
  rcases t with _ | ⟨a, _ | ⟨b, _ | ⟨c, t⟩⟩⟩ <;> rcases t' with _ | ⟨a', _ | ⟨b', _ | ⟨c', t'⟩⟩⟩ <;>
    simp_all

theorem isolated_flat (hflat : cache.cacheType = .flat) (hshort : 224 ≤ cache.cacheDirectoryPath.length) :
    cache.Isolated md5 cwd := by
  have hsep : cache.separator = '_' := by rw [separator, hflat]; rfl
  have hname : ∀ {string mangled}, cache.mangle md5 string cache.maxMangled = .ok mangled →
      mangled = "html_".toList ++ string.map Char.ofUInt8 ∧ string.length ≤ 2 ∧ '/' ∉ string.map Char.ofUInt8 := by
    intro string mangled h
    obtain ⟨hmangled, hlength⟩ := mangle_html_of_short hshort h
    rw [htmlName, hsep] at hmangled
    rw [hsep] at hlength
    have hmap := @mangleHtmlLoop_of_short '_' false string (by rw [mangleHtml] at hlength; omega)
    have hslash := @slash_notMem_mangleHtmlLoop false string
    rw [mangleHtml, hmap] at hmangled hlength
    rw [hmap] at hslash
    rw [length_map] at hlength
    exact ⟨hmangled, by omega, hslash⟩
  apply isolated_of_tidy
  · rintro mangledUrl mangledTag ⟨url, hurl⟩ ⟨tag, htag⟩
    obtain ⟨rfl, -, hurl⟩ := hname hurl
    obtain ⟨rfl, -, htag⟩ := hname htag
    rw [hsep]
    constructor
    · refine tidy_of_isName ⟨by simp [localText], by simp [localText], by simp [localText], ?_⟩
      simp [localText, hurl, htag]
    · refine tidy_of_isName ⟨by simp [globalText], by simp [globalText], by simp [globalText], ?_⟩
      simp [globalText, hurl]
  · rintro mangledUrl mangledTag mangledUrl' mangledTag' ⟨url, hurl⟩ ⟨tag, htag⟩ ⟨url', hurl'⟩ ⟨tag', htag'⟩ heq
    obtain ⟨rfl, -, -⟩ := hname hurl
    obtain ⟨rfl, hlength, -⟩ := hname htag
    obtain ⟨rfl, -, -⟩ := hname hurl'
    obtain ⟨rfl, hlength', -⟩ := hname htag'
    have hparts := (cons.inj (append_cancel_left heq)).2
    rw [hsep] at hparts
    obtain ⟨htags, hurls⟩ := @parts_of_short (tag.map Char.ofUInt8) (tag'.map Char.ofUInt8) (url.map Char.ofUInt8)
      (url'.map Char.ofUInt8) (by rwa [length_map]) (by rwa [length_map]) (by simpa using hparts)
    rw [htags, hurls]
    exact ⟨rfl, rfl⟩
  · intro s s' mangled hs hs' _
    have heq := (hname hs).1.symm.trans (hname hs').1
    exact map_injective_iff.mpr (fun _ _ => ofUInt8_injective) (append_cancel_left heq)

/-- Only the empty string has a name. -/
theorem isolated_normal (hnormal : cache.cacheType = .normal) (hshort : 228 ≤ cache.cacheDirectoryPath.length) :
    cache.Isolated md5 cwd := by
  have hsep : cache.separator = '/' := by rw [separator, hnormal]; rfl
  have hname : ∀ {string mangled}, cache.mangle md5 string cache.maxMangled = .ok mangled →
      string = [] ∧ mangled = "html/".toList := by
    intro string mangled h
    obtain ⟨hmangled, hlength⟩ := mangle_html_of_short (by omega) h
    have hnil : mangleHtml cache.separator string = [] := eq_nil_of_length_eq_zero (by omega)
    rw [htmlName, hnil, hsep] at hmangled
    exact ⟨mangleHtml_eq_nil hnil, hmangled⟩
  intro url tag url' tag' names names' _ _ _ _ hnames hnames' _ _
  obtain ⟨mangledUrl, mangledTag, hurl, htag, rfl⟩ := namesInit_ok hnames
  obtain ⟨mangledUrl', mangledTag', hurl', htag', rfl⟩ := namesInit_ok hnames'
  obtain ⟨rfl, rfl⟩ := hname hurl
  obtain ⟨rfl, rfl⟩ := hname htag
  obtain ⟨rfl, rfl⟩ := hname hurl'
  obtain ⟨rfl, rfl⟩ := hname htag'
  refine ⟨⟨["local".toList, "html".toList, "html".toList], cons_ne_nil _ _, ?_⟩,
    ⟨["global".toList, "html".toList], cons_ne_nil _ _, ?_⟩, fun h => absurd rfl h, fun h => absurd rfl h⟩
  · have hsplit : (localText '/' "html/".toList "html/".toList).splitOn '/' =
        ["local".toList, "html".toList, [], "html".toList, []] := by decide
    rw [localDir_namesFill, hsep, location_append cache.path_ne, hsplit]
    simp [push]
  · have hsplit : (globalText '/' "html/".toList).splitOn '/' = ["global".toList, "html".toList, []] := by decide
    rw [globalDir_namesFill, hsep, location_append cache.path_ne, hsplit]
    simp [push]

/-! ## 7. The option "html" with room for it -/

theorem admits_html (hon : cache.manglingOptions &&& manglingOptionHtml ≠ 0) {string : List UInt8} {k : Nat}
    (hlength : (mangleHtml cache.separator string).length = k)
    (hroom : 2 * (k + 6) + cache.cacheDirectoryPath.length ≤ 241) :
    cache.admits cache.maxMangled string htmlOption = true := by
  refine admits_iff.mpr ⟨hon, ?_⟩
  simp only [htmlOption, hlength]
  rw [show "html".toList.length = 4 from rfl]
  omega

theorem namesInit_html {url tag : List UInt8} (hurl : cache.admits cache.maxMangled url htmlOption = true)
    (htag : cache.admits cache.maxMangled tag htmlOption = true) :
    cache.namesInit md5 url (some tag) = .ok (cache.namesFill (cache.htmlName url) (cache.htmlName tag)) := by
  rw [namesInit, Option.getD_some, mangle_html hurl, mangle_html htag]
  rfl

/-- Two URLs, both with names of the option "html", whose directories are the same place. -/
theorem not_isolated_of_same {url url' : List UInt8} (hne : url ≠ url') (hnul : 0 ∉ url) (hnul' : 0 ∉ url')
    (hurl : cache.admits cache.maxMangled url htmlOption = true)
    (hurl' : cache.admits cache.maxMangled url' htmlOption = true)
    (htag : cache.admits cache.maxMangled [] htmlOption = true) (hsame : ∀ stack : List (List Char),
      ((globalText cache.separator (cache.htmlName url)).splitOn '/').foldl push stack =
      ((globalText cache.separator (cache.htmlName url')).splitOn '/').foldl push stack) : ¬ cache.Isolated md5 cwd := by
  intro hisolated
  have hentries := hisolated url [] url' [] _ _ hnul not_mem_nil hnul' not_mem_nil
    (namesInit_html hurl htag) (namesInit_html hurl' htag)
    (fun h => absurd hurl (by simp [h])) (fun h => absurd htag (by simp [h]))
  refine hentries.2.2.2 hne ?_
  rw [globalDir_namesFill, globalDir_namesFill, location_append cache.path_ne, location_append cache.path_ne]
  exact hsame _

/-- The empty URL and `.` have the same directory. -/
theorem not_isolated_normal (hnormal : cache.cacheType = .normal)
    (hon : cache.manglingOptions &&& manglingOptionHtml ≠ 0) (hroom : cache.cacheDirectoryPath.length < 228) :
    ¬ cache.Isolated md5 cwd := by
  have hsep : cache.separator = '/' := by rw [separator, hnormal]; rfl
  have hempty : cache.admits cache.maxMangled [] htmlOption = true := @admits_html cache hon [] 0 rfl (by omega)
  have hdot : cache.admits cache.maxMangled [0x2e] htmlOption = true :=
    @admits_html cache hon [0x2e] 1 (by rw [hsep]; decide) (by omega)
  refine @not_isolated_of_same md5 cache cwd [] [0x2e] (by decide) (by decide) (by decide) hempty hdot hempty ?_
  intro stack
  have hsplit : (globalText '/' ("html".toList ++ '/' :: mangleHtml '/' [])).splitOn '/' =
      ["global".toList, "html".toList, []] := by decide
  have hsplit' : (globalText '/' ("html".toList ++ '/' :: mangleHtml '/' [0x2e])).splitOn '/' =
      ["global".toList, "html".toList, ['.']] := by decide
  rw [htmlName, htmlName, hsep, hsplit, hsplit']
  simp [push]

/-- All bytes above 127 have the same name. -/
theorem not_isolated_flat (hflat : cache.cacheType = .flat)
    (hon : cache.manglingOptions &&& manglingOptionHtml ≠ 0) (hroom : cache.cacheDirectoryPath.length < 224) :
    ¬ cache.Isolated md5 cwd := by
  have hsep : cache.separator = '_' := by rw [separator, hflat]; rfl
  have hempty : cache.admits cache.maxMangled [] htmlOption = true := @admits_html cache hon [] 0 rfl (by omega)
  have hbyte : cache.admits cache.maxMangled [0x80] htmlOption = true :=
    @admits_html cache hon [0x80] 3 (by rw [hsep]; decide) (by omega)
  have hbyte' : cache.admits cache.maxMangled [0x81] htmlOption = true :=
    @admits_html cache hon [0x81] 3 (by rw [hsep]; decide) (by omega)
  refine @not_isolated_of_same md5 cache cwd [0x80] [0x81] (by decide) (by decide) (by decide) hbyte hbyte' hempty ?_
  intro stack
  have hname : mangleHtml '_' [0x80] = mangleHtml '_' [0x81] := by decide
  rw [htmlName, htmlName, hsep, hname]

/-- How long the path of a cache has to be for the option "html" to be harmless. -/
def CacheType.crowded : CacheType → Nat
  | normal => 228
  | flat => 224

/-- **A cache keeps its entries apart and beneath its root exactly if the option "html" is off or its path
leaves hardly any room for names.** -/
theorem isolated_iff (md5 : List UInt8 → Md5Digest) (cache : Cache) (cwd : List (List Char)) :
    cache.Isolated md5 cwd ↔
      cache.manglingOptions &&& manglingOptionHtml = 0 ∨ cache.cacheType.crowded ≤ cache.cacheDirectoryPath.length := by
  constructor
  · intro hisolated
    by_contra hno
    obtain ⟨hon, hroom⟩ := not_or.mp hno
    cases htype : cache.cacheType with
    | normal =>
      rw [htype] at hroom
      exact not_isolated_normal htype hon (not_le.mp hroom) hisolated
    | flat =>
      rw [htype] at hroom
      exact not_isolated_flat htype hon (not_le.mp hroom) hisolated
  · rintro (hoff | hcrowded)
    · exact isolated_md5 hoff
    · cases htype : cache.cacheType with
      | normal =>
        rw [htype] at hcrowded
        exact isolated_normal htype hcrowded
      | flat =>
        rw [htype] at hcrowded
        exact isolated_flat htype hcrowded

/-- A normal cache in `/c` with the option "html". -/
def htmlCache : Cache := ⟨"/c".toList, .normal, manglingOptionHtml, 2, by decide, by decide⟩

/-- The names of an entry of that cache; MD5 is not used. -/
def htmlNames (url tag : List Char) : CacheNames :=
  htmlCache.namesFill ("html/".toList ++ url) ("html/".toList ++ tag)

/-- **Entries of a cache with the option "html" meet, and leave it.**  The entry of `b/html/c` under the tag `a` is
that of `c` under the tag `a/html/b`, and the entry of `../../../../../x` is the directory `/x`. -/
theorem htmlCache_not_isolated :
    (htmlNames "b/html/c".toList "a".toList).localDir = (htmlNames "c".toList "a/html/b".toList).localDir ∧
      location [] (htmlNames "../../../../../x".toList "a".toList).localDir = ["x".toList] ∧
      ∀ md5 : List UInt8 → Md5Digest,
        htmlCache.namesInit md5 [98, 47, 104, 116, 109, 108, 47, 99] (some [97]) =
          .ok (htmlNames "b/html/c".toList "a".toList) ∧
        htmlCache.namesInit md5 [99] (some [97, 47, 104, 116, 109, 108, 47, 98]) =
          .ok (htmlNames "c".toList "a/html/b".toList) ∧
        htmlCache.namesInit md5 [46, 46, 47, 46, 46, 47, 46, 46, 47, 46, 46, 47, 46, 46, 47, 120] (some [97]) =
          .ok (htmlNames "../../../../../x".toList "a".toList) ∧
        ¬ htmlCache.Isolated md5 [] := by
  refine ⟨by decide, by decide, fun md5 => ⟨?_, ?_, ?_, not_isolated_normal rfl (by decide) (by decide)⟩⟩
  · exact namesInit_html (by decide) (by decide)
  · exact namesInit_html (by decide) (by decide)
  · exact namesInit_html (by decide) (by decide)

end Gct.GassCache
