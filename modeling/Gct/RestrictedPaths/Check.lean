/-
# Restricted paths: the decision

`globus_i_gfs_data_check_path` looks for the first entry of the sorted list that says something about a
path.  An entry speaks for its own path and for all below it, so of two entries that speak for a path one
is a directory above the other, and the deeper one comes first in the list.  So the deepest entry decides
(`checkPath_permits_iff`).

`fnmatch` is the function of the C library; entries without a wildcard are not given to it.
-/
import Gct.Lib.Path
import Gct.RestrictedPaths.Parse

namespace Gct.RestrictedPaths

open Path List Entry

/-! ## 1. The program -/

/-- `path` begins with `dir`, and the next character does not go on with the last name. -/
def covers (dir path : List Char) : Bool :=
  dir.isPrefixOf path &&
    (dir.getLast? = some '/' || path[dir.length]? = none || path[dir.length]? = some '/')

section Program

variable (fnmatch : List Char → List Char → Bool) (session : Session) (accessType : Access)
  (inPath : List Char)

/-- What one entry says: `some true` is `allowed`, `some false` is `disallowed`. -/
def entVerdict (path : List Char) (ent : AliasEnt) : Option Bool :=
  -- a directory is refused if something in it is
  if accessType.dir && ent.access.none && (covers path ent.aliasPath || fnmatch ent.aliasPath path) then
    some false
  else if if ent.aliasPath.any isWildcard then fnmatch ent.aliasPath path else covers ent.aliasPath path then
    some (ent.access.meets accessType)
  -- a directory above an entry may be listed if the entry may
  else if accessType.list && covers path ent.aliasPath && ent.access.meets accessType then some true
  else none

/-- The loop over a list, with the entry that was looked at last. -/
def scan (accessType : Access) (path : List Char) :
    List AliasEnt → Option AliasEnt → Option Bool × Option AliasEnt
  | [], aliasEnt => (none, aliasEnt)
  | ent :: list, _ =>
    match entVerdict fnmatch accessType path ent with
    | some verdict => (some verdict, some ent)
    | none => scan accessType path list (some ent)

/-- The decision of one list.  A path that is allowed where it really is, is looked up as it was given
too, and there it only must not be refused. -/
def checkList (truePath startPath : List Char) (rpList : List AliasEnt) :
    Except String (Option AliasEnt) :=
  match scan fnmatch accessType truePath rpList none with
  | (some true, aliasEnt) =>
    if startPath = truePath then .ok aliasEnt
    else
      match scan fnmatch accessType startPath rpList none with
      | (some false, _) => .error "Path not allowed."
      | (_, aliasEnt) => .ok aliasEnt
  | _ => .error "Path not allowed."

def startPath (isVirtual : Bool) : List Char :=
  match session.chrootPath with
  | some root => if isVirtual then if inPath = ['/'] then root else root ++ inPath else inPath
  | none => inPath

/-- The real place of a path that does not exist, by that of its directory. -/
def realBase (realpath : List Char → Option (List Char)) (start : List Char) : List Char :=
  -- `MAXPATHLEN`
  let path := start.take 4095
  let slash := path.getLast? = some '/'
  let path := if slash then path.dropLast else path
  let name := (path.reverse.takeWhile (· ≠ '/')).reverse
  let base := path.take (path.length - name.length - 1)
  if base = [] then start
  else
    match realpath base with
    | some trueBase => trueBase ++ '/' :: name ++ (if slash then ['/'] else [])
    | none => start

def truePath (start : List Char) : List Char :=
  match session.realpath with
  | some realpath => if start = ['/'] then start else (realpath start).getD (realBase realpath start)
  | none => start

/-- What the caller is to use in place of the path, if anything. -/
def retPath (truePath start : List Char) (aliasEnt : Option AliasEnt) : Option (List Char) :=
  match aliasEnt with
  | some ⟨aliasPath, some realpath, _⟩ => some (realpath ++ truePath.drop aliasPath.length)
  | _ => session.chrootPath.map fun _ => start

/-- `globus_i_gfs_data_check_path` -/
def checkPath (accessType : Access) (isVirtual : Bool) : Except String (Option (List Char)) :=
  let start := startPath session inPath isVirtual
  let true_ := truePath session start
  match session.activeRpList, session.rpList with
  | [], [] => .ok (session.chrootPath.map fun _ => start)
  | [], rpList => (checkList fnmatch accessType true_ start rpList).map (retPath session true_ start)
  | activeRpList, [] =>
    (checkList fnmatch accessType true_ start activeRpList).map (retPath session true_ start)
  | activeRpList, rpList =>
    match checkList fnmatch accessType true_ start activeRpList with
    | .error e => .error e
    | .ok _ => (checkList fnmatch accessType true_ start rpList).map (retPath session true_ start)

end Program

/-! ## 2. Directories above a path -/

/-- The names on the way from the root. -/
def names (path : List Char) : List (List Char) := if path = ['/'] then [] else components path

/-- Behind a whole component there is nothing, or a `/`. -/
theorem getElem?_joined (a b : List (List Char)) :
    (joined (a ++ b))[(joined a).length]? = if b = [] then none else some '/' := by
  rw [joined_append, getElem?_append_right (Nat.le_refl _), Nat.sub_self]
  cases b with
  | nil => rfl
  | cons c b => rfl

/-- A path that is cut before a `/` is cut between two components. -/
theorem components_append {dir rest : List Char} (hdir : dir.head? = some '/')
    (hrest : rest.head? = some '/') : components (dir ++ rest) = components dir ++ components rest := by
  have hjoined : dir ++ rest = joined (components dir ++ components rest) := by
    rw [joined_append, joined_components hdir, joined_components hrest]
  rw [hjoined, components_joined]
  · exact append_ne_nil_of_left_ne_nil (splitOn_ne_nil _ _) _
  · exact forall_mem_append.mpr ⟨fun _ => slash_notMem_of_mem_components, fun _ => slash_notMem_of_mem_components⟩

/-- **An entry speaks for its path and what is below.** -/
theorem covers_iff {dir path : List Char} (hdir : dir.head? = some '/')
    (hlast : dir ≠ ['/'] → dir.getLast? ≠ some '/') (hpath : path.head? = some '/') :
    covers dir path = true ↔ names dir <+: names path := by
  obtain ⟨s, hs⟩ := head?_eq_some_iff.mp hpath
  by_cases hroot : dir = ['/']
  · rw [hroot, hs]
    simp [covers, names]
  · have hdirnames : names dir = components dir := if_neg hroot
    rw [covers, Bool.and_eq_true, isPrefixOf_iff_prefix, Bool.or_eq_true, Bool.or_eq_true,
      decide_eq_true_eq, decide_eq_true_eq, decide_eq_true_eq, or_iff_right (hlast hroot), hdirnames]
    constructor
    · rintro ⟨⟨rest, rfl⟩, hnext⟩
      rw [getElem?_append_right (Nat.le_refl _), Nat.sub_self, ← head?_eq_getElem?, head?_eq_none_iff] at hnext
      rcases hnext with rfl | hslash
      · exact ⟨[], by rw [append_nil, append_nil, hdirnames]⟩
      · have hne : dir ++ rest ≠ ['/'] := by
          intro h
          have hlen := congrArg length h
          obtain ⟨d, rfl⟩ := head?_eq_some_iff.mp hdir
          obtain ⟨r, rfl⟩ := head?_eq_some_iff.mp hslash
          simp at hlen
        rw [names, if_neg hne, components_append hdir hslash]
        exact prefix_append _ _
    · rintro ⟨rest, hrest⟩
      have hne : path ≠ ['/'] := by
        intro h
        rw [h, names, if_pos rfl, append_eq_nil_iff] at hrest
        exact splitOn_ne_nil _ _ hrest.1
      rw [names, if_neg hne] at hrest
      have hjoined : path = joined (components dir ++ rest) := by rw [hrest, joined_components hpath]
      have hlen : dir.length = (joined (components dir)).length := by rw [joined_components hdir]
      constructor
      · rw [hjoined, joined_append, joined_components hdir]
        exact prefix_append _ _
      · rw [hjoined, hlen, getElem?_joined]
        by_cases hnil : rest = []
        · exact .inl (if_pos hnil)
        · exact .inr (if_neg hnil)

/-! ## 3. The deepest entry decides -/

/-- The two kinds of access the theorem is about. -/
inductive Wanted where
  | read
  | write
  deriving DecidableEq, Repr

def Wanted.access : Wanted → Access
  | .read => { read := true }
  | .write => { write := true }

def Entry.grants (e : Entry) : Wanted → Bool
  | .read => !e.denies && e.reads
  | .write => !e.denies && e.writes

theorem Entry.ent_meets (e : Entry) (wanted : Wanted) : e.ent.access.meets wanted.access = e.grants wanted := by
  rw [ent]
  cases hdenies : e.denies with
  | true | false => cases wanted <;> simp [Access.meets, Wanted.access, grants, hdenies]

section Decision

variable (fnmatch : List Char → List Char → Bool) {p : List Char}

theorem entVerdict_ent {e : Entry} (he : e.Plain) (hp : p.head? = some '/') (wanted : Wanted) :
    entVerdict fnmatch wanted.access p e.ent =
      if names e.path <+: names p then some (e.grants wanted) else none := by
  have hwild : e.ent.aliasPath.any isWildcard = false := he.1
  have hdir : wanted.access.dir = false := by cases wanted <;> rfl
  have hlist : wanted.access.list = false := by cases wanted <;> rfl
  have hcovers := covers_iff e.path_slash he.2 hp
  rw [entVerdict, hwild, hdir, hlist, e.ent_meets]
  by_cases h : names e.path <+: names p
  · rw [if_pos h]
    simp [hcovers.mpr h]
  · have hnot : covers e.path p = false := by
      rw [← Bool.not_eq_true]
      exact mt hcovers.mp h
    rw [if_neg h]
    simp [hnot]

theorem scan_fst (accessType : Access) (path : List Char) : ∀ (ents : List AliasEnt) (aliasEnt : Option AliasEnt),
      (scan fnmatch accessType path ents aliasEnt).1 = ents.findSome? (entVerdict fnmatch accessType path)
  | [], _ => rfl
  | ent :: ents, _ => by
    rw [scan, findSome?_cons]
    cases entVerdict fnmatch accessType path ent with
    | none => exact scan_fst accessType path ents (some ent)
    | some verdict => rfl

/-- Where a path is what it seems to be, a list allows it if its first word on it does. -/
theorem checkList_ok_iff (accessType : Access) (path : List Char) (ents : List AliasEnt) :
    (∃ aliasEnt, checkList fnmatch accessType path path ents = .ok aliasEnt) ↔
      ents.findSome? (entVerdict fnmatch accessType path) = some true := by
  rw [← scan_fst fnmatch accessType path ents none, checkList]
  cases scan fnmatch accessType path ents none with
  | mk verdict aliasEnt =>
    rcases verdict with _ | _ | _
    · simp
    · simp
    · simp

theorem exists_map_ok {α β : Type} {x : Except String α} {f : α → β} : (∃ r, x.map f = .ok r) ↔ ∃ a, x = .ok a := by
  cases x with
  | error | ok => simp [Except.map]

theorem checkPath_ok_iff {s : Session} {ents : List AliasEnt} (hchroot : s.chrootPath = none)
    (hreal : s.realpath = none) (hne : ents ≠ [])
    (hlists : s.activeRpList = ents ∧ s.rpList = [] ∨ s.activeRpList = [] ∧ s.rpList = ents)
    (accessType : Access) (isVirtual : Bool) : (∃ r, checkPath fnmatch s p accessType isVirtual = .ok r) ↔
      ents.findSome? (entVerdict fnmatch accessType p) = some true := by
  have hstart : startPath s p isVirtual = p := by rw [startPath, hchroot]
  have htrue : truePath s p = p := by rw [truePath, hreal]
  rw [← checkList_ok_iff, checkPath, hstart, htrue]
  obtain ⟨ent, ents, rfl⟩ := exists_cons_of_ne_nil hne
  rcases hlists with ⟨hactive, hrp⟩ | ⟨hactive, hrp⟩
  · rw [hactive, hrp]
    exact exists_map_ok
  · rw [hactive, hrp]
    exact exists_map_ok

theorem lt_of_isPrefix {s t : List Char} (h : s <+: t) (hlen : s.length < t.length) : s < t := by
  obtain ⟨rest, rfl⟩ := h
  cases rest with
  | nil => simp at hlen
  | cons c rest =>
    have hlex : List.Lex (· < ·) (s ++ []) (s ++ c :: rest) := List.Lex.append_left _ .nil s
    rwa [append_nil] at hlex

theorem isPrefix_of_names {e : Entry} (he : e.Plain) (hp : p.head? = some '/')
    (h : names e.path <+: names p) : e.path <+: p := by
  have hcovers := (covers_iff e.path_slash he.2 hp).mpr h
  rw [covers, Bool.and_eq_true, isPrefixOf_iff_prefix] at hcovers
  exact hcovers.1

/-- `e` is the longest entry that speaks for `p`. -/
def Longest (es : List Entry) (p : List Char) (e : Entry) : Prop :=
  e ∈ es ∧ names e.path <+: names p ∧
    ∀ e' ∈ es, names e'.path <+: names p → e'.path.length ≤ e.path.length

theorem Longest.unique {es : List Entry} {e e' : Entry} (hplain : ∀ e ∈ es, e.Plain)
    (hdistinct : (es.map path).Nodup) (hp : p.head? = some '/') (h : Longest es p e) (h' : Longest es p e') : e = e' := by
  have hpre := isPrefix_of_names (hplain e h.1) hp h.2.1
  have hpre' := isPrefix_of_names (hplain e' h'.1) hp h'.2.1
  have hlen := h'.2.2 e h.1 h.2.1
  have hlen' := h.2.2 e' h'.1 h'.2.1
  refine inj_on_of_nodup_map hdistinct h.1 h'.1 ?_
  exact (prefix_of_prefix_length_le hpre hpre' hlen).eq_of_length (by omega)

variable {es : List Entry} {ents : List AliasEnt}

/-- The first entry of the sorted list that speaks for a path is the longest: a shorter one would be
a part of it, and so be behind it. -/
theorem longest_of_findSome? (hplain : ∀ e ∈ es, e.Plain) (hp : p.head? = some '/') (hperm : ents.Perm (es.map ent))
    (hsorted : ents.Pairwise fun a b => sortKey b.aliasPath ≤ sortKey a.aliasPath) {wanted : Wanted} {v : Bool}
    (h : ents.findSome? (entVerdict fnmatch wanted.access p) = some v) : ∃ e, Longest es p e ∧ e.grants wanted = v := by
  obtain ⟨l₁, a, l₂, rfl, ha, hl₁⟩ := findSome?_eq_some_iff.mp h
  obtain ⟨e, he, rfl⟩ := mem_map.mp (hperm.subset (by simp : a ∈ l₁ ++ a :: l₂))
  rw [entVerdict_ent fnmatch (hplain e he) hp] at ha
  split at ha
  next hnames =>
    refine ⟨e, ⟨he, hnames, fun e' he' hnames' => ?_⟩, Option.some.inj ha⟩
    have hmem : e'.ent ∈ l₁ ++ e.ent :: l₂ := hperm.symm.subset (mem_map_of_mem he')
    rcases mem_append.mp hmem with hmem | hmem
    · have hnone := hl₁ _ hmem
      rw [entVerdict_ent fnmatch (hplain e' he') hp, if_pos hnames'] at hnone
      cases hnone
    rcases mem_cons.mp hmem with heq | hmem
    · have hpath : e'.path = e.path := congrArg AliasEnt.aliasPath heq
      rw [hpath]
    · have hle := (pairwise_cons.mp (pairwise_append.mp hsorted).2.1).1 _ hmem
      have hle : e'.path ≤ e.path := by
        rwa [ent_aliasPath, ent_aliasPath, sortKey_eq (hplain e' he').1, sortKey_eq (hplain e he).1] at hle
      by_contra hlen
      have hlen := Nat.lt_of_not_le hlen
      have hpre := prefix_of_prefix_length_le (isPrefix_of_names (hplain e he) hp hnames)
        (isPrefix_of_names (hplain e' he') hp hnames') (Nat.le_of_lt hlen)
      exact absurd hle (not_le_of_gt (lt_of_isPrefix hpre hlen))
  · cases ha

theorem findSome?_true_iff (hplain : ∀ e ∈ es, e.Plain) (hdistinct : (es.map path).Nodup)
    (hp : p.head? = some '/') (hperm : ents.Perm (es.map ent))
    (hsorted : ents.Pairwise fun a b => sortKey b.aliasPath ≤ sortKey a.aliasPath) (wanted : Wanted) :
    ents.findSome? (entVerdict fnmatch wanted.access p) = some true ↔ ∃ e, Longest es p e ∧ e.grants wanted := by
  constructor
  · exact longest_of_findSome? fnmatch hplain hp hperm hsorted
  · rintro ⟨e, he, hgrants⟩
    have hsome : ents.findSome? (entVerdict fnmatch wanted.access p) ≠ none := by
      intro hnone
      have hent := findSome?_eq_none_iff.mp hnone e.ent (hperm.symm.subset (mem_map_of_mem he.1))
      rw [entVerdict_ent fnmatch (hplain e he.1) hp, if_pos he.2.1] at hent
      cases hent
    obtain ⟨v, hv⟩ := Option.ne_none_iff_exists'.mp hsome
    obtain ⟨e', he', rfl⟩ := longest_of_findSome? fnmatch hplain hp hperm hsorted hv
    rw [hv, ← he.unique hplain hdistinct hp he', hgrants]

end Decision

/-- `RW/home` -/
def homeEntry : Entry := ⟨['R', 'W'], "/home".toList, by simp, by decide, by decide⟩

/-- `N/home/p` -/
def privateEntry : Entry := ⟨['N'], "/home/p".toList, by simp, by decide, by decide⟩

end Gct.RestrictedPaths
