/-
# Restricted paths: the mapped path

When the last list has allowed a path, the entry at which its last search stopped gives the path to use: the
realpath of the entry, and what follows in the checked path behind as many characters as its alias has.  That
entry need not begin the path.  A directory above an alias may be listed, and is shorter than the alias; a
wildcard is longer or shorter than what it matches; and a path that is not what it seems to be is searched for
a second time, as it was given, where the last entry is left if none speaks for it.
-/
import Gct.RestrictedPaths.Check

namespace Gct.RestrictedPaths

open List

/-- The list that is searched last. -/
def Session.lastList (session : Session) : List AliasEnt :=
  if session.rpList = [] then session.activeRpList else session.rpList

section Mapping

variable (fnmatch : List Char → List Char → Bool) (session : Session) (inPath : List Char) (accessType : Access)
  (isVirtual : Bool)

/-- The path that is checked. -/
def checkedPath : List Char := truePath session (startPath session inPath isVirtual)

/-- If the path is permitted and mapped through an entry with a realpath, that entry has granted the access,
begins the path, and only its part of the path is replaced. -/
def MapsRight : Prop :=
  ∀ mapped ent realpath, checkPath fnmatch session inPath accessType isVirtual = .ok mapped →
    checkList fnmatch accessType (checkedPath session inPath isVirtual) (startPath session inPath isVirtual)
      session.lastList = .ok (some ent) → ent.realpath = some realpath →
    entVerdict fnmatch accessType (checkedPath session inPath isVirtual) ent = some true ∧
      ∃ rest, checkedPath session inPath isVirtual = ent.aliasPath ++ rest ∧ mapped = some (realpath ++ rest)

variable {fnmatch session inPath accessType isVirtual} {ent : AliasEnt}

/-- The last list has the last word. -/
theorem eq_retPath_of_checkPath {mapped : Option (List Char)}
    (h : checkPath fnmatch session inPath accessType isVirtual = .ok mapped)
    (hlast : checkList fnmatch accessType (checkedPath session inPath isVirtual)
      (startPath session inPath isVirtual) session.lastList = .ok (some ent)) :
    mapped = retPath session (checkedPath session inPath isVirtual) (startPath session inPath isVirtual) (some ent) := by
  unfold checkedPath Session.lastList at *
  simp only [checkPath] at h
  split at h
  next hactive hrp =>
    rw [hactive, hrp] at hlast
    cases hlast
  next hrp =>
    rw [if_neg hrp] at hlast
    rw [hlast] at h
    exact (Except.ok.inj h).symm
  next hrp _ =>
    rw [if_pos hrp] at hlast
    rw [hlast] at h
    exact (Except.ok.inj h).symm
  next hrp _ =>
    rw [if_neg hrp] at hlast
    split at h
    · cases h
    · rw [hlast] at h
      exact (Except.ok.inj h).symm

theorem scan_eq_some {path : List Char} {verdict : Bool} : ∀ {ents : List AliasEnt} {aliasEnt : Option AliasEnt},
      scan fnmatch accessType path ents aliasEnt = (some verdict, some ent) →
        ent ∈ ents ∧ entVerdict fnmatch accessType path ent = some verdict
  | e :: ents, _, h => by
    rw [scan] at h
    split at h
    next hverdict =>
      obtain ⟨rfl, rfl⟩ : _ = verdict ∧ e = ent := by simpa using h
      exact ⟨mem_cons_self, hverdict⟩
    · obtain ⟨hmem, hverdict⟩ := scan_eq_some h
      exact ⟨mem_cons_of_mem _ hmem, hverdict⟩

/-- An entry without wildcards that allows a path begins it, or lies in it. -/
theorem isPrefix_of_entVerdict {path : List Char}
    (h : entVerdict fnmatch accessType path ent = some true) (hwild : ent.aliasPath.any isWildcard = false) :
    ent.aliasPath <+: path ∨ accessType.list = true ∧ covers path ent.aliasPath = true := by
  simp only [entVerdict, hwild, Bool.false_eq_true, if_false] at h
  split at h
  · cases h
  split at h
  next hcovers =>
    rw [covers, Bool.and_eq_true, isPrefixOf_iff_prefix] at hcovers
    exact .inl hcovers.1
  split at h
  next hlist =>
    rw [Bool.and_eq_true, Bool.and_eq_true] at hlist
    exact .inr hlist.1
  · cases h

end Mapping

/-- The entry of `RW/srv/data:/a/b`. -/
def dataEntry : AliasEnt := ⟨"/a/b".toList, some "/srv/data".toList, { read := true, write := true, list := true }⟩

end Gct.RestrictedPaths
