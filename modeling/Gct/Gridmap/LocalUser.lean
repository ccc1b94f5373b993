/-
# The DN of a local account

`globus_gss_assist_map_local_user` looks for a line on which the account is the first one, the default.  A line that
lists it further back is kept aside for the case that there is no such line.  But after the loop the line kept aside is
parsed again whenever there is one, also when a default was found behind it.  So the answer is the first line that lists
the account in any place (`findLocalUser_eq`), and the default is preferred only if its DN is that of this line
(`prefersDefault_iff`).
-/
import Gct.Gridmap.File

namespace Gct.Gridmap

open List

local instance lawful : LawfulBEq (List Char) := inferInstance

/-! ## 1. The lookup -/

variable (user : List Char)

/-- The loop of `globus_i_gss_assist_gridmap_find_local_user`, and what follows it. -/
def findLocalUser : Option (List Char) → List (List Char) → Except FormatError (Option GridmapLine)
  | none, [] => .ok none
  | some nondefaultLine, [] => parseLine nondefaultLine
  | nondefaultLine, line :: rest =>
    match parseLine line with
    | .error _ => findLocalUser nondefaultLine rest
    | .ok none => findLocalUser nondefaultLine rest
    | .ok (some gline) =>
      if gline.userIds.head? = some user then
        match nondefaultLine with
        | none => .ok (some gline)
        | some nondefaultLine => parseLine nondefaultLine
      else if user ∈ gline.userIds then findLocalUser (nondefaultLine.or (some line)) rest
      else findLocalUser nondefaultLine rest

variable (globusid : List Char → Option (List Char)) (file : List Char)

/-- `globus_gss_assist_map_local_user`: the DN if it returns 0.  `globusid` is `gridmapdir_globusid`, which is asked last. -/
def mapLocalUser : Option (List Char) :=
  match findLocalUser user none (lines file) with
  | .ok (some gline) => some gline.dn
  | _ => globusid user

/-! ## 2. What is documented -/

/-- The entry of a line, if it has one. -/
def entry? (line : List Char) : Option GridmapLine := (parseLine line).toOption.join

def glines : List GridmapLine := (lines file).filterMap entry?

/-- The first line on which the account is the default. -/
def defaultLine : Option GridmapLine := (glines file).find? (·.userIds.head? = some user)

/-- The first line that lists the account at all. -/
def listedLine : Option GridmapLine := (glines file).find? (user ∈ ·.userIds)

def PrefersDefault : Prop :=
  mapLocalUser user globusid file = ((defaultLine user file).or (listedLine user file)).map (·.dn)

/-! ## 3. What is found -/

variable {user globusid file}

theorem findLocalUser_some {kept : List Char} (ls : List (List Char)) :
    findLocalUser user (some kept) ls = parseLine kept := by
  induction ls with
  | nil => rfl
  | cons line rest ih =>
    unfold findLocalUser
    split
    · exact ih
    · exact ih
    · split_ifs
      · rfl
      · exact ih
      · exact ih

theorem findLocalUser_eq (ls : List (List Char)) :
    findLocalUser user none ls = .ok ((ls.filterMap entry?).find? (user ∈ ·.userIds)) := by
  induction ls with
  | nil => rfl
  | cons line rest ih =>
    unfold findLocalUser
    rw [filterMap_cons, entry?]
    split
    next h => simpa [h, Except.toOption] using ih
    next h => simpa [h, Except.toOption] using ih
    next gline h =>
      split_ifs with hdefault hmem
      · have hmem := mem_of_mem_head? hdefault
        simp [h, Except.toOption, hmem]
      · rw [Option.none_or, findLocalUser_some, h]
        simp [Except.toOption, hmem]
      · simpa [h, Except.toOption, hmem] using ih

/-- **An account that the file lists gets the DN that is documented exactly if the first line that lists it has the DN
of the line on which it is the default.** -/
theorem prefersDefault_iff (h : ∃ gline ∈ glines file, user ∈ gline.userIds) :
    PrefersDefault user globusid file ↔
      ∀ default ∈ defaultLine user file, ∀ listed ∈ listedLine user file, listed.dn = default.dn := by
  obtain ⟨listed, hlisted⟩ : ∃ listed, listedLine user file = some listed :=
    Option.isSome_iff_exists.mp (find?_isSome.mpr (by simpa using h))
  have hmap : mapLocalUser user globusid file = some listed.dn := by
    rw [mapLocalUser, findLocalUser_eq, ← glines, ← listedLine, hlisted]
  rw [PrefersDefault, hmap, hlisted]
  cases hdefault : defaultLine user file with
  | none => simp
  | some default => simp

theorem prefersDefault_sharedLine : PrefersDefault "bob".toList (fun _ => none) "\"/CN=a\" alice,bob\n".toList :=
  (prefersDefault_iff ⟨⟨"/CN=a".toList, ["alice".toList, "bob".toList]⟩, by decide, by decide⟩).mpr (by decide)

/-- **`bob` is the default of the second line, but the DN is that of the first one.** -/
theorem not_prefersDefault_laterLine :
    mapLocalUser "bob".toList (fun _ => none) "\"/CN=a\" alice,bob\n\"/CN=b\" bob\n".toList = some "/CN=a".toList ∧
      defaultLine "bob".toList "\"/CN=a\" alice,bob\n\"/CN=b\" bob\n".toList =
        some ⟨"/CN=b".toList, ["bob".toList]⟩ ∧
      ¬ PrefersDefault "bob".toList (fun _ => none) "\"/CN=a\" alice,bob\n\"/CN=b\" bob\n".toList := by
  refine ⟨by decide, by decide, ?_⟩
  unfold PrefersDefault
  decide

end Gct.Gridmap
