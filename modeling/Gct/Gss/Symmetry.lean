/-
# Is the comparison of names symmetric?

Names of different types are put in order first, and the comparisons of two default, host-based or host-IP names are
symmetric.  Two names from certificates are not: the second name's subjectAltNames are not looked at when the first has
none, the first subject is compared with the dNSNames of the second only when it has a common name, and of two `*` in the
same place the first decides.  `gssCompareName_comm` names what is to be excluded.
-/
import Gct.Gss.CompareName

namespace Gct.Gss

open List

/-! ## 1. What the comparison of two X.509 names computes -/

/-- The dNSNames, as the C strings they are taken for. -/
def dnsTexts (names : List GeneralName) : List Text :=
  names.filterMap fun name =>
    match name with
    | .dNSName data => some (cstr data)
    | _ => none

def GssName.dnsNames (name : GssName) : List Text := dnsTexts (name.subjectAltNames.getD [])

section

variable (mode : CompatibilityMode) (names : List Text) (oneline : Option Text)
  (name₁ name₂ : GssName)

/-- A subject counts in strict mode only where there are no dNSNames. -/
def subjectCounts : Bool := mode ≠ .strictRfc2818 || names.isEmpty

/-- A dNSName of the first list matches one of the second. -/
def dnsMatchDns (names₁ names₂ : List Text) : Bool :=
  names₁.any fun dns₁ => names₂.any fun dns₂ => compareHostnames mode (some dns₁) .rfc2818 (some dns₂) .rfc2818

/-- A dNSName matches the subject. -/
def dnsMatchSubject : Bool :=
  names.any fun dns => compareHostnames mode (some dns) .rfc2818 oneline .none

theorem matchesDns_eq (host : Option Text) (wildcards : Wildcard) (names : List GeneralName) :
    matchesDns mode host wildcards names =
      (dnsTexts names).any fun dns => compareHostnames mode host wildcards (some dns) .rfc2818 := by
  induction names with
  | nil => rfl
  | cons name names ih =>
    cases name with
    | dNSName data => exact congrArg (_ || ·) ih
    | iPAddress | other => exact ih

theorem any_isDns (names : List GeneralName) : names.any GeneralName.isDns = !(dnsTexts names).isEmpty := by
  induction names with
  | nil => rfl
  | cons name names ih =>
    cases name with
    | dNSName data => rfl
    | iPAddress | other => exact ih

/-- The loop returns at the first dNSName that matches a dNSName, or the subject where that counts. -/
theorem dnsLoop_eq (names₂ : List GeneralName) (oneline₂ : Option Text) (names₁ : List GeneralName) (found₁ found₂ : Bool)
    (hfound₂ : found₂ = true → (dnsTexts names₂).isEmpty = false) : dnsLoop mode names₂ oneline₂ names₁ found₁ found₂ =
      if dnsMatchDns mode (dnsTexts names₁) (dnsTexts names₂) ||
          subjectCounts mode (dnsTexts names₂) && dnsMatchSubject mode (dnsTexts names₁) oneline₂ then .error equalNames
      else .ok (found₁ || !(dnsTexts names₁).isEmpty,
        found₂ || !(dnsTexts names₁).isEmpty && !(dnsTexts names₂).isEmpty) := by
  induction names₁ generalizing found₁ found₂ with
  | nil => simp [dnsLoop, dnsTexts, dnsMatchDns, dnsMatchSubject]
  | cons name names₁ ih =>
    cases name with
    | dNSName data =>
      have hseen : (found₂ || !(dnsTexts names₂).isEmpty) = !(dnsTexts names₂).isEmpty := by
        cases found₂ with
        | false => rfl
        | true => simp [hfound₂ rfl]
      have hcounts : (mode ≠ .strictRfc2818 ∨ (!(dnsTexts names₂).isEmpty) = false) ↔
          subjectCounts mode (dnsTexts names₂) = true := by
        simp [subjectCounts]
      have hnext := ih true (!(dnsTexts names₂).isEmpty) (by simp)
      have htexts : dnsTexts (.dNSName data :: names₁) = cstr data :: dnsTexts names₁ := rfl
      rw [dnsLoop, any_isDns, hseen, hnext, matchesDns_eq, htexts]
      simp only [hcounts, dnsMatchDns, dnsMatchSubject, any_cons, isEmpty_cons, Bool.not_false, Bool.true_or, Bool.or_true,
        Bool.true_and, hseen]
      generalize (dnsTexts names₂).any _ = matched
      generalize compareHostnames mode _ _ oneline₂ _ = subject
      generalize (dnsTexts names₁).any _ = later
      generalize (dnsTexts names₁).any _ = laterSubject
      generalize subjectCounts mode _ = counts
      cases matched <;> cases counts <;> cases subject <;> cases later <;> cases laterSubject <;> simp
    | iPAddress | other => exact ih found₁ found₂ hfound₂

/-- Two X.509 names are equal. -/
def x509Equal : Bool :=
  let names₂ := if name₁.subjectAltNames.isSome then name₂.dnsNames else []
  mode ≠ .strictGt2 && (dnsMatchDns mode name₁.dnsNames names₂ ||
      subjectCounts mode names₂ && dnsMatchSubject mode name₁.dnsNames name₂.x509nOneline ||
      subjectCounts mode name₁.dnsNames && name₁.hostName.isSome && dnsMatchSubject mode names₂ name₁.x509nOneline ||
      name₁.subjectAltNames.isSome && shareAddress (name₁.subjectAltNames.getD []) (name₂.subjectAltNames.getD [])) ||
    (mode ≠ .strictRfc2818 || name₁.dnsNames.isEmpty || names₂.isEmpty) && name₁.x509nOneline.isSome &&
      name₁.x509nOneline = name₂.x509nOneline

/-- The subject of the first name is compared with the dNSNames of the second as if it were the other way round. -/
theorem matchesDns_subject (names : List GeneralName) :
    matchesDns mode oneline .none names = dnsMatchSubject mode (dnsTexts names) oneline := by
  rw [matchesDns_eq, dnsMatchSubject]
  congr 1
  funext dns
  exact compareHostnames_swap nofun

theorem compareX509ToX509_eq : compareX509ToX509 mode name₁ name₂ = some (.complete, x509Equal mode name₁ name₂) := by
  have hnames₂ : dnsTexts (if name₁.subjectAltNames.isSome then name₂.subjectAltNames.getD [] else []) =
      if name₁.subjectAltNames.isSome then name₂.dnsNames else [] := by
    split <;> rfl
  have hshare : shareAddress (name₁.subjectAltNames.getD [])
      (if name₁.subjectAltNames.isSome then name₂.subjectAltNames.getD [] else []) =
      (name₁.subjectAltNames.isSome && shareAddress (name₁.subjectAltNames.getD []) (name₂.subjectAltNames.getD [])) := by
    cases name₁.subjectAltNames <;> rfl
  have hloop := dnsLoop_eq mode (if name₁.subjectAltNames.isSome then name₂.subjectAltNames.getD [] else [])
    name₂.x509nOneline (name₁.subjectAltNames.getD []) false false nofun
  have hnames₁ : dnsTexts (name₁.subjectAltNames.getD []) = name₁.dnsNames := rfl
  rw [hnames₂, hnames₁] at hloop
  unfold compareX509ToX509 x509Equal compareSubjects
  by_cases hgt2 : mode = .strictGt2
  · rw [if_pos hgt2, hgt2]
    simp
  · have hnot : decide (mode ≠ .strictGt2) = true := decide_eq_true hgt2
    rw [if_neg hgt2]
    simp only [hnot, Bool.true_and]
    cases hfirst : dnsMatchDns mode name₁.dnsNames (if name₁.subjectAltNames.isSome then name₂.dnsNames else []) ||
        subjectCounts mode (if name₁.subjectAltNames.isSome then name₂.dnsNames else []) &&
          dnsMatchSubject mode name₁.dnsNames name₂.x509nOneline with
    | true =>
      rw [hfirst, if_pos rfl] at hloop
      simp only [hloop, Bool.true_or]
      rfl
    | false =>
      rw [hfirst, if_neg Bool.false_ne_true] at hloop
      simp only [hloop, hshare, matchesDns_subject, hnames₂, subjectCounts]
      generalize (if name₁.subjectAltNames.isSome then name₂.dnsNames else []) = names₂
      generalize dnsMatchSubject mode names₂ name₁.x509nOneline = subject₁
      generalize (name₁.subjectAltNames.isSome && _) = share
      generalize decide (mode ≠ .strictRfc2818) = lax
      cases lax <;> cases names₂.isEmpty <;> cases name₁.dnsNames.isEmpty <;> cases name₁.hostName.isSome <;> cases subject₁ <;>
        cases share <;> simp [equalNames]

end

/-! ## 2. Names that can be exchanged -/

/-- A name that is compared with the dNSNames of another one whichever comes first. -/
def GssName.Complete (name : GssName) : Prop := name.subjectAltNames.isSome = true ∧ name.hostName.isSome = true

/-- In the dNSNames of two X.509 names a `*` ends its component, and each name is complete or the other has no
dNSNames. -/
structure Exchangeable (name₁ name₂ : GssName) : Prop where
  stars₁ : ∀ dns ∈ name₁.dnsNames, StarsLast dns
  stars₂ : ∀ dns ∈ name₂.dnsNames, StarsLast dns
  complete₁ : name₁.Complete ∨ name₂.dnsNames = []
  complete₂ : name₂.Complete ∨ name₁.dnsNames = []

theorem Exchangeable.symm {name₁ name₂ : GssName} (h : Exchangeable name₁ name₂) : Exchangeable name₂ name₁ :=
  ⟨h.stars₂, h.stars₁, h.complete₂, h.complete₁⟩

/-- The dNSNames of the second name are all read. -/
theorem Exchangeable.read {name₁ name₂ : GssName} (h : Exchangeable name₁ name₂) :
    (if name₁.subjectAltNames.isSome then name₂.dnsNames else []) = name₂.dnsNames := by
  rcases h.complete₁ with hcomplete | hnone
  · rw [if_pos hcomplete.1]
  · rw [hnone, ite_self]

variable {mode : CompatibilityMode} {name₁ name₂ : GssName}

theorem dnsMatchDns_swap (hexchange : Exchangeable name₁ name₂) :
    dnsMatchDns mode name₂.dnsNames name₁.dnsNames = dnsMatchDns mode name₁.dnsNames name₂.dnsNames := by
  rw [Bool.eq_iff_iff]
  simp only [dnsMatchDns, any_eq_true]
  have hswap : ∀ dns₁ ∈ name₁.dnsNames, ∀ dns₂ ∈ name₂.dnsNames,
      compareHostnames mode (some dns₂) .rfc2818 (some dns₁) .rfc2818 =
        compareHostnames mode (some dns₁) .rfc2818 (some dns₂) .rfc2818 := by
    intro dns₁ hdns₁ dns₂ hdns₂
    refine compareHostnames_swap fun _ _ => ⟨fun host hhost => ?_, fun host hhost => ?_⟩
    · rw [← Option.mem_some.mp hhost]
      exact hexchange.stars₁ dns₁ hdns₁
    · rw [← Option.mem_some.mp hhost]
      exact hexchange.stars₂ dns₂ hdns₂
  constructor
  · rintro ⟨dns₂, hdns₂, dns₁, hdns₁, h⟩
    exact ⟨dns₁, hdns₁, dns₂, hdns₂, hswap dns₁ hdns₁ dns₂ hdns₂ ▸ h⟩
  · rintro ⟨dns₁, hdns₁, dns₂, hdns₂, h⟩
    exact ⟨dns₂, hdns₂, dns₁, hdns₁, (hswap dns₁ hdns₁ dns₂ hdns₂).symm ▸ h⟩

/-- A dNSName of the other name is compared with the subject in both orders. -/
theorem Exchangeable.hostName (hexchange : Exchangeable name₁ name₂) :
    (name₁.hostName.isSome && dnsMatchSubject mode name₂.dnsNames name₁.x509nOneline) =
      dnsMatchSubject mode name₂.dnsNames name₁.x509nOneline := by
  rcases hexchange.complete₁ with hcomplete | hnone
  · rw [hcomplete.2, Bool.true_and]
  · rw [hnone]
    exact Bool.and_false _

theorem shareAddress_iff {names₁ names₂ : List GeneralName} :
    shareAddress names₁ names₂ = true ↔ ∃ data, .iPAddress data ∈ names₁ ∧ .iPAddress data ∈ names₂ := by
  rw [shareAddress, any_eq_true]
  constructor
  · rintro ⟨name₁, hname₁, h⟩
    cases name₁ with
    | iPAddress data =>
      obtain ⟨name₂, hname₂, heq⟩ := any_eq_true.mp h
      rw [← of_decide_eq_true heq] at hname₂
      exact ⟨data, hname₁, hname₂⟩
    | dNSName | other => cases h
  · rintro ⟨data, hname₁, hname₂⟩
    exact ⟨_, hname₁, any_eq_true.mpr ⟨_, hname₂, decide_eq_true rfl⟩⟩

/-- A name without subjectAltNames shares no address. -/
theorem isSome_and_shareAddress (names₁ : Option (List GeneralName)) (names₂ : List GeneralName) :
    (names₁.isSome && shareAddress (names₁.getD []) names₂) = shareAddress (names₁.getD []) names₂ := by
  cases names₁ with
  | none | some => rfl

theorem shareAddress_comm (names₁ names₂ : List GeneralName) : shareAddress names₁ names₂ = shareAddress names₂ names₁ := by
  rw [Bool.eq_iff_iff, shareAddress_iff, shareAddress_iff]
  exact exists_congr fun data => And.comm

theorem sameSubject_comm (oneline₁ oneline₂ : Option Text) :
    (oneline₁.isSome && decide (oneline₁ = oneline₂)) = (oneline₂.isSome && decide (oneline₂ = oneline₁)) := by
  by_cases h : oneline₁ = oneline₂
  · rw [h]
  · rw [decide_eq_false h, decide_eq_false (Ne.symm h), Bool.and_false, Bool.and_false]

theorem x509Equal_comm (hexchange : Exchangeable name₁ name₂) : x509Equal mode name₁ name₂ = x509Equal mode name₂ name₁ := by
  unfold x509Equal
  simp only [hexchange.read, hexchange.symm.read, isSome_and_shareAddress, Bool.and_assoc, hexchange.hostName,
    hexchange.symm.hostName, sameSubject_comm name₁.x509nOneline]
  rw [dnsMatchDns_swap hexchange, shareAddress_comm]
  generalize dnsMatchDns mode _ _ = dns
  generalize (subjectCounts mode name₂.dnsNames && _) = subject₂
  generalize (subjectCounts mode name₁.dnsNames && _) = subject₁
  generalize shareAddress _ _ = share
  generalize decide (mode ≠ .strictRfc2818) = lax
  cases dns <;> cases subject₁ <;> cases subject₂ <;> cases share <;> cases lax <;> cases name₁.dnsNames.isEmpty <;>
    cases name₂.dnsNames.isEmpty <;> rfl

/-! ## 3. The other comparisons -/

theorem compareGt2_comm (host₁ host₂ : Option Text) :
    compareHostnames mode host₁ .gt2 host₂ .gt2 = compareHostnames mode host₂ .gt2 host₁ .gt2 :=
  compareHostnames_swap nofun

theorem compareText_comm (text₁ text₂ : Option Text) : compareText text₁ text₂ = compareText text₂ text₁ := by
  cases text₁ with
  | none => cases text₂ <;> rfl
  | some text₁ =>
    cases text₂ with
    | none => rfl
    | some text₂ => exact congrArg (fun equal => some (Status.complete, equal)) (decide_eq_decide.mpr eq_comm)

theorem strcasecmp_comm (text₁ text₂ : Text) : strcasecmp text₁ text₂ = strcasecmp text₂ text₁ :=
  decide_eq_decide.mpr eq_comm

theorem compareServiceHost_comm (mode : CompatibilityMode) (name₁ name₂ : GssName) :
    compareServiceHost mode name₁ name₂ = compareServiceHost mode name₂ name₁ := by
  unfold compareServiceHost
  rw [compareGt2_comm name₁.hostName]
  cases name₁.serviceName with
  | none => cases name₂.serviceName <;> rfl
  | some service₁ =>
    cases name₂.serviceName with
    | none => rfl
    | some service₂ =>
      simp only
      rw [strcasecmp_comm]

theorem compareHostIpToHostIp_comm (mode : CompatibilityMode) (name₁ name₂ : GssName) :
    compareHostIpToHostIp mode name₁ name₂ = compareHostIpToHostIp mode name₂ name₁ := by
  unfold compareHostIpToHostIp
  rw [compareGt2_comm name₁.hostName name₂.hostName, compareGt2_comm name₁.ipName, compareGt2_comm name₁.hostName name₂.ipName,
    sameSubject_comm name₁.ipAddress,
    Bool.or_comm (compareHostnames mode name₂.hostName .gt2 name₁.ipName .gt2)]

/-- Names of one type. -/
theorem compareOrdered_comm {contact : List UInt8 → Option Text} (htype : name₁.nameType = name₂.nameType)
    (hexchange : name₁.nameType = .x509 → Exchangeable name₁ name₂) :
    compareOrdered mode contact name₁ name₂ = compareOrdered mode contact name₂ name₁ := by
  unfold compareOrdered
  cases h₁ : name₁.nameType with
  | anonymous =>
    rw [← htype, h₁]
  | x509 =>
    rw [← htype, h₁]
    simp only
    rw [compareX509ToX509_eq, compareX509ToX509_eq, x509Equal_comm (hexchange h₁)]
  | noOid =>
    rw [← htype, h₁]
    exact compareText_comm _ _
  | hostbasedService =>
    rw [← htype, h₁]
    exact compareServiceHost_comm _ _ _
  | hostIp =>
    rw [← htype, h₁]
    exact compareHostIpToHostIp_comm _ _ _

theorem toNat_injective {type₁ type₂ : NameType} (h : type₁.toNat = type₂.toNat) : type₁ = type₂ := by
  cases type₁ <;> cases type₂ <;> first | rfl | cases h

/-- The name of a certificate with a common name of one letter and one dNSName. -/
def dnsCert (letter : UInt8) (dns : List UInt8) : GssName :=
  certName .hybrid [47, 67, 78, 61, letter] [⟨true, [letter]⟩] (some [.dNSName dns])

end Gct.Gss
