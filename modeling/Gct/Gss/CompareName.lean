/-
# Comparing GSS names

`gss_compare_name` puts the two names in the order of their types and calls the function for the two types.  Names from
certificates have a subject, the host and service of its common name, and subjectAltNames; the strings of a certificate
carry a length, but are handled as C strings, which end at the first NUL (`cstr`).

The functions return in the middle of their loops; here a loop that has returned is `Except.error` with the result.
-/
import Gct.Gss.Hostname
import Gct.Gss.Mic

namespace Gct.Gss

/-! ## 1. Names -/

inductive GeneralName
  | dNSName (data : List UInt8)
  | iPAddress (data : List UInt8)
  | other
  deriving DecidableEq, Repr

/-- In the order of `gss_l_compare_type_t`. -/
inductive NameType
  | anonymous
  | x509
  | noOid
  | hostbasedService
  | hostIp
  deriving DecidableEq, Repr

def NameType.toNat : NameType → Nat
  | anonymous => 0
  | x509 => 1
  | noOid => 2
  | hostbasedService => 3
  | hostIp => 4

structure GssName where
  nameType : NameType
  x509nOneline : Option Text
  subjectAltNames : Option (List GeneralName)
  serviceName : Option Text
  hostName : Option Text
  ipAddress : Option Text
  ipName : Option Text
  deriving DecidableEq, Repr

/-- What a `char *` to the bytes is taken for. -/
def cstr (data : List UInt8) : Text := data.takeWhile (· ≠ 0)

/-- `host` -/
def hostText : Text := [104, 111, 115, 116]

def strcasecmp (text₁ text₂ : Text) : Bool := text₁.map tolower = text₂.map tolower

/-- An entry of a subject. -/
structure SubjectEntry where
  isCommonName : Bool
  data : List UInt8
  deriving DecidableEq, Repr

/-- `globus_i_gsi_gssapi_get_hostname`: service and host of the first common name. -/
def getHostname (mode : CompatibilityMode) (subject : List SubjectEntry) : Option Text × Option Text :=
  match subject.find? SubjectEntry.isCommonName with
  | none => (none, none)
  | some entry =>
    match entry.data.dropWhile (· ≠ slash) with
    | _ :: host => (some (cstr (entry.data.takeWhile (· ≠ slash))), some (cstr host))
    | [] => (if mode = .strictRfc2818 then some hostText else none, some (cstr entry.data))

/-- The name of a certificate. -/
def certName (mode : CompatibilityMode) (oneline : Text) (subject : List SubjectEntry)
    (subjectAltNames : Option (List GeneralName)) : GssName where
  nameType := .x509
  x509nOneline := some oneline
  subjectAltNames := subjectAltNames
  serviceName := (getHostname mode subject).1
  hostName := (getHostname mode subject).2
  ipAddress := none
  ipName := none

/-! ## 2. Results -/

/-- The status and `name_equal`; `none` where the function reads through a null pointer or writes behind an array. -/
abbrev Comparison := Option (Status × Bool)

/-- A loop of a function: it has returned, or goes on with a value. -/
abbrev Body (α : Type) := Except Comparison α

def equalNames : Comparison := some (.complete, true)
def differentNames : Comparison := some (.complete, false)

/-- `strcmp` of two strings that have to be there. -/
def compareText (text₁ text₂ : Option Text) : Comparison :=
  match text₁, text₂ with
  | some text₁, some text₂ => some (.complete, text₁ = text₂)
  | _, _ => none

/-! ## 3. X.509 names -/

section

variable (mode : CompatibilityMode) (name₁ name₂ : GssName) (contact : List UInt8 → Option Text)

/-- The inner loop over the dNSNames of the second name. -/
def matchesDns (host₁ : Option Text) (wildcards₁ : Wildcard) (names₂ : List GeneralName) : Bool :=
  names₂.any fun name₂ =>
    match name₂ with
    | .dNSName data => compareHostnames mode host₁ wildcards₁ (some (cstr data)) .rfc2818
    | _ => false

def GeneralName.isDns : GeneralName → Bool
  | .dNSName _ => true
  | _ => false

/-- The loop over the dNSNames of the first name.  It goes on with what it has found of either name. -/
def dnsLoop (names₂ : List GeneralName) (oneline₂ : Option Text) : List GeneralName → Bool → Bool → Body (Bool × Bool)
  | [], found₁, found₂ => .ok (found₁, found₂)
  | .dNSName data :: names₁, _, found₂ =>
    if matchesDns mode (some (cstr data)) .rfc2818 names₂ then .error equalNames
    else if (mode ≠ .strictRfc2818 ∨ (found₂ || names₂.any GeneralName.isDns) = false) ∧
        compareHostnames mode (some (cstr data)) .rfc2818 oneline₂ .none then .error equalNames
    else dnsLoop names₂ oneline₂ names₁ true (found₂ || names₂.any GeneralName.isDns)
  | _ :: names₁, found₁, found₂ => dnsLoop names₂ oneline₂ names₁ found₁ found₂

/-- An iPAddress that both have. -/
def shareAddress (names₁ names₂ : List GeneralName) : Bool :=
  names₁.any fun name₁ =>
    match name₁ with
    | .iPAddress _ => names₂.any fun name₂ => name₁ = name₂
    | _ => false

/-- The comparison of the two subjects, at the end. -/
def compareSubjects (found₁ found₂ : Bool) (oneline₁ oneline₂ : Option Text) : Comparison :=
  some (.complete, (mode ≠ .strictRfc2818 || !found₁ || !found₂) && oneline₁.isSome && oneline₁ = oneline₂)

/-- The names are read with the length of their stack; that of the second is taken for 0 when the *first* has none. -/
def compareX509ToX509 : Comparison :=
  let names₁ := name₁.subjectAltNames.getD []
  let names₂ := if name₁.subjectAltNames.isSome then name₂.subjectAltNames.getD [] else []
  if mode = .strictGt2 then compareSubjects mode false false name₁.x509nOneline name₂.x509nOneline
  else
    match dnsLoop mode names₂ name₂.x509nOneline names₁ false false with
    | .error comparison => comparison
    | .ok (found₁, found₂) =>
      if (mode ≠ .strictRfc2818 || !found₁) && name₁.hostName.isSome && matchesDns mode name₁.x509nOneline .none names₂ then
        equalNames
      else if shareAddress names₁ names₂ then equalNames
      else compareSubjects mode found₁ found₂ name₁.x509nOneline name₂.x509nOneline

def compareX509ToDefault : Comparison := compareText name₁.x509nOneline name₂.x509nOneline

/-- The loop over the dNSNames against a host.  `refuse` says whether the service is a reason to give up (`none`: there
is no service to look at). -/
def hostLoop (refuse : Option Bool) (host₂ : Option Text) : List GeneralName → Bool → Body Bool
  | [], found => .ok found
  | .dNSName data :: names₁, _ =>
    match refuse with
    | none => .error none
    | some true => .error differentNames
    | some false =>
      if compareHostnames mode (some (cstr data)) .rfc2818 host₂ .gt2 then .error equalNames
      else hostLoop refuse host₂ names₁ true
  | _ :: names₁, found => hostLoop refuse host₂ names₁ found

/-- The comparison with the host of the common name, where the services agree or do not matter. -/
def compareServiceHost : Comparison :=
  let compared : Comparison := some (.complete, compareHostnames mode name₁.hostName .gt2 name₂.hostName .gt2)
  if mode = .strictRfc2818 then
    match name₁.serviceName, name₂.serviceName with
    | some service₁, some service₂ => if strcasecmp service₁ service₂ then compared else differentNames
    | _, _ => none
  else compared

/-- In strict mode the service has to be `host` for a dNSName to count. -/
def refuseService (service : Option Text) : Option Bool :=
  if mode = .strictRfc2818 then service.map fun service => !strcasecmp service hostText else some false

def compareX509ToHostbasedService : Comparison :=
  let names₁ := name₁.subjectAltNames.getD []
  if mode = .strictGt2 then compareServiceHost mode name₁ name₂
  else
    match hostLoop mode (refuseService mode name₂.serviceName) name₂.hostName names₁ false with
    | .error comparison => comparison
    | .ok found => if mode ≠ .strictRfc2818 || !found then compareServiceHost mode name₁ name₂ else differentNames

/-- The loop over the iPAddresses; `contact` writes an address as text.  The array takes 16 bytes. -/
def addressLoop (contact : List UInt8 → Option Text) (ipAddress₂ : Option Text) : List GeneralName → Body Unit
  | [] => .ok ()
  | .iPAddress data :: names₁ =>
    if 16 < data.length then .error none
    else
      match contact data with
      | none => .error (some (.failure, false))
      | some text => if ipAddress₂ = some text then .error equalNames else addressLoop contact ipAddress₂ names₁
  | _ :: names₁ => addressLoop contact ipAddress₂ names₁

/-- The comparison of the host of the common name with the host and the name of the address. -/
def compareCommonName : Comparison :=
  some (.complete, compareHostnames mode name₁.hostName .none name₂.hostName .gt2 ||
    mode ≠ .strictRfc2818 && compareHostnames mode name₁.hostName .none name₂.ipName .gt2)

def compareX509ToHostIp (name₁ name₂ : GssName) : Comparison :=
  let names₁ := name₁.subjectAltNames.getD []
  if mode = .strictGt2 then compareCommonName mode name₁ name₂
  else
    match hostLoop mode (some false) name₂.hostName names₁ false with
    | .error comparison => comparison
    | .ok found =>
      match addressLoop contact name₂.ipAddress names₁ with
      | .error comparison => comparison
      | .ok () => if mode ≠ .strictRfc2818 || !found then compareCommonName mode name₁ name₂ else differentNames

/-! ## 4. The other names -/

def compareDefaultToDefault : Comparison := compareText name₁.x509nOneline name₂.x509nOneline

def compareDefaultToHostbasedService : Comparison :=
  let refused : Bool := match name₁.serviceName, name₂.serviceName with
    | some service₁, some service₂ => !strcasecmp service₁ service₂
    | none, some service₂ => !strcasecmp service₂ hostText
    | _, none => false
  if mode = .strictRfc2818 ∧ refused then differentNames
  else some (.complete, compareHostnames mode name₁.hostName .gt2 name₂.hostName .gt2)

def compareDefaultToHostIp : Comparison :=
  some (.complete, compareHostnames mode name₁.hostName .none name₂.hostName .none ||
    mode ≠ .strictRfc2818 && compareHostnames mode name₁.hostName .none name₂.ipName .none)

def compareHostbasedServiceToHostbasedService : Comparison := compareServiceHost mode name₁ name₂

def compareHostbasedServiceToHostIp : Comparison :=
  let compared : Comparison :=
    some (.complete, compareHostnames mode name₁.hostName .gt2 name₂.hostName .none ||
      mode ≠ .strictRfc2818 && compareHostnames mode name₁.hostName .gt2 name₂.ipName .none)
  if mode = .strictRfc2818 then
    match name₁.serviceName with
    | some service₁ => if strcasecmp service₁ hostText then compared else differentNames
    | none => none
  else compared

def compareHostIpToHostIp : Comparison :=
  some (.complete, compareHostnames mode name₁.hostName .gt2 name₂.hostName .gt2 ||
    name₁.ipAddress.isSome && name₁.ipAddress = name₂.ipAddress ||
    mode ≠ .strictRfc2818 && (compareHostnames mode name₁.ipName .gt2 name₂.hostName .gt2 ||
      compareHostnames mode name₁.hostName .gt2 name₂.ipName .gt2))

/-! ## 5. Any two names -/

/-- The function for the types of the two names, the first one being the smaller. -/
def compareOrdered (name₁ name₂ : GssName) : Comparison :=
  match name₁.nameType, name₂.nameType with
  | .anonymous, type₂ => some (.complete, mode ≠ .strictRfc2818 && type₂ = .anonymous)
  | .x509, .x509 => compareX509ToX509 mode name₁ name₂
  | .x509, .noOid => compareX509ToDefault name₁ name₂
  | .x509, .hostbasedService => compareX509ToHostbasedService mode name₁ name₂
  | .x509, .hostIp => compareX509ToHostIp mode contact name₁ name₂
  | .noOid, .noOid => compareDefaultToDefault name₁ name₂
  | .noOid, .hostbasedService => compareDefaultToHostbasedService mode name₁ name₂
  | .noOid, .hostIp => compareDefaultToHostIp mode name₁ name₂
  | .hostbasedService, .hostbasedService => compareHostbasedServiceToHostbasedService mode name₁ name₂
  | .hostbasedService, .hostIp => compareHostbasedServiceToHostIp mode name₁ name₂
  | .hostIp, .hostIp => compareHostIpToHostIp mode name₁ name₂
  -- the assertion at the end of the chain of tests
  | _, _ => none

def gssCompareName (name₁ name₂ : GssName) : Comparison :=
  if name₂.nameType.toNat < name₁.nameType.toNat then compareOrdered mode contact name₂ name₁
  else compareOrdered mode contact name₁ name₂

end

end Gct.Gss
