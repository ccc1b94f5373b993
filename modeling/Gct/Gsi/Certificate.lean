/-
# Certificates and their types

`globus_gsi_cert_utils_get_cert_type` reads the type of a certificate off its last name entry and its
proxyCertInfo extension.  Of a certificate the model has what the callback looks at: the basic constraints, the
subject, the extensions in their order, and whether the subject is the issuer's name with one common name behind
it.
-/
import Mathlib.Data.UInt

namespace Gct.Gsi

/-! ## 1. Certificates -/

inductive Nid
  | basicConstraints
  | keyUsage
  | extKeyUsage
  | netscapeCertType
  | subjectKeyIdentifier
  | authorityKeyIdentifier
  | proxyCertInfo
  | proxyCertInfoOld
  | other (number : Nat)
  deriving DecidableEq, Repr

/-- A proxyCertInfo extension, of the RFC or of the draft. -/
def Nid.isProxyCertInfo (nid : Nid) : Bool := nid = .proxyCertInfo || nid = .proxyCertInfoOld

/-- The extensions the callback knows. -/
def Nid.isKnown : Nid → Bool
  | .other _ => false
  | _ => true

inductive PolicyLanguage
  | inheritAll
  | independent
  | limited
  | other
  deriving DecidableEq, Repr

/-- `policy` says whether there is a policy text. -/
structure ProxyPolicy where
  policyLanguage : Option PolicyLanguage
  policy : Bool
  deriving DecidableEq, Repr

structure ProxyCertInfo where
  pcPathLengthConstraint : Option Int
  proxyPolicy : Option ProxyPolicy
  deriving DecidableEq, Repr

/-- `proxyCertInfo` is what `X509V3_EXT_d2i` makes of a proxyCertInfo extension. -/
structure Extension where
  nid : Nid
  critical : Bool
  proxyCertInfo : Option ProxyCertInfo
  deriving DecidableEq, Repr

structure BasicConstraints where
  ca : Bool
  pathlen : Option Nat
  deriving DecidableEq, Repr

structure NameEntry where
  isCommonName : Bool
  data : List UInt8
  deriving DecidableEq, Repr

/-- `namedByIssuer`: the issuer's name and the last common name make up the subject. -/
structure Cert where
  basicConstraints : Option BasicConstraints
  subject : List NameEntry
  extensions : List Extension
  namedByIssuer : Bool
  deriving DecidableEq, Repr

/-- `X509_get_pathlen`. -/
def Cert.pathlen (cert : Cert) : Int :=
  match cert.basicConstraints.bind BasicConstraints.pathlen with
  | some pathlen => pathlen
  | none => -1

/-! ## 2. Types -/

/-- Legacy, draft and RFC proxies. -/
inductive Format
  | gsi2
  | gsi3
  | rfc
  deriving DecidableEq, Repr

inductive Rights
  | impersonation
  | limited
  | restricted
  | independent
  deriving DecidableEq, Repr

inductive CertType
  | eec
  | ca
  | proxy (format : Format) (rights : Rights)
  deriving DecidableEq, Repr

def CertType.isProxy : CertType → Bool
  | .proxy _ _ => true
  | _ => false

variable (format : Format)

def CertType.hasFormat : CertType → Bool
  | .proxy f _ => f = format
  | _ => false

def CertType.hasRights (rights : Rights) : CertType → Bool
  | .proxy _ r => r = rights
  | _ => false

def CertType.isGsi2Proxy : CertType → Bool := hasFormat .gsi2
def CertType.isGsi3Proxy : CertType → Bool := hasFormat .gsi3
def CertType.isRfcProxy : CertType → Bool := hasFormat .rfc
def CertType.isLimitedProxy : CertType → Bool := hasRights .limited
def CertType.isIndependentProxy : CertType → Bool := hasRights .independent

inductive CertError
  | noNameEntry
  | nonCompliantProxy
  deriving DecidableEq, Repr

def PolicyLanguage.rights : PolicyLanguage → Rights
  | inheritAll => .impersonation
  | independent => .independent
  | limited => .limited
  | other => .restricted

/-- The proxy's type by the language of its policy. -/
def proxyType (info : Option ProxyCertInfo) : Except CertError CertType :=
  match (info.bind ProxyCertInfo.proxyPolicy).bind ProxyPolicy.policyLanguage with
  | some language => .ok (.proxy format language.rights)
  | none => .error .nonCompliantProxy

/-- The type by the first extension with this number, if that one is critical. -/
def typeByExtension (nid : Nid) (extensions : List Extension) : Option (Except CertError CertType) :=
  match extensions.dropWhile (·.nid ≠ nid) with
  | [] => none
  | extension :: later =>
    if extension.critical then
      some (if later.any (·.nid = nid) then .error .nonCompliantProxy else proxyType format extension.proxyCertInfo)
    else none

/-- `proxy` -/
def proxyName : List UInt8 := [112, 114, 111, 120, 121]

/-- `limited proxy` -/
def limitedProxyName : List UInt8 := [108, 105, 109, 105, 116, 101, 100, 32, 112, 114, 111, 120, 121]

def typeByName (cert : Cert) (data : List UInt8) : Except CertError CertType :=
  if data = proxyName then .ok (.proxy .gsi2 .impersonation)
  else if data = limitedProxyName then .ok (.proxy .gsi2 .limited)
  else
    match typeByExtension .rfc .proxyCertInfo cert.extensions with
    | some type => type
    | none => (typeByExtension .gsi3 .proxyCertInfoOld cert.extensions).getD (.ok .eec)

def getCertType (cert : Cert) : Except CertError CertType :=
  if cert.basicConstraints.any BasicConstraints.ca then .ok .ca
  else
    match cert.subject.getLast? with
    | none => .error .noNameEntry
    | some entry =>
      if entry.isCommonName then do
        let type ← typeByName cert entry.data
        if type.isProxy && !cert.namedByIssuer then .error .nonCompliantProxy else .ok type
      else .ok .eec

end Gct.Gsi
