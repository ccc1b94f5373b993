/-
# The verification callback

OpenSSL calls the callback for every certificate of a chain, from the trust anchor down to the leaf.  The callback
counts the proxies (`proxy_depth`) and keeps the smallest depth that a proxyCertInfo extension has allowed
(`max_proxy_depth`, -1 for none).  A proxy is tested against the limits of the certificates above it and then sets
its own.  The path lengths of the CA certificates are tested at the leaf, when the number of proxies is known.

`max_proxy_depth` is an `int`, and the path length that is added to `proxy_depth` is a `long`.
-/
import Gct.Gsi.Certificate

namespace Gct.Gsi

/-! ## 1. Callback data -/

structure CallbackData where
  proxyDepth : Int
  maxProxyDepth : Int
  certType : CertType
  deriving DecidableEq, Repr

def CallbackData.init : CallbackData := ⟨0, -1, .eec⟩

inductive Error
  | certType (error : CertError)
  | mixingDifferentProxyTypes
  | limitedProxy
  | proxyPathLengthExceeded
  /-- `check_revoked` or `check_signing_policy` failed. -/
  | notAccepted
  | badProxyCertInfo
  | unknownCriticalExtension (nid : Nid)
  | pathLengthExceeded
  deriving DecidableEq, Repr

/-- `accepted` stands for the revocation and signing policy checks. -/
structure Settings where
  extensionCb : Option (CallbackData → Extension → Bool)
  accepted : Cert → Bool

/-! ## 2. The checks -/

/-- A proxy of one kind below a proxy of another. -/
def mixes (above below : CertType) : Bool :=
  above.isGsi2Proxy && !below.isGsi2Proxy || above.isGsi3Proxy && !below.isGsi3Proxy ||
    above.isRfcProxy && !below.isRfcProxy

def checkProxy (cert : Cert) (data : CallbackData) : Except Error CallbackData :=
  match getCertType cert with
  | .error error => .error (.certType error)
  | .ok certType =>
    if certType.isProxy then
      if mixes data.certType certType then .error .mixingDifferentProxyTypes
      else if data.certType.isLimitedProxy && !(certType.isLimitedProxy || certType.isIndependentProxy) then
        .error .limitedProxy
      else if data.maxProxyDepth ≠ -1 ∧ data.maxProxyDepth < data.proxyDepth + 1 then .error .proxyPathLengthExceeded
      else .ok { data with proxyDepth := data.proxyDepth + 1, certType := certType }
    else .ok { data with certType := certType }

/-- `ASN1_INTEGER_get`: a `long`, or -1. -/
def asn1IntegerGet (value : Int) : Int := if -2 ^ 63 ≤ value ∧ value < 2 ^ 63 then value else -1

/-- A `long` assigned to an `int`. -/
def toInt (value : Int) : Int := Int.bmod value (2 ^ 32)

/-- The path length of a proxyCertInfo extension. -/
def CallbackData.limit (data : CallbackData) (pcPathLengthConstraint : Option Int) : CallbackData :=
  match pcPathLengthConstraint with
  | none => data
  | some value =>
    let pathLength := asn1IntegerGet value
    if -1 < pathLength ∧ (data.maxProxyDepth = -1 ∨ data.proxyDepth + pathLength < data.maxProxyDepth) then
      { data with maxProxyDepth := toInt (data.proxyDepth + pathLength) }
    else data

/-- The loop over the critical extensions.  `policy` keeps the policy of the last proxyCertInfo extension. -/
def checkExtensions (settings : Settings) : List Extension → Option ProxyPolicy → CallbackData → Except Error CallbackData
  | [], _, data => .ok data
  | extension :: extensions, policy, data => do
    let (policy, data) ←
      if extension.nid.isProxyCertInfo then
        match extension.proxyCertInfo with
        | none => .error .badProxyCertInfo
        | some info => .ok (info.proxyPolicy, data.limit info.pcPathLengthConstraint)
      else .ok (policy, data)
    if !extension.nid.isKnown || policy.any ProxyPolicy.policy then
      if settings.extensionCb.any fun extensionCb => extensionCb data extension then
        checkExtensions settings extensions policy data
      else .error (.unknownCriticalExtension extension.nid)
    else checkExtensions settings extensions policy data

def Cert.criticalExtensions (cert : Cert) : List Extension := cert.extensions.filter Extension.critical

variable (settings : Settings) (chain : List Cert)

def checkCriticalExtensions (cert : Cert) (data : CallbackData) : Except Error CallbackData :=
  checkExtensions settings cert.criticalExtensions none data

/-- The certificate at place `i` of the chain, counted from the leaf, has more below it than it allows. -/
def exceeds (proxyDepth : Int) (cert : Cert) (i : Nat) : Bool :=
  1 < i - proxyDepth && cert.pathlen ≠ -1 && cert.pathlen + 1 < i - proxyDepth && cert.basicConstraints.isSome

/-- `chain` runs from the trust anchor to the leaf, the other way round than OpenSSL's. -/
def checkPathLength (isLeaf : Bool) (data : CallbackData) : Except Error CallbackData :=
  if isLeaf && chain.reverse.zipIdx.any fun (cert, i) => exceeds data.proxyDepth cert i then .error .pathLengthExceeded
  else .ok data

/-! ## 3. The callback and the chain -/

/-- The callback with `preverify_ok = 1`. -/
def credVerify (isLeaf : Bool) (data : CallbackData) (cert : Cert) : Except Error CallbackData := do
  let data ← checkProxy cert data
  if (data.certType = .eec ∨ data.certType = .ca) ∧ settings.accepted cert = false then .error .notAccepted
  else
    let data ← checkCriticalExtensions settings cert data
    checkPathLength chain isLeaf data

/-- The calls for `certs`, the rest of the chain. -/
def verifyFrom (settings : Settings) (chain : List Cert) : List Cert → CallbackData → Except Error CallbackData
  | [], data => .ok data
  | cert :: below, data => do
    let data ← credVerify settings chain below.isEmpty data cert
    verifyFrom settings chain below data

def verify : Except Error CallbackData :=
  verifyFrom settings chain chain .init

/-- The calls for certificates that are not the leaf. -/
def verifyIssuers (certs : List Cert) (data : CallbackData) : Except Error CallbackData :=
  certs.foldlM (credVerify settings [] false) data

/-- The errors of OpenSSL that the callback looks at when `preverify_ok = 0`. -/
inductive VerifyError
  | pathLengthExceeded
  | proxyPathLengthExceeded
  | unhandledCriticalExtension
  | invalidPurpose
  | invalidCa
  | other
  deriving DecidableEq, Repr

/-- The errors it lets pass.  `below` is the certificate under the one with the error. -/
def disregards (error : VerifyError) (below : Cert) : Bool :=
  match error with
  | .pathLengthExceeded | .proxyPathLengthExceeded | .unhandledCriticalExtension | .invalidPurpose => true
  | .invalidCa =>
    match getCertType below with
    | .ok certType => certType.isProxy
    | .error _ => false
  | .other => false

end Gct.Gsi
