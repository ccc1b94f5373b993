/-
# The rules for chains of proxies

A chain that the callback accepts keeps the rules for proxies: one kind of proxy only, nothing but limited or
independent proxies below a limited one, no more proxies below a proxy than its path length says, and no more
certificates below a CA certificate than its path length says.  Conversely `check_proxy` refuses no chain that keeps
the first three.

Both hold for plain chains (`Plain`).  The callback compares a proxy with the certificate directly above it only, so
a certificate that is no proxy, below a proxy, would hide a change of kind; OpenSSL reports an invalid CA there, and
the callback does not let that pass (`proxiesLast_of_disregards`).  For the converse a path length has to fit into an
`int` together with the depth, and a certificate that is no proxy must not set one.
-/
import Mathlib.Data.List.Chain
import Gct.Gsi.Callback

namespace Gct.Gsi

open List CertType CallbackData Except

/-! ## 1. The rules -/

def Cert.isProxy (cert : Cert) : Bool :=
  match getCertType cert with
  | .ok certType => certType.isProxy
  | .error _ => false

variable (certs : List Cert) (chain : List Cert) (settings : Settings)

def proxies : Nat := certs.countP Cert.isProxy

def nonProxies : Nat := certs.countP fun cert => !cert.isProxy

/-- A proxyCertInfo extension sets this path length. -/
def SetPathLength (extensions : List Extension) (pathLength : Nat) : Prop :=
  ∃ extension ∈ extensions, extension.nid.isProxyCertInfo = true ∧
    ∃ info, extension.proxyCertInfo = some info ∧ info.pcPathLengthConstraint = some (pathLength : Int)

/-- The path length of a critical proxyCertInfo extension. -/
def Cert.HasPathLength (cert : Cert) (pathLength : Nat) : Prop := SetPathLength cert.criticalExtensions pathLength

/-- A proxy directly below a limited proxy is limited or independent. -/
def LimitedRule (above below : Cert) : Prop :=
  ∀ type type', getCertType above = .ok type → type.isLimitedProxy = true → getCertType below = .ok type' →
    type'.isProxy = true → type'.isLimitedProxy = true ∨ type'.isIndependentProxy = true

/-- The rules for the proxies of a chain, which runs from the trust anchor to the leaf. -/
structure ProxyRules : Prop where
  unmixed : ∀ cert ∈ chain, ∀ cert' ∈ chain, ∀ format rights format' rights',
    getCertType cert = .ok (.proxy format rights) → getCertType cert' = .ok (.proxy format' rights') → format = format'
  limited : List.IsChain LimitedRule chain
  pathLength : ∀ above cert below, chain = above ++ cert :: below → cert.isProxy = true →
    ∀ pathLength, cert.HasPathLength pathLength → proxies below ≤ pathLength

/-- Of the certificates below a CA certificate that are no proxies, the last one is the end entity. -/
def CaRule : Prop :=
  ∀ above cert below, chain = above ++ cert :: below → getCertType cert = .ok .ca →
    ∀ pathlen, cert.basicConstraints.bind BasicConstraints.pathlen = some pathlen → nonProxies below - 1 ≤ pathlen

/-- `check_proxy` is passed wherever the calls come to it. -/
def NotRejected (chain : List Cert) : Prop :=
  ∀ above cert below, chain = above ++ cert :: below → ∀ data, verifyIssuers settings above .init = .ok data →
    ∃ data', checkProxy cert data = .ok data'

/-- Accepted chains keep the rules, and `check_proxy` refuses no chain that keeps those for proxies. -/
structure Enforces (chain : List Cert) : Prop where
  sound : ∀ data, verify settings chain = .ok data → ProxyRules chain ∧ CaRule chain
  complete : (∀ cert ∈ chain, ∃ certType, getCertType cert = .ok certType) → ProxyRules chain →
    NotRejected settings chain

/-- Below a proxy there are proxies only. -/
def ProxiesLast : Prop :=
  ∀ above cert below, chain = above ++ cert :: below → cert.isProxy = false → ∀ other ∈ above, other.isProxy = false

structure Plain : Prop where
  proxiesLast : ProxiesLast chain
  /-- Only proxies set path lengths. -/
  own : ∀ cert ∈ chain, ∀ pathLength, cert.HasPathLength pathLength → cert.isProxy = true
  /-- The chain and the path lengths are within the range of `int`. -/
  length_lt : chain.length < 2 ^ 31
  fits : ∀ cert ∈ chain, ∀ pathLength, cert.HasPathLength pathLength → pathLength + chain.length < 2 ^ 31

variable {chain above below : List Cert} {pathLength n : Nat} {cert : Cert} {certType : CertType}
  {settings : Settings} {data data' : CallbackData} (value : Option Int)

theorem toInt_of_lt {value : Int} (h0 : 0 ≤ value) (h : value < 2 ^ 31) : toInt value = value := by
  rw [toInt, Int.bmod_eq_of_le] <;> omega

theorem toInt_lt (value : Int) : toInt value < 2 ^ 31 := by
  have h := @Int.bmod_lt value (2 ^ 32) (by decide)
  exact h

/-- What a path length does to the limit: nothing, or it sets it where there was none or a larger one. -/
theorem limit_cases (data : CallbackData) (value : Option Int) : data.limit value = data ∨
      ∃ pathLength : Nat, value = some (pathLength : Int) ∧
        (data.maxProxyDepth = -1 ∨ data.proxyDepth + pathLength < data.maxProxyDepth) ∧
        data.limit value = { data with maxProxyDepth := toInt (data.proxyDepth + pathLength) } := by
  unfold limit
  cases value with
  | none => exact .inl rfl
  | some value =>
    dsimp only
    split
    · next hset =>
      obtain ⟨hpos, hlower⟩ := hset
      -- the value is in the range of `long`, or it would be -1
      have hget : asn1IntegerGet value = value := by
        unfold asn1IntegerGet at hpos ⊢
        split at hpos
        · next hrange => rw [if_pos hrange]
        · exact absurd hpos (by decide)
      rw [hget] at hpos hlower ⊢
      have hnat : ((value.toNat : Nat) : Int) = value := Int.toNat_of_nonneg (by omega)
      refine .inr ⟨value.toNat, by rw [hnat], ?_, ?_⟩
      · rw [hnat]
        exact hlower
      · rw [hnat]
    · exact .inl rfl

@[simp] theorem limit_proxyDepth : (data.limit value).proxyDepth = data.proxyDepth := by
  rcases limit_cases data value with h | ⟨_, -, -, h⟩ <;> rw [h]

@[simp] theorem limit_certType : (data.limit value).certType = data.certType := by
  rcases limit_cases data value with h | ⟨_, -, -, h⟩ <;> rw [h]

/-- There is a limit, and it is no larger than `bound`. -/
def CallbackData.LimitedTo (data : CallbackData) (bound : Int) : Prop :=
  data.maxProxyDepth ≠ -1 ∧ data.maxProxyDepth ≤ bound

theorem limit_maxProxyDepth_lt (hmax : data.maxProxyDepth < 2 ^ 31) (value : Option Int) :
    (data.limit value).maxProxyDepth < 2 ^ 31 := by
  rcases limit_cases data value with h | ⟨pathLength, -, -, h⟩
  · rw [h]
    exact hmax
  · rw [h]
    exact toInt_lt _

/-- A limit is never relaxed: only where there is none can a sum be too large for an `int`. -/
theorem CallbackData.LimitedTo.limit {bound : Int} (hlimited : data.LimitedTo bound) (hdepth : 0 ≤ data.proxyDepth)
    (hmax : data.maxProxyDepth < 2 ^ 31) (value : Option Int) : (data.limit value).LimitedTo bound := by
  obtain ⟨hset, hbound⟩ := hlimited
  rcases limit_cases data value with h | ⟨pathLength, -, hlower, h⟩
  · rw [h]
    exact ⟨hset, hbound⟩
  · rw [h, CallbackData.LimitedTo]
    simp only
    rw [toInt_of_lt (by omega) (by omega)]
    omega

/-- A path length that fits limits the depth. -/
theorem limitedTo_limit (hdepth : 0 ≤ data.proxyDepth) (hfits : data.proxyDepth + pathLength < 2 ^ 31) :
    (data.limit (some (pathLength : Int))).LimitedTo (data.proxyDepth + pathLength) := by
  have hget : asn1IntegerGet pathLength = pathLength := if_pos ⟨by omega, by omega⟩
  unfold limit
  dsimp only
  rw [hget]
  split
  · rw [toInt_of_lt (by omega) hfits]
    exact ⟨by simp only; omega, le_rfl⟩
  · next hkept => exact ⟨by omega, by omega⟩

/-! ## 3. The critical extensions -/

section Extensions

variable {extensions : List Extension}

/-- The data behind one extension. -/
def afterExtension (extension : Extension) (data : CallbackData) : CallbackData :=
  if extension.nid.isProxyCertInfo then data.limit (extension.proxyCertInfo.bind ProxyCertInfo.pcPathLengthConstraint)
  else data

/-- The data behind a list of extensions. -/
def afterExtensions (extensions : List Extension) (data : CallbackData) : CallbackData :=
  extensions.foldl (fun data extension => afterExtension extension data) data

/-- The loop goes over all extensions, whatever it does with the policies. -/
theorem checkExtensions_eq {policy : Option ProxyPolicy}
    (h : checkExtensions settings extensions policy data = .ok data') : data' = afterExtensions extensions data := by
  induction extensions generalizing policy data with
  | nil => exact (ok.inj h).symm
  | cons extension extensions ih =>
    have hrest : ∀ policy data, (if !extension.nid.isKnown || policy.any ProxyPolicy.policy then
          if settings.extensionCb.any fun extensionCb => extensionCb data extension then
            checkExtensions settings extensions policy data
          else .error (.unknownCriticalExtension extension.nid)
        else checkExtensions settings extensions policy data) = .ok data' → data' = afterExtensions extensions data := by
      intro policy data h
      split at h
      · split at h
        · exact ih h
        · cases h
      · exact ih h
    rw [afterExtensions, foldl_cons, afterExtension]
    rw [checkExtensions] at h
    split
    · next hinfo =>
      rw [if_pos hinfo] at h
      cases hextension : extension.proxyCertInfo with
      | none =>
        rw [hextension] at h
        cases h
      | some info =>
        rw [hextension] at h
        exact hrest _ _ h
    · next hinfo =>
      rw [if_neg hinfo] at h
      exact hrest _ _ h

/-- What holds before, and is kept where a path length is set, holds behind the extensions. -/
theorem afterExtensions_induction {P : CallbackData → Prop} (hdata : P data)
    (hlimit : ∀ data, P data → ∀ pathLength : Nat, SetPathLength extensions pathLength →
      P (data.limit (some (pathLength : Int)))) : P (afterExtensions extensions data) := by
  refine foldlRecOn _ _ hdata fun data hdata extension hextension => ?_
  unfold afterExtension
  split
  · next hinfo =>
    rcases limit_cases data (extension.proxyCertInfo.bind ProxyCertInfo.pcPathLengthConstraint) with
      h | ⟨pathLength, hvalue, -, -⟩
    · rw [h]
      exact hdata
    · rw [hvalue]
      obtain ⟨info, hcert, hpath⟩ := Option.bind_eq_some_iff.mp hvalue
      exact hlimit data hdata pathLength ⟨extension, hextension, hinfo, info, hcert, hpath⟩
  · exact hdata

@[simp] theorem afterExtensions_proxyDepth : (afterExtensions extensions data).proxyDepth = data.proxyDepth :=
  afterExtensions_induction (P := fun data' => data'.proxyDepth = data.proxyDepth) rfl
    fun _ h _ _ => (limit_proxyDepth _).trans h

@[simp] theorem afterExtensions_certType : (afterExtensions extensions data).certType = data.certType :=
  afterExtensions_induction (P := fun data' => data'.certType = data.certType) rfl
    fun _ h _ _ => (limit_certType _).trans h

theorem afterExtensions_maxProxyDepth_lt (hmax : data.maxProxyDepth < 2 ^ 31) :
    (afterExtensions extensions data).maxProxyDepth < 2 ^ 31 :=
  afterExtensions_induction (P := fun data => data.maxProxyDepth < 2 ^ 31) hmax fun _ h _ _ => limit_maxProxyDepth_lt h _

theorem CallbackData.LimitedTo.afterExtensions {bound : Int} (hlimited : data.LimitedTo bound)
    (hdepth : 0 ≤ data.proxyDepth) (hmax : data.maxProxyDepth < 2 ^ 31) (extensions : List Extension) :
    (afterExtensions extensions data).LimitedTo bound := by
  have hkept := @afterExtensions_induction data extensions
    (fun data => data.LimitedTo bound ∧ 0 ≤ data.proxyDepth ∧ data.maxProxyDepth < 2 ^ 31)
    ⟨hlimited, hdepth, hmax⟩ fun data ⟨hlimited, hdepth, hmax⟩ pathLength _ =>
      ⟨hlimited.limit hdepth hmax _, by rwa [limit_proxyDepth], limit_maxProxyDepth_lt hmax _⟩
  exact hkept.1

/-- The path lengths of a certificate limit the depth behind it. -/
theorem limitedTo_afterExtensions (hdepth : 0 ≤ data.proxyDepth) (hmax : data.maxProxyDepth < 2 ^ 31) (hpath : SetPathLength extensions pathLength) (hfits : data.proxyDepth + pathLength < 2 ^ 31) :
    (afterExtensions extensions data).LimitedTo (data.proxyDepth + pathLength) := by
  obtain ⟨extension, hextension, hinfo, info, hcert, hpath⟩ := hpath
  obtain ⟨before, after, rfl⟩ := append_of_mem hextension
  have hbefore := @afterExtensions_proxyDepth data before
  have hsplit : afterExtensions (before ++ extension :: after) data =
      afterExtensions after ((afterExtensions before data).limit (some (pathLength : Int))) := by
    simp only [afterExtensions, foldl_append, foldl_cons, afterExtension, hinfo, if_true, hcert, Option.bind_some, hpath]
  rw [hsplit, ← hbefore]
  refine CallbackData.LimitedTo.afterExtensions ?_ ?_ ?_ after
  · exact limitedTo_limit (by omega) (by omega)
  · rw [limit_proxyDepth]
    omega
  · exact limit_maxProxyDepth_lt (afterExtensions_maxProxyDepth_lt hmax) _

end Extensions

/-! ## 4. One call of the callback -/

theorem exists_of_bind_ok {ε α β : Type} {x : Except ε α} {f : α → Except ε β} {b : β} (h : x >>= f = .ok b) :
    ∃ a, x = .ok a ∧ f a = .ok b := by
  cases x with
  | error e => cases h
  | ok a => exact ⟨a, rfl, h⟩

/-- What a certificate has to be for `check_proxy` to let it pass. -/
structure Admits (data : CallbackData) (certType : CertType) : Prop where
  unmixed : certType.isProxy = true → mixes data.certType certType = false
  limited : certType.isProxy = true → data.certType.isLimitedProxy = true →
    certType.isLimitedProxy = true ∨ certType.isIndependentProxy = true
  depth : certType.isProxy = true → data.maxProxyDepth = -1 ∨ data.proxyDepth + 1 ≤ data.maxProxyDepth

/-- The data behind `check_proxy`. -/
def CallbackData.next (data : CallbackData) (certType : CertType) : CallbackData :=
  { data with proxyDepth := data.proxyDepth + if certType.isProxy then 1 else 0, certType := certType }

theorem checkProxy_iff : checkProxy cert data = .ok data' ↔
    ∃ certType, getCertType cert = .ok certType ∧ Admits data certType ∧ data' = data.next certType := by
  unfold checkProxy CallbackData.next
  cases getCertType cert with
  | error error => simp
  | ok certType =>
    simp only [ok.injEq, exists_eq_left']
    cases hproxy : certType.isProxy with
    | false =>
      simp only [Bool.false_eq_true, if_false, ok.injEq, Int.add_zero]
      have hadmits : Admits data certType := ⟨by simp [hproxy], by simp [hproxy], by simp [hproxy]⟩
      exact ⟨fun h => ⟨hadmits, h.symm⟩, fun h => h.2.symm⟩
    | true =>
      simp only [if_true]
      split
      · next hmixes =>
        refine ⟨nofun, fun ⟨hadmits, _⟩ => ?_⟩
        rw [hadmits.unmixed hproxy] at hmixes
        cases hmixes
      · next hunmixed =>
        split
        · next hwider =>
          refine ⟨nofun, fun ⟨hadmits, _⟩ => ?_⟩
          simp only [Bool.and_eq_true, Bool.not_eq_true', Bool.or_eq_false_iff] at hwider
          rcases hadmits.limited hproxy hwider.1 with h | h
          · rw [h] at hwider
            exact absurd hwider.2.1 (by simp)
          · rw [h] at hwider
            exact absurd hwider.2.2 (by simp)
        · next hnarrower =>
          split
          · next hdeep =>
            refine ⟨nofun, fun ⟨hadmits, _⟩ => ?_⟩
            rcases hadmits.depth hproxy with h | h
            · exact absurd h hdeep.1
            · exact absurd hdeep.2 (by omega)
          · next hshallow =>
            have hadmits : Admits data certType := by
              refine ⟨fun _ => by simpa using hunmixed, fun _ hlimited => ?_, fun _ => by omega⟩
              simp only [hlimited, Bool.true_and, Bool.not_eq_true', Bool.not_eq_false, Bool.or_eq_true] at hnarrower
              exact hnarrower
            exact ⟨fun h => ⟨hadmits, (ok.inj h).symm⟩, fun h => by rw [h.2]⟩

/-- A call that succeeds: the certificate is admitted, and its path lengths are in force behind it. -/
theorem credVerify_ok {isLeaf : Bool} (h : credVerify settings chain isLeaf data cert = .ok data') :
    ∃ certType, getCertType cert = .ok certType ∧ Admits data certType ∧
      data' = afterExtensions cert.criticalExtensions (data.next certType) ∧
      (isLeaf = true → ∀ other i, (other, i) ∈ chain.reverse.zipIdx → exceeds data'.proxyDepth other i = false) := by
  obtain ⟨passed, hproxy, h⟩ := exists_of_bind_ok h
  obtain ⟨certType, htype, hadmits, rfl⟩ := checkProxy_iff.mp hproxy
  split at h
  · cases h
  · obtain ⟨limited, hextensions, h⟩ := exists_of_bind_ok h
    obtain rfl := checkExtensions_eq hextensions
    unfold checkPathLength at h
    split at h
    · cases h
    · next hlengths =>
      obtain rfl := ok.inj h
      refine ⟨certType, htype, hadmits, rfl, fun hleaf other i hother => ?_⟩
      simp only [hleaf, Bool.true_and, any_eq_true, not_exists, not_and] at hlengths
      exact Bool.eq_false_iff.mpr (hlengths (other, i) hother)

/-! ## 5. The calls for a chain -/

@[simp] theorem proxies_concat (cert : Cert) :
    proxies (certs ++ [cert]) = proxies certs + if cert.isProxy then 1 else 0 := by
  simp [proxies, countP_append, countP_cons]

theorem proxies_append (certs certs' : List Cert) : proxies (certs ++ certs') = proxies certs + proxies certs' :=
  countP_append

theorem proxies_split (hchain : chain = above ++ cert :: below) :
    proxies chain = proxies (above ++ [cert]) + proxies below := by
  rw [← proxies_append, hchain, append_assoc]
  rfl

theorem isProxy_of_type (h : getCertType cert = .ok certType) : cert.isProxy = certType.isProxy := by
  rw [Cert.isProxy, h]

/-- What the data say about the certificates they have seen. -/
structure Passed (above : List Cert) (data : CallbackData) : Prop where
  depth : data.proxyDepth = proxies above
  max_lt : data.maxProxyDepth < 2 ^ 31
  first : above = [] → data.certType = .eec
  last : ∀ cert ∈ above.getLast?, getCertType cert = .ok data.certType
  typed : ∀ cert ∈ above, ∃ certType, getCertType cert = .ok certType
  limited : List.IsChain LimitedRule above
  formats : ∀ cert ∈ above, ∀ format rights, getCertType cert = .ok (.proxy format rights) →
    data.certType.hasFormat format = true
  /-- A path length that fits is in force, and has been kept. -/
  bounds : ∀ before cert after, above = before ++ cert :: after → ∀ pathLength : Nat, cert.HasPathLength pathLength →
    (proxies (before ++ [cert]) : Int) + pathLength < 2 ^ 31 →
      data.LimitedTo (proxies (before ++ [cert]) + pathLength) ∧ proxies above ≤ proxies (before ++ [cert]) + pathLength

theorem passed_init : Passed [] .init where
  depth := rfl
  max_lt := by decide
  first _ := rfl
  last := nofun
  typed := nofun
  limited := .nil
  formats := nofun
  bounds before cert after h := by simp at h

theorem hasFormat_of_not_mixes {above below : CertType} (h : mixes above below = false) {format : Format}
    (hformat : above.hasFormat format = true) : below.hasFormat format = true := by
  cases above with
  | eec | ca => cases hformat
  | proxy f r =>
    obtain rfl : f = format := by simpa [hasFormat] using hformat
    cases f <;>
      simpa [mixes, isGsi2Proxy, isGsi3Proxy, isRfcProxy, hasFormat] using h

section

variable (hpassed : Passed above data) (htype : getCertType cert = .ok certType)

include hpassed htype

theorem Passed.depth_next : (data.next certType).proxyDepth = proxies (above ++ [cert]) := by
  rw [proxies_concat, isProxy_of_type htype, CallbackData.next, hpassed.depth]
  split <;> simp

/-- The limits above hold for one more certificate. -/
theorem Passed.bounds_next (hadmits : Admits data certType) {before after : List Cert} {other : Cert}
    (hsplit : above ++ [cert] = before ++ other :: after) (hpath : other.HasPathLength pathLength)
    (hfits : (proxies (before ++ [other]) : Int) + pathLength < 2 ^ 31) :
    (afterExtensions cert.criticalExtensions (data.next certType)).LimitedTo (proxies (before ++ [other]) + pathLength) ∧
      proxies (above ++ [cert]) ≤ proxies (before ++ [other]) + pathLength := by
  have hdepth := hpassed.depth_next htype
  have hmax : (data.next certType).maxProxyDepth < 2 ^ 31 := hpassed.max_lt
  rcases after.eq_nil_or_concat with rfl | ⟨after, last, rfl⟩
  · -- the certificate itself
    obtain ⟨rfl, hcert⟩ := append_inj' hsplit rfl
    obtain rfl := (cons.inj hcert).1
    rw [← hdepth] at hfits ⊢
    exact ⟨limitedTo_afterExtensions (by omega) hmax hpath hfits, by omega⟩
  · -- a certificate above it
    have hsplit' : above ++ [cert] = (before ++ other :: after) ++ [last] := by
      rw [hsplit, concat_eq_append, append_assoc]
      rfl
    obtain ⟨habove, -⟩ := append_inj' hsplit' rfl
    obtain ⟨hlimited, hkept⟩ := hpassed.bounds before other after habove pathLength hpath hfits
    have hlimited' : (data.next certType).LimitedTo (proxies (before ++ [other]) + pathLength) := hlimited
    refine ⟨hlimited'.afterExtensions (by omega) hmax _, ?_⟩
    rw [proxies_concat, isProxy_of_type htype]
    split
    · next hproxy =>
      have hroom := (hadmits.depth hproxy).resolve_left hlimited.1
      have hbound := hlimited.2
      rw [hpassed.depth] at hroom
      omega
    · exact hkept

end

/-- **One certificate more.** -/
theorem Passed.next (hpassed : Passed above data) (hlast : ProxiesLast (above ++ cert :: below))
    (htype : getCertType cert = .ok certType) (hadmits : Admits data certType) :
    Passed (above ++ [cert]) (afterExtensions cert.criticalExtensions (data.next certType)) where
  depth := by rw [afterExtensions_proxyDepth, hpassed.depth_next htype]
  max_lt := afterExtensions_maxProxyDepth_lt hpassed.max_lt
  first h := by simp at h
  last other hother := by
    obtain rfl : cert = other := by simpa using hother
    rw [afterExtensions_certType]
    exact htype
  typed other hother := by
    rcases mem_append.mp hother with h | h
    · exact hpassed.typed other h
    · rw [mem_singleton.mp h]
      exact ⟨certType, htype⟩
  limited := by
    refine hpassed.limited.append (.singleton cert) fun other hother next hnext => ?_
    obtain rfl : cert = next := by simpa using hnext
    intro type type' hother' hlimited hcert hproxy
    obtain rfl := ok.inj ((hpassed.last other hother).symm.trans hother')
    obtain rfl := ok.inj (htype.symm.trans hcert)
    exact hadmits.limited hproxy hlimited
  formats other hother format rights hformat := by
    rw [afterExtensions_certType]
    show certType.hasFormat format = true
    rcases mem_append.mp hother with habove | hself
    · have hproxy : certType.isProxy = true := by
        by_contra hnone
        have hcert : cert.isProxy = false := by rw [isProxy_of_type htype]; simpa using hnone
        have hother' := hlast above cert below rfl hcert other habove
        rw [isProxy_of_type hformat] at hother'
        cases hother'
      exact hasFormat_of_not_mixes (hadmits.unmixed hproxy) (hpassed.formats other habove format rights hformat)
    · rw [mem_singleton.mp hself] at hformat
      obtain rfl := ok.inj (htype.symm.trans hformat)
      simp [hasFormat]
  bounds _ _ _ hsplit _ hpath hfits := hpassed.bounds_next htype hadmits hsplit hpath hfits

theorem verifyIssuers_concat (h : verifyIssuers settings (above ++ [cert]) .init = .ok data') :
    ∃ data, verifyIssuers settings above .init = .ok data ∧ credVerify settings [] false data cert = .ok data' := by
  rw [verifyIssuers, foldlM_append] at h
  obtain ⟨data, hdata, h⟩ := exists_of_bind_ok h
  obtain ⟨after, hcert, h⟩ := exists_of_bind_ok h
  obtain rfl := ok.inj h
  exact ⟨data, hdata, hcert⟩

/-- The calls for all certificates but the leaf. -/
theorem passed_of_verifyIssuers
    (hlast : ProxiesLast (above ++ below)) (h : verifyIssuers settings above .init = .ok data) : Passed above data := by
  induction above using reverseRecOn generalizing below data with
  | nil =>
    obtain rfl := ok.inj h
    exact passed_init
  | append_singleton above cert ih =>
    obtain ⟨before, hbefore, hcert⟩ := verifyIssuers_concat h
    obtain ⟨certType, htype, hadmits, rfl, -⟩ := credVerify_ok hcert
    rw [append_assoc] at hlast
    exact (ih hlast hbefore).next hlast htype hadmits

/-- The leaf comes last. -/
theorem verifyFrom_concat (settings : Settings) (chain above : List Cert) (leaf : Cert) (data : CallbackData) :
    verifyFrom settings chain (above ++ [leaf]) data =
      verifyIssuers settings above data >>= fun data => credVerify settings chain true data leaf := by
  induction above generalizing data with
  | nil =>
    show credVerify settings chain true data leaf >>= verifyFrom settings chain [] = credVerify settings chain true data leaf
    cases credVerify settings chain true data leaf <;> rfl
  | cons cert above ih =>
    have hissuer : credVerify settings chain false data cert = credVerify settings [] false data cert := rfl
    have hmore : (above ++ [leaf]).isEmpty = false := by simp
    rw [cons_append, verifyFrom, hmore, hissuer, verifyIssuers, foldlM_cons]
    cases credVerify settings [] false data cert with
    | error error => rfl
    | ok data => exact ih data

/-! ## 6. Accepted chains keep the rules -/

theorem hasFormat_unique {format format' : Format} (h : certType.hasFormat format = true)
    (h' : certType.hasFormat format' = true) : format = format' := by
  cases certType with
  | eec | ca => cases h
  | proxy f r =>
    simp only [hasFormat, decide_eq_true_eq] at h h'
    exact h.symm.trans h'

theorem Passed.proxyRules (hpassed : Passed chain data) (hlength : chain.length < 2 ^ 31) : ProxyRules chain where
  unmixed cert hcert cert' hcert' format rights format' rights' htype htype' :=
    hasFormat_unique (hpassed.formats cert hcert format rights htype) (hpassed.formats cert' hcert' format' rights' htype')
  limited := hpassed.limited
  pathLength above cert below hchain _ pathLength hpath := by
    have hcount := proxies_split hchain
    have htotal : proxies chain ≤ chain.length := countP_le_length
    by_cases hfits : (proxies (above ++ [cert]) : Int) + pathLength < 2 ^ 31
    · have hkept := (hpassed.bounds above cert below hchain pathLength hpath hfits).2
      omega
    · omega

theorem nonProxies_add_proxies : nonProxies certs + proxies certs = certs.length := by
  have hboth := @length_eq_countP_add_countP Cert Cert.isProxy certs
  simp only [Bool.not_eq_true, Bool.decide_eq_false] at hboth
  rw [hboth, Nat.add_comm]
  rfl

/-- The test at the leaf counts what lies below a CA certificate. -/
theorem caRule_of_exceeds (hlast : ProxiesLast chain)
    (hlengths : ∀ other i, (other, i) ∈ chain.reverse.zipIdx → exceeds (proxies chain) other i = false) :
    CaRule chain := by
  intro above cert below hchain hca pathlen hpathlen
  have hcert : cert.isProxy = false := isProxy_of_type hca
  have hplace : (cert, below.length) ∈ chain.reverse.zipIdx := by
    rw [mem_zipIdx_iff_getElem?, hchain]
    simp
  have habove : proxies above = 0 := by
    rw [proxies, countP_eq_zero]
    intro other hother
    simp [hlast above cert below hchain hcert other hother]
  have hbelow : proxies chain = proxies below := by
    rw [hchain, proxies_append, habove, proxies, countP_cons_of_neg (by simp [hcert]), Nat.zero_add]
    rfl
  have hcount := nonProxies_add_proxies below
  have hvalue : cert.pathlen = pathlen := by rw [Cert.pathlen, hpathlen]
  have hset : cert.basicConstraints.isSome = true := by
    cases hbasic : cert.basicConstraints with
    | none => rw [hbasic] at hpathlen; cases hpathlen
    | some basic => rfl
  have htest := hlengths cert below.length hplace
  simp only [exceeds, hset, hvalue, hbelow, Bool.and_true, Bool.and_eq_false_iff, decide_eq_false_iff_not] at htest
  omega

theorem sound_of_plain (hlast : ProxiesLast chain)
    (hlength : chain.length < 2 ^ 31) (h : verify settings chain = .ok data) : ProxyRules chain ∧ CaRule chain := by
  rcases chain.eq_nil_or_concat with rfl | ⟨above, leaf, rfl⟩
  · exact ⟨passed_init.proxyRules hlength, fun above cert below hchain => by simp at hchain⟩
  · rw [concat_eq_append] at *
    rw [verify, verifyFrom_concat] at h
    obtain ⟨before, hissuers, hleaf⟩ := exists_of_bind_ok h
    obtain ⟨certType, htype, hadmits, rfl, hlengths⟩ := credVerify_ok hleaf
    have hpassed := (passed_of_verifyIssuers hlast hissuers).next hlast htype hadmits
    refine ⟨hpassed.proxyRules hlength, caRule_of_exceeds hlast ?_⟩
    rw [← hpassed.depth]
    exact hlengths rfl

/-! ## 7. Chains that keep the rules are not refused -/

/-- The limit leaves room for all proxies of the chain. -/
def CallbackData.Room (data : CallbackData) (chain : List Cert) : Prop :=
  data.maxProxyDepth = -1 ∨ (proxies chain : Int) ≤ data.maxProxyDepth

/-- A path length that is kept leaves room. -/
theorem CallbackData.Room.afterExtensions
    (hplain : Plain chain) (hrules : ProxyRules chain) (hchain : chain = above ++ cert :: below)
    (hdepth : data.proxyDepth = proxies (above ++ [cert])) (hroom : data.Room chain) :
    (Gsi.afterExtensions cert.criticalExtensions data).Room chain := by
  have hcount := proxies_split hchain
  have htotal : proxies chain ≤ chain.length := countP_le_length
  have hmem : cert ∈ chain := by simp [hchain]
  have hkept := @afterExtensions_induction data cert.criticalExtensions
    (fun data => data.proxyDepth = proxies (above ++ [cert]) ∧ data.Room chain) ⟨hdepth, hroom⟩ ?_
  · exact hkept.2
  · rintro data ⟨hdepth, hroom⟩ pathLength hpath
    refine ⟨by rw [limit_proxyDepth, hdepth], ?_⟩
    rcases limit_cases data (some (pathLength : Int)) with h | ⟨pathLength', hsame, -, h⟩
    · rw [h]
      exact hroom
    · obtain rfl : pathLength = pathLength' := by simpa using hsame
      have hproxy := hplain.own cert hmem pathLength hpath
      have hfits := hplain.fits cert hmem pathLength hpath
      have hbelow := hrules.pathLength above cert below hchain hproxy pathLength hpath
      rw [h, CallbackData.Room]
      simp only
      rw [hdepth, toInt_of_lt (by omega) (by omega)]
      omega

theorem room_of_verifyIssuers (hplain : Plain chain) (hrules : ProxyRules chain) (hchain : chain = above ++ below)
    (h : verifyIssuers settings above .init = .ok data) : data.Room chain := by
  induction above using reverseRecOn generalizing below data with
  | nil =>
    obtain rfl := ok.inj h
    exact .inl rfl
  | append_singleton above cert ih =>
    obtain ⟨before, hbefore, hcert⟩ := verifyIssuers_concat h
    obtain ⟨certType, htype, -, rfl, -⟩ := credVerify_ok hcert
    rw [append_assoc] at hchain
    have hpassed := passed_of_verifyIssuers (hchain ▸ hplain.proxiesLast) hbefore
    have hroom : before.Room chain := ih hchain hbefore
    have hnext : (before.next certType).Room chain := hroom
    exact hnext.afterExtensions hplain hrules hchain (hpassed.depth_next htype)

theorem mixes_of_not_proxy {above : CertType} (h : above.isProxy = false) (below : CertType) :
    mixes above below = false := by
  cases above with
  | eec => rfl
  | ca => rfl
  | proxy f r => cases h

theorem mixes_self (format : Format) (rights rights' : Rights) :
    mixes (.proxy format rights) (.proxy format rights') = false := by
  cases format <;> rfl

/-- The certificate above has a kind and rights that go with the next one. -/
theorem Passed.admits (hpassed : Passed above data) (hrules : ProxyRules chain) (hchain : chain = above ++ cert :: below)
    (htype : getCertType cert = .ok certType)
    (hdepth : certType.isProxy = true → data.maxProxyDepth = -1 ∨ data.proxyDepth + 1 ≤ data.maxProxyDepth) :
    Admits data certType := by
  rcases above.eq_nil_or_concat with rfl | ⟨front, last, rfl⟩
  · refine ⟨fun _ => ?_, fun _ hlimited => ?_, hdepth⟩
    · rw [hpassed.first rfl]
      exact mixes_of_not_proxy rfl _
    · rw [hpassed.first rfl] at hlimited
      cases hlimited
  · have hlast : last ∈ (front.concat last).getLast? := by simp
    have hcert : cert ∈ chain := by simp [hchain]
    have hlastType := hpassed.last last hlast
    refine ⟨fun hproxy => ?_, fun hproxy hlimited => ?_, hdepth⟩
    · cases habove : data.certType with
      | eec | ca => exact mixes_of_not_proxy rfl _
      | proxy format rights =>
        cases certType with
        | eec | ca => cases hproxy
        | proxy format' rights' =>
          rw [habove] at hlastType
          obtain rfl := hrules.unmixed last (by simp [hchain]) cert hcert format rights format' rights' hlastType htype
          exact mixes_self _ _ _
    · have hadjacent : LimitedRule last cert := by
        have hlimits := hrules.limited
        rw [hchain] at hlimits
        exact (isChain_append.mp hlimits).2.2 last hlast cert (by simp)
      exact hadjacent data.certType certType hlastType hlimited htype hproxy

theorem notRejected_of_plain (hplain : Plain chain)
    (htyped : ∀ cert ∈ chain, ∃ certType, getCertType cert = .ok certType) (hrules : ProxyRules chain) :
    NotRejected settings chain := by
  intro above cert below hchain data hissuers
  have hpassed : Passed above data := passed_of_verifyIssuers (hchain ▸ hplain.proxiesLast) hissuers
  have hroom := room_of_verifyIssuers hplain hrules hchain hissuers
  obtain ⟨certType, htype⟩ := htyped cert (by simp [hchain])
  refine ⟨_, checkProxy_iff.mpr ⟨certType, htype, hpassed.admits hrules hchain htype ?_, rfl⟩⟩
  intro hproxy
  have hcount := proxies_split hchain
  rw [proxies_concat, isProxy_of_type htype, if_pos hproxy] at hcount
  rcases hroom with h | h
  · exact .inl h
  · exact .inr (by rw [hpassed.depth]; omega)

def caCert : Cert := ⟨some ⟨true, some 0⟩, [], [], false⟩

def userCert : Cert := ⟨none, [⟨true, [65]⟩], [], false⟩

/-- An RFC proxy that inherits all rights. -/
def rfcProxy (pathLength : Option Int) : Cert :=
  ⟨none, [⟨true, [49]⟩], [⟨.proxyCertInfo, true, some ⟨pathLength, some ⟨some .inheritAll, false⟩⟩⟩], true⟩

def twoProxies (pathLength : Int) : List Cert := [caCert, userCert, rfcProxy (some pathLength), rfcProxy none]

def acceptAll : Settings := ⟨none, fun _ => true⟩

theorem getCertType_rfcProxy (pathLength : Option Int) :
    getCertType (rfcProxy pathLength) = .ok (.proxy .rfc .impersonation) := rfl

theorem typed_twoProxies (pathLength : Int) :
    ∀ cert ∈ twoProxies pathLength, ∃ certType, getCertType cert = .ok certType ∧ certType.isLimitedProxy = false ∧
      ∀ format rights, certType = .proxy format rights → format = .rfc := by
  have hproxy : ∀ format rights, proxy .rfc .impersonation = .proxy format rights → format = .rfc := by
    rintro format rights ⟨⟩
    rfl
  intro cert hcert
  simp only [twoProxies, mem_cons, not_mem_nil, or_false] at hcert
  rcases hcert with rfl | rfl | rfl | rfl
  · exact ⟨.ca, rfl, rfl, nofun⟩
  · exact ⟨.eec, rfl, rfl, nofun⟩
  · exact ⟨_, getCertType_rfcProxy _, rfl, hproxy⟩
  · exact ⟨_, getCertType_rfcProxy _, rfl, hproxy⟩

theorem splits_twoProxies {pathLength : Int} (h : twoProxies pathLength = above ++ cert :: below) :
    (cert = caCert ∧ above = []) ∨ (cert = userCert ∧ above = [caCert]) ∨
      (cert = rfcProxy (some pathLength) ∧ below = [rfcProxy none]) ∨ (cert = rfcProxy none ∧ below = []) := by
  rcases above with _ | ⟨a, _ | ⟨b, _ | ⟨c, _ | ⟨d, above⟩⟩⟩⟩ <;>
    simp only [twoProxies, nil_append, cons_append, cons.injEq] at h
  · exact .inl ⟨h.1.symm, rfl⟩
  · exact .inr (.inl ⟨h.2.1.symm, by rw [h.1]⟩)
  · exact .inr (.inr (.inl ⟨h.2.2.1.symm, h.2.2.2.symm⟩))
  · exact .inr (.inr (.inr ⟨h.2.2.2.1.symm, h.2.2.2.2.symm⟩))
  · simp at h

theorem hasPathLength_twoProxies (hcert : cert ∈ twoProxies n)
    (hpath : cert.HasPathLength pathLength) : cert.isProxy = true ∧ pathLength = n := by
  obtain ⟨extension, hextension, -, info, hinfo, hvalue⟩ := hpath
  simp only [twoProxies, mem_cons, not_mem_nil, or_false] at hcert
  rcases hcert with rfl | rfl | rfl | rfl
  · cases hextension
  · cases hextension
  · obtain rfl := mem_singleton.mp hextension
    cases hinfo
    exact ⟨rfl, by simpa using hvalue.symm⟩
  · obtain rfl := mem_singleton.mp hextension
    cases hinfo
    cases hvalue

theorem proxyRules_twoProxies (hn : 1 ≤ n) : ProxyRules (twoProxies n) where
  unmixed cert hcert cert' hcert' format rights format' rights' htype htype' := by
    obtain ⟨_, h, -, hrfc⟩ := typed_twoProxies n cert hcert
    obtain ⟨_, h', -, hrfc'⟩ := typed_twoProxies n cert' hcert'
    exact (hrfc _ _ (ok.inj (h.symm.trans htype))).trans (hrfc' _ _ (ok.inj (h'.symm.trans htype'))).symm
  limited := by
    have hnone : ∀ cert ∈ twoProxies n, ∀ below, LimitedRule cert below := by
      intro cert hcert below type type' htype hlimited
      obtain ⟨_, h, hfull, -⟩ := typed_twoProxies n cert hcert
      rw [← ok.inj (h.symm.trans htype), hfull] at hlimited
      cases hlimited
    refine .cons_cons (hnone _ (by simp [twoProxies]) _) (.cons_cons (hnone _ (by simp [twoProxies]) _)
      (.cons_cons (hnone _ (by simp [twoProxies]) _) (.singleton _)))
  pathLength above cert below hchain hproxy pathLength hpath := by
    have hmem : cert ∈ twoProxies n := by simp [hchain]
    have hn' := (hasPathLength_twoProxies hmem hpath).2
    rcases splits_twoProxies hchain with ⟨rfl, -⟩ | ⟨rfl, -⟩ | ⟨rfl, rfl⟩ | ⟨rfl, rfl⟩
    · cases hproxy
    · cases hproxy
    · rw [hn']
      exact hn
    · exact Nat.zero_le _

theorem plain_twoProxies (hn : n + 4 < 2 ^ 31) : Plain (twoProxies n) where
  proxiesLast above cert below hchain hcert other hother := by
    rcases splits_twoProxies hchain with ⟨rfl, rfl⟩ | ⟨rfl, rfl⟩ | ⟨rfl, rfl⟩ | ⟨rfl, rfl⟩
    · cases hother
    · rw [mem_singleton.mp hother]
      rfl
    · cases hcert
    · cases hcert
  own cert hcert pathLength hpath := (hasPathLength_twoProxies hcert hpath).1
  length_lt := show 4 < 2 ^ 31 by decide
  fits cert hcert pathLength hpath := by
    rw [(hasPathLength_twoProxies hcert hpath).2]
    exact hn

end Gct.Gsi
