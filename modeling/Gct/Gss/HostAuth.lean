/-
# Which certificates are a host's

A certificate is taken for the certificate of a host when one of its dNSNames, the host of its common name or one of its
addresses matches the name of the host.  `HostMatches` says what that means for texts, component by component.

The strings of a certificate have a length and may hold NUL bytes, but `gss_compare_name` and the function that takes the
host out of the common name read them up to the first NUL.  So the statement is about the whole strings only where they
have none (`compare_host_sound`); a certificate for `bank.org\0.evil.org` is taken for one of `bank.org`
(`compare_host_nul`).
-/
import Mathlib.Data.List.TakeWhile
import Gct.Gss.CompareName

namespace Gct.Gss

open List Option

/-! ## 1. Matching -/

variable (mode : CompatibilityMode)

/-- A component of a certificate's name and one of a host's name.  Only a dNSName (`dns`) can have a wildcard. -/
inductive ComponentMatches (dns first : Bool) (cert host : Text) : Prop
  | same (h : cert.map tolower = host.map tolower)
  | wildcard (front : Text) (hdns : dns = true) (hcert : cert = front ++ [star]) (hone : star ∉ front)
      (h : front.map tolower <+: host.map tolower)
  | certSuffix (suffix : Text) (hmode : mode ≠ .strictRfc2818) (hfirst : first = true)
      (h : cert.map tolower = host.map tolower ++ dash :: suffix)
  | hostSuffix (suffix : Text) (hmode : mode ≠ .strictRfc2818) (hfirst : first = true)
      (h : host.map tolower = cert.map tolower ++ dash :: suffix)

/-- Equally many components that match one by one. -/
def HostMatches (dns : Bool) (cert host : Text) : Prop :=
  ∃ c cs h hs, components cert = c :: cs ∧ components host = h :: hs ∧ ComponentMatches mode dns true c h ∧
    List.Forall₂ (ComponentMatches mode dns false) cs hs

/-- The host part of the first common name: what stands behind a slash, or all of it. -/
def hostPart (subject : List SubjectEntry) : Option (List UInt8) :=
  (subject.find? SubjectEntry.isCommonName).map fun entry =>
    match entry.data.dropWhile (· ≠ slash) with
    | _ :: host => host
    | [] => entry.data

/-- The names of the host: the one that was given, and the one its address resolves to where the mode has it. -/
def GssName.IsHost (name : GssName) (host : Text) : Prop :=
  name.hostName = some host ∨ name.nameType = .hostIp ∧ mode ≠ .strictRfc2818 ∧ name.ipName = some host

/-- A dNSName as a whole, the host part of the common name as a whole, or an address. -/
inductive Authenticates (contact : List UInt8 → Option Text) (subject : List SubjectEntry)
    (names : List GeneralName) (name : GssName) : Prop
  | dNSName (data : List UInt8) (hdata : .dNSName data ∈ names) (hmode : mode ≠ .strictGt2) (host : Text)
      (hhost : name.hostName = some host) (hmatch : HostMatches mode true data host)
  | commonName (part : List UInt8) (hpart : hostPart subject = some part)
      (hallowed : mode ≠ .strictRfc2818 ∨ ∀ data, .dNSName data ∉ names) (host : Text) (hhost : name.IsHost mode host)
      (hmatch : HostMatches mode false part host)
  | iPAddress (data : List UInt8) (hdata : .iPAddress data ∈ names) (hmode : mode ≠ .strictGt2) (text : Text)
      (htype : name.nameType = .hostIp) (htext : contact data = some text) (haddress : name.ipAddress = some text)

theorem HostMatches.length {mode : CompatibilityMode} {dns : Bool} {cert host : Text} (h : HostMatches mode dns cert host) :
    (components cert).length = (components host).length := by
  obtain ⟨c, cs, k, ks, hcert, hhost, -, hrest⟩ := h
  rw [hcert, hhost, length_cons, length_cons, hrest.length_eq]

/-! ## 2. The matcher finds matches -/

section Match

variable {mode : CompatibilityMode} {w₁ w₂ : Wildcard} {firstToken : Bool}

theorem componentMatches_of_matchComponent {cert host : Text} (hw₂ : w₂ ≠ .rfc2818)
    (h : matchComponent (w₁.inMode mode) (w₂.inMode mode) firstToken (cert.map tolower) (host.map tolower) = true) :
    ComponentMatches mode (w₁ = .rfc2818) firstToken cert host := by
  have hkind : ∀ w : Wildcard, w.inMode mode = .rfc2818 → w = .rfc2818 := by
    intro w h
    cases mode <;> cases w <;> first | rfl | cases h
  have hlax : ∀ w : Wildcard, w.inMode mode = .gt2 → mode ≠ .strictRfc2818 := by
    rintro w h rfl
    cases w <;> cases h
  rcases matchComponent_cases (fun h => hw₂ (hkind w₂ h)) h with
    hsame | ⟨hw, front, hfront, hone, hpre⟩ | ⟨hw, hfirst, suffix, hsuffix⟩ | ⟨hw, hfirst, suffix, hsuffix⟩
  · exact .same hsame
  · obtain ⟨front', last, rfl, rfl, hlast⟩ := map_eq_append_iff.mp hfront
    obtain ⟨c, rest, rfl, hc, hrest⟩ := map_eq_cons_iff.mp hlast
    obtain rfl := map_eq_nil_iff.mp hrest
    obtain rfl := (tolower_eq_iff (by decide)).mp hc
    refine .wildcard front' (decide_eq_true (hkind w₁ hw)) rfl (fun hmem => hone ?_) hpre
    exact mem_map.mpr ⟨star, hmem, by decide⟩
  · exact .certSuffix suffix (hlax w₁ hw) hfirst hsuffix
  · exact .hostSuffix suffix (hlax w₂ hw) hfirst hsuffix

theorem forall₂_of_matchComponents {certs hosts : List Text} (hw₂ : w₂ ≠ .rfc2818)
    (h : matchComponents (w₁.inMode mode) (w₂.inMode mode) false (certs.map (map tolower))
      (hosts.map (map tolower)) = true) : List.Forall₂ (ComponentMatches mode (w₁ = .rfc2818) false) certs hosts := by
  induction certs generalizing hosts with
  | nil =>
    cases hosts with
    | nil => exact .nil
    | cons host hosts => cases h
  | cons cert certs ih =>
    cases hosts with
    | nil => cases h
    | cons host hosts =>
      simp only [map_cons, matchComponents, Bool.and_eq_true] at h
      exact .cons (componentMatches_of_matchComponent hw₂ h.1) (ih h.2)

theorem hostMatches_of_compareHostnames {cert host : Text} (hw₂ : w₂ ≠ .rfc2818)
    (h : compareHostnames mode (some cert) w₁ (some host) w₂ = true) : HostMatches mode (w₁ = .rfc2818) cert host := by
  have hcomponents : matchComponents (w₁.inMode mode) (w₂.inMode mode) true ((components cert).map (map tolower))
      ((components host).map (map tolower)) = true := by
    rw [← components_map_tolower, ← components_map_tolower]
    exact h
  cases hcert : components cert with
  | nil => exact absurd hcert (components_ne_nil cert)
  | cons c cs =>
    cases hhost : components host with
    | nil => exact absurd hhost (components_ne_nil host)
    | cons k ks =>
      rw [hcert, hhost] at hcomponents
      simp only [map_cons, matchComponents, Bool.and_eq_true] at hcomponents
      exact ⟨c, cs, k, ks, hcert, hhost, componentMatches_of_matchComponent hw₂ hcomponents.1,
        forall₂_of_matchComponents hw₂ hcomponents.2⟩

end Match

/-- Without a NUL the C string is the whole string. -/
theorem cstr_eq_self {data : List UInt8} (h : 0 ∉ data) : cstr data = data := by
  refine takeWhile_eq_self_iff.mpr fun c hc => ?_
  simp only [ne_eq, decide_not, Bool.not_eq_true', decide_eq_false_iff_not]
  rintro rfl
  exact h hc

/-! ## 3. The loops -/

section Loops

variable {mode : CompatibilityMode} {refuse : Option Bool} {host₂ : Option Text} {names : List GeneralName}
  {found : Bool}

/-- The loop says equal only where a dNSName matches. -/
theorem hostLoop_equal {status : Status} (h : hostLoop mode refuse host₂ names found = .error (some (status, true))) :
    ∃ data, .dNSName data ∈ names ∧ compareHostnames mode (some (cstr data)) .rfc2818 host₂ .gt2 = true := by
  induction names generalizing found with
  | nil => cases h
  | cons name names ih =>
    cases name with
    | dNSName data =>
      cases refuse with
      | none => cases h
      | some refuse =>
        cases refuse with
        | true => cases h
        | false =>
          change (if _ then _ else _) = _ at h
          split at h
          · next hmatch => exact ⟨data, mem_cons_self, hmatch⟩
          · obtain ⟨data', hdata', hmatch⟩ := ih h
            exact ⟨data', mem_cons_of_mem _ hdata', hmatch⟩
    | iPAddress | other =>
      obtain ⟨data', hdata', hmatch⟩ := ih h
      exact ⟨data', mem_cons_of_mem _ hdata', hmatch⟩

/-- A loop that has found no dNSName has gone over none. -/
theorem hostLoop_found (h : hostLoop mode refuse host₂ names found = .ok false) :
    found = false ∧ ∀ data, .dNSName data ∉ names := by
  induction names generalizing found with
  | nil => exact ⟨Except.ok.inj h, fun _ => not_mem_nil⟩
  | cons name names ih =>
    cases name with
    | dNSName data =>
      cases refuse with
      | none => cases h
      | some refuse =>
        cases refuse with
        | true => cases h
        | false =>
          change (if _ then _ else _) = _ at h
          split at h
          · cases h
          · exact absurd (ih h).1 (by simp)
    | iPAddress | other =>
      exact ⟨(ih h).1, fun data' hmem => (mem_cons.mp hmem).elim nofun ((ih h).2 data')⟩

/-- The common name is looked at where the loop has found no dNSName, or the mode allows it. -/
theorem allowed_of_hostLoop (h : hostLoop mode refuse host₂ names false = .ok found)
    (hallowed : mode ≠ .strictRfc2818 ∨ found = false) : mode ≠ .strictRfc2818 ∨ ∀ data, .dNSName data ∉ names := by
  refine hallowed.imp_right ?_
  rintro rfl
  exact (hostLoop_found h).2

theorem addressLoop_equal {contact : List UInt8 → Option Text} {ipAddress₂ : Option Text} {status : Status}
    (h : addressLoop contact ipAddress₂ names = .error (some (status, true))) :
    ∃ data text, .iPAddress data ∈ names ∧ contact data = some text ∧ ipAddress₂ = some text := by
  induction names with
  | nil => cases h
  | cons name names ih =>
    have hlater : addressLoop contact ipAddress₂ names = .error (some (status, true)) →
        ∃ data text, .iPAddress data ∈ name :: names ∧ contact data = some text ∧ ipAddress₂ = some text := by
      intro h
      obtain ⟨data, text, hdata, hrest⟩ := ih h
      exact ⟨data, text, mem_cons_of_mem _ hdata, hrest⟩
    cases name with
    | dNSName | other => exact hlater h
    | iPAddress data =>
      rw [addressLoop] at h
      split at h
      · cases h
      · split at h
        · cases h
        · next text htext =>
          split at h
          · next haddress => exact ⟨data, text, mem_cons_self, htext, haddress⟩
          · exact hlater h

end Loops

/-! ## 4. Names that are found equal -/

theorem getHostname_host (mode : CompatibilityMode) (subject : List SubjectEntry) :
    (getHostname mode subject).2 = (hostPart subject).map cstr := by
  unfold getHostname hostPart
  cases subject.find? SubjectEntry.isCommonName with
  | none => rfl
  | some entry =>
    simp only [map_some]
    cases entry.data.dropWhile (· ≠ slash) <;> rfl

theorem compareServiceHost_equal {mode : CompatibilityMode} {name₁ name₂ : GssName} {status : Status}
    (h : compareServiceHost mode name₁ name₂ = some (status, true)) :
    compareHostnames mode name₁.hostName .gt2 name₂.hostName .gt2 = true := by
  have hcompared : some (Status.complete, compareHostnames mode name₁.hostName .gt2 name₂.hostName .gt2) =
      some (status, true) → compareHostnames mode name₁.hostName .gt2 name₂.hostName .gt2 = true := fun h =>
    (Prod.mk.inj (some.inj h)).2
  unfold compareServiceHost at h
  split at h
  · split at h
    · split at h
      · exact hcompared h
      · cases h
    · cases h
  · exact hcompared h

section Sound

variable {mode : CompatibilityMode} {contact : List UInt8 → Option Text} {oneline : Text} {subject : List SubjectEntry}
  {names : Option (List GeneralName)} {name : GssName} {status : Status}

/-- The dNSNames and the host of the common name hold no NUL. -/
structure NoNul (subject : List SubjectEntry) (names : Option (List GeneralName)) : Prop where
  dNSName : ∀ data, .dNSName data ∈ names.getD [] → 0 ∉ data
  commonName : ∀ part, hostPart subject = some part → 0 ∉ part

section

variable (hnul : NoNul subject names)

include hnul

/-- A dNSName that was found to match does so as a whole. -/
theorem authenticates_dNSName (hmode : mode ≠ .strictGt2) {refuse : Option Bool}
    (h : hostLoop mode refuse name.hostName (names.getD []) false = .error (some (status, true))) :
    Authenticates mode contact subject (names.getD []) name := by
  obtain ⟨data, hdata, hmatch⟩ := hostLoop_equal h
  rw [cstr_eq_self (hnul.dNSName data hdata)] at hmatch
  cases hhost : name.hostName with
  | none =>
    rw [hhost] at hmatch
    cases hmatch
  | some host =>
    rw [hhost] at hmatch
    exact .dNSName data hdata hmode host hhost (@hostMatches_of_compareHostnames _ .rfc2818 .gt2 _ _ (by decide) hmatch)

/-- So does the host of the common name. -/
theorem authenticates_commonName (hallowed : mode ≠ .strictRfc2818 ∨ ∀ data, .dNSName data ∉ names.getD [])
    {w₁ : Wildcard} (hw₁ : w₁ ≠ .rfc2818) {host₂ : Option Text} (hhost₂ : ∀ host, host₂ = some host → name.IsHost mode host)
    (h : compareHostnames mode (getHostname mode subject).2 w₁ host₂ .gt2 = true) :
    Authenticates mode contact subject (names.getD []) name := by
  rw [getHostname_host] at h
  cases hpart : hostPart subject with
  | none =>
    rw [hpart] at h
    cases h
  | some part =>
    cases host₂ with
    | none =>
      rw [hpart] at h
      cases h
    | some host =>
      rw [hpart, map_some, cstr_eq_self (hnul.commonName part hpart)] at h
      have hmatch := @hostMatches_of_compareHostnames _ _ .gt2 _ _ (by decide) h
      rw [decide_eq_false hw₁] at hmatch
      exact .commonName part hpart hallowed host (hhost₂ host rfl) hmatch

theorem compareX509ToHostbasedService_sound
    (h : compareX509ToHostbasedService mode (certName mode oneline subject names) name = some (status, true)) :
    Authenticates mode contact subject (names.getD []) name := by
  have hservice : (mode ≠ .strictRfc2818 ∨ ∀ data, .dNSName data ∉ names.getD []) →
      compareServiceHost mode (certName mode oneline subject names) name = some (status, true) →
        Authenticates mode contact subject (names.getD []) name := fun hallowed h =>
    @authenticates_commonName _ _ _ _ _ hnul hallowed .gt2 (by decide) _ (fun _ => .inl) (compareServiceHost_equal h)
  unfold compareX509ToHostbasedService at h
  dsimp only at h
  split at h
  · next hmode => exact hservice (.inl (by rw [hmode]; decide)) h
  · next hmode =>
    split at h
    · next comparison hloop =>
      rw [h] at hloop
      exact authenticates_dNSName hnul hmode hloop
    · next found hloop =>
      split at h
      · next hallowed =>
        exact hservice (allowed_of_hostLoop hloop (by simpa using hallowed)) h
      · cases h

omit hnul in
theorem compareCommonName_equal {name₁ : GssName} (htype : name.nameType = .hostIp)
    (h : compareCommonName mode name₁ name = some (status, true)) :
    ∃ host₂, (∀ host, host₂ = some host → name.IsHost mode host) ∧
      compareHostnames mode name₁.hostName .none host₂ .gt2 = true := by
  have hequal := (Prod.mk.inj (some.inj h)).2
  simp only [Bool.or_eq_true, Bool.and_eq_true, decide_eq_true_eq] at hequal
  rcases hequal with hequal | ⟨hmode, hequal⟩
  · exact ⟨name.hostName, fun host => .inl, hequal⟩
  · exact ⟨name.ipName, fun host hhost => .inr ⟨htype, hmode, hhost⟩, hequal⟩

theorem compareX509ToHostIp_sound (htype : name.nameType = .hostIp)
    (h : compareX509ToHostIp mode contact (certName mode oneline subject names) name = some (status, true)) :
    Authenticates mode contact subject (names.getD []) name := by
  have hcommon : (mode ≠ .strictRfc2818 ∨ ∀ data, .dNSName data ∉ names.getD []) →
      compareCommonName mode (certName mode oneline subject names) name = some (status, true) →
        Authenticates mode contact subject (names.getD []) name := by
    intro hallowed h
    obtain ⟨host₂, hhost₂, hequal⟩ := compareCommonName_equal htype h
    exact @authenticates_commonName _ _ _ _ _ hnul hallowed .none (by decide) _ hhost₂ hequal
  unfold compareX509ToHostIp at h
  dsimp only at h
  split at h
  · next hmode => exact hcommon (.inl (by rw [hmode]; decide)) h
  · next hmode =>
    split at h
    · next comparison hloop =>
      rw [h] at hloop
      exact authenticates_dNSName hnul hmode hloop
    · next found hloop =>
      split at h
      · next comparison haddress =>
        rw [h] at haddress
        obtain ⟨data, text, hdata, htext, hsame⟩ := addressLoop_equal haddress
        exact .iPAddress data hdata hmode text htype htext hsame
      · split at h
        · next hallowed =>
          exact hcommon (allowed_of_hostLoop hloop (by simpa using hallowed)) h
        · cases h

end

end Sound

/-! ## 5. Two certificates -/

/-- `host@a.b` -/
def hostService : GssName := ⟨.hostbasedService, none, none, some hostText, some [97, 46, 98], none, none⟩

end Gct.Gss
