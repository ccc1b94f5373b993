/-
# Tokens in the hands of an attacker

Both sides of an established context make tokens; whoever sits between them hands any bytes to either side,
as often and in whatever order they like.  The MAC is taken to be ideal: what passes for a MAC was made by
one of the two sides for the same input (`unforgeable`).

A token that is accepted has the number that is expected or a later one, and moves the expected number
behind its own.  So no token is accepted twice.  That it comes from the other side does not follow: both
directions are numbered from zero under one exported key, and a side cannot tell a token of its own from one
of its peer's.

* `accepted_or_refused` says what `gss_verify_mic` does, with the checks in one place;
* `eq_of_macInput`: a token that passes over an input that was signed is the signed token, byte for byte;
* `along_secure_iff`: the two sides are safe exactly as long as no side is handed a token of its own that
  is not old to it.
-/
import Gct.Gss.InOrder
import Gct.Lib.Runs

namespace Gct.Gss

open List Function Context Endian Option

/-! ## 1. The two sides and what happens to them -/

inductive Side
  | initiator
  | acceptor
  deriving DecidableEq, Repr

def Side.peer : Side → Side
  | initiator => acceptor
  | acceptor => initiator

theorem Side.eq_or_eq_peer (side other : Side) : other = side ∨ other = side.peer := by
  cases side <;> cases other <;> simp [Side.peer]

/-- The two contexts, the messages each side has signed with the tokens it gave out for them, and the tokens
each side has accepted. -/
structure Session where
  context : Side → Context
  signed : Side → List (List UInt8 × List UInt8)
  accepted : Side → List (List UInt8)

/-- Both sides export the same key material from the handshake. -/
def Session.established (suite : Suite) (macKey macIvFixed : List UInt8) (oldMic : Side → Bool) : Session where
  context := fun side => .established suite macKey macIvFixed (oldMic side)
  signed := fun _ => []
  accepted := fun _ => []

/-- What the attacker makes the sides do. -/
inductive Action
  | getMic (side : Side) (message : List UInt8)
  | verifyMic (side : Side) (message token : List UInt8)

/-- `GSS_S_COMPLETE`, or `GSS_S_GAP_TOKEN` and nothing else. -/
def Status.accepts : Status → Bool
  | complete | gapToken => true
  | failure | defectiveToken | badSig | oldToken => false

def Session.step (threads : ThreadModel) (session : Session) : Action → Option Session
  | .getMic side message =>
    (gssGetMic threads (session.context side) message).map fun (status, context, token) =>
      { session with
        context := update session.context side context
        signed := if status = .complete then
            update session.signed side (session.signed side ++ [(message, token)])
          else session.signed }
  | .verifyMic side message token =>
    (gssVerifyMic threads (session.context side) message token).map fun (status, context) =>
      { session with
        context := update session.context side context
        accepted := if status.accepts then update session.accepted side (session.accepted side ++ [token])
          else session.accepted }

/-! ## 2. What is assumed and what is wanted -/

variable (suite : Suite) (macKey macIvFixed : List UInt8) (session : Session)

/-- What the MAC is computed over: the digest takes in the header, GCM only the number (as its
initialization vector). -/
def Suite.macInput (token message : List UInt8) : List UInt8 × List UInt8 :=
  match suite with
  | .digest _ => (token.take 12, message)
  | .gcm _ | .other => (token.take 8, message)

/-- The ideal MAC: a side that is handed a valid one is handed one that was made before for this input. -/
def Session.Unforgeable : Action → Prop
  | .getMic _ _ => True
  | .verifyMic side message token => (session.context side).MacValid message token →
      ∃ signer, ∃ entry ∈ session.signed signer,
        (session.context side).suite.macInput entry.2 entry.1 = (session.context side).suite.macInput token message

/-- What is accepted is what the peer signed with this token; it is no token of the side's own, and it was
not accepted before. -/
def Session.Secure (threads : ThreadModel) (session : Session) : Action → Prop
  | .getMic _ _ => True
  | .verifyMic side message token => ∀ status context,
      gssVerifyMic threads (session.context side) message token = some (status, context) → status.accepts = true →
        (message, token) ∈ session.signed side.peer ∧ token ∉ (session.signed side).map Prod.snd ∧
          token ∉ session.accepted side

/-- The length of the message survives its four bytes and the `int` it is read into. -/
def FitsLength (message : List UInt8) : Prop := message.length = intLength (message.length % 2 ^ 32)

/-- If the attacker hands a side one of its own tokens, with a message it was made for, the last byte of its
number is below the number the side expects. -/
def Session.NoReflection : Action → Prop
  | .getMic _ _ => True
  | .verifyMic side message token => token ∈ (session.signed side).map Prod.snd →
      (∃ signer, (message, token) ∈ session.signed signer) → FitsLength message →
        n2u64 token < (session.context side).macReadSequence

/-! ## 3. The checks of `gss_verify_mic` -/

section Verify

variable {threads : ThreadModel} {context : Context} {message token : List UInt8}

/-- What is refused before the number is looked at leaves the context as it was. -/
theorem verifyMicNew_of_not_checks (h : ¬ context.Checks message token) :
    ∃ status, status.accepts = false ∧ context.verifyMicNew message token = (status, context) := by
  unfold verifyMicNew
  cases hsuite : context.suite with
  | digest | gcm cipher =>
    dsimp only
    split_ifs with hlength hdata hmic
    · exact ⟨_, rfl, rfl⟩
    · exact ⟨_, rfl, rfl⟩
    · exact ⟨_, rfl, rfl⟩
    · refine absurd ⟨?_, ?_, not_not.mp hdata, ?_⟩ h
      · rw [hsuite]
        exact trivial
      · rw [hsuite]
        exact not_not.mp hlength
      · rw [Context.MacValid, hsuite]
        first
        | exact (not_not.mp hmic).symm
        | exact (not_not.mp hmic).trans (cipher.mic_take _ _ _ _).symm
  | other => exact ⟨_, rfl, rfl⟩

/-- The last byte of the number is a byte. -/
theorem n2u64_lt (hlength : 8 ≤ token.length) : n2u64 token < 256 := by
  rcases token with _ | ⟨c₀, _ | ⟨c₁, _ | ⟨c₂, _ | ⟨c₃, _ | ⟨c₄, _ | ⟨c₅, _ | ⟨c₆, _ | ⟨c₇, rest⟩⟩⟩⟩⟩⟩⟩⟩
  case cons.cons.cons.cons.cons.cons.cons.cons =>
    simp only [n2u64, zip_cons_cons, zip_nil_right, foldl_cons, foldl_nil, place_eq, Nat.shiftLeft_zero]
    exact c₇.toNat_lt
  all_goals simp at hlength

/-- The number of an accepted token is not below the one expected, which then moves behind it. -/
theorem checkSequence_cases (context : Context) (token : List UInt8) :
    (context.macReadSequence ≤ n2u64 token ∧ ∃ status, status.accepts = true ∧
        context.checkSequence token = (status, context.took ((n2u64 token + 1) % 2 ^ 64))) ∨
      (n2u64 token < context.macReadSequence ∧ context.checkSequence token = (.oldToken, context)) := by
  unfold checkSequence
  dsimp only
  split_ifs with hgap hold
  · exact .inl ⟨hgap.le, .gapToken, rfl, rfl⟩
  · exact .inr ⟨hold, rfl⟩
  · have hsame : context.macReadSequence = n2u64 token := le_antisymm (not_lt.mp hold) (not_lt.mp hgap)
    refine .inl ⟨hsame.le, .complete, rfl, ?_⟩
    rw [hsame]
    rfl

theorem gssVerifyMic_unlocked (hunlocked : context.locked = false) : gssVerifyMic threads context message token =
      some ((context.hold.verifyMicNew message token).1, (context.hold.verifyMicNew message token).2.unlock) := by
  have hold : (if context.hold.oldMic then verifyMicOld else Status.failure) = .failure := by
    split <;> rfl
  rw [gssVerifyMic, lock_eq fun _ => hunlocked, bind_eq_bind, bind_some]
  simp only [hold, true_or, if_true]

/-- **Either the token passes every check and is not old, and the side then expects the number behind it, or it
is refused and nothing changes.** -/
theorem accepted_or_refused (threads : ThreadModel) (hunlocked : context.locked = false) (message token : List UInt8) :
    ((context.Checks message token ∧ context.macReadSequence ≤ n2u64 token) ∧ ∃ status, status.accepts = true ∧
        gssVerifyMic threads context message token = some (status, context.took (n2u64 token + 1))) ∨
      (¬ (context.Checks message token ∧ context.macReadSequence ≤ n2u64 token) ∧ ∃ status, status.accepts = false ∧
        gssVerifyMic threads context message token = some (status, context)) := by
  rw [gssVerifyMic_unlocked hunlocked]
  by_cases hchecks : context.Checks message token
  · have hlt : n2u64 token < 256 := n2u64_lt (by rw [hchecks.length]; omega)
    have hheld : context.hold.Checks message token :=
      ⟨hchecks.macs, hchecks.length, hchecks.dataLength, hchecks.valid⟩
    rw [verifyMicNew_of_checks hheld]
    rcases checkSequence_cases context.hold token with ⟨hle, status, haccepts, hsequence⟩ | ⟨hold, hsequence⟩
    · refine .inl ⟨⟨hchecks, hle⟩, status, haccepts, ?_⟩
      rw [hsequence, Nat.mod_eq_of_lt (by omega)]
      exact congrArg (fun context => some (status, context)) (@Context.unlock_hold (context.took _) hunlocked)
    · refine .inr ⟨fun h => absurd h.2 (not_le.mpr hold), .oldToken, rfl, ?_⟩
      rw [hsequence]
      exact congrArg (fun context => some (Status.oldToken, context)) (unlock_hold hunlocked)
  · have hheld : ¬ context.hold.Checks message token :=
      fun h => hchecks ⟨h.macs, h.length, h.dataLength, h.valid⟩
    obtain ⟨status, hrefused, hverify⟩ := verifyMicNew_of_not_checks hheld
    refine .inr ⟨fun h => hchecks h.1, status, hrefused, ?_⟩
    rw [hverify]
    exact congrArg (fun context => some (status, context)) (unlock_hold hunlocked)

end Verify

/-! ## 4. Signed tokens -/

section Signed

variable {context : Context} {message token : List UInt8} {sequence : Nat}

theorem n2l_lt {chars : List UInt8} (hlength : 4 ≤ chars.length) : n2l chars < 2 ^ 32 := by
  rcases chars with _ | ⟨a, _ | ⟨b, _ | ⟨c, _ | ⟨d, rest⟩⟩⟩⟩
  case cons.cons.cons.cons =>
    rw [n2l_cons]
    exact (value_lt [a, b, c, d]).trans_le (by norm_num : 256 ^ 4 ≤ 2 ^ 32)
  all_goals simp at hlength

/-- Four bytes are those of the number they make. -/
theorem take_four_eq {chars : List UInt8} (hlength : 4 ≤ chars.length) {long : Nat} (hlong : long % 2 ^ 32 = n2l chars) :
    chars.take 4 = l2n long := by
  rcases chars with _ | ⟨a, _ | ⟨b, _ | ⟨c, _ | ⟨d, rest⟩⟩⟩⟩
  case cons.cons.cons.cons =>
    rw [n2l_cons] at hlong
    have hvalue : value [a, b, c, d] = value (l2n long) := by
      rw [l2n_eq, value_bytes, ← hlong]
      norm_num
    exact value_injective rfl hvalue
  all_goals simp at hlength

theorem n2l_drop_micToken (key ivFixed : List UInt8) (sequence : Nat) (message : List UInt8) :
    n2l ((micToken suite key ivFixed sequence message).drop 8) = message.length % 2 ^ 32 := by
  have hread : n2l (l2n message.length ++ suite.mic key ivFixed (u642n sequence ++ l2n message.length) message) =
      value (l2n message.length) := n2l_cons _ _ _ _ _
  rw [micToken, append_assoc]
  refine hread.trans ?_
  rw [l2n_eq, value_bytes]
  norm_num

section

variable (h : context.Checks message token)

include h

theorem Context.Checks.mod_eq : message.length % 2 ^ 32 = n2l (token.drop 8) := by
  have hlength : 4 ≤ (token.drop 8).length := by
    rw [length_drop, h.length]
    omega
  have hlt := n2l_lt hlength
  rw [h.dataLength, intLength]
  split <;> omega

theorem Context.Checks.fitsLength : FitsLength message := by
  rw [FitsLength, h.mod_eq]
  exact h.dataLength

/-- The header is the front eight bytes and the length of the message, whether the MAC covers them or not. -/
theorem Context.Checks.take_twelve : token.take 12 = token.take 8 ++ l2n message.length := by
  have hlength : 4 ≤ (token.drop 8).length := by
    rw [length_drop, h.length]
    omega
  rw [← take_four_eq hlength h.mod_eq]
  exact @take_add _ token 8 4

/-- **A token that passes over an input that was signed is the token that was made for it.** -/
theorem eq_of_macInput {signed : List UInt8} (hinput : context.suite.macInput (context.micToken sequence signed) signed =
      context.suite.macInput token message) : signed = message ∧ token = context.micToken sequence signed := by
  have hsigned : signed = message := by
    unfold Suite.macInput at hinput
    split at hinput <;> exact congrArg Prod.snd hinput
  subst hsigned
  have hheader : token.take 12 = u642n sequence ++ l2n signed.length := by
    have htoken : (context.micToken sequence signed).take 12 = u642n sequence ++ l2n signed.length := take_micToken
    have hnumber : (context.micToken sequence signed).take 8 = u642n sequence := by
      rw [Context.micToken, micToken, append_assoc]
      exact take_left' rfl
    unfold Suite.macInput at hinput
    split at hinput
    · exact (congrArg Prod.fst hinput).symm.trans htoken
    all_goals
      rw [h.take_twelve, ← hnumber]
      exact congrArg (· ++ _) (congrArg Prod.fst hinput).symm
  have hmic : token.drop 12 = context.suite.mic context.macKey context.macIvFixed (token.take 12) signed := by
    rw [← h.valid, take_of_length_le]
    rw [length_drop, h.length]
    omega
  refine ⟨rfl, ?_⟩
  rw [← take_append_drop 12 token, hmic, hheader]
  rfl

end

/-- A token of either side passes every check of either side but that of the number. -/
theorem checks_of_fitsLength (hmacs : context.suite.Macs) (hfits : FitsLength message) :
    context.Checks message (context.micToken sequence message) :=
  checks_micToken hmacs (by rw [n2l_drop_micToken]; exact hfits)

end Signed

/-! ## 5. Any number of actions -/

/-- One side after any run: its key is the exported one, it has given out tokens of the form
`gss_get_mic` makes, and expects a number behind those of all tokens it has accepted. -/
structure SideSound (context : Context)
    (signed : List (List UInt8 × List UInt8)) (accepted : List (List UInt8)) : Prop where
  suite_eq : context.suite = suite
  macKey_eq : context.macKey = macKey
  macIvFixed_eq : context.macIvFixed = macIvFixed
  unlocked : context.locked = false
  made : ∀ entry ∈ signed, suite.Macs ∧ ∃ sequence, entry.2 = micToken suite macKey macIvFixed sequence entry.1
  taken : ∀ token ∈ accepted, n2u64 token < context.macReadSequence

def Session.Sound : Prop :=
  ∀ side, SideSound suite macKey macIvFixed (session.context side) (session.signed side) (session.accepted side)

section Run

variable {threads : ThreadModel} {suite : Suite} {macKey macIvFixed : List UInt8} {session session' : Session}

theorem Session.sound_established (oldMic : Side → Bool) :
    (Session.established suite macKey macIvFixed oldMic).Sound suite macKey macIvFixed :=
  fun _ => ⟨rfl, rfl, rfl, rfl, nofun, nofun⟩

section

variable (hsound : session.Sound suite macKey macIvFixed)

include hsound

/-- A token that is made goes to the record. -/
theorem Session.Sound.getMic {side : Side} {message : List UInt8}
    (hstep : session.step threads (.getMic side message) = some session') : session'.Sound suite macKey macIvFixed := by
  obtain ⟨hsuite, hkey, hiv, hunlocked, hmade, htaken⟩ := hsound side
  by_cases hmacs : suite.Macs
  · rw [Session.step, gssGetMic_eq (hsuite ▸ hmacs) hunlocked, map_some, some.injEq] at hstep
    subst hstep
    intro other
    rcases eq_or_ne other side with rfl | hne
    · simp only [update_self, if_true]
      refine ⟨hsuite, hkey, hiv, hunlocked, forall_mem_append.mpr ⟨hmade, forall_mem_singleton.mpr ?_⟩, htaken⟩
      rw [Context.micToken, hsuite, hkey, hiv]
      exact ⟨hmacs, _, rfl⟩
    · simp only [update_of_ne hne, if_true]
      exact hsound other
  · have hother : suite = .other := by
      cases suite with
      | digest | gcm => exact absurd trivial hmacs
      | other => rfl
    rw [Session.step, gssGetMic_other (hsuite.trans hother) hunlocked, map_some, some.injEq] at hstep
    subst hstep
    simpa only [update_eq_self, reduceCtorEq, if_false] using hsound

/-- The number that is expected stays behind those of the accepted tokens. -/
theorem Session.Sound.verifyMic {side : Side}
    {message token : List UInt8} (hstep : session.step threads (.verifyMic side message token) = some session') :
    session'.Sound suite macKey macIvFixed := by
  obtain ⟨hsuite, hkey, hiv, hunlocked, hmade, htaken⟩ := hsound side
  rcases accepted_or_refused threads hunlocked message token with
    ⟨⟨-, hle⟩, status, haccepts, hverify⟩ | ⟨-, status, hrefused, hverify⟩
  · rw [Session.step, hverify, map_some, some.injEq] at hstep
    subst hstep
    intro other
    rcases eq_or_ne other side with rfl | hne
    · simp only [update_self, haccepts, if_true]
      refine ⟨hsuite, hkey, hiv, hunlocked, hmade, ?_⟩
      intro old hold
      show n2u64 old < n2u64 token + 1
      rcases mem_append.mp hold with hbefore | hnew
      · exact ((htaken old hbefore).trans_le hle).trans (Nat.lt_succ_self _)
      · rw [mem_singleton.mp hnew]
        exact Nat.lt_succ_self _
    · simp only [update_of_ne hne, haccepts, if_true]
      exact hsound other
  · rw [Session.step, hverify, map_some, some.injEq] at hstep
    subst hstep
    simpa only [update_eq_self, hrefused, Bool.false_eq_true, if_false] using hsound

theorem Session.Sound.step {action : Action}
    (hstep : session.step threads action = some session') : session'.Sound suite macKey macIvFixed := by
  cases action with
  | getMic side message => exact hsound.getMic hstep
  | verifyMic side message token => exact hsound.verifyMic hstep

theorem Session.Sound.eq_micToken {signer : Side}
    {message token : List UInt8} (hsigned : (message, token) ∈ session.signed signer) :
    suite.Macs ∧ ∃ sequence, token = micToken suite macKey macIvFixed sequence message :=
  (hsound signer).made _ hsigned

/-- What one side accepts the peer has signed, unless it is a token of the side's own. -/
theorem Session.Sound.secure_iff {action : Action}
    (hideal : session.Unforgeable action) : session.Secure threads action ↔ session.NoReflection action := by
  cases action with
  | getMic side message => exact Iff.rfl
  | verifyMic side message token =>
    obtain ⟨hsuite, hkey, hiv, hunlocked, -, htaken⟩ := hsound side
    constructor
    · -- a token of the side's own that is not old would be accepted
      rintro hsecure hown ⟨signer, hsigned⟩ hfits
      by_contra hold
      obtain ⟨hmacs, sequence, htoken⟩ := hsound.eq_micToken hsigned
      have hchecks : (session.context side).Checks message token := by
        have hmade := @checks_of_fitsLength (session.context side) message sequence (hsuite ▸ hmacs) hfits
        rw [Context.micToken, hsuite, hkey, hiv] at hmade
        rwa [htoken]
      rcases accepted_or_refused threads hunlocked message token with
        ⟨-, status, haccepts, hverify⟩ | ⟨hnot, -⟩
      · exact (hsecure status _ hverify haccepts).2.1 hown
      · exact hnot ⟨hchecks, not_lt.mp hold⟩
    · intro hfresh status context hverify haccepts
      rcases accepted_or_refused threads hunlocked message token with
        ⟨⟨hchecks, hle⟩, -⟩ | ⟨-, status', hrefused, hverify'⟩
      · -- the input was signed by one of the two, and so was this token
        obtain ⟨signer, ⟨signed, made⟩, hentry, hinput⟩ := hideal hchecks.valid
        obtain ⟨-, sequence, rfl⟩ := hsound.eq_micToken hentry
        have hmade := @eq_of_macInput (session.context side) message token sequence hchecks signed
        rw [Context.micToken, hsuite, hkey, hiv] at hmade
        rw [hsuite] at hinput
        obtain ⟨rfl, rfl⟩ := hmade hinput
        have hown : micToken suite macKey macIvFixed sequence signed ∉ (session.signed side).map Prod.snd :=
          fun hown => absurd (hfresh hown ⟨signer, hentry⟩ hchecks.fitsLength) (not_lt.mpr hle)
        refine ⟨?_, hown, fun hagain => absurd (htaken _ hagain) (not_lt.mpr hle)⟩
        rcases side.eq_or_eq_peer signer with rfl | rfl
        · exact absurd (mem_map.mpr ⟨_, hentry, rfl⟩) hown
        · exact hentry
      · rw [hverify', some.injEq, Prod.mk.injEq] at hverify
        rw [← hverify.1, hrefused] at haccepts
        cases haccepts

end

end Run

/-- **Under an ideal MAC, tokens are safe from replay, alteration and reflection exactly as long as the attacker
hands no side a token of its own that is not old to it.** -/
theorem along_secure_iff (threads : ThreadModel) (suite : Suite) (macKey macIvFixed : List UInt8) (oldMic : Side → Bool)
    (actions : List Action)
    (hideal : Runs.Along (Session.step threads) Session.Unforgeable (.established suite macKey macIvFixed oldMic) actions) :
    Runs.Along (Session.step threads) (Session.Secure threads) (.established suite macKey macIvFixed oldMic) actions ↔
      Runs.Along (Session.step threads) Session.NoReflection (.established suite macKey macIvFixed oldMic) actions :=
  Runs.along_congr (fun hsound hstep => Session.Sound.step hsound hstep)
    (fun hsound hunforgeable => Session.Sound.secure_iff hsound hunforgeable) actions
    (Session.sound_established oldMic) hideal

/-- The token with number zero for the message 1, 2, 3. -/
def firstToken : List UInt8 := micToken (.digest sumDigest) [7] [] 0 [1, 2, 3]

/-- The initiator signs a message. -/
def signedOnce : Session where
  context := update (fun _ => .established (.digest sumDigest) [7] [] false) .initiator
    ((established (.digest sumDigest) [7] [] false).wrote 1)
  signed := update (fun _ => []) .initiator [([1, 2, 3], firstToken)]
  accepted := fun _ => []

theorem step_signedOnce :
    (Session.established (.digest sumDigest) [7] [] fun _ => false).step .none (.getMic .initiator [1, 2, 3]) =
      some signedOnce := rfl

theorem unforgeable_firstToken (side : Side) : signedOnce.Unforgeable (.verifyMic side [1, 2, 3] firstToken) :=
  fun _ => ⟨.initiator, _, mem_singleton_self _, rfl⟩

theorem unforgeable_signedOnce (side : Side) : Runs.Along (Session.step .none) Session.Unforgeable
      (.established (.digest sumDigest) [7] [] fun _ => false)
      [.getMic .initiator [1, 2, 3], .verifyMic side [1, 2, 3] firstToken] :=
  (Runs.along_cons step_signedOnce).mpr ⟨trivial, unforgeable_firstToken side, fun _ _ => trivial⟩

/-- The acceptor is handed the token and takes it. -/
theorem along_secure_firstToken : Runs.Along (Session.step .none) (Session.Secure .none)
      (.established (.digest sumDigest) [7] [] fun _ => false)
      [.getMic .initiator [1, 2, 3], .verifyMic .acceptor [1, 2, 3] firstToken] :=
  (along_secure_iff .none (.digest sumDigest) [7] [] (fun _ => false) _ (unforgeable_signedOnce .acceptor)).mpr
    ((Runs.along_cons step_signedOnce).mpr ⟨trivial, nofun, fun _ _ => trivial⟩)

/-- The initiator is handed its own token and takes it. -/
theorem reflected_firstToken : Runs.Along (Session.step .none) Session.Unforgeable
        (.established (.digest sumDigest) [7] [] fun _ => false)
        [.getMic .initiator [1, 2, 3], .verifyMic .initiator [1, 2, 3] firstToken] ∧
      ¬ Runs.Along (Session.step .none) (Session.Secure .none)
        (.established (.digest sumDigest) [7] [] fun _ => false)
        [.getMic .initiator [1, 2, 3], .verifyMic .initiator [1, 2, 3] firstToken] := by
  refine ⟨unforgeable_signedOnce .initiator, fun hsecure => ?_⟩
  obtain ⟨-, hverify, -⟩ := (Runs.along_cons step_signedOnce).mp hsecure
  have hchecks : (signedOnce.context .initiator).Checks [1, 2, 3] firstToken :=
    @checks_of_fitsLength (signedOnce.context .initiator) [1, 2, 3] 0 trivial rfl
  rcases @accepted_or_refused (signedOnce.context .initiator) .none rfl [1, 2, 3] firstToken with
    ⟨-, status, haccepts, htaken⟩ | ⟨hnot, -⟩
  · exact (hverify status _ htaken haccepts).2.1 (mem_singleton_self _)
  · exact hnot ⟨hchecks, Nat.zero_le _⟩

end Gct.Gss
