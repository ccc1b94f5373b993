/-
# Tokens that are handed over in order

One side makes a token for each message, the other checks the tokens one after the other.  Both sides count:
the sender in the token, the receiver for itself.  The receiver reads the last byte of the sender's number
only, so the two agree for the first 256 messages; the next token is taken for an old one.

`inOrder_iff` is the exact condition.  Its second half is about `gss_unwrap`, which calls `gss_verify_mic`
with the context's mutex in its hands.
-/
import Gct.Gss.Mic

namespace Gct.Gss

open List Context
open Option (bind_eq_bind bind_some)

/-! ## 1. The exchange -/

/-- A message that is sent with a token of its own, or wrapped. -/
structure Message where
  wrapped : Bool
  data : List UInt8
  data_short : data.length < 2 ^ 31

def send (threads : ThreadModel) (context : Context) (message : Message) : Option (Status × Context × List UInt8) :=
  if message.wrapped then gssWrap threads context message.data else gssGetMic threads context message.data

/-- A token comes with its message, which the receiver then has. -/
def receive (threads : ThreadModel) (ssl : List UInt8 → Status × List UInt8) (context : Context) (message : Message)
    (token : List UInt8) : Option (Status × Context × List UInt8) :=
  if message.wrapped then gssUnwrap threads ssl context token
  else (gssVerifyMic threads context message.data token).map fun (status, context) => (status, context, message.data)

/-- Every call returns; each token that was made verifies, gives the message back, and leaves the counters
equal. -/
def InOrder (threads : ThreadModel) (ssl : List UInt8 → Status × List UInt8) : Context → Context → List Message → Prop
  | _, _, [] => True
  | sender, receiver, message :: messages =>
    ∃ made sender' token, send threads sender message = some (made, sender', token) ∧
      (made = .complete → ∃ receiver' output,
        receive threads ssl receiver message token = some (.complete, receiver', output) ∧
          output = message.data ∧ receiver'.macReadSequence = sender'.macWriteSequence ∧
          InOrder threads ssl sender' receiver' messages) ∧
      (made ≠ .complete → InOrder threads ssl sender' receiver messages)

variable (suite : Suite) (key ivFixed : List UInt8) (context : Context)

/-- A context when it is established. -/
def Context.established (macKey macIvFixed : List UInt8) (oldMic : Bool) : Context where
  suite := suite
  macKey := macKey
  macIvFixed := macIvFixed
  macReadSequence := 0
  macWriteSequence := 0
  oldMic := oldMic
  locked := false

/-- The suite has a digest or a GCM tag, so that tokens can be made. -/
def Suite.Macs : Suite → Prop
  | .digest _ | .gcm _ => True
  | .other => False

/-! ## 2. A token and its reader -/

/-- What stands behind the header of a token. -/
def Suite.mic (suite : Suite) (key ivFixed header message : List UInt8) : List UInt8 :=
  match suite with
  | .digest md => md.mic key header message
  | .gcm cipher => cipher.mic key ivFixed header message
  | .other => []

/-- The token with number `sequence`. -/
def micToken (sequence : Nat) (message : List UInt8) : List UInt8 :=
  u642n sequence ++ l2n message.length ++
    suite.mic key ivFixed (u642n sequence ++ l2n message.length) message

def wrapToken (mic message : List UInt8) : List UInt8 := [26, 3, 0] ++ s2n mic.length ++ mic ++ message

/-- What is sent for the message with number `sequence`. -/
def Message.token (sequence : Nat) (message : Message) : List UInt8 :=
  if message.wrapped then wrapToken (micToken suite key ivFixed sequence message.data) message.data
  else micToken suite key ivFixed sequence message.data

def Suite.micLength : Suite → Nat
  | .digest md => md.size
  | .gcm _ => 16
  | .other => 0

theorem Suite.length_mic (key ivFixed header message : List UInt8) :
    (suite.mic key ivFixed header message).length = suite.micLength := by
  cases suite with
  | digest md => exact md.length_hash _
  | gcm cipher => exact cipher.length_gmac _ _ _
  | other => rfl

theorem Suite.micLength_le : suite.micLength ≤ 64 := by
  cases suite with
  | digest md => exact md.size_le
  | gcm cipher => exact (by decide : 16 ≤ 64)
  | other => exact Nat.zero_le _

theorem Suite.Macs.micLength_pos {suite : Suite} (hsuite : suite.Macs) : 0 < suite.micLength := by
  cases suite with
  | digest md => exact md.size_pos
  | gcm cipher => exact (by decide : 0 < 16)
  | other => exact hsuite.elim

section Token

variable {suite : Suite} {key ivFixed : List UInt8} {sequence : Nat} {message : List UInt8}

@[simp] theorem length_micToken : (micToken suite key ivFixed sequence message).length = 12 + suite.micLength := by
  rw [micToken, length_append, suite.length_mic]
  rfl

theorem n2u64_micToken : n2u64 (micToken suite key ivFixed sequence message) = sequence % 256 := by
  rw [micToken, append_assoc]
  exact n2u64_u642n _ _

theorem n2l_micToken (hshort : message.length < 2 ^ 31) (rest : List UInt8) :
    n2l ((micToken suite key ivFixed sequence message ++ rest).drop 8) = message.length := by
  show n2l (l2n message.length ++ _) = _
  exact n2l_l2n (hshort.trans (by decide)) _

theorem take_micToken : (micToken suite key ivFixed sequence message).take 12 = u642n sequence ++ l2n message.length :=
  take_left' rfl

theorem take_mic_micToken : ((micToken suite key ivFixed sequence message).drop 12).take suite.micLength =
      suite.mic key ivFixed (u642n sequence ++ l2n message.length) message := by
  have hdrop : (micToken suite key ivFixed sequence message).drop 12 =
      suite.mic key ivFixed (u642n sequence ++ l2n message.length) message := drop_left' rfl
  rw [hdrop, ← suite.length_mic key ivFixed (u642n sequence ++ l2n message.length) message, take_length]

end Token

/-- The token that a context makes with number `sequence`. -/
abbrev Context.micToken (context : Context) (sequence : Nat) (message : List UInt8) : List UInt8 :=
  Gss.micToken context.suite context.macKey context.macIvFixed sequence message

/-- The token ends in the MAC of its header and the message. -/
def Context.MacValid (message token : List UInt8) : Prop :=
  (token.drop 12).take context.suite.micLength =
    context.suite.mic context.macKey context.macIvFixed (token.take 12) message

/-- Everything that is checked but the number. -/
structure Context.Checks (message token : List UInt8) : Prop where
  macs : context.suite.Macs
  length : token.length = 12 + context.suite.micLength
  dataLength : message.length = intLength (n2l (token.drop 8))
  valid : context.MacValid message token

section Checks

variable {context : Context} {message token : List UInt8} {sequence : Nat}

theorem Gcm.mic_take (cipher : Gcm) (key ivFixed header message : List UInt8) :
    cipher.mic key ivFixed (header.take 12) message = cipher.mic key ivFixed header message := by
  rw [Gcm.mic, Gcm.mic, take_take]
  rfl

theorem verifyMicNew_of_checks (h : context.Checks message token) :
    context.verifyMicNew message token = context.checkSequence token := by
  obtain ⟨hmacs, hlength, hdata, hvalid⟩ := h
  unfold Context.MacValid at hvalid
  unfold verifyMicNew
  cases hsuite : context.suite with
  | digest md =>
    rw [hsuite] at hlength hvalid
    have hmic : md.mic context.macKey (token.take 12) message = (token.drop 12).take md.size := hvalid.symm
    simp only [hmic, ← hdata, ne_eq, not_true_eq_false, if_false]
    exact if_neg (not_not_intro hlength)
  | gcm cipher =>
    rw [hsuite] at hlength hvalid
    have hmic : (token.drop 12).take 16 = cipher.mic context.macKey context.macIvFixed token message :=
      hvalid.trans (cipher.mic_take _ _ _ _)
    simp only [hmic, ← hdata, ne_eq, not_true_eq_false, if_false]
    exact if_neg (not_not_intro hlength)
  | other => exact (hsuite ▸ hmacs : Suite.other.Macs).elim

/-- A token under the right key passes all checks but that of its number. -/
theorem checks_micToken (hmacs : context.suite.Macs)
    (hlength : message.length = intLength (n2l ((context.micToken sequence message).drop 8))) :
    context.Checks message (context.micToken sequence message) where
  macs := hmacs
  length := length_micToken
  dataLength := hlength
  valid := by
    rw [Context.MacValid, take_micToken]
    exact take_mic_micToken

theorem verifyMicNew_micToken (hmacs : context.suite.Macs) (hshort : message.length < 2 ^ 31) (sequence : Nat) :
    context.verifyMicNew message (context.micToken sequence message) =
      context.checkSequence (context.micToken sequence message) := by
  refine verifyMicNew_of_checks (checks_micToken hmacs ?_)
  have hlength : n2l ((context.micToken sequence message).drop 8) = message.length := by
    simpa only [append_nil] using n2l_micToken hshort []
  rw [hlength, intLength_of_lt hshort]

end Checks

/-! ## 3. One message -/

/-- The context when `count` tokens have been made. -/
def Context.wrote (context : Context) (count : Nat) : Context := { context with macWriteSequence := count }

/-- The context when `count` tokens have been taken. -/
def Context.took (context : Context) (count : Nat) : Context := { context with macReadSequence := count }

section Exchange

variable {threads : ThreadModel} {ssl : List UInt8 → Status × List UInt8} {context : Context} {message : Message}
  {sequence : Nat}

variable (hsuite : context.suite.Macs)

include hsuite

theorem gssGetMic_eq (hunlocked : context.locked = false) (data : List UInt8) :
    gssGetMic threads context data = some (.complete, context.countWritten,
      context.micToken context.macWriteSequence data) := by
  have hcounted : context.hold.countWritten.unlock = context.countWritten :=
    @Context.unlock_hold context.countWritten hunlocked
  rw [gssGetMic, lock_eq fun _ => hunlocked, bind_eq_bind, bind_some, hcounted, Context.micToken]
  cases hcase : context.suite with
  | digest | gcm =>
    have hheld : context.hold.suite = _ := hcase
    simp only [hheld]
    rfl
  | other => exact (hcase ▸ hsuite : Suite.other.Macs).elim

theorem gssWrap_eq (hunlocked : context.locked = false) (data : List UInt8) :
    gssWrap threads context data = some (.complete, context.countWritten,
      wrapToken (context.micToken context.macWriteSequence data) data) := by
  have hcounted : context.countWritten.hold.unlock = context.countWritten :=
    @Context.unlock_hold context.countWritten hunlocked
  have hlock : context.countWritten.lock threads = some context.countWritten.hold :=
    lock_eq fun _ => hunlocked
  rw [gssWrap, lock_eq fun _ => hunlocked, bind_eq_bind, bind_some,
    unlock_hold hunlocked, gssGetMic_eq hsuite hunlocked, bind_eq_bind, bind_some]
  simp only [hlock, Status.isError, bind_some, hcounted]
  rfl

/-- The sender's half of a message. -/
theorem send_eq (hunlocked : context.locked = false) : send threads (context.wrote sequence) message =
      some (.complete, context.wrote ((sequence + 1) % 2 ^ 64),
        message.token context.suite context.macKey context.macIvFixed sequence) := by
  rw [send, Message.token]
  cases message.wrapped with
  | true => exact @gssWrap_eq threads (context.wrote sequence) hsuite hunlocked message.data
  | false => exact @gssGetMic_eq threads (context.wrote sequence) hsuite hunlocked message.data

/-- What the receiver says to the token with the number it expects, and the number it expects then. -/
def answer (sequence : Nat) : Status × Nat :=
  if sequence < 256 then (.complete, (sequence + 1) % 2 ^ 64) else (.oldToken, sequence)

omit hsuite in
/-- The receiver looks at the last byte of the number, which is never larger than the number. -/
theorem checkSequence_micToken (suite : Suite) (key ivFixed data : List UInt8) :
    (context.took sequence).checkSequence (micToken suite key ivFixed sequence data) =
      ((answer sequence).1, context.took (answer sequence).2) := by
  have hnever : ¬ sequence < sequence % 256 := Nat.not_lt.mpr (Nat.mod_le _ _)
  have hcheck : (context.took sequence).checkSequence (micToken suite key ivFixed sequence data) =
      if sequence < sequence % 256 then (.gapToken, context.took ((sequence % 256 + 1) % 2 ^ 64))
      else if sequence % 256 < sequence then (.oldToken, context.took sequence)
      else (.complete, context.took ((sequence + 1) % 2 ^ 64)) := by
    rw [checkSequence, n2u64_micToken]
    rfl
  rw [hcheck, if_neg hnever, answer]
  by_cases hfew : sequence < 256
  · rw [if_pos hfew, Nat.mod_eq_of_lt hfew, if_neg (lt_irrefl _)]
  · rw [if_neg hfew, if_pos ((Nat.mod_lt _ (by decide)).trans_le (Nat.not_lt.mp hfew))]

theorem gssVerifyMic_eq (hlock : threads = .pthread → context.locked = false) :
    gssVerifyMic threads (context.took sequence) message.data (context.micToken sequence message.data) =
      some ((answer sequence).1, (context.took (answer sequence).2).hold.unlock) := by
  have hverify : (context.took sequence).hold.verifyMicNew message.data (context.micToken sequence message.data) =
        ((answer sequence).1, context.hold.took (answer sequence).2) :=
    (@verifyMicNew_micToken (context.took sequence).hold message.data hsuite message.data_short sequence).trans
      (@checkSequence_micToken context.hold sequence _ _ _ _)
  have hold : (if (context.took sequence).hold.oldMic then verifyMicOld else Status.failure) = .failure := by
    split <;> rfl
  have hlock' : (context.took sequence).lock threads = some (context.took sequence).hold := lock_eq hlock
  rw [gssVerifyMic, hlock', bind_eq_bind, bind_some]
  simp only [hverify, hold, true_or, if_true]
  rfl

variable (hunlocked : context.locked = false)

include hunlocked

/-- `gss_unwrap` finds the token and the message that were put together. -/
theorem gssUnwrap_wrapToken : gssUnwrap threads ssl context
        (wrapToken (context.micToken sequence message.data) message.data) =
      (gssVerifyMic threads context.hold message.data (context.micToken sequence message.data)).map
          fun (status, context) => (status, context.unlock, message.data) := by
  have hmic := context.suite.micLength_le
  have hpos := hsuite.micLength_pos
  have hlength : (context.micToken sequence message.data).length = 12 + context.suite.micLength := length_micToken
  have hdata : n2l ((context.micToken sequence message.data ++ message.data).drop 8) = message.data.length :=
    n2l_micToken message.data_short message.data
  generalize context.micToken sequence message.data = mic at *
  generalize hwrap : wrapToken mic message.data = input
  have hinput : input = [26, 3, 0] ++ (s2n mic.length ++ (mic ++ message.data)) := by
    rw [← hwrap]
    simp only [wrapToken, append_assoc]
  have hfive : input.drop 5 = mic ++ message.data := by
    rw [hinput]
    rfl
  have hmicLength : n2s (input.drop 3) = mic.length := by
    rw [hinput]
    exact n2s_s2n (by omega) _
  have hdataLength : n2l (input.drop (5 + 8)) = message.data.length := by
    rw [← drop_drop, hfive]
    exact hdata
  have htotal : input.length = 5 + mic.length + message.data.length := by
    rw [hinput]
    simp only [length_append, length_cons, length_nil, s2n]
    omega
  have hhead : 17 < input.length ∧ input.take 3 = [26, 3, 0] :=
    ⟨by omega, by rw [hinput]; rfl⟩
  have htake : (input.drop 5).take mic.length = mic := by
    rw [hfive, take_left]
  have hrest : (input.drop (5 + mic.length)).take message.data.length = message.data := by
    rw [← drop_drop, hfive, drop_left, take_length]
  rw [gssUnwrap, lock_eq fun _ => hunlocked, bind_eq_bind, bind_some, if_pos hhead]
  simp only [hmicLength, hdataLength, htotal, htake, hrest, ne_eq, not_true_eq_false, if_false, bind_eq_bind]
  cases gssVerifyMic threads context.hold message.data mic <;> rfl

/-- The receiver's half of a message, where it comes back. -/
theorem receive_eq (hreturns : threads = .pthread → message.wrapped = false) :
    receive threads ssl (context.took sequence) message
        (message.token context.suite context.macKey context.macIvFixed sequence) =
      some ((answer sequence).1, context.took (answer sequence).2, message.data) := by
  have hrelease : (context.took (answer sequence).2).hold.unlock = context.took (answer sequence).2 :=
    @Context.unlock_hold (context.took (answer sequence).2) hunlocked
  rw [receive, Message.token]
  cases hwrapped : message.wrapped with
  | true =>
    have hthreads : threads = .pthread → context.hold.locked = false := fun h => by simp [hreturns h] at hwrapped
    have hverify := @gssVerifyMic_eq threads context.hold message sequence hsuite hthreads
    have hunwrap := @gssUnwrap_wrapToken threads ssl (context.took sequence) message sequence hsuite hunlocked
    rw [if_pos rfl, if_pos rfl]
    refine hunwrap.trans ((congrArg _ hverify).trans ?_)
    exact congrArg (fun context => some ((answer sequence).1, context, message.data)) hrelease
  | false =>
    have hverify := @gssVerifyMic_eq threads context message sequence hsuite fun _ => hunlocked
    rw [if_neg Bool.false_ne_true, if_neg Bool.false_ne_true, hverify, hrelease]
    rfl

/-- A thread that unwraps waits for itself. -/
theorem receive_pthread (hwrapped : message.wrapped = true) : receive .pthread ssl (context.took sequence) message
        (message.token context.suite context.macKey context.macIvFixed sequence) = none := by
  have hunwrap := @gssUnwrap_wrapToken .pthread ssl (context.took sequence) message sequence hsuite hunlocked
  rw [receive, Message.token, hwrapped]
  exact hunwrap

end Exchange

/-! ## 4. Any number of messages -/

section Run

variable {threads : ThreadModel} {ssl : List UInt8 → Status × List UInt8} {sender receiver : Context}

section

variable (hsuite : sender.suite.Macs) (hsender : sender.locked = false) (hreceiver : receiver.locked = false)
  (hsame : receiver.suite = sender.suite) (hkey : receiver.macKey = sender.macKey) (hiv : receiver.macIvFixed = sender.macIvFixed)

include hsuite hsender hreceiver hsame hkey hiv

/-- One message: what it takes, and where it leaves the two sides. -/
theorem inOrder_cons_iff
    {count : Nat} (hcount : count ≤ 256) (message : Message) (messages : List Message) :
    InOrder threads ssl (sender.wrote count) (receiver.took count) (message :: messages) ↔
      count < 256 ∧ (threads = .pthread → message.wrapped = false) ∧
        InOrder threads ssl (sender.wrote (count + 1)) (receiver.took (count + 1)) messages := by
  have hsend := @send_eq threads sender message count hsuite hsender
  have hnext : (count + 1) % 2 ^ 64 = count + 1 := Nat.mod_eq_of_lt (by omega)
  rw [hnext] at hsend
  have hmacs : receiver.suite.Macs := by rwa [hsame]
  have hreceive := @receive_eq threads ssl receiver message count hmacs hreceiver
  rw [hsame, hkey, hiv] at hreceive
  constructor
  · rintro ⟨made, sender', token, hmade, hcomplete, -⟩
    rw [hsend] at hmade
    obtain ⟨rfl, rfl, rfl⟩ : Status.complete = made ∧ sender.wrote (count + 1) = sender' ∧ _ = token := by
      simpa only [Option.some.injEq, Prod.mk.injEq] using hmade
    obtain ⟨receiver', output, hreceived, -, -, hrest⟩ := hcomplete rfl
    have hreturns : threads = .pthread → message.wrapped = false := by
      rintro rfl
      by_contra hwrapped
      have hstuck := @receive_pthread ssl receiver message count hmacs hreceiver (by simpa using hwrapped)
      rw [hsame, hkey, hiv, hreceived] at hstuck
      cases hstuck
    rw [hreceive hreturns, answer] at hreceived
    split at hreceived
    · next hfew =>
      simp only [Option.some.injEq, Prod.mk.injEq, true_and, hnext] at hreceived
      rw [← hreceived.1] at hrest
      exact ⟨hfew, hreturns, hrest⟩
    · cases hreceived
  · rintro ⟨hfew, hreturns, hrest⟩
    have hanswer : answer count = (.complete, count + 1) := by rw [answer, if_pos hfew, hnext]
    have hreceived := hreceive hreturns
    rw [hanswer] at hreceived
    exact ⟨_, _, _, hsend, fun _ => ⟨_, _, hreceived, rfl, rfl, hrest⟩, fun h => absurd rfl h⟩

/-- From the point where `count` messages have gone over. -/
theorem inOrder_from_iff (messages : List Message) {count : Nat} (hcount : count ≤ 256) :
    InOrder threads ssl (sender.wrote count) (receiver.took count) messages ↔
      count + messages.length ≤ 256 ∧ (threads = .pthread → ∀ message ∈ messages, message.wrapped = false) := by
  induction messages generalizing count with
  | nil => simpa [InOrder] using hcount
  | cons message messages ih =>
    rw [inOrder_cons_iff hsuite hsender hreceiver hsame hkey hiv hcount]
    constructor
    · rintro ⟨hfew, hreturns, hrest⟩
      obtain ⟨hlength, hall⟩ := (ih hfew).mp hrest
      refine ⟨by rw [length_cons]; omega, fun hthreads => ?_⟩
      exact forall_mem_cons.mpr ⟨hreturns hthreads, hall hthreads⟩
    · rintro ⟨hlength, hall⟩
      rw [length_cons] at hlength
      have hfew : count < 256 := by omega
      exact ⟨hfew, fun hthreads => (forall_mem_cons.mp (hall hthreads)).1,
        (ih hfew).mpr ⟨by omega, fun hthreads => (forall_mem_cons.mp (hall hthreads)).2⟩⟩

end

theorem inOrder_start_iff {suite : Suite} (hsuite : suite.Macs) {macKey macIvFixed : List UInt8}
    {oldSender oldReceiver : Bool} {messages : List Message} :
    InOrder threads ssl (.established suite macKey macIvFixed oldSender) (.established suite macKey macIvFixed oldReceiver)
        messages ↔ messages.length ≤ 256 ∧ (threads = .pthread → ∀ message ∈ messages, message.wrapped = false) := by
  have hfrom := @inOrder_from_iff threads ssl (.established suite macKey macIvFixed oldSender)
    (.established suite macKey macIvFixed oldReceiver) hsuite rfl rfl rfl rfl rfl messages 0 (by decide)
  rw [Nat.zero_add] at hfrom
  exact hfrom

end Run

theorem gssGetMic_other {threads : ThreadModel} {context : Context} (hother : context.suite = .other) (hunlocked : context.locked = false)
    (message : List UInt8) : gssGetMic threads context message = some (.failure, context, []) := by
  have hheld : context.hold.suite = .other := hother
  rw [gssGetMic, lock_eq fun _ => hunlocked, bind_eq_bind, bind_some]
  simp only [hheld, unlock_hold hunlocked]

/-- A cipher that makes no tokens sends nothing that could fail. -/
theorem inOrder_other {threads : ThreadModel} {ssl : List UInt8 → Status × List UInt8} {sender receiver : Context}
    (hother : sender.suite = .other) (hunlocked : sender.locked = false) (messages : List Message) :
    InOrder threads ssl sender receiver messages := by
  have hwrap : ∀ data, gssWrap threads sender data = some (.failure, sender, []) := by
    intro data
    have hrelease : sender.unlock = sender := unlock_hold hunlocked
    rw [gssWrap, lock_eq fun _ => hunlocked, bind_eq_bind, bind_some,
      unlock_hold hunlocked, gssGetMic_other hother hunlocked, bind_eq_bind, bind_some]
    simp only [Status.isError, if_true, hrelease]
  induction messages with
  | nil => exact trivial
  | cons message messages ih =>
    have hsend : send threads sender message = some (.failure, sender, []) := by
      rw [send, gssGetMic_other hother hunlocked, hwrap, ite_self]
    exact ⟨.failure, sender, [], hsend, nofun, fun _ => ih⟩

/-- **Tokens that are handed over in order verify exactly as long as the number of the message fits into one
byte and no thread unwraps with a mutex that knows its owner.**  A cipher without a MAC makes no tokens. -/
theorem inOrder_iff (threads : ThreadModel) (ssl : List UInt8 → Status × List UInt8) (suite : Suite)
    (macKey macIvFixed : List UInt8) (oldSender oldReceiver : Bool) (messages : List Message) :
    InOrder threads ssl (.established suite macKey macIvFixed oldSender) (.established suite macKey macIvFixed oldReceiver)
        messages ↔
      (suite.Macs → messages.length ≤ 256 ∧ (threads = .pthread → ∀ message ∈ messages, message.wrapped = false)) := by
  constructor
  · exact fun horder hsuite => (inOrder_start_iff hsuite).mp horder
  · intro hlimits
    cases suite with
    | digest | gcm => exact (inOrder_start_iff (by trivial)).mpr (hlimits trivial)
    | other => exact inOrder_other rfl rfl messages

/-- A digest of one byte: the sum. -/
def sumDigest : Digest where
  size := 1
  hash := fun input => [input.sum]
  size_pos := by decide
  size_le := by decide
  length_hash := fun _ => rfl

/-- The 257th token is refused; under pthreads the first wrapped message is never returned. -/
theorem inOrder_fails :
    ¬ InOrder .none (fun _ => (.failure, [])) (.established (.digest sumDigest) [7] [] false)
        (.established (.digest sumDigest) [7] [] false) (replicate 257 ⟨false, [1, 2, 3], by decide⟩) ∧
      ¬ InOrder .pthread (fun _ => (.failure, [])) (.established (.digest sumDigest) [7] [] false)
        (.established (.digest sumDigest) [7] [] false) [⟨true, [1, 2, 3], by decide⟩] := by
  constructor
  · intro horder
    have hlength := ((inOrder_start_iff (by trivial)).mp horder).1
    rw [length_replicate] at hlength
    exact absurd hlength (by decide)
  · intro horder
    have hwrapped := ((inOrder_start_iff (by trivial)).mp horder).2 rfl _ (mem_singleton_self _)
    cases hwrapped

end Gct.Gss
