/-
# Integrity tokens of the GSSAPI library

`gss_get_mic` numbers its tokens: eight bytes of sequence number, four bytes of message length, then the
digest (or the GCM tag) of key, header and message.  `gss_wrap` in integrity-only mode puts such a token and
the message behind five bytes of its own.  `gss_verify_mic` and `gss_unwrap` take them apart with the
macros of `gssapi_openssl.h`; one of these, `N2U64`, assigns where the others join with `|=`, so that it
keeps the last byte only (`n2u64_u642n`).

The library is the one built with OpenSSL 1.1 or later, where the MAC secrets of the SSL layer cannot be
read and the old kind of token fails.
-/
import Gct.Lib.Endian

namespace Gct.Gss

open List Endian UInt8

/-! ## 1. The conversion macros -/

/-- `(unsigned char) ((value >> shift) & 0xff)`. -/
def octet (value shift : Nat) : UInt8 := ofNat ((value >>> shift) &&& 0xff)

/-- A byte in its place: `(c << shift) & (0xff << shift)`. -/
def place (c : UInt8) (shift : Nat) : Nat := (c.toNat <<< shift) &&& (0xff <<< shift)

def l2n (long : Nat) : List UInt8 := [octet long 24, octet long 16, octet long 8, octet long 0]

/-- The places are joined with `|=`. -/
def n2l (chars : List UInt8) : Nat :=
  (chars.zip [24, 16, 8, 0]).foldl (fun long (c, shift) => long ||| place c shift) 0

def s2n (short : Nat) : List UInt8 := [octet short 8, octet short 0]

/-- `(unsigned int) *p` where `p` points to `char`, which is signed. -/
def charToUnsigned (c : UInt8) : Nat := if c < 128 then c.toNat else 2 ^ 32 - 256 + c.toNat

def n2s : List UInt8 → Nat
  | c₀ :: c₁ :: _ => (charToUnsigned c₀ <<< 8) % 2 ^ 32 ||| charToUnsigned c₁
  | _ => 0

def u642n (u64 : Nat) : List UInt8 :=
  [octet u64 56, octet u64 48, octet u64 40, octet u64 32, octet u64 24, octet u64 16, octet u64 8, octet u64 0]

/-- Every place is assigned: what stood there before is gone. -/
def n2u64 (chars : List UInt8) : Nat :=
  (chars.zip [56, 48, 40, 32, 24, 16, 8, 0]).foldl (fun _ (c, shift) => place c shift) 0

/-- A length read into an `int` and compared with a `size_t`. -/
def intLength (long : Nat) : Nat := if long < 2 ^ 31 then long else 2 ^ 64 - 2 ^ 32 + long

theorem octet_eq (value shift : Nat) : octet value shift = ofNat (value / 2 ^ shift) := by
  have hmask : (value >>> shift) &&& 0xff = value / 2 ^ shift % 256 := by
    rw [Nat.shiftRight_eq_div_pow]
    exact Nat.and_two_pow_sub_one_eq_mod _ 8
  rw [octet, hmask]
  exact ofNat_mod_size

theorem l2n_eq (long : Nat) : l2n long = bytes 4 long := by
  simp only [l2n, octet_eq, bytes_succ, bytes_zero]
  rfl

theorem place_eq (c : UInt8) (shift : Nat) : place c shift = c.toNat <<< shift := by
  have hmask : c.toNat &&& 0xff = c.toNat := by
    rw [Nat.and_two_pow_sub_one_eq_mod _ 8]
    exact Nat.mod_eq_of_lt c.toNat_lt
  rw [place, ← Nat.shiftLeft_and_distrib, hmask]

/-- Joining the places adds them up. -/
theorem n2l_cons (a b c d : UInt8) (rest : List UInt8) : n2l (a :: b :: c :: d :: rest) = value [a, b, c, d] := by
  have hb := b.toNat_lt
  have hc := c.toNat_lt
  have hd := d.toNat_lt
  have hab : a.toNat <<< 24 ||| b.toNat <<< 16 = (a.toNat * 256 + b.toNat) <<< 16 := by
    rw [← Nat.shiftLeft_add_eq_or_of_lt (by rw [Nat.shiftLeft_eq]; omega)]
    omega
  have habc : (a.toNat * 256 + b.toNat) <<< 16 ||| c.toNat <<< 8 = ((a.toNat * 256 + b.toNat) * 256 + c.toNat) <<< 8 := by
    rw [← Nat.shiftLeft_add_eq_or_of_lt (by rw [Nat.shiftLeft_eq]; omega)]
    omega
  have hall : ((a.toNat * 256 + b.toNat) * 256 + c.toNat) <<< 8 ||| d.toNat <<< 0 =
      ((a.toNat * 256 + b.toNat) * 256 + c.toNat) * 256 + d.toNat := by
    rw [← Nat.shiftLeft_add_eq_or_of_lt (by rw [Nat.shiftLeft_eq]; omega)]
    omega
  simp only [n2l, zip_cons_cons, zip_nil_right, foldl_cons, foldl_nil, place_eq, Nat.zero_or,
    hab, habc, hall, value_cons, value_nil, length_cons, length_nil]
  omega

theorem n2l_l2n {long : Nat} (hlong : long < 2 ^ 32) (rest : List UInt8) : n2l (l2n long ++ rest) = long := by
  have hread : n2l (l2n long ++ rest) = value (l2n long) := n2l_cons _ _ _ _ _
  rw [hread, l2n_eq, value_bytes_of_lt]
  exact hlong

/-- Only the last byte of the sequence number comes back. -/
theorem n2u64_u642n (u64 : Nat) (rest : List UInt8) : n2u64 (u642n u64 ++ rest) = u64 % 256 := by
  have hread : n2u64 (u642n u64 ++ rest) = place (octet u64 0) 0 := by
    simp only [n2u64, u642n, cons_append, zip_cons_cons, zip_nil_right, foldl_cons, foldl_nil]
  rw [hread, place_eq, octet_eq, toNat_ofNat', Nat.shiftLeft_zero, pow_zero, Nat.div_one]

/-- Short lengths survive the signed `char`. -/
theorem n2s_s2n {short : Nat} (hshort : short < 128) (rest : List UInt8) : n2s (s2n short ++ rest) = short := by
  have hhigh : octet short 8 = 0 := by
    rw [octet_eq, Nat.div_eq_of_lt (by omega)]
    rfl
  have hlow : octet short 0 = ofNat short := by rw [octet_eq, pow_zero, Nat.div_one]
  have hnat : (ofNat short).toNat = short := by
    rw [toNat_ofNat']
    exact Nat.mod_eq_of_lt (by omega)
  have hsmall : ofNat short < 128 := by
    rw [lt_iff_toNat_lt, hnat]
    exact hshort
  have hread : n2s (s2n short ++ rest) = (charToUnsigned (octet short 8) <<< 8) % 2 ^ 32 ||| charToUnsigned (octet short 0) :=
    rfl
  rw [hread, hhigh, hlow, charToUnsigned, charToUnsigned, if_pos hsmall, hnat]
  exact Nat.zero_or short

theorem intLength_of_lt {long : Nat} (h : long < 2 ^ 31) : intLength long = long := if_pos h

/-! ## 2. Contexts -/

/-- A digest of OpenSSL: a function of the bytes it is given. -/
structure Digest where
  size : Nat
  hash : List UInt8 → List UInt8
  size_pos : 0 < size
  /-- `EVP_MAX_MD_SIZE`. -/
  size_le : size ≤ 64
  length_hash : ∀ input, (hash input).length = size

/-- A cipher in GCM mode: `gmac iv key message` is the tag. -/
structure Gcm where
  ivLength : Nat
  gmac : List UInt8 → List UInt8 → List UInt8 → List UInt8
  ivLength_gt : 8 < ivLength
  length_gmac : ∀ iv key message, (gmac iv key message).length = 16

/-- What `globus_i_gss_get_hash` finds.  `other` is a cipher with neither a digest nor the GCM mode. -/
inductive Suite
  | digest (md : Digest)
  | gcm (cipher : Gcm)
  | other

inductive Status
  | complete
  | failure
  | defectiveToken
  | badSig
  | gapToken
  | oldToken
  deriving DecidableEq, Repr

/-- `GSS_ERROR`: gaps and old tokens are supplementary bits only. -/
def Status.isError : Status → Bool
  | complete | gapToken | oldToken => false
  | failure | defectiveToken | badSig => true

/-- With threads a mutex has the default attributes of pthreads; without, locking does nothing. -/
inductive ThreadModel
  | none
  | pthread
  deriving DecidableEq, Repr

structure Context where
  suite : Suite
  macKey : List UInt8
  macIvFixed : List UInt8
  macReadSequence : Nat
  macWriteSequence : Nat
  /-- The mechanism is the old one, or old tokens are accepted. -/
  oldMic : Bool
  locked : Bool

def Context.hold (context : Context) : Context := { context with locked := true }

variable (threads : ThreadModel)

/-- A thread that locks a mutex it holds never comes back. -/
def Context.lock (context : Context) : Option Context :=
  if threads = .pthread ∧ context.locked = true then Option.none else some context.hold

def Context.unlock (context : Context) : Context := { context with locked := false }

theorem Context.lock_eq {threads : ThreadModel} {context : Context} (h : threads = .pthread → context.locked = false) :
    context.lock threads = some context.hold := by
  refine if_neg ?_
  rintro ⟨hthreads, hlocked⟩
  exact absurd (h hthreads) (by simp [hlocked])

theorem Context.unlock_hold {context : Context} (hunlocked : context.locked = false) : context.hold.unlock = context := by
  cases context
  cases hunlocked
  rfl

/-! ## 3. Making and checking a token -/

/-- The digest of key, padding, header and message.  `header` is the first twelve bytes of the token. -/
def Digest.mic (md : Digest) (macSec header message : List UInt8) : List UInt8 :=
  md.hash (macSec.take md.size ++ replicate (48 / md.size * md.size) 0x36 ++ header ++ message)

/-- The initialization vector is the sequence number and the front of the fixed part. -/
def Gcm.mic (cipher : Gcm) (key ivFixed header message : List UInt8) : List UInt8 :=
  cipher.gmac (header.take 8 ++ ivFixed.take (cipher.ivLength - 8)) key message

def Context.countWritten (context : Context) : Context :=
  { context with macWriteSequence := (context.macWriteSequence + 1) % 2 ^ 64 }

def gssGetMic (context : Context) (message : List UInt8) :
    Option (Status × Context × List UInt8) := do
  let context ← context.lock threads
  let header := u642n context.macWriteSequence ++ l2n message.length
  match context.suite with
  | .digest md => some (.complete, context.countWritten.unlock, header ++ md.mic context.macKey header message)
  | .gcm cipher =>
    some (.complete, context.countWritten.unlock,
      header ++ cipher.mic context.macKey context.macIvFixed header message)
  | .other => some (.failure, context.unlock, [])

/-- Without the secrets of the SSL layer the old kind of token fails. -/
def verifyMicOld : Status := .failure

/-- The sequence number of the token against the one that is expected. -/
def Context.checkSequence (context : Context) (token : List UInt8) : Status × Context :=
  let messageSequence := n2u64 token
  if context.macReadSequence < messageSequence then
    (.gapToken, { context with macReadSequence := (messageSequence + 1) % 2 ^ 64 })
  else if messageSequence < context.macReadSequence then (.oldToken, context)
  else (.complete, { context with macReadSequence := (context.macReadSequence + 1) % 2 ^ 64 })

def Context.verifyMicNew (context : Context) (message token : List UInt8) : Status × Context :=
  match context.suite with
  | .digest md =>
    if token.length ≠ 12 + md.size then (.defectiveToken, context)
    else if message.length ≠ intLength (n2l (token.drop 8)) then (.defectiveToken, context)
    else if md.mic context.macKey (token.take 12) message ≠ (token.drop 12).take md.size then (.badSig, context)
    else context.checkSequence token
  | .gcm cipher =>
    if token.length ≠ 8 + 4 + 16 then (.defectiveToken, context)
    else if message.length ≠ intLength (n2l (token.drop 8)) then (.defectiveToken, context)
    else if (token.drop 12).take 16 ≠ cipher.mic context.macKey context.macIvFixed token message then
      (.badSig, context)
    else context.checkSequence token
  | .other => (.failure, context)

def gssVerifyMic (context : Context) (message token : List UInt8) : Option (Status × Context) := do
  let context ← context.lock threads
  let major := if context.oldMic then verifyMicOld else .failure
  let (status, context) :=
    if major = .failure ∨ major = .badSig then context.verifyMicNew message token else (major, context)
  some (status, context.unlock)

/-! ## 4. Wrapping -/

/-- `gss_wrap` with integrity only.  The mutex is released around `gss_get_mic`. -/
def gssWrap (context : Context) (message : List UInt8) :
    Option (Status × Context × List UInt8) := do
  let context ← context.lock threads
  let (status, context, mic) ← gssGetMic threads context.unlock message
  if status.isError then some (status, context.unlock, [])
  else
    let context ← context.lock threads
    some (status, context.unlock, [26, 3, 0] ++ s2n mic.length ++ mic ++ message)

/-- `gss_unwrap`.  The mutex is not released around `gss_verify_mic`; `ssl` reads what is not a wrapped
token. -/
def gssUnwrap (ssl : List UInt8 → Status × List UInt8) (context : Context)
    (input : List UInt8) : Option (Status × Context × List UInt8) := do
  let context ← context.lock threads
  if 17 < input.length ∧ input.take 3 = [26, 3, 0] then
    let micLength := n2s (input.drop 3)
    let dataLength := n2l (input.drop (5 + 8))
    if input.length ≠ 5 + micLength + dataLength then some (.defectiveToken, context.unlock, [])
    else
      let output := (input.drop (5 + micLength)).take dataLength
      let (status, context) ← gssVerifyMic threads context output ((input.drop 5).take micLength)
      some (status, context.unlock, output)
  else
    let (status, output) := ssl input
    some (status, context.unlock, output)

end Gct.Gss
