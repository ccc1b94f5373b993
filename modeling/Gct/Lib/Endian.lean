/-
# Numbers in network byte order

A number is written as a fixed number of bytes, most significant first; bits that do not fit are dropped.
`value` reads the bytes back.
-/
import Mathlib.Data.UInt
import Mathlib.Tactic.Ring

namespace Endian

/-- The low `width` bytes of `n`, most significant first. -/
def bytes : Nat → Nat → List UInt8
  | 0, _ => []
  | width + 1, n => UInt8.ofNat (n / 256 ^ width) :: bytes width n

/-- The number whose bytes these are. -/
def value : List UInt8 → Nat
  | [] => 0
  | b :: bs => b.toNat * 256 ^ bs.length + value bs

@[simp] theorem bytes_zero (n : Nat) : bytes 0 n = [] := rfl

variable (width n : Nat)

@[simp] theorem bytes_succ : bytes (width + 1) n = UInt8.ofNat (n / 256 ^ width) :: bytes width n := rfl

@[simp] theorem value_nil : value [] = 0 := rfl

@[simp] theorem value_cons (b : UInt8) (bs : List UInt8) : value (b :: bs) = b.toNat * 256 ^ bs.length + value bs := rfl

@[simp] theorem length_bytes : (bytes width n).length = width := by
  induction width with
  | zero => rfl
  | succ width ih => rw [bytes_succ, List.length_cons, ih]

/-- Reading what was written gives the number, up to the bits that were dropped. -/
theorem value_bytes : value (bytes width n) = n % 256 ^ width := by
  induction width with
  | zero => simp [Nat.mod_one]
  | succ width ih =>
    have hsplit : n % 256 ^ (width + 1) = n % 256 ^ width + 256 ^ width * (n / 256 ^ width % 256) := by
      rw [pow_succ 256 width]
      exact Nat.mod_mul
    rw [bytes_succ, value_cons, length_bytes, ih, hsplit, UInt8.toNat_ofNat', Nat.add_comm, Nat.mul_comm]

theorem value_bytes_of_lt {width n : Nat} (h : n < 256 ^ width) : value (bytes width n) = n := by
  rw [value_bytes, Nat.mod_eq_of_lt h]

theorem value_lt (bs : List UInt8) : value bs < 256 ^ bs.length := by
  induction bs with
  | nil => simp
  | cons b bs ih =>
    have hb : b.toNat + 1 ≤ 256 := b.toNat_lt
    calc value (b :: bs) < b.toNat * 256 ^ bs.length + 256 ^ bs.length := Nat.add_lt_add_left ih _
      _ = (b.toNat + 1) * 256 ^ bs.length := by ring
      _ ≤ 256 * 256 ^ bs.length := Nat.mul_le_mul_right _ hb
      _ = 256 ^ (b :: bs).length := by rw [List.length_cons, pow_succ, Nat.mul_comm]

theorem value_injective : ∀ {bs bs' : List UInt8}, bs.length = bs'.length → value bs = value bs' → bs = bs'
  | [], [], _, _ => rfl
  | b :: bs, b' :: bs', hlen, h => by
    have hlen' : bs.length = bs'.length := Nat.succ.inj hlen
    have hlt := value_lt bs
    have hlt' := value_lt bs'
    rw [value_cons, value_cons, hlen'] at h
    rw [hlen'] at hlt
    have hpos : 0 < 256 ^ bs'.length := Nat.pow_pos (by decide)
    -- the first bytes are the quotients, the rest the remainders
    have hdiv (x v : Nat) (hv : v < 256 ^ bs'.length) : (x * 256 ^ bs'.length + v) / 256 ^ bs'.length = x := by
      rw [Nat.mul_comm, Nat.mul_add_div hpos, Nat.div_eq_of_lt hv, Nat.add_zero]
    have hb : b.toNat = b'.toNat := by
      have := congrArg (· / 256 ^ bs'.length) h
      rwa [hdiv _ _ hlt, hdiv _ _ hlt'] at this
    rw [hb] at h
    rw [UInt8.toNat_inj.mp hb, value_injective hlen' (Nat.add_left_cancel h)]

/-- Writing what was read gives the bytes. -/
theorem bytes_value (bs : List UInt8) : bytes bs.length (value bs) = bs := by
  refine value_injective (length_bytes _ _) ?_
  rw [value_bytes, Nat.mod_eq_of_lt (value_lt bs)]

end Endian
