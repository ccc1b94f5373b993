/-
# `globus_off_t`: 64-bit signed file offsets

`globus_types.h` makes `globus_off_t` an `int64_t`.  Offsets are modelled by `Int`, and every sum,
difference and product the library forms goes through `offAdd`, `offSub` and `offMul`, which wrap
around at 64 bits: signed overflow, undefined in C, is taken to do what the machine instruction
does.  Under the bounds the callers keep (`OffFits`) the wrapping is invisible, and `offAdd_eq`,
`offSub_eq` and `offMul_eq` turn the operations into the plain ones.  `intAdd` is the sum of two
values of type `int`.
-/
import Mathlib.Tactic.Common

namespace Gct

/-- The largest `globus_off_t`. -/
def offMax : Int := 9223372036854775807

theorem offMax_eq : offMax = 9223372036854775807 := rfl

/-- `x` is a value of `globus_off_t`. -/
def OffFits (x : Int) : Prop := -9223372036854775808 ≤ x ∧ x ≤ 9223372036854775807

instance (x : Int) : Decidable (OffFits x) := inferInstanceAs (Decidable (_ ∧ _))

/-- Reduction to 64-bit two's complement. -/
def wrapOff (x : Int) : Int := x.bmod 18446744073709551616

variable (a b : Int)

/-- `a + b` on `globus_off_t`. -/
def offAdd : Int := wrapOff (a + b)

/-- `a - b` on `globus_off_t`. -/
def offSub : Int := wrapOff (a - b)

/-- `a * b` on `globus_off_t`. -/
def offMul : Int := wrapOff (a * b)

/-- `a + b` on `int`. -/
def intAdd : Int := (a + b).bmod 4294967296

theorem wrapOff_eq {x : Int} (h : OffFits x) : wrapOff x = x := by
  obtain ⟨h1, h2⟩ := h
  exact Int.bmod_eq_of_le (by omega) (by omega)

variable {a b : Int}

theorem offAdd_eq (h : OffFits (a + b)) : offAdd a b = a + b := wrapOff_eq h

theorem offSub_eq (h : OffFits (a - b)) : offSub a b = a - b := wrapOff_eq h

theorem offMul_eq (h : OffFits (a * b)) : offMul a b = a * b := wrapOff_eq h

theorem intAdd_eq (h1 : -2147483648 ≤ a + b) (h2 : a + b ≤ 2147483647) : intAdd a b = a + b :=
  Int.bmod_eq_of_le (by omega) (by omega)

/-- A sum of two offsets that leaves the type upwards comes back negative, and never as `-1`. -/
theorem offAdd_overflow (ha : 0 ≤ a) (hb : 0 ≤ b) (ha' : a ≤ offMax) (hb' : b ≤ offMax)
    (h : offMax < a + b) : offAdd a b = a + b - 18446744073709551616 := by
  unfold offMax at *
  rw [offAdd, wrapOff, Int.bmod_def]
  split <;> omega

end Gct
