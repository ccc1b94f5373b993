/-
# The decoding macros of the front-end/back-end protocol

`GFSDecodeUInt32` and the other macros read a value from the buffer and count down `len`, the number of bytes that are
left.  Each tests `len - n < 0` first, but `len` is a `globus_size_t`, which has no sign: the difference is never below
0, and the test never fails.  So the macros find no errors.  What they read is what the encoding macros write
(`wireUInt32`, `wireUInt64`, `wireString`), wherever it stands.
-/
import Gct.Lib.Decoder
import Gct.Lib.Endian

namespace Gct.Ipc

open Decoder List Endian UInt32

/-! ## 1. The macros -/

/-- The test at the beginning of each macro, for `n` bytes, and what it does when the test is passed. -/
def guarded {α : Type} (n : UInt64) (value : (Nat → UInt8) → Nat → α) : Decoder α := fun m c =>
  if c.len - n < 0 then .error else .ok (value m c.pos, ⟨c.pos + n.toNat, c.len - n⟩)

/-- `GFSDecodeChar` -/
def decodeChar : Decoder UInt8 := guarded 1 fun m pos => m pos

/-- `GFSDecodeUInt32` -/
def decodeUInt32 : Decoder UInt32 := guarded 4 fun m pos => .ofNat (value (fetch m pos 4))

/-- `GFSDecodeUInt32P`: the number as a pointer -/
def decodeUInt32P : Decoder UInt64 := do
  let w ← decodeUInt32
  pure w.toUInt64

/-- `GFSDecodeUInt64` where the least significant byte comes first in memory: `_lo` is the first half. -/
def decodeUInt64 : Decoder UInt64 := guarded 8 fun m pos =>
  let lo : UInt32 := .ofNat (value (fetch m pos 4))
  let hi : UInt32 := .ofNat (value (fetch m (pos + 4) 4))
  .ofNat (lo.toNat * 2 ^ 32 + hi.toNat)

/-- `GFSDecodeString` behind the size.  The counter `_ctr` is an `int`, which must not get larger than `INT_MAX`. -/
def decodeChars (sz : UInt32) : Decoder (Option (List UInt8)) :=
  if sz > 0 then
    if sz.toNat - 1 ≤ 2 ^ 31 - 1 then do
      let w ← many decodeChar (sz.toNat - 1)
      pure (some w)
    else undefined
  else pure none

/-- `GFSDecodeString` -/
def decodeString : Decoder (Option (List UInt8)) := do
  let sz ← decodeUInt32
  decodeChars sz

/-- Bytes that are taken from the buffer as they are, without a test. -/
def takeBytes (n : Nat) : Decoder (List UInt8) := fun m c => .ok (fetch m c.pos n, ⟨c.pos + n, c.len⟩)

/-! ## 2. What they read -/

def wireUInt32 (w : UInt32) : List UInt8 := bytes 4 w.toNat

def wireUInt64 (w : UInt64) : List UInt8 := bytes 4 (w.toNat / 2 ^ 32) ++ bytes 4 (w.toNat % 2 ^ 32)

def wireString : Option (List UInt8) → List UInt8
  | none => wireUInt32 0
  | some s => wireUInt32 (.ofNat (s.length + 1)) ++ s

/-- A text whose length the counter of `GFSDecodeString` can reach. -/
def FitsString (s : Option (List UInt8)) : Prop := ∀ t ∈ s, t.length < 2 ^ 31

@[simp] theorem length_wireUInt32 (w : UInt32) : (wireUInt32 w).length = 4 := length_bytes 4 _

@[simp] theorem length_wireUInt64 (w : UInt64) : (wireUInt64 w).length = 8 := by
  rw [wireUInt64, length_append, length_bytes, length_bytes]

variable {α : Type}

/-- The test is always passed. -/
theorem guarded_eq (n : UInt64) (value : (Nat → UInt8) → Nat → α) (m : Nat → UInt8) (c : Cursor) :
    guarded n value m c = .ok (value m c.pos, ⟨c.pos + n.toNat, c.len - n⟩) :=
  if_neg UInt64.not_lt_zero

theorem reads_guarded {n : UInt64} {value : (Nat → UInt8) → Nat → α} {post : α → List UInt8 → Prop}
    (h : ∀ m pos, post (value m pos) (fetch m pos n.toNat)) : Reads (guarded n value) post := by
  intro m c
  rw [guarded_eq]
  exact ⟨_, h m c.pos, holds_fetch m c.pos _, by rw [length_fetch]⟩

theorem yields_guarded {n : UInt64} {value : (Nat → UInt8) → Nat → α} {bs : List UInt8} {a : α}
    (hlen : bs.length = n.toNat) (h : ∀ m pos, Decoder.Holds m pos bs → value m pos = a) : Yields (guarded n value) bs a := by
  intro m c hholds
  exact ⟨_, by rw [guarded_eq, h m c.pos hholds], by rw [hlen]⟩

theorem wireUInt32_ofNat_value {bs : List UInt8} (h : bs.length = 4) : wireUInt32 (.ofNat (value bs)) = bs := by
  have hlt := value_lt bs
  rw [h] at hlt
  have hval : (ofNat (value bs)).toNat = value bs := toNat_ofNat_of_lt' hlt
  rw [wireUInt32, hval, ← h, bytes_value]

theorem ofNat_value_wireUInt32 (w : UInt32) : ofNat (value (wireUInt32 w)) = w := by
  rw [wireUInt32, value_bytes_of_lt w.toNat_lt, UInt32.ofNat_toNat]

theorem reads_char : Reads decodeChar fun w bs => bs = [w] := reads_guarded fun _ _ => rfl

theorem yields_char {w : UInt8} : Yields decodeChar [w] w :=
  yields_guarded rfl fun _ _ h => (cons.inj h).1

theorem reads_uint32 : Reads decodeUInt32 fun w bs => bs = wireUInt32 w :=
  reads_guarded fun m pos => (wireUInt32_ofNat_value (length_fetch m pos 4)).symm

theorem yields_uint32 {w : UInt32} : Yields decodeUInt32 (wireUInt32 w) w := by
  refine yields_guarded (length_wireUInt32 w) fun m pos h => ?_
  rw [Holds, length_wireUInt32] at h
  rw [h, ofNat_value_wireUInt32]

theorem reads_uint32P : Reads decodeUInt32P fun w bs => w.toNat < 2 ^ 32 ∧ bs = wireUInt32 w.toUInt32 := by
  refine reads_uint32.bind ?_
  rintro w _ rfl
  refine Reads.pure ⟨?_, ?_⟩
  · rw [toNat_toUInt64]
    exact w.toNat_lt
  · simp

theorem yields_uint32P {w : UInt64} (h : w.toNat < 2 ^ 32) : Yields decodeUInt32P (wireUInt32 w.toUInt32) w := by
  have hback : w.toUInt32.toUInt64 = w := by
    apply UInt64.toNat_inj.mp
    rw [toNat_toUInt64, UInt64.toNat_toUInt32, Nat.mod_eq_of_lt h]
  exact yields_uint32.bind_pure hback

theorem toNat_ofNat_halves (hi lo : UInt32) :
    (UInt64.ofNat (hi.toNat * 2 ^ 32 + lo.toNat)).toNat = hi.toNat * 2 ^ 32 + lo.toNat := by
  have hhi := hi.toNat_lt
  have hlo := lo.toNat_lt
  exact UInt64.toNat_ofNat_of_lt' (by change _ < 2 ^ 64; omega)

theorem wireUInt64_halves (hi lo : UInt32) :
    wireUInt64 (.ofNat (hi.toNat * 2 ^ 32 + lo.toNat)) = wireUInt32 hi ++ wireUInt32 lo := by
  have hlo := lo.toNat_lt
  have hdiv : (hi.toNat * 2 ^ 32 + lo.toNat) / 2 ^ 32 = hi.toNat := by omega
  have hmod : (hi.toNat * 2 ^ 32 + lo.toNat) % 2 ^ 32 = lo.toNat := by omega
  rw [wireUInt64, toNat_ofNat_halves, hdiv, hmod, wireUInt32, wireUInt32]

theorem reads_uint64 : Reads decodeUInt64 fun w bs => bs = wireUInt64 w := by
  refine reads_guarded fun m pos => ?_
  rw [wireUInt64_halves, wireUInt32_ofNat_value (length_fetch m pos 4),
    wireUInt32_ofNat_value (length_fetch m (pos + 4) 4)]
  exact fetch_add m pos 4 4

theorem yields_uint64 {w : UInt64} : Yields decodeUInt64 (wireUInt64 w) w := by
  refine yields_guarded (length_wireUInt64 w) fun m pos h => ?_
  have hw := w.toNat_lt
  obtain ⟨hhi, hlo⟩ := holds_append.mp h
  rw [length_bytes] at hlo
  rw [Holds, length_bytes] at hhi hlo
  have hvalue (n : Nat) (hn : n < 2 ^ 32) : (ofNat (value (bytes 4 n))).toNat = n := by
    rw [value_bytes_of_lt hn]
    exact toNat_ofNat_of_lt' hn
  simp only [hhi, hlo]
  rw [hvalue _ (by omega), hvalue _ (by omega), Nat.div_add_mod', UInt64.ofNat_toNat]

theorem reads_chars (n : Nat) : Reads (many decodeChar n) fun w bs => w.length = n ∧ bs = w := by
  have hchar : Reads decodeChar fun w bs => True ∧ bs = [w] := reads_char.mono fun _ _ h => ⟨trivial, h⟩
  refine (hchar.many n).mono ?_
  rintro w _ ⟨hlen, -, rfl⟩
  exact ⟨hlen, flatMap_singleton' w⟩

theorem yields_chars (w : List UInt8) : Yields (many decodeChar w.length) w w := by
  have h := Yields.many (w := fun c => [c]) fun _ (_ : _ ∈ w) => yields_char
  rwa [flatMap_singleton'] at h

theorem reads_string : Reads decodeString fun s bs => FitsString s ∧ bs = wireString s := by
  refine reads_uint32.bind ?_
  rintro sz _ rfl
  unfold decodeChars
  split
  · next hpos =>
    have hne : 0 < sz.toNat := hpos
    split
    · next hmax =>
      refine (reads_chars _).bind ?_
      rintro _ w ⟨hlen, rfl⟩
      have hsize : ofNat (w.length + 1) = sz := by
        rw [hlen, Nat.sub_add_cancel hne, UInt32.ofNat_toNat]
      refine Reads.pure ⟨fun t ht => ?_, by rw [append_nil, wireString, hsize]⟩
      obtain rfl := Option.some.inj ht
      omega
    · exact Reads.undefined
  · next hzero =>
    have hsize : sz = 0 := by
      apply UInt32.toNat_inj.mp
      have hle : ¬0 < sz.toNat := hzero
      exact Nat.eq_zero_of_not_pos hle
    exact Reads.pure ⟨nofun, by rw [append_nil, hsize, wireString]⟩

theorem yields_string {s : Option (List UInt8)} (h : FitsString s) : Yields decodeString (wireString s) s := by
  cases s with
  | none =>
    have hyields := (@yields_uint32 0).bind (f := decodeChars) (Yields.pure none)
    rwa [append_nil] at hyields
  | some s =>
    have hlen := h s rfl
    have hsize : (ofNat (s.length + 1)).toNat = s.length + 1 :=
      toNat_ofNat_of_lt' (by change _ < 2 ^ 32; omega)
    refine yields_uint32.bind (f := decodeChars) ?_
    have hpos : ofNat (s.length + 1) > 0 := by
      show 0 < (ofNat (s.length + 1)).toNat
      rw [hsize]
      exact Nat.succ_pos _
    rw [decodeChars, if_pos hpos, hsize, Nat.add_sub_cancel, if_pos (by omega)]
    exact (yields_chars s).bind_pure rfl

theorem reads_takeBytes (n : Nat) : Reads (takeBytes n) fun w bs => w.length = n ∧ bs = w :=
  fun m c => ⟨fetch m c.pos n, ⟨length_fetch m c.pos n, rfl⟩, holds_fetch m c.pos n,
    congrArg (c.pos + ·) (length_fetch m c.pos n).symm⟩

theorem yields_takeBytes (w : List UInt8) : Yields (takeBytes w.length) w w :=
  fun _ c h => ⟨⟨c.pos + w.length, c.len⟩, congrArg (fun v => Outcome.ok (v, Cursor.mk (c.pos + w.length) c.len)) h, rfl⟩

end Gct.Ipc
