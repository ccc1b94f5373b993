/-
# The search for the end of a line

`globus_i_xio_http_find_eol` goes on behind a carriage return that no line feed follows.  It raises `skip`
by a place that is counted from the beginning of the blob.  From the second such carriage return on, it
therefore passes over as many bytes as it had skipped before (`skipAt`), and an end of line among them is
not seen.  The end of the blob is expected `skip` bytes too late: once `skip` is not zero, a carriage
return that is the last byte makes it read the byte behind the blob.

The search is right exactly where neither happens (`findsFirst_iff`).
-/
import Gct.Http.Body
import Mathlib.Data.Nat.Find

namespace Gct.Http

open List

/-! ## 1. The search and the bytes that it reads -/

inductive ReadError
  | behindBlob
  deriving DecidableEq, Repr

/-- The loop of `globus_i_xio_http_find_eol`, which fails where it examines the byte behind the blob. -/
def readEolFrom (blob : List Char) : Nat → Nat → Except ReadError (Option Nat)
  | 0, _ => .ok none
  | fuel + 1, skip =>
    if skip + 1 < blob.length then
      match (blob.drop skip).idxOf? '\r' with
      | none => .ok none
      | some i =>
        if skip + i + 1 = skip + blob.length then .ok none
        else
          match blob[skip + i + 1]? with
          | none => .error .behindBlob
          | some c =>
            if c = '\n' then .ok (some (skip + i)) else readEolFrom blob fuel (skip + (skip + i + 1))
    else .ok none

def readEol (blob : List Char) : Except ReadError (Option Nat) := readEolFrom blob (blob.length + 1) 0

variable {blob : List Char} {fuel skip p q : Nat}

/-- The driver's `findEol` is this search, as long as it stays inside the blob. -/
theorem findEolFrom_of_readEolFrom {result : Option Nat} (h : readEolFrom blob fuel skip = .ok result) :
    findEolFrom blob fuel skip = result := by
  induction fuel generalizing skip with
  | zero => exact Except.ok.inj h
  | succ fuel ih => grind [readEolFrom, findEolFrom]

theorem le_of_readEolFrom (h : readEolFrom blob fuel skip = .ok (some p)) : skip ≤ p := by
  induction fuel generalizing skip with
  | zero => cases h
  | succ fuel ih => grind [readEolFrom]

/-! ## 2. What it looks for -/

/-- A carriage return and a line feed stand at `p`. -/
def PairAt (blob : List Char) (p : Nat) : Prop := blob[p]? = some '\r' ∧ blob[p + 1]? = some '\n'

instance (blob : List Char) (p : Nat) : Decidable (PairAt blob p) := inferInstanceAs (Decidable (_ ∧ _))

def firstPair (blob : List Char) : Option Nat := (range blob.length).find? fun p => PairAt blob p

/-- The search gives the first pair inside the blob and reads no byte behind it. -/
def FindsFirst (blob : List Char) : Prop := readEol blob = .ok (firstPair blob) ∧ findEol blob = firstPair blob

theorem firstPair_eq_some (hp : PairAt blob p) (hmin : ∀ r < p, ¬ PairAt blob r) : firstPair blob = some p := by
  have hlt : p < blob.length := (List.getElem?_eq_some_iff.mp hp.1).1
  exact find?_range_eq_some.mpr ⟨by simpa using hp, mem_range.mpr hlt, fun r hr => by simpa using hmin r hr⟩

theorem firstPair_eq_none (h : ∀ p, ¬ PairAt blob p) : firstPair blob = none :=
  find?_range_eq_none.mpr fun p _ => by simpa using h p

theorem exists_firstPair (hp : PairAt blob p) : ∃ first ≤ p, firstPair blob = some first ∧ PairAt blob first :=
  ⟨_, Nat.find_min' _ hp, firstPair_eq_some (Nat.find_spec ⟨p, hp⟩) fun _ hr => Nat.find_min _ hr, Nat.find_spec _⟩

/-! ## 3. Where the search is right -/

/-- The value of `skip` when the search has done with the first bytes of the blob: a carriage return raises it, unless
it stands among the bytes that are passed over. -/
def skipAt (blob : List Char) : Nat → Nat
  | 0 => 0
  | p + 1 => if blob[p]? = some '\r' ∧ skipAt blob p ≤ p then skipAt blob p + (p + 1) else skipAt blob p

/-- The first pair is not passed over, and where there is none, the last byte is no carriage return at which the
search arrives after another one. -/
structure Reaches (blob : List Char) : Prop where
  pair : ∀ p, firstPair blob = some p → skipAt blob p ≤ p
  atEnd : firstPair blob = none → blob[blob.length - 1]? = some '\r' →
    skipAt blob (blob.length - 1) = 0 ∨ blob.length ≤ skipAt blob (blob.length - 1) + 1

theorem skipAt_eq (hle : q ≤ p) (h : ∀ r, skipAt blob q ≤ r → r < p → blob[r]? ≠ some '\r') :
    skipAt blob p = skipAt blob q := by
  induction p, hle using Nat.le_induction with
  | base => rfl
  | succ p hle ih => grind [skipAt]

/-- Where the search finds nothing, it is right if it has not passed over a pair. -/
theorem ok_none_iff (hno : ∀ p, ¬ PairAt blob p) (hend : blob[blob.length - 1]? = some '\r' →
    skipAt blob (blob.length - 1) = 0 ∨ blob.length ≤ skipAt blob (blob.length - 1) + 1) :
    (.ok none : Except ReadError _) = .ok (firstPair blob) ↔ Reaches blob := by
  have hfirst := firstPair_eq_none hno
  exact iff_of_true (congrArg _ hfirst.symm) ⟨fun p hp => (nomatch hfirst.symm.trans hp), fun _ => hend⟩

section Loop

-- The search stands at `skip`, which has its value since the byte `q`, and there is no pair before it.
variable (hq : skipAt blob q = skip) (hle : q ≤ skip) (hlen : q ≤ blob.length - 1) (hno : ∀ p < skip, ¬ PairAt blob p)

include hq hlen hno in
theorem ok_none_iff_of_length_le (h : blob.length ≤ skip + 1) :
    (.ok none : Except ReadError _) = .ok (firstPair blob) ↔ Reaches blob := by
  refine ok_none_iff (by grind [PairAt]) fun _ => .inr ?_
  rw [skipAt_eq hlen fun r hr hlt => by omega, hq]
  exact h

include hq hle hlen hno in
/-- **From there on, the search is right exactly if it reaches the first pair.** -/
theorem readEolFrom_eq_iff (hfuel : blob.length < fuel + skip) :
    readEolFrom blob fuel skip = .ok (firstPair blob) ↔ Reaches blob := by
  induction fuel generalizing skip q with
  | zero => exact ok_none_iff_of_length_le hq hlen hno (by omega)
  | succ fuel ih =>
    unfold readEolFrom
    split_ifs with hlt
    · cases hidx : (blob.drop skip).idxOf? '\r' with
      | none =>
        have hcr : ∀ r, skip ≤ r → blob[r]? ≠ some '\r' := fun r hr h => idxOf?_eq_none_iff.mp hidx
          (mem_iff_getElem?.mpr ⟨r - skip, by rw [getElem?_drop, Nat.add_sub_cancel' hr, h]⟩)
        exact ok_none_iff (by grind [PairAt]) fun h => absurd h (hcr _ (by omega))
      | some i =>
        obtain ⟨hi, hat, hmin⟩ := idxOf?_eq_some_iff.mp hidx
        have hcr : blob[skip + i]? = some '\r' := by rw [← getElem?_drop, getElem?_eq_getElem hi, hat]
        have hbetween : ∀ r, skip ≤ r → r < skip + i → blob[r]? ≠ some '\r' := by
          intro r hr hlt hcr
          exact hmin (r - skip) (by omega) (by rw [getElem_drop, getElem_eq_iff, Nat.add_sub_cancel' hr, hcr])
        have hskip : skipAt blob (skip + i) = skip := by
          rw [skipAt_eq (by omega : q ≤ skip + i) fun r hr => hbetween r (by omega), hq]
        have hbefore : ∀ p < skip + i, ¬ PairAt blob p := by grind [PairAt]
        dsimp only
        by_cases hpair : PairAt blob (skip + i)
        · have hfirst := firstPair_eq_some hpair hbefore
          have hlt := (List.getElem?_eq_some_iff.mp hpair.2).1
          rw [if_neg (by omega), hpair.2, hfirst]
          refine iff_of_true rfl ⟨fun p hp => ?_, fun h => nomatch hfirst.symm.trans h⟩
          cases hfirst.symm.trans hp
          rw [hskip]
          exact Nat.le_add_right _ _
        have hlone : ∀ p < skip + i + 1, ¬ PairAt blob p := by grind
        by_cases hlast : blob.length = skip + i + 1
        · -- the carriage return is the last byte
          have hnone : ∀ p, ¬ PairAt blob p := by grind [PairAt]
          have hend : blob.length - 1 = skip + i := by omega
          by_cases hzero : skip = 0
          · rw [if_pos (by omega)]
            exact ok_none_iff hnone fun _ => .inl (by rw [hend, hskip, hzero])
          · rw [if_neg (by omega), getElem?_eq_none (by omega)]
            refine iff_of_false nofun fun h => ?_
            have hout := h.atEnd (firstPair_eq_none hnone)
            rw [hend, hskip] at hout
            have := hout hcr
            omega
        · have hlt := (List.getElem?_eq_some_iff.mp hcr).1
          have hc := getElem?_eq_getElem (by omega : skip + i + 1 < blob.length)
          have hnext : skipAt blob (skip + i + 1) = skip + (skip + i + 1) := by
            rw [skipAt, hskip, if_pos ⟨hcr, Nat.le_add_right _ _⟩]
          rw [if_neg (by omega), hc]
          dsimp only
          rw [if_neg fun hlf => hpair ⟨hcr, hc.trans (congrArg some hlf)⟩]
          by_cases hhidden : ∀ p < skip + (skip + i + 1), ¬ PairAt blob p
          · exact ih hnext (by omega) (by omega) hhidden (by omega)
          · -- the first pair is among the bytes that are passed over
            obtain ⟨p, hp, hpair⟩ : ∃ p < skip + (skip + i + 1), PairAt blob p := by simpa using hhidden
            obtain ⟨first, hle, hfirst, hat⟩ := exists_firstPair hpair
            have hge : skip + i + 1 ≤ first := not_lt.mp fun h => hlone first h hat
            have hpast : skipAt blob first = skip + (skip + i + 1) := by
              rw [skipAt_eq hge fun r hr hlt => by omega, hnext]
            refine iff_of_false (fun h => ?_) fun h => ?_
            · have := le_of_readEolFrom (h.trans (congrArg _ hfirst))
              omega
            · have := h.pair first hfirst
              omega
    · exact ok_none_iff_of_length_le hq hlen hno (by omega)

end Loop

theorem readEol_iff (blob : List Char) : readEol blob = .ok (firstPair blob) ↔ Reaches blob :=
  readEolFrom_eq_iff (q := 0) rfl le_rfl (Nat.zero_le _) nofun (Nat.lt_succ_self _)

/-- The first carriage return is always seen. -/
theorem findEol_of_noCr (hno : ∀ r < p, blob[r]? ≠ some '\r') :
    (PairAt blob p → findEol blob = some p) ∧ (blob.length ≤ p + 1 → findEol blob = none) := by
  have hzero : ∀ q ≤ p, skipAt blob q = 0 := fun q hq => skipAt_eq (Nat.zero_le q) fun r _ hr => hno r (by omega)
  constructor
  · intro hpair
    have hfirst := firstPair_eq_some hpair (by grind [PairAt])
    refine findEolFrom_of_readEolFrom (hfirst ▸ (readEol_iff blob).mpr ⟨fun q hq => ?_, by simp [hfirst]⟩)
    cases hfirst.symm.trans hq
    exact (hzero p le_rfl).trans_le (Nat.zero_le p)
  · intro hlen
    have hnone := @firstPair_eq_none blob (by grind [PairAt])
    exact findEolFrom_of_readEolFrom (hnone ▸ (readEol_iff blob).mpr ⟨by simp [hnone], fun _ _ => .inl (hzero _ (by omega))⟩)

/-- **The search gives the first end of line, and reads no byte behind the blob, exactly if it reaches it.** -/
theorem findsFirst_iff (blob : List Char) : FindsFirst blob ↔ Reaches blob := by
  rw [← readEol_iff]
  exact ⟨And.left, fun h => ⟨h, findEolFrom_of_readEolFrom h⟩⟩

/-- After two carriage returns the end of line is passed over; after one, the byte behind the blob is read. -/
theorem not_findsFirst_carriageReturns :
    (findEol "\r\r\r\n".toList = none ∧ firstPair "\r\r\r\n".toList = some 2) ∧
      readEol "\rab\r".toList = .error .behindBlob ∧ ¬ FindsFirst "\r\r\r\n".toList ∧ ¬ FindsFirst "\rab\r".toList :=
  ⟨⟨rfl, rfl⟩, rfl, fun h => (nomatch h.2), fun h => (nomatch h.1)⟩

end Gct.Http
