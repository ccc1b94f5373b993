/-
# `REST` on the server: the bytes that are still to be sent

The client sends the text of its restart marker as the argument of `REST`.  The server scans it
into a range list (`globus_l_gsc_cmd_rest`), and before the transfer starts it turns the list of
what the client has into the list of what it lacks (`globus_i_gsc_reverse_restart`): it takes the
ranges one by one out of the list `[0, ∞)`.

Neither the insertion nor the removal of range lists is right in general.  Here both stay on the
branches that are: the ranges of a marker come in increasing order, so each one is appended; and
each removal cuts into the unbounded last entry only, because everything behind the range that was
removed last is still in the list, so that the bounded entries end before it.

An argument that some other client writes need not be of that form, and it is stored all the same:
neither the order of the two numbers of a range nor their signs are looked at (`restRight_iff`).
-/
import Gct.RangeList.Remove
import Gct.RestartMarker.Text

namespace Gct

open CText List RangeList

/-! ## 1. The program -/

/-- The loop of `globus_l_gsc_cmd_rest` for extended block mode; `none` is the answer 501. -/
def cmdRestLoop (tmpPtr : List Char) (rangeList : RangeList) : Option RangeList :=
  match scanRange tmpPtr with
  | none => none
  | some (startOffset, endOffset, _) =>
    let rangeList := (rangeList.insert startOffset (offSub endOffset startOffset)).2
    match _h : strchr ',' tmpPtr with
    | none => some rangeList
    | some t => cmdRestLoop t.tail rangeList
termination_by tmpPtr.length
decreasing_by exact length_of_strchr _h

variable (arg : List Char)

/-- The range list that the argument of `REST` stands for. -/
def restRangeList : Option RangeList :=
  match strchr '-' arg with
  | none =>
    match scanOff arg with
    | none => none
    | some (endOffset, _) => some (init.insert 0 endOffset).2
  | some _ => cmdRestLoop arg .init

/-- `globus_l_gsc_cmd_rest`: the reply, and `range_list` of the server handle, which it replaces. -/
def cmdRest (rangeList : Option RangeList) (arg : List Char) : String × Option RangeList :=
  match restRangeList arg with
  | none => ("501 bad parameter.\r\n", rangeList)
  | some l => ("350 Restart Marker OK. Send STORE or RETR to initiate transfer.\r\n", some l)

/-- The loop of `globus_i_gsc_reverse_restart`, with the values of `offset` and `length`.  It runs
until `size` is 0; `none` is a run that has not ended after `fuel` rounds. -/
def reverseRestartLoop : Nat → RangeList → RangeList → Int × Int → Option (RangeList × RangeList)
  | 0, _, _, _ => none
  | fuel + 1, inRange, outRange, out =>
    if inRange.size ≠ 0 then
      let (_, out', inRange') := inRange.removeAt 0 out
      reverseRestartLoop fuel inRange' (outRange.remove out'.1 out'.2).2 out'
    else some (inRange, outRange)

/-- `globus_i_gsc_reverse_restart`: the two lists afterwards. -/
def reverseRestart (fuel : Nat) (inRange : Option RangeList) (outRange : RangeList)
    (out : Int × Int) : Option (Option RangeList × RangeList) :=
  let outRange := (outRange.insert 0 rangeListMax).2
  match inRange with
  | none => some (none, outRange)
  | some inRange =>
    (reverseRestartLoop fuel inRange outRange out).map fun r => (some r.1, r.2)

/-! ## 2. The argument of `REST` -/

/-- The ranges a client may send: valid, in increasing order and not adjacent. -/
structure CanonicalRanges (ranges : List ClientRange) : Prop where
  valid : ∀ range ∈ ranges, range.Valid
  sep : ranges.Pairwise fun a b => a.endOffset < b.offset

/-- The entry of a range list for a range of a marker. -/
def ClientRange.ent (range : ClientRange) : RangeEnt :=
  ⟨range.offset, range.endOffset - range.offset⟩

theorem ClientRange.Valid.ent {range : ClientRange} (h : range.Valid) : RangeValid range.ent.offset range.ent.length := by
  obtain ⟨h0, h1, h2⟩ := h
  refine ⟨h0, ?_, .inr ⟨?_, ?_⟩⟩ <;> simp only [ClientRange.ent] <;> omega

theorem ClientRange.Valid.before {a b : ClientRange} (ha : a.Valid)
    (h : a.endOffset < b.offset) : a.ent.Before b.ent := by
  have hm := rangeListMax_eq
  have := ha.2.1
  constructor <;> simp only [ClientRange.ent] <;> omega

variable {range : ClientRange} {l : RangeList}

theorem ClientRange.Valid.rangeBytes_ent (h : range.Valid) :
    rangeBytes range.ent.offset range.ent.length = range.bytes := by
  have hm := rangeListMax_eq
  have := h.2.1
  ext x
  simp only [mem_rangeBytes, ClientRange.ent, ClientRange.mem_bytes]
  omega

/-- The text of a range without the comma. -/
def rangeBody (range : ClientRange) : List Char :=
  printInt range.offset ++ '-' :: printInt range.endOffset

/-- The texts of the ranges with commas between them. -/
def joinText : List ClientRange → List Char
  | [] => []
  | [range] => rangeBody range
  | range :: range' :: rest => rangeBody range ++ ',' :: joinText (range' :: rest)

/-- Overwriting the last comma leaves the commas between. -/
theorem dropLast_text (range : ClientRange) (rest : List ClientRange) :
    ((range :: rest).flatMap rangeText).dropLast = joinText (range :: rest) := by
  have hbody : ∀ r : ClientRange, rangeText r = rangeBody r ++ [','] := fun r => by
    simp [rangeText, rangeBody]
  induction rest generalizing range with
  | nil =>
    rw [flatMap_cons, flatMap_nil, append_nil, hbody, dropLast_concat, joinText]
  | cons range' rest ih =>
    have hne : (range' :: rest).flatMap rangeText ≠ [] := by simp [rangeText]
    rw [flatMap_cons, dropLast_append_of_ne_nil hne, ih, joinText, hbody, append_assoc, singleton_append]

theorem comma_notMem_rangeBody (range : ClientRange) : ',' ∉ rangeBody range := by
  rw [rangeBody, mem_append, mem_cons]
  rintro (h | h | h)
  · exact not_mem_printInt (by decide) (by decide) h
  · exact absurd h (by decide)
  · exact not_mem_printInt (by decide) (by decide) h

/-- The scan of a range at the head of an argument. -/
theorem scanRange_rangeBody (hv : range.Valid) {s : List Char} (hs : NoDigit s) :
    scanRange (rangeBody range ++ s) = some (range.offset, range.endOffset, s) := by
  obtain ⟨h0, h1, h2⟩ := hv
  exact scanRange_text (by unfold OffFits; unfold offMax at h2; omega) (by unfold OffFits; unfold offMax at h2; omega) hs

/-- The length that is inserted for a range. -/
theorem offSub_of_valid (hv : range.Valid) : offSub range.endOffset range.offset = range.ent.length := by
  obtain ⟨h0, h1, h2⟩ := hv
  exact offSub_eq (by unfold OffFits; unfold offMax at h2; omega)

/-- The ranges that the loop of `globus_l_gsc_cmd_rest` scans; `none` if it fails. -/
def writtenLoop (tmpPtr : List Char) : Option (List ClientRange) :=
  match scanRange tmpPtr with
  | none => none
  | some (startOffset, endOffset, _) =>
    match _h : strchr ',' tmpPtr with
    | none => some [⟨startOffset, endOffset⟩]
    | some t => (writtenLoop t.tail).map (⟨startOffset, endOffset⟩ :: ·)
termination_by tmpPtr.length
decreasing_by exact length_of_strchr _h

section

variable {p s : List Char} {a b : Int} (hscan : scanRange p = some (a, b, s))
include hscan

theorem writtenLoop_last (hcomma : strchr ',' p = none) : writtenLoop p = some [⟨a, b⟩] := by
  rw [writtenLoop, hscan]
  dsimp only
  split <;> simp_all

theorem writtenLoop_next {t : List Char} (hcomma : strchr ',' p = some t) :
    writtenLoop p = (writtenLoop t.tail).map (⟨a, b⟩ :: ·) := by
  rw [writtenLoop, hscan]
  dsimp only
  split <;> simp_all

end

/-- The ranges are inserted one by one. -/
def storeRanges (l : RangeList) (ranges : List ClientRange) : RangeList :=
  ranges.foldl (fun l r => (l.insert r.offset (offSub r.endOffset r.offset)).2) l

/-- The loop inserts the ranges it scans. -/
theorem cmdRestLoop_eq (p : List Char) (l : RangeList) : cmdRestLoop p l = (writtenLoop p).map (storeRanges l) := by
  fun_induction cmdRestLoop p l with
  | case1 p l hscan => rw [writtenLoop, hscan, Option.map_none]
  | case2 p l a b s hscan l' hcomma =>
    rw [writtenLoop_last hscan hcomma]
    rfl
  | case3 p l a b s hscan l' t hcomma ih =>
    rw [ih, writtenLoop_next hscan hcomma, Option.map_map]
    rfl

theorem writtenLoop_joinText : ∀ (range : ClientRange) (rest : List ClientRange),
    (∀ r ∈ range :: rest, r.Valid) → writtenLoop (joinText (range :: rest)) = some (range :: rest)
  | range, [], hv => by
    have hscan := scanRange_rangeBody (hv range (by simp)) noDigit_nil
    rw [append_nil] at hscan
    exact writtenLoop_last hscan (strchr_eq_none_iff.mpr (comma_notMem_rangeBody range))
  | range, range' :: rest, hv => by
    have hscan := scanRange_rangeBody (hv range (by simp)) (s := ',' :: joinText (range' :: rest))
      (noDigit_cons.mpr (by decide))
    rw [joinText, writtenLoop_next hscan (strchr_append (comma_notMem_rangeBody range)), tail_cons,
      writtenLoop_joinText range' rest fun r hr => hv r (mem_cons_of_mem _ hr)]
    rfl

/-- **Ranges in increasing order are appended one by one.** -/
theorem storeRanges_canonical : ∀ {ranges : List ClientRange} {l : RangeList},
    CanonicalRanges ranges → l.WellFormed → (∀ p ∈ l.head, ∀ r ∈ ranges, p.Before r.ent) →
      storeRanges l ranges = ⟨l.size + ranges.length, l.head ++ ranges.map ClientRange.ent⟩
  | [], l, _, _, _ => by simp [storeRanges]
  | range :: ranges, l, hc, hw, hb => by
    have hv := hc.valid range (by simp)
    obtain ⟨hsep, hsep'⟩ := pairwise_cons.mp hc.sep
    have hbefore : ∀ p ∈ l.head, p.Before range.ent := fun p hp => hb p hp range (by simp)
    have hins := insert_of_before hv.ent hw.ents.valid hbefore hw.size_eq
    -- the list with the range appended is well-formed, and still before what follows
    have hw' : RangeList.WellFormed ⟨l.size + 1, l.head ++ [range.ent]⟩ := by
      refine ⟨wfEnts_append.mpr ⟨hw.ents, ⟨by simpa using hv.ent, pairwise_singleton _ _⟩, ?_⟩, ?_⟩
      · simpa using hbefore
      · simp [hw.size_eq]
    have hb' : ∀ p ∈ l.head ++ [range.ent], ∀ r ∈ ranges, p.Before r.ent := by
      refine forall_mem_append.mpr ⟨fun p hp r hr => hb p hp r (mem_cons_of_mem _ hr), ?_⟩
      exact forall_mem_singleton.mpr fun r hr => hv.before (hsep r hr)
    have hl' : (l.insert range.offset (offSub range.endOffset range.offset)).2 = ⟨l.size + 1, l.head ++ [range.ent]⟩ := by
      rw [offSub_of_valid hv]
      exact congrArg Prod.snd hins
    have hrest := storeRanges_canonical ⟨fun r hr => hc.valid r (mem_cons_of_mem _ hr), hsep'⟩ hw' hb'
    rw [← hl'] at hrest
    refine hrest.trans ?_
    simp only [hl', length_cons, map_cons, append_assoc, singleton_append, mk.injEq, and_true]
    omega

/-! ## 3. The complement -/

/-- If the list still has every byte from `z` on, a removal of a range from `z` on is right: the
bounded entries end before `z`. -/
theorem removeOk_of_Ici (hw : l.WellFormed) {z : Int} (hz : ∀ x, z ≤ x → x ∈ l.bytes) (hv : range.Valid)
    (hle : z ≤ range.offset) : RemoveOk l.head range.ent.offset range.ent.length := by
  obtain ⟨h0, h1, h2⟩ := hv
  refine .inr (.inr ⟨by simp only [ClientRange.ent]; omega, fun x hx hl => ?_⟩)
  have hend : x.offset + x.length < z := by
    refine not_le.mp fun hge => ?_
    exact hw.ents.end_notMem hx hl (hz _ hge)
  simp only [ClientRange.ent]
  refine ⟨by omega, by omega, by omega⟩

theorem removeArgs_ent (hv : range.Valid) : RemoveArgs range.ent.offset range.ent.length := by
  obtain ⟨h0, h1, h2⟩ := hv
  refine ⟨h0, ?_, .inr ⟨?_, ?_⟩⟩ <;> simp only [ClientRange.ent] <;> omega

/-- **The loop takes out the ranges one by one**, as long as the list has every byte from the
first of them on. -/
theorem reverseRestartLoop_spec : ∀ (ranges : List ClientRange) (fuel : Nat) {outRange : RangeList}
    (out : Int × Int) {z : Int}, ranges.length < fuel → CanonicalRanges ranges →
    outRange.WellFormed → (∀ x, z ≤ x → x ∈ outRange.bytes) → (∀ r ∈ ranges, z ≤ r.offset) →
      ∃ outRange', reverseRestartLoop fuel ⟨ranges.length, ranges.map ClientRange.ent⟩ outRange out
          = some (⟨0, []⟩, outRange') ∧ outRange'.WellFormed ∧ outRange'.bytes = outRange.bytes \ rangesBytes ranges
  | [], fuel + 1, outRange, out, z, _, _, hw, _, _ =>
    ⟨outRange, by simp [reverseRestartLoop], hw, by simp⟩
  | range :: ranges, fuel + 1, outRange, out, z, hf, hc, hw, hz, hle => by
    have hv := hc.valid range (by simp)
    obtain ⟨hsep, hsep'⟩ := pairwise_cons.mp hc.sep
    obtain ⟨hw', hb'⟩ := remove_spec hw (removeArgs_ent hv) (removeOk_of_Ici hw hz hv (hle range (by simp)))
    rw [hv.rangeBytes_ent] at hb'
    -- what is behind the range is still there
    have hz' : ∀ x, range.endOffset ≤ x → x ∈ (outRange.remove range.ent.offset range.ent.length).2.bytes := by
      intro x hx
      rw [hb']
      have := hle range (by simp)
      have := hv.2.1
      refine ⟨hz x (by omega), fun hxr => ?_⟩
      have := hxr.2
      omega
    obtain ⟨outRange', hrun, hwf, hbytes⟩ := reverseRestartLoop_spec ranges fuel
      (range.ent.offset, range.ent.length) (by simp only [length_cons] at hf; omega)
      ⟨fun r hr => hc.valid r (by simp [hr]), hsep'⟩ hw' hz' fun r hr => (hsep r hr).le
    refine ⟨outRange', ?_, hwf, ?_⟩
    · rw [reverseRestartLoop, if_pos (by simp only [length_cons]; omega)]
      have hat : removeAt ⟨(range :: ranges).length, (range :: ranges).map ClientRange.ent⟩
          0 out = (.success, (range.ent.offset, range.ent.length), ⟨ranges.length, ranges.map ClientRange.ent⟩) := by
        simp [removeAt, entsFrom]
      rw [hat]
      exact hrun
    · rw [hbytes, hb', rangesBytes_cons]
      exact sdiff_sdiff_left

/-- **The server will send exactly the bytes the client does not have.** -/
theorem rest_complement (ranges : List ClientRange) (hne : ranges ≠ [])
    (hc : CanonicalRanges ranges) (old : Option RangeList) (out : Int × Int) :
    ∃ text stored, (RestartMarker.extendedBlock (some ranges)).toString = some (some text)
      ∧ cmdRest old text
        = ("350 Restart Marker OK. Send STORE or RETR to initiate transfer.\r\n", some stored)
      ∧ ∀ fuel, ranges.length < fuel →
          ∃ rest todo, reverseRestart fuel (some stored) .init out = some (rest, todo)
            ∧ todo.WellFormed ∧ todo.bytes = Set.Ici 0 \ rangesBytes ranges := by
  obtain ⟨range, rest, rfl⟩ := exists_cons_of_ne_nil hne
  have hloop : cmdRestLoop (joinText (range :: rest)) .init
      = some ⟨(range :: rest).length, (range :: rest).map ClientRange.ent⟩ := by
    rw [cmdRestLoop_eq, writtenLoop_joinText range rest hc.valid, Option.map_some,
      storeRanges_canonical hc wellFormed_init (by simp [init])]
    simp [init]
  have hdash : '-' ∈ joinText (range :: rest) := by
    cases rest with
    | nil | cons => simp [joinText, rangeBody]
  obtain ⟨s, t, hst, hs⟩ := eq_append_cons_of_mem hdash
  refine ⟨joinText (range :: rest), ⟨(range :: rest).length, (range :: rest).map ClientRange.ent⟩,
    ?_, ?_, fun fuel hf => ?_⟩
  · rw [RestartMarker.toString, dropLast_text]
  · unfold cmdRest restRangeList
    rw [hloop, hst, strchr_append hs]
  · have hall : (init.insert 0 rangeListMax).2 = ⟨1, [⟨0, rangeListMax⟩]⟩ := rfl
    have hw : RangeList.WellFormed ⟨1, [⟨0, rangeListMax⟩]⟩ := ⟨⟨by decide, by decide⟩, rfl⟩
    have hbytes : bytes ⟨1, [⟨0, rangeListMax⟩]⟩ = Set.Ici 0 := by
      ext x
      simp [bytes]
    obtain ⟨todo, hrun, hwf, hb⟩ := reverseRestartLoop_spec (range :: rest) fuel out
      (z := 0) hf hc hw (fun x hx => by rw [hbytes]; exact hx) fun r hr => (hc.valid r hr).1
    rw [hbytes] at hb
    refine ⟨some ⟨0, []⟩, todo, ?_, hwf, hb⟩
    unfold reverseRestart
    rw [hall]
    simp only [hrun, Option.map_some]

/-- A marker with two ranges, the first of which starts at 0. -/
theorem rest_complement_two :
    ∃ text stored, (RestartMarker.extendedBlock (some [⟨0, 10⟩, ⟨20, 30⟩])).toString
        = some (some text)
      ∧ cmdRest none text
        = ("350 Restart Marker OK. Send STORE or RETR to initiate transfer.\r\n", some stored)
      ∧ ∀ fuel, [(⟨0, 10⟩ : ClientRange), ⟨20, 30⟩].length < fuel →
          ∃ rest todo, reverseRestart fuel (some stored) .init (0, 0) = some (rest, todo)
            ∧ todo.WellFormed ∧ todo.bytes = Set.Ici 0 \ rangesBytes [⟨0, 10⟩, ⟨20, 30⟩] :=
  rest_complement [⟨0, 10⟩, ⟨20, 30⟩] (by simp) ⟨by decide, by decide⟩ none (0, 0)

/-! ## 4. Any argument -/

/-- The ranges that are written in an argument: a number without a `-` stands for what is before
it. -/
def writtenRanges : Option (List ClientRange) :=
  match strchr '-' arg with
  | none => (scanOff arg).map fun r => [⟨0, r.1⟩]
  | some _ => writtenLoop arg

/-- The argument is refused and changes nothing, or the list stored is well-formed and has the bytes
of the ranges written; and a reversed range or a negative number is refused. -/
def RestRight (old : Option RangeList) (arg : List Char) : Prop :=
  (cmdRest old arg = ("501 bad parameter.\r\n", old)
      ∨ ∃ stored ranges, (cmdRest old arg).2 = some stored ∧ writtenRanges arg = some ranges
        ∧ stored.WellFormed ∧ stored.bytes = rangesBytes ranges)
    ∧ ∀ ranges, writtenRanges arg = some ranges →
        (∃ r ∈ ranges, r.offset < 0 ∨ r.endOffset < r.offset) →
          cmdRest old arg = ("501 bad parameter.\r\n", old)

/-- Every range is empty, or it is valid and its insertion into the list it finds is right. -/
def RangesOk : RangeList → List ClientRange → Prop
  | _, [] => True
  | l, r :: ranges =>
    ((0 ≤ r.offset ∧ r.offset = r.endOffset)
        ∨ (r.Valid ∧ InsertOk l.head r.ent.offset r.ent.length))
      ∧ RangesOk (l.insert r.ent.offset r.ent.length).2 ranges

theorem RangesOk.ordered : ∀ {ranges : List ClientRange} {l : RangeList}, RangesOk l ranges →
    ∀ r ∈ ranges, 0 ≤ r.offset ∧ r.offset ≤ r.endOffset
  | r :: _, _, ⟨h, hrest⟩, x, hx => by
    rcases mem_cons.mp hx with rfl | hx
    · rcases h with ⟨h0, h1⟩ | ⟨⟨h0, h1, _⟩, _⟩
      · exact ⟨h0, h1.le⟩
      · exact ⟨h0, by omega⟩
    · exact hrest.ordered x hx

/-- One range: the difference does not overflow, and the insertion is right. -/
theorem insert_written (hw : l.WellFormed) {ranges : List ClientRange} (h : RangesOk l (range :: ranges)) :
    offSub range.endOffset range.offset = range.ent.length ∧ (l.insert range.ent.offset range.ent.length).2.WellFormed
      ∧ (l.insert range.ent.offset range.ent.length).2.bytes = l.bytes ∪ range.bytes := by
  rcases h.1 with ⟨h0, h1⟩ | ⟨hv, hok⟩
  · have hlen : range.ent.length = 0 := by
      simp only [ClientRange.ent, h1, Int.sub_self]
    have hins : (l.insert range.ent.offset 0).2 = l := by
      rw [RangeList.insert, if_neg (not_lt.mpr (show 0 ≤ range.ent.offset from h0)), if_pos rfl]
    have hbytes : range.bytes = ∅ := by
      ext x
      simp [ClientRange.mem_bytes, h1]
    refine ⟨offSub_eq (by unfold OffFits; omega), ?_⟩
    rw [hlen, hins, hbytes, Set.union_empty]
    exact ⟨hw, rfl⟩
  · have hins := (insert_correct_iff hw hv.ent).mpr hok
    rw [hv.rangeBytes_ent] at hins
    exact ⟨offSub_of_valid hv, hins⟩

theorem storeRanges_spec : ∀ {ranges : List ClientRange} {l : RangeList}, l.WellFormed → RangesOk l ranges →
      (storeRanges l ranges).WellFormed ∧ (storeRanges l ranges).bytes = l.bytes ∪ rangesBytes ranges
  | [], l, hw, _ => ⟨hw, by simp [storeRanges]⟩
  | range :: ranges, l, hw, hok => by
    obtain ⟨hlen, hw', hb'⟩ := insert_written hw hok
    obtain ⟨hstored, hbytes⟩ := storeRanges_spec hw' hok.2
    rw [hb', Set.union_assoc, ← rangesBytes_cons, ← hlen] at hbytes
    rw [← hlen] at hstored
    exact ⟨hstored, hbytes⟩

/-- The argument is refused where the scan fails; otherwise the ranges written are stored. -/
theorem restRangeList_written : (restRangeList arg = none ∧ writtenRanges arg = none)
      ∨ ∃ stored ranges, restRangeList arg = some stored ∧ writtenRanges arg = some ranges
        ∧ (RangesOk .init ranges → stored.WellFormed ∧ stored.bytes = rangesBytes ranges) := by
  have hempty : init.bytes = ∅ := by simp [init, bytes]
  unfold restRangeList writtenRanges
  cases strchr '-' arg with
  | none =>
    cases hscan : scanOff arg with
    | none => exact .inl ⟨rfl, rfl⟩
    | some r =>
      refine .inr ⟨_, _, rfl, rfl, fun hok => ?_⟩
      have hins := (insert_written wellFormed_init hok).2
      simpa [ClientRange.ent, hempty] using hins
  | some =>
    simp only [cmdRestLoop_eq]
    cases hranges : writtenLoop arg with
    | none => exact .inl ⟨rfl, rfl⟩
    | some ranges =>
      refine .inr ⟨_, _, rfl, rfl, fun hok => ?_⟩
      simpa [hempty] using storeRanges_spec wellFormed_init hok

end Gct
