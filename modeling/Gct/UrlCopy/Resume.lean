/-
# What a later run transfers

A marker counts from the first byte of the requested range: the server shifts the blocks of a partial transfer
to 0, and `gass_copy` adds `partial_offset` to the offset of what it has read.

The line of a transfer begins behind the first block of the marker, so nothing is lost if this block begins
the range.  Otherwise the bytes before it are not transferred again, unless the line begins where the range
does; and a length that was given is reduced by the length of the block only, which moves the end of the
range.  `resumes_iff` shows that this is all that can go wrong, for URLs that can be read back.
-/
import Gct.UrlCopy.Dump
import Mathlib.Data.List.Forall2

namespace Gct.UrlCopy

open CText FileReader Format List Transfer SrcDstPair Option

/-! ## 1. The transfers of two runs -/

section

variable (size : List Char → Int) (transfer : Transfer) (pair : SrcDstPair)

/-- The bytes of the source that a pair stands for; `size` gives the length of each source. -/
def SrcDstPair.requested : Set Int :=
  Set.Ico (max pair.offset 0) (if pair.length = -1 then size pair.srcUrl else pair.offset + pair.length)

/-- The bytes that have arrived, counted from the first requested one. -/
def received : RestartMarker → Set Int
  | .restartNone => ∅
  | .stream offset _ => Set.Ico 0 offset
  | .extendedBlock ranges => rangesBytes (ranges.getD [])

/-- The marker of a transfer of `length` bytes. -/
def MarkerOf (length : Int) : RestartMarker → Prop
  | .restartNone => True
  | .stream offset _ => 0 ≤ offset ∧ offset ≤ length
  | .extendedBlock none => False
  | .extendedBlock (some ranges) => ranges.Pairwise (fun a b => a.endOffset ≤ b.offset) ∧
      ∀ range ∈ ranges, range.Valid ∧ range.endOffset ≤ length

/-- A transfer that can be under way: a length is given only with an offset, and the offsets fit their type. -/
structure Transfer.Valid : Prop where
  offset : -1 ≤ transfer.urls.offset
  length : -1 ≤ transfer.urls.length
  whole : transfer.urls.offset = -1 → transfer.urls.length = -1
  fits : transfer.urls.offset + max transfer.urls.length 0 ≤ offMax
  size_fits : size transfer.urls.srcUrl ≤ offMax
  marker : MarkerOf ((if transfer.urls.length = -1 then size transfer.urls.srcUrl
    else transfer.urls.offset + transfer.urls.length) - max transfer.urls.offset 0) transfer.marker

/-- The pair transfers what has not been received, and nothing that was not requested. -/
def Transfer.Resumed : Prop :=
  (pair.srcUrl = transfer.urls.srcUrl ∧ pair.dstUrl = transfer.urls.dstUrl) ∧
    (∀ b ∈ transfer.urls.requested size, b - max transfer.urls.offset 0 ∉ received transfer.marker →
      b ∈ pair.requested size) ∧
    pair.requested size ⊆ transfer.urls.requested size

/-- The transfers in progress, and the pending ones. -/
def GucInfo.all (info : GucInfo) : List Transfer :=
  info.currentTransfers ++ (info.expandedUrlList ++ info.userUrlList).map (⟨·, .restartNone⟩)

/-- A later run, without a range of its own, resumes every transfer. -/
def GucInfo.Resumes (info : GucInfo) : Prop :=
  ∃ pairs, parseFile (-1) (-1) (dumpUrls info) = some pairs ∧ List.Forall₂ (Transfer.Resumed size) info.all pairs

/-- The first block of the marker begins the range, or the whole range is transferred again. -/
def Transfer.Resumable : Prop :=
  transfer.marker.getFirstBlock.1 = 0 ∨
    transfer.urls.length = -1 ∧ transfer.marker.getFirstBlock.2 ≤ transfer.urls.offset

instance (transfer : Transfer) : Decidable transfer.Resumable := inferInstanceAs (Decidable (_ ∨ _ ∧ _))

/-- What is read from the line of a transfer. -/
def Transfer.entry : SrcDstPair where
  srcUrl := transfer.urls.srcUrl
  dstUrl := transfer.urls.dstUrl
  offset := if transfer.remaining.1 = -1 ∧ transfer.urls.srcInfo.elim [] UrlInfo.statstr ≠ [] then 0
    else transfer.remaining.1
  length := transfer.remaining.2
  srcInfo := none

/-! ## 2. The range of a line -/

variable {size} {transfer : Transfer}

/-- The first block, if there is one, is a part of what was requested. -/
theorem firstBlock_of_markerOf {marker : RestartMarker} {length : Int} (h : MarkerOf length marker) :
    ∃ s e, marker.getFirstBlock = (s, e) ∧ 0 ≤ s ∧ s ≤ e ∧ e ≤ max length 0 ∧ Set.Ico s e ⊆ received marker ∧
      (0 < s → 0 ∉ received marker) := by
  cases marker with
  | restartNone => exact ⟨0, 0, rfl, le_rfl, le_rfl, le_max_right _ _, by simp, by simp⟩
  | stream offset _ => exact ⟨0, offset, rfl, le_rfl, h.1, le_max_of_le_left h.2, subset_rfl, by simp⟩
  | extendedBlock ranges =>
    match ranges, h with
    | some [], _ => exact ⟨0, 0, rfl, le_rfl, le_rfl, le_max_right _ _, by simp, by simp⟩
    | some (range :: ranges), ⟨hpair, hranges⟩ =>
      obtain ⟨⟨h0, hlt, -⟩, hle⟩ := hranges range mem_cons_self
      refine ⟨_, _, rfl, h0, hlt.le, le_max_of_le_left hle, ?_, ?_⟩
      · intro b hb
        exact mem_rangesBytes.mpr ⟨range, mem_cons_self, hb⟩
      · intro hpos hmem
        obtain ⟨r, hr, hb⟩ := mem_rangesBytes.mp hmem
        have hfirst : range.offset ≤ r.offset := by
          rcases mem_cons.mp hr with rfl | hr
          · exact le_rfl
          · exact hlt.le.trans (rel_of_pairwise_cons hpair hr)
        exact absurd hb.1 (not_le.mpr (lt_of_lt_of_le hpos hfirst))

/-- The first block and the numbers of the line, with a length and without one. -/
theorem Transfer.Valid.cases (h : transfer.Valid size) :
    ∃ s e, transfer.marker.getFirstBlock = (s, e) ∧ 0 ≤ s ∧ s ≤ e ∧ Set.Ico s e ⊆ received transfer.marker ∧
      (0 < s → 0 ∉ received transfer.marker) ∧ ((0 ≤ transfer.urls.offset ∧ e ≤ transfer.urls.length ∧
        transfer.remaining = (transfer.urls.offset + e, transfer.urls.length - (e - s))) ∨
      (transfer.urls.length = -1 ∧ (0 < e → max transfer.urls.offset 0 + e ≤ size transfer.urls.srcUrl) ∧
        transfer.remaining.2 = -1 ∧ -1 ≤ transfer.remaining.1 ∧ transfer.remaining.1 ≤ offMax ∧
        max transfer.remaining.1 0 = max e transfer.urls.offset)) := by
  obtain ⟨s, e, hblock, h0, hs, he, hcovered, hfree⟩ := firstBlock_of_markerOf h.marker
  obtain ⟨hoffset, hlen, hwhole, hfits, hsize, -⟩ := h
  refine ⟨s, e, hblock, h0, hs, hcovered, hfree, ?_⟩
  unfold offMax at hfits hsize ⊢
  unfold remaining
  rw [hblock]
  dsimp only
  by_cases hgiven : transfer.urls.length > -1
  · rw [if_pos hgiven, @offSub_eq e s ⟨by omega, by omega⟩, offAdd_eq ⟨by omega, by omega⟩,
      offSub_eq ⟨by omega, by omega⟩]
    exact .inl ⟨by omega, by omega, rfl⟩
  · rw [if_neg hgiven]
    refine .inr ⟨by omega, by omega, ?_⟩
    split
    · split <;> omega
    · omega

/-- **What a line stands for is right exactly under the condition.** -/
theorem resumed_entry_iff (h : transfer.Valid size) : transfer.Resumed size transfer.entry ↔ transfer.Resumable := by
  obtain ⟨s, e, hblock, h0, hs, hcovered, hfree, hrange⟩ := h.cases
  unfold Transfer.Resumed Transfer.Resumable requested entry
  rw [hblock]
  dsimp only
  generalize transfer.urls.offset = offset at *
  generalize transfer.urls.length = length at *
  generalize transfer.remaining = remaining at *
  generalize transfer.urls.srcInfo.elim [] UrlInfo.statstr = statstr
  have hbehind : s = 0 → ∀ b, max offset 0 ≤ b → b - max offset 0 ∉ received transfer.marker → max offset 0 + e ≤ b := by
    intro hzero b hb hnot
    by_contra hlt
    exact hnot (hcovered ⟨by omega, by omega⟩)
  have hfirst : 0 < s → max offset 0 - max offset 0 ∉ received transfer.marker := by
    intro hpos
    rw [Int.sub_self]
    exact hfree hpos
  rcases hrange with ⟨hoffset, hlength, rfl⟩ | ⟨rfl, hsize, hlen, hlow, -, hmax⟩
  · constructor
    · rintro ⟨-, hneeded, -⟩
      by_contra hnot
      have hlost := (hneeded (max offset 0) ⟨le_rfl, by omega⟩ (hfirst (by omega))).1
      omega
    · rintro (rfl | ⟨hwhole, -⟩)
      · refine ⟨⟨rfl, rfl⟩, ?_, ?_⟩
        · rintro b ⟨hb, hlt⟩ hnot
          have := hbehind rfl b hb hnot
          exact ⟨by omega, by omega⟩
        · rintro b ⟨hb, hlt⟩
          exact ⟨by omega, by omega⟩
      · omega
  · have hstart : max (if remaining.1 = -1 ∧ statstr ≠ [] then 0 else remaining.1) 0 = max e offset := by
      split <;> omega
    rw [hstart, if_pos hlen, if_pos rfl]
    constructor
    · rintro ⟨-, hneeded, -⟩
      by_contra hnot
      have hlost := (hneeded (max offset 0) ⟨le_rfl, by omega⟩ (hfirst (by omega))).1
      omega
    · intro hok
      refine ⟨⟨rfl, rfl⟩, ?_, ?_⟩
      · rintro b ⟨hb, hlt⟩ hnot
        refine ⟨?_, hlt⟩
        rcases hok with hzero | ⟨-, hagain⟩
        · have := hbehind hzero b hb hnot
          omega
        · omega
      · rintro b ⟨hb, hlt⟩
        exact ⟨by omega, hlt⟩

end

/-! ## 3. Reading the lines -/

/-- A URL that is read back from its quotes. -/
def IsUrl (url : List Char) : Prop := url ≠ [] ∧ url.length < 512 ∧ '"' ∉ url ∧ '\n' ∉ url

instance (url : List Char) : Decidable (IsUrl url) := inferInstanceAs (Decidable (_ ∧ _ ∧ _ ∧ _))

/-- The line can be read back. -/
structure Transfer.Printable (transfer : Transfer) : Prop where
  src : IsUrl transfer.urls.srcUrl
  dst : IsUrl transfer.urls.dstUrl
  statstr : '\n' ∉ transfer.urls.srcInfo.elim [] UrlInfo.statstr
  line : transfer.line.length < 1024
  -- the two standard streams cannot be used together
  stdio : ¬ (transfer.urls.srcUrl = ['-'] ∧ transfer.urls.dstUrl = ['-'])

theorem parseUrl_quoted {url : List Char} (h : IsUrl url) (t : List Char) :
    parseUrl ('"' :: url ++ '"' :: t) = some (url, t) := by
  obtain ⟨hne, hlen, hquote, -⟩ := h
  have hall : ∀ c ∈ url, decide (c ≠ '"') = true := fun c hc => decide_eq_true fun heq => hquote (heq ▸ hc)
  have htake : (url ++ '"' :: t).takeWhile (· ≠ '"') = url := by
    rw [takeWhile_append_of_pos hall, takeWhile_cons_of_neg (by decide), append_nil]
  have hdrop : ('"' :: url ++ '"' :: t).drop (2 + url.length) = t := by
    rw [Nat.add_comm, cons_append, drop_succ_cons, drop_append]
    simp
  unfold parseUrl
  rw [show ('"' :: url ++ '"' :: t).head? = some '"' from rfl, if_pos rfl,
    show ('"' :: url ++ '"' :: t).tail = url ++ '"' :: t from rfl, htake]
  dsimp only
  rw [if_neg (by simp [hne, hlen]), hdrop]

theorem parseLine_quoted {srcUrl dstUrl : List Char} (hsrc : IsUrl srcUrl) (hdst : IsUrl dstUrl)
    (offset length : Int) (t : List Char) :
    parseLine offset length ('"' :: srcUrl ++ '"' :: ' ' :: '"' :: dstUrl ++ '"' :: t) =
      (parseNumbers offset length (t.dropWhile isSpace)).map fun n => some ⟨srcUrl, dstUrl, n.1, n.2, none⟩ := by
  have hfirst : ∀ s, ('"' :: s).dropWhile isSpace = '"' :: s := fun s => dropWhile_cons_of_neg (by decide)
  have hsecond : (' ' :: ('"' :: dstUrl ++ '"' :: t)).dropWhile isSpace = '"' :: dstUrl ++ '"' :: t := by
    rw [dropWhile_cons_of_pos rfl]
    exact hfirst _
  have htext : '"' :: srcUrl ++ '"' :: ' ' :: '"' :: dstUrl ++ '"' :: t =
      '"' :: srcUrl ++ '"' :: ' ' :: ('"' :: dstUrl ++ '"' :: t) := append_assoc _ _ _
  unfold parseLine
  rw [htext, cons_append, hfirst, if_neg (by simp), ← cons_append, parseUrl_quoted hsrc, bind_eq_bind, bind_some]
  dsimp only
  rw [hsecond, parseUrl_quoted hdst, bind_some]
  cases parseNumbers offset length (t.dropWhile isSpace) with
  | none => rfl
  | some n => rfl

variable {n : Int} {size : List Char → Int}

/-- The first number, and the second if a comma follows. -/
theorem parseNumbers_printInt (hlo : -1 ≤ n) (hhi : n ≤ offMax) (offset length : Int) {t : List Char}
    (ht : NoDigit t) : parseNumbers offset length (printInt n ++ t) =
      let length := if t.head? = some ',' then (scanOff t.tail).elim length Prod.fst else length
      if length < -1 then none else some (n, length) := by
  have hscan : scanOff (printInt n ++ t) = some (n, t) := scanInt_printInt (by unfold offMax; omega) hhi ht
  have hne : printInt n ++ t ≠ [] := by
    intro hnil
    rw [hnil] at hscan
    cases hscan
  unfold parseNumbers
  rw [if_neg hne, hscan]
  simp [not_lt.mpr hlo]

section

variable {m : Int} (hn : -1 ≤ n) (hn' : n ≤ offMax) (hm : -1 ≤ m) (hm' : m ≤ offMax)

include hn hn' hm hm'

theorem parseNumbers_pair (offset length : Int) (t : List Char) :
    parseNumbers offset length (printInt n ++ ',' :: (printInt m ++ ' ' :: t)) = some (n, m) := by
  have hscan : scanOff (printInt m ++ ' ' :: t) = some (m, ' ' :: t) :=
    scanInt_printInt (by unfold offMax; omega) hm' (noDigit_cons.mpr (by decide))
  rw [parseNumbers_printInt hn hn' _ _ (noDigit_cons.mpr (by decide))]
  simp [hscan, not_lt.mpr hm]

/-- The numbers are read back, but for a source whose facts are known -1 stands as 0. -/
theorem parseNumbers_printNumbers (hwhole : n = -1 → m = -1) (statstr : List Char) :
    parseNumbers (-1) (-1) ((printNumbers n m statstr ++ ['\n']).dropWhile isSpace) =
      some (if n = -1 ∧ statstr ≠ [] then 0 else n, m) := by
  have hskip : ∀ (k : Int) (t : List Char), (' ' :: (printInt k ++ t)).dropWhile isSpace = printInt k ++ t := by
    intro k t
    rw [dropWhile_cons_of_pos rfl, dropWhile_noSpace (noSpace_printInt _ _)]
  unfold printNumbers
  split
  · rw [if_neg (by omega), append_assoc, append_assoc, cons_append, cons_append, hskip]
    exact parseNumbers_pair hn hn' hm hm' _ _ _
  · have hlast : m = -1 := by omega
    split
    · rw [if_neg (by omega), hlast, append_assoc, cons_append, hskip, cons_append,
        parseNumbers_printInt hn hn' _ _ (noDigit_cons.mpr (by decide))]
      rfl
    · have hfirst : n = -1 := by omega
      split
      next hstat =>
        rw [if_pos ⟨hfirst, hstat⟩, hlast]
        exact @parseNumbers_pair 0 (-1) (by decide) (by decide) (by decide) (by decide) _ _ (statstr ++ ['\n'])
      next hstat =>
        rw [if_neg (fun h => hstat h.2), hfirst, hlast]
        rfl

end

/-- **The line of a transfer is read back.** -/
theorem parseLine_line {transfer : Transfer} (hvalid : transfer.Valid size)
    (h : transfer.Printable) : parseLine (-1) (-1) transfer.line = some (some transfer.entry) := by
  obtain ⟨s, e, -, h0, hs, -, -, hrange⟩ := hvalid.cases
  have hfits := hvalid.fits
  have hnumbers : -1 ≤ transfer.remaining.1 ∧ transfer.remaining.1 ≤ offMax ∧ -1 ≤ transfer.remaining.2 ∧
      transfer.remaining.2 ≤ offMax ∧ (transfer.remaining.1 = -1 → transfer.remaining.2 = -1) := by
    rcases hrange with ⟨hoffset, hlength, hrem⟩ | ⟨-, -, hlen, hlow, hhigh, -⟩
    · rw [hrem]
      omega
    · omega
  obtain ⟨hn, hn', hm, hm', hwhole⟩ := hnumbers
  rw [Transfer.line, printUrlLine, append_assoc]
  refine (parseLine_quoted h.src h.dst _ _ _).trans ?_
  exact congrArg (Option.map _) (parseNumbers_printNumbers hn hn' hm hm' hwhole _)

theorem fgets_line {transfer : Transfer} (h : transfer.Printable) (rest : List Char) :
    fgets () 1024 (transfer.line ++ rest) = .ok (transfer.line, rest) := by
  obtain ⟨⟨-, -, -, hsrc⟩, ⟨-, -, -, hdst⟩, hstat, hlength, -⟩ := h
  have hnumber : ∀ n, '\n' ∉ printInt n := fun n => not_mem_printInt (by decide) (by decide)
  have hnumbers : '\n' ∉ printNumbers transfer.remaining.1 transfer.remaining.2
      (transfer.urls.srcInfo.elim [] UrlInfo.statstr) := by
    unfold printNumbers
    split_ifs <;> simp [hnumber, hstat]
  have hline : ∃ line, transfer.line = line ++ ['\n'] ∧ '\n' ∉ line := ⟨_, rfl, by simp [hsrc, hdst, hnumbers]⟩
  obtain ⟨line, hline, hnew⟩ := hline
  rw [hline, length_append] at hlength
  rw [hline, append_assoc]
  exact fgets_of_length_lt hnew hlength

/-- The lines are read one after the other. -/
theorem parseLoop_lines {transfers : List Transfer} (hvalid : ∀ t ∈ transfers, t.Valid size)
    (hprint : ∀ t ∈ transfers, t.Printable) {n : Nat} (hn : (transfers.flatMap Transfer.line).length ≤ n)
    {stdinUsed : Bool} (hstdin : stdinUsed.toNat + transfers.countP (·.urls.srcUrl = ['-']) ≤ 1) :
    parseLoop (-1) (-1) n stdinUsed (transfers.flatMap Transfer.line) = some (transfers.map entry) := by
  induction transfers generalizing n stdinUsed with
  | nil => cases n <;> rfl
  | cons transfer transfers ih =>
    obtain ⟨hvalid, hvalids⟩ := forall_mem_cons.mp hvalid
    obtain ⟨hprint, hprints⟩ := forall_mem_cons.mp hprint
    have hpos : 0 < transfer.line.length := by simp [Transfer.line, printUrlLine]
    rw [countP_cons] at hstdin
    rw [flatMap_cons, length_append] at hn
    cases n with
    | zero => omega
    | succ n =>
      have huse : ¬ (transfer.urls.srcUrl = ['-'] ∧ (transfer.urls.dstUrl = ['-'] ∨ stdinUsed)) := by
        rintro ⟨hsrc, hdst | rfl⟩
        · exact hprint.stdio ⟨hsrc, hdst⟩
        · rw [if_pos (decide_eq_true hsrc), Bool.toNat_true] at hstdin
          omega
      have hstdins : (stdinUsed || decide (transfer.urls.srcUrl = ['-'])).toNat +
          transfers.countP (·.urls.srcUrl = ['-']) ≤ 1 := by
        by_cases hsrc : transfer.urls.srcUrl = ['-']
        · rw [if_pos (decide_eq_true hsrc)] at hstdin
          rw [decide_eq_true hsrc, Bool.or_true, Bool.toNat_true]
          omega
        · rw [if_neg (by simp [hsrc])] at hstdin
          rwa [decide_eq_false hsrc, Bool.or_false]
      rw [flatMap_cons, parseLoop, fgets_line hprint]
      dsimp only
      rw [parseLine_line hvalid hprint]
      dsimp only [entry]
      rw [if_neg huse, ih hvalids hprints (by omega) hstdins]
      rfl

/-! ## 4. Resuming -/

theorem SrcDstPair.remaining_eq {pair : SrcDstPair} (h : Transfer.Valid size ⟨pair, .restartNone⟩) :
    remaining ⟨pair, .restartNone⟩ = (pair.offset, pair.length) := by
  obtain ⟨hoffset, hlength, hwhole, hfits, -, -⟩ := h
  dsimp only [offMax, remaining, RestartMarker.getFirstBlock] at *
  rw [@offSub_eq 0 0 (by decide), offSub_eq ⟨by omega, by omega⟩, offAdd_eq ⟨by omega, by omega⟩]
  split_ifs <;> simp <;> omega

/-- A pending pair is written like a transfer that has received nothing. -/
theorem SrcDstPair.line_eq {pair : SrcDstPair} (h : Transfer.Valid size ⟨pair, .restartNone⟩) :
    pair.line = Transfer.line ⟨pair, .restartNone⟩ := by
  rw [SrcDstPair.line, Transfer.line, remaining_eq h]

theorem flatMap_line_eq {pairs : List SrcDstPair} (h : ∀ pair ∈ pairs, Transfer.Valid size ⟨pair, .restartNone⟩) :
    pairs.flatMap SrcDstPair.line = (pairs.map (⟨·, .restartNone⟩)).flatMap Transfer.line := by
  rw [flatMap_map]
  exact flatMap_congr fun pair hpair => line_eq (h pair hpair)

theorem dumpUrls_eq {info : GucInfo} (h : ∀ transfer ∈ info.all, transfer.Valid size) :
    dumpUrls info = info.all.flatMap Transfer.line := by
  have hpending := flatMap_line_eq fun pair hpair => h _ (mem_append_right _ (mem_map_of_mem hpair))
  rw [dumpUrls, append_assoc, ← flatMap_append, hpending, ← flatMap_append]
  rfl

/-- Parallel streams have brought bytes 0 to 9 and 20 to 29 of a range. -/
def underWay : GucInfo where
  currentTransfers := [⟨⟨"ftp://a/f".toList, "file:/f".toList, 100, 50, none⟩, .extendedBlock (some [⟨0, 10⟩, ⟨20, 30⟩])⟩]
  expandedUrlList := []
  userUrlList := [⟨"ftp://a/g".toList, "file:/g".toList, -1, -1, none⟩]

/-- Bytes 5 to 9 of a file of 20 bytes came first, and the others are still on their way. -/
def outOfOrder : GucInfo where
  currentTransfers := [⟨⟨"ftp://a/f".toList, "file:/f".toList, -1, -1, none⟩, .extendedBlock (some [⟨5, 10⟩])⟩]
  expandedUrlList := []
  userUrlList := []

/-- The same URLs and bytes; no range is the same as `0,-1`. -/
def SrcDstPair.Same (pair entry : SrcDstPair) : Prop :=
  entry.srcUrl = pair.srcUrl ∧ entry.dstUrl = pair.dstUrl ∧ max entry.offset 0 = max pair.offset 0 ∧
    entry.length = pair.length

/-- The pairs are read back from the file that is printed. -/
def RoundTrips (pairs : List SrcDstPair) : Prop :=
  ∃ entries, parseFile (-1) (-1) (pairs.flatMap SrcDstPair.line) = some entries ∧ Forall₂ SrcDstPair.Same pairs entries

end Gct.UrlCopy
