/-
# Which chunk lines are rejected

The line of a chunk should begin with hexadecimal digits, and only blanks or an extension may follow
them; behind the data of a chunk there should be a CR LF.  The parser takes the size with `strtoul` and
does not look where the number ended.  So it rejects a line only if the number it finds at its beginning is
too large (`parseChunkHeader_error_iff`): an empty line, a word or `-0` are a last chunk, and `+5`, `0x5`
or `5garbage` a chunk of five bytes.  Data that no CR LF follows are always rejected.

A CR that stands alone is another matter: behind a second one in a line the search for the end of the line
goes on at the wrong place.
-/
import Gct.Http.Framing
import Gct.Lib.Lines

namespace Gct.Http

open CText Lines List

/-! ## 1. What should be rejected -/

/-- Digits whose value fits, and behind them blanks or an extension. -/
def IsSizeLine (line : List Char) : Prop :=
  line.takeWhile isHexDigit ≠ [] ∧ hexValue (line.takeWhile isHexDigit) ≤ uintMax ∧
    ∀ c ∈ ((line.dropWhile isHexDigit).dropWhile (· ∈ [' ', '\t'])).head?, c = ';'

instance : DecidablePred IsSizeLine := fun _ => inferInstanceAs (Decidable (_ ∧ _ ∧ _))

variable (handle : Handle)

/-- A whole line is there, and the size of a chunk is expected in it. -/
def Handle.Presents (line : List Char) : Prop :=
  NoCrlf line ∧ ∃ rest,
    (handle.parseState = .chunkLine ∧ handle.readBuffer.valid = line ++ crlf ++ rest)
    ∨ (handle.parseState = .chunkCrlf ∧ handle.readBuffer.valid = crlf ++ (line ++ crlf ++ rest))

/-- Lines that are no size lines are rejected, and data that no CR LF follows. -/
structure Handle.Rejects : Prop where
  sizes : ∀ line, handle.Presents line → ¬ IsSizeLine line → (parseChunkHeader handle).2 = .errorParse
  data : handle.parseState = .chunkCrlf → ∀ line rest, NoCrlf line → line ≠ [] →
    handle.readBuffer.valid = line ++ crlf ++ rest → (parseChunkHeader handle).2 = .errorParse

/-- Every CR but the last character is followed by an LF. -/
def NoLoneCr (text : List Char) : Prop :=
  ∀ i < text.length, text[i]? = some '\r' → i + 1 = text.length ∨ text[i + 1]? = some '\n'

/-! ## 2. What is rejected -/

theorem parseChunkLine_error_iff (eol : Nat) : (parseChunkLine handle eol).2 = .errorParse ↔
      ∀ size ∈ strtoulHex (handle.readBuffer.valid.take eol), uintMax < size := by
  have hfooters : ∀ handle, (parseFooters handle).2 ≠ .errorParse := by
    intro handle
    unfold parseFooters
    split <;> simp
  unfold parseChunkLine
  cases strtoulHex (handle.readBuffer.valid.take eol) with
  | none => simp
  | some size =>
    simp only [Option.mem_some_iff, forall_eq']
    split
    next hlarge => simpa using hlarge
    next hsmall =>
      refine iff_of_false ?_ hsmall
      split
      · simp
      · exact hfooters _

variable {handle : Handle} {line rest front : List Char}

/-- In a line of such a text there is no CR at all. -/
theorem NoLoneCr.notMem (h : NoLoneCr (front ++ (line ++ crlf ++ rest))) (hline : NoCrlf line) : '\r' ∉ line := by
  intro hmem
  obtain ⟨before, after, rfl⟩ := append_of_mem hmem
  have htext : front ++ ((before ++ '\r' :: after) ++ crlf ++ rest) =
      (front ++ before) ++ '\r' :: (after ++ crlf ++ rest) := by simp
  rw [htext] at h
  have hnext := (h (front ++ before).length (by simp) (by simp)).resolve_left (by
    simp only [length_append, length_cons, crlf]
    omega)
  rw [getElem?_append_right (Nat.le_add_right _ 1), Nat.add_sub_cancel_left, getElem?_cons_succ] at hnext
  cases after with
  | nil => simp [crlf] at hnext
  | cons c after =>
    have hlf : c = '\n' := by simpa [crlf] using hnext
    exact (noCrlf_cons.mp (noCrlf_append.mp hline).2.1).1 ⟨rfl, by rw [hlf]; rfl⟩

/-- **A line is rejected just if the number at its beginning is too large.** -/
theorem parseChunkHeader_error_iff (hcr : NoLoneCr handle.readBuffer.valid) (h : handle.Presents line) :
    (parseChunkHeader handle).2 = .errorParse ↔ ∀ size ∈ strtoulHex line, uintMax < size := by
  obtain ⟨hline, rest, ⟨hstate, hvalid⟩ | ⟨hstate, hvalid⟩⟩ := h
  · rw [hvalid] at hcr
    have heol := findEol_line (@NoLoneCr.notMem line rest [] hcr hline) rest
    rw [parseChunkHeader, hvalid, heol, hstate]
    rw [parseChunkLine_error_iff, hvalid, append_assoc, take_left]
  · rw [hvalid] at hcr
    have heol := findEol_line (hcr.notMem hline) rest
    have hfirst : findEol (crlf ++ (line ++ crlf ++ rest)) = some 0 := findEol_line not_mem_nil _
    have hdrop : (handle.readBuffer.consume 2).valid = line ++ crlf ++ rest := by
      rw [ReadBuffer.valid_consume, hvalid]
      rfl
    rw [parseChunkHeader, hvalid, hfirst, hstate]
    dsimp only
    rw [parseChunkCrlf, if_neg (by simp)]
    dsimp only
    rw [hdrop, heol]
    rw [parseChunkLine_error_iff, hdrop, append_assoc, take_left]

theorem parseChunkHeader_data (hcr : NoLoneCr handle.readBuffer.valid) (hstate : handle.parseState = .chunkCrlf)
    (hline : NoCrlf line) (hne : line ≠ []) (hvalid : handle.readBuffer.valid = line ++ crlf ++ rest) :
    (parseChunkHeader handle).2 = .errorParse := by
  rw [hvalid] at hcr
  have heol := findEol_line (@NoLoneCr.notMem line rest [] hcr hline) rest
  rw [parseChunkHeader, hvalid, heol, hstate]
  dsimp only
  rw [parseChunkCrlf, if_pos (length_pos_of_ne_nil hne).ne']

theorem chunkSize_pos : 0 < chunkSize := by decide

/-- The driver waits for the line of a chunk, and this has arrived. -/
def withLine (text : List Char) (h : text.length ≤ chunkSize) : Handle where
  transferEncoding := .chunked
  contentLength := none
  parseState := .chunkLine
  readBuffer := ⟨text, chunkSize, h, chunkSize_pos⟩
  readChunkLeft := 0

end Gct.Http
