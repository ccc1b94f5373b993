/-
# The framing of a chunked body

A chunked body is a sequence of chunks, each with a line that gives its size, then a chunk of size zero,
the footers and an empty line.  `At` says where in the body the driver is: what the parser is waiting for,
which bytes are to come, and which of them are content.

The driver may see any part of a line.  It takes a line only when all of it is there (`findEol_cases`), so
`parseChunkHeader` moves from one place of the body to another, consumes no content, and reports the end
of the file at the end of the footers only (`At.parseChunkHeader`).
-/
import Gct.Http.FindEol

namespace Gct.Http

open Scatter CText List ReadBuffer

/-! ## 1. Bodies as they are sent -/

def crlf : List Char := ['\r', '\n']

/-- The line of a chunk: the digits of the size, and extensions that a semicolon or white space sets off. -/
structure ChunkLine where
  digits : List Char
  extension : List Char
  digits_ne : digits ≠ []
  hex : ∀ c ∈ digits, isHexDigit c = true
  separated : ∀ c ∈ extension.head?, c = ';' ∨ c = ' ' ∨ c = '\t'
  noCr : '\r' ∉ extension

def ChunkLine.size (line : ChunkLine) : Nat := hexValue line.digits

def ChunkLine.text (line : ChunkLine) : List Char := line.digits ++ line.extension

structure Chunk where
  line : ChunkLine
  data : List Char
  size_eq : line.size = data.length
  pos : data ≠ []

def Chunk.encode (chunk : Chunk) : List Char := chunk.line.text ++ crlf ++ (chunk.data ++ crlf)

structure Footer where
  text : List Char
  text_ne : text ≠ []
  noCr : '\r' ∉ text

def encodeFooters (footers : List Footer) : List Char :=
  footers.flatMap (fun footer => footer.text ++ crlf) ++ crlf

/-- The chunk of size zero with everything behind it. -/
structure LastChunk where
  line : ChunkLine
  size_eq : line.size = 0
  footers : List Footer

def LastChunk.encode (last : LastChunk) : List Char := last.line.text ++ crlf ++ encodeFooters last.footers

/-- What is still sent when the next thing is a line of a chunk; `rest` comes after the body. -/
def encodeChunks (last : LastChunk) (rest : List Char) : List Chunk → List Char
  | [] => last.encode ++ rest
  | chunk :: chunks => chunk.encode ++ encodeChunks last rest chunks

def content (chunks : List Chunk) : List Char := chunks.flatMap Chunk.data

/-- The driver keeps the size of a chunk in an `unsigned int`. -/
def Small (chunks : List Chunk) : Prop := ∀ chunk ∈ chunks, chunk.line.size ≤ uintMax

theorem small_cons {chunk : Chunk} {chunks : List Chunk} :
    Small (chunk :: chunks) ↔ chunk.line.size ≤ uintMax ∧ Small chunks := by
  simp [Small]

/-! ## 2. Lines -/

variable {line stream rest : List Char} {handle : Handle} {clean : Prop} (state : ParseState)

theorem noCr_append (h : '\r' ∉ line) (r : List Char) : ∀ i < line.length, (line ++ r)[i]? ≠ some '\r' := by
  intro i hi hcr
  rw [getElem?_append_left hi] at hcr
  exact h (mem_of_getElem? hcr)

theorem findEol_line (h : '\r' ∉ line) (r : List Char) : findEol (line ++ crlf ++ r) = some line.length := by
  rw [append_assoc]
  exact (findEol_of_noCr (noCr_append h _)).1 ⟨by simp [crlf], by simp [crlf]⟩

theorem findEol_noCr {blob : List Char} (h : '\r' ∉ blob) : findEol blob = none :=
  (findEol_of_noCr fun _ _ hcr => h (mem_of_getElem? hcr)).2 (Nat.le_succ _)

/-- A line of which all but the line feed is there is not complete. -/
theorem findEol_cr (h : '\r' ∉ line) : findEol (line ++ ['\r']) = none :=
  (findEol_of_noCr (noCr_append h _)).2 (by simp)

/-- **The bytes of the residue hold the next line, or they end inside it.** -/
theorem findEol_cases {blob tail : List Char} (h : blob ++ stream = line ++ crlf ++ tail) (hline : '\r' ∉ line) :
    (findEol blob = none ∧ stream ≠ []) ∨
      ∃ r, blob = line ++ crlf ++ r ∧ findEol blob = some line.length ∧ r ++ stream = tail := by
  rcases append_eq_append_iff.mp h with ⟨rest, hrest, hstream⟩ | ⟨r, hblob, htail⟩
  · rcases eq_nil_or_concat rest with rfl | ⟨front, c, rfl⟩
    · refine .inr ⟨[], ?_, ?_, ?_⟩
      · rw [append_nil] at hrest ⊢
        exact hrest.symm
      · rw [append_nil] at hrest
        rw [← hrest, ← append_nil (line ++ crlf), findEol_line hline]
      · exact hstream
    · -- the line feed, at least, is still to come
      refine .inl ⟨?_, by simp [hstream]⟩
      have hcut : line ++ ['\r'] = blob ++ front := by
        have hconcat : (line ++ ['\r']).concat '\n' = (blob ++ front).concat c := by
          simpa [crlf] using hrest
        exact (concat_inj.mp hconcat).1
      rcases eq_nil_or_concat front with rfl | ⟨front, d, rfl⟩
      · rw [append_nil] at hcut
        rw [← hcut]
        exact findEol_cr hline
      · have hpre : line = blob ++ front := by
          have hconcat : line.concat '\r' = (blob ++ front).concat d := by simpa using hcut
          exact (concat_inj.mp hconcat).1
        refine findEol_noCr fun hmem => hline ?_
        rw [hpre]
        exact mem_append_left _ hmem
  · refine .inr ⟨r, hblob, ?_, htail.symm⟩
    rw [hblob]
    exact findEol_line hline r

/-! ## 3. The lines of a body -/

theorem ChunkLine.noCr_text (line : ChunkLine) : '\r' ∉ line.text := by
  rw [ChunkLine.text, mem_append, not_or]
  refine ⟨fun h => ?_, line.noCr⟩
  exact absurd (line.hex _ h) (by decide)

theorem ChunkLine.strtoulHex_text (line : ChunkLine) (h : line.size ≤ uintMax) :
    strtoulHex line.text = some line.size := by
  refine strtoulHex_digits line.digits_ne line.hex ?_ (lt_of_le_of_lt h (by decide))
  intro c hc
  rcases line.separated c hc with rfl | rfl | rfl <;> decide

/-! ## 4. Where the driver is -/

/-- The driver is at a place of a body that is followed by `rest`: the state of the handle, the bytes
that are to come (those of the residue first), and the content among them.  `clean` says that nothing of
a body with a content-length came with the headers. -/
inductive At (rest : List Char) (clean : Prop) : Handle → List Char → List Char → Prop
  | line {handle : Handle} {last : LastChunk} {chunks : List Chunk} (hte : handle.transferEncoding = .chunked)
      (hlength : handle.contentLength = none) (hstate : handle.parseState = .chunkLine)
      (hleft : 0 ≤ handle.readChunkLeft) (hsmall : Small chunks) :
      At rest clean handle (encodeChunks last rest chunks) (content chunks)
  | body {handle : Handle} {last : LastChunk} {chunks : List Chunk} {data : List Char}
      (hte : handle.transferEncoding = .chunked) (hlength : handle.contentLength = none)
      (hstate : handle.parseState = .chunkBody) (hleft : handle.readChunkLeft = data.length) (hpos : data ≠ [])
      (hmax : data.length ≤ uintMax) (hsmall : Small chunks) :
      At rest clean handle (data ++ (crlf ++ encodeChunks last rest chunks)) (data ++ content chunks)
  | crlf {handle : Handle} {last : LastChunk} {chunks : List Chunk} (hte : handle.transferEncoding = .chunked)
      (hlength : handle.contentLength = none) (hstate : handle.parseState = .chunkCrlf)
      (hleft : handle.readChunkLeft = 0) (hsmall : Small chunks) :
      At rest clean handle (crlf ++ encodeChunks last rest chunks) (content chunks)
  | footers {handle : Handle} {footers : List Footer} (hte : handle.transferEncoding = .chunked)
      (hlength : handle.contentLength = none) (hstate : handle.parseState = .chunkFooters)
      (hleft : handle.readChunkLeft = 0) :
      At rest clean handle (encodeFooters footers ++ rest) []
  | eof {handle : Handle} (hte : handle.transferEncoding = .chunked) (hlength : handle.contentLength = none)
      (hstate : handle.parseState = .eof) (hleft : handle.readChunkLeft = 0) :
      At rest clean handle rest []
  | identity {handle : Handle} {data : List Char} (hte : handle.transferEncoding = .identity)
      (hlength : handle.contentLength = some (data.length : Int)) (hstate : handle.parseState = .identityBody)
      (hclean : clean → handle.readBuffer.valid = [] ∧ handle.readChunkLeft = 0) :
      At rest clean handle (data ++ rest) data
  | identityEof {handle : Handle} (hte : handle.transferEncoding = .identity)
      (hlength : handle.contentLength = some 0) (hstate : handle.parseState = .eof)
      (hclean : clean → handle.readBuffer.valid = [] ∧ handle.readChunkLeft = 0) :
      At rest clean handle rest []

/-- The parser waits for a line. -/
def ParseState.inFraming : Prop :=
  state = .chunkCrlf ∨ state = .chunkLine ∨ state = .chunkFooters

/-- The parser waits for content. -/
def ParseState.inContent : Prop := state = .chunkBody ∨ state = .identityBody

/-- The residue holds what is left of the chunk, with the framing that comes before it. -/
def ChunkBuffered (chunkLeft : Int) (valid : List Char) (left : Nat) : Prop :=
  0 < left ∧
  match state with
  | .chunkBody => chunkLeft = left ∧ left ≤ valid.length
  | .chunkLine => ∃ line : ChunkLine, ∃ r, line.size = left ∧ valid = line.text ++ crlf ++ r ∧ left ≤ r.length
  | .chunkCrlf =>
    ∃ line : ChunkLine, ∃ r, line.size = left ∧ valid = crlf ++ (line.text ++ crlf ++ r) ∧ left ≤ r.length
  | _ => False

/-! ## 5. Parsing the framing -/

/-- What is known of the handle when a part of the framing has been parsed: the driver is at a place of
the same content, and a chunk that is now in the residue was there before. -/
structure Parses (rest : List Char) (clean : Prop) (handle : Handle) (stream content : List Char)
    (parsed : Handle × Parsed) : Prop where
  place : At rest clean parsed.1 (parsed.1.readBuffer.valid ++ stream) content
  done : parsed.2 = .done → parsed.1.parseState = .chunkBody
  more : parsed.2 = .more → parsed.1.parseState.inFraming ∧ stream ≠ []
  eof : parsed.2 = .eof → parsed.1.parseState = .eof
  noError : parsed.2 ≠ .errorParse
  buffered : ∀ left, ChunkBuffered parsed.1.parseState parsed.1.readChunkLeft parsed.1.readBuffer.valid left →
    parsed.1.parseState = .chunkBody →
    ChunkBuffered handle.parseState handle.readChunkLeft handle.readBuffer.valid left

theorem skipFooters_cases {buffer : ReadBuffer} {footers : List Footer} {fuel : Nat}
    (h : buffer.valid ++ stream = encodeFooters footers ++ rest) (hfuel : buffer.valid.length < fuel) :
    (∃ buffer', ∃ footers' : List Footer, skipFooters fuel buffer = (buffer', false) ∧ stream ≠ [] ∧
        buffer'.valid ++ stream = encodeFooters footers' ++ rest) ∨
      ∃ buffer', skipFooters fuel buffer = (buffer', true) ∧ buffer'.valid ++ stream = rest := by
  induction fuel generalizing buffer footers with
  | zero => exact absurd hfuel (Nat.not_lt_zero _)
  | succ fuel ih =>
    cases footers with
    | nil =>
      have htext : buffer.valid ++ stream = [] ++ crlf ++ rest := h
      rcases findEol_cases htext (by simp) with ⟨hnone, hstream⟩ | ⟨r, hvalid, heol, htail⟩
      · exact .inl ⟨buffer, [], by rw [skipFooters, hnone], hstream, h⟩
      · refine .inr ⟨buffer.consume 2, by rw [skipFooters, heol]; rfl, ?_⟩
        rw [valid_consume, hvalid]
        exact htail
    | cons footer footers =>
      have htext : buffer.valid ++ stream = footer.text ++ crlf ++ (encodeFooters footers ++ rest) := by
        rw [h]
        simp [encodeFooters]
      rcases findEol_cases htext footer.noCr with ⟨hnone, hstream⟩ | ⟨r, hvalid, heol, htail⟩
      · exact .inl ⟨buffer, footer :: footers, by rw [skipFooters, hnone], hstream, h⟩
      · have hdrop : (buffer.consume (footer.text.length + 2)).valid = r := by
          rw [valid_consume, hvalid]
          exact drop_left' (by simp [crlf])
        have hshort : (buffer.consume (footer.text.length + 2)).valid.length < fuel := by
          rw [hdrop]
          have hlen := congrArg length hvalid
          simp only [length_append, crlf, length_cons, length_nil] at hlen
          omega
        have hstep : skipFooters (fuel + 1) buffer = skipFooters fuel (buffer.consume (footer.text.length + 2)) := by
          rw [skipFooters, heol]
          cases hlen : footer.text.length with
          | zero => exact absurd (length_eq_zero_iff.mp hlen) footer.text_ne
          | succ n => rfl
        rw [hstep]
        exact ih (by rw [hdrop, htail]) hshort

theorem parses_parseFooters {before : Handle} {footers : List Footer} (hte : handle.transferEncoding = .chunked) (hlength : handle.contentLength = none)
    (hstate : handle.parseState = .chunkFooters) (hleft : handle.readChunkLeft = 0)
    (h : handle.readBuffer.valid ++ stream = encodeFooters footers ++ rest) :
    Parses rest clean before stream [] (parseFooters handle) := by
  unfold parseFooters
  rcases skipFooters_cases h (Nat.lt_succ_self _) with ⟨buffer, footers', hskip, hstream, htext⟩
      | ⟨buffer, hskip, htext⟩
  · rw [hskip]
    refine ⟨?_, nofun, fun _ => ⟨.inr (.inr hstate), hstream⟩, nofun, nofun, ?_⟩
    · rw [htext]
      exact .footers hte hlength hstate hleft
    · intro left _ hbody
      exact nomatch hbody.symm.trans hstate
  · rw [hskip]
    refine ⟨?_, nofun, nofun, fun _ => rfl, nofun, nofun⟩
    rw [htext]
    exact .eof hte hlength rfl hleft

/-- A line of a chunk, or the last one with the footers. -/
theorem parses_parseChunkLine {before : Handle} {last : LastChunk} {chunks : List Chunk}
    {r : List Char} {line : ChunkLine} (hte : handle.transferEncoding = .chunked)
    (hlength : handle.contentLength = none) (hsmall : Small chunks)
    (hvalid : handle.readBuffer.valid = line.text ++ crlf ++ r)
    (hnext : (chunks = [] ∧ line = last.line ∧ r ++ stream = encodeFooters last.footers ++ rest) ∨
      ∃ chunk tail, chunks = chunk :: tail ∧ line = chunk.line ∧
        r ++ stream = chunk.data ++ (crlf ++ encodeChunks last rest tail))
    (hbuffered : ∀ left, 0 < left → line.size = left → left ≤ r.length →
      ChunkBuffered before.parseState before.readChunkLeft before.readBuffer.valid left) :
    Parses rest clean before stream (content chunks) (parseChunkLine handle line.text.length) := by
  have htake : handle.readBuffer.valid.take line.text.length = line.text := by
    rw [hvalid, append_assoc, take_left]
  have hdrop : (handle.readBuffer.consume (line.text.length + 2)).valid = r := by
    rw [valid_consume, hvalid]
    exact drop_left' (by simp [crlf])
  rcases hnext with ⟨rfl, rfl, htext⟩ | ⟨chunk, tail, rfl, rfl, htext⟩
  · have hsize : strtoulHex last.line.text = some 0 := by
      rw [last.line.strtoulHex_text (by rw [last.size_eq]; exact Nat.zero_le _), last.size_eq]
    simp only [parseChunkLine, htake, hsize]
    rw [if_neg (Nat.not_lt_zero _), if_neg (by simp)]
    exact parses_parseFooters hte hlength rfl rfl ((congrArg (· ++ stream) hdrop).trans htext)
  · obtain ⟨hmax, hsmall⟩ := small_cons.mp hsmall
    have hne : chunk.line.size ≠ 0 := by
      rw [chunk.size_eq]
      exact fun h => chunk.pos (length_eq_zero_iff.mp h)
    simp only [parseChunkLine, htake, chunk.line.strtoulHex_text hmax]
    rw [if_neg (Nat.not_lt.mpr hmax), if_pos hne]
    refine ⟨?_, fun _ => rfl, nofun, nofun, nofun, ?_⟩
    · simp only [hdrop, htext]
      refine .body hte hlength rfl ?_ chunk.pos ?_ hsmall
      · exact congrArg Nat.cast chunk.size_eq
      · exact chunk.size_eq ▸ hmax
    · rintro left ⟨hpos, hleft, hle⟩ -
      rw [hdrop] at hle
      exact hbuffered left hpos (Int.ofNat_inj.mp hleft) hle

/-- The text of a body behind the next line. -/
theorem encodeChunks_line (last : LastChunk) (rest : List Char) (chunks : List Chunk) :
    ∃ (line : ChunkLine) (tail : List Char), encodeChunks last rest chunks = line.text ++ crlf ++ tail ∧
      ((chunks = [] ∧ line = last.line ∧ tail = encodeFooters last.footers ++ rest) ∨
        ∃ chunk chunks', chunks = chunk :: chunks' ∧ line = chunk.line ∧
          tail = chunk.data ++ (crlf ++ encodeChunks last rest chunks')) := by
  cases chunks with
  | nil =>
    refine ⟨last.line, encodeFooters last.footers ++ rest, ?_, .inl ⟨rfl, rfl, rfl⟩⟩
    simp [encodeChunks, LastChunk.encode]
  | cons chunk chunks =>
    refine ⟨chunk.line, _, ?_, .inr ⟨chunk, chunks, rfl, rfl, rfl⟩⟩
    simp [encodeChunks, Chunk.encode]

/-- **The framing is parsed without an error and without a byte of the content.** -/
theorem At.parseChunkHeader {text content : List Char}
    (h : At rest clean handle text content) (htext : handle.readBuffer.valid ++ stream = text)
    (hstate : handle.parseState.inFraming) : Parses rest clean handle stream content (Http.parseChunkHeader handle) := by
  have hmore (hnone : findEol handle.readBuffer.valid = none) (hstream : stream ≠ []) :
      Parses rest clean handle stream content (Http.parseChunkHeader handle) := by
    rw [Http.parseChunkHeader, hnone]
    exact ⟨htext ▸ h, nofun, fun _ => ⟨hstate, hstream⟩, nofun, nofun, fun left h _ => h⟩
  cases h with
  | @line last chunks hte hlength hline hleft hsmall =>
    obtain ⟨line, tail, hencode, hnext⟩ := encodeChunks_line last rest chunks
    rcases findEol_cases (htext.trans hencode) line.noCr_text with ⟨hnone, hstream⟩ | ⟨r, hvalid, heol, htail⟩
    · exact hmore hnone hstream
    · simp only [Http.parseChunkHeader, heol, hline]
      refine parses_parseChunkLine hte hlength hsmall hvalid (htail ▸ hnext) ?_
      intro left hpos hsize hle
      rw [hline]
      exact ⟨hpos, line, r, hsize, hvalid, hle⟩
  | @crlf last chunks hte hlength hcrlf hleft hsmall =>
    have hempty : handle.readBuffer.valid ++ stream = [] ++ Http.crlf ++ encodeChunks last rest chunks := htext
    rcases findEol_cases hempty (by simp) with ⟨hnone, hstream⟩ | ⟨r, hvalid, heol, htail⟩
    · exact hmore hnone hstream
    · have hdrop : (handle.readBuffer.consume 2).valid = r := by rw [valid_consume, hvalid]; rfl
      obtain ⟨line, tail, hencode, hnext⟩ := encodeChunks_line last rest chunks
      simp only [Http.parseChunkHeader, heol, hcrlf, parseChunkCrlf, length_nil]
      rw [if_neg (by simp)]
      simp only [hdrop]
      rcases findEol_cases (htail.trans hencode) line.noCr_text with ⟨hnone, hstream⟩ | ⟨r', hr, heol', htail'⟩
      · rw [hnone]
        refine ⟨?_, nofun, fun _ => ⟨.inr (.inl rfl), hstream⟩, nofun, nofun, nofun⟩
        simp only [hdrop, htail]
        exact .line hte hlength rfl hleft.ge hsmall
      · rw [heol']
        refine parses_parseChunkLine hte hlength hsmall (hdrop.trans hr) (htail' ▸ hnext) ?_
        intro left hpos hsize hle
        rw [hcrlf]
        refine ⟨hpos, line, r', hsize, ?_, hle⟩
        rw [hvalid, hr]
        rfl
  | @footers footers hte hlength hfooters hleft =>
    cases heol : findEol handle.readBuffer.valid with
    | none =>
      obtain ⟨line, tail, hline, hencode⟩ : ∃ line tail, '\r' ∉ line ∧
          encodeFooters footers ++ rest = line ++ Http.crlf ++ tail := by
        cases footers with
        | nil => exact ⟨[], rest, by simp, rfl⟩
        | cons footer footers =>
          exact ⟨footer.text, encodeFooters footers ++ rest, footer.noCr, by simp [encodeFooters]⟩
      rcases findEol_cases (htext.trans hencode) hline with ⟨-, hstream⟩ | ⟨r, -, hsome, -⟩
      · exact hmore heol hstream
      · exact absurd (heol.symm.trans hsome) nofun
    | some eol =>
      simp only [Http.parseChunkHeader, heol, hfooters]
      exact parses_parseFooters hte hlength hfooters hleft htext
  | body _ _ hbody | eof _ _ hbody | identity _ _ hbody | identityEof _ _ hbody =>
    rw [hbody] at hstate
    exact absurd hstate (by simp [ParseState.inFraming])

end Gct.Http
