/-
# One read of the user

Between two reads the driver is at a place of the body, and what the user has got is what comes before
that place; `Decoding` says the same of a driver with an outstanding read.  A read begins in the residue
(`decoding_advance`), and the transport goes on with it (`decoding_readCallback`).

One thing can go wrong.  If the residue holds the rest of a chunk and the read waits for more than that,
the driver copies the chunk and then hands the user's vectors to the transport as they are, because it
knows of no content that would limit them (`Overruns`).
-/
import Gct.Http.Decode

namespace Gct.Http

open Scatter CText List Connection ReadBuffer

/-! ## 1. Reads that overrun a chunk -/

/-- The residue holds the rest of the chunk, the user's buffers take it, and the read waits for more. -/
def Overruns (state : ParseState) (chunkLeft : Int) (valid : List Char) (room waitFor : Nat) : Prop :=
  ∃ left, ChunkBuffered state chunkLeft valid left ∧ left ≤ room ∧ left < waitFor

/-- A chunk has at least one byte. -/
theorem not_overruns_of_waitFor_le {state : ParseState} {chunkLeft : Int} {valid : List Char}
    {room waitFor : Nat} (h : waitFor ≤ 1) : ¬ Overruns state chunkLeft valid room waitFor := by
  rintro ⟨left, ⟨hpos, -⟩, -, hlt⟩
  omega

/-- The input makes the driver copy the residue for a read that overruns the chunk. -/
def Connection.Overruns (connection : Connection) : Input → Prop
  | .read sizes waitFor =>
    connection.reading = none ∧
      Http.Overruns connection.handle.parseState connection.handle.readChunkLeft
        connection.handle.readBuffer.valid sizes.sum waitFor
  | .arrive count =>
    ∃ op, connection.reading = some (op, some .header) ∧
      Http.Overruns connection.handle.parseState connection.handle.readChunkLeft
        (connection.handle.readBuffer.valid ++ connection.stream.take count) (room op.iov) op.waitFor

/-- No input of the run does. -/
def NeverOverruns : Connection → List Input → Prop
  | _, [] => True
  | connection, input :: inputs =>
    ¬ connection.Overruns input ∧ ∀ next, connection.step input = some next → NeverOverruns next inputs

/-! ## 2. The invariant -/

/-- What the user has been given by the reads that are over. -/
def Connection.delivered (connection : Connection) : List (Option Char) :=
  connection.finished.flatMap Finished.data

/-- An outstanding read, with what it has got from the residue: the transport reads a line of the framing,
or it reads no more than the content that is left. -/
def Outstanding (handle : Handle) (stream : List Char) :
    Option (ReadOperation × Option PassRead) → List Char → Prop
  | none, got => got = []
  | some (op, some .header), got =>
    got = [] ∧ Holds op.iov [] ∧ Open op.iov ∧ op.nbytes = 0 ∧ handle.parseState.inFraming ∧
      0 < handle.readBuffer.room ∧ stream ≠ []
  | some (op, some (.content nbytes)), got =>
    ∃ iov max, op.iov = truncate max 0 iov ∧ Holds iov got ∧ Open iov ∧ op.nbytes = got.length ∧
      handle.parseState.inContent ∧ room op.iov ≤ limit handle ∧ nbytes ≤ room op.iov ∧
      (room op.iov = 0 ∨ handle.readBuffer.valid = [])
  | some (_, none), _ => False

/-- The driver is at a place of the body, and what comes before it has been delivered or is in the
buffers of the outstanding read. -/
structure Decoding (content rest : List Char) (clean : Prop) (connection : Connection)
    (got toCome : List Char) : Prop where
  place : At rest clean connection.handle (connection.handle.readBuffer.valid ++ connection.stream) toCome
  outstanding : Outstanding connection.handle connection.stream connection.reading got
  delivered : connection.delivered ++ (got ++ toCome).map some = content.map some
  noError : ∀ f ∈ connection.finished, f.result ≠ .errorParse
  eof : ∀ f ∈ connection.finished, f.result = .eof → connection.handle.parseState = .eof

/-- A read may be answered from here: what comes before the place has been delivered, or is in its buffers. -/
structure Due (content rest : List Char) (clean : Prop) (connection : Connection) (handle : Handle)
    (got toCome : List Char) : Prop where
  place : At rest clean handle (handle.readBuffer.valid ++ connection.stream) toCome
  delivered : connection.delivered ++ (got ++ toCome).map some = content.map some
  noError : ∀ f ∈ connection.finished, f.result ≠ .errorParse

/-- The buffers of a read hold `got`. -/
structure ReadOperation.Got (op : ReadOperation) (got : List Char) : Prop where
  holds : Holds op.iov got
  nbytes : op.nbytes = got.length

/-- The read asks for more than the chunk that comes next. -/
abbrev ReadOperation.Overruns (op : ReadOperation) (handle : Handle) : Prop :=
  Http.Overruns handle.parseState handle.readChunkLeft handle.readBuffer.valid (room op.iov) op.waitFor

section

variable {content rest toCome got : List Char} {clean : Prop} {connection : Connection} {handle : Handle}
  {op : ReadOperation} {result : Result}

section

variable (hdue : Due content rest clean connection handle got toCome) (hgot : op.Got got)

include hdue hgot

/-- A read is over. -/
theorem decoding_finish (hresult : result ≠ .errorParse)
    (heof : ∀ f ∈ connection.finished, f.result = .eof → handle.parseState = .eof)
    (hlast : result = .eof → handle.parseState = .eof) :
    Decoding content rest clean (connection.finish handle op result) [] toCome := by
  have hmem : ∀ f ∈ (connection.finish handle op result).finished, f ∈ connection.finished ∨ f.result = result :=
    forall_mem_append.mpr ⟨fun _ => .inl, forall_mem_singleton.mpr (.inr rfl)⟩
  refine ⟨hdue.place, rfl, ?_, ?_, ?_⟩
  · have hdata : (connection.finish handle op result).delivered
        = connection.delivered ++ (memory op.iov).take op.nbytes := by
      simp [delivered, finish]
    rw [hdata, hgot.nbytes, hgot.holds.take_memory, nil_append, append_assoc, ← map_append]
    exact hdue.delivered
  · intro f hf
    rcases hmem f hf with hf | hf
    · exact hdue.noError f hf
    · rw [hf]
      exact hresult
  · intro f hf hfeof
    rcases hmem f hf with hf | hf
    · exact heof f hf hfeof
    · exact hlast (hf.symm.trans hfeof)

/-- A read is over that was not registered again. -/
theorem decoding_conclude (hwait : op.waitFor = 0 ∨ result ≠ .success) (hresult : result ≠ .errorParse)
    (heof : ∀ f ∈ connection.finished, f.result = .eof → handle.parseState = .eof)
    (hlast : result = .eof → handle.parseState = .eof) :
    Decoding content rest clean (connection.conclude (handle, op, result, none)) [] toCome := by
  have hover : (op.waitFor = 0 ∧ (none : Option PassRead) = none) ∨ result ≠ .success :=
    hwait.imp_left fun h => ⟨h, rfl⟩
  have hconclude : connection.conclude (handle, op, result, none)
      = connection.finish (synthesizeEof handle result).1 op (synthesizeEof handle result).2 := if_pos hover
  have hplace' := hdue.place.synthesizeEof result
  rw [hconclude]
  unfold synthesizeEof at hplace' ⊢
  split at hplace'
  next hend =>
    rw [if_pos hend]
    exact decoding_finish ⟨hplace', hdue.delivered, hdue.noError⟩ hgot nofun (fun _ _ _ => rfl) fun _ => rfl
  next hend =>
    rw [if_neg hend]
    exact decoding_finish hdue hgot hresult heof hlast

end

/-! ## 3. Content -/

/-- The bytes that are copied from the residue into the vectors. -/
def copyCount (handle : Handle) (iov : List (Iovec Char)) : Nat :=
  min (limit handle) (min handle.readBuffer.valid.length (room iov))

theorem copyCount_le_limit (handle : Handle) (iov : List (Iovec Char)) : copyCount handle iov ≤ limit handle :=
  Nat.min_le_left _ _

theorem copyCount_le_valid (handle : Handle) (iov : List (Iovec Char)) :
    copyCount handle iov ≤ handle.readBuffer.valid.length :=
  le_trans (Nat.min_le_right _ _) (Nat.min_le_left _ _)

theorem copyCount_le_room (handle : Handle) (iov : List (Iovec Char)) : copyCount handle iov ≤ room iov :=
  le_trans (Nat.min_le_right _ _) (Nat.min_le_right _ _)

variable {text : List Char}

section

variable (hplace : At rest clean handle text toCome)

include hplace

variable (hstate : handle.parseState.inContent)

include hstate

/-- A read that still waits has not reached the end of the content, unless it overruns a chunk. -/
theorem copyCount_lt_limit (hover : ¬ op.Overruns handle)
    (hwait : capWaitFor handle op.waitFor - copyCount handle op.iov > 0) : copyCount handle op.iov < limit handle := by
  rcases hplace.content_cases hstate with ⟨last, chunks, data, hte, hlength, hbody, hleft, hpos, -⟩
      | ⟨hte, hlength, -⟩
  · have hchunk := limit_of_chunked (hplace.settled hstate) hte
    have hdata := length_pos_iff.mpr hpos
    have hcap : capWaitFor handle op.waitFor = op.waitFor := by simp only [capWaitFor, hlength]
    refine lt_of_le_of_ne (copyCount_le_limit _ _) fun hend => hover ⟨limit handle, ⟨by omega, ?_⟩, ?_, by omega⟩
    · rw [hbody]
      exact ⟨hchunk.symm, hend ▸ copyCount_le_valid _ _⟩
    · exact hend ▸ copyCount_le_room _ _
  · have hcap : capWaitFor handle op.waitFor ≤ limit handle := by
      rw [limit_of_identity hte hlength]
      simp only [capWaitFor, hlength]
      split <;> omega
    exact lt_of_lt_of_le (Nat.lt_of_sub_pos hwait) hcap

/-- Before the end of the content the driver knows how much is left. -/
theorem maxContent_copied {n : Nat} (hn : n < limit handle) :
    (handle.copied n).parseState.inContent ∧ maxContent (handle.copied n) = limit (handle.copied n) := by
  have hsettled := hplace.settled hstate
  rcases hplace.content_cases hstate with ⟨last, chunks, data, hte, hlength, hbody, hleft, -⟩
      | ⟨hte, hlength, hidentity, -⟩
  · have hchunk := limit_of_chunked hsettled hte
    have hsmall := hsettled.small hte
    have hte' : (handle.copied n).transferEncoding = .chunked := hte
    have hstill : (handle.copied n).parseState = .chunkBody := by
      simp only [Handle.copied, hte, true_and]
      rw [Int.emod_eq_of_lt (by omega) (by omega), if_neg (by omega), hbody]
    exact ⟨.inl hstill, by simp only [maxContent, limit, hstill, hte']⟩
  · have hte' : (handle.copied n).transferEncoding = .identity := hte
    have hstill : (handle.copied n).parseState = .identityBody := by
      simp only [Handle.copied, hte, reduceCtorEq, false_and, if_false, hidentity]
    have hlength' : (handle.copied n).contentLength = some ((toCome.length : Int) - n) := by
      simp only [Handle.copied, hte, if_true, hlength, Option.map_some]
    exact ⟨.inr hstill, by simp only [maxContent, limit, hstill, hte', hlength']⟩

/-- Where content comes next, a read is over with what the residue had, or the transport goes on. -/
theorem readContent_cases (hgot : op.Got []) (hopen : Open op.iov) (hover : ¬ op.Overruns handle) :
    ∃ n op', n ≤ limit handle ∧ n ≤ handle.readBuffer.valid.length ∧
      ((readContent handle op = (handle.copied n, op', .success, none) ∧ op'.waitFor = 0 ∧
          op'.Got (handle.readBuffer.valid.take n)) ∨
        ∃ nbytes, readContent handle op = (handle.copied n, op', .success, some (.content nbytes)) ∧
          ∀ stream, Outstanding (handle.copied n) stream (some (op', some (.content nbytes)))
            (handle.readBuffer.valid.take n)) := by
  have hsettled := hplace.settled hstate
  have hlt := copyCount_lt_limit hplace hstate hover
  have hcopied : copyResidue handle op = _ := copyLoop_eq hsettled op.nbytes (capWaitFor handle op.waitFor) op.iov
  simp only [hgot.nbytes, length_nil, Nat.zero_add, ← copyCount.eq_1] at hcopied
  have hlimit := copyCount_le_limit handle op.iov
  have hvalid := copyCount_le_valid handle op.iov
  have hroom := copyCount_le_room handle op.iov
  have hends : room op.iov ≤ copyCount handle op.iov ∨ handle.readBuffer.valid.length ≤ copyCount handle op.iov ∨
      limit handle ≤ copyCount handle op.iov := by
    unfold copyCount
    omega
  generalize copyCount handle op.iov = n at hlt hcopied hlimit hvalid hroom hends
  have hlen : (handle.readBuffer.valid.take n).length = n := length_take_of_le hvalid
  have hfill : Holds (fill op.iov (handle.readBuffer.valid.take n)) (handle.readBuffer.valid.take n) :=
    hgot.holds.fill hopen (by rw [hlen]; exact hroom)
  unfold readContent
  rw [hcopied]
  by_cases hmore : (handle.copied n).parseState ≠ .eof ∧ capWaitFor handle op.waitFor - n > 0
  · have hlt := hlt hmore.2
    obtain ⟨hstate', hmax⟩ := maxContent_copied hplace hstate hlt
    have hpos : maxContent (handle.copied n) > 0 := by
      rw [hmax, (hsettled.copied hlimit).2]
      exact Nat.sub_pos_of_lt hlt
    have hfree := room_truncate (Nat.zero_le (maxContent (handle.copied n)))
      (fill op.iov (handle.readBuffer.valid.take n))
    rw [room_fill, hlen, Nat.sub_zero] at hfree
    rw [if_pos hmore]
    simp only [passContent, if_pos hpos]
    refine ⟨n, _, hlimit, hvalid, .inr ⟨_, rfl, fun stream => ?_⟩⟩
    refine ⟨_, _, rfl, hfill, hopen.fill _, hlen.symm, hstate', ?_, ?_, ?_⟩
    · rw [hfree, hmax]
      exact Nat.min_le_left _ _
    · split
      · exact le_of_lt ‹_›
      · exact le_rfl
    · -- the copying ended because the vectors are full or because the residue is empty
      have hrest : (handle.copied n).readBuffer.valid = handle.readBuffer.valid.drop n := rfl
      rcases hends with hfull | hempty | hend
      · left
        rw [hfree, Nat.sub_eq_zero_of_le hfull, Nat.min_zero]
      · right
        rw [hrest, drop_of_length_le hempty]
      · exact absurd hlt (Nat.not_lt.mpr hend)
  · rw [if_neg hmore]
    refine ⟨n, _, hlimit, hvalid, .inl ⟨rfl, ?_, hfill, hlen.symm⟩⟩
    have hstate' : (handle.copied n).parseState ≠ .eof := by
      simp only [Handle.copied]
      split
      · decide
      · rcases hstate with hstate | hstate <;> rw [hstate] <;> decide
    by_contra hwait
    exact hmore ⟨hstate', Nat.pos_of_ne_zero hwait⟩

end

section

variable (hdue : Due content rest clean connection handle [] toCome)

include hdue

/-- A read that comes to content. -/
theorem decoding_readContent (hgot : op.Got [])
    (hopen : Open op.iov) (hnoEof : ∀ f ∈ connection.finished, f.result ≠ .eof) (hover : ¬ op.Overruns handle)
    (hstate : handle.parseState.inContent) :
    ∃ got toCome, Decoding content rest clean (connection.conclude (readContent handle op)) got toCome := by
  obtain ⟨hplace, hdelivered, hnoError⟩ := hdue
  obtain ⟨n, op', hlimit, hvalid, hread⟩ := readContent_cases hplace hstate hgot hopen hover
  obtain ⟨data, tail, tail', htext, hcome, hlen⟩ := hplace.content_next hstate
  have hplace' := hplace.spend hstate hlimit (spent_copied hvalid)
  rw [drop_append_of_le_length hvalid] at hplace'
  -- the bytes that were copied are the next ones of the content
  have hfront : handle.readBuffer.valid.take n = toCome.take n := by
    have hboth := congrArg (take n) htext
    rw [take_append_of_le_length hvalid, take_append_of_le_length (hlen ▸ hlimit)] at hboth
    rw [hboth, hcome, take_append_of_le_length (hlen ▸ hlimit)]
  have hdelivered' : connection.delivered ++ (handle.readBuffer.valid.take n ++ toCome.drop n).map some
      = content.map some := by
    rw [hfront, take_append_drop]
    exact hdelivered
  rcases hread with ⟨hread, hwait, hgot'⟩ | ⟨nbytes, hread, hout⟩
  · rw [hread]
    exact ⟨_, _, decoding_conclude ⟨hplace', hdelivered', hnoError⟩ hgot' (.inl hwait) nofun
      (fun f hf h => absurd h (hnoEof f hf)) nofun⟩
  · rw [hread]
    simp only [conclude]
    rw [if_neg (by simp)]
    exact ⟨_, _, hplace', hout _, hdelivered', hnoError, fun f hf h => absurd h (hnoEof f hf)⟩

/-! ## 4. Framing -/

omit hdue in
theorem ReadBuffer.valid_clean (buffer : ReadBuffer) : buffer.clean.valid = buffer.valid := by
  unfold clean
  split_ifs <;> rfl

omit hdue in
theorem ReadBuffer.room_clean_pos (buffer : ReadBuffer) : 0 < buffer.clean.room := by
  have hpos := buffer.pos
  unfold clean room chunkSize
  split_ifs
  · omega
  · omega
  · have hfits := buffer.fits
    dsimp only
    omega

omit hdue in
/-- `At` does not look at the buffer, except that the residue of an identity body may have to be empty. -/
theorem At.setBuffer {buffer : ReadBuffer} (h : At rest clean handle text toCome)
    (hbuffer : handle.parseState.inFraming ∨ buffer.valid = handle.readBuffer.valid) :
    At rest clean { handle with readBuffer := buffer } text toCome := by
  cases h with
  | line hte hlength hstate hleft hsmall => exact .line hte hlength hstate hleft hsmall
  | body hte hlength hstate hleft hpos hmax hsmall => exact .body hte hlength hstate hleft hpos hmax hsmall
  | crlf hte hlength hstate hleft hsmall => exact .crlf hte hlength hstate hleft hsmall
  | footers hte hlength hstate hleft => exact .footers hte hlength hstate hleft
  | eof hte hlength hstate hleft => exact .eof hte hlength hstate hleft
  | identity hte hlength hstate hclean =>
    have hvalid := hbuffer.resolve_left (by simp [hstate, ParseState.inFraming])
    exact .identity hte hlength hstate fun h => ⟨hvalid.trans (hclean h).1, (hclean h).2⟩
  | identityEof hte hlength hstate hclean =>
    have hvalid := hbuffer.resolve_left (by simp [hstate, ParseState.inFraming])
    exact .identityEof hte hlength hstate fun h => ⟨hvalid.trans (hclean h).1, (hclean h).2⟩

/-- A read that comes to a line of the framing. -/
theorem decoding_readHeader (hgot : op.Got [])
    (hopen : Open op.iov) (hnoEof : ∀ f ∈ connection.finished, f.result ≠ .eof) (hover : ¬ op.Overruns handle)
    (hstate : handle.parseState.inFraming) :
    ∃ got toCome, Decoding content rest clean (connection.conclude (readHeader handle op)) got toCome := by
  obtain ⟨hplace, hdelivered, hnoError⟩ := hdue
  obtain ⟨hplace', hdone, hmore, heof, herror, hbuffered⟩ := hplace.parseChunkHeader rfl hstate
  unfold readHeader
  generalize parseChunkHeader handle = parsed at hplace' hdone hmore heof herror hbuffered
  obtain ⟨next, parsed⟩ := parsed
  cases parsed with
  | done =>
    have hbody := hdone rfl
    refine decoding_readContent ⟨hplace', hdelivered, hnoError⟩ hgot hopen hnoEof ?_ (.inl hbody)
    rintro ⟨left, hchunk, hroom, hwait⟩
    exact hover ⟨left, hbuffered left hchunk hbody, hroom, hwait⟩
  | more =>
    obtain ⟨hframing, hstream⟩ := hmore rfl
    simp only [conclude]
    rw [if_neg (by simp)]
    refine ⟨[], toCome, ?_, ⟨rfl, hgot.holds, hopen, hgot.nbytes, hframing, next.readBuffer.room_clean_pos, hstream⟩,
      hdelivered, hnoError, fun f hf h => absurd h (hnoEof f hf)⟩
    rw [valid_clean]
    exact hplace'.setBuffer (.inr next.readBuffer.valid_clean)
  | eof =>
    exact ⟨[], toCome, decoding_conclude ⟨hplace', hdelivered, hnoError⟩ hgot (.inr nofun) nofun
      (fun _ _ _ => heof rfl) fun _ => heof rfl⟩
  | errorParse => exact absurd rfl herror

/-- **A read that begins, or goes on with a line of the framing, leaves the driver at a place of the body.** -/
theorem decoding_advance (hgot : op.Got [])
    (hopen : Open op.iov) (heof : ∀ f ∈ connection.finished, f.result = .eof → handle.parseState = .eof)
    (hover : ¬ op.Overruns handle) :
    ∃ got toCome, Decoding content rest clean (connection.advance handle op) got toCome := by
  unfold advance parseResidue
  by_cases hnone : op.iov = [] ∨ handle.parseState = .eof
  · -- nothing is read
    rw [if_pos hnone]
    exact ⟨[], toCome, decoding_conclude hdue ⟨hgot.holds, hgot.nbytes⟩ (.inl rfl) nofun heof nofun⟩
  · rw [if_neg hnone]
    rw [not_or] at hnone
    have hnoEof : ∀ f ∈ connection.finished, f.result ≠ .eof := fun f hf h => hnone.2 (heof f hf h)
    have hcontent := decoding_readContent hdue hgot hopen hnoEof hover
    have hheader := decoding_readHeader hdue hgot hopen hnoEof hover
    cases hstate : handle.parseState with
    | chunkCrlf => exact hheader (.inl hstate)
    | chunkLine => exact hheader (.inr (.inl hstate))
    | chunkFooters => exact hheader (.inr (.inr hstate))
    | chunkBody => exact hcontent (.inl hstate)
    | identityBody => exact hcontent (.inr hstate)
    | eof => exact absurd hstate hnone.2

end

/-! ## 5. What the transport returns -/

variable (connection op) in
/-- A read of content takes its bytes off the counters. -/
theorem readCallback_cases (bytes : List Char) (hplace : At rest clean connection.handle text toCome)
    (hstate : connection.handle.parseState.inContent) :
    ∃ handle result, Spent bytes.length connection.handle handle ∧ handle.readBuffer = connection.handle.readBuffer ∧
      connection.readCallback op bytes =
        (connection.finish (if result = .eof then { handle with parseState := .eof } else handle)
          { op with iov := fill op.iov bytes, nbytes := bytes.length + op.nbytes } result) ∧
      (result = .success ∨ result = .eof ∧ handle.transferEncoding = .identity ∧ handle.contentLength = some 0) := by
  unfold readCallback
  rcases hplace.content_cases hstate with ⟨last, chunks, data, hte, -⟩ | ⟨hte, hlength, -⟩
  · have hspent : Spent bytes.length connection.handle
        { connection.handle with
          readChunkLeft := connection.handle.readChunkLeft - bytes.length
          parseState :=
            if ((connection.handle.readChunkLeft - bytes.length) % 2 ^ 64).toNat = 0 then .chunkCrlf
            else connection.handle.parseState } := by
      refine ⟨rfl, ?_, fun _ => rfl, ?_, fun _ h => nomatch hte.symm.trans h⟩
      · rw [if_neg (fun h => absurd (hte.symm.trans h) (by decide))]
      · simp only [hte, true_and]
    refine ⟨_, .success, hspent, rfl, ?_, .inl rfl⟩
    simp only [hte]
    rfl
  · have hspent : Spent bytes.length connection.handle
        { connection.handle with contentLength := some ((toCome.length : Int) - bytes.length) } := by
      refine ⟨rfl, ?_, fun h => (nomatch hte.symm.trans h), ?_, fun h _ => h⟩
      · rw [if_pos hte, hlength]
        rfl
      · rw [if_neg (fun h => absurd (hte.symm.trans h.1) (by decide))]
    by_cases hzero : (toCome.length : Int) - bytes.length = 0
    · refine ⟨_, .eof, hspent, rfl, ?_, .inr ⟨rfl, hte, congrArg some hzero⟩⟩
      simp only [hte, hlength, if_pos hzero]
      rfl
    · refine ⟨_, .success, hspent, rfl, ?_, .inl rfl⟩
      simp only [hte, hlength, if_neg hzero]
      rfl

/-- **A read of content is over with bytes of the content.** -/
theorem decoding_readCallback {nbytes count : Nat} (h : Decoding content rest clean connection got toCome)
    (hreading : connection.reading = some (op, some (.content nbytes))) (hroom : count ≤ room op.iov)
    (hcount : count ≤ connection.stream.length) : ∃ toCome, Decoding content rest clean
      ({ connection with stream := connection.stream.drop count }.readCallback op (connection.stream.take count))
      [] toCome := by
  obtain ⟨hplace, hout, hdelivered, hnoError, heof⟩ := h
  rw [hreading] at hout
  obtain ⟨iov, max, hiov, hholds, hopen, hnbytes, hstate, hlimit, -, hempty⟩ := hout
  have hlen : (connection.stream.take count).length = count := length_take_of_le hcount
  have hle : count ≤ limit connection.handle := le_trans hroom hlimit
  -- the bytes of the transport are the next ones, because the residue is empty or there are none
  have hnext : (connection.handle.readBuffer.valid ++ connection.stream).take count = connection.stream.take count ∧
      (connection.handle.readBuffer.valid ++ connection.stream).drop count =
        connection.handle.readBuffer.valid ++ connection.stream.drop count := by
    rcases hempty with hzero | hvalid
    · obtain rfl : count = 0 := Nat.le_zero.mp (hzero ▸ hroom)
      simp
    · simp [hvalid]
  have hspend : ∀ handle', Spent count connection.handle handle' →
      At rest clean handle' (connection.handle.readBuffer.valid ++ connection.stream.drop count) (toCome.drop count) := by
    intro handle' hspent
    rw [← hnext.2]
    exact hplace.spend hstate hle hspent
  have hfill : Holds (fill op.iov (connection.stream.take count)) (got ++ connection.stream.take count) := by
    rw [hiov] at hroom ⊢
    exact hholds.fill_truncate hopen (hlen.symm ▸ hroom)
  have hgot : connection.delivered ++ ((got ++ connection.stream.take count) ++ toCome.drop count).map some
      = content.map some := by
    obtain ⟨data, tail, tail', htext, hcome, hdata⟩ := hplace.content_next hstate
    have hfront : connection.stream.take count = toCome.take count := by
      rw [← hnext.1, htext, hcome, take_append_of_le_length (hdata ▸ hle), take_append_of_le_length (hdata ▸ hle)]
    rw [append_assoc, hfront, take_append_drop]
    exact hdelivered
  have hsum : (connection.stream.take count).length + op.nbytes = (got ++ connection.stream.take count).length := by
    rw [length_append, hnbytes, Nat.add_comm]
  have hnoEof : ∀ f ∈ connection.finished, f.result ≠ .eof := by
    intro f hf h
    have := heof f hf h
    rcases hstate with hstate | hstate <;> exact nomatch hstate.symm.trans this
  obtain ⟨handle, result, hspent, hbuffer, hcallback, hresult⟩ :=
    readCallback_cases { connection with stream := connection.stream.drop count } op
      (connection.stream.take count) hplace hstate
  rw [hlen] at hspent
  have hplace' := hspend handle hspent
  rw [← hbuffer] at hplace'
  refine ⟨toCome.drop count, ?_⟩
  rw [hcallback]
  rcases hresult with rfl | ⟨rfl, hte, hzero⟩
  · exact decoding_finish ⟨hplace', hgot, hnoError⟩ ⟨hfill, hsum⟩ nofun (fun f hf h => absurd h (hnoEof f hf)) nofun
  · exact decoding_finish ⟨hplace'.identity_over hte hzero, hgot, hnoError⟩ ⟨hfill, hsum⟩ nofun (fun _ _ _ => rfl)
      fun _ => rfl

end

end Gct.Http
