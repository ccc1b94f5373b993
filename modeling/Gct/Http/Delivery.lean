/-
# What the user gets of a body

The body comes in any pieces, and the user reads with any buffers and any number of bytes to wait for.  In
a run in which no read overruns a chunk the user gets the content, in order, and is told of the end of the
file when all of it has been delivered (`run_delivers`).  A read that overruns a chunk puts the framing
into the user's buffers (`run_delivers_framing`).
-/
import Gct.Http.Reads

namespace Gct.Http

open Scatter CText List Connection Option

section

variable {content rest toCome got : List Char} {clean : Prop} {connection : Connection}

/-! ## 1. Runs -/

theorem room_fresh (sizes : List Nat) : room (sizes.map (Iovec.fresh : Nat → Iovec Char)) = sizes.sum := by
  induction sizes with
  | nil => rfl
  | cons n sizes ih => rw [map_cons, room, ih, sum_cons]; rfl

variable (h : Decoding content rest clean connection got toCome)

include h

/-- What a step keeps. -/
theorem Decoding.step {input : Input} {next : Connection}
    (hover : ¬ connection.Overruns input) (hstep : connection.step input = some next) :
    ∃ got toCome, Decoding content rest clean next got toCome := by
  cases input with
  | read sizes waitFor =>
    obtain rfl : connection.read sizes waitFor = next := some.inj hstep
    unfold Connection.read
    cases hreading : connection.reading with
    | some _ => exact ⟨got, toCome, h⟩
    | none =>
      obtain ⟨hplace, hout, hdelivered, hnoError, heof⟩ := h
      rw [hreading] at hout
      obtain rfl : got = [] := hout
      refine decoding_advance ⟨hplace, hdelivered, hnoError⟩ ⟨holds_fresh sizes, rfl⟩ (open_fresh sizes) heof fun h => ?_
      rw [ReadOperation.Overruns, room_fresh] at h
      exact hover ⟨hreading, h⟩
  | arrive count =>
    have harrive : connection.arrive count = some next := hstep
    unfold arrive at harrive
    have hout := h.outstanding
    cases hreading : connection.reading with
    | none =>
      rw [hreading] at harrive
      exact absurd harrive nofun
    | some outstanding =>
      obtain ⟨op, _ | _ | nbytes⟩ := outstanding
      · rw [hreading] at harrive
        exact absurd harrive nofun
      · rw [hreading] at hout harrive
        dsimp only at harrive
        split at harrive
        next hcount =>
          obtain ⟨rfl, hholds, hopen, hnbytes, hframing, -, -⟩ := hout
          obtain rfl := some.inj harrive
          refine decoding_advance ⟨?_, h.delivered, h.noError⟩ ⟨hholds, hnbytes⟩ hopen h.eof fun h => hover ⟨op, hreading, h⟩
          show At rest clean _ (connection.handle.readBuffer.valid ++ connection.stream.take count ++
            connection.stream.drop count) toCome
          rw [append_assoc, take_append_drop]
          exact h.place.setBuffer (.inl hframing)
        next => exact absurd harrive nofun
      · rw [hreading] at harrive
        dsimp only at harrive
        split at harrive
        next hcount =>
          obtain rfl := some.inj harrive
          exact ⟨[], decoding_readCallback h hreading hcount.2.2 hcount.2.1⟩
        next => exact absurd harrive nofun

/-- What a run keeps. -/
theorem Decoding.run {inputs : List Input} {last : Connection} (hover : NeverOverruns connection inputs)
    (hrun : connection.run inputs = some last) : ∃ got toCome, Decoding content rest clean last got toCome := by
  induction inputs generalizing connection got toCome with
  | nil =>
    cases hrun
    exact ⟨got, toCome, h⟩
  | cons input inputs ih =>
    obtain ⟨next, hnext, hrun⟩ := bind_eq_some_iff.mp hrun
    obtain ⟨got', toCome', h'⟩ := h.step hover.1 hnext
    exact ih h' (hover.2 next hnext) hrun

/-- The user has got a part of the content from its beginning; the end of the file was reported only with all
of it delivered and nothing of the body left in the residue or on its way; and an outstanding read is one that
the transport can answer. -/
structure Connection.Delivers (connection : Connection) (content rest : List Char) : Prop where
  inOrder : connection.delivered <+: content.map some
  contentLength : ∀ left, connection.handle.contentLength = some left → 0 ≤ left
  eof : (∃ f ∈ connection.finished, f.result = .eof) →
    connection.delivered = content.map some ∧ connection.handle.parseState = .eof ∧
      connection.handle.readBuffer.valid ++ connection.stream = rest
  noError : ∀ f ∈ connection.finished, f.result ≠ .errorParse
  answered : connection.reading ≠ none → ∃ count next, connection.arrive count = some next

theorem Decoding.arrives (hreading : connection.reading ≠ none) : ∃ count next, connection.arrive count = some next := by
  have hout := h.outstanding
  unfold arrive
  cases hread : connection.reading with
  | none => exact absurd hread hreading
  | some outstanding =>
    rw [hread] at hout
    obtain ⟨op, _ | _ | nbytes⟩ := outstanding
    · exact hout.elim
    · obtain ⟨-, -, -, -, -, hroom, hstream⟩ := hout
      have hlen : 0 < connection.stream.length := length_pos_iff.mpr hstream
      have hcount : 1 ≤ 1 ∧ 1 ≤ connection.stream.length ∧
          (connection.stream.take 1).length ≤ connection.handle.readBuffer.room :=
        ⟨le_rfl, hlen, by rw [length_take_of_le hlen]; exact hroom⟩
      refine ⟨1, ?_⟩
      dsimp only
      rw [dif_pos hcount]
      exact ⟨_, rfl⟩
    · obtain ⟨iov, max, hiov, -, -, -, hstate, hlimit, hle, hempty⟩ := hout
      -- the content that the read waits for is on its way
      have hsent : nbytes ≤ connection.stream.length := by
        rcases hempty with hzero | hvalid
        · exact le_trans hle (hzero.le.trans (Nat.zero_le _))
        · obtain ⟨data, tail, tail', htext, -, hdata⟩ := h.place.content_next hstate
          rw [hvalid, nil_append] at htext
          rw [htext, length_append]
          exact le_trans hle (le_trans hlimit (hdata.le.trans (Nat.le_add_right _ _)))
      refine ⟨nbytes, ?_⟩
      dsimp only
      rw [if_pos ⟨le_rfl, hsent, hle⟩]
      exact ⟨_, rfl⟩

theorem Decoding.delivers : connection.Delivers content rest := by
  refine ⟨⟨(got ++ toCome).map some, h.delivered⟩, fun left hleft => h.place.contentLength_nonneg hleft, ?_,
    h.noError, h.arrives⟩
  rintro ⟨f, hf, hresult⟩
  have hstate := h.eof f hf hresult
  obtain ⟨htext, rfl⟩ := h.place.of_eof hstate
  have hgot : got = [] := by
    have hout := h.outstanding
    cases hreading : connection.reading with
    | none =>
      rw [hreading] at hout
      exact hout
    | some outstanding =>
      -- at the end of the file no read is outstanding
      rw [hreading] at hout
      obtain ⟨op, _ | _ | nbytes⟩ := outstanding
      · exact hout.elim
      · exact hout.1
      · obtain ⟨iov, max, -, -, -, -, hcontent, -⟩ := hout
        rw [hstate] at hcontent
        exact absurd hcontent (by simp [ParseState.inContent])
  have hdelivered := h.delivered
  rw [hgot, append_nil, map_nil, append_nil] at hdelivered
  exact ⟨hdelivered, hstate, htext⟩

end

/-! ## 2. Bodies -/

/-- A body as it is sent. -/
inductive Body
  | contentLength (data : List Char)
  | chunked (chunks : List Chunk) (last : LastChunk)

def Body.content : Body → List Char
  | .contentLength data => data
  | .chunked chunks _ => Http.content chunks

/-- The bytes of the body, with the bytes of whatever is sent after it. -/
def Body.encode (rest : List Char) : Body → List Char
  | .contentLength data => data ++ rest
  | .chunked chunks last => encodeChunks last rest chunks

def Body.transferEncoding : Body → TransferEncoding
  | .contentLength _ => .identity
  | .chunked _ _ => .chunked

/-- Every chunk has a size that an `unsigned int` holds. -/
def Body.Small : Body → Prop
  | .contentLength _ => True
  | .chunked chunks _ => Http.Small chunks

/-- The driver has read the headers, and maybe a part of the body with them. -/
def Body.start (body : Body) (buffer : ReadBuffer) (stream : List Char) : Connection where
  handle :=
    { transferEncoding := body.transferEncoding
      contentLength := match body with
        | .contentLength data => some (data.length : Int)
        | .chunked _ _ => none
      parseState := match body with
        | .contentLength _ => .identityBody
        | .chunked _ _ => .chunkLine
      readBuffer := buffer
      readChunkLeft := 0 }
  reading := none
  stream := stream
  finished := []

theorem Body.decoding_start (body : Body) {buffer : ReadBuffer} {stream rest : List Char} (hsmall : body.Small)
    (hsent : buffer.valid ++ stream = body.encode rest) :
    Decoding body.content rest (body.transferEncoding = .chunked ∨ buffer.valid = [])
      (body.start buffer stream) [] body.content := by
  refine ⟨?_, rfl, rfl, nofun, nofun⟩
  show At rest _ _ (buffer.valid ++ stream) _
  rw [hsent]
  cases body with
  | contentLength data => exact .identity rfl rfl rfl fun h => ⟨h.resolve_left nofun, rfl⟩
  | chunked chunks last => exact .line rfl rfl rfl le_rfl hsmall

/-- **In a run in which no read overruns a chunk, the user gets the content of the body, and nothing else.** -/
theorem run_delivers (body : Body) {buffer : ReadBuffer} {stream rest : List Char} (hsmall : body.Small)
    (hsent : buffer.valid ++ stream = body.encode rest) {inputs : List Input} {connection : Connection}
    (hover : NeverOverruns (body.start buffer stream) inputs)
    (hrun : (body.start buffer stream).run inputs = some connection) :
    connection.Delivers body.content rest ∧
      (body.transferEncoding = .chunked ∨ buffer.valid = [] → 0 ≤ connection.handle.readChunkLeft) := by
  obtain ⟨got, toCome, h⟩ := (body.decoding_start hsmall hsent).run hover hrun
  exact ⟨h.delivers, fun hclean => h.place.readChunkLeft_nonneg fun _ => hclean⟩

/-- A line with one digit. -/
def digitLine (c : Char) (h : isHexDigit c = true) : ChunkLine where
  digits := [c]
  extension := []
  digits_ne := by simp
  hex := by simpa using h
  separated := by simp
  noCr := by simp

/-- Two chunks, sent as `5 hello` and `5 world`. -/
def greeting : Body :=
  .chunked
    [⟨digitLine '5' (by decide), "hello".toList, by decide, by decide⟩,
      ⟨digitLine '5' (by decide), "world".toList, by decide, by decide⟩]
    ⟨digitLine '0' (by decide), by decide, []⟩

theorem greeting_small : greeting.Small := by
  simp only [greeting, Body.Small, Small, mem_cons, not_mem_nil, or_false]
  rintro chunk (rfl | rfl) <;> decide

/-- A read buffer after the headers. -/
def bufferOf (valid : List Char) (h : valid.length ≤ chunkSize) : ReadBuffer := ⟨valid, chunkSize, h, by decide⟩

theorem run_delivers_greeting : ∃ connection,
      (greeting.start (bufferOf "5\r\nhe".toList (by decide)) "llo\r\n5\r\nworld\r\n0\r\n\r\n".toList).run
          [.read [4] 1, .read [4] 1, .arrive 3] = some connection ∧
        connection.delivered = "hello".toList.map some ∧
        connection.Delivers greeting.content [] ∧ 0 ≤ connection.handle.readChunkLeft := by
  have hdelivered : ((greeting.start (bufferOf "5\r\nhe".toList (by decide))
      "llo\r\n5\r\nworld\r\n0\r\n\r\n".toList).run [.read [4] 1, .read [4] 1, .arrive 3]).map
        delivered = some ("hello".toList.map some) := by
    decide +kernel
  obtain ⟨connection, hrun, hconnection⟩ := map_eq_some_iff.mp hdelivered
  have hover : NeverOverruns (greeting.start (bufferOf "5\r\nhe".toList (by decide))
      "llo\r\n5\r\nworld\r\n0\r\n\r\n".toList) [.read [4] 1, .read [4] 1, .arrive 3] := by
    refine ⟨fun h => not_overruns_of_waitFor_le le_rfl h.2, fun first hfirst => ?_⟩
    refine ⟨fun h => not_overruns_of_waitFor_le le_rfl h.2, fun second hsecond => ⟨?_, fun _ _ => trivial⟩⟩
    -- the second read is one for content
    rintro ⟨op, hreading, -⟩
    obtain rfl := some.inj hfirst
    obtain rfl := some.inj hsecond
    have hkind : _ = some (some PassRead.header) := congrArg (Option.map Prod.snd) hreading
    exact absurd hkind (by decide +kernel)
  have hsent : "5\r\nhe".toList ++ "llo\r\n5\r\nworld\r\n0\r\n\r\n".toList = greeting.encode [] := by decide +kernel
  obtain ⟨hdelivers, hleft⟩ := run_delivers greeting greeting_small hsent hover hrun
  exact ⟨connection, hrun, hconnection, hdelivers, hleft (.inl rfl)⟩

/-- A read of ten bytes that finds the first chunk in the residue gets the framing of the second one. -/
theorem run_delivers_framing : ∃ connection,
      "5\r\nhello".toList ++ "\r\n5\r\nworld\r\n0\r\n\r\n".toList = greeting.encode [] ∧
        (greeting.start (bufferOf "5\r\nhello".toList (by decide)) "\r\n5\r\nworld\r\n0\r\n\r\n".toList).run
          [.read [20] 10, .arrive 10] = some connection ∧
        connection.delivered = "hello\r\n5\r\nworld".toList.map some ∧
        ¬ connection.delivered <+: greeting.content.map some ∧ connection.handle.readChunkLeft = -10 := by
  have hrun : ((greeting.start (bufferOf "5\r\nhello".toList (by decide))
      "\r\n5\r\nworld\r\n0\r\n\r\n".toList).run [.read [20] 10, .arrive 10]).map
        (fun connection => (connection.delivered, connection.handle.readChunkLeft))
      = some ("hello\r\n5\r\nworld".toList.map some, -10) := by
    decide +kernel
  obtain ⟨connection, hrun, hconnection⟩ := map_eq_some_iff.mp hrun
  obtain ⟨hdelivered, hleft⟩ := Prod.mk.inj hconnection
  refine ⟨connection, by decide +kernel, hrun, hdelivered, ?_, hleft⟩
  rw [hdelivered]
  decide +kernel

end Gct.Http
