/-
# Content goes to the user

The residue is copied vector by vector, and the loop looks at the counters each time; together it copies as
many bytes as there are, as there is room for and as are content (`copyLoop_eq`).  After bytes of the
content the driver is at another place of the same body, however they went to the user (`At.spend`).
-/
import Gct.Http.Framing

namespace Gct.Http

open Scatter CText List Option

/-! ## 1. Copying the residue -/

variable (handle : Handle)

/-- The content that is left where the driver is. -/
def limit : Nat :=
  match handle.transferEncoding, handle.contentLength with
  | .identity, some left => left.toNat
  | .identity, none => handle.readBuffer.valid.length
  | .chunked, _ => handle.chunkLeft

theorem toCopy_eq (len : Nat) : toCopy handle len = min (min len handle.readBuffer.valid.length) (limit handle) := by
  have hcount : (if len > handle.readBuffer.valid.length then handle.readBuffer.valid.length else len)
      = min len handle.readBuffer.valid.length := by
    split <;> omega
  unfold toCopy limit
  rw [hcount]
  cases handle.transferEncoding with
  | identity =>
    cases handle.contentLength with
    | none => exact (Nat.min_eq_left (Nat.min_le_right _ _)).symm
    | some left =>
      dsimp only
      split <;> omega
  | chunked =>
    dsimp only
    split <;> omega

/-- The counters of a chunked body are in order. -/
structure Settled : Prop where
  nonneg : handle.transferEncoding = .chunked → 0 ≤ handle.readChunkLeft
  small : handle.transferEncoding = .chunked → handle.readChunkLeft < 2 ^ 64
  crlf : handle.transferEncoding = .chunked → handle.readChunkLeft = 0 → handle.parseState = .chunkCrlf

theorem Settled.chunkLeft {handle : Handle} (h : Settled handle) (hte : handle.transferEncoding = .chunked) :
    (handle.chunkLeft : Int) = handle.readChunkLeft := by
  have hnonneg := h.nonneg hte
  rw [Handle.chunkLeft, Int.emod_eq_of_lt hnonneg (h.small hte), Int.toNat_of_nonneg hnonneg]

variable {handle : Handle} {n : Nat}

theorem Settled.copied_zero (h : Settled handle) : handle.copied 0 = handle := by
  ext1
  · rfl
  · show (if _ then Option.map (· - ((0 : Nat) : Int)) _ else _) = _
    simp
  · show (if handle.transferEncoding = .chunked ∧ ((handle.readChunkLeft - ((0 : Nat) : Int)) % 2 ^ 64).toNat = 0
      then ParseState.chunkCrlf else handle.parseState) = handle.parseState
    rw [Nat.cast_zero, sub_zero]
    split
    next hzero =>
      have hleft := h.chunkLeft hzero.1
      rw [Handle.chunkLeft, hzero.2] at hleft
      exact (h.crlf hzero.1 hleft.symm).symm
    next => rfl
  · rfl
  · exact sub_zero _

theorem Settled.copied {handle : Handle} (h : Settled handle) (hn : n ≤ limit handle) :
    Settled (handle.copied n) ∧ limit (handle.copied n) = limit handle - n := by
  cases hte : handle.transferEncoding with
  | identity =>
    have hte' : (handle.copied n).transferEncoding ≠ .chunked := fun h => nomatch hte.symm.trans h
    refine ⟨⟨(absurd · hte'), (absurd · hte'), (absurd · hte')⟩, ?_⟩
    unfold limit at hn ⊢
    simp only [Handle.copied, hte, if_true] at hn ⊢
    cases hlen : handle.contentLength with
    | none => simp
    | some left =>
      rw [map_some]
      exact Int.toNat_sub' left n
  | chunked =>
    have hleft := h.chunkLeft hte
    have hlimit : limit handle = handle.chunkLeft := by simp only [limit, hte]
    have hsmall := h.small hte
    have hcopied : Settled (handle.copied n) := by
      refine ⟨fun _ => ?_, fun _ => ?_, fun _ hzero => ?_⟩
      · simp only [Handle.copied]
        omega
      · simp only [Handle.copied]
        omega
      · simp only [Handle.copied] at hzero ⊢
        rw [hzero, if_pos ⟨hte, rfl⟩]
    refine ⟨hcopied, ?_⟩
    have hleft' := hcopied.chunkLeft hte
    have hlimit' : limit (handle.copied n) = (handle.copied n).chunkLeft := by simp only [limit, Handle.copied, hte]
    rw [hlimit, hlimit']
    simp only [Handle.copied] at hleft' ⊢
    omega

theorem Settled.copied_copied (h : Settled handle) {n m : Nat} (hn : n + m ≤ limit handle) :
    (handle.copied n).copied m = handle.copied (n + m) := by
  have hbuffer : (handle.readBuffer.consume n).consume m = handle.readBuffer.consume (n + m) := by
    ext1
    · simp only [ReadBuffer.valid_consume, drop_drop]
    · rfl
  have hleft : handle.readChunkLeft - n - m = handle.readChunkLeft - ((n + m : Nat) : Int) := by
    rw [Nat.cast_add, sub_sub]
  cases hte : handle.transferEncoding with
  | identity =>
    simp only [Handle.copied, hte, hbuffer, hleft, if_true, reduceCtorEq, false_and, if_false, Option.map_map]
    congr 1
    cases handle.contentLength with
    | none => rfl
    | some left =>
      simp only [map_some, Function.comp_apply, some.injEq, Nat.cast_add]
      exact sub_sub _ _ _
  | chunked =>
    have hchunk := h.chunkLeft hte
    have hlimit : limit handle = handle.chunkLeft := by simp only [limit, hte]
    have hsmall := h.small hte
    simp only [Handle.copied, hte, hbuffer, hleft, true_and, reduceCtorEq, if_false]
    congr 1
    -- the chunk was not over before, or nothing was copied after its end
    split_ifs with hsum hfirst
    · rfl
    · rw [Int.emod_eq_of_lt (by omega) (by omega)] at hsum hfirst
      exact absurd (by omega) hsum
    · rfl

/-- **The loop copies as many bytes as there are, as there is room for, and as are content.** -/
theorem copyLoop_eq (h : Settled handle) (nbytes waitFor : Nat) (iov : List (Iovec Char)) :
    copyLoop handle nbytes waitFor iov =
      let n := min (limit handle) (min handle.readBuffer.valid.length (room iov))
      (handle.copied n, ⟨fill iov (handle.readBuffer.valid.take n), nbytes + n, waitFor - n⟩) := by
  induction iov generalizing handle nbytes waitFor with
  | nil =>
    have hn : min (limit handle) (min handle.readBuffer.valid.length (room ([] : List (Iovec Char)))) = 0 := by
      simp [room]
    simp only [copyLoop, hn, h.copied_zero, fill, Nat.add_zero, Nat.sub_zero]
  | cons v iov ih =>
    have hroom : room (v :: iov) = v.len + room iov := rfl
    unfold copyLoop
    split
    next hvalid =>
      simp only [hvalid, length_nil, Nat.zero_min, Nat.min_zero, h.copied_zero, take_nil, fill_nil,
        Nat.add_zero, Nat.sub_zero]
    next hvalid =>
      have hcount := toCopy_eq handle v.len
      generalize toCopy handle v.len = count at hcount
      dsimp only
      split
      next hzero =>
        -- the vector is full, or the content is over
        rw [ih h]
        have hpos : 0 < handle.readBuffer.valid.length := length_pos_iff.mpr hvalid
        rcases Nat.eq_zero_or_pos v.len with hlen | hlen
        · have hwrite : v.write [] = v := by simp [Iovec.write]
          rw [hroom, hlen, Nat.zero_add]
          simp only [fill, hlen, take_zero, drop_zero, hwrite]
        · have hlimit : limit handle = 0 := by omega
          simp only [hlimit, Nat.zero_min, h.copied_zero, take_zero, fill_nil]
      next hpos =>
        obtain ⟨hsettled, hlimit⟩ := h.copied (n := count) (by omega)
        rw [ih hsettled, hlimit]
        have hvalid' : (handle.copied count).readBuffer.valid = handle.readBuffer.valid.drop count := rfl
        rw [hvalid', length_drop]
        dsimp only
        generalize hm : min (limit handle - count) (min (handle.readBuffer.valid.length - count) (room iov)) = m
        have hsum : min (limit handle) (min handle.readBuffer.valid.length (room (v :: iov))) = count + m := by
          omega
        rw [hsum, h.copied_copied (by omega), Nat.add_assoc, Nat.sub_sub]
        congr 2
        -- the next vector gets something only if this one is full
        have htake : (handle.readBuffer.valid.take (count + m)).take v.len = handle.readBuffer.valid.take count := by
          rw [take_take]
          congr 1
          omega
        have hdrop : (handle.readBuffer.valid.take (count + m)).drop v.len
            = (handle.readBuffer.valid.drop count).take m := by
          rcases Nat.lt_or_ge count v.len with hlt | hge
          · obtain rfl : m = 0 := by omega
            rw [drop_of_length_le (by rw [length_take]; omega), take_zero]
          · obtain rfl : count = v.len := by omega
            rw [drop_take, Nat.add_sub_cancel_left]
        rw [fill, htake, hdrop]


/-! ## 2. Content goes to the user -/

/-- `n` bytes of the content have been taken off the counters. -/
structure Spent (n : Nat) (handle handle' : Handle) : Prop where
  transferEncoding : handle'.transferEncoding = handle.transferEncoding
  contentLength : handle'.contentLength =
    if handle.transferEncoding = .identity then handle.contentLength.map (· - (n : Int)) else handle.contentLength
  readChunkLeft : handle.transferEncoding = .chunked → handle'.readChunkLeft = handle.readChunkLeft - n
  parseState : handle'.parseState =
    if handle.transferEncoding = .chunked ∧ ((handle.readChunkLeft - n) % 2 ^ 64).toNat = 0 then .chunkCrlf
    else handle.parseState
  clean : handle.readBuffer.valid = [] ∧ handle.readChunkLeft = 0 →
    handle.transferEncoding = .identity → handle'.readBuffer.valid = [] ∧ handle'.readChunkLeft = 0

theorem spent_copied (hn : n ≤ handle.readBuffer.valid.length) : Spent n handle (handle.copied n) := by
  refine ⟨rfl, rfl, fun _ => rfl, rfl, ?_⟩
  rintro ⟨hvalid, hleft⟩ -
  obtain rfl : n = 0 := by simpa [hvalid] using hn
  exact ⟨hvalid, by rw [Handle.copied, hleft]; rfl⟩

section

variable {rest text toCome stream : List Char} {clean : Prop} {handle handle' : Handle}

section

variable (h : At rest clean handle text toCome) (hstate : handle.parseState.inContent)

include h hstate

/-- Content is read inside a chunk or inside a body with a content-length. -/
theorem At.content_cases : (∃ last chunks data, handle.transferEncoding = .chunked ∧ handle.contentLength = none ∧
        handle.parseState = .chunkBody ∧ handle.readChunkLeft = (data.length : Int) ∧ data ≠ [] ∧
        data.length ≤ uintMax ∧ Small chunks ∧ text = data ++ (Http.crlf ++ encodeChunks last rest chunks) ∧
        toCome = data ++ content chunks) ∨
      (handle.transferEncoding = .identity ∧ handle.contentLength = some (toCome.length : Int) ∧
        handle.parseState = .identityBody ∧ (clean → handle.readBuffer.valid = [] ∧ handle.readChunkLeft = 0) ∧
        text = toCome ++ rest) := by
  cases h with
  | @body last chunks data hte hlength hbody hleft hpos hmax hsmall =>
    exact .inl ⟨last, chunks, data, hte, hlength, hbody, hleft, hpos, hmax, hsmall, rfl, rfl⟩
  | identity hte hlength hidentity hclean => exact .inr ⟨hte, hlength, hidentity, hclean, rfl⟩
  | line _ _ hline | crlf _ _ hline | footers _ _ hline | eof _ _ hline | identityEof _ _ hline =>
    exact absurd (hline ▸ hstate) (by simp [ParseState.inContent])

theorem At.settled : Settled handle := by
  rcases h.content_cases hstate with ⟨last, chunks, data, hte, -, -, hleft, hpos, hmax, -⟩ | ⟨hte, -⟩
  · have hdata := length_pos_iff.mpr hpos
    have hlt : uintMax < 2 ^ 64 := by decide
    refine ⟨fun _ => ?_, fun _ => ?_, fun _ hzero => ?_⟩ <;> omega
  · refine ⟨fun h => ?_, fun h => ?_, fun h => ?_⟩ <;> exact nomatch hte.symm.trans h

end

theorem limit_of_chunked (hsettled : Settled handle) (hte : handle.transferEncoding = .chunked) :
    (limit handle : Int) = handle.readChunkLeft := by
  have hlimit : limit handle = handle.chunkLeft := by simp only [limit, hte]
  rw [hlimit, hsettled.chunkLeft hte]

theorem limit_of_identity {left : Nat} (hte : handle.transferEncoding = .identity)
    (hlength : handle.contentLength = some (left : Int)) : limit handle = left := by
  simp only [limit, hte, hlength, Int.toNat_natCast]

section

variable (h : At rest clean handle text toCome)

include h

/-- The bytes that come next are content, as many as the counters say. -/
theorem At.content_next (hstate : handle.parseState.inContent) :
    ∃ data tail tail', text = data ++ tail ∧ toCome = data ++ tail' ∧ limit handle = data.length := by
  have hsettled := h.settled hstate
  rcases h.content_cases hstate with ⟨last, chunks, data, hte, -, -, hleft, -, -, -, htext, hcome⟩
      | ⟨hte, hlength, -, -, htext⟩
  · refine ⟨data, _, _, htext, hcome, ?_⟩
    have hlimit := limit_of_chunked hsettled hte
    omega
  · exact ⟨toCome, rest, [], htext, (append_nil _).symm, limit_of_identity hte hlength⟩

/-- **After bytes of the content the driver is at another place of the body.** -/
theorem At.spend (hstate : handle.parseState.inContent) (hn : n ≤ limit handle) (hspent : Spent n handle handle') :
    At rest clean handle' (text.drop n) (toCome.drop n) := by
  have hsettled := h.settled hstate
  rcases h.content_cases hstate with
    ⟨last, chunks, data, hte, hlength, hbody, hleft, hpos, hmax, hsmall, htext, hcome⟩
      | ⟨hte, hlength, hidentity, hclean, htext⟩
  · have hlimit := limit_of_chunked hsettled hte
    have hle : n ≤ data.length := by omega
    have hte' := hspent.transferEncoding.trans hte
    have hlength' : handle'.contentLength = none := by
      rw [hspent.contentLength, hte, if_neg (by decide), hlength]
    have hleft' : handle'.readChunkLeft = data.length - n := by rw [hspent.readChunkLeft hte, hleft]
    have hstate' := hspent.parseState
    have hlt : uintMax < 2 ^ 64 := by decide
    rw [htext, hcome, drop_append_of_le_length hle, drop_append_of_le_length hle]
    rcases Nat.lt_or_ge n data.length with hmore | hall
    · rw [if_neg (by omega)] at hstate'
      refine .body hte' hlength' (hstate'.trans hbody) ?_ ?_ ?_ hsmall
      · rw [length_drop, hleft', Nat.cast_sub hle]
      · rw [← length_pos_iff, length_drop]
        exact Nat.sub_pos_of_lt hmore
      · exact le_trans (drop_sublist n data).length_le hmax
    · rw [if_pos ⟨hte, by omega⟩] at hstate'
      rw [drop_of_length_le hall]
      exact .crlf hte' hlength' hstate' (by omega) hsmall
  · rw [limit_of_identity hte hlength] at hn
    rw [htext, drop_append_of_le_length hn]
    refine .identity (hspent.transferEncoding.trans hte) ?_ ?_ fun h => hspent.clean (hclean h) hte
    · rw [hspent.contentLength, if_pos hte, hlength, map_some, length_drop, Nat.cast_sub hn]
    · rw [hspent.parseState, hte, if_neg (by simp), hidentity]

/-- A body whose content-length has been read is over. -/
theorem At.identity_over (hte : handle.transferEncoding = .identity)
    (hzero : handle.contentLength = some 0) : At rest clean { handle with parseState := .eof } text toCome := by
  cases h with
  | identity hte hlength hidentity hclean =>
    have hover : toCome = [] := by
      rw [hlength, some.injEq, Nat.cast_eq_zero] at hzero
      exact length_eq_zero_iff.mp hzero
    rw [hover]
    exact .identityEof hte hzero rfl hclean
  | identityEof hte hlength heof hclean => exact .identityEof hte hlength rfl hclean
  | line h | body h | crlf h | footers h | eof h => exact nomatch h.symm.trans hte

theorem At.synthesizeEof (result : Result) : At rest clean (synthesizeEof handle result).1 text toCome := by
  unfold Http.synthesizeEof
  split
  next hover =>
    refine h.identity_over ?_ hover.2
    cases hte : handle.transferEncoding with
    | identity => rfl
    | chunked => exact absurd hte hover.1
  next => exact h

/-- At the end of the file nothing is to come. -/
theorem At.of_eof (hstate : handle.parseState = .eof) : text = rest ∧ toCome = [] := by
  cases h with
  | eof | identityEof => exact ⟨rfl, rfl⟩
  | line _ _ hline | body _ _ hline | crlf _ _ hline | footers _ _ hline | identity _ _ hline =>
    exact nomatch hline.symm.trans hstate

theorem At.contentLength_nonneg {left : Int} (hleft : handle.contentLength = some left) : 0 ≤ left := by
  cases h with
  | identity _ hlength | identityEof _ hlength =>
    rw [hlength, some.injEq] at hleft
    omega
  | line _ hlength | body _ hlength | crlf _ hlength | footers _ hlength | eof _ hlength =>
    exact absurd (hlength.symm.trans hleft) (by simp)

theorem At.readChunkLeft_nonneg (hclean : handle.transferEncoding = .identity → clean) : 0 ≤ handle.readChunkLeft := by
  cases h with
  | line hte hlength hline hleft => exact hleft
  | body hte hlength hbody hleft => omega
  | crlf _ _ _ hleft | footers _ _ _ hleft | eof _ _ _ hleft => exact hleft.ge
  | identity hte _ _ h | identityEof hte _ _ h => exact (h (hclean hte)).2.ge

end

end

end Gct.Http
