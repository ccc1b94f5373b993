/-
# Replies on the control channel: the program

`globus_l_ftp_control_read_cb` collects what it reads in `response_buffer`, and
`globus_l_ftp_control_end_of_reply` looks there for the end of a reply: the first line that starts
with three digits and a space.  If there is one, a NUL is put behind it, and the code and the class
of the reply are set from that line.  On a buffer that has grown since the last call
`globus_l_ftp_control_check_final_line_fast` first looks for such a line among the lines that are new.

A protected reply (first digit 6) is decoded and unwrapped line by line.  This is the business of the
security library; here `unwrap` is any function that gives the clear text of a token, or fails.
-/
import Gct.Lib.Text

namespace Gct

/-- `globus_ftp_control_response_class_t` -/
inductive ResponseClass
  | unknownReply
  | positivePreliminaryReply
  | positiveCompletionReply
  | positiveIntermediateReply
  | transientNegativeCompletionReply
  | permanentNegativeCompletionReply
deriving DecidableEq, Repr

/-- `globus_ftp_control_response_t`: `responseBuffer` are the first `response_length` bytes of the
buffer, and `responseBufferSize` is its allocated size. -/
structure Response where
  code : Int
  responseClass : ResponseClass
  responseBuffer : List Char
  responseBufferSize : Nat
deriving DecidableEq, Repr

/-- `globus_l_ftp_control_response_init` -/
def Response.init : Response := ⟨0, .unknownReply, [], 200⟩

/-- The terminator of a C string. -/
def nul : Char := Char.ofNat 0

variable (buf : List Char)

/-- The C string at the start of a buffer. -/
def cString : List Char := buf.takeWhile (· ≠ nul)

/-- A byte of the buffer.  What is behind `response_length` can be anything. -/
def byteAt (i : Int) : Char := buf.getD i.toNat nul

/-- `isdigit` of the three bytes from `i` on. -/
def threeDigits (i : Int) : Bool :=
  (byteAt buf i).isDigit && (byteAt buf (i + 1)).isDigit && (byteAt buf (i + 2)).isDigit

/-! ## 1. The fast check -/

/-- `globus_l_ftp_control_get_current_line_start` -/
def getCurrentLineStart (buff : List Char) : Nat → Nat
  | 0 => 0
  | 1 => 0
  | index + 2 =>
    if byteAt buff (index + 1 : Nat) = '\n' ∧ byteAt buff index = '\r' then index + 2
    else getCurrentLineStart buff (index + 1)

/-- The loop of `globus_l_ftp_control_check_final_line_fast`: the list argument is what is in the
buffer from `i` on. -/
def checkFinalLineLoop (buff : List Char) : List Char → Nat → Nat → Bool
  | c :: d :: rest, lineStart, i =>
    if c = '\r' ∧ d = '\n' then
      let lineLen := i - lineStart
      if 4 ≤ lineLen ∧ byteAt buff (lineStart + 3 : Nat) = ' ' ∧ threeDigits buff lineStart then true
      else checkFinalLineLoop buff rest (i + 2) (i + 2)
    else checkFinalLineLoop buff (d :: rest) lineStart (i + 1)
  | _, _, _ => false

/-- `globus_l_ftp_control_check_final_line_fast` -/
def checkFinalLineFast (buff : List Char) (hint : Nat) : Bool :=
  let lineStart := getCurrentLineStart buff hint
  checkFinalLineLoop buff (buff.drop lineStart) lineStart lineStart

/-! ## 2. The end of a reply -/

/-- The loop that looks for the end of the reply: the list argument is what is in the buffer from
`current` on.  `none` is the result `-1`; the number found is 0 if there is no end. -/
def replyLoop (buf : List Char) : List Char → Nat → Int → Bool → Option (Nat × Int)
  | [], _, last, _ => some (0, last)
  | c :: rest, current, last, first =>
    if byteAt buf (current - 1) = '\r' ∧ c = '\n' then
      if first ∧ (current < 5 ∨ ¬ (threeDigits buf (last + 1)
          ∧ (byteAt buf (last + 4) = ' ' ∨ byteAt buf (last + 4) = '-'))) then none
      else if byteAt buf (last + 4) = ' ' ∧ threeDigits buf (last + 1) then
        some (current + 1, last)
      else replyLoop buf rest (current + 1) current false
    else replyLoop buf rest (current + 1) last first

/-- The loop that unwraps the lines of a protected reply: the list argument is what is left of it from
`current` on.  The result is the clear text and the length of its last part; a failure leaves the
buffer with the terminators put in. -/
def unwrapLoop (unwrap : List Char → Option (List Char)) :
    List Char → Nat → Int → List Char → List Char → Nat → Except (List Char) (List Char × Nat)
  | [], _, _, _, outBuf, length => .ok (outBuf, length)
  | c :: rest, current, last, buf, outBuf, length =>
    if c = '\n' then
      let buf := buf.set (current - 1) nul
      match unwrap (cString (buf.drop (last + 5).toNat)) with
      | none => .error buf
      | some token =>
        let token := if token.getLast? = some nul then token.dropLast else token
        unwrapLoop unwrap rest (current + 1) current buf (outBuf ++ token) token.length
    else unwrapLoop unwrap rest (current + 1) last buf outBuf length

/-- The class of a reply by its first digit. -/
def responseClassOf (c : Char) : ResponseClass :=
  if c = '1' then .positivePreliminaryReply
  else if c = '2' then .positiveCompletionReply
  else if c = '3' then .positiveIntermediateReply
  else if c = '4' then .transientNegativeCompletionReply
  else if c = '5' then .permanentNegativeCompletionReply
  else .unknownReply

/-- The conversion `%d` into an `int`. -/
def scanCode (s : List Char) : Option Int :=
  (CText.scanInt (-2147483648) 2147483647 s).map (·.1)

/-- The code and the class are read from the line at `i`. -/
def Response.setCode (response : Response) (i : Nat) : Response :=
  { response with
    code := (scanCode (response.responseBuffer.drop i)).getD response.code
    responseClass := responseClassOf (byteAt response.responseBuffer i) }

/-- `globus_l_ftp_control_end_of_reply`: the index behind the NUL that ends the reply, or 0 if there is
no complete one; an error is the result `-1`. -/
def Response.endOfReply (unwrap : List Char → Option (List Char)) (response : Response) (hint : Nat) :
    Except Response (Nat × Response) :=
  let buf := response.responseBuffer
  if hint ≠ 0 ∧ buf.length > hint ∧ ¬ checkFinalLineFast buf hint then .ok (0, response)
  else
    match replyLoop buf (buf.drop 1) 1 (-1) true with
    | none => .error response
    | some (found, last) =>
      if found = 0 then .ok (0, response)
      else if byteAt buf (last + 1) = '6' then
        match unwrapLoop unwrap (buf.take found) 0 (-1) buf [] 0 with
        | .error buf => .error { response with responseBuffer := buf }
        | .ok (outBuf, length) =>
          .ok (outBuf.length + 1, Response.setCode { response with
            responseBuffer := outBuf ++ nul :: buf.drop found
            responseBufferSize := buf.length + 4 } (outBuf.length - length))
      else
        .ok (found + 1, Response.setCode { response with
          responseBuffer := buf.take found ++ nul :: buf.drop found
          responseBufferSize := max response.responseBufferSize (buf.length + 1) } (last + 1).toNat)

end Gct
