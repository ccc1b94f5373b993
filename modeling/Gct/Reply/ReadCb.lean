/-
# `globus_l_ftp_control_read_cb`: handing out replies

The callback of a read appends what was read to `response_buffer` and hands every complete reply there
to the first reader in the queue; a preliminary reply leaves the reader in the queue.  What is behind
the reply is then copied to the front of `response_buffer`.  It is copied from the end of `read_buffer`,
on the assumption that all of it came with the last read.

The assumption fails if replies are left over: when a read brings more replies than there are readers,
the callback returns with the last reader gone, and nobody looks at the rest before the next read is
done for the next reader.  That reader gets its reply late, and then the bytes behind it are more than
were read last: the index into `read_buffer` is negative.

`Gct.Reply.Framing` has the runs.
-/
import Gct.Reply.Basic

namespace Gct

/-! ## 1. The program -/

/-- What the callback uses of the handle of a connection: the queue of readers, whether a read is
registered, and the calls of the readers' callbacks so far (an error comes without a response). -/
structure ControlHandle (ρ : Type) where
  response : Response
  readers : List ρ
  reading : Bool
  calls : List (ρ × Option Response)
deriving DecidableEq

def ControlHandle.init {ρ : Type} : ControlHandle ρ := ⟨.init, [], false, []⟩

/-- What must not happen. -/
inductive ReadFault
  /-- the queue of readers is empty when a reader is called -/
  | noReader
  /-- the index into `read_buffer` is negative -/
  | readBufferIndex
  /-- the loop has not ended after the number of rounds given -/
  | rounds
deriving DecidableEq

/-- The bytes that were read are appended to `response_buffer`, which is made larger if need be. -/
def Response.append (response : Response) (buf : List Char) : Response :=
  let current := response.responseBuffer.length
  let nbytes := buf.length
  { response with
    responseBuffer := response.responseBuffer ++ buf
    responseBufferSize :=
      if nbytes < response.responseBufferSize - current then response.responseBufferSize
      else if current < 1000000 then max (current + nbytes + 1) (current * 2)
      else max (current + nbytes + 1) (current + 100000) }

section Program

variable {ρ : Type} (unwrap : List Char → Option (List Char))
  (callback : ρ → Option (List Char) → List ρ) (h : ControlHandle ρ)

/-- A reader's callback is called.  It sees the buffer as a C string; `callback` gives the readers that
are queued while it runs. -/
def ControlHandle.call (element : ρ) (response : Option Response) : ControlHandle ρ :=
  { h with
    calls := h.calls ++ [(element, response)]
    readers := h.readers ++ callback element (response.map fun r => cString r.responseBuffer) }

/-- The branch `return_error`. -/
def ControlHandle.returnError : Except ReadFault (ControlHandle ρ) :=
  match h.readers with
  | [] => .error .noReader
  | element :: _ =>
    let h := h.call callback element none
    let readers := h.readers.tail
    .ok { h with readers, reading := !readers.isEmpty }

/-- What is behind the end of the reply is copied from the last bytes of `read_buffer`. -/
def ControlHandle.copyBack (buf : List Char) (rest : Nat) : Except ReadFault (ControlHandle ρ) :=
  if buf.length < rest then .error .readBufferIndex
  else .ok { h with
    response := { h.response with responseBuffer := buf.drop (buf.length - rest) } }

/-- The search for the end of a reply; `loop` is what is done if there is no error. -/
def ControlHandle.checkReply (hint : Nat)
    (loop : ControlHandle ρ → Nat → Except ReadFault (ControlHandle ρ)) :
    Except ReadFault (ControlHandle ρ) :=
  match h.response.endOfReply unwrap hint with
  | .error response => { h with response }.returnError callback
  | .ok (endOfReply, response) => loop { h with response } endOfReply

/-- The loop `while (end_of_reply)`; `buf` is what is in `read_buffer`. -/
def ControlHandle.readLoop (buf : List Char) :
    Nat → ControlHandle ρ → Nat → Except ReadFault (ControlHandle ρ)
  | 0, _, _ => .error .rounds
  | rounds + 1, h, endOfReply =>
    if endOfReply = 0 then .ok { h with reading := true }
    else
      match h.readers with
      | [] => .error .noReader
      | element :: _ =>
        let rest := h.response.responseBuffer.length - endOfReply
        if h.response.responseClass = .positivePreliminaryReply then
          match (h.call callback element (some h.response)).copyBack buf rest with
          | .error e => .error e
          | .ok h => h.checkReply unwrap callback 0 (readLoop buf rounds)
        else
          let response :=
            { h.response with responseBuffer := h.response.responseBuffer.take endOfReply }
          match (({ h with response }).call callback element (some response)).copyBack buf rest with
          | .error e => .error e
          | .ok h =>
            let h := { h with readers := h.readers.tail }
            if h.readers.isEmpty then .ok { h with reading := false }
            else h.checkReply unwrap callback 0 (readLoop buf rounds)

/-- `globus_l_ftp_control_read_cb` after a read of the bytes `buf`. -/
def ControlHandle.readCb (buf : List Char) : Except ReadFault (ControlHandle ρ) :=
  let response := h.response.append buf
  let rounds := response.responseBuffer.length + 1
  { h with response }.checkReply unwrap callback (response.responseBuffer.length - buf.length)
    (ControlHandle.readLoop unwrap callback buf rounds)

end Program

end Gct
