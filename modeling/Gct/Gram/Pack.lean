/-
# GRAM messages as text

A message is a list of lines `attribute: value`, each ended by CR LF, and a `NUL`.  Numbers and contact
strings stand in a line as they are; the RSL, a query and the values of extensions are quoted, with a
backslash before each quote and each backslash in them.

Every packing function allocates its buffer before it writes into it, so it works as long as the text and
its `NUL` fit in what it has allocated (`within`).
-/
import Gct.Gram.Frame
import Gct.Hashtable

namespace Gct.Gram

open Format Buffer

/-! ## 1. Quoting -/

/-- The characters of a quoted text. -/
def escape : List Char → List Char
  | [] => []
  | c :: s => if c = '"' ∨ c = '\\' then '\\' :: c :: escape s else c :: escape s

variable (s : List Char)

/-- `globus_l_gram_protocol_quote_string` -/
def quoteString : List Char := '"' :: escape s ++ ['"']

/-- The loop of `globus_l_gram_protocol_unquote_string` in a quoted text. -/
def unquoteQuoted : List Char → Except ProtocolError (List Char)
  | [] => .error .httpUnpackFailed
  | c :: s =>
    if c = nul then .error .httpUnpackFailed
    else if c = '"' then .ok []
    else if c = '\\' then
      match s with
      | [] => .error .httpUnpackFailed
      | d :: s => (unquoteQuoted s).map (d :: ·)
    else (unquoteQuoted s).map (c :: ·)

/-- The loop in a text without quotes, where CR LF becomes LF. -/
def unquotePlain : List Char → Except ProtocolError (List Char)
  | [] => .ok []
  | c :: s =>
    if c = nul then .ok []
    else if c = '\r' then
      match s with
      | [] => .error .httpUnpackFailed
      | d :: s => if d = '\n' then (unquotePlain s).map (d :: ·) else .error .httpUnpackFailed
    else (unquotePlain s).map (c :: ·)

/-- `globus_l_gram_protocol_unquote_string` -/
def unquoteString : List Char → Except ProtocolError (List Char)
  | '"' :: s => unquoteQuoted s
  | s => unquotePlain s

/-! ## 2. The lines of a message -/

/-- `GLOBUS_GRAM_PROTOCOL_VERSION` -/
def protocolVersion : Int32 := 2

def numberLine (attr : List Char) : List Directive :=
  lits (attr ++ [':', ' ']) ++ decimal :: lits crlf

def textLine (attr : List Char) : List Directive :=
  lits (attr ++ [':', ' ']) ++ .str :: lits crlf

/-- `GLOBUS_GRAM_HTTP_PACK_PROTOCOL_VERSION_LINE` -/
def protocolVersionLine : List Directive := numberLine "protocol-version".toList

/-- `GLOBUS_GRAM_HTTP_PACK_JOB_STATE_MASK_LINE` -/
def jobStateMaskLine : List Directive := numberLine "job-state-mask".toList

/-- `GLOBUS_GRAM_HTTP_PACK_CALLBACK_URL_LINE` -/
def callbackUrlLine : List Directive := textLine "callback-url".toList

/-- `GLOBUS_GRAM_HTTP_PACK_STATUS_LINE` -/
def statusLine : List Directive := numberLine "status".toList

/-- `GLOBUS_GRAM_HTTP_PACK_FAILURE_CODE_LINE` -/
def failureCodeLine : List Directive := numberLine "failure-code".toList

/-- `GLOBUS_GRAM_HTTP_PACK_JOB_FAILURE_CODE_LINE` -/
def jobFailureCodeLine : List Directive := numberLine "job-failure-code".toList

/-- `GLOBUS_GRAM_HTTP_PACK_JOB_MANAGER_URL_LINE` -/
def jobManagerUrlLine : List Directive := textLine "job-manager-url".toList

/-- `GLOBUS_GRAM_HTTP_PACK_CLIENT_REQUEST_LINE` -/
def clientRequestLine : List Directive := .str :: lits crlf

/-- `strlen` of a format, in which every conversion has two characters. -/
def formatLength (ds : List Directive) : Nat :=
  (ds.map fun d => match d with | .lit _ => 1 | _ => 2).sum

/-- `globus_gram_protocol_extension_t` -/
structure Extension where
  attr : List Char
  value : List Char
  deriving DecidableEq, Repr

variable (status : Int32) (jobContact : Option (List Char))

/-- The lines of the extensions. -/
def printExtensions (extensions : List Extension) : List Char :=
  extensions.flatMap fun e => e.attr ++ [':', ' '] ++ quoteString e.value ++ crlf

/-- What is allocated for them. -/
def extensionsLength (extensions : List Extension) : Nat :=
  (extensions.map fun e => e.attr.length + 2 * e.value.length + 4).sum

/-- The message in a buffer of `size` bytes.  If it does not fit, the program writes behind its buffer and
nothing can be said about it. -/
def within (size : Nat) (text : List Char) : Option (List Char) :=
  if text.length + 1 ≤ size then some (text ++ [nul]) else none

/-! ## 3. Packing -/

/-- The value of an `int`. -/
def int (n : Int32) : Value := .int n.toInt

/-- `globus_gram_protocol_pack_job_request` -/
def packJobRequest (jobStateMask : Int32) (callbackUrl : Option (List Char)) (rsl : List Char) :
    Option (List Char) :=
  within (formatLength protocolVersionLine + formatLength jobStateMaskLine + formatLength callbackUrlLine +
      (match callbackUrl with | some url => url.length | none => 2) + 2 * rsl.length + 16)
    (print (protocolVersionLine ++ jobStateMaskLine ++ callbackUrlLine ++ lits "rsl: ".toList)
        [int protocolVersion, int jobStateMask, .text (callbackUrl.getD ['"', '"'])] ++
      quoteString rsl ++ crlf)

/-- The lines of the reply to a job request. -/
def printJobRequestReply : List Char :=
  match jobContact with
  | some jobContact =>
    print (protocolVersionLine ++ statusLine ++ jobManagerUrlLine)
      [int protocolVersion, int status, .text jobContact]
  | none => print (protocolVersionLine ++ statusLine) [int protocolVersion, int status]

/-- `globus_gram_protocol_pack_job_request_reply` -/
def packJobRequestReply : Option (List Char) :=
  within (formatLength protocolVersionLine + formatLength statusLine + formatLength jobManagerUrlLine +
      (match jobContact with | some jobContact => jobContact.length + 3 | none => 3))
    (printJobRequestReply status jobContact)

/-- `globus_gram_protocol_pack_job_request_reply_with_extensions` -/
def packJobRequestReplyWithExtensions (extensions : List Extension) : Option (List Char) :=
  within (extensionsLength extensions + formatLength protocolVersionLine + formatLength statusLine +
      (match jobContact with | some _ => formatLength jobManagerUrlLine | none => 0) +
      (match jobContact with | some jobContact => jobContact.length | none => 0) + 4)
    (printJobRequestReply status jobContact ++ printExtensions extensions)

/-- `globus_gram_protocol_pack_status_request` -/
def packStatusRequest (statusRequest : List Char) : Option (List Char) :=
  within (formatLength protocolVersionLine + formatLength clientRequestLine + 2 * statusRequest.length)
    (print protocolVersionLine [int protocolVersion] ++ quoteString statusRequest ++ crlf)

def statusReplyLines : List Directive :=
  protocolVersionLine ++ statusLine ++ failureCodeLine ++ jobFailureCodeLine

variable (jobStatus failureCode jobFailureCode : Int32) (jobContact : List Char) (table : Table)
  (p : List Char) (query : List Char)

def printStatusReply : List Char :=
  print statusReplyLines [int protocolVersion, int jobStatus, int failureCode, int jobFailureCode]

/-- `globus_gram_protocol_pack_status_reply` -/
def packStatusReply : Option (List Char) :=
  within (formatLength protocolVersionLine + formatLength statusLine + formatLength failureCodeLine +
      formatLength jobFailureCodeLine + 4)
    (printStatusReply jobStatus failureCode jobFailureCode)

/-- `globus_gram_protocol_pack_status_reply_with_extensions` -/
def packStatusReplyWithExtensions (extensions : List Extension) : Option (List Char) :=
  within (extensionsLength extensions + formatLength protocolVersionLine + formatLength statusLine +
      formatLength failureCodeLine + formatLength jobFailureCodeLine + 4)
    (printStatusReply jobStatus failureCode jobFailureCode ++ printExtensions extensions)

def printStatusUpdate (status failureCode : Int32) : List Char :=
  print (protocolVersionLine ++ jobManagerUrlLine ++ statusLine ++ failureCodeLine)
    [int protocolVersion, .text jobContact, int status, int failureCode]

/-- `globus_gram_protocol_pack_status_update_message` -/
def packStatusUpdateMessage (status failureCode : Int32) : Option (List Char) :=
  within (formatLength protocolVersionLine + formatLength jobManagerUrlLine + formatLength statusLine +
      formatLength failureCodeLine + jobContact.length + 5)
    (printStatusUpdate jobContact status failureCode)

/-- `globus_gram_protocol_pack_status_update_message_with_extensions`; here the lines before the extensions
are printed first, and then their buffer is enlarged. -/
def packStatusUpdateMessageWithExtensions (status failureCode : Int32)
    (extensions : List Extension) : Option (List Char) :=
  within (extensionsLength extensions + (printStatusUpdate jobContact status failureCode).length + 1)
    (printStatusUpdate jobContact status failureCode ++ printExtensions extensions)

/-! ## 4. Unpacking -/

/-- A quoted value up to its quote, or to a `NUL`, and the rest from there on. -/
def rawQuoted (escaped : Bool) : List Char → List Char × List Char
  | [] => ([], [])
  | c :: p =>
    if c = nul then ([], c :: p)
    else if escaped then
      let r := rawQuoted false p
      (c :: r.1, r.2)
    else if c = '"' then ([], c :: p)
    else
      let r := rawQuoted (c = '\\') p
      (c :: r.1, r.2)

/-- The value without its backslashes; `next` is the character behind it. -/
def unescape (next : Char) : List Char → List Char
  | [] => []
  | c :: s =>
    if c = '\\' then
      match s with
      | [] => [next]
      | d :: s => d :: unescape next s
    else c :: unescape next s

/-- The value of a line: its characters and the rest of the message. -/
def readValue : List Char × List Char :=
  match p with
  | '"' :: p =>
    let (raw, rest) := rawQuoted false p
    (unescape (rest.headD nul) raw, rest.tail)
  | p =>
    let raw := p.takeWhile fun c => c ≠ '\r' ∧ c ≠ nul
    (unescape ((p.drop raw.length).headD nul) raw, p.drop raw.length)

/-- A character that must stand here, unless the message is at its end. -/
def expect (c : Char) : List Char → Except ProtocolError (List Char)
  | [] => .ok []
  | d :: p => if d = c then .ok p else .error .httpUnpackFailed

/-- What is behind a value. -/
def endOfLine : Except ProtocolError (List Char) :=
  (expect '\r' p).bind (expect '\n')

/-- One line from the colon on: the value, and the rest of the message. -/
def readLine : Except ProtocolError (List Char × List Char) :=
  match p with
  | ':' :: ' ' :: p =>
    let (value, rest) := readValue p
    (endOfLine rest).map fun rest => (value, rest)
  | _ => .error .httpUnpackFailed

/-- The loop of `globus_gram_protocol_unpack_message`. -/
def unpackLoop : Nat → List Char → Table → Except ProtocolError Table
  | 0, _, table => .ok table
  | fuel + 1, p, table =>
    if p.headD nul = nul then .ok table
    else
      let attr := p.takeWhile fun c => c ≠ ':' ∧ c ≠ nul
      match p.drop attr.length with
      | [] => .ok table
      | rest =>
        match readLine rest with
        | .error e => .error e
        | .ok (value, p) => unpackLoop fuel p (table.insert attr value)

/-- `globus_gram_protocol_unpack_message` -/
def unpackMessage (message : List Char) : Except ProtocolError Table :=
  unpackLoop message.length message []

/-- `strtol` with base 10 -/
def strtol : Int :=
  match CText.scanInt (-2 ^ 63) (2 ^ 63 - 1) s with
  | some (n, _) => n
  | none => 0

/-- `atoi` -/
def atoi : Int32 := Int32.ofInt (strtol s)

/-- `globus_l_gram_protocol_get_string_attribute` -/
def getStringAttribute (attr : List Char) : Except ProtocolError (List Char) :=
  match table.lookup attr with
  | some value => .ok value
  | none => .error .httpUnpackFailed

/-- `globus_l_gram_protocol_get_int_attribute` -/
def getIntAttribute (attr : List Char) : Except ProtocolError Int32 :=
  (getStringAttribute table attr).map atoi

/-- The version of the protocol is looked at first, as an `int` or as a `long`. -/
def checkVersion : Except ProtocolError Unit := do
  let version ← getIntAttribute table "protocol-version".toList
  if version = protocolVersion then .ok () else .error .versionMismatch

def checkVersionLong : Except ProtocolError Unit := do
  let version ← getStringAttribute table "protocol-version".toList
  if strtol version = protocolVersion.toInt then .ok () else .error .versionMismatch

/-- `globus_gram_protocol_unpack_job_request` -/
def unpackJobRequest : Except ProtocolError (Int32 × Option (List Char) × List Char) := do
  let attributes ← unpackMessage query
  checkVersion attributes
  let jobStateMask ← getIntAttribute attributes "job-state-mask".toList
  let callbackUrl ← getStringAttribute attributes "callback-url".toList
  let description ← getStringAttribute attributes "rsl".toList
  return (jobStateMask, if callbackUrl = [] then none else some callbackUrl, description)

variable (reply : List Char)

/-- `globus_gram_protocol_unpack_job_request_reply_with_extensions` -/
def unpackJobRequestReplyWithExtensions :
    Except ProtocolError (Int32 × Option (List Char) × Table) := do
  let extensions ← unpackMessage reply
  checkVersionLong extensions
  let status ← getIntAttribute extensions "status".toList
  return (status, extensions.lookup "job-manager-url".toList, extensions)

/-- `globus_gram_protocol_unpack_job_request_reply` -/
def unpackJobRequestReply : Except ProtocolError (Int32 × Option (List Char)) := do
  let attributes ← unpackMessage reply
  checkVersion attributes
  let status ← getIntAttribute attributes "status".toList
  return (status, attributes.lookup "job-manager-url".toList)

/-- `globus_gram_protocol_unpack_status_request` -/
def unpackStatusRequest : Except ProtocolError (List Char) :=
  match Search.strstr crlf (cstr query) with
  | none => .error .httpUnpackFailed
  | some p =>
    match (scan protocolVersionLine (cstr query)).1 with
    | [.int version] =>
      if version = protocolVersion.toInt then unquoteString (query.drop (p + 2))
      else .error .versionMismatch
    | _ => .error .httpUnpackFailed

/-- `globus_gram_protocol_unpack_status_reply` -/
def unpackStatusReply : Except ProtocolError (Int32 × Int32 × Int32) :=
  match (scan statusReplyLines (cstr reply)).1 with
  | [.int version, .int jobStatus, .int failureCode] =>
    if version = protocolVersion.toInt then .ok (Int32.ofInt jobStatus, Int32.ofInt failureCode, 0)
    else .error .versionMismatch
  | [.int version, .int jobStatus, .int failureCode, .int jobFailureCode] =>
    if version = protocolVersion.toInt then
      .ok (Int32.ofInt jobStatus, Int32.ofInt failureCode, Int32.ofInt jobFailureCode)
    else .error .versionMismatch
  | _ => .error .httpUnpackFailed

/-- `globus_gram_protocol_unpack_status_reply_with_extensions` -/
def unpackStatusReplyWithExtensions : Except ProtocolError Table := do
  let extensions ← unpackMessage reply
  checkVersionLong extensions
  discard <| getStringAttribute extensions "status".toList
  discard <| getStringAttribute extensions "failure-code".toList
  discard <| getStringAttribute extensions "job-failure-code".toList
  return extensions

/-- `globus_gram_protocol_unpack_status_update_message_with_extensions` -/
def unpackStatusUpdateMessageWithExtensions : Except ProtocolError Table := do
  let extensions ← unpackMessage reply
  checkVersion extensions
  discard <| getStringAttribute extensions "job-manager-url".toList
  discard <| getStringAttribute extensions "status".toList
  discard <| getIntAttribute extensions "failure-code".toList
  return extensions

/-- `globus_gram_protocol_unpack_status_update_message` -/
def unpackStatusUpdateMessage : Except ProtocolError (List Char × Int32 × Int32) := do
  let extensions ← unpackStatusUpdateMessageWithExtensions reply
  let jobContact ← getStringAttribute extensions "job-manager-url".toList
  let status ← getIntAttribute extensions "status".toList
  let failureCode ← getIntAttribute extensions "failure-code".toList
  return (jobContact, status, failureCode)

end Gct.Gram
