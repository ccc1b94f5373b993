/-
# GRAM messages in HTTP

`globus_gram_protocol_frame_request` and `globus_gram_protocol_frame_reply` put the header of HTTP in front
of a message.  The same lines are formats of `scanf` for the other side, so what is read from a header is
what was written into it, whatever follows (`parseRequestHeader_requestHeader`,
`parseReplyHeader_replyHeader`), if the path of the URL is one word.

A reply without a message has no length in its header.  The client takes that for an error
(`parseReplyHeader_emptyHeader`).
-/
import Gct.Lib.Buffer
import Gct.Lib.Format
import Gct.Lib.Lines

namespace Gct.Gram

open Format Buffer List CText Lines

/-! ## 1. The lines of a header -/

/-- The errors `GLOBUS_GRAM_PROTOCOL_ERROR_*` that framing and packing give. -/
inductive ProtocolError where
  | invalidJobContact
  | protocolFailed
  | httpUnframeFailed
  | authorization
  | serviceNotFound
  | gatekeeperMisconfigured
  | httpUnpackFailed
  | versionMismatch
  deriving DecidableEq, Repr

def crlf : List Char := ['\r', '\n']

/-- `GLOBUS_GRAM_HTTP_REQUEST_LINE` -/
def requestLine : List Directive := lits "POST ".toList ++ .str :: lits (" HTTP/1.1".toList ++ crlf)

/-- `GLOBUS_GRAM_HTTP_HOST_LINE` -/
def hostLine : List Directive := lits "Host: ".toList ++ .str :: lits crlf

/-- `GLOBUS_GRAM_HTTP_CONTENT_TYPE_LINE` -/
def contentTypeLine : List Directive := lits ("Content-Type: application/x-globus-gram".toList ++ crlf)

/-- `GLOBUS_GRAM_HTTP_CONTENT_LENGTH_LINE` -/
def contentLengthLine : List Directive := lits "Content-Length: ".toList ++ longDecimal :: lits crlf

/-- The conversion `%3d`. -/
def threeDigits : Directive := .num (-2 ^ 31) (2 ^ 31 - 1) 3

/-- `GLOBUS_GRAM_HTTP_REPLY_LINE` -/
def replyLine : List Directive :=
  lits "HTTP/1.1 ".toList ++ threeDigits :: (lits " ".toList ++ .str :: lits crlf)

/-- `GLOBUS_GRAM_HTTP_PARSE_REPLY_LINE` -/
def parseReplyLine : List Directive :=
  lits "HTTP/1.1 ".toList ++ threeDigits :: (lits " ".toList ++ .notIn crlf :: lits crlf)

/-- `GLOBUS_GRAM_HTTP_CONNECTION_LINE` -/
def connectionLine : List Directive := lits ("Connection: Close".toList ++ crlf)

/-! ## 2. Framing -/

/-- What `globus_url_parse` finds in a URL. -/
structure Url where
  host : List Char
  urlPath : Option (List Char)

variable (urlPath host : List Char) (code : Int) (msgsize : Nat)

/-- The header of a request, with the empty line. -/
def requestHeader : List Char :=
  print requestLine [.text urlPath] ++ print hostLine [.text host] ++ print contentTypeLine [] ++
    print contentLengthLine [.int msgsize] ++ crlf

/-- `globus_gram_protocol_frame_request`; `parsed` is `none` if the URL is malformed. -/
def frameRequest (parsed : Option Url) (msg : List Char) : Except ProtocolError (List Char) :=
  match parsed with
  | none => .error .invalidJobContact
  | some ⟨_, none⟩ => .error .invalidJobContact
  | some ⟨host, some urlPath⟩ => .ok (requestHeader urlPath host msg.length ++ msg)

def reasons : List (Int × String) :=
  [(100, "Continue"), (101, "Switching Protocols"), (200, "OK"), (201, "Created"), (202, "Accepted"),
   (203, "Non-Authoritative Information"), (204, "No Content"), (205, "Reset Content"),
   (206, "Partial Content"), (300, "Multiple Choices"), (301, "Moved Permanently"), (302, "Found"),
   (303, "See Other"), (304, "Not Modified"), (305, "Use Proxy"), (307, "Temporary Redirect"),
   (400, "Bad Request"), (401, "Unauthorized"), (402, "Payment Required"), (403, "Forbidden"),
   (404, "Not Found"), (405, "Method Not Allowed"), (406, "Not Acceptable"),
   (407, "Proxy Authentication Required"), (408, "Request Time-out"), (409, "Conflict"), (410, "Gone"),
   (411, "Length Required"), (412, "Precondition Failed"), (413, "Request Entity Too Large"),
   (414, "Request-URI Too Large"), (415, "Unsupported Media Type"),
   (416, "Requested range not satisfiable"), (417, "Expectation Failed"),
   (500, "Internal Server Error"), (501, "Not Implemented"), (502, "Bad Gateway"),
   (503, "Service Unavailable"), (504, "Gateway Time-out"), (505, "HTTP Version not supported")]

/-- `globus_l_gram_protocol_lookup_reason` -/
def lookupReason : String :=
  match reasons.lookup code with
  | some reason => reason
  | none =>
    if code < 100 ∨ code ≥ 600 then "Internal Server Error"
    else if code < 200 then "Continue"
    else if code < 300 then "OK"
    else if code < 400 then "Multiple Choices"
    else if code < 500 then "Bad Request"
    else "Internal Server Error"

/-- The header of a reply, with the empty line. -/
def replyHeader : List Char :=
  let first := print replyLine [.int code, .text (lookupReason code).toList]
  if msgsize = 0 then first ++ print connectionLine [] ++ crlf
  else first ++ print contentTypeLine [] ++ print contentLengthLine [.int msgsize] ++ crlf

/-- `globus_gram_protocol_frame_reply` -/
def frameReply (msg : List Char) : List Char := replyHeader code msg.length ++ msg

/-! ## 3. Reading a header -/

/-- A `long` in a `globus_size_t`. -/
def sizeOfLong (n : Int) : Nat := (n % 2 ^ 64).toNat

/-- `globus_l_gram_protocol_parse_request_header`: the length of the message, and the path. -/
def parseRequestHeader (buf : List Char) : Except ProtocolError (Nat × List Char) :=
  match (scan (requestLine ++ hostLine ++ contentTypeLine ++ contentLengthLine ++ lits crlf) buf).1 with
  | [.text uri, .text _, .int tmp] => .ok (sizeOfLong tmp, uri)
  | _ => .error .protocolFailed

/-- `globus_l_gram_protocol_parse_reply_header`: the length of the message. -/
def parseReplyHeader (buf : List Char) : Except ProtocolError Nat :=
  match scan parseReplyLine buf with
  | ([.int code, .text _], rest) =>
    if code = 200 then
      match (scan (contentTypeLine ++ contentLengthLine) (rest.getD [])).1 with
      | [.int tmp] => .ok (sizeOfLong tmp)
      | _ => .error .httpUnframeFailed
    else if code = 400 then .error .protocolFailed
    else if code = 403 then .error .authorization
    else if code = 404 then .error .serviceNotFound
    else if code = 500 then .error .gatekeeperMisconfigured
    else .error .httpUnframeFailed
  | _ => .error .httpUnframeFailed

/-! ## 4. What was written is read -/

/-- One word of printable characters. -/
def IsWord (s : List Char) : Prop := s ≠ [] ∧ ∀ c ∈ s, isSpace c = false ∧ c ≠ nul

theorem IsWord.space {s : List Char} (h : IsWord s) : ∀ c ∈ s, isSpace c = false :=
  fun c hc => (h.2 c hc).1

def requestLines : List (List Char) :=
  ["POST ".toList ++ urlPath ++ " HTTP/1.1".toList, "Host: ".toList ++ host,
   "Content-Type: application/x-globus-gram".toList, "Content-Length: ".toList ++ printInt msgsize]

theorem requestHeader_eq : requestHeader urlPath host msgsize = join (requestLines urlPath host msgsize) ++ crlf := by
  rw [requestHeader, requestLine, hostLine, contentTypeLine, contentLengthLine, longDecimal, print_lits,
    print_lits, print_lits, print_str, print_str, print_num, print_lits_end, print_lits_end, print_lits_end]
  simp [requestLines, crlf]

/-- The number at the end of a header. -/
theorem scan_longDecimal {n : Nat} (hn : n < 2 ^ 63) (last : List Char) {t : List Char} (ht : CText.NoDigit t) :
    (scan (longDecimal :: lits last) (printInt n ++ t)).1 = [.int n] ∧ sizeOfLong n = n := by
  rw [longDecimal, scan_num _ (by omega) (by omega) ht, scan_lits_fst, sizeOfLong]
  exact ⟨rfl, by omega⟩

variable {msgsize : Nat}

theorem parseRequestHeader_requestHeader {urlPath host : List Char} (hpath : IsWord urlPath)
    (hhost : IsWord host) (hsize : msgsize < 2 ^ 63) (t : List Char) :
    parseRequestHeader (requestHeader urlPath host msgsize ++ t) = .ok (msgsize, urlPath) := by
  have hformat : requestLine ++ hostLine ++ contentTypeLine ++ contentLengthLine ++ lits crlf =
      lits "POST ".toList ++ .str :: (lits (" HTTP/1.1".toList ++ crlf ++ "Host: ".toList) ++
        .str :: (lits (crlf ++ "Content-Type: application/x-globus-gram".toList ++ crlf ++
          "Content-Length: ".toList) ++ longDecimal :: lits (crlf ++ crlf))) := rfl
  have htext : requestHeader urlPath host msgsize ++ t =
      "POST ".toList ++ (urlPath ++ ((" HTTP/1.1".toList ++ crlf ++ "Host: ".toList) ++
        (host ++ ((crlf ++ "Content-Type: application/x-globus-gram".toList ++ crlf ++
          "Content-Length: ".toList) ++ (printInt msgsize ++ (crlf ++ crlf ++ t)))))) := by
    rw [requestHeader_eq]
    simp [requestLines, crlf]
  obtain ⟨hscan, hsizeOf⟩ := scan_longDecimal hsize (crlf ++ crlf) (t := crlf ++ crlf ++ t) (by simp [crlf])
  rw [parseRequestHeader, hformat, htext, scan_lits _ (noSpace_of_word hpath.1 hpath.space _),
    scan_str _ hpath.1 hpath.space (by intro c hc; simp at hc; subst hc; decide),
    scan_lits _ (noSpace_of_word hhost.1 hhost.space _),
    scan_str _ hhost.1 hhost.space (by intro c hc; simp [crlf] at hc; subst hc; decide),
    scan_lits _ (noSpace_printInt _ _), hscan]
  simp only [hsizeOf]

/-- The first line of a good reply. -/
theorem print_replyLine :
    print replyLine [.int 200, .text (lookupReason 200).toList] = "HTTP/1.1 200 OK".toList ++ crlf := by
  decide

theorem scan_parseReplyLine {t : List Char} (h : NoSpace t) :
    scan parseReplyLine ("HTTP/1.1 200 OK".toList ++ crlf ++ t) = ([.int 200, .text "OK".toList], some t) := by
  have hend : scan (lits crlf) (crlf ++ t) = ([], some t) := by
    have := scan_lits [] h crlf
    rwa [append_nil] at this
  have hsteps : scan parseReplyLine ("HTTP/1.1 200 OK".toList ++ crlf ++ t) =
      (.int 200 :: .text "OK".toList :: (scan (lits crlf) (crlf ++ t)).1, (scan (lits crlf) (crlf ++ t)).2) := rfl
  rw [hsteps, hend]

def replyLines (msgsize : Nat) : List (List Char) :=
  ["HTTP/1.1 200 OK".toList, "Content-Type: application/x-globus-gram".toList,
   "Content-Length: ".toList ++ printInt msgsize]

theorem replyHeader_eq (h : msgsize ≠ 0) : replyHeader 200 msgsize = join (replyLines msgsize) ++ crlf := by
  rw [replyHeader, if_neg h, print_replyLine, contentTypeLine, contentLengthLine, longDecimal, print_lits,
    print_num, print_lits_end, print_lits_end]
  simp [replyLines, crlf]

theorem parseReplyHeader_replyHeader (hne : msgsize ≠ 0) (hsize : msgsize < 2 ^ 63)
    (t : List Char) : parseReplyHeader (replyHeader 200 msgsize ++ t) = .ok msgsize := by
  have htext : replyHeader 200 msgsize ++ t =
      "HTTP/1.1 200 OK".toList ++ crlf ++ (("Content-Type: application/x-globus-gram".toList ++ crlf ++
        "Content-Length: ".toList) ++ (printInt msgsize ++ (crlf ++ crlf ++ t))) := by
    rw [replyHeader_eq hne]
    simp [replyLines, crlf]
  have hformat : contentTypeLine ++ contentLengthLine =
      lits ("Content-Type: application/x-globus-gram".toList ++ crlf ++ "Content-Length: ".toList) ++
        longDecimal :: lits crlf := rfl
  obtain ⟨hscan, hsizeOf⟩ := scan_longDecimal hsize crlf (t := crlf ++ crlf ++ t) (by simp [crlf])
  rw [parseReplyHeader, htext, scan_parseReplyLine (by intro c hc; simp at hc; subst hc; decide)]
  simp only [if_true, Option.getD_some]
  rw [hformat, scan_lits _ (noSpace_printInt _ _), hscan]
  simp only [hsizeOf]

theorem replyHeader_zero : replyHeader 200 0 = join ["HTTP/1.1 200 OK".toList, "Connection: Close".toList] ++ crlf := by
  decide

/-- A reply without a message is not understood. -/
theorem parseReplyHeader_emptyHeader (t : List Char) :
    parseReplyHeader (replyHeader 200 0 ++ t) = .error .httpUnframeFailed := by
  have htext : replyHeader 200 0 ++ t =
      "HTTP/1.1 200 OK".toList ++ crlf ++ ("Connection: Close".toList ++ crlf ++ crlf ++ t) := by
    rw [replyHeader_zero]
    simp [crlf]
  rw [parseReplyHeader, htext, scan_parseReplyLine (by intro c hc; simp at hc; subst hc; decide)]
  rfl

/-! ## 5. Where a header ends -/

/-- Lines and an empty line, in which there is no `NUL`.  The first character is not one with which
a message of the delegation protocol begins. -/
structure IsHeader (header : List Char) : Prop where
  nul : nul ∉ header
  first : ∃ c ∈ header.head?, c ≠ '0' ∧ c ≠ 'D'
  found : ∀ t, Search.strstr (crlf ++ crlf) (header ++ t) = some (header.length - 4)
  length : 4 ≤ header.length

/-- A line of printable characters and blanks. -/
def IsLine (l : List Char) : Prop := l ≠ [] ∧ '\r' ∉ l ∧ nul ∉ l

instance (l : List Char) : Decidable (IsLine l) := inferInstanceAs (Decidable (_ ∧ _))

theorem isHeader_of_lines {ls : List (List Char)} (hne : ls ≠ []) (h : ∀ l ∈ ls, IsLine l)
    (hfirst : ∃ c ∈ (join ls ++ crlf).head?, c ≠ '0' ∧ c ≠ 'D') : IsHeader (join ls ++ crlf) := by
  have hfound := fun t => strstr_blank t ls hne fun l hl => ⟨(h l hl).1, (h l hl).2.1⟩
  have hlen : 2 ≤ (join ls).length := by
    obtain ⟨l, ls, rfl⟩ := exists_cons_of_ne_nil hne
    rw [join_cons, length_append, length_cons, length_cons]
    omega
  have hcrlf : (join ls ++ crlf).length = (join ls).length + 2 := length_append
  refine ⟨?_, hfirst, fun t => ?_, by omega⟩
  · intro hnul
    rcases mem_append.mp hnul with hnul | hnul
    · obtain ⟨l, hl, hmem⟩ := mem_flatMap.mp hnul
      rcases mem_append.mp hmem with hmem | hmem
      · exact (h l hl).2.2 hmem
      · exact absurd hmem (by decide)
    · exact absurd hnul (by decide)
  · rw [hcrlf, append_assoc]
    exact hfound t

/-- A fixed text and a word make a line. -/
theorem isLine_append {a b : List Char} (ha : IsLine a) (hb : IsLine b) : IsLine (a ++ b) := by
  refine ⟨append_ne_nil_of_left_ne_nil ha.1 b, fun hr => ?_, fun hnul => ?_⟩
  · exact (mem_append.mp hr).elim ha.2.1 hb.2.1
  · exact (mem_append.mp hnul).elim ha.2.2 hb.2.2

theorem IsWord.isLine {s : List Char} (h : IsWord s) : IsLine s :=
  ⟨h.1, fun hr => absurd (h.2 _ hr).1 (by decide), fun hnul => (h.2 _ hnul).2 rfl⟩

theorem isLine_printInt (n : Nat) : IsLine (printInt n) := by
  refine ⟨?_, not_mem_printInt (by decide) (by decide), not_mem_printInt (by decide) (by decide)⟩
  obtain ⟨c, cs, heq, -⟩ := printUnsigned_eq_cons n
  rw [printInt, if_neg (by omega), Int.toNat_natCast, heq]
  exact cons_ne_nil c cs

theorem isHeader_requestHeader {urlPath host : List Char} (hpath : IsWord urlPath) (hhost : IsWord host)
    (msgsize : Nat) : IsHeader (requestHeader urlPath host msgsize) := by
  rw [requestHeader_eq]
  refine isHeader_of_lines (cons_ne_nil _ _) (fun l hl => ?_) ⟨'P', rfl, by decide⟩
  simp only [requestLines, mem_cons, not_mem_nil, or_false] at hl
  rcases hl with rfl | rfl | rfl | rfl
  · exact isLine_append (isLine_append (by decide) hpath.isLine) (by decide)
  · exact isLine_append (by decide) hhost.isLine
  · decide
  · exact isLine_append (by decide) (isLine_printInt msgsize)

theorem isHeader_replyHeader (msgsize : Nat) : IsHeader (replyHeader 200 msgsize) := by
  by_cases hzero : msgsize = 0
  · rw [hzero, replyHeader_zero]
    exact isHeader_of_lines (cons_ne_nil _ _) (by decide) ⟨'H', rfl, by decide⟩
  · rw [replyHeader_eq hzero]
    refine isHeader_of_lines (cons_ne_nil _ _) (fun l hl => ?_) ⟨'H', rfl, by decide⟩
    simp only [replyLines, mem_cons, not_mem_nil, or_false] at hl
    rcases hl with rfl | rfl | rfl
    · decide
    · decide
    · exact isLine_append (by decide) (isLine_printInt msgsize)

end Gct.Gram
