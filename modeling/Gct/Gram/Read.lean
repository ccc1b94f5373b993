/-
# Reading a GRAM message from a connection

`globus_l_gram_protocol_read_request_callback` and `globus_l_gram_protocol_read_reply_callback` are called
each time bytes have arrived.  Until the header is complete they count the bytes; when it is, they move
what is behind it to the front of the buffer.  From then on they ask for more bytes, but do not count them:
a message that is not complete together with its header never is.

So a message arrives exactly if its last read begins in the header, and for a reply also if it is not
empty (`framed_delivered_iff`).
-/
import Gct.Gram.Frame

namespace Gct.Gram

open Buffer List Search

/-! ## 1. The program -/

/-- One call of the user's callback. -/
structure Call where
  buf : List Char
  payloadLength : Nat
  rc : Option ProtocolError
  uri : Option (List Char)

/-- `globus_i_gram_protocol_connection_t`, with what the callbacks have done: whether a read is registered,
the handle is being closed or delegation has begun, and the calls of the user's callback. -/
structure Connection where
  buf : List Char
  nRead : Nat
  gotHeader : Bool
  payloadLength : Nat
  uri : Option (List Char)
  rc : Option ProtocolError
  callback : Bool
  keepOpen : Bool
  reading : Bool
  closing : Bool
  delegating : Bool
  calls : List Call

/-- How a read ended. -/
inductive IoResult where
  | success
  | eof
  | failed
  deriving DecidableEq, Repr

namespace Connection

variable (c : Connection) (data : List Char) (registers : Bool) (result : IoResult) (nbytes : Nat)

/-- What has arrived is in the buffer, where the registered read begins. -/
def arrive : Connection :=
  { c with buf := write c.buf c.nRead data, reading := false }

/-- The bytes are counted, and a `NUL` is put behind them. -/
def count : Connection :=
  { c with nRead := c.nRead + nbytes, buf := c.buf.set (c.nRead + nbytes) nul }

/-- What is behind the header goes to the front. -/
def shift (headerLength : Nat) : Connection :=
  let n := c.nRead - headerLength - 4
  { c with nRead := n, buf := (memmove c.buf 0 (headerLength + 4) n).set n nul }

def close : Connection := { c with closing := true }

/-- The buffer begins like a message of the delegation protocol. -/
def isDelegation : Bool :=
  c.nRead = 0 && (c.buf.head? = some '0' || c.buf.head? = some 'D')

def call (rc : Option ProtocolError) (uri : Option (List Char)) : Connection :=
  if c.callback then { c with calls := c.calls ++ [⟨c.buf, c.payloadLength, rc, uri⟩] } else c

/-- `reregister_read` of the server; `registers` says whether the read can be registered. -/
def reregisterRead : Connection :=
  if registers then { c with reading := true } else c.close

def requestPayload : Connection :=
  if c.nRead < c.payloadLength then c.reregisterRead registers else c.call none c.uri

/-- `globus_l_gram_protocol_read_request_callback` -/
def readRequestCallback (registers : Bool) : Connection :=
  if result = .failed ∨ result = .eof ∧ c.gotHeader = false then c.close
  else if c.gotHeader then c.requestPayload registers
  else if c.isDelegation then c.reregisterRead registers
  else
    let c := c.count nbytes
    match strstr (crlf ++ crlf) (cstr c.buf) with
    | none => c.reregisterRead registers
    | some headerLength =>
      match parseRequestHeader (cstr c.buf) with
      | .error _ => { c with gotHeader := true, payloadLength := 0 }.close
      | .ok (payloadLength, uri) =>
        ({ c with gotHeader := true, payloadLength := payloadLength, uri := some uri }.shift
          headerLength).requestPayload registers

/-- `callback_exit` of the client. -/
def callbackExit : Connection :=
  let c := if c.rc.isSome || !c.keepOpen then c.call c.rc none else c
  if c.rc.isNone && c.keepOpen then { c with gotHeader := false, nRead := 0, delegating := true }
  else c.close

def replyPayload : Connection :=
  if c.gotHeader ∧ c.nRead ≥ c.payloadLength then c.callbackExit
  else if registers then { c with reading := true }
  else c.callbackExit

/-- `globus_l_gram_protocol_read_reply_callback` -/
def readReplyCallback (registers : Bool) : Connection :=
  if result = .failed ∨ result = .eof ∧ c.gotHeader = false then
    { c with rc := some .protocolFailed }.callbackExit
  else if c.gotHeader then c.replyPayload registers
  else if c.isDelegation then { c with rc := some .protocolFailed }.callbackExit
  else
    let c := c.count nbytes
    match strstr (crlf ++ crlf) (cstr c.buf) with
    | none => c.replyPayload registers
    | some headerLength =>
      match parseReplyHeader (cstr c.buf) with
      | .error e => { c with gotHeader := true, payloadLength := 0, rc := some e }.callbackExit
      | .ok payloadLength =>
        ({ c with gotHeader := true, payloadLength := payloadLength, rc := none }.shift
          headerLength).replyPayload registers

/-- Bytes arrive at the server, and the next read can be registered. -/
def serverRead : Connection :=
  if c.reading then (c.arrive data).readRequestCallback .success data.length true else c

def clientRead : Connection :=
  if c.reading then (c.arrive data).readReplyCallback .success data.length true else c

/-- A connection whose first read is registered. -/
def fresh (buf : List Char) : Connection where
  buf := buf
  nRead := 0
  gotHeader := false
  payloadLength := 0
  uri := none
  rc := none
  callback := true
  keepOpen := false
  reading := true
  closing := false
  delegating := false
  calls := []

/-- The user's callback was called once, without an error, and the buffer begins with the message. -/
def Delivered (m : List Char) (c : Connection) : Prop :=
  ∃ call, c.calls = [call] ∧ call.rc = none ∧ call.buf.take call.payloadLength = m

/-! ## 2. Waiting for the header -/

/-- All bytes so far are in the buffer, and the header is not complete. -/
structure Waiting (sent : List Char) (bufsize : Nat) (c : Connection) : Prop where
  reading : c.reading = true
  gotHeader : c.gotHeader = false
  callback : c.callback = true
  keepOpen : c.keepOpen = false
  rc : c.rc = none
  calls : c.calls = []
  nRead : c.nRead = sent.length
  buf : sent <+: c.buf
  bufsize : c.buf.length = bufsize

theorem waiting_fresh (buf : List Char) : Waiting [] buf.length (fresh buf) :=
  ⟨rfl, rfl, rfl, rfl, rfl, rfl, rfl, nil_prefix, rfl⟩

variable {sent data header m : List Char} {bufsize : Nat} {c : Connection} {payloadLength : Nat}

/-- In a part of the header no end of it is found. -/
theorem strstr_part (hheader : IsHeader header) (hpart : sent <+: header)
    (hlen : sent.length < header.length) (rest : List Char) :
    strstr (crlf ++ crlf) (cstr (sent ++ nul :: rest)) = none := by
  have hnul : nul ∉ sent := fun hmem => hheader.nul (hpart.subset hmem)
  have hfound := hheader.found []
  have hfour : (crlf ++ crlf).length = 4 := rfl
  rw [append_nil] at hfound
  rw [cstr_append hnul]
  exact strstr_of_cut (by decide) hfound hpart (by omega)

/-- The bytes behind the header are at the front. -/
theorem shift_eq {rest : List Char} (hheader : IsHeader header) (hbuf : c.buf = header ++ m ++ nul :: rest)
    (hread : c.nRead = (header ++ m).length) :
    (c.shift (header.length - 4)).nRead = m.length ∧ m <+: (c.shift (header.length - 4)).buf := by
  have hfour := hheader.length
  have hn : c.nRead - (header.length - 4) - 4 = m.length := by
    rw [hread, length_append]
    omega
  have hsrc : header.length - 4 + 4 = header.length := by omega
  refine ⟨hn, ?_⟩
  have hshift : (c.shift (header.length - 4)).buf =
      (memmove c.buf 0 (header.length - 4 + 4) (c.nRead - (header.length - 4) - 4)).set
        (c.nRead - (header.length - 4) - 4) nul := rfl
  have hdrop : (header ++ m ++ nul :: rest).drop header.length = m ++ nul :: rest := by
    rw [append_assoc, drop_left]
  rw [hshift, hn, hsrc, hbuf, memmove, hdrop, take_left, take_zero, nil_append, set_append_right _ _ (Nat.le_refl _)]
  exact prefix_append _ _

/-- The header has been read, and `m` is what was behind it. -/
structure HasHeader (m : List Char) (payloadLength : Nat) (c : Connection) : Prop where
  gotHeader : c.gotHeader = true
  payloadLength : c.payloadLength = payloadLength
  callback : c.callback = true
  keepOpen : c.keepOpen = false
  rc : c.rc = none
  calls : c.calls = []
  nRead : c.nRead = m.length
  buf : m <+: c.buf

/-- More bytes are needed. -/
theorem replyPayload_reads (h : ¬ (c.gotHeader = true ∧ c.nRead ≥ c.payloadLength)) :
    c.replyPayload true = { c with reading := true } := by
  rw [replyPayload, if_neg h, if_pos rfl]

/-! ## 3. One read while the header is awaited -/

/-- What has arrived has been counted. -/
abbrev received (c : Connection) (data : List Char) : Connection := (c.arrive data).count data.length

section Awaited

variable (h : Waiting sent bufsize c) (hlen : (sent ++ data).length < bufsize)

include h hlen

theorem Waiting.arrive_buf : ∃ x rest, (c.arrive data).buf = sent ++ data ++ x :: rest ∧
      (sent ++ data ++ x :: rest).length = bufsize := by
  obtain ⟨r, hr⟩ := h.buf
  have hsize := h.bufsize
  rw [← hr, length_append] at hsize
  rw [length_append] at hlen
  obtain ⟨x, rest, hrest⟩ := exists_cons_of_ne_nil
    (ne_nil_of_length_pos (by rw [length_drop]; omega : 0 < (r.drop data.length).length))
  refine ⟨x, rest, ?_, ?_⟩
  · have harrive : (c.arrive data).buf = write c.buf c.nRead data := rfl
    rw [harrive, ← hr, h.nRead, write_append, hrest]
  · rw [← hrest, length_append, length_append, length_drop]
    omega

/-- What has arrived stands behind what was there, and a `NUL` behind it. -/
theorem Waiting.count_buf : ∃ rest, (c.received data).buf = sent ++ data ++ nul :: rest ∧
      (sent ++ data ++ nul :: rest).length = bufsize := by
  obtain ⟨x, rest, hbuf, hsize⟩ := h.arrive_buf hlen
  refine ⟨rest, ?_, by simpa using hsize⟩
  have hcount : (c.received data).buf = (c.arrive data).buf.set (c.nRead + data.length) nul := rfl
  rw [hcount, hbuf, h.nRead, ← length_append, set_append_right _ _ (Nat.le_refl _), Nat.sub_self]
  rfl

theorem Waiting.count : Waiting (sent ++ data) bufsize { c.received data with reading := true } := by
  obtain ⟨rest, hbuf, hsize⟩ := h.count_buf hlen
  have hread : (c.received data).nRead = c.nRead + data.length := rfl
  refine ⟨rfl, h.gotHeader, h.callback, h.keepOpen, h.rc, h.calls, ?_, ?_, ?_⟩
  · rw [length_append, ← h.nRead]
    exact hread
  · exact hbuf ▸ prefix_append _ _
  · exact (congrArg length hbuf).trans hsize

variable (hheader : IsHeader header)

include hheader

variable (hdata : data ≠ [])

include hdata

theorem Waiting.isDelegation (hsent : sent ++ data <+: header ++ m) : (c.arrive data).isDelegation = false := by
  obtain ⟨x, rest, hbuf, -⟩ := h.arrive_buf hlen
  obtain ⟨f, hf, h0, hD⟩ := hheader.first
  obtain ⟨y, ys, hys⟩ := exists_cons_of_ne_nil (append_ne_nil_of_right_ne_nil sent hdata)
  have hy : y = f := by
    obtain ⟨hs, rfl⟩ := head?_eq_some_iff.mp hf
    rw [hys, cons_append, cons_prefix_cons] at hsent
    exact hsent.1
  have hhead : (c.arrive data).buf.head? = some f := by
    rw [hbuf, hys, hy]
    rfl
  rw [Connection.isDelegation, hhead]
  simp [h0, hD]

omit hdata in
/-- The buffer with the header in it. -/
theorem Waiting.shift (hsent : sent ++ data = header ++ m) (uri : Option (List Char)) : HasHeader m payloadLength
      ({ c.received data with
        gotHeader := true, payloadLength := payloadLength, uri := uri }.shift (header.length - 4)) := by
  obtain ⟨rest, hbuf, -⟩ := h.count_buf hlen
  have hread : (c.received data).nRead = (header ++ m).length := by
    rw [← hsent, length_append, ← h.nRead]
    rfl
  rw [hsent] at hbuf
  obtain ⟨hn, hm⟩ := @shift_eq header m { c.received data with
    gotHeader := true, payloadLength := payloadLength, uri := uri } rest hheader hbuf hread
  exact ⟨rfl, rfl, h.callback, h.keepOpen, h.rc, h.calls, hn, hm⟩

omit hdata in
/-- The text in the buffer when the header is complete. -/
theorem Waiting.cstr_received (hsent : sent ++ data = header ++ m) : ∃ t, cstr (c.received data).buf = header ++ t := by
  obtain ⟨rest, hbuf, -⟩ := h.count_buf hlen
  rw [hbuf, hsent, append_assoc, cstr_append_left hheader.nul]
  exact ⟨_, rfl⟩

theorem Waiting.serverRead_waits (hpart : sent ++ data <+: header)
    (hlt : (sent ++ data).length < header.length) : Waiting (sent ++ data) bufsize (c.serverRead data) := by
  obtain ⟨rest, hbuf, -⟩ := h.count_buf hlen
  have hgot : (c.arrive data).gotHeader = false := h.gotHeader
  have hdelegation := h.isDelegation (m := []) hlen hheader hdata (by rwa [append_nil])
  rw [serverRead, if_pos h.reading, readRequestCallback, hgot, hdelegation]
  simp only [hbuf, strstr_part hheader hpart hlt]
  exact h.count hlen

theorem Waiting.serverRead_header {uri : List Char} (hsent : sent ++ data = header ++ m)
    (hparse : ∀ t, parseRequestHeader (header ++ t) = .ok (payloadLength, uri)) :
    ∃ c', HasHeader m payloadLength c' ∧ c.serverRead data = c'.requestPayload true := by
  obtain ⟨t, htext⟩ := h.cstr_received hlen hheader hsent
  have hgot : (c.arrive data).gotHeader = false := h.gotHeader
  refine ⟨_, h.shift hlen hheader hsent (some uri), ?_⟩
  rw [serverRead, if_pos h.reading, readRequestCallback, hgot,
    h.isDelegation hlen hheader hdata ⟨[], by rw [append_nil, hsent]⟩]
  simp only [htext, hheader.found, hparse]
  rfl

theorem Waiting.clientRead_waits (hpart : sent ++ data <+: header)
    (hlt : (sent ++ data).length < header.length) : Waiting (sent ++ data) bufsize (c.clientRead data) := by
  obtain ⟨rest, hbuf, -⟩ := h.count_buf hlen
  have hgot : (c.arrive data).gotHeader = false := h.gotHeader
  have hgot' : (c.received data).gotHeader = false := h.gotHeader
  have hdelegation := h.isDelegation (m := []) hlen hheader hdata (by rwa [append_nil])
  rw [clientRead, if_pos h.reading, readReplyCallback, if_neg (by simp), hgot, hdelegation]
  simp only [hbuf, strstr_part hheader hpart hlt]
  show Waiting _ _ ((c.received data).replyPayload true)
  rw [replyPayload_reads fun hboth => Bool.false_ne_true (hgot'.symm.trans hboth.1)]
  exact h.count hlen

theorem Waiting.clientRead_header (hsent : sent ++ data = header ++ m)
    (hparse : ∀ t, parseReplyHeader (header ++ t) = .ok payloadLength) :
    ∃ c', HasHeader m payloadLength c' ∧ c.clientRead data = c'.replyPayload true := by
  obtain ⟨t, htext⟩ := h.cstr_received hlen hheader hsent
  have hgot : (c.arrive data).gotHeader = false := h.gotHeader
  have hrc : (c.received data).rc = none := h.rc
  refine ⟨_, h.shift hlen hheader hsent c.uri, ?_⟩
  rw [clientRead, if_pos h.reading, readReplyCallback, if_neg (by simp), hgot,
    h.isDelegation hlen hheader hdata ⟨[], by rw [append_nil, hsent]⟩]
  simp only [htext, hheader.found, hparse, ← hrc]
  rfl

end Awaited

/-! ## 4. Whole runs -/

/-- The header was complete before the message was: the bytes that follow are not counted. -/
structure Stuck (c : Connection) : Prop where
  reading : c.reading = true
  gotHeader : c.gotHeader = true
  short : c.nRead < c.payloadLength
  calls : c.calls = []

theorem Stuck.not_delivered (h : Stuck c) : ¬ Delivered m c := by
  rintro ⟨call, hcalls, -⟩
  rw [h.calls] at hcalls
  cases hcalls

/-- What a read does while the header is awaited and when it is complete; `Done` is what holds when the
message came with the end of its header. -/
structure Reads (read : Connection → List Char → Connection) (header m : List Char) (bufsize : Nat)
    (Done : Connection → Prop) : Prop where
  waits : ∀ {c sent data}, Waiting sent bufsize c → data ≠ [] → sent ++ data <+: header →
    (sent ++ data).length < header.length → Waiting (sent ++ data) bufsize (read c data)
  done : ∀ {c sent data}, Waiting sent bufsize c → data ≠ [] → sent ++ data = header ++ m →
    Done (read c data)
  stuck : ∀ {c sent data m₁ m₂}, Waiting sent bufsize c → data ≠ [] → sent ++ data = header ++ m₁ →
    m = m₁ ++ m₂ → m₂ ≠ [] → Stuck (read c data)
  stays : ∀ {c data}, Stuck c → Stuck (read c data)

variable {read : Connection → List Char → Connection} {chunks : List (List Char)}
  {Done : Connection → Prop}

theorem Reads.stays_run (h : Reads read header m bufsize Done) (chunks : List (List Char)) (hc : Stuck c) :
    Stuck (chunks.foldl read c) := by
  induction chunks generalizing c with
  | nil => exact hc
  | cons d ds ih => exact ih (h.stays hc)

/-- **The last read decides**: the message is complete if that read begins in the header. -/
theorem Reads.run {read : Connection → List Char → Connection} (h : Reads read header m bufsize Done) :
    ∀ (chunks : List (List Char)) {c : Connection} {sent : List Char}, Waiting sent bufsize c →
      sent.length < header.length → chunks ≠ [] → (∀ d ∈ chunks, d ≠ []) → sent ++ chunks.flatten = header ++ m →
      (Done (chunks.foldl read c) ∧ (sent ++ chunks.dropLast.flatten).length < header.length) ∨
      (Stuck (chunks.foldl read c) ∧ header.length ≤ (sent ++ chunks.dropLast.flatten).length)
  | [], _, _, _, _, hne, _, _ => absurd rfl hne
  | [d], c, sent, hwait, hsent, _, hchunks, hall => by
    refine .inl ⟨h.done hwait (hchunks d mem_cons_self) (by simpa using hall), ?_⟩
    simpa using hsent
  | d :: d' :: ds, c, sent, hwait, hsent, _, hchunks, hall => by
    have hd := hchunks d mem_cons_self
    have hall : sent ++ d ++ (d' :: ds).flatten = header ++ m := by
      rw [← hall, append_assoc]
      rfl
    have hlast : sent ++ (d :: d' :: ds).dropLast.flatten = sent ++ d ++ (d' :: ds).dropLast.flatten := by
      rw [dropLast_cons_cons, flatten_cons, append_assoc]
    rw [foldl_cons, hlast]
    by_cases hlt : (sent ++ d).length < header.length
    · have hpart : sent ++ d <+: header :=
        prefix_of_prefix_length_le ⟨_, hall⟩ (prefix_append header m) (Nat.le_of_lt hlt)
      exact Reads.run h (d' :: ds) (h.waits hwait hd hpart hlt) hlt (cons_ne_nil _ _)
        (fun e he => hchunks e (mem_cons_of_mem d he)) hall
    · have hle := Nat.le_of_not_lt hlt
      obtain ⟨m₁, hm₁⟩ : header <+: sent ++ d :=
        prefix_of_prefix_length_le (prefix_append header m) ⟨_, hall⟩ hle
      have hm : m = m₁ ++ (d' :: ds).flatten := by
        rw [← hm₁, append_assoc] at hall
        exact (append_cancel_left hall).symm
      have hrest : (d' :: ds).flatten ≠ [] := by
        rw [flatten_cons]
        exact append_ne_nil_of_left_ne_nil (hchunks d' (by simp)) _
      refine .inr ⟨h.stays_run _ (h.stuck hwait hd hm₁.symm hm hrest), ?_⟩
      have hlen : (sent ++ d ++ (d' :: ds).dropLast.flatten).length =
          (sent ++ d).length + ((d' :: ds).dropLast.flatten).length := length_append
      omega

/-- The rules for a read that hands the connection to `payload` when the header is complete. -/
theorem reads_of_payload {payload : Connection → Connection} (hfits : (header ++ m).length < bufsize)
    (hwaits : ∀ {c sent data}, Waiting sent bufsize c → (sent ++ data).length < bufsize → data ≠ [] →
      sent ++ data <+: header → (sent ++ data).length < header.length → Waiting (sent ++ data) bufsize (read c data))
    (hread : ∀ {c sent data m₁}, Waiting sent bufsize c → (sent ++ data).length < bufsize → data ≠ [] →
      sent ++ data = header ++ m₁ → ∃ c', HasHeader m₁ m.length c' ∧ read c data = payload c')
    (hdone : ∀ {c}, HasHeader m m.length c → Delivered m (payload c))
    (hstuck : ∀ {c m₁}, HasHeader m₁ m.length c → m₁.length < m.length → Stuck (payload c))
    (hstays : ∀ {c data}, Stuck c → Stuck (read c data)) : Reads read header m bufsize (Delivered m) where
  waits := by
    intro c sent data h hdata hpart hlt
    rw [length_append] at hfits
    exact hwaits h (by omega) hdata hpart hlt
  done := by
    intro c sent data h hdata hsent
    obtain ⟨c', hc', heq⟩ := hread h (hsent ▸ hfits) hdata hsent
    rw [heq]
    exact hdone hc'
  stuck := by
    intro c sent data m₁ m₂ h hdata hsent hm hne
    have hpos := length_pos_iff.mpr hne
    have hlen : (header ++ m).length = (header ++ m₁).length + m₂.length := by
      rw [hm, ← append_assoc, length_append]
    obtain ⟨c', hc', heq⟩ := hread h (by rw [hsent]; omega) hdata hsent
    rw [heq]
    refine hstuck hc' ?_
    rw [hm, length_append]
    omega
  stays := hstays

/-! ## 5. The server and the client -/

/-- A server whose message did not come with its header goes on reading. -/
theorem HasHeader.requestPayload_stuck {n : Nat} (h : HasHeader m n c) (hlt : m.length < n) :
    Stuck (c.requestPayload true) := by
  have hshort : c.nRead < c.payloadLength := by rwa [h.nRead, h.payloadLength]
  rw [requestPayload, if_pos hshort]
  exact ⟨rfl, h.gotHeader, hshort, h.calls⟩

theorem HasHeader.requestPayload_done (h : HasHeader m m.length c) : Delivered m (c.requestPayload true) := by
  have hnot : ¬ c.nRead < c.payloadLength := by
    rw [h.nRead, h.payloadLength]
    exact Nat.lt_irrefl _
  rw [requestPayload, if_neg hnot, Connection.call, if_pos h.callback, h.calls]
  refine ⟨_, rfl, rfl, ?_⟩
  rw [h.payloadLength]
  exact (prefix_iff_eq_take.mp h.buf).symm

theorem Stuck.serverRead (h : Stuck c) (data : List Char) : Stuck (c.serverRead data) := by
  have hgot : (c.arrive data).gotHeader = true := h.gotHeader
  have hshort : (c.arrive data).nRead < (c.arrive data).payloadLength := h.short
  rw [Connection.serverRead, if_pos h.reading, readRequestCallback, hgot, requestPayload, if_pos hshort]
  exact ⟨rfl, h.gotHeader, h.short, h.calls⟩

theorem reads_serverRead {uri : List Char} (hheader : IsHeader header)
    (hparse : ∀ t, parseRequestHeader (header ++ t) = .ok (m.length, uri))
    (hfits : (header ++ m).length < bufsize) : Reads serverRead header m bufsize (Delivered m) :=
  reads_of_payload hfits (fun h hlen => h.serverRead_waits hlen hheader)
    (fun h hlen hdata hsent => h.serverRead_header hlen hheader hdata hsent hparse)
    HasHeader.requestPayload_done HasHeader.requestPayload_stuck fun h => h.serverRead _

theorem HasHeader.replyPayload_stuck {n : Nat} (h : HasHeader m n c) (hlt : m.length < n) :
    Stuck (c.replyPayload true) := by
  have hshort : c.nRead < c.payloadLength := by rwa [h.nRead, h.payloadLength]
  rw [replyPayload_reads fun hboth => Nat.not_le_of_lt hshort hboth.2]
  exact ⟨rfl, h.gotHeader, hshort, h.calls⟩

theorem HasHeader.replyPayload_done (h : HasHeader m m.length c) : Delivered m (c.replyPayload true) := by
  have hfull : c.nRead ≥ c.payloadLength := by
    rw [h.nRead, h.payloadLength]
  rw [replyPayload, if_pos ⟨h.gotHeader, hfull⟩, callbackExit]
  simp only [h.rc, h.keepOpen, Option.isSome_none, Bool.not_false, Bool.or_true, if_true, Connection.call,
    h.callback, h.calls, Option.isNone_none, Bool.and_false, Bool.false_eq_true, if_false]
  refine ⟨_, rfl, rfl, ?_⟩
  simp only [h.payloadLength]
  exact (prefix_iff_eq_take.mp h.buf).symm

theorem Stuck.clientRead (h : Stuck c) (data : List Char) : Stuck (c.clientRead data) := by
  have hgot : (c.arrive data).gotHeader = true := h.gotHeader
  have hshort : (c.arrive data).nRead < (c.arrive data).payloadLength := h.short
  rw [Connection.clientRead, if_pos h.reading, readReplyCallback, if_neg (by simp), if_pos hgot,
    replyPayload_reads fun hboth => Nat.not_le_of_lt hshort hboth.2]
  exact ⟨rfl, h.gotHeader, h.short, h.calls⟩

theorem reads_clientRead (hheader : IsHeader header) (hparse : ∀ t, parseReplyHeader (header ++ t) = .ok m.length)
    (hfits : (header ++ m).length < bufsize) : Reads clientRead header m bufsize (Delivered m) :=
  reads_of_payload hfits (fun h hlen => h.clientRead_waits hlen hheader)
    (fun h hlen hdata hsent => h.clientRead_header hlen hheader hdata hsent hparse)
    HasHeader.replyPayload_done HasHeader.replyPayload_stuck fun h => h.clientRead _

/-- A reply whose header is not understood: the callback is told of an error. -/
theorem reads_clientRead_error {e : ProtocolError} (hheader : IsHeader header)
    (hparse : ∀ t, parseReplyHeader (header ++ t) = .error e) (hfits : header.length < bufsize) :
    Reads clientRead header [] bufsize (fun c => ∃ call, c.calls = [call] ∧ call.rc = some e) where
  waits h hdata hpart hlt := h.clientRead_waits (Nat.lt_trans hlt hfits) hheader hdata hpart hlt
  done := by
    intro c sent data h hdata hsent
    have hlen : (sent ++ data).length < bufsize := by rwa [hsent, append_nil]
    obtain ⟨t, htext⟩ := h.cstr_received hlen hheader hsent
    have hgot : (c.arrive data).gotHeader = false := h.gotHeader
    have hcalls : (c.received data).calls = [] := h.calls
    have hcallback : (c.received data).callback = true := h.callback
    rw [clientRead, if_pos h.reading, readReplyCallback, if_neg (by simp), hgot,
    h.isDelegation hlen hheader hdata ⟨[], by rw [append_nil, hsent]⟩]
    simp only [htext, hheader.found, hparse, callbackExit, Option.isSome_some, Bool.true_or, if_true, Connection.call,
      hcallback, hcalls, Option.isNone_some, Bool.false_and, Bool.false_eq_true, if_false]
    exact ⟨_, rfl, rfl⟩
  stuck := by
    intro c sent data m₁ m₂ _ _ _ hm hne
    exact absurd (append_eq_nil_iff.mp hm.symm).2 hne
  stays h := h.clientRead _

/-! ## 6. Whole messages -/

/-- The run of a new connection. -/
theorem Reads.run_fresh {buf : List Char} (h : Reads read header m buf.length Done)
    (hheader : IsHeader header) (hchunks : ∀ d ∈ chunks, d ≠ []) (hall : chunks.flatten = header ++ m) :
    (Done (chunks.foldl read (fresh buf)) ∧ chunks.dropLast.flatten.length < header.length) ∨
    (Stuck (chunks.foldl read (fresh buf)) ∧ header.length ≤ chunks.dropLast.flatten.length) := by
  have hpos : 0 < header.length := Nat.lt_of_lt_of_le (by decide) hheader.length
  have hne : chunks ≠ [] := by
    rintro rfl
    have hnil := (append_eq_nil_iff.mp hall.symm).1
    exact ne_nil_of_length_pos hpos hnil
  exact h.run chunks (waiting_fresh buf) hpos hne hchunks hall

theorem Reads.delivered_iff {buf : List Char} (h : Reads read header m buf.length (Delivered m)) (hheader : IsHeader header)
    (hchunks : ∀ d ∈ chunks, d ≠ []) (hall : chunks.flatten = header ++ m) :
    Delivered m (chunks.foldl read (fresh buf)) ↔ chunks.dropLast.flatten.length < header.length := by
  rcases h.run_fresh hheader hchunks hall with ⟨hdone, hlt⟩ | ⟨hstuck, hle⟩
  · exact iff_of_true hdone hlt
  · exact iff_of_false hstuck.not_delivered (Nat.not_lt_of_le hle)

/-- `GLOBUS_GRAM_PROTOCOL_MAX_MSG_SIZE` -/
def maxMsgSize : Nat := 64000

theorem server_delivered_iff {buf urlPath host m : List Char}
    (hpath : IsWord urlPath) (hhost : IsWord host) (hbuf : buf.length = maxMsgSize)
    (hfits : (requestHeader urlPath host m.length ++ m).length < maxMsgSize) (hchunks : ∀ d ∈ chunks, d ≠ [])
    (hall : chunks.flatten = requestHeader urlPath host m.length ++ m) :
    Delivered m (chunks.foldl serverRead (fresh buf)) ↔
      chunks.dropLast.flatten.length < (requestHeader urlPath host m.length).length := by
  have hheader := isHeader_requestHeader hpath hhost m.length
  have hsize : m.length < 2 ^ 63 := by
    rw [length_append, maxMsgSize] at hfits
    omega
  exact (reads_serverRead hheader (parseRequestHeader_requestHeader hpath hhost hsize)
    (hbuf ▸ hfits)).delivered_iff hheader hchunks hall

theorem client_delivered_iff {buf m : List Char} (hbuf : buf.length = maxMsgSize)
    (hfits : (replyHeader 200 m.length ++ m).length < maxMsgSize) (hchunks : ∀ d ∈ chunks, d ≠ [])
    (hall : chunks.flatten = replyHeader 200 m.length ++ m) : Delivered m (chunks.foldl clientRead (fresh buf)) ↔
      m ≠ [] ∧ chunks.dropLast.flatten.length < (replyHeader 200 m.length).length := by
  have hheader := isHeader_replyHeader m.length
  by_cases hm : m = []
  · subst hm
    have hlen : (replyHeader 200 0).length < buf.length := by
      rw [hbuf]
      rwa [append_nil] at hfits
    refine iff_of_false ?_ fun hboth => hboth.1 rfl
    rcases (reads_clientRead_error hheader parseReplyHeader_emptyHeader hlen).run_fresh hheader hchunks
      hall with ⟨⟨call, hcall, hrc⟩, -⟩ | ⟨hstuck, -⟩
    · rintro ⟨call', hcall', hrc', -⟩
      rw [hcall] at hcall'
      obtain rfl := (cons.inj hcall').1
      rw [hrc] at hrc'
      cases hrc'
    · exact hstuck.not_delivered
  · have hzero : m.length ≠ 0 := fun hlen => hm (length_eq_zero_iff.mp hlen)
    have hsize : m.length < 2 ^ 63 := by
      rw [length_append, maxMsgSize] at hfits
      omega
    rw [and_iff_right hm]
    exact (reads_clientRead hheader (parseReplyHeader_replyHeader hzero hsize)
      (hbuf ▸ hfits)).delivered_iff hheader hchunks hall

/-- **When a framed message arrives.**  The last read must begin in the header, and a reply must not be
empty. -/
theorem framed_delivered_iff {buf m : List Char} {chunks : List (List Char)} (hbuf : buf.length = maxMsgSize)
    (hfits : chunks.flatten.length < maxMsgSize) (hchunks : ∀ d ∈ chunks, d ≠ []) :
    (∀ {urlPath host : List Char}, IsWord urlPath → IsWord host →
      frameRequest (some ⟨host, some urlPath⟩) m = .ok chunks.flatten →
      (Delivered m (chunks.foldl serverRead (fresh buf)) ↔
        chunks.dropLast.flatten.length < chunks.flatten.length - m.length)) ∧
    (frameReply 200 m = chunks.flatten → (Delivered m (chunks.foldl clientRead (fresh buf)) ↔
        m ≠ [] ∧ chunks.dropLast.flatten.length < chunks.flatten.length - m.length)) := by
  constructor
  · intro urlPath host hpath hhost hframe
    have hall : chunks.flatten = requestHeader urlPath host m.length ++ m := (Except.ok.inj hframe).symm
    rw [hall] at hfits ⊢
    rw [length_append, Nat.add_sub_cancel]
    exact server_delivered_iff hpath hhost hbuf hfits hchunks hall
  · intro hframe
    have hall : chunks.flatten = replyHeader 200 m.length ++ m := hframe.symm
    rw [hall] at hfits ⊢
    rw [length_append, Nat.add_sub_cancel]
    exact client_delivered_iff hbuf hfits hchunks hall

theorem framed_delivered_at_once :
    Delivered ['x'] (serverRead (fresh (replicate maxMsgSize nul))
      (requestHeader ['/'] ['h'] 1 ++ ['x'])) := by
  have hpath : IsWord ['/'] := ⟨by decide, forall_mem_singleton.mpr (by decide)⟩
  have hhost : IsWord ['h'] := ⟨by decide, forall_mem_singleton.mpr (by decide)⟩
  have hsize : (replicate maxMsgSize nul).length = maxMsgSize := length_replicate
  have h := @framed_delivered_iff _ ['x'] [requestHeader ['/'] ['h'] 1 ++ ['x']] hsize (by decide) (by decide)
  exact (h.1 hpath hhost rfl).mpr (by decide)

/-- A body that comes after its header is never delivered, and neither is an empty reply. -/
theorem framed_not_delivered :
    frameRequest (some ⟨['h'], some ['/']⟩) ['x'] = .ok [requestHeader ['/'] ['h'] 1, ['x']].flatten ∧
    ¬ Delivered ['x'] ([requestHeader ['/'] ['h'] 1, ['x']].foldl serverRead
      (fresh (replicate maxMsgSize nul))) ∧
    ¬ Delivered [] ([frameReply 200 []].foldl clientRead (fresh (replicate maxMsgSize nul))) := by
  have hpath : IsWord ['/'] := ⟨by decide, forall_mem_singleton.mpr (by decide)⟩
  have hhost : IsWord ['h'] := ⟨by decide, forall_mem_singleton.mpr (by decide)⟩
  refine ⟨rfl, fun h => ?_, fun h => ?_⟩
  · have hlt := (server_delivered_iff hpath hhost length_replicate (by decide) (by decide) rfl).mp h
    exact absurd hlt (by decide)
  · exact absurd rfl ((client_delivered_iff length_replicate (by decide) (by decide) (by decide)).mp h).1

end Connection

end Gct.Gram
