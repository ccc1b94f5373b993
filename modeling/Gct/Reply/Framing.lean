/-
# Runs of a control connection

A reader is always queued by the callback of a write (`globus_l_ftp_control_write_cb`), which registers a
read if the queue was empty.  The runs here are those of a connection on which the bytes of a list of
replies arrive in pieces, while readers are queued.  They are compared with an ideal connection, a
`Mailbox.Box` that hands over every reply as soon as it is complete and a reader is there.

One call of `globus_l_ftp_control_read_cb` does what the ideal connection does, if the first reply was
not complete before (`readCb_settle`): then all that is behind it came with this read.  A reader that is
queued while a complete reply is left over does not get it.  So the runs agree exactly if no reader is
queued at such a time (`framing_iff`).
-/
import Mathlib.Data.List.Forall2
import Gct.Lib.Mailbox
import Gct.Reply.Format959
import Gct.Reply.ReadCb

namespace Gct

open Mailbox List ControlHandle Response Reply

/-! ## 1. Runs -/

/-- What happens on a connection. -/
inductive ControlEvent (ρ : Type)
  /-- a write is done, and its reader is queued -/
  | queueReader (r : ρ)
  /-- a read is done -/
  | read (nbytes : Nat)
deriving DecidableEq

/-- A connection, and the bytes that are still to be read. -/
structure Session (ρ : Type) where
  handle : ControlHandle ρ
  wire : List Char
deriving DecidableEq

/-- `GLOBUS_FTP_CONTROL_READ_BUFFER_SIZE` -/
def controlReadBufferSize : Nat := 1000

variable {ρ : Type} (unwrap : List Char → Option (List Char))
  (callback : ρ → Option (List Char) → List ρ)

/-- A new connection on which these replies will arrive. -/
def Session.start (replies : List Reply) : Session ρ := ⟨.init, replies.flatMap render⟩

def Session.step (s : Session ρ) : ControlEvent ρ → Except ReadFault (Session ρ)
  | .queueReader r =>
    .ok { s with handle := { s.handle with
      readers := s.handle.readers ++ [r]
      reading := s.handle.reading || s.handle.readers.isEmpty } }
  | .read nbytes =>
    match s.handle.readCb unwrap callback (s.wire.take nbytes) with
    | .error e => .error e
    | .ok handle => .ok ⟨handle, s.wire.drop nbytes⟩

/-- A read is done only if it is registered, of at least one byte and at most those there are. -/
def Session.possible (s : Session ρ) : ControlEvent ρ → Bool
  | .queueReader _ => true
  | .read nbytes => s.handle.reading && decide (1 ≤ nbytes) && decide (nbytes ≤ controlReadBufferSize)
      && decide (nbytes ≤ s.wire.length)

/-- All events of the run are possible. -/
def Session.possibleRun (s : Session ρ) : List (ControlEvent ρ) → Bool
  | [] => true
  | e :: es => s.possible e && match s.step unwrap callback e with
    | .error _ => true
    | .ok s' => s'.possibleRun es

/-- The buffer begins with a complete reply. -/
def HoldsReply (buf : List Char) : Prop := ∃ r : Reply, r.render <+: buf

/-- No reader is queued while a complete reply is left in the buffer. -/
def Session.QueuedInTime (s : Session ρ) : List (ControlEvent ρ) → Prop
  | [] => True
  | e :: es => (∀ r, e = .queueReader r → ¬ HoldsReply s.handle.response.responseBuffer)
      ∧ ∀ s', s.step unwrap callback e = .ok s' → s'.QueuedInTime es

/-! ## 2. The ideal connection -/

/-- A preliminary reply leaves its reader in the queue. -/
def Reply.Preliminary (r : Reply) : Prop := r.responseClass = .positivePreliminaryReply

instance : DecidablePred Reply.Preliminary := fun r =>
  inferInstanceAs (Decidable (r.responseClass = .positivePreliminaryReply))

/-- The readers that are queued while the callback for this reply runs. -/
def queuedBy (r : ρ) (reply : Reply) : List ρ := callback r (some (cString reply.render))

/-- Hand over the complete replies. -/
def settleReplies : List Reply → Nat → List ρ → List (ρ × Reply) → Box Reply ρ :=
  settle (fun r => r.render.length) Reply.Preliminary (queuedBy callback)

def idealStep (b : Box Reply ρ) : ControlEvent ρ → Box Reply ρ
  | .queueReader r =>
    b.enqueue (fun r => r.render.length) Reply.Preliminary (queuedBy callback) r
  | .read nbytes => b.receive (fun r => r.render.length) Reply.Preliminary (queuedBy callback) nbytes

/-- The reader is called with this reply: its bytes, unaltered and ended by a NUL, its code and its
class; `response_length` is the length of the reply with the NUL, unless it is a preliminary one. -/
def HandedOver (call : ρ × Option Response) (entry : ρ × Reply) : Prop :=
  call.1 = entry.1 ∧ ∃ response rest, call.2 = some response
    ∧ response.responseBuffer = entry.2.render ++ nul :: rest
    ∧ (¬ entry.2.Preliminary → rest = [])
    ∧ response.code = entry.2.code ∧ response.responseClass = entry.2.responseClass

/-- The connection is in the state of the ideal one, on which the replies arrive in their order. -/
structure ControlHandle.Matches (h : ControlHandle ρ) (b : Box Reply ρ) : Prop where
  buffer : h.response.responseBuffer = (b.upcoming.flatMap render).take b.avail
  size : h.response.responseBuffer.length ≤ h.response.responseBufferSize
  readers : h.readers = b.readers
  reading : h.reading = !b.readers.isEmpty
  calls : List.Forall₂ HandedOver h.calls b.log

/-! ## 3. One reply -/

variable {unwrap callback}

section Round

variable {h : ControlHandle ρ} {r : ρ} {rs : List ρ} {reply : Reply} {rest buf : List Char}

/-- The C string in a buffer ends at the NUL behind the reply. -/
theorem cString_append (a b : List Char) : cString (a ++ nul :: b) = cString a := by
  induction a with
  | nil => simp [cString]
  | cons c a ih =>
    unfold cString at ih ⊢
    rw [cons_append, takeWhile_cons, takeWhile_cons, ih]

/-- The bytes behind the reply are the last ones of the read, if all of them came with it. -/
theorem copyBack_of_suffix (hs : rest <:+ buf) : h.copyBack buf rest.length
      = .ok { h with response := { h.response with responseBuffer := rest } } := by
  obtain ⟨t, rfl⟩ := hs
  have hlen : (t ++ rest).length - rest.length = t.length := by simp
  rw [copyBack, if_neg (by simp), hlen, drop_left]

variable (unwrap callback) in
/-- The search for a reply in the buffer, and what follows it. -/
def ControlHandle.search (h : ControlHandle ρ) (buf : List Char)
    (rounds hint : Nat) : Except ReadFault (ControlHandle ρ) :=
  h.checkReply unwrap callback hint (readLoop unwrap callback buf rounds)

/-- The response that the reader is called with. -/
def ControlHandle.handed (h : ControlHandle ρ) (reply : Reply) (rest : List Char) : Response :=
  if reply.Preliminary then h.response.found reply rest
  else { h.response.found reply rest with responseBuffer := reply.render ++ [nul] }

variable (callback) in
/-- The handle after the reader `r` was handed the reply. -/
def ControlHandle.handOver (h : ControlHandle ρ) (r : ρ)
    (rs : List ρ) (reply : Reply) (rest : List Char) : ControlHandle ρ :=
  { response := { h.response.found reply rest with responseBuffer := rest }
    readers := nextReaders Reply.Preliminary (queuedBy callback) r rs reply
    reading := h.reading
    calls := h.calls ++ [(r, some (h.handed reply rest))] }

/-- **A round of the loop** with a complete reply, if all that is behind it came with the last read. -/
theorem search_render (hbuf : h.response.responseBuffer = reply.render ++ rest)
    (hreaders : h.readers = r :: rs) {hint : Nat} (hhint : hint < reply.render.length)
    (hs : rest <:+ buf) (rounds : Nat) : h.search unwrap callback buf (rounds + 1) hint
      = if (h.handOver callback r rs reply rest).readers.isEmpty then
          .ok { h.handOver callback r rs reply rest with reading := false }
        else (h.handOver callback r rs reply rest).search unwrap callback buf rounds 0 := by
  have hrest : (h.response.found reply rest).responseBuffer.length - (reply.render.length + 1) = rest.length := by
    simp [found]
    omega
  have hcstring : ∀ rest, cString (reply.render ++ nul :: rest) = cString reply.render :=
    fun rest => cString_append _ _
  rw [search, checkReply, endOfReply_render unwrap hbuf (.inl hhint)]
  simp only [readLoop, hreaders, if_neg (Nat.succ_ne_zero reply.render.length), hrest]
  by_cases hp : reply.Preliminary
  · have hclass : (h.response.found reply rest).responseClass = .positivePreliminaryReply := hp
    have hreaders' : (h.handOver callback r rs reply rest).readers = r :: rs ++ queuedBy callback r reply := by
      simp [handOver, nextReaders, hp]
    rw [if_pos hclass, copyBack_of_suffix hs, hreaders', if_neg (by simp)]
    simp only [call, search, handOver, handed, if_pos hp, nextReaders, queuedBy, Option.map_some, found, hcstring]
  · have hclass : ¬ (h.response.found reply rest).responseClass = .positivePreliminaryReply := hp
    have hreaders' : (h.handOver callback r rs reply rest).readers = rs ++ queuedBy callback r reply := by
      simp [handOver, nextReaders, hp]
    have htake : (h.response.found reply rest).responseBuffer.take (reply.render.length + 1) = reply.render ++ [nul] := by
      have hfront : reply.render.take (reply.render.length + 1) = reply.render :=
        take_of_length_le (Nat.le_succ _)
      simp [found, take_append, hfront]
    rw [if_neg hclass, copyBack_of_suffix hs, hreaders', htake]
    simp only [call, search, handOver, handed, if_neg hp, nextReaders, queuedBy, Option.map_some, found, hcstring,
      cons_append, tail_cons]

/-- The reader is called with the reply. -/
theorem handedOver_handed (h : ControlHandle ρ) (r : ρ) (reply : Reply) (rest : List Char) :
    HandedOver (r, some (h.handed reply rest)) (r, reply) := by
  by_cases hp : reply.Preliminary
  · refine ⟨rfl, h.handed reply rest, rest, rfl, ?_, fun hn => absurd hp hn, ?_⟩
    · rw [handed, if_pos hp]
      rfl
    · rw [handed, if_pos hp]
      exact ⟨rfl, rfl⟩
  · refine ⟨rfl, h.handed reply rest, [], rfl, ?_, fun _ => rfl, ?_⟩
    · rw [handed, if_neg hp]
    · rw [handed, if_neg hp]
      exact ⟨rfl, rfl⟩

end Round

/-! ## 4. One read -/

variable {replies : List Reply} {n : Nat}

section Read

theorem endOfReply_nil {response : Response} (hbuf : response.responseBuffer = []) (hint : Nat) :
    response.endOfReply unwrap hint = .ok (0, response) := by
  simp [endOfReply, hbuf, replyLoop]

variable (unwrap) in
/-- In a buffer that breaks off in the first reply nothing is found. -/
theorem endOfReply_of_not_headWhole {response : Response}
    (hbuf : response.responseBuffer = (replies.flatMap render).take n)
    (hno : ¬ HeadWhole (fun r : Reply => r.render.length) replies n) (hint : Nat) :
    response.endOfReply unwrap hint = .ok (0, response) := by
  cases replies with
  | nil => exact endOfReply_nil (by simpa using hbuf) hint
  | cons reply replies =>
    have hlt : n < reply.render.length := by simpa [HeadWhole] using hno
    have hpart : response.responseBuffer = reply.render.take n := by
      rw [hbuf, flatMap_cons, take_append_of_le_length hlt.le]
    refine endOfReply_of_prefix unwrap (r := reply) ?_ ?_ hint
    · rw [hpart]
      exact take_prefix _ _
    · rw [hpart, length_take]
      omega

variable {h : ControlHandle ρ} {log : List (ρ × Reply)} {b : Box Reply ρ}

section

variable (hbuf : h.response.responseBuffer = (replies.flatMap render).take n)

include hbuf

/-- With no complete reply in the buffer the next read is registered. -/
theorem search_of_not_headWhole (hno : ¬ HeadWhole (fun r : Reply => r.render.length) replies n) (buf : List Char)
    (rounds hint : Nat) : h.search unwrap callback buf (rounds + 1) hint = .ok { h with reading := true } := by
  simp [search, checkReply, endOfReply_of_not_headWhole unwrap hbuf hno hint, readLoop]

/-- **The loop hands over what the ideal connection hands over**, if all that is behind the first reply
came with the last read. -/
theorem search_settle {r : ρ} {rs : List ρ} {buf : List Char} {rounds hint : Nat}
    (hsize : h.response.responseBuffer.length ≤ h.response.responseBufferSize)
    (hreaders : h.readers = r :: rs) (hcalls : List.Forall₂ HandedOver h.calls log)
    (hlast : ∀ reply ∈ replies.head?, hint < reply.render.length
      ∧ h.response.responseBuffer.drop reply.render.length <:+ buf)
    (hrounds : h.response.responseBuffer.length < rounds) : ∃ h', h.search unwrap callback buf rounds hint = .ok h'
      ∧ h'.Matches (settleReplies callback replies n (r :: rs) log) := by
  induction replies generalizing n h r rs log rounds hint with
  | nil =>
    obtain ⟨rounds, rfl⟩ := Nat.exists_eq_succ_of_ne_zero (Nat.ne_zero_of_lt hrounds)
    have hno : ¬ HeadWhole (fun r : Reply => r.render.length) [] n := by simp [HeadWhole]
    refine ⟨_, search_of_not_headWhole hbuf hno buf rounds hint, ?_⟩
    rw [settleReplies, settle_of_settled (.inr hno)]
    exact ⟨hbuf, hsize, hreaders, rfl, hcalls⟩
  | cons reply replies ih =>
    obtain ⟨rounds, rfl⟩ := Nat.exists_eq_succ_of_ne_zero (Nat.ne_zero_of_lt hrounds)
    by_cases hwhole : reply.render.length ≤ n
    · obtain ⟨hhint, hsuffix⟩ := hlast reply rfl
      -- the bytes behind the reply
      obtain ⟨rest, hrest⟩ : ∃ rest, rest = (replies.flatMap render).take (n - reply.render.length) :=
        ⟨_, rfl⟩
      have hbuf' : h.response.responseBuffer = reply.render ++ rest := by
        rw [hbuf, hrest, flatMap_cons, take_append, take_of_length_le hwhole]
      have hs : rest <:+ buf := by rwa [hbuf', drop_left] at hsuffix
      have hsz : rest.length ≤ (h.handOver callback r rs reply rest).response.responseBufferSize := by
        simp [handOver, found]
        omega
      have hcl : List.Forall₂ HandedOver (h.handOver callback r rs reply rest).calls (log ++ [(r, reply)]) :=
        rel_append hcalls (.cons (handedOver_handed h r reply rest) .nil)
      rw [search_render hbuf' hreaders hhint hs, settleReplies, settle, if_pos hwhole]
      cases hnext : (h.handOver callback r rs reply rest).readers with
      | nil =>
        rw [isEmpty_nil, if_pos rfl]
        refine ⟨_, rfl, ?_⟩
        have hq : nextReaders Reply.Preliminary (queuedBy callback) r rs reply = [] := hnext
        rw [hq, settle_of_settled (.inl rfl)]
        exact ⟨hrest, hsz, hnext, rfl, hcl⟩
      | cons r' rs' =>
        have hq : nextReaders Reply.Preliminary (queuedBy callback) r rs reply = r' :: rs' := hnext
        rw [hq]
        refine ih hrest hsz hnext hcl (fun reply' _ => ⟨reply'.length_render_pos, (drop_suffix _ _).trans hs⟩) ?_
        rw [hbuf', length_append] at hrounds
        exact show rest.length < rounds by omega
    · have hno : ¬ HeadWhole (fun r : Reply => r.render.length) (reply :: replies) n := by
        simpa [HeadWhole] using hwhole
      refine ⟨_, search_of_not_headWhole hbuf hno buf rounds hint, ?_⟩
      rw [settleReplies, settle_of_settled (.inr hno)]
      exact ⟨hbuf, hsize, hreaders, rfl, hcalls⟩

end

/-- The buffer is made large enough. -/
theorem length_append_le (response : Response) (buf : List Char)
    (h : response.responseBuffer.length ≤ response.responseBufferSize) :
    (response.append buf).responseBuffer.length ≤ (response.append buf).responseBufferSize := by
  simp only [append, length_append]
  split
  · omega
  · split
    · exact (Nat.le_succ _).trans (le_max_left _ _)
    · exact (Nat.le_succ _).trans (le_max_left _ _)

variable (unwrap callback) in
/-- **One read does what the ideal connection does**, if the first reply was not complete before. -/
theorem readCb_matches (hm : h.Matches b)
    (hr : b.readers ≠ []) (hno : ¬ HeadWhole (fun r : Reply => r.render.length) b.upcoming b.avail)
    (nbytes : Nat) : ∃ h', h.readCb unwrap callback (((b.upcoming.flatMap render).drop b.avail).take nbytes) = .ok h'
        ∧ h'.Matches (idealStep callback b (.read nbytes)) := by
  obtain ⟨r, rs, hrs⟩ := exists_cons_of_ne_nil hr
  generalize hchunk : ((b.upcoming.flatMap render).drop b.avail).take nbytes = buf
  have hbuf : (h.response.append buf).responseBuffer = (b.upcoming.flatMap render).take (b.avail + nbytes) := by
    rw [append, hm.buffer, ← hchunk, take_add]
  have hhint : (h.response.append buf).responseBuffer.length - buf.length = h.response.responseBuffer.length := by
    simp [append]
  have hsearch : h.readCb unwrap callback buf
      = { h with response := h.response.append buf }.search unwrap callback buf
        ((h.response.append buf).responseBuffer.length + 1) h.response.responseBuffer.length := by
    rw [← hhint]
    rfl
  rw [hsearch, idealStep, Box.receive, hrs]
  refine search_settle hbuf (length_append_le _ _ hm.size) (hm.readers.trans hrs) hm.calls
    (fun reply hreply => ?_) (Nat.lt_succ_self _)
  -- the first reply ends in what was read now
  have hlt : h.response.responseBuffer.length < reply.render.length := by
    have havail : b.avail < reply.render.length := by
      by_contra hle
      exact hno ⟨reply, hreply, not_lt.mp hle⟩
    rw [hm.buffer, length_take]
    omega
  refine ⟨hlt, ?_⟩
  have happend : (h.response.append buf).responseBuffer = h.response.responseBuffer ++ buf := rfl
  rw [happend, drop_append, drop_eq_nil_of_le hlt.le, nil_append]
  exact drop_suffix _ _

end Read

/-! ## 5. Whole runs -/

/-- The buffer of a connection that agrees with the ideal one holds a reply if the ideal one has one. -/
theorem holdsReply_iff {buf : List Char} (hbuf : buf = (replies.flatMap render).take n) :
    HoldsReply buf ↔ HeadWhole (fun r : Reply => r.render.length) replies n := by
  constructor
  · rintro ⟨r, rest, hr⟩
    by_contra hno
    -- the search finds the reply, and it finds none
    have hresponse : (mk 0 .unknownReply buf 0).responseBuffer = r.render ++ rest := hr.symm
    have hfound := endOfReply_render (fun _ => none) hresponse (.inl r.length_render_pos)
    rw [endOfReply_of_not_headWhole _ hbuf hno] at hfound
    simp at hfound
  · rintro ⟨reply, hmem, hle⟩
    cases replies with
    | nil => exact absurd hmem (by simp)
    | cons reply' replies =>
      obtain rfl : reply' = reply := by simpa using hmem
      refine ⟨reply', ?_⟩
      rw [hbuf, flatMap_cons, take_append, take_of_length_le hle]
      exact prefix_append _ _

/-- The connection is in the state of the ideal one, and the replies handed over and those to come are
the stream. -/
structure Session.Agrees (s : Session ρ) (replies : List Reply) (b : Box Reply ρ) : Prop where
  handle : s.handle.Matches b
  wire : s.wire = (b.upcoming.flatMap render).drop b.avail
  stream : b.log.map Prod.snd ++ b.upcoming = replies

variable (unwrap callback) in
/-- In every state of the run the connection agrees with the ideal one. -/
def Session.RunAgrees (s : Session ρ) (replies : List Reply)
    (b : Box Reply ρ) : List (ControlEvent ρ) → Prop
  | [] => s.Agrees replies b
  | e :: es => s.Agrees replies b ∧ ∃ s', s.step unwrap callback e = .ok s'
      ∧ s'.RunAgrees replies (idealStep callback b e) es

theorem Session.RunAgrees.agrees {s : Session ρ} {replies : List Reply} :
    ∀ {es : List (ControlEvent ρ)}, s.RunAgrees unwrap callback replies b es → s.Agrees replies b
  | [], h => h
  | _ :: _, h => h.1

/-- Nothing is left to be handed over on the ideal connection. -/
def Settled (b : Box Reply ρ) : Prop :=
  b.readers = [] ∨ ¬ HeadWhole (fun r : Reply => r.render.length) b.upcoming b.avail

theorem settled_idealStep (b : Box Reply ρ) : ∀ e, Settled (idealStep callback b e)
  | .queueReader _ => settled_settle
  | .read _ => settled_settle

/-- Handing over replies leaves the bytes that are to come. -/
theorem drop_settleReplies {readers : List ρ} :
    ((settleReplies callback replies n readers log).upcoming.flatMap render).drop
        (settleReplies callback replies n readers log).avail = (replies.flatMap render).drop n := by
  induction replies generalizing n readers log with
  | nil => rw [settleReplies, settle_of_settled (.inr (by simp [HeadWhole]))]
  | cons reply replies ih =>
    cases readers with
    | nil => rw [settleReplies, settle_of_settled (.inl rfl)]
    | cons r rs =>
      by_cases hle : reply.render.length ≤ n
      · have hdrop : (flatMap render (reply :: replies)).drop n
            = (flatMap render replies).drop (n - reply.render.length) := by
          rw [flatMap_cons, drop_append, drop_eq_nil_of_le hle, nil_append]
        rw [hdrop, settleReplies, settle, if_pos hle]
        exact ih
      · rw [settleReplies, settle, if_neg hle]

section

variable (unwrap callback) {s : Session ρ} {b : Box Reply ρ} (ha : s.Agrees replies b)

include ha

/-- A read keeps the connection in agreement. -/
theorem step_read (hb : Settled b) {nbytes : Nat} (hp : s.possible (.read nbytes) = true) :
    ∃ s', s.step unwrap callback (.read nbytes) = .ok s' ∧ s'.Agrees replies (idealStep callback b (.read nbytes)) := by
  have hr : b.readers ≠ [] := by
    intro hnil
    have := ha.handle.reading
    simp [hnil, Session.possible, this] at hp
  obtain ⟨h', hread, hm⟩ := readCb_matches unwrap callback ha.handle hr (hb.resolve_left hr) nbytes
  rw [← ha.wire] at hread
  refine ⟨⟨h', s.wire.drop nbytes⟩, ?_, hm, ?_, ?_⟩
  · simp only [Session.step, hread]
  · exact (congrArg (drop nbytes) ha.wire).trans (drop_drop.trans drop_settleReplies.symm)
  · exact log_settle.trans ha.stream

/-- A reader that is queued in time keeps the connection in agreement, another does not. -/
theorem step_queueReader (r : ρ) : ∃ s', s.step unwrap callback (.queueReader r) = .ok s'
      ∧ (s'.Agrees replies (idealStep callback b (.queueReader r)) ↔ ¬ HoldsReply s.handle.response.responseBuffer) := by
  refine ⟨_, rfl, ?_⟩
  rw [holdsReply_iff ha.handle.buffer]
  constructor
  · intro ha' hwhole
    -- the ideal connection hands a reply to the reader at once
    have hgrow : b.log.length < (idealStep callback b (.queueReader r)).log.length :=
      length_lt_log_settle hwhole (by simp)
    rw [← ha'.handle.calls.length_eq, ← ha.handle.calls.length_eq] at hgrow
    exact absurd hgrow (lt_irrefl _)
  · intro hno
    have hstep : idealStep callback b (.queueReader r)
        = ⟨b.upcoming, b.avail, b.readers ++ [r], b.log⟩ := settle_of_settled (.inr hno)
    rw [hstep]
    have hreading : (s.handle.reading || s.handle.readers.isEmpty) = true := by
      rw [ha.handle.reading, ha.handle.readers, Bool.not_or_self]
    exact ⟨⟨ha.handle.buffer, ha.handle.size, congrArg (· ++ [r]) ha.handle.readers,
      hreading.trans (by simp), ha.handle.calls⟩, ha.wire, ha.stream⟩

/-- **One event**: the connection stays in agreement unless a reader is queued too late. -/
theorem step_agrees_iff (hb : Settled b) {e : ControlEvent ρ} (hp : s.possible e = true) :
    ∃ s', s.step unwrap callback e = .ok s' ∧ (s'.Agrees replies (idealStep callback b e)
      ↔ ∀ r, e = .queueReader r → ¬ HoldsReply s.handle.response.responseBuffer) := by
  cases e with
  | queueReader r =>
    obtain ⟨s', hstep, hiff⟩ := step_queueReader unwrap callback ha r
    exact ⟨s', hstep, hiff.trans ⟨fun h _ _ => h, fun h => h r rfl⟩⟩
  | read nbytes =>
    obtain ⟨s', hstep, ha'⟩ := step_read unwrap callback ha hb hp
    exact ⟨s', hstep, iff_of_true ha' (by simp)⟩

end

/-- The connection agrees with the ideal one in all states of a run exactly if the readers are queued
in time. -/
theorem runAgrees_iff {es : List (ControlEvent ρ)} {s : Session ρ} (ha : s.Agrees replies b) (hb : Settled b)
    (hp : s.possibleRun unwrap callback es = true) :
    s.RunAgrees unwrap callback replies b es ↔ s.QueuedInTime unwrap callback es := by
  induction es generalizing s b with
  | nil => exact iff_of_true ha trivial
  | cons e es ih =>
    simp only [Session.possibleRun, Bool.and_eq_true] at hp
    obtain ⟨s', hstep, hiff⟩ := step_agrees_iff unwrap callback ha hb hp.1
    have hp' := hp.2
    rw [hstep] at hp'
    constructor
    · rintro ⟨-, t, ht, hrun⟩
      obtain rfl : s' = t := by
        rw [hstep] at ht
        exact Except.ok.inj ht
      refine ⟨hiff.mp hrun.agrees, fun t ht => ?_⟩
      obtain rfl : s' = t := by
        rw [hstep] at ht
        exact Except.ok.inj ht
      exact (ih hrun.agrees (settled_idealStep b e) hp').mp hrun
    · rintro ⟨htime, hrest⟩
      have ha' := hiff.mpr htime
      exact ⟨ha, s', hstep, (ih ha' (settled_idealStep b e) hp').mpr (hrest s' hstep)⟩

/-- A run that agrees meets no fault. -/
theorem Session.RunAgrees.exists_ok {es : List (ControlEvent ρ)} {s : Session ρ} (h : s.RunAgrees unwrap callback replies b es) :
    ∃ s', es.foldlM (Session.step unwrap callback) s = .ok s' := by
  induction es generalizing s b with
  | nil => exact ⟨s, rfl⟩
  | cons e es ih =>
    obtain ⟨-, s', hstep, hrun⟩ := h
    rw [foldlM_cons, hstep]
    exact ih hrun

/-- The ideal connection at the start. -/
def idealStart (replies : List Reply) : Box Reply ρ := ⟨replies, 0, [], []⟩

/-- **A control connection hands the replies to the readers exactly if no reader is queued while a
complete reply is left in the buffer.** -/
theorem framing_iff (unwrap : List Char → Option (List Char))
    (callback : ρ → Option (List Char) → List ρ) (replies : List Reply) (es : List (ControlEvent ρ))
    (hp : (Session.start replies).possibleRun unwrap callback es = true) :
    (Session.start replies).RunAgrees unwrap callback replies (idealStart replies) es
      ↔ (Session.start replies).QueuedInTime unwrap callback es :=
  runAgrees_iff ⟨⟨rfl, Nat.zero_le _, rfl, rfl, .nil⟩, rfl, rfl⟩ (.inl rfl) hp

/-- A reply of one line. -/
def oneLine (line : List Char) (h1 : '\n' ∉ line) (h2 : CodeLine ' ' line) (h3 : line.head? ≠ some '6') :
    Reply :=
  ⟨[], line, by simp, by simp, by simp, Lines.noCrlf_of_notMem h1, h2, h3⟩

/-- Three replies of seven bytes each. -/
def threeReplies : List Reply :=
  [oneLine ['1', '5', '0', ' ', 'a'] (by decide) (by decide) (by decide),
    oneLine ['2', '2', '6', ' ', 'b'] (by decide) (by decide) (by decide),
    oneLine ['2', '0', '0', ' ', 'c'] (by decide) (by decide) (by decide)]

/-- A preliminary reply and two others for two readers that are there from the start, cut in the middle
of the second one. -/
theorem framing_two_readers :
    (Session.start threeReplies).RunAgrees (fun _ => none) (fun (_ : Nat) _ => []) threeReplies
      (idealStart threeReplies) [.queueReader 1, .queueReader 2, .read 10, .read 11] := by
  have hempty : ¬ HoldsReply [] := by
    rintro ⟨r, hr⟩
    have h1 := hr.length_le
    have h2 := r.length_render_pos
    exact absurd h2 (not_lt.mpr h1)
  -- both readers are queued before anything was read
  refine (framing_iff _ _ _ _ (by decide)).mpr ⟨fun _ _ => hempty, ?_⟩
  rintro _ ⟨⟩
  refine ⟨fun _ _ => hempty, ?_⟩
  rintro _ ⟨⟩
  exact ⟨by simp, fun _ _ => ⟨by simp, fun _ _ => trivial⟩⟩

/-- One reply more, in front of the others. -/
def fourReplies : List Reply :=
  oneLine ['2', '2', '0', ' ', 'd'] (by decide) (by decide) (by decide) :: threeReplies

/-- One reader is there when three replies arrive.  Another is queued, and the last reply arrives: the
preliminary reply is handed over, and to copy the 14 bytes behind it the index into the 7 bytes read
last is `-7`. -/
theorem framing_negative_index :
    (Session.start fourReplies).possibleRun (fun _ => none) (fun (_ : Nat) _ => [])
        [.queueReader 1, .read 21, .queueReader 2, .read 7] = true
    ∧ [.queueReader 1, .read 21, .queueReader 2, .read 7].foldlM
        (Session.step (fun _ => none) (fun (_ : Nat) _ => [])) (Session.start fourReplies)
      = .error .readBufferIndex
    ∧ ¬ (Session.start fourReplies).RunAgrees (fun _ => none) (fun (_ : Nat) _ => []) fourReplies
        (idealStart fourReplies) [.queueReader 1, .read 21, .queueReader 2, .read 7] := by
  refine ⟨by decide, by decide, fun hrun => ?_⟩
  obtain ⟨s', hs'⟩ := hrun.exists_ok
  have hfault : [.queueReader 1, .read 21, .queueReader 2, .read 7].foldlM
      (Session.step (fun _ => none) (fun (_ : Nat) _ => [])) (Session.start fourReplies)
      = .error .readBufferIndex := by decide
  rw [hfault] at hs'
  exact absurd hs' (by simp)

/-! ## 6. From the server to the readers -/

/-- What the server writes for codes and messages. -/
def to959 (messages : List (Int × Option (List Char))) : List Char :=
  messages.flatMap fun m => stringTo959 m.1 m.2 none

variable (messages : List (Int × Option (List Char))) (h : ∀ m ∈ messages, 100 ≤ m.1 ∧ m.1 < 600)

include h

theorem exists_replies : ∃ replies : List Reply, replies.map Reply.code = messages.map Prod.fst ∧
    to959 messages = replies.flatMap render := by
  induction messages with
  | nil => exact ⟨[], rfl, rfl⟩
  | cons m messages ih =>
    obtain ⟨⟨h1, h2⟩, hrest⟩ := forall_mem_cons.mp h
    obtain ⟨replies, hcodes, htext⟩ := ih hrest
    obtain ⟨r, hr, hcode⟩ := stringTo959_eq_render h1 h2 m.2 (.inl rfl)
    exact ⟨r :: replies, by simp [hcode, hcodes], by simpa [to959, hr] using htext⟩

/-- **What the server writes reaches the readers**, cut into any reads, if they are queued in time: one reply
after the other, with its code. -/
theorem written_delivered {es : List (ControlEvent ρ)}
    (hp : Session.possibleRun unwrap callback ⟨.init, to959 messages⟩ es = true)
    (htime : Session.QueuedInTime unwrap callback ⟨.init, to959 messages⟩ es) :
    ∃ replies : List Reply, replies.map Reply.code = messages.map Prod.fst ∧
      Session.RunAgrees unwrap callback ⟨.init, to959 messages⟩ replies (idealStart replies) es := by
  obtain ⟨replies, hcodes, htext⟩ := exists_replies messages h
  rw [htext] at hp htime ⊢
  refine ⟨replies, hcodes, (runAgrees_iff ?_ (.inl ?_) hp).mpr htime⟩
  · exact ⟨⟨rfl, Nat.zero_le _, rfl, rfl, .nil⟩, rfl, rfl⟩
  · rfl

omit h

/-- Two replies, cut in the middle of the first. -/
theorem written_delivered_two : ∃ replies : List Reply, replies.map Reply.code = [150, 226] ∧
    Session.RunAgrees (fun _ => none) (fun (_ : Nat) _ => []) ⟨.init, to959 [(150, some ['a']), (226, none)]⟩
      replies (idealStart replies) [.queueReader 1, .read 4, .read 10] := by
  have hempty : ¬ HoldsReply [] := fun ⟨r, hr⟩ => absurd r.length_render_pos (not_lt.mpr hr.length_le)
  refine written_delivered [(150, some ['a']), (226, none)] (by decide) (by decide +kernel) ⟨fun _ _ => hempty, ?_⟩
  rintro _ ⟨⟩
  exact ⟨by simp, fun _ _ => ⟨by simp, fun _ _ => trivial⟩⟩

end Gct
