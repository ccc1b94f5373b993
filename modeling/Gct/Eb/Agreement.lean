/-
# Extended block mode: the two sides agree on the end of the file

A sender and a receiver, and the connections between them.  Every connection delivers in order what is
written to it; apart from that their steps come in any order.

The receiver takes the transfer for finished when it has as many `EOD`s as the `EOF` header says.  Then
it has everything that was ever written, or will be (`System.Inv.all_read`).  The sender, if the I/O library
accepts its operations and none of them fails, says `EOD` once on each of its connections, and one `EOF`
with their number (`Finished`, `Inv.settles`).
-/
import Gct.Eb.Progress
import Gct.Eb.ReceiverRun

namespace Gct.Eb

open Channels List Finset

/-! ## 1. The system -/

structure System where
  sender : Sender
  receiver : Receiver

inductive Event
  | sender (e : SenderEvent)
  | receiver (e : ReceiverEvent)

/-- Whether the I/O library does not accept an operation of the sender. -/
def Event.refused : Event → Bool
  | .sender e => e.refused
  | .receiver _ => false

namespace System

def step (sys : System) : Event → System
  | .sender e => { sys with sender := sys.sender.step e }
  | .receiver e =>
    { sys with receiver := sys.receiver.step sys.sender.sent sys.sender.nextConn e }

def run (sys : System) (es : List Event) : System := es.foldl step sys

end System

/-- Both sides at the start of a transfer. -/
def Setup.system (setup : Setup) : System := ⟨setup.connectWrite, setup.connectRead⟩

/-! ## 2. The invariant of a run -/

variable {k : Nat} {s s' : Sender} {r : Receiver} {sys : System} {b f : Bool} (setup : Setup)

/-- The sender goes on. -/
theorem Hearing.later (hs : Shape k s) (h : Hearing k s r) (hl : Later b f s s') : Hearing k s' r := by
  refine ⟨h.lines, { h.heard with got := fun c => (h.heard.got c).trans (hl.sent c), eods := ?_ }⟩
  rw [h.heard.eods]
  -- nothing was read from the new connections
  refine sum_subset (fun c hc => ?_) (fun c _ hc => ?_)
  · have := Finset.mem_range.mp hc
    exact Finset.mem_range.mpr (this.trans_le hl.nextConn)
  · have hpre := h.heard.got c
    rw [hs.fresh c (by simpa using hc), prefix_nil] at hpre
    rw [hpre, countP_nil]

/-- The invariant of both sides. -/
structure System.Inv (k : Nat) (sys : System) : Prop where
  sender : Eb.Inv k sys.sender
  hearing : Hearing k sys.sender sys.receiver

namespace System

theorem Inv.step (h : sys.Inv k) (e : Event) : (sys.step e).Inv k := by
  cases e with
  | sender e => exact ⟨h.sender.step e, h.hearing.later h.sender.shape (Later.step sys.sender e)⟩
  | receiver e => exact ⟨h.sender, h.hearing.step h.sender.shape e⟩

theorem Inv.run (h : sys.Inv k) (es : List Event) : (sys.run es).Inv k := by
  induction es generalizing sys with
  | nil => exact h
  | cons e es ih => exact ih (h.step e)

theorem later_run (sys : System) (es : List Event) :
    Later (es.any Event.refused) true sys.sender (sys.run es).sender := by
  induction es generalizing sys with
  | nil => exact .refl
  | cons e es ih =>
    have hrest : Later ((e :: es).any Event.refused) true (sys.step e).sender ((sys.step e).run es).sender :=
      (ih (sys.step e)).mono (fun h => (Bool.or_eq_false_iff.mp h).2) id
    cases e with
    | sender e =>
      have hstep : Later ((.sender e :: es).any Event.refused) true sys.sender (sys.sender.step e) :=
        (Later.step sys.sender e).mono (fun h => (Bool.or_eq_false_iff.mp h).1) nofun
      exact hstep.trans hrest
    | receiver e => exact hrest

end System

theorem Setup.inv_system : setup.system.Inv setup.cached :=
  ⟨setup.inv_connectWrite, setup.hearing_connectRead⟩

theorem Later.reuse : ∀ (cache : List Nat) (s : Sender), Later b f s (Sender.reuse cache s)
  | [], _ => refl
  | c :: cache, s => by
    rw [Sender.reuse]
    refine trans ?_ (reuse cache _)
    split
    · exact { (refl : Later b f s s) with
        registered := prefix_append _ _, live := fun _ h => { h with } }
    · exact (send c _).trans (of_eq rfl)

theorem Setup.live_connectWrite : Live setup.connectWrite := by
  have h : Live (Sender.reuse (range setup.cached) setup.sender) :=
    (Later.reuse (b := false) (f := false) (range setup.cached) setup.sender).live rfl
      ⟨setup.parallel_pos, fun _ => le_rfl⟩
  unfold Setup.connectWrite
  dsimp only
  split
  · exact (Later.registerConnect (f := false) true).live rfl h
  · exact h

/-! ## 3. The receiver has everything -/

namespace System

section

variable (h : sys.Inv k) (heq : sys.receiver.eodCount = sys.receiver.eodsReceived) (es : List Event)

include h heq es

/-- No connection is counted after the receiver has everything. -/
theorem Inv.registered_eq : (sys.run es).sender.registered = sys.sender.registered := by
  have hl := sys.later_run es
  obtain ⟨-, c, g, hg, heof⟩ := h.hearing.heard.eodCount_eq h.sender.shape heq
  have hmem := (h.hearing.heard.got c).subset hg
  have hs := h.sender.shape
  have hs' := (h.run es).sender.shape
  have hnow := (hs.wire c).eofOffset g hmem heof
  have hthen := (hs'.wire c).eofOffset g ((hl.sent c).subset hmem) heof
  rw [hs.total] at hnow
  rw [hs'.total] at hthen
  exact (hl.registered.eq_of_length (by omega)).symm

/-- **All data is read.** -/
theorem Inv.all_read (c : Nat) : payload ((sys.run es).sender.sent c) = payload (sys.receiver.got c) := by
  have hs := h.sender.shape
  have hs' := (h.run es).sender.shape
  have hl := sys.later_run es
  by_cases hc : c ∈ sys.sender.registered
  · -- the `EOD` of the connection is out
    have heod := h.hearing.heard.eods_eq hs heq c hc
    obtain ⟨x, hx, hxe⟩ := countP_pos_iff.mp (heod ▸ Nat.one_pos)
    rw [h.hearing.heard.all_read hs heq c hc,
      (hs'.wire c).sealed.eq_of_isPrefix (hl.sent c) hx (Item.isLast_of_isEod hxe)]
  · -- there is no data on it
    have hthen : payload ((sys.run es).sender.sent c) = [] := by
      rcases (hs'.wire c).unused (h.registered_eq heq es ▸ hc) with hsent | hsent <;> rw [hsent] <;> rfl
    have hpre : payload (sys.receiver.got c) <+: payload ((sys.run es).sender.sent c) :=
      ((h.hearing.heard.got c).trans (hl.sent c)).filterMap _
    rw [hthen] at hpre ⊢
    exact (prefix_nil.mp hpre).symm

end

end System

/-! ## 4. The sender comes to an end -/

/-- The sender has said `EOD` once on every connection that it has counted, and `EOF` once, with the
number of `EOD`s. -/
structure Finished (s : Sender) : Prop where
  eods : ∀ c, (s.sent c).countP Item.isEod = if c ∈ s.registered then 1 else 0
  eofs : tally Item.isEof (range s.nextConn) s.sent = 1
  count : ∀ (c : Nat) (h : EbHeader), .header h ∈ s.sent c → h.eof = true →
    h.offset = tally Item.isEod (range s.nextConn) s.sent
  fresh : ∀ c, s.nextConn ≤ c → s.sent c = []

theorem Finished.of_eods (h : Inv k s) (hsent : s.eofSent = true)
    (heods : ∀ c ∈ s.registered, (s.sent c).countP Item.isEod = 1) : Finished s := by
  have heods' : ∀ c, (s.sent c).countP Item.isEod = if c ∈ s.registered then 1 else 0 := by
    intro c
    have := h.shape.eods c
    by_cases hc : c ∈ s.registered
    · rw [if_pos hc, heods c hc]
    · rw [if_neg hc] at this ⊢
      omega
  refine ⟨heods', by rw [h.shape.eofs, hsent]; rfl, fun c g hg hgeof => ?_, h.shape.fresh⟩
  rw [(h.shape.wire c).eofOffset g hg hgeof, h.shape.total, ← h.shape.tally_registered]
  exact congrArg _ (sum_congr rfl fun c _ => (heods' c).symm)

theorem Sender.AtRest.finished (hrest : s.AtRest) (h : Inv k s) (hl : Live s) (hstate : s.state ≠ .closing)
    (heof : s.eofRegistered = true) : Finished s := by
  obtain ⟨hsent, heods⟩ := hrest.eods h hl hstate heof
  exact .of_eods h hsent heods

/-- Whatever happens next by itself, the sender comes to rest after finitely many steps, and then `P`
holds. -/
inductive Settles (P : Sender → Prop) : Sender → Prop
  | intro {s : Sender} (rest : s.AtRest → P s)
      (step : ∀ e : SenderEvent, e.active = true → s.step e ≠ s → Settles P (s.step e)) : Settles P s

/-- **The sender finishes.** -/
theorem Inv.settles (h : Inv k s) (hl : Live s) (hstate : s.state ≠ .closing)
    (heof : s.eofRegistered = true) : Settles Finished s := by
  -- by induction on the work that is left
  induction hw : s.work using Nat.strong_induction_on generalizing s with
  | _ w ih =>
    refine .intro (fun hrest => hrest.finished h hl hstate heof) fun e he hne => ?_
    have hlt := (s.work_step e he).resolve_left hne
    have hlater := Later.step s e
    have hok : e.refused = false ∧ e.failed = false := by
      cases e <;> simp_all [SenderEvent.active, SenderEvent.refused, SenderEvent.failed]
    exact ih _ (hw ▸ hlt) (h.step e) (hlater.live hok.1 hl) (fun hs => hstate (hlater.state hok.2 hs))
      (hlater.eofRegistered heof) rfl

/-! ## 5. The agreement -/

/-- Two connections: the second one is still connecting when the only block is written, and says its
`EOD` after `EOF`. -/
def twoConnections : List Event :=
  [.sender (.write [1, 2, 3] 0 true), .sender (.connected 0 true), .sender (.poll none),
    .sender (.written 0 true), .receiver (.listen 0), .receiver (.accept 0 true),
    .receiver (.header 0 true), .receiver (.read 10), .receiver .poll, .receiver (.data 0 true),
    .receiver (.header 0 true), .sender (.connected 1 true), .receiver (.listen 1),
    .receiver (.accept 1 true), .receiver (.header 1 true)]

def twoChannels : Setup where
  parallel := 2
  parallel_pos := Nat.two_pos
  ascii := false
  layoutFunc := none
  cached := 0
  callback := false
  orderData := false
  startingOffset := 0

variable (es : List Event)

/-- No assertion has failed, every counted connection is in one place, and the counters are right. -/
structure Balanced (s : Sender) : Prop where
  asserts : s.assertsHeld = true
  place : ∀ c, s.freeConnQ.count c + s.outstandingConnList.count c + (s.writing.map Prod.fst).count c +
    (s.sent c).countP Item.isEod = if c ∈ s.registered then 1 else 0
  connections : s.connectionCount = s.freeConnQ.length + s.writing.length
  outstanding : s.outstandingConnections = s.outstandingConnList.length
  total : s.totalConnectionCount = s.registered.length

/-- What is read is the beginning of what is written, no header is taken for data and no data for a header, and no
connection is closed before its `EOD`, ready at the end, or in two places. -/
structure InStep (s : Sender) (r : Receiver) : Prop where
  got : ∀ c, r.got c <+: s.sent c
  misframed : r.misframed = false
  failed : ∀ a ∈ r.failed, a = .noBigBuffer
  eods : r.eodsReceived = tally Item.isEod (range s.nextConn) r.got
  place : ∀ c, r.accepting.count c + r.headerReads.count c + r.freeConnQ.count c +
    (r.dataReads.map Prod.fst).count c ≤ if c ∈ r.accepted then 1 else 0

end Gct.Eb
