/-
# Extended block mode: one `EOD` for every connection

Every connection that the sender has counted stands in exactly one place: it is free, or it is still
connecting, or a block is being written on it, or its `EOD` is out.  `Wires` is this invariant, together
with the shape of what is on the connections: whole blocks, and nothing behind an `EOD`.  While a
callback runs, it has some connections in its hands (`held`).

The lemmas are about the single operations of a callback.  Each takes a connection from one place to
another; `Gct.Eb.Control` puts them together.
-/
import Gct.Eb.Sender

namespace Gct.Eb

open Channels List Item Sender Function

/-! ## 1. The invariant -/

variable (k : Nat)

/-- What may be on the connection `c`.  `k` is the number of connections that were cached before the
transfer, `total` the number that the `EOF` header is to carry. -/
structure Wire (registered : List Nat) (total : Int) (c : Nat) (l : List Item) : Prop where
  framed : due size 0 l = some 0
  sealed : Sealed isLast l
  /-- only a connection that is not used in this transfer is closed without an `EOD` -/
  closeOnly : ∀ h, .header h ∈ l → h.close = true → h.eod = false →
    l = [.header h] ∧ c < k ∧ c ∉ registered
  unused : c ∉ registered → l = [] ∨ l = [.header (closeHeader false)]
  eofOffset : ∀ h, .header h ∈ l → h.eof = true → h.offset = total

/-- What the connections carry. -/
structure Carried (s : Sender) : Prop where
  wire : ∀ c, Wire k s.registered s.totalConnectionCount c (s.sent c)
  eofs : tally isEof (Finset.range s.nextConn) s.sent = if s.eofSent then 1 else 0
  nodup : s.registered.Nodup
  total : s.totalConnectionCount = s.registered.length
  lt_nextConn : ∀ c ∈ s.registered, c < s.nextConn
  fresh : ∀ c, s.nextConn ≤ c → s.sent c = []

structure Wires (held : List Nat) (s : Sender) : Prop extends Carried k s where
  place : ∀ c, s.freeConnQ.count c + s.outstandingConnList.count c +
    (s.writing.map Prod.fst).count c + held.count c + (s.sent c).countP isEod =
      if c ∈ s.registered then 1 else 0
  cached_le : k ≤ s.nextConn
  connections : s.connectionCount = s.freeConnQ.length + s.writing.length + held.length
  outstanding : s.outstandingConnections = s.outstandingConnList.length

/-- What the invariant says about the connections themselves.  This is all that is left of it when the
transfer is torn down. -/
structure Shape (s : Sender) : Prop extends Carried k s where
  eods : ∀ c, (s.sent c).countP isEod ≤ if c ∈ s.registered then 1 else 0

variable {k : Nat} {held : List Nat} {s : Sender} {c : Nat} {s' : Sender}

/-- The items `l` are written on the connection `c`, and the other connections stay as they are. -/
structure Sends (c : Nat) (l : List Item) (s s' : Sender) : Prop where
  sent : s'.sent = update s.sent c (s.sent c ++ l)
  free : s'.freeConnQ = s.freeConnQ
  outstanding : s'.outstandingConnList = s.outstandingConnList
  registered : s'.registered = s.registered
  outstandingConnections : s'.outstandingConnections = s.outstandingConnections
  total : s'.totalConnectionCount = s.totalConnectionCount
  nextConn : s'.nextConn = s.nextConn

namespace Carried

theorem eof_of_not_eofSent (h : Carried k s) (hs : s.eofSent = false) {g : EbHeader}
    (hg : .header g ∈ s.sent c) : g.eof = false := by
  rcases Nat.lt_or_ge c s.nextConn with hc | hc
  · have h0 : tally isEof (Finset.range s.nextConn) s.sent = 0 := by
      rw [h.eofs, hs]
      rfl
    have hcount := Finset.sum_eq_zero_iff.mp h0 c (Finset.mem_range.mpr hc)
    simpa using countP_eq_zero.mp hcount _ hg
  · rw [h.fresh c hc] at hg
    cases hg

/-- There is one connection more. -/
theorem grow (h : Carried k s) : Carried k { s with nextConn := s.nextConn + 1 } := by
  refine { h with eofs := ?_, lt_nextConn := ?_, fresh := ?_ }
  · show ∑ d ∈ Finset.range (s.nextConn + 1), (s.sent d).countP isEof = _
    rw [Finset.sum_range_succ, h.fresh _ le_rfl, countP_nil, add_zero]
    exact h.eofs
  · exact fun d hd => Nat.lt_succ_of_lt (h.lt_nextConn d hd)
  · exact fun d hd => h.fresh d (Nat.le_of_succ_le hd)

/-- A connection is counted; no `EOF` is out. -/
theorem register (h : Carried k s) (hs : s.eofSent = false) (hlt : c < s.nextConn)
    (hnew : c ∉ s.registered) (hsent : s.sent c = []) : Carried k { s with
      totalConnectionCount := s.totalConnectionCount + 1, registered := s.registered ++ [c] } := by
  refine { h with wire := ?_, nodup := ?_, total := ?_, lt_nextConn := ?_ }
  · intro d
    refine { h.wire d with closeOnly := ?_, unused := ?_, eofOffset := ?_ }
    · intro g hg hclose heod
      obtain ⟨heq, hk, hreg⟩ := (h.wire d).closeOnly g hg hclose heod
      refine ⟨heq, hk, fun hmem => ?_⟩
      rcases mem_append.mp hmem with hmem | hmem
      · exact hreg hmem
      · rw [mem_singleton.mp hmem, hsent] at heq
        cases heq
    · exact fun hd => (h.wire d).unused fun hmem => hd (mem_append_left _ hmem)
    · intro g hg heof
      rw [h.eof_of_not_eofSent hs hg] at heof
      cases heof
  · exact nodup_append.mpr ⟨h.nodup, nodup_singleton _, fun a ha b hb hab =>
      hnew (by rwa [← mem_singleton.mp hb, ← hab])⟩
  · have := h.total
    simp only [length_append, length_singleton]
    omega
  · exact forall_mem_append.mpr ⟨h.lt_nextConn, forall_mem_singleton.mpr hlt⟩

theorem send {l : List Item} (h : Carried k s) (hlt : c < s.nextConn) (hs : Sends c l s s')
    (hwire : Wire k s.registered s.totalConnectionCount c (s.sent c ++ l))
    (heofs : (if s.eofSent then 1 else 0) + l.countP isEof = if s'.eofSent then 1 else 0) : Carried k s' := by
  constructor
  case wire =>
    intro d
    rw [hs.registered, hs.total, hs.sent]
    by_cases hd : d = c
    · rw [hd, update_self]
      exact hwire
    · rw [update_of_ne hd]
      exact h.wire d
  case eofs => rw [hs.nextConn, hs.sent, tally_update (Finset.mem_range.mpr hlt), h.eofs, heofs]
  case nodup => rw [hs.registered]; exact h.nodup
  case total => rw [hs.total, hs.registered]; exact h.total
  case lt_nextConn => rw [hs.registered, hs.nextConn]; exact h.lt_nextConn
  case fresh =>
    intro d hd
    rw [hs.nextConn] at hd
    rw [hs.sent, update_of_ne (by omega)]
    exact h.fresh d hd

end Carried

namespace Wires

theorem shape (h : Wires k held s) : Shape k s :=
  { h with eods := fun c => by have := h.place c; omega }

/-- A connection in somebody's hands is counted, and its `EOD` is not out. -/
theorem of_held (h : Wires k (c :: held) s) : c ∈ s.registered ∧ (s.sent c).countP isEod = 0 := by
  have := h.place c
  rw [count_cons_self] at this
  split at this
  · exact ⟨‹_›, by omega⟩
  · omega

/-- Nothing that would end the connection is on it. -/
theorem isLast_of_held (h : Wires k (c :: held) s) : ∀ x ∈ s.sent c, x.isLast = false := by
  obtain ⟨hreg, heod⟩ := h.of_held
  intro x hx
  cases x with
  | byte b => rfl
  | header g =>
    have hg : g.eod = false := by
      simpa using countP_eq_zero.mp heod _ hx
    cases hclose : g.close with
    | false => simp [hg, hclose]
    | true => exact absurd hreg ((h.wire c).closeOnly g hx hclose hg).2.2

/-! ## 2. Taking a connection and putting it back -/

/-- The connection at the head of the queue is taken. -/
theorem take {q : List Nat} (h : Wires k held s) (hq : s.freeConnQ = c :: q) :
    Wires k (c :: held) { s with freeConnQ := q } := by
  refine { h with place := ?_, connections := ?_ }
  · intro d
    have := h.place d
    rw [hq, count_cons] at this
    rw [count_cons]
    dsimp only
    omega
  · have := h.connections
    rw [hq, length_cons] at this
    rw [length_cons]
    dsimp only
    omega

/-- A connection is free again. -/
theorem free (h : Wires k (c :: held) s) : Wires k held { s with freeConnQ := s.freeConnQ ++ [c] } := by
  refine { h with place := ?_, connections := ?_ }
  · intro d
    have := h.place d
    rw [count_cons] at this
    rw [count_append, count_singleton]
    dsimp only
    omega
  · have := h.connections
    rw [length_cons] at this
    rw [length_append, length_singleton]
    dsimp only
    omega

/-- A connection has connected. -/
theorem connected (h : Wires k held s) (hc : c ∈ s.outstandingConnList) : Wires k (c :: held)
      { s with
        outstandingConnections := s.outstandingConnections - 1
        outstandingConnList := s.outstandingConnList.erase c
        connectionCount := s.connectionCount + 1 } := by
  refine { h with place := ?_, connections := ?_, outstanding := ?_ }
  · intro d
    have := h.place d
    rw [(perm_cons_erase hc).count_eq, count_cons] at this
    rw [count_cons]
    dsimp only
    omega
  · have := h.connections
    rw [length_cons]
    dsimp only
    omega
  · have hlen := length_erase_of_mem hc
    have := h.outstanding
    have hne := length_pos_of_mem hc
    dsimp only
    omega

/-- A block is written. -/
theorem written (h : Wires k held s) {w : Nat × Entry} (hw : s.writing.find? (fun w => w.1 == c) = some w) :
    Wires k (c :: held) { s with writing := s.writing.eraseP (fun w => w.1 == c) } := by
  obtain ⟨hc, l, l', heq, herase⟩ := split_of_find? hw
  obtain rfl : w.1 = c := by simpa using hc
  refine { h with place := ?_, connections := ?_ }
  · intro d
    have := h.place d
    rw [heq] at this
    rw [herase]
    simp only [map_append, map_cons, count_append, count_cons] at this ⊢
    omega
  · have := h.connections
    rw [heq] at this
    rw [herase]
    simp only [length_append, length_cons] at this ⊢
    omega

/-- A new connection is counted; no `EOF` is out. -/
theorem registerConnect (h : Wires k held s) (hs : s.eofSent = false) (accepted : Bool) :
    Wires k held (s.registerConnect accepted) := by
  have hnew : s.nextConn ∉ s.registered := fun hmem => absurd (h.lt_nextConn _ hmem) (lt_irrefl _)
  have hcarried := h.grow.register hs (Nat.lt_succ_self s.nextConn) hnew (h.fresh _ le_rfl)
  refine { hcarried with
    place := ?_, cached_le := Nat.le_succ_of_le h.cached_le, connections := h.connections, outstanding := ?_ }
  · intro d
    have := h.place d
    rw [Sender.registerConnect, ite_mem_concat hnew, count_singleton]
    dsimp only
    rw [count_cons]
    omega
  · have := h.outstanding
    simp only [Sender.registerConnect, length_cons]
    omega

/-! ## 3. Writing -/

section

variable (h : Wires k (c :: held) s)

include h

/-- What is written on a connection of the callback: its place is in `writing` if it was a block, and an
`EOD` otherwise. -/
theorem write {l : List Item} (hs : Sends c l s s')
    (hplace : ∀ d, (s'.writing.map Prod.fst).count d + (if d = c then l.countP isEod else 0) =
      (s.writing.map Prod.fst).count d + if d = c then 1 else 0)
    (hframed : due size 0 l = some 0) (hsealed : Sealed isLast (s.sent c ++ l))
    (hclose : ∀ g, .header g ∈ l → g.close = true → g.eod = true)
    (heofs : (if s.eofSent then 1 else 0) + l.countP isEof = if s'.eofSent then 1 else 0)
    (heofOffset : ∀ g, .header g ∈ l → g.eof = true → g.offset = s.totalConnectionCount)
    (hconn : s'.connectionCount = s.freeConnQ.length + s'.writing.length + held.length) : Wires k held s' := by
  have hc : c ∈ s.registered := h.of_held.1
  have hwire : Wire k s.registered s.totalConnectionCount c (s.sent c ++ l) := by
    constructor
    case framed => rw [due_append, (h.wire c).framed]; exact hframed
    case sealed => exact hsealed
    case closeOnly =>
      intro g hg hgclose hgeod
      rcases mem_append.mp hg with hg | hg
      · exact absurd hc ((h.wire c).closeOnly g hg hgclose hgeod).2.2
      · rw [hclose g hg hgclose] at hgeod
        cases hgeod
    case unused => exact fun hd => absurd hc hd
    case eofOffset => exact fun g hg => (mem_append.mp hg).elim ((h.wire c).eofOffset g) (heofOffset g)
  constructor
  case toCarried => exact h.send (h.lt_nextConn c hc) hs hwire heofs
  case place =>
    intro d
    have h1 := h.place d
    have h2 := hplace d
    rw [count_cons] at h1
    rw [hs.free, hs.outstanding, hs.registered, hs.sent]
    by_cases hd : d = c
    · subst hd
      simp only [beq_self_eq_true, if_true] at h1 h2
      rw [update_self, countP_append]
      omega
    · have hd' : ¬ c = d := fun he => hd he.symm
      simp only [beq_iff_eq, hd, hd', if_false] at h1 h2
      rw [update_of_ne hd]
      omega
  case cached_le => rw [hs.nextConn]; exact h.cached_le
  case connections => rw [hs.free]; exact hconn
  case outstanding => rw [hs.outstandingConnections, hs.outstanding]; exact h.outstanding

theorem registerWritev (entry : Entry) : Wires k held (s.registerWritev c entry) := by
  generalize hb : (if s.ascii then addAscii entry.buffer else entry.buffer) = buffer
  have hopen := h.isLast_of_held
  refine h.write (l := block buffer entry.offset) ⟨?_, rfl, rfl, rfl, rfl, rfl, rfl⟩ ?_ (due_block _ _) ?_ ?_ ?_ ?_ ?_
  · rw [← hb]; rfl
  · intro d
    rw [(countP_block buffer entry.offset).1]
    simp only [Sender.registerWritev, send, map_append, map_cons, map_nil, count_append, count_singleton, beq_iff_eq]
    by_cases hd : d = c
    · simp [hd]
    · have hd' : ¬ c = d := fun he => hd he.symm
      simp [hd, hd']
  · exact sealed_of_open (forall_mem_append.mpr ⟨hopen, fun _ => isLast_of_mem_block⟩)
  · intro g hg hclose
    have := isLast_of_mem_block hg
    simp [hclose] at this
  · rw [(countP_block buffer entry.offset).2]
    rfl
  · intro g hg heof
    have := countP_eq_zero.mp (countP_block buffer entry.offset).2 _ hg
    simp [heof] at this
  · have := h.connections
    simp only [Sender.registerWritev, send, length_append, length_singleton]
    rw [length_cons] at this
    omega

/-- A header that ends the connection. -/
theorem writeLast {g : EbHeader} (hs : Sends c [.header g] s s')
    (hwriting : s'.writing = s.writing) (heod : g.eod = true) (hbytes : g.bytes = 0)
    (heofs : (if s.eofSent then 1 else 0) + (if g.eof then 1 else 0) = if s'.eofSent then 1 else 0)
    (hoffset : g.eof = true → g.offset = s.totalConnectionCount)
    (hconn : s'.connectionCount = s.connectionCount - 1) : Wires k held s' := by
  refine h.write hs ?_ ?_ (sealed_concat h.isLast_of_held _) ?_ ?_ ?_ ?_
  · intro d
    rw [hwriting]
    simp [heod]
  · rw [due_header (n := 0) (by simp [hbytes]), due_nil]
  · intro g' hg' _
    obtain rfl : g' = g := by simpa using hg'
    exact heod
  · rw [← heofs]
    cases hg : g.eof <;> simp [hg]
  · intro g' hg' heof
    obtain rfl : g' = g := by simpa using hg'
    exact hoffset heof
  · have := h.connections
    rw [length_cons] at this
    rw [hconn, hwriting]
    omega

theorem registerEod : Wires k held (s.registerEod c) :=
  h.writeLast (g := eodHeader) ⟨rfl, rfl, rfl, rfl, rfl, rfl, rfl⟩ rfl rfl rfl rfl nofun rfl

theorem registerEof (hs : s.eofSent = false) : Wires k held (s.registerEof c) := by
  rw [Sender.registerEof, if_neg (by simp [hs])]
  refine h.writeLast (g := eofHeader s.totalConnectionCount) ⟨rfl, rfl, rfl, rfl, rfl, rfl, rfl⟩ rfl ?_ ?_ ?_ ?_ rfl
  · simp
  · simp
  · simp [hs]
  · simp

/-- A connection is dropped. -/
theorem drop : Wires k held ({ s with connectionCount := s.connectionCount - 1 }.registerCloseMsg c true) :=
  h.writeLast (g := closeHeader true) ⟨rfl, rfl, rfl, rfl, rfl, rfl, rfl⟩ rfl rfl rfl rfl nofun rfl

end

/-- All connections that are free are taken. -/
theorem takeAll (h : Wires k [] s) : Wires k s.freeConnQ { s with freeConnQ := [] } := by
  refine { h with place := ?_, connections := ?_ }
  · intro d
    have := h.place d
    dsimp only
    omega
  · have := h.connections
    dsimp only
    omega

theorem registerEods : ∀ {q : List Nat} {s : Sender}, Wires k q { s with freeConnQ := [] } → Wires k [] (registerEods q s)
  | [], _, h => h
  | _ :: _, s, h => registerEods (s := s.registerEod _) h.registerEod

theorem retire (h : Wires k [] s) : Wires k [] s.retire :=
  registerEods (s := { s with eof := true }) { h.takeAll with }

end Wires

end Gct.Eb
