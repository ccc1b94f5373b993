/-
# Extended block mode: the receiver counts every `EOD`

`Heard` is the rest of the invariant of the receiver, next to `Lines`: what it has read of each
connection is the beginning of what was written, it has counted the `EOD`s among that, and it knows the
number in the `EOF` header once it has read it.

If the two numbers are equal, everything that was written was read (`Heard.all_read`): every connection
that the sender has counted has said `EOD`, and nothing follows that.
-/
import Mathlib.Algebra.BigOperators.Group.Finset.Piecewise
import Gct.Eb.Lines
import Gct.Eb.Wires

namespace Gct.Eb

open Channels List Receiver Item Function

/-! ## 1. The invariant -/

structure Heard (s : Sender) (r : Receiver) : Prop where
  got : ∀ c, r.got c <+: s.sent c
  misframed : r.misframed = false
  failed : ∀ a ∈ r.failed, a = .noBigBuffer
  eods : r.eodsReceived = tally isEod (Finset.range s.nextConn) r.got
  eodCount : (r.eodCount = -1 ∧ ∀ c g, .header g ∈ r.got c → g.eof = false) ∨
    ∃ c g, .header g ∈ r.got c ∧ g.eof = true ∧ r.eodCount = g.offset

/-- The invariant of the receiver. -/
structure Hearing (k : Nat) (s : Sender) (r : Receiver) : Prop where
  lines : Lines k [] r
  heard : Heard s r

variable {k : Nat} {s : Sender} {r : Receiver} {c : Nat}

/-! ## 2. When the numbers are equal -/

namespace Shape

theorem tally_registered (hs : Shape k s) :
    ∑ c ∈ Finset.range s.nextConn, (if c ∈ s.registered then 1 else 0) = s.registered.length := by
  rw [← Finset.card_filter, ← toFinset_card_of_nodup hs.nodup]
  congr 1
  ext c
  simp only [Finset.mem_filter, Finset.mem_range, mem_toFinset]
  exact ⟨fun h => h.2, fun h => ⟨hs.lt_nextConn c h, h⟩⟩

/-- No more `EOD`s than connections are written. -/
theorem tally_eods_le (hs : Shape k s) : tally isEod (Finset.range s.nextConn) s.sent ≤ s.registered.length := by
  rw [← hs.tally_registered]
  exact Finset.sum_le_sum fun c _ => hs.eods c

end Shape

namespace Heard

theorem tally_le (h : Heard s r) : tally isEod (Finset.range s.nextConn) r.got ≤
    tally isEod (Finset.range s.nextConn) s.sent :=
  Finset.sum_le_sum fun c _ => countP_le_of_isPrefix (h.got c)

section

variable (hs : Shape k s) (h : Heard s r) (heq : r.eodCount = r.eodsReceived)

include hs h heq

/-- The number in the `EOF` header is the number of connections. -/
theorem eodCount_eq : r.eodCount = s.registered.length ∧ ∃ c g, .header g ∈ r.got c ∧ g.eof = true := by
  rcases h.eodCount with ⟨hneg, -⟩ | ⟨c, g, hg, heof, hoffset⟩
  · omega
  · refine ⟨?_, c, g, hg, heof⟩
    rw [hoffset, (hs.wire c).eofOffset g ((h.got c).subset hg) heof, hs.total]

/-- All `EOD`s are written and read. -/
theorem tally_eq : tally isEod (Finset.range s.nextConn) r.got = s.registered.length ∧
      tally isEod (Finset.range s.nextConn) s.sent = s.registered.length := by
  have h1 := (h.eodCount_eq hs heq).1
  have h2 := h.eods
  have h3 := h.tally_le
  have h4 := hs.tally_eods_le
  omega

/-- Every connection has its `EOD`. -/
theorem eods_eq : ∀ c ∈ s.registered, (s.sent c).countP isEod = 1 := by
  intro c hc
  have hsum : tally isEod (Finset.range s.nextConn) s.sent =
      ∑ c ∈ Finset.range s.nextConn, if c ∈ s.registered then 1 else 0 := by
    rw [hs.tally_registered, (h.tally_eq hs heq).2]
  have := (Finset.sum_eq_sum_iff_of_le fun c _ => hs.eods c).mp hsum c (Finset.mem_range.mpr (hs.lt_nextConn c hc))
  rw [this, if_pos hc]

/-- **Everything was read.** -/
theorem all_read : ∀ c ∈ s.registered, r.got c = s.sent c := by
  intro c hc
  obtain ⟨h1, h2⟩ := h.tally_eq hs heq
  exact eq_of_tally_eq (fun _ => isLast_of_isEod) (fun c _ => h.got c) (fun c _ => (hs.wire c).sealed)
    (h1.trans h2.symm) (Finset.mem_range.mpr (hs.lt_nextConn c hc)) (by rw [h.eods_eq hs heq c hc]; decide)

end

end Heard

variable {r' : Receiver} {l : List Item}

/-- The items `l` are read from `c`. -/
theorem Heard.read (hs : Shape k s) (h : Heard s r) (hsent : r.got c ++ l <+: s.sent c)
    (hgot : r'.got = update r.got c (r.got c ++ l)) (hmis : r'.misframed = r.misframed) (hfailed : r'.failed = r.failed)
    (heods : r'.eodsReceived = r.eodsReceived + l.countP isEod)
    (hcount : (r'.eodCount = r.eodCount ∧ ∀ g, .header g ∈ l → g.eof = false) ∨
      ∃ g, .header g ∈ l ∧ g.eof = true ∧ r'.eodCount = g.offset) : Heard s r' := by
  have hself : r'.got c = r.got c ++ l := by rw [hgot, update_self]
  have hother : ∀ d, d ≠ c → r'.got d = r.got d := fun d hd => by
    rw [hgot, update_of_ne hd]
  -- what was read before is still there
  have hold : ∀ d, r.got d ⊆ r'.got d := by
    intro d x hx
    by_cases hd : d = c
    · rw [hd, hself]
      exact mem_append_left _ (hd ▸ hx)
    · rw [hother d hd]
      exact hx
  constructor
  case got =>
    intro d
    by_cases hd : d = c
    · rw [hd, hself]
      exact hsent
    · rw [hother d hd]
      exact h.got d
  case misframed => rw [hmis, h.misframed]
  case failed => rw [hfailed]; exact h.failed
  case eods =>
    rcases Nat.lt_or_ge c s.nextConn with hlt | hge
    · rw [heods, hgot, tally_update (Finset.mem_range.mpr hlt), h.eods]
    · -- nothing is on this connection
      rw [hs.fresh c hge, prefix_nil, append_eq_nil_iff] at hsent
      rw [heods, hgot, hsent.2, append_nil, update_eq_self, h.eods]
      rfl
  case eodCount =>
    rcases hcount with ⟨hsame, hl⟩ | ⟨g, hg, heof, hoffset⟩
    · rw [hsame]
      rcases h.eodCount with ⟨hneg, hnone⟩ | ⟨d, g, hg, hrest⟩
      · refine .inl ⟨hneg, fun d g hg => ?_⟩
        by_cases hd : d = c
        · rw [hd, hself] at hg
          exact (mem_append.mp hg).elim (hnone c g) (hl g)
        · rw [hother d hd] at hg
          exact hnone d g hg
      · exact .inr ⟨d, g, hold d hg, hrest⟩
    · exact .inr ⟨c, g, hself ▸ mem_append_right _ hg, heof, hoffset⟩

/-- A header is read. -/
theorem Heard.header {g : EbHeader} (hs : Shape k s) (h : Heard s r) (hsent : r.got c ++ [.header g] <+: s.sent c)
    (hgot : r'.got = update r.got c (r.got c ++ [.header g]))
    (hmis : r'.misframed = r.misframed) (hfailed : r'.failed = r.failed)
    (heods : r'.eodsReceived = r.eodsReceived + if g.eod then 1 else 0)
    (hcount : r'.eodCount = if g.eof then g.offset else r.eodCount) : Heard s r' := by
  have hone : [Item.header g].countP isEod = if g.eod then 1 else 0 := by
    cases heod : g.eod <;> simp [heod]
  refine h.read hs hsent hgot hmis hfailed (hone ▸ heods) ?_
  by_cases heof : g.eof = true
  · exact .inr ⟨g, mem_cons_self, heof, hcount.trans (if_pos heof)⟩
  · refine .inl ⟨hcount.trans (if_neg heof), fun g' hg' => ?_⟩
    obtain rfl : g' = g := by simpa using hg'
    simpa using heof

/-- Data is read. -/
theorem Heard.data (hs : Shape k s) (h : Heard s r) (hsent : r.got c ++ l <+: s.sent c) (hl : ∀ x ∈ l, x.size = none)
    (hgot : r'.got = update r.got c (r.got c ++ l)) (hmis : r'.misframed = r.misframed) (hfailed : r'.failed = r.failed)
    (heods : r'.eodsReceived = r.eodsReceived) (hcount : r'.eodCount = r.eodCount) : Heard s r' := by
  have hnone : ∀ g, .header g ∉ l := fun g hg => by simpa using hl _ hg
  have hcountP : l.countP isEod = 0 := by
    rw [countP_eq_zero]
    intro x hx
    cases x with
    | header g => exact absurd hx (hnone g)
    | byte b => exact Bool.false_ne_true
  exact h.read hs hsent hgot hmis hfailed (by rw [heods, hcountP]; rfl) (.inl ⟨hcount, fun g hg => absurd hg (hnone g)⟩)

namespace Hearing

/-- No connection is ready then. -/
theorem free_eq_nil (hs : Shape k s) (h : Hearing k s r) (heq : r.eodCount = r.eodsReceived) : r.freeConnQ = [] := by
  cases hfree : r.freeConnQ with
  | nil => rfl
  | cons c q =>
    obtain ⟨hready, hpos⟩ := h.lines.free c (by rw [hfree]; exact mem_cons_self)
    have hdue := hready.due
    have hgot := h.heard.got c
    by_cases hc : c ∈ s.registered
    · rw [h.heard.all_read hs heq c hc, (hs.wire c).framed, Option.some.injEq] at hdue
      omega
    · -- there is no data on a connection that is not used
      have hzero : due size 0 (r.got c) = some 0 := by
        rcases (hs.wire c).unused hc with hsent | hsent <;> rw [hsent] at hgot
        · rw [prefix_nil.mp hgot, due_nil]
        · rcases prefix_cons_iff.mp hgot with hnil | ⟨l, hl, hlnil⟩
          · rw [hnil, due_nil]
          · rw [hl, prefix_nil.mp hlnil, due_header (n := 0) (by simp), due_nil]
      rw [hzero, Option.some.injEq] at hdue
      omega

/-! ## 3. Headers -/

/-- The first items that have arrived follow those that were read. -/
theorem arrived (h : Hearing k s r) (n : Nat) : r.got c ++ ((s.sent c).drop (r.got c).length).take n <+: s.sent c := by
  obtain ⟨l, hl⟩ := h.heard.got c
  rw [← hl, drop_left]
  exact prefix_append_right_inj _ |>.mpr ( take_prefix n l)

/-- What has arrived is in step with what was read. -/
theorem due_arrived (hs : Shape k s) (h : Hearing k s r) {n : Nat} (hn : due size 0 (r.got c) = some n) :
    due size n ((s.sent c).drop (r.got c).length) = some 0 := by
  obtain ⟨l, hl⟩ := h.heard.got c
  have hframed := (hs.wire c).framed
  rw [← hl, due_append, hn] at hframed
  rw [← hl, drop_left]
  exact hframed

section

variable {g : EbHeader}

/-- The bytes behind the header that is read are due then. -/
theorem due_header (h : Hearing k s r) (hc : c ∈ r.headerReads) : due size 0 (r.got c ++ [.header g]) = some g.bytes := by
  obtain ⟨hready, hzero, -⟩ := h.lines.header c hc
  rw [due_append, hready.due, hzero]
  exact (Channels.due_header (size_header g) []).trans (due_nil _)

section

variable (hs : Shape k s) (h : Hearing k s r)
  (hc : c ∈ r.headerReads) (hsent : r.got c ++ [.header g] <+: s.sent c)

include hs h hc hsent

/-- A header that ends the connection has no data, and is the last thing on it. -/
theorem end_header (hlast : (g.eod || g.close) = true) : g.bytes = 0 ∧ s.sent c = r.got c ++ [.header g] := by
  have heq := (hs.wire c).sealed.eq_of_isPrefix hsent (mem_append_right _ mem_cons_self) hlast
  refine ⟨?_, heq.symm⟩
  have hframed := (hs.wire c).framed
  rw [← heq, h.due_header hc, Option.some.injEq] at hframed
  exact hframed

/-- Only a connection that was cached, and is not used, is closed without an `EOD`. -/
theorem closeAfterEod (hclose : g.close = true) : ((r.conns c).reusing || g.eod) = true := by
  cases heod : g.eod with
  | true => exact Bool.or_true _
  | false =>
    obtain ⟨-, -, hreusing⟩ := h.lines.header c hc
    have hmem : .header g ∈ s.sent c := hsent.subset (mem_append_right _ mem_cons_self)
    obtain ⟨hall, hk, -⟩ := (hs.wire c).closeOnly g hmem hclose heod
    rw [(h.end_header hs hc hsent (by rw [hclose, Bool.or_true])).2] at hall
    rw [hreusing hk (by simpa using hall), Bool.true_or]

end

end

/-- **A header is read.** -/
theorem readHeader {g : EbHeader} (hs : Shape k s) (h : Hearing k s r)
    (hc : c ∈ r.headerReads) (hsent : r.got c ++ [.header g] <+: s.sent c) : Hearing k s (readHeaderCallback { r with
        headerReads := r.headerReads.erase c
        got := update r.got c (r.got c ++ [.header g]) } c g) := by
  obtain ⟨hready, -, -⟩ := h.lines.header c hc
  have hdue := h.due_header (g := g) hc
  have hend := h.end_header hs hc hsent
  have hassert := h.closeAfterEod hs hc hsent
  have hconn : (r.conns c).readHeader g = { (r.conns c) with
      eod := g.eod, close := g.close, bytesReady := g.bytes
      offset := if g.eof then 0 else g.offset } := by
    simp only [DataConn.readHeader, hready.eod, hready.close, Bool.false_or]
    rfl
  have hlines := (h.lines.takeHeader hc).setConn { (r.conns c).readHeader g with reusing := false }
    (r.got c ++ [.header g])
  have hheard := fun r' => @Heard.header k s r c r' g hs h.heard hsent
  unfold readHeaderCallback
  rw [hconn] at hlines ⊢
  by_cases hbytes : g.bytes = 0
  · rw [if_pos hbytes]
    unfold emptyHeader
    cases hclose : g.close with
    | true =>
      simp only [if_true, Receiver.globusAssert, hassert hclose]
      rw [hclose] at hlines
      cases heod : g.eod with
      | true | false =>
        rw [heod] at hlines
        exact ⟨{ hlines.drop with }, hheard _ rfl rfl rfl (by rw [heod]; rfl) rfl⟩
    | false =>
      rw [hclose] at hlines
      cases heod : g.eod with
      | true =>
        rw [heod] at hlines
        exact ⟨{ hlines.drop with }, hheard _ rfl rfl rfl (by rw [heod]; rfl) rfl⟩
      | false =>
        rw [heod] at hlines
        have hput := hlines.putHeader ⟨by simp [hdue], by simp, by simp⟩ (by simp [hbytes]) (by simp)
        exact ⟨{ hput with }, hheard _ rfl rfl rfl (by rw [heod]; rfl) rfl⟩
  · rw [if_neg hbytes]
    have hopen : (g.eod || g.close) = false := by
      cases hlast : g.eod || g.close with
      | true => exact absurd (hend hlast).1 hbytes
      | false => rfl
    obtain ⟨heod, hclose⟩ := Bool.or_eq_false_iff.mp hopen
    have hready' : Ready { r.conns c with
        eod := g.eod, close := g.close, bytesReady := g.bytes, reusing := false
        offset := if g.eof then 0 else g.offset } (r.got c ++ [.header g]) := ⟨hdue, heod, hclose⟩
    unfold dataReady
    cases hbig : r.bigBuffer with
    | none =>
      have hput := hlines.putFree (by simpa using hready') (by simp; omega)
      exact ⟨{ hput with }, hheard _ rfl rfl rfl (by rw [heod]; rfl) rfl⟩
    | some length =>
      dsimp only
      by_cases hfit : (if g.eof then 0 else g.offset) + g.bytes > length
      · rw [if_pos hfit]
        exact ⟨{ hlines.drop with }, hheard _ rfl rfl rfl (by rw [heod]; rfl) rfl⟩
      · rw [if_neg hfit]
        have hput := hlines.putData (n := g.bytes) (by simpa using hready') (by simp; omega) (by simp)
        exact ⟨{ hput with }, hheard _ rfl rfl rfl (by rw [heod]; rfl) rfl⟩

/-! ## 4. Data -/

/-- **Data is read.** -/
theorem readData {d : Nat × Nat} (hs : Shape k s) (h : Hearing k s r)
    (hd : r.dataReads.find? (fun d => d.1 == c) = some d) (hlen : l.length = d.2)
    (hsent : r.got c ++ l <+: s.sent c) (hl : ∀ x ∈ l, x.size = none) : Hearing k s (readCallback { r with
        dataReads := r.dataReads.eraseP (fun d => d.1 == c)
        got := update r.got c (r.got c ++ l) } c d.2) := by
  obtain ⟨hready, hpos, hle⟩ := h.lines.data d (mem_of_find?_eq_some hd)
  obtain rfl : d.1 = c := by simpa using find?_some hd
  have hdue : due size 0 (r.got d.1 ++ l) = some ((r.conns d.1).bytesReady - d.2) := by
    rw [due_append, hready.due]
    exact hlen ▸ due_payload hl (hlen ▸ hle)
  have hlines := (h.lines.takeData hd).setConn
    { r.conns d.1 with
      offset := (r.conns d.1).offset + d.2
      bytesReady := (r.conns d.1).bytesReady - d.2 } (r.got d.1 ++ l)
  have hready' : Ready
      { r.conns d.1 with
        offset := (r.conns d.1).offset + d.2
        bytesReady := (r.conns d.1).bytesReady - d.2 } (r.got d.1 ++ l) :=
    ⟨hdue, hready.eod, hready.close⟩
  have hheard := fun r' => @Heard.data k s r d.1 r' l hs h.heard hsent hl
  unfold readCallback
  by_cases hbytes : (r.conns d.1).bytesReady - d.2 = 0
  · rw [if_pos hbytes, if_neg (by rw [hready.eod]; exact Bool.false_ne_true)]
    -- a read that takes nothing does not finish a block
    have hgot : d.1 < k → r.got d.1 ++ l = [] → False := by
      intro _ hnil
      rw [append_eq_nil_iff.mp hnil |>.2] at hlen
      simp at hlen
      omega
    have hput := hlines.putHeader (by simpa using hready') (by simpa using hbytes)
      (fun hk hnil => (hgot hk (by simpa using hnil)).elim)
    exact ⟨{ hput with }, hheard _ rfl rfl rfl rfl rfl⟩
  · rw [if_neg hbytes]
    have hput := hlines.putFree (by simpa using hready') (by simp; omega)
    exact ⟨{ hput with }, hheard _ rfl rfl rfl rfl rfl⟩

/-! ## 5. The poll and the calls of the user -/

/-- Whichever connection is taken, the others stay. -/
theorem takeConn_perm {rest : List Nat} (ht : r.takeConn = some (c, rest)) : r.freeConnQ.Perm (c :: rest) := by
  unfold takeConn at ht
  split at ht
  · rw [span_eq_takeWhile_dropWhile] at ht
    dsimp only at ht
    split at ht
    · cases ht
    next d rest' hdrop =>
      cases ht
      have happ := takeWhile_append_dropWhile
        (p := fun c => decide ((r.conns c).offset ≠ r.orderNextOffset)) (l := r.freeConnQ)
      rw [hdrop] at happ
      exact (List.Perm.of_eq happ.symm).trans perm_append_comm
  · split at ht
    · cases ht
    next hfree =>
      cases ht
      rw [hfree]

theorem globusAssert (h : Hearing k s r) (a : Assertion) (holds : Bool)
    (ha : holds = true ∨ a = .noBigBuffer) : Hearing k s (r.globusAssert a holds) := by
  unfold Receiver.globusAssert
  split
  · exact h
  next hfalse =>
    refine ⟨{ h.lines with }, { h.heard with failed := ?_ }⟩
    exact forall_mem_cons.mpr ⟨ha.resolve_left hfalse, h.heard.failed⟩

theorem pollLoop (hs : Shape k s) : ∀ {q : List Nat} {checked : Bool} {r : Receiver}, Hearing k s r →
    Hearing k s (Receiver.pollLoop q checked r).1
  | [], _, _, h => ⟨{ h.lines with }, { h.heard with }⟩
  | length :: q, checked, r, h => by
    have h := h.globusAssert .noBigBuffer r.bigBuffer.isNone (.inr rfl)
    rw [Receiver.pollLoop]
    generalize r.globusAssert .noBigBuffer r.bigBuffer.isNone = r at h ⊢
    split
    next heof =>
      have hfree := h.free_eq_nil hs (by simpa [atEof] using heof)
      have h := h.globusAssert .noFreeConn r.freeConnQ.isEmpty (.inl (by rw [hfree]; rfl))
      exact pollLoop hs ⟨{ h.lines with }, { h.heard with }⟩
    · split
      · exact ⟨{ h.lines with }, { h.heard with }⟩
      next d rest ht =>
        obtain ⟨hready, hpos⟩ := h.lines.free d ((takeConn_perm ht).mem_iff.mpr mem_cons_self)
        have htake := h.lines.takeFree (takeConn_perm ht)
        have hput := htake.putData hready hpos (Nat.min_le_right length _)
        exact pollLoop hs ⟨{ hput with }, { h.heard with }⟩

theorem poll (hs : Shape k s) (h : Hearing k s r) : Hearing k s r.poll := by
  unfold Receiver.poll
  dsimp only
  have hbig : Hearing k s (if r.bigBuffer.isSome && r.atEof then
      { r with bigBuffer := none, kickouts := r.kickouts + 1 } else r) := by
    split
    · exact ⟨{ h.lines with }, { h.heard with }⟩
    · exact h
  generalize (if r.bigBuffer.isSome && r.atEof then
      { r with bigBuffer := none, kickouts := r.kickouts + 1 } else r) = r at hbig ⊢
  have hloop : Hearing k s (Receiver.pollLoop r.commandQ false r).1 := hbig.pollLoop hs
  unfold checkOrder
  dsimp only
  split
  · split
    · exact ⟨{ hloop.lines with }, { hloop.heard with }⟩
    · exact ⟨{ hloop.lines with }, { hloop.heard with }⟩
  · exact hloop

/-- The loop has the queue in its hands. -/
theorem readAllLoop {length : Nat} : ∀ {q : List Nat} {r : Receiver},
    Hearing k s { r with freeConnQ := q } → Hearing k s (Receiver.readAllLoop length q r)
  | [], _, h => h
  | c :: q, r, h => by
    have htake := h.lines.takeFree (List.Perm.refl (c :: q))
    rw [Receiver.readAllLoop]
    split
    · exact ⟨{ htake.drop with }, { h.heard with }⟩
    · obtain ⟨hready, hpos⟩ := h.lines.free c mem_cons_self
      have hput := htake.putData hready hpos le_rfl
      exact readAllLoop ⟨{ hput with }, { h.heard with }⟩

theorem dataReadAll (h : Hearing k s r) {length : Nat} (hr : r.dataReadAll length = .ok r') : Hearing k s r' := by
  unfold Receiver.dataReadAll at hr
  split at hr
  · cases hr
  · split at hr
    · cases hr
    · cases hr
      exact readAllLoop ⟨{ h.lines with }, { h.heard with }⟩

/-! ## 6. Connections -/

theorem listenCallback (h : Hearing k s r) (hc : c ∉ r.accepted) : Hearing k s (r.listenCallback c) := by
  unfold Receiver.listenCallback
  split
  · exact ⟨{ h.lines.listen hc with }, { h.heard with }⟩
  · exact h

theorem acceptCallback (h : Hearing k s r) (ok : Bool) : Hearing k s (r.acceptCallback c ok) := by
  unfold Receiver.acceptCallback
  split
  next hc =>
    have htake := h.lines.takeAccepting hc
    split
    · have hgot := h.lines.new c (.inr hc)
      obtain ⟨hconn, hk⟩ := h.lines.accepting c hc
      have hset := htake.setConn { r.conns c with bytesReady := 0 } (r.got c)
      rw [update_eq_self] at hset
      have hput := hset.putHeader
        ⟨by simp [hgot], by simp [hconn, DataConn.init], by simp [hconn, DataConn.init]⟩ (by simp)
        (fun hlt => by omega)
      exact ⟨{ hput with }, { h.heard with }⟩
    · exact ⟨{ htake.drop with }, { h.heard with }⟩
  · exact h

/-! ## 7. Steps -/

section

variable (hs : Shape k s) (h : Hearing k s r)

include hs h

theorem headerArrived (ok : Bool) : Hearing k s (r.headerArrived c ok ((s.sent c).drop (r.got c).length)) := by
  unfold Receiver.headerArrived
  split
  next hc =>
    split
    · have hpre := h.arrived (c := c) 1
      split
      · exact h
      · -- where a header is due there is no data
        rename_i b l hx
        obtain ⟨hready, hzero, -⟩ := h.lines.header c hc
        have hdue := h.due_arrived hs (hzero ▸ hready.due)
        rw [hx] at hdue
        obtain ⟨n, hn, -⟩ := size_of_due_zero hdue
        simp at hn
      next g l hx =>
        rw [hx] at hpre
        exact h.readHeader hs hc hpre
    · exact ⟨{ (h.lines.takeHeader hc).drop with }, { h.heard with }⟩
  · exact h

theorem dataArrived (ok : Bool) : Hearing k s (r.dataArrived c ok ((s.sent c).drop (r.got c).length)) := by
  unfold Receiver.dataArrived
  split
  · exact h
  next d n hd =>
    split
    · split
      · exact h
      · obtain ⟨hready, -, hle⟩ := h.lines.data _ (mem_of_find?_eq_some hd)
        obtain rfl : d = c := by simpa using find?_some hd
        -- where data is due there is no header
        have hl : ∀ x ∈ ((s.sent d).drop (r.got d).length).take n, x.size = none := fun x hx =>
          size_of_due (h.due_arrived hs hready.due) x (take_subset_take_left _ hle hx)
        have hany : (((s.sent d).drop (r.got d).length).take n).any (fun x => x.size.isSome) = false := by
          rw [any_eq_false]
          intro x hx
          simp [hl x hx]
        rw [hany, if_neg Bool.false_ne_true]
        exact h.readData hs hd (length_take_of_le (by omega)) (h.arrived n) hl
    · exact ⟨{ (h.lines.takeData hd).drop with }, { h.heard with }⟩

/-- **Every step of the receiver keeps the invariant.** -/
theorem step (e : ReceiverEvent) : Hearing k s (r.step s.sent s.nextConn e) := by
  unfold Receiver.step
  split
  · exact h
  · cases e with
    | read maxLength => exact ⟨{ h.lines with }, { h.heard with }⟩
    | readAll length =>
      dsimp only
      split
      · exact h.dataReadAll ‹_›
      · exact h
    | poll => exact h.poll hs
    | listen c =>
      dsimp only
      split
      · exact h.listenCallback (‹c < s.nextConn ∧ c ∉ r.accepted›).2
      · exact h
    | accept c ok => exact h.acceptCallback ok
    | header c ok => exact h.headerArrived hs ok
    | data c ok => exact h.dataArrived hs ok
    | kickout =>
      dsimp only
      unfold commandKickout
      split
      · exact h
      · exact ⟨{ h.lines with }, { h.heard with }⟩

end

end Hearing

/-- **A transfer starts with the invariant.** -/
theorem Setup.hearing_connectRead (setup : Setup) {s : Sender} : Hearing setup.cached s setup.connectRead := by
  refine ⟨⟨?_, ?_, fun _ _ => rfl, nofun, ?_, nofun, nofun⟩, ⟨fun _ => nil_prefix, rfl, nofun, ?_, ?_⟩⟩
  · intro c
    have hnodup := nodup_range (n := setup.cached)
    simp only [Setup.connectRead, count_nil, map_nil, mem_range]
    rw [hnodup.count]
    simp only [mem_range]
    omega
  · exact fun c hc => mem_range.mpr hc
  · exact fun c _ => ⟨⟨rfl, rfl, rfl⟩, rfl, fun _ _ => rfl⟩
  · simp [Setup.connectRead, tally]
  · exact .inl ⟨rfl, nofun⟩

end Gct.Eb
