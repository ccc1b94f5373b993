/-
# Extended block mode: the sender keeps its books

`Control` is the rest of the invariant of the sender, next to `Wires`: what the flags `eof` and
`eofSent` mean, and that the references to the callback of the last write are those that are still to
come.  They are counted when the poll takes the entry with the flag `eof`, one for every connection that
is connected or connecting, so the handle reaches its state `EOF` when the last connection has written
its `EOD`.

`Inv` is the invariant of a whole run (`Inv.step`).
-/
import Gct.Eb.Wires

namespace Gct.Eb

open Channels List Sender Function

/-! ## 1. The invariant -/

/-- The blocks of the write `handle` that are not written yet; `q` is the queue. -/
def pending (handle : Nat) (q : List Entry) (s : Sender) : Nat :=
  (q ++ s.writing.map Prod.snd).countP fun e => e.callbackTableHandle == handle && !e.buffer.isEmpty

variable (q : List Entry) (s : Sender)

/-- Before the poll takes the entry with the flag `eof`. -/
structure BeforeEof : Prop where
  state : s.state = .connectWrite
  eofSent : s.eofSent = false
  finishing : s.finishing = []
  writing : ∀ w ∈ s.writing, w.2.eof = false
  queue : s.eofRegistered = true → ∃ e ∈ q, e.eof = true
  references : s.eofRegistered = true →
    s.handleTable s.eofTableHandle = pending s.eofTableHandle q s + 1

/-- After it. -/
structure AfterEof : Prop where
  registered : s.eofRegistered = true
  free : s.freeConnQ = []
  eofSent : s.eofSent = false → s.writing ≠ []
  references : (s.handleTable s.eofTableHandle : Int) = pending s.eofTableHandle q s +
    s.writing.length + s.outstandingConnections + s.finishing.length

/-- The queue is a parameter: the poll has the rest of it in its hands. -/
structure Control : Prop where
  state : s.state = .connectWrite ∨
    s.state = .eof ∧ s.eof = true ∧ s.writing = [] ∧ s.outstandingConnList = [] ∧ s.finishing = []
  asserts : s.assertsHeld = true
  connecting : ∀ c, s.connecting.count c ≤ s.outstandingConnList.count c
  queue : ∀ e ∈ q, e.callbackTableHandle < s.nextHandle ∧ (e.buffer = [] → e.eof = true) ∧
    (e.eof = true → s.eofRegistered = true ∧ e.callbackTableHandle = s.eofTableHandle)
  writing : ∀ w ∈ s.writing, w.2.callbackTableHandle < s.nextHandle ∧ w.2.buffer ≠ [] ∧
    (w.2.eof = true → w.2.callbackTableHandle = s.eofTableHandle)
  before : s.eof = false → BeforeEof q s
  after : s.eof = true → AfterEof q s

/-- The invariant of the sender. -/
structure Inv (k : Nat) (s : Sender) : Prop where
  shape : Shape k s
  wires : s.state ≠ .closing → Wires k [] s
  control : s.state ≠ .closing → Control s.commandQ s

/-! ## 2. Pending blocks -/

section Pending

variable {handle : Nat} {q : List Entry} {s : Sender} {c : Nat} {entry : Entry}

theorem pending_cons_empty (h : entry.buffer = []) : pending handle (entry :: q) s = pending handle q s := by
  simp [pending, h]

theorem pending_registerWritev : pending handle q (s.registerWritev c entry) = pending handle (entry :: q) s := by
  simp only [pending, Sender.registerWritev, map_append, map_cons, map_nil,
    cons_append, countP_cons, countP_append, countP_nil]
  omega

/-- A block is written. -/
theorem pending_written {w : Nat × Entry} (hw : s.writing.find? (fun w => w.1 == c) = some w)
    (h : w.2.buffer ≠ []) : pending handle q { s with writing := s.writing.eraseP (fun w => w.1 == c) } +
      (if w.2.callbackTableHandle = handle then 1 else 0) = pending handle q s := by
  obtain ⟨-, l, l', heq, herase⟩ := split_of_find? hw
  unfold pending
  rw [herase, heq]
  simp only [map_append, map_cons, countP_append, countP_cons]
  simp [h]
  omega

/-- The pieces of a new write are pending, apart from those that are empty. -/
theorem pending_append {entries : List Entry} (hq : ∀ e ∈ q, e.callbackTableHandle < handle)
    (hw : ∀ w ∈ s.writing, w.2.callbackTableHandle < handle) (he : ∀ e ∈ entries, e.callbackTableHandle = handle) :
    pending handle (q ++ entries) s = entries.countP fun e => !e.buffer.isEmpty := by
  have hq0 : q.countP (fun e => e.callbackTableHandle == handle && !e.buffer.isEmpty) = 0 := by
    rw [countP_eq_zero]
    intro e hmem
    have := hq e hmem
    simp [show e.callbackTableHandle ≠ handle by omega]
  have hw0 : (s.writing.map Prod.snd).countP (fun e => e.callbackTableHandle == handle && !e.buffer.isEmpty) = 0 := by
    rw [countP_eq_zero]
    intro e hmem
    obtain ⟨w, hwmem, rfl⟩ := mem_map.mp hmem
    have := hw w hwmem
    simp [show w.2.callbackTableHandle ≠ handle by omega]
  have he0 : entries.countP (fun e => e.callbackTableHandle == handle && !e.buffer.isEmpty) =
      entries.countP fun e => !e.buffer.isEmpty :=
    countP_congr fun e hmem => by simp [he e hmem]
  rw [pending, countP_append, countP_append, hq0, hw0, he0]
  omega

end Pending

/-! ## 3. The operations of the poll -/

theorem Sender.openConnections_commandQ : ∀ (n : Nat) (refused : Option Nat) (s : Sender),
    (openConnections n refused s).commandQ = s.commandQ
  | 0, _, _ => rfl
  | _ + 1, some 0, _ => rfl
  | n + 1, some (k + 1), s => openConnections_commandQ n (some k) (s.registerConnect true)
  | n + 1, none, s => openConnections_commandQ n none (s.registerConnect true)

theorem Sender.adjustConnection_commandQ (s : Sender) (refused : Option Nat) :
    (s.adjustConnection refused).commandQ = s.commandQ := by
  unfold Sender.adjustConnection
  dsimp only
  split
  · rfl
  · split
    · exact openConnections_commandQ _ _ _
    · split
      · split <;> rfl
      · rfl

namespace Control

variable {k : Nat} {q : List Entry} {s : Sender} {c : Nat} {entry : Entry} {free : List Nat}

theorem eofSent_of_not_eof (h : Control q s) (he : s.eof = false) : s.eofSent = false :=
  (h.before he).eofSent

/-- With a free connection the entry with the flag `eof` was not taken yet. -/
theorem not_eof_of_free (h : Control q s) (hfree : s.freeConnQ = c :: free) : s.eof = false := by
  cases he : s.eof with
  | false => rfl
  | true =>
    have := (h.after he).free
    rw [hfree] at this
    cases this

theorem registerConnect (h : Control q s) (he : s.eof = false) (accepted : Bool) :
    Control q (s.registerConnect accepted) := by
  refine { h with state := ?_, connecting := ?_, before := ?_, after := ?_ }
  · exact .inl (h.before he).state
  · intro d
    have := h.connecting d
    cases accepted with
    | false =>
      simp only [Sender.registerConnect, count_cons, Bool.false_eq_true, if_false]
      omega
    | true =>
      simp only [Sender.registerConnect, count_cons, count_append, count_nil, if_true]
      omega
  · exact fun _ => { h.before he with }
  · intro he'
    rw [show (s.registerConnect accepted).eof = s.eof from rfl, he] at he'
    cases he'

theorem openConnections : ∀ {n : Nat} {refused : Option Nat} {s : Sender}, Wires k [] s → Control q s →
    s.eof = false → Wires k [] (openConnections n refused s) ∧ Control q (openConnections n refused s)
  | 0, _, _, hw, h, _ => ⟨hw, h⟩
  | _ + 1, some 0, _, hw, h, he =>
    ⟨hw.registerConnect (h.eofSent_of_not_eof he) false, h.registerConnect he false⟩
  | _ + 1, some (_ + 1), s, hw, h, he =>
    openConnections (s := s.registerConnect true) (hw.registerConnect (h.eofSent_of_not_eof he) true)
      (h.registerConnect he true) he
  | _ + 1, none, s, hw, h, he =>
    openConnections (s := s.registerConnect true) (hw.registerConnect (h.eofSent_of_not_eof he) true)
      (h.registerConnect he true) he

theorem adjustConnection (hw : Wires k [] s) (h : Control q s) (refused : Option Nat) :
    Wires k [] (s.adjustConnection refused) ∧ Control q (s.adjustConnection refused) := by
  unfold Sender.adjustConnection
  dsimp only
  split
  · exact ⟨hw, h⟩
  next hstop =>
    have he : s.eof = false := by
      cases he : s.eof with
      | false => rfl
      | true => exact absurd (.inr he) hstop
    split
    · exact openConnections hw h he
    · split
      · split
        · exact ⟨hw, h⟩
        next hfree =>
          exact ⟨(hw.take hfree).drop, { h with
            before := fun _ => { h.before he with }
            after := fun he' => nomatch he.symm.trans he' }⟩
      · exact ⟨hw, h⟩

/-- A block is taken from the queue. -/
theorem registerWritev (h : Control (entry :: q) s) (heof : entry.eof = false)
    (hs : s.eof = false) : Control q ({ s with freeConnQ := free }.registerWritev c entry) := by
  have hentry := h.queue entry mem_cons_self
  have hne : entry.buffer ≠ [] := fun hb => by
    have := hentry.2.1 hb
    rw [heof] at this
    cases this
  have hb := h.before hs
  refine { h with state := ?_, queue := ?_, writing := ?_, before := ?_, after := ?_ }
  · exact .inl hb.state
  · exact fun e he => h.queue e (mem_cons_of_mem _ he)
  · exact forall_mem_append.mpr ⟨h.writing, forall_mem_singleton.mpr ⟨hentry.1, hne, fun he => (hentry.2.2 he).2⟩⟩
  · intro _
    refine { hb with writing := ?_, queue := ?_, references := ?_ }
    · exact forall_mem_append.mpr ⟨hb.writing, forall_mem_singleton.mpr heof⟩
    · intro hreg
      obtain ⟨e, he, hee⟩ := hb.queue hreg
      rcases mem_cons.mp he with rfl | he
      · rw [heof] at hee
        cases hee
      · exact ⟨e, he, hee⟩
    · intro hreg
      rw [pending_registerWritev]
      exact hb.references hreg
  · exact fun he => nomatch hs.symm.trans he

/-- What `registerEods` does apart from the writing. -/
theorem registerEods_eq : ∀ (q : List Nat) (s : Sender), ∃ sent, registerEods q s = { s with
      sent := sent
      freeConnQ := []
      connectionCount := s.connectionCount - q.length
      finishing := s.finishing ++ q }
  | [], s => ⟨s.sent, by simp [registerEods]⟩
  | c :: q, s => by
    obtain ⟨sent, h⟩ := registerEods_eq q (s.registerEod c)
    refine ⟨sent, ?_⟩
    rw [registerEods, h]
    simp only [registerEod, send, length_cons, append_assoc, singleton_append]
    congr 1
    omega

/-- All connections that are free send their `EOD`. -/
theorem retire (hstate : s.state = .connectWrite) (hasserts : s.assertsHeld = true)
    (hconn : ∀ d, s.connecting.count d ≤ s.outstandingConnList.count d)
    (hqueue : ∀ e ∈ q, e.callbackTableHandle < s.nextHandle ∧ (e.buffer = [] → e.eof = true) ∧
      (e.eof = true → s.eofRegistered = true ∧ e.callbackTableHandle = s.eofTableHandle))
    (hwriting : ∀ w ∈ s.writing, w.2.callbackTableHandle < s.nextHandle ∧ w.2.buffer ≠ [] ∧
      (w.2.eof = true → w.2.callbackTableHandle = s.eofTableHandle))
    (hreg : s.eofRegistered = true) (hsent : s.eofSent = false → s.writing ≠ [])
    (hrefs : (s.handleTable s.eofTableHandle : Int) = pending s.eofTableHandle q s + s.writing.length +
      s.outstandingConnections + s.finishing.length + s.freeConnQ.length) : Control q s.retire := by
  obtain ⟨sent, h⟩ := registerEods_eq s.freeConnQ { s with eof := true }
  rw [Sender.retire, h]
  refine ⟨.inl hstate, hasserts, hconn, hqueue, hwriting, nofun, fun _ => ⟨hreg, rfl, hsent, ?_⟩⟩
  rw [hrefs, length_append]
  unfold pending
  dsimp only
  omega

/-- The entry with the flag `eof` is taken: the references are one for each connection and one for each
block that is not written. -/
theorem pollEof (hw : Wires k [] s) (h : Control (entry :: q) s)
    (hfree : s.freeConnQ = c :: free) (heof : entry.eof = true) :
    Wires k [] ({ s with freeConnQ := free }.pollEof entry c) ∧
      Control q ({ s with freeConnQ := free }.pollEof entry c) := by
  have hs : s.eof = false := h.not_eof_of_free hfree
  have hb := h.before hs
  have hentry := h.queue entry mem_cons_self
  have hreg := (hentry.2.2 heof).1
  have hrefs := hb.references hreg
  have hqueue := fun e he => h.queue e (mem_cons_of_mem entry he)
  have hfin : s.finishing.length = 0 := by rw [hb.finishing]; rfl
  have hconn := hw.connections
  have hout := hw.outstanding
  rw [hfree, length_cons, length_nil] at hconn
  have hheld : Wires k [c] ({ s with freeConnQ := free }.addReferences
      (s.connectionCount + s.outstandingConnections - 1)) := { hw.take hfree with }
  unfold Sender.pollEof
  dsimp only
  split
  · -- the connection sends `EOF`
    rename_i hlen
    rw [pending_cons_empty (length_eq_zero_iff.mp hlen)] at hrefs
    refine ⟨(hheld.registerEof hb.eofSent).retire, ?_⟩
    rw [registerEof, if_neg (by simp [addReferences, hb.eofSent])]
    refine retire hb.state h.asserts h.connecting hqueue h.writing hreg Bool.noConfusion ?_
    simp only [addReferences, send, update_self, length_append, length_singleton]
    unfold pending at hrefs ⊢
    dsimp only
    omega
  · -- the connection writes the block, and there is one more reference for it
    rename_i hlen
    have hne : entry.buffer ≠ [] := fun hb => hlen (by rw [hb]; rfl)
    refine ⟨(hheld.registerWritev entry).retire, ?_⟩
    refine retire hb.state h.asserts h.connecting hqueue ?_ hreg ?_ ?_
    · exact forall_mem_append.mpr ⟨h.writing, forall_mem_singleton.mpr ⟨hentry.1, hne, fun he => (hentry.2.2 he).2⟩⟩
    · exact fun _ => append_ne_nil_of_right_ne_nil _ (cons_ne_nil _ _)
    · rw [pending_registerWritev]
      simp only [Sender.registerWritev, addReferences, send, update_self, length_append, length_singleton]
      unfold pending at hrefs ⊢
      dsimp only
      omega

theorem pollLoop : ∀ {q : List Entry} {s : Sender}, Wires k [] s → Control q s →
    Wires k [] (Sender.pollLoop q s) ∧ Control (Sender.pollLoop q s).commandQ (Sender.pollLoop q s)
  | [], s, hw, h => ⟨{ hw with }, { h with
      before := fun he => { h.before he with }, after := fun he => { h.after he with } }⟩
  | entry :: q, s, hw, h => by
    rw [Sender.pollLoop]
    split
    · exact ⟨{ hw with }, { h with
        before := fun he => { h.before he with }, after := fun he => { h.after he with } }⟩
    next c free hfree =>
      dsimp only
      cases heof : entry.eof with
      | true =>
        obtain ⟨hw', h'⟩ := h.pollEof hw hfree heof
        exact pollLoop hw' h'
      | false =>
        rw [if_neg (by decide)]
        exact pollLoop ((hw.take hfree).registerWritev entry) (h.registerWritev heof (h.not_eof_of_free hfree))

theorem poll (hw : Wires k [] s) (h : Control s.commandQ s) (refused : Option Nat) :
    Wires k [] (s.poll refused) ∧ Control (s.poll refused).commandQ (s.poll refused) := by
  unfold Sender.poll
  split
  · dsimp only
    split
    · exact pollLoop hw h
    · obtain ⟨hw', h'⟩ := adjustConnection hw h refused
      rw [adjustConnection_commandQ]
      exact pollLoop hw' h'
  · exact ⟨hw, h⟩

/-! ## 4. The callbacks -/

/-- A connection that is still connecting keeps the handle from its state `EOF`. -/
theorem state_of_outstanding (h : Control q s) (hc : c ∈ s.outstandingConnList) : s.state = .connectWrite := by
  rcases h.state with hs | ⟨-, -, -, hnil, -⟩
  · exact hs
  · rw [hnil] at hc
    cases hc

theorem mem_outstanding (h : Control q s) (hc : c ∈ s.connecting) : c ∈ s.outstandingConnList := by
  have := h.connecting c
  have := count_pos_iff.mpr hc
  exact count_pos_iff.mp (by omega)

theorem connected (hw : Wires k [] s) (h : Control s.commandQ s) (hc : c ∈ s.connecting) :
    Wires k [] (s.connectCallback c true) ∧ Control (s.connectCallback c true).commandQ (s.connectCallback c true) := by
  have hmem := h.mem_outstanding hc
  have hstate := h.state_of_outstanding hmem
  have hheld := hw.connected hmem
  have hconnecting : ∀ d, (s.connecting.erase c).count d ≤ (s.outstandingConnList.erase c).count d := by
    intro d
    have := h.connecting d
    rw [count_erase, count_erase]
    omega
  unfold connectCallback
  rw [if_pos hc, if_pos rfl]
  dsimp only
  split
  next he =>
    have ha := h.after he
    refine ⟨{ hheld.registerEod with }, .inl hstate, ?_, hconnecting, h.queue, h.writing, ?_, ?_⟩
    · simp [registerEod, send, h.asserts, hstate]
    · exact fun he' => Bool.noConfusion (he.symm.trans he')
    · refine fun _ => ⟨ha.registered, ha.free, ha.eofSent, ?_⟩
      have := ha.references
      simp only [registerEod, send, length_append, length_singleton]
      unfold pending at this ⊢
      dsimp only
      omega
  next he =>
    rw [Bool.not_eq_true] at he
    have hb := h.before he
    refine ⟨{ hheld.free with }, .inl hstate, ?_, hconnecting, h.queue, h.writing, ?_, ?_⟩
    · simp [h.asserts, hstate]
    · exact fun _ => { hb with }
    · exact fun he' => Bool.noConfusion (he.symm.trans he')

/-- The state of the handle does not change with a reference that is not the last. -/
theorem decrementReference_eq {handle : Nat} {eof : Bool}
    (h : eof = true → s.handleTable handle - 1 ≠ 0) : s.decrementReference handle eof =
      { s with handleTable := update s.handleTable handle (s.handleTable handle - 1) } := by
  unfold decrementReference
  dsimp only
  rw [if_neg fun hc => h hc.2 hc.1]

section Written

variable {w : Nat × Entry} (hfind : s.writing.find? (fun w => w.1 == c) = some w)
include hfind

theorem length_written : s.writing.length = (s.writing.eraseP (fun w => w.1 == c)).length + 1 := by
  obtain ⟨-, l, l', heq, herase⟩ := split_of_find? hfind
  rw [herase, heq, length_append, length_append, length_cons]
  omega

/-- The reference of a block goes with it. -/
theorem references_written (h : Control s.commandQ s)
    (hle : pending s.eofTableHandle s.commandQ s ≤ s.handleTable s.eofTableHandle) :
    update s.handleTable w.2.callbackTableHandle (s.handleTable w.2.callbackTableHandle - 1)
        s.eofTableHandle + pending s.eofTableHandle s.commandQ s =
      s.handleTable s.eofTableHandle + pending s.eofTableHandle s.commandQ
        { s with writing := s.writing.eraseP (fun w => w.1 == c) } := by
  rw [← pending_written hfind (h.writing w (mem_of_find?_eq_some hfind)).2.1] at hle ⊢
  by_cases hw : w.2.callbackTableHandle = s.eofTableHandle
  · rw [if_pos hw] at hle ⊢
    rw [hw, update_self]
    omega
  · rw [if_neg hw, update_of_ne (Ne.symm hw)]
    omega

/-- A block is written after the entry with the flag `eof` was taken, and `EOD` follows it. -/
theorem written_after (h : Control s.commandQ s) (he : s.eof = true)
    (hout : 0 ≤ s.outstandingConnections) (sent : Nat → List Item) (count : Int) {eofSent : Bool} (hsent : eofSent = true) :
    Control s.commandQ ({ s with
      writing := s.writing.eraseP (fun w => w.1 == c)
      sent := sent
      connectionCount := count
      finishing := s.finishing ++ [c]
      eofSent := eofSent }.decrementReference w.2.callbackTableHandle w.2.eof) := by
  have hmem := mem_of_find?_eq_some hfind
  have hlen := length_written hfind
  obtain ⟨-, hne, hhandle⟩ := h.writing w hmem
  have ha := h.after he
  have hrefs := ha.references
  have hpend : pending s.eofTableHandle s.commandQ
      { s with writing := s.writing.eraseP (fun w => w.1 == c) } +
        (if w.2.callbackTableHandle = s.eofTableHandle then 1 else 0) =
      pending s.eofTableHandle s.commandQ s := pending_written hfind hne
  have hstate : s.state = .connectWrite := by
    rcases h.state with hs | ⟨-, -, hnil, -, -⟩
    · exact hs
    · rw [hnil] at hmem
      cases hmem
  rw [decrementReference_eq]
  · refine ⟨.inl hstate, h.asserts, h.connecting, h.queue, fun x hx => h.writing x (eraseP_subset hx), ?_, ?_⟩
    · exact fun he' => nomatch he.symm.trans he'
    · refine fun _ => ⟨ha.registered, ha.free, ?_, ?_⟩
      · intro hns
        rw [show eofSent = false from hns] at hsent
        cases hsent
      · rw [length_append, length_singleton]
        have hwritten := references_written hfind h (by omega)
        unfold pending at hwritten hrefs ⊢
        dsimp only at hwritten ⊢
        omega
  · -- the block and the connection have a reference each
    intro heof
    rw [if_pos (hhandle heof)] at hpend
    dsimp only
    rw [hhandle heof]
    omega

theorem written_before (h : Control s.commandQ s) (he : s.eof = false) (free : List Nat) : Control s.commandQ ({ s with
      writing := s.writing.eraseP (fun w => w.1 == c)
      freeConnQ := free }.decrementReference w.2.callbackTableHandle w.2.eof) := by
  have hmem := mem_of_find?_eq_some hfind
  have hb := h.before he
  rw [decrementReference_eq fun heof => absurd ((hb.writing w hmem).symm.trans heof) (by decide)]
  refine ⟨.inl hb.state, h.asserts, h.connecting, h.queue, fun x hx => h.writing x (eraseP_subset hx), fun _ => ?_, ?_⟩
  · refine ⟨hb.state, hb.eofSent, hb.finishing, fun x hx => hb.writing x (eraseP_subset hx), hb.queue, fun hreg => ?_⟩
    have hrefs := hb.references hreg
    have hwritten := references_written hfind h (by omega)
    unfold pending at hwritten hrefs ⊢
    dsimp only at hwritten ⊢
    omega
  · exact fun he' => nomatch he.symm.trans he'

theorem written (hw : Wires k [] s) (h : Control s.commandQ s) : Wires k [] (s.writeCallback c true) ∧
      Control (s.writeCallback c true).commandQ (s.writeCallback c true) := by
  have hheld := hw.written hfind
  have hout : 0 ≤ s.outstandingConnections := by
    have := hw.outstanding
    omega
  unfold writeCallback
  rw [hfind]
  dsimp only
  by_cases he : s.eof = true
  · rw [if_pos he]
    by_cases hs : s.eofSent = true
    · rw [if_pos hs]
      exact ⟨{ hheld.registerEod with }, written_after hfind h he hout _ _ hs⟩
    · rw [if_neg hs]
      have heof := hheld.registerEof (Bool.not_eq_true _ ▸ hs)
      rw [registerEof, if_neg hs] at heof ⊢
      exact ⟨{ heof with }, written_after hfind h he hout _ _ rfl⟩
  · rw [if_neg he]
    exact ⟨{ hheld.free with }, written_before hfind h (Bool.not_eq_true _ ▸ he) _⟩

end Written

/-- `EOD` is written.  With the last reference every connection is done. -/
theorem finished (hw : Wires k [] s) (h : Control s.commandQ s) (hc : c ∈ s.finishing) :
    Wires k [] (s.eofEodCallback c true) ∧ Control (s.eofEodCallback c true).commandQ (s.eofEodCallback c true) := by
  have he : s.eof = true := by
    cases he : s.eof with
    | true => rfl
    | false =>
      rw [(h.before he).finishing] at hc
      cases hc
  have hstate : s.state = .connectWrite := by
    rcases h.state with hs | ⟨-, -, -, -, hnil⟩
    · exact hs
    · rw [hnil] at hc
      cases hc
  have ha := h.after he
  have hrefs := ha.references
  have hout := hw.outstanding
  have hlen := length_erase_of_mem hc
  have hpos := length_pos_of_mem hc
  unfold eofEodCallback
  rw [if_pos hc, if_pos rfl]
  dsimp only
  rw [if_neg (by omega)]
  refine ⟨{ hw with }, ?_, h.asserts, h.connecting, h.queue, h.writing, ?_, fun _ => ⟨ha.registered,
    ha.free, ha.eofSent, ?_⟩⟩
  · unfold decrementReference
    dsimp only
    by_cases hlast : s.handleTable s.eofTableHandle - 1 = 0
    · refine .inr ⟨if_pos ⟨hlast, rfl⟩, he, ?_, ?_, ?_⟩
      · exact length_eq_zero_iff.mp (by omega)
      · exact length_eq_zero_iff.mp (by omega)
      · exact length_eq_zero_iff.mp (by omega)
    · refine .inl ?_
      rw [if_neg fun hc => hlast hc.1]
      exact hstate
  · exact fun he' => nomatch he.symm.trans he'
  · simp only [decrementReference, update_self]
    unfold pending at hrefs ⊢
    dsimp only
    omega

end Control

end Gct.Eb
