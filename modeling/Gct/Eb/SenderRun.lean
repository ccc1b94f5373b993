/-
# Extended block mode: runs of the sender

Every step keeps the invariant of the sender, so it holds in every run from the start of a transfer
(`Inv.step`, `Setup.inv_connectWrite`).
-/
import Gct.Eb.Control

namespace Gct.Eb

open Channels List Sender Setup Function

/-! ## 1. Writes -/

namespace Sender

variable {s s' : Sender} {buffer : List UInt8} {offset : Int} {eof : Bool} {handle : Nat}

/-- The entry of a piece. -/
def pieceEntry (eof : Bool) (handle : Nat) (piece : List UInt8 × Int) : Entry :=
  ⟨piece.1, piece.2, eof, handle⟩

/-- The pieces of a write are in the queue, with a reference each. -/
def withPieces (s : Sender) (eof : Bool) (handle : Nat) (pieces : List (List UInt8 × Int)) : Sender :=
  { s with
    commandQ := s.commandQ ++ pieces.map (pieceEntry eof handle)
    handleTable := update s.handleTable handle (s.handleTable handle + pieces.length) }

theorem writeStripe_eq (hs : s.eofRegistered = false) {piece : List UInt8 × Int} (hne : piece.1 ≠ []) :
    s.writeStripe eof handle piece = .ok (s.withPieces eof handle [piece]) := by
  unfold writeStripe
  rw [if_neg (by simp [hs]), if_neg (by simp [hne])]
  rfl

theorem layout_eq : ∀ {pieces : List (List UInt8 × Int)} {s : Sender}, s.eofRegistered = false →
    (∀ piece ∈ pieces, piece.1 ≠ []) → layout eof handle pieces s = s.withPieces eof handle pieces
  | [], s, _, _ => by simp [layout, withPieces]
  | piece :: pieces, s, hs, hne => by
    rw [layout, writeStripe_eq hs (hne piece mem_cons_self)]
    dsimp only
    rw [layout_eq (s := s.withPieces eof handle [piece]) hs fun p hp => hne p (mem_cons_of_mem _ hp)]
    simp only [withPieces, map_cons, map_nil, append_assoc, singleton_append,
      length_cons, length_nil, update_self, update_idem]
    congr 2
    omega

theorem registerPieces_ok (hs : s.eofRegistered = false) (h : s.registerPieces buffer offset eof handle = .ok s') :
    ∃ pieces : List (List UInt8 × Int), (∀ piece ∈ pieces, piece.1 ≠ []) ∧ s' = s.withPieces eof handle pieces := by
  unfold registerPieces at h
  split at h
  · cases h
    exact ⟨[], by simp, by simp [withPieces]⟩
  next hlen =>
    split at h
    next l hl =>
      cases h
      exact ⟨_, fun p hp => l.pieces_ne hp, layout_eq hs fun p hp => l.pieces_ne hp⟩
    · have hne : buffer ≠ [] := fun hb => hlen (by rw [hb]; rfl)
      rw [writeStripe_eq hs hne] at h
      cases h
      exact ⟨[(buffer, offset)], by simpa using hne, rfl⟩

/-- A write that is accepted: its pieces are in the queue, and if it is the last one, the flag `eof` is
there and there is one reference more. -/
theorem ebWrite_ok (h : s.ebWrite buffer offset eof = .ok s') : s.eofRegistered = false ∧
    ∃ pieces : List (List UInt8 × Int), (∀ piece ∈ pieces, piece.1 ≠ []) ∧
      s' = (if eof then (s.createDataInfo.withPieces eof s.nextHandle pieces).finishQueue s.nextHandle
        else s.createDataInfo.withPieces eof s.nextHandle pieces).releaseDataInfo s.nextHandle := by
  unfold ebWrite at h
  split at h
  · cases h
  next hs =>
    rw [Bool.not_eq_true] at hs
    split at h
    · cases h
    · dsimp only at h
      cases hp : s.createDataInfo.registerPieces buffer offset eof s.nextHandle with
      | error e =>
        rw [hp] at h
        cases h
      | ok s₁ =>
        obtain ⟨pieces, hne, rfl⟩ := registerPieces_ok (s := s.createDataInfo) hs hp
        rw [hp] at h
        cases h
        exact ⟨hs, pieces, hne, rfl⟩

/-- The entries that the last write adds to the queue: its pieces, or one that is empty. -/
def lastEntries (s : Sender) (pieces : List (List UInt8 × Int)) : List Entry :=
  let entries := pieces.map (pieceEntry true s.nextHandle)
  if (s.commandQ ++ entries).getLast?.any (·.eof) then entries
  else entries ++ [⟨[], 0, true, s.nextHandle⟩]

theorem commandQ_finishQueue (s : Sender) (pieces : List (List UInt8 × Int)) :
    ((s.createDataInfo.withPieces true s.nextHandle pieces).finishQueue s.nextHandle).commandQ =
      s.commandQ ++ s.lastEntries pieces := by
  unfold finishQueue lastEntries withPieces createDataInfo
  dsimp only
  split
  · rfl
  · exact append_assoc _ _ _

theorem mem_lastEntries {pieces : List (List UInt8 × Int)} {e : Entry}
    (he : e ∈ s.lastEntries pieces) : e.eof = true ∧ e.callbackTableHandle = s.nextHandle := by
  have hpiece : ∀ e ∈ pieces.map (pieceEntry true s.nextHandle), e.eof = true ∧ e.callbackTableHandle = s.nextHandle := by
    intro e he
    obtain ⟨p, -, rfl⟩ := mem_map.mp he
    exact ⟨rfl, rfl⟩
  unfold lastEntries at he
  dsimp only at he
  split at he
  · exact hpiece e he
  · rcases mem_append.mp he with he | he
    · exact hpiece e he
    · rw [mem_singleton.mp he]
      exact ⟨rfl, rfl⟩

theorem lastEntries_ne_nil (hq : ∀ e ∈ s.commandQ, e.eof = false) (pieces : List (List UInt8 × Int)) :
    s.lastEntries pieces ≠ [] := by
  unfold lastEntries
  dsimp only
  split
  · -- the last entry has the flag, so it is one of the pieces
    rename_i hlast
    intro hnil
    rw [hnil, append_nil, Option.any_eq_true] at hlast
    obtain ⟨e, he, heof⟩ := hlast
    rw [hq e (mem_of_getLast? he)] at heof
    cases heof
  · exact append_ne_nil_of_right_ne_nil _ (cons_ne_nil _ _)

theorem countP_lastEntries {pieces : List (List UInt8 × Int)} (hne : ∀ piece ∈ pieces, piece.1 ≠ []) :
    (s.lastEntries pieces).countP (fun e => !e.buffer.isEmpty) = pieces.length := by
  have hpieces : (pieces.map (pieceEntry true s.nextHandle)).countP (fun e => !e.buffer.isEmpty) = pieces.length := by
    rw [countP_map, countP_eq_length]
    intro p hp
    simpa [pieceEntry] using hne p hp
  unfold lastEntries
  dsimp only
  split
  · exact hpieces
  · rw [countP_append, hpieces]
    rfl

end Sender

namespace Control

variable {k : Nat} {s s' : Sender} {pieces : List (List UInt8 × Int)}

theorem not_eof_of_not_registered {q : List Entry} (h : Control q s) (hs : s.eofRegistered = false) : s.eof = false := by
  cases he : s.eof with
  | false => rfl
  | true =>
    have := (h.after he).registered
    rw [hs] at this
    cases this

section

variable (h : Control s.commandQ s) (hs : s.eofRegistered = false)
  (hne : ∀ piece ∈ pieces, piece.1 ≠ [])

include h hs hne

/-- A write that is not the last. -/
theorem write : Control (s.commandQ ++ pieces.map (pieceEntry false s.nextHandle))
      ((s.createDataInfo.withPieces false s.nextHandle pieces).releaseDataInfo s.nextHandle) := by
  have he := h.not_eof_of_not_registered hs
  have hb := h.before he
  refine { h with queue := ?_, writing := ?_, before := ?_, after := ?_ }
  · intro e hmem
    rcases mem_append.mp hmem with hmem | hmem
    · obtain ⟨hlt, hrest⟩ := h.queue e hmem
      exact ⟨Nat.lt_succ_of_lt hlt, hrest⟩
    · obtain ⟨p, hp, rfl⟩ := mem_map.mp hmem
      exact ⟨Nat.lt_succ_self _, fun hnil => absurd hnil (hne p hp), nofun⟩
  · intro w hw
    obtain ⟨hlt, hrest⟩ := h.writing w hw
    exact ⟨Nat.lt_succ_of_lt hlt, hrest⟩
  · exact fun _ => { hb with
      queue := fun hreg => nomatch hs.symm.trans hreg
      references := fun hreg => nomatch hs.symm.trans hreg }
  · exact fun he' => nomatch he.symm.trans he'

/-- The last write. -/
theorem writeLast : Control (s.commandQ ++ s.lastEntries pieces)
      (((s.createDataInfo.withPieces true s.nextHandle pieces).finishQueue s.nextHandle).releaseDataInfo
        s.nextHandle) := by
  have he := h.not_eof_of_not_registered hs
  have hb := h.before he
  have hold : ∀ e ∈ s.commandQ, e.eof = false := by
    intro e hmem
    cases hee : e.eof with
    | false => rfl
    | true => exact absurd (hs.symm.trans ((h.queue e hmem).2.2 hee).1) (by decide)
  refine { h with queue := ?_, writing := ?_, before := ?_, after := ?_ }
  · intro e hmem
    rcases mem_append.mp hmem with hmem | hmem
    · obtain ⟨hlt, hbuf, -⟩ := h.queue e hmem
      exact ⟨Nat.lt_succ_of_lt hlt, hbuf, fun hee => absurd ((hold e hmem).symm.trans hee) (by decide)⟩
    · obtain ⟨hee, hhandle⟩ := mem_lastEntries hmem
      refine ⟨?_, fun _ => hee, fun _ => ⟨rfl, hhandle⟩⟩
      rw [hhandle]
      exact Nat.lt_succ_self _
  · intro w hw
    obtain ⟨hlt, hbuf, -⟩ := h.writing w hw
    exact ⟨Nat.lt_succ_of_lt hlt, hbuf, fun hee => absurd ((hb.writing w hw).symm.trans hee) (by decide)⟩
  · refine fun _ => { hb with queue := fun _ => ?_, references := fun _ => ?_ }
    · obtain ⟨e, l, hl⟩ := exists_cons_of_ne_nil (lastEntries_ne_nil hold pieces)
      have hmem : e ∈ s.lastEntries pieces := by
        rw [hl]
        exact mem_cons_self
      exact ⟨e, mem_append_right _ hmem, (mem_lastEntries hmem).1⟩
    · have hpend : pending s.nextHandle (s.commandQ ++ s.lastEntries pieces) s = pieces.length := by
        rw [pending_append (fun e hmem => (h.queue e hmem).1) (fun w hw => (h.writing w hw).1)
          (fun e hmem => (mem_lastEntries hmem).2), countP_lastEntries hne]
      simp only [releaseDataInfo, finishQueue, withPieces, createDataInfo, update_self]
      unfold pending at hpend ⊢
      dsimp only
      omega
  · exact fun he' => nomatch he.symm.trans he'

end

end Control

/-! ## 2. A step -/

namespace Inv

variable {k : Nat} {s : Sender}

/-- What a step keeps while the transfer is not torn down. -/
theorem of_control (h : Wires k [] s ∧ Control s.commandQ s) : Inv k s :=
  ⟨h.1.shape, fun _ => h.1, fun _ => h.2⟩

/-- Tearing down leaves what is on the connections as it is. -/
theorem destroy {s' : Sender} (h : Shape k s') : Inv k s'.stripesDestroy :=
  ⟨{ h with }, fun hs => absurd rfl hs, fun hs => absurd rfl hs⟩

variable (h : Inv k s)

include h

section

variable (hs : s.state ≠ .closing) (c : Nat) (ok : Bool)

include hs

theorem write (buffer : List UInt8) (offset : Int) (eof : Bool) : Inv k (s.orElse (s.dataWrite buffer offset eof)) := by
  cases hr : s.dataWrite buffer offset eof with
  | error e => exact h
  | ok s' =>
    have hok : s.ebWrite buffer offset eof = .ok s' := by
      unfold dataWrite at hr
      split at hr <;> first | exact hr | cases hr
    obtain ⟨hreg, pieces, hne, rfl⟩ := ebWrite_ok hok
    have hc := h.control hs
    cases eof with
    | false => exact of_control ⟨{ h.wires hs with }, hc.write hreg hne⟩
    | true =>
      refine of_control ⟨{ h.wires hs with }, ?_⟩
      have := hc.writeLast hreg hne
      rwa [← commandQ_finishQueue] at this

omit hs in
theorem removeChannels : Inv k (s.orElse s.removeChannels) := by
  unfold Sender.removeChannels
  split
  · exact h
  · exact ⟨{ h.shape with }, fun hs => { h.wires hs with }, fun hs => { h.control hs with
      before := fun he => { (h.control hs).before he with }
      after := fun he => { (h.control hs).after he with } }⟩

theorem connected : Inv k (s.connectCallback c ok) := by
  by_cases hc : c ∈ s.connecting
  · cases ok with
    | true => exact of_control ((h.control hs).connected (h.wires hs) hc)
    | false =>
      unfold connectCallback
      rw [if_pos hc, if_neg (by decide)]
      exact destroy { h.shape with }
  · unfold connectCallback
    rw [if_neg hc]
    exact h

theorem written : Inv k (s.writeCallback c ok) := by
  cases hw : s.writing.find? (fun w => w.1 == c) with
  | none =>
    unfold writeCallback
    rw [hw]
    exact h
  | some w =>
    cases ok with
    | true => exact of_control (Control.written hw (h.wires hs) (h.control hs))
    | false =>
      unfold writeCallback
      rw [hw]
      exact destroy { h.shape with }

theorem finished : Inv k (s.eofEodCallback c ok) := by
  by_cases hc : c ∈ s.finishing
  · cases ok with
    | true => exact of_control ((h.control hs).finished (h.wires hs) hc)
    | false =>
      unfold eofEodCallback
      rw [if_pos hc, if_neg (by decide)]
      exact destroy { h.shape with }
  · unfold eofEodCallback
    rw [if_neg hc]
    exact h

end

theorem closed (c : Nat) : Inv k (s.closeMsgCallback c) :=
  ⟨{ h.shape with }, fun hs => { h.wires hs with }, fun hs => { h.control hs with
    before := fun he => { (h.control hs).before he with }
    after := fun he => { (h.control hs).after he with } }⟩

/-- **Every step of the sender keeps the invariant.** -/
theorem step (e : SenderEvent) : Inv k (s.step e) := by
  unfold Sender.step
  split
  · exact h
  next hs =>
    cases e with
    | write buffer offset eof => exact h.write hs buffer offset eof
    | removeChannels => exact h.removeChannels
    | poll refused => exact of_control ((h.control hs).poll (h.wires hs) refused)
    | connected c ok => exact h.connected hs c ok
    | written c ok => exact h.written hs c ok
    | finished c ok => exact h.finished hs c ok
    | closed c => exact h.closed c

end Inv

/-! ## 3. The start -/

/-- While connections from the cache are taken: those that are left are not used yet. -/
structure Starting (k : Nat) (cache : List Nat) (s : Sender) : Prop where
  wires : Wires k [] s
  control : Control s.commandQ s
  not_eof : s.eof = false
  unused : ∀ c ∈ cache, c < k ∧ c ∉ s.registered ∧ s.sent c = []
  nodup : cache.Nodup

namespace Starting

variable {k c : Nat} {cache : List Nat} {s : Sender}

theorem take (h : Starting k (c :: cache) s) : Starting k cache { s with
      freeConnQ := s.freeConnQ ++ [c]
      connectionCount := s.connectionCount + 1
      totalConnectionCount := s.totalConnectionCount + 1
      registered := s.registered ++ [c] } := by
  obtain ⟨hk, hreg, hsent⟩ := h.unused c mem_cons_self
  obtain ⟨hnew, hnodup⟩ := nodup_cons.mp h.nodup
  have hw := h.wires
  refine ⟨?_, ?_, h.not_eof, ?_, hnodup⟩
  · have hcarried := hw.register (h.control.eofSent_of_not_eof h.not_eof) (Nat.lt_of_lt_of_le hk hw.cached_le) hreg hsent
    refine { hcarried with
      place := ?_, cached_le := hw.cached_le, connections := ?_, outstanding := hw.outstanding }
    · intro d
      have := hw.place d
      dsimp only
      rw [ite_mem_concat hreg, count_append]
      omega
    · have := hw.connections
      simp only [length_append, length_singleton]
      omega
  · exact { h.control with
      before := fun he => { h.control.before he with }
      after := fun he => nomatch h.not_eof.symm.trans he }
  · intro d hd
    obtain ⟨hdk, hdreg, hdsent⟩ := h.unused d (mem_cons_of_mem _ hd)
    refine ⟨hdk, fun hmem => ?_, hdsent⟩
    rcases mem_append.mp hmem with hmem | hmem
    · exact hdreg hmem
    · rw [mem_singleton.mp hmem] at hd
      exact hnew hd

theorem close (h : Starting k (c :: cache) s) : Starting k cache (s.registerCloseMsg c false) := by
  obtain ⟨hk, hreg, hsent⟩ := h.unused c mem_cons_self
  obtain ⟨hnew, hnodup⟩ := nodup_cons.mp h.nodup
  have hw := h.wires
  have hother : ∀ d, d ≠ c → (s.registerCloseMsg c false).sent d = s.sent d := fun d hd =>
    update_of_ne hd _ _
  have hwire : Wire k s.registered s.totalConnectionCount c (s.sent c ++ [.header (closeHeader false)]) := by
    rw [hsent, nil_append]
    constructor
    case framed => rw [due_header (n := 0) (by simp), due_nil]
    case sealed => exact sealed_concat (l := []) (by simp) _
    case closeOnly =>
      intro g hg _ _
      rw [mem_singleton.mp hg]
      exact ⟨rfl, hk, hreg⟩
    case unused => exact fun _ => .inr rfl
    case eofOffset =>
      intro g hg heof
      obtain rfl : g = closeHeader false := by simpa using hg
      simp at heof
  refine ⟨?_, ?_, h.not_eof, ?_, hnodup⟩
  · have hcarried : Carried k (s.registerCloseMsg c false) :=
      hw.send (Nat.lt_of_lt_of_le hk hw.cached_le) ⟨rfl, rfl, rfl, rfl, rfl, rfl, rfl⟩ hwire rfl
    refine { hcarried with
      place := ?_, cached_le := hw.cached_le, connections := hw.connections, outstanding := hw.outstanding }
    intro d
    have := hw.place d
    by_cases hd : d = c
    · have hself : (s.registerCloseMsg c false).sent c = [.header (closeHeader false)] := by
        simp [registerCloseMsg, send, hsent]
      have heod : [Item.header (closeHeader false)].countP Item.isEod = 0 := by simp
      rw [hd, hsent] at this
      rw [hd, hself, heod]
      exact this
    · rw [hother d hd]
      exact this
  · exact { h.control with
      before := fun he => { h.control.before he with }
      after := fun he => Bool.noConfusion (h.not_eof.symm.trans he) }
  · intro d hd
    obtain ⟨hdk, hdreg, hdsent⟩ := h.unused d (mem_cons_of_mem _ hd)
    have hdc : d ≠ c := fun he => hnew (he ▸ hd)
    exact ⟨hdk, hdreg, (hother d hdc).trans hdsent⟩

theorem reuse : ∀ {cache : List Nat} {s : Sender}, Starting k cache s → Starting k [] (Sender.reuse cache s)
  | [], _, h => h
  | c :: cache, s, h => by
    rw [Sender.reuse]
    split
    · exact reuse h.take
    · exact reuse h.close

end Starting

theorem Setup.starting (setup : Setup) : Starting setup.cached (range setup.cached) setup.sender := by
  refine ⟨?_, ?_, rfl, ?_, nodup_range⟩
  · constructor
    case toCarried =>
      refine ⟨fun c => ⟨due_nil 0, sealed_nil, nofun, fun _ => .inl rfl, nofun⟩, ?_, nodup_nil, rfl, nofun,
        fun c _ => rfl⟩
      simp [sender, tally]
    case place => intro c; simp [sender]
    case cached_le => exact le_rfl
    case connections => rfl
    case outstanding => rfl
  · refine ⟨.inl rfl, rfl, fun c => le_rfl, ?_, ?_, ?_, nofun⟩
    · intro e he; simp [sender] at he
    · intro w hw; simp [sender] at hw
    · exact fun _ => ⟨rfl, rfl, rfl, by simp [sender], nofun, nofun⟩
  · intro c hc
    exact ⟨mem_range.mp hc, by simp [sender], rfl⟩

/-- **A transfer starts with the invariant.** -/
theorem Setup.inv_connectWrite (setup : Setup) : Inv setup.cached setup.connectWrite := by
  have h := setup.starting.reuse
  unfold connectWrite
  dsimp only
  split
  · exact .of_control ⟨h.wires.registerConnect (h.control.eofSent_of_not_eof h.not_eof) true,
      h.control.registerConnect h.not_eof true⟩
  · exact .of_control ⟨h.wires, h.control⟩

end Gct.Eb
