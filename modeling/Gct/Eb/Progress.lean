/-
# Extended block mode: the sender gets to the end

`Later` says what every step of the sender leaves as it is: what is written stays written, and a
connection that is counted stays counted.  `Live` says that the I/O library has all the connections that
the sender waits for; it is lost only if the library does not accept the operation.

When the last write is registered, the sender gets to the end by itself.  Every callback and every poll
that changes something takes from a finite amount of work (`Sender.work_step`), and when nothing changes any
more, each connection has said `EOD` (`Sender.AtRest.eods`).
-/
import Gct.Eb.SenderRun

namespace Gct.Eb

open Channels List Sender

/-! ## 1. What every step leaves as it is -/

/-- The connections the sender waits for are being connected, and it may open some. -/
structure Live (s : Sender) : Prop where
  parallel : 0 < s.parallel
  connecting : ∀ c, s.outstandingConnList.count c ≤ s.connecting.count c

/-- `refused` is true if the I/O library did not accept an operation on the way, `failed` if an operation
has failed. -/
structure Later (refused failed : Bool) (s s' : Sender) : Prop where
  sent : ∀ c, s.sent c <+: s'.sent c
  registered : s.registered <+: s'.registered
  nextConn : s.nextConn ≤ s'.nextConn
  eofRegistered : s.eofRegistered = true → s'.eofRegistered = true
  state : failed = false → s'.state = .closing → s.state = .closing
  live : refused = false → Live s → Live s'

namespace Later

variable {b f ok : Bool} {s s' s'' : Sender} {c : Nat} {entry : Entry} {refused : Option Nat}

theorem refl : Later b f s s :=
  ⟨fun _ => prefix_rfl, prefix_rfl, le_rfl, fun h => h, fun _ h => h, fun _ h => h⟩

/-- The fields that count. -/
theorem of_eq (h : (s'.sent, s'.registered, s'.nextConn, s'.eofRegistered, s'.state, s'.parallel,
    s'.outstandingConnList, s'.connecting) = (s.sent, s.registered, s.nextConn, s.eofRegistered,
    s.state, s.parallel, s.outstandingConnList, s.connecting)) : Later b f s s' := by
  simp only [Prod.mk.injEq] at h
  obtain ⟨hsent, hregistered, hnextConn, heof, hstate, hparallel, houtstanding, hconnecting⟩ := h
  refine ⟨fun c => by rw [hsent], by rw [hregistered], by rw [hnextConn], fun he => heof.trans he,
    fun _ hs => hstate.symm.trans hs, fun _ hl => ⟨?_, ?_⟩⟩
  · rw [hparallel]
    exact hl.parallel
  · rw [houtstanding, hconnecting]
    exact hl.connecting

theorem trans (h : Later b f s s') (h' : Later b f s' s'') : Later b f s s'' :=
  ⟨fun c => (h.sent c).trans (h'.sent c), h.registered.trans h'.registered,
    h.nextConn.trans h'.nextConn, fun he => h'.eofRegistered (h.eofRegistered he),
    fun hf hs => h.state hf (h'.state hf hs), fun hb hl => h'.live hb (h.live hb hl)⟩

theorem mono {b' f' : Bool} (h : Later b f s s') (hb : b' = false → b = false)
    (hf : f' = false → f = false) : Later b' f' s s' :=
  { h with state := fun h' => h.state (hf h'), live := fun h' => h.live (hb h') }

theorem send (c : Nat) (l : List Item) : Later b f s (s.send c l) := by
  refine ⟨fun d => ?_, prefix_rfl, le_rfl, fun h => h, fun _ h => h, fun _ h => { h with }⟩
  by_cases hd : d = c
  · rw [hd, Sender.send]
    dsimp only
    rw [Function.update_self]
    exact prefix_append _ _
  · rw [Sender.send]
    dsimp only
    rw [Function.update_of_ne hd]

theorem registerConnect (accepted : Bool) : Later (!accepted) f s (s.registerConnect accepted) := by
  refine ⟨fun _ => prefix_rfl, prefix_append _ _, Nat.le_succ _, fun h => h, fun _ h => h, fun hb h => ?_⟩
  obtain rfl : accepted = true := by simpa using hb
  refine ⟨h.parallel, fun c => ?_⟩
  have := h.connecting c
  simp only [Sender.registerConnect, if_true, count_cons, count_append, count_nil]
  omega

theorem registerWritev : Later b f s (s.registerWritev c entry) :=
  (send c _).trans (of_eq rfl)

theorem registerEod : Later b f s (s.registerEod c) :=
  (send c _).trans (of_eq rfl)

theorem registerEof : Later b f s (s.registerEof c) := by
  unfold Sender.registerEof
  split
  · exact of_eq rfl
  · exact (send c _).trans (of_eq rfl)

theorem openConnections : ∀ (n : Nat) (refused : Option Nat) (s : Sender),
    Later refused.isSome f s (openConnections n refused s)
  | 0, _, _ => refl
  | _ + 1, some 0, _ => registerConnect false
  | n + 1, some (k + 1), s =>
    ((registerConnect true).mono (fun _ => rfl) id).trans (openConnections n (some k) (s.registerConnect true))
  | n + 1, none, s => (registerConnect true).trans (openConnections n none (s.registerConnect true))

theorem adjustConnection : Later refused.isSome f s (s.adjustConnection refused) := by
  unfold Sender.adjustConnection
  dsimp only
  split
  · exact refl
  · split
    · exact openConnections _ _ s
    · split
      · split
        · exact refl
        next c q _ =>
          exact (send c _).trans (of_eq rfl)
      · exact refl

theorem registerEods : ∀ (q : List Nat) (s : Sender), Later b f s (registerEods q s)
  | [], _ => of_eq rfl
  | c :: q, s => registerEod.trans (registerEods q (s.registerEod c))

theorem retire : Later b f s s.retire :=
  trans (of_eq rfl : Later b f s { s with eof := true }) (registerEods _ _)

theorem pollEof : Later b f s (s.pollEof entry c) := by
  unfold Sender.pollEof
  have href : ∀ n, Later b f s (s.addReferences n) := fun n => of_eq rfl
  split
  · exact ((href _).trans registerEof).trans retire
  · exact ((href _).trans registerWritev).trans retire

theorem pollLoop : ∀ (q : List Entry) (s : Sender), Later b f s (Sender.pollLoop q s)
  | [], _ => of_eq rfl
  | entry :: q, s => by
    rw [Sender.pollLoop]
    split
    · exact of_eq rfl
    next c free _ =>
      have htake : Later b f s { s with freeConnQ := free } := of_eq rfl
      split
      · exact (htake.trans pollEof).trans (pollLoop q _)
      · exact (htake.trans registerWritev).trans (pollLoop q _)

theorem poll : Later refused.isSome f s (s.poll refused) := by
  unfold Sender.poll
  split
  · split
    · exact pollLoop _ s
    · exact adjustConnection.trans (pollLoop _ _)
  · exact refl

theorem ebWrite {buffer : List UInt8} {offset : Int} {eof : Bool}
    (h : s.ebWrite buffer offset eof = .ok s') : Later b f s s' := by
  obtain ⟨-, pieces, -, rfl⟩ := ebWrite_ok h
  cases eof with
  | false => exact of_eq rfl
  | true => exact ⟨fun _ => prefix_rfl, prefix_rfl, le_rfl, fun _ => rfl, fun _ h => h,
      fun _ h => { h with }⟩

theorem removeChannels (h : s.removeChannels = .ok s') : Later b f s s' := by
  unfold Sender.removeChannels at h
  split at h
  · cases h
  · cases h
    exact { (refl : Later b f s s) with live := fun _ hl => { hl with parallel := by dsimp only; omega } }

theorem stripesDestroy : Later b true s s.stripesDestroy :=
  ⟨fun _ => prefix_rfl, prefix_rfl, le_rfl, fun h => h, nofun, fun _ h => { h with }⟩

theorem decrementReference {handle : Nat} {eof : Bool} : Later b f s (s.decrementReference handle eof) := by
  refine ⟨fun _ => prefix_rfl, prefix_rfl, le_rfl, fun h => h, fun _ h => ?_, fun _ h => { h with }⟩
  rw [Sender.decrementReference] at h
  split at h
  · cases h
  · exact h

theorem connected : Later b (!ok) s (s.connectCallback c ok) := by
  unfold connectCallback
  split
  · have herase : ∀ {f}, Later b f s { s with
        connecting := s.connecting.erase c
        outstandingConnections := s.outstandingConnections - 1
        outstandingConnList := s.outstandingConnList.erase c } := by
      intro f
      refine { (refl : Later b f s s) with live := fun _ h => ⟨h.parallel, fun d => ?_⟩ }
      have := h.connecting d
      rw [count_erase, count_erase]
      omega
    cases ok with
    | true =>
      have hconnected : Later b false s { s with
          connecting := s.connecting.erase c
          outstandingConnections := s.outstandingConnections - 1
          outstandingConnList := s.outstandingConnList.erase c
          assertsHeld := s.assertsHeld && decide (s.state = .connectWrite)
          connectionCount := s.connectionCount + 1 } := herase.trans (of_eq rfl)
      dsimp only
      rw [if_pos rfl]
      split
      · exact hconnected.trans registerEod
      · exact hconnected.trans (of_eq rfl)
    | false => exact herase.trans stripesDestroy
  · exact refl

theorem written : Later b (!ok) s (s.writeCallback c ok) := by
  unfold writeCallback
  split
  · exact refl
  · have herase : ∀ {f}, Later b f s { s with writing := s.writing.eraseP (fun w => w.1 == c) } :=
      of_eq rfl
    cases ok with
    | true =>
      rw [if_pos rfl]
      split
      · split
        · exact (herase.trans registerEod).trans decrementReference
        · exact (herase.trans registerEof).trans decrementReference
      · refine trans ?_ decrementReference
        exact of_eq rfl
    | false => exact herase.trans stripesDestroy

theorem finished : Later b (!ok) s (s.eofEodCallback c ok) := by
  unfold eofEodCallback
  dsimp only
  split
  · cases ok with
    | true =>
      rw [if_pos rfl]
      split
      · exact of_eq rfl
      · refine trans ?_ decrementReference
        exact of_eq rfl
    | false =>
      rw [if_neg Bool.false_ne_true]
      refine trans ?_ stripesDestroy
      exact of_eq rfl
  · exact refl

end Later

/-- Whether the I/O library does not accept an operation in this step. -/
def SenderEvent.refused : SenderEvent → Bool
  | .poll refused => refused.isSome
  | _ => false

/-- Whether an operation fails in this step. -/
def SenderEvent.failed : SenderEvent → Bool
  | .connected _ ok => !ok
  | .written _ ok => !ok
  | .finished _ ok => !ok
  | _ => false

/-- **What every step leaves as it is.** -/
theorem Later.step (s : Sender) (e : SenderEvent) : Later e.refused e.failed s (s.step e) := by
  unfold Sender.step
  split
  · exact refl
  · cases e with
    | write buffer offset eof =>
      dsimp only
      unfold dataWrite
      split
      · cases hw : s.ebWrite buffer offset eof with
        | error e => exact refl
        | ok s' => exact ebWrite hw
      all_goals exact refl
    | removeChannels =>
      cases hr : s.removeChannels with
      | error e => exact refl
      | ok s' => exact removeChannels hr
    | poll refused => exact poll
    | connected c ok => exact connected
    | written c ok => exact written
    | finished c ok => exact finished
    | closed c => exact of_eq rfl

/-! ## 2. Work -/

namespace Sender

variable {s : Sender} {c : Nat} {q : List Entry} {entry : Entry}

/-- The connections that the poll would open. -/
def toOpen (s : Sender) : Nat :=
  if s.eof then 0 else (s.parallel - (s.connectionCount + s.outstandingConnections)).toNat

/-- The work that is left when `q` is the queue.  What becomes of a connection or a block weighs less than
what it was. -/
def workOf (q : List Entry) (s : Sender) : Nat :=
  2 * q.length + 4 * s.toOpen + 3 * s.connecting.length + 3 * s.writing.length +
    2 * s.freeConnQ.length + s.finishing.length + s.closeMsgs.length

def work (s : Sender) : Nat := workOf s.commandQ s

theorem work_openConnections : ∀ {n : Nat} {s : Sender}, s.eof = false → n ≤ s.toOpen →
    (openConnections n none s).work + n ≤ s.work
  | 0, _, _, _ => le_rfl
  | n + 1, s, he, hn => by
    have hopen : (s.registerConnect true).toOpen + 1 = s.toOpen := by
      simp only [toOpen, registerConnect, he] at hn ⊢
      simp at hn ⊢
      omega
    have hone : (s.registerConnect true).work + 1 = s.work := by
      simp only [work, workOf]
      rw [← hopen]
      simp only [registerConnect, if_true, length_append, length_singleton]
      omega
    have := work_openConnections (n := n) (s := s.registerConnect true) he (by omega)
    rw [openConnections]
    omega

/-- Connections are opened. -/
theorem work_adjustConnection_lt (hstate : s.state = .connectWrite) (he : s.eof = false)
    (hlt : s.connectionCount + s.outstandingConnections < s.parallel) : (s.adjustConnection none).work < s.work := by
  unfold adjustConnection
  rw [if_neg (by simp [hstate, he]), if_pos hlt]
  have := work_openConnections (n := (s.parallel - (s.connectionCount + s.outstandingConnections)).toNat) he
    (by rw [toOpen, he]; exact le_rfl)
  omega

theorem work_adjustConnection (s : Sender) : s.adjustConnection none = s ∨ (s.adjustConnection none).work < s.work := by
  by_cases hstate : s.state ≠ .connectWrite ∨ s.eof = true
  · exact .inl (if_pos hstate)
  · obtain ⟨hwrite, he⟩ := not_or.mp hstate
    rw [not_not] at hwrite
    rw [Bool.not_eq_true] at he
    rcases lt_trichotomy (s.connectionCount + s.outstandingConnections) s.parallel with hlt | heq | hgt
    · exact .inr (work_adjustConnection_lt hwrite he hlt)
    · refine .inl ?_
      unfold adjustConnection
      rw [if_neg hstate, if_neg (by omega), if_neg (by omega)]
    · unfold adjustConnection
      rw [if_neg hstate, if_neg (by omega), if_pos hgt]
      split
      · exact .inl rfl
      next c free hfree =>
        refine .inr ?_
        have hopen : s.toOpen = 0 := by
          simp only [toOpen, he]
          simp
          omega
        simp only [work, workOf, hopen]
        simp only [toOpen, registerCloseMsg, send, he, hfree, length_append, length_cons, length_nil]
        simp
        omega

theorem workOf_registerEods : ∀ (free : List Nat) (s : Sender), s.eof = true →
    workOf q (registerEods free s) + 2 * s.freeConnQ.length = workOf q s + free.length
  | [], s, he => by
    simp only [registerEods, workOf, toOpen, he, if_true, length_nil]
    omega
  | c :: free, s, he => by
    have := workOf_registerEods free (s.registerEod c) he
    have hone : workOf q (s.registerEod c) = workOf q s + 1 := by
      simp only [workOf, toOpen, registerEod, send, he, if_true, length_append, length_singleton]
      omega
    have hfree : (s.registerEod c).freeConnQ = s.freeConnQ := rfl
    rw [hfree] at this
    rw [registerEods, length_cons]
    omega

/-- No connection is opened after it. -/
theorem workOf_retire : workOf q s.retire + 4 * s.toOpen ≤ workOf q s := by
  have h := workOf_registerEods (q := q) s.freeConnQ { s with eof := true } rfl
  have hle : workOf q { s with eof := true } + 4 * s.toOpen = workOf q s := by
    simp only [workOf, toOpen, if_true]
    omega
  unfold retire
  dsimp only at h
  omega

theorem workOf_registerEof :
    workOf q (s.registerEof c) + 4 * s.toOpen ≤ workOf q s + 4 * (s.registerEof c).toOpen + 1 := by
  unfold registerEof
  split
  · exact Nat.le_of_lt (Nat.lt_succ_self _)
  · simp only [workOf, send, length_append, length_singleton]
    omega

theorem workOf_registerWritev : workOf q (s.registerWritev c entry) = workOf q s + 3 := by
  have hopen : (s.registerWritev c entry).toOpen = s.toOpen := rfl
  rw [workOf, hopen, workOf]
  simp only [registerWritev, send, length_append, length_singleton]
  omega

theorem workOf_pollEof : workOf q (s.pollEof entry c) ≤ workOf q s + 3 := by
  unfold pollEof
  dsimp only
  generalize hn : s.connectionCount + s.outstandingConnections - 1 = n
  have href : workOf q (s.addReferences n) = workOf q s := rfl
  split
  · have h1 := @workOf_retire ((s.addReferences n).registerEof c) q
    have h2 := @workOf_registerEof (s.addReferences n) c q
    omega
  · have h1 := @workOf_retire ((s.addReferences n).registerWritev c entry) q
    have h2 := @workOf_registerWritev (s.addReferences n) c q entry
    omega

/-- A poll with an entry and a connection for it does something. -/
theorem work_pollLoop : ∀ (q : List Entry) (s : Sender),
    (q = [] ∨ s.freeConnQ = []) ∧ pollLoop q s = { s with commandQ := q } ∨ (pollLoop q s).work < workOf q s
  | [], s => .inl ⟨.inl rfl, rfl⟩
  | entry :: q, s => by
    rw [pollLoop]
    split
    next hfree =>
      exact .inl ⟨.inr hfree, rfl⟩
    next c free hfree =>
      refine .inr ?_
      have htake : workOf q { s with freeConnQ := free } + 4 = workOf (entry :: q) s := by
        have hopen : ({ s with freeConnQ := free } : Sender).toOpen = s.toOpen := rfl
        rw [workOf, hopen, workOf]
        simp only [hfree, length_cons]
        omega
      have hrec : ∀ s', workOf q s' ≤ workOf q { s with freeConnQ := free } + 3 →
          (pollLoop q s').work < workOf (entry :: q) s := by
        intro s' hs'
        rcases work_pollLoop q s' with ⟨-, heq⟩ | hlt
        · have : (pollLoop q s').work = workOf q s' := by rw [heq]; rfl
          omega
        · omega
      split
      · exact hrec _ workOf_pollEof
      · exact hrec _ workOf_registerWritev.le

/-- A poll with something in the queue. -/
theorem work_poll_queue (hstate : s.state = .connectWrite) (hq : s.commandQ ≠ []) :
    s.adjustConnection none = s ∧ s.freeConnQ = [] ∧ s.poll none = s ∨ (s.poll none).work < s.work := by
  unfold poll
  dsimp only
  rw [if_pos hstate, if_neg (by simpa using hq), adjustConnection_commandQ]
  have hloop := work_pollLoop s.commandQ (s.adjustConnection none)
  rcases work_adjustConnection s with hsame | hlt
  · rw [hsame] at hloop ⊢
    rcases hloop with ⟨hnil | hnil, heq⟩ | hlt
    · exact absurd hnil hq
    · exact .inl ⟨rfl, hnil, heq⟩
    · exact .inr hlt
  · refine .inr (lt_of_le_of_lt ?_ hlt)
    have hwork : workOf s.commandQ (s.adjustConnection none) = (s.adjustConnection none).work := by
      rw [work, adjustConnection_commandQ]
    rcases hloop with ⟨-, heq⟩ | hlt
    · rw [heq, ← hwork]
      exact le_rfl
    · exact hwork ▸ hlt.le

/-- A poll that could write a block or open a connection does so. -/
theorem work_poll_lt (hstate : s.state = .connectWrite) (hq : s.commandQ ≠ []) (hcan : s.freeConnQ ≠ [] ∨
      s.eof = false ∧ s.connectionCount + s.outstandingConnections < s.parallel) : (s.poll none).work < s.work := by
  rcases work_poll_queue hstate hq with ⟨hsame, hnil, -⟩ | hlt
  · obtain ⟨he, hopen⟩ := hcan.resolve_left (fun hfree => hfree hnil)
    have := work_adjustConnection_lt hstate he hopen
    rw [hsame] at this
    exact absurd this (lt_irrefl _)
  · exact hlt

theorem work_poll (s : Sender) : s.poll none = s ∨ (s.poll none).work < s.work := by
  by_cases hstate : s.state = .connectWrite
  · by_cases hq : s.commandQ = []
    · refine .inl ?_
      unfold poll
      dsimp only
      rw [if_pos hstate, hq, if_pos isEmpty_nil, hq, pollLoop, ← hq]
    · exact (work_poll_queue hstate hq).imp_left fun h => h.2.2
  · exact .inl (if_neg hstate)

theorem work_connected (hc : c ∈ s.connecting) : (s.connectCallback c true).work < s.work := by
  have hlen := length_erase_of_mem hc
  have hpos := length_pos_of_mem hc
  unfold connectCallback
  rw [if_pos hc, if_pos rfl]
  cases he : s.eof with
  | true =>
    simp only [if_true, work, workOf, toOpen, registerEod, send, he, length_append, length_singleton]
    omega
  | false =>
    simp only [Bool.false_eq_true, if_false, work, workOf, toOpen, he, length_append, length_singleton]
    omega

theorem work_written (hc : c ∈ s.writing.map Prod.fst) : (s.writeCallback c true).work < s.work := by
  obtain ⟨w, hw, hwc⟩ := mem_map.mp hc
  obtain ⟨d, hd⟩ : ∃ d, s.writing.find? (fun w => w.1 == c) = some d :=
    Option.isSome_iff_exists.mp (find?_isSome.mpr ⟨w, hw, by simp [hwc]⟩)
  have hlen : (s.writing.eraseP (fun w => w.1 == c)).length + 1 = s.writing.length := by
    obtain ⟨-, l, l', heq, herase⟩ := split_of_find? hd
    rw [herase, heq]
    simp
    omega
  unfold writeCallback
  rw [hd]
  dsimp only
  rw [if_pos rfl]
  cases he : s.eof with
  | true =>
    cases hs : s.eofSent with
    | true =>
      simp only [if_true, work, workOf, toOpen, decrementReference, registerEod, send, he, length_append,
        length_singleton]
      omega
    | false =>
      simp only [Bool.false_eq_true, if_false, if_true, work, workOf, toOpen, decrementReference, registerEof, send,
        he, length_append, length_singleton]
      omega
  | false =>
    simp only [Bool.false_eq_true, if_false, work, workOf, toOpen, decrementReference, he, length_append,
      length_singleton]
    omega

theorem work_finished (hc : c ∈ s.finishing) : (s.eofEodCallback c true).work < s.work := by
  have hlen := length_erase_of_mem hc
  have hpos := length_pos_of_mem hc
  unfold eofEodCallback
  dsimp only
  rw [if_pos hc, if_pos rfl]
  split <;> (simp only [work, workOf, toOpen, decrementReference]; omega)

theorem work_closed (hc : c ∈ s.closeMsgs) : (s.closeMsgCallback c).work < s.work := by
  have hlen := length_erase_of_mem hc
  have hpos := length_pos_of_mem hc
  have hopen : (s.closeMsgCallback c).toOpen = s.toOpen := rfl
  rw [work, workOf, hopen, work, workOf]
  simp only [closeMsgCallback]
  omega

end Sender

/-! ## 3. At rest -/

/-- The events that come by themselves, if no operation fails. -/
def SenderEvent.active : SenderEvent → Bool
  | .poll refused => refused.isNone
  | .connected _ ok => ok
  | .written _ ok => ok
  | .finished _ ok => ok
  | .closed _ => true
  | _ => false

/-- Nothing more happens by itself. -/
def Sender.AtRest (s : Sender) : Prop := ∀ e : SenderEvent, e.active = true → s.step e = s

variable {k : Nat} {s : Sender} {c : Nat}

/-- **Everything that happens by itself takes from the work.** -/
theorem Sender.work_step (s : Sender) (e : SenderEvent) (he : e.active = true) :
    s.step e = s ∨ (s.step e).work < s.work := by
  unfold Sender.step
  split
  · exact .inl rfl
  · cases e with
    | write | removeChannels => exact absurd he Bool.false_ne_true
    | poll refused =>
      obtain rfl := Option.isNone_iff_eq_none.mp he
      exact s.work_poll
    | connected c ok =>
      obtain rfl : ok = true := he
      by_cases hc : c ∈ s.connecting
      · exact .inr (work_connected hc)
      · exact .inl (if_neg hc)
    | written c ok =>
      obtain rfl : ok = true := he
      by_cases hc : c ∈ s.writing.map Prod.fst
      · exact .inr (work_written hc)
      · have hnone : s.writing.find? (fun w => w.1 == c) = none := by
          rw [find?_eq_none]
          intro w hw hwc
          exact hc (mem_map.mpr ⟨w, hw, by simpa using hwc⟩)
        refine .inl ?_
        dsimp only
        rw [writeCallback, hnone]
    | finished c ok =>
      obtain rfl : ok = true := he
      by_cases hc : c ∈ s.finishing
      · exact .inr (work_finished hc)
      · exact .inl (if_neg hc)
    | closed c =>
      by_cases hc : c ∈ s.closeMsgs
      · exact .inr (work_closed hc)
      · refine .inl ?_
        dsimp only
        rw [closeMsgCallback, erase_of_not_mem hc]

namespace Sender.AtRest

/-- What would take from the work does not happen. -/
theorem not_lt (h : s.AtRest) {e : SenderEvent} (he : e.active = true) : ¬ (s.step e).work < s.work := by
  rw [h e he]
  exact lt_irrefl _

theorem connecting (h : s.AtRest) (hstate : s.state ≠ .closing) : s.connecting = [] := by
  rw [eq_nil_iff_forall_not_mem]
  intro c hc
  refine h.not_lt (e := .connected c true) rfl ?_
  rw [step, if_neg hstate]
  exact work_connected hc

theorem writing (h : s.AtRest) (hstate : s.state ≠ .closing) : s.writing = [] := by
  rw [eq_nil_iff_forall_not_mem]
  intro w hw
  refine h.not_lt (e := .written w.1 true) rfl ?_
  rw [step, if_neg hstate]
  exact work_written (mem_map_of_mem hw)

/-- If the last write is registered, the poll has taken it. -/
theorem eof (h : s.AtRest) (hi : Inv k s) (hl : Live s) (hstate : s.state ≠ .closing)
    (heof : s.eofRegistered = true) : s.eof = true := by
  have hw := hi.wires hstate
  by_contra he
  rw [Bool.not_eq_true] at he
  have hbefore := (hi.control hstate).before he
  have hq : s.commandQ ≠ [] := by
    obtain ⟨e, hmem, -⟩ := hbefore.queue heof
    exact ne_nil_of_mem hmem
  refine h.not_lt (e := .poll none) rfl ?_
  rw [step, if_neg hstate]
  refine work_poll_lt hbefore.state hq (or_iff_not_imp_left.mpr fun hfree => ⟨he, ?_⟩)
  -- with no connection at all, the poll opens some
  rw [not_not] at hfree
  have hout : s.outstandingConnList = [] := by
    rw [eq_nil_iff_forall_not_mem]
    intro c hc
    have hpos := count_pos_iff.mpr hc
    have hle := hl.connecting c
    rw [h.connecting hstate, count_nil] at hle
    omega
  have hcount := hw.connections
  have houtstanding := hw.outstanding
  have hparallel := hl.parallel
  rw [hfree, h.writing hstate] at hcount
  rw [hout] at houtstanding
  simp only [length_nil] at hcount houtstanding
  omega

end Sender.AtRest

/-- **At rest, every connection has said `EOD` once.** -/
theorem Sender.AtRest.eods (h : s.AtRest) (hi : Inv k s) (hl : Live s) (hstate : s.state ≠ .closing)
    (heof : s.eofRegistered = true) : s.eofSent = true ∧ ∀ c ∈ s.registered, (s.sent c).countP Item.isEod = 1 := by
  have hafter := (hi.control hstate).after (h.eof hi hl hstate heof)
  have hwriting := h.writing hstate
  constructor
  · by_contra hs
    exact hafter.eofSent (by simpa using hs) hwriting
  · intro c hc
    have hplace := (hi.wires hstate).place c
    have hle := hl.connecting c
    rw [h.connecting hstate, count_nil] at hle
    rw [if_pos hc, hafter.free, hwriting] at hplace
    simp only [map_nil, count_nil] at hplace
    omega

end Gct.Eb

