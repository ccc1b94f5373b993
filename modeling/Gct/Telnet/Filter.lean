/-
# Command lines without telnet sequences

The server is to hand the lines to its user and to refuse what the client asks for.  If the bytes that have
come end inside a sequence, and the line already has a character, the scan of the next bytes takes the first
byte of the line for the rest of the sequence (`run_loses_byte`).  In runs without such an end the user gets
the lines and every request is refused once (`run_filters`).
-/
import Gct.Telnet.Scan

namespace Gct.Telnet

open List Connection Place Option

variable {items before after : List Item} {place : Place} {s : Scanner} {kept : List UInt8}

/-! ## 1. Runs -/

/-- The bytes that have come end inside a sequence, where the line already has a character.  The place
between DONT and its option does not count. -/
def Midway (items : List Item) (stream : List UInt8) : Prop :=
  ∃ before place after, items = before ++ (Place.item place ++ after) ∧ stream = rest place ++ encode after ∧
    ¬ Place.Rescans (content before).current place

/-- No bytes come after bytes that ended so. -/
def NeverMidway (items : List Item) : Connection → List Input → Prop
  | _, [] => True
  | connection, input :: inputs =>
    (∀ count, input = .arrive count → ¬ Midway items connection.stream) ∧
      ∀ next, connection.step input = some next → NeverMidway items next inputs

/-- The user's buffer takes every line. -/
def Takes (items : List Item) (createBufferMode : Bool) (iovLen : Nat) : Prop :=
  createBufferMode = true ∨ ∀ line ∈ (content items).lines, line.length ≤ iovLen

/-- The state of the driver between two steps; `unscanned` are the bytes of the buffer behind the line. -/
structure Serves (items : List Item) (connection : Connection) (before after : List Item) (place : Place)
    (kept unscanned : List UInt8) : Prop where
  client : connection.client = false
  buffer : connection.readBuffer = kept ++ unscanned
  decodes : Decodes items connection.delivered connection.written before after place connection.scanner kept
    (unscanned ++ connection.stream)
  takes : connection.waiting ≠ .user → Takes items connection.createBufferMode connection.iovLen
  fits : connection.readBuffer.length ≤ connection.readBufferLength
  pos : 0 < connection.readBufferLength
  reading : connection.waiting = .read →
    unscanned = [] ∧ Quiet before connection.scanner ∧ connection.readBuffer.length < connection.readBufferLength
  rescans : connection.waiting ≠ .read → place.Rescans kept

variable {unscanned : List UInt8} {connection : Connection}

/-- What the driver does next keeps it in order. -/
theorem serves_requestData (hplain : ∀ item ∈ items, item.Plain) (hclient : connection.client = false)
    (hbuffer : connection.readBuffer = kept ++ unscanned)
    (hdecodes : Decodes items connection.delivered connection.written before after place connection.scanner kept
      (unscanned ++ connection.stream)) (htakes : Takes items connection.createBufferMode connection.iovLen)
    (hfits : connection.readBuffer.length ≤ connection.readBufferLength)
    (hpos : 0 < connection.readBufferLength) (hrescans : place.Rescans kept) :
    ∃ before after place kept unscanned, Serves items connection.requestData before after place kept unscanned := by
  unfold requestData
  cases hqueue : connection.scanner.writeQ with
  | cons answer writeQ =>
    -- a refusal goes from the queue to the transport
    obtain ⟨hitems, hcome, hmatches, hkept, hlines, hanswers⟩ := hdecodes
    refine ⟨before, after, place, kept, unscanned, hclient, hbuffer,
      ⟨hitems, hcome, ?_, hkept, hlines, ?_⟩, fun _ => htakes, hfits, hpos, nofun, fun _ => hrescans⟩
    · cases place with
      | afterVerb verb option => cases verb <;> exact hmatches
      | fresh | afterIac | afterCr => exact hmatches
    · rw [hqueue] at hanswers
      simpa using hanswers
  | nil =>
    obtain ⟨s', hscan, hqueue', hdecodes'⟩ := hdecodes.rescan hrescans unscanned
    have hscans := hdecodes'.scan hplain (.inl (hqueue'.trans hqueue))
    have hcheck : Telnet.scan connection.client connection.scanner [] connection.readBuffer
        = Telnet.scan false s' kept unscanned := by
      rw [hclient, hbuffer, hscan]
    have hlength : _ ≤ ([] : List UInt8).length + connection.readBuffer.length :=
      @length_scan connection.scanner [] connection.client connection.readBuffer
    rw [hcheck] at hlength
    simp only [hcheck]
    generalize Telnet.scan false s' kept unscanned = scanned at hscans hlength ⊢
    obtain ⟨s'', line, remainder, complete⟩ := scanned
    simp only [length_nil, Nat.zero_add] at hlength
    cases complete with
    | true =>
      obtain ⟨before', after', hdone⟩ := hscans
      have hline : line ∈ (content items).lines := by
        have hpre := lines_append before' (Place.item .fresh ++ after')
        rw [← hdone.items_eq] at hpre
        refine hpre.subset ?_
        rw [hdone.lines_eq]
        simp
      have hlen : connection.createBufferMode ∨ connection.iovLen ≥ line.length := htakes.imp id fun h => h line hline
      refine ⟨before', after', .fresh, [], remainder, ?_⟩
      simp only [deliver, if_pos hlen, take_length, drop_length, nil_append]
      refine ⟨hclient, rfl, hdone, fun h => absurd rfl h, ?_, hpos, nofun, fun _ => trivial⟩
      show remainder.length ≤ connection.readBufferLength
      omega
    | false =>
      obtain ⟨before', after', place', hdecodes'', hquiet⟩ := hscans
      refine ⟨before', after', place', line, [], hclient, (append_nil _).symm, hdecodes'', fun _ => htakes, ?_, ?_,
        fun _ => ⟨rfl, hquiet, ?_⟩, fun h => absurd rfl h⟩
      all_goals
        simp only [passRead]
        split <;> omega

/-- What a step keeps. -/
theorem Serves.step {connection next : Connection} {unscanned : List UInt8} {input : Input}
    (hplain : ∀ item ∈ items, item.Plain) (h : Serves items connection before after place kept unscanned)
    (htakes : ∀ iovLen, input = .read iovLen → Takes items connection.createBufferMode iovLen)
    (hmidway : ∀ count, input = .arrive count → ¬ Midway items connection.stream)
    (hstep : connection.step input = some next) :
    ∃ before after place kept unscanned, Serves items next before after place kept unscanned := by
  cases input with
  | read iovLen =>
    simp only [Connection.step, ite_none_right_eq_some, some.injEq] at hstep
    obtain ⟨hwaiting, rfl⟩ := hstep
    exact serves_requestData hplain h.client h.buffer h.decodes (htakes iovLen rfl) h.fits h.pos
      (h.rescans (by rw [hwaiting]; decide))
  | wrote =>
    simp only [Connection.step, ite_none_right_eq_some, some.injEq] at hstep
    obtain ⟨hwaiting, rfl⟩ := hstep
    exact serves_requestData hplain h.client h.buffer h.decodes (h.takes (by rw [hwaiting]; decide)) h.fits h.pos
      (h.rescans (by rw [hwaiting]; decide))
  | arrive count =>
    simp only [Connection.step, ite_none_right_eq_some, some.injEq] at hstep
    obtain ⟨⟨hwaiting, -, hcount, hroom⟩, rfl⟩ := hstep
    obtain ⟨rfl, -, hlt⟩ := h.reading hwaiting
    have hdecodes := h.decodes
    rw [nil_append] at hdecodes
    -- the bytes before did not end inside a sequence
    have hrescans : place.Rescans kept := by
      by_contra hnot
      refine hmidway count rfl ⟨before, place, after, hdecodes.items_eq, hdecodes.toCome_eq, fun hcurrent => hnot ?_⟩
      rw [hdecodes.kept_eq]
      cases place with
      | afterVerb verb option => cases verb <;> exact hcurrent
      | fresh => trivial
      | afterIac item => exact hcurrent
      | afterCr => trivial
    have hbuffer : connection.readBuffer = kept := by rw [h.buffer, append_nil]
    rw [← take_append_drop count connection.stream] at hdecodes
    refine serves_requestData hplain h.client (by rw [hbuffer]) hdecodes (h.takes (by rw [hwaiting]; decide)) ?_ h.pos
      hrescans
    · have hlen : (connection.stream.take count).length = count := length_take_of_le hcount
      show (connection.readBuffer ++ connection.stream.take count).length ≤ connection.readBufferLength
      rw [length_append, hlen]
      omega

@[simp] theorem createBufferMode_requestData (connection : Connection) :
    connection.requestData.createBufferMode = connection.createBufferMode := by
  unfold requestData
  split
  · rfl
  · split <;> rfl

theorem createBufferMode_step {connection next : Connection} {input : Input}
    (hstep : connection.step input = some next) : next.createBufferMode = connection.createBufferMode := by
  cases input <;> simp only [Connection.step, ite_none_right_eq_some, some.injEq] at hstep <;>
    rw [← hstep.2, createBufferMode_requestData]

/-- What a run keeps. -/
theorem Serves.run {connection last : Connection} {inputs : List Input}
    (hplain : ∀ item ∈ items, item.Plain) (h : Serves items connection before after place kept unscanned)
    (htakes : ∀ iovLen, .read iovLen ∈ inputs → Takes items connection.createBufferMode iovLen)
    (hmidway : NeverMidway items connection inputs) (hrun : connection.run inputs = some last) :
    ∃ before after place kept unscanned, Serves items last before after place kept unscanned := by
  induction inputs generalizing connection before after place kept unscanned with
  | nil =>
    cases hrun
    exact ⟨before, after, place, kept, unscanned, h⟩
  | cons input inputs ih =>
    obtain ⟨next, hnext, hrun⟩ := bind_eq_some_iff.mp hrun
    obtain ⟨before', after', place', kept', unscanned', h'⟩ :=
      h.step hplain (fun iovLen hinput => htakes iovLen (hinput ▸ mem_cons_self)) hmidway.1 hnext
    refine ih h' (fun iovLen hread => ?_) (hmidway.2 next hnext) hrun
    rw [createBufferMode_step hnext]
    exact htakes iovLen (mem_cons_of_mem input hread)

/-! ## 2. Lines and refusals -/

/-- The user has got the lines of the items that were scanned, and their requests have been refused or are
queued.  When everything has been scanned and the stream ended with a line, nothing is left; and a driver
that waits for bytes can take them. -/
structure Connection.Filters (connection : Connection) (items : List Item) : Prop where
  scanned : ∃ before after, items = before ++ after ∧ connection.delivered = (content before).lines ∧
    connection.written ++ connection.scanner.writeQ = answers before
  complete : connection.waiting = .read → connection.stream = [] → items.getLast? = some .endOfLine →
    connection.delivered = (content items).lines ∧ connection.written = answers items
  answered : connection.waiting = .read → connection.stream ≠ [] → ∃ next, connection.step (.arrive 1) = some next

theorem Item.encode_ne_nil (item : Item) : item.encode ≠ [] := by
  cases item <;> simp [Item.encode]

theorem Place.rest_eq_nil {s : Scanner} (hmatches : place.Matches s) (h : place.rest = []) : place = .fresh := by
  cases place with
  | fresh => rfl
  | afterCr | afterVerb => exact absurd h (by simp [rest])
  | afterIac item =>
    -- an item that begins with IAC has a second byte
    obtain ⟨-, -, hencode⟩ := hmatches
    cases item with
    | text b hb =>
      obtain rfl := (cons.inj hencode).1
      exact absurd hb (by decide)
    | endOfLine => exact absurd (cons.inj hencode).1 (by decide)
    | negotiation | command => exact absurd h (by simp [rest, Item.encode])

theorem Serves.filters (h : Serves items connection before after place kept unscanned) : connection.Filters items := by
  have hdecodes := h.decodes
  refine ⟨⟨before, place.item ++ after, hdecodes.items_eq, hdecodes.lines_eq.symm, hdecodes.answers_eq⟩, ?_, ?_⟩
  · intro hwaiting hstream hlast
    obtain ⟨rfl, hquiet, -⟩ := h.reading hwaiting
    have hcome := hdecodes.toCome_eq
    rw [hstream, append_nil, eq_comm, append_eq_nil_iff] at hcome
    obtain rfl := rest_eq_nil hdecodes.place_matches hcome.1
    obtain rfl : after = [] := by
      cases after with
      | nil => rfl
      | cons item after =>
        rw [encode_cons] at hcome
        exact absurd (append_eq_nil_iff.mp hcome.2).1 item.encode_ne_nil
    have hitems : items = before := by simpa [Place.item] using hdecodes.items_eq
    -- the last line was delivered before this scan, so nothing is queued
    have hqueue : connection.scanner.writeQ = [] := hquiet.resolve_right (hitems ▸ not_not_intro hlast)
    have hanswers := hdecodes.answers_eq
    rw [hqueue, append_nil] at hanswers
    rw [hitems]
    exact ⟨hdecodes.lines_eq.symm, hanswers⟩
  · intro hwaiting hstream
    obtain ⟨-, -, hlt⟩ := h.reading hwaiting
    have hlen : 1 ≤ connection.stream.length := length_pos_iff.mpr hstream
    refine ⟨_, if_pos ⟨hwaiting, le_rfl, hlen, ?_⟩⟩
    exact Nat.le_sub_of_add_le' hlt

theorem serves_server (items : List Item) (createBufferMode : Bool) :
    Serves items (.server createBufferMode (encode items)) [] items .fresh [] [] :=
  ⟨rfl, rfl, ⟨rfl, rfl, ⟨show Neutral 0 by decide, rfl⟩, rfl, rfl, rfl⟩, fun h => absurd rfl h, Nat.zero_le _,
    show 0 < defaultBufferSize by decide, nofun, fun _ => trivial⟩

/-- **If no bytes come after bytes that ended inside a sequence in a line, the lines are delivered and the
requests refused.** -/
theorem run_filters {items : List Item} (hplain : ∀ item ∈ items, item.Plain) {createBufferMode : Bool}
    {inputs : List Input} (htakes : ∀ iovLen, .read iovLen ∈ inputs → Takes items createBufferMode iovLen)
    (hmidway : NeverMidway items (.server createBufferMode (encode items)) inputs) {connection : Connection}
    (hrun : (server createBufferMode (encode items)).run inputs = some connection) :
    connection.Filters items := by
  obtain ⟨before, after, place, kept, unscanned, h⟩ := (serves_server items createBufferMode).run hplain htakes hmidway hrun
  exact h.filters

/-- A line of two characters with a request between them: `U`, IAC DO 1, `S`. -/
def request : List Item :=
  [.text 85 (by decide), .negotiation .doOption 1, .text 83 (by decide), .endOfLine]

/-- Before the first byte the driver is not inside a sequence. -/
theorem not_midway_encode {items : List Item} : ¬ Midway items (encode items) := by
  rintro ⟨before, place, after, hitems, hstream, hrescans⟩
  have hrest : place.rest.length ≤ (encode place.item).length := by
    cases place with
    | fresh => exact Nat.zero_le _
    | afterIac item => simp [rest, Place.item, encode]
    | afterVerb | afterCr => simp [rest, Place.item, encode, Item.encode]
  -- nothing has come, so no item has
  have hbefore : before = [] := by
    have hlength := congrArg length hstream
    rw [hitems] at hlength
    simp only [encode, flatMap_append, length_append] at hlength hrest
    have hzero : (encode before).length = 0 := by
      rw [encode]
      omega
    cases before with
    | nil => rfl
    | cons item before =>
      rw [encode_cons, length_eq_zero_iff, append_eq_nil_iff] at hzero
      exact absurd hzero.1 item.encode_ne_nil
  rw [hbefore] at hrescans
  cases place with
  | fresh | afterCr => exact hrescans trivial
  | afterIac item => exact hrescans rfl
  | afterVerb verb option => cases verb <;> exact hrescans (by trivial)

theorem run_filters_request :
    ∃ connection, (server false (encode request)).run [.read 10, .arrive 7, .read 10, .wrote] = some connection ∧
      connection.Filters request ∧ connection.delivered = [[85, 83, cr, lf]] ∧
      connection.written = [(iac, wont, 1)] := by
  have hrun : ((server false (encode request)).run [.read 10, .arrive 7, .read 10, .wrote]).map
      (fun connection => (connection.delivered, connection.written)) = some ([[85, 83, cr, lf]], [(iac, wont, 1)]) := by
    decide +kernel
  obtain ⟨connection, hrun, hconnection⟩ := map_eq_some_iff.mp hrun
  obtain ⟨hdelivered, hwritten⟩ := Prod.mk.inj hconnection
  have htakes : ∀ iovLen, Input.read iovLen ∈ [.read 10, .arrive 7, .read 10, .wrote] → Takes request false iovLen := by
    intro iovLen hread
    obtain rfl : iovLen = 10 := by simpa using hread
    exact .inr (by decide)
  have hmidway : NeverMidway request (.server false (encode request)) [.read 10, .arrive 7, .read 10, .wrote] := by
    refine ⟨nofun, fun first hfirst => ⟨fun count _ => ?_, fun second _ => ⟨nofun, fun third _ => ⟨nofun, fun _ _ => trivial⟩⟩⟩⟩
    obtain rfl := some.inj hfirst
    exact not_midway_encode
  exact ⟨connection, hrun, run_filters (by decide) htakes hmidway hrun, hdelivered, hwritten⟩

/-- The first piece ends behind IAC: the `U` of the line is lost, and the request is not refused. -/
theorem run_loses_byte : ∃ connection,
      (server false (encode request)).run [.read 10, .arrive 2, .arrive 5, .read 10] = some connection ∧
        connection.waiting = .read ∧ connection.stream = [] ∧
        connection.delivered = [[83, cr, lf]] ∧ (content request).lines = [[85, 83, cr, lf]] ∧
        connection.written = [] ∧ answers request = [(iac, wont, 1)] := by
  have hrun : ((server false (encode request)).run [.read 10, .arrive 2, .arrive 5, .read 10]).map
      (fun connection => ((connection.waiting, connection.stream), (connection.delivered, connection.written)))
      = some ((.read, []), ([[83, cr, lf]], [])) := by
    decide +kernel
  obtain ⟨connection, hrun, hconnection⟩ := map_eq_some_iff.mp hrun
  simp only [Prod.mk.injEq] at hconnection
  obtain ⟨⟨hwaiting, hstream⟩, hdelivered, hwritten⟩ := hconnection
  exact ⟨connection, hrun, hwaiting, hstream, hdelivered, by decide, hwritten, by decide⟩

end Gct.Telnet
