/-
# Events of a job with several processes

`job_id_string` lists the ids of the processes that have not come to their end, with commas between them.
`globus_gram_job_manager_seg_handle_event` looks for the id of an event with `strstr`, tests what stands
around the occurrence, and goes round a loop until it has found the id or there is no occurrence.  The
search begins at the front of the text each time, so a round that does not find the id changes nothing, and
the loop never ends (`searchSubjob_stuck`).  It does end if the first id in the list that contains the id
of the event is this id itself, and only then (`exists_searchSubjob_iff`).  A run in which this is so for
every event takes the ids away one by one and sets the final status with the last one
(`segHandleEvents_iff`).
-/
import Gct.JobManager.JobState
import Gct.Lib.Separated
import Mathlib.Data.List.Induction
import Mathlib.Data.List.Infix

namespace Gct.JobManager

open Search Separated List

/-! ## 1. Events and requests -/

/-- `globus_scheduler_event_type_t` -/
inductive EventType where
  | pending
  | active
  | failed
  | done
  | raw
  deriving DecidableEq, Repr

/-- `globus_scheduler_event_t` -/
structure Event where
  eventType : EventType
  jobId : List Char
  timestamp : Int
  exitCode : Int
  deriving DecidableEq, Repr

variable (event : Event)

/-- Done or failed. -/
def Event.isTerminal : Bool := event.eventType == .done || event.eventType == .failed

/-- What the handler reads and writes of `globus_gram_jobmanager_request_t`. -/
structure Request where
  jobIdString : List Char
  status : JobState
  expectedTerminalState : JobState
  exitCode : Int
  segLastTimestamp : Int
  unsentStatusChange : Bool
  /-- `globus_gram_job_manager_rsl_need_stage_out` of its RSL -/
  needStageOut : Bool
  deriving DecidableEq, Repr

/-! ## 2. The handler -/

/-- The loop that looks for the id: the text it leaves, unless `fuel` rounds are not enough. -/
def searchSubjob (event : Event) : Nat → List Char → Option (List Char)
  | 0, _ => none
  | fuel + 1, jobIdString =>
    match strstr event.jobId jobIdString with
    | none => some jobIdString
    | some i =>
      if i = 0 ∨ jobIdString[i - 1]? = some ',' then
        match jobIdString[i + event.jobId.length]? with
        | none =>
          -- the last id: the text ends at the comma before it, or at its beginning
          if event.isTerminal then some (if i = 0 then [] else jobIdString.take (i - 1)) else some jobIdString
        | some c =>
          if c = ',' then
            if event.isTerminal then
              some (jobIdString.take i ++ jobIdString.drop (i + event.jobId.length + 1))
            else some jobIdString
          else searchSubjob event fuel jobIdString
      else searchSubjob event fuel jobIdString

variable (request : Request) (event : Event) (ids : List (List Char)) (id : List Char) (fuel : Nat)

/-- `expected_terminal_state` and `exit_code` after a terminal event. -/
def Request.updateTerminal : Request :=
  { request with
    expectedTerminalState :=
      if request.expectedTerminalState = .done ∧ event.eventType = .failed then .failed
      else request.expectedTerminalState
    exitCode :=
      if event.eventType = .done ∧ request.exitCode = 0 ∧ event.exitCode ≠ 0 then event.exitCode
      else request.exitCode }

/-- The status of a job that is told to be in another one. -/
def Request.changeStatus (newState status : JobState) : Request :=
  if request.status.validStateChange newState then { request with status, unsentStatusChange := true }
  else request

/-- What the handler does once it has looked for the id. -/
def Request.updateStatus : Request :=
  match event.eventType with
  | .pending => request.changeStatus .pending .pending
  | .active => request.changeStatus .active .active
  | .raw => request
  | .done | .failed =>
    let request := request.updateTerminal event
    if request.jobIdString = [] then
      request.changeStatus request.expectedTerminalState
        (if request.expectedTerminalState = .done ∧ request.needStageOut then .stageOut
        else request.expectedTerminalState)
    else request

/-- The request with the text the search has left, and the time of the last event. -/
def Request.noted (jobIdString : List Char) : Request :=
  { request with jobIdString, segLastTimestamp := max request.segLastTimestamp event.timestamp }

/-- `globus_gram_job_manager_seg_handle_event` -/
def segHandleEvent (request : Request) (event : Event) : Option Request :=
  (searchSubjob event fuel request.jobIdString).map fun jobIdString =>
    (request.noted event jobIdString).updateStatus event

/-! ## 3. Lists of ids -/

/-- The text of a list of ids. -/
def listed : List Char := [','].intercalate ids

/-- Ids are not empty and have no comma. -/
def IsId : Prop := id ≠ [] ∧ ',' ∉ id

/-- The first id of the list that contains `id`. -/
def firstWith : Option (List Char) :=
  ids.find? fun entry => decide (id <:+: entry)

/-- If there is one, it is `id`. -/
def FoundFirst : Prop :=
  ∀ other ∈ firstWith ids id, other = id

instance (ids : List (List Char)) (id : List Char) : Decidable (FoundFirst ids id) :=
  inferInstanceAs (Decidable (∀ other ∈ firstWith ids id, other = id))

variable {ids : List (List Char)} {id : List Char} (events : List Event)

theorem not_isInfix_of_firstWith_eq_none (h : firstWith ids id = none) : ∀ entry ∈ ids, ¬ id <:+: entry := by
  intro entry hentry hin
  exact find?_eq_none.mp h entry hentry (decide_eq_true hin)

theorem exists_of_firstWith_eq_some {id other : List Char} (h : firstWith ids id = some other) :
    ∃ before after, ids = before ++ other :: after ∧ id <:+: other ∧ ∀ entry ∈ before, ¬ id <:+: entry := by
  obtain ⟨hin, before, after, hids, hbefore⟩ := find?_eq_some_iff_append.mp h
  refine ⟨before, after, hids, of_decide_eq_true hin, fun entry hentry hin' => ?_⟩
  have hnot := hbefore entry hentry
  rw [decide_eq_true hin'] at hnot
  cases hnot

/-- The list without an id that stands in it. -/
theorem erase_eq_append {before after : List (List Char)}
    (hbefore : ∀ entry ∈ before, ¬ id <:+: entry) : (before ++ id :: after).erase id = before ++ after := by
  have hnot : id ∉ before := fun hmem => hbefore id hmem infix_rfl
  rw [erase_append_right _ hnot, erase_cons_head]

/-! ## 4. One search -/

section

variable {event : Event} {ids before after : List (List Char)}

theorem searchSubjob_of_none (hid : IsId event.jobId) (h : ∀ entry ∈ ids, ¬ event.jobId <:+: entry)
    (fuel : Nat) : searchSubjob event (fuel + 1) (listed ids) = some (listed ids) := by
  rw [searchSubjob, listed, strstr_intercalate_eq_none hid.1 hid.2 h]

/-- The character before an entry. -/
theorem getElem?_front (before : List (List Char)) (t : List Char) :
    (front ',' before).length = 0 ∨ (front ',' before ++ t)[(front ',' before).length - 1]? = some ',' := by
  rcases @front_eq_nil_or Char ',' before with ⟨-, hfront⟩ | hfront
  · exact .inl (congrArg length hfront)
  · right
    rw [hfront, append_assoc, length_append, length_singleton, Nat.add_sub_cancel,
      getElem?_append_right (Nat.le_refl _), Nat.sub_self]
    rfl

/-- The text up to the comma before the last id. -/
theorem take_front (before : List (List Char)) (t : List Char) : (if (front ',' before).length = 0 then []
      else (front ',' before ++ t).take ((front ',' before).length - 1)) = listed before := by
  rcases @front_eq_nil_or Char ',' before with ⟨hbefore, hfront⟩ | hfront
  · subst hbefore
    rfl
  · have hlen : (front ',' before).length = (listed before).length + 1 := by
      rw [hfront, length_append]
      rfl
    rw [if_neg (hlen ▸ Nat.succ_ne_zero _), hlen, Nat.add_sub_cancel, hfront, append_assoc]
    exact take_left

/-- **The id is found, and a terminal event takes it away.** -/
theorem searchSubjob_of_first (hid : IsId event.jobId) (hbefore : ∀ entry ∈ before, ¬ event.jobId <:+: entry)
    (fuel : Nat) : searchSubjob event (fuel + 1) (listed (before ++ event.jobId :: after)) =
      some (listed (if event.isTerminal then before ++ after else before ++ event.jobId :: after)) := by
  have hfound : strstr event.jobId (listed (before ++ event.jobId :: after)) = some (front ',' before).length := by
    rw [listed, strstr_intercalate hid.1 hid.2 hbefore (strstr_of_isPrefix prefix_rfl), Nat.zero_add]
  have htext : listed (before ++ event.jobId :: after) =
      front ',' before ++ (event.jobId ++ back ',' after) := intercalate_split before event.jobId after
  have hbehind : (listed (before ++ event.jobId :: after))[(front ',' before).length + event.jobId.length]? =
      (back ',' after)[0]? := by
    rw [htext, getElem?_append_right (Nat.le_add_right _ _), Nat.add_sub_cancel_left,
      getElem?_append_right (Nat.le_refl _), Nat.sub_self]
  rw [searchSubjob, hfound]
  dsimp only
  rw [if_pos (by rw [htext]; exact getElem?_front before _), hbehind]
  cases hterminal : event.isTerminal with
  | false => cases after <;> rfl
  | true =>
    cases after with
    | nil =>
      rw [htext, append_nil]
      exact congrArg some (take_front before _)
    | cons next after =>
      have hdrop : (listed (before ++ event.jobId :: next :: after)).drop
          ((front ',' before).length + event.jobId.length + 1) = next ++ back ',' after := by
        rw [htext, Nat.add_assoc, ← drop_drop, drop_left, ← drop_drop, drop_left]
        rfl
      have htake : (listed (before ++ event.jobId :: next :: after)).take (front ',' before).length =
          front ',' before := by
        rw [htext]
        exact take_left
      have hlisted : listed (before ++ next :: after) = front ',' before ++ (next ++ back ',' after) :=
        intercalate_split before next after
      rw [hdrop, htake]
      exact congrArg some hlisted.symm

/-- **An occurrence inside of another id: the loop goes on for ever.** -/
theorem searchSubjob_stuck {other : List Char} (hid : IsId event.jobId) (hother : ',' ∉ other)
    (hbefore : ∀ entry ∈ before, ¬ event.jobId <:+: entry) (hin : event.jobId <:+: other)
    (hne : other ≠ event.jobId) (fuel : Nat) : searchSubjob event fuel (listed (before ++ other :: after)) = none := by
  obtain ⟨k, hk⟩ := exists_strstr_of_isInfix hin
  obtain ⟨v, hv⟩ := isPrefix_of_strstr hk
  have hfound : strstr event.jobId (listed (before ++ other :: after)) = some (k + (front ',' before).length) :=
    strstr_intercalate hid.1 hid.2 hbefore hk
  have htext : listed (before ++ other :: after) = front ',' before ++ (other ++ back ',' after) :=
    intercalate_split before other after
  -- a character of the other id is no comma
  have hchar : ∀ j < other.length, ∃ c, c ≠ ',' ∧
      (listed (before ++ other :: after))[j + (front ',' before).length]? = some c := by
    intro j hj
    refine ⟨other.get ⟨j, hj⟩, fun hc => hother (hc ▸ get_mem other ⟨j, hj⟩), ?_⟩
    rw [htext, getElem?_append_right (Nat.le_add_left _ _), Nat.add_sub_cancel, getElem?_append_left hj]
    exact getElem?_eq_getElem hj
  have hlen : k + event.jobId.length + v.length = other.length := by
    have h := congrArg length hv
    rw [length_append, length_drop] at h
    have hpos := length_pos_iff.mpr hid.1
    omega
  induction fuel with
  | zero => rw [searchSubjob]
  | succ fuel ih =>
    rw [searchSubjob, hfound]
    dsimp only
    split
    next hcomma =>
      -- the occurrence begins where the other id begins, so the other id goes on behind it
      have hzero : k = 0 := by
        by_contra hpos
        obtain ⟨c, hc, hget⟩ := hchar (k - 1) (by omega)
        rcases hcomma with h | h
        · omega
        · rw [show k + (front ',' before).length - 1 = k - 1 + (front ',' before).length by omega, hget] at h
          exact hc (Option.some.inj h)
      have hmore : event.jobId.length < other.length := by
        by_contra hle
        have hnil : v = [] := length_eq_zero_iff.mp (by omega)
        rw [hzero, drop_zero, hnil, append_nil] at hv
        exact hne hv.symm
      obtain ⟨c, hc, hget⟩ := hchar event.jobId.length hmore
      rw [hzero, Nat.zero_add, Nat.add_comm, hget]
      dsimp only
      rw [if_neg hc, ih]
    · exact ih

/-- One round is enough, or there is no end. -/
theorem searchSubjob_of_foundFirst (hid : IsId event.jobId) (h : FoundFirst ids event.jobId) (fuel : Nat) :
    searchSubjob event (fuel + 1) (listed ids) =
      some (listed (if event.isTerminal then ids.erase event.jobId else ids)) := by
  cases hfound : firstWith ids event.jobId with
  | none =>
    have hnone := not_isInfix_of_firstWith_eq_none hfound
    rw [searchSubjob_of_none hid hnone, erase_of_not_mem fun hmem => hnone _ hmem infix_rfl, ite_self]
  | some other =>
    obtain rfl := h other hfound
    obtain ⟨before, after, rfl, -, hbefore⟩ := exists_of_firstWith_eq_some hfound
    rw [searchSubjob_of_first hid hbefore, erase_eq_append hbefore]

/-- **The loop ends if and only if the first id that contains the id of the event is this id itself.** -/
theorem exists_searchSubjob_iff (hid : IsId event.jobId) (hids : ∀ entry ∈ ids, IsId entry) :
    (∃ fuel text, searchSubjob event fuel (listed ids) = some text) ↔ FoundFirst ids event.jobId := by
  constructor
  · rintro ⟨fuel, text, h⟩ other hfound
    obtain ⟨before, after, rfl, hin, hbefore⟩ := exists_of_firstWith_eq_some hfound
    by_contra hne
    have hother := (hids other (mem_append_right _ mem_cons_self)).2
    rw [searchSubjob_stuck hid hother hbefore hin hne] at h
    cases h
  · exact fun hfirst => ⟨1, _, searchSubjob_of_foundFirst hid hfirst 0⟩

end

/-! ## 5. Runs -/

/-- The ids whose processes have not come to their end. -/
def remaining (ids : List (List Char)) (events : List Event) : List (List Char) :=
  ids.filter fun id => !events.any fun event => event.isTerminal && event.jobId == id

def hasFailed : Bool := events.any fun event => event.eventType == .failed

/-- The status of the job once all its processes have come to their end. -/
def finalStatus (needStageOut : Bool) : JobState :=
  if hasFailed events then .failed else if needStageOut then .stageOut else .done

/-- Events for the ids, among which each id has at most one terminal event. -/
structure EventsFor (ids : List (List Char)) (events : List Event) : Prop where
  mem : ∀ event ∈ events, event.jobId ∈ ids
  once : events.Pairwise fun event event' =>
    event.isTerminal → event'.isTerminal → event.jobId ≠ event'.jobId

/-- A job that waits for the processes `ids`. -/
structure Waits (ids : List (List Char)) (request : Request) : Prop where
  isId : ∀ id ∈ ids, IsId id
  nodup : ids.Nodup
  jobIdString : request.jobIdString = listed ids
  expectedTerminalState : request.expectedTerminalState = .done
  status : request.status.IsOpen

/-- What the request is after the events: the list without the ids that have got a terminal event, and a
final status if and only if that was the last one. -/
structure AsExpected (ids : List (List Char)) (needStageOut : Bool) (events : List Event) (request : Request) :
    Prop where
  jobIdString : request.jobIdString = listed (remaining ids events)
  status : if remaining ids events = [] ∧ events ≠ [] then request.status = finalStatus events needStageOut
    else request.status.IsOpen

/-- One event after the other. -/
def segHandleEvents (request : Request) (events : List Event) : Option Request :=
  events.foldlM (segHandleEvent fuel) request

/-! ## 6. One event of a run -/

section

variable {ids : List (List Char)} {events : List Event} {event : Event} {request : Request} {needStageOut : Bool}

theorem mem_remaining : id ∈ remaining ids events ↔ id ∈ ids ∧ ∀ event ∈ events, event.isTerminal → event.jobId ≠ id := by
  rw [remaining, mem_filter, Bool.not_eq_true', any_eq_false]
  simp

theorem remaining_append (hnodup : ids.Nodup) : remaining ids (events ++ [event]) =
      if event.isTerminal then (remaining ids events).erase event.jobId else remaining ids events := by
  have hfilter : ∀ id, (!(events ++ [event]).any fun event => event.isTerminal && event.jobId == id) =
      ((!events.any fun event => event.isTerminal && event.jobId == id) && !(event.isTerminal && event.jobId == id)) := by
    intro id
    rw [any_append, Bool.not_or, any_cons, any_nil, Bool.or_false]
  rw [remaining, filter_congr fun id _ => hfilter id]
  cases event.isTerminal with
  | false =>
    rw [if_neg (by decide)]
    exact filter_congr fun id _ => Bool.and_true _
  | true =>
    rw [if_pos rfl, remaining, List.Nodup.erase_eq_filter (hnodup.filter _), filter_filter]
    refine filter_congr fun id _ => ?_
    rw [Bool.and_comm, Bool.true_and, bne, Bool.beq_comm]

theorem hasFailed_append : hasFailed (events ++ [event]) = (hasFailed events || event.eventType == .failed) := by
  rw [hasFailed, any_append, any_cons, any_nil, Bool.or_false]
  rfl

theorem listed_eq_nil_iff (hids : ∀ id ∈ ids, IsId id) : listed ids = [] ↔ ids = [] := by
  cases ids with
  | nil => exact ⟨fun _ => rfl, fun _ => rfl⟩
  | cons id ids =>
    refine ⟨fun h => ?_, nofun⟩
    have htext : listed (id :: ids) = id ++ back ',' ids := intercalate_cons id ids
    rw [htext] at h
    exact absurd (append_eq_nil_iff.mp h).1 (hids id mem_cons_self).1

theorem finalStatus_not_isOpen (events : List Event) (needStageOut : Bool) :
    ¬ (finalStatus events needStageOut).IsOpen := by
  unfold finalStatus
  repeat' split
  all_goals exact id

/-- The invariant of a run, with the state the handler keeps between events. -/
structure Invariant (ids : List (List Char)) (needStageOut : Bool) (events : List Event) (request : Request) :
    Prop extends AsExpected ids needStageOut events request where
  expectedTerminalState : request.expectedTerminalState = if hasFailed events then .failed else .done
  needStageOut_eq : request.needStageOut = needStageOut

theorem updateStatus_of_not_terminal (hterminal : event.isTerminal = false) :
    ∃ status unsentStatusChange, request.updateStatus event = { request with status, unsentStatusChange } ∧
      (request.status.IsOpen → status.IsOpen) ∧ (¬ request.status.IsOpen → status = request.status) := by
  have hchange : ∀ newState, newState = .pending ∨ newState = .active → ∃ status unsentStatusChange,
        request.changeStatus newState newState = { request with status, unsentStatusChange } ∧
        (request.status.IsOpen → status.IsOpen) ∧ (¬ request.status.IsOpen → status = request.status) := by
    intro newState hnew
    unfold Request.changeStatus
    split
    next hvalid =>
      refine ⟨newState, true, rfl, ?_, ?_⟩
      · rcases hnew with rfl | rfl <;> exact fun _ => trivial
      · intro hclosed
        rw [JobState.validStateChange_of_not_isOpen hclosed hnew] at hvalid
        cases hvalid
    · exact ⟨request.status, request.unsentStatusChange, rfl, id, fun _ => rfl⟩
  obtain ⟨eventType, jobId, timestamp, exitCode⟩ := event
  cases eventType with
  | pending => exact hchange .pending (.inl rfl)
  | active => exact hchange .active (.inr rfl)
  | raw => exact ⟨request.status, request.unsentStatusChange, rfl, id, fun _ => rfl⟩
  | done | failed => cases hterminal

/-- A terminal event for a job that has not come to its end. -/
theorem updateStatus_of_terminal {failed : Bool} (hterminal : event.isTerminal = true) (hstatus : request.status.IsOpen)
    (hexpected : request.expectedTerminalState = if failed then .failed else .done) :
    ∃ status exitCode unsentStatusChange, request.updateStatus event = { request with
          status, exitCode, unsentStatusChange
          expectedTerminalState := if failed || event.eventType == .failed then .failed else .done } ∧
      (request.jobIdString = [] → status = if failed || event.eventType == .failed then .failed
        else if request.needStageOut then .stageOut else .done) ∧
      (request.jobIdString ≠ [] → status = request.status) := by
  obtain ⟨final, hfinal⟩ : ∃ final, (request.updateTerminal event).expectedTerminalState = final := ⟨_, rfl⟩
  have hupdate : final = if failed || event.eventType == .failed then .failed else .done := by
    rw [← hfinal, Request.updateTerminal, hexpected]
    cases failed <;> cases event.eventType <;> rfl
  have hends : final = .done ∨ final = .failed := by
    rw [hupdate]
    split
    · exact .inr rfl
    · exact .inl rfl
  have hvalid : (request.updateTerminal event).status.validStateChange final = true :=
    hstatus.validStateChange hends
  have hupdateStatus : request.updateStatus event = if request.jobIdString = [] then
        (request.updateTerminal event).changeStatus final
          (if final = .done ∧ request.needStageOut then .stageOut else final)
      else request.updateTerminal event := by
    rw [← hfinal]
    unfold Request.updateStatus
    unfold Event.isTerminal at hterminal
    cases htype : event.eventType with
    | done => rfl
    | failed => rfl
    | pending | active | raw => rw [htype] at hterminal; cases hterminal
  by_cases hlast : request.jobIdString = []
  · refine ⟨if final = .done ∧ request.needStageOut then .stageOut else final,
      (request.updateTerminal event).exitCode, true, ?_, fun _ => ?_, fun h => absurd hlast h⟩
    · rw [hupdateStatus, if_pos hlast, Request.changeStatus, if_pos hvalid, ← hupdate, ← hfinal]
      rfl
    · rw [hupdate]
      cases failed || event.eventType == .failed <;> cases request.needStageOut <;> rfl
  · refine ⟨request.status, (request.updateTerminal event).exitCode, request.unsentStatusChange, ?_,
      fun h => absurd h hlast, fun _ => rfl⟩
    rw [hupdateStatus, if_neg hlast, ← hupdate, ← hfinal]
    rfl

section

variable {noted : Request} (h : Invariant ids needStageOut events request)
  (hnoted : noted = request.noted event (listed (remaining ids (events ++ [event]))))

include h hnoted

/-- An event for one of the ids, with the text that the search leaves. -/
theorem Invariant.step_of_not_terminal (hnodup : ids.Nodup) (hmem : event.jobId ∈ ids)
    (hterminal : event.isTerminal = false) :
    Invariant ids needStageOut (events ++ [event]) (noted.updateStatus event) := by
  subst hnoted
  have hsame : remaining ids (events ++ [event]) = remaining ids events := by
    rw [remaining_append hnodup, hterminal, if_neg (by decide)]
  have hfailed : hasFailed (events ++ [event]) = hasFailed events := by
    rw [hasFailed_append, (Bool.or_eq_false_iff.mp hterminal).2, Bool.or_false]
  obtain ⟨status, unsentStatusChange, hupdate, hopen, hclosed⟩ :=
    @updateStatus_of_not_terminal event (request.noted event _) hterminal
  rw [hupdate]
  refine ⟨⟨rfl, ?_⟩, ?_, h.needStageOut_eq⟩
  · have hsome : events ++ [event] ≠ [] := append_ne_nil_of_right_ne_nil _ (cons_ne_nil _ _)
    have hstatus := h.status
    rw [hsame]
    by_cases hlast : remaining ids events = []
    · -- the job came to its end with an earlier event
      have hevents : events ≠ [] := by
        rintro rfl
        exact absurd (mem_remaining.mpr ⟨hmem, fun _ h => absurd h not_mem_nil⟩) (hlast ▸ not_mem_nil)
      rw [if_pos ⟨hlast, hevents⟩] at hstatus
      rw [if_pos ⟨hlast, hsome⟩, finalStatus, hfailed]
      exact (hclosed (hstatus ▸ finalStatus_not_isOpen events needStageOut)).trans hstatus
    · rw [if_neg fun hnil => hlast hnil.1] at hstatus ⊢
      exact hopen hstatus
  · rw [hfailed]
    exact h.expectedTerminalState

theorem Invariant.step_of_terminal (hids : ∀ id ∈ ids, IsId id) (hin : event.jobId ∈ remaining ids events)
    (hterminal : event.isTerminal = true) :
    Invariant ids needStageOut (events ++ [event]) (noted.updateStatus event) := by
  subst hnoted
  have hstatus := h.status
  rw [if_neg fun hnil => ne_nil_of_mem hin hnil.1] at hstatus
  obtain ⟨status, exitCode, unsentStatusChange, hupdate, hfinal, hsame⟩ :=
    @updateStatus_of_terminal event (request.noted event _) (hasFailed events) hterminal hstatus h.expectedTerminalState
  have hrest : ∀ id ∈ remaining ids (events ++ [event]), IsId id := fun id hid => hids id (mem_remaining.mp hid).1
  rw [hupdate]
  refine ⟨⟨rfl, ?_⟩, ?_, h.needStageOut_eq⟩
  · have hsome : events ++ [event] ≠ [] := append_ne_nil_of_right_ne_nil _ (cons_ne_nil _ _)
    rw [← hasFailed_append, show (request.noted event _).needStageOut = needStageOut from h.needStageOut_eq] at hfinal
    by_cases hlast : remaining ids (events ++ [event]) = []
    · rw [if_pos ⟨hlast, hsome⟩]
      exact hfinal ((listed_eq_nil_iff hrest).mpr hlast)
    · rw [if_neg fun hnil => hlast hnil.1]
      rw [hsame fun hnil => hlast ((listed_eq_nil_iff hrest).mp hnil)]
      exact hstatus
  · rw [hasFailed_append]

end

/-- **One event.** -/
theorem Invariant.step (hnodup : ids.Nodup) (hids : ∀ id ∈ ids, IsId id)
    (h : Invariant ids needStageOut events request) (hevents : EventsFor ids (events ++ [event]))
    (hfirst : FoundFirst (remaining ids events) event.jobId) :
    ∃ request', segHandleEvent 1 request event = some request' ∧
      Invariant ids needStageOut (events ++ [event]) request' := by
  have hmem : event.jobId ∈ ids := hevents.mem event (mem_append_right _ mem_cons_self)
  have hsearch := searchSubjob_of_foundFirst (hids _ hmem) hfirst 0
  rw [← remaining_append hnodup, ← h.jobIdString] at hsearch
  refine ⟨(request.noted event (listed (remaining ids (events ++ [event])))).updateStatus event, ?_, ?_⟩
  · rw [segHandleEvent, hsearch, Option.map_some]
  · cases hterminal : event.isTerminal with
    | false => exact h.step_of_not_terminal rfl hnodup hmem hterminal
    | true =>
      refine h.step_of_terminal rfl hids (mem_remaining.mpr ⟨hmem, fun event' hevent' hterminal' => ?_⟩) hterminal
      exact (pairwise_append.mp hevents.once).2.2 event' hevent' event mem_cons_self hterminal' hterminal

end

/-! ## 7. All events -/

theorem EventsFor.of_isPrefix {before events : List Event} (h : EventsFor ids events)
    (hbefore : before <+: events) : EventsFor ids before :=
  ⟨fun event hevent => h.mem event (hbefore.subset hevent), h.once.sublist hbefore.sublist⟩

theorem segHandleEvents_append (request : Request) (events : List Event) (event : Event) :
    segHandleEvents fuel request (events ++ [event]) =
      (segHandleEvents fuel request events).bind fun request' => segHandleEvent fuel request' event := by
  rw [segHandleEvents, foldlM_append]
  refine congrArg _ (funext fun request' => ?_)
  rw [foldlM_cons]
  exact bind_pure _

/-- **A run in which every id is found: all events are handled as they should be.** -/
theorem invariant_segHandleEvents {request : Request} (hwaits : Waits ids request)
    (events : List Event) (hevents : EventsFor ids events)
    (hfirst : ∀ before event after, events = before ++ event :: after →
      FoundFirst (remaining ids before) event.jobId) : ∃ request', segHandleEvents 1 request events = some request' ∧
      Invariant ids request.needStageOut events request' := by
  induction events using reverseRecOn with
  | nil =>
    have hremaining : remaining ids [] = ids := filter_true ids
    refine ⟨request, rfl, ⟨hremaining.symm ▸ hwaits.jobIdString, ?_⟩, hwaits.expectedTerminalState, rfl⟩
    rw [if_neg fun h => h.2 rfl]
    exact hwaits.status
  | append_singleton events event ih =>
    obtain ⟨request', hrun, hinv⟩ := ih (hevents.of_isPrefix (prefix_append _ _))
      fun before event' after h => hfirst before event' (after ++ [event]) (by rw [h, append_assoc]; rfl)
    obtain ⟨request'', hstep, hinv'⟩ := hinv.step hwaits.nodup hwaits.isId hevents (hfirst events event [] rfl)
    refine ⟨request'', ?_, hinv'⟩
    rw [segHandleEvents_append, hrun]
    exact hstep

/-- **All events are handled, and as they should be, if and only if each time the first id in what is left
of the list that contains the id of the event is this id itself.** -/
theorem segHandleEvents_iff {ids : List (List Char)} {request : Request} {events : List Event}
    (hwaits : Waits ids request) (hevents : EventsFor ids events) :
    (∃ fuel, ∀ before, before <+: events → ∃ request', segHandleEvents fuel request before = some request' ∧
      AsExpected ids request.needStageOut before request') ↔
    ∀ before event after, events = before ++ event :: after →
      FoundFirst (remaining ids before) event.jobId := by
  constructor
  · rintro ⟨fuel, h⟩ before event after rfl
    obtain ⟨request', hrun, hexpected⟩ := h before (prefix_append _ _)
    obtain ⟨request'', hrun', -⟩ := h (before ++ [event]) ⟨after, by rw [append_assoc]; rfl⟩
    rw [segHandleEvents_append, hrun] at hrun'
    obtain ⟨text, hsearch, -⟩ := Option.map_eq_some_iff.mp hrun'
    rw [hexpected.jobIdString] at hsearch
    have hmem := hevents.mem event (mem_append_right _ mem_cons_self)
    exact (exists_searchSubjob_iff (hwaits.isId _ hmem) fun id hid => hwaits.isId id (mem_remaining.mp hid).1).mp
      ⟨fuel, text, hsearch⟩
  · intro hfirst
    refine ⟨1, fun before hbefore => ?_⟩
    obtain ⟨rest, rfl⟩ := hbefore
    obtain ⟨request', hrun, hinv⟩ := invariant_segHandleEvents hwaits before
      (hevents.of_isPrefix (prefix_append _ _))
      fun before' event after h => hfirst before' event (after ++ rest) (by rw [h, append_assoc]; rfl)
    exact ⟨request', hrun, hinv.toAsExpected⟩

/-- The ids `1` and `12`: first `1` is done, then `12`. -/
theorem segHandleEvents_two :
    ∃ fuel, ∀ before, before <+: [⟨.done, ['1'], 0, 0⟩, ⟨.done, ['1', '2'], 0, 0⟩] →
      ∃ request', segHandleEvents fuel ⟨['1', ',', '1', '2'], .pending, .done, 0, 0, false, false⟩ before =
        some request' ∧ AsExpected [['1'], ['1', '2']] false before request' := by
  have hwaits : Waits [['1'], ['1', '2']] ⟨['1', ',', '1', '2'], .pending, .done, 0, 0, false, false⟩ :=
    ⟨by unfold IsId; decide, by decide, by decide, rfl, trivial⟩
  refine (segHandleEvents_iff hwaits ⟨by decide, by decide⟩).mpr ?_
  rintro (_ | ⟨_, _ | ⟨_, before⟩⟩) event after h
  · cases h
    decide
  · cases h
    decide
  · cases before <;> cases h

/-- The ids `12` and `2`: the event for `2` is never handled. -/
theorem segHandleEvent_stuck :
    Waits [['1', '2'], ['2']] ⟨['1', '2', ',', '2'], .pending, .done, 0, 0, false, false⟩ ∧
    EventsFor [['1', '2'], ['2']] [⟨.done, ['2'], 0, 0⟩] ∧
    ∀ fuel, segHandleEvent fuel ⟨['1', '2', ',', '2'], .pending, .done, 0, 0, false, false⟩
      ⟨.done, ['2'], 0, 0⟩ = none := by
  refine ⟨⟨by unfold IsId; decide, by decide, by decide, rfl, trivial⟩, ⟨by decide, by decide⟩, fun fuel => ?_⟩
  have hstuck := @searchSubjob_stuck ⟨.done, ['2'], 0, 0⟩ [] [['2']] ['1', '2'] (by unfold IsId; decide) (by decide)
    (by decide) (by decide) (by decide) fuel
  exact congrArg _ hstuck

end Gct.JobManager
