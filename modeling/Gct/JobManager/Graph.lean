/-
# The graph of the state machine

Which states can be entered from a state, and which scripts started in it: by one round of the state machine
(`State.next`, `State.scripts`) and by what happens outside of its loop (`State.handled`).  Whatever is known
of the runs of the machine is read off this graph; that the code goes along it is proved case by case, with
one rule for each thing a case does (`Follows`).
-/
import Gct.JobManager.Queries

namespace Gct.JobManager

open List Machine State Job

/-! ## 1. The graph -/

/-- The states that one round of the state machine can enter. -/
def State.next : State → List State
  | .start => [.twoPhase]
  | .twoPhase => [.twoPhaseCommitted, .stop, .failed]
  | .twoPhaseCommitted => [.submit, .poll1, .twoPhaseCommitted, .stageIn, .failed]
  | .stageIn => [.failed, .submit, .failedTwoPhaseCommitted]
  | .submit => [.failedTwoPhaseCommitted, .poll1, .failed, .preCloseOutput, .pollQuery1, .poll2]
  | .poll1 => [.failed, .preCloseOutput, .pollQuery1, .poll2, .poll1]
  | .poll2 => [.poll1, .poll2]
  | .pollQuery1 => [.pollQuery2, .poll2]
  | .pollQuery2 => [.poll1, .poll2, .pollQuery1]
  | .twoPhaseQuery1 => [.twoPhaseQuery2, .poll2]
  | .twoPhaseQuery2 => [.twoPhase, .twoPhaseQuery1]
  | .preCloseOutput => [.closeOutput]
  | .failed => [.failedCloseOutput]
  | .twoPhaseEnd => [.twoPhaseEndCommitted, .stop]
  | .failedTwoPhase => [.failedTwoPhaseCommitted, .stop]
  | .twoPhaseEndCommitted => [.fileCleanUp]
  | .failedTwoPhaseCommitted => [.failedFileCleanUp]
  | .fileCleanUp => [.scratchCleanUp, .failedScratchCleanUp]
  | .failedFileCleanUp => [.failedScratchCleanUp]
  | .scratchCleanUp => [.cacheCleanUp]
  | .failedScratchCleanUp => [.failedCacheCleanUp]
  | .cacheCleanUp => [.done]
  | .failedCacheCleanUp => [.failedDone]
  | .done => []
  | .failedDone => []
  | .stop => []
  | .closeOutput => [.failedCloseOutput, .stageOut, .failed]
  | .stageOut => [.failedCloseOutput, .twoPhaseEnd, .failedTwoPhase]
  | .failedCloseOutput => [.failedTwoPhase]

/-- The scripts that one round can start. -/
def State.scripts : State → List Script
  | .twoPhaseCommitted => [.stageIn]
  | .stageIn => [.submit]
  | .poll2 => [.poll]
  | .pollQuery1 | .twoPhaseQuery1 => [.signal, .cancel]
  | .closeOutput => [.stageOut]
  | _ => []

/-- The states that a query, a script or an event of the scheduler can make the machine enter, if no commit
is accepted. -/
def State.handled : State → List State
  | .start => [.failed, .stop]
  | .twoPhase => [.failed, .twoPhaseQuery1, .stop]
  | .twoPhaseQuery1 | .twoPhaseQuery2 => [.stop]
  | .twoPhaseCommitted | .stageIn => [.failed, .stop]
  | .poll2 => [.pollQuery1, .poll1, .poll2, .stop]
  | .submit | .poll1 | .pollQuery1 | .pollQuery2 | .preCloseOutput | .closeOutput | .stageOut => [.stop]
  | .twoPhaseEnd | .stop => [.twoPhaseEndCommitted, .stop]
  | .failedTwoPhase => [.failedTwoPhaseCommitted, .stop]
  | .twoPhaseEndCommitted | .failedTwoPhaseCommitted | .fileCleanUp | .scratchCleanUp | .cacheCleanUp => [.stop]
  | _ => []

/-- Only these states are entered and only these scripts started; nothing is committed. -/
def Action.Within (states : List State) (scripts : List Script) : Action → Prop
  | .entered state => state ∈ states
  | .started script => script ∈ scripts
  | .replied _ _ => True
  | .committed => False

theorem Action.Within.mono {states states' : List State} {scripts scripts' : List Script} {action : Action}
    (hstates : states ⊆ states') (hscripts : scripts ⊆ scripts') (h : action.Within states scripts) :
    action.Within states' scripts' := by
  cases action with
  | entered state => exact hstates h
  | started script => exact hscripts h
  | replied handle code => trivial
  | committed => exact h

/-! ## 2. What a part of a step does -/

/-- `machine'` comes after `machine`, by actions within the lists. -/
structure Follows (states : List State) (scripts : List Script) (machine machine' : Machine) : Prop where
  trace : ∃ new, machine'.trace = machine.trace ++ new ∧ ∀ action ∈ new, action.Within states scripts
  twoPhaseCommit : machine'.job.twoPhaseCommit = machine.job.twoPhaseCommit
  state : machine'.job.jobmanagerState = machine.job.jobmanagerState ∨ machine'.job.jobmanagerState ∈ states

/-- What a round in `state` may do. -/
abbrev Along (state : State) : Machine → Machine → Prop := Follows state.next state.scripts

/-- What may happen outside of the loop. -/
abbrev Handles (machine : Machine) : Machine → Prop := Follows machine.job.jobmanagerState.handled [] machine

variable {registers : Bool} {states states' : List State} {scripts scripts' : List Script} {machine machine' : Machine}
  (job : Job)

/-- What the graph speaks of is the same in both requests. -/
@[simp]
def Job.Agrees (job job' : Job) : Prop :=
  job'.twoPhaseCommit = job.twoPhaseCommit ∧ job'.jobmanagerState = job.jobmanagerState

namespace Follows

theorem refl : Follows states scripts machine machine :=
  ⟨⟨[], (append_nil _).symm, fun _ h => (nomatch h)⟩, rfl, .inl rfl⟩

theorem mono (h : Follows states scripts machine machine') (hstates : states ⊆ states')
    (hscripts : scripts ⊆ scripts') : Follows states' scripts' machine machine' := by
  obtain ⟨new, htrace, hnew⟩ := h.trace
  exact ⟨⟨new, htrace, fun action ha => (hnew action ha).mono hstates hscripts⟩, h.twoPhaseCommit,
    h.state.imp_right fun hs => hstates hs⟩

theorem trans {machine'' : Machine} (h : Follows states scripts machine machine')
    (h' : Follows states scripts machine' machine'') : Follows states scripts machine machine'' := by
  obtain ⟨new, htrace, hnew⟩ := h.trace
  obtain ⟨new', htrace', hnew'⟩ := h'.trace
  refine ⟨⟨new ++ new', by rw [htrace', htrace, append_assoc], ?_⟩, ?_, ?_⟩
  · exact fun action ha => (mem_append.mp ha).elim (hnew action) (hnew' action)
  · exact h'.twoPhaseCommit.trans h.twoPhaseCommit
  · rcases h'.state with hstate | hstate
    · rw [hstate]
      exact h.state
    · exact .inr hstate

variable {last : Machine} (h : Follows states scripts machine machine')

include h

/-- One more action, with the state it leaves. -/
theorem snoc {action : Action} (htrace : last.trace = machine'.trace ++ [action]) (haction : action.Within states scripts)
    (htwo : last.job.twoPhaseCommit = machine'.job.twoPhaseCommit)
    (hstate : last.job.jobmanagerState = machine'.job.jobmanagerState ∨ last.job.jobmanagerState ∈ states) :
    Follows states scripts machine last :=
  h.trans ⟨⟨[action], htrace, forall_mem_singleton.mpr haction⟩, htwo, hstate⟩

/-- No action: only fields of the request or of the machine that do not matter here are changed. -/
theorem same (htrace : last.trace = machine'.trace) (htwo : last.job.twoPhaseCommit = machine'.job.twoPhaseCommit)
    (hstate : last.job.jobmanagerState = machine'.job.jobmanagerState) : Follows states scripts machine last :=
  h.trans ⟨⟨[], by rw [htrace, append_nil], fun _ h => (nomatch h)⟩, htwo, .inl hstate⟩

theorem modify {f : Job → Job} (hf : ∀ job : Job, job.Agrees (f job)) :
    Follows states scripts machine (machine'.modify f) :=
  h.same rfl (hf _).1 (hf _).2

theorem enter {state : State} (hstate : state ∈ states) : Follows states scripts machine (machine'.enter state) :=
  h.snoc rfl hstate rfl (.inr hstate)

theorem go {state : State} (hstate : states.contains state = true) :
    Follows states scripts machine (machine'.enter state) :=
  h.enter (contains_iff_mem.mp hstate)

theorem enter_ite {p : Prop} [Decidable p] {state state' : State} (hstates : (if p then state else state') ∈ states) :
    Follows states scripts machine (if p then machine'.enter state else machine'.enter state') := by
  rw [← apply_ite machine'.enter]
  exact h.enter hstates

theorem register : Follows states scripts machine (machine'.register registers).1 :=
  h.same rfl rfl rfl

theorem queryReply {query : Query} : Follows states scripts machine (machine'.queryReply query) :=
  h.snoc rfl trivial rfl (.inl rfl)

theorem setStatus {status : JobState} : Follows states scripts machine (machine'.setStatus status) :=
  h.same rfl rfl rfl

theorem scriptRun {o : Outcome} {script : Script}
    {query : Option Nat} (hscript : script ∈ scripts) :
    Follows states scripts machine (machine'.scriptRun o script query).1 := by
  rw [Machine.scriptRun]
  split
  · exact h.snoc rfl hscript rfl (.inl rfl)
  · exact h

theorem cancelQueries : Follows states scripts machine machine'.cancelQueries := by
  have hloop : ∀ (queries : List Query) (m : Machine), Follows states scripts machine m → Follows states scripts machine
        (queries.foldl (fun m query => m.queryReply { query with failureCode := jobQueryDenial }) m) := by
    intro queries
    induction queries with
    | nil => exact fun m hm => hm
    | cons query queries ih => exact fun m hm => ih _ hm.queryReply
  exact hloop _ _ (h.same rfl rfl rfl)

theorem contactStateCallback {o : Outcome} {restart : Bool} :
    Follows states scripts machine (machine'.contactStateCallback o restart) := by
  rw [Machine.contactStateCallback]
  split
  · split
    · exact h.register
    · exact h.same rfl rfl rfl
  · exact h

theorem wake : Follows states scripts machine (machine'.wake registers) := by
  rw [Machine.wake]
  split
  · exact h
  · exact h.register

theorem enqueue {query : Query} : Follows states scripts machine (machine'.enqueue query) :=
  h.same rfl rfl rfl

theorem handleSegEvent {fuel : Nat}
    (hlast : machine'.handleSegEvent fuel = some last) : Follows states scripts machine last := by
  rw [Machine.handleSegEvent] at hlast
  split at hlast
  · cases hlast
  · split at hlast
    · obtain ⟨request, -, rfl⟩ := Option.map_eq_some_iff.mp hlast
      exact h.same rfl rfl rfl
    · cases hlast

theorem clearSegEvents {fuel n : Nat}
    (hlast : clearSegEvents fuel n machine' = some last) : Follows states scripts machine last := by
  induction n generalizing machine' with
  | zero =>
    cases hlast
    exact h
  | succ n ih =>
    obtain ⟨next, hnext, hlast⟩ := Option.bind_eq_some_iff.mp hlast
    exact ih (h.handleSegEvent hnext) hlast

theorem replied {handle : Nat} {code : Option Int} :
    Follows states scripts machine (replied handle (machine', code)) := by
  cases code with
  | none => exact h
  | some rc => exact h.snoc rfl trivial rfl (.inl rfl)

end Follows

/-- Whatever a case of the switch gives, it is within the lists. -/
def Keeps (states : List State) (scripts : List Script) (machine : Machine)
    (result : Option (Machine × Bool)) : Prop :=
  ∀ r ∈ result, Follows states scripts machine r.1

theorem keeps_some {registered : Bool}
    (h : Follows states scripts machine machine') : Keeps states scripts machine (some (machine', registered)) := by
  rintro r ⟨⟩
  exact h

theorem keeps_register (h : Follows states scripts machine machine') :
    Keeps states scripts machine (some (machine'.register registers)) :=
  keeps_some h.register

theorem keeps_enter_ite {p : Prop} [Decidable p] {state state' : State}
    (hstates : (if p then state else state') ∈ states) : Keeps states scripts machine
      (if p then some (machine.enter state, false) else some (machine.enter state', false)) := by
  rw [← apply_ite fun state => some (machine.enter state, false)]
  exact keeps_some (.enter .refl hstates)

theorem keeps_none {machine : Machine} : Keeps states scripts machine none :=
  fun _ h => nomatch h

/-- The same for a round in `state`. -/
abbrev KeepsAlong (state : State) : Machine → Option (Machine × Bool) → Prop := Keeps state.next state.scripts

theorem Handles.of_state {state : State} (hstate : machine.job.jobmanagerState = state)
    (h : Follows state.handled [] machine machine') : Handles machine machine' := by
  subst hstate
  exact h

/-! ## 3. The cases of the switch go along the graph -/

section Cases

variable (machine : Machine) (o : Outcome)

theorem keeps_stateStart : KeepsAlong .start machine (machine.stateStart o) := by
  dsimp only [stateStart]
  split
  · exact keeps_register (.go .refl rfl)
  · exact keeps_some (.go .refl rfl)

theorem keeps_stateTwoPhase : KeepsAlong .twoPhase machine (machine.stateTwoPhase o) := by
  rw [stateTwoPhase]
  split
  · exact keeps_register (.modify .refl (by simp))
  · split
    · exact keeps_some (.go .refl rfl)
    · split <;> exact keeps_some (.go (.modify .refl (by simp)) rfl)

/-- If the client has to commit, the machine does not go on by itself. -/
theorem keeps_stateTwoPhase_of_ne_zero (h : machine.job.twoPhaseCommit ≠ 0) :
    Keeps [.stop, .failed] [] machine (machine.stateTwoPhase o) := by
  rw [stateTwoPhase]
  split
  · exact keeps_register (.modify .refl (by simp))
  · split <;> exact keeps_some (.enter (.modify .refl (by simp)) (by simp))

theorem follows_setRestartState : Along .twoPhaseCommitted machine (machine.setRestartState o).1 := by
  rw [setRestartState]
  split
  · split
    · split
      · exact .go (.modify .refl (by simp)) rfl
      · exact .refl
    · exact .refl
  all_goals first
    | exact .go .refl rfl
    | exact .go (.modify .refl (by simp)) rfl
    | exact .refl
    | skip
  -- a failure, as the state file has it or after the commit timed out
  all_goals split_ifs <;> exact .go (.modify .refl (by simp)) rfl

variable {first : Machine}

variable {machine} in
theorem keeps_stageInOrFail (h : Along .twoPhaseCommitted first machine) :
    KeepsAlong .twoPhaseCommitted first (machine.stageInOrFail o) := by
  have hin : Along .twoPhaseCommitted first (machine.enter .stageIn) := .go h rfl
  have hrun : Along .twoPhaseCommitted first
      (((machine.enter .stageIn).setStatus .stageIn).scriptRun o .stageIn none).1 :=
    .scriptRun (.setStatus hin) (by decide)
  dsimp only [stageInOrFail]
  split
  · split
    · exact keeps_some hrun
    · exact keeps_some (.go (.modify hrun (by simp)) rfl)
  · exact keeps_some hin

theorem keeps_stateTwoPhaseCommitted : KeepsAlong .twoPhaseCommitted machine (machine.stateTwoPhaseCommitted o) := by
  dsimp only [stateTwoPhaseCommitted]
  have hrestart := follows_setRestartState machine o
  split
  · split
    · exact keeps_some hrestart
    · exact keeps_stageInOrFail o hrestart
  · exact keeps_stageInOrFail o .refl

variable {machine} in
theorem keeps_submitJob (h : Along .stageIn first machine) : KeepsAlong .stageIn first (machine.submitJob o) := by
  have hsubmit : Along .stageIn first ((machine.modify (submitting o.now)).scriptSubmit o).1 := by
    rw [scriptSubmit]
    split
    · exact Follows.modify h (by simp [submitting])
    · exact .scriptRun (.modify h (by simp [submitting])) (by decide)
  rw [submitJob]
  dsimp only
  split
  · exact keeps_some hsubmit
  · split
    · exact keeps_some (.modify hsubmit (by simp))
    · exact keeps_some (.modify (.go (.modify hsubmit (by simp)) rfl) (by simp))

theorem keeps_stateStageIn : KeepsAlong .stageIn machine (machine.stateStageIn o) := by
  rw [stateStageIn]
  split
  · exact keeps_some (.modify (.go .refl rfl) (by simp [failWith]))
  · split
    · exact keeps_some (.go (.go .refl rfl) rfl)
    · split
      · exact keeps_some (.go (.go .refl rfl) rfl)
      · exact keeps_submitJob o (.go .refl rfl)

theorem agrees_noteStatus : job.Agrees job.noteStatus := by
  rw [noteStatus]
  split <;> exact ⟨rfl, rfl⟩

section Poll

variable {machine} (hstates : [.failed, .preCloseOutput, .pollQuery1, .poll2, .poll1] ⊆ states)
  (h : Follows states scripts first machine) (firstPoll : Bool)

include hstates h

theorem keeps_waitForPoll : Keeps states scripts first (machine.waitForPoll o firstPoll) := by
  have hpoll : Follows states scripts first (machine.enter .poll2) := .enter h (hstates (by simp))
  rw [waitForPoll]
  split
  · exact keeps_some (.enter h (hstates (by simp)))
  · dsimp only
    split
    · exact keeps_register hpoll
    · split
      · split
        · exact keeps_some (.enter hpoll (hstates (by simp)))
        · exact keeps_some hpoll
      · exact keeps_some hpoll

theorem keeps_actOnStatus : Keeps states scripts first (machine.actOnStatus o firstPoll) := by
  have hnote : Follows states scripts first (machine.modify noteStatus) :=
    .modify h agrees_noteStatus
  rw [actOnStatus]
  split
  · exact keeps_some (.enter hnote (hstates (by simp)))
  · split
    · exact keeps_some (.enter hnote (hstates (by simp)))
    · exact keeps_waitForPoll o hstates (.modify hnote (by simp)) firstPoll

theorem keeps_statePoll1 : Keeps states scripts first (machine.statePoll1 o firstPoll) := by
  rw [statePoll1]
  split
  · intro r hr
    obtain ⟨next, hnext, hr⟩ := Option.bind_eq_some_iff.mp hr
    exact keeps_actOnStatus o hstates (h.handleSegEvent hnext) firstPoll r hr
  · exact keeps_actOnStatus o hstates h firstPoll

end Poll

theorem agrees_submitted (registerJobId : Int) (job : Job) : job.Agrees (job.submitted registerJobId) := by
  rw [submitted]
  split_ifs <;> exact ⟨rfl, rfl⟩

theorem keeps_stateSubmit : KeepsAlong .submit machine (machine.stateSubmit o) := by
  rw [stateSubmit]
  split
  · exact keeps_some (.go .refl rfl)
  · exact keeps_statePoll1 o (by decide) (.go (.modify .refl (agrees_submitted o.registerJobId)) rfl) true

theorem follows_scriptPoll (h : Along .poll2 first machine) : Along .poll2 first (machine.scriptPoll o).1 := by
  rw [scriptPoll]
  split
  · split
    · exact .register (.modify h (by simp))
    · exact .register h
  · exact .scriptRun h (by decide)

theorem keeps_statePoll2 : KeepsAlong .poll2 machine (machine.statePoll2 o) := by
  dsimp only [statePoll2]
  split
  · exact keeps_some (follows_scriptPoll _ o (.go .refl rfl))
  · split
    · exact keeps_some (.go .refl rfl)
    · exact keeps_some (.go (.go .refl rfl) rfl)

theorem mem_scriptFor (type : QueryType) : scriptFor type ∈ [Script.signal, Script.cancel] := by
  cases type <;> decide

/-- Both states go to the second one if the script is started, and to `POLL2` if it is not and no query is
left. -/
theorem keeps_stateQuery1
    (hnext : (if machine.job.jobmanagerState = .pollQuery1 then pollQuery2 else .twoPhaseQuery2) ∈ states)
    (hpoll : o.script ≠ 0 → machine.job.pendingQueries.length = 1 → poll2 ∈ states) :
    Keeps states [.signal, .cancel] machine (machine.stateQuery1 o) := by
  dsimp only [stateQuery1]
  split
  · exact keeps_none
  next query queries hqueries =>
    have hrun : Follows states [.signal, .cancel] machine
        (machine.scriptRun o (scriptFor query.type) (some query.handle)).1 :=
      .scriptRun .refl (mem_scriptFor query.type)
    split
    · exact keeps_some (.enter hrun hnext)
    next hrc =>
      split
      next hnil =>
        subst hnil
        refine keeps_some (.enter (.queryReply (.modify hrun (by simp))) (hpoll (fun h => hrc ?_) ?_))
        · rw [Machine.scriptRun, if_pos h]
        · rw [hqueries]
          rfl
      · exact keeps_some (.queryReply (.modify hrun (by simp)))

theorem keeps_stateTwoPhaseQuery2 : KeepsAlong .twoPhaseQuery2 machine (machine.stateTwoPhaseQuery2 o) := by
  dsimp only [stateTwoPhaseQuery2]
  split
  · exact keeps_none
  · split
    · exact keeps_register (.go (.queryReply (.modify .refl (by simp))) rfl)
    · exact keeps_some (.go (.queryReply (.modify .refl (by simp))) rfl)

theorem keeps_statePollQuery2 : KeepsAlong .pollQuery2 machine machine.statePollQuery2 := by
  dsimp only [statePollQuery2]
  split
  · exact keeps_none
  · split_ifs <;> exact keeps_some (.go (.queryReply (.modify .refl (by simp))) rfl)

theorem agrees_saveStatusChange : job.Agrees job.saveStatusChange := by
  rw [saveStatusChange]
  split <;> exact ⟨rfl, rfl⟩

theorem keeps_stateFailed
    (hstates : (if machine.job.jobmanagerState = .preCloseOutput then closeOutput else .failedCloseOutput) ∈
      states) : Keeps states scripts machine machine.stateFailed := by
  have hsave : Follows states scripts machine (machine.modify saveStatusChange) :=
    .modify .refl agrees_saveStatusChange
  refine keeps_some (.cancelQueries ?_)
  rw [← (agrees_saveStatusChange machine.job).2] at hstates
  exact .enter_ite hsave hstates

theorem keeps_stateTwoPhaseEnd (hstop : stop ∈ states)
    (hstates : (if machine.job.jobmanagerState = .twoPhaseEnd then twoPhaseEndCommitted
      else .failedTwoPhaseCommitted) ∈ states) : Keeps states scripts machine (machine.stateTwoPhaseEnd o) := by
  rw [stateTwoPhaseEnd]
  split
  · exact keeps_register (.modify .refl (by simp))
  · split
    · exact keeps_enter_ite hstates
    · exact keeps_some (.enter (.modify .refl (by simp)) hstop)

theorem keeps_stateCloseOutput : KeepsAlong .closeOutput machine (machine.stateCloseOutput o) := by
  have hout : Along .closeOutput machine (machine.enter .stageOut) := .go .refl rfl
  have hrun : Along .closeOutput machine ((machine.enter .stageOut).scriptRun o .stageOut none).1 := .scriptRun hout (by decide)
  dsimp only [stateCloseOutput]
  split
  · exact keeps_some (.go .refl rfl)
  · split
    · split
      · exact keeps_some (.modify hrun (by simp))
      · exact keeps_some (.go (.modify hrun (by simp)) rfl)
    · exact keeps_some (.modify hout (by simp))

variable {machine} in
theorem keeps_stateFailedCloseOutput (h : Follows states scripts first machine)
    (hend : machine.job.jobmanagerState = .stageOut → twoPhaseEnd ∈ states) (hfailed : failedTwoPhase ∈ states) :
    Keeps states scripts first (machine.stateFailedCloseOutput o) := by
  have hnext : Follows states scripts first
      (if machine.job.jobmanagerState = .stageOut then (machine.enter .twoPhaseEnd).setStatus .done
      else (machine.enter .failedTwoPhase).setStatus .failed) := by
    split
    next hstate =>
      exact .setStatus (.enter h (hend hstate))
    · exact .setStatus (.enter h hfailed)
  rw [stateFailedCloseOutput]
  generalize (if machine.job.jobmanagerState = .stageOut then (machine.enter .twoPhaseEnd).setStatus .done
    else (machine.enter .failedTwoPhase).setStatus .failed) = next at hnext ⊢
  split
  · exact keeps_some (.modify (.contactStateCallback (.modify hnext (by simp))) (by simp))
  · exact keeps_some hnext

theorem keeps_stateStageOut : KeepsAlong .stageOut machine (machine.stateStageOut o) := by
  have hend : twoPhaseEnd ∈ next .stageOut := by simp [State.next]
  have hfailed : failedTwoPhase ∈ next .stageOut := by simp [State.next]
  rw [stateStageOut]
  split
  · exact keeps_stateFailedCloseOutput o (.modify (.go .refl rfl) (by simp)) (fun _ => hend) hfailed
  · split
    · exact keeps_stateFailedCloseOutput o (.modify (.go .refl rfl) (by simp)) (fun _ => hend) hfailed
    · exact keeps_stateFailedCloseOutput o .refl (fun _ => hend) hfailed

theorem keeps_stateFileCleanUp (hfailed : failedScratchCleanUp ∈ states)
    (hstates : machine.job.jobmanagerState = .fileCleanUp → scratchCleanUp ∈ states) :
    Keeps states scripts machine machine.stateFileCleanUp := by
  rw [stateFileCleanUp]
  split
  next h =>
    split
    · exact keeps_some (.enter .refl (hstates h))
    · exact keeps_some (.enter .refl hfailed)
  · exact keeps_some (.enter .refl hfailed)

theorem keeps_stateDone : Keeps states scripts machine (machine.stateDone o) := by
  intro r hr
  obtain ⟨last, hlast, rfl⟩ := Option.map_eq_some_iff.mp hr
  exact Follows.clearSegEvents (.modify (.cancelQueries .refl) (by simp)) hlast

/-- **Each round of the state machine goes along the graph.** -/
theorem keeps_stateMachine :
    Keeps machine.job.jobmanagerState.next machine.job.jobmanagerState.scripts machine (machine.stateMachine o) := by
  rw [stateMachine]
  cases hstate : machine.job.jobmanagerState with
  | start => exact keeps_stateStart machine o
  | twoPhase => exact keeps_stateTwoPhase machine o
  | twoPhaseCommitted => exact keeps_stateTwoPhaseCommitted machine o
  | stageIn => exact keeps_stateStageIn machine o
  | submit => exact keeps_stateSubmit machine o
  | poll1 => exact keeps_statePoll1 o (by decide) .refl false
  | poll2 => exact keeps_statePoll2 machine o
  | pollQuery1 | twoPhaseQuery1 =>
    exact keeps_stateQuery1 machine o (by simp [hstate, State.next]) fun _ _ => by simp [State.next]
  | twoPhaseQuery2 => exact keeps_stateTwoPhaseQuery2 machine o
  | pollQuery2 => exact keeps_statePollQuery2 machine
  | preCloseOutput | failed => exact keeps_stateFailed machine (by simp [hstate, State.next])
  | twoPhaseEnd | failedTwoPhase =>
    exact keeps_stateTwoPhaseEnd machine o (by simp [State.next]) (by simp [hstate, State.next])
  | twoPhaseEndCommitted | failedTwoPhaseCommitted | scratchCleanUp | failedScratchCleanUp =>
    exact keeps_enter_ite (by simp [hstate, State.next])
  | fileCleanUp => exact keeps_stateFileCleanUp machine (by simp [State.next]) fun _ => by simp [State.next]
  | failedFileCleanUp => exact keeps_stateFileCleanUp machine (by simp [State.next]) (by simp [hstate])
  | cacheCleanUp | failedCacheCleanUp =>
    exact keeps_some (.cancelQueries (.enter_ite .refl (by simp [hstate, State.next])))
  | stop => exact keeps_some .refl
  | failedDone | done => exact keeps_stateDone machine o
  | closeOutput => exact keeps_stateCloseOutput machine o
  | stageOut => exact keeps_stateStageOut machine o
  | failedCloseOutput =>
    exact keeps_stateFailedCloseOutput o .refl (by simp [hstate]) (by simp [State.next])

end Cases

/-! ## 4. Queries, scripts and events -/

/-- The commit of the client is accepted, and the request goes on. -/
structure Commits (machine machine' : Machine) : Prop where
  trace : ∃ new, machine'.trace = machine.trace ++ .committed :: new
  state : machine'.job.jobmanagerState = .twoPhaseCommitted

section Handlers

variable (machine : Machine) (o : QueryOutcome) (handle : Nat) (afterSignal : List Char)
  (context : ScriptContext) (failureCode : Int) (line : ScriptLine)

theorem follows_cancel (registers : Bool) (handle : Nat) : Handles machine (machine.cancel registers handle).1 := by
  rw [cancel]
  split
  all_goals
    dsimp only
    first
      | exact .refl
      | exact .enqueue .refl
      | exact .of_state ‹_› (.modify (.go .refl rfl) (by simp))
      | exact .of_state ‹_› (.wake (.go (.enqueue .refl) rfl))

theorem follows_signalScript (signal : Signal) (afterSignal : List Char) :
    Handles machine (machine.signalScript o handle signal afterSignal).1 := by
  dsimp only [signalScript]
  split
  · exact .refl
  · split
    · exact .refl
    · split
      · exact .of_state ‹_› (.wake (.go (.enqueue .refl) rfl))
      · split
        · exact .of_state ‹_› (.wake (.go (.enqueue .refl) rfl))
        · exact .enqueue .refl

theorem follows_signalStdioUpdate : Handles machine (machine.signalStdioUpdate o afterSignal).1 := by
  rw [signalStdioUpdate]
  split
  · exact .refl
  · split
    · exact .refl
    · split
      · dsimp only
        exact .modify .refl (by simp)
      · exact .refl

theorem follows_signalCommitEnd : Handles machine (machine.signalCommitEnd o).1 := by
  rw [signalCommitEnd]
  split
  · exact .refl
  · split
    all_goals
      first
        | exact .refl
        | exact .of_state ‹_› (.wake (.go .refl rfl))

theorem follows_signalCommitExtend : Handles machine (machine.signalCommitExtend afterSignal).1 := by
  rw [signalCommitExtend]
  split
  · exact .refl
  · split
    · exact .refl
    · split
      all_goals
        dsimp only
        first
          | exact .refl
          | exact .modify .refl (by simp)

theorem follows_queryStopManager : Handles machine (machine.queryStopManager o).1 := by
  have hfirst : Handles machine (if machine.job.jobmanagerState = .poll2 then machine.wake o.registers else machine) := by
    split
    · exact .wake .refl
    · exact .refl
  have hstate : (if machine.job.jobmanagerState = .poll2 then machine.wake o.registers else machine).job.jobmanagerState
      = machine.job.jobmanagerState := by
    rw [Machine.wake]
    split_ifs <;> rfl
  rw [queryStopManager]
  generalize (if machine.job.jobmanagerState = .poll2 then machine.wake o.registers else machine) = next
    at hfirst hstate ⊢
  split
  all_goals
    first
      | exact hfirst
      | refine .enter (.modify hfirst (by simp)) ?_
        rw [← hstate, ‹next.job.jobmanagerState = _›]
        simp [handled]

theorem signalCommitRequest_cases : Commits machine (replied handle (machine.signalCommitRequest o)) ∨
      Handles machine (machine.signalCommitRequest o).1 := by
  have hcommits : Commits machine
      (replied handle ((machine.commit.enter .twoPhaseCommitted).wake o.registers, some 0)) := by
    rw [Machine.wake]
    split
    · exact ⟨⟨_, by simp only [replied, enter, commit, append_assoc]; rfl⟩, rfl⟩
    · exact ⟨⟨_, by
        simp only [replied, register, Machine.modify, enter, commit, append_assoc]
        rfl⟩, rfl⟩
  rw [signalCommitRequest]
  split
  · exact .inr .refl
  · split
    all_goals first
      | exact .inl hcommits
      | exact .inr .refl

theorem signal_cases (signal : Option Signal) (afterSignal : List Char) :
    Commits machine (replied handle (machine.signal o handle signal afterSignal)) ∨
      Handles machine (machine.signal o handle signal afterSignal).1 := by
  cases signal with
  | none => exact .inr .refl
  | some signal =>
    cases signal with
    | stdioUpdate => exact .inr (follows_signalStdioUpdate machine o afterSignal)
    | cancel | suspend | resume | priority => exact .inr (follows_signalScript machine o handle _ afterSignal)
    | commitEnd => exact .inr (follows_signalCommitEnd machine o)
    | commitExtend => exact .inr (follows_signalCommitExtend machine afterSignal)
    | stdioSize | unknown => exact .inr .refl
    | stopManager => exact .inr (follows_queryStopManager machine o)
    | commitRequest => exact signalCommitRequest_cases machine o handle

theorem follows_unregister (url : List Char) : Handles machine (machine.unregister o url).1 := by
  dsimp only [unregister]
  split
  · exact .refl
  · split
    · exact .refl
    · have hremove : Handles machine (machine.modify fun job =>
          { job with clientContacts := job.clientContacts.eraseP (·.1 = url) }) := .modify .refl (by simp)
      split
      · have hend := follows_signalCommitEnd (machine.modify fun job =>
          { job with clientContacts := job.clientContacts.eraseP (·.1 = url) }) o
        exact hremove.trans hend
      · exact hremove

theorem follows_registerContact (args : Option (List Char × Int32)) :
    Handles machine (machine.registerContact args).1 := by
  unfold registerContact
  split
  · exact .refl
  · split
    · exact .refl
    · exact .same .refl rfl rfl rfl

/-- A line of output does not touch the state. -/
theorem agrees_defaultDone (startingState : State) (line : ScriptLine) :
    job.Agrees (job.defaultDone startingState line) := by
  cases line with
  | jobState status =>
    cases status with
    | none => exact ⟨rfl, rfl⟩
    | some status =>
      rw [defaultDone]
      split <;> exact ⟨rfl, rfl⟩
  | error | jobId | stagedOut | stagedStream | unknown =>
    rw [defaultDone]
    split <;> exact ⟨rfl, rfl⟩
  | stagedIn | stagedInShared | log | info => exact ⟨rfl, rfl⟩

theorem agrees_queryDone : job.Agrees (job.queryDone handle line) := by
  cases line with
  | jobState status =>
    cases status with
    | none => exact ⟨rfl, rfl⟩
    | some status =>
      dsimp only [queryDone]
      split
      · exact ⟨rfl, rfl⟩
      · split_ifs <;> exact ⟨rfl, rfl⟩
  | _ => exact ⟨rfl, rfl⟩

theorem follows_scriptLine : Handles machine (machine.scriptLine context failureCode line) := by
  have hfields : ∀ job : Job, job.Agrees (if failureCode = 0 then job else { job with failureCode }) := by
    intro job
    split <;> exact ⟨rfl, rfl⟩
  refine .modify .refl fun job => ?_
  dsimp only
  split
  · exact (agrees_defaultDone _ _ _).imp (·.trans (hfields job).1) (·.trans (hfields job).2)
  · exact (agrees_queryDone _ _ _).imp (·.trans (hfields job).1) (·.trans (hfields job).2)

theorem follows_scriptDone (registers : Bool) : Handles machine (machine.scriptDone context failureCode registers) := by
  have herase : Handles machine
      { machine with scripts := machine.scripts.erase context } := .same .refl rfl rfl rfl
  rw [scriptDone]
  refine .register (.modify herase fun job => ?_)
  split <;> exact ⟨rfl, rfl⟩

theorem follows_deliverEvent (event : Event) (registers : Bool) :
    Handles machine (machine.deliverEvent event registers) := by
  dsimp only [deliverEvent]
  split
  next hstate =>
    refine .of_state hstate ?_
    have hpoll : Follows (handled .poll2) [] machine
        (((machine.modify fun job => { job with segEventQueue := job.segEventQueue ++ [event] }).enter
          .poll1).register registers).1 :=
      .register (.go (.modify .refl (by simp)) rfl)
    split
    · exact hpoll
    · exact .go hpoll rfl
  · exact .modify .refl (by simp)

theorem follows_stopAllJobs (registers : Bool) : Handles machine (machine.stopAllJobs registers) := by
  dsimp only [stopAllJobs]
  split
  all_goals first
    | exact .modify .refl (by simp)
    | exact .of_state ‹_› (.go (.modify .refl (by simp)) rfl)
    | exact .of_state ‹_› (.modify (.go (.modify .refl (by simp)) rfl) (by simp))
    | exact .of_state ‹_› (.register (.modify (.go (.modify .refl (by simp)) rfl) (by simp)))

/-- **Whatever happens outside of the loop is a commit, or goes along the edges of `State.handled`.** -/
theorem handle_cases {machine machine' : Machine} {input : Input} (h : machine.handle input = some machine') :
    Commits machine machine' ∨ Handles machine machine' := by
  cases input with
  | round o => cases h
  | callback | callbacksDone =>
    rw [handle] at h
    split at h
    · cases h
      exact .inr (.same .refl rfl rfl rfl)
    · cases h
  | cancel registers handle =>
    cases h
    exact .inr (.replied (follows_cancel machine registers handle))
  | signal o handle signal afterSignal =>
    cases h
    exact (signal_cases machine o handle signal afterSignal).imp_right fun hfollows => .replied hfollows
  | register handle args =>
    cases h
    exact .inr (.replied (follows_registerContact machine args))
  | unregister o handle url =>
    cases h
    exact .inr (.replied (follows_unregister machine o url))
  | scriptLine context failureCode line =>
    rw [handle] at h
    split at h
    · cases h
      exact .inr (follows_scriptLine machine context failureCode line)
    · cases h
  | scriptDone context failureCode registers =>
    rw [handle] at h
    split at h
    · cases h
      exact .inr (follows_scriptDone machine context failureCode registers)
    · cases h
  | deliverEvent event registers =>
    cases h
    exact .inr (follows_deliverEvent machine event registers)
  | stopAllJobs registers =>
    cases h
    exact .inr (follows_stopAllJobs machine registers)

end Handlers

end Gct.JobManager
