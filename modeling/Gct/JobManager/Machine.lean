/-
# The state machine of the job manager

`globus_l_gram_job_manager_state_machine` looks at the state of a request, does what is due in it and sets
the next state; it says whether something is registered that will call it again, and the callback goes on
in a loop as long as nothing is.  A machine here is a request together with what is under way for it and a
log of what happened: the states that were entered, the scripts that were started, the replies, and the
commit of the client.  Each case of the switch is one function from a machine to the next; what the world
answers in it (a script that cannot be started, a timer that cannot be registered) is an `Outcome`.
-/
import Gct.JobManager.Seg

namespace Gct.JobManager

/-! ## 1. Requests -/

/-- `globus_gram_job_manager_query_type_t` -/
inductive QueryType where
  | cancel
  | signal
  deriving DecidableEq, Repr

/-- The signals of the protocol, `GLOBUS_GRAM_PROTOCOL_JOB_SIGNAL_*`. -/
inductive Signal where
  | cancel
  | suspend
  | resume
  | priority
  | commitRequest
  | commitExtend
  | stdioUpdate
  | stdioSize
  | stopManager
  | commitEnd
  | unknown
  deriving DecidableEq, Repr

/-- `globus_gram_job_manager_query_t`: a query that waits for its script. -/
structure Query where
  type : QueryType
  handle : Nat
  signal : Option Signal
  failureCode : Int
  deriving DecidableEq, Repr

/-- The codes `GLOBUS_GRAM_PROTOCOL_ERROR_*` that the state machine and the queries use. -/
def userCancelled : Int := 8
def invalidScriptStatus : Int := 25
def dryrun : Int := 41
def stagingExecutable : Int := 43
def stagingStdin : Int := 44
def openingStdout : Int := 73
def openingStderr : Int := 74
def clientContactNotFound : Int := 78
def httpUnpackFailed : Int := 91
def jobQueryDenial : Int := 94
def unknownSignalType : Int := 108
def commitTimedOut : Int := 111
def submitUnknown : Int := 126
def jmStopped : Int := 130
def userProxyExpired : Int := 131
def invalidCommit : Int := 133
def stageInFailed : Int := 135
def stageOutFailed : Int := 155

/-- The files that are still to be staged, each with the source and the destination. -/
structure Todo where
  stageIn : List (List Char × List Char)
  stageInShared : List (List Char × List Char)
  stageOut : List (List Char × List Char)
  stageStream : List (List Char × List Char)
  deriving DecidableEq, Repr

/-- What the state machine and the queries read and write of `globus_gram_jobmanager_request_t`. -/
structure Job extends Request where
  jobmanagerState : State
  restartState : State
  twoPhaseCommit : Int32
  commitExtend : Int32
  dryRun : Bool
  /-- `jm_restart` is not `NULL`. -/
  jmRestart : Bool
  failureCode : Int
  stopReason : Int
  /-- `job_id_string` is not `NULL`; its text is `jobIdString`. -/
  hasJobId : Bool
  todo : Todo
  pendingQueries : List Query
  segEventQueue : List Event
  clientContacts : List (List Char × Int32)
  jobHistoryStatus : JobState
  /-- `poll_timer` is a handle: the callback of the state machine is registered. -/
  pollTimer : Bool
  /-- `globus_gram_job_manager_rsl_need_stage_in` of its RSL -/
  needStageIn : Bool
  /-- `config->seg_module` is not `NULL`. -/
  segModule : Bool
  jobmanagerType : List Char
  /-- `manager->seg_started` -/
  segStarted : Bool
  deriving DecidableEq, Repr

/-- A change that was not sent goes to the state file; the staging of output is told to the clients. -/
def Job.saveStatusChange (job : Job) : Job :=
  if job.unsentStatusChange then
    { job with
      restartState := job.jobmanagerState
      unsentStatusChange := if job.status = .stageOut then false else job.unsentStatusChange }
  else job

/-- A failure code that is there already is kept. -/
def Job.failWith (code : Int) (job : Job) : Job :=
  { job with failureCode := if job.failureCode = 0 then code else job.failureCode }

/-- What is noted in the state file before a job is submitted. -/
def Job.submitting (now : Int) (job : Job) : Job := { job with restartState := .submit, segLastTimestamp := now }

/-- What the submit script has left: it gave an id, and the id could be registered. -/
def Job.submitted (registerJobId : Int) (job : Job) : Job :=
  let job :=
    if job.hasJobId = false then { job.failWith submitUnknown with status := .failed, unsentStatusChange := true }
    else if registerJobId ≠ 0 then
      { job with failureCode := registerJobId, status := .failed, unsentStatusChange := true }
    else job
  { job with jobHistoryStatus := job.status, restartState := .poll1 }

/-- A change that was not sent goes to the state file and to the history file. -/
def Job.noteStatus (job : Job) : Job :=
  if job.unsentStatusChange then { job with restartState := job.jobmanagerState, jobHistoryStatus := job.status }
  else job

/-! ## 2. Machines -/

/-- The scripts that are run for a request. -/
inductive Script where
  | stageIn
  | submit
  | poll
  | cancel
  | signal
  | stageOut
  deriving DecidableEq, Repr

/-- What happened to a request. -/
inductive Action where
  | entered (state : State)
  | started (script : Script)
  | replied (handle : Nat) (code : Int)
  | committed
  deriving DecidableEq, Repr

/-- `globus_gram_job_manager_script_context_t`: a script that runs, the state it was started in, and the
handle of the query it is for. -/
structure ScriptContext where
  script : Script
  startingState : State
  query : Option Nat
  deriving DecidableEq, Repr

/-- A request, with what is under way for it and what happened. -/
structure Machine where
  job : Job
  /-- The callback is in its loop and has the request locked. -/
  looping : Bool
  scripts : List ScriptContext
  /-- State callbacks are under way, and the state machine is registered when they are done. -/
  restartWhenDone : Bool
  trace : List Action
  deriving DecidableEq, Repr

/-- What the calls of one run through the switch give. -/
structure Outcome where
  /-- `globus_gram_job_manager_state_machine_register` succeeds. -/
  registers : Bool
  /-- what starting a script returns -/
  script : Int
  /-- the status found by `globus_gram_job_manager_script_poll_fast` -/
  pollFast : Option JobState
  /-- the id found by `globus_gram_job_manager_seg_parse_condor_id` -/
  condorId : Option (List Char)
  /-- what `globus_gram_job_manager_register_job_id` returns -/
  registerJobId : Int
  /-- the time -/
  now : Int
  /-- rounds in which the handler of scheduler events finds an id -/
  fuel : Nat

/-- Everything succeeds. -/
def Outcome.success : Outcome where
  registers := true
  script := 0
  pollFast := none
  condorId := none
  registerJobId := 0
  now := 0
  fuel := 1

namespace Machine

variable (machine : Machine)

/-- The assignment to `jobmanager_state`. -/
def enter (state : State) : Machine :=
  { machine with job.jobmanagerState := state, trace := machine.trace ++ [.entered state] }

/-- Assignments to other fields. -/
def modify (f : Job → Job) : Machine := { machine with job := f machine.job }

/-- `globus_gram_job_manager_request_set_status` -/
def setStatus (status : JobState) : Machine := machine.modify ({ · with status })

/-- `globus_gram_job_manager_state_machine_register`: whether it succeeds, it leaves a timer that is
already there. -/
def register (registers : Bool) : Machine × Bool :=
  (machine.modify fun job => { job with pollTimer := job.pollTimer || registers }, registers)

/-- `globus_l_gram_job_manager_script_run` -/
def scriptRun (o : Outcome) (script : Script) (query : Option Nat) : Machine × Int :=
  if o.script = 0 then
    ({ machine with
       scripts := ⟨script, machine.job.jobmanagerState, query⟩ :: machine.scripts
       trace := machine.trace ++ [.started script] }, 0)
  else (machine, o.script)

/-- `globus_gram_job_manager_query_reply` -/
def queryReply (query : Query) : Machine :=
  let code :=
    if (query.type = .cancel ∨ query.signal = some .cancel) ∧ query.failureCode = userCancelled then 0
    else query.failureCode
  { machine with trace := machine.trace ++ [.replied query.handle code] }

/-- `globus_l_gram_job_manager_cancel_queries`, and the same loop when a job fails. -/
def cancelQueries : Machine :=
  machine.job.pendingQueries.foldl (fun m query => m.queryReply { query with failureCode := jobQueryDenial })
    (machine.modify ({ · with pendingQueries := [] }))

/-- `globus_gram_job_manager_contact_state_callback`, as far as it calls the state machine again -/
def contactStateCallback (o : Outcome) (restartWhenDone : Bool) : Machine :=
  if restartWhenDone then
    if machine.job.clientContacts.isEmpty then (machine.register o.registers).1
    else { machine with restartWhenDone := true }
  else machine

/-- `globus_gram_job_manager_seg_handle_event` on the first event of the queue: there is no result if the
handler does not come to an end, or if the text it searches is `NULL`. -/
def handleSegEvent (fuel : Nat) : Option Machine :=
  match machine.job.segEventQueue with
  | [] => none
  | event :: events =>
    if machine.job.hasJobId then
      (segHandleEvent fuel machine.job.toRequest event).map fun request =>
        machine.modify ({ · with toRequest := request, segEventQueue := events })
    else none

/-- The events that are left are handled, one after the other. -/
def clearSegEvents (fuel : Nat) : Nat → Machine → Option Machine
  | 0, machine => some machine
  | n + 1, machine => machine.handleSegEvent fuel >>= clearSegEvents fuel n

end Machine

/-! ## 3. The cases of the switch

The result is the machine and `event_registered`; there is none where the program would follow a `NULL`
pointer or not come to an end. -/

namespace Machine

variable (machine : Machine) (o : Outcome) (firstPoll : Bool)

def stateStart : Option (Machine × Bool) :=
  let machine := machine.enter .twoPhase
  if machine.job.dryRun = false ∧ machine.job.twoPhaseCommit ≠ 0 then some (machine.register o.registers)
  else some (machine, false)

def stateTwoPhase : Option (Machine × Bool) :=
  if machine.job.twoPhaseCommit ≠ 0 ∧ machine.job.commitExtend ≠ 0 then
    some ((machine.modify ({ · with commitExtend := 0 })).register o.registers)
  else if machine.job.twoPhaseCommit = 0 then some (machine.enter .twoPhaseCommitted, false)
  else if machine.job.jmRestart then
    some ((machine.modify ({ · with pollTimer := false, stopReason := commitTimedOut })).enter .stop, false)
  else
    some ((machine.modify
      ({ · with pollTimer := false, failureCode := commitTimedOut, unsentStatusChange := true })).enter .failed,
      false)

/-- `globus_l_gram_job_manager_set_restart_state`: the state a restarted job goes on in, and whether it is
changed. -/
def setRestartState : Machine × Bool :=
  match machine.job.restartState with
  | .submit =>
    if machine.job.jobmanagerType = "condor".toList then
      match o.condorId with
      | some id =>
        ((machine.modify ({ · with jobIdString := id, hasJobId := true, status := .pending })).enter .submit, true)
      | none => (machine, false)
    else (machine, false)
  | .pollQuery1 | .pollQuery2 | .poll1 | .poll2 => (machine.enter .submit, true)
  | .failed | .failedTwoPhase =>
    if machine.job.failureCode = stageOutFailed ∨ machine.job.failureCode = openingStdout ∨
        machine.job.failureCode = openingStderr then
      ((machine.modify ({ · with failureCode := 0, status := .stageOut, unsentStatusChange := true })).enter .poll1,
        true)
    else if machine.job.failureCode = stagingExecutable ∨ machine.job.failureCode = stagingStdin ∨
        machine.job.failureCode = stageInFailed then
      ((machine.modify ({ · with failureCode := 0, status := .unsubmitted, unsentStatusChange := true })).enter
        .twoPhaseCommitted, true)
    else
      -- the flag is not set here, so the caller goes on to stage in
      ((machine.modify ({ · with status := .failed, unsentStatusChange := true })).enter .poll1, false)
  | .closeOutput | .preCloseOutput | .stageOut | .twoPhaseEnd | .twoPhaseEndCommitted =>
    ((machine.modify ({ · with status := .done, unsentStatusChange := true })).enter .poll1, true)
  | _ => (machine, false)

def stageInOrFail : Option (Machine × Bool) :=
  let machine := machine.enter .stageIn
  if machine.job.needStageIn then
    let (machine, rc) := (machine.setStatus .stageIn).scriptRun o .stageIn none
    if rc = 0 then some (machine, true)
    else some ((machine.modify ({ · with failureCode := rc })).enter .failed, false)
  else some (machine, false)

def stateTwoPhaseCommitted : Option (Machine × Bool) :=
  if machine.job.jmRestart then
    let (machine, changed) := machine.setRestartState o
    if changed then some (machine, false) else machine.stageInOrFail o
  else machine.stageInOrFail o

/-- `globus_gram_job_manager_script_submit` -/
def scriptSubmit : Machine × Int :=
  if machine.job.dryRun then (machine, dryrun) else machine.scriptRun o .submit none

/-- The job is submitted, or has failed. -/
def submitJob : Option (Machine × Bool) :=
  let (machine, rc) := (machine.modify (Job.submitting o.now)).scriptSubmit o
  if rc = 0 then some (machine, true)
  else
    let machine := machine.modify ({ · with failureCode := rc, status := .failed })
    if machine.job.dryRun then some (machine, false)
    else some ((machine.enter .failed).modify ({ · with unsentStatusChange := true }), false)

def stateStageIn : Option (Machine × Bool) :=
  if machine.job.todo.stageIn ≠ [] ∨ machine.job.todo.stageInShared ≠ [] then
    some ((machine.enter .failed).modify (Job.failWith stageInFailed), false)
  else if machine.job.status = .failed ∧ machine.job.dryRun then
    some ((machine.enter .submit).enter .failedTwoPhaseCommitted, false)
  else if machine.job.status = .failed then some ((machine.enter .submit).enter .failed, false)
  else (machine.enter .submit).submitJob o

/-- In `POLL1`, a job that goes on: the queries are next, or the next poll. -/
def waitForPoll : Option (Machine × Bool) :=
  if machine.job.pendingQueries ≠ [] then some (machine.enter .pollQuery1, false)
  else
    let machine := machine.enter .poll2
    if firstPoll = false ∧ machine.job.segStarted = false then some (machine.register o.registers)
    else if machine.job.segStarted then
      if machine.job.segEventQueue ≠ [] then some (machine.enter .poll1, false) else some (machine, true)
    else some (machine, false)

/-- What follows the event from the scheduler in the state `POLL1`. -/
def actOnStatus : Option (Machine × Bool) :=
  let machine := machine.modify Job.noteStatus
  if machine.job.status = .failed then some (machine.enter .failed, false)
  else if machine.job.status = .done ∨ machine.job.status = .stageOut then
    some (machine.enter .preCloseOutput, false)
  else (machine.modify ({ · with unsentStatusChange := false })).waitForPoll o firstPoll

def statePoll1 : Option (Machine × Bool) :=
  if machine.job.segEventQueue ≠ [] then
    machine.handleSegEvent o.fuel >>= fun machine => machine.actOnStatus o firstPoll
  else machine.actOnStatus o firstPoll

def stateSubmit : Option (Machine × Bool) :=
  if machine.job.status = .failed ∧ machine.job.dryRun then some (machine.enter .failedTwoPhaseCommitted, false)
  else
    -- falls through, to act on a status the submit script has told
    ((machine.modify (Job.submitted o.registerJobId)).enter .poll1).statePoll1 o true

/-- `globus_gram_job_manager_script_poll` -/
def scriptPoll : Machine × Int :=
  match o.pollFast with
  | some status =>
    let machine :=
      if machine.job.status ≠ status then machine.modify ({ · with status, unsentStatusChange := true }) else machine
    ((machine.register o.registers).1, 0)
  | none => machine.scriptRun o .poll none

def statePoll2 : Option (Machine × Bool) :=
  let machine := machine.enter .poll1
  if machine.job.segModule = false ∧ machine.job.jobmanagerType ≠ "fork".toList ∧
      machine.job.jobmanagerType ≠ "condor".toList then
    let (machine, rc) := machine.scriptPoll o
    some (machine, rc = 0)
  else if machine.job.segEventQueue ≠ [] then some (machine, false)
  else some (machine.enter .poll2, true)

/-- The script for a query. -/
def scriptFor : QueryType → Script
  | .signal => .signal
  | .cancel => .cancel

/-- The states `POLL_QUERY1` and `TWO_PHASE_QUERY1`, which share their code. -/
def stateQuery1 : Option (Machine × Bool) :=
  let nextState := if machine.job.jobmanagerState = .pollQuery1 then .pollQuery2 else .twoPhaseQuery2
  match machine.job.pendingQueries with
  | [] => none
  | query :: queries =>
    let (machine, rc) := machine.scriptRun o (scriptFor query.type) (some query.handle)
    if rc = 0 then some (machine.enter nextState, true)
    else
      let machine := (machine.modify ({ · with pendingQueries := queries })).queryReply
        { query with failureCode := rc }
      if queries = [] then some (machine.enter .poll2, false) else some (machine, false)

def stateTwoPhaseQuery2 : Option (Machine × Bool) :=
  match machine.job.pendingQueries with
  | [] => none
  | query :: queries =>
    let machine := (machine.modify ({ · with pendingQueries := queries })).queryReply query
    if queries = [] then some ((machine.enter .twoPhase).register o.registers)
    else some (machine.enter .twoPhaseQuery1, false)

def statePollQuery2 : Option (Machine × Bool) :=
  match machine.job.pendingQueries with
  | [] => none
  | query :: queries =>
    let machine := (machine.modify ({ · with pendingQueries := queries })).queryReply query
    if queries = [] ∧ (machine.job.unsentStatusChange ∨ machine.job.segEventQueue ≠ []) then
      some (machine.enter .poll1, false)
    else if queries = [] then some (machine.enter .poll2, false)
    else some (machine.enter .pollQuery1, false)

/-- `PRE_CLOSE_OUTPUT` and `FAILED` -/
def stateFailed : Option (Machine × Bool) :=
  let machine := machine.modify Job.saveStatusChange
  let machine := if machine.job.jobmanagerState = .preCloseOutput then machine.enter .closeOutput
    else machine.enter .failedCloseOutput
  some (machine.cancelQueries, false)

/-- `TWO_PHASE_END` and `FAILED_TWO_PHASE` -/
def stateTwoPhaseEnd : Option (Machine × Bool) :=
  if machine.job.twoPhaseCommit ≠ 0 ∧ machine.job.commitExtend ≠ 0 ∧ machine.job.failureCode ≠ commitTimedOut then
    some ((machine.modify ({ · with commitExtend := 0 })).register o.registers)
  else if machine.job.twoPhaseCommit = 0 ∨ machine.job.clientContacts = [] ∨
      machine.job.failureCode = commitTimedOut then
    if machine.job.jobmanagerState = .twoPhaseEnd then some (machine.enter .twoPhaseEndCommitted, false)
    else some (machine.enter .failedTwoPhaseCommitted, false)
  else
    some ((machine.modify fun job =>
      { job with restartState := job.jobmanagerState, stopReason := commitTimedOut }).enter .stop, true)

/-- `TWO_PHASE_END_COMMITTED` and `FAILED_TWO_PHASE_COMMITTED` -/
def stateTwoPhaseEndCommitted : Option (Machine × Bool) :=
  if machine.job.jobmanagerState = .twoPhaseEndCommitted then some (machine.enter .fileCleanUp, false)
  else some (machine.enter .failedFileCleanUp, false)

/-- `FILE_CLEAN_UP` and `FAILED_FILE_CLEAN_UP` -/
def stateFileCleanUp : Option (Machine × Bool) :=
  if machine.job.jobmanagerState = .fileCleanUp then
    if machine.job.status ≠ .failed then some (machine.enter .scratchCleanUp, false)
    else some (machine.enter .failedScratchCleanUp, false)
  else some (machine.enter .failedScratchCleanUp, false)

/-- `SCRATCH_CLEAN_UP` and `FAILED_SCRATCH_CLEAN_UP` -/
def stateScratchCleanUp : Option (Machine × Bool) :=
  if machine.job.jobmanagerState = .scratchCleanUp then some (machine.enter .cacheCleanUp, false)
  else some (machine.enter .failedCacheCleanUp, false)

/-- `CACHE_CLEAN_UP` and `FAILED_CACHE_CLEAN_UP` -/
def stateCacheCleanUp : Option (Machine × Bool) :=
  let machine :=
    if machine.job.jobmanagerState = .cacheCleanUp then machine.enter .done else machine.enter .failedDone
  some (machine.cancelQueries, false)

/-- `DONE` and `FAILED_DONE` -/
def stateDone : Option (Machine × Bool) :=
  let machine := machine.cancelQueries.modify fun job => { job with restartState := job.jobmanagerState }
  (clearSegEvents o.fuel machine.job.segEventQueue.length machine).map fun machine => (machine, true)

def stateCloseOutput : Option (Machine × Bool) :=
  if machine.job.status = .failed ∧ machine.job.failureCode = stageOutFailed then
    some (machine.enter .failedCloseOutput, false)
  else
    let machine := machine.enter .stageOut
    if machine.job.todo.stageStream ≠ [] ∨ machine.job.todo.stageOut ≠ [] then
      let (machine, rc) := machine.scriptRun o .stageOut none
      if rc = 0 then some (machine.modify ({ · with unsentStatusChange := true }), true)
      else some ((machine.modify ({ · with failureCode := rc })).enter .failed, false)
    else some (machine.modify ({ · with unsentStatusChange := true }), false)

/-- The state `FAILED_CLOSE_OUTPUT`, also entered from `STAGE_OUT`. -/
def stateFailedCloseOutput : Option (Machine × Bool) :=
  let machine :=
    if machine.job.jobmanagerState = .stageOut then (machine.enter .twoPhaseEnd).setStatus .done
    else (machine.enter .failedTwoPhase).setStatus .failed
  if machine.job.unsentStatusChange then
    let machine := machine.modify fun job => { job with jobHistoryStatus := job.status }
    let twoPhase := machine.job.twoPhaseCommit ≠ 0
    some ((machine.contactStateCallback o twoPhase).modify ({ · with unsentStatusChange := false }), twoPhase)
  else some (machine, false)

def stateStageOut : Option (Machine × Bool) :=
  if machine.job.todo.stageStream ≠ [] then
    ((machine.enter .failedCloseOutput).modify fun job =>
      { job with
        failureCode := if job.failureCode = 0 ∨ job.failureCode = stageOutFailed then openingStdout
          else job.failureCode }).stateFailedCloseOutput o
  else if machine.job.todo.stageOut ≠ [] then
    ((machine.enter .failedCloseOutput).modify fun job =>
      { job with
        failureCode := if job.failureCode = 0 then stageOutFailed else job.failureCode }).stateFailedCloseOutput o
  else machine.stateFailedCloseOutput o

/-- `globus_l_gram_job_manager_state_machine` -/
def stateMachine : Option (Machine × Bool) :=
  match machine.job.jobmanagerState with
  | .start => machine.stateStart o
  | .twoPhase => machine.stateTwoPhase o
  | .twoPhaseCommitted => machine.stateTwoPhaseCommitted o
  | .stageIn => machine.stateStageIn o
  | .submit => machine.stateSubmit o
  | .poll1 => machine.statePoll1 o false
  | .poll2 => machine.statePoll2 o
  | .pollQuery1 | .twoPhaseQuery1 => machine.stateQuery1 o
  | .twoPhaseQuery2 => machine.stateTwoPhaseQuery2 o
  | .pollQuery2 => machine.statePollQuery2
  | .preCloseOutput | .failed => machine.stateFailed
  | .twoPhaseEnd | .failedTwoPhase => machine.stateTwoPhaseEnd o
  | .twoPhaseEndCommitted | .failedTwoPhaseCommitted => machine.stateTwoPhaseEndCommitted
  | .fileCleanUp | .failedFileCleanUp => machine.stateFileCleanUp
  | .scratchCleanUp | .failedScratchCleanUp => machine.stateScratchCleanUp
  | .cacheCleanUp | .failedCacheCleanUp => machine.stateCacheCleanUp
  | .stop => some (machine, true)
  | .failedDone | .done => machine.stateDone o
  | .closeOutput => machine.stateCloseOutput o
  | .stageOut => machine.stateStageOut o
  | .failedCloseOutput => machine.stateFailedCloseOutput o

end Machine

end Gct.JobManager
