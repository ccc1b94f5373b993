/-
# Queries, scripts and timers

What moves the state machine of a request: the queries of the clients (`globus_l_gram_job_manager_cancel`,
`globus_l_gram_job_manager_signal` and the others), the output of scripts, events of the scheduler, the
timers.  Each of them takes the lock of the request, and so does the callback of the state machine for all
rounds of its loop; a step of the system is one round of the loop, or one of the others when the loop is
not under way.
-/
import Gct.JobManager.Machine
import Gct.Lib.Text

namespace Gct.JobManager

namespace Machine

/-! ## 1. Queries

A handler gives the machine and the code that is replied; there is none if the reply is sent when the
script for the query is done. -/

/-- The timer is set to expire at once, or the state machine is registered. -/
def wake (machine : Machine) (registers : Bool) : Machine :=
  if machine.job.pollTimer then machine else (machine.register registers).1

/-- `globus_fifo_enqueue` to the pending queries -/
def enqueue (machine : Machine) (query : Query) : Machine :=
  machine.modify fun job => { job with pendingQueries := job.pendingQueries ++ [query] }

/-- `globus_l_gram_job_manager_cancel` -/
def cancel (machine : Machine) (registers : Bool) (handle : Nat) : Machine × Option Int :=
  match machine.job.jobmanagerState with
  | .start => ((machine.enter .failed).modify ({ · with status := .failed, failureCode := userCancelled }), some 0)
  | .twoPhase | .twoPhaseCommitted | .stageIn =>
    ((machine.enter .failed).modify
      ({ · with status := .failed, failureCode := userCancelled, unsentStatusChange := true }), some 0)
  | .submit | .poll1 | .pollQuery1 | .pollQuery2 => (machine.enqueue ⟨.cancel, handle, none, 0⟩, none)
  | .poll2 => (((machine.enqueue ⟨.cancel, handle, none, 0⟩).enter .pollQuery1).wake registers, none)
  | _ => (machine, some jobQueryDenial)

end Machine

/-- `globus_l_gram_job_manager_query_valid` -/
def State.queryValid : State → Bool
  | .start | .twoPhase | .twoPhaseCommitted | .twoPhaseQuery1 | .twoPhaseQuery2 | .stageIn | .submit | .poll1
  | .poll2 | .pollQuery1 | .pollQuery2 => true
  | _ => false

/-- `globus_l_gram_job_manager_is_done` -/
def State.isDone (state : State) : Bool := state == .done || state == .failedDone

/-- `atoi` -/
def atoi (s : List Char) : Int := ((CText.scanInt (-2 ^ 31) (2 ^ 31 - 1) s).map Prod.fst).getD 0

/-- What the calls of a query give. -/
structure QueryOutcome where
  registers : Bool
  /-- `globus_l_gram_stdio_update_signal`: its error, or the lists of files made from the new RSL -/
  stdioUpdate : Except Int Todo
  /-- what the comparison of the sizes of the output files gives -/
  stdioSize : Int

namespace Machine

variable (machine : Machine) (o : QueryOutcome) (afterSignal : List Char)

/-- A signal that is passed on to the scheduler by a script. -/
def signalScript (handle : Nat) (signal : Signal)
    (afterSignal : List Char) : Machine × Option Int :=
  if afterSignal = [] then (machine, some httpUnpackFailed)
  else if machine.job.jobmanagerState.queryValid = false then (machine, some jobQueryDenial)
  else
    let machine := machine.enqueue ⟨.signal, handle, some signal, 0⟩
    if machine.job.jobmanagerState = .poll2 then ((machine.enter .pollQuery1).wake o.registers, none)
    else if machine.job.jobmanagerState = .twoPhase then ((machine.enter .twoPhaseQuery1).wake o.registers, none)
    else (machine, none)

def signalStdioUpdate : Machine × Option Int :=
  if afterSignal = [] then (machine, some httpUnpackFailed)
  else if machine.job.jobmanagerState.queryValid = false then (machine, some jobQueryDenial)
  else
    match o.stdioUpdate with
    | .ok todo => (machine.modify ({ · with todo }), some 0)
    | .error rc => (machine, some rc)

/-- The commit of the client is accepted. -/
def commit : Machine := { machine with trace := machine.trace ++ [.committed] }

def signalCommitRequest : Machine × Option Int :=
  if machine.job.twoPhaseCommit = 0 then (machine, some invalidCommit)
  else
    match machine.job.jobmanagerState with
    | .twoPhase | .start | .twoPhaseQuery1 | .twoPhaseQuery2 =>
      ((machine.commit.enter .twoPhaseCommitted).wake o.registers, some 0)
    | .stop => (machine, some jobQueryDenial)
    -- not needed in any other state, and ignored
    | _ => (machine, some 0)

def signalCommitEnd : Machine × Option Int :=
  if machine.job.twoPhaseCommit = 0 then (machine, some invalidCommit)
  else
    match machine.job.jobmanagerState with
    | .twoPhaseEnd | .stop => ((machine.enter .twoPhaseEndCommitted).wake o.registers, some 0)
    | .failedTwoPhase => ((machine.enter .failedTwoPhaseCommitted).wake o.registers, some 0)
    | _ => (machine, some jobQueryDenial)

def signalCommitExtend : Machine × Option Int :=
  if afterSignal = [] then (machine, some httpUnpackFailed)
  else if machine.job.twoPhaseCommit = 0 then (machine, some invalidCommit)
  else
    match machine.job.jobmanagerState with
    | .twoPhase | .twoPhaseEnd | .failedTwoPhase | .twoPhaseQuery1 | .twoPhaseQuery2 =>
      (machine.modify fun job => { job with commitExtend := job.commitExtend + Int32.ofInt (atoi afterSignal) }, some 0)
    | _ => (machine, some 0)

/-- `globus_l_gram_job_manager_query_stop_manager` -/
def queryStopManager : Machine × Option Int :=
  let machine := if machine.job.jobmanagerState = .poll2 then machine.wake o.registers else machine
  match machine.job.jobmanagerState with
  | .stop =>
    ((machine.modify ({ · with unsentStatusChange := true, stopReason := jmStopped })).enter .stop, some 0)
  | .start | .twoPhase | .twoPhaseQuery1 | .twoPhaseQuery2 | .twoPhaseCommitted | .stageIn | .submit | .poll1
  | .poll2 | .pollQuery1 | .pollQuery2 | .preCloseOutput | .closeOutput | .stageOut | .twoPhaseEnd
  | .twoPhaseEndCommitted | .failedTwoPhase | .failedTwoPhaseCommitted =>
    ((machine.modify fun job =>
      { job with
        unsentStatusChange := true
        stopReason := jmStopped
        restartState := job.jobmanagerState }).enter .stop, some 0)
  | _ => (machine, some jobQueryDenial)

/-- `globus_l_gram_job_manager_signal`: `signal` is `none` if the query has no number, and `afterSignal` is
empty if there is nothing behind it. -/
def signal (machine : Machine) (o : QueryOutcome) (handle : Nat) (signal : Option Signal)
    (afterSignal : List Char) : Machine × Option Int :=
  match signal with
  | none => (machine, some httpUnpackFailed)
  | some .stdioUpdate => machine.signalStdioUpdate o afterSignal
  | some .cancel => machine.signalScript o handle .cancel afterSignal
  | some .suspend => machine.signalScript o handle .suspend afterSignal
  | some .resume => machine.signalScript o handle .resume afterSignal
  | some .priority => machine.signalScript o handle .priority afterSignal
  | some .commitRequest => machine.signalCommitRequest o
  | some .commitEnd => machine.signalCommitEnd o
  | some .commitExtend => machine.signalCommitExtend afterSignal
  | some .stdioSize => (machine, some (if afterSignal = [] then httpUnpackFailed else o.stdioSize))
  | some .stopManager => machine.queryStopManager o
  | some .unknown => (machine, some unknownSignalType)

/-- `globus_gram_job_manager_contact_add` -/
def contactAdd (contact : List Char) (mask : Int32) : Machine :=
  machine.modify fun job =>
    { job with
      clientContacts := if job.clientContacts.any (·.1 = contact) then
          job.clientContacts.map fun entry => if entry.1 = contact then (entry.1, entry.2 ||| mask) else entry
        else (contact, mask) :: job.clientContacts }

/-- `globus_l_gram_job_manager_register`: `args` are the contact and the mask, if there are both. -/
def registerContact (args : Option (List Char × Int32)) : Machine × Option Int :=
  if machine.job.jobmanagerState.isDone then (machine, some jobQueryDenial)
  else
    match args with
    | none => (machine, some httpUnpackFailed)
    | some (contact, mask) => (machine.contactAdd contact mask, some 0)

/-- `globus_l_gram_job_manager_unregister` -/
def unregister (url : List Char) : Machine × Option Int :=
  if machine.job.jobmanagerState.isDone then (machine, some jobQueryDenial)
  else if url = [] then (machine, some httpUnpackFailed)
  else
    let rc := if machine.job.clientContacts.any (·.1 = url) then 0 else clientContactNotFound
    let machine := machine.modify fun job => { job with clientContacts := job.clientContacts.eraseP (·.1 = url) }
    -- without a contact no client will commit the end, so the signal is sent here
    if machine.job.clientContacts = [] ∧ machine.job.jobmanagerState = .twoPhaseEnd then
      ((machine.signalCommitEnd o).1, some rc)
    else (machine, some rc)

/-- The end of `globus_gram_job_manager_query_callback` -/
def replied (handle : Nat) (result : Machine × Option Int) : Machine :=
  match result with
  | (machine, some rc) => { machine with trace := machine.trace ++ [.replied handle rc] }
  | (machine, none) => machine

/-! ## 2. Scripts, events and timers -/

end Machine

/-- A line of the output of a script. -/
inductive ScriptLine where
  /-- `GRAM_SCRIPT_JOB_STATE`, `none` for a negative number -/
  | jobState (status : Option JobState)
  /-- `GRAM_SCRIPT_ERROR` -/
  | error (code : Int)
  /-- `GRAM_SCRIPT_JOB_ID` -/
  | jobId (id : List Char)
  /-- `GRAM_SCRIPT_STAGED_IN` -/
  | stagedIn (source destination : List Char)
  /-- `GRAM_SCRIPT_STAGED_IN_SHARED` -/
  | stagedInShared (source destination : List Char)
  /-- `GRAM_SCRIPT_STAGED_OUT` -/
  | stagedOut (source destination : List Char)
  /-- `GRAM_SCRIPT_STAGED_STREAM` -/
  | stagedStream (source destination : List Char)
  /-- `GRAM_SCRIPT_LOG` -/
  | log
  /-- `GRAM_SCRIPT_SCRATCH_DIR`, `GRAM_SCRIPT_JOB_ACCT_INFO` and `GRAM_SCRIPT_GT3_*`, which change nothing here -/
  | info
  | unknown
  deriving DecidableEq, Repr

/-- `globus_gram_job_manager_staging_remove` -/
def stagingRemove (todo : List (List Char × List Char)) (source destination : List Char) :
    List (List Char × List Char) :=
  todo.eraseP (· = (source, destination))

/-- `globus_l_gram_job_manager_default_done`, for a line -/
def Job.defaultDone (job : Job) (startingState : State) (line : ScriptLine) : Job :=
  match line with
  | .jobState none => { job with failureCode := invalidScriptStatus }
  | .jobState (some status) =>
    if job.status.validStateChange status then
      { job with
        status := if status = .done ∧ job.needStageOut then .stageOut else status
        unsentStatusChange := true }
    else job
  | .error code =>
    if job.jobmanagerState = startingState then
      { job with
        status := .failed
        failureCode := if code ≤ 0 then invalidScriptStatus else code
        unsentStatusChange := true }
    else job
  | .jobId id => if id = [] then job else { job with jobIdString := id, hasJobId := true }
  | .stagedIn source destination =>
    { job with todo.stageIn := stagingRemove job.todo.stageIn source destination }
  | .stagedInShared source destination =>
    { job with todo.stageInShared := stagingRemove job.todo.stageInShared source destination }
  | .stagedOut source destination =>
    if job.jobmanagerState = startingState then
      { job with todo.stageOut := stagingRemove job.todo.stageOut source destination }
    else job
  | .stagedStream source destination =>
    if job.jobmanagerState = startingState then
      { job with todo.stageStream := stagingRemove job.todo.stageStream source destination }
    else job
  | .log | .info => job
  | .unknown =>
    if job.jobmanagerState = startingState then
      { job with status := .failed, failureCode := invalidScriptStatus, unsentStatusChange := true }
    else job

/-- The failure code of the query with this handle, if it still waits. -/
def Job.failQuery (job : Job) (handle : Nat) (code : Int) : Job :=
  { job with
    pendingQueries := job.pendingQueries.map fun query =>
      if query.handle = handle then { query with failureCode := code } else query }

/-- `globus_l_gram_job_manager_query_done`, for a line -/
def Job.queryDone (job : Job) (handle : Nat) (line : ScriptLine) : Job :=
  match line with
  | .error code => job.failQuery handle (if code ≤ 0 then invalidScriptStatus else code)
  | .jobState none => job.failQuery handle invalidScriptStatus
  | .jobState (some status) =>
    match job.pendingQueries.find? (·.handle = handle) with
    | none => job
    | some query =>
      if (query.type = .cancel ∨ query.signal = some .cancel) ∧ job.status.validStateChange status then
        let job := { job with unsentStatusChange := true, status }
        if status = .failed then { job with failureCode := userCancelled }.failQuery handle userCancelled else job
      else if (query.signal = some .suspend ∨ query.signal = some .resume) ∧ job.status.validStateChange status then
        { job with status, unsentStatusChange := true }
      else job
  | .log => job
  | _ => job.failQuery handle invalidScriptStatus

namespace Machine

variable (machine : Machine) (context : ScriptContext) (failureCode : Int)

/-- A line of a script, with the failure of the read, if any. -/
def scriptLine (line : ScriptLine) : Machine :=
  machine.modify fun job =>
    let job := if failureCode = 0 then job else { job with failureCode }
    match context.query with
    | none => job.defaultDone context.startingState line
    | some handle => job.queryDone handle line

/-- A script comes to its end: the state machine is registered. -/
def scriptDone (registers : Bool) : Machine :=
  ({ machine with scripts := machine.scripts.erase context }.modify fun job =>
    if failureCode = 0 then job else { job with failureCode }).register registers |>.1

/-- `globus_l_gram_deliver_event` -/
def deliverEvent (event : Event) (registers : Bool) : Machine :=
  let machine := machine.modify fun job => { job with segEventQueue := job.segEventQueue ++ [event] }
  if machine.job.jobmanagerState = .poll2 then
    let (machine, registered) := (machine.enter .poll1).register registers
    if registered then machine else machine.enter .poll2
  else machine

/-- `globus_gram_job_manager_stop_all_jobs`, when the proxy of the user expires -/
def stopAllJobs (registers : Bool) : Machine :=
  let machine := machine.modify fun job =>
    { job with stopReason := userProxyExpired, restartState := job.jobmanagerState }
  match machine.job.jobmanagerState with
  | .start | .stageOut | .closeOutput | .preCloseOutput | .twoPhaseEnd | .twoPhaseEndCommitted | .fileCleanUp
  | .scratchCleanUp | .cacheCleanUp => machine.enter .stop
  | .poll2 => ((machine.enter .stop).modify ({ · with unsentStatusChange := true })).register registers |>.1
  | .twoPhase | .twoPhaseCommitted | .stageIn | .submit | .poll1 | .pollQuery1 | .pollQuery2 | .twoPhaseQuery1
  | .twoPhaseQuery2 => (machine.enter .stop).modify ({ · with unsentStatusChange := true })
  | _ => machine

end Machine

/-! ## 3. Runs -/

/-- What can happen next to a request. -/
inductive Input where
  /-- The timer expires, and the callback begins its loop. -/
  | callback
  /-- one round of the loop -/
  | round (o : Outcome)
  | cancel (registers : Bool) (handle : Nat)
  | signal (o : QueryOutcome) (handle : Nat) (signal : Option Signal) (afterSignal : List Char)
  | register (handle : Nat) (args : Option (List Char × Int32))
  | unregister (o : QueryOutcome) (handle : Nat) (url : List Char)
  | scriptLine (context : ScriptContext) (failureCode : Int) (line : ScriptLine)
  | scriptDone (context : ScriptContext) (failureCode : Int) (registers : Bool)
  | deliverEvent (event : Event) (registers : Bool)
  /-- The state callbacks are done. -/
  | callbacksDone (registers : Bool)
  | stopAllJobs (registers : Bool)

namespace Machine

/-- What an input does that waits for the lock of the request. -/
def handle (machine : Machine) : Input → Option Machine
  | .round _ => none
  | .callback =>
    if machine.job.pollTimer then some { machine.modify ({ · with pollTimer := false }) with looping := true }
    else none
  | .cancel registers handle => some (replied handle (machine.cancel registers handle))
  | .signal o handle signal afterSignal => some (replied handle (machine.signal o handle signal afterSignal))
  | .register handle args => some (replied handle (machine.registerContact args))
  | .unregister o handle url => some (replied handle (machine.unregister o url))
  | .scriptLine context failureCode line =>
    if context ∈ machine.scripts then some (machine.scriptLine context failureCode line) else none
  | .scriptDone context failureCode registers =>
    if context ∈ machine.scripts then some (machine.scriptDone context failureCode registers) else none
  | .deliverEvent event registers => some (machine.deliverEvent event registers)
  | .callbacksDone registers =>
    if machine.restartWhenDone then some ({ machine with restartWhenDone := false }.register registers).1 else none
  | .stopAllJobs registers => some (machine.stopAllJobs registers)

/-- One step, if the input is possible and the program survives it. -/
def step (machine : Machine) (input : Input) : Option Machine :=
  if machine.looping then
    match input with
    | .round o => (machine.stateMachine o).map fun result => { result.1 with looping := !result.2 }
    | _ => none
  else machine.handle input

/-- The inputs one after the other. -/
def run (machine : Machine) : List Input → Option Machine
  | [] => some machine
  | input :: inputs => machine.step input >>= fun machine => machine.run inputs

end Machine

end Gct.JobManager
