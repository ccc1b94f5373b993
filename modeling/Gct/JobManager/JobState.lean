/-
# The status of a job and the states of the job manager

The values of `globus_gram_protocol_job_state_t` that a job can have, which changes of the status the job
manager accepts from the scheduler, and the states of the job manager's state machine.
-/
import Mathlib.Data.List.Basic

namespace Gct.JobManager

/-! ## 1. The status of a job -/

/-- `globus_gram_protocol_job_state_t`, with its values on the wire and in files. -/
inductive JobState where
  | pending
  | active
  | failed
  | done
  | suspended
  | unsubmitted
  | stageIn
  | stageOut
  deriving DecidableEq, Repr

def JobState.code : JobState → Int32
  | .pending => 1
  | .active => 2
  | .failed => 4
  | .done => 8
  | .suspended => 16
  | .unsubmitted => 32
  | .stageIn => 64
  | .stageOut => 128

/-- `globus_i_gram_job_manager_script_valid_state_change` -/
def JobState.validStateChange (status newState : JobState) : Bool :=
  match status with
  | .pending => newState != .pending
  | .active => newState != .pending && newState != .active
  | .failed => false
  | .done => false
  | .suspended => newState != .pending && newState != .suspended
  | .unsubmitted => newState != .unsubmitted
  | .stageIn => newState != .stageIn
  | .stageOut => newState == .done || newState == .failed

/-- The job has not come to its end: it is neither done, nor failed, nor is its output being staged. -/
def JobState.IsOpen : JobState → Prop
  | .failed => False
  | .done => False
  | .stageOut => False
  | _ => True

theorem JobState.IsOpen.validStateChange {status newState : JobState} (h : status.IsOpen)
    (hnew : newState = .done ∨ newState = .failed) : status.validStateChange newState = true := by
  rcases hnew with rfl | rfl <;> cases status <;> first | rfl | exact h.elim

/-- A job that has come to its end is not set back. -/
theorem JobState.validStateChange_of_not_isOpen {status newState : JobState} (h : ¬ status.IsOpen)
    (hnew : newState = .pending ∨ newState = .active) : status.validStateChange newState = false := by
  rcases hnew with rfl | rfl <;> cases status <;> first | rfl | exact absurd trivial h

/-! ## 2. The states of the job manager -/

/-- `globus_gram_jobmanager_state_t` -/
inductive State where
  | start
  | twoPhase
  | twoPhaseCommitted
  | stageIn
  | submit
  | poll1
  | poll2
  | closeOutput
  | stageOut
  | twoPhaseEnd
  | twoPhaseEndCommitted
  | fileCleanUp
  | scratchCleanUp
  | cacheCleanUp
  | done
  | failed
  | failedCloseOutput
  | failedTwoPhase
  | failedTwoPhaseCommitted
  | failedFileCleanUp
  | failedScratchCleanUp
  | failedCacheCleanUp
  | failedDone
  | stop
  | pollQuery1
  | pollQuery2
  | preCloseOutput
  | twoPhaseQuery1
  | twoPhaseQuery2
  deriving DecidableEq, Repr

def State.code : State → Int32
  | .start => 0
  | .twoPhase => 1
  | .twoPhaseCommitted => 2
  | .stageIn => 3
  | .submit => 4
  | .poll1 => 5
  | .poll2 => 6
  | .closeOutput => 7
  | .stageOut => 8
  | .twoPhaseEnd => 9
  | .twoPhaseEndCommitted => 10
  | .fileCleanUp => 11
  | .scratchCleanUp => 12
  | .cacheCleanUp => 13
  | .done => 14
  | .failed => 15
  | .failedCloseOutput => 16
  | .failedTwoPhase => 17
  | .failedTwoPhaseCommitted => 18
  | .failedFileCleanUp => 19
  | .failedScratchCleanUp => 20
  | .failedCacheCleanUp => 21
  | .failedDone => 22
  | .stop => 23
  | .pollQuery1 => 24
  | .pollQuery2 => 25
  -- the number of an obsolete state is left out
  | .preCloseOutput => 27
  | .twoPhaseQuery1 => 28
  | .twoPhaseQuery2 => 29

end Gct.JobManager
