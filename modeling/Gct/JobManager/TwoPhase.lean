/-
# Two-phase commit

No stage-in, submit or poll script may be started, and none of the states for them entered, before the
client has committed the request.  As the machine goes along a graph, it is enough to see which states can
be reached without the commit.  There is one edge that should not be there: the state `TWO_PHASE_QUERY1`
shares its code with `POLL_QUERY1`, and where the script for the last waiting query cannot be started it
goes to `POLL2`, from where the job is polled.  A run is safe if and only if it never takes this edge
(`run_guarded_iff`).
-/
import Gct.JobManager.Graph
import Gct.Lib.Trace

namespace Gct.JobManager

open Trace List Machine State

/-! ## 1. What needs the commit -/

/-- What may happen only after the commit. -/
def Action.NeedsCommit : Action → Prop
  | .entered state => state ∈ [stageIn, .submit, .poll1, .poll2, .pollQuery1, .pollQuery2]
  | .started script => script ∈ [Script.stageIn, .submit, .poll]
  | .replied _ _ => False
  | .committed => False

/-- The states that can be reached without the commit. -/
def State.early : List State :=
  [.start, .twoPhase, .twoPhaseQuery1, .twoPhaseQuery2, .failed, .failedCloseOutput, .failedTwoPhase,
    .failedTwoPhaseCommitted, .failedFileCleanUp, .failedScratchCleanUp, .failedCacheCleanUp, .failedDone, .stop,
    .twoPhaseEndCommitted, .fileCleanUp, .scratchCleanUp, .cacheCleanUp, .done]

/-- The states that can be reached once there is a commit: all but those in which it is awaited. -/
def State.late : List State :=
  [.twoPhaseCommitted, .stageIn, .submit, .poll1, .poll2, .closeOutput, .stageOut, .twoPhaseEnd,
    .twoPhaseEndCommitted, .fileCleanUp, .scratchCleanUp, .cacheCleanUp, .done, .failed, .failedCloseOutput,
    .failedTwoPhase, .failedTwoPhaseCommitted, .failedFileCleanUp, .failedScratchCleanUp, .failedCacheCleanUp,
    .failedDone, .stop, .pollQuery1, .pollQuery2, .preCloseOutput]

theorem not_needsCommit {action : Action} (h : action.Within early [.signal, .cancel]) : ¬ action.NeedsCommit := by
  cases action with
  | entered state =>
    intro hneeds
    have : ∀ state ∈ early, state ∉ [stageIn, .submit, .poll1, .poll2, .pollQuery1, .pollQuery2] := by
      decide
    exact this state h hneeds
  | started script =>
    intro hneeds
    have : ∀ script ∈ [Script.signal, .cancel], script ∉ [Script.stageIn, .submit, .poll] := by decide
    exact this script h hneeds
  | replied | committed => exact id

/-- In the commit phase, the script for the last waiting query cannot be started. -/
def Stranded (machine : Machine) : Input → Prop
  | .round o =>
    machine.job.jobmanagerState = .twoPhaseQuery1 ∧ machine.job.pendingQueries.length = 1 ∧ o.script ≠ 0
  | _ => False

/-- No step of the run is such a one. -/
def NoneStranded (machine : Machine) : List Input → Prop
  | [] => True
  | input :: inputs => ¬ Stranded machine input ∧ ∀ machine' ∈ machine.step input, NoneStranded machine' inputs

instance (machine : Machine) (input : Input) : Decidable (Stranded machine input) :=
  match input with
  | .round o =>
    inferInstanceAs (Decidable (machine.job.jobmanagerState = .twoPhaseQuery1 ∧
      machine.job.pendingQueries.length = 1 ∧ o.script ≠ 0))
  | .callback | .cancel _ _ | .signal _ _ _ _ | .register _ _ | .unregister _ _ _ | .scriptLine _ _ _
  | .scriptDone _ _ _ | .deliverEvent _ _ | .callbacksDone _ | .stopAllJobs _ => inferInstanceAs (Decidable False)

instance NoneStranded.decidable : (machine : Machine) → (inputs : List Input) →
    Decidable (NoneStranded machine inputs)
  | _, [] => inferInstanceAs (Decidable True)
  | machine, input :: inputs =>
    match h : machine.step input with
    | none => decidable_of_iff (¬ Stranded machine input) (by simp [NoneStranded, h])
    | some machine' =>
      have := NoneStranded.decidable machine' inputs
      decidable_of_iff (¬ Stranded machine input ∧ NoneStranded machine' inputs) (by simp [NoneStranded, h])

variable {machine machine' : Machine} {input : Input} {states : List State} {scripts : List Script}
  {inputs : List Input}

/-- Every step is a round of the loop or is handled outside of it. -/
theorem step_cases (h : machine.step input = some machine') :
    (∃ o r, input = .round o ∧ machine.looping = true ∧ machine.stateMachine o = some r ∧
      machine' = { r.1 with looping := !r.2 }) ∨
      machine.handle input = some machine' := by
  unfold step at h
  split at h
  · split at h
    next hloop _ o =>
      obtain ⟨r, hr, rfl⟩ := Option.map_eq_some_iff.mp h
      exact .inl ⟨o, r, rfl, hloop, hr, rfl⟩
    · cases h
  · exact .inr h

/-! ## 2. Runs -/

/-- The commit has not been accepted, and nothing has been done that needs it. -/
structure Uncommitted (machine : Machine) : Prop where
  twoPhaseCommit : machine.job.twoPhaseCommit ≠ 0
  state : machine.job.jobmanagerState ∈ early
  notMem : .committed ∉ machine.trace
  guarded : Guarded .committed Action.NeedsCommit machine.trace

/-- The commit has been accepted, and nothing that needs it came before. -/
structure Committed (machine : Machine) : Prop where
  mem : .committed ∈ machine.trace
  state : machine.job.jobmanagerState ∈ late
  guarded : Guarded .committed Action.NeedsCommit machine.trace

theorem Uncommitted.follows
    (h : Uncommitted machine) (hfollows : Follows states scripts machine machine') (hstates : states ⊆ early)
    (hscripts : scripts ⊆ [.signal, .cancel]) : Uncommitted machine' := by
  obtain ⟨⟨new, htrace, hnew⟩, htwo, hstate⟩ := hfollows.mono hstates hscripts
  refine ⟨htwo ▸ h.twoPhaseCommit, ?_, ?_, ?_⟩
  · rcases hstate with hstate | hstate
    · rw [hstate]
      exact h.state
    · exact hstate
  · rw [htrace]
    intro hmem
    rcases mem_append.mp hmem with hmem | hmem
    · exact h.notMem hmem
    · exact hnew _ hmem
  · rw [htrace]
    exact h.guarded.append_of_forall fun action ha => not_needsCommit (hnew action ha)

theorem Uncommitted.commits (h : Uncommitted machine) (hcommits : Commits machine machine') : Committed machine' := by
  obtain ⟨new, htrace⟩ := hcommits.trace
  have hguarded : Guarded .committed Action.NeedsCommit (machine.trace ++ [.committed]) :=
    h.guarded.append_of_forall fun action ha => by
      rw [mem_singleton.mp ha]
      exact id
  have happend : machine.trace ++ .committed :: new = (machine.trace ++ [.committed]) ++ new := by
    rw [append_assoc]
    rfl
  refine ⟨?_, ?_, ?_⟩
  · rw [htrace]
    exact mem_append_right _ mem_cons_self
  · rw [hcommits.state]
    decide
  · rw [htrace, happend]
    exact hguarded.append_of_mem (mem_append_right _ mem_cons_self)

theorem Committed.follows (h : Committed machine) (hfollows : Follows states scripts machine machine')
    (hstates : states ⊆ late) : Committed machine' := by
  obtain ⟨⟨new, htrace, -⟩, -, hstate⟩ := hfollows
  refine ⟨?_, ?_, ?_⟩
  · rw [htrace]
    exact mem_append_left _ h.mem
  · rcases hstate with hstate | hstate
    · rw [hstate]
      exact h.state
    · exact hstates hstate
  · rw [htrace]
    exact h.guarded.append_of_mem h.mem

theorem Committed.commits (h : Committed machine) (hcommits : Commits machine machine') : Committed machine' := by
  obtain ⟨new, htrace⟩ := hcommits.trace
  refine ⟨?_, ?_, ?_⟩
  · rw [htrace]
    exact mem_append_left _ h.mem
  · rw [hcommits.state]
    decide
  · rw [htrace]
    exact h.guarded.append_of_mem h.mem

/-- Without the commit, a round leads to an early state again, unless the machine is stranded. -/
theorem Uncommitted.round {machine : Machine} {o : Outcome} (h : Uncommitted machine)
    (hstranded : ¬ Stranded machine (.round o)) : ∃ states ⊆ early, ∃ scripts ⊆ [Script.signal, .cancel],
      Keeps states scripts machine (machine.stateMachine o) := by
  by_cases hquery : machine.job.jobmanagerState = .twoPhaseQuery1
  · refine ⟨[.twoPhaseQuery2], by decide, [.signal, .cancel], fun _ => id, ?_⟩
    rw [stateMachine, hquery]
    refine keeps_stateQuery1 machine o (by rw [hquery]; decide) fun hscript hlength => ?_
    exact absurd ⟨hquery, hlength, hscript⟩ hstranded
  · by_cases htwo : machine.job.jobmanagerState = .twoPhase
    · refine ⟨[.stop, .failed], by decide, [], by decide, ?_⟩
      rw [stateMachine, htwo]
      exact keeps_stateTwoPhase_of_ne_zero machine o h.twoPhaseCommit
    · have hgraph : ∀ state ∈ early, state ≠ .twoPhaseQuery1 → state ≠ .twoPhase →
          state.next ⊆ early ∧ state.scripts ⊆ [Script.signal, .cancel] := by
        decide
      obtain ⟨hnext, hscripts⟩ := hgraph _ h.state hquery htwo
      exact ⟨_, hnext, _, hscripts, keeps_stateMachine machine o⟩

theorem Follows.looping {looping : Bool}
    (h : Follows states scripts machine machine') : Follows states scripts machine { machine' with looping } :=
  h.same rfl rfl rfl

theorem Uncommitted.step (h : Uncommitted machine)
    (hstranded : ¬ Stranded machine input) (hstep : machine.step input = some machine') :
    Uncommitted machine' ∨ Committed machine' := by
  rcases step_cases hstep with ⟨o, r, rfl, -, hr, rfl⟩ | hhandle
  · obtain ⟨states, hstates, scripts, hscripts, hkeeps⟩ := h.round hstranded
    exact .inl (h.follows (hkeeps r hr).looping hstates hscripts)
  · rcases handle_cases hhandle with hcommits | hfollows
    · exact .inr (h.commits hcommits)
    · have hgraph : ∀ state ∈ early, state.handled ⊆ early := by decide
      exact .inl (h.follows hfollows (hgraph _ h.state) (nil_subset _))

theorem Committed.step (h : Committed machine) (hstep : machine.step input = some machine') : Committed machine' := by
  rcases step_cases hstep with ⟨o, r, rfl, -, hr, rfl⟩ | hhandle
  · have hgraph : ∀ state ∈ late, state.next ⊆ late := by decide
    exact h.follows (keeps_stateMachine machine o r hr).looping (hgraph _ h.state)
  · rcases handle_cases hhandle with hcommits | hfollows
    · exact h.commits hcommits
    · have hgraph : ∀ state ∈ late, state.handled ⊆ late := by decide
      exact h.follows hfollows (hgraph _ h.state)

/-- A stranded machine goes to `POLL2`, without the commit. -/
theorem not_guarded_of_stranded (h : Uncommitted machine)
    (hstranded : Stranded machine input) (hstep : machine.step input = some machine') :
    ¬ Guarded .committed Action.NeedsCommit machine'.trace := by
  rcases step_cases hstep with ⟨o, r, rfl, -, hr, rfl⟩ | hhandle
  · obtain ⟨hstate, hlength, hscript⟩ := hstranded
    obtain ⟨query, hqueries⟩ := length_eq_one_iff.mp hlength
    have hround : ∃ reply, (machine.stateMachine o).map (·.1.trace) =
        some ((machine.trace ++ [.replied query.handle reply]) ++ [.entered .poll2]) := by
      simp [stateMachine, hstate, stateQuery1, hqueries, scriptRun, hscript, enter, queryReply, Machine.modify]
    obtain ⟨reply, hround⟩ := hround
    rw [hr] at hround
    have htrace : r.1.trace = _ := Option.some.inj hround
    rw [htrace]
    refine not_guarded_of_notMem ?_ (show poll2 ∈ _ by decide)
    intro hmem
    rcases mem_append.mp hmem with hmem | hmem
    · exact h.notMem hmem
    · cases mem_singleton.mp hmem
  · cases input with
    | round o => cases hhandle
    | _ => exact hstranded.elim

/-- The trace only grows. -/
theorem step_trace (h : machine.step input = some machine') : ∃ new, machine'.trace = machine.trace ++ new := by
  rcases step_cases h with ⟨o, r, rfl, -, hr, rfl⟩ | hhandle
  · obtain ⟨new, htrace, -⟩ := (keeps_stateMachine machine o r hr).trace
    exact ⟨new, htrace⟩
  · rcases handle_cases hhandle with hcommits | hfollows
    · obtain ⟨new, htrace⟩ := hcommits.trace
      exact ⟨_, htrace⟩
    · obtain ⟨new, htrace, -⟩ := hfollows.trace
      exact ⟨new, htrace⟩

theorem run_trace (h : machine.run inputs = some machine') : ∃ new, machine'.trace = machine.trace ++ new := by
  induction inputs generalizing machine with
  | nil =>
    cases h
    exact ⟨[], (append_nil _).symm⟩
  | cons input inputs ih =>
    obtain ⟨next, hnext, h⟩ := Option.bind_eq_some_iff.mp h
    obtain ⟨new, htrace⟩ := step_trace hnext
    obtain ⟨new', htrace'⟩ := ih h
    exact ⟨new ++ new', by rw [htrace', htrace, append_assoc]⟩

theorem Committed.run (h : Committed machine) (hrun : machine.run inputs = some machine') : Committed machine' := by
  induction inputs generalizing machine with
  | nil =>
    cases hrun
    exact h
  | cons input inputs ih =>
    obtain ⟨next, hnext, hrun⟩ := Option.bind_eq_some_iff.mp hrun
    exact ih (h.step hnext) hrun

/-- After the commit no machine is stranded any more. -/
theorem Committed.noneStranded {machine : Machine} (h : Committed machine) (inputs : List Input) :
    NoneStranded machine inputs := by
  induction inputs generalizing machine with
  | nil => trivial
  | cons input inputs ih =>
    refine ⟨?_, fun machine' hstep => ih (h.step hstep)⟩
    cases input with
    | round o => 
      intro hstranded
      have hstate := h.state
      rw [hstranded.1] at hstate
      exact absurd hstate (by decide)
    | _ => exact id

theorem Uncommitted.guarded_iff_noneStranded (h : Uncommitted machine) (hrun : machine.run inputs = some machine') :
    Guarded .committed Action.NeedsCommit machine'.trace ↔ NoneStranded machine inputs := by
  induction inputs generalizing machine with
  | nil =>
    cases hrun
    exact ⟨fun _ => trivial, fun _ => h.guarded⟩
  | cons input inputs ih =>
    obtain ⟨next, hnext, hrun⟩ := Option.bind_eq_some_iff.mp hrun
    by_cases hstranded : Stranded machine input
    · obtain ⟨new, htrace⟩ := run_trace hrun
      refine ⟨fun hguarded => ?_, fun hnone => absurd hstranded hnone.1⟩
      rw [htrace] at hguarded
      exact absurd hguarded.of_append (not_guarded_of_stranded h hstranded hnext)
    · have hnone : NoneStranded machine (input :: inputs) ↔ NoneStranded next inputs := by
        refine ⟨fun hnone => hnone.2 next hnext, fun hnone => ⟨hstranded, fun machine' hstep => ?_⟩⟩
        cases hnext.symm.trans hstep
        exact hnone
      rw [hnone]
      rcases h.step hstranded hnext with hun | hcommitted
      · exact ih hun hrun
      · exact ⟨fun _ => hcommitted.noneStranded inputs, fun _ => (hcommitted.run hrun).guarded⟩

/-! ## 3. New requests -/

/-- A request that the client has to commit, and that is not a restart of another one. -/
structure Job.New (job : Job) : Prop where
  state : job.jobmanagerState = .start
  restart : job.jmRestart = false
  twoPhaseCommit : job.twoPhaseCommit ≠ 0

/-- Nothing has happened to the request. -/
def Machine.fresh (job : Job) : Machine where
  job := job
  looping := false
  scripts := []
  restartWhenDone := false
  trace := []

/-- **A run of a new request starts no script and enters no state that needs the commit before the commit is
accepted, if and only if it is not stranded in the commit phase.** -/
theorem run_guarded_iff {job : Job} (hnew : job.New) {inputs : List Input} {machine : Machine}
    (hrun : (fresh job).run inputs = some machine) :
    Guarded .committed Action.NeedsCommit machine.trace ↔ NoneStranded (fresh job) inputs := by
  have hfresh : Uncommitted (fresh job) :=
    ⟨hnew.twoPhaseCommit, by rw [fresh, hnew.state]; decide, nofun, guarded_nil⟩
  exact hfresh.guarded_iff_noneStranded hrun

/-- A request with a timeout of a minute for the commit, on a scheduler that is polled. -/
def pbsJob : Job where
  jobIdString := []
  status := .unsubmitted
  expectedTerminalState := .done
  exitCode := 0
  segLastTimestamp := 0
  unsentStatusChange := false
  needStageOut := false
  jobmanagerState := .start
  restartState := .start
  twoPhaseCommit := 60
  commitExtend := 0
  dryRun := false
  jmRestart := false
  failureCode := 0
  stopReason := 0
  hasJobId := false
  todo := ⟨[], [], [], []⟩
  pendingQueries := []
  segEventQueue := []
  clientContacts := []
  jobHistoryStatus := .unsubmitted
  pollTimer := true
  needStageIn := false
  segModule := false
  jobmanagerType := "pbs".toList
  segStarted := false

theorem pbsJob_new : pbsJob.New := ⟨rfl, rfl, by decide⟩

def signalOutcome : QueryOutcome := ⟨true, .error 0, 0⟩

/-- The state machine waits for the commit, and the client commits. -/
theorem run_guarded_commit : ∃ machine, (fresh pbsJob).run
        [.callback, .round .success, .signal signalOutcome 1 (some .commitRequest) [], .callback, .round .success,
          .round .success] = some machine ∧
      Guarded .committed Action.NeedsCommit machine.trace := by
  obtain ⟨machine, hrun⟩ : ∃ machine, (fresh pbsJob).run
      [.callback, .round .success, .signal signalOutcome 1 (some .commitRequest) [], .callback, .round .success,
        .round .success] = some machine := ⟨_, rfl⟩
  exact ⟨machine, hrun, (run_guarded_iff pbsJob_new hrun).mpr (by decide)⟩

/-- While the commit is awaited, a client sends a signal and the script for it cannot be started: the job,
which was never submitted, is polled. -/
theorem run_polls_uncommitted : ∃ machine, pbsJob.New ∧ (fresh pbsJob).run
        [.callback, .round .success, .signal signalOutcome 1 (some .suspend) ['x'], .callback,
          .round { Outcome.success with script := 32 }, .round .success] = some machine ∧
      machine.trace = [.entered .twoPhase, .entered .twoPhaseQuery1, .replied 1 32, .entered .poll2, .entered .poll1,
        .started .poll] ∧
      ¬ Guarded .committed Action.NeedsCommit machine.trace := by
  refine ⟨_, pbsJob_new, rfl, rfl, fun h => ?_⟩
  exact nomatch h [.entered .twoPhase, .entered .twoPhaseQuery1, .replied 1 32] (.entered .poll2) _ rfl
    (show poll2 ∈ _ by decide)

end Gct.JobManager
