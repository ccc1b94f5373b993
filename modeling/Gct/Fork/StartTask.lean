/-
# Starting the processes of a task

`globus_l_fork_start_task` forks the processes of a task one by one.  A pipe tells it how each of them gets on: `execve`
closes the pipe, and a child that fails before writes an error code.  Then the processes that run already should be
stopped again and the request refused.

Two things go wrong.  The loop that stops them counts up from `pidcount - 1` and would end below 0, so it runs off the
end of `pids`.  And a `fork` that fails is passed over: the task is reported as started, with -1 among its processes.
`whollyOrNot_iff` shows that this is all.
-/
import Gct.Fork.Starter

namespace Gct.Fork

open List

/-! ## 1. The function -/

/-- What a child writes into its pipe. -/
inductive ChildError where
  | badDirectory
  | stdinNotFound
  | openingStdout
  | openingStderr
  | jobExecutionFailed
  deriving DecidableEq, Repr

def ChildError.code : ChildError → Int
  | .badDirectory => 4
  | .stdinNotFound => 11
  | .openingStdout => 73
  | .openingStderr => 74
  | .jobExecutionFailed => 17

/-- How a round of the fork loop ends: `fork` fails, or the child runs, or it says what failed. -/
inductive Child where
  | notForked
  | running (pid : Int)
  | failed (pid : Int) (error : ChildError)
  deriving DecidableEq, Repr

/-- The array `pids` as far as it is filled, `pidcount`, the keys of `globus_l_fork_active_tasks`, and a record of the
processes that were started and of those that got a `SIGTERM`. -/
structure Processes where
  pids : List Int := []
  pidcount : Int := 0
  active : List Int
  started : List Int := []
  signalled : List Int := []
  deriving DecidableEq, Repr

/-- The fork loop, with the error for which it is left. -/
def forkLoop : List Child → Processes → Processes × Option ChildError
  | [], p => (p, none)
  | .notForked :: children, p => forkLoop children { p with pids := p.pids ++ [-1] }
  | .running pid :: children, p =>
    forkLoop children { p with
      pids := p.pids ++ [pid], pidcount := p.pidcount + 1, active := p.active ++ [pid], started := p.started ++ [pid] }
  | .failed pid error :: _, p => ({ p with pids := p.pids ++ [pid] }, some error)

/-- The rounds of the loop at `kill_procs`, over what is left of the array.  There is no result behind its end. -/
def killLoop : List Int → Processes → Option Processes
  | [], _ => none
  | pid :: pids, p =>
    killLoop pids { p with
      signalled := p.signalled ++ [pid], active := p.active.erase pid, pidcount := p.pidcount - 1 }

def killProcs (count : Nat) (p : Processes) : Option Processes :=
  if p.pidcount - 1 ≥ 0 then
    killLoop ((p.pids ++ replicate (count - p.pids.length) 0).drop (p.pidcount - 1).toNat) p
  else some p

/-- The answer to a request: `101` with the processes, or `102` with an error code. -/
inductive Answer where
  | started (pids : List Int)
  | failed (rc : Int)
  deriving DecidableEq, Repr

/-- The loop over all children, and what follows it. -/
def forkAll (children : List Child) (active : List Int) : Option (Answer × Processes) :=
  match forkLoop children { active } with
  | (p, none) => some (.started p.pids, p)
  | (p, some error) => (killProcs children.length p).map fun p => (.failed error.code, p)

variable (attributes : Attributes) (child : Nat → Child) (active : List Int)

/-- The error for which a task is refused at once.  For a negative count `calloc` fails. -/
def Attributes.refusal : Option Int :=
  if attributes.count < 0 then some 32
  else if attributes.stdoutCount ≠ attributes.count + 1 then some 73
  else if attributes.stderrCount ≠ attributes.count + 1 ∨ attributes.executable = none then some 74
  else none

def children : List Child := (range attributes.count.toNat).map child

/-- `globus_l_fork_start_task`, with the answer that it or its caller gives. -/
def startTask : Option (Answer × Processes) :=
  match attributes.refusal with
  | some rc => some (.failed rc, { active })
  | none => forkAll (children attributes child) active

/-- All processes are started, entered in the table and reported; or there is a failure reply, those that were started are
signalled once, and the table is as before. -/
def WhollyOrNot (count : Nat) (result : Option (Answer × Processes)) : Prop :=
  ∃ answer p, result = some (answer, p) ∧
    ((answer = .started p.started ∧ p.started.length = count ∧ p.active = active ++ p.started) ∨
      ∃ rc, answer = .failed rc ∧ p.signalled.Perm p.started ∧ p.active = active)

/-! ## 2. When it does what it should -/

def Child.isFailed : Child → Bool
  | .failed _ _ => true
  | _ => false

def Child.running? : Child → Option Int
  | .running pid => some pid
  | _ => none

/-- What is put into `pids`. -/
def Child.pid : Child → Int
  | .notForked => -1
  | .running pid => pid
  | .failed pid _ => pid

/-- If no child fails, all of them run, and otherwise none runs before one fails. -/
def StartsOk (children : List Child) : Prop :=
  match children.find? Child.isFailed with
  | none => ∀ c ∈ children, c.running?.isSome
  | some _ => (children.takeWhile (!·.isFailed)).filterMap Child.running? = []

theorem killLoop_eq_none : ∀ (pids : List Int) (p : Processes), killLoop pids p = none
  | [], _ => rfl
  | _ :: pids, _ => killLoop_eq_none pids _

section

variable {before : List Child} (h : ∀ c ∈ before, c.isFailed = false)

include h

theorem forkLoop_append (rest : List Child) (p : Processes) : forkLoop (before ++ rest) p = forkLoop rest { p with
    pids := p.pids ++ before.map Child.pid, pidcount := p.pidcount + (before.filterMap Child.running?).length,
    active := p.active ++ before.filterMap Child.running?, started := p.started ++ before.filterMap Child.running? } := by
  induction before generalizing p with
  | nil => simp
  | cons c before ih =>
    obtain ⟨hc, hbefore⟩ := forall_mem_cons.mp h
    cases c with
    | notForked => simp [forkLoop, ih hbefore, Child.pid, Child.running?, filterMap_cons]
    | running pid =>
      simp [forkLoop, ih hbefore, Child.pid, Child.running?, Int.add_assoc, Int.add_comm 1]
    | failed pid error => cases hc

/-- Children of which none fails. -/
theorem whollyOrNot_forked :
    WhollyOrNot active before.length (forkAll before active) ↔ ∀ c ∈ before, c.running?.isSome := by
  have hfork := forkLoop_append h [] { active }
  rw [append_nil] at hfork
  rw [forkAll, hfork]
  constructor
  · rintro ⟨_, _, ⟨⟩, ⟨-, hlength, -⟩ | ⟨rc, hfailed, -⟩⟩
    · exact filterMap_length_eq_length.mp hlength
    · cases hfailed
  · intro hall
    have hpids : before.filterMap Child.running? = before.map Child.pid := by
      refine filterMap_eq_map_iff_forall_eq_some.mpr fun c hc => ?_
      have hsome := hall c hc
      cases c <;> first | rfl | cases hsome
    refine ⟨_, _, rfl, .inl ⟨?_, filterMap_length_eq_length.mpr hall, rfl⟩⟩
    exact congrArg Answer.started hpids.symm

/-- The first child that fails. -/
theorem whollyOrNot_failed (count : Nat) (pid : Int) (error : ChildError) (after : List Child) :
    WhollyOrNot active count (forkAll (before ++ .failed pid error :: after) active) ↔
      before.filterMap Child.running? = [] := by
  rw [forkAll, forkLoop_append h]
  constructor
  · rintro ⟨_, _, hsome, -⟩
    by_contra hne
    have hpos := length_pos_of_ne_nil hne
    simp only [forkLoop, killProcs] at hsome
    rw [if_pos (by omega), killLoop_eq_none] at hsome
    cases hsome
  · intro hnil
    rw [hnil]
    exact ⟨_, _, rfl, .inr ⟨_, rfl, .nil, append_nil _⟩⟩

end

/-- **A task is started wholly or not at all exactly if it is refused at once, or all children run, or one fails while none
runs.** -/
theorem whollyOrNot_iff :
    WhollyOrNot active attributes.count.toNat (startTask attributes child active) ↔
      (attributes.refusal = none → StartsOk (children attributes child)) := by
  have hlength : attributes.count.toNat = (children attributes child).length := by simp [children]
  rw [startTask, hlength]
  generalize children attributes child = children
  cases attributes.refusal with
  | some rc => exact iff_of_true ⟨_, _, rfl, .inr ⟨rc, rfl, .nil, rfl⟩⟩ nofun
  | none =>
    rw [imp_iff_right rfl, StartsOk]
    cases hfind : children.find? Child.isFailed with
    | none => exact whollyOrNot_forked active fun c hc => by simpa using find?_eq_none.mp hfind c hc
    | some c =>
      obtain ⟨hc, before, after, rfl, hbefore⟩ := find?_eq_some_iff_append.mp hfind
      obtain ⟨pid, error, rfl⟩ : ∃ pid error, c = .failed pid error := by
        cases c <;> first | exact ⟨_, _, rfl⟩ | cases hc
      have htake : (before ++ .failed pid error :: after).takeWhile (!·.isFailed) = before := by
        rw [takeWhile_append_of_pos hbefore, takeWhile_cons_of_neg Bool.false_ne_true, append_nil]
      simp only [htake]
      exact whollyOrNot_failed active (fun c hc => by simpa using hbefore c hc) _ pid error after

/-- The second of two children cannot open its standard output. -/
theorem not_whollyOrNot_second : ¬ WhollyOrNot [] 2
    (startTask { count := 2, executable := some ['a'], stdoutCount := 3, stderrCount := 3 }
      (fun i => if i = 0 then .running 5 else .failed 6 .openingStdout) []) := by
  rintro ⟨_, _, hsome, -⟩
  cases hsome

end Gct.Fork
