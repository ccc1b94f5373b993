/-
# The event log of the job manager

The scheduler event generator of the job manager follows a log to which lines are appended.  Each poll calls
`globus_l_job_manager_parse_events`.  It matches `%d;%lld;%128[^;];%d;%d%1[\n]` again and again, until fewer than five
items are found; then it puts the file back to where the last match ended.

The five items are there before the newline is, so the newline is not needed for a match.
-/
import Gct.Lib.Buffer
import Gct.Lib.Lexer
import Gct.Lib.Scanf
import Gct.JobManager.JobState

namespace Gct.JobManager

open CText Option

/-! ## 1. Times -/

/-- The fields of `struct tm` that are compared. -/
structure Tm where
  tmYear : Int
  tmMon : Int
  tmMday : Int
  tmHour : Int
  tmMin : Int
  tmSec : Int
  deriving DecidableEq, Repr

/-- `globus_l_time_is_newer` -/
def timeIsNewer (value benchmark : Tm) : Bool :=
  if value.tmYear < benchmark.tmYear then false
  else if value.tmYear > benchmark.tmYear then true
  else if value.tmMon < benchmark.tmMon then false
  else if value.tmMon > benchmark.tmMon then true
  else if value.tmMday < benchmark.tmMday then false
  else if value.tmMday > benchmark.tmMday then true
  else if value.tmHour < benchmark.tmHour then false
  else if value.tmHour > benchmark.tmHour then true
  else if value.tmMin < benchmark.tmMin then false
  else if value.tmMin > benchmark.tmMin then true
  else if value.tmSec < benchmark.tmSec then false
  else if value.tmSec > benchmark.tmSec then true
  else false

/-! ## 2. Records and events -/

/-- What one match assigns. -/
structure LogRecord where
  protocolMsgType : Int
  stamp : Int
  jobid : List Char
  jobState : Int
  exitCode : Int
  deriving DecidableEq, Repr

/-- The functions `globus_scheduler_event_…` that are called for a record, with their arguments. -/
inductive SchedulerEvent where
  | pending (stamp : Int) (jobid : List Char)
  | active (stamp : Int) (jobid : List Char)
  | done (stamp : Int) (jobid : List Char) (exitCode : Int)
  | failed (stamp : Int) (jobid : List Char) (exitCode : Int)
  deriving DecidableEq, Repr

/-- The `switch` on the state of the job. -/
def LogRecord.event (record : LogRecord) : Option SchedulerEvent :=
  if record.jobState = JobState.pending.code.toInt then some (.pending record.stamp record.jobid)
  else if record.jobState = JobState.active.code.toInt then some (.active record.stamp record.jobid)
  else if record.jobState = JobState.done.code.toInt then some (.done record.stamp record.jobid record.exitCode)
  else if record.jobState = JobState.failed.code.toInt then some (.failed record.stamp record.jobid record.exitCode)
  else none

def intMin : Int := -2 ^ 31
def intMax : Int := 2 ^ 31 - 1
def longLongMin : Int := -2 ^ 63
def longLongMax : Int := 2 ^ 63 - 1

/-- The longest job id that is read. -/
def jobidMax : Nat := 128

/-- The call of `fscanf`, when it finds five items or six: the items, and the text behind the match.  The array `jobid` is
a C string. -/
def scanRecord (s : List Char) : Option (LogRecord × List Char) := do
  let (protocolMsgType, s) ← scanInt intMin intMax s
  let s ← scanLiteral ';' s
  let (stamp, s) ← scanInt longLongMin longLongMax s
  let s ← scanLiteral ';' s
  let (jobid, s) ← scanSet jobidMax (· ≠ ';') s
  let s ← scanLiteral ';' s
  let (jobState, s) ← scanInt intMin intMax s
  let s ← scanLiteral ';' s
  let (exitCode, s) ← scanInt intMin intMax s
  -- `%1[\n]` is the sixth item, and the match counts without it
  some (⟨protocolMsgType, stamp, Buffer.cstr jobid, jobState, exitCode⟩, (scanLiteral '\n' s).getD s)

/-! ## 3. The loop -/

section Poll

variable (gmtime : Int → Option Tm) (start : Tm)

/-- The body of the loop: the event of a record, unless it is skipped as a bad line. -/
def deliver (record : LogRecord) : Option SchedulerEvent :=
  if record.protocolMsgType ≠ 1 then none
  else
    match gmtime record.stamp with
    | none => none
    | some gmstamp => if timeIsNewer start gmstamp then none else record.event

theorem length_of_scanRecord {s rest : List Char} {record : LogRecord} (h : scanRecord s = some (record, rest)) :
    rest.length < s.length := by
  simp only [scanRecord, bind_eq_bind, bind_eq_some_iff, Prod.exists] at h
  obtain ⟨_, s₁, h₁, s₂, h₂, _, s₃, h₃, s₄, h₄, _, s₅, h₅, s₆, h₆, _, s₇, h₇, s₈, h₈, _, s₉, h₉, h⟩ := h
  have hend : rest.length ≤ s₉.length := by
    have hrest : (scanLiteral '\n' s₉).getD s₉ = rest := congrArg Prod.snd (some.inj h)
    rw [← hrest]
    cases hnl : scanLiteral '\n' s₉ with
    | none => exact Nat.le_refl _
    | some t => exact Nat.le_of_lt (length_of_scanLiteral hnl)
  have := length_of_scanInt h₁
  have := length_of_scanLiteral h₂
  have := length_of_scanInt h₃
  have := length_of_scanLiteral h₄
  have := length_of_scanSet h₅
  have := length_of_scanLiteral h₆
  have := length_of_scanInt h₇
  have := length_of_scanLiteral h₈
  have := length_of_scanInt h₉
  omega

/-- The loop `while ((rc = fscanf(…)) > 4)`. -/
def parseLoop : Lexer Unit Char SchedulerEvent where
  step _ s := (scanRecord s).map fun found => (deliver gmtime start found.1, (), found.2)
  size _ s := s.length
  size_lt := by
    intro _ s t _ rest h
    obtain ⟨⟨record, rest'⟩, hscan, heq⟩ := map_eq_some_iff.mp h
    rw [Prod.mk.injEq, Prod.mk.injEq] at heq
    rw [← heq.2.2]
    exact length_of_scanRecord hscan

/-- The log as the generator sees it: what it has not passed yet, and what it has delivered. -/
structure Follower where
  unread : List Char := []
  events : List SchedulerEvent := []
  deriving DecidableEq, Repr

variable (follower : Follower)

/-- `globus_l_job_manager_parse_events` -/
def Follower.parseEvents : Follower where
  unread := (parseLoop gmtime start).rest () follower.unread
  events := follower.events ++ (parseLoop gmtime start).tokens () follower.unread

/-- A piece of text is appended to the log, and then comes a poll. -/
def Follower.poll (piece : List Char) : Follower :=
  Follower.parseEvents gmtime start { follower with unread := follower.unread ++ piece }

/-- A run: the pieces of text that are appended between the polls. -/
def follow (pieces : List (List Char)) : Follower := pieces.foldl (Follower.poll gmtime start) {}

end Poll

/-! ## 4. One round of the loop -/

section Round

variable {gmtime : Int → Option Tm} {start : Tm} {s rest : List Char} {record : LogRecord}

theorem tokens_parseLoop_of_none (h : scanRecord s = none) : (parseLoop gmtime start).tokens () s = [] :=
  Lexer.tokens_of_stop (congrArg (Option.map _) h)

theorem rest_parseLoop_of_none (h : scanRecord s = none) : (parseLoop gmtime start).rest () s = s :=
  Lexer.rest_of_stop (congrArg (Option.map _) h)

theorem tokens_parseLoop_of_some (h : scanRecord s = some (record, rest)) : (parseLoop gmtime start).tokens () s =
      (deliver gmtime start record).toList ++ (parseLoop gmtime start).tokens () rest :=
  Lexer.tokens_of_step (congrArg (Option.map _) h)

theorem rest_parseLoop_of_some (h : scanRecord s = some (record, rest)) :
    (parseLoop gmtime start).rest () s = (parseLoop gmtime start).rest () rest :=
  Lexer.rest_of_step (congrArg (Option.map _) h)

end Round

end Gct.JobManager
