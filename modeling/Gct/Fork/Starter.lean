/-
# Reading requests

The starter reads its standard input into the buffer of a task.  When a newline comes, the line is parsed; then what
follows it goes to the buffer of a new task, or, if the line was malformed, to the beginning of the same buffer.

`globus_l_fork_task_read` looks for the next newline at `buffer`, which stays where the read began.  After a good line
that is in the buffer of the task that was started, and not in that of the new task; after a malformed one it is the same
buffer, and the number of bytes is that of the whole read.  `Scan` says where the pointer leads.

There is no result where the program would go outside of the memory it has, free something twice, or move a number of
bytes below 0.
-/
import Gct.Fork.Request

namespace Gct.Fork

open Buffer (nul cstr)

/-! ## 1. Tasks -/

def taskBufSize : Nat := 512

/-- `globus_l_fork_task_t`.  `mem` is what has been written to the buffer; only the first `tasklen` bytes were read for this
task. -/
structure Task where
  mem : Text := []
  tasklen : Nat := 0
  taskbuflen : Nat := taskBufSize
  tag : Option Nat := none
  attributes : Attributes := {}
  deriving DecidableEq, Repr

/-- `globus_l_fork_task_increase_buffer`. -/
def Task.increaseBuffer (task : Task) : Task := { task with taskbuflen := task.taskbuflen + taskBufSize }

/-- The text of the tag. -/
def Task.tagText (task : Task) : Option Text := task.tag.map fun offset => cstr (task.mem.drop offset)

/-- What is cleared after a malformed request.  The memory is freed, but the pointers to it stay, and so do the counts. -/
def Attributes.clear (attributes : Attributes) : Option Attributes :=
  match attributes.environment.free, attributes.arguments.free with
  | some environment, some arguments =>
    some { attributes with
      directory := none, environment, environmentCount := 0, executable := none, arguments, stdinPath := none,
      stdoutPath := none, stderrPath := none }
  | _, _ => none

inductive ParseResult where
  | good (task newTask : Task)
  | bad (task : Task)
  deriving DecidableEq, Repr

/-- `globus_l_fork_parse_task`. -/
def parseTask (task : Task) : Option ParseResult :=
  if nul ∉ task.mem then none
  else
    let line := cstr task.mem
    let buflen := line.length + 1
    match parseRequest task.tag task.attributes line with
    | none => none
    | some parsed =>
      if task.tasklen < buflen then none
      else
        let mem := parsed.region ++ task.mem.drop line.length
        let residual := (mem.drop buflen).take (task.tasklen - buflen)
        if parsed.good then
          if taskBufSize < residual.length then none
          else
            some (.good { task with mem, tag := parsed.tag, attributes := parsed.attributes }
              { mem := residual, tasklen := residual.length })
        else
          match parsed.attributes.clear with
          | none => none
          | some attributes =>
            some (.bad { task with
              mem := residual ++ mem.drop residual.length, tasklen := task.tasklen - buflen, tag := parsed.tag, attributes })

/-! ## 2. The callback -/

/-- What the starter does: it starts the processes of a task and says so (101), or says with which code this failed (102),
or it refuses a malformed request (102). -/
inductive Event where
  | started (tag : Option Text) (attributes : Attributes)
  | failed (tag : Option Text) (attributes : Attributes) (code : Int)
  | refused (tag : Text)
  deriving DecidableEq, Repr

/-- The number of calls of `globus_l_fork_start_task`, and what the starter did. -/
structure Log where
  starts : Nat := 0
  events : List Event := []
  deriving DecidableEq, Repr

-- What the calls of `globus_l_fork_start_task` return.
variable (rc : Nat → Int)

def Log.start (log : Log) (tag : Option Text) (attributes : Attributes) : Log :=
  let event := if rc log.starts = 0 then .started tag attributes else .failed tag attributes (rc log.starts)
  ⟨log.starts + 1, log.events ++ [event]⟩

/-- A malformed request without a tag is not answered. -/
def Log.refuse (log : Log) : Option Text → Log
  | none => log
  | some tag => { log with events := log.events ++ [.refused tag] }

/-- Where `buffer` leads: into the buffer of the current task, into that of a task which was started, or into memory that
was freed with its task. -/
inductive Scan where
  | current (offset : Nat)
  | started (mem : Text)
  | freed
  deriving DecidableEq, Repr

/-- `memchr(buffer, '\n', nbytes)`, with the task and the memory after `*p = '\0'` if there is a newline. -/
def takeNewline (scan : Scan) (nbytes : Nat) (task : Task) : Option (Option (Scan × Task)) :=
  match scan with
  | .current offset =>
    if task.mem.length < offset + nbytes then none
    else
      match ((task.mem.drop offset).take nbytes).findIdx? (· = '\n') with
      | none => some none
      | some i => some (some (.current offset, { task with mem := task.mem.set (offset + i) nul }))
  | .started mem =>
    if mem.length < nbytes then none
    else
      match (mem.take nbytes).findIdx? (· = '\n') with
      | none => some none
      | some i => some (some (.started (mem.set i nul), task))
  | .freed => if nbytes = 0 then some none else none

/-- Where `buffer` leads when the task has been started, or freed because this failed. -/
def Scan.afterStart (scan : Scan) (task : Task) (code : Int) : Scan :=
  match scan with
  | .current offset => if code = 0 then .started (task.mem.drop offset) else .freed
  | scan => scan

/-- The loop of `globus_l_fork_task_read`.  Each round makes `tasklen` smaller. -/
def readLoop : Nat → Scan → Nat → Task → Log → Option (Task × Log)
  | 0, _, _, _, _ => none
  | fuel + 1, scan, nbytes, task, log =>
    match takeNewline scan nbytes task with
    | none => none
    | some none => some (task, log)
    | some (some (scan, task)) =>
      match parseTask task with
      | none => none
      | some (.bad task) => readLoop fuel scan nbytes { task with tag := none } (log.refuse task.tagText)
      | some (.good task newTask) =>
        readLoop fuel (scan.afterStart task (rc log.starts)) newTask.tasklen newTask
          (log.start rc task.tagText task.attributes)

/-- The starter between two reads; `room` is the number of bytes the next read may bring. -/
structure State where
  task : Task := {}
  room : Nat := taskBufSize - 1
  closed : Bool := false
  log : Log := {}
  deriving DecidableEq, Repr

/-- `globus_l_fork_task_read` for a read that brought `bytes`. -/
def taskRead (s : State) (bytes : Text) (eof : Bool) : Option State :=
  let task := { s.task with
    mem := Buffer.write s.task.mem s.task.tasklen bytes, tasklen := s.task.tasklen + bytes.length }
  match readLoop rc (task.tasklen + 1) (.current s.task.tasklen) bytes.length task s.log with
  | none => none
  | some (task, log) =>
    if eof then some { s with closed := true, log }
    else
      let task := if task.tasklen = task.taskbuflen then task.increaseBuffer else task
      some { s with task, log, room := task.taskbuflen - task.tasklen }

/-- The states of the starter, with the reads that led there. -/
inductive Run : List Text → State → Prop
  | init : Run [] {}
  | read {reads : List Text} {s s' : State} {bytes : Text} {eof : Bool} (h : Run reads s) (hopen : s.closed = false)
      (hroom : bytes.length ≤ s.room) (hstep : taskRead rc s bytes eof = some s') : Run (reads ++ [bytes]) s'

end Gct.Fork
