/-
# The job state file

`globus_gram_job_manager_state_file_write` writes a request line by line, and
`globus_gram_job_manager_state_file_read` reads the lines back into a request that is new.  A text that may
be `NULL` is written as one blank then, but the original job id as an empty line; the reader takes one blank
for `NULL` in all of them.

Values that the program would use without having read them, because a number was expected where there is
none, make the reader fail here.
-/
import Gct.JobManager.JobState
import Gct.Gram.Pack
import Gct.Rsl.ParseValue
import Gct.Lib.FileReader

namespace Gct.JobManager

open CText Format FileReader Gct.Rsl Gram

/-! ## 1. Requests -/

/-- What the files of a job manager have to agree with. -/
structure Config where
  jobmanagerType : List Char
  serviceTag : List Char

/-- `globus_gram_job_manager_staging_info_t` -/
structure StagingInfo where
  fromValue : Rsl.Value
  evaledFrom : Option (List Char)
  toValue : Rsl.Value
  evaledTo : Option (List Char)

/-- `globus_gram_job_manager_contact_t` -/
structure Contact where
  jobStateMask : Int32
  contact : List Char

structure Timespec where
  sec : Int64
  nsec : Int64

/-- `globus_i_gram_usage_job_tracker_t` -/
structure JobStats where
  unsubmittedTimestamp : Timespec
  fileStageInTimestamp : Timespec
  pendingTimestamp : Timespec
  activeTimestamp : Timespec
  failedTimestamp : Timespec
  fileStageOutTimestamp : Timespec
  doneTimestamp : Timespec
  restartCount : Int32
  callbackCount : Int32
  statusCount : Int32
  registerCount : Int32
  unregisterCount : Int32
  signalCount : Int32
  refreshCount : Int32
  fileCleanUpCount : Int32
  fileStageInHttpCount : Int32
  fileStageInHttpsCount : Int32
  fileStageInFtpCount : Int32
  fileStageInGsiftpCount : Int32
  fileStageInSharedHttpCount : Int32
  fileStageInSharedHttpsCount : Int32
  fileStageInSharedFtpCount : Int32
  fileStageInSharedGsiftpCount : Int32
  fileStageOutHttpCount : Int32
  fileStageOutHttpsCount : Int32
  fileStageOutFtpCount : Int32
  fileStageOutGsiftpCount : Int32
  clientAddress : Option (List Char)
  userDn : Option (List Char)

/-- What is written of `globus_gram_jobmanager_request_t`. -/
structure JobRequest where
  jobContact : Option (List Char)
  jobmanagerState : State
  restartState : State
  status : JobState
  failureCode : Int32
  jobIdString : Option (List Char)
  rslSpec : List Char
  cacheTag : List Char
  twoPhaseCommit : Int32
  scratchdir : Option (List Char)
  segLastTimestamp : Int64
  creationTime : Int64
  queuedTime : Int64
  stageInTodo : List StagingInfo
  stageInSharedTodo : List StagingInfo
  stageOutTodo : List StagingInfo
  stageStreamTodo : List StagingInfo
  clientContacts : List Contact
  gatewayUser : Option (List Char)
  exitCode : Int32
  jobStats : JobStats
  expectedTerminalState : JobState
  originalJobIdString : Option (List Char)
  jobLogLevel : Int32

/-- The request that `globus_gram_job_manager_request_init` creates at the time `now`, for an RSL without
staging, contacts and two-phase commit. -/
def newRequest (jobContact rslSpec : List Char) (now : Int64) (jobLogLevel : Int32) : JobRequest where
  jobContact := some jobContact
  jobmanagerState := .start
  restartState := .start
  status := .unsubmitted
  failureCode := 0
  jobIdString := none
  rslSpec := rslSpec
  cacheTag := jobContact
  twoPhaseCommit := 0
  scratchdir := none
  segLastTimestamp := 0
  creationTime := now
  queuedTime := now
  stageInTodo := []
  stageInSharedTodo := []
  stageOutTodo := []
  stageStreamTodo := []
  clientContacts := []
  gatewayUser := none
  exitCode := 0
  jobStats :=
    { unsubmittedTimestamp := ⟨now, 0⟩
      fileStageInTimestamp := ⟨0, 0⟩
      pendingTimestamp := ⟨0, 0⟩
      activeTimestamp := ⟨0, 0⟩
      failedTimestamp := ⟨0, 0⟩
      fileStageOutTimestamp := ⟨0, 0⟩
      doneTimestamp := ⟨0, 0⟩
      restartCount := 0
      callbackCount := 0
      statusCount := 0
      registerCount := 0
      unregisterCount := 0
      signalCount := 0
      refreshCount := 0
      fileCleanUpCount := 0
      fileStageInHttpCount := 0
      fileStageInHttpsCount := 0
      fileStageInFtpCount := 0
      fileStageInGsiftpCount := 0
      fileStageInSharedHttpCount := 0
      fileStageInSharedHttpsCount := 0
      fileStageInSharedFtpCount := 0
      fileStageInSharedGsiftpCount := 0
      fileStageOutHttpCount := 0
      fileStageOutHttpsCount := 0
      fileStageOutFtpCount := 0
      fileStageOutGsiftpCount := 0
      clientAddress := none
      userDn := none }
  expectedTerminalState := .done
  originalJobIdString := none
  jobLogLevel := jobLogLevel

/-- The request once the script has told its job id. -/
def JobRequest.submitted (request : JobRequest) (jobId : List Char) : JobRequest :=
  { request with jobIdString := some jobId, originalJobIdString := some jobId }

/-! ## 2. Writing -/

/-- `%s\n` -/
def textLine (s : List Char) : List Char := s ++ ['\n']

/-- `%d\n`, `%4d\n` and `%lld\n` -/
def numberLine (width : Nat) (n : Int) : List Char := textLine ((printInt n).leftpad width ' ')

/-- A text that may be `NULL`. -/
def orBlank (s : Option (List Char)) : List Char := s.getD [' ']

variable (config : Config) (table : SymbolTable) (buffer : List Char) (size : Nat)
  (value : Rsl.Value)

/-- The lines between the job contact and the staging lists. -/
def headLines (request : JobRequest) : List (List Char) :=
  [numberLine 4 (if request.jobmanagerState = .stop then request.restartState
      else request.jobmanagerState).code.toInt,
    numberLine 4 request.status.code.toInt,
    numberLine 4 request.failureCode.toInt,
    textLine (orBlank request.jobIdString),
    textLine request.rslSpec,
    textLine request.cacheTag,
    textLine config.jobmanagerType,
    numberLine 0 request.twoPhaseCommit.toInt,
    textLine (orBlank request.scratchdir),
    numberLine 0 request.segLastTimestamp.toInt,
    numberLine 0 request.creationTime.toInt,
    numberLine 0 request.queuedTime.toInt]

/-- `globus_rsl_value_unparse`, as `printf` writes what it returns. -/
def unparsed : List Char := value.unparse.getD "(null)".toList

def StagingInfo.lines (info : StagingInfo) : List (List Char) :=
  [textLine (unparsed info.fromValue), textLine (unparsed info.toValue)]

/-- One of the four lists of `globus_gram_job_manager_staging_write_state`. -/
def stagingLines (infos : List StagingInfo) : List (List Char) :=
  numberLine 0 infos.length :: infos.flatMap StagingInfo.lines

def Contact.line (contact : Contact) : List Char :=
  printInt contact.jobStateMask.toInt ++ ' ' :: textLine contact.contact

/-- `globus_gram_job_manager_write_callback_contacts` -/
def contactLines (contacts : List Contact) : List (List Char) :=
  numberLine 0 contacts.length :: contacts.map Contact.line

/-- `%09ld` -/
def printNanoseconds (n : Int) : List Char :=
  if n < 0 then '-' :: (printUnsigned n.natAbs).leftpad 8 '0' else (printUnsigned n.toNat).leftpad 9 '0'

/-- `%lld.%09ld` -/
def Timespec.print (t : Timespec) : List Char :=
  printInt t.sec.toInt ++ '.' :: printNanoseconds t.nsec.toInt

/-- The times, in the order in which they are written. -/
def JobStats.timestamps (stats : JobStats) : List Timespec :=
  [stats.unsubmittedTimestamp, stats.fileStageInTimestamp, stats.pendingTimestamp, stats.activeTimestamp,
    stats.failedTimestamp, stats.fileStageOutTimestamp, stats.doneTimestamp]

/-- The counts, in the order in which they are written. -/
def JobStats.counts (stats : JobStats) : List Int32 :=
  [stats.restartCount, stats.callbackCount, stats.statusCount, stats.registerCount, stats.unregisterCount,
    stats.signalCount, stats.refreshCount, stats.fileCleanUpCount, stats.fileStageInHttpCount,
    stats.fileStageInHttpsCount, stats.fileStageInFtpCount, stats.fileStageInGsiftpCount,
    stats.fileStageInSharedHttpCount, stats.fileStageInSharedHttpsCount, stats.fileStageInSharedFtpCount,
    stats.fileStageInSharedGsiftpCount, stats.fileStageOutHttpCount, stats.fileStageOutHttpsCount,
    stats.fileStageOutFtpCount, stats.fileStageOutGsiftpCount]

def JobStats.print (stats : JobStats) : List Char :=
  stats.timestamps.flatMap (fun t => t.print ++ [' ']) ++
    [' '].intercalate (stats.counts.map fun n => printInt n.toInt)

/-- The lines behind the callback contacts. -/
def tailLines (request : JobRequest) : List (List Char) :=
  [textLine (orBlank request.gatewayUser), numberLine 0 request.exitCode.toInt,
    textLine request.jobStats.print,
    textLine (orBlank request.jobStats.clientAddress),
    textLine (orBlank request.jobStats.userDn),
    numberLine 4 request.expectedTerminalState.code.toInt,
    textLine config.serviceTag,
    textLine (request.originalJobIdString.getD []),
    numberLine 0 request.jobLogLevel.toInt]

/-- `globus_gram_job_manager_state_file_write` -/
def stateFileWrite (request : JobRequest) : List Char :=
  [textLine (orBlank request.jobContact), (headLines config request).flatten,
    (stagingLines request.stageInTodo).flatten, (stagingLines request.stageInSharedTodo).flatten,
    (stagingLines request.stageOutTodo).flatten, (stagingLines request.stageStreamTodo).flatten,
    (contactLines request.clientContacts).flatten, (tailLines config request).flatten].flatten

/-! ## 3. Reading -/

inductive ReadError where
  | readingStateFile
  | oldJmAlive
  | badRsl
  | rslEvaluationFailed
  /-- A variable is used that was not read. -/
  | undefinedValue
  deriving DecidableEq, Repr

/-- What is read into a new request. -/
structure Restored where
  restartState : Int32
  status : Int32
  failureCode : Int32
  jobIdString : Option (List Char)
  rslSpec : List Char
  cacheTag : List Char
  twoPhaseCommit : Int32
  scratchdir : Option (List Char)
  segLastTimestamp : Int64
  creationTime : Int64
  queuedTime : Int64
  stageInTodo : List StagingInfo
  stageInSharedTodo : List StagingInfo
  stageOutTodo : List StagingInfo
  stageStreamTodo : List StagingInfo
  clientContacts : List Contact
  gatewayUser : Option (List Char)
  exitCode : Int32
  jobStats : JobStats
  expectedTerminalState : Int32
  originalJobIdString : Option (List Char)
  jobLogLevel : Int32

/-- The lines between the job contact and the staging lists. -/
structure RestoredHead where
  restartState : Int32
  status : Int32
  failureCode : Int32
  jobIdString : Option (List Char)
  rslSpec : List Char
  cacheTag : List Char
  twoPhaseCommit : Int32
  scratchdir : Option (List Char)
  segLastTimestamp : Int64
  creationTime : Int64
  queuedTime : Int64

/-- The lines behind the callback contacts. -/
structure RestoredTail where
  gatewayUser : Option (List Char)
  exitCode : Int32
  jobStats : JobStats
  expectedTerminalState : Int32
  originalJobIdString : Option (List Char)
  jobLogLevel : Int32

/-- One blank stands for `NULL`. -/
def unlessBlank : Option (List Char) := if buffer = [' '] then none else some buffer

/-- `sscanf` with `%d` or `%lld` -/
def sscanfInt (lo hi : Int) (buffer : List Char) : Reader ReadError Int :=
  match scanInt lo hi buffer with
  | none => throw .undefinedValue
  | some (n, _) => return n

def sscanfLongLong : Reader ReadError Int64 := do
  return Int64.ofInt (← sscanfInt (-2 ^ 63) (2 ^ 63 - 1) buffer)

/-- A line that has to be the same in the configuration. -/
def checkLine (s : List Char) : Reader ReadError Unit := do
  let buffer ← readText .readingStateFile size
  if buffer ≠ s then throw .oldJmAlive

/-- The timeout of the two-phase commit; older job managers have another line before it. -/
def readTwoPhaseCommit : Reader ReadError Int32 := do
  let buffer ← readText .readingStateFile size
  match scanInt (-2 ^ 31) (2 ^ 31 - 1) buffer with
  | some _ => return Gram.atoi buffer
  | none =>
    let buffer ← readText .readingStateFile size
    return Gram.atoi buffer

def readHead : Reader ReadError RestoredHead := do
  let restartState ← fgets .readingStateFile size
  let status ← fgets .readingStateFile size
  let failureCode ← fgets .readingStateFile size
  let jobIdString ← readText .readingStateFile size
  let rslSpec ← readText .readingStateFile size
  let cacheTag ← readText .readingStateFile size
  checkLine size config.jobmanagerType
  let twoPhaseCommit ← readTwoPhaseCommit size
  let scratchdir ← readText .readingStateFile size
  let segLastTimestamp ← readText .readingStateFile size
  let segLastTimestamp ← sscanfLongLong segLastTimestamp
  let creationTime ← readText .readingStateFile size
  let creationTime ← sscanfLongLong creationTime
  let queuedTime ← readText .readingStateFile size
  let queuedTime ← sscanfLongLong queuedTime
  return {
    restartState := Gram.atoi restartState
    status := Gram.atoi status
    failureCode := Gram.atoi failureCode
    jobIdString := unlessBlank jobIdString
    rslSpec, cacheTag, twoPhaseCommit
    scratchdir := unlessBlank scratchdir
    segLastTimestamp, creationTime, queuedTime }

def parseValue : Reader ReadError Rsl.Value :=
  match rslParseValue buffer with
  | none => throw .badRsl
  | some value => return value

def evaluateValue : Reader ReadError (Option (List Char)) :=
  match rslEvaluateValue table value with
  | none => throw .rslEvaluationFailed
  | some s => return s

/-- One round of the loop in `globus_l_gram_staging_list_read_state`. -/
def readStagingInfo : Reader ReadError StagingInfo := do
  let fromLine ← scanLine .readingStateFile
  let fromValue ← parseValue fromLine
  let toLine ← scanLine .readingStateFile
  let toValue ← parseValue toLine
  let evaledFrom ← evaluateValue table fromValue
  let evaledTo ← evaluateValue table toValue
  return { fromValue, evaledFrom, toValue, evaledTo }

/-- The loop; every entry is put in front of the list. -/
def readStagingInfos (table : SymbolTable) : Nat → List StagingInfo → Reader ReadError (List StagingInfo)
  | 0, infos => return infos
  | n + 1, infos => do
    let info ← readStagingInfo table
    readStagingInfos table n (info :: infos)

/-- `globus_l_gram_staging_list_read_state` -/
def stagingListReadState : Reader ReadError (List StagingInfo) := do
  let buffer ← scanLine .readingStateFile
  readStagingInfos table (Gram.atoi buffer).toInt.toNat []

/-- One round of the loop in `globus_gram_job_manager_read_callback_contacts`, which goes through the line
twice. -/
def readContact : Reader ReadError Contact := do
  let jobStateMask ← scanDecimal .readingStateFile
  let contact ← scanWord .readingStateFile
  skipNewlines
  return { jobStateMask := Int32.ofInt jobStateMask, contact }

/-- The loop; every contact is put at the end of the list. -/
def readContacts : Nat → Reader ReadError (List Contact)
  | 0 => return []
  | n + 1 => do
    let contact ← readContact
    let contacts ← readContacts n
    return contact :: contacts

/-- `globus_gram_job_manager_read_callback_contacts` -/
def readCallbackContacts : Reader ReadError (List Contact) := do
  let count ← scanDecimal .readingStateFile
  skipNewlines
  readContacts count.toNat

/-- `%lld.%09ld `, of a time -/
def timestampFormat : List Directive :=
  [.num (-2 ^ 63) (2 ^ 63 - 1) 0, .lit '.', .num (-2 ^ 63) (2 ^ 63 - 1) 9, .lit ' ']

/-- The format of the line with the statistics. -/
def statsFormat : List Directive :=
  (List.replicate 7 timestampFormat).flatten ++ decimal :: (List.replicate 19 [.lit ' ', decimal]).flatten

/-- The times that were read. -/
def takeTimestamps : Nat → List Format.Value → Option (List Timespec × List Format.Value)
  | 0, values => some ([], values)
  | n + 1, .int sec :: .int nsec :: values =>
    (takeTimestamps n values).map fun (timestamps, values) =>
      (⟨Int64.ofInt sec, Int64.ofInt nsec⟩ :: timestamps, values)
  | _, _ => none

/-- The counts that were read. -/
def takeCounts : Nat → List Format.Value → Option (List Int32)
  | 0, _ => some []
  | n + 1, .int count :: values => (takeCounts n values).map (Int32.ofInt count :: ·)
  | _, _ => none

/-- The statistics, in the order in which they are read. -/
def JobStats.ofLists : List Timespec → List Int32 → Option (List Char) → Option (List Char) → Option JobStats
  | [unsubmittedTimestamp, fileStageInTimestamp, pendingTimestamp, activeTimestamp, failedTimestamp,
      fileStageOutTimestamp, doneTimestamp],
    [restartCount, callbackCount, statusCount, registerCount, unregisterCount, signalCount, refreshCount,
      fileCleanUpCount, fileStageInHttpCount, fileStageInHttpsCount, fileStageInFtpCount,
      fileStageInGsiftpCount, fileStageInSharedHttpCount, fileStageInSharedHttpsCount,
      fileStageInSharedFtpCount, fileStageInSharedGsiftpCount, fileStageOutHttpCount,
      fileStageOutHttpsCount, fileStageOutFtpCount, fileStageOutGsiftpCount], clientAddress, userDn =>
    some {
      unsubmittedTimestamp, fileStageInTimestamp, pendingTimestamp, activeTimestamp, failedTimestamp,
      fileStageOutTimestamp, doneTimestamp, restartCount, callbackCount, statusCount, registerCount,
      unregisterCount, signalCount, refreshCount, fileCleanUpCount, fileStageInHttpCount,
      fileStageInHttpsCount, fileStageInFtpCount, fileStageInGsiftpCount, fileStageInSharedHttpCount,
      fileStageInSharedHttpsCount, fileStageInSharedFtpCount, fileStageInSharedGsiftpCount,
      fileStageOutHttpCount, fileStageOutHttpsCount, fileStageOutFtpCount, fileStageOutGsiftpCount,
      clientAddress, userDn }
  | _, _, _, _ => none

/-- The `sscanf` of the statistics. -/
def sscanfStats : Option (List Timespec × List Int32) :=
  match takeTimestamps 7 (scan statsFormat buffer).1 with
  | none => none
  | some (timestamps, values) => (takeCounts 20 values).map (timestamps, ·)

def readStats (stats : List Char) (clientAddress userDn : Option (List Char)) : Reader ReadError JobStats :=
  match sscanfStats stats with
  | none => throw .undefinedValue
  | some (timestamps, counts) =>
    match JobStats.ofLists timestamps counts clientAddress userDn with
    | none => throw .undefinedValue
    | some stats => return stats

def readTail : Reader ReadError RestoredTail := do
  let gatewayUser ← readText .readingStateFile size
  let exitCode ← readText .readingStateFile size
  let exitCode ← sscanfInt (-2 ^ 31) (2 ^ 31 - 1) exitCode
  let stats ← readText .readingStateFile size
  let clientAddress ← readText .readingStateFile size
  let userDn ← readText .readingStateFile size
  let jobStats ← readStats stats (unlessBlank clientAddress) (unlessBlank userDn)
  let expectedTerminalState ← fgets .readingStateFile size
  checkLine size config.serviceTag
  let originalJobIdString ← readText .readingStateFile size
  let jobLogLevel ← readText .readingStateFile size
  return {
    gatewayUser := unlessBlank gatewayUser
    exitCode := Int32.ofInt exitCode
    jobStats
    expectedTerminalState := Gram.atoi expectedTerminalState
    originalJobIdString := unlessBlank originalJobIdString
    -- a new request has the level -1
    jobLogLevel := if jobLogLevel = [' '] then -1 else Gram.atoi jobLogLevel }

/-- What is read into a new request. -/
def restore (head : RestoredHead) (stageInTodo stageInSharedTodo stageOutTodo stageStreamTodo : List StagingInfo)
    (clientContacts : List Contact) (tail : RestoredTail) : Restored where
  restartState := head.restartState
  status := head.status
  failureCode := head.failureCode
  jobIdString := head.jobIdString
  rslSpec := head.rslSpec
  cacheTag := head.cacheTag
  twoPhaseCommit := head.twoPhaseCommit
  scratchdir := head.scratchdir
  segLastTimestamp := head.segLastTimestamp
  creationTime := head.creationTime
  queuedTime := head.queuedTime
  stageInTodo := stageInTodo
  stageInSharedTodo := stageInSharedTodo
  stageOutTodo := stageOutTodo
  stageStreamTodo := stageStreamTodo
  clientContacts := clientContacts
  gatewayUser := tail.gatewayUser
  exitCode := tail.exitCode
  jobStats := tail.jobStats
  expectedTerminalState := tail.expectedTerminalState
  originalJobIdString := tail.originalJobIdString
  jobLogLevel := tail.jobLogLevel

/-- `globus_gram_job_manager_state_file_read`, of a file with `size` characters. -/
def readStateFile : Reader ReadError Restored := do
  let _ ← fgets .readingStateFile size
  let head ← readHead config size
  let stageInTodo ← stagingListReadState table
  let stageInSharedTodo ← stagingListReadState table
  let stageOutTodo ← stagingListReadState table
  let stageStreamTodo ← stagingListReadState table
  let clientContacts ← readCallbackContacts
  let tail ← readTail config size
  return restore head stageInTodo stageInSharedTodo stageOutTodo stageStreamTodo clientContacts tail

def stateFileRead (file : List Char) : Except ReadError Restored :=
  (readStateFile config table file.length file).map Prod.fst

end Gct.JobManager
