import ExperimentControl.Library.Interference
import ExperimentControl.Slurm.Cancellation

/-!
# Operations on a submitted job

`Helper::handle` and `Helper::job_operation` of `worker/src/slurm/ledger.rs` and
`worker/src/slurm/ledger/jobs.rs` for the requests that observe or cancel a job, as programs on the
directory of one submitted scope.

* `CancelScope`, `HelperOp`, `helperWorld` — the directory, the operations on it, what they may do.
* `observeJob`, `jobOperation`, `handle` — the programs.
* `Called` — the calls on one scope, with losses of power between them.
-/

namespace ExperimentControl

namespace Slurm

/-! ## The controller's row -/

/-- `str::split_whitespace`. -/
def words (text : String) : List String :=
  ((text.toList.splitOnP isWhitespace).filter (· ≠ [])).map String.ofList

def CONTROL_FIELDS : List String :=
  ["JobId", "JobName", "Comment", "Partition", "JobState", "RunTime", "ExitCode", "Reason"]

/-- One item of a controller row. -/
def controlItem (values : List (String × String)) (item : String) :
    Except Error (List (String × String)) :=
  match splitOnce '=' item with
  | some (key, value) =>
      if key ∈ CONTROL_FIELDS then
        if (values.lookup key).isSome then .error .ambiguous else .ok ((key, value) :: values)
      else .ok values
  | none => .ok values

def controlField (values : List (String × String)) (key : String) : Except Error String :=
  match values.lookup key with
  | some value => .ok value
  | none => .error (.evidence "controller field")

def parseOwnedControlStatus (output : String) (scope : JobScope) (token : String)
    (observedAt : Option String) : Except Error (Option JobStatus) := do
  reject (byteLen output > MAX_OUTPUT) (.evidence "controller size")
  match rows output with
  | [] => .ok none
  | [line] => do
      let values ← (words line).foldlM controlItem []
      let row ← CONTROL_FIELDS.mapM (controlField values)
      reject (row.any fun value => '|' ∈ value.toList) (.evidence "controller field")
      parseOwnedJobStatus (join '|' row) scope token .scontrol observedAt
  | _ => .error .ambiguous

/-! ## Configuration and documents -/

structure SchedulerTools where
  sacctProgram : String
  squeueProgram : String
  scancelProgram : String
  scontrolProgram : Option String
  partition : String

/-- What an operation on a job reads of the configuration. -/
structure HelperConfig where
  target : Target
  sharedRunRoot : Option String
  scheduler : Option SchedulerTools

def PROTOCOL_VERSION : UInt16 := 1

inductive LedgerError
  | configuration
  | storage
  | protocol (error : HelperError)
  | metadata
  | bootstrap
  deriving DecidableEq, Repr

structure Started where
  version : UInt16
  intentSha256 : String

def Started.document (started : Started) : Json :=
  .object [("version", .ofNat started.version.toNat), ("intent_sha256", .string started.intentSha256)]

def Started.read (document : Json) : Option Started := do
  let fields ← document.record ["version", "intent_sha256"]
  let version ← fields.u16 "version"
  let intentSha256 ← Fields.text fields "intent_sha256"
  return { version, intentSha256 }

structure CancelRecord where
  version : UInt16
  intentSha256 : String
  intent : Json

def CancelRecord.document (record : CancelRecord) : Json :=
  .object [("version", .ofNat record.version.toNat), ("intent_sha256", .string record.intentSha256),
    ("intent", record.intent)]

def CancelRecord.read (document : Json) : Option CancelRecord := do
  let fields ← document.record ["version", "intent_sha256", "intent"]
  let version ← fields.u16 "version"
  let intentSha256 ← Fields.text fields "intent_sha256"
  let intent ← Fields.get fields "intent"
  return { version, intentSha256, intent }

/-! ## The directory of a scope -/

structure Snapshot where
  startExists : Bool
  receipt : Option JobId

inductive ReadLedger
  | missing
  | unknown (reason : UnknownReason)
  | conflict
  | found (snapshot : Snapshot)

/-- `cancel.started.json` and `cancel-intent.json`. -/
inductive CancelFile
  | start
  | state
  deriving DecidableEq, Repr

/-- A directory entry: what is read there, and what a loss of power leaves there. -/
structure Entry where
  seen : Option Json
  kept : Option Json

/-- A process that was started to cancel a job, with the durable intent it was started behind. -/
structure Scancel where
  argv : List String
  intent : Option Json

structure CancelScope where
  startExists : Bool
  receipt : Option JobId
  files : CancelFile → Entry
  /-- Every process that was ever started to cancel a job. -/
  scancels : List Scancel
  /-- Every observation that was made of the scheduler. -/
  observations : List StatusObservation

namespace CancelScope

def put (s : CancelScope) (file : CancelFile) (entry : Entry) : CancelScope :=
  { s with files := Function.update s.files file entry }

/-- What a loss of power leaves: of each file what is read or what is durable. -/
def Loses (s t : CancelScope) : Prop :=
  ∃ files, t = { s with files := files } ∧ ∀ file,
    files file = s.files file ∨ files file = ⟨(s.files file).seen, (s.files file).seen⟩ ∨
      files file = ⟨(s.files file).kept, (s.files file).kept⟩

/-- A write that was not told to be done may be done, and may be durable. -/
def Writes (s : CancelScope) (file : CancelFile) (document : Json) (t : CancelScope) : Prop :=
  t = s ∨ t = s.put file ⟨some document, (s.files file).kept⟩ ∨
    t = s.put file ⟨some document, some document⟩

/-- A process to cancel a job was started or not. -/
def Cancels (s : CancelScope) (argv : List String) (t : CancelScope) : Prop :=
  t = s ∨ t = { s with scancels := ⟨argv, (s.files .state).kept⟩ :: s.scancels }

end CancelScope

/-- Why a ledger that is there may be of no use. -/
def ledgerReasons : List UnknownReason :=
  [.missingLedger, .incompleteClaim, .malformedLedger, .storageUnavailable]

/-- What may be read of the ledger of a scope that was submitted. -/
def CancelScope.Reads (s : CancelScope) : ReadLedger → Prop
  | .found snapshot => snapshot = ⟨s.startExists, s.receipt⟩
  | .unknown reason => reason ∈ ledgerReasons
  | .missing | .conflict => False

inductive Tool
  | sacct
  | squeue
  | scontrol
  | scancel
  deriving DecidableEq, Repr

/-- What a process came to. -/
structure LocalProcess where
  exitCode : Option ℤ
  timedOut : Bool
  cancelled : Bool
  failed : Bool
  complete : Bool
  truncated : Bool
  stdout : Bytes

/-- Checks of things beside the scope that nothing here depends on. -/
inductive HelperCheck
  | root
  | issued
  deriving DecidableEq, Repr

inductive HelperOp
  | check (what : HelperCheck)
  | cancelled
  /-- Whether the deadline is over or the call was cancelled. -/
  | expired
  | now
  | readLedger
  | entryExists (file : CancelFile)
  | read (file : CancelFile)
  | publishNew (file : CancelFile) (document : Json)
  | replaceRegular (file : CancelFile) (document : Json)
  | execute (tool : Tool) (argv : List String)
  /-- Does nothing: it marks that the scheduler was observed. -/
  | observed (observation : StatusObservation)
  /-- Does nothing: it marks what the intent of a cancel was when a call began. -/
  | begin
  /-- A loss of power. -/
  | lose

def HelperOp.Answer : HelperOp → Type
  | .cancelled | .expired => Bool
  | .now => Except LedgerError String
  | .readLedger => Except LedgerError ReadLedger
  | .entryExists _ => Except LedgerError Bool
  | .read _ => Except LedgerError Json
  | .execute _ _ => Except LedgerError LocalProcess
  | .observed _ | .lose => Unit
  | .begin => Entry
  | _ => Except LedgerError Unit

/-- What an operation may answer, and what it may do then. A failed write may have been done. -/
def helperExec (s : CancelScope) : (op : HelperOp) → op.Answer → CancelScope → Prop
  | .now, .ok text, t => t = s ∧ printable text 64 = true
  | .begin, entry, t => t = s ∧ s.files .state = entry
  | .readLedger, .ok ledger, t => t = s ∧ s.Reads ledger
  | .entryExists file, .ok found, t => t = s ∧ (s.files file).seen.isSome = found
  | .read file, .ok document, t => t = s ∧ (s.files file).seen = some document
  | .publishNew file document, .ok (), t =>
      (s.files file).seen = none ∧ t = s.put file ⟨some document, some document⟩
  | .publishNew file document, .error _, t =>
      t = s ∨ (s.files file).seen = none ∧ s.Writes file document t
  | .replaceRegular file document, .ok (), t =>
      (s.files file).seen ≠ none ∧ t = s.put file ⟨some document, some document⟩
  | .replaceRegular file document, .error _, t =>
      t = s ∨ (s.files file).seen ≠ none ∧ s.Writes file document t
  | .execute .scancel argv, _, t => s.Cancels argv t
  | .observed observation, _, t => t = { s with observations := observation :: s.observations }
  | .lose, _, t => s.Loses t
  | _, _, t => t = s

/-- What is left of an operation that is cut short. -/
def helperCrash (s : CancelScope) : HelperOp → CancelScope → Prop
  | .publishNew file document, t => t = s ∨ (s.files file).seen = none ∧ s.Writes file document t
  | .replaceRegular file document, t => t = s ∨ (s.files file).seen ≠ none ∧ s.Writes file document t
  | .execute .scancel argv, t => s.Cancels argv t
  | .lose, t => s.Loses t
  | _, t => t = s

def helperWorld : World CancelScope HelperOp HelperOp.Answer := ⟨helperExec, helperCrash⟩

/-! ## The programs -/

/-- A program on the directory of a scope. -/
abbrev HelperAct (α : Type) := Act HelperOp HelperOp.Answer LedgerError α

namespace HelperAct

def check (what : HelperCheck) : HelperAct Unit := Act.attempt (.check what) id

def now : HelperAct String := Act.attempt .now id

def readLedger : HelperAct ReadLedger := Act.attempt .readLedger id

/-- Refuse to go on. -/
def refuse (bad : Prop) [Decidable bad] (e : LedgerError) : HelperAct Unit := Act.lift (reject bad e)

/-- The value of a checked reader, or that the metadata is invalid. -/
def orMetadata {α : Type} (value : Option α) : HelperAct α :=
  Act.lift (match value with
    | some value => .ok value
    | none => .error .metadata)

/-- A computation whose error is that the metadata is invalid. -/
def planned {ε α : Type} (result : Except ε α) : HelperAct α :=
  Act.lift (result.mapError fun _ => .metadata)

/-- A check of the protocol. -/
def protocol {α : Type} (result : Except HelperError α) : HelperAct α :=
  Act.lift (result.mapError LedgerError.protocol)

end HelperAct

open HelperAct

/-- `read_json`. -/
def readJson {α : Type} (file : CancelFile) (read : Json → Option α) : HelperAct α := do
  let document ← Act.attempt (.read file) id
  refuse (document.write.length > MAX_METADATA_BYTES) .storage
  orMetadata (read document)

def checkJobAuthority (request : Request) : HelperAct Unit := do
  check .issued
  match ← readLedger with
  | .found snapshot => refuse (snapshot.receipt.map JobId.value ≠ request.requestedJobId) .metadata
  | _ => Act.lift (.error .metadata)

/-- What a process said, if it ended as it should. -/
def LocalProcess.output (process : LocalProcess) : Option String :=
  if process.exitCode ≠ some 0 ∨ process.timedOut ∨ process.cancelled ∨ process.failed ∨
      ¬process.complete ∨ process.truncated then none
  else fromUtf8 process.stdout

def schedulerCommand (request : Request) (tool : Tool) (argv : List String) :
    HelperAct (Option String) := do
  checkJobAuthority request
  let expired ← Act.attempt .expired fun (expired : Bool) => .ok expired
  if expired = true then pure none
  else do
    let process ← Act.attempt (.execute tool argv) id
    checkJobAuthority request
    pure (LocalProcess.output process)

/-! ### Observation -/

/-- What was asked and what came of it. -/
def query : Option String → Query
  | some output => .success output
  | none => .failed

def sacctArgv (tools : SchedulerTools) (scope : JobScope) : List String :=
  [tools.sacctProgram, "-j", scope.jobId.value, "-X", "-n", "-P", "-o",
    "JobIDRaw,JobName%128,Comment%256,Partition%128,State%64,Elapsed,ExitCode"]

def squeueArgv (tools : SchedulerTools) (scope : JobScope) : List String :=
  [tools.squeueProgram, "-j", scope.jobId.value, "-h", "-o", "%i|%j|%k|%P|%T|%M|0:0|%R"]

def scontrolArgv (program : String) (scope : JobScope) : List String :=
  [program, "show", "job", scope.jobId.value, "--oneliner"]

def jobScope (request : Request) (tools : SchedulerTools) : Except LedgerError JobScope :=
  match request.jobId with
  | none => .error .configuration
  | some jobId => .ok
      { sshAlias := request.intent.target.backendId
        jobId := jobId
        schedulerName := request.intent.schedulerName
        partition := tools.partition }

/-- Whether the accounting leaves something to ask the queue about. -/
def asksQueue (first : StatusObservation) : Bool :=
  first.diagnostic ∈ [some .noEvidence, some .ownershipNotRecorded] ∨ first.status.state = .queued

/-- Whether there is nothing but the controller left to ask. -/
def asksController (observation : StatusObservation) : Bool :=
  observation.status.observationSource = none ∧
    observation.diagnostic ∈ [some .noEvidence, some .ownershipNotRecorded, some .queryUnavailable]

/-- What the controller's text makes of an observation. -/
def controlled (observation : StatusObservation) (at_ : String) :
    Except Error (Option JobStatus) → StatusObservation
  | .ok (some status) => ⟨status, some at_, none, false⟩
  | .ok none => observation
  | .error _ => { observation with diagnostic := some .malformedOrForeignEvidence }

def unknownReason : Option Diagnostic → UnknownReason
  | some .malformedOrForeignEvidence => .schedulerEvidenceInvalid
  | some .queryUnavailable => .schedulerUnavailable
  | _ => .schedulerNotObserved

/-- The identity of a cancel request for a job. -/
def cancelIdentity (intent : FrozenIntent) (job : JobId) : Submission.CancelIdentity where
  target := ⟨intent.scope.project, intent.scope.runId, intent.scope.attemptId⟩
  backend := some intent.target.backendId
  backendJobId := job.value

def exactStatus (intent : FrozenIntent) (job : JobId) (observation : StatusObservation) :
    Submission.CancelStatus :=
  .exact (cancelIdentity intent job).target job.value (stateText observation.status.state)
    observation.document

section Programs

variable (request : Request) (tools : SchedulerTools)

/-- The queue, where the accounting leaves something to ask it about. -/
def askQueue (scope : JobScope) (first : StatusObservation) : HelperAct Query :=
  if asksQueue first then do
    let output ← schedulerCommand request .squeue (squeueArgv tools scope)
    pure (query output)
  else pure .notRequested

/-- The controller, where there is nothing else left to ask. -/
def askController (scope : JobScope) (observation : StatusObservation) :
    HelperAct StatusObservation :=
  match tools.scontrolProgram with
  | none => pure observation
  | some program =>
      if asksController observation then do
        let control ← schedulerCommand request .scontrol (scontrolArgv program scope)
        let at_ ← now
        pure (match control with
          | some text => controlled observation at_
              (parseOwnedControlStatus text scope request.intent.submissionToken (some at_))
          | none => observation)
      else pure observation

/-- What the scheduler says about a job. -/
def askScheduler (scope : JobScope) : HelperAct StatusObservation := do
  let accounting ← schedulerCommand request .sacct (sacctArgv tools scope)
  let at_ ← now
  let first ← planned (observeOwnedStatus scope request.intent.submissionToken none
    (query accounting) .notRequested (some at_))
  let queue ← askQueue request tools scope first
  let at_ ← now
  let observation ← planned (observeOwnedStatus scope request.intent.submissionToken none
    (query accounting) queue (some at_))
  askController request tools scope observation

/-- The answer that an observation is. -/
def observationOutcome (observation : StatusObservation) : HelperAct ReplyOutcome :=
  if observation.status.observationSource = none then
    pure (.unknown (unknownReason observation.diagnostic))
  else do
    Act.attempt (.observed observation) fun _ => .ok ()
    let _ ← protocol (Reply.forRequest request (.jobObserved observation))
    pure (.jobObserved observation)

def observeJob : HelperAct ReplyOutcome := do
  let scope ← Act.lift (jobScope request tools)
  let observation ← askScheduler request tools scope
  observationOutcome request observation

/-! ### Cancellation -/

/-- The two files of a new cancel, or the intent of an old one. -/
def writeCancel (intent : Json) (new : Bool) : HelperAct Unit :=
  let record : CancelRecord := ⟨PROTOCOL_VERSION, request.intent.digest, intent⟩
  if new then do
    let started : Started := ⟨PROTOCOL_VERSION, request.intent.digest⟩
    Act.attempt (.publishNew .start started.document) id
    Act.attempt (.publishNew .state record.document) id
  else Act.attempt (.replaceRegular .state record.document) id

def saveCancel (intent : Json) (new : Bool) : HelperAct Unit := do
  checkJobAuthority request
  writeCancel request intent new
  checkJobAuthority request

/-- The terminal observation of a verified intent, checked as a reply. -/
def checkedTerminal (result : Json) : HelperAct ReplyOutcome := do
  let observation ← orMetadata (StatusObservation.read result)
  refuse (¬observation.status.state.isTerminal) .metadata
  let _ ← protocol (Reply.forRequest request (.jobObserved observation))
  pure (.jobObserved observation)


/-- The intent that was persisted. -/
def persisted : HelperAct (Option Json) := do
  let hasStart ← Act.attempt (.entryExists .start) id
  let hasState ← Act.attempt (.entryExists .state) id
  refuse (hasStart ≠ hasState) .metadata
  if hasStart = true then do
    let start ← readJson .start Started.read
    let record ← readJson .state CancelRecord.read
    refuse (start.version ≠ PROTOCOL_VERSION ∨ record.version ≠ PROTOCOL_VERSION ∨
      start.intentSha256 ≠ request.intent.digest ∨ record.intentSha256 ≠ start.intentSha256) .metadata
    pure (some record.intent)
  else pure none

def pending (job : JobId) : ReplyOutcome := .cancelPending job.value

/-- A terminal observation is saved, and then answered. -/
def verify (intent result : Json) : HelperAct ReplyOutcome := do
  let outcome ← checkedTerminal request result
  saveCancel request intent false
  pure outcome

/-- The look at the job after it was cancelled. -/
def settle (job : JobId) (intent : Json) (observation : StatusObservation) :
    HelperAct ReplyOutcome := do
  let now ← now
  let decision ← planned (Submission.planCancel (cancelIdentity request.intent job) (some intent)
    (some (exactStatus request.intent job observation)) now)
  match decision with
  | .verifyTerminal intent result => verify request intent result
  | _ => pure (pending job)

/-- The one permitted cancel. -/
def issue (job : JobId) (intent : Json) (issueJobId : String) : HelperAct ReplyOutcome := do
  saveCancel request intent true
  let _ ← schedulerCommand request .scancel [tools.scancelProgram, issueJobId]
  match ← observeJob request tools with
  | .jobObserved observation => settle request job intent observation
  | _ => pure (pending job)

/-- What is done about an observed job. -/
def cancelObserved (job : JobId) (existing : Option Json) (now : String) (observation : StatusObservation) :
    HelperAct ReplyOutcome := do
  let decision ← planned (Submission.planCancel (cancelIdentity request.intent job) existing
    (some (exactStatus request.intent job observation)) now)
  match decision with
  | .verifyTerminal intent result => verify request intent result
  | .createRequested intent issueJobId => issue request tools job intent issueJobId
  | .wait _ => pure (pending job)
  | .alreadyVerified result => checkedTerminal request result

/-- A cancel behind the intent that was persisted, if any. -/
def cancelBehind (job : JobId) (existing : Option Json) (now : String) : HelperAct ReplyOutcome := do
  match ← observeJob request tools with
  | .jobObserved observation =>
      if existing = none ∧ observation.status.state.isTerminal = true then
        pure (.jobObserved observation)
      else cancelObserved request tools job existing now observation
  | before => pure (if existing.isSome then pending job else before)

/-- `CancelJob`. -/
def cancelJob (job : JobId) : HelperAct ReplyOutcome := do
  let existing ← persisted request
  let now ← now
  -- A persisted intent is checked before any process, the scheduler's readers included.
  let initial ← planned (Submission.planCancel (cancelIdentity request.intent job) existing none now)
  match initial with
  | .alreadyVerified result => checkedTerminal request result
  | _ => cancelBehind request tools job existing now

end Programs

def jobOperation (config : HelperConfig) (request : Request) (snapshot : Snapshot) :
    HelperAct ReplyOutcome :=
  match snapshot.receipt with
  | none => pure (if snapshot.startExists then .unknown .submitStarted else .rejected .unprepared)
  | some job =>
      if request.requestedJobId ≠ some job.value then pure (.rejected .identityConflict)
      else match config.scheduler with
        | none => pure (.rejected .unsupportedOperation)
        | some tools => do
            checkJobAuthority request
            if request.operation = .observeJob then observeJob request tools
            else cancelJob request tools job

/-- `Helper::observed` for a scope whose ledger was not found. -/
def ledgerOutcome (config : HelperConfig) (request : Request) : ReadLedger → HelperAct ReplyOutcome
  | .found snapshot => jobOperation config request snapshot
  | .missing => pure (.rejected .unprepared)
  | .unknown reason => pure (.unknown reason)
  | .conflict => pure (.rejected .identityConflict)

/-- What is done under the lock. -/
def answer (config : HelperConfig) (request : Request) : HelperAct Reply := do
  check .root
  let ledger ← readLedger
  let outcome ← ledgerOutcome config request ledger
  check .root
  protocol (Reply.forRequest request outcome)

def handle (config : HelperConfig) (request : Request) : HelperAct Reply :=
  if request.intent.target ≠ config.target then
    protocol (Reply.forRequest request (.rejected .identityConflict))
  else if config.sharedRunRoot ≠ some request.intent.runsRoot then
    protocol (Reply.forRequest request (.rejected .unsupportedOperation))
  else do
    let cancelled ← Act.attempt .cancelled fun (cancelled : Bool) => .ok cancelled
    if cancelled = true then protocol (Reply.forRequest request (.unknown .cancelled))
    else do
      Act.lock .storage
      let result ← Act.outcome (answer config request)
      Act.unlock
      Act.lift result

/-! ## Calls -/

/-- A request under a configuration, what the intent of a cancel was when it began, and what it was
answered with. -/
structure Answered where
  config : HelperConfig
  request : Request
  begun : Entry
  result : Except LedgerError Reply

/-- What a call comes to. A loss of power is none. -/
abbrev Call := Option Answered

/-- A request under a configuration. -/
def call (config : HelperConfig) (request : Request) : Prog HelperOp HelperOp.Answer Call :=
  .call .begin fun begun => (handle config request).run.bind fun result =>
    .done (some ⟨config, request, begun, result⟩)

/-- Power is lost while nobody holds the lock: whoever held it has stopped. -/
def outage : Prog HelperOp HelperOp.Answer Call :=
  .acquire fun got => if got then .call .lose fun _ => .release (.done none) else .done none

/-- The calls on the scope of an intent: requests to observe or to cancel a job, each under a
configuration of its own, and losses of power. -/
inductive Called (intent : FrozenIntent) : Prog HelperOp HelperOp.Answer Call → Prop
  | request (config : HelperConfig) (request : Request) (hintent : request.intent = intent)
      (hoperation : request.operation ∈ [OperationTag.observeJob, .cancelJob]) :
      Called intent (call config request)
  | outage : Called intent outage

end Slurm

end ExperimentControl
