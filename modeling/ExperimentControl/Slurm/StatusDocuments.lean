import ExperimentControl.Json.Records
import ExperimentControl.Slurm.JobReply

/-!
# Statuses in documents

How the status of a job is read out of a document, as the derived readers of
`core/src/slurm/observation.rs` and `core/src/state.rs` do it. Other fields of a status are passed
over.

* `readWord` — a value of an enumeration by its word.
* `JobStatus.read`, `StatusObservation.read` — **what is written is read back**.
-/

namespace ExperimentControl

namespace Slurm

/-! ## Words -/

/-- The value whose word it is. -/
def readWord {α : Type} (word : α → String) (values : List α) (text : String) : Option α :=
  values.find? fun value => word value = text

def readState : String → Option RunState :=
  readWord stateText [.notSubmitted, .created, .submitting, .queued, .starting, .running,
    .evaluating, .succeeded, .failed, .preempted, .cancelled, .unknown]

def FailureClass.read : String → Option FailureClass :=
  readWord FailureClass.text [.none, .transport, .scheduler, .preemption, .resource,
    .configuration, .model, .evaluation, .unknown]

def StatusSource.read : String → Option StatusSource :=
  readWord StatusSource.text [.sacct, .squeue, .scontrol]

def Availability.read : String → Option Availability :=
  readWord Availability.text [.observed, .notObserved, .unavailable]

def Diagnostic.read : String → Option Diagnostic :=
  readWord Diagnostic.text [.noEvidence, .ownershipNotRecorded, .queryUnavailable,
    .malformedOrForeignEvidence, .queueNotObserved, .queueUnavailable, .regressiveState]

lemma readState_stateText (state : RunState) : readState (stateText state) = some state := by
  cases state <;> rfl

lemma FailureClass.read_text (failure : FailureClass) :
    FailureClass.read failure.text = some failure := by
  cases failure <;> rfl

lemma StatusSource.read_text (source : StatusSource) :
    StatusSource.read source.text = some source := by
  cases source <;> rfl

lemma Availability.read_text (availability : Availability) :
    Availability.read availability.text = some availability := by
  cases availability <;> rfl

lemma Diagnostic.read_text (diagnostic : Diagnostic) :
    Diagnostic.read diagnostic.text = some diagnostic := by
  cases diagnostic <;> rfl

/-! ## Records -/

def readQueue (document : Json) : Option QueueDetail := do
  let fields ← document.asObject
  let source ← Fields.text fields "source"
  let availability ← (Fields.text fields "availability").bind Availability.read
  let reason ← Fields.optional Json.asStr fields "reason"
  return { source, availability, reason }

def readJobId (document : Json) : Option JobId := document.asStr.bind fun text =>
  match JobId.parse text with
  | .ok jobId => some jobId
  | .error _ => none

/-- The reader of a word in a document. -/
def wordOf {α : Type} (read : String → Option α) (document : Json) : Option α :=
  document.asStr.bind read

def JobStatus.read (document : Json) : Option JobStatus := do
  let fields ← document.asObject
  let sshAlias ← Fields.text fields "ssh_alias"
  let jobId ← (Fields.get fields "job_id").bind readJobId
  let schedulerName ← Fields.text fields "scheduler_name"
  let partition ← Fields.text fields "partition"
  let state ← (Fields.text fields "state").bind readState
  let rawState ← Fields.text fields "raw_state"
  let elapsed ← Fields.optional Json.asStr fields "elapsed"
  let exitCode ← Fields.optional Json.asStr fields "exit_code"
  let reason ← Fields.optional Json.asStr fields "reason"
  let failureClass ← Fields.optional (wordOf FailureClass.read) fields "failure_class"
  let observationSource ← Fields.optional (wordOf StatusSource.read) fields "observation_source"
  let observedAt ← Fields.optional Json.asStr fields "observed_at"
  let queue ← Fields.optional readQueue fields "queue"
  return { sshAlias, jobId, schedulerName, partition, state, rawState, elapsed, exitCode, reason,
           failureClass, observationSource, observedAt, queue }

def StatusObservation.read (document : Json) : Option StatusObservation := do
  let fields ← document.asObject
  let status ← (Fields.get fields "status").bind JobStatus.read
  let checkedAt ← Fields.optional Json.asStr fields "checked_at"
  let diagnostic ← Fields.optional (wordOf Diagnostic.read) fields "diagnostic"
  let retainedPrevious ← (Fields.get fields "retained_previous").bind Json.asBool
  return { status, checkedAt, diagnostic, retainedPrevious }

/-! ## What is written is read back -/

lemma nullable_text (text : Option String) :
    Fields.nullable Json.asStr (optionalText text) = some text := by
  cases text <;> rfl

lemma nullable_word {α : Type} {word : α → String} {read : String → Option α}
    (h : ∀ value, read (word value) = some value) (value : Option α) :
    Fields.nullable (wordOf read) (optionalText (value.map word)) = some value := by
  cases value with
  | none => rfl
  | some value => simp [optionalText, Fields.nullable, wordOf, Json.asStr, h]

lemma readQueue_document (queue : QueueDetail) : readQueue queue.document = some queue := by
  simp [readQueue, QueueDetail.document, Json.asObject, Json.asStr, Fields.text, Fields.optional,
    Fields.get_cons, Availability.read_text, nullable_text]

lemma readJobId_value (jobId : JobId) : readJobId (.string jobId.value) = some jobId := by
  simp [readJobId, Json.asStr, JobId.parse, jobId.valid]

lemma JobStatus.read_document (status : JobStatus) :
    JobStatus.read status.document = some status := by
  rw [JobStatus.read]
  refine Fields.read_step rfl (Fields.read_step rfl ?_)
  refine Fields.read_step (Fields.bind_get rfl (readJobId_value _)) ?_
  refine Fields.read_step rfl (Fields.read_step rfl ?_)
  refine Fields.read_step (readState_stateText status.state) (Fields.read_step rfl ?_)
  refine Fields.read_step (Fields.optional_get rfl (nullable_text _)) ?_
  refine Fields.read_step (Fields.optional_get rfl (nullable_text _)) ?_
  refine Fields.read_step (Fields.optional_get rfl (nullable_text _)) ?_
  refine Fields.read_step (Fields.optional_get rfl (nullable_word FailureClass.read_text _)) ?_
  refine Fields.read_step (Fields.optional_get rfl (nullable_word StatusSource.read_text _)) ?_
  refine Fields.read_step (Fields.optional_get rfl (nullable_text _)) ?_
  refine Fields.read_step (Fields.optional_get rfl (?_ : _ = some status.queue)) rfl
  cases status.queue with
  | none => rfl
  | some queue =>
    have hnull : queue.document ≠ .null := by rintro ⟨⟩
    rw [Json.nullable_of_ne hnull, readQueue_document, Option.map_some]

/-- **An observation is read back.** -/
theorem StatusObservation.read_document (observation : StatusObservation) :
    StatusObservation.read observation.document = some observation := by
  simp [StatusObservation.read, StatusObservation.document, Json.asObject, Json.asBool,
    Fields.optional, Fields.get_cons, JobStatus.read_document, nullable_text,
    nullable_word Diagnostic.read_text]

end Slurm

end ExperimentControl
