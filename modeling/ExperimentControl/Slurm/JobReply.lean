import ExperimentControl.Slurm.Helper
import ExperimentControl.Slurm.Reducer

/-!
# Replies with an observed job

The helper's reply that carries an observation, as `core/src/slurm/helper.rs` checks and encodes it.

* `Reply.validate`, `encodeReply` — the check of a reply, and its frame.
* **`encodeReply_fresh`** — an observation that was not retained, whose status passes its own check,
  is encoded for a request that observes or cancels a job.
-/

namespace ExperimentControl

namespace Slurm

def MAX_METADATA_BYTES : ℕ := 8 * 1024 * 1024

/-! ## Documents -/

inductive OperationTag
  | prepareSubmission
  | submit
  | inspectSubmission
  | observeJob
  | observeWorker
  | readMetricHistory
  | observeCheckpoint
  | artifacts
  | cancelJob
  deriving DecidableEq, Repr

def OperationTag.text : OperationTag → String
  | prepareSubmission => "prepare_submission"
  | submit => "submit"
  | inspectSubmission => "inspect_submission"
  | observeJob => "observe_job"
  | observeWorker => "observe_worker"
  | readMetricHistory => "read_metric_history"
  | observeCheckpoint => "observe_checkpoint"
  | artifacts => "artifacts"
  | cancelJob => "cancel_job"

def stateText : RunState → String
  | .notSubmitted => "NOT_SUBMITTED"
  | .created => "CREATED"
  | .submitting => "SUBMITTING"
  | .queued => "QUEUED"
  | .starting => "STARTING"
  | .running => "RUNNING"
  | .evaluating => "EVALUATING"
  | .succeeded => "SUCCEEDED"
  | .failed => "FAILED"
  | .preempted => "PREEMPTED"
  | .cancelled => "CANCELLED"
  | .unknown => "UNKNOWN"

def FailureClass.text : FailureClass → String
  | none => "none"
  | transport => "transport"
  | scheduler => "scheduler"
  | preemption => "preemption"
  | resource => "resource"
  | configuration => "configuration"
  | model => "model"
  | evaluation => "evaluation"
  | unknown => "unknown"

def StatusSource.text : StatusSource → String
  | sacct => "sacct"
  | squeue => "squeue"
  | scontrol => "scontrol"

def Availability.text : Availability → String
  | observed => "OBSERVED"
  | notObserved => "NOT_OBSERVED"
  | unavailable => "UNAVAILABLE"

def Diagnostic.text : Diagnostic → String
  | noEvidence => "NO_EVIDENCE"
  | ownershipNotRecorded => "OWNERSHIP_NOT_RECORDED"
  | queryUnavailable => "QUERY_UNAVAILABLE"
  | malformedOrForeignEvidence => "MALFORMED_OR_FOREIGN_EVIDENCE"
  | queueNotObserved => "QUEUE_NOT_OBSERVED"
  | queueUnavailable => "QUEUE_UNAVAILABLE"
  | regressiveState => "REGRESSIVE_STATE"

/-- An optional text, null when there is none. -/
def optionalText : Option String → Json
  | some text => .string text
  | none => .null

def QueueDetail.document (queue : QueueDetail) : Json :=
  .object [("source", .string queue.source), ("availability", .string queue.availability.text),
    ("reason", optionalText queue.reason)]

def JobStatus.document (status : JobStatus) : Json :=
  .object [("ssh_alias", .string status.sshAlias), ("job_id", .string status.jobId.value),
    ("scheduler_name", .string status.schedulerName), ("partition", .string status.partition),
    ("state", .string (stateText status.state)), ("raw_state", .string status.rawState),
    ("elapsed", optionalText status.elapsed), ("exit_code", optionalText status.exitCode),
    ("reason", optionalText status.reason),
    ("failure_class", optionalText (status.failureClass.map FailureClass.text)),
    ("observation_source", optionalText (status.observationSource.map StatusSource.text)),
    ("observed_at", optionalText status.observedAt),
    ("queue", match status.queue with
      | some queue => queue.document
      | none => .null)]

def StatusObservation.document (observation : StatusObservation) : Json :=
  .object [("status", observation.status.document),
    ("checked_at", optionalText observation.checkedAt),
    ("diagnostic", optionalText (observation.diagnostic.map Diagnostic.text)),
    ("retained_previous", .bool observation.retainedPrevious)]

/-! ## Replies -/

structure RequestIdentity where
  requestSha256 : String
  intentSha256 : String
  operation : OperationTag
  deriving DecidableEq

def RequestIdentity.document (identity : RequestIdentity) : Json :=
  .object [("request_sha256", .string identity.requestSha256),
    ("intent_sha256", .string identity.intentSha256),
    ("operation", .string identity.operation.text)]

/-- A reply whose outcome is an observed job. -/
structure JobReply where
  identity : RequestIdentity
  observation : StatusObservation

namespace JobReply

def document (reply : JobReply) : Json :=
  .object [("identity", reply.identity.document),
    ("outcome", .object [("state", .string "JOB_OBSERVED"),
      ("observation", reply.observation.document)])]

/-- `Reply::validate` where the outcome is an observed job. -/
def validate (reply : JobReply) : Except HelperError Unit := do
  reject (¬validDigest reply.identity.requestSha256 ∨ ¬validDigest reply.identity.intentSha256)
    .identity
  reply.observation.status.validate.mapError fun _ => .metadata
  reject (reply.observation.retainedPrevious ∨
    reply.observation.checkedAt ≠ reply.observation.status.observedAt ∨
    reply.identity.operation ∉ [.observeJob, .cancelJob]) .metadata

end JobReply

/-- A document behind its length. -/
def encode (document : Json) : Except HelperError Bytes := do
  let body := document.write
  reject (body = [] ∨ body.length > MAX_METADATA_BYTES) .tooLarge
  .ok (framed 4 body)

def encodeReply (reply : JobReply) : Except HelperError Bytes := do
  reply.validate
  encode reply.document

/-! ## A reply is bounded -/

lemma textSize_le_of_printable {text : String} {limit : ℕ} (h : printable text limit = true) :
    textSize text ≤ 2 * limit + 2 := by
  simp only [printable, decide_eq_true_eq, Bool.not_eq_true] at h
  have hsize := textSize_le_two h.2.2
  omega

lemma textSize_le_of_word {text : String} {limit : ℕ} (h : ∀ c ∈ text.toList, isWordChar c = true)
    (hlimit : byteLen text ≤ limit) : textSize text ≤ 2 * limit + 2 := by
  have hcontrol : text.toList.any isControl = false := by
    rw [List.any_eq_false]
    intro c hc
    have hword := h c hc
    simp only [isWordChar, decide_eq_true_eq] at hword
    exact hword.2.1
  have hsize := textSize_le_two hcontrol
  omega

lemma size_optionalText_le {text : Option String} {limit : ℕ}
    (h : ∀ shown, text = some shown → textSize shown ≤ limit) (hnull : 4 ≤ limit) :
    (optionalText text).size ≤ limit := by
  rcases text with _ | shown
  · exact hnull
  · exact h shown rfl

/-- A status that passes its check is projected, but for what the queue adds. -/
lemma JobStatus.projected_of_validate {status : JobStatus} (h : status.validate = .ok ()) :
    ∃ (source : StatusSource) (parsed : JobStatus), parsed.Projected source ∧
      parsed.scope = status.scope ∧
      status = { parsed with reason := status.reason, queue := status.queue } ∧
      (∀ reason, status.reason = some reason → printable reason 1024 = true) ∧
      ∀ queue, status.queue = some queue →
        queue.source = "slurm-squeue" ∧ queue.reason = status.reason := by
  rw [JobStatus.validate] at h
  cases hsource : status.observationSource with
  | none =>
    rw [hsource] at h
    cases h
  | some source =>
    rw [hsource] at h
    simp only [bind_eq_ok] at h
    obtain ⟨⟨⟩, -, parsed, hparse, h⟩ := h
    rcases parsed with _ | parsed
    · cases h
    · simp only [bind_eq_ok, reject_eq_ok, not_not, ne_eq] at h
      obtain ⟨next, hnext, hsame⟩ := h
      subst hsame
      obtain ⟨hprojected, hscope, -⟩ := projected_of_parse hparse
      refine ⟨source, parsed, hprojected, hscope, ?_⟩
      unfold JobStatus.withQueue at hnext
      cases hqueue : next.queue with
      | none =>
        rw [hqueue] at hnext
        obtain rfl := Except.ok.inj hnext
        refine ⟨by rw [← hqueue], fun reason hreason => ?_, ?_⟩
        · exact (hprojected.reason reason hreason).2.2.1
        · rintro queue ⟨⟩
      | some queue =>
        rw [hqueue] at hnext
        simp only [bind_eq_ok, reject_eq_ok, not_or, not_not, ne_eq] at hnext
        obtain ⟨⟨⟩, ⟨-, -, hname, hreason, hprintable, -⟩, hnext⟩ := hnext
        refine ⟨?_, fun reason hsome => ?_, ?_⟩
        · rw [← Except.ok.inj hnext]
        · rw [hsome] at hprintable
          simpa using hprintable
        · rintro other ⟨⟩
          exact ⟨hname, hreason⟩

lemma textSize_name_le : (∀ state, textSize (stateText state) ≤ 20) ∧
    (∀ tag : OperationTag, textSize tag.text ≤ 30) ∧
    (∀ failure : FailureClass, textSize failure.text ≤ 20) ∧
    (∀ source : StatusSource, textSize source.text ≤ 20) ∧
    (∀ availability : Availability, textSize availability.text ≤ 20) ∧
    ∀ diagnostic : Diagnostic, textSize diagnostic.text ≤ 40 := by
  refine ⟨?_, ?_, ?_, ?_, ?_, ?_⟩ <;> rintro (_ | _) <;> decide

/-- **The document of a checked status is bounded.** -/
lemma size_status_le {status : JobStatus} (h : status.validate = .ok ()) :
    status.document.size ≤ 10000 ∧ (optionalText status.observedAt).size ≤ 130 := by
  obtain ⟨source, parsed, hprojected, -, hsame, hreason, hqueue⟩ :=
    JobStatus.projected_of_validate h
  obtain ⟨hstates, -, hfailures, hsources, havailable, -⟩ := textSize_name_le
  obtain ⟨halias, hpartition, hname⟩ := JobScope.validate_eq_ok.mp hprojected.scope
  obtain ⟨halias, halias'⟩ := clear_of_component halias
  obtain ⟨hpartition, hpartition'⟩ := clear_of_component hpartition
  have h₁ : textSize status.sshAlias ≤ 130 := by
    rw [hsame]
    exact halias.textSize_eq.le.trans (Nat.add_le_add_right halias' 2)
  have h₂ : textSize status.jobId.value ≤ 130 := by
    have hvalid := status.jobId.valid
    have hbytes := hvalid
    simp only [isJobId, decide_eq_true_eq] at hbytes
    exact textSize_le_of_word (isWordChar_of_mem_jobId hvalid) hbytes.1
  have h₃ : textSize status.schedulerName ≤ 258 := by
    rw [hsame]
    exact textSize_le_of_printable hname
  have h₄ : textSize status.partition ≤ 130 := by
    rw [hsame]
    exact hpartition.textSize_eq.le.trans (Nat.add_le_add_right hpartition' 2)
  have h₅ : textSize status.rawState ≤ 130 := by
    rw [hsame]
    exact textSize_le_of_printable hprojected.state.1
  have h₆ : (optionalText status.elapsed).size ≤ 130 := by
    rw [hsame]
    exact size_optionalText_le
      (fun text htext => textSize_le_of_printable (hprojected.elapsed text htext)) (by decide)
  have h₇ : (optionalText status.exitCode).size ≤ 130 := by
    rw [hsame]
    refine size_optionalText_le (fun text htext => ?_) (by decide)
    obtain ⟨hword, hbytes⟩ := isWordChar_of_mem_exitCode (hprojected.exitCode text htext)
    have hlimit : byteLen text ≤ 64 := hbytes.trans (by decide)
    exact textSize_le_of_word hword hlimit
  have h₈ : (optionalText status.reason).size ≤ 2050 :=
    size_optionalText_le (fun text htext => textSize_le_of_printable (hreason text htext)) (by decide)
  have h₉ : (optionalText (status.failureClass.map FailureClass.text)).size ≤ 20 := by
    refine size_optionalText_le (fun text htext => ?_) (by decide)
    obtain ⟨failure, -, rfl⟩ := Option.map_eq_some_iff.mp htext
    exact hfailures failure
  have h₁₀ : (optionalText (status.observationSource.map StatusSource.text)).size ≤ 20 := by
    refine size_optionalText_le (fun text htext => ?_) (by decide)
    obtain ⟨source, -, rfl⟩ := Option.map_eq_some_iff.mp htext
    exact hsources source
  have h₁₁ : (optionalText status.observedAt).size ≤ 130 := by
    rw [hsame]
    exact size_optionalText_le
      (fun text htext => textSize_le_of_printable (hprojected.observedAt text htext)) (by decide)
  have h₁₂ : ∀ queue, status.queue = some queue → queue.document.size ≤ 2200 := by
    intro queue hsome
    obtain ⟨hqname, hqreason⟩ := hqueue queue hsome
    have havailable := havailable queue.availability
    have hsource : textSize queue.source = 14 := by
      rw [hqname]
      decide
    have k₁ : textSize "source" = 8 := textSize_ofList (by decide)
    have k₂ : textSize "availability" = 14 := textSize_ofList (by decide)
    have k₃ : textSize "reason" = 8 := textSize_ofList (by decide)
    simp only [QueueDetail.document, Json.size, Json.sizeFields, Json.joinedSize, hqreason]
    omega
  have hstate := hstates status.state
  have hrow : (match status.queue with
      | some queue => queue.document
      | none => Json.null).size ≤ 2200 := by
    cases hsome : status.queue with
    | none => decide
    | some queue => exact h₁₂ queue hsome
  have hkeys : textSize "ssh_alias" + textSize "job_id" + textSize "scheduler_name" +
      textSize "partition" + textSize "state" + textSize "raw_state" + textSize "elapsed" +
      textSize "exit_code" + textSize "reason" + textSize "failure_class" +
      textSize "observation_source" + textSize "observed_at" + textSize "queue" ≤ 200 := by
    decide
  refine ⟨?_, h₁₁⟩
  simp only [JobStatus.document, Json.size, Json.sizeFields, Json.joinedSize]
  omega

/-- **An observation that was not retained is encoded**, for a request that observes or cancels a
job, when its status passes its own check and was observed when it says. -/
theorem encodeReply_fresh {identity : RequestIdentity} {observation : StatusObservation}
    (hrequest : validDigest identity.requestSha256 = true)
    (hintent : validDigest identity.intentSha256 = true)
    (hoperation : identity.operation ∈ [OperationTag.observeJob, .cancelJob])
    (hstatus : observation.status.validate = .ok ())
    (hfresh : observation.retainedPrevious = false)
    (hat : observation.checkedAt = observation.status.observedAt) :
    ∃ frame, encodeReply ⟨identity, observation⟩ = .ok frame := by
  obtain ⟨hsize, hobserved⟩ := size_status_le hstatus
  obtain ⟨-, htags, -, -, -, hdiagnostics⟩ := textSize_name_le
  obtain ⟨hrequest', hlength⟩ := clear_of_validDigest hrequest
  obtain ⟨hintent', hlength'⟩ := clear_of_validDigest hintent
  have htag := htags identity.operation
  have hdiagnostic : (optionalText (observation.diagnostic.map Diagnostic.text)).size ≤ 40 := by
    refine size_optionalText_le (fun text htext => ?_) (by decide)
    obtain ⟨diagnostic, -, rfl⟩ := Option.map_eq_some_iff.mp htext
    exact hdiagnostics diagnostic
  have hkeys : textSize "request_sha256" + textSize "intent_sha256" + textSize "operation" +
      textSize "identity" + textSize "outcome" + textSize "state" + textSize "JOB_OBSERVED" +
      textSize "observation" + textSize "status" + textSize "checked_at" + textSize "diagnostic" +
      textSize "retained_previous" ≤ 200 := by decide
  have hbody : (JobReply.document ⟨identity, observation⟩).write.length ≤ 20000 := by
    rw [Json.length_write]
    simp only [JobReply.document, RequestIdentity.document, StatusObservation.document, hat, hfresh,
      Json.size, Json.sizeFields, Json.joinedSize, hrequest'.textSize_eq, hintent'.textSize_eq,
      hlength, hlength']
    omega
  have hpos : 0 < (JobReply.document ⟨identity, observation⟩).write.length := by
    rw [Json.length_write, JobReply.document, Json.size]
    omega
  refine ⟨_, bind_eq_ok.mpr ⟨(), bind_eq_ok.mpr ⟨(), reject_eq_ok.mpr ?_,
    bind_eq_ok.mpr ⟨(), mapError_eq_ok.mpr hstatus, reject_eq_ok.mpr ?_⟩⟩,
    bind_eq_ok.mpr ⟨(), reject_eq_ok.mpr ?_, rfl⟩⟩⟩
  · rintro (hbad | hbad)
    · exact hbad hrequest
    · exact hbad hintent
  · rintro (hbad | hbad | hbad)
    · rw [hfresh] at hbad
      cases hbad
    · exact hbad hat
    · exact hbad hoperation
  · rintro (hnil | hlong)
    · rw [hnil] at hpos
      exact Nat.lt_irrefl 0 hpos
    · unfold MAX_METADATA_BYTES at hlong
      omega

end Slurm

end ExperimentControl
