import ExperimentControl.Library.Alone
import ExperimentControl.Slurm.CancelRuns

/-!
# Finishing an interrupted cancel

What a cancel request comes to that runs by itself, with storage and tools that work, on whatever an
earlier run of `Slurm.CancelRuns` has left.

* `workingWorld` — operations that work, with tools that say what they may say.
* `Whole` — both files of a cancel are there, or neither.
* **`interrupted_cancel_finishes`** — from every whole store that a run reaches, a cancel is answered.
* **`torn_cancel_refused`** — from one that stopped between its two files, it is not.
-/

namespace ExperimentControl

namespace Slurm

/-! ## Operations that work -/

section Working

/-- What is outside of the helper: what its tools may say, and what the clock may show. -/
structure Outside where
  said : Tool → String → Prop
  shows : String → Prop
  ticks : ∃ text, shows text ∧ printable text 64 = true

variable (out : Outside)

/-- Storage that works, a clock, and tools that can be started and say what they may say. A process
may still fail, and a call may run out of time or be cancelled. -/
def workingExec (s : CancelScope) : (op : HelperOp) → op.Answer → CancelScope → Prop
  | .check _, a, t => a = .ok () ∧ t = s
  | .cancelled, _, t => t = s
  | .expired, _, t => t = s
  | .now, a, t => (∃ text, a = .ok text ∧ out.shows text ∧ printable text 64 = true) ∧ t = s
  | .readLedger, a, t => a = .ok (.found ⟨s.startExists, s.receipt⟩) ∧ t = s
  | .entryExists file, a, t => a = .ok (s.files file).seen.isSome ∧ t = s
  | .read file, a, t => (match (s.files file).seen with
      | some document => a = .ok document
      | none => a = .error .storage) ∧ t = s
  | .publishNew file document, a, t => match (s.files file).seen with
      | none => a = .ok () ∧ t = s.put file (.durable document)
      | some _ => a = .error .storage ∧ t = s
  | .replaceRegular file document, a, t => match (s.files file).seen with
      | some _ => a = .ok () ∧ t = s.put file (.durable document)
      | none => a = .error .storage ∧ t = s
  | .execute tool argv, a, t =>
      (∃ process, a = .ok process ∧
        ∀ text, LocalProcess.output process = some text → out.said tool text) ∧
      if tool = .scancel then s.Cancels argv t else t = s
  | .observed observation, _, t => t = { s with observations := observation :: s.observations }
  | .begin, entry, t => s.files .state = entry ∧ t = s
  | .lose, _, t => s.Loses t

def workingWorld : World CancelScope HelperOp HelperOp.Answer := ⟨workingExec out, helperCrash⟩

variable {out}

/-- What works is one of the things that may happen. -/
lemma workingExec_sub {s t : CancelScope} {op : HelperOp} {a : op.Answer}
    (h : workingExec out s op a t) : helperExec s op a t := by
  cases op with
  | check what =>
    obtain ⟨rfl, rfl⟩ := h
    rfl
  | cancelled | expired => exact h
  | now =>
    obtain ⟨⟨text, rfl, -, hprintable⟩, rfl⟩ := h
    exact ⟨rfl, hprintable⟩
  | readLedger =>
    obtain ⟨rfl, rfl⟩ := h
    exact ⟨rfl, rfl⟩
  | entryExists file =>
    obtain ⟨rfl, rfl⟩ := h
    exact ⟨rfl, rfl⟩
  | read file =>
    obtain ⟨hread, rfl⟩ := h
    cases hseen : (t.files file).seen with
    | none =>
      rw [hseen] at hread
      subst hread
      rfl
    | some document =>
      rw [hseen] at hread
      subst hread
      exact ⟨rfl, hseen⟩
  | publishNew file document =>
    cases hseen : (s.files file).seen with
    | none =>
      simp only [workingExec, hseen] at h
      obtain ⟨rfl, rfl⟩ := h
      exact ⟨hseen, rfl⟩
    | some other =>
      simp only [workingExec, hseen] at h
      obtain ⟨rfl, rfl⟩ := h
      exact .inl rfl
  | replaceRegular file document =>
    cases hseen : (s.files file).seen with
    | none =>
      simp only [workingExec, hseen] at h
      obtain ⟨rfl, rfl⟩ := h
      exact .inl rfl
    | some other =>
      simp only [workingExec, hseen] at h
      obtain ⟨rfl, rfl⟩ := h
      exact ⟨by rw [hseen]; rintro ⟨⟩, rfl⟩
  | execute tool argv =>
    obtain ⟨-, h⟩ := h
    cases tool with
    | scancel =>
      rw [if_pos rfl] at h
      exact h
    | sacct | squeue | scontrol => exact h
  | observed observation => exact h
  | begin => exact ⟨h.2, h.1⟩
  | lose => exact h

end Working

/-! ## What the scheduler may say -/

/-- A query that is answered as its tool may answer. -/
def Told (out : Outside) (tool : Tool) (query : Query) : Prop :=
  ∀ text, query = .success text → out.said tool text

/-- The observations that the tools' answers may come to. -/
inductive Observable (out : Outside) (scope : JobScope)
    (token : String) : StatusObservation → Prop
  | tables {accounting queue : Query} {at_ : String} {observation : StatusObservation}
      (hat : out.shows at_) (haccounting : Told out .sacct accounting)
      (hqueue : Told out .squeue queue)
      (h : observeOwnedStatus scope token none accounting queue (some at_) = .ok observation) :
      Observable out scope token observation
  | control {text at_ : String} {status : JobStatus} (hat : out.shows at_) (htext : out.said .scontrol text)
      (h : parseOwnedControlStatus text scope token (some at_) = .ok (some status)) :
      Observable out scope token ⟨status, some at_, none, false⟩

section Observations

variable {out : Outside} {scope : JobScope} {token : String}

/-- An observation that the controller tells. -/
lemma control_told {text : String} {at_ : Option String} {status : JobStatus}
    (h : parseOwnedControlStatus text scope token at_ = .ok (some status)) :
    status.validate = .ok () ∧ status.scope = scope ∧ status.observedAt = at_ := by
  unfold parseOwnedControlStatus at h
  obtain ⟨⟨⟩, -, h⟩ := bind_eq_ok.mp h
  rcases hrows : rows text with _ | ⟨line, _ | ⟨other, rest⟩⟩
  · rw [hrows] at h
    cases h
  · rw [hrows] at h
    simp only [bind_eq_ok] at h
    obtain ⟨values, -, row, -, ⟨⟩, -, h⟩ := h
    obtain ⟨-, hprojected, hscope, hat⟩ := owned_of_parse h
    exact ⟨hprojected.validate, hscope, hat⟩
  · rw [hrows] at h
    cases h

/-- **An observation with a source** is a fresh one of the job that passes its check. -/
theorem Observable.fresh {observation : StatusObservation}
    (h : Observable out scope token observation)
    (hsource : observation.status.observationSource ≠ none) :
    observation.status.scope = scope ∧ observation.status.validate = .ok () ∧
      observation.retainedPrevious = false ∧
      observation.checkedAt = observation.status.observedAt := by
  cases h with
  | tables hat haccounting hqueue h =>
    have hreduced := observeOwnedStatus_reduced h
    have hfresh : observation.retainedPrevious = false := by
      cases hretained : observation.retainedPrevious with
      | false => rfl
      | true => cases hreduced.retained hretained
    rcases hreduced.fresh hfresh with ⟨-, hunknown⟩ | ⟨-, hvalid, hchecked⟩
    · rw [hunknown] at hsource
      exact absurd rfl hsource
    · exact ⟨hreduced.bound, hvalid, hfresh, hchecked⟩
  | control hat htext h =>
    obtain ⟨hvalid, hscope, hat⟩ := control_told h
    exact ⟨hscope, hvalid, rfl, hat.symm⟩

/-- The reducer has an answer for every job of a scope that passes its check. -/
lemma observeOwnedStatus_ok {marker at_ : String} (hscope : scope.validate = .ok ())
    (htoken : submissionMarker token = .ok marker) (hat : printable at_ 64 = true)
    (accounting queue : Query) : ∃ observation,
      observeOwnedStatus scope token none accounting queue (some at_) = .ok observation := by
  have hwith (accounting : Query) : ∃ observation,
      observeWith scope none (some at_) (ownedParser token) accounting queue = .ok observation := by
    unfold observeWith
    rw [hscope]
    simp only [ok_bind, Option.any_some, hat, Option.any_none, reject]
    cases accounting with
    | failed => exact ⟨_, rfl⟩
    | notRequested => exact ⟨_, rfl⟩
    | success output =>
      simp only [decide_not, decide_true, Bool.not_true, Bool.false_eq_true, if_false, ok_bind]
      rcases ownedParser token output scope .sacct (some at_) with error | _ | status
      · exact ⟨_, rfl⟩
      · exact ⟨_, rfl⟩
      · exact ⟨_, rfl⟩
  have hmarker : (submissionMarker token).mapError (fun _ => Error.ownership) = .ok marker := by
    rw [htoken]
    rfl
  unfold observeOwnedStatus
  rw [hmarker]
  cases accounting with
  | failed => exact hwith .failed
  | notRequested => exact hwith .notRequested
  | success output =>
    simp only [ok_bind]
    split_ifs
    · obtain ⟨observation, hobservation⟩ := hwith .notRequested
      rw [hobservation]
      exact ⟨_, rfl⟩
    · exact hwith (.success output)

end Observations

/-! ## The files can be read back -/

section Sizes

variable {intent : FrozenIntent} {job : JobId}

lemma size_text_le {text : String} {limit : ℕ} (h : printable text limit = true) :
    (Json.string text).size ≤ 2 * limit + 2 :=
  textSize_le_of_printable h

/-- The document of an observation that may be given is bounded. -/
lemma size_observation_le {observation : StatusObservation} (h : Shown intent job observation) :
    observation.document.size ≤ 10500 := by
  obtain ⟨hstatus, hat⟩ := size_status_le h.valid
  have hdiagnostic : (optionalText (observation.diagnostic.map Diagnostic.text)).size ≤ 40 := by
    refine size_optionalText_le (fun text htext => ?_) (by decide)
    obtain ⟨diagnostic, -, rfl⟩ := Option.map_eq_some_iff.mp htext
    exact textSize_name_le.2.2.2.2.2 diagnostic
  have hkeys : textSize "status" + textSize "checked_at" + textSize "diagnostic" +
      textSize "retained_previous" ≤ 100 := by decide
  simp only [StatusObservation.document, h.checked, h.fresh, Json.size, Json.sizeFields,
    Json.joinedSize]
  omega

lemma size_digest_eq (intent : FrozenIntent) : textSize intent.digest = 73 := by
  obtain ⟨hclear, hlength⟩ := clear_of_validDigest intent.digest_valid
  rw [hclear.textSize_eq, hlength]

/-- The fields that every intent of a cancel has. -/
lemma size_names_le (intent : FrozenIntent) (job : JobId) :
    textSize intent.scope.project ≤ 130 ∧ textSize intent.scope.runId ≤ 130 ∧
      textSize intent.scope.attemptId ≤ 130 ∧ textSize intent.target.backendId ≤ 130 ∧
      textSize job.value ≤ 130 := by
  obtain ⟨-, hattempt, hbackend⟩ := intent.names
  have hscope := intent.scope_valid
  simp only [Scope.validate, bind_eq_ok, mapError_eq_ok] at hscope
  obtain ⟨⟨⟩, hproject, ⟨⟩, hrun, hvalid⟩ := hscope
  obtain ⟨hproject, hproject'⟩ := clear_of_validateId hproject
  obtain ⟨hrun, hrun'⟩ := clear_of_validateId hrun
  obtain ⟨hbackend, hbackend'⟩ := clear_of_component hbackend
  have hjob := job.valid
  simp only [isJobId, decide_eq_true_eq] at hjob
  rw [hproject.textSize_eq, hrun.textSize_eq, hbackend.textSize_eq,
    (clear_of_validateAttempt hvalid).textSize_eq]
  refine ⟨by omega, by omega, by omega, by omega, ?_⟩
  exact textSize_le_of_word (isWordChar_of_mem_jobId job.valid) hjob.1

/-- The names of the fields of an intent and of its record. -/
lemma size_keys_le : textSize "schema_version" + textSize "state" + textSize "REQUESTED" +
    textSize "VERIFIED" + textSize "requested_at" + textSize "project" + textSize "run_id" +
    textSize "attempt_id" + textSize "backend" + textSize "backend_job_id" + textSize "verified_at" +
    textSize "result" + textSize "version" + textSize "intent_sha256" + textSize "intent" ≤ 250 := by
  decide

lemma size_startDocument_le : (startDocument intent).size ≤ MAX_METADATA_BYTES := by
  have hdigest := size_digest_eq intent
  have hkeys := size_keys_le
  have hversion : (Json.ofNat PROTOCOL_VERSION.toNat).size ≤ 20 := size_ofNat_le 1
  simp only [startDocument, Started.document, Json.size, Json.sizeFields, Json.joinedSize,
    MAX_METADATA_BYTES]
  omega

/-- What a record adds to its intent. -/
lemma size_recordDocument_le (saved : Json) :
    (recordDocument intent saved).size ≤ saved.size + 400 := by
  have hdigest := size_digest_eq intent
  have hkeys := size_keys_le
  have hversion : (Json.ofNat PROTOCOL_VERSION.toNat).size ≤ 20 := size_ofNat_le 1
  simp only [recordDocument, CancelRecord.document, Json.size, Json.sizeFields, Json.joinedSize]
  omega

lemma size_requested_le {at_ : String} (hat : printable at_ 128 = true) :
    (requested intent job at_).size ≤ 1300 := by
  obtain ⟨hproject, hrun, hattempt, hbackend, hjob⟩ := size_names_le intent job
  have hkeys := size_keys_le
  have hversion : (Json.ofNat 1).size ≤ 20 := size_ofNat_le 1
  have hat := textSize_le_of_printable hat
  simp only [requested, Submission.requestedIntent, cancelIdentity, Json.ofOption, Json.size,
    Json.sizeFields, Json.joinedSize]
  omega

lemma size_verified_le {at_ verifiedAt : String} {observation : StatusObservation}
    (hat : printable at_ 128 = true) (hverified : printable verifiedAt 128 = true)
    (hshown : Shown intent job observation) :
    (verified intent job at_ verifiedAt observation).size ≤ 12700 := by
  obtain ⟨hproject, hrun, hattempt, hbackend, hjob⟩ := size_names_le intent job
  have hkeys := size_keys_le
  have hversion : (Json.ofNat 1).size ≤ 20 := size_ofNat_le 1
  have hat := textSize_le_of_printable hat
  have hverified := textSize_le_of_printable hverified
  have hobservation := size_observation_le hshown
  have hfields : verified intent job at_ verifiedAt observation =
      .object [("schema_version", .ofNat 1), ("state", .string "VERIFIED"),
        ("requested_at", .string at_), ("project", .string intent.scope.project),
        ("run_id", .string intent.scope.runId), ("attempt_id", .string intent.scope.attemptId),
        ("backend", .string intent.target.backendId), ("backend_job_id", .string job.value),
        ("verified_at", .string verifiedAt), ("result", observation.document)] := by
    simp [verified, requested, Submission.verifiedIntent, Submission.requestedIntent,
      cancelIdentity, Json.set, Fields.insert, Json.ofOption]
  rw [hfields]
  simp only [Json.size, Json.sizeFields, Json.joinedSize]
  omega

/-- **What may be persisted is within the bound of its reader.** -/
lemma size_persisted_le {document : Json} {shown : Option StatusObservation}
    (h : Persisted intent job document shown) : document.size ≤ MAX_METADATA_BYTES := by
  have hrecord (saved : Json) := @size_recordDocument_le intent saved
  cases h with
  | requested hat =>
    refine (hrecord _).trans ?_
    have := @size_requested_le intent job _ hat
    unfold MAX_METADATA_BYTES
    omega
  | verified hat hverified ended =>
    refine (hrecord _).trans ?_
    have := size_verified_le hat hverified ended.toShown
    unfold MAX_METADATA_BYTES
    omega

end Sizes

/-! ## Replies that are given -/

section Given

variable {intent : FrozenIntent} {job : JobId} {request : Request} {observation : StatusObservation}

/-- A request to cancel the job of an intent. -/
structure Request.Cancels (request : Request) (intent : FrozenIntent) (job : JobId) : Prop where
  intent : request.intent = intent
  operation : request.operation = .cancelJob
  job : request.jobId = some job

lemma Request.Cancels.single (h : request.Cancels intent job) : '_' ∉ job.value.toList :=
  request.single job h.job

/-- What may be shown is given. -/
lemma Shown.given (h : Shown intent job observation) (hrequest : request.Cancels intent job) :
    Reply.forRequest request (.jobObserved observation) =
      .ok ⟨request.identity, .jobObserved observation⟩ := by
  obtain ⟨hrequestDigest, hintentDigest⟩ := request.identity_valid
  refine Reply.forRequest_ok ?_ ?_ ?_
  · refine bind_eq_ok.mpr ⟨(), reject_eq_ok.mpr ?_, bind_eq_ok.mpr ⟨(), ?_, reject_eq_ok.mpr ?_⟩⟩
    · simp [hrequestDigest, hintentDigest]
    · rw [h.valid]
      rfl
    · have hoperation : request.identity.operation = .cancelJob := hrequest.operation
      simp [h.fresh, h.checked, hoperation]
  · simp [Reply.bound, Request.requestedJobId, hrequest.job, hrequest.intent, h.own, h.name, h.backend]
  · rw [hrequest.intent]
    exact h.silent

/-- Whether a byte may stand in a token. -/
def isTokenByte (byte : UInt8) : Bool := isLowerHex (Char.ofNat byte.toNat)

lemma countP_utf8_of_hex {text : String} (h : text.toList.all isLowerHex = true) :
    (utf8 text).countP isTokenByte = text.toList.length := by
  have hall : ∀ n < 128, isLowerHex (Char.ofNat n) = true →
      (String.utf8EncodeChar (Char.ofNat n)).countP isTokenByte = 1 := by decide
  have hchar (c : Char) (hc : isLowerHex c = true) :
      (String.utf8EncodeChar c).countP isTokenByte = 1 := by
    have hsame : Char.ofNat c.toNat = c := Char.ofNat_toNat c
    have hone := hall c.toNat (toNat_lt_of_isIdChar (isIdChar_of_isLowerHex hc))
    rw [hsame] at hone
    exact hone hc
  rw [utf8_eq]
  generalize text.toList = chars at h ⊢
  induction chars with
  | nil => rfl
  | cons c rest ih =>
    simp only [List.all_cons, Bool.and_eq_true] at h
    rw [List.flatMap_cons, List.countP_append, hchar c h.1, ih h.2, List.length_cons, Nat.add_comm]

/-- A token stands only where there are enough digits for it. -/
lemma silent_of_countP (intent : FrozenIntent) {outcome : ReplyOutcome}
    (h : outcome.document.write.countP isTokenByte < 32) :
    Reply.echoes intent.submissionToken outcome = false := by
  obtain ⟨marker, htoken⟩ := intent.token_valid
  simp only [submissionMarker, bind_eq_ok, reject_eq_ok, not_or, not_not] at htoken
  obtain ⟨⟨⟩, ⟨hlength, hhex⟩, -⟩ := htoken
  refine decide_eq_false fun hinfix => ?_
  have hcount := hinfix.sublist.countP_le (p := isTokenByte)
  rw [countP_utf8_of_hex hhex, hlength] at hcount
  omega

lemma silent_unknown (intent : FrozenIntent) (reason : UnknownReason) :
    Reply.echoes intent.submissionToken (.unknown reason) = false := by
  refine silent_of_countP intent ?_
  revert reason
  have hall : ∀ reason ∈ [UnknownReason.missingLedger, .incompleteClaim, .malformedLedger,
      .submitStarted, .uncertainProcessResult, .storageUnavailable, .lockUnavailable, .cancelled,
      .schedulerNotObserved, .schedulerUnavailable, .schedulerEvidenceInvalid],
      (ReplyOutcome.unknown reason).document.write.countP isTokenByte < 32 := by decide
  intro reason
  exact hall reason (by cases reason <;> decide)

/-- The outcomes that a cancel comes to here. -/
inductive IsAnswer (intent : FrozenIntent) (job : JobId) : ReplyOutcome → Prop
  | observed {observation : StatusObservation} (h : Shown intent job observation) :
      IsAnswer intent job (.jobObserved observation)
  | pending : IsAnswer intent job (.cancelPending job.value)
  | unknown (reason : UnknownReason) : IsAnswer intent job (.unknown reason)

/-- An outcome that a cancel comes to is given, if a pending one does not echo the token. -/
lemma IsAnswer.given {outcome : ReplyOutcome} (h : IsAnswer intent job outcome)
    (hrequest : request.Cancels intent job)
    (hpending : Reply.echoes intent.submissionToken (.cancelPending job.value) = false) :
    Reply.forRequest request outcome = .ok ⟨request.identity, outcome⟩ := by
  obtain ⟨hrequestDigest, hintentDigest⟩ := request.identity_valid
  cases h with
  | observed h => exact h.given hrequest
  | pending =>
    have hoperation : request.identity.operation = .cancelJob := hrequest.operation
    refine Reply.forRequest_ok ?_ ?_ (hrequest.intent ▸ hpending)
    · simp [Reply.validate, hrequestDigest, hintentDigest, job.valid, hrequest.single, hoperation,
        reject]
    · simp [Reply.bound, Request.requestedJobId, hrequest.job]
  | unknown reason =>
    refine Reply.forRequest_ok ?_ rfl (silent_unknown _ reason)
    simp [Reply.validate, hrequestDigest, hintentDigest, reject]

end Given

/-! ## What is planned -/

section Planned

variable {intent : FrozenIntent} {job : JobId}

lemma printable_le {text : String} {low high : ℕ} (h : printable text low = true)
    (hle : low ≤ high) : printable text high = true := by
  simp only [printable, decide_eq_true_eq] at h ⊢
  exact ⟨h.1, h.2.1.trans hle, h.2.2⟩

lemma printable_job (job : JobId) : printable job.value 64 = true := by
  have hword := isWordChar_of_mem_jobId job.valid
  have hjob := job.valid
  simp only [isJobId, decide_eq_true_eq] at hjob
  simp only [printable, decide_eq_true_eq, List.any_eq_true, not_exists, not_and, Bool.not_eq_true]
  refine ⟨?_, hjob.1, fun c hc => ?_⟩
  · intro hempty
    have hvalid := job.valid
    rw [hempty] at hvalid
    revert hvalid
    decide
  · have hchar := hword c hc
    simp only [isWordChar, decide_eq_true_eq, Bool.not_eq_true] at hchar
    exact hchar.2.1

lemma validateId_of_component {text : String} (h : component text = true) :
    validateId text = .ok () := by
  simp only [component, decide_eq_true_eq] at h
  rw [validateId, reject_eq_ok, not_or, not_or, not_not, not_not]
  refine ⟨Nat.not_lt.mpr h.1, h.2.1, ?_⟩
  refine List.all_eq_true.mpr fun c hc => ?_
  have hchar := List.all_eq_true.mp h.2.2 c hc
  simp only [decide_eq_true_eq, isIdChar] at hchar ⊢
  tauto

lemma target_ok (intent : FrozenIntent) (job : JobId) :
    (cancelIdentity intent job).target.validate = .ok () := by
  have hscope := intent.scope_valid
  simp only [Scope.validate, bind_eq_ok, mapError_eq_ok] at hscope
  obtain ⟨⟨⟩, hproject, ⟨⟩, hrun, hattempt⟩ := hscope
  simp [Submission.TargetIdentity.validate, cancelIdentity, hproject, hrun, hattempt, Except.mapError]

lemma identity_ok (intent : FrozenIntent) (job : JobId) :
    (cancelIdentity intent job).validate = .ok () := by
  have hjob := printable_le (printable_job job) (by decide : 64 ≤ 256)
  have hbackend := validateId_of_component intent.names.2.2
  rw [Submission.CancelIdentity.validate, target_ok]
  simp [cancelIdentity, hbackend, hjob, Except.mapError, reject]

lemma exactStatus_ok (intent : FrozenIntent) (job : JobId) (observation : StatusObservation) :
    (exactStatus intent job observation).validate = .ok () := by
  have hjob := printable_le (printable_job job) (by decide : 64 ≤ 256)
  have hstate : ∀ state, printable (stateText state) 64 = true := by
    have hall : ∀ state ∈ [RunState.notSubmitted, .created, .submitting, .queued, .starting, .running,
        .evaluating, .succeeded, .failed, .preempted, .cancelled, .unknown],
        printable (stateText state) 64 = true := by decide
    intro state
    exact hall state (by cases state <;> decide)
  rw [exactStatus, Submission.CancelStatus.validate, target_ok]
  simp [hjob, hstate, reject, StatusObservation.document, Json.isObject, Json.asObject]

/-- What was read of a cancel's intent. -/
def Readable (intent : FrozenIntent) (job : JobId) (existing : Option Json) : Prop :=
  ∀ saved, existing = some saved → ∃ shown, Persisted intent job (recordDocument intent saved) shown

lemma readable_requested {at_ : String} (hat : printable at_ 128 = true) :
    Readable intent job (some (requested intent job at_)) := by
  intro saved h
  cases h
  exact ⟨_, .requested hat⟩

lemma exactStatus_given {observation : StatusObservation} : ∀ given,
    some (exactStatus intent job observation) = some given → given.validate = .ok () := by
  intro given h
  cases h
  exact exactStatus_ok _ _ _

/-- **There is a plan** behind every intent that may be persisted. -/
lemma plan_ok {existing : Option Json} (hexisting : Readable intent job existing)
    {status : Option Submission.CancelStatus}
    (hstatus : ∀ given, status = some given → given.validate = .ok ()) {now : String}
    (hnow : printable now 64 = true) : ∃ decision,
      Submission.planCancel (cancelIdentity intent job) existing status now = .ok decision := by
  have hstatus' : status.forM Submission.CancelStatus.validate = .ok () := by
    cases status with
    | none => rfl
    | some given => exact hstatus given rfl
  unfold Submission.planCancel
  rw [identity_ok, hstatus', printable_le hnow (by decide)]
  cases existing with
  | none => exact ⟨_, rfl⟩
  | some saved =>
    obtain ⟨shown, hpersisted⟩ := hexisting saved rfl
    generalize hrecord : recordDocument intent saved = record at hpersisted
    cases hpersisted with
    | requested hat =>
      obtain rfl := recordDocument_inj hrecord
      exact ⟨_, Submission.planExisting_requested _ _ _ _⟩
    | verified hat hverified ended =>
      obtain rfl := recordDocument_inj hrecord
      exact ⟨_, Submission.planExisting_verified _ _ _ _ rfl _⟩

end Planned

/-! ## Programs that work -/

section Works

variable {out : Outside} {intent : FrozenIntent} {job : JobId}
  {request : Request} {tools : SchedulerTools} {F G : (CancelFile → Entry) → Prop} {news : List StatusObservation}
  {α β : Type}

/-- The scope of the job, its files, and what was observed of it. -/
def Standing (job : JobId) (F : (CancelFile → Entry) → Prop) (news : List StatusObservation)
    (s : CancelScope) : Prop :=
  s.receipt = some job ∧ F s.files ∧ s.observations = news

/-- Under the lock the program succeeds with a value as stated, and leaves the files alone. -/
abbrev Works (out : Outside) (job : JobId) (F : (CancelFile → Entry) → Prop)
    (news : List StatusObservation) (x : HelperAct α) (fact : α → Prop) : Prop :=
  Act.Delivers (workingWorld out) true (Standing job F news) x fun a after t =>
    after = true ∧ fact a ∧ Standing job F news t

lemma Works.bind {x : HelperAct α} {f : α → HelperAct β} {p : α → Prop}
    {R : β → Bool → CancelScope → Prop} (hx : Works out job F news x p)
    (hf : ∀ a, p a → Act.Delivers (workingWorld out) true (Standing job F news) (f a) R) :
    Act.Delivers (workingWorld out) true (Standing job F news) (x >>= f) R :=
  Act.Delivers.bind_same hx fun a s hs => hf a hs.1 s hs.2

lemma Works.mono {x : HelperAct α} {fact fact' : α → Prop} (hx : Works out job F news x fact)
    (h : ∀ a, fact a → fact' a) : Works out job F news x fact' :=
  Act.Delivers.mono hx (fun _ hs => hs) fun a _ _ hQ => ⟨hQ.1, h a hQ.2.1, hQ.2.2⟩

lemma works_pure {a : α} {fact : α → Prop} (h : fact a) :
    Works out job F news (pure a) fact :=
  Act.Delivers.pure fun _ hs => ⟨rfl, h, hs⟩

lemma works_lift {r : Except LedgerError α} {fact : α → Prop} (h : ∃ a, r = .ok a ∧ fact a) :
    Works out job F news (Act.lift r) fact := by
  obtain ⟨a, hr, ha⟩ := h
  exact Act.Delivers.lift fun _ hs => ⟨a, hr, rfl, ha, hs⟩

lemma works_refuse {bad : Prop} [Decidable bad] {e : LedgerError} (h : ¬bad) :
    Works out job F news (HelperAct.refuse bad e) fun _ => True :=
  works_lift ⟨(), reject_eq_ok.mpr h, trivial⟩

lemma works_planned {ε : Type} {r : Except ε α} {fact : α → Prop}
    (h : ∃ a, r = .ok a ∧ fact a) : Works out job F news (HelperAct.planned r) fact := by
  obtain ⟨a, hr, ha⟩ := h
  exact works_lift ⟨a, by rw [hr]; rfl, ha⟩

lemma works_protocol {r : Except HelperError α} {a : α} (h : r = .ok a) :
    Works out job F news (HelperAct.protocol r) fun b => b = a :=
  works_lift ⟨a, by rw [h]; rfl, rfl⟩

lemma works_orMetadata {value : Option α} {a : α} (h : value = some a) :
    Works out job F news (HelperAct.orMetadata value) fun b => b = a :=
  works_lift ⟨a, by rw [h], rfl⟩

/-- An operation that leaves the scope alone and succeeds. -/
lemma works_quiet {op : HelperOp} {result : op.Answer → Except LedgerError α} {fact : α → Prop}
    (hsome : ∀ s, ∃ a t, workingExec out s op a t)
    (hall : ∀ s a t, Standing job F news s → workingExec out s op a t →
      t = s ∧ ∃ b, result a = .ok b ∧ fact b) :
    Works out job F news (Act.attempt op result) fact := by
  refine Act.Delivers.attempt (fun s _ => hsome s) fun s a t hs hexec => ?_
  obtain ⟨rfl, b, hb, hfact⟩ := hall s a t hs hexec
  exact ⟨b, hb, rfl, hfact, hs⟩

lemma works_check (what : HelperCheck) : Works out job F news (HelperAct.check what) fun _ => True :=
  works_quiet (fun s => ⟨.ok (), s, rfl, rfl⟩) fun _ _ _ _ h => ⟨h.2, (), h.1, trivial⟩

lemma works_now : Works out job F news HelperAct.now fun at_ =>
    out.shows at_ ∧ printable at_ 64 = true := by
  obtain ⟨text, htext⟩ := out.ticks
  exact works_quiet (fun s => ⟨.ok text, s, ⟨text, rfl, htext⟩, rfl⟩) fun _ _ _ _ h => ⟨h.2, h.1⟩

lemma works_readLedger : Works out job F news HelperAct.readLedger fun ledger =>
    ∃ startExists, ledger = .found ⟨startExists, some job⟩ := by
  refine works_quiet (fun s => ⟨_, s, rfl, rfl⟩) fun s a t hs h => ⟨h.2, _, h.1, s.startExists, ?_⟩
  rw [hs.1]

variable (hrequest : request.Cancels intent job)

include hrequest

lemma works_checkJobAuthority : Works out job F news (checkJobAuthority request) fun _ => True := by
  refine (works_check _).bind fun _ _ => works_readLedger.bind fun ledger hledger => ?_
  obtain ⟨startExists, rfl⟩ := hledger
  refine works_refuse ?_
  rw [Request.requestedJobId, hrequest.job]
  exact not_not.mpr rfl

/-- A process that only reads comes to nothing, or to what its tool may say. -/
lemma works_schedulerCommand {tool : Tool} (htool : tool ≠ .scancel) (argv : List String) :
    Works out job F news (schedulerCommand request tool argv) fun output =>
      Told out tool (query output) := by
  refine (works_checkJobAuthority hrequest).bind fun _ _ => ?_
  refine Works.bind (p := fun _ => True) (works_quiet (fun s => ⟨false, s, rfl⟩)
    fun _ a _ _ h => ⟨h, a, rfl, trivial⟩) fun expired _ => ?_
  refine Act.Delivers.ite (fun _ => works_pure fun text h => by cases h) fun _ => ?_
  refine Works.bind (p := fun process => ∀ text, LocalProcess.output process = some text →
    out.said tool text) (works_quiet (fun s => ?_) fun s a t _ h => ?_) fun process hsaid => ?_
  · refine ⟨.ok ⟨none, false, false, false, true, false, []⟩, s, ⟨_, rfl, fun text h => ?_⟩, ?_⟩
    · cases h
    · rw [if_neg htool]
  · obtain ⟨⟨process, rfl, hsaid⟩, hsame⟩ := h
    rw [if_neg htool] at hsame
    exact ⟨hsame, process, rfl, hsaid⟩
  · refine (works_checkJobAuthority hrequest).bind fun _ _ => works_pure fun text htext => ?_
    refine hsaid text ?_
    cases houtput : LocalProcess.output process with
    | none =>
      rw [houtput] at htext
      cases htext
    | some output =>
      rw [houtput] at htext
      cases htext
      rfl

variable (hpartition : component tools.partition = true)

/-- The job whose scope is asked for. -/
def askedScope (intent : FrozenIntent) (job : JobId) (tools : SchedulerTools) : JobScope :=
  ⟨intent.target.backendId, job, intent.schedulerName, tools.partition⟩

/-- No observation that may be given echoes the token. -/
def Silent (out : Outside) (intent : FrozenIntent) (job : JobId) (tools : SchedulerTools) : Prop :=
  ∀ observation, Observable out (askedScope intent job tools) intent.submissionToken observation →
    observation.status.observationSource ≠ none →
      Reply.echoes intent.submissionToken (.jobObserved observation) = false

include hpartition

omit hrequest in
lemma askedScope_valid : (askedScope intent job tools).validate = .ok () :=
  JobScope.validate_eq_ok.mpr ⟨intent.names.2.2, hpartition, intent.names.1⟩

omit hrequest in
/-- What the tables come to. -/
lemma works_observed {at_ : String} (hat : out.shows at_ ∧ printable at_ 64 = true) {accounting queue : Query}
    (haccounting : Told out .sacct accounting) (hqueue : Told out .squeue queue) :
    Works out job F news (HelperAct.planned (observeOwnedStatus (askedScope intent job tools)
      intent.submissionToken none accounting queue (some at_)))
      (Observable out (askedScope intent job tools) intent.submissionToken) := by
  obtain ⟨marker, hmarker⟩ := intent.token_valid
  obtain ⟨observation, h⟩ := observeOwnedStatus_ok (askedScope_valid hpartition) hmarker hat.2
    accounting queue
  exact works_planned ⟨observation, h, .tables hat.1 haccounting hqueue h⟩

/-- **What the scheduler says** about the job is what its tools may say, or nothing. -/
lemma works_askScheduler : Works out job F news
    (askScheduler request tools (askedScope intent job tools)) fun observation =>
      observation.status.observationSource = none ∨
        Observable out (askedScope intent job tools) intent.submissionToken observation := by
  have hasked : request.intent = intent := hrequest.intent
  subst hasked
  have hnone : Told out .squeue .notRequested := fun text h => by cases h
  refine (works_schedulerCommand hrequest (by decide) _).bind fun accounting haccounting => ?_
  refine works_now.bind fun at_ hat => ?_
  refine (works_observed hpartition hat haccounting hnone).bind fun first _ => ?_
  have hqueue : Works out job F news (askQueue request tools
      (askedScope request.intent job tools) first) (Told out .squeue) := by
    refine Act.Delivers.ite (fun _ => ?_) fun _ => works_pure hnone
    exact (works_schedulerCommand hrequest (by decide) _).bind fun queue hqueue => works_pure hqueue
  refine hqueue.bind fun queue hqueue => works_now.bind fun at_ hat => ?_
  refine (works_observed hpartition hat haccounting hqueue).bind fun observation hobservation => ?_
  unfold askController
  cases tools.scontrolProgram with
  | none => exact works_pure (.inr hobservation)
  | some program =>
    refine Act.Delivers.ite (fun hasks => ?_) fun _ => works_pure (.inr hobservation)
    refine (works_schedulerCommand hrequest (by decide) _).bind fun control hcontrol => ?_
    refine works_now.bind fun at_ hat => works_pure ?_
    cases control with
    | none => exact .inr hobservation
    | some text =>
      change (controlled _ _ _).status.observationSource = none ∨ Observable out _ _ (controlled _ _ _)
      rcases hparse : parseOwnedControlStatus text (askedScope request.intent job tools)
        request.intent.submissionToken (some at_) with error | _ | status
      · -- An answer that cannot be read leaves an observation without a source.
        simp only [asksController, decide_eq_true_eq] at hasks
        exact .inl hasks.1
      · exact .inr hobservation
      · exact .inr (.control hat.1 (hcontrol text rfl) hparse)

variable (hsilent : Silent out intent job tools)

include hsilent

/-- **A look at the job** comes to nothing, or to an observation that is given. -/
lemma delivers_observeJob : Act.Delivers (workingWorld out) true (Standing job F news)
    (observeJob request tools) fun outcome after t => after = true ∧
      ((∃ reason, outcome = .unknown reason) ∧ Standing job F news t ∨
        ∃ observation, outcome = .jobObserved observation ∧ Shown intent job observation ∧
          Standing job F (observation :: news) t) := by
  have hasked : request.intent = intent := hrequest.intent
  subst hasked
  refine Works.bind (p := fun scope => scope = askedScope request.intent job tools)
    (works_lift ⟨_, ?_, rfl⟩) fun scope hscope => ?_
  · rw [jobScope, hrequest.job]
    rfl
  subst hscope
  refine (works_askScheduler hrequest hpartition).bind fun observation hobservation => ?_
  refine Act.Delivers.ite (fun _ => ?_) fun hsource => ?_
  · exact Act.Delivers.pure fun _ hs => ⟨rfl, .inl ⟨⟨_, rfl⟩, hs⟩⟩
  · have hobservable := hobservation.resolve_left hsource
    obtain ⟨hscope, hvalid, hfresh, hchecked⟩ := hobservable.fresh hsource
    have hshown : Shown request.intent job observation :=
      ⟨congrArg JobScope.jobId hscope, hvalid, hfresh, hchecked,
        congrArg JobScope.schedulerName hscope, congrArg JobScope.sshAlias hscope,
        hsilent observation hobservable hsource⟩
    refine Act.Delivers.bind_same (Q := fun _ => Standing job F (observation :: news)) ?_ fun _ => ?_
    · refine Act.Delivers.attempt (fun s _ => ⟨(), _, rfl⟩) fun s _ t hs hexec => ⟨(), rfl, rfl, ?_⟩
      obtain rfl := hexec
      exact ⟨hs.1, hs.2.1, by rw [hs.2.2]⟩
    · refine (works_protocol (hshown.given hrequest)).bind fun _ _ => ?_
      exact Act.Delivers.pure fun _ hs => ⟨rfl, .inr ⟨observation, rfl, hshown, hs⟩⟩

/-! ### Finishing -/

/-- What a cancel comes to that began with what was observed before: an answer, which is every
terminal observation that it made. -/
def Finishes (intent : FrozenIntent) (job : JobId) (before : List StatusObservation)
    (outcome : ReplyOutcome) (t : CancelScope) : Prop :=
  IsAnswer intent job outcome ∧ ∃ news, t.observations = news ++ before ∧
    ∀ observation ∈ news, observation.status.state.isTerminal = true →
      outcome = .jobObserved observation

/-- The files of a cancel are not there. -/
def Absent (files : CancelFile → Entry) : Prop :=
  (files .start).seen = none ∧ (files .state).seen = none

/-- The intent of a cancel is there. -/
def Present (files : CancelFile → Entry) : Prop := (files .state).seen.isSome = true

omit hpartition hsilent

lemma works_checkedTerminal {observation : StatusObservation} (hended : Ended intent job observation) :
    Works out job F news (checkedTerminal request observation.document) fun outcome =>
      outcome = .jobObserved observation := by
  refine (works_orMetadata (StatusObservation.read_document observation)).bind fun read hread => ?_
  subst hread
  refine (works_refuse (not_not.mpr hended.terminal)).bind fun _ _ => ?_
  exact (works_protocol (hended.given hrequest)).bind fun _ _ => works_pure rfl

omit hrequest in
/-- A file that was not there is published. -/
lemma delivers_publishNew {file : CancelFile} (document : Json)
    (hF : ∀ files, F files → (files file).seen = none)
    (hG : ∀ files, F files → G (Function.update files file (.durable document))) :
    Act.Delivers (workingWorld out) true (Standing job F news)
      (Act.attempt (.publishNew file document) id : HelperAct Unit) fun _ after t =>
        after = true ∧ Standing job G news t := by
  have hexec {s : CancelScope} (hs : Standing job F news s) {a : Except LedgerError Unit}
      {t : CancelScope} : workingExec out s (.publishNew file document) a t ↔
        a = .ok () ∧ t = s.put file (.durable document) := by
    simp only [workingExec, hF s.files hs.2.1]
    exact Iff.rfl
  refine Act.Delivers.attempt (fun s hs => ⟨.ok (), _, (hexec hs).mpr ⟨rfl, rfl⟩⟩)
    fun s a t hs h => ?_
  obtain ⟨rfl, rfl⟩ := (hexec hs).mp h
  exact ⟨(), rfl, rfl, hs.1, hG s.files hs.2.1, hs.2.2⟩

omit hrequest in
lemma delivers_replaceRegular (document : Json) :
    Act.Delivers (workingWorld out) true (Standing job Present news)
      (Act.attempt (.replaceRegular .state document) id : HelperAct Unit) fun _ after t =>
        after = true ∧ Standing job Present news t := by
  have hexec {s : CancelScope} (hs : Standing job Present news s) {a : Except LedgerError Unit}
      {t : CancelScope} : workingExec out s (.replaceRegular .state document) a t ↔
        a = .ok () ∧ t = s.put .state (.durable document) := by
    obtain ⟨seen, hseen⟩ := Option.isSome_iff_exists.mp hs.2.1
    simp only [workingExec, hseen]
    exact Iff.rfl
  refine Act.Delivers.attempt (fun s hs => ⟨.ok (), _, (hexec hs).mpr ⟨rfl, rfl⟩⟩)
    fun s a t hs h => ?_
  obtain ⟨rfl, rfl⟩ := (hexec hs).mp h
  refine ⟨(), rfl, rfl, hs.1, ?_, hs.2.2⟩
  rw [Present, (files_put_state s _).1]
  rfl

/-- The two files of a new cancel are saved. -/
lemma delivers_saveNew (saved : Json) :
    Act.Delivers (workingWorld out) true (Standing job Absent news) (saveCancel request saved true)
      fun _ after t => after = true ∧ Standing job Present news t := by
  refine (works_checkJobAuthority hrequest).bind fun _ _ => ?_
  refine Act.Delivers.bind_same (Q := fun _ => Standing job Present news) ?_ fun _ => ?_
  · rw [writeCancel, if_pos rfl]
    refine Act.Delivers.bind_same (Q := fun _ => Standing job
      (fun files => (files .state).seen = none) news)
      (delivers_publishNew _ (fun _ h => h.1) fun files h => ?_) fun _ => ?_
    · rw [Function.update_of_ne (by decide)]
      exact h.2
    · refine delivers_publishNew _ (fun _ h => h) fun files _ => ?_
      rw [Present, Function.update_self]
      rfl
  · exact Act.Delivers.mono (works_checkJobAuthority hrequest) (fun _ h => h)
      fun _ _ _ h => ⟨h.1, h.2.2⟩

lemma delivers_saveVerified (saved : Json) :
    Act.Delivers (workingWorld out) true (Standing job Present news) (saveCancel request saved false)
      fun _ after t => after = true ∧ Standing job Present news t := by
  refine (works_checkJobAuthority hrequest).bind fun _ _ => ?_
  refine Act.Delivers.bind_same (Q := fun _ => Standing job Present news) ?_ fun _ => ?_
  · rw [writeCancel, if_neg (by decide)]
    exact delivers_replaceRegular _
  · exact Act.Delivers.mono (works_checkJobAuthority hrequest) (fun _ h => h)
      fun _ _ _ h => ⟨h.1, h.2.2⟩

/-- A cancel may be started or not. -/
lemma works_scancel (argv : List String) :
    Works out job F news (schedulerCommand request .scancel argv) fun _ => True := by
  refine (works_checkJobAuthority hrequest).bind fun _ _ => ?_
  refine Works.bind (p := fun _ => True) (works_quiet (fun s => ⟨false, s, rfl⟩)
    fun _ a _ _ h => ⟨h, a, rfl, trivial⟩) fun expired _ => ?_
  refine Act.Delivers.ite (fun _ => works_pure trivial) fun _ => ?_
  refine Works.bind (p := fun _ => True) (Act.Delivers.attempt (fun s _ => ?_)
    fun s a t hs h => ?_) fun process _ => ?_
  · refine ⟨.ok ⟨none, false, false, false, true, false, []⟩, s, ⟨_, rfl, fun text h => ?_⟩, ?_⟩
    · cases h
    · exact .inl rfl
  · obtain ⟨⟨process, rfl, -⟩, hcancels⟩ := h
    rw [if_pos rfl] at hcancels
    refine ⟨process, rfl, rfl, trivial, ?_⟩
    rcases hcancels with rfl | rfl
    · exact hs
    · exact hs
  · exact (works_checkJobAuthority hrequest).bind fun _ _ => works_pure trivial

/-- A terminal observation is saved, and then answered. -/
lemma delivers_verify {before : List StatusObservation} {observation : StatusObservation}
    (hended : Ended intent job observation) (saved : Json)
    (hnews : ∃ rest, news = observation :: rest ++ before ∧
      ∀ other ∈ rest, other.status.state.isTerminal = false) :
    Act.Delivers (workingWorld out) true (Standing job Present news)
      (verify request saved observation.document) fun outcome after t =>
        after = true ∧ Finishes intent job before outcome t := by
  refine (works_checkedTerminal hrequest hended).bind fun outcome houtcome => ?_
  subst houtcome
  refine (delivers_saveVerified hrequest saved).bind_same fun _ => Act.Delivers.pure fun t ht => ?_
  obtain ⟨rest, hrest, hopen⟩ := hnews
  refine ⟨rfl, .observed hended.toShown, observation :: rest, by rw [ht.2.2, hrest], ?_⟩
  intro other hother hterminal
  rcases List.mem_cons.mp hother with rfl | hmem
  · rfl
  · rw [hopen other hmem] at hterminal
    cases hterminal

omit hrequest in
/-- A cancel that is still pending. -/
lemma delivers_pending {before : List StatusObservation}
    (hnews : ∃ rest, news = rest ++ before ∧ ∀ other ∈ rest, other.status.state.isTerminal = false) :
    Act.Delivers (workingWorld out) true (Standing job F news)
      (pure (pending job) : HelperAct ReplyOutcome) fun outcome after t =>
        after = true ∧ Finishes intent job before outcome t := by
  obtain ⟨rest, hrest, hopen⟩ := hnews
  refine Act.Delivers.pure fun t ht => ⟨rfl, .pending, rest, by rw [ht.2.2, hrest], ?_⟩
  intro other hmem hterminal
  rw [hopen other hmem] at hterminal
  cases hterminal

omit hrequest in
lemma works_plan {existing : Option Json} (hexisting : Readable intent job existing)
    {status : Option Submission.CancelStatus}
    (hstatus : ∀ given, status = some given → given.validate = .ok ()) {now : String}
    (hnow : printable now 64 = true) :
    Works out job F news
      (HelperAct.planned (Submission.planCancel (cancelIdentity intent job) existing status now))
      fun decision => Submission.planCancel (cancelIdentity intent job) existing status now =
        .ok decision := by
  obtain ⟨decision, hdecision⟩ := plan_ok hexisting hstatus hnow
  exact works_planned ⟨decision, hdecision, hdecision⟩

/-- What is done behind the plan for an observed job with a request. -/
lemma delivers_requested {before : List StatusObservation} {observation : StatusObservation}
    (hshown : Shown intent job observation) {at_ now : String}
    {decision : Submission.CancelDecision}
    (hdecision : Submission.planCancel (cancelIdentity intent job) (some (requested intent job at_))
      (some (exactStatus intent job observation)) now = .ok decision)
    (hnews : ∃ rest, news = rest ++ before ∧ ∀ other ∈ rest, other.status.state.isTerminal = false) :
    ∃ next, Act.Delivers (workingWorld out) true (Standing job Present (observation :: news)) next
        (fun outcome after t => after = true ∧ Finishes intent job before outcome t) ∧
      ((∃ saved result, decision = .verifyTerminal saved result ∧ next = verify request saved result) ∨
        ∃ reason, decision = .wait reason ∧ next = pure (pending job)) := by
  obtain ⟨rest, hrest, hopen⟩ := hnews
  obtain ⟨-, ⟨hterminal, rfl⟩ | ⟨hterminal, reason, rfl⟩⟩ := plan_requested hdecision
  · refine ⟨_, ?_, .inl ⟨_, _, rfl, rfl⟩⟩
    exact delivers_verify hrequest ⟨hshown, hterminal⟩ _ ⟨rest, by rw [hrest]; rfl, hopen⟩
  · refine ⟨_, ?_, .inr ⟨reason, rfl, rfl⟩⟩
    refine delivers_pending ⟨observation :: rest, by rw [hrest]; rfl, fun other hmem => ?_⟩
    rcases List.mem_cons.mp hmem with rfl | hmem
    · exact hterminal
    · exact hopen other hmem

/-- The look at the job after it was cancelled. -/
lemma delivers_settle {before : List StatusObservation} {observation : StatusObservation}
    (hshown : Shown intent job observation) {at_ : String} (hat : printable at_ 128 = true)
    (hnews : ∃ rest, news = rest ++ before ∧ ∀ other ∈ rest, other.status.state.isTerminal = false) :
    Act.Delivers (workingWorld out) true (Standing job Present (observation :: news))
      (settle request job (requested intent job at_) observation) fun outcome after t =>
        after = true ∧ Finishes intent job before outcome t := by
  have hasked : request.intent = intent := hrequest.intent
  subst hasked
  refine works_now.bind fun now ⟨_, hnow⟩ => ?_
  refine (works_plan (readable_requested hat) exactStatus_given hnow).bind fun decision hdecision => ?_
  obtain ⟨next, hnext, ⟨saved, result, rfl, rfl⟩ | ⟨reason, rfl, rfl⟩⟩ :=
    delivers_requested hrequest hshown hdecision hnews
  · exact hnext
  · exact hnext

include hpartition hsilent

/-- **The one permitted cancel.** -/
lemma delivers_issue {before : List StatusObservation} {at_ : String} (hat : printable at_ 128 = true)
    (hnews : ∃ rest, news = rest ++ before ∧ ∀ other ∈ rest, other.status.state.isTerminal = false) :
    Act.Delivers (workingWorld out) true (Standing job Absent news)
      (issue request tools job (requested intent job at_) job.value) fun outcome after t =>
        after = true ∧ Finishes intent job before outcome t := by
  refine (delivers_saveNew hrequest _).bind_same fun _ => ?_
  refine (works_scancel hrequest _).bind fun _ _ => ?_
  refine (delivers_observeJob hrequest hpartition hsilent).bind fun outcome after => ?_
  intro s hs
  obtain ⟨rfl, ⟨⟨reason, rfl⟩, hs⟩ | ⟨observation, rfl, hshown, hs⟩⟩ := hs
  · exact delivers_pending hnews s hs
  · exact delivers_settle hrequest hshown hat hnews s hs

/-- A cancel behind what was read of its intent. -/
lemma delivers_cancelBehind {existing : Option Json} {now : String} (hnow : printable now 64 = true)
    (hexisting : existing = none ∨
      ∃ at_, printable at_ 128 = true ∧ existing = some (requested intent job at_)) :
    Act.Delivers (workingWorld out) true
      (Standing job (if existing = none then Absent else Present) news)
      (cancelBehind request tools job existing now) fun outcome after t =>
        after = true ∧ Finishes intent job news outcome t := by
  have hasked : request.intent = intent := hrequest.intent
  subst hasked
  refine (delivers_observeJob hrequest hpartition hsilent).bind fun outcome after => ?_
  intro s hs
  obtain ⟨rfl, ⟨⟨reason, rfl⟩, hs⟩ | ⟨observation, rfl, hshown, hs⟩⟩ := hs
  · refine Act.Delivers.pure (P := fun t => t = s) ?_ s rfl
    rintro t rfl
    refine ⟨rfl, ?_, [], hs.2.2, fun other hmem => by cases hmem⟩
    split_ifs
    · exact .pending
    · exact .unknown reason
  · refine Act.Delivers.ite (fun hended => ?_) (fun hnot => ?_) s hs
    · refine Act.Delivers.pure fun t ht => ⟨rfl, .observed hshown, [observation], ht.2.2, ?_⟩
      intro other hmem _
      rw [List.mem_singleton.mp hmem]
    · rcases hexisting with rfl | ⟨at_, hat, rfl⟩
      · have hopen : observation.status.state.isTerminal = false := by simpa using hnot
        refine (works_plan (fun _ h => by cases h) exactStatus_given hnow).bind
          fun decision hdecision => ?_
        obtain ⟨hprintable, rfl⟩ := Submission.planCancel_none hdecision
        refine delivers_issue hrequest hpartition hsilent hprintable ⟨[observation], rfl, ?_⟩
        intro other hmem
        rw [List.mem_singleton.mp hmem, hopen]
      · refine (works_plan (readable_requested hat) exactStatus_given hnow).bind
          fun decision hdecision => ?_
        obtain ⟨next, hnext, ⟨saved, result, rfl, rfl⟩ | ⟨reason, rfl, rfl⟩⟩ :=
          delivers_requested hrequest hshown hdecision ⟨[], rfl, fun _ h => by cases h⟩
        · exact hnext
        · exact hnext

omit hpartition hsilent

/-- Both files of a cancel are there, or neither. -/
def Whole (s : CancelScope) : Prop :=
  (s.files .start).seen.isSome = (s.files .state).seen.isSome

omit hrequest in
lemma works_entryExists {files : CancelFile → Entry} (file : CancelFile) :
    Works out job (· = files) news (Act.attempt (.entryExists file) id) fun (found : Bool) =>
      found = (files file).seen.isSome := by
  refine works_quiet (fun s => ⟨_, s, rfl, rfl⟩) fun s a t hs h => ⟨h.2, _, h.1, ?_⟩
  rw [hs.2.1]

omit hrequest in
/-- A file that is within the bound of its reader is read. -/
lemma works_readJson {files : CancelFile → Entry} {file : CancelFile} {read : Json → Option α}
    {document : Json} {value : α} (hseen : (files file).seen = some document)
    (hsize : document.size ≤ MAX_METADATA_BYTES) (hread : read document = some value) :
    Works out job (· = files) news (readJson file read) fun a => a = value := by
  have hexec {s : CancelScope} (hs : Standing job (· = files) news s) {a : Except LedgerError Json}
      {t : CancelScope} : workingExec out s (.read file) a t ↔ a = .ok document ∧ t = s := by
    simp only [workingExec, hs.2.1, hseen]
    exact Iff.rfl
  refine Works.bind (p := fun told => told = document) (Act.Delivers.attempt
    (fun s hs => ⟨.ok document, s, (hexec hs).mpr ⟨rfl, rfl⟩⟩) fun s a t hs h => ?_) fun told htold => ?_
  · obtain ⟨rfl, rfl⟩ := (hexec hs).mp h
    exact ⟨document, rfl, rfl, rfl, hs⟩
  · subst htold
    refine (works_refuse ?_).bind fun _ _ => works_orMetadata hread
    rw [Json.length_write]
    exact Nat.not_lt.mpr hsize

/-- **What was persisted is read back**, where both files are there or neither is. -/
lemma works_persisted {s : CancelScope} (hs : CancelInv intent job s) (hwhole : Whole s) :
    Works out job (· = s.files) news (persisted request) fun existing =>
      existing = none ∧ Absent s.files ∨ ∃ saved shown, existing = some saved ∧ Present s.files ∧
        Persisted intent job (recordDocument intent saved) shown := by
  refine (works_entryExists .start).bind fun hasStart hstart => ?_
  refine (works_entryExists .state).bind fun hasState hstate => ?_
  subst hstart hstate
  have hsame : ¬(s.files .start).seen.isSome ≠ (s.files .state).seen.isSome := not_not.mpr hwhole
  refine (works_refuse hsame).bind fun _ _ => ?_
  cases hstart : (s.files .start).seen with
  | none =>
    have hstate : (s.files .state).seen = none := by
      rw [Whole, hstart] at hwhole
      exact Option.not_isSome_iff_eq_none.mp fun h => by rw [← hwhole] at h; cases h
    exact works_pure (.inl ⟨rfl, hstart, hstate⟩)
  | some start =>
    have hpresent : Present s.files := by
      rw [Present, ← hwhole, hstart]
      rfl
    obtain ⟨record, hrecord⟩ := Option.isSome_iff_exists.mp hpresent
    obtain ⟨shown, hpersisted⟩ := hs.state record (.inl hrecord)
    obtain rfl := hs.start start (.inl hstart)
    obtain ⟨saved, rfl⟩ : ∃ saved, record = recordDocument intent saved := by
      cases hpersisted with
      | requested hat => exact ⟨_, rfl⟩
      | verified hat hverified ended => exact ⟨_, rfl⟩
    refine (works_readJson hstart size_startDocument_le (Started.read_document _)).bind
      fun started hstarted => ?_
    refine (works_readJson hrecord (size_persisted_le hpersisted)
      (CancelRecord.read_document _ _)).bind fun read hread => ?_
    subst hstarted hread
    refine (works_refuse ?_).bind fun _ _ => works_pure (.inr ⟨saved, shown, rfl, hpresent, hpersisted⟩)
    simp [hrequest.intent]

include hpartition hsilent

/-- **A cancel is finished** from every whole store that keeps the invariant. -/
theorem delivers_cancelJob {s : CancelScope} (hs : CancelInv intent job s) (hwhole : Whole s) :
    Act.Delivers (workingWorld out) true (Standing job (· = s.files) s.observations)
      (cancelJob request tools job)
      fun outcome after t => after = true ∧ Finishes intent job s.observations outcome t := by
  have hasked : request.intent = intent := hrequest.intent
  subst hasked
  refine (works_persisted hrequest hs hwhole).bind fun existing hexisting => ?_
  refine works_now.bind fun now ⟨_, hnow⟩ => ?_
  have hreadable : Readable request.intent job existing := by
    rintro saved rfl
    obtain ⟨hnone, -⟩ | ⟨other, shown, hsome, -, hpersisted⟩ := hexisting
    · cases hnone
    · obtain rfl := Option.some.inj hsome
      exact ⟨shown, hpersisted⟩
  refine (works_plan hreadable (fun _ h => by cases h) hnow).bind fun initial hinitial => ?_
  -- Without an intent, or with a request, the job is observed.
  have hbehind (hrequested : existing = none ∨
      ∃ at_, printable at_ 128 = true ∧ existing = some (requested request.intent job at_)) :
      Act.Delivers (workingWorld out) true (Standing job (· = s.files) s.observations)
        (cancelBehind request tools job existing now) fun outcome after t =>
          after = true ∧ Finishes request.intent job s.observations outcome t := by
    refine Act.Delivers.mono (delivers_cancelBehind hrequest hpartition hsilent hnow hrequested)
      (fun t ht => ⟨ht.1, ?_, ht.2.2⟩) fun _ _ _ h => h
    rw [ht.2.1]
    obtain ⟨rfl, habsent⟩ | ⟨saved, shown, rfl, hpresent, -⟩ := hexisting
    · rw [if_pos rfl]
      exact habsent
    · rw [if_neg (by rintro ⟨⟩)]
      exact hpresent
  obtain ⟨rfl, -⟩ | ⟨saved, shown, rfl, -, hpersisted⟩ := hexisting
  · obtain ⟨-, rfl⟩ := Submission.planCancel_none hinitial
    exact hbehind (.inl rfl)
  · generalize hrecord : recordDocument request.intent saved = record at hpersisted
    cases hpersisted with
    | @requested at_ hat =>
      obtain rfl := recordDocument_inj hrecord
      obtain ⟨reason, rfl⟩ := plan_waits hinitial
      exact hbehind (.inr ⟨at_, hat, rfl⟩)
    | @verified at_ verifiedAt observation hat hverified ended =>
      obtain rfl := recordDocument_inj hrecord
      obtain rfl := plan_verified hinitial
      refine Act.Delivers.mono (works_checkedTerminal hrequest ended) (fun _ h => h) ?_
      rintro outcome after t ⟨rfl, rfl, ht⟩
      exact ⟨rfl, .observed ended.toShown, [], ht.2.2, fun other h => by cases h⟩

variable {config : HelperConfig}
  (hpending : Reply.echoes intent.submissionToken (.cancelPending job.value) = false)

include hpending

/-- What is done under the lock. -/
lemma delivers_answer (htools : config.scheduler = some tools) {s : CancelScope}
    (hs : CancelInv intent job s) (hwhole : Whole s) :
    Act.Delivers (workingWorld out) true (Standing job (· = s.files) s.observations)
      (answer config request) fun reply _ t =>
        Finishes intent job s.observations reply.outcome t := by
  have hjob : request.requestedJobId = some job.value := by
    rw [Request.requestedJobId, hrequest.job]
    rfl
  refine (works_check _).bind fun _ _ => works_readLedger.bind fun ledger hledger => ?_
  obtain ⟨startExists, rfl⟩ := hledger
  refine Act.Delivers.bind_same (Q := fun outcome t =>
    Finishes intent job s.observations outcome t) ?_ fun outcome => ?_
  · change Act.Delivers _ _ _ (jobOperation config request ⟨startExists, some job⟩) _
    simp only [jobOperation, hjob, htools, ne_eq, not_true, if_false, hrequest.operation]
    refine (works_checkJobAuthority hrequest).bind fun _ _ => Act.Delivers.ite (fun h => ?_) fun _ => ?_
    · cases h
    · exact delivers_cancelJob hrequest hpartition hsilent hs hwhole
  · refine Act.Delivers.bind_same (Q := fun _ t => Finishes intent job s.observations outcome t) ?_
      fun _ => ?_
    · exact Act.Delivers.attempt (fun t _ => ⟨.ok (), t, rfl, rfl⟩)
        fun t a u ht h => ⟨(), h.1, rfl, h.2 ▸ ht⟩
    · refine Act.Delivers.lift fun t ht => ⟨⟨request.identity, outcome⟩, ?_, ht⟩
      rw [ht.1.given hrequest hpending]
      rfl

/-- **A cancel request** from its start to its reply. -/
theorem delivers_handle (hserves : config.Serves intent) (htools : config.scheduler = some tools)
    {s : CancelScope} (hs : CancelInv intent job s) (hwhole : Whole s) :
    Act.Delivers (workingWorld out) false (Standing job (· = s.files) s.observations)
      (handle config request) fun reply _ t =>
        Finishes intent job s.observations reply.outcome t := by
  have hasked : request.intent = intent := hrequest.intent
  subst hasked
  refine Act.Delivers.ite (fun h => absurd hserves.target h) fun _ => ?_
  refine Act.Delivers.ite (fun h => absurd hserves.root h) fun _ => ?_
  refine Act.Delivers.bind_same (Q := fun _ => Standing job (· = s.files) s.observations) ?_
    fun cancelled => ?_
  · exact Act.Delivers.attempt (fun t _ => ⟨false, t, rfl⟩)
      fun t a u ht h => ⟨a, rfl, rfl, (show u = t from h) ▸ ht⟩
  · refine Act.Delivers.ite (fun _ => Act.Delivers.lift fun t ht => ?_) fun _ => ?_
    · have hanswer : IsAnswer request.intent job (.unknown .cancelled) := .unknown .cancelled
      exact ⟨_, by rw [hanswer.given hrequest hpending]; rfl, hanswer, [], ht.2.2,
        fun other h => by cases h⟩
    · refine Act.Delivers.bind (Q := fun _ after t =>
        after = true ∧ Standing job (· = s.files) s.observations t)
        (Act.Delivers.lock fun t ht => ⟨rfl, ht⟩) fun _ after => ?_
      rintro t ⟨rfl, ht⟩
      revert t
      refine Act.Delivers.bind (Act.Delivers.outcome
        (delivers_answer hrequest hpartition hsilent hpending htools hs hwhole)) fun result after => ?_
      refine Act.Delivers.bind (Q := fun _ _ t => ∃ reply, result = .ok reply ∧
        Finishes request.intent job s.observations reply.outcome t)
        (Act.Delivers.unlock fun _ h => h) fun _ _ => ?_
      exact Act.Delivers.lift fun _ h => h

end Works

/-! ## Runs -/

section Recovery

variable {out : Outside} {intent : FrozenIntent} {job : JobId}

end Recovery

/-! ## A sampled scheduler -/

def sampleTime : String := "2026-01-01T00:00:00Z"

/-- What accounting prints of the running job. -/
def runningRow : List String :=
  ["42", "train--attempt-001", "ml-exp-" ++ sampleToken, "gpu", "RUNNING", "00:01:00", "0:0"]

def runningStatus : JobStatus where
  sshAlias := "slurm"
  jobId := sampleJob
  schedulerName := "train--attempt-001"
  partition := "gpu"
  state := .running
  rawState := "RUNNING"
  elapsed := some "00:01:00"
  exitCode := some "0:0"
  reason := none
  failureClass := none
  observationSource := some .sacct
  observedAt := some sampleTime
  queue := none

def runningObservation : StatusObservation := ⟨runningStatus, some sampleTime, none, false⟩

def sampleTools : SchedulerTools := ⟨"/sacct", "/squeue", "/scancel", none, "gpu"⟩

lemma printable_sampleTime : printable sampleTime 64 = true := by decide

lemma component_gpu : component sampleTools.partition = true := by decide

lemma sampleToken_marker : submissionMarker sampleToken = .ok ("ml-exp-" ++ sampleToken) := by
  decide

/-- What is asked about the sample job. -/
abbrev runningScope : JobScope := askedScope sampleIntent sampleJob sampleTools

lemma runningScope_valid : runningScope.validate = .ok () := askedScope_valid component_gpu

lemma runningRow_marked : Marked sampleToken .sacct runningRow where
  length := rfl
  separate := by decide
  line := by decide
  visible := ⟨'4', by decide, by decide⟩
  size := (length_utf8_join_le (by decide) runningRow).trans (by decide)
  marker := sampleToken_marker

lemma runningStatus_projected : runningStatus.Projected .sacct where
  scope := runningScope_valid
  observedAt := by
    rintro text ⟨⟩
    exact printable_sampleTime
  separate := by decide
  state := by decide
  elapsed := by
    rintro text ⟨⟩
    decide
  exitCode := by
    rintro text ⟨⟩
    decide
  unobserved := by rintro ⟨⟩
  reason := by rintro text ⟨⟩
  derived := by decide

lemma running_silent : Reply.echoes sampleToken (.jobObserved runningObservation) = false := by
  decide +kernel

/-- The running job is observed, whatever the queue says. -/
lemma running_observed (queue : Query) :
    observeOwnedStatus runningScope sampleToken none (.success (join '|' runningRow)) queue
      (some sampleTime) = .ok runningObservation := by
  have hmarker : (submissionMarker sampleToken).mapError (fun _ => Error.ownership) =
      .ok ("ml-exp-" ++ sampleToken) := by
    rw [sampleToken_marker]
    rfl
  have hparse : ownedParser sampleToken (join '|' runningRow) runningScope .sacct (some sampleTime) =
      .ok (some runningStatus) :=
    runningRow_marked.parse.trans runningStatus_projected.parse
  unfold observeOwnedStatus
  rw [hmarker]
  simp only [ok_bind, runningRow_marked.omits, Bool.false_eq_true, if_false]
  unfold observeWith
  rw [askedScope_valid component_gpu]
  simp only [ok_bind, Option.any_some, Option.any_none, printable_sampleTime, hparse]
  rfl

/-- What is outside of the sample helper: accounting tells the running job, or fails. -/
def sampleOutside : Outside where
  said := fun tool text => tool = .sacct ∧ text = join '|' runningRow
  shows := (· = sampleTime)
  ticks := ⟨sampleTime, rfl, printable_sampleTime⟩

/-- Nothing that is observed there echoes the token. -/
lemma sampleOutside_silent : Silent sampleOutside sampleIntent sampleJob sampleTools := by
  intro observation h hsource
  cases h with
  | @tables accounting queue at_ _ hat haccounting hqueue h =>
    obtain rfl : at_ = sampleTime := hat
    cases accounting with
    | success output =>
      obtain ⟨-, rfl⟩ := haccounting output rfl
      obtain rfl := Except.ok.inj ((running_observed queue).symm.trans h)
      exact running_silent
    | failed | notRequested =>
      -- Without a table nothing is known of the job.
      refine absurd ?_ hsource
      cases queue with
      | success output =>
        obtain ⟨htool, -⟩ := hqueue output rfl
        cases htool
      | failed | notRequested =>
        unfold observeOwnedStatus observeWith at h
        simp only [bind_eq_ok] at h
        obtain ⟨-, -, ⟨⟩, -, ⟨⟩, -, ⟨⟩, -, ⟨⟩⟩ := h
        rfl
  | control hat htext h =>
    obtain ⟨htool, -⟩ := htext
    cases htool

lemma sampleRequest_cancels : sampleRequest.Cancels sampleIntent sampleJob := ⟨rfl, rfl, rfl⟩

lemma sampleConfig_serves : sampleConfig.Serves sampleIntent := ⟨rfl, rfl, rfl⟩

lemma runningObservation_shown : Shown sampleIntent sampleJob runningObservation :=
  ⟨rfl, runningStatus_projected.validate, rfl, rfl, rfl, rfl, running_silent⟩

section Torn

variable {s : CancelScope} (hs : s.receipt = some sampleJob)

lemma comes_check (what : HelperCheck) : Act.Comes (workingWorld sampleOutside) true s
    (HelperAct.check what) (.ok ()) true s :=
  .attempt (.ok ()) ⟨rfl, rfl⟩ rfl

include hs

lemma comes_readLedger : Act.Comes (workingWorld sampleOutside) true s HelperAct.readLedger
    (.ok (.found ⟨s.startExists, some sampleJob⟩)) true s :=
  .attempt (.ok (.found ⟨s.startExists, some sampleJob⟩)) ⟨by rw [hs], rfl⟩ rfl

lemma comes_checkJobAuthority :
    Act.Comes (workingWorld sampleOutside) true s (checkJobAuthority sampleRequest) (.ok ()) true s :=
  (comes_check _).bind ((comes_readLedger hs).bind (.lift rfl))

/-- Accounting prints the running job. -/
lemma comes_sacct : Act.Comes (workingWorld sampleOutside) true s
    (schedulerCommand sampleRequest .sacct (sacctArgv sampleTools runningScope))
    (.ok (some (join '|' runningRow))) true s := by
  refine (comes_checkJobAuthority hs).bind ((Act.Comes.attempt false rfl rfl).bind ?_)
  have houtput : LocalProcess.output ⟨some 0, false, false, false, true, false,
      utf8 (join '|' runningRow)⟩ = some (join '|' runningRow) := by
    rw [LocalProcess.output, if_neg (by decide), fromUtf8_eq_some]
  have hexec : (workingWorld sampleOutside).exec s
      (.execute .sacct (sacctArgv sampleTools runningScope)) (.ok ⟨some 0, false, false, false, true,
        false, utf8 (join '|' runningRow)⟩) s :=
    ⟨⟨_, rfl, fun text h => ⟨rfl, (Option.some.inj (houtput.symm.trans h)).symm⟩⟩, rfl⟩
  refine (Act.Comes.attempt _ hexec rfl).bind ((comes_checkJobAuthority hs).bind ?_)
  rw [houtput]
  exact .pure

omit hs in
lemma comes_now : Act.Comes (workingWorld sampleOutside) true s HelperAct.now (.ok sampleTime) true s :=
  .attempt (.ok sampleTime) ⟨⟨_, rfl, rfl, printable_sampleTime⟩, rfl⟩ rfl

lemma comes_askScheduler : Act.Comes (workingWorld sampleOutside) true s
    (askScheduler sampleRequest sampleTools runningScope) (.ok runningObservation) true s := by
  have hplanned (queue : Query) : Act.Comes (workingWorld sampleOutside) true s
      (HelperAct.planned (observeOwnedStatus runningScope sampleToken none
        (.success (join '|' runningRow)) queue (some sampleTime))) (.ok runningObservation) true s := by
    rw [running_observed]
    exact .lift rfl
  refine (comes_sacct hs).bind (comes_now.bind ((hplanned _).bind ?_))
  have hqueue : asksQueue runningObservation = false := by decide
  refine Act.Comes.bind (a := .notRequested) ?_ (comes_now.bind ((hplanned _).bind .pure))
  rw [askQueue, hqueue]
  exact .pure

/-- The running job is observed. -/
lemma comes_observeJob : Act.Comes (workingWorld sampleOutside) true s (observeJob sampleRequest sampleTools)
    (.ok (.jobObserved runningObservation)) true
    { s with observations := runningObservation :: s.observations } := by
  refine Act.Comes.bind (.lift rfl) ((comes_askScheduler hs).bind ?_)
  refine Act.Comes.bind (.attempt () rfl rfl) 
    (Act.Comes.bind (a := ⟨sampleRequest.identity, .jobObserved runningObservation⟩) (.lift ?_) .pure)
  rw [runningObservation_shown.given sampleRequest_cancels]
  rfl

omit hs in
lemma comes_entryExists (file : CancelFile) : Act.Comes (workingWorld sampleOutside) true s
    (Act.attempt (.entryExists file) id : HelperAct Bool) (.ok (s.files file).seen.isSome) true s :=
  .attempt (.ok (s.files file).seen.isSome) ⟨rfl, rfl⟩ rfl

omit hs in
/-- Without files there is no intent. -/
lemma comes_persisted (hstart : (s.files .start).seen = none) (hstate : (s.files .state).seen = none) :
    Act.Comes (workingWorld sampleOutside) true s (persisted sampleRequest) (.ok none) true s := by
  have hfirst := comes_entryExists (s := s) .start
  have hsecond := comes_entryExists (s := s) .state
  rw [hstart] at hfirst
  rw [hstate] at hsecond
  exact hfirst.bind (hsecond.bind ((Act.Comes.lift rfl).bind .pure))

/-- The marker of a cancel is there without its intent. -/
structure TornStore (s : CancelScope) : Prop where
  receipt : s.receipt = some sampleJob
  marked : (s.files .start).seen.isSome = true
  missing : (s.files .state).seen = none

omit hs in
/-- The operation that the sample request asks for. -/
lemma jobOperation_sample (startExists : Bool) :
    jobOperation sampleConfig sampleRequest ⟨startExists, some sampleJob⟩ =
      checkJobAuthority sampleRequest >>= fun _ => cancelJob sampleRequest sampleTools sampleJob := by
  have hjob : sampleRequest.requestedJobId = some sampleJob.value := rfl
  have htools : sampleConfig.scheduler = some sampleTools := rfl
  have hoperation : sampleRequest.operation = .cancelJob := rfl
  simp only [jobOperation, hjob, htools, hoperation, ne_eq, not_true, if_false, reduceCtorEq]

omit hs in
/-- A cancel of the running job comes through a torn store. -/
lemma passes_torn : Passes (workingWorld sampleOutside) TornStore (call sampleConfig sampleRequest) false
    (.submitted sampleJob) := by
  have hfresh : ∀ file, ((CancelScope.submitted sampleJob).files file).seen = none := fun _ => rfl
  refine .call (a := ⟨none, none⟩) ⟨rfl, rfl⟩ (Passes.bind _ ?_)
  refine Passes.of_not (not_not.mpr rfl) (Passes.of_not (not_not.mpr rfl) ?_)
  refine Act.Comes.passes (a := false) (.attempt false rfl rfl)
    (Passes.of_not Bool.false_ne_true ?_)
  refine Act.Comes.lock.passes (Passes.before (Passes.bind _ ?_))
  refine (comes_check _).passes ((comes_readLedger rfl).passes (Passes.before ?_))
  change Passes _ _ (jobOperation sampleConfig sampleRequest ⟨true, some sampleJob⟩).run _ _
  rw [jobOperation_sample]
  refine (comes_checkJobAuthority rfl).passes ?_
  refine (comes_persisted rfl rfl).passes (comes_now.passes ?_)
  have hplan {status : Option Submission.CancelStatus}
      (hstatus : ∀ given, status = some given → given.validate = .ok ()) {u : CancelScope} :
      Act.Comes (workingWorld sampleOutside) true u (HelperAct.planned (Submission.planCancel
        (cancelIdentity sampleIntent sampleJob) none status sampleTime))
        (.ok (.createRequested (requested sampleIntent sampleJob sampleTime) "42")) true u := by
    have hreadable : Readable sampleIntent sampleJob none := fun _ h => by cases h
    obtain ⟨decision, hdecision⟩ := plan_ok hreadable hstatus printable_sampleTime
    rw [hdecision]
    obtain ⟨-, rfl⟩ := Submission.planCancel_none hdecision
    exact .lift rfl
  refine (hplan fun _ h => by cases h).passes ?_
  refine (comes_observeJob rfl).passes (Passes.of_not (by decide) ?_)
  refine (hplan exactStatus_given).passes ?_
  refine Passes.before (x := saveCancel sampleRequest (requested sampleIntent sampleJob sampleTime)
    true) ?_
  refine (comes_checkJobAuthority rfl).passes ?_
  refine Passes.before (x := writeCancel sampleRequest
    (requested sampleIntent sampleJob sampleTime) true) ?_
  exact Act.Comes.passes (a := ()) (.attempt (.ok ()) ⟨rfl, rfl⟩ rfl) (.here ⟨rfl, rfl, rfl⟩)

omit hs in
/-- A cancel on a torn store is refused. -/
lemma comes_refused (htorn : TornStore s) :
    Completes (workingWorld sampleOutside) (call sampleConfig sampleRequest) false s
      (some ⟨sampleConfig, sampleRequest, s.files .state, .error .metadata⟩) false s := by
  have hstart := comes_entryExists (s := s) .start
  have hstate := comes_entryExists (s := s) .state
  rw [htorn.marked] at hstart
  rw [htorn.missing] at hstate
  have hpersisted : Act.Comes (workingWorld sampleOutside) true s (persisted sampleRequest)
      (.error .metadata) true s :=
    hstart.bind (hstate.bind (Act.Comes.bind_error (.lift rfl)))
  have hanswer : Act.Comes (workingWorld sampleOutside) true s (answer sampleConfig sampleRequest)
      (.error .metadata) true s := by
    refine (comes_check _).bind ((comes_readLedger htorn.receipt).bind ?_)
    refine Act.Comes.bind_error ?_
    change Act.Comes _ _ _ (jobOperation sampleConfig sampleRequest ⟨s.startExists, some sampleJob⟩)
      _ _ _
    rw [jobOperation_sample]
    exact (comes_checkJobAuthority htorn.receipt).bind hpersisted.bind_error
  refine .call ⟨rfl, rfl⟩ (Completes.bind (a := .error .metadata) ?_ (.done _ _ _))
  refine Act.Comes.of_not (not_not.mpr rfl) (Act.Comes.of_not (not_not.mpr rfl) ?_)
  refine Act.Comes.bind (a := false) (.attempt false rfl rfl)
    (Act.Comes.of_not Bool.false_ne_true ?_)
  exact Act.Comes.lock.bind (hanswer.outcome.bind (Act.Comes.unlock.bind (.lift rfl)))

end Torn

end Slurm

end ExperimentControl
