import ExperimentControl.Native.Retry

/-!
# Cancellation of a job

The cancel outbox of `core/src/submission.rs`, the requests and replies about a job of
`core/src/slurm/helper.rs`, and the cancellation a client keeps, of
`core/src/slurm/cancellation.rs`.

* `planCancel` — what to do with a cancel request, from the intent that was persisted.
* `FrozenIntent`, `Request` — a request about a job, as its constructors leave it: checked.
* `Reply.forRequest` — the check of a reply before it is given.
* `Cancellation` — the client's record, with **`Cancellation.chain`**: once a termination is verified
  it stays so, with the observation that verified it.
-/

namespace ExperimentControl

/-! ## The cancel outbox -/

namespace Submission

inductive Error
  | identity (what : String)
  | intent (what : String)
  | conflict (what : String)
  | observation (what : String)
  deriving DecidableEq, Repr

structure TargetIdentity where
  project : String
  runId : String
  attemptId : String
  deriving DecidableEq, Repr

def TargetIdentity.validate (target : TargetIdentity) : Except Error Unit := do
  (validateId target.project).mapError fun _ => .identity "project"
  (validateId target.runId).mapError fun _ => .identity "run_id"
  (ExperimentControl.validateAttempt target.attemptId).mapError fun _ => .identity "attempt_id"

structure CancelIdentity where
  target : TargetIdentity
  backend : Option String
  backendJobId : String
  deriving DecidableEq, Repr

def CancelIdentity.validate (identity : CancelIdentity) : Except Error Unit := do
  identity.target.validate
  identity.backend.forM fun backend => (validateId backend).mapError fun _ => .identity "backend"
  reject (¬printable identity.backendJobId 256) (.identity "backend_job_id")

inductive CancelStatus
  | exact (target : TargetIdentity) (jobId state : String) (result : Json)
  | unavailableOrAmbiguous (reason : String)

def CancelStatus.validate : CancelStatus → Except Error Unit
  | exact target jobId state result => do
      target.validate
      reject (¬printable jobId 256 ∨ ¬printable state 64 ∨ ¬result.isObject)
        (.observation "cancel status")
  | unavailableOrAmbiguous reason => reject (¬printable reason 2048) (.observation "reason")

inductive CancelDecision
  | createRequested (intent : Json) (issueJobId : String)
  | verifyTerminal (intent result : Json)
  | alreadyVerified (result : Json)
  | wait (reason : String)

def terminalState (state : String) : Bool :=
  String.ofList (state.toList.map Char.toUpper) ∈
    ["SUCCEEDED", "FAILED", "CANCELLED", "CANCELED", "PREEMPTED", "COMPLETED"]

/-- `string_field`: a field that is a text and not empty. -/
def stringField (value : Json) (name : String) : Except Error String :=
  match (value.get name).bind Json.asStr with
  | some text => if text = "" then .error (.intent name) else .ok text
  | none => .error (.intent name)

def cancelIdentityMatches (intent : Json) (identity : CancelIdentity) : Bool :=
  match intent.asObject with
  | none => false
  | some object =>
      (object.get "project").bind Json.asStr = some identity.target.project &&
      (object.get "run_id").bind Json.asStr = some identity.target.runId &&
      (object.get "attempt_id").bind Json.asStr = some identity.target.attemptId &&
      (object.get "backend_job_id").bind Json.asStr = some identity.backendJobId &&
      match identity.backend, object.get "backend" with
      | none, none | none, some .null => true
      | some expected, some (.string actual) => expected = actual
      | _, _ => false

/-- The intent of a request that is new. -/
def requestedIntent (identity : CancelIdentity) (now : String) : Json :=
  .object [("schema_version", .ofNat 1), ("state", .string "REQUESTED"),
    ("requested_at", .string now), ("project", .string identity.target.project),
    ("run_id", .string identity.target.runId), ("attempt_id", .string identity.target.attemptId),
    ("backend", Json.ofOption .string identity.backend),
    ("backend_job_id", .string identity.backendJobId)]

/-- The intent after an exact read of the ended job. -/
def verifiedIntent (intent : Json) (now : String) (result : Json) : Json :=
  ((intent.set "state" (.string "VERIFIED")).set "verified_at" (.string now)).set "result" result

/-- What a status says about a persisted request. -/
def planStatus (identity : CancelIdentity) (existing : Json) (now : String) :
    Option CancelStatus → CancelDecision
  | none => .wait "a persisted cancel request requires an exact status observation"
  | some (.unavailableOrAmbiguous reason) => .wait reason
  | some (.exact target jobId state result) =>
      if target ≠ identity.target ∨ jobId ≠ identity.backendJobId then
        .wait "status is not bound to the exact scheduler job"
      else if terminalState state then .verifyTerminal (verifiedIntent existing now result) result
      else .wait "exact scheduler job remains nonterminal; no second cancel is allowed"

/-- What is planned behind a persisted intent. -/
def planExisting (identity : CancelIdentity) (existing : Json) (status : Option CancelStatus)
    (now : String) : Except Error CancelDecision := do
  reject (¬cancelIdentityMatches existing identity) (.conflict "cancel scheduler identity")
  let state ← stringField existing "state"
  if state = "VERIFIED" then
    match existing.get "result" with
    | some result =>
        if result.isObject then .ok (.alreadyVerified result) else .error (.intent "result")
    | none => .error (.intent "result")
  else if state ≠ "REQUESTED" then .error (.intent "cancel state")
  else .ok (planStatus identity existing now status)

def planCancel (identity : CancelIdentity) (existing : Option Json) (status : Option CancelStatus)
    (now : String) : Except Error CancelDecision := do
  identity.validate
  reject (¬printable now 128) (.intent "requested_at")
  status.forM CancelStatus.validate
  match existing with
  | none => .ok (.createRequested (requestedIntent identity now) identity.backendJobId)
  | some existing => planExisting identity existing status now

/-! ### What is planned -/

section Plan

variable {identity : CancelIdentity} {status : Option CancelStatus} {now : String}

/-- **A cancel is issued only where nothing was persisted**, for the job of the identity. -/
theorem planCancel_none {decision : CancelDecision}
    (h : planCancel identity none status now = .ok decision) : printable now 128 = true ∧
      decision = .createRequested (requestedIntent identity now) identity.backendJobId := by
  unfold planCancel at h
  simp only [bind_eq_ok, reject_eq_ok, not_not] at h
  obtain ⟨-, -, -, hnow, -, -, h⟩ := h
  exact ⟨hnow, (Except.ok.inj h).symm⟩

lemma planCancel_some {existing : Json} {decision : CancelDecision}
    (h : planCancel identity (some existing) status now = .ok decision) :
    printable now 128 = true ∧ planExisting identity existing status now = .ok decision := by
  unfold planCancel at h
  simp only [bind_eq_ok, reject_eq_ok, not_not] at h
  obtain ⟨-, -, -, hnow, -, -, h⟩ := h
  exact ⟨hnow, h⟩

lemma matches_requested (identity : CancelIdentity) (now : String) :
    cancelIdentityMatches (requestedIntent identity now) identity = true := by
  rw [cancelIdentityMatches, requestedIntent]
  cases identity.backend <;>
    simp [Json.asObject, Json.asStr, Fields.get_cons, Json.ofOption]

lemma get_verified (intent : Json) (now : String) (result : Json) (hobject : intent.isObject = true) :
    (verifiedIntent intent now result).get "state" = some (.string "VERIFIED") ∧
      (verifiedIntent intent now result).get "result" = some result := by
  obtain ⟨fields, hfields⟩ := Option.isSome_iff_exists.mp hobject
  rw [Json.asObject_eq_some] at hfields
  subst hfields
  simp [verifiedIntent, Json.get, Fields.get_insert]

lemma matches_verified (identity : CancelIdentity) (requested now : String) (result : Json) :
    cancelIdentityMatches (verifiedIntent (requestedIntent identity requested) now result) identity =
      true := by
  rw [cancelIdentityMatches, verifiedIntent, requestedIntent]
  cases identity.backend <;>
    simp [Json.asObject, Json.asStr, Json.set, Fields.insert, Fields.get_cons, Json.ofOption]

/-- Behind a persisted request, a status decides. -/
lemma planExisting_requested (identity : CancelIdentity) (requested now : String)
    (status : Option CancelStatus) :
    planExisting identity (requestedIntent identity requested) status now =
      .ok (planStatus identity (requestedIntent identity requested) now status) := by
  rw [planExisting, matches_requested]
  simp [reject, stringField, requestedIntent, Json.get, Fields.get_cons, Json.asStr]

/-- Behind a verified request, no status matters. -/
lemma planExisting_verified (identity : CancelIdentity) (requested verified now : String)
    {result : Json} (hresult : result.isObject = true) (status : Option CancelStatus) :
    planExisting identity (verifiedIntent (requestedIntent identity requested) verified result) status
      now = .ok (.alreadyVerified result) := by
  obtain ⟨hstate, hget⟩ := get_verified (requestedIntent identity requested) verified result rfl
  rw [planExisting, matches_verified, stringField, hstate, hget]
  simp [reject, Json.asStr, hresult]

end Plan

end Submission

namespace Slurm

/-! ## Requests and replies about a job -/

/-- An intent as it was admitted. Its digest covers the content and the worker as well, which nothing
here reads. -/
structure FrozenIntent where
  target : Target
  scope : Scope
  runsRoot : String
  submissionToken : String
  schedulerName : String
  digest : String
  target_valid : target.validate = .ok ()
  scope_valid : scope.validate = .ok ()
  token_valid : ∃ marker, submissionMarker submissionToken = .ok marker
  name_valid : ∃ sha256, (∀ bytes, isSha256 (sha256 bytes) = true) ∧
    schedulerJobName sha256 scope.runId scope.attemptId = .ok schedulerName
  digest_valid : validDigest digest = true

/-- A request as its constructors and the reader of frames leave it: checked. -/
structure Request where
  intent : FrozenIntent
  operation : OperationTag
  jobId : Option JobId
  requestSha256 : String
  /-- The operations on a job name it. -/
  named : operation ∈ [OperationTag.observeJob, .cancelJob] → jobId.isSome = true
  /-- One job, not an element of an array. -/
  single : ∀ job, jobId = some job → '_' ∉ job.value.toList
  digest_valid : validDigest requestSha256 = true

lemma isIdChar_of_validateId {text : String} (h : validateId text = .ok ()) :
    text.toList.all isIdChar = true ∧ byteLen text ≤ 128 ∧ text ≠ "" := by
  simp only [validateId, reject_eq_ok, not_or, not_not, gt_iff_lt, not_lt] at h
  refine ⟨h.2.2, h.1, ?_⟩
  rintro rfl
  cases h.2.1

/-- The name of a job is made of identifier characters. -/
lemma schedulerJobName_printable {sha256 : Bytes → String} (hhash : ∀ bytes, isSha256 (sha256 bytes) = true)
    {runId attemptId name : String} (h : schedulerJobName sha256 runId attemptId = .ok name) :
    printable name 128 = true ∧ byteLen attemptId ≤ 128 := by
  simp only [schedulerJobName, bind_eq_ok, mapError_eq_ok, reject_eq_ok, gt_iff_lt, not_lt] at h
  obtain ⟨⟨⟩, hrun, ⟨⟩, hattempt, ⟨⟩, hlength, h⟩ := h
  refine ⟨?_, hlength⟩
  obtain ⟨hrun, -, hne⟩ := isIdChar_of_validateId hrun
  have hraw : (runId ++ "--" ++ attemptId).toList.all isIdChar = true := by
    rw [String.toList_append, String.toList_append, List.all_append, List.all_append, hrun,
      isIdChar_of_validateAttempt hattempt]
    decide
  obtain ⟨first, rest, hfirst⟩ := List.exists_cons_of_ne_nil
    (show runId.toList ≠ [] from fun hnil => hne (String.toList_inj.mp hnil))
  split_ifs at h with hshort
  · obtain rfl := Except.ok.inj h
    refine printable_of_all hraw (fun hempty => ?_) ?_
    · have hnil := congrArg String.toList hempty
      rw [String.toList_append, String.toList_append, hfirst] at hnil
      cases hnil
    · rwa [byteLen_of_all hraw] at hshort
  · obtain rfl := Except.ok.inj h
    refine printable_of_all ?_ (fun hempty => ?_) ?_
    · rw [String.toList_ofList]
      refine List.all_eq_true.mpr fun c hc => ?_
      have hmem := List.mem_of_mem_take hc
      simp only [List.mem_append] at hmem
      rcases hmem with (hmem | hmem) | hmem
      · exact List.all_eq_true.mp hraw c (List.mem_of_mem_take hmem)
      · exact List.all_eq_true.mp (by decide : "--".toList.all isIdChar = true) c hmem
      · have hdigest := hhash (utf8 (runId ++ "--" ++ attemptId))
        simp only [isSha256, decide_eq_true_eq] at hdigest
        exact isIdChar_of_isLowerHex (List.all_eq_true.mp hdigest.2 c hmem)
    · have hnil := congrArg String.toList hempty
      rw [String.toList_ofList, String.toList_append, String.toList_append, hfirst] at hnil
      cases hnil
    · rw [String.toList_ofList]
      exact (List.length_take_le _ _).trans (by decide)

/-- The texts of an intent are short and printable. -/
lemma FrozenIntent.names (intent : FrozenIntent) : printable intent.schedulerName 128 = true ∧
    byteLen intent.scope.attemptId ≤ 128 ∧ component intent.target.backendId = true := by
  obtain ⟨sha256, hhash, hname⟩ := intent.name_valid
  obtain ⟨hprintable, hattempt⟩ := schedulerJobName_printable hhash hname
  have htarget := reject_eq_ok.mp intent.target_valid
  simp only [not_or, not_not] at htarget
  exact ⟨hprintable, hattempt, htarget.1⟩

def Request.identity (request : Request) : RequestIdentity where
  requestSha256 := request.requestSha256
  intentSha256 := request.intent.digest
  operation := request.operation

def Request.requestedJobId (request : Request) : Option String := request.jobId.map JobId.value

inductive UnknownReason
  | missingLedger
  | incompleteClaim
  | malformedLedger
  | submitStarted
  | uncertainProcessResult
  | storageUnavailable
  | lockUnavailable
  | cancelled
  | schedulerNotObserved
  | schedulerUnavailable
  | schedulerEvidenceInvalid
  deriving DecidableEq, Repr

def UnknownReason.text : UnknownReason → String
  | missingLedger => "MISSING_LEDGER"
  | incompleteClaim => "INCOMPLETE_CLAIM"
  | malformedLedger => "MALFORMED_LEDGER"
  | submitStarted => "SUBMIT_STARTED"
  | uncertainProcessResult => "UNCERTAIN_PROCESS_RESULT"
  | storageUnavailable => "STORAGE_UNAVAILABLE"
  | lockUnavailable => "LOCK_UNAVAILABLE"
  | cancelled => "CANCELLED"
  | schedulerNotObserved => "SCHEDULER_NOT_OBSERVED"
  | schedulerUnavailable => "SCHEDULER_UNAVAILABLE"
  | schedulerEvidenceInvalid => "SCHEDULER_EVIDENCE_INVALID"

inductive Rejection
  | identityConflict
  | unprepared
  | unsupportedOperation
  | capacityFull
  deriving DecidableEq, Repr

def Rejection.text : Rejection → String
  | identityConflict => "IDENTITY_CONFLICT"
  | unprepared => "UNPREPARED"
  | unsupportedOperation => "UNSUPPORTED_OPERATION"
  | capacityFull => "CAPACITY_FULL"

/-- What the operations on a job are answered with. -/
inductive ReplyOutcome
  | jobObserved (observation : StatusObservation)
  | cancelPending (jobId : String)
  | unknown (reason : UnknownReason)
  | rejected (code : Rejection)
  deriving DecidableEq

def ReplyOutcome.document : ReplyOutcome → Json
  | jobObserved observation => .object [("state", .string "JOB_OBSERVED"),
      ("observation", observation.document)]
  | cancelPending jobId => .object [("state", .string "CANCEL_PENDING"), ("job_id", .string jobId)]
  | unknown reason => .object [("state", .string "UNKNOWN"), ("reason", .string reason.text)]
  | rejected code => .object [("state", .string "REJECTED"), ("code", .string code.text)]

structure Reply where
  identity : RequestIdentity
  outcome : ReplyOutcome

namespace Reply

/-- `Reply::validate`. -/
def validate (reply : Reply) : Except HelperError Unit :=
  match reply.outcome with
  | .jobObserved observation => JobReply.validate ⟨reply.identity, observation⟩
  | .cancelPending jobId => do
      reject (¬validDigest reply.identity.requestSha256 ∨ ¬validDigest reply.identity.intentSha256)
        .identity
      reject (¬isJobId jobId) .identity
      reject ('_' ∈ jobId.toList ∨ reply.identity.operation ≠ .cancelJob) .metadata
  | _ => reject (¬validDigest reply.identity.requestSha256 ∨
      ¬validDigest reply.identity.intentSha256) .identity

/-- Whether an outcome is bound to the request's job. -/
def bound (request : Request) : ReplyOutcome → Bool
  | .jobObserved observation =>
      request.requestedJobId = some observation.status.jobId.value ∧
        observation.status.schedulerName = request.intent.schedulerName ∧
        observation.status.sshAlias = request.intent.target.backendId
  | .cancelPending jobId => request.requestedJobId = some jobId
  | _ => true

/-- A token stands somewhere in the text of an outcome. -/
def echoes (token : String) (outcome : ReplyOutcome) : Bool :=
  utf8 token <:+: outcome.document.write

/-- `Reply::validate_for`. -/
def validateFor (reply : Reply) (request : Request) : Except HelperError Unit := do
  reply.validate
  reject (reply.identity ≠ request.identity) .identity
  reject (¬bound request reply.outcome) .identity
  reject (echoes request.intent.submissionToken reply.outcome) .metadata

def forRequest (request : Request) (outcome : ReplyOutcome) : Except HelperError Reply := do
  let reply : Reply := ⟨request.identity, outcome⟩
  reply.validateFor request
  .ok reply

end Reply

/-! ### Which replies are given -/

section Replies

variable {request : Request} {outcome : ReplyOutcome} {reply : Reply}

lemma Request.identity_valid (request : Request) :
    validDigest request.identity.requestSha256 = true ∧
      validDigest request.identity.intentSha256 = true :=
  ⟨request.digest_valid, request.intent.digest_valid⟩

lemma Reply.forRequest_eq_ok : Reply.forRequest request outcome = .ok reply ↔
    Reply.validate ⟨request.identity, outcome⟩ = .ok () ∧ Reply.bound request outcome = true ∧
      Reply.echoes request.intent.submissionToken outcome = false ∧ reply = ⟨request.identity, outcome⟩ := by
  unfold Reply.forRequest Reply.validateFor
  simp only [bind_eq_ok, reject_eq_ok, not_not, ne_eq, Bool.not_eq_true, Bool.not_eq_false]
  constructor
  · rintro ⟨⟨⟩, ⟨⟨⟩, hvalid, ⟨⟩, -, ⟨⟩, hbound, hechoes⟩, h⟩
    exact ⟨hvalid, hbound, hechoes, (Except.ok.inj h).symm⟩
  · rintro ⟨hvalid, hbound, hechoes, rfl⟩
    exact ⟨(), ⟨(), hvalid, (), trivial, (), hbound, hechoes⟩, rfl⟩

lemma Reply.forRequest_ok (hvalid : Reply.validate ⟨request.identity, outcome⟩ = .ok ())
    (hbound : Reply.bound request outcome = true) (hechoes : Reply.echoes request.intent.submissionToken outcome = false) :
    Reply.forRequest request outcome = .ok ⟨request.identity, outcome⟩ :=
  Reply.forRequest_eq_ok.mpr ⟨hvalid, hbound, hechoes, rfl⟩

end Replies

/-! ## The cancellation a client keeps -/

/-- `State`: the client's record of a cancel request. -/
structure Cancellation where
  requestSha256 : String
  jobId : String
  requestedAt : String
  terminationVerified : Bool
  observation : Option StatusObservation

namespace Cancellation

variable (rfc3339 : String → Bool)

/-- What an observation has to be for the record that holds it. -/
def checkObservation (state : Cancellation) (observation : StatusObservation) :
    Except HelperError Unit := do
  observation.status.validate.mapError fun _ => .identity
  reject (observation.status.jobId.value ≠ state.jobId ∨ observation.retainedPrevious ∨
    observation.status.state.isTerminal ≠ state.terminationVerified) .identity

def validate (state : Cancellation) : Except HelperError Unit := do
  reject (¬validDigest state.requestSha256 ∨ ¬isJobId state.jobId ∨ ¬rfc3339 state.requestedAt)
    .identity
  match state.observation with
  | some observation => state.checkObservation observation
  | none => reject (state.terminationVerified) .identity

def bind (state : Cancellation) (request : Request) : Except HelperError Unit := do
  reject (request.operation ≠ .cancelJob ∨
    state.requestSha256 ≠ request.identity.requestSha256 ∨
    some state.jobId ≠ request.requestedJobId ∨ ¬rfc3339 state.requestedAt) .identity
  state.validate rfc3339

/-- `State::new`. -/
def new (request : Request) (now : String) : Except HelperError Cancellation :=
  match request.requestedJobId with
  | none => .error .identity
  | some jobId => do
      let value : Cancellation :=
        { requestSha256 := request.identity.requestSha256
          jobId := jobId
          requestedAt := now
          terminationVerified := false
          observation := none }
      value.bind rfc3339 request
      .ok value

/-- The record with what a reply says. -/
def next (state : Cancellation) : ReplyOutcome → Cancellation
  | .jobObserved observation =>
      if ¬observation.retainedPrevious ∧
          (¬state.terminationVerified ∨ state.observation = some observation) then
        { state with
          terminationVerified := observation.status.state.isTerminal
          observation := some observation }
      else state
  | _ => state

def observed (state : Cancellation) (request : Request) (reply : Reply) :
    Except HelperError Cancellation := do
  state.bind rfc3339 request
  reject (reply.identity ≠ request.identity) .identity
  (state.next reply.outcome).bind rfc3339 request
  .ok (state.next reply.outcome)

end Cancellation

/-! ### Chains of replies -/

section Chain

variable {rfc3339 : String → Bool} {state state' : Cancellation} {request : Request} {reply : Reply}

/-- An observation that proves a termination: fresh, terminal, of its job and past its own check. -/
structure Cancellation.Proves (jobId : String) (observation : StatusObservation) : Prop where
  valid : observation.status.validate = .ok ()
  own : observation.status.jobId.value = jobId
  fresh : observation.retainedPrevious = false
  terminal : observation.status.state.isTerminal = true

lemma Cancellation.proves_of_validate (h : state.validate rfc3339 = .ok ())
    (hverified : state.terminationVerified = true) :
    ∃ observation, state.observation = some observation ∧
      Cancellation.Proves state.jobId observation := by
  unfold Cancellation.validate at h
  simp only [bind_eq_ok] at h
  obtain ⟨-, -, h⟩ := h
  cases hsome : state.observation with
  | none =>
    rw [hsome] at h
    exact absurd hverified (reject_eq_ok.mp h)
  | some observation =>
    rw [hsome] at h
    simp only [Cancellation.checkObservation, bind_eq_ok, mapError_eq_ok, reject_eq_ok, not_or,
      ne_eq, not_not, Bool.not_eq_true] at h
    obtain ⟨⟨⟩, hvalid, hown, hfresh, hterminal⟩ := h
    exact ⟨observation, rfl, hvalid, hown, hfresh, hterminal.trans hverified⟩

/-- What one reply makes of the record. -/
structure Cancellation.Follows (request : Request) (reply : Reply) (state state' : Cancellation) :
    Prop where
  identity : reply.identity = request.identity
  jobId : state'.jobId = state.jobId
  request : state'.requestSha256 = state.requestSha256
  frozen : state.terminationVerified = true → state' = state
  told : state' = state ∨
    ∃ observation, reply.outcome = .jobObserved observation ∧ state'.observation = some observation
  proved : state'.terminationVerified = true → ∃ observation,
    state'.observation = some observation ∧ Cancellation.Proves state'.jobId observation

lemma Cancellation.next_eq (state : Cancellation) (outcome : ReplyOutcome)
    (hvalid : state.validate rfc3339 = .ok ()) :
    (state.next outcome).jobId = state.jobId ∧
      (state.next outcome).requestSha256 = state.requestSha256 ∧
      (state.terminationVerified = true → state.next outcome = state) ∧
      (state.next outcome = state ∨ ∃ observation, outcome = .jobObserved observation ∧
        (state.next outcome).observation = some observation) := by
  cases outcome with
  | jobObserved observation =>
    simp only [Cancellation.next]
    split_ifs with htaken
    · refine ⟨rfl, rfl, fun hverified => ?_, .inr ⟨observation, rfl, rfl⟩⟩
      -- A verified termination only takes the observation that it has already.
      obtain ⟨proof, hproof, hproves⟩ := Cancellation.proves_of_validate hvalid hverified
      have hsame : state.observation = some observation :=
        htaken.2.resolve_left fun hnot => hnot hverified
      obtain rfl : proof = observation := Option.some.inj (hproof.symm.trans hsame)
      rw [hproves.terminal, ← hverified, ← hsame]
    · exact ⟨rfl, rfl, fun _ => rfl, .inl rfl⟩
  | cancelPending jobId => exact ⟨rfl, rfl, fun _ => rfl, .inl rfl⟩
  | unknown reason => exact ⟨rfl, rfl, fun _ => rfl, .inl rfl⟩
  | rejected code => exact ⟨rfl, rfl, fun _ => rfl, .inl rfl⟩

/-- **One reply.** -/
theorem Cancellation.observed_follows (h : state.observed rfc3339 request reply = .ok state') :
    Cancellation.Follows request reply state state' := by
  unfold Cancellation.observed at h
  simp only [bind_eq_ok, reject_eq_ok, not_not, ne_eq] at h
  obtain ⟨⟨⟩, hbind, ⟨⟩, hidentity, ⟨⟩, hnext, h⟩ := h
  obtain rfl := Except.ok.inj h
  obtain ⟨⟨⟩, -, hvalid⟩ := bind_eq_ok.mp hbind
  obtain ⟨⟨⟩, -, hvalid'⟩ := bind_eq_ok.mp hnext
  obtain ⟨hjob, hrequest, hfrozen, htold⟩ := Cancellation.next_eq state reply.outcome hvalid
  exact ⟨hidentity, hjob, hrequest, hfrozen, htold, Cancellation.proves_of_validate hvalid'⟩

/-- The record after a chain of replies. -/
def Cancellation.observedAll (rfc3339 : String → Bool) (state : Cancellation)
    (chain : List (Request × Reply)) : Except HelperError Cancellation :=
  chain.foldlM (fun state next => state.observed rfc3339 next.1 next.2) state

/-- **A chain of replies**: once a termination is verified the record stays as it is, and a
termination that the chain verifies was told by one of its replies, in an observation that proves
it. -/
theorem Cancellation.chain : ∀ {chain : List (Request × Reply)} {state state' : Cancellation},
    state.observedAll rfc3339 chain = .ok state' →
      state'.jobId = state.jobId ∧ (state.terminationVerified = true → state' = state) ∧
        (state.terminationVerified = false → state'.terminationVerified = true →
          ∃ observation, state'.observation = some observation ∧
            Cancellation.Proves state'.jobId observation ∧
            ∃ next ∈ chain, next.2.identity = next.1.identity ∧
              next.2.outcome = .jobObserved observation)
  | [], state, state', h => by
      obtain rfl := Except.ok.inj h
      refine ⟨rfl, fun _ => rfl, fun hnot hverified => ?_⟩
      rw [hnot] at hverified
      cases hverified
  | next :: chain, state, state', h => by
      obtain ⟨middle, hfirst, hrest⟩ := foldlM_cons_eq_ok.mp h
      have hfollows := Cancellation.observed_follows hfirst
      obtain ⟨hjob, hfrozen, hproved⟩ := Cancellation.chain hrest
      refine ⟨hjob.trans hfollows.jobId, fun hverified => ?_, fun hnot hverified => ?_⟩
      · have hsame := hfollows.frozen hverified
        rw [hfrozen (hsame ▸ hverified), hsame]
      · cases hmiddle : middle.terminationVerified with
        | false =>
          obtain ⟨observation, hsome, hproves, told, hmem, hown⟩ := hproved hmiddle hverified
          exact ⟨observation, hsome, hproves, told, List.mem_cons_of_mem _ hmem, hown⟩
        | true =>
          obtain rfl := hfrozen hmiddle
          obtain ⟨observation, hsome, hproves⟩ := hfollows.proved hmiddle
          refine ⟨observation, hsome, hproves, next, List.mem_cons_self, hfollows.identity, ?_⟩
          rcases hfollows.told with hsame | ⟨told, houtcome, htold⟩
          · rw [hsame, hnot] at hmiddle
            cases hmiddle
          · rw [houtcome, Option.some.inj (htold.symm.trans hsome)]

end Chain

end Slurm

end ExperimentControl
