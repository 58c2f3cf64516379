import ExperimentControl.Checkpoints
import ExperimentControl.Json.Literals

/-!
# Retry requests

The explicit continuation of an Attempt, of `core/src/first_submission/native.rs` and its `retry.rs`:
the numbers of Attempts, what a retry is bound to, and what an operator asks for.

* `number`, `next` — the number of an Attempt and the Attempt behind it, with
  **`number_of_next`**: the next Attempt has the next number.
* `Binding` — the observed hashes an Attempt is bound to.
* `Request` — a retry from a checkpoint or from the start, with **`Request.read_document`**: it is
  read back exactly when its cost estimate is finite.
-/

namespace ExperimentControl

namespace Native

/-- The errors of the native admission: what was wrong. -/
structure Error where
  what : String
  deriving DecidableEq, Repr

def RETRY_CONTRACT : String := "native-attempt-retry.v1"

/-! ## Attempt numbers -/

/-- The identity of the Attempt with a number: at least three digits. -/
def attemptName (n : ℕ) : String := "attempt-" ++ String.ofList (padded 3 n)

def number (attempt : String) : Except Error ℕ := do
  (validateAttempt attempt).mapError fun _ => ⟨"Attempt identity"⟩
  match (Json.digits (attempt.toList.drop 8)).filter (· < 2 ^ 32) with
  | none => .error ⟨"Attempt identity"⟩
  | some n => do
      reject (n = 0 ∨ attemptName n ≠ attempt) ⟨"Attempt limit"⟩
      .ok n

def next (attempt : String) : Except Error String := do
  let n ← number attempt
  reject (n + 1 ≥ 2 ^ 32) ⟨"Attempt limit"⟩
  let value := attemptName (n + 1)
  let _ ← number value
  .ok value

variable {attempt follower : String} {n : ℕ}

lemma toList_attemptName (n : ℕ) :
    (attemptName n).toList = "attempt-".toList ++ padded 3 n := by
  rw [attemptName, String.toList_append, @String.toList_ofList (padded 3 n)]

/-- **A name with a number is the name of the number.** -/
theorem number_eq_ok : number attempt = .ok n ↔ attempt = attemptName n ∧ 0 < n ∧ n < 2 ^ 32 := by
  have hprefix : "attempt-".toList = ['a', 't', 't', 'e', 'm', 'p', 't', '-'] :=
    String.toList_ofList
  constructor
  · intro h
    rw [number] at h
    obtain ⟨⟨⟩, -, h⟩ := bind_eq_ok.mp h
    cases hdigits : (Json.digits (attempt.toList.drop 8)).filter (· < 2 ^ 32) with
    | none =>
      rw [hdigits] at h
      cases h
    | some m =>
      rw [hdigits] at h
      obtain ⟨⟨⟩, hname, h⟩ := bind_eq_ok.mp h
      obtain rfl : m = n := Except.ok.inj h
      rw [reject_eq_ok, not_or, not_not] at hname
      have hlimit := (Option.filter_eq_some_iff.mp hdigits).2
      exact ⟨hname.2.symm, Nat.pos_of_ne_zero hname.1, of_decide_eq_true hlimit⟩
  · rintro ⟨rfl, hpos, hlimit⟩
    have hdrop : (attemptName n).toList.drop 8 = padded 3 n := by
      rw [toList_attemptName, hprefix]
      rfl
    have hall : (padded 3 n).all Char.isDigit = true :=
      List.all_eq_true.mpr fun c hc => isDigit_padded hc
    have hlength := le_length_padded 3 n
    have hvalid : validateAttempt (attemptName n) = .ok () := by
      rw [validateAttempt, bind_eq_ok]
      refine ⟨(), ?_, ?_⟩
      · rw [reject_eq_ok, not_not, toList_attemptName]
        exact List.prefix_append _ _
      · rw [hdrop, reject_eq_ok, hall]
        simpa using hlength
    have hdigits : Json.digits (padded 3 n) = some n := by
      have hne : padded 3 n ≠ [] := by
        intro hnil
        rw [hnil] at hlength
        exact absurd hlength (by decide)
      rw [Json.digits, if_pos ⟨hne, hall⟩, ofDigitChars_padded]
    rw [number, hvalid, hdrop, hdigits, Option.filter_some, if_pos (decide_eq_true hlimit)]
    refine bind_eq_ok.mpr ⟨(), rfl, bind_eq_ok.mpr ⟨(), ?_, rfl⟩⟩
    rw [reject_eq_ok]
    simp [Nat.ne_of_gt hpos]

lemma next_eq_ok : next attempt = .ok follower ↔
    ∃ n, number attempt = .ok n ∧ n + 1 < 2 ^ 32 ∧ follower = attemptName (n + 1) := by
  constructor
  · intro h
    rw [next] at h
    obtain ⟨n, hnumber, h⟩ := bind_eq_ok.mp h
    obtain ⟨⟨⟩, hlimit, h⟩ := bind_eq_ok.mp h
    obtain ⟨_, -, h⟩ := bind_eq_ok.mp h
    rw [reject_eq_ok, ge_iff_le, not_le] at hlimit
    exact ⟨n, hnumber, hlimit, (Except.ok.inj h).symm⟩
  · rintro ⟨n, hnumber, hlimit, rfl⟩
    have hlater : number (attemptName (n + 1)) = .ok (n + 1) :=
      number_eq_ok.mpr ⟨rfl, Nat.succ_pos n, hlimit⟩
    rw [next, hnumber, ok_bind, bind_eq_ok]
    refine ⟨(), ?_, ?_⟩
    · rw [reject_eq_ok, ge_iff_le, not_le]
      exact hlimit
    · exact bind_eq_ok.mpr ⟨n + 1, hlater, rfl⟩

/-- **The next Attempt has the next number.** -/
theorem number_of_next (h : next attempt = .ok follower) :
    ∃ n, number attempt = .ok n ∧ number follower = .ok (n + 1) := by
  obtain ⟨n, hnumber, hlimit, rfl⟩ := next_eq_ok.mp h
  exact ⟨n, hnumber, number_eq_ok.mpr ⟨rfl, Nat.succ_pos n, hlimit⟩⟩

/-! ## Bindings -/

/-- The hashes are observations of files, not the identity of the science. -/
structure Binding where
  project : String
  runId : String
  attemptId : String
  projectSha256 : String
  runSha256 : String
  attemptSha256 : String
  sourceReceiptSha256 : String
  backendConfigSha256 : String
  deriving DecidableEq, Repr

namespace Binding

def hashes (binding : Binding) : List String :=
  [binding.projectSha256, binding.runSha256, binding.attemptSha256, binding.sourceReceiptSha256,
    binding.backendConfigSha256]

def document (binding : Binding) : Json :=
  .object [("project", .string binding.project), ("run_id", .string binding.runId),
    ("attempt_id", .string binding.attemptId), ("project_sha256", .string binding.projectSha256),
    ("run_sha256", .string binding.runSha256), ("attempt_sha256", .string binding.attemptSha256),
    ("source_receipt_sha256", .string binding.sourceReceiptSha256),
    ("backend_config_sha256", .string binding.backendConfigSha256)]

def read (document : Json) : Option Binding := do
  let fields ← document.record ["project", "run_id", "attempt_id", "project_sha256", "run_sha256",
    "attempt_sha256", "source_receipt_sha256", "backend_config_sha256"]
  let project ← fields.text "project"
  let runId ← fields.text "run_id"
  let attemptId ← fields.text "attempt_id"
  let projectSha256 ← fields.text "project_sha256"
  let runSha256 ← fields.text "run_sha256"
  let attemptSha256 ← fields.text "attempt_sha256"
  let sourceReceiptSha256 ← fields.text "source_receipt_sha256"
  let backendConfigSha256 ← fields.text "backend_config_sha256"
  return { project, runId, attemptId, projectSha256, runSha256, attemptSha256,
           sourceReceiptSha256, backendConfigSha256 }

lemma read_document (binding : Binding) : read binding.document = some binding := by
  simp [read, document, Json.record, Json.asObject, Option.filter_some, Fields.text,
    Fields.get_cons, Json.asStr]

end Binding

/-! ## Requests -/

/-- The Attempt an operator starts again from the beginning. -/
structure StartFrom where
  runId : String
  attemptId : String
  deriving DecidableEq, Repr

namespace StartFrom

def document (start : StartFrom) : Json :=
  .object [("run_id", .string start.runId), ("attempt_id", .string start.attemptId)]

def read (document : Json) : Option StartFrom := do
  let fields ← document.record ["run_id", "attempt_id"]
  let runId ← fields.text "run_id"
  let attemptId ← fields.text "attempt_id"
  return { runId, attemptId }

lemma read_document (start : StartFrom) : read start.document = some start := by
  simp [read, document, Json.record, Json.asObject, Option.filter_some, Fields.text,
    Fields.get_cons, Json.asStr]

lemma document_ne_null (start : StartFrom) : start.document ≠ .null := by
  rintro ⟨⟩

end StartFrom

def isActionId (value : String) : Bool :=
  (Sources.stripPrefix value "action-").any fun suffix =>
    byteLen suffix = 16 ∧ suffix.toList.all isLowerHex

structure Request (F : Type) where
  confirmation : String
  resumeFrom : Option Checkpoints.Reference
  restartFrom : Option StartFrom
  maxGpuHours : F
  reason : String

namespace Request

variable {F : Type} (format : FloatFormat F) (enc : Encoding) (request : Request F)

def validate (action : String) : Except Error Unit := do
  reject (¬isActionId action) ⟨"parent Action"⟩
  match request.resumeFrom, request.restartFrom with
  | some reference, none => reference.validate.mapError fun _ => ⟨"retry checkpoint"⟩
  | none, some start => do
      (validateId start.runId).mapError fun _ => ⟨"retry Run"⟩
      let _ ← number start.attemptId
      .ok ()
  | _, _ => .error ⟨"exactly one retry source is required"⟩

/-- The Run and the Attempt that are continued. -/
def parent : Except Error (String × String) :=
  match request.resumeFrom, request.restartFrom with
  | some reference, none => .ok (reference.runId, reference.attemptId)
  | none, some start => .ok (start.runId, start.attemptId)
  | _, _ => .error ⟨"exactly one retry source is required"⟩

/-- A field that is left out when there is nothing in it. -/
def member {α : Type} (key : String) (document : α → Json) : Option α → Fields
  | some value => [(key, document value)]
  | none => []

def document : Json :=
  .object ([("confirmation", .string request.confirmation)] ++
    member "resume_from" Checkpoints.Reference.document request.resumeFrom ++
    member "restart_from" StartFrom.document request.restartFrom ++
    [("max_gpu_hours", format.document request.maxGpuHours), ("reason", .string request.reason)])

def read (document : Json) : Option (Request F) := do
  let fields ← document.record
    ["confirmation", "resume_from", "restart_from", "max_gpu_hours", "reason"]
  let confirmation ← fields.orDefault Json.asStr "" "confirmation"
  let resumeFrom ← fields.optional Checkpoints.Reference.read "resume_from"
  let restartFrom ← fields.optional StartFrom.read "restart_from"
  let maxGpuHours ← fields.orDefault format.ofJson (format.read "0.0") "max_gpu_hours"
  let reason ← fields.orDefault Json.asStr "" "reason"
  return { confirmation, resumeFrom, restartFrom, maxGpuHours, reason }

def identity (action : String) : Except Error String := do
  request.validate action
  match enc.digest (.object [("contract", .string RETRY_CONTRACT),
    ("parent_action", .string action), ("request", request.document format)]) with
  | .ok digest => .ok ("sha256:" ++ digest)
  | .error _ => .error ⟨"retry request identity"⟩

variable {format} {request}

/-- What is read back of a request: everything, once the float is read. -/
lemma read_document_eq : read format (request.document format) =
    (format.ofJson (format.document request.maxGpuHours)).map
      fun hours => { request with maxGpuHours := hours } := by
  obtain ⟨confirmation, resumeFrom, restartFrom, maxGpuHours, reason⟩ := request
  have hresume (reference : Checkpoints.Reference) :
      Fields.nullable Checkpoints.Reference.read reference.document = some (some reference) :=
    Json.nullable_ofOption Checkpoints.Reference.read_document
      Checkpoints.Reference.document_ne_null (some reference)
  have hrestart (start : StartFrom) :
      Fields.nullable StartFrom.read start.document = some (some start) :=
    Json.nullable_ofOption StartFrom.read_document StartFrom.document_ne_null (some start)
  rcases resumeFrom with _ | reference <;> rcases restartFrom with _ | start <;>
    cases hfloat : format.ofJson (format.document maxGpuHours) <;>
    simp [read, document, member, Json.record, Json.asObject, Option.filter_some,
      Fields.orDefault, Fields.optional, Fields.get_cons, Json.asStr, hfloat, hresume, hrestart]

/-- **A request is read back** exactly when its cost estimate is finite. -/
theorem read_document (h : format.isFinite request.maxGpuHours = true) :
    read format (request.document format) = some request := by
  rw [read_document_eq, FloatFormat.ofJson_document h]
  rfl

lemma read_document_none (h : format.isFinite request.maxGpuHours = false) :
    read format (request.document format) = none := by
  rw [read_document_eq, FloatFormat.ofJson_document_none h]
  rfl

end Request

/-! ## A sampled request -/

section Sampled

open Encoding (SampleFloat sampleFormat)

/-- The hash of the sample: one text for everything. -/
def sampleHash : String := String.ofList (List.replicate 64 'a')

lemma validDigest_sampleHash : validDigest ("sha256:" ++ sampleHash) = true :=
  validDigest_append (isSha256_ofList rfl (by decide))

def sampleEncoding : Encoding := sampleFormat.encoding fun _ => sampleHash

def sampleInstant (_ : String) : Option ℤ := some 0

/-- The binding of a first Attempt. -/
def sampleBinding : Binding where
  project := "demo"
  runId := "train"
  attemptId := "attempt-001"
  projectSha256 := "sha256:" ++ sampleHash
  runSha256 := "sha256:" ++ sampleHash
  attemptSha256 := "sha256:" ++ sampleHash
  sourceReceiptSha256 := "sha256:" ++ sampleHash
  backendConfigSha256 := "sha256:" ++ sampleHash

/-- A restart with a cost estimate. -/
def sampleRequest (hours : SampleFloat) : Request SampleFloat where
  confirmation := ""
  resumeFrom := none
  restartFrom := some ⟨"train", "attempt-001"⟩
  maxGpuHours := hours
  reason := "cache repaired"

lemma number_first : number "attempt-001" = .ok 1 :=
  number_eq_ok.mpr ⟨by decide, by decide, by decide⟩

lemma number_second : number "attempt-002" = .ok 2 :=
  number_eq_ok.mpr ⟨by decide, by decide, by decide⟩

lemma next_first : next "attempt-001" = .ok "attempt-002" :=
  next_eq_ok.mpr ⟨1, number_first, by decide, by decide⟩

lemma validateId_train : validateId "train" = .ok () :=
  validateId_ofList (by decide) (by decide) (by decide)

lemma sampleRequest_validate (hours : SampleFloat) :
    (sampleRequest hours).validate "action-0123456789abcdef" = .ok () := by
  have haction : isActionId "action-0123456789abcdef" = true := by decide
  refine bind_eq_ok.mpr ⟨(), ?_, ?_⟩
  · rw [reject_eq_ok, not_not]
    exact haction
  · refine bind_eq_ok.mpr ⟨(), mapError_ok.mpr validateId_train, ?_⟩
    exact bind_eq_ok.mpr ⟨1, number_first, rfl⟩

lemma sampleRequest_identity (hours : SampleFloat) :
    (sampleRequest hours).identity sampleFormat sampleEncoding "action-0123456789abcdef" =
      .ok ("sha256:" ++ sampleHash) := by
  refine bind_eq_ok.mpr ⟨(), sampleRequest_validate hours, ?_⟩
  cases hours <;> rfl

end Sampled

end Native

end ExperimentControl
