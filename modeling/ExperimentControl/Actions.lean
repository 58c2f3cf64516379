import ExperimentControl.Cloud.Retry
import ExperimentControl.Json.Agreement
import ExperimentControl.Slurm.StatusDocuments

/-!
# Action plans

The frozen plans of `core/src/operations.rs`, `core/src/slurm/action.rs` and
`core/src/cloud/action.rs`: the digest of a plan is taken over what is left of the document without
its digests and without what is recorded of its execution, and it is checked again whenever the plan
is read.

* `body`, `actionId` — what is digested, and the name that follows from it.
* `Slurm.Action.validate`, `Cloud.Action.validate` — the checks of the two formats.
* `Sealed`, **`agree_of_sealed`** — plans under one digest agree on every field.
* **`plans_tamper_evident`** — so do the plans that are accepted for one request.
-/

namespace ExperimentControl

/-! ## Operations -/

namespace Operations

inductive ScopeType
  | run
  deriving DecidableEq, Repr

def ScopeType.name : ScopeType → String
  | run => "run"

structure Scope where
  project : String
  scopeType : ScopeType
  objectId : String
  deriving DecidableEq, Repr

def Scope.document (scope : Scope) : Json :=
  .object [("project", .string scope.project), ("scope_type", .string scope.scopeType.name),
    ("object_id", .string scope.objectId)]

/-- The derived reader takes a variant by its name, or as the one key over nothing. -/
def ScopeType.read : Json → Option ScopeType
  | .string text => Slurm.readWord ScopeType.name [.run] text
  | .object [(text, .null)] => Slurm.readWord ScopeType.name [.run] text
  | _ => none

/-- The derived reader passes over the other fields of an object, and takes a list of the fields in
their order as well. -/
def Scope.read : Json → Option Scope
  | .object fields => do
      let project ← Fields.text fields "project"
      let scopeType ← (Fields.get fields "scope_type").bind ScopeType.read
      let objectId ← Fields.text fields "object_id"
      return { project, scopeType, objectId }
  | .array [first, second, third] => do
      let project ← first.asStr
      let scopeType ← ScopeType.read second
      let objectId ← third.asStr
      return { project, scopeType, objectId }
  | _ => none

/-- The identity of an Action: sixteen digits of the hash of its scope and its intent. -/
def actionId (sha256 : Bytes → String) (scope : Scope) (intentKey : String) : String :=
  String.ofList (("action-" ++ sha256 (utf8 (scope.project ++ ":" ++ scope.scopeType.name ++ ":" ++
    scope.objectId ++ ":" ++ intentKey))).toList.take 23)

end Operations

namespace Action

open Operations (Scope)

/-! ## Bodies -/

def HASH_FIELDS : List String :=
  ["action_id", "request_digest", "intent_digest", "gate_bundle_digest"]

/-- What is recorded of the execution of a plan. -/
def recordFields : List String := ["execution", "journal"]

/-- What the digest of a plan is taken over. -/
def body (plan : Fields) : Fields :=
  plan.filter fun field => field.1 ∉ HASH_FIELDS ++ recordFields

/-- The digest of a document behind the name of the hash. -/
def digest (enc : Encoding) (value : Json) : Option String :=
  match enc.digest value with
  | .ok digest => some ("sha256:" ++ digest)
  | .error _ => none

/-- The document whose digest approves the gates of a plan. -/
def gateDocument (intent : String) (plan : Json) : Json :=
  .object [("intent_digest", .string intent), ("gates", plan.index "gates")]

/-- A text of the document stands somewhere in its JSON text. -/
def mentions (value : Json) (text : String) : Bool := utf8 text <:+: value.write

end Action

/-! ## Scheduler plans -/

namespace Slurm

namespace Action

open ExperimentControl.Action

inductive Error
  | invalid
  deriving DecidableEq, Repr

def FORMAT : String := "native-slurm-action.v1"

/-- What a request is to a plan: whether it passes its own check, and what it freezes. -/
structure Request where
  validated : Bool
  scope : Slurm.Scope
  manifestSha256 : String
  submissionToken : String
  operation : OperationTag
  /-- The digest of the intent, if it has one. -/
  intentSha256 : Option String

def text (value : Json) (key : String) : Except Error String :=
  match (value.get key).bind Json.asStr with
  | some text => .ok text
  | none => .error .invalid

/-- What must be there. -/
def required {α : Type} (value : Option α) : Except Error α :=
  match value with
  | some value => .ok value
  | none => .error .invalid

section Plans

-- The instant of an RFC 3339 text, as the `time` crate reads it.
variable (enc : Encoding) (rfc3339 : String → Option ℤ)

def scope (plan : Json) (request : Request) : Except Error Operations.Scope := do
  reject (¬request.validated) .invalid
  let scope ← required (Operations.Scope.read (plan.index "scope"))
  reject (scope.scopeType ≠ .run ∨ scope.project ≠ request.scope.project ∨
    scope.objectId ≠ request.scope.runId) .invalid
  let runId ← text plan "run_id"
  let attemptId ← text plan "attempt_id"
  let operation ← text plan "operation"
  let manifest ← text plan "execution_manifest_sha256"
  reject (runId ≠ request.scope.runId ∨ attemptId ≠ request.scope.attemptId ∨
    operation ≠ "SUBMIT_RUN" ∨ manifest ≠ request.manifestSha256 ∨
    request.operation ≠ .prepareSubmission) .invalid
  let campaign ← text plan "execution_campaign_sha256"
  reject (¬validDigest campaign ∨ ¬validDigest manifest) .invalid
  let createdAt ← text plan "created_at"
  let created ← required (rfc3339 createdAt)
  let expiresAt ← text plan "gate_expires_at"
  let expires ← required (rfc3339 expiresAt)
  reject (expires ≤ created ∨ (plan.index "gates").asArray.isNone ∨
    (plan.index "ready").asBool.isNone) .invalid
  reject (mentions plan request.submissionToken) .invalid
  .ok scope

def validate (plan : Json) (request : Request) : Except Error Unit := do
  let scope ← scope rfc3339 plan request
  let intentSha256 ← required request.intentSha256
  reject (¬Json.equal (plan.index "native_slurm")
    (.object [("format", .string FORMAT), ("intent_sha256", .string intentSha256)])) .invalid
  let fields ← required plan.asObject
  let intent ← required (digest enc (.object (body fields)))
  let requestDigest ← text plan "request_digest"
  let intentDigest ← text plan "intent_digest"
  let actionId ← text plan "action_id"
  let gateDigest ← text plan "gate_bundle_digest"
  let gates ← required (digest enc (gateDocument intent plan))
  reject (requestDigest ≠ intent ∨ intentDigest ≠ intent ∨
    actionId ≠ Operations.actionId enc.sha256 scope intent ∨ gateDigest ≠ gates) .invalid

end Plans

end Action

end Slurm

/-! ## Cloud plans -/

namespace Cloud

namespace Action

open ExperimentControl.Action
open Operations (Scope)

def FORMAT : String := "native-cloud-action.v1"

/-- What an execution is to a plan: its own check, and what it freezes. -/
structure Execution where
  validated : Except CoreError Unit
  binding : Native.Binding
  job : Job
  /-- The digest of the whole execution. -/
  digest : Except CoreError String

def scope (execution : Execution) : Scope :=
  ⟨execution.job.project, .run, execution.job.runId⟩

/-- What must be there. -/
def required {α : Type} (what : String) (value : Option α) : Except CoreError α :=
  match value with
  | some value => .ok value
  | none => .error ⟨what⟩

/-- Twenty-four hours, in nanoseconds. -/
def MAX_WINDOW : ℤ := 24 * 3600 * 1000000000

section Plans

-- The instant of an RFC 3339 text in nanoseconds, as the `time` crate reads it.
variable (enc : Encoding) (rfc3339 : String → Option ℤ)

def validate (plan : Json) (execution : Execution) : Except CoreError Unit := do
  execution.validated
  let binding := execution.binding
  reject (plan.index "operation" ≠ .string "SUBMIT_RUN" ∨
    ¬Json.equal (plan.index "scope") (scope execution).document ∨
    plan.index "run_id" ≠ .string execution.job.runId ∨
    plan.index "attempt_id" ≠ .string execution.job.attemptId ∨
    plan.index "execution_campaign_sha256" ≠ .string binding.runSha256 ∨
    plan.index "execution_manifest_sha256" ≠ .string binding.attemptSha256 ∨
    (plan.index "native_cloud").index "format" ≠ .string FORMAT) ⟨"Action binding"⟩
  let executionSha256 ← execution.digest
  reject ((plan.index "native_cloud").index "execution_sha256" ≠ .string executionSha256 ∨
    ¬Json.equal ((plan.index "native_cloud").index "binding") binding.document) ⟨"Action binding"⟩
  let start ← required "Action time" ((plan.index "created_at").asStr.bind rfc3339)
  let expiry ← required "Action expiry" ((plan.index "gate_expires_at").asStr.bind rfc3339)
  reject (expiry ≤ start ∨ expiry - start > MAX_WINDOW ∨ plan.index "ready" ≠ .bool true ∨
    (plan.index "gates").asArray.isNone) ⟨"Action gates"⟩
  let fields ← required "Action object" plan.asObject
  let intent ← required "identity" (digest enc (.object (body fields)))
  reject (plan.index "request_digest" ≠ .string intent ∨
    plan.index "intent_digest" ≠ .string intent ∨
    plan.index "action_id" ≠ .string (Operations.actionId enc.sha256 (scope execution) intent))
    ⟨"Action digest"⟩
  let gates ← required "identity" (digest enc (gateDocument intent plan))
  reject (plan.index "gate_bundle_digest" ≠ .string gates ∨
    -- Only what is frozen must omit the token: the record may name the job by it.
    mentions (.object (body fields)) execution.job.submissionToken) ⟨"Action digest"⟩

end Plans

end Action

end Cloud

/-! ## Plans under one digest -/

namespace Action

open Operations (Scope)

/-- A plan with the digests of its own content. -/
structure Sealed (enc : Encoding) (scope : Scope) (plan : Json) (fields : Fields)
    (intent gates : String) : Prop where
  object : plan = .object fields
  ofBody : digest enc (.object (body fields)) = some intent
  requestDigest : plan.get "request_digest" = some (.string intent)
  intentDigest : plan.get "intent_digest" = some (.string intent)
  actionId : plan.get "action_id" = some (.string (Operations.actionId enc.sha256 scope intent))
  ofGates : digest enc (gateDocument intent plan) = some gates
  gateDigest : plan.get "gate_bundle_digest" = some (.string gates)
  hasGates : (plan.get "gates").isSome = true

section Digests

variable {F : Type} {format : FloatFormat F} {sha256 : Bytes → String} {scope : Scope}
  {plan other : Json} {fields others : Fields} {intent gates gates' : String}

lemma digest_eq_some {enc : Encoding} {value : Json} {name : String} :
    digest enc value = some name ↔
      ∃ written, enc.bytes value = .ok written ∧ name = "sha256:" ++ enc.sha256 written := by
  unfold digest Encoding.digest
  cases enc.bytes value with
  | error e => simp [Except.map]
  | ok written => simp [Except.map, eq_comm]

/-- Documents under one digest have one text, where the hash has no collision. -/
lemma bytes_of_digest (hash : Function.Injective sha256) {left right : Json}
    (h : digest (format.encoding sha256) left = some intent)
    (h' : digest (format.encoding sha256) right = some intent) :
    ∃ written, (format.encoding sha256).bytes left = .ok written ∧
      (format.encoding sha256).bytes right = .ok written := by
  obtain ⟨written, hleft, hname⟩ := digest_eq_some.mp h
  obtain ⟨written', hright, hname'⟩ := digest_eq_some.mp h'
  have hsame : written = written' := by
    apply hash
    exact String.append_right_inj _ |>.mp (hname.symm.trans hname')
  exact ⟨written, hleft, hsame ▸ hright⟩

/-- What is left of a valid object is valid. -/
lemma valid_body (h : (Json.object fields).valid = true) :
    (Json.object (body fields)).valid = true := by
  obtain ⟨hkeys, hall⟩ := Json.readable_object.mp h
  refine Json.readable_object.mpr ⟨?_, ?_⟩
  · exact hkeys.sublist (List.filter_sublist.map Prod.fst)
  · rw [Json.readableFields_iff] at hall ⊢
    intro field hfield
    exact hall field (List.mem_of_mem_filter hfield)

lemma get_body {key : String} (h : key ∉ HASH_FIELDS ++ recordFields) :
    ∀ fields : Fields, Fields.get (body fields) key = Fields.get fields key
  | [] => rfl
  | (name, value) :: fields => by
      have ih := get_body h fields
      unfold body at ih ⊢
      rw [List.filter_cons, Fields.get_cons]
      split_ifs with hname heq heq
      · rw [Fields.get_cons, if_pos heq]
      · rw [Fields.get_cons, if_neg heq, ih]
      · exact absurd (heq ▸ h) (by simpa using hname)
      · exact ih

/-- The gates of plans that agree on them have one digest. -/
lemma gateDigest_eq (h : (format.encoding sha256).agree (plan.get "gates") (other.get "gates"))
    (hsome : (plan.get "gates").isSome = true) :
    digest (format.encoding sha256) (gateDocument intent plan) =
      digest (format.encoding sha256) (gateDocument intent other) := by
  obtain ⟨left, hleft⟩ := Option.isSome_iff_exists.mp hsome
  rw [hleft] at h
  cases hright : other.get "gates" with
  | none =>
    rw [hright] at h
    exact h.elim
  | some right =>
    rw [hright] at h
    obtain ⟨written, hbytes, hbytes'⟩ := Encoding.equal_iff.mp h
    have hgates : plan.index "gates" = left := by rw [Json.index, hleft, Option.getD_some]
    have hgates' : other.index "gates" = right := by rw [Json.index, hright, Option.getD_some]
    unfold digest Encoding.digest gateDocument
    rw [hgates, hgates']
    simp only [Encoding.bytes, Encoding.bytesFields, hbytes, hbytes']

/-- **Plans under one digest agree on every field** but the record of their execution. -/
theorem agree_of_sealed (hash : Function.Injective sha256) (hvalid : plan.valid = true)
    (hvalid' : other.valid = true)
    (h : Sealed (format.encoding sha256) scope plan fields intent gates)
    (h' : Sealed (format.encoding sha256) scope other others intent gates') {key : String}
    (hkey : key ∉ recordFields) :
    (format.encoding sha256).agree (plan.get key) (other.get key) := by
  have hcontent (name : String) (hname : name ∉ HASH_FIELDS ++ recordFields) :
      (format.encoding sha256).agree (plan.get name) (other.get name) := by
    obtain ⟨written, hbytes, hbytes'⟩ := bytes_of_digest hash h.ofBody h'.ofBody
    have hagree := Encoding.agree_of_bytes (valid_body (h.object ▸ hvalid))
      (valid_body (h'.object ▸ hvalid')) hbytes hbytes' name
    rwa [get_body hname, get_body hname, ← Json.get_object, ← Json.get_object, ← h.object,
      ← h'.object] at hagree
  by_cases hhash : key ∈ HASH_FIELDS
  · have hgates : gates = gates' := by
      have hsame : digest (format.encoding sha256) (gateDocument intent plan) =
          digest (format.encoding sha256) (gateDocument intent other) :=
        gateDigest_eq (hcontent "gates" (by decide)) h.hasGates
      rw [h.ofGates, h'.ofGates] at hsame
      exact Option.some.inj hsame
    simp only [HASH_FIELDS, List.mem_cons, List.not_mem_nil, or_false] at hhash
    rcases hhash with rfl | rfl | rfl | rfl
    · rw [h.actionId, h'.actionId]
      exact Encoding.agree_text _ _
    · rw [h.requestDigest, h'.requestDigest]
      exact Encoding.agree_text _ _
    · rw [h.intentDigest, h'.intentDigest]
      exact Encoding.agree_text _ _
    · rw [h.gateDigest, h'.gateDigest, hgates]
      exact Encoding.agree_text _ _
  · exact hcontent key (by
      rw [List.mem_append]
      exact not_or.mpr ⟨hhash, hkey⟩)

end Digests

/-! ## Accepted plans -/

/-- What a plan is made for. -/
inductive Subject
  | slurm (request : Slurm.Action.Request)
  | cloud (execution : Cloud.Action.Execution)

/-- The scope that a subject gives its plans. -/
def Subject.scope : Subject → Scope
  | slurm request => ⟨request.scope.project, .run, request.scope.runId⟩
  | cloud execution => Cloud.Action.scope execution

/-- Whether a plan is accepted for its subject. -/
def Subject.accepts (enc : Encoding) (rfc3339 : String → Option ℤ) (plan : Json) : Subject → Prop
  | slurm request => Slurm.Action.validate enc rfc3339 plan request = .ok ()
  | cloud execution => Cloud.Action.validate enc rfc3339 plan execution = .ok ()

lemma get_of_index {value : Json} {key found : String} (h : value.index key = .string found) :
    value.get key = some (.string found) := by
  rw [Json.index] at h
  cases hget : value.get key with
  | none =>
    rw [hget] at h
    cases h
  | some item =>
    rw [hget] at h
    exact congrArg some h

lemma isSome_of_array {value : Json} {key : String}
    (h : (value.index key).asArray.isNone = false) : (value.get key).isSome = true := by
  rw [Json.index] at h
  cases hget : value.get key with
  | none =>
    rw [hget] at h
    cases h
  | some item => rfl

end Action

namespace Slurm.Action

open ExperimentControl.Action

variable {enc : Encoding} {rfc3339 : String → Option ℤ} {plan : Json} {request : Request}

lemma text_eq_ok {value : Json} {key found : String} :
    text value key = .ok found ↔ value.get key = some (.string found) := by
  unfold text
  cases hget : value.get key with
  | none => simp
  | some item => cases item <;> simp [Json.asStr]

lemma required_eq_ok {α : Type} {value : Option α} {a : α} :
    required value = .ok a ↔ value = some a := by
  cases value <;> simp [required]

/-- The scope of an accepted plan is that of its request. -/
lemma scope_eq_ok {found : Operations.Scope} (h : scope rfc3339 plan request = .ok found) :
    found = (Subject.slurm request).scope ∧ (plan.index "gates").asArray.isNone = false := by
  simp only [scope, bind_eq_ok, reject_eq_ok, Except.ok.injEq, not_or, not_not,
    Bool.not_eq_true] at h
  obtain ⟨_, -, scope, -, _, ⟨-, hproject, hobject⟩, h⟩ := h
  -- The texts of the plan, the digests and the two times say nothing about the scope.
  obtain ⟨_, -, _, -, _, -, _, -, _, -, _, -, _, -, _, -, _, -, _, -, _, -, _, ⟨-, hgates, -⟩, _, -,
    rfl⟩ := h
  refine ⟨?_, hgates⟩
  cases scope with
  | mk project scopeType objectId =>
    cases scopeType
    simp only at hproject hobject
    rw [hproject, hobject]
    rfl

/-- **An accepted scheduler plan is sealed.** -/
theorem sealed_of_validate (h : validate enc rfc3339 plan request = .ok ()) :
    ∃ fields intent gates, Sealed enc (Subject.slurm request).scope plan fields intent gates := by
  simp only [validate, bind_eq_ok, reject_eq_ok, required_eq_ok, text_eq_ok, not_or, not_not] at h
  obtain ⟨scope, hscope, _, -, _, -, fields, hfields, intent, hintent, _, hrequest, _, hdigest, _,
    haction, _, hgate, gates, hgates, rfl, rfl, rfl, rfl⟩ := h
  obtain ⟨rfl, harray⟩ := scope_eq_ok hscope
  exact ⟨fields, _, _,
    { object := Json.asObject_eq_some.mp hfields
      ofBody := hintent
      requestDigest := hrequest
      intentDigest := hdigest
      actionId := haction
      ofGates := hgates
      gateDigest := hgate
      hasGates := isSome_of_array harray }⟩

end Slurm.Action

namespace Cloud.Action

open ExperimentControl.Action

variable {enc : Encoding} {rfc3339 : String → Option ℤ} {plan : Json} {execution : Execution}

lemma required_eq_ok {α : Type} {what : String} {value : Option α} {a : α} :
    required what value = .ok a ↔ value = some a := by
  cases value <;> simp [required]

/-- **An accepted cloud plan is sealed.** -/
theorem sealed_of_validate (h : validate enc rfc3339 plan execution = .ok ()) :
    ∃ fields intent gates, Sealed enc (Subject.cloud execution).scope plan fields intent gates := by
  simp only [validate, bind_eq_ok, reject_eq_ok, required_eq_ok, not_or, not_not,
    Bool.not_eq_true] at h
  obtain ⟨_, -, _, -, _, -, _, -, _, -, _, -, _, ⟨-, -, -, harray⟩, fields, hfields, intent,
    hintent, _, ⟨hrequest, hdigest, haction⟩, gates, hgates, hgate, -⟩ := h
  exact ⟨fields, intent, gates,
    { object := Json.asObject_eq_some.mp hfields
      ofBody := hintent
      requestDigest := get_of_index hrequest
      intentDigest := get_of_index hdigest
      actionId := get_of_index haction
      ofGates := hgates
      gateDigest := get_of_index hgate
      hasGates := isSome_of_array harray }⟩

end Cloud.Action

namespace Action

variable {F : Type} {format : FloatFormat F} {sha256 : Bytes → String}

/-- An accepted plan is sealed, in both formats. -/
lemma Subject.sealed {enc : Encoding} {rfc3339 : String → Option ℤ} {plan : Json}
    (subject : Subject) (h : subject.accepts enc rfc3339 plan) :
    ∃ fields intent gates, Sealed enc subject.scope plan fields intent gates := by
  cases subject with
  | slurm request => exact Slurm.Action.sealed_of_validate h
  | cloud execution => exact Cloud.Action.sealed_of_validate h

section Sampled

open Encoding (sampleFormat)
open Native (sampleHash sampleBinding validDigest_sampleHash)

/-- A hash without collisions: the bytes themselves. -/
def sampleSha256 (bytes : Bytes) : String := String.ofList (lowerHex bytes)

lemma sampleSha256_injective : Function.Injective sampleSha256 := by
  intro left right h
  have hchars := congrArg String.toList h
  rw [sampleSha256, sampleSha256, String.toList_ofList, String.toList_ofList] at hchars
  exact lowerHex_injective hchars

/-- The instants of the sample, in nanoseconds. -/
def sampleInstants (text : String) : Option ℤ :=
  if text = "2026-01-01T00:00:00Z" then some 1767225600000000000
  else if text = "2026-01-01T06:00:00Z" then some 1767247200000000000
  else none

def sampleExecution : Cloud.Action.Execution where
  validated := .ok ()
  binding := sampleBinding
  job :=
    { project := "demo"
      runId := "train"
      attemptId := "attempt-001"
      submissionToken := String.ofList (List.replicate 32 '9')
      sourceId := "source"
      image := "registry/train"
      command := ["worker"]
      gpus := 1
      cpus := 4
      memoryGb := 16
      maxTimeSeconds := 3600 }
  digest := .ok ("sha256:" ++ sampleHash)

def sampleBody : Fields := [("operation", .string "SUBMIT_RUN"),
  ("scope", (Cloud.Action.scope sampleExecution).document), ("run_id", .string "train"),
  ("attempt_id", .string "attempt-001"),
  ("execution_campaign_sha256", .string ("sha256:" ++ sampleHash)),
  ("execution_manifest_sha256", .string ("sha256:" ++ sampleHash)), ("ready", .bool true),
  ("gates", .array []), ("created_at", .string "2026-01-01T00:00:00Z"),
  ("gate_expires_at", .string "2026-01-01T06:00:00Z"),
  ("native_cloud", .object [("format", .string Cloud.Action.FORMAT),
    ("execution_sha256", .string ("sha256:" ++ sampleHash)),
    ("binding", sampleBinding.document)])]

/-- The sampled plan under its digests, with what is recorded of it. -/
def samplePlan (intent gates : String) (journal : List Json) : Json :=
  .object (sampleBody ++ [("request_digest", .string intent), ("intent_digest", .string intent),
    ("action_id", .string (Operations.actionId sampleSha256 (Cloud.Action.scope sampleExecution)
      intent)),
    ("gate_bundle_digest", .string gates), ("journal", .array journal)])

/-- A text that has none of the token's digit. -/
lemma nine_not_mem {text : String}
    (h : text.toList.all (fun c => c.toNat < 128 ∧ 32 ≤ c.toNat ∧ c ≠ '9') = true) :
    (57 : UInt8) ∉ writeString text := by
  have hall : ∀ n < 128, 32 ≤ n → n ≠ 57 →
      (57 : UInt8) ∉ (String.utf8EncodeChar (Char.ofNat n)).flatMap escapeByte := by
    decide +kernel
  unfold writeString
  rw [utf8_eq, List.flatMap_assoc]
  intro hmem
  simp only [List.cons_append, List.mem_cons, List.mem_append, List.mem_flatMap, List.not_mem_nil,
    or_false] at hmem
  rcases hmem with hmem | ⟨c, hc, hmem⟩ | hmem
  · exact absurd hmem (by decide)
  · obtain ⟨hascii, hshown, hnine⟩ := of_decide_eq_true (List.all_eq_true.mp h c hc)
    refine hall c.toNat hascii hshown ?_ ?_
    · intro hnat
      exact hnine (Char.toNat_inj.mp hnat)
    · rw [Char.ofNat_toNat]
      exact List.mem_flatMap.mpr hmem
  · exact absurd hmem (by decide)

lemma nine_not_mem_ofList {chars : List Char}
    (h : chars.all (fun c => c.toNat < 128 ∧ 32 ≤ c.toNat ∧ c ≠ '9') = true) :
    (57 : UInt8) ∉ writeString (String.ofList chars) := by
  apply nine_not_mem
  rw [String.toList_ofList]
  exact h

lemma nine_not_mem_hash : (57 : UInt8) ∉ writeString ("sha256:" ++ sampleHash) := by
  have hname : "sha256:".toList = ['s', 'h', 'a', '2', '5', '6', ':'] := String.toList_ofList
  have hhash : sampleHash.toList = List.replicate 64 'a' := String.toList_ofList
  apply nine_not_mem
  rw [String.toList_append, List.all_append, Bool.and_eq_true]
  exact ⟨hname ▸ by decide, hhash ▸ by decide⟩

/-- The frozen part of the sampled plan does not name the token. -/
lemma sampleBody_omits_token :
    mentions (.object sampleBody) sampleExecution.job.submissionToken = false := by
  have hnine : (57 : UInt8) ∉ (Json.object sampleBody).write := by
    simp [sampleBody, Json.write, Json.writeFields, Encoding.joined, Cloud.Action.scope,
      Operations.Scope.document, Native.Binding.document, Json.writeItems, sampleExecution,
      sampleBinding, nine_not_mem_hash]
    and_intros
    all_goals
      first
      | exact nine_not_mem_ofList (by decide)
      | decide
  have htoken : (57 : UInt8) ∈ utf8 sampleExecution.job.submissionToken := by
    rw [utf8_eq]
    simp [sampleExecution, String.utf8EncodeChar]
  unfold mentions
  rw [decide_eq_false_iff_not]
  intro hcut
  exact hnine (hcut.subset htoken)

variable {intent gates : String} {journal : List Json}

lemma body_samplePlan : (samplePlan intent gates journal).asObject.map body = some sampleBody := by
  simp [samplePlan, sampleBody, body, HASH_FIELDS, recordFields, Json.asObject]

lemma samplePlan_valid (h : (Json.array journal).valid = true) :
    (samplePlan intent gates journal).valid = true := by
  rw [Json.valid, Json.readable] at h
  refine Json.readable_object.mpr ⟨?_, ?_⟩
  · simp [sampleBody]
  · simp [sampleBody, Json.readableFields, Json.readable, Operations.Scope.document,
      Cloud.Action.scope, Native.Binding.document, Json.readableItems, h]

/-- The sampled plan is accepted under the digests of its content. -/
lemma samplePlan_accepted
    (hbody : digest (sampleFormat.encoding sampleSha256) (.object sampleBody) = some intent)
    (hgates : digest (sampleFormat.encoding sampleSha256)
      (.object [("intent_digest", .string intent), ("gates", .array [])]) = some gates) :
    (Subject.cloud sampleExecution).accepts (sampleFormat.encoding sampleSha256) sampleInstants
      (samplePlan intent gates journal) := by
  obtain ⟨fields, hfields, hbodyFields⟩ := Option.map_eq_some_iff.mp
    (@body_samplePlan intent gates journal)
  have hindex (key : String) : (samplePlan intent gates journal).index key =
      (Fields.get (sampleBody ++ [("request_digest", .string intent),
        ("intent_digest", .string intent), ("action_id", .string (Operations.actionId sampleSha256
          (Cloud.Action.scope sampleExecution) intent)), ("gate_bundle_digest", .string gates),
        ("journal", .array journal)]) key).getD .null := rfl
  have hgate : gateDocument intent (samplePlan intent gates journal) =
      .object [("intent_digest", .string intent), ("gates", .array [])] := by
    rw [gateDocument, hindex]
    simp [sampleBody, Fields.get_cons]
  change Cloud.Action.validate _ _ _ _ = _
  refine bind_eq_ok.mpr ⟨(), rfl, bind_eq_ok.mpr ⟨(), ?_, bind_eq_ok.mpr
    ⟨"sha256:" ++ sampleHash, rfl, bind_eq_ok.mpr ⟨(), ?_, bind_eq_ok.mpr
      ⟨1767225600000000000, ?_, bind_eq_ok.mpr ⟨1767247200000000000, ?_, bind_eq_ok.mpr
        ⟨(), ?_, bind_eq_ok.mpr ⟨fields, Cloud.Action.required_eq_ok.mpr hfields, bind_eq_ok.mpr
          ⟨intent, ?_, bind_eq_ok.mpr ⟨(), ?_, bind_eq_ok.mpr ⟨gates, ?_, ?_⟩⟩⟩⟩⟩⟩⟩⟩⟩⟩⟩
  · rw [reject_eq_ok]
    simp [hindex, sampleBody, Fields.get_cons, sampleExecution, sampleBinding,
      Cloud.Action.scope]
  · rw [reject_eq_ok]
    simp [hindex, sampleBody, Fields.get_cons, sampleExecution]
  · rw [hindex]
    simp [sampleBody, Fields.get_cons, Json.asStr, sampleInstants, Cloud.Action.required]
  · rw [hindex]
    simp [sampleBody, Fields.get_cons, Json.asStr, sampleInstants, Cloud.Action.required]
  · rw [reject_eq_ok]
    simp [hindex, sampleBody, Fields.get_cons, Cloud.Action.MAX_WINDOW, Json.asArray]
  · rw [hbodyFields]
    exact Cloud.Action.required_eq_ok.mpr hbody
  · rw [reject_eq_ok]
    simp [hindex, sampleBody, Fields.get_cons, FloatFormat.encoding]
  · rw [hgate]
    exact Cloud.Action.required_eq_ok.mpr hgates
  · rw [reject_eq_ok, hbodyFields, sampleBody_omits_token]
    simp [hindex, sampleBody, Fields.get_cons]

end Sampled

end Action

end ExperimentControl
