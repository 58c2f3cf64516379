import ExperimentControl.Cloud.Retry

/-!
# Planned cloud retries

What the document of a planned cloud retry is, and which documents pass for it.

* `attemptDocument` — the document of a retry, with **`plan_eq_ok`**: what planning does.
* **`replan`** — planning again with the checkpoint in the document gives the document.
* **`plan_congr`** — nothing but the checkpoint asked for makes a difference.
* `RoundTrips`, **`roundTrips_iff`** — a planned Attempt is accepted, it alone and along every
  chain, exactly when its cost estimate is finite.
-/

namespace ExperimentControl

namespace Cloud

open Native (Binding)
open Checkpoints (Reference)

variable {F : Type} {format : FloatFormat F} {enc : Encoding} {rfc3339 : String → Option ℤ}
  {run checkpoint attempt : Json} {receipt : Receipt F} {binding : Binding}

/-! ## Receipts in documents -/

namespace Receipt

/-- What is kept of a receipt in a document. -/
def stored (receipt : Receipt F) : Receipt F :=
  { receipt with termination := receipt.termination.stored }

lemma document_stored (receipt : Receipt F) :
    receipt.stored.document format = receipt.document format := by
  simp only [document, stored, JobObservation.document_stored]

/-- What is read back of a receipt: everything that is stored, once its request is. -/
lemma read_document_eq (receipt : Receipt F) : read format (receipt.document format) =
    (Native.Request.read format (receipt.request.document format)).map fun request =>
      { receipt.stored with request := request } := by
  have hseconds : (numberDocument receipt.reservedGpuSeconds).asU64 =
      some receipt.reservedGpuSeconds.toNat := Json.asU64_ofNat receipt.reservedGpuSeconds.toNat_lt
  rw [read]
  refine Fields.read_step rfl (Fields.read_step rfl (Fields.read_step rfl ?_))
  refine Fields.read_step (Fields.bind_get rfl receipt.parentBinding.read_document) ?_
  refine Fields.read_step rfl ?_
  refine Fields.read_step (Fields.bind_get rfl receipt.termination.read_document) ?_
  cases hrequest : Native.Request.read format (receipt.request.document format) with
  | none =>
    have hnone : (Option.bind (some (receipt.request.document format))
        (Native.Request.read format)) = none := hrequest
    exact congrArg (Option.bind · _) hnone
  | some request =>
    have hread : (numberDocument receipt.reservedGpuSeconds).asU64.map UInt64.ofNat =
        some receipt.reservedGpuSeconds := by
      rw [hseconds, Option.map_some, UInt64.ofNat_toNat]
    refine Fields.read_step (Fields.bind_get rfl hrequest) (Fields.read_step rfl ?_)
    exact Fields.read_step hread (Fields.read_step rfl rfl)

/-- **A receipt is read back** exactly when its cost estimate is finite. -/
theorem read_document (h : format.isFinite receipt.request.maxGpuHours = true) :
    read format (receipt.document format) = some receipt.stored := by
  rw [read_document_eq, Native.Request.read_document h]
  rfl

lemma read_document_none (h : format.isFinite receipt.request.maxGpuHours = false) :
    read format (receipt.document format) = none := by
  rw [read_document_eq, Native.Request.read_document_none h]
  rfl

/-- Two receipts with one document have the same in it. -/
lemma stored_of_document {other : Receipt F}
    (hfinite : format.isFinite receipt.request.maxGpuHours = true)
    (h : other.document format = receipt.document format) : other.stored = receipt.stored := by
  have hread := read_document hfinite
  rw [← h] at hread
  cases hother : format.isFinite other.request.maxGpuHours with
  | true =>
    rw [read_document hother] at hread
    exact Option.some.inj hread
  | false =>
    rw [read_document_none hother] at hread
    cases hread

/-- A checked receipt is of a Run with its project. -/
lemma isObject_of_validate {follower : String}
    (h : receipt.validate format enc rfc3339 run follower = .ok ()) :
    ∃ fields, run = .object fields := by
  rw [validate] at h
  obtain ⟨⟨⟩, -, h⟩ := bind_eq_ok.mp h
  obtain ⟨count, -, h⟩ := bind_eq_ok.mp h
  cases hbudget : perAttempt run with
  | none =>
    rw [hbudget] at h
    cases h
  | some budget =>
    cases run with
    | object fields => exact ⟨fields, rfl⟩
    | _ => cases hbudget

end Receipt

/-! ## What planning does -/

/-- The resume point and the checkpoint set in the document of an Attempt. -/
def restored (run : Json) (receipt : Receipt F) (checkpoint named : Json) : Json :=
  match receipt.request.resumeFrom with
  | some reference => (named.set "resume_from" reference.document).set "native_checkpoint" checkpoint
  | none =>
      if (run.index "native_checkpoint").isNull then
        (named.set "resume_from" .null).set "native_checkpoint" .null
      else named

/-- The Attempt of a retry: the Run's document with the fields of the retry set. -/
def attemptDocument (format : FloatFormat F) (run : Json) (receipt : Receipt F) (checkpoint : Json)
    (follower : String) : Json :=
  (restored run receipt checkpoint ((run.set "attempt_id" (.string follower)).set
    "attempt_created_at" (.string receipt.createdAt))).set "native_cloud_retry"
      (receipt.document format)

/-- A restart with nothing to restore is of a Run that continues from nothing. -/
def Restartable (run : Json) (receipt : Receipt F) : Prop :=
  receipt.request.resumeFrom = none → (run.index "native_checkpoint").isNull = true →
    (run.index "resume_from").isNull = true

lemma restore_eq_ok {named result : Json} : restore run receipt checkpoint named = .ok result ↔
    Restartable run receipt ∧ restored run receipt checkpoint named = result := by
  unfold restore restored Restartable
  cases hresume : receipt.request.resumeFrom with
  | some reference => simp [Json.ofOption]
  | none =>
    by_cases hnull : (run.index "native_checkpoint").isNull = true
    · simp [hnull, bind_eq_ok]
    · simp [hnull]

/-- **What planning does**: the checks, and the document. -/
theorem plan_eq_ok : plan format enc rfc3339 run receipt checkpoint = .ok attempt ↔
    ∃ follower, Native.next receipt.parentBinding.attemptId = .ok follower ∧
      receipt.validate format enc rfc3339 run follower = .ok () ∧
      checkCheckpoint enc run receipt checkpoint = .ok () ∧ Restartable run receipt ∧
      attemptDocument format run receipt checkpoint follower = attempt := by
  constructor
  · intro h
    obtain ⟨follower, hnext, h⟩ := bind_eq_ok.mp h
    obtain ⟨⟨⟩, hvalid, h⟩ := bind_eq_ok.mp h
    obtain ⟨⟨⟩, hcheckpoint, h⟩ := bind_eq_ok.mp h
    obtain ⟨result, hrestore, h⟩ := bind_eq_ok.mp h
    obtain ⟨hrestartable, rfl⟩ := restore_eq_ok.mp hrestore
    exact ⟨follower, mapError_ok.mp hnext, hvalid, hcheckpoint, hrestartable, Except.ok.inj h⟩
  · rintro ⟨follower, hnext, hvalid, hcheckpoint, hrestartable, rfl⟩
    refine bind_eq_ok.mpr ⟨follower, mapError_ok.mpr hnext, ?_⟩
    refine bind_eq_ok.mpr ⟨(), hvalid, bind_eq_ok.mpr ⟨(), hcheckpoint, ?_⟩⟩
    exact bind_eq_ok.mpr ⟨_, restore_eq_ok.mpr ⟨hrestartable, rfl⟩, rfl⟩

/-! ## The document of a planned retry -/

section Documents

variable {fields : Fields} {follower : String}

/-- The fields a retry sets. -/
def retryKeys : List String :=
  ["attempt_id", "attempt_created_at", "resume_from", "native_checkpoint", "native_cloud_retry"]

/-- **Nothing but the fields of the retry differs from the Run.** -/
theorem get_attemptDocument {key : String} (hkey : key ∉ retryKeys) :
    (attemptDocument format (.object fields) receipt checkpoint follower).get key =
      Fields.get fields key := by
  simp only [retryKeys, List.mem_cons, List.not_mem_nil, or_false, not_or] at hkey
  obtain ⟨hid, hcreated, hresume, hcheckpoint, hretry⟩ := hkey
  unfold attemptDocument restored
  cases receipt.request.resumeFrom with
  | some reference =>
    simp [Fields.get_insert, hid, hcreated, hresume, hcheckpoint, hretry]
  | none =>
    simp only [Json.set_object]
    split_ifs <;> simp [Fields.get_insert, hid, hcreated, hresume, hcheckpoint, hretry]

/-- The receipt, the identity and the checkpoint in the document. -/
lemma index_attemptDocument :
    (attemptDocument format (.object fields) receipt checkpoint follower).index
        "native_cloud_retry" = receipt.document format ∧
      (attemptDocument format (.object fields) receipt checkpoint follower).index "attempt_id" =
        .string follower ∧
      (attemptDocument format (.object fields) receipt checkpoint follower).index
          "native_checkpoint" =
        if receipt.request.resumeFrom.isSome then checkpoint
        else (Json.object fields).index "native_checkpoint" := by
  unfold attemptDocument restored
  cases receipt.request.resumeFrom with
  | some reference => simp [Fields.get_insert]
  | none =>
    by_cases hnull : ((Json.object fields).index "native_checkpoint").isNull = true
    · have hkept := Json.eq_null_of_isNull hnull
      rw [Json.index_object] at hkept
      simp [Fields.get_insert, hkept, Json.isNull]
    · simp only [hnull]
      simp [Fields.get_insert]

end Documents

/-! ## Planning again -/

/-- A planned Attempt is the Run's object with the fields of the retry set. -/
lemma document_of_plan (h : plan format enc rfc3339 run receipt checkpoint = .ok attempt) :
    ∃ fields follower, run = .object fields ∧
      Native.next receipt.parentBinding.attemptId = .ok follower ∧
      attempt = attemptDocument format (.object fields) receipt checkpoint follower := by
  obtain ⟨follower, hnext, hvalid, -, -, rfl⟩ := plan_eq_ok.mp h
  obtain ⟨fields, rfl⟩ := Receipt.isObject_of_validate hvalid
  exact ⟨fields, follower, rfl, hnext, rfl⟩

/-- What a receipt does not keep in a document does not matter to the plan. -/
lemma plan_stored : plan format enc rfc3339 run receipt.stored checkpoint =
    plan format enc rfc3339 run receipt checkpoint := by
  unfold plan
  rw [Receipt.document_stored]
  rfl

/-- **Planning again** with the checkpoint in the document gives the document. -/
theorem replan (h : plan format enc rfc3339 run receipt checkpoint = .ok attempt) :
    plan format enc rfc3339 run receipt (attempt.index "native_checkpoint") = .ok attempt := by
  obtain ⟨follower, hnext, hvalid, hcheckpoint, hrestartable, rfl⟩ := plan_eq_ok.mp h
  obtain ⟨fields, rfl⟩ := Receipt.isObject_of_validate hvalid
  rw [index_attemptDocument.2.2]
  cases hresume : receipt.request.resumeFrom with
  | some reference =>
    rw [Option.isSome_some, if_pos rfl]
    exact h
  | none =>
    rw [Option.isSome_none, if_neg Bool.false_ne_true]
    refine plan_eq_ok.mpr ⟨follower, hnext, hvalid, ?_, hrestartable, ?_⟩
    · simp [checkCheckpoint, hresume]
    · simp only [attemptDocument, restored, hresume]

/-- **Nothing but the checkpoint asked for** makes a difference between two plans. -/
theorem plan_congr {other planned : Json}
    (h : plan format enc rfc3339 run receipt checkpoint = .ok attempt)
    (hother : plan format enc rfc3339 run receipt other = .ok planned)
    (hsame : receipt.request.resumeFrom.isSome = true → Json.equal other checkpoint = true) :
    Json.equal planned attempt = true := by
  obtain ⟨fields, follower, rfl, hnext, rfl⟩ := document_of_plan h
  obtain ⟨_, follower', hrun, hnext', rfl⟩ := document_of_plan hother
  obtain rfl := Json.object.inj hrun
  obtain rfl : follower' = follower := Except.ok.inj (hnext'.symm.trans hnext)
  unfold attemptDocument restored
  cases hresume : receipt.request.resumeFrom with
  | some reference =>
    rw [hresume] at hsame
    have hordered := Json.equal_iff.mp (hsame rfl)
    rw [Json.equal_iff]
    simp only [Json.set_object, Json.ordered, Json.orderedFields_insert, hordered]
  | none => exact Json.equal_refl _

/-! ## Round trips -/

/-- A binding of the Attempt behind the parent of a receipt, with the same project, Run, source
receipt and backend. -/
structure Continues (receipt : Receipt F) (binding : Binding) : Prop where
  attempt : Native.next receipt.parentBinding.attemptId = .ok binding.attemptId
  project : receipt.parentBinding.project = binding.project
  runId : receipt.parentBinding.runId = binding.runId
  projectSha256 : receipt.parentBinding.projectSha256 = binding.projectSha256
  runSha256 : receipt.parentBinding.runSha256 = binding.runSha256
  sourceReceiptSha256 :
    receipt.parentBinding.sourceReceiptSha256 = binding.sourceReceiptSha256
  backendConfigSha256 :
    receipt.parentBinding.backendConfigSha256 = binding.backendConfigSha256

/-- Attempts behind one another, each planned from the one before. -/
inductive Retried (format : FloatFormat F) (enc : Encoding) (rfc3339 : String → Option ℤ)
    (run : Json) : String → ℕ → String → Prop
  | start (first : String) : Retried format enc rfc3339 run first 0 first
  | retry {first : String} {count : ℕ} {receipt : Receipt F} {checkpoint attempt : Json}
      {follower : String}
      (before : Retried format enc rfc3339 run first count receipt.parentBinding.attemptId)
      (planned : plan format enc rfc3339 run receipt checkpoint = .ok attempt)
      (named : attempt.index "attempt_id" = .string follower) :
      Retried format enc rfc3339 run first (count + 1) follower

/-- What is expected of a planned Attempt. -/
structure RoundTrips (format : FloatFormat F) (enc : Encoding) (rfc3339 : String → Option ℤ)
    (run : Json) (receipt : Receipt F) (checkpoint attempt : Json) : Prop where
  /-- It passes its check. -/
  accepted : ∀ binding, Continues receipt binding →
    validateAttempt format enc rfc3339 run attempt binding = .ok ()
  /-- No other document with the receipt and the checkpoint passes. -/
  only : ∀ binding other carried, Continues receipt binding →
    validateAttempt format enc rfc3339 run other binding = .ok () →
    Receipt.read format (other.index "native_cloud_retry") = some carried →
    carried.document format = receipt.document format →
    (receipt.request.resumeFrom.isSome = true →
      Json.equal (other.index "native_checkpoint") checkpoint = true) →
    Json.equal other attempt = true
  /-- It is the Run's document but for the fields of the retry. -/
  differs : ∀ key ∉ retryKeys, attempt.get key = run.get key
  /-- Its number counts the retries. -/
  counts : ∀ first count follower,
    Retried format enc rfc3339 run first count receipt.parentBinding.attemptId →
    attempt.index "attempt_id" = .string follower →
    ∃ n, Native.number first = .ok n ∧ Native.number follower = .ok (n + count + 1)

/-- A planned Attempt has the number behind that of its parent. -/
lemma number_of_plan {follower : String}
    (h : plan format enc rfc3339 run receipt checkpoint = .ok attempt)
    (hnamed : attempt.index "attempt_id" = .string follower) :
    ∃ n, Native.number receipt.parentBinding.attemptId = .ok n ∧
      Native.number follower = .ok (n + 1) := by
  obtain ⟨fields, follower', rfl, hnext, rfl⟩ := document_of_plan h
  rw [index_attemptDocument.2.1, Json.string.injEq] at hnamed
  rw [← hnamed]
  exact Native.number_of_next hnext

/-- **Every retry counts one.** -/
theorem Retried.number {first last : String} {count : ℕ}
    (h : Retried format enc rfc3339 run first count last) :
    count = 0 ∧ first = last ∨
      ∃ n, Native.number first = .ok n ∧ Native.number last = .ok (n + count) := by
  induction h with
  | start => exact .inl ⟨rfl, rfl⟩
  | retry before planned named ih =>
    right
    obtain ⟨n, hparent, hfollower⟩ := number_of_plan planned named
    obtain ⟨rfl, rfl⟩ | ⟨first, hfirst, hlast⟩ := ih
    · exact ⟨n, hparent, hfollower⟩
    · obtain rfl : n = first + _ := Except.ok.inj (hparent.symm.trans hlast)
      exact ⟨first, hfirst, hfollower⟩

/-- A planned Attempt is checked by what it carries. -/
lemma validateAttempt_iff {carried : Receipt F} {other : Json} (hcontinues : Continues receipt binding)
    (hread : Receipt.read format (other.index "native_cloud_retry") = some carried)
    (hparent : carried.parentBinding = receipt.parentBinding) :
    validateAttempt format enc rfc3339 run other binding = .ok () ↔
      ∃ planned, plan format enc rfc3339 run carried (other.index "native_checkpoint") =
        .ok planned ∧ Json.equal planned other = true := by
  rw [validateAttempt, hread]
  simp only [hparent]
  constructor
  · intro h
    obtain ⟨⟨⟩, -, h⟩ := bind_eq_ok.mp h
    obtain ⟨⟨⟩, -, h⟩ := bind_eq_ok.mp h
    obtain ⟨planned, hplan, h⟩ := bind_eq_ok.mp h
    rw [reject_eq_ok, not_not] at h
    exact ⟨planned, hplan, h⟩
  · rintro ⟨planned, hplan, hequal⟩
    obtain ⟨follower, hnext, hvalid, -, -, -⟩ := plan_eq_ok.mp hplan
    rw [hparent] at hnext
    obtain rfl : follower = binding.attemptId :=
      Except.ok.inj (hnext.symm.trans hcontinues.attempt)
    refine bind_eq_ok.mpr ⟨(), hvalid, bind_eq_ok.mpr ⟨(), ?_, ?_⟩⟩
    · rw [reject_eq_ok]
      simp [hcontinues.project, hcontinues.runId, hcontinues.projectSha256, hcontinues.runSha256,
        hcontinues.sourceReceiptSha256, hcontinues.backendConfigSha256]
    · refine bind_eq_ok.mpr ⟨planned, hplan, ?_⟩
      rw [reject_eq_ok, not_not]
      exact hequal

/-- **Planned Attempts round-trip** exactly when their cost estimate is finite. -/
theorem roundTrips_iff (h : plan format enc rfc3339 run receipt checkpoint = .ok attempt) :
    RoundTrips format enc rfc3339 run receipt checkpoint attempt ↔
      format.isFinite receipt.request.maxGpuHours = true := by
  obtain ⟨fields, follower, rfl, hnext, rfl⟩ := document_of_plan h
  obtain ⟨hreceipt, hnamed, -⟩ := @index_attemptDocument _ format checkpoint receipt fields follower
  constructor
  · -- The parent's own binding, moved on by one Attempt, is one that continues it.
    intro hround
    have hcontinues :
        Continues receipt { receipt.parentBinding with attemptId := follower } :=
      ⟨hnext, rfl, rfl, rfl, rfl, rfl, rfl⟩
    have haccepted := hround.accepted _ hcontinues
    by_contra hinfinite
    rw [Bool.not_eq_true] at hinfinite
    rw [validateAttempt, hreceipt, Receipt.read_document_none hinfinite] at haccepted
    cases haccepted
  · intro hfinite
    have hread := Receipt.read_document hfinite
    refine ⟨fun binding hcontinues => ?_, ?_, fun key hkey => get_attemptDocument hkey, ?_⟩
    · rw [← hreceipt] at hread
      refine (validateAttempt_iff hcontinues hread rfl).mpr ?_
      rw [plan_stored]
      exact ⟨_, replan h, Json.equal_refl _⟩
    · intro binding other carried hcontinues hother hcarried hdocument hcheckpoint
      have hstored := Receipt.stored_of_document hfinite hdocument
      have hparent : carried.stored.parentBinding = receipt.stored.parentBinding := by
        rw [hstored]
      obtain ⟨planned, hplan, hequal⟩ :=
        (validateAttempt_iff hcontinues hcarried hparent).mp hother
      rw [← plan_stored, hstored, plan_stored] at hplan
      exact Json.equal_trans (Json.equal_symm hequal) (plan_congr h hplan hcheckpoint)
    · intro first count follower' hretried hlast
      have hfollowed := Retried.number (.retry hretried h hlast)
      obtain ⟨hzero, -⟩ | ⟨n, hfirst, hnumber⟩ := hfollowed
      · exact absurd hzero (Nat.succ_ne_zero count)
      · exact ⟨n, hfirst, hnumber⟩

/-! ## A sampled retry -/

section Sampled

open Encoding (SampleFloat sampleFormat)
open Native (sampleHash sampleEncoding sampleInstant sampleBinding sampleRequest number_second
  next_first validDigest_sampleHash sampleRequest_validate sampleRequest_identity)

def sampleRun : Json := .object [("project", .string "demo"), ("run_id", .string "train"),
  ("resources", .object [("gpus", .ofNat 1)]),
  ("native_cloud", .object [("walltime_seconds", .ofNat 3600)])]

/-- A restart with a cost estimate. -/
def sampleReceipt (hours : SampleFloat) : Receipt SampleFloat where
  contract := RETRY_CONTRACT
  parentAction := "action-0123456789abcdef"
  parentBinding := sampleBinding
  parentJobSha256 := "sha256:" ++ sampleHash
  termination := ⟨"dlc-original", "Failed", .failed, none⟩
  request := sampleRequest hours
  requestSha256 := "sha256:" ++ sampleHash
  reservedGpuSeconds := 3600
  createdAt := "2026-10-31T00:00:03Z"

def sampleAttempt (hours : SampleFloat) : Json :=
  attemptDocument sampleFormat sampleRun (sampleReceipt hours) .null "attempt-002"

lemma sampleReceipt_validate (hours : SampleFloat) :
    (sampleReceipt hours).validate sampleFormat sampleEncoding sampleInstant sampleRun
      "attempt-002" = .ok () := by
  have hbudget : Receipt.perAttempt sampleRun = some 3600 := by decide
  refine bind_eq_ok.mpr ⟨(), mapError_ok.mpr (sampleRequest_validate hours), ?_⟩
  refine bind_eq_ok.mpr ⟨2, mapError_ok.mpr number_second, ?_⟩
  rw [hbudget]
  refine bind_eq_ok.mpr ⟨(), by rw [reject_eq_ok, not_not]; rfl, ?_⟩
  refine bind_eq_ok.mpr ⟨"attempt-002", mapError_ok.mpr next_first, ?_⟩
  refine bind_eq_ok.mpr ⟨(), ?_, bind_eq_ok.mpr ⟨("train", "attempt-001"), rfl, ?_⟩⟩
  · rw [reject_eq_ok]
    simp [sampleRun, sampleReceipt, sampleBinding, Fields.get_cons, validDigest_sampleHash]
  · refine bind_eq_ok.mpr ⟨(), ?_, ?_⟩
    · rw [reject_eq_ok]
      simp [sampleReceipt, sampleBinding, RunState.isTerminal]
    · refine bind_eq_ok.mpr
        ⟨"sha256:" ++ sampleHash, mapError_ok.mpr (sampleRequest_identity hours), ?_⟩
      rw [reject_eq_ok]
      simp [sampleReceipt, sampleBinding, sampleInstant, Native.Binding.hashes,
        validDigest_sampleHash]

lemma sample_planned (hours : SampleFloat) :
    plan sampleFormat sampleEncoding sampleInstant sampleRun (sampleReceipt hours) .null =
      .ok (sampleAttempt hours) := by
  refine plan_eq_ok.mpr
    ⟨"attempt-002", next_first, sampleReceipt_validate hours, ?_, fun _ _ => rfl, rfl⟩
  simp [checkCheckpoint, sampleReceipt, sampleRequest, Json.isNull]

theorem roundTrips_iff_sampled : RoundTrips sampleFormat sampleEncoding sampleInstant sampleRun
    (sampleReceipt .threeHalves) .null (sampleAttempt .threeHalves) :=
  (roundTrips_iff (sample_planned .threeHalves)).mpr rfl

/-- A planned retry whose cost estimate is not finite: its own check refuses it. -/
theorem infinite_retry_refused :
    ∃ (run checkpoint attempt : Json) (receipt : Receipt SampleFloat) (binding : Binding),
      plan sampleFormat sampleEncoding sampleInstant run receipt checkpoint = .ok attempt ∧
      Continues receipt binding ∧
      validateAttempt sampleFormat sampleEncoding sampleInstant run attempt binding =
        .error ⟨"retry receipt"⟩ := by
  refine ⟨sampleRun, .null, sampleAttempt .infinity, sampleReceipt .infinity,
    { sampleBinding with attemptId := "attempt-002" }, sample_planned .infinity,
    ⟨next_first, rfl, rfl, rfl, rfl, rfl, rfl⟩, ?_⟩
  rw [validateAttempt, sampleAttempt, sampleRun, index_attemptDocument.1,
    Receipt.read_document_none rfl]

end Sampled

end Cloud

end ExperimentControl
