import ExperimentControl.Native.Retry

/-!
# Planned scheduler retries

Which planned Attempts pass the checks that come after planning.

* `Planned`, **`plan_eq_ok`** — what planning does.
* `Registered`, **`selected_isOk`** — the checkpoints that may be chosen.
* **`validateAttempt_planned`** — a planned Attempt passes its own check exactly when its cost
  estimate is finite.
* **`admissible_iff`** — and the checkpoint evidence exactly when it resumes from a registered
  checkpoint.
-/

namespace ExperimentControl

namespace Checkpoints

variable {enc : Encoding} {rfc3339 : String → Option ℤ} {value : Json} {id : String}
  {context : Context} {manifest : Manifest}

lemma asStr_index {fields : Fields} {key text : String} (h : fields.text key = some text) :
    ((Json.object fields).index key).asStr = some text := by
  obtain ⟨field, hget, htext⟩ := Option.bind_eq_some_iff.mp h
  rw [Json.index_object, hget, Option.getD_some, htext]

/-- A document with the identity asked for carries it. -/
lemma validateDocument_some
    (h : validateDocument enc value none (some id) = .ok (context, manifest)) :
    validateDocument enc value none none = .ok (context, manifest) ∧
      (value.index "checkpoint_id").asStr = some id := by
  obtain ⟨fields, hobject, h⟩ := bind_eq_ok.mp h
  obtain ⟨⟨⟩, hversion, h⟩ := bind_eq_ok.mp h
  obtain ⟨values, hvalues, h⟩ := bind_eq_ok.mp h
  obtain ⟨actual, hactual, h⟩ := bind_eq_ok.mp h
  obtain ⟨⟨⟩, -, h⟩ := bind_eq_ok.mp h
  obtain ⟨⟨⟩, hid, h⟩ := bind_eq_ok.mp h
  refine ⟨?_, ?_⟩
  · refine bind_eq_ok.mpr ⟨fields, hobject, bind_eq_ok.mpr ⟨(), hversion, ?_⟩⟩
    refine bind_eq_ok.mpr ⟨values, hvalues, bind_eq_ok.mpr ⟨actual, hactual, ?_⟩⟩
    exact bind_eq_ok.mpr ⟨(), rfl, bind_eq_ok.mpr ⟨(), rfl, h⟩⟩
  · -- The identity is not the empty text, which stands for a document without one.
    rw [reject_eq_ok, Option.any_some, decide_eq_true_eq, ne_eq, not_not] at hid
    rw [reject_eq_ok, not_or, not_not, not_not] at hversion
    obtain rfl := object_eq_ok.mp hobject
    cases htext : fields.text "checkpoint_id" with
    | none =>
      rw [htext, Option.getD_none] at hversion
      exact absurd hversion.2 (by decide)
    | some text =>
      rw [htext, Option.getD_some] at hid
      rw [hid]
      exact asStr_index htext

/-- A document that was registered: where its state lies, and that it was verified. -/
structure Registered (rfc3339 : String → Option ℤ) (value : Json) (context : Context)
    (storageScope stateRoot : String) : Prop where
  storageScope : context.storageScope = storageScope
  stateRoot : context.stateRoot = stateRoot
  status : value.index "status" = .string "REGISTERED"
  verification : value.index "verification" = .string "worker-sha256"
  registeredAt : ∃ text, value.index "registered_at" = .string text ∧ (rfc3339 text).isSome = true

/-- **The checkpoints that may be chosen**: the documents of the reference that were registered. -/
theorem selectedAt_isOk {reference : Reference} {project storageScope stateRoot : String} :
    (∃ plan, selectedAt enc rfc3339 reference value project storageScope stateRoot = .ok plan) ↔
      reference.validate = .ok () ∧ ∃ context manifest,
        validateDocument enc value none (some reference.checkpointId) = .ok (context, manifest) ∧
        context.project = project ∧ context.runId = reference.runId ∧
        context.attemptId = reference.attemptId ∧
        Registered rfc3339 value context storageScope stateRoot := by
  have hregistered : ((value.index "registered_at").asStr.all fun text =>
      (rfc3339 text).isNone) = false ↔
      ∃ text, value.index "registered_at" = .string text ∧ (rfc3339 text).isSome = true := by
    cases value.index "registered_at" <;> simp [Json.asStr, Option.isSome_iff_ne_none]
  constructor
  · rintro ⟨plan, h⟩
    obtain ⟨⟨⟩, hreference, h⟩ := bind_eq_ok.mp h
    obtain ⟨⟨context, manifest⟩, hdocument, h⟩ := bind_eq_ok.mp h
    obtain ⟨⟨⟩, hbad, h⟩ := bind_eq_ok.mp h
    obtain ⟨⟨context', manifest'⟩, hagain, h⟩ := bind_eq_ok.mp h
    obtain ⟨⟨⟩, hscope, -⟩ := bind_eq_ok.mp h
    obtain ⟨rfl, rfl⟩ : context' = context ∧ manifest' = manifest := by
      have hsame := hagain.symm.trans (validateDocument_some hdocument).1
      simpa using hsame
    rw [reject_eq_ok] at hbad hscope
    simp only [not_or, not_not, ne_eq, Bool.not_eq_true, hregistered] at hbad
    obtain ⟨hproject, hrun, hattempt, hroot, hstatus, hverification, hat⟩ := hbad
    have hstorage : storageScope = context'.storageScope := by simpa using hscope
    exact ⟨hreference, context', manifest', hdocument, hproject, hrun, hattempt,
      hstorage.symm, hroot, hstatus, hverification, hat⟩
  · rintro ⟨hreference, context, manifest, hdocument, hproject, hrun, hattempt, hvalid⟩
    obtain ⟨hagain, hid⟩ := validateDocument_some hdocument
    refine ⟨⟨reference.checkpointId, manifest.step, manifest.generation, context.stateRoot,
      manifest.files⟩, ?_⟩
    refine bind_eq_ok.mpr ⟨(), hreference, bind_eq_ok.mpr ⟨(context, manifest), hdocument, ?_⟩⟩
    refine bind_eq_ok.mpr ⟨(), ?_, bind_eq_ok.mpr ⟨(context, manifest), hagain, ?_⟩⟩
    · rw [reject_eq_ok]
      simp only [not_or, not_not, ne_eq, Bool.not_eq_true, hregistered]
      exact ⟨hproject, hrun, hattempt, hvalid.stateRoot, hvalid.status, hvalid.verification,
        hvalid.registeredAt⟩
    · refine bind_eq_ok.mpr ⟨(), ?_, ?_⟩
      · rw [reject_eq_ok]
        simp [hvalid.storageScope]
      · rw [hid]

end Checkpoints

namespace Native

open Checkpoints (Reference)

variable {F : Type} {format : FloatFormat F} {enc : Encoding} {rfc3339 : String → Option ℤ}
  {run attempt : Json} {request : Request F} {authority : Authority} {now : String}
  {receipt : Receipt F}

/-! ## Receipts -/

namespace Receipt

/-- What is read back of a receipt: everything, once its request is. -/
lemma read_document_eq (h : receipt.reservedGpuSeconds < 2 ^ 64) :
    read format (receipt.document format) =
      (Request.read format (receipt.request.document format)).map fun request =>
        { receipt with request := request } := by
  rw [read]
  refine Fields.read_step rfl (Fields.read_step rfl (Fields.read_step rfl ?_))
  refine Fields.read_step (Fields.bind_get rfl receipt.parentBinding.read_document) ?_
  refine Fields.read_step rfl (Fields.read_step rfl ?_)
  refine Fields.read_step (Fields.bind_get rfl receipt.termination.read_document) ?_
  cases hrequest : Request.read format (receipt.request.document format) with
  | none =>
    have hnone : (Option.bind (some (receipt.request.document format))
        (Request.read format)) = none := hrequest
    exact congrArg (Option.bind · _) hnone
  | some request =>
    refine Fields.read_step (Fields.bind_get rfl hrequest) (Fields.read_step rfl ?_)
    exact Fields.read_step (Fields.bind_get rfl (Json.asU64_ofNat h)) (Fields.read_step rfl rfl)

/-- **A receipt is read back** exactly when its cost estimate is finite. -/
theorem read_document (h : receipt.reservedGpuSeconds < 2 ^ 64)
    (hfinite : format.isFinite receipt.request.maxGpuHours = true) :
    read format (receipt.document format) = some receipt := by
  rw [read_document_eq h, Request.read_document hfinite]
  rfl

lemma read_document_none (h : receipt.reservedGpuSeconds < 2 ^ 64)
    (hinfinite : format.isFinite receipt.request.maxGpuHours = false) :
    read format (receipt.document format) = none := by
  rw [read_document_eq h, Request.read_document_none hinfinite]
  rfl

/-- The fields of a Run that its receipts are checked against. -/
def checkedKeys : List String := ["project", "run_id", "backend", "resources"]

/-- A receipt is checked against nothing but these fields of the Run. -/
lemma validate_congr {other : Json} {attemptId : String}
    (h : ∀ key ∈ checkedKeys, other.get key = run.get key) :
    receipt.validate format enc rfc3339 other attemptId =
      receipt.validate format enc rfc3339 run attemptId := by
  have hproject := h "project" (by decide)
  have hrun := h "run_id" (by decide)
  have hbackend := h "backend" (by decide)
  have hresources := h "resources" (by decide)
  simp only [validate, reservation, field, Json.index, hproject, hrun, hbackend, hresources]

end Receipt

/-! ## What planning does -/

/-- What a successful plan has found. -/
structure Planned (format : FloatFormat F) (enc : Encoding) (rfc3339 : String → Option ℤ)
    (run : Json) (request : Request F) (authority : Authority) (now : String) (attempt : Json)
    (fields : Fields) (receipt : Receipt F) (follower : String) : Prop where
  object : run = .object fields
  next : Native.next authority.parent.attemptId = .ok follower
  requested : receipt.request = request
  continued : receipt.parentBinding = authority.parent
  reserved : receipt.reservedGpuSeconds < 2 ^ 64
  checked : receipt.validate format enc rfc3339 run follower = .ok ()
  provided : checkCheckpoint enc run request authority.checkpoint = .ok ()
  written : attempt = attemptDocument format (.object fields) receipt authority.checkpoint follower

lemma field_eq_ok {value : Json} {key text : String} :
    field value key = .ok text ↔ value.get key = some (.string text) := by
  rw [field]
  cases value.get key with
  | none => simp
  | some found => cases found <;> simp [Json.asStr]

lemma checkedMul_lt {a b product : ℕ} (h : Slurm.checkedMul a b = some product) :
    product < 2 ^ 64 := by
  rw [Slurm.checkedMul] at h
  split_ifs at h with hlimit
  rw [← Option.some.inj h]
  exact hlimit

lemma reservation_lt {count total : ℕ} (h : reservation run count = .ok total) :
    total < 2 ^ 64 := by
  rw [reservation] at h
  split at h
  · cases h
  · obtain ⟨time, -, h⟩ := bind_eq_ok.mp h
    split at h
    · cases h
    · split at h
      · cases h
      · rename_i hproduct
        obtain ⟨single, -, htotal⟩ := Option.bind_eq_some_iff.mp hproduct
        rw [← Except.ok.inj h]
        exact checkedMul_lt htotal

/-- A checked receipt is of a Run with its project and identity, and its request was checked. -/
lemma Receipt.facts_of_validate {attemptId : String}
    (h : receipt.validate format enc rfc3339 run attemptId = .ok ()) :
    run.get "project" = some (.string receipt.parentBinding.project) ∧
      run.get "run_id" = some (.string receipt.parentBinding.runId) ∧
      receipt.request.validate receipt.parentAction = .ok () ∧
      receipt.request.parent =
        .ok (receipt.parentBinding.runId, receipt.parentBinding.attemptId) := by
  obtain ⟨count, -, h⟩ := bind_eq_ok.mp h
  obtain ⟨⟨⟩, -, h⟩ := bind_eq_ok.mp h
  obtain ⟨⟨⟩, -, h⟩ := bind_eq_ok.mp h
  obtain ⟨follower, -, h⟩ := bind_eq_ok.mp h
  obtain ⟨⟨⟩, -, h⟩ := bind_eq_ok.mp h
  obtain ⟨project, hproject, h⟩ := bind_eq_ok.mp h
  obtain ⟨⟨⟩, hsame, h⟩ := bind_eq_ok.mp h
  obtain ⟨runId, hrun, h⟩ := bind_eq_ok.mp h
  obtain ⟨⟨⟩, hsameRun, h⟩ := bind_eq_ok.mp h
  obtain ⟨source, hsource, h⟩ := bind_eq_ok.mp h
  obtain ⟨⟨⟩, hparent, h⟩ := bind_eq_ok.mp h
  obtain ⟨identity, hidentity, -⟩ := bind_eq_ok.mp h
  obtain ⟨⟨⟩, hrequest, -⟩ := bind_eq_ok.mp hidentity
  rw [reject_eq_ok, ne_eq, not_not] at hsame hsameRun hparent
  rw [hsame, hsameRun, ← hsameRun, ← hparent]
  rw [hsameRun] at hparent ⊢
  exact ⟨field_eq_ok.mp hproject, field_eq_ok.mp hrun, hrequest, hsource⟩

/-- **What planning does.** -/
theorem planned_of_plan (h : plan format enc rfc3339 run request authority now = .ok attempt) :
    ∃ fields receipt follower, Planned format enc rfc3339 run request authority now attempt fields
      receipt follower := by
  obtain ⟨follower, hnext, h⟩ := bind_eq_ok.mp h
  obtain ⟨identity, -, h⟩ := bind_eq_ok.mp h
  obtain ⟨seconds, hseconds, h⟩ := bind_eq_ok.mp h
  obtain ⟨⟨⟩, hvalid, h⟩ := bind_eq_ok.mp h
  obtain ⟨⟨⟩, hcheckpoint, h⟩ := bind_eq_ok.mp h
  have hobject := (Receipt.facts_of_validate hvalid).1
  cases run with
  | object fields =>
    exact ⟨fields, _, follower, rfl, hnext, rfl, rfl, reservation_lt hseconds, hvalid, hcheckpoint,
      (Except.ok.inj h).symm⟩
  | _ => cases hobject

/-! ## The document of a planned retry -/

section Documents

variable {fields : Fields} {checkpoint : Json} {follower : String}

/-- The fields of the retry in the document. -/
lemma index_attemptDocument :
    (attemptDocument format (.object fields) receipt checkpoint follower).index "native_retry" =
        receipt.document format ∧
      (attemptDocument format (.object fields) receipt checkpoint follower).index
        "attempt_created_at" = .string receipt.createdAt ∧
      (attemptDocument format (.object fields) receipt checkpoint follower).get "resume_from" =
        some (.ofOption Reference.document receipt.request.resumeFrom) ∧
      (attemptDocument format (.object fields) receipt checkpoint follower).get
        "native_checkpoint" = some checkpoint := by
  simp [attemptDocument, Fields.get_insert]

lemma get_attemptDocument {key : String} (hkey : key ∉ retryKeys) :
    (attemptDocument format (.object fields) receipt checkpoint follower).get key =
      (Json.object fields).get key := by
  simp only [retryKeys, List.mem_cons, List.not_mem_nil, or_false, not_or] at hkey
  obtain ⟨hid, hcreated, hretry, hresume, hcheckpoint⟩ := hkey
  simp [attemptDocument, Fields.get_insert, hid, hcreated, hresume, hcheckpoint, hretry]

/-- Without the fields of the retry the document is the Run's. -/
lemma strip_attemptDocument :
    strip (attemptDocument format (.object fields) receipt checkpoint follower) =
      strip (.object fields) := by
  have hset (fields : Fields) (key : String) (value : Json) (hkey : key ∈ retryKeys) :
      (Fields.insert fields key value).filter (fun field => field.1 ∉ retryKeys) =
        fields.filter fun field => field.1 ∉ retryKeys :=
    @Fields.filter_insert (fun key => key ∉ retryKeys) key value (by simpa using hkey) fields
  simp only [strip, attemptDocument, Json.set_object, Json.asObject]
  rw [hset _ "native_retry" _ (by decide), hset _ "native_checkpoint" _ (by decide),
    hset _ "resume_from" _ (by decide), hset _ "attempt_created_at" _ (by decide),
    hset _ "attempt_id" _ (by decide)]

end Documents

/-! ## The checks of a planned retry -/

/-- A binding of the Attempt behind the parent, with the same project, Run, source receipt and
backend. -/
structure Continues (parent binding : Binding) : Prop where
  attempt : next parent.attemptId = .ok binding.attemptId
  project : parent.project = binding.project
  runId : parent.runId = binding.runId
  projectSha256 : parent.projectSha256 = binding.projectSha256
  runSha256 : parent.runSha256 = binding.runSha256
  sourceReceiptSha256 : parent.sourceReceiptSha256 = binding.sourceReceiptSha256
  backendConfigSha256 : parent.backendConfigSha256 = binding.backendConfigSha256

/-- **A planned Attempt passes its own check** exactly when its cost estimate is finite. -/
theorem validateAttempt_planned {binding : Binding} (hcontinues : Continues authority.parent binding)
    (h : plan format enc rfc3339 run request authority now = .ok attempt) :
    (∃ receipt, validateAttempt format enc rfc3339 run attempt binding = .ok receipt) ↔
      format.isFinite request.maxGpuHours = true := by
  obtain ⟨fields, receipt, follower, hplanned⟩ := planned_of_plan h
  obtain ⟨rfl, hnext, rfl, hparent, hreserved, hchecked, -, rfl⟩ := hplanned
  obtain ⟨hreceipt, hcreated, hresume, -⟩ :=
    @index_attemptDocument _ format receipt fields authority.checkpoint follower
  obtain rfl : follower = binding.attemptId :=
    Except.ok.inj (hnext.symm.trans hcontinues.attempt)
  have hindex : (attemptDocument format (.object fields) receipt authority.checkpoint
      binding.attemptId).index "resume_from" =
        .ofOption Reference.document receipt.request.resumeFrom := by
    rw [Json.index, hresume, Option.getD_some]
  constructor
  · rintro ⟨found, hfound⟩
    by_contra hinfinite
    rw [Bool.not_eq_true] at hinfinite
    rw [validateAttempt, hreceipt, Receipt.read_document_none hreserved hinfinite] at hfound
    cases hfound
  · intro hfinite
    refine ⟨receipt, ?_⟩
    rw [validateAttempt, hreceipt, Receipt.read_document hreserved hfinite]
    refine bind_eq_ok.mpr ⟨(), hchecked, bind_eq_ok.mpr ⟨(), ?_, ?_⟩⟩
    · rw [reject_eq_ok, hindex, hcreated, hparent]
      simp [hcontinues.projectSha256, hcontinues.runSha256, hcontinues.sourceReceiptSha256,
        hcontinues.backendConfigSha256]
    · rw [strip_attemptDocument]
      refine bind_eq_ok.mpr ⟨_, rfl, bind_eq_ok.mpr ⟨_, rfl, bind_eq_ok.mpr ⟨(), ?_, rfl⟩⟩⟩
      rw [reject_eq_ok, not_not]
      exact Json.equal_refl _

/-! ## Checkpoint evidence -/

/-- The directory of an Attempt's state below the root of the Runs. -/
def stateRoot (runsRoot project : String) (reference : Reference) : String :=
  runsRoot ++ "/" ++ project ++ "/" ++ reference.runId ++ "/attempts/" ++ reference.attemptId ++
    "/state"

/-- A request that resumes from a checkpoint registered under a storage scope and a root of Runs. -/
def Resumes (enc : Encoding) (rfc3339 : String → Option ℤ) (request : Request F)
    (checkpoint : Json) (project storageScope runsRoot : String) : Prop :=
  ∃ reference context manifest, request.resumeFrom = some reference ∧
    Checkpoints.validateDocument enc checkpoint none (some reference.checkpointId) =
      .ok (context, manifest) ∧
    Checkpoints.Registered rfc3339 checkpoint context storageScope
      (stateRoot runsRoot project reference)

/-- What is asked of an Attempt before it is submitted: its own check, and the evidence of the
checkpoint it is restored from. -/
structure Admissible (format : FloatFormat F) (enc : Encoding) (rfc3339 : String → Option ℤ)
    (run attempt : Json) (binding : Binding) (storageScope runsRoot : String) : Prop where
  validated : ∃ receipt, validateAttempt format enc rfc3339 run attempt binding = .ok receipt
  defined : definitionCheckpoint enc rfc3339 attempt binding storageScope runsRoot = .ok ()
  admitted : admitCheckpoint format enc rfc3339 attempt
    ⟨binding.project, binding.runId, binding.attemptId⟩ storageScope runsRoot = .ok ()

/-- The Attempt behind another one is not the first. -/
lemma ne_first_of_next {first follower : String} (h : next first = .ok follower) :
    follower ≠ "attempt-001" := by
  rintro rfl
  obtain ⟨n, hnumber, hfollower⟩ := number_of_next h
  have hone : number "attempt-001" = .ok 1 :=
    number_eq_ok.mpr ⟨by decide, by decide, by decide⟩
  have hzero : n = 0 := by
    have := Except.ok.inj (hone.symm.trans hfollower)
    omega
  exact absurd (number_eq_ok.mp hnumber).2.1 (by omega)

section Evidence

variable {fields : Fields} {follower storageScope runsRoot : String} {binding : Binding}

/-- A planned restart has a checkpoint field, which is null, so that it never has the evidence. -/
lemma restart_refused (hplanned : Planned format enc rfc3339 run request authority now attempt
      fields receipt follower) (hrestart : request.resumeFrom = none) :
    definitionCheckpoint enc rfc3339 attempt binding storageScope runsRoot =
      .error ⟨"checkpoint evidence"⟩ := by
  obtain ⟨rfl, -, rfl, -, -, -, -, rfl⟩ := hplanned
  obtain ⟨-, -, hresume, hcheckpoint⟩ :=
    @index_attemptDocument _ format receipt fields authority.checkpoint follower
  rw [definitionCheckpoint, hresume, hcheckpoint, hrestart]
  rfl

/-- A planned resumption has the evidence exactly when its checkpoint may be chosen. -/
lemma defined_iff (hplanned : Planned format enc rfc3339 run request authority now attempt
      fields receipt follower) (hcontinues : Continues authority.parent binding)
    {reference : Reference} (hresume : request.resumeFrom = some reference) :
    definitionCheckpoint enc rfc3339 attempt binding storageScope runsRoot = .ok () ↔
      ∃ plan, Checkpoints.selected enc rfc3339 reference authority.checkpoint binding.project
        storageScope runsRoot = .ok plan := by
  have hlater := ne_first_of_next hcontinues.attempt
  obtain ⟨rfl, -, rfl, -, -, -, -, rfl⟩ := hplanned
  obtain ⟨-, -, hpoint, hcheckpoint⟩ :=
    @index_attemptDocument _ format receipt fields authority.checkpoint follower
  have hread := Reference.read_document reference
  rw [definitionCheckpoint, hpoint, hcheckpoint, hresume]
  simp only [Json.ofOption, Option.filter_some, Reference.document, Json.isNull, Bool.not_false,
    if_true] at hread ⊢
  rw [hread]
  constructor
  · intro h
    obtain ⟨plan, hplan, -⟩ := bind_eq_ok.mp h
    exact ⟨plan, mapError_ok.mp hplan⟩
  · rintro ⟨plan, hplan⟩
    refine bind_eq_ok.mpr ⟨plan, mapError_ok.mpr hplan, ?_⟩
    rw [reject_eq_ok]
    exact fun hfirst => hlater hfirst.2

/-- The same of what the staging asks for, once the receipt is read back. -/
lemma admitted_of_selected (hplanned : Planned format enc rfc3339 run request authority now attempt
      fields receipt follower) (hcontinues : Continues authority.parent binding)
    {reference : Reference} (hresume : request.resumeFrom = some reference)
    (hfinite : format.isFinite request.maxGpuHours = true)
    (hselected : ∃ plan, Checkpoints.selected enc rfc3339 reference authority.checkpoint
      binding.project storageScope runsRoot = .ok plan) :
    admitCheckpoint format enc rfc3339 attempt
      ⟨binding.project, binding.runId, binding.attemptId⟩ storageScope runsRoot = .ok () := by
  obtain ⟨plan, hplan⟩ := hselected
  obtain ⟨rfl, hnext, rfl, -, hreserved, hchecked, -, rfl⟩ := hplanned
  obtain rfl : follower = binding.attemptId :=
    Except.ok.inj (hnext.symm.trans hcontinues.attempt)
  obtain ⟨hreceipt, -, hpoint, hcheckpoint⟩ :=
    @index_attemptDocument _ format receipt fields authority.checkpoint binding.attemptId
  have hread := Reference.read_document reference
  rw [admitCheckpoint, hpoint, hcheckpoint, hresume]
  simp only [Json.ofOption, Option.filter_some, Reference.document, Json.isNull, Bool.not_false,
    if_true] at hread ⊢
  rw [hread]
  refine bind_eq_ok.mpr ⟨plan, mapError_ok.mpr hplan, ?_⟩
  split_ifs with hown
  · rw [hreceipt, Receipt.read_document hreserved hfinite]
    refine bind_eq_ok.mpr ⟨(), mapError_ok.mpr ?_, ?_⟩
    · -- The Attempt is checked in the place of its Run, which has the same fields to check.
      rw [Receipt.validate_congr fun key hkey => get_attemptDocument ?_]
      · exact hchecked
      · revert key
        decide
    · rw [reject_eq_ok, ne_eq, not_not]
      exact hresume
  · rfl

/-- The checkpoint a request resumes from belongs to its project, and its reference was checked. -/
lemma context_of_planned (hplanned : Planned format enc rfc3339 run request authority now attempt
      fields receipt follower) {reference : Reference}
    (hresume : request.resumeFrom = some reference) :
    reference.validate = .ok () ∧ ∃ context manifest,
      Checkpoints.validateDocument enc authority.checkpoint none (some reference.checkpointId) =
        .ok (context, manifest) ∧
      context.project = authority.parent.project ∧ context.runId = reference.runId ∧
      context.attemptId = reference.attemptId := by
  obtain ⟨hproject, -, hrequest, -⟩ := Receipt.facts_of_validate hplanned.checked
  rw [hplanned.requested] at hrequest
  rw [hplanned.continued] at hproject
  constructor
  · obtain ⟨⟨⟩, -, hsource⟩ := bind_eq_ok.mp hrequest
    rw [hresume] at hsource
    cases hrestart : request.restartFrom with
    | none =>
      rw [hrestart] at hsource
      exact mapError_ok.mp hsource
    | some start =>
      rw [hrestart] at hsource
      cases hsource
  · have hprovided := hplanned.provided
    rw [checkCheckpoint, hresume] at hprovided
    obtain ⟨⟨context, manifest⟩, hdocument, h⟩ := bind_eq_ok.mp hprovided
    obtain ⟨project, hfield, h⟩ := bind_eq_ok.mp h
    obtain ⟨⟨⟩, hcontext, -⟩ := bind_eq_ok.mp h
    rw [field_eq_ok, hproject, Option.some.injEq, Json.string.injEq] at hfield
    simp only [reject_eq_ok, not_or, ne_eq, not_not] at hcontext
    obtain ⟨hown, hrun, hattempt⟩ := hcontext
    exact ⟨context, manifest, mapError_ok.mp hdocument, hown.trans hfield.symm, hrun, hattempt⟩

end Evidence

/-- **A planned Attempt can be submitted** exactly when it resumes from a registered checkpoint and
its cost estimate is finite. -/
theorem admissible_iff {binding : Binding} (storageScope runsRoot : String)
    (hcontinues : Continues authority.parent binding)
    (h : plan format enc rfc3339 run request authority now = .ok attempt) :
    Admissible format enc rfc3339 run attempt binding storageScope runsRoot ↔
      format.isFinite request.maxGpuHours = true ∧
        Resumes enc rfc3339 request authority.checkpoint binding.project storageScope runsRoot := by
  obtain ⟨fields, receipt, follower, hplanned⟩ := planned_of_plan h
  constructor
  · rintro ⟨hvalidated, hdefined, -⟩
    refine ⟨(validateAttempt_planned hcontinues h).mp hvalidated, ?_⟩
    cases hresume : request.resumeFrom with
    | none =>
      rw [restart_refused hplanned hresume] at hdefined
      cases hdefined
    | some reference =>
      obtain ⟨-, context, manifest, hdocument, -, -, -, hregistered⟩ :=
        Checkpoints.selectedAt_isOk.mp ((defined_iff hplanned hcontinues hresume).mp hdefined)
      exact ⟨reference, context, manifest, hresume, hdocument, hregistered⟩
  · rintro ⟨hfinite, reference, context, manifest, hresume, hdocument, hregistered⟩
    obtain ⟨hreference, context', manifest', hdocument', hproject, hrun, hattempt⟩ :=
      context_of_planned hplanned hresume
    obtain ⟨rfl, rfl⟩ : context' = context ∧ manifest' = manifest := by
      have hsame := hdocument'.symm.trans hdocument
      simpa using hsame
    have hselected : ∃ plan, Checkpoints.selected enc rfc3339 reference authority.checkpoint
        binding.project storageScope runsRoot = .ok plan :=
      Checkpoints.selectedAt_isOk.mpr ⟨hreference, context', manifest', hdocument,
        hproject.trans hcontinues.project, hrun, hattempt, hregistered⟩
    exact ⟨(validateAttempt_planned hcontinues h).mpr hfinite,
      (defined_iff hplanned hcontinues hresume).mpr hselected,
      admitted_of_selected hplanned hcontinues hresume hfinite hselected⟩

/-! ## A sampled restart -/

section Sampled

open Encoding (SampleFloat sampleFormat)

def sampleRun : Json := .object [("project", .string "demo"), ("run_id", .string "train"),
  ("resources", .object [("gpus", .ofNat 1)]),
  ("backend", .object [("time", .string "01:00:00"), ("partition", .string "gpu")])]

def sampleStatus : Slurm.JobStatus where
  sshAlias := "cluster"
  jobId := ⟨"7", by decide⟩
  schedulerName := "train--attempt-001"
  partition := "gpu"
  state := .failed
  rawState := "FAILED"
  elapsed := none
  exitCode := none
  reason := none
  failureClass := none
  observationSource := some .sacct
  observedAt := none
  queue := none

def sampleAuthority : Authority where
  backendId := "cluster"
  parent := sampleBinding
  action := "action-0123456789abcdef"
  job := "7"
  termination := ⟨sampleStatus, none, none, false⟩
  checkpoint := .null

def sampleReceipt : Receipt SampleFloat where
  contract := RETRY_CONTRACT
  parentAction := "action-0123456789abcdef"
  parentBinding := sampleBinding
  parentJobId := "7"
  backendId := "cluster"
  termination := ⟨sampleStatus, none, none, false⟩
  request := sampleRequest .threeHalves
  requestSha256 := "sha256:" ++ sampleHash
  reservedGpuSeconds := 3600
  createdAt := "2026-10-31T00:00:03Z"

def sampleAttempt : Json :=
  attemptDocument sampleFormat sampleRun sampleReceipt .null "attempt-002"

/-- A time limit without days. -/
lemma walltimeSeconds_eq {value hours minutes seconds : String} {h m s : ℕ}
    (hdays : '-' ∉ value.toList) (hfields : split ':' value = [hours, minutes, seconds])
    (hwidths : byteLen minutes = 2 ∧ byteLen seconds = 2)
    (hnumbers : Slurm.number hours = some h ∧ Slurm.number minutes = some m ∧
      Slurm.number seconds = some s)
    (hbounds : m ≤ 59 ∧ s ≤ 59) (hpos : 0 < h * 3600 + (m * 60 + s))
    (hlimit : h * 3600 + (m * 60 + s) < 2 ^ 64) :
    Slurm.walltimeSeconds value = some (h * 3600 + (m * 60 + s)) := by
  have hnone : splitOnce '-' value = none := by rw [splitOnce, if_neg hdays]
  have hmarks : ¬(m > 59 ∨ s > 59 ∨ '-' ∈ value.toList ∧ h > 23) := by
    rintro (hm | hs | hmark)
    · omega
    · omega
    · exact hdays hmark.1
  have hhours : h * 3600 < 2 ^ 64 := lt_of_le_of_lt (Nat.le_add_right _ _) hlimit
  have hwhole : Slurm.checkedMul 0 86400 = some 0 := rfl
  have hpart : Slurm.checkedMul h 3600 = some (h * 3600) := by
    rw [Slurm.checkedMul, if_pos hhours]
  have hsum : Slurm.checkedAdd 0 (h * 3600) = some (h * 3600) := by
    rw [Slurm.checkedAdd, Nat.zero_add, if_pos hhours]
  have htotal : Slurm.checkedAdd (h * 3600) (m * 60 + s) = some (h * 3600 + (m * 60 + s)) := by
    rw [Slurm.checkedAdd, if_pos hlimit]
  have hzero : h * 3600 + (m * 60 + s) ≠ 0 := by omega
  simp only [Slurm.walltimeSeconds, hnone, Option.bind_eq_bind, Option.bind_some, hfields,
    hwidths.1, hwidths.2, hnumbers.1, hnumbers.2.1, hnumbers.2.2, hmarks, hwhole, hpart, hsum,
    htotal, hzero, ne_eq, not_true, or_self, if_false]

lemma walltimeSeconds_hour : Slurm.walltimeSeconds "01:00:00" = some 3600 := by
  have hlist : "01:00:00".toList = ['0', '1', ':', '0', '0', ':', '0', '0'] :=
    String.toList_ofList
  have hnumber (chars : List Char) :
      Slurm.number (String.ofList chars) = (Json.digits chars).filter (· < 2 ^ 64) := by
    rw [Slurm.number, String.toList_ofList]
  have hwidth : byteLen (String.ofList ['0', '0']) = 2 := byteLen_ofList (by decide)
  refine @walltimeSeconds_eq "01:00:00" (String.ofList ['0', '1']) (String.ofList ['0', '0'])
    (String.ofList ['0', '0']) 1 0 0 ?_ ?_ ⟨hwidth, hwidth⟩ ?_ ⟨?_, ?_⟩ ?_ ?_
  · rw [hlist]
    decide
  · rw [split, hlist]
    rfl
  · rw [hnumber, hnumber]
    decide
  all_goals omega

lemma sample_reservation : reservation sampleRun 1 = .ok 3600 ∧ reservation sampleRun 2 = .ok 7200 := by
  have hgpus : ((sampleRun.index "resources").index "gpus").asU64 = some 1 := by decide
  have htime : field (sampleRun.index "backend") "time" = .ok "01:00:00" := rfl
  simp only [reservation, hgpus, htime, ok_bind, walltimeSeconds_hour]
  exact ⟨rfl, rfl⟩

lemma schedulerJobName_sampled : Slurm.schedulerJobName (fun _ => sampleHash) "train" "attempt-001" =
    .ok "train--attempt-001" := by
  have hraw : "train" ++ "--" ++ "attempt-001" = "train--attempt-001" := by decide
  have hattempt : byteLen "attempt-001" = 11 :=
    byteLen_ofList (by decide)
  have hlength : byteLen "train--attempt-001" = 18 := byteLen_ofList (by decide)
  obtain ⟨⟨⟩, hvalid, -⟩ := bind_eq_ok.mp number_first
  refine bind_eq_ok.mpr ⟨(), mapError_ok.mpr validateId_train, ?_⟩
  refine bind_eq_ok.mpr ⟨(), mapError_ok.mpr (mapError_ok.mp hvalid), ?_⟩
  simp only [hraw, hattempt, hlength]
  rfl

lemma sampleStatus_validate : sampleStatus.validate = .ok () := by rfl

lemma sampleReceipt_validate :
    sampleReceipt.validate sampleFormat sampleEncoding sampleInstant sampleRun "attempt-002" =
      .ok () := by
  have hbackend : component "cluster" = true := component_ofList (by decide) (by decide) (by decide)
  refine bind_eq_ok.mpr ⟨2, number_second, ?_⟩
  refine bind_eq_ok.mpr ⟨(), mapError_ok.mpr sampleStatus_validate, ?_⟩
  refine bind_eq_ok.mpr ⟨(), by rw [reject_eq_ok, not_not]; rfl, ?_⟩
  refine bind_eq_ok.mpr ⟨"attempt-002", next_first, ?_⟩
  refine bind_eq_ok.mpr ⟨(), by rw [reject_eq_ok, not_not], ?_⟩
  refine bind_eq_ok.mpr ⟨"demo", rfl, bind_eq_ok.mpr ⟨(), by rw [reject_eq_ok, not_not]; rfl, ?_⟩⟩
  refine bind_eq_ok.mpr ⟨"train", rfl, bind_eq_ok.mpr ⟨(), by rw [reject_eq_ok, not_not]; rfl, ?_⟩⟩
  refine bind_eq_ok.mpr ⟨("train", "attempt-001"), rfl,
    bind_eq_ok.mpr ⟨(), by rw [reject_eq_ok, not_not]; rfl, ?_⟩⟩
  refine bind_eq_ok.mpr ⟨"sha256:" ++ sampleHash, sampleRequest_identity .threeHalves, ?_⟩
  refine bind_eq_ok.mpr ⟨(), ?_, ?_⟩
  · rw [reject_eq_ok]
    simp [sampleReceipt, sampleStatus, RunState.isTerminal]
  refine bind_eq_ok.mpr ⟨"train--attempt-001", mapError_ok.mpr schedulerJobName_sampled, ?_⟩
  refine bind_eq_ok.mpr ⟨(), ?_, ?_⟩
  · rw [reject_eq_ok]
    simp [sampleReceipt, sampleStatus, hbackend]
  refine bind_eq_ok.mpr ⟨"gpu", rfl, bind_eq_ok.mpr ⟨(), by rw [reject_eq_ok, not_not]; rfl, ?_⟩⟩
  refine bind_eq_ok.mpr ⟨3600, sample_reservation.1, ?_⟩
  refine bind_eq_ok.mpr ⟨7200, sample_reservation.2, ?_⟩
  rw [reject_eq_ok]
  simp [sampleReceipt, sampleBinding, sampleInstant, Binding.hashes, validDigest_sampleHash]

lemma sample_planned : plan sampleFormat sampleEncoding sampleInstant sampleRun
    (sampleRequest .threeHalves) sampleAuthority "2026-10-31T00:00:03Z" = .ok sampleAttempt := by
  refine bind_eq_ok.mpr ⟨"attempt-002", next_first, ?_⟩
  refine bind_eq_ok.mpr ⟨"sha256:" ++ sampleHash, sampleRequest_identity .threeHalves, ?_⟩
  refine bind_eq_ok.mpr ⟨3600, sample_reservation.1, ?_⟩
  refine bind_eq_ok.mpr ⟨(), sampleReceipt_validate, bind_eq_ok.mpr ⟨(), ?_, rfl⟩⟩
  simp [checkCheckpoint, sampleRequest, sampleAuthority, Json.isNull]

/-- The binding of the Attempt behind the sampled one. -/
def sampleFollower : Binding := { sampleBinding with attemptId := "attempt-002" }

lemma sample_continues : Continues sampleAuthority.parent sampleFollower :=
  ⟨next_first, rfl, rfl, rfl, rfl, rfl, rfl⟩

theorem admissible_iff_sampled :
    ¬Admissible sampleFormat sampleEncoding sampleInstant sampleRun sampleAttempt sampleFollower
      "storage" "/runs" := by
  rw [admissible_iff "storage" "/runs" sample_continues sample_planned]
  rintro ⟨-, reference, _, _, hresume, -⟩
  cases hresume

/-- A planned restart that is refused for the checkpoint it does not have. -/
theorem planned_restart_refused :
    ∃ (run attempt : Json) (request : Request SampleFloat) (authority : Authority) (now : String),
      plan sampleFormat sampleEncoding sampleInstant run request authority now = .ok attempt ∧
      ∀ binding storageScope runsRoot,
        definitionCheckpoint sampleEncoding sampleInstant attempt binding storageScope runsRoot =
          .error ⟨"checkpoint evidence"⟩ := by
  refine ⟨sampleRun, sampleAttempt, sampleRequest .threeHalves, sampleAuthority,
    "2026-10-31T00:00:03Z", sample_planned, fun binding storageScope runsRoot => ?_⟩
  obtain ⟨fields, receipt, follower, hplanned⟩ := planned_of_plan sample_planned
  exact restart_refused hplanned rfl

end Sampled

end Native

end ExperimentControl
