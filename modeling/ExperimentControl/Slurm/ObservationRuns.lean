import ExperimentControl.Slurm.JobReply

/-!
# Looks at one job

What holds of the recorded status over any sequence of looks at one job, with whatever the scheduler
answers. A look that is refused leaves the recorded status as it was.

* `Look`, `record` — one look, and what is recorded after some.
* **`observation_runs`** — a terminal state is never left, the scope never changes, and a status is
  the recorded one, the placeholder, or a fresh one that is encoded in a reply.
* `placeholder_refused` — the placeholder does not pass the check of a status.
-/

namespace ExperimentControl

namespace Slurm

/-- One look at the scheduler: what its two tables answer, and when. -/
structure Look where
  accounting : Query
  queue : Query
  observedAt : Option String

section Runs

variable (scope : JobScope) (token : String)

def Look.observe (look : Look) (recorded : Option JobStatus) : Except Error StatusObservation :=
  observeOwnedStatus scope token recorded look.accounting look.queue look.observedAt

def Look.step (recorded : Option JobStatus) (look : Look) : Option JobStatus :=
  match look.observe scope token recorded with
  | .ok value => some value.status
  | .error _ => recorded

/-- The status recorded after some looks, starting from none. -/
def record (looks : List Look) : Option JobStatus := looks.foldl (Look.step scope token) none

end Runs

variable {scope : JobScope} {token : String}

lemma step_eq {recorded : Option JobStatus} {look : Look} :
    look.step scope token recorded = recorded ∨ ∃ value,
      look.observe scope token recorded = .ok value ∧
        look.step scope token recorded = some value.status := by
  unfold Look.step
  cases hobserve : look.observe scope token recorded with
  | ok value => exact Or.inr ⟨value, rfl, rfl⟩
  | error error => exact Or.inl rfl

/-- One look keeps the scope and a terminal state, and what it records passes the check if it is no
placeholder. -/
lemma step_keeps {status : JobStatus} (look : Look) :
    ∃ next, look.step scope token (some status) = some next ∧
      (status.state.isTerminal = true → next.state = status.state) := by
  rcases @step_eq scope token (some status) look with hsame | ⟨value, hobserve, hnext⟩
  · exact ⟨status, hsame, fun _ => rfl⟩
  · refine ⟨value.status, hnext, fun hterminal => ?_⟩
    rcases (observeOwnedStatus_reduced hobserve).allowed status rfl with hsame | hallows
    · rw [hsame]
    · exact (RunState.eq_of_terminal_allows hterminal hallows).symm

/-- Looks after a recorded status leave a terminal state as it is. -/
lemma run_keeps {status : JobStatus} (looks : List Look) :
    ∃ later, looks.foldl (Look.step scope token) (some status) = some later ∧
      (status.state.isTerminal = true → later.state = status.state) := by
  induction looks generalizing status with
  | nil => exact ⟨status, rfl, fun _ => rfl⟩
  | cons look looks ih =>
    obtain ⟨next, hnext, hkeep⟩ := @step_keeps scope token status look
    obtain ⟨later, hlater, hkeep'⟩ := @ih next
    refine ⟨later, ?_, fun hterminal => ?_⟩
    · rw [List.foldl_cons, hnext, hlater]
    · rw [hkeep' (by rw [hkeep hterminal]; exact hterminal), hkeep hterminal]

/-- A status of the scope that is the placeholder or passes its check. -/
def Accepted (scope : JobScope) (status : JobStatus) : Prop :=
  status.scope = scope ∧ (status = .unknown scope ∨ status.validate = .ok ())

lemma observe_accepted {recorded : Option JobStatus}
    (hrecorded : ∀ status, recorded = some status → Accepted scope status) {look : Look}
    {value : StatusObservation} (h : look.observe scope token recorded = .ok value) :
    Accepted scope value.status := by
  have hreduced := observeOwnedStatus_reduced h
  refine ⟨hreduced.bound, ?_⟩
  cases hretained : value.retainedPrevious with
  | true => exact (hrecorded value.status (hreduced.retained hretained)).2
  | false => exact (hreduced.fresh hretained).imp And.right fun h => h.2.1

/-- What is recorded is of the scope, and is the placeholder or passes its check. -/
lemma record_accepted (looks : List Look) :
    ∀ status, record scope token looks = some status → Accepted scope status := by
  induction looks using List.reverseRecOn with
  | nil =>
    rintro status ⟨⟩
  | append_singleton looks look ih =>
    intro status hstatus
    rw [record, List.foldl_append, List.foldl_cons, List.foldl_nil] at hstatus
    rcases @step_eq scope token (record scope token looks) look with
      hsame | ⟨value, hobserve, hnext⟩
    · exact ih status (hsame.symm.trans hstatus)
    · obtain rfl : value.status = status := Option.some.inj (hnext.symm.trans hstatus)
      exact observe_accepted ih hobserve

/-- What one look returns, by what was recorded before it. -/
structure Observed (scope : JobScope) (token : String) (recorded : Option JobStatus) (look : Look)
    (value : StatusObservation) : Prop where
  bound : value.status.scope = scope
  /-- A status that is not the retained one is the placeholder, or told by own rows. -/
  source : value.retainedPrevious = true ∧ recorded = some value.status ∨
    value.status = .unknown scope ∨
      Fresh scope token look.observedAt look.accounting look.queue value.status
  checked : value.status = .unknown scope ∨ value.status.validate = .ok ()
  /-- An observation that is neither is encoded in a reply to a request that reads the job. -/
  encoded : value.retainedPrevious = false → value.status ≠ .unknown scope →
    ∀ identity : RequestIdentity, validDigest identity.requestSha256 = true →
      validDigest identity.intentSha256 = true →
      identity.operation ∈ [OperationTag.observeJob, .cancelJob] →
      ∃ frame, encodeReply ⟨identity, value⟩ = .ok frame

/-- **Looks at one job.** Whatever the scheduler answers, what is recorded is of the scope, a
terminal state is never left, and what a look returns is the recorded status, the placeholder of a
job not known yet, or a status told by own rows, which passes its check and is encoded. -/
theorem observation_runs (scope : JobScope) (token : String) (looks : List Look) :
    (∀ status, record scope token looks = some status → status.scope = scope ∧
      ∀ more, ∃ later, record scope token (looks ++ more) = some later ∧
        (status.state.isTerminal = true → later.state = status.state)) ∧
    ∀ look value, look.observe scope token (record scope token looks) = .ok value →
      Observed scope token (record scope token looks) look value := by
  constructor
  · intro status hstatus
    refine ⟨(record_accepted looks status hstatus).1, fun more => ?_⟩
    obtain ⟨later, hlater, hkeep⟩ := @run_keeps scope token status more
    refine ⟨later, ?_, hkeep⟩
    rw [record, List.foldl_append]
    change more.foldl (Look.step scope token) (record scope token looks) = _
    rw [hstatus, hlater]
  · intro look value hobserve
    have hreduced := observeOwnedStatus_reduced hobserve
    have haccepted := observe_accepted (record_accepted looks) hobserve
    refine ⟨haccepted.1, ?_, haccepted.2, ?_⟩
    · cases hretained : value.retainedPrevious with
      | true => exact Or.inl ⟨rfl, hreduced.retained hretained⟩
      | false => exact Or.inr ((hreduced.fresh hretained).imp And.right And.left)
    · intro hretained hknown identity hrequest hintent hoperation
      rcases hreduced.fresh hretained with ⟨-, hplaceholder⟩ | ⟨-, hvalid, hat⟩
      · exact absurd hplaceholder hknown
      · exact encodeReply_fresh hrequest hintent hoperation hvalid hretained hat

/-! ## A job not known yet -/

def sampleScope : JobScope where
  sshAlias := "cluster"
  jobId := ⟨"12345", by decide⟩
  schedulerName := "train--attempt-001"
  partition := "gpu"

/-- A first look that asks for nothing returns a status which is neither retained nor accepted by
its own check, so that no reply carries it. -/
theorem placeholder_refused :
    ∃ value, Look.observe sampleScope "0123456789abcdef0123456789abcdef"
        ⟨.notRequested, .notRequested, none⟩ (record sampleScope "0123456789abcdef0123456789abcdef" []) =
        .ok value ∧
      value.retainedPrevious = false ∧ value.status.validate ≠ .ok () ∧
      ∀ identity, ∃ error, encodeReply ⟨identity, value⟩ = .error error := by
  have hinvalid : JobStatus.validate (.unknown sampleScope) = .error (.evidence "status source") := rfl
  refine ⟨⟨.unknown sampleScope, none, some .noEvidence, false⟩, by decide +kernel, rfl, ?_, ?_⟩
  · rw [hinvalid]
    rintro ⟨⟩
  · intro identity
    rw [encodeReply, JobReply.validate]
    dsimp only
    rw [hinvalid]
    by_cases hidentity : ¬validDigest identity.requestSha256 = true ∨
        ¬validDigest identity.intentSha256 = true
    · exact ⟨.identity, by rw [reject, if_pos hidentity]; rfl⟩
    · exact ⟨.metadata, by rw [reject, if_neg hidentity]; rfl⟩

end Slurm

end ExperimentControl
