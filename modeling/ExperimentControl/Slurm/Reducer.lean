import ExperimentControl.Slurm.Observation

/-!
# The observation reducer

What one look at the scheduler makes of the accounting and the queue table, and of the status known
before, of `core/src/slurm/observation.rs`.

* `observeWith`, `observeOwnedStatus` — the reducer, over any reader of tables and over owned rows.
* `Owned` — a status is told by exactly one row of a table, an own one.
* `Fresh` — a status that was not known before: **`observeOwnedStatus_fresh`**.
-/

namespace ExperimentControl

namespace Slurm

inductive Query
  | notRequested
  | failed
  | success (output : String)

inductive Diagnostic
  | noEvidence
  | ownershipNotRecorded
  | queryUnavailable
  | malformedOrForeignEvidence
  | queueNotObserved
  | queueUnavailable
  | regressiveState
  deriving DecidableEq, Repr

structure StatusObservation where
  status : JobStatus
  checkedAt : Option String
  diagnostic : Option Diagnostic
  retainedPrevious : Bool
  deriving DecidableEq

namespace JobStatus

/-- The placeholder for a job of which nothing is known. -/
def unknown (scope : JobScope) : JobStatus where
  sshAlias := scope.sshAlias
  jobId := scope.jobId
  schedulerName := scope.schedulerName
  partition := scope.partition
  state := .unknown
  rawState := "UNKNOWN"
  elapsed := none
  exitCode := none
  reason := none
  failureClass := none
  observationSource := none
  observedAt := none
  queue := none

def matchesScope (status : JobStatus) (scope : JobScope) : Bool :=
  status.sshAlias = scope.sshAlias ∧ status.jobId = scope.jobId ∧
    status.schedulerName = scope.schedulerName ∧ status.partition = scope.partition

lemma matchesScope_iff {status : JobStatus} {scope : JobScope} :
    status.matchesScope scope = true ↔ status.scope = scope := by
  obtain ⟨sshAlias, jobId, schedulerName, partition⟩ := scope
  simp [matchesScope, JobStatus.scope]

end JobStatus

/-! ## The reducer -/

/-- A reader of tables. -/
def StatusParser : Type :=
  String → JobScope → StatusSource → Option String → Except Error (Option JobStatus)

section Reducer

variable (scope : JobScope) (previous : Option JobStatus) (observedAt : Option String)
  (parse : StatusParser)

/-- The status known before, or the placeholder. -/
def retain (diagnostic : Diagnostic) : StatusObservation where
  status := previous.getD (.unknown scope)
  checkedAt := observedAt
  diagnostic := some diagnostic
  retainedPrevious := previous.isSome

/-- A status that the one known before does not allow. -/
def regressive (status : JobStatus) : Bool := previous.any fun prior => ¬prior.state.allows status.state

def observeQueue (queue : Query) : StatusObservation :=
  let result := match queue with
    | .success output => parse output scope .squeue observedAt
    | .failed => .error .unavailable
    | .notRequested => .ok none
  match result with
  | .ok (some status) =>
      if regressive previous status then retain scope previous observedAt .regressiveState
      else ⟨status, observedAt, none, false⟩
  | .error .unavailable => retain scope previous observedAt .queryUnavailable
  | .error _ => retain scope previous observedAt .malformedOrForeignEvidence
  | .ok none => retain scope previous observedAt .noEvidence

/-- What the queue says beside an accounting status of a queued job. -/
def queueDetail (status : JobStatus) (queue : Query) : JobStatus × Option Diagnostic :=
  let source := "slurm-squeue"
  match queue with
  | .failed => ({ status with queue := some ⟨source, .unavailable, none⟩ }, some .queueUnavailable)
  | .notRequested =>
      ({ status with queue := some ⟨source, .notObserved, none⟩ }, some .queueNotObserved)
  | .success output =>
      match parse output scope .squeue observedAt with
      | .ok (some other) =>
          if other.state = .queued then
            ({ status with reason := other.reason, queue := some ⟨source, .observed, other.reason⟩ },
              none)
          else ({ status with queue := some ⟨source, .notObserved, none⟩ }, some .queueNotObserved)
      | .ok none =>
          ({ status with queue := some ⟨source, .notObserved, none⟩ }, some .queueNotObserved)
      | .error _ => ({ status with queue := some ⟨source, .notObserved, none⟩ },
          some .malformedOrForeignEvidence)

/-- What an accounting status is, with the queue beside it. -/
def observeAccounting (status : JobStatus) (queue : Query) : StatusObservation :=
  if regressive previous status then retain scope previous observedAt .regressiveState
  else if status.state = .queued then
    let (status, diagnostic) := queueDetail scope observedAt parse status queue
    ⟨status, observedAt, diagnostic, false⟩
  else ⟨status, observedAt, none, false⟩

def observeWith (accounting queue : Query) : Except Error StatusObservation := do
  scope.validate
  reject (observedAt.any fun text => ¬printable text 64) (.evidence "observation timestamp")
  reject (previous.any fun status => ¬status.matchesScope scope) (.identity "previous status scope")
  match accounting with
  | .failed => .ok (retain scope previous observedAt .queryUnavailable)
  | .notRequested => .ok (observeQueue scope previous observedAt parse queue)
  | .success output =>
      match parse output scope .sacct observedAt with
      | .error _ => .ok (retain scope previous observedAt .malformedOrForeignEvidence)
      | .ok none => .ok (observeQueue scope previous observedAt parse queue)
      | .ok (some status) => .ok (observeAccounting scope previous observedAt parse status queue)

end Reducer

/-- An accounting row of the job with an empty marker, which proves nothing about its owner. -/
def accountingOmitsOwnership (output : String) (scope : JobScope) : Bool :=
  if byteLen output > MAX_OUTPUT then false
  else match rows output with
    | [line] =>
        match fields line 7 with
        | .ok row => decide (row.getD 2 "" = "") &&
            match parseJobStatus (join '|' (row.take 2 ++ row.drop 3)) scope .sacct none with
            | .ok (some _) => true
            | _ => false
        | .error _ => false
    | _ => false

/-- The reader of owned rows. -/
def ownedParser (token : String) : StatusParser := fun output scope source observedAt =>
  parseOwnedJobStatus output scope token source observedAt

def observeOwnedStatus (scope : JobScope) (token : String) (previous : Option JobStatus)
    (accounting queue : Query) (observedAt : Option String) : Except Error StatusObservation := do
  let _ ← (submissionMarker token).mapError fun _ => .ownership
  let omits := match accounting with
    | .success output => accountingOmitsOwnership output scope
    | _ => false
  if omits then
    let value ← observeWith scope previous observedAt (ownedParser token) .notRequested queue
    .ok (if value.diagnostic = some .noEvidence then
      { value with diagnostic := some .ownershipNotRecorded } else value)
  else observeWith scope previous observedAt (ownedParser token) accounting queue

/-! ## Own rows -/

/-- A status that exactly one row of a table tells, which carries the marker of the token, the job,
its name and its partition. -/
def Owned (scope : JobScope) (token : String) (source : StatusSource) (observedAt : Option String)
    (output : String) (status : JobStatus) : Prop :=
  ∃ line row, rows output = [line] ∧ fields line (rowWidth source + 1) = .ok row ∧
    row.getD 0 "" = scope.jobId.value ∧ row.getD 1 "" = scope.schedulerName ∧
    submissionMarker token = .ok (row.getD 2 "") ∧ row.getD 3 "" = scope.partition ∧
    statusOf (row.take 2 ++ row.drop 3) scope source observedAt = .ok status

section Owned

variable {scope : JobScope} {token output : String} {source : StatusSource}
  {observedAt : Option String} {status : JobStatus}

lemma statusOf_names {row : List String} (h : statusOf row scope source observedAt = .ok status) :
    row.getD 0 "" = scope.jobId.value ∧ row.getD 1 "" = scope.schedulerName ∧
      row.getD 2 "" = scope.partition := by
  unfold statusOf at h
  simp only [bind_eq_ok, reject_eq_ok, not_or, not_not, ne_eq] at h
  obtain ⟨⟨⟩, hnames, -⟩ := h
  exact hnames

/-- A row whose fields have no separator and no line end is read back as its fields. -/
lemma statusOf_of_parse_join {row : List String} (hne : row ≠ [])
    (hlength : row.length = rowWidth source) (hbar : ∀ field ∈ row, '|' ∉ field.toList)
    (hline : ∀ field ∈ row, '\n' ∉ field.toList)
    (h : parseJobStatus (join '|' row) scope source observedAt = .ok (some status)) :
    statusOf row scope source observedAt = .ok status := by
  unfold parseJobStatus at h
  simp only [bind_eq_ok] at h
  obtain ⟨⟨⟩, -, ⟨⟩, -, ⟨⟩, -, h⟩ := h
  have hnewline : '\n' ∉ (join '|' row).toList := by
    intro hmem
    rcases mem_join hmem with hbad | ⟨field, hfield, hbad⟩
    · cases hbad
    · exact hline field hfield hbad
  rcases hrows : rows (join '|' row) with _ | ⟨line, _ | ⟨other, rest⟩⟩
  · rw [hrows] at h
    cases h
  · rw [hrows] at h
    simp only [bind_eq_ok] at h
    obtain ⟨read, hread, told, htold, h⟩ := h
    obtain rfl := Option.some.inj (Except.ok.inj h)
    have hmem : line ∈ rows (join '|' row) := by simp [hrows]
    have hsame : line = join '|' row := by
      have hin := List.mem_of_mem_filter hmem
      by_cases hnone : join '|' row = ""
      · rw [hnone] at hin
        cases hin
      · rw [lines_single hnone hnewline] at hin
        exact List.mem_singleton.mp hin
    rw [hsame, fields_join hne hbar hlength] at hread
    rw [← Except.ok.inj hread] at htold
    exact htold
  · rw [hrows] at h
    cases h

/-- A row that carries the marker of a token: its fields have no separator and no line end. -/
structure Marked (token : String) (source : StatusSource) (row : List String) : Prop where
  length : row.length = rowWidth source + 1
  separate : ∀ field ∈ row, '|' ∉ field.toList
  line : ∀ field ∈ row, '\n' ∉ field.toList
  visible : ∃ c ∈ (join '|' row).toList, isWhitespace c = false
  size : byteLen (join '|' row) ≤ MAX_OUTPUT
  marker : submissionMarker token = .ok (row.getD 2 "")

lemma Marked.row_read {row : List String} (h : Marked token source row) :
    rows (join '|' row) = [join '|' row] ∧
      fields (join '|' row) (rowWidth source + 1) = .ok row := by
  refine ⟨rows_join h.visible fun hmem => ?_, fields_join (fun hnil => ?_) h.separate h.length⟩
  · rcases mem_join hmem with hbad | ⟨field, hfield, hbad⟩
    · cases hbad
    · exact h.line field hfield hbad
  · have hlength := h.length
    rw [hnil] at hlength
    cases hlength

/-- A marked row is read as the row behind its marker. -/
theorem Marked.parse {row : List String} (h : Marked token source row) :
    parseOwnedJobStatus (join '|' row) scope token source observedAt =
      parseJobStatus (join '|' (row.take 2 ++ row.drop 3)) scope source observedAt := by
  obtain ⟨hrows, hfields⟩ := h.row_read
  have hmarker : (submissionMarker token).mapError (fun _ => Error.ownership) =
      .ok (row.getD 2 "") := by
    rw [h.marker]
    rfl
  unfold parseOwnedJobStatus
  rw [hmarker, hrows]
  simp only [ok_bind, hfields]
  simp [reject, Nat.not_lt.mpr h.size]

/-- A marked row omits no ownership. -/
lemma Marked.omits {row : List String} (h : Marked token .sacct row) :
    accountingOmitsOwnership (join '|' row) scope = false := by
  obtain ⟨hrows, hfields⟩ := h.row_read
  have hwidth : fields (join '|' row) 7 = .ok row := hfields
  have hmarker : row.getD 2 "" ≠ "" := by
    have htold := h.marker
    simp only [submissionMarker, bind_eq_ok] at htold
    obtain ⟨⟨⟩, -, htold⟩ := htold
    rw [← Except.ok.inj htold]
    intro hnone
    have hchars := congrArg String.toList hnone
    rw [String.toList_append] at hchars
    cases hchars
  unfold accountingOmitsOwnership
  rw [if_neg (Nat.not_lt.mpr h.size), hrows]
  simp only [hwidth, hmarker, decide_false, Bool.false_and]

/-- **What the reader of owned rows accepts is owned.** -/
theorem owned_of_parse
    (h : parseOwnedJobStatus output scope token source observedAt = .ok (some status)) :
    Owned scope token source observedAt output status ∧ status.Projected source ∧
      status.scope = scope ∧ status.observedAt = observedAt := by
  unfold parseOwnedJobStatus at h
  simp only [bind_eq_ok] at h
  obtain ⟨marker, hmarker, ⟨⟩, -, h⟩ := h
  rcases hrows : rows output with _ | ⟨line, _ | ⟨other, rest⟩⟩
  · rw [hrows] at h
    unfold parseJobStatus at h
    simp only [bind_eq_ok] at h
    obtain ⟨⟨⟩, -, ⟨⟩, -, ⟨⟩, -, h⟩ := h
    have hempty : rows "" = [] := by decide
    rw [hempty] at h
    cases h
  · rw [hrows] at h
    simp only [bind_eq_ok, reject_eq_ok, not_not, ne_eq] at h
    obtain ⟨row, hfields, ⟨⟩, hmark, h⟩ := h
    obtain ⟨hlength, hbar, hchars⟩ := fields_eq_ok hfields
    refine ⟨⟨line, row, hrows, hfields, ?_⟩, projected_of_parse h⟩
    have hmem : line ∈ rows output := by simp [hrows]
    have hnewline := not_newline_of_mem_lines (List.mem_of_mem_filter hmem)
    have hsub : ∀ field ∈ row.take 2 ++ row.drop 3, field ∈ row := by
      intro field hfield
      rcases List.mem_append.mp hfield with hfield | hfield
      · exact List.mem_of_mem_take hfield
      · exact List.mem_of_mem_drop hfield
    have hwidth : 6 ≤ rowWidth source := by
      unfold rowWidth
      split_ifs <;> omega
    have hshort : (row.take 2 ++ row.drop 3).length = rowWidth source := by
      rw [List.length_append, List.length_take, List.length_drop, hlength]
      omega
    have htold := statusOf_of_parse_join (List.ne_nil_of_length_pos (by omega)) hshort
      (fun field hfield => hbar field (hsub field hfield))
      (fun field hfield hbad => hnewline (hchars field (hsub field hfield) _ hbad)) h
    obtain ⟨hjob, hname, hpartition⟩ := statusOf_names htold
    obtain ⟨a, b, c, d, rest, rfl⟩ : ∃ a b c d rest, row = a :: b :: c :: d :: rest := by
      rcases row with _ | ⟨a, _ | ⟨b, _ | ⟨c, _ | ⟨d, rest⟩⟩⟩⟩
      · cases hlength
      · simp only [List.length_cons, List.length_nil] at hlength
        omega
      · simp only [List.length_cons, List.length_nil] at hlength
        omega
      · simp only [List.length_cons, List.length_nil] at hlength
        omega
      · exact ⟨a, b, c, d, rest, rfl⟩
    obtain ⟨other, hother, hsame⟩ : ∃ other, submissionMarker token = .ok other ∧
        other = marker := by
      cases hcase : submissionMarker token with
      | error error => rw [hcase] at hmarker; cases hmarker
      | ok other => rw [hcase] at hmarker; exact ⟨other, rfl, Except.ok.inj hmarker⟩
    refine ⟨hjob, hname, ?_, hpartition, htold⟩
    rw [hmark, hother, hsame]
  · rw [hrows] at h
    cases h

/-- An accounting status of a queued job is checked with what the queue says beside it. -/
lemma JobStatus.Projected.validate_queue (h : status.Projected .sacct) (hstate : status.state = .queued)
    {detail : QueueDetail} (hsource : detail.source = "slurm-squeue")
    (hreason : ∀ text, detail.reason = some text →
      printable text 1024 = true ∧ detail.availability = .observed) :
    JobStatus.validate { status with reason := detail.reason, queue := some detail } = .ok () := by
  have hobserved : status.observationSource = some .sacct :=
    congrArg (·.observationSource) h.derived
  rw [JobStatus.validate]
  simp only [hobserved]
  refine bind_eq_ok.mpr ⟨(), reject_eq_ok.mpr ?_, bind_eq_ok.mpr ⟨some status, h.parse, ?_⟩⟩
  · rintro ⟨⟨⟩, -⟩
  · refine bind_eq_ok.mpr ⟨_, bind_eq_ok.mpr ⟨(), reject_eq_ok.mpr ?_, rfl⟩,
      reject_eq_ok.mpr fun hne => hne (by simp only [hobserved])⟩
    rintro (hbad | hbad | hbad | hbad | hbad | ⟨hbad, hsome⟩)
    · exact hbad hstate
    · exact hbad rfl
    · exact hbad hsource
    · exact hbad rfl
    · obtain ⟨text, htext, hprintable⟩ := (Option.any_eq_true _ _).mp hbad
      exact of_decide_eq_true hprintable (hreason text htext).1
    · obtain ⟨text, htext⟩ := Option.isSome_iff_exists.mp hsome
      exact hbad (hreason text htext).2

end Owned

/-! ## What the reducer makes -/

/-- A status that was not known before: an own row of the queue tells it, or one of the accounting,
which for a queued job takes its reason from an own row of the queue. -/
inductive Fresh (scope : JobScope) (token : String) (observedAt : Option String)
    (accounting queue : Query) : JobStatus → Prop
  | queue {output : String} {status : JobStatus} (hqueue : queue = .success output)
      (howned : Owned scope token .squeue observedAt output status) :
      Fresh scope token observedAt accounting queue status
  | accounting {output : String} {status : JobStatus} (haccounting : accounting = .success output)
      (howned : Owned scope token .sacct observedAt output status) (hstate : status.state ≠ .queued) :
      Fresh scope token observedAt accounting queue status
  | queued {output : String} {status : JobStatus} (detail : QueueDetail)
      (haccounting : accounting = .success output)
      (howned : Owned scope token .sacct observedAt output status) (hstate : status.state = .queued)
      (hreason : ∀ reason, detail.reason = some reason → ∃ other told,
        queue = .success other ∧ Owned scope token .squeue observedAt other told ∧
          told.state = .queued ∧ told.reason = some reason) :
      Fresh scope token observedAt accounting queue
        { status with reason := detail.reason, queue := some detail }

/-- What an observation is, by the status known before. -/
structure Reduced (scope : JobScope) (token : String) (previous : Option JobStatus)
    (accounting queue : Query) (observedAt : Option String) (value : StatusObservation) : Prop where
  bound : value.status.scope = scope
  retained : value.retainedPrevious = true → previous = some value.status
  fresh : value.retainedPrevious = false →
    previous = none ∧ value.status = .unknown scope ∨
      Fresh scope token observedAt accounting queue value.status ∧
        value.status.validate = .ok () ∧ value.checkedAt = value.status.observedAt
  allowed : ∀ prior, previous = some prior →
    value.status = prior ∨ prior.state.allows value.status.state = true

section Reduced

variable {scope : JobScope} {token : String} {previous : Option JobStatus}
  {accounting queue : Query} {observedAt : Option String}

lemma retain_reduced (hprevious : ∀ prior, previous = some prior → prior.scope = scope)
    (diagnostic : Diagnostic) :
    Reduced scope token previous accounting queue observedAt
      (retain scope previous observedAt diagnostic) := by
  cases previous with
  | none =>
    refine ⟨rfl, ?_, fun _ => Or.inl ⟨rfl, rfl⟩, ?_⟩
    · rintro ⟨⟩
    · rintro prior ⟨⟩
  | some prior =>
    refine ⟨hprevious prior rfl, fun _ => rfl, ?_, ?_⟩
    · rintro ⟨⟩
    · rintro other ⟨⟩
      exact Or.inl rfl

lemma allows_of_not_regressive {status prior : JobStatus}
    (h : regressive previous status = false) (hprior : previous = some prior) :
    prior.state.allows status.state = true := by
  rw [regressive, hprior] at h
  simpa using h

lemma observeQueue_reduced (hprevious : ∀ prior, previous = some prior → prior.scope = scope) :
    Reduced scope token previous accounting queue observedAt
      (observeQueue scope previous observedAt (ownedParser token) queue) := by
  unfold observeQueue
  cases queue with
  | notRequested => exact retain_reduced hprevious _
  | failed => exact retain_reduced hprevious _
  | success output =>
    dsimp only
    rcases hparse : ownedParser token output scope .squeue observedAt with error | _ | status
    · cases error <;> exact retain_reduced hprevious _
    · exact retain_reduced hprevious _
    · dsimp only
      by_cases hregressive : regressive previous status = true
      · rw [if_pos hregressive]
        exact retain_reduced hprevious _
      · rw [if_neg hregressive]
        obtain ⟨howned, hprojected, hscope, hat⟩ := owned_of_parse hparse
        refine ⟨hscope, ?_, fun _ => Or.inr ⟨.queue rfl howned, hprojected.validate, hat.symm⟩, ?_⟩
        · rintro ⟨⟩
        · intro prior hprior
          exact Or.inr (allows_of_not_regressive (Bool.not_eq_true _ ▸ hregressive) hprior)

/-- What the queue adds to an accounting status is its own. -/
lemma queueDetail_eq {status : JobStatus} (hreason : status.reason = none) :
    ∃ detail : QueueDetail,
      (queueDetail scope observedAt (ownedParser token) status queue).1 =
        { status with reason := detail.reason, queue := some detail } ∧
      detail.source = "slurm-squeue" ∧
      ∀ reason, detail.reason = some reason → detail.availability = .observed ∧
        printable reason 1024 = true ∧ ∃ other told, queue = .success other ∧
          Owned scope token .squeue observedAt other told ∧ told.state = .queued ∧
            told.reason = some reason := by
  have hbare : ∀ availability : Availability,
      { status with queue := some ⟨"slurm-squeue", availability, none⟩ } =
        { status with
          reason := QueueDetail.reason ⟨"slurm-squeue", availability, none⟩
          queue := some ⟨"slurm-squeue", availability, none⟩ } := by
    intro availability
    rw [← hreason]
  have hnone : ∀ availability : Availability, ∃ detail : QueueDetail,
      { status with queue := some ⟨"slurm-squeue", availability, none⟩ } =
        { status with reason := detail.reason, queue := some detail } ∧
      detail.source = "slurm-squeue" ∧
      ∀ reason, detail.reason = some reason → detail.availability = .observed ∧
        printable reason 1024 = true ∧ ∃ other told, queue = .success other ∧
          Owned scope token .squeue observedAt other told ∧ told.state = .queued ∧
            told.reason = some reason := by
    intro availability
    refine ⟨⟨"slurm-squeue", availability, none⟩, hbare availability, rfl, ?_⟩
    rintro reason ⟨⟩
  unfold queueDetail
  cases queue with
  | notRequested => exact hnone _
  | failed => exact hnone _
  | success output =>
    dsimp only
    rcases hparse : ownedParser token output scope .squeue observedAt with error | _ | other
    · exact hnone _
    · exact hnone _
    · dsimp only
      by_cases hstate : other.state = .queued
      · rw [if_pos hstate]
        obtain ⟨howned, hprojected, -, -⟩ := owned_of_parse hparse
        refine ⟨⟨"slurm-squeue", .observed, other.reason⟩, rfl, rfl, ?_⟩
        intro reason hsome
        exact ⟨rfl, (hprojected.reason reason hsome).2.2.1, output, other, rfl, howned, hstate, hsome⟩
      · rw [if_neg hstate]
        exact hnone _

lemma observeAccounting_reduced (hprevious : ∀ prior, previous = some prior → prior.scope = scope)
    {output : String} {status : JobStatus} (haccounting : accounting = .success output)
    (hparse : ownedParser token output scope .sacct observedAt = .ok (some status)) :
    Reduced scope token previous accounting queue observedAt
      (observeAccounting scope previous observedAt (ownedParser token) status queue) := by
  obtain ⟨howned, hprojected, hscope, hat⟩ := owned_of_parse hparse
  have hreason : status.reason = none := by
    cases hsome : status.reason with
    | none => rfl
    | some text => exact absurd rfl (hprojected.reason text hsome).1
  unfold observeAccounting
  by_cases hregressive : regressive previous status = true
  · rw [if_pos hregressive]
    exact retain_reduced hprevious _
  · rw [if_neg hregressive]
    have hallows : ∀ prior, previous = some prior → prior.state.allows status.state = true :=
      fun prior hprior => allows_of_not_regressive (Bool.not_eq_true _ ▸ hregressive) hprior
    by_cases hstate : status.state = .queued
    · rw [if_pos hstate]
      obtain ⟨detail, hsame, hsource, hdetail⟩ :=
        @queueDetail_eq scope token queue observedAt status hreason
      rcases hpair : queueDetail scope observedAt (ownedParser token) status queue with ⟨next, diag⟩
      rw [hpair] at hsame
      obtain rfl : next = { status with reason := detail.reason, queue := some detail } := hsame
      refine ⟨hscope, ?_, fun _ => Or.inr ⟨?_, ?_, hat.symm⟩, fun prior hprior =>
        Or.inr (hallows prior hprior)⟩
      · rintro ⟨⟩
      · exact .queued detail haccounting howned hstate fun reason h => (hdetail reason h).2.2
      · exact hprojected.validate_queue hstate hsource fun text h =>
          ⟨(hdetail text h).2.1, (hdetail text h).1⟩
    · rw [if_neg hstate]
      refine ⟨hscope, ?_, fun _ => Or.inr ⟨.accounting haccounting howned hstate,
        hprojected.validate, hat.symm⟩, fun prior hprior => Or.inr (hallows prior hprior)⟩
      rintro ⟨⟩

lemma observeWith_reduced {value : StatusObservation}
    (h : observeWith scope previous observedAt (ownedParser token) accounting queue = .ok value) :
    Reduced scope token previous accounting queue observedAt value := by
  unfold observeWith at h
  simp only [bind_eq_ok, reject_eq_ok] at h
  obtain ⟨⟨⟩, -, ⟨⟩, -, ⟨⟩, hmatches, h⟩ := h
  have hprevious : ∀ prior, previous = some prior → prior.scope = scope := by
    intro prior hprior
    rw [hprior] at hmatches
    have hmatch : prior.matchesScope scope = true := by simpa using hmatches
    exact JobStatus.matchesScope_iff.mp hmatch
  cases accounting with
  | failed =>
    obtain rfl := Except.ok.inj h
    exact retain_reduced hprevious _
  | notRequested =>
    obtain rfl := Except.ok.inj h
    exact observeQueue_reduced hprevious
  | success output =>
    dsimp only at h
    rcases hparse : ownedParser token output scope .sacct observedAt with error | _ | status
    · rw [hparse] at h
      obtain rfl := Except.ok.inj h
      exact retain_reduced hprevious _
    · rw [hparse] at h
      obtain rfl := Except.ok.inj h
      exact observeQueue_reduced hprevious
    · rw [hparse] at h
      obtain rfl := Except.ok.inj h
      exact observeAccounting_reduced hprevious rfl hparse

/-- **One observation.** What the reducer returns is of the scope, and is the status known before,
the placeholder of a job not known before, or a fresh one that passes its check. -/
theorem observeOwnedStatus_reduced {value : StatusObservation}
    (h : observeOwnedStatus scope token previous accounting queue observedAt = .ok value) :
    Reduced scope token previous accounting queue observedAt value := by
  unfold observeOwnedStatus at h
  obtain ⟨marker, -, h⟩ := bind_eq_ok.mp h
  dsimp only at h
  split_ifs at h with homits
  · obtain ⟨inner, hinner, h⟩ := bind_eq_ok.mp h
    have hreduced := observeWith_reduced hinner
    -- Without the accounting, a fresh status is the queue's.
    have hfresh : ∀ status, Fresh scope token observedAt .notRequested queue status →
        Fresh scope token observedAt accounting queue status := by
      intro status hstatus
      cases hstatus with
      | queue hqueue howned => exact .queue hqueue howned
      | accounting haccounting => cases haccounting
      | queued detail haccounting => cases haccounting
    have hwide : Reduced scope token previous accounting queue observedAt inner :=
      { hreduced with
        fresh := fun hnew => (hreduced.fresh hnew).imp_right fun h => ⟨hfresh _ h.1, h.2⟩ }
    obtain rfl := Except.ok.inj h
    split_ifs
    · exact ⟨hwide.bound, hwide.retained, hwide.fresh, hwide.allowed⟩
    · exact hwide
  · exact observeWith_reduced h

end Reduced

end Slurm

end ExperimentControl
