import ExperimentControl.Json.Literals
import ExperimentControl.Library.Rows
import ExperimentControl.RunState

/-!
# Scheduler rows

The status of one job as the scheduler's tables tell it, of `core/src/slurm/observation.rs`: a row is
accepted when it is the only one and names the job, its name and its partition, and an owned row
carries the submission marker as well.

* `parseJobStatus`, `parseOwnedJobStatus` — a table's one row, as a status.
* `JobStatus.validate` — a status is what the row it is written as says.
* `JobStatus.Projected` — what a parsed status is, with **`projected_of_parse`** and
  **`JobStatus.Projected.parse`**: a parsed status is written and parsed as itself.
-/

namespace ExperimentControl

namespace Slurm

inductive Error
  | configuration (what : String)
  | identity (what : String)
  | evidence (what : String)
  | ownership
  | ambiguous
  | unavailable
  deriving DecidableEq, Repr

def MAX_OUTPUT : ℕ := 1024 * 1024

/-! ## Jobs -/

/-- A job, or one element of an array of jobs. -/
def isJobId (value : String) : Bool :=
  byteLen value ≤ 64 ∧ (split '_' value).length ≤ 2 ∧
    (split '_' value).all fun part => part ≠ "" ∧ part.toList.all Char.isDigit

structure JobId where
  value : String
  valid : isJobId value = true
  deriving DecidableEq

def JobId.parse (value : String) : Except Error JobId :=
  if h : isJobId value = true then .ok ⟨value, h⟩ else .error (.identity "job_id")

structure JobScope where
  sshAlias : String
  jobId : JobId
  schedulerName : String
  partition : String
  deriving DecidableEq

def JobScope.validate (scope : JobScope) : Except Error Unit :=
  reject (¬component scope.sshAlias ∨ ¬component scope.partition ∨
    ¬printable scope.schedulerName 128) (.identity "job scope")

/-! ## States -/

inductive FailureClass
  | none
  | transport
  | scheduler
  | preemption
  | resource
  | configuration
  | model
  | evaluation
  | unknown
  deriving DecidableEq, Repr

/-- The word of a scheduler state, without its marks. -/
def stateWord (raw : String) : String := trimEndMatches '+' (firstWord raw)

def normalizeState (raw : String) (exitCode : Option String) : RunState :=
  let raw := String.ofList ((stateWord raw).toList.map Char.toUpper)
  if raw ∈ ["PENDING", "CONFIGURING", "REQUEUED", "REQUEUE_FED"] then .queued
  else if raw ∈ ["RUNNING", "COMPLETING"] then .running
  else if raw = "COMPLETED" then
    if exitCode = none ∨ exitCode = some "" ∨ exitCode = some "0:0" then .succeeded else .failed
  else if raw = "PREEMPTED" then .preempted
  else if raw ∈ ["FAILED", "NODE_FAIL", "OUT_OF_MEMORY", "TIMEOUT"] then .failed
  else if raw = "CANCELLED" then .cancelled
  else .unknown

def failureClass (raw : String) : Option FailureClass :=
  if raw = "PREEMPTED" then some .preemption
  else if raw ∈ ["NODE_FAIL", "BOOT_FAIL"] then some .scheduler
  else if raw ∈ ["OUT_OF_MEMORY", "TIMEOUT"] then some .resource
  else none

/-! ## Statuses -/

inductive StatusSource
  | sacct
  | squeue
  | scontrol
  deriving DecidableEq, Repr

inductive Availability
  | observed
  | notObserved
  | unavailable
  deriving DecidableEq, Repr

structure QueueDetail where
  source : String
  availability : Availability
  reason : Option String
  deriving DecidableEq

structure JobStatus where
  sshAlias : String
  jobId : JobId
  schedulerName : String
  partition : String
  state : RunState
  rawState : String
  elapsed : Option String
  exitCode : Option String
  reason : Option String
  failureClass : Option FailureClass
  observationSource : Option StatusSource
  observedAt : Option String
  queue : Option QueueDetail
  deriving DecidableEq

/-! ## Rows -/

/-- The lines of a table that are not blank. -/
def rows (output : String) : List String := (lines output).filter fun line => trim line ≠ ""

/-- The fields of a line, of which there are `count`; the line may end with one more separator. -/
def fields (line : String) (count : ℕ) : Except Error (List String) := do
  let values := split '|' line
  let values :=
    if values.length = count + 1 ∧ values.getLast? = some "" then values.dropLast else values
  reject (values.length ≠ count) (.evidence "field count")
  .ok values

/-- A number of an exit code, which is parsed as one of sixteen bits. -/
def isExitNumber (text : String) : Bool :=
  text ≠ "" ∧ byteLen text ≤ 5 ∧ text.toList.all Char.isDigit ∧
    text.toList.foldl (fun n c => 10 * n + (c.toNat - 48)) 0 < 2 ^ 16

def exitCode (value : String) : Bool :=
  (splitOnce ':' value).any fun (code, signal) => isExitNumber code ∧ isExitNumber signal

/-- A character of a scheduler state. -/
def isStateChar (c : Char) : Bool := c.isAlphanum ∨ c = '_'

/-- A field that may be empty. -/
def nonempty (text : String) : Option String := if text = "" then none else some text

/-- The blocker of a pending job. After allocation the field holds something else. -/
def pendingReason (raw : String) (source : StatusSource) (field : String) :
    Except Error (Option String) := do
  if source ≠ .sacct ∧ raw ∈ ["PENDING", "CONFIGURING"] ∧ trim field ≠ "" then
    reject (¬printable (trim field) 1024) (.evidence "pending reason")
    .ok (some (trim field))
  else .ok none

/-- The status a row tells. -/
def statusOf (row : List String) (scope : JobScope) (source : StatusSource)
    (observedAt : Option String) : Except Error JobStatus := do
  let field := fun i => row.getD i ""
  reject (field 0 ≠ scope.jobId.value ∨ field 1 ≠ scope.schedulerName ∨
    field 2 ≠ scope.partition) (.evidence "foreign job scope")
  let raw := stateWord (field 3)
  reject (¬printable raw 64 ∨ ¬raw.toList.all isStateChar) (.evidence "scheduler state")
  reject (field 4 ≠ "" ∧ ¬printable (field 4) 64) (.evidence "elapsed")
  reject (field 5 ≠ "" ∧ ¬exitCode (field 5)) (.evidence "exit code")
  let reason ← pendingReason raw source (field 6)
  -- The exit field of the queue is a placeholder.
  let observedExit := if source = .squeue then none else nonempty (field 5)
  .ok
    { sshAlias := scope.sshAlias
      jobId := scope.jobId
      schedulerName := scope.schedulerName
      partition := scope.partition
      state := normalizeState raw observedExit
      rawState := raw
      elapsed := nonempty (field 4)
      exitCode := observedExit
      reason := reason
      failureClass := failureClass raw
      observationSource := some source
      observedAt := observedAt
      queue := none }

/-- The fields of a row by its source: accounting has no reason. -/
def rowWidth (source : StatusSource) : ℕ := if source = .sacct then 6 else 7

def parseJobStatus (output : String) (scope : JobScope) (source : StatusSource)
    (observedAt : Option String) : Except Error (Option JobStatus) := do
  scope.validate
  reject (byteLen output > MAX_OUTPUT) (.evidence "status size")
  reject (observedAt.any fun text => ¬printable text 64) (.evidence "observation timestamp")
  match rows output with
  | [] => .ok none
  | [line] => do
      let row ← fields line (rowWidth source)
      let status ← statusOf row scope source observedAt
      .ok (some status)
  | _ => .error (.evidence "duplicate status row")

/-- Status and ownership of one row: the third field is the submission marker. -/
def parseOwnedJobStatus (output : String) (scope : JobScope) (token : String)
    (source : StatusSource) (observedAt : Option String) : Except Error (Option JobStatus) := do
  let marker ← (submissionMarker token).mapError fun _ => .ownership
  reject (byteLen output > MAX_OUTPUT) (.evidence "status size")
  match rows output with
  | [] => parseJobStatus "" scope source observedAt
  | [line] => do
      let row ← fields line (rowWidth source + 1)
      reject (row.getD 2 "" ≠ marker) .ownership
      parseJobStatus (join '|' (row.take 2 ++ row.drop 3)) scope source observedAt
  | _ => .error .ambiguous

/-! ## The check of a status -/

namespace JobStatus

def scope (status : JobStatus) : JobScope :=
  ⟨status.sshAlias, status.jobId, status.schedulerName, status.partition⟩

/-- The row a status is written as. -/
def row (status : JobStatus) (source : StatusSource) : List String :=
  [status.jobId.value, status.schedulerName, status.partition, status.rawState,
    status.elapsed.getD "", status.exitCode.getD ""] ++
    if source = .sacct then [] else [status.reason.getD ""]

/-- What the queue adds to an accounting status, put beside what its row says. -/
def withQueue (status parsed : JobStatus) (source : StatusSource) : Except Error JobStatus :=
  match status.queue with
  | none => .ok parsed
  | some queue => do
      reject (status.state ≠ .queued ∨ source ≠ .sacct ∨ queue.source ≠ "slurm-squeue" ∨
        queue.reason ≠ status.reason ∨ (status.reason.any fun text => ¬printable text 1024) ∨
        queue.availability ≠ .observed ∧ status.reason.isSome) (.evidence "queue detail")
      .ok { parsed with reason := status.reason, queue := status.queue }

def validate (status : JobStatus) : Except Error Unit :=
  match status.observationSource with
  | none => .error (.evidence "status source")
  | some source => do
      reject (source = .squeue ∧ status.exitCode.isSome) (.evidence "unobserved queue exit code")
      let output := join '|' (status.row source)
      match ← parseJobStatus output status.scope source status.observedAt with
      | none => .error (.evidence "missing status")
      | some parsed => do
          let parsed ← status.withQueue parsed source
          reject (parsed ≠ status) (.evidence "status projection")

end JobStatus

/-! ## What a parsed status is -/

/-- A character that stands for itself in a row: no space, no separator, no mark. -/
def isWordChar (c : Char) : Bool := ¬isWhitespace c ∧ ¬isControl c ∧ c ≠ '|' ∧ c ≠ '+'

lemma isWordChar_of_isIdChar {c : Char} (h : isIdChar c = true) : isWordChar c = true := by
  have hall : ∀ n < 128, isIdChar (Char.ofNat n) = true → isWordChar (Char.ofNat n) = true := by
    decide +kernel
  have hchar : Char.ofNat c.toNat = c := Char.ofNat_toNat c
  have hword := hall c.toNat (toNat_lt_of_isIdChar h)
  rw [hchar] at hword
  exact hword h

lemma isWordChar_of_isStateChar {c : Char} (h : isStateChar c = true) : isWordChar c = true := by
  refine isWordChar_of_isIdChar ?_
  simp only [isStateChar, isIdChar, decide_eq_true_eq] at h ⊢
  tauto

lemma isIdChar_of_isDigit {c : Char} (h : c.isDigit = true) : isIdChar c = true := by
  simp [isIdChar, Char.isAlphanum, h]

lemma isWordChar_of_mem_jobId {value : String} (h : isJobId value = true) :
    ∀ c ∈ value.toList, isWordChar c = true := by
  simp only [isJobId, decide_eq_true_eq] at h
  obtain ⟨-, -, hparts⟩ := h
  intro c hc
  have hjoin : value = join '_' (split '_' value) := by
    apply String.toList_inj.mp
    have hsame : String.toList ∘ String.ofList = id := funext fun s => String.toList_ofList
    rw [join, split, List.map_map, hsame, List.map_id, String.toList_ofList,
      List.intercalate_splitOn]
  rw [hjoin] at hc
  rcases mem_join hc with rfl | ⟨part, hpart, hmem⟩
  · decide
  · have hdigits := List.all_eq_true.mp hparts part hpart
    simp only [decide_eq_true_eq] at hdigits
    exact isWordChar_of_isIdChar (isIdChar_of_isDigit (List.all_eq_true.mp hdigits.2 c hmem))

lemma isWordChar_of_mem_exitCode {value : String} (h : exitCode value = true) :
    (∀ c ∈ value.toList, isWordChar c = true) ∧ byteLen value ≤ 11 := by
  obtain ⟨⟨code, signal⟩, hsplit, hnumbers⟩ := (Option.any_eq_true _ _).mp h
  simp only [isExitNumber, decide_eq_true_eq] at hnumbers
  obtain ⟨⟨-, hcode, hcode', -⟩, -, hsignal, hsignal', -⟩ := hnumbers
  have hvalue := splitOnce_eq_some hsplit
  refine ⟨fun c hc => ?_, ?_⟩
  · rw [hvalue, List.mem_append, List.mem_cons] at hc
    rcases hc with hc | rfl | hc
    · exact isWordChar_of_isIdChar (isIdChar_of_isDigit (List.all_eq_true.mp hcode' c hc))
    · decide
    · exact isWordChar_of_isIdChar (isIdChar_of_isDigit (List.all_eq_true.mp hsignal' c hc))
  · have htext : value = code ++ ":" ++ signal := by
      apply String.toList_inj.mp
      rw [hvalue, String.toList_append, String.toList_append, List.append_assoc]
      rfl
    rw [htext, byteLen_append, byteLen_append]
    have hcolon : byteLen ":" = 1 := by decide
    omega

/-- A text without control characters is on one line. -/
lemma not_mem_of_printable {text : String} {limit : ℕ} (h : printable text limit = true) :
    '\n' ∉ text.toList := by
  simp only [printable, decide_eq_true_eq] at h
  intro hmem
  exact h.2.2 (List.any_eq_true.mpr ⟨'\n', hmem, by decide⟩)

/-- What a parsed status is: the row it is written as is its own, and the rest follows from it. -/
structure JobStatus.Projected (status : JobStatus) (source : StatusSource) : Prop where
  scope : status.scope.validate = .ok ()
  observedAt : ∀ text, status.observedAt = some text → printable text 64 = true
  /-- No field of the row holds a separator. -/
  separate : ∀ field ∈ status.row source, '|' ∉ field.toList
  state : printable status.rawState 64 = true ∧ status.rawState.toList.all isStateChar = true
  elapsed : ∀ text, status.elapsed = some text → printable text 64 = true
  exitCode : ∀ text, status.exitCode = some text → Slurm.exitCode text = true
  unobserved : source = .squeue → status.exitCode = none
  reason : ∀ text, status.reason = some text → source ≠ .sacct ∧
    status.rawState ∈ ["PENDING", "CONFIGURING"] ∧ printable text 1024 = true ∧ trim text = text
  derived : status = { status with
    state := normalizeState status.rawState status.exitCode
    failureClass := Slurm.failureClass status.rawState
    observationSource := some source
    queue := none }

lemma nonempty_eq_some {text value : String} :
    nonempty text = some value ↔ text = value ∧ value ≠ "" := by
  unfold nonempty
  by_cases h : text = ""
  · rw [if_pos h]
    constructor
    · intro hnone
      cases hnone
    · rintro ⟨rfl, hne⟩
      exact absurd h hne
  · rw [if_neg h, Option.some.injEq]
    constructor
    · rintro rfl
      exact ⟨rfl, h⟩
    · exact And.left

lemma pendingReason_eq_ok {raw field : String} {source : StatusSource} {reason : Option String}
    (h : pendingReason raw source field = .ok reason) :
    reason = none ∨ reason = some (trim field) ∧ source ≠ .sacct ∧
      raw ∈ ["PENDING", "CONFIGURING"] ∧ printable (trim field) 1024 = true := by
  unfold pendingReason at h
  by_cases hpending : source ≠ .sacct ∧ raw ∈ ["PENDING", "CONFIGURING"] ∧ trim field ≠ ""
  · rw [if_pos hpending] at h
    simp only [bind_eq_ok, reject_eq_ok, not_not] at h
    obtain ⟨⟨⟩, hprintable, h⟩ := h
    exact Or.inr ⟨(Except.ok.inj h).symm, hpending.1, hpending.2.1, hprintable⟩
  · rw [if_neg hpending] at h
    exact Or.inl (Except.ok.inj h).symm

/-- The fields of a line are as many as asked for, without a separator, and what stands in them
stands in the line. -/
lemma fields_eq_ok {line : String} {count : ℕ} {row : List String}
    (h : fields line count = .ok row) : row.length = count ∧
      (∀ field ∈ row, '|' ∉ field.toList) ∧ ∀ field ∈ row, ∀ c ∈ field.toList, c ∈ line.toList := by
  unfold fields at h
  simp only [bind_eq_ok, reject_eq_ok, not_not, ne_eq] at h
  obtain ⟨⟨⟩, hlength, h⟩ := h
  obtain rfl := Except.ok.inj h
  have hsplit : ∀ field ∈ (if (split '|' line).length = count + 1 ∧
      (split '|' line).getLast? = some "" then (split '|' line).dropLast else split '|' line),
      field ∈ split '|' line := by
    intro field hfield
    split_ifs at hfield with hlast
    · exact List.mem_of_mem_dropLast hfield
    · exact hfield
  exact ⟨hlength, fun field hfield => not_mem_of_mem_split (hsplit field hfield),
    fun field hfield c hc => mem_of_mem_split (hsplit field hfield) hc⟩

lemma JobScope.validate_eq_ok {scope : JobScope} {u : Unit} : scope.validate = .ok u ↔
    component scope.sshAlias = true ∧ component scope.partition = true ∧
      printable scope.schedulerName 128 = true := by
  simp only [JobScope.validate, reject_eq_ok, not_or, not_not]

lemma not_bar_of_component {text : String} (h : component text = true) : '|' ∉ text.toList := by
  simp only [component, decide_eq_true_eq] at h
  intro hmem
  have hbar := List.all_eq_true.mp h.2.2 '|' hmem
  revert hbar
  decide

section Parsing

variable {output : String} {scope : JobScope} {source : StatusSource}
  {observedAt : Option String} {status : JobStatus}

/-- The fields of the row of a projected status are those of the row it was told by. -/
lemma projected_of_statusOf {row : List String} (hscope : scope.validate = .ok ())
    (hat : ∀ text, observedAt = some text → printable text 64 = true)
    (hrow : ∀ field ∈ row, '|' ∉ field.toList)
    (h : statusOf row scope source observedAt = .ok status) :
    status.Projected source ∧ status.scope = scope ∧ status.observedAt = observedAt := by
  have hfield : ∀ i, '|' ∉ (row.getD i "").toList := by
    intro i
    rw [List.getD_eq_getElem?_getD]
    cases hget : row[i]? with
    | none => exact List.not_mem_nil
    | some field => exact hrow field (List.mem_of_getElem? hget)
  unfold statusOf at h
  simp only [bind_eq_ok, reject_eq_ok, not_or, not_not, not_and, ne_eq] at h
  obtain ⟨⟨⟩, ⟨-, hname, -⟩, ⟨⟩, hraw, ⟨⟩, helapsed, ⟨⟩, hexit, reason, hreason, h⟩ := h
  have hraw' := hraw
  generalize stateWord (row.getD 3 "") = raw at hraw hraw' hreason h
  obtain rfl := Except.ok.inj h
  have hscope' := JobScope.validate_eq_ok.mp hscope
  have hobserved : ∀ text, (if source = .squeue then none else nonempty (row.getD 5 "")) =
      some text → text = row.getD 5 "" ∧ text ≠ "" := by
    intro text htext
    split_ifs at htext with hqueue
    obtain ⟨hsame, hne⟩ := nonempty_eq_some.mp htext
    exact ⟨hsame.symm, hne⟩
  refine ⟨⟨hscope, hat, ?_, hraw', ?_, ?_, ?_, ?_, rfl⟩, rfl, rfl⟩
  · have hshown : ∀ text : Option String, (∀ shown, text = some shown → '|' ∉ shown.toList) →
        '|' ∉ (text.getD "").toList := by
      rintro (_ | shown) hshown
      · exact List.not_mem_nil
      · exact hshown shown rfl
    have hreason' : ∀ shown, reason = some shown → '|' ∉ shown.toList := by
      rintro shown hshown' hbar
      rcases pendingReason_eq_ok hreason with hnone | ⟨hsome, -⟩
      · rw [hnone] at hshown'
        cases hshown'
      · rw [hsome] at hshown'
        obtain rfl := Option.some.inj hshown'
        exact hfield 6 (mem_of_mem_trim hbar)
    have hlast : ∀ field ∈ (if source = .sacct then [] else [reason.getD ""]),
        '|' ∉ field.toList := by
      intro field hmem
      split_ifs at hmem with hsource
      · cases hmem
      · rw [List.mem_singleton.mp hmem]
        exact hshown _ hreason'
    intro field hmem
    simp only [JobStatus.row, List.mem_append, List.mem_cons, List.not_mem_nil, or_false] at hmem
    rcases hmem with (rfl | rfl | rfl | rfl | rfl | rfl) | hmem
    · intro hbar
      have hword := isWordChar_of_mem_jobId scope.jobId.valid '|' hbar
      revert hword
      decide
    · rw [← hname]
      exact hfield 1
    · exact not_bar_of_component hscope'.2.1
    · intro hbar
      have hword := isWordChar_of_isStateChar (List.all_eq_true.mp hraw'.2 '|' hbar)
      revert hword
      decide
    · exact hshown _ fun shown h => by
        obtain ⟨rfl, -⟩ := nonempty_eq_some.mp h
        exact hfield 4
    · exact hshown _ fun shown h => by
        obtain ⟨rfl, -⟩ := hobserved shown h
        exact hfield 5
    · exact hlast field hmem
  · intro text htext
    obtain ⟨rfl, hne⟩ := nonempty_eq_some.mp htext
    exact helapsed hne
  · intro text htext
    obtain ⟨rfl, hne⟩ := hobserved text htext
    exact hexit hne
  · intro hqueue
    simp only [hqueue, if_true]
  · intro text htext
    rcases pendingReason_eq_ok hreason with hnone | ⟨hsome, hsource, hpending, hprintable⟩
    · rw [hnone] at htext
      cases htext
    · rw [hsome] at htext
      obtain rfl := Option.some.inj htext
      exact ⟨hsource, hpending, hprintable, trim_trim _⟩

/-- **A parsed status is projected**, and of the scope it was parsed for. -/
theorem projected_of_parse (h : parseJobStatus output scope source observedAt = .ok (some status)) :
    status.Projected source ∧ status.scope = scope ∧ status.observedAt = observedAt := by
  unfold parseJobStatus at h
  simp only [bind_eq_ok, reject_eq_ok, Option.any_eq_true, not_exists, not_and, decide_eq_true_eq,
    not_not] at h
  obtain ⟨⟨⟩, hscope, ⟨⟩, -, ⟨⟩, hat, h⟩ := h
  rcases hrows : rows output with _ | ⟨line, _ | ⟨other, rest⟩⟩
  · rw [hrows] at h
    cases h
  · rw [hrows] at h
    simp only [bind_eq_ok] at h
    obtain ⟨row, hfields, told, htold, h⟩ := h
    obtain rfl := Option.some.inj (Except.ok.inj h)
    exact projected_of_statusOf hscope hat (fields_eq_ok hfields).2.1 htold
  · rw [hrows] at h
    cases h

lemma byteLen_le_of_printable {text : String} {limit : ℕ} (h : printable text limit = true) :
    byteLen text ≤ limit := by
  simp only [printable, decide_eq_true_eq] at h
  exact h.2.1

/-- A field that may be missing is not longer than what it may be. -/
lemma byteLen_getD_le {text : Option String} {limit : ℕ}
    (h : ∀ shown, text = some shown → byteLen shown ≤ limit) : byteLen (text.getD "") ≤ limit := by
  rcases text with _ | shown
  · exact Nat.zero_le limit
  · exact h shown rfl

lemma not_newline_getD {text : Option String}
    (h : ∀ shown, text = some shown → '\n' ∉ shown.toList) : '\n' ∉ (text.getD "").toList := by
  rcases text with _ | shown
  · exact List.not_mem_nil
  · exact h shown rfl

lemma not_newline_of_word {text : String} (h : ∀ c ∈ text.toList, isWordChar c = true) :
    '\n' ∉ text.toList := by
  intro hmem
  have hword := h '\n' hmem
  revert hword
  decide

/-- Fields that are joined to one line that is not blank are one row. -/
lemma rows_join {row : List String} (hsome : ∃ c ∈ (join '|' row).toList, isWhitespace c = false)
    (hline : '\n' ∉ (join '|' row).toList) : rows (join '|' row) = [join '|' row] := by
  obtain ⟨c, hc, hspace⟩ := hsome
  have hlines : lines (join '|' row) = [join '|' row] := by
    refine lines_single ?_ hline
    intro hnone
    rw [hnone] at hc
    cases hc
  rw [rows, hlines, List.filter_cons_of_pos]
  · rfl
  · exact decide_eq_true (trim_ne_empty hc hspace)

/-- Fields without a separator are read back from their row. -/
lemma fields_join {row : List String} (hne : row ≠ []) (hseparate : ∀ field ∈ row, '|' ∉ field.toList)
    {count : ℕ} (hlength : row.length = count) : fields (join '|' row) count = .ok row := by
  unfold fields
  rw [split_join hne hseparate]
  simp [hlength, reject]

namespace JobStatus

/-- The row of a projected status is one line of bounded length. -/
lemma Projected.line (h : status.Projected source) :
    byteLen (join '|' (status.row source)) ≤ MAX_OUTPUT ∧
      '\n' ∉ (join '|' (status.row source)).toList := by
  obtain ⟨-, hpartition, hname⟩ := JobScope.validate_eq_ok.mp h.scope
  change component status.partition = true at hpartition
  change printable status.schedulerName 128 = true at hname
  have hjob : byteLen status.jobId.value ≤ 64 := by
    have hvalid := status.jobId.valid
    simp only [isJobId, decide_eq_true_eq] at hvalid
    exact hvalid.1
  have hname' := byteLen_le_of_printable hname
  obtain ⟨hclear, hpartition'⟩ := clear_of_component hpartition
  have hraw := byteLen_le_of_printable h.state.1
  have helapsed : byteLen (status.elapsed.getD "") ≤ 64 :=
    byteLen_getD_le fun text htext => byteLen_le_of_printable (h.elapsed text htext)
  have hexit : byteLen (status.exitCode.getD "") ≤ 11 :=
    byteLen_getD_le fun text htext => (isWordChar_of_mem_exitCode (h.exitCode text htext)).2
  have hreason : byteLen (status.reason.getD "") ≤ 1024 :=
    byteLen_getD_le fun text htext => byteLen_le_of_printable (h.reason text htext).2.2.1
  refine ⟨?_, ?_⟩
  · refine (length_utf8_join_le (by decide) _).trans ?_
    unfold MAX_OUTPUT
    have hlast : ((if source = .sacct then [] else [status.reason.getD ""]).map
        fun field => byteLen field + 1).sum ≤ 1025 := by
      split_ifs
      · exact Nat.zero_le _
      · simp only [List.map_cons, List.map_nil, List.sum_cons, List.sum_nil]
        omega
    change ((status.row source).map fun field => byteLen field + 1).sum ≤ _
    rw [row, List.map_append, List.sum_append]
    simp only [List.map_cons, List.map_nil, List.sum_cons, List.sum_nil]
    omega
  · have hpartition'' : '\n' ∉ status.partition.toList := by
      intro hmem
      have hline := List.all_eq_true.mp hclear '\n' hmem
      revert hline
      decide
    intro hmem
    rcases mem_join hmem with hbar | ⟨field, hfield, hline⟩
    · cases hbar
    · simp only [row, List.mem_append, List.mem_cons, List.not_mem_nil, or_false] at hfield
      rcases hfield with (rfl | rfl | rfl | rfl | rfl | rfl) | hlast
      · exact not_newline_of_word (isWordChar_of_mem_jobId status.jobId.valid) hline
      · exact not_mem_of_printable hname hline
      · exact hpartition'' hline
      · exact not_mem_of_printable h.state.1 hline
      · exact not_newline_getD (fun text htext => not_mem_of_printable (h.elapsed text htext)) hline
      · exact not_newline_getD (fun text htext =>
          not_newline_of_word (isWordChar_of_mem_exitCode (h.exitCode text htext)).1) hline
      · split_ifs at hlast with hsource
        · cases hlast
        · obtain rfl := List.mem_singleton.mp hlast
          exact not_newline_getD
            (fun text htext => not_mem_of_printable (h.reason text htext).2.2.1) hline

/-- The row of a status is read as its fields. -/
lemma Projected.fields_row (h : status.Projected source) :
    rows (join '|' (status.row source)) = [join '|' (status.row source)] ∧
      fields (join '|' (status.row source)) (rowWidth source) = .ok (status.row source) := by
  have hlength : (status.row source).length = rowWidth source := by
    rw [row, rowWidth]
    split_ifs <;> rfl
  -- The job id stands first, and is not blank.
  have hfirst : ∃ c ∈ (join '|' (status.row source)).toList, isWhitespace c = false := by
    have hvalid := status.jobId.valid
    have hword := isWordChar_of_mem_jobId hvalid
    have hsome : status.jobId.value.toList ≠ [] := by
      intro hnil
      have hempty : status.jobId.value = "" := String.toList_inj.mp hnil
      rw [hempty] at hvalid
      revert hvalid
      decide
    obtain ⟨c, rest, hchars⟩ := List.exists_cons_of_ne_nil hsome
    have hc : c ∈ status.jobId.value.toList := by simp [hchars]
    refine ⟨c, ?_, ?_⟩
    · rw [join, String.toList_ofList, row, List.map_append, List.map_cons, List.map_cons,
        List.cons_append, List.cons_append, List.intercalate_cons_cons]
      exact List.mem_append_left _ (List.mem_append_left _ hc)
    · have hspace := hword c hc
      simp only [isWordChar, decide_eq_true_eq, Bool.not_eq_true] at hspace
      exact hspace.1
  refine ⟨rows_join hfirst h.line.2, fields_join ?_ h.separate hlength⟩
  simp [row]

lemma Projected.stateWord_eq (h : status.Projected source) :
    stateWord status.rawState = status.rawState := by
  have hword : ∀ c ∈ status.rawState.toList, isWordChar c = true := fun c hc =>
    isWordChar_of_isStateChar (List.all_eq_true.mp h.state.2 c hc)
  simp only [isWordChar, decide_eq_true_eq, Bool.not_eq_true] at hword
  rw [stateWord, firstWord_eq_self fun c hc => (hword c hc).1]
  exact trimEndMatches_eq_self fun hplus => (hword '+' hplus).2.2.2 rfl

lemma Projected.pendingReason_eq (h : status.Projected source) :
    pendingReason status.rawState source ((status.row source).getD 6 "") = .ok status.reason := by
  have hfield : (status.row source).getD 6 "" =
      if source = .sacct then "" else status.reason.getD "" := by
    rw [row]
    split_ifs <;> rfl
  have htrim : trim "" = "" := by decide
  rw [hfield, pendingReason]
  cases hreason : status.reason with
  | none =>
    rw [if_neg]
    rintro ⟨-, -, hblank⟩
    refine hblank ?_
    split_ifs <;> exact htrim
  | some text =>
    obtain ⟨hsource, hpending, hprintable, hsame⟩ := h.reason text hreason
    have hsome : text ≠ "" := by
      simp only [printable, decide_eq_true_eq] at hprintable
      exact hprintable.1
    rw [if_neg hsource, Option.getD_some, hsame, if_pos ⟨hsource, hpending, hsome⟩, reject,
      if_neg (not_not.mpr hprintable), ok_bind]

lemma nonempty_getD {text : Option String} (h : ∀ shown, text = some shown → shown ≠ "") :
    nonempty (text.getD "") = text := by
  rcases text with _ | shown
  · rfl
  · rw [Option.getD_some, nonempty, if_neg (h shown rfl)]

lemma ne_empty_of_printable {text : String} {limit : ℕ} (h : printable text limit = true) :
    text ≠ "" := by
  simp only [printable, decide_eq_true_eq] at h
  exact h.1

/-- The row of a projected status tells the status. -/
lemma Projected.statusOf_row (h : status.Projected source) :
    statusOf (status.row source) status.scope source status.observedAt = .ok status := by
  have helapsed : nonempty (status.elapsed.getD "") = status.elapsed :=
    nonempty_getD fun text htext => ne_empty_of_printable (h.elapsed text htext)
  have hexit : nonempty (status.exitCode.getD "") = status.exitCode := by
    refine nonempty_getD fun text htext hnone => ?_
    have hcode := h.exitCode text htext
    rw [hnone] at hcode
    revert hcode
    decide
  have hobserved : (if source = .squeue then none else nonempty (status.exitCode.getD "")) =
      status.exitCode := by
    by_cases hqueue : source = .squeue
    · rw [if_pos hqueue, h.unobserved hqueue]
    · rw [if_neg hqueue, hexit]
  have hstate : stateWord ((status.row source).getD 3 "") = status.rawState := h.stateWord_eq
  unfold statusOf
  simp only [hstate]
  refine bind_eq_ok.mpr ⟨(), reject_eq_ok.mpr ?_, bind_eq_ok.mpr ⟨(), reject_eq_ok.mpr ?_,
    bind_eq_ok.mpr ⟨(), reject_eq_ok.mpr ?_, bind_eq_ok.mpr ⟨(), reject_eq_ok.mpr ?_,
    bind_eq_ok.mpr ⟨status.reason, h.pendingReason_eq, ?_⟩⟩⟩⟩⟩
  · rintro (hjob | hname | hpartition)
    · exact hjob rfl
    · exact hname rfl
    · exact hpartition rfl
  · rintro (hprintable | hchars)
    · exact hprintable h.state.1
    · exact hchars h.state.2
  · rintro ⟨hsome, hprintable⟩
    change status.elapsed.getD "" ≠ "" at hsome
    cases htext : status.elapsed with
    | none => rw [htext] at hsome; exact hsome rfl
    | some text =>
      change ¬printable (status.elapsed.getD "") 64 = true at hprintable
      rw [htext] at hprintable
      exact hprintable (h.elapsed text htext)
  · rintro ⟨hsome, hcode⟩
    change status.exitCode.getD "" ≠ "" at hsome
    cases htext : status.exitCode with
    | none => rw [htext] at hsome; exact hsome rfl
    | some text =>
      change ¬Slurm.exitCode (status.exitCode.getD "") = true at hcode
      rw [htext] at hcode
      exact hcode (h.exitCode text htext)
  · have hrow₄ : (status.row source).getD 4 "" = status.elapsed.getD "" := rfl
    have hrow₅ : (status.row source).getD 5 "" = status.exitCode.getD "" := rfl
    simp only [hrow₄, hrow₅, hobserved, helapsed]
    exact congrArg Except.ok h.derived.symm

/-- **A projected status is parsed as itself** from the row it is written as. -/
theorem Projected.parse (h : status.Projected source) :
    parseJobStatus (join '|' (status.row source)) status.scope source status.observedAt =
      .ok (some status) := by
  obtain ⟨hrows, hfields⟩ := h.fields_row
  refine bind_eq_ok.mpr ⟨(), h.scope, bind_eq_ok.mpr ⟨(), reject_eq_ok.mpr ?_,
    bind_eq_ok.mpr ⟨(), reject_eq_ok.mpr ?_, ?_⟩⟩⟩
  · exact Nat.not_lt.mpr h.line.1
  · rw [Option.any_eq_true]
    rintro ⟨text, htext, hbad⟩
    exact of_decide_eq_true hbad (h.observedAt text htext)
  · rw [hrows]
    exact bind_eq_ok.mpr ⟨_, hfields, bind_eq_ok.mpr ⟨status, h.statusOf_row, rfl⟩⟩

/-- A projected status passes its check. -/
theorem Projected.validate (h : status.Projected source) : status.validate = .ok () := by
  have hsource : status.observationSource = some source := congrArg (·.observationSource) h.derived
  have hqueue : status.queue = none := congrArg (·.queue) h.derived
  rw [JobStatus.validate, hsource]
  refine bind_eq_ok.mpr ⟨(), reject_eq_ok.mpr ?_, bind_eq_ok.mpr ⟨some status, h.parse, ?_⟩⟩
  · rintro ⟨hsqueue, hexit⟩
    rw [h.unobserved hsqueue] at hexit
    cases hexit
  · refine bind_eq_ok.mpr ⟨status, by rw [withQueue, hqueue], reject_eq_ok.mpr fun hne => hne rfl⟩

end JobStatus

end Parsing

end Slurm

end ExperimentControl
