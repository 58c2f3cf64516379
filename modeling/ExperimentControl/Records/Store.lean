import ExperimentControl.Records.Confirmation

/-!
# The record store

The rows a scope has in the journal database, and the transactions that change them: appending
events and derived batches, confirming a publication, and noting that one failed. A transaction
that fails is rolled back as a whole.

* `Journal` — the rows of one scope, with the frozen route of its Run.
* `Journal.append`, `Journal.appendDerived`, `Journal.confirmPublication`,
  `Journal.publicationFailure` — the transactions.
* `Journal.published` — training rows and derived rows together, as publication reads them.
-/

namespace ExperimentControl.Records

/-- Why a transaction is rolled back. -/
inductive StoreError where
  | decision (error : Error)
  | eventConflict
  | confirmation
  | notEnded
  | derivedNameConflict
  | invalid (what : String)
  deriving DecidableEq, Repr

/-- A row of the table of scopes. -/
structure ScopeRow where
  id : String
  project : String
  run : String
  attempt : String
  wandbId : String
  confirmed : ℤ
  status : String
  error : Option String
  lastAttemptAt : Option String
  lastConfirmedAt : Option String
  failures : ℤ
  displayVersion : ℤ
  displayConfirmed : ℤ
  deriving DecidableEq, Repr

/-- A training-time event. -/
structure EventRow where
  seq : ℤ
  eventId : String
  payload : Bytes
  dedup : Option String
  deriving DecidableEq, Repr

/-- A row of a derived batch. -/
structure DerivedRow where
  seq : ℤ
  eventId : String
  payload : Bytes
  batch : String
  deriving DecidableEq, Repr

structure DerivedBatch where
  sha256 : String
  submittedAt : String
  first : ℤ
  last : ℤ
  records : ℤ
  deriving DecidableEq, Repr

/-- The rows of one scope, and the frozen route of its Run. -/
structure Journal where
  route : Json
  scope : ScopeRow
  events : List EventRow
  eventIds : List (String × String)
  derivedEvents : List DerivedRow
  derivedBatches : List DerivedBatch
  deriving DecidableEq, Repr

/-- What the database's own JSON functions read from the payloads of the training rows, which are
given in sequence order. -/
structure JsonQueries where
  /-- The data of the latest lifecycle event, null when there is none. -/
  latestLifecycle : List Bytes → Except StoreError Json
  /-- The metric names of the training-time observations. -/
  trainingNames : List Bytes → Except StoreError (List String)

namespace Journal

/-- Training rows and derived rows by sequence and event id. -/
def published (journal : Journal) : List (ℤ × String) :=
  journal.events.map (fun row => (row.seq, row.eventId)) ++
    journal.derivedEvents.map fun row => (row.seq, row.eventId)

/-- The highest sequence of a table, zero when it is empty. -/
def maxSeq (seqs : List ℤ) : ℤ := seqs.max?.getD 0

/-- The highest published sequence. -/
def total (journal : Journal) : ℤ :=
  max (maxSeq (journal.events.map (·.seq))) (maxSeq (journal.derivedEvents.map (·.seq)))

def optionalText : Option String → Json
  | some text => .string text
  | none => .null

/-- The scope row as a document, with the total. -/
def rowDocument (journal : Journal) : Json :=
  .object [
    ("id", .string journal.scope.id),
    ("project", .string journal.scope.project),
    ("run", .string journal.scope.run),
    ("attempt", .string journal.scope.attempt),
    ("wandb_id", .string journal.scope.wandbId),
    ("confirmed", .ofInt journal.scope.confirmed),
    ("status", .string journal.scope.status),
    ("error", optionalText journal.scope.error),
    ("last_attempt_at", optionalText journal.scope.lastAttemptAt),
    ("last_confirmed_at", optionalText journal.scope.lastConfirmedAt),
    ("failures", .ofInt journal.scope.failures),
    ("display_version", .ofInt journal.scope.displayVersion),
    ("display_confirmed", .ofInt journal.scope.displayConfirmed),
    ("total", .ofInt journal.total)]

/-! ## Appending -/

/-- New rows up to a sequence make a scope pending again, unless it has an error or publishes
nothing. -/
def wake (journal : Journal) (seq : ℤ) : Journal :=
  if journal.scope.confirmed < seq ∧ journal.scope.error = none ∧
      journal.scope.status ∉ ["LOCAL_ONLY", "PENDING"] then
    { journal with scope := { journal.scope with status := "PENDING" } }
  else journal

/-- One prepared event: the same event again is skipped, and so is a repeated metric row. -/
def appendEvent (state : Journal × ℤ) (event : PreparedEvent) :
    Except StoreError (Journal × ℤ) :=
  let (journal, seq) := state
  match journal.eventIds.lookup event.eventId with
  | some old => do
      reject (old ≠ event.checksum) .eventConflict
      return (journal, seq)
  | none => do
      let journal := { journal with
        eventIds := journal.eventIds ++ [(event.eventId, event.checksum)] }
      if event.dedup.isSome ∧ journal.events.any (fun row => row.dedup = event.dedup) then
        return (journal, seq)
      reject (2 ^ 63 ≤ seq + 1) (.invalid "record sequence overflow")
      return ({ journal with
        events := journal.events ++ [⟨seq + 1, event.eventId, event.body, event.dedup⟩] }, seq + 1)

section Transactions

variable (enc : Encoding) (isOne : String → Bool) (queries : JsonQueries)

def append (journal : Journal) (events : List Event) : Except StoreError Journal := do
  let prepared ← (events.mapM (prepareEvent enc)).mapError .decision
  let (journal, seq) ← prepared.foldlM appendEvent (journal, journal.total)
  return journal.wake seq

/-- The journal's own end of a Run. -/
def ended (lifecycle : Json) : Bool :=
  lifecycle.index "phase" = .string "METRICS_DRAINED" ∧
    (lifecycle.index "state").asStr ∈
      [some "SUCCEEDED", some "FAILED", some "CANCELLED", some "TIMEOUT"]

/-- A digest in lower-case hexadecimal. -/
def isDigest (value : String) : Bool :=
  (utf8 value).length = 64 ∧ value.toList.all fun c => ('0' ≤ c ∧ c ≤ '9') ∨ ('a' ≤ c ∧ c ≤ 'f')

/-- The most records of one derived batch. -/
def DERIVED_MAX_RECORDS : ℕ := 5000

/-- The rows of a derived batch, before they have sequences. -/
def derivedRows (sha256 submittedAt : String) (observations : List Json) :
    Except Error (List (String × Bytes)) :=
  (observations.zipIdx 1).mapM fun numbered => do
    let body ← encoded enc (.object [("kind", .string "derived_metrics"),
      ("batch_sha256", .string sha256), ("submitted_at", .string submittedAt),
      ("observations", .array [numbered.1])])
    return ("derived." ++ sha256 ++ "." ++ toString numbered.2, body)

/-- Rows under the next sequences. -/
def numbered (first : ℤ) (batch : String) : List (String × Bytes) → List DerivedRow
  | [] => []
  | (eventId, payload) :: rows => ⟨first, eventId, payload, batch⟩ :: numbered (first + 1) batch rows

def appendDerived (journal : Journal) (sha256 submittedAt : String) (observations : List Json) :
    Except StoreError Journal := do
  reject (isDigest sha256 = false ∨ observations = [] ∨ DERIVED_MAX_RECORDS < observations.length)
    (.invalid "derived batch")
  let names ← observations.mapM fun item =>
    match (item.index "name").asStr with
    | some name => .ok name
    | none => .error (.invalid "derived name")
  let rows ← (derivedRows enc sha256 submittedAt observations).mapError .decision
  -- The same batch again returns the original and changes nothing.
  if journal.derivedBatches.any (fun batch => batch.sha256 = sha256) then return journal
  let lifecycle ← queries.latestLifecycle (journal.events.map (·.payload))
  reject (ended lifecycle = false) .notEnded
  let training ← queries.trainingNames (journal.events.map (·.payload))
  reject (names.any fun name => name ∈ training) .derivedNameConflict
  reject (rows.any fun row => (journal.eventIds.lookup row.1).isSome) .eventConflict
  let first := journal.total + 1
  let last := journal.total + rows.length
  let batch : DerivedBatch := ⟨sha256, submittedAt, first, last, rows.length⟩
  let journal := { journal with
    derivedEvents := journal.derivedEvents ++ numbered first sha256 rows
    derivedBatches := journal.derivedBatches ++ [batch] }
  return journal.wake last

/-! ## Publication -/

/-- The rows a confirmation reads, in sequence order. -/
def confirmationRows (journal : Journal) (through : ℤ) : List (ℤ × String) :=
  (journal.published.filter fun row =>
    max journal.scope.confirmed 1 ≤ row.1 ∧ row.1 ≤ through).insertionSort
      fun left right => left.1 ≤ right.1

/-- The scope row after an accepted plan, against the journal's total. -/
def confirmedRow (row : ScopeRow) (plan : CursorAdvance) (total : ℤ) (error : Option String)
    (now : String) : ScopeRow :=
  let row := { row with
    confirmed := max row.confirmed plan.confirmed
    lastConfirmedAt := some now }
  let row := match plan.displayVersion with
    | some version => { row with
        displayVersion := max row.displayVersion version
        displayConfirmed := max row.displayConfirmed row.confirmed }
    | none => row
  { row with
    status :=
      if error.isSome then "RETRY_PENDING"
      else if total ≤ row.confirmed then "SYNCED"
      else "PENDING"
    error := error
    lastAttemptAt := some now
    failures := if error = none then 0 else row.failures + 1 }

def confirmPublication (journal : Journal) (proof : RemoteHistoryEvidence)
    (error : Option String) (now : String) : Except StoreError Journal := do
  let plan ← (confirmationPlan enc isOne journal.rowDocument journal.route
    (journal.confirmationRows proof.through) proof error).mapError fun _ => .confirmation
  return { journal with scope := confirmedRow journal.scope plan journal.total error now }

def publicationFailure (journal : Journal) (error now : String) : Journal :=
  { journal with
    scope := { journal.scope with
      status := if journal.scope.status = "LOCAL_ONLY" then "LOCAL_ONLY" else "RETRY_PENDING"
      error := some error
      lastAttemptAt := some now
      failures := journal.scope.failures + 1 } }

end Transactions

end Journal

end ExperimentControl.Records
