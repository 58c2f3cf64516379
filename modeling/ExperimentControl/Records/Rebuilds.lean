import ExperimentControl.Json.Records
import ExperimentControl.Library.Rows
import ExperimentControl.Records.Store

/-!
# Rebuilds of a publication

A finished scope that is published again without some metric names, of
`server/src/records/rebuild.rs`. What is left out is counted by the database over the stored rows,
and taken out row by row by `excludeObservations` when they are published.

* `SqlValue`, `jsonExtract`, `jsonEach` — the JSON functions of the database.
* `countExcluded`, `emptied`, `audit` — the queries of the audit.
* `excludeObservations`, `publishedEvents` — what is published.
* `rebuildWandb` — the transaction.
-/

namespace ExperimentControl.Records

inductive RebuildError where
  | decision (error : Error)
  | sqlite
  | json
  | rebuildNotFinished
  | notEnded
  | invalid (what : String)
  deriving DecidableEq, Repr

/-! ## Names -/

def REBUILD_MAX_NAMES : ℕ := 5000

def REBUILD_MAX_BYTES : ℕ := 256 * 1024

inductive RebuildRefusal where
  | tooLarge
  | invalid
  deriving DecidableEq, Repr

/-- A set of names, in their order. -/
def insertName (names : List String) (name : String) : List String :=
  if name ∈ names then names else names.orderedInsert (· ≤ ·) name

def addName (names : List String) (line : String) : Except RebuildRefusal (List String) := do
  let name := trim line
  if name = "" then return names
  reject (name.toList.any isControl) .invalid
  let names := insertName names name
  reject (REBUILD_MAX_NAMES < names.length) .tooLarge
  return names

def rebuildNames (text : String) : Except RebuildRefusal (List String) := do
  reject (REBUILD_MAX_BYTES < byteLen text) .tooLarge
  let names ← (split '\n' text).foldlM addName []
  reject (names = []) .invalid
  return names

/-! ## Exclusion -/

def DERIVED_KIND : String := "derived_metrics"

/-- The observation has one of the names. -/
def isExcluded (excluded : List String) (item : Json) : Bool :=
  (item.index "name").asStr.any fun name => name ∈ excluded

def excludeObservations (payload : Json) (excluded : List String) : Json × ℕ :=
  if payload.index "kind" ≠ .string "metrics" ∧ payload.index "kind" ≠ .string DERIVED_KIND then
    (payload, 0)
  else match (payload.get "observations").bind Json.asArray with
    | none => (payload, 0)
    | some items =>
        let kept := items.filter fun item => !isExcluded excluded item
        (payload.set "observations" (.array kept), items.length - kept.length)

/-! ## The JSON functions of the database -/

/-- A value of a query. An array or an object is its own text, kept as the value it is read as. -/
inductive SqlValue where
  | null
  | number (text : String)
  | text (value : String)
  | json (value : Json)
  deriving DecidableEq, Repr

namespace SqlValue

/-- The value of a JSON value. -/
def ofJson : Json → SqlValue
  | .null => .null
  | .bool value => .number (if value then "1" else "0")
  | .number digits => .number digits
  | .string value => .text value
  | value => .json value

/-- The value of a member, null where there is none. -/
def ofMember (value : Json) (key : String) : SqlValue := (value.get key).elim .null ofJson

/-- `value = name`, which is not true of a null. -/
def isText (name : String) : SqlValue → Bool
  | .text value => value = name
  | .json value => value.write = utf8 name
  | _ => false

/-- `value IN (SELECT value FROM json_each(names))`. -/
def isIn (names : List String) (value : SqlValue) : Bool := names.any fun name => value.isText name

end SqlValue

section Queries

-- How the database reads a text as JSON.
variable (parse : String → Option Json)

/-- `json_extract(value, '$.key')`. -/
def jsonExtract (key : String) : SqlValue → Except RebuildError SqlValue
  | .json value => .ok (SqlValue.ofMember value key)
  | .text text => (parse text).elim (.error .sqlite) fun value => .ok (SqlValue.ofMember value key)
  | _ => .ok .null

/-- `json_each(value, '$.key')`: the items of an array, the values of an object, or the value. -/
def jsonEach (value : Json) (key : String) : List SqlValue :=
  match value.get key with
  | none => []
  | some (.array items) => items.map SqlValue.ofJson
  | some (.object fields) => fields.map fun field => SqlValue.ofJson field.2
  | some value => [SqlValue.ofJson value]

/-- `json_array_length(value, '$.key')`. -/
def jsonArrayLength (value : Json) (key : String) : Option ℕ :=
  (value.get key).map fun value => (value.asArray.getD []).length

/-- `json_extract(e.payload, '$.kind') IN ('metrics', 'derived_metrics')`. -/
def hasKind (payload : Json) : Bool := (SqlValue.ofMember payload "kind").isIn ["metrics", DERIVED_KIND]

/-- The observed names of some rows that are in the list, in their order, and how often. -/
def countExcluded (payloads : List Json) (excluded : List String) :
    Except RebuildError (List (String × ℕ)) := do
  let names ← ((payloads.filter hasKind).flatMap fun payload => jsonEach payload "observations").mapM
    (jsonExtract parse "name")
  return excluded.filterMap fun name =>
    let count := names.countP (SqlValue.isText name)
    if count = 0 then none else some (name, count)

/-- Whether there are observations in a row, and each of them has a name in the list. -/
def isEmptied (excluded : List String) (payload : Json) : Except RebuildError Bool := do
  let names ← (jsonEach payload "observations").mapM (jsonExtract parse "name")
  return (jsonArrayLength payload "observations").any (0 < ·) && names.all (SqlValue.isIn excluded)

def emptied (payloads : List Json) (excluded : List String) : Except RebuildError ℕ := do
  let rows ← (payloads.filter hasKind).mapM (isEmptied parse excluded)
  return rows.countP id

/-- The document of an audit. -/
def auditDocument (excluded : List String) (counts : List (String × ℕ)) (emptied : ℕ) : Json :=
  .object [
    ("names", .ofNat excluded.length),
    ("excluded", .object (counts.map fun row => (row.1, .ofNat row.2))),
    ("excluded_observations", .ofNat (counts.map Prod.snd).sum),
    ("unmatched_names", .array ((excluded.filter fun name => name ∉ counts.map Prod.fst).map
      Json.string)),
    ("emptied_rows", .ofNat emptied)]

end Queries

/-! ## Rebuilds -/

/-- An accepted list of one scope, as it is stored. -/
structure RebuildRow where
  ordinal : ℤ
  sha256 : String
  names : String
  audit : Bytes
  oldWandbId : String
  newWandbId : String
  requestedAt : String
  finishedAt : Option String
  previousState : Option Bytes
  deriving DecidableEq, Repr

structure WandbRebuild where
  ordinal : ℤ
  sha256 : String
  audit : Json
  previousWandbId : String
  wandbId : String
  requestedAt : String
  finishedAt : Option String
  deriving DecidableEq, Repr

/-- The rows of one scope with those of its rebuilds and of its publication. -/
structure Rebuilds where
  journal : Journal
  rebuilds : List RebuildRow
  publication : Option Bytes
  deriving DecidableEq, Repr

/-- A row as it is published. -/
structure PublishedRow where
  seq : ℤ
  eventId : String
  payload : Json
  deriving DecidableEq, Repr

/-- The rows of both tables in their sequence. -/
def Journal.rows (journal : Journal) : List (ℤ × String × Bytes) :=
  (journal.events.map (fun row => (row.seq, row.eventId, row.payload)) ++
    journal.derivedEvents.map fun row => (row.seq, row.eventId, row.payload)).insertionSort
      fun left right => left.1 ≤ right.1

/-- The rebuild with the highest ordinal. -/
def Rebuilds.latest (state : Rebuilds) : Option RebuildRow :=
  state.rebuilds.foldl (fun best row => if best.all (·.ordinal < row.ordinal) then some row else best)
    none

section Store

variable (read : Bytes → Option Json)

/-- `serde_json::from_str` of a stored text. -/
def readStored (bytes : Bytes) : Except RebuildError Json := (read bytes).elim (.error .json) .ok

def readRow (row : ℤ × String × Bytes) : Except RebuildError PublishedRow := do
  return ⟨row.1, row.2.1, ← readStored read row.2.2⟩

/-- Rows without what the latest rebuild excludes. -/
def asPublished (state : Rebuilds) (rows : List PublishedRow) :
    Except RebuildError (List PublishedRow) :=
  if rows = [] then .ok rows
  else match state.latest with
    | none => .ok rows
    | some latest => do
        let excluded ← (rebuildNames latest.names).mapError fun _ => .invalid "stored rebuild names"
        return rows.map fun row => { row with payload := (excludeObservations row.payload excluded).1 }

/-- `events`: a page of the rows as they are published. -/
def publishedEvents (state : Rebuilds) (after : ℤ) (limit : ℕ) :
    Except RebuildError (List PublishedRow) := do
  let rows ← ((state.journal.rows.filter fun row => after < row.1).take limit).mapM (readRow read)
  asPublished state rows

/-- The data of the latest lifecycle event, null where there is none. -/
def latestLifecycle (journal : Journal) : Except RebuildError Json := do
  let payloads ← (journal.events.insertionSort fun left right => right.seq ≤ left.seq).mapM
    fun row => readStored read row.payload
  return ((payloads.find? fun payload => (SqlValue.ofMember payload "kind").isText "lifecycle").map
    fun payload => payload.index "data").getD .null

/-- `PublicationState::default` as a document. -/
def defaultState : Json :=
  .object [("confirmed", .number "0"), ("sent", .object []), ("display_version", .null),
    ("display_through", .null), ("finished", .bool false)]

/-- The state of a publication that begins with the first record. -/
def freshPublication (sha256 : String) : Json :=
  .object [("state", defaultState), ("finish_requested", .bool false),
    ("remote_finished", .bool false), ("ever_opened", .bool false), ("wandb_rebuild", .string sha256)]

variable (enc : Encoding) (parse : String → Option Json)

def rebuildWandbId (workspace scope previous sha256 : String) : Except Error String := do
  let digest ← digest enc (.array [.string "wandb-rebuild", .string workspace, .string scope,
    .string previous, .string sha256])
  return String.ofList (digest.toList.take 32)

/-- The scope row of a publication that begins again. -/
def ScopeRow.restarted (row : ScopeRow) (wandbId : String) : ScopeRow :=
  { row with
    wandbId := wandbId
    confirmed := 0
    status := "PENDING"
    error := none
    failures := 0
    lastConfirmedAt := none
    displayVersion := 0
    displayConfirmed := 0 }

def RebuildRow.parsed (row : RebuildRow) : Except RebuildError WandbRebuild := do
  let audit ← readStored read row.audit
  return ⟨row.ordinal, row.sha256, audit, row.oldWandbId, row.newWandbId, row.requestedAt,
    row.finishedAt⟩

/-- Every record is on a publication that was finished. -/
def publicationFinished (journal : Journal) (state : Json) : Bool :=
  journal.route.index "enabled" = .bool true ∧ state.index "remote_finished" = .bool true ∧
    state.index "remote_missing" ≠ .bool true ∧ journal.scope.confirmed = journal.total

/-- The rows of the audit. -/
def auditRows (journal : Journal) (excluded : List String) : Except RebuildError Json := do
  let rows ← journal.rows.mapM (readRow read)
  let payloads := rows.map PublishedRow.payload
  let counts ← countExcluded parse payloads excluded
  let emptied ← emptied parse payloads excluded
  return auditDocument excluded counts emptied

/-- The state that is kept of the publication before, where it has one. -/
def previousState (publication : Json) : Except RebuildError (Option Bytes) :=
  if publication.isObject then ((encoded enc publication).mapError .decision).map some else .ok none

/-- A new rebuild from the current id. -/
def begin (state : Rebuilds) (latest : Option WandbRebuild) (workspace sha256 names : String)
    (excluded : List String) (requestedAt : String) (providerEnded : Bool) :
    Except RebuildError (Rebuilds × WandbRebuild) := do
  let journal := state.journal
  let publication ← state.publication.elim (.ok .null) (readStored read)
  reject (publicationFinished journal publication = false) .rebuildNotFinished
  let lifecycle ← latestLifecycle read journal
  reject (Journal.ended lifecycle = false ∧ providerEnded = false) .notEnded
  let wandbId ← (rebuildWandbId enc workspace journal.scope.id journal.scope.wandbId sha256).mapError
    .decision
  let audit ← auditRows read parse journal excluded
  let rebuild : WandbRebuild := ⟨latest.elim 1 fun latest => latest.ordinal + 1, sha256, audit,
    journal.scope.wandbId, wandbId, requestedAt, none⟩
  let written ← (encoded enc audit).mapError .decision
  let previous ← previousState enc publication
  let row : RebuildRow := ⟨rebuild.ordinal, sha256, names, written, rebuild.previousWandbId, wandbId,
    requestedAt, none, previous⟩
  -- The keys of the table are unique.
  reject (state.rebuilds.any fun other => other.ordinal = row.ordinal ∨ other.newWandbId = wandbId ∨
    other.oldWandbId = row.oldWandbId ∧ other.sha256 = sha256) .sqlite
  let fresh ← (encoded enc (freshPublication sha256)).mapError .decision
  return (⟨{ journal with scope := journal.scope.restarted wandbId }, state.rebuilds ++ [row],
    some fresh⟩, rebuild)

def rebuildWandb (state : Rebuilds) (workspace sha256 names requestedAt : String)
    (providerEnded : Bool) : Except RebuildError (Rebuilds × WandbRebuild × Bool) := do
  reject (Journal.isDigest sha256 = false) (.invalid "rebuild digest")
  let excluded ← (rebuildNames names).mapError fun _ => .invalid "rebuild names"
  let latest ← state.latest.elim (.ok none) fun row => (row.parsed read).map some
  match latest.filter fun latest => latest.sha256 = sha256 with
  | some latest => return (state, latest, false)
  | none => do
      let (next, rebuild) ← begin read enc parse state latest workspace sha256 names excluded
        requestedAt providerEnded
      return (next, rebuild, true)

end Store

end ExperimentControl.Records
