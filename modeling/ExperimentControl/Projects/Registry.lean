import ExperimentControl.Identity
import ExperimentControl.Json.Shape
import ExperimentControl.Library.Rows
import ExperimentControl.Slurm.StatusDocuments

/-!
# Project registration

The registry of the projects of a workspace (`core/src/projects.rs`): records with a lifecycle in a
document that may hold more than the code knows, and reducers that propose the next document with
an event. Paths come with what the file system said of them.

* `LifecycleRecord`, `PathEvidence`, `Registry` — the data, with `recordValues` and `fromValue`.
* `register`, `transition`, `action`, `unregister`, `unregisterAll`, `bootstrap` — the reducers.
* `recordValues_eq_ok`, `fromValue_eq_ok` — the documents that are accepted.
* **`Registry.change_reloads`** — what a reducer proposes is read back as its records.
-/

namespace ExperimentControl

namespace Projects

inductive LifecycleState
  | active
  | paused
  | archived
  deriving DecidableEq, Repr

def LifecycleState.name : LifecycleState → String
  | active => "ACTIVE"
  | paused => "PAUSED"
  | archived => "ARCHIVED"

inductive RegistrationSource
  | configSeed
  | onboarding
  | manual
  deriving DecidableEq, Repr

def RegistrationSource.name : RegistrationSource → String
  | configSeed => "CONFIG_SEED"
  | onboarding => "ONBOARDING"
  | manual => "MANUAL"

inductive Error
  | schema
  | projects
  | record
  | duplicateProject
  | path
  | pathEvidence
  | duplicateManifest
  | manifestIdentityConflict
  | projectPathConflict
  | archived
  | unknownProject
  | transition
  | action
  | reason
  deriving DecidableEq, Repr

/-! ## Records -/

structure LifecycleRecord where
  project : String
  projectFile : String
  state : LifecycleState
  source : RegistrationSource
  registeredAt : String
  updatedAt : String
  stateReason : String
  deriving DecidableEq, Repr

/-- The derived reader takes a variant by its name, or as the one key over nothing. -/
def variant {α : Type} (name : α → String) (values : List α) : Json → Option α
  | .string text => Slurm.readWord name values text
  | .object [(text, .null)] => Slurm.readWord name values text
  | _ => none

def LifecycleState.ofJson : Json → Option LifecycleState :=
  variant LifecycleState.name [.active, .paused, .archived]

def RegistrationSource.ofJson : Json → Option RegistrationSource :=
  variant RegistrationSource.name [.configSeed, .onboarding, .manual]

/-- The derived reader passes over other fields, and takes a list of the fields in their order as
well. -/
def LifecycleRecord.ofJson : Json → Option LifecycleRecord
  | .object fields => do
      let project ← Fields.text fields "project"
      let projectFile ← Fields.text fields "project_file"
      let state ← (Fields.get fields "state").bind LifecycleState.ofJson
      let source ← (Fields.get fields "source").bind RegistrationSource.ofJson
      let registeredAt ← Fields.text fields "registered_at"
      let updatedAt ← Fields.text fields "updated_at"
      let stateReason ← Fields.text fields "state_reason"
      return { project, projectFile, state, source, registeredAt, updatedAt, stateReason }
  | .array [first, second, third, fourth, fifth, sixth, seventh] => do
      let project ← first.asStr
      let projectFile ← second.asStr
      let state ← LifecycleState.ofJson third
      let source ← RegistrationSource.ofJson fourth
      let registeredAt ← fifth.asStr
      let updatedAt ← sixth.asStr
      let stateReason ← seventh.asStr
      return { project, projectFile, state, source, registeredAt, updatedAt, stateReason }
  | _ => none

def LifecycleRecord.fromValue (value : Json) : Except Error LifecycleRecord :=
  match LifecycleRecord.ofJson value with
  | some record => do
      (validateId record.project).mapError fun _ => .record
      .ok record
  | none => .error .record

def LifecycleRecord.toValue (record : LifecycleRecord) : Json :=
  .object [("project", .string record.project), ("project_file", .string record.projectFile),
    ("state", .string record.state.name), ("source", .string record.source.name),
    ("registered_at", .string record.registeredAt), ("updated_at", .string record.updatedAt),
    ("state_reason", .string record.stateReason)]

/-! ## Paths -/

/-- What the file system said of a path: the text that was stored or asked for, and where it
leads. -/
structure PathEvidence where
  provided : String
  expandedAbsolute : String
  canonicalAbsolute : String
  deriving DecidableEq, Repr

def startsWith (value : String) (mark : Char) : Bool := value.toList.head? = some mark

def containsNul (value : String) : Bool := value.toList.any fun c => c.toNat = 0

def canonicalAbsolute (value : String) : Bool :=
  value = "/" ∨ startsWith value '/' ∧ ¬containsNul value ∧
    ((value.toList.drop 1).splitOn '/').all fun part => part ≠ [] ∧ part ≠ ['.'] ∧ part ≠ ['.', '.']

def PathEvidence.validate (path : PathEvidence) : Except Error Unit :=
  reject (containsNul path.provided ∨ ¬startsWith path.expandedAbsolute '/' ∨
    containsNul path.expandedAbsolute ∨
    ¬(startsWith path.provided '/' ∨ startsWith path.provided '~') ∨
    ¬Projects.canonicalAbsolute path.canonicalAbsolute) .path

/-! ## The registry -/

/-- The records of a list of values, no project twice. -/
def recordsFrom : List String → List Json → Except Error (List LifecycleRecord)
  | _, [] => .ok []
  | seen, value :: values => do
      let record ← LifecycleRecord.fromValue value
      reject (record.project ∈ seen) .duplicateProject
      let records ← recordsFrom (record.project :: seen) values
      .ok (record :: records)

def recordValues (payload : Json) : Except Error (List LifecycleRecord) :=
  match payload with
  | .object fields => do
      reject ((Fields.get fields "schema_version").any fun v => v.asU64 ≠ some 1) .schema
      match Fields.get fields "projects" with
      | none => .ok []
      | some (.array values) => recordsFrom [] values
      | some _ => .error .projects
  | _ => .error .schema

/-- The evidence by the text it is about. What is said twice has to be said alike. -/
def gather : List PathEvidence → List PathEvidence → Except Error (List PathEvidence)
  | seen, [] => .ok seen
  | seen, path :: paths => do
      path.validate
      reject (seen.any fun previous => previous.provided = path.provided ∧ previous ≠ path)
        .pathEvidence
      gather (path :: seen) paths

/-- The canonical paths of the records, no path twice. -/
def canonicalFrom (evidence : List PathEvidence) : List String → List LifecycleRecord →
    Except Error (List String)
  | _, [] => .ok []
  | seen, record :: records =>
      match evidence.find? fun path => path.provided = record.projectFile with
      | none => .error .pathEvidence
      | some path => do
          reject (path.canonicalAbsolute ∈ seen) .duplicateManifest
          let paths ← canonicalFrom evidence (path.canonicalAbsolute :: seen) records
          .ok (path.canonicalAbsolute :: paths)

structure Registry where
  payload : Json
  records : List LifecycleRecord
  canonicalPaths : List String
  deriving DecidableEq, Repr

structure Commit where
  payload : Json
  event : Json
  deriving DecidableEq, Repr

structure Change (α : Type) where
  result : α
  commit : Option Commit

namespace Registry

def empty : Registry where
  payload := .object [("schema_version", .number "1"), ("projects", .array [])]
  records := []
  canonicalPaths := []

def requiredPaths (payload : Json) : Except Error (List String) := do
  let records ← recordValues payload
  .ok (records.map LifecycleRecord.projectFile)

def fromValue (payload : Json) (paths : List PathEvidence) : Except Error Registry := do
  let records ← recordValues payload
  let evidence ← gather [] paths
  let canonicalPaths ← canonicalFrom evidence [] records
  .ok { payload, records, canonicalPaths }

/-- The document with other records, and the event that says why. -/
def change {α : Type} (registry : Registry) (records : List LifecycleRecord) (result : α)
    (event project time : String) (detail : Json) : Change α where
  result := result
  commit := some {
    payload := registry.payload.set "projects" (.array (records.map LifecycleRecord.toValue))
    event := .object [("event", .string event), ("project", .string project), ("at", .string time),
      ("detail", detail)] }

def register (registry : Registry) (project : String) (path : PathEvidence)
    (source : RegistrationSource) (now : String) : Except Error (Change LifecycleRecord) := do
  (validateId project).mapError fun _ => .record
  path.validate
  reject ((registry.records.zip registry.canonicalPaths).any fun known =>
    known.2 = path.canonicalAbsolute ∧ known.1.project ≠ project) .manifestIdentityConflict
  match (registry.records.zip registry.canonicalPaths).find? fun known => known.1.project = project with
  | some (record, canonical) => do
      reject (canonical ≠ path.canonicalAbsolute) .projectPathConflict
      reject (record.state = .archived) .archived
      if record.state = .active then .ok { result := record, commit := none }
      else do
        let record := { record with state := .active, updatedAt := now, stateReason := "registered" }
        let index := registry.records.findIdx fun r => r.project = project
        .ok (registry.change (registry.records.set index record) record "REGISTER" project now
          record.toValue)
  | none => do
      let record : LifecycleRecord := {
        project, projectFile := path.canonicalAbsolute, state := .active, source,
        registeredAt := now, updatedAt := now, stateReason := "registered" }
      .ok (registry.change (registry.records ++ [record]) record "REGISTER" project now
        record.toValue)

/-- The states a state may be followed by. -/
def follows : LifecycleState → LifecycleState → Bool
  | .active, target => target = .paused ∨ target = .archived
  | .paused, target => target = .active ∨ target = .archived
  | .archived, target => target = .paused

def transition (registry : Registry) (project : String) (target : LifecycleState)
    (reason now : String) : Except Error (Change LifecycleRecord) :=
  match registry.records.find? fun r => r.project = project with
  | none => .error .unknownProject
  | some record =>
      if record.state = target then .ok { result := record, commit := none }
      else do
        reject (¬follows record.state target) .transition
        let index := registry.records.findIdx fun r => r.project = project
        let next := { record with state := target, updatedAt := now, stateReason := reason }
        .ok (registry.change (registry.records.set index next) next target.name project now
          (.object [("from", .string record.state.name), ("reason", .string reason)]))

/-- Nothing is left of a reason without white space and the separators of C0 around it. -/
def blank (reason : String) : Bool :=
  reason.toList.all fun c => isWhitespace c ∨ 28 ≤ c.toNat ∧ c.toNat ≤ 31

/-- The state an action leads to, and whether it may be taken. -/
def actionTarget (state : LifecycleState) : String → Option (Bool × LifecycleState)
  | "pause" => some (state = .active, .paused)
  | "resume" => some (state = .paused, .active)
  | "archive" => some (state = .active ∨ state = .paused, .archived)
  | "restore" => some (state = .archived, .paused)
  | _ => none

def action (registry : Registry) (project name reason now : String) :
    Except Error (Change LifecycleRecord) :=
  match registry.records.find? fun r => r.project = project with
  | none => .error .unknownProject
  | some current =>
      match actionTarget current.state name with
      | none => .error .action
      | some (allowed, target) => do
          reject (¬allowed) .transition
          reject (target = .archived ∧ blank reason) .reason
          registry.transition project target reason now

def unregister (registry : Registry) (project reason now : String) :
    Except Error (Change LifecycleRecord) :=
  match registry.records.find? fun r => r.project = project with
  | none => .error .unknownProject
  | some record =>
      .ok (registry.change (registry.records.filter fun r => r.project ≠ project) record
        "UNREGISTER" project now
        (.object [("from", .string record.state.name), ("project_file", .string record.projectFile),
          ("reason", .string reason)]))

def unregisterAll (registry : Registry) (reason now : String) :
    Except Error (Change (List LifecycleRecord)) :=
  if registry.records = [] then .ok { result := [], commit := none }
  else
    .ok (registry.change [] registry.records "UNREGISTER" "" now
      (.object [("reason", .string (if reason = "" then "unregister_all" else reason)),
        ("unregistered", .array (registry.records.map fun r =>
          .object [("project", .string r.project), ("from", .string r.state.name),
            ("project_file", .string r.projectFile)]))]))

end Registry

/-! ## The first creation -/

structure Seed where
  project : String
  path : PathEvidence

/-- The records of the seeds, with the paths and the names so far. A seed that is given twice is
taken once. -/
def seeded (now : String) : List (String × String) → List String → List Seed →
    Except Error (List LifecycleRecord)
  | _, _, [] => .ok []
  | paths, names, seed :: seeds => do
      seed.path.validate
      (validateId seed.project).mapError fun _ => .record
      match paths.lookup seed.path.canonicalAbsolute with
      | some previous => do
          reject (previous ≠ seed.project) .manifestIdentityConflict
          seeded now paths names seeds
      | none => do
          reject (seed.project ∈ names) .duplicateProject
          let records ← seeded now ((seed.path.canonicalAbsolute, seed.project) :: paths)
            (seed.project :: names) seeds
          .ok ({
            project := seed.project, projectFile := seed.path.canonicalAbsolute, state := .active
            source := .configSeed, registeredAt := now, updatedAt := now, stateReason := "" } ::
              records)

def bootstrap (existing : Option Registry) (seeds : List Seed) (now : String) :
    Except Error (Change (List LifecycleRecord)) :=
  match existing with
  | some existing => .ok { result := existing.records, commit := none }
  | none => do
      let records ← seeded now [] [] seeds
      .ok (Registry.empty.change records records "BOOTSTRAP" "" now
        (.object [("imported", .array (records.map LifecycleRecord.toValue))]))

/-! ## The documents that are accepted -/

@[simp] lemma LifecycleState.ofJson_name (state : LifecycleState) :
    LifecycleState.ofJson (.string state.name) = some state := by
  cases state <;> rfl

@[simp] lemma RegistrationSource.ofJson_name (source : RegistrationSource) :
    RegistrationSource.ofJson (.string source.name) = some source := by
  cases source <;> rfl

/-- A record that is written is read back. -/
@[simp] lemma LifecycleRecord.ofJson_toValue (record : LifecycleRecord) :
    LifecycleRecord.ofJson record.toValue = some record := by
  simp [toValue, ofJson, Fields.text, Fields.get_cons, Json.asStr]

/-- Nothing but texts, some levels deep, which is read whatever numbers are finite. -/
structure Texts (levels : ℕ) (value : Json) : Prop where
  depth : value.depth ≤ levels
  plain : value.plain = true
  readable : ∀ finite, value.readable finite = true

lemma Texts.mono {levels more : ℕ} {value : Json} (h : Texts levels value) (hle : levels ≤ more) :
    Texts more value :=
  ⟨h.depth.trans hle, h.plain, h.readable⟩

lemma LifecycleRecord.texts_toValue (record : LifecycleRecord) : Texts 2 record.toValue where
  depth := by simp [toValue, Json.depth, Json.depthFields]
  plain := by simp [toValue, Json.plain, Json.plainFields, Json.PRIVATE_KEYS]
  readable := by simp [toValue, Json.readable, Json.readableFields]

lemma texts_map {levels : ℕ} {document : LifecycleRecord → Json} {records : List LifecycleRecord}
    (h : ∀ record, Texts levels (document record)) :
    Texts (levels + 1) (.array (records.map document)) := by
  refine ⟨?_, ?_, fun finite => ?_⟩
  · refine Nat.succ_le_succ ?_
    induction records with
    | nil => simp [Json.depthItems]
    | cons record records ih => simpa [Json.depthItems] using ⟨(h record).depth, ih⟩
  · rw [Json.plain, Json.plainItems_iff]
    intro item hitem
    obtain ⟨record, -, rfl⟩ := List.mem_map.mp hitem
    exact (h record).plain
  · rw [Json.readable, Json.readableItems_iff]
    intro item hitem
    obtain ⟨record, -, rfl⟩ := List.mem_map.mp hitem
    exact (h record).readable finite

lemma LifecycleRecord.fromValue_eq_ok {value : Json} {record : LifecycleRecord} :
    LifecycleRecord.fromValue value = .ok record ↔
      LifecycleRecord.ofJson value = some record ∧ validateId record.project = .ok () := by
  unfold fromValue
  cases hread : LifecycleRecord.ofJson value with
  | none => simp
  | some other =>
      simp only [bind_eq_ok, mapError_ok, Except.ok.injEq, Option.some.injEq]
      constructor
      · rintro ⟨⟨⟩, hid, rfl⟩
        exact ⟨rfl, hid⟩
      · rintro ⟨rfl, hid⟩
        exact ⟨(), hid, rfl⟩

/-- What the loop over the records accepts, from where it stands. -/
lemma recordsFrom_eq_ok {values : List Json} : ∀ {seen : List String} {records : List LifecycleRecord},
    recordsFrom seen values = .ok records ↔
      List.Forall₂ (fun value record => LifecycleRecord.fromValue value = .ok record) values records ∧
        (records.map LifecycleRecord.project).Nodup ∧
          ∀ record ∈ records, record.project ∉ seen := by
  induction values with
  | nil =>
      intro seen records
      simp only [recordsFrom, Except.ok.injEq, List.forall₂_nil_left_iff]
      constructor
      · rintro rfl
        simp
      · exact fun h => h.1.symm
  | cons value values ih =>
      intro seen records
      simp only [recordsFrom, bind_eq_ok, reject_eq_ok, Except.ok.injEq, ih,
        List.forall₂_cons_left_iff]
      constructor
      · rintro ⟨record, hrecord, -, hfresh, rest, ⟨hrest, hnodup, hseen⟩, rfl⟩
        refine ⟨⟨record, rest, hrecord, hrest, rfl⟩, ?_, ?_⟩
        · simp only [List.map_cons, List.nodup_cons, List.mem_map, not_exists, not_and]
          refine ⟨?_, hnodup⟩
          intro other hother hsame
          exact hseen other hother (by simp [hsame])
        · simp only [List.forall_mem_cons]
          refine ⟨hfresh, ?_⟩
          intro other hother hmem
          exact hseen other hother (by simp [hmem])
      · rintro ⟨⟨record, rest, hrecord, hrest, rfl⟩, hnodup, hseen⟩
        simp only [List.map_cons, List.nodup_cons, List.forall_mem_cons] at hnodup hseen
        refine ⟨record, hrecord, (), hseen.1, rest, ⟨hrest, hnodup.2, ?_⟩, rfl⟩
        intro other hother hmem
        rcases List.mem_cons.mp hmem with hsame | hmem
        · exact hnodup.1 (List.mem_map.mpr ⟨other, hother, hsame⟩)
        · exact hseen.2 other hother hmem

/-- Records that may stand in one registry. -/
structure Distinct (records : List LifecycleRecord) : Prop where
  named : ∀ record ∈ records, validateId record.project = .ok ()
  projects : (records.map LifecycleRecord.project).Nodup

/-- The version of a document that has one. -/
def versioned (fields : Fields) : Prop :=
  ∀ v, Fields.get fields "schema_version" = some v → v.asU64 = some 1

lemma recordValues_object {fields : Fields} {records : List LifecycleRecord} :
    recordValues (.object fields) = .ok records ↔ versioned fields ∧
      ((Fields.get fields "projects" = none ∧ records = []) ∨
        ∃ values, Fields.get fields "projects" = some (.array values) ∧
          recordsFrom [] values = .ok records) := by
  have hversion : ¬(Fields.get fields "schema_version").any (fun v => v.asU64 ≠ some 1) = true ↔
      versioned fields := by
    unfold versioned
    cases Fields.get fields "schema_version" with
    | none => simp
    | some v => simp
  simp only [recordValues, bind_eq_ok, reject_eq_ok, hversion, exists_and_left, exists_const]
  refine and_congr_right fun _ => ?_
  cases Fields.get fields "projects" with
  | none => simp [eq_comm]
  | some value =>
      cases value with
      | array values => simp
      | _ => simp

/-- **The records of a document are named well, and apart.** -/
theorem distinct_of_recordValues {payload : Json} {records : List LifecycleRecord}
    (h : recordValues payload = .ok records) : Distinct records := by
  cases payload with
  | object fields =>
      obtain ⟨-, ⟨-, rfl⟩ | ⟨values, -, hread⟩⟩ := recordValues_object.mp h
      · exact ⟨by simp, by simp⟩
      · obtain ⟨hall, hnodup, -⟩ := recordsFrom_eq_ok.mp hread
        refine ⟨?_, hnodup⟩
        intro record hrecord
        obtain ⟨value, -, hvalue⟩ := exists_left hall hrecord
        exact (LifecycleRecord.fromValue_eq_ok.mp hvalue).2
  | _ => simp [recordValues] at h

/-- Other records in the place of the old ones. -/
lemma recordValues_set {payload : Json} {records others : List LifecycleRecord}
    (h : recordValues payload = .ok records) (hothers : Distinct others) :
    recordValues (payload.set "projects" (.array (others.map LifecycleRecord.toValue))) =
      .ok others := by
  cases payload with
  | object fields =>
      rw [Json.set_object, recordValues_object]
      refine ⟨?_, Or.inr ⟨_, Fields.get_insert_self _ _ _, recordsFrom_eq_ok.mpr ⟨?_,
        hothers.projects, by simp⟩⟩⟩
      · intro v hv
        rw [Fields.get_insert_of_ne (by decide)] at hv
        exact (recordValues_object.mp h).1 v hv
      · rw [List.forall₂_map_left_iff]
        refine List.forall₂_same.mpr fun record hrecord => ?_
        exact LifecycleRecord.fromValue_eq_ok.mpr
          ⟨LifecycleRecord.ofJson_toValue record, hothers.named record hrecord⟩
  | _ => simp [recordValues] at h

/-- Evidence of a path that is what it was given as. -/
def PathEvidence.self (path : String) : PathEvidence := ⟨path, path, path⟩

lemma validate_self {path : String} : (PathEvidence.self path).validate = .ok () ↔
    Projects.canonicalAbsolute path = true := by
  simp only [PathEvidence.validate, PathEvidence.self, reject_eq_ok, not_or, not_not]
  constructor
  · exact fun h => h.2.2.2.2
  · intro h
    have hstart : startsWith path '/' = true ∧ containsNul path = false := by
      simp only [Projects.canonicalAbsolute, Bool.decide_or, Bool.or_eq_true, decide_eq_true_eq] at h
      rcases h with rfl | h
      · exact ⟨by decide, by decide⟩
      · exact ⟨h.1, by simpa using h.2.1⟩
    simp [hstart.1, hstart.2, h]

/-- Evidence of one path after another, each of which is what it was given as. -/
lemma gather_self {paths : List String} : ∀ {seen : List String} {evidence : List PathEvidence},
    gather (seen.map PathEvidence.self) (paths.map PathEvidence.self) = .ok evidence ↔
      (∀ path ∈ paths, Projects.canonicalAbsolute path = true) ∧
        evidence = (paths.reverse ++ seen).map PathEvidence.self := by
  induction paths with
  | nil =>
      intro seen evidence
      simp only [List.map_nil, gather, Except.ok.injEq, List.not_mem_nil, false_implies, implies_true,
        List.reverse_nil, List.nil_append, true_and]
      exact eq_comm
  | cons path paths ih =>
      intro seen evidence
      have hagree : ¬(seen.map PathEvidence.self).any (fun previous =>
          previous.provided = (PathEvidence.self path).provided ∧
            previous ≠ PathEvidence.self path) = true := by
        simp only [List.any_map, List.any_eq_true, Function.comp_apply, decide_eq_true_eq, not_exists,
          not_and, not_not]
        rintro other - hsame
        rw [show other = path from hsame]
      rw [List.map_cons, gather, List.forall_mem_cons]
      constructor
      · intro h
        obtain ⟨⟨⟩, hpath, h⟩ := bind_eq_ok.mp h
        obtain ⟨⟨⟩, -, h⟩ := bind_eq_ok.mp h
        obtain ⟨hpaths, rfl⟩ := (@ih (path :: seen) evidence).mp h
        exact ⟨⟨validate_self.mp hpath, hpaths⟩, by simp⟩
      · rintro ⟨⟨hpath, hpaths⟩, rfl⟩
        refine bind_eq_ok.mpr ⟨(), validate_self.mpr hpath,
          bind_eq_ok.mpr ⟨(), reject_eq_ok.mpr hagree, ?_⟩⟩
        exact (@ih (path :: seen) _).mpr ⟨hpaths, by simp⟩

lemma find_self {paths : List String} {path : String} (h : path ∈ paths) :
    (paths.map PathEvidence.self).find? (fun known => known.provided = path) =
      some (PathEvidence.self path) := by
  induction paths with
  | nil => simp at h
  | cons other paths ih =>
      by_cases hsame : other = path
      · simp [PathEvidence.self, hsame]
      · have hmem : path ∈ paths := by
          rcases List.mem_cons.mp h with rfl | hmem
          · exact absurd rfl hsame
          · exact hmem
        simpa [PathEvidence.self, hsame] using ih hmem

lemma canonicalFrom_self {paths : List String} {records : List LifecycleRecord} :
    ∀ {seen canonical : List String}, (∀ record ∈ records, record.projectFile ∈ paths) →
      (canonicalFrom (paths.map PathEvidence.self) seen records = .ok canonical ↔
        canonical = records.map LifecycleRecord.projectFile ∧
          (records.map LifecycleRecord.projectFile).Nodup ∧
            ∀ record ∈ records, record.projectFile ∉ seen) := by
  induction records with
  | nil =>
      intro seen canonical _
      simp [canonicalFrom, eq_comm]
  | cons record records ih =>
      intro seen canonical hpaths
      simp only [List.forall_mem_cons] at hpaths
      simp only [canonicalFrom, find_self hpaths.1, bind_eq_ok, reject_eq_ok, Except.ok.injEq,
        ih hpaths.2, List.map_cons, List.nodup_cons, List.forall_mem_cons]
      constructor
      · rintro ⟨-, hfresh, rest, ⟨rfl, hnodup, hseen⟩, rfl⟩
        refine ⟨rfl, ⟨?_, hnodup⟩, hfresh, ?_⟩
        · intro hmem
          obtain ⟨other, hother, hsame⟩ := List.mem_map.mp hmem
          exact hseen other hother (by simp [PathEvidence.self, hsame])
        · intro other hother hmem
          exact hseen other hother (by simp [hmem])
      · rintro ⟨rfl, ⟨hnew, hnodup⟩, hfresh, hseen⟩
        refine ⟨(), hfresh, _, ⟨rfl, hnodup, ?_⟩, rfl⟩
        intro other hother hmem
        rcases List.mem_cons.mp hmem with hsame | hmem
        · exact hnew (List.mem_map.mpr ⟨other, hother, hsame⟩)
        · exact hseen other hother hmem

namespace Registry

/-- Records that may stand in one registry, at canonical paths of their own. -/
structure Sound (registry : Registry) : Prop where
  read : recordValues registry.payload = .ok registry.records
  paths : registry.canonicalPaths = registry.records.map LifecycleRecord.projectFile
  canonical : ∀ record ∈ registry.records, Projects.canonicalAbsolute record.projectFile = true
  apart : (registry.records.map LifecycleRecord.projectFile).Nodup

/-- **What is read with stored paths alone.** -/
theorem fromValue_self {payload : Json} {records : List LifecycleRecord} {registry : Registry}
    (hread : recordValues payload = .ok records) :
    fromValue payload ((records.map LifecycleRecord.projectFile).map PathEvidence.self) =
        .ok registry ↔
      registry.payload = payload ∧ registry.records = records ∧ registry.Sound := by
  have hgather := @gather_self (records.map LifecycleRecord.projectFile) []
  simp only [List.map_nil, List.append_nil] at hgather
  have hmem : ∀ record ∈ records,
      record.projectFile ∈ (records.map LifecycleRecord.projectFile).reverse := by
    intro record hrecord
    rw [List.mem_reverse]
    exact List.mem_map_of_mem hrecord
  simp only [fromValue, hread, ok_bind, bind_eq_ok, hgather, Except.ok.injEq]
  constructor
  · rintro ⟨evidence, ⟨hcanonical, rfl⟩, canonical, hpaths, rfl⟩
    obtain ⟨rfl, hnodup, -⟩ := (canonicalFrom_self hmem).mp hpaths
    exact ⟨rfl, rfl, hread, rfl, by simpa using hcanonical, hnodup⟩
  · rintro ⟨rfl, rfl, hsound⟩
    refine ⟨_, ⟨by simpa using hsound.canonical, rfl⟩, _,
      (canonicalFrom_self hmem).mpr ⟨hsound.paths, hsound.apart, by simp⟩, rfl⟩

/-! ## What is proposed -/

/-- An event is an object of texts. -/
def Told (event : Json) : Prop := ∃ fields, event = .object fields ∧ Texts 5 (.object fields)

/-- The next document: the records in the place of the old ones, and the rest as it was. -/
structure Proposes (registry : Registry) (commit : Commit) (records : List LifecycleRecord) :
    Prop where
  event : Told commit.event
  payload : commit.payload =
    registry.payload.set "projects" (.array (records.map LifecycleRecord.toValue))
  distinct : Distinct records
  canonical : ∀ record ∈ records, Projects.canonicalAbsolute record.projectFile = true
  apart : (records.map LifecycleRecord.projectFile).Nodup

/-- The first item of a kind, replaced. -/
lemma set_findIdx {α : Type} {p : α → Bool} {items : List α} {item : α} (next : α)
    (h : items.find? p = some item) : ∃ front back, items = front ++ item :: back ∧
      items.set (items.findIdx p) next = front ++ next :: back := by
  induction items with
  | nil => simp at h
  | cons head items ih =>
      by_cases hp : p head = true
      · simp only [List.find?_cons_of_pos hp, Option.some.injEq] at h
        exact ⟨[], items, by simp [h], by simp [List.findIdx_cons, hp]⟩
      · rw [List.find?_cons_of_neg hp] at h
        obtain ⟨front, back, hitems, hset⟩ := ih h
        refine ⟨head :: front, back, by simp [hitems], ?_⟩
        simp only [List.findIdx_cons, hp, cond_false, List.set_cons_succ, hset, List.cons_append]

variable {registry : Registry} {records : List LifecycleRecord}

lemma told_change {event project time : String} {detail : Json} (h : Texts 4 detail) :
    Told (.object [("event", .string event), ("project", .string project), ("at", .string time),
      ("detail", detail)]) := by
  have hdepth := h.depth
  refine ⟨_, rfl, ?_, ?_, fun finite => ?_⟩
  · simp only [Json.depth, Json.depthFields]
    omega
  · simp [Json.plain, Json.plainFields, Json.PRIVATE_KEYS, h.plain]
  · simp [Json.readable, Json.readableFields, h.readable]

lemma Sound.distinct (h : registry.Sound) : Distinct registry.records :=
  distinct_of_recordValues h.read

/-- A record in the place of one with its name and its path. -/
lemma Sound.proposes_set (h : registry.Sound) {p : LifecycleRecord → Bool}
    {record next : LifecycleRecord} (hfind : registry.records.find? p = some record)
    (hproject : next.project = record.project) (hfile : next.projectFile = record.projectFile)
    {commit : Commit} (hevent : Told commit.event)
    (hpayload : commit.payload = registry.payload.set "projects"
      (.array ((registry.records.set (registry.records.findIdx p) next).map
        LifecycleRecord.toValue))) :
    registry.Proposes commit (registry.records.set (registry.records.findIdx p) next) := by
  obtain ⟨front, back, hrecords, hset⟩ := set_findIdx next hfind
  have hmem : ∀ other ∈ front ++ next :: back, ∃ old ∈ registry.records,
      old.project = other.project ∧ old.projectFile = other.projectFile := by
    intro other hother
    rw [hrecords]
    rcases List.mem_append.mp hother with hother | hother
    · exact ⟨other, by simp [hother], rfl, rfl⟩
    · rcases List.mem_cons.mp hother with rfl | hother
      · exact ⟨record, by simp, hproject.symm, hfile.symm⟩
      · exact ⟨other, by simp [hother], rfl, rfl⟩
  refine ⟨hevent, hpayload, ⟨?_, ?_⟩, ?_, ?_⟩
  · intro other hother
    rw [hset] at hother
    obtain ⟨old, hold, hsame, -⟩ := hmem other hother
    exact hsame ▸ h.distinct.named old hold
  · have hprojects := h.distinct.projects
    rw [hrecords] at hprojects
    rw [hset]
    simpa [hproject] using hprojects
  · intro other hother
    rw [hset] at hother
    obtain ⟨old, hold, -, hsame⟩ := hmem other hother
    exact hsame ▸ h.canonical old hold
  · have happart := h.apart
    rw [hrecords] at happart
    rw [hset]
    simpa [hfile] using happart

/-- Some of the records. -/
lemma Sound.proposes_part (h : registry.Sound) (hpart : records.Sublist registry.records)
    {commit : Commit} (hevent : Told commit.event)
    (hpayload : commit.payload = registry.payload.set "projects"
      (.array (records.map LifecycleRecord.toValue))) : registry.Proposes commit records where
  event := hevent
  payload := hpayload
  distinct := ⟨fun record hrecord => h.distinct.named record (hpart.subset hrecord),
    h.distinct.projects.sublist (hpart.map _)⟩
  canonical record hrecord := h.canonical record (hpart.subset hrecord)
  apart := h.apart.sublist (hpart.map _)

lemma Sound.zip_paths (h : registry.Sound) : registry.records.zip registry.canonicalPaths =
    registry.records.map fun record => (record, record.projectFile) := by
  rw [h.paths]
  induction registry.records with
  | nil => rfl
  | cons record records ih => simp [ih]

lemma register_proposes (h : registry.Sound) {project now : String} {path : PathEvidence}
    {source : RegistrationSource} {change : Change LifecycleRecord} {commit : Commit}
    (hregister : registry.register project path source now = .ok change)
    (hcommit : change.commit = some commit) : ∃ records, registry.Proposes commit records := by
  unfold register at hregister
  simp only [bind_eq_ok, mapError_ok, reject_eq_ok, h.zip_paths] at hregister
  obtain ⟨⟨⟩, hid, ⟨⟩, hpath, -, hfree, hregister⟩ := hregister
  simp only [List.any_map, List.any_eq_true, Function.comp_apply, decide_eq_true_eq, not_exists,
    not_and, not_not] at hfree
  have hfind (record : LifecycleRecord) (canonical : String)
      (hfound : (registry.records.map fun record => (record, record.projectFile)).find?
        (fun known => decide (known.1.project = project)) = some (record, canonical)) :
      registry.records.find? (fun r => decide (r.project = project)) = some record := by
    rw [List.find?_map, Option.map_eq_some_iff] at hfound
    obtain ⟨found, hfound, heq⟩ := hfound
    rw [← (Prod.mk.inj heq).1, ← hfound]
    rfl
  split at hregister
  · rename_i record canonical hfound
    simp only [bind_eq_ok, reject_eq_ok] at hregister
    obtain ⟨-, -, -, -, hregister⟩ := hregister
    split_ifs at hregister with hactive
    · cases hregister
      cases hcommit
    · cases hregister
      cases hcommit
      refine ⟨_, h.proposes_set (hfind record canonical hfound) ?_ ?_ ?_ rfl⟩
      · rfl
      · rfl
      · exact told_change ((LifecycleRecord.texts_toValue _).mono (by decide))
  · rename_i hnone
    cases hregister
    cases hcommit
    have hnew : ∀ record ∈ registry.records, record.project ≠ project := by
      intro record hrecord hsame
      have := List.find?_eq_none.mp hnone (record, record.projectFile)
        (List.mem_map.mpr ⟨record, hrecord, rfl⟩)
      simp [hsame] at this
    have hcanonical : Projects.canonicalAbsolute path.canonicalAbsolute = true := by
      simp only [PathEvidence.validate, reject_eq_ok, not_or, not_not] at hpath
      exact hpath.2.2.2.2
    refine ⟨registry.records ++ [_], told_change ((LifecycleRecord.texts_toValue _).mono (by decide)), rfl, ⟨?_, ?_⟩, ?_, ?_⟩
    · intro record hrecord
      rcases List.mem_append.mp hrecord with hrecord | hrecord
      · exact h.distinct.named record hrecord
      · rw [List.mem_singleton.mp hrecord]
        exact hid
    · rw [List.map_append, List.nodup_append]
      refine ⟨h.distinct.projects, by simp, ?_⟩
      intro name hname other hother hsame
      obtain ⟨record, hrecord, rfl⟩ := List.mem_map.mp hname
      simp only [List.map_cons, List.map_nil, List.mem_singleton] at hother
      exact hnew record hrecord (hsame.trans hother)
    · intro record hrecord
      rcases List.mem_append.mp hrecord with hrecord | hrecord
      · exact h.canonical record hrecord
      · rw [List.mem_singleton.mp hrecord]
        exact hcanonical
    · rw [List.map_append, List.nodup_append]
      refine ⟨h.apart, by simp, ?_⟩
      intro name hname other hother hsame
      obtain ⟨record, hrecord, rfl⟩ := List.mem_map.mp hname
      simp only [List.map_cons, List.map_nil, List.mem_singleton] at hother
      exact hnew record hrecord (hfree record hrecord (hsame.trans hother))

lemma transition_proposes (h : registry.Sound) {project reason now : String}
    {target : LifecycleState} {change : Change LifecycleRecord} {commit : Commit}
    (htransition : registry.transition project target reason now = .ok change)
    (hcommit : change.commit = some commit) : ∃ records, registry.Proposes commit records := by
  unfold transition at htransition
  split at htransition
  · cases htransition
  · rename_i record hfound
    split_ifs at htransition with hsame
    · cases htransition
      cases hcommit
    · obtain ⟨⟨⟩, -, htransition⟩ := bind_eq_ok.mp htransition
      cases htransition
      cases hcommit
      refine ⟨_, h.proposes_set hfound ?_ ?_ ?_ rfl⟩
      · rfl
      · rfl
      · exact told_change ⟨by simp [Json.depth, Json.depthFields],
          by simp [Json.plain, Json.plainFields, Json.PRIVATE_KEYS],
          by simp [Json.readable, Json.readableFields]⟩

lemma action_proposes (h : registry.Sound) {project name reason now : String}
    {change : Change LifecycleRecord} {commit : Commit}
    (haction : registry.action project name reason now = .ok change)
    (hcommit : change.commit = some commit) : ∃ records, registry.Proposes commit records := by
  unfold action at haction
  split at haction
  · cases haction
  · split at haction
    · cases haction
    · obtain ⟨⟨⟩, -, haction⟩ := bind_eq_ok.mp haction
      obtain ⟨⟨⟩, -, haction⟩ := bind_eq_ok.mp haction
      exact transition_proposes h haction hcommit

lemma unregister_proposes (h : registry.Sound) {project reason now : String}
    {change : Change LifecycleRecord} {commit : Commit}
    (hunregister : registry.unregister project reason now = .ok change)
    (hcommit : change.commit = some commit) : ∃ records, registry.Proposes commit records := by
  unfold unregister at hunregister
  split at hunregister
  · cases hunregister
  · cases hunregister
    cases hcommit
    refine ⟨_, h.proposes_part List.filter_sublist ?_ rfl⟩
    exact told_change ⟨by simp [Json.depth, Json.depthFields],
      by simp [Json.plain, Json.plainFields, Json.PRIVATE_KEYS],
      by simp [Json.readable, Json.readableFields]⟩

lemma unregisterAll_proposes (h : registry.Sound) {reason now : String}
    {change : Change (List LifecycleRecord)} {commit : Commit}
    (hunregister : registry.unregisterAll reason now = .ok change)
    (hcommit : change.commit = some commit) : ∃ records, registry.Proposes commit records := by
  unfold unregisterAll at hunregister
  by_cases hnil : registry.records = []
  · rw [if_pos hnil] at hunregister
    cases hunregister
    cases hcommit
  · rw [if_neg hnil] at hunregister
    cases hunregister
    cases hcommit
    refine ⟨[], h.proposes_part (List.nil_sublist _) ?_ rfl⟩
    have hitems := @texts_map 2 (fun r => .object
        [("project", .string r.project), ("from", .string r.state.name),
          ("project_file", .string r.projectFile)]) registry.records
      fun record => ⟨by simp [Json.depth, Json.depthFields],
        by simp [Json.plain, Json.plainFields, Json.PRIVATE_KEYS],
        by simp [Json.readable, Json.readableFields]⟩
    have hdepth := hitems.depth
    refine told_change ⟨?_, ?_, fun finite => ?_⟩
    · simp only [Json.depth, Json.depthFields] at hdepth ⊢
      omega
    · simpa [Json.plain, Json.plainFields, Json.PRIVATE_KEYS] using hitems.plain
    · simpa [Json.readable, Json.readableFields] using hitems.readable finite

lemma sound_empty : empty.Sound where
  read := rfl
  paths := rfl
  canonical := by simp [empty]
  apart := by simp [empty]

/-- **What a reducer proposes is read back as its records.** Nothing else of the document has
changed, and the paths of the records are still canonical and apart. -/
theorem change_reloads (h : registry.Sound) {commit : Commit}
    (hcommit : registry.Proposes commit records) :
    (Registry.mk commit.payload records (records.map LifecycleRecord.projectFile)).Sound ∧
      ∀ key, key ≠ "projects" → commit.payload.get key = registry.payload.get key := by
  refine ⟨⟨?_, rfl, hcommit.canonical, hcommit.apart⟩, ?_⟩
  · rw [hcommit.payload]
    exact recordValues_set h.read hcommit.distinct
  · intro key hkey
    rw [hcommit.payload]
    have hread := h.read
    cases hpayload : registry.payload with
    | object fields => rw [Json.set_object, Json.get_object, Json.get_object,
        Fields.get_insert_of_ne hkey]
    | _ => simp [hpayload, recordValues] at hread

end Registry

/-! ## The seeds -/

/-- The records of the seeds are named well, and apart from each other and from those before. -/
lemma seeded_spec {now : String} {seeds : List Seed} : ∀ {paths : List (String × String)}
    {names : List String} {records : List LifecycleRecord},
    seeded now paths names seeds = .ok records →
      Distinct records ∧ (records.map LifecycleRecord.projectFile).Nodup ∧
        ∀ record ∈ records, canonicalAbsolute record.projectFile = true ∧
          record.project ∉ names ∧ record.projectFile ∉ paths.map Prod.fst := by
  induction seeds with
  | nil =>
      intro paths names records h
      cases h
      exact ⟨⟨by simp, by simp⟩, by simp, by simp⟩
  | cons seed seeds ih =>
      intro paths names records h
      rw [seeded] at h
      obtain ⟨⟨⟩, hpath, h⟩ := bind_eq_ok.mp h
      obtain ⟨⟨⟩, hid, h⟩ := bind_eq_ok.mp h
      cases hlookup : paths.lookup seed.path.canonicalAbsolute with
      | some previous =>
          simp only [hlookup] at h
          obtain ⟨⟨⟩, -, h⟩ := bind_eq_ok.mp h
          exact ih h
      | none =>
          simp only [hlookup] at h
          obtain ⟨⟨⟩, hfresh, h⟩ := bind_eq_ok.mp h
          obtain ⟨rest, hrest, h⟩ := bind_eq_ok.mp h
          rw [reject_eq_ok] at hfresh
          obtain ⟨hdistinct, hnodup, hall⟩ := ih hrest
          cases h
          have hcanonical : canonicalAbsolute seed.path.canonicalAbsolute = true := by
            simp only [PathEvidence.validate, reject_eq_ok, not_or, not_not] at hpath
            exact hpath.2.2.2.2
          have hnew : seed.path.canonicalAbsolute ∉ paths.map Prod.fst := by
            intro hmem
            obtain ⟨entry, hentry, hsame⟩ := List.mem_map.mp hmem
            have := List.lookup_eq_none_iff.mp hlookup entry hentry
            simp [hsame] at this
          refine ⟨⟨?_, ?_⟩, ?_, ?_⟩
          · simp only [List.forall_mem_cons]
            exact ⟨mapError_eq_ok.mp hid, hdistinct.named⟩
          · simp only [List.map_cons, List.nodup_cons, List.mem_map, not_exists, not_and]
            refine ⟨?_, hdistinct.projects⟩
            intro other hother hsame
            exact (hall other hother).2.1 (by simp [hsame])
          · simp only [List.map_cons, List.nodup_cons, List.mem_map, not_exists, not_and]
            refine ⟨?_, hnodup⟩
            intro other hother hsame
            exact (hall other hother).2.2 (by simp [hsame])
          · simp only [List.forall_mem_cons]
            refine ⟨⟨hcanonical, hfresh, hnew⟩, ?_⟩
            intro other hother
            obtain ⟨hother', hname, hfile⟩ := hall other hother
            refine ⟨hother', ?_, ?_⟩
            · exact fun hmem => hname (by simp [hmem])
            · intro hmem
              refine hfile ?_
              rw [List.map_cons]
              exact List.mem_cons_of_mem _ hmem

lemma bootstrap_proposes {seeds : List Seed} {now : String}
    {change : Change (List LifecycleRecord)} {commit : Commit}
    (hbootstrap : bootstrap none seeds now = .ok change) (hcommit : change.commit = some commit) :
    ∃ records, Registry.empty.Proposes commit records := by
  obtain ⟨records, hseeded, h⟩ := bind_eq_ok.mp hbootstrap
  obtain ⟨hdistinct, hnodup, hall⟩ := seeded_spec hseeded
  cases h
  cases hcommit
  have hitems := @texts_map 2 LifecycleRecord.toValue records LifecycleRecord.texts_toValue
  have hdepth := hitems.depth
  refine ⟨records, Registry.told_change ⟨?_, ?_, fun finite => ?_⟩, rfl, hdistinct,
    fun record hrecord => (hall record hrecord).1, hnodup⟩
  · simp only [Json.depth, Json.depthFields] at hdepth ⊢
    omega
  · simpa [Json.plain, Json.plainFields, Json.PRIVATE_KEYS] using hitems.plain
  · simpa [Json.readable, Json.readableFields] using hitems.readable finite

end Projects

end ExperimentControl
