import ExperimentControl.Durable
import ExperimentControl.Json.Lines
import ExperimentControl.Projects.Registry

/-!
# The registry on disk

The store of the registry (`server/src/projects/store.rs`): a head that is replaced as a whole, and
a journal of lines that is appended to and may be cut anywhere in its last line when the machine
stops. A load takes what is there, an operation repairs the journal first.

* `decode`, `registry`, `journal`, `load` — reading both files.
* `Operation`, `plan` — the reducers by the operation that asks for them.
* `Write`, `Stops`, `persistWrites`, `writesOf` — the writes of an operation, in their order.
* `repair`, `persist`, `execute`, `initializeStore` — what is done when nothing is interrupted.
* **`registry_reloads`** — every document that operations lead to is read as a registry again.
-/

namespace ExperimentControl

namespace Projects

inductive StoreError
  | invalid
  | binding
  | transition (error : Error)
  | effectUncertain
  deriving DecidableEq, Repr

/-! ## Reading a document -/

section Reading

-- Whether the float a number text stands for is finite.
variable (finite : String → Bool)

def decode (bytes : Bytes) : Except StoreError Json :=
  match Reader.ownMapping finite bytes with
  | .ok fields => .ok (.object fields)
  | .error _ => .error .invalid

/-- A stored path is one already: absolute, and without a way up. -/
def canonicalPath (path : String) : Except StoreError PathEvidence := do
  reject (¬startsWith path '/' ∨ (pathParts path).any (· = ['.', '.'])) .invalid
  .ok { provided := path, expandedAbsolute := path, canonicalAbsolute := path }

def registry (payload : Json) : Except StoreError Registry := do
  let required ← (Registry.requiredPaths payload).mapError .transition
  let paths ← required.mapM canonicalPath
  (Registry.fromValue payload paths).mapError .transition

/-! ## Reading the journal -/

def continuations : List UInt8 := (List.range 64).map fun n => UInt8.ofNat (n + 128)

/-- What may be left of a character behind its first byte. -/
def endings : List Bytes :=
  let one := continuations.map fun b => [b]
  let two := continuations.flatMap fun b => one.map (b :: ·)
  [] :: (one ++ two ++ continuations.flatMap fun b => two.map (b :: ·))

/-- `from_utf8` finds nothing wrong before the end of the bytes. -/
def unfinished (bytes : Bytes) : Bool := endings.any fun more => (fromUtf8 (bytes ++ more)).isSome

-- Whether `serde_json` reads no value from some bytes since they end too early.
variable (isEof : Bytes → Bool)

/-- The events of the journal, and the bytes it should have where its last line is not whole. -/
def journal (bytes : Bytes) : Except StoreError (List Json × Option Bytes) := do
  let whole := bytes.rdropWhile (· ≠ 10)
  let tail := bytes.rtakeWhile (· ≠ 10)
  let events ← if whole = [] then .ok [] else (whole.dropLast.splitOn 10).mapM (decode finite)
  if tail = [] then .ok (events, none)
  else
    match decode finite tail with
    | .ok value => .ok (events ++ [value], some (bytes ++ [10]))
    | .error _ =>
        if isEof tail ∧ unfinished tail then .ok (events, some whole) else .error .invalid

end Reading

def encoded (enc : Encoding) (value : Json) : Except StoreError Bytes := do
  let bytes ← (enc.bytes value).mapError fun _ => .invalid
  .ok (bytes ++ [10])

/-! ## Files -/

structure Files where
  head : Bytes
  events : Bytes
  deriving DecidableEq, Repr

/-- A file is replaced at once, or something is appended to it. -/
inductive Write
  | replaceHead (bytes : Bytes)
  | replaceEvents (bytes : Bytes)
  | appendEvents (bytes : Bytes)
  deriving DecidableEq, Repr

def Write.bytes : Write → Bytes
  | replaceHead bytes => bytes
  | replaceEvents bytes => bytes
  | appendEvents bytes => bytes

def Write.apply (files : Files) : Write → Files
  | replaceHead bytes => { files with head := bytes }
  | replaceEvents bytes => { files with events := bytes }
  | appendEvents bytes => { files with events := files.events ++ bytes }

/-- What may be there when the machine stops in a write: a file as it was or replaced, or a front of
what was to be appended. -/
def Write.Torn (files files' : Files) : Write → Prop
  | replaceHead bytes => files' = files ∨ files' = { files with head := bytes }
  | replaceEvents bytes => files' = files ∨ files' = { files with events := bytes }
  | appendEvents bytes => ∃ front, front <+: bytes ∧ files' = { files with events := files.events ++ front }

def applyAll (files : Files) (writes : List Write) : Files := writes.foldl Write.apply files

/-- What may be there when the machine stops in one of some writes, or behind the last of them. -/
def Stops : Files → List Write → Files → Prop
  | files, [], files' => files' = files
  | files, write :: writes, files' => write.Torn files files' ∨ Stops (write.apply files) writes files'

structure Loaded where
  state : Durable.Snapshot
  registry : Registry
  events : List Json
  normalizedJournal : Option Bytes
  missing : Option Json
  deriving DecidableEq, Repr

/-! ## Operations -/

inductive Operation
  | register (project : String) (path : PathEvidence)
  | action (project action reason : String)
  | unregister (project reason : String)
  | unregisterAll (reason : String)

def converted {α : Type} (document : α → Json) (change : Change α) : Json × Option Commit :=
  (document change.result, change.commit)

def plan (registry : Registry) (operation : Operation) (now : String) :
    Except StoreError (Json × Option Commit) :=
  match operation with
  | .register project path => do
      let change ← (registry.register project path .manual now).mapError .transition
      .ok (converted LifecycleRecord.toValue change)
  | .action project action reason => do
      let change ← (registry.action project action reason now).mapError .transition
      .ok (converted LifecycleRecord.toValue change)
  | .unregister project reason => do
      let change ← (registry.unregister project reason now).mapError .transition
      .ok (converted LifecycleRecord.toValue change)
  | .unregisterAll reason => do
      let change ← (registry.unregisterAll reason now).mapError .transition
      .ok (converted (fun records => .array (records.map LifecycleRecord.toValue)) change)

/-- A request to the store. An approved path is none where it is no text. -/
structure Call where
  operation : Operation
  now : String
  identity : String
  expectedRevision : Option ℕ
  approved : Option (List (String × Option String))

section Store

variable (enc : Encoding) (finite : String → Bool) (isEof : Bytes → Bool)

/-- The head is read again after the journal; nobody else holds the lock, so it is as it was. -/
def load (files : Files) : Except StoreError Loaded := do
  let head ← decode finite files.head
  let state ← (Durable.Snapshot.fromValue head).mapError fun _ => .invalid
  let registry ← Projects.registry state.value
  let (events, normalizedJournal) ← journal finite isEof files.events
  let missing ← (Durable.missingTransition enc state events).mapError fun _ => .invalid
  .ok { state, registry, events, normalizedJournal, missing }

def repairWrites (loaded : Loaded) : Except StoreError (List Write) := do
  let missing ← (loaded.missing.toList).mapM (encoded enc)
  .ok (loaded.normalizedJournal.toList.map .replaceEvents ++ missing.map .appendEvents)

/-- What a change would publish over the reconciled journal: the head, and the line for the
journal. It is computed and encoded before anything is repaired. -/
def proposal (loaded : Loaded) (change : Commit) (expected : Option ℕ) (identity : String) :
    Except StoreError (Durable.Commit × Bytes × Bytes) := do
  let commit ← (Durable.commit enc loaded.state (loaded.events ++ loaded.missing.toList)
    change.payload change.event expected identity).mapError fun _ => .invalid
  let head ← encoded enc commit.head
  let line ← encoded enc commit.transition
  .ok (commit, head, line)

def repair (files : Files) (loaded : Loaded) : Except StoreError (Files × Loaded) :=
  if loaded.normalizedJournal = none ∧ loaded.missing = none then .ok (files, loaded)
  else
    (do
      let writes ← repairWrites enc loaded
      let files := applyAll files writes
      let repaired ← load enc finite isEof files
      reject (repaired.normalizedJournal ≠ none ∨ repaired.missing ≠ none) .invalid
      .ok (files, repaired)).mapError fun _ => .effectUncertain

def persist (files : Files) (loaded : Loaded) (change : Commit) (expected : Option ℕ)
    (identity : String) : Except StoreError Files := do
  let (commit, head, line) ← proposal enc loaded change expected identity
  (do
    let (files, repaired) ← repair enc finite isEof files loaded
    reject (repaired.state.revision + 1 ≠ commit.revision) .invalid
    let files := applyAll files [.replaceHead head, .appendEvents line]
    let final ← load enc finite isEof files
    reject (final.state.revision ≠ commit.revision ∨ final.missing ≠ none) .invalid
    .ok files).mapError fun _ => .effectUncertain

/-- The writes of a change, in their order. -/
def persistWrites (loaded : Loaded) (change : Commit) (expected : Option ℕ) (identity : String) :
    Except StoreError (List Write) := do
  let (_, head, line) ← proposal enc loaded change expected identity
  let repairs ← repairWrites enc loaded
  .ok (repairs ++ [.replaceHead head, .appendEvents line])

/-- What is checked and planned before anything is written. -/
def prepare (files : Files) (call : Call) : Except StoreError (Loaded × Json × Option Commit) := do
  let loaded ← load enc finite isEof files
  reject (call.approved.any fun approved => loaded.registry.records.any fun record =>
    (approved.lookup record.project).any fun path => path ≠ some record.projectFile) .binding
  reject (call.expectedRevision.any (· ≠ loaded.state.revision)) .invalid
  let (result, change) ← plan loaded.registry call.operation call.now
  .ok (loaded, result, change)

def execute (files : Files) (call : Call) : Except StoreError (Files × Json) := do
  let (loaded, result, change) ← prepare enc finite isEof files call
  match change with
  | some change => do
      let files ← persist enc finite isEof files loaded change call.expectedRevision call.identity
      .ok (files, result)
  | none => do
      let (files, _) ← repair enc finite isEof files loaded
      .ok (files, result)

/-- The writes of a call, as far as it gets to write. -/
def writesOf (files : Files) (call : Call) : Except StoreError (List Write) := do
  let (loaded, _, change) ← prepare enc finite isEof files call
  match change with
  | some change => persistWrites enc loaded change call.expectedRevision call.identity
  | none => repairWrites enc loaded

/-! ## The first creation -/

/-- The files of a new store, before the seeds are written. -/
def created : Except StoreError Files := do
  let head ← encoded enc Registry.empty.payload
  .ok { head, events := [] }

/-- The seeds are checked before the files are there, and written as a change of them. -/
def initializeStore (seeds : List Seed) (now identity : String) : Except StoreError Files := do
  let change ← (bootstrap none seeds now).mapError .transition
  match change.commit with
  | some commit => do
      let empty ← (Durable.Snapshot.fromValue Registry.empty.payload).mapError fun _ => .invalid
      let _ ← (Durable.commit enc empty [] commit.payload commit.event (some 0) identity).mapError
        fun _ => .invalid
      (do
        let files ← created enc
        let loaded ← load enc finite isEof files
        persist enc finite isEof files loaded commit (some 0) identity).mapError
          fun _ => .effectUncertain
  | none => (created enc).mapError fun _ => .effectUncertain

/-- The writes of the seeds to the new files. -/
def initializeWrites (files : Files) (seeds : List Seed) (now identity : String) :
    Except StoreError (List Write) := do
  let change ← (bootstrap none seeds now).mapError .transition
  let loaded ← load enc finite isEof files
  match change.commit with
  | some commit => persistWrites enc loaded commit (some 0) identity
  | none => .ok []

end Store

/-! ## Documents that are read as a registry -/

lemma canonicalPath_self {path : String} (h : canonicalAbsolute path = true) :
    canonicalPath path = .ok (PathEvidence.self path) := by
  have hstart : startsWith path '/' = true := by
    simp only [canonicalAbsolute, Bool.decide_or, Bool.or_eq_true, decide_eq_true_eq] at h
    rcases h with rfl | h
    · rfl
    · exact h.1
  obtain ⟨rest, hlist⟩ : ∃ rest, path.toList = '/' :: rest := by
    simp only [startsWith, decide_eq_true_eq] at hstart
    cases hlist : path.toList with
    | nil => simp [hlist] at hstart
    | cons c rest =>
        simp only [hlist, List.head?_cons, Option.some.injEq] at hstart
        exact ⟨rest, by rw [hstart]⟩
  have hparts : (pathParts path).any (· = ['.', '.']) = false := by
    have hsplit : pathParts path = [] :: rest.splitOn '/' := by
      rw [pathParts, hlist, List.splitOn, List.splitOn, List.splitOnP_cons_eq_if_modifyHead]
      simp
    rw [hsplit, List.any_cons]
    simp only [canonicalAbsolute, Bool.decide_or, Bool.or_eq_true, decide_eq_true_eq] at h
    rcases h with rfl | h
    · have hnil : rest = [] := by
        simpa using hlist.symm
      subst hnil
      decide
    · have hall := h.2.2
      simp only [hlist, List.drop_succ_cons, List.drop_zero, List.all_eq_true, decide_eq_true_eq]
        at hall
      rw [Bool.or_eq_false_iff, List.any_eq_false]
      refine ⟨by simp, ?_⟩
      intro part hpart
      simpa using (hall part hpart).2.2
  simp [canonicalPath, hstart, hparts, reject, PathEvidence.self]

/-- **What is read as a registry.** -/
theorem registry_eq_ok {payload : Json} {r : Registry} :
    registry payload = .ok r ↔ r.payload = payload ∧ r.Sound := by
  simp only [registry, Registry.requiredPaths, bind_eq_ok, mapError_ok, Except.ok.injEq]
  constructor
  · rintro ⟨_, ⟨records, hread, rfl⟩, evidence, hpaths, hvalue⟩
    have hself : evidence = (records.map LifecycleRecord.projectFile).map PathEvidence.self := by
      have hall := (mapM_eq_ok.mp hpaths).imp fun path found hfound =>
        (show PathEvidence.self path = found by
          obtain ⟨⟨⟩, -, hfound⟩ := bind_eq_ok.mp hfound
          exact Except.ok.inj hfound)
      rw [← List.forall₂_map_left_iff, List.forall₂_eq_eq_eq] at hall
      exact hall.symm
    rw [hself] at hvalue
    obtain ⟨hpayload, -, hsound⟩ := (Registry.fromValue_self hread).mp hvalue
    exact ⟨hpayload, hsound⟩
  · rintro ⟨rfl, hsound⟩
    refine ⟨_, ⟨r.records, hsound.read, rfl⟩,
      (r.records.map LifecycleRecord.projectFile).map PathEvidence.self, ?_,
      (Registry.fromValue_self hsound.read).mpr ⟨rfl, rfl, hsound⟩⟩
    refine mapM_eq_ok.mpr ?_
    rw [List.forall₂_map_right_iff]
    refine List.forall₂_same.mpr fun path hpath => ?_
    obtain ⟨record, hrecord, rfl⟩ := List.mem_map.mp hpath
    exact canonicalPath_self (hsound.canonical record hrecord)

/-- **What an operation proposes is read as a registry again.** -/
theorem plan_proposes {r : Registry} (h : r.Sound) {operation : Operation} {now : String}
    {result : Json} {commit : Commit} (hplan : plan r operation now = .ok (result, some commit)) :
    ∃ records, r.Proposes commit records := by
  have hconverted {α : Type} {document : α → Json} {change : Change α}
      (heq : (Except.ok (converted document change) : Except StoreError _) =
        .ok (result, some commit)) : change.commit = some commit :=
    (Prod.mk.inj (Except.ok.inj heq)).2
  cases operation with
  | register project path =>
      obtain ⟨change, hchange, heq⟩ := bind_eq_ok.mp hplan
      exact Registry.register_proposes h (mapError_ok.mp hchange) (hconverted heq)
  | action project action reason =>
      obtain ⟨change, hchange, heq⟩ := bind_eq_ok.mp hplan
      exact Registry.action_proposes h (mapError_ok.mp hchange) (hconverted heq)
  | unregister project reason =>
      obtain ⟨change, hchange, heq⟩ := bind_eq_ok.mp hplan
      exact Registry.unregister_proposes h (mapError_ok.mp hchange) (hconverted heq)
  | unregisterAll reason =>
      obtain ⟨change, hchange, heq⟩ := bind_eq_ok.mp hplan
      exact Registry.unregisterAll_proposes h (mapError_ok.mp hchange) (hconverted heq)

/-- The documents that operations lead to, one after another. An operation that commits nothing, or
is refused, leaves the document as it is. -/
inductive Amends (payload : Json) : Json → Prop
  | start : Amends payload payload
  | step {current : Json} {r : Registry} {operation : Operation} {now : String} {result : Json}
      {commit : Commit} : Amends payload current → registry current = .ok r →
      plan r operation now = .ok (result, some commit) → Amends payload commit.payload

/-- **The registry is always read again.** Every document that operations lead to from one that is
read, or from the first creation, is read as a registry: its projects are named well and apart, and
so are their canonical paths. What the code does not know of a document stays as it is. -/
theorem registry_reloads :
    (∀ payload r, registry payload = .ok r → ∀ current, Amends payload current →
      ∃ r', registry current = .ok r' ∧ Distinct r'.records ∧ r'.canonicalPaths.Nodup ∧
        ∀ key, key ≠ "projects" → current.get key = payload.get key) ∧
    ∀ seeds now change commit, bootstrap none seeds now = .ok change →
      change.commit = some commit → ∀ current, Amends commit.payload current →
        ∃ r', registry current = .ok r' ∧ Distinct r'.records ∧ r'.canonicalPaths.Nodup := by
  have hruns (payload : Json) (r : Registry) (hread : registry payload = .ok r) (current : Json)
      (hamends : Amends payload current) : ∃ r', registry current = .ok r' ∧
        Distinct r'.records ∧ r'.canonicalPaths.Nodup ∧
          ∀ key, key ≠ "projects" → current.get key = payload.get key := by
    induction hamends with
    | start =>
        obtain ⟨-, hsound⟩ := registry_eq_ok.mp hread
        exact ⟨r, hread, hsound.distinct, hsound.paths ▸ hsound.apart, fun _ _ => rfl⟩
    | step _ hcurrent hplan ih =>
        obtain ⟨rfl, hsound⟩ := registry_eq_ok.mp hcurrent
        obtain ⟨r', -, -, -, hkept⟩ := ih
        obtain ⟨records, hproposes⟩ := plan_proposes hsound hplan
        obtain ⟨hnext, hother⟩ := Registry.change_reloads hsound hproposes
        exact ⟨_, registry_eq_ok.mpr ⟨rfl, hnext⟩, hproposes.distinct, hproposes.apart,
          fun key hkey => (hother key hkey).trans (hkept key hkey)⟩
  refine ⟨hruns, ?_⟩
  intro seeds now change commit hbootstrap hcommit current hamends
  obtain ⟨records, hproposes⟩ := bootstrap_proposes hbootstrap hcommit
  obtain ⟨hnext, -⟩ := Registry.change_reloads Registry.sound_empty hproposes
  obtain ⟨r', hread, hdistinct, hnodup, -⟩ :=
    hruns _ _ (registry_eq_ok.mpr ⟨rfl, hnext⟩) current hamends
  exact ⟨r', hread, hdistinct, hnodup⟩

end Projects

end ExperimentControl
