import ExperimentControl.Identity
import ExperimentControl.Json.Equality
import ExperimentControl.Library.Consecutive

/-!
# The durable head and its journal

A JSON head with the revision and the last transition it was published with, and a journal of the
transitions so far (`core/src/durable.rs`). The head is published first and the transition is
appended after it, so a crash in between leaves a journal that lacks its last transition, and
nothing else.

* `Snapshot`, `validateJournal`, `missingTransition`, `commit` — the functions of the source.
* `Contiguous`, `validateJournal_eq_ok` — what an accepted journal is.
* `Runs`, `Recorded`, `recorded_of_runs` — the transitions of a run of commits.
* **`missingTransition_exact`** — of the journals drawn from a run's transitions two are accepted:
  the whole one, and the one that lacks the last transition.
-/

namespace ExperimentControl

namespace Durable

inductive Error
  | invalid
  deriving DecidableEq, Repr

structure Snapshot where
  value : Json
  revision : ℕ
  lastTransition : Option Json
  deriving DecidableEq, Repr

def required {α : Type} (value : Option α) : Except Error α :=
  match value with
  | some value => .ok value
  | none => .error .invalid

/-- The identity of a transition, if it has one that may be used. -/
def idOf (value : Json) : Option String :=
  ((value.get "transition_id").bind Json.asStr).filter fun id => id ≠ "" ∧ byteLen id ≤ 1024

def transitionId (value : Json) : Except Error String := required (idOf value)

/-- The revision a transition carries. -/
def number (value : Json) : Option ℕ := (value.get "revision").bind Json.asU64

/-- Whether an event of the journal advances the state. -/
def isTransition (event : Json) : Bool := (event.get "transition_id").isSome

def Snapshot.fromValue (raw : Json) : Except Error Snapshot := do
  let fields ← required raw.asObject
  let value := Json.object (fields.remove "_durability")
  match fields.get "_durability" with
  | none => .ok ⟨value, 0, none⟩
  | some .null => .ok ⟨value, 0, none⟩
  | some metadata => do
      let revision ← required ((number metadata).filter fun n => 0 < n)
      let transition ← required ((metadata.get "last_transition").filter Json.isObject)
      reject (number transition ≠ some revision) .invalid
      let _ ← transitionId transition
      .ok ⟨value, revision, some transition⟩

/-- `u64::checked_add` of one. -/
def checkedNext (revision : ℕ) : Except Error ℕ :=
  if revision + 1 < 2 ^ 64 then .ok (revision + 1) else .error .invalid

/-- The loop of `validate_journal`, with the revision reached and the identities seen. -/
def validateFrom : ℕ → List String → List Json → Except Error ℕ
  | revision, _, [] => .ok revision
  | revision, seen, event :: events => do
      reject (¬event.isObject) .invalid
      if isTransition event then do
        let id ← transitionId event
        let revision ← checkedNext revision
        reject (id ∈ seen ∨ number event ≠ some revision) .invalid
        validateFrom revision (id :: seen) events
      else validateFrom revision seen events

def validateJournal (events : List Json) : Except Error ℕ := validateFrom 0 [] events

section Functions

variable (enc : Encoding)

/-- The transition the journal may lack: that of the head, when it follows the last one there. -/
def following (snapshot : Snapshot) (events : List Json) (revision : ℕ) (head : Json) :
    Except Error (Option Json) := do
  let next ← checkedNext revision
  reject (snapshot.revision ≠ next) .invalid
  let id ← transitionId head
  reject (events.any fun event => (event.get "transition_id").bind Json.asStr = some id) .invalid
  .ok (some head)

def missingTransition (snapshot : Snapshot) (events : List Json) : Except Error (Option Json) := do
  let revision ← validateJournal events
  match snapshot.lastTransition, events.reverse.find? isTransition with
  | none, none => do
      reject (snapshot.revision ≠ 0) .invalid
      .ok none
  | some head, some last => do
      -- Both identities are read before the arm is chosen.
      let id ← transitionId head
      let lastId ← transitionId last
      if id = lastId then do
        reject (¬(revision = snapshot.revision ∧ enc.equal head last = true)) .invalid
        .ok none
      else following snapshot events revision head
  | some head, none => following snapshot events revision head
  | none, some _ => .error .invalid

structure Commit where
  head : Json
  transition : Json
  revision : ℕ
  deriving DecidableEq, Repr

/-- The head and the transition to be written next, over a journal that lacks nothing. -/
def commit (snapshot : Snapshot) (events : List Json) (value event : Json)
    (expectedRevision : Option ℕ) (identity : String) : Except Error Commit := do
  let missing ← missingTransition enc snapshot events
  reject (missing.isSome ∨ expectedRevision.any (· ≠ snapshot.revision) ∨
    tokenValid identity = false ∨
    events.any fun v => (v.get "transition_id").bind Json.asStr = some identity) .invalid
  let payload ← required value.asObject
  reject (payload.get "_durability").isSome .invalid
  let fields ← required event.asObject
  reject ((fields.get "revision").isSome ∨ (fields.get "transition_id").isSome) .invalid
  let revision ← checkedNext snapshot.revision
  let transition := Json.object
    ((fields.insert "revision" (.ofNat revision)).insert "transition_id" (.string identity))
  .ok {
    head := .object (payload.insert "_durability"
      (.object [("revision", .ofNat revision), ("last_transition", transition)]))
    transition
    revision }

end Functions

/-! ## The journals that are accepted -/

/-- The transitions among the events. -/
def transitions (events : List Json) : List Json := events.filter isTransition

@[simp] lemma transitions_nil : transitions [] = [] := rfl

lemma transitions_cons (event : Json) (events : List Json) : transitions (event :: events) =
    if isTransition event then event :: transitions events else transitions events :=
  List.filter_cons

/-- Transitions with identities of their own that are numbered on from `start`, among events that
are objects. -/
structure Contiguous (start : ℕ) (events : List Json) : Prop where
  objects : ∀ event ∈ events, event.isObject = true
  named : ∀ t ∈ transitions events, (idOf t).isSome
  numbered : Consecutive number start (transitions events)
  distinct : ((transitions events).map idOf).Nodup

lemma required_eq_ok {α : Type} {value : Option α} {a : α} :
    required value = .ok a ↔ value = some a := by
  cases value <;> simp [required]

lemma transitionId_eq_ok {value : Json} {id : String} :
    transitionId value = .ok id ↔ idOf value = some id := required_eq_ok

lemma checkedNext_eq_ok {revision next : ℕ} :
    checkedNext revision = .ok next ↔ next = revision + 1 ∧ next < 2 ^ 64 := by
  unfold checkedNext
  split_ifs with h
  · simp only [Except.ok.injEq]
    exact ⟨fun heq => ⟨heq.symm, heq ▸ h⟩, fun heq => heq.1.symm⟩
  · simp only [false_iff, not_and]
    rintro rfl
    exact h

lemma number_lt {value : Json} {n : ℕ} (h : number value = some n) : n < 2 ^ 64 := by
  obtain ⟨field, -, hfield⟩ := Option.bind_eq_some_iff.mp h
  exact Json.lt_of_asU64 hfield

lemma isTransition_of_idOf {value : Json} {id : String} (h : idOf value = some id) :
    isTransition value = true := by
  unfold idOf at h
  unfold isTransition
  cases hget : value.get "transition_id" with
  | none => simp [hget] at h
  | some field => rfl

lemma isObject_of_isTransition {value : Json} (h : isTransition value = true) :
    value.isObject = true := by
  cases value with
  | object fields => rfl
  | _ => simp [isTransition, Json.get] at h

/-- What the loop accepts, from where it stands. -/
lemma validateFrom_eq_ok {events : List Json} : ∀ {revision n : ℕ} {seen : List String},
    validateFrom revision seen events = .ok n ↔
      Contiguous revision events ∧ (∀ t ∈ transitions events, ∀ id ∈ seen, idOf t ≠ some id) ∧
        n = revision + (transitions events).length := by
  induction events with
  | nil =>
      intro revision n seen
      simp only [validateFrom, Except.ok.injEq, transitions_nil, List.not_mem_nil, false_implies,
        implies_true, List.length_nil, Nat.add_zero, true_and]
      constructor
      · intro h
        exact ⟨⟨by simp, by simp, by simp, by simp⟩, h.symm⟩
      · intro h
        exact h.2.symm
  | cons event events ih =>
      intro revision n seen
      unfold validateFrom
      by_cases htransition : isTransition event = true
      · rw [if_pos htransition]
        have hlist : transitions (event :: events) = event :: transitions events := by
          rw [transitions_cons, if_pos htransition]
        simp only [bind_eq_ok, reject_eq_ok, transitionId_eq_ok, checkedNext_eq_ok, not_or,
          not_not, ih]
        constructor
        · rintro ⟨-, -, id, hid, _, ⟨rfl, -⟩, -, ⟨hfresh, hnumber⟩, hrest, hseen, rfl⟩
          have hobject := isObject_of_isTransition htransition
          refine ⟨⟨?_, ?_, ?_, ?_⟩, ?_, ?_⟩
          · simp only [List.forall_mem_cons]
            exact ⟨hobject, hrest.objects⟩
          · simp only [hlist, List.forall_mem_cons]
            exact ⟨by simp [hid], hrest.named⟩
          · simp only [hlist, Consecutive.cons]
            exact ⟨hnumber, hrest.numbered⟩
          · simp only [hlist, List.map_cons, List.nodup_cons, List.mem_map, not_exists, not_and]
            refine ⟨?_, hrest.distinct⟩
            intro t ht hsame
            exact hseen t ht id (by simp) (hsame.trans hid)
          · simp only [hlist, List.forall_mem_cons]
            refine ⟨?_, ?_⟩
            · intro other hother hsame
              rw [hid, Option.some.injEq] at hsame
              exact hfresh (hsame ▸ hother)
            · intro t ht other hother
              exact hseen t ht other (by simp [hother])
          · simp only [hlist, List.length_cons]
            omega
        · rintro ⟨hall, hseen, rfl⟩
          have hnumbered := hall.numbered
          have hdistinct := hall.distinct
          have hnamed := hall.named
          simp only [hlist, Consecutive.cons, List.map_cons, List.nodup_cons, List.forall_mem_cons]
            at hnumbered hdistinct hnamed hseen
          obtain ⟨id, hid⟩ := Option.isSome_iff_exists.mp hnamed.1
          refine ⟨(), hall.objects event (by simp), id, hid, revision + 1,
            ⟨rfl, number_lt hnumbered.1⟩, (), ⟨?_, hnumbered.1⟩, ?_, ?_, ?_⟩
          · intro hmem
            exact hseen.1 id hmem hid
          · exact ⟨fun e he => hall.objects e (by simp [he]), hnamed.2, hnumbered.2, hdistinct.2⟩
          · intro t ht other hother hsame
            rcases List.mem_cons.mp hother with rfl | hother
            · exact hdistinct.1 (List.mem_map.mpr ⟨t, ht, hsame.trans hid.symm⟩)
            · exact hseen.2 t ht other hother hsame
          · simp only [hlist, List.length_cons]
            omega
      · rw [if_neg htransition]
        have hlist : transitions (event :: events) = transitions events := by
          rw [transitions_cons, if_neg htransition]
        simp only [bind_eq_ok, reject_eq_ok, not_not, ih, hlist]
        constructor
        · rintro ⟨-, hobject, hrest, hseen, rfl⟩
          refine ⟨⟨?_, ?_, ?_, ?_⟩, hseen, rfl⟩
          · simp only [List.forall_mem_cons]
            exact ⟨hobject, hrest.objects⟩
          · exact hlist ▸ hrest.named
          · exact hlist ▸ hrest.numbered
          · exact hlist ▸ hrest.distinct
        · rintro ⟨hall, hseen, rfl⟩
          refine ⟨(), hall.objects event (by simp), ⟨?_, ?_, ?_, ?_⟩, hseen, rfl⟩
          · exact fun e he => hall.objects e (by simp [he])
          · exact hlist ▸ hall.named
          · exact hlist ▸ hall.numbered
          · exact hlist ▸ hall.distinct

/-- **What is accepted as a journal, and the revision it reaches.** -/
theorem validateJournal_eq_ok {events : List Json} {n : ℕ} : validateJournal events = .ok n ↔
    Contiguous 0 events ∧ n = (transitions events).length := by
  simp [validateJournal, validateFrom_eq_ok]

/-- The last transition of the journal. -/
lemma find_last (events : List Json) :
    events.reverse.find? isTransition = (transitions events).getLast? := by
  rw [transitions, List.getLast?_eq_head?_reverse, ← List.filter_reverse, List.head?_filter]

/-- The journal lacks nothing: its last transition is that of the head, or there is none of either. -/
def Whole (enc : Encoding) (snapshot : Snapshot) (events : List Json) : Prop :=
  (snapshot.lastTransition = none ∧ transitions events = [] ∧ snapshot.revision = 0) ∨
    ∃ head last, snapshot.lastTransition = some head ∧ (transitions events).getLast? = some last ∧
      idOf head = idOf last ∧ snapshot.revision = (transitions events).length ∧
        enc.equal head last = true

/-- The journal lacks this transition of the head's, which comes right behind it. -/
def Lacks (snapshot : Snapshot) (events : List Json) (head : Json) : Prop :=
  snapshot.lastTransition = some head ∧ snapshot.revision = (transitions events).length + 1 ∧
    snapshot.revision < 2 ^ 64 ∧ ∃ id, idOf head = some id ∧
      ∀ event ∈ events, (event.get "transition_id").bind Json.asStr ≠ some id

lemma following_eq_ok {snapshot : Snapshot} {events : List Json} {revision : ℕ} {head : Json}
    {missing : Option Json} : following snapshot events revision head = .ok missing ↔
      missing = some head ∧ snapshot.revision = revision + 1 ∧ snapshot.revision < 2 ^ 64 ∧
        ∃ id, idOf head = some id ∧
          ∀ event ∈ events, (event.get "transition_id").bind Json.asStr ≠ some id := by
  simp only [following, bind_eq_ok, checkedNext_eq_ok, reject_eq_ok, transitionId_eq_ok, not_not,
    List.any_eq_true, decide_eq_true_eq, not_exists, not_and, Except.ok.injEq]
  constructor
  · rintro ⟨_, ⟨rfl, hbound⟩, -, hrevision, id, hid, -, hfresh, rfl⟩
    exact ⟨rfl, hrevision, hrevision ▸ hbound, id, hid, hfresh⟩
  · rintro ⟨rfl, hrevision, hbound, id, hid, hfresh⟩
    exact ⟨_, ⟨rfl, hrevision ▸ hbound⟩, (), hrevision, id, hid, (), hfresh, rfl⟩

/-- The identity that is read from an event is what stands under its key. -/
lemma text_of_idOf {event : Json} {id : String} (h : idOf event = some id) :
    (event.get "transition_id").bind Json.asStr = some id :=
  (Option.filter_eq_some_iff.mp h).1

/-- **What `missing_transition` answers.** -/
theorem missingTransition_eq_ok {enc : Encoding} {snapshot : Snapshot} {events : List Json}
    {missing : Option Json} : missingTransition enc snapshot events = .ok missing ↔
      Contiguous 0 events ∧ (missing = none ∧ Whole enc snapshot events ∨
        ∃ head, missing = some head ∧ Lacks snapshot events head) := by
  unfold missingTransition
  rw [find_last]
  simp only [bind_eq_ok, validateJournal_eq_ok]
  constructor
  · rintro ⟨revision, ⟨hjournal, rfl⟩, h⟩
    refine ⟨hjournal, ?_⟩
    cases hhead : snapshot.lastTransition with
    | none =>
        cases hlast : (transitions events).getLast? with
        | none =>
            simp only [hhead, hlast, bind_eq_ok, reject_eq_ok, not_not, Except.ok.injEq] at h
            obtain ⟨-, hzero, rfl⟩ := h
            exact Or.inl ⟨rfl, Or.inl ⟨hhead, List.getLast?_eq_none_iff.mp hlast, hzero⟩⟩
        | some last => simp [hhead, hlast] at h
    | some head =>
        cases hlast : (transitions events).getLast? with
        | none =>
            simp only [hhead, hlast, following_eq_ok] at h
            exact Or.inr ⟨head, h.1, hhead, h.2⟩
        | some last =>
            simp only [hhead, hlast, bind_eq_ok, transitionId_eq_ok] at h
            obtain ⟨id, hid, lastId, hlastId, h⟩ := h
            split_ifs at h with hsame
            · simp only [bind_eq_ok, reject_eq_ok, not_not, Except.ok.injEq] at h
              obtain ⟨-, ⟨hrevision, hequal⟩, rfl⟩ := h
              exact Or.inl ⟨rfl, Or.inr ⟨head, last, hhead, hlast, by rw [hid, hlastId, hsame],
                hrevision.symm, hequal⟩⟩
            · rw [following_eq_ok] at h
              exact Or.inr ⟨head, h.1, hhead, h.2⟩
  · rintro ⟨hjournal, ⟨rfl, ⟨hhead, hnone, hzero⟩ | ⟨head, last, hhead, hlast, hsame, hrevision,
      hequal⟩⟩ | ⟨head, rfl, hhead, hlacks⟩⟩
    · refine ⟨_, ⟨hjournal, rfl⟩, ?_⟩
      simp [hhead, hnone, hzero, reject]
    · refine ⟨_, ⟨hjournal, rfl⟩, ?_⟩
      obtain ⟨id, hid⟩ := Option.isSome_iff_exists.mp
        (hjournal.named last (List.mem_of_getLast? hlast))
      simp [hhead, hlast, transitionId, hsame, hid, required, hrevision, hequal, reject]
    · refine ⟨_, ⟨hjournal, rfl⟩, ?_⟩
      have hfollowing := following_eq_ok.mpr ⟨rfl, hlacks⟩
      cases hlast : (transitions events).getLast? with
      | none => simpa [hhead] using hfollowing
      | some last =>
          obtain ⟨-, -, id, hid, hfresh⟩ := hlacks
          have hmem := List.mem_of_getLast? hlast
          obtain ⟨lastId, hlastId⟩ := Option.isSome_iff_exists.mp (hjournal.named last hmem)
          have hne : id ≠ lastId := by
            rintro rfl
            exact hfresh last (List.mem_of_mem_filter hmem) (text_of_idOf hlastId)
          simpa [hhead, transitionId, hid, hlastId, required, hne] using hfollowing

/-! ## Runs of commits -/

section Runs

variable (enc : Encoding)

/-- The transitions of a run of commits, and the head it leads to. Every commit is made over a
journal that lacks nothing, which may hold other events in between, and a transition is encoded
before it is written. -/
inductive Runs : List Json → Snapshot → Prop
  | start {raw : Json} {snapshot : Snapshot} : Snapshot.fromValue raw = .ok snapshot →
      snapshot.revision = 0 → Runs [] snapshot
  | commit {ts events : List Json} {snapshot next : Snapshot} {value event : Json}
      {expected : Option ℕ} {identity : String} {made : Commit} : Runs ts snapshot →
      transitions events = ts →
      commit enc snapshot events value event expected identity = .ok made →
      enc.Canonical made.transition → Snapshot.fromValue made.head = .ok next →
      Runs (ts ++ [made.transition]) next

/-- What a head says of the transitions that led to it. -/
structure Recorded (ts : List Json) (snapshot : Snapshot) : Prop where
  whole : transitions ts = ts
  contiguous : Contiguous 0 ts
  canonical : ∀ t ∈ ts, enc.Canonical t
  last : snapshot.lastTransition = ts.getLast?
  revision : snapshot.revision = ts.length

variable {enc} {ts events : List Json} {snapshot : Snapshot}

lemma transitions_append (first second : List Json) :
    transitions (first ++ second) = transitions first ++ transitions second :=
  List.filter_append _ _

/-- Nothing of the metadata is there, or all of it. -/
lemma fromValue_cases {raw : Json} (h : Snapshot.fromValue raw = .ok snapshot) :
    (snapshot.revision = 0 ∧ snapshot.lastTransition = none) ∨
      ∃ t, snapshot.lastTransition = some t ∧ number t = some snapshot.revision ∧
        0 < snapshot.revision ∧ (idOf t).isSome := by
  unfold Snapshot.fromValue at h
  obtain ⟨fields, -, h⟩ := bind_eq_ok.mp h
  have hmetadata (metadata : Json) (h : (do
      let revision ← required ((number metadata).filter fun n => 0 < n)
      let transition ← required ((metadata.get "last_transition").filter Json.isObject)
      reject (number transition ≠ some revision) Error.invalid
      let _ ← transitionId transition
      .ok (Snapshot.mk (Json.object (fields.remove "_durability")) revision (some transition)))
        = .ok snapshot) :
      ∃ t, snapshot.lastTransition = some t ∧ number t = some snapshot.revision ∧
        0 < snapshot.revision ∧ (idOf t).isSome := by
    simp only [bind_eq_ok, required_eq_ok, reject_eq_ok, not_not, transitionId_eq_ok] at h
    obtain ⟨revision, hrevision, t, -, -, hnumber, id, hid, heq⟩ := h
    simp only [Option.filter_eq_some_iff, decide_eq_true_eq] at hrevision
    cases heq
    exact ⟨t, rfl, hnumber, hrevision.2, by simp [hid]⟩
  cases hget : Fields.get fields "_durability" with
  | none =>
      rw [hget] at h
      cases h
      exact Or.inl ⟨rfl, rfl⟩
  | some metadata =>
      rw [hget] at h
      cases metadata with
      | null =>
          cases h
          exact Or.inl ⟨rfl, rfl⟩
      | _ => exact Or.inr (hmetadata _ h)

/-- The document without the metadata. -/
lemma fromValue_value {fields : Fields} (h : Snapshot.fromValue (.object fields) = .ok snapshot) :
    snapshot.value = .object (Fields.remove fields "_durability") := by
  simp only [Snapshot.fromValue, Json.asObject, required, ok_bind] at h
  cases hget : Fields.get fields "_durability" with
  | none => simp only [hget] at h; cases h; rfl
  | some metadata =>
      simp only [hget] at h
      cases metadata with
      | null => cases h; rfl
      | _ =>
          simp only [bind_eq_ok] at h
          obtain ⟨revision, -, t, -, -, -, -, -, heq⟩ := h
          cases heq
          rfl

/-- What a commit writes. -/
lemma commit_eq_ok {value event : Json} {expected : Option ℕ} {identity : String} {made : Commit}
    (h : commit enc snapshot events value event expected identity = .ok made) :
    missingTransition enc snapshot events = .ok none ∧ tokenValid identity = true ∧
      (∀ v ∈ events, (v.get "transition_id").bind Json.asStr ≠ some identity) ∧
      ∃ payload fields, value = .object payload ∧ event = .object fields ∧
        Fields.get payload "_durability" = none ∧ made.revision = snapshot.revision + 1 ∧
        made.revision < 2 ^ 64 ∧
        made.transition = .object ((Fields.insert fields "revision" (.ofNat made.revision)).insert
          "transition_id" (.string identity)) ∧
        made.head = .object (Fields.insert payload "_durability"
          (.object [("revision", .ofNat made.revision), ("last_transition", made.transition)])) := by
  unfold commit at h
  simp only [bind_eq_ok, required_eq_ok, reject_eq_ok, checkedNext_eq_ok, not_or] at h
  obtain ⟨missing, hmissing, -, ⟨hnone, -, hidentity, hfresh⟩, payload, hpayload, -, hplain, fields,
    hfields, -, -, revision, ⟨rfl, hbound⟩, heq⟩ := h
  cases heq
  refine ⟨?_, ?_, ?_, payload, fields, Json.asObject_eq_some.mp hpayload,
    Json.asObject_eq_some.mp hfields, by simpa using hplain, rfl, hbound, rfl, rfl⟩
  · rw [hmissing]
    simpa using hnone
  · simpa using hidentity
  · intro v hv hsame
    exact hfresh (List.any_eq_true.mpr ⟨v, hv, by simpa using hsame⟩)

/-- The transition of a commit carries its identity and its revision. -/
lemma made_transition {fields : Fields} {identity : String} {revision : ℕ}
    (hidentity : tokenValid identity = true) (hbound : revision < 2 ^ 64) :
    let t := Json.object ((Fields.insert fields "revision" (.ofNat revision)).insert
      "transition_id" (.string identity))
    idOf t = some identity ∧ number t = some revision ∧ isTransition t = true := by
  intro t
  have hget : t.get "transition_id" = some (.string identity) := by
    simp [t]
  have hnumber : t.get "revision" = some (.ofNat revision) := by
    simp only [t, Json.get_object]
    rw [Fields.get_insert_of_ne (by decide), Fields.get_insert_self]
  simp only [tokenValid, decide_eq_true_eq, Bool.decide_and, Bool.and_eq_true] at hidentity
  have hplain : identity ≠ "" := by
    rintro rfl
    exact absurd hidentity.1 (by decide)
  refine ⟨?_, ?_, ?_⟩
  · simp [idOf, hget, Json.asStr, hplain, hidentity.1]
  · simp [number, hnumber, Json.asU64_ofNat hbound]
  · simp [isTransition, hget]

/-- A document with metadata that is in order. -/
lemma fromValue_of_get {fields : Fields} {metadata t : Json} {id : String} {revision : ℕ}
    (hget : Fields.get fields "_durability" = some metadata)
    (hmetadata : number metadata = some revision) (hpositive : 0 < revision)
    (hlast : metadata.get "last_transition" = some t) (hobject : t.isObject = true)
    (hnumber : number t = some revision) (hid : idOf t = some id) :
    Snapshot.fromValue (.object fields) =
      .ok ⟨.object (Fields.remove fields "_durability"), revision, some t⟩ := by
  cases metadata with
  | null => simp [number, Json.get] at hmetadata
  | _ =>
      simp only [Snapshot.fromValue, Json.asObject, required, ok_bind, hget, hmetadata, hlast,
        Option.filter_some, hpositive, decide_true, if_true, hobject, hnumber, transitionId, hid,
        reject, ne_eq, not_true_eq_false, if_false]

/-- The head of a commit is read as the state with its transition. -/
lemma fromValue_head {payload : Fields} {t head : Json} {id : String} {revision : ℕ}
    (hhead : head = .object (Fields.insert payload "_durability"
      (.object [("revision", .ofNat revision), ("last_transition", t)])))
    (hid : idOf t = some id) (hnumber : number t = some revision) (hobject : t.isObject = true)
    (hbound : revision < 2 ^ 64) (hpositive : 0 < revision)
    (hread : Snapshot.fromValue head = .ok snapshot) :
    snapshot = ⟨.object ((Fields.insert payload "_durability"
      (.object [("revision", .ofNat revision), ("last_transition", t)])).remove "_durability"),
      revision, some t⟩ := by
  have hmetadata : number (.object [("revision", .ofNat revision), ("last_transition", t)]) =
      some revision := by
    simp [number, Fields.get_cons, Json.asU64_ofNat hbound]
  have hlast : (Json.object [("revision", .ofNat revision), ("last_transition", t)]).get
      "last_transition" = some t := by
    simp [Fields.get_cons]
  have hvalue := fromValue_of_get (Fields.get_insert_self "_durability" _ payload) hmetadata
    hpositive hlast hobject hnumber hid
  rw [hhead, hvalue] at hread
  exact (Except.ok.inj hread).symm

namespace Recorded

/-- One transition more. -/
lemma append (h : Recorded enc ts snapshot) {t : Json} {id : String} {next : Snapshot}
    (hid : idOf t = some id) (hfresh : ∀ old ∈ ts, idOf old ≠ some id)
    (hnumber : number t = some (ts.length + 1)) (hcanonical : enc.Canonical t)
    (hlast : next.lastTransition = some t) (hrevision : next.revision = ts.length + 1) :
    Recorded enc (ts ++ [t]) next := by
  have htransition := isTransition_of_idOf hid
  have hwhole : transitions (ts ++ [t]) = ts ++ [t] := by
    simp [transitions_append, h.whole, transitions_cons, htransition]
  refine ⟨hwhole, ⟨?_, ?_, ?_, ?_⟩, ?_, ?_, ?_⟩
  · intro other hother
    rcases List.mem_append.mp hother with hother | hother
    · exact h.contiguous.objects other hother
    · rw [List.mem_singleton.mp hother]
      exact isObject_of_isTransition htransition
  · intro other hother
    rw [hwhole] at hother
    rcases List.mem_append.mp hother with hother | hother
    · exact h.contiguous.named other (h.whole.symm ▸ hother)
    · rw [List.mem_singleton.mp hother]
      simp [hid]
  · rw [hwhole, Consecutive.append]
    refine ⟨h.whole ▸ h.contiguous.numbered, ?_⟩
    simp [hnumber]
  · rw [hwhole, List.map_append, List.nodup_append]
    refine ⟨h.whole ▸ h.contiguous.distinct, by simp, ?_⟩
    intro name hname other hother hsame
    obtain ⟨old, hold, rfl⟩ := List.mem_map.mp hname
    simp only [List.map_cons, List.map_nil, List.mem_singleton] at hother
    exact hfresh old hold (hsame.trans (hother.trans hid))
  · intro other hother
    rcases List.mem_append.mp hother with hother | hother
    · exact h.canonical other hother
    · rw [List.mem_singleton.mp hother]
      exact hcanonical
  · simp [hlast]
  · simp [hrevision]

end Recorded

/-- **The head of a run records the run.** -/
theorem recorded_of_runs (h : Runs enc ts snapshot) : Recorded enc ts snapshot := by
  induction h with
  | start hread hzero =>
      rcases fromValue_cases hread with ⟨-, hlast⟩ | ⟨t, -, -, hpositive, -⟩
      · exact ⟨rfl, ⟨by simp, by simp, by simp, by simp⟩, by simp, by simpa using hlast,
          by simpa using hzero⟩
      · omega
  | @commit ts events snapshot next value event expected identity made _ hevents hcommit hcanonical
      hread ih =>
      obtain ⟨-, hidentity, hfresh, payload, fields, -, -, -, hrevision, hbound, ht, hhead⟩ :=
        commit_eq_ok hcommit
      have hmade := @made_transition fields identity _ hidentity hbound
      rw [← ht] at hmade
      obtain ⟨hid, hnumber, htransition⟩ := hmade
      obtain rfl := fromValue_head hhead hid hnumber (isObject_of_isTransition htransition) hbound
        (by omega) hread
      rw [ih.revision] at hrevision
      refine ih.append hid ?_ (hrevision ▸ hnumber) hcanonical rfl hrevision
      intro old hold hsame
      have hmem : old ∈ transitions events := hevents.symm ▸ hold
      exact hfresh old (List.mem_of_mem_filter hmem) (Option.filter_eq_some_iff.mp hsame).1

/-! ## The journals of a run -/

namespace Recorded

/-- The last transition carries the revision of the head. -/
lemma of_split (h : Recorded enc ts snapshot) {front : List Json} {t : Json}
    (hsplit : ts = front ++ [t]) : snapshot.lastTransition = some t ∧
      number t = some snapshot.revision ∧ (idOf t).isSome ∧ ∀ old ∈ front, idOf old ≠ idOf t := by
  have hnumbered : Consecutive number 0 ts := h.whole ▸ h.contiguous.numbered
  have hnamed : ∀ t ∈ ts, (idOf t).isSome := fun t ht => h.contiguous.named t (h.whole.symm ▸ ht)
  have hdistinct : (ts.map idOf).Nodup := h.whole ▸ h.contiguous.distinct
  have hlast := h.last
  have hrevision := h.revision
  rw [hsplit] at hnumbered hdistinct hlast hrevision
  simp only [Consecutive.append, Consecutive.cons, Nat.zero_add] at hnumbered
  simp only [List.length_append, List.length_singleton] at hrevision
  simp only [List.map_append, List.map_cons, List.map_nil, List.nodup_append] at hdistinct
  refine ⟨by simpa using hlast, by rw [hnumbered.2.1, hrevision], hnamed t (by simp [hsplit]), ?_⟩
  intro old hold hsame
  exact hdistinct.2.2 (idOf old) (List.mem_map_of_mem hold) (idOf t) (by simp) hsame

variable (hobjects : ∀ event ∈ events, event.isObject = true)
include hobjects

/-- A journal with a front of the transitions is in order. -/
lemma contiguous_of_front (h : Recorded enc ts snapshot) (hfront : transitions events <+: ts) :
    Contiguous 0 events := by
  obtain ⟨rest, hrest⟩ := hfront
  have hwhole := h.whole
  refine ⟨hobjects, ?_, ?_, ?_⟩
  · intro t ht
    exact h.contiguous.named t (hwhole.symm ▸ hrest ▸ List.mem_append_left _ ht)
  · have hnumbered : Consecutive number 0 ts := hwhole ▸ h.contiguous.numbered
    rw [← hrest, Consecutive.append] at hnumbered
    exact hnumbered.1
  · have hdistinct : (ts.map idOf).Nodup := hwhole ▸ h.contiguous.distinct
    rw [← hrest, List.map_append, List.nodup_append] at hdistinct
    exact hdistinct.1

/-- Nothing is missing of the whole journal. -/
lemma missing_whole (h : Recorded enc ts snapshot) (hevents : transitions events = ts) :
    missingTransition enc snapshot events = .ok none := by
  refine missingTransition_eq_ok.mpr
    ⟨h.contiguous_of_front hobjects (hevents ▸ List.prefix_rfl), Or.inl ⟨rfl, ?_⟩⟩
  rcases List.eq_nil_or_concat ts with rfl | ⟨front, t, hsplit⟩
  · exact Or.inl ⟨by simpa using h.last, hevents, by simpa using h.revision⟩
  · rw [List.concat_eq_append] at hsplit
    obtain ⟨hhead, -, -, -⟩ := h.of_split hsplit
    refine Or.inr ⟨t, t, hhead, ?_, rfl, ?_, ?_⟩
    · simp [hevents, hsplit]
    · rw [hevents, h.revision]
    · exact enc.equal_self.mpr (h.canonical t (by simp [hsplit]))

/-- The last transition is missing of the journal before it. -/
lemma missing_last (h : Recorded enc ts snapshot) {t : Json}
    (hsplit : ts = transitions events ++ [t]) :
    missingTransition enc snapshot events = .ok (some t) := by
  have hfront : transitions events <+: ts := ⟨[t], hsplit.symm⟩
  obtain ⟨hhead, hnumber, hnamed, hfresh⟩ := h.of_split hsplit
  obtain ⟨id, hid⟩ := Option.isSome_iff_exists.mp hnamed
  have hjournal := h.contiguous_of_front hobjects hfront
  refine missingTransition_eq_ok.mpr ⟨hjournal, Or.inr ⟨t, rfl, hhead, ?_, number_lt hnumber,
    id, hid, ?_⟩⟩
  · rw [h.revision, hsplit]
    simp
  · intro event hevent htext
    have htransition : isTransition event = true := by
      obtain ⟨field, hfield, -⟩ := Option.bind_eq_some_iff.mp htext
      simp [isTransition, hfield]
    have hmem : event ∈ transitions events := List.mem_filter.mpr ⟨hevent, htransition⟩
    obtain ⟨other, hother⟩ := Option.isSome_iff_exists.mp (hjournal.named event hmem)
    have hsame := text_of_idOf hother
    rw [htext, Option.some.injEq] at hsame
    exact hfresh event hmem (by rw [hother, hid, hsame])

end Recorded

/-- **The journal loses its last transition, or nothing.** Of the journals that hold transitions of
a run only, in any order, with repetitions and with other events in between, the one with all of
them lacks nothing and the one without the last of them lacks that one; every other is refused. And
whatever a journal holds that is accepted, it is in order, it is as long as the run or one shorter,
and with what it lacks it ends in the last transition of the run. -/
theorem missingTransition_exact (hrun : Runs enc ts snapshot) :
    (∀ events : List Json, (∀ event ∈ events, event.isObject = true) →
      (∀ t ∈ transitions events, t ∈ ts) →
        (missingTransition enc snapshot events = .ok none ↔ transitions events = ts) ∧
        ∀ t, missingTransition enc snapshot events = .ok (some t) ↔
          ts = transitions events ++ [t]) ∧
    ∀ (events : List Json) (missing : Option Json),
      missingTransition enc snapshot events = .ok missing →
        Contiguous 0 events ∧ (transitions events ++ missing.toList).length = ts.length ∧
          ∀ t, ts.getLast? = some t → ∃ last,
            (transitions events ++ missing.toList).getLast? = some last ∧
              enc.equal t last = true := by
  have h := recorded_of_runs hrun
  have hnumbered : Consecutive number 0 ts := h.whole ▸ h.contiguous.numbered
  refine ⟨?_, ?_⟩
  · intro events hobjects hdrawn
    refine ⟨⟨?_, h.missing_whole hobjects⟩, fun t => ⟨?_, h.missing_last hobjects⟩⟩
    · intro hmissing
      obtain ⟨hjournal, ⟨-, hwhole⟩ | ⟨head, hnone, -⟩⟩ := missingTransition_eq_ok.mp hmissing
      · refine (hnumbered.front hjournal.numbered hdrawn).eq_of_length ?_
        rcases hwhole with ⟨-, hnil, hzero⟩ | ⟨head, last, -, -, -, hrevision, -⟩
        · rw [hnil, ← h.revision, hzero, List.length_nil]
        · rw [← hrevision, h.revision]
      · cases hnone
    · intro hmissing
      obtain ⟨hjournal, ⟨hnone, -⟩ | ⟨head, hsome, hhead, hrevision, -⟩⟩ :=
        missingTransition_eq_ok.mp hmissing
      · cases hnone
      · cases hsome
        obtain ⟨rest, hrest⟩ := hnumbered.front hjournal.numbered hdrawn
        rw [h.revision, ← hrest, List.length_append] at hrevision
        obtain ⟨last, rfl⟩ := List.length_eq_one_iff.mp (by omega : rest.length = 1)
        obtain ⟨hlast, -⟩ := h.of_split hrest.symm
        rw [hhead, Option.some.injEq] at hlast
        rw [← hrest, hlast]
  · intro events missing hmissing
    obtain ⟨hjournal, ⟨rfl, hwhole⟩ | ⟨head, rfl, hhead, hrevision, -⟩⟩ :=
      missingTransition_eq_ok.mp hmissing
    · refine ⟨hjournal, ?_, ?_⟩
      · rcases hwhole with ⟨-, hnil, hzero⟩ | ⟨head, last, -, -, -, hrevision, -⟩
        · simp [hnil, ← h.revision, hzero]
        · simp [← hrevision, h.revision]
      · intro t ht
        rcases hwhole with ⟨hnone, -⟩ | ⟨head, last, hhead, hlast, -, -, hequal⟩
        · rw [← h.last, hnone] at ht
          cases ht
        · rw [← h.last, hhead, Option.some.injEq] at ht
          exact ⟨last, by simpa using hlast, ht ▸ hequal⟩
    · refine ⟨hjournal, by simp [← hrevision, h.revision], ?_⟩
      intro t ht
      rw [← h.last, hhead, Option.some.injEq] at ht
      refine ⟨head, by simp, ?_⟩
      rw [← ht]
      refine enc.equal_self.mpr (h.canonical head (List.mem_of_getLast? ?_))
      rw [← h.last, hhead]

end Runs

/-! ## A sampled run -/

def sampleIdentity : String := "0123456789abcdef0123456789abcdef"

def sampleTransition : Json :=
  .object [("event", .string "BOOTSTRAP"), ("revision", .ofNat 1),
    ("transition_id", .string sampleIdentity)]

def sampleHead : Json :=
  .object [("_durability",
    .object [("revision", .ofNat 1), ("last_transition", sampleTransition)])]

def sampleEncoding : Encoding := Encoding.sampleFormat.encoding fun _ => ""

lemma runs_sample : Runs sampleEncoding [sampleTransition] ⟨.object [], 1, some sampleTransition⟩ := by
  have hcommit : commit sampleEncoding ⟨.object [], 0, none⟩ [] (.object [])
      (.object [("event", .string "BOOTSTRAP")]) (some 0) sampleIdentity =
        .ok ⟨sampleHead, sampleTransition, 1⟩ := by rfl
  exact Runs.commit (@Runs.start sampleEncoding (.object []) _ rfl rfl) rfl hcommit ⟨_, rfl⟩ rfl

/-- After one commit an empty journal lacks its transition. -/
theorem missingTransition_sampled : missingTransition sampleEncoding
    ⟨.object [], 1, some sampleTransition⟩ [] = .ok (some sampleTransition) :=
  (((missingTransition_exact runs_sample).1 [] (by simp) (by simp)).2 sampleTransition).mpr rfl

end Durable

end ExperimentControl
