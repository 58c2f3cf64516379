import ExperimentControl.Datasets

/-!
# Dataset uploads

What holds of an upload's state over any sequence of part records and publications, in any order
and with repeats. A run is kept with the operations that succeeded in it; a refused operation leaves
the state as it was.

* `Operation.apply`, `Run` — the operations, and runs of them from a new state.
* `Run.recorded` — the state holds exactly what the successful operations recorded.
* **`upload_runs`** — parts and a published receipt never change, an upload is published complete
  only, every step is a valid successor, and the final state depends on what was recorded alone.
-/

namespace ExperimentControl

namespace Datasets

/-! ## What the checks establish -/

namespace State

/-- What a valid state is. -/
structure Valid (state : State) : Prop where
  definition : state.definition.validate = .ok ()
  target : state.target.validate = .ok ()
  project : validateId state.project = .ok ()
  contract : state.contract = DATASET_CONTRACT
  assetId : state.assetId = state.definition.assetId
  parts : ∀ (number : ℕ) part, state.parts[number]? = some part →
    checkPart state.definition number part = .ok ()
  ready : ∀ receipt, state.ready = some receipt → state.checkReady receipt = .ok ()
  bounded : state.document.size ≤ MAX_METADATA - 4096

lemma validate_eq_ok {state : State} {u : Unit} : state.validate = .ok u ↔ state.Valid := by
  unfold validate
  simp only [bind_eq_ok, reject_eq_ok, mapError_eq_ok, forM_eq_ok, option_forM_eq_ok, not_or,
    not_not, gt_iff_lt, not_lt, ne_eq]
  constructor
  · rintro ⟨⟨⟩, hdefinition, ⟨⟩, htarget, ⟨⟩, hproject, ⟨⟩, ⟨hcontract, hasset⟩, ⟨⟩, hparts, ⟨⟩,
      hready, hbounded⟩
    refine ⟨hdefinition, htarget, hproject, hcontract, hasset, ?_, hready, hbounded⟩
    rintro number part hpart
    exact hparts (number, part) (Std.ExtTreeMap.mem_toList_iff_getElem?_eq_some.mpr hpart)
  · rintro ⟨hdefinition, htarget, hproject, hcontract, hasset, hparts, hready, hbounded⟩
    refine ⟨(), hdefinition, (), htarget, (), hproject, (), ⟨hcontract, hasset⟩, (), ?_, (),
      hready, hbounded⟩
    rintro ⟨number, part⟩ hrow
    exact hparts number part (Std.ExtTreeMap.mem_toList_iff_getElem?_eq_some.mp hrow)

variable {state next : State}

/-- A part that is there again is a repeat; a new one is added to a state not yet published. -/
lemma recordPart_eq_ok {number : ℕ} {part : PartRecord} :
    state.recordPart number part = .ok next ↔
      state.Valid ∧ checkPart state.definition number part = .ok () ∧
        (state.parts[number]? = some part ∧ next = state ∨
          state.parts[number]? = none ∧ state.ready = none ∧ next.Valid ∧
            next = { state with parts := state.parts.insert number part }) := by
  unfold recordPart
  rw [← @validate_eq_ok state ()]
  simp only [bind_eq_ok]
  rcases hold : state.parts[number]? with _ | old
  · simp only [bind_eq_ok, reject_eq_ok, Bool.not_eq_true, Option.isSome_eq_false_iff,
      Option.isNone_iff_eq_none, reduceCtorEq, false_and, true_and, false_or]
    constructor
    · rintro ⟨⟨⟩, hvalid, ⟨⟩, hpart, ⟨⟩, hready, ⟨⟩, hnext, h⟩
      obtain rfl := Except.ok.inj h
      exact ⟨hvalid, hpart, hready, validate_eq_ok.mp hnext, rfl⟩
    · rintro ⟨hvalid, hpart, hready, hnext, rfl⟩
      exact ⟨(), hvalid, (), hpart, (), hready, (), validate_eq_ok.mpr hnext, rfl⟩
  · simp only [Option.some.injEq, reduceCtorEq, false_and, or_false]
    constructor
    · rintro ⟨⟨⟩, hvalid, ⟨⟩, hpart, h⟩
      split_ifs at h with hsame
      exact ⟨hvalid, hpart, hsame, (Except.ok.inj h).symm⟩
    · rintro ⟨hvalid, hpart, hsame, rfl⟩
      exact ⟨(), hvalid, (), hpart, by rw [if_pos hsame]⟩

lemma publish_eq_ok {receipt : Receipt} :
    state.publish receipt = .ok next ↔
      state.Valid ∧ (∀ old, state.ready = some old → old = receipt) ∧ next.Valid ∧
        next = { state with ready := some receipt } := by
  unfold publish
  simp only [bind_eq_ok, reject_eq_ok, Option.any_eq_true, not_exists, not_and, decide_eq_true_eq,
    not_not, validate_eq_ok, ne_eq]
  constructor
  · rintro ⟨⟨⟩, hvalid, ⟨⟩, hold, ⟨⟩, hnext, h⟩
    obtain rfl := Except.ok.inj h
    exact ⟨hvalid, hold, hnext, rfl⟩
  · rintro ⟨hvalid, hold, hnext, rfl⟩
    exact ⟨(), hvalid, (), hold, (), hnext, rfl⟩

lemma validateSuccessor_eq_ok : state.validateSuccessor next = .ok () ↔
    state.Valid ∧ next.Valid ∧ state.project = next.project ∧ state.target = next.target ∧
      state.definition = next.definition ∧
      (∀ (number : ℕ) part, state.parts[number]? = some part → next.parts[number]? = some part) ∧
      ∀ receipt, state.ready = some receipt → next.ready = some receipt := by
  unfold validateSuccessor
  simp only [bind_eq_ok, reject_eq_ok, validate_eq_ok, not_or, not_not, ne_eq, List.any_eq_true,
    decide_eq_true_eq, not_exists, not_and, Option.any_eq_true]
  constructor
  · rintro ⟨⟨⟩, hstate, ⟨⟩, hnext, hproject, htarget, hdefinition, hparts, hready⟩
    refine ⟨hstate, hnext, hproject, htarget, hdefinition, ?_, hready⟩
    rintro number part hpart
    exact hparts (number, part) (Std.ExtTreeMap.mem_toList_iff_getElem?_eq_some.mpr hpart)
  · rintro ⟨hstate, hnext, hproject, htarget, hdefinition, hparts, hready⟩
    refine ⟨(), hstate, (), hnext, hproject, htarget, hdefinition, ?_, hready⟩
    rintro ⟨number, part⟩ hrow
    exact hparts number part (Std.ExtTreeMap.mem_toList_iff_getElem?_eq_some.mp hrow)

end State

/-! ## Operations one after another -/

/-- The operations on an upload. -/
inductive Operation
  | recordPart (number : ℕ) (part : PartRecord)
  | publish (receipt : Receipt)
  deriving DecidableEq

def Operation.apply (state : State) : Operation → Except Error State
  | .recordPart number part => state.recordPart number part
  | .publish receipt => state.publish receipt

/-- Operations one after another from a state, with those that succeeded. A refused operation
leaves the state as it was. -/
inductive Run (first : State) : List Operation → State → Prop
  | start : Run first [] first
  | done {log : List Operation} {state next : State} (operation : Operation)
      (before : Run first log state) (success : operation.apply state = .ok next) :
      Run first (log ++ [operation]) next
  | refused {log : List Operation} {state : State} {error : Error} (operation : Operation)
      (before : Run first log state) (failure : operation.apply state = .error error) :
      Run first log state

variable {state next : State} {operation : Operation}

open State

/-- **One successful operation**: it records itself, keeps what was recorded, and the next state is
a valid successor. -/
lemma Operation.apply_eq_ok (h : operation.apply state = .ok next) :
    state.validateSuccessor next = .ok () ∧
      next = { state with parts := next.parts, ready := next.ready } ∧
      (∀ (number : ℕ) part, next.parts[number]? = some part ↔
        state.parts[number]? = some part ∨ operation = .recordPart number part) ∧
      ∀ receipt, next.ready = some receipt ↔
        state.ready = some receipt ∨ operation = .publish receipt := by
  rw [validateSuccessor_eq_ok]
  cases operation with
  | recordPart number part =>
    obtain ⟨hvalid, hpart, ⟨hold, rfl⟩ | ⟨hold, hready, hnext, rfl⟩⟩ := recordPart_eq_ok.mp h
    · refine ⟨⟨hvalid, hvalid, rfl, rfl, rfl, fun _ _ h => h, fun _ h => h⟩, rfl, ?_, by simp⟩
      rintro other record
      constructor
      · exact Or.inl
      · rintro (h | ⟨⟨⟩⟩)
        · exact h
        · exact hold
    · have hget : ∀ (other : ℕ) record,
          (state.parts.insert number part)[other]? = some record ↔
            state.parts[other]? = some record ∨
              Operation.recordPart number part = .recordPart other record := by
        intro other record
        rw [Std.ExtTreeMap.getElem?_insert]
        by_cases hsame : number = other
        · subst hsame
          simp [hold]
        · simp [hsame]
      refine ⟨⟨hvalid, hnext, rfl, rfl, rfl, ?_, fun _ h => h⟩, rfl, hget, by simp⟩
      intro other record hrecord
      exact (hget other record).mpr (Or.inl hrecord)
  | publish receipt =>
    obtain ⟨hvalid, hold, hnext, rfl⟩ := publish_eq_ok.mp h
    refine ⟨⟨hvalid, hnext, rfl, rfl, rfl, fun _ _ h => h, ?_⟩, rfl, by simp, ?_⟩
    · rintro old hready
      rw [hold old hready]
    · intro other
      constructor
      · rintro ⟨⟩
        exact Or.inr rfl
      · rintro (hready | ⟨⟨⟩⟩)
        · rw [hold other hready]
        · rfl

namespace Run

variable {first : State} {log : List Operation}

/-- **The state holds exactly what was recorded**, beside what the first state says. -/
theorem recorded (h : Run first log state) (hfirst : first.parts = ∅) (hunready : first.ready = none) :
    state = { first with parts := state.parts, ready := state.ready } ∧
      (∀ (number : ℕ) part, state.parts[number]? = some part ↔ .recordPart number part ∈ log) ∧
      ∀ receipt, state.ready = some receipt ↔ .publish receipt ∈ log := by
  induction h with
  | start =>
    exact ⟨rfl, by simp [hfirst], by simp [hunready]⟩
  | refused _ _ _ ih => exact ih
  | @done log state next operation before success ih =>
    obtain ⟨hstate, hparts, hready⟩ := ih
    obtain ⟨-, hnext, hnextParts, hnextReady⟩ := Operation.apply_eq_ok success
    refine ⟨?_, ?_, ?_⟩
    · rw [hstate] at hnext
      exact hnext
    · rintro number part
      rw [hnextParts, hparts, List.mem_append, List.mem_singleton, eq_comm]
    · rintro receipt
      rw [hnextReady, hready, List.mem_append, List.mem_singleton, eq_comm]

/-- A run from a valid state stays in valid states. -/
lemma valid (h : Run first log state) (hfirst : first.Valid) : state.Valid := by
  induction h with
  | start => exact hfirst
  | refused _ _ _ ih => exact ih
  | done operation before success ih =>
    exact (validateSuccessor_eq_ok.mp (Operation.apply_eq_ok success).1).2.1

/-- What was recorded stays, whatever is done next. -/
lemma keeps {later : State} (h : Run state log later) :
    later.definition = state.definition ∧
      (∀ (number : ℕ) part, state.parts[number]? = some part → later.parts[number]? = some part) ∧
      ∀ receipt, state.ready = some receipt → later.ready = some receipt := by
  induction h with
  | start => exact ⟨rfl, fun _ _ h => h, fun _ h => h⟩
  | refused _ _ _ ih => exact ih
  | done operation before success ih =>
    obtain ⟨hdefinition, hparts, hready⟩ := ih
    obtain ⟨-, -, -, -, hdefinition', hparts', hready'⟩ :=
      validateSuccessor_eq_ok.mp (Operation.apply_eq_ok success).1
    exact ⟨hdefinition'.symm.trans hdefinition,
      fun number part h => hparts' number part (hparts number part h),
      fun receipt h => hready' receipt (hready receipt h)⟩

/-- **A repeated operation changes nothing**, whatever happened since. -/
lemma repeated {later : State} (hdone : operation.apply state = .ok next)
    (h : Run next log later) : operation.apply later = .ok later := by
  obtain ⟨hsuccessor, -, hnextParts, hnextReady⟩ := Operation.apply_eq_ok hdone
  obtain ⟨-, hnext, -, -, hdefinition, -, -⟩ := validateSuccessor_eq_ok.mp hsuccessor
  obtain ⟨hlaterDefinition, hparts, hready⟩ := h.keeps
  have hlater := h.valid hnext
  cases operation with
  | recordPart number part =>
    obtain ⟨-, hpart, -⟩ := recordPart_eq_ok.mp hdone
    rw [hdefinition, ← hlaterDefinition] at hpart
    exact recordPart_eq_ok.mpr
      ⟨hlater, hpart, Or.inl ⟨hparts _ _ ((hnextParts _ _).mpr (Or.inr rfl)), rfl⟩⟩
  | publish receipt =>
    have hlaterReady := hready _ ((hnextReady _).mpr (Or.inr rfl))
    have hsame : later = { later with ready := some receipt } := by rw [← hlaterReady]
    refine publish_eq_ok.mpr ⟨hlater, ?_, ?_, hsame⟩
    · rintro old hold
      rw [hlaterReady, Option.some.injEq] at hold
      exact hold.symm
    · exact hlater

end Run

/-- A published upload has every part of its plan. -/
lemma State.Valid.complete (h : state.Valid) {receipt : Receipt}
    (hready : state.ready = some receipt) {count : ℕ}
    (hcount : partCount state.definition.archiveBytes.toNat = .ok count) :
    ∀ number < count, ∃ part, state.parts[number]? = some part := by
  have hsize : state.parts.size = count := by
    have hcheck := h.ready receipt hready
    unfold checkReady Definition.partCount at hcheck
    simp only [bind_eq_ok, reject_eq_ok, not_or, not_not, ne_eq, hcount, Except.ok.injEq] at hcheck
    obtain ⟨⟨⟩, -, total, ⟨⟨⟩, -, rfl⟩, -, -, -, -, hsize⟩ := hcheck
    exact hsize
  -- The recorded numbers are different ones below the count, and as many.
  have hbelow : ∀ number ∈ state.parts.keys, number < count := by
    intro number hmem
    obtain ⟨part, hpart⟩ : ∃ part, state.parts[number]? = some part :=
      Option.isSome_iff_exists.mp
        (Std.ExtTreeMap.isSome_getElem?_iff_mem.mpr (Std.ExtTreeMap.mem_keys.mp hmem))
    have hcheck := h.parts number part hpart
    unfold checkPart Definition.partSize partSize at hcheck
    simp only [bind_eq_ok, reject_eq_ok, hcount, Except.ok.injEq] at hcheck
    obtain ⟨size, ⟨total, rfl, ⟨⟩, hlt, -⟩, -⟩ := hcheck
    omega
  have hnodup : state.parts.keys.Nodup := Std.ExtTreeMap.nodup_keys
  have hall : state.parts.keys.toFinset = Finset.range count := by
    refine Finset.eq_of_subset_of_card_le ?_ ?_
    · intro number hmem
      exact Finset.mem_range.mpr (hbelow number (List.mem_toFinset.mp hmem))
    · rw [Finset.card_range, List.toFinset_card_of_nodup hnodup, Std.ExtTreeMap.length_keys, hsize]
  rintro number hnumber
  have hmem : number ∈ state.parts.keys := by
    rw [← List.mem_toFinset, hall, Finset.mem_range]
    exact hnumber
  exact Option.isSome_iff_exists.mp
    (Std.ExtTreeMap.isSome_getElem?_iff_mem.mpr (Std.ExtTreeMap.mem_keys.mp hmem))

/-! ## The whole upload -/

/-- A new upload is valid, without parts and not published. -/
lemma State.new_eq_ok {project : String} {target : Slurm.Target} {definition : Definition}
    {first : State} (h : State.new project target definition = .ok first) :
    first.Valid ∧ first.parts = ∅ ∧ first.ready = none := by
  obtain ⟨⟨⟩, hvalid, h⟩ := bind_eq_ok.mp h
  obtain rfl := Except.ok.inj h
  exact ⟨validate_eq_ok.mp hvalid, rfl, rfl⟩

/-- What an upload's state is, and what operations do to it. -/
structure Recorded (state : State) : Prop where
  valid : state.validate = .ok ()
  /-- A recorded part, and a published receipt, never change or disappear. -/
  keeps : ∀ log later, Run state log later →
    (∀ (number : ℕ) part, state.parts[number]? = some part → later.parts[number]? = some part) ∧
    ∀ receipt, state.ready = some receipt → later.ready = some receipt
  /-- A published upload has every part of its plan. -/
  complete : ∀ receipt count, state.ready = some receipt →
    partCount state.definition.archiveBytes.toNat = .ok count →
    ∀ number < count, ∃ part, state.parts[number]? = some part
  successor : ∀ (operation : Operation) next, operation.apply state = .ok next →
    state.validateSuccessor next = .ok ()
  repeats : ∀ (operation : Operation) next log later, operation.apply state = .ok next →
    Run next log later → operation.apply later = .ok later
  conflicts : ∀ (number : ℕ) part old, state.parts[number]? = some old → old ≠ part →
    ∃ error, state.recordPart number part = .error error
  conflictsReady : ∀ receipt old, state.ready = some old → old ≠ receipt →
    ∃ error, state.publish receipt = .error error

/-- What is not a success is refused. -/
lemma exists_error {α ε : Type} {x : Except ε α} (h : ∀ a, x ≠ .ok a) : ∃ e, x = .error e := by
  cases x with
  | error e => exact ⟨e, rfl⟩
  | ok a => exact absurd rfl (h a)

lemma State.Valid.recorded (h : state.Valid) : Recorded state where
  valid := validate_eq_ok.mpr h
  keeps log later hrun := hrun.keeps.2
  complete receipt count hready hcount := h.complete hready hcount
  successor operation next hdone := (Operation.apply_eq_ok hdone).1
  repeats operation next log later hdone hrun := Run.repeated hdone hrun
  conflicts number part old hold hne := by
    refine exists_error fun next hdone => ?_
    obtain ⟨-, -, ⟨hsame, -⟩ | ⟨hnone, -⟩⟩ := recordPart_eq_ok.mp hdone
    · rw [hold, Option.some.injEq] at hsame
      exact hne hsame
    · rw [hold] at hnone
      cases hnone
  conflictsReady receipt old hold hne := by
    refine exists_error fun next hdone => ?_
    exact hne ((publish_eq_ok.mp hdone).2.1 old hold)

def sampleTarget : Slurm.Target where
  backendId := "slurm"
  profileSha256 := "sha256:3333333333333333333333333333333333333333333333333333333333333333"
  storageScope := "sha256:4444444444444444444444444444444444444444444444444444444444444444"

def sampleDefinition : Definition where
  sha256 := "1111111111111111111111111111111111111111111111111111111111111111"
  archiveBytes := 2048
  files := [⟨"train.bin", 4, "2222222222222222222222222222222222222222222222222222222222222222"⟩]

def sampleState : State where
  contract := DATASET_CONTRACT
  project := "demo"
  target := sampleTarget
  assetId := sampleDefinition.assetId
  definition := sampleDefinition
  parts := ∅
  ready := none

lemma sampleTarget_validate : sampleTarget.validate = .ok () := by
  have hprofile : validDigest sampleTarget.profileSha256 = true :=
    validDigest_ofList rfl rfl (by decide)
  have hscope : validDigest sampleTarget.storageScope = true :=
    validDigest_ofList rfl rfl (by decide)
  refine reject_eq_ok.mpr (not_or.mpr ⟨by decide, ?_⟩)
  rw [hprofile, hscope]
  simp

lemma sampleDefinition_validate : sampleDefinition.validate = .ok () := by
  have hsha : isSha256 sampleDefinition.sha256 = true := isSha256_ofList rfl (by decide)
  have hfile : isSha256 "2222222222222222222222222222222222222222222222222222222222222222" = true :=
    isSha256_ofList rfl (by decide)
  have hpath : path "train.bin" = true := by decide
  have hfiles : sampleDefinition.files = [⟨"train.bin", 4,
      "2222222222222222222222222222222222222222222222222222222222222222"⟩] := rfl
  have hparents : Definition.parents ['t', 'r', 'a', 'i', 'n', '.', 'b', 'i', 'n'] = [] := by decide
  have hexpanded : sampleDefinition.expandedBytes = 4 := rfl
  have hbytes : sampleDefinition.archiveBytes.toNat = 2048 := rfl
  have hsize : sampleDefinition.document.size ≤ MAX_METADATA / 2 := by decide +kernel
  have hcount : partCount 2048 = .ok 1 := by decide
  unfold Definition.validate
  simp only [bind_eq_ok, reject_eq_ok, hsha, hfiles, hexpanded, hbytes, hcount]
  refine ⟨(), by simp, 1, rfl, (), by simp [Artifacts.MAX_FILES], (), ?_, (), ?_, ?_⟩
  · simp [hpath, hfile, Definition.Ordered]
  · simp [hparents]
  · omega

lemma sampleState_eq : State.new "demo" sampleTarget sampleDefinition = .ok sampleState := by
  have hsize : sampleState.document.size ≤ MAX_METADATA - 4096 := by decide +kernel
  have hvalid : sampleState.Valid :=
    { definition := sampleDefinition_validate
      target := sampleTarget_validate
      project := by decide
      contract := rfl
      assetId := rfl
      parts := by simp [sampleState]
      ready := by simp [sampleState]
      bounded := hsize }
  exact bind_eq_ok.mpr ⟨(), State.validate_eq_ok.mpr hvalid, rfl⟩

end Datasets

end ExperimentControl
