import ExperimentControl.Managed.Evidence

/-!
# The phase ledger

What `worker/src/managed.rs` reads of an Attempt root: the ledger of phases, the frozen runtime
environment, the sealed manifest and the receipt (`core/src/managed.rs`, `core/src/launch.rs`).

* `state` — what the bytes of a ledger say, and **`state_started`**: a ledger with a second line
  never reads as prepared, whatever its lines are.
* `verified`, `boundReceipt` — the manifest and the receipt of one launch.
* `Observed` — what an observation says about its own configuration.
-/

namespace ExperimentControl

namespace Managed

open Slurm

/-- `evidence::CONTRACT`. -/
def LAUNCH_CONTRACT : String := "rust-managed-launch.v1"

/-- `launch::MAX_BYTES`. -/
def MANIFEST_BYTES : ℕ := 256 * 1024

inductive LaunchError
  | configuration
  | manifest
  | unsupported
  | storage
  | binding
  | busy
  | uncertain
  | cancelled
  | startup
  | dataPreparation (code : String)
  deriving DecidableEq, Repr

/-! ## Configuration -/

/-- The identity and the checksum of a sealed manifest. -/
structure Binding where
  identity : Identity
  sha256 : String
  deriving DecidableEq, Repr

/-- `validate_identity`. -/
def Identity.valid (identity : Identity) : Prop :=
  validateId identity.project = .ok () ∧ validateId identity.runId = .ok () ∧
    validateAttempt identity.attemptId = .ok ()

/-- `Binding::validate`. -/
def Binding.valid (binding : Binding) : Prop := binding.identity.valid ∧ isSha256 binding.sha256 = true

/-- The variables of a process, each name once. -/
abbrev Environment := List (String × String)

namespace Environment

/-- A name of a variable. -/
def key (name : String) : Bool :=
  name.toList.head?.any (fun c => c.isAlpha ∨ c = '_') ∧
    name.toList.tail.all fun c => c.isAlphanum ∨ c = '_'

/-- `managed::environment`. -/
def valid (values : Environment) : Bool :=
  values.length ≤ 512 ∧ (values.all fun (name, value) => key name ∧ '\x00' ∉ value.toList) ∧
    (values.map fun (name, value) => byteLen name + byteLen value + 2).sum ≤ 128 * 1024

/-- `BTreeMap::extend`. -/
def extend (values more : Environment) : Environment :=
  values.filter (fun (name, _) => more.lookup name = none) ++ more

end Environment

structure LaunchManifest where
  contract : String
  identity : Identity
  environment : Environment
  argv : List String
  workdir : String
  timeoutSeconds : ℕ
  deriving DecidableEq, Repr

/-- A sealed configuration, as far as a launch reads it. -/
structure LaunchConfig where
  binding : Binding
  /-- The digest of the whole configuration. -/
  digest : String
  runtimeEnvironment : List String
  /-- The code is delivered into the Attempt root. -/
  workdirInside : Bool
  /-- There is a plan to prepare data. -/
  preparation : Bool
  /-- There is a checkpoint to restore. -/
  restore : Bool
  /-- How many datasets are mounted. -/
  datasets : ℕ
  /-- `execution_environment`, from the manifest of this configuration. -/
  environment : LaunchManifest → Except LaunchError Environment
  /-- `Config::validate` has passed. -/
  bound : binding.valid

/-- `Config::validate_runtime`. -/
def LaunchConfig.validateRuntime (config : LaunchConfig) (values : Environment) :
    Except LaunchError Unit :=
  reject (¬values.valid ∨ values.any fun (name, value) =>
    name ∉ config.runtimeEnvironment ∨ byteLen value > 16384) .configuration

/-! ## Records -/

/-- A line of the ledger. -/
structure PhaseRecord where
  contract : String
  phase : Phase
  bindingSha256 : String
  receiptSha256 : Option String
  runtimeEnvironmentSha256 : Option String
  deriving DecidableEq, Repr

/-- The encodings of the records of an Attempt root, and its hash. -/
structure LaunchCodec where
  sha256 : Bytes → String
  /-- `serde_json::to_vec` of a record, and reading one. -/
  record : PhaseRecord → Bytes
  readRecord : Bytes → Option PhaseRecord
  receipt : Receipt → Bytes
  readReceipt : Bytes → Option Receipt
  environment : Environment → Bytes
  readEnvironment : Bytes → Option Environment
  /-- Reading a manifest in its one canonical encoding. -/
  readManifest : Bytes → Option LaunchManifest

/-- A value that was read, or the error of reading none. -/
def readOr {ε α : Type} (e : ε) : Option α → Except ε α
  | some a => .ok a
  | none => .error e

lemma readOr_eq_ok {ε α : Type} {e : ε} {x : Option α} {a : α} :
    readOr e x = .ok a ↔ x = some a := by
  cases x with
  | none => simp [readOr]
  | some b => simp [readOr]

/-- `evidence::training`. -/
def training (process : ProcessEvidence) : Training :=
  if process.timedOut then .timedOut
  else if process.cancelled then .cancelled
  else if process.exitCode = some 0 then .completed
  else if process.exitCode.isSome ∨ process.terminationSignal.isSome then .failed
  else .unknown

section Reading

variable (codec : LaunchCodec) (config : LaunchConfig)

/-- One line of the ledger behind the record of the line before it. -/
def stateLine (last : Option PhaseRecord) (line : Bytes) (phase : Phase) :
    Except LaunchError PhaseRecord := do
  let record ← readOr .uncertain (codec.readRecord line)
  reject (record.contract ≠ LAUNCH_CONTRACT ∨ record.bindingSha256 ≠ config.digest) .binding
  reject ((last.any fun previous =>
      previous.runtimeEnvironmentSha256 ≠ record.runtimeEnvironmentSha256) ∨
    (record.runtimeEnvironmentSha256.any fun value => ¬isSha256 value) ∨
    record.phase ≠ phase ∨
    (phase = .finished ↔ ¬record.receiptSha256.any isSha256) ∨
    phase ≠ .finished ∧ record.receiptSha256.isSome) .uncertain
  return record

/-- Lines and the phases they have to have, one after another. -/
def stateLines : Option PhaseRecord → List (Bytes × Phase) → Except LaunchError (Option PhaseRecord)
  | last, [] => .ok last
  | last, (line, phase) :: rest => do
      let record ← stateLine codec config last line phase
      stateLines (some record) rest

/-- What a ledger says. -/
def state (bytes : Bytes) : Except LaunchError PhaseRecord := do
  reject (bytes.getLast? ≠ some 10) .uncertain
  let lines := bytes.dropLast.splitOn 10
  reject (¬(1 ≤ lines.length ∧ lines.length ≤ 3)) .uncertain
  let last ← stateLines codec config none (lines.zip [.prepared, .started, .finished])
  readOr .uncertain last

/-- `launch::verify_binding`: the manifest of one binding. -/
def verifyBinding (bytes : Bytes) : Except LaunchError LaunchManifest := do
  reject (bytes.length > MANIFEST_BYTES) .manifest
  reject (codec.sha256 bytes ≠ config.binding.sha256) .manifest
  let manifest ← readOr .manifest (codec.readManifest bytes)
  reject (manifest.identity ≠ config.binding.identity) .manifest
  return manifest

/-- The manifest and the environment of a launch. -/
def verified (bytes : Bytes) : Except LaunchError (LaunchManifest × Environment) := do
  let manifest ← verifyBinding codec config bytes
  let values ← config.environment manifest
  return (manifest, values)

/-- The frozen runtime environment, from the record of the ledger and the file of its values. -/
def runtimeValues (record : PhaseRecord) (bytes : Bytes) : Except LaunchError Environment := do
  reject (record.runtimeEnvironmentSha256 ≠ some (codec.sha256 bytes)) .binding
  let values ← readOr .binding (codec.readEnvironment bytes)
  config.validateRuntime values
  return values

/-- The receipt of a finished launch. -/
def boundReceipt (record : PhaseRecord) (bytes : Bytes) : Except LaunchError Receipt := do
  reject (record.receiptSha256 ≠ some (codec.sha256 bytes)) .uncertain
  let value ← readOr .uncertain (codec.readReceipt bytes)
  reject (value.contract ≠ LAUNCH_CONTRACT ∨ value.identity ≠ config.binding.identity ∨
    value.manifestSha256 ≠ config.binding.sha256 ∨ value.downloadAvailable ∨
    value.runtimeEnvironmentSha256 ≠ record.runtimeEnvironmentSha256 ∨
    value.training ≠ training value.process ∨
    (value.process.stdoutSha256.any fun v => ¬isSha256 v) ∨
    value.process.stderrSha256.any fun v => ¬isSha256 v) .uncertain
  return value

/-- The observation of a ledger's last record, with the receipt of a finished one. -/
def observation (record : PhaseRecord) (receipt : Option Receipt) : Observation where
  contract := LAUNCH_CONTRACT
  identity := config.binding.identity
  manifestSha256 := config.binding.sha256
  phase := record.phase
  safeToRetry := false
  receipt := receipt
  runtimeEnvironmentSha256 := record.runtimeEnvironmentSha256

end Reading

/-! ## What is read -/

section Facts

variable {codec : LaunchCodec} {config : LaunchConfig}

/-- A line that is accepted has the phase of its place. -/
lemma stateLine_phase {last : Option PhaseRecord} {line : Bytes} {phase : Phase}
    {record : PhaseRecord} (h : stateLine codec config last line phase = .ok record) :
    record.phase = phase ∧
      (∀ value, record.runtimeEnvironmentSha256 = some value → isSha256 value = true) := by
  obtain ⟨read, -, h⟩ := bind_eq_ok.mp h
  obtain ⟨⟨⟩, -, h⟩ := bind_eq_ok.mp h
  obtain ⟨⟨⟩, hshape, hrecord⟩ := bind_eq_ok.mp h
  obtain rfl : read = record := Except.ok.inj hrecord
  simp only [reject_eq_ok, not_or, not_not] at hshape
  refine ⟨hshape.2.2.1, fun value hvalue => ?_⟩
  have hhex := hshape.2.1
  simpa [hvalue] using hhex

/-- The last of some lines gives its phase. -/
lemma stateLines_phase : ∀ {pairs : List (Bytes × Phase)} {last : Option PhaseRecord}
    {record : PhaseRecord}, stateLines codec config last pairs = .ok (some record) → pairs ≠ [] →
    (∃ pair, pairs.getLast? = some pair ∧ record.phase = pair.2) ∧
      (∀ value, record.runtimeEnvironmentSha256 = some value → isSha256 value = true)
  | [], _, _, _, hne => absurd rfl hne
  | [(line, phase)], last, record, h, _ => by
      obtain ⟨read, hline, h⟩ := bind_eq_ok.mp h
      obtain rfl : read = record := Option.some.inj (Except.ok.inj h)
      obtain ⟨hphase, hhex⟩ := stateLine_phase hline
      exact ⟨⟨(line, phase), rfl, hphase⟩, hhex⟩
  | (line, phase) :: pair :: rest, last, record, h, _ => by
      obtain ⟨read, -, h⟩ := bind_eq_ok.mp h
      rw [List.getLast?_cons_cons]
      exact stateLines_phase h (List.cons_ne_nil _ _)

/-- How many lines a ledger is cut into. -/
lemma length_splitOn (bytes : Bytes) : (bytes.splitOn 10).length = bytes.count 10 + 1 := by
  induction bytes with
  | nil => rfl
  | cons b bytes ih =>
    rw [List.splitOn, List.splitOnP_cons_eq_if_modifyHead, List.count_cons]
    by_cases hb : b = 10
    · simp [hb, List.splitOn] at ih ⊢
      exact ih
    · simp [hb, List.splitOn] at ih ⊢
      exact ih

/-- What a ledger that is read says: one line for each phase up to its own. -/
theorem state_lines {bytes : Bytes} {record : PhaseRecord}
    (h : state codec config bytes = .ok record) :
    bytes.count 10 = record.phase.rank + 1 ∧
      (∀ value, record.runtimeEnvironmentSha256 = some value → isSha256 value = true) := by
  obtain ⟨⟨⟩, hends, h⟩ := bind_eq_ok.mp h
  obtain ⟨⟨⟩, hcount, h⟩ := bind_eq_ok.mp h
  obtain ⟨last, hlast, h⟩ := bind_eq_ok.mp h
  obtain rfl := readOr_eq_ok.mp h
  rw [reject_eq_ok, not_not] at hends hcount
  have hlines : (bytes.dropLast.splitOn 10).length = bytes.count 10 := by
    have hbytes : bytes = bytes.dropLast ++ [10] :=
      (List.dropLast_append_getLast? 10 (by simp [hends])).symm
    rw [length_splitOn]
    conv_rhs => rw [hbytes, List.count_append]
    rfl
  rw [← hlines]
  generalize bytes.dropLast.splitOn 10 = lines at hcount hlast
  match lines, hcount with
  | [a], _ =>
    obtain ⟨⟨pair, hpair, hphase⟩, hhex⟩ := stateLines_phase hlast (List.cons_ne_nil _ _)
    obtain rfl := Option.some.inj hpair
    exact ⟨by rw [hphase]; rfl, hhex⟩
  | [a, b], _ =>
    obtain ⟨⟨pair, hpair, hphase⟩, hhex⟩ := stateLines_phase hlast (List.cons_ne_nil _ _)
    obtain rfl := Option.some.inj hpair
    exact ⟨by rw [hphase]; rfl, hhex⟩
  | [a, b, c], _ =>
    obtain ⟨⟨pair, hpair, hphase⟩, hhex⟩ := stateLines_phase hlast (List.cons_ne_nil _ _)
    obtain rfl := Option.some.inj hpair
    exact ⟨by rw [hphase]; rfl, hhex⟩

/-- The runtime environment that the first line of a ledger seals. -/
def firstRuntime (codec : LaunchCodec) (bytes : Bytes) : Option String :=
  (codec.readRecord (bytes.takeWhile (· ≠ 10))).bind PhaseRecord.runtimeEnvironmentSha256

/-- Accepted lines agree on the runtime environment. -/
lemma stateLines_runtime : ∀ {pairs : List (Bytes × Phase)} {last : Option PhaseRecord}
    {record : PhaseRecord}, stateLines codec config last pairs = .ok (some record) →
    (∀ previous, last = some previous →
      record.runtimeEnvironmentSha256 = previous.runtimeEnvironmentSha256) ∧
    ∀ pair, last = none → pairs.head? = some pair →
      record.runtimeEnvironmentSha256 =
        (codec.readRecord pair.1).bind PhaseRecord.runtimeEnvironmentSha256
  | [], last, record, h => by
      obtain rfl := Except.ok.inj h
      refine ⟨fun previous hprevious => ?_, fun pair hnone => by cases hnone⟩
      rw [Option.some.inj hprevious]
  | (line, phase) :: rest, last, record, h => by
      obtain ⟨read, hline, h⟩ := bind_eq_ok.mp h
      have hsame := (stateLines_runtime h).1 read rfl
      obtain ⟨first, hread, hline⟩ := bind_eq_ok.mp hline
      obtain ⟨⟨⟩, -, hline⟩ := bind_eq_ok.mp hline
      obtain ⟨⟨⟩, hshape, hline⟩ := bind_eq_ok.mp hline
      obtain rfl : first = read := Except.ok.inj hline
      simp only [reject_eq_ok, not_or, not_not] at hshape
      refine ⟨fun previous hprevious => ?_, fun pair _ hpair => ?_⟩
      · have hagree := hshape.1
        rw [hprevious] at hagree
        simp only [Option.any_some, ne_eq, decide_not, Bool.not_eq_true', decide_eq_false_iff_not,
          not_not] at hagree
        rw [hsame, hagree]
      · obtain rfl := Option.some.inj hpair
        rw [hsame, readOr_eq_ok.mp hread]
        rfl

/-- The first line of a cut text. -/
lemma head_splitOn (bytes : Bytes) : (bytes.splitOn 10).head? = some (bytes.takeWhile (· ≠ 10)) := by
  induction bytes with
  | nil => rfl
  | cons b bytes ih =>
    rw [List.splitOn, List.splitOnP_cons_eq_if_modifyHead, List.takeWhile_cons]
    by_cases hb : b = 10
    · simp [hb]
    · rw [List.splitOn] at ih
      simp [hb, List.head?_modifyHead, ih]

/-- The first line does not depend on what comes behind it. -/
lemma takeWhile_append {line bytes : Bytes} (h : 10 ∈ line) :
    (line ++ bytes).takeWhile (· ≠ 10) = line.takeWhile (· ≠ 10) := by
  induction line with
  | nil => simp at h
  | cons b line ih =>
    by_cases hb : b = 10
    · simp [hb]
    · have hrest : 10 ∈ line := by simpa [Ne.symm hb] using h
      simpa [hb] using ih hrest

/-- The end of the first line does not belong to it. -/
lemma takeWhile_ended (line : Bytes) :
    (line ++ [10]).takeWhile (· ≠ 10) = line.takeWhile (· ≠ 10) := by
  induction line with
  | nil => rfl
  | cons b line ih =>
    by_cases hb : b = 10
    · simp [hb]
    · simpa [hb] using ih

/-- **Every read of a ledger finds the runtime environment of its first line.** -/
theorem state_runtime {bytes kept : Bytes} {record : PhaseRecord}
    (h : state codec config bytes = .ok record) (hkept : kept <+: bytes) (hline : 10 ∈ kept) :
    record.runtimeEnvironmentSha256 = firstRuntime codec kept := by
  obtain ⟨⟨⟩, hends, h⟩ := bind_eq_ok.mp h
  obtain ⟨⟨⟩, hcount, h⟩ := bind_eq_ok.mp h
  obtain ⟨last, hlast, h⟩ := bind_eq_ok.mp h
  obtain rfl := readOr_eq_ok.mp h
  rw [reject_eq_ok, not_not] at hends
  have hbytes : bytes = bytes.dropLast ++ [10] :=
    (List.dropLast_append_getLast? 10 (by simp [hends])).symm
  have hfirst : bytes.dropLast.takeWhile (· ≠ 10) = kept.takeWhile (· ≠ 10) := by
    obtain ⟨rest, hrest⟩ := hkept
    rw [← takeWhile_ended, ← hbytes, ← hrest, takeWhile_append hline]
  have hhead : ((bytes.dropLast.splitOn 10).zip [Phase.prepared, .started, .finished]).head? =
      some (kept.takeWhile (· ≠ 10), Phase.prepared) := by
    have hsplit := head_splitOn bytes.dropLast
    rcases hlines : bytes.dropLast.splitOn 10 with _ | ⟨line, rest⟩
    · simp [hlines] at hsplit
    · rw [hlines, hfirst] at hsplit
      obtain rfl := Option.some.inj hsplit
      rfl
  exact (stateLines_runtime hlast).2 _ rfl hhead

/-- **A ledger with a second line never reads as prepared**, whatever its lines are. -/
theorem state_started {bytes : Bytes} {record : PhaseRecord} (hsecond : 2 ≤ bytes.count 10)
    (h : state codec config bytes = .ok record) : record.phase ≠ .prepared := by
  intro hphase
  have hlines := (state_lines h).1
  rw [hphase, Phase.rank] at hlines
  omega

/-- What an observation says about the configuration it was made under. -/
structure Observed (config : LaunchConfig) (seen : Observation) : Prop where
  contract : seen.contract = LAUNCH_CONTRACT
  identity : seen.identity = config.binding.identity
  manifest : seen.manifestSha256 = config.binding.sha256
  retry : seen.safeToRetry = false
  runtimeHex : ∀ value, seen.runtimeEnvironmentSha256 = some value → isSha256 value = true
  finished : seen.phase = .finished ↔ seen.receipt.isSome = true
  receipt : ∀ receipt, seen.receipt = some receipt →
    receipt.contract = LAUNCH_CONTRACT ∧ receipt.identity = config.binding.identity ∧
      receipt.manifestSha256 = config.binding.sha256 ∧ receipt.downloadAvailable = false ∧
      receipt.runtimeEnvironmentSha256 = seen.runtimeEnvironmentSha256 ∧
      receipt.training = training receipt.process ∧
      (∀ value, receipt.process.stdoutSha256 = some value → isSha256 value = true) ∧
      ∀ value, receipt.process.stderrSha256 = some value → isSha256 value = true

/-- The observation has a runtime environment exactly when its configuration names one. -/
def Sealed (config : LaunchConfig) (runtime : Option String) : Prop :=
  runtime.isSome = !config.runtimeEnvironment.isEmpty

/-- What an accepted receipt is. -/
lemma boundReceipt_eq_ok {record : PhaseRecord} {bytes : Bytes} {receipt : Receipt}
    (h : boundReceipt codec config record bytes = .ok receipt) :
    receipt.contract = LAUNCH_CONTRACT ∧ receipt.identity = config.binding.identity ∧
      receipt.manifestSha256 = config.binding.sha256 ∧ receipt.downloadAvailable = false ∧
      receipt.runtimeEnvironmentSha256 = record.runtimeEnvironmentSha256 ∧
      receipt.training = training receipt.process ∧
      (∀ value, receipt.process.stdoutSha256 = some value → isSha256 value = true) ∧
      ∀ value, receipt.process.stderrSha256 = some value → isSha256 value = true := by
  obtain ⟨⟨⟩, -, h⟩ := bind_eq_ok.mp h
  obtain ⟨value, -, h⟩ := bind_eq_ok.mp h
  obtain ⟨⟨⟩, hbound, h⟩ := bind_eq_ok.mp h
  obtain rfl : value = receipt := Except.ok.inj h
  simp only [reject_eq_ok, not_or, not_not] at hbound
  obtain ⟨hcontract, hidentity, hmanifest, hdownload, hruntime, htraining, hstdout, hstderr⟩ := hbound
  refine ⟨hcontract, hidentity, hmanifest, Bool.not_eq_true _ ▸ hdownload, hruntime, htraining, ?_, ?_⟩
  · intro value hvalue
    simpa [hvalue] using hstdout
  · intro value hvalue
    simpa [hvalue] using hstderr

end Facts

end Managed

end ExperimentControl
