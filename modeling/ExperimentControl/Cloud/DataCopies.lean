import ExperimentControl.Cloud.Commands
import ExperimentControl.Datasets.Frames
import ExperimentControl.Json.Wire
import ExperimentControl.Library.Parts
import ExperimentControl.Sources.Digest

/-!
# Data copies in the cloud

A dataset is copied by a job whose command line carries the config of the copy, which grows with the
files of the dataset, in parts that each fit one argument: `core/src/cloud/data.rs`, with
`Job::validate` of `core/src/cloud/mod.rs`, `Runtime` of `core/src/cloud/run.rs`, `StorageLayout` of
`core/src/cloud/launch.rs` and the config of `core/src/datasets/import.rs`.

* `Job.validate`, `Runtime`, `StorageLayout`, `Config`, `DataChannel` — what goes into a job. The
  parser of URLs is a parameter.
* `argumentParts`, `materializationJob`, `materializationInputs` — the functions of the source.
* **`materializationInputs_job`** — parts are joined to the text they are made of, and a job gives
  back the config and the channel it was made of.
-/

namespace ExperimentControl

namespace Cloud

open Slurm (Target)
open Datasets (Definition)

/-! ## Jobs and runtimes -/

def MAX_GPU_COMMAND_BYTES : ℕ := 128 * 1024

def isRepositoryChar (c : Char) : Bool := c.isAlphanum ∨ c = '/' ∨ c = '.' ∨ c = '_' ∨ c = '-'

/-- An image under a digest of its own. -/
def pinnedImage (image : String) : Bool :=
  match splitOnceAt "@sha256:" image with
  | some (repository, hash) =>
      repository ≠ "" ∧ byteLen repository ≤ 2048 ∧
        ¬(repository.toList.any fun c => c = '@' ∨ c = ':' ∨ c = '?' ∨ c = '#') ∧
        '/' ∈ repository.toList ∧ repository.toList.all isRepositoryChar ∧
        validDigest ("sha256:" ++ hash)
  | none => false

def Job.validate (job : Job) : Except CoreError Unit := do
  (validateId job.project).mapError fun _ => ⟨"project"⟩
  (validateId job.runId).mapError fun _ => ⟨"run"⟩
  (ExperimentControl.validateAttempt job.attemptId).mapError fun _ => ⟨"attempt"⟩
  reject (¬tokenValid job.submissionToken) ⟨"token"⟩
  reject (¬(Sources.stripPrefix job.sourceId "source.").any fun source =>
    validDigest ("sha256:" ++ source)) ⟨"source"⟩
  reject (¬pinnedImage job.image) ⟨"pinned image"⟩
  reject (job.cpus = 0 ∨ job.cpus > 65536 ∨ job.memoryGb = 0 ∨ job.memoryGb > 1048576 ∨
    job.gpus > 4096 ∨ job.maxTimeSeconds = 0 ∨ job.maxTimeSeconds > 1000 * 3600 ∨
    job.priority < 1 ∨ job.priority > 9) ⟨"resources"⟩
  let line ← shellJoin job.command
  reject (byteLen line > MAX_GPU_COMMAND_BYTES ∧ job.gpus > 0) ⟨"command length"⟩

/-- `cloud::absolute_path`. -/
def absolutePath (value : String) : Except CoreError Unit :=
  reject (value.toList.head? ≠ some '/' ∨ byteLen value > 4096 ∨
    (value.toList.any fun c => c = Char.ofNat 0 ∨ c = '\r' ∨ c = '\n' ∨ c = '\\') ∨
    (pathParts value).any fun part => part = ['.'] ∨ part = ['.', '.']) ⟨"mount path"⟩

namespace Run

structure Runtime where
  runtimeId : String
  sourceId : String
  image : String
  sourceDir : String
  workerPath : String
  workerSha256 : String
  deriving DecidableEq, Repr

def Runtime.document (runtime : Runtime) : Json :=
  .object [("runtime_id", .string runtime.runtimeId), ("source_id", .string runtime.sourceId),
    ("image", .string runtime.image), ("source_dir", .string runtime.sourceDir),
    ("worker_path", .string runtime.workerPath), ("worker_sha256", .string runtime.workerSha256)]

def Runtime.validate (runtime : Runtime) : Except CoreError Unit := do
  reject (¬(Sources.stripPrefix runtime.sourceId "source.").any fun source =>
    (Sources.validateArchiveDigest source).isOk) ⟨"source ID"⟩
  reject (¬((Sources.stripPrefix runtime.runtimeId "runtime.").any fun digest =>
    validDigest ("sha256:" ++ digest)) ∨ ¬validDigest runtime.workerSha256) ⟨"runtime receipt"⟩
  absolutePath runtime.sourceDir
  absolutePath runtime.workerPath
  Job.validate
    { project := "check", runId := "check", attemptId := "attempt-001",
      submissionToken := String.ofList (List.replicate 32 '0'), sourceId := runtime.sourceId,
      image := runtime.image, command := ["true"], gpus := 0, cpus := 1, memoryGb := 1,
      maxTimeSeconds := 1, priority := 5, readOnlyStorage := false }

end Run

/-! ## Storage -/

/-- `Path::components` behind the root. -/
def components (path : String) : List (List Char) :=
  (pathParts path).filter fun part => part ≠ [] ∧ part ≠ ['.']

/-- `managed::absolute`. -/
def absolute (path : String) : Bool :=
  path.toList.head? = some '/' ∧ ['.', '.'] ∉ components path

structure StorageLayout where
  mount : String
  runs : String
  datasets : String
  deriving DecidableEq, Repr

def StorageLayout.document (storage : StorageLayout) : Json :=
  .object [("mount", .string storage.mount), ("runs", .string storage.runs),
    ("datasets", .string storage.datasets)]

def StorageLayout.validate (storage : StorageLayout) : Except CoreError Unit := do
  reject ([storage.mount, storage.runs, storage.datasets].any fun path =>
    ¬absolute path ∨ (components path).length + 1 > 128) ⟨"cloud storage path"⟩
  let mount := components storage.mount
  let runs := components storage.runs
  let datasets := components storage.datasets
  reject (mount = [] ∨ runs = mount ∨ datasets = mount ∨ ¬mount <+: runs ∨ ¬mount <+: datasets ∨
    datasets <+: runs ∨ runs <+: datasets) ⟨"cloud storage scope"⟩

/-! ## Configs -/

/-- What is read of a URL. -/
structure Uri where
  scheme : String
  host : Option String
  username : String
  password : Option String
  path : String
  query : Option String
  fragment : Option String

structure DataChannel where
  url : String
  token : String
  deriving DecidableEq, Repr

inductive Source
  | datasetParts (channel : DataChannel)
  | exchangeParts (channel : DataChannel)
  | file (path : String)
  | https (url : String) (allowedHosts : List String)
  deriving DecidableEq, Repr

structure Config where
  root : String
  target : Target
  project : String
  definition : Definition
  source : Source
  timeoutSeconds : UInt64
  deriving DecidableEq

section Checks

variable (parseUrl : String → Option Uri)

/-- A capability for the end of a path, under a token of its own. -/
def DataChannel.scoped (channel : DataChannel) (path : String) : Bool :=
  match parseUrl channel.url with
  | some uri =>
      uri.scheme = "https" ∧ uri.host.isSome ∧ uri.username = "" ∧ uri.password = none ∧
        uri.query = none ∧ uri.fragment = none ∧ path.toList <:+ uri.path.toList ∧
        validDigest ("sha256:" ++ channel.token)
  | none => false

def DataChannel.validate (channel : DataChannel) (project executor asset : String) : Bool :=
  channel.scoped parseUrl ("/api/dataset-exchange/" ++ project ++ "/" ++ executor ++ "/" ++ asset)

/-- `exchange::Channel::validate`, for the Attempt that its path names. -/
def exchangeChannel (channel : DataChannel) (project : String) : Bool :=
  match parseUrl channel.url with
  | some uri =>
      match (pathParts uri.path).reverse with
      | attempt :: run :: named :: _ :: _ =>
          let attempt := String.ofList attempt
          let run := String.ofList run
          String.ofList named = project ∧ (validateId project).isOk ∧ (validateId run).isOk ∧
            (ExperimentControl.validateAttempt attempt).isOk ∧
            channel.scoped parseUrl
              ("/api/worker-exchange/" ++ project ++ "/" ++ run ++ "/" ++ attempt)
      | _ => false
  | none => false

/-- `slurm::path_within`. -/
def pathWithin (path root : String) : Bool :=
  ExperimentControl.absolutePath path ∧ ExperimentControl.absolutePath root ∧
    let root := (root.toList.reverse.dropWhile (· = '/')).reverse
    (root = [] ∨ path.toList = root ∨ root ++ ['/'] <+: path.toList)

def Source.validate (source : Source) (config : Config) : Bool :=
  match source with
  | .datasetParts channel =>
      channel.validate parseUrl config.project config.target.backendId config.definition.assetId
  | .exchangeParts channel => exchangeChannel parseUrl channel config.project
  | .file path =>
      ExperimentControl.absolutePath path ∧ path.toList.getLast? ≠ some '/' ∧ path ≠ config.root ∧
        ¬pathWithin path config.root
  | .https url allowedHosts =>
      match parseUrl url with
      | some uri =>
          uri.scheme = "https" ∧ uri.host.isSome ∧ uri.username = "" ∧ uri.password = none ∧
            uri.fragment = none ∧ (allowedHosts = [] ∨ uri.host.any (· ∈ allowedHosts))
      | none => false

def Config.validate (config : Config) : Except Datasets.Error Unit := do
  config.target.validate.mapError fun _ => .invalid
  (validateId config.project).mapError fun _ => .invalid
  config.definition.validate
  reject (¬Datasets.rootPath config.root ∨ config.timeoutSeconds = 0 ∨
    config.timeoutSeconds > 14400) .invalid
  reject (¬config.source.validate parseUrl config) .invalid

end Checks

/-! ## Documents -/

def DataChannel.document (channel : DataChannel) : Json :=
  .object [("url", .string channel.url), ("token", .string channel.token)]

def DataChannel.read (document : Json) : Option DataChannel := do
  let fields ← document.record ["url", "token"]
  let url ← fields.text "url"
  let token ← fields.text "token"
  return { url, token }

def Source.document : Source → Json
  | .datasetParts channel =>
      .object [("kind", .string "dataset_parts"), ("channel", channel.document)]
  | .exchangeParts channel =>
      .object [("kind", .string "exchange_parts"), ("channel", channel.document)]
  | .file path => .object [("kind", .string "file"), ("path", .string path)]
  | .https url allowedHosts => .object [("kind", .string "https"), ("url", .string url),
      ("allowed_hosts", .array (allowedHosts.map .string))]

/-- A set of texts: sorted, each of them once. -/
def readHosts (document : Json) : Option (List String) := do
  let items ← document.asArray
  let hosts ← items.mapM Json.asStr
  return (hosts.dedup.mergeSort fun first second => first ≤ second)

def Source.read (document : Json) : Option Source := do
  let fields ← document.asObject
  match fields.text "kind" with
  | some "dataset_parts" => do
      let fields ← document.record ["kind", "channel"]
      let channel ← (fields.get "channel").bind DataChannel.read
      return .datasetParts channel
  | some "exchange_parts" => do
      let fields ← document.record ["kind", "channel"]
      let channel ← (fields.get "channel").bind DataChannel.read
      return .exchangeParts channel
  | some "file" => do
      let fields ← document.record ["kind", "path"]
      let path ← fields.text "path"
      return .file path
  | some "https" => do
      let fields ← document.record ["kind", "url", "allowed_hosts"]
      let url ← fields.text "url"
      let allowedHosts ← fields.orDefault readHosts [] "allowed_hosts"
      return .https url allowedHosts
  | _ => none

def Config.document (config : Config) : Json :=
  .object [("root", .string config.root), ("target", Datasets.targetDocument config.target),
    ("project", .string config.project), ("definition", config.definition.document),
    ("source", config.source.document), ("timeout_seconds", .ofNat config.timeoutSeconds.toNat)]

def Config.read (document : Json) : Option Config := do
  let fields ← document.record
    ["root", "target", "project", "definition", "source", "timeout_seconds"]
  let root ← fields.text "root"
  let target ← (fields.get "target").bind Datasets.readTarget
  let project ← fields.text "project"
  let definition ← (fields.get "definition").bind Definition.read
  let source ← (fields.get "source").bind Source.read
  let timeoutSeconds ← fields.u64 "timeout_seconds"
  return { root, target, project, definition, source, timeoutSeconds }

/-! ## Arguments -/

def MAX_ARGUMENT_BYTES : ℕ := 64 * 1024

/-- `argument_parts`: going on with the rest while it is too long for one argument. -/
def argumentParts (text : String) : List String :=
  (parts MAX_ARGUMENT_BYTES (by decide) text.toList).map String.ofList

/-- `concat`. -/
def concat (texts : List String) : String := String.ofList (texts.flatMap String.toList)

def CONFIG_ARGUMENT : ℕ := 5

def materializationInputs (finite : String → Bool) (job : Job) :
    Except CoreError (Config × DataChannel) := do
  let channel := job.command.length - 2
  reject (job.command.length < 2 ∨ ¬channel > CONFIG_ARGUMENT) ⟨"materialization command"⟩
  let text := concat ((job.command.take channel).drop CONFIG_ARGUMENT)
  let config ← ((Json.fromText finite text).bind Config.read).elim
    (.error ⟨"materialization config"⟩) .ok
  let channel ← ((job.command[channel]?.bind (Json.fromText finite)).bind DataChannel.read).elim
    (.error ⟨"materialization channel"⟩) .ok
  .ok (config, channel)

section Materialization

variable (enc : Encoding) (parseUrl : String → Option Uri)
  -- the text of `materialize.py`
  (script : String)

def materializationJob (runtime : Run.Runtime) (config : Config) (channel : DataChannel)
    (storage : StorageLayout) (requestId : String) : Except CoreError Job := do
  runtime.validate
  (config.validate parseUrl).mapError fun _ => ⟨"materialization config"⟩
  reject (¬channel.validate parseUrl config.project config.target.backendId
    config.definition.assetId) ⟨"materialization channel"⟩
  storage.validate
  reject (¬tokenValid requestId) ⟨"materialization request"⟩
  reject (config.root ≠ storage.datasets ∨ config.timeoutSeconds ≠ 3600 ∨
    ¬(config.source matches .datasetParts _)) ⟨"materialization storage or source"⟩
  let identity ← (enc.digest (.array [.string "native-pai-data-materialization.v1",
    runtime.document, .string config.project, Datasets.targetDocument config.target,
    .string config.definition.assetId, storage.document, .string requestId])).mapError
      fun _ => ⟨"materialization identity"⟩
  let command := ["python3", "-u", "-c", script, runtime.workerPath] ++
    argumentParts config.document.toText ++ [channel.document.toText, storage.document.toText]
  let job : Job :=
    { project := config.project, runId := "data-" ++ digestFront 32 identity,
      attemptId := "attempt-001", submissionToken := digestFront 32 identity,
      sourceId := runtime.sourceId, image := runtime.image, command, gpus := 0, cpus := 2,
      memoryGb := 4, maxTimeSeconds := 3600, priority := 5, readOnlyStorage := false }
  job.validate
  .ok job

end Materialization

/-! ## Documents are read back -/

lemma DataChannel.read_document (channel : DataChannel) :
    DataChannel.read channel.document = some channel := by
  simp [read, document, Json.record, Json.asObject, Option.filter_some, Fields.text,
    Fields.get_cons, Json.asStr]

lemma Source.read_parts (channel : DataChannel) :
    Source.read (Source.datasetParts channel).document = some (.datasetParts channel) := by
  simp [read, document, Json.record, Json.asObject, Option.filter_some, Fields.text,
    Fields.get_cons, Json.asStr, DataChannel.read_document]

lemma Config.read_document {config : Config} {channel : DataChannel}
    (h : config.source = .datasetParts channel) : Config.read config.document = some config := by
  obtain ⟨root, target, project, definition, source, timeoutSeconds⟩ := config
  obtain rfl : source = _ := h
  simp [read, document, Json.record, Json.asObject, Option.filter_some, Fields.text, Fields.u64,
    Fields.get_cons, Json.asStr, Datasets.asU64_ofNat, Datasets.read_target,
    Datasets.Definition.read_document, Source.read_parts]

section Fits

variable {finite : String → Bool}

lemma fits_channel (channel : DataChannel) : Datasets.Fits finite channel.document 2 5 := by
  constructor
  · simp [DataChannel.document, Json.readable, Json.readableFields]
  · simp [DataChannel.document, Json.depth, Json.depthFields]
  · simp [DataChannel.document, Json.nodes, Json.nodesFields]

lemma fits_parts (channel : DataChannel) :
    Datasets.Fits finite (Source.datasetParts channel).document 3 10 := by
  obtain ⟨hreadable, hdepth, hnodes⟩ := @fits_channel finite channel
  constructor
  · simp [Source.document, Json.readable, Json.readableFields, hreadable]
  · simp only [Source.document, Json.depth, Json.depthFields]
    omega
  · simp only [Source.document, Json.nodes, Json.nodesFields]
    omega

lemma fits_config {config : Config} {channel : DataChannel}
    (h : config.source = .datasetParts channel) :
    Datasets.Fits finite config.document 5 (7 * config.definition.files.length + 40) := by
  obtain ⟨htarget, htarget', htarget''⟩ := @Datasets.fits_target finite config.target
  obtain ⟨hreadable, hdepth, hnodes⟩ := @Datasets.fits_definition finite config.definition
  obtain ⟨hparts, hparts', hparts''⟩ := @fits_parts finite channel
  rw [Config.document, h]
  constructor
  · simp [Json.readable, Json.readableFields, Json.readable_ofNat, htarget, hreadable, hparts]
  · simp only [Json.depth, Json.depthFields, Datasets.depth_ofNat]
    omega
  · simp only [Json.nodes, Json.nodesFields, Datasets.nodes_ofNat]
    omega

end Fits

/-! ## Parts are joined again -/

lemma concat_argumentParts (text : String) : concat (argumentParts text) = text := by
  have hparts := (@parts_spec MAX_ARGUMENT_BYTES (by decide) text.toList).1
  rw [concat, argumentParts, List.flatMap_map]
  simp only [String.toList_ofList]
  rw [List.flatMap_id', hparts, String.ofList_toList]

lemma byteLen_argumentParts {text part : String} (h : part ∈ argumentParts text) :
    byteLen part ≤ MAX_ARGUMENT_BYTES := by
  obtain ⟨chars, hchars, rfl⟩ := List.mem_map.mp h
  rw [byteLen, length_utf8_ofList]
  exact (parts_spec _ text.toList).2 chars hchars

lemma length_argumentParts_pos (text : String) : 0 < (argumentParts text).length := by
  rw [argumentParts, List.length_map]
  exact List.length_pos_of_ne_nil (parts_ne_nil _ text.toList)

/-- The inputs of a command line in the places where a job has them. -/
lemma materializationInputs_command {finite : String → Bool} {job : Job} {config : Config}
    {channel inner : DataChannel} {front : List String} {last : String}
    (hsource : config.source = .datasetParts inner) (hfront : front.length = CONFIG_ARGUMENT)
    (hcommand : job.command =
      front ++ argumentParts config.document.toText ++ [channel.document.toText, last]) :
    materializationInputs finite job = .ok (config, channel) := by
  have hpos := length_argumentParts_pos config.document.toText
  have hlength : job.command.length - 2 =
      CONFIG_ARGUMENT + (argumentParts config.document.toText).length := by
    rw [hcommand, List.length_append, List.length_append, hfront]
    simp
  have htake : (job.command.take (job.command.length - 2)).drop CONFIG_ARGUMENT =
      argumentParts config.document.toText := by
    rw [hlength, hcommand, List.take_left' (by rw [List.length_append, hfront]),
      List.drop_left' hfront]
  have hchannel : job.command[job.command.length - 2]? = some channel.document.toText := by
    rw [hlength, hcommand, List.getElem?_append_right (by rw [List.length_append, hfront])]
    simp [hfront]
  obtain ⟨hreadable, hdepth, -⟩ := @fits_config finite config inner hsource
  obtain ⟨hreadable', hdepth', -⟩ := @fits_channel finite channel
  unfold materializationInputs
  dsimp only
  refine bind_eq_ok.mpr ⟨(), reject_eq_ok.mpr (by omega), ?_⟩
  refine bind_eq_ok.mpr ⟨config, ?_, bind_eq_ok.mpr ⟨channel, ?_, rfl⟩⟩
  · rw [htake, concat_argumentParts, Json.fromText_toText hreadable (by omega),
      Option.bind_some, Config.read_document hsource]
    rfl
  · rw [hchannel, Option.bind_some, Json.fromText_toText hreadable' (by omega),
      Option.bind_some, DataChannel.read_document]
    rfl

/-- **Arguments in parts are joined again.** The parts of any text, each of them within the bound of
an argument, are together that text; and a job gives back the config and the channel that it was made
of. -/
theorem materializationInputs_job (enc : Encoding) (parseUrl : String → Option Uri)
    (script : String) (finite : String → Bool) :
    (∀ text, concat (argumentParts text) = text ∧
      ∀ part ∈ argumentParts text, byteLen part ≤ MAX_ARGUMENT_BYTES) ∧
    ∀ runtime config channel storage requestId job,
      materializationJob enc parseUrl script runtime config channel storage requestId = .ok job →
        materializationInputs finite job = .ok (config, channel) := by
  refine ⟨fun text => ⟨concat_argumentParts text, fun part => byteLen_argumentParts⟩, ?_⟩
  intro runtime config channel storage requestId job h
  obtain ⟨_, -, h⟩ := bind_eq_ok.mp h
  obtain ⟨_, -, h⟩ := bind_eq_ok.mp h
  obtain ⟨_, -, h⟩ := bind_eq_ok.mp h
  obtain ⟨_, -, h⟩ := bind_eq_ok.mp h
  obtain ⟨_, -, h⟩ := bind_eq_ok.mp h
  obtain ⟨_, hsource, h⟩ := bind_eq_ok.mp h
  obtain ⟨identity, -, h⟩ := bind_eq_ok.mp h
  obtain ⟨_, -, h⟩ := bind_eq_ok.mp h
  cases h
  rw [reject_eq_ok, not_or, not_or, not_not] at hsource
  have hparts : ∃ inner, config.source = .datasetParts inner := by
    cases hkind : config.source with
    | datasetParts inner => exact ⟨inner, rfl⟩
    | exchangeParts _ => simp [hkind] at hsource
    | file _ => simp [hkind] at hsource
    | https _ _ => simp [hkind] at hsource
  obtain ⟨inner, hinner⟩ := hparts
  have hcommand : (["python3", "-u", "-c", script, runtime.workerPath] : List String).length =
      CONFIG_ARGUMENT := rfl
  exact materializationInputs_command hinner hcommand rfl

end Cloud

end ExperimentControl
