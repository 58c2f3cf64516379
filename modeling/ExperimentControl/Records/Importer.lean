import ExperimentControl.Library.Fallible
import ExperimentControl.Library.Lines
import ExperimentControl.Records.Event

/-!
# The native JSONL importer

The pure state transition over verified output bytes. A line is kept until its newline; a line
longer than the read bound is dropped block by block and becomes one diagnostic. The state between
two feeds is serialized and resumed by the caller.

* `Conversion` — the conversion of one line, which the importer takes as it is.
* `JsonlImporter`, `JsonlImporter.feed`, `JsonlImporter.finish` — the importer.
* `JsonlImporter.document`, `JsonlImporter.ofDocument` — the serialized state, and
  **`ofDocument_document`**: resuming it gives the same importer.
-/

namespace ExperimentControl.Records

/-- The conversion of one line: the line parser, the observation a parsed line holds, and the
normalization of an observation under the frozen configuration and a named source. -/
structure Conversion (Line Observation : Type) where
  parse : Bytes → Option Line
  hasField : Line → String → Bool
  observation : Line → Option Observation
  normalizedMetricSource : Observation → Json → String → Except Error Json

structure ImportCounts where
  records : UInt64
  invalidLines : UInt64
  deriving DecidableEq, Repr

/-- What one feed, or the end, hands to the caller. -/
structure ImportEmission where
  events : List Event
  counts : ImportCounts
  deriving DecidableEq, Repr

structure JsonlImporter where
  name : String
  config : Json
  number : UInt64
  chunk : Bytes
  oversized : Bool
  counts : ImportCounts
  canonicalOnly : Bool
  deriving DecidableEq, Repr

/-- The newline byte. -/
def newline : UInt8 := 10

/-- The most bytes one feed takes. -/
def inputBound : ℕ := 4096

/-- The length at which a partial line is cut off and skipped. -/
def readlineBound : ℕ := 65537

/-- The most bytes of a line, its terminator included. -/
def lineLimit : ℕ := 65536

namespace JsonlImporter

def new (name : String) (config : Json) : Except Error JsonlImporter :=
  if name ∈ ["metrics.jsonl", "train_metrics.jsonl"] then
    .ok ⟨name, config, 0, [], false, ⟨0, 0⟩, false⟩
  else .error (.invalid "verified metrics filename")

/-- Local attachment takes explicit named observations only. -/
def canonicalMetrics (config : Json) : Except Error JsonlImporter := do
  let importer ← new "metrics.jsonl" config
  return { importer with canonicalOnly := true }

/-- The source an observation is normalized under. -/
def source (canonicalOnly : Bool) : String :=
  if canonicalOnly then "local-jsonl" else "exact-attempt-worker"

/-- The payload of every diagnostic. -/
def diagnostic : Json :=
  .object [("kind", .string "diagnostic"),
    ("data", .object [("diagnostic", .string "INVALID_METRIC_JSONL")])]

section Lines

variable {Line Observation : Type} (enc : Encoding) (conv : Conversion Line Observation)

/-- A line of a local file that parses but does not name its observation is refused. -/
def requireExplicit (canonicalOnly : Bool) (bytes : Bytes) : Except Error Unit :=
  match conv.parse bytes with
  | some parsed =>
      reject (canonicalOnly = true ∧ ["name", "value", "unit"].any fun key => !conv.hasField parsed key)
        (.invalid "local JSONL requires explicit name, value and unit")
  | none => .ok ()

/-- The record event of an observation. -/
def recordEvent (config : Json) (canonicalOnly : Bool) (record : Observation) :
    Except Error Event := do
  let payload ← conv.normalizedMetricSource record config (source canonicalOnly)
  let digest ← digest enc payload
  return ⟨"archive." ++ digest, payload⟩

/-- The diagnostic event of a line, by its number and the bytes kept of it. -/
def diagnosticEvent (name : String) (number : UInt64) (bytes : Bytes) : Except Error Event := do
  let digest ← digest enc
    (.array [.string name, Json.ofNat number.toNat, .string (String.ofList (lowerHex bytes))])
  return ⟨"invalid." ++ digest, diagnostic⟩

/-- One line, complete or cut off. -/
def line (importer : JsonlImporter) (bytes : Bytes) (oversized : Bool) :
    Except Error (JsonlImporter × Event) := do
  let importer := { importer with number := importer.number + 1 }
  if !oversized then requireExplicit conv importer.canonicalOnly bytes
  match if oversized then none else (conv.parse bytes).bind conv.observation with
  | some record =>
      let event ← recordEvent enc conv importer.config importer.canonicalOnly record
      return ({ importer with
        counts := { importer.counts with records := importer.counts.records + 1 } }, event)
  | none =>
      let event ← diagnosticEvent enc importer.name importer.number bytes
      return ({ importer with
        counts := { importer.counts with invalidLines := importer.counts.invalidLines + 1 } }, event)

/-- One byte of a feed: the state and the events so far. -/
def feedByte (state : JsonlImporter × List Event) (byte : UInt8) :
    Except Error (JsonlImporter × List Event) :=
  let importer := state.1
  let chunk := importer.chunk ++ [byte]
  if byte = newline ∨ chunk.length = readlineBound then
    let oversized := importer.oversized || decide (lineLimit < chunk.length)
    let importer := { importer with chunk := [] }
    if oversized = true ∧ byte ≠ newline then
      .ok ({ importer with oversized := true }, state.2)
    else do
      let (importer, event) ← line enc conv importer chunk oversized
      return ({ importer with oversized := false }, state.2 ++ [event])
  else .ok ({ importer with chunk }, state.2)

def feed (importer : JsonlImporter) (bytes : Bytes) :
    Except Error (JsonlImporter × ImportEmission) := do
  reject (inputBound < bytes.length) (.invalid "import input chunk bound")
  let (importer, events) ← bytes.foldlM (feedByte enc conv) (importer, [])
  return (importer, ⟨events, importer.counts⟩)

def finish (importer : JsonlImporter) : Except Error ImportEmission := do
  if importer.oversized then
    let (importer, event) ← line enc conv importer [] true
    return ⟨[event], importer.counts⟩
  else if importer.chunk ≠ [] then
    let (importer, event) ← line enc conv { importer with chunk := [] } importer.chunk false
    return ⟨[event], importer.counts⟩
  else return ⟨[], importer.counts⟩

end Lines

/-! ## The serialized state -/

/-- The document of the counts. -/
def countsDocument (counts : ImportCounts) : Json :=
  .object [("records", .ofNat counts.records.toNat),
    ("invalid_lines", .ofNat counts.invalidLines.toNat)]

/-- The document of the bytes kept of a line. -/
def chunkDocument (chunk : Bytes) : Json :=
  .array (chunk.map fun byte => .ofNat byte.toNat)

/-- The document of an importer; `canonical_only` is left out where it is false. -/
def document (importer : JsonlImporter) : Json :=
  .object <|
    [("name", .string importer.name),
      ("config", importer.config),
      ("number", .ofNat importer.number.toNat),
      ("chunk", chunkDocument importer.chunk),
      ("oversized", .bool importer.oversized),
      ("counts", countsDocument importer.counts)] ++
    if importer.canonicalOnly then [("canonical_only", .bool true)] else []

/-- A 64-bit field of a document. -/
def readU64 (value : Json) : Option UInt64 :=
  value.asU64.map UInt64.ofNat

/-- A byte of a document. -/
def readU8 (value : Json) : Option UInt8 :=
  (value.asU64.filter (· < 2 ^ 8)).map UInt8.ofNat

/-- The bytes of a document. -/
def readChunk (value : Json) : Option Bytes := do
  let items ← value.asArray
  items.mapM readU8

/-- The counts of a document. -/
def readCounts (value : Json) : Option ImportCounts := do
  let fields ← value.asObject
  let records ← readU64 (← Fields.get fields "records")
  let invalidLines ← readU64 (← Fields.get fields "invalid_lines")
  return ⟨records, invalidLines⟩

/-- A flag of a document that may be left out. -/
def readFlag : Option Json → Option Bool
  | some value => value.asBool
  | none => some false

/-- The fields a document may have. -/
def fieldNames : List String :=
  ["name", "config", "number", "chunk", "oversized", "counts", "canonical_only"]

/-- The importer of a document: no field unknown, none missing but `canonical_only`. -/
def ofDocument (value : Json) : Option JsonlImporter := do
  let fields ← value.asObject
  guard (fields.all fun field => field.1 ∈ fieldNames)
  let name ← (← Fields.get fields "name").asStr
  let config ← Fields.get fields "config"
  let number ← readU64 (← Fields.get fields "number")
  let chunk ← readChunk (← Fields.get fields "chunk")
  let oversized ← (← Fields.get fields "oversized").asBool
  let counts ← readCounts (← Fields.get fields "counts")
  let canonicalOnly ← readFlag (Fields.get fields "canonical_only")
  return ⟨name, config, number, chunk, oversized, counts, canonicalOnly⟩

lemma readU64_ofNat (n : UInt64) : readU64 (.ofNat n.toNat) = some n := by
  rw [readU64, Json.asU64_ofNat n.toNat_lt, Option.map_some, UInt64.ofNat_toNat]

lemma readU8_ofNat (b : UInt8) : readU8 (.ofNat b.toNat) = some b := by
  have h : b.toNat < 2 ^ 8 := b.toNat_lt
  rw [readU8, Json.asU64_ofNat (by omega), Option.filter_some, if_pos (by simpa using h),
    Option.map_some, UInt8.ofNat_toNat]

lemma readChunk_chunkDocument (chunk : Bytes) : readChunk (chunkDocument chunk) = some chunk := by
  change (chunk.map fun byte => Json.ofNat byte.toNat).mapM readU8 = some chunk
  induction chunk with
  | nil => rfl
  | cons byte chunk ih =>
    rw [List.map_cons, List.mapM_cons, readU8_ofNat, ih]
    rfl

lemma readCounts_countsDocument (counts : ImportCounts) :
    readCounts (countsDocument counts) = some counts := by
  simp [readCounts, countsDocument, Json.asObject, Fields.get_cons, readU64_ofNat]

/-- **Resuming a serialized importer gives the importer back.** -/
theorem ofDocument_document (importer : JsonlImporter) :
    ofDocument importer.document = some importer := by
  rcases importer with ⟨name, config, number, chunk, oversized, counts, canonicalOnly⟩
  have hread : ∀ flag : Bool, (do
      let number ← readU64 (.ofNat number.toNat)
      let chunk ← readChunk (chunkDocument chunk)
      let counts ← readCounts (countsDocument counts)
      some ⟨name, config, number, chunk, oversized, counts, flag⟩) =
      some (⟨name, config, number, chunk, oversized, counts, flag⟩ : JsonlImporter) := by
    intro flag
    rw [readU64_ofNat, readChunk_chunkDocument, readCounts_countsDocument]
    rfl
  cases canonicalOnly with
  | false => exact hread false
  | true => exact hread true

end JsonlImporter

end ExperimentControl.Records
