import ExperimentControl.Json.Canonical
import ExperimentControl.Json.Records
import ExperimentControl.Library.Rows
import ExperimentControl.Metrics.Numbers

/-!
# Observations of metrics

The normalization of a metric record of `core/src/metrics/observation.rs`: a record names one metric
or is flat, and every metric becomes one observation with the errors that were found.

* `MetricValue`, `ObservationInput` — the values of a record, which JSON cannot always hold.
* `Marks` — the state of an observation and its errors, with one `check` for every reason to fail.
* `observe`, `observationsTyped` — the functions of the source.
* **`observationsTyped_sound`** — what a `VALID` observation is, and which metrics are observed.
-/

namespace ExperimentControl

namespace Metrics

/-! ## Values -/

inductive MetricValue
  | json (value : Json)
  | float (value : F64)
  | invalidText (text : String)

/-- `finite`: a number that is not read as an infinity. -/
def finite (value : Json) : Bool := (valueAsF64 value).any Float.Model.isFinite

/-- What is printed of a finite float: its shortest text that is read back as itself. -/
abbrev Printer := F64 → String

section Texts

variable (print : Printer)

/-- `canonical::float_text`. Both zeros share one text. -/
def floatText (value : F64) : Option String :=
  if value.isFinite then some (print (if value.scaled = 0 then Float.Model.ofNat 0 else value)) else none

/-- The canonical encoding with that text. No digest is asked for here. -/
def encoding : Encoding where
  floatText := fun raw => (asF64 raw).bind (floatText print)
  sha256 := fun _ => ""

def floatToken (value : F64) : String :=
  if value.isNaN then "nan"
  else if value.isInf then if value < Float.Model.ofNat 0 then "-inf" else "inf"
  else (floatText print value).getD ""

mutual

/-- The value with its infinite numbers as texts. -/
def nonfiniteAsTokens : Json → Json
  | .number raw =>
      if Reader.isFloat raw ∧ asF64 raw = none then
        .string (if raw.toList.head? = some '-' then "-inf" else "inf")
      else .number raw
  | .array values => .array (nonfiniteItems values)
  | .object fields => .object (nonfiniteFields fields)
  | value => value

def nonfiniteItems : List Json → List Json
  | [] => []
  | value :: values => nonfiniteAsTokens value :: nonfiniteItems values

def nonfiniteFields : List (String × Json) → List (String × Json)
  | [] => []
  | (key, value) :: fields => (key, nonfiniteAsTokens value) :: nonfiniteFields fields

end

/-- `json_text`: a text as it is, and anything else canonical. -/
def jsonText (value : Json) : String :=
  match nonfiniteAsTokens value with
  | .string text => text
  | value => (((encoding print).bytes value).toOption.bind fromUtf8).getD ""

/-! ### Infinite numbers have no canonical text, and none is left -/

lemma isFinite_of_some {raw : String} {value : F64} (h : asF64 raw = some value) :
    value.isFinite = true := by
  unfold asF64 at h
  split_ifs at h with hfinite
  rwa [← Option.some.inj h]

lemma numberText_ok {raw : String} (h : ¬(Reader.isFloat raw = true ∧ asF64 raw = none)) :
    ∃ text, (encoding print).numberText raw = .ok text := by
  unfold Encoding.numberText
  change ∃ text, (if Reader.isFloat raw = true then _ else _) = Except.ok text
  by_cases hfloat : Reader.isFloat raw = true
  · obtain ⟨value, hvalue⟩ := Option.ne_none_iff_exists'.mp fun hnone => h ⟨hfloat, hnone⟩
    have htext : (encoding print).floatText raw =
        some (print (if value.scaled = 0 then Float.Model.ofNat 0 else value)) := by
      simp [encoding, hvalue, floatText, isFinite_of_some hvalue]
    rw [if_pos hfloat, htext]
    exact ⟨_, rfl⟩
  · rw [if_neg hfloat]
    split_ifs
    · exact ⟨_, rfl⟩
    · exact ⟨_, rfl⟩

mutual

/-- **The value with tokens has a canonical form**, so that its text is always there. -/
theorem canonical_tokens : ∀ value : Json, (encoding print).Canonical (nonfiniteAsTokens value)
  | .null => ⟨_, rfl⟩
  | .bool true => ⟨_, rfl⟩
  | .bool false => ⟨_, rfl⟩
  | .string _ => ⟨_, rfl⟩
  | .number raw => by
      unfold nonfiniteAsTokens
      split_ifs with hraw
      · exact ⟨_, rfl⟩
      · exact ⟨_, rfl⟩
      · obtain ⟨text, htext⟩ := numberText_ok print hraw
        exact ⟨utf8 text, by rw [Encoding.bytes, htext]; rfl⟩
  | .array values => by
      obtain ⟨written, hwritten⟩ := canonical_items values
      exact ⟨_, by rw [nonfiniteAsTokens, Encoding.bytes, hwritten]; rfl⟩
  | .object fields => by
      obtain ⟨written, hwritten⟩ := canonical_fields fields
      exact ⟨_, by rw [nonfiniteAsTokens, Encoding.bytes, hwritten]; rfl⟩

theorem canonical_items : ∀ values : List Json,
    ∃ written, (encoding print).bytesItems (nonfiniteItems values) = .ok written
  | [] => ⟨[], rfl⟩
  | value :: values => by
      obtain ⟨first, hfirst⟩ := canonical_tokens value
      obtain ⟨rest, hrest⟩ := canonical_items values
      exact ⟨first :: rest, by rw [nonfiniteItems, Encoding.bytesItems, hfirst, hrest]; rfl⟩

theorem canonical_fields : ∀ fields : List (String × Json),
    ∃ written, (encoding print).bytesFields (nonfiniteFields fields) = .ok written
  | [] => ⟨[], rfl⟩
  | (key, value) :: fields => by
      obtain ⟨first, hfirst⟩ := canonical_tokens value
      obtain ⟨rest, hrest⟩ := canonical_fields fields
      exact ⟨(key, first) :: rest, by
        rw [nonfiniteFields, Encoding.bytesFields, hfirst, hrest]; rfl⟩

end

end Texts

namespace MetricValue

variable (print : Printer)

/-- `MetricValue::json`. -/
def toJson : MetricValue → Json
  | json value => value
  | float value => if value.isFinite then .number (print value) else .null
  | invalidText _ => .null

def string : MetricValue → Option String
  | json (.string value) => some value
  | _ => none

def isNumber : MetricValue → Bool
  | json (.number _) => true
  | float _ => true
  | _ => false

def finite : MetricValue → Bool
  | json value => Metrics.finite value
  | float value => value.isFinite
  | invalidText _ => false

def isNull : MetricValue → Bool
  | json .null => true
  | _ => false

/-- `MetricValue::invalid_text`. -/
def text : MetricValue → String
  | json value => jsonText print value
  | float value => floatToken print value
  | invalidText value => value

end MetricValue

/-! ## Records -/

/-- The values of a record by their names, each of which stands there once. -/
structure ObservationInput where
  fields : List (String × MetricValue)
  unique : (fields.map Prod.fst).Nodup

namespace ObservationInput

/-- `from_json`: an object has each of its keys once. -/
def fromJson (fields : Fields) (unique : (fields.map Prod.fst).Nodup) : ObservationInput where
  fields := fields.map fun (key, value) => (key, .json value)
  unique := by
    rw [List.map_map]
    exact unique

def get (input : ObservationInput) (key : String) : Option MetricValue := input.fields.lookup key

/-- The fields with one that is put in the place of its name, or at the end. -/
def put (fields : List (String × MetricValue)) (name : String) (value : MetricValue) :
    List (String × MetricValue) :=
  if name ∈ fields.map Prod.fst then
    fields.map fun field => if field.1 = name then (name, value) else field
  else fields ++ [(name, value)]

lemma names_put (fields : List (String × MetricValue)) (name : String) (value : MetricValue) :
    (put fields name value).map Prod.fst =
      if name ∈ fields.map Prod.fst then fields.map Prod.fst else fields.map Prod.fst ++ [name] := by
  unfold put
  split_ifs with hname
  · rw [List.map_map]
    refine List.map_congr_left fun field _ => ?_
    rw [Function.comp_apply]
    split_ifs with hsame
    · exact hsame.symm
    · rfl
  · rw [List.map_append, List.map_singleton]

lemma unique_put {fields : List (String × MetricValue)} (h : (fields.map Prod.fst).Nodup)
    (name : String) (value : MetricValue) : ((put fields name value).map Prod.fst).Nodup := by
  rw [names_put]
  split_ifs with hname
  · exact h
  · exact List.nodup_append.mpr ⟨h, List.nodup_singleton name, fun a ha b hb hab => by
      rw [List.mem_singleton.mp hb] at hab
      exact hname (hab ▸ ha)⟩

def withNumber (input : ObservationInput) (name : String) (value : F64) : ObservationInput where
  fields := put input.fields name (.float value)
  unique := unique_put input.unique name _

def withInvalidText (input : ObservationInput) (name text : String) : ObservationInput where
  fields := put input.fields name (.invalidText text)
  unique := unique_put input.unique name _

end ObservationInput

/-- `printable` of this module: a text that is not blank and has no control characters. -/
def printable (value : String) (max : ℕ) : Bool :=
  trim value ≠ "" ∧ value.toList.length ≤ max ∧ ¬value.toList.any fun c => c < ' '

/-- The first characters of a text. -/
def truncate (value : String) (max : ℕ) : String := String.ofList (value.toList.take max)

/-! ## The state of an observation -/

/-- The status of an observation, its last error, and all errors. -/
structure Marks where
  state : Json
  error : Json
  errors : List Json

namespace Marks

def fail (marks : Marks) (status message : String) : Marks where
  state := .string status
  error := .string message
  errors := marks.errors ++ [.string message]

/-- A reason to fail. -/
def check (marks : Marks) (bad : Bool) (message : String) : Marks :=
  if bad then marks.fail "FAILED" message else marks

/-- What is not declared stays a failure where it is one. -/
def undeclared (marks : Marks) (message : String) : Marks :=
  marks.fail (if marks.state = .string "FAILED" then "FAILED" else "UNDECLARED") message

end Marks

def STATUSES : List String := ["VALID", "PARTIAL", "FAILED", "MISSING"]

def isStatus (state : Json) : Bool := state.asStr.any fun value => value ∈ STATUSES

/-- The unit of an observation with the marks that its check leaves. -/
def checkUnit (marks : Marks) (unit : Json) (name : String) (definition definitions : Fields) :
    Marks × Json :=
  if ¬unit.asStr.any fun unit => printable unit 128 then (marks.undeclared "UNIT_NOT_DECLARED", .null)
  else if (definition.get "unit").any fun expected => expected ≠ .null ∧ expected ≠ unit then
    (marks.fail "FAILED" "UNIT_MISMATCH", unit)
  else if definitions ≠ [] ∧ (definitions.get name).isNone then
    (marks.undeclared "METRIC_NOT_DECLARED", unit)
  else (marks, unit)

/-- A metric of a record: its name and value, with the record where that names it. -/
structure Metric where
  name : String
  raw : Option MetricValue
  item : Option ObservationInput

/-- A field of the record that names the metric. -/
def Metric.field (metric : Metric) (key : String) : Option MetricValue :=
  metric.item.bind fun item => item.get key

section Observe

variable (print : Printer)

/-- The value of a field, null where there is none. -/
def ObservationInput.value (record : ObservationInput) (key : String) : Json :=
  ((record.get key).map (MetricValue.toJson print)).getD .null

/-- A field of the record is taken over where it is as it has to be. -/
def takeField (record : ObservationInput) (fits : MetricValue → Bool) (fields : Fields)
    (key : String) : Fields :=
  if (record.get key).any fits then fields.insert key (record.value print key) else fields

/-- A short text or a finite number. -/
def isShort (value : MetricValue) : Bool :=
  value.string.any (fun text => text.toList.length ≤ 2000) || value.finite

/-- What every observation of a record has. -/
def commonFields (record : ObservationInput) : Fields :=
  ["timestamp", "checkpoint_id", "dataset_id"].foldl (takeField print record isShort)
    (["step", "epoch"].foldl (takeField print record MetricValue.finite) [])

def badContext (record : ObservationInput) : Bool :=
  (record.get "protocol_id").any fun value =>
    ¬value.isNull ∧ ¬value.string.any fun text => text.toList.length ≤ 2000

def badVariant (record : ObservationInput) : Bool :=
  (record.get "variant_id").any fun value =>
    ¬value.isNull ∧ ¬value.string.any fun text => printable text 2000

/-- The protocol of a record: its own, or the given one. -/
def contextOf (record : ObservationInput) (protocolId : Option String) : Json :=
  if badContext record then .null
  else match record.get "protocol_id" with
    | some value => value.toJson print
    | none => Json.ofOption .string protocolId

/-- The names of a flat record that are no metrics. -/
def contextKeys : List String :=
  ["step", "epoch", "timestamp", "checkpoint_id", "dataset_id", "protocol_id", "variant_id"]

/-- The metrics of a record, none where its name is not valid. -/
def metricsOf (record : ObservationInput) : Option (List Metric) :=
  match record.get "name" with
  | some name =>
      match name.string.filter fun name => printable name 128 with
      | some name => some [⟨name, record.get "value", some record⟩]
      | none => none
  | none => some ((record.fields.filter fun field =>
      field.1 ∉ contextKeys ∧ field.2.isNumber).map fun field => ⟨field.1, some field.2, none⟩)

/-- A count of a ratio, null where it is not finite. -/
def takeSum (metric : Metric) (before : Fields × Marks) (key : String) : Fields × Marks :=
  match (metric.field key).filter fun raw => ¬raw.isNull with
  | none => before
  | some raw => (before.1.insert key (if raw.finite then raw.toJson print else .null),
      before.2.check (¬raw.finite) "NONFINITE_AGGREGATION_COUNT")

/-- Whether the counts of a ratio are not there, or its denominator is not positive. -/
def badCounts (sums : Fields) : Bool :=
  (sums.get "numerator").all Json.isNull || (sums.get "denominator").all Json.isNull ||
    ((sums.get "denominator").bind valueAsF64).any fun value => value ≤ Float.Model.ofNat 0

/-- Whether the value of a metric is a finite number. -/
def Metric.valid (metric : Metric) : Bool := metric.raw.any MetricValue.finite

def Metric.unit (metric : Metric) (definition : Fields) : Json :=
  ((metric.field "unit").map (MetricValue.toJson print)).getD ((definition.get "unit").getD .null)

/-- An error that the record tells. -/
def Metric.error (metric : Metric) : Json :=
  match metric.field "error" with
  | none => .null
  | some (.invalidText text) => .string text
  | some (.float value) =>
      if value.isFinite then (MetricValue.float value).toJson print
      else .string ((MetricValue.float value).text print)
  | some (.json value) => value

/-- The marks before any check. -/
def Metric.marks (metric : Metric) : Marks where
  state := ((metric.field "status").map (MetricValue.toJson print)).getD (.string "VALID")
  error := metric.error print
  errors := []

/-- The definition of a metric, empty where it has none. -/
def definitionFor (definitions : Fields) (name : String) : Except MetricError Fields :=
  match definitions.get name with
  | none => .ok []
  | some (.object definition) => .ok definition
  | some _ => .error .schema

/-- What is known beside the metric itself. -/
structure Scene where
  definitions : Fields
  context : Json
  badContext : Bool
  badVariant : Bool
  protocolId : Option String

/-- The marks and the unit behind the checks of status, value and unit. -/
def checkValue (scene : Scene) (metric : Metric) (definition : Fields) : Marks × Json :=
  let marks := metric.marks print
  let marks := marks.check (¬isStatus marks.state) "INVALID_STATUS"
  let marks := marks.check (marks.state = .string "VALID" ∧ ¬metric.valid) "NONFINITE_OR_MISSING_VALUE"
  checkUnit marks (metric.unit print definition) metric.name definition scene.definitions

/-- Whether the flag of a summary is no boolean. -/
def badSummary (summary : Option MetricValue) : Bool :=
  summary.any fun value => match value with
    | .json (.bool _) => false
    | _ => true

/-- The marks behind the checks of what the record is about. -/
def checkContext (scene : Scene) (metric : Metric) (marks : Marks) : Marks :=
  let marks := marks.check scene.badContext "INVALID_PROTOCOL_ID"
  let marks := marks.check scene.badVariant "INVALID_VARIANT_ID"
  let marks := marks.check (badSummary (metric.field "summary")) "INVALID_SUMMARY_FLAG"
  marks.check (scene.protocolId.any fun expected => scene.context.asStr ≠ some expected)
    "PROTOCOL_MISMATCH"

/-- The counts of a metric with the marks that their checks leave. -/
def checkSums (metric : Metric) (definition : Fields) (marks : Marks) : Fields × Marks :=
  let (sums, marks) := ["numerator", "denominator"].foldl (takeSum print metric) ([], marks)
  (sums, marks.check ((definition.get "aggregation").bind Json.asStr = some "ratio_of_sums" ∧
    badCounts sums) "INVALID_AGGREGATION_COUNTS")

/-- The text of a value that is no finite number. -/
def Metric.invalid (metric : Metric) : Json :=
  Json.ofOption (fun raw => .string (truncate (MetricValue.text print raw) 128))
    (metric.raw.filter fun raw => ¬raw.isNull ∧ ¬metric.valid)

/-- The fields of an observation beside its counts and the flag of a summary. -/
def Metric.row (scene : Scene) (record : ObservationInput) (source : Option String)
    (metric : Metric) (marks : Marks) (unit : Json) : Fields :=
  (commonFields print record).extend
    [("name", .string metric.name),
      ("value", if metric.valid then ((metric.raw).map (MetricValue.toJson print)).getD .null else .null),
      ("unit", unit),
      ("invalid_value", metric.invalid print),
      ("variant_id", if scene.badVariant then .null else record.value print "variant_id"),
      ("protocol_id", scene.context), ("status", marks.state),
      ("error", if marks.error = .null then .null
        else .string (truncate (jsonText print marks.error) 2000)),
      ("source", ((source.filter fun source => source ≠ "").map Json.string).getD
        (record.value print "_source_path")),
      ("errors", .array marks.errors)]

/-- The flag of a summary is there where the record has one. -/
def addSummary (fields : Fields) : Option MetricValue → Fields
  | none => fields
  | some (.json (.bool true)) => fields.insert "summary" (.bool true)
  | some _ => fields.insert "summary" (.bool false)

def observe (scene : Scene) (record : ObservationInput) (source : Option String) (metric : Metric) :
    Except MetricError Json := do
  let definition ← definitionFor scene.definitions metric.name
  let (marks, unit) := checkValue print scene metric definition
  let marks := checkContext scene metric marks
  let (sums, marks) := checkSums print metric definition marks
  let result := (metric.row print scene record source marks unit).extend sums
  .ok (.object (addSummary result (metric.field "summary")))

/-- The one observation of a record whose name is not valid. -/
def invalidName (source : Option String) : Json :=
  .object [("name", .null), ("value", .null), ("unit", .null), ("status", .string "FAILED"),
    ("error", .string "INVALID_METRIC_NAME"), ("errors", .array [.string "INVALID_METRIC_NAME"]),
    ("source", Json.ofOption .string source)]

/-- A source that JSON cannot hold. -/
def badSource (record : ObservationInput) (source : Option String) : Bool :=
  (source.filter fun source => source ≠ "").isNone ∧
    (record.get "_source_path").any fun value => match value with
      | .json _ => false
      | .float value => ¬value.isFinite
      | .invalidText _ => true

def definitionsOf (schema : Fields) : Except MetricError Fields :=
  match schema.get "definitions" with
  | none => .ok []
  | some (.object definitions) => .ok definitions
  | some _ => .error .schema

def observationsTyped (record : ObservationInput) (schema : Json)
    (protocolId source : Option String) : Except MetricError (List Json) := do
  reject (badSource record source) .record
  let schema ← schema.asObject.elim (.error .schema) .ok
  let definitions ← definitionsOf schema
  match metricsOf record with
  | none => .ok [invalidName source]
  | some metrics =>
      metrics.mapM (observe print
        { definitions := definitions
          context := contextOf print record protocolId
          badContext := badContext record
          badVariant := badVariant record
          protocolId := protocolId } record source)

end Observe

/-! ## Checks -/

section Checks

variable {marks : Marks} {message : String}

/-- A check that leaves a valid state has found nothing. -/
lemma Marks.check_valid {bad : Bool} (h : (marks.check bad message).state = .string "VALID") :
    bad = false ∧ marks.check bad message = marks := by
  cases bad with
  | false => exact ⟨rfl, rfl⟩
  | true =>
    exact absurd (Json.string.inj h) (by decide)

lemma Marks.undeclared_invalid : (marks.undeclared message).state ≠ .string "VALID" := by
  intro h
  have hstatus := Json.string.inj h
  split_ifs at hstatus
  · exact absurd hstatus (by decide)
  · exact absurd hstatus (by decide)

/-- What a unit is that leaves a valid state. -/
structure UnitFits (unit : Json) (name : String) (definition definitions : Fields) : Prop where
  printable : ∃ text, unit = .string text ∧ Metrics.printable text 128 = true
  declared : ∀ expected, definition.get "unit" = some expected → expected = .null ∨ expected = unit
  named : definitions ≠ [] → (definitions.get name).isSome = true

lemma checkUnit_valid {unit : Json} {name : String} {definition definitions : Fields}
    (h : (checkUnit marks unit name definition definitions).1.state = .string "VALID") :
    checkUnit marks unit name definition definitions = (marks, unit) ∧
      UnitFits unit name definition definitions := by
  unfold checkUnit at h ⊢
  split_ifs at h with hunit hmatch hnamed
  · exact absurd (Json.string.inj h) (by decide)
  · exact absurd h Marks.undeclared_invalid
  · rw [if_neg (not_not.mpr hunit), if_neg hmatch, if_neg hnamed]
    refine ⟨rfl, ?_, fun expected hexpected => ?_, fun hdefinitions => ?_⟩
    · obtain ⟨text, htext, hprintable⟩ := (Option.any_eq_true _ _).mp hunit
      exact ⟨text, Json.asStr_eq_some.mp htext, hprintable⟩
    · by_contra hdiffers
      refine hmatch ((Option.any_eq_true _ _).mpr ⟨expected, hexpected, ?_⟩)
      exact decide_eq_true (not_or.mp hdiffers)
    · rw [← Option.not_isNone, Bool.not_eq_true']
      exact Bool.eq_false_iff.mpr fun hnone => hnamed ⟨hdefinitions, hnone⟩
  · exact absurd h Marks.undeclared_invalid

variable {print : Printer}

/-- What the checks of context leave valid, they leave alone. -/
lemma checkContext_valid {scene : Scene} {metric : Metric}
    (h : (checkContext scene metric marks).state = .string "VALID") :
    checkContext scene metric marks = marks ∧
      ∀ expected, scene.protocolId = some expected → scene.context = .string expected := by
  unfold checkContext at h ⊢
  obtain ⟨hprotocol, hsame⟩ := Marks.check_valid h
  rw [hsame] at h ⊢
  obtain ⟨-, hsame⟩ := Marks.check_valid h
  rw [hsame] at h ⊢
  obtain ⟨-, hsame⟩ := Marks.check_valid h
  rw [hsame] at h ⊢
  obtain ⟨-, hsame⟩ := Marks.check_valid h
  rw [hsame]
  refine ⟨rfl, fun expected hexpected => ?_⟩
  rw [hexpected, Option.any_some, decide_eq_false_iff_not, not_not] at hprotocol
  exact Json.asStr_eq_some.mp hprotocol

/-- The text of a finite float is read back as it. -/
def MetricValue.Printed (print : Printer) : MetricValue → Prop
  | .float value => value.isFinite = true → asF64 (print value) = some value
  | _ => True

/-- The texts of the record's finite floats are read back. -/
def ObservationInput.Printed (print : Printer) (record : ObservationInput) : Prop :=
  ∀ field ∈ record.fields, field.2.Printed print

/-- The texts of the floats of a metric are read back. -/
structure Metric.Printed (print : Printer) (metric : Metric) : Prop where
  raw : ∀ raw, metric.raw = some raw → raw.Printed print
  field : ∀ key raw, metric.field key = some raw → raw.Printed print

/-- A finite value is written as a finite number. -/
lemma toJson_finite {raw : MetricValue} (hprint : raw.Printed print) (h : raw.finite = true) :
    ∃ text value, raw.toJson print = .number text ∧ asF64 text = some value := by
  cases raw with
  | json value =>
    cases value with
    | number text =>
      obtain ⟨value, hvalue, -⟩ := (Option.any_eq_true _ _).mp h
      exact ⟨text, value, rfl, hvalue⟩
    | null | bool value | string text | array items | object fields => cases h
  | float value => exact ⟨print value, value, if_pos h, hprint h⟩
  | invalidText text => cases h

/-- The count under a key, if the metric has one. -/
def Metric.sum (print : Printer) (metric : Metric) (key : String) : Option Json :=
  ((metric.field key).filter fun raw => ¬raw.isNull).map fun raw =>
    if raw.finite then raw.toJson print else .null

lemma takeSum_eq (metric : Metric) (before : Fields × Marks) (key : String) :
    (takeSum print metric before key).1 = (match metric.sum print key with
      | none => before.1
      | some value => before.1.insert key value) ∧
    ((takeSum print metric before key).2.state = .string "VALID" →
      (takeSum print metric before key).2 = before.2) := by
  unfold takeSum Metric.sum
  cases (metric.field key).filter fun raw => ¬raw.isNull with
  | none => exact ⟨rfl, fun _ => rfl⟩
  | some raw => exact ⟨rfl, fun h => (Marks.check_valid h).2⟩

/-- The counts that are there. -/
def sumsOf (numerator denominator : Option Json) : Fields :=
  numerator.toList.map (Prod.mk "numerator") ++ denominator.toList.map (Prod.mk "denominator")

lemma get_sumsOf (numerator denominator : Option Json) :
    (sumsOf numerator denominator).get "numerator" = numerator ∧
      (sumsOf numerator denominator).get "denominator" = denominator := by
  cases numerator with
  | none => cases denominator <;> simp [sumsOf, Fields.get_cons]
  | some value => cases denominator <;> simp [sumsOf, Fields.get_cons]

lemma checkSums_eq (metric : Metric) (definition : Fields) (marks : Marks) :
    (checkSums print metric definition marks).1 =
      sumsOf (metric.sum print "numerator") (metric.sum print "denominator") := by
  obtain ⟨hfirst, -⟩ := @takeSum_eq print metric ([], marks) "numerator"
  obtain ⟨hsecond, -⟩ := @takeSum_eq print metric (takeSum print metric ([], marks) "numerator")
    "denominator"
  change (takeSum print metric (takeSum print metric ([], marks) "numerator") "denominator").1 = _
  rw [hsecond, hfirst]
  cases metric.sum print "numerator" with
  | none => cases metric.sum print "denominator" <;> rfl
  | some value => cases metric.sum print "denominator" <;> simp [sumsOf, Fields.insert]

/-- A count that is there and not null is a finite number. -/
lemma sum_number {metric : Metric} (hprint : metric.Printed print) {key : String} {value : Json}
    (h : metric.sum print key = some value) (hvalue : value ≠ .null) :
    ∃ raw text number, metric.field key = some raw ∧ raw.finite = true ∧ value = raw.toJson print ∧
      value = .number text ∧ asF64 text = some number := by
  obtain ⟨raw, hraw, rfl⟩ := Option.map_eq_some_iff.mp h
  obtain ⟨hfield, -⟩ := Option.filter_eq_some_iff.mp hraw
  by_cases hfinite : raw.finite = true
  · obtain ⟨text, number, htext, hnumber⟩ := toJson_finite (hprint.field key raw hfield) hfinite
    rw [if_pos hfinite]
    exact ⟨raw, text, number, hfield, hfinite, rfl, htext, hnumber⟩
  · exact absurd (if_neg hfinite) hvalue

/-- What the checks of counts leave valid, they leave alone; a ratio has finite counts then, with a
denominator that is positive. -/
lemma checkSums_valid {metric : Metric} (hprint : metric.Printed print) {definition : Fields}
    (h : (checkSums print metric definition marks).2.state = .string "VALID") :
    (checkSums print metric definition marks).2 = marks ∧
      ((definition.get "aggregation").bind Json.asStr = some "ratio_of_sums" →
        ∃ text value, metric.sum print "denominator" = some (.number text) ∧
          asF64 text = some value ∧ 0 < value.value) := by
  have hsums := @checkSums_eq print metric definition marks
  obtain ⟨hcounts, hsame⟩ := Marks.check_valid h
  change (checkSums print metric definition marks).2 = _ at hsame
  rw [hsame] at h ⊢
  obtain ⟨-, hsecond⟩ := @takeSum_eq print metric (takeSum print metric ([], marks) "numerator")
    "denominator"
  obtain ⟨-, hfirst⟩ := @takeSum_eq print metric ([], marks) "numerator"
  have hdenominator := hsecond h
  change (takeSum print metric (takeSum print metric ([], marks) "numerator") "denominator").2 = marks ∧ _
  rw [hdenominator, hfirst (hdenominator ▸ h)]
  refine ⟨rfl, fun hratio => ?_⟩
  have hbad : badCounts (checkSums print metric definition marks).1 = false := by
    have hnot := of_decide_eq_false hcounts
    exact Bool.eq_false_iff.mpr fun hbad => hnot ⟨hratio, hbad⟩
  rw [hsums, badCounts, (get_sumsOf _ _).1, (get_sumsOf _ _).2, Bool.or_eq_false_iff,
    Bool.or_eq_false_iff] at hbad
  obtain ⟨⟨-, hthere⟩, hpositive⟩ := hbad
  cases hsum : metric.sum print "denominator" with
  | none =>
    rw [hsum] at hthere
    cases hthere
  | some value =>
    rw [hsum] at hthere hpositive
    have hvalue : value ≠ .null := by
      rintro rfl
      cases hthere
    obtain ⟨-, text, number, -, -, -, rfl, hnumber⟩ := sum_number hprint hsum hvalue
    refine ⟨text, number, rfl, hnumber, ?_⟩
    have hreads : valueAsF64 (.number text) = some number := hnumber
    rw [Option.bind_some, hreads, Option.any_some, decide_eq_false_iff_not,
      F64.le_iff (isFinite_of_some hnumber) (by decide +kernel), F64.value_zero, not_le] at hpositive
    exact hpositive

/-- What the checks of the value leave valid. -/
lemma checkValue_valid {scene : Scene} {metric : Metric} {definition : Fields}
    (h : (checkValue print scene metric definition).1.state = .string "VALID") :
    metric.valid = true ∧ (∃ marks : Marks, marks.errors = [] ∧
      checkValue print scene metric definition = (marks, metric.unit print definition)) ∧
      UnitFits (metric.unit print definition) metric.name definition scene.definitions := by
  unfold checkValue at h ⊢
  obtain ⟨hsame, hunit⟩ := checkUnit_valid h
  rw [hsame] at h ⊢
  obtain ⟨hvalue, hsame⟩ := Marks.check_valid h
  rw [hsame] at h ⊢
  obtain ⟨-, hsame⟩ := Marks.check_valid h
  refine ⟨?_, ⟨_, ?_, rfl⟩, hunit⟩
  · by_contra hvalid
    exact of_decide_eq_false hvalue ⟨h, hvalid⟩
  · exact congrArg Marks.errors hsame

end Checks

/-! ## Observations -/

section Sound

variable {print : Printer}

/-- What a `VALID` observation of a metric tells. -/
structure Sound (definitions : Fields) (protocolId : Option String) (name : String)
    (result : Json) : Prop where
  value : ∃ text, result.get "value" = some (.number text) ∧ (asF64 text).isSome = true
  unit : ∃ definition unit, definitionFor definitions name = .ok definition ∧
    result.get "unit" = some (.string unit) ∧ printable unit 128 = true ∧
    ∀ expected, definition.get "unit" = some expected → expected = .null ∨ expected = .string unit
  named : definitions ≠ [] → (definitions.get name).isSome = true
  protocol : ∀ expected, protocolId = some expected →
    result.get "protocol_id" = some (.string expected)
  ratio : ∀ definition, definitionFor definitions name = .ok definition →
    (definition.get "aggregation").bind Json.asStr = some "ratio_of_sums" →
    ∃ text value, result.get "denominator" = some (.number text) ∧ asF64 text = some value ∧
      0 < value.value
  errors : result.get "errors" = some (.array [])

lemma get_takeField {record : ObservationInput} {fits : MetricValue → Bool} {key : String} :
    ∀ {keys : List String} {fields : Fields}, key ∉ keys →
      (keys.foldl (takeField print record fits) fields).get key = fields.get key
  | [], _, _ => rfl
  | first :: keys, fields, h => by
      rw [List.foldl_cons, get_takeField fun hmem => h (List.mem_cons_of_mem _ hmem), takeField]
      split_ifs
      · exact Fields.get_insert_of_ne (fun hsame => h (List.mem_cons.mpr (.inl hsame))) _ _
      · rfl

/-- No count stands among the common fields. -/
lemma get_commonFields (record : ObservationInput) {key : String}
    (h : key ∈ ["numerator", "denominator"]) : (commonFields print record).get key = none := by
  have hlast : key ∉ ["timestamp", "checkpoint_id", "dataset_id"] := by
    rcases List.mem_pair.mp h with rfl | rfl <;> decide
  have hfirst : key ∉ ["step", "epoch"] := by
    rcases List.mem_pair.mp h with rfl | rfl <;> decide
  rw [commonFields, get_takeField hlast, get_takeField hfirst]
  rfl

lemma get_addSummary {fields : Fields} {summary : Option MetricValue} {key : String}
    (h : key ≠ "summary") : (addSummary fields summary).get key = fields.get key := by
  unfold addSummary
  split
  · rfl
  · exact Fields.get_insert_of_ne h _ _
  · exact Fields.get_insert_of_ne h _ _

variable {scene : Scene} {record : ObservationInput} {source : Option String} {metric : Metric}
  {marks : Marks} {unit : Json} {numerator denominator : Option Json}
  {summary : Option MetricValue}

/-- An observation from its parts. -/
def observed (print : Printer) (scene : Scene) (record : ObservationInput) (source : Option String)
    (metric : Metric) (marks : Marks) (unit : Json) (numerator denominator : Option Json) : Json :=
  .object (addSummary ((metric.row print scene record source marks unit).extend
    (sumsOf numerator denominator)) (metric.field "summary"))

/-- A field that is no count stands in the row. -/
lemma get_observed {key : String} (hcount : key ∉ ["numerator", "denominator", "summary"]) :
    (observed print scene record source metric marks unit numerator denominator).get key =
      (metric.row print scene record source marks unit).get key := by
  simp only [List.mem_cons, List.not_mem_nil, or_false, not_or] at hcount
  obtain ⟨hnumerator, hdenominator, hsummary⟩ := hcount
  rw [observed, Json.get_object, get_addSummary hsummary]
  cases numerator <;> cases denominator <;>
    simp [sumsOf, Fields.extend, Fields.get_insert, hnumerator, hdenominator]

lemma get_counts :
    (observed print scene record source metric marks unit numerator denominator).get "numerator" =
      numerator ∧
    (observed print scene record source metric marks unit numerator denominator).get "denominator" =
      denominator := by
  have hrow : ∀ key ∈ ["numerator", "denominator"],
      (metric.row print scene record source marks unit).get key = none := by
    intro key hkey
    have hcommon := @get_commonFields print record _ hkey
    rcases List.mem_pair.mp hkey with rfl | rfl <;>
      simp [Metric.row, Fields.extend, Fields.get_insert, hcommon]
  have hfirst := hrow "numerator" (by decide)
  have hsecond := hrow "denominator" (by decide)
  rw [observed, Json.get_object, Json.get_object, get_addSummary (by decide),
    get_addSummary (by decide)]
  cases numerator <;> cases denominator <;>
    simp [sumsOf, Fields.extend, Fields.get_insert, hfirst, hsecond]

/-- The record's value for a metric under a key: its field where the record names the metric, and in
a flat record the metric's own field. -/
def ObservationInput.told (record : ObservationInput) (name key : String) : Option MetricValue :=
  if (record.get "name").isSome then record.get key
  else if key = "value" then record.get name else none

/-- The metrics of a record: the one it names, or the numbers of a flat one. -/
def ObservationInput.Names (record : ObservationInput) (name : String) : Prop :=
  match record.get "name" with
  | some value => value.string = some name ∧ printable name 128 = true
  | none => name ∉ contextKeys ∧ ∃ raw, record.get name = some raw ∧ raw.isNumber = true

/-- The marks of an observation behind all checks. -/
def Metric.checked (print : Printer) (scene : Scene) (metric : Metric) (definition : Fields) :
    Marks :=
  (checkSums print metric definition
    (checkContext scene metric (checkValue print scene metric definition).1)).2

lemma observe_eq {result : Json} (h : observe print scene record source metric = .ok result) :
    ∃ definition, definitionFor scene.definitions metric.name = .ok definition ∧
      result = observed print scene record source metric (metric.checked print scene definition)
        (checkValue print scene metric definition).2 (metric.sum print "numerator")
        (metric.sum print "denominator") := by
  obtain ⟨definition, hdefinition, h⟩ := bind_eq_ok.mp h
  refine ⟨definition, hdefinition, ?_⟩
  rw [observed, ← checkSums_eq metric definition
    (checkContext scene metric (checkValue print scene metric definition).1)]
  exact (Except.ok.inj h).symm

/-- The fields of an observation that its row holds. -/
lemma get_row :
    (observed print scene record source metric marks unit numerator denominator).get "name" =
        some (.string metric.name) ∧
      (observed print scene record source metric marks unit numerator denominator).get "unit" =
        some unit ∧
      (observed print scene record source metric marks unit numerator denominator).get
        "protocol_id" = some scene.context ∧
      (observed print scene record source metric marks unit numerator denominator).get "status" =
        some marks.state ∧
      (observed print scene record source metric marks unit numerator denominator).get "errors" =
        some (.array marks.errors) := by
  rw [get_observed (by decide), get_observed (by decide), get_observed (by decide),
    get_observed (by decide), get_observed (by decide)]
  simp [Metric.row, Fields.extend, Fields.get_insert]

lemma get_value :
    (observed print scene record source metric marks unit numerator denominator).get "value" =
      some (if metric.valid then ((metric.raw).map (MetricValue.toJson print)).getD .null
        else .null) := by
  rw [get_observed (by decide)]
  simp [Metric.row, Fields.extend, Fields.get_insert]

/-- **A valid observation is sound.** -/
lemma observe_sound (hprint : metric.Printed print) {result : Json}
    (h : observe print scene record source metric = .ok result)
    (hstatus : result.get "status" = some (.string "VALID")) :
    Sound scene.definitions scene.protocolId metric.name result := by
  obtain ⟨definition, hdefinition, rfl⟩ := observe_eq h
  obtain ⟨-, hunit, hprotocol, hstate, herrors⟩ := @get_row print scene record source metric
    (metric.checked print scene definition) (checkValue print scene metric definition).2
    (metric.sum print "numerator") (metric.sum print "denominator")
  rw [hstate] at hstatus
  have hvalid := Option.some.inj hstatus
  obtain ⟨hsums, hratio⟩ := checkSums_valid hprint hvalid
  have hmarks : metric.checked print scene definition = _ := hsums
  rw [hmarks] at hvalid
  obtain ⟨hcontext, hexpected⟩ := checkContext_valid hvalid
  rw [hcontext] at hvalid hmarks
  obtain ⟨hfinite, ⟨marks, hnone, hchecked⟩, hfits⟩ := checkValue_valid hvalid
  obtain ⟨text, htext, hprintable⟩ := hfits.printable
  refine ⟨?_, ⟨definition, text, hdefinition, ?_, hprintable, ?_⟩, hfits.named, ?_, ?_, ?_⟩
  · obtain ⟨raw, hraw, hrawfinite⟩ := (Option.any_eq_true _ _).mp hfinite
    obtain ⟨number, value, hnumber, hvalue⟩ := toJson_finite (hprint.raw raw hraw) hrawfinite
    refine ⟨number, ?_, Option.isSome_iff_exists.mpr ⟨value, hvalue⟩⟩
    rw [get_value, if_pos hfinite, hraw, Option.map_some, Option.getD_some, hnumber]
  · rw [hunit, hchecked, htext]
  · intro expected hexpected
    rw [← htext]
    exact hfits.declared expected hexpected
  · intro expected hsome
    rw [hprotocol, hexpected expected hsome]
  · intro other hother hratios
    cases hdefinition.symm.trans hother
    obtain ⟨text, value, hsum, hvalue, hpositive⟩ := hratio hratios
    exact ⟨text, value, get_counts.2.trans hsum, hvalue, hpositive⟩
  · rw [herrors, hmarks, hchecked, hnone]

/-- A number of an observation is a finite number of the record. -/
lemma observe_number (hprint : metric.Printed print) {result : Json}
    (h : observe print scene record source metric = .ok result) {key text : String}
    (hget : result.get key = some (.number text)) :
    (key = "value" → ∃ raw, metric.raw = some raw ∧ raw.finite = true ∧
      raw.toJson print = .number text) ∧
    (key ∈ ["numerator", "denominator"] → ∃ raw, metric.field key = some raw ∧ raw.finite = true ∧
      raw.toJson print = .number text) := by
  obtain ⟨definition, -, rfl⟩ := observe_eq h
  constructor
  · rintro rfl
    rw [get_value] at hget
    split_ifs at hget with hfinite
    · obtain ⟨raw, hraw, hrawfinite⟩ := (Option.any_eq_true _ _).mp hfinite
      rw [hraw] at hget
      exact ⟨raw, hraw, hrawfinite, Option.some.inj hget⟩
    · cases hget
  · intro hkey
    have hsum : metric.sum print key = some (.number text) := by
      rcases List.mem_pair.mp hkey with rfl | rfl
      · exact get_counts.1.symm.trans hget
      · exact get_counts.2.symm.trans hget
    obtain ⟨raw, -, -, hraw, hfinite, hnumber, -⟩ := sum_number hprint hsum nofun
    exact ⟨raw, hraw, hfinite, hnumber.symm⟩

/-- The metrics of a record are those it names, each once, with the values that it tells. -/
lemma metricsOf_spec {metrics : List Metric} (h : metricsOf record = some metrics) :
    (metrics.map Metric.name).Nodup ∧
      (∀ name, name ∈ metrics.map Metric.name ↔ record.Names name) ∧
      ∀ metric ∈ metrics, metric.raw = record.told metric.name "value" ∧
        ∀ key ∈ ["numerator", "denominator"], metric.field key = record.told metric.name key := by
  unfold metricsOf at h
  cases hname : record.get "name" with
  | some value =>
    rw [hname] at h
    cases hfilter : value.string.filter fun name => printable name 128 with
    | none =>
      simp only [hfilter] at h
      cases h
    | some name =>
      simp only [hfilter] at h
      cases h
      obtain ⟨hstring, hprintable⟩ := Option.filter_eq_some_iff.mp hfilter
      refine ⟨List.nodup_singleton name, fun other => ?_, fun metric hmetric => ?_⟩
      · rw [ObservationInput.Names, hname, List.map_singleton, List.mem_singleton]
        constructor
        · rintro rfl
          exact ⟨hstring, hprintable⟩
        · rintro ⟨hother, -⟩
          exact Option.some.inj (hother.symm.trans hstring)
      · cases List.mem_singleton.mp hmetric
        simp [ObservationInput.told, Metric.field, hname]
  | none =>
    rw [hname] at h
    cases h
    have hnames : ∀ fields : List (String × MetricValue),
        (fields.map fun field => (⟨field.1, some field.2, none⟩ : Metric)).map Metric.name =
          fields.map Prod.fst := fun fields => List.map_map
    have hlookup : ∀ name raw, (name, raw) ∈ record.fields ↔ record.get name = some raw :=
      fun name raw => (lookup_eq_some_iff record.unique).symm
    refine ⟨?_, fun name => ?_, fun metric hmetric => ?_⟩
    · rw [hnames]
      exact record.unique.sublist (List.filter_sublist.map _)
    · rw [hnames, ObservationInput.Names, hname, List.mem_map]
      constructor
      · rintro ⟨⟨key, raw⟩, hmem, rfl⟩
        obtain ⟨hfield, hkept⟩ := List.mem_filter.mp hmem
        obtain ⟨hcontext, hnumber⟩ := of_decide_eq_true hkept
        exact ⟨hcontext, raw, (hlookup key raw).mp hfield, hnumber⟩
      · rintro ⟨hcontext, raw, hraw, hnumber⟩
        exact ⟨(name, raw), List.mem_filter.mpr ⟨(hlookup name raw).mpr hraw,
          decide_eq_true ⟨hcontext, hnumber⟩⟩, rfl⟩
    · obtain ⟨⟨key, raw⟩, hmem, rfl⟩ := List.mem_map.mp hmetric
      have hraw := (hlookup key raw).mp (List.mem_filter.mp hmem).1
      refine ⟨?_, fun other hother => ?_⟩
      · simp [ObservationInput.told, hname, hraw]
      · rcases List.mem_pair.mp hother with rfl | rfl <;>
          simp [ObservationInput.told, Metric.field, hname]

/-- The values of a metric are values of the record. -/
lemma metric_printed {metrics : List Metric} (h : metricsOf record = some metrics)
    (hprint : record.Printed print) {metric : Metric} (hmem : metric ∈ metrics) :
    metric.Printed print := by
  have hget : ∀ key raw, record.get key = some raw → raw.Printed print := fun key raw hraw =>
    hprint (key, raw) ((lookup_eq_some_iff record.unique).mp hraw)
  unfold metricsOf at h
  cases hname : record.get "name" with
  | some value =>
    rw [hname] at h
    cases hfilter : value.string.filter fun name => printable name 128 with
    | none =>
      simp only [hfilter] at h
      cases h
    | some name =>
      simp only [hfilter] at h
      cases h
      cases List.mem_singleton.mp hmem
      exact ⟨fun raw hraw => hget "value" raw hraw, fun key raw hraw => hget key raw hraw⟩
  | none =>
    rw [hname] at h
    cases h
    obtain ⟨field, hfield, rfl⟩ := List.mem_map.mp hmem
    exact ⟨fun raw hraw => Option.some.inj hraw ▸ hprint field (List.mem_filter.mp hfield).1,
      fun key raw hraw => by cases hraw⟩

/-- The observations of metrics carry their names. -/
lemma names_observed {metrics : List Metric} {results : List Json}
    (h : List.Forall₂ (fun metric result => observe print scene record source metric = .ok result)
      metrics results) :
    results.map (fun result => result.get "name") =
      (metrics.map Metric.name).map fun name => some (.string name) := by
  induction h with
  | nil => rfl
  | cons hfirst _ ih =>
    obtain ⟨definition, -, rfl⟩ := observe_eq hfirst
    rw [List.map_cons, List.map_cons, List.map_cons, ih, get_row.1]

/-- **Observations are sound.** Of the observations of a record, a valid one tells a finite value in
the declared unit, under a declared name and the given protocol, with a positive denominator where
the metric is a ratio, and without errors. A number in an observation is a finite number of the
record, and every metric that the record names is observed once. -/
theorem observationsTyped_sound {record : ObservationInput} (hprint : record.Printed print)
    {schema : Json} {protocolId source : Option String} {results : List Json}
    (h : observationsTyped print record schema protocolId source = .ok results) :
    ∃ fields definitions, schema = .object fields ∧ definitionsOf fields = .ok definitions ∧
      (∀ result ∈ results, result.get "status" = some (.string "VALID") →
        ∃ name, result.get "name" = some (.string name) ∧
          Sound definitions protocolId name result) ∧
      (∀ result ∈ results, ∀ key ∈ ["value", "numerator", "denominator"], ∀ text,
        result.get key = some (.number text) →
          ∃ name raw, result.get "name" = some (.string name) ∧ record.told name key = some raw ∧
            raw.finite = true ∧ raw.toJson print = .number text) ∧
      (∀ name, record.Names name →
        (results.map fun result => result.get "name").count (some (.string name)) = 1) ∧
      ∀ result ∈ results, result = invalidName source ∧ results = [result] ∨
        ∃ name, record.Names name ∧ result.get "name" = some (.string name) := by
  obtain ⟨-, -, h⟩ := bind_eq_ok.mp h
  obtain ⟨fields, hfields, h⟩ := bind_eq_ok.mp h
  obtain ⟨definitions, hdefinitions, h⟩ := bind_eq_ok.mp h
  have hschema : schema = .object fields := by
    cases schema with
    | object found => exact congrArg Json.object (Except.ok.inj hfields)
    | null | bool value | number text | string text | array items => cases hfields
  refine ⟨fields, definitions, hschema, hdefinitions, ?_⟩
  cases hmetrics : metricsOf record with
  | none =>
    rw [hmetrics] at h
    cases h
    have hnone : ∀ name, ¬record.Names name := by
      intro name hnames
      unfold metricsOf at hmetrics
      cases hname : record.get "name" with
      | none =>
        rw [hname] at hmetrics
        cases hmetrics
      | some value =>
        rw [ObservationInput.Names, hname] at hnames
        have hfilter : value.string.filter (fun name => printable name 128) = some name :=
          Option.filter_eq_some_iff.mpr hnames
        simp only [hname, hfilter] at hmetrics
        cases hmetrics
    refine ⟨fun result hresult hvalid => ?_, fun result hresult key hkey text hnumber => ?_,
      fun name hname => absurd hname (hnone name), fun result hresult => ?_⟩
    · cases List.mem_singleton.mp hresult
      exact absurd (Json.string.inj (Option.some.inj hvalid)) (by decide)
    · cases List.mem_singleton.mp hresult
      simp only [List.mem_cons, List.not_mem_nil, or_false] at hkey
      rcases hkey with rfl | rfl | rfl <;> cases hnumber
    · cases List.mem_singleton.mp hresult
      exact .inl ⟨rfl, rfl⟩
  | some metrics =>
    rw [hmetrics] at h
    have hobserved := mapM_eq_ok.mp h
    obtain ⟨hunique, hnames, htold⟩ := metricsOf_spec hmetrics
    refine ⟨fun result hresult hvalid => ?_, fun result hresult key hkey text hnumber => ?_,
      fun name hname => ?_, fun result hresult => ?_⟩
    · obtain ⟨metric, hmem, hmetric⟩ := exists_left hobserved hresult
      refine ⟨metric.name, ?_, observe_sound (metric_printed hmetrics hprint hmem) hmetric hvalid⟩
      obtain ⟨definition, -, rfl⟩ := observe_eq hmetric
      exact get_row.1
    · obtain ⟨metric, hmem, hmetric⟩ := exists_left hobserved hresult
      obtain ⟨hraw, hcounts⟩ := htold metric hmem
      obtain ⟨hvalue, hcount⟩ := observe_number (metric_printed hmetrics hprint hmem) hmetric hnumber
      have hname : result.get "name" = some (.string metric.name) := by
        obtain ⟨definition, -, rfl⟩ := observe_eq hmetric
        exact get_row.1
      rcases List.mem_cons.mp hkey with rfl | hkey
      · obtain ⟨raw, hfield, hfinite, htext⟩ := hvalue rfl
        exact ⟨metric.name, raw, hname, hraw ▸ hfield, hfinite, htext⟩
      · obtain ⟨raw, hfield, hfinite, htext⟩ := hcount hkey
        exact ⟨metric.name, raw, hname, hcounts key hkey ▸ hfield, hfinite, htext⟩
    · rw [names_observed hobserved]
      have hinjective : Function.Injective fun name : String => some (Json.string name) :=
        fun a b hab => Json.string.inj (Option.some.inj hab)
      rw [List.count_map_of_injective _ _ hinjective]
      exact List.count_eq_one_of_mem hunique ((hnames name).mpr hname)
    · obtain ⟨metric, hmem, hmetric⟩ := exists_left hobserved hresult
      obtain ⟨definition, -, rfl⟩ := observe_eq hmetric
      exact .inr ⟨metric.name, (hnames metric.name).mp (List.mem_map_of_mem hmem), get_row.1⟩

/-- A ratio of a half, from a producer of typed values. -/
def half : ObservationInput where
  fields := [("name", .json (.string "accuracy")), ("value", .float (parseFloat "0.5")),
    ("numerator", .json (.number "1")), ("denominator", .json (.number "2"))]
  unique := by decide

def halfSchema : Json :=
  .object [("definitions", .object [("accuracy",
    .object [("unit", .string "1"), ("aggregation", .string "ratio_of_sums")])])]

theorem observationsTyped_sound_half :
    ∃ result name definitions,
      observationsTyped (fun _ => "0.5") half halfSchema (some "p") none = .ok [result] ∧
      result.get "name" = some (.string name) ∧ Sound definitions (some "p") name result := by
  have hprint : half.Printed fun _ => "0.5" := by
    have hread : asF64 "0.5" = some (parseFloat "0.5") := by decide +kernel
    simp [ObservationInput.Printed, half, MetricValue.Printed, hread]
  have hrun : ∃ result,
      observationsTyped (fun _ => "0.5") half halfSchema (some "p") none = .ok [result] ∧
        result.get "status" = some (.string "VALID") := ⟨_, rfl, rfl⟩
  obtain ⟨result, hresult, hstatus⟩ := hrun
  obtain ⟨-, definitions, -, -, hsound, -⟩ := observationsTyped_sound hprint hresult
  obtain ⟨name, hname, h⟩ := hsound result List.mem_cons_self hstatus
  exact ⟨result, name, definitions, hresult, hname, h⟩

end Sound

end Metrics

end ExperimentControl
