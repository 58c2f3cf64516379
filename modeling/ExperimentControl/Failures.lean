import ExperimentControl.Library.Fallible
import ExperimentControl.Metrics.Observations

/-!
# Failure evidence

What is said of a failed Attempt, of `core/src/failures.rs`: the tails of its process are classified
by the messages in them, and what is found counts when it names the Attempt, is not older than its
start, and both its own layer and the Attempt have failed.

* `Unicode`, `Clock` — the tables of characters and the reading of dates.
* `oomAt`, `memoryBytes` — the message of a device that is out of memory, and its quantities.
* `rawProcessSummary`, `assess`, `attemptFailureEvidenceAssessment` — the functions of the source.
* **`assessment_exact`** — when an assessment fails, and what a summary says.
-/

namespace ExperimentControl

namespace Failures

open Metrics (asF64 jsonText parseFloat parseUnsigned Printer)

inductive FailureError where
  | evidence
  | memory
  deriving DecidableEq, Repr

/-- The tables of Unicode: case mappings, and what a pattern takes for a digit or for the same
letter. -/
structure Unicode where
  toLowercase : String → String
  toUppercase : String → String
  isDigit : Char → Bool
  same : Char → Char → Bool

/-- The dates of the `time` crate, in microseconds since the epoch. -/
structure Clock where
  /-- A date and time with an offset of its own. -/
  zoned : String → Option ℤ
  /-- A date and time with the offset in seconds that is given. -/
  naive : String → ℤ → Option ℤ

structure AssessmentContext where
  attemptId : String := ""
  attemptState : Option String := none
  attemptStartedAt : Json := .null
  observedAt : Json := .null
  domainObservedAt : Fields := []
  domainAttemptIds : Fields := []
  domainEvidenceSources : Fields := []
  naiveUtcOffsetSeconds : Option ℤ := none

/-! ## Values -/

def truth : Json → Bool
  | .null => false
  | .bool value => value
  | .string text => text ≠ ""
  | .array items => items ≠ []
  | .object fields => fields ≠ []
  | .number text => (asF64 text).all fun value => value.scaled ≠ 0

/-- White space, and the four separators of C0. -/
def isStripped (c : Char) : Bool := isWhitespace c ∨ 28 ≤ c.toNat ∧ c.toNat ≤ 31

def strip (text : String) : String :=
  String.ofList ((text.toList.dropWhile isStripped).rdropWhile isStripped)

/-- A text is found in another. -/
def contains (text part : String) : Bool := text.toList.tails.any part.toList.isPrefixOf

/-- Items with a line end between them. -/
def joinLines (lines : List String) : String := String.intercalate "\n" lines

mutual

/-- `at` of `compact_evidence`. -/
def compactAt (depth : ℕ) : Json → Json
  | .object fields =>
      if 8 ≤ depth then .string "[nested evidence omitted]" else .object (compactFields depth fields)
  | .array items =>
      if 8 ≤ depth then .string "[nested evidence omitted]"
      else .array ((compactItems depth items).take 40 ++
        if 40 < items.length then
          [.string ("[" ++ toString (items.length - 40) ++ " additional records omitted]")] else [])
  | .string text =>
      if 8 ≤ depth then .string "[nested evidence omitted]"
      else if 2000 < text.toList.length then
        .string (String.ofList (text.toList.take 2000) ++ "…[truncated]")
      else .string text
  | value => if 8 ≤ depth then .string "[nested evidence omitted]" else value

def compactItems (depth : ℕ) : List Json → List Json
  | [] => []
  | item :: items => compactAt (depth + 1) item :: compactItems depth items

def compactFields (depth : ℕ) : List (String × Json) → List (String × Json)
  | [] => []
  | (key, value) :: fields =>
      if key ∈ ["stdout_tail", "stderr_tail", "raw_stdout", "raw_stderr", "startup_script"] then
        compactFields depth fields
      else (key, compactAt (depth + 1) value) :: compactFields depth fields

end

def compactEvidence (value : Json) : Json := compactAt 0 value

/-! ## Timestamps -/

/-- A text of a shape, in which a `d` stands for a digit. -/
def hasShape : List Char → List Char → Bool
  | [], [] => true
  | 'd' :: shape, c :: text => c.isDigit && hasShape shape text
  | mark :: shape, c :: text => mark = c && hasShape shape text
  | _, _ => false

/-- A date with what may follow it. -/
structure Iso where
  date : List Char
  time : Option (List Char)
  fraction : List Char
  offset : Option (List Char)

/-- The offset at the end of a text. -/
def isoOffset : List Char → Option (Option (List Char))
  | [] => some none
  | ['Z'] => some (some ['Z'])
  | sign :: rest =>
      if (sign = '+' ∨ sign = '-') ∧ hasShape "dd:dd".toList rest then some (some (sign :: rest))
      else none

/-- `^(date)(?:[Tt ](time)(?:[.,](fraction))?(offset)?)?$`. -/
def iso (text : List Char) : Option Iso :=
  let date := text.take 10
  let rest := text.drop 10
  if ¬hasShape "dddd-dd-dd".toList date then none
  else match rest with
    | [] => some ⟨date, none, [], none⟩
    | mark :: rest =>
        let time := rest.take 8
        let behind := rest.drop 8
        if mark ∉ ['T', 't', ' '] ∨ ¬hasShape "dd:dd:dd".toList time then none
        else match behind with
          | point :: digits =>
              let fraction := digits.takeWhile Char.isDigit
              if point ∈ ['.', ','] ∧ fraction ≠ [] then
                (isoOffset (digits.dropWhile Char.isDigit)).map fun offset =>
                  ⟨date, some time, fraction, offset⟩
              else (isoOffset behind).map fun offset => ⟨date, some time, [], offset⟩
          | [] => some ⟨date, some time, [], none⟩

/-- Six digits. -/
def sixDigits (n : ℕ) : List Char :=
  let digits := Nat.toDigits 10 n
  List.replicate (6 - digits.length) '0' ++ digits

/-- The float of some microseconds, read from their exact decimal text. -/
def seconds (micros : ℤ) : F64 :=
  parseFloat ((if micros < 0 then "-" else "") ++ toString (micros.natAbs / 1000000) ++ "." ++
    String.ofList (sixDigits (micros.natAbs % 1000000)))

/-- The microseconds of a date, none for a leap second. -/
def microsOf (clock : Clock) (naiveOffsetSeconds : Option ℤ) (captures : Iso) : Option ℤ :=
  let time := captures.time.getD "00:00:00".toList
  let normalized := captures.date ++ 'T' :: time ++
    if captures.fraction = [] then [] else '.' :: captures.fraction.take 6
  if time.drop 6 = ['6', '0'] then none
  else match captures.offset with
    | some offset => clock.zoned (String.ofList (normalized ++ offset))
    | none => naiveOffsetSeconds.bind fun seconds => clock.naive (String.ofList normalized) seconds

def evidenceTimestamp (clock : Clock) (value : Json) (naiveOffsetSeconds : Option ℤ) : Option F64 :=
  match value with
  | .number text => asF64 text
  | .string text =>
      if text = "" ∨ 256 < byteLen text then none
      else (((iso text.toList).bind (microsOf clock naiveOffsetSeconds)).map seconds).filter
        Float.Model.isFinite
  | _ => none

/-! ## Patterns -/

section Patterns

variable (unicode : Unicode)

/-- The text behind a literal. -/
def literal : List Char → List Char → Option (List Char)
  | [], text => some text
  | mark :: pattern, c :: text => if unicode.same mark c then literal pattern text else none
  | _ :: _, [] => none

/-- A quantity as it is written: a number and a unit. -/
structure Amount where
  value : String
  unit : String
  deriving DecidableEq, Repr

/-- `([\d.]+) ([GM]iB)`. -/
def amount (text : List Char) : Option (Amount × List Char) :=
  let value := text.takeWhile fun c => unicode.isDigit c ∨ c = '.'
  if value = [] then none
  else do
    let rest ← literal unicode [' '] (text.dropWhile fun c => unicode.isDigit c ∨ c = '.')
    let behind ← (literal unicode "GiB".toList rest).or (literal unicode "MiB".toList rest)
    return (⟨String.ofList value, String.ofList (rest.take 3)⟩, behind)

variable {α : Type}

/-- `.*?` and what follows: at the first place of the line where it is found. -/
def lazily (next : List Char → Option α) : List Char → Option α
  | [] => next []
  | c :: text =>
      match next (c :: text) with
      | some found => some found
      | none => if c = '\n' then none else lazily next text

/-- At the first place of the text where it is found. -/
def search (next : List Char → Option α) : List Char → Option α
  | [] => next []
  | c :: text =>
      match next (c :: text) with
      | some found => some found
      | none => search next text

/-- The quantities of the message. -/
structure Oom where
  requested : Amount
  total : Amount
  free : Amount
  allocated : Amount
  deriving DecidableEq, Repr

def allocatedAt (requested total free : Amount) (text : List Char) : Option Oom := do
  let rest ← literal unicode "allocated memory ".toList text
  let (allocated, rest) ← amount unicode rest
  let _ ← literal unicode " is allocated".toList rest
  return ⟨requested, total, free, allocated⟩

def capacityAt (requested : Amount) (text : List Char) : Option Oom := do
  let rest ← literal unicode "total capacity of ".toList text
  let (total, rest) ← amount unicode rest
  let rest ← literal unicode " of which ".toList rest
  let (free, rest) ← amount unicode rest
  let rest ← literal unicode " is free".toList rest
  lazily (allocatedAt unicode requested total free) rest

/-- The pattern of the message. -/
def oomAt (text : List Char) : Option Oom := do
  let rest ← literal unicode "Tried to allocate ".toList text
  let (requested, rest) ← amount unicode rest
  lazily (capacityAt unicode requested) rest

end Patterns

/-- `[0-9]+` behind a literal, with the text behind it. -/
def digitsBehind (start : String) (text : List Char) : Option (List Char × List Char) :=
  if start.toList.isPrefixOf text then
    let rest := text.drop start.toList.length
    let digits := rest.takeWhile Char.isDigit
    if digits = [] then none else some (digits, rest.dropWhile Char.isDigit)
  else none

/-- `\[rank([0-9]+)\].*?OutOfMemoryError`, with the text behind it. -/
def rankAt (text : List Char) : Option (String × List Char) := do
  let (digits, rest) ← digitsBehind "[rank" text
  let rest ← if rest.head? = some ']' then some rest.tail else none
  let rest ← lazily (fun rest =>
    if "OutOfMemoryError".toList.isPrefixOf rest then some (rest.drop 16) else none) rest
  return (String.ofList (digits.dropWhile (· = '0')), rest)

/-- Every rank in a text, one behind another. A match is not empty, so that the length is enough. -/
def ranksOf : ℕ → List Char → List String
  | 0, _ => []
  | fuel + 1, text =>
      match search rankAt text with
      | none => []
      | some (rank, rest) => rank :: ranksOf fuel rest

/-- `(?:world_size|nproc_per_node)=([0-9]+)`. -/
def worldAt (text : List Char) : Option String :=
  ((digitsBehind "world_size=" text).or (digitsBehind "nproc_per_node=" text)).map fun found =>
    String.ofList found.1

/-! ## Quantities -/

/-- `parse::<f64>` of digits and points. -/
def parseDecimal (text : String) : Option F64 :=
  let whole := text.toList.takeWhile Char.isDigit
  let rest := text.toList.dropWhile Char.isDigit
  let fraction := rest.tail.takeWhile Char.isDigit
  if (whole ≠ [] ∨ fraction ≠ []) ∧ (rest = [] ∨ rest = '.' :: fraction) then
    some (parseUnsigned text.toList)
  else none

/-- `round_ties_even`. -/
def roundTiesEven (x : F64) : ℤ :=
  let twice := 2 * (x.scaled % F64.unit)
  if twice < F64.unit then x.floor
  else if F64.unit < twice then x.floor + 1
  else if x.floor % 2 = 0 then x.floor
  else x.floor + 1

def factor (unit : String) : F64 :=
  if String.ofList (unit.toList.map Char.toLower) = "gib" then Float.Model.ofNat (1024 ^ 3)
  else Float.Model.ofNat (1024 ^ 2)

/-- The bytes of a quantity, where they are a finite number. -/
def quantityOf (amount : Amount) : Option F64 :=
  ((parseDecimal amount.value).map fun value => value.mul (factor amount.unit)).filter
    Float.Model.isFinite

def memoryBytes (amount : Amount) : Except FailureError Json :=
  match quantityOf amount with
  | some quantity => .ok (.ofInt (roundTiesEven quantity))
  | none => .error .memory

/-! ## The process -/

section Assessment

variable (unicode : Unicode) (clock : Clock) (print : Printer)

def orString (value : Json) (default : String) : String :=
  if truth value then jsonText print value else default

def normalizedClass (value : Json) : Option String :=
  let normalized := strip (orString print value "")
  if unicode.toLowercase normalized ∈ ["", "none", "null"] then none else some normalized

def joinedTail (value : Json) : Except FailureError String :=
  if ¬truth value then .ok ""
  else match value with
    | .array values => .ok (joinLines (values.map (jsonText print)))
    | .object values => .ok (joinLines (values.map Prod.fst))
    | .string value => .ok (joinLines (value.toList.map fun c => String.ofList [c]))
    | _ => .error .evidence

/-- The size of the world, where it is told and not zero. -/
def worldSize (stdout : String) : Option Json :=
  ((search worldAt stdout.toList).map fun digits =>
    let trimmed := String.ofList (digits.toList.dropWhile (· = '0'))
    Json.number (if trimmed = "" then "0" else trimmed)).filter truth

def phaseOf (combined : String) : String :=
  if contains combined "Performing initial training step" ∧ contains combined ".backward()" then
    "first_backward"
  else if contains combined ".backward()" then "backward"
  else "unknown"

/-- The summary of the message. -/
def oomSummary (oom : Oom) (combined stdout : String) : Except FailureError Json := do
  let ranks := (ranksOf combined.toList.length combined.toList).dedup
  let ranks := if ranks = [] then Json.null else .ofNat ranks.length
  let requested ← memoryBytes oom.requested
  let free ← memoryBytes oom.free
  let total ← memoryBytes oom.total
  let allocated ← memoryBytes oom.allocated
  return .object [("failure_signature", .string "CUDA_OOM"), ("failure_class", .string "resource"),
    ("phase", .string (phaseOf combined)), ("requested_bytes", requested), ("free_bytes", free),
    ("total_bytes", total), ("allocated_bytes", allocated),
    ("rank_count", (worldSize stdout).getD ranks), ("observed_oom_rank_count", ranks),
    ("source", .string "collection.process_evidence")]

/-- The texts that are looked for, with a signature and a class. -/
def SIGNATURES : List (String × String × String) :=
  [("OutOfMemoryError", "CUDA_OOM", "resource"), ("CUDA out of memory", "CUDA_OOM", "resource"),
    ("ModuleNotFoundError", "MISSING_PYTHON_MODULE", "configuration"),
    ("no kernel image is available", "UNSUPPORTED_CUDA_KERNEL", "configuration"),
    ("TIMEOUT", "TIMEOUT", "timeout")]

/-- A summary of the process with a signature and a class. -/
def signatureSummary (signature failureClass : String) : Json :=
  .object [("failure_signature", .string signature), ("failure_class", .string failureClass),
    ("phase", .string "unknown"), ("source", .string "collection.process_evidence")]

/-- The tails of the process, the errors behind the output. -/
def tailsOf (collection : Json) : Except FailureError (String × String) := do
  let process := collection.index "process_evidence"
  let stderr ← joinedTail print (process.index "stderr_tail")
  let stdout ← joinedTail print (process.index "stdout_tail")
  return (stdout ++ "\n" ++ stderr, stdout)

/-- The message of a device that is out of memory. -/
def findOom (combined : String) : Option Oom := search (oomAt unicode) combined.toList

def rawProcessSummary (collection : Json) : Except FailureError (Option Json) := do
  let (combined, stdout) ← tailsOf print collection
  let failureClass := normalizedClass unicode print (collection.index "failure_class")
  match findOom unicode combined with
  | some oom => do return some (← oomSummary oom combined stdout)
  | none =>
      let lowered := unicode.toLowercase combined
      match SIGNATURES.find? fun row => contains lowered (unicode.toLowercase row.1) with
      | some (_, signature, default) =>
          return some (signatureSummary signature
            (if signature = "CUDA_OOM" then default else failureClass.getD default))
      | none =>
          if failureClass.isSome ∨
              unicode.toUppercase (orString print (collection.index "process_state") "") = "FAILED" then
            return some (signatureSummary "UNCLASSIFIED_PROCESS_FAILURE" (failureClass.getD "unknown"))
          else return none

/-! ## The assessment -/

structure Candidate where
  domain : String
  value : Json
  applicable : String
  reason : String
  observedId : Option String
  observedTs : Option F64

/-- The Attempt that the evidence of a domain names. -/
def observedId (collection : Json) (context : AssessmentContext) (domain : String) : Option String :=
  let observed := orString print
    ((context.domainAttemptIds.get domain).getD (collection.index "attempt_id")) ""
  if observed = "" then none else some observed

/-- When the evidence of a domain was observed. -/
def observedTs (context : AssessmentContext) (domain : String) : Option F64 :=
  evidenceTimestamp clock ((context.domainObservedAt.get domain).getD context.observedAt)
    context.naiveUtcOffsetSeconds

/-- When the Attempt started. -/
def startedTs (context : AssessmentContext) : Option F64 :=
  evidenceTimestamp clock context.attemptStartedAt context.naiveUtcOffsetSeconds

/-- Whether evidence applies, with the reason. -/
def applicability (domain : String) (terminal : Bool) (context : AssessmentContext) (state : String)
    (named : Option String) (observed started : Option F64) : String × String :=
  if named ≠ some context.attemptId then
    ("ATTEMPT_MISMATCH", domain ++ " evidence names " ++ named.getD "no Attempt" ++ " instead of " ++
      context.attemptId)
  else match started, observed with
    | some started, some observed =>
        if observed < started then
          ("STALE", domain ++ " evidence predates the exact Attempt start")
        else if state ∉ ["FAILED", "PREEMPTED"] then
          ("NON_APPLICABLE", "exact Attempt state " ++ state ++ " is not a failed terminal state")
        else if ¬terminal then
          ("NON_APPLICABLE", domain ++ " layer state is not terminal failed")
        else ("APPLICABLE", "exact, fresh terminal " ++ domain ++ " evidence")
    | _, _ =>
        ("UNKNOWN_APPLICABILITY",
          "actual Attempt start or " ++ domain ++ " observation time is unavailable")

def assess (domain : String) (value : Json) (terminal : Bool) (collection : Json)
    (context : AssessmentContext) (state : String) : Candidate :=
  let named := observedId print collection context domain
  let observed := observedTs clock context domain
  let decided := applicability domain terminal context state named observed (startedTs clock context)
  ⟨domain, value, decided.1, decided.2, named, observed⟩

/-- The state of a layer, as the collection tells it. -/
def layerState (collection : Json) (field : String) : String :=
  unicode.toUppercase (orString print (collection.index field) "UNKNOWN")

/-- A layer behind the process: its field, signature, failed states, class and source. -/
structure Layer where
  domain : String
  field : String
  signature : String
  failed : List String
  default : String
  source : String

def LAYERS : List Layer :=
  [⟨"scheduler", "scheduler_state", "SCHEDULER_TERMINAL_FAILURE",
      ["FAILED", "PREEMPTED", "NODE_FAIL", "OUT_OF_MEMORY", "TIMEOUT"], "scheduler",
      "collection.scheduler_state"⟩,
    ⟨"worker", "worker_state", "WORKER_TERMINAL_FAILURE", ["FAILED", "LOST", "ERROR", "NODE_FAIL"],
      "worker", "collection.worker_state"⟩]

def processCandidate (raw : Option Json) (collection : Json) (context : AssessmentContext)
    (state : String) : Option Candidate :=
  let terminal : Bool := layerState unicode print collection "process_state" ∈ ["FAILED", "PREEMPTED"]
  if terminal ∨ raw.isSome then
    let value := raw.getD (signatureSummary "UNCLASSIFIED_PROCESS_FAILURE"
      ((normalizedClass unicode print (collection.index "failure_class")).getD "unknown"))
    some (assess clock print "process" (value.set "failure_domain" (.string "process")) terminal
      collection context state)
  else none

def layerCandidate (collection : Json) (context : AssessmentContext) (state : String)
    (layer : Layer) : Option Candidate :=
  let found := layerState unicode print collection layer.field
  if found ∈ layer.failed then
    let value := Json.object [("failure_signature", .string layer.signature),
      ("failure_class", .string ((normalizedClass unicode print
        (collection.index "failure_class")).getD layer.default)),
      ("failure_domain", .string layer.domain), ("phase", .string "unknown"),
      ("source", .string layer.source)]
    some (assess clock print layer.domain (value.set layer.field (.string found)) true collection
      context state)
  else none

/-- A float in a document, null where there is none. -/
def floatJson (value : Option F64) : Json := Json.ofOption (fun value => .number (print value)) value

def evidenceSource (context : AssessmentContext) (domain : String) : Json :=
  (context.domainEvidenceSources.get domain).getD .null

def summaryOf (context : AssessmentContext) (candidate : Candidate) : Json :=
  [("attempt_id", Json.string context.attemptId), ("observed_at", floatJson print candidate.observedTs),
    ("applicability", .string "APPLICABLE"),
    ("evidence_source", evidenceSource context candidate.domain)].foldl
      (fun value field => value.set field.1 field.2) candidate.value

def diagnosticOf (context : AssessmentContext) (state : String) (candidate : Candidate) : Json :=
  [("kind", Json.string "failure_signal"), ("attempt_id", Json.ofOption .string candidate.observedId),
    ("expected_attempt_id", .string context.attemptId), ("attempt_state", .string state),
    ("observed_at", floatJson print candidate.observedTs),
    ("applicability", .string candidate.applicable),
    ("evidence_source", evidenceSource context candidate.domain),
    ("reason", .string candidate.reason)].foldl
      (fun value field => value.set field.1 field.2) candidate.value

/-- The state of the Attempt. -/
def attemptState (context : AssessmentContext) : String :=
  unicode.toUppercase ((context.attemptState.filter fun state => state ≠ "").getD "UNKNOWN")

/-- What is found of every layer, the process first. -/
def candidatesOf (raw : Option Json) (collection : Json) (context : AssessmentContext) :
    List Candidate :=
  let state := attemptState unicode context
  (processCandidate unicode clock print raw collection context state).toList ++
    LAYERS.filterMap (layerCandidate unicode clock print collection context state)

def attemptFailureEvidenceAssessment (collection : Json) (context : AssessmentContext) :
    Except FailureError Json := do
  reject (collection.isObject = false) .evidence
  let raw ← rawProcessSummary unicode print collection
  let candidates := candidatesOf unicode clock print raw collection context
  let selected := candidates.find? fun candidate => candidate.applicable = "APPLICABLE"
  -- The first that applies is the summary, and the others that apply are left out.
  let diagnostics := (candidates.filter fun candidate => candidate.applicable ≠ "APPLICABLE").map
    (diagnosticOf print context (attemptState unicode context))
  return .object [("failure_summary", Json.ofOption (summaryOf print context) selected),
    ("diagnostic_evidence", compactEvidence (.array diagnostics))]

end Assessment

/-! ## When an assessment fails -/

variable {unicode : Unicode} {clock : Clock} {print : Printer} {collection : Json}
  {context : AssessmentContext}

def Oom.amounts (oom : Oom) : List Amount := [oom.requested, oom.free, oom.total, oom.allocated]

lemma memoryBytes_error {amount : Amount} {e : FailureError} :
    memoryBytes amount = .error e ↔ e = .memory ∧ quantityOf amount = none := by
  unfold memoryBytes
  cases quantityOf amount with
  | none => simp [eq_comm]
  | some quantity => simp

/-- A summary of the message fails when one of its quantities is no finite number. -/
lemma oomSummary_error {oom : Oom} {combined stdout : String} {e : FailureError} :
    oomSummary oom combined stdout = .error e ↔
      e = .memory ∧ ∃ amount ∈ oom.amounts, quantityOf amount = none := by
  have hok {amount : Amount} (h : quantityOf amount ≠ none) :
      ∃ bytes, memoryBytes amount = .ok bytes := by
    obtain ⟨quantity, hquantity⟩ := Option.ne_none_iff_exists'.mp h
    exact ⟨_, by rw [memoryBytes, hquantity]⟩
  simp only [oomSummary, bind_eq_error, memoryBytes_error, Oom.amounts, List.mem_cons,
    List.not_mem_nil, or_false, exists_eq_or_imp, exists_eq_left]
  constructor
  · rintro (⟨rfl, h⟩ | ⟨_, -, ⟨rfl, h⟩ | ⟨_, -, ⟨rfl, h⟩ | ⟨_, -, ⟨rfl, h⟩ | ⟨_, -, h⟩⟩⟩⟩)
    · exact ⟨rfl, Or.inl h⟩
    · exact ⟨rfl, Or.inr (Or.inl h)⟩
    · exact ⟨rfl, Or.inr (Or.inr (Or.inl h))⟩
    · exact ⟨rfl, Or.inr (Or.inr (Or.inr h))⟩
    · cases h
  · rintro ⟨rfl, hnone⟩
    by_cases hrequested : quantityOf oom.requested = none
    · exact Or.inl ⟨rfl, hrequested⟩
    · obtain ⟨requested, hbytes⟩ := hok hrequested
      refine Or.inr ⟨requested, hbytes, ?_⟩
      by_cases hfree : quantityOf oom.free = none
      · exact Or.inl ⟨rfl, hfree⟩
      · obtain ⟨free, hbytes⟩ := hok hfree
        refine Or.inr ⟨free, hbytes, ?_⟩
        by_cases htotal : quantityOf oom.total = none
        · exact Or.inl ⟨rfl, htotal⟩
        · obtain ⟨total, hbytes⟩ := hok htotal
          refine Or.inr ⟨total, hbytes, Or.inl ⟨rfl, ?_⟩⟩
          rcases hnone with h | h | h | h
          · exact absurd h hrequested
          · exact absurd h hfree
          · exact absurd h htotal
          · exact h

/-- The tails of the process are lists of lines, or are not there. -/
def HasTails (collection : Json) : Prop :=
  ∀ key ∈ ["stderr_tail", "stdout_tail"],
    truth ((collection.index "process_evidence").index key) = false ∨
      ∃ lines : List String, (collection.index "process_evidence").index key =
        .array (lines.map Json.string)

/-- Lines can always be joined. -/
lemma joinedTail_ok {value : Json}
    (h : truth value = false ∨ ∃ lines : List String, value = .array (lines.map Json.string)) :
    ∃ text, joinedTail print value = .ok text := by
  unfold joinedTail
  split_ifs with htruth
  · rcases h with hnone | ⟨lines, rfl⟩
    · rw [hnone] at htruth
      exact absurd htruth (by simp)
    · exact ⟨_, rfl⟩
  · exact ⟨_, rfl⟩

lemma tailsOf_ok (htails : HasTails collection) :
    ∃ combined stdout, tailsOf print collection = .ok (combined, stdout) := by
  obtain ⟨stderr, hstderr⟩ := @joinedTail_ok print _ (htails "stderr_tail" (by decide))
  obtain ⟨stdout, hstdout⟩ := @joinedTail_ok print _ (htails "stdout_tail" (by decide))
  exact ⟨stdout ++ "\n" ++ stderr, stdout, bind_eq_ok.mpr ⟨stderr, hstderr,
    bind_eq_ok.mpr ⟨stdout, hstdout, rfl⟩⟩⟩

/-- The text of the tails tells of a quantity that is no finite number. -/
def Unreadable (unicode : Unicode) (print : Printer) (collection : Json) : Prop :=
  ∃ combined stdout oom, tailsOf print collection = .ok (combined, stdout) ∧
    findOom unicode combined = some oom ∧ ∃ amount ∈ oom.amounts, quantityOf amount = none

lemma rawProcessSummary_error (htails : HasTails collection) {e : FailureError} :
    rawProcessSummary unicode print collection = .error e ↔
      e = .memory ∧ Unreadable unicode print collection := by
  obtain ⟨combined, stdout, hcombined⟩ := @tailsOf_ok print collection htails
  have hunreadable : Unreadable unicode print collection ↔
      ∃ oom, findOom unicode combined = some oom ∧
        ∃ amount ∈ oom.amounts, quantityOf amount = none := by
    constructor
    · rintro ⟨found, other, oom, htail, h⟩
      obtain ⟨rfl, -⟩ := Prod.mk.inj (Except.ok.inj (hcombined.symm.trans htail))
      exact ⟨oom, h⟩
    · rintro ⟨oom, h⟩
      exact ⟨combined, stdout, oom, hcombined, h⟩
  rw [rawProcessSummary, hcombined, ok_bind, hunreadable]
  cases hoom : findOom unicode combined with
  | some oom =>
    simp only [hoom, bind_eq_error, oomSummary_error, Option.some.injEq, exists_eq_left']
    refine or_iff_left ?_
    rintro ⟨summary, -, h⟩
    cases h
  | none =>
    simp only [hoom]
    refine iff_of_false (fun h => ?_) (by simp)
    split at h
    · cases h
    · split_ifs at h
      · cases h
      · cases h

/-! ## What a summary says -/

/-- The states of a layer that are terminal failures. -/
def FAILED_STATES : List (String × String × List String) :=
  ("process", "process_state", ["FAILED", "PREEMPTED"]) ::
    LAYERS.map fun layer => (layer.domain, layer.field, layer.failed)

/-- The evidence of a domain names the Attempt, was observed no earlier than its start, and is
terminal in its own layer and in the state of the Attempt. -/
structure Applies (unicode : Unicode) (clock : Clock) (print : Printer) (collection : Json)
    (context : AssessmentContext) (domain field : String) (failed : List String) : Prop where
  named : observedId print collection context domain = some context.attemptId
  fresh : ∃ started observed, startedTs clock context = some started ∧
    observedTs clock context domain = some observed ∧ started.value ≤ observed.value
  layer : layerState unicode print collection field ∈ failed
  attempt : attemptState unicode context ∈ ["FAILED", "PREEMPTED"]

lemma isFinite_of_asF64 {text : String} {value : F64} (h : asF64 text = some value) :
    value.isFinite = true := Metrics.isFinite_of_some h

lemma isFinite_of_evidenceTimestamp {value : Json} {offset : Option ℤ} {time : F64}
    (h : evidenceTimestamp clock value offset = some time) : time.isFinite = true := by
  cases value with
  | number text => exact isFinite_of_asF64 h
  | string text =>
    simp only [evidenceTimestamp] at h
    split_ifs at h
    exact (Option.filter_eq_some_iff.mp h).2
  | _ => cases h

/-- Evidence applies in one case only. -/
lemma applicability_applicable {domain state : String} {terminal : Bool} {named : Option String}
    {observed started : Option F64}
    (h : (applicability domain terminal context state named observed started).1 = "APPLICABLE") :
    named = some context.attemptId ∧ terminal = true ∧ state ∈ ["FAILED", "PREEMPTED"] ∧
      ∃ start time, started = some start ∧ observed = some time ∧ ¬time < start := by
  unfold applicability at h
  by_cases hnamed : named = some context.attemptId
  · rw [if_neg (not_not.mpr hnamed)] at h
    cases started with
    | none => simp at h
    | some start =>
      cases observed with
      | none => simp at h
      | some time =>
        simp only at h
        split_ifs at h with hstale hstate hterminal
        · simp at h
        · exact ⟨hnamed, hterminal, hstate, start, time, rfl, rfl, hstale⟩
        · simp at h
        · simp at h
  · rw [if_pos hnamed] at h
    simp at h

/-- Evidence that applies to a layer in a failed state. -/
lemma applies_of_assess {domain field state : String} {failed : List String} {value : Json}
    {terminal : Bool} (hstate : state = attemptState unicode context)
    (hterminal : terminal = true → layerState unicode print collection field ∈ failed)
    (h : (assess clock print domain value terminal collection context state).applicable =
      "APPLICABLE") : Applies unicode clock print collection context domain field failed := by
  obtain ⟨hnamed, hlayer, hattempt, start, time, hstart, htime, hfresh⟩ :=
    applicability_applicable h
  refine ⟨hnamed, ⟨start, time, hstart, htime, ?_⟩, hterminal hlayer, hstate ▸ hattempt⟩
  rw [F64.lt_iff (isFinite_of_evidenceTimestamp htime) (isFinite_of_evidenceTimestamp hstart)]
    at hfresh
  exact not_lt.mp hfresh

/-- What is found of a layer tells which it is. -/
structure Found (unicode : Unicode) (clock : Clock) (print : Printer) (collection : Json)
    (context : AssessmentContext) (candidate : Candidate) : Prop where
  isObject : candidate.value.isObject = true
  domain : candidate.value.index "failure_domain" = .string candidate.domain
  applies : candidate.applicable = "APPLICABLE" → ∃ row ∈ FAILED_STATES,
    candidate.domain = row.1 ∧
      Applies unicode clock print collection context row.1 row.2.1 row.2.2

lemma isObject_rawProcessSummary {raw : Json}
    (h : rawProcessSummary unicode print collection = .ok (some raw)) : raw.isObject = true := by
  obtain ⟨⟨combined, stdout⟩, -, h⟩ := bind_eq_ok.mp h
  simp only at h
  split at h
  · obtain ⟨summary, hsummary, h⟩ := bind_eq_ok.mp h
    simp only [oomSummary, bind_eq_ok] at hsummary
    obtain ⟨_, -, _, -, _, -, _, -, hsummary⟩ := hsummary
    rw [← Option.some.inj (Except.ok.inj h), ← Except.ok.inj hsummary]
    rfl
  · split at h
    · rw [← Option.some.inj (Except.ok.inj h)]
      rfl
    · split_ifs at h
      · rw [← Option.some.inj (Except.ok.inj h)]
        rfl
      · cases h

lemma found_process {raw : Option Json} {candidate : Candidate}
    (hraw : ∀ value, raw = some value → value.isObject = true)
    (h : processCandidate unicode clock print raw collection context
      (attemptState unicode context) = some candidate) :
    Found unicode clock print collection context candidate := by
  unfold processCandidate at h
  simp only at h
  split_ifs at h
  have hobject : (raw.getD (signatureSummary "UNCLASSIFIED_PROCESS_FAILURE"
      ((normalizedClass unicode print (collection.index "failure_class")).getD "unknown"))).isObject =
        true := by
    cases raw with
    | none => rfl
    | some value => exact hraw value rfl
  obtain rfl := Option.some.inj h
  refine ⟨Json.isObject_set hobject _ _, ?_, fun happlicable => ?_⟩
  · rw [assess, Json.index_set hobject, if_pos rfl]
  · exact ⟨_, List.mem_cons_self, rfl, applies_of_assess rfl of_decide_eq_true happlicable⟩

lemma found_layer {layer : Layer} {candidate : Candidate} (hlayer : layer ∈ LAYERS)
    (h : layerCandidate unicode clock print collection context (attemptState unicode context) layer =
      some candidate) : Found unicode clock print collection context candidate := by
  unfold layerCandidate at h
  simp only at h
  split_ifs at h with hfailed
  obtain rfl := Option.some.inj h
  have hfield : layer.field ≠ "failure_domain" := by
    simp only [LAYERS, List.mem_cons, List.not_mem_nil, or_false] at hlayer
    rcases hlayer with rfl | rfl
    · decide
    · decide
  refine ⟨rfl, ?_, fun happlicable => ?_⟩
  · rw [assess, Json.index_set rfl, if_neg (Ne.symm hfield)]
    rfl
  · exact ⟨_, List.mem_cons_of_mem _ (List.mem_map_of_mem hlayer), rfl,
      applies_of_assess rfl (fun _ => hfailed) happlicable⟩

lemma found_of_mem {raw : Option Json} {candidate : Candidate}
    (hraw : ∀ value, raw = some value → value.isObject = true)
    (h : candidate ∈ candidatesOf unicode clock print raw collection context) :
    Found unicode clock print collection context candidate := by
  rcases List.mem_append.mp h with h | h
  · exact found_process hraw (Option.mem_toList.mp h)
  · obtain ⟨layer, hlayer, h⟩ := List.mem_filterMap.mp h
    exact found_layer hlayer h

/-- A summary keeps the layer it is about. -/
lemma summaryOf_domain {candidate : Candidate} (hobject : candidate.value.isObject = true) :
    (summaryOf print context candidate).index "failure_domain" =
        candidate.value.index "failure_domain" ∧
      (summaryOf print context candidate).index "attempt_id" = .string context.attemptId := by
  have hfirst := Json.isObject_set hobject "attempt_id" (.string context.attemptId)
  have hsecond := Json.isObject_set hfirst "observed_at" (floatJson print candidate.observedTs)
  have hthird := Json.isObject_set hsecond "applicability" (.string "APPLICABLE")
  simp only [summaryOf, List.foldl_cons, List.foldl_nil, Json.index_set hthird,
    Json.index_set hsecond, Json.index_set hfirst, Json.index_set hobject]
  exact ⟨rfl, rfl⟩

/-- **A failure assessment.** Of tails that are lists of lines, an assessment fails only when the text
of a device that is out of memory tells of a quantity that is no finite number. A summary is there only
for a layer whose evidence names the Attempt, was observed no earlier than its start, and is terminal
in its own layer and in the state of the Attempt. -/
theorem assessment_exact (unicode : Unicode) (clock : Clock) (print : Printer) {collection : Json}
    (context : AssessmentContext) (hobject : collection.isObject = true)
    (htails : HasTails collection) :
    (∀ e, attemptFailureEvidenceAssessment unicode clock print collection context = .error e ↔
      e = .memory ∧ Unreadable unicode print collection) ∧
    ∀ value, attemptFailureEvidenceAssessment unicode clock print collection context = .ok value →
      value.index "failure_summary" ≠ .null → ∃ row ∈ FAILED_STATES,
        (value.index "failure_summary").index "failure_domain" = .string row.1 ∧
        (value.index "failure_summary").index "attempt_id" = .string context.attemptId ∧
        Applies unicode clock print collection context row.1 row.2.1 row.2.2 := by
  refine ⟨fun e => ?_, fun value h hsummary => ?_⟩
  · rw [attemptFailureEvidenceAssessment, bind_eq_error, bind_eq_error, reject_eq_error, hobject]
    simp only [Bool.true_eq_false, false_and, false_or, rawProcessSummary_error htails]
    constructor
    · rintro ⟨-, -, h | ⟨raw, -, h⟩⟩
      · exact h
      · cases h
    · intro h
      exact ⟨(), reject_eq_ok.mpr (by simp), Or.inl h⟩
  · obtain ⟨-, -, h⟩ := bind_eq_ok.mp h
    obtain ⟨raw, hraw, h⟩ := bind_eq_ok.mp h
    have hraw : ∀ found, raw = some found → found.isObject = true := by
      rintro found rfl
      exact isObject_rawProcessSummary hraw
    obtain rfl := Except.ok.inj h
    cases hselected : (candidatesOf unicode clock print raw collection context).find?
        fun candidate => candidate.applicable = "APPLICABLE" with
    | none =>
      rw [hselected] at hsummary
      exact absurd rfl hsummary
    | some candidate =>
      have hfound := found_of_mem hraw (List.mem_of_find?_eq_some hselected)
      have happlicable : candidate.applicable = "APPLICABLE" := by
        simpa using List.find?_some hselected
      obtain ⟨row, hrow, hdomain, happlies⟩ := hfound.applies happlicable
      obtain ⟨hlayer, hattempt⟩ := @summaryOf_domain print context _ hfound.isObject
      refine ⟨row, hrow, ?_, ?_, happlies⟩
      · exact hlayer.trans (hfound.domain.trans (by rw [hdomain]))
      · exact hattempt

/-! ## Texts of a device that is out of memory -/

/-- The tables of ASCII. -/
def ascii : Unicode where
  toLowercase text := String.ofList (text.toList.map Char.toLower)
  toUppercase text := String.ofList (text.toList.map Char.toUpper)
  isDigit := Char.isDigit
  same a b := a.toLower = b.toLower

/-- A clock that knows no dates. -/
def noDates : Clock := ⟨fun _ => none, fun _ _ => none⟩

/-- A failed process with one line. -/
def failedWith (line : String) : Json :=
  .object [("attempt_id", .string "attempt-002"), ("process_state", .string "FAILED"),
    ("process_evidence", .object [("stderr_tail", .array [.string line])])]

def failedContext : AssessmentContext where
  attemptId := "attempt-002"
  attemptState := some "FAILED"
  attemptStartedAt := .number "100"
  observedAt := .number "200"

lemma hasTails_failedWith (line : String) : HasTails (failedWith line) := by
  intro key hkey
  simp only [List.mem_cons, List.not_mem_nil, or_false] at hkey
  rcases hkey with rfl | rfl
  · exact Or.inr ⟨[line], rfl⟩
  · exact Or.inl rfl

theorem assessment_exact_timeout :
    ∃ value, attemptFailureEvidenceAssessment ascii noDates (fun _ => "") (failedWith "TIMEOUT")
        failedContext = .ok value ∧
      ∃ row ∈ FAILED_STATES, (value.index "failure_summary").index "failure_domain" =
          .string row.1 ∧
        Applies ascii noDates (fun _ => "") (failedWith "TIMEOUT") failedContext row.1 row.2.1
          row.2.2 := by
  have hfound : (attemptFailureEvidenceAssessment ascii noDates (fun _ => "")
      (failedWith "TIMEOUT") failedContext).toOption.map
        (fun value => decide (value.index "failure_summary" ≠ .null)) = some true := by
    decide +kernel
  cases hrun : attemptFailureEvidenceAssessment ascii noDates (fun _ => "") (failedWith "TIMEOUT")
      failedContext with
  | error e =>
    rw [hrun] at hfound
    cases hfound
  | ok value =>
    rw [hrun] at hfound
    have hsummary : value.index "failure_summary" ≠ .null :=
      of_decide_eq_true (Option.some.inj hfound)
    obtain ⟨row, hrow, hdomain, -, happlies⟩ := (assessment_exact ascii noDates (fun _ => "")
      failedContext rfl (hasTails_failedWith "TIMEOUT")).2 value hrun hsummary
    exact ⟨value, rfl, row, hrow, hdomain, happlies⟩

/-- The message with a quantity that has two points. -/
theorem assessment_points :
    let collection := failedWith ("Tried to allocate 1.2.3 GiB. GPU 0 has a total capacity of 79.1 GiB " ++
      "of which 1.0 GiB is free. Of the allocated memory 70.0 GiB is allocated by PyTorch")
    collection.isObject = true ∧ HasTails collection ∧
      attemptFailureEvidenceAssessment ascii noDates (fun _ => "") collection failedContext =
        .error .memory :=
  ⟨rfl, hasTails_failedWith _, by decide +kernel⟩

end Failures

end ExperimentControl
