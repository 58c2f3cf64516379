import ExperimentControl.Json.Records
import ExperimentControl.Library.Lines

/-!
# Redaction

The shared credential redaction of `src/rust/src/lib.rs`: free text line by line, and structured
evidence as one JSON record that may be spread over several lines.

* `Patterns`, `redactLine` — the five replacements, over the matches of the regular expressions.
* `sensitiveJsonKey`, `redactJson` — the policy for JSON values.
* `redactLines` — whole texts, where a record is put together before it is redacted.
* `Whole` — lines of which only the last may hold a record that is not complete there.
* **`redactLines_joined`** — whole lines are redacted one by one as they are in one text.
-/

namespace ExperimentControl

namespace Redaction

/-- A text, character by character. -/
abbrev Text := List Char

/-! ## Patterns -/

/-- A stretch of a text that a regular expression does not match, or a match with its captures. -/
inductive Piece
  | kept (text : Text)
  | found (captures : List Text)

/-- A regular expression, as it cuts a text into its matches and what is between them. -/
abbrev Pattern := Text → List Piece

/-- `&captures[i]`. -/
def capture (captures : List Text) (i : ℕ) : Text := captures.getD i []

/-- `Regex::replace_all`. -/
def replaceAll (pattern : Pattern) (replacement : List Text → Text) (text : Text) : Text :=
  (pattern text).flatMap fun
    | .kept text => text
    | .found captures => replacement captures

/-- The regular expressions of the policy. -/
structure Patterns where
  secretAssignment : Pattern
  bearer : Pattern
  urlUserinfo : Pattern
  sensitiveQuery : Pattern
  urlQuery : Pattern
  signedQuery : Text → Bool

/-- The same text policy with a caller-selected replacement marker. -/
def redactLineWithMarker (patterns : Patterns) (input marker : Text) : Text :=
  let value := replaceAll patterns.urlUserinfo (fun c => capture c 1 ++ marker ++ ['@']) input
  let value := replaceAll patterns.bearer (fun c => capture c 1 ++ marker) value
  let value := replaceAll patterns.urlQuery (fun c =>
    if patterns.signedQuery (capture c 2) then capture c 1 ++ ['?'] ++ marker else capture c 0) value
  let value := replaceAll patterns.sensitiveQuery (fun c => capture c 1 ++ marker) value
  replaceAll patterns.secretAssignment (fun c => capture c 1 ++ marker) value

def redactLine (patterns : Patterns) (input : Text) : Text :=
  redactLineWithMarker patterns input "<redacted>".toList

/-! ## Keys -/

/-- The characters of a key from here on, behind a lowercase letter or a digit or not. -/
def normalizedFrom : Bool → Text → Text
  | _, [] => []
  | behind, c :: rest =>
      if c = '-' ∨ c = '.' then '_' :: normalizedFrom false rest
      else if c.isUpper ∧ behind then '_' :: c.toLower :: normalizedFrom (c.isLower || c.isDigit) rest
      else c.toLower :: normalizedFrom (c.isLower || c.isDigit) rest

def normalizedKey (key : String) : Text := normalizedFrom false key.toList

def sensitiveSuffixes : List String :=
  ["token", "secret", "password", "passwd", "credential", "authorization", "cookie", "proxy",
    "signature", "api_key", "access_key", "access_key_id", "access_key_secret", "private_key",
    "apikey", "accesskey", "accesskeyid", "accesskeysecret", "privatekey"]

/-- Shared key classification for logs and stricter HTTP diagnostic policies. -/
def sensitiveJsonKey (key : String) : Bool :=
  sensitiveSuffixes.any (fun suffix =>
      normalizedKey key = suffix.toList ∨ '_' :: suffix.toList <:+ normalizedKey key) ||
    "authorization_".toList <+: normalizedKey key

/-! ## JSON values -/

mutual

/-- `redact_json_value`. -/
def redactJson (patterns : Patterns) : Json → Json
  | .object fields => .object (redactFields patterns fields)
  | .array items => .array (redactItems patterns items)
  | .string text => .string (String.ofList (redactLine patterns text.toList))
  | value => value

def redactItems (patterns : Patterns) : List Json → List Json
  | [] => []
  | item :: items => redactJson patterns item :: redactItems patterns items

def redactFields (patterns : Patterns) : List (String × Json) → List (String × Json)
  | [] => []
  | (key, child) :: fields =>
      (key, if sensitiveJsonKey key then .string "<redacted>" else redactJson patterns child) ::
        redactFields patterns fields

end

/-! ## Lines -/

def STRUCTURED_EVIDENCE_PREFIX : Text := "EXPERIMENT_EVIDENCE_JSON=".toList
def STRUCTURED_EVIDENCE_MAX_CHARS : ℕ := 1048576

/-- Why a text is no JSON value: it ends too early, or it is none whatever follows. -/
inductive ParseError
  | eof
  | other
  deriving DecidableEq, Repr

/-- The patterns, and the JSON reader and writer. -/
structure Redactor extends Patterns where
  fromStr : Text → Except ParseError Json
  toText : Json → Option Text

def malformed : Text := "<redacted-malformed>".toList

/-- The first place of a mark: what is before it, and what is behind it. -/
def cutAt (mark : Text) : Text → Option (Text × Text)
  | [] => if mark = [] then some ([], []) else none
  | c :: rest =>
      if mark <+: c :: rest then some ([], (c :: rest).drop mark.length)
      else (cutAt mark rest).map fun (before, behind) => (c :: before, behind)

/-- `str::len`, in bytes. -/
def byteLen (text : Text) : ℕ := (text.map fun c => c.utf8Size).sum

/-- The body of a line, and the newline behind it. -/
def lineParts (line : Text) : Text × Text :=
  if line.getLast? = some '\n' then
    let body := line.dropLast
    (if body.getLast? = some '\r' then body.dropLast else body, ['\n'])
  else (line, [])

/-- What becomes of a record that was read so far. -/
inductive Reading
  | object (value : Json)
  | more
  | malformed

/-- One look at the payload. -/
def reading (redactor : Redactor) (payload : Text) : Reading :=
  if byteLen payload > STRUCTURED_EVIDENCE_MAX_CHARS then .malformed
  else match redactor.fromStr payload with
    | .ok (.object fields) => .object (.object fields)
    | .ok _ => .malformed
    | .error .eof => .more
    | .error .other => .malformed

/-- A record as it is shown: its keys sorted on the wire. -/
def recordText (redactor : Redactor) (value : Json) : Text :=
  (redactor.toText (redactJson redactor.toPatterns value).ordered).getD malformed

/-- The text from a payload on, which reads the lines behind it as far as it needs them. -/
def settle (redactor : Redactor) (payload newline : Text)
    (next : Option (Text × Text) → Text) : Text :=
  match reading redactor payload with
  | .object value => recordText redactor value ++ newline ++ next none
  | .more => next (some (payload, newline))
  | .malformed => malformed ++ newline

/-- The lines from here on, with the payload of an open record and the newline it had last. -/
def redactFrom (redactor : Redactor) : Option (Text × Text) → List Text → Text
  | none, [] => []
  | some (_, newline), [] => malformed ++ newline
  | none, line :: lines =>
      match cutAt STRUCTURED_EVIDENCE_PREFIX (lineParts line).1 with
      | none =>
          redactLine redactor.toPatterns (lineParts line).1 ++ (lineParts line).2 ++
            redactFrom redactor none lines
      | some (before, payload) =>
          redactLine redactor.toPatterns before ++ STRUCTURED_EVIDENCE_PREFIX ++
            settle redactor payload (lineParts line).2 fun record => redactFrom redactor record lines
  | some (payload, _), line :: lines =>
      settle redactor (payload ++ (lineParts line).1) (lineParts line).2 fun record =>
        redactFrom redactor record lines

def redactLines (redactor : Redactor) (input : Text) : Text :=
  redactFrom redactor none (linesOf '\n' input)

/-! ## What the patterns and the writer promise -/

/-- Each match is of some text, and it, its captures and what is between the matches are parts of
the text. -/
def Proper (pattern : Pattern) : Prop :=
  ∀ text piece, piece ∈ pattern text → match piece with
    | .kept part => part ⊆ text
    | .found captures => capture captures 0 ≠ [] ∧ ∀ part ∈ captures, part ⊆ text

/-- The regular expressions match as such, and a compact JSON text has no raw line break. -/
structure Lawful (redactor : Redactor) : Prop where
  secretAssignment : Proper redactor.secretAssignment
  bearer : Proper redactor.bearer
  urlUserinfo : Proper redactor.urlUserinfo
  sensitiveQuery : Proper redactor.sensitiveQuery
  urlQuery : Proper redactor.urlQuery
  toText : ∀ value text, redactor.toText value = some text → '\n' ∉ text

variable {redactor : Redactor}

lemma capture_subset {captures : List Text} {text : Text} (parts : ∀ part ∈ captures, part ⊆ text)
    (i : ℕ) : capture captures i ⊆ text := by
  simp only [capture, List.getD_eq_getElem?_getD]
  cases there : captures[i]? with
  | none => simp
  | some part => exact parts part (List.mem_of_getElem? there)

lemma replaceAll_nil {pattern : Pattern} (proper : Proper pattern) (replacement : List Text → Text) :
    replaceAll pattern replacement [] = [] := by
  simp only [replaceAll, List.flatMap_eq_nil_iff]
  intro piece there
  have parts := proper [] piece there
  cases piece with
  | kept part => simpa using parts
  | found captures =>
    have none := capture_subset parts.2 0
    simp only [List.subset_nil] at none
    exact absurd none parts.1

/-- A replacement that is made of captures and other characters brings no line break. -/
lemma replaceAll_unbroken {pattern : Pattern} (proper : Proper pattern)
    {replacement : List Text → Text} {text : Text} (unbroken : '\n' ∉ text)
    (made : ∀ captures, (∀ i, '\n' ∉ capture captures i) → '\n' ∉ replacement captures) :
    '\n' ∉ replaceAll pattern replacement text := by
  simp only [replaceAll, List.mem_flatMap, not_exists, not_and]
  intro piece there
  have parts := proper text piece there
  cases piece with
  | kept part => exact fun broken => unbroken (parts broken)
  | found captures =>
    exact made captures fun i broken => unbroken (capture_subset parts.2 i broken)

lemma redactLine_nil (lawful : Lawful redactor) : redactLine redactor.toPatterns [] = [] := by
  simp only [redactLine, redactLineWithMarker]
  rw [replaceAll_nil lawful.urlUserinfo, replaceAll_nil lawful.bearer,
    replaceAll_nil lawful.urlQuery, replaceAll_nil lawful.sensitiveQuery,
    replaceAll_nil lawful.secretAssignment]

lemma redactLine_unbroken (lawful : Lawful redactor) {text : Text} (unbroken : '\n' ∉ text) :
    '\n' ∉ redactLine redactor.toPatterns text := by
  unfold redactLine redactLineWithMarker
  refine replaceAll_unbroken lawful.secretAssignment ?_ fun c parts => by simp [parts 1]
  refine replaceAll_unbroken lawful.sensitiveQuery ?_ fun c parts => by simp [parts 1]
  refine replaceAll_unbroken lawful.urlQuery ?_ fun c parts => ?_
  · refine replaceAll_unbroken lawful.bearer ?_ fun c parts => by simp [parts 1]
    exact replaceAll_unbroken lawful.urlUserinfo unbroken fun c parts => by simp [parts 1]
  · split
    · simp [parts 1]
    · exact parts 0

/-! ## Whole lines -/

/-- A line of a tail has no break in it. -/
def Unbroken (line : Text) : Prop := '\n' ∉ line ∧ '\r' ∉ line

/-- A record that a line holds is complete there. -/
def Closed (redactor : Redactor) (line : Text) : Prop :=
  ∀ before payload, cutAt STRUCTURED_EVIDENCE_PREFIX line = some (before, payload) →
    ∃ value, reading redactor payload = .object value

/-- Only the last line may hold a record that is not complete there. -/
structure Whole (redactor : Redactor) (lines : List Text) : Prop where
  unbroken : ∀ line ∈ lines, Unbroken line
  closed : ∀ line ∈ lines.dropLast, Closed redactor line

/-- Lines as one text. -/
def joined (lines : List Text) : Text := ['\n'].intercalate lines

lemma evidence_ne : STRUCTURED_EVIDENCE_PREFIX ≠ [] := by decide

lemma lineParts_unbroken {line : Text} (unbroken : Unbroken line) : lineParts line = (line, []) := by
  unfold lineParts
  rw [if_neg]
  exact fun last => unbroken.1 (List.mem_of_getLast? last)

lemma lineParts_terminated {line : Text} (unbroken : Unbroken line) :
    lineParts (line ++ ['\n']) = (line, ['\n']) := by
  have other : ¬line.getLast? = some '\r' := fun last => unbroken.2 (List.mem_of_getLast? last)
  simp [lineParts, other]

/-- A line of its own is redacted as it stands. -/
lemma redactLines_line (lawful : Lawful redactor) {line : Text} (unbroken : Unbroken line) :
    redactLines redactor line = redactFrom redactor none [line] := by
  unfold redactLines
  rw [linesOf_unterminated unbroken.1]
  split
  · subst line
    have none : cutAt STRUCTURED_EVIDENCE_PREFIX [] = none := by rw [cutAt, if_neg evidence_ne]
    simp only [redactFrom, lineParts_unbroken unbroken, none]
    simp [redactLine_nil lawful]
  · simp

/-- Behind a closed line, the rest is redacted on its own. -/
lemma redactFrom_closed (lawful : Lawful redactor) {line : Text} (unbroken : Unbroken line)
    (closed : Closed redactor line) (rest : List Text) :
    redactFrom redactor none ((line ++ ['\n']) :: rest) =
      redactLines redactor line ++ ['\n'] ++ redactFrom redactor none rest := by
  rw [redactLines_line lawful unbroken]
  simp only [redactFrom, lineParts_unbroken unbroken, lineParts_terminated unbroken]
  cases cut : cutAt STRUCTURED_EVIDENCE_PREFIX line with
  | none => simp
  | some parts =>
    have ⟨value, complete⟩ := closed parts.1 parts.2 cut
    simp [settle, complete, redactFrom]

/-- **Whole lines are redacted one by one as they are in one text.** -/
theorem redactLines_joined (lawful : Lawful redactor) :
    ∀ lines : List Text, Whole redactor lines →
      redactLines redactor (joined lines) = joined (lines.map (redactLines redactor))
  | [], _ => by simp [joined, redactLines, linesOf, redactFrom]
  | [line], _ => by simp [joined]
  | line :: next :: lines, whole => by
    have here := whole.unbroken line (by simp)
    have rest : Whole redactor (next :: lines) :=
      ⟨fun line there => whole.unbroken line (by simp [there]),
        fun line there => whole.closed line (by simp [there])⟩
    have ih := redactLines_joined lawful (next :: lines) rest
    have cut : linesOf '\n' (joined (line :: next :: lines)) =
        (line ++ ['\n']) :: linesOf '\n' (joined (next :: lines)) := by
      simp only [joined, List.intercalate_cons_cons, List.append_assoc, List.singleton_append]
      exact linesOf_append_terminated here.1
    unfold redactLines at ih ⊢
    rw [cut, redactFrom_closed lawful here (whole.closed line (by simp)), ih]
    simp [joined, redactLines, List.intercalate_cons_cons]

/-! ## Redacted lines -/

lemma unbroken_of_cutAt {mark before behind : Text} : ∀ {text : Text}, '\n' ∉ text →
    cutAt mark text = some (before, behind) → '\n' ∉ before ∧ '\n' ∉ behind := by
  intro text unbroken cut
  induction text generalizing before behind with
  | nil =>
    simp only [cutAt] at cut
    split at cut
    · simp only [Option.some.injEq, Prod.mk.injEq] at cut
      simp [← cut.1, ← cut.2]
    · simp at cut
  | cons c rest ih =>
    simp only [cutAt] at cut
    split at cut
    · simp only [Option.some.injEq, Prod.mk.injEq] at cut
      rw [← cut.1, ← cut.2]
      exact ⟨by simp, fun there => unbroken (List.mem_of_mem_drop there)⟩
    · simp only [Option.map_eq_some_iff, Prod.mk.injEq] at cut
      have ⟨parts, found, same, last⟩ := cut
      have inner := ih (fun there => unbroken (List.mem_cons_of_mem c there)) found
      rw [← same, ← last]
      refine ⟨fun there => ?_, inner.2⟩
      rcases List.mem_cons.mp there with first | there
      · exact unbroken (List.mem_cons.mpr (.inl first))
      · exact inner.1 there

lemma recordText_unbroken (lawful : Lawful redactor) (value : Json) :
    '\n' ∉ recordText redactor value := by
  have constant : '\n' ∉ malformed := by decide
  unfold recordText
  cases written : redactor.toText (redactJson redactor.toPatterns value).ordered with
  | none => simpa using constant
  | some text => simpa using lawful.toText _ text written

/-- A redacted line is a line. -/
lemma redactLines_unbroken (lawful : Lawful redactor) {line : Text} (unbroken : Unbroken line) :
    '\n' ∉ redactLines redactor line := by
  have constant : '\n' ∉ malformed := by decide
  have mark : '\n' ∉ STRUCTURED_EVIDENCE_PREFIX := by decide
  rw [redactLines_line lawful unbroken]
  simp only [redactFrom, lineParts_unbroken unbroken]
  cases cut : cutAt STRUCTURED_EVIDENCE_PREFIX line with
  | none => simpa using redactLine_unbroken lawful unbroken.1
  | some parts =>
    have inner := unbroken_of_cutAt unbroken.1 cut
    have before := redactLine_unbroken lawful inner.1
    simp only [settle, List.mem_append, not_or]
    refine ⟨⟨before, mark⟩, ?_⟩
    cases reading redactor parts.2 with
    | object value => simpa [redactFrom] using recordText_unbroken lawful value
    | more => simpa [redactFrom] using constant
    | malformed => simpa using constant

/-- The lines of a redacted text are the redacted lines. -/
lemma splitOn_redactLines (lawful : Lawful redactor) {lines : List Text}
    (whole : Whole redactor lines) (some : lines ≠ []) :
    (redactLines redactor (joined lines)).splitOn '\n' = lines.map (redactLines redactor) := by
  rw [redactLines_joined lawful lines whole]
  refine List.splitOn_intercalate _ ?_ (by simpa using some)
  intro line there
  have ⟨original, member, same⟩ := List.mem_map.mp there
  rw [← same]
  exact redactLines_unbroken lawful (whole.unbroken original member)

end Redaction

end ExperimentControl
