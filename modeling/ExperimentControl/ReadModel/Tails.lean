import ExperimentControl.Library.Placed
import ExperimentControl.Library.Parts
import ExperimentControl.Json.Reader
import ExperimentControl.ReadModel.Logs

/-!
# Tails of logs

The tail readers of `server/src/experiments/snapshot.rs`: the last megabyte of a log or of a file
of records, from the first line that starts in it, and of that the last lines.

* `tailBytes`, `log`, `metrics` — the readers.
* `textCutting`, `recordCutting` — what ends a line of a text and of a file of records.
* `textFinds` — a separator is found where the text has one, and nowhere inside a character.
* **`tails_exact`** — the lines of a tail are the last lines of the file.
-/

namespace ExperimentControl

namespace ReadModel

open Redaction

def MAX_TAIL_BYTES : ℕ := 1024 * 1024
def MAX_TAIL_LINES : ℕ := 10000

inductive EvidenceProblem
  | io
  | invalidJson
  | identityConflict
  | truncated
  | partialFinalLine
  | invalidUtf8
  | malformedRecord
  | foreignRecord
  | notLoaded
  | noExplicitCurrent
  | currentAttemptUnavailable
  deriving DecidableEq, Repr

def EvidenceProblem.name : EvidenceProblem → String
  | .io => "IO"
  | .invalidJson => "INVALID_JSON"
  | .identityConflict => "IDENTITY_CONFLICT"
  | .truncated => "TRUNCATED"
  | .partialFinalLine => "PARTIAL_FINAL_LINE"
  | .invalidUtf8 => "INVALID_UTF8"
  | .malformedRecord => "MALFORMED_RECORD"
  | .foreignRecord => "FOREIGN_RECORD"
  | .notLoaded => "NOT_LOADED"
  | .noExplicitCurrent => "NO_EXPLICIT_CURRENT"
  | .currentAttemptUnavailable => "CURRENT_ATTEMPT_UNAVAILABLE"

def diagnostic (source : String) (code : EvidenceProblem) (count : ℕ) : Diagnostic :=
  { notLoaded := code = .notLoaded
    document := .object [("source", .string source), ("code", .string code.name),
      ("count", .ofNat count)] }

/-! ## Texts -/

/-- What ends a line of a text, a carriage return with its line feed first. -/
def separators : List Bytes :=
  [[0x0d, 0x0a], [0x0d], [0x0a], [0x0b], [0x0c], [0x1c], [0x1d], [0x1e], [0xc2, 0x85],
    [0xe2, 0x80, 0xa8], [0xe2, 0x80, 0xa9]]

/-- The end of the separator that begins at a place. -/
def textLineEnd (bytes : Bytes) (offset : ℕ) : Option ℕ :=
  (separators.find? fun separator => separator.isPrefixOf (bytes.drop offset)).map
    fun separator => offset + separator.length

lemma textLineEnd_gt {bytes : Bytes} {offset stop : ℕ} (h : textLineEnd bytes offset = some stop) :
    offset < stop := by
  obtain ⟨separator, hfind, rfl⟩ := Option.map_eq_some_iff.mp h
  have hall : ∀ separator ∈ separators, 0 < separator.length := by decide
  have := hall separator (List.mem_of_find?_eq_some hfind)
  omega

/-- A slice of a text, between two places between characters. -/
def slice (text : Text) (start stop : ℕ) : Text := (splitAt (splitAt text start).2 (stop - start)).1

def textLinesFrom (text : Text) (start offset : ℕ) : List Text :=
  if offset < width text then
    match _h : textLineEnd (utf8 (String.ofList text)) offset with
    | some stop => slice text start offset :: textLinesFrom text stop stop
    | none =>
        textLinesFrom text start (offset + ((splitAt text offset).2.headD default).utf8Size)
  else if start < width text then [(splitAt text start).2] else []
termination_by width text - offset
decreasing_by
  · have := textLineEnd_gt ‹_›
    omega
  · have := ((splitAt text offset).2.headD default).utf8Size_pos
    omega

/-- The lines of a text, none behind a separator at its end. -/
def textLines (text : Text) : List Text := textLinesFrom text 0 0

/-- The first character of some bytes. -/
def decodeChar (bytes : Bytes) : Option Char := ByteArray.utf8DecodeChar? ⟨bytes.toArray⟩ 0

/-- Whether a second byte can follow a first one of three or four bytes. -/
def followsLong (lead second : UInt8) : Bool :=
  if lead = 0xe0 then 0xa0 ≤ second ∧ second ≤ 0xbf
  else if lead = 0xed then 0x80 ≤ second ∧ second ≤ 0x9f
  else if lead = 0xf0 then 0x90 ≤ second ∧ second ≤ 0xbf
  else if lead = 0xf4 then 0x80 ≤ second ∧ second ≤ 0x8f
  else 0xe1 ≤ lead ∧ lead ≤ 0xf3 ∧ 0x80 ≤ second ∧ second ≤ 0xbf

/-- The bytes that are replaced together where no character begins: a byte, and behind the first
byte of a long character as many as could belong to it. -/
def malformedSize : Bytes → ℕ
  | lead :: second :: rest =>
      if followsLong lead second then
        if 0xf0 ≤ lead ∧ 0x80 ≤ rest.headD 0 ∧ rest.headD 0 ≤ 0xbf then 3 else 2
      else 1
  | _ => 1

/-- `String::from_utf8_lossy`. -/
def fromUtf8Lossy : Bytes → Text
  | [] => []
  | b :: rest =>
      match decodeChar (b :: rest) with
      | some c => c :: fromUtf8Lossy (rest.drop (c.utf8Size - 1))
      | none => Char.ofNat 0xfffd :: fromUtf8Lossy (rest.drop (malformedSize (b :: rest) - 1))
termination_by bytes => bytes.length
decreasing_by all_goals simp only [List.length_drop, List.length_cons]; omega

/-! ## The last bytes of a file -/

/-- A file, with the length that its attributes say before it is read. -/
structure File where
  content : Bytes
  length : ℕ
  modified : Json
  deriving DecidableEq, Repr

/-- What the readers ask of a directory. A file may be there and not be readable. -/
structure Directory (ε : Type) where
  entryExists : String → Except ε Bool
  openRead : String → Option File

structure TailBytes where
  bytes : Bytes
  offset : ℕ
  sampled : ℕ
  truncated : Bool
  modified : Json
  deriving DecidableEq, Repr

/-- The end of a line that ends at a place, of a text or of a file of records. -/
def lineEnd (text : Bool) (bytes : Bytes) (index : ℕ) : Option ℕ :=
  if text then textLineEnd bytes index
  else if bytes[index]? = some 10 then some (index + 1) else none

section Readers

variable {ε : Type} (directory : Directory ε)

def tailBytes (filename : String) (text : Bool) : Except EvidenceProblem TailBytes :=
  match directory.openRead filename with
  | none => .error .io
  | some before =>
      let start := before.length - MAX_TAIL_BYTES
      -- A whole separator in front of the place is read too.
      let window := start - if text then 3 else 1
      let bytes := (before.content.drop window).take (before.length - window)
      if bytes.length ≠ before.length - window then .error .io
      else
        let drop := if start > 0 then
          Cutting.firstEnd (lineEnd text bytes) bytes.length (start - window) else 0
        .ok
          { bytes := bytes.drop drop
            offset := window + drop
            sampled := (bytes.drop drop).length
            truncated := start > 0
            modified := before.modified }

def missingLog (notLoaded : Bool) : LogTail :=
  { source := none
    lines := []
    availableLines := 0
    truncated := false
    offsetBytes := 0
    sampledBytes := 0
    modifiedAtUnix := .null
    diagnostics := if notLoaded then [diagnostic "attempt" .notLoaded 1] else [] }

def log (stream directoryPath : String) : Except ε LogTail := do
  let filename := stream ++ ".log"
  if ¬(← directory.entryExists filename) then return missingLog false
  let source := directoryPath ++ "/" ++ filename
  match tailBytes directory filename true with
  | .error code =>
      .ok { missingLog false with source := some source, diagnostics := [diagnostic source code 1] }
  | .ok tail =>
      let lines := textLines (fromUtf8Lossy tail.bytes)
      let lineTruncated := decide (lines.length > MAX_TAIL_LINES)
      .ok
        { source := some source
          lines := if lineTruncated then lines.drop (lines.length - MAX_TAIL_LINES) else lines
          availableLines := lines.length
          truncated := tail.truncated || lineTruncated
          offsetBytes := tail.offset
          sampledBytes := tail.sampled
          modifiedAtUnix := tail.modified
          diagnostics :=
            (if tail.truncated then [diagnostic source .truncated 1] else []) ++
              if fromUtf8 tail.bytes = none then [diagnostic source .invalidUtf8 1] else [] }

/-! ## Files of records -/

structure MetricTail where
  source : Option String
  records : List Json
  sourceAttemptId : Option String
  truncated : Bool
  diagnostics : List Diagnostic
  deriving DecidableEq, Repr

def identityConflict (map : Fields) (project run : String) (attempt : Option String) : Bool :=
  [("project", some project), ("run_id", some run), ("attempt_id", attempt)].any
    fun (key, expected) => expected.any fun expected =>
      (map.get key).any fun value => value ≠ .null ∧ value.asStr ≠ some expected

def isAsciiWhitespace (b : UInt8) : Bool := b ∈ ([0x20, 0x09, 0x0a, 0x0c, 0x0d] : List UInt8)

/-- The lines of a tail. What is behind the last newline is not one. -/
def recordLines (bytes : Bytes) : List Bytes :=
  if bytes = [] then bytes.splitOn 10 else (bytes.splitOn 10).dropLast

/-- The lines that are decoded: of the last ones, those that are not blank. -/
def decodedLines (bytes : Bytes) : List Bytes :=
  let lines := recordLines bytes
  (if lines.length > MAX_TAIL_LINES then lines.drop (lines.length - MAX_TAIL_LINES) else lines).filter
    fun line => ¬line.all isAsciiWhitespace

variable (finite : String → Bool)

def decodeLine (project run attempt : String) (line : Bytes) : Except EvidenceProblem Json :=
  match Reader.mapping finite line with
  | .error _ => .error .malformedRecord
  | .ok map =>
      if identityConflict map project run (some attempt) then .error .foreignRecord
      else .ok (.object map)

/-- The problem of a line that is not a record. -/
def lineProblem (project run attempt : String) (line : Bytes) : Option EvidenceProblem :=
  match decodeLine finite project run attempt line with
  | .error code => some code
  | .ok _ => none

def metricsOf (project run attempt source : String) (tail : TailBytes) : MetricTail :=
  { source := some source
    records := (decodedLines tail.bytes).filterMap fun line =>
      (decodeLine finite project run attempt line).toOption
    sourceAttemptId := some attempt
    truncated := tail.truncated || decide ((recordLines tail.bytes).length > MAX_TAIL_LINES)
    diagnostics :=
      (if tail.truncated then [diagnostic source .truncated 1] else []) ++
      (if tail.bytes ≠ [] ∧ tail.bytes.getLast? ≠ some 10 then
        [diagnostic source .partialFinalLine 1] else []) ++
      ((decodedLines tail.bytes).filterMap (lineProblem finite project run attempt)).map
        fun code => diagnostic source code 1 }

/-- The first of the files that is there. -/
def metricsIn (project run attempt directoryPath : String) : List String → Except ε MetricTail
  | [] => .ok ⟨none, [], some attempt, false, []⟩
  | filename :: filenames => do
      if ¬(← directory.entryExists filename) then
        metricsIn project run attempt directoryPath filenames
      else
        let source := directoryPath ++ "/" ++ filename
        match tailBytes directory filename false with
        | .error code => .ok ⟨some source, [], some attempt, false, [diagnostic source code 1]⟩
        | .ok tail => .ok (metricsOf finite project run attempt source tail)

def metrics (project run attempt directoryPath : String) : Except ε MetricTail :=
  metricsIn directory finite project run attempt directoryPath
    ["train_metrics.jsonl", "metrics.jsonl"]

end Readers

/-! ## Characters and their bytes -/

def encode (text : Text) : Bytes := text.flatMap String.utf8EncodeChar

lemma utf8_ofList (text : Text) : utf8 (String.ofList text) = encode text := by
  rw [utf8_eq, String.toList_ofList, encode]

@[simp] lemma encode_cons (c : Char) (text : Text) :
    encode (c :: text) = String.utf8EncodeChar c ++ encode text := by
  simp [encode]

@[simp] lemma encode_append (front back : Text) :
    encode (front ++ back) = encode front ++ encode back := by
  simp [encode]

@[simp] lemma length_encode (text : Text) : (encode text).length = width text := by
  rw [← utf8_ofList, length_utf8_ofList]

lemma decodeChar_append (c : Char) (rest : Bytes) :
    decodeChar (String.utf8EncodeChar c ++ rest) = some c := by
  have hbytes : (⟨(String.utf8EncodeChar c ++ rest).toArray⟩ : ByteArray) =
      (String.utf8EncodeChar c).toByteArray ++ rest.toByteArray := by
    rw [← List.toByteArray_append]
    exact ByteArray.ext (by rw [List.data_toByteArray])
  rw [decodeChar, hbytes, ByteArray.utf8DecodeChar?_utf8EncodeChar_append]

/-- Bytes of a text are read as the text, without a replacement. -/
lemma fromUtf8Lossy_encode (text : Text) : fromUtf8Lossy (encode text) = text := by
  induction text with
  | nil => simp [encode, fromUtf8Lossy]
  | cons c rest ih =>
    have hlength := String.length_utf8EncodeChar c
    obtain ⟨b, bytes, hencode⟩ := List.exists_cons_of_length_pos (hlength ▸ c.utf8Size_pos)
    have hdrop : (bytes ++ encode rest).drop (c.utf8Size - 1) = encode rest := by
      rw [hencode, List.length_cons] at hlength
      rw [← hlength, Nat.add_sub_cancel, List.drop_left]
    have hchar : decodeChar (b :: (bytes ++ encode rest)) = some c := by
      rw [← List.cons_append, ← hencode]
      exact decodeChar_append c _
    rw [encode_cons, hencode, List.cons_append, fromUtf8Lossy, hchar]
    simp only [hdrop, ih]

/-- A character is read off the bytes of a text, whatever follows. -/
lemma encode_cons_inj {c d : Char} {front back : Bytes}
    (h : String.utf8EncodeChar c ++ front = String.utf8EncodeChar d ++ back) :
    c = d ∧ front = back := by
  have hchar : c = d := by
    have hdecode := congrArg decodeChar h
    rw [decodeChar_append, decodeChar_append] at hdecode
    exact Option.some.inj hdecode
  subst hchar
  exact ⟨rfl, List.append_cancel_left h⟩

/-- A text begins with another one when its bytes do. -/
lemma encode_prefix_iff : ∀ {front text : Text}, encode front <+: encode text ↔ front <+: text
  | [], text => by simp [encode]
  | c :: front, [] => by
      have hpos := c.utf8Size_pos
      have hne : String.utf8EncodeChar c ≠ [] := fun hnil => by
        have hlength := String.length_utf8EncodeChar c
        rw [hnil, List.length_nil] at hlength
        omega
      simp [encode, hne]
  | c :: front, d :: text => by
      constructor
      · rintro ⟨more, hmore⟩
        rw [encode_cons, encode_cons, List.append_assoc] at hmore
        obtain ⟨rfl, hrest⟩ := encode_cons_inj hmore
        exact (List.prefix_cons_inj c).mpr (encode_prefix_iff.mp ⟨more, hrest⟩)
      · intro hprefix
        obtain ⟨rfl, hrest⟩ := List.cons_prefix_cons.mp hprefix
        rw [encode_cons, encode_cons]
        exact (List.prefix_append_right_inj _).mpr (encode_prefix_iff.mpr hrest)

/-- Every place in the bytes of a text is in one of its characters. -/
lemma place_in_char : ∀ {text : Text} {place : ℕ}, place < width text →
    ∃ before c rest, text = before ++ c :: rest ∧ width before ≤ place ∧
      place < width before + c.utf8Size
  | [], _, h => absurd h (by simp)
  | c :: text, place, h => by
      rcases Nat.lt_or_ge place c.utf8Size with hlt | hge
      · exact ⟨[], c, text, rfl, by simp, by simpa using hlt⟩
      · rw [width_cons] at h
        obtain ⟨before, d, rest, rfl, hle, hlt⟩ :=
          @place_in_char text (place - c.utf8Size) (by omega)
        refine ⟨c :: before, d, rest, rfl, ?_, ?_⟩ <;> rw [width_cons] <;> omega

/-! ## Separators of texts -/

/-- The characters that end a line of a text. -/
def lineEnds : List Char :=
  ['\r', '\n', Char.ofNat 0x0b, Char.ofNat 0x0c, Char.ofNat 0x1c, Char.ofNat 0x1d,
    Char.ofNat 0x1e, Char.ofNat 0x85, Char.ofNat 0x2028, Char.ofNat 0x2029]

def charSeparators : List Text := ['\r', '\n'] :: lineEnds.map ([·])

lemma separators_eq : separators = charSeparators.map encode := by decide

def isLineEnd (c : Char) : Bool := c ∈ lineEnds

def textCutting : Cutting Char :=
  { size := Char.utf8Size
    ends := isLineEnd
    joined := fun a b => a = '\r' ∧ b = '\n'
    size_pos := Char.utf8Size_pos
    ends_of_joined := fun a b h => by
      obtain ⟨rfl, rfl⟩ := of_decide_eq_true h
      decide
    apart := fun a b c h => by
      obtain ⟨-, rfl⟩ := of_decide_eq_true h
      simp }

lemma total_eq_width (text : Text) : textCutting.total text = width text := rfl

/-- The end of a separator that a text begins with. -/
def firstSeparator : Text → Option ℕ
  | [] => none
  | [a] => if isLineEnd a then some a.utf8Size else none
  | a :: b :: _ =>
      if textCutting.joined a b then some (a.utf8Size + b.utf8Size)
      else if isLineEnd a then some a.utf8Size else none

lemma find_lineEnds (a : Char) (rest : Text) :
    ((lineEnds.map ([·])).find? (·.isPrefixOf (a :: rest))).map width =
      if isLineEnd a then some a.utf8Size else none := by
  have hsingle : ((·.isPrefixOf (a :: rest)) ∘ fun c : Char => [c]) = (· == a) := by
    funext c
    simp [List.isPrefixOf]
  rw [List.find?_map, hsingle]
  by_cases hmem : a ∈ lineEnds
  · have hfind : lineEnds.find? (· == a) = some a := by
      obtain ⟨c, hc⟩ := Option.isSome_iff_exists.mp
        ((@List.find?_isSome _ lineEnds (· == a)).mpr ⟨a, hmem, beq_self_eq_true a⟩)
      rw [hc, LawfulBEq.eq_of_beq (@List.find?_some _ (· == a) c lineEnds hc)]
    simp [hfind, isLineEnd, hmem]
  · have hfind : lineEnds.find? (· == a) = none := by
      rw [List.find?_eq_none]
      intro c hc heq
      exact hmem (LawfulBEq.eq_of_beq heq ▸ hc)
    simp [hfind, isLineEnd, hmem]

lemma firstSeparator_eq (text : Text) :
    (charSeparators.find? (·.isPrefixOf text)).map width = firstSeparator text := by
  match text with
  | [] => decide
  | [a] =>
    have hpair : ['\r', '\n'].isPrefixOf [a] = false := by simp [List.isPrefixOf]
    rw [charSeparators, List.find?_cons, hpair, find_lineEnds, firstSeparator]
  | a :: b :: rest =>
    rw [charSeparators, List.find?_cons, firstSeparator, ← find_lineEnds a (b :: rest)]
    by_cases hpair : a = '\r' ∧ b = '\n'
    · obtain ⟨rfl, rfl⟩ := hpair
      rfl
    · have hnot : ['\r', '\n'].isPrefixOf (a :: b :: rest) = false := by
        rw [← Bool.not_eq_true, List.isPrefixOf_iff_prefix, List.cons_prefix_cons,
          List.cons_prefix_cons]
        rintro ⟨rfl, rfl, -⟩
        exact hpair ⟨rfl, rfl⟩
      have hjoined : textCutting.joined a b = false := decide_eq_false hpair
      rw [hnot, hjoined, if_neg (by simp)]

/-- In front of a character, a separator is found where the text has one. -/
lemma textLineEnd_encode (before rest : Text) :
    textLineEnd (encode (before ++ rest)) (width before) =
      (firstSeparator rest).map (width before + ·) := by
  have hdrop : (encode (before ++ rest)).drop (width before) = encode rest := by
    rw [encode_append, ← length_encode before, List.drop_left]
  rw [textLineEnd, hdrop, separators_eq, List.find?_map, ← firstSeparator_eq, Option.map_map,
    Option.map_map]
  have hfront : ((fun separator => separator.isPrefixOf (encode rest)) ∘ encode) =
      fun separator : Text => separator.isPrefixOf rest := by
    funext separator
    rw [Function.comp_apply, Bool.eq_iff_iff, List.isPrefixOf_iff_prefix,
      List.isPrefixOf_iff_prefix]
    exact encode_prefix_iff
  rw [hfront]
  congr 1
  funext separator
  simp

/-- Inside a character no separator begins. -/
lemma textLineEnd_inside {before rest : Text} {c : Char} {place : ℕ} (hlt : width before < place)
    (hinside : place < width before + c.utf8Size) :
    textLineEnd (encode (before ++ c :: rest)) place = none := by
  have hdrop : (encode (before ++ c :: rest)).drop place =
      (String.utf8EncodeChar c).drop (place - width before) ++ encode rest := by
    rw [encode_append, encode_cons, ← List.append_assoc, List.drop_append_of_le_length,
      List.drop_append, length_encode, List.drop_eq_nil_of_le, List.nil_append]
    · rw [length_encode]
      exact hlt.le
    · rw [List.length_append, length_encode, String.length_utf8EncodeChar]
      omega
  have hlength := String.length_utf8EncodeChar c
  have hsize : place - width before < (String.utf8EncodeChar c).length := by omega
  have hfirst : ¬((String.utf8EncodeChar c)[place - width before]).IsUTF8FirstByte := by
    rw [UInt8.isUTF8FirstByte_getElem_utf8EncodeChar]
    omega
  rw [textLineEnd, hdrop, List.drop_eq_getElem_cons hsize, List.cons_append, Option.map_eq_none_iff,
    List.find?_eq_none]
  intro separator hmem hprefix
  have hall : separators.all (fun separator => separator.head?.all fun b => b.IsUTF8FirstByte) := by
    decide
  obtain ⟨more, hmore⟩ := List.isPrefixOf_iff_prefix.mp hprefix
  cases separator with
  | nil => exact absurd hmem (by decide)
  | cons b separator =>
    rw [List.cons_append, List.cons.injEq] at hmore
    have hstart := List.all_eq_true.mp hall _ hmem
    rw [List.head?_cons, Option.all_some, decide_eq_true_eq, hmore.1] at hstart
    exact hfirst hstart

lemma isLineEnd_size {c : Char} (h : isLineEnd c = true) : c.utf8Size ≤ 3 := by
  have hall : lineEnds.all fun c => c.utf8Size ≤ 3 := by decide
  exact of_decide_eq_true (List.all_eq_true.mp hall c (of_decide_eq_true h))

/-- A separator at the front of a text ends behind one character, or behind two joined ones, and the
text is cut there. -/
lemma firstSeparator_cut {rest : Text} {size : ℕ} (h : firstSeparator rest = some size) :
    ∃ separator back, rest = separator ++ back ∧ width separator = size ∧
      ((∃ a, separator = [a]) ∨ separator = ['\r', '\n']) ∧ textCutting.Cut separator back := by
  match rest with
  | [] => cases h
  | [a] =>
    rw [firstSeparator] at h
    split_ifs at h with hends
    obtain rfl := Option.some.inj h
    exact ⟨[a], [], rfl, by simp, Or.inl ⟨a, rfl⟩, a, rfl, hends, fun b hb => nomatch hb⟩
  | a :: b :: rest =>
    rw [firstSeparator] at h
    split_ifs at h with hjoined hends
    · obtain rfl := Option.some.inj h
      obtain ⟨rfl, rfl⟩ := of_decide_eq_true hjoined
      exact ⟨['\r', '\n'], rest, rfl, by simp, Or.inr rfl, '\n', rfl, by decide, fun c _ =>
        textCutting.apart _ _ c hjoined⟩
    · obtain rfl := Option.some.inj h
      refine ⟨[a], b :: rest, rfl, by simp, Or.inl ⟨a, rfl⟩, a, rfl, hends, fun c hc => ?_⟩
      obtain rfl : b = c := Option.some.inj hc
      simpa using hjoined

/-- Where a separator of a text is found, the text has it. -/
lemma textLineEnd_eq_some {text : Text} {index stop : ℕ}
    (h : textLineEnd (encode text) index = some stop) : ∃ before separator rest,
      text = before ++ (separator ++ rest) ∧ width before = index ∧
      ((∃ a, separator = [a]) ∨ separator = ['\r', '\n']) ∧
      index + width separator = stop ∧ textCutting.Cut separator rest := by
  have hindex : index < width text := by
    by_contra hge
    have hnil : (encode text).drop index = [] :=
      List.drop_eq_nil_of_le (by rw [length_encode]; omega)
    have hnone : separators.find? (·.isPrefixOf []) = none := by decide
    rw [textLineEnd, hnil, hnone] at h
    cases h
  obtain ⟨before, c, rest, rfl, hle, hlt⟩ := place_in_char hindex
  rcases Nat.lt_or_ge (width before) index with hinside | hge
  · rw [textLineEnd_inside hinside hlt] at h
    cases h
  · obtain rfl : width before = index := le_antisymm hle hge
    rw [textLineEnd_encode] at h
    obtain ⟨size, hsize, hstop⟩ := Option.map_eq_some_iff.mp h
    obtain ⟨separator, back, hsplit, hwidth, hshape, hcut⟩ := firstSeparator_cut hsize
    exact ⟨before, separator, back, by rw [hsplit], rfl, hshape, by rw [hwidth, hstop], hcut⟩

/-- The separators of a text are found where the text is cut, at most three bytes before. -/
lemma textFinds (text : Text) : textCutting.Finds text 3 (textLineEnd (encode text)) where
  cut := by
    intro index stop h
    obtain ⟨before, separator, rest, rfl, rfl, -, rfl, hcut⟩ := textLineEnd_eq_some h
    exact ⟨before ++ separator, rest, by simp, by rw [total_eq_width, width_append],
      hcut.append before⟩
  behind := fun _ _ h => textLineEnd_gt h
  found := by
    rintro front back rfl ⟨a, hlast, hends, hapart⟩
    obtain ⟨before, rfl⟩ := List.getLast?_eq_some_iff.mp hlast
    refine ⟨width before, ?_, ?_⟩
    · have hfirst : firstSeparator (a :: back) = some a.utf8Size := by
        have hends : isLineEnd a = true := hends
        cases back with
        | nil => simp [firstSeparator, hends]
        | cons b back => simp [firstSeparator, hends, hapart b rfl]
      rw [List.append_assoc, List.singleton_append, textLineEnd_encode, hfirst, Option.map_some,
        total_eq_width]
      simp
    · have := isLineEnd_size hends
      rw [total_eq_width]
      simp only [width_append, width_cons, width_nil]
      omega
  ordered := by
    intro index other stop stop' h h' hle
    obtain ⟨before, separator, rest, rfl, rfl, hshape, rfl, -⟩ := textLineEnd_eq_some h
    have hbehind := textLineEnd_gt h'
    rcases hle.eq_or_lt with heq | hinside
    · rw [← heq, h] at h'
      exact (Option.some.inj h').le
    · -- Nothing begins inside a character, and a pair has only one place inside.
      by_contra hlt
      rcases hshape with ⟨a, rfl⟩ | rfl
      · rw [List.singleton_append, textLineEnd_inside hinside (by simp at hlt; omega)] at h'
        cases h'
      · have hpair : width ['\r', '\n'] = 2 := by decide
        omega

/-! ## Lines of texts -/

lemma splitAt_width : ∀ front back : Text, splitAt (front ++ back) (width front) = (front, back)
  | [], back => by cases back <;> rfl
  | c :: front, back => by
      obtain ⟨n, hn⟩ := Nat.exists_eq_succ_of_ne_zero
        (show width (c :: front) ≠ 0 by have := c.utf8Size_pos; rw [width_cons]; omega)
      have hrest : n + 1 - c.utf8Size = width front := by rw [width_cons] at hn; omega
      rw [hn, List.cons_append, splitAt, hrest, splitAt_width front back]

lemma slice_width (front line back : Text) :
    slice (front ++ line ++ back) (width front) (width (front ++ line)) = line := by
  rw [slice, List.append_assoc, splitAt_width, width_append, Nat.add_sub_cancel_left,
    splitAt_width]

lemma width_pos {text : Text} (h : text ≠ []) : 0 < width text := textCutting.total_pos h

section Steps

variable {text : Text} {start offset stop : ℕ}

lemma textLinesFrom_some (hlt : offset < width text)
    (h : textLineEnd (encode text) offset = some stop) :
    textLinesFrom text start offset = slice text start offset :: textLinesFrom text stop stop := by
  rw [← utf8_ofList] at h
  rw [textLinesFrom, if_pos hlt]
  split
  · next found hfound =>
    rw [h] at hfound
    rw [Option.some.inj hfound]
  · next hnone =>
    rw [h] at hnone
    cases hnone

lemma textLinesFrom_none (hlt : offset < width text)
    (h : textLineEnd (encode text) offset = none) :
    textLinesFrom text start offset =
      textLinesFrom text start (offset + ((splitAt text offset).2.headD default).utf8Size) := by
  rw [← utf8_ofList] at h
  rw [textLinesFrom, if_pos hlt]
  split
  · next found hfound =>
    rw [h] at hfound
    cases hfound
  · rfl

end Steps

/-- At a separator a line is over. -/
lemma placed_separator {separator back line : Text} {start : ℕ}
    (hshape : (∃ a, separator = [a]) ∨ separator = ['\r', '\n'])
    (hcut : textCutting.Cut separator back) :
    textCutting.placed start line (separator ++ back) =
      (start, line) :: textCutting.placed (start + width (line ++ separator)) [] back := by
  have hone : textCutting.placed start line separator = [(start, line)] := by
    rcases hshape with ⟨a, rfl⟩ | rfl
    · obtain ⟨last, hlast, hends, -⟩ := hcut
      obtain rfl : a = last := Option.some.inj hlast
      rw [Cutting.placed, if_pos hends]
    · simp [Cutting.placed, textCutting]
  rw [Cutting.placed_append hcut, hone]
  rfl

/-- At any other character a line goes on. -/
lemma placed_plain {a : Char} {rest line : Text} {start : ℕ}
    (h : firstSeparator (a :: rest) = none) :
    textCutting.placed start line (a :: rest) = textCutting.placed start (line ++ [a]) rest := by
  cases rest with
  | nil =>
    rw [firstSeparator] at h
    split_ifs at h with hends
    have hends : ¬textCutting.ends a = true := hends
    rw [Cutting.placed, Cutting.placed, if_neg hends, if_neg (by simp)]
  | cons b rest =>
    rw [firstSeparator] at h
    split_ifs at h with hjoined hends
    have hends : ¬textCutting.ends a = true := hends
    rw [Cutting.placed, if_neg hjoined, if_neg hends]

/-- The reader of lines, with what it has read of a line, is the cut into lines. -/
lemma textLinesFrom_eq (rest front line : Text) :
    textLinesFrom (front ++ line ++ rest) (width front) (width (front ++ line)) =
      (textCutting.placed (width front) line rest).map Prod.snd := by
  match rest with
  | [] =>
    rw [textLinesFrom, List.append_nil, if_neg (lt_irrefl _), Cutting.placed]
    rcases eq_or_ne line [] with rfl | hne
    · simp
    · have := width_pos hne
      rw [if_pos (by rw [width_append]; omega), splitAt_width, if_neg hne]
      rfl
  | a :: rest =>
    have hinside : width (front ++ line) < width (front ++ line ++ a :: rest) := by
      have := a.utf8Size_pos
      rw [width_append _ (a :: rest), width_cons]
      omega
    have hfound := textLineEnd_encode (front ++ line) (a :: rest)
    cases hfirst : firstSeparator (a :: rest) with
    | some size =>
      obtain ⟨separator, back, hsplit, rfl, hshape, hcut⟩ := firstSeparator_cut hfirst
      have hshorter : back.length < rest.length + 1 := by
        have hlength := congrArg List.length hsplit
        rw [List.length_cons, List.length_append] at hlength
        rcases hshape with ⟨b, rfl⟩ | rfl <;> simp at hlength <;> omega
      have ih := textLinesFrom_eq back (front ++ line ++ separator) []
      rw [List.append_nil] at ih
      rw [hfirst, Option.map_some, ← width_append] at hfound
      rw [textLinesFrom_some hinside hfound, slice_width, hsplit, placed_separator hshape hcut,
        ← List.append_assoc, ih, List.map_cons]
      simp
    | none =>
      have ih := textLinesFrom_eq rest front (line ++ [a])
      rw [hfirst, Option.map_none] at hfound
      rw [textLinesFrom_none hinside hfound, splitAt_width, placed_plain hfirst, ← ih]
      simp [Nat.add_assoc]
termination_by rest.length

lemma textLines_eq (text : Text) :
    textLines text = (textCutting.placed 0 [] text).map Prod.snd := by
  have h := textLinesFrom_eq text [] []
  simpa [textLines] using h

/-! ## Lines of records -/

def recordCutting : Cutting UInt8 :=
  { size := fun _ => 1
    ends := fun b => b = 10
    joined := fun _ _ => false
    size_pos := fun _ => one_pos
    ends_of_joined := fun _ _ h => nomatch h
    apart := fun _ _ _ h => nomatch h }

lemma total_eq_length (bytes : Bytes) : recordCutting.total bytes = bytes.length := by
  induction bytes with
  | nil => rfl
  | cons b bytes ih =>
    rw [Cutting.total_cons, ih, List.length_cons, Nat.add_comm]
    rfl

lemma placed_record (b : UInt8) (rest line : Bytes) (start : ℕ) :
    recordCutting.placed start line (b :: rest) =
      if b = 10 then (start, line) :: recordCutting.placed (start + line.length + 1) [] rest
      else recordCutting.placed start (line ++ [b]) rest := by
  have htotal : recordCutting.total (line ++ [b]) = line.length + 1 := by
    rw [total_eq_length, List.length_append, List.length_singleton]
  cases rest with
  | nil => by_cases hb : b = 10 <;> simp [Cutting.placed, recordCutting, hb]
  | cons c rest =>
    rw [Cutting.placed, htotal, if_neg (by simp [recordCutting]), Nat.add_assoc]
    by_cases hb : b = 10 <;> simp [recordCutting, hb]

/-- A newline is found where a file of records is cut, right before. -/
lemma recordFinds (bytes : Bytes) : recordCutting.Finds bytes 1 (lineEnd false bytes) where
  cut := by
    intro index stop h
    rw [lineEnd, if_neg (by simp)] at h
    split_ifs at h with hbyte
    obtain rfl := Option.some.inj h
    obtain ⟨hindex, hvalue⟩ := List.getElem?_eq_some_iff.mp hbyte
    refine ⟨bytes.take (index + 1), bytes.drop (index + 1), by simp, ?_, 10, ?_, rfl,
      fun _ _ => rfl⟩
    · rw [total_eq_length, List.length_take]
      omega
    · rw [List.take_succ_eq_append_getElem hindex, hvalue]
      simp
  behind := by
    intro index stop h
    rw [lineEnd, if_neg (by simp)] at h
    split_ifs at h
    have := Option.some.inj h
    omega
  found := by
    rintro front back rfl ⟨a, hlast, hends, -⟩
    obtain ⟨before, rfl⟩ := List.getLast?_eq_some_iff.mp hlast
    obtain rfl : a = 10 := of_decide_eq_true hends
    refine ⟨before.length, ?_, ?_⟩
    · rw [lineEnd, if_neg (by simp), total_eq_length]
      simp
    · rw [total_eq_length]
      simp
  ordered := by
    intro index other stop stop' h h' hle
    rw [lineEnd, if_neg (by simp)] at h h'
    split_ifs at h h'
    have := Option.some.inj h
    have := Option.some.inj h'
    omega

/-- A line that its newline ends is over before the file is. -/
def terminated (length : ℕ) (lines : List (ℕ × Bytes)) : List (ℕ × Bytes) :=
  lines.filter fun line => line.1 + line.2.length < length

/-- The pieces between newlines without the last one are the lines that newlines end. -/
lemma splitOnPPrepend_dropLast : ∀ (rest line : Bytes) (start : ℕ),
    (rest.splitOnPPrepend (· == 10) line.reverse).dropLast =
      (terminated (start + line.length + rest.length)
        (recordCutting.placed start line rest)).map Prod.snd
  | [], line, start => by
      rw [terminated, Cutting.placed]
      split_ifs <;> simp
  | b :: rest, line, start => by
      rw [placed_record, List.splitOnPPrepend_cons_eq_if]
      by_cases hb : b = 10
      · have ih := splitOnPPrepend_dropLast rest [] (start + line.length + 1)
        have hlength : start + line.length + 1 + ([] : Bytes).length + rest.length =
            start + line.length + (b :: rest).length := by
          simp only [List.length_nil, List.length_cons]
          omega
        rw [hlength, List.reverse_nil, List.splitOnPPrepend_nil_right] at ih
        rw [if_pos (by simpa using hb), if_pos hb, List.reverse_reverse,
          List.dropLast_cons_of_ne_nil (by simp [← List.splitOnPPrepend_nil_right]), ih, terminated,
          terminated, List.filter_cons_of_pos (by simp), List.map_cons]
      · have ih := splitOnPPrepend_dropLast rest (line ++ [b]) start
        have hlength : start + (line ++ [b]).length + rest.length =
            start + line.length + (b :: rest).length := by
          simp only [List.length_append, List.length_cons, List.length_nil]
          omega
        rw [hlength, List.reverse_append] at ih
        rw [if_neg (by simpa using hb), if_neg hb, ← ih]
        rfl

/-- The lines of a tail of records that is not empty. -/
lemma recordLines_eq {bytes : Bytes} (hne : bytes ≠ []) (start : ℕ) : recordLines bytes =
    (terminated (start + bytes.length) (recordCutting.placed start [] bytes)).map Prod.snd := by
  have h := splitOnPPrepend_dropLast bytes [] start
  rw [List.length_nil, Nat.add_zero, List.reverse_nil, List.splitOnPPrepend_nil_right] at h
  rw [recordLines, if_neg hne, ← h]
  rfl

/-! ## The tail of a file -/

/-- A reader that begins later finds the same ends. -/
lemma lineEnd_drop (text : Bool) (content : Bytes) (window index : ℕ) :
    lineEnd text (content.drop window) index =
      (lineEnd text content (window + index)).map (· - window) := by
  cases text with
  | true =>
    rw [lineEnd, lineEnd, if_pos rfl, if_pos rfl, textLineEnd, textLineEnd, List.drop_drop,
      Option.map_map]
    congr 1
    funext separator
    simp only [Function.comp_apply]
    omega
  | false =>
    simp only [lineEnd, Bool.false_eq_true, if_false, List.getElem?_drop]
    split_ifs
    · rw [Option.map_some]
      congr 1
      omega
    · rfl

section Tail

variable {ε : Type} {directory : Directory ε} {filename : String} {file : File}

/-- What is read of a file that has grown at most: a suffix of what it was, from the first line that
starts in the last bytes on. -/
lemma tailBytes_lines {α : Type} {cutting : Cutting α} {items : List α} {text : Bool}
    (hopen : directory.openRead filename = some file) (hlength : file.length ≤ file.content.length)
    (hfinds : cutting.Finds items (if text then 3 else 1)
      (lineEnd text (file.content.take file.length)))
    (htotal : cutting.total items = file.length) :
    ∃ tail before rest, tailBytes directory filename text = .ok tail ∧ items = before ++ rest ∧
      tail.bytes = (file.content.take file.length).drop (cutting.total before) ∧
      (cutting.placed 0 [] items).filter (file.length - MAX_TAIL_BYTES ≤ ·.1) =
        cutting.placed (cutting.total before) [] rest ∧
      cutting.placed (cutting.total before) [] rest <:+ cutting.placed 0 [] items := by
  set content := file.content.take file.length with hcontent
  have hsize : content.length = file.length := by rw [hcontent, List.length_take]; omega
  set first := file.length - MAX_TAIL_BYTES with hfirst
  set window := first - (if text then 3 else 1) with hwindow
  have hread : (file.content.drop window).take (file.length - window) = content.drop window := by
    rw [hcontent, List.drop_take]
  have hbytes : (content.drop window).length = file.length - window := by
    rw [List.length_drop, hsize]
  have hends : lineEnd text (content.drop window) =
      fun index => (lineEnd text content (window + index)).map (· - window) :=
    funext (lineEnd_drop text content window)
  have hok : ∀ drop, (if first > 0 then Cutting.firstEnd
        (fun index => (lineEnd text content (window + index)).map (· - window))
        (file.length - window) (first - window) else 0) = drop →
      tailBytes directory filename text = .ok
        { bytes := content.drop (window + drop)
          offset := window + drop
          sampled := (content.drop (window + drop)).length
          truncated := first > 0
          modified := file.modified } := by
    rintro drop rfl
    rw [tailBytes, hopen]
    simp only [← hfirst, ← hwindow, hread, hbytes, hends, ne_eq, not_true_eq_false, if_false,
      List.drop_drop]
  rcases Nat.eq_zero_or_pos first with hzero | hpos
  · refine ⟨_, [], items, hok 0 (by rw [if_neg (by omega)]), rfl, ?_, ?_, ?_⟩
    · rw [hwindow, hzero]
      simp
    · rw [hzero, List.filter_eq_self.mpr (by simp)]
      rfl
    · exact List.suffix_refl _
  · obtain ⟨before, rest, hsplit, hplace, hfilter, hsuffix⟩ :=
      hfinds.filter_placed hpos hwindow (by rw [htotal]; omega)
    rw [htotal] at hplace
    refine ⟨_, before, rest, hok _ (if_pos hpos), hsplit, ?_, hfilter, hsuffix⟩
    rw [hplace]

/-- The last lines of those that start in the last bytes of a file. -/
def tailOf {α : Type} (length : ℕ) (lines : List (ℕ × List α)) : List (List α) :=
  lastLines MAX_TAIL_LINES
    ((lines.filter (length - MAX_TAIL_BYTES ≤ ·.1)).map Prod.snd)

lemma drop_eq_lastLines {α : Type} (lines : List α) : (if lines.length > MAX_TAIL_LINES then
    lines.drop (lines.length - MAX_TAIL_LINES) else lines) = lastLines MAX_TAIL_LINES lines := by
  rw [lastLines, List.take_reverse, List.reverse_reverse]
  split_ifs with h
  · rfl
  · rw [Nat.sub_eq_zero_of_le (by omega), List.drop_zero]

lemma lastLines_suffix {α : Type} (lines : ℕ) (items : List α) :
    lastLines lines items <:+ items := by
  rw [lastLines, List.take_reverse, List.reverse_reverse]
  exact List.drop_suffix _ _

/-- The log of a text shows the last lines of those that start in its last bytes. -/
lemma log_tail {stream path : String} {text : Text}
    (hexists : directory.entryExists (stream ++ ".log") = .ok true)
    (hopen : directory.openRead (stream ++ ".log") = some file)
    (hlength : file.length ≤ file.content.length)
    (htext : file.content.take file.length = utf8 (String.ofList text)) :
    ∃ tail, log directory stream path = .ok tail ∧
      tail.source = some (path ++ "/" ++ (stream ++ ".log")) ∧
      tail.lines = tailOf file.length (textCutting.placed 0 [] text) ∧
      tail.lines <:+ textLines text := by
  rw [utf8_ofList] at htext
  have htotal : textCutting.total text = file.length := by
    rw [total_eq_width, ← length_encode, ← htext, List.length_take]
    omega
  have hfinds : textCutting.Finds text (if true then 3 else 1)
      (lineEnd true (file.content.take file.length)) := by
    rw [htext]
    exact textFinds text
  obtain ⟨tail, before, rest, htail, rfl, hbytes, hfilter, hsuffix⟩ :=
    tailBytes_lines hopen hlength hfinds htotal
  have hdecoded : fromUtf8Lossy tail.bytes = rest := by
    rw [hbytes, htext, encode_append, total_eq_width, ← length_encode before, List.drop_left,
      fromUtf8Lossy_encode]
  -- The lines of what was read, with the places that they have in the file.
  have hlines : textLines rest =
      (textCutting.placed (textCutting.total before) [] rest).map Prod.snd :=
    (textLines_eq rest).trans (Cutting.map_snd_placed _ _ _ _)
  refine ⟨_, by rw [log, hexists]; simp only [ok_bind, not_true_eq_false, if_false, htail]; rfl, rfl,
    ?_, ?_⟩
  · rw [hdecoded]
    simp only [decide_eq_true_eq, drop_eq_lastLines, hlines, tailOf, hfilter]
  · rw [hdecoded]
    simp only [decide_eq_true_eq, drop_eq_lastLines, hlines, textLines_eq]
    exact (lastLines_suffix _ _).trans (hsuffix.map Prod.snd)

/-- The file of records that a directory has: the first of the two that is there. -/
def Chosen (directory : Directory ε) (filename : String) : Prop :=
  (filename = "train_metrics.jsonl" ∨
    directory.entryExists "train_metrics.jsonl" = .ok false ∧ filename = "metrics.jsonl") ∧
  directory.entryExists filename = .ok true

/-- A file of records is decoded from the last lines of those that a newline ends and that start in
its last bytes. -/
lemma metrics_tail {finite : String → Bool} {project run attempt path : String}
    (hchosen : Chosen directory filename) (hopen : directory.openRead filename = some file)
    (hlength : file.length ≤ file.content.length) :
    ∃ tail, metrics directory finite project run attempt path = .ok tail ∧
      tail.source = some (path ++ "/" ++ filename) ∧
      tail.records = ((tailOf file.length (terminated file.length (recordCutting.placed 0 []
        (file.content.take file.length)))).filter fun line => ¬line.all isAsciiWhitespace).filterMap
          (fun line => (decodeLine finite project run attempt line).toOption) ∧
      tailOf file.length (terminated file.length (recordCutting.placed 0 []
        (file.content.take file.length))) <:+
        (terminated file.length (recordCutting.placed 0 [] (file.content.take file.length))).map
          Prod.snd := by
  set content := file.content.take file.length with hcontent
  have htotal : recordCutting.total content = file.length := by
    rw [total_eq_length, hcontent, List.length_take]
    omega
  have hfinds : recordCutting.Finds content (if false then 3 else 1) (lineEnd false content) :=
    recordFinds content
  obtain ⟨tail, before, rest, htail, hsplit, hbytes, hfilter, hsuffix⟩ :=
    tailBytes_lines hopen hlength hfinds htotal
  have hrest : tail.bytes = rest := by
    rw [hbytes, ← hcontent, hsplit, total_eq_length, List.drop_left]
  have hend : recordCutting.total before + rest.length = file.length := by
    rw [← htotal, hsplit, Cutting.total_append, total_eq_length rest]
  have hlines : decodedLines tail.bytes =
      (tailOf file.length (terminated file.length (recordCutting.placed 0 [] content))).filter
        fun line => ¬line.all isAsciiWhitespace := by
    rw [decodedLines, drop_eq_lastLines, tailOf, terminated, List.filter_comm, hfilter, hrest]
    rcases eq_or_ne rest [] with rfl | hne
    · simp [recordLines, Cutting.placed, lastLines, MAX_TAIL_LINES]
    · rw [recordLines_eq hne (recordCutting.total before), hend]
      rfl
  refine ⟨metricsOf finite project run attempt (path ++ "/" ++ filename) tail, ?_, rfl, ?_, ?_⟩
  · obtain ⟨rfl | ⟨hmissing, rfl⟩, hexists⟩ := hchosen
    · simp only [metrics, metricsIn, hexists, ok_bind, htail]
      rfl
    · simp only [metrics, metricsIn, hmissing, hexists, ok_bind, htail]
      rfl
  · rw [← hlines]
    rfl
  · rw [tailOf, terminated, List.filter_comm, hfilter]
    exact (lastLines_suffix _ _).trans ((hsuffix.filter _).map Prod.snd)

/-- **The lines of a tail are the last lines of the file.** For a log of text, those of its lines
that start in its last bytes, and of these the last ones; for a file of records the same, of the
lines that a newline ends. -/
theorem tails_exact (directory : Directory ε) (finite : String → Bool)
    (project run attempt path : String) :
    (∀ stream file text, directory.entryExists (stream ++ ".log") = .ok true →
      directory.openRead (stream ++ ".log") = some file → file.length ≤ file.content.length →
      file.content.take file.length = utf8 (String.ofList text) →
      ∃ tail, log directory stream path = .ok tail ∧
        tail.lines = tailOf file.length (textCutting.placed 0 [] text) ∧
        tail.lines <:+ textLines text ∧
        textLines text = (textCutting.placed 0 [] text).map Prod.snd) ∧
    (∀ filename file, Chosen directory filename → directory.openRead filename = some file →
      file.length ≤ file.content.length →
      let lines := terminated file.length
        (recordCutting.placed 0 [] (file.content.take file.length))
      ∃ tail, metrics directory finite project run attempt path = .ok tail ∧
        tail.records =
          ((tailOf file.length lines).filter fun line => ¬line.all isAsciiWhitespace).filterMap
            (fun line => (decodeLine finite project run attempt line).toOption) ∧
        tailOf file.length lines <:+ lines.map Prod.snd) := by
  refine ⟨fun stream file text hexists hopen hlength htext => ?_,
    fun filename file hchosen hopen hlength => ?_⟩
  · obtain ⟨tail, htail, -, hlines, hsuffix⟩ := @log_tail _ _ _ _ path _ hexists hopen hlength htext
    exact ⟨tail, htail, hlines, hsuffix, textLines_eq text⟩
  · obtain ⟨tail, htail, -, hrecords, hsuffix⟩ := metrics_tail hchosen hopen hlength
    exact ⟨tail, htail, hrecords, hsuffix⟩

/-- A directory with one file of records, which no newline ends. -/
def sampleDirectory : Directory Empty where
  entryExists filename := .ok (filename = "train_metrics.jsonl")
  openRead filename :=
    if filename = "train_metrics.jsonl" then some ⟨[0x7b, 0x7d], 2, .null⟩ else none

/-- The only line of a file of records, an empty object, is not read as long as no newline ends
it. -/
theorem metrics_unterminated :
    (recordCutting.placed 0 [] [0x7b, 0x7d]).map Prod.snd = [[0x7b, 0x7d]] ∧
      decodeLine (fun _ => true) "demo" "run-1" "attempt-1" [0x7b, 0x7d] = .ok (.object []) ∧
      ∃ tail, metrics sampleDirectory (fun _ => true) "demo" "run-1" "attempt-1"
        "attempts/attempt-1" = .ok tail ∧ tail.records = [] := by
  have hmapping : Reader.mapping (fun _ => true) [0x7b, 0x7d] = .ok [] :=
    @Reader.parse_write (fun _ => true) [] _ rfl (by decide) (by decide)
  have htail : tailBytes sampleDirectory "train_metrics.jsonl" false =
      .ok ⟨[0x7b, 0x7d], 0, 2, false, .null⟩ := by
    simp [tailBytes, sampleDirectory, MAX_TAIL_BYTES]
  refine ⟨by decide, ?_, ?_⟩
  · rw [decodeLine, hmapping]
    simp [identityConflict, Fields.get]
  · refine ⟨metricsOf (fun _ => true) "demo" "run-1" "attempt-1"
      "attempts/attempt-1/train_metrics.jsonl" ⟨[0x7b, 0x7d], 0, 2, false, .null⟩, ?_, ?_⟩
    · simp only [metrics, metricsIn, htail]
      rfl
    · have hlines : decodedLines [0x7b, 0x7d] = [] := by decide
      simp only [metricsOf, hlines, List.filterMap_nil]

end Tail

end ReadModel

end ExperimentControl
