import ExperimentControl.Records.Importer

/-!
# Importing does not depend on chunking

A caller feeds the stream in pieces and may put the importer away between two of them. What comes
out after the end is what the reference gives, which cuts the whole stream at its newlines and
converts every line on its own.

* `Move`, `imported` — the moves of a caller, and the import they make.
* `convert`, `reference` — the reference: one event a line, a diagnostic where it is too long.
* `feedByte_other`, `feedByte_newline`, `finish_holding` — what one byte, and the end, do to an
  importer that holds an unfinished line.
* **`imported_eq_reference`** — every way of cutting and resuming gives the reference.
-/

namespace ExperimentControl.Records

open JsonlImporter

variable {Line Observation : Type} (enc : Encoding) (conv : Conversion Line Observation)

/-! ## Runs of the importer -/

/-- A move of the caller: feed a piece of the stream, or put the importer away and resume it. -/
inductive Move where
  | feed (bytes : Bytes)
  | resume
  deriving DecidableEq, Repr

/-- The stream the moves feed. -/
def streamOf : List Move → Bytes
  | [] => []
  | .feed bytes :: moves => bytes ++ streamOf moves
  | .resume :: moves => streamOf moves

/-- No piece is over the input bound. -/
def Bounded (moves : List Move) : Prop :=
  ∀ bytes, Move.feed bytes ∈ moves → bytes.length ≤ inputBound

/-- The importer after some moves and the events of all feeds, in order. -/
def drive : JsonlImporter → List Move → Except Error (JsonlImporter × List Event)
  | importer, [] => .ok (importer, [])
  | importer, .feed bytes :: moves => do
      let (next, emission) ← feed enc conv importer bytes
      let (last, events) ← drive next moves
      return (last, emission.events ++ events)
  | importer, .resume :: moves =>
      match ofDocument importer.document with
      | some next => drive next moves
      | none => .error (.invalid "import continuation")

/-- The whole import: the moves, then the end of the stream. -/
def imported (importer : JsonlImporter) (moves : List Move) : Except Error ImportEmission := do
  let (last, events) ← drive enc conv importer moves
  let emission ← finish enc conv last
  return ⟨events ++ emission.events, emission.counts⟩

/-! ## The reference -/

/-- What a diagnostic keeps of a line: all of it within the limit; of a longer line the last
block that its newline ends, and nothing when the stream ends first. -/
def keptOf (line : Bytes) : Bytes :=
  if line.length ≤ lineLimit then line
  else if newline ∈ line then line.drop ((line.length - 1) / readlineBound * readlineBound)
  else []

/-- The conversion of one line by its number: its event, and whether it is a record. -/
def convert (name : String) (config : Json) (canonicalOnly : Bool) (number : UInt64)
    (line : Bytes) : Except Error (Event × Bool) := do
  if lineLimit < line.length then
    return (← diagnosticEvent enc name number (keptOf line), false)
  requireExplicit conv canonicalOnly line
  match (conv.parse line).bind conv.observation with
  | some record => return (← recordEvent enc conv config canonicalOnly record, true)
  | none => return (← diagnosticEvent enc name number line, false)

/-- The reference: cut the stream at its newlines and convert the lines one by one. -/
def reference (name : String) (config : Json) (canonicalOnly : Bool) (stream : Bytes) :
    Except Error ImportEmission := do
  let converted ← ((linesOf newline stream).zipIdx 1).mapM fun numbered =>
    convert enc conv name config canonicalOnly (UInt64.ofNat numbered.2) numbered.1
  return ⟨converted.map (·.1),
    ⟨UInt64.ofNat (converted.countP (·.2)), UInt64.ofNat (converted.countP (!·.2))⟩⟩

/-! ## One line -/

/-- The importer after a line that was a record or was not. -/
def counted (importer : JsonlImporter) (record : Bool) : JsonlImporter :=
  { importer with
    number := importer.number + 1
    counts :=
      if record then { importer.counts with records := importer.counts.records + 1 }
      else { importer.counts with invalidLines := importer.counts.invalidLines + 1 } }

/-- The importer converts a line as the reference does, under its next number. -/
lemma line_eq_convert (importer : JsonlImporter) (text : Bytes) :
    line enc conv importer (keptOf text) (decide (lineLimit < text.length)) = do
      let (event, record) ← convert enc conv importer.name importer.config importer.canonicalOnly
        (importer.number + 1) text
      return (counted importer record, event) := by
  unfold line convert
  by_cases hlimit : lineLimit < text.length
  · rcases h : diagnosticEvent enc importer.name (importer.number + 1) (keptOf text) with e | event
    · simp [hlimit, h]
    · simp [hlimit, h, pure, Except.pure, counted]
  · have hkept : keptOf text = text := by simp [keptOf, Nat.le_of_not_lt hlimit]
    rw [hkept]
    rcases hreq : requireExplicit conv importer.canonicalOnly text with e | u
    · simp [hlimit, hreq]
    rcases hrecord : (conv.parse text).bind conv.observation with _ | record
    · rcases h : diagnosticEvent enc importer.name (importer.number + 1) text with e | event
      · simp [hlimit, hreq, h]
      · simp [hlimit, hreq, h, pure, Except.pure, counted]
    · rcases h : recordEvent enc conv importer.config importer.canonicalOnly record with e | event
      · simp [hlimit, hreq, h]
      · simp [hlimit, hreq, h, pure, Except.pure, counted]

/-! ## An importer that holds an unfinished line -/

/-- The bytes of an unfinished line after its last full block. -/
def heldOf (p : Bytes) : Bytes :=
  p.drop (p.length / readlineBound * readlineBound)

lemma length_heldOf (p : Bytes) : (heldOf p).length = p.length % readlineBound := by
  rw [heldOf, List.length_drop, Nat.mul_comm, Nat.mod_eq_sub]

lemma length_heldOf_lt (p : Bytes) : (heldOf p).length < readlineBound := by
  rw [length_heldOf]
  exact Nat.mod_lt _ (by decide)

lemma heldOf_append (p : Bytes) (byte : UInt8) :
    (p ++ [byte]).drop (p.length / readlineBound * readlineBound) = heldOf p ++ [byte] :=
  List.drop_append_of_le_length (Nat.div_mul_le_self _ _)

/-- A byte that does not complete a block is held. -/
lemma heldOf_append_partial {p : Bytes} {byte : UInt8}
    (h : (heldOf p ++ [byte]).length ≠ readlineBound) :
    heldOf (p ++ [byte]) = heldOf p ++ [byte] ∧
      (readlineBound ≤ (p ++ [byte]).length ↔ readlineBound ≤ p.length) := by
  have hlt := length_heldOf_lt p
  simp only [List.length_append, List.length_singleton] at h ⊢
  rw [length_heldOf] at h hlt
  have hdiv := Nat.div_add_mod p.length readlineBound
  have hsame : (p.length + 1) / readlineBound = p.length / readlineBound := by
    apply Nat.div_eq_of_lt_le
    · rw [Nat.mul_comm]
      omega
    · rw [Nat.add_mul, Nat.mul_comm, Nat.one_mul]
      omega
  refine ⟨?_, fun hle => ?_, fun hle => by omega⟩
  · rw [heldOf, List.length_append, List.length_singleton, hsame, heldOf_append]
  · by_contra hshort
    have : p.length % readlineBound = p.length := Nat.mod_eq_of_lt (by omega)
    omega

/-- A byte that completes a block empties what is held. -/
lemma heldOf_append_full {p : Bytes} {byte : UInt8}
    (h : (heldOf p ++ [byte]).length = readlineBound) :
    heldOf (p ++ [byte]) = [] ∧ readlineBound ≤ (p ++ [byte]).length := by
  simp only [List.length_append, List.length_singleton] at h ⊢
  rw [length_heldOf] at h
  have hdiv := Nat.div_add_mod p.length readlineBound
  have hle := Nat.mod_le p.length readlineBound
  have hdvd : readlineBound ∣ p.length + 1 :=
    ⟨p.length / readlineBound + 1, by rw [Nat.mul_add, Nat.mul_one]; omega⟩
  refine ⟨?_, by omega⟩
  rw [heldOf, List.length_append, List.length_singleton, Nat.div_mul_cancel hdvd]
  exact List.drop_eq_nil_of_le (by simp)

/-- The importer in the middle of a line: it holds the bytes after the last full block, and has
noted whether there was one. -/
def holding (importer : JsonlImporter) (p : Bytes) : JsonlImporter :=
  { importer with chunk := heldOf p, oversized := decide (readlineBound ≤ p.length) }

/-- Between two lines: nothing is held. -/
def Idle (importer : JsonlImporter) : Prop :=
  importer.chunk = [] ∧ importer.oversized = false

lemma holding_nil {importer : JsonlImporter} (h : Idle importer) :
    holding importer [] = importer := by
  obtain ⟨hchunk, hoversized⟩ := h
  cases importer
  simp_all [holding, heldOf, readlineBound]

lemma idle_counted {importer : JsonlImporter} (h : Idle importer) (record : Bool) :
    Idle (counted importer record) := h

/-- A byte inside a line that does not complete a block. -/
lemma feedByte_partial (importer : JsonlImporter) (held : Bytes) (oversized : Bool)
    (events : List Event) {byte : UInt8} (hbyte : byte ≠ newline)
    (hunended : (held ++ [byte]).length ≠ readlineBound) :
    feedByte enc conv ({ importer with chunk := held, oversized }, events) byte =
      .ok ({ importer with chunk := held ++ [byte], oversized }, events) := by
  unfold feedByte
  rw [if_neg (not_or.mpr ⟨hbyte, hunended⟩)]

/-- A byte inside a line that completes a block. -/
lemma feedByte_full (importer : JsonlImporter) (held : Bytes) (oversized : Bool)
    (events : List Event) {byte : UInt8} (hbyte : byte ≠ newline)
    (hfull : (held ++ [byte]).length = readlineBound) :
    feedByte enc conv ({ importer with chunk := held, oversized }, events) byte =
      .ok ({ importer with chunk := [], oversized := true }, events) := by
  have hlimit : lineLimit < readlineBound := by decide
  have hnow : decide (lineLimit < (held ++ [byte]).length) = true := decide_eq_true (by omega)
  unfold feedByte
  dsimp only
  rw [if_pos (.inr hfull), if_pos ⟨by rw [hnow, Bool.or_true], hbyte⟩]

/-- **A byte inside a line** is held, or completes a block that is dropped. -/
theorem feedByte_other (importer : JsonlImporter) (p : Bytes) (events : List Event) {byte : UInt8}
    (hbyte : byte ≠ newline) :
    feedByte enc conv (holding importer p, events) byte =
      .ok (holding importer (p ++ [byte]), events) := by
  by_cases hfull : (heldOf p ++ [byte]).length = readlineBound
  · obtain ⟨hheld, hover⟩ := heldOf_append_full hfull
    rw [holding, holding, hheld, decide_eq_true hover]
    exact feedByte_full enc conv importer _ _ events hbyte hfull
  · obtain ⟨hheld, hover⟩ := heldOf_append_partial hfull
    rw [holding, holding, hheld, decide_eq_decide.mpr hover]
    exact feedByte_partial enc conv importer _ _ events hbyte hfull

/-- What a newline makes of the held bytes is what a diagnostic or a record keeps of the line. -/
lemma keptOf_terminated (p : Bytes) :
    keptOf (p ++ [newline]) = heldOf p ++ [newline] := by
  unfold keptOf
  split_ifs with hshort hmem
  · have hlt : p.length < readlineBound := by
      have : lineLimit < readlineBound := by decide
      simp only [List.length_append, List.length_singleton] at hshort
      omega
    rw [heldOf, Nat.div_eq_of_lt hlt, Nat.zero_mul, List.drop_zero]
  · simpa using heldOf_append p newline
  · exact absurd (by simp) hmem

/-- A newline behind held bytes converts the text they are kept of. -/
lemma feedByte_ends {importer : JsonlImporter} (hidle : Idle importer) {held text : Bytes}
    {oversized : Bool} (events : List Event) (hkept : keptOf text = held ++ [newline])
    (hover : (oversized || decide (lineLimit < (held ++ [newline]).length)) =
      decide (lineLimit < text.length)) :
    feedByte enc conv ({ importer with chunk := held, oversized }, events) newline = do
      let (event, record) ← convert enc conv importer.name importer.config importer.canonicalOnly
        (importer.number + 1) text
      return (counted importer record, events ++ [event]) := by
  unfold feedByte
  dsimp only
  rw [if_pos (.inl rfl), if_neg fun h => h.2 rfl, hover, ← hkept, line_eq_convert]
  rcases convert enc conv importer.name importer.config importer.canonicalOnly
    (importer.number + 1) text with e | ⟨event, record⟩
  · rfl
  · have hnext : { counted { importer with chunk := [] } record with oversized := false } =
        counted importer record := by
      rw [← hidle.1, ← hidle.2]
      rfl
    exact congrArg (fun next => Except.ok (next, events ++ [event])) hnext

/-- **A newline** converts the line it ends and leaves nothing held. -/
theorem feedByte_newline {importer : JsonlImporter} (hidle : Idle importer) (p : Bytes)
    (events : List Event) :
    feedByte enc conv (holding importer p, events) newline = do
      let (event, record) ← convert enc conv importer.name importer.config importer.canonicalOnly
        (importer.number + 1) (p ++ [newline])
      return (counted importer record, events ++ [event]) := by
  have hover : (decide (readlineBound ≤ p.length) || decide (lineLimit < (heldOf p ++ [newline]).length)) =
      decide (lineLimit < (p ++ [newline]).length) := by
    have hbound : readlineBound = lineLimit + 1 := rfl
    by_cases hp : readlineBound ≤ p.length
    · simp [hp]
      omega
    · rw [heldOf, Nat.div_eq_of_lt (by omega)]
      simp [hp]
  rw [holding]
  exact feedByte_ends enc conv hidle events (keptOf_terminated p) hover

/-- What the end makes of the held bytes is what a diagnostic or a record keeps of the line. -/
lemma keptOf_unterminated {p : Bytes} (hp : newline ∉ p) :
    keptOf p = if readlineBound ≤ p.length then [] else heldOf p := by
  have hbound : readlineBound = lineLimit + 1 := rfl
  unfold keptOf
  split_ifs with hshort hlong hlong
  · omega
  · rw [heldOf, Nat.div_eq_of_lt (by omega), Nat.zero_mul, List.drop_zero]
  · rfl
  · omega

/-- The end behind held bytes converts the text they are kept of. -/
lemma finish_held (importer : JsonlImporter) {held p : Bytes}
    (hkept : keptOf p = if readlineBound ≤ p.length then [] else held)
    (hwhole : p.length < readlineBound → held = p) :
    finish enc conv
        { importer with chunk := held, oversized := decide (readlineBound ≤ p.length) } =
      if p = [] then .ok ⟨[], importer.counts⟩
      else do
        let (event, record) ← convert enc conv importer.name importer.config importer.canonicalOnly
          (importer.number + 1) p
        return ⟨[event], (counted importer record).counts⟩ := by
  have hbound : readlineBound = lineLimit + 1 := rfl
  unfold finish
  dsimp only
  by_cases hlong : readlineBound ≤ p.length
  · have hne : p ≠ [] := by
      rintro rfl
      simp [hbound] at hlong
    have hover : decide (lineLimit < p.length) = true := decide_eq_true (by omega)
    rw [if_pos hlong] at hkept
    rw [if_pos (decide_eq_true hlong), if_neg hne, ← hkept, ← hover, line_eq_convert]
    rcases convert enc conv importer.name importer.config importer.canonicalOnly
      (importer.number + 1) p with e | ⟨event, record⟩
    · rfl
    · rfl
  · have hheld : held = p := hwhole (by omega)
    have hover : decide (lineLimit < p.length) = false := decide_eq_false (by omega)
    rw [if_neg hlong, hheld] at hkept
    rw [if_neg (by simpa using hlong), hheld]
    by_cases hne : p = []
    · rw [if_neg (not_not.mpr hne), if_pos hne]
      rfl
    · rw [if_pos hne, if_neg hne]
      have hline := line_eq_convert enc conv
        { importer with chunk := [], oversized := decide (readlineBound ≤ p.length) } p
      rw [hkept, hover] at hline
      rw [hline]
      rcases convert enc conv importer.name importer.config importer.canonicalOnly
        (importer.number + 1) p with e | ⟨event, record⟩
      · rfl
      · rfl

/-- **The end** converts what is held, if anything is. -/
theorem finish_holding (importer : JsonlImporter) {p : Bytes} (hp : newline ∉ p) :
    finish enc conv (holding importer p) =
      if p = [] then .ok ⟨[], importer.counts⟩
      else do
        let (event, record) ← convert enc conv importer.name importer.config importer.canonicalOnly
          (importer.number + 1) p
        return ⟨[event], (counted importer record).counts⟩ := by
  have hwhole : p.length < readlineBound → heldOf p = p := by
    intro hlong
    rw [heldOf, Nat.div_eq_of_lt hlong, Nat.zero_mul, List.drop_zero]
  rw [holding]
  exact finish_held enc conv importer (keptOf_unterminated hp) hwhole

/-! ## The whole stream -/

/-- The lines converted one by one, from an importer between two lines. -/
def convertLines (importer : JsonlImporter) (events : List Event) :
    List Bytes → Except Error ImportEmission
  | [] => .ok ⟨events, importer.counts⟩
  | text :: rest => do
      let (event, record) ← convert enc conv importer.name importer.config importer.canonicalOnly
        (importer.number + 1) text
      convertLines (counted importer record) (events ++ [event]) rest

/-- What the caller makes of the state after the last byte. -/
def ended (state : JsonlImporter × List Event) : Except Error ImportEmission := do
  let emission ← finish enc conv state.1
  return ⟨state.2 ++ emission.events, emission.counts⟩

/-- **Byte by byte is line by line**, from an importer that holds an unfinished line. -/
theorem foldlM_feedByte : ∀ (stream : Bytes) {importer : JsonlImporter} {p : Bytes}
    (events : List Event), Idle importer → newline ∉ p →
    (stream.foldlM (feedByte enc conv) (holding importer p, events) >>= ended enc conv) =
      convertLines enc conv importer events (linesOf newline (p ++ stream))
  | [], importer, p, events, _, hp => by
      change ended enc conv (holding importer p, events) = _
      rw [List.append_nil, linesOf_unterminated hp, ended, finish_holding enc conv importer hp]
      by_cases hne : p = []
      · rw [if_pos hne, if_pos hne]
        change Except.ok _ = _
        rw [List.append_nil]
        rfl
      · rw [if_neg hne, if_neg hne]
        simp only [convertLines, bind_assoc]
        rcases convert enc conv importer.name importer.config importer.canonicalOnly
          (importer.number + 1) p with e | ⟨event, record⟩
        · rfl
        · rfl
  | byte :: stream, importer, p, events, hidle, hp => by
      rw [List.foldlM_cons, bind_assoc]
      by_cases hbyte : byte = newline
      · rw [hbyte, feedByte_newline enc conv hidle, linesOf_append_terminated hp]
        simp only [convertLines]
        rcases convert enc conv importer.name importer.config importer.canonicalOnly
          (importer.number + 1) (p ++ [newline]) with e | ⟨event, record⟩
        · rfl
        · have ih := foldlM_feedByte stream (events ++ [event]) (idle_counted hidle record)
            (List.not_mem_nil (a := newline))
          rw [holding_nil (idle_counted hidle record)] at ih
          exact ih
      · have hp' : newline ∉ p ++ [byte] := by
          simp [hp, Ne.symm hbyte]
        have ih := foldlM_feedByte stream events hidle hp'
        rw [List.append_assoc, List.singleton_append] at ih
        rw [feedByte_other enc conv importer p events hbyte, ← ih]
        rfl

/-- Counts with those of some converted lines added. -/
def tally (counts : ImportCounts) (converted : List (Event × Bool)) : ImportCounts :=
  ⟨counts.records + UInt64.ofNat (converted.countP (·.2)),
    counts.invalidLines + UInt64.ofNat (converted.countP (!·.2))⟩

@[simp] lemma tally_nil (counts : ImportCounts) : tally counts [] = counts := by
  simp [tally]

lemma tally_counted (importer : JsonlImporter) (event : Event) (record : Bool)
    (converted : List (Event × Bool)) :
    tally (counted importer record).counts converted =
      tally importer.counts ((event, record) :: converted) := by
  cases record with
  | false =>
    simp only [tally, counted, List.countP_cons, Bool.not_false, UInt64.ofNat_add]
    simp [UInt64.add_assoc, UInt64.add_comm]
  | true =>
    simp only [tally, counted, List.countP_cons, Bool.not_true, UInt64.ofNat_add]
    simp [UInt64.add_assoc, UInt64.add_comm]

/-- The lines converted one by one are the lines converted all together. -/
lemma convertLines_eq (name : String) (config : Json) (canonicalOnly : Bool) :
    ∀ (texts : List Bytes) (n : ℕ) (importer : JsonlImporter) (events : List Event),
      importer.name = name → importer.config = config → importer.canonicalOnly = canonicalOnly →
      importer.number = UInt64.ofNat n →
    convertLines enc conv importer events texts = do
      let converted ← (texts.zipIdx (n + 1)).mapM fun numbered =>
        convert enc conv name config canonicalOnly (UInt64.ofNat numbered.2) numbered.1
      return ⟨events ++ converted.map (·.1), tally importer.counts converted⟩
  | [], n, importer, events, _, _, _, _ => by
      change Except.ok _ = Except.ok _
      simp
  | text :: texts, n, importer, events, hname, hconfig, hcanonical, hnumber => by
      have hnext : importer.number + 1 = UInt64.ofNat (n + 1) := by
        rw [hnumber, UInt64.ofNat_add]
        rfl
      rw [List.zipIdx_cons, List.mapM_cons, convertLines, hname, hconfig, hcanonical, hnext]
      rcases convert enc conv name config canonicalOnly (UInt64.ofNat (n + 1)) text with
        e | ⟨event, record⟩
      · rfl
      · have ih := convertLines_eq name config canonicalOnly texts (n + 1) (counted importer record)
          (events ++ [event]) hname hconfig hcanonical hnext
        change convertLines enc conv (counted importer record) (events ++ [event]) texts = _
        rw [ih]
        simp only [ok_bind, bind_assoc, pure_bind, List.map_cons, List.append_assoc,
          List.singleton_append, ← tally_counted importer event]

/-- The reference is the lines converted one by one, from a new importer. -/
lemma reference_eq_convertLines {importer : JsonlImporter} (hnumber : importer.number = 0)
    (hcounts : importer.counts = ⟨0, 0⟩) (stream : Bytes) :
    reference enc conv importer.name importer.config importer.canonicalOnly stream =
      convertLines enc conv importer [] (linesOf newline stream) := by
  rw [convertLines_eq enc conv importer.name importer.config importer.canonicalOnly
    (linesOf newline stream) 0 importer [] rfl rfl rfl hnumber, hcounts]
  simp only [reference, tally, List.nil_append, Nat.zero_add, UInt64.zero_add]

/-! ## Feeds and resumptions -/

/-- Events that were there before a byte stay in front of those it adds. -/
lemma feedByte_events (importer : JsonlImporter) (events : List Event) (byte : UInt8) :
    feedByte enc conv (importer, events) byte = do
      let (next, more) ← feedByte enc conv (importer, []) byte
      return (next, events ++ more) := by
  dsimp only [feedByte]
  split_ifs
  · simp [pure, Except.pure]
  · simp only [bind_assoc, pure_bind, List.nil_append]
  · simp [pure, Except.pure]

/-- Events that were there before some bytes stay in front of those they add. -/
lemma foldlM_feedByte_events : ∀ (bytes : Bytes) (importer : JsonlImporter) (events : List Event),
    bytes.foldlM (feedByte enc conv) (importer, events) = do
      let (next, more) ← bytes.foldlM (feedByte enc conv) (importer, [])
      return (next, events ++ more)
  | [], importer, events => by
      change Except.ok _ = Except.ok _
      simp
  | byte :: bytes, importer, events => by
      rw [List.foldlM_cons, List.foldlM_cons, feedByte_events]
      simp only [bind_assoc, pure_bind]
      refine bind_congr fun ⟨next, more⟩ => ?_
      rw [foldlM_feedByte_events bytes next (events ++ more), foldlM_feedByte_events bytes next more]
      simp only [bind_assoc, pure_bind, List.append_assoc]

/-- **The moves are the bytes they feed**: cutting the stream and resuming change nothing. -/
theorem drive_eq : ∀ (moves : List Move) (importer : JsonlImporter), Bounded moves →
    drive enc conv importer moves = (streamOf moves).foldlM (feedByte enc conv) (importer, [])
  | [], importer, _ => rfl
  | .feed bytes :: moves, importer, hbounded => by
      have hbytes : reject (inputBound < bytes.length)
          (Error.invalid "import input chunk bound") = .ok () :=
        reject_eq_ok.mpr (Nat.not_lt.mpr (hbounded bytes (by simp)))
      have hrest : Bounded moves := fun bytes h => hbounded bytes (by simp [h])
      rw [drive, streamOf, List.foldlM_append, feed, hbytes]
      simp only [ok_bind, bind_assoc, pure_bind]
      refine bind_congr fun ⟨next, events⟩ => ?_
      rw [foldlM_feedByte_events, drive_eq moves next hrest]
  | .resume :: moves, importer, hbounded => by
      rw [drive, ofDocument_document]
      exact drive_eq moves importer fun bytes h => hbounded bytes (by simp [h])

/-! ## The main result -/

/-- An importer a caller starts from. -/
def Fresh (importer : JsonlImporter) : Prop :=
  (∃ name config, JsonlImporter.new name config = .ok importer) ∨
    ∃ config, JsonlImporter.canonicalMetrics config = .ok importer

/-- A new importer is between two lines and has counted none. -/
lemma Fresh.start {importer : JsonlImporter} (h : Fresh importer) :
    Idle importer ∧ importer.number = 0 ∧ importer.counts = ⟨0, 0⟩ := by
  have hnew : ∀ {name config} {fresh : JsonlImporter}, JsonlImporter.new name config = .ok fresh →
      Idle fresh ∧ fresh.number = 0 ∧ fresh.counts = ⟨0, 0⟩ := by
    intro name config fresh h
    unfold JsonlImporter.new at h
    split_ifs at h
    cases h
    exact ⟨⟨rfl, rfl⟩, rfl, rfl⟩
  rcases h with ⟨name, config, h⟩ | ⟨config, h⟩
  · exact hnew h
  · obtain ⟨base, hbase, h⟩ := bind_eq_ok.mp h
    cases h
    obtain ⟨hidle, hnumber, hcounts⟩ := hnew hbase
    exact ⟨hidle, hnumber, hcounts⟩

/-- The import of bounded feeds is the reference. -/
lemma imported_eq {importer : JsonlImporter} (hfresh : Fresh importer) {moves : List Move}
    (hbounded : Bounded moves) :
    imported enc conv importer moves =
      reference enc conv importer.name importer.config importer.canonicalOnly (streamOf moves) := by
  obtain ⟨hidle, hnumber, hcounts⟩ := hfresh.start
  calc imported enc conv importer moves
      = (streamOf moves).foldlM (feedByte enc conv) (importer, []) >>= ended enc conv := by
        rw [imported, drive_eq enc conv moves importer hbounded]
        rfl
    _ = (streamOf moves).foldlM (feedByte enc conv) (holding importer [], []) >>= ended enc conv := by
        rw [holding_nil hidle]
    _ = convertLines enc conv importer [] (linesOf newline (streamOf moves)) :=
        foldlM_feedByte enc conv (streamOf moves) [] hidle List.not_mem_nil
    _ = _ := (reference_eq_convertLines enc conv hnumber hcounts (streamOf moves)).symm

/-- **One event a line**, and a diagnostic for a line over the limit. -/
theorem reference_events {name : String} {config : Json} {canonicalOnly : Bool} {stream : Bytes}
    {emission : ImportEmission}
    (h : reference enc conv name config canonicalOnly stream = .ok emission) :
    emission.events.length = (linesOf newline stream).length ∧
      ∀ (i : ℕ) (text : Bytes), (linesOf newline stream)[i]? = some text → lineLimit < text.length →
        (emission.events[i]?).map Event.payload = some diagnostic := by
  obtain ⟨converted, hconverted, h⟩ := bind_eq_ok.mp h
  cases h
  have hall := mapM_eq_ok.mp hconverted
  have hlen := hall.length_eq
  rw [List.length_zipIdx] at hlen
  refine ⟨by simp [hlen], fun i text htext hlong => ?_⟩
  obtain ⟨hi, htext⟩ := List.getElem?_eq_some_iff.mp htext
  have hget := hall.get (i := i) (by simpa using hi) (by omega)
  simp only [List.get_eq_getElem, List.getElem_zipIdx, htext, convert, if_pos hlong] at hget
  obtain ⟨event, hevent, hget⟩ := bind_eq_ok.mp hget
  obtain ⟨digest, -, hevent⟩ := bind_eq_ok.mp hevent
  have hpayload : event.payload = diagnostic := by
    cases hevent
    rfl
  have hget : converted[i]? = some (event, false) := by
    rw [List.getElem?_eq_getElem (by omega)]
    exact congrArg some (Except.ok.inj hget).symm
  simp [hget, hpayload]

/-- **Importing does not depend on chunking.** However the stream is cut into bounded feeds and
wherever the importer is serialized and resumed between them, the events and the counts after the
end are the same: those of the reference, which converts each line of the stream on its own and
makes one diagnostic of each line over the limit. -/
theorem imported_eq_reference {importer : JsonlImporter} (hfresh : Fresh importer)
    {moves : List Move} (hbounded : Bounded moves) :
    imported enc conv importer moves =
        reference enc conv importer.name importer.config importer.canonicalOnly (streamOf moves) ∧
      (∀ others, Bounded others → streamOf others = streamOf moves →
        imported enc conv importer others = imported enc conv importer moves) ∧
      ∀ emission, imported enc conv importer moves = .ok emission →
        emission.events.length = (linesOf newline (streamOf moves)).length ∧
        ∀ (i : ℕ) (text : Bytes), (linesOf newline (streamOf moves))[i]? = some text → lineLimit < text.length →
          (emission.events[i]?).map Event.payload = some diagnostic := by
  have hmoves := imported_eq enc conv hfresh hbounded
  refine ⟨hmoves, fun others hothers hstream => ?_, fun emission h => ?_⟩
  · rw [hmoves, imported_eq enc conv hfresh hothers, hstream]
  · exact reference_events enc conv (hmoves.symm.trans h)

/-- A stream of two lines that are not JSON, cut inside the first and resumed there. -/
def sampleMoves : List Move :=
  [.feed [120], .resume, .feed [10, 121]]

/-- The hash of what the two diagnostics of the sample are named after. -/
def sampleEncoding : Encoding where
  floatText := fun _ => none
  sha256 := fun bytes =>
    if bytes = utf8 "[\"metrics.jsonl\",1,\"780a\"]" then
      "11b86a614e96fdaf34abc1c704f3d282d4148b36a96101cd43d14bf3c6b520b6"
    else "80732d87012da7a341ca96c1bfa8ea47f3522474a42a8e9e64f1725c92157b44"

/-- Neither line of the sample parses. -/
def sampleConversion : Conversion Unit Unit where
  parse := fun _ => none
  hasField := fun _ _ => false
  observation := fun _ => none
  normalizedMetricSource := fun _ _ _ => .error (.invalid "bound config object")

/-- The importer of the sample. -/
def sampleImporter : JsonlImporter :=
  ⟨"metrics.jsonl", .object [], 0, [], false, ⟨0, 0⟩, false⟩

theorem imported_eq_reference_sampled :
    JsonlImporter.new "metrics.jsonl" (.object []) = .ok sampleImporter ∧
      imported sampleEncoding sampleConversion sampleImporter sampleMoves =
        reference sampleEncoding sampleConversion "metrics.jsonl" (.object []) false
          [120, 10, 121] :=
  have hnew : JsonlImporter.new "metrics.jsonl" (.object []) = .ok sampleImporter := rfl
  have hbounded : Bounded sampleMoves := by simp [Bounded, sampleMoves, inputBound]
  ⟨hnew, (imported_eq_reference sampleEncoding sampleConversion (.inl ⟨_, _, hnew⟩) hbounded).1⟩

end ExperimentControl.Records
