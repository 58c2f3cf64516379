import ExperimentControl.Json.Records
import ExperimentControl.Library.Fallible
import ExperimentControl.Metrics.Tolerance

/-!
# Displayed series

The series of a chart as metric items are added to it, of `core/src/tracking/display.rs`. A series
keeps its latest point and its latest summary. A point that meets another one at the same step, and
does not agree with it, is shown as a conflict.

* `identity`, `number`, `axis`, `validCurve` — what an item says of its series and its place there.
* `Series.add`, `Projection.add` — one more item.
* `against_step` — how an item at a step meets a point at a step.
* `Placed`, with `placed_against`, `exists_against` — a point that is kept can be compared with any
  item.
-/

namespace ExperimentControl

namespace Tracking

open Metrics (asF64 numericCompare numericTolerantEqual exactValue FiniteNumber)

inductive DisplayError where
  | display (what : String)
  | canonical (error : CanonicalError)
  deriving DecidableEq, Repr

def FIELDS : List String := ["name", "unit", "protocol_id", "dataset_id", "variant_id"]

/-! ## Items -/

def object (item : Json) : Except DisplayError Unit :=
  reject (item.isObject = false) (.display "object required")

def truth : Json → Bool
  | .null => false
  | .bool value => value
  | .number text => (asF64 text).all fun value => value.scaled ≠ 0
  | .string text => text ≠ ""
  | .array items => items ≠ []
  | .object fields => fields ≠ []

def number : Json → Except DisplayError Bool
  | .number text =>
      if (asF64 text).isSome then .ok true
      -- An integer too large for a float.
      else if Reader.isFloat text then .ok false
      else .error (.display "integer exceeds finite float range")
  | _ => .ok false

def axis (item : Json) : Except DisplayError (Option String) := do
  if ← number (item.index "step") then return some "step"
  if ← number (item.index "epoch") then return some "epoch"
  return none

def validCurve (item : Json) : Except DisplayError Bool :=
  match item.index "status" with
  | .array _ => .error (.display "unhashable metric status")
  | .object _ => .error (.display "unhashable metric status")
  | status => .ok (status = .string "VALID" ∨ status = .string "PARTIAL")

def isSummary (item : Json) : Bool := item.index "summary" = .bool true

/-- The item takes a position on its axis. -/
def onCurve (item : Json) (axis : Option String) : Except DisplayError Bool := do
  if isSummary item ∨ axis.isNone then return false
  unless ← number (item.index "value") do return false
  reject (item.get "status" = none) (.display "missing metric status")
  validCurve item

/-- The item with its axis and its place in the journal. -/
def stamp (item : Json) (axis : Option String) (sequence : ℤ) : Json :=
  (item.set "axis" (Json.ofOption Json.string axis)).set "sequence" (Json.ofInt sequence)

/-- A point that is shown as a conflict. -/
def conflicting (error : String) (point : Json) : Json :=
  ((point.set "status" (.string "CONFLICTING")).set "value" .null).set "error" (.string error)

/-- The fields in which points at one step have to agree. -/
def COMPARED : List String := ["value", "status", "checkpoint_id", "numerator", "denominator"]

def agrees (old item : Json) : Bool :=
  COMPARED.all fun key => numericTolerantEqual (old.index key) (item.index key)

/-- A new point behind, beside or ahead of the one before, or nothing when it is behind. -/
def onAxis (old item point : Json) (axis : String) : Except DisplayError (Option Json) :=
  match numericCompare (item.index axis) (old.index axis) with
  | .error _ => .error (.display "numeric axis")
  | .ok .lt => .ok none
  | .ok .eq =>
      .ok (some (if agrees old item then point
        else conflicting "CONFLICTING_LATEST_OBSERVATIONS" point))
  | .ok .gt => .ok (some point)

/-- A new point next to the one before, neither with an axis. -/
def unordered (old item point : Json) : Json :=
  if ¬numericTolerantEqual (old.index "checkpoint_id") (item.index "checkpoint_id") then
    conflicting "UNORDERED_CHECKPOINTS" point
  else if ["value", "status", "numerator", "denominator"].any fun key =>
      !numericTolerantEqual (old.index key) (item.index key) then
    conflicting "CONFLICTING_LATEST_OBSERVATIONS" point
  else point

/-- What is kept of a new point next to the one before. -/
def against (previous : Option Json) (item point : Json) (axis : Option String) :
    Except DisplayError (Option Json) :=
  match previous with
  | none => .ok (some point)
  | some old =>
      match axis, (old.index "axis").asStr with
      | some axis, some oldAxis =>
          if axis = oldAxis then onAxis old item point axis else .ok (some point)
      | none, none => .ok (some (unordered old item point))
      | _, _ => .ok (some point)

/-! ## Series -/

structure Series where
  key : Bytes
  context : Json
  latest : Option Json
  summary : Option Json
  positions : Fields
  deriving DecidableEq

namespace Series

/-- A series without points. -/
def fresh (key : Bytes) (item : Json) : Series where
  key := key
  context := .object (FIELDS.map fun field => (field, item.index field))
  latest := none
  summary := none
  positions := []

/-- The positions of an axis: two that differ, at most. -/
def follow (positions : Fields) (axis : String) (value : Json) : Fields :=
  let seen := ((positions.get axis).bind Json.asArray).getD []
  if seen.length < 2 ∧ ¬seen.any fun position => numericTolerantEqual position value then
    positions.insert axis (.array (seen ++ [value]))
  else positions.insert axis (.array seen)

def add (series : Series) (item : Json) (sequence : ℤ) : Except DisplayError Series := do
  let axis ← axis item
  let curve ← onCurve item axis
  let previous := if isSummary item then series.summary else series.latest
  let point ← against previous item (stamp item axis sequence) axis
  return { series with
    positions := if curve then axis.elim series.positions fun axis =>
      follow series.positions axis (item.index axis) else series.positions
    summary := if isSummary item then point.or series.summary else series.summary
    latest := if isSummary item then series.latest else point.or series.latest }

end Series

/-! ## Projections -/

structure Projection where
  cursor : ℤ := 0
  series : List Series := []
  deriving DecidableEq

/-- An item of the journal and its sequence number. -/
abbrev Addition := Json × ℤ

section Encoding

variable (enc : Encoding)

def identity (item : Json) : Except DisplayError Bytes := do
  object item
  (enc.bytes (.object (FIELDS.map fun field => (field, item.index field)))).mapError .canonical

/-- The item goes to the series of its key, or to a new one at the end. -/
def addTo (key : Bytes) (item : Json) (sequence : ℤ) :
    List Series → Except DisplayError (List Series)
  | [] => do return [← (Series.fresh key item).add item sequence]
  | series :: rest =>
      if series.key = key then do return (← series.add item sequence) :: rest
      else do return series :: (← addTo key item sequence rest)

namespace Projection

def add (projection : Projection) (item : Json) (sequence : ℤ) :
    Except DisplayError Projection := do
  object item
  if ¬truth (item.index "name") ∨ ¬truth (item.index "unit") then return projection
  let key ← identity enc item
  let series ← addTo key item sequence projection.series
  return { projection with series }

/-- A sequence of items, added to a new projection. -/
def run (additions : List Addition) : Except DisplayError Projection :=
  additions.foldlM (fun projection addition => projection.add enc addition.1 addition.2) {}

end Projection

/-- The item is one of the series of a key. -/
def Displayed (key : Bytes) (item : Json) : Prop :=
  truth (item.index "name") = true ∧ truth (item.index "unit") = true ∧
    identity enc item = .ok key

instance (key : Bytes) (item : Json) : Decidable (Displayed enc key item) :=
  inferInstanceAs (Decidable (_ ∧ _))

/-- The items of a series that are no summaries. -/
def shown (key : Bytes) (additions : List Addition) : List Addition :=
  additions.filter fun addition => Displayed enc key addition.1 ∧ isSummary addition.1 = false

end Encoding

/-! ## The step of an item -/

/-- The item carries a step. -/
def stepped (item : Json) : Prop := number (item.index "step") = .ok true

/-- The number the step of an item stands for. -/
def stepOf (item : Json) : ℚ :=
  match item.index "step" with
  | .number text => exactValue text
  | _ => 0

/-- The item is a conflict. -/
def Conflicting (item : Json) : Prop := item.index "status" = .string "CONFLICTING"

variable {item point old : Json} {sequence : ℤ}

lemma number_eq_true {value : Json} (hvalid : value.valid = true) (h : number value = .ok true) :
    ∃ text, value = .number text ∧ FiniteNumber text := by
  cases value with
  | number text =>
    refine ⟨text, rfl, by simpa [Json.valid, Json.readable] using hvalid, fun hfloat => ?_⟩
    rw [number] at h
    split_ifs at h with hsome
    · rw [asF64] at hsome
      split_ifs at hsome with hfinite
      · exact hfinite
      · cases hsome
    · cases h
  | _ => cases h

lemma valid_index (hvalid : item.valid = true) (key : String) : (item.index key).valid = true := by
  cases item with
  | object fields =>
    rw [Json.index_object]
    cases hget : Fields.get fields key with
    | none => rfl
    | some value =>
      obtain ⟨hkeys, hfields⟩ := Json.readable_object.mp hvalid
      have hmem : (key, value) ∈ fields := (lookup_eq_some_iff hkeys).mp hget
      exact (Json.readableFields_iff fields).mp hfields _ hmem
  | _ => rfl

lemma axis_of_stepped (h : stepped item) : axis item = .ok (some "step") := by
  unfold stepped at h
  unfold axis
  rw [h]
  rfl

/-- An axis is one of two, and the item has a number there. -/
lemma axis_eq_some {name : String} (h : axis item = .ok (some name)) :
    name ∈ ["step", "epoch"] ∧ number (item.index name) = .ok true := by
  unfold axis at h
  obtain ⟨step, hstep, h⟩ := bind_eq_ok.mp h
  cases step with
  | true =>
    cases h
    exact ⟨by simp, hstep⟩
  | false =>
    obtain ⟨epoch, hepoch, h⟩ := bind_eq_ok.mp h
    cases epoch with
    | true =>
      cases h
      exact ⟨by simp, hepoch⟩
    | false => cases h

/-! ## Edited points -/

lemma isObject_stamp (hobject : item.isObject = true) (name : Option String) :
    (stamp item name sequence).isObject = true :=
  Json.isObject_set (Json.isObject_set hobject _ _) _ _

lemma index_stamp (hobject : item.isObject = true) (name : Option String) {key : String}
    (hkey : key ∉ ["axis", "sequence"]) : (stamp item name sequence).index key = item.index key := by
  simp only [List.mem_cons, List.not_mem_nil, or_false, not_or] at hkey
  rw [stamp, Json.index_set (Json.isObject_set hobject _ _), if_neg hkey.2, Json.index_set hobject, if_neg hkey.1]

lemma axis_stamp (hobject : item.isObject = true) (name : Option String) :
    (stamp item name sequence).index "axis" = Json.ofOption Json.string name := by
  rw [stamp, Json.index_set (Json.isObject_set hobject _ _), if_neg (by decide), Json.index_set hobject,
    if_pos rfl]

lemma index_conflicting (hobject : point.isObject = true) (error : String) {key : String}
    (hkey : key ∉ ["status", "value", "error"]) :
    (conflicting error point).index key = point.index key := by
  simp only [List.mem_cons, List.not_mem_nil, or_false, not_or] at hkey
  rw [conflicting, Json.index_set (Json.isObject_set (Json.isObject_set hobject _ _) _ _), if_neg hkey.2.2,
    Json.index_set (Json.isObject_set hobject _ _), if_neg hkey.2.1, Json.index_set hobject, if_neg hkey.1]

lemma conflicting_conflicting (hobject : point.isObject = true) (error : String) :
    Conflicting (conflicting error point) := by
  rw [Conflicting, conflicting, Json.index_set (Json.isObject_set (Json.isObject_set hobject _ _) _ _),
    if_neg (by decide), Json.index_set (Json.isObject_set hobject _ _), if_neg (by decide),
    Json.index_set hobject, if_pos rfl]

/-! ## Agreement -/

lemma agrees_iff : agrees old item = true ↔
    ∀ key ∈ COMPARED, numericTolerantEqual (old.index key) (item.index key) = true := by
  rw [agrees, List.all_eq_true]

lemma agrees_trans {first second third : Json} (h : agrees first second = true)
    (h' : agrees second third = true) : agrees first third = true :=
  agrees_iff.mpr fun key hkey => Metrics.tolerantEqual_trans _ _ _ (agrees_iff.mp h key hkey)
    (agrees_iff.mp h' key hkey)

lemma agrees_symm {first second : Json} (hvalid : first.valid = true)
    (hvalid' : second.valid = true) (h : agrees first second = true) :
    agrees second first = true :=
  agrees_iff.mpr fun key hkey => Metrics.tolerantEqual_symm _ _ (valid_index hvalid key)
    (valid_index hvalid' key) (agrees_iff.mp h key hkey)

/-- What agrees with a conflict is one. -/
lemma Conflicting.of_agrees (hold : Conflicting old) (h : agrees old item = true) :
    Conflicting item := by
  have hstatus := agrees_iff.mp h "status" (by decide)
  rw [hold] at hstatus
  rcases (Metrics.tolerantEqual_leaf rfl).mp hstatus with hequal | ⟨-, -, hequal⟩
  · cases (Metrics.numericEqual_iff.mp hequal).1
  · exact hequal.symm

/-! ## Points that are kept -/

/-- The axis of a point is one it has a finite number on. -/
structure Placed (point : Json) : Prop where
  isObject : point.isObject = true
  axis : ∀ name, (point.index "axis").asStr = some name →
    ∃ text, point.index name = .number text ∧ FiniteNumber text

lemma finite_of_axis {name : String} (hvalid : item.valid = true)
    (h : axis item = .ok (some name)) : ∃ text, item.index name = .number text ∧
      FiniteNumber text :=
  number_eq_true (valid_index hvalid name) (axis_eq_some h).2

lemma placed_stamp (hobject : item.isObject = true) (hvalid : item.valid = true)
    {name : Option String} (haxis : axis item = .ok name) :
    Placed (stamp item name sequence) := by
  refine ⟨isObject_stamp hobject name, fun found hfound => ?_⟩
  rw [axis_stamp hobject] at hfound
  cases name with
  | none => cases hfound
  | some name =>
    obtain rfl : name = found := Option.some.inj hfound
    have hname := (axis_eq_some haxis).1
    rw [index_stamp hobject]
    · exact finite_of_axis hvalid haxis
    · rintro hmem
      simp only [List.mem_cons, List.not_mem_nil, or_false] at hname hmem
      rcases hname with rfl | rfl <;> simp at hmem

lemma placed_conflicting (hplaced : Placed point) (hnames : ∀ name,
    (point.index "axis").asStr = some name → name ∈ ["step", "epoch"]) (error : String) :
    Placed (conflicting error point) := by
  refine ⟨Json.isObject_set (Json.isObject_set (Json.isObject_set hplaced.isObject _ _) _ _) _ _,
    fun name hname => ?_⟩
  rw [index_conflicting hplaced.isObject error (by decide)] at hname
  rw [index_conflicting hplaced.isObject]
  · exact hplaced.axis name hname
  · rintro hmem
    have hone := hnames name hname
    simp only [List.mem_cons, List.not_mem_nil, or_false] at hone hmem
    rcases hone with rfl | rfl <;> simp at hmem

/-- What is kept is the point, or a conflict in its place. -/
def KeptAs (point kept : Json) : Prop := kept = point ∨ ∃ error, kept = conflicting error point

lemma keptAs_unordered (old item point : Json) : KeptAs point (unordered old item point) := by
  unfold unordered
  split_ifs
  · exact Or.inr ⟨_, rfl⟩
  · exact Or.inl rfl
  · exact Or.inr ⟨_, rfl⟩

lemma keptAs_onAxis {name : String} {kept : Json} (h : onAxis old item point name = .ok (some kept)) :
    KeptAs point kept := by
  unfold onAxis at h
  split at h
  · cases h
  · cases h
  · rw [← Option.some.inj (Except.ok.inj h)]
    split_ifs
    · exact Or.inl rfl
    · exact Or.inr ⟨_, rfl⟩
  · exact Or.inl (Option.some.inj (Except.ok.inj h)).symm

lemma keptAs_against {previous : Option Json} {name : Option String} {kept : Json}
    (h : against previous item point name = .ok (some kept)) : KeptAs point kept := by
  have hself (h : Except.ok (ε := DisplayError) (some point) = .ok (some kept)) :
      KeptAs point kept := Or.inl (Option.some.inj (Except.ok.inj h)).symm
  cases previous with
  | none => exact hself h
  | some old =>
    dsimp only [against] at h
    split at h
    · split_ifs at h
      · exact keptAs_onAxis h
      · exact hself h
    · rw [← Option.some.inj (Except.ok.inj h)]
      exact keptAs_unordered _ _ _
    · exact hself h

lemma placed_against {previous kept : Option Json} {name : Option String}
    (hobject : item.isObject = true) (hvalid : item.valid = true) (haxis : axis item = .ok name)
    (h : against previous item (stamp item name sequence) name = .ok kept) :
    ∀ point, kept = some point → Placed point := by
  rintro point rfl
  have hplaced := @placed_stamp item sequence hobject hvalid name haxis
  rcases keptAs_against h with rfl | ⟨error, rfl⟩
  · exact hplaced
  · refine placed_conflicting hplaced (fun found hfound => ?_) error
    rw [axis_stamp hobject] at hfound
    cases name with
    | none => cases hfound
    | some name =>
      obtain rfl : name = found := Option.some.inj hfound
      exact (axis_eq_some haxis).1

lemma exists_onAxis {text text' : String} {name : String} (hitem : item.index name = .number text)
    (hfinite : FiniteNumber text) (hold : old.index name = .number text')
    (hfinite' : FiniteNumber text') (point : Json) :
    ∃ kept, onAxis old item point name = .ok kept := by
  unfold onAxis
  rw [hitem, hold, Metrics.numericCompare_eq hfinite hfinite']
  cases compare (exactValue text) (exactValue text') with
  | lt => exact ⟨_, rfl⟩
  | eq => exact ⟨_, rfl⟩
  | gt => exact ⟨_, rfl⟩

/-- A placed point can be compared with any item. -/
lemma exists_against {previous : Option Json} (hprevious : ∀ old, previous = some old → Placed old)
    (hvalid : item.valid = true) {name : Option String} (haxis : axis item = .ok name)
    (point : Json) : ∃ kept, against previous item point name = .ok kept := by
  cases previous with
  | none => exact ⟨_, rfl⟩
  | some old =>
    have hplaced := hprevious old rfl
    dsimp only [against]
    cases name with
    | none =>
      cases (old.index "axis").asStr with
      | none => exact ⟨_, rfl⟩
      | some other => exact ⟨_, rfl⟩
    | some name =>
      cases hother : (old.index "axis").asStr with
      | none => exact ⟨_, rfl⟩
      | some other =>
        by_cases hsame : name = other
        · subst hsame
          obtain ⟨text, htext, hfinite⟩ := finite_of_axis hvalid haxis
          obtain ⟨text', htext', hfinite'⟩ := hplaced.axis _ hother
          obtain ⟨kept, hkept⟩ := exists_onAxis htext hfinite htext' hfinite' point
          exact ⟨kept, by simp only [if_true, hkept]⟩
        · exact ⟨some point, by simp only [if_neg hsame]⟩

/-! ## Points at a step -/

/-- A point shows the last of some items at its step. -/
structure Shows (last : Json) (mark : Prop) (point : Json) : Prop where
  axis : (point.index "axis").asStr = some "step"
  place : point.index "step" = last.index "step"
  marked : Conflicting point ↔ mark
  fields : ¬mark → ∀ key ∈ COMPARED, point.index key = last.index key

lemma Shows.stepOf_eq {last : Json} {mark : Prop} (h : Shows last mark point) :
    stepOf point = stepOf last := by
  rw [stepOf, stepOf, h.place]

/-- An unmarked point agrees with an item as the one it shows does. -/
lemma Shows.agrees_eq {last : Json} {mark : Prop} (h : Shows last mark point) (hmark : ¬mark) :
    agrees point item = agrees last item := by
  rw [Bool.eq_iff_iff, agrees_iff, agrees_iff]
  refine forall₂_congr fun key hkey => ?_
  rw [h.fields hmark key hkey]

lemma shows_stamp (hobject : item.isObject = true) :
    Shows item (Conflicting item) (stamp item (some "step") sequence) where
  axis := by rw [axis_stamp hobject]; rfl
  place := index_stamp hobject _ (by decide)
  marked := by rw [Conflicting, index_stamp hobject _ (by decide), Conflicting]
  fields _ key hkey := by
    refine index_stamp hobject _ fun hmem => ?_
    simp only [COMPARED, List.mem_cons, List.not_mem_nil, or_false] at hkey hmem
    rcases hmem with rfl | rfl <;> simp at hkey

lemma shows_conflicting (hobject : item.isObject = true) (error : String) :
    Shows item True (conflicting error (stamp item (some "step") sequence)) where
  axis := by
    rw [index_conflicting (isObject_stamp hobject _) _ (by decide), axis_stamp hobject]
    rfl
  place := by
    rw [index_conflicting (isObject_stamp hobject _) _ (by decide),
      index_stamp hobject _ (by decide)]
  marked := iff_of_true (conflicting_conflicting (isObject_stamp hobject _) error) trivial
  fields h := absurd trivial h

/-- How an item at a step meets a point at a step. -/
lemma against_step {last : Json} {mark : Prop} {text text' : String} (hshows : Shows last mark old)
    (hitem : item.index "step" = .number text) (hfinite : FiniteNumber text)
    (hlast : last.index "step" = .number text') (hfinite' : FiniteNumber text') :
    against (some old) item point (some "step") = .ok (
      if stepOf item < stepOf last then none
      else if stepOf item = stepOf last ∧ agrees old item = false then
        some (conflicting "CONFLICTING_LATEST_OBSERVATIONS" point)
      else some point) := by
  have hplace : stepOf item = exactValue text := by rw [stepOf, hitem]
  have hplace' : stepOf last = exactValue text' := by rw [stepOf, hlast]
  simp only [against, hshows.axis, if_true, onAxis]
  rw [hshows.place, hitem, hlast, Metrics.numericCompare_eq hfinite hfinite', hplace, hplace']
  rcases lt_trichotomy (exactValue text) (exactValue text') with hlt | heq | hgt
  · rw [compare_lt_iff_lt.mpr hlt, if_pos hlt]
  · rw [compare_eq_iff_eq.mpr heq, heq, if_neg (lt_irrefl _)]
    cases agrees old item with
    | true => simp
    | false => simp
  · simp [compare_gt_iff_gt.mpr hgt, hgt.not_gt, hgt.ne']

end Tracking

end ExperimentControl
