import ExperimentControl.Library.Latest
import ExperimentControl.Tracking.Display

/-!
# Runs of displayed series

What a sequence of items makes of the series of a projection, one item after another.

* `Latest`, with `Latest.step` — a point is the latest of some items with steps.
* `Series.Holds`, `Projection.Holds` — the invariant of a series and of all of them, with a step
  lemma each and **`holds_run`**.
* `Accepts`, with `run_eq_ok` — whether an item is refused does not depend on the items before it.
* **`latest_right`** — the latest point of every series with steps, in any order of the items.
-/

namespace ExperimentControl

namespace Tracking

open Metrics (numericTolerantEqual)

variable {enc : Encoding} {additions : List Addition} {item : Json} {sequence : ℤ}

/-! ## Latest points -/

/-- A point is the latest of some items: the step of the last one of the greatest step, with a mark
where two of them there disagree. -/
def Latest (latest : Option Json) (additions : List Addition) : Prop :=
  match latest with
  | none => additions = []
  | some point => ∃ best last mark,
      Keeps (fun addition => stepOf addition.1) (fun old new => agrees old.1 new.1 = true)
        (fun addition => Conflicting addition.1) additions best last mark ∧ Shows last.1 mark point

/-- **One more item at a step.** -/
lemma Latest.step {latest kept : Option Json} (h : Latest latest additions)
    (hall : ∀ addition ∈ additions, addition.1.valid = true ∧ stepped addition.1)
    (hobject : item.isObject = true) (hvalid : item.valid = true) (hstepped : stepped item)
    (hagainst : against latest item (stamp item (some "step") sequence) (some "step") = .ok kept) :
    Latest (kept.or latest) (additions ++ [(item, sequence)]) := by
  cases latest with
  | none =>
    obtain rfl : additions = [] := h
    obtain rfl := (Except.ok.inj hagainst).symm
    exact ⟨_, (item, sequence), _, keeps_singleton _, shows_stamp hobject⟩
  | some old =>
    obtain ⟨best, last, mark, hkeeps, hshows⟩ := h
    obtain ⟨hmem, hbest⟩ := hkeeps.last_mem
    obtain ⟨hvalid', hstepped'⟩ := hall last hmem
    obtain ⟨text, htext, hfinite⟩ := number_eq_true (valid_index hvalid "step") hstepped
    obtain ⟨text', htext', hfinite'⟩ := number_eq_true (valid_index hvalid' "step") hstepped'
    rw [against_step hshows htext hfinite htext' hfinite', Except.ok.injEq] at hagainst
    subst hagainst
    rcases lt_trichotomy (stepOf item) (stepOf last.1) with hlt | heq | hgt
    · rw [if_pos hlt, Option.none_or]
      exact ⟨best, last, mark, hkeeps.behind (hbest ▸ hlt), hshows⟩
    · rw [if_neg heq.not_lt]
      by_cases hagree : agrees old item = true
      · rw [if_neg (by simp [hagree]), Option.some_or]
        by_cases hmark : mark
        · -- What agrees with a conflict is a conflict itself.
          have hconflict := (hshows.marked.mpr hmark).of_agrees hagree
          refine ⟨best, (item, sequence), True, hkeeps.disagree (heq.trans hbest) (Or.inl hmark), ?_⟩
          have hshown := @shows_stamp item sequence hobject
          exact ⟨hshown.axis, hshown.place, iff_of_true (hshown.marked.mpr hconflict) trivial,
            fun h => absurd trivial h⟩
        · rw [hshows.agrees_eq hmark] at hagree
          exact ⟨best, (item, sequence), Conflicting item,
            hkeeps.joined (fun _ _ _ => agrees_trans) (heq.trans hbest) hmark hagree,
            shows_stamp hobject⟩
      · rw [if_pos ⟨heq, by simpa using hagree⟩, Option.some_or]
        refine ⟨best, (item, sequence), True, hkeeps.disagree (heq.trans hbest) ?_,
          shows_conflicting hobject _⟩
        by_cases hmark : mark
        · exact Or.inl hmark
        · rw [hshows.agrees_eq hmark] at hagree
          exact Or.inr hagree
    · rw [if_neg hgt.not_gt, if_neg fun h => hgt.ne' h.1, Option.some_or]
      exact ⟨_, (item, sequence), _, hkeeps.ahead (hbest ▸ hgt), shows_stamp hobject⟩

/-! ## Series -/

namespace Series

variable {series next : Series}

/-- What adding an item does to a series. -/
lemma add_eq_ok : series.add item sequence = .ok next ↔ ∃ name curve kept,
    axis item = .ok name ∧ onCurve item name = .ok curve ∧
      against (if isSummary item then series.summary else series.latest) item
        (stamp item name sequence) name = .ok kept ∧
      next = { series with
        positions := if curve then name.elim series.positions fun name =>
          follow series.positions name (item.index name) else series.positions
        summary := if isSummary item then kept.or series.summary else series.summary
        latest := if isSummary item then series.latest else kept.or series.latest } := by
  unfold add
  constructor
  · intro h
    obtain ⟨name, hname, h⟩ := bind_eq_ok.mp h
    obtain ⟨curve, hcurve, h⟩ := bind_eq_ok.mp h
    obtain ⟨kept, hkept, h⟩ := bind_eq_ok.mp h
    exact ⟨name, curve, kept, hname, hcurve, hkept, (Except.ok.inj h).symm⟩
  · rintro ⟨name, curve, kept, hname, hcurve, hkept, rfl⟩
    exact bind_eq_ok.mpr ⟨name, hname, bind_eq_ok.mpr ⟨curve, hcurve,
      bind_eq_ok.mpr ⟨kept, hkept, rfl⟩⟩⟩

/-- A summary changes neither the latest point of a series nor its positions. -/
lemma add_summary (hsummary : isSummary item = true) (h : series.add item sequence = .ok next) :
    next.key = series.key ∧ next.latest = series.latest ∧ next.positions = series.positions := by
  obtain ⟨name, curve, kept, -, hcurve, -, rfl⟩ := add_eq_ok.mp h
  rw [onCurve, if_pos (Or.inl hsummary)] at hcurve
  obtain rfl := (Except.ok.inj hcurve).symm
  exact ⟨rfl, if_pos hsummary, rfl⟩

/-- The invariant of a series: its points can be compared, and where all its items carry a step its
latest point is the latest of them. -/
structure Holds (series : Series) (additions : List Addition) : Prop where
  latestPlaced : ∀ point, series.latest = some point → Placed point
  summaryPlaced : ∀ point, series.summary = some point → Placed point
  latest : (∀ addition ∈ additions, stepped addition.1) → Latest series.latest additions

lemma holds_fresh (key : Bytes) (item : Json) : (fresh key item).Holds [] where
  latestPlaced _ h := nomatch h
  summaryPlaced _ h := nomatch h
  latest _ := rfl

lemma Holds.previous (h : series.Holds additions) : ∀ old,
    (if isSummary item then series.summary else series.latest) = some old → Placed old := by
  intro old hold
  split_ifs at hold
  · exact h.summaryPlaced old hold
  · exact h.latestPlaced old hold

lemma placed_or {previous kept : Option Json} (hprevious : ∀ old, previous = some old → Placed old)
    (hkept : ∀ point, kept = some point → Placed point) :
    ∀ point, kept.or previous = some point → Placed point := by
  intro point hpoint
  cases kept with
  | none => exact hprevious point hpoint
  | some found => exact hkept point hpoint

/-- **One more item of a series.** -/
lemma Holds.step (h : series.Holds additions) (hvalid : ∀ addition ∈ additions, addition.1.valid = true)
    (hobject : item.isObject = true) (hitem : item.valid = true)
    (hadd : series.add item sequence = .ok next) :
    next.key = series.key ∧
      next.Holds (additions ++ if isSummary item then [] else [(item, sequence)]) := by
  obtain ⟨name, curve, kept, hname, -, hkept, rfl⟩ := add_eq_ok.mp hadd
  have hplaced := placed_against hobject hitem hname hkept
  cases hsummary : isSummary item with
  | true =>
    simp only [if_true, List.append_nil]
    exact ⟨trivial, h.latestPlaced, placed_or h.summaryPlaced hplaced, h.latest⟩
  | false =>
    rw [hsummary] at hkept
    simp only [Bool.false_eq_true, if_false]
    refine ⟨trivial, placed_or h.latestPlaced hplaced, h.summaryPlaced, fun hsteps => ?_⟩
    rw [List.forall_mem_append] at hsteps
    have hstepped : stepped item := hsteps.2 (item, sequence) (by simp)
    obtain rfl : name = some "step" := Except.ok.inj (hname.symm.trans (axis_of_stepped hstepped))
    exact (h.latest hsteps.1).step (fun addition hmem => ⟨hvalid addition hmem, hsteps.1 addition hmem⟩)
      hobject hitem hstepped hkept

end Series

/-! ## All series -/

/-- What adding an item does to the list of series: it changes the first one of its key, or puts a new
one at the end. -/
lemma addTo_eq_ok {key : Bytes} : ∀ {all next : List Series}, addTo key item sequence all = .ok next →
    (key ∉ all.map Series.key ∧ ∃ added, (Series.fresh key item).add item sequence = .ok added ∧
      next = all ++ [added]) ∨
    ∃ front series back added, all = front ++ series :: back ∧ series.key = key ∧
      series.add item sequence = .ok added ∧ next = front ++ added :: back
  | [], next, h => by
      obtain ⟨added, hadd, h⟩ := bind_eq_ok.mp h
      exact Or.inl ⟨by simp, added, hadd, (Except.ok.inj h).symm⟩
  | series :: rest, next, h => by
      rw [addTo] at h
      split_ifs at h with hkey
      · obtain ⟨added, hadd, h⟩ := bind_eq_ok.mp h
        exact Or.inr ⟨[], series, rest, added, rfl, hkey, hadd, (Except.ok.inj h).symm⟩
      · obtain ⟨more, hmore, h⟩ := bind_eq_ok.mp h
        obtain rfl := (Except.ok.inj h).symm
        rcases addTo_eq_ok hmore with ⟨hnew, added, hadd, rfl⟩ |
          ⟨front, found, back, added, rfl, hfound, hadd, rfl⟩
        · exact Or.inl ⟨by simpa using ⟨Ne.symm hkey, by simpa using hnew⟩, added, hadd, rfl⟩
        · exact Or.inr ⟨series :: front, found, back, added, rfl, hfound, hadd, rfl⟩

/-- An item can be added to the list of series when it can be added to each of them. -/
lemma exists_addTo {key : Bytes} (hfresh : ∃ added, (Series.fresh key item).add item sequence = .ok added) :
    ∀ {all : List Series}, (∀ series ∈ all, ∃ added, series.add item sequence = .ok added) →
      ∃ next, addTo key item sequence all = .ok next
  | [], _ => by
      obtain ⟨added, hadd⟩ := hfresh
      exact ⟨[added], bind_eq_ok.mpr ⟨added, hadd, rfl⟩⟩
  | series :: rest, h => by
      rw [addTo]
      split_ifs
      · obtain ⟨added, hadd⟩ := h series List.mem_cons_self
        exact ⟨added :: rest, bind_eq_ok.mpr ⟨added, hadd, rfl⟩⟩
      · obtain ⟨next, hnext⟩ := exists_addTo hfresh fun other hother =>
          h other (List.mem_cons_of_mem _ hother)
        exact ⟨series :: next, bind_eq_ok.mpr ⟨next, hnext, rfl⟩⟩

lemma object_eq_ok {u : Unit} : object item = .ok u ↔ item.isObject = true := by
  rw [object, reject_eq_ok, Bool.not_eq_false]

/-- The item has a name and a unit. -/
def Named (item : Json) : Prop :=
  truth (item.index "name") = true ∧ truth (item.index "unit") = true

namespace Projection

variable {projection next : Projection}

/-- What adding an item does to a projection. -/
lemma add_eq_ok : projection.add enc item sequence = .ok next ↔ item.isObject = true ∧
    (¬Named item ∧ next = projection ∨ Named item ∧ ∃ key series, identity enc item = .ok key ∧
      addTo key item sequence projection.series = .ok series ∧ next = { projection with series }) := by
  rw [add, bind_eq_ok]
  by_cases hnamed : Named item
  · have hno : ¬(¬truth (item.index "name") = true ∨ ¬truth (item.index "unit") = true) := by
      rw [not_or, not_not, not_not]
      exact hnamed
    simp only [object_eq_ok, if_neg hno, not_true, hnamed, false_and, false_or, true_and]
    constructor
    · rintro ⟨-, hobject, h⟩
      obtain ⟨key, hkey, h⟩ := bind_eq_ok.mp h
      obtain ⟨series, hseries, h⟩ := bind_eq_ok.mp h
      exact ⟨hobject, key, series, hkey, hseries, (Except.ok.inj h).symm⟩
    · rintro ⟨hobject, key, series, hkey, hseries, rfl⟩
      exact ⟨(), hobject, bind_eq_ok.mpr ⟨key, hkey, bind_eq_ok.mpr ⟨series, hseries, rfl⟩⟩⟩
  · have hno : ¬truth (item.index "name") = true ∨ ¬truth (item.index "unit") = true := by
      rwa [← not_and_or]
    simp only [object_eq_ok, if_pos hno, hnamed, not_false_eq_true, true_and, false_and, or_false]
    constructor
    · rintro ⟨-, hobject, h⟩
      exact ⟨hobject, (Except.ok.inj h).symm⟩
    · rintro ⟨hobject, rfl⟩
      exact ⟨(), hobject, rfl⟩

/-- The invariant of a projection: there is one series for each key of an item so far, and each of
them is made of its items. -/
structure Holds (enc : Encoding) (projection : Projection) (additions : List Addition) : Prop where
  keys : (projection.series.map Series.key).Nodup
  known : ∀ key, key ∈ projection.series.map Series.key ↔
    ∃ addition ∈ additions, Displayed enc key addition.1
  series : ∀ series ∈ projection.series, series.Holds (shown enc series.key additions)

end Projection

lemma shown_append (key : Bytes) (additions more : List Addition) :
    shown enc key (additions ++ more) = shown enc key additions ++ shown enc key more :=
  List.filter_append _ _

lemma mem_shown {key : Bytes} {addition : Addition} : addition ∈ shown enc key additions ↔
    addition ∈ additions ∧ Displayed enc key addition.1 ∧ isSummary addition.1 = false := by
  simp [shown]

lemma shown_singleton {key : Bytes} (h : Displayed enc key item) :
    shown enc key [(item, sequence)] = if isSummary item then [] else [(item, sequence)] := by
  cases hsummary : isSummary item with
  | true => simp [shown, hsummary]
  | false => simp [shown, hsummary, h]

/-- An item of no series, or of another one. -/
lemma shown_other {key : Bytes} (h : ¬Displayed enc key item) :
    shown enc key (additions ++ [(item, sequence)]) = shown enc key additions := by
  rw [shown_append]
  simp [shown, h]

lemma Displayed.named {key : Bytes} (h : Displayed enc key item) : Named item := ⟨h.1, h.2.1⟩

lemma Displayed.key_eq {key other : Bytes} (h : Displayed enc key item)
    (h' : Displayed enc other item) : key = other :=
  Except.ok.inj (h.2.2.symm.trans h'.2.2)

namespace Projection

variable {projection next : Projection}

/-- An item that is not displayed changes nothing. -/
lemma Holds.skip (h : projection.Holds enc additions) (hnamed : ¬Named item) :
    projection.Holds enc (additions ++ [(item, sequence)]) := by
  have hnone (key : Bytes) : ¬Displayed enc key item := fun hdisplayed => hnamed hdisplayed.named
  refine ⟨h.keys, fun key => ?_, fun series hseries => ?_⟩
  · rw [h.known]
    simp [hnone]
  · rw [shown_other (hnone _)]
    exact h.series series hseries

/-- **One more item.** -/
lemma Holds.step (h : projection.Holds enc additions)
    (hvalid : ∀ addition ∈ additions, addition.1.valid = true) (hitem : item.valid = true)
    (hadd : projection.add enc item sequence = .ok next) :
    next.Holds enc (additions ++ [(item, sequence)]) := by
  obtain ⟨hobject, ⟨hnamed, rfl⟩ | ⟨hnamed, key, all, hkey, hall, rfl⟩⟩ := add_eq_ok.mp hadd
  · exact h.skip hnamed
  · have hdisplayed : Displayed enc key item := ⟨hnamed.1, hnamed.2, hkey⟩
    have hshown (found : Bytes) : ∀ addition ∈ shown enc found additions, addition.1.valid = true :=
      fun addition hmem => hvalid addition (mem_shown.mp hmem).1
    -- A series of another key keeps its items.
    have hothers : ∀ series ∈ projection.series, series.key ≠ key →
        series.Holds (shown enc series.key (additions ++ [(item, sequence)])) := by
      intro series hseries hne
      rw [shown_other fun hother => hne (hother.key_eq hdisplayed)]
      exact h.series series hseries
    have hknown (found : Bytes) : (∃ addition ∈ additions ++ [(item, sequence)],
        Displayed enc found addition.1) ↔ found ∈ projection.series.map Series.key ∨ found = key := by
      rw [h.known]
      simp only [List.mem_append, List.mem_singleton, or_and_right, exists_or, exists_eq_left]
      exact or_congr_right ⟨fun hfound => hfound.key_eq hdisplayed, fun heq => heq ▸ hdisplayed⟩
    rcases addTo_eq_ok hall with ⟨hnew, added, hadded, rfl⟩ |
      ⟨front, series, back, added, hsplit, hsame, hadded, rfl⟩
    · have hnone : shown enc key additions = [] := by
        rw [List.eq_nil_iff_forall_not_mem]
        intro addition hmem
        obtain ⟨hmem, hfound, -⟩ := mem_shown.mp hmem
        exact hnew ((h.known key).mpr ⟨addition, hmem, hfound⟩)
      obtain ⟨hkey', hholds⟩ := (Series.holds_fresh key item).step (by simp) hobject hitem hadded
      have hkey' : added.key = key := hkey'
      refine ⟨?_, fun found => ?_, fun series hseries => ?_⟩
      · rw [List.map_append, List.map_singleton, hkey', ← List.concat_eq_append]
        exact h.keys.concat hnew
      · rw [hknown, List.map_append, List.mem_append, List.map_singleton, List.mem_singleton, hkey']
      · rcases List.mem_append.mp hseries with hseries | hseries
        · refine hothers series hseries fun heq => hnew ?_
          exact heq ▸ List.mem_map_of_mem hseries
        · rw [List.mem_singleton.mp hseries, hkey', shown_append, hnone, shown_singleton hdisplayed]
          exact hholds
    · have hmem : series ∈ projection.series := by
        rw [hsplit]
        simp
      have hholds := h.series series hmem
      rw [hsame] at hholds
      obtain ⟨hkey', hholds⟩ := hholds.step (hshown key) hobject hitem hadded
      rw [hsame] at hkey'
      have hkeys : (front ++ added :: back).map Series.key = projection.series.map Series.key := by
        rw [hsplit, List.map_append, List.map_append, List.map_cons, List.map_cons, hkey', hsame]
      have hin : key ∈ projection.series.map Series.key := hsame ▸ List.mem_map_of_mem hmem
      refine ⟨by rw [hkeys]; exact h.keys, fun found => ?_, fun other hother => ?_⟩
      · rw [hknown, hkeys]
        exact ⟨Or.inl, fun hfound => hfound.elim id fun heq => heq ▸ hin⟩
      · have hnodup := h.keys
        rw [hsplit, List.map_append, List.map_cons, hsame, List.nodup_middle, List.nodup_cons,
          List.mem_append, not_or] at hnodup
        rcases List.mem_append.mp hother with hfront | hrest
        · refine hothers other (hsplit ▸ List.mem_append_left _ hfront) fun heq => hnodup.1.1 ?_
          exact heq ▸ List.mem_map_of_mem hfront
        · rcases List.mem_cons.mp hrest with rfl | hback
          · rw [hkey', shown_append, shown_singleton hdisplayed]
            exact hholds
          · refine hothers other ?_ fun heq => hnodup.1.2 (heq ▸ List.mem_map_of_mem hback)
            rw [hsplit]
            simp [hback]

/-- **Every run of items keeps the invariant.** -/
theorem holds_run : ∀ {additions : List Addition} {projection : Projection},
    (∀ addition ∈ additions, addition.1.valid = true) → run enc additions = .ok projection →
      projection.Holds enc additions := by
  intro additions
  induction additions using List.reverseRecOn with
  | nil =>
    rintro projection - h
    obtain rfl := (Except.ok.inj h).symm
    exact ⟨List.nodup_nil, by simp, by simp⟩
  | append_singleton additions addition ih =>
    intro projection hvalid h
    rw [List.forall_mem_append] at hvalid
    rw [run, List.foldlM_append, bind_eq_ok] at h
    obtain ⟨before, hbefore, h⟩ := h
    obtain ⟨after, hafter, h⟩ := foldlM_cons_eq_ok.mp h
    obtain rfl := (Except.ok.inj h).symm
    exact (ih hvalid.1 hbefore).step hvalid.1 (hvalid.2 addition (by simp)) hafter

/-! ## Items that are refused -/

/-- The item is not refused, whatever the series are. -/
def Accepts (enc : Encoding) (item : Json) : Prop :=
  item.isObject = true ∧ (Named item → ∃ key name curve, identity enc item = .ok key ∧
    axis item = .ok name ∧ onCurve item name = .ok curve)

lemma accepts_of_add (h : projection.add enc item sequence = .ok next) : Accepts enc item := by
  obtain ⟨hobject, ⟨hnamed, -⟩ | ⟨-, key, all, hkey, hall, -⟩⟩ := add_eq_ok.mp h
  · exact ⟨hobject, fun h => absurd h hnamed⟩
  · refine ⟨hobject, fun _ => ?_⟩
    rcases addTo_eq_ok hall with ⟨-, added, hadded, -⟩ | ⟨_, _, _, added, -, -, hadded, -⟩
    · obtain ⟨name, curve, -, hname, hcurve, -⟩ := Series.add_eq_ok.mp hadded
      exact ⟨key, name, curve, hkey, hname, hcurve⟩
    · obtain ⟨name, curve, -, hname, hcurve, -⟩ := Series.add_eq_ok.mp hadded
      exact ⟨key, name, curve, hkey, hname, hcurve⟩

lemma Holds.exists_add (h : projection.Holds enc additions) (hitem : item.valid = true)
    (haccepts : Accepts enc item) (sequence : ℤ) :
    ∃ next, projection.add enc item sequence = .ok next := by
  obtain ⟨hobject, haccepts⟩ := haccepts
  by_cases hnamed : Named item
  · obtain ⟨key, name, curve, hkey, hname, hcurve⟩ := haccepts hnamed
    have hany {series : Series} {made : List Addition} (hholds : series.Holds made) :
        ∃ added, series.add item sequence = .ok added := by
      obtain ⟨kept, hkept⟩ := exists_against (fun old hold => hholds.previous old hold) hitem hname
        (stamp item name sequence)
      exact ⟨_, Series.add_eq_ok.mpr ⟨name, curve, kept, hname, hcurve, hkept, rfl⟩⟩
    obtain ⟨all, hall⟩ := @exists_addTo _ _ key (hany (Series.holds_fresh key item)) _
      fun series hseries => hany (h.series series hseries)
    exact ⟨_, add_eq_ok.mpr ⟨hobject, Or.inr ⟨hnamed, key, all, hkey, hall, rfl⟩⟩⟩
  · exact ⟨projection, add_eq_ok.mpr ⟨hobject, Or.inl ⟨hnamed, rfl⟩⟩⟩

/-- **A run is accepted** when none of its items is refused. -/
theorem run_eq_ok : ∀ {additions : List Addition}, (∀ addition ∈ additions, addition.1.valid = true) →
    ((∃ projection, run enc additions = .ok projection) ↔
      ∀ addition ∈ additions, Accepts enc addition.1) := by
  intro additions
  induction additions using List.reverseRecOn with
  | nil => exact fun _ => ⟨fun _ => by simp, fun _ => ⟨_, rfl⟩⟩
  | append_singleton additions addition ih =>
    intro hvalid
    rw [List.forall_mem_append] at hvalid
    have hitem := hvalid.2 addition (by simp)
    rw [List.forall_mem_append, ← ih hvalid.1, List.forall_mem_singleton, run, List.foldlM_append]
    constructor
    · rintro ⟨projection, h⟩
      obtain ⟨before, hbefore, h⟩ := bind_eq_ok.mp h
      obtain ⟨after, hafter, -⟩ := foldlM_cons_eq_ok.mp h
      exact ⟨⟨before, hbefore⟩, accepts_of_add hafter⟩
    · rintro ⟨⟨before, hbefore⟩, haccepts⟩
      obtain ⟨after, hafter⟩ := (holds_run hvalid.1 hbefore).exists_add hitem haccepts addition.2
      exact ⟨after, bind_eq_ok.mpr ⟨before, hbefore, foldlM_cons_eq_ok.mpr ⟨after, hafter, rfl⟩⟩⟩

/-- A summary is kept beside the latest points: every series keeps its own. -/
lemma add_summary (hsummary : isSummary item = true)
    (h : projection.add enc item sequence = .ok next) : ∀ series ∈ projection.series,
      ∃ other ∈ next.series, other.key = series.key ∧ other.latest = series.latest ∧
        other.positions = series.positions := by
  obtain ⟨-, ⟨-, rfl⟩ | ⟨-, key, all, -, hall, rfl⟩⟩ := add_eq_ok.mp h
  · exact fun series hseries => ⟨series, hseries, rfl, rfl, rfl⟩
  · rcases addTo_eq_ok hall with ⟨-, added, -, rfl⟩ | ⟨front, found, back, added, hsplit, -, hadded, rfl⟩
    · exact fun series hseries => ⟨series, List.mem_append_left _ hseries, rfl, rfl, rfl⟩
    · intro series hseries
      rw [hsplit] at hseries
      rcases List.mem_append.mp hseries with hfront | hrest
      · exact ⟨series, List.mem_append_left _ hfront, rfl, rfl, rfl⟩
      · rcases List.mem_cons.mp hrest with rfl | hback
        · exact ⟨added, by simp, Series.add_summary hsummary hadded⟩
        · exact ⟨series, by simp [hback], rfl, rfl, rfl⟩

end Projection

/-! ## The latest point is right -/

/-- The items of the step of a point. -/
def atStepOf (point : Json) (additions : List Addition) : List Addition :=
  additions.filter fun addition => stepOf addition.1 = stepOf point

/-- The point of the greatest step of some items, a conflict where two of them there disagree or one
is a conflict itself. -/
def IsLatest (latest : Option Json) (additions : List Addition) : Prop :=
  match latest with
  | none => additions = []
  | some point =>
      (∃ addition ∈ additions, point.index "step" = addition.1.index "step") ∧
      (∀ addition ∈ additions, stepOf addition.1 ≤ stepOf point) ∧
      (Conflicting point ↔
        ¬(atStepOf point additions).Pairwise (fun old new => agrees old.1 new.1 = true) ∨
          ∃ addition ∈ atStepOf point additions, Conflicting addition.1)

/-- Two points with one step and one mark, which agree where they are not conflicts. -/
def Alike (latest latest' : Option Json) : Prop :=
  match latest, latest' with
  | none, none => True
  | some point, some point' => stepOf point = stepOf point' ∧
      (Conflicting point ↔ Conflicting point') ∧
      (¬Conflicting point → ∀ key ∈ COMPARED, point.index key = point'.index key ∨
        numericTolerantEqual (point.index key) (point'.index key) = true)
  | _, _ => False

lemma Latest.isLatest {latest : Option Json} (h : Latest latest additions) :
    IsLatest latest additions := by
  cases latest with
  | none => exact h
  | some point =>
    obtain ⟨best, last, mark, hkeeps, hshows⟩ := h
    obtain ⟨hmem, hbest⟩ := hkeeps.last_mem
    have hstep : stepOf point = best := hshows.stepOf_eq.trans hbest
    refine ⟨⟨last, hmem, hshows.place⟩, fun addition hadd => ?_, ?_⟩
    · rw [hstep]
      exact hkeeps.greatest addition hadd
    · rw [hshows.marked, hkeeps.mark, atStepOf, hstep]
      rfl

lemma Latest.alike {latest latest' : Option Json} {others : List Addition}
    (h : Latest latest additions) (h' : Latest latest' others) (hperm : additions.Perm others)
    (hvalid : ∀ addition ∈ additions, addition.1.valid = true) : Alike latest latest' := by
  cases latest with
  | none =>
    obtain rfl : additions = [] := h
    cases latest' with
    | none => trivial
    | some point' =>
      obtain ⟨best, last, mark, hkeeps, -⟩ := h'
      rw [hperm.symm.eq_nil] at hkeeps
      exact absurd hkeeps.last_mem.1 List.not_mem_nil
  | some point =>
    obtain ⟨best, last, mark, hkeeps, hshows⟩ := h
    cases latest' with
    | none =>
      obtain rfl : others = [] := h'
      rw [hperm.eq_nil] at hkeeps
      exact absurd hkeeps.last_mem.1 List.not_mem_nil
    | some point' =>
      obtain ⟨best', last', mark', hkeeps', hshows'⟩ := h'
      obtain ⟨hbest, hmark, hlast⟩ := hkeeps.perm hkeeps' hperm fun a ha b hb =>
        agrees_symm (hvalid a ha) (hvalid b hb)
      refine ⟨?_, by rw [hshows.marked, hshows'.marked, hmark], fun hplain key hkey => ?_⟩
      · rw [hshows.stepOf_eq, hshows'.stepOf_eq, hkeeps.last_mem.2, hkeeps'.last_mem.2, hbest]
      · rw [hshows.marked] at hplain
        rw [hshows.fields hplain key hkey, hshows'.fields (hmark.not.mp hplain) key hkey]
        rcases hlast hplain with rfl | hagree
        · exact Or.inl rfl
        · exact Or.inr (agrees_iff.mp hagree key hkey)

/-- **The latest point of a displayed series.** Of any items that are added to a projection, a series
whose items all carry a step shows the greatest of these steps, and it shows a conflict exactly when
two items there disagree, or one is a conflict itself. A summary is kept beside the latest point. The
same items in any other order are accepted, with the same series and the same latest points. -/
theorem latest_right (enc : Encoding) {additions others : List Addition} {projection : Projection}
    (hvalid : ∀ addition ∈ additions, addition.1.valid = true) (hperm : additions.Perm others)
    (h : Projection.run enc additions = .ok projection) :
    (∀ series ∈ projection.series,
      (∀ addition ∈ shown enc series.key additions, stepped addition.1) →
        IsLatest series.latest (shown enc series.key additions)) ∧
    (∀ item sequence next, isSummary item = true →
      projection.add enc item sequence = .ok next → ∀ series ∈ projection.series,
        ∃ other ∈ next.series, other.key = series.key ∧ other.latest = series.latest ∧
          other.positions = series.positions) ∧
    ∃ projection', Projection.run enc others = .ok projection' ∧
      (∀ key, key ∈ projection.series.map Series.key ↔ key ∈ projection'.series.map Series.key) ∧
      ∀ series ∈ projection.series, ∀ series' ∈ projection'.series, series.key = series'.key →
        (∀ addition ∈ shown enc series.key additions, stepped addition.1) →
          Alike series.latest series'.latest := by
  have hholds := Projection.holds_run hvalid h
  have hvalid' : ∀ addition ∈ others, addition.1.valid = true := fun addition hmem =>
    hvalid addition (hperm.mem_iff.mpr hmem)
  have haccepts := (Projection.run_eq_ok hvalid).mp ⟨projection, h⟩
  obtain ⟨projection', h'⟩ := (@Projection.run_eq_ok enc _ hvalid').mpr fun addition hmem =>
    haccepts addition (hperm.mem_iff.mpr hmem)
  have hholds' := Projection.holds_run hvalid' h'
  refine ⟨fun series hseries hsteps => ?_, fun item sequence next => Projection.add_summary,
    projection', h', fun key => ?_, fun series hseries series' hseries' hkey hsteps => ?_⟩
  · exact ((hholds.series series hseries).latest hsteps).isLatest
  · rw [hholds.known, hholds'.known]
    exact exists_congr fun addition => and_congr_left' hperm.mem_iff
  · have hshown : (shown enc series.key additions).Perm (shown enc series'.key others) :=
      hkey ▸ hperm.filter _
    have hsteps' : ∀ addition ∈ shown enc series'.key others, stepped addition.1 :=
      fun addition hmem => hsteps addition (hshown.mem_iff.mpr hmem)
    exact ((hholds.series series hseries).latest hsteps).alike
      ((hholds'.series series' hseries').latest hsteps') hshown fun addition hmem =>
        hvalid addition (mem_shown.mp hmem).1

/-- A point of one series at a step. -/
def lossPoint (step checkpoint : String) : Json :=
  .object [("name", .string "loss"), ("unit", .string "nats"), ("step", .number step),
    ("value", .number "2"), ("status", .string "VALID"), ("checkpoint_id", .string checkpoint)]

/-- An encoding that leaves floats as they are. -/
def plainEncoding : Encoding := ⟨some, fun _ => ""⟩

theorem latest_right_steps :
    ∃ projection, Projection.run plainEncoding [(lossPoint "2" "a", 1), (lossPoint "1" "a", 2)] =
        .ok projection ∧
      ∃ projection', Projection.run plainEncoding [(lossPoint "1" "a", 2), (lossPoint "2" "a", 1)] =
        .ok projection' ∧
        ∀ key, key ∈ projection.series.map Series.key ↔ key ∈ projection'.series.map Series.key := by
  have haccepted : (Projection.run plainEncoding
      [(lossPoint "2" "a", 1), (lossPoint "1" "a", 2)]).toOption.isSome = true := by
    decide +kernel
  cases hrun : Projection.run plainEncoding [(lossPoint "2" "a", 1), (lossPoint "1" "a", 2)] with
  | error e =>
    rw [hrun] at haccepted
    cases haccepted
  | ok projection =>
    have hright := latest_right plainEncoding (by decide +kernel)
      (List.Perm.swap (lossPoint "1" "a", 2) (lossPoint "2" "a", 1) []) hrun
    obtain ⟨-, -, projection', hrun', hkeys, -⟩ := hright
    exact ⟨projection, rfl, projection', hrun', hkeys⟩

/-- Two items with one value and different checkpoints are shown as a conflict, and the point that is
shown has the place of the last of them in the journal. -/
theorem latest_checkpoints :
    let additions : List Addition := [(lossPoint "1" "a", 1), (lossPoint "1" "b", 2)]
    (additions.Pairwise fun old new =>
      numericTolerantEqual (old.1.index "value") (new.1.index "value") = true) ∧
    (∀ addition ∈ additions, stepped addition.1) ∧
    ∃ projection series point, Projection.run plainEncoding additions = .ok projection ∧
      projection.series = [series] ∧ series.latest = some point ∧ Conflicting point ∧
      ∃ projection' series' point', Projection.run plainEncoding additions.reverse =
          .ok projection' ∧
        projection'.series = [series'] ∧ series'.latest = some point' ∧
        point.index "sequence" = .number "2" ∧ point'.index "sequence" = .number "1" := by
  have hfirst : ((Projection.run plainEncoding
      [(lossPoint "1" "a", 1), (lossPoint "1" "b", 2)]).toOption.map fun projection =>
        projection.series.map fun series => series.latest.map fun point =>
          (point.index "status", point.index "sequence")) =
      some [some (.string "CONFLICTING", .number "2")] := by decide +kernel
  have hsecond : ((Projection.run plainEncoding
      [(lossPoint "1" "b", 2), (lossPoint "1" "a", 1)]).toOption.map fun projection =>
        projection.series.map fun series => series.latest.map fun point =>
          (point.index "status", point.index "sequence")) =
      some [some (.string "CONFLICTING", .number "1")] := by decide +kernel
  -- What is shown of a run of items of one series.
  have hshown {additions : List Addition} {status place : Json}
      (h : ((Projection.run plainEncoding additions).toOption.map fun projection =>
        projection.series.map fun series => series.latest.map fun point =>
          (point.index "status", point.index "sequence")) = some [some (status, place)]) :
      ∃ projection series point, Projection.run plainEncoding additions = .ok projection ∧
        projection.series = [series] ∧ series.latest = some point ∧
        point.index "status" = status ∧ point.index "sequence" = place := by
    cases hrun : Projection.run plainEncoding additions with
    | error e =>
      rw [hrun] at h
      cases h
    | ok projection =>
      rw [hrun] at h
      obtain ⟨series, hseries, hlatest⟩ := List.map_eq_singleton_iff.mp (Option.some.inj h)
      obtain ⟨point, hpoint, hvalues⟩ := Option.map_eq_some_iff.mp hlatest
      exact ⟨projection, series, point, rfl, hseries, hpoint, congrArg Prod.fst hvalues,
        congrArg Prod.snd hvalues⟩
  obtain ⟨projection, series, point, hrun, hseries, hpoint, hstatus, hplace⟩ := hshown hfirst
  obtain ⟨projection', series', point', hrun', hseries', hpoint', -, hplace'⟩ := hshown hsecond
  have hsteps : ∀ addition ∈ [(lossPoint "1" "a", (1 : ℤ)), (lossPoint "1" "b", 2)],
      number (addition.1.index "step") = .ok true := by decide +kernel
  exact ⟨by decide +kernel, hsteps, projection, series, point, hrun, hseries, hpoint, hstatus, projection',
    series', point', hrun', hseries', hpoint', hplace, hplace'⟩

end Tracking

end ExperimentControl
