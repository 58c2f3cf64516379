import ExperimentControl.Records.Sequences

/-!
# Appending again

What a caller may rely on when it appends after a crash and cannot know how far it had come.

* `stored` — the rows after some events, appended as one batch.
* **`stored_append`** — batches appended one after the other are one append of all their events.
* **`stored_known`** — events that are stored already change nothing.
-/

namespace ExperimentControl.Records

open Journal

/-- The rows after some events are stored; an import without events makes no append. -/
def stored (enc : Encoding) (journal : Journal) (events : List Event) : Except StoreError Journal :=
  if events = [] then .ok journal else journal.append enc events

variable {enc : Encoding}

/-! ## Waking a scope -/

/-- The scope's row after a wake. -/
def wokenRow (row : ScopeRow) (seq : ℤ) : ScopeRow :=
  if row.confirmed < seq ∧ row.error = none ∧ row.status ∉ ["LOCAL_ONLY", "PENDING"] then
    { row with status := "PENDING" }
  else row

lemma wake_eq (journal : Journal) (seq : ℤ) :
    journal.wake seq = { journal with scope := wokenRow journal.scope seq } := by
  unfold Journal.wake wokenRow
  split_ifs
  · rfl
  · rfl

lemma wokenRow_twice (row : ScopeRow) {first second : ℤ} (h : first ≤ second) :
    wokenRow (wokenRow row first) second = wokenRow row second := by
  unfold wokenRow
  by_cases hfirst : row.confirmed < first ∧ row.error = none ∧ row.status ∉ ["LOCAL_ONLY", "PENDING"]
  · have hsecond : row.confirmed < second ∧ row.error = none ∧
        row.status ∉ ["LOCAL_ONLY", "PENDING"] := ⟨by omega, hfirst.2⟩
    rw [if_pos hfirst, if_pos hsecond, if_neg (by simp)]
  · rw [if_neg hfirst]

/-! ## Appending known events -/

/-- An event that is stored, or was skipped, under its id. -/
def Known (journal : Journal) (event : PreparedEvent) : Prop :=
  journal.eventIds.lookup event.eventId = some event.checksum

/-- A known event is skipped. -/
lemma appendEvent_known {journal : Journal} {event : PreparedEvent} (h : Known journal event)
    (seq : ℤ) : appendEvent (journal, seq) event = .ok (journal, seq) := by
  have hlookup : journal.eventIds.lookup event.eventId = some event.checksum := h
  have hsame : reject (event.checksum ≠ event.checksum) StoreError.eventConflict = .ok () :=
    reject_eq_ok.mpr (not_not.mpr rfl)
  simp only [appendEvent, hlookup, hsame]
  rfl

lemma foldlM_known {journal : Journal} (seq : ℤ) : ∀ {prepared : List PreparedEvent},
    (∀ event ∈ prepared, Known journal event) →
      prepared.foldlM appendEvent (journal, seq) = .ok (journal, seq)
  | [], _ => rfl
  | event :: prepared, h => by
      rw [List.foldlM_cons, appendEvent_known (h event List.mem_cons_self)]
      exact foldlM_known seq fun other hother => h other (List.mem_cons_of_mem _ hother)

/-- Ids are put at the end only, so what is known stays known. -/
lemma lookup_append {ids more : List (String × String)} {id checksum : String}
    (h : ids.lookup id = some checksum) : (ids ++ more).lookup id = some checksum := by
  rw [List.lookup_append, h]
  rfl

/-- What one append of an event leaves: its id is known, as are the ids before it, the scope's own row
is the same, and no sequence is taken back. -/
lemma appendEvent_knows {state next : Journal × ℤ} {event : PreparedEvent}
    (h : appendEvent state event = .ok next) :
    Known next.1 event ∧ (∀ other, Known state.1 other → Known next.1 other) ∧
      next.1.scope = state.1.scope ∧ state.2 ≤ next.2 := by
  obtain ⟨journal, seq⟩ := state
  unfold appendEvent at h
  cases hold : journal.eventIds.lookup event.eventId with
  | some old =>
    simp only [hold] at h
    obtain ⟨⟨⟩, hsame, h⟩ := bind_eq_ok.mp h
    cases h
    rw [reject_eq_ok, not_not] at hsame
    subst hsame
    exact ⟨hold, fun _ hother => hother, rfl, le_refl _⟩
  | none =>
    simp only [hold] at h
    have hnew : (journal.eventIds ++ [(event.eventId, event.checksum)]).lookup event.eventId =
        some event.checksum := by
      rw [List.lookup_append, hold]
      simp
    split_ifs at h with hrepeat
    · cases h
      exact ⟨hnew, fun other hother => lookup_append hother, rfl, le_refl _⟩
    · obtain ⟨⟨⟩, -, h⟩ := bind_eq_ok.mp h
      cases h
      exact ⟨hnew, fun other hother => lookup_append hother, rfl, (lt_add_one seq).le⟩

lemma foldlM_knows : ∀ {prepared : List PreparedEvent} {state next : Journal × ℤ},
    prepared.foldlM appendEvent state = .ok next →
      (∀ event ∈ prepared, Known next.1 event) ∧
        (∀ other, Known state.1 other → Known next.1 other) ∧
        next.1.scope = state.1.scope ∧ state.2 ≤ next.2
  | [], state, next, h => by
      cases h
      exact ⟨by simp, fun _ hother => hother, rfl, le_refl _⟩
  | event :: prepared, state, next, h => by
      obtain ⟨middle, hfirst, hrest⟩ := foldlM_cons_eq_ok.mp h
      obtain ⟨hevent, hkeep, hscope, hle⟩ := appendEvent_knows hfirst
      obtain ⟨hall, hkept, hsame, hmore⟩ := foldlM_knows hrest
      refine ⟨fun other hother => ?_, fun other hother => hkept other (hkeep other hother),
        hsame.trans hscope, hle.trans hmore⟩
      rcases List.mem_cons.mp hother with rfl | hother
      · exact hkept _ hevent
      · exact hall other hother

/-! ## The scope's row -/

/-- The same rows under another row of the scope. -/
def under (row : ScopeRow) (state : Journal × ℤ) : Journal × ℤ :=
  ({ state.1 with scope := row }, state.2)

/-- An append does not read the scope's own row. -/
lemma appendEvent_under (row : ScopeRow) {state next : Journal × ℤ} {event : PreparedEvent}
    (h : appendEvent state event = .ok next) :
    appendEvent (under row state) event = .ok (under row next) := by
  obtain ⟨journal, seq⟩ := state
  unfold appendEvent at h ⊢
  cases hold : journal.eventIds.lookup event.eventId with
  | some old =>
    simp only [under, hold] at h ⊢
    obtain ⟨⟨⟩, hsame, h⟩ := bind_eq_ok.mp h
    cases h
    rw [hsame]
    rfl
  | none =>
    simp only [under, hold] at h ⊢
    split_ifs at h with hrepeat
    · cases h
      exact if_pos hrepeat
    · obtain ⟨⟨⟩, hroom, h⟩ := bind_eq_ok.mp h
      cases h
      exact (if_neg hrepeat).trans (bind_eq_ok.mpr ⟨(), hroom, rfl⟩)

lemma foldlM_under (row : ScopeRow) : ∀ {prepared : List PreparedEvent} {state next : Journal × ℤ},
    prepared.foldlM appendEvent state = .ok next →
      prepared.foldlM appendEvent (under row state) = .ok (under row next)
  | [], state, next, h => by
      cases h
      rfl
  | event :: prepared, state, next, h => by
      obtain ⟨middle, hfirst, hrest⟩ := foldlM_cons_eq_ok.mp h
      exact foldlM_cons_eq_ok.mpr ⟨_, appendEvent_under row hfirst, foldlM_under row hrest⟩

/-! ## Appends one after the other -/

lemma append_of_stages {journal last : Journal} {events : List Event} {prepared : List PreparedEvent}
    {seq : ℤ} (hprepared : events.mapM (prepareEvent enc) = .ok prepared)
    (hfold : prepared.foldlM appendEvent (journal, journal.total) = .ok (last, seq)) :
    journal.append enc events = .ok (last.wake seq) := by
  rw [Journal.append, hprepared]
  exact bind_eq_ok.mpr ⟨prepared, rfl, bind_eq_ok.mpr ⟨(last, seq), hfold, rfl⟩⟩

/-- Waking a scope that was woken earlier. -/
lemma wake_under (journal : Journal) (row : ScopeRow) {first second : ℤ} (h : first ≤ second) :
    ({ journal with scope := wokenRow row first } : Journal).wake second =
      ({ journal with scope := row } : Journal).wake second := by
  rw [wake_eq, wake_eq, wokenRow_twice row h]

/-- **Two appends are one**: a batch after another is accepted exactly when both are as one, and
leaves the same rows. -/
theorem append_append {journal middle next : Journal} {first second : List Event}
    (h : Numbered journal.seqs) (hfirst : journal.append enc first = .ok middle) :
    middle.append enc second = .ok next ↔ journal.append enc (first ++ second) = .ok next := by
  obtain ⟨last, prepared, happends⟩ := append_stages h hfirst
  have hmiddle : Numbered middle.seqs := (append_spec enc h hfirst).2.2
  have hwoken : under (wokenRow last.scope middle.total) (last, middle.total) =
      (middle, middle.total) := by
    rw [under, ← wake_eq, ← happends.wakes]
  have hback : under last.scope (middle, middle.total) = (last, middle.total) := by
    rw [← hwoken]
    rfl
  constructor
  · intro hsecond
    obtain ⟨later, more, hmore⟩ := append_stages hmiddle hsecond
    have hall : (first ++ second).mapM (prepareEvent enc) = .ok (prepared ++ more) := by
      rw [List.mapM_append, happends.prepares, hmore.prepares]
      rfl
    have hfold : (prepared ++ more).foldlM appendEvent (journal, journal.total) =
        .ok (under last.scope (later, next.total)) := by
      rw [List.foldlM_append, happends.stores, ok_bind, ← hback]
      exact foldlM_under last.scope hmore.stores
    obtain ⟨-, -, hscope, hle⟩ := foldlM_knows hmore.stores
    have hrow : later.scope = wokenRow last.scope middle.total := by
      rw [hscope, ← congrArg (fun state => state.1.scope) hwoken]
      rfl
    calc journal.append enc (first ++ second)
        = .ok (({ later with scope := last.scope } : Journal).wake next.total) :=
          append_of_stages hall hfold
      _ = .ok (({ later with scope := later.scope } : Journal).wake next.total) := by
          rw [← wake_under later last.scope hle, ← hrow]
      _ = .ok next := by rw [← hmore.wakes]
  · intro hboth
    obtain ⟨later, all, hall⟩ := append_stages h hboth
    have hprepares := hall.prepares
    rw [List.mapM_append, happends.prepares, ok_bind] at hprepares
    obtain ⟨more, hmore, hprepares⟩ := bind_eq_ok.mp hprepares
    cases hprepares
    have hstores := hall.stores
    rw [List.foldlM_append, happends.stores, ok_bind] at hstores
    obtain ⟨-, -, hscope, hle⟩ := foldlM_knows hstores
    have hfold := foldlM_under (wokenRow last.scope middle.total) hstores
    rw [hwoken] at hfold
    calc middle.append enc second
        = .ok (({ later with scope := wokenRow last.scope middle.total } : Journal).wake
            next.total) := append_of_stages hmore hfold
      _ = .ok (({ later with scope := later.scope } : Journal).wake next.total) := by
          exact congrArg Except.ok ((wake_under later last.scope hle).trans (by rw [← hscope]))
      _ = .ok next := by rw [← hall.wakes]

/-- Events that were appended before change nothing. -/
theorem append_known {journal next : Journal} {events again : List Event}
    (h : Numbered journal.seqs) (hok : journal.append enc events = .ok next)
    (hagain : again ⊆ events) : next.append enc again = .ok next := by
  obtain ⟨last, prepared, happends⟩ := append_stages h hok
  have hknown := (foldlM_knows happends.stores).1
  have hprepared : ∃ more, again.mapM (prepareEvent enc) = .ok more ∧ more ⊆ prepared :=
    mapM_subset happends.prepares hagain
  obtain ⟨more, hmore, hsub⟩ := hprepared
  have hnext : ∀ event ∈ more, Known next event := by
    intro event hevent
    rw [happends.wakes, wake_eq]
    exact hknown event (hsub hevent)
  -- The scope was woken up to the same total already.
  have hwake : next.wake next.total = next := by
    have hrow : next.scope = wokenRow last.scope next.total := by
      have hscope := congrArg Journal.scope happends.wakes
      rwa [wake_eq] at hscope
    rw [wake_eq, hrow, wokenRow_twice last.scope (le_refl _), ← hrow]
  rw [append_of_stages hmore (foldlM_known next.total hnext), hwake]

/-! ## Imports -/

/-- An import after an import is one import. -/
theorem stored_append {journal middle next : Journal} {first second : List Event}
    (h : Numbered journal.seqs) (hfirst : stored enc journal first = .ok middle) :
    stored enc middle second = .ok next ↔ stored enc journal (first ++ second) = .ok next := by
  unfold stored at hfirst ⊢
  by_cases hnil : first = []
  · subst hnil
    rw [if_pos rfl] at hfirst
    cases hfirst
    rfl
  · rw [if_neg hnil] at hfirst
    rw [if_neg (List.append_ne_nil_of_left_ne_nil hnil second)]
    by_cases hsecond : second = []
    · rw [if_pos hsecond, hsecond, List.append_nil, hfirst]
    · rw [if_neg hsecond]
      exact append_append h hfirst

/-- **Events that were imported before change nothing.** -/
theorem stored_known {journal next : Journal} {events again : List Event}
    (h : Numbered journal.seqs) (hok : stored enc journal events = .ok next)
    (hagain : again ⊆ events) : stored enc next again = .ok next := by
  unfold stored at hok ⊢
  split_ifs at hok ⊢ with hnil hevents hevents
  · rfl
  · rfl
  · rw [hevents] at hagain
    exact absurd (List.subset_nil.mp hagain) hnil
  · exact append_known h hok hagain

end ExperimentControl.Records
