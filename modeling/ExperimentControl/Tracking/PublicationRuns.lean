import ExperimentControl.Tracking.Publication

/-!
# Publication is at most once and never ahead of proof

Runs of publisher cycles over a journal that only grows. A cycle reads evidence that may say
anything, plans over a window of the journal after the confirmed cursor, moves the cursor in the
journal's store, saves the reservations, and only then hands the rows to the tracker; it may stop
after each of these. Sending a lost reservation again is an operation of its own and no cycle.

* `Publisher`, `Cycle`, `Step` — the publisher, one planned cycle, and how far it gets.
* `Safe` — the invariant: what is emitted or reserved has no gap below it.
* `Parts.lt_fresh`, `Parts.reservation_acked` — **nothing is emitted past a reservation**.
* **`published_once`** — over every run: emissions strictly increase, the cursor covers observed
  rows only and never goes back, and display and finish steps wait for everything before them.
-/

namespace ExperimentControl.Tracking

/-- The publisher of a scope: the journal, the cursor and the state in its store, and, for the
statements, the rows handed to the tracker and the rows any evidence has shown. -/
structure Publisher where
  journal : List HistoryEvent
  confirmed : ℤ
  saved : PublicationState
  emitted : List HistoryEvent
  shown : List HistoryEvent

/-- A publisher that has done nothing, over a journal without rows. -/
def Publisher.start : Publisher := ⟨[], 0, .default, [], []⟩

/-- The journal after a cursor. -/
def after (confirmed : ℤ) (journal : List HistoryEvent) : List HistoryEvent :=
  journal.filter fun event => confirmed < event.sequence

/-- The state a cycle starts from: the saved one, brought to the store's cursor. -/
def resume (publisher : Publisher) : Except Error PublicationState := do
  reject (publisher.confirmed < publisher.saved.confirmed) (.state "identity")
  return { publisher.saved with
    confirmed := publisher.confirmed
    sent := publisher.saved.sent.filter fun row => publisher.confirmed < row.1 }

/-- The journal's own id at a sequence. -/
def eventIdAt (journal : List HistoryEvent) (sequence : ℤ) : Option String :=
  (journal.find? fun event => event.sequence = sequence).map HistoryEvent.eventId

/-- A planned cycle over some evidence: the window is the journal after the cursor, or as much of
its front as the shell takes at once. -/
structure Cycle (publisher : Publisher) (evidence : RemoteEvidence) (result : PublicationPlan) :
    Prop where
  planned : ∃ state window terminal version, resume publisher = .ok state ∧
    window <+: after publisher.confirmed publisher.journal ∧
    plan state evidence window (eventIdAt publisher.journal publisher.confirmed) terminal version =
      .ok result

/-- One event of a run. -/
inductive Step : Publisher → Publisher → Prop
  /-- The journal grows at its end. -/
  | grown {publisher : Publisher} {more : List HistoryEvent} :
      Increasing (publisher.journal ++ more) → (∀ event ∈ more, 0 < event.sequence) →
      Step publisher { publisher with journal := publisher.journal ++ more }
  /-- Evidence is read, and the cycle stops before it changes anything. -/
  | read {publisher : Publisher} {evidence : RemoteEvidence} :
      Step publisher { publisher with shown := publisher.shown ++ evidence.history }
  /-- The cycle stops after it has moved the cursor. -/
  | confirmed {publisher : Publisher} {evidence : RemoteEvidence} {result : PublicationPlan} :
      Cycle publisher evidence result →
      Step publisher { publisher with
        confirmed := result.state.confirmed
        shown := publisher.shown ++ evidence.history }
  /-- The cycle saves the reservations and hands out some of the rows, in order: all of them, or
  fewer when it stops or the transport fails. -/
  | reserved {publisher : Publisher} {evidence : RemoteEvidence} {result : PublicationPlan}
      {finished : Bool} {sent : ℕ} :
      Cycle publisher evidence result →
      Step publisher { publisher with
        confirmed := result.state.confirmed
        saved := { result.state with finished }
        emitted := publisher.emitted ++ (emittedRows result.actions).take sent
        shown := publisher.shown ++ evidence.history }

/-- Any number of steps. -/
abbrev Steps := Relation.ReflTransGen Step

/-! ## The invariant -/

/-- What holds at every moment: rows up to the cursor were shown, and what is reserved or emitted
has nothing below it that is neither confirmed nor reserved. -/
structure Safe (publisher : Publisher) : Prop where
  increasing : Increasing publisher.journal
  positive : ∀ event ∈ publisher.journal, 0 < event.sequence
  nonneg : 0 ≤ publisher.confirmed
  cursor : publisher.confirmed = 0 ∨
    ∃ row ∈ publisher.journal, row.sequence = publisher.confirmed
  shown : ∀ event ∈ publisher.journal, event.sequence ≤ publisher.confirmed →
    event ∈ publisher.shown
  own : ∀ row ∈ publisher.saved.sent, ⟨row.1, row.2⟩ ∈ publisher.journal
  noGap : ∀ row ∈ publisher.saved.sent, ∀ event ∈ publisher.journal, event.sequence < row.1 →
    event.sequence ≤ publisher.confirmed ∨
      event.sequence ∈ publisher.saved.sent.map Prod.fst
  covered : ∀ event ∈ publisher.emitted, event ∈ publisher.journal ∧
    (event.sequence ≤ publisher.confirmed ∨
      event.sequence ∈ publisher.saved.sent.map Prod.fst)
  sorted : Increasing publisher.emitted

lemma safe_start : Safe Publisher.start :=
  ⟨List.Pairwise.nil, by simp [Publisher.start], le_refl 0, .inl rfl, by simp [Publisher.start],
    by simp [Publisher.start, PublicationState.default],
    by simp [Publisher.start, PublicationState.default], by simp [Publisher.start],
    List.Pairwise.nil⟩

/-! ## Increasing lists -/

/-- What lies below a row of the front of an increasing list is in the front. -/
lemma Increasing.mem_front {events front : List HistoryEvent} {row event : HistoryEvent}
    (h : Increasing events) (hfront : front <+: events) (hrow : row ∈ front)
    (hevent : event ∈ events) (hlt : event.sequence < row.sequence) : event ∈ front := by
  obtain ⟨back, rfl⟩ := hfront
  rcases List.mem_append.mp hevent with hmem | hmem
  · exact hmem
  · have := (List.pairwise_append.mp h).2.2 row hrow event hmem
    omega

/-- A sequence belongs to one row of an increasing list. -/
lemma Increasing.eq_of_sequence {events : List HistoryEvent} {row event : HistoryEvent}
    (h : Increasing events) (hrow : row ∈ events) (hevent : event ∈ events)
    (hsame : event.sequence = row.sequence) : event = row := by
  have hnodup : (events.map HistoryEvent.sequence).Nodup :=
    (List.pairwise_map.mpr h).imp fun hlt => ne_of_lt hlt
  exact List.inj_on_of_nodup_map hnodup hevent hrow hsame

/-! ## One cycle -/

/-- The parts of a planned cycle: where it starts and what the plan does with its window. -/
structure Parts (publisher : Publisher) (evidence : RemoteEvidence) (result : PublicationPlan)
    (state : PublicationState) (acked fresh rest : List HistoryEvent) : Prop where
  confirmed : state.confirmed = publisher.confirmed
  sent : ∀ row, row ∈ state.sent ↔ row ∈ publisher.saved.sent ∧ publisher.confirmed < row.1
  window : acked ++ fresh ++ rest <+: after publisher.confirmed publisher.journal
  planned : Planned state evidence (acked ++ fresh ++ rest) result acked fresh rest

lemma Cycle.parts {publisher : Publisher} {evidence : RemoteEvidence} {result : PublicationPlan}
    (h : Cycle publisher evidence result) :
    ∃ state acked fresh rest, Parts publisher evidence result state acked fresh rest := by
  obtain ⟨state, window, terminal, version, hresume, hwindow, hplan⟩ := h.planned
  obtain ⟨⟨⟩, -, hresume⟩ := bind_eq_ok.mp hresume
  cases hresume
  obtain ⟨-, -, acked, fresh, rest, hplanned⟩ := plan_planned hplan
  obtain rfl := hplanned.events_eq
  exact ⟨_, acked, fresh, rest, rfl, fun row => by simp, hwindow, hplanned⟩

section Parts

variable {publisher : Publisher} {evidence : RemoteEvidence} {result : PublicationPlan}
  {state : PublicationState} {acked fresh rest : List HistoryEvent}

lemma mem_after {event : HistoryEvent} :
    event ∈ after publisher.confirmed publisher.journal ↔
      event ∈ publisher.journal ∧ publisher.confirmed < event.sequence := by
  simp [after]

lemma Safe.increasing_after (hsafe : Safe publisher) :
    Increasing (after publisher.confirmed publisher.journal) :=
  hsafe.increasing.sublist List.filter_sublist

lemma Parts.mem_journal (h : Parts publisher evidence result state acked fresh rest)
    {event : HistoryEvent} (hevent : event ∈ acked ++ fresh ++ rest) :
    event ∈ publisher.journal ∧ publisher.confirmed < event.sequence :=
  mem_after.mp (h.window.subset hevent)

lemma Parts.fresh_mem (h : Parts publisher evidence result state acked fresh rest)
    {event : HistoryEvent} (hevent : event ∈ fresh) :
    event ∈ publisher.journal ∧ publisher.confirmed < event.sequence :=
  h.mem_journal (by simp [hevent])

lemma Parts.acked_mem (h : Parts publisher evidence result state acked fresh rest)
    {event : HistoryEvent} (hevent : event ∈ acked) :
    event ∈ publisher.journal ∧ publisher.confirmed < event.sequence :=
  h.mem_journal (by simp [hevent])

lemma Parts.increasing_window (hsafe : Safe publisher)
    (h : Parts publisher evidence result state acked fresh rest) :
    Increasing (acked ++ fresh ++ rest) :=
  hsafe.increasing_after.sublist h.window.sublist

/-- A new row comes after every saved reservation. -/
lemma Parts.lt_fresh (hsafe : Safe publisher)
    (h : Parts publisher evidence result state acked fresh rest) {row : ℤ × String}
    (hrow : row ∈ publisher.saved.sent) {event : HistoryEvent} (hevent : event ∈ fresh) :
    row.1 < event.sequence := by
  obtain ⟨hjournal, hafter⟩ := h.fresh_mem hevent
  -- A new row is not reserved, whatever the sequence it would share.
  have hfree : ∀ other ∈ publisher.saved.sent, other.1 ≠ event.sequence := by
    rintro other hother hsame
    refine h.planned.unreserved event hevent (List.mem_map.mpr ⟨other, ?_, hsame⟩)
    exact (h.sent other).mpr ⟨hother, by omega⟩
  by_contra hle
  rcases (not_lt.mp hle).eq_or_lt with hsame | hlt
  · exact hfree row hrow hsame.symm
  · rcases hsafe.noGap row hrow event hjournal hlt with hconfirmed | hreserved
    · omega
    · obtain ⟨other, hother, hsame⟩ := List.mem_map.mp hreserved
      exact hfree other hother hsame

/-- A row before a new one in the journal is acknowledged or new. -/
lemma Parts.before_fresh (hsafe : Safe publisher)
    (h : Parts publisher evidence result state acked fresh rest) {event other : HistoryEvent}
    (hevent : event ∈ fresh) (hother : other ∈ publisher.journal)
    (hafter : publisher.confirmed < other.sequence) (hlt : other.sequence < event.sequence) :
    other ∈ acked ∨ other ∈ fresh := by
  have hfront : acked ++ fresh <+: after publisher.confirmed publisher.journal :=
    (List.prefix_append _ _).trans h.window
  exact List.mem_append.mp (hsafe.increasing_after.mem_front hfront
    (List.mem_append_right _ hevent) (mem_after.mpr ⟨hother, hafter⟩) hlt)

/-- **Nothing is emitted past a reservation**: when a cycle emits a row, every saved reservation
lies below it and is acknowledged. -/
lemma Parts.reservation_acked (hsafe : Safe publisher)
    (h : Parts publisher evidence result state acked fresh rest) {row : ℤ × String}
    (hrow : row ∈ publisher.saved.sent) {event : HistoryEvent} (hevent : event ∈ fresh) :
    row.1 ≤ result.state.confirmed ∧ ⟨row.1, row.2⟩ ∈ publisher.shown ++ evidence.history := by
  have hlt := h.lt_fresh hsafe hrow hevent
  have hown := hsafe.own row hrow
  have habove := h.planned.above
  rw [h.confirmed] at habove
  by_cases hold : row.1 ≤ publisher.confirmed
  · exact ⟨by omega, List.mem_append_left _ (hsafe.shown _ hown hold)⟩
  · rcases h.before_fresh hsafe hevent hown (by simpa using hold) hlt with hacked | hfresh
    · exact ⟨habove.2 _ hacked, List.mem_append_right _ (h.planned.observed _ hacked)⟩
    · have := h.lt_fresh hsafe hrow hfresh
      simp only at this
      omega

/-- The new cursor is at a row of the journal, too. -/
lemma Parts.cursor (hsafe : Safe publisher)
    (h : Parts publisher evidence result state acked fresh rest) :
    result.state.confirmed = 0 ∨
      ∃ row ∈ publisher.journal, row.sequence = result.state.confirmed := by
  rcases h.planned.cursor with hsame | ⟨last, hlast, hcursor⟩
  · rw [hsame, h.confirmed]
    exact hsafe.cursor
  · exact .inr ⟨last, (h.acked_mem hlast).1, hcursor.symm⟩

/-- Every row up to the new cursor was shown. -/
lemma Parts.shown (hsafe : Safe publisher)
    (h : Parts publisher evidence result state acked fresh rest) {event : HistoryEvent}
    (hevent : event ∈ publisher.journal) (hle : event.sequence ≤ result.state.confirmed) :
    event ∈ publisher.shown ++ evidence.history := by
  by_cases hold : event.sequence ≤ publisher.confirmed
  · exact List.mem_append_left _ (hsafe.shown event hevent hold)
  refine List.mem_append_right _ (h.planned.observed event ?_)
  rcases h.planned.cursor with hsame | ⟨last, hlast, hcursor⟩
  · rw [h.confirmed] at hsame
    omega
  have hfront : acked <+: after publisher.confirmed publisher.journal := by
    refine List.IsPrefix.trans ?_ h.window
    rw [List.append_assoc]
    exact List.prefix_append _ _
  have hmem : event ∈ after publisher.confirmed publisher.journal :=
    mem_after.mpr ⟨hevent, by omega⟩
  rcases (hcursor ▸ hle).eq_or_lt with hsame | hlt
  · rwa [hsafe.increasing_after.eq_of_sequence (hfront.subset hlast) hmem hsame]
  · exact hsafe.increasing_after.mem_front hfront hlast hmem hlt

/-- What was confirmed or reserved stays so. -/
lemma Parts.still_covered (h : Parts publisher evidence result state acked fresh rest)
    {sequence : ℤ} (hcovered : sequence ≤ publisher.confirmed ∨
      sequence ∈ publisher.saved.sent.map Prod.fst) :
    sequence ≤ result.state.confirmed ∨ sequence ∈ result.state.sent.map Prod.fst := by
  have habove := h.planned.above
  rw [h.confirmed] at habove
  by_cases hold : sequence ≤ publisher.confirmed
  · exact .inl (by omega)
  obtain ⟨row, hrow, rfl⟩ := List.mem_map.mp (hcovered.resolve_left hold)
  by_cases hacked : row.1 ∈ acked.map HistoryEvent.sequence
  · obtain ⟨event, hevent, hsame⟩ := List.mem_map.mp hacked
    exact .inl (hsame ▸ habove.2 event hevent)
  · refine .inr (List.mem_map.mpr ⟨row, (h.planned.sent_iff row).mpr (.inl ⟨?_, hacked⟩), rfl⟩)
    exact (h.sent row).mpr ⟨hrow, by omega⟩

/-- The rows a cycle emits, or the first of them, continue those emitted before. -/
lemma Parts.sorted (hsafe : Safe publisher)
    (h : Parts publisher evidence result state acked fresh rest) (count : ℕ) :
    Increasing (publisher.emitted ++ fresh.take count) := by
  have hfresh : (fresh.take count).Sublist (acked ++ fresh ++ rest) := by
    refine (List.take_sublist _ _).trans ?_
    exact (List.sublist_append_right _ _).trans (List.sublist_append_left _ _)
  refine List.pairwise_append.mpr ⟨hsafe.sorted, (h.increasing_window hsafe).sublist hfresh, ?_⟩
  rintro old hold event hevent
  have hevent : event ∈ fresh := List.mem_of_mem_take hevent
  rcases (hsafe.covered old hold).2 with hconfirmed | hreserved
  · have := (h.fresh_mem hevent).2
    omega
  · obtain ⟨row, hrow, hsame⟩ := List.mem_map.mp hreserved
    have := h.lt_fresh hsafe hrow hevent
    omega

/-- The reservations after a cycle are rows of the journal. -/
lemma Parts.own (hsafe : Safe publisher)
    (h : Parts publisher evidence result state acked fresh rest) {row : ℤ × String}
    (hrow : row ∈ result.state.sent) : ⟨row.1, row.2⟩ ∈ publisher.journal := by
  rcases (h.planned.sent_iff row).mp hrow with ⟨hold, -⟩ | hnew
  · exact hsafe.own row ((h.sent row).mp hold).1
  · obtain ⟨event, hevent, rfl⟩ := List.mem_map.mp hnew
    exact (h.fresh_mem hevent).1

/-- After a cycle, too, nothing below a reservation is neither confirmed nor reserved. -/
lemma Parts.noGap (hsafe : Safe publisher)
    (h : Parts publisher evidence result state acked fresh rest) {row : ℤ × String}
    (hrow : row ∈ result.state.sent) {event : HistoryEvent} (hevent : event ∈ publisher.journal)
    (hlt : event.sequence < row.1) :
    event.sequence ≤ result.state.confirmed ∨
      event.sequence ∈ result.state.sent.map Prod.fst := by
  rcases (h.planned.sent_iff row).mp hrow with ⟨hold, -⟩ | hnew
  · exact h.still_covered (hsafe.noGap row ((h.sent row).mp hold).1 event hevent hlt)
  · obtain ⟨new, hfresh, rfl⟩ := List.mem_map.mp hnew
    by_cases hbefore : event.sequence ≤ publisher.confirmed
    · exact h.still_covered (.inl hbefore)
    · rcases h.before_fresh hsafe hfresh hevent (by simpa using hbefore) hlt with hacked | hfresh
      · exact .inl (h.planned.above.2 event hacked)
      · refine .inr (List.mem_map.mpr ⟨event.pair, ?_, rfl⟩)
        exact (h.planned.sent_iff _).mpr (.inr (List.mem_map.mpr ⟨event, hfresh, rfl⟩))

end Parts

/-! ## Whole runs -/

/-- **One step** keeps the invariant and does not move the cursor back. -/
theorem step_safe {before later : Publisher} (hsafe : Safe before) (hstep : Step before later) :
    Safe later ∧ before.confirmed ≤ later.confirmed := by
  cases hstep with
  | @grown more hincreasing hpositive =>
    -- What lies at or below a row that was there was there, too.
    have hnew : ∀ event ∈ before.journal ++ more, ∀ row ∈ before.journal,
        event.sequence ≤ row.sequence → event ∈ before.journal := by
      rintro event hevent row hrow hle
      rcases List.mem_append.mp hevent with hmem | hmem
      · exact hmem
      · have := (List.pairwise_append.mp hincreasing).2.2 row hrow event hmem
        omega
    have hpositive : ∀ event ∈ before.journal ++ more, 0 < event.sequence := by
      rintro event hevent
      rcases List.mem_append.mp hevent with hmem | hmem
      · exact hsafe.positive event hmem
      · exact hpositive event hmem
    refine ⟨⟨hincreasing, hpositive, hsafe.nonneg, ?_, ?_, ?_, ?_, ?_, hsafe.sorted⟩, le_refl _⟩
    · exact hsafe.cursor.imp_right fun ⟨row, hrow, hsame⟩ =>
        ⟨row, List.mem_append_left _ hrow, hsame⟩
    · rintro event hevent hle
      rcases hsafe.cursor with hzero | ⟨row, hrow, hsame⟩
      · have := hpositive event hevent
        simp only [hzero] at hle
        omega
      · exact hsafe.shown event (hnew event hevent row hrow (hsame ▸ hle)) hle
    · exact fun row hrow => List.mem_append_left _ (hsafe.own row hrow)
    · rintro row hrow event hevent hlt
      exact hsafe.noGap row hrow event (hnew event hevent _ (hsafe.own row hrow) hlt.le) hlt
    · exact fun event hevent => (hsafe.covered event hevent).imp_left (List.mem_append_left _)
  | read =>
    exact ⟨⟨hsafe.increasing, hsafe.positive, hsafe.nonneg, hsafe.cursor,
      fun event hevent hle => List.mem_append_left _ (hsafe.shown event hevent hle), hsafe.own,
      hsafe.noGap, hsafe.covered, hsafe.sorted⟩, le_refl _⟩
  | @confirmed evidence result hcycle =>
    obtain ⟨state, acked, fresh, rest, h⟩ := hcycle.parts
    have habove := h.planned.above.1
    rw [h.confirmed] at habove
    have hnonneg := hsafe.nonneg
    have hcursor := h.cursor hsafe
    refine ⟨⟨hsafe.increasing, hsafe.positive, by simp only; omega, hcursor,
      fun event hevent hle => h.shown hsafe hevent hle, hsafe.own, ?_, ?_, hsafe.sorted⟩, habove⟩
    · rintro row hrow event hevent hlt
      exact (hsafe.noGap row hrow event hevent hlt).imp_left (·.trans habove)
    · rintro event hevent
      exact (hsafe.covered event hevent).imp_right fun hcovered =>
        hcovered.imp_left (·.trans habove)
  | @reserved evidence result finished count hcycle =>
    obtain ⟨state, acked, fresh, rest, h⟩ := hcycle.parts
    have habove := h.planned.above.1
    rw [h.confirmed] at habove
    have hnonneg := hsafe.nonneg
    have hcursor := h.cursor hsafe
    rw [h.planned.emitted]
    refine ⟨⟨hsafe.increasing, hsafe.positive, by simp only; omega, hcursor,
      fun event hevent hle => h.shown hsafe hevent hle, fun row hrow => h.own hsafe hrow,
      fun row hrow event hevent hlt => h.noGap hsafe hrow hevent hlt, ?_, h.sorted hsafe count⟩,
      habove⟩
    rintro event hevent
    rcases List.mem_append.mp hevent with hold | hnew
    · obtain ⟨hjournal, hcovered⟩ := hsafe.covered event hold
      exact ⟨hjournal, h.still_covered hcovered⟩
    · have hnew : event ∈ fresh := List.mem_of_mem_take hnew
      refine ⟨(h.fresh_mem hnew).1, .inr ?_⟩
      refine List.mem_map.mpr ⟨event.pair, ?_, rfl⟩
      exact (h.planned.sent_iff _).mpr (.inr (List.mem_map.mpr ⟨event, hnew, rfl⟩))

/-- **A whole run** keeps the invariant. -/
theorem steps_safe {before later : Publisher} (hsafe : Safe before) (hsteps : Steps before later) :
    Safe later ∧ before.confirmed ≤ later.confirmed := by
  induction hsteps with
  | refl => exact ⟨hsafe, le_refl _⟩
  | tail _ hstep ih =>
    obtain ⟨hmiddle, hle⟩ := ih
    obtain ⟨hlater, hle'⟩ := step_safe hmiddle hstep
    exact ⟨hlater, hle.trans hle'⟩

/-- **Publication is at most once and never runs ahead of proof.** At every moment of every run
from the default state: the rows emitted are rows of the journal in strictly increasing sequence,
each at most once; every journal row at or below the confirmed cursor was shown by remote evidence
with its exact sequence and id; and the cursor never goes back. In every cycle, whatever its
evidence: a row is emitted only when every reservation of an earlier cycle is acknowledged and lies
below it, and a display or finish step is produced only when every journal row up to its `through`
is confirmed. -/
theorem published_once {publisher : Publisher} (hrun : Steps Publisher.start publisher) :
    Increasing publisher.emitted ∧ (∀ event ∈ publisher.emitted, event ∈ publisher.journal) ∧
    (∀ event ∈ publisher.journal, event.sequence ≤ publisher.confirmed →
      event ∈ publisher.shown) ∧
    (∀ later, Steps publisher later → publisher.confirmed ≤ later.confirmed) ∧
    ∀ evidence result, Cycle publisher evidence result →
      publisher.confirmed ≤ result.state.confirmed ∧
      (∀ event ∈ emittedRows result.actions, ∀ row ∈ publisher.saved.sent,
        row.1 < event.sequence ∧ row.1 ≤ result.state.confirmed ∧
        ⟨row.1, row.2⟩ ∈ publisher.shown ++ evidence.history) ∧
      ∀ through, Closes result.actions through → ∀ event ∈ publisher.journal,
        event.sequence ≤ through → event.sequence ≤ result.state.confirmed ∧
          event ∈ publisher.shown ++ evidence.history := by
  have hsafe := (steps_safe safe_start hrun).1
  refine ⟨hsafe.sorted, fun event hevent => (hsafe.covered event hevent).1, hsafe.shown,
    fun later hlater => (steps_safe hsafe hlater).2, fun evidence result hcycle => ?_⟩
  obtain ⟨state, acked, fresh, rest, h⟩ := hcycle.parts
  refine ⟨h.confirmed ▸ h.planned.above.1, ?_, ?_⟩
  · rintro event hevent row hrow
    rw [h.planned.emitted] at hevent
    exact ⟨h.lt_fresh hsafe hrow hevent, h.reservation_acked hsafe hrow hevent⟩
  · rintro through hcloses event hevent hle
    have hconfirmed := hle.trans (h.planned.closed through hcloses).2
    exact ⟨hconfirmed, h.shown hsafe hevent hconfirmed⟩

/-! ## A run of the publisher -/

/-- The one row of the sample journal. -/
def sampleRow : HistoryEvent := ⟨1, "e"⟩

/-- The publisher of the sample: the row is there, then emitted, then confirmed. -/
def sampleGrown : Publisher := { Publisher.start with journal := [sampleRow] }

def sampleEmitted : Publisher :=
  { sampleGrown with saved := ⟨0, [(1, "e")], none, none, false⟩, emitted := [sampleRow] }

def sampleConfirmed : Publisher :=
  { sampleEmitted with confirmed := 1, saved := ⟨1, [], none, none, false⟩, shown := [sampleRow] }

lemma sampleConfirmed_reached : Steps Publisher.start sampleConfirmed := by
  have hgrown : Step Publisher.start sampleGrown :=
    .grown (List.pairwise_singleton _ _) (by simp [sampleRow])
  have hfirst : Cycle sampleGrown ⟨[], some (-1), none, none⟩
      ⟨⟨0, [(1, "e")], none, none, false⟩, 1, [.emitHistory 1 "e"], .pending 1 1⟩ :=
    ⟨⟨_, [sampleRow], false, 4, rfl, List.prefix_rfl, rfl⟩⟩
  have hemitted : Step sampleGrown sampleEmitted :=
    @Step.reserved sampleGrown _ _ false 1 hfirst
  have hsecond : Cycle sampleEmitted ⟨[sampleRow], some 0, none, none⟩
      ⟨⟨1, [], none, none, false⟩, 1, [.publishDisplay 1 4], .displayAckPending 1 4⟩ :=
    ⟨⟨_, [sampleRow], false, 4, rfl, List.prefix_rfl, rfl⟩⟩
  have hconfirmed : Step sampleEmitted sampleConfirmed :=
    @Step.reserved sampleEmitted _ _ false 0 hsecond
  exact ((Relation.ReflTransGen.single hgrown).tail hemitted).tail hconfirmed

theorem published_once_sampled :
    sampleConfirmed.emitted = [sampleRow] ∧ sampleConfirmed.confirmed = 1 ∧
      Increasing sampleConfirmed.emitted ∧ sampleRow ∈ sampleConfirmed.shown := by
  obtain ⟨hsorted, -, hshown, -⟩ := published_once sampleConfirmed_reached
  exact ⟨rfl, rfl, hsorted, hshown sampleRow List.mem_cons_self (le_refl 1)⟩

end ExperimentControl.Tracking
