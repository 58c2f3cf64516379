import ExperimentControl.Records.Store

/-!
# Confirmation covers only what was seen

Runs of the record store: scopes are opened, rows are appended, publications are confirmed with
whatever evidence the caller brings, and any transaction may be rolled back.

* `History`, `Step` — a run, with the calls made so far.
* `Numbered` — the published sequences are distinct and no greater than their number.
* `apply_grows`, `apply_numbered`, `apply_covered` — what one accepted transaction keeps.
* **`confirmed_was_seen`** — over every run the cursor is monotone, stays within the journal, and
  every sequence below it was shown with the journal's own event id.
-/

namespace ExperimentControl.Records

open Journal

variable (enc : Encoding) (isOne : String → Bool) (queries : JsonQueries)

/-! ## Runs -/

/-- A transaction on one scope. -/
inductive Op where
  | append (events : List Event)
  | appendDerived (sha256 submittedAt : String) (observations : List Json)
  | confirm (proof : RemoteHistoryEvidence) (error : Option String) (now : String)
  | fail (error now : String)
  deriving DecidableEq, Repr

/-- The rows after an accepted transaction. -/
def Journal.apply (journal : Journal) : Op → Except StoreError Journal
  | .append events => journal.append enc events
  | .appendDerived sha256 submittedAt observations =>
      journal.appendDerived enc queries sha256 submittedAt observations
  | .confirm proof error now => journal.confirmPublication enc isOne proof error now
  | .fail error now => .ok (journal.publicationFailure error now)

/-- A scope as it is first inserted. -/
structure Journal.Fresh (journal : Journal) : Prop where
  confirmed : journal.scope.confirmed = 0
  events : journal.events = []
  derivedEvents : journal.derivedEvents = []

/-- A call: the scope and the transaction. -/
structure Call where
  scope : String
  op : Op

/-- The store after some calls. -/
structure History where
  calls : List Call
  store : String → Option Journal

/-- Put the rows of one scope in place. -/
def History.put (history : History) (id : String) (journal : Journal) : String → Option Journal :=
  Function.update history.store id (some journal)

/-- One event of a run. A refused call, or one that fails at any point, is rolled back. -/
inductive Step : History → History → Prop
  | opened {history : History} {id : String} {journal : Journal} :
      history.store id = none → journal.Fresh →
      Step history ⟨history.calls, history.put id journal⟩
  | accepted {history : History} {id : String} {op : Op} {journal next : Journal} :
      history.store id = some journal → journal.apply enc isOne queries op = .ok next →
      Step history ⟨history.calls ++ [⟨id, op⟩], history.put id next⟩
  | rolledBack {history : History} {id : String} {op : Op} :
      Step history ⟨history.calls ++ [⟨id, op⟩], history.store⟩

/-- Any number of steps. -/
abbrev Steps := Relation.ReflTransGen (Step enc isOne queries)

/-- A store without a scope. -/
def History.empty : History := ⟨[], fun _ => none⟩

/-! ## Sequences -/

/-- Distinct sequences from one on, none greater than their number. -/
structure Numbered (seqs : List ℤ) : Prop where
  nodup : seqs.Nodup
  range : ∀ seq ∈ seqs, 1 ≤ seq ∧ seq ≤ seqs.length

lemma Numbered.nil : Numbered [] := ⟨List.nodup_nil, by simp⟩

/-- The next sequences of a numbering number it further, wherever they are put. -/
lemma Numbered.extend {seqs more all : List ℤ} {last : ℤ} (h : Numbered seqs)
    (hmore : more.Nodup) (hnew : ∀ seq ∈ more, last < seq ∧ seq ≤ last + more.length)
    (hall : ∀ seq ∈ seqs, seq ≤ last) (hpos : 0 ≤ last) (hlen : last ≤ seqs.length)
    (hperm : all.Perm (seqs ++ more)) : Numbered all := by
  have hdisjoint : ∀ seq ∈ seqs, ∀ other ∈ more, seq ≠ other := by
    intro seq hseq other hother
    have := hall seq hseq
    have := (hnew other hother).1
    omega
  refine ⟨hperm.nodup_iff.mpr (List.nodup_append.mpr ⟨h.nodup, hmore, hdisjoint⟩), ?_⟩
  intro seq hseq
  rw [hperm.length_eq, List.length_append]
  push_cast
  rcases List.mem_append.mp (hperm.mem_iff.mp hseq) with hm | hm
  · obtain ⟨hlow, hhigh⟩ := h.range seq hm
    omega
  · obtain ⟨hlow, hhigh⟩ := hnew seq hm
    omega

lemma le_maxSeq {seqs : List ℤ} {seq : ℤ} (h : seq ∈ seqs) : seq ≤ maxSeq seqs := by
  unfold maxSeq
  rcases hmax : seqs.max? with _ | top
  · rw [List.max?_eq_none_iff] at hmax
    simp [hmax] at h
  · exact (List.max?_eq_some_iff.mp hmax).2 seq h

lemma maxSeq_cases (seqs : List ℤ) : maxSeq seqs = 0 ∨ maxSeq seqs ∈ seqs := by
  unfold maxSeq
  rcases hmax : seqs.max? with _ | top
  · exact .inl rfl
  · exact .inr (List.max?_eq_some_iff.mp hmax).1

/-- The published sequences of a journal. -/
def Journal.seqs (journal : Journal) : List ℤ := journal.published.map Prod.fst

lemma seqs_eq (journal : Journal) :
    journal.seqs = journal.events.map (·.seq) ++ journal.derivedEvents.map (·.seq) := by
  simp [Journal.seqs, published, Function.comp_def]

/-- No sequence is above the total, and the total is no greater than the number of rows. -/
lemma total_bounds {journal : Journal} (h : Numbered journal.seqs) :
    (∀ seq ∈ journal.seqs, seq ≤ journal.total) ∧ 0 ≤ journal.total ∧
      journal.total ≤ journal.seqs.length := by
  rw [seqs_eq] at h ⊢
  have hpart : ∀ {part : List ℤ}, (∀ seq ∈ part, 1 ≤ seq ∧
      seq ≤ ((journal.events.map (·.seq) ++ journal.derivedEvents.map (·.seq)).length : ℤ)) →
      0 ≤ maxSeq part ∧ maxSeq part ≤
        ((journal.events.map (·.seq) ++ journal.derivedEvents.map (·.seq)).length : ℤ) := by
    intro part hrange
    rcases maxSeq_cases part with hzero | hmem
    · rw [hzero]
      exact ⟨le_refl 0, by positivity⟩
    · obtain ⟨hlow, hhigh⟩ := hrange _ hmem
      exact ⟨by omega, hhigh⟩
  obtain ⟨hevents, hevents'⟩ := hpart
    fun seq hseq => h.range seq (List.mem_append_left _ hseq)
  obtain ⟨hderived, hderived'⟩ := hpart
    fun seq hseq => h.range seq (List.mem_append_right _ hseq)
  refine ⟨fun seq hseq => ?_, le_max_of_le_left hevents, max_le hevents' hderived'⟩
  rcases List.mem_append.mp hseq with hm | hm
  · exact le_max_of_le_left (le_maxSeq hm)
  · exact le_max_of_le_right (le_maxSeq hm)

/-! ## One transaction -/

/-- Rows stay, and the cursor does not go back. -/
structure Grows (before after : Journal) : Prop where
  rows : ∀ row ∈ before.published, row ∈ after.published
  confirmed : before.scope.confirmed ≤ after.scope.confirmed

@[simp] lemma published_wake (journal : Journal) (seq : ℤ) :
    (journal.wake seq).published = journal.published := by
  unfold wake
  split_ifs <;> rfl

@[simp] lemma confirmed_wake (journal : Journal) (seq : ℤ) :
    (journal.wake seq).scope.confirmed = journal.scope.confirmed := by
  unfold wake
  split_ifs <;> rfl

/-- What appending training events keeps, with the last sequence given out. -/
structure Appending (journal : Journal) (state : Journal × ℤ) : Prop where
  rows : ∀ row ∈ journal.published, row ∈ state.1.published
  confirmed : state.1.scope.confirmed = journal.scope.confirmed
  numbered : Numbered state.1.seqs
  last : ∀ seq ∈ state.1.seqs, seq ≤ state.2
  nonneg : 0 ≤ state.2
  within : state.2 ≤ state.1.seqs.length

/-- A training row under the next sequence, after the others. -/
lemma perm_seqs_event (journal : Journal) (row : EventRow) :
    ({ journal with events := journal.events ++ [row] } : Journal).seqs.Perm
      (journal.seqs ++ [row.seq]) := by
  rw [seqs_eq, seqs_eq]
  simp only [List.map_append, List.map_cons, List.map_nil, List.append_assoc]
  exact (List.perm_append_comm).append_left _

lemma appendEvent_keeps {journal : Journal} {state next : Journal × ℤ} {event : PreparedEvent}
    (h : Appending journal state) (hok : appendEvent state event = .ok next) :
    Appending journal next := by
  obtain ⟨current, seq⟩ := state
  unfold appendEvent at hok
  rcases hold : current.eventIds.lookup event.eventId with _ | old
  · simp only [hold] at hok
    split_ifs at hok with hrepeat
    · cases hok
      exact ⟨h.rows, h.confirmed, h.numbered, h.last, h.nonneg, h.within⟩
    · obtain ⟨⟨⟩, -, hok⟩ := bind_eq_ok.mp hok
      cases hok
      have hperm := perm_seqs_event current ⟨seq + 1, event.eventId, event.body, event.dedup⟩
      have hnumbered := h.numbered.extend (List.nodup_singleton (seq + 1))
        (fun other hother => by
          rw [List.mem_singleton] at hother
          simp only [List.length_singleton, Nat.cast_one]
          omega) h.last h.nonneg h.within hperm
      refine ⟨fun row hrow => ?_, h.confirmed, hnumbered, fun other hother => ?_, ?_, ?_⟩
      · have := h.rows row hrow
        simp only [published, List.map_append, List.mem_append] at this ⊢
        tauto
      · have hmem := hperm.mem_iff.mp hother
        rw [List.mem_append, List.mem_singleton] at hmem
        rcases hmem with hm | rfl
        · have := h.last other hm
          simp only
          omega
        · exact le_refl _
      · have := h.nonneg
        simp only at this ⊢
        omega
      · have := h.within
        have hlen := hperm.length_eq
        rw [List.length_append, List.length_singleton] at hlen
        change seq + 1 ≤ _
        have : seq ≤ (current.seqs.length : ℤ) := h.within
        have hcast : (({ current with
            eventIds := current.eventIds ++ [(event.eventId, event.checksum)]
            events := current.events ++
              [⟨seq + 1, event.eventId, event.body, event.dedup⟩] } : Journal).seqs.length : ℤ) =
            current.seqs.length + 1 := by exact_mod_cast hlen
        rw [hcast]
        omega
  · simp only [hold] at hok
    obtain ⟨⟨⟩, -, hok⟩ := bind_eq_ok.mp hok
    cases hok
    exact h

/-- Appending events keeps the rows and the cursor, and numbers the new rows on. -/
lemma append_spec {journal next : Journal} {events : List Event} (h : Numbered journal.seqs)
    (hok : journal.append enc events = .ok next) :
    (∀ row ∈ journal.published, row ∈ next.published) ∧
      next.scope.confirmed = journal.scope.confirmed ∧ Numbered next.seqs := by
  obtain ⟨prepared, -, hok⟩ := bind_eq_ok.mp hok
  obtain ⟨⟨last, seq⟩, hfold, hok⟩ := bind_eq_ok.mp hok
  cases hok
  obtain ⟨hall, hpos, hlen⟩ := total_bounds h
  have hstart : Appending journal (journal, journal.total) :=
    ⟨fun _ hrow => hrow, rfl, h, hall, hpos, hlen⟩
  have hend := foldlM_invariant hfold hstart
    fun state event next _ hstate hnext => appendEvent_keeps hstate hnext
  refine ⟨?_, ?_, ?_⟩
  · simpa using hend.rows
  · simpa using hend.confirmed
  · simpa [Journal.seqs] using hend.numbered

/-- Rows under the next sequences have distinct sequences from the first on. -/
lemma numbered_range (batch : String) : ∀ (rows : List (String × Bytes)) (first : ℤ),
    ((numbered first batch rows).map (·.seq)).Nodup ∧
      (numbered first batch rows).length = rows.length ∧
      ∀ seq ∈ (numbered first batch rows).map (·.seq), first ≤ seq ∧ seq < first + rows.length
  | [], first => by simp [numbered]
  | (eventId, payload) :: rows, first => by
      obtain ⟨hnodup, hlen, hrange⟩ := numbered_range batch rows (first + 1)
      refine ⟨?_, by simp [numbered, hlen], fun seq hseq => ?_⟩
      · rw [numbered, List.map_cons, List.nodup_cons]
        refine ⟨fun hmem => ?_, hnodup⟩
        have hlow : first + 1 ≤ first := (hrange _ hmem).1
        omega
      · rw [numbered, List.map_cons, List.mem_cons] at hseq
        rw [List.length_cons]
        push_cast
        rcases hseq with hfirst | hseq
        · change seq = first at hfirst
          omega
        · have := hrange seq hseq
          omega

/-- A derived batch keeps the rows and the cursor, and numbers its own rows on. -/
lemma appendDerived_spec {journal next : Journal} {sha256 submittedAt : String}
    {observations : List Json} (h : Numbered journal.seqs)
    (hok : journal.appendDerived enc queries sha256 submittedAt observations = .ok next) :
    (∀ row ∈ journal.published, row ∈ next.published) ∧
      next.scope.confirmed = journal.scope.confirmed ∧ Numbered next.seqs := by
  obtain ⟨⟨⟩, -, hok⟩ := bind_eq_ok.mp hok
  obtain ⟨names, -, hok⟩ := bind_eq_ok.mp hok
  obtain ⟨rows, -, hok⟩ := bind_eq_ok.mp hok
  split_ifs at hok with hagain
  · cases hok
    exact ⟨fun _ hrow => hrow, rfl, h⟩
  obtain ⟨lifecycle, -, hok⟩ := bind_eq_ok.mp hok
  obtain ⟨⟨⟩, -, hok⟩ := bind_eq_ok.mp hok
  obtain ⟨training, -, hok⟩ := bind_eq_ok.mp hok
  obtain ⟨⟨⟩, -, hok⟩ := bind_eq_ok.mp hok
  obtain ⟨⟨⟩, -, hok⟩ := bind_eq_ok.mp hok
  cases hok
  obtain ⟨hall, hpos, hlen⟩ := total_bounds h
  obtain ⟨hnodup, hcount, hrange⟩ := numbered_range sha256 rows (journal.total + 1)
  refine ⟨fun row hrow => ?_, by simp, ?_⟩
  · rw [published_wake]
    simp only [published, List.map_append, List.mem_append] at hrow ⊢
    exact hrow.imp_right .inl
  · rw [Journal.seqs, published_wake]
    refine h.extend hnodup (fun seq hseq => ?_) hall hpos hlen ?_
    · have := hrange seq hseq
      rw [List.length_map, hcount]
      omega
    · rw [Journal.seqs, published, published]
      simp [Function.comp_def]

/-- The cursor in the row document is the cursor. -/
lemma cursor_of_rowDocument {journal : Journal} {current : ℤ}
    (h : (journal.rowDocument.index "confirmed").asI64 = some current) :
    current = journal.scope.confirmed := by
  have hindex : journal.rowDocument.index "confirmed" = .ofInt journal.scope.confirmed := rfl
  exact Json.asI64_ofInt (hindex ▸ h)

/-- The total in the row document is the total. -/
lemma total_of_rowDocument {journal : Journal} {total : ℤ}
    (h : (journal.rowDocument.index "total").asI64 = some total) : total = journal.total := by
  have hindex : journal.rowDocument.index "total" = .ofInt journal.total := rfl
  exact Json.asI64_ofInt (hindex ▸ h)

/-- The rows a confirmation reads are published rows. -/
lemma mem_confirmationRows {journal : Journal} {through : ℤ} {row : ℤ × String}
    (h : row ∈ journal.confirmationRows through) : row ∈ journal.published :=
  List.mem_of_mem_filter ((List.perm_insertionSort _ _).mem_iff.mp h)

lemma nodup_confirmationRows {journal : Journal} (h : Numbered journal.seqs) (through : ℤ) :
    ((journal.confirmationRows through).map Prod.fst).Nodup := by
  refine ((List.perm_insertionSort _ _).map Prod.fst).nodup_iff.mpr ?_
  exact h.nodup.sublist (List.filter_sublist.map Prod.fst)

/-- **A confirmation moves the cursor over what it was shown**: to the end of the evidence, which
lies within the journal, and past no sequence that was not observed with the journal's own id. -/
theorem confirmPublication_spec {journal next : Journal} {proof : RemoteHistoryEvidence}
    {error : Option String} {now : String} (h : Numbered journal.seqs)
    (hok : journal.confirmPublication enc isOne proof error now = .ok next) :
    next.published = journal.published ∧ 0 ≤ journal.scope.confirmed ∧
      journal.scope.confirmed ≤ next.scope.confirmed ∧ next.scope.confirmed ≤ journal.total ∧
      ∀ seq, journal.scope.confirmed < seq → seq ≤ next.scope.confirmed →
        ∃ eventId, (seq, eventId) ∈ journal.published ∧ ⟨seq, eventId⟩ ∈ proof.observed := by
  obtain ⟨plan, hplan, hok⟩ := bind_eq_ok.mp hok
  cases hok
  rcases hchecked : confirmationPlan enc isOne journal.rowDocument journal.route
    (journal.confirmationRows proof.through) proof error with e | advance
  · rw [hchecked] at hplan
    cases hplan
  rw [hchecked] at hplan
  obtain rfl : advance = plan := Except.ok.inj hplan
  obtain ⟨rfl, -, current, hadmitted, hcomplete⟩ := confirmationPlan_eq_ok.mp hchecked
  obtain rfl := cursor_of_rowDocument hadmitted.cursor
  obtain ⟨total, htotal, hend⟩ := hadmitted.total
  obtain rfl := total_of_rowDocument htotal
  have hforward := hadmitted.forward
  have hnext : (confirmedRow journal.scope ⟨proof.through, proof.displayVersion⟩ journal.total
      error now).confirmed = proof.through := by
    unfold confirmedRow
    rcases proof.displayVersion with _ | version
    · simpa using hforward
    · simpa using hforward
  refine ⟨rfl, hadmitted.nonneg, by simpa [hnext] using hforward, by simpa [hnext] using hend, ?_⟩
  intro seq hlow hhigh
  simp only [hnext] at hhigh
  have hfirst : firstOf journal.scope.confirmed ≤ seq := by
    unfold firstOf
    split_ifs <;> omega
  obtain ⟨item, hitem, rfl⟩ := hcomplete.every seq hfirst hhigh
  have hown := (hcomplete.own item hitem).2.2
  rw [latest_of_nodup (nodup_confirmationRows h _),
    lookup_eq_some_iff (nodup_confirmationRows h _)] at hown
  exact ⟨item.eventId, mem_confirmationRows hown, hitem⟩

/-! ## Whole runs -/

/-- A sequence was shown with this id by a confirmation of the scope. -/
def Shown (calls : List Call) (id : String) (seq : ℤ) (eventId : String) : Prop :=
  ∃ proof error now, ⟨id, .confirm proof error now⟩ ∈ calls ∧ ⟨seq, eventId⟩ ∈ proof.observed

/-- What holds of a scope at every moment of a run. -/
structure Covered (calls : List Call) (id : String) (journal : Journal) : Prop where
  numbered : Numbered journal.seqs
  nonneg : 0 ≤ journal.scope.confirmed
  within : journal.scope.confirmed ≤ journal.published.length
  seen : ∀ seq, 1 ≤ seq → seq ≤ journal.scope.confirmed →
    ∃ eventId, (seq, eventId) ∈ journal.published ∧ Shown calls id seq eventId

lemma Shown.mono {calls more : List Call} {id : String} {seq : ℤ} {eventId : String}
    (h : Shown calls id seq eventId) : Shown (calls ++ more) id seq eventId := by
  obtain ⟨proof, error, now, hcall, hitem⟩ := h
  exact ⟨proof, error, now, List.mem_append_left _ hcall, hitem⟩

lemma Covered.mono {calls more : List Call} {id : String} {journal : Journal}
    (h : Covered calls id journal) : Covered (calls ++ more) id journal :=
  ⟨h.numbered, h.nonneg, h.within, fun seq hlow hhigh =>
    let ⟨eventId, hrow, hshown⟩ := h.seen seq hlow hhigh
    ⟨eventId, hrow, hshown.mono⟩⟩

lemma length_seqs (journal : Journal) : journal.seqs.length = journal.published.length :=
  List.length_map _

/-- Rows stay within the journal when rows are added and the cursor is not moved. -/
lemma Covered.grown {calls : List Call} {id : String} {journal next : Journal}
    (h : Covered calls id journal) (hrows : ∀ row ∈ journal.published, row ∈ next.published)
    (hcursor : next.scope.confirmed = journal.scope.confirmed) (hnumbered : Numbered next.seqs) :
    Covered calls id next := by
  have hlen : journal.published.length ≤ next.published.length :=
    (h.numbered.nodup.of_map _).subperm hrows |>.length_le
  refine ⟨hnumbered, hcursor ▸ h.nonneg, ?_, fun seq hlow hhigh => ?_⟩
  · have := h.within
    omega
  · obtain ⟨eventId, hrow, hshown⟩ := h.seen seq hlow (hcursor ▸ hhigh)
    exact ⟨eventId, hrows _ hrow, hshown⟩

/-- **One accepted transaction** keeps the rows, does not move the cursor back, and keeps it over
what was shown. -/
theorem apply_covered {calls : List Call} {id : String} {journal next : Journal} {op : Op}
    (h : Covered calls id journal) (hok : journal.apply enc isOne queries op = .ok next) :
    Covered (calls ++ [⟨id, op⟩]) id next ∧ Grows journal next := by
  cases op with
  | append events =>
    obtain ⟨hrows, hcursor, hnumbered⟩ := append_spec enc h.numbered hok
    exact ⟨h.mono.grown hrows hcursor hnumbered, hrows, hcursor.ge⟩
  | appendDerived sha256 submittedAt observations =>
    obtain ⟨hrows, hcursor, hnumbered⟩ := appendDerived_spec enc queries h.numbered hok
    exact ⟨h.mono.grown hrows hcursor hnumbered, hrows, hcursor.ge⟩
  | fail error now =>
    cases hok
    exact ⟨h.mono.grown (fun _ hrow => hrow) rfl h.numbered, fun _ hrow => hrow, le_refl _⟩
  | confirm proof error now =>
    obtain ⟨hrows, hnonneg, hforward, htotal, hshown⟩ :=
      confirmPublication_spec enc isOne h.numbered hok
    have hbounds := total_bounds h.numbered
    rw [length_seqs] at hbounds
    refine ⟨⟨?_, by omega, by rw [hrows]; omega, fun seq hlow hhigh => ?_⟩,
      fun row hrow => by rw [hrows]; exact hrow, hforward⟩
    · simpa [Journal.seqs, hrows] using h.numbered
    · rw [hrows]
      by_cases hold : seq ≤ journal.scope.confirmed
      · obtain ⟨eventId, hrow, hshown⟩ := h.seen seq hlow hold
        exact ⟨eventId, hrow, hshown.mono⟩
      · obtain ⟨eventId, hrow, hitem⟩ := hshown seq (by omega) hhigh
        exact ⟨eventId, hrow, proof, error, now, List.mem_append_right _ (by simp), hitem⟩

/-- A journal that has grown later. -/
lemma Grows.trans {first second third : Journal} (h₁ : Grows first second)
    (h₂ : Grows second third) : Grows first third :=
  ⟨fun row hrow => h₂.rows row (h₁.rows row hrow), h₁.confirmed.trans h₂.confirmed⟩

/-- **One step** keeps every scope covered. -/
lemma step_covered {before after : History} (hstep : Step enc isOne queries before after)
    (h : ∀ id journal, before.store id = some journal → Covered before.calls id journal) :
    ∀ id journal, after.store id = some journal → Covered after.calls id journal := by
  intro other journal hjournal
  cases hstep with
  | @opened id fresh habsent hfresh =>
    simp only [History.put, Function.update_apply] at hjournal
    split_ifs at hjournal with hsame
    · cases hjournal
      have hempty : journal.published = [] := by
        simp [published, hfresh.events, hfresh.derivedEvents]
      refine ⟨by rw [Journal.seqs, hempty]; exact Numbered.nil, hfresh.confirmed.ge, ?_, ?_⟩
      · simp [hempty, hfresh.confirmed]
      · intro seq hlow hhigh
        rw [hfresh.confirmed] at hhigh
        omega
    · exact h other journal hjournal
  | @accepted id op current next hcurrent hok =>
    simp only [History.put, Function.update_apply] at hjournal
    split_ifs at hjournal with hsame
    · cases hjournal
      subst hsame
      exact (apply_covered enc isOne queries (h other current hcurrent) hok).1
    · exact (h other journal hjournal).mono
  | rolledBack => exact (h other journal hjournal).mono

/-- **One step** lets every scope only grow. -/
lemma step_grows {before after : History} (hstep : Step enc isOne queries before after)
    (h : ∀ id journal, before.store id = some journal → Covered before.calls id journal)
    {id : String} {journal : Journal} (hjournal : before.store id = some journal) :
    ∃ next, after.store id = some next ∧ Grows journal next := by
  cases hstep with
  | @opened other fresh habsent hfresh =>
    have hne : id ≠ other := by
      rintro rfl
      rw [habsent] at hjournal
      cases hjournal
    exact ⟨journal, by simp [History.put, hne, hjournal], fun _ hrow => hrow, le_refl _⟩
  | @accepted other op current next hcurrent hok =>
    by_cases hsame : id = other
    · subst hsame
      rw [hjournal] at hcurrent
      cases hcurrent
      exact ⟨next, by simp [History.put],
        (apply_covered enc isOne queries (h id journal hjournal) hok).2⟩
    · exact ⟨journal, by simp [History.put, hsame, hjournal], fun _ hrow => hrow, le_refl _⟩
  | rolledBack => exact ⟨journal, hjournal, fun _ hrow => hrow, le_refl _⟩

/-- **A whole run** keeps every scope covered. -/
theorem steps_covered {history : History} (h : Steps enc isOne queries History.empty history) :
    ∀ id journal, history.store id = some journal → Covered history.calls id journal := by
  induction h with
  | refl =>
    intro id journal hjournal
    cases hjournal
  | tail _ hstep ih => exact step_covered enc isOne queries hstep ih

/-- **The rest of a run** lets every scope only grow. -/
theorem steps_grow {before after : History} (h : Steps enc isOne queries before after)
    (hbefore : ∀ id journal, before.store id = some journal → Covered before.calls id journal)
    {id : String} {journal : Journal} (hjournal : before.store id = some journal) :
    ∃ next, after.store id = some next ∧ Grows journal next := by
  suffices hboth : (∀ id journal, after.store id = some journal → Covered after.calls id journal) ∧
      ∃ next, after.store id = some next ∧ Grows journal next from hboth.2
  induction h with
  | refl => exact ⟨hbefore, journal, hjournal, fun _ hrow => hrow, le_refl _⟩
  | tail _ hstep ih =>
    obtain ⟨hcovered, next, hnext, hgrows⟩ := ih
    obtain ⟨later, hlater, hgrows'⟩ := step_grows enc isOne queries hstep hcovered hnext
    exact ⟨step_covered enc isOne queries hstep hcovered, later, hlater, hgrows.trans hgrows'⟩

/-- **Confirmation covers only what was seen.** Over every run from an empty store, at every
moment and for every scope: the cursor is within the journal, every sequence at or below it was in
some call observed with the journal's own event id, and the cursor never goes back. A plan
advances exactly when the evidence is admitted, the display acknowledgement is in order, and the
observed list is the complete contiguous prefix; any other plan is an error. -/
theorem confirmed_was_seen {history : History}
    (hrun : Steps enc isOne queries History.empty history) :
    (∀ id journal, history.store id = some journal →
      0 ≤ journal.scope.confirmed ∧ journal.scope.confirmed ≤ journal.published.length ∧
      (∀ seq, 1 ≤ seq → seq ≤ journal.scope.confirmed → ∃ eventId,
        journal.published.lookup seq = some eventId ∧ Shown history.calls id seq eventId) ∧
      ∀ later, Steps enc isOne queries history later → ∃ next, later.store id = some next ∧
        journal.scope.confirmed ≤ next.scope.confirmed ∧
        ∀ row ∈ journal.published, row ∈ next.published) ∧
    ∀ state frozenRoute events proof error advance,
      confirmationPlan enc isOne state frozenRoute events proof error = .ok advance ↔
        advance = ⟨proof.through, proof.displayVersion⟩ ∧ Acknowledged proof error ∧
        ∃ current, Admitted enc isOne state frozenRoute proof current ∧
          Complete events (firstOf current) proof.through proof.observed := by
  have hcovered := steps_covered enc isOne queries hrun
  refine ⟨fun id journal hjournal => ?_, fun _ _ _ _ _ _ => confirmationPlan_eq_ok⟩
  have h := hcovered id journal hjournal
  refine ⟨h.nonneg, h.within, fun seq hlow hhigh => ?_, fun later hlater => ?_⟩
  · obtain ⟨eventId, hrow, hshown⟩ := h.seen seq hlow hhigh
    exact ⟨eventId, (lookup_eq_some_iff h.numbered.nodup).mpr hrow, hshown⟩
  · obtain ⟨next, hnext, hgrows⟩ := steps_grow enc isOne queries hlater hcovered hjournal
    exact ⟨next, hnext, hgrows.confirmed, hgrows.rows⟩

/-- A complete prefix that a disabled route refuses: the other checks matter too. -/
theorem complete_prefix_refused :
    Complete [(1, "e")] (firstOf 0) 1 [⟨1, "e"⟩] ∧
      confirmationPlan ⟨fun _ => none, fun _ => ""⟩ (fun _ => false)
        (.object [("wandb_id", .string "w"), ("confirmed", .number "0"), ("total", .number "1")])
        (.object [("enabled", .bool false)]) [(1, "e")]
        ⟨.object [("enabled", .bool false)], "w", 1, [⟨1, "e"⟩], none, none⟩ none =
        .error (.invalid "remote confirmation identity or range") := by
  have hfirst : firstOf 0 = 1 := rfl
  refine ⟨⟨by simp, by simp [hfirst, latest, List.lookup], fun seq hlow hhigh => ?_⟩, by rfl⟩
  rw [hfirst] at hlow
  exact ⟨⟨1, "e"⟩, by simp, by simp only; omega⟩

/-! ## A run of the store -/

/-- The encoding, on the one payload of the sample run. -/
def sampleHash : Encoding where
  floatText := fun _ => none
  sha256 := fun _ => "48315701f41a274c6f1ac6169980623694584a41d96008fd582c1c630edfffd8"

/-- No lifecycle and no training-time metric. -/
def noQueries : JsonQueries where
  latestLifecycle := fun _ => .ok .null
  trainingNames := fun _ => .ok []

/-- A scope as it is first inserted, for an enabled route. -/
def sampleJournal : Journal where
  route := .object [("enabled", .bool true)]
  scope := ⟨"s", "p", "r", "a", "w", 0, "PENDING", none, none, none, 0, 0, 0⟩
  events := []
  eventIds := []
  derivedEvents := []
  derivedBatches := []

/-- The scope after one event. -/
def sampleAppended : Journal :=
  { sampleJournal with
    events := [⟨1, "e", utf8 "\x7b\"kind\":\"diagnostic\"\x7d", none⟩]
    eventIds := [("e", sampleHash.sha256 [])] }

/-- The scope after the event is confirmed. -/
def sampleConfirmed : Journal :=
  { sampleAppended with
    scope := ⟨"s", "p", "r", "a", "w", 1, "SYNCED", none, some "t", some "t", 0, 0, 0⟩ }

/-- The event of the sample run, and the evidence that shows it. -/
def sampleEvents : List Event := [⟨"e", .object [("kind", .string "diagnostic")]⟩]

def sampleProof : RemoteHistoryEvidence :=
  ⟨.object [("enabled", .bool true)], "w", 1, [⟨1, "e"⟩], none, none⟩

/-- The histories of the sample run: the scope is opened, the event appended and confirmed. -/
def sampleOpened : History := ⟨[], History.empty.put "s" sampleJournal⟩

def sampleStored : History :=
  ⟨[⟨"s", .append sampleEvents⟩], sampleOpened.put "s" sampleAppended⟩

def sampleHistory : History :=
  ⟨[⟨"s", .append sampleEvents⟩, ⟨"s", .confirm sampleProof none "t"⟩],
    sampleStored.put "s" sampleConfirmed⟩

lemma sampleHistory_reached :
    Steps sampleHash (fun _ => false) noQueries History.empty sampleHistory := by
  have hopened : Step sampleHash (fun _ => false) noQueries History.empty sampleOpened :=
    .opened rfl ⟨rfl, rfl, rfl⟩
  have hopen : sampleOpened.store "s" = some sampleJournal := rfl
  have hstored : Step sampleHash (fun _ => false) noQueries sampleOpened sampleStored :=
    .accepted hopen rfl
  have hstore : sampleStored.store "s" = some sampleAppended := rfl
  have hconfirmed : Step sampleHash (fun _ => false) noQueries sampleStored sampleHistory :=
    .accepted hstore rfl
  exact ((Relation.ReflTransGen.single hopened).tail hstored).tail hconfirmed

theorem confirmed_was_seen_sampled :
    sampleHistory.store "s" = some sampleConfirmed ∧ sampleConfirmed.scope.confirmed = 1 ∧
      ∃ eventId, sampleConfirmed.published.lookup 1 = some eventId ∧
        Shown sampleHistory.calls "s" 1 eventId := by
  have hstore : sampleHistory.store "s" = some sampleConfirmed := rfl
  have hseen := (confirmed_was_seen sampleHash (fun _ => false) noQueries
    sampleHistory_reached).1 "s" sampleConfirmed hstore
  exact ⟨hstore, rfl, hseen.2.2.1 1 (le_refl 1) (le_refl 1)⟩

end ExperimentControl.Records
