import ExperimentControl.Library.Chunks
import ExperimentControl.Records.StoreRuns
import Std.Data.String.ToNat

/-!
# Sequences of a scope

The three writers of a scope's rows: training events, imports of a metrics file (a sequence of
appends) and derived batches. They share one space of sequences, and each checks other keys.

* `Write`, `Journal.write` — the calls; a refused append changes nothing.
* `before`, `Apart` — the training rows before a batch, and a derived row that names no metric
  of theirs.
* `Exact`, `write_exact` — the invariant, and that every call keeps it.
* **`sequences_exact`** — over every run the sequences are exactly those up to the total, every key
  is stored once, and derived names are apart from the training names before them.
-/

namespace ExperimentControl.Records

open Journal

variable (enc : Encoding) (queries : JsonQueries)

/-! ## Calls of the writers -/

/-- The most events of one append of an import. -/
def IMPORT_BATCH : ℕ := 64

inductive Write where
  | append (events : List Event)
  | appendImport (events : List Event)
  | appendDerived (sha256 submittedAt : String) (observations : List Json)

namespace Journal

/-- Appends one after the other, as far as they are accepted. -/
def appendAll (journal : Journal) : List (List Event) → Journal × Except StoreError Unit
  | [] => (journal, .ok ())
  | batch :: batches =>
      match journal.append enc batch with
      | .ok next => next.appendAll batches
      | .error error => (journal, .error error)

def appendImport (journal : Journal) (events : List Event) : Journal × Except StoreError Unit :=
  journal.appendAll enc (chunks IMPORT_BATCH events)

/-- What a transaction leaves: its rows, or the rows before it. -/
def settled (journal : Journal) (result : Except StoreError Journal) :
    Journal × Except StoreError Unit :=
  match result with
  | .ok next => (next, .ok ())
  | .error error => (journal, .error error)

def write (journal : Journal) : Write → Journal × Except StoreError Unit
  | .append events => journal.settled (journal.append enc events)
  | .appendImport events => journal.appendImport enc events
  | .appendDerived sha256 submittedAt observations =>
      journal.settled (journal.appendDerived enc queries sha256 submittedAt observations)

/-- A run of the writers. -/
def run (journal : Journal) (writes : List Write) : Journal :=
  writes.foldl (fun journal write => (journal.write enc queries write).1) journal

end Journal

/-! ## The rows of a scope -/

/-- The sequences from one to the last. -/
def upTo (last : ℤ) : List ℤ := (List.range last.toNat).map fun n : ℕ => (n : ℤ) + 1

/-- The training payloads stored before a batch. -/
def before (events : List EventRow) (batch : DerivedBatch) : List Bytes :=
  (events.filter fun row => row.seq < batch.first).map (·.payload)

/-- The payload of a derived row. -/
def derivedPayload (sha256 submittedAt : String) (observation : Json) : Json :=
  .object [("kind", .string "derived_metrics"), ("batch_sha256", .string sha256),
    ("submitted_at", .string submittedAt), ("observations", .array [observation])]

/-- The id of a derived row. -/
def derivedId (sha256 : String) (number : ℕ) : String :=
  "derived." ++ sha256 ++ "." ++ toString number

/-- A derived row of a batch names no training metric, and has the id of no training event, of those
stored before the batch. -/
structure Apart (events : List EventRow) (batch : DerivedBatch) (row : DerivedRow) : Prop where
  name : ∃ observation name names,
    encoded enc (derivedPayload batch.sha256 batch.submittedAt observation) = .ok row.payload ∧
      (observation.index "name").asStr = some name ∧
      queries.trainingNames (before events batch) = .ok names ∧ name ∉ names
  id : ∀ other ∈ events, other.seq < batch.first → other.eventId ≠ row.eventId

/-- A row of a batch: it is numbered within the batch, and apart from the training rows before. -/
structure OfBatch (events : List EventRow) (batch : DerivedBatch) (row : DerivedRow) : Prop where
  same : row.batch = batch.sha256
  within : batch.first ≤ row.seq ∧ row.seq ≤ batch.last
  number : ∃ number : ℕ, row.eventId = derivedId batch.sha256 number
  apart : Apart enc queries events batch row

/-- What holds of the rows of a scope, with the last sequence given out. -/
structure Rows (journal : Journal) (last : ℤ) : Prop where
  ids : (journal.eventIds.map Prod.fst).Nodup
  events : (journal.events.map (·.eventId)).Nodup
  known : ∀ row ∈ journal.events, row.eventId ∈ journal.eventIds.map Prod.fst
  batches : (journal.derivedBatches.map (·.sha256)).Nodup
  digests : ∀ batch ∈ journal.derivedBatches, isDigest batch.sha256 = true ∧ batch.first ≤ last
  derived : (journal.derivedEvents.map (·.eventId)).Nodup
  owned : ∀ row ∈ journal.derivedEvents, ∃ batch ∈ journal.derivedBatches,
    OfBatch enc queries journal.events batch row

/-- The rows of a scope between two calls. -/
structure Exact (journal : Journal) : Prop where
  numbered : Numbered journal.seqs
  rows : Rows enc queries journal journal.total

variable {enc queries}

lemma mem_upTo {seq last : ℤ} : seq ∈ upTo last ↔ 1 ≤ seq ∧ seq ≤ last := by
  simp only [upTo, List.mem_map, List.mem_range]
  constructor
  · rintro ⟨n, hn, rfl⟩
    omega
  · rintro ⟨hlow, hhigh⟩
    exact ⟨(seq - 1).toNat, by omega, by omega⟩

/-- Distinct sequences are no more than the last of them. -/
lemma length_le_last {seqs : List ℤ} {last : ℤ} (hnodup : seqs.Nodup) (hpos : 0 ≤ last)
    (h : ∀ seq ∈ seqs, 1 ≤ seq ∧ seq ≤ last) : (seqs.length : ℤ) ≤ last := by
  have hsub : seqs ⊆ upTo last := fun seq hseq => mem_upTo.mpr (h seq hseq)
  have hcount := (hnodup.subperm hsub).length_le
  rw [upTo, List.length_map, List.length_range] at hcount
  omega

/-- The total of a numbered scope is the number of its rows. -/
lemma total_eq_length {journal : Journal} (h : Numbered journal.seqs) :
    journal.total = journal.seqs.length := by
  obtain ⟨hall, hpos, hlen⟩ := total_bounds h
  have hcount := length_le_last h.nodup hpos fun seq hseq => ⟨(h.range seq hseq).1, hall seq hseq⟩
  omega

/-- **The sequences of a numbered scope** are those up to the total, each once. -/
theorem Numbered.perm {journal : Journal} (h : Numbered journal.seqs) :
    journal.seqs.Perm (upTo journal.total) := by
  have htotal := total_eq_length h
  have hsub : journal.seqs ⊆ upTo journal.total := by
    intro seq hseq
    rw [mem_upTo, htotal]
    exact h.range seq hseq
  refine (h.nodup.subperm hsub).perm_of_length_le ?_
  rw [upTo, List.length_map, List.length_range]
  omega

@[simp] lemma seqs_wake (journal : Journal) (seq : ℤ) :
    (journal.wake seq).seqs = journal.seqs := by
  simp [Journal.seqs]

/-- The rows do not depend on the scope's own row. -/
lemma Rows.wake {journal : Journal} {last : ℤ} (h : Rows enc queries journal last) (seq : ℤ) :
    Rows enc queries (journal.wake seq) last := by
  unfold Journal.wake
  split_ifs
  · exact ⟨h.ids, h.events, h.known, h.batches, h.digests, h.derived, h.owned⟩
  · exact h

/-! ## Appending -/

lemma before_append {events : List EventRow} {batch : DerivedBatch} {row : EventRow}
    (h : batch.first ≤ row.seq) : before (events ++ [row]) batch = before events batch := by
  have hnot : ¬row.seq < batch.first := not_lt.mpr h
  simp [before, List.filter_append, hnot]

/-- A derived row stays apart when a training event comes after its batch. -/
lemma OfBatch.append {events : List EventRow} {batch : DerivedBatch} {row : DerivedRow}
    (h : OfBatch enc queries events batch row) {event : EventRow}
    (hafter : batch.first ≤ event.seq) : OfBatch enc queries (events ++ [event]) batch row where
  same := h.same
  within := h.within
  number := h.number
  apart :=
    { name := by
        obtain ⟨observation, name, names, hpayload, hname, hnames, hnot⟩ := h.apart.name
        rw [← before_append hafter] at hnames
        exact ⟨observation, name, names, hpayload, hname, hnames, hnot⟩
      id := fun other hother hbefore => by
        rcases List.mem_append.mp hother with hold | hnew
        · exact h.apart.id other hold hbefore
        · rw [List.mem_singleton.mp hnew] at hbefore
          omega }

lemma lookup_eq_none {ids : List (String × String)} {id : String} :
    ids.lookup id = none ↔ id ∉ ids.map Prod.fst := by
  rw [List.lookup_eq_none_iff]
  simp only [List.mem_map, not_exists, not_and, bne_iff_ne, ne_eq]
  exact ⟨fun h entry hentry hsame => h entry hentry hsame.symm,
    fun h entry hentry hsame => h entry hentry hsame.symm⟩

/-- A fresh key keeps a list of keys free of repeats. -/
lemma nodup_concat {keys : List String} {key : String} (h : keys.Nodup) (hnew : key ∉ keys) :
    (keys ++ [key]).Nodup := by
  rw [List.nodup_append]
  refine ⟨h, by simp, ?_⟩
  rintro other hother same hsame rfl
  obtain rfl : other = key := by simpa using hsame
  exact hnew hother

/-- **One event** keeps the rows of a scope. -/
lemma appendEvent_rows {state next : Journal × ℤ} {event : PreparedEvent}
    (h : Rows enc queries state.1 state.2) (hok : appendEvent state event = .ok next) :
    Rows enc queries next.1 next.2 := by
  obtain ⟨current, seq⟩ := state
  unfold appendEvent at hok
  cases hold : current.eventIds.lookup event.eventId with
  | some old =>
    simp only [hold] at hok
    obtain ⟨⟨⟩, -, hok⟩ := bind_eq_ok.mp hok
    cases hok
    exact h
  | none =>
    simp only [hold] at hok
    have hnew := lookup_eq_none.mp hold
    have hids : ((current.eventIds ++ [(event.eventId, event.checksum)]).map Prod.fst).Nodup := by
      rw [List.map_append]
      exact nodup_concat h.ids hnew
    have hknown : ∀ row ∈ current.events,
        row.eventId ∈ (current.eventIds ++ [(event.eventId, event.checksum)]).map Prod.fst := by
      intro row hrow
      rw [List.map_append]
      exact List.mem_append_left _ (h.known row hrow)
    split_ifs at hok with hrepeat
    · cases hok
      exact ⟨hids, h.events, hknown, h.batches, h.digests, h.derived, h.owned⟩
    · obtain ⟨⟨⟩, -, hok⟩ := bind_eq_ok.mp hok
      cases hok
      have hlater : ∀ batch ∈ current.derivedBatches, batch.first ≤ seq + 1 := by
        intro batch hbatch
        have hfirst : batch.first ≤ seq := (h.digests batch hbatch).2
        omega
      exact
        { ids := hids
          events := by
            rw [List.map_append]
            refine nodup_concat h.events fun hid => ?_
            obtain ⟨row, hrow, hsame : row.eventId = event.eventId⟩ := List.mem_map.mp hid
            exact hnew (hsame ▸ h.known row hrow)
          known := fun row hrow => by
            rcases List.mem_append.mp hrow with hrow | hrow
            · exact hknown row hrow
            · rw [List.mem_singleton.mp hrow]
              simp
          batches := h.batches
          digests := fun batch hbatch => ⟨(h.digests batch hbatch).1, hlater batch hbatch⟩
          derived := h.derived
          owned := fun row hrow => by
            obtain ⟨batch, hbatch, hof⟩ := h.owned row hrow
            exact ⟨batch, hbatch, hof.append (hlater batch hbatch)⟩ }

/-- What an append is: its events are prepared and stored from the total on, up to the new total, and
the scope is woken. -/
structure Appends (enc : Encoding) (journal : Journal) (events : List Event) (next last : Journal)
    (prepared : List PreparedEvent) : Prop where
  prepares : events.mapM (prepareEvent enc) = .ok prepared
  stores : prepared.foldlM appendEvent (journal, journal.total) = .ok (last, next.total)
  wakes : next = last.wake next.total
  keeps : Appending journal (last, next.total)

lemma append_stages {journal next : Journal} {events : List Event} (h : Numbered journal.seqs)
    (hok : journal.append enc events = .ok next) :
    ∃ last prepared, Appends enc journal events next last prepared := by
  have hnumbered := (append_spec enc h hok).2.2
  obtain ⟨prepared, hprepared, hok⟩ := bind_eq_ok.mp hok
  obtain ⟨⟨last, seq⟩, hfold, hok⟩ := bind_eq_ok.mp hok
  cases hok
  obtain ⟨hall, hpos, hlen⟩ := total_bounds h
  have hend := foldlM_invariant (P := Appending journal) hfold
    ⟨fun _ hrow => hrow, rfl, h, hall, hpos, hlen⟩
    fun state event next _ hstate hnext => appendEvent_keeps hstate hnext
  have hrows : Numbered last.seqs := hend.numbered
  have htotal : (last.wake seq).total = seq := by
    have hwithin : seq ≤ last.seqs.length := hend.within
    have hcount := length_le_last hrows.nodup hend.nonneg fun other hother =>
      ⟨(hrows.range other hother).1, hend.last other hother⟩
    rw [total_eq_length hnumbered, seqs_wake]
    exact le_antisymm hcount hwithin
  refine ⟨last, prepared, mapError_ok.mp hprepared, ?_, ?_, ?_⟩
  · rw [hfold, htotal]
  · rw [htotal]
  · rw [htotal]
    exact hend

/-- An append keeps the rows exact. -/
theorem append_exact {journal next : Journal} {events : List Event}
    (h : Exact enc queries journal) (hok : journal.append enc events = .ok next) :
    Exact enc queries next := by
  obtain ⟨last, prepared, happends⟩ := append_stages h.numbered hok
  have hrows := foldlM_invariant (P := fun state : Journal × ℤ => Rows enc queries state.1 state.2)
    happends.stores h.rows fun state event next _ hstate hnext => appendEvent_rows hstate hnext
  refine ⟨(append_spec enc h.numbered hok).2.2, ?_⟩
  have hwoken := hrows.wake next.total
  rwa [← happends.wakes] at hwoken

/-! ## Derived batches -/

/-- The id of a derived row determines its batch and its number. -/
lemma derivedId_inj {sha other : String} {number count : ℕ} (hsha : isDigest sha = true)
    (hother : isDigest other = true) (h : derivedId sha number = derivedId other count) :
    sha = other ∧ number = count := by
  have hplain : ∀ {sha : String}, isDigest sha = true → ∀ c ∈ sha.toList, c ≠ '.' := by
    intro sha hsha c hc hdot
    simp only [isDigest, Bool.decide_and, Bool.and_eq_true, decide_eq_true_eq,
      List.all_eq_true] at hsha
    have := hsha.2 c hc
    rw [hdot] at this
    exact absurd this (by decide)
  have hlist := congrArg String.toList h
  simp only [derivedId, String.toList_append, List.append_assoc, List.append_cancel_left_eq] at hlist
  have hdot : ".".toList = ['.'] := String.toList_ofList
  rw [hdot, List.singleton_append, List.singleton_append] at hlist
  have hcut : ∀ {sha : String} (rest : List Char), isDigest sha = true →
      (sha.toList ++ '.' :: rest).takeWhile (· ≠ '.') = sha.toList := by
    intro sha rest hsha
    rw [List.takeWhile_append_of_pos (by simpa using hplain hsha)]
    simp
  have hsame : sha.toList = other.toList := by
    rw [← hcut (toString number).toList hsha, hlist, hcut _ hother]
  obtain rfl : sha = other := String.toList_injective hsame
  simp only [List.append_cancel_left_eq, List.cons.injEq, true_and] at hlist
  exact ⟨rfl, Nat.repr_injective (String.toList_injective hlist)⟩

/-- The rows under the next sequences are the given ones. -/
lemma mem_numbered {batch : String} {row : DerivedRow} :
    ∀ {rows : List (String × Bytes)} {first : ℤ}, row ∈ numbered first batch rows →
      (row.eventId, row.payload) ∈ rows ∧ row.batch = batch
  | [], first, h => by simp [numbered] at h
  | (eventId, payload) :: rows, first, h => by
      rw [numbered, List.mem_cons] at h
      rcases h with rfl | h
      · exact ⟨List.mem_cons_self, rfl⟩
      · obtain ⟨hmem, hbatch⟩ := mem_numbered h
        exact ⟨List.mem_cons_of_mem _ hmem, hbatch⟩

lemma eventIds_numbered (batch : String) : ∀ (rows : List (String × Bytes)) (first : ℤ),
    (numbered first batch rows).map (·.eventId) = rows.map Prod.fst
  | [], first => rfl
  | (eventId, payload) :: rows, first => by
      rw [numbered, List.map_cons, List.map_cons, eventIds_numbered batch rows (first + 1)]

/-- The row of a numbered observation. -/
def IsRow (enc : Encoding) (sha256 submittedAt : String) (item : Json × ℕ)
    (row : String × Bytes) : Prop :=
  row.1 = derivedId sha256 item.2 ∧
    encoded enc (derivedPayload sha256 submittedAt item.1) = .ok row.2

/-- A batch has one row an observation, in order. -/
lemma derivedRows_eq_ok {sha256 submittedAt : String} {observations : List Json}
    {rows : List (String × Bytes)} (h : derivedRows enc sha256 submittedAt observations = .ok rows) :
    List.Forall₂ (IsRow enc sha256 submittedAt) (observations.zipIdx 1) rows := by
  refine (mapM_eq_ok.mp h).imp fun item row hrow => ?_
  obtain ⟨body, hbody, hrow⟩ := bind_eq_ok.mp hrow
  cases hrow
  exact ⟨rfl, hbody⟩

lemma ids_of_rows {sha256 submittedAt : String} {items : List (Json × ℕ)}
    {rows : List (String × Bytes)} (h : List.Forall₂ (IsRow enc sha256 submittedAt) items rows) :
    rows.map Prod.fst = items.map fun item => derivedId sha256 item.2 := by
  induction h with
  | nil => rfl
  | cons hrow _ ih => rw [List.map_cons, List.map_cons, hrow.1, ih]

/-- The ids of one batch are distinct. -/
lemma nodup_batch {sha256 submittedAt : String} {observations : List Json}
    {rows : List (String × Bytes)} (hsha : isDigest sha256 = true)
    (h : List.Forall₂ (IsRow enc sha256 submittedAt) (observations.zipIdx 1) rows) :
    (rows.map Prod.fst).Nodup := by
  rw [ids_of_rows h, show (fun item : Json × ℕ => derivedId sha256 item.2) =
    derivedId sha256 ∘ Prod.snd from rfl, ← List.map_map, List.zipIdx_map_snd]
  exact List.Nodup.map (fun number count hsame => (derivedId_inj hsha hsha hsame).2)
    List.nodup_range'

/-- What a batch was checked for, against the rows it is put behind. -/
structure Checked (enc : Encoding) (queries : JsonQueries) (journal : Journal) (batch : DerivedBatch)
    (observations : List Json) (rows : List (String × Bytes)) : Prop where
  digest : isDigest batch.sha256 = true
  fresh : batch.sha256 ∉ journal.derivedBatches.map (·.sha256)
  items : List.Forall₂ (IsRow enc batch.sha256 batch.submittedAt) (observations.zipIdx 1) rows
  after : ∀ row ∈ journal.events, row.seq < batch.first
  span : batch.first = journal.total + 1 ∧ batch.last = journal.total + rows.length
  nonempty : rows ≠ []
  apart : ∃ names, queries.trainingNames (journal.events.map (·.payload)) = .ok names ∧
    ∀ observation ∈ observations, ∃ name, (observation.index "name").asStr = some name ∧ name ∉ names
  free : ∀ row ∈ rows, row.1 ∉ journal.eventIds.map Prod.fst

/-- The rows of a checked batch belong to it. -/
lemma Checked.owned {journal : Journal} {batch : DerivedBatch} {observations : List Json}
    {rows : List (String × Bytes)} {last : ℤ} (h : Checked enc queries journal batch observations rows)
    (hjournal : Rows enc queries journal last) {row : DerivedRow}
    (hrow : row ∈ numbered batch.first batch.sha256 rows) :
    OfBatch enc queries journal.events batch row := by
  obtain ⟨hmem, hbatch⟩ := mem_numbered hrow
  obtain ⟨⟨observation, number⟩, hitem, hid, hpayload⟩ := exists_left h.items hmem
  have hobservation : observation ∈ observations := List.fst_mem_of_mem_zipIdx hitem
  obtain ⟨names, hnames, hapart⟩ := h.apart
  obtain ⟨name, hname, hnot⟩ := hapart observation hobservation
  have hseq := (numbered_range batch.sha256 rows batch.first).2.2 row.seq
    (List.mem_map_of_mem hrow)
  have hbefore : before journal.events batch = journal.events.map (·.payload) := by
    rw [before, List.filter_eq_self.mpr (by simpa using h.after)]
  obtain ⟨hfirst, hlast⟩ := h.span
  exact
    { same := hbatch
      within := ⟨hseq.1, by omega⟩
      number := ⟨number, hid⟩
      apart :=
        { name := ⟨observation, name, names, hpayload, hname, hbefore ▸ hnames, hnot⟩
          id := fun other hother _ hsame =>
            h.free _ hmem (hsame ▸ hjournal.known other hother) } }

/-- A checked batch behind the rows of a scope. -/
lemma Rows.batch {journal : Journal} {batch : DerivedBatch} {observations : List Json}
    {rows : List (String × Bytes)} (h : Rows enc queries journal journal.total)
    (hbatch : Checked enc queries journal batch observations rows) :
    Rows enc queries { journal with
      derivedEvents := journal.derivedEvents ++ numbered batch.first batch.sha256 rows
      derivedBatches := journal.derivedBatches ++ [batch] } batch.last := by
  obtain ⟨hfirst, hlast⟩ := hbatch.span
  have hsome : 0 < rows.length := List.length_pos_iff.mpr hbatch.nonempty
  exact
    { ids := h.ids
      events := h.events
      known := h.known
      batches := by
        rw [List.map_append]
        exact nodup_concat h.batches hbatch.fresh
      digests := fun other hother => by
        rcases List.mem_append.mp hother with hold | hnew
        · have := h.digests other hold
          exact ⟨this.1, by omega⟩
        · rw [List.mem_singleton.mp hnew]
          exact ⟨hbatch.digest, by omega⟩
      derived := by
        rw [List.map_append, eventIds_numbered, List.nodup_append]
        refine ⟨h.derived, nodup_batch hbatch.digest hbatch.items, ?_⟩
        rintro id hold other hnew rfl
        -- An old row is named after an old batch, whose digest is another.
        obtain ⟨row, hrow, hid⟩ := List.mem_map.mp hold
        obtain ⟨owner, howner, hof⟩ := h.owned row hrow
        obtain ⟨number, hnumber⟩ := hof.number
        rw [ids_of_rows hbatch.items] at hnew
        obtain ⟨item, -, hitem⟩ := List.mem_map.mp hnew
        have hsame : derivedId owner.sha256 number = derivedId batch.sha256 item.2 := by
          rw [← hnumber, hitem]
          exact hid
        have hsha := (derivedId_inj (h.digests owner howner).1 hbatch.digest hsame).1
        exact hbatch.fresh (hsha ▸ List.mem_map_of_mem howner)
      owned := fun row hrow => by
        rcases List.mem_append.mp hrow with hold | hnew
        · obtain ⟨owner, howner, hof⟩ := h.owned row hold
          exact ⟨owner, List.mem_append_left _ howner, hof⟩
        · exact ⟨batch, List.mem_append_right _ (List.mem_singleton_self _), hbatch.owned h hnew⟩ }

/-- **A derived batch** keeps the rows exact. -/
theorem appendDerived_exact {journal next : Journal} {sha256 submittedAt : String}
    {observations : List Json} (h : Exact enc queries journal)
    (hok : journal.appendDerived enc queries sha256 submittedAt observations = .ok next) :
    Exact enc queries next := by
  have hnumbered := (appendDerived_spec enc queries h.numbered hok).2.2
  obtain ⟨⟨⟩, hvalid, hok⟩ := bind_eq_ok.mp hok
  obtain ⟨names, hnames, hok⟩ := bind_eq_ok.mp hok
  obtain ⟨rows, hrows, hok⟩ := bind_eq_ok.mp hok
  split_ifs at hok with hagain
  · cases hok
    exact h
  obtain ⟨lifecycle, -, hok⟩ := bind_eq_ok.mp hok
  obtain ⟨⟨⟩, -, hok⟩ := bind_eq_ok.mp hok
  obtain ⟨training, htraining, hok⟩ := bind_eq_ok.mp hok
  obtain ⟨⟨⟩, hnot, hok⟩ := bind_eq_ok.mp hok
  obtain ⟨⟨⟩, hfree, hok⟩ := bind_eq_ok.mp hok
  cases hok
  rw [reject_eq_ok] at hvalid hnot hfree
  push Not at hvalid
  have hitems := derivedRows_eq_ok (mapError_ok.mp hrows)
  have hlength : rows.length = observations.length := by
    rw [← hitems.length_eq, List.length_zipIdx]
  obtain ⟨hall, hpos, -⟩ := total_bounds h.numbered
  have hchecked : Checked enc queries journal
      ⟨sha256, submittedAt, journal.total + 1, journal.total + rows.length, rows.length⟩
      observations rows :=
    { digest := by simpa using hvalid.1
      fresh := by simpa using hagain
      items := hitems
      after := fun row hrow => by
        have := hall row.seq (by
          rw [seqs_eq]
          exact List.mem_append_left _ (List.mem_map_of_mem hrow))
        simp only
        omega
      span := ⟨rfl, rfl⟩
      nonempty := by
        rw [← List.length_pos_iff, hlength]
        exact List.length_pos_iff.mpr hvalid.2.1
      apart := ⟨training, htraining, fun observation hobservation => by
        obtain ⟨name, hname, hfound⟩ := exists_right (mapM_eq_ok.mp hnames) hobservation
        refine ⟨name, ?_, fun hin => hnot (List.any_eq_true.mpr ⟨name, hname, by simpa using hin⟩)⟩
        split at hfound
        next text htext => rw [htext, Except.ok.inj hfound]
        next => cases hfound⟩
      free := fun row hrow => by
        have hnone : ¬(journal.eventIds.lookup row.1).isSome = true := fun h =>
          hfree (List.any_eq_true.mpr ⟨row, hrow, h⟩)
        rw [Bool.not_eq_true, Option.isSome_eq_false_iff, Option.isNone_iff_eq_none] at hnone
        exact lookup_eq_none.mp hnone }
  refine ⟨hnumbered, ?_⟩
  have htotal := total_eq_length hnumbered
  have hold := total_eq_length h.numbered
  have hcount := (numbered_range sha256 rows (journal.total + 1)).2.1
  rw [seqs_wake] at htotal
  rw [seqs_eq] at htotal hold
  simp only [List.map_append, List.length_append, List.length_map, hcount] at htotal hold
  have hlast := (h.rows.batch hchecked).wake (journal.total + rows.length)
  rw [htotal]
  convert hlast using 1
  push_cast
  omega

/-! ## Runs -/

lemma settled_exact {journal : Journal} (h : Exact enc queries journal)
    {result : Except StoreError Journal} (hok : ∀ next, result = .ok next → Exact enc queries next) :
    Exact enc queries (journal.settled result).1 := by
  cases result with
  | ok next => exact hok next rfl
  | error error => exact h

lemma appendAll_exact {batches : List (List Event)} {journal : Journal}
    (h : Exact enc queries journal) : Exact enc queries (journal.appendAll enc batches).1 := by
  induction batches generalizing journal with
  | nil => exact h
  | cons batch batches ih =>
    rw [appendAll]
    cases hbatch : journal.append enc batch with
    | ok next => exact ih (append_exact h hbatch)
    | error error => exact h

/-- **One call** of a writer keeps the rows exact. -/
theorem write_exact {journal : Journal} (h : Exact enc queries journal) (write : Write) :
    Exact enc queries (journal.write enc queries write).1 := by
  cases write with
  | append events => exact settled_exact h fun next hok => append_exact h hok
  | appendImport events => exact appendAll_exact h
  | appendDerived sha256 submittedAt observations =>
    exact settled_exact h fun next hok => appendDerived_exact h hok

theorem run_exact {journal : Journal} (h : Exact enc queries journal) (writes : List Write) :
    Exact enc queries (journal.run enc queries writes) := by
  induction writes generalizing journal with
  | nil => exact h
  | cons write writes ih => exact ih (write_exact h write)

/-- A scope without rows. -/
structure Blank (journal : Journal) : Prop extends journal.Fresh where
  eventIds : journal.eventIds = []
  derivedBatches : journal.derivedBatches = []

lemma Blank.exact {journal : Journal} (h : Blank journal) : Exact enc queries journal := by
  have hseqs : journal.seqs = [] := by simp [seqs_eq, h.events, h.derivedEvents]
  exact
    { numbered := hseqs ▸ Numbered.nil
      rows :=
        { ids := by simp [h.eventIds]
          events := by simp [h.events]
          known := by simp [h.events]
          batches := by simp [h.derivedBatches]
          digests := by simp [h.derivedBatches]
          derived := by simp [h.derivedEvents]
          owned := by simp [h.derivedEvents] } }

/-- An import is the run of its batches, up to the first that is refused. -/
lemma appendAll_eq_run (batches : List (List Event)) (journal : Journal) :
    ∃ count ≤ batches.length,
      (journal.appendAll enc batches).1 =
        journal.run enc queries ((batches.take count).map .append) ∧
      ((journal.appendAll enc batches).2 = .ok () ↔ count = batches.length) := by
  induction batches generalizing journal with
  | nil => exact ⟨0, le_refl 0, rfl, by simp [appendAll]⟩
  | cons batch batches ih =>
    rw [appendAll]
    cases hbatch : journal.append enc batch with
    | ok next =>
      obtain ⟨count, hcount, hrun, hdone⟩ := ih next
      refine ⟨count + 1, by simpa using hcount, ?_, by simpa using hdone⟩
      rw [hrun, List.take_succ_cons, List.map_cons, Journal.run, Journal.run, List.foldl_cons]
      simp [Journal.write, settled, hbatch]
    | error error => exact ⟨0, Nat.zero_le _, rfl, by simp⟩

/-- The end of the sample Run, and a metrics event after it. -/
def drainedPayload : Json :=
  .object [("kind", .string "lifecycle"),
    ("data", .object [("phase", .string "METRICS_DRAINED"), ("state", .string "SUCCEEDED")])]

def lossPayload : Json :=
  .object [("kind", .string "metrics"), ("observations", .array [.object [("name", .string "loss")]])]

/-- The digests of the two bodies. -/
def lossHash : Encoding where
  floatText := fun _ => none
  sha256 := fun body =>
    if body.length = 75 then "7f5896b170c463814f0c1df62c5a99eb06d0dd80f3c7b68ab600bb10c1a66b93"
    else "88f2da8088132155da72a6ef7c1d0463f0e46a9abeb3f2d7d99d291f1169cd3f"

/-- What the database reads from the rows of the run. -/
def lossQueries : JsonQueries where
  latestLifecycle := fun _ =>
    .ok (.object [("phase", .string "METRICS_DRAINED"), ("state", .string "SUCCEEDED")])
  trainingNames := fun payloads => .ok (if payloads.length < 2 then [] else ["loss"])

def lossBatch : String := "48315701f41a274c6f1ac6169980623694584a41d96008fd582c1c630edfffd8"

/-- A derived row is stored after the end, and then a training row of its id and name. -/
def lossWrites : List Write :=
  [.append [⟨"drained", drainedPayload⟩],
    .appendDerived lossBatch "t" [.object [("name", .string "loss")]],
    .append [⟨derivedId lossBatch 1, lossPayload⟩]]

end ExperimentControl.Records
