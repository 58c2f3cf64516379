import ExperimentControl.Json.Shape
import ExperimentControl.Metrics.Observations
import ExperimentControl.Records.Rebuilds

/-!
# The audit of a rebuild

What the database counts over the stored rows is what publication takes out of them. The two agree on
every row whose observations are objects with a text for a name, or none, and the rows that are
written are like that.

* `Shaped` — rows the database reads as publication does, with `counted_shaped`, `emptied_shaped`.
* `Journaled`, with `shaped_of_journaled` — the rows that are written.
* `latest_next`, `publishedEvents_next` — the rows that are published after a rebuild.
* **`audit_exact`** — the audit is what publication takes out.
-/

namespace ExperimentControl.Records

/-! ## Observations of a row -/

/-- The observations of a row. -/
def observations (payload : Json) : List Json :=
  ((payload.get "observations").bind Json.asArray).getD []

/-- How often a name is observed in a row. -/
def occurrences (name : String) (payload : Json) : ℕ :=
  (observations payload).countP fun item => item.index "name" = .string name

/-- How often publication takes a name out of a row. -/
def removed (excluded : List String) (name : String) (payload : Json) : ℕ :=
  occurrences name payload - occurrences name (excludeObservations payload excluded).1

/-- Publication leaves a row without the observations it had. -/
def isLeftEmpty (excluded : List String) (payload : Json) : Bool :=
  observations payload ≠ [] ∧ observations (excludeObservations payload excluded).1 = []

variable {payload item : Json} {excluded : List String} {name : String}

lemma index_eq_get {value : Json} {key : String} :
    value.index key = (value.get key).getD .null := rfl

lemma ofMember_eq (value : Json) (key : String) :
    SqlValue.ofMember value key = SqlValue.ofJson (value.index key) := by
  rw [SqlValue.ofMember, index_eq_get]
  cases value.get key with
  | none => rfl
  | some found => rfl

/-- A name that is not that of an array or an object. -/
lemma isText_ofJson {value : Json} {first : UInt8} {rest : Bytes}
    (hname : utf8 name = first :: rest) (hfirst : first ≠ 91 ∧ first ≠ 123) :
    (SqlValue.ofJson value).isText name = true ↔ value = .string name := by
  cases value with
  | string text => simp [SqlValue.ofJson, SqlValue.isText]
  | array items =>
    refine iff_of_false ?_ (by simp)
    rw [SqlValue.ofJson, SqlValue.isText, decide_eq_true_iff, hname, Json.write]
    · exact fun h => hfirst.1 (List.cons.inj h).1.symm
    all_goals simp
  | object fields =>
    refine iff_of_false ?_ (by simp)
    rw [SqlValue.ofJson, SqlValue.isText, decide_eq_true_iff, hname, Json.write]
    · exact fun h => hfirst.2 (List.cons.inj h).1.symm
    all_goals simp
  | _ => simp [SqlValue.ofJson, SqlValue.isText]

/-- The rows of the two kinds. -/
lemma hasKind_iff : hasKind payload = true ↔
    payload.index "kind" = .string "metrics" ∨ payload.index "kind" = .string DERIVED_KIND := by
  have hmetrics : utf8 "metrics" = 109 :: utf8 "etrics" := by decide
  have hderived : utf8 DERIVED_KIND = 100 :: utf8 "erived_metrics" := by decide
  rw [hasKind, ofMember_eq, SqlValue.isIn, List.any_cons, List.any_cons, List.any_nil, Bool.or_false,
    Bool.or_eq_true, isText_ofJson hmetrics (by decide), isText_ofJson hderived (by decide)]

/-! ## What publication takes out -/

lemma exclude_of_not_hasKind (h : hasKind payload = false) :
    excludeObservations payload excluded = (payload, 0) := by
  rw [← Bool.not_eq_true, hasKind_iff, not_or] at h
  rw [excludeObservations, if_pos h]

lemma exclude_of_hasKind {items : List Json} (h : hasKind payload = true)
    (hitems : payload.get "observations" = some (.array items)) :
    excludeObservations payload excluded =
      (payload.set "observations" (.array (items.filter fun item => !isExcluded excluded item)),
        items.length - (items.filter fun item => !isExcluded excluded item).length) := by
  rw [hasKind_iff, ← not_not (a := _ ∨ _), not_or] at h
  rw [excludeObservations, if_neg h, hitems]
  rfl

lemma observations_of_get {items : List Json}
    (hitems : payload.get "observations" = some (.array items)) : observations payload = items := by
  rw [observations, hitems]
  rfl

lemma get_set {value new : Json} {key : String} {found : Json} (h : value.get key = some found) :
    (value.set key new).get key = some new := by
  cases value with
  | object fields => rw [Json.set_object, Json.get_object, Fields.get_insert_self]
  | _ => cases h

lemma observations_exclude {items : List Json} (h : hasKind payload = true)
    (hitems : payload.get "observations" = some (.array items)) :
    observations (excludeObservations payload excluded).1 =
      items.filter fun item => !isExcluded excluded item := by
  rw [exclude_of_hasKind h hitems]
  exact observations_of_get (get_set hitems)

lemma isExcluded_of_name (hname : item.index "name" = .string name) (hmem : name ∈ excluded) :
    isExcluded excluded item = true := by
  rw [isExcluded, hname]
  exact decide_eq_true hmem

lemma removed_of_not_hasKind (h : hasKind payload = false) : removed excluded name payload = 0 := by
  rw [removed, exclude_of_not_hasKind h, Nat.sub_self]

/-- Every observation with a name in the list is taken out. -/
lemma removed_of_hasKind {items : List Json} (h : hasKind payload = true)
    (hitems : payload.get "observations" = some (.array items)) (hmem : name ∈ excluded) :
    removed excluded name payload = occurrences name payload := by
  have hnone : occurrences name (excludeObservations payload excluded).1 = 0 := by
    rw [occurrences, observations_exclude h hitems, List.countP_eq_zero]
    intro item hitem hname
    rw [List.mem_filter, isExcluded_of_name (of_decide_eq_true hname) hmem] at hitem
    cases hitem.2
  rw [removed, hnone, Nat.sub_zero]

/-- **A row of which nothing is taken out is published as it is.** -/
lemma exclude_unchanged (h : (excludeObservations payload excluded).2 = 0) :
    (excludeObservations payload excluded).1 = payload := by
  cases hkind : hasKind payload with
  | false => rw [exclude_of_not_hasKind hkind]
  | true =>
    cases hitems : (payload.get "observations").bind Json.asArray with
    | none =>
      unfold excludeObservations
      split_ifs with hother
      · rfl
      · rw [hitems]
    | some items =>
      obtain ⟨found, hfound, harray⟩ := Option.bind_eq_some_iff.mp hitems
      have harray : found = .array items := by
        cases found with
        | array others => exact congrArg Json.array (Option.some.inj harray)
        | _ => cases harray
      subst harray
      rw [exclude_of_hasKind hkind hfound] at h ⊢
      have hall : items.filter (fun item => !isExcluded excluded item) = items := by
        refine List.filter_eq_self.mpr (List.length_filter_eq_length_iff.mp ?_)
        have := List.length_filter_le (fun item => !isExcluded excluded item) items
        simp only at h
        omega
      rw [hall]
      cases payload with
      | object fields =>
        rw [Json.set_object]
        exact congrArg Json.object (Fields.insert_of_get hfound)
      | _ => cases hfound

/-! ## What the database counts -/

/-- The name of an observation is a text, or it has none. -/
def Named (item : Json) : Prop :=
  item.isObject = true ∧ (item.index "name" = .null ∨ ∃ name, item.index "name" = .string name)

/-- The observations of a row are an array of objects with a text for a name, or none. -/
def Shaped (payload : Json) : Prop :=
  hasKind payload = true →
    ∃ items, payload.get "observations" = some (.array items) ∧ ∀ item ∈ items, Named item

variable {parse : String → Option Json}

lemma Named.isText (h : Named item) :
    (SqlValue.ofJson (item.index "name")).isText name = decide (item.index "name" = .string name) := by
  rcases h.2 with hname | ⟨found, hname⟩
  · simp [hname, SqlValue.ofJson, SqlValue.isText]
  · simp [hname, SqlValue.ofJson, SqlValue.isText]

lemma Named.isIn (h : Named item) :
    (SqlValue.ofJson (item.index "name")).isIn excluded = isExcluded excluded item := by
  rcases h.2 with hname | ⟨found, hname⟩
  · simp [hname, SqlValue.ofJson, SqlValue.isIn, SqlValue.isText, isExcluded, Json.asStr]
  · rw [Bool.eq_iff_iff]
    simp [hname, SqlValue.ofJson, SqlValue.isIn, SqlValue.isText, isExcluded, Json.asStr]

lemma Named.extract (h : Named item) :
    jsonExtract parse "name" (SqlValue.ofJson item) = .ok (SqlValue.ofJson (item.index "name")) := by
  cases item with
  | object fields => rw [SqlValue.ofJson, jsonExtract, ofMember_eq]; all_goals simp
  | _ => cases h.1

/-- A call for each item that cannot fail. -/
lemma mapM_of_forall {ε : Type*} {α β : Type} {f : α → Except ε β} {g : α → β} {xs : List α}
    (h : ∀ x ∈ xs, f x = .ok (g x)) : xs.mapM f = .ok (xs.map g) := by
  rw [mapM_eq_ok, List.forall₂_map_right_iff, List.forall₂_same]
  exact h

lemma jsonEach_of_get {items : List Json}
    (hitems : payload.get "observations" = some (.array items)) :
    jsonEach payload "observations" = items.map SqlValue.ofJson := by
  rw [jsonEach, hitems]

/-- The names of some observations. -/
lemma mapM_extract {items : List Json} (hnamed : ∀ item ∈ items, Named item) :
    (items.map SqlValue.ofJson).mapM (jsonExtract parse "name") =
      .ok (items.map fun item => SqlValue.ofJson (item.index "name")) := by
  rw [List.mapM_map]
  exact mapM_of_forall fun item hitem => (hnamed item hitem).extract

variable {payloads : List Json}

/-- The observations of the rows of the two kinds. -/
lemma flatMap_jsonEach (hshaped : ∀ payload ∈ payloads, Shaped payload) :
    ((payloads.filter hasKind).flatMap fun payload => jsonEach payload "observations") =
      ((payloads.filter hasKind).flatMap observations).map SqlValue.ofJson := by
  rw [List.map_flatMap]
  refine List.flatMap_congr fun payload hpayload => ?_
  obtain ⟨hmem, hkind⟩ := List.mem_filter.mp hpayload
  obtain ⟨items, hitems, -⟩ := hshaped payload hmem hkind
  rw [jsonEach_of_get hitems, observations_of_get hitems]

lemma named_observations (hshaped : ∀ payload ∈ payloads, Shaped payload) :
    ∀ item ∈ (payloads.filter hasKind).flatMap observations, Named item := by
  intro item hitem
  obtain ⟨payload, hpayload, hitem⟩ := List.mem_flatMap.mp hitem
  obtain ⟨hmem, hkind⟩ := List.mem_filter.mp hpayload
  obtain ⟨items, hitems, hnamed⟩ := hshaped payload hmem hkind
  rw [observations_of_get hitems] at hitem
  exact hnamed item hitem

lemma sum_filter_hasKind {f g : Json → ℕ} : ∀ {payloads : List Json},
    (∀ payload ∈ payloads, hasKind payload = true → f payload = g payload) →
    (∀ payload ∈ payloads, hasKind payload = false → g payload = 0) →
      ((payloads.filter hasKind).map f).sum = (payloads.map g).sum
  | [], _, _ => rfl
  | payload :: payloads, hsame, hzero => by
      rw [List.forall_mem_cons] at hsame hzero
      have ih := sum_filter_hasKind hsame.2 hzero.2
      cases hkind : hasKind payload with
      | true =>
        rw [List.filter_cons_of_pos hkind, List.map_cons, List.map_cons, List.sum_cons,
          List.sum_cons, ih, hsame.1 hkind]
      | false =>
        rw [List.filter_cons_of_neg (by simp [hkind]), List.map_cons, List.sum_cons, ih,
          hzero.1 hkind, Nat.zero_add]

/-- How often publication takes a name out of some rows. -/
def removedFrom (excluded : List String) (payloads : List Json) (name : String) : ℕ :=
  (payloads.map (removed excluded name)).sum

/-- **What is counted of a name** is what publication takes out. -/
theorem counted_shaped (hshaped : ∀ payload ∈ payloads, Shaped payload) :
    countExcluded parse payloads excluded = .ok (excluded.filterMap fun name =>
      if removedFrom excluded payloads name = 0 then none
      else some (name, removedFrom excluded payloads name)) := by
  have hnamed := named_observations hshaped
  rw [countExcluded, flatMap_jsonEach hshaped, mapM_extract hnamed, ok_bind]
  refine congrArg Except.ok (List.filterMap_congr fun name hmem => ?_)
  have hcount : (((payloads.filter hasKind).flatMap observations).map fun item =>
      SqlValue.ofJson (item.index "name")).countP (SqlValue.isText name) =
        removedFrom excluded payloads name := by
    rw [List.countP_map]
    calc ((payloads.filter hasKind).flatMap observations).countP
          (SqlValue.isText name ∘ fun item => SqlValue.ofJson (item.index "name"))
        = ((payloads.filter hasKind).flatMap observations).countP
            fun item => item.index "name" = .string name := by
          refine List.countP_congr fun item hitem => ?_
          rw [Function.comp_apply, (hnamed item hitem).isText]
      _ = ((payloads.filter hasKind).map (occurrences name)).sum := List.countP_flatMap
      _ = removedFrom excluded payloads name := by
          refine sum_filter_hasKind (fun payload hpayload hkind => ?_)
            fun payload _ hkind => removed_of_not_hasKind hkind
          obtain ⟨items, hitems, -⟩ := hshaped payload hpayload hkind
          exact (removed_of_hasKind hkind hitems hmem).symm
  simp only [hcount]

lemma isEmptied_shaped (hkind : hasKind payload = true) (hshaped : Shaped payload) :
    isEmptied parse excluded payload = .ok (isLeftEmpty excluded payload) := by
  obtain ⟨items, hitems, hnamed⟩ := hshaped hkind
  rw [isEmptied, jsonEach_of_get hitems, mapM_extract hnamed, ok_bind]
  refine congrArg Except.ok ?_
  have hall : (items.map fun item => SqlValue.ofJson (item.index "name")).all
      (SqlValue.isIn excluded) = items.all (isExcluded excluded) := by
    rw [List.all_map]
    refine Bool.eq_iff_iff.mpr ?_
    rw [List.all_eq_true, List.all_eq_true]
    refine forall₂_congr fun item hitem => ?_
    rw [Function.comp_apply, (hnamed item hitem).isIn]
  have hlength : jsonArrayLength payload "observations" = some items.length := by
    rw [jsonArrayLength, hitems]
    rfl
  rw [hall, hlength, isLeftEmpty, observations_exclude hkind hitems, observations_of_get hitems,
    Bool.eq_iff_iff, Bool.and_eq_true, decide_eq_true_iff, List.filter_eq_nil_iff, List.all_eq_true]
  refine and_congr ?_ (forall₂_congr fun item _ => by simp)
  rw [Option.any_some, decide_eq_true_iff, List.length_pos_iff]

/-- **The rows that are counted as emptied** are those that publication leaves empty. -/
theorem emptied_shaped (hshaped : ∀ payload ∈ payloads, Shaped payload) :
    emptied parse payloads excluded = .ok (payloads.countP (isLeftEmpty excluded)) := by
  have hrows : ∀ payload ∈ payloads.filter hasKind,
      isEmptied parse excluded payload = .ok (isLeftEmpty excluded payload) := by
    intro payload hpayload
    obtain ⟨hmem, hkind⟩ := List.mem_filter.mp hpayload
    exact isEmptied_shaped hkind (hshaped payload hmem)
  rw [emptied, mapM_of_forall hrows, ok_bind]
  refine congrArg Except.ok ?_
  rw [List.countP_map, Function.id_comp, List.countP_filter]
  refine List.countP_congr fun payload _ => ?_
  cases hkind : hasKind payload with
  | true => simp
  | false => simp [isLeftEmpty, exclude_of_not_hasKind hkind]

/-! ## Sums over names -/

/-- A list of names is a set. -/
lemma nodup_rebuildNames {text : String} (h : rebuildNames text = .ok excluded) :
    excluded.Nodup := by
  obtain ⟨-, -, h⟩ := bind_eq_ok.mp h
  obtain ⟨names, hnames, h⟩ := bind_eq_ok.mp h
  obtain ⟨-, -, h⟩ := bind_eq_ok.mp h
  obtain rfl : names = excluded := Except.ok.inj h
  refine foldlM_invariant (P := List.Nodup) hnames List.nodup_nil fun before line after _ hbefore h => ?_
  unfold addName at h
  simp only at h
  split_ifs at h
  · exact Except.ok.inj h ▸ hbefore
  · obtain ⟨-, -, h⟩ := bind_eq_ok.mp h
    obtain ⟨-, -, h⟩ := bind_eq_ok.mp h
    rw [← Except.ok.inj h, insertName]
    split_ifs with hmem
    · exact hbefore
    · exact (List.perm_orderedInsert _ _ _).nodup_iff.mpr (List.nodup_cons.mpr ⟨hmem, hbefore⟩)

/-- An observation has one name. -/
lemma sum_names (hnodup : excluded.Nodup) (item : Json) :
    (excluded.map fun name => if item.index "name" = .string name then 1 else 0).sum =
      if isExcluded excluded item then 1 else 0 := by
  cases hname : item.index "name" with
  | string found =>
    have hcount : ∀ names : List String, (names.map fun name =>
        if Json.string found = .string name then 1 else 0).sum = names.count found := by
      intro names
      induction names with
      | nil => rfl
      | cons name names ih =>
        rw [List.map_cons, List.sum_cons, ih, List.count_cons, Nat.add_comm]
        refine congrArg _ (if_congr ?_ rfl rfl)
        rw [Json.string.injEq, beq_iff_eq]
        exact eq_comm
    have hexcluded : isExcluded excluded item = decide (found ∈ excluded) := by
      rw [isExcluded, hname]
      rfl
    rw [hcount, hexcluded]
    by_cases hmem : found ∈ excluded
    · rw [List.count_eq_one_of_mem hnodup hmem, if_pos (decide_eq_true hmem)]
    · rw [List.count_eq_zero_of_not_mem hmem, if_neg (by simpa using hmem)]
  | _ => simp [isExcluded, hname, Json.asStr]

/-- The observations with a name in the list, name by name. -/
lemma sum_countP (hnodup : excluded.Nodup) (items : List Json) :
    (excluded.map fun name => items.countP fun item => item.index "name" = .string name).sum =
      items.countP (isExcluded excluded) := by
  induction items with
  | nil => simp
  | cons item items ih =>
    simp only [List.countP_cons, decide_eq_true_eq]
    rw [List.sum_map_add, ih, sum_names hnodup]

/-- What is taken out of a row, name by name. -/
lemma sum_removed (hnodup : excluded.Nodup) (hshaped : Shaped payload) :
    (excluded.map fun name => removed excluded name payload).sum =
      (excludeObservations payload excluded).2 := by
  cases hkind : hasKind payload with
  | false =>
    rw [exclude_of_not_hasKind hkind]
    simp [removed_of_not_hasKind hkind]
  | true =>
    obtain ⟨items, hitems, -⟩ := hshaped hkind
    have hmap : (excluded.map fun name => removed excluded name payload) =
        excluded.map fun name => items.countP fun item => item.index "name" = .string name := by
      refine List.map_congr_left fun name hmem => ?_
      rw [removed_of_hasKind hkind hitems hmem, occurrences, observations_of_get hitems]
    rw [hmap, sum_countP hnodup, exclude_of_hasKind hkind hitems]
    have hlength := List.length_eq_countP_add_countP (isExcluded excluded) (l := items)
    rw [← List.countP_eq_length_filter]
    simp only [Bool.not_eq_true] at hlength
    simp only [Bool.decide_eq_false] at hlength
    omega

/-- What is taken out of all rows, name by name. -/
lemma sum_removedFrom (hnodup : excluded.Nodup) (hshaped : ∀ payload ∈ payloads, Shaped payload) :
    (excluded.map (removedFrom excluded payloads)).sum =
      (payloads.map fun payload => (excludeObservations payload excluded).2).sum := by
  induction payloads with
  | nil =>
    refine List.sum_eq_zero fun count hcount => ?_
    obtain ⟨name, -, rfl⟩ := List.mem_map.mp hcount
    rfl
  | cons payload payloads ih =>
    rw [List.forall_mem_cons] at hshaped
    have hsplit : (excluded.map (removedFrom excluded (payload :: payloads))) =
        excluded.map fun name => removed excluded name payload + removedFrom excluded payloads name := by
      refine List.map_congr_left fun name _ => ?_
      rw [removedFrom, List.map_cons, List.sum_cons, removedFrom]
    rw [hsplit, List.sum_map_add, ih hshaped.2, sum_removed hnodup hshaped.1, List.map_cons,
      List.sum_cons]

section Counts

variable {f : String → ℕ}

/-- The counts of the names that are counted at all. -/
def countsOf (names : List String) (f : String → ℕ) : List (String × ℕ) :=
  names.filterMap fun name => if f name = 0 then none else some (name, f name)

lemma countsOf_eq (names : List String) (f : String → ℕ) :
    countsOf names f = (names.filter fun name => f name ≠ 0).map fun name => (name, f name) := by
  rw [countsOf, ← List.filterMap_eq_map, List.filterMap_filter]
  refine List.filterMap_congr fun name _ => ?_
  by_cases h : f name = 0
  · simp [h]
  · simp [h]

lemma keys_countsOf (names : List String) (f : String → ℕ) :
    (countsOf names f).map Prod.fst = names.filter fun name => f name ≠ 0 := by
  rw [countsOf_eq, List.map_map]
  exact List.map_id _

lemma sum_countsOf (names : List String) (f : String → ℕ) :
    ((countsOf names f).map Prod.snd).sum = (names.map f).sum := by
  induction names with
  | nil => rfl
  | cons name names ih =>
    rw [countsOf, List.filterMap_cons, ← countsOf]
    by_cases h : f name = 0
    · rw [if_pos h, List.map_cons, List.sum_cons, h, Nat.zero_add, ih]
    · rw [if_neg h, List.map_cons, List.map_cons, List.sum_cons, List.sum_cons, ih]

end Counts

/-! ## Rows that are written -/

section Written

variable (print : Metrics.Printer)

/-- A payload as it is written: the observations of a metric record, one derived observation with a
name, or a payload of another kind. -/
inductive Written : Json → Prop
  | metrics {record : Metrics.ObservationInput} {schema : Json} {protocolId source : Option String}
      {results : List Json}
      (observed : Metrics.observationsTyped print record schema protocolId source = .ok results) :
      Written (.object [("kind", .string "metrics"), ("observations", .array results)])
  | derived {sha256 submittedAt name : String} {item : Json}
      (named : item.index "name" = .string name) :
      Written (.object [("kind", .string DERIVED_KIND), ("batch_sha256", .string sha256),
        ("submitted_at", .string submittedAt), ("observations", .array [item])])
  | other {payload : Json} (kind : payload.index "kind" ∉ [.string "metrics", .string DERIVED_KIND]) :
      Written payload

variable {F : Type} (format : FloatFormat F)

/-- A row as it is read back: the normal form of a payload that is written. -/
def Journaled (value : Json) : Prop :=
  ∃ payload, Written print payload ∧ payload.valid = true ∧ value = payload.normal format

variable {print} {format}

lemma named_observationsTyped {record : Metrics.ObservationInput} {schema : Json}
    {protocolId source : Option String} {results : List Json}
    (h : Metrics.observationsTyped print record schema protocolId source = .ok results) :
    ∀ result ∈ results, Named result := by
  obtain ⟨-, -, h⟩ := bind_eq_ok.mp h
  obtain ⟨fields, -, h⟩ := bind_eq_ok.mp h
  obtain ⟨definitions, -, h⟩ := bind_eq_ok.mp h
  intro result hresult
  cases hmetrics : Metrics.metricsOf record with
  | none =>
    simp only [hmetrics] at h
    rw [← Except.ok.inj h, List.mem_singleton] at hresult
    rw [hresult]
    exact ⟨rfl, Or.inl rfl⟩
  | some metrics =>
    simp only [hmetrics] at h
    obtain ⟨metric, -, hmetric⟩ := exists_left (mapM_eq_ok.mp h) hresult
    obtain ⟨definition, -, rfl⟩ := Metrics.observe_eq hmetric
    exact ⟨rfl, Or.inr ⟨metric.name, by rw [index_eq_get, Metrics.get_row.1]; rfl⟩⟩

lemma index_normal {value : Json} (hvalid : value.valid = true) (key : String) :
    (value.normal format).index key = (value.index key).normal format := by
  cases value with
  | object fields =>
    rw [index_eq_get, index_eq_get, Json.get_normal (Json.readable_object.mp hvalid).1]
    cases (Json.object fields).get key with
    | none => rfl
    | some found => rfl
  | _ => rfl

lemma Named.normal (hvalid : item.valid = true) (h : Named item) : Named (item.normal format) := by
  obtain ⟨hobject, hname⟩ := h
  refine ⟨?_, ?_⟩
  · cases item with
    | object fields => rfl
    | _ => cases hobject
  · rw [index_normal hvalid]
    rcases hname with hname | ⟨name, hname⟩
    · exact Or.inl (by rw [hname, Json.normal])
    · exact Or.inr ⟨name, by rw [hname, Json.normal]⟩

lemma shaped_normal {fields : Fields} {items : List Json}
    (hvalid : (Json.object fields).valid = true)
    (hitems : (Json.object fields).get "observations" = some (.array items))
    (hnamed : ∀ item ∈ items, Named item) : Shaped ((Json.object fields).normal format) := by
  intro _
  obtain ⟨hkeys, hall⟩ := Json.readable_object.mp hvalid
  have hmem : ("observations", Json.array items) ∈ fields := (lookup_eq_some_iff hkeys).mp hitems
  have harray := (Json.readableFields_iff fields).mp hall _ hmem
  have hitem := (Json.readableItems_iff items).mp harray
  refine ⟨items.map (Json.normal format), ?_, fun found hfound => ?_⟩
  · rw [Json.get_normal hkeys, hitems, Option.map_some, Json.normal, Json.normalItems_eq]
  · obtain ⟨item, hmem, rfl⟩ := List.mem_map.mp hfound
    exact (hnamed item hmem).normal (hitem item hmem)

lemma string_of_normal {value : Json} {text : String} (h : value.normal format = .string text) :
    value = .string text := by
  cases value with
  | string found => exact h
  | _ => simp [Json.normal] at h

/-- **A row that is written is shaped.** -/
theorem shaped_of_journaled {value : Json} (h : Journaled print format value) : Shaped value := by
  obtain ⟨payload, hwritten, hvalid, rfl⟩ := h
  cases hwritten with
  | metrics observed => exact shaped_normal hvalid rfl (named_observationsTyped observed)
  | @derived sha256 submittedAt name item named =>
    refine shaped_normal hvalid rfl fun found hfound => ?_
    rw [List.mem_singleton.mp hfound]
    refine ⟨?_, Or.inr ⟨name, named⟩⟩
    cases item with
    | object fields => rfl
    | _ => cases named
  | other kind =>
    intro hkind
    rw [hasKind_iff, index_normal hvalid] at hkind
    refine absurd ?_ kind
    rcases hkind with hkind | hkind
    · rw [string_of_normal hkind]
      simp
    · rw [string_of_normal hkind]
      simp

end Written

/-! ## The state after a rebuild -/

variable {read : Bytes → Option Json} {enc : Encoding} {state next : Rebuilds}
  {workspace sha256 names requestedAt : String} {providerEnded : Bool} {rebuild : WandbRebuild}

/-- What a new rebuild does: it stores its list under the next ordinal, beside the rows it has
counted. -/
structure Begun (read : Bytes → Option Json) (parse : String → Option Json) (state next : Rebuilds)
    (names : String) (excluded : List String) (rebuild : WandbRebuild) : Prop where
  audit : auditRows read parse state.journal excluded = .ok rebuild.audit
  rows : next.journal.rows = state.journal.rows
  row : ∃ row, next.rebuilds = state.rebuilds ++ [row] ∧ row.names = names ∧
    row.ordinal = state.latest.elim 1 fun latest => latest.ordinal + 1

lemma begun_of_begin {latest : Option WandbRebuild}
    (hlatest : latest.map WandbRebuild.ordinal = state.latest.map RebuildRow.ordinal)
    (h : begin read enc parse state latest workspace sha256 names excluded requestedAt
      providerEnded = .ok (next, rebuild)) :
    Begun read parse state next names excluded rebuild := by
  obtain ⟨publication, -, h⟩ := bind_eq_ok.mp h
  obtain ⟨-, -, h⟩ := bind_eq_ok.mp h
  obtain ⟨lifecycle, -, h⟩ := bind_eq_ok.mp h
  obtain ⟨-, -, h⟩ := bind_eq_ok.mp h
  obtain ⟨wandbId, -, h⟩ := bind_eq_ok.mp h
  obtain ⟨audit, haudit, h⟩ := bind_eq_ok.mp h
  obtain ⟨written, -, h⟩ := bind_eq_ok.mp h
  obtain ⟨previous, -, h⟩ := bind_eq_ok.mp h
  obtain ⟨-, -, h⟩ := bind_eq_ok.mp h
  obtain ⟨fresh, -, h⟩ := bind_eq_ok.mp h
  obtain ⟨rfl, rfl⟩ := Prod.mk.inj (Except.ok.inj h)
  refine ⟨haudit, rfl, _, rfl, rfl, ?_⟩
  cases hstate : state.latest with
  | none =>
    rw [hstate, Option.map_none, Option.map_eq_none_iff] at hlatest
    rw [hlatest]
    rfl
  | some row =>
    rw [hstate, Option.map_some] at hlatest
    obtain ⟨found, rfl, hordinal⟩ := Option.map_eq_some_iff.mp hlatest
    exact congrArg (· + 1) hordinal

/-- **A rebuild that begins** has read its list, and counted the rows that are stored. -/
theorem begun_of_rebuildWandb (h : rebuildWandb read enc parse state workspace sha256 names
      requestedAt providerEnded = .ok (next, rebuild, true)) :
    ∃ excluded, rebuildNames names = .ok excluded ∧
      Begun read parse state next names excluded rebuild := by
  obtain ⟨-, -, h⟩ := bind_eq_ok.mp h
  obtain ⟨excluded, hexcluded, h⟩ := bind_eq_ok.mp h
  obtain ⟨latest, hlatest, h⟩ := bind_eq_ok.mp h
  refine ⟨excluded, mapError_ok.mp hexcluded, ?_⟩
  have hordinal : latest.map WandbRebuild.ordinal = state.latest.map RebuildRow.ordinal := by
    cases hstate : state.latest with
    | none =>
      rw [hstate] at hlatest
      rw [← Except.ok.inj hlatest]
      rfl
    | some row =>
      rw [hstate, Option.elim_some] at hlatest
      cases hparsed : row.parsed read with
      | error e =>
        rw [hparsed] at hlatest
        cases hlatest
      | ok parsed =>
        rw [hparsed] at hlatest
        obtain ⟨audit, -, hrow⟩ := bind_eq_ok.mp hparsed
        rw [← Except.ok.inj hlatest, ← Except.ok.inj hrow]
        rfl
  split at h
  · cases h
  · obtain ⟨result, hbegin, h⟩ := bind_eq_ok.mp h
    obtain ⟨rfl, hrest⟩ := Prod.mk.inj (Except.ok.inj h)
    obtain rfl := (Prod.mk.inj hrest).1
    exact begun_of_begin hordinal hbegin

lemma latest_append {row : RebuildRow} (hrebuilds : next.rebuilds = state.rebuilds ++ [row])
    (hordinal : row.ordinal = state.latest.elim 1 fun latest => latest.ordinal + 1) :
    next.latest = some row := by
  have hfold : next.latest =
      if state.latest.all (·.ordinal < row.ordinal) then some row else state.latest := by
    rw [Rebuilds.latest, hrebuilds, List.foldl_append]
    rfl
  rw [hfold, if_pos]
  cases hlatest : state.latest with
  | none => rfl
  | some latest =>
    rw [hlatest, Option.elim_some] at hordinal
    rw [Option.all_some, decide_eq_true_iff, hordinal]
    omega

/-- The rows of a page. -/
def page (rows : List PublishedRow) (after : ℤ) (limit : ℕ) : List PublishedRow :=
  (rows.filter fun row => after < row.seq).take limit

lemma mapM_readRow {rows : List (ℤ × String × Bytes)} {all : List PublishedRow}
    (h : rows.mapM (readRow read) = .ok all) (after : ℤ) (limit : ℕ) :
    ((rows.filter fun row => after < row.1).take limit).mapM (readRow read) =
      .ok (page all after limit) := by
  have hrows : List.Forall₂ (fun row published => readRow read row = .ok published ∧
      published.seq = row.1) rows all := by
    refine (mapM_eq_ok.mp h).imp fun row published hread => ⟨hread, ?_⟩
    obtain ⟨payload, -, hpublished⟩ := bind_eq_ok.mp hread
    rw [← Except.ok.inj hpublished]
  have hfilter := List.rel_filter (p := fun row => decide (after < row.1))
    (q := fun row => decide (after < row.seq)) (fun row published hread => by simp [hread.2]) hrows
  exact mapM_eq_ok.mpr ((List.forall₂_take limit hfilter).imp fun _ _ hread => hread.1)

/-- **The rows that are published** after a rebuild are those that are stored, each without what is
excluded. -/
theorem publishedEvents_next (hbegun : Begun read parse state next names excluded rebuild)
    (hnames : rebuildNames names = .ok excluded) {all : List PublishedRow}
    (h : state.journal.rows.mapM (readRow read) = .ok all) (after : ℤ) (limit : ℕ) :
    publishedEvents read next after limit = .ok ((page all after limit).map fun row =>
      { row with payload := (excludeObservations row.payload excluded).1 }) := by
  obtain ⟨row, hrebuilds, hrow, hordinal⟩ := hbegun.row
  rw [publishedEvents, hbegun.rows, mapM_readRow h, ok_bind, asPublished]
  split_ifs with hnone
  · rw [hnone, List.map_nil]
  · rw [latest_append hrebuilds hordinal]
    simp only [hrow, hnames]
    rfl

/-! ## The audit is exact -/

lemma get_countsOf (hnodup : excluded.Nodup) (f : String → ℕ) (name : String) :
    (Json.object ((countsOf excluded f).map fun row => (row.1, Json.ofNat row.2))).get name =
      if name ∈ excluded ∧ f name ≠ 0 then some (.ofNat (f name)) else none := by
  have hkeys : (((countsOf excluded f).map fun row => (row.1, Json.ofNat row.2)).map
      Prod.fst).Nodup := by
    rw [List.map_map]
    change ((countsOf excluded f).map Prod.fst).Nodup
    rw [keys_countsOf]
    exact hnodup.filter _
  rw [Json.get_object]
  split_ifs with h
  · refine (lookup_eq_some_iff hkeys).mpr ?_
    rw [countsOf_eq, List.map_map]
    exact List.mem_map.mpr ⟨name, List.mem_filter.mpr ⟨h.1, decide_eq_true h.2⟩, rfl⟩
  · rw [Fields.get, List.lookup_eq_none_iff]
    intro field hfield
    rw [countsOf_eq, List.map_map] at hfield
    obtain ⟨found, hfound, rfl⟩ := List.mem_map.mp hfield
    rw [List.mem_filter] at hfound
    refine bne_iff_ne.mpr fun hsame => h ?_
    have hsame : name = found := hsame
    exact hsame ▸ ⟨hfound.1, of_decide_eq_true hfound.2⟩

/-- **The audit of a rebuild is exact.** Of every journal and every list of names: what is counted
for a name, and for all of them, is what publication takes out of the stored rows, the rows counted
as emptied are those it leaves empty, and it publishes every row in its sequence, and one of which
nothing is taken out as it is. -/
theorem audit_exact {print : Metrics.Printer} {F : Type} {format : FloatFormat F}
    (hjournal : ∀ row ∈ state.journal.rows, ∀ value, read row.2.2 = some value →
      Journaled print format value)
    (h : rebuildWandb read enc parse state workspace sha256 names requestedAt providerEnded =
      .ok (next, rebuild, true)) :
    ∃ excluded rows, rebuildNames names = .ok excluded ∧
      state.journal.rows.mapM (readRow read) = .ok rows ∧
      (∀ name, (rebuild.audit.index "excluded").get name =
        if name ∈ excluded ∧ removedFrom excluded (rows.map PublishedRow.payload) name ≠ 0 then
          some (.ofNat (removedFrom excluded (rows.map PublishedRow.payload) name))
        else none) ∧
      rebuild.audit.get "excluded_observations" = some (.ofNat
        (rows.map fun row => (excludeObservations row.payload excluded).2).sum) ∧
      rebuild.audit.get "emptied_rows" = some (.ofNat
        (rows.countP fun row => isLeftEmpty excluded row.payload)) ∧
      (∀ after limit, publishedEvents read next after limit = .ok ((page rows after limit).map
        fun row => { row with payload := (excludeObservations row.payload excluded).1 })) ∧
      ∀ row ∈ rows, (excludeObservations row.payload excluded).2 = 0 →
        (excludeObservations row.payload excluded).1 = row.payload := by
  obtain ⟨excluded, hnames, hbegun⟩ := begun_of_rebuildWandb h
  obtain ⟨rows, hrows, haudit⟩ := bind_eq_ok.mp hbegun.audit
  have hnodup := nodup_rebuildNames hnames
  have hshaped : ∀ payload ∈ rows.map PublishedRow.payload, Shaped payload := by
    intro payload hpayload
    obtain ⟨published, hpublished, rfl⟩ := List.mem_map.mp hpayload
    obtain ⟨row, hrow, hread⟩ := exists_left (mapM_eq_ok.mp hrows) hpublished
    obtain ⟨value, hvalue, hpublished⟩ := bind_eq_ok.mp hread
    have hvalue : read row.2.2 = some value := by
      rw [readStored] at hvalue
      cases hread : read row.2.2 with
      | none =>
        rw [hread] at hvalue
        cases hvalue
      | some found =>
        rw [hread] at hvalue
        exact congrArg some (Except.ok.inj hvalue)
    rw [← Except.ok.inj hpublished]
    exact shaped_of_journaled (hjournal row hrow value hvalue)
  simp only [counted_shaped hshaped, emptied_shaped hshaped, ok_bind] at haudit
  have haudit : rebuild.audit = auditDocument excluded
      (countsOf excluded (removedFrom excluded (rows.map PublishedRow.payload)))
      ((rows.map PublishedRow.payload).countP (isLeftEmpty excluded)) :=
    (Except.ok.inj haudit).symm
  refine ⟨excluded, rows, hnames, hrows, fun name => ?_, ?_, ?_, fun after limit =>
    publishedEvents_next hbegun hnames hrows after limit, fun row _ => exclude_unchanged⟩
  · rw [haudit]
    exact get_countsOf hnodup _ name
  · have hsum := sum_removedFrom hnodup hshaped
    rw [List.map_map] at hsum
    rw [haudit]
    refine congrArg (fun total => some (Json.ofNat total)) ?_
    rw [sum_countsOf, hsum]
    rfl
  · rw [haudit]
    refine congrArg (fun total => some (Json.ofNat total)) ?_
    rw [List.countP_map]
    rfl

/-! ## A derived row -/

def derivedItem : Json := .object [("name", .string "loss")]

def samplePayload : Json :=
  .object [("kind", .string DERIVED_KIND), ("batch_sha256", .string "b"),
    ("submitted_at", .string "t"), ("observations", .array [derivedItem])]

/-- The row as it is stored, in the order of its keys. -/
def derivedStored : Json :=
  .object [("batch_sha256", .string "b"), ("kind", .string DERIVED_KIND),
    ("observations", .array [derivedItem]), ("submitted_at", .string "t")]

def finishedState : Json := .object [("remote_finished", .bool true)]

/-- The reader of the two texts. -/
def readDerived (bytes : Bytes) : Option Json :=
  [derivedStored, finishedState].find? fun value => value.write = bytes

def derivedState : Rebuilds where
  journal :=
    { route := .object [("enabled", .bool true)]
      scope := ⟨"s", "p", "r", "a", "w", 1, "SYNCED", none, none, none, 0, 0, 0⟩
      events := []
      eventIds := []
      derivedEvents := [⟨1, "derived.b.1", derivedStored.write, "b"⟩]
      derivedBatches := [] }
  rebuilds := []
  publication := some finishedState.write

def derivedSha256 : String := "0123456789abcdef0123456789abcdef0123456789abcdef0123456789abcdef"

def derivedEncoding : Encoding := ⟨some, fun _ => derivedSha256⟩

theorem audit_exact_derived :
    ∃ next rebuild excluded rows,
      rebuildWandb readDerived derivedEncoding (fun _ => none) derivedState "w" derivedSha256 "loss"
        "t" true = .ok (next, rebuild, true) ∧
      derivedState.journal.rows.mapM (readRow readDerived) = .ok rows ∧
      rebuild.audit.get "emptied_rows" = some (.ofNat
        (rows.countP fun row => isLeftEmpty excluded row.payload)) := by
  have hbegun : (rebuildWandb readDerived derivedEncoding (fun _ => none) derivedState "w"
      derivedSha256 "loss" "t" true).toOption.map (fun result => result.2.2) = some true := by
    decide +kernel
  have hjournal : ∀ row ∈ derivedState.journal.rows, ∀ value, readDerived row.2.2 = some value →
      Journaled (fun _ => "") Encoding.sampleFormat value := by
    intro row hrow value hvalue
    have hrows : derivedState.journal.rows = [(1, "derived.b.1", derivedStored.write)] := rfl
    have hread : readDerived derivedStored.write = some derivedStored := by decide +kernel
    rw [hrows, List.mem_singleton] at hrow
    rw [hrow, hread, Option.some.injEq] at hvalue
    rw [← hvalue]
    exact ⟨samplePayload, .derived rfl, by decide +kernel, by decide +kernel⟩
  cases hrun : rebuildWandb readDerived derivedEncoding (fun _ => none) derivedState "w"
      derivedSha256 "loss" "t" true with
  | error e =>
    rw [hrun] at hbegun
    cases hbegun
  | ok result =>
    obtain ⟨next, rebuild, started⟩ := result
    rw [hrun] at hbegun
    obtain rfl : started = true := Option.some.inj hbegun
    obtain ⟨excluded, rows, -, hrows, -, -, hemptied, -⟩ := audit_exact hjournal hrun
    exact ⟨next, rebuild, excluded, rows, rfl, hrows, hemptied⟩

end ExperimentControl.Records
