import ExperimentControl.Library.Assoc
import ExperimentControl.Library.Fallible
import ExperimentControl.Records.Event

/-!
# The confirmation plan

The decision that moves the confirmed cursor of a scope: remote evidence is taken only for the
frozen publication identity, in range, and when it shows every sequence of the prefix once with
the journal's own event id.

* `confirmationPlan` — the decision as the code makes it.
* `Admitted`, `Acknowledged`, `Complete` — its three conditions.
* **`confirmationPlan_eq_ok`** — the plan advances exactly under them.
-/

namespace ExperimentControl.Records

structure RemoteObservation where
  sequence : ℤ
  eventId : String
  deriving DecidableEq, Repr

structure RemoteHistoryEvidence where
  route : Json
  wandbId : String
  through : ℤ
  observed : List RemoteObservation
  displayVersion : Option ℤ
  displayThrough : Option ℤ
  deriving DecidableEq, Repr

structure CursorAdvance where
  confirmed : ℤ
  displayVersion : Option ℤ
  deriving DecidableEq, Repr

/-- The version of the display a confirmation may acknowledge. -/
def DISPLAY_VERSION : ℤ := 4

/-- Whether a frozen route publishes. `isOne` tells the number texts that read as the float 1. -/
def routeEnabled (isOne : String → Bool) (route : Json) : Bool :=
  match route.get "enabled" with
  | some (.bool value) => value
  | some (.number text) => isOne text
  | _ => false

/-- An observed sequence joins those seen before: in range, and new. -/
def remember (through : ℤ) (seen : List (ℤ × String)) (item : RemoteObservation) :
    Except Error (List (ℤ × String)) := do
  reject (item.sequence ≤ 0 ∨ through < item.sequence ∨ item.sequence ∈ seen.map Prod.fst)
    (.invalid "remote sequence evidence")
  return seen ++ [(item.sequence, item.eventId)]

/-- The first sequence a confirmation must show again. -/
def firstOf (current : ℤ) : ℤ := if current = 0 then 1 else current

/-- The number of sequences a confirmation must show. -/
def expectedCount (first through : ℤ) : ℤ :=
  if through < first then 0 else through - first + 1

/-- The display acknowledgement of a confirmation. -/
def acknowledge (proof : RemoteHistoryEvidence) (error : Option String) : Except Error Unit :=
  match proof.displayVersion, proof.displayThrough with
  | none, none => .ok ()
  | some version, some through =>
      reject (¬(version = DISPLAY_VERSION ∧ through = proof.through ∧ error = none))
        (.invalid "remote display acknowledgement")
  | _, _ => .error (.invalid "remote display acknowledgement")

section Plan

variable (enc : Encoding) (isOne : String → Bool)

def confirmationPlan (state frozenRoute : Json) (events : List (ℤ × String))
    (proof : RemoteHistoryEvidence) (error : Option String) : Except Error CursorAdvance := do
  let some current := (state.index "confirmed").asI64.filter (0 ≤ ·)
    | .error (.invalid "confirmed cursor")
  let some total := (state.index "total").asI64.filter (current ≤ ·)
    | .error (.invalid "journal total")
  reject (routeEnabled isOne frozenRoute = false)
    (.invalid "remote confirmation identity or range")
  let proven ← encoded enc proof.route
  let frozen ← encoded enc frozenRoute
  reject (proven ≠ frozen ∨ (state.index "wandb_id").asStr ≠ some proof.wandbId ∨
      proof.through < current ∨ total < proof.through)
    (.invalid "remote confirmation identity or range")
  let seen ← proof.observed.foldlM (remember proof.through) []
  let first := firstOf current
  let expected := latest (events.filter fun event => first ≤ event.1 ∧ event.1 ≤ proof.through)
  reject ((expected.length : ℤ) ≠ expectedCount first proof.through ∨
      (seen.length : ℤ) ≠ expectedCount first proof.through ∨
      expected.any fun event => seen.lookup event.1 ≠ some event.2)
    (.invalid "remote history is not a complete exact prefix")
  acknowledge proof error
  return ⟨proof.through, proof.displayVersion⟩

/-! ## The conditions of an advance -/

/-- The publication is enabled, the evidence is of its frozen identity, and it ends between the
cursor and the end of the journal. -/
structure Admitted (state frozenRoute : Json) (proof : RemoteHistoryEvidence) (current : ℤ) :
    Prop where
  cursor : (state.index "confirmed").asI64 = some current
  nonneg : 0 ≤ current
  total : ∃ total, (state.index "total").asI64 = some total ∧ proof.through ≤ total
  enabled : routeEnabled isOne frozenRoute = true
  route : ∃ written, enc.bytes proof.route = .ok written ∧ enc.bytes frozenRoute = .ok written
  wandb : (state.index "wandb_id").asStr = some proof.wandbId
  forward : current ≤ proof.through

/-- The display is left out, or acknowledged for the same prefix by an attempt without an error. -/
def Acknowledged (proof : RemoteHistoryEvidence) (error : Option String) : Prop :=
  (proof.displayVersion = none ∧ proof.displayThrough = none) ∨
    (proof.displayVersion = some DISPLAY_VERSION ∧ proof.displayThrough = some proof.through ∧
      error = none)

/-- The observed list is the complete contiguous prefix `first..=through` of the journal: every
sequence once, each with the journal's own event id. -/
structure Complete (events : List (ℤ × String)) (first through : ℤ)
    (observed : List RemoteObservation) : Prop where
  once : (observed.map RemoteObservation.sequence).Nodup
  own : ∀ item ∈ observed, first ≤ item.sequence ∧ item.sequence ≤ through ∧
    (latest events).lookup item.sequence = some item.eventId
  every : ∀ sequence, first ≤ sequence → sequence ≤ through →
    ∃ item ∈ observed, item.sequence = sequence

end Plan

/-! ## What the evidence is taken for -/

/-- The pairs of some observations. -/
def pairsOf (observed : List RemoteObservation) : List (ℤ × String) :=
  observed.map fun item => (item.sequence, item.eventId)

/-- The observed sequences are remembered as they come, when they are in range and new. -/
lemma foldlM_remember {through : ℤ} : ∀ {observed : List RemoteObservation}
    {before seen : List (ℤ × String)},
    observed.foldlM (remember through) before = .ok seen ↔
      (∀ item ∈ observed, 0 < item.sequence ∧ item.sequence ≤ through ∧
        item.sequence ∉ before.map Prod.fst) ∧
      (observed.map RemoteObservation.sequence).Nodup ∧ seen = before ++ pairsOf observed
  | [], before, seen => by
      simp [pairsOf, pure, Except.pure, eq_comm]
  | item :: rest, before, seen => by
      rw [foldlM_cons_eq_ok]
      constructor
      · rintro ⟨next, hnext, hrest⟩
        obtain ⟨u, hok, hnext⟩ := bind_eq_ok.mp hnext
        cases hnext
        rw [reject_eq_ok] at hok
        obtain ⟨hitems, hnodup, rfl⟩ := foldlM_remember.mp hrest
        simp only [List.map_append, List.map_cons, List.map_nil, List.mem_append,
          List.mem_singleton] at hitems
        refine ⟨fun other hother => ?_, ?_, by simp [pairsOf]⟩
        · rcases List.mem_cons.mp hother with rfl | hother
          · refine ⟨by omega, by omega, fun hm => hok (.inr (.inr hm))⟩
          · obtain ⟨hpos, hle, hnew⟩ := hitems other hother
            exact ⟨hpos, hle, fun hm => hnew (.inl hm)⟩
        · rw [List.map_cons, List.nodup_cons]
          refine ⟨fun hm => ?_, hnodup⟩
          obtain ⟨other, hother, hsame⟩ := List.mem_map.mp hm
          exact (hitems other hother).2.2 (.inr hsame)
      · rintro ⟨hitems, hnodup, rfl⟩
        rw [List.map_cons, List.nodup_cons] at hnodup
        obtain ⟨hpos, hle, hnew⟩ := hitems item (by simp)
        refine ⟨before ++ [(item.sequence, item.eventId)], ?_, foldlM_remember.mpr ⟨?_, hnodup.2, ?_⟩⟩
        · refine bind_eq_ok.mpr ⟨(), reject_eq_ok.mpr ?_, rfl⟩
          rintro (h | h | h)
          · omega
          · omega
          · exact hnew h
        · intro other hother
          obtain ⟨hpos', hle', hnew'⟩ := hitems other (by simp [hother])
          refine ⟨hpos', hle', fun hm => ?_⟩
          simp only [List.map_append, List.map_cons, List.map_nil, List.mem_append,
            List.mem_singleton] at hm
          rcases hm with hm | hm
          · exact hnew' hm
          · exact hnodup.1 (List.mem_map.mpr ⟨other, hother, hm⟩)
        · simp [pairsOf]

/-- The journal's entries of the prefix a confirmation must show. -/
def expectedOf (events : List (ℤ × String)) (first through : ℤ) : List (ℤ × String) :=
  latest (events.filter fun event => first ≤ event.1 ∧ event.1 ≤ through)

lemma mem_expectedOf {events : List (ℤ × String)} {first through : ℤ} {entry : ℤ × String} :
    entry ∈ expectedOf events first through ↔
      (latest events).lookup entry.1 = some entry.2 ∧ first ≤ entry.1 ∧ entry.1 ≤ through := by
  rw [expectedOf, latest_filter (fun key => decide (first ≤ key ∧ key ≤ through)),
    List.mem_filter, lookup_eq_some_iff (nodup_keys_latest events)]
  simp

lemma nodup_expectedOf (events : List (ℤ × String)) (first through : ℤ) :
    ((expectedOf events first through).map Prod.fst).Nodup :=
  nodup_keys_latest _

/-- The sequences of the prefix are as many as are expected. -/
lemma card_prefix (first through : ℤ) :
    ((Finset.Icc first through).card : ℤ) = expectedCount first through := by
  rw [Int.card_Icc, expectedCount]
  split_ifs <;> omega

/-- Unique keys within the prefix, as many as it has, are all its sequences. -/
lemma toFinset_eq_prefix {keys : List ℤ} {first through : ℤ} (hnodup : keys.Nodup)
    (hcount : (keys.length : ℤ) = expectedCount first through)
    (hrange : keys.toFinset ⊆ Finset.Icc first through) :
    keys.toFinset = Finset.Icc first through := by
  refine Finset.eq_of_subset_of_card_le hrange ?_
  rw [List.toFinset_card_of_nodup hnodup]
  have := card_prefix first through
  omega

/-- Unique keys that are the sequences of the prefix are as many as are expected. -/
lemma length_eq_expectedCount {keys : List ℤ} {first through : ℤ} (hnodup : keys.Nodup)
    (hkeys : keys.toFinset = Finset.Icc first through) :
    (keys.length : ℤ) = expectedCount first through := by
  rw [← List.toFinset_card_of_nodup hnodup, hkeys, card_prefix]

/-- **The counts and the matches make the prefix complete**, and nothing less does. -/
theorem complete_iff {events : List (ℤ × String)} {first through : ℤ}
    {observed : List RemoteObservation} :
    Complete events first through observed ↔
      (observed.map RemoteObservation.sequence).Nodup ∧
      ((expectedOf events first through).length : ℤ) = expectedCount first through ∧
      (observed.length : ℤ) = expectedCount first through ∧
      ∀ event ∈ expectedOf events first through,
        (pairsOf observed).lookup event.1 = some event.2 := by
  have hkeys : (pairsOf observed).map Prod.fst = observed.map RemoteObservation.sequence := by
    simp [pairsOf]
  have hpairs : ∀ {sequence : ℤ} {id : String}, (sequence, id) ∈ pairsOf observed ↔
      ∃ item ∈ observed, item.sequence = sequence ∧ item.eventId = id := by
    intro sequence id
    simp [pairsOf]
  constructor
  · intro h
    have hseen : (observed.map RemoteObservation.sequence).toFinset = Finset.Icc first through := by
      ext sequence
      simp only [List.mem_toFinset, List.mem_map, Finset.mem_Icc]
      constructor
      · rintro ⟨item, hitem, rfl⟩
        exact ⟨(h.own item hitem).1, (h.own item hitem).2.1⟩
      · rintro ⟨hfirst, hthrough⟩
        exact h.every sequence hfirst hthrough
    have hexpected : ((expectedOf events first through).map Prod.fst).toFinset =
        Finset.Icc first through := by
      ext sequence
      simp only [List.mem_toFinset, List.mem_map, Finset.mem_Icc]
      constructor
      · rintro ⟨entry, hentry, rfl⟩
        exact (mem_expectedOf.mp hentry).2
      · rintro ⟨hfirst, hthrough⟩
        obtain ⟨item, hitem, rfl⟩ := h.every sequence hfirst hthrough
        exact ⟨(item.sequence, item.eventId),
          mem_expectedOf.mpr ⟨(h.own item hitem).2.2, hfirst, hthrough⟩, rfl⟩
    refine ⟨h.once, ?_, ?_, fun event hevent => ?_⟩
    · simpa using length_eq_expectedCount (nodup_expectedOf events first through) hexpected
    · simpa using length_eq_expectedCount h.once hseen
    · obtain ⟨hlookup, hfirst, hthrough⟩ := mem_expectedOf.mp hevent
      obtain ⟨item, hitem, hsame⟩ := h.every event.1 hfirst hthrough
      have hid := (h.own item hitem).2.2
      rw [hsame, hlookup] at hid
      rw [lookup_eq_some_iff (hkeys ▸ h.once), hpairs]
      exact ⟨item, hitem, hsame, (Option.some.inj hid).symm⟩
  · rintro ⟨honce, hcount, hseencount, hmatch⟩
    have hexpected := toFinset_eq_prefix (nodup_expectedOf events first through)
      (by simpa using hcount) (by
        intro sequence hsequence
        obtain ⟨entry, hentry, rfl⟩ := List.mem_map.mp (List.mem_toFinset.mp hsequence)
        exact Finset.mem_Icc.mpr (mem_expectedOf.mp hentry).2)
    -- Every expected sequence is seen, with the expected id, and no other is.
    have hfound : ∀ sequence ∈ Finset.Icc first through, ∃ item ∈ observed,
        item.sequence = sequence ∧
          (latest events).lookup item.sequence = some item.eventId := by
      intro sequence hsequence
      rw [← hexpected, List.mem_toFinset] at hsequence
      obtain ⟨entry, hentry, rfl⟩ := List.mem_map.mp hsequence
      have hseen := hmatch entry hentry
      rw [lookup_eq_some_iff (hkeys ▸ honce), hpairs] at hseen
      obtain ⟨item, hitem, hsame, hid⟩ := hseen
      exact ⟨item, hitem, hsame, by rw [hsame, hid, (mem_expectedOf.mp hentry).1]⟩
    have hcover : Finset.Icc first through ⊆
        (observed.map RemoteObservation.sequence).toFinset := by
      intro sequence hsequence
      obtain ⟨item, hitem, rfl, -⟩ := hfound sequence hsequence
      exact List.mem_toFinset.mpr (List.mem_map.mpr ⟨item, hitem, rfl⟩)
    have hall : (observed.map RemoteObservation.sequence).toFinset = Finset.Icc first through := by
      refine (Finset.eq_of_subset_of_card_le hcover ?_).symm
      rw [List.toFinset_card_of_nodup honce, List.length_map]
      have := card_prefix first through
      omega
    refine ⟨honce, fun item hitem => ?_, fun sequence hfirst hthrough => ?_⟩
    · have hmem : item.sequence ∈ Finset.Icc first through := by
        rw [← hall]
        exact List.mem_toFinset.mpr (List.mem_map.mpr ⟨item, hitem, rfl⟩)
      obtain ⟨other, hother, hsame, hid⟩ := hfound item.sequence hmem
      obtain rfl : other = item := List.inj_on_of_nodup_map honce hother hitem hsame
      exact ⟨(Finset.mem_Icc.mp hmem).1, (Finset.mem_Icc.mp hmem).2, hid⟩
    · obtain ⟨item, hitem, hsame, -⟩ := hfound sequence (Finset.mem_Icc.mpr ⟨hfirst, hthrough⟩)
      exact ⟨item, hitem, hsame⟩

/-! ## The exact condition of an advance -/

variable {enc : Encoding} {isOne : String → Bool}

lemma firstOf_pos {current : ℤ} (h : 0 ≤ current) : 0 < firstOf current := by
  unfold firstOf
  split_ifs <;> omega

lemma encoded_eq_ok {value : Json} {written : Bytes} :
    encoded enc value = .ok written ↔ enc.bytes value = .ok written := by
  unfold encoded
  rcases enc.bytes value with e | b
  · simp [Except.mapError]
  · simp [Except.mapError]

lemma acknowledge_eq_ok {proof : RemoteHistoryEvidence} {error : Option String} :
    acknowledge proof error = .ok () ↔ Acknowledged proof error := by
  unfold acknowledge Acknowledged
  rcases proof.displayVersion with _ | version
  · rcases proof.displayThrough with _ | through
    · simp
    · simp
  · rcases proof.displayThrough with _ | through
    · simp
    · simp

/-- **The plan, with its checks as one condition.** -/
theorem confirmationPlan_eq_ok {state frozenRoute : Json} {events : List (ℤ × String)}
    {proof : RemoteHistoryEvidence} {error : Option String} {advance : CursorAdvance} :
    confirmationPlan enc isOne state frozenRoute events proof error = .ok advance ↔
      advance = ⟨proof.through, proof.displayVersion⟩ ∧ Acknowledged proof error ∧
      ∃ current, Admitted enc isOne state frozenRoute proof current ∧
        Complete events (firstOf current) proof.through proof.observed := by
  unfold confirmationPlan
  constructor
  · intro h
    rcases hcurrent : (state.index "confirmed").asI64.filter (0 ≤ ·) with _ | current
    · simp [hcurrent] at h
    rcases htotal : (state.index "total").asI64.filter (current ≤ ·) with _ | total
    · simp [hcurrent, htotal] at h
    simp only [hcurrent, htotal] at h
    obtain ⟨⟨⟩, henabled, h⟩ := bind_eq_ok.mp h
    obtain ⟨proven, hproven, h⟩ := bind_eq_ok.mp h
    obtain ⟨frozen, hfrozen, h⟩ := bind_eq_ok.mp h
    obtain ⟨⟨⟩, hidentity, h⟩ := bind_eq_ok.mp h
    obtain ⟨seen, hseen, h⟩ := bind_eq_ok.mp h
    obtain ⟨⟨⟩, hcomplete, h⟩ := bind_eq_ok.mp h
    obtain ⟨⟨⟩, hack, h⟩ := bind_eq_ok.mp h
    cases h
    rw [Option.filter_eq_some_iff] at hcurrent htotal
    rw [reject_eq_ok] at henabled hidentity hcomplete
    simp only [not_or, not_not] at hidentity
    obtain ⟨hroute, hwandb, hforward, hend⟩ := hidentity
    obtain ⟨-, honce, rfl⟩ := foldlM_remember.mp hseen
    simp only [List.nil_append, not_or, not_not, List.any_eq_true, not_exists, not_and,
      decide_eq_true_eq] at hcomplete
    obtain ⟨hcount, hseencount, hmatch⟩ := hcomplete
    refine ⟨rfl, acknowledge_eq_ok.mp hack, current, ?_, ?_⟩
    · exact ⟨hcurrent.1, by simpa using hcurrent.2, ⟨total, htotal.1, by omega⟩,
        by simpa using henabled, ⟨frozen, hroute ▸ encoded_eq_ok.mp hproven,
          encoded_eq_ok.mp hfrozen⟩, hwandb, by omega⟩
    · exact complete_iff.mpr ⟨honce, hcount, by simpa [pairsOf] using hseencount, hmatch⟩
  · rintro ⟨rfl, hack, current, hadmitted, hcomplete⟩
    obtain ⟨total, htotal, hend⟩ := hadmitted.total
    obtain ⟨written, hproven, hfrozen⟩ := hadmitted.route
    have hforward := hadmitted.forward
    have hpos := firstOf_pos hadmitted.nonneg
    obtain ⟨honce, hcount, hseencount, hmatch⟩ := complete_iff.mp hcomplete
    have hcurrent : (state.index "confirmed").asI64.filter (0 ≤ ·) = some current := by
      simp [hadmitted.cursor, hadmitted.nonneg]
    have htotal' : (state.index "total").asI64.filter (current ≤ ·) = some total := by
      have : current ≤ total := by omega
      simp [htotal, this]
    have hseen : proof.observed.foldlM (remember proof.through) [] = .ok (pairsOf proof.observed) := by
      refine foldlM_remember.mpr ⟨fun item hitem => ?_, honce, rfl⟩
      obtain ⟨hfirst, hthrough, -⟩ := hcomplete.own item hitem
      exact ⟨by omega, hthrough, by simp⟩
    simp only [hcurrent, htotal']
    refine bind_eq_ok.mpr ⟨(), reject_eq_ok.mpr (by simp [hadmitted.enabled]), ?_⟩
    refine bind_eq_ok.mpr ⟨written, encoded_eq_ok.mpr hproven, ?_⟩
    refine bind_eq_ok.mpr ⟨written, encoded_eq_ok.mpr hfrozen, ?_⟩
    refine bind_eq_ok.mpr ⟨(), reject_eq_ok.mpr ?_, ?_⟩
    · simp only [ne_eq, not_true, hadmitted.wandb, false_or, not_or, not_lt]
      exact ⟨hforward, hend⟩
    refine bind_eq_ok.mpr ⟨pairsOf proof.observed, hseen, ?_⟩
    refine bind_eq_ok.mpr ⟨(), reject_eq_ok.mpr ?_, ?_⟩
    · simp only [not_or, not_not, List.any_eq_true, not_exists, not_and, decide_eq_true_eq]
      exact ⟨hcount, by simpa [pairsOf] using hseencount, hmatch⟩
    exact bind_eq_ok.mpr ⟨(), acknowledge_eq_ok.mpr hack, rfl⟩

end ExperimentControl.Records
