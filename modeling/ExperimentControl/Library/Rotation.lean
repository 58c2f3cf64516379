import Mathlib

/-!
# Taking turns

Round-robin choice among the candidates that are ready: the least one behind the last choice, or the
least of all where there is none behind it.

* `pick`, `pick_spec` — the choice.
* `waiting` — the candidates whose turn comes before a given one.
* **`waiting_pick_lt`** — a choice that passes over a ready candidate brings its turn closer, so it
  comes within as many choices as there are candidates (`waiting_lt_card`).
-/

namespace ExperimentControl.Rotation

variable {α : Type*} [LinearOrder α]

/-- The next candidate in turn behind the last one. -/
def pick (candidates : Finset α) (ready : α → Bool) (after : α) : Option α :=
  match ((candidates.sort (· ≤ ·)).filter ready).find? (fun key => decide (after < key)) with
  | some key => some key
  | none => (candidates.sort (· ≤ ·)).find? ready

/-- The candidates whose turn comes before that of a given one. -/
def waiting (candidates : Finset α) (after key : α) : Finset α :=
  if after < key then candidates.filter fun other => after < other ∧ other < key
  else candidates.filter fun other => after < other ∨ other < key

/-- The first element of a sorted list is the least one. -/
lemma le_of_find? {p : α → Bool} {x : α} : ∀ {keys : List α}, keys.Pairwise (· ≤ ·) →
    keys.find? p = some x → ∀ y ∈ keys, p y = true → x ≤ y
  | [], _, h, _, _, _ => by cases h
  | first :: keys, hsorted, h, y, hy, hp => by
      obtain ⟨hfirst, hrest⟩ := List.pairwise_cons.mp hsorted
      rw [List.find?_cons] at h
      cases hmatch : p first with
      | true =>
        rw [hmatch] at h
        cases h
        rcases List.mem_cons.mp hy with rfl | hmem
        · exact le_refl _
        · exact hfirst y hmem
      | false =>
        rw [hmatch] at h
        rcases List.mem_cons.mp hy with rfl | hmem
        · rw [hp] at hmatch
          cases hmatch
        · exact le_of_find? hrest h y hmem hp

variable {candidates : Finset α} {ready : α → Bool} {after key x : α}

/-- The choice is ready, and the least such behind the last one or, if there is none, of all. -/
theorem pick_spec (h : pick candidates ready after = some x) :
    x ∈ candidates ∧ ready x = true ∧
      ((after < x ∧ ∀ y ∈ candidates, ready y = true → after < y → x ≤ y) ∨
        ∀ y ∈ candidates, ready y = true → ¬after < y ∧ x ≤ y) := by
  have hsorted : (candidates.sort (· ≤ ·)).Pairwise (· ≤ ·) := candidates.pairwise_sort _
  unfold pick at h
  split at h
  · rename_i found hfound
    cases h
    have hmem := List.mem_filter.mp (List.mem_of_find?_eq_some hfound)
    have hbehind : after < x := by simpa using List.find?_some hfound
    refine ⟨(candidates.mem_sort _).mp hmem.1, hmem.2, Or.inl ⟨hbehind, ?_⟩⟩
    intro y hy hready hafter
    exact le_of_find? (hsorted.filter _) hfound y
      (List.mem_filter.mpr ⟨(candidates.mem_sort _).mpr hy, hready⟩) (decide_eq_true hafter)
  · rename_i hnone
    refine ⟨(candidates.mem_sort _).mp (List.mem_of_find?_eq_some h), List.find?_some h,
      Or.inr fun y hy hready => ?_⟩
    have hmem := (candidates.mem_sort (· ≤ ·)).mpr hy
    refine ⟨fun hafter => ?_, le_of_find? hsorted h y hmem hready⟩
    have hnot := List.find?_eq_none.mp hnone y (List.mem_filter.mpr ⟨hmem, hready⟩)
    exact hnot (decide_eq_true hafter)

/-- Some candidate is chosen while one is ready. -/
lemma exists_pick (hkey : key ∈ candidates) (hready : ready key = true) :
    ∃ x, pick candidates ready after = some x := by
  unfold pick
  split
  · exact ⟨_, rfl⟩
  · refine Option.isSome_iff_exists.mp (List.find?_isSome.mpr ⟨key, ?_, hready⟩)
    exact (candidates.mem_sort _).mpr hkey

/-- **A choice that passes over a ready candidate** brings its turn closer. -/
theorem waiting_pick_lt (hkey : key ∈ candidates) (hready : ready key = true)
    (h : pick candidates ready after = some x) (hne : x ≠ key) :
    (waiting candidates x key).card < (waiting candidates after key).card := by
  obtain ⟨hx, -, hspec⟩ := pick_spec h
  apply Finset.card_lt_card
  refine (Finset.ssubset_iff_of_subset ?_).mpr ⟨x, ?_, ?_⟩
  · intro y hy
    unfold waiting at hy ⊢
    rcases hspec with ⟨hbehind, hfirst⟩ | hfirst
    · by_cases hafter : after < key
      · have hlt : x < key := lt_of_le_of_ne (hfirst key hkey hready hafter) hne
        rw [if_pos hlt, Finset.mem_filter] at hy
        rw [if_pos hafter, Finset.mem_filter]
        exact ⟨hy.1, hbehind.trans hy.2.1, hy.2.2⟩
      · have hnot : ¬x < key := fun hlt => hafter (hbehind.trans hlt)
        rw [if_neg hnot, Finset.mem_filter] at hy
        rw [if_neg hafter, Finset.mem_filter]
        exact ⟨hy.1, hy.2.imp_left hbehind.trans⟩
    · obtain ⟨hafter, hle⟩ := hfirst key hkey hready
      rw [if_pos (lt_of_le_of_ne hle hne), Finset.mem_filter] at hy
      rw [if_neg hafter, Finset.mem_filter]
      exact ⟨hy.1, Or.inr hy.2.2⟩
  · unfold waiting
    rcases hspec with ⟨hbehind, hfirst⟩ | hfirst
    · split_ifs with hafter
      · have hlt : x < key := lt_of_le_of_ne (hfirst key hkey hready hafter) hne
        exact Finset.mem_filter.mpr ⟨hx, hbehind, hlt⟩
      · exact Finset.mem_filter.mpr ⟨hx, Or.inl hbehind⟩
    · obtain ⟨hafter, hle⟩ := hfirst key hkey hready
      rw [if_neg hafter]
      exact Finset.mem_filter.mpr ⟨hx, Or.inr (lt_of_le_of_ne hle hne)⟩
  · unfold waiting
    split_ifs with hlt
    · simp
    · simp [hlt]

/-- Fewer than all candidates come before a given one. -/
lemma waiting_lt_card (hkey : key ∈ candidates) :
    (waiting candidates after key).card < candidates.card := by
  apply Finset.card_lt_card
  refine (Finset.ssubset_iff_of_subset ?_).mpr ⟨key, hkey, ?_⟩
  · unfold waiting
    split_ifs
    · exact Finset.filter_subset _ _
    · exact Finset.filter_subset _ _
  · unfold waiting
    split_ifs with hafter
    · simp
    · simp [hafter]

end ExperimentControl.Rotation
