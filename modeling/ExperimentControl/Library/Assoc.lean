import Mathlib
import Std.Data.ExtTreeMap

/-!
# Maps as lists of pairs

A map built by inserting pairs one after another, as the list of its entries: the keys are unique
and the last value of a key is the one kept.

* `latest` — the entries of the map, with `nodup_keys_latest` and `latest_filter`.
* `lookup_eq_some_iff` — with unique keys, a lookup is membership.
* `sortKeys` — the entries in the order of their keys, the same for the same entries
  (`sortKeys_eq_iff`).
* `perm_toList` — an ordered map that holds as many rows as a list, and each of them, holds the
  rows of the list.
-/

namespace ExperimentControl

variable {α β : Type*} [DecidableEq α]

/-- The entries of the map that inserting the pairs in order builds. -/
def latest : List (α × β) → List (α × β)
  | [] => []
  | entry :: rest =>
      if entry.1 ∈ (latest rest).map Prod.fst then latest rest else entry :: latest rest

omit [DecidableEq α] in
/-- With unique keys, an entry is found under its key. -/
lemma lookup_eq_some_iff [BEq α] [LawfulBEq α] {key : α} {value : β} :
    ∀ {entries : List (α × β)}, (entries.map Prod.fst).Nodup →
      (entries.lookup key = some value ↔ (key, value) ∈ entries)
  | [], _ => by simp
  | (k, v) :: rest, h => by
      rw [List.map_cons, List.nodup_cons] at h
      have ih := @lookup_eq_some_iff _ _ key value rest h.2
      rw [List.lookup_cons]
      by_cases hk : key = k
      · have habsent : (k, value) ∉ rest := fun hm =>
          h.1 (List.mem_map.mpr ⟨(k, value), hm, rfl⟩)
        simp [hk, habsent, eq_comm]
      · simp [beq_eq_false_iff_ne.mpr hk, hk, ih]

lemma nodup_keys_latest : ∀ pairs : List (α × β), ((latest pairs).map Prod.fst).Nodup
  | [] => by simp [latest]
  | entry :: rest => by
      have ih := nodup_keys_latest rest
      unfold latest
      split_ifs with h
      · exact ih
      · rw [List.map_cons, List.nodup_cons]
        exact ⟨h, ih⟩

/-- Keys may be left out before or after. -/
lemma latest_filter (p : α → Bool) : ∀ pairs : List (α × β),
    latest (pairs.filter fun entry => p entry.1) = (latest pairs).filter fun entry => p entry.1
  | [] => rfl
  | entry :: rest => by
      have ih := latest_filter p rest
      by_cases hp : p entry.1 = true
      · have hkeys : entry.1 ∈ ((latest rest).filter fun e => p e.1).map Prod.fst ↔
            entry.1 ∈ (latest rest).map Prod.fst := by
          simp [hp]
        simp only [List.filter_cons, hp, if_true, latest, ih, hkeys]
        by_cases h : entry.1 ∈ (latest rest).map Prod.fst
        · rw [if_pos h, if_pos h]
        · rw [if_neg h, if_neg h, List.filter_cons, if_pos hp]
      · rw [Bool.not_eq_true] at hp
        have hskip : latest ((entry :: rest).filter fun e => p e.1) =
            (latest rest).filter fun e => p e.1 := by
          rw [List.filter_cons, hp, if_neg Bool.false_ne_true, ih]
        rw [hskip, latest]
        split_ifs
        · rfl
        · rw [List.filter_cons, hp, if_neg Bool.false_ne_true]

/-- Pairs with unique keys are their own map. -/
lemma latest_of_nodup : ∀ {pairs : List (α × β)}, (pairs.map Prod.fst).Nodup → latest pairs = pairs
  | [], _ => rfl
  | entry :: rest, h => by
      rw [List.map_cons, List.nodup_cons] at h
      rw [latest, latest_of_nodup h.2, if_neg h.1]

/-! ## Entries in the order of their keys -/

section Order

variable {κ : Type*} {β γ : Type*} [LE κ] [DecidableLE κ]

/-- The entries in the order of their keys. -/
def sortKeys (entries : List (κ × β)) : List (κ × β) :=
  entries.insertionSort fun left right => left.1 ≤ right.1

lemma perm_sortKeys (entries : List (κ × β)) : (sortKeys entries).Perm entries :=
  List.perm_insertionSort _ entries

/-- What is done to the values does not change the order. -/
lemma map_sortKeys (f : β → γ) (entries : List (κ × β)) :
    (sortKeys entries).map (fun entry => (entry.1, f entry.2)) =
      sortKeys (entries.map fun entry => (entry.1, f entry.2)) :=
  List.map_insertionSort _ _ _ _ fun _ _ _ _ => Iff.rfl

variable [Std.IsLinearOrder κ]

lemma pairwise_sortKeys (entries : List (κ × β)) :
    (sortKeys entries).Pairwise fun left right => left.1 ≤ right.1 := by
  have htotal : Std.Total fun left right : κ × β => left.1 ≤ right.1 := ⟨fun _ _ => Std.le_total⟩
  have htrans : IsTrans (κ × β) fun left right => left.1 ≤ right.1 :=
    ⟨fun _ _ _ hfirst hsecond => Std.le_trans hfirst hsecond⟩
  exact List.pairwise_insertionSort _ entries

@[simp] lemma sortKeys_sortKeys (entries : List (κ × β)) :
    sortKeys (sortKeys entries) = sortKeys entries :=
  (pairwise_sortKeys entries).insertionSort_eq

/-- **Two maps have the same entries in order** exactly when they have the same entries. -/
theorem sortKeys_eq_iff {first second : List (κ × β)} (hkeys : (first.map Prod.fst).Nodup) :
    sortKeys first = sortKeys second ↔ first.Perm second := by
  constructor
  · intro heq
    exact (perm_sortKeys first).symm.trans (heq ▸ perm_sortKeys second)
  · intro hperm
    have hsorted := ((perm_sortKeys first).trans hperm).trans (perm_sortKeys second).symm
    refine List.Perm.eq_of_pairwise ?_ (pairwise_sortKeys first) (pairwise_sortKeys second) hsorted
    intro left right hleft hright hle hge
    have hmem : left ∈ first := (perm_sortKeys first).mem_iff.mp hleft
    have hmem' : right ∈ first :=
      hperm.mem_iff.mpr ((perm_sortKeys second).mem_iff.mp hright)
    exact List.inj_on_of_nodup_map hkeys hmem hmem' (Std.le_antisymm hle hge)

end Order

/-! ## Ordered maps -/

section Ordered

variable {α β : Type*} [Ord α] [Std.TransOrd α] [Std.LawfulEqOrd α] {rows : List (α × β)}

/-- The map of a list with unique keys has each row of the list, and no more. -/
lemma rows_ofList (hnodup : (rows.map Prod.fst).Nodup) :
    (∀ row ∈ rows, (Std.ExtTreeMap.ofList rows)[row.1]? = some row.2) ∧
      (Std.ExtTreeMap.ofList rows).size = rows.length := by
  have hdistinct : rows.Pairwise fun row other => ¬compare row.1 other.1 = .eq := by
    refine (List.pairwise_map.mp hnodup).imp fun hne heq => hne ?_
    exact Std.LawfulEqOrd.eq_of_compare heq
  refine ⟨fun row hrow => ?_, Std.ExtTreeMap.size_ofList hdistinct⟩
  exact Std.ExtTreeMap.getElem?_ofList_of_mem Std.ReflOrd.compare_self hdistinct hrow

/-- **The rows of an ordered map** are the rows of a list with unique keys, as soon as the map has
each of them and no more than the list. -/
theorem perm_toList {map : Std.ExtTreeMap α β} (hnodup : (rows.map Prod.fst).Nodup)
    (hrows : ∀ row ∈ rows, map[row.1]? = some row.2) (hsize : map.size = rows.length) :
    map.toList.Perm rows := by
  have hsub : rows.Subperm map.toList := by
    refine List.subperm_of_subset (List.Nodup.of_map _ hnodup) fun row hrow => ?_
    exact Std.ExtTreeMap.mem_toList_iff_getElem?_eq_some.mpr (hrows row hrow)
  refine (hsub.perm_of_length_le ?_).symm
  rw [Std.ExtTreeMap.length_toList, hsize]

/-- A map is the map of its rows. -/
lemma ofList_toList (map : Std.ExtTreeMap α β) : Std.ExtTreeMap.ofList map.toList = map := by
  have hnodup : (map.toList.map Prod.fst).Nodup := by
    rw [Std.ExtTreeMap.map_fst_toList_eq_keys]
    exact Std.ExtTreeMap.nodup_keys
  obtain ⟨hrows, hsize⟩ := rows_ofList hnodup
  exact Std.ExtTreeMap.ext_toList (perm_toList hnodup hrows hsize)

end Ordered

end ExperimentControl
