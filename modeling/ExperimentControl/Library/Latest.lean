import Mathlib

/-!
# The latest of some items

A reader of items in any order keeps one item of the greatest place so far, and a mark whether the
items there disagree. That is enough: where no two of them disagree, agreeing with the one that is
kept is agreeing with all.

* `level` — the items of one place.
* `Keeps` — what is kept of the items that have been read.
* `Keeps.behind`, `Keeps.ahead`, `Keeps.disagree`, `Keeps.joined` — one more item.
* **`Keeps.perm`** — what is kept does not depend on the order of the items.
-/

namespace ExperimentControl

section Latest

variable {α β : Type*} [LinearOrder β]

/-- The items of one place, in their order. -/
def level (place : α → β) (items : List α) (best : β) : List α :=
  items.filter fun item => place item = best

/-- The greatest place, the last item there, and a mark: two items there disagree, or one of them is
marked itself. -/
structure Keeps (place : α → β) (agree : α → α → Prop) (marked : α → Prop) (items : List α)
    (best : β) (last : α) (mark : Prop) : Prop where
  greatest : ∀ item ∈ items, place item ≤ best
  last : (level place items best).getLast? = some last
  mark : mark ↔ ¬(level place items best).Pairwise agree ∨
    ∃ item ∈ level place items best, marked item

variable {place : α → β} {agree : α → α → Prop} {marked : α → Prop} {items : List α} {best : β}
  {last item : α} {mark : Prop}

lemma level_append (items more : List α) (best : β) :
    level place (items ++ more) best = level place items best ++ level place more best :=
  List.filter_append _ _

lemma level_singleton_of_eq (h : place item = best) : level place [item] best = [item] := by
  simp [level, h]

lemma level_singleton_of_ne (h : place item ≠ best) : level place [item] best = [] := by
  simp [level, h]

lemma mem_level : item ∈ level place items best ↔ item ∈ items ∧ place item = best := by
  simp [level]

/-- What is kept of one item. -/
lemma keeps_singleton (item : α) :
    Keeps place agree marked [item] (place item) item (marked item) := by
  refine ⟨by simp, ?_, ?_⟩ <;> rw [level_singleton_of_eq rfl] <;> simp

namespace Keeps

variable (h : Keeps place agree marked items best last mark)
include h

lemma last_mem : last ∈ items ∧ place last = best :=
  mem_level.mp (List.mem_of_getLast? h.last)

lemma behind (hplace : place item < best) :
    Keeps place agree marked (items ++ [item]) best last mark := by
  have hlevel : level place (items ++ [item]) best = level place items best := by
    rw [level_append, level_singleton_of_ne hplace.ne, List.append_nil]
  refine ⟨fun other hother => ?_, by rw [hlevel, h.last], by rw [hlevel, h.mark]⟩
  rcases List.mem_append.mp hother with hother | hother
  · exact h.greatest other hother
  · rw [List.mem_singleton.mp hother]
    exact hplace.le

lemma ahead (hplace : best < place item) :
    Keeps place agree marked (items ++ [item]) (place item) item (marked item) := by
  have hnone : level place items (place item) = [] := by
    rw [level, List.filter_eq_nil_iff]
    intro other hother heq
    have := h.greatest other hother
    rw [of_decide_eq_true heq] at this
    exact absurd hplace (not_lt.mpr this)
  have hlevel : level place (items ++ [item]) (place item) = [item] := by
    rw [level_append, hnone, level_singleton_of_eq rfl, List.nil_append]
  refine ⟨fun other hother => ?_, by rw [hlevel]; rfl, by rw [hlevel]; simp⟩
  rcases List.mem_append.mp hother with hother | hother
  · exact (h.greatest other hother).trans hplace.le
  · rw [List.mem_singleton.mp hother]

lemma greatest_append (hplace : place item = best) :
    ∀ other ∈ items ++ [item], place other ≤ best := by
  intro other hother
  rcases List.mem_append.mp hother with hother | hother
  · exact h.greatest other hother
  · rw [List.mem_singleton.mp hother, hplace]

/-- An item that disagrees with the one that is kept is marked, and so is any item behind a mark. -/
lemma disagree (hplace : place item = best) (hmark : mark ∨ ¬agree last item) :
    Keeps place agree marked (items ++ [item]) best item True := by
  have hlevel : level place (items ++ [item]) best = level place items best ++ [item] := by
    rw [level_append, level_singleton_of_eq hplace]
  refine ⟨h.greatest_append hplace, by rw [hlevel]; simp, ?_⟩
  rw [hlevel]
  refine iff_of_true trivial ?_
  rcases hmark with hmark | hdisagree
  · rcases h.mark.mp hmark with hapart | ⟨other, hother, hmarked⟩
    · exact Or.inl fun hpairs => hapart (List.pairwise_append.mp hpairs).1
    · exact Or.inr ⟨other, List.mem_append_left _ hother, hmarked⟩
  · refine Or.inl fun hpairs => hdisagree ?_
    exact (List.pairwise_append.mp hpairs).2.2 last (List.mem_of_getLast? h.last) item (by simp)

/-- An item that agrees with the one that is kept agrees with all. -/
lemma joined (htrans : ∀ a b c, agree a b → agree b c → agree a c) (hplace : place item = best)
    (hmark : ¬mark) (hagree : agree last item) :
    Keeps place agree marked (items ++ [item]) best item (marked item) := by
  have hlevel : level place (items ++ [item]) best = level place items best ++ [item] := by
    rw [level_append, level_singleton_of_eq hplace]
  rw [h.mark, not_or, not_not, not_exists] at hmark
  obtain ⟨hpairs, hplain⟩ := hmark
  obtain ⟨front, hfront⟩ := List.getLast?_eq_some_iff.mp h.last
  refine ⟨h.greatest_append hplace, by rw [hlevel]; simp, ?_⟩
  have hall : ∀ other ∈ level place items best, agree other item := by
    intro other hother
    rw [hfront] at hother hpairs
    rcases List.mem_append.mp hother with hother | hother
    · exact htrans other last item
        ((List.pairwise_append.mp hpairs).2.2 other hother last (by simp)) hagree
    · rwa [List.mem_singleton.mp hother]
  have hpairwise : (level place items best ++ [item]).Pairwise agree :=
    List.pairwise_append.mpr ⟨hpairs, by simp, fun other hother last hlast => by
      rw [List.mem_singleton.mp hlast]
      exact hall other hother⟩
  rw [hlevel]
  constructor
  · exact fun hmarked => Or.inr ⟨item, by simp, hmarked⟩
  · rintro (hapart | ⟨other, hother, hmarked⟩)
    · exact absurd hpairwise hapart
    · rcases List.mem_append.mp hother with hother | hother
      · exact absurd ⟨hother, hmarked⟩ (hplain other)
      · rwa [List.mem_singleton.mp hother] at hmarked

end Keeps

/-- **What is kept does not depend on the order of the items**: the place, the mark, and without a
mark the kept item up to agreement. -/
theorem Keeps.perm {items' : List α} {best' : β} {last' : α} {mark' : Prop}
    (h : Keeps place agree marked items best last mark)
    (h' : Keeps place agree marked items' best' last' mark') (hperm : items.Perm items')
    (hsymm : ∀ a ∈ items, ∀ b ∈ items, agree a b → agree b a) :
    best = best' ∧ (mark ↔ mark') ∧ (¬mark → last = last' ∨ agree last last') := by
  have hbest : best = best' := by
    obtain ⟨hmem, rfl⟩ := h.last_mem
    obtain ⟨hmem', rfl⟩ := h'.last_mem
    exact le_antisymm (h'.greatest last (hperm.mem_iff.mp hmem))
      (h.greatest last' (hperm.mem_iff.mpr hmem'))
  subst hbest
  have hlevel : (level place items best).Perm (level place items' best) := hperm.filter _
  -- Agreement both ways is the same on these items, and it does not look at their order.
  have hboth : ∀ list : List α, (∀ a ∈ list, a ∈ items) →
      (list.Pairwise agree ↔ list.Pairwise fun a b => agree a b ∧ agree b a) := by
    intro list hlist
    refine ⟨fun hpairs => hpairs.imp_of_mem fun ha hb hagree => ?_, fun hpairs =>
      hpairs.imp And.left⟩
    exact ⟨hagree, hsymm _ (hlist _ ha) _ (hlist _ hb) hagree⟩
  have hmembers : ∀ a ∈ level place items best, a ∈ items := fun a ha => (mem_level.mp ha).1
  have hmembers' : ∀ a ∈ level place items' best, a ∈ items :=
    fun a ha => hperm.mem_iff.mpr (mem_level.mp ha).1
  have hpairs : (level place items best).Pairwise agree ↔
      (level place items' best).Pairwise agree := by
    rw [hboth _ hmembers, hboth _ hmembers', hlevel.pairwise_iff fun h => And.symm h]
  refine ⟨rfl, ?_, fun hmark => ?_⟩
  · rw [h.mark, h'.mark, hpairs]
    refine or_congr_right (exists_congr fun item => ?_)
    rw [hlevel.mem_iff]
  · rw [h.mark, not_or, not_not, hboth _ hmembers] at hmark
    by_cases heq : last = last'
    · exact Or.inl heq
    · have hlast := List.mem_of_getLast? h.last
      have hlast' := hlevel.mem_iff.mpr (List.mem_of_getLast? h'.last)
      have hsymmetric : Std.Symm fun a b => agree a b ∧ agree b a := ⟨fun _ _ => And.symm⟩
      exact Or.inr (hmark.1.forall hlast hlast' heq).1

end Latest

end ExperimentControl
