import Mathlib

/-!
# Lines and where they start

A stream is cut into lines at its separators, where two items may be one separator together. A
reader that begins somewhere inside the stream sees whole lines from the next place behind a
separator on, and those are the last lines of the stream.

* `Cutting` — which items end a line, and which pairs do so as one.
* `Cutting.placed` — the lines of a stream, each with the place where it starts.
* `Cutting.Cut` — a place right behind a separator.
* `placed_append` — a cut divides the lines.
* `filter_placed` — the lines from the first cut behind a place on are the lines that start there or
  later.
* `firstEnd`, **`Finds.filter_placed`** — the same of a reader that looks for that cut.
-/

namespace ExperimentControl

/-- How a stream is cut into lines. A pair that is one separator does not reach into another. -/
structure Cutting (α : Type*) where
  size : α → ℕ
  ends : α → Bool
  joined : α → α → Bool
  size_pos : ∀ a, 0 < size a
  ends_of_joined : ∀ a b, joined a b = true → ends a = true ∧ ends b = true
  apart : ∀ a b c, joined a b = true → joined b c = false

namespace Cutting

variable {α : Type*} (cutting : Cutting α)

def total (items : List α) : ℕ := (items.map cutting.size).sum

@[simp] lemma total_nil : cutting.total [] = 0 := rfl

@[simp] lemma total_cons (a : α) (items : List α) :
    cutting.total (a :: items) = cutting.size a + cutting.total items := by
  simp [total]

@[simp] lemma total_append (before rest : List α) :
    cutting.total (before ++ rest) = cutting.total before + cutting.total rest := by
  simp [total]

lemma total_pos {items : List α} (h : items ≠ []) : 0 < cutting.total items := by
  obtain ⟨a, rest, rfl⟩ := List.exists_cons_of_ne_nil h
  have := cutting.size_pos a
  rw [total_cons]
  omega

/-! ## Lines -/

/-- The lines of a stream, without their separators, each with the place where it starts. One line
has begun already. Behind the last separator there is no line. -/
def placed : ℕ → List α → List α → List (ℕ × List α)
  | start, line, [] => if line = [] then [] else [(start, line)]
  | start, line, [a] => if cutting.ends a then [(start, line)] else [(start, line ++ [a])]
  | start, line, a :: b :: rest =>
      if cutting.joined a b then
        (start, line) :: placed (start + cutting.total (line ++ [a, b])) [] rest
      else if cutting.ends a then
        (start, line) :: placed (start + cutting.total (line ++ [a])) [] (b :: rest)
      else placed start (line ++ [a]) (b :: rest)

/-- The place between the two parts of a stream is behind a separator, and not inside one. -/
def Cut (before rest : List α) : Prop :=
  ∃ a, before.getLast? = some a ∧ cutting.ends a = true ∧
    ∀ b, rest.head? = some b → cutting.joined a b = false

variable {cutting}

lemma Cut.ne_nil {before rest : List α} (h : cutting.Cut before rest) : before ≠ [] := by
  rintro rfl
  obtain ⟨_, hlast, -⟩ := h
  cases hlast

lemma Cut.append {before rest : List α} (h : cutting.Cut before rest) (front : List α) :
    cutting.Cut (front ++ before) rest := by
  obtain ⟨a, hlast, hends⟩ := h
  exact ⟨a, by rw [List.getLast?_append, hlast, Option.some_or], hends⟩

lemma Cut.tail {a : α} {before rest : List α} (h : cutting.Cut (a :: before) rest)
    (hne : before ≠ []) : cutting.Cut before rest := by
  obtain ⟨last, hlast, hends⟩ := h
  obtain ⟨b, before, rfl⟩ := List.exists_cons_of_ne_nil hne
  exact ⟨last, by rwa [List.getLast?_cons_cons] at hlast, hends⟩

/-- The lines are the same wherever the stream begins. -/
lemma map_snd_placed : ∀ (items line : List α) (start start' : ℕ),
    (cutting.placed start line items).map Prod.snd = (cutting.placed start' line items).map Prod.snd
  | [], line, _, _ => by
      rw [placed, placed]
      split_ifs <;> rfl
  | [a], line, _, _ => by
      rw [placed, placed]
      split_ifs <;> rfl
  | a :: b :: rest, line, start, start' => by
      rw [placed, placed]
      split_ifs
      · rw [List.map_cons, List.map_cons, map_snd_placed rest]
      · rw [List.map_cons, List.map_cons, map_snd_placed (b :: rest)]
      · exact map_snd_placed (b :: rest) _ _ _

/-- A cut divides the lines. -/
lemma placed_append : ∀ {before rest : List α} {start : ℕ} {line : List α},
    cutting.Cut before rest → cutting.placed start line (before ++ rest) =
      cutting.placed start line before ++
        cutting.placed (start + cutting.total (line ++ before)) [] rest
  | [], _, _, _, h => absurd rfl h.ne_nil
  | [a], rest, start, line, h => by
      obtain ⟨last, hlast, hends, hapart⟩ := h
      obtain rfl : a = last := Option.some.inj hlast
      cases rest with
      | nil => simp [placed, hends]
      | cons b rest =>
        have hnot : cutting.joined a b = false := hapart b rfl
        simp [placed, hnot, hends]
  | a :: b :: before, rest, start, line, h => by
      have hcut : ∀ start line, cutting.placed start line (b :: before ++ rest) =
          cutting.placed start line (b :: before) ++
            cutting.placed (start + cutting.total (line ++ b :: before)) [] rest :=
        fun _ _ => placed_append (h.tail (by simp))
      rw [List.cons_append, List.cons_append, placed, placed]
      split_ifs with hjoined hends
      · rcases eq_or_ne before [] with rfl | hne
        · simp [placed]
        · rw [placed_append ((h.tail (by simp)).tail hne)]
          simp [Nat.add_assoc]
      · rw [← List.cons_append, hcut]
        simp [Nat.add_assoc]
      · rw [← List.cons_append, hcut]
        simp

/-- A line starts where the stream does, or behind a separator that is not the end. -/
lemma mem_placed : ∀ {items : List α} {start : ℕ} {line : List α} {entry : ℕ × List α},
    entry ∈ cutting.placed start line items → entry.1 = start ∨
      ∃ before rest, items = before ++ rest ∧ rest ≠ [] ∧ cutting.Cut before rest ∧
        entry.1 = start + cutting.total (line ++ before)
  | [], start, line, entry, h => by
      rw [placed] at h
      split_ifs at h
      · cases h
      · rw [List.mem_singleton.mp h]
        exact Or.inl rfl
  | [a], start, line, entry, h => by
      rw [placed] at h
      split_ifs at h <;> exact Or.inl (by rw [List.mem_singleton.mp h])
  | a :: b :: rest, start, line, entry, h => by
      rw [placed] at h
      split_ifs at h with hjoined hends
      · rcases List.mem_cons.mp h with rfl | hmem
        · exact Or.inl rfl
        · have hcut : rest ≠ [] → cutting.Cut [a, b] rest := fun _ =>
            ⟨b, rfl, (cutting.ends_of_joined a b hjoined).2, fun c _ =>
              cutting.apart a b c hjoined⟩
          rcases mem_placed hmem with hplace | ⟨before, back, rfl, hback, hcut, hplace⟩
          · have hne : rest ≠ [] := by
              rintro rfl
              simp [placed] at hmem
            exact Or.inr ⟨[a, b], rest, rfl, hne, hcut hne, hplace⟩
          · refine Or.inr ⟨[a, b] ++ before, back, by simp, hback, hcut.append _, ?_⟩
            rw [hplace]
            simp [Nat.add_assoc]
      · rcases List.mem_cons.mp h with rfl | hmem
        · exact Or.inl rfl
        · rcases mem_placed hmem with hplace | ⟨before, back, hsplit, hback, hcut, hplace⟩
          · refine Or.inr ⟨[a], b :: rest, rfl, by simp, ⟨a, rfl, hends, fun c hc => ?_⟩, hplace⟩
            obtain rfl : b = c := Option.some.inj hc
            simpa using hjoined
          · refine Or.inr ⟨[a] ++ before, back, by rw [hsplit]; simp, hback, hcut.append _, ?_⟩
            rw [hplace]
            simp [Nat.add_assoc]
      · rcases mem_placed h with hplace | ⟨before, back, hsplit, hback, hcut, hplace⟩
        · exact Or.inl hplace
        · refine Or.inr ⟨[a] ++ before, back, by rw [hsplit]; simp, hback, hcut.append _, ?_⟩
          rw [hplace]
          simp

/-! ## The lines from a place on -/

section From

variable {items : List α} {first : ℕ}

/-- The lines of a stream from a cut on are its last lines. -/
lemma placed_suffix {before rest : List α} (hcut : cutting.Cut before rest) :
    cutting.placed (cutting.total before) [] rest <:+
      cutting.placed 0 [] (before ++ rest) := by
  rw [placed_append hcut]
  simp

/-- **The first cut behind a place.** The lines from there on are those that start at the place or
later. -/
theorem filter_placed {before rest : List α} (hfirst : 0 < first) (hcut : cutting.Cut before rest)
    (hle : first ≤ cutting.total before)
    (hleast : ∀ front back, before ++ rest = front ++ back → cutting.Cut front back →
      first ≤ cutting.total front → cutting.total before ≤ cutting.total front) :
    (cutting.placed 0 [] (before ++ rest)).filter (first ≤ ·.1) =
      cutting.placed (cutting.total before) [] rest := by
  rw [placed_append hcut, List.filter_append]
  have hnone : (cutting.placed 0 [] before).filter (first ≤ ·.1) = [] := by
    rw [List.filter_eq_nil_iff]
    intro entry hentry hstart
    have hstart := of_decide_eq_true hstart
    rcases mem_placed hentry with hzero | ⟨front, back, hsplit, hback, hfront, hplace⟩
    · omega
    · -- A cut of the first part is one of the stream, in front of the first one.
      have hwhole : cutting.Cut front (back ++ rest) := by
        obtain ⟨a, hlast, hends, hapart⟩ := hfront
        refine ⟨a, hlast, hends, fun b hb => hapart b ?_⟩
        obtain ⟨c, back, rfl⟩ := List.exists_cons_of_ne_nil hback
        exact hb
      have htotal := hleast front (back ++ rest) (by rw [hsplit, List.append_assoc]) hwhole
      have hpos := cutting.total_pos hback
      rw [List.nil_append, zero_add] at hplace
      rw [hsplit, total_append] at htotal
      have := htotal (by omega)
      omega
  have hall : (cutting.placed (cutting.total before) [] rest).filter (first ≤ ·.1) =
      cutting.placed (cutting.total before) [] rest := by
    rw [List.filter_eq_self]
    intro entry hentry
    refine decide_eq_true ?_
    rcases mem_placed hentry with hplace | ⟨front, _, -, -, -, hplace⟩ <;> omega
  simp only [List.nil_append, zero_add]
  rw [hnone, hall, List.nil_append]

/-- Where no line ends behind a place, none starts there or later. -/
lemma filter_placed_of_none (hfirst : 0 < first)
    (hnone : ∀ front back, items = front ++ back → cutting.Cut front back →
      cutting.total front < first) :
    (cutting.placed 0 [] items).filter (first ≤ ·.1) = [] := by
  rw [List.filter_eq_nil_iff]
  intro entry hentry hstart
  have hstart := of_decide_eq_true hstart
  rcases mem_placed hentry with hzero | ⟨front, back, hsplit, -, hcut, hplace⟩
  · omega
  · have := hnone front back hsplit hcut
    rw [List.nil_append] at hplace
    omega

end From

/-! ## Looking for the first cut -/

/-- The first place of the ones found that is not in front of a minimum, or the end. -/
def firstEnd (lineEnd : ℕ → Option ℕ) (length minimum : ℕ) : ℕ :=
  (((List.range length).filterMap lineEnd).find? (minimum ≤ ·)).getD length

/-- What is found in a stream at its places is where it is cut, in order, and found at most a margin
before. -/
structure Finds (cutting : Cutting α) (items : List α) (margin : ℕ) (lineEnd : ℕ → Option ℕ) :
    Prop where
  cut : ∀ index stop, lineEnd index = some stop →
    ∃ before rest, items = before ++ rest ∧ cutting.total before = stop ∧ cutting.Cut before rest
  behind : ∀ index stop, lineEnd index = some stop → index < stop
  found : ∀ before rest, items = before ++ rest → cutting.Cut before rest →
    ∃ index, lineEnd index = some (cutting.total before) ∧ cutting.total before ≤ index + margin
  ordered : ∀ index other stop stop', lineEnd index = some stop → lineEnd other = some stop' →
    index ≤ other → stop ≤ stop'

section First

variable {items : List α} {margin first window : ℕ} {lineEnd : ℕ → Option ℕ}

lemma firstEnd_spec {length minimum : ℕ} (hordered : ∀ index other stop stop',
      lineEnd index = some stop → lineEnd other = some stop' → index ≤ other → stop ≤ stop') :
    (∃ index < length, lineEnd index = some (firstEnd lineEnd length minimum) ∧
      minimum ≤ firstEnd lineEnd length minimum ∧ ∀ other < length, ∀ stop,
        lineEnd other = some stop → minimum ≤ stop → firstEnd lineEnd length minimum ≤ stop) ∨
    (firstEnd lineEnd length minimum = length ∧ ∀ other < length, ∀ stop,
      lineEnd other = some stop → stop < minimum) := by
  unfold firstEnd
  cases hfind : ((List.range length).filterMap lineEnd).find? (minimum ≤ ·) with
  | none =>
    refine Or.inr ⟨rfl, fun other hother stop hstop => ?_⟩
    have hnone := List.find?_eq_none.mp hfind stop
      (List.mem_filterMap.mpr ⟨other, List.mem_range.mpr hother, hstop⟩)
    simpa using hnone
  | some stop =>
    refine Or.inl ?_
    obtain ⟨hle, before, behind, hsplit, hbefore⟩ := List.find?_eq_some_iff_append.mp hfind
    have hsorted : ((List.range length).filterMap lineEnd).Pairwise (· ≤ ·) := by
      rw [List.pairwise_filterMap]
      exact List.pairwise_lt_range.imp fun hlt stop hstop stop' hstop' =>
        hordered _ _ _ _ hstop hstop' hlt.le
    have hmem : stop ∈ (List.range length).filterMap lineEnd := by rw [hsplit]; simp
    obtain ⟨index, hindex, hstop⟩ := List.mem_filterMap.mp hmem
    refine ⟨index, List.mem_range.mp hindex, hstop, of_decide_eq_true hle, ?_⟩
    intro other hother stop' hstop' hminimum
    have hmem' : stop' ∈ (List.range length).filterMap lineEnd :=
      List.mem_filterMap.mpr ⟨other, List.mem_range.mpr hother, hstop'⟩
    rw [hsplit] at hmem' hsorted
    rcases List.mem_append.mp hmem' with hfront | hback
    · have := hbefore stop' hfront
      simp at this
      omega
    · rcases List.mem_cons.mp hback with rfl | hback
      · exact le_refl _
      · exact List.rel_of_pairwise_cons (List.pairwise_append.mp hsorted).2.1 hback

/-- **A reader that begins a margin early.** From the first cut that it finds behind a place on, it
reads whole lines, and they are those that start at the place or later. -/
theorem Finds.filter_placed (h : cutting.Finds items margin lineEnd) (hfirst : 0 < first)
    (hwindow : window = first - margin) (hlength : first ≤ cutting.total items) :
    ∃ before rest, items = before ++ rest ∧
      cutting.total before = window + firstEnd
        (fun index => (lineEnd (window + index)).map (· - window))
        (cutting.total items - window) (first - window) ∧
      (cutting.placed 0 [] items).filter (first ≤ ·.1) =
        cutting.placed (cutting.total before) [] rest ∧
      cutting.placed (cutting.total before) [] rest <:+ cutting.placed 0 [] items := by
  have hordered : ∀ index other stop stop',
      (lineEnd (window + index)).map (· - window) = some stop →
      (lineEnd (window + other)).map (· - window) = some stop' → index ≤ other →
      stop ≤ stop' := by
    intro index other stop stop' hstop hstop' hle
    obtain ⟨place, hplace, rfl⟩ := Option.map_eq_some_iff.mp hstop
    obtain ⟨place', hplace', rfl⟩ := Option.map_eq_some_iff.mp hstop'
    exact Nat.sub_le_sub_right (h.ordered _ _ _ _ hplace hplace' (by omega)) _
  -- A cut at the place or later is found by a reader that begins at the window.
  have hreached : ∀ front back, items = front ++ back → cutting.Cut front back →
      first ≤ cutting.total front → ∃ other < cutting.total items - window,
        (lineEnd (window + other)).map (· - window) = some (cutting.total front - window) := by
    intro front back hsplit hcut hle
    obtain ⟨index, hindex, hmargin⟩ := h.found front back hsplit hcut
    have hbehind := h.behind index _ hindex
    have htotal : cutting.total items = cutting.total front + cutting.total back := by
      rw [hsplit, total_append]
    refine ⟨index - window, by omega, ?_⟩
    rw [Nat.add_sub_cancel' (by omega), hindex, Option.map_some]
  rcases @firstEnd_spec _ (cutting.total items - window) (first - window) hordered with ⟨index, -, hstop, hminimum, hleast⟩ | ⟨hend, hnone⟩
  · obtain ⟨place, hplace, hfirstEnd⟩ := Option.map_eq_some_iff.mp hstop
    have hbehind := h.behind _ _ hplace
    obtain ⟨before, rest, hsplit, htotal, hcut⟩ := h.cut _ _ hplace
    refine ⟨before, rest, hsplit, by omega, ?_, hsplit ▸ placed_suffix hcut⟩
    rw [hsplit]
    refine Cutting.filter_placed hfirst hcut (by omega) fun front back hparts hfront hle => ?_
    rw [← hsplit] at hparts
    obtain ⟨other, hother, hfound⟩ := hreached front back hparts hfront hle
    have := hleast other hother _ hfound (by omega)
    omega
  · refine ⟨items, [], by simp, by omega, ?_, by simp [placed]⟩
    rw [filter_placed_of_none hfirst, placed, if_pos rfl]
    intro front back hparts hfront
    by_contra hle
    obtain ⟨other, hother, hfound⟩ := hreached front back hparts hfront (by omega)
    have := hnone other hother _ hfound
    omega

end First

end Cutting

end ExperimentControl
