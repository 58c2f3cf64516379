import ExperimentControl.Library.Text

/-!
# Texts in parts

A text is cut into parts of a bounded number of bytes. A cut is only made between characters, at the
last such place within the bound, which is found by going back from the bound byte by byte.

* `isCharBoundary`, `splitAt` — the places between characters, and a cut there.
* `floorBoundary` — the last place up to a bound.
* `parts`, **`parts_spec`** — the parts of a text, and that they are the text within the bound.
-/

namespace ExperimentControl

/-- The length of a text in bytes. -/
def width (chars : List Char) : ℕ := (chars.map Char.utf8Size).sum

@[simp] lemma width_nil : width [] = 0 := rfl

@[simp] lemma width_cons (c : Char) (rest : List Char) :
    width (c :: rest) = c.utf8Size + width rest := by
  simp [width]

@[simp] lemma width_append (front back : List Char) :
    width (front ++ back) = width front + width back := by
  simp [width]

lemma length_utf8_ofList (chars : List Char) : (utf8 (String.ofList chars)).length = width chars := by
  rw [utf8_eq, String.toList_ofList]
  induction chars with
  | nil => rfl
  | cons c rest ih =>
    rw [List.flatMap_cons, List.length_append, ih, String.length_utf8EncodeChar, width_cons]

/-! ## Boundaries -/

/-- `str::is_char_boundary`: the place in front of a character, or the end. -/
def isCharBoundary : List Char → ℕ → Bool
  | _, 0 => true
  | [], _ + 1 => false
  | c :: rest, place + 1 =>
      decide (c.utf8Size ≤ place + 1) && isCharBoundary rest (place + 1 - c.utf8Size)

/-- `str::split_at`, at a place between characters. -/
def splitAt : List Char → ℕ → List Char × List Char
  | rest, 0 => ([], rest)
  | [], _ + 1 => ([], [])
  | c :: rest, place + 1 =>
      let pieces := splitAt rest (place + 1 - c.utf8Size)
      (c :: pieces.1, pieces.2)

/-- The last place between characters, from a place on back. -/
def floorBoundary (chars : List Char) : ℕ → ℕ
  | 0 => 0
  | place + 1 => if isCharBoundary chars (place + 1) then place + 1 else floorBoundary chars place

lemma isCharBoundary_cons {c : Char} {rest : List Char} {place : ℕ} (h : 0 < place) :
    isCharBoundary (c :: rest) place =
      (decide (c.utf8Size ≤ place) && isCharBoundary rest (place - c.utf8Size)) := by
  obtain ⟨n, rfl⟩ := Nat.exists_eq_succ_of_ne_zero h.ne'
  rfl

/-- A cut between characters gives the text back, and the place is the width of what is before. -/
lemma splitAt_spec : ∀ {chars : List Char} {place : ℕ}, isCharBoundary chars place = true →
    (splitAt chars place).1 ++ (splitAt chars place).2 = chars ∧
      width (splitAt chars place).1 = place
  | chars, 0, _ => by
      cases chars <;> exact ⟨rfl, rfl⟩
  | [], _ + 1, h => nomatch h
  | c :: rest, place + 1, h => by
      obtain ⟨hc, hrest⟩ := Bool.and_eq_true_iff.mp h
      obtain ⟨happend, hwidth⟩ := splitAt_spec hrest
      have hle := of_decide_eq_true hc
      rw [splitAt]
      refine ⟨congrArg (c :: ·) happend, ?_⟩
      dsimp only
      rw [width_cons, hwidth]
      omega

lemma isCharBoundary_first {c : Char} {rest : List Char} :
    isCharBoundary (c :: rest) c.utf8Size = true := by
  rw [isCharBoundary_cons c.utf8Size_pos, Nat.sub_self]
  cases rest <;> simp [isCharBoundary]

section Floor

variable {chars : List Char}

lemma isCharBoundary_floor : ∀ limit, isCharBoundary chars (floorBoundary chars limit) = true
  | 0 => by cases chars <;> rfl
  | limit + 1 => by
      rw [floorBoundary]
      split_ifs with h
      · exact h
      · exact isCharBoundary_floor limit

lemma floorBoundary_le : ∀ limit, floorBoundary chars limit ≤ limit
  | 0 => le_refl 0
  | limit + 1 => by
      rw [floorBoundary]
      split_ifs
      · exact le_refl _
      · exact Nat.le_succ_of_le (floorBoundary_le limit)

lemma le_floorBoundary {place : ℕ} (h : isCharBoundary chars place = true) :
    ∀ {limit : ℕ}, place ≤ limit → place ≤ floorBoundary chars limit
  | 0, hle => hle
  | limit + 1, hle => by
      rw [floorBoundary]
      split_ifs with hlimit
      · exact hle
      · have hne : place ≠ limit + 1 := by
          rintro rfl
          exact hlimit h
        exact le_floorBoundary h (by omega)

/-- A bound that holds any character leaves room for the first one. -/
lemma floorBoundary_pos {limit : ℕ} (hlimit : 4 ≤ limit) (h : chars ≠ []) :
    0 < floorBoundary chars limit := by
  obtain ⟨c, rest, rfl⟩ := List.exists_cons_of_ne_nil h
  have hfour := c.utf8Size_le_four
  exact lt_of_lt_of_le c.utf8Size_pos (le_floorBoundary isCharBoundary_first (by omega))

end Floor

/-! ## Parts -/

/-- What is behind a cut is shorter. -/
lemma width_splitAt_lt {chars : List Char} {limit : ℕ} (hlimit : 4 ≤ limit)
    (h : limit < width chars) :
    width (splitAt chars (floorBoundary chars limit)).2 < width chars := by
  obtain ⟨happend, hwidth⟩ := splitAt_spec (@isCharBoundary_floor chars limit)
  have hne : chars ≠ [] := by
    rintro rfl
    exact absurd h (by simp)
  have hpos := floorBoundary_pos hlimit hne
  have htotal := congrArg width happend
  rw [width_append] at htotal
  omega

/-- The parts of a text, each of them as long as it can be within the bound. -/
def parts (limit : ℕ) (hlimit : 4 ≤ limit) (rest : List Char) : List (List Char) :=
  if limit < width rest then
    let pieces := splitAt rest (floorBoundary rest limit)
    pieces.1 :: parts limit hlimit pieces.2
  else [rest]
termination_by width rest
decreasing_by exact width_splitAt_lt hlimit ‹limit < width rest›

/-- **The parts are the text**, and every one of them is within the bound. -/
theorem parts_spec {limit : ℕ} (hlimit : 4 ≤ limit) (text : List Char) :
    (parts limit hlimit text).flatten = text ∧
      ∀ part ∈ parts limit hlimit text, width part ≤ limit := by
  fun_induction parts limit hlimit text with
  | case1 rest h pieces ih =>
    obtain ⟨happend, hwidth⟩ := splitAt_spec (@isCharBoundary_floor rest limit)
    refine ⟨?_, List.forall_mem_cons.mpr ⟨?_, ih.2⟩⟩
    · rw [List.flatten_cons, ih.1]
      exact happend
    · exact le_of_eq_of_le hwidth (floorBoundary_le limit)
  | case2 rest h =>
    refine ⟨List.flatten_singleton, ?_⟩
    intro part hpart
    rw [List.mem_singleton.mp hpart]
    exact not_lt.mp h

lemma parts_ne_nil {limit : ℕ} (hlimit : 4 ≤ limit) (text : List Char) :
    parts limit hlimit text ≠ [] := by
  fun_cases parts limit hlimit text <;> simp

end ExperimentControl
