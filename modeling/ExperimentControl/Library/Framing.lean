import Mathlib

/-!
# Framed byte streams

A hashed or stored record is a concatenation of fields.  Whether the concatenation still determines
the fields is a question about the field encoding alone, and this file answers it once.

* `SelfDelimiting` — an encoding that can be split off the front of any stream.
* **`SelfDelimiting.flatMap_inj`** — a stream of self-delimiting fields determines its fields.
* `framed` — the length-prefixed encoding, and `framed_selfDelimiting`.
* `blocks` — a byte string cut into full blocks and one shorter last block.
-/

namespace ExperimentControl

/-- A byte string. -/
abbrev Bytes := List UInt8

/-! ## Self-delimiting encodings -/

/-- **Self-delimiting.**  On the values of `D` the encoding `enc` is never empty, and what follows
an encoded value never changes how the value itself is read. -/
structure SelfDelimiting {α β : Type*} (enc : α → List β) (D : Set α) : Prop where
  ne_nil : ∀ a ∈ D, enc a ≠ []
  split : ∀ a ∈ D, ∀ b ∈ D, ∀ s t, enc a ++ s = enc b ++ t → a = b ∧ s = t

section SelfDelimiting

variable {α β : Type*} {enc : α → List β} {D : Set α}

/-- **A stream of self-delimiting fields determines its fields.** -/
theorem SelfDelimiting.flatMap_inj (h : SelfDelimiting enc D) :
    ∀ {xs ys : List α}, (∀ x ∈ xs, x ∈ D) → (∀ y ∈ ys, y ∈ D) →
      xs.flatMap enc = ys.flatMap enc → xs = ys
  | [], [], _, _, _ => rfl
  | [], y :: ys, _, hy, heq => by
      have hne := h.ne_nil y (hy y (by simp))
      simp [hne] at heq
  | x :: xs, [], hx, _, heq => by
      have hne := h.ne_nil x (hx x (by simp))
      simp [hne] at heq
  | x :: xs, y :: ys, hx, hy, heq => by
      simp only [List.flatMap_cons] at heq
      obtain ⟨rfl, hrest⟩ := h.split x (hx x (by simp)) y (hy y (by simp)) _ _ heq
      rw [h.flatMap_inj (fun a ha => hx a (by simp [ha])) (fun a ha => hy a (by simp [ha])) hrest]

end SelfDelimiting

/-! ## Big-endian numbers and length prefixes -/

/-- The low `width` bytes of `n`, most significant first. -/
def beBytes : ℕ → ℕ → Bytes
  | 0, _ => []
  | width + 1, n => UInt8.ofNat (n / 256 ^ width) :: beBytes width n

@[simp] lemma length_beBytes : ∀ width n, (beBytes width n).length = width
  | 0, _ => rfl
  | width + 1, n => by simp [beBytes, length_beBytes width n]

/-- Equal bytes are equal numbers, as far as the width reaches. -/
lemma mod_eq_of_beBytes_eq :
    ∀ {width m n : ℕ}, beBytes width m = beBytes width n → m % 256 ^ width = n % 256 ^ width
  | 0, _, _, _ => by simp [Nat.mod_one]
  | width + 1, m, n, h => by
      simp only [beBytes, List.cons.injEq] at h
      have hdigit : m / 256 ^ width % 256 = n / 256 ^ width % 256 := by
        simpa using congrArg UInt8.toNat h.1
      have hlow := mod_eq_of_beBytes_eq h.2
      rw [pow_succ, Nat.mod_mul, Nat.mod_mul, hdigit, hlow]

/-- The number some bytes stand for, most significant first. -/
def ofBeBytes (bytes : Bytes) : ℕ := bytes.foldl (fun n b => n * 256 + b.toNat) 0

lemma foldl_beBytes : ∀ width n start : ℕ,
    (beBytes width n).foldl (fun n b => n * 256 + b.toNat) start =
      start * 256 ^ width + n % 256 ^ width
  | 0, n, start => by simp [beBytes, Nat.mod_one]
  | width + 1, n, start => by
      have hsplit : n % (256 ^ width * 256) = n % 256 ^ width + 256 ^ width * (n / 256 ^ width % 256) :=
        Nat.mod_mul
      have hdigit : (UInt8.ofNat (n / 256 ^ width)).toNat = n / 256 ^ width % 256 :=
        UInt8.toNat_ofNat'
      rw [beBytes, List.foldl_cons, foldl_beBytes width, pow_succ, hsplit, hdigit]
      generalize n / 256 ^ width % 256 = digit
      ring

/-- **Bytes of a number are read as the number**, as far as the width reaches. -/
theorem ofBeBytes_beBytes (width n : ℕ) : ofBeBytes (beBytes width n) = n % 256 ^ width := by
  rw [ofBeBytes, foldl_beBytes, Nat.zero_mul, Nat.zero_add]

/-- One field: its length in `width` bytes, then its bytes. -/
def framed (width : ℕ) (value : Bytes) : Bytes :=
  beBytes width value.length ++ value

/-- **Length prefixes delimit.**  This holds for every value whose length fits the prefix. -/
theorem framed_selfDelimiting (width : ℕ) (hwidth : 0 < width) :
    SelfDelimiting (framed width) {value | value.length < 256 ^ width} where
  ne_nil := by
    intro a _ h
    have hlen := congrArg List.length h
    simp [framed] at hlen
    omega
  split := by
    intro a ha b hb s t heq
    simp only [framed, List.append_assoc] at heq
    obtain ⟨hlead, hrest⟩ := List.append_inj heq (by simp)
    have hlen : a.length = b.length := by
      have hmod := mod_eq_of_beBytes_eq hlead
      rwa [Nat.mod_eq_of_lt ha, Nat.mod_eq_of_lt hb] at hmod
    exact List.append_inj hrest hlen

/-! ## Blocks -/

/-- `bytes` cut into blocks of `size` bytes, the last one possibly shorter.  There is no empty
block, so the empty string has none. -/
def blocks {α : Type*} (size : ℕ) (bytes : List α) : List (List α) :=
  if bytes = [] ∨ size = 0 then []
  else bytes.take size :: blocks size (bytes.drop size)
termination_by bytes.length
decreasing_by
  rename_i h
  have := List.length_pos_iff.mpr (fun h' => h (.inl h'))
  simp only [List.length_drop]
  omega

section Blocks

variable {α : Type*} {size : ℕ}

@[simp] lemma blocks_nil : blocks size ([] : List α) = [] := by
  rw [blocks]; simp

lemma blocks_of_ne_nil (hsize : 0 < size) {bytes : List α} (h : bytes ≠ []) :
    blocks size bytes = bytes.take size :: blocks size (bytes.drop size) := by
  rw [blocks, if_neg]
  simp [h, hsize.ne']

lemma blocks_eq_nil_iff (hsize : 0 < size) {bytes : List α} :
    blocks size bytes = [] ↔ bytes = [] := by
  constructor
  · intro h
    by_contra hne
    simp [blocks_of_ne_nil hsize hne] at h
  · rintro rfl
    simp

/-- The blocks hold exactly the bytes they were cut from. -/
lemma flatten_blocks (hsize : 0 < size) (bytes : List α) :
    (blocks size bytes).flatten = bytes := by
  induction hn : bytes.length using Nat.strong_induction_on generalizing bytes with
  | _ n ih =>
    by_cases h : bytes = []
    · simp [h]
    · have hpos := List.length_pos_iff.mpr h
      rw [blocks_of_ne_nil hsize h, List.flatten_cons,
        ih _ (by simp only [List.length_drop]; omega) _ rfl, List.take_append_drop]

/-- Cutting into blocks loses nothing. -/
lemma blocks_injective (hsize : 0 < size) :
    Function.Injective (blocks size : List α → List (List α)) := by
  intro a b h
  rw [← flatten_blocks hsize a, ← flatten_blocks hsize b, h]

lemma length_le_of_mem_blocks (hsize : 0 < size) {bytes block : List α}
    (h : block ∈ blocks size bytes) : block.length ≤ size := by
  induction hn : bytes.length using Nat.strong_induction_on generalizing bytes with
  | _ n ih =>
    by_cases hb : bytes = []
    · simp [hb] at h
    · have hpos := List.length_pos_iff.mpr hb
      rw [blocks_of_ne_nil hsize hb, List.mem_cons] at h
      rcases h with rfl | h
      · simp
      · exact ih _ (by simp only [List.length_drop]; omega) h rfl

/-- Whole blocks in front leave the cuts behind them where they were. -/
lemma blocks_append (hsize : 0 < size) {a : List α} (hdvd : size ∣ a.length) (b : List α) :
    blocks size (a ++ b) = blocks size a ++ blocks size b := by
  induction hn : a.length using Nat.strong_induction_on generalizing a with
  | _ n ih =>
    by_cases ha : a = []
    · simp [ha]
    · have hpos := List.length_pos_iff.mpr ha
      have hle : size ≤ a.length := Nat.le_of_dvd hpos hdvd
      rw [blocks_of_ne_nil hsize (by simp [ha]), blocks_of_ne_nil hsize ha,
        List.take_append_of_le_length hle, List.drop_append_of_le_length hle,
        ih (a.drop size).length (by simp only [List.length_drop]; omega)
          (by simpa using Nat.dvd_sub hdvd (dvd_refl size)) rfl]
      simp

/-- **A proper prefix of a block list is made of full blocks.**  Only the last block may be short,
so a string whose blocks are followed by another one has a length divisible by the block size. -/
lemma dvd_length_of_blocks_prefix (hsize : 0 < size) {a b : List α} {block : List α}
    {rest : List (List α)} (h : blocks size b = blocks size a ++ block :: rest) :
    size ∣ a.length ∧ ∃ c, b = a ++ c ∧ blocks size c = block :: rest := by
  induction hn : a.length using Nat.strong_induction_on generalizing a b with
  | _ n ih =>
    by_cases ha : a = []
    · subst ha
      exact ⟨by subst hn; simp, b, by simp, by simpa using h⟩
    · have hpos := List.length_pos_iff.mpr ha
      have hb : b ≠ [] := by
        rintro rfl
        simp at h
      rw [blocks_of_ne_nil hsize hb, blocks_of_ne_nil hsize ha, List.cons_append,
        List.cons.injEq] at h
      obtain ⟨htake, hdrop⟩ := h
      obtain ⟨hdvd, c, hc, hblocks⟩ :=
        ih (a.drop size).length (by simp only [List.length_drop]; omega) hdrop rfl
      -- the block of `a` was not the last one of `b`, so it is full
      have hfull : size ≤ a.length := by
        by_contra hlt
        have hdropb : b.drop size ≠ [] := by
          intro hnil
          rw [hnil] at hdrop
          simp at hdrop
        have hblen : size < b.length := by
          by_contra hle
          exact hdropb (List.drop_eq_nil_of_le (by omega))
        have hlen := congrArg List.length htake
        simp only [List.length_take] at hlen
        omega
      refine ⟨?_, c, ?_, hblocks⟩
      · have hsum : a.length = (a.drop size).length + size := by
          simp only [List.length_drop]; omega
        rw [← hn, hsum]
        exact Nat.dvd_add hdvd (dvd_refl size)
      · calc b = b.take size ++ b.drop size := (List.take_append_drop size b).symm
          _ = a.take size ++ (a.drop size ++ c) := by rw [htake, hc]
          _ = a ++ c := by rw [← List.append_assoc, List.take_append_drop]

end Blocks

end ExperimentControl
