import ExperimentControl.Datasets

/-!
# Parts of an archive

The part arithmetic of `core/src/multipart.rs` on machine words: an operation that would leave 64
bits fails with an error of its own, so that what cannot overflow is something to prove.

* `Tiles` — consecutive ranges, one after another from zero to a size.
* `partCount`, `partSize` — the plan of an archive.
* `partCount_toNat`, `partSize_toNat` — the same plan over the natural numbers.
* `partCount_tiles` — the ranges of a plan tile its archive.
-/

namespace ExperimentControl

/-! ## Consecutive ranges -/

/-- The ranges from `start number` to `stop number`, one after another from zero to `size`. -/
structure Tiles (size count : ℕ) (start stop : ℕ → ℕ) : Prop where
  some : 0 < count
  first : start 0 = 0
  contiguous : ∀ number, number + 1 < count → stop number = start (number + 1)
  last : stop (count - 1) = size
  nonempty : ∀ number < count, start number < stop number

namespace Tiles

variable {size count : ℕ} {start stop : ℕ → ℕ}

/-- A later range begins where an earlier one ends, or behind it. -/
lemma stop_le_start (h : Tiles size count start stop) {earlier later : ℕ} (horder : earlier < later)
    (hlater : later < count) : stop earlier ≤ start later := by
  induction later, horder using Nat.le_induction with
  | base => exact (h.contiguous earlier hlater).le
  | succ later horder ih =>
    calc stop earlier ≤ start later := ih (by omega)
      _ ≤ stop later := (h.nonempty later (by omega)).le
      _ = start (later + 1) := h.contiguous later hlater

lemma stop_le (h : Tiles size count start stop) {number : ℕ} (hnumber : number < count) :
    stop number ≤ size := by
  rw [← h.last]
  rcases Nat.lt_or_ge number (count - 1) with hlt | hge
  · exact (h.stop_le_start hlt (by omega)).trans (h.nonempty _ (by omega)).le
  · rw [show number = count - 1 by omega]

lemma disjoint (h : Tiles size count start stop) {number other : ℕ} (hnumber : number < count)
    (hother : other < count) (hne : number ≠ other) :
    Disjoint (Set.Ico (start number) (stop number)) (Set.Ico (start other) (stop other)) := by
  rw [Set.Ico_disjoint_Ico]
  rcases Nat.lt_or_gt_of_ne hne with hlt | hgt
  · exact (min_le_left _ _).trans ((h.stop_le_start hlt hother).trans (le_max_right _ _))
  · exact (min_le_right _ _).trans ((h.stop_le_start hgt hnumber).trans (le_max_left _ _))

/-- Every place is in a range: the ranges up to a number reach from zero to where the last of them
ends. -/
lemma covered (h : Tiles size count start stop) {place : ℕ} (hplace : place < size) :
    ∃ number < count, place ∈ Set.Ico (start number) (stop number) := by
  have reach : ∀ reached < count, place < stop reached →
      ∃ number < count, place ∈ Set.Ico (start number) (stop number) := by
    intro reached
    induction reached with
    | zero =>
      intro hcount hbelow
      exact ⟨0, hcount, by simp [h.first], hbelow⟩
    | succ reached ih =>
      intro hcount hbelow
      rcases Nat.lt_or_ge place (stop reached) with hlt | hge
      · exact ih (by omega) hlt
      · exact ⟨reached + 1, hcount, (h.contiguous reached hcount).symm.le.trans hge, hbelow⟩
  exact reach (count - 1) (Nat.sub_lt h.some one_pos) (hplace.trans_eq h.last.symm)

/-- The ranges cover exactly the places below the size. -/
lemma iUnion (h : Tiles size count start stop) :
    ⋃ number ∈ Set.Iio count, Set.Ico (start number) (stop number) = Set.Ico 0 size := by
  ext place
  simp only [Set.mem_iUnion, Set.mem_Iio, exists_prop, Set.mem_Ico, Nat.zero_le, true_and]
  refine ⟨?_, fun hplace => h.covered hplace⟩
  rintro ⟨number, hnumber, -, hstop⟩
  exact hstop.trans_le (h.stop_le hnumber)

/-- Ranges of one length tile a size, the last of them cut off at it. -/
lemma of_parts {part : ℕ} (hpart : 0 < part) (hsize : 0 < size)
    (hcount : count = size / part + if size % part > 0 then 1 else 0) :
    Tiles size count (· * part) (fun number => number * part + min part (size - number * part)) := by
  have hdiv := Nat.div_add_mod' size part
  have hmod := Nat.mod_lt size hpart
  have hreach : ∀ number, number < count → number * part < size := by
    intro number hnumber
    have hle : number ≤ size / part := by split_ifs at hcount <;> omega
    have hmul := Nat.mul_le_mul_right part hle
    by_cases hexact : size % part > 0
    · omega
    · rw [if_neg hexact, add_zero] at hcount
      have := Nat.mul_lt_mul_of_pos_right (hnumber.trans_eq hcount) hpart
      omega
  have hfull : ∀ number, number + 1 < count → number * part + part ≤ size := by
    intro number hnumber
    have := hreach (number + 1) hnumber
    rw [Nat.add_mul, one_mul] at this
    exact this.le
  have hsome : 0 < count := by
    rcases Nat.eq_zero_or_pos (size / part) with hzero | hpos
    · rw [hzero, zero_mul] at hdiv
      rw [hcount, if_pos (by omega)]
      omega
    · omega
  refine ⟨hsome, by simp, ?_, ?_, ?_⟩
  · intro number hnumber
    have := hfull number hnumber
    simp only [Nat.add_mul, one_mul]
    omega
  · have hlast := hreach (count - 1) (by omega)
    have hover : size ≤ (count - 1) * part + part := by
      rw [← Nat.succ_mul, Nat.succ_eq_add_one, Nat.sub_add_cancel hsome, hcount]
      split_ifs
      · rw [Nat.add_mul]
        omega
      · rw [add_zero]
        omega
    omega
  · intro number hnumber
    have := hreach number hnumber
    omega

end Tiles

namespace Multipart

/-! ## The plan -/

def PART_BYTES : UInt64 := 16 * 1024 * 1024
def MAX_PARTS : UInt64 := 65536

/-- The errors of the source, and an operation whose result has more than 64 bits. -/
inductive Error
  | limit
  | partNumber
  | overflow
  deriving DecidableEq, Repr

def checkedMul (a b : UInt64) : Except Error UInt64 :=
  if a.toNat * b.toNat < 2 ^ 64 then .ok (a * b) else .error .overflow

def checkedSub (a b : UInt64) : Except Error UInt64 :=
  if b ≤ a then .ok (a - b) else .error .overflow

def checkedAdd (a b : UInt64) : Except Error UInt64 :=
  if a.toNat + b.toNat < 2 ^ 64 then .ok (a + b) else .error .overflow

/-- `u64::div_ceil`. -/
def divCeil (a b : UInt64) : Except Error UInt64 :=
  if a % b > 0 then checkedAdd (a / b) 1 else .ok (a / b)

/-- The number of parts of an archive, for a size that `MAX_PARTS` parts can hold. -/
def partCount (size : UInt64) : Except Error UInt64 := do
  reject (size = 0) .limit
  let count ← divCeil size PART_BYTES
  reject (count > MAX_PARTS) .limit
  .ok count

/-- The bytes of a part, by its number from zero. -/
def partSize (size number : UInt64) : Except Error UInt64 := do
  let count ← partCount size
  reject (number ≥ count) .partNumber
  let offset ← checkedMul number PART_BYTES
  .ok (min PART_BYTES (← checkedSub size offset))

/-! ## The plan over the natural numbers -/

lemma toNat_PART_BYTES : PART_BYTES.toNat = 16777216 := rfl

lemma toNat_MAX_PARTS : MAX_PARTS.toNat = 65536 := rfl

/-- A quotient by the length of a part leaves room for one more. -/
lemma divCeil_partBytes (size : UInt64) : ∃ count, divCeil size PART_BYTES = .ok count ∧
    count.toNat = size.toNat / 16777216 + if size.toNat % 16777216 > 0 then 1 else 0 := by
  have hsize := size.toNat_lt
  have hdiv : (size / PART_BYTES).toNat = size.toNat / 16777216 := by
    rw [UInt64.toNat_div, toNat_PART_BYTES]
  have hmod : size % PART_BYTES > 0 ↔ size.toNat % 16777216 > 0 := by
    rw [gt_iff_lt, UInt64.lt_iff_toNat_lt, UInt64.toNat_mod, toNat_PART_BYTES]
    rfl
  unfold divCeil
  by_cases hrest : size.toNat % 16777216 > 0
  · have hroom : (size / PART_BYTES).toNat + (1 : UInt64).toNat < 2 ^ 64 := by
      rw [hdiv, UInt64.toNat_one]
      omega
    rw [if_pos (hmod.mpr hrest), if_pos hrest, checkedAdd, if_pos hroom]
    refine ⟨_, rfl, ?_⟩
    rw [UInt64.toNat_add, Nat.mod_eq_of_lt hroom, hdiv, UInt64.toNat_one]
  · rw [if_neg (mt hmod.mp hrest), if_neg hrest]
    exact ⟨_, rfl, hdiv⟩

/-- An admitted size is not zero, and its plan has a part for each started part length. -/
lemma partCount_eq_ok {size count : UInt64} : partCount size = .ok count ↔
    0 < size.toNat ∧ count.toNat ≤ 65536 ∧
      count.toNat = size.toNat / 16777216 + if size.toNat % 16777216 > 0 then 1 else 0 := by
  obtain ⟨quotient, hquotient, hvalue⟩ := divCeil_partBytes size
  have hzero : size = 0 ↔ size.toNat = 0 := UInt64.toNat_inj.symm
  unfold partCount
  rw [hquotient]
  simp only [bind_eq_ok, reject_eq_ok, gt_iff_lt, UInt64.not_lt, Except.ok.injEq,
    UInt64.le_iff_toNat_le, toNat_MAX_PARTS, hzero]
  constructor
  · rintro ⟨-, hsome, other, rfl, -, hlimit, rfl⟩
    exact ⟨by omega, hlimit, hvalue⟩
  · rintro ⟨hsome, hlimit, hcount⟩
    have hsame : quotient = count := UInt64.toNat_inj.mp (by rw [hvalue, hcount])
    exact ⟨(), by omega, quotient, rfl, (), hsame ▸ hlimit, hsame⟩

lemma partCount_ne_overflow (size : UInt64) : partCount size ≠ .error .overflow := by
  obtain ⟨count, hcount, -⟩ := divCeil_partBytes size
  unfold partCount
  rw [hcount]
  by_cases hzero : size = 0
  · simp [reject, hzero, bind, Except.bind]
  · by_cases hlimit : count > MAX_PARTS <;> simp [reject, hzero, hlimit, bind, Except.bind]

/-- The ranges of the parts an admitted size is cut into. -/
lemma tiles_of_partCount {size count : UInt64} (h : partCount size = .ok count) :
    Tiles size.toNat count.toNat (· * 16777216)
      (fun number => number * 16777216 + min 16777216 (size.toNat - number * 16777216)) := by
  obtain ⟨hsome, -, hcount⟩ := partCount_eq_ok.mp h
  exact Tiles.of_parts (by norm_num) hsome hcount

/-- A part of the plan begins inside the archive. -/
lemma start_lt {size count : UInt64} (h : partCount size = .ok count) {number : ℕ}
    (hnumber : number < count.toNat) : number * 16777216 < size.toNat := by
  have hstart := (tiles_of_partCount h).nonempty number hnumber
  simp only [lt_add_iff_pos_right, lt_min_iff, Nat.sub_pos_iff_lt] at hstart
  exact hstart.2

/-- The place of a part of the plan is a machine word, and so is its size. -/
lemma partSize_of_lt {size count number : UInt64} (h : partCount size = .ok count)
    (hnumber : number.toNat < count.toNat) : ∃ bytes, partSize size number = .ok bytes ∧
      bytes.toNat = min 16777216 (size.toNat - number.toNat * 16777216) := by
  have hstart := start_lt h hnumber
  have hsize := size.toNat_lt
  have hroom : number.toNat * PART_BYTES.toNat < 2 ^ 64 := by
    rw [toNat_PART_BYTES]
    exact hstart.trans hsize
  have hoffset : (number * PART_BYTES).toNat = number.toNat * 16777216 := by
    rw [UInt64.toNat_mul, Nat.mod_eq_of_lt hroom, toNat_PART_BYTES]
  have hinside : number * PART_BYTES ≤ size := by
    rw [UInt64.le_iff_toNat_le, hoffset]
    omega
  have hknown : ¬number ≥ count := by
    rw [ge_iff_le, UInt64.le_iff_toNat_le]
    omega
  refine ⟨min PART_BYTES (size - number * PART_BYTES), ?_, ?_⟩
  · exact bind_eq_ok.mpr ⟨count, h, bind_eq_ok.mpr ⟨(), reject_eq_ok.mpr hknown,
      bind_eq_ok.mpr ⟨_, if_pos hroom, bind_eq_ok.mpr ⟨_, if_pos hinside, rfl⟩⟩⟩⟩
  · rw [UInt64.toNat_min, toNat_PART_BYTES, UInt64.toNat_sub_of_le _ _ hinside, hoffset]

/-- A number behind the plan is refused before any arithmetic. -/
lemma partSize_of_ge {size count number : UInt64} (h : partCount size = .ok count)
    (hnumber : count.toNat ≤ number.toNat) : partSize size number = .error .partNumber := by
  have hunknown : number ≥ count := by rwa [ge_iff_le, UInt64.le_iff_toNat_le]
  unfold partSize
  rw [h]
  simp [reject, hunknown, bind, Except.bind]

lemma partSize_of_error {size number : UInt64} {error : Error} (h : partCount size = .error error) :
    partSize size number = .error error := by
  unfold partSize
  rw [h]
  rfl

lemma partSize_ne_overflow (size number : UInt64) : partSize size number ≠ .error .overflow := by
  cases hcount : partCount size with
  | error error =>
    rw [partSize_of_error hcount]
    exact fun h => partCount_ne_overflow size (by rw [hcount, Except.error.inj h])
  | ok count =>
    rcases Nat.lt_or_ge number.toNat count.toNat with hlt | hge
    · obtain ⟨bytes, hbytes, -⟩ := partSize_of_lt hcount hlt
      rw [hbytes]
      simp
    · rw [partSize_of_ge hcount hge]
      simp

/-- The plan of a machine word is the plan of its number. -/
lemma partCount_toNat (size : UInt64) :
    (partCount size).toOption.map UInt64.toNat = (Datasets.partCount size.toNat).toOption := by
  have hceil : (size.toNat + 16777216 - 1) / 16777216 =
      size.toNat / 16777216 + if size.toNat % 16777216 > 0 then 1 else 0 := by
    split_ifs <;> omega
  obtain ⟨count, hcount, hvalue⟩ := divCeil_partBytes size
  have hzero : size = 0 ↔ size.toNat = 0 := UInt64.toNat_inj.symm
  have hlimit : count > MAX_PARTS ↔ count.toNat > 65536 := UInt64.lt_iff_toNat_lt
  unfold partCount Datasets.partCount
  rw [hcount, Datasets.PART_BYTES, Datasets.MAX_PARTS]
  norm_num only
  rw [hceil, ← hvalue]
  by_cases hsome : size = 0
  · simp [reject, hsome, bind, Except.bind, Except.toOption]
  · by_cases hmany : count > MAX_PARTS
    · simp [reject, hsome, mt hzero.mpr hsome, hmany, hlimit.mp hmany, bind, Except.bind,
        Except.toOption]
    · simp [reject, hsome, mt hzero.mpr hsome, hmany, mt hlimit.mpr hmany, bind, Except.bind,
        Except.toOption]

/-- The parts of a machine word are the parts of its number. -/
lemma partSize_toNat (size number : UInt64) : (partSize size number).toOption.map UInt64.toNat =
    (Datasets.partSize size.toNat number.toNat).toOption := by
  have hcounts := partCount_toNat size
  cases hcount : partCount size with
  | error error =>
    rw [partSize_of_error hcount]
    rw [hcount] at hcounts
    cases hnat : Datasets.partCount size.toNat with
    | error _ => simp [Datasets.partSize, hnat, bind, Except.bind, Except.toOption]
    | ok _ => simp [hnat, Except.toOption] at hcounts
  | ok count =>
    rw [hcount] at hcounts
    cases hnat : Datasets.partCount size.toNat with
    | error _ => simp [hnat, Except.toOption] at hcounts
    | ok natural =>
      have hsame : count.toNat = natural := by simpa [hnat, Except.toOption] using hcounts
      rcases Nat.lt_or_ge number.toNat count.toNat with hlt | hge
      · obtain ⟨bytes, hbytes, hvalue⟩ := partSize_of_lt hcount hlt
        have hknown : ¬number.toNat ≥ natural := by omega
        rw [hbytes]
        simp [Datasets.partSize, hnat, reject, hknown, hvalue, Datasets.PART_BYTES, bind,
          Except.bind, Except.toOption]
      · have hunknown : number.toNat ≥ natural := by omega
        rw [partSize_of_ge hcount hge]
        simp [Datasets.partSize, hnat, reject, hunknown, bind, Except.bind, Except.toOption]

/-! ## What a plan covers -/

/-- Where a part begins in its archive. -/
def partStart (number : ℕ) : ℕ := number * PART_BYTES.toNat

/-- Where a part ends, `partSize` bytes behind its start. -/
def partStop (size : UInt64) (number : ℕ) : ℕ :=
  match partSize size (UInt64.ofNat number) with
  | .ok bytes => partStart number + bytes.toNat
  | .error _ => partStart number

/-- The ranges that the part numbers of an admitted size name tile the archive. -/
lemma tiles_parts {size count : UInt64} (h : partCount size = .ok count) :
    Tiles size.toNat count.toNat partStart (partStop size) := by
  have hplan := tiles_of_partCount h
  have hstop : ∀ number < count.toNat, partStop size number =
      number * 16777216 + min 16777216 (size.toNat - number * 16777216) := by
    intro number hnumber
    have hword : (UInt64.ofNat number).toNat = number :=
      UInt64.toNat_ofNat_of_lt' (hnumber.trans count.toNat_lt)
    obtain ⟨bytes, hbytes, hvalue⟩ := partSize_of_lt h (hword.symm ▸ hnumber)
    rw [partStop, hbytes, partStart, toNat_PART_BYTES]
    simp only [hvalue, hword]
  have hlast := hplan.some
  refine ⟨hlast, hplan.first, fun number hnumber => ?_, ?_, fun number hnumber => ?_⟩
  · rw [hstop number (by omega)]
    exact hplan.contiguous number hnumber
  · rw [hstop _ (by omega)]
    exact hplan.last
  · rw [hstop number hnumber]
    exact hplan.nonempty number hnumber

/-- The parts of an admitted size, and the arithmetic of every size: no operation overflows; there
are at most as many parts as the provider takes; every part but the last is full, and the last is
not empty; and the ranges follow one another, share no byte and cover exactly the archive. -/
theorem partCount_tiles (size : UInt64) :
    partCount size ≠ .error .overflow ∧ (∀ number, partSize size number ≠ .error .overflow) ∧
      ∀ count, partCount size = .ok count →
        count ≤ MAX_PARTS ∧
        (∀ number < count, ∃ bytes offset, partSize size number = .ok bytes ∧
          checkedMul number PART_BYTES = .ok offset ∧ offset.toNat = partStart number.toNat ∧
          0 < bytes ∧ (number.toNat + 1 ≠ count.toNat → bytes = PART_BYTES)) ∧
        (∀ number, number + 1 < count.toNat → partStop size number = partStart (number + 1)) ∧
        (∀ number < count.toNat, ∀ other < count.toNat, number ≠ other →
          Disjoint (Set.Ico (partStart number) (partStop size number))
            (Set.Ico (partStart other) (partStop size other))) ∧
        ⋃ number ∈ Set.Iio count.toNat, Set.Ico (partStart number) (partStop size number) =
          Set.Ico 0 size.toNat := by
  refine ⟨partCount_ne_overflow size, partSize_ne_overflow size, fun count hcount => ?_⟩
  have htiles := tiles_parts hcount
  have hplan := tiles_of_partCount hcount
  refine ⟨?_, fun number hnumber => ?_, htiles.contiguous, fun _ hnumber _ hother hne =>
    htiles.disjoint hnumber hother hne, htiles.iUnion⟩
  · rw [UInt64.le_iff_toNat_le]
    exact (partCount_eq_ok.mp hcount).2.1
  · rw [UInt64.lt_iff_toNat_lt] at hnumber
    have hstart := start_lt hcount hnumber
    have hroom : number.toNat * PART_BYTES.toNat < 2 ^ 64 := by
      rw [toNat_PART_BYTES]
      exact hstart.trans size.toNat_lt
    obtain ⟨bytes, hbytes, hvalue⟩ := partSize_of_lt hcount hnumber
    refine ⟨bytes, number * PART_BYTES, hbytes, if_pos hroom, ?_, ?_, fun hbefore => ?_⟩
    · rw [UInt64.toNat_mul, Nat.mod_eq_of_lt hroom, partStart]
    · rw [UInt64.lt_iff_toNat_lt, hvalue, UInt64.toNat_zero]
      omega
    · have hnext := hplan.contiguous number.toNat (by omega)
      rw [← UInt64.toNat_inj, hvalue, toNat_PART_BYTES]
      omega

end Multipart

end ExperimentControl
