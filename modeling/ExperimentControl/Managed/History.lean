import ExperimentControl.Slurm.Helper

/-!
# Metric history pages

`Cursor` and `Page` of `core/src/managed/history.rs`: an append-only metrics file is handed over
page by page, and each page is checked against the cursor that the page before it left.

* `Page.validate` — the check of one page against one cursor.
* `Page.validate_eq_ok` — what an accepted page is.
* `Chain`, **`Chain.tiled`** — pages checked one after another tile the file from its start.
* **`validate_ne_underflow`** — the subtraction in the check never goes below zero.
-/

namespace ExperimentControl

namespace Managed

open Slurm

/-! ## Cursors and pages -/

def PAGE_BYTES : ℕ := 128 * 1024

def HISTORY_CONTRACT : String := "managed-metric-history.v1"

/-- What checking a page ends with when it does not accept it: a refusal, or an unsigned
subtraction below zero. -/
inductive PageFault
  | refused (error : HelperError)
  | underflow
  deriving DecidableEq, Repr

/-- `checked_add` of two 64-bit numbers. -/
def checkedAdd (a b : ℕ) : Option ℕ := if a + b < 2 ^ 64 then some (a + b) else none

/-- An unsigned subtraction, with the step below zero as a fault of its own. -/
def unsignedSub (a b : ℕ) : Except PageFault ℕ := if b ≤ a then .ok (a - b) else .error .underflow

structure Cursor where
  inode : ℕ
  offsetBytes : ℕ
  prefixSha256 : String
  deriving DecidableEq, Repr

def Cursor.validate (cursor : Cursor) : Except PageFault Unit :=
  reject (¬validDigest cursor.prefixSha256) (.refused .metadata)

structure Page where
  contract : String
  configSha256 : String
  start : Option Cursor
  next : Cursor
  bytes : Bytes
  totalBytes : ℕ
  processFinished : Bool
  missingAfterFinish : Bool := false
  deriving DecidableEq, Repr

namespace Page

/-- The offset a page has to start at behind a cursor. -/
def offset (start : Option Cursor) : ℕ := (start.map Cursor.offsetBytes).getD 0

def validate (sha256 : Bytes → String) (page : Page) (start : Option Cursor) :
    Except PageFault Unit := do
  page.next.validate
  start.forM Cursor.validate
  let offset := offset start
  reject (page.contract ≠ HISTORY_CONTRACT ∨ ¬validDigest page.configSha256 ∨
    page.start ≠ start ∨ page.bytes.length > PAGE_BYTES ∨
    checkedAdd offset page.bytes.length ≠ some page.next.offsetBytes ∨
    page.next.offsetBytes > page.totalBytes ∨
    page.missingAfterFinish ∧ (¬page.processFinished ∨ page.totalBytes ≠ 0 ∨
      page.next.inode ≠ 0 ∨ start.isSome)) (.refused .metadata)
  let room ← unsignedSub page.totalBytes offset
  reject (page.bytes.length ≠ min room PAGE_BYTES ∨
    start.any fun v => v.inode ≠ page.next.inode ∨
      page.bytes = [] ∧ v.prefixSha256 ≠ page.next.prefixSha256) (.refused .metadata)
  -- The first page holds the whole hashed prefix, so its hash is checked here too.
  reject (offset = 0 ∧ sha256Bytes sha256 page.bytes ≠ page.next.prefixSha256) (.refused .content)

def complete (page : Page) : Bool :=
  page.processFinished ∧ page.next.offsetBytes = page.totalBytes

/-- Where a page begins in the file, by its own account. -/
def first (page : Page) : ℕ := offset page.start

/-- Where a page ends in the file. -/
def last (page : Page) : ℕ := page.next.offsetBytes

/-- A page is complete exactly when it is marked finished and its end is the total. -/
lemma complete_iff {page : Page} :
    page.complete = true ↔ page.processFinished = true ∧ page.last = page.totalBytes := by
  simp [complete, last]

/-! ## Accepted pages -/

/-- What the check of a page against a cursor establishes. -/
structure Accepted (page : Page) (start : Option Cursor) : Prop where
  bound : page.start = start
  ends : page.first + page.bytes.length = page.last
  within : page.last ≤ page.totalBytes
  filled : page.bytes.length = min (page.totalBytes - page.first) PAGE_BYTES
  sameFile : ∀ cursor, start = some cursor → cursor.inode = page.next.inode

variable {sha256 : Bytes → String} {page : Page} {start : Option Cursor}

lemma unsignedSub_eq_ok {a b c : ℕ} : unsignedSub a b = .ok c ↔ b ≤ a ∧ a - b = c := by
  unfold unsignedSub
  split_ifs with h <;> simp [h]

lemma checkedAdd_eq_some {a b c : ℕ} : checkedAdd a b = some c ↔ a + b < 2 ^ 64 ∧ a + b = c := by
  unfold checkedAdd
  split_ifs with h
  · simp only [Option.some.injEq, h, true_and]
  · simp only [h, false_and]

/-- **An accepted page continues its cursor.** -/
theorem validate_eq_ok (h : page.validate sha256 start = .ok ()) : page.Accepted start := by
  unfold validate at h
  dsimp only at h
  obtain ⟨⟨⟩, -, h⟩ := bind_eq_ok.mp h
  obtain ⟨⟨⟩, -, h⟩ := bind_eq_ok.mp h
  obtain ⟨⟨⟩, hbound, h⟩ := bind_eq_ok.mp h
  obtain ⟨room, hroom, h⟩ := bind_eq_ok.mp h
  obtain ⟨⟨⟩, hfile, -⟩ := bind_eq_ok.mp h
  simp only [reject_eq_ok, not_or, not_not, gt_iff_lt, not_lt] at hbound
  obtain ⟨-, -, hstart, -, hnext, hwithin, -⟩ := hbound
  obtain ⟨-, hends⟩ := checkedAdd_eq_some.mp hnext
  obtain ⟨-, rfl⟩ := unsignedSub_eq_ok.mp hroom
  rw [reject_eq_ok, not_or, not_not] at hfile
  subst hstart
  refine ⟨rfl, hends, hwithin, hfile.1, ?_⟩
  rintro cursor hcursor
  by_contra hne
  exact hfile.2 (by simp [hcursor, hne])

end Page

/-- **The subtraction in the check never goes below zero**, whatever page and cursor it is given:
the end of the page was compared with the total first. -/
theorem validate_ne_underflow (sha256 : Bytes → String) (page : Page) (start : Option Cursor) :
    page.validate sha256 start ≠ .error .underflow := by
  have hcursor : ∀ cursor : Cursor, cursor.validate ≠ .error .underflow := by
    intro cursor h
    simp [Cursor.validate] at h
  intro h
  unfold Page.validate at h
  dsimp only at h
  rcases bind_eq_error.mp h with h | ⟨⟨⟩, -, h⟩
  · exact hcursor _ h
  rcases bind_eq_error.mp h with h | ⟨⟨⟩, -, h⟩
  · cases start with
    | none => cases h
    | some cursor => exact hcursor cursor h
  rcases bind_eq_error.mp h with h | ⟨⟨⟩, hbound, h⟩
  · simp at h
  simp only [reject_eq_ok, not_or, not_not, gt_iff_lt, not_lt] at hbound
  obtain ⟨-, -, -, -, hnext, hwithin, -⟩ := hbound
  have hends := (Page.checkedAdd_eq_some.mp hnext).2
  rcases bind_eq_error.mp h with h | ⟨room, -, h⟩
  · -- The end of the page is between the offset and the total.
    rw [unsignedSub, if_pos (by omega)] at h
    cases h
  rcases bind_eq_error.mp h with h | ⟨⟨⟩, -, h⟩
  · simp at h
  · simp at h

/-! ## Pages one after another -/

/-- Pages that were each checked against the cursor the page before them left. -/
inductive Chain (sha256 : Bytes → String) : Option Cursor → List Page → Option Cursor → Prop
  | nil (cursor : Option Cursor) : Chain sha256 cursor [] cursor
  | cons {start finish : Option Cursor} {page : Page} {pages : List Page}
      (accepted : page.validate sha256 start = .ok ())
      (rest : Chain sha256 (some page.next) pages finish) :
      Chain sha256 start (page :: pages) finish

/-- Pages that tile one file from `origin` on. -/
structure Tiled (origin : ℕ) (pages : List Page) : Prop where
  /-- The first page begins at the origin, and every other one where the page before it ends. -/
  begins : ∀ page ∈ pages.head?, page.first = origin
  contiguous : pages.IsChain fun page next => next.first = page.last
  /-- A page holds one byte for each offset between its ends. -/
  lengths : ∀ page ∈ pages, page.first + page.bytes.length = page.last
  disjoint : pages.Pairwise fun page later => page.last ≤ later.first
  oneFile : ∀ page ∈ pages, ∀ other ∈ pages, page.next.inode = other.next.inode
  filled : ∀ page ∈ pages, page.bytes.length = PAGE_BYTES ∨ page.last = page.totalBytes
  within : ∀ page ∈ pages, page.last ≤ page.totalBytes
  /-- The bytes handed over so far are as many as the last page's end says. -/
  covered : origin + (pages.flatMap Page.bytes).length = (pages.getLast?.map Page.last).getD origin

namespace Chain

variable {sha256 : Bytes → String} {start finish : Option Cursor} {pages : List Page}

/-- One more page, checked against the cursor a chain has left. -/
lemma append {page : Page} (h : Chain sha256 start pages finish)
    (accepted : page.validate sha256 finish = .ok ()) :
    Chain sha256 start (pages ++ [page]) (some page.next) := by
  induction h with
  | nil => exact .cons accepted (.nil _)
  | cons first rest ih => exact .cons first (ih accepted)

/-- Every page begins at or behind the cursor the chain starts from. -/
lemma offset_le (h : Chain sha256 start pages finish) :
    ∀ page ∈ pages, Page.offset start ≤ page.first := by
  induction h with
  | nil => simp
  | @cons start finish page pages accepted rest ih =>
    have haccepted := Page.validate_eq_ok accepted
    have hfirst : page.first = Page.offset start := by rw [Page.first, haccepted.bound]
    have hends := haccepted.ends
    rintro later (_ | ⟨_, hlater⟩)
    · exact hfirst.ge
    · have := ih later hlater
      simp only [Page.offset, Option.map_some, Option.getD_some, Page.last] at this hends hfirst ⊢
      omega

/-- Every page is of the file of the cursor the chain starts from. -/
lemma inode_eq (h : Chain sha256 start pages finish) :
    ∀ cursor, start = some cursor → ∀ page ∈ pages, page.next.inode = cursor.inode := by
  induction h with
  | nil => simp
  | @cons start finish page pages accepted rest ih =>
    rintro cursor hcursor later hlater
    have hpage := (Page.validate_eq_ok accepted).sameFile cursor hcursor
    rcases List.mem_cons.mp hlater with rfl | hlater
    · exact hpage.symm
    · rw [ih page.next rfl later hlater, hpage]

/-- The cursor left behind is the one of the last page. -/
lemma finish_eq (h : Chain sha256 start pages finish) :
    finish = (pages.getLast?.map Page.next).or start := by
  induction h with
  | nil => rfl
  | @cons start finish page pages accepted rest ih =>
    rw [ih]
    cases pages <;> simp [List.getLast?_cons]

/-- **Checked pages tile the file** from the offset the chain starts at. -/
theorem tiled (h : Chain sha256 start pages finish) : Tiled (Page.offset start) pages := by
  induction h with
  | nil => constructor <;> simp
  | @cons start finish page pages accepted rest ih =>
    have haccepted := Page.validate_eq_ok accepted
    have hfirst : page.first = Page.offset start := by rw [Page.first, haccepted.bound]
    have hlast : Page.offset (some page.next) = page.last := rfl
    have hinode := rest.inode_eq page.next rfl
    have hends := haccepted.ends
    have hwithin := haccepted.within
    rw [hlast] at ih
    constructor
    · simpa using hfirst
    · cases pages with
      | nil => simp
      | cons next pages =>
        rw [List.isChain_cons_cons]
        exact ⟨ih.begins next (by simp), ih.contiguous⟩
    · simpa using ⟨hends, ih.lengths⟩
    · exact List.pairwise_cons.mpr ⟨rest.offset_le, ih.disjoint⟩
    · rintro one hone other hother
      have hall : ∀ p ∈ page :: pages, p.next.inode = page.next.inode := by simpa using hinode
      rw [hall one hone, hall other hother]
    · have hfilled := haccepted.filled
      have : page.bytes.length = PAGE_BYTES ∨ page.last = page.totalBytes := by omega
      simpa using ⟨this, ih.filled⟩
    · simpa using ⟨hwithin, ih.within⟩
    · have hcovered := ih.covered
      rw [List.flatMap_cons, List.length_append, ← Nat.add_assoc, ← hfirst, hends, hcovered]
      cases pages <;> simp [List.getLast?_cons]

end Chain

end Managed

end ExperimentControl
