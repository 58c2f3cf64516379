import ExperimentControl.Managed.History

/-!
# Pages of a metrics file

The page that a reader of the append-only metrics file makes after a cursor, on shared storage or in
the worker itself.

* `pageAfter`, `missingPage` — the page after a cursor, and that of a Run without a metrics file.
* `Stands` — the cursor names the file, and a prefix of it.
* **`pageAfter_validate`** — the page after such a cursor is accepted, and leaves such a cursor.
-/

namespace ExperimentControl

namespace Managed

open Slurm

structure MetricsFile where
  inode : ℕ
  bytes : Bytes
  deriving DecidableEq, Repr

section Pages

variable (sha256 : Bytes → String) (configSha256 : String)

/-- The page of a Run that finished without a metrics file. -/
def missingPage : Page where
  contract := HISTORY_CONTRACT
  configSha256 := configSha256
  start := none
  next := ⟨0, 0, sha256Bytes sha256 []⟩
  bytes := []
  totalBytes := 0
  processFinished := true
  missingAfterFinish := true

/-- The page of a file after a cursor. -/
def pageAfter (file : MetricsFile) (finished : Bool) (start : Option Cursor) : Page :=
  let offset := Page.offset start
  let count := min (file.bytes.length - offset) PAGE_BYTES
  { contract := HISTORY_CONTRACT
    configSha256 := configSha256
    start := start
    next := ⟨file.inode, offset + count, sha256Bytes sha256 (file.bytes.take (offset + count))⟩
    bytes := (file.bytes.drop offset).take count
    totalBytes := file.bytes.length
    processFinished := finished }

end Pages

/-- A cursor that stands in a file: it names the file, and its prefix is what it was hashed from. -/
structure Stands (sha256 : Bytes → String) (file : MetricsFile) (cursor : Cursor) : Prop where
  within : cursor.offsetBytes ≤ file.bytes.length
  inode : cursor.inode = file.inode
  hash : cursor.prefixSha256 = sha256Bytes sha256 (file.bytes.take cursor.offsetBytes)

lemma cursor_valid {sha256 : Bytes → String} (hsha : ∀ bytes, isSha256 (sha256 bytes) = true)
    {cursor : Cursor} {bytes : Bytes} (h : cursor.prefixSha256 = sha256Bytes sha256 bytes) :
    cursor.validate = .ok () := by
  rw [Cursor.validate, reject_eq_ok, not_not, h, sha256Bytes]
  exact validDigest_append (hsha bytes)

lemma offset_le {sha256 : Bytes → String} {file : MetricsFile} {start : Option Cursor}
    (h : ∀ cursor, start = some cursor → Stands sha256 file cursor) :
    Page.offset start ≤ file.bytes.length := by
  cases start with
  | none => exact Nat.zero_le _
  | some cursor => exact (h cursor rfl).within

/-- **The page after a cursor that stands in the file** is accepted against the cursor, and the cursor
it leaves stands in the file again. -/
theorem pageAfter_validate {sha256 : Bytes → String} {configSha256 : String} {file : MetricsFile}
    {finished : Bool} {start : Option Cursor} (hsha : ∀ bytes, isSha256 (sha256 bytes) = true)
    (hconfig : validDigest configSha256 = true) (hsize : file.bytes.length < 2 ^ 64)
    (hstart : ∀ cursor, start = some cursor → Stands sha256 file cursor) :
    let page := pageAfter sha256 configSha256 file finished start
    page.validate sha256 start = .ok () ∧ Stands sha256 file page.next := by
  intro page
  have hoffset := offset_le hstart
  have hcount : page.bytes.length = min (file.bytes.length - Page.offset start) PAGE_BYTES := by
    simp [page, pageAfter]
  have hnext : page.next.offsetBytes = Page.offset start + page.bytes.length := by rw [hcount]; rfl
  have hwithin : page.next.offsetBytes ≤ file.bytes.length := by omega
  have hcursor : start.forM Cursor.validate = .ok () :=
    option_forM_eq_ok.mpr fun cursor hcursor => cursor_valid hsha (hstart cursor hcursor).hash
  have hempty : page.bytes = [] → page.next.offsetBytes = Page.offset start := by
    intro h
    rw [hnext, h, List.length_nil, Nat.add_zero]
  have hsame : ∀ cursor, start = some cursor → cursor.inode = page.next.inode :=
    fun cursor hcursor => (hstart cursor hcursor).inode
  have hhash : page.next.prefixSha256 = sha256Bytes sha256 (file.bytes.take page.next.offsetBytes) :=
    rfl
  have hvalid : page.validate sha256 start = .ok () := by
    unfold Page.validate
    refine bind_eq_ok.mpr ⟨(), cursor_valid hsha hhash, bind_eq_ok.mpr ⟨(), hcursor, ?_⟩⟩
    refine bind_eq_ok.mpr ⟨(), reject_eq_ok.mpr ?_, ?_⟩
    · rintro (h | h | h | h | h | h | h)
      · exact h rfl
      · exact h hconfig
      · exact h rfl
      · omega
      · exact h (Page.checkedAdd_eq_some.mpr ⟨by rw [← hnext]; omega, hnext.symm⟩)
      · exact absurd hwithin (not_le.mpr h)
      · exact absurd h.1 Bool.false_ne_true
    refine bind_eq_ok.mpr ⟨_, Page.unsignedSub_eq_ok.mpr ⟨hoffset, rfl⟩, ?_⟩
    refine bind_eq_ok.mpr ⟨(), reject_eq_ok.mpr ?_, reject_eq_ok.mpr ?_⟩
    · rintro (h | h)
      · exact h hcount
      · obtain ⟨cursor, rfl, hcursor⟩ := (Option.any_eq_true _ _).mp h
        rw [decide_eq_true_eq] at hcursor
        rcases hcursor with hinode | ⟨hbytes, hprefix⟩
        · exact hinode (hsame cursor rfl)
        · rw [(hstart cursor rfl).hash, hhash, hempty hbytes] at hprefix
          exact hprefix rfl
    · rintro ⟨hzero, hdiffers⟩
      refine hdiffers ?_
      rw [hhash, hnext, hzero, Nat.zero_add, hcount]
      simp only [page, pageAfter, hzero, List.drop_zero]
  exact ⟨hvalid, hwithin, rfl, hhash⟩

end Managed

end ExperimentControl
