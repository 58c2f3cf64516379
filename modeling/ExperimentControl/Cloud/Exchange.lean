import ExperimentControl.Json.Value
import ExperimentControl.Managed.Evidence
import ExperimentControl.Managed.History

/-!
# The worker exchange

`Packet` of `core/src/cloud/exchange.rs`: a worker hands over its evidence and its metrics file in
numbered packets, each of which names the packet before it. A packet with a page of the file is
checked against the cursor that the exchange has reached.

* `Packet.follows` — whether a packet may come next.
* `Received` — packets taken one after another, from an exchange that has seen none.
* **`history_pages_tile`** — the pages taken tile the file from its start, and none is taken once
  the file is drained.
-/

namespace ExperimentControl

namespace Cloud

open Managed

/-- The errors of the exchange: what was wrong. -/
structure ExchangeError where
  what : String
  deriving DecidableEq, Repr

/-! ## Packets -/

inductive InputPhase
  | initializing
  | waitingForCache
  | downloading
  | extracting
  | verifying
  | publishing
  | mounting
  | ready
  | failed
  deriving DecidableEq, Repr

/-- A record of input delivery. The measurements are kept as the texts of their numbers. -/
structure InputRecord where
  recordedAt : String
  phase : InputPhase
  assetId : String
  receivedBytes : Option String
  expectedBytes : Option String
  elapsedSeconds : Option String
  bytesPerSecond : Option String
  httpStatus : Option String
  errno : Option String
  code : Option String
  errorClass : Option String
  failedPhase : Option String
  deriving DecidableEq, Repr

structure Packet where
  contract : String
  sequence : ℕ
  previousSha256 : Option String
  packageSha256 : String
  evidence : Evidence
  history : Option Managed.Page
  checkpoint : Option Json
  inputs : List InputRecord
  checkpointError : Option String
  deriving DecidableEq, Repr

/-- The number of the packet behind packet `sequence`. -/
def nextSequence (sequence : ℕ) : Except ExchangeError ℕ :=
  match checkedAdd sequence 1 with
  | none => .error ⟨"exchange sequence"⟩
  | some next => .ok next

/-- Whether a packet may come behind packet `sequence` with the digest `previous`, for an exchange
that has reached `cursor` and may have drained the file. -/
def Packet.follows (sha256 : Bytes → String) (packet : Packet) (sequence : ℕ)
    (previous : Option String) (cursor : Option Cursor) (complete : Bool) :
    Except ExchangeError Unit := do
  let next ← nextSequence sequence
  reject (packet.sequence ≠ next ∨ packet.previousSha256 ≠ previous) ⟨"exchange order"⟩
  match packet.history with
  | none => .ok ()
  | some page =>
      reject complete ⟨"history already drained"⟩
      (page.validate sha256 cursor).mapError fun _ => ⟨"exchange cursor"⟩

/-! ## Packets one after another -/

/-- How far an exchange has come: the last packet taken, the cursor its pages left, and whether
the file was drained. -/
structure Progress where
  sequence : ℕ
  previous : Option String
  cursor : Option Cursor
  complete : Bool
  deriving DecidableEq, Repr

/-- An exchange that has seen no packet. -/
def Progress.start : Progress := ⟨0, none, none, false⟩

/-- What taking a packet with a digest makes of the progress. -/
def Progress.take (progress : Progress) (packet : Packet) (digest : String) : Progress where
  sequence := packet.sequence
  previous := some digest
  cursor := (packet.history.map Managed.Page.next).or progress.cursor
  complete := (packet.history.map Managed.Page.complete).getD progress.complete

/-- Packets taken one after another: each follows the progress it finds. -/
inductive Received (sha256 : Bytes → String) (digest : Packet → String) :
    List Packet → Progress → Prop
  | start : Received sha256 digest [] .start
  | take {packets : List Packet} {progress : Progress} {packet : Packet}
      (before : Received sha256 digest packets progress)
      (follows : packet.follows sha256 progress.sequence progress.previous progress.cursor
        progress.complete = .ok ()) :
      Received sha256 digest (packets ++ [packet]) (progress.take packet (digest packet))

/-- The pages some packets carry. -/
def pagesOf (packets : List Packet) : List Managed.Page := packets.filterMap Packet.history

variable {sha256 : Bytes → String} {digest : Packet → String} {packets : List Packet}
  {progress : Progress}

/-- A packet with a page follows when the page continues the cursor of a file not drained. -/
lemma Packet.follows_page {packet : Packet} {page : Managed.Page} {sequence : ℕ}
    {previous : Option String} {cursor : Option Cursor} {complete : Bool}
    (hpage : packet.history = some page)
    (h : packet.follows sha256 sequence previous cursor complete = .ok ()) :
    complete = false ∧ page.validate sha256 cursor = .ok () := by
  unfold Packet.follows at h
  rw [hpage] at h
  obtain ⟨next, -, h⟩ := bind_eq_ok.mp h
  obtain ⟨⟨⟩, -, h⟩ := bind_eq_ok.mp h
  obtain ⟨⟨⟩, hcomplete, h⟩ := bind_eq_ok.mp h
  rw [reject_eq_ok, Bool.not_eq_true] at hcomplete
  refine ⟨hcomplete, ?_⟩
  rcases hvalid : page.validate sha256 cursor with e | ⟨⟩
  · rw [hvalid] at h
    cases h
  · rfl

/-- **The pages taken form a chain** up to the cursor, and the file is drained exactly when one of
them was complete. -/
theorem Received.chain (h : Received sha256 digest packets progress) :
    Chain sha256 none (pagesOf packets) progress.cursor ∧
      (progress.complete = true ↔ ∃ page ∈ pagesOf packets, page.complete = true) := by
  induction h with
  | start => exact ⟨.nil none, by simp [pagesOf, Progress.start]⟩
  | @take packets progress packet before follows ih =>
    obtain ⟨hchain, hcomplete⟩ := ih
    rcases hpage : packet.history with _ | page
    · have hpages : pagesOf (packets ++ [packet]) = pagesOf packets := by
        simp [pagesOf, List.filterMap_append, hpage]
      rw [hpages]
      simpa [Progress.take, hpage] using And.intro hchain hcomplete
    · obtain ⟨hopen, hvalid⟩ := Packet.follows_page hpage follows
      have hpages : pagesOf (packets ++ [packet]) = pagesOf packets ++ [page] := by
        simp [pagesOf, List.filterMap_append, hpage]
      rw [hopen] at hcomplete
      rw [hpages]
      refine ⟨?_, ?_⟩
      · simpa [Progress.take, hpage] using hchain.append hvalid
      · simp only [Progress.take, hpage, Option.map_some, Option.getD_some, List.mem_append,
          List.mem_singleton]
        constructor
        · intro hlast
          exact ⟨page, Or.inr rfl, hlast⟩
        · rintro ⟨other, hother | rfl, hlast⟩
          · exact absurd (hcomplete.mpr ⟨other, hother, hlast⟩) (by simp)
          · exact hlast

/-- A drained file takes no more pages. -/
lemma Packet.follows_drained {packet : Packet} {page : Managed.Page} (hpage : packet.history = some page)
    (sequence : ℕ) (previous : Option String) (cursor : Option Cursor) :
    packet.follows sha256 sequence previous cursor true ≠ .ok () := by
  intro h
  exact absurd (Packet.follows_page hpage h).1 (by simp)

/-- **History pages tile the file.** Pages checked against one another's cursors are contiguous
from offset zero, of one file, each full or reaching its total; the check never subtracts below
zero; and an exchange takes pages in such a chain only, up to the first complete one. -/
theorem history_pages_tile (sha256 : Bytes → String) (digest : Packet → String) :
    (∀ pages finish, Chain sha256 none pages finish → Tiled 0 pages) ∧
    (∀ (page : Managed.Page) start, page.validate sha256 start ≠ .error .underflow) ∧
    (∀ page : Managed.Page, page.complete = true ↔
      page.processFinished = true ∧ page.last = page.totalBytes) ∧
    ∀ packets progress, Received sha256 digest packets progress →
      Chain sha256 none (pagesOf packets) progress.cursor ∧
      (progress.complete = true ↔ ∃ page ∈ pagesOf packets, page.complete = true) ∧
      (progress.complete = true → ∀ (packet : Packet) page, packet.history = some page →
        packet.follows sha256 progress.sequence progress.previous progress.cursor
          progress.complete ≠ .ok ()) := by
  refine ⟨fun pages finish h => h.tiled, fun page start => validate_ne_underflow sha256 page start,
    fun page => Managed.Page.complete_iff, ?_⟩
  rintro packets progress h
  obtain ⟨hchain, hcomplete⟩ := h.chain
  refine ⟨hchain, hcomplete, ?_⟩
  rintro hdrained packet page hpage
  rw [hdrained]
  exact Packet.follows_drained hpage _ _ _

/-! ## A sampled exchange -/

/-- SHA-256 on the two prefixes of the sampled file. -/
def sampleSha256 (bytes : Bytes) : String :=
  if bytes = [10] then "01ba4719c80b6fe911b091a7c05124b64eeece964e09c058ef8f9805daca546b"
  else "75a11da44c802486bc6f65640aa48a730f0f684c5c07a42ba3cd1735eb3fb070"

def sampleFirst : Managed.Page where
  contract := HISTORY_CONTRACT
  configSha256 := Slurm.sha256Bytes sampleSha256 [10, 10]
  start := none
  next := ⟨7, 1, Slurm.sha256Bytes sampleSha256 [10]⟩
  bytes := [10]
  totalBytes := 1
  processFinished := false

def sampleLast : Managed.Page where
  contract := HISTORY_CONTRACT
  configSha256 := Slurm.sha256Bytes sampleSha256 [10, 10]
  start := some ⟨7, 1, Slurm.sha256Bytes sampleSha256 [10]⟩
  next := ⟨7, 2, Slurm.sha256Bytes sampleSha256 [10, 10]⟩
  bytes := [10]
  totalBytes := 2
  processFinished := true

lemma validDigest_sample (bytes : Bytes) :
    validDigest (Slurm.sha256Bytes sampleSha256 bytes) = true := by
  refine validDigest_append ?_
  rw [sampleSha256]
  split
  · exact isSha256_ofList rfl (by decide)
  · exact isSha256_ofList rfl (by decide)

lemma sampleFirst_validate : sampleFirst.validate sampleSha256 none = .ok () := by
  simp [Page.validate, Cursor.validate, sampleFirst, validDigest_sample, reject, Page.offset,
    checkedAdd, unsignedSub, PAGE_BYTES]

lemma sampleLast_validate :
    sampleLast.validate sampleSha256 (some sampleFirst.next) = .ok () := by
  have hnext : sampleLast.next.validate = .ok () :=
    reject_eq_ok.mpr (by simp [sampleLast, validDigest_sample])
  have hcursor : sampleFirst.next.validate = .ok () :=
    reject_eq_ok.mpr (by simp [sampleFirst, validDigest_sample])
  have hstart : sampleLast.start = some sampleFirst.next := rfl
  have hconfig : validDigest sampleLast.configSha256 = true := validDigest_sample _
  have hsome (check : Cursor → Except PageFault Unit) (cursor : Cursor) :
      (some cursor).forM check = check cursor := rfl
  have hoffset : Page.offset (some sampleFirst.next) = 1 := rfl
  unfold Page.validate
  simp only [bind_eq_ok, reject_eq_ok, hnext, hconfig, hoffset, hstart, hsome, hcursor]
  refine ⟨(), trivial, (), trivial, (), ?_, 1, rfl, (), ?_, by simp⟩
  · simp [checkedAdd, PAGE_BYTES, sampleLast]
  · simp [PAGE_BYTES, sampleLast, sampleFirst]

theorem history_pages_tile_sampled : Tiled 0 [sampleFirst, sampleLast] :=
  (history_pages_tile sampleSha256 fun _ => "").1 [sampleFirst, sampleLast] (some sampleLast.next)
    (.cons sampleFirst_validate (.cons sampleLast_validate (.nil _)))

end Cloud

end ExperimentControl
