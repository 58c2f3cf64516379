import ExperimentControl.Artifacts.Retention
import ExperimentControl.Json.Literals
import ExperimentControl.Library.Assoc

/-!
# The frame of a publication

Whether what a walk of the result directory archived can be reported at all. The walk pays an
estimated cost for each file, before there is a row for it, and the saved state holds a row for the
receipt, one more for the proof, and the list of what was left out.

* `Packed` — what a walk archives, within its budget.
* `Built` — the lists of what is left out, built row by row.
* **`addAll_summary`** — what a list is after any additions.
* `size_rows_le` — the rows of a file take no more than its estimated cost and five bytes.
* **`publication_fits`** — the state of every packed result validates and fits its frame, before
  and after it is acknowledged and whatever is done with it later.
-/

namespace ExperimentControl

namespace Artifacts

/-! ## What a walk archives -/

/-- What the required files have reserved before the walk begins. -/
def reserve (required : List String) : ℕ := (required.map listedCost).sum

/-- What a walk has listed: the reserve, and the cost of every file that is not required. -/
def listed (required : List String) (files : List FileReceipt) : ℕ :=
  reserve required +
    ((files.filter fun file => file.path ∉ required).map fun file => listedCost file.path).sum

/-- The bundle of a packed result: frozen identities, and files within the budget of the walk. -/
structure Packed (required : List String) (bundle : Bundle) : Prop where
  contract : bundle.contract = PUBLICATION_CONTRACT
  intent : validDigest bundle.intentSha256 = true
  config : validDigest bundle.configSha256 = true
  project : validateId bundle.archive.project = .ok ()
  run : validateId bundle.archive.runId = .ok ()
  attempt : validateAttempt bundle.archive.attemptId = .ok ()
  digest : isSha256 bundle.archive.sha256 = true
  bytes : bundle.archive.bytes ≠ 0
  key : bundle.archive.objectKey = bundle.archive.key
  files : ∀ file ∈ bundle.archive.files,
    exportPath file.path = true ∧ isSha256 file.sha256 = true
  distinct : (bundle.archive.files.map (·.path)).Nodup
  count : bundle.archive.files.length ≤ MAX_FILES
  budget : listed required bundle.archive.files ≤ MAX_LISTED_BYTES

/-- A list of what is left out, with the paths it was built from. A directory with too many entries
is counted without rows. -/
inductive Built : List String → Skipped → Prop
  | empty : Built [] {}
  | add {paths : List String} {skipped : Skipped} (path : String) (reason : SkipReason)
      (before : Built paths skipped) : Built (paths ++ [path]) (skipped.add path reason)
  | count {paths : List String} {skipped : Skipped} (more : UInt64)
      (before : Built paths skipped) :
      Built paths { skipped with unlisted := saturatingAdd skipped.unlisted more }

/-- The proof that an archive was downloaded as it is. -/
def ArchiveReceipt.proof (archive : ArchiveReceipt) : DownloadProof where
  archiveSha256 := archive.sha256
  archiveBytes := archive.bytes
  files := Std.ExtTreeMap.ofList (archive.files.map fun file => (proofPath file.path, file))

/-! ## The rows of a file -/

lemma isPlain_of_exportPath {path : String} (h : exportPath path = true) :
    path.toList.all isPlain = true := by
  simp only [exportPath, receiptPath, decide_eq_true_eq, List.any_eq_true, not_exists, not_and,
    not_or, Bool.not_eq_true] at h
  obtain ⟨⟨-, -, hmarks, -⟩, hcontrol⟩ := h
  refine List.all_eq_true.mpr fun c hc => ?_
  simp only [isPlain, decide_eq_true_eq]
  exact ⟨by simp [hcontrol c hc], (hmarks c hc).1⟩

/-- What a path takes: its bytes, and one more for each quote. -/
def pathCost (path : String) : ℕ := byteLen path + path.toList.count '"'

lemma size_file_le {file : FileReceipt} (hpath : exportPath file.path = true)
    (hsha : isSha256 file.sha256 = true) : file.document.size ≤ 116 + pathCost file.path := by
  have hbytes := size_ofNat_le file.bytes
  obtain ⟨hclear, hlength⟩ := clear_of_isSha256 hsha
  have h₁ : textSize "path" = 6 := textSize_ofList (by decide)
  have h₂ : textSize "bytes" = 7 := textSize_ofList (by decide)
  have h₃ : textSize "sha256" = 8 := textSize_ofList (by decide)
  simp only [FileReceipt.document, Json.size, Json.sizeFields, Json.joinedSize,
    textSize_eq (isPlain_of_exportPath hpath), hclear.textSize_eq, hlength, pathCost]
  omega

lemma textSize_proofPath {path : String} (h : exportPath path = true) :
    textSize (proofPath path) = 10 + pathCost path := by
  have hprefix : byteLen "outputs/" = 8 := by decide
  have hcount : "outputs/".toList.count '"' = 0 := by decide
  have hplain : (proofPath path).toList.all isPlain = true := by
    rw [proofPath, String.toList_append, List.all_append, isPlain_of_exportPath h]
    decide
  rw [textSize_eq hplain, proofPath, byteLen_append, String.toList_append, List.count_append,
    hprefix, hcount, pathCost]
  omega

/-- **The rows of a file**, in the receipt and in the proof, with their commas. -/
lemma size_rows_le {file : FileReceipt} (hpath : exportPath file.path = true)
    (hsha : isSha256 file.sha256 = true) :
    (file.document.size + 1) + (textSize (proofPath file.path) + 1 + file.document.size + 1) ≤
      listedCost file.path + 5 := by
  have hrow := size_file_le hpath hsha
  rw [textSize_proofPath hpath]
  unfold listedCost
  change _ ≤ 240 + 3 * pathCost file.path + 5
  omega

/-- The cost of the files is what the walk has listed at most: a required file has its cost
reserved, and no file is there twice. -/
lemma sum_listedCost_le {required : List String} {files : List FileReceipt}
    (h : (files.map (·.path)).Nodup) :
    (files.map fun file => listedCost file.path).sum ≤ listed required files := by
  have hsplit := ((List.filter_append_perm (fun file => file.path ∈ required) files).map
    fun file => listedCost file.path).sum_eq
  rw [List.map_append, List.sum_append] at hsplit
  have hrequired : ((files.filter fun file => file.path ∈ required).map fun file =>
      listedCost file.path).sum ≤ reserve required := by
    have hnodup : ((files.filter fun file => file.path ∈ required).map (·.path)).Nodup :=
      h.sublist (List.filter_sublist.map _)
    have hsub : (files.filter fun file => file.path ∈ required).map (·.path) ⊆ required := by
      intro path hpath
      obtain ⟨file, hfile, rfl⟩ := List.mem_map.mp hpath
      exact of_decide_eq_true (List.mem_filter.mp hfile).2
    obtain ⟨kept, hperm, hkept⟩ := List.subperm_of_subset hnodup hsub
    have hsame := (hperm.map listedCost).sum_eq
    rw [List.map_map] at hsame
    change _ = ((files.filter fun file => file.path ∈ required).map fun file =>
      listedCost file.path).sum at hsame
    rw [← hsame]
    exact (hkept.map listedCost).sum_le_sum fun _ _ => Nat.zero_le _
  unfold listed
  simp only [decide_not] at hsplit ⊢
  omega

/-- The rows of the files, in the receipt and in the proof. -/
lemma sum_rows_le {files : List FileReceipt}
    (h : ∀ file ∈ files, exportPath file.path = true ∧ isSha256 file.sha256 = true) :
    (files.map fun file => file.document.size + 1).sum +
        (files.map fun file =>
          textSize (proofPath file.path) + 1 + file.document.size + 1).sum ≤
      (files.map fun file => listedCost file.path).sum + 5 * files.length := by
  induction files with
  | nil => simp
  | cons file files ih =>
    obtain ⟨⟨hpath, hsha⟩, hrest⟩ := List.forall_mem_cons.mp h
    have hrow := size_rows_le hpath hsha
    have hrows := ih hrest
    simp only [List.map_cons, List.sum_cons, List.length_cons]
    omega

/-! ## What is left out -/

/-- The characters a control character is escaped by. -/
lemma escapeDefault_spec {c : Char} (h : isControl c = true) :
    byteLen (String.ofList (escapeDefault c)) ≤ 6 ∧ escapeDefault c ≠ [] ∧
      (escapeDefault c).any isControl = false := by
  have hlow : c.toNat < 160 := by
    simp only [isControl, decide_eq_true_eq] at h
    omega
  have hall : ∀ n < 160, byteLen (String.ofList (escapeDefault (Char.ofNat n))) ≤ 6 ∧
      escapeDefault (Char.ofNat n) ≠ [] ∧
      (escapeDefault (Char.ofNat n)).any isControl = false := by decide +kernel
  have hchar : Char.ofNat c.toNat = c := Char.ofNat_toNat c
  have hspec := hall c.toNat hlow
  rwa [hchar] at hspec

/-- The characters a path's character is shown as. -/
def shownChar (c : Char) : List Char := if isControl c then escapeDefault c else [c]

lemma shownChar_spec (c : Char) :
    byteLen (String.ofList (shownChar c)) ≤ 6 ∧ shownChar c ≠ [] ∧
      (shownChar c).any isControl = false := by
  unfold shownChar
  cases hcontrol : isControl c with
  | true => exact escapeDefault_spec hcontrol
  | false =>
    refine ⟨?_, by simp, by simp [hcontrol]⟩
    have hsize := c.utf8Size_le_four
    rw [if_neg (by simp), byteLen, utf8_eq, String.toList_ofList, List.flatMap_cons,
      List.flatMap_nil, List.append_nil, String.length_utf8EncodeChar]
    omega

lemma byteLen_ofList_append (xs ys : List Char) : byteLen (String.ofList (xs ++ ys)) =
    byteLen (String.ofList xs) + byteLen (String.ofList ys) := by
  rw [String.ofList_append, byteLen_append]

/-- What a path is shown as: something of bounded length, without control characters. -/
lemma shownFrom_spec {shown : List Char} {rest : List Char}
    (hlength : byteLen (String.ofList shown) ≤ 517) (hsome : shown ≠ [] ∨ rest ≠ [])
    (hclean : shown.any isControl = false) :
    byteLen (String.ofList (shownFrom shown rest)) ≤ 520 ∧ shownFrom shown rest ≠ [] ∧
      (shownFrom shown rest).any isControl = false := by
  induction rest generalizing shown with
  | nil =>
    refine ⟨le_trans hlength (by decide), ?_, hclean⟩
    rw [shownFrom]
    simpa using hsome
  | cons c rest ih =>
    unfold shownFrom
    by_cases hfull : byteLen (String.ofList shown) ≥ MAX_SKIPPED_PATH
    · rw [if_pos hfull]
      refine ⟨?_, by simp, ?_⟩
      · have hdots : byteLen (String.ofList ['.', '.', '.']) = 3 := by decide
        rw [byteLen_ofList_append, hdots]
        omega
      · rw [List.any_append, hclean]
        decide
    · rw [if_neg hfull]
      obtain ⟨hshort, hne, hplain⟩ := shownChar_spec c
      unfold MAX_SKIPPED_PATH at hfull
      refine ih ?_ ?_ ?_
      · change byteLen (String.ofList (shown ++ shownChar c)) ≤ 517
        rw [byteLen_ofList_append]
        omega
      · exact Or.inl fun hnil => hne (List.append_eq_nil_iff.mp hnil).2
      · change (shown ++ shownChar c).any isControl = false
        rw [List.any_append, hclean, hplain]
        rfl

lemma shownPath_spec {path : String} (h : path ≠ "") :
    byteLen (shownPath path) ≤ 520 ∧ shownPath path ≠ "" ∧
      (shownPath path).toList.any isControl = false := by
  have hchars : path.toList ≠ [] := fun hnil => h (String.toList_eq_nil_iff.mp hnil)
  obtain ⟨hlength, hne, hplain⟩ :=
    @shownFrom_spec [] path.toList (by decide) (Or.inr hchars) (by simp)
  refine ⟨hlength, fun hempty => hne ?_, by rwa [shownPath, String.toList_ofList]⟩
  rw [shownPath] at hempty
  rw [← @String.toList_ofList (shownFrom [] path.toList), hempty]
  rfl

/-- What a list of what is left out is, whatever paths it was built from. -/
structure Bounded (skipped : Skipped) : Prop where
  count : skipped.paths.length ≤ MAX_SKIPPED_ROWS
  rows : ∀ row ∈ skipped.paths, byteLen row.path ≤ 520 ∧ row.path ≠ "" ∧
    row.path.toList.any isControl = false

lemma Built.bounded {paths : List String} {skipped : Skipped} (h : Built paths skipped)
    (hnamed : "" ∉ paths) : Bounded skipped := by
  induction h with
  | empty => exact ⟨Nat.zero_le _, by simp⟩
  | count more _ ih =>
    obtain ⟨hcount, hrows⟩ := ih hnamed
    exact ⟨hcount, hrows⟩
  | add path reason _ ih =>
    rw [List.mem_append, List.mem_singleton, not_or] at hnamed
    obtain ⟨hcount, hrows⟩ := ih hnamed.1
    unfold Skipped.add
    split_ifs with hfull
    · exact ⟨hcount, hrows⟩
    · refine ⟨?_, ?_⟩
      · rw [List.length_append, List.length_singleton]
        omega
      · intro row hrow
        rcases List.mem_append.mp hrow with hrow | hrow
        · exact hrows row hrow
        · rw [List.mem_singleton.mp hrow]
          exact shownPath_spec (Ne.symm hnamed.2)

lemma Bounded.validate {skipped : Skipped} (h : Bounded skipped) : skipped.validate = .ok () := by
  unfold Skipped.validate
  rw [reject_eq_ok, not_or, not_lt]
  refine ⟨h.count, fun hany => ?_⟩
  obtain ⟨row, hrow, hbad⟩ := List.any_eq_true.mp hany
  obtain ⟨hlength, hne, hplain⟩ := h.rows row hrow
  rcases of_decide_eq_true hbad with hbad | hbad | hbad
  · exact hne hbad
  · unfold MAX_SKIPPED_PATH at hbad
    omega
  · rw [hplain] at hbad
    cases hbad

lemma size_skippedRow_le {row : SkippedPath} (hlength : byteLen row.path ≤ 520)
    (hplain : row.path.toList.any isControl = false) :
    (Json.object [("path", .string row.path), ("reason", .string row.reason.name)]).size ≤
      1079 := by
  have hpath := textSize_le_two hplain
  have hreason : textSize row.reason.name ≤ 18 := by cases row.reason <;> decide
  have h₁ : textSize "path" = 6 := textSize_ofList (by decide)
  have h₂ : textSize "reason" = 8 := textSize_ofList (by decide)
  simp only [Json.size, Json.sizeFields, Json.joinedSize]
  omega

lemma Bounded.size_le {skipped : Skipped} (h : Bounded skipped) :
    skipped.document.size ≤ 1106000 := by
  have hunlisted := size_ofNat_le skipped.unlisted
  have h₁ : textSize "paths" = 7 := textSize_ofList (by decide)
  have h₂ : textSize "unlisted" = 10 := textSize_ofList (by decide)
  have hcount := h.count
  unfold MAX_SKIPPED_ROWS at hcount
  simp only [Skipped.document, Json.size, Json.sizeFields, Json.joinedSize, Json.sizeItems_eq,
    List.map_map]
  generalize hsizes : List.map (Json.size ∘ _) skipped.paths = sizes
  have hlength : sizes.length = skipped.paths.length := by rw [← hsizes, List.length_map]
  have hrow : ∀ size ∈ sizes.map (· + 1), size ≤ 1080 := by
    intro size hsize
    obtain ⟨size, hmem, rfl⟩ := List.mem_map.mp hsize
    rw [← hsizes] at hmem
    obtain ⟨row, hrow, rfl⟩ := List.mem_map.mp hmem
    obtain ⟨hshort, -, hplain⟩ := h.rows row hrow
    exact Nat.succ_le_succ (size_skippedRow_le hshort hplain)
  have hsum := List.sum_le_card_nsmul _ 1080 hrow
  rw [List.length_map, hlength, smul_eq_mul] at hsum
  have hjoined := Json.joinedSize_le sizes
  omega

/-- The rows and the counter after a number of additions to an empty list: a row for each of the
first, and behind the last row a counter that stays at its greatest value. -/
structure Counts (additions : List (String × SkipReason)) (skipped : Skipped) : Prop where
  rows : skipped.paths = (additions.take MAX_SKIPPED_ROWS).map fun entry =>
    ⟨shownPath entry.1, entry.2⟩
  unlisted : skipped.unlisted.toNat = min (additions.length - MAX_SKIPPED_ROWS) (2 ^ 64 - 1)

lemma toNat_saturatingAdd (a b : UInt64) :
    (saturatingAdd a b).toNat = min (a.toNat + b.toNat) (2 ^ 64 - 1) :=
  UInt64.toNat_ofNat_of_lt' (by rw [UInt64.size]; omega)

lemma Counts.add {additions : List (String × SkipReason)} {skipped : Skipped}
    (h : Counts additions skipped) (path : String) (reason : SkipReason) :
    Counts (additions ++ [(path, reason)]) (skipped.add path reason) := by
  obtain ⟨hrows, hunlisted⟩ := h
  have hlength : skipped.paths.length = min MAX_SKIPPED_ROWS additions.length := by
    rw [hrows, List.length_map, List.length_take]
  unfold Skipped.add
  split_ifs with hfull
  · have hmany : MAX_SKIPPED_ROWS ≤ additions.length := by omega
    refine ⟨?_, ?_⟩
    · rw [List.take_append_of_le_length hmany]
      exact hrows
    · rw [toNat_saturatingAdd, hunlisted, UInt64.toNat_one, List.length_append,
        List.length_singleton]
      omega
  · have hfew : additions.length < MAX_SKIPPED_ROWS := by omega
    refine ⟨?_, ?_⟩
    · rw [List.take_of_length_le hfew.le] at hrows
      rw [List.take_of_length_le (by simpa using hfew), List.map_append, hrows]
      rfl
    · rw [hunlisted, List.length_append, List.length_singleton]
      omega

/-- The list after additions in their order. -/
def Skipped.addAll (additions : List (String × SkipReason)) : Skipped :=
  additions.foldl (fun skipped entry => skipped.add entry.1 entry.2) {}

lemma addAll_append (additions : List (String × SkipReason)) (path : String)
    (reason : SkipReason) : Skipped.addAll (additions ++ [(path, reason)]) =
      (Skipped.addAll additions).add path reason := by
  simp [Skipped.addAll]

lemma counts_addAll (additions : List (String × SkipReason)) :
    Counts additions (Skipped.addAll additions) := by
  induction additions using List.reverseRecOn with
  | nil => exact ⟨rfl, rfl⟩
  | append_singleton additions entry ih =>
    rw [addAll_append]
    exact ih.add entry.1 entry.2

lemma built_addAll (additions : List (String × SkipReason)) :
    Built (additions.map Prod.fst) (Skipped.addAll additions) := by
  induction additions using List.reverseRecOn with
  | nil => exact .empty
  | append_singleton additions entry ih =>
    rw [addAll_append, List.map_append]
    exact ih.add entry.1 entry.2

/-- After any additions of named paths the list validates, within its rows and its bytes, and says
of every addition what it can: a row for it, or one more entry that is not listed, until that
counter is at its greatest value. -/
theorem addAll_summary (additions : List (String × SkipReason))
    (hnamed : ∀ entry ∈ additions, entry.1 ≠ "") :
    (Skipped.addAll additions).validate = .ok () ∧
      (Skipped.addAll additions).paths.length + (Skipped.addAll additions).unlisted.toNat =
        min additions.length (MAX_SKIPPED_ROWS + (2 ^ 64 - 1)) ∧
      (Skipped.addAll additions).paths = (additions.take MAX_SKIPPED_ROWS).map (fun entry =>
        ⟨shownPath entry.1, entry.2⟩) ∧
      (Skipped.addAll additions).paths.length ≤ MAX_SKIPPED_ROWS ∧
      (∀ row ∈ (Skipped.addAll additions).paths, byteLen row.path ≤ MAX_SKIPPED_PATH + 16) ∧
      (Skipped.addAll additions).document.size ≤ 1106000 := by
  have hpaths : "" ∉ additions.map Prod.fst := fun hmem => by
    obtain ⟨entry, hentry, hempty⟩ := List.mem_map.mp hmem
    exact hnamed entry hentry hempty
  have hbounded := (built_addAll additions).bounded hpaths
  obtain ⟨hrows, hunlisted⟩ := counts_addAll additions
  have hlength : (Skipped.addAll additions).paths.length =
      min MAX_SKIPPED_ROWS additions.length := by
    rw [hrows, List.length_map, List.length_take]
  refine ⟨hbounded.validate, ?_, hrows, hbounded.count, fun row hrow => ?_, hbounded.size_le⟩
  · rw [hlength, hunlisted]
    omega
  · have hshort := (hbounded.rows row hrow).1
    unfold MAX_SKIPPED_PATH
    omega

theorem addAll_summary_sampled :
    (∀ entry ∈ [("logs/latest", SkipReason.symbolicLink)], entry.1 ≠ "") ∧
      (Skipped.addAll [("logs/latest", SkipReason.symbolicLink)]).validate = .ok () := by
  have hnamed : ∀ entry ∈ [("logs/latest", SkipReason.symbolicLink)], entry.1 ≠ "" := by decide
  exact ⟨hnamed, (addAll_summary _ hnamed).1⟩

/-- One addition more than the rows and the counter can tell apart is not counted. -/
theorem addAll_uncounted :
    let additions := List.replicate (1024 + 2 ^ 64) ("logs/latest", SkipReason.symbolicLink)
    (∀ entry ∈ additions, entry.1 ≠ "") ∧
      (Skipped.addAll additions).paths.length + (Skipped.addAll additions).unlisted.toNat ≠
        additions.length := by
  intro additions
  have hnamed : ∀ entry ∈ additions, entry.1 ≠ "" := by
    intro entry hentry
    rw [List.eq_of_mem_replicate hentry]
    decide
  refine ⟨hnamed, fun hcounted => ?_⟩
  obtain ⟨hrows, -⟩ := counts_addAll additions
  have hfew : (Skipped.addAll additions).paths.length ≤ 1024 := by
    rw [hrows, List.length_map]
    exact List.length_take_le _ _
  have hcounter := (Skipped.addAll additions).unlisted.toNat_lt
  rw [show additions.length = 1024 + 2 ^ 64 from List.length_replicate] at hcounted
  omega

/-! ## The documents of a publication -/

section Sizes

variable {required : List String} {bundle : Bundle}

/-- An archive's receipt, beside its rows. -/
lemma Packed.size_archive_le (h : Packed required bundle)
    (hshort : byteLen bundle.archive.attemptId ≤ 128) :
    bundle.archive.document.size ≤
      (bundle.archive.files.map fun file => file.document.size + 1).sum + 1200 := by
  have hbytes := size_ofNat_le bundle.archive.bytes
  obtain ⟨hproject, hproject'⟩ := clear_of_validateId h.project
  obtain ⟨hrun, hrun'⟩ := clear_of_validateId h.run
  obtain ⟨hdigest, hdigest'⟩ := clear_of_isSha256 h.digest
  have hattempt := clear_of_validateAttempt h.attempt
  have hkey : textSize bundle.archive.objectKey ≤ 457 := by
    have hslash : Clear "/" := by unfold Clear; decide
    have htar : Clear ".tar" := by unfold Clear; decide
    have hkey : Clear bundle.archive.key :=
      clear_append (clear_append (clear_append (clear_append (clear_append (clear_append
        (clear_append hproject hslash) hrun) hslash) hattempt) hslash) hdigest) htar
    have hslash' : byteLen "/" = 1 := by decide
    have htar' : byteLen ".tar" = 4 := by decide
    rw [h.key, hkey.textSize_eq, ArchiveReceipt.key]
    simp only [byteLen_append]
    omega
  have hjoined := Json.joinedSize_map_le (fun file => FileReceipt.document file |>.size)
    bundle.archive.files
  have h₁ : textSize "project" = 9 := textSize_ofList (by decide)
  have h₂ : textSize "run_id" = 8 := textSize_ofList (by decide)
  have h₃ : textSize "attempt_id" = 12 := textSize_ofList (by decide)
  have h₄ : textSize "sha256" = 8 := textSize_ofList (by decide)
  have h₅ : textSize "bytes" = 7 := textSize_ofList (by decide)
  have h₆ : textSize "files" = 7 := textSize_ofList (by decide)
  have h₇ : textSize "object_key" = 12 := textSize_ofList (by decide)
  simp only [ArchiveReceipt.document, Json.size, Json.sizeFields, Json.joinedSize,
    Json.sizeItems_eq, List.map_map, Function.comp_def, hproject.textSize_eq, hrun.textSize_eq,
    hattempt.textSize_eq, hdigest.textSize_eq]
  omega

/-- A bundle is its archive and what is left out. -/
lemma Packed.size_bundle_le (h : Packed required bundle)
    (hshort : byteLen bundle.archive.attemptId ≤ 128) (hskipped : Bounded bundle.skipped) :
    bundle.document.size ≤
      (bundle.archive.files.map fun file => file.document.size + 1).sum + 1108000 := by
  have harchive := h.size_archive_le hshort
  have hrest := hskipped.size_le
  obtain ⟨hintent, hintent'⟩ := clear_of_validDigest h.intent
  obtain ⟨hconfig, hconfig'⟩ := clear_of_validDigest h.config
  have hcontract : textSize bundle.contract = 22 := by
    rw [h.contract]
    decide
  have h₁ : textSize "contract" = 10 := textSize_ofList (by decide)
  have h₂ : textSize "intent_sha256" = 15 := textSize_ofList (by decide)
  have h₃ : textSize "config_sha256" = 15 := textSize_ofList (by decide)
  have h₄ : textSize "archive" = 9 := textSize_ofList (by decide)
  have h₅ : textSize "skipped" = 9 := textSize_ofList (by decide)
  simp only [Bundle.document, Json.size, Json.sizeFields, Json.joinedSize, hintent.textSize_eq,
    hconfig.textSize_eq, hcontract]
  omega

lemma proofPath_injective : Function.Injective proofPath := by
  intro path other h
  have hlist := congrArg String.toList h
  rw [proofPath, proofPath, String.toList_append, String.toList_append] at hlist
  exact String.toList_inj.mp (List.append_cancel_left hlist)

/-- The rows of a proof that matches are those of the receipt's files. -/
lemma Packed.perm_proof (h : Packed required bundle) {proof : DownloadProof}
    (hsize : proof.files.size = bundle.archive.files.length)
    (hrows : ∀ file ∈ bundle.archive.files, proof.files[proofPath file.path]? = some file) :
    proof.files.toList.Perm
      (bundle.archive.files.map fun file => (proofPath file.path, file)) := by
  refine perm_toList ?_ ?_ (by rw [hsize, List.length_map])
  · rw [List.map_map]
    have hnodup := h.distinct.map proofPath_injective
    rwa [List.map_map] at hnodup
  · intro row hrow
    obtain ⟨file, hfile, rfl⟩ := List.mem_map.mp hrow
    exact hrows file hfile

lemma Packed.size_proof_le (h : Packed required bundle) {proof : DownloadProof}
    (hsha : proof.archiveSha256 = bundle.archive.sha256)
    (hsize : proof.files.size = bundle.archive.files.length)
    (hrows : ∀ file ∈ bundle.archive.files, proof.files[proofPath file.path]? = some file) :
    proof.document.size ≤ (bundle.archive.files.map fun file =>
      textSize (proofPath file.path) + 1 + file.document.size + 1).sum + 200 := by
  have hbytes := size_ofNat_le proof.archiveBytes
  obtain ⟨hdigest, hdigest'⟩ := clear_of_isSha256 h.digest
  have hsum := ((h.perm_proof hsize hrows).map fun row =>
    textSize row.1 + 1 + row.2.document.size + 1).sum_eq
  rw [List.map_map] at hsum
  simp only [Function.comp_def] at hsum
  have hjoined := Json.joinedSize_map_le
    (fun row : String × FileReceipt => textSize row.1 + 1 + row.2.document.size) proof.files.toList
  have h₁ : textSize "archive_sha256" = 16 := textSize_ofList (by decide)
  have h₂ : textSize "archive_bytes" = 15 := textSize_ofList (by decide)
  have h₃ : textSize "files" = 7 := textSize_ofList (by decide)
  simp only [DownloadProof.document, Json.size, Json.sizeFields, Json.joinedSize,
    Json.sizeFields_eq, List.map_map, Function.comp_def, hsha, hdigest.textSize_eq]
  omega

/-- **The rows of the files**, in the receipt and in the proof, within the budget of the walk. -/
lemma Packed.rows_le (h : Packed required bundle) :
    (bundle.archive.files.map fun file => file.document.size + 1).sum +
        (bundle.archive.files.map fun file =>
          textSize (proofPath file.path) + 1 + file.document.size + 1).sum ≤
      6391456 := by
  have hrows := sum_rows_le h.files
  have hcost := @sum_listedCost_le required _ h.distinct
  have hbudget := h.budget
  have hcount := h.count
  unfold MAX_LISTED_BYTES at hbudget
  unfold MAX_FILES at hcount
  omega

/-! ## The checks of a publication -/

lemma Packed.validateReceipt (h : Packed required bundle)
    (hshort : byteLen bundle.archive.attemptId ≤ 128) :
    validateReceipt bundle.archive = .ok () := by
  have hsize := h.size_archive_le hshort
  have hrows := h.rows_le
  unfold Artifacts.validateReceipt bounded
  simp only [bind_eq_ok, mapError_eq_ok, reject_eq_ok, not_or, not_not, gt_iff_lt, not_lt]
  refine ⟨(), h.project, (), h.run, (), h.attempt, (), ⟨h.bytes, h.digest, h.count⟩, (),
    ⟨?_, h.distinct⟩, (), h.key, ?_⟩
  · rintro hany
    obtain ⟨file, hfile, hbad⟩ := List.any_eq_true.mp hany
    obtain ⟨hpath, hsha⟩ := h.files file hfile
    have hreceipt : receiptPath file.path = true := (of_decide_eq_true hpath).1
    rcases of_decide_eq_true hbad with hbad | hbad
    · exact hbad hreceipt
    · exact hbad hsha
  · unfold MAX_RECEIPT_BYTES
    omega

lemma Packed.validate (h : Packed required bundle)
    (hshort : byteLen bundle.archive.attemptId ≤ 128) (hskipped : Bounded bundle.skipped) :
    bundle.validate = .ok () := by
  unfold Bundle.validate
  simp only [bind_eq_ok, reject_eq_ok, not_or, not_not]
  refine ⟨(), h.validateReceipt hshort, (), hskipped.validate, h.contract, h.intent, h.config, ?_⟩
  rintro hany
  obtain ⟨file, hfile, hbad⟩ := List.any_eq_true.mp hany
  exact of_decide_eq_true hbad (h.files file hfile).1

/-- The proof of an archive matches it. -/
lemma Packed.proofMatches (h : Packed required bundle)
    (hshort : byteLen bundle.archive.attemptId ≤ 128) :
    proofMatches bundle.archive bundle.archive.proof = .ok () := by
  have hnodup : ((bundle.archive.files.map fun file => (proofPath file.path, file)).map
      Prod.fst).Nodup := by
    rw [List.map_map]
    have hnodup := h.distinct.map proofPath_injective
    rwa [List.map_map] at hnodup
  obtain ⟨hget, hsize⟩ := rows_ofList hnodup
  rw [List.length_map] at hsize
  have hrows : ∀ file ∈ bundle.archive.files,
      bundle.archive.proof.files[proofPath file.path]? = some file :=
    fun file hfile => hget _ (List.mem_map_of_mem hfile)
  have hproof := h.size_proof_le rfl hsize hrows
  have hbudget := h.rows_le
  unfold Artifacts.proofMatches bounded
  simp only [bind_eq_ok, reject_eq_ok, not_or, not_not, gt_iff_lt, not_lt]
  refine ⟨(), h.validateReceipt hshort, (), ⟨rfl, rfl, hsize⟩, (), ?_, ?_⟩
  · rintro hany
    obtain ⟨file, hfile, hbad⟩ := List.any_eq_true.mp hany
    exact of_decide_eq_true hbad (hrows file hfile)
  · unfold MAX_RECEIPT_BYTES
    omega

lemma rows_of_proofMatches {archive : ArchiveReceipt} {proof : DownloadProof}
    (h : Artifacts.proofMatches archive proof = .ok ()) :
    proof.archiveSha256 = archive.sha256 ∧ proof.files.size = archive.files.length ∧
      ∀ file ∈ archive.files, proof.files[proofPath file.path]? = some file := by
  unfold Artifacts.proofMatches at h
  simp only [bind_eq_ok, reject_eq_ok, not_or, not_not, ne_eq] at h
  obtain ⟨⟨⟩, -, ⟨⟩, ⟨hsha, -, hsize⟩, ⟨⟩, hrows, -⟩ := h
  refine ⟨hsha, hsize, fun file hfile => ?_⟩
  by_contra hne
  exact hrows (List.any_eq_true.mpr ⟨file, hfile, decide_eq_true hne⟩)

end Sizes

/-! ## The state of a publication -/

section States

variable {rfc3339 : String → Option ℤ}

open State (Dated)

lemma textSize_of_dated {value : String} (h : Dated rfc3339 value) : textSize value ≤ 770 := by
  obtain ⟨instant, h⟩ := h
  unfold timestamp at h
  simp only [bind_eq_ok, reject_eq_ok, not_or, not_lt] at h
  obtain ⟨⟨⟩, ⟨-, hlength⟩, -⟩ := h
  have hsize := textSize_le value
  omega

lemma size_optionalText_le {value : Option String}
    (h : ∀ text, value = some text → Dated rfc3339 text) : (optionalText value).size ≤ 770 := by
  cases value with
  | none => exact le_of_lt (by decide)
  | some text => exact textSize_of_dated (h text rfl)

/-- A valid retention holds instants that can be read, or none. -/
lemma dated_of_validateRetention {retention : Retention} {sha : String}
    (h : validateRetention rfc3339 retention sha = .ok ()) :
    (∀ text, retention.releaseAfter = some text → Dated rfc3339 text) ∧
      ∀ text, retention.releasedAt = some text → Dated rfc3339 text := by
  have hpresent : ∀ {value : Option String} {instant : ℤ},
      presentTimestamp rfc3339 value = .ok instant →
        ∀ text, value = some text → Dated rfc3339 text := by
    rintro value instant hok text rfl
    exact ⟨instant, hok⟩
  unfold validateRetention at h
  obtain ⟨⟨⟩, -, h⟩ := bind_eq_ok.mp h
  have hnone : ∀ {value : Option String}, value = none →
      ∀ text, value = some text → Dated rfc3339 text := by
    rintro value rfl text ⟨⟩
  rcases hstatus : retention.status with _ | _ | _ | _ <;>
    simp only [hstatus, bind_eq_ok, reject_eq_ok, not_or, Option.not_isSome_iff_eq_none] at h
  · exact ⟨hnone h.1, hnone h.2⟩
  · obtain ⟨instant, hafter, hreleased⟩ := h
    exact ⟨hpresent hafter, hnone hreleased⟩
  · obtain ⟨instant, hafter, hreleased⟩ := h
    exact ⟨hpresent hafter, hnone hreleased⟩
  · obtain ⟨⟨⟩, -, instant, hafter, released, hreleased, -⟩ := h
    exact ⟨hpresent hafter, hpresent hreleased⟩

lemma size_retention_le {retention : Retention} {sha : String} (hsha : isSha256 sha = true)
    (h : validateRetention rfc3339 retention sha = .ok ()) :
    retention.document.size ≤ 1700 := by
  obtain ⟨hafter, hreleased⟩ := dated_of_validateRetention h
  have hafter' := size_optionalText_le hafter
  have hreleased' := size_optionalText_le hreleased
  have hsame : retention.sha256 = sha := by
    unfold validateRetention at h
    obtain ⟨⟨⟩, hcheck, -⟩ := bind_eq_ok.mp h
    rw [reject_eq_ok, not_or, not_not] at hcheck
    exact hcheck.1
  obtain ⟨hdigest, hdigest'⟩ := clear_of_isSha256 hsha
  have hstatus : textSize retention.status.name ≤ 11 := by
    cases retention.status <;> decide
  have h₁ : textSize "status" = 8 := textSize_ofList (by decide)
  have h₂ : textSize "sha256" = 8 := textSize_ofList (by decide)
  have h₃ : textSize "release_after" = 15 := textSize_ofList (by decide)
  have h₄ : textSize "released_at" = 13 := textSize_ofList (by decide)
  simp only [Retention.document, Json.size, Json.sizeFields, Json.joinedSize, hsame,
    hdigest.textSize_eq]
  omega

variable {required : List String} {bundle : Bundle} {state : State}

/-- **The text of a valid state** of a packed result, however far its release has come. -/
lemma Packed.size_state_le (h : Packed required bundle)
    (hshort : byteLen bundle.archive.attemptId ≤ 128) (hskipped : Bounded bundle.skipped)
    (hstate : state.Valid rfc3339) (hbundle : state.bundle = bundle) :
    state.document.size ≤ 7505000 := by
  have hsizes := h.size_bundle_le hshort hskipped
  have hretention := hstate.retention
  rw [hbundle] at hretention
  have hretention' := size_retention_le h.digest hretention
  have hrows := h.rows_le
  have h₁ : textSize "bundle" = 8 := textSize_ofList (by decide)
  have h₂ : textSize "retention" = 11 := textSize_ofList (by decide)
  have h₃ : textSize "acknowledgement" = 17 := textSize_ofList (by decide)
  rcases hack : state.acknowledgement with _ | ack
  · simp only [State.document, Json.size, Json.sizeFields, Json.joinedSize, hack, hbundle]
    omega
  · obtain ⟨hproof, hdated, -⟩ := hstate.proof ack hack
    rw [hbundle] at hproof
    obtain ⟨hsha, hsize, hfiles⟩ := rows_of_proofMatches hproof
    have hproof' := h.size_proof_le hsha hsize hfiles
    have hdated' := textSize_of_dated hdated
    have h₄ : textSize "proof" = 7 := textSize_ofList (by decide)
    have h₅ : textSize "verified_at" = 13 := textSize_ofList (by decide)
    simp only [State.document, Acknowledgement.document, Json.size, Json.sizeFields,
      Json.joinedSize, hack, hbundle]
    omega

/-- **A packed result fits its frame.** The state of every archived file set within the budget of
the walk, with any list of what is left out, is built, can be acknowledged with the archive's proof,
and validates and fits the frame before that, after that, and after whatever is done with it. -/
theorem publication_fits (required added : List String) (bundle : Bundle)
    (h : Packed required bundle) (hskipped : Built added bundle.skipped) (hnamed : "" ∉ added)
    (hshort : byteLen bundle.archive.attemptId ≤ 128) :
    ∃ state, State.new bundle = .ok state ∧
      (∀ verifiedAt release, Dated rfc3339 verifiedAt →
        ∃ acked, state.acknowledge rfc3339 bundle.archive.proof verifiedAt release = .ok acked ∧
          acked.acknowledgement = some ⟨bundle.archive.proof, verifiedAt⟩) ∧
      ∀ later, Steps rfc3339 state later →
        later.validate rfc3339 = .ok () ∧
          later.document.write.length ≤ MAX_RECEIPT_BYTES := by
  have hbounded := hskipped.bounded hnamed
  have hvalid := h.validate hshort hbounded
  have hnew : State.new bundle = .ok ⟨bundle, ⟨.keep, bundle.archive.sha256, none, none⟩, none⟩ :=
    bind_eq_ok.mpr ⟨(), hvalid, rfl⟩
  refine ⟨_, hnew, ?_, ?_⟩
  · rintro verifiedAt release hdated
    refine ⟨⟨bundle, State.decided bundle.archive verifiedAt release,
      some ⟨bundle.archive.proof, verifiedAt⟩⟩, ?_, rfl⟩
    exact State.acknowledge_eq_ok.mpr ⟨State.valid_new hnew, h.proofMatches hshort, hdated, by simp,
      by simp⟩
  · rintro later hsteps
    obtain ⟨hlater, hbundle, -⟩ := hsteps.kept (State.valid_new hnew)
    have hsize := h.size_state_le hshort hbounded hlater hbundle
    refine ⟨State.validate_eq_ok.mpr hlater, ?_⟩
    rw [Json.length_write]
    unfold MAX_RECEIPT_BYTES
    omega

end States

/-! ## Sampled publications -/

lemma sampleBundle_packed : Packed [] sampleBundle where
  contract := rfl
  intent := validDigest_ofList rfl rfl (by decide)
  config := validDigest_ofList rfl rfl (by decide)
  project := by decide
  run := by decide
  attempt := by decide
  digest := isSha256_sampleBundle
  bytes := by decide
  key := rfl
  files := by
    have hpath : exportPath sampleFile.path = true := by decide
    intro file hfile
    obtain rfl := List.mem_singleton.mp hfile
    exact ⟨hpath, isSha256_sampleFile⟩
  distinct := by simp [sampleBundle]
  count := by simp [sampleBundle, MAX_FILES]
  budget := by decide

/-- The sampled files are packed, whatever is left out. -/
lemma packed_sample (skipped : Skipped) : Packed [] { sampleBundle with skipped := skipped } := by
  obtain ⟨hcontract, hintent, hconfig, hproject, hrun, hattempt, hdigest, hbytes, hkey, hfiles,
    hdistinct, hcount, hbudget⟩ := sampleBundle_packed
  exact ⟨hcontract, hintent, hconfig, hproject, hrun, hattempt, hdigest, hbytes, hkey, hfiles,
    hdistinct, hcount, hbudget⟩

/-- A bundle whose archive leaves a link out. -/
def linkedBundle : Bundle :=
  { sampleBundle with skipped := Skipped.add {} "logs/latest" .symbolicLink }

lemma linkedBundle_packed : Packed [] linkedBundle := packed_sample _

theorem publication_fits_sampled :
    ∃ state, State.new linkedBundle = .ok state ∧
      ∃ acked, state.acknowledge sampleRfc3339 linkedBundle.archive.proof "2026-10-29T00:00:00Z"
        true = .ok acked := by
  obtain ⟨state, hnew, hacked, -⟩ := @publication_fits sampleRfc3339 []
    ["logs/latest"] linkedBundle linkedBundle_packed (.add "logs/latest" .symbolicLink .empty)
    (by decide) (by decide +kernel)
  obtain ⟨acked, hdone, -⟩ := hacked "2026-10-29T00:00:00Z" true dated_sample.1
  exact ⟨state, hnew, acked, hdone⟩

/-- A bundle whose list of what is left out was built from a nameless path. -/
def namelessBundle : Bundle :=
  { sampleBundle with skipped := Skipped.add {} "" .symbolicLink }

lemma namelessBundle_packed : Packed [] namelessBundle := packed_sample _

/-- An attempt of many digits. -/
def longAttempt (count : ℕ) : String := "attempt-" ++ String.ofList (List.replicate count '0')

/-- A bundle of an attempt of many digits. -/
def longBundle (count : ℕ) : Bundle :=
  let archive := { sampleBundle.archive with attemptId := longAttempt count }
  { sampleBundle with archive := { archive with objectKey := archive.key } }

lemma validateAttempt_longAttempt {count : ℕ} (h : 3 ≤ count) :
    validateAttempt (longAttempt count) = .ok () := by
  have hlist : (longAttempt count).toList = "attempt-".toList ++ List.replicate count '0' := by
    rw [longAttempt, String.toList_append, @String.toList_ofList (List.replicate count '0')]
  have hdrop : (longAttempt count).toList.drop 8 = List.replicate count '0' := by
    rw [hlist]
    rfl
  have hdigits : (List.replicate count '0').all Char.isDigit = true := by
    refine List.all_eq_true.mpr fun c hc => ?_
    rw [List.eq_of_mem_replicate hc]
    decide
  unfold validateAttempt
  simp only [bind_eq_ok, reject_eq_ok, not_not, not_or, hdrop, hdigits, List.length_replicate,
    not_lt]
  exact ⟨(), ⟨_, hlist.symm⟩, h, trivial⟩

lemma longBundle_packed {count : ℕ} (h : 3 ≤ count) : Packed [] (longBundle count) where
  contract := rfl
  intent := linkedBundle_packed.intent
  config := linkedBundle_packed.config
  project := linkedBundle_packed.project
  run := linkedBundle_packed.run
  attempt := validateAttempt_longAttempt h
  digest := linkedBundle_packed.digest
  bytes := linkedBundle_packed.bytes
  key := rfl
  files := linkedBundle_packed.files
  distinct := linkedBundle_packed.distinct
  count := linkedBundle_packed.count
  budget := linkedBundle_packed.budget

/-- A receipt is longer than its attempt. -/
lemma size_attempt_le (archive : ArchiveReceipt) :
    textSize archive.attemptId ≤ archive.document.size := by
  simp only [ArchiveReceipt.document, Json.size, Json.sizeFields, Json.joinedSize]
  omega

lemma longBundle_refused {count : ℕ} (h : MAX_RECEIPT_BYTES < count) (state : State) :
    State.new (longBundle count) ≠ .ok state := by
  intro hnew
  have hreceipt := State.validateReceipt_of_bundle (@State.valid_new sampleRfc3339 _ _ hnew).bundle
  have hbundle : state.bundle = longBundle count := by
    obtain ⟨⟨⟩, -, hstate⟩ := bind_eq_ok.mp hnew
    cases hstate
    rfl
  have hattempt := @validateAttempt_longAttempt count
    (by unfold MAX_RECEIPT_BYTES at h; omega)
  have hlong : textSize (longBundle count).archive.attemptId = count + 10 := by
    have hprefix : byteLen "attempt-" = 8 := by decide
    have hzeroes : (String.ofList (List.replicate count '0')).toList.all isIdChar = true := by
      rw [String.toList_ofList, List.all_eq_true]
      intro c hc
      rw [List.eq_of_mem_replicate hc]
      decide
    change textSize (longAttempt count) = _
    rw [(clear_of_validateAttempt hattempt).textSize_eq, longAttempt, byteLen_append, hprefix,
      byteLen_of_all hzeroes, String.toList_ofList, List.length_replicate]
    omega
  rw [hbundle] at hreceipt
  unfold validateReceipt bounded at hreceipt
  simp only [bind_eq_ok, reject_eq_ok, not_lt, gt_iff_lt] at hreceipt
  obtain ⟨⟨⟩, -, ⟨⟩, -, ⟨⟩, -, ⟨⟩, -, ⟨⟩, -, ⟨⟩, -, hsize⟩ := hreceipt
  have hattempt := size_attempt_le (longBundle count).archive
  omega

/-- **Records that are not reported**: a list of what is left out that was built from a nameless
path, and an attempt whose number is too long. -/
theorem odd_publications_refused :
    (Packed [] namelessBundle ∧ Built [""] namelessBundle.skipped ∧
        State.new namelessBundle = .error .receipt) ∧
      Packed [] (longBundle 9000000) ∧ Built [] (longBundle 9000000).skipped ∧
        ∀ state, State.new (longBundle 9000000) ≠ .ok state := by
  have hlong : MAX_RECEIPT_BYTES < 9000000 := by
    unfold MAX_RECEIPT_BYTES
    omega
  have hskipped : namelessBundle.skipped.validate = .error .receipt := by decide +kernel
  have hnameless : State.new namelessBundle = .error .receipt := by
    have hreceipt : validateReceipt namelessBundle.archive = .ok () := validateReceipt_sample
    rw [State.new, Bundle.validate, hreceipt, ok_bind, hskipped]
    rfl
  refine ⟨⟨namelessBundle_packed, .add "" .symbolicLink .empty, hnameless⟩,
    longBundle_packed (by omega), .empty, longBundle_refused hlong⟩

end Artifacts

end ExperimentControl
