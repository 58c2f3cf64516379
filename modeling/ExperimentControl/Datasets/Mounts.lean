import ExperimentControl.Datasets
import ExperimentControl.Json.Literals

/-!
# Mounts of an admitted dataset

Whether a dataset that was admitted by its definition alone can be mounted. The definition leaves
a fixed number of bytes for the mount around it, and a storage root takes more bytes as JSON text
than it has when there are quotes in it.

* `Mount.room` — what a mount leaves for the quotes of its root.
* **`mount_fits`** — the exact condition under which a valid mount of an admitted definition fits.
* `quoted_root_refused` — a storage root with so many quotes that its mount does not fit.
-/

namespace ExperimentControl

namespace Datasets

/-- The bytes of a mount's list that are not escapes: the fixed text, the definition, the name, the
project, the backend and the root. -/
def Mount.plainSize (mount : Mount) : ℕ :=
  385 + mount.receipt.definition.document.size + byteLen mount.name +
    byteLen mount.receipt.project + byteLen mount.receipt.target.backendId +
    byteLen mount.receipt.root

/-- What a mount leaves for the quotes of its root. -/
def Mount.room (mount : Mount) : ℕ := MAX_MANIFEST_BYTES - mount.plainSize

/-! ## The text of a mount -/

/-- What a valid receipt is. -/
structure Receipt.Valid (receipt : Receipt) : Prop where
  project : validateId receipt.project = .ok ()
  target : receipt.target.validate = .ok ()
  definition : receipt.definition.validate = .ok ()
  contract : receipt.contract = DATASET_CONTRACT
  assetId : receipt.assetId = receipt.definition.assetId
  root : rootPath receipt.root = true
  location : ("/" ++ receipt.project ++ "/" ++ receipt.assetId ++ "/tree").toList <:+
    receipt.root.toList

lemma Receipt.validate_eq_ok {receipt : Receipt} {u : Unit} :
    receipt.validate = .ok u ↔ receipt.Valid := by
  unfold Receipt.validate
  simp only [bind_eq_ok, reject_eq_ok, mapError_eq_ok, not_or, not_not, ne_eq, Bool.not_eq_true]
  constructor
  · rintro ⟨⟨⟩, hproject, ⟨⟩, htarget, ⟨⟩, hdefinition, hcontract, hasset, hroot, hlocation⟩
    exact ⟨hproject, htarget, hdefinition, hcontract, hasset, by simpa using hroot, hlocation⟩
  · rintro ⟨hproject, htarget, hdefinition, hcontract, hasset, hroot, hlocation⟩
    exact ⟨(), hproject, (), htarget, (), hdefinition, hcontract, hasset, by simpa using hroot,
      hlocation⟩

/-- The text of a definition: its files, its digest and its length. -/
lemma Definition.size_eq (definition : Definition) : definition.document.size =
    textSize definition.sha256 + (Json.ofNat definition.archiveBytes.toNat).size +
      Json.joinedSize (definition.files.map fun file => file.document.size) + 39 := by
  have h₁ : textSize "sha256" = 8 := textSize_ofList (by decide)
  have h₂ : textSize "archive_bytes" = 15 := textSize_ofList (by decide)
  have h₃ : textSize "files" = 7 := textSize_ofList (by decide)
  have hitems : (definition.files.map (·.document)).map Json.size =
      definition.files.map fun file => file.document.size := by
    rw [List.map_map]
    rfl
  simp only [Definition.document, Json.size, Json.sizeFields, Json.joinedSize, Json.sizeItems_eq,
    hitems]
  omega

/-- A valid definition has the digest of its archive. -/
lemma Definition.isSha256_of_validate {definition : Definition}
    (h : definition.validate = .ok ()) : isSha256 definition.sha256 = true := by
  simp only [Definition.validate, bind_eq_ok, reject_eq_ok, not_not] at h
  obtain ⟨⟨⟩, hsha, -⟩ := h
  exact hsha

lemma size_targetDocument {target : Slurm.Target} (h : target.validate = .ok ()) :
    (targetDocument target).size = 198 + byteLen target.backendId := by
  simp only [Slurm.Target.validate, reject_eq_ok, not_or, not_not] at h
  obtain ⟨hbackend, hprofile, hscope⟩ := h
  obtain ⟨hbackend, -⟩ := clear_of_component hbackend
  obtain ⟨hprofile, hprofile'⟩ := clear_of_validDigest hprofile
  obtain ⟨hscope, hscope'⟩ := clear_of_validDigest hscope
  simp only [targetDocument, Json.size, Json.sizeFields, Json.joinedSize, hbackend.textSize_eq,
    hprofile.textSize_eq, hscope.textSize_eq, hprofile', hscope']
  have h₁ : textSize "backend_id" = 12 := textSize_ofList (by decide)
  have h₂ : textSize "profile_sha256" = 16 := textSize_ofList (by decide)
  have h₃ : textSize "storage_scope" = 15 := textSize_ofList (by decide)
  omega

lemma Receipt.Valid.size_eq {receipt : Receipt} (h : receipt.Valid) :
    receipt.document.size = 361 + receipt.definition.document.size + byteLen receipt.project +
      byteLen receipt.target.backendId + byteLen receipt.root +
      receipt.root.toList.count '"' := by
  obtain ⟨hproject, -⟩ := clear_of_validateId h.project
  have hroot := h.root
  simp only [rootPath, decide_eq_true_eq] at hroot
  obtain ⟨hroot, -⟩ := textSize_of_absolutePath hroot.1
  have hsha := Definition.isSha256_of_validate h.definition
  obtain ⟨hsha, hsha'⟩ := clear_of_isSha256 hsha
  have hasset : textSize receipt.assetId = 72 := by
    rw [h.assetId, Definition.assetId,
      (clear_append (by unfold Clear; decide) hsha).textSize_eq, byteLen_append, hsha']
    rfl
  have hcontract : textSize receipt.contract = 19 := by
    rw [h.contract]
    decide
  have h₁ : textSize "contract" = 10 := textSize_ofList (by decide)
  have h₂ : textSize "project" = 9 := textSize_ofList (by decide)
  have h₃ : textSize "target" = 8 := textSize_ofList (by decide)
  have h₄ : textSize "asset_id" = 10 := textSize_ofList (by decide)
  have h₅ : textSize "definition" = 12 := textSize_ofList (by decide)
  have h₆ : textSize "root" = 6 := textSize_ofList (by decide)
  simp only [Receipt.document, Json.size, Json.sizeFields, Json.joinedSize, hproject.textSize_eq,
    size_targetDocument h.target, hasset, hcontract, hroot]
  omega

/-- The list of one valid mount: its plain bytes, and one more for each quote of its root. -/
lemma size_mount {mount : Mount} (hname : validateId mount.name = .ok ())
    (h : mount.receipt.Valid) : (Json.array ([mount].map (·.document))).size =
      mount.plainSize + mount.receipt.root.toList.count '"' := by
  obtain ⟨hname, -⟩ := clear_of_validateId hname
  have h₁ : textSize "name" = 6 := textSize_ofList (by decide)
  have h₂ : textSize "receipt" = 9 := textSize_ofList (by decide)
  simp only [Mount.document, List.map_cons, List.map_nil, Json.size, Json.sizeItems,
    Json.sizeFields, Json.joinedSize, hname.textSize_eq, h.size_eq, Mount.plainSize]
  omega

/-- **A mount of an admitted definition.** It fits exactly when its root has no more quotes than the
rest leaves room for, and so it does whenever the root has 3327 quotes at most. -/
theorem mount_fits (mount : Mount) (hname : validateId mount.name = .ok ())
    (hreceipt : mount.receipt.validate = .ok ())
    (hbudget : mount.receipt.definition.manifestBudget = true) :
    (manifestBudget [mount] = true ↔ mount.receipt.root.toList.count '"' ≤ mount.room) ∧
      3327 ≤ mount.room := by
  have hvalid := Receipt.validate_eq_ok.mp hreceipt
  obtain ⟨-, hname'⟩ := clear_of_validateId hname
  obtain ⟨-, hproject⟩ := clear_of_validateId hvalid.project
  have htarget := hvalid.target
  simp only [Slurm.Target.validate, reject_eq_ok, not_or, not_not] at htarget
  obtain ⟨-, hbackend⟩ := clear_of_component htarget.1
  have hroot := hvalid.root
  simp only [rootPath, decide_eq_true_eq] at hroot
  obtain ⟨-, hroot⟩ := textSize_of_absolutePath hroot.1
  have hdefinition : mount.receipt.definition.document.size ≤ MAX_DEFINITION_BYTES :=
    of_decide_eq_true hbudget
  unfold MAX_DEFINITION_BYTES MAX_MANIFEST_BYTES MOUNT_ENVELOPE_BYTES at hdefinition
  have hroom : 3327 ≤ mount.room := by
    simp only [Mount.room, Mount.plainSize, MAX_MANIFEST_BYTES]
    omega
  refine ⟨?_, hroom⟩
  rw [manifestBudget, size_mount hname hvalid, decide_eq_true_eq]
  unfold Mount.room at hroom ⊢
  omega

/-! ## A root of quotes -/

/-- The path of `count` letters. -/
def letters (count : ℕ) : String := String.ofList (List.replicate count 'a')

lemma letters_lt (count : ℕ) : letters count < letters (count + 1) := by
  rw [letters, letters, String.lt_iff, String.toList_ofList, String.toList_ofList]
  induction count with
  | zero => decide
  | succ count ih =>
    rw [List.replicate_succ, List.replicate_succ]
    exact List.cons_lt_cons_self.mpr ih

lemma letters_all (count : ℕ) : (letters count).toList.all isIdChar = true := by
  rw [letters, String.toList_ofList, List.all_eq_true]
  intro c hc
  rw [List.eq_of_mem_replicate hc]
  decide

lemma byteLen_letters (count : ℕ) : byteLen (letters count) = count := by
  rw [byteLen_of_all (letters_all count), letters, String.toList_ofList, List.length_replicate]

lemma mem_letters {count : ℕ} {c : Char} (h : c ∈ (letters count).toList) : c = 'a' := by
  rw [letters, String.toList_ofList] at h
  exact List.eq_of_mem_replicate h

lemma path_letters {count : ℕ} (hpos : 0 < count) (h : count ≤ 4096) :
    path (letters count) = true := by
  have hparts : pathParts (letters count) = [List.replicate count 'a'] := by
    rw [pathParts, List.splitOn_eq_singleton fun hc => absurd (mem_letters hc) (by decide)]
    rw [letters, String.toList_ofList]
  have hall : ∀ ok : Char → Bool, ok 'a' = false → ¬(letters count).toList.any ok = true := by
    intro ok hok hany
    obtain ⟨c, hc, hbad⟩ := List.any_eq_true.mp hany
    rw [mem_letters hc, hok] at hbad
    cases hbad
  obtain ⟨count, rfl⟩ : ∃ n, count = n + 1 := ⟨count - 1, by omega⟩
  simp only [path, decide_eq_true_eq, hparts, byteLen_letters]
  refine ⟨?_, h, hall _ (by decide), ?_, by simp, hall _ (by decide)⟩
  · intro hempty
    have hlen := byteLen_letters (count + 1)
    rw [hempty] at hlen
    cases hlen
  · simp [List.replicate_succ]

/-- The digest of every file, and of the archive. -/
def zeroes : String := "0000000000000000000000000000000000000000000000000000000000000000"

/-- Empty files with longer and longer names: a definition close below what is admitted. -/
def longDefinition : Definition where
  sha256 := zeroes
  archiveBytes := 1
  files := (List.range 62).map fun i => ⟨letters (3965 + i), 0, zeroes⟩

/-- A storage root of `count` quotes. -/
def quotedRoot (count : ℕ) : String :=
  "/" ++ String.ofList (List.replicate count '"') ++ "/p/asset." ++ zeroes ++ "/tree"

def quotedMount : Mount where
  name := "t"
  receipt :=
    { contract := DATASET_CONTRACT
      project := "p"
      target := ⟨"b", "sha256:" ++ zeroes, "sha256:" ++ zeroes⟩
      assetId := longDefinition.assetId
      definition := longDefinition
      root := quotedRoot 4000 }

lemma isSha256_zeroes : isSha256 zeroes = true := isSha256_ofList rfl (by decide)

lemma size_longFile (i : ℕ) :
    (Artifacts.FileReceipt.document ⟨letters (3965 + i), 0, zeroes⟩).size = 4062 + i := by
  have hclear : Clear (letters (3965 + i)) := clear_of_all (fun _ h => h) (letters_all _)
  have hzeroes : textSize zeroes = 66 := textSize_ofList (by decide)
  have h₁ : textSize "path" = 6 := textSize_ofList (by decide)
  have h₂ : textSize "bytes" = 7 := textSize_ofList (by decide)
  have h₃ : textSize "sha256" = 8 := textSize_ofList (by decide)
  have h₄ : (Json.ofNat (0 : UInt64).toNat).size = 1 := by decide
  simp only [Artifacts.FileReceipt.document, Json.size, Json.sizeFields, Json.joinedSize, hclear.textSize_eq,
    byteLen_letters, hzeroes, h₄]
  omega

lemma size_longDefinition : longDefinition.document.size = 253902 := by
  have hrows : (longDefinition.files.map fun file => file.document.size) =
      (List.range 62).map fun i => 4062 + i := by
    rw [longDefinition, List.map_map]
    exact List.map_congr_left fun i _ => size_longFile i
  have hsum : Json.joinedSize ((List.range 62).map fun i => 4062 + i) = 253796 := by decide
  have hzeroes : textSize zeroes = 66 := textSize_ofList (by decide)
  have hdigit : (Json.ofNat longDefinition.archiveBytes.toNat).size = 1 := by decide
  have hsha : textSize longDefinition.sha256 = 66 := hzeroes
  rw [Definition.size_eq, hrows, hsum, hdigit, hsha]

lemma ordered_longDefinition : Definition.Ordered longDefinition.files := by
  unfold Definition.Ordered longDefinition
  rw [List.isChain_map]
  exact (List.isChain_range _ 62).mpr fun i _ => letters_lt (3965 + i)

lemma expandedBytes_longDefinition : longDefinition.expandedBytes = 0 := by
  unfold Definition.expandedBytes longDefinition
  rw [List.map_map]
  decide

lemma parents_letters (count : ℕ) : Definition.parents (letters count).toList = [] := by
  unfold Definition.parents
  rw [List.map_eq_nil_iff, List.filter_eq_nil_iff]
  intro i _ hslash
  have hmem := List.mem_of_getElem? (of_decide_eq_true hslash)
  exact absurd (mem_letters hmem) (by decide)

lemma validate_longDefinition : longDefinition.validate = .ok () := by
  have hfiles : ∀ file ∈ longDefinition.files, ∃ i < 62, file = ⟨letters (3965 + i), 0, zeroes⟩ := by
    intro file hfile
    obtain ⟨i, hi, rfl⟩ := List.mem_map.mp hfile
    exact ⟨i, List.mem_range.mp hi, rfl⟩
  have hlength : longDefinition.files.length = 62 := by
    rw [longDefinition, List.length_map, List.length_range]
  unfold Definition.validate
  simp only [bind_eq_ok, reject_eq_ok, not_or, not_not, gt_iff_lt, not_lt, not_le,
    expandedBytes_longDefinition, size_longDefinition, hlength]
  refine ⟨(), isSha256_zeroes, 1, by decide, (), ⟨?_, by decide⟩, (),
    ⟨?_, ordered_longDefinition, by decide⟩, (), ?_, ?_⟩
  · intro hnone
    rw [hnone] at hlength
    cases hlength
  · rintro hbad
    obtain ⟨file, hfile, hbad⟩ := List.any_eq_true.mp hbad
    obtain ⟨i, hi, rfl⟩ := hfiles file hfile
    exact (of_decide_eq_true hbad).elim (fun h => h (path_letters (by omega) (by omega)))
      fun h => h isSha256_zeroes
  · rintro hbad
    obtain ⟨file, hfile, hbad⟩ := List.any_eq_true.mp hbad
    obtain ⟨i, hi, rfl⟩ := hfiles file hfile
    rw [parents_letters] at hbad
    cases hbad
  · exact ⟨Nat.zero_le _, by unfold MAX_METADATA; omega⟩

lemma toList_quotedRoot (count : ℕ) : (quotedRoot count).toList =
    '/' :: (List.replicate count '"' ++ ("/p/asset." ++ zeroes ++ "/tree").toList) := by
  simp only [quotedRoot, String.toList_append, String.toList_ofList, List.append_assoc]
  rfl

/-- What follows the quotes of a root. -/
def rootTail : List Char := ("/p/asset." ++ zeroes ++ "/tree").toList

lemma rootTail_eq : rootTail = ['/', 'p', '/', 'a', 's', 's', 'e', 't', '.'] ++
    List.replicate 64 '0' ++ ['/', 't', 'r', 'e', 'e'] := by
  have hasset : "/p/asset.".toList = ['/', 'p', '/', 'a', 's', 's', 'e', 't', '.'] :=
    String.toList_ofList
  have hzeroes : zeroes.toList = List.replicate 64 '0' := String.toList_ofList
  have htree : "/tree".toList = ['/', 't', 'r', 'e', 'e'] := String.toList_ofList
  calc rootTail = ("/p/asset." ++ zeroes).toList ++ "/tree".toList := String.toList_append
    _ = "/p/asset.".toList ++ zeroes.toList ++ "/tree".toList :=
        congrArg (· ++ "/tree".toList) String.toList_append
    _ = _ := congrArg₂ (· ++ ·) (congrArg₂ (· ++ ·) hasset hzeroes) htree

/-- The marks and the letters of the tail of a root. -/
lemma any_rootTail {bad : Char → Bool}
    (h : ['/', 'p', 'a', 's', 'e', 't', '.', '0', 'r'].any bad = false) :
    ('/' :: rootTail).any bad = false := by
  simp only [List.any_cons, List.any_nil, Bool.or_eq_false_iff] at h
  simp [rootTail_eq, h]

lemma mem_quotedRoot {count : ℕ} {c : Char} (h : c ∈ (quotedRoot count).toList) :
    c = '"' ∨ c ∈ '/' :: rootTail := by
  rw [toList_quotedRoot, List.mem_cons, List.mem_append] at h
  rcases h with rfl | h | h
  · exact Or.inr List.mem_cons_self
  · exact Or.inl (List.eq_of_mem_replicate h)
  · exact Or.inr (List.mem_cons_of_mem _ h)

lemma any_quotedRoot {count : ℕ} {bad : Char → Bool} (hquote : bad '"' = false)
    (htail : ('/' :: rootTail).any bad = false) : (quotedRoot count).toList.any bad = false := by
  rw [List.any_eq_false] at htail ⊢
  intro c hc
  rcases mem_quotedRoot hc with rfl | hmem
  · rw [hquote]
    exact Bool.false_ne_true
  · exact htail c hmem

lemma byteLen_quotedRoot (count : ℕ) : byteLen (quotedRoot count) = count + 79 := by
  have hascii : ∀ c ∈ (quotedRoot count).toList, c.utf8Size = 1 := by
    have hwide := @any_quotedRoot count (fun c => c.utf8Size ≠ 1) (by decide)
      (any_rootTail (by decide))
    rw [List.any_eq_false] at hwide
    intro c hc
    simpa using hwide c hc
  rw [byteLen, length_utf8_of_ascii hascii, ← String.length_toList, toList_quotedRoot,
    List.length_cons, List.length_append, List.length_replicate]
  have htail : rootTail.length = 78 := by rw [rootTail_eq]; rfl
  change count + rootTail.length + 1 = _
  omega

lemma count_quotedRoot (count : ℕ) : (quotedRoot count).toList.count '"' = count := by
  rw [toList_quotedRoot, List.count_cons, List.count_append, List.count_replicate_self]
  have htail : rootTail.count '"' = 0 := by rw [rootTail_eq]; rfl
  change count + rootTail.count '"' + _ = _
  rw [htail, if_neg (by decide), Nat.add_zero]

lemma rootPath_quotedRoot {count : ℕ} (h : count ≤ 4000) : rootPath (quotedRoot count) = true := by
  have hhead : (quotedRoot count).toList.head? = some '/' := by
    rw [toList_quotedRoot, List.head?_cons]
  have hlast : (quotedRoot count).toList.getLast? = some 'e' := by
    have htail : rootTail = rootTail.take 77 ++ ['e'] := by rw [rootTail_eq]; rfl
    rw [toList_quotedRoot]
    change ('/' :: (List.replicate count '"' ++ rootTail)).getLast? = _
    rw [htail, ← List.append_assoc, ← List.cons_append, List.getLast?_concat]
  have hparts : pathParts (quotedRoot count) =
      [] :: List.replicate count '"' :: (rootTail.drop 1).splitOn '/' := by
    have htail : rootTail = '/' :: rootTail.drop 1 := by rw [rootTail_eq]; rfl
    have hquotes : '/' ∉ List.replicate count '"' :=
      fun hmem => absurd (List.eq_of_mem_replicate hmem) (by decide)
    rw [pathParts, toList_quotedRoot, List.splitOn_cons_eq_if_modifyHead, if_pos (by decide)]
    change _ :: (List.replicate count '"' ++ rootTail).splitOn '/' = _
    rw [htail, List.splitOn_append_cons_self_of_not_mem hquotes]
    rfl
  have hdots : ¬(pathParts (quotedRoot count)).any fun part => part = ['.'] ∨ part = ['.', '.'] := by
    rw [hparts, List.any_cons, List.any_cons]
    have htail : (((rootTail.drop 1).splitOn '/').any fun part =>
        decide (part = ['.'] ∨ part = ['.', '.'])) = false := by
      rw [rootTail_eq]
      decide
    have hquotes : ∀ rest, List.replicate count '"' ≠ '.' :: rest := by
      intro rest heq
      have hmem : '.' ∈ List.replicate count '"' := by
        rw [heq]
        exact List.mem_cons_self
      exact absurd (List.eq_of_mem_replicate hmem) (by decide)
    rw [htail]
    simp [hquotes]
  have hslash : quotedRoot count ≠ "" ∧ quotedRoot count ≠ "/" := by
    constructor <;> intro heq <;> rw [heq] at hlast <;> exact absurd hlast (by decide)
  have hmarks : ∀ bad : Char → Bool, bad '"' = false → ('/' :: rootTail).any bad = false →
      ¬(quotedRoot count).toList.any bad = true := by
    intro bad hquote htail
    rw [any_quotedRoot hquote htail]
    exact Bool.false_ne_true
  simp only [rootPath, absolutePath, printable, decide_eq_true_eq, byteLen_quotedRoot]
  refine ⟨⟨hhead, ⟨hslash.1, by omega, hmarks _ (by decide) (any_rootTail (by decide))⟩,
    hmarks _ (by decide) (any_rootTail (by decide)), hdots⟩, hslash.2, ?_,
    hmarks _ (by decide) (any_rootTail (by decide))⟩
  rw [hlast]
  decide

lemma quotedMount_valid : quotedMount.receipt.validate = .ok () := by
  have hroot := @rootPath_quotedRoot 4000 (Nat.le_refl _)
  have hdigest := validDigest_append isSha256_zeroes
  have htarget : quotedMount.receipt.target.validate = .ok () :=
    reject_eq_ok.mpr (not_or.mpr ⟨by decide, by simp [quotedMount, hdigest]⟩)
  refine Receipt.validate_eq_ok.mpr
    ⟨by decide, htarget, validate_longDefinition, rfl, rfl, hroot, ?_⟩
  refine ⟨'/' :: List.replicate 4000 '"', ?_⟩
  exact (toList_quotedRoot 4000).symm

lemma plainSize_quotedMount : quotedMount.plainSize = 258369 := by
  have hname : byteLen quotedMount.name = 1 := by decide
  have hproject : byteLen quotedMount.receipt.project = 1 := by decide
  have hbackend : byteLen quotedMount.receipt.target.backendId = 1 := by decide
  have hroot : byteLen quotedMount.receipt.root = 4079 := byteLen_quotedRoot 4000
  have hdefinition : quotedMount.receipt.definition.document.size = 253902 := size_longDefinition
  rw [Mount.plainSize, hname, hproject, hbackend, hroot, hdefinition]

lemma count_quotedMount : quotedMount.receipt.root.toList.count '"' = 4000 :=
  count_quotedRoot 4000

lemma budget_quotedMount : quotedMount.receipt.definition.manifestBudget = true := by
  refine decide_eq_true ?_
  change longDefinition.document.size ≤ _
  rw [size_longDefinition]
  unfold MAX_DEFINITION_BYTES MAX_MANIFEST_BYTES MOUNT_ENVELOPE_BYTES
  omega

/-- **A root of quotes is refused.** The definition is admitted and the mount is valid, and the
list of the mount is too long. -/
theorem quoted_root_refused :
    validateId quotedMount.name = .ok () ∧ quotedMount.receipt.validate = .ok () ∧
      quotedMount.receipt.definition.manifestBudget = true ∧
      manifestBudget [quotedMount] = false := by
  have hname : validateId quotedMount.name = .ok () := by decide
  have hvalid := Receipt.validate_eq_ok.mp quotedMount_valid
  refine ⟨hname, quotedMount_valid, budget_quotedMount, ?_⟩
  refine decide_eq_false ?_
  rw [size_mount hname hvalid, plainSize_quotedMount, count_quotedMount]
  unfold MAX_MANIFEST_BYTES
  omega

theorem mount_fits_sampled : ¬manifestBudget [quotedMount] = true := by
  have hfits := mount_fits quotedMount (by decide) quotedMount_valid budget_quotedMount
  rw [hfits.1, Mount.room, plainSize_quotedMount, count_quotedMount]
  unfold MAX_MANIFEST_BYTES
  omega

end Datasets

end ExperimentControl
