import ExperimentControl.Checkpoints
import ExperimentControl.Json.Shape
import Std.Data.String.ToNat

/-!
# Checkpoint documents

What the documents of `core/src/checkpoints.rs` hold, and what their identity says about it. A
manifest is read from its rows in any order, and a document holds the rows it was built from in the
order of their paths, so that the rows of a document are a manifest again.

* `manifest_eq_ok` — what a ready marker has to be, and the manifest it is read as.
* `manifest_documents`, `manifest_perm` — the rows of a document, and rows of another order.
* **`validateDocument_document`** — a document is accepted as what it was built from.
* **`base_injective`** — documents of one encoding are of one content.
* **`document_identity`** — the claims of a checkpoint's identity in one place.
-/

namespace ExperimentControl

namespace Checkpoints

/-! ## Fields -/

/-- The members of an object by their names. -/
lemma exactKeys_eq_ok {value : Json} {keys : List String} {fields : Fields} (hkeys : keys.Nodup) :
    exactKeys value keys = .ok fields ↔ value = .object fields ∧ fields.length = keys.length ∧
      fields.Perm (keys.map fun key => (key, (fields.get key).getD .null)) := by
  rw [exactKeys, bind_eq_ok]
  constructor
  · rintro ⟨found, hobject, h⟩
    obtain ⟨_, hall, h⟩ := bind_eq_ok.mp h
    obtain rfl := Except.ok.inj h
    rw [reject_eq_ok, not_or, not_not, Bool.not_eq_true, List.any_eq_false] at hall
    refine ⟨object_eq_ok.mp hobject, hall.1, Fields.perm_of_keys hkeys hall.1 fun key hkey => ?_⟩
    simpa [Option.isSome_iff_ne_none] using hall.2 key hkey
  · rintro ⟨rfl, hlength, hperm⟩
    refine ⟨fields, rfl, bind_eq_ok.mpr ⟨(), reject_eq_ok.mpr ?_, rfl⟩⟩
    rw [not_or, not_not, Bool.not_eq_true, List.any_eq_false]
    refine ⟨hlength, fun key hkey => ?_⟩
    have hmem : key ∈ fields.map Prod.fst := by
      rw [(hperm.map Prod.fst).mem_iff, List.map_map]
      simpa using hkey
    cases hget : fields.get key with
    | none =>
      obtain ⟨field, hfield, rfl⟩ := List.mem_map.mp hmem
      have habsent := List.lookup_eq_none_iff.mp hget field hfield
      simp at habsent
    | some value => simp

lemma string_eq_ok {fields : Fields} {key value : String} {maximum : ℕ} :
    string fields key maximum = .ok value ↔
      fields.get key = some (.string value) ∧ isText maximum value = true := by
  rw [string]
  cases htext : fields.text key with
  | none =>
    refine ⟨(fun h => nomatch h), fun h => ?_⟩
    rw [Fields.text, h.1] at htext
    cases htext
  | some found =>
    have hget : fields.get key = some (.string found) := by
      obtain ⟨field, hfield, hfound⟩ := Option.bind_eq_some_iff.mp htext
      rw [hfield, Json.asStr_eq_some.mp hfound]
    rw [hget]
    dsimp only
    constructor
    · intro h
      obtain ⟨_, hok, h⟩ := bind_eq_ok.mp h
      rw [reject_eq_ok, not_not] at hok
      exact ⟨by rw [Except.ok.inj h], Except.ok.inj h ▸ hok⟩
    · rintro ⟨heq, hok⟩
      obtain rfl := Json.string.inj (Option.some.inj heq)
      exact bind_eq_ok.mpr ⟨(), reject_eq_ok.mpr (not_not.mpr hok), rfl⟩

lemma integer_eq_ok {fields : Fields} {key : String} {n : ℕ} :
    integer fields key = .ok n ↔ (fields.get key).bind Json.asU64 = some n := by
  rw [integer]
  cases (fields.get key).bind Json.asU64 with
  | none => simp
  | some found => simp

/-! ## Rows -/

/-- The names of a row's members. -/
def rowKeys : List String := ["path", "bytes", "sha256"]

/-- What a row has to be, and the file it is read as. -/
lemma readRow_eq_ok {row : Json} {file : FileRecord} {generation : String} :
    readRow row = .ok (file, generation) ↔ ∃ fields : Fields, exactKeys row rowKeys = .ok fields ∧
      string fields "path" MAX_PATH_BYTES = .ok file.path ∧
      checkpointPath file.path = .ok generation ∧ integer fields "bytes" = .ok file.bytes ∧
      file.bytes < 2 ^ 63 ∧ string fields "sha256" 64 = .ok file.sha256 ∧
        isSha256 file.sha256 = true := by
  rw [readRow]
  constructor
  · intro h
    obtain ⟨fields, hkeys, h⟩ := bind_eq_ok.mp h
    obtain ⟨path, hpath, h⟩ := bind_eq_ok.mp h
    obtain ⟨found, hfound, h⟩ := bind_eq_ok.mp h
    obtain ⟨bytes, hbytes, h⟩ := bind_eq_ok.mp h
    obtain ⟨_, hlimit, h⟩ := bind_eq_ok.mp h
    obtain ⟨sha256, hsha256, h⟩ := bind_eq_ok.mp h
    obtain ⟨_, hhex, h⟩ := bind_eq_ok.mp h
    obtain ⟨rfl, rfl⟩ := Prod.mk.inj (Except.ok.inj h)
    rw [reject_eq_ok, not_le] at hlimit
    rw [reject_eq_ok, not_not] at hhex
    exact ⟨fields, hkeys, hpath, hfound, hbytes, hlimit, hsha256, hhex⟩
  · rintro ⟨fields, hkeys, hpath, hgeneration, hbytes, hlimit, hsha256, hhex⟩
    refine bind_eq_ok.mpr ⟨fields, hkeys, bind_eq_ok.mpr ⟨_, hpath, ?_⟩⟩
    refine bind_eq_ok.mpr ⟨_, hgeneration, bind_eq_ok.mpr ⟨_, hbytes, ?_⟩⟩
    refine bind_eq_ok.mpr ⟨(), reject_eq_ok.mpr (not_le.mpr hlimit), ?_⟩
    refine bind_eq_ok.mpr ⟨_, hsha256, ?_⟩
    exact bind_eq_ok.mpr ⟨(), reject_eq_ok.mpr (not_not.mpr hhex), rfl⟩

/-- The document of a file is a row of it. -/
lemma readRow_document {row : Json} {file : FileRecord} {generation : String}
    (h : readRow row = .ok (file, generation)) :
    readRow file.document = .ok (file, generation) := by
  obtain ⟨fields, -, hpath, hgeneration, -, hlimit, hsha256, hhex⟩ := readRow_eq_ok.mp h
  have hnumber : (Json.ofNat file.bytes).asU64 = some file.bytes :=
    Json.asU64_ofNat (lt_trans hlimit (by decide))
  refine readRow_eq_ok.mpr ⟨_, (exactKeys_eq_ok (by decide)).mpr ⟨rfl, rfl, ?_⟩, ?_, hgeneration,
    ?_, hlimit, ?_, hhex⟩
  · simp [rowKeys, Fields.get_cons]
  · exact string_eq_ok.mpr ⟨by simp [Fields.get_cons], (string_eq_ok.mp hpath).2⟩
  · exact integer_eq_ok.mpr (by simp [Fields.get_cons, hnumber])
  · exact string_eq_ok.mpr ⟨by simp [Fields.get_cons], (string_eq_ok.mp hsha256).2⟩

/-- A row is as long as the document of its file. -/
lemma size_row {row : Json} (hvalid : row.valid = true) {file : FileRecord} {generation : String}
    (h : readRow row = .ok (file, generation)) : row.size = file.document.size := by
  obtain ⟨fields, hkeys, hpath, -, hbytes, -, hsha256, -⟩ := readRow_eq_ok.mp h
  obtain ⟨rfl, -, hperm⟩ := (exactKeys_eq_ok (by decide)).mp hkeys
  have hpath := (string_eq_ok.mp hpath).1
  have hsha256 := (string_eq_ok.mp hsha256).1
  obtain ⟨number, hget, hnumber⟩ := Option.bind_eq_some_iff.mp (integer_eq_ok.mp hbytes)
  have htext : number = .ofNat file.bytes := by
    have hmember := (lookup_eq_some_iff (Json.readable_object.mp hvalid).1).mp hget
    have hreadable := (Json.readableFields_iff fields).mp (Json.readable_object.mp hvalid).2 _ hmember
    cases number with
    | number text => exact Json.eq_ofNat (Bool.and_eq_true_iff.mp hreadable).1 hnumber
    | _ => cases hnumber
  rw [Json.size_object_perm hperm]
  simp [rowKeys, hpath, hget, hsha256, htext, FileRecord.document]

/-! ## Manifests -/

/-- Files that are read from rows of one generation. -/
lemma dedup_eq_singleton {α β : Type} [DecidableEq β] {g : β} : ∀ {pairs : List (α × β)},
    (pairs.map Prod.snd).dedup = [g] ↔
      pairs ≠ [] ∧ pairs = (pairs.map Prod.fst).map fun a => (a, g) := by
  intro pairs
  constructor
  · intro h
    refine ⟨?_, ?_⟩
    · rintro rfl
      cases h
    · rw [List.map_map]
      refine (List.map_id pairs).symm.trans (List.map_congr_left fun pair hpair => ?_)
      have hmem : pair.2 ∈ (pairs.map Prod.snd).dedup :=
        List.mem_dedup.mpr (List.mem_map_of_mem hpair)
      rw [h, List.mem_singleton] at hmem
      exact Prod.ext rfl hmem
  · rintro ⟨hne, hpairs⟩
    have hsecond : pairs.map Prod.snd = List.replicate pairs.length g := by
      refine List.eq_replicate_iff.mpr ⟨by simp, fun b hb => ?_⟩
      rw [hpairs, List.map_map] at hb
      obtain ⟨_, -, rfl⟩ := List.mem_map.mp hb
      rfl
    obtain ⟨n, hn⟩ := Nat.exists_eq_succ_of_ne_zero (mt List.length_eq_zero_iff.mp hne)
    rw [hsecond, hn, List.replicate_dedup n.succ_ne_zero]

/-- The rows of a ready marker, and the files of one generation that they are read as. -/
def ReadAs (generation : String) (rows : List Json) (files : List FileRecord) : Prop :=
  List.Forall₂ (fun row file => readRow row = .ok (file, generation)) rows files

/-- What a ready marker has to be, and the manifest it is read as. -/
lemma manifest_eq_ok {value : Json} {m : Manifest} : manifest value = .ok m ↔
    ∃ (fields : Fields) (rows : List Json) (files : List FileRecord),
      exactKeys value ["step", "files"] = .ok fields ∧ value.size ≤ MANIFEST_LIMIT ∧
      integer fields "step" = .ok m.step ∧ fields.get "files" = some (.array rows) ∧
      (rows ≠ [] ∧ rows.length ≤ MAX_FILES) ∧ ReadAs m.generation rows files ∧
      (files.map (·.path)).Nodup ∧ m.files = sortFiles files := by
  rw [manifest]
  constructor
  · intro h
    obtain ⟨fields, hkeys, h⟩ := bind_eq_ok.mp h
    obtain ⟨_, hsize, h⟩ := bind_eq_ok.mp h
    obtain ⟨step, hstep, h⟩ := bind_eq_ok.mp h
    rw [reject_eq_ok, not_lt] at hsize
    cases hrows : (fields.get "files").bind Json.asArray with
    | none =>
      rw [hrows] at h
      cases h
    | some rows =>
      rw [hrows] at h
      obtain ⟨_, hcount, h⟩ := bind_eq_ok.mp h
      obtain ⟨read, hread, h⟩ := bind_eq_ok.mp h
      obtain ⟨_, hdistinct, h⟩ := bind_eq_ok.mp h
      rw [reject_eq_ok, not_or, not_lt] at hcount
      rw [reject_eq_ok, not_not] at hdistinct
      split at h
      · next generation hgeneration =>
        obtain rfl := Except.ok.inj h
        obtain ⟨-, hpairs⟩ := dedup_eq_singleton.mp hgeneration
        obtain ⟨found, hget, harray⟩ := Option.bind_eq_some_iff.mp hrows
        have hvalue : found = .array rows := by
          cases found with
          | array items => rw [Option.some.inj harray]
          | _ => cases harray
        refine ⟨fields, rows, read.map Prod.fst, hkeys, hsize, hstep, by rw [hget, hvalue], hcount,
          ?_, ?_, rfl⟩
        · have hforall := mapM_eq_ok.mp hread
          rw [hpairs] at hforall
          have hread := List.forall₂_map_right_iff.mp hforall
          exact hread
        · rwa [List.map_map]
      · cases h
  · rintro ⟨fields, rows, files, hkeys, hsize, hstep, hrows, ⟨hne, hcount⟩, hread, hdistinct,
      hfiles⟩
    refine bind_eq_ok.mpr ⟨fields, hkeys, ?_⟩
    refine bind_eq_ok.mpr ⟨(), reject_eq_ok.mpr (not_lt.mpr hsize), ?_⟩
    refine bind_eq_ok.mpr ⟨_, hstep, ?_⟩
    have harray : (fields.get "files").bind Json.asArray = some rows := by
      rw [hrows]
      rfl
    have hpairs : rows.mapM readRow = .ok (files.map fun file => (file, m.generation)) := by
      rw [mapM_eq_ok, List.forall₂_map_right_iff]
      exact hread
    have hsome : files ≠ [] := by
      rintro rfl
      exact hne (List.forall₂_nil_right_iff.mp hread)
    have hgeneration : ((files.map fun file => (file, m.generation)).map Prod.snd).dedup =
        [m.generation] :=
      dedup_eq_singleton.mpr ⟨by simpa using hsome, by simp⟩
    rw [harray]
    refine bind_eq_ok.mpr ⟨(), reject_eq_ok.mpr (by rw [not_or, not_lt]; exact ⟨hne, hcount⟩), ?_⟩
    refine bind_eq_ok.mpr ⟨_, hpairs, ?_⟩
    refine bind_eq_ok.mpr ⟨(), reject_eq_ok.mpr ?_, ?_⟩
    · rw [not_not, List.map_map]
      exact hdistinct
    · rw [hgeneration]
      simp only [List.map_map, Function.comp_def, List.map_id', ← hfiles]

lemma pairwise_sortFiles (files : List FileRecord) :
    (sortFiles files).Pairwise fun left right => left.path ≤ right.path := by
  have htotal : Std.Total fun left right : FileRecord => left.path ≤ right.path :=
    ⟨fun _ _ => Std.le_total⟩
  have htrans : IsTrans FileRecord fun left right => left.path ≤ right.path :=
    ⟨fun _ _ _ hfirst hsecond => Std.le_trans hfirst hsecond⟩
  exact List.pairwise_insertionSort _ files

/-- Files in the order of their paths have one order. -/
lemma sortFiles_eq {files others : List FileRecord} (hperm : files.Perm others)
    (hdistinct : (files.map (·.path)).Nodup) : sortFiles files = sortFiles others := by
  have hsorted : (sortFiles files).Perm (sortFiles others) :=
    ((List.perm_insertionSort _ files).trans hperm).trans (List.perm_insertionSort _ others).symm
  refine List.Perm.eq_of_pairwise ?_ (pairwise_sortFiles files) (pairwise_sortFiles others) hsorted
  intro left right hleft hright hle hge
  have hmem := (List.perm_insertionSort _ files).mem_iff.mp hleft
  have hmem' := hperm.mem_iff.mpr ((List.perm_insertionSort _ others).mem_iff.mp hright)
  exact List.inj_on_of_nodup_map hdistinct hmem hmem' (Std.le_antisymm hle hge)

lemma perm_sortFiles (files : List FileRecord) : (sortFiles files).Perm files :=
  List.perm_insertionSort _ files

/-- Rows are read in any order. -/
lemma ReadAs.perm {generation : String} {rows rows' : List Json} {files : List FileRecord}
    (h : ReadAs generation rows files) (hperm : rows'.Perm rows) :
    ∃ files', ReadAs generation rows' files' ∧ files'.Perm files := by
  have hread : List.Forall₂ (fun row file => readRow row = .ok (file, generation)) rows files := h
  obtain ⟨files', hread', hfiles⟩ := List.perm_comp_forall₂ hperm hread
  exact ⟨files', hread', hfiles⟩

/-- The documents of files that were read are rows again. -/
lemma ReadAs.documents {generation : String} {rows : List Json} {files : List FileRecord}
    (h : ReadAs generation rows files) :
    ReadAs generation (files.map FileRecord.document) files := by
  induction h with
  | nil => exact .nil
  | cons hrow _ ih => exact .cons (readRow_document hrow) ih

/-- Rows together are as long as the documents of their files. -/
lemma ReadAs.sizes {generation : String} {rows : List Json} {files : List FileRecord}
    (h : ReadAs generation rows files) (hvalid : ∀ row ∈ rows, row.valid = true) :
    rows.map Json.size = (files.map FileRecord.document).map Json.size := by
  induction h with
  | nil => rfl
  | cons hrow _ ih =>
    rw [List.map_cons, List.map_cons, List.map_cons, ih fun row hmem =>
      hvalid row (List.mem_cons_of_mem _ hmem), size_row (hvalid _ List.mem_cons_self) hrow]

/-- The ready marker of a step and some rows. -/
def ready (step : Json) (rows : List Json) : Json :=
  .object [("step", step), ("files", .array rows)]

lemma exactKeys_ready (step : Json) (rows : List Json) :
    exactKeys (ready step rows) ["step", "files"] =
      .ok [("step", step), ("files", .array rows)] := by
  simp [exactKeys, object, ready, Json.asObject, Fields.get_cons, reject]

/-- What a manifest says of a ready marker. -/
lemma manifest_ready_iff {step : Json} {rows : List Json} {m : Manifest} :
    manifest (ready step rows) = .ok m ↔ ∃ files : List FileRecord,
      (ready step rows).size ≤ MANIFEST_LIMIT ∧ step.asU64 = some m.step ∧
      (rows ≠ [] ∧ rows.length ≤ MAX_FILES) ∧ ReadAs m.generation rows files ∧
      (files.map (·.path)).Nodup ∧ m.files = sortFiles files := by
  rw [manifest_eq_ok]
  have hstep : (Fields.get [("step", step), ("files", Json.array rows)] "step").bind Json.asU64 =
      step.asU64 := by simp [Fields.get_cons]
  have hfiles : Fields.get [("step", step), ("files", Json.array rows)] "files" =
      some (.array rows) := by simp [Fields.get_cons]
  constructor
  · rintro ⟨fields, rows', files, hkeys, hsize, hnumber, hrows, hcount, hread, hrest⟩
    rw [exactKeys_ready] at hkeys
    obtain rfl := Except.ok.inj hkeys
    rw [hfiles] at hrows
    obtain rfl := Json.array.inj (Option.some.inj hrows)
    rw [integer_eq_ok, hstep] at hnumber
    exact ⟨files, hsize, hnumber, hcount, hread, hrest⟩
  · rintro ⟨files, hsize, hnumber, hrest⟩
    exact ⟨_, rows, files, exactKeys_ready step rows, hsize,
      integer_eq_ok.mpr (hstep.trans hnumber), hfiles, hrest⟩

lemma size_ready (step : Json) (rows : List Json) : (ready step rows).size =
    step.size + (Json.array rows).size + 18 := by
  have h₁ : textSize "step" = 6 := by decide
  have h₂ : textSize "files" = 7 := by decide
  simp only [ready, Json.size, Json.sizeFields, Json.joinedSize, h₁, h₂]
  omega

/-- The rows of a marker may be in any order. -/
lemma manifest_perm {step : Json} {rows rows' : List Json} {m : Manifest}
    (h : manifest (ready step rows) = .ok m) (hperm : rows'.Perm rows) :
    manifest (ready step rows') = .ok m := by
  obtain ⟨files, hsize, hstep, ⟨hne, hcount⟩, hread, hdistinct, hfiles⟩ := manifest_ready_iff.mp h
  obtain ⟨files', hread', hpermuted⟩ := hread.perm hperm
  have hdistinct' : (files'.map (·.path)).Nodup :=
    (hpermuted.map _).nodup_iff.mpr hdistinct
  refine manifest_ready_iff.mpr ⟨files', ?_, hstep, ⟨?_, ?_⟩, hread', hdistinct', ?_⟩
  · rwa [size_ready, Json.size_array_perm hperm, ← size_ready]
  · rintro rfl
    exact hne hperm.nil_eq.symm
  · rwa [hperm.length_eq]
  · rw [hfiles, sortFiles_eq hpermuted hdistinct']

/-- A ready marker in its two members, with a step that is a number. -/
lemma manifest_marker {value : Json} (hvalid : value.valid = true) {m : Manifest}
    (h : manifest value = .ok m) : ∃ rows, value.size = (ready (.ofNat m.step) rows).size ∧
      (∀ row ∈ rows, row.valid = true) ∧ manifest (ready (.ofNat m.step) rows) = .ok m := by
  obtain ⟨fields, rows, files, hkeys, hsize, hstep, hrows, hcount, hread, hdistinct, hfiles⟩ :=
    manifest_eq_ok.mp h
  obtain ⟨rfl, -, hperm⟩ := (exactKeys_eq_ok (by decide)).mp hkeys
  obtain ⟨number, hget, hnumber⟩ := Option.bind_eq_some_iff.mp (integer_eq_ok.mp hstep)
  have hreadable : ∀ key found, fields.get key = some found → found.valid = true := by
    intro key found hfound
    have hmember := (lookup_eq_some_iff (Json.readable_object.mp hvalid).1).mp hfound
    exact (Json.readableFields_iff fields).mp (Json.readable_object.mp hvalid).2 _ hmember
  have htext : number = .ofNat m.step := by
    cases number with
    | number text =>
      exact Json.eq_ofNat (Bool.and_eq_true_iff.mp (hreadable _ _ hget)).1 hnumber
    | _ => cases hnumber
  have hsame : (Json.object fields).size = (ready (.ofNat m.step) rows).size := by
    rw [Json.size_object_perm hperm]
    simp [ready, hget, hrows, htext]
  refine ⟨rows, hsame, ?_, ?_⟩
  · have hitems : (Json.array rows).valid = true := hreadable _ _ hrows
    intro row hrow
    exact (Json.readableItems_iff rows).mp hitems row hrow
  · exact manifest_ready_iff.mpr ⟨files, hsame ▸ hsize,
      Json.asU64_ofNat (Json.lt_of_asU64 hnumber), hcount, hread, hdistinct, hfiles⟩

/-- The members of a document are a ready marker of the same manifest. -/
lemma manifest_documents {value : Json} (hvalid : value.valid = true) {m : Manifest}
    (h : manifest value = .ok m) :
    manifest (ready (.ofNat m.step) (m.files.map FileRecord.document)) = .ok m := by
  obtain ⟨rows, -, hrows, hmarker⟩ := manifest_marker hvalid h
  obtain ⟨files, hsize, hstep, ⟨hne, hcount⟩, hread, hdistinct, hfiles⟩ :=
    manifest_ready_iff.mp hmarker
  have hlength : rows.length = files.length := List.Forall₂.length_eq hread
  -- The documents of the files in the order in which they were read.
  have hdocuments : manifest (ready (.ofNat m.step) (files.map FileRecord.document)) = .ok m := by
    refine manifest_ready_iff.mpr ⟨files, ?_, hstep, ⟨?_, ?_⟩, hread.documents, hdistinct, hfiles⟩
    · have hsizes := hread.sizes hrows
      rw [size_ready, Json.size, Json.sizeItems_eq] at hsize ⊢
      rwa [← hsizes]
    · intro hnil
      rw [List.map_eq_nil_iff] at hnil
      rw [hnil, List.length_nil, List.length_eq_zero_iff] at hlength
      exact hne hlength
    · rwa [List.length_map, ← hlength]
  refine manifest_perm hdocuments ?_
  rw [hfiles]
  exact (perm_sortFiles files).map _

/-! ## Documents -/

/-- The fields that the check of a document looks at. -/
def documentKeys : List String :=
  ["checkpoint_id", "schema_version", "step", "files"] ++ contextKeys

section Documents

variable {enc : Encoding}

/-- The check of a document looks at its own fields only. -/
lemma validateDocument_congr {fields others : Fields}
    (h : ∀ key ∈ documentKeys, fields.get key = others.get key) (expectedContext : Option Context)
    (expectedId : Option String) :
    validateDocument enc (.object fields) expectedContext expectedId =
      validateDocument enc (.object others) expectedContext expectedId := by
  have hrequired : ∀ key ∈ documentKeys, required fields key = required others key := by
    intro key hkey
    rw [required, required, h key hkey]
  have htext : fields.text "checkpoint_id" = others.text "checkpoint_id" := by
    rw [Fields.text, Fields.text, h _ (by decide)]
  have hvalues : ∀ keys ⊆ documentKeys,
      keys.mapM (required fields) = keys.mapM (required others) := by
    intro keys hkeys
    induction keys with
    | nil => rfl
    | cons key keys ih =>
      rw [List.cons_subset] at hkeys
      rw [List.mapM_cons, List.mapM_cons, hrequired key hkeys.1, ih hkeys.2]
  simp only [validateDocument, object, Json.asObject, ok_bind, htext,
    hvalues contextKeys (by decide), h "schema_version" (by decide), hrequired "step" (by decide), hrequired "files" (by decide)]

/-- The identity of an accepted document is the digest of what it is read as. -/
lemma id_of_validateDocument {value : Json} {expectedContext : Option Context}
    {expectedId : Option String} {c : Context} {m : Manifest}
    (h : validateDocument enc value expectedContext expectedId = .ok (c, m)) :
    ∃ id written, (value.get "checkpoint_id").bind Json.asStr = some id ∧
      isCheckpointId id = true ∧ enc.bytes (.object (base c m)) = .ok written ∧
      id = "checkpoint." ++ enc.sha256 written := by
  rw [validateDocument] at h
  obtain ⟨fields, hobject, h⟩ := bind_eq_ok.mp h
  obtain ⟨_, hchecked, h⟩ := bind_eq_ok.mp h
  obtain ⟨values, -, h⟩ := bind_eq_ok.mp h
  obtain ⟨actual, -, h⟩ := bind_eq_ok.mp h
  obtain ⟨_, -, h⟩ := bind_eq_ok.mp h
  obtain ⟨_, -, h⟩ := bind_eq_ok.mp h
  obtain ⟨step, -, h⟩ := bind_eq_ok.mp h
  obtain ⟨files, -, h⟩ := bind_eq_ok.mp h
  obtain ⟨read, hread, h⟩ := bind_eq_ok.mp h
  obtain ⟨expected, hexpected, h⟩ := bind_eq_ok.mp h
  obtain ⟨_, hsame, h⟩ := bind_eq_ok.mp h
  obtain ⟨rfl, rfl⟩ := Prod.mk.inj (Except.ok.inj h)
  rw [reject_eq_ok, not_or, not_not, not_not] at hchecked
  rw [reject_eq_ok, not_not] at hsame
  obtain rfl := object_eq_ok.mp hobject
  rw [document] at hexpected
  obtain ⟨_, -, hexpected⟩ := bind_eq_ok.mp hexpected
  obtain ⟨again, hagain, hexpected⟩ := bind_eq_ok.mp hexpected
  obtain rfl := Except.ok.inj (hread.symm.trans hagain)
  obtain ⟨id, hid, hexpected⟩ := bind_eq_ok.mp hexpected
  obtain rfl := Except.ok.inj hexpected
  rw [Json.index, Json.get, Fields.get_insert_self, Option.getD_some, Json.string.injEq] at hsame
  rw [identityDigest, Encoding.digest] at hid
  cases hbytes : enc.bytes (.object (base actual read)) with
  | error e =>
    rw [hbytes] at hid
    cases hid
  | ok written =>
    rw [hbytes] at hid
    obtain rfl := Except.ok.inj hid
    refine ⟨_, written, ?_, hchecked.2, rfl, hsame.symm⟩
    have hnone : isCheckpointId "" = false := by decide
    cases htext : fields.text "checkpoint_id" with
    | none =>
      rw [htext, Option.getD_none, hnone] at hchecked
      cases hchecked.2
    | some id => exact htext

section Format

variable {F : Type} {format : FloatFormat F} {sha256 : Bytes → String}

/-- Documents hold texts and natural numbers only, each member once. -/
lemma readable_base (c : Context) (m : Manifest) {finite : String → Bool} :
    (Json.object (base c m)).readable finite = true := by
  have hfile : ∀ file : FileRecord, file.document.readable finite = true := by
    intro file
    refine Json.readable_object.mpr ⟨by simp, ?_⟩
    simp [Json.readableFields, Json.readable, Json.readable_ofNat]
  have hfiles : (Json.array (m.files.map FileRecord.document)).readable finite = true := by
    refine (Json.readableItems_iff _).mpr fun item hitem => ?_
    obtain ⟨file, -, rfl⟩ := List.mem_map.mp hitem
    exact hfile file
  refine Json.readable_object.mpr ⟨by simp [base, Context.fields], ?_⟩
  rw [Json.readableFields_iff]
  intro field hfield
  simp only [base, Context.fields, List.mem_append, List.mem_cons, List.not_mem_nil,
    or_false] at hfield
  rcases hfield with (rfl | rfl | rfl | rfl | rfl | rfl | rfl) | rfl | rfl | rfl
  all_goals first | rfl | exact Json.readable_ofNat _ | exact hfiles

lemma same_ofNat {a b : ℕ} (h : Json.same format (.ofNat a) (.ofNat b)) : a = b := by
  have hnormal := (Json.normal_eq_iff (.ofNat a) (.ofNat b) (Json.readable_ofNat a)
    (Json.readable_ofNat b)).mpr h
  rw [Json.normal_ofNat, Json.normal_ofNat, Json.ofNat, Json.ofNat, Json.number.injEq,
    Nat.toString_eq_repr, Nat.toString_eq_repr] at hnormal
  exact Nat.repr_injective hnormal

/-- Objects that are the same value agree on each member. -/
lemma same_get {fields others : Fields} (h : Json.same format (.object fields) (.object others))
    {key : String} {value other : Json} (hvalue : fields.get key = some value)
    (hother : others.get key = some other) : Json.same format value other := by
  obtain ⟨found, hfound, hsame⟩ := (Json.sameFields_get h).1 value hvalue
  rw [hother] at hfound
  exact Option.some.inj hfound ▸ hsame

/-- Documents of files that are the same value are documents of one file. -/
lemma same_file {file other : FileRecord}
    (h : Json.same format file.document other.document) : file = other := by
  obtain ⟨path, bytes, sha256⟩ := file
  obtain ⟨path', bytes', sha256'⟩ := other
  have hpath : Json.same format (.string path) (.string path') :=
    @same_get _ _ _ _ h "path" _ _ (by simp [Fields.get_cons]) (by simp [Fields.get_cons])
  have hbytes : Json.same format (.ofNat bytes) (.ofNat bytes') :=
    @same_get _ _ _ _ h "bytes" _ _ (by simp [Fields.get_cons]) (by simp [Fields.get_cons])
  have hsha256 : Json.same format (.string sha256) (.string sha256') :=
    @same_get _ _ _ _ h "sha256" _ _ (by simp [Fields.get_cons]) (by simp [Fields.get_cons])
  obtain rfl : path = path' := hpath
  obtain rfl : sha256 = sha256' := hsha256
  rw [same_ofNat hbytes]

lemma same_files : ∀ {files others : List FileRecord},
    Json.sameItems format (files.map FileRecord.document) (others.map FileRecord.document) →
      files = others
  | [], [], _ => rfl
  | [], _ :: _, h => h.elim
  | _ :: _, [], h => h.elim
  | file :: files, other :: others, h => by
      rw [same_file h.1, same_files h.2]

lemma get_context (c : Context) (m : Manifest) :
    ∀ key ∈ contextKeys, ∃ text, (base c m).get key = some (.string text) := by
  simp [contextKeys, base, Context.fields, Fields.get_cons]

/-- A context is what a document holds under its keys. -/
lemma context_eq_of_get {c c' : Context} {m m' : Manifest}
    (h : contextKeys.map (base c m).get = contextKeys.map (base c' m').get) : c = c' := by
  simp [contextKeys, base, Context.fields, Fields.get_cons] at h
  obtain ⟨hproject, hrun, hattempt, hsource, himage, hscope, hroot⟩ := h
  cases c
  cases c'
  simp_all

/-- **Documents of one encoding are of one content.** -/
theorem base_injective {c c' : Context} {m m' : Manifest} {written : Bytes}
    (h : (format.encoding sha256).bytes (.object (base c m)) = .ok written)
    (h' : (format.encoding sha256).bytes (.object (base c' m')) = .ok written) :
    c = c' ∧ m.step = m'.step ∧ m.files = m'.files := by
  have hsame : Json.same format (.object (base c m)) (.object (base c' m')) :=
    (Encoding.bytes_eq_iff sha256 (readable_base c m) (readable_base c' m')).mp (h.trans h'.symm)
  have hstep : Json.same format (.ofNat m.step) (.ofNat m'.step) :=
    @same_get _ _ _ _ hsame "step" _ _ (by simp [base, Context.fields, Fields.get_cons])
      (by simp [base, Context.fields, Fields.get_cons])
  have hfiles : Json.same format (.array (m.files.map FileRecord.document))
      (.array (m'.files.map FileRecord.document)) :=
    @same_get _ _ _ _ hsame "files" _ _ (by simp [base, Context.fields, Fields.get_cons])
      (by simp [base, Context.fields, Fields.get_cons])
  refine ⟨@context_eq_of_get _ _ m m' (List.map_congr_left fun key hkey => ?_),
    same_ofNat hstep, same_files hfiles⟩
  obtain ⟨text, htext⟩ := get_context c m key hkey
  obtain ⟨text', htext'⟩ := get_context c' m' key hkey
  have htexts : Json.same format (.string text) (.string text') := same_get hsame htext htext'
  obtain rfl : text = text' := htexts
  rw [htext, htext']

/-! ## Round trips -/

/-- A document of a context and a ready marker. -/
lemma document_eq_ok {c : Context} {value : Json} (hcontext : context (.object c.fields) = .ok c)
    {m : Manifest} (hmanifest : manifest value = .ok m) : ∃ written,
    (format.encoding sha256).bytes (.object (base c m)) = .ok written ∧
      document (format.encoding sha256) c value = .ok (.object (Fields.insert (base c m)
        "checkpoint_id" (.string ("checkpoint." ++ sha256 written)))) := by
  have hbytes := Json.bytes_normal sha256 _ (@readable_base c m format.finite)
  refine ⟨_, hbytes, bind_eq_ok.mpr ⟨c, hcontext, bind_eq_ok.mpr ⟨m, hmanifest, ?_⟩⟩⟩
  refine bind_eq_ok.mpr ⟨_, ?_, rfl⟩
  rw [identityDigest, Encoding.digest, hbytes]
  rfl

lemma isCheckpointId_append {digest : String} (h : isSha256 digest = true) :
    isCheckpointId ("checkpoint." ++ digest) = true := by
  rw [isCheckpointId, Sources.stripPrefix_append]
  exact h

/-- The fields of a document, its identity last. -/
def documentFields (c : Context) (m : Manifest) (id : String) : Fields :=
  base c m ++ [("checkpoint_id", .string id)]

lemma insert_base (c : Context) (m : Manifest) (id : String) :
    (base c m).insert "checkpoint_id" (.string id) = documentFields c m id :=
  Fields.insert_new (by simp [base, Context.fields])

/-- **A document is accepted as what it was built from**, under its own identity. -/
theorem validateDocument_document {c : Context} {value : Json} (hvalid : value.valid = true)
    (hcontext : context (.object c.fields) = .ok c) {m : Manifest}
    (hmanifest : manifest value = .ok m) (hhex : ∀ bytes, isSha256 (sha256 bytes) = true) :
    ∃ id, document (format.encoding sha256) c value = .ok (.object (documentFields c m id)) ∧
      ∀ expectedContext expectedId, (∀ expected ∈ expectedContext, expected = c) →
        (∀ expected ∈ expectedId, expected = id) →
          validateDocument (format.encoding sha256) (.object (documentFields c m id))
            expectedContext expectedId = .ok (c, m) := by
  obtain ⟨written, hbytes, hdocument⟩ := @document_eq_ok _ format sha256 c value hcontext m hmanifest
  have hready := manifest_documents hvalid hmanifest
  obtain ⟨written', hbytes', hagain⟩ := @document_eq_ok _ format sha256 c _ hcontext m hready
  obtain rfl := Except.ok.inj (hbytes.symm.trans hbytes')
  rw [insert_base] at hdocument hagain
  refine ⟨"checkpoint." ++ sha256 written, hdocument, ?_⟩
  generalize hid : "checkpoint." ++ sha256 written = id at hdocument hagain ⊢
  have hchecked : isCheckpointId id = true := hid ▸ isCheckpointId_append (hhex written)
  intro expectedContext expectedId hexpected hexpectedId
  have hget : ∀ key value, (key, value) ∈ documentFields c m id →
      (documentFields c m id).get key = some value := by
    intro key value hmem
    exact (lookup_eq_some_iff (by simp [documentFields, base, Context.fields])).mpr hmem
  have htext : ((documentFields c m id).text "checkpoint_id").getD "" = id := by
    rw [Fields.text, hget "checkpoint_id" (.string id) (by simp [documentFields])]
    rfl
  have hvalues : contextKeys.mapM (required (documentFields c m id)) =
      .ok (c.fields.map Prod.snd) := by
    rw [mapM_eq_ok]
    simp [contextKeys, required, documentFields, base, Context.fields, Fields.get_cons]
  refine bind_eq_ok.mpr ⟨_, rfl, bind_eq_ok.mpr ⟨(), reject_eq_ok.mpr ?_, ?_⟩⟩
  · rw [htext, hchecked, hget "schema_version" (.ofNat 1) (by simp [documentFields, base])]
    simp
  refine bind_eq_ok.mpr ⟨_, hvalues, bind_eq_ok.mpr ⟨c, hcontext, ?_⟩⟩
  refine bind_eq_ok.mpr ⟨(), reject_eq_ok.mpr ?_, bind_eq_ok.mpr ⟨(), reject_eq_ok.mpr ?_, ?_⟩⟩
  · cases expectedContext with
    | none => simp
    | some expected => simp [hexpected expected rfl]
  · rw [htext]
    cases expectedId with
    | none => simp
    | some expected => simp [hexpectedId expected rfl]
  refine bind_eq_ok.mpr ⟨.ofNat m.step, ?_, bind_eq_ok.mpr
    ⟨.array (m.files.map FileRecord.document), ?_, bind_eq_ok.mpr ⟨m, hready, ?_⟩⟩⟩
  · rw [required, hget "step" (.ofNat m.step) (by simp [documentFields, base])]
  · rw [required, hget "files" (.array (m.files.map FileRecord.document))
      (by simp [documentFields, base])]
  refine bind_eq_ok.mpr ⟨_, hagain, bind_eq_ok.mpr ⟨(), reject_eq_ok.mpr ?_, rfl⟩⟩
  rw [Json.index, Json.get, hget "checkpoint_id" (.string id) (by simp [documentFields]), htext]
  simp

/-- Registering adds what it sets, and changes nothing that the check of a document looks at. -/
lemma register_eq_ok {enc : Encoding} {rfc3339 : String → Option ℤ} {value registered : Json}
    {registeredAt : String} (h : register enc rfc3339 value registeredAt = .ok registered) :
    ∃ fields others : Fields, value = .object fields ∧ registered = .object others ∧
      ∀ key ∉ ["status", "verification", "registered_at"], others.get key = fields.get key := by
  rw [register] at h
  obtain ⟨⟨c, m⟩, hvalid, h⟩ := bind_eq_ok.mp h
  obtain ⟨_, -, h⟩ := bind_eq_ok.mp h
  obtain ⟨fields, hobject, -⟩ := bind_eq_ok.mp hvalid
  obtain rfl := object_eq_ok.mp hobject
  obtain rfl := Except.ok.inj h
  refine ⟨fields, _, rfl, rfl, fun key hkey => ?_⟩
  simp only [List.mem_cons, List.not_mem_nil, or_false, not_or] at hkey
  rw [Fields.get_insert_of_ne hkey.2.2, Fields.get_insert_of_ne hkey.2.1,
    Fields.get_insert_of_ne hkey.1]

/-- **The identity of a checkpoint.** A document is accepted as the context and the sorted manifest
that it was built from; the order of the file rows says nothing; two accepted documents of one
identity agree on context, step and files, unless their encodings collide; and registering only adds
its own members. -/
theorem document_identity (format : FloatFormat F) (sha256 : Bytes → String)
    (rfc3339 : String → Option ℤ) (hhex : ∀ bytes, isSha256 (sha256 bytes) = true) :
    let enc := format.encoding sha256
    (∀ c value m, value.valid = true → context (.object c.fields) = .ok c →
      manifest value = .ok m →
        m.files.Pairwise (fun left right => left.path ≤ right.path) ∧
        ∃ id, document enc c value = .ok (.object (documentFields c m id)) ∧
          validateDocument enc (.object (documentFields c m id)) none none = .ok (c, m) ∧
          validateDocument enc (.object (documentFields c m id)) (some c) (some id) = .ok (c, m)) ∧
    (∀ c step rows rows' d, rows'.Perm rows → document enc c (ready step rows) = .ok d →
      document enc c (ready step rows') = .ok d) ∧
    (∀ d d' c c' m m' expectedContext expectedContext' expectedId expectedId',
      validateDocument enc d expectedContext expectedId = .ok (c, m) →
      validateDocument enc d' expectedContext' expectedId' = .ok (c', m') →
      d.get "checkpoint_id" = d'.get "checkpoint_id" →
      (∀ written written', enc.bytes (.object (base c m)) = .ok written →
        enc.bytes (.object (base c' m')) = .ok written' → sha256 written = sha256 written' →
          written = written') →
      c = c' ∧ m.step = m'.step ∧ m.files = m'.files) ∧
    (∀ d registeredAt d', register enc rfc3339 d registeredAt = .ok d' →
      (∀ expectedContext expectedId, validateDocument enc d' expectedContext expectedId =
        validateDocument enc d expectedContext expectedId) ∧
      ∀ key ∉ ["status", "verification", "registered_at"], d'.get key = d.get key) ∧
    ∀ c m id registeredAt,
      validateDocument enc (.object (documentFields c m id)) none none = .ok (c, m) →
      (rfc3339 registeredAt).isSome = true →
        register enc rfc3339 (.object (documentFields c m id)) registeredAt =
          .ok (.object (documentFields c m id ++ [("status", .string "REGISTERED"),
            ("verification", .string "worker-sha256"),
            ("registered_at", .string registeredAt)])) := by
  intro enc
  refine ⟨?_, ?_, ?_, ?_, ?_⟩
  · intro c value m hvalid hcontext hmanifest
    obtain ⟨id, hdocument, haccepted⟩ :=
      @validateDocument_document _ format _ _ _ hvalid hcontext _ hmanifest hhex
    refine ⟨?_, id, hdocument, haccepted none none (by simp) (by simp),
      haccepted (some c) (some id) (by simp) (by simp)⟩
    obtain ⟨_, _, files, -, -, -, -, -, -, -, hfiles⟩ := manifest_eq_ok.mp hmanifest
    rw [hfiles]
    exact pairwise_sortFiles files
  · intro c step rows rows' d hperm hdocument
    obtain ⟨x, hcontext, hdocument⟩ := bind_eq_ok.mp hdocument
    obtain ⟨m, hmanifest, hdocument⟩ := bind_eq_ok.mp hdocument
    exact bind_eq_ok.mpr ⟨x, hcontext, bind_eq_ok.mpr ⟨m, manifest_perm hmanifest hperm, hdocument⟩⟩
  · intro d d' c c' m m' _ _ _ _ haccepted haccepted' hids hcollide
    obtain ⟨id, written, hid, -, hbytes, rfl⟩ := id_of_validateDocument haccepted
    obtain ⟨id', written', hid', -, hbytes', rfl⟩ := id_of_validateDocument haccepted'
    rw [hids, hid'] at hid
    have hlist := congrArg String.toList (Option.some.inj hid)
    rw [String.toList_append, String.toList_append] at hlist
    have hdigest : sha256 written' = sha256 written :=
      String.toList_injective (List.append_cancel_left hlist)
    obtain rfl := hcollide written written' hbytes hbytes' hdigest.symm
    exact base_injective hbytes hbytes'
  · intro d registeredAt d' hregister
    obtain ⟨fields, others, rfl, rfl, hget⟩ := register_eq_ok hregister
    refine ⟨fun expectedContext expectedId => ?_, hget⟩
    refine validateDocument_congr (fun key hkey => hget key ?_) _ _
    have hapart : ∀ key ∈ documentKeys, key ∉ ["status", "verification", "registered_at"] := by
      decide
    exact hapart key hkey
  · intro c m id registeredAt haccepted htime
    refine bind_eq_ok.mpr ⟨(c, m), haccepted, bind_eq_ok.mpr ⟨(), reject_eq_ok.mpr ?_, ?_⟩⟩
    · cases hinstant : rfc3339 registeredAt with
      | none =>
        rw [hinstant] at htime
        cases htime
      | some _ => simp
    · simp [Fields.insert, documentFields, base, Context.fields]

/-! ## A sampled checkpoint -/

def sampleContext : Context where
  project := "demo"
  runId := "trial"
  attemptId := "attempt-001"
  sourceId := "source." ++ String.ofList (List.replicate 64 'a')
  imageId := "sha256:" ++ String.ofList (List.replicate 64 'b')
  storageScope := "storage." ++ String.ofList (List.replicate 64 'c')
  stateRoot := "/data/demo/trial/attempt-001/state"

def sampleFiles : List FileRecord :=
  [⟨"checkpoints/step-0042/model.pt", 7,
      "9a129038d9a00aed0cf6a7ea059ca50a813449061ab87848cf1a13eafdf33b2c"⟩,
    ⟨"checkpoints/step-0042/optimizer.bin", 3, String.ofList (List.replicate 64 'd')⟩]

def sampleManifest : Manifest := ⟨42, sampleFiles, "step-0042"⟩

/-- SHA-256 on the encoding of the sampled document. -/
def sampleHash (bytes : Bytes) : String :=
  if bytes = Json.write (Json.normal Encoding.sampleFormat (.object
    (base sampleContext sampleManifest))) then
      "8eba860d7883dfe578d7e998cf184ef752493fe0b041b6c9c3ebfb3acfac67fd"
  else String.ofList (List.replicate 64 '0')

theorem document_identity_sampled :
    (∀ bytes, isSha256 (sampleHash bytes) = true) ∧
      ∃ id, document (Encoding.sampleFormat.encoding sampleHash) sampleContext
          (ready (.ofNat 42) (sampleFiles.reverse.map FileRecord.document)) =
            .ok (.object (documentFields sampleContext sampleManifest id)) ∧
        validateDocument (Encoding.sampleFormat.encoding sampleHash)
          (.object (documentFields sampleContext sampleManifest id)) (some sampleContext)
            (some id) = .ok (sampleContext, sampleManifest) := by
  have hhash : ∀ bytes, isSha256 (sampleHash bytes) = true := by
    intro bytes
    rw [sampleHash]
    split_ifs <;> decide +kernel
  have hvalid : (ready (.ofNat 42) (sampleFiles.reverse.map FileRecord.document)).valid = true := by
    decide +kernel
  have hcontext : context (.object sampleContext.fields) = .ok sampleContext := by decide +kernel
  have hmanifest : manifest (ready (.ofNat 42) (sampleFiles.reverse.map FileRecord.document)) =
      .ok sampleManifest := by decide +kernel
  obtain ⟨-, id, hdocument, -, haccepted⟩ := (document_identity Encoding.sampleFormat sampleHash
    (fun _ => none) hhash).1 sampleContext _ sampleManifest hvalid hcontext hmanifest
  exact ⟨hhash, id, hdocument, haccepted⟩

end Format

end Documents

end Checkpoints

end ExperimentControl
