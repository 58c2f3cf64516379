import ExperimentControl.Datasets.Uploads
import ExperimentControl.Datasets.Mounts
import ExperimentControl.Datasets.Documents
import Std.Data.String.ToNat

/-!
# The size of an upload's state

The bounds on the text of a state and on the nodes of its document, for every state of an admitted
definition. The state grows by one row a part and in the end holds the definition twice.

* `Fits` — what a document takes to be read, for each document of an upload.
* `State.Sound` — a valid state, apart from the bound on its text.
* `State.Sound.size_le`, `State.Sound.nodes_le` — the bounds, for every sound state of an admitted
  definition.
-/

namespace ExperimentControl

namespace Datasets

open Artifacts (FileReceipt)
open Slurm (Target)

/-! ## Nodes and levels of the documents -/

section Documents

variable {finite : String → Bool}

lemma nodes_ofNat (n : ℕ) : (Json.ofNat n).nodes = 1 := rfl

lemma depth_ofNat (n : ℕ) : (Json.ofNat n).depth = 1 := rfl

/-- What a document takes to be read: it is readable, and has this many levels and nodes at most. -/
structure Fits (finite : String → Bool) (document : Json) (levels nodes : ℕ) : Prop where
  readable : document.readable finite = true
  depth : document.depth ≤ levels
  nodes : document.nodes ≤ nodes

lemma fits_file (file : FileReceipt) : Fits finite file.document 2 7 := by
  constructor
  · simp [FileReceipt.document, Json.readable, Json.readableFields, Json.readable_ofNat]
  · simp [FileReceipt.document, Json.depth, Json.depthFields, depth_ofNat]
  · simp [FileReceipt.document, Json.nodes, Json.nodesFields, nodes_ofNat]

lemma fits_target (target : Target) : Fits finite (targetDocument target) 2 7 := by
  constructor
  · simp [targetDocument, Json.readable, Json.readableFields]
  · simp [targetDocument, Json.depth, Json.depthFields]
  · simp [targetDocument, Json.nodes, Json.nodesFields]

lemma fits_part (part : PartRecord) : Fits finite (State.partDocument part) 2 5 := by
  constructor
  · simp [State.partDocument, Json.readable, Json.readableFields, Json.readable_ofNat]
  · simp [State.partDocument, Json.depth, Json.depthFields, depth_ofNat]
  · simp [State.partDocument, Json.nodes, Json.nodesFields, nodes_ofNat]

/-- An array of documents that fit. -/
lemma fits_items {items : List Json} {levels nodes : ℕ}
    (h : ∀ item ∈ items, Fits finite item levels nodes) :
    Json.readableItems finite items = true ∧ Json.depthItems items ≤ levels ∧
      Json.nodesItems items ≤ nodes * items.length := by
  induction items with
  | nil => simp [Json.readableItems, Json.depthItems, Json.nodesItems]
  | cons item items ih =>
    obtain ⟨hreadable, hdepth, hnodes⟩ := h item (by simp)
    obtain ⟨hreadable', hdepth', hnodes'⟩ := ih fun item hitem => h item (by simp [hitem])
    rw [Json.readableItems, Json.depthItems, Json.nodesItems, hreadable, hreadable',
      List.length_cons, Nat.mul_succ]
    refine ⟨rfl, max_le hdepth hdepth', by omega⟩

/-- The members of an object that fit. -/
lemma fits_fields {fields : Fields} {levels nodes : ℕ}
    (h : ∀ field ∈ fields, Fits finite field.2 levels nodes) :
    Json.readableFields finite fields = true ∧ Json.depthFields fields ≤ levels ∧
      Json.nodesFields fields ≤ (nodes + 1) * fields.length := by
  induction fields with
  | nil => simp [Json.readableFields, Json.depthFields, Json.nodesFields]
  | cons field fields ih =>
    obtain ⟨hreadable, hdepth, hnodes⟩ := h field (by simp)
    obtain ⟨hreadable', hdepth', hnodes'⟩ := ih fun field hfield => h field (by simp [hfield])
    obtain ⟨key, value⟩ := field
    dsimp only at hreadable hdepth hnodes
    rw [Json.readableFields, Json.depthFields, Json.nodesFields, hreadable, hreadable',
      List.length_cons, Nat.mul_succ]
    refine ⟨rfl, max_le hdepth hdepth', by omega⟩

lemma fits_definition (definition : Definition) :
    Fits finite definition.document 4 (7 * definition.files.length + 7) := by
  obtain ⟨hreadable, hdepth, hnodes⟩ := @fits_items finite (definition.files.map (·.document)) 2 7
    fun item hitem => by
      obtain ⟨file, -, rfl⟩ := List.mem_map.mp hitem
      exact fits_file file
  rw [List.length_map] at hnodes
  constructor
  · simp [Definition.document, Json.readable, Json.readableFields, Json.readable_ofNat, hreadable]
  · simp only [Definition.document, Json.depth, Json.depthFields, depth_ofNat]
    omega
  · simp only [Definition.document, Json.nodes, Json.nodesFields, nodes_ofNat]
    omega

lemma fits_receipt (receipt : Receipt) :
    Fits finite receipt.document 5 (7 * receipt.definition.files.length + 25) := by
  obtain ⟨htarget, htarget', htarget''⟩ := @fits_target finite receipt.target
  obtain ⟨hreadable, hdepth, hnodes⟩ := @fits_definition finite receipt.definition
  constructor
  · simp [Receipt.document, Json.readable, Json.readableFields, htarget, hreadable]
  · simp only [Receipt.document, Json.depth, Json.depthFields]
    omega
  · simp only [Receipt.document, Json.nodes, Json.nodesFields]
    omega

lemma fits_parts (parts : Std.ExtTreeMap ℕ PartRecord) :
    Fits finite (.object (partRows parts)) 3 (6 * parts.size + 1) := by
  obtain ⟨hreadable, hdepth, hnodes⟩ := @fits_fields finite (partRows parts) 2 5 fun field hfield => by
    obtain ⟨row, -, rfl⟩ := List.mem_map.mp hfield
    exact fits_part row.2
  have hlength : (partRows parts).length = parts.size := by
    rw [partRows, List.length_map, Std.ExtTreeMap.length_toList]
  have hkeys : ((partRows parts).map (·.1)).Nodup := by
    have hsplit : (partRows parts).map (·.1) = parts.keys.map Nat.repr := by
      rw [partRows, List.map_map, ← Std.ExtTreeMap.map_fst_toList_eq_keys, List.map_map]
      rfl
    rw [hsplit]
    exact Std.ExtTreeMap.nodup_keys.map fun _ _ => Nat.repr_injective
  rw [hlength] at hnodes
  refine ⟨?_, ?_, ?_⟩
  · rw [Json.readable, hreadable, decide_eq_true hkeys]
    rfl
  · rw [Json.depth]
    omega
  · rw [Json.nodes]
    omega

/-- The nodes of a state: those of its definition, of its parts, and of its receipt. -/
def State.nodesBound (state : State) : ℕ :=
  7 * state.definition.files.length + 6 * state.parts.size + 60 +
    (state.ready.elim 0 fun receipt => 7 * receipt.definition.files.length)

/-- The document of a state, by the documents of its parts and of its receipt. -/
lemma fits_stateFields {contract project assetId : String} {target definition parts ready : Json}
    {n₁ n₂ n₃ : ℕ} (htarget : Fits finite target 2 7) (hdefinition : Fits finite definition 4 n₁)
    (hparts : Fits finite parts 3 n₂) (hready : Fits finite ready 5 n₃) :
    Fits finite (.object [("contract", .string contract), ("project", .string project),
      ("target", target), ("asset_id", .string assetId), ("definition", definition),
      ("parts", parts), ("ready", ready)]) 6 (n₁ + n₂ + n₃ + 24) := by
  obtain ⟨htarget, htarget', htarget''⟩ := htarget
  obtain ⟨hdefinition, hdefinition', hdefinition''⟩ := hdefinition
  obtain ⟨hparts, hparts', hparts''⟩ := hparts
  obtain ⟨hready, hready', hready''⟩ := hready
  constructor
  · simp [Json.readable, Json.readableFields, htarget, hdefinition, hparts, hready]
  · simp only [Json.depth, Json.depthFields]
    omega
  · simp only [Json.nodes, Json.nodesFields]
    omega

lemma fits_state (state : State) : Fits finite state.document 6 state.nodesBound := by
  obtain ⟨contract, project, target, assetId, definition, parts, ready⟩ := state
  have htarget := @fits_target finite target
  have hdefinition := @fits_definition finite definition
  have hparts := @fits_parts finite parts
  cases ready with
  | none =>
    have hnull : Fits finite .null 5 1 := ⟨rfl, by decide, by decide⟩
    have hfields := @fits_stateFields finite contract project assetId _ _ _ _ _ _ _ htarget hdefinition hparts hnull
    refine ⟨hfields.readable, hfields.depth, hfields.nodes.trans ?_⟩
    simp only [State.nodesBound, Option.elim]
    omega
  | some receipt =>
    have hreceipt := @fits_receipt finite receipt
    have hfields := @fits_stateFields finite contract project assetId _ _ _ _ _ _ _ htarget hdefinition hparts hreceipt
    refine ⟨hfields.readable, hfields.depth, hfields.nodes.trans ?_⟩
    simp only [State.nodesBound, Option.elim]
    omega

lemma fits_reply (reply : Reply) : Fits finite reply.document 7 (reply.state.nodesBound + 6) := by
  obtain ⟨hstate, hstate', hstate''⟩ := @fits_state finite reply.state
  constructor
  · simp [Reply.document, Json.readable, Json.readableFields, Json.readable_ofNat, hstate]
  · simp only [Reply.document, Json.depth, Json.depthFields, depth_ofNat]
    omega
  · simp only [Reply.document, Json.nodes, Json.nodesFields, nodes_ofNat]
    omega

end Documents

/-! ## The text of the documents -/

/-- A row of a file takes ninety bytes at least, whatever it says. -/
lemma size_file_ge {file : FileReceipt} (h : isSha256 file.sha256 = true) :
    90 ≤ file.document.size := by
  obtain ⟨hclear, hlength⟩ := clear_of_isSha256 h
  have h₁ : textSize "path" = 6 := textSize_ofList (by decide)
  have h₂ : textSize "bytes" = 7 := textSize_ofList (by decide)
  have h₃ : textSize "sha256" = 8 := textSize_ofList (by decide)
  have hpos := size_ofNat_pos file.bytes.toNat
  simp only [FileReceipt.document, Json.size, Json.sizeFields, Json.joinedSize,
    hclear.textSize_eq, hlength]
  omega

lemma sum_le_joinedSize (sizes : List ℕ) : sizes.sum ≤ Json.joinedSize sizes := by
  induction sizes with
  | nil => simp [Json.joinedSize]
  | cons size sizes ih =>
    cases sizes with
    | nil => simp [Json.joinedSize]
    | cons next sizes =>
      change size + (next :: sizes).sum ≤ size + 1 + Json.joinedSize (next :: sizes)
      omega

lemma Definition.isSha256_of_mem {definition : Definition} (h : definition.validate = .ok ()) :
    ∀ file ∈ definition.files, isSha256 file.sha256 = true := by
  unfold Definition.validate at h
  simp only [bind_eq_ok, reject_eq_ok, not_or] at h
  obtain ⟨⟨⟩, -, count, -, ⟨⟩, -, ⟨⟩, ⟨hany, -⟩, -⟩ := h
  intro file hfile
  by_contra hsha
  exact hany (List.any_eq_true.mpr ⟨file, hfile, decide_eq_true (Or.inr hsha)⟩)

/-- An admitted definition has few files. -/
lemma Definition.length_files_le {definition : Definition} (h : definition.validate = .ok ())
    (hbudget : definition.manifestBudget = true) : definition.files.length ≤ 2822 := by
  have hfiles := Definition.isSha256_of_mem h
  have hsize : definition.document.size ≤ MAX_DEFINITION_BYTES := of_decide_eq_true hbudget
  have hsum : 90 * definition.files.length ≤
      (definition.files.map fun file => file.document.size).sum := by
    have hrows := List.card_nsmul_le_sum (definition.files.map fun file => file.document.size) 90
      fun size hmem => by
        obtain ⟨file, hfile, rfl⟩ := List.mem_map.mp hmem
        exact size_file_ge (hfiles file hfile)
    rwa [List.length_map, smul_eq_mul, Nat.mul_comm] at hrows
  have hjoined := sum_le_joinedSize (definition.files.map fun file => file.document.size)
  rw [Definition.size_eq] at hsize
  unfold MAX_DEFINITION_BYTES MAX_MANIFEST_BYTES MOUNT_ENVELOPE_BYTES at hsize
  omega

/-- A row of a part, with its comma. -/
lemma size_part_le {number : ℕ} {part : PartRecord} (hnumber : number < MAX_PARTS)
    (hbytes : part.bytes.toNat ≤ PART_BYTES) (hsha : isSha256 part.sha256 = true) :
    textSize (toString number) + 1 + (State.partDocument part).size + 1 ≤ 103 := by
  have hkey : textSize (toString number) ≤ 7 := by
    have hsize : byteLen (toString number) = (Nat.repr number).length := size_ofNat number
    have hdigits : (Nat.repr number).length ≤ 5 := by
      unfold MAX_PARTS at hnumber
      rw [Nat.length_repr_le_iff (by decide)]
      omega
    rw [(clear_toString number).textSize_eq]
    omega
  have hdigits : (Json.ofNat part.bytes.toNat).size ≤ 8 := by
    unfold PART_BYTES at hbytes
    rw [size_ofNat, Nat.length_repr_le_iff (by decide)]
    omega
  obtain ⟨hclear, hlength⟩ := clear_of_isSha256 hsha
  have h₁ : textSize "sha256" = 8 := textSize_ofList (by decide)
  have h₂ : textSize "bytes" = 7 := textSize_ofList (by decide)
  simp only [State.partDocument, Json.size, Json.sizeFields, Json.joinedSize, hclear.textSize_eq,
    hlength]
  omega

/-! ## Sound states -/

namespace State

/-- A valid state, apart from the bound on its text. -/
structure Sound (state : State) : Prop where
  definition : state.definition.validate = .ok ()
  target : state.target.validate = .ok ()
  project : validateId state.project = .ok ()
  contract : state.contract = DATASET_CONTRACT
  assetId : state.assetId = state.definition.assetId
  parts : ∀ (number : ℕ) part, state.parts[number]? = some part →
    checkPart state.definition number part = .ok ()
  ready : ∀ receipt, state.ready = some receipt → state.checkReady receipt = .ok ()

variable {state : State}

lemma partCount_le {size count : ℕ} (h : partCount size = .ok count) : count ≤ MAX_PARTS := by
  unfold partCount at h
  simp only [bind_eq_ok, reject_eq_ok, gt_iff_lt, not_lt] at h
  obtain ⟨⟨⟩, -, ⟨⟩, hcount, h⟩ := h
  rw [← Except.ok.inj h]
  exact hcount

/-- A recorded part is one of the plan, of bounded size. -/
lemma bounds_of_checkPart {definition : Definition} {number : ℕ} {part : PartRecord}
    (h : checkPart definition number part = .ok ()) :
    (∀ count, partCount definition.archiveBytes.toNat = .ok count → number < count) ∧
      number < MAX_PARTS ∧ part.bytes.toNat ≤ PART_BYTES ∧ isSha256 part.sha256 = true := by
  unfold checkPart Definition.partSize partSize at h
  simp only [bind_eq_ok, reject_eq_ok, not_or, not_not, ge_iff_le, not_le] at h
  obtain ⟨size, ⟨count, hcount, ⟨⟩, hnumber, hsize⟩, hbytes, hsha⟩ := h
  have hlimit := partCount_le hcount
  refine ⟨fun other hother => ?_, by omega, ?_, hsha⟩
  · rw [hcount] at hother
    rwa [← Except.ok.inj hother]
  · rw [← hbytes, ← Except.ok.inj hsize]
    exact Nat.min_le_left _ _

/-- There are no more parts than the plan has. -/
lemma Sound.size_parts_le (h : state.Sound) : state.parts.size ≤ MAX_PARTS := by
  have hbelow : state.parts.keys.toFinset ⊆ Finset.range MAX_PARTS := by
    intro number hmem
    obtain ⟨part, hpart⟩ : ∃ part, state.parts[number]? = some part :=
      Option.isSome_iff_exists.mp (Std.ExtTreeMap.isSome_getElem?_iff_mem.mpr
        (Std.ExtTreeMap.mem_keys.mp (List.mem_toFinset.mp hmem)))
    exact Finset.mem_range.mpr (bounds_of_checkPart (h.parts number part hpart)).2.1
  have hcard := Finset.card_le_card hbelow
  rwa [List.toFinset_card_of_nodup Std.ExtTreeMap.nodup_keys, Std.ExtTreeMap.length_keys,
    Finset.card_range] at hcard

lemma Sound.size_rows_le (h : state.Sound) :
    (Json.object (partRows state.parts)).size ≤ 103 * state.parts.size + 2 := by
  have hrows : ∀ size ∈ state.parts.toList.map fun row =>
      textSize (toString row.1) + 1 + (partDocument row.2).size + 1, size ≤ 103 := by
    intro size hsize
    obtain ⟨⟨number, part⟩, hrow, rfl⟩ := List.mem_map.mp hsize
    have hpart := h.parts number part (Std.ExtTreeMap.mem_toList_iff_getElem?_eq_some.mp hrow)
    obtain ⟨-, hnumber, hbytes, hsha⟩ := bounds_of_checkPart hpart
    exact size_part_le hnumber hbytes hsha
  have hsum := List.sum_le_card_nsmul _ 103 hrows
  rw [List.length_map, Std.ExtTreeMap.length_toList, smul_eq_mul] at hsum
  have hjoined := Json.joinedSize_map_le (fun row : ℕ × PartRecord =>
    textSize (toString row.1) + 1 + (partDocument row.2).size) state.parts.toList
  simp only [Json.size, Json.sizeFields_eq, partRows, List.map_map, Function.comp_def]
  omega

/-- The published receipt of a sound state is its own. -/
lemma Sound.receipt (h : state.Sound) {receipt : Receipt} (hready : state.ready = some receipt) :
    receipt.Valid ∧ receipt.definition = state.definition := by
  have hcheck := h.ready receipt hready
  unfold checkReady at hcheck
  simp only [bind_eq_ok, reject_eq_ok, not_or, not_not, ne_eq] at hcheck
  obtain ⟨⟨⟩, hvalid, count, -, -, -, hdefinition, -⟩ := hcheck
  exact ⟨Receipt.validate_eq_ok.mp hvalid, hdefinition⟩

/-- **The text of a state** of an admitted definition is bounded. -/
lemma Sound.size_le (h : state.Sound) (hbudget : state.definition.manifestBudget = true) :
    state.document.size ≤ MAX_METADATA - 4096 := by
  have hparts := h.size_rows_le
  have hcount := h.size_parts_le
  have hsize : state.definition.document.size ≤ MAX_DEFINITION_BYTES := of_decide_eq_true hbudget
  have htarget := size_targetDocument h.target
  obtain ⟨hproject, hproject'⟩ := clear_of_validateId h.project
  have hbackend : byteLen state.target.backendId ≤ 128 := by
    have htarget := h.target
    simp only [Slurm.Target.validate, reject_eq_ok, not_or, not_not] at htarget
    exact (clear_of_component htarget.1).2
  obtain ⟨hsha, hsha'⟩ := clear_of_isSha256 (Definition.isSha256_of_validate h.definition)
  have hasset : textSize state.assetId = 72 := by
    rw [h.assetId, Definition.assetId,
      (clear_append (by unfold Clear; decide) hsha).textSize_eq, byteLen_append, hsha']
    rfl
  have hcontract : textSize state.contract = 19 := by
    rw [h.contract]
    decide +kernel
  have hready : ∀ receipt, state.ready = some receipt → receipt.document.size ≤ 270000 := by
    intro receipt hreceipt
    obtain ⟨hvalid, hsame⟩ := h.receipt hreceipt
    have hroot := hvalid.root
    simp only [rootPath, decide_eq_true_eq] at hroot
    obtain ⟨-, hroot⟩ := textSize_of_absolutePath hroot.1
    have hquotes : receipt.root.toList.count '"' ≤ 4096 :=
      (List.count_le_length.trans (length_le_byteLen _)).trans hroot
    obtain ⟨-, hproject⟩ := clear_of_validateId hvalid.project
    have htarget := hvalid.target
    simp only [Slurm.Target.validate, reject_eq_ok, not_or, not_not] at htarget
    obtain ⟨-, hbackend⟩ := clear_of_component htarget.1
    unfold MAX_DEFINITION_BYTES MAX_MANIFEST_BYTES MOUNT_ENVELOPE_BYTES at hsize
    rw [hvalid.size_eq, hsame]
    omega
  have h₁ : textSize "contract" = 10 := textSize_ofList (by decide)
  have h₂ : textSize "project" = 9 := textSize_ofList (by decide)
  have h₃ : textSize "target" = 8 := textSize_ofList (by decide)
  have h₄ : textSize "asset_id" = 10 := textSize_ofList (by decide)
  have h₅ : textSize "definition" = 12 := textSize_ofList (by decide)
  have h₆ : textSize "parts" = 7 := textSize_ofList (by decide)
  have h₇ : textSize "ready" = 7 := textSize_ofList (by decide)
  have hlast : ∀ document, state.document = .object [("contract", .string state.contract),
      ("project", .string state.project), ("target", targetDocument state.target),
      ("asset_id", .string state.assetId), ("definition", state.definition.document),
      ("parts", .object (partRows state.parts)), ("ready", document)] →
      document.size ≤ 270000 → state.document.size ≤ MAX_METADATA - 4096 := by
    intro document hdocument hsizes
    unfold MAX_DEFINITION_BYTES MAX_MANIFEST_BYTES MOUNT_ENVELOPE_BYTES at hsize
    unfold MAX_PARTS at hcount
    unfold MAX_METADATA
    rw [hdocument]
    simp only [Json.size, Json.sizeFields, Json.joinedSize, hproject.textSize_eq, htarget, hasset,
      hcontract] at hparts ⊢
    omega
  cases hrow : state.ready with
  | none =>
    refine hlast .null ?_ (by decide)
    rw [document, hrow]
    rfl
  | some receipt =>
    refine hlast receipt.document ?_ (hready receipt hrow)
    rw [document, hrow]
    rfl

lemma Sound.nodes_le (h : state.Sound) (hbudget : state.definition.manifestBudget = true) :
    state.nodesBound ≤ 500000 := by
  have hparts := h.size_parts_le
  have hfiles := Definition.length_files_le h.definition hbudget
  unfold MAX_PARTS at hparts
  unfold nodesBound
  cases hready : state.ready with
  | none =>
    simp only [Option.elim]
    omega
  | some receipt =>
    obtain ⟨-, hsame⟩ := h.receipt hready
    simp only [Option.elim, hsame]
    omega

end State

end Datasets

end ExperimentControl
