import ExperimentControl.Datasets.Frames

/-!
# Completing an admitted dataset

Whether an upload that was admitted by its definition can be completed: no part and no publication
is refused for the size of the state, and every state on the way crosses the wire.

* `recordParts` — parts recorded one after another.
* `Delivered` — every reply with a state is sent, and read back as itself.
* **`admitted_upload_completes`** — an admitted dataset is uploaded part by part in any order and
  published, and every state on the way is delivered.
-/

namespace ExperimentControl

namespace Datasets

open State

/-! ## Sound states of an admitted definition -/

namespace State

variable {state : State}

lemma Sound.valid (h : state.Sound) (hbudget : state.definition.manifestBudget = true) :
    state.Valid where
  definition := h.definition
  target := h.target
  project := h.project
  contract := h.contract
  assetId := h.assetId
  parts := h.parts
  ready := h.ready
  bounded := h.size_le hbudget

/-- A part of the plan can be recorded again, or for the first time before the publication. -/
lemma Sound.recordPart (h : state.Sound) (hbudget : state.definition.manifestBudget = true)
    {number : ℕ} {part : PartRecord} (hpart : checkPart state.definition number part = .ok ())
    (hopen : ∀ old, state.parts[number]? = some old → old = part) (hready : state.ready = none) :
    ∃ next, state.recordPart number part = .ok next ∧ next.Sound ∧
      next = { state with parts := next.parts } ∧
      ∀ (other : ℕ) record, next.parts[other]? = some record ↔
        state.parts[other]? = some record ∨ (other, record) = (number, part) := by
  have hvalid := h.valid hbudget
  cases hold : state.parts[number]? with
  | some old =>
    rw [hopen old hold] at hold
    refine ⟨state, recordPart_eq_ok.mpr ⟨hvalid, hpart, Or.inl ⟨hold, rfl⟩⟩, h, rfl, ?_⟩
    intro other record
    constructor
    · exact Or.inl
    · rintro (hrecord | ⟨⟨⟩⟩)
      · exact hrecord
      · exact hold
  | none =>
    have hget : ∀ (other : ℕ) record,
        (state.parts.insert number part)[other]? = some record ↔
          state.parts[other]? = some record ∨ (other, record) = (number, part) := by
      intro other record
      rw [Std.ExtTreeMap.getElem?_insert]
      by_cases hsame : number = other
      · subst hsame
        simp [hold, eq_comm]
      · simp [hsame, Ne.symm hsame]
    have hnext : State.Sound { state with parts := state.parts.insert number part } := by
      refine ⟨h.definition, h.target, h.project, h.contract, h.assetId, ?_, ?_⟩
      · intro other record hrecord
        rcases (hget other record).mp hrecord with hrecord | hrecord
        · exact h.parts other record hrecord
        · obtain ⟨rfl, rfl⟩ := Prod.mk.inj hrecord
          exact hpart
      · intro receipt hreceipt
        rw [hready] at hreceipt
        cases hreceipt
    exact ⟨_, recordPart_eq_ok.mpr ⟨hvalid, hpart, Or.inr ⟨hold, hready, hnext.valid hbudget, rfl⟩⟩,
      hnext, rfl, hget⟩

/-- An upload that has every part of its plan has as many parts as the plan. -/
lemma Sound.size_parts (h : state.Sound) {count : ℕ}
    (hcount : Datasets.partCount state.definition.archiveBytes.toNat = .ok count)
    (hall : ∀ number < count, ∃ part, state.parts[number]? = some part) :
    state.parts.size = count := by
  have hkeys : state.parts.keys.toFinset = Finset.range count := by
    ext number
    rw [List.mem_toFinset, Finset.mem_range, Std.ExtTreeMap.mem_keys,
      ← Std.ExtTreeMap.isSome_getElem?_iff_mem, Option.isSome_iff_exists]
    constructor
    · rintro ⟨part, hpart⟩
      exact (bounds_of_checkPart (h.parts number part hpart)).1 count hcount
    · exact hall number
  rw [← Std.ExtTreeMap.length_keys, ← List.toFinset_card_of_nodup Std.ExtTreeMap.nodup_keys, hkeys,
    Finset.card_range]

/-- An upload with every part can be published. -/
lemma Sound.publish (h : state.Sound) (hbudget : state.definition.manifestBudget = true)
    {count : ℕ} (hcount : Datasets.partCount state.definition.archiveBytes.toNat = .ok count)
    (hall : ∀ number < count, ∃ part, state.parts[number]? = some part) {receipt : Receipt}
    (hreceipt : receipt.validate = .ok ()) (hproject : receipt.project = state.project)
    (htarget : receipt.target = state.target) (hdefinition : receipt.definition = state.definition)
    (hready : state.ready = none) :
    ∃ next, state.publish receipt = .ok next ∧ next.Sound ∧
      next = { state with ready := some receipt } := by
  have hasset : receipt.assetId = state.assetId := by
    rw [(Receipt.validate_eq_ok.mp hreceipt).assetId, h.assetId, hdefinition]
  have hcheck : checkReady { state with ready := some receipt } receipt = .ok () := by
    unfold checkReady Definition.partCount
    simp only [bind_eq_ok, reject_eq_ok, not_or, not_not, ne_eq]
    exact ⟨(), hreceipt, count, ⟨(), h.definition, hcount⟩, hproject, htarget, hdefinition, hasset,
      h.size_parts hcount hall⟩
  have hnext : State.Sound { state with ready := some receipt } := by
    refine ⟨h.definition, h.target, h.project, h.contract, h.assetId, h.parts, ?_⟩
    rintro other hother
    obtain rfl := Option.some.inj hother
    exact hcheck
  refine ⟨_, publish_eq_ok.mpr ⟨h.valid hbudget, ?_, hnext.valid hbudget, rfl⟩, hnext, rfl⟩
  intro old hold
  rw [hready] at hold
  cases hold

end State

/-! ## Parts one after another -/

/-- The parts recorded, in their order. -/
def recordParts (state : State) (parts : List (ℕ × PartRecord)) : Except Error State :=
  parts.foldlM (fun state row => state.recordPart row.1 row.2) state

/-- **Recording parts.** Parts of the plan that do not conflict are recorded in any order. -/
lemma State.Sound.recordParts {parts : List (ℕ × PartRecord)} : ∀ {state : State}, state.Sound →
    state.definition.manifestBudget = true → state.ready = none →
    (∀ row ∈ parts, checkPart state.definition row.1 row.2 = .ok ()) →
    (∀ row ∈ parts, ∀ other ∈ parts, row.1 = other.1 → row.2 = other.2) →
    (∀ row ∈ parts, ∀ old, state.parts[row.1]? = some old → old = row.2) →
    ∃ next, Datasets.recordParts state parts = .ok next ∧ next.Sound ∧
      next = { state with parts := next.parts } ∧
      ∀ (other : ℕ) record, next.parts[other]? = some record ↔
        state.parts[other]? = some record ∨ (other, record) ∈ parts := by
  induction parts with
  | nil =>
    intro state h _ _ _ _ _
    exact ⟨state, rfl, h, rfl, by simp⟩
  | cons row parts ih =>
    intro state h hbudget hready hplan hagree hopen
    obtain ⟨middle, hrecord, hmiddle, hsame, hget⟩ :=
      h.recordPart hbudget (hplan row (by simp)) (hopen row (by simp)) hready
    have hdefinition : middle.definition = state.definition := by rw [hsame]
    have hunready : middle.ready = none := by rw [hsame, hready]
    -- The first part agrees with those behind it, so that none of them conflicts with it.
    have hlater : ∀ later ∈ parts, ∀ old, middle.parts[later.1]? = some old → old = later.2 := by
      intro later hlater old hold
      rcases (hget later.1 old).mp hold with hold | hold
      · exact hopen later (by simp [hlater]) old hold
      · obtain ⟨hnumber, hpart⟩ := Prod.mk.inj hold
        rw [hpart]
        exact (hagree later (by simp [hlater]) row (by simp) hnumber).symm
    obtain ⟨next, hnext, hsound, hsame', hget'⟩ := ih hmiddle (by rw [hdefinition]; exact hbudget)
      hunready (fun later hmem => by rw [hdefinition]; exact hplan later (by simp [hmem]))
      (fun later hmem other hother => hagree later (by simp [hmem]) other (by simp [hother])) hlater
    refine ⟨next, ?_, hsound, ?_, ?_⟩
    · rw [Datasets.recordParts, List.foldlM_cons, hrecord, ok_bind]
      exact hnext
    · rw [hsame] at hsame'
      exact hsame'
    · intro other record
      rw [hget', hget, List.mem_cons, or_assoc]

/-! ## Every state is delivered -/

section Delivery

variable {finite : String → Bool} {enc : Encoding}

lemma fits_command (command : Command) :
    command.document.readable (fun _ => false) = true := by
  cases command with
  | begin definition =>
    have hdefinition := (@fits_definition (fun _ => false) definition).readable
    simp [Command.document, Json.readable, Json.readableFields, hdefinition]
  | status assetId => simp [Command.document, Json.readable, Json.readableFields]
  | part assetId number sha256 bytes =>
    simp [Command.document, Json.readable, Json.readableFields, Json.readable_ofNat]
  | complete assetId => simp [Command.document, Json.readable, Json.readableFields]

/-- A valid request has a digest. -/
lemma Request.digest_eq_ok {request : Request} (h : request.validate = .ok ()) :
    ∃ written, request.digest enc = .ok ("sha256:" ++ enc.sha256 written) := by
  have htarget := (@fits_target (fun _ => false) request.target).readable
  have hcommand := fits_command request.command
  have hreadable : request.document.readable (fun _ => false) = true := by
    simp [Request.document, Json.readable, Json.readableFields, Json.readable_ofNat, htarget, hcommand]
  obtain ⟨written, hwritten⟩ := @Encoding.canonical_of_readable enc (fun _ => false)
    (fun _ h => by cases h) _ hreadable
  refine ⟨written, ?_⟩
  rw [digest, h, ok_bind, Encoding.digest, hwritten]
  rfl

/-- What a reply takes around its state. -/
lemma size_reply_le {reply : Reply} (hdigest : Clear reply.requestSha256)
    (hlength : byteLen reply.requestSha256 = 71) :
    reply.document.size ≤ reply.state.document.size + 200 := by
  have h₁ : textSize "version" = 9 := textSize_ofList (by decide)
  have h₂ : textSize "request_sha256" = 16 := textSize_ofList (by decide)
  have h₃ : textSize "state" = 7 := textSize_ofList (by decide)
  have hversion : (Json.ofNat reply.version.toNat).size ≤ 20 := by
    have hle := size_ofNat_le (UInt64.ofNat reply.version.toNat)
    rwa [UInt64.toNat_ofNat_of_lt' (lt_trans reply.version.toNat_lt (by decide))] at hle
  simp only [Reply.document, Json.size, Json.sizeFields, Json.joinedSize, hdigest.textSize_eq,
    hlength]
  omega

/-- A bounded document crosses the wire. -/
lemma decode_encode {fields : Fields} (hfits : Fits finite (.object fields) 7 500006)
    (hsize : (Json.object fields).size ≤ MAX_METADATA) :
    ∃ frame, encode (.object fields) = .ok frame ∧ decode finite frame = .ok (.object fields) := by
  have hbody : (Json.object fields).write.length ≤ MAX_METADATA := by
    rw [Json.length_write]
    exact hsize
  have hpos : 0 < (Json.object fields).write.length := by
    rw [Json.length_write, Json.size]
    omega
  unfold MAX_METADATA at hbody
  generalize hwrite : (Json.object fields).write = body at hbody hpos
  have hlead : ofBeBytes (beBytes 4 body.length) = body.length := by
    rw [ofBeBytes_beBytes, Nat.mod_eq_of_lt (by omega)]
  have htake : (framed 4 body).take 4 = beBytes 4 body.length := by
    rw [framed, List.take_left' (length_beBytes 4 _)]
  have hdrop : (framed 4 body).drop 4 = body := by
    rw [framed, List.drop_left' (length_beBytes 4 _)]
  have hlength : (framed 4 body).length = body.length + 4 := by
    rw [framed, List.length_append, length_beBytes, Nat.add_comm]
  have hread : Reader.mapping finite body = .ok fields := by
    have hdepth := hfits.depth
    have hnodes := hfits.nodes
    rw [Json.depth] at hdepth
    rw [Json.nodes] at hnodes
    rw [← hwrite]
    refine Reader.parse_write hfits.readable ?_ ?_
    · unfold Reader.MAX_DEPTH
      omega
    · unfold Reader.MAX_NODES
      omega
  have hempty : ¬(body = [] ∨ body.length > MAX_METADATA) := by
    unfold MAX_METADATA
    rintro (rfl | hlong)
    · exact Nat.lt_irrefl 0 hpos
    · omega
  have hbounds : ¬((framed 4 body).length < 5 ∨ (framed 4 body).length > MAX_METADATA + 4) := by
    unfold MAX_METADATA
    omega
  refine ⟨framed 4 body, ?_, ?_⟩
  · simp only [encode, hwrite, reject]
    rw [if_neg hempty, ok_bind]
  · simp only [decode, reject, htake, hdrop, hlead, hread]
    rw [if_neg hbounds, ok_bind, if_neg (by rw [hlength]; exact fun hne => hne rfl), ok_bind]

variable (finite enc) in
/-- Every reply with this state, to a request that the state answers, is sent and read back as
itself. -/
def Delivered (state : State) : Prop :=
  ∀ request : Request, request.validate = .ok () → request.project = state.project →
    request.target = state.target → request.assetId = state.assetId →
    Reply.answers state request.command = .ok () →
    ∃ digest frame, request.digest enc = .ok digest ∧
      encodeReply ⟨1, digest, state⟩ = .ok frame ∧
      decodeReply finite enc frame request = .ok ⟨1, digest, state⟩

lemma State.Sound.delivered {state : State} (h : state.Sound)
    (hbudget : state.definition.manifestBudget = true)
    (hhash : ∀ bytes, isSha256 (enc.sha256 bytes) = true) : Delivered finite enc state := by
  intro request hrequest hproject htarget hasset hanswers
  obtain ⟨written, hdigest⟩ := @Request.digest_eq_ok enc request hrequest
  obtain ⟨hclear, hlength⟩ := clear_of_isSha256 (hhash written)
  have hvalid := (@validate_eq_ok state ()).mpr (h.valid hbudget)
  generalize hvalue : "sha256:" ++ enc.sha256 written = digest at hdigest
  have hclear' : Clear digest := by
    rw [← hvalue]
    exact clear_append (by unfold Clear; decide) hclear
  have hlength' : byteLen digest = 71 := by
    rw [← hvalue, byteLen_append, hlength]
    rfl
  have hreply : Reply.validate enc request ⟨1, digest, state⟩ = .ok () := by
    simp only [Reply.validate, bind_eq_ok, reject_eq_ok, not_or, not_not, ne_eq]
    exact ⟨(), hrequest, (), hvalid, (), trivial, digest, hdigest, (),
      ⟨rfl, hproject.symm, htarget.symm, hasset.symm⟩, hanswers⟩
  have hsize := @size_reply_le ⟨1, digest, state⟩ hclear' hlength'
  have hstate := h.size_le hbudget
  have hfits := @fits_reply finite ⟨1, digest, state⟩
  have hnodes := h.nodes_le hbudget
  obtain ⟨frame, hencode, hdecode⟩ := @decode_encode finite
    [("version", .ofNat (1 : UInt16).toNat), ("request_sha256", .string digest),
      ("state", state.document)]
    ⟨hfits.readable, hfits.depth, hfits.nodes.trans (by dsimp only; omega)⟩
    (by unfold MAX_METADATA at *; exact hsize.trans (by dsimp only; omega))
  have hread : Reply.read (.object [("version", .ofNat (1 : UInt16).toNat),
      ("request_sha256", .string digest), ("state", state.document)]) =
      some ⟨1, digest, state⟩ := by
    refine @Reply.read_document ⟨1, digest, state⟩ fun row hrow => ?_
    have hpart := h.parts row.1 row.2 (Std.ExtTreeMap.mem_toList_iff_getElem?_eq_some.mp hrow)
    obtain ⟨-, hnumber, -⟩ := bounds_of_checkPart hpart
    unfold MAX_PARTS at hnumber
    omega
  refine ⟨digest, frame, hdigest, ?_, ?_⟩
  · rw [encodeReply, hvalid, ok_bind]
    exact hencode
  · rw [decodeReply, hdecode, ok_bind]
    rw [hread]
    dsimp only
    rw [hreply, ok_bind]

end Delivery

/-! ## The whole upload -/

section Completion

variable (finite : String → Bool) (enc : Encoding)

/-- **An admitted dataset can be completed.** For a definition that is valid and within the manifest
budget an upload begins, takes any parts of its plan in any order, with repeats that agree, and once
every part is there takes any receipt of its own; every state on the way is delivered. -/
theorem admitted_upload_completes (hhash : ∀ bytes, isSha256 (enc.sha256 bytes) = true)
    (project : String) (target : Slurm.Target) (definition : Definition) (count : ℕ)
    (hproject : validateId project = .ok ()) (htarget : target.validate = .ok ())
    (hdefinition : definition.validate = .ok ()) (hbudget : definition.manifestBudget = true)
    (hcount : partCount definition.archiveBytes.toNat = .ok count) :
    ∃ first, State.new project target definition = .ok first ∧ Delivered finite enc first ∧
      ∀ parts : List (ℕ × PartRecord),
        (∀ row ∈ parts, checkPart definition row.1 row.2 = .ok ()) →
        (∀ row ∈ parts, ∀ other ∈ parts, row.1 = other.1 → row.2 = other.2) →
        ∃ state, recordParts first parts = .ok state ∧
          state = { first with parts := state.parts } ∧
          (∀ (number : ℕ) part, state.parts[number]? = some part ↔ (number, part) ∈ parts) ∧
          Delivered finite enc state ∧
          ((∀ number < count, ∃ part, (number, part) ∈ parts) →
            ∀ receipt : Receipt, receipt.validate = .ok () → receipt.project = project →
              receipt.target = target → receipt.definition = definition →
              ∃ published, state.publish receipt = .ok published ∧
                published = { state with ready := some receipt } ∧
                Delivered finite enc published) := by
  have hsound : State.Sound ⟨DATASET_CONTRACT, project, target, definition.assetId, definition, ∅, none⟩ :=
    ⟨hdefinition, htarget, hproject, rfl, rfl, by simp, by simp⟩
  refine ⟨_, ?_, hsound.delivered hbudget hhash, ?_⟩
  · exact bind_eq_ok.mpr ⟨(), validate_eq_ok.mpr (hsound.valid hbudget), rfl⟩
  · intro parts hplan hagree
    obtain ⟨state, hrecord, hstate, hsame, hget⟩ :=
      hsound.recordParts hbudget rfl hplan hagree (by simp)
    have hbudget' : state.definition.manifestBudget = true := by
      rw [hsame]
      exact hbudget
    refine ⟨state, hrecord, hsame, fun number part => ?_, hstate.delivered hbudget' hhash, ?_⟩
    · rw [hget]
      simp
    intro hall receipt hreceipt hproject' htarget' hdefinition'
    have hparts : ∀ number < count, ∃ part, state.parts[number]? = some part := by
      intro number hnumber
      obtain ⟨part, hpart⟩ := hall number hnumber
      exact ⟨part, (hget number part).mpr (Or.inr hpart)⟩
    obtain ⟨published, hpublish, hpublished, hsame'⟩ := hstate.publish hbudget'
      (by rw [hsame]; exact hcount) hparts hreceipt (by rw [hsame]; exact hproject')
      (by rw [hsame]; exact htarget') (by rw [hsame]; exact hdefinition') (by rw [hsame])
    refine ⟨published, hpublish, hsame', hpublished.delivered ?_ hhash⟩
    rw [hsame']
    exact hbudget'

end Completion

def samplePart : PartRecord where
  sha256 := "5555555555555555555555555555555555555555555555555555555555555555"
  bytes := 2048

def sampleReceipt : Receipt where
  contract := DATASET_CONTRACT
  project := "demo"
  target := sampleTarget
  assetId := sampleDefinition.assetId
  definition := sampleDefinition
  root := "/data/demo/asset.1111111111111111111111111111111111111111111111111111111111111111/tree"

def sampleRequest : Request where
  version := 1
  project := "demo"
  target := sampleTarget
  command := .complete sampleDefinition.assetId

/-- The hash of the one request of the sample. -/
def sampleHash : Encoding where
  floatText := fun _ => none
  sha256 := fun _ => "268125f846a7b59119976ce4bc7ffc9895b22b29d8c185db9c51121995ff505d"

lemma sampleHash_isSha256 (bytes : Bytes) : isSha256 (sampleHash.sha256 bytes) = true :=
  isSha256_ofList rfl (by decide)

/-- The id of an asset is one where its digest is. -/
lemma isAssetId_assetId {definition : Definition} (h : isSha256 definition.sha256 = true) :
    isAssetId definition.assetId = true := by
  have hname : "asset.".toList = ['a', 's', 's', 'e', 't', '.'] := String.toList_ofList
  have hdrop : definition.assetId.toList.drop 6 = definition.sha256.toList := by
    rw [Definition.assetId, String.toList_append, hname]
    rfl
  rw [isAssetId, hdrop, String.ofList_toList, h, Definition.assetId, String.toList_append]
  simp

lemma sampleRequest_validate : sampleRequest.validate = .ok () := by
  have hsha : isSha256 sampleDefinition.sha256 = true := isSha256_ofList rfl (by decide)
  have hasset : isAssetId sampleRequest.assetId = true := isAssetId_assetId hsha
  unfold Request.validate
  simp only [bind_eq_ok, mapError_eq_ok]
  exact ⟨(), rfl, (), by decide, (), sampleTarget_validate, reject_eq_ok.mpr (not_not.mpr hasset)⟩

lemma checkPart_sample : checkPart sampleDefinition 0 samplePart = .ok () := by
  have hsha : isSha256 samplePart.sha256 = true := isSha256_ofList rfl (by decide)
  refine bind_eq_ok.mpr ⟨2048, by decide, reject_eq_ok.mpr ?_⟩
  rw [hsha]
  simp [samplePart]

lemma rootPath_sample : rootPath sampleReceipt.root = true := by
  have hroot : sampleReceipt.root.toList = ['/', 'd', 'a', 't', 'a', '/', 'd', 'e', 'm', 'o', '/',
      'a', 's', 's', 'e', 't', '.'] ++ List.replicate 64 '1' ++ ['/', 't', 'r', 'e', 'e'] :=
    String.toList_ofList
  have hlength : byteLen sampleReceipt.root = 86 := by decide
  have hempty : sampleReceipt.root ≠ "" := by
    rintro heq
    rw [heq] at hlength
    cases hlength
  have hslash : sampleReceipt.root ≠ "/" := by
    rintro heq
    rw [heq] at hlength
    cases hlength
  simp only [rootPath, absolutePath, printable, pathParts, hroot, hlength, decide_eq_true_eq]
  refine ⟨⟨by decide, ⟨hempty, by decide, by decide⟩, by decide, by decide⟩, hslash, by decide,
    by decide⟩

lemma sampleReceipt_validate : sampleReceipt.validate = .ok () := by
  refine Receipt.validate_eq_ok.mpr ⟨by decide, sampleTarget_validate, sampleDefinition_validate,
    rfl, rfl, rootPath_sample, ?_⟩
  have hsplit : sampleReceipt.root = "/data" ++ ("/" ++ sampleReceipt.project ++ "/" ++
      sampleReceipt.assetId ++ "/tree") := rfl
  rw [hsplit]
  exact ⟨"/data".toList, String.toList_append.symm⟩

theorem admitted_upload_completes_sampled :
    ∃ first state published digest frame,
      State.new "demo" sampleTarget sampleDefinition = .ok first ∧
      recordParts first [(0, samplePart)] = .ok state ∧
      state.publish sampleReceipt = .ok published ∧
      sampleRequest.digest sampleHash = .ok digest ∧
      encodeReply ⟨1, digest, published⟩ = .ok frame ∧
      decodeReply (fun _ => false) sampleHash frame sampleRequest = .ok ⟨1, digest, published⟩ := by
  obtain ⟨first, hnew, -, hparts⟩ := admitted_upload_completes (fun _ => false) sampleHash
    sampleHash_isSha256 "demo" sampleTarget sampleDefinition 1 (by decide) sampleTarget_validate
    sampleDefinition_validate (by decide +kernel) (by decide)
  obtain rfl : sampleState = first := Except.ok.inj (sampleState_eq.symm.trans hnew)
  obtain ⟨state, hrecord, hstate, -, -, hpublish⟩ := hparts [(0, samplePart)]
    (by rintro row hrow; obtain rfl := List.mem_singleton.mp hrow; exact checkPart_sample) (by simp)
  obtain ⟨published, hpublished, hsame, hdelivered⟩ := hpublish
    (by intro number hnumber; exact ⟨samplePart, by simp; omega⟩) sampleReceipt
    sampleReceipt_validate rfl rfl rfl
  obtain ⟨digest, frame, hdigest, hencode, hdecode⟩ := hdelivered sampleRequest
    sampleRequest_validate (by rw [hsame, hstate]; rfl) (by rw [hsame, hstate]; rfl)
    (by rw [hsame, hstate]; rfl) (by rw [hsame]; rfl)
  exact ⟨sampleState, state, published, digest, frame, hnew, hrecord, hpublished, hdigest, hencode,
    hdecode⟩

end Datasets

end ExperimentControl
