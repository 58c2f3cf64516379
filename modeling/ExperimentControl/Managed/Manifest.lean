import ExperimentControl.Json.Shape
import ExperimentControl.Managed.Launch

/-!
# The sealed manifest

The launch manifest of `core/src/launch.rs`: a document with the command of one Attempt, accepted in
its one canonical encoding only and bound to a digest and an identity.

* `Manifest`, `Manifest.Valid` — the record, and the texts it may hold.
* `encode` — the checks of a document, and its canonical bytes.
* `verifyBinding` — the manifest of some bytes.
* **`verifyBinding_exact`** — what is accepted is the encoding of a valid manifest, and nothing else.
-/

namespace ExperimentControl

namespace Launch

open Managed (Binding Identity Environment readOr readOr_eq_ok MANIFEST_BYTES)

def CONTRACT : String := "launcher-manifest.v1"

structure Error where
  text : String
  deriving DecidableEq, Repr

/-! ## Variables -/

/-- `BTreeMap<String, String>`: each name once, in the order of the names. -/
structure Variables where
  entries : List (String × String)
  ordered : sortKeys entries = entries
  unique : (entries.map Prod.fst).Nodup

namespace Variables

@[ext] lemma ext {first second : Variables} (h : first.entries = second.entries) :
    first = second := by
  cases first
  cases second
  cases h
  rfl

def ofPairs (pairs : List (String × String)) : Variables where
  entries := sortKeys (latest pairs)
  ordered := sortKeys_sortKeys _
  unique := ((perm_sortKeys _).map Prod.fst).nodup_iff.mpr (nodup_keys_latest pairs)

/-- The members of the document of some variables. -/
def fields (values : Variables) : Fields :=
  values.entries.map fun entry => (entry.1, .string entry.2)

def read (value : Json) : Option Variables := do
  let fields ← value.asObject
  let pairs ← fields.mapM fun field => field.2.asStr.map fun text => (field.1, text)
  return ofPairs pairs

end Variables

/-! ## Manifests -/

structure Manifest where
  contract : String
  identity : Identity
  environment : Variables
  argv : List String
  workdir : String
  timeoutSeconds : UInt64

def MANIFEST_KEYS : List String :=
  ["contract", "identity", "environment", "argv", "workdir", "timeout_seconds"]

def IDENTITY_KEYS : List String := ["project", "run_id", "attempt_id"]

/-- Variables that carry the tokens of the service. -/
def TOKEN_KEYS : List String := ["ML_EXPD_UPLOAD_TOKEN", "ML_EXPD_BOOTSTRAP_TOKEN"]

def identityFields (identity : Identity) : Fields :=
  [("project", .string identity.project), ("run_id", .string identity.runId),
    ("attempt_id", .string identity.attemptId)]

namespace Manifest

/-- The members of a manifest's document, given those of its two objects. -/
def members (manifest : Manifest) (identity environment : Fields) : Fields :=
  [("contract", .string manifest.contract), ("identity", .object identity),
    ("environment", .object environment), ("argv", .array (manifest.argv.map .string)),
    ("workdir", .string manifest.workdir),
    ("timeout_seconds", .ofNat manifest.timeoutSeconds.toNat)]

/-- `serde_json::to_value`. -/
def document (manifest : Manifest) : Json :=
  .object (manifest.members (identityFields manifest.identity) manifest.environment.fields)

end Manifest

/-- `serde_json::from_value` of an identity. -/
def readIdentity (value : Json) : Option Identity := do
  let fields ← value.record IDENTITY_KEYS
  let project ← fields.text "project"
  let runId ← fields.text "run_id"
  let attemptId ← fields.text "attempt_id"
  return { project, runId, attemptId }

/-- `serde_json::from_value` of a manifest. -/
def readManifest (value : Json) : Option Manifest := do
  let fields ← value.record MANIFEST_KEYS
  let contract ← fields.text "contract"
  let identity ← (fields.get "identity").bind readIdentity
  let environment ← (fields.get "environment").bind Variables.read
  let argv ← ((fields.get "argv").bind Json.asArray).bind fun items => items.mapM Json.asStr
  let workdir ← fields.text "workdir"
  let timeoutSeconds ← fields.u64 "timeout_seconds"
  return { contract, identity, environment, argv, workdir, timeoutSeconds }

/-! ## Encoding -/

def exactKeys (value : Json) (expected : List String) : Bool :=
  value.asObject.any fun fields =>
    fields.length = expected.length ∧ expected.all fun key => (fields.get key).isSome

def validateIdentity (identity : Identity) : Except Error Unit :=
  reject (¬((validateId identity.project).isOk ∧ (validateId identity.runId).isOk ∧
    (validateAttempt identity.attemptId).isOk)) ⟨"invalid launch manifest identity"⟩

/-- A path from the root. -/
def isAbsolute (path : String) : Bool := path.toList.head? = some '/'

/-- A text that can be passed to a process. -/
def isArgument (text : String) : Bool := '\x00' ∉ text.toList

/-- A variable that a manifest may set. -/
def isVariable (name : String) (value : Json) : Bool :=
  Environment.key name ∧ value.asStr.any isArgument ∧ name ∉ TOKEN_KEYS

def isCommand (items : List Json) : Bool :=
  (items.head?.bind Json.asStr).any (fun text => text ≠ "") ∧
    items.all fun item => item.asStr.any isArgument

section Encode

variable (enc : Encoding)

def encode (document : Json) : Except Error Bytes := do
  reject (¬exactKeys document MANIFEST_KEYS ∨ document.index "contract" ≠ .string CONTRACT)
    ⟨"invalid launch manifest contract"⟩
  reject (¬exactKeys (document.index "identity") IDENTITY_KEYS)
    ⟨"invalid launch manifest identity"⟩
  let identity ← readOr ⟨"invalid launch manifest identity"⟩
    (readIdentity (document.index "identity"))
  validateIdentity identity
  let environment ← readOr ⟨"invalid launch manifest environment"⟩
    (document.index "environment").asObject
  reject ((environment.any fun field => ¬isVariable field.1 field.2) ∨
      ¬((environment.get "OUTPUT_DIR").bind Json.asStr).any isAbsolute)
    ⟨"invalid launch manifest environment"⟩
  reject (¬(document.index "argv").asArray.any isCommand) ⟨"invalid launch manifest argv"⟩
  reject (¬(document.index "workdir").asStr.any fun path => isAbsolute path ∧ isArgument path)
    ⟨"invalid launch manifest workdir"⟩
  reject (¬(document.index "timeout_seconds").asU64.any fun n => 1 ≤ n ∧ n < 1000 * 3600)
    ⟨"invalid launch manifest timeout"⟩
  let body ← (enc.bytes document).mapError fun _ => ⟨"invalid launch manifest encoding"⟩
  reject (body.length > MANIFEST_BYTES) ⟨"launch manifest exceeds size limit"⟩
  return body

/-- `Manifest::from_value`. -/
def fromValue (document : Json) : Except Error Manifest := do
  let _ ← encode enc document
  readOr ⟨"invalid launch manifest contract"⟩ (readManifest document)

/-- `Manifest::encode`. -/
def Manifest.encode (manifest : Manifest) : Except Error Bytes :=
  Launch.encode enc manifest.document

/-- `Binding::validate`. -/
def validateBinding (binding : Binding) : Except Error Unit := do
  validateIdentity binding.identity
  reject (¬isSha256 binding.sha256) ⟨"invalid sealed manifest checksum"⟩

def verifyBinding (reader : ValueReader) (body : Bytes) (binding : Binding) :
    Except Error Manifest := do
  validateBinding binding
  reject (body.length > MANIFEST_BYTES) ⟨"launch manifest exceeds size limit"⟩
  reject (enc.sha256 body ≠ binding.sha256) ⟨"launch manifest checksum differs"⟩
  let document ← readOr ⟨"invalid launch manifest encoding"⟩ (reader.read body)
  let written ← encode enc document
  reject (written ≠ body) ⟨"launch manifest identity or encoding differs"⟩
  let manifest ← fromValue enc document
  reject (manifest.identity ≠ binding.identity) ⟨"launch manifest identity or encoding differs"⟩
  return manifest

end Encode

/-! ## Valid manifests -/

/-- What a sealed manifest may hold. -/
structure Manifest.Valid (manifest : Manifest) : Prop where
  contract : manifest.contract = CONTRACT
  identity : manifest.identity.valid
  environment : ∀ entry ∈ manifest.environment.entries,
    isVariable entry.1 (.string entry.2) = true
  output : ∃ path, manifest.environment.entries.lookup "OUTPUT_DIR" = some path ∧
    isAbsolute path = true
  argv : isCommand (manifest.argv.map .string) = true
  workdir : isAbsolute manifest.workdir = true ∧ isArgument manifest.workdir = true
  timeout : 1 ≤ manifest.timeoutSeconds.toNat ∧ manifest.timeoutSeconds.toNat < 1000 * 3600

/-- The document of a manifest, the members of its objects in any order. -/
structure Holds (manifest : Manifest) (fields identity environment : Fields) : Prop where
  fields : fields.Perm (manifest.members identity environment)
  identity : identity.Perm (identityFields manifest.identity)
  environment : environment.Perm manifest.environment.fields

variable {manifest : Manifest} {fields identity environment : Fields}

lemma holds_document (manifest : Manifest) :
    Holds manifest (manifest.members (identityFields manifest.identity) manifest.environment.fields)
      (identityFields manifest.identity) manifest.environment.fields :=
  ⟨.refl _, .refl _, .refl _⟩

lemma keys_members : (manifest.members identity environment).map Prod.fst = MANIFEST_KEYS := rfl

lemma keys_identityFields (identity : Identity) :
    (identityFields identity).map Prod.fst = IDENTITY_KEYS := rfl

lemma Variables.keys_fields (values : Variables) :
    values.fields.map Prod.fst = values.entries.map Prod.fst := by
  rw [Variables.fields, List.map_map]
  rfl

lemma Variables.get_fields (values : Variables) (name : String) :
    values.fields.get name = (values.entries.lookup name).map .string := by
  rw [Variables.fields]
  induction values.entries with
  | nil => rfl
  | cons entry entries ih =>
    rw [List.map_cons, Fields.get_cons, List.lookup_cons, ih]
    by_cases h : name = entry.1
    · simp [h]
    · simp [h, beq_eq_false_iff_ne.mpr h]

namespace Holds

lemma get (h : Holds manifest fields identity environment) (key : String) :
    fields.get key = (manifest.members identity environment).get key :=
  Fields.get_perm h.fields (by rw [keys_members]; decide) key

lemma get_identity (h : Holds manifest fields identity environment) (key : String) :
    identity.get key = (identityFields manifest.identity).get key :=
  Fields.get_perm h.identity (by rw [keys_identityFields]; decide) key

lemma get_environment (h : Holds manifest fields identity environment) (key : String) :
    environment.get key = (manifest.environment.entries.lookup key).map .string := by
  rw [← Variables.get_fields]
  refine Fields.get_perm h.environment ?_ key
  rw [Variables.keys_fields]
  exact manifest.environment.unique

end Holds

/-! ## Reading the members -/

/-- The texts of some members, each of them a text. -/
def texts (fields : Fields) : List (String × String) :=
  fields.map fun field => (field.1, field.2.asStr.getD "")

lemma texts_fields (values : Variables) : texts values.fields = values.entries := by
  rw [texts, Variables.fields, List.map_map]
  exact List.map_id _

lemma fields_texts {fields : Fields} (h : ∀ field ∈ fields, ∃ text, field.2 = .string text) :
    (texts fields).map (fun entry => (entry.1, Json.string entry.2)) = fields := by
  rw [texts, List.map_map]
  refine (List.map_congr_left fun field hfield => ?_).trans (List.map_id fields)
  obtain ⟨text, htext⟩ := h field hfield
  obtain ⟨key, value⟩ := field
  obtain rfl : value = .string text := htext
  rfl

/-- Entries of another order make the same variables. -/
lemma Variables.ofPairs_perm {values : Variables} {pairs : List (String × String)}
    (h : pairs.Perm values.entries) : ofPairs pairs = values := by
  have hunique : (pairs.map Prod.fst).Nodup := (h.map Prod.fst).nodup_iff.mpr values.unique
  ext1
  change sortKeys (latest pairs) = values.entries
  rw [latest_of_nodup hunique]
  exact ((sortKeys_eq_iff hunique).mpr h).trans values.ordered

lemma mapM_texts : ∀ {fields : Fields}, (∀ field ∈ fields, ∃ text, field.2 = .string text) →
    (fields.mapM fun field => field.2.asStr.map fun text => (field.1, text)) = some (texts fields)
  | [], _ => rfl
  | (key, value) :: rest, h => by
      obtain ⟨text, rfl⟩ := h (key, value) (by simp)
      rw [List.mapM_cons, mapM_texts fun field hfield => h field (List.mem_cons_of_mem _ hfield)]
      rfl

/-- **Variables are read** from their members in any order. -/
lemma Variables.read_perm {values : Variables} {fields : Fields}
    (h : fields.Perm values.fields) : Variables.read (.object fields) = some values := by
  have htexts : ∀ field ∈ fields, ∃ text, field.2 = .string text := by
    intro field hfield
    obtain ⟨entry, -, rfl⟩ := List.mem_map.mp (h.mem_iff.mp hfield)
    exact ⟨entry.2, rfl⟩
  have hperm : (texts fields).Perm values.entries := by
    rw [← texts_fields values]
    exact h.map _
  rw [Variables.read]
  simp only [Json.asObject, Option.bind_eq_bind, Option.bind_some, mapM_texts htexts]
  rw [ofPairs_perm hperm]
  rfl

lemma mapM_asStr (items : List String) :
    items.mapM (Json.asStr ∘ Json.string) = some items := by
  induction items with
  | nil => rfl
  | cons item items ih =>
    rw [List.mapM_cons, ih]
    rfl

lemma record_of_keys {fields : Fields} {keys : List String} (h : fields.map Prod.fst ⊆ keys) :
    (Json.object fields).record keys = some fields := by
  rw [Json.record, Json.asObject, Option.filter_some, if_pos]
  rw [List.all_eq_true]
  intro field hfield
  exact decide_eq_true (h (List.mem_map_of_mem hfield))

lemma readIdentity_perm {value : Identity} (h : identity.Perm (identityFields value)) :
    readIdentity (.object identity) = some value := by
  have hget (key : String) : identity.get key = (identityFields value).get key :=
    Fields.get_perm h (by rw [keys_identityFields]; decide) key
  have hrecord : (Json.object identity).record IDENTITY_KEYS = some identity := by
    refine record_of_keys ?_
    rw [← keys_identityFields value]
    exact (h.map Prod.fst).subset
  rw [readIdentity, hrecord]
  simp [Fields.text, hget, identityFields, Fields.get_cons, Json.asStr]

/-- **A manifest is read** from its members in any order. -/
lemma readManifest_holds (h : Holds manifest fields identity environment) :
    readManifest (.object fields) = some manifest := by
  have hrecord : (Json.object fields).record MANIFEST_KEYS = some fields := by
    refine record_of_keys ?_
    rw [← @keys_members manifest identity environment]
    exact (h.fields.map Prod.fst).subset
  have htime : (Json.ofNat manifest.timeoutSeconds.toNat).asU64 =
      some manifest.timeoutSeconds.toNat := Json.asU64_ofNat manifest.timeoutSeconds.toNat_lt
  rw [readManifest, hrecord]
  simp [Fields.text, Fields.u64, h.get, Manifest.members, Fields.get_cons, Json.asStr,
    Json.asArray, mapM_asStr, readIdentity_perm h.identity, Variables.read_perm h.environment,
    htime]

/-! ## The checks of a document -/

/-- The members of an object by their names. -/
lemma exactKeys_eq_true {value : Json} {keys : List String} (hkeys : keys.Nodup) :
    exactKeys value keys = true ↔ ∃ fields : Fields, value = .object fields ∧
      fields.Perm (keys.map fun key => (key, (fields.get key).getD .null)) ∧
        ∀ key ∈ keys, (fields.get key).isSome = true := by
  cases value with
  | object fields =>
    simp only [exactKeys, Json.asObject, Option.any_some, decide_eq_true_eq, List.all_eq_true,
      Json.object.injEq, exists_eq_left']
    constructor
    · rintro ⟨hlength, hall⟩
      exact ⟨Fields.perm_of_keys hkeys hlength hall, hall⟩
    · rintro ⟨hperm, hall⟩
      refine ⟨?_, hall⟩
      rw [hperm.length_eq, List.length_map]
  | _ => simp [exactKeys, Json.asObject]

lemma validateIdentity_eq_ok {value : Identity} {u : Unit} :
    validateIdentity value = .ok u ↔ value.valid := by
  have hok {x : Except IdentityError Unit} : x.isOk = true ↔ x = .ok () := by
    cases x with
    | error e => simp [Except.isOk, Except.toBool]
    | ok u => simp [Except.isOk, Except.toBool]
  rw [validateIdentity, reject_eq_ok, not_not, hok, hok, hok, Managed.Identity.valid]

/-- A member of a valid object is valid. -/
lemma valid_of_get {fields : Fields} {key : String} {value : Json}
    (hvalid : (Json.object fields).valid = true) (h : fields.get key = some value) :
    value.valid = true := by
  obtain ⟨hkeys, hfields⟩ := Json.readable_object.mp hvalid
  exact (Json.readableFields_iff fields).mp hfields _ ((lookup_eq_some_iff hkeys).mp h)

lemma exists_text {value : Json} {p : String → Bool} (h : value.asStr.any p = true) :
    ∃ text, value = .string text ∧ p text = true := by
  cases value with
  | string text => exact ⟨text, rfl, h⟩
  | _ => cases h

/-- Items that are each a text. -/
lemma exists_texts {items : List Json} (h : ∀ item ∈ items, ∃ text, item = .string text) :
    ∃ argv : List String, items = argv.map .string := by
  induction items with
  | nil => exact ⟨[], rfl⟩
  | cons item items ih =>
    obtain ⟨text, rfl⟩ := h item (by simp)
    obtain ⟨argv, rfl⟩ := ih fun item hitem => h item (List.mem_cons_of_mem _ hitem)
    exact ⟨text :: argv, rfl⟩

lemma index_object (fields : Fields) (key : String) :
    (Json.object fields).index key = (fields.get key).getD .null := rfl

lemma text_eq_some {fields : Fields} {key text : String} :
    fields.text key = some text ↔ fields.get key = some (.string text) := by
  rw [Fields.text, Option.bind_eq_some_iff]
  constructor
  · rintro ⟨value, hget, htext⟩
    rw [hget, Json.asStr_eq_some.mp htext]
  · intro h
    exact ⟨_, h, rfl⟩

lemma identity_of_checks {value : Json} {found : Identity}
    (hkeys : exactKeys value IDENTITY_KEYS = true) (h : readIdentity value = some found) :
    ∃ fields, value = .object fields ∧ fields.Perm (identityFields found) := by
  obtain ⟨fields, rfl, hperm, -⟩ := (exactKeys_eq_true (by decide)).mp hkeys
  have hrecord : (Json.object fields).record IDENTITY_KEYS = some fields := by
    refine record_of_keys fun key hkey => ?_
    obtain ⟨field, hfield, rfl⟩ := List.mem_map.mp hkey
    obtain ⟨name, hname, rfl⟩ := List.mem_map.mp (hperm.mem_iff.mp hfield)
    exact hname
  rw [readIdentity, hrecord, Option.bind_eq_bind, Option.bind_some] at h
  obtain ⟨project, hproject, h⟩ := Option.bind_eq_some_iff.mp h
  obtain ⟨runId, hrunId, h⟩ := Option.bind_eq_some_iff.mp h
  obtain ⟨attemptId, hattemptId, h⟩ := Option.bind_eq_some_iff.mp h
  obtain rfl := Option.some.inj h
  refine ⟨fields, rfl, ?_⟩
  simpa [IDENTITY_KEYS, identityFields, text_eq_some.mp hproject, text_eq_some.mp hrunId,
    text_eq_some.mp hattemptId] using hperm

lemma variables_of_checks {fields : Fields} (hvalid : (Json.object fields).valid = true)
    (h : ∀ field ∈ fields, isVariable field.1 field.2 = true) :
    ∃ values : Variables, fields.Perm values.fields ∧
      ∀ entry ∈ values.entries, isVariable entry.1 (.string entry.2) = true := by
  have htexts : ∀ field ∈ fields, ∃ text, field.2 = .string text := by
    intro field hfield
    have hvariable := h field hfield
    simp only [isVariable, decide_eq_true_eq] at hvariable
    obtain ⟨text, htext, -⟩ := exists_text hvariable.2.1
    exact ⟨text, htext⟩
  have hunique : ((texts fields).map Prod.fst).Nodup := by
    rw [texts, List.map_map]
    exact (Json.readable_object.mp hvalid).1
  have hperm : fields.Perm (Variables.ofPairs (texts fields)).fields := by
    change fields.Perm ((sortKeys (latest (texts fields))).map fun entry =>
      (entry.1, Json.string entry.2))
    rw [latest_of_nodup hunique]
    conv_lhs => rw [← fields_texts htexts]
    exact ((perm_sortKeys _).map _).symm
  refine ⟨Variables.ofPairs (texts fields), hperm, fun entry hentry => ?_⟩
  have hmem : (entry.1, Json.string entry.2) ∈ (Variables.ofPairs (texts fields)).fields :=
    List.mem_map.mpr ⟨entry, hentry, rfl⟩
  exact h _ (hperm.mem_iff.mpr hmem)

lemma command_of_checks {value : Json} (h : value.asArray.any isCommand = true) :
    ∃ argv : List String, value = .array (argv.map .string) ∧
      isCommand (argv.map .string) = true := by
  cases value with
  | array items =>
    have hcommand : isCommand items = true := h
    obtain ⟨-, hall⟩ := of_decide_eq_true hcommand
    rw [List.all_eq_true] at hall
    obtain ⟨argv, rfl⟩ := exists_texts fun item hitem => by
      obtain ⟨text, htext, -⟩ := exists_text (hall item hitem)
      exact ⟨text, htext⟩
    exact ⟨argv, rfl, hcommand⟩
  | _ => cases h

lemma timeout_of_checks {value : Json} (hvalid : value.valid = true)
    (h : (value.asU64.any fun n => 1 ≤ n ∧ n < 1000 * 3600) = true) :
    ∃ seconds : UInt64, value = .ofNat seconds.toNat ∧ 1 ≤ seconds.toNat ∧
      seconds.toNat < 1000 * 3600 := by
  cases hnumber : value.asU64 with
  | none =>
    rw [hnumber] at h
    cases h
  | some n =>
    rw [hnumber] at h
    obtain ⟨hlow, hhigh⟩ := of_decide_eq_true h
    have hn : (UInt64.ofNat n).toNat = n := UInt64.toNat_ofNat_of_lt' (lt_trans hhigh (by decide))
    cases value with
    | number text =>
      have htext : Syntax.isNumber text = true := (Bool.and_eq_true_iff.mp hvalid).1
      exact ⟨UInt64.ofNat n, by rw [hn]; exact Json.eq_ofNat htext hnumber, by omega, by omega⟩
    | _ => cases hnumber

section Checks

variable {enc : Encoding}

/-- **A document that is encoded is that of a valid manifest.** -/
theorem holds_of_encode {document : Json} {body : Bytes} (hvalid : document.valid = true)
    (h : encode enc document = .ok body) :
    ∃ manifest fields identity environment, document = .object fields ∧
      Holds manifest fields identity environment ∧ manifest.Valid ∧
        enc.bytes document = .ok body ∧ body.length ≤ MANIFEST_BYTES := by
  rw [encode] at h
  obtain ⟨_, hcontract, h⟩ := bind_eq_ok.mp h
  obtain ⟨_, hidentityKeys, h⟩ := bind_eq_ok.mp h
  obtain ⟨identity, hidentity, h⟩ := bind_eq_ok.mp h
  obtain ⟨_, hidentityValid, h⟩ := bind_eq_ok.mp h
  obtain ⟨environment, henvironment, h⟩ := bind_eq_ok.mp h
  obtain ⟨_, hvariables, h⟩ := bind_eq_ok.mp h
  obtain ⟨_, hargv, h⟩ := bind_eq_ok.mp h
  obtain ⟨_, hworkdir, h⟩ := bind_eq_ok.mp h
  obtain ⟨_, htimeout, h⟩ := bind_eq_ok.mp h
  obtain ⟨written, hwritten, h⟩ := bind_eq_ok.mp h
  obtain ⟨_, hsize, h⟩ := bind_eq_ok.mp h
  obtain rfl := Except.ok.inj h
  rw [reject_eq_ok, not_or, not_not, not_not] at hcontract
  rw [reject_eq_ok, not_or, not_not] at hvariables
  rw [reject_eq_ok, not_not] at hidentityKeys hargv hworkdir htimeout
  obtain ⟨hkeys, hcontract⟩ := hcontract
  obtain ⟨fields, rfl, hperm, hsome⟩ := (exactKeys_eq_true (by decide)).mp hkeys
  simp only [index_object] at hcontract hidentityKeys hidentity henvironment hargv hworkdir htimeout
  obtain ⟨identityFields, hidentityValue, hidentityPerm⟩ :=
    identity_of_checks hidentityKeys (readOr_eq_ok.mp hidentity)
  have hidentityValid := validateIdentity_eq_ok.mp hidentityValid
  have hmember {key : String} (hkey : key ∈ MANIFEST_KEYS) :
      ((fields.get key).getD .null).valid = true := by
    obtain ⟨value, hget⟩ := Option.isSome_iff_exists.mp (hsome key hkey)
    rw [hget]
    exact valid_of_get hvalid hget
  have henvironment := Json.asObject_eq_some.mp (readOr_eq_ok.mp henvironment)
  have henvironmentValid : (Json.object environment).valid = true := by
    rw [← henvironment]
    exact hmember (by decide)
  obtain ⟨hvariables, houtput⟩ := hvariables
  have hall : ∀ field ∈ environment, isVariable field.1 field.2 = true := by
    intro field hfield
    by_contra hno
    exact hvariables (List.any_eq_true.mpr ⟨field, hfield, decide_eq_true hno⟩)
  obtain ⟨values, hvaluesPerm, hvalues⟩ := variables_of_checks henvironmentValid hall
  obtain ⟨argv, hargvValue, hcommand⟩ := command_of_checks hargv
  obtain ⟨workdir, hworkdirValue, hworkdir⟩ := exists_text hworkdir
  obtain ⟨seconds, hsecondsValue, hlow, hhigh⟩ := timeout_of_checks (hmember (by decide)) htimeout
  have hbytes : enc.bytes (.object fields) = .ok written := by
    cases hok : enc.bytes (.object fields) with
    | error e =>
      rw [hok] at hwritten
      cases hwritten
    | ok body =>
      rw [hok] at hwritten
      rw [Except.ok.inj hwritten]
  let manifest : Manifest := ⟨CONTRACT, identity, values, argv, workdir, seconds⟩
  have hholds : Holds manifest fields identityFields environment := by
    refine ⟨?_, hidentityPerm, hvaluesPerm⟩
    simpa [MANIFEST_KEYS, Manifest.members, manifest, hcontract, hidentityValue, henvironment,
      hargvValue, hworkdirValue, hsecondsValue] using hperm
  refine ⟨manifest, fields, identityFields, environment, rfl, hholds, ?_, hbytes, ?_⟩
  · refine ⟨rfl, hidentityValid, hvalues, ?_, hcommand, of_decide_eq_true hworkdir, hlow, hhigh⟩
    rw [hholds.get_environment] at houtput
    cases hget : values.entries.lookup "OUTPUT_DIR" with
    | none =>
      change ((Option.map _ (values.entries.lookup "OUTPUT_DIR")).bind Json.asStr).any isAbsolute =
        true at houtput
      rw [hget] at houtput
      cases houtput
    | some path =>
      change ((Option.map _ (values.entries.lookup "OUTPUT_DIR")).bind Json.asStr).any isAbsolute =
        true at houtput
      rw [hget] at houtput
      exact ⟨path, rfl, houtput⟩
  · rw [reject_eq_ok] at hsize
    omega

/-- What each name of a document stands for. -/
lemma Holds.index (h : Holds manifest fields identity environment) :
    (Json.object fields).index "contract" = .string manifest.contract ∧
    (Json.object fields).index "identity" = .object identity ∧
    (Json.object fields).index "environment" = .object environment ∧
    (Json.object fields).index "argv" = .array (manifest.argv.map .string) ∧
    (Json.object fields).index "workdir" = .string manifest.workdir ∧
    (Json.object fields).index "timeout_seconds" = .ofNat manifest.timeoutSeconds.toNat := by
  simp [h.get, Manifest.members, Fields.get_cons]

lemma exactKeys_of_perm {fields others : Fields} {keys : List String}
    (hperm : fields.Perm others) (hkeys : others.map Prod.fst = keys) (hnodup : keys.Nodup) :
    exactKeys (.object fields) keys = true := by
  have hunique : (fields.map Prod.fst).Nodup := by
    rw [(hperm.map Prod.fst).nodup_iff, hkeys]
    exact hnodup
  refine decide_eq_true ⟨?_, ?_⟩
  · rw [hperm.length_eq, ← hkeys, List.length_map]
  · rw [List.all_eq_true]
    intro key hkey
    rw [← hkeys] at hkey
    obtain ⟨field, hfield, rfl⟩ := List.mem_map.mp hkey
    have hget := (lookup_eq_some_iff hunique).mpr (hperm.mem_iff.mpr hfield)
    exact Option.isSome_iff_exists.mpr ⟨_, hget⟩

/-- **The document of a valid manifest is encoded**, its members in any order. -/
theorem encode_of_holds (h : Holds manifest fields identity environment) (hvalid : manifest.Valid)
    {body : Bytes} (hbytes : enc.bytes (.object fields) = .ok body)
    (hsize : body.length ≤ MANIFEST_BYTES) : encode enc (.object fields) = .ok body := by
  obtain ⟨hcontract, hidentity, henvironment, hargv, hworkdir, htimeout⟩ := h.index
  have hkeys : exactKeys (.object fields) MANIFEST_KEYS = true :=
    exactKeys_of_perm h.fields keys_members (by decide)
  have hidentityKeys : exactKeys (.object identity) IDENTITY_KEYS = true :=
    exactKeys_of_perm h.identity (keys_identityFields _) (by decide)
  have hvariables : ∀ field ∈ environment, isVariable field.1 field.2 = true := by
    intro field hfield
    obtain ⟨entry, hentry, rfl⟩ := List.mem_map.mp (h.environment.mem_iff.mp hfield)
    exact hvalid.environment entry hentry
  have houtput : ((environment.get "OUTPUT_DIR").bind Json.asStr).any isAbsolute = true := by
    obtain ⟨path, hpath, habsolute⟩ := hvalid.output
    rw [h.get_environment, hpath]
    exact habsolute
  have htime : (Json.ofNat manifest.timeoutSeconds.toNat).asU64 =
      some manifest.timeoutSeconds.toNat := Json.asU64_ofNat manifest.timeoutSeconds.toNat_lt
  rw [encode, hcontract, hidentity, henvironment, hargv, hworkdir, htimeout, htime, hbytes]
  refine bind_eq_ok.mpr ⟨(), reject_eq_ok.mpr ?_, ?_⟩
  · rw [hvalid.contract]
    simp [hkeys]
  refine bind_eq_ok.mpr ⟨(), reject_eq_ok.mpr (not_not.mpr hidentityKeys), ?_⟩
  refine bind_eq_ok.mpr ⟨_, readOr_eq_ok.mpr (readIdentity_perm h.identity), ?_⟩
  refine bind_eq_ok.mpr ⟨(), validateIdentity_eq_ok.mpr hvalid.identity, ?_⟩
  refine bind_eq_ok.mpr ⟨environment, rfl, ?_⟩
  refine bind_eq_ok.mpr ⟨(), reject_eq_ok.mpr ?_, ?_⟩
  · rintro (hany | hno)
    · obtain ⟨field, hfield, hbad⟩ := List.any_eq_true.mp hany
      exact of_decide_eq_true hbad (hvariables field hfield)
    · exact hno houtput
  refine bind_eq_ok.mpr ⟨(), reject_eq_ok.mpr (not_not.mpr hvalid.argv), ?_⟩
  refine bind_eq_ok.mpr
    ⟨(), reject_eq_ok.mpr (not_not.mpr (decide_eq_true hvalid.workdir)), ?_⟩
  refine bind_eq_ok.mpr
    ⟨(), reject_eq_ok.mpr (not_not.mpr (decide_eq_true hvalid.timeout)), ?_⟩
  refine bind_eq_ok.mpr ⟨body, rfl, ?_⟩
  exact bind_eq_ok.mpr ⟨(), reject_eq_ok.mpr (Nat.not_lt.mpr hsize), rfl⟩

end Checks

/-! ## Canonical encodings -/

section Canonical

variable {F : Type} {format : FloatFormat F} {sha256 : Bytes → String}

/-- Every part of a manifest's document can be read. -/
lemma readable_members (finite : String → Bool) (h : Holds manifest fields identity environment) :
    (Json.object fields).readable finite = true := by
  have htexts (values : Fields) (hall : ∀ field ∈ values, ∃ text, field.2 = .string text) :
      Json.readableFields finite values = true := by
    rw [Json.readableFields_iff]
    intro field hfield
    obtain ⟨text, htext⟩ := hall field hfield
    rw [htext]
    rfl
  have hidentity : (Json.object identity).readable finite = true := by
    refine Json.readable_object.mpr ⟨?_, htexts _ fun field hfield => ?_⟩
    · rw [(h.identity.map Prod.fst).nodup_iff, keys_identityFields]
      decide
    · have hmem := h.identity.mem_iff.mp hfield
      simp only [identityFields, List.mem_cons, List.not_mem_nil, or_false] at hmem
      rcases hmem with rfl | rfl | rfl <;> exact ⟨_, rfl⟩
  have henvironment : (Json.object environment).readable finite = true := by
    refine Json.readable_object.mpr ⟨?_, htexts _ fun field hfield => ?_⟩
    · rw [(h.environment.map Prod.fst).nodup_iff, Variables.keys_fields]
      exact manifest.environment.unique
    · obtain ⟨entry, -, rfl⟩ := List.mem_map.mp (h.environment.mem_iff.mp hfield)
      exact ⟨_, rfl⟩
  have hargv : Json.readableItems finite (manifest.argv.map .string) = true := by
    induction manifest.argv with
    | nil => rfl
    | cons arg argv ih => exact ih
  refine Json.readable_object.mpr ⟨?_, ?_⟩
  · rw [(h.fields.map Prod.fst).nodup_iff, keys_members]
    decide
  · rw [Json.readableFields_iff]
    intro field hfield
    have hmem := h.fields.mem_iff.mp hfield
    simp only [Manifest.members, List.mem_cons, List.not_mem_nil, or_false] at hmem
    rcases hmem with rfl | rfl | rfl | rfl | rfl | rfl
    · rfl
    · exact hidentity
    · exact henvironment
    · exact hargv
    · rfl
    · exact Json.readable_ofNat _

/-- Texts have one normal form. -/
lemma normalFields_texts {fields : Fields} (h : ∀ field ∈ fields, ∃ text, field.2 = .string text) :
    Json.normalFields format fields = fields := by
  rw [Json.normalFields_eq]
  refine (List.map_congr_left fun field hfield => ?_).trans (List.map_id fields)
  obtain ⟨text, htext⟩ := h field hfield
  obtain ⟨key, value⟩ := field
  obtain rfl : value = .string text := htext
  rfl

lemma normalItems_texts (argv : List String) :
    Json.normalItems format (argv.map .string) = argv.map .string := by
  induction argv with
  | nil => rfl
  | cons arg argv ih =>
    rw [List.map_cons, Json.normalItems, ih]
    rfl

/-- The document of a manifest with the members of every object in order. -/
def Manifest.sorted (manifest : Manifest) : Fields :=
  sortKeys (manifest.members (sortKeys (identityFields manifest.identity))
    (sortKeys manifest.environment.fields))

lemma holds_sorted (manifest : Manifest) : Holds manifest manifest.sorted
    (sortKeys (identityFields manifest.identity)) (sortKeys manifest.environment.fields) :=
  ⟨perm_sortKeys _, perm_sortKeys _, perm_sortKeys _⟩

/-- **The documents of a manifest have one normal form**, and it is one of them. -/
theorem normal_holds (h : Holds manifest fields identity environment) :
    Json.normal format (.object fields) = .object manifest.sorted := by
  have hidentity : Json.normal format (.object identity) =
      .object (sortKeys (identityFields manifest.identity)) :=
    Json.normal_object_perm h.identity (by rw [keys_identityFields]; decide)
  have henvironment : Json.normal format (.object environment) =
      .object (sortKeys manifest.environment.fields) := by
    rw [Json.normal_object_perm h.environment
      (by rw [Variables.keys_fields]; exact manifest.environment.unique), Json.normal,
      normalFields_texts]
    intro field hfield
    obtain ⟨entry, -, rfl⟩ := List.mem_map.mp hfield
    exact ⟨_, rfl⟩
  have hargv : Json.normal format (.array (manifest.argv.map .string)) =
      .array (manifest.argv.map .string) := by
    rw [Json.normal, normalItems_texts]
  have htext (text : String) : Json.normal format (.string text) = .string text := rfl
  rw [Json.normal_object_perm h.fields (by rw [keys_members]; decide), Json.normal, Manifest.sorted,
    Manifest.members, Manifest.members]
  simp only [Json.normalFields, hidentity, henvironment, hargv, htext, Json.normal_ofNat]

/-- The canonical bytes of a manifest's document. -/
lemma bytes_holds (h : Holds manifest fields identity environment) :
    (format.encoding sha256).bytes (.object fields) =
      .ok (Json.write (.object manifest.sorted)) := by
  rw [Json.bytes_normal sha256 _ (readable_members _ h), normal_holds h]

/-- **A manifest is encoded** where it is valid and not too long. -/
theorem encode_iff {body : Bytes} :
    manifest.encode (format.encoding sha256) = .ok body ↔
      manifest.Valid ∧ body = Json.write (.object manifest.sorted) ∧
        body.length ≤ MANIFEST_BYTES := by
  constructor
  · intro h
    obtain ⟨found, fields, identity, environment, hdocument, hholds, hvalid, hbytes, hsize⟩ :=
      holds_of_encode (readable_members (fun _ => true) (holds_document manifest)) h
    have hsame : found = manifest := by
      have hread := readManifest_holds hholds
      rw [← hdocument] at hread
      exact Option.some.inj (hread.symm.trans (readManifest_holds (holds_document manifest)))
    rw [bytes_holds (holds_document manifest)] at hbytes
    exact ⟨hsame ▸ hvalid, (Except.ok.inj hbytes).symm, hsize⟩
  · rintro ⟨hvalid, rfl, hsize⟩
    exact encode_of_holds (holds_document manifest) hvalid (bytes_holds (holds_document manifest))
      hsize

end Canonical

/-! ## Verification -/

section Verification

variable {F : Type} {format : FloatFormat F} {sha256 : Bytes → String}

lemma fromValue_holds {enc : Encoding} {body : Bytes}
    (h : Holds manifest fields identity environment)
    (hbody : encode enc (.object fields) = .ok body) :
    fromValue enc (.object fields) = .ok manifest := by
  rw [fromValue, hbody, ok_bind, readManifest_holds h]
  rfl

/-- A name of a variable is no private key. -/
lemma plain_name {name : String} (h : Environment.key name = true) :
    name ∉ Json.PRIVATE_KEYS := by
  intro hmem
  rw [Json.PRIVATE_KEYS] at hmem
  rcases List.mem_cons.mp hmem with rfl | hmem
  · exact absurd h (by decide)
  · rw [List.mem_singleton.mp hmem] at h
    exact absurd h (by decide)

/-- An object of texts is plain where its names are, and not deep. -/
lemma plain_texts {fields : Fields} (h : ∀ field ∈ fields,
    field.1 ∉ Json.PRIVATE_KEYS ∧ ∃ text, field.2 = .string text) :
    (Json.object fields).plain = true ∧ (Json.object fields).depth ≤ 2 := by
  have hdepth : Json.depthFields fields ≤ 1 := by
    induction fields with
    | nil => exact Nat.zero_le _
    | cons field fields ih =>
      obtain ⟨key, value⟩ := field
      obtain ⟨-, text, htext⟩ := h (key, value) (by simp)
      obtain rfl : value = .string text := htext
      exact max_le (le_refl _) (ih fun field hfield => h field (List.mem_cons_of_mem _ hfield))
  refine ⟨(Json.plainFields_iff fields).mpr fun field hfield => ?_, Nat.succ_le_succ hdepth⟩
  obtain ⟨hname, text, htext⟩ := h field hfield
  exact ⟨hname, by rw [htext]; rfl⟩

/-- The document of a valid manifest is plain, and not deep. -/
lemma plain_holds (h : Holds manifest fields identity environment) (hvalid : manifest.Valid) :
    (Json.object fields).plain = true ∧ (Json.object fields).depth ≤ 127 := by
  obtain ⟨hidentity, hidentityDepth⟩ : (Json.object identity).plain = true ∧
      (Json.object identity).depth ≤ 2 := by
    refine plain_texts fun field hfield => ?_
    have hmem := h.identity.mem_iff.mp hfield
    simp only [identityFields, List.mem_cons, List.not_mem_nil, or_false] at hmem
    rcases hmem with rfl | rfl | rfl <;> exact ⟨by simp [Json.PRIVATE_KEYS], _, rfl⟩
  obtain ⟨henvironment, henvironmentDepth⟩ : (Json.object environment).plain = true ∧
      (Json.object environment).depth ≤ 2 := by
    refine plain_texts fun field hfield => ?_
    obtain ⟨entry, hentry, rfl⟩ := List.mem_map.mp (h.environment.mem_iff.mp hfield)
    have hvariable := hvalid.environment entry hentry
    simp only [isVariable, decide_eq_true_eq] at hvariable
    exact ⟨plain_name hvariable.1, _, rfl⟩
  obtain ⟨hargv, hargvDepth⟩ : Json.plainItems (manifest.argv.map .string) = true ∧
      Json.depthItems (manifest.argv.map .string) ≤ 1 := by
    induction manifest.argv with
    | nil => exact ⟨rfl, Nat.zero_le _⟩
    | cons arg argv ih => exact ⟨ih.1, max_le (le_refl _) ih.2⟩
  refine ⟨(Json.plainFields_iff fields).mpr fun field hfield => ?_, ?_⟩
  · have hmem := h.fields.mem_iff.mp hfield
    simp only [Manifest.members, List.mem_cons, List.not_mem_nil, or_false] at hmem
    rcases hmem with rfl | rfl | rfl | rfl | rfl | rfl
    · exact ⟨by simp [Json.PRIVATE_KEYS], rfl⟩
    · exact ⟨by simp [Json.PRIVATE_KEYS], hidentity⟩
    · exact ⟨by simp [Json.PRIVATE_KEYS], henvironment⟩
    · exact ⟨by simp [Json.PRIVATE_KEYS], hargv⟩
    · exact ⟨by simp [Json.PRIVATE_KEYS], rfl⟩
    · exact ⟨by simp [Json.PRIVATE_KEYS], rfl⟩
  · have hdepth := Json.depthFields_perm h.fields
    rw [Json.depth] at hidentityDepth henvironmentDepth
    simp only [Manifest.members, Json.depthFields, Json.depth, Json.ofNat] at hdepth
    rw [Json.depth, hdepth]
    omega

lemma valid_sha256 {binding : Binding} {u : Unit} :
    validateBinding binding = .ok u ↔ binding.valid := by
  rw [validateBinding, Binding.valid]
  constructor
  · intro h
    obtain ⟨_, hidentity, h⟩ := bind_eq_ok.mp h
    rw [reject_eq_ok, not_not] at h
    exact ⟨validateIdentity_eq_ok.mp hidentity, h⟩
  · rintro ⟨hidentity, hsha256⟩
    exact bind_eq_ok.mpr ⟨(), validateIdentity_eq_ok.mpr hidentity,
      reject_eq_ok.mpr (not_not.mpr hsha256)⟩

/-- What is accepted is an encoding of a manifest under the expected digest and identity. -/
theorem verifyBinding_iff {reader : ValueReader}
    (hsha256 : ∀ bytes, isSha256 (sha256 bytes) = true) {body : Bytes} {binding : Binding} :
    verifyBinding (format.encoding sha256) reader body binding = .ok manifest ↔
      manifest.encode (format.encoding sha256) = .ok body ∧ sha256 body = binding.sha256 ∧
        manifest.identity = binding.identity := by
  constructor
  · intro h
    rw [verifyBinding] at h
    obtain ⟨_, -, h⟩ := bind_eq_ok.mp h
    obtain ⟨_, -, h⟩ := bind_eq_ok.mp h
    obtain ⟨_, hdigest, h⟩ := bind_eq_ok.mp h
    obtain ⟨document, hread, h⟩ := bind_eq_ok.mp h
    obtain ⟨written, hencode, h⟩ := bind_eq_ok.mp h
    obtain ⟨_, hsame, h⟩ := bind_eq_ok.mp h
    obtain ⟨found, hfound, h⟩ := bind_eq_ok.mp h
    obtain ⟨_, hidentity, h⟩ := bind_eq_ok.mp h
    obtain rfl := Except.ok.inj h
    rw [reject_eq_ok, not_not] at hdigest hsame hidentity
    subst hsame
    have hvalid := reader.valid_of_read (readOr_eq_ok.mp hread)
    obtain ⟨manifest', fields, identity, environment, rfl, hholds, hmanifest, hbytes, hsize⟩ :=
      holds_of_encode hvalid hencode
    rw [fromValue_holds hholds hencode] at hfound
    obtain rfl := Except.ok.inj hfound
    rw [bytes_holds hholds] at hbytes
    exact ⟨encode_iff.mpr ⟨hmanifest, (Except.ok.inj hbytes).symm, hsize⟩, hdigest, hidentity⟩
  · rintro ⟨hencode, hdigest, hidentity⟩
    obtain ⟨hmanifest, rfl, hsize⟩ := encode_iff.mp hencode
    have hholds := holds_sorted manifest
    obtain ⟨hplain, hdepth⟩ := plain_holds hholds hmanifest
    have hread := reader.read_write (readable_members (fun _ => true) hholds) hplain hdepth
    have hwritten := encode_of_holds hholds hmanifest
      (@bytes_holds _ _ _ _ F format sha256 hholds) hsize
    have hbinding : binding.valid := by
      refine ⟨hidentity ▸ hmanifest.identity, ?_⟩
      rw [← hdigest]
      exact hsha256 _
    rw [verifyBinding]
    refine bind_eq_ok.mpr ⟨(), valid_sha256.mpr hbinding, ?_⟩
    refine bind_eq_ok.mpr ⟨(), reject_eq_ok.mpr (Nat.not_lt.mpr hsize), ?_⟩
    refine bind_eq_ok.mpr ⟨(), reject_eq_ok.mpr (not_not.mpr hdigest), ?_⟩
    refine bind_eq_ok.mpr ⟨_, readOr_eq_ok.mpr hread, ?_⟩
    refine bind_eq_ok.mpr ⟨_, hwritten, ?_⟩
    refine bind_eq_ok.mpr ⟨(), reject_eq_ok.mpr (not_not.mpr rfl), ?_⟩
    refine bind_eq_ok.mpr ⟨manifest, fromValue_holds hholds hwritten, ?_⟩
    exact bind_eq_ok.mpr ⟨(), reject_eq_ok.mpr (not_not.mpr hidentity), rfl⟩

/-- **A sealed manifest is accepted in one encoding only.** What is accepted is the canonical
encoding of a valid manifest under the expected digest and identity, and each such encoding is
accepted. -/
theorem verifyBinding_exact (format : FloatFormat F) (sha256 : Bytes → String)
    (reader : ValueReader) (hsha256 : ∀ bytes, isSha256 (sha256 bytes) = true) (body : Bytes)
    (binding : Binding) (manifest : Manifest) :
    (verifyBinding (format.encoding sha256) reader body binding = .ok manifest ↔
      manifest.encode (format.encoding sha256) = .ok body ∧ sha256 body = binding.sha256 ∧
        manifest.identity = binding.identity) ∧
    (∀ other otherBinding,
      verifyBinding (format.encoding sha256) reader body binding = .ok manifest →
      verifyBinding (format.encoding sha256) reader other otherBinding = .ok manifest →
        other = body) ∧
    (manifest.encode (format.encoding sha256) = .ok body ↔ manifest.Valid ∧
      (format.encoding sha256).bytes manifest.document = .ok body ∧
        body.length ≤ MANIFEST_BYTES) := by
  refine ⟨verifyBinding_iff hsha256, fun other otherBinding h h' => ?_, ?_⟩
  · have hencode := ((verifyBinding_iff hsha256).mp h).1
    have hother := ((verifyBinding_iff hsha256).mp h').1
    exact Except.ok.inj (hother.symm.trans hencode)
  · rw [encode_iff, Manifest.document, bytes_holds (holds_document manifest), Except.ok.injEq,
      eq_comm (a := body)]

/-! ## A sealed manifest -/

def sampleManifest : Manifest where
  contract := CONTRACT
  identity := ⟨"demo", "trial", "attempt-001"⟩
  environment := ⟨[("OUTPUT_DIR", "/out")], rfl, by decide⟩
  argv := ["run"]
  workdir := "/work"
  timeoutSeconds := 60

def sampleBody : Bytes := utf8 "\x7b\"argv\":[\"run\"],\"contract\":\"launcher-manifest.v1\",\"environment\":\x7b\"OUTPUT_DIR\":\"/out\"\x7d,\"identity\":\x7b\"attempt_id\":\"attempt-001\",\"project\":\"demo\",\"run_id\":\"trial\"\x7d,\"timeout_seconds\":60,\"workdir\":\"/work\"\x7d"

/-- The digest of the sampled manifest. -/
def sampleDigest : String := "0f746a971833f440a84075a5c292257aa57693c182e5aae0e072a62685ebad48"

/-- SHA-256 on the sampled manifest. -/
def sampleHash (bytes : Bytes) : String :=
  if bytes = sampleBody then sampleDigest else String.ofList (List.replicate 64 '0')

theorem verifyBinding_exact_sampled :
    verifyBinding (Encoding.sampleFormat.encoding sampleHash) .strict sampleBody
      ⟨sampleManifest.identity, sampleDigest⟩ = .ok sampleManifest := by
  have hhash : ∀ bytes, isSha256 (sampleHash bytes) = true := by
    intro bytes
    rw [sampleHash]
    split_ifs <;> decide +kernel
  have hvalid : sampleManifest.Valid :=
    ⟨rfl, ⟨by decide +kernel, by decide +kernel, by decide +kernel⟩, by decide +kernel,
      ⟨"/out", rfl, by decide +kernel⟩, by decide +kernel, by decide +kernel, by decide +kernel⟩
  have hbody : sampleManifest.encode (Encoding.sampleFormat.encoding sampleHash) =
      .ok sampleBody :=
    encode_iff.mpr ⟨hvalid, by decide +kernel, by decide +kernel⟩
  exact (verifyBinding_exact _ _ _ hhash _ _ _).1.mpr ⟨hbody, if_pos rfl, rfl⟩

end Verification

end Launch

end ExperimentControl
