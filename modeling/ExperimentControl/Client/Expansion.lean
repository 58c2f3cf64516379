import ExperimentControl.Client.Batches
import ExperimentControl.Identity
import ExperimentControl.Json.Agreement

/-!
# Batch expansion

`Batch::expand` of `core/src/preparation.rs`: an experiment with lists of values for some of its
parameters and with seeds is expanded to one request for every choice of them.

* `Request`, `Batch` — an experiment and its axes. The check of a single request is a parameter.
* `addAxis`, `child`, `Batch.expand` — the functions of the source.
* `Chooses`, `product` — a choice of one value for each axis, and every choice of them in order.
* `IsChild` — what the request of a choice is.
* **`expand_exact`** — the children are the choices, each of them once.
-/

namespace ExperimentControl

/-! ## Integers in documents -/

namespace Json


lemma integer_ofInt : ∀ z : ℤ, ∃ text, Json.ofInt z = .number text ∧ integer text = z ∧
    Syntax.isNumber text = true ∧ Reader.isFloat text = false
  | .ofNat n => by
      refine ⟨toString n, rfl, ?_, Syntax.isNumber_toString n, isFloat_toString n⟩
      rw [integer, Nat.toString_eq_repr, Nat.toList_repr]
      split
      · exact absurd ‹_› (toDigits_ne_minus n _)
      · rw [Nat.ofDigitChars_toDigits (by decide) (by decide)]
        rfl
  | .negSucc n => by
      have hlist : ("-" ++ toString (n + 1)).toList = '-' :: Nat.toDigits 10 (n + 1) := by
        rw [String.toList_append, Nat.toString_eq_repr, Nat.toList_repr]
        rfl
      refine ⟨"-" ++ toString (n + 1), rfl, ?_, ?_, ?_⟩
      · rw [integer, hlist]
        change -(Nat.ofDigitChars 10 (Nat.toDigits 10 (n + 1)) 0 : ℤ) = _
        rw [Nat.ofDigitChars_toDigits (by decide) (by decide)]
        rfl
      · obtain ⟨b, rest, hbytes, hdigit, -⟩ := Syntax.utf8_toDigits (n + 1)
        have hminus : b ≠ 45 := by
          rintro rfl
          cases hdigit
        have hnumber := Syntax.isNumber_toString (n + 1)
        rw [Syntax.isNumber, Syntax.ignoreNumber, utf8_eq, Nat.toString_eq_repr, Nat.toList_repr,
          hbytes, Syntax.ignoreMinus, if_neg hminus] at hnumber
        rw [Syntax.isNumber, Syntax.ignoreNumber, utf8_eq, hlist, List.flatMap_cons, hbytes]
        exact hnumber
      · have hdigits := isFloat_toString (n + 1)
        rw [Reader.isFloat, Nat.toString_eq_repr, Nat.toList_repr] at hdigits
        rw [Reader.isFloat, hlist, List.any_cons, hdigits]
        decide

lemma valid_ofInt (z : ℤ) : (Json.ofInt z).valid = true := by
  obtain ⟨text, hz, -, hnumber, -⟩ := integer_ofInt z
  rw [hz, valid, readable, hnumber]
  simp

/-- Integers are the same in a document when they are the same. -/
lemma ofInt_inj_of_same {F : Type} {format : FloatFormat F} {z w : ℤ}
    (h : same format (.ofInt z) (.ofInt w)) : z = w := by
  obtain ⟨text, hz, hinteger, -, hfloat⟩ := integer_ofInt z
  obtain ⟨other, hw, hinteger', -, -⟩ := integer_ofInt w
  rw [hz, hw, same, sameNumber, if_neg (by rw [hfloat]; decide)] at h
  rw [← hinteger, ← hinteger', h.2]

end Json

namespace Client

/-! ## Requests and batches -/

/-- An experiment. What expansion only carries from it, its runtime and its approval, is the rest. -/
structure Request (ρ : Type) where
  requestId : String
  run : Fields
  rest : ρ

/-- The values of a parameter under its name. -/
abbrev Axis := String × List Json

structure Batch (ρ : Type) where
  requestId : String
  experiment : Request ρ
  parameters : List Axis
  seeds : List ℤ
  /-- A map has each of its keys once. -/
  unique : (parameters.map Prod.fst).Nodup
  /-- The values are values of JSON. -/
  valid : ∀ axis ∈ parameters, ∀ value ∈ axis.2, value.valid = true

section Expand

variable {ρ : Type} (enc : Encoding) (validate : Request ρ → Except String Unit) (project : String)

/-- A value whose digest was not seen before. -/
def distinctValue (seen : List String) (value : Json) : Except String (List String) := do
  let digest ← (enc.digest value).mapError fun _ => "batch parameter value"
  reject (digest ∈ seen) "duplicate batch parameter"
  .ok (digest :: seen)

/-- The choices with one more parameter. -/
def addAxis (choices : List Fields) (axis : Axis) : Except String (List Fields) := do
  reject (axis.1 = "" ∨ byteLen axis.1 > 128 ∨ axis.2 = [] ∨
    choices.length * axis.2.length > MAX_BATCH) "batch parameter bounds"
  let _ ← axis.2.foldlM (distinctValue enc) []
  .ok (choices.flatMap fun row => axis.2.map fun value => row.insert axis.1 value)

variable (batch : Batch ρ)

/-- What the identity of a child is the digest of. -/
def idDocument (row : Fields) (seed : ℤ) : Json :=
  .array [.string "native-experiment-batch.v1", .string project, .string batch.requestId,
    .string batch.experiment.requestId, .object row, .ofInt seed]

/-- The object of parameters that a run has, or an empty one. -/
def parametersOf (run : Fields) : Except String Fields :=
  ((run.get "parameters").getD (.object [])).asObject.elim (.error "batch parameters object") .ok

/-- The request of one choice. -/
def child (base : String) (choice : Fields × ℤ) : Except String (Request ρ) := do
  let digest ← (enc.digest (idDocument project batch choice.1 choice.2)).mapError
    fun _ => "batch child identity"
  let runId := base ++ "-" ++ digestFront 16 digest
  let run := (batch.experiment.run.insert "run_id" (.string runId)).insert "seed"
    (.ofInt choice.2)
  let parameters ← parametersOf run
  let request : Request ρ :=
    { batch.experiment with
      requestId := digestFront 32 digest
      run := run.insert "parameters" (.object (parameters.extend choice.1)) }
  validate request
  .ok request

/-- The seeds, or the one of the experiment. -/
def seedsOf : Except String (List ℤ) :=
  if batch.seeds = [] then
    ((batch.experiment.run.get "seed").bind Json.asI64).elim (.error "batch seed") fun seed =>
      .ok [seed]
  else .ok batch.seeds

def Batch.expand : Except String (List (Request ρ)) := do
  reject (¬tokenValid batch.requestId) "batch request identity"
  validate batch.experiment
  let base ← ((batch.experiment.run.get "run_id").bind Json.asStr).elim
    (.error "batch run identity") .ok
  reject (byteLen base > 100 ∨ batch.parameters.length > 32 ∨ batch.seeds.length > MAX_BATCH)
    "batch bounds"
  let choices ← batch.parameters.foldlM (addAxis enc) [[]]
  let seeds ← seedsOf batch
  reject (¬seeds.Nodup ∨ choices.length * seeds.length > MAX_BATCH) "batch seed or size bounds"
  (choices ×ˢ seeds).mapM (child enc validate project batch base)

end Expand

/-! ## Choices -/

/-- One value for each axis. -/
def Chooses (axes : List Axis) (row : Fields) : Prop :=
  List.Forall₂ (fun field axis => field.1 = axis.1 ∧ field.2 ∈ axis.2) row axes

lemma Chooses.keys {axes : List Axis} {row : Fields} (h : Chooses axes row) :
    row.map Prod.fst = axes.map Prod.fst := by
  induction h with
  | nil => rfl
  | cons hfirst _ ih => rw [List.map_cons, List.map_cons, hfirst.1, ih]

section Choices

variable {enc : Encoding}

/-- Values with digests of their own. -/
def Distinct (enc : Encoding) (values : List Json) : Prop :=
  ∃ digests, List.Forall₂ (fun value digest => enc.digest value = .ok digest) values digests ∧
    digests.Nodup

lemma distinctValue_foldlM : ∀ {values : List Json} {seen all : List String},
    values.foldlM (distinctValue enc) seen = .ok all →
      ∃ digests, List.Forall₂ (fun value digest => enc.digest value = .ok digest) values digests ∧
        digests.Nodup ∧ ∀ digest ∈ digests, digest ∉ seen
  | [], _, _, _ => ⟨[], .nil, List.nodup_nil, fun _ h => nomatch h⟩
  | value :: values, seen, all, h => by
      obtain ⟨next, hnext, h⟩ := foldlM_cons_eq_ok.mp h
      obtain ⟨digest, hdigest, hnext⟩ := bind_eq_ok.mp hnext
      obtain ⟨_, hnew, hnext⟩ := bind_eq_ok.mp hnext
      cases hnext
      obtain ⟨digests, hdigests, hnodup, hfresh⟩ := distinctValue_foldlM h
      rw [reject_eq_ok] at hnew
      refine ⟨digest :: digests, .cons (mapError_ok.mp hdigest) hdigests, ?_, ?_⟩
      · exact List.nodup_cons.mpr ⟨fun hmem => hfresh digest hmem List.mem_cons_self, hnodup⟩
      · intro other hother hseen
        rcases List.mem_cons.mp hother with rfl | hother
        · exact hnew hseen
        · exact hfresh other hother (List.mem_cons_of_mem _ hseen)

/-- The choices of a value for each axis, in order. -/
def product : List Axis → List Fields
  | [] => [[]]
  | axis :: axes =>
      axis.2.flatMap fun value => (product axes).map fun row => (axis.1, value) :: row

lemma mem_product : ∀ {axes : List Axis} {row : Fields}, row ∈ product axes ↔ Chooses axes row
  | [], row => by
      rw [product, List.mem_singleton, Chooses, List.forall₂_nil_right_iff]
  | axis :: axes, row => by
      rw [product, List.mem_flatMap, Chooses, List.forall₂_cons_right_iff]
      constructor
      · rintro ⟨value, hvalue, hrow⟩
        obtain ⟨more, hmore, rfl⟩ := List.mem_map.mp hrow
        exact ⟨_, more, ⟨rfl, hvalue⟩, mem_product.mp hmore, rfl⟩
      · rintro ⟨⟨key, value⟩, more, ⟨hkey, hvalue⟩, hmore, rfl⟩
        obtain rfl : key = axis.1 := hkey
        exact ⟨value, hvalue, List.mem_map.mpr ⟨more, mem_product.mpr hmore, rfl⟩⟩

lemma product_nodup : ∀ {axes : List Axis}, (∀ axis ∈ axes, axis.2.Nodup) → (product axes).Nodup
  | [], _ => List.nodup_singleton _
  | axis :: axes, h => by
      have hrest : (product axes).Nodup :=
        product_nodup fun other hother => h other (List.mem_cons_of_mem _ hother)
      rw [product, List.nodup_flatMap]
      refine ⟨fun value _ => hrest.map fun row row' heq => (List.cons.inj heq).2, ?_⟩
      refine (h axis List.mem_cons_self).imp ?_
      intro value value' hne row hrow hrow'
      obtain ⟨more, -, rfl⟩ := List.mem_map.mp hrow
      obtain ⟨more', -, heq⟩ := List.mem_map.mp hrow'
      exact hne (Prod.mk.inj (List.cons.inj heq).1).2.symm

lemma length_product : ∀ axes : List Axis,
    (product axes).length = (axes.map fun axis => axis.2.length).prod
  | [] => rfl
  | axis :: axes => by
      rw [product, List.length_flatMap, List.map_cons, List.prod_cons, ← length_product axes]
      simp

/-- The choices that are made parameter after parameter. -/
lemma addAxis_foldlM : ∀ {axes : List Axis} {choices result : List Fields},
    axes.foldlM (addAxis enc) choices = .ok result → (axes.map Prod.fst).Nodup →
    (∀ row ∈ choices, ∀ axis ∈ axes, axis.1 ∉ row.map Prod.fst) →
      result = choices.flatMap (fun row => (product axes).map (row ++ ·)) ∧
        ∀ axis ∈ axes, Distinct enc axis.2
  | [], choices, result, h, _, _ => by
      cases h
      refine ⟨?_, fun _ hmem => nomatch hmem⟩
      simp [product]
  | axis :: axes, choices, result, h, hkeys, hnew => by
      obtain ⟨next, hnext, h⟩ := foldlM_cons_eq_ok.mp h
      obtain ⟨_, -, hnext⟩ := bind_eq_ok.mp hnext
      obtain ⟨all, hall, hnext⟩ := bind_eq_ok.mp hnext
      cases hnext
      obtain ⟨digests, hdigests, hnodup, -⟩ := distinctValue_foldlM hall
      rw [List.map_cons, List.nodup_cons] at hkeys
      have happend : ∀ row ∈ choices, ∀ value, Fields.insert row axis.1 value =
          row ++ [(axis.1, value)] :=
        fun row hrow value => Fields.insert_new (hnew row hrow axis List.mem_cons_self)
      have hfresh : ∀ row ∈ choices.flatMap fun row => axis.2.map fun value =>
          Fields.insert row axis.1 value, ∀ other ∈ axes, other.1 ∉ row.map Prod.fst := by
        intro row hrow other hother hmem
        obtain ⟨before, hbefore, hrow⟩ := List.mem_flatMap.mp hrow
        obtain ⟨value, -, rfl⟩ := List.mem_map.mp hrow
        rw [happend before hbefore, List.map_append, List.mem_append] at hmem
        rcases hmem with hmem | hmem
        · exact hnew before hbefore other (List.mem_cons_of_mem _ hother) hmem
        · obtain hkey : other.1 = axis.1 := List.mem_singleton.mp hmem
          exact hkeys.1 (List.mem_map.mpr ⟨other, hother, hkey⟩)
      obtain ⟨hresult, hdistinct⟩ := addAxis_foldlM h hkeys.2 hfresh
      refine ⟨?_, List.forall_mem_cons.mpr ⟨⟨digests, hdigests, hnodup⟩, hdistinct⟩⟩
      rw [hresult, List.flatMap_assoc]
      refine List.flatMap_congr fun row hrow => ?_
      rw [product, List.map_flatMap, List.flatMap_map]
      refine List.flatMap_congr fun value _ => ?_
      rw [happend row hrow, List.map_map]
      refine List.map_congr_left fun more _ => ?_
      simp

/-- A digest is the hash of canonical bytes. -/
lemma digest_ok {value : Json} {digest : String} (h : enc.digest value = .ok digest) :
    ∃ written, enc.bytes value = .ok written ∧ enc.sha256 written = digest := by
  unfold Encoding.digest at h
  cases hbytes : enc.bytes value with
  | error e =>
    rw [hbytes] at h
    cases h
  | ok written =>
    rw [hbytes] at h
    exact ⟨written, rfl, Except.ok.inj h⟩

lemma Distinct.eq_of_digest {values : List Json} (h : Distinct enc values) {value other : Json}
    (hvalue : value ∈ values) (hother : other ∈ values) {digest : String}
    (hdigest : enc.digest value = .ok digest) (hdigest' : enc.digest other = .ok digest) :
    value = other := by
  obtain ⟨digests, hdigests, hnodup⟩ := h
  have hmap : values.map enc.digest = digests.map Except.ok := by
    clear hnodup hvalue hother
    induction hdigests with
    | nil => rfl
    | cons hfirst _ ih => rw [List.map_cons, List.map_cons, hfirst, ih]
  have hinj : (values.map enc.digest).Nodup := by
    rw [hmap]
    exact hnodup.map fun _ _ => Except.ok.inj
  exact List.inj_on_of_nodup_map hinj hvalue hother (hdigest.trans hdigest'.symm)

lemma Distinct.nodup {values : List Json} (h : Distinct enc values) : values.Nodup := by
  obtain ⟨digests, hdigests, hnodup⟩ := h
  induction hdigests with
  | nil => exact List.nodup_nil
  | @cons value digest values digests hfirst hrest ih =>
    rw [List.nodup_cons] at hnodup ⊢
    refine ⟨fun hmem => hnodup.1 ?_, ih hnodup.2⟩
    obtain ⟨other, hother, hdigest⟩ := exists_right hrest hmem
    obtain rfl : digest = other := Except.ok.inj (hfirst.symm.trans hdigest)
    exact hother

end Choices

/-! ## Documents of choices -/

section Documents

variable {F ρ : Type} {format : FloatFormat F} {sha256 : Bytes → String}

lemma Chooses.valid {axes : List Axis} {row : Fields} (h : Chooses axes row)
    (hkeys : (axes.map Prod.fst).Nodup)
    (hvalues : ∀ axis ∈ axes, ∀ value ∈ axis.2, value.valid = true) :
    (Json.object row).valid = true := by
  refine Json.readable_object.mpr ⟨h.keys ▸ hkeys, ?_⟩
  rw [Json.readableFields_iff]
  intro field hfield
  obtain ⟨axis, haxis, -, hmem⟩ := exists_right h hfield
  exact hvalues axis haxis _ hmem

/-- Choices that are the same as documents are one choice. -/
lemma Chooses.eq_of_same {axes : List Axis} {row : Fields}
    (h : Chooses axes row) : ∀ {other : Fields}, Chooses axes other →
    (axes.map Prod.fst).Nodup → (∀ axis ∈ axes, Distinct (format.encoding sha256) axis.2) →
    (∀ axis ∈ axes, ∀ value ∈ axis.2, value.valid = true) →
    Json.sameFields format row other → row = other := by
  induction h with
  | nil =>
    intro other hother _ _ _ _
    exact (List.forall₂_nil_right_iff.mp hother).symm
  | @cons field axis row axes hfirst hrest ih =>
    intro other hother hkeys hdistinct hvalues hsame
    obtain ⟨⟨key, value'⟩, more, ⟨hkey, hvalue'⟩, hmore, rfl⟩ :=
      List.forall₂_cons_right_iff.mp hother
    obtain ⟨name, value⟩ := field
    obtain ⟨hname, hvalue⟩ := hfirst
    obtain rfl : name = axis.1 := hname
    obtain rfl : key = axis.1 := hkey
    rw [List.map_cons, List.nodup_cons] at hkeys
    obtain ⟨counterpart, hget, hcounterpart, htail⟩ := hsame
    rw [Fields.get_cons, if_pos rfl] at hget
    obtain rfl : value' = counterpart := Option.some.inj hget
    have hremove : Fields.remove ((axis.1, value') :: more) axis.1 = more := by
      rw [Fields.remove, List.filter_cons_of_neg (by simp)]
      refine List.filter_eq_self.mpr fun field hfield => decide_eq_true fun heq => hkeys.1 ?_
      have hmem : axis.1 ∈ more.map Prod.fst := List.mem_map.mpr ⟨field, hfield, heq⟩
      rwa [Chooses.keys hmore] at hmem
    have hvalues' := List.forall_mem_cons.mp hvalues
    have hdistinct' := List.forall_mem_cons.mp hdistinct
    have heq : value = value' := by
      obtain ⟨digests, hdigests, -⟩ := hdistinct'.1
      obtain ⟨digest, -, hdigest⟩ := exists_right hdigests hvalue
      obtain ⟨digest', -, hdigest'⟩ := exists_right hdigests hvalue'
      obtain ⟨written, hwritten, -⟩ := digest_ok hdigest
      obtain ⟨written', hwritten', -⟩ := digest_ok hdigest'
      have hbytes := (Encoding.bytes_eq_iff sha256
        (Json.readable_of_bytes _ (hvalues'.1 _ hvalue) _ hwritten)
        (Json.readable_of_bytes _ (hvalues'.1 _ hvalue') _ hwritten')).mpr hcounterpart
      refine hdistinct'.1.eq_of_digest hvalue hvalue' hdigest ?_
      rw [Encoding.digest, ← hbytes]
      exact hdigest
    rw [hremove] at htail
    rw [heq, ih hmore hkeys.2 hdistinct'.2 hvalues'.2 htail]

variable (project : String) (batch : Batch ρ)

lemma valid_idDocument {row : Fields} (seed : ℤ) (hrow : (Json.object row).valid = true) :
    (idDocument project batch row seed).valid = true := by
  have hseed := Json.valid_ofInt seed
  rw [Json.valid] at hrow hseed ⊢
  simp only [idDocument, Json.readable, Json.readableItems, Bool.true_and, Bool.and_true,
    Bool.and_eq_true]
  rw [Json.readable] at hrow
  exact ⟨by simpa using hrow, hseed⟩

/-- Choices whose identities are made of the same bytes are one choice. -/
lemma idDocument_inj {row other : Fields} {seed seed' : ℤ}
    (hdistinct : ∀ axis ∈ batch.parameters, Distinct (format.encoding sha256) axis.2)
    (hrow : Chooses batch.parameters row) (hother : Chooses batch.parameters other)
    {written : Bytes}
    (h : (format.encoding sha256).bytes (idDocument project batch row seed) = .ok written)
    (h' : (format.encoding sha256).bytes (idDocument project batch other seed') = .ok written) :
    row = other ∧ seed = seed' := by
  have hvalid := valid_idDocument project batch seed (hrow.valid batch.unique batch.valid)
  have hvalid' := valid_idDocument project batch seed' (hother.valid batch.unique batch.valid)
  have hsame := (Encoding.bytes_eq_iff sha256 (Json.readable_of_bytes _ hvalid _ h)
    (Json.readable_of_bytes _ hvalid' _ h')).mp (h.trans h'.symm)
  obtain ⟨-, -, -, -, hrows, hseeds, -⟩ := hsame
  exact ⟨hrow.eq_of_same hother batch.unique hdistinct batch.valid hrows,
    Json.ofInt_inj_of_same hseeds⟩

end Documents

/-! ## Children -/

section Children

variable {ρ : Type} (enc : Encoding) (project : String) (batch : Batch ρ) (base : String)

/-- The request of a choice: the experiment under names of its own, with the seed, and with the
chosen values before the parameters it has. -/
structure IsChild (choice : Fields × ℤ) (request : Request ρ) : Prop where
  identity : ∃ digest, enc.digest (idDocument project batch choice.1 choice.2) = .ok digest ∧
    request.requestId = digestFront 32 digest ∧
    request.run.get "run_id" = some (.string (base ++ "-" ++ digestFront 16 digest))
  seed : request.run.get "seed" = some (.ofInt choice.2)
  parameters : ∃ original chosen, parametersOf batch.experiment.run = .ok original ∧
    request.run.get "parameters" = some (.object chosen) ∧
    ∀ key, Fields.get chosen key = (choice.1.get key).or (original.get key)
  others : ∀ key ∉ ["run_id", "seed", "parameters"],
    request.run.get key = batch.experiment.run.get key
  rest : request.rest = batch.experiment.rest

variable {enc project batch base} {validate : Request ρ → Except String Unit}

lemma child_ok {choice : Fields × ℤ} {request : Request ρ}
    (hkeys : (choice.1.map Prod.fst).Nodup)
    (h : child enc validate project batch base choice = .ok request) :
    IsChild enc project batch base choice request ∧ validate request = .ok () := by
  obtain ⟨digest, hdigest, h⟩ := bind_eq_ok.mp h
  obtain ⟨original, horiginal, h⟩ := bind_eq_ok.mp h
  obtain ⟨_, hvalid, h⟩ := bind_eq_ok.mp h
  cases h
  refine ⟨⟨⟨digest, mapError_ok.mp hdigest, rfl, ?_⟩, ?_, ?_, ?_, rfl⟩, hvalid⟩
  · simp [Fields.get_insert]
  · simp [Fields.get_insert]
  · refine ⟨original, _, ?_, ?_, fun key => Fields.get_extend hkeys⟩
    · rw [← horiginal, parametersOf, parametersOf, Fields.get_insert, Fields.get_insert,
        if_neg (by decide), if_neg (by decide)]
    · simp
  · intro key hkey
    simp only [List.mem_cons, List.not_mem_nil, or_false, not_or] at hkey
    simp [Fields.get_insert, hkey.1, hkey.2.1, hkey.2.2]

end Children

section Expansion

variable {F ρ : Type} (format : FloatFormat F) (sha256 : Bytes → String)

/-- The seeds of a batch, or the one seed of its experiment. -/
def Batch.Seeds (batch : Batch ρ) (seeds : List ℤ) : Prop :=
  (batch.seeds ≠ [] ∧ seeds = batch.seeds) ∨
    (batch.seeds = [] ∧ ∃ seed, (batch.experiment.run.get "seed").bind Json.asI64 = some seed ∧
      seeds = [seed])

lemma seedsOf_ok {batch : Batch ρ} {seeds : List ℤ} (h : seedsOf batch = .ok seeds) :
    batch.Seeds seeds := by
  unfold seedsOf at h
  split_ifs at h with hempty
  · cases hseed : (batch.experiment.run.get "seed").bind Json.asI64 with
    | none =>
      rw [hseed] at h
      cases h
    | some seed =>
      rw [hseed] at h
      cases h
      exact Or.inr ⟨hempty, seed, hseed, rfl⟩
  · cases h
    exact Or.inl ⟨hempty, rfl⟩

/-- The identities of the choices, as far as they are used, are not shared: no two of the texts
they are digests of have digests with the same front. -/
def CollisionFree (project : String) (batch : Batch ρ) (combos : List (Fields × ℤ)) : Prop :=
  ∀ choice ∈ combos, ∀ other ∈ combos, ∀ written written',
    (format.encoding sha256).bytes (idDocument project batch choice.1 choice.2) = .ok written →
    (format.encoding sha256).bytes (idDocument project batch other.1 other.2) = .ok written' →
    digestFront 32 (sha256 written) = digestFront 32 (sha256 written') → written = written'

/-- Names of requests are different where the choices behind them can be told by the names. -/
lemma nodup_of_forall₂ {α β γ : Type} {R : α → β → Prop} {name : β → γ} {choices : List α}
    {results : List β} (h : List.Forall₂ R choices results) : choices.Nodup →
    (∀ choice ∈ choices, ∀ other ∈ choices, ∀ result result', R choice result →
      R other result' → name result = name result' → choice = other) →
    (results.map name).Nodup := by
  induction h with
  | nil => exact fun _ _ => List.nodup_nil
  | @cons choice result choices results hfirst hrest ih =>
    intro hnodup hname
    rw [List.nodup_cons] at hnodup
    rw [List.map_cons, List.nodup_cons]
    constructor
    · intro hmem
      obtain ⟨result', hresult, heq⟩ := List.mem_map.mp hmem
      obtain ⟨other, hother, hR⟩ := exists_left hrest hresult
      obtain rfl := hname choice List.mem_cons_self other (List.mem_cons_of_mem _ hother) _ _
        hfirst hR heq.symm
      exact hnodup.1 hother
    · exact ih hnodup.2 fun first hfirst second hsecond =>
        hname first (List.mem_cons_of_mem _ hfirst) second (List.mem_cons_of_mem _ hsecond)

/-- **Expansion is the exact product.** The children of a batch that expands are the requests of
its choices of a value for each parameter and a seed, each choice once; there are at most 256 of
them, all of them valid, and their names are different where the digests are. -/
theorem expand_exact (validate : Request ρ → Except String Unit) (project : String)
    (batch : Batch ρ) {children : List (Request ρ)}
    (h : batch.expand (format.encoding sha256) validate project = .ok children) :
    ∃ base seeds combos,
      (batch.experiment.run.get "run_id").bind Json.asStr = some base ∧
      batch.Seeds seeds ∧
      combos.Nodup ∧
      (∀ row seed, (row, seed) ∈ combos ↔ Chooses batch.parameters row ∧ seed ∈ seeds) ∧
      combos.length = (batch.parameters.map fun axis => axis.2.length).prod * seeds.length ∧
      List.Forall₂ (IsChild (format.encoding sha256) project batch base) combos children ∧
      children.length ≤ 256 ∧
      (∀ request ∈ children, validate request = .ok ()) ∧
      (CollisionFree format sha256 project batch combos →
        (children.map Request.requestId).Nodup) := by
  obtain ⟨_, -, h⟩ := bind_eq_ok.mp h
  obtain ⟨_, -, h⟩ := bind_eq_ok.mp h
  obtain ⟨base, hbase, h⟩ := bind_eq_ok.mp h
  obtain ⟨_, -, h⟩ := bind_eq_ok.mp h
  obtain ⟨choices, hchoices, h⟩ := bind_eq_ok.mp h
  obtain ⟨seeds, hseeds, h⟩ := bind_eq_ok.mp h
  obtain ⟨_, hbounds, h⟩ := bind_eq_ok.mp h
  rw [reject_eq_ok, not_or, not_not, not_lt] at hbounds
  obtain ⟨hrows, hdistinct⟩ := addAxis_foldlM hchoices batch.unique fun row hrow axis _ => by
    rw [List.mem_singleton.mp hrow]
    exact List.not_mem_nil
  have hrows : choices = product batch.parameters := by simpa using hrows
  have hmem : ∀ row seed, (row, seed) ∈ choices ×ˢ seeds ↔
      Chooses batch.parameters row ∧ seed ∈ seeds := by
    intro row seed
    rw [List.mem_product, hrows, mem_product]
  have hchildren := mapM_eq_ok.mp h
  have hspec : List.Forall₂ (fun choice request =>
      IsChild (format.encoding sha256) project batch base choice request ∧
        validate request = .ok ()) (choices ×ˢ seeds) children := by
    have hkeys : ∀ choice ∈ choices ×ˢ seeds, (choice.1.map Prod.fst).Nodup :=
      fun choice hchoice => ((hmem _ _).mp hchoice).1.keys ▸ batch.unique
    exact ((List.forall₂_and_left _ _).mpr ⟨hkeys, hchildren⟩).imp fun _ _ h => child_ok h.1 h.2
  have hnodup : (choices ×ˢ seeds).Nodup := by
    refine List.Nodup.product ?_ hbounds.1
    rw [hrows]
    exact product_nodup fun axis haxis => (hdistinct axis haxis).nodup
  have hlength : (choices ×ˢ seeds).length =
      (batch.parameters.map fun axis => axis.2.length).prod * seeds.length := by
    rw [List.length_product, hrows, length_product]
  refine ⟨base, seeds, choices ×ˢ seeds, ?_, seedsOf_ok hseeds, hnodup, hmem, hlength,
    hspec.imp fun _ _ h => h.1, ?_, ?_, ?_⟩
  · cases hrun : (batch.experiment.run.get "run_id").bind Json.asStr with
    | none =>
      rw [hrun] at hbase
      cases hbase
    | some text =>
      rw [hrun] at hbase
      exact congrArg some (Except.ok.inj hbase)
  · rw [← hspec.length_eq, List.length_product]
    exact hbounds.2
  · intro request hrequest
    obtain ⟨_, -, -, hvalid⟩ := exists_left hspec hrequest
    exact hvalid
  · intro hfree
    refine nodup_of_forall₂ hspec hnodup ?_
    rintro ⟨row, seed⟩ hchoice ⟨other, seed'⟩ hother request request' ⟨hchild, -⟩ ⟨hchild', -⟩ heq
    obtain ⟨digest, hdigest, hid, -⟩ := hchild.identity
    obtain ⟨digest', hdigest', hid', -⟩ := hchild'.identity
    obtain ⟨written, hwritten, hhash⟩ := digest_ok hdigest
    obtain ⟨written', hwritten', hhash'⟩ := digest_ok hdigest'
    rw [hid, hid', ← hhash, ← hhash'] at heq
    obtain rfl := hfree _ hchoice _ hother written written' hwritten hwritten' heq
    obtain ⟨hrow, hseed⟩ := idDocument_inj project batch hdistinct ((hmem _ _).mp hchoice).1
      ((hmem _ _).mp hother).1 hwritten hwritten'
    exact congrArg₂ Prod.mk hrow hseed

/-- Two values of one parameter. -/
def sampleBatch : Batch Unit where
  requestId := "aaaaaaaaaaaaaaaaaaaaaaaaaaaaaaaa"
  experiment :=
    { requestId := "e", run := [("run_id", .string "r"), ("seed", .number "7")], rest := () }
  parameters := [("lr", [.number "1", .number "2"])]
  seeds := []
  unique := by decide
  valid := by decide

/-- The digests of the values and of the two identities. -/
def sampleDigest (bytes : Bytes) : String :=
  if bytes = [49] then "6b86b273ff34fce19d6b804eff5a3f5747ada4eaa22f1d49c01e52ddb7875b4b"
  else if bytes = [50] then "d4735e3a265e16eee03f59718b9b5d03019c07d8b6c51f90da3a666eec13ab35"
  else if 50 ∈ bytes then "d30899b82891f20859eb7dfdd53b956cd535cf98ebf7b8f264a2a7c2deb32210"
  else "eb71322a609184e458fdeabfddb97c5e8c70cba072f0a62b09290c954f53089c"

theorem expand_exact_sampled : ∃ children,
    sampleBatch.expand (Encoding.sampleFormat.encoding sampleDigest) (fun _ => .ok ()) "p" =
      .ok children ∧ (children.map Request.requestId).Nodup := by
  have hrun : ∃ children, sampleBatch.expand (Encoding.sampleFormat.encoding sampleDigest)
      (fun _ => .ok ()) "p" = .ok children := ⟨_, rfl⟩
  obtain ⟨children, hrun⟩ := hrun
  refine ⟨children, hrun, ?_⟩
  obtain ⟨base, seeds, combos, -, hseeds, -, hcombos, -, -, -, -, hnames⟩ :=
    expand_exact Encoding.sampleFormat sampleDigest _ "p" sampleBatch hrun
  refine hnames ?_
  have hchoice : ∀ choice ∈ combos,
      choice = ([("lr", .number "1")], 7) ∨ choice = ([("lr", .number "2")], 7) := by
    rintro ⟨row, seed⟩ hmem
    obtain ⟨hrow, hseed⟩ := (hcombos row seed).mp hmem
    obtain ⟨-, seed', hget, rfl⟩ := hseeds.resolve_left fun h => h.1 rfl
    obtain rfl : seed = seed' := List.mem_singleton.mp hseed
    obtain rfl : (7 : ℤ) = seed := Option.some.inj hget
    have hproduct : row ∈ product sampleBatch.parameters := mem_product.mpr hrow
    have hrows : product sampleBatch.parameters =
      [[("lr", .number "1")], [("lr", .number "2")]] := rfl
    rw [hrows] at hproduct
    simpa using hproduct
  intro choice hmem other hmem' written written' hwritten hwritten' heq
  rcases hchoice choice hmem with rfl | rfl <;> rcases hchoice other hmem' with rfl | rfl
  · exact Except.ok.inj (hwritten.symm.trans hwritten')
  · cases hwritten
    cases hwritten'
    exact absurd heq (by decide +kernel)
  · cases hwritten
    cases hwritten'
    exact absurd heq (by decide +kernel)
  · exact Except.ok.inj (hwritten.symm.trans hwritten')

end Expansion

end Client

end ExperimentControl
