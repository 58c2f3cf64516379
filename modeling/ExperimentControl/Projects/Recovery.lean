import ExperimentControl.Projects.Store

/-!
# Recovery of the registry

The machine may stop in any write of a call, and in any write of the repair before it. What is left
is always loaded, as the registry before the call or as the one that the call planned, and the
transitions that were committed are there, each once and in their order.

* `unfinished_of_text`, `recordValues_of_get` — what is read back of a text that is cut, and of
  records in their normal form.
* `Line`, `Left`, **`Left.found`** — a transition as a line, what may be left of the journal, and what
  is found in it.
* `Holds`, **`Holds.load_found`**, **`Found.repaired`** — the head with its journal, what is loaded of
  them, and what the repair leaves.
* **`Headed.proposal`**, **`Holds.persists`** — the head and the line of a change, read back.
* `Reached`, **`registry_recovers`** — one call on any store, stopped anywhere or not at all.
* `Called`, **`registry_history`** — what any calls make of the transitions that were committed.
-/

namespace ExperimentControl

namespace Projects

open Json

/-! ## Texts that are cut -/

lemma utf8EncodeChar_tail (c : Char) :
    ∀ b ∈ (String.utf8EncodeChar c).tail, b ∈ continuations := by
  have hbyte (n : ℕ) : UInt8.ofNat (n % 64 + 128) ∈ continuations :=
    List.mem_map.mpr ⟨n % 64, List.mem_range.mpr (Nat.mod_lt n (by decide)), rfl⟩
  intro b hb
  unfold String.utf8EncodeChar at hb
  dsimp only at hb
  split_ifs at hb
  · simp at hb
  · simp only [List.tail_cons, List.mem_singleton] at hb
    exact hb ▸ hbyte _
  · simp only [List.tail_cons, List.mem_cons, List.not_mem_nil, or_false] at hb
    rcases hb with rfl | rfl <;> exact hbyte _
  · simp only [List.tail_cons, List.mem_cons, List.not_mem_nil, or_false] at hb
    rcases hb with rfl | rfl | rfl <;> exact hbyte _

/-- The bytes that may be left of a character. -/
lemma mem_endings {more : Bytes} (hlength : more.length ≤ 3) (h : ∀ b ∈ more, b ∈ continuations) :
    more ∈ endings := by
  simp only [endings, List.mem_cons, List.mem_append, List.mem_map, List.mem_flatMap]
  match more, hlength, h with
  | [], _, _ => exact Or.inl rfl
  | [a], _, h => exact Or.inr (Or.inl (Or.inl ⟨a, h a (by simp), rfl⟩))
  | [a, b], _, h =>
      exact Or.inr (Or.inl (Or.inr ⟨a, h a (by simp), [b], ⟨b, h b (by simp), rfl⟩, rfl⟩))
  | [a, b, c], _, h =>
      exact Or.inr (Or.inr ⟨a, h a (by simp), [b, c],
        ⟨b, h b (by simp), [c], ⟨c, h c (by simp), rfl⟩, rfl⟩, rfl⟩)
  | _ :: _ :: _ :: _ :: _, hlength, _ =>
      simp only [List.length_cons] at hlength
      omega

/-- **A text that is cut anywhere is a text, or ends inside a character.** -/
theorem unfinished_of_text {front rest : Bytes} (h : Reader.IsText (front ++ rest)) :
    unfinished front = true := by
  have hchars (chars : List Char) : ∀ {front rest : Bytes},
      front ++ rest = chars.flatMap String.utf8EncodeChar →
        ∃ more ∈ endings, Reader.IsText (front ++ more) := by
    induction chars with
    | nil =>
        intro front rest hsplit
        simp only [List.flatMap_nil, List.append_eq_nil_iff] at hsplit
        exact ⟨[], mem_endings (by simp) (by simp), "", by rw [hsplit.1]; rfl⟩
    | cons c chars ih =>
        intro front rest hsplit
        have htext : Reader.IsText (String.utf8EncodeChar c) :=
          ⟨String.singleton c, by rw [utf8_eq]; simp⟩
        rw [List.flatMap_cons] at hsplit
        rcases List.append_eq_append_iff.mp hsplit with ⟨more, hmore, -⟩ | ⟨behind, hbehind, hrest⟩
        · cases front with
          | nil => exact ⟨[], mem_endings (by simp) (by simp), "", rfl⟩
          | cons b front =>
              refine ⟨more, mem_endings ?_ ?_, hmore ▸ htext⟩
              · have hsize := congrArg List.length hmore
                have hmax := c.utf8Size_le_four
                simp only [String.length_utf8EncodeChar, List.cons_append, List.length_cons,
                  List.length_append] at hsize
                omega
              · intro a ha
                refine utf8EncodeChar_tail c a ?_
                rw [hmore]
                simp [ha]
        · obtain ⟨more, hmem, hmore⟩ := ih hrest.symm
          refine ⟨more, hmem, ?_⟩
          rw [hbehind, List.append_assoc]
          exact htext.append hmore
  obtain ⟨text, htext⟩ := h
  rw [utf8_eq] at htext
  obtain ⟨more, hmem, found, hfound⟩ := hchars text.toList htext.symm
  refine List.any_eq_true.mpr ⟨more, hmem, ?_⟩
  rw [fromUtf8_eq_some.mpr hfound]
  rfl

/-! ## Normal forms -/

section Normal

variable {F : Type} {format : FloatFormat F} {fields others : Fields}

lemma idOf_normal (hkeys : (fields.map Prod.fst).Nodup) :
    Durable.idOf ((Json.object fields).normal format) = Durable.idOf (.object fields) := by
  rw [Durable.idOf, get_asStr_normal hkeys, Durable.idOf]

lemma variant_normal {α : Type} {name : α → String} {values : List α} {value : Json} {a : α}
    (h : variant name values value = some a) :
    variant name values (value.normal format) = some a := by
  unfold variant at h
  split at h
  · exact h
  · exact h
  · cases h

/-- A record is read in its normal form. -/
lemma LifecycleRecord.ofJson_normal {value : Json} (hreadable : value.readable format.finite = true)
    {record : LifecycleRecord} (h : ofJson value = some record) :
    ofJson (value.normal format) = some record := by
  cases value with
  | object fields =>
      have hkeys := (readable_object.mp hreadable).1
      have hget (key : String) : Fields.get (sortKeys (normalFields format fields)) key =
          (Fields.get fields key).map (normal format) := get_normal hkeys key
      have htext (key : String) : Fields.text (sortKeys (normalFields format fields)) key =
          Fields.text fields key := by
        rw [Fields.text, hget, Fields.text]
        cases Fields.get fields key with
        | none => rfl
        | some value => simp
      have hvariant {α : Type} {name : α → String} {values : List α} {key : String} {a : α}
          (h : (Fields.get fields key).bind (variant name values) = some a) :
          (Fields.get (sortKeys (normalFields format fields)) key).bind (variant name values) =
            some a := by
        obtain ⟨value, hvalue, ha⟩ := Option.bind_eq_some_iff.mp h
        rw [hget, hvalue]
        exact variant_normal ha
      simp only [ofJson, normal, htext, Option.bind_eq_bind, Option.bind_eq_some_iff] at h ⊢
      obtain ⟨project, hproject, file, hfile, state, hstate, source, hsource, rest⟩ := h
      exact ⟨project, hproject, file, hfile, state,
        Option.bind_eq_some_iff.mp (hvariant (Option.bind_eq_some_iff.mpr hstate)), source,
        Option.bind_eq_some_iff.mp (hvariant (Option.bind_eq_some_iff.mpr hsource)), rest⟩
  | array items =>
      unfold ofJson at h
      split at h
      · cases ‹Json.array items = _›
      · cases ‹Json.array items = _›
        simp only [ofJson, normal, normalItems, asStr_normal, Option.bind_eq_bind,
          Option.bind_eq_some_iff] at h ⊢
        obtain ⟨project, hproject, file, hfile, state, hstate, source, hsource, rest⟩ := h
        exact ⟨project, hproject, file, hfile, state, variant_normal hstate, source,
          variant_normal hsource, rest⟩
      · cases h
  | _ => simp [ofJson] at h

/-- The records are read in a document that has what they are read from in its normal form. -/
lemma recordValues_of_get {records : List LifecycleRecord}
    (hreadable : (Json.object fields).readable format.finite = true)
    (hget : ∀ key, key ≠ "_durability" →
      Fields.get others key = (Fields.get fields key).map (normal format))
    (h : recordValues (.object fields) = .ok records) : recordValues (.object others) = .ok records := by
  obtain ⟨hversion, hprojects⟩ := recordValues_object.mp h
  refine recordValues_object.mpr ⟨?_, ?_⟩
  · intro v hv
    rw [hget _ (by decide)] at hv
    obtain ⟨old, hold, rfl⟩ := Option.map_eq_some_iff.mp hv
    exact asU64_normal (hversion old hold)
  · rw [hget _ (by decide)]
    rcases hprojects with ⟨hnone, rfl⟩ | ⟨values, hvalues, hread⟩
    · exact Or.inl ⟨by rw [hnone]; rfl, rfl⟩
    · refine Or.inr ⟨values.map (normal format), ?_, ?_⟩
      · rw [hvalues, Option.map_some, normal, normalItems_eq]
      · have hitems := (readableFields_iff fields).mp (readable_object.mp hreadable).2
        have hmem := (lookup_eq_some_iff (readable_object.mp hreadable).1).mp hvalues
        have hall := (readableItems_iff values).mp (hitems _ hmem)
        obtain ⟨hrecords, hnodup, hfresh⟩ := recordsFrom_eq_ok.mp hread
        refine recordsFrom_eq_ok.mpr ⟨?_, hnodup, hfresh⟩
        rw [List.forall₂_map_left_iff]
        refine ((List.forall₂_and_left _ _).mpr ⟨hall, hrecords⟩).imp fun value record h => ?_
        obtain ⟨hvalue, hrecord⟩ := h
        rw [LifecycleRecord.fromValue_eq_ok] at hrecord ⊢
        exact ⟨LifecycleRecord.ofJson_normal hvalue hrecord.1, hrecord.2⟩

end Normal

/-! ## Lines of the journal -/

section Lines

variable {F : Type} (format : FloatFormat F) (sha256 : Bytes → String) (isEof : Bytes → Bool)

/-- A transition as it is read from the journal: an object in its normal form, which is not too deep
and not too long. -/
structure Line (t : Json) : Prop where
  plain : t.plain = true
  object : ∃ fields, t = .object fields ∧ depthFields fields ≤ Reader.MAX_DEPTH
  readable : t.readable format.finite = true
  normal : t.normal format = t
  short : (t.write ++ [10]).length < 2 ^ 64

/-- The parser says of the text of an object that is cut that it ended too early, where the object is
not too deep for it and has no key that it takes for its own. -/
def CutsAreEof : Prop := ∀ fields front rest, (Json.object fields).readable format.finite = true →
  (Json.object fields).plain = true → depthFields fields ≤ Reader.MAX_DEPTH →
    (Json.object fields).write = front ++ rest → front ≠ [] → rest ≠ [] → isEof front = true

variable {format} {t : Json}

lemma Line.encoded (h : Line format t) :
    encoded (format.encoding sha256) t = .ok (t.write ++ [10]) := by
  simp [Projects.encoded, bytes_normal sha256 t h.readable, h.normal, Except.mapError]

lemma Line.decode (h : Line format t) : Projects.decode format.finite t.write = .ok t := by
  obtain ⟨fields, rfl, hdepth⟩ := h.object
  have hshort := h.short
  simp only [List.length_append, List.length_singleton] at hshort
  simp [Projects.decode, Reader.ownMapping_write h.readable hdepth (by omega)]

lemma Line.newline (h : Line format t) : (10 : UInt8) ∉ t.write :=
  Grammar.newline_write t (exact_of_readable t h.readable)

/-- A line that is cut is no object, and ends too early. -/
lemma Line.cut (h : Line format t) (hEof : CutsAreEof format isEof) {front rest : Bytes}
    (hsplit : t.write = front ++ rest) (hfront : front ≠ []) (hrest : rest ≠ []) :
    Projects.decode format.finite front = .error .invalid ∧ isEof front = true ∧
      unfinished front = true := by
  obtain ⟨fields, rfl, hdepth⟩ := h.object
  refine ⟨?_, hEof fields front rest h.readable h.plain hdepth hsplit hfront hrest, ?_⟩
  · have hnone := Reader.ownMapping_front h.readable hsplit hrest
    unfold Projects.decode
    cases hread : Reader.ownMapping format.finite front with
    | error e => rfl
    | ok others => exact absurd hread (hnone others)
  · exact @unfinished_of_text front rest (hsplit ▸ Reader.isText_write _)

/-- The journal of some transitions. -/
def linesOf (ts : List Json) : Bytes := terminated 10 (ts.map Json.write)

variable {ts : List Json}

lemma linesOf_append (ts : List Json) (t : Json) :
    linesOf (ts ++ [t]) = linesOf ts ++ (t.write ++ [10]) := by
  simp [linesOf, terminated_append]

/-- **The journal with nothing, with a line that is cut, or with a line without its end behind its
lines.** -/
theorem journal_lines (hlines : ∀ t ∈ ts, Line format t) {tail : Bytes} (htail : (10 : UInt8) ∉ tail) :
    journal format.finite isEof (linesOf ts ++ tail) =
      if tail = [] then .ok (ts, none)
      else match Projects.decode format.finite tail with
        | .ok value => .ok (ts ++ [value], some (linesOf ts ++ tail ++ [10]))
        | .error _ =>
            if isEof tail ∧ unfinished tail then .ok (ts, some (linesOf ts)) else .error .invalid := by
  have hnewline : ∀ line ∈ ts.map Json.write, (10 : UInt8) ∉ line := by
    intro line hline
    obtain ⟨t, ht, rfl⟩ := List.mem_map.mp hline
    exact (hlines t ht).newline
  have hevents : (if linesOf ts = [] then (.ok [] : Except StoreError (List Json))
      else ((linesOf ts).dropLast.splitOn 10).mapM (Projects.decode format.finite)) = .ok ts := by
    cases ts with
    | nil => rfl
    | cons t ts =>
        rw [if_neg (by simp [linesOf]), linesOf, splitOn_terminated hnewline (by simp)]
        refine mapM_eq_ok.mpr ?_
        rw [List.forall₂_map_left_iff]
        exact List.forall₂_same.mpr fun t ht => (hlines t ht).decode
  have hwhole : (linesOf ts ++ tail).rdropWhile (fun b => b ≠ 10) = linesOf ts :=
    rdropWhile_terminated htail
  have hbehind : (linesOf ts ++ tail).rtakeWhile (fun b => b ≠ 10) = tail :=
    rtakeWhile_terminated htail
  have hshape (next : List Json → Except StoreError (List Json × Option Bytes)) :
      (if linesOf ts = [] then Except.ok [] >>= next
        else ((linesOf ts).dropLast.splitOn 10).mapM (Projects.decode format.finite) >>= next) =
          next ts := by
    rw [← ok_bind ts next, ← hevents]
    split_ifs <;> rfl
  unfold journal
  rw [hwhole, hbehind]
  exact hshape _

/-! ## What is left of the journal -/

/-- Nothing but the last line may be missing, or a part of it. -/
def Left (ts : List Json) (events : Bytes) : Prop :=
  linesOf ts.dropLast <+: events ∧ events <+: linesOf ts

lemma linesOf_dropLast : linesOf ts.dropLast <+: linesOf ts := by
  rcases List.eq_nil_or_concat ts with rfl | ⟨front, t, rfl⟩
  · exact List.prefix_rfl
  · rw [List.concat_eq_append, List.dropLast_concat, linesOf_append]
    exact List.prefix_append _ _

lemma Left.whole (ts : List Json) : Left ts (linesOf ts) := ⟨linesOf_dropLast, List.prefix_rfl⟩

/-- A line that is appended, as far as it gets. -/
lemma Left.torn {t : Json} {front : Bytes} (h : front <+: t.write ++ [10]) :
    Left (ts ++ [t]) (linesOf ts ++ front) := by
  refine ⟨?_, ?_⟩
  · rw [List.dropLast_concat]
    exact List.prefix_append _ _
  · rw [linesOf_append]
    exact (List.prefix_append_right_inj _).mpr h

/-- The journal is whole, or lacks its last line, or a part of that. -/
lemma Left.cases {events : Bytes} (h : Left ts events) : events = linesOf ts ∨
    ∃ front t p rest, ts = front ++ [t] ∧ t.write = p ++ rest ∧ events = linesOf front ++ p := by
  obtain ⟨⟨p, rfl⟩, hend⟩ := h
  rcases List.eq_nil_or_concat ts with rfl | ⟨front, t, rfl⟩
  · exact Or.inl (List.prefix_nil.mp hend)
  · rw [List.concat_eq_append, List.dropLast_concat] at *
    rw [linesOf_append, List.prefix_append_right_inj] at hend
    rcases List.prefix_concat_iff.mp hend with rfl | ⟨rest, hrest⟩
    · exact Or.inl (linesOf_append front t).symm
    · exact Or.inr ⟨front, t, p, rest, rfl, hrest.symm, rfl⟩

/-- The events that are found, the bytes that should be there, and what is missing. -/
structure Found (format : FloatFormat F) (isEof : Bytes → Bool) (ts : List Json) (events : Bytes)
    (found : List Json) (normalized : Option Bytes) (missing : Option Json) : Prop where
  read : journal format.finite isEof events = .ok (found, normalized)
  whole : found ++ missing.toList = ts
  -- What the repair starts from is the lines that were found.
  lines : normalized.getD events = linesOf found

/-- A journal that is whole is found as it is. -/
lemma found_whole (hlines : ∀ t ∈ ts, Line format t) :
    Found format isEof ts (linesOf ts) ts none none := by
  have hread := @journal_lines _ format isEof ts hlines [] (by simp)
  rw [List.append_nil, if_pos rfl] at hread
  exact ⟨hread, by simp, rfl⟩

/-- **What is read of a journal that was left.** -/
theorem Left.found (hEof : CutsAreEof format isEof) (hlines : ∀ t ∈ ts, Line format t)
    {events : Bytes} (h : Left ts events) :
    ∃ found normalized missing, Found format isEof ts events found normalized missing := by
  rcases h.cases with rfl | ⟨front, t, p, rest, rfl, hsplit, rfl⟩
  · exact ⟨ts, none, none, found_whole isEof hlines⟩
  · have ht := hlines t (by simp)
    have hfront : ∀ t ∈ front, Line format t := fun t ht => hlines t (by simp [ht])
    have htail : (10 : UInt8) ∉ p := by
      intro hmem
      exact ht.newline (hsplit ▸ List.mem_append_left rest hmem)
    have hread := journal_lines isEof hfront htail
    by_cases hp : p = []
    · rw [if_pos hp, hp, List.append_nil] at hread
      exact ⟨front, none, some t, by rw [hp, List.append_nil, hread], by simp, by simp [hp]⟩
    · rw [if_neg hp] at hread
      by_cases hrest : rest = []
      · rw [hrest, List.append_nil] at hsplit
        rw [← hsplit, ht.decode] at hread
        refine ⟨front ++ [t], _, none, hsplit ▸ hread, by simp, ?_⟩
        rw [linesOf_append, hsplit, List.append_assoc]
        rfl
      · obtain ⟨hdecode, heof, hunfinished⟩ := ht.cut isEof hEof hsplit hp hrest
        rw [hdecode] at hread
        simp only [heof, hunfinished, and_self, if_true] at hread
        exact ⟨front, some (linesOf front), some t, hread, by simp, rfl⟩

end Lines

/-! ## What the files hold -/

section Files

variable {F : Type} {format : FloatFormat F} {sha256 : Bytes → String} {isEof : Bytes → Bool}
  {ts : List Json} {state : Durable.Snapshot} {registry : Registry} {files files' : Files}

/-- A head that records some transitions, with the registry it is read as. -/
structure Headed (format : FloatFormat F) (sha256 : Bytes → String) (bytes : Bytes)
    (ts : List Json) (state : Durable.Snapshot) (registry : Registry) : Prop where
  head : ∃ fields, decode format.finite bytes = .ok (.object fields) ∧
    Durable.Snapshot.fromValue (.object fields) = .ok state
  registry : Projects.registry state.value = .ok registry
  recorded : Durable.Recorded (format.encoding sha256) ts state
  lines : ∀ t ∈ ts, Line format t

/-- The head with its journal, whole or not. -/
structure Holds (format : FloatFormat F) (sha256 : Bytes → String) (files : Files)
    (ts : List Json) (state : Durable.Snapshot) (registry : Registry) : Prop where
  head : Headed format sha256 files.head ts state registry
  journal : Left ts files.events

variable {found : List Json} {normalized : Option Bytes} {missing : Option Json}

/-- **What is loaded** where some events are found. -/
theorem Holds.load_found (h : Holds format sha256 files ts state registry)
    (hfound : Found format isEof ts files.events found normalized missing) :
    Projects.load (format.encoding sha256) format.finite isEof files =
      .ok ⟨state, registry, found, normalized, missing⟩ := by
  obtain ⟨⟨fields, hdecode, hstate⟩, hregistry, hrecorded, hlines⟩ := h.head
  have hobjects : ∀ event ∈ found, event.isObject = true := by
    intro event hevent
    refine hrecorded.contiguous.objects event ?_
    rw [← hfound.whole]
    exact List.mem_append_left _ hevent
  have hmissing : Durable.missingTransition (format.encoding sha256) state found = .ok missing := by
    have hwhole := hfound.whole
    cases missing with
    | none =>
        rw [Option.toList_none, List.append_nil] at hwhole
        exact hrecorded.missing_whole hobjects (hwhole ▸ hrecorded.whole)
    | some t =>
        refine hrecorded.missing_last hobjects ?_
        have htransitions : Durable.transitions found = found := by
          have hall := List.filter_eq_self.mp hrecorded.whole
          refine List.filter_eq_self.mpr fun event hevent => hall event ?_
          rw [← hwhole]
          exact List.mem_append_left _ hevent
        rw [htransitions, ← hwhole]
        rfl
  simp [Projects.load, hdecode, hstate, hregistry, hfound.read, hmissing, Except.mapError]

/-- Files with nothing to repair. -/
structure Settled (format : FloatFormat F) (sha256 : Bytes → String) (files : Files)
    (ts : List Json) (state : Durable.Snapshot) (registry : Registry) : Prop where
  head : Headed format sha256 files.head ts state registry
  events : files.events = linesOf ts

lemma Settled.holds (h : Settled format sha256 files ts state registry) :
    Holds format sha256 files ts state registry :=
  ⟨h.head, h.events ▸ Left.whole ts⟩

lemma Settled.load (h : Settled format sha256 files ts state registry) :
    Projects.load (format.encoding sha256) format.finite isEof files =
      .ok ⟨state, registry, ts, none, none⟩ :=
  h.holds.load_found (h.events ▸ found_whole isEof h.head.lines)

/-! ## The repair -/

lemma applyAll_append (files : Files) (first second : List Write) :
    applyAll files (first ++ second) = applyAll (applyAll files first) second :=
  List.foldl_append

lemma stops_append {second : List Write} : ∀ {first : List Write} {files : Files},
    Stops files (first ++ second) files' →
      Stops files first files' ∨ Stops (applyAll files first) second files' := by
  intro first
  induction first with
  | nil => exact fun h => Or.inr h
  | cons write first ih =>
      intro files h
      rcases h with htorn | h
      · exact Or.inl (Or.inl htorn)
      · rcases ih h with h | h
        · exact Or.inl (Or.inr h)
        · exact Or.inr h

/-- The writes that leave a whole journal. -/
def repairs (normalized : Option Bytes) (missing : Option Json) : List Write :=
  normalized.toList.map .replaceEvents ++ missing.toList.map fun t => .appendEvents (t.write ++ [10])

lemma Found.repairWrites (h : Found format isEof ts files.events found normalized missing)
    (hlines : ∀ t ∈ ts, Line format t) :
    repairWrites (format.encoding sha256) ⟨state, registry, found, normalized, missing⟩ =
      .ok (repairs normalized missing) := by
  have hmissing : missing.toList.mapM (encoded (format.encoding sha256)) =
      .ok (missing.toList.map fun t => t.write ++ [10]) := by
    refine mapM_eq_ok.mpr ?_
    rw [List.forall₂_map_right_iff]
    refine List.forall₂_same.mpr fun t ht => (hlines t ?_).encoded sha256
    rw [← h.whole]
    exact List.mem_append_right _ ht
  simp [Projects.repairWrites, hmissing, repairs]

/-- The journal is replaced by the lines that were found, if it is. -/
lemma Found.replaced (h : Found format isEof ts files.events found normalized missing) :
    applyAll files (normalized.toList.map .replaceEvents) =
      { files with events := linesOf found } := by
  rw [← h.lines]
  cases normalized with
  | none => rfl
  | some bytes => rfl

/-- **The repair leaves the whole journal**, and wherever it stops nothing but the last line is
missing. -/
theorem Found.repaired (h : Found format isEof ts files.events found normalized missing)
    (hleft : Left ts files.events) :
    applyAll files (repairs normalized missing) = { files with events := linesOf ts } ∧
      ∀ files', Stops files (repairs normalized missing) files' →
        files'.head = files.head ∧ Left ts files'.events := by
  have hwhole := h.whole
  refine ⟨?_, ?_⟩
  · rw [repairs, applyAll_append, h.replaced, ← hwhole]
    cases missing with
    | none => simp [applyAll]
    | some t => simp [applyAll, linesOf_append, Write.apply]
  · intro files' hstop
    rcases stops_append hstop with hstop | hstop
    · have hlines := h.lines
      cases normalized with
      | none =>
          rw [show files' = files from hstop]
          exact ⟨rfl, hleft⟩
      | some bytes =>
          have hfound : Left ts (linesOf found) := by
            rw [← hwhole]
            cases missing with
            | none => simpa using Left.whole found
            | some t => simpa using Left.torn (t := t) (List.nil_prefix)
          rw [← hlines, Option.getD_some] at hfound
          rcases hstop with (rfl | rfl) | rfl
          · exact ⟨rfl, hleft⟩
          · exact ⟨rfl, hfound⟩
          · exact ⟨rfl, hfound⟩
    · rw [h.replaced] at hstop
      cases missing with
      | none =>
          rw [show files' = _ from hstop]
          rw [Option.toList_none, List.append_nil] at hwhole
          exact ⟨rfl, hwhole ▸ Left.whole found⟩
      | some t =>
          rw [← hwhole]
          rcases hstop with ⟨front, hfront, rfl⟩ | rfl
          · exact ⟨rfl, Left.torn hfront⟩
          · exact ⟨rfl, Left.torn List.prefix_rfl⟩

/-- The repair by itself, where nothing stops it. -/
lemma Holds.repair (h : Holds format sha256 files ts state registry)
    (hfound : Found format isEof ts files.events found normalized missing) :
    Projects.repair (format.encoding sha256) format.finite isEof files
        ⟨state, registry, found, normalized, missing⟩ =
      .ok ({ files with events := linesOf ts }, ⟨state, registry, ts, none, none⟩) := by
  by_cases hnone : normalized = none ∧ missing = none
  · obtain ⟨rfl, rfl⟩ := hnone
    have hwhole := hfound.whole
    have hlines := hfound.lines
    rw [Option.toList_none, List.append_nil] at hwhole
    rw [Option.getD_none, hwhole] at hlines
    simp [Projects.repair, ← hlines, hwhole]
  · have hrepairs := @Found.repairWrites _ _ sha256 _ _ state registry _ _ _ _ hfound h.head.lines
    have hload := @Settled.load _ _ _ isEof _ _ _ { files with events := linesOf ts } ⟨h.head, rfl⟩
    simp only [Projects.repair, hnone, if_false, hrepairs, ok_bind,
      (hfound.repaired h.journal).1, hload, reject, ne_eq, not_true_eq_false, or_self,
      Except.mapError]

/-! ## The next head -/

lemma decode_object {bytes : Bytes} {value : Json} (h : decode format.finite bytes = .ok value) :
    ∃ fields, value = .object fields ∧ (Json.object fields).readable format.finite = true ∧
      depthFields fields ≤ Reader.MAX_DEPTH := by
  unfold decode at h
  cases hread : Reader.ownMapping format.finite bytes with
  | error e => rw [hread] at h; cases h
  | ok fields =>
      rw [hread] at h
      obtain ⟨-, ⟨-, hreadable, hdepth⟩, -⟩ := Reader.parse_iff.mp hread
      exact ⟨fields, (Except.ok.inj h).symm, hreadable, Nat.le_of_succ_le_succ hdepth⟩

/-- A document that is encoded is read back in its normal form. -/
lemma decode_encoded {fields : Fields} {bytes : Bytes}
    (hreadable : (Json.object fields).readable format.finite = true)
    (hdepth : depthFields fields ≤ Reader.MAX_DEPTH)
    (h : encoded (format.encoding sha256) (.object fields) = .ok bytes)
    (hlength : bytes.length < 2 ^ 64) :
    bytes = ((Json.object fields).normal format).write ++ [10] ∧
      decode format.finite bytes = .ok ((Json.object fields).normal format) ∧
        ((Json.object fields).normal format).readable format.finite = true ∧
          depthFields (sortKeys (normalFields format fields)) ≤ Reader.MAX_DEPTH := by
  simp only [encoded, bytes_normal sha256 _ hreadable, Except.mapError, ok_bind,
    Except.ok.injEq] at h
  subst h
  have hnormal := readable_normal _ hreadable
  have hsize := (@size_normal _ format (Json.object fields)).1
  simp only [normal, depth] at hsize
  have hdepth' : depthFields (sortKeys (normalFields format fields)) ≤ Reader.MAX_DEPTH := by
    omega
  refine ⟨rfl, ?_, hnormal, hdepth'⟩
  rw [normal] at hnormal hlength ⊢
  rw [decode, Reader.ownMapping_line hnormal hdepth' hlength]

/-- The payload of a change is as readable as the document it is made from. -/
lemma payload_readable {fields : Fields} {change : Commit} {records : List LifecycleRecord}
    (hreadable : (Json.object fields).readable format.finite = true)
    (hdepth : depthFields fields ≤ Reader.MAX_DEPTH) (hpayload : registry.payload = .object fields)
    (h : registry.Proposes change records) : ∃ payload, change.payload = .object payload ∧
      (Json.object payload).readable format.finite = true ∧
        depthFields payload ≤ Reader.MAX_DEPTH := by
  have hitems := @texts_map 2 LifecycleRecord.toValue records LifecycleRecord.texts_toValue
  exact ⟨_, by rw [h.payload, hpayload, set_object],
    readable_insert hreadable (hitems.readable format.finite) _,
    depthFields_insert hdepth (hitems.depth.trans (by decide)) _⟩

/-- The transition of a commit as it is read back from its line. -/
lemma line_made {fields : Fields} {made : Json} {identity : String} {revision : ℕ} {line : Bytes}
    (hmade : made = .object ((Fields.insert fields "revision" (.ofNat revision)).insert
      "transition_id" (.string identity)))
    (htexts : Texts 5 (.object fields)) (htoken : tokenValid identity = true)
    (hbound : revision < 2 ^ 64)
    (hencoded : encoded (format.encoding sha256) made = .ok line) (hline : line.length < 2 ^ 64) :
    made.readable format.finite = true ∧ made.depth ≤ 5 ∧
      line = (made.normal format).write ++ [10] ∧ Line format (made.normal format) ∧
        Durable.idOf (made.normal format) = some identity ∧
          Durable.number (made.normal format) = some revision := by
  have hreadable' : made.readable format.finite = true := by
    rw [hmade]
    exact readable_insert (readable_insert (htexts.readable _) (readable_ofNat revision) _) rfl _
  have hplain : made.plain = true := by
    rw [hmade]
    exact plain_insert (plain_insert htexts.plain rfl (by decide)) rfl (by decide)
  have hdepth' : depthFields ((Fields.insert fields "revision" (.ofNat revision)).insert
      "transition_id" (.string identity)) ≤ 4 := by
    refine depthFields_insert (depthFields_insert (Nat.le_of_succ_le_succ htexts.depth) ?_ _) ?_ _
    · simp [Json.ofNat, depth]
    · simp [depth]
  obtain ⟨hid, hnumber, -⟩ := @Durable.made_transition fields identity revision htoken hbound
  subst hmade
  obtain ⟨rfl, -, hnormal, hlevels⟩ := decode_encoded hreadable'
    (hdepth'.trans (by decide)) hencoded hline
  have hkeys := (readable_object.mp hreadable').1
  refine ⟨hreadable', Nat.succ_le_succ hdepth', rfl,
    ⟨plain_normal _ hplain, ⟨_, rfl, hlevels⟩, hnormal, normal_normal _ hreadable', hline⟩, ?_, ?_⟩
  · rw [idOf_normal hkeys, hid]
  · exact get_asU64_normal hkeys hnumber

/-- The head of a commit as it is read back. -/
lemma fromValue_made {payload : Fields} {made : Json} {revision : ℕ} {identity : String}
    (hreadable : (Json.object payload).readable format.finite = true)
    (hmade : made.readable format.finite = true) (hobject : made.isObject = true)
    (hid : Durable.idOf (made.normal format) = some identity)
    (hnumber : Durable.number (made.normal format) = some revision)
    (hbound : revision < 2 ^ 64) (hpositive : 0 < revision) :
    let head := Fields.insert payload "_durability"
      (.object [("revision", .ofNat revision), ("last_transition", made)])
    (Json.object head).readable format.finite = true ∧
      Durable.Snapshot.fromValue ((Json.object head).normal format) =
        .ok ⟨.object (Fields.remove (sortKeys (normalFields format head)) "_durability"),
          revision, some (made.normal format)⟩ ∧
      ∀ key, key ≠ "_durability" →
        Fields.get (Fields.remove (sortKeys (normalFields format head)) "_durability") key =
          (Fields.get payload key).map (normal format) := by
  intro head
  have hmetadata : (Json.object [("revision", .ofNat revision), ("last_transition", made)]).readable
      format.finite = true := by
    simp [readable, readableFields, readable_ofNat, hmade]
  have hhead : (Json.object head).readable format.finite = true :=
    readable_insert hreadable hmetadata _
  have hget (key : String) : Fields.get (sortKeys (normalFields format head)) key =
      (Fields.get head key).map (normal format) := get_normal (readable_object.mp hhead).1 key
  have hkeys := (readable_object.mp hmetadata).1
  refine ⟨hhead, ?_, ?_⟩
  · refine @Durable.fromValue_of_get _ ((Json.object [("revision", .ofNat revision),
      ("last_transition", made)]).normal format) _ _ _ ?_ ?_ hpositive ?_ ?_ hnumber hid
    · rw [hget, Fields.get_insert_self]
      rfl
    · refine get_asU64_normal hkeys ?_
      simp [Fields.get_cons, Json.asU64_ofNat hbound]
    · rw [get_normal hkeys]
      simp [Fields.get_cons]
    · rw [isObject_normal, hobject]
  · intro key hkey
    rw [Fields.get_remove_of_ne hkey, hget, Fields.get_insert_of_ne hkey]

/-- A registry that a change may be made of. -/
structure Base (format : FloatFormat F) (base : Registry) : Prop where
  sound : base.Sound
  payload : ∃ fields, base.payload = .object fields ∧
    (Json.object fields).readable format.finite = true ∧ depthFields fields ≤ Reader.MAX_DEPTH

/-- The registry that was loaded: its document is the head without the metadata. -/
lemma Headed.base {bytes : Bytes} (h : Headed format sha256 bytes ts state registry) :
    Base format registry := by
  obtain ⟨⟨stored, hdecode, hread⟩, hregistry, -, -⟩ := h
  obtain ⟨hpayload, hsound⟩ := registry_eq_ok.mp hregistry
  obtain ⟨_, heq, hstored, hlevels⟩ := decode_object hdecode
  cases heq
  refine ⟨hsound, _, ?_, readable_remove hstored "_durability",
    depthFields_remove hlevels "_durability"⟩
  rw [hpayload]
  exact Durable.fromValue_value hread

lemma base_empty : Base format Registry.empty := by
  refine ⟨Registry.sound_empty, _, rfl, ?_, by decide⟩
  rfl

/-- **The head and the line of a change are read back**, as its transition and as the records that
it proposed. -/
theorem Headed.proposal {bytes : Bytes} (h : Headed format sha256 bytes ts state registry)
    (hts : found ++ missing.toList = ts) {base : Registry} (hbase : Base format base)
    {change : Commit} {records : List LifecycleRecord} (hproposes : base.Proposes change records)
    {expected : Option ℕ} {identity : String}
    {commit : Durable.Commit} {head line : Bytes}
    (hproposal : proposal (format.encoding sha256) ⟨state, registry, found, normalized, missing⟩
      change expected identity = .ok (commit, head, line))
    (hhead : head.length < 2 ^ 64) (hline : line.length < 2 ^ 64) :
    ∃ t state' registry', line = t.write ++ [10] ∧
      Headed format sha256 head (ts ++ [t]) state' registry' ∧ registry'.records = records ∧
        Durable.idOf t = some identity ∧ state'.revision = commit.revision ∧
          commit.revision = state.revision + 1 := by
  obtain ⟨-, -, hrecorded, hlines⟩ := h
  obtain ⟨hsound, stored, hvalue, hstored, hlevels⟩ := hbase
  obtain ⟨payload, hchange, hreadable, hdepth⟩ :=
    payload_readable hstored hlevels hvalue hproposes
  simp only [Projects.proposal, hts, bind_eq_ok, mapError_ok] at hproposal
  obtain ⟨commit', hcommit, head', hencoded, line', hencoded', heq⟩ := hproposal
  cases heq
  obtain ⟨-, htoken, hfresh, _, fields, hpayload', hevent, -, hrevision, hbound, hmade, hnext⟩ :=
    Durable.commit_eq_ok hcommit
  cases hchange.symm.trans hpayload'
  obtain ⟨_, hevent', htexts⟩ := hproposes.event
  cases hevent.symm.trans hevent'
  -- The transition, from its line.
  obtain ⟨hreadableT, hdepthT, rfl, hlineT, hid, hnumber⟩ :=
    line_made hmade htexts htoken hbound hencoded' hline
  have hobject : commit.transition.isObject = true := by
    rw [hmade]
    rfl
  -- The head.
  obtain ⟨hreadableH, hstate, hget⟩ := fromValue_made hreadable hreadableT hobject hid hnumber hbound
    (by omega)
  have hdepthH : depthFields (Fields.insert payload "_durability"
      (.object [("revision", .ofNat commit.revision), ("last_transition", commit.transition)])) ≤
        Reader.MAX_DEPTH := by
    refine depthFields_insert hdepth ?_ _
    have hmax : (6 : ℕ) ≤ Reader.MAX_DEPTH := by decide
    simp only [depth, depthFields, Json.ofNat]
    omega
  rw [hnext] at hencoded
  obtain ⟨-, hdecode', -, -⟩ := decode_encoded hreadableH hdepthH hencoded hhead
  -- The registry.
  obtain ⟨hreloads, -⟩ := Registry.change_reloads hsound hproposes
  have hrecords := hreloads.read
  rw [hchange] at hrecords
  have hsound' : (Registry.mk (.object (Fields.remove (sortKeys (normalFields format
      (Fields.insert payload "_durability" (.object [("revision", .ofNat commit.revision),
        ("last_transition", commit.transition)])))) "_durability")) records
      (records.map LifecycleRecord.projectFile)).Sound :=
    ⟨recordValues_of_get hreadable hget hrecords, rfl, hreloads.canonical, hreloads.apart⟩
  refine ⟨commit.transition.normal format, _, _, rfl,
    ⟨⟨_, hdecode', hstate⟩, registry_eq_ok.mpr ⟨rfl, hsound'⟩, ?_, ?_⟩, rfl, hid, rfl, hrevision⟩
  · refine hrecorded.append hid ?_ ?_ ⟨_, bytes_normal sha256 _ hlineT.readable⟩ rfl ?_
    · intro old hold hsame
      exact hfresh old hold (Durable.text_of_idOf hsame)
    · rw [hnumber, hrevision, hrecorded.revision]
    · rw [← hrecorded.revision]
      exact hrevision
  · intro t ht
    rcases List.mem_append.mp ht with ht | ht
    · exact hlines t ht
    · rw [List.mem_singleton.mp ht]
      exact hlineT

/-! ## A change -/

section Change

variable {base : Registry} {change : Commit} {records : List LifecycleRecord}
  {expected : Option ℕ} {identity : String} {writes : List Write}

/-- **A change is persisted, or not.** Where nothing stops it the files hold one transition more and
the registry that was proposed; wherever it stops they hold that, or what they held before. -/
theorem Holds.persists (h : Holds format sha256 files ts state registry)
    (hfound : Found format isEof ts files.events found normalized missing)
    (hbase : Base format base) (hproposes : base.Proposes change records)
    (hwrites : persistWrites (format.encoding sha256)
      ⟨state, registry, found, normalized, missing⟩ change expected identity = .ok writes)
    (hshort : ∀ write ∈ writes, write.bytes.length < 2 ^ 64) :
    ∃ t state' registry', registry'.records = records ∧ Durable.idOf t = some identity ∧
      persist (format.encoding sha256) format.finite isEof files
        ⟨state, registry, found, normalized, missing⟩ change expected identity =
          .ok (applyAll files writes) ∧
      Settled format sha256 (applyAll files writes) (ts ++ [t]) state' registry' ∧
      ∀ files', Stops files writes files' →
        Holds format sha256 files' ts state registry ∨
          Holds format sha256 files' (ts ++ [t]) state' registry' := by
  obtain ⟨⟨commit, head, line⟩, hproposal, hwrites⟩ := bind_eq_ok.mp hwrites
  obtain ⟨_, hrepairs, hwrites⟩ := bind_eq_ok.mp hwrites
  cases (hfound.repairWrites h.head.lines).symm.trans hrepairs
  cases hwrites
  have hhead : head.length < 2 ^ 64 := hshort (.replaceHead head) (by simp)
  have hline : line.length < 2 ^ 64 := hshort (.appendEvents line) (by simp)
  obtain ⟨t, state', registry', rfl, hnext, hrecords, hid, hrevision, hbefore⟩ :=
    h.head.proposal hfound.whole hbase hproposes hproposal hhead hline
  obtain ⟨hall, hstops⟩ := hfound.repaired h.journal
  have hdone : applyAll files (repairs normalized missing ++
      [.replaceHead head, .appendEvents (t.write ++ [10])]) = ⟨head, linesOf (ts ++ [t])⟩ := by
    rw [applyAll_append, hall, linesOf_append]
    rfl
  refine ⟨t, state', registry', hrecords, hid, ?_, ?_, ?_⟩
  · have hpublished : applyAll { files with events := linesOf ts }
        [.replaceHead head, .appendEvents (t.write ++ [10])] = ⟨head, linesOf (ts ++ [t])⟩ := by
      rw [linesOf_append]
      rfl
    have hload := @Settled.load _ _ _ isEof _ _ _ ⟨head, linesOf (ts ++ [t])⟩ ⟨hnext, rfl⟩
    simp only [persist, hproposal, ok_bind, h.repair hfound, hpublished, hload, hdone, reject,
      hbefore, hrevision, ne_eq, not_true_eq_false, or_self, if_false, Except.mapError]
  · rw [hdone]
    exact ⟨hnext, rfl⟩
  · intro files' hstop
    rcases stops_append hstop with hstop | hstop
    · obtain ⟨hsame, hleft⟩ := hstops files' hstop
      exact Or.inl ⟨hsame ▸ h.head, hleft⟩
    · rw [hall] at hstop
      rcases hstop with (rfl | rfl) | ⟨front, hfront, rfl⟩ | rfl
      · exact Or.inl ⟨h.head, Left.whole ts⟩
      · refine Or.inr ⟨hnext, ?_⟩
        have hnone := @Left.torn ts t [] List.nil_prefix
        rwa [List.append_nil] at hnone
      · exact Or.inr ⟨hnext, Left.torn hfront⟩
      · exact Or.inr ⟨hnext, Left.torn List.prefix_rfl⟩

end Change

/-! ## Every store that is reached -/

/-- No write is longer than a machine can hold. -/
def Short (writes : List Write) : Prop := ∀ write ∈ writes, write.bytes.length < 2 ^ 64

/-- The files of a new store are those of the empty registry. -/
lemma settled_created (h : created (format.encoding sha256) = .ok files) :
    ∃ state registry, Settled format sha256 files [] state registry := by
  obtain ⟨head, hencoded, h⟩ := bind_eq_ok.mp h
  cases h
  obtain ⟨-, fields, hpayload, hreadable, hdepth⟩ := @base_empty _ format
  rw [hpayload] at hencoded
  have hlength : head.length < 2 ^ 64 := by
    simp only [encoded, bytes_normal sha256 _ hreadable, Except.mapError, ok_bind,
      Except.ok.injEq] at hencoded
    rw [← hencoded, ← hpayload]
    have hone : normalNumber format "1" = "1" := by
      rw [normalNumber, if_neg (by decide), if_neg (by decide)]
    have hnormal : Registry.empty.payload.normal format =
        .object [("projects", .array []), ("schema_version", .number "1")] := by
      simp only [Registry.empty, normal, normalFields, normalItems, hone]
      decide
    rw [hnormal]
    decide
  obtain ⟨-, hdecode, -, -⟩ := decode_encoded hreadable hdepth hencoded hlength
  have hkeys := (readable_object.mp hreadable).1
  have hget (key : String) : Fields.get (sortKeys (normalFields format fields)) key =
      (Fields.get fields key).map (normal format) := get_normal hkeys key
  have hplain : Fields.get fields "_durability" = none := by
    cases hpayload
    rfl
  have hread : Durable.Snapshot.fromValue (.object (sortKeys (normalFields format fields))) =
      .ok ⟨.object (Fields.remove (sortKeys (normalFields format fields)) "_durability"), 0, none⟩ := by
    simp [Durable.Snapshot.fromValue, Json.asObject, Durable.required, hget, hplain]
  have hrecords : recordValues (.object fields) = .ok [] := by
    cases hpayload
    rfl
  have hsound : (Registry.mk (.object (Fields.remove (sortKeys (normalFields format fields))
      "_durability")) [] []).Sound := by
    refine ⟨recordValues_of_get hreadable ?_ hrecords, rfl, by simp, by simp⟩
    intro key hkey
    rw [Fields.get_remove_of_ne hkey, hget]
  refine ⟨_, _, ⟨⟨_, hdecode, hread⟩, registry_eq_ok.mpr ⟨rfl, hsound⟩, ?_, by simp⟩, rfl⟩
  exact ⟨rfl, ⟨by simp, by simp, by simp, by simp⟩, by simp, rfl, rfl⟩

lemma prepare_eq_ok {call : Call} {loaded loaded' : Loaded} {result : Json} {change : Option Commit}
    (hload : load (format.encoding sha256) format.finite isEof files = .ok loaded)
    (h : prepare (format.encoding sha256) format.finite isEof files call =
      .ok (loaded', result, change)) :
    loaded' = loaded ∧ plan loaded.registry call.operation call.now = .ok (result, change) := by
  unfold prepare at h
  rw [hload] at h
  simp only [ok_bind, bind_eq_ok, reject_eq_ok] at h
  obtain ⟨-, -, -, -, ⟨result', change'⟩, hplan, heq⟩ := h
  cases heq
  exact ⟨rfl, hplan⟩

/-- What a call leaves, where nothing stops it and where something does. -/
structure Leaves (format : FloatFormat F) (sha256 : Bytes → String) (files : Files)
    (ts : List Json) (state : Durable.Snapshot) (registry : Registry) (call : Call) (result : Json)
    (writes : List Write) (ts' : List Json) (state' : Durable.Snapshot) (registry' : Registry) :
    Prop where
  settled : Settled format sha256 (applyAll files writes) ts' state' registry'
  stops : ∀ files', Stops files writes files' → Holds format sha256 files' ts state registry ∨
    Holds format sha256 files' ts' state' registry'
  change : (plan registry call.operation call.now = .ok (result, none) ∧ ts' = ts ∧
      registry' = registry) ∨
    ∃ change t, plan registry call.operation call.now = .ok (result, some change) ∧
      registry.Proposes change registry'.records ∧ ts' = ts ++ [t] ∧
        Durable.idOf t = some call.identity

/-- **A call on files that hold a registry.** -/
theorem Holds.called (h : Holds format sha256 files ts state registry)
    (hEof : CutsAreEof format isEof) {call : Call} {writes : List Write}
    (hwrites : writesOf (format.encoding sha256) format.finite isEof files call = .ok writes)
    (hshort : Short writes) :
    ∃ result ts' state' registry',
      execute (format.encoding sha256) format.finite isEof files call =
        .ok (applyAll files writes, result) ∧
      Leaves format sha256 files ts state registry call result writes ts' state' registry' := by
  obtain ⟨found, normalized, missing, hfound⟩ := h.journal.found isEof hEof h.head.lines
  obtain ⟨⟨loaded, result, change⟩, hprepare, hwrites⟩ := bind_eq_ok.mp hwrites
  obtain ⟨rfl, hplan⟩ := prepare_eq_ok (h.load_found hfound) hprepare
  cases change with
  | none =>
      cases (hfound.repairWrites h.head.lines).symm.trans hwrites
      obtain ⟨hall, hstops⟩ := hfound.repaired h.journal
      refine ⟨result, ts, state, registry, ?_, ?_, ?_, Or.inl ⟨hplan, rfl, rfl⟩⟩
      · simp [execute, hprepare, h.repair hfound, hall]
      · rw [hall]
        exact ⟨h.head, rfl⟩
      · intro files' hstop
        obtain ⟨hsame, hleft⟩ := hstops files' hstop
        exact Or.inl ⟨hsame ▸ h.head, hleft⟩
  | some change =>
      obtain ⟨records, hproposes⟩ := plan_proposes h.head.base.sound hplan
      obtain ⟨t, state', registry', rfl, hid, hpersist, hsettled, hstops⟩ :=
        h.persists hfound h.head.base hproposes hwrites hshort
      refine ⟨result, ts ++ [t], state', registry', ?_, hsettled, hstops,
        Or.inr ⟨change, t, hplan, hproposes, rfl, hid⟩⟩
      simp [execute, hprepare, hpersist]

/-- The files that a store may have: those of a new one, and what is left of the writes of its seeds
and of its calls, any of which may stop anywhere. -/
inductive Reached (format : FloatFormat F) (sha256 : Bytes → String) (isEof : Bytes → Bool) :
    Files → Prop
  | created {files : Files} : Projects.created (format.encoding sha256) = .ok files →
      Reached format sha256 isEof files
  | seeded {files files' : Files} {seeds : List Seed} {now identity : String}
      {writes : List Write} : Projects.created (format.encoding sha256) = .ok files →
      initializeWrites (format.encoding sha256) format.finite isEof files seeds now identity =
        .ok writes → Short writes → Stops files writes files' → Reached format sha256 isEof files'
  | called {files files' : Files} {call : Call} {writes : List Write} :
      Reached format sha256 isEof files →
      writesOf (format.encoding sha256) format.finite isEof files call = .ok writes →
      Short writes → Stops files writes files' → Reached format sha256 isEof files'

/-- **Files that are reached hold a registry.** -/
theorem holds_of_reached (hEof : CutsAreEof format isEof) (h : Reached format sha256 isEof files) :
    ∃ ts state registry, Holds format sha256 files ts state registry := by
  induction h with
  | created hcreated =>
      obtain ⟨state, registry, hsettled⟩ := settled_created hcreated
      exact ⟨[], state, registry, hsettled.holds⟩
  | seeded hcreated hwrites hshort hstop =>
      obtain ⟨state, registry, hsettled⟩ := settled_created hcreated
      obtain ⟨change, hbootstrap, hwrites⟩ := bind_eq_ok.mp hwrites
      rw [hsettled.load, ok_bind] at hwrites
      cases hcommit : change.commit with
      | none =>
          rw [hcommit] at hwrites
          cases hwrites
          rw [show _ = _ from hstop]
          exact ⟨[], state, registry, hsettled.holds⟩
      | some commit =>
          rw [hcommit] at hwrites
          obtain ⟨records, hproposes⟩ :=
            bootstrap_proposes (mapError_ok.mp hbootstrap) hcommit
          obtain ⟨t, state', registry', -, -, -, -, hstops⟩ := hsettled.holds.persists
            (hsettled.events ▸ found_whole isEof (by simp)) base_empty hproposes
            hwrites hshort
          rcases hstops _ hstop with h | h
          · exact ⟨_, _, _, h⟩
          · exact ⟨_, _, _, h⟩
  | called _ hwrites hshort hstop ih =>
      obtain ⟨ts, state, registry, hholds⟩ := ih
      obtain ⟨result, ts', state', registry', -, hleaves⟩ := hholds.called hEof hwrites hshort
      rcases hleaves.stops _ hstop with h | h
      · exact ⟨_, _, _, h⟩
      · exact ⟨_, _, _, h⟩

/-! ## What a call does to what is loaded -/

/-- The transitions so far, with the one that the journal may lack. -/
def Loaded.history (loaded : Loaded) : List Json := loaded.events ++ loaded.missing.toList

def Kept (before after : Loaded) : Prop :=
  after.registry = before.registry ∧ after.history = before.history

/-- What the call planned was done, once, with its identity. -/
def Committed (call : Call) (before after : Loaded) : Prop :=
  ∃ result change t, plan before.registry call.operation call.now = .ok (result, some change) ∧
    before.registry.Proposes change after.registry.records ∧
      after.history = before.history ++ [t] ∧ Durable.idOf t = some call.identity

lemma Holds.loaded (h : Holds format sha256 files ts state registry)
    (hEof : CutsAreEof format isEof) : ∃ loaded,
      Projects.load (format.encoding sha256) format.finite isEof files = .ok loaded ∧
        loaded.state = state ∧ loaded.registry = registry ∧ loaded.history = ts := by
  obtain ⟨found, normalized, missing, hfound⟩ := h.journal.found isEof hEof h.head.lines
  exact ⟨_, h.load_found hfound, rfl, rfl, hfound.whole⟩

lemma cutsAreEof_sample : CutsAreEof Encoding.sampleFormat (fun _ => true) := by
  intro _ _ _ _ _ _ _ _ _
  rfl

lemma created_sample : ∃ files, created Durable.sampleEncoding = .ok files := by
  obtain ⟨-, fields, hpayload, hreadable, -⟩ := @base_empty _ Encoding.sampleFormat
  refine ⟨⟨((Json.object fields).normal Encoding.sampleFormat).write ++ [10], []⟩, ?_⟩
  simp [created, encoded, Durable.sampleEncoding, hpayload, bytes_normal _ _ hreadable,
    Except.mapError]

/-- Calls one after another. Each stops somewhere, or it is refused before it writes. -/
inductive Called (format : FloatFormat F) (sha256 : Bytes → String) (isEof : Bytes → Bool)
    (files : Files) : List Call → Files → Prop
  | none : Called format sha256 isEof files [] files
  | stopped {calls : List Call} {current files' : Files} {call : Call} {writes : List Write} :
      Called format sha256 isEof files calls current →
      writesOf (format.encoding sha256) format.finite isEof current call = .ok writes →
      Short writes → Stops current writes files' →
      Called format sha256 isEof files (calls ++ [call]) files'
  | refused {calls : List Call} {current : Files} {call : Call} {error : StoreError} :
      Called format sha256 isEof files calls current →
      writesOf (format.encoding sha256) format.finite isEof current call = .error error →
      Called format sha256 isEof files (calls ++ [call]) current

lemma Holds.calls (h : Holds format sha256 files ts state registry)
    (hEof : CutsAreEof format isEof) {calls : List Call}
    (hcalled : Called format sha256 isEof files calls files') :
    ∃ more state' registry', Holds format sha256 files' (ts ++ more) state' registry' ∧
      (more.map Durable.idOf).Sublist (calls.map fun call => some call.identity) := by
  induction hcalled with
  | none => exact ⟨[], state, registry, by simpa using h, by simp⟩
  | @stopped calls current files' call writes _ hwrites hshort hstop ih =>
      obtain ⟨more, middle, between, hholds, hmore⟩ := ih
      obtain ⟨result, ts', state', registry', -, hleaves⟩ := hholds.called hEof hwrites hshort
      have hkept : (more.map Durable.idOf).Sublist
          ((calls ++ [call]).map fun call => some call.identity) := by
        rw [List.map_append]
        exact hmore.trans (List.sublist_append_left _ _)
      rcases hleaves.stops files' hstop with hleft | hleft
      · exact ⟨more, middle, between, hleft, hkept⟩
      · rcases hleaves.change with ⟨-, rfl, -⟩ | ⟨change, t, -, -, rfl, hid⟩
        · exact ⟨more, state', registry', hleft, hkept⟩
        · refine ⟨more ++ [t], state', registry', by rwa [← List.append_assoc], ?_⟩
          rw [List.map_append, List.map_append]
          exact hmore.append (by simp [hid])
  | @refused calls current call error _ _ ih =>
      obtain ⟨more, state', registry', hholds, hmore⟩ := ih
      refine ⟨more, state', registry', hholds, ?_⟩
      rw [List.map_append]
      exact hmore.trans (List.sublist_append_left _ _)

end Files

end Projects

end ExperimentControl
