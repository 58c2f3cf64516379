import ExperimentControl.Cloud.Outbox

/-!
# The outbox keeps its effects marked

The durable state of the outbox operations, what each operation may answer and leave behind when its
process stops in it, and the invariant that all of them keep.

* `Ledger` — the slot files, with the effects that were sent and the saves that were made.
* `Guarded` — the invariant: effects were sent once behind their saved markers, and every save was a
  replacement.
* `prepare_wp`, **`execute_wp`**, **`reconcile_wp`**, **`stopSlot_wp`** — every operation keeps it.
-/

namespace ExperimentControl

namespace Cloud

/-! ## The durable state -/

/-- The slot files.  `effects` and `saves` only record what happened: the requests that change
something at the provider, each with the job it was sent for, and every replaced record with its
replacement. -/
structure Ledger where
  slots : String → Option Entry := fun _ => none
  effects : List (Job × Request) := []
  saves : List (String × Entry × Entry) := []

/-- A slot file gets its content, in one step. -/
def Ledger.put (s : Ledger) (slot : String) (entry : Entry) : Ledger :=
  { s with
    slots := Function.update s.slots slot (some entry)
    saves := match s.slots slot with
      | none => s.saves
      | some old => (slot, old, entry) :: s.saves }

/-- A request reaches the provider. -/
def Ledger.send (s : Ledger) (job : Job) (request : Request) : Ledger :=
  if request.mutates then { s with effects := (job, request) :: s.effects } else s

@[simp] lemma Ledger.send_slots (s : Ledger) (job : Job) (request : Request) :
    (s.send job request).slots = s.slots := by
  unfold Ledger.send
  split_ifs <;> rfl

@[simp] lemma Ledger.send_saves (s : Ledger) (job : Job) (request : Request) :
    (s.send job request).saves = s.saves := by
  unfold Ledger.send
  split_ifs <;> rfl

@[simp] lemma Ledger.put_effects (s : Ledger) (slot : String) (entry : Entry) :
    (s.put slot entry).effects = s.effects := rfl

@[simp] lemma Ledger.put_slots (s : Ledger) (slot : String) (entry : Entry) :
    (s.put slot entry).slots slot = some entry := by
  simp [Ledger.put]

lemma Ledger.put_slots_of_ne (s : Ledger) {slot other : String} (entry : Entry)
    (h : other ≠ slot) : (s.put slot entry).slots other = s.slots other := by
  simp [Ledger.put, h]

/-- The observation follows the recorded one. -/
def Follows (recorded : Option JobObservation) (observation : JobObservation) : Prop :=
  ∀ previous ∈ recorded, previous.state.allows observation.state

section System

variable {Row : Type} (permits : Option JobObservation → JobObservation → Prop)

/-- What an operation may answer and do.  A failed replacement may still have been made.  `permits`
restricts the runs that are considered by the observations that stops get. -/
def exec : Ledger → (op : Op) → Ans Row op → Ledger → Prop
  | s, .guard, _, t => t = s
  | s, .cancelled, _, t => t = s
  | s, .entryExists slot, a, t => t = s ∧ ∀ present, a = .ok present → present = (s.slots slot).isSome
  | s, .read slot, a, t => t = s ∧ ∀ entry, a = .ok entry → s.slots slot = some entry
  | s, .publishNew slot entry, a, t =>
      s.slots slot = none ∧ t = s.put slot entry ∨ t = s ∧ ∃ e, a = .error e
  | s, .replaceRegular slot entry, a, t => t = s.put slot entry ∨ t = s ∧ ∃ e, a = .error e
  | s, .request job request, _, t => t = s.send job request
  | s, .answered slot observation, _, t =>
      t = s ∧ ∀ entry, s.slots slot = some entry → permits entry.observation observation

/-- What an operation may leave behind when the process stops in it. -/
def torn : Ledger → Op → Ledger → Prop
  | s, .publishNew slot entry, t => s.slots slot = none ∧ t = s.put slot entry ∨ t = s
  | s, .replaceRegular slot entry, t => t = s.put slot entry ∨ t = s
  | s, .request job request, t => t = s.send job request ∨ t = s
  | s, _, t => t = s

def world : World Ledger Op (Ans Row) where
  exec := exec permits
  crash := torn

/-- The operations that may be started: on any job, through any profile that names slots alike. -/
inductive Started (slot : Job → Except Error String) : Prog Op (Ans Row) (Except Error View) → Prop
  | prepare (P : Provider Row) (hslot : P.slot = slot) (job : Job) (allocation : Allocation) :
      Started slot (prepare P job allocation).run
  | execute (P : Provider Row) (hslot : P.slot = slot) (job : Job) (allocation : Allocation)
      (confirmation : String) : Started slot (execute P job allocation confirmation).run
  | reconcile (P : Provider Row) (hslot : P.slot = slot) (job : Job) (allocation : Allocation) :
      Started slot (reconcile P job allocation).run
  | stop (P : Provider Row) (hslot : P.slot = slot) (job : Job) (allocation : Allocation)
      (confirmation : String) : Started slot (stopSlot P job allocation confirmation).run

end System

/-! ## The invariant -/

def Request.isCreate : Request → Bool
  | .create _ _ => true
  | _ => false

def Request.isStop : Request → Bool
  | .stop _ => true
  | _ => false

section Invariant

variable (slotOf : Job → Except Error String)

/-- The effect was sent for this slot. -/
def sentFor (kind : Request → Bool) (slot : String) (effect : Job × Request) : Bool :=
  kind effect.2 && (slotOf effect.1).toOption = some slot

/-- How often an effect of a kind was sent for a slot. -/
def sent (kind : Request → Bool) (s : Ledger) (slot : String) : ℕ :=
  s.effects.countP (sentFor slotOf kind slot)

/-- **A replacement of a record.**  Markers and the handle stay, and the observation either stays or
is one that follows the recorded one or was admitted. -/
structure Replaces (permits : Option JobObservation → JobObservation → Prop) (old new : Entry) :
    Prop where
  started : old.started → new.started
  cancellation : old.cancellationStarted → new.cancellationStarted
  handle : ∀ handle, old.handle = some handle → new.handle = some handle
  observation : new.observation = old.observation ∨
    ∃ o, new.observation = some o ∧ (Follows old.observation o ∨ permits old.observation o)

/-- Effects of a kind were sent at most once for a slot, and only behind their saved marker. -/
structure Once (kind : Request → Bool) (marker : Entry → Bool) (s : Ledger) : Prop where
  le : ∀ slot, sent slotOf kind s slot ≤ 1
  marked : ∀ slot, 0 < sent slotOf kind s slot →
    ∃ entry, s.slots slot = some entry ∧ marker entry

/-- **The invariant.**  Creates and stops were sent once behind their markers, and every save was a
replacement. -/
structure Guarded (permits : Option JobObservation → JobObservation → Prop) (s : Ledger) : Prop where
  create : Once slotOf Request.isCreate Entry.started s
  stop : Once slotOf Request.isStop Entry.cancellationStarted s
  saves : ∀ save ∈ s.saves, Replaces permits save.2.1 save.2.2

/-- What happens to a slot in a run: its markers and its handle stay. -/
def Later (s t : Ledger) : Prop :=
  ∀ slot entry, s.slots slot = some entry → ∃ entry', t.slots slot = some entry' ∧
    (entry.started → entry'.started) ∧
    (entry.cancellationStarted → entry'.cancellationStarted) ∧
    ∀ handle, entry.handle = some handle → entry'.handle = some handle

lemma Later.refl (s : Ledger) : Later s s :=
  fun _ entry h => ⟨entry, h, id, id, fun _ => id⟩

lemma Later.trans {s t u : Ledger} (hst : Later s t) (htu : Later t u) : Later s u := by
  intro slot entry h
  obtain ⟨entry', h', hstarted, hcancel, hhandle⟩ := hst slot entry h
  obtain ⟨entry'', h'', hstarted', hcancel', hhandle'⟩ := htu slot entry' h'
  exact ⟨entry'', h'', hstarted' ∘ hstarted, hcancel' ∘ hcancel,
    fun handle hh => hhandle' handle (hhandle handle hh)⟩

def contract (permits : Option JobObservation → JobObservation → Prop) : Contract Ledger where
  inv := Guarded slotOf permits
  rely := Later
  refl := Later.refl
  trans := Later.trans

end Invariant

/-! ## What the operations do to the invariant -/

section Preservation

variable {slotOf : Job → Except Error String}
  {permits : Option JobObservation → JobObservation → Prop} {s : Ledger} {slot : String}

lemma Ledger.put_slots_of_some {old entry : Entry} (hold : s.slots slot = some old)
    {other : String} {e : Entry} (he : s.slots other = some e) :
    (s.put slot entry).slots other = some entry ∧ e = old ∨
      (s.put slot entry).slots other = some e := by
  by_cases hother : other = slot
  · subst hother
    rw [hold, Option.some.injEq] at he
    exact .inl ⟨s.put_slots other entry, he.symm⟩
  · exact .inr ((s.put_slots_of_ne entry hother).trans he)

lemma Ledger.put_slots_of_none {entry : Entry} (hnone : s.slots slot = none) {other : String}
    {e : Entry} (he : s.slots other = some e) : (s.put slot entry).slots other = some e := by
  have hne : other ≠ slot := by
    rintro rfl
    rw [hnone] at he
    cases he
  rw [s.put_slots_of_ne entry hne, he]

/-- A replacement that keeps the marker keeps the effects marked. -/
lemma Once.replace {kind : Request → Bool} {marker : Entry → Bool} (h : Once slotOf kind marker s)
    {old entry : Entry} (hold : s.slots slot = some old) (hkeep : marker old → marker entry) :
    Once slotOf kind marker (s.put slot entry) := by
  refine ⟨h.le, fun other hsent => ?_⟩
  obtain ⟨e, he, hmarker⟩ := h.marked other hsent
  rcases Ledger.put_slots_of_some hold he with ⟨hput, rfl⟩ | hput
  · exact ⟨entry, hput, hkeep hmarker⟩
  · exact ⟨e, hput, hmarker⟩

/-- No effect was sent for a slot without a record. -/
lemma Once.publish {kind : Request → Bool} {marker : Entry → Bool} (h : Once slotOf kind marker s)
    (hnone : s.slots slot = none) (entry : Entry) :
    Once slotOf kind marker (s.put slot entry) := by
  refine ⟨h.le, fun other hsent => ?_⟩
  obtain ⟨e, he, hmarker⟩ := h.marked other hsent
  exact ⟨e, Ledger.put_slots_of_none hnone he, hmarker⟩

lemma sent_send (kind : Request → Bool) (s : Ledger) (job : Job) {request : Request}
    (hmutates : request.mutates) (slot : String) :
    sent slotOf kind (s.send job request) slot =
      sent slotOf kind s slot + if sentFor slotOf kind slot (job, request) then 1 else 0 := by
  simp only [sent, Ledger.send, hmutates, if_true, List.countP_cons]

/-- An effect of another kind does not count. -/
lemma Once.sendOther {kind : Request → Bool} {marker : Entry → Bool}
    (h : Once slotOf kind marker s) (job : Job) {request : Request} (hmutates : request.mutates)
    (hkind : kind request = false) : Once slotOf kind marker (s.send job request) := by
  have hsame : ∀ other, sent slotOf kind (s.send job request) other = sent slotOf kind s other := by
    intro other
    rw [sent_send kind s job hmutates]
    simp [sentFor, hkind]
  refine ⟨fun other => ?_, fun other hsent => ?_⟩
  · rw [hsame]
    exact h.le other
  · rw [hsame] at hsent
    rw [Ledger.send_slots]
    exact h.marked other hsent

/-- **An effect behind its saved marker** is the first one of its slot. -/
lemma Once.sendMarked {kind : Request → Bool} {marker : Entry → Bool}
    (h : Once slotOf kind marker s) {job : Job} {request : Request} (hmutates : request.mutates)
    (hkind : kind request = true) {entry : Entry} (hslot : slotOf job = .ok slot)
    (hentry : s.slots slot = some entry) (hmarker : marker entry)
    (hnone : sent slotOf kind s slot = 0) : Once slotOf kind marker (s.send job request) := by
  have hcount : ∀ other, sent slotOf kind (s.send job request) other =
      sent slotOf kind s other + if other = slot then 1 else 0 := by
    intro other
    rw [sent_send kind s job hmutates]
    simp [sentFor, hkind, hslot, Except.toOption, eq_comm]
  refine ⟨fun other => ?_, fun other hsent => ?_⟩
  · rw [hcount]
    split_ifs with hother
    · rw [hother, hnone]
    · exact h.le other
  · rw [Ledger.send_slots]
    by_cases hother : other = slot
    · exact ⟨entry, hother ▸ hentry, hmarker⟩
    · rw [hcount, if_neg hother] at hsent
      exact h.marked other hsent

/-- **A replacement keeps the invariant.** -/
lemma Guarded.replace (h : Guarded slotOf permits s) {old entry : Entry}
    (hold : s.slots slot = some old) (hrep : Replaces permits old entry) :
    Guarded slotOf permits (s.put slot entry) ∧ Later s (s.put slot entry) := by
  refine ⟨⟨h.create.replace hold hrep.started, h.stop.replace hold hrep.cancellation, ?_⟩, ?_⟩
  · intro save hsave
    simp only [Ledger.put, hold, List.mem_cons] at hsave
    rcases hsave with rfl | hsave
    · exact hrep
    · exact h.saves save hsave
  · intro other e he
    rcases Ledger.put_slots_of_some hold he with ⟨hput, rfl⟩ | hput
    · exact ⟨entry, hput, hrep.started, hrep.cancellation, hrep.handle⟩
    · exact ⟨e, hput, id, id, fun _ => id⟩

/-- A new record keeps the invariant. -/
lemma Guarded.publish (h : Guarded slotOf permits s) (hnone : s.slots slot = none) (entry : Entry) :
    Guarded slotOf permits (s.put slot entry) ∧ Later s (s.put slot entry) := by
  refine ⟨⟨h.create.publish hnone entry, h.stop.publish hnone entry, ?_⟩, ?_⟩
  · simpa only [Ledger.put, hnone] using h.saves
  · exact fun other e he => ⟨e, Ledger.put_slots_of_none hnone he, id, id, fun _ => id⟩

lemma Later.send (s : Ledger) (job : Job) (request : Request) : Later s (s.send job request) :=
  fun other e he => ⟨e, by rw [Ledger.send_slots, he], id, id, fun _ => id⟩

/-- **The first create of a slot keeps the invariant.** -/
lemma Guarded.sendCreate (h : Guarded slotOf permits s) {job : Job} (allocation : Allocation)
    {entry : Entry} (hslot : slotOf job = .ok slot) (hentry : s.slots slot = some entry)
    (hstarted : entry.started) (hnone : sent slotOf Request.isCreate s slot = 0) :
    Guarded slotOf permits (s.send job (.create job allocation)) where
  create := h.create.sendMarked rfl rfl hslot hentry hstarted hnone
  stop := h.stop.sendOther job rfl rfl
  saves := by
    rw [Ledger.send_saves]
    exact h.saves

/-- **The first stop of a slot keeps the invariant.** -/
lemma Guarded.sendStop (h : Guarded slotOf permits s) {job : Job} (id : String) {entry : Entry}
    (hslot : slotOf job = .ok slot) (hentry : s.slots slot = some entry)
    (hstarted : entry.cancellationStarted) (hnone : sent slotOf Request.isStop s slot = 0) :
    Guarded slotOf permits (s.send job (.stop id)) where
  create := h.create.sendOther job rfl rfl
  stop := h.stop.sendMarked rfl rfl hslot hentry hstarted hnone
  saves := by
    rw [Ledger.send_saves]
    exact h.saves

end Preservation

/-! ## The operations keep the invariant -/

section Operations

variable {Row : Type} {P : Provider Row} {permits : Option JobObservation → JobObservation → Prop}

/-- An operation that is no effect and no save only reads. -/
lemma readOnly_request (job : Job) {request : Request} (h : request.mutates = false) :
    (world permits : World Ledger Op (Ans Row)).ReadOnly (.request job request) := by
  have hsend : ∀ s : Ledger, s.send job request = s := fun s => by simp [Ledger.send, h]
  refine ⟨fun {s u} hu => ?_, fun {s a u} hu => ?_⟩
  · rcases hu with rfl | rfl
    · exact hsend s
    · rfl
  · exact hu.trans (hsend s)

lemma reads_guard : (guard : Eff Row Unit).Reads (world permits) :=
  Act.Reads.attempt ⟨id, id⟩ _

lemma reads_cancelled : (cancelled : Eff Row Bool).Reads (world permits) :=
  ⟨⟨id, id⟩, fun _ => trivial⟩

lemma reads_entryExists (slot : String) :
    (Act.attempt (.entryExists slot) id : Eff Row Bool).Reads (world permits) := by
  have hread : (world permits : World Ledger Op (Ans Row)).ReadOnly (.entryExists slot) :=
    ⟨id, fun h => h.1⟩
  exact Act.Reads.attempt hread _

lemma reads_answered (slot : String) (observation : JobObservation) :
    (answered slot observation : Eff Row Unit).Reads (world permits) :=
  ⟨⟨id, fun h => h.1⟩, fun _ => trivial⟩

lemma reads_call (job : Job) {request : Request} (h : request.mutates = false) :
    (call P job request).Reads (world permits) :=
  Act.Reads.bind (Act.Reads.lift _) fun _ => Act.Reads.attempt (readOnly_request job h) _

lemma reads_uncertainly {α : Type} {x : Eff Row α} (hx : x.Reads (world permits)) :
    (uncertainly x).Reads (world permits) :=
  Act.Reads.bind hx.outcome fun _ => Act.Reads.lift _

lemma reads_observeQueue (job : Job) (handle : Handle) (observation : JobObservation) :
    (observeQueue P job handle observation).Reads (world permits) := by
  refine Act.Reads.bind (reads_call job rfl).outcome ?_
  rintro (e | queue)
  · exact Act.Reads.pure _
  · dsimp only
    cases P.validateQueue queue handle.jobId with
    | error e => exact Act.Reads.pure _
    | ok diagnostic => exact Act.Reads.pure _

lemma reads_observe (job : Job) (handle : Handle) :
    (observe P job handle).Reads (world permits) := by
  refine Act.Reads.bind (Act.Reads.lift _) fun _ => Act.Reads.bind (reads_call job rfl) fun row => ?_
  refine Act.Reads.bind (Act.Reads.lift _) fun observation => ?_
  split_ifs
  · exact reads_observeQueue job handle observation
  · exact Act.Reads.pure _

lemma reads_findPages (job : Job) :
    ∀ (fuel token : ℕ) (tokens : List ℕ) (finding : Finding),
      (findPages P job fuel token tokens finding).Reads (world permits)
  | 0, _, _, _ => Act.Reads.lift _
  | fuel + 1, token, tokens, finding => by
      refine Act.Reads.bind (Act.Reads.lift _) fun _ => Act.Reads.bind (reads_call job rfl)
        fun value => Act.Reads.bind (Act.Reads.lift _) fun page =>
        Act.Reads.bind (Act.Reads.lift _) fun _ => Act.Reads.bind (Act.Reads.lift _) fun found => ?_
      cases page.next with
      | some next => exact reads_findPages job fuel next _ _
      | none => exact Act.Reads.bind (Act.Reads.lift _) fun _ => Act.Reads.pure _

lemma reads_findAndObserve (job : Job) : (findAndObserve P job).Reads (world permits) := by
  refine Act.Reads.bind (reads_findPages job 100 1 [] {}) ?_
  rintro (_ | handle)
  · exact Act.Reads.pure _
  · exact Act.Reads.bind (reads_observe job handle) fun _ => Act.Reads.pure _

variable {α : Type} {post : Except Error α → Bool → Ledger → Prop} {s : Ledger} {slot : String}

/-- What a loaded record satisfies. -/
structure Valid (P : Provider Row) (slot : String) (entry : Entry) : Prop where
  own : P.slot entry.job = .ok slot
  handle : entry.handle.isSome → entry.started
  cancellation : entry.cancellationStarted → entry.handle.isSome

lemma validateEntry_ok {entry : Entry} {u : Unit} (h : validateEntry P slot entry = .ok u) :
    Valid P slot entry := by
  obtain ⟨_, _, h⟩ := bind_eq_ok.mp h
  obtain ⟨own, hown, h⟩ := bind_eq_ok.mp h
  obtain ⟨_, hsame, h⟩ := bind_eq_ok.mp h
  obtain ⟨digest, _, h⟩ := bind_eq_ok.mp h
  rw [reject_eq_ok, not_not] at hsame
  rw [reject_eq_ok] at h
  push Not at h
  refine ⟨hsame ▸ hown, h.2.1, fun hc => ?_⟩
  simpa [Option.isSome_iff_ne_none] using h.2.2.1 hc

/-- **Loading a record**: it is the record of the slot, and it is valid. -/
lemma wp_load_bind {f : Entry → Eff Row α} (hinv : Guarded P.slot permits s)
    (hok : ∀ entry, s.slots slot = some entry → Valid P slot entry →
      wp (world permits) (contract P.slot permits) post (f entry).run true s)
    (herr : ∀ e, post (.error e) true s) :
    wp (world permits) (contract P.slot permits) post (load P slot >>= f).run true s := by
  have hread : (world permits : World Ledger Op (Ans Row)).ReadOnly (.read slot) :=
    ⟨id, fun h => h.1⟩
  refine wp_act_bind hinv (wp_act_bind hinv (wp_attempt_read_held hread hinv ?_))
  rintro (e | entry) hexec
  · exact fun _ => wp_done_held.mpr fun _ => wp_done_held.mpr (herr e)
  · intro _
    refine wp_lift_bind_held hinv (fun _ hvalid => ?_) (fun e _ _ => wp_done_held.mpr (herr e))
    exact wp_pure_held fun _ => hok entry (hexec.2 entry rfl) (validateEntry_ok hvalid)

/-- **Saving a record** replaces the one of its slot, or fails with or without having done so. -/
lemma wp_save_bind {f : Unit → Eff Row α} {old entry : Entry} (hinv : Guarded P.slot permits s)
    (hslot : P.slot entry.job = .ok slot) (hold : s.slots slot = some old)
    (hrep : Replaces permits old entry)
    (hok : Guarded P.slot permits (s.put slot entry) →
      wp (world permits) (contract P.slot permits) post (f ()).run true (s.put slot entry))
    (herr : ∀ e t, post (.error e) true t) :
    wp (world permits) (contract P.slot permits) post (save P entry >>= f).run true s := by
  have hput := hinv.replace hold hrep
  refine wp_act_bind hinv (wp_lift_bind_held hinv (fun own hown => ?_)
    (fun e _ _ => wp_done_held.mpr (herr e s)))
  obtain rfl : slot = own := Except.ok.inj (hslot.symm.trans hown)
  refine wp_attempt_held ?_ ?_
  · rintro u (rfl | rfl)
    · exact hput
    · exact ⟨hinv, Later.refl _⟩
  · rintro a u (rfl | ⟨rfl, e, rfl⟩)
    · refine ⟨hput, ?_⟩
      cases a with
      | error e => exact fun _ => wp_done_held.mpr (herr _ _)
      | ok a => exact hok
    · exact ⟨⟨hinv, Later.refl _⟩, fun _ => wp_done_held.mpr (herr _ _)⟩

/-- **An effect, then only reading**: the request was sent, or was not even compiled. -/
lemma wp_effect_bind {β : Type} {post : Except Error β → Bool → Ledger → Prop} {job : Job}
    {request : Request} {f : Row → Eff Row β} (hinv : Guarded P.slot permits s)
    (hsend : Guarded P.slot permits (s.send job request)) (hf : ∀ row, (f row).Reads (world permits))
    (h : ∀ r t, t = s ∨ t = s.send job request → post r true t) :
    wp (world permits) (contract P.slot permits) post (call P job request >>= f).run true s := by
  refine wp_act_bind hinv (wp_lift_bind_held hinv (fun _ _ => ?_)
    (fun e _ _ => wp_done_held.mpr (h _ s (.inl rfl))))
  refine wp_attempt_held ?_ ?_
  · rintro u (rfl | rfl)
    · exact ⟨hsend, Later.send s job request⟩
    · exact ⟨hinv, Later.refl _⟩
  · rintro a u rfl
    refine ⟨⟨hsend, Later.send s job request⟩, ?_⟩
    cases a with
    | error e => exact fun _ => wp_done_held.mpr (h _ _ (.inr rfl))
    | ok row => exact fun _ => wp_reads_held hsend (hf row) fun r => h r _ (.inr rfl)

/-- Sending the create of a slot, whatever comes of it. -/
lemma wp_create {post : Except Error Handle → Bool → Ledger → Prop} {job : Job}
    {allocation : Allocation} (hinv : Guarded P.slot permits s)
    (hsend : Guarded P.slot permits (s.send job (.create job allocation)))
    (h : ∀ r t, t = s ∨ t = s.send job (.create job allocation) → post r true t) :
    wp (world permits) (contract P.slot permits) post (create P job allocation).run true s := by
  refine wp_effect_bind hinv hsend (fun row => ?_) h
  cases (P.createdId row).filter P.component with
  | none => exact Act.Reads.lift _
  | some id =>
    refine Act.Reads.bind (reads_uncertainly (reads_call job rfl)) fun row => ?_
    exact Act.Reads.bind (Act.Reads.lift _) fun handle =>
      Act.Reads.bind (Act.Reads.lift _) fun _ => Act.Reads.pure _

/-- Sending the stop of a slot, whatever comes of it.  The job is observed first, and a terminal one
is not stopped. -/
lemma wp_stop {post : Except Error JobObservation → Bool → Ledger → Prop} {job : Job}
    {handle : Handle} (hinv : Guarded P.slot permits s)
    (hsend : Guarded P.slot permits (s.send job (.stop handle.jobId)))
    (h : ∀ r t, t = s ∨ t = s.send job (.stop handle.jobId) → post r true t) :
    wp (world permits) (contract P.slot permits) post (stop P job handle).run true s := by
  refine wp_reads_bind_held (reads_observe job handle) hinv (fun observation => ?_)
    (fun e => h _ s (.inl rfl))
  split_ifs
  · exact wp_pure_held (h _ s (.inl rfl))
  · exact wp_effect_bind hinv hsend (fun _ => reads_uncertainly (reads_observe job handle)) h

/-- The marker is not set, so no effect was sent. -/
lemma Once.none {slotOf : Job → Except Error String} {kind : Request → Bool}
    {marker : Entry → Bool} (h : Once slotOf kind marker s) {entry : Entry}
    (hentry : s.slots slot = some entry) (hmarker : marker entry = false) :
    sent slotOf kind s slot = 0 := by
  by_contra hne
  obtain ⟨e, he, hset⟩ := h.marked slot (Nat.pos_of_ne_zero hne)
  rw [hentry, Option.some.injEq] at he
  subst he
  rw [hmarker] at hset
  cases hset

theorem prepare_wp (hinv : Guarded P.slot permits s) (job : Job) (allocation : Allocation) :
    wp (world permits) (contract P.slot permits) (fun _ _ _ => True)
      (prepare P job allocation).run false s := by
  refine wp_reads_bind_free reads_guard hinv (fun _ t _ hinvt => ?_) fun _ _ _ _ => trivial
  refine wp_lock_bind hinvt (fun s _ hinv => ?_) fun _ _ _ => trivial
  refine wp_lift_bind_held hinv (fun _ _ => ?_) fun _ _ => trivial
  refine wp_lift_bind_held hinv (fun _ _ => ?_) fun _ _ => trivial
  refine wp_lift_bind_held hinv (fun slot hslot => ?_) fun _ _ => trivial
  refine wp_reads_bind_held (reads_entryExists slot) hinv (fun found => ?_) fun _ => trivial
  split_ifs
  · refine wp_load_bind hinv (fun entry _ _ => ?_) fun _ => trivial
    refine wp_lift_bind_held hinv (fun _ _ => ?_) fun _ _ => trivial
    refine wp_lift_bind_held hinv (fun _ _ => ?_) fun _ _ => trivial
    exact wp_reads_bind_held reads_guard hinv (fun _ => wp_lift_held trivial) fun _ => trivial
  · refine wp_lift_bind_held hinv (fun _ _ => ?_) fun _ _ => trivial
    refine wp_lift_bind_held hinv (fun _ _ => ?_) fun _ _ => trivial
    refine wp_reads_bind_held reads_guard hinv (fun _ => ?_) fun _ => trivial
    refine wp_act_bind hinv (wp_attempt_held ?_ ?_)
    · rintro u (⟨hnone, rfl⟩ | rfl)
      · exact hinv.publish hnone _
      · exact ⟨hinv, Later.refl _⟩
    · intro a u hu
      have hsound : Guarded P.slot permits u ∧ Later s u := by
        rcases hu with ⟨hnone, rfl⟩ | ⟨rfl, _⟩
        · exact hinv.publish hnone _
        · exact ⟨hinv, Later.refl _⟩
      refine ⟨hsound, ?_⟩
      cases a with
      | error e => exact fun _ => wp_done_held.mpr trivial
      | ok _ =>
        exact fun _ => wp_reads_bind_held reads_guard hsound.1 (fun _ => wp_lift_held trivial)
          fun _ => trivial

/-- Saving the record of an operation is its last effect. -/
lemma wp_save_view {t : Ledger} {old entry : Entry} (hinv : Guarded P.slot permits t)
    (hslot : P.slot entry.job = .ok slot) (hold : t.slots slot = some old)
    (hrep : Replaces permits old entry) :
    wp (world permits) (contract P.slot permits) (fun _ _ _ => True)
      (do save P entry; Act.lift (view P entry) : Eff Row View).run true t :=
  wp_save_bind hinv hslot hold hrep (fun _ => wp_lift_held trivial) fun _ _ => trivial

/-- The result of a create is recorded in a record without a handle. -/
lemma Replaces.created {entry : Entry} (hnone : entry.handle = none)
    (result : Except Error Handle) : Replaces permits entry (entry.created result) := by
  cases result with
  | error e => exact ⟨id, id, fun _ => id, .inl rfl⟩
  | ok handle => exact ⟨id, id, fun h hh => by simp [hnone] at hh, .inl rfl⟩

/-- **`execute` keeps the invariant.**  The create is sent once the marker is saved, and the marker
was not set before, so no create was sent before. -/
theorem execute_wp (hinv : Guarded P.slot permits s) (job : Job) (allocation : Allocation)
    (confirmation : String) :
    wp (world permits) (contract P.slot permits) (fun _ _ _ => True)
      (execute P job allocation confirmation).run false s := by
  refine wp_reads_bind_free reads_guard hinv (fun _ t _ hinvt => ?_) fun _ _ _ _ => trivial
  refine wp_lock_bind hinvt (fun s _ hinv => ?_) fun _ _ _ => trivial
  refine wp_lift_bind_held hinv (fun slot hslot => ?_) fun _ _ => trivial
  refine wp_load_bind hinv (fun entry hentry hvalid => ?_) fun _ => trivial
  refine wp_lift_bind_held hinv (fun _ _ => ?_) fun _ _ => trivial
  refine wp_lift_bind_held hinv (fun _ _ => ?_) fun _ _ => trivial
  split_ifs with hstarted
  · exact wp_lift_held trivial
  · refine wp_reads_bind_held reads_cancelled hinv (fun _ => ?_) fun _ => trivial
    refine wp_lift_bind_held hinv (fun _ _ => ?_) fun _ _ => trivial
    refine wp_reads_bind_held reads_guard hinv (fun _ => ?_) fun _ => trivial
    have hnone := hinv.create.none hentry (by simpa using hstarted)
    have hhandle : entry.handle = none := by
      by_contra hsome
      exact hstarted (hvalid.handle (Option.isSome_iff_ne_none.mpr hsome))
    generalize hm : { entry with started := true } = marked
    have hmark : Replaces permits entry marked :=
      hm ▸ ⟨fun _ => rfl, id, fun _ => id, .inl rfl⟩
    have hown : P.slot marked.job = .ok slot := hm ▸ hvalid.own
    refine wp_save_bind hinv hown hentry hmark (fun hinv₁ => ?_) fun _ _ => trivial
    have hmarked := s.put_slots slot marked
    have hsend := hinv₁.sendCreate allocation hslot hmarked (hm ▸ rfl) hnone
    -- after the effect the record is still the marked one
    have hrest : ∀ (r : Except Error Handle) (t : Ledger),
        t = s.put slot marked ∨ t = (s.put slot marked).send job (.create job allocation) →
        wp (world permits) (contract P.slot permits) (fun _ _ _ => True)
          (do save P (marked.created r); Act.lift (view P (marked.created r)) :
            Eff Row View).run true t := by
      intro r t ht
      have hown' : P.slot (marked.created r).job = .ok slot := by
        cases r <;> exact hown
      have hrep : Replaces permits marked (marked.created r) :=
        .created (show marked.handle = none from hm ▸ hhandle) r
      rcases ht with rfl | rfl
      · exact wp_save_view hinv₁ hown' hmarked hrep
      · exact wp_save_view hsend hown' (by rw [Ledger.send_slots, hmarked]) hrep
    refine wp_act_bind hinv₁ (wp_outcome hinv₁ ?_)
    refine wp_reads_bind_held reads_guard hinv₁ (fun _ => ?_) fun e u hu => ?_
    · refine wp_create hinv₁ hsend fun r t ht u hu => ?_
      obtain rfl : u = t := hu
      exact fun _ => hrest r u ht
    · obtain rfl : u = _ := hu
      exact fun _ => hrest _ _ (.inl rfl)

/-- The result of a reconciliation is a replacement: its handle is the recorded one or the first
one, and its observation follows the recorded one. -/
lemma Replaces.observed {entry new : Entry} {handle : Option Handle}
    {observation : Option JobObservation} (hkeep : ∀ h, entry.handle = some h → handle = some h)
    (h : entry.observed handle observation = .ok new) :
    Replaces permits entry new ∧ new.job = entry.job := by
  cases observation with
  | none =>
    cases h
    exact ⟨⟨id, id, hkeep, .inl rfl⟩, rfl⟩
  | some observation =>
    obtain ⟨_, hfollows, h⟩ := bind_eq_ok.mp h
    cases h
    refine ⟨⟨id, id, hkeep, .inr ⟨observation, rfl, .inl ?_⟩⟩, rfl⟩
    intro previous hprevious
    rw [reject_eq_ok, Option.mem_def.mp hprevious] at hfollows
    simpa using hfollows

/-- The end of a reconciliation. -/
lemma wp_commit {entry : Entry} {outcome : Except Error (Option Handle × Option JobObservation)}
    (hinv : Guarded P.slot permits s) (hentry : s.slots slot = some entry)
    (hown : P.slot entry.job = .ok slot)
    (hkeep : ∀ r, outcome = .ok r → ∀ h, entry.handle = some h → r.1 = some h) :
    wp (world permits) (contract P.slot permits) (fun _ _ _ => True)
      (commit P entry outcome).run true s := by
  rcases outcome with e | ⟨handle, observation⟩
  · exact wp_save_view hinv hown hentry ⟨id, id, fun _ => id, .inl rfl⟩
  · refine wp_reads_bind_held reads_guard hinv (fun _ => ?_) fun _ => trivial
    refine wp_lift_bind_held hinv (fun new hnew => ?_) fun _ _ => trivial
    obtain ⟨hrep, hjob⟩ := Replaces.observed (hkeep _ rfl) hnew
    exact wp_save_view hinv (hjob ▸ hown) hentry hrep

/-- **`reconcile` keeps the invariant.**  It sends nothing that changes the provider, and what it
saves replaces the record it has read under the same lock. -/
theorem reconcile_wp (hinv : Guarded P.slot permits s) (job : Job) (allocation : Allocation) :
    wp (world permits) (contract P.slot permits) (fun _ _ _ => True)
      (reconcile P job allocation).run false s := by
  refine wp_reads_bind_free reads_guard hinv (fun _ t _ hinvt => ?_) fun _ _ _ _ => trivial
  refine wp_reads_bind_free (Act.Reads.lift _) hinvt (fun slot t _ hinvt => ?_)
    fun _ _ _ _ => trivial
  refine wp_lock_bind hinvt (fun s _ hinv => ?_) fun _ _ _ => trivial
  refine wp_load_bind hinv (fun entry hentry hvalid => ?_) fun _ => trivial
  refine wp_lift_bind_held hinv (fun _ _ => ?_) fun _ _ => trivial
  split_ifs with hstarted
  · split
    · rename_i handle hhandle
      refine wp_unlock_bind hinv fun t _ hinvt => ?_
      refine wp_reads_bind_free (reads_observe job handle).outcome hinvt
        (fun observed t _ hinvt => ?_) fun _ _ _ _ => trivial
      refine wp_lock_bind hinvt (fun s _ hinv => ?_) fun _ _ _ => trivial
      refine wp_load_bind hinv (fun current hcurrent hvalid => ?_) fun _ => trivial
      refine wp_lift_bind_held hinv (fun _ _ => ?_) fun _ _ => trivial
      split_ifs with hchanged
      · exact wp_lift_held trivial
      · -- the record is still the one whose handle was observed
        have hsame : current = entry := not_not.mp hchanged
        refine wp_commit hinv hcurrent hvalid.own fun r hr h hh => ?_
        rw [hsame, hhandle] at hh
        cases observed with
        | error e => cases hr
        | ok o =>
          cases hr
          exact hh
    · rename_i hhandle
      refine wp_reads_bind_held (reads_findAndObserve job).outcome hinv (fun outcome => ?_)
        fun _ => trivial
      exact wp_commit hinv hentry hvalid.own fun r _ h hh => by simp [hhandle] at hh
  · exact wp_lift_held trivial

/-- The answer of a stop: the record is the marked one when the answer is admitted. -/
lemma wp_stopAnswer {post : Except Error JobObservation → Bool → Ledger → Prop} {job : Job}
    {handle : Handle} {marked : Entry} (hinv : Guarded P.slot permits s)
    (hsend : Guarded P.slot permits (s.send job (.stop handle.jobId)))
    (hmarked : s.slots slot = some marked)
    (h : ∀ r t, t = s ∨ t = s.send job (.stop handle.jobId) →
      (∀ o, r = .ok o → permits marked.observation o) → post r true t) :
    wp (world permits) (contract P.slot permits) post (stopAnswer P job slot handle).run true s := by
  refine wp_reads_bind_held reads_guard hinv (fun _ => ?_)
    fun e => h _ s (.inl rfl) fun _ ho => by cases ho
  refine wp_act_bind hinv (wp_stop hinv hsend ?_)
  rintro (e | observation) t ht
  · exact fun _ => wp_done_held.mpr (h _ t ht fun _ ho => by cases ho)
  · intro hinvt
    have hslot : t.slots slot = some marked := by
      rcases ht with rfl | rfl
      · exact hmarked
      · rw [Ledger.send_slots, hmarked]
    refine wp_act_bind hinvt (wp_call_held.mpr ⟨fun u hu => ?_, fun a u hu => ?_⟩)
    · rw [show u = t from hu]
      exact ⟨hinvt, Later.refl t⟩
    · obtain ⟨rfl, hadmit⟩ := hu
      refine ⟨⟨hinvt, Later.refl _⟩, wp_done_held.mpr fun _ => wp_pure_held (h _ _ ht ?_)⟩
      rintro o ho
      cases ho
      exact hadmit marked hslot

/-- The result of a stop is a replacement when its observation was admitted. -/
lemma Replaces.stopped {entry : Entry} {result : Except Error JobObservation}
    (h : ∀ o, result = .ok o → permits entry.observation o) :
    Replaces permits entry (entry.stopped result) := by
  cases result with
  | error e => exact ⟨id, id, fun _ => id, .inl rfl⟩
  | ok o => exact ⟨id, id, fun _ => id, .inr ⟨o, rfl, .inr (h o rfl)⟩⟩

/-- **`stop` keeps the invariant.**  The stop is sent once the marker of the stop intent is saved,
and the marker was not set before. -/
theorem stopSlot_wp (hinv : Guarded P.slot permits s) (job : Job) (allocation : Allocation)
    (confirmation : String) :
    wp (world permits) (contract P.slot permits) (fun _ _ _ => True)
      (stopSlot P job allocation confirmation).run false s := by
  refine wp_reads_bind_free reads_guard hinv (fun _ t _ hinvt => ?_) fun _ _ _ _ => trivial
  refine wp_lock_bind hinvt (fun s _ hinv => ?_) fun _ _ _ => trivial
  refine wp_lift_bind_held hinv (fun slot hslot => ?_) fun _ _ => trivial
  refine wp_load_bind hinv (fun entry hentry hvalid => ?_) fun _ => trivial
  refine wp_lift_bind_held hinv (fun _ _ => ?_) fun _ _ => trivial
  refine wp_lift_bind_held hinv (fun _ _ => ?_) fun _ _ => trivial
  split
  · exact wp_lift_held trivial
  · rename_i handle hhandle
    split_ifs with hstarted
    · exact wp_lift_held trivial
    · refine wp_reads_bind_held reads_cancelled hinv (fun _ => ?_) fun _ => trivial
      refine wp_lift_bind_held hinv (fun _ _ => ?_) fun _ _ => trivial
      refine wp_reads_bind_held reads_guard hinv (fun _ => ?_) fun _ => trivial
      have hnone := hinv.stop.none hentry (by simpa using hstarted)
      generalize hm : { entry with cancellationStarted := true } = marked
      have hmark : Replaces permits entry marked :=
        hm ▸ ⟨id, fun _ => rfl, fun _ => id, .inl rfl⟩
      have hown : P.slot marked.job = .ok slot := hm ▸ hvalid.own
      refine wp_save_bind hinv hown hentry hmark (fun hinv₁ => ?_) fun _ _ => trivial
      have hmarked := s.put_slots slot marked
      have hsend := hinv₁.sendStop handle.jobId hslot hmarked (hm ▸ rfl) hnone
      refine wp_act_bind hinv₁ (wp_outcome hinv₁ (wp_stopAnswer hinv₁ hsend hmarked ?_))
      intro r t ht hadmit u hu
      obtain rfl : u = t := hu
      have hown' : P.slot (marked.stopped r).job = .ok slot := by
        cases r <;> exact hown
      rcases ht with rfl | rfl
      · exact fun _ => wp_save_view hinv₁ hown' hmarked (.stopped hadmit)
      · exact fun _ => wp_save_view hsend hown' (by rw [Ledger.send_slots, hmarked])
          (.stopped hadmit)

end Operations

end Cloud

end ExperimentControl
