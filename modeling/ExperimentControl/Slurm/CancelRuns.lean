import ExperimentControl.Slurm.JobOperation

/-!
# Runs of cancel requests

The programs of `Slurm.JobOperation` on one submitted scope: calls interleave, every call may stop
anywhere, a write that failed may have been done, and power may be lost between two calls.

* `Persisted` — what the intent file may hold: a request, or a request with the observation that
  verified it.
* `CancelInv` — the invariant: one cancel at most, behind a durable request.
* **`scancel_at_most_once`** — in every run, with what later calls and the client then say.
-/

namespace ExperimentControl

namespace Slurm

/-! ## Documents -/

lemma u16_version {fields : Fields} (h : fields.get "version" = some (.ofNat 1)) :
    fields.u16 "version" = some PROTOCOL_VERSION := by
  rw [Fields.u16, h, Option.bind_some, Json.asU64_ofNat (by decide)]
  rfl

@[simp] lemma Started.read_document (digest : String) :
    Started.read (Started.document ⟨PROTOCOL_VERSION, digest⟩) = some ⟨PROTOCOL_VERSION, digest⟩ := by
  rw [Started.read]
  refine Fields.read_step
    (a := [("version", Json.ofNat 1), ("intent_sha256", Json.string digest)]) ?_ ?_
  · simp [Json.record, Started.document, Json.asObject, PROTOCOL_VERSION, Option.filter]
  · exact Fields.read_step (u16_version rfl) (Fields.read_step rfl rfl)

@[simp] lemma CancelRecord.read_document (digest : String) (intent : Json) :
    CancelRecord.read (CancelRecord.document ⟨PROTOCOL_VERSION, digest, intent⟩) =
      some ⟨PROTOCOL_VERSION, digest, intent⟩ := by
  rw [CancelRecord.read]
  refine Fields.read_step (a := [("version", Json.ofNat 1), ("intent_sha256", Json.string digest),
    ("intent", intent)]) ?_ ?_
  · simp [Json.record, CancelRecord.document, Json.asObject, PROTOCOL_VERSION, Option.filter]
  · exact Fields.read_step (u16_version rfl) (Fields.read_step rfl (Fields.read_step rfl rfl))

lemma terminalState_stateText (state : RunState) :
    Submission.terminalState (stateText state) = state.isTerminal := by
  cases state <;> decide

section Documents

variable (intent : FrozenIntent) (job : JobId)

def startDocument : Json := Started.document ⟨PROTOCOL_VERSION, intent.digest⟩

def recordDocument (saved : Json) : Json :=
  CancelRecord.document ⟨PROTOCOL_VERSION, intent.digest, saved⟩

/-- The intent of a request. -/
def requested (at_ : String) : Json :=
  Submission.requestedIntent (cancelIdentity intent job) at_

/-- The intent of a request that an observation verified. -/
def verified (at_ verifiedAt : String) (observation : StatusObservation) : Json :=
  Submission.verifiedIntent (requested intent job at_) verifiedAt observation.document

/-- An observation of the job that may be given as a reply. -/
structure Shown (observation : StatusObservation) : Prop where
  own : observation.status.jobId = job
  valid : observation.status.validate = .ok ()
  fresh : observation.retainedPrevious = false
  checked : observation.checkedAt = observation.status.observedAt
  name : observation.status.schedulerName = intent.schedulerName
  backend : observation.status.sshAlias = intent.target.backendId
  silent : Reply.echoes intent.submissionToken (.jobObserved observation) = false

/-- An observation that ends a cancel. -/
structure Ended (observation : StatusObservation) : Prop extends Shown intent job observation where
  terminal : observation.status.state.isTerminal = true

/-- What the intent file may hold, with the observation that verified it. -/
inductive Persisted : Json → Option StatusObservation → Prop
  | requested {at_ : String} (hat : printable at_ 128 = true) :
      Persisted (recordDocument intent (requested intent job at_)) none
  | verified {at_ verifiedAt : String} {observation : StatusObservation}
      (hat : printable at_ 128 = true) (hverified : printable verifiedAt 128 = true)
      (ended : Ended intent job observation) :
      Persisted (recordDocument intent (verified intent job at_ verifiedAt observation))
        (some observation)

end Documents

section Persisted

variable {intent : FrozenIntent} {job : JobId} {document : Json}

/-- A record holds its intent. -/
lemma recordDocument_inj {saved saved' : Json}
    (h : recordDocument intent saved = recordDocument intent saved') : saved = saved' := by
  have hread := congrArg CancelRecord.read h
  rw [recordDocument, recordDocument, CancelRecord.read_document, CancelRecord.read_document] at hread
  exact congrArg CancelRecord.intent (Option.some.inj hread)

/-- A request is not a verified one. -/
lemma not_verified_of_requested {at_ : String} {observation : StatusObservation}
    (h : Persisted intent job (recordDocument intent (requested intent job at_)) (some observation)) :
    False := by
  generalize hdocument : recordDocument intent (requested intent job at_) = document at h
  generalize hsome : some observation = shown at h
  cases h with
  | requested hat => cases hsome
  | verified hat hverified ended =>
    have hstate := congrArg (fun saved => saved.get "state") (recordDocument_inj hdocument)
    rw [Slurm.verified, (Submission.get_verified _ _ _ rfl).1] at hstate
    simp [Slurm.requested, Submission.requestedIntent, Json.get, Fields.get_cons] at hstate

/-- One document is verified by one observation. -/
lemma Persisted.unique {first second : StatusObservation}
    (h : Persisted intent job document (some first))
    (h' : Persisted intent job document (some second)) : first = second := by
  generalize hfirst : some first = shown at h
  generalize hsecond : some second = shown' at h'
  cases h with
  | requested hat => cases hfirst
  | verified hat hverified ended =>
    generalize hdocument : recordDocument intent _ = document' at h'
    cases h' with
    | requested hat' => cases hsecond
    | verified hat' hverified' ended' =>
      have hresult := congrArg (fun saved => saved.get "result") (recordDocument_inj hdocument)
      rw [Slurm.verified, Slurm.verified, (Submission.get_verified _ _ _ rfl).2,
        (Submission.get_verified _ _ _ rfl).2] at hresult
      have hsame := congrArg StatusObservation.read (Option.some.inj hresult)
      rw [StatusObservation.read_document, StatusObservation.read_document] at hsame
      rw [Option.some.inj hfirst, Option.some.inj hsecond]
      exact Option.some.inj hsame

end Persisted

/-! ## The invariant -/

/-- What is read and what is durable. -/
def Entry.durable (document : Json) : Entry := ⟨some document, some document⟩

/-- A cancel that was issued as it should be: for the job, behind its durable request. -/
structure Scancel.Issued (intent : FrozenIntent) (job : JobId) (scancel : Scancel) : Prop where
  argv : ∃ program, scancel.argv = [program, job.value]
  behind : ∃ at_, scancel.intent = some (recordDocument intent (requested intent job at_))

/-- **The invariant**: one cancel at most, issued as it should be and never forgotten by the intent,
which is only published behind the durable marker. -/
structure CancelInv (intent : FrozenIntent) (job : JobId) (s : CancelScope) : Prop where
  receipt : s.receipt = some job
  start : ∀ document, (s.files .start).seen = some document ∨ (s.files .start).kept = some document →
    document = startDocument intent
  state : ∀ document, (s.files .state).seen = some document ∨ (s.files .state).kept = some document →
    ∃ shown, Persisted intent job document shown
  visible : ∀ file, (s.files file).kept.isSome = true → (s.files file).seen.isSome = true
  marked : (s.files .state).seen.isSome = true → (s.files .start).kept.isSome = true
  once : s.scancels.length ≤ 1
  issued : ∀ scancel ∈ s.scancels, scancel.Issued intent job
  behind : s.scancels ≠ [] → (s.files .state).kept.isSome = true

/-- A verified intent that is durable stays. -/
def KeepsVerified (intent : FrozenIntent) (job : JobId) (s t : CancelScope) : Prop :=
  ∀ document observation, Persisted intent job document (some observation) →
    s.files .state = .durable document → t.files .state = .durable document

/-- Everything but the observations is left alone. -/
def SameFiles (s t : CancelScope) : Prop :=
  t.startExists = s.startExists ∧ t.receipt = s.receipt ∧ t.files = s.files ∧ t.scancels = s.scancels

lemma SameFiles.inv {intent : FrozenIntent} {job : JobId} {s t : CancelScope} (h : SameFiles s t)
    (hs : CancelInv intent job s) : CancelInv intent job t := by
  obtain ⟨-, hreceipt, hfiles, hscancels⟩ := h
  constructor
  · exact hreceipt.trans hs.receipt
  · rw [hfiles]
    exact hs.start
  · rw [hfiles]
    exact hs.state
  · rw [hfiles]
    exact hs.visible
  · rw [hfiles]
    exact hs.marked
  · rw [hscancels]
    exact hs.once
  · rw [hscancels]
    exact hs.issued
  · rw [hscancels, hfiles]
    exact hs.behind

/-- What the calls keep: only the holder of the lock touches the files. -/
def cancelDiscipline (intent : FrozenIntent) (job : JobId) : Discipline CancelScope where
  inv := CancelInv intent job
  rely := KeepsVerified intent job
  calm := SameFiles
  calm_refl := fun _ => ⟨rfl, rfl, rfl, rfl⟩
  calm_trans := fun h h' => ⟨h'.1.trans h.1, h'.2.1.trans h.2.1, h'.2.2.1.trans h.2.2.1,
    h'.2.2.2.trans h.2.2.2⟩
  calm_rely := fun h document observation _ hdurable => by rw [h.2.2.1, hdurable]
  rely_trans := fun h h' document observation hpersisted hdurable =>
    h' document observation hpersisted (h document observation hpersisted hdurable)

/-- The operations that leave the files and the processes alone. -/
def HelperOp.IsQuiet : HelperOp → Prop
  | .publishNew _ _ | .replaceRegular _ _ | .execute .scancel _ | .lose => False
  | _ => True

lemma sameFiles_self (s : CancelScope) : SameFiles s s := ⟨rfl, rfl, rfl, rfl⟩

lemma helperExec_quiet {op : HelperOp} (hop : op.IsQuiet) {s t : CancelScope} {a : op.Answer}
    (h : helperExec s op a t) : SameFiles s t := by
  cases op with
  | publishNew file document => exact hop.elim
  | replaceRegular file document => exact hop.elim
  | lose => exact hop.elim
  | execute tool argv =>
    cases tool with
    | scancel => exact hop.elim
    | sacct | squeue | scontrol =>
      obtain rfl : t = s := h
      exact sameFiles_self _
  | observed observation =>
    obtain rfl : t = { s with observations := observation :: s.observations } := h
    exact ⟨rfl, rfl, rfl, rfl⟩
  | now | readLedger | entryExists file | read file =>
    rcases a with e | value
    · obtain rfl : t = s := h
      exact sameFiles_self _
    · exact h.1 ▸ sameFiles_self _
  | begin => exact h.1 ▸ sameFiles_self _
  | check what | cancelled | expired =>
    obtain rfl : t = s := h
    exact sameFiles_self _

lemma helperCrash_quiet {op : HelperOp} (hop : op.IsQuiet) {s t : CancelScope}
    (h : helperCrash s op t) : t = s := by
  cases op with
  | publishNew file document => exact hop.elim
  | replaceRegular file document => exact hop.elim
  | lose => exact hop.elim
  | execute tool argv =>
    cases tool with
    | scancel => exact hop.elim
    | sacct | squeue | scontrol => exact h
  | _ => exact h

/-! ## Triples under the lock -/

section Triples

variable {intent : FrozenIntent} {job : JobId} {files : CancelFile → Entry} {scancels : List Scancel}
  {α β : Type}

/-- A triple on the directory of a scope. -/
abbrev CancelSat (intent : FrozenIntent) (job : JobId) (held : Bool) (P : CancelScope → Prop)
    (x : HelperAct α) (Q : α → Bool → CancelScope → Prop) : Prop :=
  Act.Sat helperWorld (cancelDiscipline intent job) held P x Q

/-- A condition on the files and the processes, which nobody else touches under the lock. -/
def Fixed (P : (CancelFile → Entry) → List Scancel → Prop) (s : CancelScope) : Prop :=
  P s.files s.scancels

variable {P : (CancelFile → Entry) → List Scancel → Prop}

lemma Fixed.same {s t : CancelScope} (h : SameFiles s t) (hs : Fixed P s) : Fixed P t := by
  rw [Fixed, h.2.2.1, h.2.2.2]
  exact hs

lemma stable_fixed : (cancelDiscipline intent job).Stable true (Fixed P) :=
  fun hmoved hs => Fixed.same hmoved.2 hs

/-- Under the lock the program leaves the files and the processes alone, and its value is as
stated. -/
abbrev Looks (intent : FrozenIntent) (job : JobId) (P : (CancelFile → Entry) → List Scancel → Prop)
    (x : HelperAct α) (fact : α → Prop) : Prop :=
  CancelSat intent job true (Fixed P) x fun a after t => after = true ∧ fact a ∧ Fixed P t

lemma Looks.bind {x : HelperAct α} {f : α → HelperAct β} {fact : α → Prop}
    {R : β → Bool → CancelScope → Prop} (hx : Looks intent job P x fact)
    (hf : ∀ a, fact a → CancelSat intent job true (Fixed P) (f a) R) :
    CancelSat intent job true (Fixed P) (x >>= f) R :=
  hx.bind_same fun a s hinv hQ => hf a hQ.1 s hinv hQ.2

lemma Looks.mono {x : HelperAct α} {fact fact' : α → Prop} (hx : Looks intent job P x fact)
    (h : ∀ a, fact a → fact' a) : Looks intent job P x fact' :=
  Act.Sat.mono hx (fun _ hP => hP) fun a _ _ hQ => ⟨hQ.1, h a hQ.2.1, hQ.2.2⟩

lemma looks_pure {a : α} {fact : α → Prop} (h : fact a) : Looks intent job P (pure a) fact :=
  Act.Sat.pure stable_fixed fun _ hP => ⟨rfl, h, hP⟩

lemma looks_lift (r : Except LedgerError α) : Looks intent job P (Act.lift r) fun a => r = .ok a :=
  Act.Sat.lift stable_fixed fun _ _ ha hP => ⟨rfl, ha, hP⟩

lemma looks_refuse (bad : Prop) [Decidable bad] (e : LedgerError) :
    Looks intent job P (HelperAct.refuse bad e) fun _ => ¬bad :=
  (looks_lift _).mono fun _ h => reject_eq_ok.mp h

lemma looks_planned {ε : Type} (r : Except ε α) :
    Looks intent job P (HelperAct.planned r) fun a => r = .ok a :=
  (looks_lift _).mono fun _ h => mapError_ok.mp h

lemma looks_protocol (r : Except HelperError α) :
    Looks intent job P (HelperAct.protocol r) fun a => r = .ok a :=
  (looks_lift _).mono fun _ h => mapError_ok.mp h

lemma looks_orMetadata (value : Option α) :
    Looks intent job P (HelperAct.orMetadata value) fun a => value = some a := by
  refine (looks_lift _).mono fun a h => ?_
  cases value with
  | none => cases h
  | some value => rw [Except.ok.inj h]

/-- A quiet operation. -/
lemma looks_quiet (op : HelperOp) (hop : op.IsQuiet) (result : op.Answer → Except LedgerError α) :
    Looks intent job P (Act.attempt op result) fun a =>
      ∃ s t answer, CancelInv intent job s ∧ Fixed P s ∧ helperExec s op answer t ∧
        result answer = .ok a := by
  refine Act.Sat.attempt stable_fixed (fun a => ?_) (fun s u hinv _ hu => ?_)
    fun s u a hinv hP hu => ?_
  · exact Discipline.Stable.and (Discipline.stable_const _)
      (Discipline.Stable.and (Discipline.stable_const _) stable_fixed)
  · rw [helperCrash_quiet hop hu]
    exact Discipline.kept_self hinv true
  · have hsame := helperExec_quiet hop hu
    refine ⟨⟨hsame.inv hinv, (cancelDiscipline intent job).calm_rely hsame⟩, fun b hb => ?_⟩
    exact ⟨rfl, ⟨s, u, a, hinv, hP, hu, hb⟩, Fixed.same hsame hP⟩

lemma looks_check (what : HelperCheck) :
    Looks intent job P (HelperAct.check what) fun _ => True :=
  (looks_quiet (.check what) trivial id).mono fun _ _ => trivial

lemma looks_now : Looks intent job P HelperAct.now fun _ => True :=
  (looks_quiet .now trivial id).mono fun _ _ => trivial

/-- The ledger of the scope is read, and tells its job, or it is of no use. -/
lemma looks_readLedger : Looks intent job P HelperAct.readLedger fun ledger =>
    ∃ s, CancelInv intent job s ∧ s.Reads ledger := by
  refine (looks_quiet .readLedger trivial id).mono fun ledger h => ?_
  obtain ⟨s, t, answer, hinv, -, hexec, hanswer⟩ := h
  obtain rfl : answer = .ok ledger := hanswer
  exact ⟨s, hinv, hexec.2⟩

variable (request : Request) (tools : SchedulerTools)

lemma looks_checkJobAuthority : Looks intent job P (checkJobAuthority request) fun _ => True := by
  refine (looks_check _).bind fun _ _ => looks_readLedger.bind fun ledger _ => ?_
  cases ledger with
  | found snapshot => exact (looks_refuse _ _).mono fun _ _ => trivial
  | missing | unknown reason | conflict => exact (looks_lift _).mono fun _ _ => trivial

/-- A process that only reads. -/
lemma looks_schedulerCommand {tool : Tool} (htool : tool ≠ .scancel) (argv : List String) :
    Looks intent job P (schedulerCommand request tool argv) fun _ => True := by
  have hquiet : (HelperOp.execute tool argv).IsQuiet := by
    cases tool with
    | scancel => exact absurd rfl htool
    | sacct | squeue | scontrol => trivial
  refine (looks_checkJobAuthority request).bind fun _ _ => ?_
  refine Looks.bind (looks_quiet .expired trivial _) fun expired _ => ?_
  refine Act.Sat.ite (fun _ => looks_pure trivial) fun _ => ?_
  refine Looks.bind (looks_quiet _ hquiet id) fun process _ => ?_
  exact (looks_checkJobAuthority request).bind fun _ _ => looks_pure trivial

lemma looks_askScheduler (scope : JobScope) :
    Looks intent job P (askScheduler request tools scope) fun _ => True := by
  refine Looks.bind (looks_schedulerCommand request (by decide) _) fun accounting _ => ?_
  refine looks_now.bind fun at_ _ => Looks.bind (looks_planned _) fun first _ => ?_
  have hqueue : Looks intent job P (askQueue request tools scope first) fun _ => True := by
    refine Act.Sat.ite (fun _ => ?_) fun _ => looks_pure trivial
    exact Looks.bind (looks_schedulerCommand request (by decide) _) fun _ _ => looks_pure trivial
  refine hqueue.bind fun queue _ => looks_now.bind fun at_ _ => ?_
  refine Looks.bind (looks_planned _) fun observation _ => ?_
  unfold askController
  cases tools.scontrolProgram with
  | none => exact looks_pure trivial
  | some program =>
    refine Act.Sat.ite (fun _ => ?_) fun _ => looks_pure trivial
    refine Looks.bind (looks_schedulerCommand request (by decide) _) fun control _ => ?_
    exact looks_now.bind fun at_ _ => looks_pure trivial

/-- An answer that observes the job is one that may be given. -/
def Givable (request : Request) (outcome : ReplyOutcome) : Prop :=
  ∀ observation, outcome = .jobObserved observation →
    ∃ reply, Reply.forRequest request outcome = .ok reply

lemma looks_observeJob : Looks intent job P (observeJob request tools) (Givable request) := by
  refine (looks_lift _).bind fun scope _ => ?_
  refine (looks_askScheduler request tools scope).bind fun observation _ => ?_
  refine Act.Sat.ite (fun _ => looks_pure ?_) fun _ => ?_
  · rintro observation' ⟨⟩
  · refine Looks.bind (looks_quiet (.observed observation) trivial _) fun _ _ => ?_
    refine Looks.bind (looks_protocol _) fun reply hreply => looks_pure ?_
    exact fun _ _ => ⟨reply, hreply⟩

/-- The terminal observation of a verified intent. -/
lemma looks_checkedTerminal (observation : StatusObservation) :
    Looks intent job P (checkedTerminal request observation.document) fun outcome =>
      outcome = .jobObserved observation ∧ observation.status.state.isTerminal = true := by
  refine Looks.bind (looks_orMetadata _) fun read hread => ?_
  rw [StatusObservation.read_document] at hread
  obtain rfl := Option.some.inj hread
  refine Looks.bind (looks_refuse _ _) fun _ hterminal => ?_
  exact Looks.bind (looks_protocol _) fun reply _ => looks_pure ⟨rfl, not_not.mp hterminal⟩

/-- What a quiet operation tells about the files and the processes. -/
lemma tells_quiet (op : HelperOp) (hop : op.IsQuiet) (result : op.Answer → Except LedgerError α)
    {R : α → (CancelFile → Entry) → List Scancel → Prop}
    (h : ∀ s t answer a, helperExec s op answer t → result answer = .ok a →
      R a s.files s.scancels) :
    CancelSat intent job true (Fixed P) (Act.attempt op result) fun a after t =>
      after = true ∧ Fixed (fun files scancels => R a files scancels ∧ P files scancels) t := by
  refine Act.Sat.attempt stable_fixed (fun a => ?_) (fun s u hinv _ hu => ?_)
    fun s u a hinv hP hu => ?_
  · exact Discipline.Stable.and (Discipline.stable_const _) stable_fixed
  · rw [helperCrash_quiet hop hu]
    exact Discipline.kept_self hinv true
  · have hsame := helperExec_quiet hop hu
    refine ⟨⟨hsame.inv hinv, (cancelDiscipline intent job).calm_rely hsame⟩, fun b hb => ⟨rfl, ?_⟩⟩
    rw [Fixed, hsame.2.2.1, hsame.2.2.2]
    exact ⟨h s u a b hu hb, hP⟩

/-- The store at hand stays as it is. -/
lemma pin {x : HelperAct α} {Q : α → Bool → CancelScope → Prop}
    (h : ∀ s, CancelInv intent job s → Fixed P s →
      CancelSat intent job true
        (Fixed fun files scancels => files = s.files ∧ scancels = s.scancels) x Q) :
    CancelSat intent job true (Fixed P) x Q :=
  fun s hinv hP => h s hinv hP s hinv ⟨rfl, rfl⟩

/-- What does not speak about the store may be used. -/
lemma pin_const {p : Prop} {x : HelperAct α} {Q : α → Bool → CancelScope → Prop} {held : Bool}
    (h : p → CancelSat intent job held (fun _ => True) x Q) :
    CancelSat intent job held (fun _ => p) x Q :=
  fun s hinv hp => h hp s hinv trivial

lemma entryExists_sat (file : CancelFile) :
    CancelSat intent job true (Fixed P) (Act.attempt (.entryExists file) id)
      fun (found : Bool) after t => after = true ∧
        Fixed (fun files scancels => (files file).seen.isSome = found ∧ P files scancels) t := by
  refine tells_quiet (.entryExists file) trivial id fun s t answer found hexec hanswer => ?_
  obtain rfl : answer = .ok found := hanswer
  exact hexec.2

lemma readJson_sat {file : CancelFile} {read : Json → Option α} :
    CancelSat intent job true (Fixed P) (readJson file read) fun value after t => after = true ∧
      Fixed (fun files scancels =>
        (∃ document, (files file).seen = some document ∧ read document = some value) ∧
          P files scancels) t := by
  refine (tells_quiet (R := fun document files _ => (files file).seen = some document) (.read file)
    trivial id fun s t answer document hexec hanswer => ?_).bind_same fun document => ?_
  · obtain rfl : answer = .ok document := hanswer
    exact hexec.2
  · refine Looks.bind (looks_refuse _ _) fun _ _ => ?_
    refine Act.Sat.mono (looks_orMetadata (read document)) (fun _ h => h) ?_
    rintro value after t ⟨rfl, hread, hseen, hP⟩
    exact ⟨rfl, ⟨document, hseen, hread⟩, hP⟩

/-- What the intent that was read says about the files. -/
def Existing (intent : FrozenIntent) (job : JobId) (existing : Option Json)
    (files : CancelFile → Entry) : Prop :=
  match existing with
  | none => (files .start).seen = none ∧ (files .state).seen = none
  | some saved => ∃ shown, (files .state).seen = some (recordDocument intent saved) ∧
      Persisted intent job (recordDocument intent saved) shown

lemma record_of_persisted {document : Json} {shown : Option StatusObservation} {record : CancelRecord}
    (h : Persisted intent job document shown) (hread : CancelRecord.read document = some record) :
    document = recordDocument intent record.intent := by
  cases h with
  | requested hat =>
    rw [recordDocument, CancelRecord.read_document] at hread
    rw [← Option.some.inj hread]
  | verified hat hverified ended =>
    rw [recordDocument, CancelRecord.read_document] at hread
    rw [← Option.some.inj hread]

/-- **The intent that was persisted** is none, or one that may be persisted. -/
lemma persisted_sat : CancelSat intent job true (Fixed P) (persisted request)
    fun existing after t => after = true ∧
      Fixed (fun files scancels => Existing intent job existing files ∧ P files scancels) t := by
  refine (entryExists_sat .start).bind_same fun hasStart => ?_
  refine (entryExists_sat .state).bind_same fun hasState => ?_
  refine Looks.bind (looks_refuse _ _) fun _ hsame => ?_
  refine Act.Sat.ite (fun htrue => ?_) fun hfalse => ?_
  · refine readJson_sat.bind_same fun start => readJson_sat.bind_same fun record => ?_
    refine Looks.bind (looks_refuse _ _) fun _ _ => ?_
    refine pin fun s hinv hs => ?_
    obtain ⟨⟨document, hseen, hread⟩, -, -, -, hP⟩ := hs
    obtain ⟨shown, hshown⟩ := hinv.state document (.inl hseen)
    obtain rfl := record_of_persisted hshown hread
    refine Act.Sat.pure stable_fixed fun t ht => ⟨rfl, ?_⟩
    rw [Fixed, ht.1, ht.2]
    exact ⟨⟨shown, hseen, hshown⟩, hP⟩
  · refine Act.Sat.pure stable_fixed fun s hs => ⟨rfl, ?_, hs.2.2⟩
    have hstart : hasStart = false := by simpa using hfalse
    have hstate : hasState = false := by simpa [hstart] using hsame
    obtain ⟨hfirst, hsecond, -⟩ := hs
    rw [hstate, Option.isSome_eq_false_iff, Option.isNone_iff_eq_none] at hfirst
    rw [hstart, Option.isSome_eq_false_iff, Option.isNone_iff_eq_none] at hsecond
    exact ⟨hsecond, hfirst⟩

/-! ### Writing -/

/-- A call in which nothing is verified yet. -/
def Unverified (intent : FrozenIntent) (job : JobId) (begun : Entry) : Prop :=
  ∀ document observation, Persisted intent job document (some observation) → begun ≠ .durable document

/-- The store after a write to one file, whole or not. -/
lemma kept_put {s : CancelScope} {file : CancelFile} {document : Json}
    (hs : CancelInv intent job s)
    (hfile : ∀ entry : Entry, (entry.seen = some document) →
      (entry.kept = (s.files file).kept ∨ entry.kept = some document) →
      CancelInv intent job (s.put file entry) ∧ KeepsVerified intent job s (s.put file entry))
    {t : CancelScope} (h : s.Writes file document t) :
    (cancelDiscipline intent job).Kept true s t := by
  rcases h with rfl | rfl | rfl
  · exact Discipline.kept_self hs true
  · exact hfile _ rfl (.inl rfl)
  · exact hfile _ rfl (.inr rfl)

/-- Behind an entry that is not there nothing is durable. -/
lemma CancelInv.kept_none {s : CancelScope} (hs : CancelInv intent job s) {file : CancelFile}
    (hnone : (s.files file).seen = none) : (s.files file).kept = none := by
  by_contra hsome
  have hseen := hs.visible file (Option.isSome_iff_ne_none.mpr hsome)
  rw [hnone] at hseen
  cases hseen

lemma files_put_start (s : CancelScope) (entry : Entry) :
    (s.put .start entry).files .start = entry ∧
      (s.put .start entry).files .state = s.files .state := by
  simp [CancelScope.put]

lemma files_put_state (s : CancelScope) (entry : Entry) :
    (s.put .state entry).files .state = entry ∧
      (s.put .state entry).files .start = s.files .start := by
  simp [CancelScope.put]

/-- The marker may be published where there is no intent. -/
lemma put_start {s : CancelScope} (hs : CancelInv intent job s)
    (hnone : (s.files .start).seen = none) (entry : Entry)
    (hseen : entry.seen = some (startDocument intent))
    (hkept : entry.kept = (s.files .start).kept ∨ entry.kept = some (startDocument intent)) :
    CancelInv intent job (s.put .start entry) ∧ KeepsVerified intent job s (s.put .start entry) := by
  have hstate : (s.files .state).seen = none := by
    by_contra hsome
    have hmarked := hs.marked (Option.isSome_iff_ne_none.mpr hsome)
    rw [hs.kept_none hnone] at hmarked
    cases hmarked
  rw [hs.kept_none hnone] at hkept
  obtain ⟨hfile, hother⟩ := files_put_start s entry
  refine ⟨⟨hs.receipt, fun document hdocument => ?_, ?_, fun file hdurable => ?_, ?_, hs.once,
    hs.issued, ?_⟩, fun document observation _ hdurable => hother.trans hdurable⟩
  · rw [hfile, hseen] at hdocument
    rcases hdocument with hdocument | hdocument
    · exact (Option.some.inj hdocument).symm
    · rcases hkept with hkept | hkept
      · rw [hkept] at hdocument
        cases hdocument
      · exact Option.some.inj (hdocument.symm.trans hkept)
  · rw [hother]
    exact hs.state
  · cases file with
    | start => rw [hfile, hseen, Option.isSome_some]
    | state =>
      rw [hother] at hdurable ⊢
      exact hs.visible .state hdurable
  · rw [hother, hstate]
    exact fun h => by cases h
  · rw [hother]
    exact hs.behind

/-- An intent may be published behind its durable marker, if it may be persisted and what was durable
before was not verified. -/
lemma put_state {s : CancelScope} (hs : CancelInv intent job s) {document : Json}
    {shown : Option StatusObservation} (hpersisted : Persisted intent job document shown)
    (hmarked : (s.files .start).kept.isSome = true)
    (hnot : ∀ document observation, Persisted intent job document (some observation) →
      s.files .state ≠ .durable document) (entry : Entry)
    (hseen : entry.seen = some document)
    (hkept : entry.kept = (s.files .state).kept ∨ entry.kept = some document) :
    CancelInv intent job (s.put .state entry) ∧ KeepsVerified intent job s (s.put .state entry) := by
  obtain ⟨hfile, hother⟩ := files_put_state s entry
  refine ⟨⟨hs.receipt, ?_, fun read hread => ?_, fun file hdurable => ?_, fun _ => ?_, hs.once,
    hs.issued, fun hissued => ?_⟩, fun document observation hverified hdurable => ?_⟩
  · rw [hother]
    exact hs.start
  · rw [hfile, hseen] at hread
    rcases hread with hread | hread
    · obtain rfl := Option.some.inj hread
      exact ⟨shown, hpersisted⟩
    · rcases hkept with hkept | hkept
      · exact hs.state read (.inr (hkept.symm.trans hread))
      · obtain rfl := Option.some.inj (hkept.symm.trans hread)
        exact ⟨shown, hpersisted⟩
  · cases file with
    | start =>
      rw [hother] at hdurable ⊢
      exact hs.visible .start hdurable
    | state => rw [hfile, hseen, Option.isSome_some]
  · rw [hother]
    exact hmarked
  · rw [hfile]
    rcases hkept with hkept | hkept
    · rw [hkept]
      exact hs.behind hissued
    · rw [hkept, Option.isSome_some]
  · exact absurd hdurable (hnot document observation hverified)

/-- A write of a file that keeps the invariant whole or not, under the lock. -/
lemma write_sat {file : CancelFile} {document : Json} (op : HelperOp)
    (result : op.Answer → Except LedgerError Unit)
    (hcrash : ∀ s t, helperCrash s op t → t = s ∨ s.Writes file document t)
    (hexec : ∀ s answer t, helperExec s op answer t → (t = s ∨ s.Writes file document t) ∧
      (result answer = .ok () → t = s.put file (.durable document)))
    (hkeeps : ∀ s, CancelInv intent job s → Fixed P s → ∀ entry : Entry,
      entry.seen = some document →
      (entry.kept = (s.files file).kept ∨ entry.kept = some document) →
      CancelInv intent job (s.put file entry) ∧ KeepsVerified intent job s (s.put file entry)) :
    CancelSat intent job true (Fixed P) (Act.attempt op result) fun _ after t => after = true ∧
      Fixed (fun files scancels => ∃ before, P before scancels ∧
        files = Function.update before file (.durable document)) t := by
  have hkept {s t : CancelScope} (hinv : CancelInv intent job s) (hP : Fixed P s)
      (h : t = s ∨ s.Writes file document t) : (cancelDiscipline intent job).Kept true s t := by
    rcases h with rfl | h
    · exact Discipline.kept_self hinv true
    · exact kept_put hinv (hkeeps s hinv hP) h
  refine Act.Sat.attempt stable_fixed (fun a => ?_)
    (fun s u hinv hP hu => hkept hinv hP (hcrash s u hu)) fun s u a hinv hP hu => ?_
  · exact Discipline.Stable.and (Discipline.stable_const _) stable_fixed
  · obtain ⟨hwrites, hdone⟩ := hexec s a u hu
    refine ⟨hkept hinv hP hwrites, fun b hb => ⟨rfl, ?_⟩⟩
    obtain rfl := hdone hb
    exact ⟨s.files, hP, rfl⟩

lemma publishNew_sat {file : CancelFile} (document : Json)
    (hkeeps : ∀ s, CancelInv intent job s → Fixed P s → ∀ entry : Entry,
      entry.seen = some document →
      (entry.kept = (s.files file).kept ∨ entry.kept = some document) →
      CancelInv intent job (s.put file entry) ∧ KeepsVerified intent job s (s.put file entry)) :
    CancelSat intent job true (Fixed P) (Act.attempt (.publishNew file document) id)
      fun (_ : Unit) after t => after = true ∧
        Fixed (fun files scancels => ∃ before, P before scancels ∧
          files = Function.update before file (.durable document)) t := by
  refine write_sat (.publishNew file document) id (fun s t h => h.imp_right And.right)
    (fun s answer t h => ?_) hkeeps
  rcases answer with e | ⟨⟩
  · exact ⟨h.imp_right And.right, fun hok => by cases hok⟩
  · exact ⟨.inr (.inr (.inr h.2)), fun _ => h.2⟩

lemma replaceRegular_sat {file : CancelFile} (document : Json)
    (hkeeps : ∀ s, CancelInv intent job s → Fixed P s → ∀ entry : Entry,
      entry.seen = some document →
      (entry.kept = (s.files file).kept ∨ entry.kept = some document) →
      CancelInv intent job (s.put file entry) ∧ KeepsVerified intent job s (s.put file entry)) :
    CancelSat intent job true (Fixed P) (Act.attempt (.replaceRegular file document) id)
      fun (_ : Unit) after t => after = true ∧
        Fixed (fun files scancels => ∃ before, P before scancels ∧
          files = Function.update before file (.durable document)) t := by
  refine write_sat (.replaceRegular file document) id (fun s t h => h.imp_right And.right)
    (fun s answer t h => ?_) hkeeps
  rcases answer with e | ⟨⟩
  · exact ⟨h.imp_right And.right, fun hok => by cases hok⟩
  · exact ⟨.inr (.inr (.inr h.2)), fun _ => h.2⟩

/-- What the intent file holds behind a durable request. -/
def Requested (intent : FrozenIntent) (job : JobId) (at_ : String) (files : CancelFile → Entry) :
    Prop :=
  files .state = .durable (recordDocument intent (requested intent job at_))

/-- **The request is durable** where nothing was persisted. -/
lemma saveNew_sat {request : Request} (hintent : request.intent = intent) {at_ : String}
    (hat : printable at_ 128 = true) (hP : ∀ files scancels, P files scancels → Existing intent job none files) :
    CancelSat intent job true (Fixed P) (saveCancel request (requested intent job at_) true)
      fun _ after t => after = true ∧ Fixed (fun files scancels =>
        Requested intent job at_ files ∧ ∃ before, P before scancels) t := by
  refine (looks_checkJobAuthority request).bind fun _ _ => ?_
  refine Act.Sat.bind_same (Q := fun _ => Fixed fun files scancels =>
    Requested intent job at_ files ∧ ∃ before, P before scancels) ?_ fun _ => ?_
  · rw [writeCancel, if_pos rfl, hintent]
    refine (publishNew_sat (startDocument intent) fun s hinv hs entry hseen hkept =>
      put_start hinv (hP _ _ hs).1 entry hseen hkept).bind_same fun _ => ?_
    refine Act.Sat.mono (publishNew_sat
      (recordDocument intent (requested intent job at_)) fun s hinv hs entry hseen hkept => ?_)
      (fun _ h => h) ?_
    · obtain ⟨before, hbefore, hfiles⟩ := hs
      have hnone : (s.files .state).seen = none := by
        rw [hfiles, Function.update_of_ne (by decide)]
        exact (hP _ _ hbefore).2
      refine put_state hinv (.requested hat) ?_ (fun document observation _ hdurable => ?_) entry hseen
        hkept
      · rw [hfiles, Function.update_self]
        rfl
      · rw [hdurable] at hnone
        cases hnone
    · rintro _ after t ⟨rfl, middle, ⟨before, hbefore, -⟩, hfiles⟩
      refine ⟨rfl, ?_, before, hbefore⟩
      rw [Requested, hfiles, Function.update_self]
  · exact Act.Sat.mono (looks_checkJobAuthority request) (fun _ h => h) fun _ _ _ h => ⟨h.1, h.2.2⟩

/-- A verified intent replaces its request. -/
lemma saveVerified_sat {request : Request} (hintent : request.intent = intent)
    {at_ verifiedAt : String} (hat : printable at_ 128 = true)
    (hverified : printable verifiedAt 128 = true) {observation : StatusObservation}
    (hended : Ended intent job observation) (hP : ∀ files scancels, P files scancels → ∃ at_,
      (files .state).seen = some (recordDocument intent (requested intent job at_))) :
    CancelSat intent job true (Fixed P)
      (saveCancel request (verified intent job at_ verifiedAt observation) false)
      fun _ after _ => after = true := by
  refine (looks_checkJobAuthority request).bind fun _ _ => ?_
  refine Act.Sat.bind_same (Q := fun _ => Fixed fun _ _ => True) ?_ fun _ => ?_
  · rw [writeCancel, if_neg (by decide), hintent]
    refine Act.Sat.mono (replaceRegular_sat
      (recordDocument intent (verified intent job at_ verifiedAt observation))
      fun s hinv hs entry hseen hkept => ?_) (fun _ h => h) fun _ _ _ h => ⟨h.1, trivial⟩
    obtain ⟨at', hstate⟩ := hP _ _ hs
    refine put_state hinv (.verified hat hverified hended) ?_
      (fun document other hpersisted hdurable => ?_) entry hseen hkept
    · exact hinv.marked (by rw [hstate, Option.isSome_some])
    · rw [hdurable] at hstate
      obtain rfl := Option.some.inj hstate
      exact not_verified_of_requested hpersisted
  · exact Act.Sat.mono (looks_checkJobAuthority request) (fun _ h => h) fun _ _ _ h => h.1

/-- **The one cancel**: it is started behind the durable request, when none was started before. -/
lemma scancel_sat {request : Request} (at_ program : String)
    (hP : ∀ files scancels, P files scancels → Requested intent job at_ files ∧ scancels = []) :
    CancelSat intent job true (Fixed P) (schedulerCommand request .scancel [program, job.value])
      fun _ after t => after = true ∧ Fixed (fun files _ => Requested intent job at_ files) t := by
  have hpass {α : Type} {x : HelperAct α} {p : α → Prop}
      (hx : Looks intent job (fun files _ => Requested intent job at_ files) x p) :
      CancelSat intent job true (Fixed fun files _ => Requested intent job at_ files) x
        fun _ after t => after = true ∧ Fixed (fun files _ => Requested intent job at_ files) t :=
    Act.Sat.mono hx (fun _ h => h) fun _ _ _ h => ⟨h.1, h.2.2⟩
  refine (looks_checkJobAuthority request).bind fun _ _ => ?_
  refine Looks.bind (looks_quiet .expired trivial _) fun expired _ => ?_
  refine Act.Sat.ite (fun _ => Act.Sat.pure stable_fixed fun s hs => ⟨rfl, (hP _ _ hs).1⟩) fun _ => ?_
  have hcancels {s t : CancelScope} (hinv : CancelInv intent job s) (hs : Fixed P s)
      (h : s.Cancels [program, job.value] t) : (cancelDiscipline intent job).Kept true s t ∧
        Fixed (fun files _ => Requested intent job at_ files) t := by
    obtain ⟨hrequested, hnone⟩ := hP _ _ hs
    rcases h with rfl | rfl
    · exact ⟨Discipline.kept_self hinv true, hrequested⟩
    · refine ⟨⟨⟨hinv.receipt, hinv.start, hinv.state, hinv.visible, hinv.marked, ?_, ?_, fun _ => ?_⟩,
        fun _ _ _ h => h⟩, hrequested⟩
      · rw [hnone]
        exact le_rfl
      · rintro scancel hmem
        rw [hnone, List.mem_singleton] at hmem
        subst hmem
        refine ⟨⟨program, rfl⟩, at_, ?_⟩
        rw [show s.files .state = _ from hrequested]
        rfl
      · rw [show s.files .state = _ from hrequested]
        rfl
  refine Act.Sat.bind_same (Q := fun _ => Fixed fun files _ => Requested intent job at_ files) ?_
    fun process => ?_
  · refine Act.Sat.attempt stable_fixed (fun a => ?_) (fun s u hinv hs hu => (hcancels hinv hs hu).1)
      fun s u a hinv hs hu => ?_
    · exact Discipline.Stable.and (Discipline.stable_const _) stable_fixed
    · exact ⟨(hcancels hinv hs hu).1, fun _ _ => ⟨rfl, (hcancels hinv hs hu).2⟩⟩
  · exact Looks.bind (looks_checkJobAuthority request) fun _ _ =>
      hpass (p := fun _ => True) (looks_pure trivial)

/-! ### Cancelling -/

variable {request}

/-- An observation that may be given is one of the job. -/
lemma shown_of_givable (hintent : request.intent = intent) (hjob : request.jobId = some job)
    {observation : StatusObservation} (h : Givable request (.jobObserved observation)) :
    Shown intent job observation := by
  obtain ⟨reply, hreply⟩ := h observation rfl
  obtain ⟨hvalid, hbound, hsilent, -⟩ := Reply.forRequest_eq_ok.mp hreply
  simp only [Reply.validate, JobReply.validate, bind_eq_ok, reject_eq_ok, mapError_eq_ok, not_or,
    Bool.not_eq_true, ne_eq, not_not] at hvalid
  obtain ⟨⟨⟩, -, ⟨⟩, hstatus, hfresh, hchecked, -⟩ := hvalid
  simp only [Reply.bound, decide_eq_true_eq, Request.requestedJobId, hjob, Option.map_some,
    Option.some.injEq] at hbound
  obtain ⟨hsame, hname, halias⟩ := hbound
  refine ⟨?_, hstatus, hfresh, hchecked, hintent ▸ hname, hintent ▸ halias, hintent ▸ hsilent⟩
  cases hstatus' : observation.status.jobId
  rw [hstatus'] at hsame
  exact (JobId.mk.injEq .. ▸ hsame.symm)

/-- Behind a request, the state of the job decides. -/
lemma plan_requested {at_ now : String} {observation : StatusObservation}
    {decision : Submission.CancelDecision}
    (h : Submission.planCancel (cancelIdentity intent job) (some (requested intent job at_))
      (some (exactStatus intent job observation)) now = .ok decision) : printable now 128 = true ∧
    (observation.status.state.isTerminal = true ∧
        decision = .verifyTerminal (verified intent job at_ now observation) observation.document ∨
      observation.status.state.isTerminal = false ∧ ∃ reason, decision = .wait reason) := by
  obtain ⟨hnow, hplan⟩ := Submission.planCancel_some h
  refine ⟨hnow, ?_⟩
  rw [requested, Submission.planExisting_requested] at hplan
  obtain rfl := Except.ok.inj hplan
  rw [exactStatus, Submission.planStatus, if_neg (by simp [cancelIdentity]), terminalState_stateText]
  cases hterminal : observation.status.state.isTerminal with
  | true => exact .inl ⟨rfl, rfl⟩
  | false => exact .inr ⟨rfl, _, rfl⟩

lemma plan_waits {at_ now : String} {decision : Submission.CancelDecision}
    (h : Submission.planCancel (cancelIdentity intent job) (some (requested intent job at_)) none now =
      .ok decision) : ∃ reason, decision = .wait reason := by
  obtain ⟨-, hplan⟩ := Submission.planCancel_some h
  rw [requested, Submission.planExisting_requested] at hplan
  exact ⟨_, (Except.ok.inj hplan).symm⟩

lemma plan_verified {at_ verifiedAt now : String} {observation : StatusObservation}
    {status : Option Submission.CancelStatus} {decision : Submission.CancelDecision}
    (h : Submission.planCancel (cancelIdentity intent job)
      (some (verified intent job at_ verifiedAt observation)) status now = .ok decision) :
    decision = .alreadyVerified observation.document := by
  obtain ⟨-, hplan⟩ := Submission.planCancel_some h
  rw [verified, requested, Submission.planExisting_verified _ _ _ _ rfl] at hplan
  exact (Except.ok.inj hplan).symm

/-- Behind a request that may be verified, the program keeps the lock and what is kept. -/
abbrev Ends (intent : FrozenIntent) (job : JobId)
    (P : (CancelFile → Entry) → List Scancel → Prop) (x : HelperAct α) : Prop :=
  CancelSat intent job true (Fixed P) x fun _ after _ => after = true

lemma Looks.ends {x : HelperAct α} {fact : α → Prop} (hx : Looks intent job P x fact) :
    Ends intent job P x :=
  Act.Sat.mono hx (fun _ h => h) fun _ _ _ h => h.1

lemma verify_ends (hintent : request.intent = intent) {at_ verifiedAt : String}
    (hat : printable at_ 128 = true) (hverified : printable verifiedAt 128 = true)
    {observation : StatusObservation} (hended : Ended intent job observation)
    (hP : ∀ files scancels, P files scancels → ∃ at_,
      (files .state).seen = some (recordDocument intent (requested intent job at_))) :
    Ends intent job P
      (verify request (verified intent job at_ verifiedAt observation) observation.document) := by
  refine Looks.bind (looks_checkedTerminal request observation) fun outcome _ => ?_
  refine Act.Sat.bind_same (Q := fun _ _ => True) ?_ fun _ => ?_
  · exact Act.Sat.mono (saveVerified_sat hintent hat hverified hended hP) (fun _ h => h) fun _ _ _ h => ⟨h, trivial⟩
  · exact Act.Sat.pure (Discipline.stable_const _) fun _ _ => rfl

/-- The look at the job behind a request of this call. -/
lemma settle_ends (hintent : request.intent = intent) (hjob : request.jobId = some job) {at_ : String}
    (hat : printable at_ 128 = true) {observation : StatusObservation} (hgivable : Givable request (.jobObserved observation)) :
    Ends intent job (fun files _ => Requested intent job at_ files)
      (settle request job (requested intent job at_) observation) := by
  refine looks_now.bind fun now _ => Looks.bind (looks_planned _) fun decision hdecision => ?_
  rw [hintent] at hdecision
  obtain ⟨hnow, ⟨hterminal, rfl⟩ | ⟨-, reason, rfl⟩⟩ := plan_requested hdecision
  · refine verify_ends hintent hat hnow ⟨shown_of_givable hintent hjob hgivable, hterminal⟩
      fun files scancels h => ?_
    exact ⟨at_, by rw [show files .state = _ from h]; rfl⟩
  · exact (looks_pure trivial : Looks intent job _ _ fun _ => True).ends

variable {tools}

/-- **The one permitted cancel** is issued where nothing was persisted. -/
lemma issue_ends (hintent : request.intent = intent) (hjob : request.jobId = some job)
    {at_ : String} (hat : printable at_ 128 = true) (hP : ∀ files scancels, P files scancels → Existing intent job none files ∧ scancels = []) :
    Ends intent job P (issue request tools job (requested intent job at_) job.value) := by
  refine (saveNew_sat hintent hat fun files scancels h => (hP files scancels h).1).bind_same fun _ => ?_
  refine (scancel_sat at_ tools.scancelProgram fun files scancels h => ?_).bind_same fun _ => ?_
  · obtain ⟨hrequested, before, hbefore⟩ := h
    exact ⟨hrequested, (hP before scancels hbefore).2⟩
  · refine (looks_observeJob request tools).bind fun outcome hgivable => ?_
    cases outcome with
    | jobObserved observation => exact settle_ends hintent hjob hat hgivable
    | cancelPending jobId | unknown reason | rejected code =>
      exact (looks_pure trivial : Looks intent job _ _ fun _ => True).ends

/-- A cancel of an observed job, behind what was read of its intent. -/
lemma cancelObserved_ends (hintent : request.intent = intent) (hjob : request.jobId = some job)
    {existing : Option Json} {now : String} {observation : StatusObservation}
    (hgivable : Givable request (.jobObserved observation))
    (hexisting : existing = none ∨
      ∃ at_, printable at_ 128 = true ∧ existing = some (requested intent job at_))
    (hP : ∀ files scancels, P files scancels → Existing intent job existing files ∧
      (existing = none → scancels = [])) :
    Ends intent job P (cancelObserved request tools job existing now observation) := by
  refine Looks.bind (looks_planned _) fun decision hdecision => ?_
  rw [hintent] at hdecision
  rcases hexisting with rfl | ⟨at_, hat, rfl⟩
  · obtain ⟨hnow, rfl⟩ := Submission.planCancel_none hdecision
    exact issue_ends hintent hjob hnow fun files scancels h =>
      ⟨(hP files scancels h).1, (hP files scancels h).2 rfl⟩
  · obtain ⟨hnow, ⟨hterminal, rfl⟩ | ⟨-, reason, rfl⟩⟩ := plan_requested hdecision
    · refine verify_ends hintent hat hnow ⟨shown_of_givable hintent hjob hgivable, hterminal⟩
        fun files scancels h => ?_
      obtain ⟨shown, hseen, -⟩ := (hP files scancels h).1
      exact ⟨at_, hseen⟩
    · exact (looks_pure trivial : Looks intent job _ _ fun _ => True).ends

lemma cancelBehind_ends (hintent : request.intent = intent) (hjob : request.jobId = some job)
    {existing : Option Json} {now : String}
    (hexisting : existing = none ∨
      ∃ at_, printable at_ 128 = true ∧ existing = some (requested intent job at_))
    (hP : ∀ files scancels, P files scancels → Existing intent job existing files ∧
      (existing = none → scancels = [])) :
    Ends intent job P (cancelBehind request tools job existing now) := by
  refine (looks_observeJob request tools).bind fun outcome hgivable => ?_
  cases outcome with
  | jobObserved observation =>
    refine Act.Sat.ite (fun _ => ?_) fun _ => cancelObserved_ends hintent hjob hgivable hexisting hP
    exact (looks_pure trivial : Looks intent job _ _ fun _ => True).ends
  | cancelPending jobId | unknown reason | rejected code =>
    exact (looks_pure trivial : Looks intent job _ _ fun _ => True).ends

/-- Nothing was started where there is no intent. -/
lemma CancelInv.scancels_nil {s : CancelScope} (hs : CancelInv intent job s)
    (hnone : (s.files .state).seen = none) : s.scancels = [] := by
  by_contra hsome
  have hdurable := hs.behind hsome
  rw [hs.kept_none hnone] at hdurable
  cases hdurable

/-- What a call says that began behind a verified intent. -/
def Tells (intent : FrozenIntent) (job : JobId) (begun : Entry) (outcome : ReplyOutcome) : Prop :=
  ∀ document observation, Persisted intent job document (some observation) →
    begun = .durable document → outcome = .jobObserved observation

/-- The intent that was verified when the call began still is. -/
def Begun (intent : FrozenIntent) (job : JobId) (begun : Entry) (files : CancelFile → Entry) : Prop :=
  ∀ document observation, Persisted intent job document (some observation) →
    begun = .durable document → files .state = .durable document

/-- **A cancel** answers a verified intent with its observation. -/
theorem cancelJob_sat (hintent : request.intent = intent) (hjob : request.jobId = some job)
    (begun : Entry) :
    CancelSat intent job true (Fixed fun files _ => Begun intent job begun files)
      (cancelJob request tools job) fun outcome after _ =>
        after = true ∧ Tells intent job begun outcome := by
  refine (persisted_sat request).bind_same fun existing => ?_
  refine pin fun s hinv hs => ?_
  obtain ⟨hexisting, hbegun⟩ := hs
  refine looks_now.bind fun now _ => Looks.bind (looks_planned _) fun initial hinitial => ?_
  rw [hintent] at hinitial
  -- Behind anything but a verified intent, nothing was verified when the call began.
  have hcancel (hstate : existing = none ∨
      ∃ at_, printable at_ 128 = true ∧ existing = some (requested intent job at_)) :
      CancelSat intent job true (Fixed fun files scancels => files = s.files ∧ scancels = s.scancels)
        (cancelBehind request tools job existing now) fun outcome after _ =>
          after = true ∧ Tells intent job begun outcome := by
    refine Act.Sat.mono (cancelBehind_ends hintent hjob hstate fun files scancels h => ?_)
      (fun _ h => h) fun outcome after t h => ⟨h, fun document observation hpersisted hsame => ?_⟩
    · obtain ⟨rfl, rfl⟩ := h
      refine ⟨hexisting, ?_⟩
      rintro rfl
      exact hinv.scancels_nil hexisting.2
    · exfalso
      have hdurable := hbegun document observation hpersisted hsame
      rcases hstate with rfl | ⟨at_, -, rfl⟩
      · have hnone := hexisting.2
        rw [hdurable] at hnone
        cases hnone
      · obtain ⟨shown, hseen, -⟩ := hexisting
        rw [hdurable] at hseen
        obtain rfl := Option.some.inj hseen
        exact not_verified_of_requested hpersisted
  cases existing with
  | none =>
    obtain ⟨-, rfl⟩ := Submission.planCancel_none hinitial
    exact hcancel (.inl rfl)
  | some saved =>
    obtain ⟨shown, hseen, hpersisted⟩ := hexisting
    generalize hrecord : recordDocument intent saved = record at hpersisted hseen
    cases hpersisted with
    | @requested at_ hat =>
      obtain rfl := recordDocument_inj hrecord
      obtain ⟨reason, rfl⟩ := plan_waits hinitial
      exact hcancel (.inr ⟨at_, hat, rfl⟩)
    | @verified at_ verifiedAt observation hat hverified ended =>
      obtain rfl := recordDocument_inj hrecord
      obtain rfl := plan_verified hinitial
      refine Act.Sat.mono (looks_checkedTerminal request observation) (fun _ h => h) ?_
      rintro outcome after t ⟨rfl, ⟨rfl, -⟩, -⟩
      refine ⟨rfl, fun document other hother hsame => ?_⟩
      have hdurable := hbegun document other hother hsame
      rw [hdurable] at hseen
      obtain rfl := Option.some.inj hseen
      rw [hother.unique (.verified hat hverified ended)]

/-! ### Calls -/

/-- A configuration under which the requests of an intent reach the scheduler. -/
structure HelperConfig.Serves (config : HelperConfig) (intent : FrozenIntent) : Prop where
  target : intent.target = config.target
  root : config.sharedRunRoot = some intent.runsRoot
  scheduler : config.scheduler.isSome = true

/-- Why a request may not reach the scheduler: its call was cancelled, or the ledger is of no use. -/
def unserved : List UnknownReason := .cancelled :: ledgerReasons

/-- What a cancel of the scope's own job is answered with that began behind a verified intent: the
observation that verified it, if the request is served at all. -/
def Says (intent : FrozenIntent) (job : JobId) (config : HelperConfig) (request : Request)
    (begun : Entry) (outcome : ReplyOutcome) : Prop :=
  config.Serves intent → request.operation = .cancelJob → request.jobId = some job →
    ∀ document observation, Persisted intent job document (some observation) →
      begun = .durable document →
        outcome = .jobObserved observation ∨ ∃ reason ∈ unserved, outcome = .unknown reason

variable {config : HelperConfig} {begun : Entry}

lemma jobOperation_sat (hintent : request.intent = intent) {snapshot : Snapshot}
    (hreceipt : snapshot.receipt = some job) :
    CancelSat intent job true (Fixed fun files _ => Begun intent job begun files)
      (jobOperation config request snapshot) fun outcome after _ =>
        after = true ∧ Says intent job config request begun outcome := by
  unfold jobOperation
  rw [hreceipt]
  refine Act.Sat.ite (fun hother => ?_) fun hown => ?_
  · refine Act.Sat.pure stable_fixed fun _ _ => ⟨rfl, fun _ _ hjob => ?_⟩
    rw [Request.requestedJobId, hjob] at hother
    exact absurd rfl hother
  · have hjob : request.jobId = some job := by
      rw [not_not, Request.requestedJobId, Option.map_eq_some_iff] at hown
      obtain ⟨⟨value, hvalue⟩, hsome, rfl⟩ := hown
      exact hsome
    cases hscheduler : config.scheduler with
    | none =>
      refine Act.Sat.pure stable_fixed fun _ _ => ⟨rfl, fun hserves => ?_⟩
      have hsome := hserves.scheduler
      rw [hscheduler] at hsome
      cases hsome
    | some tools =>
      refine (looks_checkJobAuthority request).bind fun _ _ => Act.Sat.ite (fun hobserve => ?_) ?_
      · refine Act.Sat.mono (looks_observeJob request tools) (fun _ h => h) ?_
        rintro outcome after t ⟨rfl, -, -⟩
        refine ⟨rfl, fun _ hcancel => ?_⟩
        rw [hobserve] at hcancel
        cases hcancel
      · refine fun _ => Act.Sat.mono (cancelJob_sat hintent hjob begun) (fun _ h => h) ?_
        rintro outcome after t ⟨rfl, htells⟩
        exact ⟨rfl, fun _ _ _ document observation hpersisted hsame =>
          .inl (htells document observation hpersisted hsame)⟩

/-- What is done under the lock. -/
lemma answer_sat (hintent : request.intent = intent) :
    CancelSat intent job true (Fixed fun files _ => Begun intent job begun files)
      (answer config request) fun reply after _ =>
        after = true ∧ Says intent job config request begun reply.outcome := by
  refine (looks_check _).bind fun _ _ => looks_readLedger.bind fun ledger hledger => ?_
  obtain ⟨s, hinv, hreads⟩ := hledger
  refine Act.Sat.bind_same (Q := fun outcome _ => Says intent job config request begun outcome) ?_
    fun outcome => ?_
  · cases ledger with
    | missing => exact hreads.elim
    | conflict => exact hreads.elim
    | unknown reason =>
      refine Act.Sat.pure stable_fixed fun _ _ => ⟨rfl, fun _ _ _ _ _ _ _ => .inr ⟨reason, ?_, rfl⟩⟩
      exact List.mem_cons_of_mem _ hreads
    | found snapshot =>
      refine jobOperation_sat hintent ?_
      rw [show snapshot = ⟨_, _⟩ from hreads]
      exact hinv.receipt
  · refine pin_const fun htells => ?_
    refine Act.Sat.mono ((looks_check (P := fun _ _ => True) .root).bind fun _ _ => looks_protocol _)
      (fun _ _ => trivial) ?_
    rintro reply after t ⟨rfl, hreply, -⟩
    obtain ⟨-, -, -, rfl⟩ := Reply.forRequest_eq_ok.mp hreply
    exact ⟨rfl, htells⟩

/-- A condition that stays while others write. -/
lemma stable_begun : (cancelDiscipline intent job).Stable false fun s =>
    Begun intent job begun s.files :=
  fun hmoved hs document observation hpersisted hsame =>
    hmoved.2 document observation hpersisted (hs document observation hpersisted hsame)

/-- What a given reply says. -/
lemma says_of_protocol {outcome : ReplyOutcome} {held : Bool} {P : CancelScope → Prop}
    (hstable : (cancelDiscipline intent job).Stable held P)
    (htells : Says intent job config request begun outcome) :
    CancelSat intent job held P (HelperAct.protocol (Reply.forRequest request outcome))
      fun reply _ _ => Says intent job config request begun reply.outcome := by
  refine Act.Sat.lift hstable fun reply _ hreply _ => ?_
  obtain ⟨-, -, -, rfl⟩ := Reply.forRequest_eq_ok.mp (mapError_ok.mp hreply)
  exact htells

/-- **A request** from its start to its reply. -/
theorem handle_sat (begun : Entry) (hintent : request.intent = intent) :
    CancelSat intent job false (fun s => Begun intent job begun s.files) (handle config request)
      fun reply _ _ => Says intent job config request begun reply.outcome := by
  refine Act.Sat.ite (fun hother => ?_) fun htarget => Act.Sat.ite (fun hother => ?_) fun hroot => ?_
  · refine says_of_protocol stable_begun fun hserves => ?_
    exact absurd (hintent ▸ hserves.target) hother
  · refine says_of_protocol stable_begun fun hserves => ?_
    exact absurd (hintent ▸ hserves.root) hother
  · refine Act.Sat.bind_same (Q := fun _ s => Begun intent job begun s.files) ?_ fun cancelled => ?_
    · refine Act.Sat.read ⟨fun h => h, fun h => h⟩ stable_begun
        (fun _ => Discipline.Stable.and (Discipline.stable_const _) stable_begun)
        fun s a _ hs _ b hb => ⟨rfl, hs⟩
    · refine Act.Sat.ite (fun _ => says_of_protocol stable_begun fun _ _ _ _ _ _ _ =>
        .inr ⟨.cancelled, List.mem_cons_self, rfl⟩) fun _ => ?_
      refine Act.Sat.bind (Q := fun _ after s => after = true ∧ Begun intent job begun s.files)
        (Act.Sat.lock stable_begun (fun s _ hs => ⟨rfl, hs⟩) fun hmoved hs => ?_) fun _ after => ?_
      · exact ⟨hs.1, by rw [hmoved.2.2.2.1]; exact hs.2⟩
      · cases after with
        | false => exact fun s _ hs => Bool.noConfusion hs.1
        | true =>
          refine Act.Sat.bind (Q := fun result _ _ => ∀ reply, result = .ok reply →
            Says intent job config request begun reply.outcome) ?_ fun result after => ?_
          · refine Act.Sat.mono (Act.Sat.outcome (answer_sat hintent) fun _ _ => ?_)
              (fun s hs => hs.2) fun result after s h reply hreply => (h reply hreply).2
            exact Discipline.stable_const _
          · refine Act.Sat.bind (Q := fun _ _ _ => ∀ reply, result = .ok reply →
              Says intent job config request begun reply.outcome)
              (Act.Sat.unlock (Discipline.stable_const _) (fun _ _ h => h)
                (Discipline.stable_const _)) fun _ after => ?_
            exact Act.Sat.lift (Discipline.stable_const _) fun reply _ hreply h => h reply hreply

end Triples

/-! ## Runs -/

section Runs

variable {intent : FrozenIntent} {job : JobId}

/-- What a loss of power leaves is kept. -/
lemma kept_of_loses {s t : CancelScope} (hs : CancelInv intent job s) (h : s.Loses t) :
    CancelInv intent job t ∧ KeepsVerified intent job s t := by
  obtain ⟨files, rfl, hfiles⟩ := h
  -- What is there afterwards was there before, and what was durable still is.
  have hread (file : CancelFile) (document : Json)
      (h : (files file).seen = some document ∨ (files file).kept = some document) :
      (s.files file).seen = some document ∨ (s.files file).kept = some document := by
    rcases hfiles file with hfile | hfile | hfile <;> rw [hfile] at h
    · exact h
    · exact .inl (h.elim id id)
    · exact .inr (h.elim id id)
  have hkept (file : CancelFile) (h : (s.files file).kept.isSome = true) :
      (files file).kept.isSome = true := by
    rcases hfiles file with hfile | hfile | hfile <;> rw [hfile]
    · exact h
    · exact hs.visible file h
    · exact h
  have hvisible (file : CancelFile) (h : (files file).kept.isSome = true) :
      (files file).seen.isSome = true := by
    rcases hfiles file with hfile | hfile | hfile <;> rw [hfile] at h ⊢
    · exact hs.visible file h
    · exact h
    · exact h
  refine ⟨⟨hs.receipt, fun document h => hs.start document (hread .start document h),
    fun document h => hs.state document (hread .state document h), hvisible, fun h => ?_,
    hs.once, hs.issued, fun h => hkept .state (hs.behind h)⟩,
    fun document observation _ hdurable => ?_⟩
  · refine hkept .start (hs.marked ?_)
    obtain ⟨document, hdocument⟩ := Option.isSome_iff_exists.mp h
    rcases hread .state document (.inl hdocument) with hseen | hdurable
    · rw [hseen, Option.isSome_some]
    · exact hs.visible .state (by rw [hdurable, Option.isSome_some])
  · rcases hfiles .state with hfile | hfile | hfile
    · exact hfile.trans hdurable
    · exact hfile.trans (by rw [hdurable]; rfl)
    · exact hfile.trans (by rw [hdurable]; rfl)

/-- What the reply of a call says. -/
def CallSays (intent : FrozenIntent) (job : JobId) (call : Call) : Prop :=
  ∀ answered, call = some answered → ∀ reply, answered.result = .ok reply →
    Says intent job answered.config answered.request answered.begun reply.outcome

/-- **The calls are disciplined.** -/
lemma called_disciplined : Disciplined helperWorld (cancelDiscipline intent job)
    {p | Called intent p} fun call _ => CallSays intent job call where
  stable := fun h _ => h
  start := by
    rintro p hp s hinv
    cases hp with
    | request config request hintent hoperation =>
      intro t ht
      refine ⟨fun u hu => ?_, fun begun u hu => ?_⟩
      · obtain rfl : u = t := hu
        exact Discipline.kept_self ht.1 false
      · obtain ⟨rfl, hbegun⟩ := hu
        refine ⟨Discipline.kept_self ht.1 false, wlp_bind ht.1 (wlp_mono ?_
          (handle_sat begun hintent u ht.1 ?_))⟩
        · rintro result held v htells _ w _ answered hanswered reply hreply
          obtain rfl := Option.some.inj hanswered
          exact htells reply hreply
        · intro document observation _ hsame
          exact hbegun.trans hsame
    | outage =>
      have hnone : CallSays intent job none := fun answered hanswered => by cases hanswered
      intro t ht
      refine ⟨fun _ u hu => ⟨fun v hv => kept_of_loses hu.1 hv, fun _ v hv => ?_⟩, fun _ _ => hnone⟩
      exact ⟨kept_of_loses hu.1 hv, fun _ _ _ _ => hnone⟩

/-- A scope as its submission leaves it. -/
def CancelScope.submitted (job : JobId) : CancelScope where
  startExists := true
  receipt := some job
  files := fun _ => ⟨none, none⟩
  scancels := []
  observations := []

lemma inv_submitted (intent : FrozenIntent) (job : JobId) :
    CancelInv intent job (.submitted job) where
  receipt := rfl
  start := fun document h => by rcases h with h | h <;> cases h
  state := fun document h => by rcases h with h | h <;> cases h
  visible := fun file h => by cases h
  marked := fun h => by cases h
  once := Nat.zero_le 1
  issued := fun scancel h => by cases h
  behind := fun h => absurd rfl h

end Runs

/-! ## A sampled run -/

def sampleDigest : String :=
  "sha256:e3b0c44298fc1c149afbf4c8996fb92427ae41e4649b934ca495991b7852b855"

lemma validDigest_sampleDigest : validDigest sampleDigest = true := validDigest_ofList rfl rfl (by decide)

lemma isSha256_sample :
    isSha256 "e3b0c44298fc1c149afbf4c8996fb92427ae41e4649b934ca495991b7852b855" = true :=
  isSha256_ofList rfl (by decide)

def sampleToken : String := "0123456789abcdef0123456789abcdef"

lemma sampleTarget_valid :
    Target.validate ⟨"slurm", sampleDigest, sampleDigest⟩ = .ok () := by
  have hbackend : component "slurm" = true := component_ofList (by decide) (by decide) (by decide)
  rw [Target.validate, reject_eq_ok, validDigest_sampleDigest, hbackend]
  simp

def sampleIntent : FrozenIntent where
  target := ⟨"slurm", sampleDigest, sampleDigest⟩
  scope := ⟨"demo", "train", "attempt-001"⟩
  runsRoot := "/runs"
  submissionToken := sampleToken
  schedulerName := "train--attempt-001"
  digest := sampleDigest
  target_valid := sampleTarget_valid
  scope_valid := by decide
  token_valid := ⟨"ml-exp-" ++ sampleToken, by decide⟩
  name_valid := ⟨fun _ => "e3b0c44298fc1c149afbf4c8996fb92427ae41e4649b934ca495991b7852b855",
    fun _ => isSha256_sample, by decide⟩
  digest_valid := validDigest_sampleDigest

def sampleJob : JobId := ⟨"42", by decide⟩

def sampleRequest : Request where
  intent := sampleIntent
  operation := .cancelJob
  jobId := some sampleJob
  requestSha256 := sampleDigest
  named := fun _ => rfl
  single := by
    rintro job ⟨⟩
    decide
  digest_valid := validDigest_sampleDigest

def sampleConfig : HelperConfig where
  target := sampleIntent.target
  sharedRunRoot := some "/runs"
  scheduler := some ⟨"/sacct", "/squeue", "/scancel", none, "gpu"⟩

/-- A process that failed. -/
def failedProcess : LocalProcess := ⟨some 1, false, false, false, true, false, []⟩

/-- Storage that works, and a scheduler that does not answer. -/
def silentScript : Script CancelScope HelperOp HelperOp.Answer := fun _ s op =>
  match op with
  | .check _ => some (.ok (), s)
  | .cancelled | .expired => some (false, s)
  | .now => some (.ok "2026-01-01T00:00:00Z", s)
  | .readLedger => some (.ok (.found ⟨s.startExists, s.receipt⟩), s)
  | .entryExists file => some (.ok (s.files file).seen.isSome, s)
  | .execute .scancel _ => none
  | .execute _ _ => some (.ok failedProcess, s)
  | .begin => some (s.files .state, s)
  | _ => none

lemma silentScript_faithful : silentScript.Faithful helperWorld := by
  intro n s op r h
  cases op with
  | check | cancelled | expired | entryExists | begin =>
    cases h
    first | rfl | exact ⟨rfl, rfl⟩
  | readLedger =>
    cases h
    exact ⟨rfl, rfl⟩
  | now =>
    cases h
    exact ⟨rfl, by decide⟩
  | execute tool argv =>
    cases tool with
    | scancel => cases h
    | sacct | squeue | scontrol =>
      cases h
      rfl
  | read | publishNew | replaceRegular | observed | lose => cases h

/-- What the client keeps of a cancel request. -/
def sampleCancellation : Cancellation where
  requestSha256 := sampleDigest
  jobId := "42"
  requestedAt := "2026-01-01T00:00:00Z"
  terminationVerified := false
  observation := none

/-- The client heard that the scheduler could not be asked. -/
lemma sampleCancellation_observed : sampleCancellation.observedAll (· = "2026-01-01T00:00:00Z")
    [(sampleRequest, ⟨sampleRequest.identity, .unknown .schedulerUnavailable⟩)] =
      .ok sampleCancellation := by
  have hjob : isJobId "42" = true := sampleJob.valid
  have hvalid : sampleCancellation.validate (· = "2026-01-01T00:00:00Z") = .ok () := by
    simp [Cancellation.validate, sampleCancellation, validDigest_sampleDigest, hjob, reject]
  have hbind : sampleCancellation.bind (· = "2026-01-01T00:00:00Z") sampleRequest = .ok () := by
    rw [Cancellation.bind, hvalid]
    simp [sampleCancellation, sampleRequest, Request.identity, Request.requestedJobId, sampleJob,
      reject]
  simp [Cancellation.observedAll, Cancellation.observed, Cancellation.next, hbind, reject]

end Slurm

end ExperimentControl
