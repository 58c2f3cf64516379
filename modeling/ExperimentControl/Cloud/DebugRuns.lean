import ExperimentControl.Cloud.Debug
import ExperimentControl.Json.Agreement

/-!
# Runs of the debug operations

`debug_create`, `debug_refresh`, `debug_stop` and `debug_expire` of
`server/src/backends/cloud/service/engine/debug.rs` as programs on the directory of the records and
the provider.  Operations interleave and may stop anywhere, the provider answers in any way, and a
record that is being saved may be saved or not when the operation stops there.

* `Directory`, `Op`, `debugWorld` — the records, a log of what was saved and called, and the operations.
* `observe`, `debugRefresh`, `debugCreate`, `debugStop`, `debugExpire` — the programs.
* `Told` — what the log of one machine tells, with `Held`, the same of the record that a program holds.
* **`machine_created_once`** — one create call at most, one provider id, and no deletion without proof.
-/

namespace ExperimentControl

namespace Cloud

namespace Debug

/-! ## The directory and the provider -/

/-- What a provider answers to a call, with the evidence that a failed one leaves. -/
structure Reply where
  result : Except Error Json
  evidence : Option FailureEvidence

/-- What was done for a machine: its record was saved, or the provider was called.  A call that was cut
short has no reply. -/
inductive Event
  | saved (record : Saved)
  | called (identity : String) (request : Request) (reply : Option Reply)

/-- The records by their ids, some of them unreadable, and what was done, the last thing first. -/
structure Directory where
  files : String → Option (Option Saved)
  log : List Event

namespace Directory

def put (s : Directory) (record : Saved) : Directory where
  files := Function.update s.files record.recipe.identity (some (some record))
  log := .saved record :: s.log

def call (s : Directory) (identity : String) (request : Request) (reply : Option Reply) : Directory :=
  { s with log := .called identity request reply :: s.log }

end Directory

inductive Op
  | names
  | read (id : String)
  | save (record : Saved)
  | request (identity : String) (request : Request)

/-- What an operation answers. -/
def Op.Answer : Op → Type
  | .names => Option (List String)
  | .read _ => Option Saved
  | .save _ => Bool
  | .request _ _ => Reply

/-- What an operation may answer, and what it may do then.  A record that could not be saved may have
been. -/
def debugExec (s : Directory) : (op : Op) → op.Answer → Directory → Prop
  | .names, answer, t => t = s ∧ ∀ ids, answer = some ids → ∀ id, id ∈ ids ↔ (s.files id).isSome
  | .read id, answer, t => t = s ∧ ∀ record, answer = some record → s.files id = some (some record)
  | .save record, saved, t => t = s.put record ∨ saved = false ∧ t = s
  | .request identity request, reply, t => t = s.call identity request (some reply)

/-- What is left of an operation that is cut short. -/
def debugCrash (s : Directory) : Op → Directory → Prop
  | .save record, t => t = s ∨ t = s.put record
  | .request identity request, t => t = s ∨ t = s.call identity request none
  | _, t => t = s

def debugWorld : World Directory Op Op.Answer := ⟨debugExec, debugCrash⟩

/-! ## Steps of an observation -/

/-- A program on the directory. -/
abbrev DebugAct (α : Type) := Act Op Op.Answer Error α

/-- A program on one record, which it holds under the lock. -/
abbrev DebugWork (α : Type) := Work Op Op.Answer Saved Error α

/-- Save a record, and tell whether it was. -/
def store (record : Saved) : DebugWork Bool := Work.ask (Op.save record)

/-- Call the provider. -/
def send (identity : String) (request : Request) : DebugWork Reply :=
  Work.ask (Op.request identity request)

def debugSave : DebugWork Unit := do
  let saved ← Work.record
  Work.lift (name saved.recipe.identity)
  let stored ← store saved
  Work.lift (if stored = true then .ok () else .error .evidence)

/-- `Client::call`. -/
def clientCall (request : Request) : DebugWork Json := do
  let saved ← Work.record
  let reply ← send saved.recipe.identity request
  Work.lift reply.result

/-- What a failed call leaves in the record. -/
def noteFailure (request : Request) : Option FailureEvidence → DebugWork Unit
  | none => pure ()
  | some evidence => do
      Work.change fun saved => { saved with
        createError := if request.action = "CreateInstance" then some evidence else saved.createError
        lastError := some ⟨request.action, evidence⟩ }
      debugSave

def debugCall (request : Request) : DebugWork Json := do
  let saved ← Work.record
  let reply ← send saved.recipe.identity request
  noteFailure request reply.evidence
  Work.lift reply.result

/-- A definite rejection of the create call is kept. -/
def noteRejection (label : String) (result : Except Error Json) : DebugWork Unit :=
  match result with
  | .ok _ => pure ()
  | .error error =>
    match if label = "create" then CreateRejection.fromError error else none with
    | none => pure ()
    | some rejection => do
        Work.change fun saved => { saved with
          createRejection := some rejection, terminal := true, networkClean := true }
        debugSave

def debugEffect (label : String) (request : Request) : DebugWork (Option Json) := do
  let saved ← Work.record
  if label ∈ saved.claims then pure none
  else do
    Work.change fun saved => { saved with claims := insert label saved.claims }
    debugSave
    let result ← Work.outcome (debugCall request)
    noteRejection label result
    let value ← Work.lift result
    pure (some value)

section Programs

variable (c : Context)

/-- The machine that a listing shows under the name of a recipe. -/
def listedRow (saved : Saved) (value : Json) : Except Error (Option Json) := do
  let rows ← required .evidence (value.index "Instances").asArray
  let total ← required .evidence (value.index "TotalCount").asU64
  reject (total ≠ rows.length ∨ total > 100) .evidence
  let matching := rows.filter fun row => row.index "InstanceName" = .string saved.recipe.name
  reject (matching.length > 1) .evidence
  .ok matching.head?

/-- The machine behind a row of a listing. -/
def lookupRow (profile : Profile) (saved : Saved) : Option Json → DebugWork (Option Json)
  | none => pure none
  | some row => do
      let id ← Work.lift (required .evidence (row.index "InstanceId").asStr)
      let request ← Work.lift (required .configuration (profile.get c saved.recipe (some id)))
      let value ← clientCall request
      let _ ← Work.lift (required .evidence (profile.checked c saved.recipe none value))
      pure (some value)

/-- What a lookup makes of the answer to its request. -/
def lookupAnswer (profile : Profile) (saved : Saved) : Except Error Json → DebugWork (Option Json)
  | .error error =>
      if error.httpStatus = some 404 ∨ error.code = "InstanceNotExistError" then pure none
      else throw error
  | .ok value =>
      if saved.providerId.isNone then do
        let row ← Work.lift (listedRow saved value)
        lookupRow c profile saved row
      else do
        let _ ← Work.lift (required .evidence (profile.checked c saved.recipe saved.providerId value))
        pure (some value)

def debugLookup (profile : Profile) : DebugWork (Option Json) := do
  let saved ← Work.record
  let request ← Work.lift (required .configuration (profile.get c saved.recipe saved.providerId))
  let result ← Work.outcome (clientCall request)
  lookupAnswer c profile saved result

/-- Diagnostic reads are advisory. -/
def readMessage (profile : Profile) (id : String) : DebugWork Unit := do
  let saved ← Work.record
  if saved.terminal = true ∧ saved.providerMessage = none then
    match profile.lifecycle c saved.recipe id with
    | none => pure ()
    | some request => do
        let answer ← Work.outcome (clientCall request)
        Work.change fun saved => { saved with
          providerMessage := answer.toOption.bind fun value =>
            saved.providerState.bind (c.lifecycleMessage value) }
  else pure ()

/-- Stop is idempotent and always rechecks this exact instance. -/
def stopMachine (profile : Profile) (id : String) : DebugWork Unit := do
  let saved ← Work.record
  if saved.terminal = true then pure ()
  else do
    let request ← Work.lift (required .configuration (profile.stop c id false))
    let _ ← debugCall request
    pure ()

/-- The record of a machine that was looked for behind its delete call. -/
def noteAbsent : Option Json → DebugWork Unit
  | some _ => pure ()
  | none => Work.change fun saved => { saved with deleted := true }

def deleteMachine (profile : Profile) (id : String) : DebugWork Unit := do
  let saved ← Work.record
  if saved.deleteRequested = true ∧ saved.terminal = true then do
    Work.change fun saved => { saved with claims := insert "delete" saved.claims }
    debugSave
    let request ← Work.lift (required .configuration (profile.stop c id true))
    let _ ← debugCall request
    let found ← debugLookup c profile
    noteAbsent found
  else pure ()

/-- The shutdown timer of a machine that goes on, and how to connect to it. -/
def keepMachine (profile : Profile) (id : String) (timestamp : ℤ) (value : Json) :
    DebugWork Unit := do
  let saved ← Work.record
  let request ← Work.lift (required .configuration (profile.timer c saved.recipe id timestamp))
  let _ ← clientCall request
  let timer ← Work.lift (required .configuration (profile.get c saved.recipe (some id)))
  let response ← clientCall { timer with
    path := timer.path ++ "/shutdowntimer", action := "GetInstanceShutdownTimer" }
  Work.lift (reject (response.index "InstanceId" ≠ .string id ∨
    response.index "Success" ≠ .bool true ∨
    ¬(response.index "RemainingTimeInMs").asI64.any fun n =>
      0 < n ∧ n ≤ max (saved.recipe.expiresAt - timestamp) 1 * 1000) .evidence)
  Work.change fun saved => { saved with connection := c.connection profile value }

/-- What a refresh does with a machine that it found. -/
def settleMachine (profile : Profile) (timestamp : ℤ) (value : Json) : DebugWork Unit := do
  let saved ← Work.record
  let id ← Work.lift (required .evidence (profile.checked c saved.recipe saved.providerId value))
  Work.change fun saved => { saved with providerId := some id }
  debugSave
  Work.change fun saved => { saved with terminal := terminal value }
  let state ← Work.lift (required .evidence (providerState value))
  Work.change fun saved => { saved with providerState := some state }
  readMessage c profile id
  let saved ← Work.record
  if saved.stopRequested = true ∨ saved.terminal = true then do
    Work.change fun saved => { saved with connection := none }
    stopMachine c profile id
    deleteMachine c profile id
  else keepMachine c profile id timestamp value

/-- The provider id that a create call answers. -/
def keepCreated (response : Option Json) : DebugWork Unit :=
  match response.bind fun value => (value.index "InstanceId").asStr with
  | none => pure ()
  | some id => do
      Work.lift ((validateId id).mapError fun _ => Error.evidence)
      Work.change fun saved => { saved with providerId := some id }
      debugSave

/-- The machine behind a create call. -/
def settleCreated (profile : Profile) (timestamp : ℤ) : Option Json → DebugWork Unit
  | none => throw uncertainCreate
  | some value => settleMachine c profile timestamp value

def createMachine (profile : Profile) (timestamp : ℤ) : DebugWork Unit := do
  let saved ← Work.record
  let request ← Work.lift (required .configuration (profile.create c saved.recipe))
  let response ← debugEffect "create" request
  keepCreated response
  let found ← debugLookup c profile
  settleCreated c profile timestamp found

/-- What a refresh does where there is no machine. -/
def withoutMachine (profile : Profile) (timestamp : ℤ) : DebugWork Unit := do
  let saved ← Work.record
  if saved.deleteRequested = true ∧ "delete" ∈ saved.claims ∧ saved.providerId.isSome = true then
    Work.change fun saved => { saved with deleted := true, networkClean := true, connection := none }
  else if saved.providerId.isSome = true ∨ "create" ∈ saved.claims then throw uncertainCreate
  else if saved.stopRequested = true then
    Work.change fun saved => { saved with terminal := true, networkClean := true }
  else createMachine c profile timestamp

/-- The closure of `debug_refresh`. -/
def observe (profile : Profile) (timestamp : ℤ) : DebugWork Unit := do
  let found ← debugLookup c profile
  match found with
  | some value => settleMachine c profile timestamp value
  | none => withoutMachine c profile timestamp

/-! ## The operations -/

/-- Why the lock is not had in time. -/
def busy : Error := ⟨"CLOUD_RUN_BUSY", some 503, false⟩

def saveRecord (record : Saved) : DebugAct Unit := do
  Act.lift (name record.recipe.identity)
  Act.attempt (.save record) fun (saved : Bool) => if saved = true then .ok () else .error .evidence

def debugLoad (runtime : Option Runtime) (id : String) : DebugAct Saved := do
  Act.lift (name id)
  let saved ← Act.attempt (.read id) fun (read : Option Saved) => required .evidence read
  Act.lift (admitted c runtime id saved)

def debugRecords (runtime : Option Runtime) : DebugAct (List Saved) := do
  let ids ← Act.attempt .names fun (names : Option (List String)) => required .evidence names
  collect (debugLoad c runtime) ids

/-- The record behind an observation, which keeps the failure as its diagnostic. -/
def observed (profile : Profile) (timestamp : ℤ) (saved : Saved) : DebugAct (Except Error Unit × Saved) :=
  ExceptT.mk (((observe c profile timestamp).perform saved).bind fun r => .done (.ok r))

/-- An expired machine is asked to stop before it is looked at. -/
def expireRecord (timestamp : ℤ) (saved : Saved) : DebugAct Saved :=
  if timestamp ≥ saved.recipe.expiresAt then do
    saveRecord { saved with stopRequested := true }
    pure { saved with stopRequested := true }
  else pure saved

/-- A rejected machine whose deletion is requested is deleted. -/
def settleRejected (saved : Saved) : DebugAct View :=
  if saved.deleteRequested = true then do
    saveRecord { saved with deleted := true }
    Act.unlock
    pure (debugView { saved with deleted := true })
  else do
    Act.unlock
    pure (debugView saved)

/-- A refresh of a machine that may be there. -/
def refreshMachine (runtime : Option Runtime) (now : String) (saved : Saved) : DebugAct View := do
  let runtime ← Act.lift (required .configuration runtime)
  let profile ← Act.lift (required .configuration
    (runtime.profiles.lookup saved.recipe.request.profile))
  let timestamp ← Act.lift (required .configuration (c.rfc3339 now))
  let saved ← expireRecord timestamp saved
  let (result, saved) ← observed c profile timestamp saved
  let record := { saved with
    observedAt := some now
    diagnostic := match result with
      | .ok _ => none
      | .error error => some error.code }
  saveRecord record
  Act.unlock
  pure (debugView record)

def debugRefresh (runtime : Option Runtime) (id now : String) : DebugAct View := do
  Act.lock busy
  let saved ← debugLoad c runtime id
  if saved.deleted = true then do
    Act.unlock
    pure (debugView saved)
  else if saved.createRejection.isSome = true then settleRejected saved
  else refreshMachine c runtime now saved

/-- A new record, where the limit allows for one more. -/
def createRecord (runtime : Runtime) (recipe : Recipe) (records : List Saved) : DebugAct Unit := do
  Act.lift (reject ((records.filter fun record =>
    ¬(record.terminal = true ∧ record.networkClean = true ∨ record.deleted = true)).length ≥
      runtime.maxActive) machineLimit)
  saveRecord (Saved.new recipe)

def debugCreate (runtime : Option Runtime) (request : Create) (now : String) : DebugAct View := do
  Act.lock busy
  let enabled ← Act.lift (required .configuration (runtime.filter Runtime.enabled))
  let profile ← Act.lift (required .configuration (enabled.profiles.lookup request.profile))
  let recipe ← Act.lift (required .configuration (profile.recipe c request now))
  let records ← debugRecords c runtime
  match records.find? fun record => record.recipe.request.requestId = request.requestId with
  | some existing => do
      Act.lift (reject (existing.recipe.request ≠ request ∨
        existing.recipe.profileSha256 ≠ recipe.profileSha256) .evidence)
      Act.unlock
      pure (debugView existing)
  | none => do
      createRecord enabled recipe records
      Act.unlock
      debugRefresh c runtime recipe.identity now

def debugStop (runtime : Option Runtime) (id confirmation : String) (delete : Bool) (now : String) :
    DebugAct View := do
  Act.lift (reject (confirmation ≠ (if delete then "DELETE " else "STOP ") ++ id) .configuration)
  Act.lock busy
  let saved ← debugLoad c runtime id
  saveRecord { saved with
    stopRequested := true, deleteRequested := saved.deleteRequested || delete }
  Act.unlock
  debugRefresh c runtime id now

def debugExpire (runtime : Option Runtime) (now : String) : DebugAct Unit :=
  if runtime.any Runtime.enabled then do
    let timestamp ← Act.lift (required .configuration (c.rfc3339 now))
    expire (debugRecords c runtime) (fun id => debugRefresh c runtime id now) timestamp
  else pure ()

end Programs

/-! ## What a log tells -/

/-- The record of one machine that an event saved. -/
def Event.record (id : String) : Event → Option Saved
  | .saved record => if record.recipe.identity = id then some record else none
  | .called _ _ _ => none

/-- The record of one machine as it was saved last. -/
def lastSaved (id : String) (log : List Event) : Option Saved := log.findSome? (Event.record id)

/-- A create call for a machine. -/
def Event.creates (id : String) : Event → Bool
  | .called other request _ => other = id ∧ request.action = "CreateInstance"
  | .saved _ => false

/-- The answer that there is no machine. -/
def isAbsent (error : Error) : Bool :=
  error.httpStatus = some 404 ∨ error.code = "InstanceNotExistError"

/-- A lookup that was answered so. -/
def Event.Absence (id : String) : Event → Prop
  | .called other request (some ⟨.error error, _⟩) =>
      other = id ∧ request.action = "GetInstance" ∧ isAbsent error = true
  | _ => False

/-- A create call that was definitely rejected. -/
def Event.Rejection (id : String) : Event → Prop
  | .called other request (some ⟨.error error, _⟩) =>
      other = id ∧ request.action = "CreateInstance" ∧ (CreateRejection.fromError error).isSome
  | _ => False

/-- A delete claim was saved. -/
def DeleteClaimed (id : String) (log : List Event) : Prop :=
  ∃ event ∈ log, ∃ record, event.record id = some record ∧ "delete" ∈ record.claims

def Rejected (id : String) (log : List Event) : Prop := ∃ event ∈ log, event.Rejection id

/-- The machine was seen absent behind a saved delete claim. -/
def SeenAbsent (id : String) (log : List Event) : Prop :=
  ∃ later absence earlier, log = later ++ absence :: earlier ∧ absence.Absence id ∧
    DeleteClaimed id earlier

/-- What a record that may be saved next agrees with. -/
structure Recorded (c : Context) (id : String) (log : List Event) (record : Saved) : Prop where
  issued : ∃ profile : Profile,
    profile.recipe c record.recipe.request record.recipe.createdAt = some record.recipe
  claims : ∀ last, lastSaved id log = some last → last.claims ⊆ record.claims
  provider : ∀ last provider, lastSaved id log = some last → last.providerId = some provider →
    record.providerId = some provider
  deleted : record.deleted = true → SeenAbsent id log ∨ Rejected id log
  rejected : record.createRejection.isSome = true → Rejected id log

/-- An event that may follow a log. -/
def Follows (c : Context) (id : String) (log : List Event) : Event → Prop
  | .saved record => record.recipe.identity = id → Recorded c id log record
  | .called other request _ => other = id → request.action = "CreateInstance" →
      log.countP (Event.creates id) = 0 ∧ ∃ last, lastSaved id log = some last ∧ "create" ∈ last.claims

/-- A log in which each event may follow those before it. -/
def Told (c : Context) (id : String) : List Event → Prop
  | [] => True
  | event :: log => Follows c id log event ∧ Told c id log

/-- The log of a machine is told, and its file is the record that was saved last. -/
structure Inv (c : Context) (id : String) (s : Directory) : Prop where
  told : Told c id s.log
  file : s.files id = (lastSaved id s.log).map some

/-- A record that a program holds under the lock. -/
def Held (c : Context) (id : String) (record : Saved) (s : Directory) : Prop :=
  record.recipe.identity = id → Recorded c id s.log record

/-- Programs keep what is said of one machine, and nothing more is relied on. -/
def machine (c : Context) (id : String) : Contract Directory where
  inv := Inv c id
  rely _ _ := True
  refl _ := trivial
  trans _ _ := trivial

variable {c : Context} {id : String}

lemma lastSaved_saved {record : Saved} {log : List Event} (same : record.recipe.identity = id) :
    lastSaved id (.saved record :: log) = some record := by
  simp [lastSaved, Event.record, same]

lemma lastSaved_other {record : Saved} {log : List Event} (other : record.recipe.identity ≠ id) :
    lastSaved id (.saved record :: log) = lastSaved id log := by
  simp [lastSaved, Event.record, other]

@[simp] lemma lastSaved_called {other : String} {request : Request} {reply : Option Reply}
    {log : List Event} : lastSaved id (.called other request reply :: log) = lastSaved id log := by
  simp [lastSaved, List.findSome?_cons, Event.record]

lemma Rejected.cons {log : List Event} (event : Event) (h : Rejected id log) :
    Rejected id (event :: log) := by
  have ⟨found, there, rejection⟩ := h
  exact ⟨found, List.mem_cons_of_mem _ there, rejection⟩

lemma DeleteClaimed.cons {log : List Event} (event : Event) (h : DeleteClaimed id log) :
    DeleteClaimed id (event :: log) := by
  have ⟨found, there, claimed⟩ := h
  exact ⟨found, List.mem_cons_of_mem _ there, claimed⟩

lemma SeenAbsent.cons {log : List Event} (event : Event) (h : SeenAbsent id log) :
    SeenAbsent id (event :: log) := by
  have ⟨later, absence, earlier, split, seen, claimed⟩ := h
  exact ⟨event :: later, absence, earlier, by simp [split], seen, claimed⟩

/-- What a record agrees with stays so behind a call. -/
lemma Recorded.called {record : Saved} {log : List Event} (h : Recorded c id log record)
    (other : String) (request : Request) (reply : Option Reply) :
    Recorded c id (.called other request reply :: log) record where
  issued := h.issued
  claims last saved := h.claims last (by simpa using saved)
  provider last provider saved := h.provider last provider (by simpa using saved)
  deleted gone := (h.deleted gone).imp (.cons _) (.cons _)
  rejected refused := (h.rejected refused).cons _

/-- A record agrees with itself once it is saved. -/
lemma Recorded.saved {record : Saved} {log : List Event} (h : Recorded c id log record)
    (same : record.recipe.identity = id) : Recorded c id (.saved record :: log) record where
  issued := h.issued
  claims last saved := by
    rw [lastSaved_saved same] at saved
    rw [Option.some.inj saved]
  provider last provider saved known := by
    rw [lastSaved_saved same] at saved
    rwa [Option.some.inj saved]
  deleted gone := (h.deleted gone).imp (.cons _) (.cons _)
  rejected refused := (h.rejected refused).cons _

/-- A create call is behind a saved create claim. -/
lemma Told.created {log : List Event} (told : Told c id log)
    (created : log.countP (Event.creates id) ≠ 0) :
    ∃ last, lastSaved id log = some last ∧ "create" ∈ last.claims := by
  induction log with
  | nil => simp at created
  | cons event log ih =>
    cases event with
    | saved record =>
      have before := ih told.2 (by simpa [Event.creates] using created)
      have ⟨last, saved, claimed⟩ := before
      by_cases same : record.recipe.identity = id
      · exact ⟨record, lastSaved_saved same, (told.1 same).claims last saved claimed⟩
      · exact ⟨last, by rw [lastSaved_other same]; exact saved, claimed⟩
    | called other request reply =>
      rw [lastSaved_called]
      by_cases creates : other = id ∧ request.action = "CreateInstance"
      · exact (told.1 creates.1 creates.2).2
      · exact ih told.2 (by simpa [Event.creates, creates] using created)

/-- **One create call at most.** -/
lemma Told.creates_le {log : List Event} (told : Told c id log) :
    log.countP (Event.creates id) ≤ 1 := by
  induction log with
  | nil => simp
  | cons event log ih =>
    have before := ih told.2
    rw [List.countP_cons]
    split
    · rename_i creates
      cases event with
      | saved record => simp [Event.creates] at creates
      | called other request reply =>
        simp only [Event.creates, decide_eq_true_eq] at creates
        have none := (told.1 creates.1 creates.2).1
        omega
    · omega

/-! ## Steps keep what a log tells -/

/-- Saving a record that a program holds. -/
lemma Inv.put {s : Directory} {record : Saved} (inv : Inv c id s) (held : Held c id record s) :
    Inv c id (s.put record) where
  told := ⟨held, inv.told⟩
  file := by
    by_cases same : record.recipe.identity = id
    · simp [Directory.put, lastSaved_saved same, same]
    · simp [Directory.put, lastSaved_other same, Function.update_of_ne (Ne.symm same), inv.file]

/-- A call that the log allows for. -/
lemma Inv.call {s : Directory} {other : String} {request : Request} {reply : Option Reply}
    (inv : Inv c id s) (follows : Follows c id s.log (.called other request reply)) :
    Inv c id (s.call other request reply) where
  told := ⟨follows, inv.told⟩
  file := by simpa [Directory.call] using inv.file

/-- A call other than a create call may always follow. -/
lemma follows_call {log : List Event} {other : String} {request : Request} {reply : Option Reply}
    (plain : request.action ≠ "CreateInstance") :
    Follows c id log (.called other request reply) :=
  fun _ creates => absurd creates plain

/-- What a program knows of its record and of the log stays true behind what it does itself. -/
structure Kept (P : Saved → List Event → Prop) : Prop where
  saved : ∀ {record other log}, P record log → P record (.saved other :: log)
  called : ∀ {record other request reply log}, P record log →
    P record (.called other request reply :: log)

/-- A triple about the record that a program holds and the log. -/
abbrev Does (c : Context) (id : String) (P : Saved → List Event → Prop) {α : Type} (x : DebugWork α)
    (Q : α → Saved → List Event → Prop) (E : Error → Saved → List Event → Prop) : Prop :=
  Work.Sat debugWorld (machine c id) (Held c id) (fun record s => P record s.log) x
    (fun a record s => Q a record s.log) fun error record s => E error record s.log

/-- Failures of which nothing is known. -/
abbrev AnyError : Error → Saved → List Event → Prop := fun _ _ _ => True

/-- Failures that are no rejection of a create call. -/
abbrev Unrejected : Error → Saved → List Event → Prop :=
  fun error _ _ => CreateRejection.fromError error = none

variable {P : Saved → List Event → Prop}

/-- **A record that is saved** is the last one saved. -/
lemma debugSave_does
    (stays : ∀ record other log, P record log → P record (.saved other :: log)) :
    Does c id P debugSave (fun _ record log => P record log ∧
      (record.recipe.identity = id → lastSaved id log = some record)) Unrejected := by
  refine Work.Sat.record_bind fun record => ?_
  refine Work.Sat.lift_bind ?_ fun _ _ => ?_
  · intro error record s failed _
    simp only [name, reject_eq_error] at failed
    simp [← failed.2, Unrejected, CreateRejection.fromError, Error.configuration]
  refine Work.Sat.bind (Q := fun stored other s => other = record ∧ P record s.log ∧
    (stored = true → record.recipe.identity = id → lastSaved id s.log = some record)) ?_ fun stored => ?_
  · refine Work.Sat.ask ?_ ?_
    · rintro other s u inv held ⟨rfl, holds⟩ crash
      rcases crash with rfl | rfl
      · exact ⟨inv, trivial⟩
      · exact ⟨inv.put held, trivial⟩
    · rintro other s u stored inv held ⟨rfl, holds⟩ exec
      rcases exec with rfl | ⟨rfl, rfl⟩
      · exact ⟨⟨inv.put held, trivial⟩, fun same => (held same).saved same, rfl, stays _ _ _ holds,
          fun _ same => lastSaved_saved same⟩
      · exact ⟨⟨inv, trivial⟩, held, rfl, holds, by simp⟩
  · refine Work.Sat.lift fun other s _ post => ?_
    have ⟨same, holds, saved⟩ := post
    subst same
    split
    · rename_i stored
      exact ⟨holds, saved stored⟩
    · simp [Work.Ends, Unrejected, CreateRejection.fromError, Error.evidence]

/-- A call that the log allows for, of the machine that a program holds. -/
lemma send_does {Q : Saved → List Event → Prop} {request : Request} {record : Saved}
    (next : ∀ log reply, P record log →
      Q record (.called record.recipe.identity request reply :: log))
    (follows : ∀ log reply, P record log → Told c id log →
      Follows c id log (.called record.recipe.identity request reply)) :
    Work.Sat debugWorld (machine c id) (Held c id) (fun other s => other = record ∧ P record s.log)
      (send record.recipe.identity request)
      (fun reply other s => other = record ∧ Q record s.log ∧ ∃ earlier, P record earlier ∧
        s.log = .called record.recipe.identity request (some reply) :: earlier)
      fun _ _ _ => False := by
  refine Work.Sat.ask ?_ ?_
  · rintro other s u inv held ⟨rfl, holds⟩ crash
    rcases crash with rfl | rfl
    · exact ⟨inv, trivial⟩
    · exact ⟨inv.call (follows s.log _ holds inv.told), trivial⟩
  · rintro other s u reply inv held ⟨rfl, holds⟩ exec
    cases exec
    exact ⟨⟨inv.call (follows s.log _ holds inv.told), trivial⟩, fun same => (held same).called _ _ _,
      rfl, next _ _ holds, s.log, holds, rfl⟩

/-- **A call that creates nothing**: where it is answered that there is no machine, that is what was
seen last. -/
lemma clientCall_does {request : Request} (kept : Kept P) (plain : request.action ≠ "CreateInstance") :
    Does c id P (clientCall request) (fun _ => P) fun error record log => P record log ∧
      (request.action = "GetInstance" → isAbsent error = true → record.recipe.identity = id →
        ∃ absence earlier, log = absence :: earlier ∧ absence.Absence id ∧ P record earlier) := by
  refine Work.Sat.record_bind fun record => ?_
  refine Work.Sat.bind ((send_does (fun _ _ => kept.called) fun _ _ _ _ => follows_call plain).mono
    (fun _ _ holds => holds) (fun _ _ _ post => post) fun _ _ _ never => never.elim) fun reply => ?_
  refine Work.Sat.lift fun other s _ post => ?_
  have ⟨same, holds, earlier, before, split⟩ := post
  subst same
  cases answer : reply.result with
  | ok value => exact holds
  | error error =>
    refine ⟨holds, fun get absent machine => ⟨_, earlier, split, ?_, before⟩⟩
    have ⟨result, evidence⟩ := reply
    simp only at answer
    subst answer
    exact ⟨machine, get, absent⟩

lemma noteFailure_does {request : Request} {evidence : Option FailureEvidence} (kept : Kept P)
    (blind : ∀ record log createError lastError, P record log →
      P { record with createError := createError, lastError := lastError } log) :
    Does c id P (noteFailure request evidence) (fun _ => P) Unrejected := by
  cases evidence with
  | none => exact Work.Sat.pure fun _ _ _ holds => holds
  | some evidence =>
    refine Work.Sat.bind (Q := fun _ record s => P record s.log) (Work.Sat.change ?_) fun _ => ?_
    · intro record s inv held holds
      exact ⟨fun same => { held same with }, blind _ _ _ _ holds⟩
    · exact (debugSave_does fun _ _ _ => kept.saved).mono (fun _ _ holds => holds) (fun _ _ _ post => post.1)
        fun _ _ _ post => post

/-- What is known of the failure of a call: a definite rejection of a create call was answered. -/
abbrev CallError (id : String) (request : Request) : Error → Saved → List Event → Prop :=
  fun error record log => (CreateRejection.fromError error).isSome = true →
    request.action = "CreateInstance" → record.recipe.identity = id → Rejected id log

lemma debugCall_does {Q : Saved → List Event → Prop} {request : Request} (kept : Kept Q)
    (blind : ∀ record log createError lastError, Q record log →
      Q { record with createError := createError, lastError := lastError } log)
    (next : ∀ record log reply, P record log →
      Q record (.called record.recipe.identity request reply :: log))
    (follows : ∀ record log reply, P record log → Told c id log →
      Follows c id log (.called record.recipe.identity request reply)) :
    Does c id P (debugCall request) (fun _ => Q) (CallError id request) := by
  refine Work.Sat.record_bind fun record => ?_
  refine Work.Sat.bind ((send_does (next record) (follows record)).mono
    (fun _ _ holds => holds) (fun _ _ _ post => post) fun _ _ _ never => never.elim) fun reply => ?_
  -- what the reply tells of a rejection stays in the log while the failure is noted
  let noted : Saved → List Event → Prop := fun other log => Q other log ∧
    ∀ error, reply.result = .error error → CallError id request error other log
  refine Work.Sat.bind (Q := fun _ other s => noted other s.log) ?_ fun _ => ?_
  · refine ((noteFailure_does (P := noted) ?_ ?_).of ?_).mono (fun _ _ holds => holds)
      (fun _ _ _ post => post) fun error other s unrejected some => ?_
    · constructor
      · exact fun holds => ⟨kept.saved holds.1, fun error failed some create machine =>
          (holds.2 error failed some create machine).cons _⟩
      · exact fun holds => ⟨kept.called holds.1, fun error failed some create machine =>
          (holds.2 error failed some create machine).cons _⟩
    · exact fun record log _ _ holds => ⟨blind _ _ _ _ holds.1, holds.2⟩
    · rintro other s ⟨rfl, holds, earlier, _, split⟩
      refine ⟨holds, fun error failed some create machine => ?_⟩
      refine ⟨_, by rw [split]; exact List.mem_cons_self, ?_⟩
      have ⟨result, evidence⟩ := reply
      simp only at failed
      subst failed
      exact ⟨machine, create, some⟩
    · simp [unrejected] at some
  · refine Work.Sat.lift fun other s _ post => ?_
    cases answer : reply.result with
    | ok value => exact post.1
    | error error => exact post.2 error answer

/-- A call that creates nothing. -/
lemma debugCall_plain {request : Request} (kept : Kept P)
    (blind : ∀ record log createError lastError, P record log →
      P { record with createError := createError, lastError := lastError } log)
    (plain : request.action ≠ "CreateInstance") :
    Does c id P (debugCall request) (fun _ => P) AnyError :=
  (debugCall_does kept blind (fun _ _ _ => kept.called) fun _ _ _ _ _ => follows_call plain).mono
    (fun _ _ holds => holds) (fun _ _ _ post => post) fun _ _ _ _ => trivial

/-- **The create call** leaves behind a record without a provider id, as it was. -/
lemma debugEffect_does {request : Request} (create : request.action = "CreateInstance") :
    Does c id (fun record _ => record.providerId = none) (debugEffect "create" request)
      (fun _ record _ => record.providerId = none) AnyError := by
  refine Work.Sat.record_bind fun record => Work.Sat.ite (fun claimed => ?_) fun unclaimed => ?_
  · exact Work.Sat.pure fun _ _ _ holds => holds.1 ▸ holds.2
  -- no create call was made: it would be behind a saved claim, and the record has all of them
  let fresh : Saved → List Event → Prop := fun record log => record.providerId = none ∧
    (record.recipe.identity = id → log.countP (Event.creates id) = 0)
  let claimed : Saved → List Event → Prop := fun record log => "create" ∈ record.claims ∧
    fresh record log
  refine Work.Sat.bind (Q := fun _ record s => claimed record s.log) (Work.Sat.change ?_) fun _ => ?_
  · rintro other s inv held ⟨rfl, empty⟩
    refine ⟨fun same => ?_, Finset.mem_insert_self _ _, empty, fun same => ?_⟩
    · have recorded := held same
      exact { recorded with
        claims := fun last saved => (recorded.claims last saved).trans (Finset.subset_insert _ _) }
    · by_contra created
      have ⟨last, saved, there⟩ := inv.told.created created
      exact unclaimed ((held same).claims last saved there)
  refine Work.Sat.bind (Q := fun _ record s => claimed record s.log ∧
    (record.recipe.identity = id → lastSaved id s.log = some record)) ?_ fun _ => ?_
  · refine (debugSave_does ?_).mono (fun _ _ holds => holds) (fun _ _ _ post => post)
      fun _ _ _ _ => trivial
    exact fun record other log holds => ⟨holds.1, holds.2.1, fun same => by
      simpa [Event.creates] using holds.2.2 same⟩
  refine Work.Sat.bind (Q := fun result record s => Work.Ends
      (CallError id request · record s.log) (fun _ => record.providerId = none) result) ?_
      fun result => ?_
  · refine Work.Sat.outcome (debugCall_does (Q := fun record _ => record.providerId = none)
      ⟨fun holds => holds, fun holds => holds⟩ (fun _ _ _ _ holds => holds)
      (P := fun record log => claimed record log ∧
        (record.recipe.identity = id → lastSaved id log = some record))
      (fun record log reply holds => holds.1.2.1) ?_)
    intro record log reply holds _ same _
    exact ⟨holds.1.2.2 same, record, holds.2 same, holds.1.1⟩
  refine Work.Sat.bind (Q := fun _ record s => Work.Ends (fun _ => True)
    (fun _ => record.providerId = none) result) ?_ fun _ => ?_
  · cases result with
    | ok value => exact Work.Sat.pure fun _ _ _ holds => holds
    | error error =>
      simp only [noteRejection, if_true]
      cases rejection : CreateRejection.fromError error with
      | none => exact Work.Sat.pure fun _ _ _ _ => trivial
      | some rejected =>
        refine Work.Sat.bind (Q := fun _ _ _ => True) (Work.Sat.change ?_) fun _ => ?_
        · intro other s inv held refused
          refine ⟨fun same => ?_, trivial⟩
          exact { held same with
            rejected := fun _ => refused (by simp [rejection]) create same }
        · exact (debugSave_does (P := fun _ _ => True) fun _ _ _ _ => trivial).mono
            (fun _ _ holds => holds) (fun _ _ _ _ => trivial) fun _ _ _ _ => trivial
  · cases result with
    | ok value =>
      exact Work.Sat.lift_bind (fun _ _ _ failed _ => by cases failed)
        fun _ _ => Work.Sat.pure fun _ _ _ holds => holds
    | error error => exact Work.Sat.lift_bind (fun _ _ _ _ _ => trivial) fun _ failed => by cases failed

/-! ## Lookups -/

lemma req_action {profile : Profile} {method : Method} {action path : String} {body : Option Json}
    {request : Request} (h : profile.req c method action path body = some request) :
    request.action = action := by
  simp only [Profile.req] at h
  split at h
  · rw [← Option.some.inj h]
  · simp at h

lemma get_action {profile : Profile} {recipe : Recipe} {provider : Option String}
    {request : Request} (h : profile.get c recipe provider = some request) :
    request.action = if provider.isSome then "GetInstance" else "ListInstances" := by
  cases provider with
  | none =>
    simp only [Profile.get, Option.bind_eq_bind, Option.bind_eq_some_iff, Option.some.injEq] at h
    obtain ⟨inner, made, same⟩ := h
    rw [← same]
    simpa using req_action made
  | some id =>
    simp only [Profile.get, Option.bind_eq_bind, Option.bind_eq_some_iff] at h
    obtain ⟨path, _, made⟩ := h
    simpa using req_action made

lemma get_plain {profile : Profile} {recipe : Recipe} {provider : Option String}
    {request : Request} (h : profile.get c recipe provider = some request) :
    request.action ≠ "CreateInstance" := by
  rw [get_action h]
  split <;> simp

lemma required_eq_ok {α : Type} {error : Error} {value : Option α} {a : α} :
    required error value = .ok a ↔ value = some a := by
  cases value <;> simp [required]

/-- A lookup finds a machine, or it has just seen that there is none under a known provider id. -/
abbrev Looked (id : String) (P : Saved → List Event → Prop) :
    Option Json → Saved → List Event → Prop := fun found record log =>
  P record log ∧ (found = none → record.providerId.isSome = true → record.recipe.identity = id →
    ∃ absence earlier, log = absence :: earlier ∧ absence.Absence id ∧ P record earlier)

lemma lookupRow_does {profile : Profile} {record : Saved} {row : Option Json} (kept : Kept P) :
    Does c id P (lookupRow c profile record row) (fun _ => P) AnyError := by
  cases row with
  | none => exact Work.Sat.pure fun _ _ _ holds => holds
  | some row =>
    refine Work.Sat.lift_bind (fun _ _ _ _ _ => trivial) fun listed _ => ?_
    refine Work.Sat.lift_bind (fun _ _ _ _ _ => trivial) fun request made => ?_
    refine Work.Sat.bind (Q := fun _ record s => P record s.log) ?_ fun value => ?_
    · exact (clientCall_does kept (get_plain (required_eq_ok.mp made))).mono
        (fun _ _ holds => holds) (fun _ _ _ post => post) fun _ _ _ _ => trivial
    · exact Work.Sat.lift_bind (fun _ _ _ _ _ => trivial) fun _ _ =>
        Work.Sat.pure fun _ _ _ holds => holds

/-- **A lookup** leaves the record as it is, and sees what it says. -/
lemma debugLookup_does {profile : Profile} (kept : Kept P) :
    Does c id P (debugLookup c profile) (Looked id P) AnyError := by
  refine Work.Sat.record_bind fun record => ?_
  refine Work.Sat.lift_bind (fun _ _ _ _ _ => trivial) fun request made => ?_
  have made := required_eq_ok.mp made
  let same : Saved → List Event → Prop := fun other log => other = record ∧ P other log
  have keptSame : Kept same :=
    ⟨fun holds => ⟨holds.1, kept.saved holds.2⟩, fun holds => ⟨holds.1, kept.called holds.2⟩⟩
  refine Work.Sat.bind (Work.Sat.outcome (((clientCall_does keptSame (get_plain made)).of ?_).mono
    (fun _ _ holds => holds) (fun _ _ _ post => post) fun _ _ _ post => post)) fun result => ?_
  · rintro other s ⟨rfl, holds⟩
    exact ⟨rfl, holds⟩
  cases result with
  | error error =>
    unfold lookupAnswer
    refine Work.Sat.ite (fun absent => ?_) fun _ => Work.Sat.throw fun _ _ _ _ => trivial
    refine Work.Sat.pure fun other s _ post => ⟨post.1.2, fun _ known machine => ?_⟩
    have get : request.action = "GetInstance" := by
      rw [get_action made, if_pos (post.1.1 ▸ known)]
    have ⟨absence, earlier, split, seen, before⟩ :=
      post.2 get (by simpa [isAbsent] using absent) machine
    exact ⟨absence, earlier, split, seen, before.2⟩
  | ok value =>
    unfold lookupAnswer
    refine Work.Sat.ite (fun unknown => ?_) fun _ => ?_
    · refine Work.Sat.lift_bind (fun _ _ _ _ _ => trivial) fun row _ => ?_
      refine ((lookupRow_does keptSame).of fun _ _ post => post).mono (fun _ _ holds => holds)
        (fun found other s post => ⟨post.2, fun _ known _ => ?_⟩) fun _ _ _ post => post
      have equal : other = record := post.1
      rw [equal, Option.isNone_iff_eq_none.mp unknown] at known
      simp at known
    · exact Work.Sat.lift_bind (fun _ _ _ _ _ => trivial) fun _ _ =>
        Work.Sat.pure fun _ _ _ post => ⟨post.2, fun none => by simp at none⟩

/-! ## An observation keeps what a log tells -/

lemma stop_plain {profile : Profile} {provider : String} {delete : Bool} {request : Request}
    (h : profile.stop c provider delete = some request) : request.action ≠ "CreateInstance" := by
  simp only [Profile.stop, Option.bind_eq_bind, Option.bind_eq_some_iff] at h
  obtain ⟨path, _, made⟩ := h
  split at made
  · simp [req_action made]
  · simp [req_action made]

lemma lifecycle_plain {profile : Profile} {recipe : Recipe} {provider : String} {request : Request}
    (h : profile.lifecycle c recipe provider = some request) : request.action ≠ "CreateInstance" := by
  simp only [Profile.lifecycle, Option.bind_eq_bind, Option.bind_eq_some_iff, Option.some.injEq] at h
  obtain ⟨inner, _, same⟩ := h
  simp [← same]

lemma timer_plain {profile : Profile} {recipe : Recipe} {provider : String} {now : ℤ}
    {request : Request} (h : profile.timer c recipe provider now = some request) :
    request.action ≠ "CreateInstance" := by
  simp only [Profile.timer, Option.bind_eq_bind, Option.bind_eq_some_iff] at h
  obtain ⟨_, _, path, _, made⟩ := h
  simp [req_action made]

lemma create_action {profile : Profile} {recipe : Recipe} {request : Request}
    (h : profile.create c recipe = some request) : request.action = "CreateInstance" := by
  simp only [Profile.create, Option.bind_eq_bind, Option.bind_eq_some_iff] at h
  obtain ⟨_, _, body, _, made⟩ := h
  exact req_action made

/-- The provider id that a check gives is the one that is known. -/
lemma checked_known {profile : Profile} {recipe : Recipe} {known : Option String} {row : Json}
    {identifier provider : String} (h : profile.checked c recipe known row = some identifier)
    (same : known = some provider) : identifier = provider := by
  simp only [Profile.checked, Option.bind_eq_bind, Option.bind_eq_some_iff, ensure_eq_some,
    Option.some.injEq] at h
  obtain ⟨_, _, _, _, _, _, found, _, _, agrees, last⟩ := h
  rw [← last]
  simpa [same, eq_comm] using agrees.2

/-- Nothing in particular is known. -/
abbrev Anything : Saved → List Event → Prop := fun _ _ => True

lemma kept_anything : Kept Anything := ⟨fun _ => trivial, fun _ => trivial⟩

/-- The provider id is known. -/
abbrev Known : Saved → List Event → Prop := fun record _ => record.providerId.isSome = true

lemma kept_known : Kept Known := ⟨fun holds => holds, fun holds => holds⟩

lemma readMessage_does {profile : Profile} {provider : String} :
    Does c id Known (readMessage c profile provider) (fun _ => Known) AnyError := by
  refine Work.Sat.record_bind fun record => Work.Sat.ite (fun _ => ?_) fun _ =>
    Work.Sat.pure fun _ _ _ holds => holds.1 ▸ holds.2
  cases made : profile.lifecycle c record.recipe provider with
  | none => exact Work.Sat.pure fun _ _ _ holds => holds.1 ▸ holds.2
  | some request =>
    refine Work.Sat.bind (Q := fun _ record s => Known record s.log) ?_ fun _ => Work.Sat.change ?_
    · refine (Work.Sat.outcome (clientCall_does kept_known (lifecycle_plain made))).mono
        (fun _ _ holds => holds.1 ▸ holds.2) (fun result _ _ post => ?_) fun _ _ _ post => post
      cases result with
      | ok value => exact post
      | error error => exact post.1
    · exact fun record s _ held known => ⟨fun same => { held same with }, known⟩

lemma stopMachine_does {profile : Profile} {provider : String} :
    Does c id Known (stopMachine c profile provider) (fun _ => Known) AnyError := by
  refine Work.Sat.record_bind fun record => Work.Sat.ite (fun _ =>
    Work.Sat.pure fun _ _ _ holds => holds.1 ▸ holds.2) fun _ => ?_
  refine Work.Sat.lift_bind (fun _ _ _ _ _ => trivial) fun request made => ?_
  refine Work.Sat.bind ?_ fun _ => Work.Sat.pure fun _ _ _ holds => holds
  exact (debugCall_plain kept_known (fun _ _ _ _ holds => holds)
    (stop_plain (required_eq_ok.mp made))).of fun _ _ holds => holds.1 ▸ holds.2

lemma keepMachine_does {profile : Profile} {provider : String} {timestamp : ℤ} {value : Json} :
    Does c id Anything (keepMachine c profile provider timestamp value) (fun _ => Anything)
      AnyError := by
  refine Work.Sat.record_bind fun record => ?_
  refine Work.Sat.lift_bind (fun _ _ _ _ _ => trivial) fun request made => ?_
  refine Work.Sat.bind (Q := fun _ _ _ => True) ?_ fun _ => ?_
  · exact (clientCall_does kept_anything (timer_plain (required_eq_ok.mp made))).mono
      (fun _ _ _ => trivial) (fun _ _ _ _ => trivial) fun _ _ _ _ => trivial
  refine Work.Sat.lift_bind (fun _ _ _ _ _ => trivial) fun timer _ => ?_
  refine Work.Sat.bind (Q := fun _ _ _ => True) ?_ fun _ => ?_
  · exact (clientCall_does kept_anything (by simp)).mono
      (fun _ _ _ => trivial) (fun _ _ _ _ => trivial) fun _ _ _ _ => trivial
  refine Work.Sat.lift_bind (fun _ _ _ _ _ => trivial) fun _ _ => Work.Sat.change ?_
  exact fun record s _ held _ => ⟨fun same => { held same with }, trivial⟩

/-- A record whose delete claim was saved, and whose provider id is known. -/
abbrev Deleting (id : String) : Saved → List Event → Prop := fun record log =>
  record.providerId.isSome = true ∧ (record.recipe.identity = id → DeleteClaimed id log)

lemma kept_deleting : Kept (Deleting id) :=
  ⟨fun holds => ⟨holds.1, fun same => (holds.2 same).cons _⟩,
    fun holds => ⟨holds.1, fun same => (holds.2 same).cons _⟩⟩

/-- **A deletion** is noted behind a saved claim and an absence. -/
lemma deleteMachine_does {profile : Profile} {provider : String} :
    Does c id Known (deleteMachine c profile provider) (fun _ => Anything) AnyError := by
  refine Work.Sat.record_bind fun record => Work.Sat.ite (fun _ => ?_) fun _ =>
    Work.Sat.pure fun _ _ _ _ => trivial
  let claiming : Saved → List Event → Prop := fun record _ =>
    record.providerId.isSome = true ∧ "delete" ∈ record.claims
  refine Work.Sat.bind (Q := fun _ record s => claiming record s.log) (Work.Sat.change ?_) fun _ => ?_
  · rintro other s inv held ⟨rfl, known⟩
    refine ⟨fun same => ?_, known, Finset.mem_insert_self _ _⟩
    have recorded := held same
    exact { recorded with
      claims := fun last saved => (recorded.claims last saved).trans (Finset.subset_insert _ _) }
  refine Work.Sat.bind (Q := fun _ record s => Deleting id record s.log) ?_ fun _ => ?_
  · refine (debugSave_does (P := claiming) fun _ _ _ holds => holds).mono (fun _ _ holds => holds)
      (fun _ record s post => ⟨post.1.1, fun same => ?_⟩) fun _ _ _ _ => trivial
    have ⟨event, there, saved⟩ := List.exists_of_findSome?_eq_some (post.2 same)
    exact ⟨event, there, record, saved, post.1.2⟩
  refine Work.Sat.lift_bind (fun _ _ _ _ _ => trivial) fun request made => ?_
  refine Work.Sat.bind (debugCall_plain kept_deleting (fun _ _ _ _ holds => holds)
    (stop_plain (required_eq_ok.mp made))) fun _ => ?_
  refine Work.Sat.bind (debugLookup_does kept_deleting) fun found => ?_
  cases found with
  | some value => exact Work.Sat.pure fun _ _ _ _ => trivial
  | none =>
    refine Work.Sat.change fun record s _ held post => ⟨fun same => ?_, trivial⟩
    have ⟨absence, earlier, split, seen, before⟩ := post.2 rfl post.1.1 same
    have gone : SeenAbsent id s.log := ⟨[], absence, earlier, split, seen, before.2 same⟩
    exact { held same with deleted := fun _ => .inl gone }

lemma settleMachine_does {profile : Profile} {timestamp : ℤ} {value : Json} :
    Does c id Anything (settleMachine c profile timestamp value) (fun _ => Anything) AnyError := by
  refine Work.Sat.record_bind fun record => ?_
  refine Work.Sat.lift_bind (fun _ _ _ _ _ => trivial) fun provider checked => ?_
  have checked := required_eq_ok.mp checked
  refine Work.Sat.bind (Q := fun _ record s => Known record s.log) (Work.Sat.change ?_) fun _ => ?_
  · rintro other s inv held ⟨rfl, _⟩
    refine ⟨fun same => ?_, rfl⟩
    have recorded := held same
    exact { recorded with
      provider := fun last before saved had =>
        congrArg some (checked_known checked (recorded.provider last before saved had)) }
  refine Work.Sat.bind (Q := fun _ record s => Known record s.log) ?_ fun _ => ?_
  · exact (debugSave_does fun _ _ _ holds => holds).mono (fun _ _ holds => holds)
      (fun _ _ _ post => post.1) fun _ _ _ _ => trivial
  refine Work.Sat.bind (Q := fun _ record s => Known record s.log) (Work.Sat.change ?_) fun _ => ?_
  · exact fun record s _ held known => ⟨fun same => { held same with }, known⟩
  refine Work.Sat.lift_bind (fun _ _ _ _ _ => trivial) fun state _ => ?_
  refine Work.Sat.bind (Q := fun _ record s => Known record s.log) (Work.Sat.change ?_) fun _ => ?_
  · exact fun record s _ held known => ⟨fun same => { held same with }, known⟩
  refine Work.Sat.bind readMessage_does fun _ => Work.Sat.record_bind fun record =>
    Work.Sat.ite (fun _ => ?_) fun _ => keepMachine_does.of fun _ _ _ => trivial
  refine Work.Sat.bind (Q := fun _ record s => Known record s.log) (Work.Sat.change ?_) fun _ => ?_
  · rintro other s _ held ⟨rfl, known⟩
    exact ⟨fun same => { held same with }, known⟩
  · exact Work.Sat.bind stopMachine_does fun _ => deleteMachine_does

lemma keepCreated_does {response : Option Json} :
    Does c id (fun record _ => record.providerId = none) (keepCreated response) (fun _ => Anything)
      AnyError := by
  unfold keepCreated
  split
  · exact Work.Sat.pure fun _ _ _ _ => trivial
  · refine Work.Sat.lift_bind (fun _ _ _ _ _ => trivial) fun _ _ => ?_
    refine Work.Sat.bind (Q := fun _ _ _ => True) (Work.Sat.change ?_) fun _ => ?_
    · intro record s inv held empty
      refine ⟨fun same => ?_, trivial⟩
      have recorded := held same
      exact { recorded with
        provider := fun last before saved had => by
          simp [recorded.provider last before saved had] at empty }
    · exact (debugSave_does (P := Anything) fun _ _ _ _ => trivial).mono (fun _ _ _ => trivial)
        (fun _ _ _ _ => trivial) fun _ _ _ _ => trivial

lemma createMachine_does {profile : Profile} {timestamp : ℤ} :
    Does c id (fun record _ => record.providerId = none) (createMachine c profile timestamp)
      (fun _ => Anything) AnyError := by
  refine Work.Sat.record_bind fun record => ?_
  refine Work.Sat.lift_bind (fun _ _ _ _ _ => trivial) fun request made => ?_
  refine Work.Sat.bind ((debugEffect_does (create_action (required_eq_ok.mp made))).of
    fun _ _ holds => holds.1 ▸ holds.2) fun response => ?_
  refine Work.Sat.bind keepCreated_does fun _ => ?_
  refine Work.Sat.bind (debugLookup_does kept_anything) fun found => ?_
  cases found with
  | none => exact Work.Sat.throw fun _ _ _ _ => trivial
  | some value => exact settleMachine_does.of fun _ _ _ => trivial

/-- A record of which the log knows its delete claim, if it has one. -/
abbrev ClaimKnown (id : String) : Saved → List Event → Prop := fun record log =>
  record.recipe.identity = id → "delete" ∈ record.claims → DeleteClaimed id log

lemma kept_claimKnown : Kept (ClaimKnown id) :=
  ⟨fun holds same claimed => (holds same claimed).cons _,
    fun holds same claimed => (holds same claimed).cons _⟩

lemma withoutMachine_does {profile : Profile} {timestamp : ℤ} :
    Does c id (fun record log => Looked id (ClaimKnown id) none record log)
      (withoutMachine c profile timestamp) (fun _ => Anything) AnyError := by
  refine Work.Sat.record_bind fun record => Work.Sat.ite (fun deleting => ?_) fun _ =>
    Work.Sat.ite (fun _ => Work.Sat.throw fun _ _ _ _ => trivial) fun unknown =>
      Work.Sat.ite (fun _ => ?_) fun _ => ?_
  · refine Work.Sat.change ?_
    rintro other s inv held ⟨rfl, _, seen⟩
    refine ⟨fun same => ?_, trivial⟩
    have ⟨absence, earlier, split, absent, before⟩ := seen rfl deleting.2.2 same
    have gone : SeenAbsent id s.log :=
      ⟨[], absence, earlier, split, absent, before same deleting.2.1⟩
    exact { held same with deleted := fun _ => .inl gone }
  · exact Work.Sat.change fun record s _ held _ => ⟨fun same => { held same with }, trivial⟩
  · refine createMachine_does.of ?_
    rintro other s ⟨rfl, _⟩
    have := not_or.mp unknown
    simpa using this.1

/-- **An observation** keeps what the log tells. -/
lemma observe_does {profile : Profile} {timestamp : ℤ} :
    Does c id (ClaimKnown id) (observe c profile timestamp) (fun _ => Anything) AnyError := by
  refine Work.Sat.bind (debugLookup_does kept_claimKnown) fun found => ?_
  cases found with
  | none => exact withoutMachine_does
  | some value => exact settleMachine_does.of fun _ _ _ => trivial

/-! ## Identities -/

/-- What an issued recipe is. -/
lemma recipe_issued {profile : Profile} {request : Create} {now : String} {recipe : Recipe}
    (h : profile.recipe c request now = some recipe) :
    recipe.contract = CONTRACT ∧ recipe.request = request ∧ recipe.createdAt = now ∧
      ∃ sha256 digest, c.enc.digest (Profile.identityDocument sha256 request) = .ok digest ∧
        recipe.identity = "debug." ++ digest := by
  simp only [Profile.recipe, Option.bind_eq_bind, Option.bind_eq_some_iff, Option.some.injEq] at h
  obtain ⟨_, _, sha256, _, time, _, _, _, digest, made, _, _, same⟩ := h
  rw [← same]
  refine ⟨rfl, rfl, rfl, sha256, digest, ?_, rfl⟩
  cases written : c.enc.digest (Profile.identityDocument sha256 request) with
  | ok other => simpa [written, Except.toOption] using made
  | error error => simp [written, Except.toOption] at made

lemma readable_identity {finite : String → Bool} (sha256 : String) (request : Create) :
    (Profile.identityDocument sha256 request).readable finite = true := by
  simp [Profile.identityDocument, Create.document, Create.fields, Json.readable, Json.readableItems,
    Json.readableFields, Json.readable_ofNat]

/-- Two identities in the same bytes have one request id. -/
lemma requestId_of_bytes {F : Type} {format : FloatFormat F} {sha256 : Bytes → String}
    {first second : String} {left right : Create}
    (equal : (format.encoding sha256).bytes (Profile.identityDocument first left) =
      (format.encoding sha256).bytes (Profile.identityDocument second right)) :
    left.requestId = right.requestId := by
  have same := (Encoding.bytes_eq_iff sha256 (readable_identity first left)
    (readable_identity second right)).mp equal
  simp only [Profile.identityDocument, Json.same, Json.sameItems, and_true,
    Create.document] at same
  have there : Fields.get left.fields "request_id" = some (.string left.requestId) := by
    simp [Create.fields, Fields.get_cons]
  have ⟨other, found, agrees⟩ := (Json.sameFields_get same.2.2).1 _ there
  have other_eq : other = .string right.requestId := by
    simpa [Create.fields, Fields.get_cons, eq_comm] using found
  rw [other_eq] at agrees
  exact agrees

/-- Two requests under one identity have one request id, where the hash has no collision. -/
lemma requestId_of_digest {F : Type} {format : FloatFormat F} {sha256 : Bytes → String}
    (hash : Function.Injective sha256) {first second : String} {left right : Create}
    {digest : String}
    (h : (format.encoding sha256).digest (Profile.identityDocument first left) = .ok digest)
    (h' : (format.encoding sha256).digest (Profile.identityDocument second right) = .ok digest) :
    left.requestId = right.requestId := by
  suffices equal : (format.encoding sha256).bytes (Profile.identityDocument first left) =
      (format.encoding sha256).bytes (Profile.identityDocument second right) from
    requestId_of_bytes equal
  unfold Encoding.digest at h h'
  cases written : (format.encoding sha256).bytes (Profile.identityDocument first left) with
  | error error => simp [written, Except.map] at h
  | ok bytes =>
    cases other : (format.encoding sha256).bytes (Profile.identityDocument second right) with
    | error error => simp [other, Except.map] at h'
    | ok others =>
      simp only [written, other, Except.map, Except.ok.injEq] at h h'
      rw [hash (h.trans h'.symm)]

/-! ## What a program finds -/

lemma lastSaved_mem {log : List Event} {record : Saved} (saved : lastSaved id log = some record) :
    record.recipe.identity = id ∧ ∃ event ∈ log, event.record id = some record := by
  have ⟨event, there, is⟩ := List.exists_of_findSome?_eq_some saved
  refine ⟨?_, event, there, is⟩
  cases event with
  | saved other =>
    simp only [Event.record] at is
    split at is
    · rename_i same
      rw [← Option.some.inj is]
      exact same
    · simp at is
  | called other request reply => simp [Event.record] at is

/-- What a record agrees with stays so behind the record of another machine. -/
lemma Recorded.other {record other : Saved} {log : List Event} (h : Recorded c id log record)
    (different : other.recipe.identity ≠ id) : Recorded c id (.saved other :: log) record where
  issued := h.issued
  claims last saved := h.claims last (by rwa [lastSaved_other different] at saved)
  provider last provider saved := h.provider last provider (by rwa [lastSaved_other different] at saved)
  deleted gone := (h.deleted gone).imp (.cons _) (.cons _)
  rejected refused := (h.rejected refused).cons _

/-- The record that was saved last agrees with the log. -/
lemma Told.recorded {log : List Event} {record : Saved} (told : Told c id log)
    (saved : lastSaved id log = some record) : Recorded c id log record := by
  induction log with
  | nil => simp [lastSaved] at saved
  | cons event log ih =>
    cases event with
    | saved other =>
      by_cases same : other.recipe.identity = id
      · rw [lastSaved_saved same] at saved
        rw [← Option.some.inj saved]
        exact (told.1 same).saved same
      · rw [lastSaved_other same] at saved
        exact (ih told.2 saved).other same
    | called other request reply =>
      rw [lastSaved_called] at saved
      exact (ih told.2 saved).called other request reply

lemma admitted_eq_ok {runtime : Option Runtime} {file : String} {saved read : Saved}
    (h : admitted c runtime file read = .ok saved) :
    saved = read ∧ saved.recipe.contract ≠ RETIRED_CONTRACT ∧ saved.recipe.identity = file ∧
      ∃ profile : Profile,
        profile.recipe c saved.recipe.request saved.recipe.createdAt = some saved.recipe := by
  simp only [admitted, bind_eq_ok, reject_eq_ok, required_eq_ok, Except.ok.injEq, not_or,
    not_not] at h
  have ⟨_, current, _, _, profile, _, _, checks, _, _, same⟩ := h
  subst same
  refine ⟨rfl, current, checks.1, profile, ?_⟩
  simpa [Profile.checkRecipe] using checks.2

/-- A retired record is refused as such, and nothing else is. -/
lemma admitted_eq_error {runtime : Option Runtime} {file : String} {read : Saved} {error : Error}
    (h : admitted c runtime file read = .error error) (retired : error.code = retiredBackend.code) :
    read.recipe.contract = RETIRED_CONTRACT := by
  by_contra current
  have configured {α : Type} {value : Option α} (h : required .configuration value = .error error) :
      False := by
    cases value with
    | none => simp [← Except.error.inj h, retiredBackend, Error.configuration] at retired
    | some a => cases h
  have checked {bad : Prop} [Decidable bad] (h : reject bad Error.evidence = .error error) : False := by
    simp only [reject_eq_error] at h
    simp [← h.2, retiredBackend, Error.evidence] at retired
  simp only [admitted, bind_eq_error] at h
  rcases h with contract |
    ⟨_, _, runtime | ⟨_, _, profile | ⟨_, _, recipe | ⟨_, _, rejection | ⟨_, _, ok⟩⟩⟩⟩⟩
  · exact current (reject_eq_error.mp contract).1
  · exact configured runtime
  · exact configured profile
  · exact checked recipe
  · exact checked rejection
  · cases ok

/-- A record that is read is one to be held. -/
lemma Inv.loaded {s : Directory} {file : String} {saved : Saved} (inv : Inv c id s)
    (there : s.files file = some (some saved)) (named : saved.recipe.identity = file) :
    Held c id saved s ∧ ClaimKnown id saved s.log := by
  have last : saved.recipe.identity = id → lastSaved id s.log = some saved := by
    intro same
    have stored := inv.file
    rw [← same, named, there] at stored
    cases found : lastSaved file s.log with
    | none => simp [found] at stored
    | some other =>
      simp only [found, Option.map_some, Option.some.injEq] at stored
      rw [stored, ← same, named, found]
  refine ⟨fun same => inv.told.recorded (last same), fun same claimed => ?_⟩
  have ⟨_, event, member, is⟩ := lastSaved_mem (last same)
  exact ⟨event, member, saved, is, claimed⟩

/-! ## The operations keep what a log tells -/

/-- Nothing is said of what a program ends with. -/
abbrev Ended {α : Type} : α → Bool → Directory → Prop := fun _ _ _ => True

/-- What follows a program that has ended. -/
abbrev Goes {α β : Type} (c : Context) (id : String) (f : α → DebugAct β) :
    Except Error α → Bool → Directory → Prop :=
  thenPost debugWorld (machine c id) Ended f

lemma goes_error {α β : Type} {f : α → DebugAct β} {error : Error} {held : Bool} {s : Directory} :
    Goes c id f (.error error) held s := by
  intro _
  cases held with
  | true => exact wp_done_held.mpr trivial
  | false => exact fun _ _ => trivial

lemma wp_saveRecord {s : Directory} {record : Saved} {post : Except Error Unit → Bool → Directory → Prop}
    (inv : Inv c id s) (held : Held c id record s)
    (ok : Inv c id (s.put record) → post (.ok ()) true (s.put record))
    (failed : ∀ error t, post (.error error) true t) :
    wp debugWorld (machine c id) post (saveRecord record).run true s := by
  refine wp_lift_bind_held inv (fun _ _ => ?_) fun _ _ => failed _ _
  refine wp_attempt_held ?_ ?_
  · rintro u (rfl | rfl)
    · exact ⟨inv, trivial⟩
    · exact ⟨inv.put held, trivial⟩
  · rintro stored u (rfl | ⟨rfl, rfl⟩)
    · refine ⟨⟨inv.put held, trivial⟩, ?_⟩
      cases stored with
      | true => exact ok (inv.put held)
      | false => exact failed _ _
    · exact ⟨⟨inv, trivial⟩, failed _ _⟩

/-- A record that is saved, then the rest. -/
lemma wp_saveRecord_bind {β : Type} {s : Directory} {record : Saved} {f : Unit → DebugAct β}
    (inv : Inv c id s) (held : Held c id record s)
    (next : Inv c id (s.put record) →
      wp debugWorld (machine c id) Ended (f ()).run true (s.put record)) :
    wp debugWorld (machine c id) Ended (saveRecord record >>= f).run true s :=
  wp_act_bind inv (wp_saveRecord inv held (fun inv _ => next inv) fun _ _ => goes_error)

lemma wp_debugLoad {runtime : Option Runtime} {file : String} {s : Directory}
    {post : Except Error Saved → Bool → Directory → Prop} (inv : Inv c id s)
    (ok : ∀ saved, s.files file = some (some saved) → admitted c runtime file saved = .ok saved →
      post (.ok saved) true s)
    (error : ∀ error, (error.code = retiredBackend.code → ∀ saved,
      s.files file = some (some saved) → saved.recipe.contract = RETIRED_CONTRACT) →
      post (.error error) true s) :
    wp debugWorld (machine c id) post (debugLoad c runtime file).run true s := by
  refine wp_lift_bind_held inv (fun _ _ => ?_) fun e failed => error e fun retired => ?_
  · refine wp_act_bind inv (wp_attempt_held (fun u same => ?_) fun read u exec => ?_)
    · cases same
      exact ⟨inv, trivial⟩
    · have ⟨same, there⟩ := exec
      subst same
      refine ⟨⟨inv, trivial⟩, ?_⟩
      cases read with
      | none =>
        exact fun _ => wp_done_held.mpr (error _ fun retired => by
          simp [retiredBackend, Error.evidence] at retired)
      | some saved =>
        refine fun _ => wp_lift_held ?_
        have here := there saved rfl
        cases checked : admitted c runtime file saved with
        | ok other =>
          have same := (admitted_eq_ok checked).1
          subst same
          exact ok _ here checked
        | error e =>
          refine error e fun retired other there => ?_
          have same : other = saved := by simpa [here, eq_comm] using there
          subst same
          exact admitted_eq_error checked retired
  · simp only [name, reject_eq_error] at failed
    simp [← failed.2, retiredBackend, Error.configuration] at retired

/-- A record that is loaded, then the rest. -/
lemma wp_debugLoad_bind {β : Type} {runtime : Option Runtime} {file : String} {s : Directory}
    {f : Saved → DebugAct β} (inv : Inv c id s)
    (next : ∀ saved, Held c id saved s → ClaimKnown id saved s.log →
      wp debugWorld (machine c id) Ended (f saved).run true s) :
    wp debugWorld (machine c id) Ended (debugLoad c runtime file >>= f).run true s := by
  refine wp_act_bind inv (wp_debugLoad inv (fun saved there checked _ => ?_) fun _ _ => goes_error)
  have ⟨held, known⟩ := inv.loaded there (admitted_eq_ok checked).2.2.1
  exact next saved held known

/-- The records that a listing is sure to have. -/
def Listed (c : Context) (s : Directory) (ids : List String) (records : List Saved) : Prop :=
  ∀ file ∈ ids, ∀ saved, s.files file = some (some saved) →
    saved.recipe.contract ≠ RETIRED_CONTRACT → saved ∈ records ∧ saved.recipe.identity = file ∧
      ∃ profile : Profile,
        profile.recipe c saved.recipe.request saved.recipe.createdAt = some saved.recipe

lemma wp_collect {runtime : Option Runtime} {s : Directory} (inv : Inv c id s) :
    ∀ ids : List String, wp debugWorld (machine c id)
      (fun r held t => held = true ∧ t = s ∧ ∀ records, r = .ok records → Listed c s ids records)
      (collect (debugLoad c runtime) ids).run true s
  | [] => wp_done_held.mpr ⟨rfl, rfl, fun _ _ file there => by simp at there⟩
  | file :: ids => by
    have ih := @wp_collect runtime s inv ids
    refine wp_bind inv (wp_debugLoad inv (fun saved there checked _ => ?_) fun error retired _ => ?_)
    · obtain ⟨_, _, named, issued⟩ := admitted_eq_ok checked
      refine wp_bind inv (wp_mono ?_ ih)
      rintro (error | records) held t ⟨rfl, rfl, listed⟩ _
      · exact wp_done_held.mpr ⟨rfl, rfl, fun _ failed => by cases failed⟩
      · refine wp_done_held.mpr ⟨rfl, rfl, fun all same => ?_⟩
        rw [← Except.ok.inj same]
        intro other member found at_other current
        rcases List.mem_cons.mp member with rfl | member
        · have equal : found = saved := by simpa [there, eq_comm] using at_other
          subst equal
          exact ⟨List.mem_cons_self, named, issued⟩
        · obtain ⟨inside, rest⟩ := listed records rfl other member found at_other current
          exact ⟨List.mem_cons_of_mem _ inside, rest⟩
    · simp only
      split
      · rename_i code
        refine wp_mono ?_ ih
        rintro r held t ⟨rfl, rfl, listed⟩
        refine ⟨rfl, rfl, fun records same other member found at_other current => ?_⟩
        rcases List.mem_cons.mp member with rfl | member
        · exact absurd (retired code found at_other) current
        · exact listed records same other member found at_other current
      · exact wp_done_held.mpr ⟨rfl, rfl, fun _ failed => by cases failed⟩

/-- **A listing**, then the rest: it has every record that could be there. -/
lemma wp_debugRecords_bind {β : Type} {runtime : Option Runtime} {s : Directory}
    {f : List Saved → DebugAct β} (inv : Inv c id s)
    (next : ∀ records, (∀ file saved, s.files file = some (some saved) →
      saved.recipe.contract ≠ RETIRED_CONTRACT → saved ∈ records ∧ saved.recipe.identity = file ∧
        ∃ profile : Profile,
          profile.recipe c saved.recipe.request saved.recipe.createdAt = some saved.recipe) →
      wp debugWorld (machine c id) Ended (f records).run true s) :
    wp debugWorld (machine c id) Ended (debugRecords c runtime >>= f).run true s := by
  refine wp_act_bind inv (wp_act_bind inv (wp_attempt_held (fun u same => ?_) fun names u exec => ?_))
  · cases same
    exact ⟨inv, trivial⟩
  · have ⟨same, all⟩ := exec
    subst same
    refine ⟨⟨inv, trivial⟩, ?_⟩
    cases names with
    | none => exact fun _ => wp_done_held.mpr goes_error
    | some ids =>
      refine fun _ => wp_mono ?_ (wp_collect inv ids)
      rintro (error | records) held t ⟨rfl, rfl, listed⟩
      · exact goes_error
      · refine fun _ => next records fun file saved there current => ?_
        have member : file ∈ ids := (all ids rfl file).mpr (by simp [there])
        exact listed records rfl file member saved there current

/-- A view, behind the lock. -/
lemma wp_release {α : Type} {s : Directory} {a : α} (inv : Inv c id s) :
    wp debugWorld (machine c id) Ended (do
      Act.unlock
      pure a : DebugAct α).run true s :=
  wp_unlock_bind inv fun _ _ _ _ _ => trivial

lemma wp_observed_bind {β : Type} {profile : Profile} {timestamp : ℤ} {saved : Saved} {s : Directory}
    {f : Except Error Unit × Saved → DebugAct β} (inv : Inv c id s) (held : Held c id saved s)
    (known : ClaimKnown id saved s.log)
    (next : ∀ result t, Inv c id t → Held c id result.2 t →
      wp debugWorld (machine c id) Ended (f result).run true t) :
    wp debugWorld (machine c id) Ended (observed c profile timestamp saved >>= f).run true s := by
  refine wp_act_bind inv (wp_bind inv (wp_mono ?_ (observe_does saved s inv held known)))
  rintro result on t ⟨rfl, inv, held, _⟩ _
  exact wp_done_held.mpr fun _ => next result t inv held

lemma wp_expireRecord_bind {β : Type} {timestamp : ℤ} {saved : Saved} {s : Directory}
    {f : Saved → DebugAct β} (inv : Inv c id s) (held : Held c id saved s)
    (known : ClaimKnown id saved s.log)
    (next : ∀ record t, Inv c id t → Held c id record t → ClaimKnown id record t.log →
      wp debugWorld (machine c id) Ended (f record).run true t) :
    wp debugWorld (machine c id) Ended (expireRecord timestamp saved >>= f).run true s := by
  refine wp_act_bind inv ?_
  unfold expireRecord
  split
  · have stopping : Held c id { saved with stopRequested := true } s :=
      fun same => { held same with }
    refine wp_act_bind inv (wp_saveRecord inv stopping (fun inv _ => ?_) fun _ _ _ => ?_)
    · exact wp_done_held.mpr fun _ => next _ _ inv (fun same => (stopping same).saved same)
        fun same claimed => (known same claimed).cons _
    · exact wp_done_held.mpr goes_error
  · exact wp_done_held.mpr fun _ => next saved s inv held known

/-- **A refresh** keeps what the log tells. -/
lemma wp_debugRefresh {runtime : Option Runtime} {file now : String} {s : Directory}
    (inv : Inv c id s) :
    wp debugWorld (machine c id) Ended (debugRefresh c runtime file now).run false s := by
  refine wp_lock_bind inv (fun t _ inv => ?_) fun _ _ _ => trivial
  refine wp_debugLoad_bind inv fun saved held known => ?_
  split
  · exact wp_release inv
  split
  · rename_i rejected
    unfold settleRejected
    split
    · refine wp_saveRecord_bind inv (fun same => ?_) fun inv => wp_release inv
      exact { held same with deleted := fun _ => .inr ((held same).rejected rejected) }
    · exact wp_release inv
  · refine wp_lift_bind_held inv (fun current _ => ?_) fun _ _ => trivial
    refine wp_lift_bind_held inv (fun profile _ => ?_) fun _ _ => trivial
    refine wp_lift_bind_held inv (fun timestamp _ => ?_) fun _ _ => trivial
    refine wp_expireRecord_bind inv held known fun record t inv held known => ?_
    refine wp_observed_bind inv held known fun result u inv held => ?_
    exact wp_saveRecord_bind inv (fun same => { held same with }) fun inv => wp_release inv

/-- A computation without operations and without the lock, then the rest. -/
lemma wp_lift_bind_free {α β : Type} {r : Except Error α} {s : Directory} {f : α → DebugAct β}
    (inv : Inv c id s)
    (next : ∀ a t, Inv c id t → wp debugWorld (machine c id) Ended (f a).run false t) :
    wp debugWorld (machine c id) Ended (Act.lift r >>= f : DebugAct β).run false s := by
  refine wp_act_bind inv fun t _ => ?_
  cases r with
  | error error => exact goes_error
  | ok a => exact fun inv => next a t inv

lemma wp_debugStop {runtime : Option Runtime} {file confirmation now : String} {delete : Bool}
    {s : Directory} (inv : Inv c id s) :
    wp debugWorld (machine c id) Ended
      (debugStop c runtime file confirmation delete now).run false s := by
  refine wp_lift_bind_free inv fun _ t inv => ?_
  refine wp_lock_bind inv (fun u _ inv => ?_) fun _ _ _ => trivial
  refine wp_debugLoad_bind inv fun saved held known => ?_
  refine wp_saveRecord_bind inv (fun same => { held same with }) fun inv => ?_
  exact wp_unlock_bind inv fun _ _ inv => wp_debugRefresh inv

lemma reads_debugLoad {runtime : Option Runtime} {file : String} :
    (debugLoad c runtime file).Reads debugWorld := by
  have reads : debugWorld.ReadOnly (.read file) := ⟨fun same => same, fun answered => answered.1⟩
  exact (Act.Reads.lift _).bind fun _ => (Act.Reads.attempt reads _).bind fun _ => Act.Reads.lift _

lemma reads_debugRecords {runtime : Option Runtime} :
    (debugRecords c runtime).Reads debugWorld := by
  have reads : debugWorld.ReadOnly .names := ⟨fun same => same, fun answered => answered.1⟩
  have collected : ∀ ids : List String,
      (collect (debugLoad c runtime) ids : DebugAct (List Saved)).Reads debugWorld := by
    intro ids
    induction ids with
    | nil => exact trivial
    | cons file ids ih =>
      refine Prog.Reads.bind reads_debugLoad ?_
      rintro (error | saved)
      · simp only
        split
        · exact ih
        · exact trivial
      · exact Act.Reads.bind ih fun _ => trivial
  exact (Act.Reads.attempt reads _).bind collected

/-- A program that still had the lock would not get it. -/
lemma wp_debugRefresh_held {runtime : Option Runtime} {file now : String} {s : Directory} :
    wp debugWorld (machine c id) Ended (debugRefresh c runtime file now).run true s := by
  intro t _
  refine ⟨fun free => ?_, fun _ _ => trivial⟩
  cases free

lemma wp_refreshAll {runtime : Option Runtime} {now : String} :
    ∀ {records : List Saved} {held : Bool} {s : Directory}, Inv c id s →
      wp debugWorld (machine c id) Ended
        (refreshAll (fun file => debugRefresh c runtime file now) records).run held s
  | [], _, _, _ => fun _ _ => trivial
  | saved :: rest, held, s, inv => by
    have first : wp debugWorld (machine c id) Ended
        (debugRefresh c runtime saved.recipe.identity now).run held s := by
      cases held with
      | true => exact wp_debugRefresh_held
      | false => exact wp_debugRefresh inv
    refine wp_act_bind inv (wp_mono ?_ first)
    rintro (error | view) held t _
    · exact goes_error
    · exact fun inv => wp_refreshAll inv

lemma wp_debugExpire {runtime : Option Runtime} {now : String} {s : Directory} (inv : Inv c id s) :
    wp debugWorld (machine c id) Ended (debugExpire c runtime now).run false s := by
  unfold debugExpire
  split
  · refine wp_lift_bind_free inv fun timestamp t inv => ?_
    exact wp_reads_bind_free reads_debugRecords inv (fun _ _ _ inv => wp_refreshAll inv)
      fun _ _ _ _ => trivial
  · exact fun _ _ => trivial

section Create

variable {F : Type} {format : FloatFormat F} {sha256 : Bytes → String}

/-- A new record where no record has its request id: its file is new as well. -/
lemma held_new (hash : Function.Injective sha256) (encoding : c.enc = format.encoding sha256)
    {s : Directory} (inv : Inv c id s) {profile : Profile} {request : Create} {now : String}
    {recipe : Recipe} {records : List Saved} (made : profile.recipe c request now = some recipe)
    (listed : ∀ file saved, s.files file = some (some saved) →
      saved.recipe.contract ≠ RETIRED_CONTRACT → saved ∈ records ∧ saved.recipe.identity = file ∧
        ∃ profile : Profile,
          profile.recipe c saved.recipe.request saved.recipe.createdAt = some saved.recipe)
    (fresh : ∀ saved ∈ records, saved.recipe.request.requestId ≠ request.requestId) :
    Held c id (Saved.new recipe) s := by
  intro same
  have ⟨_, asked, created, first, digest, written, named⟩ := recipe_issued made
  have none : lastSaved id s.log = none := by
    cases saved : lastSaved id s.log with
    | none => rfl
    | some last =>
      have ⟨profile', issued⟩ := (inv.told.recorded saved).issued
      have ⟨current, _, _, second, other, written', named'⟩ := recipe_issued issued
      have there : s.files id = some (some last) := by rw [inv.file, saved]; rfl
      have ⟨member, at_id, _⟩ := listed id last there (by rw [current]; decide)
      have digests : digest = other := by
        have names : "debug." ++ digest = "debug." ++ other := by
          rw [← named, ← named', at_id]
          exact same
        exact String.append_right_inj _ |>.mp names
      rw [encoding] at written written'
      exact absurd (requestId_of_digest hash written' (digests ▸ written)) (fresh last member)
  exact
    { issued := ⟨profile, by simpa [Saved.new, asked, created] using made⟩
      claims := fun last saved => by simp [none] at saved
      provider := fun last provider saved => by simp [none] at saved
      deleted := fun gone => by simp [Saved.new] at gone
      rejected := fun refused => by simp [Saved.new] at refused }

/-- **A creation** keeps what the log tells: a machine has one record. -/
lemma wp_debugCreate (hash : Function.Injective sha256) (encoding : c.enc = format.encoding sha256)
    {runtime : Option Runtime} {request : Create} {now : String} {s : Directory}
    (inv : Inv c id s) :
    wp debugWorld (machine c id) Ended (debugCreate c runtime request now).run false s := by
  refine wp_lock_bind inv (fun t _ inv => ?_) fun _ _ _ => trivial
  refine wp_lift_bind_held inv (fun enabled _ => ?_) fun _ _ => trivial
  refine wp_lift_bind_held inv (fun profile _ => ?_) fun _ _ => trivial
  refine wp_lift_bind_held inv (fun recipe made => ?_) fun _ _ => trivial
  refine wp_debugRecords_bind inv fun records listed => ?_
  cases found : records.find? fun record => record.recipe.request.requestId = request.requestId with
  | some existing =>
    exact wp_lift_bind_held inv (fun _ _ => wp_release inv) fun _ _ => trivial
  | none =>
    have fresh : ∀ saved ∈ records, saved.recipe.request.requestId ≠ request.requestId := by
      simpa [List.find?_eq_none] using found
    have held := held_new hash encoding inv (required_eq_ok.mp made) listed fresh
    refine wp_act_bind inv (wp_lift_bind_held inv (fun _ _ => ?_) fun _ _ => goes_error)
    refine wp_saveRecord inv held (fun inv _ => ?_) fun _ _ => goes_error
    exact wp_unlock_bind inv fun _ _ inv => wp_debugRefresh inv

end Create

/-! ## Runs -/

/-- A call of one of the operations. -/
inductive Call
  | create (runtime : Option Runtime) (request : Create) (now : String)
  | refresh (runtime : Option Runtime) (id now : String)
  | stop (runtime : Option Runtime) (id confirmation : String) (delete : Bool) (now : String)
  | expire (runtime : Option Runtime) (now : String)

/-- The program of a call, up to what it returns. -/
def Call.program (c : Context) : Call → Prog Op Op.Answer Unit
  | .create runtime request now => (debugCreate c runtime request now).run.bind fun _ => .done ()
  | .refresh runtime id now => (debugRefresh c runtime id now).run.bind fun _ => .done ()
  | .stop runtime id confirmation delete now =>
      (debugStop c runtime id confirmation delete now).run.bind fun _ => .done ()
  | .expire runtime now => (debugExpire c runtime now).run.bind fun _ => .done ()

/-- Every call, at any time. -/
def calls (c : Context) : Set (Prog Op Op.Answer Unit) := Set.range (Call.program c)

/-- What an operation returns does not matter. -/
lemma wp_returned {α : Type} {p : Prog Op Op.Answer α} {s : Directory} (inv : Inv c id s)
    (kept : wp debugWorld (machine c id) Ended p false s) :
    wp debugWorld (machine c id) Ended (p.bind fun _ => .done ()) false s := by
  refine wp_bind inv (wp_mono ?_ kept)
  intro _ _ _ _ _ _ _
  trivial

/-- **Every call keeps what the log tells.** -/
lemma calls_verified {F : Type} {format : FloatFormat F} {sha256 : Bytes → String}
    (hash : Function.Injective sha256) (encoding : c.enc = format.encoding sha256) (id : String) :
    Verified debugWorld (machine c id) (calls c) fun _ _ => True where
  stable _ _ := trivial
  start := by
    rintro _ ⟨call, rfl⟩ s inv
    cases call with
    | create runtime request now => exact wp_returned inv (wp_debugCreate hash encoding inv)
    | refresh runtime file now => exact wp_returned inv (wp_debugRefresh inv)
    | stop runtime file confirmation delete now => exact wp_returned inv (wp_debugStop inv)
    | expire runtime now => exact wp_returned inv (wp_debugExpire inv)

lemma Told.earlier {later log : List Event} (told : Told c id (later ++ log)) : Told c id log := by
  induction later with
  | nil => exact told
  | cons event later ih => exact ih told.2

/-- A saved provider id is that of the record that was saved last. -/
lemma Told.provider {log : List Event} {record : Saved} {provider : String} (told : Told c id log)
    (saved : .saved record ∈ log) (same : record.recipe.identity = id)
    (known : record.providerId = some provider) :
    ∃ last, lastSaved id log = some last ∧ last.providerId = some provider := by
  induction log with
  | nil => simp at saved
  | cons event log ih =>
    have ⟨follows, before⟩ := told
    rcases List.mem_cons.mp saved with rfl | earlier
    · exact ⟨record, lastSaved_saved same, known⟩
    have ⟨last, found, kept⟩ := ih before earlier
    cases event with
    | called other request reply => exact ⟨last, by simpa using found, kept⟩
    | saved next =>
      by_cases machine : next.recipe.identity = id
      · exact ⟨next, lastSaved_saved machine, (follows machine).provider last provider found kept⟩
      · exact ⟨last, by rw [lastSaved_other machine]; exact found, kept⟩

section Sample

open Encoding (sampleFormat)

/-- Two digits for the number of a machine. -/
def sampleDigits (n : Fin 17) : List Char := [hexDigit (n / 16), hexDigit (n % 16)]

def sampleRequest (n : Fin 17) : Create where
  profile := "gpu"
  requestId := String.ofList (List.replicate 30 '7' ++ sampleDigits n)
  sshPublicKey := "ssh-ed25519 AAAA"
  leaseSeconds := 3600
  gpus := 1
  cpus := 4
  memoryGb := 16

def sampleProfile : Profile where
  document := .object []
  valid := true
  region := "cn-sh-01"
  workspaceId := "workspace"
  quotaId := "quota"
  maxGpus := 8
  maxCpus := 64
  maxMemoryGb := 512

/-- The digest of the sampled profile. -/
def sampleProfileDigest : String := String.ofList ('x' :: lowerHex (Json.object []).write)

def sampleIdentity (n : Fin 17) : Json :=
  Profile.identityDocument sampleProfileDigest (sampleRequest n)

def sampleBytes (n : Fin 17) : Bytes := ((sampleIdentity n).normal sampleFormat).write

/-- The digest of a sampled machine. -/
def sampleDigest (n : Fin 17) : String :=
  String.ofList (List.replicate 62 'a' ++ sampleDigits n)

/-- A hash without collisions: the digests of the sampled machines, and the bytes of all else. -/
def sampleDebugSha256 (bytes : Bytes) : String :=
  match (List.finRange 17).find? fun n => bytes = sampleBytes n with
  | some n => sampleDigest n
  | none => String.ofList ('x' :: lowerHex bytes)

lemma sampleDigits_injective : Function.Injective sampleDigits := by decide

lemma sampleDigest_injective : Function.Injective sampleDigest := by
  intro n m same
  exact sampleDigits_injective (List.append_cancel_left (String.ofList_injective same))

lemma sampleDebugSha256_injective : Function.Injective sampleDebugSha256 := by
  have differ : ∀ n chars, sampleDigest n ≠ String.ofList ('x' :: chars) := by
    intro n chars same
    have lists := String.ofList_injective same
    exact absurd (List.cons.inj lists).1 (by decide)
  intro left right same
  unfold sampleDebugSha256 at same
  cases here : (List.finRange 17).find? fun n => left = sampleBytes n with
  | none =>
    cases there : (List.finRange 17).find? fun n => right = sampleBytes n with
    | none =>
      rw [here, there] at same
      exact lowerHex_injective (List.cons.inj (String.ofList_injective same)).2
    | some m =>
      rw [here, there] at same
      exact absurd same.symm (differ _ _)
  | some n =>
    cases there : (List.finRange 17).find? fun n => right = sampleBytes n with
    | none =>
      rw [here, there] at same
      exact absurd same (differ _ _)
    | some m =>
      rw [here, there] at same
      have left_eq : left = sampleBytes n := by simpa using List.find?_some here
      have right_eq : right = sampleBytes m := by simpa using List.find?_some there
      rw [left_eq, right_eq, sampleDigest_injective same]

lemma bytes_sampleIdentity (n : Fin 17) :
    (sampleFormat.encoding sampleDebugSha256).bytes (sampleIdentity n) = .ok (sampleBytes n) :=
  Json.bytes_normal _ _ (readable_identity _ _)

lemma sampleBytes_injective : Function.Injective sampleBytes := by
  intro n m same
  have equal : (sampleFormat.encoding sampleDebugSha256).bytes (sampleIdentity n) =
      (sampleFormat.encoding sampleDebugSha256).bytes (sampleIdentity m) := by
    rw [bytes_sampleIdentity, bytes_sampleIdentity, same]
  have tokens : (sampleRequest n).requestId = (sampleRequest m).requestId :=
    requestId_of_bytes equal
  exact sampleDigits_injective (List.append_cancel_left (String.ofList_injective tokens))

/-- A machine is found by what tells it from the others. -/
lemma find_sample {α : Type} [DecidableEq α] {f : Fin 17 → α} (f_injective : Function.Injective f)
    (n : Fin 17) : (List.finRange 17).find? (fun m => f n = f m) = some n := by
  cases found : (List.finRange 17).find? fun m => f n = f m with
  | none =>
    have differs := List.find?_eq_none.mp found n (List.mem_finRange n)
    rw [decide_eq_true_eq] at differs
    exact absurd rfl differs
  | some m =>
    have same : f n = f m := by simpa using List.find?_some found
    rw [f_injective same]

lemma sampleDebugSha256_bytes (n : Fin 17) : sampleDebugSha256 (sampleBytes n) = sampleDigest n := by
  unfold sampleDebugSha256
  rw [find_sample sampleBytes_injective]

def sampleContext : Context where
  enc := sampleFormat.encoding sampleDebugSha256
  rfc3339 text := if text = "2026-01-01T00:00:00Z" then some 1767225600 else none
  validKey text := text = "ssh-ed25519 AAAA"
  requestValid _ := true
  createBody _ _ := some (.object [])
  idText := Json.asStr
  lifecycleMessage _ _ := none
  connection _ _ := none

def sampleRecipe (n : Fin 17) : Recipe where
  contract := CONTRACT
  identity := "debug." ++ sampleDigest n
  name := "ml_exp_" ++ String.ofList ((sampleDigest n).toList.take 20)
  profileSha256 := sampleProfileDigest
  request := sampleRequest n
  createdAt := "2026-01-01T00:00:00Z"
  expiresAt := 1767229200

lemma isLowerHex_sampleDigits : ∀ n, (sampleDigits n).all isLowerHex = true := by decide

lemma validate_sampleRequest (n : Fin 17) : (sampleRequest n).validate sampleContext = true := by
  have marker : (submissionMarker (sampleRequest n).requestId).isOk := by
    have hex : ((sampleRequest n).requestId.toList.all isLowerHex) = true := by
      rw [sampleRequest, String.toList_ofList, List.all_append, isLowerHex_sampleDigits]
      decide
    have length : (sampleRequest n).requestId.toList.length = 32 := by
      rw [sampleRequest, String.toList_ofList]
      rfl
    simp [submissionMarker, hex, length, reject]
    rfl
  have profile : (validateId (sampleRequest n).profile).isOk := by
    show (validateId "gpu").isOk
    decide
  rw [Create.validate, decide_eq_true_eq]
  exact ⟨profile, marker, by simp [sampleContext, sampleRequest]⟩

/-- The sampled recipes are issued. -/
lemma sample_issued (n : Fin 17) :
    sampleProfile.recipe sampleContext (sampleRequest n) "2026-01-01T00:00:00Z" =
      some (sampleRecipe n) := by
  have other : ∀ m, (Json.object []).write ≠ sampleBytes m := by
    intro m
    simp [sampleBytes, sampleIdentity, Profile.identityDocument, Json.normal, Json.write]
  have unlisted : sampleDebugSha256 (Json.object []).write = sampleProfileDigest := by
    unfold sampleDebugSha256
    rw [List.find?_eq_none.mpr fun m _ => by simp [other m]]
    rfl
  have profile : sampleProfile.digest sampleContext = some sampleProfileDigest := by
    have empty : (Json.object []).normal sampleFormat = .object [] := by decide
    have written : (sampleFormat.encoding sampleDebugSha256).bytes (.object []) =
        .ok ((Json.object []).normal sampleFormat).write := Json.bytes_normal _ _ (by decide)
    rw [Profile.digest, if_pos (by rfl), Encoding.digest]
    show (((sampleFormat.encoding sampleDebugSha256).bytes (.object [])).map
      sampleDebugSha256).toOption = _
    rw [written, empty, ← unlisted]
    rfl
  have machine : sampleContext.enc.digest (sampleIdentity n) = .ok (sampleDigest n) := by
    show ((sampleFormat.encoding sampleDebugSha256).bytes (sampleIdentity n)).map
      sampleDebugSha256 = _
    rw [bytes_sampleIdentity, ← sampleDebugSha256_bytes]
    rfl
  simp only [Profile.recipe, Option.bind_eq_bind, Option.bind_eq_some_iff, ensure_eq_some]
  have bounded : (sampleRequest n).gpus ≤ 8 ∧ (sampleRequest n).cpus ≤ 64 ∧
      (sampleRequest n).memoryGb ≤ 512 ∧ (sampleRequest n).leaseSeconds ≤ 14400 := by
    simp [sampleRequest]
  have ends : (1767225600 + (sampleRequest n).leaseSeconds : ℤ) < 2 ^ 63 := by
    simp [sampleRequest]
  refine ⟨(), ⟨rfl, validate_sampleRequest n⟩, sampleProfileDigest, profile, 1767225600, rfl, (), bounded,
    sampleDigest n, ?_, (), ends, rfl⟩
  show (sampleContext.enc.digest (sampleIdentity n)).toOption = _
  rw [machine]
  rfl

lemma name_sample (n : Fin 17) : name (sampleRecipe n).identity = .ok () := by
  have valid : Sources.validateArchiveDigest (sampleDigest n) = .ok () := by
    refine Sources.validateArchiveDigest_ofList rfl fun c there => ?_
    rcases List.mem_append.mp there with filler | digit
    · exact ⟨10, by decide, List.eq_of_mem_replicate filler⟩
    · simp only [sampleDigits, List.mem_cons, List.not_mem_nil, or_false] at digit
      rcases digit with rfl | rfl
      · exact ⟨n / 16, by omega, rfl⟩
      · exact ⟨n % 16, by omega, rfl⟩
  rw [name, reject_eq_ok, sampleRecipe, Sources.stripPrefix_append, Option.any_some, valid]
  decide

def sampleStart : Directory := ⟨fun _ => none, []⟩

def sampleRuntime : Runtime := ⟨true, 16, [("gpu", sampleProfile)]⟩

/-- A creation up to its record. -/
lemma create_begins (c : Context) (runtime : Runtime) {profile : Profile} {recipe : Recipe}
    {request : Create} {now : String} (on : runtime.enabled = true) (room : 0 < runtime.maxActive)
    (known : runtime.profiles.lookup request.profile = some profile)
    (made : profile.recipe c request now = some recipe) (named : name recipe.identity = .ok ()) :
    ∃ next, (Call.create (some runtime) request now).program c = .acquire next ∧
      ∃ rest, next true = .call .names rest ∧
        ∃ last, rest (some []) = .call (.save (Saved.new recipe)) last := by
  have enabled : (some runtime).filter Runtime.enabled = some runtime := by simp [on]
  have lifted : ∀ {α β : Type} (error : Error) (a : α) (f : α → DebugAct β),
      (Act.lift (required error (some a)) >>= f) = f a := fun _ _ _ => rfl
  simp only [Call.program, debugCreate, enabled, lifted, known, made]
  refine ⟨_, rfl, _, rfl, ?_⟩
  have accepted : reject ((([] : List Saved).filter fun record =>
      ¬(record.terminal = true ∧ record.networkClean = true ∨ record.deleted = true)).length ≥
        runtime.maxActive) machineLimit = .ok () := by
    rw [reject_eq_ok]
    simp [Nat.ne_of_gt room]
  have same : createRecord runtime recipe [] = saveRecord (Saved.new recipe) := by
    rw [createRecord, accepted]
    rfl
  have written : ∃ last,
      (saveRecord (Saved.new recipe)).run = .call (.save (Saved.new recipe)) last := by
    have named' : name (Saved.new recipe).recipe.identity = .ok () := named
    rw [saveRecord, named']
    exact ⟨_, rfl⟩
  show ∃ last, Prog.bind (ExceptT.run (createRecord runtime recipe [] >>= _)) _ = _
  rw [same]
  obtain ⟨last, saved⟩ := written
  show ∃ last, Prog.bind (Prog.bind (saveRecord (Saved.new recipe)).run _) _ = _
  rw [saved]
  exact ⟨_, rfl⟩

/-- The sampled machine after its creation stopped behind the saving of its record. -/
def sampleStore : Directory := sampleStart.put (Saved.new (sampleRecipe 0))

lemma sample_reached :
    Reachable debugWorld (calls sampleContext) sampleStart ⟨sampleStore, [], []⟩ := by
  have ⟨next, opened, rest, listing, last, saving⟩ :=
    create_begins sampleContext sampleRuntime rfl (by decide) rfl (sample_issued 0) (name_sample 0)
  have started : Step debugWorld (calls sampleContext) ⟨sampleStart, [], []⟩
      ⟨sampleStart, [⟨.acquire next, false⟩], []⟩ := by
    rw [← opened]
    exact .spawn ⟨_, rfl⟩
  have locked : Step debugWorld (calls sampleContext)
      ⟨sampleStart, [] ++ [⟨.acquire next, false⟩], []⟩
      ⟨sampleStart, [⟨.call .names rest, true⟩], []⟩ := by
    rw [← listing]
    exact .acquire (by simp)
  have listed : Step debugWorld (calls sampleContext)
      ⟨sampleStart, [] ++ [⟨.call .names rest, true⟩], []⟩
      ⟨sampleStart, [⟨.call (.save (Saved.new (sampleRecipe 0))) last, true⟩], []⟩ := by
    have answered : debugExec sampleStart .names (some ([] : List String)) sampleStart := by
      refine ⟨rfl, fun ids some file => ?_⟩
      rw [← Option.some.inj some]
      simp [sampleStart]
    rw [← saving]
    exact .call _ answered
  have stopped : Step debugWorld (calls sampleContext)
      ⟨sampleStart, [] ++ [⟨.call (.save (Saved.new (sampleRecipe 0))) last, true⟩], []⟩
      ⟨sampleStore, [] ++ [], []⟩ := .crash (.inr rfl)
  exact (((Relation.ReflTransGen.single started).tail locked).tail listed).tail stopped

end Sample
end Debug

end Cloud

end ExperimentControl
