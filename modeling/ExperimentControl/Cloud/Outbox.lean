import ExperimentControl.Cloud.Adapter

/-!
# The cloud outbox

`server/src/backends/cloud/outbox.rs`: the record of a slot is the persistent boundary around the
provider effects of one Attempt.  The marker of an effect is saved before the effect, its result
afterwards, and every effect is sent under one lock.

* `load`, `check`, `save` — the record of a slot.
* `prepare`, `execute`, `reconcile`, `stopSlot` — the operations on a slot.
-/

namespace ExperimentControl

namespace Cloud

section Outbox

variable {Row : Type} (P : Provider Row)

def guard : Eff Row Unit := Act.attempt .guard id

def cancelled : Eff Row Bool := Act.ask Op.cancelled

/-- The mark of a stop that has its observation. -/
def answered (slot : String) (observation : JobObservation) : Eff Row Unit :=
  Act.ask (Op.answered slot observation)

/-- The checks a record has to pass wherever it is read. -/
def validateEntry (slot : String) (entry : Entry) : Except Error Unit := do
  reject (entry.format ≠ format) Error.evidence
  let own ← P.slot entry.job
  reject (own ≠ slot) Error.evidence
  let digest ← P.jobDigest entry.job
  reject (entry.requestSha256 ≠ digest ∨
    (entry.handle.isSome ∧ ¬entry.started) ∨
    (entry.cancellationStarted ∧ entry.handle.isNone) ∨
    (entry.terminationVerified ∧ ¬entry.cancellationStarted)) Error.evidence

def load (slot : String) : Eff Row Entry := do
  let entry ← Act.attempt (.read slot) id
  Act.lift (validateEntry P slot entry)
  pure entry

/-- The record was made for this profile, job and allocation. -/
def checkEntry (entry : Entry) (job : Job) (allocation : Allocation) : Except Error Unit := do
  let profile ← P.profileDigest
  reject (entry.profileSha256 ≠ profile ∨ entry.job ≠ job) Error.evidence
  let digest ← P.jobDigest job
  reject (entry.requestSha256 ≠ digest ∨ entry.allocation ≠ allocation) Error.evidence
  match entry.handle with
  | none => .ok ()
  | some handle => P.validateHandle handle job

/-- Replace the record of a slot. -/
def save (entry : Entry) : Eff Row Unit := do
  let slot ← Act.lift (P.slot entry.job)
  Act.attempt (.replaceRegular slot entry)
    (Except.mapError fun _ => Error.transport entry.started)

inductive Phase
  | owned
  | reconcileRequired
  | prepared
  deriving DecidableEq, Repr

/-- What the callers of the outbox see of a record. -/
structure View where
  slot : String
  project : String
  runId : String
  attemptId : String
  phase : Phase
  handle : Option Handle
  observation : Option JobObservation
  diagnostic : Option Error
  confirmation : String
  cancellationStarted : Bool
  terminationVerified : Bool
  retrySafe : Bool
  deriving DecidableEq, Repr

def view (entry : Entry) : Except Error View := do
  let slot ← P.slot entry.job
  .ok {
    slot
    project := entry.job.project
    runId := entry.job.runId
    attemptId := entry.job.attemptId
    phase := if entry.handle.isSome then .owned else if entry.started then .reconcileRequired
      else .prepared
    handle := entry.handle
    observation := entry.observation
    diagnostic := entry.diagnostic
    confirmation := "SUBMIT " ++ slot
    cancellationStarted := entry.cancellationStarted
    terminationVerified := entry.terminationVerified
    retrySafe := !entry.started }

/-- Publish the record of a new slot, or find the one that is there. -/
def prepare (job : Job) (allocation : Allocation) : Eff Row View := do
  guard
  Act.lock Error.effectBusy
  Act.lift P.profileValidate
  Act.lift ((P.compile (.create job allocation)).mapError fun _ => Error.configuration)
  let slot ← Act.lift (P.slot job)
  let present ← Act.attempt (.entryExists slot) id
  if present then do
    let entry ← load P slot
    let profile ← Act.lift P.profileDigest
    Act.lift (reject (entry.profileSha256 ≠ profile ∨ entry.job ≠ job ∨
      entry.allocation ≠ allocation) Error.evidence)
    guard
    Act.lift (view P entry)
  else do
    let profile ← Act.lift P.profileDigest
    let digest ← Act.lift (P.jobDigest job)
    let entry : Entry :=
      { format, profileSha256 := profile, requestSha256 := digest, job, allocation,
        started := false, handle := none, cancellationStarted := false,
        terminationVerified := false, observation := none, diagnostic := none }
    guard
    Act.attempt (.publishNew slot entry) (Except.mapError fun _ => Error.transport false)
    guard
    Act.lift (view P entry)

/-- The result of a create, as it is recorded. -/
def Entry.created (entry : Entry) : Except Error Handle → Entry
  | .ok handle => { entry with handle := some handle, diagnostic := none }
  | .error e => { entry with diagnostic := some e }

def execute (job : Job) (allocation : Allocation) (confirmation : String) : Eff Row View := do
  guard
  Act.lock Error.effectBusy
  let slot ← Act.lift (P.slot job)
  let entry ← load P slot
  Act.lift (checkEntry P entry job allocation)
  Act.lift (reject (confirmation ≠ "SUBMIT " ++ slot) Error.configuration)
  if entry.started then
    Act.lift (view P entry)
  else do
    let stopping ← cancelled
    Act.lift (reject stopping (Error.transport false))
    guard
    let entry := { entry with started := true }
    save P entry
    -- from here on a failure or an interruption is reconciliation
    let result ← Act.outcome (do guard; create P job allocation)
    save P (entry.created result)
    Act.lift (view P (entry.created result))

/-- The result of a reconciliation, as it is recorded.  An observation that the recorded one does
not allow is refused. -/
def Entry.observed (entry : Entry) (handle : Option Handle) :
    Option JobObservation → Except Error Entry
  | none => .ok { entry with handle, diagnostic := none }
  | some observation => do
      reject (entry.observation.any fun previous => ¬previous.state.allows observation.state)
        Error.evidence
      .ok { entry with
        handle
        terminationVerified := entry.cancellationStarted && observation.state.isTerminal
        observation := some observation
        diagnostic := none }

/-- The end of a reconciliation, under the lock. -/
def commit (entry : Entry) (outcome : Except Error (Option Handle × Option JobObservation)) :
    Eff Row View :=
  match outcome with
  | .ok (handle, observation) => do
      guard
      let entry ← Act.lift (entry.observed handle observation)
      save P entry
      Act.lift (view P entry)
  | .error e => do
      let entry := { entry with diagnostic := some e }
      save P entry
      Act.lift (view P entry)

/-- Find the job of a slot without a handle, and observe it. -/
def findAndObserve (job : Job) : Eff Row (Option Handle × Option JobObservation) := do
  match ← find P job with
  | none => pure (none, none)
  | some handle => do
      let observation ← observe P job handle
      pure (some handle, some observation)

def reconcile (job : Job) (allocation : Allocation) : Eff Row View := do
  guard
  let slot ← Act.lift (P.slot job)
  Act.lock Error.effectBusy
  let entry ← load P slot
  Act.lift (checkEntry P entry job allocation)
  if ¬entry.started then
    Act.lift (view P entry)
  else
    match entry.handle with
    | some handle => do
        -- a recorded handle is only read, so the lock is not needed while the provider answers
        Act.unlock
        let observed ← Act.outcome (observe P job handle)
        Act.lock Error.effectBusy
        let current ← load P slot
        Act.lift (checkEntry P current job allocation)
        if current ≠ entry then
          Act.lift (view P current)
        else
          commit P current (observed.map fun o => (some handle, some o))
    | none => do
        let outcome ← Act.outcome (findAndObserve P job)
        commit P entry outcome

/-- The result of a stop, as it is recorded. -/
def Entry.stopped (entry : Entry) : Except Error JobObservation → Entry
  | .ok observation =>
      { entry with
        terminationVerified := observation.state.isTerminal
        observation := some observation
        diagnostic := none }
  | .error e => { entry with diagnostic := some e }

/-- `adapter.stop` behind the guard, with the mark of its answer. -/
def stopAnswer (job : Job) (slot : String) (handle : Handle) : Eff Row JobObservation := do
  guard
  let observation ← stop P job handle
  answered slot observation
  pure observation

def stopSlot (job : Job) (allocation : Allocation) (confirmation : String) : Eff Row View := do
  guard
  Act.lock Error.effectBusy
  let slot ← Act.lift (P.slot job)
  let entry ← load P slot
  Act.lift (checkEntry P entry job allocation)
  Act.lift (reject (confirmation ≠ "STOP " ++ slot) Error.configuration)
  match entry.handle with
  | none => Act.lift (.error Error.evidence)
  | some handle =>
      if entry.cancellationStarted then
        Act.lift (view P entry)
      else do
        let stopping ← cancelled
        Act.lift (reject stopping (Error.transport false))
        guard
        let entry := { entry with cancellationStarted := true }
        save P entry
        let result ← Act.outcome (stopAnswer P job slot handle)
        save P (entry.stopped result)
        Act.lift (view P (entry.stopped result))

end Outbox

end Cloud

end ExperimentControl
