import ExperimentControl.Json.Canonical
import ExperimentControl.Json.Records
import ExperimentControl.Cloud.Adapter
import ExperimentControl.Identity
import ExperimentControl.Library.Fallible
import ExperimentControl.Library.Work
import ExperimentControl.Sources.Digest

/-!
# Debug machines

`core/src/cloud/debug.rs` and `server/src/backends/cloud/service/engine/debug.rs`: one saved record for
each machine, and the requests that are made of the provider for it.

* `Profile`, `Recipe` — what a machine is asked for, and the requests that are made of it.
* `Saved` — the record of a machine.
* `admitted` — the checks of a record that was read.
* `collect`, `due`, `expire` — the listing of the records, and a pass over those that are due.
-/

namespace ExperimentControl

namespace Cloud

namespace Debug

/-! ## Recipes -/

structure Create where
  profile : String
  requestId : String
  sshPublicKey : String
  leaseSeconds : ℕ
  gpus : ℕ
  cpus : ℕ
  memoryGb : ℕ
  deriving DecidableEq, Repr

def Create.fields (request : Create) : Fields :=
  [("profile", .string request.profile), ("request_id", .string request.requestId),
    ("ssh_public_key", .string request.sshPublicKey), ("lease_seconds", .ofNat request.leaseSeconds),
    ("gpus", .ofNat request.gpus), ("cpus", .ofNat request.cpus),
    ("memory_gb", .ofNat request.memoryGb)]

def Create.document (request : Create) : Json := .object request.fields

structure Recipe where
  contract : String
  identity : String
  name : String
  profileSha256 : String
  request : Create
  createdAt : String
  expiresAt : ℤ
  deriving DecidableEq, Repr

/-- A provider profile, with the text it is written as and whether it is valid. -/
structure Profile where
  document : Json
  valid : Bool
  region : String
  workspaceId : String
  quotaId : String
  maxGpus : ℕ
  maxCpus : ℕ
  maxMemoryGb : ℕ
  deriving DecidableEq, Repr

inductive Method
  | get
  | post
  | put
  | delete
  deriving DecidableEq, Repr

structure Request where
  region : String
  method : Method
  action : String
  path : String
  query : List (String × String)
  body : Option Json
  readOnly : Bool
  deriving DecidableEq, Repr

/-- What comes from elsewhere: the canonical encoding, clocks, keys, and the texts of requests and
answers that nothing here depends on. -/
structure Context where
  enc : Encoding
  /-- The Unix time of an RFC 3339 text. -/
  rfc3339 : String → Option ℤ
  validKey : String → Bool
  requestValid : Request → Bool
  createBody : Profile → Recipe → Option Json
  /-- A provider's identifier as a text. -/
  idText : Json → Option String
  lifecycleMessage : Json → String → Option String
  connection : Profile → Json → Option Json

/-- A check of a recipe, of a request or of an answer. -/
def ensure (p : Prop) [Decidable p] : Option Unit := if p then some () else none

@[simp] lemma ensure_eq_some {p : Prop} [Decidable p] {u : Unit} : ensure p = some u ↔ p := by
  unfold ensure
  split <;> simp [*]

/-- A component of a resource path. -/
def resourceComponent (value : String) : Bool :=
  value ≠ "" ∧ byteLen value ≤ 256 ∧ value.toList.head?.any Char.isAlphanum ∧
    value.toList.all fun c => c.isAlphanum ∨ c = '_' ∨ c = '.' ∨ c = '-'

def CONTRACT : String := "native-debug-machine.v4"

/-- The contract only the retired SenseCore debug profile issued. -/
def RETIRED_CONTRACT : String := "native-debug-machine.v1"

def Create.validate (c : Context) (request : Create) : Bool :=
  (validateId request.profile).isOk ∧ (submissionMarker request.requestId).isOk ∧
    c.validKey request.sshPublicKey ∧ 0 < request.leaseSeconds ∧
    request.leaseSeconds < 2 ^ 63 ∧ 0 < request.cpus ∧ 0 < request.memoryGb

namespace Profile

variable (c : Context) (profile : Profile)

def digest : Option String :=
  if profile.valid then (c.enc.digest profile.document).toOption else none

/-- What the identity of a machine is the digest of. -/
def identityDocument (sha256 : String) (request : Create) : Json :=
  .array [.string CONTRACT, .string sha256, request.document]

def recipe (request : Create) (now : String) : Option Recipe := do
  ensure (profile.valid ∧ request.validate c)
  let profileSha256 ← profile.digest c
  let time ← c.rfc3339 now
  ensure (request.gpus ≤ profile.maxGpus ∧ request.cpus ≤ profile.maxCpus ∧
    request.memoryGb ≤ profile.maxMemoryGb ∧ request.leaseSeconds ≤ 14400)
  let identity ← (c.enc.digest (identityDocument profileSha256 request)).toOption
  ensure (time + request.leaseSeconds < 2 ^ 63)
  some
    { contract := CONTRACT
      identity := "debug." ++ identity
      name := "ml_exp_" ++ String.ofList (identity.toList.take 20)
      profileSha256 := profileSha256
      request := request
      createdAt := now
      expiresAt := time + request.leaseSeconds }

/-- A saved recipe must be exactly what this profile issues for its request and creation time. -/
def checkRecipe (recipe : Recipe) : Bool :=
  profile.recipe c recipe.request recipe.createdAt = some recipe

def req (method : Method) (action path : String) (body : Option Json) : Option Request :=
  let request : Request := ⟨profile.region, method, action, path, [], body, method = .get⟩
  if c.requestValid request then some request else none

def path (id : String) : Option String :=
  if resourceComponent id then some ("/api/v2/instances/" ++ id) else none

def get (recipe : Recipe) : Option String → Option Request
  | none => do
      let request ← profile.req c .get "ListInstances" "/api/v2/instances" none
      some { request with query := [("WorkspaceId", profile.workspaceId),
        ("InstanceName", recipe.name), ("PageNumber", "1"), ("PageSize", "100")] }
  | some id => do profile.req c .get "GetInstance" (← path id) none

def create (recipe : Recipe) : Option Request := do
  ensure (profile.checkRecipe c recipe)
  let body ← c.createBody profile recipe
  profile.req c .post "CreateInstance" "/api/v2/instances" (some body)

/-- The label that says whose machine it is. -/
def ownerLabel (recipe : Recipe) : Json :=
  .object [("Key", .string "ml-expd.debug"), ("Value", .string recipe.identity)]

def checked (recipe : Recipe) (id : Option String) (row : Json) : Option String := do
  ensure (profile.checkRecipe c recipe)
  let workspace ← c.idText (row.index "WorkspaceId")
  ensure (row.index "InstanceName" = .string recipe.name ∧ workspace = profile.workspaceId ∧
    row.index "ResourceId" = .string profile.quotaId ∧
    (row.index "Labels").asArray.any fun labels => labels.any fun label =>
      label.equal (ownerLabel recipe))
  let identifier ← (row.index "InstanceId").asStr
  ensure (resourceComponent identifier ∧ id.all fun id => id = identifier)
  some identifier

def stop (id : String) (delete : Bool) : Option Request := do
  let path ← path id
  if delete then profile.req c .delete "DeleteInstance" path none
  else profile.req c .put "StopInstance" (path ++ "/stop") (some (.object []))

def lifecycle (recipe : Recipe) (id : String) : Option Request := do
  let request ← profile.get c recipe (some id)
  some { request with
    path := request.path ++ "/lifecycle", action := "GetLifecycle", query := [("Limit", "1")] }

def timer (recipe : Recipe) (id : String) (now : ℤ) : Option Request := do
  let remaining := max (recipe.expiresAt - now) 1 * 1000
  ensure (recipe.expiresAt - now < 2 ^ 63 ∧ remaining < 2 ^ 63)
  profile.req c .post "CreateInstanceShutdownTimer" ((← path id) ++ "/shutdowntimer")
    (some (.object [("RemainingTimeInMs", .ofInt remaining)]))

end Profile

def terminal (row : Json) : Bool :=
  row.index "Status" = .string "Stopped" ∨ row.index "Status" = .string "Failed"

def providerState (row : Json) : Option String :=
  (row.index "Status").asStr.filter fun state => state ≠ "" ∧ byteLen state ≤ 100 ∧
    state.toList.all fun c => c.isAlphanum ∨ c = '_' ∨ c = '.' ∨ c = '-'

/-- A provider's terminal failure and a normal stop must remain distinct. -/
def status (native : Option String) (terminal : Bool) : String :=
  if native = some "Failed" ∨ native = some "FAILED" then "FAILED"
  else if native = some "Stopped" ∨ native = some "SUSPENDED" then "STOPPED"
  else if terminal then "TERMINAL"
  else if native = some "Queuing" ∨ native = some "QUEUED" ∨ native = some "PENDING" then "QUEUED"
  else if native = some "Running" ∨ native = some "RUNNING" then "RUNNING"
  else "STARTING"

/-! ## Records -/

structure FailureEvidence where
  code : String
  httpStatus : ℕ
  message : Option String
  requestId : Option String
  deriving DecidableEq, Repr

structure OperationError where
  operation : String
  response : FailureEvidence
  deriving DecidableEq, Repr

structure CreateRejection where
  code : String
  httpStatus : ℕ
  deriving DecidableEq, Repr

/-- A positive validation rejection, not a transport failure or an absent lookup. -/
def CreateRejection.fromError (error : Error) : Option CreateRejection :=
  if error.httpStatus = some 400 ∧ error.code = "ValidationError" then some ⟨error.code, 400⟩
  else none

structure Saved where
  recipe : Recipe
  providerId : Option String
  claims : Finset String
  stopRequested : Bool
  deleteRequested : Bool
  terminal : Bool
  networkClean : Bool
  deleted : Bool
  connection : Option Json
  diagnostic : Option String
  observedAt : Option String
  createRejection : Option CreateRejection
  createError : Option FailureEvidence
  providerState : Option String
  providerMessage : Option String
  lastError : Option OperationError
  deriving DecidableEq

/-- The record that a machine starts with. -/
def Saved.new (recipe : Recipe) : Saved where
  recipe := recipe
  providerId := none
  claims := ∅
  stopRequested := false
  deleteRequested := false
  terminal := false
  networkClean := true
  deleted := false
  connection := none
  diagnostic := none
  observedAt := none
  createRejection := none
  createError := none
  providerState := none
  providerMessage := none
  lastError := none

def Saved.needsRefresh (timestamp : ℤ) (saved : Saved) : Bool :=
  !saved.deleted ∧ (saved.deleteRequested ∨ !(saved.terminal ∧ saved.networkClean)) ∧
    (saved.recipe.expiresAt ≤ timestamp ∨ saved.stopRequested ∨ saved.deleteRequested ∨
      saved.terminal)

def retiredBackend : Error := ⟨"BACKEND_RETIRED", some 410, false⟩
def uncertainCreate : Error := ⟨"DEBUG_CREATE_UNCERTAIN", none, true⟩
def machineLimit : Error := ⟨"DEBUG_MACHINE_LIMIT", some 409, false⟩

/-- The file of a record. -/
def name (id : String) : Except Error Unit :=
  reject (¬(Sources.stripPrefix id "debug.").any fun digest =>
    (Sources.validateArchiveDigest digest).isOk) .configuration

structure Runtime where
  enabled : Bool
  maxActive : ℕ
  profiles : List (String × Profile)
  deriving DecidableEq, Repr

/-- A value, or the error of its absence. -/
def required {α : Type} (error : Error) : Option α → Except Error α
  | some a => .ok a
  | none => .error error

/-- The checks of a record that was read. -/
def admitted (c : Context) (runtime : Option Runtime) (id : String) (saved : Saved) :
    Except Error Saved := do
  reject (saved.recipe.contract = RETIRED_CONTRACT) retiredBackend
  let runtime ← required .configuration runtime
  let profile ← required .configuration (runtime.profiles.lookup saved.recipe.request.profile)
  reject (saved.recipe.identity ≠ id ∨ ¬profile.checkRecipe c saved.recipe) .evidence
  reject (saved.createRejection.any fun rejection =>
    rejection.httpStatus ≠ 400 ∨ rejection.code ≠ "ValidationError" ∨ saved.providerId.isSome ∨
      "create" ∉ saved.claims ∨ ¬saved.terminal ∨ ¬saved.networkClean) .evidence
  .ok saved

/-- The state that a view shows. -/
def viewState (record : Saved) : String :=
  let provider := status record.providerState record.terminal
  if record.deleted then "DELETED"
  else if record.deleteRequested then "DELETING"
  else if record.createRejection.isSome then "FAILED"
  else if record.terminal ∧ record.networkClean then provider
  else if record.stopRequested ∨ record.terminal then "STOPPING"
  else if record.connection.isSome ∧ provider = "RUNNING" then "RUNNING"
  else if record.providerId.isSome then if provider = "QUEUED" then "QUEUED" else "STARTING"
  else "RECONCILE_REQUIRED"

/-- What an operation shows of a record: its state, and the record itself. -/
structure View where
  state : String
  record : Saved

def debugView (record : Saved) : View := ⟨viewState record, record⟩

/-! ## The listing

Written for every kind of program, so that one pass can be looked at on its own.
-/

section Listing

variable {m : Type → Type} [Monad m]

/-- The records of some files.  A retired one is left out, and any other that is not read ends the
listing. -/
def collect (load : String → ExceptT Error m Saved) : List String → ExceptT Error m (List Saved)
  | [] => pure []
  | id :: ids => ExceptT.mk do
      match ← (load id).run with
      | .ok saved => (do return saved :: (← collect load ids) : ExceptT Error m (List Saved)).run
      | .error error =>
          if error.code = retiredBackend.code then (collect load ids).run else pure (.error error)

def refreshAll (refresh : String → ExceptT Error m View) : List Saved → ExceptT Error m Unit
  | [] => pure ()
  | saved :: rest => do
      let _ ← refresh saved.recipe.identity
      refreshAll refresh rest

/-- The records that a pass takes. -/
def due (timestamp : ℤ) (records : List Saved) : List Saved :=
  (records.filter (Saved.needsRefresh timestamp)).take 16

def expire (records : ExceptT Error m (List Saved)) (refresh : String → ExceptT Error m View)
    (timestamp : ℤ) : ExceptT Error m Unit := do
  let records ← records
  refreshAll refresh (due timestamp records)

end Listing

end Debug

end Cloud

end ExperimentControl
