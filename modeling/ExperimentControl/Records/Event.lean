import ExperimentControl.Json.Canonical

/-!
# Journal events

An event of a Run's record journal, and the row it is stored as: its canonical body, the digest of
the body, and the digest again as the deduplication key of a metric row.
-/

namespace ExperimentControl.Records

/-- Why a record is refused. -/
inductive Error where
  | invalid (what : String)
  | canonical (error : CanonicalError)
  | metric (error : String)
  deriving DecidableEq, Repr

/-- An event before it is stored. -/
structure Event where
  eventId : String
  payload : Json
  deriving DecidableEq, Repr

/-- An event as it is stored. -/
structure PreparedEvent where
  eventId : String
  body : Bytes
  checksum : String
  dedup : Option String
  deriving DecidableEq, Repr

variable (enc : Encoding)

def encoded (value : Json) : Except Error Bytes :=
  (enc.bytes value).mapError .canonical

def digest (value : Json) : Except Error String :=
  (enc.digest value).mapError .canonical

/-- The stored row of an event. -/
def prepareEvent (event : Event) : Except Error PreparedEvent := do
  let some payload := event.payload.asObject | .error (.invalid "payload object")
  let some kind := Fields.get payload "kind" | .error (.invalid "payload kind")
  let body ← encoded enc event.payload
  let checksum ← digest enc event.payload
  return ⟨event.eventId, body, checksum,
    if kind = .string "metrics" then some checksum else none⟩

end ExperimentControl.Records
