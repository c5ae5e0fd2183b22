import McpgSql.Config
import McpgSql.Json

/-!
# The plugin protocol

What the watches hand to their host: events, and for a queue the deliveries
with the receipts it acknowledges or releases them by. What the calls answer
when they fail, and how the host fails to resolve a credential.
-/

namespace McpgSql

/-- An event of a watch; every field a watch leaves out has its default. -/
structure WatchEvent where
  eventId : Option String := none
  eventType : Option String := none
  occurredAt : Option String := none
  data : Option Value := none
  upstreamCursor : Option Value := none
  /-- Changes before this event may be missing. -/
  gap : Bool := false
  /-- Whom the event is for, where it is not for everyone. -/
  userId : Option String := none
  sessionId : Option String := none
deriving DecidableEq, Repr

/-- One event of a queue and what names it to `ack` and `release`. -/
structure Delivery where
  event : WatchEvent
  receipt : Value
deriving DecidableEq, Repr

/-- The errors of a call. -/
inductive BackendError where
  | transport (message : String)
  | timeout (timeoutMs : Nat)
  | profileNotFound (backendName : String)
  | invalidSpec (message : String)
deriving DecidableEq, Repr

/-- The error of a call that fails with `e`; `redact` is `redact_in_text`. -/
def BackendError.ofSql (redact : String → String) : SqlError → BackendError
  | .poolTimeout ms => .timeout ms
  | .timeout ms => .timeout ms
  | .profileNotFound name => .profileNotFound name
  | .invalidSpec message => .invalidSpec (redact message)
  | .serialize message => .transport ("row serialization failed: " ++ redact message)
  | .connect e => .transport ("connect: " ++ redact e)
  | .driver e => .transport ("driver: " ++ redact e)
  | .prepare e => .transport ("prepare: " ++ redact e)
  | .execute e => .transport ("execute: " ++ redact e)

/-- The errors of the host: a backend's, or another one by its text. -/
inductive BackendHostError where
  | backend (cause : BackendError)
  | other (text : String)
deriving DecidableEq, Repr

end McpgSql
