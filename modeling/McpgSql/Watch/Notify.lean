import McpgSql.Protocol

/-!
# NOTIFY payloads

The spec of a `postgres_listen_notify` watch, which watched URIs a payload names
(`UriMatch.namesUri`), and the event that a NOTIFY becomes (`eventFromPayload`).
-/

namespace McpgSql.Watch

/-- What the watch takes from its libraries: `serde_json`'s reader and text of a number,
and the protocol crate's `event_body`, a body and its encoding. -/
structure NotifyLib where
  parseJson : String → Option Value
  numberText : Number → String
  eventBody : String → Value × String

/-- Which URIs a payload changes: the patterns, with the value of one of its fields. -/
structure UriMatch where
  payloadField : String
  uris : List String
deriving DecidableEq, Repr

structure PostgresListenNotifyWatchSpec where
  url : String
  channel : String
  /-- Without it every NOTIFY changes every watched URI. -/
  uriMatch : Option UriMatch := none
deriving DecidableEq, Repr

/-- The token of a pattern that stands for the value. -/
def valueToken : String := "\x7bvalue\x7d"

/-- `str::replace` of a text that is not empty; the first `skip` characters belong to an
occurrence that is replaced already. -/
def replaceFrom (token value : List Char) : Nat → List Char → List Char
  | _, [] => []
  | skip + 1, _ :: cs => replaceFrom token value skip cs
  | 0, c :: cs =>
    if token.isPrefixOf (c :: cs) then value ++ replaceFrom token value (token.length - 1) cs
    else c :: replaceFrom token value 0 cs

/-- The URI of a pattern for a value. -/
def patternUri (pattern value : String) : String :=
  String.ofList (replaceFrom valueToken.toList value.toList 0 pattern.toList)

namespace UriMatch

/-- The value of the field: a string or a number. -/
def fieldValue (lib : NotifyLib) (m : UriMatch) (payload : String) : Option String :=
  match (lib.parseJson payload).bind fun value => value.get m.payloadField with
  | some (.str s) => some s
  | some (.num n) => some (lib.numberText n)
  | _ => none

/-- `UriMatch::matches`: the payload names `uri`. -/
def namesUri (lib : NotifyLib) (m : UriMatch) (payload uri : String) : Bool :=
  match m.fieldValue lib payload with
  | some value => m.uris.any fun pattern => patternUri pattern value = uri
  | none => false

end UriMatch

namespace PostgresListenNotifyWatchSpec

/-- Without its white space the text is empty. -/
def isBlank (s : String) : Bool := s.toList.all isWhiteSpace

def validate (spec : PostgresListenNotifyWatchSpec) : Except SqlError Unit := do
  if let some m := spec.uriMatch then
    if isBlank m.payloadField then
      throw (.invalidSpec "watch.uri_match.payload_field must not be empty")
    if m.uris.isEmpty || m.uris.any fun u => !decide (valueToken.toList <:+: u.toList) then
      throw (.invalidSpec
        "watch.uri_match.uris must be non-empty, each with `\x7bvalue\x7d`")
  if isBlank spec.url then
    throw (.invalidSpec "watch.url must not be empty")
  if isBlank spec.channel then
    throw (.invalidSpec "watch.channel must not be empty")
  if !spec.channel.toList.all fun c => c.isAlphanum || c = '_' then
    throw (.invalidSpec ("watch.channel must be ASCII alphanumeric + underscore; got '" ++
      spec.channel ++ "'"))

/-- A NOTIFY with this payload changes the watched `uri`. -/
def changes (lib : NotifyLib) (spec : PostgresListenNotifyWatchSpec) (payload uri : String) : Bool :=
  spec.uriMatch.all fun m => m.namesUri lib payload uri

end PostgresListenNotifyWatchSpec

def notificationEventType : String := "postgres.notification"

/-- The event of a NOTIFY. A `user_id` or `session_id` of the payload says whom it is for;
only an event source gets the payload. -/
def eventFromPayload (lib : NotifyLib) (channel payload : String) (eventSource : Bool) :
    WatchEvent :=
  let field (name : String) : Option String :=
    ((lib.parseJson payload).bind fun value => value.get name).bind Value.asStr
  let event : WatchEvent := { userId := field "user_id", sessionId := field "session_id" }
  if eventSource then
    let (body, encoding) := lib.eventBody payload
    { event with
      eventType := some notificationEventType
      data := some (.object [("channel", .str channel), ("payload", body),
        ("payloadEncoding", .str encoding)]) }
  else event

end McpgSql.Watch
