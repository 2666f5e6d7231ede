import ATalk.Federation.Outbox

/-!
# `POST /events`

The handler: the checks of the body, the token, the message ACL, the routing of a foreign
address to the federation outbox, the backlog gate and the local insert.

* `postEvents` : a ledger and a body to a ledger and an answer.
-/

namespace ATalk
namespace Server

open Text Python ATalk.Core Federation Checks

/-- The message ACL file: absent, unreadable, or a target list for each restricted peer. -/
inductive MessageAcl where
  | absent
  | broken
  | targets (restricted : List (Str × List Str))

/-- `None` when allowed, or the reason. -/
def MessageAcl.check (acl : MessageAcl) (source target : Str) : Option Str :=
  match acl with
  | .absent => none
  | .broken => some (lit "message ACL unavailable (failing closed)")
  | .targets restricted =>
    match restricted.lookup source with
    | none => none
    | some allowed =>
      if target = lit "*" then some (lit "peer " ++ source ++ lit " may not broadcast")
      else if target ∉ allowed then
        some (lit "peer " ++ source ++ lit " may not send to " ++ target)
      else none

/-- What a server holds besides the ledger. -/
structure ServerConfig where
  env : Env
  fed : Option Runtime
  acl : MessageAcl
  maxInboxDepth : ℕ

/-- A request: its body, the bearer token of its header (empty without one), the clock and the
id a call would make up. -/
structure Request where
  body : Dict
  bearer : Str
  now : Time
  newId : Str

/-- `{field} must be a non-empty string` -/
def requireString (body : Dict) (field : String) : Except Exn Str :=
  match getNone (lit field) body with
  | .str (c :: s) => .ok (c :: s)
  | _ => .error (.value (lit field ++ lit " must be a non-empty string"))

/-- The type, `message` when the body names none. -/
def requireType (body : Dict) : Except Exn Str :=
  match dictGet (lit "type") body with
  | none => .ok (lit "message")
  | some (.str s) => .ok s
  | some _ => .error (.value (lit "type must be a string"))

/-- The payload, empty when there is none. -/
def requirePayload (body : Dict) : Except Exn Dict :=
  match getNone (lit "payload") body with
  | .none => .ok []
  | .dict d => .ok d
  | _ => .error (.value (lit "payload must be an object"))

/-- `auth... or body.get("token")` -/
def requestToken (r : Request) : Val :=
  if r.bearer ≠ [] then .str r.bearer else getNone (lit "token") r.body

/-- `auth_required() and token_scope(source, token) != "full"` -/
def checkToken (cfg : ServerConfig) (db : Db) (r : Request) (source : Str) : Except Exn Unit :=
  if authRequired db then do
    guardOr ((← tokenScope cfg.env db r.now source (requestToken r)) = some (lit "full"))
      (.permission (lit "source token rejected"))
  else .ok ()

/-- The body of a local event as `insert_event` is called with it. -/
def eventArgs (r : Request) (source target type : Str) (payload : Dict) : EventArgs where
  source := source
  target := target
  type := type
  payload := payload
  seq := getNone (lit "seq") r.body
  eventId := getNone (lit "event_id") r.body
  createdAt := getNone (lit "created_at") r.body
  requiresAck := getDefault (lit "requires_ack") r.body (.bool true)
  sourceRef := getNone (lit "source_ref") r.body
  token := requestToken r
  now := r.now
  newId := r.newId

/-- Whether the event of the body is already there. -/
def isRetry (cfg : ServerConfig) (db : Db) (eventId : Val) : Except Exn Bool :=
  if eventId.truthy = false then .ok false
  else do
    match getEvent db (← textParam cfg.env eventId) with
    | .ok _ => return true
    | .error (.key _) => return false
    | .error e => .error e

def optVal : Option Str → Val
  | some s => .str s
  | none => .none

def eventToDict (event : Event) : Dict :=
  [(lit "id", .int event.id), (lit "event_id", .str event.eventId),
    (lit "source", .str event.source), (lit "target", .str event.target),
    (lit "type", .str event.type), (lit "seq", .int event.seq),
    (lit "created_at", .str event.createdAt), (lit "stored_at", .str event.storedAt),
    (lit "payload", .dict event.payload), (lit "requires_ack", .bool event.requiresAck),
    (lit "source_ref", optVal event.sourceRef), (lit "auth_actor", optVal event.authActor)]

/-- What `do_POST` answers an exception with. -/
def Exn.message : Exn → Str
  | .eventIdConflict eventId => lit "event_id already used for a different message: " ++ eventId
  | .permission message => message
  | .key name => lit "missing field " ++ name
  | .value message => message
  | .unicodeEncode => lit "surrogates not allowed"
  | _ => lit "internal server error"

def exnReply (e : Exn) : Reply := errorReply e.status (Exn.message e)

/-- The local path. -/
def localEvent (cfg : ServerConfig) (db : Db) (r : Request) (a : EventArgs) : Db × Reply :=
  match isRetry cfg db (getNone (lit "event_id") r.body) with
  | .error e => (db, exnReply e)
  | .ok retry =>
    if a.target ≠ lit "*" ∧ retry = false ∧ cfg.maxInboxDepth ≤ backlogDepth db a.target then
      (db, errorReply 429 (lit "target inbox backlog limit reached"))
    else
      match insertEvent cfg.env a db with
      | (db', .error e) => (db', exnReply e)
      | (db', .ok event) => (db', ⟨201, eventToDict event⟩)

/-- The family a target is sent abroad to: `None` on the local path. -/
def route (cfg : ServerConfig) (target : Str) : Option (Runtime × Str) :=
  match cfg.fed with
  | none => none
  | some fed =>
    if target = lit "*" then none
    else (fed.foreignFamily target).map fun family => (fed, family)

/-- The checks every event passes before it is routed. -/
def checkEvent (cfg : ServerConfig) (db : Db) (r : Request) : Except Exn EventArgs := do
  let source ← requireString r.body "source"
  let target ← requireString r.body "target"
  let type ← requireType r.body
  let payload ← requirePayload r.body
  checkToken cfg db r source
  match cfg.acl.check source target with
  | some reason => .error (.permission reason)
  | none => return eventArgs r source target type payload

def postEvents (cfg : ServerConfig) (db : Db) (r : Request) : Db × Reply :=
  match checkEvent cfg db r with
  | .error e => (db, exnReply e)
  | .ok a =>
    match route cfg a.target with
    | some (fed, family) =>
      match federationSend fed db a.source a.target r.body family r.newId r.now with
      | .error e => (db, exnReply e)
      | .ok (db', reply) => (db', reply)
    | none => localEvent cfg db r a

end Server
end ATalk
