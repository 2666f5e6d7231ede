import ATalk.Federation.Outbox

/-!
# The inbox

The receiving side of a federated instance: `receive_event`, the one transaction that stores an
inbound event with its local row, `POST /federation/inbox` around it, and `POST /ack`, which
acknowledges an inbound event together with the intent to send a receipt for it.

* `receiveEvent` : stored, duplicate or conflict;
* `federationInbox` : the handler, from the bytes of a request to an answer;
* `ackWithReceiptIntent`, `ackLookup`, `ackWrite` : the two statements of `POST /ack`.
-/

namespace ATalk
namespace Federation

open Text Json Python Sqlite ATalk.Core Checks

/-! ## `receive_event` -/

/-- The arguments of `receive_event`. -/
structure InboundParams where
  origin : Str
  eventId : Str
  eventJcs : Bytes
  signedJson : List (Str × Json)
  sig : Str
  regFamily : Str
  regKeyId : Str
  regPublicKey : Str
  sourceAddr : Str
  targetAddr : Str
  targetLocal : Str
  type : Str
  text : Str
  createdAt : Str

def findInbound (db : Db) (origin eventId : Str) : Option InboundRow :=
  db.federationInbound.find? fun row => row.origin = origin && row.eventId = eventId

/-- `get_inbound(event_id=..)`: the first row of the event, whatever its origin. -/
def getInbound (db : Db) (eventId : Str) : Option InboundRow :=
  db.federationInbound.find? (·.eventId = eventId)

def inboundRow (db : Db) (p : InboundParams) (now : Time) : InboundRow where
  id := nextId (db.federationInbound.map (·.id))
  origin := p.origin
  eventId := p.eventId
  target := p.targetAddr
  eventJcs := p.eventJcs
  signedJson := p.signedJson
  sig := p.sig
  regFamily := p.regFamily
  regKeyId := p.regKeyId
  regPublicKey := p.regPublicKey
  localEventId := p.eventId
  deliveryState := .pending
  createdAt := now

/-- The payload of the local row: the text, and the reply link of the signed event if it has one
that is not empty. -/
def localPayload (p : InboundParams) : Dict :=
  (lit "text", .str p.text) ::
    match strMember (lit "in_reply_to") (objMember (lit "event") p.signedJson) with
    | some (c :: s) => [(lit "in_reply_to", .str (c :: s))]
    | _ => []

def localRow (db : Db) (p : InboundParams) (seq : ℤ) (now : Time) : EventRow where
  id := nextId (db.events.map (·.id))
  eventId := p.eventId
  source := p.sourceAddr
  target := p.targetLocal
  type := p.type
  seq := .int seq
  createdAt := p.createdAt
  storedAt := now
  payload := localPayload p
  requiresAck := true
  sourceRef := none
  authActor := none

inductive Received where
  | stored (row : InboundRow)
  | duplicate (row : InboundRow)
  | conflict (reason : String)

/-- What the transaction ends in: a commit, a violated unique key, or an exception. -/
inductive Receipt where
  | committed (db : Db) (row : InboundRow)
  | violated
  | raised (e : Exn)

/-- The transaction of `receive_event`. -/
def receiveTxn (env : Env) (db : Db) (p : InboundParams) (now : Time) : Receipt :=
  if (findInbound db p.origin p.eventId).isSome then .violated
  else
    match nextSeq env db p.sourceAddr with
    | .error e => .raised e
    | .ok (db₁, seq) =>
      match Sqlite.bind (.int seq) with
      | .error e => .raised (ofBindError e)
      | .ok v =>
        if db.events.any (·.eventId = p.eventId) then .violated
        else if db.events.any fun row => row.source = p.sourceAddr && sqlEq row.seq v then .violated
        else
          let row := inboundRow db p now
          .committed
            { db₁ with
              federationInbound := db.federationInbound ++ [row]
              events := db.events ++ [localRow db p seq now] }
            row

def conflictRow (db : Db) (p : InboundParams) (reason : String) (now : Time) : ConflictRow :=
  ⟨nextId (db.federationInboundConflicts.map (·.id)), p.origin, p.eventId, p.eventJcs, p.signedJson,
    p.sig, lit reason, now⟩

/-- After a violated unique key: the stored original decides. -/
def classifyReceived (db : Db) (p : InboundParams) (now : Time) : Db × Received :=
  match findInbound db p.origin p.eventId with
  | some row =>
    if row.eventJcs = p.eventJcs then (db, .duplicate row)
    else
      ({ db with federationInboundConflicts := db.federationInboundConflicts ++
          [conflictRow db p "same_id_different_content" now] },
        .conflict "same_id_different_content")
  | none =>
    ({ db with federationInboundConflicts := db.federationInboundConflicts ++
        [conflictRow db p "local_event_id_collision" now] },
      .conflict "local_event_id_collision")

def receiveEvent (env : Env) (db : Db) (p : InboundParams) (now : Time) :
    Except Exn (Db × Received) :=
  match receiveTxn env db p now with
  | .raised e => .error e
  | .committed db' row => .ok (db', .stored row)
  | .violated => .ok (classifyReceived db p now)

/-! ## Delivery -/

def markDelivered (db : Db) (origin eventId : Str) : Db :=
  { db with federationInbound := db.federationInbound.map fun row =>
      if row.origin = origin ∧ row.eventId = eventId then { row with deliveryState := .delivered }
      else row }

/-- `_deliver_one` under its guard: a row whose event cannot be read stays pending. -/
def deliverOne (db : Db) (row : InboundRow) : Db :=
  match getEvent db (some row.localEventId) with
  | .ok _ => markDelivered db row.origin row.eventId
  | .error (.key _) => markDelivered db row.origin row.eventId
  | .error _ => db

def deliverPending (db : Db) : Db :=
  ((db.federationInbound.filter (·.deliveryState = .pending)).take 100).foldl deliverOne db

/-! ## `POST /federation/inbox` -/

def isLocalMember (db : Db) (agent : Str) : Bool :=
  db.peers.any fun row => row.peerId = agent && row.revokedAt = none

/-- `fed_error_status` -/
def fedErrorStatus (e : FederationError) : ℕ :=
  if e.category = "body_too_large" then 413
  else if e.layer = "inbound" then 422
  else if e.layer ∈ ["registry", "signature", "receipt_binding"] then 403
  else 400

def statusReply (status : ℕ) (text : String) : Reply := ⟨status, [(lit "status", .str (lit text))]⟩

def rejected (status : ℕ) (reason : String) : Reply :=
  ⟨status, [(lit "status", .str (lit "rejected")), (lit "reason", .str (lit reason))]⟩

/-- What a federation handler answers to what it did not catch. -/
def internalReply : Reply := rejected 500 "internal"

def raisedReply : Raised → Reply
  | .federation e => rejected (fedErrorStatus e) e.category
  | .unicodeEncode => internalReply

/-- The event of a verified envelope, as `receive_event` is called with it. -/
def inboundParams (env : Envelope) (rec : PeerRecord) : InboundParams :=
  let ev := objMember (lit "event") env.signed
  { origin := (strMember (lit "origin") env.signed).getD []
    eventId := (strMember (lit "event_id") ev).getD []
    eventJcs := (canonicalBytes ev).getD []
    signedJson := sorted env.signed
    sig := env.sigStr
    regFamily := rec.family
    regKeyId := rec.keyId
    regPublicKey := rec.publicKey
    sourceAddr := (strMember (lit "source") ev).getD []
    targetAddr := (strMember (lit "target") ev).getD []
    targetLocal := (splitAddress ((strMember (lit "target") ev).getD [])).1
    type := (strMember (lit "type") ev).getD []
    text := (strMember (lit "text") (objMember (lit "payload") ev)).getD []
    createdAt := (strMember (lit "created_at") ev).getD [] }

def lookupSigner (fed : Runtime) (env : Envelope) : Option PeerRecord :=
  fed.registry.lookup ((strMember (lit "origin") env.signed).getD [])
    ((strMember (lit "key_id") env.signed).getD [])

/-- The signature of an envelope under a registered key. -/
def verifyEnvelope (fed : Runtime) (rec : PeerRecord) (env : Envelope) :
    Except FederationError Unit :=
  fed.crypto.verify rec.publicKeyBytes ((env.signedBytes).getD []) env.sig

/-- What the rate limiters let through. -/
structure RateLimits where
  conn : Bool
  family : Bool

/-- An authenticated event for a member: store it, deliver what is pending, answer. -/
def storeInbound (envr : Env) (db : Db) (p : InboundParams) (now : Time) : Db × Reply :=
  match receiveEvent envr db p now with
  | .error _ => (db, internalReply)
  | .ok (db', .conflict _) => (db', statusReply 409 "conflict")
  | .ok (db', .stored _) => (deliverPending db', statusReply 200 "stored")
  | .ok (db', .duplicate row) =>
    (if row.deliveryState = .pending then deliverPending db' else db', statusReply 200 "duplicate")

/-- The checks after parsing: the key, the signature, the rate, the target. -/
def admitInbound (fed : Runtime) (db : Db) (limits : RateLimits) (env : Envelope) :
    Except Reply InboundParams :=
  match lookupSigner fed env with
  | none => .error (rejected 403 "unregistered_key")
  | some rec =>
    match verifyEnvelope fed rec env with
    | .error e => .error (rejected 403 e.category)
    | .ok () =>
      if limits.family = false then .error (rejected 429 "rate_limited_family")
      else
        let p := inboundParams env rec
        if (splitAddress p.targetAddr).2 ≠ fed.identity.family then
          .error (rejected 422 "target_family")
        else if isLocalMember db p.targetLocal = false then .error (rejected 422 "target_member")
        else .ok p

def federationInbox (envr : Env) (fed : Runtime) (db : Db) (limits : RateLimits) (raw : Bytes)
    (now : Time) : Db × Reply :=
  if limits.conn = false then (db, rejected 429 "rate_limited_conn")
  else
    match parseEvent raw with
    | .error e => (db, raisedReply e)
    | .ok env =>
      match admitInbound fed db limits env with
      | .error reply => (db, reply)
      | .ok p => storeInbound envr db p now

/-! ## `POST /ack` -/

/-- `str(target).rsplit("@", 1)[0]` -/
def localPart (addr : Str) : Str :=
  if ofChar '@' ∈ addr then ((addr.reverse.dropWhile (· ≠ ofChar '@')).tail).reverse else addr

/-- A new intent, fixed by the first acknowledgement. -/
def receiptOutRow (db : Db) (inb : InboundRow) (identity : Identity) (eventId : Str)
    (ackType : AckType) (sigHash : Str) (now : Time) : ReceiptOutRow where
  id := nextId (db.federationReceiptOut.map (·.id))
  eventId := eventId
  agent := inb.target
  ackType := ackType
  atTime := now
  origin := inb.origin
  originEventSigHash := sigHash
  issuer := identity.family
  issuerKeyId := identity.keyId
  signedJson := none
  sig := none
  status := .pending
  attempts := 0
  nextRetryAt := none
  lastError := none
  createdAt := now
  updatedAt := now

def hasReceiptOut (db : Db) (eventId agent : Str) (ackType : AckType) : Bool :=
  db.federationReceiptOut.any fun row =>
    row.eventId = eventId && row.agent = agent && row.ackType = ackType

/-- The acknowledgement and the receipt intent in one transaction; an intent there is stays. -/
def ackWithReceiptIntent (db : Db) (inb : InboundRow) (identity : Identity) (eventId agentId : Str)
    (ackType : AckType) (sigHash : Str) (detail : Val) (now : Time) : Except Exn Db := do
  let db₁ ← writeAck db (some eventId) (some agentId) ackType now detail
  if hasReceiptOut db₁ eventId inb.target ackType then return db₁
  return { db₁ with federationReceiptOut := db₁.federationReceiptOut ++
      [receiptOutRow db₁ inb identity eventId ackType sigHash now] }

/-- The body of an acknowledgement. -/
structure AckRequest where
  eventId : Val
  agentId : Val
  ackType : Val
  detail : Val
  now : Time

/-- What the lookup of an acknowledgement decides. -/
inductive AckPath where
  | localPath
  | federated (inb : InboundRow) (eventId agentId : Str) (ackType : AckType) (sigHash : Str)

/-- The first statement of the handler: whether the event came from abroad, and who may
acknowledge it. -/
def ackLookup (env : Env) (fed : Runtime) (db : Db) (r : AckRequest) : Except Exn AckPath := do
  match ← textParam env r.eventId with
  | none => return .localPath
  | some eventId =>
    match getInbound db eventId with
    | none => return .localPath
    | some inb =>
      match r.agentId with
      | .str agent =>
        guardOr (agent = localPart inb.target)
          (.permission (lit "only the recipient of a federation event may ack it"))
        let ackType ← match r.ackType with
          | .str s =>
            if s = lit "received" then Except.ok AckType.received
            else if s = lit "applied" then .ok .applied
            else .error (.value (lit "ack_type must be received or applied"))
          | _ => .error (.value (lit "ack_type must be received or applied"))
        match decodeStrict inb.sig 64 "signature_length" "schema" with
        | .error e => .error (.value (lit e.category))
        | .ok sig => return .federated inb eventId agent ackType (fed.crypto.sha256 sig)
      | _ => .error (.permission (lit "only the recipient of a federation event may ack it"))

/-- The second statement: the write on the path the lookup chose. -/
def ackWrite (env : Env) (fed : Runtime) (db : Db) (r : AckRequest) : AckPath → Except Exn Db
  | .localPath => ackEvent env db r.now r.eventId r.agentId r.ackType r.detail
  | .federated inb eventId agentId ackType sigHash => do
    strParam agentId
    ackWithReceiptIntent db inb fed.identity eventId agentId ackType sigHash (detailOf r.detail)
      r.now

end Federation
end ATalk
