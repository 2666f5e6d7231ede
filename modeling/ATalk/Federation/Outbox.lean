import ATalk.Core.Store
import ATalk.Federation.Compose

/-!
# The outbox

The sending side of a federated instance: the registry of peers, the runtime that holds it with
the local identity, the table of outbound events, and `federation_send`, the branch of
`POST /events` that composes an envelope and queues it.

* `enqueueOutbound` : one row an event id, below the cap;
* `federationSend` : the whole branch;
* `markOutboundSent`, `markOutboundRetry`, `failOutboundPermanent` : what a worker makes of a row.
-/

namespace ATalk
namespace Federation

open Text Json Python ATalk.Core

/-! ## Registry and runtime -/

structure PeerRecord where
  family : Str
  keyId : Str
  publicKey : Str
  publicKeyBytes : Bytes
  inboxUrl : Str
  receiptsUrl : Str
deriving DecidableEq

/-- One record a family. -/
structure PeerRegistry where
  records : List PeerRecord
  nodup : (records.map (·.family)).Nodup

def PeerRegistry.receiptsPeer (r : PeerRegistry) (family : Str) : Option PeerRecord :=
  r.records.find? (·.family = family)

def PeerRegistry.lookup (r : PeerRegistry) (family keyId : Str) : Option PeerRecord :=
  match r.receiptsPeer family with
  | some rec => if rec.keyId = keyId then some rec else none
  | none => none

/-- An active federation: `uuid5` is the digest behind the stable ids of notifications. -/
structure Runtime where
  crypto : Crypto
  identity : Identity
  registry : PeerRegistry
  outboxCap : ℕ
  uuid5 : Str → Str

/-- `stable_intent_id(*parts)` -/
def Runtime.stableIntentId (fed : Runtime) (parts : List Str) : Str :=
  fed.uuid5 (lit "atalk-fed-notify:" ++ (lit ":").intercalate parts)

/-- The family of a target this instance would send abroad. -/
def Runtime.foreignFamily (fed : Runtime) (target : Str) : Option Str :=
  if target.count (ofChar '@') ≠ 1 then none
  else
    match parseAddress target (lit "events.target") with
    | .error _ => none
    | .ok (_, family) => if family = fed.identity.family then none else some family

/-! ## Outbound rows -/

def findOutbound (db : Db) (eventId : Str) : Option OutboundRow :=
  db.federationOutbound.find? (·.eventId = eventId)

def pendingOutbound (db : Db) : ℕ :=
  (db.federationOutbound.filter (·.status = .pending)).length

/-- The columns of an outbound row that the sender fixes. -/
structure OutboundParams where
  eventId : Str
  origin : Str
  originKeyId : Str
  sourceLocal : Str
  sourceAddr : Str
  target : Str
  targetFamily : Str
  type : Str
  signedJson : List (Str × Json)
  sig : Str
  envelopeJson : Bytes

inductive Enqueued where
  | queued
  | existing
deriving DecidableEq

def outboundRow (db : Db) (p : OutboundParams) (notifyIntentId : Str) (now : Time) : OutboundRow where
  id := nextId (db.federationOutbound.map (·.id))
  eventId := p.eventId
  origin := p.origin
  originKeyId := p.originKeyId
  sourceLocal := p.sourceLocal
  sourceAddr := p.sourceAddr
  target := p.target
  targetFamily := p.targetFamily
  type := p.type
  signedJson := p.signedJson
  sig := p.sig
  envelopeJson := p.envelopeJson
  notifyIntentId := notifyIntentId
  status := .pending
  attempts := 0
  nextRetryAt := none
  lastError := none
  createdAt := now
  updatedAt := now

/-- `enqueue_outbound`; `none` is `OutboxFull`. -/
def enqueueOutbound (fed : Runtime) (db : Db) (p : OutboundParams) (now : Time) :
    Option (Db × Enqueued) :=
  match findOutbound db p.eventId with
  | some _ => some (db, .existing)
  | none =>
    if fed.outboxCap ≤ pendingOutbound db then none
    else
      let row := outboundRow db p (fed.stableIntentId [lit "send_failed", p.eventId]) now
      some ({ db with federationOutbound := db.federationOutbound ++ [row] }, .queued)

/-- An UPDATE of the pending row of an event. -/
def updatePending (db : Db) (eventId : Str) (f : OutboundRow → OutboundRow) : Db :=
  { db with federationOutbound := db.federationOutbound.map fun row =>
      if row.eventId = eventId ∧ row.status = .pending then f row else row }

def markOutboundSent (db : Db) (eventId : Str) (now : Time) : Db :=
  updatePending db eventId fun row =>
    { row with status := .sent, attempts := row.attempts + 1, lastError := none, updatedAt := now }

def markOutboundRetry (db : Db) (eventId : Str) (attempts : ℕ) (nextRetryAt : Time)
    (lastError : Str) (now : Time) : Db :=
  updatePending db eventId fun row =>
    { row with
      attempts := attempts, nextRetryAt := some nextRetryAt, lastError := some lastError,
      updatedAt := now }

/-- `INSERT OR IGNORE` by the id of the intent. -/
def insertNotification (db : Db) (intentId : Str) (kind : String) (agent eventId : Option Str)
    (detail : List (Str × Str)) (now : Time) : Db :=
  if db.federationNotifications.any (·.intentId = intentId) then db
  else
    { db with federationNotifications := db.federationNotifications ++
        [⟨intentId, lit kind, agent, eventId, detail, false, false, now⟩] }

/-- The pending row fails for good, and its local sender is told. -/
def failOutboundPermanent (db : Db) (eventId error : Str) (now : Time) : Db :=
  match db.federationOutbound.find? fun row => row.eventId = eventId && row.status = .pending with
  | none => db
  | some row =>
    let db' := { db with federationOutbound := db.federationOutbound.map fun r =>
      if r.id = row.id then
        { r with
          status := .failedPermanent, attempts := r.attempts + 1, lastError := some error,
          updatedAt := now }
      else r }
    insertNotification db' row.notifyIntentId "send_failed" (some row.sourceLocal) (some eventId)
      [(lit "target", row.target), (lit "target_family", row.targetFamily), (lit "error", error)] now

/-! ## `federation_send` -/

/-- An answer of the HTTP layer. -/
structure Reply where
  status : ℕ
  body : Dict

def errorReply (status : ℕ) (message : Str) : Reply := ⟨status, [(lit "error", .str message)]⟩

/-- A branch of a handler: an answer of its own, or an exception `do_POST` answers. -/
abbrev Handled := Except Exn (Db × Reply)

/-- What the caller asked to send. -/
structure SendRequest where
  source : Str
  target : Str
  family : Str
  type : Str
  text : Str
  inReplyTo : Option Str
  eventId : Str

def payloadKeys : List Str := [lit "text", lit "in_reply_to", lit "auto"]

/-- `payload.get("in_reply_to")`, checked. -/
def replyTo (payload : Dict) (type : Str) : Except Reply (Option Str) :=
  match getNone (lit "in_reply_to") payload with
  | .none => .ok none
  | v =>
    if type ≠ lit "reply" then .error (errorReply 400 (lit "in_reply_to requires type=reply"))
    else
      match v with
      | .str s =>
        if uuidRe s then .ok (some s)
        else .error (errorReply 400 (lit "in_reply_to must be a lowercase UUID"))
      | _ => .error (errorReply 400 (lit "in_reply_to must be a lowercase UUID"))

/-- `event_id = body.get("event_id") or str(uuid.uuid4())`; a pattern matches strings only. -/
def sendId (body : Dict) (newId : Str) : Except Exn Str :=
  match getNone (lit "event_id") body with
  | .str s => .ok (if s = [] then newId else s)
  | v => if v.truthy then .error .typeError else .ok newId

def joinComma : List Str → Str
  | [] => []
  | [s] => s
  | s :: ss => s ++ lit ", " ++ joinComma ss

/-- The checks of `federation_send` before it composes. The two layers of errors are answers and
exceptions. -/
def checkSend (fed : Runtime) (source target : Str) (body : Dict) (family newId : Str) :
    Except Exn (Except Reply SendRequest) :=
  match fed.registry.receiptsPeer family with
  | none => .ok (.error (errorReply 400 (lit "unregistered federation target family: " ++ family)))
  | some _ =>
    match getDefault (lit "type") body (.str (lit "message")) with
    | .str type =>
      if type ∉ eventTypes then
        .ok (.error (errorReply 400 (lit "federation carries only message and reply events")))
      else
        match getNone (lit "payload") body with
        | .dict payload =>
          match getNone (lit "text") payload with
          | .str text =>
            match (dictKeys payload).filter (· ∉ payloadKeys) with
            | _ :: _ => .ok (.error (errorReply 400
                (lit "federation payload does not support field(s): " ++ joinComma
                  (((dictKeys payload).filter (· ∉ payloadKeys)).insertionSort (· ≤ ·)))))
            | [] =>
              match replyTo payload type with
              | .error r => .ok (.error r)
              | .ok inReplyTo =>
                match sendId body newId with
                | .error e => .error e
                | .ok eventId =>
                  if uuidRe eventId = false then
                    .ok (.error (errorReply 400
                      (lit "federation event_id must be a lowercase UUID")))
                  else if ofChar '@' ∈ source then
                    .ok (.error (errorReply 400
                      (lit "federation source must be a bare local peer id")))
                  else .ok (.ok ⟨source, target, family, type, text, inReplyTo, eventId⟩)
          | _ => .ok (.error (errorReply 400 (lit "federation payload requires a string 'text'")))
        | _ => .ok (.error (errorReply 400 (lit "federation payload requires a string 'text'")))
    | _ => .ok (.error (errorReply 400 (lit "federation carries only message and reply events")))

def SendRequest.fields (r : SendRequest) (fed : Runtime) (now : Time) : EventFields :=
  composedFields fed.identity r.source r.target r.type r.text r.eventId now r.inReplyTo

/-- The row of a composed envelope. -/
def SendRequest.params (r : SendRequest) (fed : Runtime) (envelope : List (Str × Json))
    (envelopeJson : Bytes) (sig : Str) : OutboundParams where
  eventId := r.eventId
  origin := fed.identity.family
  originKeyId := fed.identity.keyId
  sourceLocal := r.source
  sourceAddr := r.source ++ ofChar '@' :: fed.identity.family
  target := r.target
  targetFamily := r.family
  type := r.type
  signedJson := sorted (withoutSig envelope)
  sig := sig
  envelopeJson := envelopeJson

def strMember (k : Str) (ms : List (Str × Json)) : Option Str :=
  match get k ms with
  | some (.str s) => some s
  | _ => none

def objMember (k : Str) (ms : List (Str × Json)) : List (Str × Json) :=
  match get k ms with
  | some (.obj m) => m
  | _ => []

/-- `stored_event["payload"]["text"]` and `stored_event.get("in_reply_to")` -/
def storedText (row : OutboundRow) : Option Str :=
  strMember (lit "text") (objMember (lit "payload") (objMember (lit "event") row.signedJson))

def storedReply (row : OutboundRow) : Option Str :=
  strMember (lit "in_reply_to") (objMember (lit "event") row.signedJson)

def storedCreated (row : OutboundRow) : Option Str :=
  strMember (lit "created_at") (objMember (lit "event") row.signedJson)

def SendStatus.text : SendStatus → Str
  | .pending => lit "pending"
  | .sent => lit "sent"
  | .failedPermanent => lit "failed_permanent"

/-- A repeated id that names another event. -/
def differs (row : OutboundRow) (r : SendRequest) : Bool :=
  (row.sourceLocal, row.target, row.type, storedText row, storedReply row) ≠
    (r.source, r.target, r.type, some r.text, r.inReplyTo)

def strVal : Option Str → Val
  | some s => .str s
  | none => .none

/-- The answer of an accepted send, from the stored original. -/
def sendItem (row : OutboundRow) (r : SendRequest) : Dict :=
  [(lit "event_id", .str r.eventId), (lit "source", .str row.sourceAddr),
    (lit "target", .str row.target), (lit "type", .str row.type),
    (lit "created_at", strVal (storedCreated row)),
    (lit "payload", .dict ((lit "text", strVal (storedText row)) ::
      match storedReply row with
      | none => []
      | some s => [(lit "in_reply_to", .str s)])),
    (lit "requires_ack", .bool true),
    (lit "federation", .dict [(lit "status", .str (SendStatus.text row.status)),
      (lit "target_family", .str r.family)])]

/-- Queue what was composed, and answer from the stored row. -/
def queueSend (fed : Runtime) (db : Db) (r : SendRequest) (envelope : List (Str × Json))
    (now : Time) : Handled :=
  match canonicalBytes envelope with
  | none => .error .unicodeEncode
  | some raw =>
    let sig := (strMember (lit "sig") envelope).getD []
    match enqueueOutbound fed db (r.params fed envelope raw sig) now with
    | none => .ok (db, errorReply 429
        (lit s!"federation outbox is full (cap {fed.outboxCap})"))
    | some (db', enqueued) =>
      match findOutbound db' r.eventId with
      | none => .error .typeError
      | some row =>
        if enqueued = .existing ∧ differs row r = true then
          .ok (db', errorReply 409 (lit "event_id already used for a different federation event"))
        else .ok (db', ⟨201, sendItem row r⟩)

/-- Compose and queue a checked request. -/
def sendChecked (fed : Runtime) (db : Db) (r : SendRequest) (now : Time) : Handled :=
  match composeEvent fed.crypto fed.identity r.source r.target r.type r.text r.eventId now
      r.inReplyTo with
  | .error .unicodeEncode => .error .unicodeEncode
  | .error (.federation e) =>
    .ok (db, errorReply 400 (lit "federation envelope rejected: " ++ lit e.category))
  | .ok envelope => queueSend fed db r envelope now

def federationSend (fed : Runtime) (db : Db) (source target : Str) (body : Dict)
    (family newId : Str) (now : Time) : Handled :=
  match checkSend fed source target body family newId with
  | .error e => .error e
  | .ok (.error reply) => .ok (db, reply)
  | .ok (.ok r) => sendChecked fed db r now

end Federation
end ATalk
