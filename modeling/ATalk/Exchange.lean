import ATalk.Federation.Notifications
import ATalk.Federation.Sending
import ATalk.Server.InboxCalls
import ATalk.Server.OneMessage
import ATalk.Server.Rejections

/-!
# Two instances

An instance sends events to another one. Its clients post at any time, its one worker sends what is
due, and either process may die between any two commits and start again; the network loses, delays
and repeats what it carries. The receiver serves its inbox to everybody, and its own clients as well.

* `Parties`  : what stays the same of the two instances;
* `Works`    : the steps of the worker of the sender;
* `Beside`   : what the receiver does besides serving its inbox;
* `exchange` : the system, and `Parties.Honest` : what the network and other families do not do.
-/

namespace ATalk
namespace Exchange

open Text Json Python Calendar ATalk.Core Federation Server Transition Callers

/-- The sender's identity, the digest of its notifications and the cap of its outbox; the receiver's
environment and runtime. Both run the same crypto backend. -/
structure Parties where
  identity : Identity
  uuid5 : Str → Str
  cap : ℕ
  env : Env
  fed : Runtime

/-- The family of the sender, and that of the receiver. -/
abbrev Parties.sender (P : Parties) : Str := P.identity.family

abbrev Parties.receiver (P : Parties) : Str := P.fed.identity.family

/-- A configuration of the sender: its registry and its ACL may change. -/
def Parties.Configures (P : Parties) (cfg : ServerConfig) : Prop :=
  ∀ fed, cfg.fed = some fed → fed.crypto = P.fed.crypto ∧ fed.identity = P.identity ∧
    fed.uuid5 = P.uuid5 ∧ fed.outboxCap = P.cap

/-! ## The worker of the sender -/

/-- What `_run` does, but for the request it makes; a recovery scan, a write or the handling of a row
may fail, and the process may die anywhere. -/
inductive Works (s : Node) : Node → Prop where
  | crash : Works s { s with place := .down }
  | recover (now : Time) (h : s.place = .down) :
      Works s { s with place := .page (dueOutbound s.db now pageSize) }
  | recoverFails (h : s.place = .down) : Works s { s with place := .idle }
  | cycle (now : Time) (h : s.place = .idle) :
      Works s { s with place := .page (dueOutbound s.db now pageSize) }
  | finish (h : s.place = .page []) : Works s { s with place := .idle }
  | unregistered {fed : Runtime} {cfg : WorkerConfig} {row : OutboundRow} {rows : List OutboundRow}
      {draw : Draw} {db : Db} (h : s.place = .page (row :: rows))
      (hfamily : fed.registry.receiptsPeer row.targetFamily = none)
      (hdb : applyOutbound cfg s.db row (.retry (lit "unregistered_family") none) draw = .ok db) :
      Works s ⟨db, .page rows⟩
  | apply {cfg : WorkerConfig} {row : OutboundRow} {outcome : SendOutcome}
      {rows : List OutboundRow} {draw : Draw} {db : Db}
      (h : s.place = .answered row (.ok outcome) rows)
      (hdb : applyOutbound cfg s.db row outcome draw = .ok db) : Works s ⟨db, .page rows⟩
  | raise {row : OutboundRow} {rows : List OutboundRow} (cls : Str)
      (h : s.place.handles = some (row, rows)) : Works s { s with place := .raised row cls rows }
  | persist {row : OutboundRow} {cls : Str} {rows : List OutboundRow} (cfg : WorkerConfig)
      (draw : Draw) (h : s.place = .raised row cls rows) :
      Works s ⟨raisedOutbound cfg s.db row cls draw, .page rows⟩
  | persistFails {row : OutboundRow} {cls : Str} {rows : List OutboundRow}
      (h : s.place = .raised row cls rows) : Works s { s with place := .page rows }

/-! ## The receiver beside its inbox -/

/-- The body names a bare peer id as its source. -/
def BareSource (r : Request) : Prop :=
  ∀ source, getNone (lit "source") r.body = .str source → ofChar '@' ∉ source

/-- Requests of other kinds, deliveries, and changes of other tables. -/
def Beside (db db' : Db) : Prop :=
  ∃ act, peering.step db act db' ∧
    match act with
    | .inbox .. => False
    | .post _ r => BareSource r
    | _ => True

/-! ## The system -/

/-- The sender, the envelopes that were put on the wire for the receiver, and the receiver with the
requests its inbox was called with. -/
structure State where
  sender : Node
  wire : List Bytes
  receiver : World Db InboxCall InboxPhase

inductive Act where
  | post (cfg : ServerConfig) (r : Request)
  | aside (db : Db)
  | work (node : Node)
  | emit
  | answer (t : Transport) (parsedate : Str → Option When) (now : Moment)
  | receive (act : Callers.Action Db InboxCall Time)

/-- An envelope for the receiver goes on the wire. -/
def emitted (P : Parties) (row : OutboundRow) : List Bytes :=
  if row.targetFamily = P.receiver then [row.envelopeJson] else []

/-- The calls of the inbox, which are never taken up again when the process dies. -/
def inbox (P : Parties) : System (World Db InboxCall InboxPhase) (Callers.Action Db InboxCall Time) :=
  callers (inboxCalls P.env P.fed) peering.init Beside

/-- A request to the sender, another call of the sender that leaves its outbox alone, a step of its
worker, the request its worker makes and what comes of it, or a step of the receiver. -/
def exchange (P : Parties) : System State Act where
  init s := (outbox P.cap).init s.sender ∧ (notifier P.uuid5).init s.sender.db ∧ s.wire = [] ∧
    (inbox P).init s.receiver
  step s act s' :=
    match act with
    | .post cfg r => P.Configures cfg ∧
        s' = { s with sender := { s.sender with db := (postEvents cfg s.sender.db r).1 } }
    | .aside db => db.federationOutbound = s.sender.db.federationOutbound ∧
        (∃ act, Notifies P.uuid5 s.sender.db act db) ∧
        s' = { s with sender := { s.sender with db := db } }
    | .work node => Works s.sender node ∧ s' = { s with sender := node }
    | .emit => ∃ row rows, s.sender.place = .page (row :: rows) ∧
        s' = { s with wire := s.wire ++ emitted P row }
    | .answer t parsedate now => ∃ fed : Runtime, ∃ peer row rows,
        s.sender.place = .page (row :: rows) ∧
        fed.registry.receiptsPeer row.targetFamily = some peer ∧
        s' = { s with sender := { s.sender with
          place := .answered row (.ok (sendEnvelope parsedate now t)) rows } }
    | .receive act => ∃ w, (inbox P).step s.receiver act w ∧ s' = { s with receiver := w }

/-- What verifies as the sender's has the signed bytes and the signature of an envelope that went on
the wire. -/
def Parties.Genuine (P : Parties) (wire : List Bytes) (raw : Bytes) : Prop :=
  ∀ env rec, parseEvent raw = .ok env → lookupSigner P.fed env = some rec →
    rec.family = P.sender → verifyEnvelope P.fed rec env = .ok () →
    ∃ w ∈ wire, ∃ env', parseEvent w = .ok env' ∧ env'.signedBytes = env.signedBytes ∧
      env'.sigStr = env.sigStr

/-- Nobody signs in the name of the sender, and nobody but the receiver answers its requests with a
success: such an answer is that of a call that had this envelope for its body. -/
def Parties.Honest (P : Parties) (s : State) : Act → Prop
  | .receive (.call c) => P.Genuine s.wire c.raw
  | .answer t _ _ => ∀ row rows, s.sender.place = .page (row :: rows) →
      row.targetFamily = P.receiver → ∀ code raw, t = .answered code raw →
        ∃ c ∈ s.receiver.calls, c.1.raw = row.envelopeJson ∧
          ∃ reply, c.2 = .done reply ∧ reply.transport = t
  | _ => True

end Exchange
end ATalk
