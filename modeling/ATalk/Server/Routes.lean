import ATalk.Federation.ReceiptsIn
import ATalk.Server.Devices
import ATalk.Server.InboxCalls

/-!
# The requests that write

Every route of `do_POST` as one kind of call, statement by statement: events, acknowledgements, the
two routes of federation, device tokens, and the acknowledgement of pulled hints.

* `receiptsCalls`, `receiptsCalls_answer` : `POST /federation/receipts`;
* `hintsCalls` : `POST /federation/notifications/ack`;
* `HttpCall`, `httpCalls` : all of them on one ledger.
-/

namespace ATalk
namespace Server

open Text Python Sqlite ATalk.Core Federation Checks Transition Callers

/-! ## `POST /federation/receipts` -/

/-- The bytes of a request, what the rate limiters let through, and what its hints find. -/
structure ReceiptsCall where
  limits : RateLimits
  raw : Bytes
  woken : NotificationRow → Bool
  cursor : Option HintCursor

inductive ReceiptsPhase where
  | start
  | record (p : ReceiptParams)
  | hint (reply : Reply)
  | done (reply : Reply)

/-- Everything before the transaction; only the sent event is looked up in the database. -/
def receiptsChecks (fed : Runtime) (r : ReceiptsCall) (db : Db) : ReceiptsPhase :=
  if r.limits.conn = false then .done (rejected 429 "rate_limited_conn")
  else
    match parseReceipt r.raw with
    | .error e => .done (raisedReply e)
    | .ok env =>
      match admitReceipt fed db r.limits env with
      | .error reply => .done reply
      | .ok p => .record p

/-- `federation_receipts`, one statement at a time. -/
def receiptsStep (fed : Runtime) (r : ReceiptsCall) (now : Time) (db : Db) :
    ReceiptsPhase → Db × ReceiptsPhase
  | .start => (db, receiptsChecks fed r db)
  | .record p =>
    match recordReceiptIn fed db p now with
    | .error _ => (db, .done internalReply)
    | .ok (db', status) => (db', .hint (statusReply 200 (statusText status)))
  | .hint reply => ((hintNotifications r.woken db r.cursor).1, .done reply)
  | .done reply => (db, .done reply)

def receiptsCalls (fed : Runtime) : Machine Db ReceiptsCall Time ReceiptsPhase Reply where
  start _ := .start
  step := receiptsStep fed
  result
    | .done reply => some reply
    | _ => none

/-- A call that nobody interrupts is `federationReceipts`. -/
theorem receiptsCalls_answer (fed : Runtime) (r : ReceiptsCall) (now : Time) (db : Db) :
    ∃ x, (receiptsCalls fed).Leads r now (db, .start) (x.1, .done x.2) ∧
      x = federationReceipts fed db r.limits r.raw r.woken r.cursor now := by
  refine ⟨_, .step ?_, rfl⟩
  show (receiptsCalls fed).Leads r now (db, receiptsChecks fed r db) _
  unfold receiptsChecks federationReceipts
  split_ifs
  · exact .refl ..
  · cases parseReceipt r.raw with
    | error e => exact .refl ..
    | ok env =>
      simp only
      cases admitReceipt fed db r.limits env with
      | error reply => exact .refl ..
      | ok p =>
        refine .step ?_
        simp only [receiptsCalls, receiptsStep]
        cases recordReceiptIn fed db p now with
        | error e => exact .refl ..
        | ok pair => exact .step (.refl ..)

/-! ## `POST /federation/notifications/ack` -/

/-- `all(isinstance(x, str) for x in xs)` -/
def texts : List Val → Option (List Str)
  | [] => some []
  | .str s :: xs => (texts xs).map (s :: ·)
  | _ :: _ => none

/-- `intent_ids` of a body. -/
def intentIds (body : Dict) : Except Exn (List Str) :=
  match getNone (lit "intent_ids") body with
  | .list xs =>
    match texts xs with
    | some ids =>
      if ids = [] ∨ 100 < ids.length then
        .error (.value (lit "intent_ids must be a list of 1-100 strings"))
      else .ok ids
    | none => .error (.value (lit "intent_ids must be a list of 1-100 strings"))
  | _ => .error (.value (lit "intent_ids must be a list of 1-100 strings"))

/-- Who acknowledges: an agent, or the operator under the token of a peer. -/
inductive Acker where
  | agent (agent : Str)
  | operator (peer : Str)

def ackerOf (body : Dict) : Except Exn Acker :=
  match getNone (lit "agent") body with
  | .none =>
    match getNone (lit "peer") body with
    | .str (c :: s) => .ok (.operator (c :: s))
    | _ => .error (.value (lit "peer required to ack operator notifications"))
  | .str (c :: s) => .ok (.agent (c :: s))
  | _ => .error (.value (lit "agent must be a non-empty string"))

/-- An agent's own token of any scope, or a full one of the peer. -/
def checkAcker (cfg : ServerConfig) (db : Db) (r : Request) (now : Time) : Acker → Except Exn Unit
  | .agent agent => do
    guardOr ((← tokenScope cfg.env db now agent (requestToken r)) ≠ none)
      (.permission (lit "agent token rejected"))
  | .operator peer => checkFull cfg db r now (.str peer)

def Acker.owner : Acker → Option Str
  | .agent name => some name
  | .operator _ => none

/-- The parameters of the statement. -/
def strParams : List Str → Except Exn Unit
  | [] => .ok ()
  | s :: ss => do
    strParam s
    strParams ss

/-- How many rows `ack_notification_hints` marks. -/
def ackedHints (db : Db) (ids : List Str) (agent : Option Str) : ℕ :=
  (db.federationNotifications.filter fun row =>
    row.acked = false && row.intentId ∈ ids && row.agent = agent).length

inductive HintsPhase where
  | start
  | token (ids : List Str) (acker : Acker)
  | mark (ids : List Str) (acker : Acker)
  | done (reply : Reply)

/-- `do_POST` for `/federation/notifications/ack`, one statement at a time. -/
def hintsStep (cfg : ServerConfig) (r : Request) (now : Time) (db : Db) :
    HintsPhase → Db × HintsPhase
  | .start =>
    match cfg.fed with
    | none => (db, .done (errorReply 404 (lit "not found")))
    | some _ =>
      match intentIds r.body with
      | .error e => (db, .done (exnReply e))
      | .ok ids =>
        match ackerOf r.body with
        | .error e => (db, .done (exnReply e))
        | .ok acker => (db, if authRequired db then .token ids acker else .mark ids acker)
  | .token ids acker =>
    match checkAcker cfg db r now acker with
    | .error e => (db, .done (exnReply e))
    | .ok () => (db, .mark ids acker)
  | .mark ids acker =>
    match strParams (ids ++ acker.owner.toList) with
    | .error e => (db, .done (exnReply e))
    | .ok () => (ackHints db ids acker.owner,
        .done ⟨200, [(lit "acked", .int (ackedHints db ids acker.owner))]⟩)
  | .done reply => (db, .done reply)

def hintsCalls (cfg : ServerConfig) : Machine Db Request Time HintsPhase Reply where
  start _ := .start
  step := hintsStep cfg
  result
    | .done reply => some reply
    | _ => none

/-! ## All routes -/

inductive HttpCall where
  | events (r : Request)
  | ack (r : AckCall)
  | inbox (r : InboxCall)
  | receipts (r : ReceiptsCall)
  | addToken (r : TokenCall)
  | revokeToken (r : Request)
  | hints (r : Request)

inductive HttpPhase where
  | events (p : EventPhase)
  | ack (p : AckPhase)
  | inbox (p : InboxPhase)
  | receipts (p : ReceiptsPhase)
  | addToken (p : DevicePhase)
  | revokeToken (p : RevokePhase)
  | hints (p : HintsPhase)
  | missing

def HttpCall.path : HttpCall → Str
  | .events _ => lit "/events"
  | .ack _ => lit "/ack"
  | .inbox _ => lit "/federation/inbox"
  | .receipts _ => lit "/federation/receipts"
  | .addToken _ => lit "/device-tokens"
  | .revokeToken _ => lit "/device-tokens/revoke"
  | .hints _ => lit "/federation/notifications/ack"

/-- Where a request starts; without federation its two routes are not there. -/
def httpStart (cfg : ServerConfig) : HttpCall → HttpPhase
  | .events _ => .events .start
  | .ack _ => .ack .start
  | .inbox _ => if cfg.fed.isSome then .inbox .start else .missing
  | .receipts _ => if cfg.fed.isSome then .receipts .start else .missing
  | .addToken _ => .addToken .start
  | .revokeToken _ => .revokeToken .start
  | .hints _ => .hints .start

/-- `do_POST`, one statement of its route at a time. -/
def httpStep (cfg : ServerConfig) (c : HttpCall) (now : Time) (db : Db) (p : HttpPhase) :
    Db × HttpPhase :=
  match c, p with
  | .events r, .events p => ((eventStep cfg r now db p).1, .events (eventStep cfg r now db p).2)
  | .ack r, .ack p => ((ackStep cfg r now db p).1, .ack (ackStep cfg r now db p).2)
  | .inbox r, .inbox p =>
    match cfg.fed with
    | some fed => ((inboxStep cfg.env fed r now db p).1, .inbox (inboxStep cfg.env fed r now db p).2)
    | none => (db, .missing)
  | .receipts r, .receipts p =>
    match cfg.fed with
    | some fed => ((receiptsStep fed r now db p).1, .receipts (receiptsStep fed r now db p).2)
    | none => (db, .missing)
  | .addToken r, .addToken p => ((deviceStep cfg r now db p).1, .addToken (deviceStep cfg r now db p).2)
  | .revokeToken r, .revokeToken p =>
    ((revokeStep cfg r now db p).1, .revokeToken (revokeStep cfg r now db p).2)
  | .hints r, .hints p => ((hintsStep cfg r now db p).1, .hints (hintsStep cfg r now db p).2)
  | _, _ => (db, p)

def httpCalls (cfg : ServerConfig) : Machine Db HttpCall Time HttpPhase Reply where
  start := httpStart cfg
  step := httpStep cfg
  result
    | .events (.done reply) => some reply
    | .ack (.done reply) => some reply
    | .inbox (.done reply) => some reply
    | .receipts (.done reply) => some reply
    | .addToken (.done reply) => some reply
    | .revokeToken (.done reply) => some reply
    | .hints (.done reply) => some reply
    | .missing => some (errorReply 404 (lit "not found"))
    | _ => none

end Server
end ATalk
