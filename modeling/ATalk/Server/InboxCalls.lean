import ATalk.Server.Handlers

/-!
# The inbox, statement by statement

`POST /federation/inbox` as calls that many callers make at once: the checks with their one query,
the transaction of `receive_event`, what is read and written after a violated key, and the delivery
of the pending rows, one at a time.

* `InboxCall`, `inboxCalls` : the machine;
* `inboxCalls_answer` : a call that nobody interrupts is `federationInbox`.
-/

namespace ATalk
namespace Server

open Text Python Sqlite ATalk.Core Federation Transition Callers

/-- The bytes of a request, and what the rate limiters let through. -/
structure InboxCall where
  limits : RateLimits
  raw : Bytes

inductive InboxPhase where
  | start
  | receive (p : InboundParams)
  | classify (p : InboundParams) (seen : Time)
  | conflict (p : InboundParams) (reason : String) (seen : Time)
  | pending (reply : Reply)
  | deliver (rows : List InboundRow) (reply : Reply)
  | mark (row : InboundRow) (rows : List InboundRow) (reply : Reply)
  | done (reply : Reply)

/-- Everything before the transaction; only the recipient is looked up in the database. -/
def inboxChecks (fed : Runtime) (r : InboxCall) (db : Db) : InboxPhase :=
  if r.limits.conn = false then .done (rejected 429 "rate_limited_conn")
  else
    match parseEvent r.raw with
    | .error e => .done (raisedReply e)
    | .ok env =>
      match admitInbound fed db r.limits env with
      | .error reply => .done reply
      | .ok p => .receive p

/-- `federation_inbox`, one statement at a time. -/
def inboxStep (envr : Env) (fed : Runtime) (r : InboxCall) (now : Time) (db : Db) :
    InboxPhase → Db × InboxPhase
  | .start => (db, inboxChecks fed r db)
  | .receive p =>
    match receiveTxn envr db p now with
    | .raised _ => (db, .done internalReply)
    | .committed db' _ => (db', .pending (statusReply 200 "stored"))
    | .violated => (db, .classify p now)
  | .classify p seen =>
    match findInbound db p.origin p.eventId with
    | none => (db, .conflict p "local_event_id_collision" seen)
    | some row =>
      if row.eventJcs = p.eventJcs then
        (db, if row.deliveryState = .pending then .pending (statusReply 200 "duplicate")
          else .done (statusReply 200 "duplicate"))
      else (db, .conflict p "same_id_different_content" seen)
  | .conflict p reason seen =>
    ({ db with federationInboundConflicts := db.federationInboundConflicts ++
        [conflictRow db p reason seen] }, .done (statusReply 409 "conflict"))
  | .pending reply =>
    (db, .deliver ((db.federationInbound.filter (·.deliveryState = .pending)).take 100) reply)
  | .deliver [] reply => (db, .done reply)
  | .deliver (row :: rows) reply =>
    match getEvent db (some row.localEventId) with
    | .ok _ => (db, .mark row rows reply)
    | .error (.key _) => (db, .mark row rows reply)
    | .error _ => (db, .deliver rows reply)
  | .mark row rows reply => (markDelivered db row.origin row.eventId, .deliver rows reply)
  | .done reply => (db, .done reply)

def inboxCalls (envr : Env) (fed : Runtime) : Machine Db InboxCall Time InboxPhase Reply where
  start _ := .start
  step := inboxStep envr fed
  result
    | .done reply => some reply
    | _ => none

/-! ## A call that nobody interrupts -/

variable {envr : Env} {fed : Runtime} {r : InboxCall} {now : Time} {db : Db} {p : InboxPhase}

/-- The call, left alone, ends with an answer. -/
def InboxAnswers (envr : Env) (fed : Runtime) (r : InboxCall) (now : Time) (db : Db)
    (p : InboxPhase) (x : Db × Reply) : Prop :=
  (inboxCalls envr fed).Leads r now (db, p) (x.1, .done x.2)

theorem InboxAnswers.done (reply : Reply) :
    InboxAnswers envr fed r now db (.done reply) (db, reply) := .refl ..

theorem InboxAnswers.step {x : Db × Reply}
    (h : InboxAnswers envr fed r now (inboxStep envr fed r now db p).1
      (inboxStep envr fed r now db p).2 x) : InboxAnswers envr fed r now db p x :=
  Machine.Leads.step h

theorem answers_deliver (reply : Reply) (rows : List InboundRow) (db : Db) :
    InboxAnswers envr fed r now db (.deliver rows reply) (rows.foldl deliverOne db, reply) := by
  induction rows generalizing db with
  | nil => exact .step (.done reply)
  | cons row rows ih =>
    have hmark : InboxAnswers envr fed r now db (.mark row rows reply)
        (rows.foldl deliverOne (markDelivered db row.origin row.eventId), reply) := .step (ih _)
    refine .step ?_
    rw [List.foldl_cons, deliverOne, inboxStep]
    cases getEvent db (some row.localEventId) with
    | ok event => exact hmark
    | error e =>
      cases e with
      | key name => exact hmark
      | _ => exact ih db

theorem answers_pending (reply : Reply) :
    InboxAnswers envr fed r now db (.pending reply) (deliverPending db, reply) :=
  .step (answers_deliver reply _ db)

theorem answers_receive (p : InboundParams) :
    InboxAnswers envr fed r now db (.receive p) (storeInbound envr db p now) := by
  refine .step ?_
  rw [inboxStep, storeInbound, receiveEvent]
  cases receiveTxn envr db p now with
  | raised e => exact .done _
  | committed db' row => exact answers_pending _
  | violated =>
    refine .step ?_
    rw [inboxStep]
    simp only [classifyReceived]
    cases findInbound db p.origin p.eventId with
    | none => exact .step (.done _)
    | some row =>
      by_cases hjcs : row.eventJcs = p.eventJcs
      · simp only [if_pos hjcs]
        by_cases hstate : row.deliveryState = .pending
        · simp only [if_pos hstate]
          exact answers_pending _
        · simp only [if_neg hstate]
          exact .done _
      · simp only [if_neg hjcs]
        exact .step (.done _)

/-- A call that nobody interrupts is `federationInbox`. -/
theorem inboxCalls_answer (envr : Env) (fed : Runtime) (r : InboxCall) (now : Time) (db : Db) :
    InboxAnswers envr fed r now db .start (federationInbox envr fed db r.limits r.raw now) := by
  refine .step ?_
  rw [inboxStep, inboxChecks, federationInbox]
  split_ifs
  · exact .done _
  · cases parseEvent r.raw with
    | error e => exact .done _
    | ok env =>
      simp only
      cases admitInbound fed db r.limits env with
      | error reply => exact .done _
      | ok p => exact answers_receive p

end Server
end ATalk
