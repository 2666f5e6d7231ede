import ATalk.Federation.Notifications
import ATalk.Server.PostEvents
import ATalk.Backends

/-!
# The handlers, statement by statement

A handler of `do_POST` reads and writes the ledger in several statements, and other handlers may run
between two of them. `POST /events` and `POST /ack` as calls that many callers make at once.

* `checkAgent`, `readAck`, `storeAck` : the three parts of an acknowledgement;
* `eventCalls`, `ackCalls` : the two machines;
* `eventCalls_answer` : a call that nobody interrupts is `postEvents`.
-/

namespace ATalk
namespace Server

open Text Python Sqlite ATalk.Core Federation Checks Transition Callers Backends

/-! ## `POST /ack` -/

/-- `body[field]` -/
def requireKey (body : Dict) (field : String) : Except Exn Val :=
  match dictGet (lit field) body with
  | some v => .ok v
  | none => .error (.key (lit "'" ++ lit field ++ lit "'"))

/-- `token_scope(body["agent_id"], token)` : the peer may be any value. -/
def agentScope (env : Env) (db : Db) (now : Time) (agent token : Val) :
    Except Exn (Option Str) :=
  if token.truthy = false then .ok none
  else do
    match ← textParam env agent with
    | none => return none
    | some peerId => scopeOf env now token (db.peerTokens.filter (·.peerId = peerId))

/-- `auth_required() and token_scope(body["agent_id"], token) != "full"` -/
def checkAgent (cfg : ServerConfig) (db : Db) (r : Request) (now : Time) : Except Exn Unit := do
  let agent ← requireKey r.body "agent_id"
  guardOr ((← agentScope cfg.env db now agent (requestToken r)) = some (lit "full"))
    (.permission (lit "agent token rejected"))

/-- The lookup of an acknowledgement when federation is on. -/
def readAck (cfg : ServerConfig) (fed : Runtime) (db : Db) (r : Request) : Except Exn AckPath := do
  let eventId ← requireKey r.body "event_id"
  match (← textParam cfg.env eventId).bind (getInbound db) with
  | none => return .localPath
  | some inb =>
    let agentId ← requireKey r.body "agent_id"
    match dictGet (lit "ack_type") r.body, agentId with
    | some ackType, _ => ackLookup cfg.env fed db ⟨eventId, agentId, ackType, .none, r.now⟩
    | none, .str agent =>
      guardOr (agent = localPart inb.target)
        (.permission (lit "only the recipient of a federation event may ack it"))
      .error (.key (lit "'ack_type'"))
    | none, _ => .error (.permission (lit "only the recipient of a federation event may ack it"))

/-- A lookup that chooses the federated path: the event came from abroad, and its recipient
acknowledges it. -/
theorem ackLookup_federated {env : Env} {fed : Runtime} {db : Db} {q : AckRequest} {inb : InboundRow}
    {eventId agentId : Str} {ackType : AckType} {sigHash : Str}
    (h : ackLookup env fed db q = .ok (.federated inb eventId agentId ackType sigHash)) :
    textParam env q.eventId = .ok (some eventId) ∧ getInbound db eventId = some inb ∧
      q.agentId = .str agentId ∧ agentId = localPart inb.target ∧
      parseAckType q.ackType = .ok ackType ∧
      ∃ sig, decodeStrict inb.sig 64 "signature_length" "schema" = .ok sig ∧
        sigHash = fed.crypto.sha256 sig := by
  unfold ackLookup at h
  obtain ⟨k, hk, h⟩ := bind_eq_ok.mp h
  cases k with
  | none => cases h
  | some key =>
    simp only at h
    cases hinb : getInbound db key with
    | none =>
      rw [hinb] at h
      cases h
    | some row =>
      rw [hinb] at h
      cases hagent : q.agentId with
      | str agent =>
        rw [hagent] at h
        simp only at h
        obtain ⟨_, hguard, h⟩ := bind_eq_ok.mp h
        have hlocal : agent = localPart row.target := guardOr_eq_ok.mp hguard
        cases htype : q.ackType with
        | str s =>
          rw [htype] at h
          cases hsig : decodeStrict row.sig 64 "signature_length" "schema" with
          | error e =>
            rw [hsig] at h
            simp only at h
            split_ifs at h <;> cases h
          | ok sig =>
            rw [hsig] at h
            simp only at h
            split_ifs at h with hreceived happlied
            · cases h
              exact ⟨hk, hinb, rfl, hlocal, if_pos hreceived, sig, hsig, rfl⟩
            · cases h
              exact ⟨hk, hinb, rfl, hlocal, (if_neg hreceived).trans (if_pos happlied), sig, hsig,
                rfl⟩
            · cases h
        | _ =>
          rw [htype] at h
          cases h
      | _ =>
        rw [hagent] at h
        cases h

/-- The same of the lookup of the handler, which reads the body. -/
theorem readAck_federated {cfg : ServerConfig} {fed : Runtime} {db : Db} {r : Request}
    {inb : InboundRow} {eventId agentId : Str} {ackType : AckType} {sigHash : Str}
    (h : readAck cfg fed db r = .ok (.federated inb eventId agentId ackType sigHash)) :
    ∃ e t, dictGet (lit "event_id") r.body = some e ∧
      dictGet (lit "agent_id") r.body = some (.str agentId) ∧
      dictGet (lit "ack_type") r.body = some t ∧
      ackLookup cfg.env fed db ⟨e, .str agentId, t, .none, r.now⟩ =
        .ok (.federated inb eventId agentId ackType sigHash) := by
  have hkey : ∀ (field : String) v, requireKey r.body field = .ok v →
      dictGet (lit field) r.body = some v := by
    intro field v hv
    unfold requireKey at hv
    split at hv
    · next w hw =>
      cases hv
      exact hw
    · cases hv
  unfold readAck at h
  obtain ⟨e, he, h⟩ := bind_eq_ok.mp h
  obtain ⟨k, -, h⟩ := bind_eq_ok.mp h
  split at h
  · cases h
  · obtain ⟨x, hx, h⟩ := bind_eq_ok.mp h
    cases ht : dictGet (lit "ack_type") r.body with
    | some t =>
      rw [ht] at h
      simp only at h
      obtain ⟨-, -, hagent, -⟩ := ackLookup_federated h
      have hsame : x = .str agentId := hagent
      rw [hsame] at hx h
      exact ⟨e, t, hkey _ _ he, hkey _ _ hx, rfl, h⟩
    | none =>
      rw [ht] at h
      cases x with
      | str agent =>
        obtain ⟨_, -, h⟩ := bind_eq_ok.mp h
        cases h
      | _ => cases h

/-- The write of an acknowledgement, along the path that the lookup chose. -/
def storeAck (cfg : ServerConfig) (db : Db) (r : Request) (now : Time) : AckPath → Except Exn Db
  | .localPath => do
    let eventId ← requireKey r.body "event_id"
    let agentId ← requireKey r.body "agent_id"
    let ackType ← requireKey r.body "ack_type"
    ackEvent cfg.env db now eventId agentId ackType (getNone (lit "detail") r.body)
  | .federated inb eventId agentId ackType sigHash =>
    match cfg.fed with
    | none => .ok db
    | some fed => ackWrite cfg.env fed db
        ⟨.str eventId, .str agentId, .none, getNone (lit "detail") r.body, now⟩
        (.federated inb eventId agentId ackType sigHash)

def okReply : Reply := ⟨200, [(lit "ok", .bool true)]⟩

/-- An acknowledgement, with the queues and the cursor that its hints find. -/
structure AckCall extends Request where
  woken : NotificationRow → Bool
  cursor : Option HintCursor

inductive AckPhase where
  | start
  | token
  | lookup
  | write (path : AckPath)
  | hint
  | done (reply : Reply)

/-- Where an acknowledgement goes on after its check. -/
def ackChecked (cfg : ServerConfig) : AckPhase :=
  match cfg.fed with
  | none => .write .localPath
  | some _ => .lookup

/-- `do_POST` for `/ack`, one statement at a time. -/
def ackStep (cfg : ServerConfig) (r : AckCall) (now : Time) (db : Db) : AckPhase → Db × AckPhase
  | .start => (db, if authRequired db then .token else ackChecked cfg)
  | .token =>
    match checkAgent cfg db r.toRequest now with
    | .error e => (db, .done (exnReply e))
    | .ok () => (db, ackChecked cfg)
  | .lookup =>
    match cfg.fed with
    | none => (db, .write .localPath)
    | some fed =>
      match readAck cfg fed db r.toRequest with
      | .error e => (db, .done (exnReply e))
      | .ok path => (db, .write path)
  | .write path =>
    match storeAck cfg db r.toRequest now path with
    | .error e => (db, .done (exnReply e))
    | .ok db' =>
      match path with
      | .localPath => (db', .done okReply)
      | .federated .. => (db', .hint)
  | .hint => ((hintNotifications r.woken db r.cursor).1, .done okReply)
  | .done reply => (db, .done reply)

def ackCalls (cfg : ServerConfig) : Machine Db AckCall Time AckPhase Reply where
  start _ := .start
  step := ackStep cfg
  result
    | .done reply => some reply
    | _ => none

/-! ## `POST /events` -/

/-- The checks of the body. -/
def checkBody (r : Request) : Except Exn EventArgs := do
  let source ← requireString r.body "source"
  let target ← requireString r.body "target"
  let type ← requireType r.body
  let payload ← requirePayload r.body
  return eventArgs r source target type payload

inductive EventPhase where
  | start
  | token (a : EventArgs)
  | probe (a : EventArgs)
  | gate (a : EventArgs) (retry : Bool)
  | insert (a : EventArgs) (p : CallPhase)
  | send (a : EventArgs) (fed : Runtime) (family : Str)
  | done (reply : Reply)

/-- Where an event goes on after its token: the message ACL, then its route. -/
def eventChecked (cfg : ServerConfig) (a : EventArgs) : EventPhase :=
  match cfg.acl.check a.source a.target with
  | some reason => .done (exnReply (.permission reason))
  | none =>
    match route cfg a.target with
    | some (fed, family) => .send a fed family
    | none => if a.eventId.truthy then .probe a else .gate a false

/-- What the answer to a full inbox is. -/
def fullReply : Reply := errorReply 429 (lit "target inbox backlog limit reached")

/-- What becomes of an insertion. -/
def eventInserted (a : EventArgs) : CallPhase → EventPhase
  | .returned (.ok event) => .done ⟨201, eventToDict event⟩
  | .returned (.error e) => .done (exnReply e)
  | p => .insert a p

/-- `do_POST` for `/events`, one statement at a time. -/
def eventStep (cfg : ServerConfig) (r : Request) (now : Time) (db : Db) :
    EventPhase → Db × EventPhase
  | .start =>
    match checkBody r with
    | .error e => (db, .done (exnReply e))
    | .ok a => (db, if authRequired db then .token a else eventChecked cfg a)
  | .token a =>
    match tokenScope cfg.env db now a.source (requestToken r) with
    | .error e => (db, .done (exnReply e))
    | .ok scope =>
      (db, if scope = some (lit "full") then eventChecked cfg a
        else .done (exnReply (.permission (lit "source token rejected"))))
  | .probe a =>
    match isRetry cfg db a.eventId with
    | .error e => (db, .done (exnReply e))
    | .ok retry => (db, .gate a retry)
  | .gate a retry =>
    (db, if a.target ≠ lit "*" ∧ retry = false ∧ cfg.maxInboxDepth ≤ backlogDepth db a.target then
        .done fullReply
      else .insert { a with now := now } .start)
  | .insert a p =>
    let (db', p') := sqliteStep cfg.env a now db p
    (db', eventInserted a p')
  | .send a fed family =>
    match federationSend fed db a.source a.target r.body family r.newId now with
    | .error e => (db, .done (exnReply e))
    | .ok (db', reply) => (db', .done reply)
  | .done reply => (db, .done reply)

def eventCalls (cfg : ServerConfig) : Machine Db Request Time EventPhase Reply where
  start _ := .start
  step := eventStep cfg
  result
    | .done reply => some reply
    | _ => none

/-! ## A call that nobody interrupts -/

variable {cfg : ServerConfig} {r : Request} {a : EventArgs} {db : Db}

theorem created_atTime (a : EventArgs) : (atTime a a.now).created = a.created := by
  show (if a.created.truthy then a.created else .str a.now) = a.created
  unfold EventArgs.created
  split_ifs <;> rfl

theorem writeEvent_atTime (env : Env) (a : EventArgs) (db : Db) :
    writeEvent env (atTime a a.now) db = writeEvent env a db := by
  have hparams : ∀ v, rowParams env (atTime a a.now) v = rowParams env a v := by
    intro v
    unfold rowParams
    rw [created_atTime]
    rfl
  unfold writeEvent commitEvent
  simp only [hparams]
  rfl

/-- The call, left alone, ends with an answer. -/
def Answers (cfg : ServerConfig) (r : Request) (db : Db) (p : EventPhase) (x : Db × Reply) : Prop :=
  (eventCalls cfg).Leads r r.now (db, p) (x.1, .done x.2)

theorem Answers.done (cfg : ServerConfig) (r : Request) (db : Db) (reply : Reply) :
    Answers cfg r db (.done reply) (db, reply) := .refl ..

theorem Answers.step {p : EventPhase} {x : Db × Reply}
    (h : Answers cfg r (eventStep cfg r r.now db p).1 (eventStep cfg r r.now db p).2 x) :
    Answers cfg r db p x := Machine.Leads.step h

theorem answers_insert (hnow : a.now = r.now) : Answers cfg r db (.insert a .start)
    (match insertEvent cfg.env a db with
      | (db', .error e) => (db', exnReply e)
      | (db', .ok event) => (db', ⟨201, eventToDict event⟩)) := by
  have hdone : ∀ (db' : Db) (result : Except Exn Event),
      Answers cfg r db' (eventInserted a (.returned result)) (match (db', result) with
        | (db', .error e) => (db', exnReply e)
        | (db', .ok event) => (db', ⟨201, eventToDict event⟩)) := by
    intro db' result
    cases result <;> exact .done ..
  refine .step ?_
  show Answers cfg r (sqliteStep cfg.env a r.now db .start).1
    (eventInserted a (sqliteStep cfg.env a r.now db .start).2) _
  rw [← hnow]
  unfold sqliteStep insertEvent
  split_ifs with hsourced
  · exact hdone ..
  · simp only [writeEvent_atTime]
    refine .step ?_
    have hfinish : ∀ (db' : Db) (p : Pending), finishEvent cfg.env (atTime a a.now) db' p =
        finishEvent cfg.env a db' p := by
      intro db' p
      cases p <;> rfl
    show Answers cfg r
      (finishEvent cfg.env (atTime a r.now) (writeEvent cfg.env a db).1
        (writeEvent cfg.env a db).2).1
      (eventInserted a (.returned (finishEvent cfg.env (atTime a r.now)
        (writeEvent cfg.env a db).1 (writeEvent cfg.env a db).2).2)) _
    rw [← hnow, hfinish]
    exact hdone ..

theorem answers_gate (hnow : a.now = r.now) (retry : Bool) : Answers cfg r db (.gate a retry)
    (if a.target ≠ lit "*" ∧ retry = false ∧ cfg.maxInboxDepth ≤ backlogDepth db a.target then
      (db, errorReply 429 (lit "target inbox backlog limit reached"))
    else
      match insertEvent cfg.env a db with
      | (db', .error e) => (db', exnReply e)
      | (db', .ok event) => (db', ⟨201, eventToDict event⟩)) := by
  refine .step ?_
  show Answers cfg r db (if a.target ≠ lit "*" ∧ retry = false ∧
    cfg.maxInboxDepth ≤ backlogDepth db a.target then .done fullReply
    else .insert { a with now := r.now } .start) _
  rw [← hnow]
  split_ifs
  · exact .done ..
  · exact answers_insert hnow

theorem answers_local (hnow : a.now = r.now) (hid : a.eventId = getNone (lit "event_id") r.body) :
    Answers cfg r db (if a.eventId.truthy then .probe a else .gate a false)
      (localEvent cfg db r a) := by
  unfold localEvent
  rw [← hid]
  split_ifs with htruthy
  · refine .step ?_
    simp only [eventStep]
    cases isRetry cfg db a.eventId with
    | error e => exact .done ..
    | ok retry => exact answers_gate hnow retry
  · have hretry : isRetry cfg db a.eventId = .ok false := if_pos (Bool.eq_false_iff.mpr htruthy)
    rw [hretry]
    exact answers_gate hnow false

theorem checkEvent_eq (cfg : ServerConfig) (db : Db) (r : Request) :
    checkEvent cfg db r = (checkBody r).bind fun a =>
      (checkToken cfg db r a.source).bind fun _ =>
        match cfg.acl.check a.source a.target with
        | some reason => .error (.permission reason)
        | none => .ok a := by
  unfold checkEvent checkBody
  cases requireString r.body "source" with
  | error e => rfl
  | ok source =>
    cases requireString r.body "target" with
    | error e => rfl
    | ok target =>
      cases requireType r.body with
      | error e => rfl
      | ok type => cases requirePayload r.body <;> rfl

theorem checkBody_ok (h : checkBody r = .ok a) :
    a.now = r.now ∧ a.eventId = getNone (lit "event_id") r.body := by
  simp only [checkBody, bind_eq_ok, pure_eq_ok] at h
  obtain ⟨_, -, _, -, _, -, _, -, rfl⟩ := h
  exact ⟨rfl, rfl⟩

/-- After the token: the ACL, the route and the local path. -/
theorem answers_checked (hnow : a.now = r.now) (hid : a.eventId = getNone (lit "event_id") r.body) :
    Answers cfg r db (eventChecked cfg a)
      (match (match cfg.acl.check a.source a.target with
          | some reason => .error (.permission reason)
          | none => .ok a : Except Exn EventArgs) with
        | .error e => (db, exnReply e)
        | .ok a =>
          match route cfg a.target with
          | some (fed, family) =>
            match federationSend fed db a.source a.target r.body family r.newId r.now with
            | .error e => (db, exnReply e)
            | .ok (db', reply) => (db', reply)
          | none => localEvent cfg db r a) := by
  unfold eventChecked
  cases cfg.acl.check a.source a.target with
  | some reason => exact .done ..
  | none =>
    cases hroute : route cfg a.target with
    | none =>
      simp only [hroute]
      exact answers_local hnow hid
    | some pair =>
      obtain ⟨fed, family⟩ := pair
      simp only [hroute]
      refine .step ?_
      simp only [eventStep]
      cases federationSend fed db a.source a.target r.body family r.newId r.now with
      | error e => exact .done ..
      | ok pair => exact .done ..

/-- A call that nobody interrupts is `postEvents`. -/
theorem eventCalls_answer (cfg : ServerConfig) (r : Request) (db : Db) :
    Answers cfg r db .start (postEvents cfg db r) := by
  refine .step ?_
  unfold postEvents
  simp only [eventStep, checkEvent_eq]
  cases hbody : checkBody r with
  | error e => exact .done ..
  | ok a =>
    obtain ⟨hnow, hid⟩ := checkBody_ok hbody
    have hchecked := @answers_checked cfg r _ db hnow hid
    simp only [Except.bind, checkToken]
    by_cases hauth : authRequired db = true
    · rw [if_pos hauth, if_pos hauth]
      refine .step ?_
      simp only [eventStep]
      cases tokenScope cfg.env db r.now a.source (requestToken r) with
      | error e => exact .done ..
      | ok scope =>
        by_cases hfull : scope = some (lit "full")
        · simp only [ok_bind, guardOr_pos hfull, if_pos hfull]
          exact hchecked
        · simp only [ok_bind, guardOr_neg hfull, if_neg hfull]
          exact .done ..
    · rw [if_neg hauth, if_neg hauth]
      exact hchecked

end Server
end ATalk
