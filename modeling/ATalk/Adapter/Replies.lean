import ATalk.Adapter
import ATalk.Federation.Send

/-!
# Replies

What the handlers of this repository send when they have an answer to an event, and what becomes of
it when the event is from abroad: `federation_send` takes it or refuses it.

* `Producer`, `Producer.body` : the producers of replies, and what each of them posts;
* `FromAbroad` : a row that `receive_event` stored for a request;
* `federationSend_reply` : what `federation_send` makes of a reply;
* `federated_reply_accepted_iff` : which replies it accepts.
-/

namespace ATalk
namespace Adapter

open Text Json Python Sqlite ATalk.Core Federation Checks Server

/-! ## The producers -/

/-- `str(uuid.uuid5(uuid.NAMESPACE_URL, name))` : lowercase, in five groups. -/
structure NameIds where
  uuid5 : Str → Str
  form : ∀ name, uuidRe (uuid5 name) = true

/-- The body of `send(target, event_type, payload, source_ref=.., event_id=..)`. -/
def Client.sendBody (client : Client) (target type : Str) (payload : Dict)
    (sourceRef eventId : Str) : Dict :=
  [(lit "source", .str client.agent), (lit "target", .str target), (lit "type", .str type),
    (lit "payload", .dict payload), (lit "source_ref", .str sourceRef),
    (lit "requires_ack", .bool true), (lit "event_id", .str eventId)]

/-- `f"atalk:{event['event_id']}:reply:{client.agent}"` -/
def replyName (client : Client) (event : Event) : Str :=
  lit "atalk:" ++ event.eventId ++ lit ":reply:" ++ client.agent

/-- A reply to the sender of an event, under an id of its own. -/
def replyBody (client : Client) (event : Event) (payload : Dict) (eventId : Str) : Dict :=
  client.sendBody event.source (lit "reply") payload (lit "atalk:" ++ event.eventId) eventId

/-- The payload of an automatic reply. -/
def autoPayload (event : Event) (reply : Str) : Dict :=
  [(lit "text", .str reply), (lit "in_reply_to", .str event.eventId), (lit "auto", .bool true)]

section
variable (ids : NameIds) (client : Client) (event : Event) (reply : Str)

/-- `chat_http_handler` -/
def chatHttpReply : Dict :=
  replyBody client event (autoPayload event reply) (ids.uuid5 (replyName client event))

/-- `http_agent_handler` -/
def httpAgentReply : Dict :=
  replyBody client event (autoPayload event reply) (ids.uuid5 (replyName client event))

/-- `tmux_handler` -/
def tmuxReply : Dict :=
  replyBody client event (autoPayload event reply) (ids.uuid5 (replyName client event))

/-- `atalk-inbox reply` -/
def inboxReply : Dict :=
  replyBody client event [(lit "text", .str reply), (lit "in_reply_to", .str event.eventId)]
    (ids.uuid5 (replyName client event))

/-- The outcomes of `parse_openclaw_outcome`. -/
inductive WorkStatus where
  | complete
  | waiting
  | blocked
deriving DecidableEq, Repr

def WorkStatus.text : WorkStatus → Str
  | .complete => lit "complete"
  | .waiting => lit "waiting"
  | .blocked => lit "blocked"

/-- `f"..:reply:{client.agent}:{status}:{attempt}"` -/
def openclawName (status : WorkStatus) (attempt : ℤ) : Str :=
  replyName client event ++ lit ":" ++ status.text ++ lit ":" ++ decimalText attempt

/-- `openclaw_handler` -/
def openclawReply (status : WorkStatus) (attempt : ℤ) : Dict :=
  replyBody client event
    [(lit "text", .str reply), (lit "in_reply_to", .str event.eventId),
      (lit "work_status", .str status.text), (lit "auto", .bool true)]
    (ids.uuid5 (openclawName client event status attempt))

end

inductive Producer where
  | chatHttp
  | httpAgent
  | tmux
  | openclaw (status : WorkStatus) (attempt : ℤ)
  | inbox
deriving DecidableEq

/-- What a producer posts. -/
def Producer.body (ids : NameIds) (client : Client) (event : Event) (reply : Str) : Producer → Dict
  | .chatHttp => chatHttpReply ids client event reply
  | .httpAgent => httpAgentReply ids client event reply
  | .tmux => tmuxReply ids client event reply
  | .openclaw status attempt => openclawReply ids client event reply status attempt
  | .inbox => inboxReply ids client event reply

/-- The id of its reply. -/
def Producer.replyId (ids : NameIds) (client : Client) (event : Event) : Producer → Str
  | .openclaw status attempt => ids.uuid5 (openclawName client event status attempt)
  | _ => ids.uuid5 (replyName client event)

/-- Its payload has the fields of a federated one only. -/
def Producer.Plain : Producer → Prop
  | .openclaw .. => False
  | _ => True

theorem Producer.plain_iff {p : Producer} :
    p.Plain ↔ ∀ status attempt, p ≠ .openclaw status attempt := by
  cases p with
  | openclaw status attempt => exact iff_of_false id fun h => h status attempt rfl
  | _ => exact iff_of_true trivial nofun

/-! ## Events from abroad -/

/-- A row that an inbound request stored: its envelope was parsed and admitted. -/
structure FromAbroad (fed : Runtime) (row : EventRow) (origin : Str) : Prop where
  stored : ∃ envr db limits raw env p now db' inb, parseEvent raw = .ok env ∧
    admitInbound fed db limits env = .ok p ∧ receiveEvent envr db p now = .ok (db', .stored inb) ∧
      row ∈ db'.events ∧ row ∉ db.events ∧ p.origin = origin

theorem admitInbound_params {fed : Runtime} {db : Db} {limits : RateLimits} {env : Envelope}
    {p : InboundParams} (h : admitInbound fed db limits env = .ok p) :
    ∃ rec, lookupSigner fed env = some rec ∧ p = inboundParams env rec := by
  unfold admitInbound at h
  split at h
  · cases h
  next rec hrec =>
    refine ⟨rec, hrec, ?_⟩
    split at h
    · cases h
    · simp only at h
      split_ifs at h
      exact (Except.ok.inj h).symm

theorem get_withoutSig {k : Str} (hk : k ≠ lit "sig") (ms : List (Str × Json)) :
    get k (withoutSig ms) = get k ms := by
  induction ms with
  | nil => rfl
  | cons m ms ih =>
    obtain ⟨k', v⟩ := m
    rw [withoutSig, List.filter_cons]
    split_ifs with hsig
    · rw [get_cons, get_cons, ← ih, withoutSig]
    · have hother : k' ≠ k := by
        rintro rfl
        exact hsig (decide_eq_true hk)
      rw [get_cons, if_neg hother, ← ih, withoutSig]

/-- What was parsed as an event envelope has valid fields. -/
theorem parseEvent_reads {raw : Bytes} {env : Envelope} (h : parseEvent raw = .ok env) :
    ∃ f : EventFields, EventEnvelopeReads env.signed f ∧ f.Valid := by
  obtain ⟨-, ms, -, hvalid⟩ := parseWith_ok_iff.mp h
  obtain ⟨-, -, -, ⟨f, hreads, hf⟩, sigStr, sig, -, -, rfl⟩ :=
    validateEventEnvelope_ok_iff.mp hvalid
  obtain ⟨ev, hev, hevent⟩ := hreads.event
  refine ⟨f, ⟨?_, ?_, ev, ?_, hevent⟩, hf⟩
  · rw [get_withoutSig (by decide)]
    exact hreads.origin
  · rw [get_withoutSig (by decide)]
    exact hreads.keyId
  · rw [get_withoutSig (by decide)]
    exact hev

variable {fed : Runtime} {row : EventRow} {origin : Str}

/-- Its id is a UUID, and its source an address of the family it is from. -/
theorem FromAbroad.grammar (h : FromAbroad fed row origin) :
    uuidRe row.eventId = true ∧ ∃ sender, IsAddress row.source sender origin := by
  obtain ⟨envr, db, limits, raw, env, p, now, db', inb, hparse, hadmit, hreceive, hrow, hnew,
    horigin⟩ := h.stored
  obtain ⟨rec, -, hp⟩ := admitInbound_params hadmit
  obtain ⟨f, hreads, hf⟩ := parseEvent_reads hparse
  obtain ⟨ev, hev, hevent⟩ := hreads.event
  have hobj : objMember (lit "event") env.signed = ev := by rw [objMember, hev]
  have hstr : ∀ k s, get k ev = some (.str s) → (strMember k ev).getD [] = s := fun k s hk => by
    rw [strMember, hk, Option.getD_some]
  have heventId : p.eventId = f.eventId := by
    rw [hp, inboundParams, hobj]
    exact hstr _ _ hevent.eventId
  have hsource : p.sourceAddr = f.source := by
    rw [hp, inboundParams, hobj]
    exact hstr _ _ hevent.source
  have hfamily : f.origin = origin := by
    rw [← horigin, hp, inboundParams, strMember, hreads.origin, Option.getD_some]
  rcases receiveEvent_cases hreceive with ⟨-, hs⟩ | ⟨_, hres, -⟩ | ⟨_, _, hres, -⟩
  · obtain ⟨seq, hevents⟩ := hs.event
    rw [hevents, List.mem_append, List.mem_singleton] at hrow
    have hlocal := hrow.resolve_left hnew
    have hid : row.eventId = p.eventId := by rw [hlocal, localRow]
    have haddr : row.source = p.sourceAddr := by rw [hlocal, localRow]
    rw [hid, haddr, heventId, hsource, ← hfamily]
    exact ⟨hf.eventId, hf.source⟩
  · cases hres
  · cases hres

/-! ## What `federation_send` makes of a reply -/

/-- What a reply asks for. -/
def replyRequest (ids : NameIds) (client : Client) (event : Event) (origin reply : Str)
    (p : Producer) : SendRequest :=
  ⟨client.agent, event.source, origin, lit "reply", reply, some event.eventId,
    p.replyId ids client event⟩

variable {ids : NameIds} {client : Client} {event : Event} {p : Producer} {db : Db}
  {reply newId : Str} {now : Time}

theorem Producer.replyId_form (p : Producer) : uuidRe (p.replyId ids client event) = true := by
  cases p <;> exact ids.form _

theorem uuidRe_ne_nil {s : Str} (h : uuidRe s = true) : s ≠ [] := by
  rintro rfl
  exact absurd h (by decide)

/-- A reply link and no field that is not federated. -/
theorem checkSend_replyBody {rec : PeerRecord} {payload : Dict} {replyId : Str}
    (hpeer : fed.registry.receiptsPeer origin = some rec) (hid : uuidRe event.eventId = true)
    (hagent : ofChar '@' ∉ client.agent) (htext : getNone (lit "text") payload = .str reply)
    (hkeys : (dictKeys payload).filter (· ∉ payloadKeys) = [])
    (hlink : getNone (lit "in_reply_to") payload = .str event.eventId)
    (hform : uuidRe replyId = true) :
    checkSend fed client.agent event.source (replyBody client event payload replyId) origin newId =
      .ok (.ok ⟨client.agent, event.source, origin, lit "reply", reply, some event.eventId,
        replyId⟩) := by
  have htype : getDefault (lit "type") (replyBody client event payload replyId)
      (.str (lit "message")) = .str (lit "reply") := rfl
  have hpayload : getNone (lit "payload") (replyBody client event payload replyId) =
      .dict payload := rfl
  have hreply : replyTo payload (lit "reply") = .ok (some event.eventId) := by
    unfold replyTo
    rw [hlink]
    simp only [ne_eq, not_true_eq_false, if_false, hid, if_true]
  have hsend : sendId (replyBody client event payload replyId) newId = .ok replyId := by
    have hkey : getNone (lit "event_id") (replyBody client event payload replyId) =
        .str replyId := rfl
    unfold sendId
    rw [hkey]
    exact congrArg Except.ok (if_neg (uuidRe_ne_nil hform))
  have hcarried : ¬ lit "reply" ∉ eventTypes := by decide
  unfold checkSend
  simp only [hpeer, htype, hpayload, htext, hkeys, hreply, hsend, hform, if_neg hcarried,
    if_neg hagent, Bool.true_eq_false, if_false]

/-- The checks let the reply of a plain producer through, -/
theorem checkSend_reply (ids : NameIds) (reply newId : Str) {rec : PeerRecord} (hp : p.Plain)
    (hpeer : fed.registry.receiptsPeer origin = some rec) (hid : uuidRe event.eventId = true)
    (hagent : ofChar '@' ∉ client.agent) :
    checkSend fed client.agent event.source (p.body ids client event reply) origin newId =
      .ok (.ok (replyRequest ids client event origin reply p)) := by
  cases p with
  | openclaw status attempt => exact hp.elim
  | _ => exact checkSend_replyBody hpeer hid hagent rfl rfl rfl (ids.form _)

/-- and refuse every reply of `openclaw_handler`. -/
theorem checkSend_openclaw {rec : PeerRecord} {status : WorkStatus} {attempt : ℤ}
    (hpeer : fed.registry.receiptsPeer origin = some rec) :
    checkSend fed client.agent event.source (openclawReply ids client event reply status attempt)
      origin newId = .ok (.error (errorReply 400
        (lit "federation payload does not support field(s): work_status"))) := by
  unfold checkSend
  rw [hpeer]
  rfl

/-- The fields that are signed for a reply satisfy the grammars. -/
theorem valid_reply (ids : NameIds) (fed : Runtime) (p : Producer) {sender : Str}
    (hid : uuidRe event.eventId = true)
    (hsource : IsAddress event.source sender origin) (hagent : agentRe client.agent = true)
    (hnow : timestampOk now = true) (hclean : Clean reply) (hsize : byteSize reply ≤ textLimit) :
    ((replyRequest ids client event origin reply p).fields fed now).Valid where
  origin := fed.identity.family_ok
  keyId := fed.identity.keyId_ok
  eventId := p.replyId_form
  type := show lit "reply" ∈ eventTypes by decide
  source := ⟨client.agent, rfl, hagent, fed.identity.family_ok⟩
  target := ⟨sender, origin, hsource⟩
  createdAt := hnow
  text := ⟨hclean, hsize⟩
  inReplyTo := fun s hs => ⟨rfl, (Option.some.inj hs) ▸ hid⟩

/-- A valid request under an id that the outbox has is answered from the row. -/
theorem federationSend_existing {source target family : Str} {body : Dict} {r : SendRequest}
    {row : OutboundRow}
    (hcheck : checkSend fed source target body family newId = .ok (.ok r))
    (hvalid : (r.fields fed now).Valid) (hrow : findOutbound db r.eventId = some row) :
    federationSend fed db source target body family newId now = .ok (db,
      if differs row r = true then
        errorReply 409 (lit "event_id already used for a different federation event")
      else ⟨201, sendItem row r⟩) := by
  obtain ⟨raw, hraw, -⟩ := length_eventBytes fed.crypto fed.identity hvalid
  have henv : composeEvent fed.crypto fed.identity r.source r.target r.type r.text r.eventId now
      r.inReplyTo = .ok (withSig (signedEvent (r.fields fed now)) (r.sig fed now)) :=
    compose_event_ok_iff.mpr ⟨hvalid, rfl⟩
  have hput : enqueueOutbound fed db (r.params fed (withSig (signedEvent (r.fields fed now))
      (r.sig fed now)) raw (r.sig fed now)) now = some (db, .existing) := by
    unfold enqueueOutbound
    rw [show findOutbound db (SendRequest.params r fed _ raw _).eventId = some row from hrow]
  unfold federationSend
  rw [hcheck]
  simp only [sendChecked, henv]
  unfold queueSend
  rw [show canonicalBytes (withSig (signedEvent (r.fields fed now)) (r.sig fed now)) = some raw
    from hraw]
  simp only [strMember_sig, Option.getD_some, hput, hrow, true_and]
  split_ifs <;> rfl

/-- The row is that of the same reply. -/
def SameReply (client : Client) (event : Event) (reply : Str) (row : OutboundRow) : Prop :=
  row.sourceLocal = client.agent ∧ row.target = event.source ∧ row.type = lit "reply" ∧
    storedReply row = some event.eventId ∧ storedText row = some reply

theorem differs_reply_iff {row : OutboundRow} :
    differs row (replyRequest ids client event origin reply p) = false ↔
      SameReply client event reply row := by
  rw [differs, decide_eq_false_iff_not, not_not]
  simp only [replyRequest, Prod.mk.injEq, SameReply]
  tauto

/-- A post is accepted. -/
def Accepts (fed : Runtime) (db : Db) (source target : Str) (body : Dict) (family newId : Str)
    (now : Time) : Prop :=
  ∃ db' reply, federationSend fed db source target body family newId now = .ok (db', reply) ∧
    reply.status = 201

/-- A reply is accepted when its producer is plain and the outbox has no other one under its id. -/
theorem accepts_reply_iff (ids : NameIds) (client : Client) (event : Event) (newId : Str)
    (p : Producer) {sender : Str} (hid : uuidRe event.eventId = true)
    (hsource : IsAddress event.source sender origin) (hagent : agentRe client.agent = true)
    (hpeer : fed.registry.receiptsPeer origin ≠ none) (hroom : pendingOutbound db < fed.outboxCap)
    (hnow : timestampOk now = true) (hclean : Clean reply) (hsize : byteSize reply ≤ textLimit) :
    Accepts fed db client.agent event.source (p.body ids client event reply) origin newId now ↔
      p.Plain ∧ ∀ old, findOutbound db (p.replyId ids client event) = some old →
        SameReply client event reply old := by
  obtain ⟨rec, hrec⟩ := Option.ne_none_iff_exists'.mp hpeer
  have hbare : ofChar '@' ∉ client.agent := fun hmem => agentRe_ne_at hagent _ hmem rfl
  by_cases hp : p.Plain
  · have hcheck := checkSend_reply ids reply newId hp hrec hid hbare
    have hvalid := valid_reply ids fed p hid hsource hagent hnow hclean hsize
    cases hold : findOutbound db (p.replyId ids client event) with
    | none =>
      obtain ⟨raw, -, hsend⟩ := federationSend_of_queued ⟨hcheck, hvalid, hold, hroom⟩
      exact iff_of_true ⟨_, _, hsend, rfl⟩ ⟨hp, nofun⟩
    | some old =>
      have hsend := federationSend_existing hcheck hvalid hold
      cases hdiffers : differs old (replyRequest ids client event origin reply p) with
      | true =>
        refine iff_of_false ?_ ?_
        · rintro ⟨db', answer, hanswer, hstatus⟩
          rw [hsend, hdiffers, if_pos rfl] at hanswer
          cases hanswer
          cases hstatus
        · rintro ⟨-, hsame⟩
          rw [differs_reply_iff.mpr (hsame old rfl)] at hdiffers
          cases hdiffers
      | false =>
        rw [hdiffers] at hsend
        refine iff_of_true ⟨_, _, hsend, rfl⟩ ⟨hp, fun row hrow => ?_⟩
        rw [← Option.some.inj hrow]
        exact differs_reply_iff.mp hdiffers
  · -- a field that is not federated
    refine iff_of_false ?_ fun h => hp h.1
    cases p with
    | openclaw status attempt =>
      rintro ⟨db', answer, hanswer, hstatus⟩
      rw [federationSend, Producer.body, checkSend_openclaw hrec] at hanswer
      cases hanswer
      cases hstatus
    | _ => exact absurd trivial hp

/-- The reply to an event from abroad is accepted exactly when its producer is not
`openclaw_handler` and the outbox has no other reply under its id. -/
theorem federated_reply_accepted_iff (ids : NameIds) (fed₀ fed : Runtime) (client : Client)
    (row : EventRow) (event : Event) (origin : Str) (db : Db) (reply newId : Str) (now : Time)
    (p : Producer) (hrow : FromAbroad fed₀ row origin) (hevent : Decoded row event)
    (hagent : agentRe client.agent = true) (hpeer : fed.registry.receiptsPeer origin ≠ none)
    (hroom : pendingOutbound db < fed.outboxCap) (hnow : timestampOk now = true)
    (hclean : Clean reply) (hsize : byteSize reply ≤ textLimit) :
    Accepts fed db client.agent event.source (p.body ids client event reply) origin newId now ↔
      (∀ status attempt, p ≠ .openclaw status attempt) ∧
        ∀ old, findOutbound db (p.replyId ids client event) = some old →
          SameReply client event reply old := by
  obtain ⟨hid, sender, hsource⟩ := hrow.grammar
  obtain ⟨heventId, heventSource⟩ := decoded_names hevent
  rw [← heventId] at hid
  rw [← heventSource] at hsource
  rw [accepts_reply_iff ids client event newId p hid hsource hagent hpeer hroom hnow hclean hsize,
    Producer.plain_iff]

/-! ## A message for Alice -/

theorem orgB_family : familyRe (lit "org-b") = true := by decide

theorem orgB_keyId : keyIdRe (lit "ob-1") = true := by decide

def bobsFamily : Identity where
  family := lit "org-b"
  keyId := lit "ob-1"
  seed := []
  family_ok := orgB_family
  keyId_ok := orgB_keyId

def bobsFields : EventFields :=
  ⟨lit "org-b", lit "ob-1", lit "00000000-0000-4000-8000-000000000002", lit "message",
    lit "bob@org-b", lit "alice@org-a", noon, lit "hello", none⟩

theorem bobsFields_valid : bobsFields.Valid where
  origin := by decide
  keyId := by decide
  eventId := by decide
  type := by decide
  source := ⟨lit "bob", rfl, by decide, by decide⟩
  target := ⟨lit "alice", lit "org-a", rfl, by decide, by decide⟩
  createdAt := by decide
  text := by decide
  inReplyTo := nofun

/-- Alice is a member. -/
def aliceMember : Db :=
  { peers := [⟨lit "alice", none, none, none, none, [], 0, noon, none⟩] }

def bobsParams : InboundParams :=
  inboundParams (receivedEvent plainCrypto bobsFamily bobsFields) peerB

def bobsMail : EventRow := localRow aliceMember bobsParams 1 noon

def bobsMessage : Event where
  id := 1
  eventId := lit "00000000-0000-4000-8000-000000000002"
  source := lit "bob@org-b"
  target := lit "alice"
  type := lit "message"
  seq := 1
  createdAt := noon
  storedAt := noon
  payload := [(lit "text", .str (lit "hello"))]
  requiresAck := true
  sourceRef := none
  authActor := none

theorem bobsMail_fromAbroad : FromAbroad fedA bobsMail (lit "org-b") := by
  obtain ⟨raw, hraw, hlength⟩ := length_eventBytes plainCrypto bobsFamily bobsFields_valid
  have hsize : eventSize bobsFields ≤ requestBodyLimit := by decide
  have hparse := (parseEvent_composed bobsFields_valid hraw).mpr ⟨hlength ▸ hsize, rfl⟩
  refine ⟨plainEnv, aliceMember, ⟨true, true⟩, raw, _, bobsParams, noon, _, _, hparse, rfl, rfl, ?_,
    ?_, rfl⟩
  · exact List.mem_append_right _ (List.mem_singleton_self _)
  · exact List.not_mem_nil

theorem bobsMail_decoded : Decoded bobsMail bobsMessage := rfl

/-- The client of Alice's adapter. -/
def aliceClient : Client := ⟨lit "alice", []⟩

/-- A constant, which is in the form of a UUID. -/
def constantIds : NameIds :=
  ⟨fun _ => lit "00000000-0000-5000-8000-000000000003", fun _ => by decide⟩

/-- A chat service answers, and its adapter's reply is accepted. -/
theorem federated_reply_accepted_hi : Accepts fedA {} (lit "alice") (lit "bob@org-b")
    (chatHttpReply constantIds aliceClient bobsMessage (lit "hi")) (lit "org-b") [] noon :=
  (federated_reply_accepted_iff constantIds fedA fedA aliceClient bobsMail bobsMessage (lit "org-b")
    {} (lit "hi") [] noon .chatHttp bobsMail_fromAbroad bobsMail_decoded (by decide) nofun (by decide)
    (by decide) (by decide) (by decide)).mpr ⟨nofun, nofun⟩

/-- What `openclaw_handler` has done is refused for good; and a chat service that answers otherwise
when it is asked again is refused as well. -/
theorem bobs_message_unanswered :
    FromAbroad fedA bobsMail (lit "org-b") ∧ Decoded bobsMail bobsMessage ∧
    ¬ Accepts fedA {} (lit "alice") (lit "bob@org-b")
      (openclawReply constantIds aliceClient bobsMessage (lit "done") .complete 0) (lit "org-b") []
      noon ∧
    ∃ db answer, federationSend fedA {} (lit "alice") (lit "bob@org-b")
        (chatHttpReply constantIds aliceClient bobsMessage (lit "hi")) (lit "org-b") [] noon =
          .ok (db, answer) ∧ answer.status = 201 ∧ pendingOutbound db < fedA.outboxCap ∧
      ¬ Accepts fedA db (lit "alice") (lit "bob@org-b")
        (chatHttpReply constantIds aliceClient bobsMessage (lit "ho")) (lit "org-b") [] noon := by
  obtain ⟨hid, sender, hsource⟩ := bobsMail_fromAbroad.grammar
  have hpeer : fedA.registry.receiptsPeer (lit "org-b") ≠ none := nofun
  have haccepts : ∀ db reply p, pendingOutbound db < fedA.outboxCap → Clean reply →
      byteSize reply ≤ textLimit → _ := fun db reply p hroom hclean hsize =>
    @accepts_reply_iff fedA (lit "org-b") db reply noon constantIds aliceClient bobsMessage [] p _
      hid hsource (by decide) hpeer hroom (by decide) hclean hsize
  refine ⟨bobsMail_fromAbroad, bobsMail_decoded, fun haccepted => ?_, ?_⟩
  · exact ((haccepts {} (lit "done") (.openclaw .complete 0) (by decide) (by decide)
      (by decide)).mp haccepted).1
  · have hqueued : Queued fedA {} (lit "alice") (lit "bob@org-b")
        (chatHttpReply constantIds aliceClient bobsMessage (lit "hi")) (lit "org-b") [] noon
        (replyRequest constantIds aliceClient bobsMessage (lit "org-b") (lit "hi") .chatHttp) :=
      ⟨rfl, valid_reply _ _ _ hid hsource (by decide) (by decide) (by decide) (by decide), rfl,
        by decide⟩
    obtain ⟨raw, -, hsend⟩ := federationSend_of_queued hqueued
    have hroom : 1 < fedA.outboxCap := by decide
    refine ⟨_, _, hsend, rfl, hroom, fun haccepted => ?_⟩
    have hsame := ((haccepts (SendRequest.stored _ fedA {} raw noon) (lit "ho") .chatHttp hroom
      (by decide) (by decide)).mp haccepted).2 _ rfl
    exact absurd hsame.2.2.2.2 (show some (lit "hi") ≠ some (lit "ho") by decide)

end Adapter
end ATalk
