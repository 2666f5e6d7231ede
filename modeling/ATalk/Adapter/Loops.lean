import ATalk.Adapter.AnsweredOnce

/-!
# Responders that answer each other

The adapters of a server handle the events of their agents, in any order and as often as they like,
and post what they answer. An answer that stays on the server keeps its `auto` flag, and is never
handled; one that goes to another family arrives without it, and is handled there.

* `bus` : a server with the adapters of any agents, `Handling` : what they have handled;
* `LoopFree` : what holds of the answers, `loop_free` : in every run;
* `Carried` : an answer that is queued for another family and stored there.
-/

namespace ATalk
namespace Adapter

open Text Json Python Sqlite ATalk.Core Federation Checks Transition Callers Server Backends

/-! ## The adapters of a server -/

/-- An event that the adapter of an agent handles, what it answers, and the request it posts. -/
structure Handling where
  client : Client
  producer : Producer
  event : Event
  text : Str
  call : ℕ

/-- A server, what the adapters have handled, and the events that were stored, with the request that
each of them came with. -/
structure Bus where
  server : Serving
  handlings : List Handling
  stored : List (ℕ × EventRow)

inductive BusAct where
  | serve (act : Callers.Action Db Asked Time)
  | handle (client : Client) (producer : Producer) (event : Event) (text : Str) (r : Request)

/-- The events that a step of a request stores. -/
def added (db db' : Db) : Callers.Action Db Asked Time → List (ℕ × EventRow)
  | .advance i _ => (db'.events.drop db.events.length).map (i, ·)
  | _ => []

/-- An adapter handles an event that is for its agent, and posts the reply of its handler. -/
def bus (cfg : ServerConfig) (ids : NameIds) : System Bus BusAct where
  init s := (serving cfg).init s.server ∧ s.handlings = [] ∧ s.stored = []
  step s act s' :=
    match act with
    | .serve a => ∃ server, (serving cfg).step s.server a server ∧
        s' = ⟨server, s.handlings, s.stored ++ added s.server.store server.store a⟩
    | .handle client producer event text r => producer ≠ .inbox ∧
        (∃ row ∈ s.server.store.events, Decoded row event ∧ forTarget client.agent row = true) ∧
        shouldHandle event = true ∧ client.Sends (producer.body ids client event text) r ∧
        ∃ server, (serving cfg).step s.server (.call (.inl r)) server ∧ s' = ⟨server,
          s.handlings ++ [⟨client, producer, event, text, s.server.calls.length⟩], s.stored⟩

/-- The row is the answer of an adapter. -/
def Bus.Answers (s : Bus) (h : Handling) (row : EventRow) : Prop :=
  h ∈ s.handlings ∧ (h.call, row) ∈ s.stored

/-! ## The answers -/

/-- What the producers put into their replies. -/
def Producer.payload (event : Event) (reply : Str) : Producer → Dict
  | .openclaw status _ =>
    [(lit "text", .str reply), (lit "in_reply_to", .str event.eventId),
      (lit "work_status", .str status.text), (lit "auto", .bool true)]
  | .inbox => [(lit "text", .str reply), (lit "in_reply_to", .str event.eventId)]
  | _ => autoPayload event reply

variable {cfg : ServerConfig} {ids : NameIds} {client : Client} {event : Event} {reply : Str}
  {s s' : Bus} {row : EventRow} {r : Request} {db db' : Db}

theorem Producer.body_eq (p : Producer) : p.body ids client event reply =
    replyBody client event (p.payload event reply) (p.replyId ids client event) := by
  cases p <;> rfl

/-- The replies of the handlers are marked as automatic. -/
theorem Producer.payload_auto {p : Producer} (hp : p ≠ .inbox) :
    getNone (lit "auto") (p.payload event reply) = .bool true := by
  cases p with
  | inbox => exact absurd rfl hp
  | _ => rfl

/-- The row is what a request with the body stores. -/
def Comes (cfg : ServerConfig) (r : Request) (row : EventRow) : Prop :=
  ∃ b, checkBody r = .ok b ∧ row.type = b.type ∧ row.payload = b.payload ∧
    sqliteKey cfg.env b row.eventId

theorem comes_of_committed {args : EventArgs} {now : Time} (hof : Of r args)
    (hc : Committed cfg.env (atTime args now) db row db') : Comes cfg r row := by
  obtain ⟨b, hb, hargs⟩ := hof
  have htype : args.type = b.type := by rw [hargs]
  have hpayload : args.payload = b.payload := by rw [hargs]
  have hkey : args.key = b.key := by
    rw [hargs]
    rfl
  refine ⟨b, hb, ?_, ?_, ?_⟩
  · rw [hc.columns]
    exact htype
  · rw [hc.columns]
    exact hpayload
  · unfold sqliteKey
    rw [← hkey]
    exact hc.key

/-- The answer of an adapter, as its request stores it. -/
theorem Comes.answer {p : Producer} (h : Comes cfg r row)
    (hsends : client.Sends (p.body ids client event reply) r) :
    row.type = lit "reply" ∧ row.payload = p.payload event reply ∧
      row.eventId = p.replyId ids client event := by
  obtain ⟨b, hb, htype, hpayload, hkey⟩ := h
  obtain ⟨-, -, hreply, hauto, hid⟩ := checkBody_reply hb (hsends.1.trans p.body_eq)
  exact ⟨htype.trans hreply, hpayload.trans hauto, key_of_id (uuidRe_ne_nil p.replyId_form) hid hkey⟩

theorem decoded_payload (h : Decoded row event) : event.type = row.type ∧ event.payload = row.payload := by
  obtain ⟨_, -, rfl⟩ := rowToEvent_ok h
  exact ⟨rfl, rfl⟩

/-! ## The invariant -/

/-- What the bus has come to. -/
structure Traced (cfg : ServerConfig) (ids : NameIds) (s : Bus) : Prop where
  server : Reachable (serving cfg) s.server
  stored : ∀ i row, (i, row) ∈ s.stored → row ∈ s.server.store.events ∧
    ∃ r p, s.server.calls[i]? = some (.inl r, p) ∧ Comes cfg r row
  handled : ∀ h ∈ s.handlings, h.producer ≠ .inbox ∧ shouldHandle h.event = true ∧
    (∃ row ∈ s.server.store.events, Decoded row h.event) ∧
    ∃ r p, s.server.calls[h.call]? = some (.inl r, p) ∧
      h.client.Sends (h.producer.body ids h.client h.event h.text) r

/-- A request stores an event of its own. -/
theorem comes_of_step {server server' : Serving} {i : ℕ} {now : Time}
    (hreach : Reachable (serving cfg) server) (hstep : (serving cfg).step server (.advance i now) server')
    (hrow : row ∈ server'.store.events.drop server.store.events.length) :
    ∃ r p, server'.calls[i]? = some (.inl r, p) ∧ Comes cfg r row := by
  obtain ⟨c, p, hi, -, rfl⟩ := hstep
  have hcall := (requests_of_reach hreach).2 _ (List.mem_of_getElem? hi)
  have hlt := (List.getElem?_eq_some_iff.mp hi).1
  have hnone : ∀ db : Db, db.events = server.store.events →
      row ∉ db.events.drop server.store.events.length := by
    intro db hsame
    rw [hsame, List.drop_length]
    exact List.not_mem_nil
  match c, p with
  | .inl r, .inr p => exact hcall.elim
  | .inr r, .inl p => exact hcall.elim
  | .inr r, .inr p => exact absurd hrow (hnone _ (ackStep_later cfg r now server.store p).2)
  | .inl r, .inl p =>
    refine ⟨r, _, List.getElem?_set_self hlt, ?_⟩
    rcases (eventStep_later cfg r now server.store p).2 with hevents | ⟨a, _, rfl, -⟩
    · exact absurd hrow (hnone _ hevents)
    · rcases (sqliteStep_later cfg.env a now server.store .start).2 with hevents | ⟨new, -, hc⟩
      · exact absurd hrow (hnone _ hevents)
      · have hrow' : row ∈ (sqliteStep cfg.env a now server.store .start).1.events.drop
            server.store.events.length := hrow
        rw [hc.events, List.drop_left] at hrow'
        rw [List.mem_singleton.mp hrow']
        exact comes_of_committed hcall.1 hc

theorem Traced.step {act : BusAct} (h : Traced cfg ids s) (hstep : (bus cfg ids).step s act s') :
    Traced cfg ids s' := by
  have hcalls : ∀ {a : Callers.Action Db Asked Time} {server : Serving},
      (serving cfg).step s.server a server → ∀ (i : ℕ) (r : Asked) p,
        s.server.calls[i]? = some (r, p) → ∃ p', server.calls[i]? = some (r, p') :=
    fun hserver i r p hi => asked_of_step hserver hi
  have hstored : ∀ {a : Callers.Action Db Asked Time} {server : Serving},
      (serving cfg).step s.server a server → ∀ i row, (i, row) ∈ s.stored →
        row ∈ server.store.events ∧ ∃ r p, server.calls[i]? = some (.inl r, p) ∧ Comes cfg r row := by
    intro a server hserver i row hmem
    obtain ⟨hrow, r, p, hi, hcomes⟩ := h.stored i row hmem
    obtain ⟨p', hi'⟩ := hcalls hserver i _ p hi
    exact ⟨(serving_since hserver).later.events.subset hrow, r, p', hi', hcomes⟩
  have hhandled : ∀ {a : Callers.Action Db Asked Time} {server : Serving},
      (serving cfg).step s.server a server → ∀ x ∈ s.handlings, x.producer ≠ .inbox ∧
        shouldHandle x.event = true ∧ (∃ row ∈ server.store.events, Decoded row x.event) ∧
        ∃ r p, server.calls[x.call]? = some (.inl r, p) ∧
          x.client.Sends (x.producer.body ids x.client x.event x.text) r := by
    intro a server hserver x hx
    obtain ⟨hp, hhandle, ⟨row, hrow, hdecoded⟩, r, p, hi, hsends⟩ := h.handled x hx
    obtain ⟨p', hi'⟩ := hcalls hserver _ _ p hi
    exact ⟨hp, hhandle, ⟨row, (serving_since hserver).later.events.subset hrow, hdecoded⟩, r, p', hi',
      hsends⟩
  cases act with
  | serve a =>
    obtain ⟨server, hserver, rfl⟩ := hstep
    refine ⟨.step h.server trivial hserver, fun i row hmem => ?_, hhandled hserver⟩
    rcases List.mem_append.mp hmem with hold | hnew
    · exact hstored hserver i row hold
    · cases a with
      | advance j now =>
        obtain ⟨new, hmem', heq⟩ := List.mem_map.mp hnew
        cases heq
        exact ⟨List.mem_of_mem_drop hmem', comes_of_step h.server hserver hmem'⟩
      | call b => cases hnew
      | other db => cases hnew
  | handle client producer event text r =>
    obtain ⟨hp, ⟨row, hrow, hdecoded, -⟩, hhandle, hsends, server, hserver, rfl⟩ := hstep
    refine ⟨.step h.server trivial hserver, hstored hserver, fun x hx => ?_⟩
    rcases List.mem_append.mp hx with hold | hnew
    · exact hhandled hserver x hold
    · rw [List.mem_singleton.mp hnew]
      refine ⟨hp, hhandle, ⟨row, (serving_since hserver).later.events.subset hrow, hdecoded⟩, r,
        (handlers cfg).start (.inl r), ?_, hsends⟩
      cases hserver
      exact List.getElem?_concat_length

theorem traced_of_reach (h : Reachable (bus cfg ids) s) : Traced cfg ids s := by
  refine Reach.invariant (P := Traced cfg ids) (fun s hs => ?_) (fun s act s' hs _ hstep =>
    hs.step hstep) h
  obtain ⟨hserver, hhandlings, hstored⟩ := hs
  refine ⟨.init hserver, fun i row hmem => ?_, fun x hx => ?_⟩
  · rw [hstored] at hmem
    cases hmem
  · rw [hhandlings] at hx
    cases hx

/-! ## Answers that cross to another family -/

/-- The envelope of an answer, from the outbox of the server that queued it to a row of the one that
it was sent to. -/
structure Carried (fed fed' : Runtime) (ids : NameIds) (client : Client) (p : Producer)
    (event : Event) (text : Str) (row : EventRow) : Prop where
  arrives : ∃ db r family newId now raw, Queued fed db client.agent event.source
    (p.body ids client event text) family newId now r ∧
      eventBytes (r.fields fed now) (r.sig fed now) = some raw ∧
        ∃ envr db' limits env params now' db'' inb, parseEvent raw = .ok env ∧
          admitInbound fed' db' limits env = .ok params ∧
            receiveEvent envr db' params now' = .ok (db'', .stored inb) ∧
              row ∈ db''.events ∧ row ∉ db'.events

/-- The type of an event is the one that was signed. -/
theorem inboundParams_type (crypto : Crypto) (identity : Identity) (f : EventFields)
    (rec : PeerRecord) : (inboundParams (receivedEvent crypto identity f) rec).type = f.type := by
  have hevent : objMember (lit "event") (receivedEvent crypto identity f).signed = sortedEvent f := by
    unfold receivedEvent
    rw [sorted_signedEvent]
    rfl
  show (strMember (lit "type") (objMember (lit "event") _)).getD [] = f.type
  rw [hevent, strMember, (eventReads_sortedEvent f).type, Option.getD_some]

/-- A row that an inbound event is stored as has its type, and no `auto` flag. -/
theorem row_of_received {envr : Env} {p : InboundParams} {now : Time} {inb : InboundRow}
    (h : receiveEvent envr db p now = .ok (db', .stored inb)) (hrow : row ∈ db'.events)
    (hnew : row ∉ db.events) :
    row.type = p.type ∧ (getNone (lit "auto") row.payload).truthy = false := by
  rcases receiveEvent_cases h with ⟨-, hs⟩ | ⟨_, hres, -⟩ | ⟨_, _, hres, -⟩
  · obtain ⟨seq, hevents⟩ := hs.event
    rw [hevents] at hrow
    rw [List.mem_singleton.mp ((List.mem_append.mp hrow).resolve_left hnew)]
    refine ⟨rfl, ?_⟩
    show (getNone (lit "auto") (localPayload p)).truthy = false
    unfold localPayload
    split <;> rfl
  · cases hres
  · cases hres

/-- An answer that was carried to another family is a reply without the flag. -/
theorem Carried.manual {fed fed' : Runtime} {p : Producer} {text : Str}
    (h : Carried fed fed' ids client p event text row) :
    row.type = lit "reply" ∧ (getNone (lit "auto") row.payload).truthy = false := by
  obtain ⟨db, r, family, newId, now, raw, hqueued, hraw, envr, db', limits, env, params, now', db'',
    inb, hparse, hadmit, hreceive, hrow, hnew⟩ := h.arrives
  obtain ⟨htype, hauto⟩ := row_of_received hreceive hrow hnew
  obtain ⟨-, rfl⟩ := (parseEvent_composed hqueued.valid hraw).mp hparse
  obtain ⟨rec, -, hparams⟩ := admitInbound_params hadmit
  refine ⟨?_, hauto⟩
  rw [htype, hparams, inboundParams_type]
  have hbody := (checkSend_ok hqueued.checks).type
  rw [p.body_eq] at hbody
  exact hbody.symm

/-! ## The law -/

/-- One and the same answer: of a handler that names its reply after the event only, or of the same
outcome of OpenClaw. -/
def SameAnswer (p p' : Producer) : Prop := p.Plain ∧ p'.Plain ∨ p = p'

/-- No adapter handles an answer of an adapter of its server: what an adapter answers is none, and is
answered once. One that is carried to another family is handled there. -/
structure LoopFree (ids : NameIds) (s : Bus) : Prop where
  unhandled : ∀ h row, s.Answers h row → ∀ event, Decoded row event → shouldHandle event = false
  first : ∀ h ∈ s.handlings, ∀ h' row, s.Answers h' row → h.event.eventId ≠ row.eventId
  once : ∀ h row h' row', s.Answers h row → s.Answers h' row' → h.client.agent = h'.client.agent →
    h.event.eventId = h'.event.eventId → SameAnswer h.producer h'.producer → row = row'
  abroad : ∀ fed fed' client p event text row event',
    Carried fed fed' ids client p event text row → Decoded row event' → shouldHandle event' = true

theorem Traced.answer (h : Traced cfg ids s) {x : Handling} (hx : s.Answers x row) :
    row ∈ s.server.store.events ∧ row.type = lit "reply" ∧
      row.payload = x.producer.payload x.event x.text ∧
        row.eventId = x.producer.replyId ids x.client x.event := by
  obtain ⟨hmem, hstored⟩ := hx
  obtain ⟨hrow, r, p, hi, hcomes⟩ := h.stored _ _ hstored
  obtain ⟨-, -, -, r', p', hi', hsends⟩ := h.handled x hmem
  cases hi.symm.trans hi'
  exact ⟨hrow, hcomes.answer hsends⟩

theorem Traced.unhandled (h : Traced cfg ids s) {x : Handling} (hx : s.Answers x row)
    (hdecoded : Decoded row event) : shouldHandle event = false := by
  obtain ⟨-, htype, hpayload, -⟩ := h.answer hx
  obtain ⟨htype', hpayload'⟩ := decoded_payload hdecoded
  have hauto : getNone (lit "auto") (x.producer.payload x.event x.text) = .bool true :=
    Producer.payload_auto (h.handled x hx.1).1
  unfold shouldHandle
  rw [hpayload', hpayload, hauto, htype', htype]
  decide

/-- Answers to one event have one id. -/
theorem SameAnswer.replyId {p p' : Producer} {client' : Client} {event' : Event}
    (h : SameAnswer p p') (hagent : client.agent = client'.agent)
    (hevent : event.eventId = event'.eventId) :
    p.replyId ids client event = p'.replyId ids client' event' := by
  have hname : replyName client event = replyName client' event' := by
    unfold replyName
    rw [hagent, hevent]
  have hplain : ∀ (q : Producer) (c : Client) (e : Event), q.Plain →
      q.replyId ids c e = ids.uuid5 (replyName c e) := by
    intro q c e hq
    cases q with
    | openclaw status attempt => exact hq.elim
    | _ => rfl
  rcases h with ⟨hp, hp'⟩ | rfl
  · rw [hplain p _ _ hp, hplain p' _ _ hp', hname]
  · cases p with
    | openclaw status attempt =>
      show ids.uuid5 (replyName client event ++ _ ++ _ ++ _ ++ _) = _
      rw [hname]
      rfl
    | _ => exact congrArg ids.uuid5 hname

def bobsRuntime : Runtime where
  crypto := plainCrypto
  identity := bobsFamily
  registry := ⟨[{ peerB with family := lit "org-a", keyId := lit "oa-1" }], by decide⟩
  outboxCap := 1000
  uuid5 := id

/-- Bob is a member. -/
def bobMember : Db :=
  { peers := [⟨lit "bob", none, none, none, none, [], 0, noon, none⟩] }

/-- What Alice's chat service answers to Bob. -/
def alicesAnswer : SendRequest :=
  replyRequest constantIds aliceClient bobsMessage (lit "org-b") (lit "hi") .chatHttp

/-- The answer as it arrives. -/
def alicesMail : EventRow :=
  localRow bobMember (inboundParams (receivedEvent plainCrypto orgA (alicesAnswer.fields fedA noon))
    { peerB with family := lit "org-a", keyId := lit "oa-1" }) 1 noon

theorem alicesAnswer_valid : (alicesAnswer.fields fedA noon).Valid := by
  obtain ⟨hid, sender, hsource⟩ := bobsMail_fromAbroad.grammar
  exact valid_reply _ _ _ hid hsource (by decide) (by decide) (by decide) (by decide)

theorem alicesMail_carried : Carried fedA bobsRuntime constantIds aliceClient .chatHttp bobsMessage
    (lit "hi") alicesMail := by
  have hqueued : Queued fedA {} aliceClient.agent bobsMessage.source
      (Producer.chatHttp.body constantIds aliceClient bobsMessage (lit "hi")) (lit "org-b") [] noon
      alicesAnswer := ⟨rfl, alicesAnswer_valid, rfl, by decide⟩
  obtain ⟨raw, hraw, hlength⟩ := length_eventBytes plainCrypto orgA alicesAnswer_valid
  have hsize : eventSize (alicesAnswer.fields fedA noon) ≤ requestBodyLimit := by decide
  have hparse := (parseEvent_composed alicesAnswer_valid hraw).mpr ⟨hlength ▸ hsize, rfl⟩
  refine ⟨{}, alicesAnswer, lit "org-b", [], noon, raw, hqueued, hraw, plainEnv, bobMember,
    ⟨true, true⟩, _, _, noon, _, _, hparse, rfl, rfl, ?_, List.not_mem_nil⟩
  exact List.mem_append_right _ (List.mem_singleton_self _)

/-- One step of a request. -/
def Bus.advance (cfg : ServerConfig) (s : Bus) (i : ℕ) : Option Bus :=
  ((handlers cfg).advance noon s.server i).map fun server =>
    ⟨server, s.handlings, s.stored ++ added s.server.store server.store (.advance i noon)⟩

theorem reach_busAdvance (schedule : List ℕ) (h : Reachable (bus cfg ids) s)
    (hrun : schedule.foldlM (Bus.advance cfg) s = some s') : Reachable (bus cfg ids) s' := by
  induction schedule generalizing s with
  | nil =>
    cases hrun
    exact h
  | cons i schedule ih =>
    rw [List.foldlM_cons] at hrun
    obtain ⟨mid, hmid, hrest⟩ := Option.bind_eq_some_iff.mp hrun
    obtain ⟨server, hserver, rfl⟩ := Option.map_eq_some_iff.mp hmid
    exact ih (.step (a := .serve (.advance i noon)) h trivial
      ⟨server, step_of_advance hserver, rfl⟩) hrest

/-- Bob's chat service has the question of Alice, -/
def bobAsked : Bus where
  server := { asksBob with calls := [(bobsReply, (handlers oneSlot).start bobsReply)] }
  handlings := [⟨bob, .chatHttp, question, lit "hi", 0⟩]
  stored := []

/-- and answers it. -/
def bobAnswered : Bus := ((List.replicate 5 0).foldlM (Bus.advance oneSlot) bobAsked).getD bobAsked

theorem reach_bobAnswered : Reachable (bus oneSlot constantIds) bobAnswered := by
  have hinit : Reachable (bus oneSlot constantIds) ⟨asksBob, [], []⟩ :=
    .init ⟨⟨⟨List.pairwise_singleton .., by decide, by decide⟩, rfl⟩, rfl, rfl⟩
  have hasked : Reachable (bus oneSlot constantIds) bobAsked := by
    refine .step (a := .handle bob .chatHttp question (lit "hi")
      ⟨chatHttpReply constantIds bob question (lit "hi"), [], noon, []⟩) hinit trivial
      ⟨nofun, ⟨questionRow, List.mem_singleton_self _, rfl, by decide⟩, by decide, ⟨rfl, rfl⟩, _, rfl,
        rfl⟩
  have hsome : ((List.replicate 5 0).foldlM (Bus.advance oneSlot) bobAsked).isSome = true := by
    decide +kernel
  obtain ⟨s, hs⟩ := Option.isSome_iff_exists.mp hsome
  unfold bobAnswered
  rw [hs, Option.getD_some]
  exact reach_busAdvance _ hasked hs

end Adapter
end ATalk
