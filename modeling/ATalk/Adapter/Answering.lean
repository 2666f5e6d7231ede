import ATalk.Adapter.Kept
import ATalk.Adapter.Replies

/-!
# Handlers that answer

`chat_http_handler`, `http_agent_handler` and `tmux_handler`: they ask an agent for the answer to an
event, and send it as a reply under an id that is derived from the event. The agent may be asked
again, and answer differently.

* `shouldHandle` : `_should_handle`;
* `answering` : the handler;
* `answering_contract` : what it owes its events it delivers.
-/

namespace ATalk
namespace Adapter

open Text Python Sqlite ATalk.Core Federation Checks Transition Callers Server Backends

/-- `_should_handle` -/
def shouldHandle (event : Event) : Bool :=
  event.type = lit "message" || event.type = lit "prompt" ||
    event.type = lit "reply" && !(getNone (lit "auto") event.payload).truthy

/-! ## The handlers -/

/-- The handlers that answer, with what their errors name. -/
inductive Answerer where
  | chatHttp
  | httpAgent (responseField : Str)
  | tmux (responseTimeout : Str)

namespace Answerer

def producer : Answerer → Producer
  | chatHttp => .chatHttp
  | httpAgent _ => .httpAgent
  | tmux _ => .tmux

/-- The error for an event without a text. -/
def needsText : Answerer → Str
  | chatHttp => lit "chat message payload requires non-empty text"
  | httpAgent _ => lit "HTTP agent payload requires non-empty text"
  | tmux _ => lit "tmux message payload requires non-empty text"

/-- The error for an empty answer. -/
def emptyReply : Answerer → Str
  | chatHttp => lit "chat service returned an empty reply"
  | httpAgent responseField => lit "HTTP agent returned empty " ++ responseField
  | tmux responseTimeout =>
    lit "tmux agent returned no marked reply within " ++ responseTimeout ++ lit "s"

end Answerer

/-- `str(event.get("payload", {}).get("text", "")).strip()` -/
def eventText (str : Val → Str) (event : Event) : Str :=
  strip (str (getDefault (lit "text") event.payload (.str [])))

/-- Where a handler is: called, waiting for its agent, with its answer, in `client.send`, or at its
end. -/
inductive Answering where
  | called (event : Event)
  | asking (event : Event)
  | answered (event : Event) (answer : Str)
  | sending (event : Event) (reply : Str) (i : ℕ)
  | ended (event : Event) (result : Option (List Str))

/-- The requests of `send(..)` with a body. -/
def Client.Sends (client : Client) (body : Dict) (r : Request) : Prop :=
  r.body = body ∧ r.bearer = client.token

section
variable (cfg : ServerConfig) (client : Client) (ids : NameIds) (str : Val → Str) (a : Answerer)

inductive AnswerStep (s : Serving) : Answering → Option Asked → Answering → Prop
  | skip {event : Event} : shouldHandle event = false →
      AnswerStep s (.called event) none (.ended event (some []))
  | ask {event : Event} : shouldHandle event = true → eventText str event ≠ [] →
      AnswerStep s (.called event) none (.asking event)
  | answer {event : Event} {answer : Str} : AnswerStep s (.asking event) none (.answered event answer)
  | send {event : Event} {answer : Str} {r : Request} : strip answer ≠ [] →
      client.Sends (a.producer.body ids client event (strip answer)) r →
      AnswerStep s (.answered event answer) (some (.inl r))
        (.sending event (strip answer) s.calls.length)
  | sendAgain {event : Event} {reply : Str} {i : ℕ} {r : Request} :
      client.Sends (a.producer.body ids client event reply) r →
      AnswerStep s (.sending event reply i) (some (.inl r)) (.sending event reply s.calls.length)
  | sent {event : Event} {reply : Str} {i : ℕ} {answer' : Reply} :
      answer cfg s i = some answer' → answer'.status < 300 →
      AnswerStep s (.sending event reply i) none (.ended event none)

/-- The exceptions: of its own, of the agent, of the client. -/
inductive AnswerRaise : Answering → Str → Prop
  | text {event : Event} : shouldHandle event = true → eventText str event = [] →
      AnswerRaise (.called event) a.needsText
  | agent {event : Event} {message : Str} : AnswerRaise (.asking event) message
  | reply {event : Event} {answer : Str} : strip answer = [] →
      AnswerRaise (.answered event answer) a.emptyReply
  | client {event : Event} {reply message : Str} {i : ℕ} :
      AnswerRaise (.sending event reply i) message

/-- The handler, which keeps nothing on disk, and has no tasks. -/
def answering : Handler Unit Answering where
  deliver := .called
  retry := .called
  due _ _ := False
  step s _ h _ r h' := AnswerStep cfg client ids str a s h r h'
  returns
    | .ended _ result => some result
    | _ => none
  raises := AnswerRaise str a

def chatHttpHandler : Handler Unit Answering := answering cfg client ids str .chatHttp

def httpAgentHandler (responseField : Str) : Handler Unit Answering :=
  answering cfg client ids str (.httpAgent responseField)

def tmuxHandler (responseTimeout : Str) : Handler Unit Answering :=
  answering cfg client ids str (.tmux responseTimeout)

end

/-! ## The reply -/

/-- The id of the reply to an event. -/
def replyId (ids : NameIds) (client : Client) (event : Event) : Str :=
  ids.uuid5 (replyName client event)

/-- The event has its reply. -/
def Replied (ids : NameIds) (client : Client) (db : Db) (event : Event) : Prop :=
  ∃ reply ∈ db.events, reply.eventId = replyId ids client event ∧ reply.source = client.agent ∧
    reply.target = event.source ∧ reply.type = lit "reply"

variable {cfg : ServerConfig} {client : Client} {ids : NameIds} {str : Val → Str} {a : Answerer}
  {db db' : Db} {event : Event} {reply : Str} {r : Request} {b : EventArgs}

theorem Answerer.body_eq (a : Answerer) : a.producer.body ids client event reply =
    replyBody client event (autoPayload event reply) (replyId ids client event) := by
  cases a <;> rfl

theorem Replied.later (h : Replied ids client db event) (hlater : Later db db') :
    Replied ids client db' event := by
  obtain ⟨row, hrow, h⟩ := h
  exact ⟨row, hlater.events.subset hrow, h⟩

/-- What the server makes of the body of a reply. -/
theorem checkBody_reply {payload : Dict} {eventId : Str} (h : checkBody r = .ok b)
    (hbody : r.body = replyBody client event payload eventId) :
    b.source = client.agent ∧ b.target = event.source ∧ b.type = lit "reply" ∧
      b.payload = payload ∧ b.eventId = .str eventId := by
  have hstring : ∀ (field : String) (s t : Str), getNone (lit field) r.body = .str s →
      requireString r.body field = .ok t → t = s := by
    intro field s t hfield ht
    unfold requireString at ht
    rw [hfield] at ht
    cases s with
    | nil => cases ht
    | cons c s => exact (Except.ok.inj ht).symm
  simp only [checkBody, bind_eq_ok, pure_eq_ok] at h
  obtain ⟨source, hsource, target, htarget, type, htype, p, hpayload, rfl⟩ := h
  refine ⟨?_, ?_, ?_, ?_, ?_⟩
  · refine hstring "source" client.agent source ?_ hsource
    rw [hbody]
    rfl
  · refine hstring "target" event.source target ?_ htarget
    rw [hbody]
    rfl
  · rw [hbody] at htype
    exact (Except.ok.inj htype).symm
  · rw [hbody] at hpayload
    exact (Except.ok.inj hpayload).symm
  · show getNone (lit "event_id") r.body = _
    rw [hbody]
    rfl

/-- An event is stored under the id that its request names. -/
theorem key_of_id {id : Str} (hne : id ≠ []) (hid : b.eventId = .str id) {eventId : Str}
    (hkey : sqliteKey cfg.env b eventId) : eventId = id := by
  have htruthy : b.eventId.truthy = true := by
    rw [hid]
    exact decide_eq_true hne
  unfold sqliteKey EventArgs.key at hkey
  rw [if_pos htruthy, hid] at hkey
  exact textParam_str_eq hkey

theorem replyId_key (hid : b.eventId = .str (replyId ids client event)) {eventId : Str}
    (hkey : sqliteKey cfg.env b eventId) : eventId = replyId ids client event :=
  key_of_id (uuidRe_ne_nil (ids.form _)) hid hkey

/-- A reply that was stored. -/
theorem replied_of_stored {payload : Dict} (h : checkBody r = .ok b)
    (hbody : r.body = replyBody client event payload (replyId ids client event))
    (hstored : StoredAs cfg.env db b) : Replied ids client db event := by
  obtain ⟨hsource, htarget, htype, -, hid⟩ := checkBody_reply h hbody
  obtain ⟨row, hrow, hkey, hsame⟩ := hstored
  simp only [Same, Prod.mk.injEq] at hsame
  refine ⟨row, hrow, replyId_key hid hkey, ?_, ?_, ?_⟩
  · rw [hsame.1, hsource]
  · rw [hsame.2.1, htarget]
  · rw [hsame.2.2, htype]

/-! ## The contract -/

/-- An event that is done: it was acknowledged as applied, or is none to handle. -/
def Answered (client : Client) (db : Db) (_ : Unit) (row : EventRow) : Prop :=
  hasAck db row.eventId client.agent .applied = true ∨
    ∃ event, Decoded row event ∧ shouldHandle event = false

/-- The event that the handler was called for. -/
def Answering.about : Answering → Event
  | .called event | .asking event | .answered event _ | .sending event _ _ | .ended event _ => event

/-- What a handler has come to. -/
def Answering.Fits (cfg : ServerConfig) (client : Client) (ids : NameIds) (s : Serving) :
    Answering → Prop
  | .called _ => True
  | .asking event | .answered event _ => shouldHandle event = true
  | .sending event reply i => shouldHandle event = true ∧ ∃ r p,
      s.calls[i]? = some (.inl r, p) ∧
        r.body = replyBody client event (autoPayload event reply) (replyId ids client event)
  | .ended event none => shouldHandle event = true ∧
      (route cfg event.source = none → Replied ids client s.store event)
  | .ended event (some eventIds) => shouldHandle event = false ∧ eventIds = []

/-- The handler is called for its event. -/
def AnswerInv (cfg : ServerConfig) (client : Client) (ids : NameIds) (s : Serving) (_ : Unit)
    (c : Cause) (h : Answering) : Prop :=
  h.Fits cfg client ids s ∧ ∀ event rest, c = .delivery event rest → h.about = event

theorem Answering.Fits.onto {s s' : Serving} {h : Answering} (hfits : h.Fits cfg client ids s)
    (hlater : Later s.store s'.store)
    (hcalls : ∀ (i : ℕ) (c : Asked) p, s.calls[i]? = some (c, p) →
      ∃ p', s'.calls[i]? = some (c, p')) : h.Fits cfg client ids s' := by
  cases h with
  | called event => trivial
  | asking event => exact hfits
  | answered event answer => exact hfits
  | sending event reply i =>
    obtain ⟨hhandle, r, p, hi, hbody⟩ := hfits
    obtain ⟨p', hi'⟩ := hcalls i _ p hi
    exact ⟨hhandle, r, p', hi', hbody⟩
  | ended event result =>
    cases result with
    | none => exact ⟨hfits.1, fun hroute => (hfits.2 hroute).later hlater⟩
    | some eventIds => exact hfits

/-- One step of the handler. -/
theorem answerStep_fits {s : Serving} {h h' : Answering} {asked : Option Asked}
    (hreach : Reachable (serving cfg) s) (hfits : h.Fits cfg client ids s)
    (hstep : AnswerStep cfg client ids str a s h asked h') {s' : Serving}
    (hstore : s'.store = s.store)
    (hcalls : s'.calls = s.calls ++ (asked.map fun r => (r, (handlers cfg).start r)).toList) :
    h'.Fits cfg client ids s' ∧ h'.about = h.about := by
  have hlast : ∀ r : Asked, asked = some r →
      s'.calls[s.calls.length]? = some (r, (handlers cfg).start r) := by
    rintro r rfl
    rw [hcalls]
    exact List.getElem?_concat_length
  cases hstep with
  | skip hskip => exact ⟨⟨hskip, rfl⟩, rfl⟩
  | ask hhandle htext => exact ⟨hhandle, rfl⟩
  | answer => exact ⟨hfits, rfl⟩
  | send hanswer hsends => exact ⟨⟨hfits, _, _, hlast _ rfl, hsends.1.trans a.body_eq⟩, rfl⟩
  | sendAgain hsends => exact ⟨⟨hfits.1, _, _, hlast _ rfl, hsends.1.trans a.body_eq⟩, rfl⟩
  | @sent event reply i answer' hanswer hok =>
    obtain ⟨hhandle, r, p, hi, hbody⟩ := hfits
    refine ⟨⟨hhandle, fun hroute => ?_⟩, rfl⟩
    obtain ⟨b, hb⟩ := checked_of_answer hreach hi hanswer hok
    obtain ⟨-, htarget, -⟩ := checkBody_reply hb hbody
    have hstored : StoredAs cfg.env s.store b := by
      refine stored_of_answer (requests_of_reach hreach).2 hi ⟨b, hb, rfl⟩ ?_ hanswer hok
      rw [htarget]
      exact hroute
    rw [hstore]
    exact replied_of_stored hb hbody hstored

/-- An answering handler keeps its contract. -/
theorem answering_contract (cfg : ServerConfig) (client : Client) (ids : NameIds)
    (str : Val → Str) (a : Answerer) : Contract cfg client (answering cfg client ids str a)
      (Answered client) (fun _ => []) (AnswerInv cfg client ids) where
  later db db' disk row hsince hdone := hdone.imp_left (hsince.later.acks _ _ _)
  acked db disk row hack := .inl hack
  serve s s' act disk c h hstep hinv :=
    ⟨hinv.1.onto (serving_since hstep).later fun i _ _ hi => asked_of_step hstep hi, hinv.2⟩
  deliver s disk event rest := ⟨trivial, fun event' rest' heq => by cases heq; rfl⟩
  retry s disk event todo := ⟨trivial, nofun⟩
  step s disk c h disk' r h' hreach hinv hstep := by
    refine ⟨fun s' hstore hcalls => ?_, fun row hdone => hdone⟩
    obtain ⟨hfits, hevent⟩ := answerStep_fits hreach hinv.1 hstep hstore hcalls
    exact ⟨hfits, fun event rest heq => hevent.trans (hinv.2 event rest heq)⟩
  returns s disk c h result hinv hreturns := by
    refine ⟨nofun, ?_⟩
    rintro event rest rfl row hdecoded
    have hevent := hinv.2 event rest rfl
    cases h with
    | ended event' result' =>
      cases hreturns
      cases hevent
      cases result with
      | none => exact .inr (List.mem_singleton_self _)
      | some eventIds =>
        exact .inl (.inr ⟨event', hdecoded, hinv.1.1⟩)
    | _ => cases hreturns

end Adapter
end ATalk
