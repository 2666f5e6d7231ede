import ATalk.Adapter.Answering
import ATalk.Adapter.CrashSafe

/-!
# Every event is answered once

The runs of an adapter whose handler answers, with crashes, exceptions and restarts at any step. The
agent speaks through its adapter only; the others may ask the server for anything else.

* `Foreign` : what the others may do;
* `answerers` : the runs, from a ledger where the agent has not spoken yet;
* `Truthful` : their invariant, `Truthful.step` : every step keeps it;
* `answered_once` : nothing up to the cursor is left open, an event is applied when its reply is
  stored, and it has one reply at most.
-/

namespace ATalk
namespace Adapter

open Text Python Sqlite ATalk.Core Federation Checks Transition Callers Server Backends

/-! ## The others -/

/-- A reply of an agent. -/
def IsReply (agent : Str) (row : EventRow) : Prop :=
  row.source = agent ∧ row.type = lit "reply"

/-- The agent has not spoken: it has sent no reply, and has applied no event. -/
structure Silent (agent : Str) (db : Db) : Prop where
  replies : ∀ row ∈ db.events, ¬ IsReply agent row
  acks : ∀ eventId, hasAck db eventId agent .applied = false

/-- A request of another: it sends no reply in the name of the agent, and applies no event for it. -/
def Other (cfg : ServerConfig) (client : Client) : Asked → Prop
  | .inl r => ∀ b, checkBody r = .ok b → b.source = client.agent → b.type ≠ lit "reply"
  | .inr r => ∀ eventId, ¬ Names cfg.env r.body eventId client.agent .applied

/-- The agent speaks through its adapter only. -/
def Foreign (cfg : ServerConfig) (client : Client) (s : RunState Unit Answering) : RunAct → Prop
  | .server (.call r) => Other cfg client r
  | .server (.other db) => ∀ row ∈ db.events, IsReply client.agent row → row ∈ s.server.store.events
  | _ => True

/-- The adapter of an agent that has not spoken yet. -/
def answerers (cfg : ServerConfig) (client : Client) (ids : NameIds) (str : Val → Str)
    (a : Answerer) : System (RunState Unit Answering) RunAct where
  init s := (adapters cfg client (answering cfg client ids str a) ()).init s ∧
    Silent client.agent s.server.store
  step := (adapters cfg client (answering cfg client ids str a) ()).step

/-! ## The invariant -/

section
variable (cfg : ServerConfig) (client : Client) (ids : NameIds)

/-- The reply of the adapter to some event, under the id that is derived from it. -/
def Automatic (eventId : Str) (payload : Dict) : Prop :=
  ∃ event text, payload = autoPayload event text ∧ eventId = replyId ids client event

/-- The event was one to handle, and has its reply. -/
def Accounted (db : Db) (eventId : Str) : Prop :=
  ∃ row ∈ db.events, row.eventId = eventId ∧ ∃ event, Decoded row event ∧
    shouldHandle event = true ∧ (route cfg event.source = none → Replied ids client db event)

/-- What a request in the name of the agent may ask for. -/
def Owed (db : Db) : Asked → Prop
  | .inl r => ∀ b, checkBody r = .ok b → b.source = client.agent → b.type = lit "reply" →
      ∃ event text, b.payload = autoPayload event text ∧ b.eventId = .str (replyId ids client event)
  | .inr r => ∀ eventId, Names cfg.env r.body eventId client.agent .applied →
      Accounted cfg client ids db eventId

/-- The ids that are applied are the one of the event that was delivered. -/
def Cause.Applies (db : Db) (eventIds : List Str) : Cause → Prop
  | .delivery event _ => ∀ eventId ∈ eventIds, eventId = event.eventId ∧
      Accounted cfg client ids db eventId
  | .retry _ => False

def Duty.Answers (db : Db) : Duty Answering → Prop
  | .handling c _ => c.Applies cfg client ids db []
  | .applying c eventIds => c.Applies cfg client ids db eventIds
  | .acking c eventId eventIds _ => c.Applies cfg client ids db (eventId :: eventIds)
  | .retrying _ => False
  | _ => True

structure Truthful (s : RunState Unit Answering) : Prop where
  steady : Steady cfg client (Answered client) (fun _ => []) (AnswerInv cfg client ids) s
  rows : ∀ row ∈ s.server.store.events, IsReply client.agent row →
    Automatic client ids row.eventId row.payload
  acks : ∀ eventId, hasAck s.server.store eventId client.agent .applied = true →
    Accounted cfg client ids s.server.store eventId
  calls : ∀ c ∈ s.server.calls, Owed cfg client ids s.server.store c.1
  duty : ∀ w, s.worker = some w → w.duty.Answers cfg client ids s.server.store

end

section
variable {cfg : ServerConfig} {client : Client} {ids : NameIds} {str : Val → Str} {a : Answerer}
  {s s' : RunState Unit Answering} {w : Worker Answering} {db db' : Db} {event : Event}
  {row : EventRow} {eventId : Str} {eventIds : List Str} {c : Cause} {asked : Asked}

theorem Accounted.later (h : Accounted cfg client ids db eventId) (hlater : Later db db') :
    Accounted cfg client ids db' eventId := by
  obtain ⟨row, hrow, hid, event, hdecoded, hhandle, hreplied⟩ := h
  exact ⟨row, hlater.events.subset hrow, hid, event, hdecoded, hhandle,
    fun hroute => (hreplied hroute).later hlater⟩

theorem Owed.later (h : Owed cfg client ids db asked) (hlater : Later db db') :
    Owed cfg client ids db' asked := by
  cases asked with
  | inl r => exact h
  | inr r => exact fun eventId hnames => (h eventId hnames).later hlater

theorem Other.owed (h : Other cfg client asked) : Owed cfg client ids db asked := by
  cases asked with
  | inl r => exact fun b hb hsource htype => absurd htype (h b hb hsource)
  | inr r => exact fun eventId hnames => absurd hnames (h eventId)

theorem Cause.Applies.later (h : c.Applies cfg client ids db eventIds) (hlater : Later db db') :
    c.Applies cfg client ids db' eventIds := by
  cases c with
  | delivery event rest =>
    exact fun eventId hid => ⟨(h eventId hid).1, (h eventId hid).2.later hlater⟩
  | retry todo => exact h

theorem Cause.Applies.subset {eventIds' : List Str} (h : c.Applies cfg client ids db eventIds)
    (hsub : eventIds' ⊆ eventIds) : c.Applies cfg client ids db eventIds' := by
  cases c with
  | delivery event rest => exact fun eventId hid => h eventId (hsub hid)
  | retry todo => exact h

theorem Duty.Answers.later {duty : Duty Answering} (h : duty.Answers cfg client ids db)
    (hlater : Later db db') : duty.Answers cfg client ids db' := by
  cases duty with
  | handling c x => exact Cause.Applies.later h hlater
  | applying c eventIds => exact Cause.Applies.later h hlater
  | acking c eventId eventIds i => exact Cause.Applies.later h hlater
  | _ => exact h

/-! ## Nothing is dropped -/

/-- The event that is delivered is behind the cursor. -/
theorem Truthful.ahead {event : Event} {rest : List Event} (h : Truthful cfg client ids s)
    (hpage : OnPage client.agent s.pages s.server.store.events s.loaded (event :: rest))
    (hrow : row ∈ s.server.store.events) (hid : row.eventId = event.eventId) :
    s.loaded < rowKey row := by
  obtain ⟨next, hnext, hdecoded, -, hlt, -⟩ := hpage.next
  have hunique := (schema_of_reach h.steady.server).unique
  have hsame : row = next :=
    List.inj_on_of_nodup_map hunique hrow hnext (hid.trans (decoded_names hdecoded).1)
  rw [hsame]
  exact hlt

/-- No event up to the cursor waits to be applied. -/
theorem Truthful.not_outstanding (h : Truthful cfg client ids s)
    (hrow : row ∈ s.server.store.events) (hle : rowKey row ≤ s.loaded) :
    row.eventId ∉ s.outstanding fun _ => [] := by
  intro hid
  have hlost : ∀ (w : Worker Answering) (c : Cause) (eventIds : List Str), w.sinceId = s.loaded →
      c.OnPage client.agent s w.sinceId → c.Applies cfg client ids s.server.store eventIds →
      row.eventId ∉ eventIds := by
    intro w c eventIds hsince hpage happlies hmem
    cases c with
    | retry todo => exact happlies
    | delivery event rest =>
      have hpage' : OnPage client.agent s.pages s.server.store.events w.sinceId (event :: rest) :=
        hpage
      rw [hsince] at hpage'
      exact absurd hle (not_le.mpr (h.ahead hpage' hrow (happlies _ hmem).1))
  cases hw : s.worker with
  | none =>
    rw [RunState.outstanding, hw] at hid
    exact absurd hid List.not_mem_nil
  | some w =>
    rw [RunState.outstanding_of_worker hw] at hid
    have hduty := h.duty w hw
    cases hcase : w.duty with
    | applying c eventIds =>
      obtain ⟨hsince, hpage, -⟩ := h.steady.stands hw hcase
      rw [hcase] at hid hduty
      exact hlost w c eventIds hsince hpage hduty hid
    | acking c eventId eventIds i =>
      obtain ⟨hsince, hpage, -⟩ := h.steady.stands hw hcase
      rw [hcase] at hid hduty
      exact hlost w c (eventId :: eventIds) hsince hpage hduty hid
    | _ =>
      rw [hcase] at hid
      exact absurd hid List.not_mem_nil

theorem Truthful.spares (h : Truthful cfg client ids s) (act : RunAct) :
    Spares client (Answered client) (fun _ => []) s act := by
  cases act with
  | crash => exact fun row hrow _ hle hid => absurd hid (h.not_outstanding hrow hle)
  | raise => exact fun row hrow _ hle hid => absurd hid (h.not_outstanding hrow hle)
  | _ => trivial

/-! ## The server -/

/-- A request is an old one, or the one that is made now. -/
theorem asked_of_calls {server server' : Serving} {act : Callers.Action Db Asked Time}
    (h : (serving cfg).step server act server') {call : Asked × (EventPhase ⊕ AckPhase)}
    (hcall : call ∈ server'.calls) :
    (∃ p, (call.1, p) ∈ server.calls) ∨ act = .call call.1 := by
  cases act with
  | call b =>
    cases h
    rcases List.mem_append.mp hcall with hold | hnew
    · exact .inl ⟨call.2, hold⟩
    · rw [List.mem_singleton.mp hnew]
      exact .inr rfl
  | other db =>
    obtain ⟨-, rfl⟩ := h
    exact .inl ⟨call.2, hcall⟩
  | advance i now =>
    obtain ⟨b, p, hi, -, rfl⟩ := h
    rcases List.mem_or_eq_of_mem_set hcall with hold | hnew
    · exact .inl ⟨call.2, hold⟩
    · rw [hnew]
      exact .inl ⟨p, List.mem_of_getElem? hi⟩

/-- A reply of the agent that a request stored is one of its adapter. -/
theorem Owed.automatic {r : Request} {args : EventArgs} {now : Time}
    (h : Owed cfg client ids db (.inl r)) (hof : Of r args)
    (hc : Committed cfg.env (atTime args now) db row db') (hreply : IsReply client.agent row) :
    Automatic client ids row.eventId row.payload := by
  obtain ⟨b, hb, hargs⟩ := hof
  obtain ⟨hsource, htype⟩ := hreply
  rw [hc.columns] at hsource htype
  obtain ⟨event, text, hpayload, hid⟩ := h b hb
    ((congrArg EventArgs.source hargs).symm.trans hsource)
    ((congrArg EventArgs.type hargs).symm.trans htype)
  have hkey : sqliteKey cfg.env b row.eventId := by
    have hsame : args.key = b.key := by
      rw [hargs]
      rfl
    unfold sqliteKey
    rw [← hsame]
    exact hc.key
  refine ⟨event, text, ?_, replyId_key hid hkey⟩
  rw [hc.columns]
  exact (congrArg EventArgs.payload hargs).trans hpayload

/-- A step of the server. -/
theorem Truthful.serve {act : Callers.Action Db Asked Time} {server : Serving}
    (h : Truthful cfg client ids s) (hok : Foreign cfg client s (.server act))
    (hstep : (serving cfg).step s.server act server) :
    Truthful cfg client ids { s with server := server } := by
  have hlater := (serving_since hstep).later
  have hinv := (requests_of_reach h.steady.server).2
  refine ⟨h.steady.serve (answering_contract cfg client ids (fun _ => []) .chatHttp) hstep,
    fun row hrow hreply => ?_, fun eventId hack => ?_, fun call hcall => ?_, fun w hw => ?_⟩
  · rcases serving_events hinv hstep hrow with hold | ⟨call, hcall, r, args, heq, hof, now, hc⟩ |
      ⟨db, rfl⟩
    · exact h.rows row hold hreply
    · have howed := h.calls call hcall
      rw [heq] at howed
      exact howed.automatic hof hc hreply
    · obtain ⟨-, rfl⟩ := hstep
      exact h.rows row (hok row hrow hreply) hreply
  · rcases serving_acks hinv hstep hack with hold | ⟨call, hcall, r, heq, hnames⟩
    · exact (h.acks eventId hold).later hlater
    · have howed := h.calls call hcall
      rw [heq] at howed
      exact (howed eventId hnames).later hlater
  · rcases asked_of_calls hstep hcall with ⟨p, hold⟩ | rfl
    · exact (h.calls _ hold).later hlater
    · exact Other.owed hok
  · exact (h.duty w hw).later hlater

/-! ## The adapter -/

/-- The adapter goes on. -/
theorem Truthful.goOn {w : Worker Answering} (h : Truthful cfg client ids s)
    (hsteady : Steady cfg client (Answered client) (fun _ => []) (AnswerInv cfg client ids) s')
    (hserver : s'.server = s.server) (hworker : s'.worker = some w)
    (hduty : w.duty.Answers cfg client ids s.server.store) : Truthful cfg client ids s' := by
  refine ⟨hsteady, ?_, ?_, ?_, fun w' hw' => ?_⟩
  · rw [hserver]
    exact h.rows
  · rw [hserver]
    exact h.acks
  · rw [hserver]
    exact h.calls
  · cases hworker.symm.trans hw'
    rw [hserver]
    exact hduty

/-- The adapter makes a request. -/
theorem Truthful.askOn {duty : Duty Answering} (h : Truthful cfg client ids s)
    (hsteady : Steady cfg client (Answered client) (fun _ => []) (AnswerInv cfg client ids)
      ((s.ask cfg asked).goOn w duty))
    (howed : Owed cfg client ids s.server.store asked)
    (hduty : duty.Answers cfg client ids s.server.store) :
    Truthful cfg client ids ((s.ask cfg asked).goOn w duty) := by
  refine ⟨hsteady, h.rows, h.acks, fun call hcall => ?_, fun w' hw' => ?_⟩
  · rcases List.mem_append.mp hcall with hold | hnew
    · exact h.calls call hold
    · rw [List.mem_singleton.mp hnew]
      exact howed
  · cases hw'
    exact hduty

/-- An acknowledgement of the receipt applies nothing. -/
theorem owed_received {r : AckCall} {detail : Dict} (h : client.Acks eventId .received detail r) :
    Owed cfg client ids db (.inr r) := by
  intro eventId' hnames
  rw [h.1] at hnames
  exact absurd hnames.ofAckBody.2.2 nofun

theorem owed_applied {r : AckCall} {detail : Dict} (h : client.Acks eventId .applied detail r)
    (haccounted : Accounted cfg client ids db eventId) : Owed cfg client ids db (.inr r) := by
  intro eventId' hnames
  rw [h.1] at hnames
  rw [hnames.ofAckBody.1]
  exact haccounted

/-- The adapter's own reply. -/
theorem owed_sends {r : Request} {reply : Str}
    (h : client.Sends (a.producer.body ids client event reply) r) :
    Owed cfg client ids db (.inl r) := by
  intro b hb _ _
  obtain ⟨-, -, -, hpayload, hid⟩ := checkBody_reply hb (h.1.trans a.body_eq)
  exact ⟨event, reply, hpayload, hid⟩

/-- A step of the handler. -/
theorem Truthful.handle {x x' : Answering} {asked : Option Asked} (h : Truthful cfg client ids s)
    (hw : s.worker = some w) (hduty : w.duty = .handling c x)
    (hsteady : Steady cfg client (Answered client) (fun _ => []) (AnswerInv cfg client ids)
      ((s.askSome cfg asked).goOn w (.handling c x')))
    (hstep : AnswerStep cfg client ids str a s.server x asked x') :
    Truthful cfg client ids ((s.askSome cfg asked).goOn w (.handling c x')) := by
  have hanswers := h.duty w hw
  rw [hduty] at hanswers
  cases hstep with
  | send hanswer hsends => exact h.askOn hsteady (owed_sends hsends) hanswers
  | sendAgain hsends => exact h.askOn hsteady (owed_sends hsends) hanswers
  | _ => exact h.goOn hsteady rfl rfl hanswers

/-- The handler returns when its reply is stored. -/
theorem Truthful.handled {x : Answering} {result : Option (List Str)}
    (h : Truthful cfg client ids s) (hw : s.worker = some w) (hduty : w.duty = .handling c x)
    (hreturns : (answering cfg client ids str a).returns x = some result) :
    c.Applies cfg client ids s.server.store (c.ids result) := by
  have hanswers := h.duty w hw
  rw [hduty] at hanswers
  obtain ⟨-, hpage, hfits, habout⟩ := h.steady.stands hw hduty
  cases c with
  | retry todo => exact hanswers
  | delivery event rest =>
    intro eventId hmem
    have hevent := habout event rest rfl
    have hpage' : OnPage client.agent s.pages s.server.store.events w.sinceId (event :: rest) :=
      hpage
    obtain ⟨row, hrow, hdecoded, -⟩ := hpage'.next
    cases x with
    | ended event' result' =>
      cases hreturns
      cases hevent
      cases result with
      | none =>
        have heq : eventId = event'.eventId := List.mem_singleton.mp hmem
        refine ⟨heq, row, hrow, ?_, event', hdecoded, hfits.1, hfits.2⟩
        rw [heq]
        exact (decoded_names hdecoded).1.symm
      | some eventIds =>
        have hnil : eventIds = [] := hfits.2
        have hmem' : eventId ∈ eventIds := hmem
        rw [hnil] at hmem'
        exact absurd hmem' List.not_mem_nil
    | _ => cases hreturns

/-- One step of `run_once`. -/
theorem Truthful.work (h : Truthful cfg client ids s) (hw : s.worker = some w)
    (hstep : WorkerStep cfg client (answering cfg client ids str a) s w s') :
    Truthful cfg client ids s' := by
  have hsteady := h.steady.work (answering_contract cfg client ids str a) hw hstep
  have hanswers := h.duty w hw
  cases hstep with
  | receive hduty hacks => exact h.askOn hsteady (owed_received hacks) trivial
  | receiveAgain hduty hacks => exact h.askOn hsteady (owed_received hacks) trivial
  | received hduty hanswer hok => exact h.goOn hsteady rfl rfl (by exact nofun)
  | handle hduty hstep => exact h.handle hw hduty hsteady hstep
  | handled hduty hreturns => exact h.goOn hsteady rfl rfl (h.handled hw hduty hreturns)
  | @apply c eventId eventIds r hduty hacks =>
    rw [hduty] at hanswers
    cases c with
    | delivery event rest =>
      exact h.askOn hsteady (owed_applied hacks (hanswers eventId List.mem_cons_self).2) hanswers
    | retry todo => exact hanswers.elim
  | @applyAgain c eventId eventIds i r hduty hacks =>
    rw [hduty] at hanswers
    cases c with
    | delivery event rest =>
      exact h.askOn hsteady (owed_applied hacks (hanswers eventId List.mem_cons_self).2) hanswers
    | retry todo => exact hanswers.elim
  | applied hduty hanswer hok =>
    rw [hduty] at hanswers
    exact h.goOn hsteady rfl rfl (hanswers.subset (List.subset_cons_self _ _))
  | retryDue hduty hdue => exact hdue.elim
  | retry hduty =>
    rw [hduty] at hanswers
    exact hanswers.elim
  | retried hduty =>
    rw [hduty] at hanswers
    exact hanswers.elim
  | _ => exact h.goOn hsteady rfl rfl trivial

/-- An exception. -/
theorem Truthful.raise (h : Truthful cfg client ids s) (hw : s.worker = some w)
    (hstep : RaiseStep cfg client (answering cfg client ids str a) s w s') :
    Truthful cfg client ids s' := by
  have hsteady := h.steady.raise hw (h.spares .raise) hstep
  cases hstep with
  | handler hduty hraises hacks => exact h.askOn hsteady (owed_received hacks) trivial
  | _ => exact h.goOn hsteady rfl rfl trivial

theorem Truthful.step {act : RunAct} (h : Truthful cfg client ids s)
    (hok : Foreign cfg client s act) (hstep : (answerers cfg client ids str a).step s act s') :
    Truthful cfg client ids s' := by
  cases act with
  | server act =>
    obtain ⟨server, hserver, rfl⟩ := hstep
    exact h.serve hok hserver
  | start =>
    have hadapter : (adapters cfg client (answering cfg client ids str a) ()).step s .start s' :=
      hstep
    have hsteady := h.steady.step (answering_contract cfg client ids str a) (h.spares .start) hadapter
    obtain ⟨-, rfl⟩ := hstep
    exact h.goOn hsteady rfl rfl trivial
  | crash =>
    have hadapter : (adapters cfg client (answering cfg client ids str a) ()).step s .crash s' :=
      hstep
    have hsteady := h.steady.step (answering_contract cfg client ids str a) (h.spares .crash) hadapter
    cases hstep
    refine ⟨hsteady, h.rows, h.acks, h.calls, fun w hw => ?_⟩
    cases hw
  | work =>
    obtain ⟨w, hw, hwork⟩ := hstep
    exact h.work hw hwork
  | raise =>
    obtain ⟨w, hw, hraise⟩ := hstep
    exact h.raise hw hraise

/-! ## Every run -/

theorem truthful_of_reach (h : Reach (answerers cfg client ids str a) (Foreign cfg client) s) :
    Truthful cfg client ids s := by
  refine Reach.invariant (P := Truthful cfg client ids) (fun s hs => ?_)
    (fun s act s' hs hok hstep => hs.step hok hstep) h
  obtain ⟨hinit, hsilent⟩ := hs
  have hsteady := steady_of_reach (answering_contract cfg client ids str a) (.init hinit)
  obtain ⟨server, hserver, rfl⟩ := hinit
  refine ⟨hsteady, fun row hrow hreply => absurd hreply (hsilent.replies row hrow),
    fun eventId hack => ?_, fun call hcall => ?_, fun w hw => ?_⟩
  · rw [hsilent.acks eventId] at hack
    cases hack
  · rw [hserver.2] at hcall
    cases hcall
  · cases hw

/-- A cursor of the adapter, on disk or in memory. -/
def RunState.HasCursor (s : RunState Unit Answering) (pos : ℤ) : Prop :=
  s.loaded = pos ∨ ∃ w, s.worker = some w ∧ w.sinceId = pos

/-- What the ledger tells of an agent that answers. -/
structure AnsweredOnce (cfg : ServerConfig) (client : Client) (ids : NameIds)
    (s : RunState Unit Answering) : Prop where
  behind : ∀ pos, s.HasCursor pos → ∀ row ∈ s.server.store.events,
    forTarget client.agent row = true → (row.id : ℤ) ≤ pos →
      hasAck s.server.store row.eventId client.agent .applied = true ∨
        ∃ event, Decoded row event ∧ shouldHandle event = false
  applied : ∀ row ∈ s.server.store.events,
    hasAck s.server.store row.eventId client.agent .applied = true → route cfg row.source = none →
      ∃ event, Decoded row event ∧ shouldHandle event = true ∧
        Replied ids client s.server.store event
  replies : ∀ reply ∈ s.server.store.events, IsReply client.agent reply →
    ∃ event text, reply.payload = autoPayload event text ∧ reply.eventId = replyId ids client event
  once : ∀ reply ∈ s.server.store.events, ∀ reply' ∈ s.server.store.events,
    IsReply client.agent reply → IsReply client.agent reply' →
    getNone (lit "in_reply_to") reply.payload = getNone (lit "in_reply_to") reply'.payload →
      reply = reply'

/-- Up to a cursor nothing is left open. -/
theorem Truthful.answered {pos : ℤ} (h : Truthful cfg client ids s) (hpos : s.HasCursor pos)
    (hrow : row ∈ s.server.store.events) (hfor : forTarget client.agent row = true)
    (hle : rowKey row ≤ pos) : Answered client s.server.store () row := by
  have hcontract := answering_contract cfg client ids (fun _ => []) .chatHttp
  have hloaded : rowKey row ≤ s.loaded → Answered client s.server.store () row := by
    intro hle'
    rcases h.steady.held.done row hrow hle' hfor with hheld | hpassed
    · exact hheld.resolve_right (h.not_outstanding hrow hle')
    · exact h.steady.passed hcontract hpassed
  rcases hpos with rfl | ⟨w, hw, rfl⟩
  · exact hloaded hle
  · by_cases hcommitting : ∃ rest, w.duty = .committing rest
    · obtain ⟨rest, hduty⟩ := hcommitting
      obtain ⟨-, hheld, -⟩ := h.steady.stands hw hduty
      rcases hheld.done row hrow hle hfor with hheld | hpassed
      · refine hheld.resolve_right fun hid => ?_
        rw [RunState.outstanding_of_worker hw, hduty] at hid
        exact absurd hid List.not_mem_nil
      · exact h.steady.passed hcontract hpassed
    · rw [h.steady.sinceId_eq hw fun rest hduty => hcommitting ⟨rest, hduty⟩] at hle
      exact hloaded hle

end

/-- Alice asks Bob something. -/
def questionRow : EventRow :=
  { bobsRow with payload := [(lit "text", .str (lit "hello"))] }

def question : Event :=
  { bobsEvent with payload := [(lit "text", .str (lit "hello"))] }

/-- The page that he pulls. -/
def questionPage : EventPage where
  db := { events := [questionRow] }
  query := ⟨lit "bob", 0, 100, lit "pending"⟩
  events := [question]

/-- The handler of Bob's adapter, which asks a chat service. -/
def bobsHandler : Handler Unit Answering :=
  chatHttpHandler oneSlot bob constantIds fun _ => lit "hello"

def bobsAdapter : System (RunState Unit Answering) RunAct :=
  answerers oneSlot bob constantIds (fun _ => lit "hello") .chatHttp

/-- Its requests: an acknowledgement, -/
def bobsAck (ackType : AckType) : Asked :=
  .inr ⟨⟨bob.ackBody (lit "e1") ackType [], [], noon, []⟩, fun _ => false, none⟩

/-- and the reply. -/
def bobsReply : Asked :=
  .inl ⟨chatHttpReply constantIds bob question (lit "hi"), [], noon, []⟩

def asksBob : Serving := ⟨{ events := [questionRow] }, []⟩

def receivedBob : Serving := (servedAll oneSlot noon asksBob (bobsAck .received) 2).getD asksBob

def repliedBob : Serving := (servedAll oneSlot noon receivedBob bobsReply 5).getD asksBob

def appliedBob : Serving := (servedAll oneSlot noon repliedBob (bobsAck .applied) 2).getD asksBob

/-- Bob's adapter with the question. -/
def bobAt (server : Serving) (duty : Duty Answering) : RunState Unit Answering :=
  ⟨server, (), none, none, some ⟨0, duty⟩, [questionPage]⟩

theorem bobsAdapter_step : bobsAdapter.step = (adapters oneSlot bob bobsHandler ()).step := rfl

theorem ok_of_status {answered : Option Reply} {status : ℕ}
    (h : answered.map (·.status) = some status) : ∃ reply, answered = some reply ∧
      reply.status = status :=
  Option.map_eq_some_iff.mp h

/-- A step of the adapter. -/
theorem reach_bob {s t t' : RunState Unit Answering} {w : Worker Answering}
    (h : Reach bobsAdapter (Foreign oneSlot bob) s) (hw : s.worker = some w)
    (hstep : WorkerStep oneSlot bob bobsHandler s w t) (heq : t = t') :
    Reach bobsAdapter (Foreign oneSlot bob) t' :=
  reach_work bobsAdapter_step (fun _ => trivial) h hw hstep heq

/-- A request of the adapter, and the server works through it. -/
theorem reach_askedBob {server : Serving} {duty duty' : Duty Answering} {asked : Asked}
    {s : RunState Unit Answering} (n : ℕ)
    (h : Reach bobsAdapter (Foreign oneSlot bob) (bobAt server duty))
    (hstep : WorkerStep oneSlot bob bobsHandler (bobAt server duty) ⟨0, duty⟩ s)
    (heq : s = ((bobAt server duty).ask oneSlot asked).goOn ⟨0, duty⟩ duty')
    (hrun : (servedAll oneSlot noon server asked n).isSome = true) :
    Reach bobsAdapter (Foreign oneSlot bob)
      (bobAt ((servedAll oneSlot noon server asked n).getD asksBob) duty') := by
  obtain ⟨server', hserver'⟩ := Option.isSome_iff_exists.mp hrun
  rw [hserver', Option.getD_some]
  exact reach_served bobsAdapter_step (fun _ _ _ => trivial) noon _ (reach_bob h rfl hstep heq) hserver'

/-- Its handler goes on. -/
theorem reach_handlingBob {server : Serving} {x x' : Answering}
    (h : Reach bobsAdapter (Foreign oneSlot bob) (bobAt server (.handling (.delivery question []) x)))
    (hstep : AnswerStep oneSlot bob constantIds (fun _ => lit "hello") .chatHttp server x none x') :
    Reach bobsAdapter (Foreign oneSlot bob)
      (bobAt server (.handling (.delivery question []) x')) :=
  reach_bob h rfl (.handle rfl hstep) rfl

/-- The question is answered, applied, and behind the cursor. -/
theorem reach_applied : Reach bobsAdapter (Foreign oneSlot bob)
    ⟨appliedBob, (), some 1, none, some ⟨1, .next []⟩, [questionPage]⟩ := by
  have hinit : Reach bobsAdapter (Foreign oneSlot bob) { server := asksBob, disk := () } :=
    .init ⟨⟨asksBob, ⟨⟨List.pairwise_singleton .., by decide, by decide⟩, rfl⟩, rfl⟩,
      ⟨fun row hrow his => by cases List.mem_singleton.mp hrow; exact absurd his.1 (by decide),
        fun _ => rfl⟩⟩
  have hpulled : Reach bobsAdapter (Foreign oneSlot bob) (bobAt asksBob (.next [question])) := by
    have hstart : Reach bobsAdapter (Foreign oneSlot bob)
        { server := asksBob, disk := (), worker := some ⟨0, .started⟩ } :=
      .step (a := .start) hinit trivial ⟨rfl, rfl⟩
    have hpage : Pulled oneSlot bob 0 asksBob.store questionPage :=
      ⟨bobsPull, {}, ⟨rfl, rfl, rfl, rfl, rfl⟩, rfl, rfl, rfl⟩
    exact reach_bob hstart rfl (.pull trivial hpage) rfl
  have hreceived : Reach bobsAdapter (Foreign oneSlot bob)
      (bobAt receivedBob (.receiving question [] 0)) :=
    reach_askedBob 2 hpulled (.receive rfl ⟨rfl, rfl⟩) rfl (by decide +kernel)
  have hcalled : Reach bobsAdapter (Foreign oneSlot bob)
      (bobAt receivedBob (.handling (.delivery question []) (.called question))) := by
    obtain ⟨reply, hreply, hstatus⟩ := ok_of_status
      (show (answer oneSlot receivedBob 0).map (·.status) = some 200 by decide +kernel)
    exact reach_bob hreceived rfl (.received rfl hreply (by omega)) rfl
  have hanswered : Reach bobsAdapter (Foreign oneSlot bob)
      (bobAt receivedBob (.handling (.delivery question []) (.answered question (lit "hi")))) := by
    have hasking := reach_handlingBob hcalled (.ask rfl (by decide))
    exact reach_handlingBob hasking .answer
  have hsending : Reach bobsAdapter (Foreign oneSlot bob)
      (bobAt repliedBob (.handling (.delivery question []) (.sending question (lit "hi") 1))) := by
    have hsend : AnswerStep oneSlot bob constantIds (fun _ => lit "hello") .chatHttp receivedBob
        (.answered question (lit "hi")) (some bobsReply) (.sending question (lit "hi") 1) :=
      .send (by decide) ⟨rfl, rfl⟩
    exact reach_askedBob 5 hanswered (.handle rfl hsend) rfl (by decide +kernel)
  have happlying : Reach bobsAdapter (Foreign oneSlot bob)
      (bobAt repliedBob (.applying (.delivery question []) [lit "e1"])) := by
    obtain ⟨reply, hreply, hstatus⟩ := ok_of_status
      (show (answer oneSlot repliedBob 1).map (·.status) = some 201 by decide +kernel)
    have hended := reach_handlingBob hsending (.sent hreply (by omega))
    exact reach_bob hended rfl (.handled rfl rfl) rfl
  have hacking : Reach bobsAdapter (Foreign oneSlot bob)
      (bobAt appliedBob (.acking (.delivery question []) (lit "e1") [] 2)) :=
    reach_askedBob 2 happlying (.apply rfl ⟨rfl, rfl⟩) rfl (by decide +kernel)
  obtain ⟨reply, hreply, hstatus⟩ := ok_of_status
    (show (answer oneSlot appliedBob 2).map (·.status) = some 200 by decide +kernel)
  have happlied : Reach bobsAdapter (Foreign oneSlot bob)
      (bobAt appliedBob (.applying (.delivery question []) [])) :=
    reach_bob hacking rfl (.applied rfl hreply (by omega)) rfl
  have hcommitting : Reach bobsAdapter (Foreign oneSlot bob)
      ⟨appliedBob, (), none, some 1, some ⟨1, .committing []⟩, [questionPage]⟩ :=
    reach_bob happlied rfl (.advance rfl) rfl
  exact reach_bob hcommitting rfl (.commit rfl rfl) rfl

end Adapter
end ATalk
