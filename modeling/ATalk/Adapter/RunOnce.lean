import ATalk.Adapter.Requests

/-!
# `Adapter.run_once`

An adapter with a handler: it acknowledges the receipt of every event it pulls, calls its handler,
acknowledges as applied what the handler says, and moves its cursor. Between two of its runs it goes
through the tasks of the handler that are due. A handler may raise, and the process may be killed,
at any of these steps.

* `Handler` : a handler, step by step, and what it keeps on disk;
* `WorkerStep`, `RaiseStep` : `run_once` and `retry_due`;
* `adapters` : their runs beside a server;
* `Contract` : what a handler owes the events that it is given.
-/

namespace ATalk
namespace Adapter

open Text Python Sqlite ATalk.Core Federation Checks Transition Callers Server

/-! ## Handlers -/

/-- A handler: where it begins with an event that is delivered, and with one of a task that is
retried; the tasks that are due; its steps, with the request it may make; what it returns, `none` or
the ids of a `HandlerResult`; and the exceptions it may raise, as texts. -/
structure Handler (κ η : Type) where
  deliver : Event → η
  retry : Event → η
  due : κ → List Event → Prop
  step : Serving → κ → η → κ → Option Asked → η → Prop
  returns : η → Option (Option (List Str))
  raises : η → Str → Prop

/-- What a handler is called for: an event, with the rest of its page, or a task, with the events of
the others that are due. -/
inductive Cause where
  | delivery (event : Event) (rest : List Event)
  | retry (todo : List Event)

/-- The ids that a result applies. -/
def Cause.ids (result : Option (List Str)) : Cause → List Str
  | .delivery event _ => result.getD [event.eventId]
  | .retry _ => result.getD []

/-- The detail of the acknowledgements of a result. -/
def Cause.detail : Cause → Dict
  | .delivery .. => []
  | .retry _ => [(lit "delivery", .str (lit "openclaw_retry"))]

/-! ## The adapter -/

/-- Where an adapter is: outside of `run_once`, in its loop, in a call of its handler, or in the
acknowledgements behind it. -/
inductive Duty (η : Type) where
  | started
  | returned
  | raised
  | next (rest : List Event)
  | receiving (event : Event) (rest : List Event) (i : ℕ)
  | handling (c : Cause) (h : η)
  | reporting (i : ℕ)
  | applying (c : Cause) (ids : List Str)
  | acking (c : Cause) (eventId : Str) (ids : List Str) (i : ℕ)
  | committing (rest : List Event)
  | retrying (todo : List Event)

/-- The process of an adapter, with the cursor in its memory. -/
structure Worker (η : Type) where
  sinceId : ℤ
  duty : Duty η

/-- A server, what the handler keeps on disk, the cursor on disk, the process, and the pages that were
pulled. -/
structure RunState (κ η : Type) where
  server : Serving
  disk : κ
  cursor : Option ℤ := none
  cursorTmp : Option ℤ := none
  worker : Option (Worker η) := none
  pages : List EventPage := []

variable {κ η : Type}

namespace RunState

/-- `Cursor.load` -/
def loaded (s : RunState κ η) : ℤ := s.cursor.getD 0

def goOn (s : RunState κ η) (w : Worker η) (duty : Duty η) : RunState κ η :=
  { s with worker := some { w with duty := duty } }

def ask (cfg : ServerConfig) (s : RunState κ η) (r : Asked) : RunState κ η :=
  { s with server := { s.server with calls := s.server.calls ++ [(r, (handlers cfg).start r)] } }

/-- A request, if there is one. -/
def askSome (cfg : ServerConfig) (s : RunState κ η) : Option Asked → RunState κ η
  | none => s
  | some r => s.ask cfg r

end RunState

/-- `run_once` is not running. -/
def Duty.Outside : Duty η → Prop
  | .started | .returned | .raised => True
  | _ => False

/-- The adapter itself waits for its client. -/
def Duty.Asks : Duty η → Prop
  | .started | .returned | .raised => True
  | .next (_ :: _) | .receiving .. => True
  | .applying _ (_ :: _) | .acking .. => True
  | _ => False

/-- `{"handler_error": str(exc)}` -/
def handlerError (message : Str) : Dict := [(lit "handler_error", .str message)]

/-- One step of an adapter. When an attempt of a request fails, its client may make another one. -/
inductive WorkerStep (cfg : ServerConfig) (client : Client) (H : Handler κ η) (s : RunState κ η)
    (w : Worker η) : RunState κ η → Prop
  | pull {page : EventPage} : w.duty.Outside → Pulled cfg client w.sinceId s.server.store page →
      WorkerStep cfg client H s w
        { s.goOn w (.next page.events) with pages := s.pages ++ [page] }
  | ends : w.duty = .next [] → WorkerStep cfg client H s w (s.goOn w .returned)
  | receive {event : Event} {rest : List Event} {r : AckCall} : w.duty = .next (event :: rest) →
      client.Acks event.eventId .received [] r → WorkerStep cfg client H s w
        ((s.ask cfg (.inr r)).goOn w (.receiving event rest s.server.calls.length))
  | receiveAgain {event : Event} {rest : List Event} {i : ℕ} {r : AckCall} :
      w.duty = .receiving event rest i → client.Acks event.eventId .received [] r →
      WorkerStep cfg client H s w
        ((s.ask cfg (.inr r)).goOn w (.receiving event rest s.server.calls.length))
  | received {event : Event} {rest : List Event} {i : ℕ} {reply : Reply} :
      w.duty = .receiving event rest i → answer cfg s.server i = some reply → reply.status < 300 →
      WorkerStep cfg client H s w (s.goOn w (.handling (.delivery event rest) (H.deliver event)))
  | handle {c : Cause} {h h' : η} {disk : κ} {r : Option Asked} : w.duty = .handling c h →
      H.step s.server s.disk h disk r h' → WorkerStep cfg client H s w
        { (s.askSome cfg r).goOn w (.handling c h') with disk := disk }
  | handled {c : Cause} {h : η} {result : Option (List Str)} : w.duty = .handling c h →
      H.returns h = some result → WorkerStep cfg client H s w (s.goOn w (.applying c (c.ids result)))
  | reported {i : ℕ} : w.duty = .reporting i → WorkerStep cfg client H s w (s.goOn w .raised)
  | apply {c : Cause} {eventId : Str} {ids : List Str} {r : AckCall} :
      w.duty = .applying c (eventId :: ids) → client.Acks eventId .applied c.detail r →
      WorkerStep cfg client H s w
        ((s.ask cfg (.inr r)).goOn w (.acking c eventId ids s.server.calls.length))
  | applyAgain {c : Cause} {eventId : Str} {ids : List Str} {i : ℕ} {r : AckCall} :
      w.duty = .acking c eventId ids i → client.Acks eventId .applied c.detail r →
      WorkerStep cfg client H s w
        ((s.ask cfg (.inr r)).goOn w (.acking c eventId ids s.server.calls.length))
  | applied {c : Cause} {eventId : Str} {ids : List Str} {i : ℕ} {reply : Reply} :
      w.duty = .acking c eventId ids i → answer cfg s.server i = some reply → reply.status < 300 →
      WorkerStep cfg client H s w (s.goOn w (.applying c ids))
  | advance {event : Event} {rest : List Event} : w.duty = .applying (.delivery event rest) [] →
      WorkerStep cfg client H s w { s with
        worker := some ⟨max w.sinceId event.id, .committing rest⟩,
        cursorTmp := some (max w.sinceId event.id) }
  | commit {rest : List Event} {pos : ℤ} : w.duty = .committing rest → s.cursorTmp = some pos →
      WorkerStep cfg client H s w { s.goOn w (.next rest) with
        cursor := some pos, cursorTmp := none }
  | retryDue {todo : List Event} : w.duty = .returned → H.due s.disk todo →
      WorkerStep cfg client H s w (s.goOn w (.retrying todo))
  | retry {event : Event} {todo : List Event} : w.duty = .retrying (event :: todo) →
      WorkerStep cfg client H s w (s.goOn w (.handling (.retry todo) (H.retry event)))
  | retried {todo : List Event} : w.duty = .applying (.retry todo) [] →
      WorkerStep cfg client H s w (s.goOn w (.retrying todo))
  | retryEnds : w.duty = .retrying [] → WorkerStep cfg client H s w (s.goOn w .returned)

/-- An exception: of the handler, which `run_once` reports before it raises it again, or of the
client. -/
inductive RaiseStep (cfg : ServerConfig) (client : Client) (H : Handler κ η) (s : RunState κ η)
    (w : Worker η) : RunState κ η → Prop
  | handler {event : Event} {rest : List Event} {h : η} {message : Str} {r : AckCall} :
      w.duty = .handling (.delivery event rest) h → H.raises h message →
      client.Acks event.eventId .received (handlerError message) r →
      RaiseStep cfg client H s w
        ((s.ask cfg (.inr r)).goOn w (.reporting s.server.calls.length))
  | retry {todo : List Event} {h : η} {message : Str} : w.duty = .handling (.retry todo) h →
      H.raises h message → RaiseStep cfg client H s w (s.goOn w .raised)
  | client : w.duty.Asks → RaiseStep cfg client H s w (s.goOn w .raised)

inductive RunAct where
  | server (act : Callers.Action Db Asked Time)
  | start
  | crash
  | work
  | raise

/-- An adapter beside a server. The main loop catches what `run_once` and `retry_due` raise, and calls
them again. -/
def adapters (cfg : ServerConfig) (client : Client) (H : Handler κ η) (disk : κ) :
    System (RunState κ η) RunAct where
  init s := ∃ server, (serving cfg).init server ∧ s = { server := server, disk := disk }
  step s act s' :=
    match act with
    | .server act => ∃ server, (serving cfg).step s.server act server ∧
        s' = { s with server := server }
    | .start => s.worker = none ∧ s' = { s with worker := some ⟨s.loaded, .started⟩ }
    | .crash => s' = { s with worker := none }
    | .work => ∃ w, s.worker = some w ∧ WorkerStep cfg client H s w s'
    | .raise => ∃ w, s.worker = some w ∧ RaiseStep cfg client H s w s'

theorem step_of_advance {cfg : ServerConfig} {server server' : Serving} {now : Time} {i : ℕ}
    (h : (handlers cfg).advance now server i = some server') :
    (serving cfg).step server (.advance i now) server' := by
  unfold Machine.advance at h
  split at h
  · cases h
  · next c p hi =>
    split at h
    · cases h
    · next hnone =>
      cases h
      exact ⟨c, p, hi, hnone, rfl⟩

section
variable {cfg : ServerConfig} {client : Client} {H : Handler κ η} {disk : κ}
  {S : System (RunState κ η) RunAct} {ok : RunState κ η → RunAct → Prop}

/-- A step of the adapter goes on with a run. -/
theorem reach_work (hS : S.step = (adapters cfg client H disk).step) (hok : ∀ s, ok s .work)
    {s t t' : RunState κ η} {w : Worker η} (h : Reach S ok s) (hw : s.worker = some w)
    (hstep : WorkerStep cfg client H s w t) (heq : t = t') : Reach S ok t' := by
  rw [← heq]
  refine .step (a := .work) h (hok s) ?_
  rw [hS]
  exact ⟨w, hw, hstep⟩

/-- And so does a schedule of the requests. -/
theorem reach_served (hS : S.step = (adapters cfg client H disk).step)
    (hok : ∀ s i now, ok s (.server (.advance i now))) (now : Time) (schedule : List ℕ)
    {s : RunState κ η} {server : Serving} (h : Reach S ok s)
    (hrun : schedule.foldlM ((handlers cfg).advance now) s.server = some server) :
    Reach S ok { s with server := server } := by
  induction schedule generalizing s with
  | nil =>
    cases hrun
    exact h
  | cons i schedule ih =>
    rw [List.foldlM_cons] at hrun
    obtain ⟨mid, hmid, hrest⟩ := Option.bind_eq_some_iff.mp hrun
    have hstep := step_of_advance hmid
    refine ih (s := { s with server := mid }) (.step (a := .server (.advance i now)) h (hok s i now) ?_)
      hrest
    rw [hS]
    exact ⟨mid, hstep, rfl⟩

/-- A server that works through a new request. -/
def servedAll (cfg : ServerConfig) (now : Time) (server : Serving) (asked : Asked) (n : ℕ) :
    Option Serving :=
  (List.replicate n server.calls.length).foldlM ((handlers cfg).advance now)
    { server with calls := server.calls ++ [(asked, (handlers cfg).start asked)] }

/-- It keeps its events. -/
theorem mem_servedAll {now : Time} {server server' : Serving} {asked : Asked} {n : ℕ} {row : EventRow}
    (hrun : servedAll cfg now server asked n = some server') (h : row ∈ server.store.events) :
    row ∈ server'.store.events := by
  have hgrow : ∀ (schedule : List ℕ) (s s' : Serving),
      schedule.foldlM ((handlers cfg).advance now) s = some s' → row ∈ s.store.events →
        row ∈ s'.store.events := by
    intro schedule
    induction schedule with
    | nil =>
      intro s s' hrun hrow
      cases hrun
      exact hrow
    | cons i schedule ih =>
      intro s s' hrun hrow
      rw [List.foldlM_cons] at hrun
      obtain ⟨mid, hmid, hrest⟩ := Option.bind_eq_some_iff.mp hrun
      exact ih mid s' hrest ((serving_since (step_of_advance hmid)).later.events.subset hrow)
  exact hgrow _ _ _ hrun h

end

/-! ## What a handler owes -/

/-- The ids whose acknowledgement is outstanding: the handler has done with their events, and the
adapter has not applied them yet. -/
def Duty.outstanding (out : η → List Str) : Duty η → List Str
  | .handling _ h => out h
  | .applying _ ids => ids
  | .acking _ eventId ids _ => eventId :: ids
  | _ => []

/-- The event that is being delivered. -/
def Duty.inHand : Duty η → Option Event
  | .handling (.delivery event _) _ => some event
  | .applying (.delivery event _) _ => some event
  | .acking (.delivery event _) _ _ _ => some event
  | _ => none

/-- What a handler owes: `Done` is what has to become of an event, and `out` are the ids it will
return. No step of it undoes an event without taking its id, it returns what it has taken, and when
it returns from an event the event is done, or to be applied. -/
structure Contract (cfg : ServerConfig) (client : Client) (H : Handler κ η)
    (Done : Db → κ → EventRow → Prop) (out : η → List Str)
    (Inv : Serving → κ → Cause → η → Prop) : Prop where
  later : ∀ db db' disk row, Since db db' → Done db disk row → Done db' disk row
  acked : ∀ db disk row, hasAck db row.eventId client.agent .applied = true → Done db disk row
  serve : ∀ s s' act disk c h, (serving cfg).step s act s' → Inv s disk c h → Inv s' disk c h
  deliver : ∀ s disk event rest, Inv s disk (.delivery event rest) (H.deliver event)
  retry : ∀ s disk event todo, Inv s disk (.retry todo) (H.retry event)
  step : ∀ s disk c h disk' r h', Reachable (serving cfg) s → Inv s disk c h → H.step s disk h disk' r h' →
      (∀ s', s'.store = s.store → s'.calls = s.calls ++ (r.map fun r => (r, (handlers cfg).start r)).toList →
        Inv s' disk' c h') ∧
      ∀ row, Done s.store disk row ∨ row.eventId ∈ out h → Done s.store disk' row ∨ row.eventId ∈ out h'
  returns : ∀ s disk c h result, Inv s disk c h → H.returns h = some result →
    (∀ eventId ∈ out h, eventId ∈ c.ids result) ∧
      ∀ event rest, c = .delivery event rest → ∀ row, Decoded row event →
        Done s.store disk row ∨ event.eventId ∈ c.ids result

end Adapter
end ATalk
