import ATalk.Server.Wake

/-!
# Adapters

What the adapters share. An adapter pulls the events of its agent behind its cursor, works through
them one by one, and moves the cursor, first in memory and then on disk. It may be stopped at any
time.

* `Client` : the requests that an adapter makes;
* `serving`, `answer` : the server it makes them to;
* `OnPage` : a place in the events that a pull returned;
* `Passed` : an event that a pull left out because it was acknowledged.
-/

namespace ATalk
namespace Adapter

open Text Python Sqlite ATalk.Core Federation Checks Transition Callers Server

/-! ## The client -/

/-- `AtalkClient` : the agent and its token, empty without one. -/
structure Client where
  agent : Str
  token : Str

/-- The request of `events(since_id)`. -/
structure Client.Pulls (client : Client) (since : ℤ) (r : GetRequest) : Prop where
  target : first r.query "target" = some client.agent
  since : intArg r.query "since_id" 0 = .ok since
  limit : intArg r.query "limit" 100 = .ok 100
  state : first r.query "state" = none
  bearer : r.bearer = client.token

/-- The body of `ack(event_id, ack_type, detail)`. -/
def Client.ackBody (client : Client) (eventId : Str) (ackType : AckType) (detail : Dict) : Dict :=
  [(lit "event_id", .str eventId), (lit "agent_id", .str client.agent),
    (lit "ack_type", .str ackType.text), (lit "detail", .dict detail)]

/-- The requests of `ack(event_id, ack_type, detail)`. -/
def Client.Acks (client : Client) (eventId : Str) (ackType : AckType) (detail : Dict)
    (r : AckCall) : Prop :=
  r.body = client.ackBody eventId ackType detail ∧ r.bearer = client.token

/-! ## The server -/

abbrev Asked := Request ⊕ AckCall

/-- A server with the requests that were made to it. -/
abbrev Serving := World Db Asked (EventPhase ⊕ AckPhase)

def handlers (cfg : ServerConfig) : Machine Db Asked Time (EventPhase ⊕ AckPhase) Reply :=
  (eventCalls cfg).either (ackCalls cfg)

/-- What a request was answered with. -/
def answer (cfg : ServerConfig) (s : Serving) (i : ℕ) : Option Reply :=
  s.calls[i]?.bind fun call => (handlers cfg).result call.2

/-- What the schema says of the table of events: SQLite counts rows from one, and an event id is
`UNIQUE`. -/
structure Schema (db : Db) : Prop where
  ascending : Cursor.Ascending rowKey db.events
  positive : ∀ row ∈ db.events, 0 < row.id
  unique : (db.events.map (·.eventId)).Nodup

/-- The runs of a server. -/
def serving (cfg : ServerConfig) : System Serving (Callers.Action Db Asked Time) where
  init s := Schema s.store ∧ s.calls = []
  step := (server cfg).step

/-- The ledger after some requests. -/
structure Since (db db' : Db) : Prop where
  adds : Adds db db'
  later : Later db db'
  unique : (db.events.map (·.eventId)).Nodup → (db'.events.map (·.eventId)).Nodup

theorem Since.refl (db : Db) : Since db db := ⟨.refl db, .refl db, id⟩

theorem Since.trans {db db' db'' : Db} (h : Since db db') (h' : Since db' db'') : Since db db'' :=
  ⟨h.adds.trans h'.adds, h.later.trans h'.later, h'.unique ∘ h.unique⟩

theorem Since.schema {db db' : Db} (h : Since db db') (hdb : Schema db) : Schema db' :=
  ⟨h.adds.ascending hdb.ascending, h.adds.positive hdb.positive, h.unique hdb.unique⟩

theorem Schema.behind {db : Db} (h : Schema db) : ∀ row ∈ db.events, (0 : ℤ) < rowKey row := by
  intro row hrow
  have hpos := h.positive row hrow
  unfold rowKey
  omega

variable {cfg : ServerConfig} {s s' : Serving} {agent : Str}

/-- A row with an event id of its own. -/
theorem unique_append {db db' : Db} {row : EventRow} (hevents : db'.events = db.events ++ [row])
    (hfresh : ∀ old ∈ db.events, old.eventId ≠ row.eventId)
    (h : (db.events.map (·.eventId)).Nodup) : (db'.events.map (·.eventId)).Nodup := by
  rw [hevents, List.map_append, List.map_singleton, ← List.concat_eq_append]
  refine h.concat fun hmem => ?_
  obtain ⟨old, hold, hsame⟩ := List.mem_map.mp hmem
  exact hfresh old hold hsame

theorem Since.of_eq {db db' : Db} (hevents : db'.events = db.events) (hacks : db'.acks = db.acks) :
    Since db db' :=
  ⟨.of_eq hevents, .of_eq hevents hacks, fun h => hevents ▸ h⟩

theorem receiveEvent_since {env : Env} {db db' : Db} {p : InboundParams} {now : Time} {res : Received}
    (h : receiveEvent env db p now = .ok (db', res)) : Since db db' := by
  have hadds := receiveEvent_adds h
  rcases receiveEvent_cases h with ⟨-, hs⟩ | ⟨_, -, -, -, rfl⟩ | ⟨_, _, -, rfl⟩
  · obtain ⟨seq, hevents⟩ := hs.event
    have hacks : db'.acks = db.acks := (congrArg Db.acks hs.frame :)
    refine ⟨hadds, ⟨hadds.events, fun eventId agent ackType hack => ?_⟩, unique_append hevents ?_⟩
    · rwa [hasAck, hacks]
    · exact hs.freshEvent
  · exact .refl _
  · exact .of_eq rfl rfl

theorem otherCommits_since {env : Env} {db db' : Db} (h : OtherCommits env db db') :
    Since db db' := by
  rcases h with hother | ⟨p, now, res, hreceive⟩
  · exact .of_eq hother.1 hother.2
  · exact receiveEvent_since hreceive

theorem eventStep_since (cfg : ServerConfig) (r : Request) (now : Time) (db : Db) (p : EventPhase) :
    Since db (eventStep cfg r now db p).1 := by
  have hadds := eventStep_adds cfg r now db p
  have hlater := eventStep_later cfg r now db p
  refine ⟨hadds, hlater.1, fun hdb => ?_⟩
  rcases hlater.2 with hsame | ⟨a, _, rfl, -⟩
  · rw [hsame]
    exact hdb
  · rcases (sqliteStep_later cfg.env a now db .start).2 with hsame | ⟨row, -, hc⟩
    · exact hsame ▸ hdb
    · refine unique_append hc.events (fun old hold => ?_) hdb
      exact findEvent_eq_none_iff.mp hc.fresh old hold

theorem ackStep_since (cfg : ServerConfig) (r : AckCall) (now : Time) (db : Db) (p : AckPhase) :
    Since db (ackStep cfg r now db p).1 := by
  obtain ⟨hlater, hevents⟩ := ackStep_later cfg r now db p
  exact ⟨.of_eq hevents, hlater, fun h => hevents ▸ h⟩

theorem serving_since {act : Callers.Action Db Asked Time} (h : (serving cfg).step s act s') :
    Since s.store s'.store := by
  cases act with
  | call c =>
    cases h
    exact .refl _
  | other store =>
    obtain ⟨henv, rfl⟩ := h
    exact otherCommits_since henv
  | advance i now =>
    obtain ⟨c, p, -, -, rfl⟩ := h
    match c, p with
    | .inl r, .inl p => exact eventStep_since cfg r now s.store p
    | .inr r, .inr p => exact ackStep_since cfg r now s.store p
    | .inl r, .inr p => exact .refl _
    | .inr r, .inl p => exact .refl _

/-! ## A pull -/

/-- A pull reads the page of the agent behind a cursor. Its handler checks the token in statements
of its own, before the page is read. -/
def Pulled (cfg : ServerConfig) (client : Client) (since : ℤ) (db : Db) (p : EventPage) : Prop :=
  ∃ r checked, client.Pulls since r ∧ checkGet (sqliteReads cfg.env) checked r = .ok (.ok p.query) ∧
    p.db = db ∧ readPage (sqliteReads cfg.env) db p.query = .ok p.events

/-- What the handler was asked for. -/
theorem Pulled.query {client : Client} {since : ℤ} {db : Db} {p : EventPage}
    (h : Pulled cfg client since db p) :
    p.query = ⟨client.agent, since, 100, lit "pending"⟩ ∧ client.agent ≠ [] := by
  obtain ⟨r, checked, hr, hcheck, -, -⟩ := h
  refine ⟨?_, first_ne_nil hr.target⟩
  rw [checkGet_asks hcheck hr.target hr.since hr.limit, hr.state]
  rfl

theorem Pulled.serves {client : Client} {since : ℤ} {db : Db} {p : EventPage}
    (h : Pulled cfg client since db p) :
    (p.toPage client.agent).Serves rowKey ∧ List.Forall₂ Decoded (p.rows client.agent) p.events := by
  obtain ⟨hquery, hagent⟩ := h.query
  obtain ⟨r, checked, -, -, rfl, hpage⟩ := h
  refine ⟨⟨pageSize p.query.limit, ?_, rfl⟩, ?_⟩
  · rw [hquery]
    show 0 < pageSize 100
    decide
  · have htarget : p.query.target = client.agent := by rw [hquery]
    rw [← htarget] at hagent ⊢
    exact decoded_of_mapM (readPage_sqlite hagent hpage)

theorem decoded_names {row : EventRow} {event : Event} (h : Decoded row event) :
    event.eventId = row.eventId ∧ event.source = row.source := by
  obtain ⟨_, -, rfl⟩ := rowToEvent_ok h
  exact ⟨rfl, rfl⟩

/-! ## Through a page -/

/-- The events left of a page that was pulled, behind a cursor. -/
def OnPage (agent : Str) (pages : List EventPage) (log : List EventRow) (pos : ℤ)
    (rest : List Event) : Prop :=
  ∃ p ∈ pages, ∃ rows, Cursor.Progress rowKey log pos (p.toPage agent) rows ∧
    List.Forall₂ Decoded rows rest

/-- A pull passed the event and left it out: the agent had acknowledged it as applied. -/
def Passed (agent : Str) (pages : List EventPage) (row : EventRow) : Prop :=
  ∃ p ∈ pages, p.query.sinceId < (row.id : ℤ) ∧ (row.id : ℤ) ≤ p.next ∧ p.Hides agent row

section
variable {pages : List EventPage} {log log' : List EventRow} {pos : ℤ} {event : Event}
  {rest : List Event} {row : EventRow}

theorem Passed.append (h : Passed agent pages row) (more : List EventPage) :
    Passed agent (pages ++ more) row := by
  obtain ⟨p, hp, h⟩ := h
  exact ⟨p, List.mem_append_left _ hp, h⟩

theorem OnPage.append (h : OnPage agent pages log pos rest) (more : List EventPage) :
    OnPage agent (pages ++ more) log pos rest := by
  obtain ⟨p, hp, h⟩ := h
  exact ⟨p, List.mem_append_left _ hp, h⟩

theorem OnPage.grow (h : OnPage agent pages log pos rest) (hsub : log <+: log')
    (hlog : Cursor.Ascending rowKey log') : OnPage agent pages log' pos rest := by
  obtain ⟨p, hp, rows, hprogress, hdecoded⟩ := h
  exact ⟨p, hp, rows, hprogress.grow hsub hlog, hdecoded⟩

theorem OnPage.pulled {client : Client} {db : Db} {p : EventPage}
    (h : Pulled cfg client pos db p) (hlog : Cursor.Ascending rowKey db.events) :
    OnPage client.agent (pages ++ [p]) db.events pos p.events := by
  obtain ⟨hserves, hdecoded⟩ := h.serves
  obtain ⟨hquery, -⟩ := h.query
  obtain ⟨r, checked, -, -, rfl, -⟩ := h
  refine ⟨p, List.mem_append_right _ (List.mem_singleton_self _), p.rows client.agent, ?_, hdecoded⟩
  have hsince : (p.toPage client.agent).since = pos := by
    show p.query.sinceId = pos
    rw [hquery]
  have hfirst := Cursor.Progress.first hserves hlog
  rw [hsince] at hfirst
  exact hfirst

theorem OnPage.advance (h : OnPage agent pages log pos (event :: rest)) :
    OnPage agent pages log (max pos event.id) rest := by
  obtain ⟨p, hp, rows, hprogress, hdecoded⟩ := h
  cases hdecoded with
  | @cons row _ rows _ hrow hrest =>
    have hkey : (event.id : ℤ) = rowKey row := congrArg Int.ofNat (Decoded.id hrow)
    rw [hkey]
    exact ⟨p, hp, rows, hprogress.advance, hrest⟩

/-- The next event is one of the agent, behind the cursor, and no page showed what is before it. -/
theorem OnPage.next (h : OnPage agent pages log pos (event :: rest)) :
    ∃ row ∈ log, Decoded row event ∧ forTarget agent row = true ∧ pos < rowKey row ∧
      ∀ y ∈ log, pos < rowKey y → rowKey y < rowKey row → forTarget agent y = true →
        ∃ p ∈ pages, p.Hides agent y := by
  obtain ⟨p, hp, rows, hprogress, hdecoded⟩ := h
  cases hdecoded with
  | @cons row _ rows _ hrow hrest =>
    have hshown := hprogress.serves.mem (hprogress.mem_rows List.mem_cons_self)
    refine ⟨row, hprogress.earlier.subset hshown.1, hrow, (Bool.and_eq_true_iff.mp hshown.2.2).1,
      hprogress.ahead row List.mem_cons_self, fun y hy hpos hlt hfor => ⟨p, hp, ?_⟩⟩
    rcases hprogress.passed hy hpos hlt.le with rfl | ⟨-, -, hhidden⟩
    · exact absurd hlt (lt_irrefl _)
    · exact (not_shown_iff hfor).mp hhidden

/-- What has to hold of the events of an agent up to its cursor. -/
def Behind (agent : Str) (pages : List EventPage) (done : EventRow → Prop) (row : EventRow) : Prop :=
  forTarget agent row = true → done row ∨ Passed agent pages row

/-- The adapter is done with the next event, and moves its cursor. -/
theorem OnPage.settled {done : EventRow → Prop} (h : OnPage agent pages log pos (event :: rest))
    (hpages : ∀ p ∈ pages, List.Forall₂ Decoded (p.rows agent) p.events)
    (hsettled : Cursor.Settled rowKey 0 log (Behind agent pages done) pos)
    (hdone : ∀ row, Decoded row event → row ∈ log → done row) :
    Cursor.Settled rowKey 0 log (Behind agent pages done) (max pos event.id) := by
  obtain ⟨p, hp, rows, hprogress, hdecoded⟩ := h
  cases hdecoded with
  | @cons row _ rows _ hrow hrest =>
    have hkey : (event.id : ℤ) = rowKey row := congrArg Int.ofNat (Decoded.id hrow)
    have hmem := (hprogress.serves.mem (hprogress.mem_rows List.mem_cons_self)).1
    rw [hkey]
    refine hsettled.advance hprogress (fun _ => .inl (hdone row hrow (hprogress.earlier.subset hmem)))
      fun y _ hpasses hshown hfor => .inr ⟨p, hp, hpasses.1, ?_, (not_shown_iff hfor).mp hshown⟩
    rw [next_of_decoded (hpages p hp)]
    exact hpasses.2

end

end Adapter
end ATalk
