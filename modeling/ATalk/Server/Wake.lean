import ATalk.Server.Reading

/-!
# Wake-ups

`WakeHub` and the streams of a server. A poster commits its event, then takes a snapshot of the
queues of its target and puts an item on each; a stream subscribes a queue, writes `ready`, and then
the items it takes off the queue; its client pulls after every message. These are steps of different
threads.

* `Hub` : `subscribe`, `unsubscribe`, `put`, and the snapshots;
* `posts`, `streamStep` : the posters and the streams of a station, step by step;
* `Covered` : an event that a client has pulled, or that it will be made to pull;
* `no_lost_wake` : the client of the newest stream has pulled what was notified.
-/

namespace ATalk
namespace Server

open Text Python Sqlite ATalk.Core Federation Checks Transition Callers

/-! ## The hub -/

/-- `WakeHub`, with the items of every queue there has been. -/
structure Hub where
  queues : List (Str × List ℕ) := []
  items : List (List Dict) := []

/-- `Queue(maxsize=1024)` -/
def maxsize : ℕ := 1024

namespace Hub

/-- `list(self._queues.get(agent, set()))` -/
def queuesOf (hub : Hub) (agent : Str) : List ℕ := (hub.queues.lookup agent).getD []

/-- `[q for group in self._queues.values() for q in group]` -/
def allQueues (hub : Hub) : List ℕ := hub.queues.flatMap (·.2)

/-- `self._queues[agent] = queues` -/
def assign (hub : Hub) (agent : Str) (queues : List ℕ) : Hub :=
  { hub with queues :=
      if hub.queues.any (·.1 = agent) then
        hub.queues.map fun kv => if kv.1 = agent then (agent, queues) else kv
      else hub.queues ++ [(agent, queues)] }

/-- The queue of a new stream replaces the ones there are. -/
def subscribe (hub : Hub) (agent : Str) : Hub :=
  let hub' := hub.assign agent [hub.items.length]
  { hub' with items := hub.items ++ [[]] }

def unsubscribe (hub : Hub) (agent : Str) (q : ℕ) : Hub :=
  match hub.queuesOf agent with
  | [] => hub
  | queues =>
    match queues.filter (· ≠ q) with
    | [] => { hub with queues := hub.queues.filter (·.1 ≠ agent) }
    | rest => hub.assign agent rest

def itemsOf (hub : Hub) (q : ℕ) : List Dict := hub.items.getD q []

/-- `put_nowait`, an item for a full queue dropped. -/
def put (hub : Hub) (q : ℕ) (item : Dict) : Hub :=
  if maxsize ≤ (hub.itemsOf q).length then hub
  else { hub with items := hub.items.modify q (· ++ [item]) }

end Hub

/-! ## Streams -/

/-- How far the thread of a stream has come: subscribed, waiting for an item, with an item in its
hands, out of its loop, and ended. -/
inductive StreamPhase where
  | subscribed
  | waiting
  | holding (item : Dict)
  | closing
  | closed

/-- What the client of a stream does: it listens, it is to pull, it pulls (the events there were when
it began), or it is gone. -/
inductive ClientPhase where
  | listening
  | due
  | pulling (before : List EventRow)
  | gone

/-- A connection: its queue, its thread, the messages on their way, its client, and the events that
the client has pulled. -/
structure Stream where
  agent : Str
  queue : ℕ
  phase : StreamPhase := .subscribed
  wire : List Dict := []
  client : ClientPhase := .listening
  pulled : List EventRow := []

/-- The thread is in its loop. -/
def StreamPhase.running : StreamPhase → Bool
  | .closing => false
  | .closed => false
  | _ => true

def ClientPhase.isGone : ClientPhase → Bool
  | .gone => true
  | _ => false

/-- The connection stands on both sides. -/
def Stream.Live (c : Stream) : Prop := c.phase.running = true ∧ c.client.isGone = false

structure Station where
  db : Db
  hub : Hub := {}
  streams : List Stream := []

def readyMessage (agent : Str) : Dict :=
  [(lit "kind", .str (lit "ready")), (lit "agent", .str agent)]

inductive StreamAct where
  /-- `GET /stream` : `subscribe` -/
  | connect (agent : Str)
  /-- `write_sse({"kind": "ready"})` -/
  | ready (i : ℕ)
  /-- `q.get()` -/
  | take (i : ℕ)
  /-- `write_sse(item)` -/
  | write (i : ℕ)
  /-- out of the loop: the token was revoked, or the connection is broken -/
  | leave (i : ℕ)
  /-- `finally: unsubscribe` -/
  | unsubscribe (i : ℕ)
  /-- the client reads a message -/
  | receive (i : ℕ)
  | pull (i : ℕ)
  | pulled (i : ℕ)
  | disconnect (i : ℕ)
  /-- an item that tells of no event -/
  | hint (q : ℕ) (item : Dict)

def Station.setStream (s : Station) (i : ℕ) (c : Stream) : Station :=
  { s with streams := s.streams.set i c }

/-- The events for an agent. -/
def Station.eventsFor (s : Station) (agent : Str) : List EventRow :=
  s.db.events.filter (forTarget agent)

/-- One step of a stream, of its thread or of its client. A pull reads, page by page, what there was
for the agent when it began. The keepalive of an empty queue wakes nobody and is left out. -/
def streamStep (s : Station) : StreamAct → Option Station
  | .connect agent => some { s with
      hub := s.hub.subscribe agent
      streams := s.streams ++ [{ agent := agent, queue := s.hub.items.length }] }
  | .ready i => do
    let c ← s.streams[i]?
    match c.phase with
    | .subscribed =>
      some (s.setStream i { c with phase := .waiting, wire := c.wire ++ [readyMessage c.agent] })
    | _ => none
  | .take i => do
    let c ← s.streams[i]?
    match c.phase, s.hub.itemsOf c.queue with
    | .waiting, item :: _ => some { s with
        hub := { s.hub with items := s.hub.items.modify c.queue List.tail }
        streams := s.streams.set i { c with phase := .holding item } }
    | _, _ => none
  | .write i => do
    let c ← s.streams[i]?
    match c.phase with
    | .holding item => some (s.setStream i { c with phase := .waiting, wire := c.wire ++ [item] })
    | _ => none
  | .leave i => do
    let c ← s.streams[i]?
    if c.phase.running then some (s.setStream i { c with phase := .closing }) else none
  | .unsubscribe i => do
    let c ← s.streams[i]?
    match c.phase with
    | .closing => some { s with
        hub := s.hub.unsubscribe c.agent c.queue
        streams := s.streams.set i { c with phase := .closed } }
    | _ => none
  | .receive i => do
    let c ← s.streams[i]?
    match c.client, c.wire with
    | .listening, _ :: wire => some (s.setStream i { c with wire := wire, client := .due })
    | _, _ => none
  | .pull i => do
    let c ← s.streams[i]?
    match c.client with
    | .due => some (s.setStream i { c with client := .pulling (s.eventsFor c.agent) })
    | _ => none
  | .pulled i => do
    let c ← s.streams[i]?
    match c.client with
    | .pulling before => some (s.setStream i { c with client := .listening, pulled := before })
    | _ => none
  | .disconnect i => do
    let c ← s.streams[i]?
    some (s.setStream i { c with client := .gone })
  | .hint q item => some { s with hub := s.hub.put q item }

/-! ## Posters -/

/-- How far `POST /events` has come, from the insertion on. -/
inductive PostPhase where
  | insert (p : Backends.CallPhase)
  | snapshot (event : Event)
  | put (event : Event) (left : List ℕ)
  | posted (event : Event)
  | failed

def wakeItem (event : Event) : Dict :=
  [(lit "kind", .str (lit "event")), (lit "event", .dict (eventToDict event))]

/-- What follows the insertion: an event is notified, an exception answered. -/
def afterInsert : Backends.CallPhase → PostPhase
  | .returned (.ok event) => .snapshot event
  | .returned (.error _) => .failed
  | p => .insert p

/-- `insert_event`, then `notify_all` for a broadcast and `notify` for any other event. -/
def postStep (env : Env) (a : EventArgs) (now : Time) (s : Station) : PostPhase → Station × PostPhase
  | .insert p =>
    let (db', p') := Backends.sqliteStep env a now s.db p
    ({ s with db := db' }, afterInsert p')
  | .snapshot event =>
    (s, .put event (if event.target = lit "*" then s.hub.allQueues else s.hub.queuesOf event.target))
  | .put event [] => (s, .posted event)
  | .put event (q :: left) => ({ s with hub := s.hub.put q (wakeItem event) }, .put event left)
  | p => (s, p)

def posts (env : Env) : Machine Station EventArgs Time PostPhase (Option Event) where
  start _ := .insert .start
  step := postStep env
  result
    | .posted event => some (some event)
    | .failed => some none
    | _ => none

/-- What the other threads of the station do: a step of a stream, or a commit that adds events. -/
def Surroundings (s s' : Station) : Prop :=
  (∃ act, streamStep s act = some s') ∨
    ∃ db', s.db.events <+: db'.events ∧ s' = { s with db := db' }

/-- A server from its start on: nobody is connected. -/
def NoStreams (s : Station) : Prop := s.hub.queues = [] ∧ s.hub.items = [] ∧ s.streams = []

/-- Posters and streams, in any order. -/
abbrev station (env : Env) :
    System (World Station EventArgs PostPhase) (Callers.Action Station EventArgs Time) :=
  callers (posts env) NoStreams Surroundings

/-! ## The law -/

/-- Nothing is on its way to the client, and its last pull is done. -/
structure Quiet (s : Station) (c : Stream) : Prop where
  phase : c.phase = .waiting
  wire : c.wire = []
  client : c.client = .listening
  items : s.hub.itemsOf c.queue = []

/-- The client has pulled the event. -/
def Stream.HasPulled (c : Stream) (event : Event) : Prop :=
  ∃ row ∈ c.pulled, rowToEvent row = .ok event

/-- No stream of the agent has been connected later. -/
def Newest (s : Station) (i : ℕ) (c : Stream) : Prop :=
  s.streams[i]? = some c ∧ ∀ j c', i < j → s.streams[j]? = some c' → c'.agent ≠ c.agent

/-- No stream of the agent that was connected later is live. -/
def NewestLive (s : Station) (i : ℕ) (c : Stream) : Prop :=
  s.streams[i]? = some c ∧
    ∀ j c', i < j → s.streams[j]? = some c' → c'.agent = c.agent → ¬ c'.Live

/-- When the client of the chosen stream of an agent is quiet, it has pulled every event for the
agent that was posted. -/
def WakeLaw (env : Env) (chosen : Station → ℕ → Stream → Prop) : Prop :=
  ∀ w, Reachable (station env) w → ∀ i c, chosen w.store i c → c.Live → Quiet w.store c →
    ∀ a event, (a, PostPhase.posted event) ∈ w.calls →
      (event.target = c.agent ∨ event.target = lit "*") → c.HasPulled event

/-! ## The queues of an agent -/

section
variable {hub : Hub} {agent : Str} {queues : List ℕ} {q : ℕ} {item : Dict}

theorem lookup_cons_eq (a : Str) (kv : Str × List ℕ) (kvs : List (Str × List ℕ)) :
    (kv :: kvs).lookup a = if a = kv.1 then some kv.2 else kvs.lookup a := by
  rw [List.lookup_cons]
  by_cases h : a = kv.1
  · rw [if_pos h, beq_iff_eq.mpr h]
  · rw [if_neg h, beq_false_of_ne h]

theorem lookup_replace_self {kvs : List (Str × List ℕ)} (h : kvs.any (·.1 = agent) = true) :
    (kvs.map fun kv => if kv.1 = agent then (agent, queues) else kv).lookup agent =
      some queues := by
  induction kvs with
  | nil => cases h
  | cons kv kvs ih =>
    rw [List.map_cons, lookup_cons_eq]
    by_cases hkv : kv.1 = agent
    · rw [if_pos hkv, if_pos rfl]
    · rw [if_neg hkv, if_neg fun heq => hkv heq.symm]
      simp only [List.any_cons, hkv, decide_false, Bool.false_or] at h
      exact ih h

theorem lookup_replace_ne {a : Str} (ha : a ≠ agent) (kvs : List (Str × List ℕ)) :
    (kvs.map fun kv => if kv.1 = agent then (agent, queues) else kv).lookup a = kvs.lookup a := by
  induction kvs with
  | nil => rfl
  | cons kv kvs ih =>
    rw [List.map_cons, lookup_cons_eq, lookup_cons_eq, ih]
    by_cases hkv : kv.1 = agent
    · have hne : a ≠ kv.1 := fun heq => ha (heq.trans hkv)
      rw [if_pos hkv, if_neg ha, if_neg hne]
    · rw [if_neg hkv]

theorem lookup_remove (a : Str) (kvs : List (Str × List ℕ)) :
    (kvs.filter (·.1 ≠ agent)).lookup a = if a = agent then none else kvs.lookup a := by
  induction kvs with
  | nil => split_ifs <;> rfl
  | cons kv kvs ih =>
    rw [lookup_cons_eq]
    by_cases hkv : kv.1 = agent
    · rw [List.filter_cons_of_neg (by simpa using hkv), ih]
      split_ifs with ha hsame
      · rfl
      · exact absurd (hsame.trans hkv) ha
      · rfl
    · rw [List.filter_cons_of_pos (by simpa using hkv), lookup_cons_eq, ih]
      split_ifs with hsame ha
      · exact absurd (hsame.symm.trans ha) hkv
      · rfl
      · rfl
      · rfl

theorem queuesOf_assign (a : Str) : (hub.assign agent queues).queuesOf a =
    if a = agent then queues else hub.queuesOf a := by
  unfold Hub.assign Hub.queuesOf
  by_cases hany : hub.queues.any (·.1 = agent) = true
  · simp only [hany, if_true]
    by_cases ha : a = agent
    · rw [if_pos ha, ha, lookup_replace_self hany]
      rfl
    · rw [if_neg ha, lookup_replace_ne ha]
  · simp only [hany, if_false, Bool.false_eq_true]
    rw [List.lookup_append]
    by_cases ha : a = agent
    · have hnone : hub.queues.lookup a = none := by
        rw [List.lookup_eq_none_iff]
        intro kv hkv
        rw [bne_iff_ne]
        intro heq
        exact hany (List.any_eq_true.mpr ⟨kv, hkv, decide_eq_true (heq.symm.trans ha)⟩)
      rw [if_pos ha, hnone, ha, lookup_cons_eq, if_pos rfl]
      rfl
    · rw [if_neg ha, lookup_cons_eq, if_neg ha, List.lookup_nil, Option.or_none]

theorem queuesOf_subscribe (a : Str) : (hub.subscribe agent).queuesOf a =
    if a = agent then [hub.items.length] else hub.queuesOf a :=
  queuesOf_assign a

theorem queuesOf_unsubscribe (a : Str) : (hub.unsubscribe agent q).queuesOf a =
    if a = agent then (hub.queuesOf agent).filter (· ≠ q) else hub.queuesOf a := by
  unfold Hub.unsubscribe
  cases hqueues : hub.queuesOf agent with
  | nil =>
    split_ifs with ha
    · rw [ha, hqueues]
      rfl
    · rfl
  | cons q' qs =>
    simp only
    split
    · next hnil =>
      rw [hnil]
      show ((hub.queues.filter (·.1 ≠ agent)).lookup a).getD [] = _
      rw [lookup_remove]
      split_ifs <;> rfl
    · next hrest => exact queuesOf_assign a

theorem mem_allQueues {a : Str} (h : q ∈ hub.queuesOf a) : q ∈ hub.allQueues := by
  unfold Hub.queuesOf at h
  cases hlookup : hub.queues.lookup a with
  | none =>
    rw [hlookup] at h
    cases h
  | some qs =>
    rw [hlookup] at h
    obtain ⟨front, rest, hqueues, -⟩ := List.lookup_eq_some_iff.mp hlookup
    refine List.mem_flatMap.mpr ⟨(a, qs), ?_, h⟩
    rw [hqueues]
    exact List.mem_append_right _ List.mem_cons_self

end

/-! ## The invariants -/

/-- Every stream has the queue of its number, and the newest one of an agent has the agent's lane as
long as its thread is in the loop. -/
structure Lanes (s : Station) : Prop where
  size : s.hub.items.length = s.streams.length
  own : ∀ (i : ℕ) (c : Stream), s.streams[i]? = some c → c.queue = i
  lane : ∀ i c, Newest s i c → c.phase.running = true → s.hub.queuesOf c.agent = [i]

/-- Something will make the client pull. -/
def Triggered (s : Station) (c : Stream) : Prop :=
  c.phase ≠ .waiting ∨ c.wire ≠ [] ∨ c.client = .due ∨ s.hub.itemsOf c.queue ≠ []

/-- The client has pulled the row, or the pull it makes will bring it. -/
def Stream.Holds (c : Stream) (row : EventRow) : Prop :=
  match c.client with
  | .pulling before => row ∈ before
  | _ => row ∈ c.pulled

/-- The newest stream of an agent the row is for is still to be notified, or its client will pull the
row, or has pulled it. -/
def Covered (s : Station) (row : EventRow) (left : List ℕ) : Prop :=
  ∀ i c, Newest s i c → forTarget c.agent row = true → c.Live →
    i ∈ left ∨ Triggered s c ∨ c.Holds row

/-- Events stay, and what is covered stays covered. -/
structure Moves (s s' : Station) : Prop where
  events : s.db.events <+: s'.db.events
  covered : ∀ row ∈ s.db.events, ∀ left, Covered s row left → Covered s' row left

variable {s s' : Station} {i : ℕ} {c c' : Stream} {row : EventRow}

theorem Moves.refl (s : Station) : Moves s s := ⟨List.prefix_rfl, fun _ _ _ h => h⟩

theorem Moves.trans {s'' : Station} (h : Moves s s') (h' : Moves s' s'') : Moves s s'' :=
  ⟨h.events.trans h'.events, fun row hrow left hcovered =>
    h'.covered row (h.events.subset hrow) left (h.covered row hrow left hcovered)⟩

/-- Another commit touches no stream. -/
theorem moves_commit (s : Station) {db' : Db} (h : s.db.events <+: db'.events) :
    Moves s { s with db := db' } := ⟨h, fun _ _ _ hcovered => hcovered⟩

theorem Lanes.commit (h : Lanes s) (db' : Db) : Lanes { s with db := db' } :=
  ⟨h.size, h.own, h.lane⟩

/-! ## One stream changes -/

/-- A change of one stream is no change of which streams are the newest. -/
theorem newest_set {j : ℕ} {d : Stream} (hi : s.streams[i]? = some c) (hagent : c'.agent = c.agent)
    (hstreams : s'.streams = s.streams.set i c') (h : Newest s' j d) :
    (j = i ∧ d = c' ∧ Newest s i c) ∨ (j ≠ i ∧ Newest s j d) := by
  obtain ⟨hj, hlater⟩ := h
  rw [hstreams] at hj hlater
  have hlt : i < s.streams.length := (List.getElem?_eq_some_iff.mp hi).1
  by_cases hij : j = i
  · subst hij
    rw [List.getElem?_set_self hlt, Option.some.injEq] at hj
    refine .inl ⟨rfl, hj.symm, hi, fun k e hk he => ?_⟩
    rw [← hagent, hj]
    exact hlater k e hk (by rw [List.getElem?_set_ne (Nat.ne_of_lt hk)]; exact he)
  · rw [List.getElem?_set_ne (Ne.symm hij)] at hj
    refine .inr ⟨hij, hj, fun k e hk he => ?_⟩
    by_cases hki : i = k
    · subst hki
      rw [hi, Option.some.injEq] at he
      rw [← he, ← hagent]
      exact hlater i c' hk (List.getElem?_set_self hlt)
    · exact hlater k e hk (by rw [List.getElem?_set_ne hki]; exact he)

/-- The change of a stream: the queues keep what they have, its thread does not start again, and its
client holds what it held or is triggered. -/
structure Changes (s s' : Station) (i : ℕ) (c c' : Stream) : Prop where
  before : s.streams[i]? = some c
  after : s'.streams = s.streams.set i c'
  db : s'.db = s.db
  agent : c'.agent = c.agent
  queue : c'.queue = c.queue
  size : s'.hub.items.length = s.hub.items.length
  others : ∀ q, q ≠ c.queue → s'.hub.itemsOf q = s.hub.itemsOf q
  running : c'.phase.running = true → c.phase.running = true
  lane : ∀ a q, q ≠ i ∨ c'.phase.running = true → s.hub.queuesOf a = [q] → s'.hub.queuesOf a = [q]
  holds : c'.Live → c.Live ∧ ∀ row ∈ s.db.events, forTarget c.agent row = true →
    Triggered s c ∨ c.Holds row → Triggered s' c' ∨ c'.Holds row

theorem Changes.lanes (h : Changes s s' i c c') (hs : Lanes s) : Lanes s' where
  size := by rw [h.size, h.after, List.length_set, hs.size]
  own j d hj := by
    rw [h.after] at hj
    by_cases hij : i = j
    · subst hij
      rw [List.getElem?_set_self (List.getElem?_eq_some_iff.mp h.before).1, Option.some.injEq] at hj
      rw [← hj, h.queue]
      exact hs.own i c h.before
    · rw [List.getElem?_set_ne hij] at hj
      exact hs.own j d hj
  lane j d hnewest hrunning := by
    rcases newest_set h.before h.agent h.after hnewest with ⟨rfl, rfl, hnew⟩ | ⟨hij, hnew⟩
    · rw [h.agent]
      exact h.lane _ _ (.inr hrunning) (hs.lane _ _ hnew (h.running hrunning))
    · exact h.lane _ _ (.inl hij) (hs.lane j d hnew hrunning)

theorem Changes.moves (h : Changes s s' i c c') (hs : Lanes s) : Moves s s' where
  events := by rw [h.db]
  covered row hrow left hcovered j d hnewest hfor hlive := by
    rcases newest_set h.before h.agent h.after hnewest with ⟨rfl, rfl, hnew⟩ | ⟨hij, hnew⟩
    · obtain ⟨hlive', hholds⟩ := h.holds hlive
      rw [h.agent] at hfor
      exact (hcovered _ _ hnew hfor hlive').imp_right fun hc => hholds row hrow hfor hc
    · refine (hcovered j d hnew hfor hlive).imp_right fun hc => hc.imp_left fun htriggered => ?_
      have hne : d.queue ≠ c.queue := by
        rw [hs.own j d hnew.1, hs.own i c h.before]
        exact hij
      unfold Triggered
      rw [h.others _ hne]
      exact htriggered

/-- A change that leaves the hub as it is. -/
theorem changes_set (hi : s.streams[i]? = some c) (hagent : c'.agent = c.agent)
    (hqueue : c'.queue = c.queue) (hrunning : c'.phase.running = true → c.phase.running = true)
    (hholds : c'.Live → c.Live ∧ ∀ row ∈ s.db.events, forTarget c.agent row = true →
      Triggered s c ∨ c.Holds row → Triggered (s.setStream i c') c' ∨ c'.Holds row) :
    Changes s (s.setStream i c') i c c' where
  before := hi
  after := rfl
  db := rfl
  agent := hagent
  queue := hqueue
  size := rfl
  others _ _ := rfl
  running := hrunning
  lane _ _ _ h := h
  holds := hholds

/-- A thread out of its loop is not live. -/
theorem not_live_of_stopped (h : c.phase.running = false) : ¬ c.Live := fun hlive => by
  have hrunning := hlive.1
  rw [h] at hrunning
  cases hrunning

theorem itemsOf_modify (hub : Hub) (q q' : ℕ) (f : List Dict → List Dict) (hne : q' ≠ q) :
    Hub.itemsOf { hub with items := hub.items.modify q f } q' = hub.itemsOf q' := by
  show (hub.items.modify q f).getD q' [] = hub.items.getD q' []
  rw [List.getD_eq_getElem?_getD, List.getD_eq_getElem?_getD, List.getElem?_modify]
  simp only [if_neg hne.symm, Option.map_eq_map, Option.map_id']

theorem unsubscribe_items (hub : Hub) (agent : Str) (q : ℕ) :
    (hub.unsubscribe agent q).items = hub.items := by
  unfold Hub.unsubscribe
  split
  · rfl
  · split <;> rfl

/-- Every step of a stream but its start and the hints changes one stream. -/
theorem streamStep_cases {act : StreamAct} (hs : Lanes s) (h : streamStep s act = some s') :
    (∃ i c c', Changes s s' i c c') ∨
      (∃ agent, s' = { s with
        hub := s.hub.subscribe agent
        streams := s.streams ++ [{ agent := agent, queue := s.hub.items.length }] }) ∨
      ∃ q item, s' = { s with hub := s.hub.put q item } := by
  cases act with
  | connect agent =>
    cases h
    exact .inr (.inl ⟨agent, rfl⟩)
  | hint q item =>
    cases h
    exact .inr (.inr ⟨q, item, rfl⟩)
  | ready i =>
    obtain ⟨c, hi, h⟩ := Option.bind_eq_some_iff.mp h
    split at h
    · next hphase =>
      cases h
      refine .inl ⟨i, c, _, changes_set hi rfl rfl (fun _ => by rw [hphase]; rfl) fun hlive => ?_⟩
      refine ⟨⟨by rw [hphase]; rfl, hlive.2⟩, fun _ _ _ _ => .inl (.inr (.inl ?_))⟩
      exact List.append_ne_nil_of_right_ne_nil _ (List.cons_ne_nil _ _)
    · cases h
  | take i =>
    obtain ⟨c, hi, h⟩ := Option.bind_eq_some_iff.mp h
    split at h
    · next item rest hphase hitems =>
      cases h
      refine .inl ⟨i, c, { c with phase := .holding item }, ?_⟩
      exact {
        before := hi
        after := rfl
        db := rfl
        agent := rfl
        queue := rfl
        size := List.length_modify ..
        others := fun q hq => itemsOf_modify s.hub c.queue q List.tail hq
        running := fun _ => by rw [hphase]; rfl
        lane := fun _ _ _ hlane => hlane
        holds := fun hlive => ⟨⟨by rw [hphase]; rfl, hlive.2⟩, fun _ _ _ _ => .inl (.inl nofun)⟩ }
    · cases h
  | write i =>
    obtain ⟨c, hi, h⟩ := Option.bind_eq_some_iff.mp h
    split at h
    · next item hphase =>
      cases h
      refine .inl ⟨i, c, _, changes_set hi rfl rfl (fun _ => by rw [hphase]; rfl) fun hlive => ?_⟩
      refine ⟨⟨by rw [hphase]; rfl, hlive.2⟩, fun _ _ _ _ => .inl (.inr (.inl ?_))⟩
      exact List.append_ne_nil_of_right_ne_nil _ (List.cons_ne_nil _ _)
    · cases h
  | leave i =>
    obtain ⟨c, hi, h⟩ := Option.bind_eq_some_iff.mp h
    split_ifs at h with hrunning
    cases h
    exact .inl ⟨i, c, _, changes_set hi rfl rfl (fun _ => hrunning) fun hlive =>
      absurd hlive (not_live_of_stopped rfl)⟩
  | unsubscribe i =>
    obtain ⟨c, hi, h⟩ := Option.bind_eq_some_iff.mp h
    split at h
    · cases h
      refine .inl ⟨i, c, { c with phase := .closed }, ?_⟩
      exact {
        before := hi
        after := rfl
        db := rfl
        agent := rfl
        queue := rfl
        size := congrArg List.length (unsubscribe_items ..)
        others := fun q _ => congrArg (·.getD q []) (unsubscribe_items ..)
        running := nofun
        lane := fun a q hq hlane => by
          -- only a queue of its own is discarded
          have hne : q ≠ c.queue := by
            rw [hs.own i c hi]
            exact hq.resolve_right nofun
          show (s.hub.unsubscribe c.agent c.queue).queuesOf a = [q]
          rw [queuesOf_unsubscribe]
          split_ifs with ha
          · rw [← ha, hlane]
            exact List.filter_eq_self.mpr fun q' hq' => by simpa using List.mem_singleton.mp hq' ▸ hne
          · exact hlane
        holds := fun hlive => absurd hlive (not_live_of_stopped rfl) }
    · cases h
  | receive i =>
    obtain ⟨c, hi, h⟩ := Option.bind_eq_some_iff.mp h
    split at h
    · next hclient hwire =>
      cases h
      refine .inl ⟨i, c, _, changes_set hi rfl rfl id fun hlive => ?_⟩
      exact ⟨⟨hlive.1, by rw [hclient]; rfl⟩, fun _ _ _ _ => .inl (.inr (.inr (.inl rfl)))⟩
    · cases h
  | pull i =>
    obtain ⟨c, hi, h⟩ := Option.bind_eq_some_iff.mp h
    split at h
    · next hclient =>
      cases h
      refine .inl ⟨i, c, _, changes_set hi rfl rfl id fun hlive => ?_⟩
      refine ⟨⟨hlive.1, by rw [hclient]; rfl⟩, fun row hrow hfor _ => .inr ?_⟩
      exact List.mem_filter.mpr ⟨hrow, hfor⟩
    · cases h
  | pulled i =>
    obtain ⟨c, hi, h⟩ := Option.bind_eq_some_iff.mp h
    split at h
    · next before hclient =>
      cases h
      refine .inl ⟨i, c, _, changes_set hi rfl rfl id fun hlive => ?_⟩
      refine ⟨⟨hlive.1, by rw [hclient]; rfl⟩, fun row _ _ hold => hold.imp ?_ fun hholds => ?_⟩
      · rintro (hphase | hwire | hdue | hitems)
        · exact .inl hphase
        · exact .inr (.inl hwire)
        · rw [hclient] at hdue
          cases hdue
        · exact .inr (.inr (.inr hitems))
      · unfold Stream.Holds at hholds
        rw [hclient] at hholds
        exact hholds
    · cases h
  | disconnect i =>
    obtain ⟨c, hi, h⟩ := Option.bind_eq_some_iff.mp h
    cases h
    refine .inl ⟨i, c, _, changes_set hi rfl rfl id fun hlive => ?_⟩
    have hgone : true = false := hlive.2
    cases hgone

/-! ## Hints and new streams -/

theorem put_queues (hub : Hub) (q : ℕ) (item : Dict) : (hub.put q item).queues = hub.queues := by
  unfold Hub.put
  split_ifs <;> rfl

theorem put_size (hub : Hub) (q : ℕ) (item : Dict) :
    (hub.put q item).items.length = hub.items.length := by
  unfold Hub.put
  split_ifs
  · rfl
  · exact List.length_modify ..

/-- An item does not empty a queue. -/
theorem put_ne_nil {hub : Hub} {q q' : ℕ} {item : Dict} (h : hub.itemsOf q' ≠ []) :
    (hub.put q item).itemsOf q' ≠ [] := by
  unfold Hub.put
  split_ifs
  · exact h
  · by_cases hq : q' = q
    · subst hq
      show (hub.items.modify q' (· ++ [item])).getD q' [] ≠ []
      rw [List.getD_eq_getElem?_getD, List.getElem?_modify]
      cases hget : hub.items[q']? with
      | none =>
        have hnil : hub.itemsOf q' = [] := by
          show hub.items.getD q' [] = []
          rw [List.getD_eq_getElem?_getD, hget]
          rfl
        exact absurd hnil h
      | some items => simp
    · rw [itemsOf_modify hub q q' _ hq]
      exact h

/-- The queue that an item is put on has one: if it is full it has many. -/
theorem put_self_ne_nil {hub : Hub} {q : ℕ} {item : Dict} (hq : q < hub.items.length) :
    (hub.put q item).itemsOf q ≠ [] := by
  unfold Hub.put
  split_ifs with hfull
  · intro hnil
    rw [hnil] at hfull
    exact absurd hfull (by decide)
  · show (hub.items.modify q (· ++ [item])).getD q [] ≠ []
    rw [List.getD_eq_getElem?_getD, List.getElem?_modify, List.getElem?_eq_getElem hq]
    simp

theorem Triggered.put {q : ℕ} {item : Dict} (h : Triggered s c) :
    Triggered { s with hub := s.hub.put q item } c := by
  rcases h with hphase | hwire | hdue | hitems
  · exact .inl hphase
  · exact .inr (.inl hwire)
  · exact .inr (.inr (.inl hdue))
  · exact .inr (.inr (.inr (put_ne_nil hitems)))

theorem Lanes.put (h : Lanes s) (q : ℕ) (item : Dict) :
    Lanes { s with hub := s.hub.put q item } where
  size := (put_size ..).trans h.size
  own := h.own
  lane i c hnewest hrunning := by
    unfold Hub.queuesOf
    rw [put_queues]
    exact h.lane i c hnewest hrunning

theorem moves_put (s : Station) (q : ℕ) (item : Dict) :
    Moves s { s with hub := s.hub.put q item } where
  events := List.prefix_rfl
  covered _ _ _ hcovered i c hnewest hfor hlive :=
    (hcovered i c hnewest hfor hlive).imp_right fun hc => hc.imp_left fun ht => ht.put

/-- Of the streams there were before, those of other agents are the newest still. -/
theorem newest_connect {agent : Str} {new : Stream} (hnew : new.agent = agent)
    (hstreams : s'.streams = s.streams ++ [new]) (h : Newest s' i c) :
    (i = s.streams.length ∧ c = new) ∨ (i < s.streams.length ∧ c.agent ≠ agent ∧ Newest s i c) := by
  obtain ⟨hi, hlater⟩ := h
  rw [hstreams] at hi hlater
  have hlast : (s.streams ++ [new])[s.streams.length]? = some new := List.getElem?_concat_length
  rcases Nat.lt_trichotomy i s.streams.length with hlt | heq | hgt
  · have hother : new.agent ≠ c.agent := hlater _ new hlt hlast
    refine .inr ⟨hlt, fun hagent => hother (hnew.trans hagent.symm), ?_, fun j d hj hd => ?_⟩
    · rwa [List.getElem?_append_left hlt] at hi
    · have hjlt : j < s.streams.length := (List.getElem?_eq_some_iff.mp hd).1
      exact hlater j d hj (by rw [List.getElem?_append_left hjlt]; exact hd)
  · rw [heq, hlast] at hi
    exact .inl ⟨heq, (Option.some.inj hi).symm⟩
  · have hlt := (List.getElem?_eq_some_iff.mp hi).1
    rw [List.length_append, List.length_singleton] at hlt
    omega

theorem Lanes.connect (h : Lanes s) (agent : Str) : Lanes { s with
    hub := s.hub.subscribe agent
    streams := s.streams ++ [{ agent := agent, queue := s.hub.items.length }] } where
  size := by
    show (s.hub.items ++ [[]]).length = _
    rw [List.length_append, List.length_append, h.size]
    rfl
  own i c hi := by
    rcases Nat.lt_or_ge i s.streams.length with hlt | hge
    · exact h.own i c (by rwa [List.getElem?_append_left hlt] at hi)
    · rw [List.getElem?_append_right hge] at hi
      have hzero : i - s.streams.length = 0 := by
        have hlt := (List.getElem?_eq_some_iff.mp hi).1
        rw [List.length_singleton] at hlt
        omega
      rw [hzero] at hi
      cases hi
      show s.hub.items.length = i
      rw [h.size]
      omega
  lane i c hnewest hrunning := by
    show (s.hub.subscribe agent).queuesOf c.agent = [i]
    rw [queuesOf_subscribe]
    rcases newest_connect rfl rfl hnewest with ⟨hi, hc⟩ | ⟨-, hother, hnew⟩
    · rw [hc, if_pos rfl, h.size, hi]
    · rw [if_neg hother]
      exact h.lane i c hnew hrunning

theorem Lanes.moves_connect (h : Lanes s) (agent : Str) : Moves s { s with
    hub := s.hub.subscribe agent
    streams := s.streams ++ [{ agent := agent, queue := s.hub.items.length }] } where
  events := List.prefix_rfl
  covered row hrow left hcovered i c hnewest hfor hlive := by
    rcases newest_connect rfl rfl hnewest with ⟨-, hc⟩ | ⟨hlt, -, hnew⟩
    · -- the new stream has not written its ready
      rw [hc]
      exact .inr (.inl (.inl nofun))
    · refine (hcovered i c hnew hfor hlive).imp_right fun hc => hc.imp_left fun ht => ?_
      have hitems : (s.hub.subscribe agent).itemsOf c.queue = s.hub.itemsOf c.queue := by
        show (s.hub.items ++ [[]]).getD c.queue [] = s.hub.items.getD c.queue []
        rw [List.getD_eq_getElem?_getD, List.getD_eq_getElem?_getD, List.getElem?_append_left]
        rw [h.own i c hnew.1, h.size]
        exact hlt
      unfold Triggered
      rw [hitems]
      exact ht

/-- A step of a stream keeps the lanes, and what is covered. -/
theorem streamStep_moves {act : StreamAct} (hs : Lanes s) (h : streamStep s act = some s') :
    Lanes s' ∧ Moves s s' := by
  rcases streamStep_cases hs h with ⟨i, c, c', hc⟩ | ⟨agent, rfl⟩ | ⟨q, item, rfl⟩
  · exact ⟨hc.lanes hs, hc.moves hs⟩
  · exact ⟨hs.connect agent, hs.moves_connect agent⟩
  · exact ⟨hs.put q item, moves_put s q item⟩

/-! ## The posters -/

/-- The row of an event that was inserted. -/
def HasRow (s : Station) (event : Event) : Prop := ∃ row ∈ s.db.events, rowToEvent row = .ok event

/-- What a poster has seen to. -/
def Seen (s : Station) (_ : EventArgs) : PostPhase → Prop
  | .insert (.ended (.finished (.ok event))) => HasRow s event
  | .insert (.returned (.ok event)) => HasRow s event
  | .snapshot event => HasRow s event
  | .put event left => ∃ row ∈ s.db.events, rowToEvent row = .ok event ∧ Covered s row left
  | .posted event => ∃ row ∈ s.db.events, rowToEvent row = .ok event ∧ Covered s row []
  | _ => True

theorem HasRow.moves {event : Event} (h : HasRow s event) (hm : Moves s s') : HasRow s' event := by
  obtain ⟨row, hrow, hevent⟩ := h
  exact ⟨row, hm.events.subset hrow, hevent⟩

theorem Seen.moves {a : EventArgs} {p : PostPhase} (hm : Moves s s') (h : Seen s a p) :
    Seen s' a p := by
  cases p with
  | insert p =>
    cases p with
    | start => trivial
    | ended p =>
      cases p with
      | finished result =>
        cases result with
        | ok event => exact HasRow.moves h hm
        | error e => trivial
      | _ => trivial
    | returned result =>
      cases result with
      | ok event => exact HasRow.moves h hm
      | error e => trivial
  | snapshot event => exact HasRow.moves h hm
  | put event left =>
    obtain ⟨row, hrow, hevent, hcovered⟩ := h
    exact ⟨row, hm.events.subset hrow, hevent, hm.covered row hrow left hcovered⟩
  | posted event =>
    obtain ⟨row, hrow, hevent, hcovered⟩ := h
    exact ⟨row, hm.events.subset hrow, hevent, hm.covered row hrow [] hcovered⟩
  | failed => trivial

theorem hasRow_of_own {a : EventArgs} {db : Db} {event : Event} (h : OwnEvent a db event) :
    ∃ row ∈ db.events, rowToEvent row = .ok event := by
  obtain ⟨row, hrow, hevent, -⟩ := h
  exact ⟨row, hrow, hevent⟩

theorem hasRow_of_fetch {db : Db} {id : ℕ} {event : Event} (h : getEventById db id = .ok event) :
    ∃ row ∈ db.events, rowToEvent row = .ok event := by
  unfold getEventById at h
  split at h
  · cases h
  · next row hrow => exact ⟨row, List.mem_of_find?_eq_some hrow, h⟩

theorem seen_returned {a : EventArgs} {result : Except Exn Event}
    (h : ∀ event, result = .ok event → HasRow s event) : Seen s a (afterInsert (.returned result)) := by
  cases result with
  | ok event => exact h event rfl
  | error e => trivial

/-- An event that the insertion returns has its row. -/
theorem seen_inserted {env : Env} {a : EventArgs} {now : Time} {p : Backends.CallPhase}
    (h : Seen s a (.insert p)) :
    Seen { s with db := (Backends.sqliteStep env a now s.db p).1 } a
      (afterInsert (Backends.sqliteStep env a now s.db p).2) := by
  cases p with
  | start =>
    simp only [Backends.sqliteStep]
    split_ifs with hsourced
    · obtain ⟨-, e, he⟩ := reject_cases env (Backends.atTime a now) s.db "missing_source_ref"
        "command requires source_ref"
      rw [he]
      trivial
    · rcases writeEvent_cases env (Backends.atTime a now) s.db hsourced with
        ⟨p, hp, -, hown⟩ | ⟨row, db', hp, -⟩
      · rw [hp]
        cases p with
        | finished result =>
          cases result with
          | ok event => exact hasRow_of_own (hown event rfl)
          | error e => trivial
        | _ => trivial
      · rw [hp]
        trivial
  | ended p =>
    -- whatever `finishEvent` returns is a row of the ledger
    refine seen_returned fun event hevent => ?_
    cases p with
    | finished result =>
      rw [show result = .ok event from hevent] at h
      exact h
    | fetch id => exact hasRow_of_fetch hevent
    | refetch => exact hasRow_of_own (ownEvent_of_refetch hevent)
    | rejected result message =>
      obtain ⟨-, e, he⟩ := reject_cases env (Backends.atTime a now) s.db result message
      exact absurd (he.symm.trans hevent) (by simp)
  | returned result =>
    cases result with
    | ok event => exact h
    | error e => trivial

/-- The snapshot of an event's queues has the lane of everybody it is for. -/
theorem covered_snapshot (hs : Lanes s) {event : Event} (hevent : rowToEvent row = .ok event) :
    Covered s row (if event.target = lit "*" then s.hub.allQueues
      else s.hub.queuesOf event.target) := by
  obtain ⟨_, -, rfl⟩ := rowToEvent_ok hevent
  intro i c hnewest hfor hlive
  have hlane : i ∈ s.hub.queuesOf c.agent := by
    rw [hs.lane i c hnewest hlive.1]
    exact List.mem_singleton_self i
  refine .inl ?_
  split_ifs with hall
  · exact mem_allQueues hlane
  · have htarget : row.target = c.agent := by
      simp only [forTarget, Bool.or_eq_true, decide_eq_true_eq] at hfor
      exact hfor.resolve_right hall
    show i ∈ s.hub.queuesOf row.target
    rw [htarget]
    exact hlane

/-- A queue that has been served need not be left. -/
theorem Covered.put (hs : Lanes s) {q : ℕ} {left : List ℕ} {item : Dict}
    (h : Covered s row (q :: left)) : Covered { s with hub := s.hub.put q item } row left := by
  intro i c hnewest hfor hlive
  have hnew : Newest s i c := hnewest
  rcases h i c hnew hfor hlive with hleft | htriggered | hholds
  · rcases List.mem_cons.mp hleft with rfl | hleft
    · have hqueue : c.queue = i := hs.own i c hnew.1
      have hlt : c.queue < s.hub.items.length := by
        rw [hs.size, hqueue]
        exact (List.getElem?_eq_some_iff.mp hnew.1).1
      have hserved : (s.hub.put i item).itemsOf c.queue ≠ [] := by
        rw [← hqueue]
        exact put_self_ne_nil hlt
      exact .inr (.inl (.inr (.inr (.inr hserved))))
    · exact .inl hleft
  · exact .inr (.inl htriggered.put)
  · exact .inr (.inr hholds)

theorem posts_keeps (env : Env) : (posts env).Keeps NoStreams Surroundings (fun _ _ _ _ => True)
    Lanes Seen Moves where
  refl := Moves.refl
  trans _ _ _ := Moves.trans
  init s hs := by
    obtain ⟨hqueues, hitems, hstreams⟩ := hs
    refine ⟨by rw [hitems, hstreams]; rfl, fun i c hi => ?_, fun i c hnewest => ?_⟩
    · rw [hstreams] at hi
      cases hi
    · have hi := hnewest.1
      rw [hstreams] at hi
      cases hi
  env s s' hs h := by
    rcases h with ⟨act, hact⟩ | ⟨db', hdb, rfl⟩
    · exact streamStep_moves hs hact
    · exact ⟨hs.commit db', moves_commit s hdb⟩
  start _ _ _ := trivial
  mono _ _ _ _ hm h := h.moves hm
  step s a now p hs hp _ _ := by
    cases p with
    | insert p =>
      refine ⟨hs.commit _, seen_inserted hp, moves_commit s ?_⟩
      exact (sqliteStep_later env a now s.db p).1.events
    | snapshot event =>
      obtain ⟨row, hrow, hevent⟩ := hp
      exact ⟨hs, ⟨row, hrow, hevent, covered_snapshot hs hevent⟩, .refl s⟩
    | put event left =>
      obtain ⟨row, hrow, hevent, hcovered⟩ := hp
      cases left with
      | nil => exact ⟨hs, ⟨row, hrow, hevent, hcovered⟩, .refl s⟩
      | cons q left => exact ⟨hs.put q _, ⟨row, hrow, hevent, hcovered.put hs⟩, moves_put s q _⟩
    | posted event => exact ⟨hs, hp, .refl s⟩
    | failed => exact ⟨hs, trivial, .refl s⟩

/-- The client of the newest stream of an agent has pulled what was posted for it. -/
theorem no_lost_wake (env : Env) : WakeLaw env Newest := by
  intro w hw i c hnewest hlive hquiet a event hposted hfor
  rw [show (Reachable (station env)) = Reach (station env) (onAdvance fun _ _ _ _ => True) by
    rw [onAdvance_true]] at hw
  obtain ⟨-, hcalls⟩ := (posts_keeps env).reach hw
  obtain ⟨row, -, hevent, hcovered⟩ := hcalls _ hposted
  have hrow : forTarget c.agent row = true := by
    obtain ⟨_, -, rfl⟩ := rowToEvent_ok hevent
    simp only [forTarget, Bool.or_eq_true, decide_eq_true_eq]
    exact hfor
  rcases hcovered i c hnewest hrow hlive with hleft | htriggered | hholds
  · cases hleft
  · rcases htriggered with hphase | hwire | hdue | hitems
    · exact absurd hquiet.phase hphase
    · exact absurd hquiet.wire hwire
    · rw [hquiet.client] at hdue
      cases hdue
    · exact absurd hquiet.items hitems
  · unfold Stream.Holds at hholds
    rw [hquiet.client] at hholds
    exact ⟨row, hholds, hevent⟩

/-! ## A stream that was replaced -/

/-- Steps of streams are part of a run. -/
theorem reach_acts {env : Env} {calls : List (EventArgs × PostPhase)} (acts : List StreamAct)
    (h : Reachable (station env) ⟨s, calls⟩) (hacts : acts.foldlM streamStep s = some s') :
    Reachable (station env) ⟨s', calls⟩ := by
  induction acts generalizing s with
  | nil =>
    cases hacts
    exact h
  | cons act acts ih =>
    rw [List.foldlM_cons] at hacts
    obtain ⟨s₁, hs₁, hrest⟩ := Option.bind_eq_some_iff.mp hacts
    exact ih (.step (a := .other s₁) h trivial ⟨.inl ⟨act, hs₁⟩, rfl⟩) hrest

/-- Bob's stream, ready and pulled. -/
def bobsStream : Stream where
  agent := lit "bob"
  queue := 0
  phase := .waiting

/-- A second stream of his, which is over. -/
def overStream : Stream where
  agent := lit "bob"
  queue := 1
  phase := .closed
  wire := [readyMessage (lit "bob")]
  client := .gone

/-- The first stream has lost its lane to the second, which has given it up. -/
def leftStation : Station where
  db := {}
  hub := ⟨[], [[], []]⟩
  streams := [bobsStream, overStream]

theorem leftStation_reached : [StreamAct.connect (lit "bob"), .ready 0, .receive 0, .pull 0, .pulled 0,
    .connect (lit "bob"), .ready 1, .disconnect 1, .leave 1, .unsubscribe 1].foldlM streamStep
      { db := {} } = some leftStation := rfl

/-- Alice's message to Bob. -/
def messageToBob : EventArgs where
  source := lit "alice"
  target := lit "bob"
  type := lit "message"
  payload := []
  seq := .none
  eventId := .str (lit "e1")
  createdAt := .none
  requiresAck := .bool true
  sourceRef := .none
  token := .none
  now := noon
  newId := []

/-- The first stream is quiet and has pulled nothing, the second is over, the event is posted. -/
def isStranded (w : World Station EventArgs PostPhase) : Bool :=
  match w.store.streams, w.calls with
  | [⟨agent, queue, .waiting, [], .listening, []⟩, ⟨_, _, .closed, _, _, _⟩], [(_, .posted event)] =>
    event.target = agent && (w.store.hub.itemsOf queue).isEmpty
  | _, _ => false

theorem stranded : ([0, 0, 0, 0].foldlM ((posts plainEnv).advance noon)
    ⟨leftStation, [(messageToBob, .insert .start)]⟩).map isStranded = some true := by
  decide +kernel

/-- When a stream that replaced another is over, the first one is not woken any more. -/
theorem replaced_stream_sleeps : ¬ WakeLaw plainEnv NewestLive := by
  intro hlaw
  have hempty : Reachable (station plainEnv) (⟨{ db := {} }, []⟩ : World Station _ _) :=
    .init ⟨⟨rfl, rfl, rfl⟩, rfl⟩
  have hleft : Reachable (station plainEnv) (⟨leftStation, []⟩ : World Station _ _) :=
    reach_acts _ hempty leftStation_reached
  have hcall : Reachable (station plainEnv)
      (⟨leftStation, [(messageToBob, .insert .start)]⟩ : World Station _ _) :=
    .step (a := .call messageToBob) hleft trivial rfl
  obtain ⟨w, hrun, hstranded⟩ := Option.map_eq_some_iff.mp stranded
  have hw := reach_schedule noon _ hcall hrun
  unfold isStranded at hstranded
  split at hstranded
  · next agent queue agent' queue' wire client pulled a event hstreams hcalls =>
    rw [Bool.and_eq_true, decide_eq_true_eq] at hstranded
    obtain ⟨htarget, hitems⟩ := hstranded
    have hchosen : NewestLive w.store 0 ⟨agent, queue, .waiting, [], .listening, []⟩ := by
      refine ⟨by rw [hstreams]; rfl, fun j c hj hc _ hlive => ?_⟩
      rw [hstreams] at hc
      match j, hj, hc with
      | 1, _, hc =>
        cases hc
        exact absurd hlive.1 nofun
      | j + 2, _, hc => cases hc
    have hquiet : Quiet w.store ⟨agent, queue, .waiting, [], .listening, []⟩ :=
      ⟨rfl, rfl, rfl, List.isEmpty_iff.mp hitems⟩
    obtain ⟨row, hrow, -⟩ := hlaw w hw 0 _ hchosen ⟨rfl, rfl⟩ hquiet a event
      (by rw [hcalls]; exact List.mem_singleton_self _) (.inl htarget)
    cases hrow
  · cases hstranded

end Server
end ATalk
