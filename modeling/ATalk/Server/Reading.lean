import ATalk.Lib.Cursor
import ATalk.Federation.Receive
import ATalk.Server.Backlog

/-!
# Reading an inbox

`GET /events` : the query, the token of the target, the page. A peer reads page after page and
moves `since_id` to the last id it was given, while other requests commit events and
acknowledgements.

* `getEvents` : the handler, on either backend;
* `reading` : a peer that reads, beside the runs of a ledger;
* `Complete` : what it has been given when a page is empty;
* `reads_everything` : this holds on SQLite and on rqlite.
-/

namespace ATalk
namespace Server

open Text Python Sqlite ATalk.Core Federation Checks Transition Callers

/-! ## The query -/

/-- `parse_qs(query)` : the values of each parameter; a blank one is left out. -/
structure Query where
  params : List (Str × List Str)
  filled : ∀ kv ∈ params, ∀ v ∈ kv.2, v ≠ []

/-- `first(qs, key)` -/
def first (qs : Query) (key : String) : Option Str :=
  (qs.params.lookup (lit key)).bind List.head?

/-- A request for a page: the query, the bearer token of its header, the clock. -/
structure GetRequest where
  query : Query
  bearer : Str
  now : Time

/-- `sorted(set(qs) - {"target", "since_id", "limit", "state"})` -/
def unknownParams (qs : Query) : List Str :=
  ((qs.params.map (·.1)).filter
    (· ∉ [lit "target", lit "since_id", lit "limit", lit "state"])).insertionSort (· ≤ ·)

/-- What the query parameters that nobody knows are answered with. -/
def unknownReply (qs : Query) : Option Reply :=
  match unknownParams qs with
  | [] => none
  | unknown =>
    let hint := if lit "since_seq" ∈ unknown then
      lit "; use since_id for the server event cursor" else []
    some (errorReply 400
      (lit "unknown query parameter(s): " ++ joinComma unknown ++ hint))

/-- `int(first(qs, key) or default)` -/
def intArg (qs : Query) (key : String) (default : ℤ) : Except Exn ℤ :=
  match first qs key with
  | none => .ok default
  | some s =>
    match intOfStr s with
    | some i => .ok i
    | none => .error (.value (lit "invalid literal for int() with base 10"))

/-- The arguments of `list_events`; the empty target stands for none. -/
structure EventQuery where
  target : Str
  sinceId : ℤ
  limit : ℤ
  state : Str

/-- The reads of a backend that the handler uses. -/
structure Reads where
  tokenScope : Db → Time → Str → Val → Except Exn (Option Str)
  listEvents : Db → Str → ℤ → ℤ → Str → Except Exn (List Event)

/-! ## The handler -/

/-- With authentication a target and one of its tokens. -/
def checkTarget (store : Reads) (db : Db) (r : GetRequest) : Except Exn (Option Reply) :=
  if authRequired db then
    match first r.query "target" with
    | none => .ok (some (errorReply 403 (lit "target required when authentication is enabled")))
    | some target => do
      match ← store.tokenScope db r.now target (.str r.bearer) with
      | none => return some (errorReply 403 (lit "target token rejected"))
      | some _ => return none
  else .ok none

def eventQuery (qs : Query) : Except Exn (Except Reply EventQuery) := do
  let sinceId ← intArg qs "since_id" 0
  let limit ← intArg qs "limit" 100
  if sinceId < 0 then return .error (errorReply 400 (lit "since_id must be >= 0"))
  if limit < 1 ∨ 1000 < limit then
    return .error (errorReply 400 (lit "limit must be between 1 and 1000"))
  return .ok ⟨(first qs "target").getD [], sinceId, limit, (first qs "state").getD (lit "pending")⟩

/-- The checks before the page is read: an answer of their own, or what the page is asked with. -/
def checkGet (store : Reads) (db : Db) (r : GetRequest) : Except Exn (Except Reply EventQuery) :=
  match unknownReply r.query with
  | some reply => .ok (.error reply)
  | none => do
    match ← checkTarget store db r with
    | some reply => return .error reply
    | none => eventQuery r.query

inductive GetReply where
  | refused (reply : Reply)
  /-- each of them printed by `event_to_dict` -/
  | page (events : List Event)

def readPage (store : Reads) (db : Db) (q : EventQuery) : Except Exn (List Event) :=
  store.listEvents db q.target q.sinceId q.limit q.state

/-- `do_GET` for `/events`. An exception closes the connection without an answer. -/
def getEvents (store : Reads) (db : Db) (r : GetRequest) : Except Exn GetReply := do
  match ← checkGet store db r with
  | .error reply => return .refused reply
  | .ok q => return .page (← readPage store db q)

/-! ## The two backends -/

def sqliteReads (env : Env) : Reads where
  tokenScope := tokenScope env
  listEvents := listEvents

/-- `id>?` -/
def isBehind (since : SqlVal) (row : EventRow) : Bool := !sqlLe (.int row.id) since

/-- `RaftSQLStore.list_events` -/
def raftListEvents (c : Raft.Cluster) (db : Db) (target : Str) (sinceId limit : ℤ) (state : Str) :
    Except Exn (List Event) := do
  let limit := max 1 (min limit 500)
  guardOr (target = [] ∨ state = lit "pending" ∨ state = lit "all")
    (.value (lit "state must be pending or all"))
  let since ← Raft.intParam c sinceId
  let rows := db.events.filter fun row =>
    isBehind since row && (target = [] || forTarget target row &&
      !(decide (state = lit "pending") && hasAck db row.eventId target .applied))
  (rows.take limit.toNat).mapM rowToEvent

def raftReads (c : Raft.Cluster) : Reads where
  tokenScope := Raft.tokenScope c
  listEvents := raftListEvents c

/-! ## A peer that reads -/

/-- A page a peer was given, with the ledger it was read from. -/
structure EventPage where
  db : Db
  query : EventQuery
  events : List Event

/-- The cursor after the page: the last id of it. -/
def EventPage.next (p : EventPage) : ℤ :=
  match p.events.getLast? with
  | none => p.query.sinceId
  | some event => event.id

/-- The cursor after some pages. -/
def cursorAfter (start : ℤ) (pages : List EventPage) : ℤ :=
  match pages.getLast? with
  | none => start
  | some p => p.next

/-- The events that a peer was given. -/
def given (pages : List EventPage) : List Event := pages.flatMap (·.events)

structure Reader (σ : Type) where
  world : σ
  pages : List EventPage

inductive ReaderAction (α : Type) where
  | write (a : α)
  | read (r : GetRequest) (checked : Db)

/-- The runs of a system with a ledger, and a peer that asks for its next page at any time. The
checks of the handler read the ledger in statements of their own, before the page: of what they saw
only the verdict counts. A cursor is an id, a 64-bit integer. -/
def reading {σ α : Type} (S : System σ α) (ledger : σ → Db) (store : Reads) (peer : Str)
    (start : ℤ) : System (Reader σ) (ReaderAction α) where
  init s := S.init s.world ∧ s.pages = []
  step s act s' :=
    match act with
    | .write a => ∃ w, S.step s.world a w ∧ s' = { s with world := w }
    | .read r checked => ∃ q events, checkGet store checked r = .ok (.ok q) ∧
        first r.query "target" = some peer ∧ q.sinceId = cursorAfter start s.pages ∧
        q.sinceId ≤ maxInt ∧ readPage store (ledger s.world) q = .ok events ∧
        s' = { s with pages := s.pages ++ [⟨ledger s.world, q, events⟩] }

/-- The page leaves the row out: it is for pending events, and the peer had acknowledged the event
as applied. -/
def EventPage.Hides (p : EventPage) (peer : Str) (row : EventRow) : Prop :=
  p.query.state = lit "pending" ∧ hasAck p.db row.eventId peer .applied = true

/-- When a page is empty the peer has been given, in ascending order of their ids and each once,
events for it from behind its starting cursor: all that were committed before that page but those
hidden on the page that passed them, or on the empty one. -/
def Complete {σ α : Type} (S : System σ α) (ledger : σ → Db) (store : Reads) : Prop :=
  ∀ (peer : Str) (start : ℤ) (s : Reader σ), Reachable (reading S ledger store peer start) s →
    ∀ pages p, s.pages = pages ++ [p] → p.events = [] →
      (given s.pages).Pairwise (fun e e' => e.id < e'.id) ∧
      (∀ event ∈ given s.pages, ∃ row ∈ p.db.events, rowToEvent row = .ok event ∧
        start < row.id ∧ forTarget peer row = true) ∧
      ∀ row ∈ p.db.events, start < row.id → forTarget peer row = true →
        ((∃ event ∈ given s.pages, rowToEvent row = .ok event) ↔
          ¬ ((∃ q ∈ pages, q.query.sinceId < (row.id : ℤ) ∧ (row.id : ℤ) ≤ q.next ∧
              q.Hides peer row) ∨
            p.query.sinceId < (row.id : ℤ) ∧ p.Hides peer row))

/-! ## The pages of a backend -/

/-- The place of a row in the order of its table. -/
def rowKey (row : EventRow) : ℤ := row.id

/-- What a page shows a peer. -/
def shownTo (peer : Str) (db : Db) (state : Str) (row : EventRow) : Bool :=
  forTarget peer row && !(decide (state = lit "pending") && hasAck db row.eventId peer .applied)

/-- The number of rows a page may hold. -/
def pageSize (limit : ℤ) : ℕ := (max 1 (min limit 500)).toNat

/-- The rows a page is made from. -/
def EventPage.rows (peer : Str) (p : EventPage) : List EventRow :=
  (p.db.events.filter fun row => decide (p.query.sinceId < rowKey row) &&
    shownTo peer p.db p.query.state row).take (pageSize p.query.limit)

/-- A page as one of the log of events. -/
def EventPage.toPage (peer : Str) (p : EventPage) : Cursor.Page EventRow ℤ where
  log := p.db.events
  since := p.query.sinceId
  shown := shownTo peer p.db p.query.state
  rows := p.rows peer

/-- What a backend answers a peer comes from the rows of its page. -/
def Selects (store : Reads) : Prop :=
  ∀ db q events, q.target ≠ [] → 0 ≤ q.sinceId → q.sinceId ≤ maxInt →
    readPage store db q = .ok events →
      (EventPage.rows q.target ⟨db, q, events⟩).mapM rowToEvent = .ok events

theorem readPage_sqlite {env : Env} {db : Db} {q : EventQuery} {events : List Event}
    (htarget : q.target ≠ []) (h : readPage (sqliteReads env) db q = .ok events) :
    (EventPage.rows q.target ⟨db, q, events⟩).mapM rowToEvent = .ok events := by
  simp only [readPage, sqliteReads, listEvents, bind_eq_ok] at h
  obtain ⟨_, -, _, -, _, -, h⟩ := h
  have hsame : selectEvents db q.target q.sinceId (q.state = lit "pending") =
      db.events.filter fun row => decide (q.sinceId < rowKey row) &&
        shownTo q.target db q.state row := by
    unfold selectEvents
    simp only [htarget, decide_false, Bool.false_or]
    rfl
  rw [hsame] at h
  exact h

theorem selects_sqlite (env : Env) : Selects (sqliteReads env) := by
  intro db q events htarget _ _ h
  exact readPage_sqlite htarget h

theorem selects_raft (c : Raft.Cluster) : Selects (raftReads c) := by
  intro db q events htarget hmin hmax h
  simp only [readPage, raftReads, raftListEvents, bind_eq_ok] at h
  obtain ⟨_, -, since, hsince, h⟩ := h
  have hlow : minInt ≤ q.sinceId := by
    unfold minInt
    omega
  unfold Raft.intParam at hsince
  rw [if_pos ⟨hlow, hmax⟩] at hsince
  cases hsince
  have hsame : (db.events.filter fun row => isBehind (.int q.sinceId) row &&
      (decide (q.target = []) || forTarget q.target row &&
        !(decide (q.state = lit "pending") && hasAck db row.eventId q.target .applied))) =
      db.events.filter fun row => decide (q.sinceId < rowKey row) &&
        shownTo q.target db q.state row := by
    refine List.filter_congr fun row _ => ?_
    have hbehind : isBehind (.int q.sinceId) row = decide (q.sinceId < rowKey row) := by
      rw [isBehind, sqlLe_int, Bool.eq_iff_iff]
      simp only [Bool.not_eq_true', decide_eq_false_iff_not, not_le, decide_eq_true_eq]
      rfl
    simp only [hbehind, htarget, decide_false, Bool.false_or]
    rfl
  rw [hsame] at h
  exact h

/-- The query of a page names its peer, and its cursor is no negative number. -/
theorem checkGet_query {store : Reads} {db : Db} {r : GetRequest} {q : EventQuery} {peer : Str}
    (h : checkGet store db r = .ok (.ok q)) (hpeer : first r.query "target" = some peer) :
    q.target = peer ∧ 0 ≤ q.sinceId := by
  unfold checkGet at h
  split at h
  · cases h
  · obtain ⟨refused, -, h⟩ := bind_eq_ok.mp h
    cases refused with
    | some reply => cases h
    | none =>
      simp only [eventQuery, bind_eq_ok] at h
      obtain ⟨since, -, limit, -, h⟩ := h
      split_ifs at h with hneg
      · cases h
      · cases h
      · cases h
        rw [hpeer]
        exact ⟨rfl, not_lt.mp hneg⟩

/-- The query of a page, from its parameters. -/
theorem checkGet_asks {store : Reads} {db : Db} {r : GetRequest} {q : EventQuery} {peer : Str}
    {since limit : ℤ} (h : checkGet store db r = .ok (.ok q))
    (hpeer : first r.query "target" = some peer) (hsince : intArg r.query "since_id" 0 = .ok since)
    (hlimit : intArg r.query "limit" 100 = .ok limit) :
    q = ⟨peer, since, limit, (first r.query "state").getD (lit "pending")⟩ := by
  unfold checkGet at h
  split at h
  · cases h
  · obtain ⟨refused, -, h⟩ := bind_eq_ok.mp h
    cases refused with
    | some reply => cases h
    | none =>
      simp only [eventQuery, bind_eq_ok, hpeer] at h
      obtain ⟨_, hs, _, hl, h⟩ := h
      cases hsince.symm.trans hs
      cases hlimit.symm.trans hl
      split_ifs at h with hneg
      · cases h
      · cases h
      · exact (Except.ok.inj (Except.ok.inj h)).symm

theorem first_ne_nil {qs : Query} {key : String} {s : Str} (h : first qs key = some s) : s ≠ [] := by
  obtain ⟨values, hvalues, hhead⟩ := Option.bind_eq_some_iff.mp h
  obtain ⟨front, rest, hparams, -⟩ := List.lookup_eq_some_iff.mp hvalues
  have hmem : (lit key, values) ∈ qs.params := by
    rw [hparams]
    exact List.mem_append_right _ List.mem_cons_self
  exact qs.filled _ hmem s (List.mem_of_head? hhead)

/-! ## Rows and events -/

/-- The event is decoded from the row. -/
def Decoded (row : EventRow) (event : Event) : Prop := rowToEvent row = .ok event

theorem Decoded.id {row : EventRow} {event : Event} (h : Decoded row event) : event.id = row.id := by
  obtain ⟨_, -, rfl⟩ := rowToEvent_ok h
  rfl

theorem decoded_of_mapM {rows : List EventRow} {events : List Event}
    (h : rows.mapM rowToEvent = .ok events) : List.Forall₂ Decoded rows events := by
  induction rows generalizing events with
  | nil =>
    cases h
    exact .nil
  | cons row rows ih =>
    rw [List.mapM_cons] at h
    obtain ⟨event, hevent, h⟩ := bind_eq_ok.mp h
    obtain ⟨rest, hrest, h⟩ := bind_eq_ok.mp h
    cases h
    exact .cons hevent (ih hrest)

theorem ids_of_decoded {rows : List EventRow} {events : List Event}
    (h : List.Forall₂ Decoded rows events) : events.map (·.id) = rows.map (·.id) := by
  induction h with
  | nil => rfl
  | cons hrow _ ih => rw [List.map_cons, List.map_cons, hrow.id, ih]

theorem exists_row_of_mem {rows : List EventRow} {events : List Event} {event : Event}
    (h : List.Forall₂ Decoded rows events) (hevent : event ∈ events) :
    ∃ row ∈ rows, Decoded row event := by
  induction h with
  | nil => cases hevent
  | cons hrow _ ih =>
    rcases List.mem_cons.mp hevent with rfl | hevent
    · exact ⟨_, List.mem_cons_self, hrow⟩
    · obtain ⟨row, hmem, hdecoded⟩ := ih hevent
      exact ⟨row, List.mem_cons_of_mem _ hmem, hdecoded⟩

theorem exists_event_of_mem {rows : List EventRow} {events : List Event} {row : EventRow}
    (h : List.Forall₂ Decoded rows events) (hrow : row ∈ rows) :
    ∃ event ∈ events, Decoded row event := by
  induction h with
  | nil => cases hrow
  | cons hhead _ ih =>
    rcases List.mem_cons.mp hrow with rfl | hrow
    · exact ⟨_, List.mem_cons_self, hhead⟩
    · obtain ⟨event, hmem, hdecoded⟩ := ih hrow
      exact ⟨event, List.mem_cons_of_mem _ hmem, hdecoded⟩

/-- The cursor after a page of events is the one after the page of rows. -/
theorem next_of_decoded {peer : Str} {p : EventPage}
    (h : List.Forall₂ Decoded (p.rows peer) p.events) : p.next = (p.toPage peer).next rowKey := by
  have hids : p.events.getLast?.map (·.id) = (p.toPage peer).rows.getLast?.map (·.id) := by
    rw [← List.getLast?_map, ← List.getLast?_map]
    exact congrArg List.getLast? (ids_of_decoded h)
  unfold EventPage.next Cursor.Page.next
  cases hevent : p.events.getLast? with
  | none =>
    cases hrow : (p.toPage peer).rows.getLast? with
    | none => rfl
    | some row =>
      rw [hevent, hrow] at hids
      cases hids
  | some event =>
    cases hrow : (p.toPage peer).rows.getLast? with
    | none =>
      rw [hevent, hrow] at hids
      cases hids
    | some row =>
      rw [hevent, hrow] at hids
      exact congrArg Int.ofNat (Option.some.inj hids)

/-- The events of all pages are decoded from the rows of all pages. -/
theorem given_decoded {peer : Str} {pages : List EventPage}
    (h : ∀ p ∈ pages, List.Forall₂ Decoded (p.rows peer) p.events) :
    List.Forall₂ Decoded (Cursor.returned (pages.map (EventPage.toPage peer))) (given pages) := by
  induction pages with
  | nil => exact .nil
  | cons p pages ih =>
    have hp := h p List.mem_cons_self
    have hpages := ih fun q hq => h q (List.mem_cons_of_mem _ hq)
    exact List.rel_append hp hpages

/-! ## The runs -/

/-- Events are added at the end of their table, with higher ids. -/
structure Adds (db db' : Db) : Prop where
  events : db.events <+: db'.events
  ascending : Cursor.Ascending rowKey db.events → Cursor.Ascending rowKey db'.events
  positive : (∀ row ∈ db.events, 0 < row.id) → ∀ row ∈ db'.events, 0 < row.id

theorem Adds.refl (db : Db) : Adds db db := ⟨List.prefix_rfl, id, id⟩

theorem Adds.trans {db db' db'' : Db} (h : Adds db db') (h' : Adds db' db'') : Adds db db'' :=
  ⟨h.events.trans h'.events, fun hdb => h'.ascending (h.ascending hdb), fun hdb =>
    h'.positive (h.positive hdb)⟩

theorem Adds.of_eq {db db' : Db} (h : db'.events = db.events) : Adds db db' :=
  ⟨h ▸ List.prefix_rfl, fun hdb => h ▸ hdb, fun hdb => h ▸ hdb⟩

theorem Adds.append {db db' : Db} {row : EventRow} (h : db'.events = db.events ++ [row])
    (hid : row.id = nextId (db.events.map (·.id))) : Adds db db' := by
  refine ⟨h ▸ List.prefix_append _ _, fun hdb => ?_, fun hdb new hnew => ?_⟩
  · rw [h]
    refine hdb.append_one fun old hold => ?_
    have hlt : old.id < row.id := hid ▸ lt_nextId (List.mem_map_of_mem hold)
    show (old.id : ℤ) < row.id
    omega
  · rw [h] at hnew
    rcases List.mem_append.mp hnew with hnew | hnew
    · exact hdb new hnew
    · rw [List.mem_singleton.mp hnew, hid]
      exact Nat.succ_pos _

section
variable {σ α : Type} {S : System σ α} {ledger : σ → Db} {store : Reads} {peer : Str} {start : ℤ}
  {s : Reader σ}

/-- What the pages of a peer are, in every run. -/
structure Paged (ledger : σ → Db) (peer : Str) (start : ℤ) (s : Reader σ) : Prop where
  reads : Cursor.Reads rowKey start (s.pages.map (EventPage.toPage peer)) (ledger s.world).events
  decoded : ∀ p ∈ s.pages, List.Forall₂ Decoded (p.rows peer) p.events

theorem Paged.cursor (h : Paged ledger peer start s) :
    cursorAfter start s.pages = Cursor.cursor rowKey start (s.pages.map (EventPage.toPage peer)) := by
  unfold cursorAfter Cursor.cursor
  rw [List.getLast?_map]
  cases hlast : s.pages.getLast? with
  | none => rfl
  | some p => exact next_of_decoded (h.decoded p (List.mem_of_getLast? hlast))

theorem paged_of_reach (hstore : Selects store)
    (hinit : ∀ w, S.init w → Cursor.Ascending rowKey (ledger w).events)
    (hstep : ∀ w a w', S.step w a w' → Adds (ledger w) (ledger w'))
    (h : Reachable (reading S ledger store peer start) s) : Paged ledger peer start s := by
  refine h.invariant (fun s hs => ?_) fun s act s' hs _ hact => ?_
  · refine ⟨?_, ?_⟩
    · rw [hs.2]
      exact .start (hinit _ hs.1)
    · rw [hs.2]
      exact nofun
  · cases act with
    | write a =>
      obtain ⟨w, hw, rfl⟩ := hact
      have hadds := hstep _ _ _ hw
      exact ⟨hs.reads.grow hadds.events (hadds.ascending hs.reads.log_ascending), hs.decoded⟩
    | read r checked =>
      obtain ⟨q, events, hq, hpeer, hsince, hmax, hpage, rfl⟩ := hact
      obtain ⟨rfl, hmin⟩ := checkGet_query hq hpeer
      have hrows := hstore _ q events (first_ne_nil hpeer) hmin hmax hpage
      refine ⟨?_, fun p hp => ?_⟩
      · rw [List.map_append, List.map_singleton]
        refine hs.reads.page rfl (hsince.trans hs.cursor) ⟨pageSize q.limit, ?_, rfl⟩
        unfold pageSize
        omega
      · rcases List.mem_append.mp hp with hp | hp
        · exact hs.decoded p hp
        · rw [List.mem_singleton.mp hp]
          exact decoded_of_mapM hrows

theorem not_shown_iff {peer : Str} {p : EventPage} {row : EventRow}
    (hfor : forTarget peer row = true) :
    (p.toPage peer).shown row = false ↔ p.Hides peer row := by
  show shownTo peer p.db p.query.state row = false ↔ _
  simp only [shownTo, hfor, Bool.true_and, Bool.not_eq_false', Bool.and_eq_true, decide_eq_true_eq,
    EventPage.Hides]

/-- A ledger whose events only grow loses nothing to a peer that reads. -/
theorem complete_of_adds (hstore : Selects store)
    (hinit : ∀ w, S.init w → Cursor.Ascending rowKey (ledger w).events)
    (hstep : ∀ w a w', S.step w a w' → Adds (ledger w) (ledger w')) : Complete S ledger store := by
  intro peer start s hs pages p hpages hempty
  have hpaged := paged_of_reach hstore hinit hstep hs
  have hgiven := given_decoded hpaged.decoded
  have hreads := hpaged.reads
  have hprows : p.rows peer = [] := by
    have hp := hpaged.decoded p (hpages ▸ List.mem_append_right _ (List.mem_singleton_self _))
    rw [hempty] at hp
    exact List.forall₂_nil_right_iff.mp hp
  have hplog : p.db.events <+: (ledger s.world).events := by
    have hmem : p.toPage peer ∈ s.pages.map (EventPage.toPage peer) := by
      rw [hpages, List.map_append]
      exact List.mem_append_right _ List.mem_cons_self
    exact (hreads.mem_pages _ hmem).1
  -- an event that was given belongs to one row
  have hiff : ∀ row ∈ p.db.events, (∃ event ∈ given s.pages, rowToEvent row = .ok event) ↔
      row ∈ Cursor.returned (s.pages.map (EventPage.toPage peer)) := by
    refine fun row hrow => ⟨fun ⟨event, hevent, hdecoded⟩ => ?_, fun hmem => ?_⟩
    · obtain ⟨row', hrow', hdecoded'⟩ := exists_row_of_mem hgiven hevent
      have hkey : rowKey row' = rowKey row :=
        congrArg Int.ofNat (hdecoded'.id.symm.trans (Decoded.id hdecoded))
      have hsame := hreads.log_ascending.eq_of_key (hreads.returned_mem row' hrow').1
        (hplog.subset hrow) hkey
      exact hsame ▸ hrow'
    · exact exists_event_of_mem hgiven hmem
  refine ⟨?_, fun event hevent => ?_, fun row hrow hstart hfor => ?_⟩
  · have hrows : (Cursor.returned (s.pages.map (EventPage.toPage peer))).map (·.id) |>.Pairwise
        (· < ·) := by
      refine List.pairwise_map.mpr (hreads.ascending.imp fun {x y} hlt => ?_)
      have hids : (x.id : ℤ) < y.id := hlt
      omega
    rw [← ids_of_decoded hgiven] at hrows
    exact List.pairwise_map.mp hrows
  · obtain ⟨row, hrow, hdecoded⟩ := exists_row_of_mem hgiven hevent
    obtain ⟨page, hpage, hmem⟩ := List.mem_flatMap.mp hrow
    have hshown := ((hreads.mem_pages _ hpage).2.mem hmem).2.2
    have hbehind := (hreads.returned_mem row hrow).2.1
    obtain ⟨q, -, rfl⟩ := List.mem_map.mp hpage
    rw [hpages, List.map_append, List.map_singleton] at hreads hrow
    refine ⟨row, hreads.returned_mem_last row hrow, hdecoded, hbehind, ?_⟩
    exact (Bool.and_eq_true_iff.mp hshown).1
  · rw [hiff row hrow]
    rw [hpages, List.map_append, List.map_singleton] at hreads ⊢
    rw [hreads.complete hprows hrow hstart, not_shown_iff hfor]
    refine not_congr (or_congr ⟨?_, ?_⟩ Iff.rfl)
    · rintro ⟨page, hpage, ⟨hsince, hle⟩, hhides⟩
      obtain ⟨q, hq, rfl⟩ := List.mem_map.mp hpage
      have hnext := next_of_decoded (hpaged.decoded q (hpages ▸ List.mem_append_left _ hq))
      exact ⟨q, hq, hsince, hnext ▸ hle, (not_shown_iff hfor).mp hhides⟩
    · rintro ⟨q, hq, hsince, hle, hhides⟩
      have hnext := next_of_decoded (hpaged.decoded q (hpages ▸ List.mem_append_left _ hq))
      exact ⟨_, List.mem_map_of_mem hq, ⟨hsince, hnext ▸ hle⟩, (not_shown_iff hfor).mpr hhides⟩

end

/-! ## SQLite -/

/-- What else commits to the ledger of a server: an event from abroad, or a request that writes
neither events nor acknowledgements. -/
def OtherCommits (env : Env) (db db' : Db) : Prop :=
  OtherTables db db' ∨ ∃ p now res, receiveEvent env db p now = .ok (db', res)

/-- The handlers of a server, statement by statement. -/
abbrev server (cfg : ServerConfig) :
    System (World Db (Request ⊕ AckCall) (EventPhase ⊕ AckPhase))
      (Callers.Action Db (Request ⊕ AckCall) Time) :=
  callers ((eventCalls cfg).either (ackCalls cfg)) (fun db => Cursor.Ascending rowKey db.events)
    (OtherCommits cfg.env)

variable {cfg : ServerConfig} {db db' : Db}

theorem eventStep_adds (cfg : ServerConfig) (r : Request) (now : Time) (db : Db) (p : EventPhase) :
    Adds db (eventStep cfg r now db p).1 := by
  rcases (eventStep_later cfg r now db p).2 with hsame | ⟨a, row, -, -, -, hid, hevents⟩
  · exact .of_eq hsame
  · exact .append hevents hid

theorem receiveEvent_adds {env : Env} {p : InboundParams} {now : Time} {res : Received}
    (h : receiveEvent env db p now = .ok (db', res)) : Adds db db' := by
  rcases receiveEvent_cases h with ⟨-, hs⟩ | ⟨_, -, -, -, rfl⟩ | ⟨_, _, -, rfl⟩
  · obtain ⟨seq, hevents⟩ := hs.event
    exact .append hevents rfl
  · exact .refl _
  · exact .of_eq rfl

theorem server_adds {w w' : World Db (Request ⊕ AckCall) (EventPhase ⊕ AckPhase)}
    {act : Callers.Action Db (Request ⊕ AckCall) Time} (h : (server cfg).step w act w') :
    Adds w.store w'.store := by
  cases act with
  | call c =>
    cases h
    exact .refl _
  | other store =>
    obtain ⟨henv, rfl⟩ := h
    rcases henv with hsame | ⟨p, now, res, hreceive⟩
    · exact .of_eq hsame.1
    · exact receiveEvent_adds hreceive
  | advance i now =>
    obtain ⟨c, p, -, -, rfl⟩ := h
    match c, p with
    | .inl r, .inl p => exact eventStep_adds cfg r now w.store p
    | .inr r, .inr p => exact .of_eq (ackStep_later cfg r now w.store p).2
    | .inl r, .inr p => exact .refl _
    | .inr r, .inl p => exact .refl _

/-! ## rqlite -/

/-- A statement adds one event, or none. -/
theorem exec_adds {c : Raft.Cluster} {s : Raft.Stmt} {id : Option ℕ}
    (h : Raft.exec c db s = .ok (db', id)) : Adds db db' := by
  have hinsert : ∀ v seq, Adds db (Raft.insertOrIgnore db v seq) := by
    intro v seq
    unfold Raft.insertOrIgnore
    split_ifs
    · exact .refl db
    · exact .append rfl rfl
  cases s with
  | insertCounted values guard =>
    simp only [Raft.exec] at h
    split at h
    · cases h
      split_ifs
      · exact hinsert _ _
      · exact .refl db
    · cases h
      exact .refl db
  | insertNumbered values seq guard =>
    cases h
    split_ifs
    · exact hinsert _ _
    · exact .refl db
  | _ =>
    simp only [Raft.exec, Raft.done] at h
    repeat' split at h
    all_goals cases h
    all_goals exact .of_eq rfl

theorem execAll_adds {c : Raft.Cluster} {ss : List Raft.Stmt} {ids : List (Option ℕ)}
    (h : Raft.execAll c db ss = .ok (db', ids)) : Adds db db' := by
  induction ss generalizing db ids with
  | nil =>
    cases h
    exact .refl _
  | cons s ss ih =>
    obtain ⟨db₁, id, rest, hfirst, hrest, -⟩ := Raft.execAll_cons h
    exact (exec_adds hfirst).trans (ih hrest)

/-! ## The law -/

/-- A peer that reads page after page loses nothing, on either backend. -/
theorem reads_everything :
    (∀ cfg : ServerConfig, Complete (server cfg) (·.store) (sqliteReads cfg.env)) ∧
    ∀ c : Raft.Cluster, Complete (Raft.cluster c) id (raftReads c) := by
  refine ⟨fun cfg => ?_, fun c => ?_⟩
  · exact complete_of_adds (selects_sqlite cfg.env) (fun _ hw => hw.1) fun _ _ _ => server_adds
  · refine complete_of_adds (selects_raft c) (fun _ hw => ?_) fun _ _ _ ⟨_, hexec⟩ =>
      execAll_adds hexec
    have hempty : id _ = ({} : Db) := hw
    rw [hempty]
    exact List.Pairwise.nil

end Server
end ATalk
