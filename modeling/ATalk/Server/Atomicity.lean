import ATalk.Lib.Transition
import ATalk.Federation.Receive
import ATalk.Server.TargetAcl

/-!
# Atomic writes and readable rows

A local write that is not answered with a 201 should leave the ledger as it was, and every row
should be readable. Both hold of every run in which no request spoils the ledger: the sequence
number of the caller may be a value that the INTEGER column keeps and `int` does not read, and
then the row is committed before reading it raises.

* `Spoils` : a request that commits such a row;
* `ledger` : the runs of a server over its ledger;
* `atomic_and_readable` : the run theorem, with the converse for the last request.
-/

namespace ATalk
namespace Server

open Text Python Sqlite ATalk.Core Federation Checks Transition

/-! ## What should hold -/

/-- A write that is not answered with a 201 leaves a reject row at most. -/
def Atomic (db : Db) (res : Db × Reply) : Prop := res.2.status ≠ 201 → RejectOnly db res.1

/-- Every row decodes, and listing raises for its own arguments only. -/
structure Readable (db : Db) : Prop where
  rows : ∀ row ∈ db.events, ∃ event, rowToEvent row = .ok event
  lists : ∀ target sinceId limit state, Clean target → minInt ≤ sinceId → sinceId ≤ maxInt →
    (target = [] ∨ state = lit "pending" ∨ state = lit "all") →
    ∃ events, listEvents db target sinceId limit state = .ok events

variable {env : Env} {cfg : ServerConfig} {db db' : Db} {r : Request} {a : EventArgs}

theorem mapM_rowToEvent {rows : List EventRow}
    (h : ∀ row ∈ rows, ∃ event, rowToEvent row = .ok event) :
    ∃ events, rows.mapM rowToEvent = .ok events := by
  induction rows with
  | nil => exact ⟨[], rfl⟩
  | cons row rows ih =>
    obtain ⟨event, hrow⟩ := h row (List.mem_cons_self ..)
    obtain ⟨events, hrows⟩ := ih fun row hmem => h row (List.mem_cons_of_mem _ hmem)
    exact ⟨event :: events, by rw [List.mapM_cons, hrow, ok_bind, hrows, ok_bind]; rfl⟩

/-- Rows that decode can be listed. -/
theorem Readable.of_rows (h : ∀ row ∈ db.events, ∃ event, rowToEvent row = .ok event) :
    Readable db where
  rows := h
  lists target sinceId limit state htarget hmin hmax hstate := by
    have hrows : ∀ row ∈ (selectEvents db target sinceId (state = lit "pending")).take
        (max 1 (min limit 500)).toNat, ∃ event, rowToEvent row = .ok event := fun row hmem =>
      h row (List.mem_of_mem_filter (List.mem_of_mem_take hmem))
    obtain ⟨events, hevents⟩ := mapM_rowToEvent hrows
    refine ⟨events, ?_⟩
    unfold listEvents
    rw [guardOr_pos hstate, strParam, guardOr_pos htarget, guardOr_pos ⟨hmin, hmax⟩]
    exact hevents

theorem rowToEvent_of_intOf {row : EventRow} {i : ℤ} (h : intOf row.seq = .ok i) :
    ∃ event, rowToEvent row = .ok event := by
  unfold rowToEvent
  rw [h]
  exact ⟨_, rfl⟩

/-! ## A request that spoils the ledger -/

/-- A call that reaches the insert and passes it, with a sequence number of its own that `int`
does not read back. -/
structure Spoiling (env : Env) (db : Db) (a : EventArgs) (actor : Option Str) (k : Str)
    (seq : SqlVal) (created : Str) (ref : Option Str) : Prop where
  sourced : ¬ (a.type = lit "command" ∧ a.sourceRef.truthy = false)
  fresh : findEvent db (some k) = none
  verdict : authorize env db a = .ok (.allowed actor)
  given : a.seq ≠ .none
  params : rowParams env a a.seq = .ok ⟨some k, seq, some created, ref⟩
  notNull : seq ≠ .null
  free : ∀ row ∈ db.events, row.source = a.source → sqlEq row.seq seq = false
  unread : ∀ i, intOf seq ≠ .ok i

/-- A request whose local write is such a call. -/
def Spoils (cfg : ServerConfig) (db : Db) (r : Request) : Prop :=
  ∃ a actor k seq created ref, checkEvent cfg db r = .ok a ∧ route cfg a.target = none ∧
    PassesGate cfg db r a ∧ Spoiling cfg.env db a actor k seq created ref

/-- A spoiling call commits its row, and then cannot read it. -/
theorem Spoiling.insertEvent {actor : Option Str} {k created : Str} {seq : SqlVal}
    {ref : Option Str} (h : Spoiling env db a actor k seq created ref) :
    (insertEvent env a db).1.events = db.events ++ [eventRow db a actor k seq created ref] ∧
      ∃ e, (insertEvent env a db).2 = .error e := by
  have hread : ∃ e, rowToEvent (eventRow db a actor k seq created ref) = .error e := by
    unfold rowToEvent
    cases hseq : intOf (eventRow db a actor k seq created ref).seq with
    | error e => exact ⟨e, rfl⟩
    | ok i => exact absurd hseq (h.unread i)
  rcases insertEvent_cases env a db with ⟨hdb, -⟩ | ⟨row, hc, hres⟩
  · -- the transaction commits, so the outcome with a reject row is impossible
    exfalso
    have hcommit : ∃ q, commitEvent env db a actor = (q, .fetch (nextId (db.events.map (·.id)))) ∧
        q.events = db.events ++ [eventRow db a actor k seq created ref] := by
      unfold commitEvent
      rw [allocate_given env db h.given]
      simp only [h.params, insertRow_of_free h.notNull h.fresh h.free]
      refine ⟨_, rfl, ?_⟩
      split_ifs <;> rfl
    obtain ⟨q, hq, hev⟩ := hcommit
    have hwrite : writeEvent env a db = (q, .fetch (nextId (db.events.map (·.id)))) := by
      unfold writeEvent
      rw [textParam_of_rowParams h.params]
      simp only [h.fresh, h.verdict, hq]
    have hlen := congrArg List.length hdb.events
    unfold Core.insertEvent at hlen
    rw [if_neg h.sourced, hwrite] at hlen
    simp only [finishEvent, hev, List.length_append, List.length_singleton] at hlen
    omega
  · obtain ⟨db₁, seqVal, halloc, hparams, -⟩ := hc.slot
    rw [allocate_given env db h.given, Except.ok.injEq, Prod.mk.injEq] at halloc
    obtain ⟨-, rfl⟩ := halloc
    rw [h.params, Except.ok.injEq, RowParams.mk.injEq] at hparams
    obtain ⟨hk, hseq, hcr, href⟩ := hparams
    have hactor := hc.verdict
    rw [h.verdict, Except.ok.injEq, Verdict.allowed.injEq] at hactor
    have hrow : row = eventRow db a actor k seq created ref := by
      rw [hc.columns, ← hactor, ← Option.some.inj hk, ← hseq, ← Option.some.inj hcr, ← href]
    rw [hres, hc.events, hrow]
    exact ⟨rfl, hread⟩

/-- A request that spoils the ledger is answered with an error, and its row stays. -/
theorem Spoils.postEvents (h : Spoils cfg db r) :
    (postEvents cfg db r).2.status ≠ 201 ∧
      ¬ RejectOnly db (postEvents cfg db r).1 := by
  obtain ⟨a, actor, k, seq, created, ref, hcheck, hroute, hgate, hs⟩ := h
  obtain ⟨hev, e, he⟩ := hs.insertEvent
  have hpost : Server.postEvents cfg db r = ((Core.insertEvent cfg.env a db).1, exnReply e) := by
    unfold Server.postEvents
    simp only [hcheck, hroute]
    rw [localEvent_of_passesGate hgate]
    split
    · next db' e' heq =>
      rw [heq] at he
      rw [heq, Except.error.inj he]
    · next db' event heq =>
      rw [heq] at he
      cases he
  rw [hpost]
  refine ⟨exnReply_status_ne e, fun hr => ?_⟩
  have hlen := congrArg List.length hr.events
  rw [hev, List.length_append, List.length_singleton] at hlen
  omega

/-- A committed row that `int` does not read was spoiled by its request. -/
theorem Committed.spoiling {row : EventRow} (h : Committed env a db row db')
    (hunread : ∀ i, intOf row.seq ≠ .ok i) :
    Spoiling env db a row.authActor row.eventId row.seq row.createdAt row.sourceRef := by
  obtain ⟨db₁, seqVal, halloc, hparams, -⟩ := h.slot
  have hgiven : a.seq ≠ .none := by
    intro hn
    -- a number the server counts is bound as an integer
    unfold allocate at halloc
    rw [hn] at halloc
    simp only [bind_eq_ok, pure_eq_ok, Prod.exists, Prod.mk.injEq] at halloc
    obtain ⟨_, n, -, -, rfl⟩ := halloc
    simp only [rowParams, bind_eq_ok, pure_eq_ok, RowParams.mk.injEq] at hparams
    obtain ⟨_, -, _, -, _, -, _, -, seq, hseq, _, -, _, -, _, -, -, rfl, -⟩ := hparams
    simp only [integerParam, Sqlite.bind] at hseq
    split at hseq
    · cases hseq
    · next x hx =>
      split_ifs at hx
      cases hx
      exact hunread n (by rw [← Except.ok.inj hseq]; rfl)
  rw [allocate_given env db hgiven, Except.ok.injEq, Prod.mk.injEq] at halloc
  obtain ⟨-, rfl⟩ := halloc
  exact ⟨h.sourced, h.fresh, h.verdict, hgiven, hparams, h.notNull, h.free, hunread⟩

/-! ## Runs -/

inductive Action where
  | post (cfg : ServerConfig) (r : Request)
  | ack (env : Env) (fed : Runtime) (r : AckRequest) (path : AckPath)
  | inbox (env : Env) (fed : Runtime) (limits : RateLimits) (raw : Bytes) (now : Time)
  | other (db : Db)

/-- The runs of a server: posts, acknowledgements, inbound events, and any change of the tables
besides events, counters and acknowledgements. -/
def ledger : System Db Action where
  init db := db.events = [] ∧ db.sourceCounters = [] ∧ db.acks = []
  step db act db' :=
    match act with
    | .post cfg r => db' = (postEvents cfg db r).1
    | .ack env fed r path => ackWrite env fed db r path = .ok db'
    | .inbox env fed limits raw now => db' = (federationInbox env fed db limits raw now).1
    | .other db₁ => db' = { db₁ with
        events := db.events, sourceCounters := db.sourceCounters, acks := db.acks }

/-- No post of the run spoils the ledger. -/
def Unspoiled (db : Db) : Action → Prop
  | .post cfg r => ¬ Spoils cfg db r
  | _ => True

theorem writeAck_events {eventId agentId : Option Str} {ackType : AckType} {now : Time}
    {detail : Val} (h : writeAck db eventId agentId ackType now detail = .ok db') :
    db'.events = db.events := by
  unfold writeAck at h
  split at h
  · split_ifs at h
    cases h
    rfl
  · cases h

theorem ackWrite_events {fed : Runtime} {q : AckRequest} {path : AckPath}
    (h : ackWrite env fed db q path = .ok db') : db'.events = db.events := by
  cases path with
  | localPath =>
    simp only [ackWrite, ackEvent, bind_eq_ok] at h
    obtain ⟨_, -, _, -, _, -, _, -, h⟩ := h
    exact writeAck_events h
  | federated inb eventId agentId ackType sigHash =>
    simp only [ackWrite, ackWithReceiptIntent, bind_eq_ok] at h
    obtain ⟨_, -, db₁, hdb₁, h⟩ := h
    rw [← writeAck_events hdb₁]
    split_ifs at h <;> (cases h; rfl)

/-- A row appended to readable rows. -/
theorem readable_append {row : EventRow} (hdb : Readable db) (hev : db'.events = db.events ++ [row])
    (hrow : ∃ event, rowToEvent row = .ok event) : Readable db' := by
  refine .of_rows fun row' hmem => ?_
  rw [hev, List.mem_append, List.mem_singleton] at hmem
  rcases hmem with hmem | rfl
  · exact hdb.rows _ hmem
  · exact hrow

theorem readable_of_events (hdb : Readable db) (hev : db'.events = db.events) : Readable db' :=
  .of_rows fun row hmem => hdb.rows row (hev ▸ hmem)

/-- A post that spoils nothing is atomic and keeps the rows readable. -/
theorem postEvents_readable (hdb : Readable db) (hok : ¬ Spoils cfg db r) :
    Atomic db (postEvents cfg db r) ∧ Readable (postEvents cfg db r).1 := by
  rcases postEvents_cases cfg db r with hr | ⟨a, row, hcheck, hroute, hgate, hc, hreply⟩ |
    ⟨a, fed, family, s, raw, -, -, -, -, hout⟩
  · exact ⟨fun _ => hr, readable_of_events hdb hr.events⟩
  · have hread : ∃ seq, intOf row.seq = .ok seq := by
      by_contra hunread
      rw [not_exists] at hunread
      exact hok ⟨a, _, _, _, _, _, hcheck, hroute, hgate, Committed.spoiling hc hunread⟩
    refine ⟨fun hne => absurd ?_ hne, readable_append hdb hc.events ?_⟩
    · rw [hreply]
      exact rowReply_status.mpr hread
    · obtain ⟨seq, hseq⟩ := hread
      exact rowToEvent_of_intOf hseq
  · rw [hout]
    exact ⟨fun hne => absurd rfl hne, readable_of_events hdb rfl⟩

theorem federationInbox_readable {envr : Env} {fed : Runtime} {limits : RateLimits} {raw : Bytes}
    {now : Time} (hdb : Readable db) :
    Readable (federationInbox envr fed db limits raw now).1 := by
  rcases federationInbox_cases envr fed db limits raw now with ⟨-, rows, h⟩ |
    ⟨env, p, -, -, ⟨db₁, hs, hd, -⟩ | ⟨row, -, -, hd, -⟩⟩
  · rw [h]
    exact readable_of_events hdb rfl
  · obtain ⟨seq, hev⟩ := hs.event
    rw [hd.frame]
    exact readable_append hdb hev (rowToEvent_of_intOf (i := seq) rfl)
  · rw [hd.frame]
    exact readable_of_events hdb rfl

/-- What one step of an unspoiled run keeps. -/
theorem ledger_step {act : Action} (hdb : Readable db) (hok : Unspoiled db act)
    (hstep : ledger.step db act db') : Readable db' := by
  cases act with
  | post cfg r =>
    cases hstep
    exact (postEvents_readable hdb hok).2
  | ack env fed q path => exact readable_of_events hdb (ackWrite_events hstep)
  | inbox env fed limits raw now =>
    cases hstep
    exact federationInbox_readable hdb
  | other db₁ =>
    cases hstep
    exact readable_of_events hdb rfl

/-- A server without federation. -/
def plainServer : ServerConfig := { serverA with fed := none }

/-- A message from `alice` to `bob` with a sequence number. -/
def withSeq (seq : Val) : Request where
  body := [(lit "source", .str (lit "alice")), (lit "target", .str (lit "bob")),
    (lit "event_id", .str (lit "e")), (lit "seq", seq)]
  bearer := []
  now := noon
  newId := []

end Server
end ATalk
