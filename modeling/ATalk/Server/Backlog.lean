import ATalk.Server.Handlers

/-!
# The backlog limit

A handler of `POST /events` reads the depth of an inbox in one statement and inserts in a later
transaction. A repeated event never meets the limit; a new one may pass it together with others that
read the same depth, and then the inbox grows beyond the limit. It does not when no other event for
the target is committed between the read of a handler and its insert.

* `Later` : events stay, acknowledgements stay;
* `Undisturbed` : no event for the target since the depth was read;
* `backlog_bounded` : the depth, the refusals and the repeats of every such run.
-/

namespace ATalk
namespace Server

open Text Python Sqlite ATalk.Core Federation Checks Transition Callers Backends

variable {cfg : ServerConfig} {r : Request} {a : EventArgs} {db db' db'' : Db} {now : Time}

/-! ## The depth -/

/-- Events are only added, and no acknowledgement goes away. -/
structure Later (db db' : Db) : Prop where
  events : db.events <+: db'.events
  acks : ∀ eventId agent ackType, hasAck db eventId agent ackType = true →
    hasAck db' eventId agent ackType = true

theorem Later.refl (db : Db) : Later db db := ⟨List.prefix_rfl, fun _ _ _ h => h⟩

theorem Later.trans (h : Later db db') (h' : Later db' db'') : Later db db'' :=
  ⟨h.events.trans h'.events, fun eventId agent ackType hack =>
    h'.acks eventId agent ackType (h.acks eventId agent ackType hack)⟩

theorem Later.of_eq (hevents : db'.events = db.events) (hacks : db'.acks = db.acks) :
    Later db db' := by
  refine ⟨hevents ▸ List.prefix_rfl, fun eventId agent ackType hack => ?_⟩
  rwa [hasAck, hacks]

/-- A row that counts for a target. -/
def counts (db : Db) (target : Str) (row : EventRow) : Bool :=
  row.requiresAck && forTarget target row && !hasAck db row.eventId target .applied

theorem backlogDepth_eq (db : Db) (target : Str) :
    backlogDepth db target = db.events.countP (counts db target) :=
  List.countP_eq_length_filter.symm

theorem Later.counts (h : Later db db') {target : Str} {row : EventRow}
    (hcounts : counts db' target row = true) : Server.counts db target row = true := by
  simp only [Server.counts, Bool.and_eq_true, Bool.not_eq_true'] at hcounts ⊢
  refine ⟨hcounts.1, ?_⟩
  by_contra hack
  rw [Bool.not_eq_false] at hack
  have hlater := h.acks row.eventId target .applied hack
  rw [hlater] at hcounts
  exact absurd hcounts.2 (by decide)

/-- Without a new event for it the inbox of a target does not grow. -/
theorem Later.depth_le (h : Later db db') {target : Str}
    (hnew : ∀ row ∈ db'.events.drop db.events.length, forTarget target row = false) :
    backlogDepth db' target ≤ backlogDepth db target := by
  obtain ⟨rows, hrows⟩ := h.events
  rw [← hrows, List.drop_left] at hnew
  have hzero : rows.countP (Server.counts db' target) = 0 := by
    rw [List.countP_eq_zero]
    intro row hrow hcounts
    simp only [Server.counts, Bool.and_eq_true] at hcounts
    rw [hnew row hrow] at hcounts
    exact absurd hcounts.1.2 (by decide)
  rw [backlogDepth_eq, backlogDepth_eq, ← hrows, List.countP_append, hzero, Nat.add_zero]
  exact List.countP_mono_left fun row _ hcounts => h.counts hcounts

/-- One event more is one more in the inbox of its target. -/
theorem Later.depth_append {row : EventRow} (h : Later db db')
    (hevents : db'.events = db.events ++ [row]) (target : Str) :
    backlogDepth db' target ≤ backlogDepth db target + if forTarget target row then 1 else 0 := by
  rw [backlogDepth_eq, backlogDepth_eq, hevents, List.countP_append]
  have hold : db.events.countP (Server.counts db' target) ≤
      db.events.countP (Server.counts db target) :=
    List.countP_mono_left fun row _ hcounts => h.counts hcounts
  have hone : [row].countP (Server.counts db' target) ≤ if forTarget target row then 1 else 0 := by
    split_ifs with hfor
    · exact List.countP_le_length
    · rw [Nat.le_zero, List.countP_eq_zero]
      intro row' hrow' hcounts
      rw [List.mem_singleton.mp hrow'] at hcounts
      simp only [Server.counts, Bool.and_eq_true] at hcounts
      exact hfor hcounts.1.2
  omega

/-! ## What the handlers write -/

theorem hasAck_upsert (db : Db) (eventId agentId : Str) (ackType : AckType) (now : Time)
    (detail : Val) (e x : Str) (t : AckType) (h : hasAck db e x t = true) :
    hasAck (upsertAck db eventId agentId ackType now detail) e x t = true := by
  unfold hasAck at h ⊢
  obtain ⟨row, hrow, hsame⟩ := List.any_eq_true.mp h
  unfold upsertAck
  split_ifs
  · refine List.any_eq_true.mpr ⟨_, List.mem_map_of_mem hrow, ?_⟩
    split_ifs
    · exact hsame
    · exact hsame
  · exact List.any_eq_true.mpr ⟨row, List.mem_append_left _ hrow, hsame⟩

theorem writeAck_later {eventId agentId : Option Str} {ackType : AckType} {detail : Val}
    (h : writeAck db eventId agentId ackType now detail = .ok db') :
    Later db db' ∧ db'.events = db.events := by
  unfold writeAck at h
  split at h
  · split_ifs at h
    cases h
    exact ⟨⟨List.prefix_rfl, hasAck_upsert db _ _ _ _ _⟩, rfl⟩
  · cases h

theorem ackEvent_later {env : Env} {eventId agentId ackType detail : Val}
    (h : ackEvent env db now eventId agentId ackType detail = .ok db') :
    Later db db' ∧ db'.events = db.events := by
  simp only [ackEvent, bind_eq_ok] at h
  obtain ⟨_, -, _, -, _, -, _, -, h⟩ := h
  exact writeAck_later h

theorem ackWrite_later {env : Env} {fed : Runtime} {q : AckRequest} {path : AckPath}
    (h : ackWrite env fed db q path = .ok db') : Later db db' ∧ db'.events = db.events := by
  cases path with
  | localPath => exact ackEvent_later h
  | federated inb eventId agentId ackType sigHash =>
    simp only [ackWrite, ackWithReceiptIntent, bind_eq_ok] at h
    obtain ⟨_, -, db₁, hdb₁, h⟩ := h
    obtain ⟨hlater, hevents⟩ := writeAck_later hdb₁
    split_ifs at h
    · cases h
      exact ⟨hlater, hevents⟩
    · cases h
      exact ⟨hlater.trans (.of_eq rfl rfl), hevents⟩

theorem storeAck_later {path : AckPath} (h : storeAck cfg db r now path = .ok db') :
    Later db db' ∧ db'.events = db.events := by
  cases path with
  | localPath =>
    simp only [storeAck, bind_eq_ok] at h
    obtain ⟨_, -, _, -, _, -, h⟩ := h
    exact ackEvent_later h
  | federated inb eventId agentId ackType sigHash =>
    simp only [storeAck] at h
    split at h
    · cases h
      exact ⟨.refl db, rfl⟩
    · exact ackWrite_later h

/-- A step of an acknowledgement adds no event. -/
theorem ackStep_later (cfg : ServerConfig) (r : AckCall) (now : Time) (db : Db) (p : AckPhase) :
    Later db (ackStep cfg r now db p).1 ∧ (ackStep cfg r now db p).1.events = db.events := by
  have hsame : Later db db ∧ db.events = db.events := ⟨.refl db, rfl⟩
  cases p with
  | start => exact hsame
  | token =>
    simp only [ackStep]
    split <;> exact hsame
  | lookup =>
    simp only [ackStep]
    split
    · exact hsame
    · split <;> exact hsame
  | write path =>
    simp only [ackStep]
    split
    · exact hsame
    · next db' hstore =>
      cases path <;> exact storeAck_later hstore
  | hint =>
    have hmarks := hintPages_marks r.woken 50 db r.cursor
    simp only [ackStep, hintNotifications]
    rw [hmarks.frame]
    exact ⟨.of_eq rfl rfl, rfl⟩
  | done reply => exact hsame

/-- The key of a call names an event that is there. -/
def HasEvent (cfg : ServerConfig) (db : Db) (a : EventArgs) : Prop :=
  ∃ row ∈ db.events, textParam cfg.env a.key = .ok (some row.eventId)

theorem HasEvent.later (h : HasEvent cfg db a) (hlater : Later db db') : HasEvent cfg db' a := by
  obtain ⟨row, hrow, hkey⟩ := h
  exact ⟨row, hlater.events.subset hrow, hkey⟩

theorem Later.of_rejectOnly (h : RejectOnly db db') : Later db db' := .of_eq h.events h.acks

/-- The insertion commits its event, or adds none. -/
theorem sqliteStep_later (env : Env) (a : EventArgs) (now : Time) (db : Db) (p : CallPhase) :
    Later db (sqliteStep env a now db p).1 ∧
      ((sqliteStep env a now db p).1.events = db.events ∨
        ∃ row, p = .start ∧ Committed env (atTime a now) db row (sqliteStep env a now db p).1) := by
  cases p with
  | start =>
    simp only [sqliteStep]
    split_ifs with hsourced
    · have hreject := (reject_cases env (atTime a now) db "missing_source_ref"
        "command requires source_ref").1
      exact ⟨.of_rejectOnly hreject, .inl hreject.events⟩
    · rcases writeEvent_cases env (atTime a now) db hsourced with ⟨p, hp, -⟩ | ⟨row, db', hp, hc⟩
      · rw [hp]
        exact ⟨.refl db, .inl rfl⟩
      · rw [hp]
        refine ⟨⟨hc.events ▸ List.prefix_append _ _, fun eventId agent ackType hack => ?_⟩,
          .inr ⟨row, trivial, hc⟩⟩
        rw [hasAck, hc.frame]
        exact hack
  | ended p =>
    have hreject := finishEvent_cases env (atTime a now) db p
    exact ⟨.of_rejectOnly hreject, .inl hreject.events⟩
  | returned result => exact ⟨.refl db, .inl rfl⟩

/-- A new event was not known. -/
theorem not_known_of_committed {row : EventRow}
    (hc : Committed cfg.env (atTime a now) db row db') : ¬ HasEvent cfg db a := by
  rintro ⟨old, hold, hkey⟩
  have hsame : textParam cfg.env a.key = .ok (some row.eventId) := hc.key
  rw [hsame, Except.ok.injEq, Option.some.injEq] at hkey
  exact findEvent_eq_none_iff.mp hc.fresh old hold hkey.symm

/-- A step of a send commits the event of its insert, or adds none. -/
theorem eventStep_later (cfg : ServerConfig) (r : Request) (now : Time) (db : Db) (p : EventPhase) :
    Later db (eventStep cfg r now db p).1 ∧
      ((eventStep cfg r now db p).1.events = db.events ∨
        ∃ a row, p = .insert a .start ∧ ¬ HasEvent cfg db a ∧ row.target = a.target ∧
          row.id = nextId (db.events.map (·.id)) ∧
          (eventStep cfg r now db p).1.events = db.events ++ [row]) := by
  have hsame : Later db db ∧ (db.events = db.events ∨
      ∃ a row, p = .insert a .start ∧ ¬ HasEvent cfg db a ∧ row.target = a.target ∧
        row.id = nextId (db.events.map (·.id)) ∧ db.events = db.events ++ [row]) :=
    ⟨.refl db, .inl rfl⟩
  cases p with
  | start =>
    simp only [eventStep]
    split <;> exact hsame
  | token a =>
    simp only [eventStep]
    split <;> exact hsame
  | probe a =>
    simp only [eventStep]
    split <;> exact hsame
  | gate a retry => exact hsame
  | insert a p =>
    obtain ⟨hlater, heffect⟩ := sqliteStep_later cfg.env a now db p
    rcases heffect with heffect | ⟨row, hp, hc⟩
    · exact ⟨hlater, .inl heffect⟩
    · refine ⟨hlater, .inr ?_⟩
      rw [hp] at hc ⊢
      exact ⟨a, row, rfl, not_known_of_committed hc, congrArg EventRow.target hc.columns,
        congrArg EventRow.id hc.columns, hc.events⟩
  | send a fed family =>
    simp only [eventStep]
    split
    · exact hsame
    · next db' reply hsend =>
      rcases federationSend_cases hsend with hdb | ⟨s, raw, -, -, hdb⟩
      · rw [hdb]
        exact hsame
      · cases hdb
        exact ⟨.of_eq rfl rfl, .inl rfl⟩
  | done reply => exact hsame

/-! ## The invariants -/

/-- No inbox is beyond the limit. -/
def Bounded (cfg : ServerConfig) (db : Db) : Prop :=
  ∀ target, backlogDepth db target ≤ cfg.maxInboxDepth

/-- No event for the target has been committed since the depth was read. -/
def Undisturbed (db : Db) (a : EventArgs) (log : List (Visit Db Time EventPhase)) : Prop :=
  ∀ v ∈ log, (∃ b, v.phase = .gate b false) →
    ∀ row ∈ db.events.drop v.before.events.length, forTarget a.target row = false

/-- The sends are direct, and no other event for its target is committed between the read and the
insert of a send. -/
def Alone (_ : Request) (_ : Time) (db : Db) : EventPhase × List (Visit Db Time EventPhase) → Prop
  | (.insert a .start, log) => a.target ≠ lit "*" ∧ Undisturbed db a log
  | _ => True

/-- The inbox has room for a new event. -/
def HasRoom (cfg : ServerConfig) (_ : Request) (_ : Time) (db : Db) : EventPhase → Prop
  | .insert a .start =>
    a.target ≠ lit "*" ∧ (HasEvent cfg db a ∨ backlogDepth db a.target < cfg.maxInboxDepth)
  | _ => True

/-- What a send has read: its event is there, or its inbox had room. -/
def Read (cfg : ServerConfig) (db : Db) (_ : Request) :
    EventPhase × List (Visit Db Time EventPhase) → Prop
  | (.gate a true, _) => HasEvent cfg db a
  | (.insert a .start, log) => a.target = lit "*" ∨ HasEvent cfg db a ∨
      ∃ v ∈ log, (∃ b, v.phase = .gate b false) ∧ Later v.before db ∧
        backlogDepth v.before a.target < cfg.maxInboxDepth
  | _ => True

/-- Other requests write other tables. -/
def OtherTables (db db' : Db) : Prop := db'.events = db.events ∧ db'.acks = db.acks

theorem Bounded.of_eq (h : Bounded cfg db) (hlater : Later db db') (hevents : db'.events = db.events) :
    Bounded cfg db' := by
  intro target
  refine (hlater.depth_le fun row hrow => ?_).trans (h target)
  rw [hevents, List.drop_length] at hrow
  cases hrow

theorem eventCalls_keeps (cfg : ServerConfig) : (eventCalls cfg).Keeps (Bounded cfg) OtherTables
    (HasRoom cfg) (Bounded cfg) (fun _ _ _ => True) Later where
  refl := Later.refl
  trans _ _ _ := Later.trans
  init _ h := h
  env db db' hdb h := ⟨hdb.of_eq (.of_eq h.1 h.2) h.1, .of_eq h.1 h.2⟩
  start _ _ _ := trivial
  mono _ _ _ _ _ _ := trivial
  step db r now p hdb _ _ hroom := by
    obtain ⟨hlater, heffect⟩ := eventStep_later cfg r now db p
    refine ⟨?_, trivial, hlater⟩
    rcases heffect with hsame | ⟨a, row, rfl, hnew, htarget, -, hevents⟩
    · exact hdb.of_eq hlater hsame
    · obtain ⟨hdirect, hknown⟩ := hroom
      have hlt := hknown.resolve_left hnew
      intro target
      refine (hlater.depth_append hevents target).trans ?_
      split_ifs with hfor
      · -- the row is for no other target than its own
        have hown : target = a.target := by
          simp only [forTarget, Bool.or_eq_true, decide_eq_true_eq, htarget] at hfor
          exact (hfor.resolve_right hdirect).symm
        rw [hown]
        exact hlt
      · exact hdb target

/-- After the token nothing has been read. -/
theorem read_checked (cfg : ServerConfig) (db : Db) (r : Request) (a : EventArgs)
    (log : List (Visit Db Time EventPhase)) : Read cfg db r (eventChecked cfg a, log) := by
  unfold eventChecked
  split
  · trivial
  · split
    · trivial
    · split_ifs <;> trivial

/-- A retry names an event that is there. -/
theorem known_of_retry (h : isRetry cfg db a.eventId = .ok true) : HasEvent cfg db a := by
  unfold isRetry at h
  split_ifs at h with htruthy
  · cases h
  rw [Bool.not_eq_false] at htruthy
  obtain ⟨key, hkey, h⟩ := bind_eq_ok.mp h
  unfold getEvent at h
  cases hfind : findEvent db key with
  | none =>
    rw [hfind] at h
    cases h
  | some row =>
    refine ⟨row, findEvent_mem hfind, ?_⟩
    have hrow := List.find?_some hfind
    rw [decide_eq_true_eq] at hrow
    rw [EventArgs.key, if_pos htruthy, hkey, hrow]

/-- An insertion does not start again. -/
theorem read_inserted (cfg : ServerConfig) (r : Request) (now : Time) (a : EventArgs)
    (p : CallPhase) (log : List (Visit Db Time EventPhase)) :
    Read cfg (sqliteStep cfg.env a now db p).1 r
      (eventInserted a (sqliteStep cfg.env a now db p).2, log) := by
  have hreturned : ∀ (d : Db) (result : Except Exn Event),
      Read cfg d r (eventInserted a (.returned result), log) := by
    intro d result
    cases result <;> trivial
  cases p with
  | start =>
    simp only [sqliteStep]
    split_ifs
    · exact hreturned ..
    · trivial
  | ended p => exact hreturned ..
  | returned result => exact hreturned ..

/-- A send that passes the gate has read what lets it pass. -/
theorem read_step {log : List (Visit Db Time EventPhase)} {p : EventPhase} (now : Time)
    (h : Read cfg db r (p, log)) :
    Read cfg (eventStep cfg r now db p).1 r ((eventStep cfg r now db p).2,
      log ++ [⟨now, p, db, (eventStep cfg r now db p).1⟩]) := by
  cases p with
  | start =>
    simp only [eventStep]
    split
    · trivial
    · split_ifs
      · trivial
      · exact read_checked ..
  | token a =>
    simp only [eventStep]
    split
    · trivial
    · split_ifs
      · exact read_checked ..
      · trivial
  | probe a =>
    simp only [eventStep]
    split
    · trivial
    · next retry hretry =>
      cases retry with
      | false => trivial
      | true => exact known_of_retry hretry
  | gate a retry =>
    simp only [eventStep]
    split_ifs with hfull
    · trivial
    · cases retry with
      | true => exact .inr (.inl h)
      | false =>
        by_cases hall : a.target = lit "*"
        · exact .inl hall
        · have hlt : backlogDepth db a.target < cfg.maxInboxDepth := by
            by_contra hge
            exact hfull ⟨hall, rfl, not_lt.mp hge⟩
          exact .inr (.inr ⟨_, List.mem_append_right _ (List.mem_singleton_self _), ⟨a, rfl⟩,
            .refl db, hlt⟩)
  | insert a p => exact read_inserted ..
  | send a fed family =>
    simp only [eventStep]
    split <;> trivial
  | done reply => trivial

theorem Read.later {q : EventPhase × List (Visit Db Time EventPhase)} (h : Read cfg db r q)
    (hlater : Later db db') : Read cfg db' r q := by
  match q, h with
  | (.gate a true, _), h => exact HasEvent.later h hlater
  | (.gate a false, _), _ => trivial
  | (.insert a .start, log), h =>
    rcases h with hall | hknown | ⟨v, hv, hgate, hbefore, hlt⟩
    · exact .inl hall
    · exact .inr (.inl (hknown.later hlater))
    · exact .inr (.inr ⟨v, hv, hgate, hbefore.trans hlater, hlt⟩)
  | (.insert a (.ended p), _), _ => trivial
  | (.insert a (.returned result), _), _ => trivial
  | (.start, _), _ => trivial
  | (.token a, _), _ => trivial
  | (.probe a, _), _ => trivial
  | (.send a fed family, _), _ => trivial
  | (.done reply, _), _ => trivial

/-- What was read still stands when nobody came between. -/
theorem hasRoom_of_alone {q : EventPhase × List (Visit Db Time EventPhase)}
    (h : Read cfg db r q) (halone : Alone r now db q) : HasRoom cfg r now db q.1 := by
  match q, h, halone with
  | (.insert a .start, log), h, halone =>
    obtain ⟨hdirect, hundisturbed⟩ := halone
    refine ⟨hdirect, ?_⟩
    rcases h with hall | hknown | ⟨v, hv, hgate, hbefore, hlt⟩
    · exact absurd hall hdirect
    · exact .inl hknown
    · exact .inr ((hbefore.depth_le (hundisturbed v hv hgate)).trans_lt hlt)
  | (.insert a (.ended p), _), _, _ => trivial
  | (.insert a (.returned result), _), _, _ => trivial
  | (.start, _), _, _ => trivial
  | (.token a, _), _, _ => trivial
  | (.probe a, _), _, _ => trivial
  | (.gate a retry, _), _, _ => trivial
  | (.send a fed family, _), _, _ => trivial
  | (.done reply, _), _, _ => trivial

/-- The sends of a server, with what they have read, and its acknowledgements. -/
abbrev handlerCalls (cfg : ServerConfig) :
    Machine Db (Request ⊕ AckCall) Time
      (EventPhase × List (Visit Db Time EventPhase) ⊕ AckPhase) Reply :=
  (eventCalls cfg).logged.either (ackCalls cfg)

theorem ackCalls_keeps (cfg : ServerConfig) : (ackCalls cfg).Keeps (Bounded cfg) OtherTables
    (fun _ _ _ _ => True) (Bounded cfg) (fun _ _ _ => True) Later where
  refl := Later.refl
  trans _ _ _ := Later.trans
  init _ h := h
  env db db' hdb h := ⟨hdb.of_eq (.of_eq h.1 h.2) h.1, .of_eq h.1 h.2⟩
  start _ _ _ := trivial
  mono _ _ _ _ _ _ := trivial
  step db r now p hdb _ _ _ := by
    obtain ⟨hlater, hevents⟩ := ackStep_later cfg r now db p
    exact ⟨hdb.of_eq hlater hevents, trivial, hlater⟩

theorem handlerCalls_keeps (cfg : ServerConfig) : (handlerCalls cfg).Keeps (Bounded cfg) OtherTables
    (eitherOk Alone fun _ _ _ _ => True) (Bounded cfg)
    (eitherInv (fun db r q => True ∧ Read cfg db r q) fun _ _ _ => True) Later := by
  refine .either ?_ (ackCalls_keeps cfg)
  refine (eventCalls_keeps cfg).logged (fun _ _ _ => trivial) (fun _ _ _ _ hlater h => h.later hlater)
    (fun _ _ _ _ _ _ hread halone => hasRoom_of_alone hread halone) ?_
  exact fun db r now q _ _ hread _ _ _ => read_step now hread

/-! ## A repeat -/

theorem exnReply_status_ne_429 (e : Exn) : (exnReply e).status ≠ 429 := by
  cases e <;> exact of_decide_eq_true rfl

/-- The request repeats an event that is there, and it is for this server. -/
def Repeats (cfg : ServerConfig) (db : Db) (r : Request) (a : EventArgs) : Prop :=
  checkBody r = .ok a ∧ route cfg a.target = none ∧ a.eventId.truthy = true ∧ HasEvent cfg db a

/-- Where a repeat can be. -/
def Repeating (r : Request) : EventPhase → Prop
  | .start => True
  | .token a => checkBody r = .ok a
  | .probe a => checkBody r = .ok a
  | .gate _ retry => retry = true
  | .insert _ _ => True
  | .send _ _ _ => False
  | .done reply => reply.status ≠ 429

theorem isRetry_known (h : HasEvent cfg db a) (htruthy : a.eventId.truthy = true) :
    isRetry cfg db a.eventId ≠ .ok false := by
  obtain ⟨row, hrow, hkey⟩ := h
  rw [EventArgs.key, if_pos htruthy] at hkey
  intro hretry
  unfold isRetry at hretry
  rw [if_neg (by rw [htruthy]; decide), hkey] at hretry
  simp only [ok_bind] at hretry
  cases hfind : findEvent db (some row.eventId) with
  | none => exact findEvent_eq_none_iff.mp hfind row hrow rfl
  | some found =>
    rw [getEvent, hfind] at hretry
    simp only [rowToEvent] at hretry
    -- a row that cannot be decoded is an error of its own
    cases hseq : intOf found.seq with
    | ok seq =>
      rw [hseq] at hretry
      cases hretry
    | error e =>
      rw [hseq] at hretry
      have hkind : ∀ name, e ≠ .key name := by
        intro name hname
        rw [hname] at hseq
        unfold intOf at hseq
        split at hseq
        · cases hseq
        · cases hseq
        · split at hseq <;> cases hseq
        · split at hseq <;> cases hseq
      cases e with
      | key name => exact hkind name rfl
      | _ => cases hretry

theorem repeating_step {p : EventPhase} (h : Repeats cfg db r a) (hp : Repeating r p) (now : Time) :
    Repeating r (eventStep cfg r now db p).2 := by
  obtain ⟨hbody, hroute, htruthy, hknown⟩ := h
  have hchecked : Repeating r (eventChecked cfg a) := by
    unfold eventChecked
    cases cfg.acl.check a.source a.target with
    | some reason => exact exnReply_status_ne_429 _
    | none =>
      rw [hroute, if_pos htruthy]
      exact hbody
  cases p with
  | start =>
    simp only [eventStep, hbody]
    split_ifs
    · exact hbody
    · exact hchecked
  | token b =>
    have hsame : b = a := Except.ok.inj (hp.symm.trans hbody)
    subst hsame
    simp only [eventStep]
    split
    · exact exnReply_status_ne_429 _
    · split_ifs
      · exact hchecked
      · exact exnReply_status_ne_429 _
  | probe b =>
    have hsame : b = a := Except.ok.inj (hp.symm.trans hbody)
    subst hsame
    simp only [eventStep]
    split
    · exact exnReply_status_ne_429 _
    · next retry hretry =>
      cases retry with
      | true => rfl
      | false => exact absurd hretry (isRetry_known hknown htruthy)
  | gate b retry =>
    simp only [eventStep]
    rw [if_neg fun hfull => by rw [hp] at hfull; exact absurd hfull.2.1 (by decide)]
    trivial
  | insert b p =>
    simp only [eventStep]
    unfold eventInserted
    split
    · exact show (201 : ℕ) ≠ 429 by decide
    · exact exnReply_status_ne_429 _
    · trivial
  | send b fed family => exact hp.elim
  | done reply => exact hp

theorem handlerCalls_later (cfg : ServerConfig) (init : Db → Prop) :
    (handlerCalls cfg).Keeps init OtherTables (fun _ _ _ _ => True) (fun _ => True)
      (fun _ _ _ => True) Later where
  refl := Later.refl
  trans _ _ _ := Later.trans
  init _ _ := trivial
  env _ _ _ h := ⟨trivial, .of_eq h.1 h.2⟩
  start _ _ _ := trivial
  mono _ _ _ _ _ _ := trivial
  step db call now p _ _ _ _ := by
    refine ⟨trivial, trivial, ?_⟩
    match call, p with
    | .inl r, .inl (p, _) => exact (eventStep_later cfg r now db p).1
    | .inr r, .inr p => exact (ackStep_later cfg r now db p).1
    | .inl r, .inr p => exact .refl db
    | .inr r, .inl p => exact .refl db

/-! ## The limit -/

/-- In every run whose sends are direct and are not disturbed between their read and their insert:
no inbox is beyond the limit; a new event is committed only where there is room, and is answered 429
where there is none. In any run, a repeat of a committed event is never answered 429. -/
theorem backlog_bounded (cfg : ServerConfig) {w : World Db (Request ⊕ AckCall)
      (EventPhase × List (Visit Db Time EventPhase) ⊕ AckPhase)}
    (hw : Reach (callers (handlerCalls cfg) (Bounded cfg) OtherTables)
      (onAdvance (eitherOk Alone fun _ _ _ _ => True)) w) :
    Bounded cfg w.store ∧
    (∀ act w', onAdvance (eitherOk Alone fun _ _ _ _ => True) w act →
      (callers (handlerCalls cfg) (Bounded cfg) OtherTables).step w act w' →
        w'.store.events = w.store.events ∨ ∃ row, w'.store.events = w.store.events ++ [row] ∧
          backlogDepth w.store row.target < cfg.maxInboxDepth) ∧
    (∀ i r a log, w.calls[i]? = some (.inl r, .inl (.gate a false, log)) → a.target ≠ lit "*" →
      cfg.maxInboxDepth ≤ backlogDepth w.store a.target → ∀ now w',
        (callers (handlerCalls cfg) (Bounded cfg) OtherTables).step w (.advance i now) w' →
          ∃ log', w'.calls[i]? = some (.inl r, .inl (.done fullReply, log'))) ∧
    ∀ r a, Repeats cfg w.store r a → ∀ w',
      Run (callers (handlerCalls cfg) (Bounded cfg) OtherTables) (fun _ _ => True)
        ⟨w.store, w.calls ++ [(.inl r, (handlerCalls cfg).start (.inl r))]⟩ w' →
      ∀ p reply, w'.calls[w.calls.length]? = some (.inl r, p) →
        (handlerCalls cfg).result p = some reply → reply.status ≠ 429 := by
  have hkeeps := handlerCalls_keeps cfg
  obtain ⟨hdb, hcalls⟩ := hkeeps.reach hw
  refine ⟨hdb, fun act w' hok hstep => ?_, fun i r a log hi hdirect hfull now w' hstep => ?_,
    fun r a hrepeats w' hrun p reply hp hreply => ?_⟩
  · cases act with
    | call c =>
      cases hstep
      exact .inl rfl
    | other store =>
      obtain ⟨henv, rfl⟩ := hstep
      exact .inl henv.1
    | advance i now =>
      obtain ⟨c, p, hi, hnone, rfl⟩ := hstep
      have hc := hcalls (c, p) (List.mem_of_getElem? hi)
      have hokc := hok c p hi
      match c, p, hc, hokc with
      | .inr q, .inr p, _, _ => exact .inl (ackStep_later cfg q now w.store p).2
      | .inl r, .inl (p, log), hc, hokc =>
        refine (eventStep_later cfg r now w.store p).2.imp_right ?_
        rintro ⟨a, row, rfl, hnew, htarget, -, hevents⟩
        have hread : Read cfg w.store r (.insert a .start, log) := hc.2
        have halone : Alone r now w.store (.insert a .start, log) := hokc
        obtain ⟨-, hknown⟩ := hasRoom_of_alone hread halone
        exact ⟨row, hevents, htarget ▸ hknown.resolve_left hnew⟩
  · obtain ⟨c, p, hc, -, rfl⟩ := hstep
    obtain ⟨rfl, rfl⟩ := Prod.mk.inj (Option.some.inj (hc.symm.trans hi))
    have hdone : (eventStep cfg r now w.store (.gate a false)).2 = .done fullReply := by
      simp only [eventStep]
      exact if_pos ⟨hdirect, trivial, hfull⟩
    refine ⟨log ++ [⟨now, .gate a false, w.store, w.store⟩], ?_⟩
    rw [← hdone]
    exact List.getElem?_set_self (List.getElem?_eq_some_iff.mp hi).1
  · have hlater := handlerCalls_later cfg (Bounded cfg)
    have hreach : Reach (callers (handlerCalls cfg) (Bounded cfg) OtherTables) (fun _ _ => True)
        ⟨w.store, w.calls ++ [(.inl r, (handlerCalls cfg).start (.inl r))]⟩ :=
      .step (a := .call (.inl r)) hw.reachable trivial rfl
    rw [← onAdvance_true] at hreach hrun
    have hi : (w.calls ++ [(Sum.inl r, (handlerCalls cfg).start (.inl r))])[w.calls.length]? =
        some (.inl r, .inl (.start, [])) := List.getElem?_concat_length
    obtain ⟨q, hq, p', log, rfl, hp'⟩ := hlater.call (i := w.calls.length)
      (Q := fun p => ∃ q log, p = .inl (q, log) ∧ Repeating r q) hreach hi ⟨.start, [], rfl, trivial⟩
      (fun s now p _ hs hp _ => by
        obtain ⟨q, log, rfl, hq⟩ := hp
        refine ⟨_, _, rfl, repeating_step ⟨hrepeats.1, hrepeats.2.1, hrepeats.2.2.1, ?_⟩ hq now⟩
        exact hrepeats.2.2.2.later hs) hrun
    obtain ⟨-, rfl⟩ := Prod.mk.inj (Option.some.inj (hq.symm.trans hp))
    cases p' with
    | done reply' =>
      cases hreply
      exact hp'
    | _ => cases hreply

/-- A server that keeps one event for a peer. -/
def oneSlot : ServerConfig where
  env := plainEnv
  fed := none
  acl := .absent
  maxInboxDepth := 1

/-- Alice's message to Bob. -/
def toBob (newId : String) : Request where
  body := [(lit "event_id", .str (lit newId)), (lit "source", .str (lit "alice")),
    (lit "target", .str (lit "bob")), (lit "payload", .dict [])]
  bearer := []
  now := noon
  newId := lit newId

/-- The row of it. -/
def bobsRow : EventRow where
  id := 1
  eventId := lit "e1"
  source := lit "alice"
  target := lit "bob"
  type := lit "message"
  seq := .int 1
  createdAt := noon
  storedAt := noon
  payload := []
  requiresAck := true
  sourceRef := none
  authActor := none

/-- Bob's inbox is full. -/
def fullInbox : World Db (Request ⊕ AckCall)
    (EventPhase × List (Visit Db Time EventPhase) ⊕ AckPhase) := ⟨{ events := [bobsRow] }, []⟩

theorem bounded_fullInbox : Bounded oneSlot fullInbox.store := fun _ =>
  (List.length_filter_le _ _).trans (Nat.le_refl 1)

/-- The message that fills the inbox can be repeated. -/
theorem backlog_bounded_full : ∃ a, Repeats oneSlot fullInbox.store (toBob "e1") a ∧ ∀ w',
    Run (callers (handlerCalls oneSlot) (Bounded oneSlot) OtherTables) (fun _ _ => True)
      ⟨fullInbox.store, [(.inl (toBob "e1"), (handlerCalls oneSlot).start (.inl (toBob "e1")))]⟩ w' →
    ∀ p reply, w'.calls[0]? = some (.inl (toBob "e1"), p) →
      (handlerCalls oneSlot).result p = some reply → reply.status ≠ 429 := by
  have hrepeats : Repeats oneSlot fullInbox.store (toBob "e1")
      (eventArgs (toBob "e1") (lit "alice") (lit "bob") (lit "message") []) :=
    ⟨rfl, rfl, rfl, bobsRow, List.mem_singleton_self _, rfl⟩
  exact ⟨_, hrepeats, (backlog_bounded oneSlot (.init ⟨bounded_fullInbox, rfl⟩)).2.2.2 _ _ hrepeats⟩

/-! ## Two sends at once -/

/-- Two messages that come together. -/
def bothSent : World Db (Request ⊕ AckCall)
    (EventPhase × List (Visit Db Time EventPhase) ⊕ AckPhase) :=
  ⟨{}, [(.inl (toBob "e1"), .inl (.start, [])), (.inl (toBob "e2"), .inl (.start, []))]⟩

theorem bounded_empty (cfg : ServerConfig) : Bounded cfg {} := fun _ => Nat.zero_le _

/-- Both read the depth before either inserts. -/
theorem bothSent_depth : (([0, 0, 0, 1, 1, 1, 0, 1].foldlM ((handlerCalls oneSlot).advance noon)
    bothSent).map fun w => backlogDepth w.store (lit "bob")) = some 2 := by decide +kernel

/-- Two messages are in an inbox for one. -/
theorem backlog_exceeded : ∃ w,
    Reachable (callers (handlerCalls oneSlot) (Bounded oneSlot) OtherTables) w ∧
      ¬ Bounded oneSlot w.store := by
  obtain ⟨w, hrun, hdepth⟩ := Option.map_eq_some_iff.mp bothSent_depth
  have hnone : Reachable (callers (handlerCalls oneSlot) (Bounded oneSlot) OtherTables)
      (⟨{}, []⟩ : World Db _ _) := .init ⟨bounded_empty oneSlot, rfl⟩
  have hone : Reachable (callers (handlerCalls oneSlot) (Bounded oneSlot) OtherTables)
      (⟨{}, [(.inl (toBob "e1"), .inl (.start, []))]⟩ : World Db _ _) :=
    .step (a := .call (.inl (toBob "e1"))) hnone trivial rfl
  have hsent : Reachable (callers (handlerCalls oneSlot) (Bounded oneSlot) OtherTables) bothSent :=
    .step (a := .call (.inl (toBob "e2"))) hone trivial rfl
  refine ⟨w, reach_schedule noon _ hsent hrun, fun hbounded => ?_⟩
  have hle : backlogDepth w.store (lit "bob") ≤ 1 := hbounded (lit "bob")
  omega

end Server
end ATalk
