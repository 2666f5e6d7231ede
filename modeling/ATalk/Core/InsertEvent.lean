import ATalk.Core.Store

/-!
# What `insert_event` can do

One inversion for the whole call: either nothing is written but at most one reject audit row, and
an event that is returned was there before and is the caller's; or one new row is committed,
with its counter and its audit row, and the call returns that row decoded.

* `Committed` : what a committed row is;
* `insertEvent_cases` : the inversion.
-/

namespace ATalk
namespace Core

open Text Python Sqlite Checks

variable {env : Env} {a : EventArgs} {db db' : Db}

/-! ## Frames -/

/-- Nothing changed but the audit log, which grew by at most one reject row. -/
def RejectOnly (db db' : Db) : Prop :=
  db' = db ∨ ∃ row : AuditRow, row.action = lit "command_reject" ∧
    db' = { db with auditLog := db.auditLog ++ [row] }

theorem RejectOnly.refl (db : Db) : RejectOnly db db := .inl rfl

theorem RejectOnly.events (h : RejectOnly db db') : db'.events = db.events := by
  rcases h with rfl | ⟨row, -, rfl⟩ <;> rfl

theorem RejectOnly.sourceCounters (h : RejectOnly db db') :
    db'.sourceCounters = db.sourceCounters := by
  rcases h with rfl | ⟨row, -, rfl⟩ <;> rfl

theorem RejectOnly.acks (h : RejectOnly db db') : db'.acks = db.acks := by
  rcases h with rfl | ⟨row, -, rfl⟩ <;> rfl

theorem RejectOnly.federationOutbound (h : RejectOnly db db') :
    db'.federationOutbound = db.federationOutbound := by
  rcases h with rfl | ⟨row, -, rfl⟩ <;> rfl

/-- A rejection never returns an event, and audits at most once. -/
theorem reject_cases (env : Env) (a : EventArgs) (db : Db) (result message : String) :
    RejectOnly db (reject env a result message db).1 ∧
      ∃ e, (reject env a result message db).2 = .error e := by
  unfold reject
  cases h : audit env db a.now a.source "command_reject" a.sourceRef a.target a.key result with
  | error e => exact ⟨.refl db, e, rfl⟩
  | ok db' =>
    refine ⟨.inr ?_, _, rfl⟩
    simp only [audit, bind_eq_ok, pure_eq_ok] at h
    obtain ⟨_, -, ref, -, _, -, key, -, rfl⟩ := h
    exact ⟨_, rfl, rfl⟩

/-! ## The allocator and the insert -/

theorem upsertCounter_frame (db : Db) (source : Str) (init : SqlVal) (f : SqlVal → SqlVal) :
    upsertCounter db source init f =
      { db with sourceCounters := (upsertCounter db source init f).sourceCounters } := rfl

section
variable {source : Str}

theorem findCounter_map {rows : List CounterRow} (f : SqlVal → SqlVal) :
    (rows.map fun row =>
      if row.source = source then { row with lastSeq := f row.lastSeq } else row).find?
        (·.source = source) =
      (rows.find? (·.source = source)).map fun row => { row with lastSeq := f row.lastSeq } := by
  induction rows with
  | nil => rfl
  | cons row rows ih =>
    rw [List.map_cons, List.find?_cons, List.find?_cons]
    by_cases h : row.source = source
    · simp [h]
    · simp only [h, if_false, decide_false, ih]

theorem findCounter_upsert (init : SqlVal) (f : SqlVal → SqlVal) :
    findCounter (upsertCounter db source init f) source =
      some (match findCounter db source with
        | none => ⟨source, init⟩
        | some row => { row with lastSeq := f row.lastSeq }) := by
  unfold findCounter upsertCounter
  by_cases h : (db.sourceCounters.any fun row => decide (row.source = source)) = true
  · simp only [h, if_true, findCounter_map]
    rw [List.any_eq_true] at h
    obtain ⟨row, hrow, hs⟩ := h
    cases hfind : db.sourceCounters.find? (·.source = source) with
    | none =>
      rw [List.find?_eq_none] at hfind
      exact absurd hs (hfind row hrow)
    | some row => rfl
  · have hnone : db.sourceCounters.find? (·.source = source) = none := by
      rw [List.find?_eq_none]
      exact fun row hrow hs => h (List.any_eq_true.mpr ⟨row, hrow, hs⟩)
    simp only [h, Bool.false_eq_true, if_false, hnone, List.find?_append]
    simp

theorem findCounter_upsert_ne {source' : Str} (h : source' ≠ source) (init : SqlVal)
    (f : SqlVal → SqlVal) :
    findCounter (upsertCounter db source init f) source' = findCounter db source' := by
  have hmap : ∀ rows : List CounterRow, (rows.map fun row =>
      if row.source = source then { row with lastSeq := f row.lastSeq } else row).find?
        (·.source = source') = rows.find? (·.source = source') := by
    intro rows
    induction rows with
    | nil => rfl
    | cons row rows ih =>
      rw [List.map_cons, List.find?_cons, List.find?_cons, ih]
      by_cases hs : row.source = source
      · simp [hs, Ne.symm h]
      · simp [hs]
  unfold findCounter upsertCounter
  by_cases hany : (db.sourceCounters.any fun row => decide (row.source = source)) = true
  · simp only [hany, if_true, hmap]
  · simp only [hany, Bool.false_eq_true, if_false, List.find?_append]
    simp [Ne.symm h]

end

/-- The allocator touches the counters only. -/
theorem allocate_frame {db₁ : Db} {v : Val} (h : allocate env db a = .ok (db₁, v)) :
    db₁ = { db with sourceCounters := db₁.sourceCounters } := by
  unfold allocate at h
  split at h
  · simp only [bind_eq_ok, pure_eq_ok, Prod.exists, Prod.mk.injEq] at h
    obtain ⟨db₂, n, hn, rfl, -⟩ := h
    simp only [nextSeq, bind_eq_ok] at hn
    obtain ⟨_, -, hn⟩ := hn
    split at hn
    · cases hn
    · simp only [bind_eq_ok, pure_eq_ok, Prod.mk.injEq] at hn
      obtain ⟨_, -, rfl, -⟩ := hn
      rfl
  · cases h
    rfl

/-- A committed row: who may write it, that its keys were free, and how the tables look after. -/
structure Committed (env : Env) (a : EventArgs) (db : Db) (row : EventRow) (db' : Db) : Prop where
  sourced : ¬ (a.type = lit "command" ∧ a.sourceRef.truthy = false)
  key : textParam env a.key = .ok (some row.eventId)
  fresh : findEvent db (some row.eventId) = none
  verdict : authorize env db a = .ok (.allowed row.authActor)
  slot : ∃ db₁ seqVal, allocate env db a = .ok (db₁, seqVal) ∧
    rowParams env a seqVal = .ok ⟨some row.eventId, row.seq, some row.createdAt, row.sourceRef⟩ ∧
    db'.sourceCounters = (raiseCounter db₁ a.source row.seq).sourceCounters
  notNull : row.seq ≠ .null
  free : ∀ r ∈ db.events, r.source = a.source → sqlEq r.seq row.seq = false
  columns : row = eventRow db a row.authActor row.eventId row.seq row.createdAt row.sourceRef
  events : db'.events = db.events ++ [row]
  auditLog : db'.auditLog = if a.type = lit "command" then
    (auditRow db a.now (some a.source) (lit "command_accept") row.sourceRef (some a.target)
      (some row.eventId) (lit "accepted") []).auditLog else db.auditLog
  frame : db' = { db with
    events := db'.events, sourceCounters := db'.sourceCounters, auditLog := db'.auditLog }

def Pending.isFetch : Pending → Bool
  | .fetch _ => true
  | _ => false

theorem findEvent_eq_none_iff {key : Str} :
    findEvent db (some key) = none ↔ ∀ r ∈ db.events, r.eventId ≠ key := by
  simp [findEvent, List.find?_eq_none]

theorem insertRow_ok {authActor : Option Str} {p : RowParams} {db₁ : Db} {row : EventRow}
    (h : insertRow db a authActor p = .ok (db₁, row)) :
    ∃ key created, p.key = some key ∧ p.created = some created ∧ p.seq ≠ .null ∧
      row = eventRow db a authActor key p.seq created p.sourceRef ∧
      (∀ r ∈ db.events, r.eventId ≠ key) ∧
      (∀ r ∈ db.events, r.source = a.source → sqlEq r.seq p.seq = false) ∧
      db₁ = { db with events := db.events ++ [row] } := by
  obtain ⟨key, seq, created, ref⟩ := p
  cases key with
  | none => cases h
  | some key =>
    have hs : seq ≠ .null := by rintro rfl; cases h
    cases created with
    | none => cases seq <;> cases h
    | some created =>
      have h' : (if db.events.any (·.eventId = key) then .error .eventId
          else if db.events.any fun row => row.source = a.source && sqlEq row.seq seq then
            .error (.other "events.source, events.seq")
          else .ok ({ db with events := db.events ++ [eventRow db a authActor key seq created ref] },
            eventRow db a authActor key seq created ref) : Except RowError (Db × EventRow)) =
          .ok (db₁, row) := by
        cases seq with
        | null => exact absurd rfl hs
        | _ => exact h
      split_ifs at h' with hid hsrc
      simp only [Except.ok.injEq, Prod.mk.injEq] at h'
      obtain ⟨hdb, rfl⟩ := h'
      exact ⟨key, created, rfl, rfl, hs, rfl, by simpa using hid, by simpa using hsrc, hdb.symm⟩

theorem allocate_given (env : Env) (db : Db) (h : a.seq ≠ .none) :
    allocate env db a = .ok (db, a.seq) := by
  unfold allocate
  split
  · next hn => exact absurd hn h
  · rfl

theorem insertRow_of_free {actor : Option Str} {k created : Str} {seq : SqlVal} {ref : Option Str}
    (hnull : seq ≠ .null) (hids : findEvent db (some k) = none)
    (hfree : ∀ row ∈ db.events, row.source = a.source → sqlEq row.seq seq = false) :
    insertRow db a actor ⟨some k, seq, some created, ref⟩ =
      .ok ({ db with events := db.events ++ [eventRow db a actor k seq created ref] },
        eventRow db a actor k seq created ref) := by
  have hid : (db.events.any fun row => decide (row.eventId = k)) = false := by
    rw [findEvent_eq_none_iff] at hids
    simpa using hids
  have hsrc : (db.events.any fun row => decide (row.source = a.source) && sqlEq row.seq seq) =
      false := by
    simpa using hfree
  unfold insertRow
  cases seq with
  | null => exact absurd rfl hnull
  | _ => simp only [hid, hsrc, Bool.false_eq_true, if_false]

/-- The value stored for a key comes from the key. -/
theorem textParam_of_rowParams {v : Val} {p : RowParams} (h : rowParams env a v = .ok p) :
    textParam env a.key = .ok p.key := by
  simp only [rowParams, bind_eq_ok, pure_eq_ok] at h
  obtain ⟨k, hk, _, -, _, -, _, -, _, -, _, -, _, -, _, -, rfl⟩ := h
  exact hk

/-- The write part of the transaction: all of it, or the ledger as it was. -/
theorem commitEvent_cases {authActor : Option Str} {key : Option Str}
    (hsourced : ¬ (a.type = lit "command" ∧ a.sourceRef.truthy = false))
    (hkey : textParam env a.key = .ok key) (hfresh : findEvent db key = none)
    (hverdict : authorize env db a = .ok (.allowed authActor)) :
    (∃ p, commitEvent env db a authActor = (db, p) ∧ p.isFetch = false ∧
        (∀ r m, p ≠ .rejected r m) ∧ ∀ ev, p ≠ .finished (.ok ev)) ∨
      ∃ row db', commitEvent env db a authActor = (db', .fetch row.id) ∧
        Committed env a db row db' := by
  unfold commitEvent
  cases halloc : allocate env db a with
  | error e => exact .inl ⟨.finished (.error e), rfl, rfl, by simp, by simp⟩
  | ok r =>
    obtain ⟨db₁, seqVal⟩ := r
    have hframe := allocate_frame halloc
    simp only
    cases hp : rowParams env a seqVal with
    | error e => exact .inl ⟨.finished (.error e), rfl, rfl, by simp, by simp⟩
    | ok p =>
      simp only
      cases hrow : insertRow db₁ a authActor p with
      | error e =>
        cases e with
        | eventId => exact .inl ⟨.refetch, rfl, rfl, by simp, by simp⟩
        | other c => exact .inl ⟨.finished (.error (.integrity c)), rfl, rfl, by simp, by simp⟩
      | ok q =>
        obtain ⟨db₂, row⟩ := q
        right
        obtain ⟨k, created, hk, hc, hnull, hrw, hids, hsrcs, hdb₂⟩ := insertRow_ok hrow
        have hev : db₁.events = db.events := by rw [hframe]
        have haud : db₁.auditLog = db.auditLog := by rw [hframe]
        have hk' : p.key = key := by
          simp only [rowParams, bind_eq_ok, pure_eq_ok] at hp
          obtain ⟨k', hk', _, -, _, -, _, -, _, -, _, -, _, -, _, -, rfl⟩ := hp
          exact Except.ok.inj (hk'.symm.trans hkey)
        rw [hk] at hk'
        subst hk'
        have hseqrow : row.seq = p.seq := by rw [hrw]; rfl
        have hparams : p = ⟨some k, row.seq, some row.createdAt, row.sourceRef⟩ := by
          rw [hrw, ← hk]
          obtain ⟨_, _, _, _⟩ := p
          simp only at hc
          rw [hc]
          rfl
        have hidrow : row.eventId = k := by rw [hrw]; rfl
        have hactor : row.authActor = authActor := by rw [hrw]; rfl
        refine ⟨row, if a.type = lit "command" then
            auditRow (raiseCounter db₂ a.source row.seq) a.now (some a.source)
              (lit "command_accept") row.sourceRef (some a.target) (some row.eventId)
              (lit "accepted") []
          else raiseCounter db₂ a.source row.seq, rfl, ?_⟩
        constructor
        · exact hsourced
        · rw [hidrow]
          exact hkey
        · rw [hidrow]
          exact hfresh
        · rw [hactor]
          exact hverdict
        · refine ⟨db₁, seqVal, halloc, ?_, ?_⟩
          · rw [hidrow, ← hparams]
            exact hp
          · subst hdb₂
            split_ifs <;> rfl
        · rw [hseqrow]
          exact hnull
        · rw [hseqrow, ← hev]
          exact hsrcs
        · rw [hrw]
          simp only [eventRow, hev]
        · rw [← hev]
          subst hdb₂
          split_ifs <;> rfl
        · subst hdb₂
          split_ifs with hcmd
          · simp only [auditRow, raiseCounter, upsertCounter, haud, hidrow]
          · exact haud
        · subst hdb₂
          rw [hframe]
          split_ifs <;> rfl

/-! ## The transaction and the call -/

/-- The row an id belongs to, under the caller's identity. -/
def OwnEvent (a : EventArgs) (db : Db) (ev : Event) : Prop :=
  ∃ row ∈ db.events, rowToEvent row = .ok ev ∧
    (row.source, row.target, row.type) = (a.source, a.target, a.type)

theorem rowToEvent_ok {row : EventRow} {ev : Event} (h : rowToEvent row = .ok ev) :
    ∃ seq, intOf row.seq = .ok seq ∧ ev = ⟨row.id, row.eventId, row.source, row.target, row.type,
      seq, row.createdAt, row.storedAt, row.payload, row.requiresAck, row.sourceRef,
      row.authActor⟩ := by
  unfold rowToEvent at h
  split at h
  · cases h
  · rename_i seq hseq
    exact ⟨seq, hseq, (Except.ok.inj h).symm⟩

theorem verifyEventIdentity_ok {e ev : Event} {source target type : Str}
    (h : verifyEventIdentity e source target type = .ok ev) :
    ev = e ∧ (e.source, e.target, e.type) = (source, target, type) := by
  unfold verifyEventIdentity at h
  split at h
  · cases h
  · rename_i hid
    exact ⟨(Except.ok.inj h).symm, not_not.mp hid⟩

/-- A row found and verified is the caller's. -/
theorem ownEvent_of_verify {row : EventRow} {ev : Event} (hrow : row ∈ db.events)
    (h : (do verifyEventIdentity (← rowToEvent row) a.source a.target a.type) = .ok ev) :
    OwnEvent a db ev := by
  rw [bind_eq_ok] at h
  obtain ⟨e, he, hid⟩ := h
  obtain ⟨rfl, hid⟩ := verifyEventIdentity_ok hid
  obtain ⟨seq, -, rfl⟩ := rowToEvent_ok he
  exact ⟨row, hrow, he, hid⟩

theorem findEvent_mem {key : Option Str} {row : EventRow} (h : findEvent db key = some row) :
    row ∈ db.events := List.mem_of_find?_eq_some h

/-- The immediate transaction commits one row, or leaves the ledger as it was. -/
theorem writeEvent_cases (env : Env) (a : EventArgs) (db : Db)
    (hsourced : ¬ (a.type = lit "command" ∧ a.sourceRef.truthy = false)) :
    (∃ p, writeEvent env a db = (db, p) ∧ p.isFetch = false ∧
        ∀ ev, p = .finished (.ok ev) → OwnEvent a db ev) ∨
      ∃ row db', writeEvent env a db = (db', .fetch row.id) ∧ Committed env a db row db' := by
  unfold writeEvent
  cases hkey : textParam env a.key with
  | error e => exact .inl ⟨_, rfl, rfl, by simp⟩
  | ok key =>
    simp only
    cases hfind : findEvent db key with
    | some row =>
      refine .inl ⟨_, rfl, rfl, ?_⟩
      intro ev h
      exact ownEvent_of_verify (findEvent_mem hfind) (Pending.finished.inj h)
    | none =>
      simp only
      cases hv : authorize env db a with
      | error e => exact .inl ⟨_, rfl, rfl, by simp⟩
      | ok v =>
        cases v with
        | rejected r m => exact .inl ⟨_, rfl, rfl, by simp⟩
        | refused => exact .inl ⟨_, rfl, rfl, by simp⟩
        | allowed authActor =>
          rcases commitEvent_cases hsourced hkey hfind hv with ⟨p, hp, hf, -, hev⟩ | ⟨row, db', h, hc⟩
          · exact .inl ⟨p, hp, hf, fun ev h => absurd h (hev ev)⟩
          · exact .inr ⟨row, db', h, hc⟩

/-- What follows the transaction writes at most a reject row. -/
theorem finishEvent_cases (env : Env) (a : EventArgs) (db : Db) (p : Pending) :
    RejectOnly db (finishEvent env a db p).1 := by
  cases p with
  | finished r => exact .refl db
  | fetch id => exact .refl db
  | refetch => exact .refl db
  | rejected r m => exact (reject_cases env a db r m).1

/-- The id of a row appended last finds it. -/
theorem getEventById_append {row : EventRow} (hid : row.id = nextId (db.events.map (·.id)))
    (hev : db'.events = db.events ++ [row]) : getEventById db' row.id = rowToEvent row := by
  have hnone : db.events.find? (fun r => decide (r.id = row.id)) = none := by
    rw [List.find?_eq_none]
    intro r hr hrid
    rw [decide_eq_true_eq, hid] at hrid
    have hlt : r.id < nextId (db.events.map (·.id)) := lt_nextId (List.mem_map_of_mem hr)
    omega
  unfold getEventById
  rw [hev, List.find?_append, hnone]
  simp

/-- The id of a committed row finds it. -/
theorem Committed.getEventById {row : EventRow} (h : Committed env a db row db') :
    getEventById db' row.id = rowToEvent row :=
  getEventById_append (congrArg EventRow.id h.columns) h.events

/-- An id that violated its key is found, and the row is the caller's or a conflict. -/
theorem ownEvent_of_refetch {ev : Event}
    (h : (do verifyEventIdentity (← getEvent db (← textParam env a.key)) a.source a.target a.type) =
      .ok ev) : OwnEvent a db ev := by
  rw [bind_eq_ok] at h
  obtain ⟨key, -, h⟩ := h
  unfold getEvent at h
  split at h
  · rw [error_bind] at h
    cases h
  · rename_i row hrow
    exact ownEvent_of_verify (findEvent_mem hrow) h

/-- The whole call: nothing but a reject row, or one committed row and that row decoded. -/
theorem insertEvent_cases (env : Env) (a : EventArgs) (db : Db) :
    (RejectOnly db (insertEvent env a db).1 ∧
        ∀ ev, (insertEvent env a db).2 = .ok ev → OwnEvent a db ev) ∨
      ∃ row, Committed env a db row (insertEvent env a db).1 ∧
        (insertEvent env a db).2 = rowToEvent row := by
  unfold insertEvent
  split
  · obtain ⟨hdb, e, he⟩ := reject_cases env a db "missing_source_ref"
      "command requires source_ref"
    refine .inl ⟨hdb, fun ev h => ?_⟩
    rw [he] at h
    cases h
  next hsourced =>
    rcases writeEvent_cases env a db hsourced with ⟨p, hp, hf, hev⟩ | ⟨row, db', hp, hc⟩
    · rw [hp]
      refine .inl ⟨finishEvent_cases env a db p, fun ev h => ?_⟩
      cases p with
      | finished r => exact hev ev (congrArg Pending.finished h)
      | fetch id => cases hf
      | refetch => exact ownEvent_of_refetch h
      | rejected r m =>
        obtain ⟨-, e, he⟩ := reject_cases env a db r m
        exact absurd (he.symm.trans h) (by simp)
    · rw [hp]
      exact .inr ⟨row, hc, hc.getEventById⟩

end Core
end ATalk
