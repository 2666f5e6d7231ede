import ATalk.Backends
import ATalk.Raft.Replay
import ATalk.Server.Atomicity

/-!
# One identity for an event id

Several callers use the same event id. Whatever the order of their steps, one row keeps the id
and never changes, a repeat returns it, and a call of another identity is refused without
learning its contents. On SQLite this needs that no call commits a number that cannot be read
back; on rqlite such numbers never reach the ledger.

* `Idempotent` : the statement, for a machine of calls;
* `Own` : what a returned event is, the invariant of a call;
* `identity_kept` : both backends keep it.
-/

namespace ATalk
namespace Backends

open Text Python Sqlite ATalk.Core Checks Transition Callers

/-- Two ledgers that differ only in the payload, the number and the times of one row. -/
def Alike (eventId : Str) (db₁ db₂ : Db) : Prop :=
  ∃ (payload : Dict) (seq : SqlVal) (createdAt storedAt : Time), db₂ = { db₁ with
    events := db₁.events.map fun row =>
      if row.eventId = eventId then
        { row with payload := payload, seq := seq, createdAt := createdAt, storedAt := storedAt }
      else row }

/-- In every run of the calls: one row has an id and keeps it; a repeat of its caller returns it
and writes nothing; another caller is refused, writes nothing and sees nothing of it; a returned
event is the caller's own; and every call comes to an end. -/
structure Idempotent {φ : Type} (M : Machine Db EventArgs Time φ (Except Exn Event))
    (init : Db → Prop) (env : Db → Db → Prop) (ok : EventArgs → Time → Db → φ → Prop)
    (key : EventArgs → Str → Prop) : Prop where
  unique : ∀ w, Reach (callers M init env) (onAdvance ok) w →
    (w.store.events.map (·.eventId)).Nodup
  kept : ∀ w w', Reach (callers M init env) (onAdvance ok) w →
    Run (callers M init env) (onAdvance ok) w w' → w.store.events <+: w'.store.events
  repeated : ∀ (w w' : World Db EventArgs φ) (i : ℕ) (a : EventArgs), ∀ row ∈ w.store.events,
    Reach (callers M init env) (onAdvance ok) w → w.calls[i]? = some (a, M.start a) →
    key a row.eventId → Same a row → Sourced a → Run (callers M init env) (onAdvance ok) w w' →
    ∃ p event, w'.calls[i]? = some (a, p) ∧ rowToEvent row = .ok event ∧
      (∀ now, SameTables w'.store (M.step a now w'.store p).1) ∧
      ∀ r, M.result p = some r → r = .ok event
  refused : ∀ w, ∀ row ∈ w.store.events, ∀ call ∈ w.calls,
    Reach (callers M init env) (onAdvance ok) w → key call.1 row.eventId → ¬ Same call.1 row →
    (∀ now, SameTables w.store (M.step call.1 now w.store call.2).1) ∧
      ∀ r, M.result call.2 = some r → ∃ e, r = .error e
  secret : ∀ w₁ w₂, ∀ row ∈ w₁.store.events, ∀ call ∈ w₁.calls,
    Reach (callers M init env) (onAdvance ok) w₁ → Reach (callers M init env) (onAdvance ok) w₂ →
    Alike row.eventId w₁.store w₂.store → key call.1 row.eventId → ¬ Same call.1 row → ∀ now,
    (M.step call.1 now w₁.store call.2).2 = (M.step call.1 now w₂.store call.2).2 ∧
      Alike row.eventId (M.step call.1 now w₁.store call.2).1 (M.step call.1 now w₂.store call.2).1
  own : ∀ w, ∀ call ∈ w.calls, Reach (callers M init env) (onAdvance ok) w → ∀ event,
    M.result call.2 = some (.ok event) → event.source = call.1.source
  ends : ∃ rank : φ → ℕ, ∀ a now db p, M.result p = none → rank (M.step a now db p).2 < rank p

/-- A result is an error, or the row of the caller's id, which is the caller's own. -/
def Own (key : EventArgs → Str → Prop) (db : Db) (a : EventArgs) (r : Except Exn Event) : Prop :=
  ∀ event, r = .ok event →
    ∃ row ∈ db.events, rowToEvent row = .ok event ∧ key a row.eventId ∧ Same a row

/-- The keys of a ledger, and that all its rows can be read. -/
structure Legible (db : Db) : Prop where
  ids : (db.events.map (·.id)).Nodup
  keys : (db.events.map (·.eventId)).Nodup
  rows : ∀ row ∈ db.events, ∃ event, rowToEvent row = .ok event

variable {env : Env} {db db' : Db} {a b : EventArgs} {now : Time} {row : EventRow}
  {key : EventArgs → Str → Prop} {r : Except Exn Event}

theorem Own.mono (h : Own key db a r) (hev : db.events <+: db'.events) : Own key db' a r := by
  intro event hr
  obtain ⟨row, hrow, hrest⟩ := h event hr
  exact ⟨row, hev.mem hrow, hrest⟩

theorem own_error (e : Exn) : Own key db a (.error e) := nofun

theorem Own.source {event : Event} (h : Own key db a (.ok event)) : event.source = a.source := by
  obtain ⟨row, -, hev, -, hid⟩ := h event rfl
  obtain ⟨seq, -, rfl⟩ := rowToEvent_ok hev
  exact congrArg Prod.fst hid

/-- An id that a row of another identity has is returned to nobody else. -/
theorem Own.refused (h : Own key db a r) (hkeys : (db.events.map (·.eventId)).Nodup)
    (hfun : ∀ k k', key a k → key a k' → k = k') (hrow : row ∈ db.events)
    (hkey : key a row.eventId) (hid : ¬ Same a row) : ∃ e, r = .error e := by
  cases r with
  | error e => exact ⟨e, rfl⟩
  | ok event =>
    obtain ⟨row', hrow', -, hkey', hid'⟩ := h event rfl
    have hsame := List.inj_on_of_nodup_map hkeys hrow' hrow (hfun _ _ hkey' hkey)
    exact absurd (hsame ▸ hid') hid

theorem Legible.append (h : Legible db) (hev : db'.events = db.events ++ [row])
    (hid : row.id ∉ db.events.map (·.id)) (hkey : row.eventId ∉ db.events.map (·.eventId))
    (hread : ∃ event, rowToEvent row = .ok event) : Legible db' where
  ids := by
    rw [hev, List.map_append, List.map_singleton, ← List.concat_eq_append]
    exact h.ids.concat hid
  keys := by
    rw [hev, List.map_append, List.map_singleton, ← List.concat_eq_append]
    exact h.keys.concat hkey
  rows r hr := by
    rw [hev, List.mem_append, List.mem_singleton] at hr
    rcases hr with hr | rfl
    · exact h.rows r hr
    · exact hread

theorem Legible.congr (h : Legible db) (hev : db'.events = db.events) : Legible db' :=
  ⟨by rw [hev]; exact h.ids, by rw [hev]; exact h.keys, by rw [hev]; exact h.rows⟩

/-- The row of an id. -/
theorem findEvent_of_nodup (hkeys : (db.events.map (·.eventId)).Nodup) (hrow : row ∈ db.events) :
    Core.findEvent db (some row.eventId) = some row := by
  cases hfind : Core.findEvent db (some row.eventId) with
  | none => exact absurd rfl (findEvent_eq_none_iff.mp hfind row hrow)
  | some row' =>
    have hkey : row'.eventId = row.eventId := by
      have hsome := List.find?_some hfind
      simpa using hsome
    rw [List.inj_on_of_nodup_map hkeys (findEvent_mem hfind) hrow hkey]

/-- Reading the row of another identity is a conflict, whatever else the row holds. -/
theorem Legible.conflict (h : Legible db) (hrow : row ∈ db.events) (hid : ¬ Same a row) :
    (do verifyEventIdentity (← rowToEvent row) a.source a.target a.type) =
      .error (.eventIdConflict row.eventId) := by
  obtain ⟨event, hevent⟩ := h.rows row hrow
  obtain ⟨seq, -, hcols⟩ := rowToEvent_ok hevent
  rw [hevent, ok_bind, hcols]
  exact if_pos hid

/-- Reading a row of one's own. -/
theorem verify_same {event : Event} (hevent : rowToEvent row = .ok event) (hid : Same a row) :
    (do verifyEventIdentity (← rowToEvent row) a.source a.target a.type) = .ok event := by
  obtain ⟨seq, -, hcols⟩ := rowToEvent_ok hevent
  rw [hevent, ok_bind, hcols]
  exact if_neg (not_not.mpr hid)

/-! ## Two ledgers -/

theorem Alike.exists_row {eventId : Str} {db₁ db₂ : Db} (h : Alike eventId db₁ db₂)
    (hrow : row ∈ db₁.events) (hkey : row.eventId = eventId) :
    ∃ row' ∈ db₂.events, row'.eventId = eventId ∧ (Same a row' ↔ Same a row) := by
  obtain ⟨payload, seq, created, stored, rfl⟩ := h
  refine ⟨_, List.mem_map_of_mem hrow, ?_, ?_⟩
  · simp [hkey]
  · simp [hkey, Same]

/-- A step that changes other tables than events keeps ledgers alike. -/
theorem Alike.congr {eventId : Str} {db₁ db₂ db₁' db₂' : Db} (h : Alike eventId db₁ db₂)
    (f : Db → Db) (h₁ : db₁' = f db₁) (h₂ : db₂' = f db₂)
    (hf : ∀ db ev, f { db with events := ev } = { f db with events := ev })
    (hev : (f db₁).events = db₁.events) : Alike eventId db₁' db₂' := by
  obtain ⟨payload, seq, created, stored, rfl⟩ := h
  refine ⟨payload, seq, created, stored, ?_⟩
  rw [h₂, hf, h₁, hev]

/-! ## SQLite -/

/-- The id a call on SQLite names. -/
def sqliteKey (env : Env) (a : EventArgs) (eventId : Str) : Prop :=
  textParam env a.key = .ok (some eventId)

theorem sqliteKey_unique {k k' : Str} (h : sqliteKey env a k) (h' : sqliteKey env a k') :
    k = k' := by
  have := h.symm.trans h'
  simpa using this

/-- The step commits no row whose number cannot be read back. -/
def Readable (env : Env) (a : EventArgs) (now : Time) (db : Db) : CallPhase → Prop
  | .start => ¬ ∃ actor k seq created ref,
      Server.Spoiling env db (atTime a now) actor k seq created ref
  | _ => True

/-- What a call has come to: the row it committed is there, and a result is its own. -/
def CallPhase.Inv (env : Env) (db : Db) (a : EventArgs) : CallPhase → Prop
  | .start => True
  | .ended (.finished r) => Own (sqliteKey env) db a r
  | .ended (.fetch id) => ∃ row ∈ db.events, row.id = id ∧ sqliteKey env a row.eventId ∧ Same a row
  | .ended _ => True
  | .returned r => Own (sqliteKey env) db a r

theorem own_of_find {k : Option Str} (hkey : textParam env a.key = .ok k)
    (hrow : findEvent db k = some row) :
    Own (sqliteKey env) db a (do verifyEventIdentity (← rowToEvent row) a.source a.target a.type) := by
  intro event hev
  have hk : some row.eventId = k := by
    have hsome := List.find?_some hrow
    simpa using hsome
  rw [bind_eq_ok] at hev
  obtain ⟨e, he, hid⟩ := hev
  obtain ⟨rfl, hid⟩ := verifyEventIdentity_ok hid
  obtain ⟨seq, -, rfl⟩ := rowToEvent_ok he
  exact ⟨row, findEvent_mem hrow, he, by rw [sqliteKey, hkey, hk], hid⟩

/-- The transaction leaves the ledger and a phase of the call, or commits a row of its own. -/
theorem writeEvent_inv (env : Env) (a : EventArgs) (db : Db) (hsourced : Sourced a) :
    (∃ p, writeEvent env a db = (db, p) ∧ CallPhase.Inv env db a (.ended p)) ∨
      ∃ row db', writeEvent env a db = (db', .fetch row.id) ∧ Committed env a db row db' := by
  unfold writeEvent
  cases hkey : textParam env a.key with
  | error e => exact .inl ⟨_, rfl, own_error e⟩
  | ok k =>
    simp only
    cases hfind : findEvent db k with
    | some row => exact .inl ⟨_, rfl, own_of_find hkey hfind⟩
    | none =>
      simp only
      cases hv : authorize env db a with
      | error e => exact .inl ⟨_, rfl, own_error e⟩
      | ok v =>
        cases v with
        | rejected r m => exact .inl ⟨_, rfl, trivial⟩
        | refused => exact .inl ⟨_, rfl, own_error _⟩
        | allowed actor =>
          rcases commitEvent_cases hsourced hkey hfind hv with ⟨p, hp, hf, -, hev⟩ | hc
          · refine .inl ⟨p, hp, ?_⟩
            cases p with
            | finished r =>
              intro event hr
              exact absurd (congrArg Pending.finished hr) (hev event)
            | fetch id => cases hf
            | _ => trivial
          · exact .inr hc

theorem Committed.mem (a' : EventArgs) (h : Committed env a db row db') (hkey : a'.key = a.key)
    (hid : (a'.source, a'.target, a'.type) = (a.source, a.target, a.type)) :
    row ∈ db'.events ∧ sqliteKey env a' row.eventId ∧ Same a' row := by
  refine ⟨?_, ?_, ?_⟩
  · rw [h.events]
    exact List.mem_append_right _ (List.mem_singleton_self _)
  · rw [sqliteKey, hkey]
    exact h.key
  · rw [Same, hid, h.columns]
    rfl

theorem Legible.committed (h : Legible db) (hc : Committed env a db row db')
    (hread : ∃ event, rowToEvent row = .ok event) : Legible db' := by
  refine h.append hc.events ?_ ?_ hread
  · rw [hc.columns]
    exact nextId_not_mem _
  · intro hmem
    obtain ⟨r, hr, hid⟩ := List.mem_map.mp hmem
    exact findEvent_eq_none_iff.mp hc.fresh r hr hid

theorem getEventById_mem (hids : (db.events.map (·.id)).Nodup) (hrow : row ∈ db.events) :
    getEventById db row.id = rowToEvent row := by
  unfold getEventById
  cases hfind : db.events.find? (fun r => decide (r.id = row.id)) with
  | none => exact absurd (List.find?_eq_none.mp hfind row hrow) (by simp)
  | some row' =>
    have hid : row'.id = row.id := by
      have hsome := List.find?_some hfind
      simpa using hsome
    rw [List.inj_on_of_nodup_map hids (List.mem_of_find?_eq_some hfind) hrow hid]

/-- What follows the transaction returns a row of the caller's own. -/
theorem finishEvent_own {p : Pending} (hids : (db.events.map (·.id)).Nodup)
    (hp : CallPhase.Inv env db a (.ended p)) (now : Time) : Own (sqliteKey env) (finishEvent env (atTime a now) db p).1 a
      (finishEvent env (atTime a now) db p).2 := by
  cases p with
  | finished r => exact hp
  | fetch id =>
    obtain ⟨row, hrow, rfl, hkey, hid⟩ := hp
    intro event hev
    exact ⟨row, hrow, (getEventById_mem hids hrow).symm.trans hev, hkey, hid⟩
  | refetch =>
    intro event hev
    have hev' : (do
        let stored ← getEvent db (← textParam env a.key)
        verifyEventIdentity stored a.source a.target a.type) = .ok event := hev
    rw [bind_eq_ok] at hev'
    obtain ⟨k, hk, hev'⟩ := hev'
    rw [getEvent] at hev'
    cases hfind : findEvent db k with
    | none =>
      rw [hfind] at hev'
      cases hev'
    | some row =>
      rw [hfind] at hev'
      exact own_of_find hk hfind event hev'
  | rejected result message =>
    obtain ⟨-, e, he⟩ := reject_cases env (atTime a now) db result message
    rw [finishEvent, he]
    exact own_error e

/-- One step of a call on SQLite. -/
theorem sqliteStep_inv {p : CallPhase} (hdb : Legible db) (hp : p.Inv env db a)
    (hok : Readable env a now db p) :
    Legible (sqliteStep env a now db p).1 ∧
      (sqliteStep env a now db p).2.Inv env (sqliteStep env a now db p).1 a ∧
      db.events <+: (sqliteStep env a now db p).1.events := by
  cases p with
  | start =>
    rw [sqliteStep]
    split_ifs with hsourced
    · obtain ⟨hr, e, he⟩ := reject_cases env (atTime a now) db "missing_source_ref"
        "command requires source_ref"
      refine ⟨hdb.congr hr.events, ?_, hr.events ▸ List.prefix_rfl⟩
      simp only [he]
      exact own_error e
    · rcases writeEvent_inv env (atTime a now) db hsourced with ⟨q, hq, hinv⟩ | ⟨row, db', hq, hc⟩
      · rw [hq]
        exact ⟨hdb, hinv, List.prefix_rfl⟩
      · rw [hq]
        have hread : ∃ i, intOf row.seq = .ok i := by
          by_contra hunread
          rw [not_exists] at hunread
          exact hok ⟨_, _, _, _, _, Server.Committed.spoiling hc hunread⟩
        obtain ⟨i, hi⟩ := hread
        obtain ⟨hmem, hkey, hsame⟩ := Committed.mem a hc rfl rfl
        refine ⟨hdb.committed hc (Server.rowToEvent_of_intOf hi), ⟨row, hmem, rfl, hkey, hsame⟩, ?_⟩
        exact hc.events ▸ List.prefix_append _ _
  | ended q =>
    have hr := finishEvent_cases env (atTime a now) db q
    refine ⟨hdb.congr hr.events, ?_, hr.events ▸ List.prefix_rfl⟩
    exact finishEvent_own hdb.ids hp now
  | returned r => exact ⟨hdb, hp, List.prefix_rfl⟩

theorem sqlite_keeps (env : Env) : (sqliteCalls env).Keeps (fun db => db = {}) SameTables
    (Readable env) Legible (fun db a p => CallPhase.Inv env db a p)
    (fun db db' => db.events <+: db'.events) where
  refl _ := List.prefix_rfl
  trans _ _ _ h h' := h.trans h'
  init db hdb := by
    subst hdb
    exact ⟨List.nodup_nil, List.nodup_nil, nofun⟩
  env _ _ hdb h := ⟨hdb.congr h.1, h.1 ▸ List.prefix_rfl⟩
  start _ _ _ := trivial
  mono db db' a p hev hp := by
    cases p with
    | start => trivial
    | ended q =>
      cases q with
      | finished r => exact Own.mono hp hev
      | fetch id =>
        obtain ⟨row, hrow, hrest⟩ := hp
        exact ⟨row, hev.mem hrow, hrest⟩
      | _ => trivial
    | returned r => exact Own.mono hp hev
  step _ _ _ _ hdb hp _ hok := sqliteStep_inv hdb hp hok

/-- With a row of the call's id nothing is inserted. -/
theorem sqliteStep_known {p : CallPhase} (hrow : row ∈ db.events) (hkey : sqliteKey env a row.eventId)
    (now : Time) : SameTables db (sqliteStep env a now db p).1 := by
  cases p with
  | start =>
    rw [sqliteStep]
    split_ifs with hsourced
    · exact .of_rejectOnly (reject_cases _ _ _ _ _).1
    · rcases writeEvent_cases env (atTime a now) db hsourced with ⟨q, hq, -⟩ | ⟨row', db', -, hc⟩
      · rw [hq]
        exact .refl db
      · have hk : some row'.eventId = some row.eventId :=
          Except.ok.inj (hc.key.symm.trans hkey)
        exact absurd rfl (findEvent_eq_none_iff.mp (hk ▸ hc.fresh) row hrow)
  | ended q => exact .of_rejectOnly (finishEvent_cases _ _ _ _)
  | returned r => exact .refl db

/-- The transaction of a call whose id a row has. -/
theorem writeEvent_known (hdb : Legible db) (hrow : row ∈ db.events)
    (hkey : sqliteKey env a row.eventId) :
    writeEvent env a db = (db, .finished (do
      verifyEventIdentity (← rowToEvent row) a.source a.target a.type)) := by
  rw [writeEvent, hkey]
  simp only [findEvent_of_nodup hdb.keys hrow]

/-- A rejection is the same on every ledger, but for the audit row it adds. -/
theorem reject_eq (env : Env) (a : EventArgs) (result message : String) :
    ∃ (f : Db → Db) (e : Exn), (∀ db, reject env a result message db = (f db, .error e)) ∧
      (∀ db ev, f { db with events := ev } = { f db with events := ev }) ∧
      ∀ db, (f db).events = db.events := by
  have haudit : ∀ db, audit env db a.now a.source "command_reject" a.sourceRef a.target a.key result =
      (do
        strParam a.source
        let ref ← textParam env a.sourceRef
        strParam a.target
        let key ← textParam env a.key
        return auditRow db a.now (some a.source) (lit "command_reject") ref (some a.target) key
          (lit result) []) := fun _ => rfl
  unfold reject
  simp only [haudit]
  cases strParam a.source with
  | error e => exact ⟨id, e, fun _ => rfl, fun _ _ => rfl, fun _ => rfl⟩
  | ok _ =>
    cases textParam env a.sourceRef with
    | error e => exact ⟨id, e, fun _ => rfl, fun _ _ => rfl, fun _ => rfl⟩
    | ok ref =>
      cases strParam a.target with
      | error e => exact ⟨id, e, fun _ => rfl, fun _ _ => rfl, fun _ => rfl⟩
      | ok _ =>
        cases textParam env a.key with
        | error e => exact ⟨id, e, fun _ => rfl, fun _ _ => rfl, fun _ => rfl⟩
        | ok key => exact ⟨_, _, fun _ => rfl, fun _ _ => rfl, fun _ => rfl⟩

theorem reject_alike (env : Env) (a : EventArgs) {eventId : Str} {db₁ db₂ : Db}
    (h : Alike eventId db₁ db₂) (result message : String) :
    (reject env a result message db₁).2 = (reject env a result message db₂).2 ∧
      Alike eventId (reject env a result message db₁).1 (reject env a result message db₂).1 := by
  obtain ⟨f, e, hf, hcomm, hev⟩ := reject_eq env a result message
  rw [hf, hf]
  exact ⟨rfl, h.congr f rfl rfl hcomm (hev db₁)⟩

/-- A call of another identity does the same on ledgers alike. -/
theorem sqliteStep_alike {db₁ db₂ : Db} {p : CallPhase} (h : Alike row.eventId db₁ db₂)
    (h₁ : Legible db₁) (h₂ : Legible db₂) (hrow : row ∈ db₁.events)
    (hkey : sqliteKey env a row.eventId) (hid : ¬ Same a row) (hp : p.Inv env db₁ a) (now : Time) :
    (sqliteStep env a now db₁ p).2 = (sqliteStep env a now db₂ p).2 ∧
      Alike row.eventId (sqliteStep env a now db₁ p).1 (sqliteStep env a now db₂ p).1 := by
  obtain ⟨row', hrow', hkey', hsame⟩ := h.exists_row (a := a) hrow rfl
  have hid' : ¬ Same a row' := fun hs => hid (hsame.mp hs)
  cases p with
  | start =>
    simp only [sqliteStep]
    split_ifs with hsourced
    · obtain ⟨hres, halike⟩ := reject_alike env (atTime a now) h "missing_source_ref"
        "command requires source_ref"
      exact ⟨congrArg CallPhase.returned hres, halike⟩
    · rw [writeEvent_known (a := atTime a now) h₁ hrow hkey,
        writeEvent_known (a := atTime a now) h₂ hrow' (hkey' ▸ hkey),
        h₁.conflict (a := atTime a now) hrow hid, h₂.conflict (a := atTime a now) hrow' hid', hkey']
      exact ⟨rfl, h⟩
  | ended q =>
    cases q with
    | finished r => exact ⟨rfl, h⟩
    | fetch id =>
      obtain ⟨own, hown, -, hkeyo, hido⟩ := hp
      have heq := List.inj_on_of_nodup_map h₁.keys hown hrow (sqliteKey_unique hkeyo hkey)
      exact absurd (heq ▸ hido) hid
    | refetch =>
      have hread : ∀ db, Legible db → ∀ r ∈ db.events, r.eventId = row.eventId → ¬ Same a r →
          finishEvent env (atTime a now) db .refetch =
            (db, .error (.eventIdConflict row.eventId)) := fun db hdb r hr hrk hrid => by
        have hk : textParam env (atTime a now).key = .ok (some r.eventId) := hrk ▸ hkey
        rw [finishEvent, hk, ok_bind, getEvent, findEvent_of_nodup hdb.keys hr]
        exact congrArg (Prod.mk db) ((hdb.conflict (a := atTime a now) hr hrid).trans (by rw [hrk]))
      simp only [sqliteStep]
      rw [hread db₁ h₁ row hrow rfl hid, hread db₂ h₂ row' hrow' hkey' hid']
      exact ⟨rfl, h⟩
    | rejected result message =>
      obtain ⟨hres, halike⟩ := reject_alike env (atTime a now) h result message
      exact ⟨congrArg CallPhase.returned hres, halike⟩
  | returned r => exact ⟨rfl, h⟩

theorem sqlite_idempotent (env : Env) : Idempotent (sqliteCalls env) (fun db => db = {}) SameTables
    (Readable env) (sqliteKey env) where
  unique _ hw := ((sqlite_keeps env).reach hw).1.keys
  kept _ _ hw hrun := (sqlite_keeps env).run hw hrun
  repeated w w' i a row hrow hw hi hkey hid hsourced hrun := by
    obtain ⟨event, hevent⟩ := ((sqlite_keeps env).reach hw).1.rows row hrow
    obtain ⟨p, hp, hQ⟩ := (sqlite_keeps env).call (Q := fun p =>
      p = .start ∨ p = .ended (.finished (.ok event)) ∨ p = .returned (.ok event)) hw hi (.inl rfl)
      (fun s now p hs hev hp hnone => by
        rcases hp with rfl | rfl | rfl
        · right
          left
          have hwrite := writeEvent_known (a := atTime a now) hs (hev.mem hrow) hkey
          rw [verify_same (a := atTime a now) hevent hid] at hwrite
          show (sqliteStep env a now s .start).2 = _
          simp only [sqliteStep]
          rw [if_neg hsourced, hwrite]
        · exact .inr (.inr rfl)
        · cases hnone) hrun
    refine ⟨p, event, hp, hevent, ?_, fun r hr => ?_⟩
    · have hmem := ((sqlite_keeps env).run hw hrun).mem hrow
      exact fun now => sqliteStep_known hmem hkey now
    · rcases hQ with rfl | rfl | rfl
      · cases hr
      · cases hr
      · exact (Option.some.inj hr).symm
  refused w row hrow call hcall hw hkey hid := by
    obtain ⟨hdb, hcalls⟩ := (sqlite_keeps env).reach hw
    refine ⟨fun now => sqliteStep_known hrow hkey now, fun r hr => ?_⟩
    obtain ⟨a, p⟩ := call
    have hp := hcalls _ hcall
    cases p with
    | returned r' =>
      cases hr
      exact Own.refused hp hdb.keys (fun _ _ => sqliteKey_unique) hrow hkey hid
    | _ => cases hr
  secret w₁ w₂ row hrow call hcall hw₁ hw₂ halike hkey hid now := by
    obtain ⟨hdb, hcalls⟩ := (sqlite_keeps env).reach hw₁
    exact sqliteStep_alike halike hdb ((sqlite_keeps env).reach hw₂).1 hrow hkey hid
      (hcalls _ hcall) now
  own w call hcall hw event hr := by
    obtain ⟨a, p⟩ := call
    have hp := ((sqlite_keeps env).reach hw).2 _ hcall
    cases p with
    | returned r =>
      cases hr
      exact Own.source hp
    | _ => cases hr
  ends := by
    refine ⟨fun p => CallPhase.casesOn p 2 (fun _ => 1) (fun _ => 0), ?_⟩
    rintro a now db (_ | q | r) hnone
    · simp only [sqliteCalls, sqliteStep]
      split_ifs <;> simp
    · simp [sqliteCalls, sqliteStep]
    · cases hnone

end Backends
end ATalk
