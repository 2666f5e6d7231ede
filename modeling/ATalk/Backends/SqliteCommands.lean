import ATalk.Backends.Commands

/-!
# Commands on SQLite

The immediate transaction checks the token and the grants, takes the next number and stores the
row, all at one moment; a refusal is audited after its ROLLBACK.

* `Decisive` : the tables for which the checks are the authority and the number can be stored;
* `writeEvent_granted`, `writeEvent_denied` : the two decisions;
* `sqlite_commanded` : every run.
-/

namespace ATalk
namespace Backends

open Text Python Sqlite ATalk.Core Checks Transition Callers
open Raft (Cluster WellFormed Portable OptText hasToken nextValue validateToken matchingGrant)

/-- A grant that is found for a live token is one, and an authorized command finds a number. -/
structure Decisive (env : Env) (a : EventArgs) (now : Time) (db : Db) : Prop where
  picked : LiveToken env db now a → PickedExact env db now a
  number : Authority env a now db → NumberFree env db a.source

/-- A new command is decided on such tables, with parameters that can be bound. -/
def SqliteOk (c : Cluster) (a : EventArgs) (now : Time) (db : Db) : CallPhase → Prop
  | .start => Counted a → Portable c (atTime a now) ∧
      ((∀ row ∈ db.events, ¬ sqliteKey c.env a row.eventId) → Decisive c.env a now db)
  | .ended _ => Counted a → Portable c (atTime a now)
  | .returned _ => True

/-- The step of the transaction. -/
def SqliteDecides : CallPhase → Prop
  | .start => True
  | _ => False

variable {c : Cluster} {env : Env} {db db' : Db} {a : EventArgs} {row : EventRow}

/-! ## The checks -/

theorem validateToken_iff (ha : Portable c a) (hw : WellFormed db) :
    ∃ valid, validateToken c db a.now a.source a.token = .ok valid ∧
      (valid = true ↔ LiveToken c.env db a.now a) := by
  by_cases ht : a.token.truthy = true
  · obtain ⟨digest, hd⟩ := ha.token.tokenDigest c.env ht
    refine ⟨_, Raft.validateToken_digest hw ht hd, fun h => ⟨ht, digest, hd, h⟩, ?_⟩
    rintro ⟨-, digest', hd', h⟩
    cases hd'.symm.trans hd
    exact h
  · refine ⟨false, if_pos (by simpa using ht), nofun, fun h => absurd h.1 ht⟩

theorem matchingGrant_iff {now : Time} (hpicked : PickedExact c.env db now a) :
    (matchingGrant c db now a.source a.target a.payload).isSome = true ↔
      Granted db now a.source a.target a.payload := by
  rw [Option.isSome_iff_exists]
  constructor
  · rintro ⟨grant, hgrant⟩
    obtain ⟨hne, hmem, hlive, hscope⟩ := matchingGrant_some hgrant
    exact hpicked ⟨hne, grant, hmem, hlive, hscope⟩
  · exact matchingGrant_of_granted

/-- The verdict on a command that names its source_ref. -/
theorem authorize_granted (ha : Portable c a) (hw : WellFormed db) (hty : a.type = lit "command")
    (hauth : Authority c.env a a.now db) :
    authorize c.env db a = .ok (.allowed (some a.source)) := by
  obtain ⟨valid, hv, hlive⟩ := validateToken_iff ha hw
  have hvalid : valid = true := hlive.mpr hauth.token
  obtain ⟨grant, hgrant⟩ := matchingGrant_of_granted (c := c) hauth.granted
  rw [Raft.authorize_command ha hty hv, hvalid, hgrant]
  rfl

theorem authorize_denied (ha : Portable c a) (hw : WellFormed db) (hty : a.type = lit "command")
    (hsourced : a.sourceRef.truthy = true)
    (hpicked : LiveToken c.env db a.now a → PickedExact c.env db a.now a)
    (hauth : ¬ Authority c.env a a.now db) :
    ∃ result message, authorize c.env db a = .ok (.rejected result message) := by
  obtain ⟨valid, hv, hlive⟩ := validateToken_iff ha hw
  rw [Raft.authorize_command ha hty hv]
  by_cases hvalid : valid = true
  · have htoken := hlive.mp hvalid
    have hnone : (matchingGrant c db a.now a.source a.target a.payload).isSome = false := by
      rw [← Bool.not_eq_true, matchingGrant_iff (hpicked htoken)]
      exact fun hgranted => hauth ⟨hsourced, htoken, hgranted⟩
    rw [if_neg (by simp [hvalid]), if_pos hnone]
    exact ⟨_, _, rfl⟩
  · rw [if_pos (by simpa using hvalid)]
    exact ⟨_, _, rfl⟩

/-! ## The decisions -/

section
variable {key : Str} (ha : Portable c a) (hw : WellFormed db) (hcmd : Counted a)
  (hsourced : a.sourceRef.truthy = true) (hkey : textParam c.env a.key = .ok (some key))
  (hfresh : findEvent db (some key) = none)
include ha hw hcmd hsourced hkey hfresh

/-- An authorized command is committed. -/
theorem writeEvent_granted (hauth : Authority c.env a a.now db)
    (hnumber : NumberFree c.env db a.source) :
    ∃ row db', writeEvent c.env a db = (db', .fetch row.id) ∧ Committed c.env a db row db' := by
  obtain ⟨created, hcr, -⟩ := ha.created
  obtain ⟨ref, href, -⟩ := ha.sourceRef
  obtain ⟨n, hnext, hmin, hmax, hslot⟩ := hnumber
  have hverdict := authorize_granted ha hw hcmd.1 hauth
  have halloc : allocate c.env db a = .ok (bumpCounter c.env db a.source, .int n) := by
    rw [allocate, hcmd.2]
    simp only [Raft.nextSeq_eq ha.source hnext]
    rfl
  have hparams : rowParams c.env a (.int n) = .ok ⟨some key, .int n, some created, ref⟩ := by
    rw [ha.rowParams hkey hcr href, Raft.integerParam_int ⟨hmin, hmax⟩]
    rfl
  have hfree : ∀ row ∈ db.events, row.source = a.source → sqlEq row.seq (.int n) = false := by
    simpa [Raft.slotTaken] using hslot
  have hrow : insertRow (bumpCounter c.env db a.source) a (some a.source)
      ⟨some key, .int n, some created, ref⟩ = .ok (_, _) := insertRow_of_free (by simp) hfresh hfree
  rcases writeEvent_cases c.env a db (fun h => absurd (hsourced.symm.trans h.2) (by simp)) with
    ⟨p, hp, hf, -⟩ | hcommit
  · -- the transaction comes to its end
    rw [writeEvent, hkey] at hp
    simp only [hfresh, hverdict, commitEvent, halloc, hparams, hrow, Prod.mk.injEq] at hp
    rw [← hp.2] at hf
    cases hf
  · exact hcommit

/-- A command without the authority is rejected. -/
theorem writeEvent_denied
    (hpicked : LiveToken c.env db a.now a → PickedExact c.env db a.now a)
    (hauth : ¬ Authority c.env a a.now db) :
    ∃ result message, writeEvent c.env a db = (db, .rejected result message) := by
  obtain ⟨result, message, hverdict⟩ := authorize_denied ha hw hcmd.1 hsourced hpicked hauth
  refine ⟨result, message, ?_⟩
  rw [writeEvent, hkey]
  simp only [hfresh, hverdict]

end

/-! ## The ledger -/

theorem authorize_actor {actor : Option Str} (hty : a.type = lit "command")
    (h : authorize env db a = .ok (.allowed actor)) : actor = some a.source := by
  unfold authorize at h
  rw [if_pos hty, bind_eq_ok] at h
  obtain ⟨scope, -, h⟩ := h
  split_ifs at h
  · cases h
  · simp only [bind_eq_ok] at h
    obtain ⟨allowed, -, h⟩ := h
    split_ifs at h
    · cases h
    · cases h
      rfl

theorem allocate_sources {db₁ : Db} {v : Val} (h : allocate env db a = .ok (db₁, v))
    (hnodup : (db.sourceCounters.map (·.source)).Nodup) :
    (db₁.sourceCounters.map (·.source)).Nodup := by
  unfold allocate at h
  split at h
  · simp only [bind_eq_ok, pure_eq_ok, Prod.exists, Prod.mk.injEq] at h
    obtain ⟨db₂, n, hn, rfl, -⟩ := h
    simp only [nextSeq, bind_eq_ok] at hn
    obtain ⟨_, -, hn⟩ := hn
    split at hn
    · cases hn
    · simp only [bind_eq_ok, pure_eq_ok, Prod.mk.injEq] at hn
      obtain ⟨_, -, rfl, -⟩ := hn
      exact Raft.sources_upsert _ _ hnodup
  · cases h
    exact hnodup

theorem committed_actor (h : Committed env a db row db') (hty : a.type = lit "command") :
    row.authActor = some a.source := authorize_actor hty h.verdict

/-- The audit row of a committed command. -/
theorem committed_audited (h : Committed env a db row db') (hty : a.type = lit "command") :
    ∃ acc, Accepts a.source row.eventId acc ∧ db'.auditLog = db.auditLog ++ [acc] := by
  refine ⟨⟨nextId (db.auditLog.map (·.id)), a.now, some a.source, lit "command_accept",
    row.sourceRef, some a.target, some row.eventId, lit "accepted", []⟩, ⟨rfl, rfl, rfl⟩, ?_⟩
  rw [h.auditLog, if_pos hty]
  rfl

theorem Kept.committed (h : Kept db) (hc : Committed env a db row db') : Kept db' := by
  obtain ⟨db₁, seqVal, halloc, -, hcounters⟩ := hc.slot
  have htype : row.type = a.type := by
    rw [hc.columns]
    rfl
  have hsource : row.source = a.source := by
    rw [hc.columns]
    rfl
  refine h.append hc.events ?_ (findEvent_eq_none_iff.mp hc.fresh) ?_ ?_ ?_
  · rw [hc.columns]
    rfl
  · rw [hcounters]
    exact Raft.sources_upsert _ _ (allocate_sources halloc h.formed.sources)
  · rw [hc.frame]
  · unfold Audited
    rw [htype, hsource]
    by_cases hty : a.type = lit "command"
    · exact .inr ⟨hty, committed_actor hc hty, committed_audited hc hty⟩
    · exact .inl ⟨hty, by rw [hc.auditLog, if_neg hty]⟩

/-! ## The steps of a call -/

/-- What a command has come to. -/
def SqliteProgress (env : Env) (db : Db) (a : EventArgs) (log : List (Visit Db Time CallPhase)) :
    CallPhase → Prop
  | .start => log = []
  | .ended (.finished _) => Untouched log ∧ Looked (sqliteKey env) a log
  | .ended (.fetch id) =>
    ∃ row ∈ db.events, row.id = id ∧ Landed env SqliteDecides (sqliteKey env) a row log
  | .ended .refetch => False
  | .ended (.rejected _ _) => Untouched log ∧ Denied env SqliteDecides a log
  | .returned r => Outcome env SqliteDecides (sqliteKey env) a log r

def SqliteInv (env : Env) (db : Db) (a : EventArgs)
    (q : CallPhase × List (Visit Db Time CallPhase)) : Prop :=
  Counted a → SqliteProgress env db a q.2 q.1

/-- A refusal and its audit row. -/
theorem reject_rejects {log : List (Visit Db Time CallPhase)} {p : CallPhase} {now : Time}
    (ha : Portable c (atTime a now)) (hstill : Untouched log) (result message : String)
    (hdenied : Denied c.env SqliteDecides a
      (log ++ [⟨now, p, db, (reject c.env (atTime a now) result message db).1⟩])) :
    Outcome c.env SqliteDecides (sqliteKey c.env) a
      (log ++ [⟨now, p, db, (reject c.env (atTime a now) result message db).1⟩])
      (reject c.env (atTime a now) result message db).2 := by
  obtain ⟨key, hkey, -⟩ := ha.key
  obtain ⟨ref, href, -⟩ := ha.sourceRef
  rw [ha.reject hkey href] at hdenied ⊢
  exact .refuse hdenied hstill ⟨_, rfl, rfl, rfl⟩

/-- A committed row is the row of the call. -/
theorem committed_lands {now : Time} {p : CallPhase} (hcmd : a.type = lit "command")
    (hc : Committed env (atTime a now) db row db') :
    Lands (sqliteKey env) a row (⟨now, p, db, db'⟩ : Visit Db Time CallPhase) where
  events := hc.events
  fresh := findEvent_eq_none_iff.mp hc.fresh
  key := hc.key
  same := by
    rw [hc.columns]
    rfl
  actor := by
    have hactor := committed_actor hc hcmd
    exact hactor
  audit := by
    have haudit := committed_audited hc hcmd
    exact haudit

/-- The transaction of a command. -/
theorem sqliteStart_progress {now : Time} (hk : Kept db) (hcmd : Counted a)
    (hok : SqliteOk c a now db .start) :
    SqliteProgress c.env (sqliteStep c.env a now db .start).1 a
      [⟨now, .start, db, (sqliteStep c.env a now db .start).1⟩]
      (sqliteStep c.env a now db .start).2 := by
  obtain ⟨ha, hdecisive⟩ := hok hcmd
  obtain ⟨key, hkey, -⟩ := id ha.key
  have hnil : Untouched ([] : List (Visit Db Time CallPhase)) := nofun
  rw [sqliteStep]
  by_cases hsourced : a.type = lit "command" ∧ a.sourceRef.truthy = false
  · -- no source_ref
    rw [if_pos hsourced]
    exact reject_rejects ha hnil _ _ (.inl hsourced.2)
  rw [if_neg hsourced]
  have href : a.sourceRef.truthy = true := by simpa [hcmd.1] using hsourced
  cases hfind : findEvent db (some key) with
  | some row =>
    -- the id has its event
    have hid : row.eventId = key := by
      have hsome := List.find?_some hfind
      simpa using hsome
    have hwrite : writeEvent c.env (atTime a now) db = (db, .finished (do
        verifyEventIdentity (← rowToEvent row) a.source a.target a.type)) := by
      rw [writeEvent, hkey]
      simp only [hfind]
      rfl
    rw [hwrite]
    refine ⟨hnil.snoc rfl, looked_last [] (findEvent_mem hfind) ?_⟩
    rw [hid]
    exact hkey
  | none =>
    have hfresh : ∀ row ∈ db.events, ¬ sqliteKey c.env a row.eventId := by
      intro row hrow hkey'
      exact findEvent_eq_none_iff.mp hfind row hrow (sqliteKey_unique hkey' hkey)
    obtain ⟨hpicked, hnumber⟩ := hdecisive hfresh
    by_cases hauth : Authority c.env a now db
    · -- the row is stored
      have hauth' : Authority c.env (atTime a now) (atTime a now).now db :=
        ⟨hauth.sourced, hauth.token, hauth.granted⟩
      obtain ⟨row, db', hwrite, hc⟩ :=
        writeEvent_granted ha hk.formed hcmd href hkey hfind hauth' (hnumber hauth)
      rw [hwrite]
      refine ⟨row, ?_, rfl, landed_last hnil trivial hauth (committed_lands hcmd.1 hc)⟩
      show row ∈ db'.events
      rw [hc.events]
      exact List.mem_append_right _ (List.mem_singleton_self _)
    · -- the command is rejected
      have hauth' : ¬ Authority c.env (atTime a now) (atTime a now).now db := fun h =>
        hauth ⟨h.sourced, h.token, h.granted⟩
      obtain ⟨result, message, hwrite⟩ :=
        writeEvent_denied ha hk.formed hcmd href hkey hfind hpicked hauth'
      rw [hwrite]
      exact ⟨hnil.snoc rfl, denied_last [] trivial hauth⟩

theorem sqliteStep_kept (env : Env) (hk : Kept db) (now : Time) (p : CallPhase) :
    Kept (sqliteStep env a now db p).1 ∧
      ∀ row ∈ db.events, row ∈ (sqliteStep env a now db p).1.events := by
  have hquiet : ∀ db', RejectOnly db db' → Kept db' ∧ ∀ row ∈ db.events, row ∈ db'.events := by
    intro db' hr
    refine ⟨hk.rejectOnly hr, fun row hrow => ?_⟩
    rw [hr.events]
    exact hrow
  cases p with
  | start =>
    rw [sqliteStep]
    split_ifs with hsourced
    · exact hquiet _ (reject_cases env (atTime a now) db _ _).1
    · rcases writeEvent_cases env (atTime a now) db hsourced with ⟨p, hp, -⟩ | ⟨row, db', hp, hc⟩
      · rw [hp]
        exact hquiet db (.refl db)
      · rw [hp]
        refine ⟨hk.committed hc, fun r hr => ?_⟩
        show r ∈ db'.events
        rw [hc.events]
        exact List.mem_append_left _ hr
  | ended p => exact hquiet _ (finishEvent_cases env (atTime a now) db p)
  | returned r => exact hquiet db (.refl db)

theorem sqliteStep_progress {now : Time} {p : CallPhase} {log : List (Visit Db Time CallPhase)}
    (hk : Kept db) (hcmd : Counted a) (hp : SqliteProgress c.env db a log p)
    (hok : SqliteOk c a now db p) (hnone : (sqliteCalls c.env).result p = none) :
    SqliteProgress c.env (sqliteStep c.env a now db p).1 a
      (log ++ [⟨now, p, db, (sqliteStep c.env a now db p).1⟩])
      (sqliteStep c.env a now db p).2 := by
  cases p with
  | start =>
    have hlog : log = [] := hp
    rw [hlog, List.nil_append]
    exact sqliteStart_progress hk hcmd hok
  | ended p =>
    cases p with
    | finished r =>
      obtain ⟨hstill, hlooked⟩ := hp
      exact .known (hstill.snoc rfl) hlooked.snoc
    | fetch id =>
      obtain ⟨row, hrow, rfl, hlanded⟩ := hp
      exact .committed row (hlanded.snoc rfl) (getEventById_mem hk.ids hrow)
    | refetch => exact hp.elim
    | rejected result message =>
      obtain ⟨hstill, hdenied⟩ := hp
      exact reject_rejects (hok hcmd) hstill result message (hdenied.snoc id)
  | returned r => cases hnone

theorem sqlite_commands_keep (c : Cluster) : (sqliteCalls c.env).logged.Keeps (fun db => db = {})
    Elsewhere (fun a now db q => SqliteOk c a now db q.1) Kept (SqliteInv c.env)
    (fun db db' => ∀ row ∈ db.events, row ∈ db'.events) where
  refl _ _ hrow := hrow
  trans _ _ _ h h' row hrow := h' row (h row hrow)
  init db hdb := by
    rw [hdb]
    exact .empty
  env db db' hk he := by
    refine ⟨hk.elsewhere he, fun row hrow => ?_⟩
    rw [he.same.1]
    exact hrow
  start db a _ _ := rfl
  mono db db' a q hgrows hq hcmd := by
    obtain ⟨p, log⟩ := q
    have hp : SqliteProgress c.env db a log p := hq hcmd
    show SqliteProgress c.env db' a log p
    cases p with
    | ended p =>
      cases p with
      | fetch id =>
        obtain ⟨row, hrow, hid, hlanded⟩ := hp
        exact ⟨row, hgrows row hrow, hid, hlanded⟩
      | _ => exact hp
    | _ => exact hp
  step db a now q hk hq hnone hok := by
    obtain ⟨hk', hgrows⟩ := sqliteStep_kept c.env hk now q.1
    exact ⟨hk', fun hcmd => sqliteStep_progress hk hcmd (hq hcmd) hok hnone, hgrows⟩

theorem sqlite_commanded (c : Cluster) : Commanded (sqliteCalls c.env) c.env SqliteDecides
    (sqliteKey c.env) (SqliteOk c) where
  recorded _ hw := ((sqlite_commands_keep c).reach hw).1.recorded
  outcome _ hw call hcall hcmd r hr := by
    obtain ⟨a, p, log⟩ := call
    have hp : SqliteProgress c.env _ a log p := ((sqlite_commands_keep c).reach hw).2 _ hcall hcmd
    cases p with
    | returned r' =>
      cases hr
      exact hp
    | _ => cases hr

end Backends
end ATalk
