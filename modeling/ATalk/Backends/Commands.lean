import ATalk.Backends.Identity
import ATalk.Backends.Authority

/-!
# Commands on both backends

What a call of `insert_event` with a command comes to, while grants and tokens are revoked and
other calls are made: its row is stored exactly when its source has the authority at the moment
the store decides, and a refusal leaves one audit row and nothing else.

* `Elsewhere` : what other requests do to the ledger;
* `Recorded` : stored commands are their source's own and audited once;
* `Outcome` : what a finished call did, step by step.
-/

namespace ATalk
namespace Backends

open Text Python Sqlite ATalk.Core Checks Transition Callers
open Raft (Cluster WellFormed Portable hasEvent hasAccepted hasToken hasEvent_eq_false)

/-! ## The ledger -/

/-- Other tables than events and counters change as they may; commands are audited by their calls
only, and no token gets an empty time. -/
structure Elsewhere (db db' : Db) : Prop where
  same : SameTables db db'
  audit : ∃ rows, db'.auditLog = db.auditLog ++ rows ∧
    ∀ row ∈ rows, row.action ≠ lit "command_accept" ∧ row.action ≠ lit "command_reject"
  times : ∀ row ∈ db'.peerTokens, row.revokedAt ≠ some [] ∧ row.graceUntil ≠ some []

/-- The audit rows of an accepted command. -/
def accepts (db : Db) (eventId : Str) : List AuditRow :=
  db.auditLog.filter fun row => row.eventId = some eventId && row.action = lit "command_accept"

/-- A stored command was sent by its source and is audited once. -/
def Recorded (db : Db) : Prop :=
  ∀ row ∈ db.events, row.type = lit "command" →
    row.authActor = some row.source ∧ (accepts db row.eventId).length = 1

structure Kept (db : Db) : Prop where
  formed : WellFormed db
  ids : (db.events.map (·.id)).Nodup
  keys : (db.events.map (·.eventId)).Nodup
  recorded : Recorded db

/-! ## Calls -/

/-- The audit row of an accepted command. -/
structure Accepts (source eventId : Str) (acc : AuditRow) : Prop where
  action : acc.action = lit "command_accept"
  actor : acc.actor = some source
  eventId : acc.eventId = some eventId

section
variable {φ : Type}

/-- The step stores the row of the call and its audit row. -/
structure Lands (key : EventArgs → Str → Prop) (a : EventArgs) (row : EventRow)
    (v : Visit Db Time φ) : Prop where
  events : v.after.events = v.before.events ++ [row]
  fresh : ∀ r ∈ v.before.events, r.eventId ≠ row.eventId
  key : key a row.eventId
  same : Same a row
  actor : row.authActor = some a.source
  audit : ∃ acc, Accepts a.source row.eventId acc ∧
    v.after.auditLog = v.before.auditLog ++ [acc]

/-- The step adds one reject row and nothing else. -/
def Rejects (a : EventArgs) (v : Visit Db Time φ) : Prop :=
  ∃ rej : AuditRow, v.after = { v.before with auditLog := v.before.auditLog ++ [rej] } ∧
    rej.action = lit "command_reject" ∧ rej.actor = some a.source

def Untouched (log : List (Visit Db Time φ)) : Prop := ∀ v ∈ log, v.after = v.before

/-- The id of the call had its event at one of the steps. -/
def Looked (key : EventArgs → Str → Prop) (a : EventArgs) (log : List (Visit Db Time φ)) : Prop :=
  ∃ v ∈ log, ∃ row ∈ v.before.events, key a row.eventId

/-- No source is named, or the last step that decides found the source without the authority. -/
def Denied (env : Env) (decides : φ → Prop) (a : EventArgs) (log : List (Visit Db Time φ)) :
    Prop :=
  a.sourceRef.truthy = false ∨ ∃ l₁ v l₂, log = l₁ ++ v :: l₂ ∧ decides v.phase ∧
    (∀ u ∈ l₂, ¬ decides u.phase) ∧ ¬ Authority env a v.now v.before

/-- One step stored the row, with the authority at that step; the others changed nothing. -/
def Landed (env : Env) (decides : φ → Prop) (key : EventArgs → Str → Prop) (a : EventArgs)
    (row : EventRow) (log : List (Visit Db Time φ)) : Prop :=
  ∃ l₁ v l₂, log = l₁ ++ v :: l₂ ∧ Untouched (l₁ ++ l₂) ∧ decides v.phase ∧
    Authority env a v.now v.before ∧ Lands key a row v

/-- What a finished call did. -/
inductive Outcome (env : Env) (decides : φ → Prop) (key : EventArgs → Str → Prop) (a : EventArgs)
    (log : List (Visit Db Time φ)) (r : Except Exn Event) : Prop where
  | known (hstill : Untouched log) (hlooked : Looked key a log)
  | committed (row : EventRow) (hlanded : Landed env decides key a row log) (hr : r = rowToEvent row)
  | refused (hdenied : Denied env decides a log)
      (honce : ∃ l₁ v l₂, log = l₁ ++ v :: l₂ ∧ Untouched (l₁ ++ l₂) ∧ Rejects a v)
      (hr : ∃ message, r = .error (.permission message))

variable {env : Env} {decides : φ → Prop} {key : EventArgs → Str → Prop} {a : EventArgs}
  {row : EventRow} {log : List (Visit Db Time φ)} {v : Visit Db Time φ}

theorem Untouched.snoc (h : Untouched log) (hv : v.after = v.before) : Untouched (log ++ [v]) := by
  intro u hu
  rcases List.mem_append.mp hu with hu | hu
  · exact h u hu
  · rw [List.mem_singleton.mp hu]
    exact hv

theorem Looked.snoc (h : Looked key a log) : Looked key a (log ++ [v]) := by
  obtain ⟨u, hu, hrow⟩ := h
  exact ⟨u, List.mem_append_left _ hu, hrow⟩

theorem looked_last (log : List (Visit Db Time φ)) (hrow : row ∈ v.before.events) (hkey : key a row.eventId) :
    Looked key a (log ++ [v]) :=
  ⟨v, List.mem_append_right _ (List.mem_singleton_self _), row, hrow, hkey⟩

theorem Denied.snoc (h : Denied env decides a log) (hv : ¬ decides v.phase) :
    Denied env decides a (log ++ [v]) := by
  rcases h with h | ⟨l₁, u, l₂, rfl, hu, hlast, hauth⟩
  · exact .inl h
  · refine .inr ⟨l₁, u, l₂ ++ [v], by simp, hu, fun w hw => ?_, hauth⟩
    rcases List.mem_append.mp hw with hw | hw
    · exact hlast w hw
    · rw [List.mem_singleton.mp hw]
      exact hv

theorem denied_last (log : List (Visit Db Time φ)) (hv : decides v.phase) (h : ¬ Authority env a v.now v.before) :
    Denied env decides a (log ++ [v]) := .inr ⟨log, v, [], rfl, hv, nofun, h⟩

theorem Landed.snoc (h : Landed env decides key a row log) (hv : v.after = v.before) :
    Landed env decides key a row (log ++ [v]) := by
  obtain ⟨l₁, u, l₂, rfl, hstill, hu, hauth, hlands⟩ := h
  refine ⟨l₁, u, l₂ ++ [v], by simp, ?_, hu, hauth, hlands⟩
  rw [← List.append_assoc]
  exact hstill.snoc hv

theorem landed_last (h : Untouched log) (hv : decides v.phase)
    (hauth : Authority env a v.now v.before) (hlands : Lands key a row v) :
    Landed env decides key a row (log ++ [v]) :=
  ⟨log, v, [], rfl, by rw [List.append_nil]; exact h, hv, hauth, hlands⟩

theorem Outcome.refuse {message : Str} (hdenied : Denied env decides a (log ++ [v]))
    (h : Untouched log) (hv : Rejects a v) :
    Outcome env decides key a (log ++ [v]) (.error (.permission message)) :=
  .refused hdenied ⟨log, v, [], rfl, by rw [List.append_nil]; exact h, hv⟩ ⟨message, rfl⟩

end

/-! ## The two stores -/

/-- A command that takes the next number of its source. -/
def Counted (a : EventArgs) : Prop := a.type = lit "command" ∧ a.seq = .none

/-- The next number of the source is a free one of 64 bits. -/
def NumberFree (env : Env) (db : Db) (source : Str) : Prop :=
  ∃ n, Raft.nextValue env db source = .int n ∧ minInt ≤ n ∧ n ≤ maxInt ∧
    Raft.slotTaken db source (.int n) = false

/-- In every run whose steps all meet `ok`, stored commands are recorded, and a command that has
finished came to one of its outcomes. -/
structure Commanded {φ : Type} (M : Machine Db EventArgs Time φ (Except Exn Event)) (env : Env)
    (decides : φ → Prop) (key : EventArgs → Str → Prop) (ok : EventArgs → Time → Db → φ → Prop) :
    Prop where
  recorded : ∀ w, Reach (callers M.logged (fun db => db = {}) Elsewhere)
    (onAdvance fun a now db q => ok a now db q.1) w → Recorded w.store
  outcome : ∀ w, Reach (callers M.logged (fun db => db = {}) Elsewhere)
    (onAdvance fun a now db q => ok a now db q.1) w → ∀ call ∈ w.calls, Counted call.1 →
      ∀ r, M.result call.2.1 = some r → Outcome env decides key call.1 call.2.2 r

/-! ## What keeps the ledger -/

variable {env : Env} {db db' : Db} {a : EventArgs} {row : EventRow}

theorem accepts_append (e : Str) (rows : List AuditRow) (h : db'.auditLog = db.auditLog ++ rows) :
    accepts db' e = accepts db e ++ rows.filter fun row =>
      row.eventId = some e && row.action = lit "command_accept" := by
  rw [accepts, h, List.filter_append]
  rfl

theorem accepts_other {rows : List AuditRow} (h : db'.auditLog = db.auditLog ++ rows)
    (hrows : ∀ row ∈ rows, row.action ≠ lit "command_accept") (e : Str) :
    accepts db' e = accepts db e := by
  rw [accepts_append e rows h, List.filter_eq_nil_iff.mpr, List.append_nil]
  intro row hrow hcond
  simp only [Bool.and_eq_true, decide_eq_true_eq] at hcond
  exact hrows row hrow hcond.2

theorem hasAccepted_eq_accepts (e : Str) : hasAccepted db e = true ↔ accepts db e ≠ [] := by
  unfold hasAccepted accepts
  simp [List.any_eq_true, List.filter_eq_nil_iff]

theorem Kept.empty : Kept {} where
  formed := ⟨List.nodup_nil, nofun, nofun, nofun⟩
  ids := List.nodup_nil
  keys := List.nodup_nil
  recorded := nofun

/-- No command is accepted and the events are the same. -/
theorem Kept.quiet (h : Kept db) (rows : List AuditRow) (hev : db'.events = db.events)
    (hsources : (db'.sourceCounters.map (·.source)).Nodup)
    (haudit : db'.auditLog = db.auditLog ++ rows)
    (hrows : ∀ row ∈ rows, row.action ≠ lit "command_accept")
    (htimes : ∀ row ∈ db'.peerTokens, row.revokedAt ≠ some [] ∧ row.graceUntil ≠ some []) :
    Kept db' where
  formed :=
    { sources := hsources
      revoked := fun row hrow => (htimes row hrow).1
      grace := fun row hrow => (htimes row hrow).2
      accepted := fun e he => by
        rw [hasAccepted_eq_accepts, accepts_other haudit hrows, ← hasAccepted_eq_accepts] at he
        rw [hasEvent, hev]
        exact h.formed.accepted e he }
  ids := hev ▸ h.ids
  keys := hev ▸ h.keys
  recorded row hrow hty := by
    rw [hev] at hrow
    rw [accepts_other haudit hrows]
    exact h.recorded row hrow hty

theorem Kept.elsewhere (h : Kept db) (he : Elsewhere db db') : Kept db' := by
  obtain ⟨rows, haudit, hrows⟩ := he.audit
  have hsources : (db'.sourceCounters.map (·.source)).Nodup := by
    rw [he.same.2]
    exact h.formed.sources
  exact h.quiet rows he.same.1 hsources haudit (fun row hrow => (hrows row hrow).1) he.times

theorem Kept.times (h : Kept db) (htokens : db'.peerTokens = db.peerTokens) :
    ∀ row ∈ db'.peerTokens, row.revokedAt ≠ some [] ∧ row.graceUntil ≠ some [] := by
  rw [htokens]
  exact fun row hrow => ⟨h.formed.revoked row hrow, h.formed.grace row hrow⟩

theorem Kept.rejectOnly (h : Kept db) (hr : RejectOnly db db') : Kept db' := by
  rcases hr with rfl | ⟨rej, hact, rfl⟩
  · exact h
  · refine h.quiet [rej] rfl h.formed.sources rfl (fun row hrow => ?_) (h.times rfl)
    rw [List.mem_singleton.mp hrow, hact]
    decide

/-- What the audit log gains with a new event. -/
def Audited (db : Db) (row : EventRow) (db' : Db) : Prop :=
  (row.type ≠ lit "command" ∧ db'.auditLog = db.auditLog) ∨
    (row.type = lit "command" ∧ row.authActor = some row.source ∧
      ∃ acc, Accepts row.source row.eventId acc ∧ db'.auditLog = db.auditLog ++ [acc])

/-- The accepted rows of an id when an event is added. -/
theorem Audited.accepts (h : Audited db row db') (e : Str) :
    accepts db' e = accepts db e ∨
      e = row.eventId ∧ row.type = lit "command" ∧ row.authActor = some row.source ∧
        (Backends.accepts db' e).length = (Backends.accepts db e).length + 1 := by
  rcases h with ⟨-, haudit⟩ | ⟨hty, hactor, acc, hacc, haudit⟩
  · exact .inl (by rw [Backends.accepts, Backends.accepts, haudit])
  · rw [accepts_append e [acc] haudit]
    by_cases he : e = row.eventId
    · right
      refine ⟨he, hty, hactor, ?_⟩
      rw [List.filter_cons_of_pos (by simp [hacc.action, hacc.eventId, he])]
      simp
    · left
      rw [List.filter_cons_of_neg, List.filter_nil, List.append_nil]
      simp [hacc.action, hacc.eventId, Ne.symm he]

/-- A new event, with its audit row when it is a command. -/
theorem Kept.append (h : Kept db) (hev : db'.events = db.events ++ [row])
    (hid : row.id = nextId (db.events.map (·.id)))
    (hfresh : ∀ r ∈ db.events, r.eventId ≠ row.eventId)
    (hsources : (db'.sourceCounters.map (·.source)).Nodup)
    (htokens : db'.peerTokens = db.peerTokens) (haudit : Audited db row db') : Kept db' where
  formed :=
    { sources := hsources
      revoked := fun r hr => (h.times htokens r hr).1
      grace := fun r hr => (h.times htokens r hr).2
      accepted := fun e he => by
        rw [hasAccepted_eq_accepts] at he
        rw [Raft.hasEvent_iff, hev]
        rcases haudit.accepts e with hsame | ⟨rfl, -⟩
        · rw [hsame, ← hasAccepted_eq_accepts] at he
          obtain ⟨r, hr, hre⟩ := Raft.hasEvent_iff.mp (h.formed.accepted e he)
          exact ⟨r, List.mem_append_left _ hr, hre⟩
        · exact ⟨row, List.mem_append_right _ (List.mem_singleton_self _), rfl⟩ }
  ids := by
    rw [hev, List.map_append, List.map_singleton, ← List.concat_eq_append, hid]
    exact h.ids.concat (nextId_not_mem _)
  keys := by
    rw [hev, List.map_append, List.map_singleton, ← List.concat_eq_append]
    refine h.keys.concat fun hmem => ?_
    obtain ⟨r, hr, hre⟩ := List.mem_map.mp hmem
    exact hfresh r hr hre
  recorded r hr hty := by
    have hnone : accepts db row.eventId = [] := by
      by_contra hne
      obtain ⟨r', hr', hre⟩ := Raft.hasEvent_iff.mp
        (h.formed.accepted _ ((hasAccepted_eq_accepts _).mpr hne))
      exact hfresh r' hr' hre
    rw [hev, List.mem_append, List.mem_singleton] at hr
    rcases hr with hr | rfl
    · -- an old command keeps its audit row
      rcases haudit.accepts r.eventId with hsame | ⟨he, -⟩
      · rw [hsame]
        exact h.recorded r hr hty
      · exact absurd he (hfresh r hr)
    · rcases haudit with ⟨hno, -⟩ | hyes
      · exact absurd hty hno
      · obtain ⟨-, hactor, acc, hacc, hlog⟩ := hyes
        refine ⟨hactor, ?_⟩
        rw [accepts_append _ [acc] hlog, hnone,
          List.filter_cons_of_pos (by simp [hacc.action, hacc.eventId])]
        rfl

end Backends
end ATalk
