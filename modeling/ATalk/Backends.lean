import ATalk.Lib.Callers
import ATalk.Core.InsertEvent
import ATalk.Raft.Ledger

/-!
# The two backends

`insert_event` of either store as a call that several callers make at once. On SQLite a call is
one immediate transaction and what follows its COMMIT or ROLLBACK; on rqlite it is the requests of
`RaftSQLStore`, one after the other. A step is made at a time of its own.

* `sqliteCalls`, `raftCalls` : the two machines;
* `SameTables`, `Administration` : how the ledger changes besides.
-/

namespace ATalk
namespace Backends

open Text Python Sqlite ATalk.Core Checks Transition Callers

/-- The call when the clock has moved on: the time it read first is the time of its event. -/
def atTime (a : EventArgs) (now : Time) : EventArgs := { a with createdAt := a.created, now := now }

/-- How far a call on SQLite has come. -/
inductive CallPhase where
  | start
  | ended (p : Pending)
  | returned (result : Except Exn Event)

/-- `insert_event` up to its next pause. -/
def sqliteStep (env : Env) (a : EventArgs) (now : Time) (db : Db) : CallPhase → Db × CallPhase
  | .start =>
    if a.type = lit "command" ∧ a.sourceRef.truthy = false then
      let (db', result) :=
        reject env (atTime a now) "missing_source_ref" "command requires source_ref" db
      (db', .returned result)
    else
      let (db', p) := writeEvent env (atTime a now) db
      (db', .ended p)
  | .ended p =>
    let (db', result) := finishEvent env (atTime a now) db p
    (db', .returned result)
  | .returned result => (db, .returned result)

def sqliteCalls (env : Env) : Machine Db EventArgs Time CallPhase (Except Exn Event) where
  start _ := .start
  step := sqliteStep env
  result
    | .returned result => some result
    | _ => none

def raftCalls (c : Raft.Cluster) : Machine Db EventArgs Time Raft.Phase (Except Exn Event) where
  start := Raft.start
  step := Raft.step c
  result
    | .done result => some result
    | _ => none

/-- Events and counters are as before. -/
def SameTables (db db' : Db) : Prop :=
  db'.events = db.events ∧ db'.sourceCounters = db.sourceCounters

/-- Another request to the cluster than the insertion of an event. -/
def Administration (c : Raft.Cluster) (db db' : Db) : Prop :=
  ∃ op : Raft.Op, (∀ s ∈ op.statements, s.plain = true) ∧ (Raft.cluster c).step db op db'

/-- The caller of a row. -/
def Same (a : EventArgs) (row : EventRow) : Prop :=
  (row.source, row.target, row.type) = (a.source, a.target, a.type)

/-- A command names its source_ref. -/
def Sourced (a : EventArgs) : Prop := ¬ (a.type = lit "command" ∧ a.sourceRef.truthy = false)

variable {db db' : Db}

theorem SameTables.refl (db : Db) : SameTables db db := ⟨rfl, rfl⟩

theorem SameTables.of_rejectOnly (h : RejectOnly db db') : SameTables db db' :=
  ⟨h.events, h.sourceCounters⟩

end Backends
end ATalk
