import ATalk.Backends.RaftIdentity
import ATalk.Backends.SqliteCommands

/-!
# Commands on rqlite

A call finds a grant in one request and sends it back as the guard of its insert in another, with
the time it read between the two; the guard is evaluated with the insert. What was found may have
been revoked by then, and another grant may stand in its place.

* `Current` : the tables for which the guard is the authority and the number can be stored;
* `execAll_command_known`, `execAll_command_denied`, `execAll_command_landed` : the statements;
* `raft_commanded` : every run, `command_authority` : both backends.
-/

namespace ATalk
namespace Backends

open Text Python Sqlite ATalk.Core Checks Transition Callers Raft

/-- The grant that a call found stands, at the time that it read. -/
def Stands (c : Cluster) (a : EventArgs) (db : Db) (now : Time) (grantId : ℕ) (scope : Dict) :
    Prop :=
  ∃ row ∈ db.peerGrants, row.id = grantId ∧ sameDict row.scope scope = true ∧
    GrantRow.live row now a.source a.target (commandType c.env a.payload) = true

/-- The times agree on the token; a command is granted where its grant stands, and its grant stands
where it is granted; an authorized command finds a number. -/
structure Current (c : Cluster) (a : EventArgs) (now : Time) (db : Db) (digest : Str)
    (read : Time) (grantId : ℕ) (scope : Dict) : Prop where
  token : hasToken db a.source digest read = hasToken db a.source digest now
  granted : hasToken db a.source digest now = true → Stands c a db read grantId scope →
    Granted db now a.source a.target a.payload
  stands : hasToken db a.source digest now = true → Granted db now a.source a.target a.payload →
    Stands c a db read grantId scope
  number : Authority c.env a now db → NumberFree c.env db a.source

/-- The guard of a command. -/
def callGuard (c : Cluster) (a : EventArgs) (digest : Str) (read : Time) (grantId : ℕ)
    (scope : Dict) : Guard :=
  .command a.source digest read grantId a.target scope (commandType c.env a.payload)

/-- A new command is sent to such tables, with parameters that can be bound. -/
def RaftOk (c : Cluster) (a : EventArgs) (now : Time) (db : Db) : Phase → Prop
  | .commit stmts => Counted a → ∀ v digest read grantId scope,
      stmts = commandStatements v none (callGuard c a digest read grantId scope) read →
        hasEvent db v.eventId = false → Current c a now db digest read grantId scope
  | _ => Counted a → Portable c a

/-- The steps that decide: the search for a grant, and the guarded insert. -/
def RaftDecides : Phase → Prop
  | .grants => True
  | .commit _ => True
  | _ => False

variable {c : Cluster} {env : Env} {db db' : Db} {a : EventArgs} {row : EventRow} {v : EventValues}
  {g : Guard} {now : Time}

/-! ## The statements -/

/-- What the statements of an event do to the other tables. -/
structure Framed (db db' : Db) : Prop where
  tokens : db'.peerTokens = db.peerTokens
  audit : db'.auditLog = db.auditLog

/-- The counter and the row: nothing, a counter, or a new row where the guard holds. -/
theorem execAll_insert_cases (hs : Sound db) (v : EventValues) (seq : Option Number) (g : Guard) :
    ∃ db', execAll c db (insertStatements v (seq.map (·.1)) g) = .ok (db', [none, none]) ∧
      Sound db' ∧ Framed db db' ∧ (db'.events = db.events ∨ hasEvent db v.eventId = false ∧
        ∃ s, db'.events = db.events ++ [Raft.eventRow db v s]) := by
  obtain ⟨db', hexec, hs'⟩ := hs.execAll_insert (c := c) v seq g
  refine ⟨db', hexec, hs', ?_⟩
  by_cases hknown : hasEvent db v.eventId = true
  · cases hexec.symm.trans (execAll_insert_known hs hknown seq)
    exact ⟨⟨rfl, rfl⟩, .inl rfl⟩
  rw [Bool.not_eq_true] at hknown
  by_cases hg : g.holds db = true
  · cases seq with
    | none =>
      cases hexec.symm.trans (execAll_insert_counted hknown hg)
      unfold Raft.insertOrIgnore
      split_ifs
      · exact ⟨⟨rfl, rfl⟩, .inl rfl⟩
      · exact ⟨⟨rfl, rfl⟩, .inr ⟨hknown, _, rfl⟩⟩
    | some t =>
      cases hexec.symm.trans (execAll_insert_numbered hknown hg t.2)
      split_ifs
      · exact ⟨⟨rfl, rfl⟩, .inl rfl⟩
      · exact ⟨⟨rfl, rfl⟩, .inr ⟨hknown, _, rfl⟩⟩
  · cases hexec.symm.trans (execAll_insert_denied hknown (by simpa using hg) _)
    exact ⟨⟨rfl, rfl⟩, .inl rfl⟩

theorem isCommand_iff {eventId source target : Str} :
    db.events.any (isCommand eventId source target) = true ↔ ∃ row ∈ db.events,
      row.eventId = eventId ∧ row.source = source ∧ row.target = target ∧
        row.type = lit "command" ∧ row.authActor = some source := by
  simp only [List.any_eq_true, isCommand, Bool.and_eq_true, decide_eq_true_eq, and_assoc]

/-- A command that was there before is not audited again. -/
theorem exec_accept_recorded (hk : Kept db) (hev : db'.events = db.events)
    (haudit : db'.auditLog = db.auditLog) (values : AuditValues) (eventId source target : Str) :
    exec c db' (.acceptCommand values eventId source target) = .ok (db', none) := by
  simp only [exec]
  rw [if_neg]
  · rfl
  · rintro ⟨hany, hacc⟩
    rw [hev] at hany
    obtain ⟨row, hrow, rfl, -, -, hty, -⟩ := isCommand_iff.mp hany
    have hone := (hk.recorded row hrow hty).2
    have hyes : hasAccepted db row.eventId = true := by
      rw [hasAccepted_eq_accepts]
      intro hnil
      rw [hnil] at hone
      cases hone
    rw [hasAccepted, haudit] at hacc
    exact absurd (hyes.symm.trans hacc) (by simp)

/-- A command that was inserted is audited. -/
theorem exec_accept_new {seq : SqlVal} (read : Time) (hk : Kept db)
    (hfresh : hasEvent db v.eventId = false) (hty : v.type = lit "command")
    (hactor : v.authActor = some v.source) (haudit : db'.auditLog = db.auditLog)
    (hev : db'.events = db.events ++ [Raft.eventRow db v seq]) :
    exec c db' (.acceptCommand (acceptValues v read) v.eventId v.source v.target) =
      .ok (insertAudit db' (acceptValues v read), none) := by
  have hany : db'.events.any (isCommand v.eventId v.source v.target) = true := by
    refine isCommand_iff.mpr ⟨Raft.eventRow db v seq, ?_, rfl, rfl, rfl, hty, hactor⟩
    rw [hev]
    exact List.mem_append_right _ (List.mem_singleton_self _)
  have hno : hasAccepted db' v.eventId = false := by
    rw [hasAccepted, haudit]
    by_contra hacc
    rw [Bool.not_eq_false] at hacc
    exact absurd (hfresh.symm.trans (hk.formed.accepted _ hacc)) (by simp)
  simp only [exec, hany, hno, and_self, if_true]
  rfl

theorem accepts_values (db' : Db) (v : EventValues) (read : Time) :
    ∃ acc, Accepts v.source v.eventId acc ∧
      (insertAudit db' (acceptValues v read)).auditLog = db'.auditLog ++ [acc] :=
  ⟨_, ⟨rfl, rfl, rfl⟩, rfl⟩

/-- The statements of a command are those of its event, and the one that audits it. -/
theorem execAll_command {db₁ : Db} {seq : Option SqlVal} {read : Time} {ids : List (Option ℕ)}
    (hinsert : execAll c db (insertStatements v seq g) = .ok (db₁, ids))
    (haccept : exec c db₁ (.acceptCommand (acceptValues v read) v.eventId v.source v.target) =
      .ok (db', none)) :
    execAll c db (commandStatements v seq g read) = .ok (db', ids ++ [none]) := by
  rw [commandStatements, execAll_append hinsert, execAll, haccept]
  rfl

/-- An id that has its event is left alone. -/
theorem execAll_command_known {read : Time} (hk : Kept db) (hs : Sound db)
    (h : hasEvent db v.eventId = true) (seq : Option Number) :
    execAll c db (commandStatements v (seq.map (·.1)) g read) = .ok (db, [none, none, none]) :=
  execAll_command (execAll_insert_known hs h seq) (exec_accept_recorded hk rfl rfl _ _ _ _)

/-- A guard that fails keeps a new command out. -/
theorem execAll_command_denied {read : Time} (hk : Kept db) (h : hasEvent db v.eventId = false)
    (hg : g.holds db = false) (seq : Option SqlVal) :
    execAll c db (commandStatements v seq g read) = .ok (db, [none, none, none]) :=
  execAll_command (execAll_insert_denied h hg seq) (exec_accept_recorded hk rfl rfl _ _ _ _)

/-- A guard that holds lets a new command in, under the next number. -/
theorem execAll_command_landed (read : Time) (hk : Kept db) (h : hasEvent db v.eventId = false)
    (hty : v.type = lit "command") (hactor : v.authActor = some v.source) (hg : g.holds db = true)
    (hnumber : NumberFree c.env db v.source) :
    ∃ db' ids s, execAll c db (commandStatements v none g read) = .ok (db', ids) ∧
      db'.events = db.events ++ [Raft.eventRow db v s] ∧
      ∃ acc, Accepts v.source v.eventId acc ∧ db'.auditLog = db.auditLog ++ [acc] := by
  obtain ⟨n, hnext, -, -, hslot⟩ := hnumber
  have hins : insertOrIgnore (bumpCounter c.env db v.source) v (nextValue c.env db v.source) =
      { bumpCounter c.env db v.source with
        events := db.events ++ [Raft.eventRow db v (.int n)] } := by
    rw [hnext, Raft.insertOrIgnore, if_neg]
    · rfl
    · rintro (hnull | hid | htaken)
      · cases hnull
      · exact absurd (h.symm.trans hid) (by simp)
      · exact absurd (hslot.symm.trans htaken) (by simp)
  have hexec := execAll_insert_counted (c := c) h hg
  rw [hins] at hexec
  exact ⟨_, _, .int n, execAll_command hexec (exec_accept_new read hk h hty hactor rfl rfl), rfl,
    accepts_values _ v read⟩

/-- The statements of a command on any ledger. -/
theorem execAll_command_cases {seq : Option Number} {read : Time} (hk : Kept db) (hs : Sound db)
    (hty : v.type = lit "command") (hactor : v.authActor = some v.source) :
    ∃ db' ids, execAll c db (commandStatements v (seq.map (·.1)) g read) = .ok (db', ids) ∧
      Sound db' ∧ Kept db' ∧ ∀ row ∈ db.events, row ∈ db'.events := by
  obtain ⟨db₁, hexec, hs₁, hframe, hev | ⟨hfresh, s, hev⟩⟩ := execAll_insert_cases (c := c) hs v seq g
  · have haccept := exec_accept_recorded (c := c) hk hev hframe.audit (acceptValues v read)
      v.eventId v.source v.target
    refine ⟨db₁, _, execAll_command hexec haccept, hs₁, ?_, fun row hrow => hev ▸ hrow⟩
    exact hk.quiet [] hev hs₁.sources (by rw [hframe.audit, List.append_nil]) nofun
      (hk.times hframe.tokens)
  · have haccept := exec_accept_new (c := c) read hk hfresh hty hactor hframe.audit hev
    refine ⟨_, _, execAll_command hexec haccept, hs₁.acceptCommand rfl haccept, ?_, ?_⟩
    · obtain ⟨acc, hacc, hlog⟩ := accepts_values db₁ v read
      rw [hframe.audit] at hlog
      exact hk.append hev rfl (hasEvent_eq_false.mp hfresh) hs₁.sources hframe.tokens
        (.inr ⟨hty, hactor, acc, hacc, hlog⟩)
    · intro row hrow
      show row ∈ db₁.events
      rw [hev]
      exact List.mem_append_left _ hrow

/-- The statements of a message on any ledger. -/
theorem execAll_message_cases {seq : Option Number} (hk : Kept db) (hs : Sound db)
    (hty : v.type ≠ lit "command") :
    ∃ db' ids, execAll c db (messageStatements v (seq.map (·.1))) = .ok (db', ids) ∧
      Sound db' ∧ Kept db' ∧ ∀ row ∈ db.events, row ∈ db'.events := by
  obtain ⟨db₁, hexec, hs₁, hframe, hev | ⟨hfresh, s, hev⟩⟩ :=
    execAll_insert_cases (c := c) hs v seq (.acl v.source v.target)
  · refine ⟨db₁, _, hexec, hs₁, ?_, fun row hrow => hev ▸ hrow⟩
    exact hk.quiet [] hev hs₁.sources (by rw [hframe.audit, List.append_nil]) nofun
      (hk.times hframe.tokens)
  · refine ⟨db₁, _, hexec, hs₁, ?_, fun row hrow => ?_⟩
    · exact hk.append hev rfl (hasEvent_eq_false.mp hfresh) hs₁.sources hframe.tokens
        (.inl ⟨hty, hframe.audit⟩)
    · rw [hev]
      exact List.mem_append_left _ hrow

/-! ## What a call sends -/

/-- The event of a call, with its author. -/
structure Describes (c : Cluster) (a : EventArgs) (v : EventValues) : Prop where
  key : raftKey c a v.eventId
  same : (v.source, v.target, v.type) = (a.source, a.target, a.type)
  actor : a.type = lit "command" → v.authActor = some a.source

theorem Describes.source (h : Describes c a v) : v.source = a.source := congrArg Prod.fst h.same

theorem Describes.type (h : Describes c a v) : v.type = a.type := congrArg (·.2.2) h.same

/-- The request of a call. -/
def Sending (c : Cluster) (a : EventArgs) (stmts : List Stmt) : Prop :=
  ∃ v, ∃ seq : Option Number, Describes c a v ∧
    (a.type ≠ lit "command" ∧ stmts = messageStatements v (seq.map (·.1)) ∨
      a.type = lit "command" ∧ ∃ g read, stmts = commandStatements v (seq.map (·.1)) g read)

/-- What every call carries. -/
def Carrying (c : Cluster) (a : EventArgs) : Phase → Prop
  | .grants => a.type = lit "command"
  | .commit stmts => Sending c a stmts
  | _ => True

theorem seqParam_number {x : Val} {seq : Option SqlVal} (h : seqParam c x = .ok seq) :
    ∃ n : Option Number, seq = n.map (·.1) := by
  by_cases hx : x = .none
  · subst hx
    cases h
    exact ⟨none, rfl⟩
  · have hparam : seqParam c x = (do return some (← intParam c (← pyInt x))) := by
      cases x <;> first | exact absurd rfl hx | rfl
    rw [hparam, bind_eq_ok] at h
    obtain ⟨i, -, h⟩ := h
    rw [bind_eq_ok] at h
    obtain ⟨s, hs, h⟩ := h
    cases h
    have hnum : s.Numeric := by
      rw [intParam] at hs
      split_ifs at hs
      · cases hs
        trivial
      · cases hbig : c.bigInt i with
        | none => simp [hbig] at hs
        | some f =>
          simp only [hbig] at hs
          cases hs
          exact fun hf => c.bigInt_ne_nan i (hf ▸ hbig)
    exact ⟨some ⟨s, hnum⟩, rfl⟩

theorem eventValues_describes {actor : Option Str} (h : Raft.eventValues c a now actor = .ok v)
    (hactor : a.type = lit "command" → actor = some a.source) : Describes c a v := by
  obtain ⟨hkey, hsame⟩ := eventValues_ok h
  refine ⟨hkey, hsame, fun hty => ?_⟩
  rw [Raft.eventValues, bind_eq_ok] at h
  obtain ⟨_, -, h⟩ := h
  rw [bind_eq_ok] at h
  obtain ⟨_, -, h⟩ := h
  rw [bind_eq_ok] at h
  obtain ⟨_, -, h⟩ := h
  cases h
  exact hactor hty

theorem messageRequest_sending {stmts : List Stmt} (hty : a.type ≠ lit "command")
    (h : messageRequest c a now = .ok stmts) : Sending c a stmts := by
  rw [messageRequest, bind_eq_ok] at h
  obtain ⟨v, hv, h⟩ := h
  rw [bind_eq_ok] at h
  obtain ⟨seq, hseq, h⟩ := h
  cases h
  obtain ⟨n, rfl⟩ := seqParam_number hseq
  exact ⟨v, n, eventValues_describes hv fun h => absurd h hty, .inl ⟨hty, rfl⟩⟩

theorem commandRequest_sending {stmts : List Stmt} {grant : GrantRow}
    (hty : a.type = lit "command") (h : commandRequest c a now grant = .ok stmts) :
    Sending c a stmts := by
  rw [commandRequest, bind_eq_ok] at h
  obtain ⟨digest, -, h⟩ := h
  rw [bind_eq_ok] at h
  obtain ⟨v, hv, h⟩ := h
  rw [bind_eq_ok] at h
  obtain ⟨seq, hseq, h⟩ := h
  cases h
  obtain ⟨n, rfl⟩ := seqParam_number hseq
  exact ⟨v, n, eventValues_describes hv fun _ => rfl, .inr ⟨hty, _, _, rfl⟩⟩

/-- The request of a command, when its parameters can be bound. -/
theorem commandRequest_portable (now : Time) (grant : GrantRow) (ha : Portable c a)
    (hcmd : Counted a) (ht : a.token.truthy = true) : ∃ digest v, tokenDigest c.env a.token = .ok digest ∧
      Describes c a v ∧ commandRequest c a now grant =
        .ok (commandStatements v none (callGuard c a digest now grant.id grant.scope) now) := by
  obtain ⟨digest, hd⟩ := ha.token.tokenDigest c.env ht
  obtain ⟨key, -, hkey⟩ := ha.key
  obtain ⟨created, -, hcr⟩ := ha.created
  obtain ⟨ref, -, href⟩ := ha.sourceRef
  have hv : Raft.eventValues c a now (some a.source) = .ok ⟨key, a.source, a.target, a.type, created,
      now, a.payload, a.requiresAck.truthy, ref, some a.source⟩ := by
    rw [Raft.eventValues, keyParam, keyParam, hkey, hcr, href]
    rfl
  refine ⟨digest, _, hd, eventValues_describes hv fun _ => rfl, ?_⟩
  rw [commandRequest, hd, ok_bind, hv, hcmd.2]
  rfl

/-! ## Every call keeps the ledger -/

theorem carrying_ofExcept {α : Type} {f : α → Phase} {x : Except Exn α}
    (h : ∀ y, x = .ok y → Carrying c a (f y)) : Carrying c a (Phase.ofExcept f x) := by
  cases x with
  | error e => trivial
  | ok y => exact h y rfl

theorem raftStep_carrying {p : Phase} (hp : Carrying c a p) :
    Carrying c a (Raft.step c a now db p).2 := by
  cases p with
  | probe =>
    refine carrying_ofExcept fun found _ => ?_
    cases found with
    | some event => trivial
    | none =>
      show Carrying c a (if _ then _ else _)
      split_ifs with hty
      · exact hty
      · exact carrying_ofExcept fun stmts hstmts => messageRequest_sending hty hstmts
  | grants =>
    have hty : a.type = lit "command" := hp
    simp only [Raft.step]
    cases matchingGrant c db now a.source a.target a.payload with
    | none => trivial
    | some grant =>
      simp only [afterGrants]
      split_ifs
      · trivial
      · exact carrying_ofExcept fun stmts hstmts => commandRequest_sending hty hstmts
  | commit stmts =>
    simp only [Raft.step]
    split <;> trivial
  | readBack =>
    refine carrying_ofExcept fun found _ => ?_
    cases found with
    | some event => trivial
    | none =>
      show Carrying c a (if _ then _ else _)
      split_ifs <;> trivial
  | refuse late =>
    refine carrying_ofExcept fun valid _ => ?_
    cases valid <;> cases late <;> trivial
  | audit result message =>
    rcases step_audit c a now result message with ⟨e, he⟩ | ⟨values, -, hv⟩
    · rw [he]
      trivial
    · rw [hv]
      trivial
  | done r => trivial

/-- The request of any call. -/
theorem Sending.exec {stmts : List Stmt} (h : Sending c a stmts) (hk : Kept db) (hs : Sound db) :
    ∃ db' ids, execAll c db stmts = .ok (db', ids) ∧ Sound db' ∧ Kept db' ∧
      ∀ row ∈ db.events, row ∈ db'.events := by
  obtain ⟨v, seq, hv, ⟨hty, rfl⟩ | ⟨hty, g, read, rfl⟩⟩ := h
  · exact execAll_message_cases hk hs (hv.type ▸ hty)
  · exact execAll_command_cases hk hs (hv.type.trans hty) (hv.source ▸ hv.actor hty)

theorem raftStep_kept {p : Phase} (now : Time) (hk : Kept db) (hs : Sound db) (hp : Carrying c a p) :
    (Sound (Raft.step c a now db p).1 ∧ Kept (Raft.step c a now db p).1) ∧
      ∀ row ∈ db.events, row ∈ (Raft.step c a now db p).1.events := by
  cases p with
  | commit stmts =>
    obtain ⟨db', ids, hexec, hs', hk', hgrows⟩ := Sending.exec hp hk hs
    simp only [Raft.step, transaction_ok hexec]
    exact ⟨⟨hs', hk'⟩, hgrows⟩
  | audit result message =>
    rcases step_audit c a now result message with ⟨e, he⟩ | ⟨values, hact, hv⟩
    · rw [he]
      exact ⟨⟨hs, hk⟩, fun _ hrow => hrow⟩
    · rw [hv]
      refine ⟨⟨hs.insertAudit fun h => ?_, hk.rejectOnly (.inr ⟨_, hact, rfl⟩)⟩, fun _ hrow => hrow⟩
      rw [hact] at h
      exact absurd h (by decide)
  | _ => exact ⟨⟨hs, hk⟩, fun _ hrow => hrow⟩

/-! ## The steps of a command -/

/-- What a command has come to. -/
def RaftProgress (c : Cluster) (db : Db) (a : EventArgs) (log : List (Visit Db Time Phase)) :
    Phase → Prop
  | .probe => log = [] ∧ a.sourceRef.truthy = true
  | .grants => Untouched log ∧ a.sourceRef.truthy = true
  | .commit stmts => Untouched log ∧ a.sourceRef.truthy = true ∧ a.token.truthy = true ∧
      ∃ digest v read grantId scope, tokenDigest c.env a.token = .ok digest ∧ Describes c a v ∧
        stmts = commandStatements v none (callGuard c a digest read grantId scope) read
  | .readBack =>
    (∃ row ∈ db.events, Landed c.env RaftDecides (raftKey c) a row log) ∨
      Untouched log ∧ ((∃ row ∈ db.events, raftKey c a row.eventId) ∨ Denied c.env RaftDecides a log)
  | .refuse _ => Untouched log ∧ Denied c.env RaftDecides a log
  | .audit _ _ => Untouched log ∧ Denied c.env RaftDecides a log
  | .done r => Outcome c.env RaftDecides (raftKey c) a log r

def RaftInv (c : Cluster) (db : Db) (a : EventArgs) (q : Phase × List (Visit Db Time Phase)) :
    Prop := Carrying c a q.1 ∧ (Counted a → RaftProgress c db a q.2 q.1)

section
variable {log : List (Visit Db Time Phase)} (ha : Portable c a) (hcmd : Counted a)

/-- A phase that ends the call when the id has its event. -/
theorem progress_known {p : Phase} {f : Option Event → Phase} (hk : Kept db)
    (hstill : Untouched log) (hrow : row ∈ db.events) (hkey : raftKey c a row.eventId)
    (hf : ∀ event, f (some event) = .done (verifyEventIdentity event a.source a.target a.type)) :
    RaftProgress c db a (log ++ [⟨now, p, db, db⟩]) (Phase.ofExcept f (eventOrNone c db a.key)) := by
  have hread : eventOrNone c db a.key = (do return some (← rowToEvent row)) := by
    rw [eventOrNone, hkey, ok_bind, findEvent_of_nodup hk.keys hrow]
  have hknown : ∀ r, Outcome c.env RaftDecides (raftKey c) a (log ++ [⟨now, p, db, db⟩]) r :=
    fun r => .known (hstill.snoc rfl) (looked_last log hrow hkey)
  rw [hread]
  cases rowToEvent row with
  | error e => exact hknown _
  | ok event =>
    show RaftProgress c db a _ (f (some event))
    rw [hf]
    exact hknown _

include ha in
/-- The id has no event. -/
theorem eventOrNone_fresh (hfresh : ∀ row ∈ db.events, ¬ raftKey c a row.eventId) :
    eventOrNone c db a.key = .ok none := by
  obtain ⟨key, -, hkey⟩ := ha.key
  have hfind : Core.findEvent db (some key) = none := by
    rw [findEvent_eq_none_iff]
    rintro row hrow rfl
    exact hfresh row hrow hkey
  rw [eventOrNone, hkey, ok_bind, hfind]
  rfl

include ha hcmd in
theorem probe_progress (hk : Kept db) (hlog : log = []) (href : a.sourceRef.truthy = true) :
    RaftProgress c db a (log ++ [⟨now, .probe, db, db⟩]) (Raft.step c a now db .probe).2 := by
  have hnil : Untouched log := by
    rw [hlog]
    exact nofun
  by_cases hknown : ∃ row ∈ db.events, raftKey c a row.eventId
  · obtain ⟨row, hrow, hkey⟩ := hknown
    exact progress_known hk hnil hrow hkey fun _ => rfl
  · have hfresh : ∀ row ∈ db.events, ¬ raftKey c a row.eventId := fun row hrow hkey =>
      hknown ⟨row, hrow, hkey⟩
    simp only [Raft.step, eventOrNone_fresh ha hfresh, Phase.ofExcept, afterProbe, hcmd.1, if_true]
    exact ⟨hnil.snoc rfl, href⟩

include ha hcmd in
/-- A grant is found, or the command is refused without authority. -/
theorem grants_progress (hstill : Untouched log) (href : a.sourceRef.truthy = true) :
    RaftProgress c db a (log ++ [⟨now, .grants, db, db⟩]) (Raft.step c a now db .grants).2 := by
  simp only [Raft.step]
  cases hgrant : matchingGrant c db now a.source a.target a.payload with
  | none =>
    refine ⟨hstill.snoc rfl, denied_last log trivial fun hauth => ?_⟩
    obtain ⟨grant, hsome⟩ := matchingGrant_of_granted (c := c) hauth.granted
    exact absurd (hgrant.symm.trans hsome) (by simp)
  | some grant =>
    simp only [afterGrants]
    split_ifs with ht
    · refine ⟨hstill.snoc rfl, denied_last log trivial fun hauth => ?_⟩
      exact absurd (ht.symm.trans hauth.token.1) (by simp)
    · have ht' : a.token.truthy = true := by simpa using ht
      obtain ⟨digest, v, hd, hv, hrequest⟩ := commandRequest_portable now grant ha hcmd ht'
      rw [hrequest]
      exact ⟨hstill.snoc rfl, href, ht', digest, v, now, grant.id, grant.scope, hd, hv, rfl⟩

/-- The guard of a command is its authority. -/
theorem callGuard_iff {digest : Str} {read : Time} {grantId : ℕ} {scope : Dict}
    (href : a.sourceRef.truthy = true) (ht : a.token.truthy = true)
    (hd : tokenDigest c.env a.token = .ok digest)
    (hcurrent : Current c a now db digest read grantId scope) :
    (callGuard c a digest read grantId scope).holds db = true ↔ Authority c.env a now db := by
  have hholds : (callGuard c a digest read grantId scope).holds db = true ↔
      hasToken db a.source digest read = true ∧ Stands c a db read grantId scope := by
    unfold callGuard Guard.holds hasToken Stands
    simp only [Bool.and_eq_true, List.any_eq_true, decide_eq_true_eq, and_assoc]
  rw [hholds, hcurrent.token]
  constructor
  · rintro ⟨htoken, hstands⟩
    exact ⟨href, ⟨ht, digest, hd, htoken⟩, hcurrent.granted htoken hstands⟩
  · rintro ⟨-, ⟨-, digest', hd', htoken⟩, hgranted⟩
    cases hd'.symm.trans hd
    exact ⟨htoken, hcurrent.stands htoken hgranted⟩

include hcmd in
/-- The guarded insert decides. -/
theorem commit_progress {stmts : List Stmt} (hk : Kept db) (hs : Sound db)
    (hok : RaftOk c a now db (.commit stmts)) (hp : RaftProgress c db a log (.commit stmts)) :
    RaftProgress c (Raft.step c a now db (.commit stmts)).1 a
      (log ++ [⟨now, .commit stmts, db, (Raft.step c a now db (.commit stmts)).1⟩])
      (Raft.step c a now db (.commit stmts)).2 := by
  obtain ⟨hstill, href, ht, digest, v, read, grantId, scope, hd, hv, rfl⟩ := hp
  have hty : v.type = lit "command" := hv.type.trans hcmd.1
  have hactor : v.authActor = some v.source := hv.source ▸ hv.actor hcmd.1
  by_cases hknown : hasEvent db v.eventId = true
  · -- the id has got its event in between
    have hexec : execAll c db (commandStatements v none (callGuard c a digest read grantId scope)
        read) = .ok (db, [none, none, none]) :=
      execAll_command_known hk hs hknown none
    obtain ⟨row, hrow, hid⟩ := hasEvent_iff.mp hknown
    simp only [Raft.step, transaction_ok hexec]
    exact .inr ⟨hstill.snoc rfl, .inl ⟨row, hrow, hid ▸ hv.key⟩⟩
  rw [Bool.not_eq_true] at hknown
  have hcurrent := hok hcmd v digest read grantId scope rfl hknown
  have hguard := callGuard_iff href ht hd hcurrent
  by_cases hauth : Authority c.env a now db
  · have hnumber : NumberFree c.env db v.source := hv.source ▸ hcurrent.number hauth
    obtain ⟨db', ids, s, hexec, hev, acc, hacc, hlog⟩ :=
      execAll_command_landed read hk hknown hty hactor (hguard.mpr hauth) hnumber
    simp only [Raft.step, transaction_ok hexec]
    refine .inl ⟨Raft.eventRow db v s, ?_, landed_last hstill trivial hauth ?_⟩
    · rw [hev]
      exact List.mem_append_right _ (List.mem_singleton_self _)
    · exact ⟨hev, hasEvent_eq_false.mp hknown, hv.key, hv.same, hv.actor hcmd.1, acc,
        hv.source ▸ hacc, hlog⟩
  · have hfails : (callGuard c a digest read grantId scope).holds db = false := by
      rw [← Bool.not_eq_true, hguard]
      exact hauth
    have hexec : execAll c db (commandStatements v none (callGuard c a digest read grantId scope)
        read) = .ok (db, [none, none, none]) := execAll_command_denied hk hknown hfails none
    simp only [Raft.step, transaction_ok hexec]
    exact .inr ⟨hstill.snoc rfl, .inr (denied_last log trivial hauth)⟩

include ha hcmd in
theorem readBack_progress (hk : Kept db) (hp : RaftProgress c db a log .readBack) :
    RaftProgress c db a (log ++ [⟨now, .readBack, db, db⟩]) (Raft.step c a now db .readBack).2 := by
  rcases hp with ⟨row, hrow, hlanded⟩ | ⟨hstill, hcase⟩
  · -- the row of the call is read
    obtain ⟨_, _, _, -, -, -, -, hlands⟩ := id hlanded
    have hread : eventOrNone c db a.key = (do return some (← rowToEvent row)) := by
      rw [eventOrNone, hlands.key, ok_bind, findEvent_of_nodup hk.keys hrow]
    have hdone : (Raft.step c a now db .readBack).2 = .done (rowToEvent row) := by
      simp only [Raft.step, hread]
      cases hevent : rowToEvent row with
      | error e => rfl
      | ok event =>
        have hsame := verify_same hevent hlands.same
        rw [hevent, ok_bind] at hsame
        exact congrArg Phase.done hsame
    have hlanded' : Landed c.env RaftDecides (raftKey c) a row (log ++ [⟨now, .readBack, db, db⟩]) :=
      hlanded.snoc rfl
    rw [hdone]
    exact .committed row hlanded' rfl
  · by_cases hknown : ∃ row ∈ db.events, raftKey c a row.eventId
    · obtain ⟨row, hrow, hkey⟩ := hknown
      exact progress_known hk hstill hrow hkey fun _ => rfl
    · have hfresh : ∀ row ∈ db.events, ¬ raftKey c a row.eventId := fun row hrow hkey =>
        hknown ⟨row, hrow, hkey⟩
      have hdenied := hcase.resolve_left hknown
      simp only [Raft.step, eventOrNone_fresh ha hfresh, Phase.ofExcept, afterReadBack, hcmd.1,
        if_true]
      exact ⟨hstill.snoc rfl, hdenied.snoc id⟩

include ha in
theorem refuse_progress {late : Bool} (hk : Kept db) (hstill : Untouched log)
    (hdenied : Denied c.env RaftDecides a log) :
    RaftProgress c db a (log ++ [⟨now, .refuse late, db, db⟩])
      (Raft.step c a now db (.refuse late)).2 := by
  obtain ⟨valid, hv⟩ : ∃ valid, validateToken c db now a.source a.token = .ok valid := by
    by_cases ht : a.token.truthy = true
    · obtain ⟨digest, hd⟩ := ha.token.tokenDigest c.env ht
      exact ⟨_, validateToken_digest (a := atTime a now) hk.formed ht hd⟩
    · exact ⟨false, if_pos (by simpa using ht)⟩
  simp only [Raft.step, hv]
  cases valid <;> cases late <;> exact ⟨hstill.snoc rfl, hdenied.snoc id⟩

include ha in
theorem audit_progress {result message : String} (hstill : Untouched log)
    (hdenied : Denied c.env RaftDecides a log) :
    RaftProgress c (Raft.step c a now db (.audit result message)).1 a
      (log ++ [⟨now, .audit result message, db, (Raft.step c a now db (.audit result message)).1⟩])
      (Raft.step c a now db (.audit result message)).2 := by
  obtain ⟨key, -, hkey⟩ := ha.key
  obtain ⟨ref, -, href⟩ := ha.sourceRef
  have hvalues : rejectValues c a now result =
      .ok ⟨now, a.source, lit "command_reject", ref, a.target, some key, lit result, []⟩ := by
    rw [rejectValues, href, hkey]
    rfl
  simp only [Raft.step, hvalues]
  exact Outcome.refuse (hdenied.snoc id) hstill ⟨_, rfl, rfl, rfl⟩

end

theorem raftStep_progress {p : Phase} {log : List (Visit Db Time Phase)} (hk : Kept db)
    (hs : Sound db) (hcmd : Counted a) (hp : RaftProgress c db a log p) (hok : RaftOk c a now db p)
    (hnone : (raftCalls c).result p = none) :
    RaftProgress c (Raft.step c a now db p).1 a
      (log ++ [⟨now, p, db, (Raft.step c a now db p).1⟩]) (Raft.step c a now db p).2 := by
  cases p with
  | probe => exact probe_progress (hok hcmd) hcmd hk hp.1 hp.2
  | grants => exact grants_progress (hok hcmd) hcmd hp.1 hp.2
  | commit stmts => exact commit_progress hcmd hk hs hok hp
  | readBack => exact readBack_progress (hok hcmd) hcmd hk hp
  | refuse late => exact refuse_progress (hok hcmd) hk hp.1 hp.2
  | audit result message => exact audit_progress (hok hcmd) hp.1 hp.2
  | done r => cases hnone

theorem Sound.elsewhere (h : Sound db) (he : Elsewhere db db') : Sound db' := by
  obtain ⟨rows, haudit, hrows⟩ := he.audit
  refine h.congr he.same.1 he.same.2 fun row hrow hact => ?_
  rw [haudit, List.mem_append] at hrow
  rcases hrow with hrow | hrow
  · exact h.accepted row hrow hact
  · exact absurd hact (hrows row hrow).1

theorem raft_commands_keep (c : Cluster) : (raftCalls c).logged.Keeps (fun db => db = {}) Elsewhere
    (fun a now db q => RaftOk c a now db q.1) (fun db => Sound db ∧ Kept db) (RaftInv c)
    (fun db db' => ∀ row ∈ db.events, row ∈ db'.events) where
  refl _ _ hrow := hrow
  trans _ _ _ h h' row hrow := h' row (h row hrow)
  init db hdb := by
    rw [hdb]
    exact ⟨.empty, .empty⟩
  env db db' h he := by
    refine ⟨⟨Sound.elsewhere h.1 he, h.2.elsewhere he⟩, fun row hrow => ?_⟩
    rw [he.same.1]
    exact hrow
  start db a _ := by
    show Carrying c a (if _ then _ else _) ∧ (Counted a → RaftProgress c db a [] (if _ then _ else _))
    split_ifs with hsourced
    · exact ⟨trivial, fun _ => ⟨nofun, .inl hsourced.2⟩⟩
    · refine ⟨trivial, fun hcmd => ⟨rfl, ?_⟩⟩
      simpa [hcmd.1] using hsourced
  mono db db' a q hgrows hq := by
    refine ⟨hq.1, fun hcmd => ?_⟩
    obtain ⟨p, log⟩ := q
    have hp : RaftProgress c db a log p := hq.2 hcmd
    show RaftProgress c db' a log p
    cases p with
    | readBack =>
      rcases hp with ⟨row, hrow, hlanded⟩ | ⟨hstill, ⟨row, hrow, hkey⟩ | hdenied⟩
      · exact .inl ⟨row, hgrows row hrow, hlanded⟩
      · exact .inr ⟨hstill, .inl ⟨row, hgrows row hrow, hkey⟩⟩
      · exact .inr ⟨hstill, .inr hdenied⟩
    | _ => exact hp
  step db a now q h hq hnone hok := by
    obtain ⟨hs, hk⟩ := h
    obtain ⟨hledger, hgrows⟩ := raftStep_kept now hk hs hq.1
    exact ⟨hledger, ⟨raftStep_carrying hq.1, fun hcmd =>
      raftStep_progress hk hs hcmd (hq.2 hcmd) hok hnone⟩, hgrows⟩

theorem raft_commanded (c : Cluster) : Commanded (raftCalls c) c.env RaftDecides (raftKey c)
    (RaftOk c) where
  recorded _ hw := ((raft_commands_keep c).reach hw).1.2.recorded
  outcome _ hw call hcall hcmd r hr := by
    obtain ⟨a, p, log⟩ := call
    have hp : RaftProgress c _ a log p := (((raft_commands_keep c).reach hw).2 _ hcall).2 hcmd
    cases p with
    | done r' =>
      cases hr
      exact hp
    | _ => cases hr

/-! ## Both backends -/

/-- In every run whose commands are decided on the tables of their moment, a command is stored
exactly with the authority for it. -/
theorem command_authority (c : Cluster) :
    Commanded (sqliteCalls c.env) c.env SqliteDecides (sqliteKey c.env) (SqliteOk c) ∧
      Commanded (raftCalls c) c.env RaftDecides (raftKey c) (RaftOk c) :=
  ⟨sqlite_commanded c, raft_commanded c⟩

/-! ## A scope with a 1 -/

/-- `alice` has a token, and a grant of `bob` where `n` is 1. -/
def numberGranted : Db where
  peerTokens := [⟨1, lit "alice", lit "t", none, none, lit "full", lit "2026-10-01T12:00:00Z", none,
    none⟩]
  peerGrants := [⟨1, lit "bob", lit "alice", lit "open", [(lit "n", .int 1)],
    lit "2026-10-01T12:00:00Z", none, none⟩]

/-- A command of `alice` whose `n` is true. -/
def trueCall : EventArgs where
  source := lit "alice"
  target := lit "bob"
  type := lit "command"
  payload := [(lit "op", .str (lit "open")), (lit "n", .bool true)]
  seq := .none
  eventId := .str (lit "e")
  createdAt := .none
  requiresAck := .bool true
  sourceRef := .str (lit "r")
  token := .str (lit "t")
  now := lit "2026-10-01T12:00:00Z"
  newId := []

/-- The call after its two steps. -/
def trueCalled : Db × CallPhase × List (Visit Db Time CallPhase) :=
  let first := (sqliteCalls plainEnv).logged.step trueCall trueCall.now numberGranted (.start, [])
  (sqliteCalls plainEnv).logged.step trueCall trueCall.now first.1 first.2

/-- The command is stored, and `true` is no 1. -/
theorem true_passes_for_one : ¬ Commanded (sqliteCalls plainEnv) plainEnv SqliteDecides
    (sqliteKey plainEnv) (fun _ _ _ _ => True) := by
  intro h
  have hgranted : Reach (callers (sqliteCalls plainEnv).logged (fun db => db = {}) Elsewhere)
      (onAdvance fun _ _ _ _ => True) ⟨numberGranted, []⟩ := by
    refine .step (a := .other numberGranted) (s := ⟨{}, []⟩) (.init ⟨rfl, rfl⟩) trivial ⟨?_, rfl⟩
    exact ⟨⟨rfl, rfl⟩, ⟨[], rfl, nofun⟩, of_decide_eq_true rfl⟩
  have hcalled : Reach (callers (sqliteCalls plainEnv).logged (fun db => db = {}) Elsewhere)
      (onAdvance fun _ _ _ _ => True) ⟨numberGranted, [(trueCall, .start, [])]⟩ :=
    .step (a := .call trueCall) hgranted trivial rfl
  have hdone : Reach (callers (sqliteCalls plainEnv).logged (fun db => db = {}) Elsewhere)
      (onAdvance fun _ _ _ _ => True) ⟨trueCalled.1, [(trueCall, trueCalled.2)]⟩ :=
    .step (a := .advance 0 trueCall.now)
      (.step (a := .advance 0 trueCall.now) hcalled (fun _ _ _ => trivial)
        ⟨trueCall, (.start, []), rfl, rfl, rfl⟩)
      (fun _ _ _ => trivial) ⟨trueCall, _, rfl, rfl, rfl⟩
  obtain ⟨event, hevent⟩ :
      ∃ event, (sqliteCalls plainEnv).result trueCalled.2.1 = some (.ok event) := ⟨_, rfl⟩
  have hgrants : ∀ v ∈ trueCalled.2.2, v.before.peerGrants = numberGranted.peerGrants := by
    refine List.forall_mem_cons.mpr ⟨rfl, List.forall_mem_cons.mpr ⟨rfl, nofun⟩⟩
  cases h.outcome _ hdone _ (List.mem_singleton_self _) ⟨rfl, rfl⟩ _ hevent with
  | known hstill _ =>
    have hfirst := hstill _ (List.mem_cons_self ..)
    exact absurd (congrArg (fun db : Db => db.events.length) hfirst) (by decide)
  | committed row hlanded _ =>
    obtain ⟨l₁, v, l₂, hlog, -, -, hauth, -⟩ := hlanded
    obtain ⟨op, -, grant, hgrant, -, hscope⟩ := hauth.granted
    rw [hgrants v (hlog ▸ List.mem_append_right _ (List.mem_cons_self ..))] at hgrant
    rw [List.mem_singleton.mp hgrant] at hscope
    exact absurd hscope (by decide)
  | refused _ _ hr =>
    obtain ⟨message, hr⟩ := hr
    cases hr

end Backends
end ATalk
