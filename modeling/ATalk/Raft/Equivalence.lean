import ATalk.Raft.Ledger

/-!
# One event on two backends

`AtalkStore.insert_event` checks and writes inside a transaction; `RaftSQLStore.insert_event`
folds the checks into its statements and reads the event back. On the same ledger, at the same
time and without other writers, both do the same except with the sequence number: the first
refuses a number that is taken or beyond 64 bits, the second ignores the row or stores a double.

* `Equivalent` : the same event and contents, or errors of the same status and the same contents;
* `Agrees` : the call sends no statements, or its number is one both backends take or both refuse;
* `backends_agree_iff` : the two are the same.
-/

namespace ATalk
namespace Raft

open Text Python Sqlite ATalk.Core Checks

/-! ## Calls and ledgers -/

/-- A parameter that is absent or a text that can be encoded. -/
def OptText (v : Val) : Prop := v = .none ∨ ∃ s, v = .str s ∧ Clean s

/-- A call as both backends read it: the sequence number is absent or an integer, the token absent
or a text, no text is one that cannot be encoded, and the parameters of the TEXT columns are
stored alike. -/
structure Portable (c : Cluster) (a : EventArgs) : Prop where
  seq : a.seq = .none ∨ ∃ i, a.seq = .int i
  key : ∃ key, textParam c.env a.key = .ok (some key) ∧ jsonParam c a.key = .ok (some key)
  created : ∃ s, textParam c.env a.created = .ok (some s) ∧ jsonParam c a.created = .ok (some s)
  sourceRef : ∃ s, textParam c.env a.sourceRef = .ok s ∧ jsonParam c a.sourceRef = .ok s
  token : OptText a.token
  source : Clean a.source
  target : Clean a.target
  type : Clean a.type
  payload : cleanVal (.dict a.payload) = true
  operation : Clean (commandType c.env a.payload)

/-- What the schema and the writers of a ledger keep: one counter for a source, no empty times in
a token, and no accepted command without its event. -/
structure WellFormed (db : Db) : Prop where
  sources : (db.sourceCounters.map (·.source)).Nodup
  revoked : ∀ row ∈ db.peerTokens, row.revokedAt ≠ some []
  grace : ∀ row ∈ db.peerTokens, row.graceUntil ≠ some []
  accepted : ∀ e, hasAccepted db e = true → hasEvent db e = true

/-- The same event and the same contents, or errors of the same status and the same contents. -/
def Equivalent (x y : Db × Except Exn Event) : Prop :=
  x.1.events = y.1.events ∧ x.1.sourceCounters = y.1.sourceCounters ∧
    x.1.auditLog = y.1.auditLog ∧
    ((∃ event, x.2 = .ok event ∧ y.2 = .ok event) ∨
      ∃ e e', x.2 = .error e ∧ y.2 = .error e' ∧ e.status = e'.status)

/-- The call comes to its statements: its id is new, and a command names its source_ref and
carries a token and finds a grant. -/
structure Sends (c : Cluster) (db : Db) (a : EventArgs) : Prop where
  fresh : ∀ key, textParam c.env a.key = .ok key → findEvent db key = none
  command : a.type = lit "command" → a.sourceRef.truthy = true ∧ a.token.truthy = true ∧
    commandAllowed c.env db a.now a.source a.target a.payload = .ok true

/-- A number beyond 64 bits that rqlite refuses as well. -/
def Unread (c : Cluster) (v : Val) : Prop :=
  ∃ i, v = .int i ∧ ¬ (minInt ≤ i ∧ i ≤ maxInt) ∧ c.bigInt i = none

/-- The number of an authorized call: a free one of 64 bits, or one that both refuse. -/
def Fits (c : Cluster) (db : Db) (a : EventArgs) : Prop :=
  Unread c a.seq ∨ ∃ n, minInt ≤ n ∧ n ≤ maxInt ∧ slotTaken db a.source (.int n) = false ∧
    (a.seq = .int n ∨ a.seq = .none ∧ nextValue c.env db a.source = .int n)

def Authorized (env : Env) (db : Db) (a : EventArgs) : Prop :=
  ∃ actor, authorize env db a = .ok (.allowed actor)

/-- The call sends no statements; or it is authorized and its number fits; or it is not, and
rqlite reads its number. -/
def Agrees (c : Cluster) (db : Db) (a : EventArgs) : Prop :=
  Sends c db a →
    Authorized c.env db a ∧ Fits c db a ∨ ¬ Authorized c.env db a ∧ ¬ Unread c a.seq

variable {c : Cluster} {env : Env} {db db' : Db} {a : EventArgs} {key created : Str}
  {ref : Option Str}

/-! ## Parameters -/

/-- An absent parameter and a clean text are stored alike. -/
theorem OptText.portable {v : Val} (h : OptText v) : ∃ s, textParam env v = .ok s ∧
    jsonParam c v = .ok s := by
  rcases h with rfl | ⟨s, rfl, hs⟩
  · exact ⟨none, rfl, rfl⟩
  · refine ⟨some s, ?_, rfl⟩
    rw [Core.textParam, bind_str hs]
    rfl

theorem strParam_ok {s : Str} (hs : Clean s) : strParam s = .ok () := guardOr_pos hs _

theorem OptText.tokenDigest {v : Val} (h : OptText v) (env : Env) (ht : v.truthy = true) :
    ∃ digest, tokenDigest env v = .ok digest := by
  rcases h with rfl | ⟨s, rfl, hs⟩
  · cases ht
  · exact ⟨env.tokenHash (s.flatMap encodeChar), by rw [Core.tokenDigest, encode_eq_some hs]⟩

/-! ## Authorization -/

theorem TokenRow.live_eq {row : TokenRow} {now : Time} (hr : row.revokedAt ≠ some [])
    (hg : row.graceUntil ≠ some []) : TokenRow.live row now = tokenActive row now := by
  have hrevoked : (row.revokedAt.getD [] = []) ↔ row.revokedAt = none := by
    cases h : row.revokedAt with
    | none => simp
    | some t =>
      rw [h] at hr
      simpa using hr
  unfold TokenRow.live tokenActive
  simp only [hrevoked]
  cases h : row.graceUntil with
  | none => rfl
  | some t =>
    rw [h] at hg
    have ht : t ≠ [] := fun he => hg (he ▸ rfl)
    simp [ht]

/-- A row of the peer with the digest of its token that may be used. -/
def hasToken (db : Db) (source digest : Str) (now : Time) : Bool :=
  db.peerTokens.any fun row =>
    row.peerId = source && row.tokenHash = digest && tokenActive row now

theorem scopeOf_isSome {token : Val} {digest : Str} (hd : tokenDigest env token = .ok digest)
    (now : Time) (rows : List TokenRow) :
    ∃ s, scopeOf env now token rows = .ok s ∧
      s.isSome = rows.any fun row => TokenRow.live row now && row.tokenHash = digest := by
  induction rows with
  | nil => exact ⟨none, rfl, rfl⟩
  | cons row rows ih =>
    obtain ⟨s, hs, hsome⟩ := ih
    rw [scopeOf, List.any_cons]
    by_cases hlive : TokenRow.live row now = true
    · simp only [hlive, if_true, hd, Bool.true_and]
      by_cases hhash : row.tokenHash = digest
      · exact ⟨_, if_pos hhash, by simp [hhash]⟩
      · exact ⟨s, (if_neg hhash).trans hs, by simpa [hhash] using hsome⟩
    · simp only [hlive, Bool.false_eq_true, if_false, Bool.false_and, Bool.false_or]
      exact ⟨s, hs, hsome⟩

theorem scopeOf_peer {token : Val} {digest : Str} (hw : WellFormed db)
    (hd : tokenDigest env token = .ok digest) (now : Time) (source : Str) :
    ∃ s, scopeOf env now token (db.peerTokens.filter (·.peerId = source)) = .ok s ∧
      s.isSome = hasToken db source digest now := by
  obtain ⟨s, hs, hsome⟩ := scopeOf_isSome hd now
    (db.peerTokens.filter (·.peerId = source))
  refine ⟨s, hs, hsome.trans ?_⟩
  rw [List.any_filter, hasToken, Bool.eq_iff_iff, List.any_eq_true, List.any_eq_true]
  refine exists_congr fun row => and_congr_right fun hrow => ?_
  rw [TokenRow.live_eq (hw.revoked row hrow) (hw.grace row hrow)]
  simp only [Bool.and_eq_true]
  tauto

theorem commandAllowed_eq (ha : Portable c a) :
    commandAllowed c.env db a.now a.source a.target a.payload =
      .ok (matchingGrant c db a.now a.source a.target a.payload).isSome := by
  unfold commandAllowed matchingGrant
  simp only
  split_ifs
  · rfl
  · rw [strParam_ok ha.source, strParam_ok ha.target, strParam_ok ha.operation]
    exact congrArg Except.ok List.isSome_find?.symm

/-- The guard of a command whose grant was found a moment ago. -/
theorem holds_command {grant : GrantRow} {digest : Str}
    (hgrant : matchingGrant c db a.now a.source a.target a.payload = some grant) :
    Guard.holds db (.command a.source digest a.now grant.id a.target grant.scope
      (commandType c.env a.payload)) = hasToken db a.source digest a.now := by
  have hlive : (db.peerGrants.any fun row => decide (row.id = grant.id) &&
      sameDict row.scope grant.scope &&
      GrantRow.live row a.now a.source a.target (commandType c.env a.payload)) = true := by
    unfold matchingGrant at hgrant
    simp only at hgrant
    split_ifs at hgrant
    have hcond := List.find?_some hgrant
    rw [Bool.and_eq_true] at hcond
    refine List.any_eq_true.mpr ⟨grant, List.mem_of_find?_eq_some hgrant, ?_⟩
    simp [hcond.1]
  rw [Guard.holds, hlive, Bool.and_true, hasToken]

/-- Who may send, in the words of the SQLite store. -/
theorem authorize_message (ha : Portable c a) (hty : a.type ≠ lit "command") :
    authorize c.env db a = .ok (if Guard.holds db (.acl a.source a.target) then .allowed none
      else .refused) := by
  unfold authorize targetAclAllows
  rw [if_neg hty, strParam_ok ha.source, strParam_ok ha.target, Guard.holds]
  by_cases hr : restricted db a.source = true
  · by_cases hstar : a.target = lit "*"
    · simp [hr, hstar]
      rfl
    · cases listed db a.source a.target with
      | true =>
        simp [hr, hstar]
        rfl
      | false =>
        simp [hr, hstar]
        rfl
  · simp [hr]
    rfl

/-- The verdict on a command: the token decides, then the grant. -/
theorem authorize_command {valid : Bool} (ha : Portable c a) (hty : a.type = lit "command")
    (hv : validateToken c db a.now a.source a.token = .ok valid) :
    authorize c.env db a = .ok (if valid = false then
        .rejected "invalid_token" "command token rejected"
      else if (matchingGrant c db a.now a.source a.target a.payload).isSome = false then
        .rejected "grant_denied" "command grant rejected"
      else .allowed (some a.source)) := by
  unfold validateToken at hv
  unfold authorize Core.tokenScope
  rw [if_pos hty, strParam_ok ha.source, commandAllowed_eq ha]
  split_ifs at hv with ht
  · cases hv
    rw [if_pos ht]
    rfl
  · rw [bind_eq_ok] at hv
    obtain ⟨s, hs, hv⟩ := hv
    cases hv
    rw [if_neg ht, ok_bind, hs]
    cases s with
    | none => rfl
    | some scope =>
      cases (matchingGrant c db a.now a.source a.target a.payload).isSome <;> rfl

/-! ## The ends of a call -/

def outcome : Db × Phase → Db × Except Exn Event
  | (db, .done result) => (db, result)
  | (db, _) => (db, .error (.runtime "unfinished"))

theorem insertEvent_eq (c : Cluster) (a : EventArgs) (db : Db) :
    insertEvent c a db = outcome (run c a 6 (db, start a)) := rfl

theorem run_done (n : ℕ) (result : Except Exn Event) :
    run c a n (db, .done result) = (db, .done result) := by
  induction n with
  | zero => rfl
  | succ n ih => exact ih

/-- The ledger with the audit row of a refused command. -/
def refused (a : EventArgs) (key : Str) (ref : Option Str) (result : String) (db : Db) : Db :=
  auditRow db a.now (some a.source) (lit "command_reject") ref (some a.target) (some key)
    (lit result) []

section
variable (ha : Portable c a) (hkey : textParam c.env a.key = .ok (some key))
  (href : textParam c.env a.sourceRef = .ok ref)
include ha hkey href

theorem Portable.rejectValues (result : String) : rejectValues c a a.now result =
    .ok ⟨a.now, a.source, lit "command_reject", ref, a.target, some key, lit result, []⟩ := by
  obtain ⟨k, hk, hk'⟩ := ha.key
  obtain ⟨s, hs, hs'⟩ := ha.sourceRef
  cases hk.symm.trans hkey
  cases hs.symm.trans href
  rw [Raft.rejectValues, hk', hs']
  rfl

theorem run_audit (n : ℕ) (result message : String) :
    run c a (n + 1) (db, .audit result message) =
      (refused a key ref result db, .done (.error (.permission (lit message)))) := by
  rw [run, step, ha.rejectValues hkey href]
  exact run_done n _

/-- The SQLite store writes the same row. -/
theorem Portable.reject (result message : String) : reject c.env a result message db =
    (refused a key ref result db, .error (.permission (lit message))) := by
  rw [Core.reject, Core.audit, strParam_ok ha.source, strParam_ok ha.target, href, hkey]
  rfl

end

/-- The reason of a refusal. -/
def reason (valid : Bool) : String := if valid then "grant_denied" else "invalid_token"

theorem run_refuse {valid : Bool} (ha : Portable c a) (hkey : textParam c.env a.key = .ok (some key))
    (href : textParam c.env a.sourceRef = .ok ref)
    (hv : validateToken c db a.now a.source a.token = .ok valid) (late : Bool) (n : ℕ) :
    ∃ message, run c a (n + 2) (db, .refuse late) =
      (refused a key ref (reason valid) db, .done (.error (.permission message))) := by
  rw [run, step, hv]
  cases valid <;> cases late <;> exact ⟨_, run_audit ha hkey href n _ _⟩

theorem validateToken_digest {digest : Str} (hw : WellFormed db) (ht : a.token.truthy = true)
    (hd : tokenDigest c.env a.token = .ok digest) :
    validateToken c db a.now a.source a.token = .ok (hasToken db a.source digest a.now) := by
  obtain ⟨s, hs, hsome⟩ := scopeOf_peer hw hd a.now a.source
  rw [validateToken, if_neg (by simp [ht]), hs, ← hsome]
  rfl

theorem Portable.validateToken (ha : Portable c a) (hw : WellFormed db) :
    ∃ valid, validateToken c db a.now a.source a.token = .ok valid := by
  by_cases ht : a.token.truthy = true
  · obtain ⟨digest, hd⟩ := ha.token.tokenDigest c.env ht
    exact ⟨_, validateToken_digest hw ht hd⟩
  · rw [Bool.not_eq_true] at ht
    exact ⟨false, if_pos ht⟩

/-- The ledger after the rows of a call were not found. -/
def lost (a : EventArgs) (key : Str) (ref : Option Str) (valid : Bool) (db : Db) : Db :=
  if a.type = lit "command" then refused a key ref (reason valid) db else db

theorem run_lost {valid : Bool} (ha : Portable c a) (hkey : textParam c.env a.key = .ok (some key))
    (href : textParam c.env a.sourceRef = .ok ref) (hnone : findEvent db (some key) = none)
    (hv : Raft.validateToken c db a.now a.source a.token = .ok valid) (n : ℕ) :
    ∃ message, run c a (n + 3) (db, .readBack) =
      (lost a key ref valid db, .done (.error (.permission message))) := by
  obtain ⟨k, hk, hk'⟩ := ha.key
  cases hk.symm.trans hkey
  have hread : eventOrNone c db a.key = .ok none := by
    rw [eventOrNone, hk', ok_bind, hnone]
    rfl
  rw [run, step, hread, lost]
  simp only [Phase.ofExcept, afterReadBack]
  split_ifs
  · exact run_refuse ha hkey href hv true n
  · exact ⟨_, run_done (n + 2) _⟩

/-- The row of a call is read back. -/
theorem run_landed {row : EventRow} (ha : Portable c a)
    (hkey : textParam c.env a.key = .ok (some key)) (hrow : findEvent db (some key) = some row)
    (hid : (row.source, row.target, row.type) = (a.source, a.target, a.type)) (n : ℕ) :
    run c a (n + 1) (db, .readBack) = (db, .done (rowToEvent row)) := by
  obtain ⟨k, hk, hk'⟩ := ha.key
  cases hk.symm.trans hkey
  have hread : eventOrNone c db a.key = (do return some (← rowToEvent row)) := by
    rw [eventOrNone, hk', ok_bind, hrow]
  rw [run, step, hread]
  cases hev : rowToEvent row with
  | error e => exact run_done n _
  | ok event =>
    obtain ⟨seq, -, rfl⟩ := rowToEvent_ok hev
    refine (run_done n _).trans ?_
    rw [verifyEventIdentity, if_neg (by simpa using hid)]

/-! ## The statements of a call -/

/-- The values of the event of a call. -/
def callValues (a : EventArgs) (key created : Str) (ref : Option Str) : EventValues :=
  ⟨key, a.source, a.target, a.type, created, a.now, a.payload, a.requiresAck.truthy, ref,
    if a.type = lit "command" then some a.source else none⟩

/-- The audit statement of a command. -/
def acceptStatements (a : EventArgs) (v : EventValues) : List Stmt :=
  if a.type = lit "command" then
    [.acceptCommand (acceptValues v a.now) v.eventId v.source v.target] else []

/-- The ledger with the audit row of an accepted command. -/
def accepted (a : EventArgs) (key : Str) (ref : Option Str) (db : Db) : Db :=
  if a.type = lit "command" then
    auditRow db a.now (some a.source) (lit "command_accept") ref (some a.target) (some key)
      (lit "accepted") [] else db

theorem execAll_accept_lost (c : Cluster) (a : EventArgs) (created : Str) (ref : Option Str)
    (h : hasEvent db key = false) :
    ∃ ids, execAll c db (acceptStatements a (callValues a key created ref)) = .ok (db, ids) := by
  unfold acceptStatements
  split_ifs
  · have hno : (db.events.any (isCommand key a.source a.target)) = false := by
      rw [hasEvent_eq_false] at h
      rw [List.any_eq_false]
      intro row hrow hcmd
      simp only [isCommand, Bool.and_eq_true, decide_eq_true_eq] at hcmd
      exact h row hrow hcmd.1.1.1.1
    exact ⟨[none], by simp [execAll, exec, callValues, hno, done]⟩
  · exact ⟨[], rfl⟩

theorem execAll_accept_landed {seq : SqlVal} (hacc : hasAccepted db key = false)
    (hrow : Core.eventRow db' a (callValues a key created ref).authActor key seq created ref ∈
      db.events) :
    ∃ ids, execAll c db (acceptStatements a (callValues a key created ref)) =
      .ok (accepted a key ref db, ids) := by
  unfold acceptStatements accepted
  split_ifs with hty
  · have hyes : (db.events.any (isCommand key a.source a.target)) = true := by
      refine List.any_eq_true.mpr ⟨_, hrow, ?_⟩
      simp [isCommand, Core.eventRow, callValues, hty]
    exact ⟨[none], by
      simp [execAll, exec, callValues, hyes, hacc, done, insertAudit, acceptValues]⟩
  · exact ⟨[], rfl⟩

theorem Portable.eventValues (ha : Portable c a) (hkey : textParam c.env a.key = .ok (some key))
    (hcr : textParam c.env a.created = .ok (some created))
    (href : textParam c.env a.sourceRef = .ok ref) (actor : Option Str) :
    eventValues c a a.now actor =
      .ok { callValues a key created ref with authActor := actor } := by
  obtain ⟨k, hk, hk'⟩ := ha.key
  obtain ⟨t, ht, ht'⟩ := ha.created
  obtain ⟨r, hr, hr'⟩ := ha.sourceRef
  cases hk.symm.trans hkey
  cases ht.symm.trans hcr
  cases hr.symm.trans href
  rw [Raft.eventValues, keyParam, keyParam, hk', ht', hr']
  rfl

/-- The call sends its statements under a guard that says whether it is authorized. -/
theorem Sends.insertEvent (hs : Sends c db a) (ha : Portable c a) (hw : WellFormed db)
    (hkey : textParam c.env a.key = .ok (some key))
    (hcr : textParam c.env a.created = .ok (some created))
    (href : textParam c.env a.sourceRef = .ok ref) :
    ∃ g n, (Guard.holds db g = true ↔ Authorized c.env db a) ∧
      insertEvent c a db = match seqParam c a.seq with
        | .error e => (db, .error e)
        | .ok seq => outcome (run c a (n + 4) (db, .commit
            (insertStatements (callValues a key created ref) seq g ++
              acceptStatements a (callValues a key created ref)))) := by
  obtain ⟨k, hk, hk'⟩ := ha.key
  cases hk.symm.trans hkey
  have hread : eventOrNone c db a.key = .ok none := by
    rw [eventOrNone, hk', ok_bind, hs.fresh _ hkey]
    rfl
  by_cases hty : a.type = lit "command"
  · obtain ⟨hsrc, htok, hallow⟩ := hs.command hty
    obtain ⟨digest, hd⟩ := ha.token.tokenDigest c.env htok
    rw [commandAllowed_eq ha, Except.ok.injEq, Option.isSome_iff_exists] at hallow
    obtain ⟨grant, hgrant⟩ := hallow
    refine ⟨.command a.source digest a.now grant.id a.target grant.scope
      (commandType c.env a.payload), 0, ?_, ?_⟩
    · rw [holds_command hgrant, Authorized,
        authorize_command ha hty (validateToken_digest hw htok hd), hgrant]
      cases hasToken db a.source digest a.now <;> simp
    · have hphase : afterGrants c a a.now (some grant) = match seqParam c a.seq with
          | .error e => .done (.error e)
          | .ok seq => .commit (insertStatements (callValues a key created ref) seq
              (.command a.source digest a.now grant.id a.target grant.scope
                (commandType c.env a.payload)) ++
              acceptStatements a (callValues a key created ref)) := by
        rw [afterGrants]
        simp only [htok, Bool.true_eq_false, if_false]
        rw [commandRequest, hd, ok_bind, ha.eventValues hkey hcr href, acceptStatements,
          if_pos hty]
        cases seqParam c a.seq with
        | error e => rfl
        | ok seq => simp [Phase.ofExcept, commandStatements, callValues, hty]
      rw [insertEvent_eq, start, if_neg (by simp [hsrc]), run, step, hread]
      simp only [Phase.ofExcept, afterProbe, hty, if_true]
      rw [run, step, hgrant, hphase]
      cases seqParam c a.seq with
      | error e => exact congrArg outcome (run_done 4 _)
      | ok seq => rfl
  · refine ⟨.acl a.source a.target, 1, ?_, ?_⟩
    · rw [Authorized, authorize_message ha hty]
      split_ifs with hg <;> simp [hg]
    · have hphase : afterProbe c a a.now none = match seqParam c a.seq with
          | .error e => .done (.error e)
          | .ok seq => .commit (insertStatements (callValues a key created ref) seq
              (.acl a.source a.target) ++ acceptStatements a (callValues a key created ref)) := by
        rw [afterProbe, if_neg hty, messageRequest, ha.eventValues hkey hcr href,
          acceptStatements, if_neg hty]
        cases seqParam c a.seq with
        | error e => rfl
        | ok seq => simp [Phase.ofExcept, messageStatements, callValues, hty]
      rw [insertEvent_eq, start, if_neg (by simp [hty]), run, step, hread]
      simp only [Phase.ofExcept, hphase]
      cases seqParam c a.seq with
      | error e => exact congrArg outcome (run_done 5 _)
      | ok seq => rfl

/-! ## Calls that insert nothing -/

section
variable {valid : Bool} (ha : Portable c a) (hkey : textParam c.env a.key = .ok (some key))
  (href : textParam c.env a.sourceRef = .ok ref)
  (hv : validateToken c db a.now a.source a.token = .ok valid)
include ha hkey href hv

/-- The SQLite store refuses a new event whose call is not authorized. -/
theorem core_denied (hfresh : findEvent db (some key) = none)
    (hsourced : ¬ (a.type = lit "command" ∧ a.sourceRef.truthy = false))
    (hauth : ¬ Authorized c.env db a) :
    ∃ message, Core.insertEvent c.env a db =
      (lost a key ref valid db, .error (.permission message)) := by
  unfold Core.insertEvent writeEvent lost
  rw [if_neg hsourced, hkey]
  simp only [hfresh]
  by_cases hty : a.type = lit "command"
  · have hverdict := authorize_command ha hty hv
    rw [Authorized, hverdict] at hauth
    rw [hverdict, if_pos hty]
    cases valid with
    | false => exact ⟨_, ha.reject hkey href _ _⟩
    | true =>
      cases hgrant : (matchingGrant c db a.now a.source a.target a.payload).isSome with
      | true => exact absurd ⟨_, by rw [hgrant]; rfl⟩ hauth
      | false => exact ⟨_, ha.reject hkey href _ _⟩
  · rw [authorize_message ha hty, if_neg hty]
    split_ifs with hg
    · exact absurd ⟨_, by rw [authorize_message ha hty, if_pos hg]⟩ hauth
    · exact ⟨_, rfl⟩

/-- A guard that fails: the statements do nothing, and the call finds no event. -/
theorem raft_denied {v : EventValues} {g : Guard} {seq : Option SqlVal} {n : ℕ}
    (hval : v = callValues a key created ref) (hfresh : findEvent db (some key) = none)
    (hg : Guard.holds db g = false) :
    ∃ message, outcome (run c a (n + 4) (db, .commit
      (insertStatements v seq g ++ acceptStatements a v))) =
      (lost a key ref valid db, .error (.permission message)) := by
  subst hval
  have hno : hasEvent db key = false := by
    rw [findEvent_eq_none_iff] at hfresh
    exact hasEvent_eq_false.mpr hfresh
  obtain ⟨ids, hids⟩ := execAll_accept_lost c a created ref hno
  obtain ⟨message, hrun⟩ := run_lost ha hkey href hfresh hv n
  refine ⟨message, ?_⟩
  rw [run, step, transaction, execAll_append (execAll_insert_denied hno hg seq), hids]
  exact congrArg outcome hrun

end

theorem equivalent_of_eq {x y : Db × Except Exn Event} (h : x = y) : Equivalent x y := by
  subst h
  refine ⟨rfl, rfl, rfl, ?_⟩
  cases h : x.2 with
  | error e => exact .inr ⟨e, e, rfl, rfl, rfl⟩
  | ok event => exact .inl ⟨event, rfl, rfl⟩

theorem equivalent_of_error {x y : Db × Except Exn Event} {e e' : Exn} (hx : x = (db, .error e))
    (hy : y = (db, .error e')) (he : e.status = e'.status) : Equivalent x y := by
  subst hx hy
  exact ⟨rfl, rfl, rfl, .inr ⟨e, e', rfl, rfl, he⟩⟩

/-- A call that sends no statements ends alike. -/
theorem equivalent_of_unsent (hw : WellFormed db) (ha : Portable c a) (hs : ¬ Sends c db a) :
    Equivalent (Core.insertEvent c.env a db) (insertEvent c a db) := by
  obtain ⟨key, hkey, hkey'⟩ := ha.key
  obtain ⟨ref, href, -⟩ := ha.sourceRef
  obtain ⟨valid, hv⟩ := ha.validateToken hw
  by_cases hsourced : a.type = lit "command" ∧ a.sourceRef.truthy = false
  · -- the audit row of a command without a source_ref
    refine equivalent_of_eq ?_
    rw [Core.insertEvent, if_pos hsourced, ha.reject hkey href, insertEvent_eq, start,
      if_pos hsourced, run_audit ha hkey href]
    rfl
  cases hfind : findEvent db (some key) with
  | some row =>
    -- the event of the id is compared with the call
    refine equivalent_of_eq ?_
    have hread : eventOrNone c db a.key = (do return some (← rowToEvent row)) := by
      rw [eventOrNone, hkey', ok_bind, hfind]
    rw [Core.insertEvent, if_neg hsourced, writeEvent, hkey, insertEvent_eq, start,
      if_neg hsourced, run, step, hread]
    simp only [hfind, finishEvent]
    cases hev : rowToEvent row with
    | error e => exact congrArg outcome (run_done 5 _).symm
    | ok event => exact congrArg outcome (run_done 5 _).symm
  | none =>
    -- a command without a token or without a grant
    have hcmd : a.type = lit "command" ∧ (a.token.truthy = false ∨
        matchingGrant c db a.now a.source a.target a.payload = none) := by
      by_contra hno
      refine hs ⟨fun k hk => ?_, fun hty => ⟨?_, ?_, ?_⟩⟩
      · cases hk.symm.trans hkey
        exact hfind
      · by_contra href'
        exact hsourced ⟨hty, by simpa using href'⟩
      · by_contra htok
        exact hno ⟨hty, .inl (by simpa using htok)⟩
      · rw [commandAllowed_eq ha, Except.ok.injEq, Option.isSome_iff_ne_none]
        exact fun hgrant => hno ⟨hty, .inr hgrant⟩
    obtain ⟨hty, hcase⟩ := hcmd
    have hauth : ¬ Authorized c.env db a := by
      rintro ⟨actor, hactor⟩
      rw [authorize_command ha hty hv] at hactor
      rcases hcase with htok | hgrant
      · rw [validateToken, if_pos htok] at hv
        cases hv
        cases hactor
      · rw [hgrant] at hactor
        cases valid <;> cases hactor
    obtain ⟨message, hcore⟩ := core_denied ha hkey href hv hfind hsourced hauth
    obtain ⟨message', hrefuse⟩ := run_refuse ha hkey href hv false 2
    have hread : eventOrNone c db a.key = .ok none := by
      rw [eventOrNone, hkey', ok_bind, hfind]
      rfl
    have hphase : afterGrants c a a.now (matchingGrant c db a.now a.source a.target a.payload) =
        .refuse false := by
      rcases hcase with htok | hgrant
      · cases matchingGrant c db a.now a.source a.target a.payload with
        | none => rfl
        | some grant => simp [afterGrants, htok]
      · rw [hgrant]
        rfl
    have hraft : insertEvent c a db = (lost a key ref valid db, .error (.permission message')) := by
      rw [insertEvent_eq, start, if_neg hsourced, run, step, hread]
      simp only [Phase.ofExcept, afterProbe, hty, if_true]
      rw [run, step, hphase, hrefuse, lost, if_pos hty]
      rfl
    exact equivalent_of_error hcore hraft rfl

/-! ## Calls that insert their event -/

section
variable {g : Guard} {n : ℕ} {db₁ : Db} {v : EventValues} {seq : Option SqlVal}
  {ids : List (Option ℕ)} (ha : Portable c a) (hkey : textParam c.env a.key = .ok (some key))
  (hval : v = callValues a key created ref)
  (hexec : execAll c db (insertStatements v seq g) = .ok (db₁, ids))
include ha hkey hval hexec

/-- The row is there: it is audited, read back and returned. -/
theorem raft_landed {s : SqlVal} {row : EventRow} (hacc : hasAccepted db key = false)
    (hfresh : findEvent db (some key) = none) (hev : db₁.events = db.events ++ [row])
    (haud : db₁.auditLog = db.auditLog)
    (hrow : row = Core.eventRow db a v.authActor key s created ref) :
    outcome (run c a (n + 4) (db, .commit (insertStatements v seq g ++ acceptStatements a v))) =
      (accepted a key ref db₁, rowToEvent row) := by
  subst hval
  have hacc' : hasAccepted db₁ key = false := by rwa [hasAccepted, haud]
  have hmem : Core.eventRow db a (callValues a key created ref).authActor key s created ref ∈
      db₁.events := by
    rw [hev, ← hrow]
    exact List.mem_append_right _ (List.mem_singleton_self _)
  obtain ⟨ids', hids⟩ := execAll_accept_landed (c := c) hacc' hmem
  have hev' : (accepted a key ref db₁).events = db.events ++ [row] := by
    rw [← hev, accepted]
    split_ifs <;> rfl
  have hfind : findEvent (accepted a key ref db₁) (some key) = some row := by
    rw [findEvent] at hfresh
    rw [findEvent, hev', List.find?_append, hfresh, hrow]
    simp [Core.eventRow]
  rw [run, step, transaction, execAll_append hexec, hids]
  exact congrArg outcome (run_landed ha hkey hfind (hrow ▸ rfl) (n + 2))

/-- The row was ignored. -/
theorem raft_ignored (href : textParam c.env a.sourceRef = .ok ref) (hw : WellFormed db)
    (hfresh : findEvent db (some key) = none) (hev : db₁.events = db.events)
    (htok : db₁.peerTokens = db.peerTokens) :
    ∃ db₂ message, outcome (run c a (n + 4) (db, .commit
      (insertStatements v seq g ++ acceptStatements a v))) =
        (db₂, .error (.permission message)) := by
  subst hval
  obtain ⟨valid, hv⟩ := ha.validateToken hw
  have hfresh' : findEvent db₁ (some key) = none := by rwa [findEvent, hev]
  have hno : hasEvent db₁ key = false := by
    rw [findEvent_eq_none_iff] at hfresh'
    exact hasEvent_eq_false.mpr hfresh'
  have hv' : validateToken c db₁ a.now a.source a.token = .ok valid := by
    rwa [validateToken, htok]
  obtain ⟨ids', hids⟩ := execAll_accept_lost c a created ref hno
  obtain ⟨message, hrun⟩ := run_lost ha hkey href hfresh' hv' n
  refine ⟨lost a key ref valid db₁, message, ?_⟩
  rw [run, step, transaction, execAll_append hexec, hids]
  exact congrArg outcome hrun

end

theorem Portable.rowParams (ha : Portable c a) (hkey : textParam c.env a.key = .ok (some key))
    (hcr : textParam c.env a.created = .ok (some created))
    (href : textParam c.env a.sourceRef = .ok ref) (v : Val) :
    rowParams c.env a v = (do
      let s ← integerParam c.env v
      return ⟨some key, s, some created, ref⟩) := by
  rw [Core.rowParams, hkey, hcr, href, strParam_ok ha.source, strParam_ok ha.target,
    strParam_ok ha.type, Core.jsonParam, guardOr_pos ha.payload]
  cases integerParam c.env v <;> rfl

theorem authorize_actor {actor : Option Str} (hw : WellFormed db) (ha : Portable c a)
    (h : authorize c.env db a = .ok (.allowed actor)) :
    actor = (callValues a key created ref).authActor := by
  obtain ⟨valid, hv⟩ := ha.validateToken hw
  by_cases hty : a.type = lit "command"
  · rw [authorize_command ha hty hv] at h
    simp only [callValues, if_pos hty]
    split_ifs at h <;> cases h
    rfl
  · rw [authorize_message ha hty] at h
    simp only [callValues, if_neg hty]
    split_ifs at h <;> cases h
    rfl

theorem intOf_status {s : SqlVal} {e : Exn} (h : intOf s = .error e) : e.status ≠ 403 := by
  unfold intOf at h
  split at h
  · cases h
    decide
  · cases h
  · split at h
    · cases h
    · cases h
      decide
  · split at h
    · cases h
    · cases h
      simp [Exn.status]

theorem rowToEvent_status {row : EventRow} {e : Exn} (h : rowToEvent row = .error e) :
    e.status ≠ 403 := by
  unfold rowToEvent at h
  split at h
  · next hint =>
    cases h
    exact intOf_status hint
  · cases h

theorem integerParam_int {i : ℤ} (hi : minInt ≤ i ∧ i ≤ maxInt) :
    integerParam env (.int i) = .ok (.int i) := by
  rw [integerParam, bind_int hi]
  rfl

/-- A number as rqlite reads it: an integer of 64 bits, or a double. -/
theorem seqParam_int (c : Cluster) (i : ℤ) :
    (Unread c (.int i) ∧ ∃ e, seqParam c (.int i) = .error e ∧ e.status = 500) ∨
      ∃ t : SqlVal, seqParam c (.int i) = .ok (some t) ∧ t.Numeric ∧ ¬ Unread c (.int i) ∧
        (minInt ≤ i ∧ i ≤ maxInt → t = .int i) := by
  have hparam : seqParam c (.int i) = (do return some (← intParam c i)) := rfl
  rw [hparam, intParam]
  split_ifs with hi
  · refine .inr ⟨.int i, rfl, trivial, ?_, fun _ => rfl⟩
    rintro ⟨i', hi', hout, -⟩
    cases hi'
    exact hout hi
  · cases hbig : c.bigInt i with
    | none => exact .inl ⟨⟨i, rfl, hi, hbig⟩, _, rfl, rfl⟩
    | some f =>
      have hnan : f ≠ .nan := fun hf => c.bigInt_ne_nan i (hf ▸ hbig)
      refine .inr ⟨.real f, rfl, hnan, ?_, fun hin => absurd hin hi⟩
      rintro ⟨i', hi', -, hnone⟩
      cases hi'
      exact absurd (hbig.symm.trans hnone) nofun

theorem nextSeq_status {source : Str} {e : Exn} (hsource : Clean source)
    (h : nextSeq env db source = .error e) : e.status ≠ 403 := by
  unfold nextSeq at h
  rw [strParam_ok hsource, ok_bind] at h
  simp only at h
  split at h
  · cases h
    decide
  · next row _ =>
    cases hint : intOf row.lastSeq with
    | error e' =>
      rw [hint] at h
      cases h
      exact intOf_status hint
    | ok i =>
      rw [hint] at h
      cases h

theorem allocate_status {e : Exn} (hsource : Clean a.source) (h : allocate env db a = .error e) :
    e.status ≠ 403 := by
  unfold allocate at h
  split at h
  · cases hnext : nextSeq env db a.source with
    | error e' =>
      rw [hnext] at h
      cases h
      exact nextSeq_status hsource hnext
    | ok r =>
      rw [hnext] at h
      cases h
  · cases h

theorem insertRow_ne_eventId {actor : Option Str} {s : SqlVal}
    (hfresh : findEvent db (some key) = none) :
    insertRow db a actor ⟨some key, s, some created, ref⟩ ≠ .error .eventId := by
  have hids : (db.events.any fun row => decide (row.eventId = key)) = false := by
    rw [findEvent_eq_none_iff] at hfresh
    simpa using hfresh
  unfold insertRow
  cases s with
  | null => simp
  | _ =>
    simp only [hids, Bool.false_eq_true, if_false]
    split_ifs <;> simp

/-- A call that comes to its insert, and the texts of its row. -/
structure Inserts (c : Cluster) (db : Db) (a : EventArgs) (key created : Str) (ref : Option Str) :
    Prop where
  portable : Portable c a
  wellFormed : WellFormed db
  keyed : textParam c.env a.key = .ok (some key)
  dated : textParam c.env a.created = .ok (some created)
  referred : textParam c.env a.sourceRef = .ok ref
  fresh : findEvent db (some key) = none
  sourced : ¬ (a.type = lit "command" ∧ a.sourceRef.truthy = false)
  verdict : authorize c.env db a = .ok (.allowed (callValues a key created ref).authActor)

/-- The row of the call with a number. -/
def callRow (db : Db) (a : EventArgs) (key created : Str) (ref : Option Str) (s : SqlVal) :
    EventRow :=
  Core.eventRow db a (callValues a key created ref).authActor key s created ref

section
variable (h : Inserts c db a key created ref)
include h

theorem Inserts.core_insertEvent : Core.insertEvent c.env a db =
    finishEvent c.env a
      (commitEvent c.env db a (callValues a key created ref).authActor).1
      (commitEvent c.env db a (callValues a key created ref).authActor).2 := by
  rw [Core.insertEvent, if_neg h.sourced, writeEvent, h.keyed]
  simp only [h.fresh, h.verdict]

theorem Inserts.rowParams (v : Val) : Core.rowParams c.env a v = (do
    let s ← integerParam c.env v
    return ⟨some key, s, some created, ref⟩) :=
  h.portable.rowParams h.keyed h.dated h.referred v

/-- An authorized call is never answered that it is not. -/
theorem Inserts.core_status {e : Exn} (he : (Core.insertEvent c.env a db).2 = .error e) :
    e.status ≠ 403 := by
  rw [h.core_insertEvent] at he
  unfold commitEvent at he
  cases halloc : allocate c.env db a with
  | error e' =>
    simp only [halloc, finishEvent] at he
    cases he
    exact allocate_status h.portable.source halloc
  | ok r =>
    obtain ⟨db₁, v⟩ := r
    have hev : db₁.events = db.events := by rw [allocate_frame halloc]
    simp only [halloc, h.rowParams] at he
    cases hs : integerParam c.env v with
    | error e' =>
      simp only [hs, error_bind, finishEvent] at he
      cases he
      unfold integerParam at hs
      split at hs
      · next b _ =>
        cases hs
        cases b <;> decide
      · cases hs
    | ok s =>
      simp only [hs, ok_bind, pure, Except.pure] at he
      cases hrow : insertRow db₁ a (callValues a key created ref).authActor
          ⟨some key, s, some created, ref⟩ with
      | error e' =>
        cases e' with
        | eventId =>
          have hfresh' : findEvent db₁ (some key) = none := by
            rw [findEvent, hev]
            exact h.fresh
          exact absurd hrow (insertRow_ne_eventId hfresh')
        | other k =>
          simp only [hrow, finishEvent] at he
          cases he
          exact of_decide_eq_true rfl
      | ok q =>
        obtain ⟨db₂, row⟩ := q
        obtain ⟨_, _, -, -, -, hcols, -, -, hdb₂⟩ := insertRow_ok hrow
        simp only [hrow, finishEvent] at he
        have hid : row.id = nextId (db₁.events.map (·.id)) := by
          rw [hcols]
          rfl
        rw [getEventById_append hid] at he
        · exact rowToEvent_status he
        · subst hdb₂
          split_ifs <;> rfl

/-- A free number is stored, and its row returned. -/
theorem Inserts.core_committed {db₁ : Db} {v : Val} {s : SqlVal}
    (halloc : allocate c.env db a = .ok (db₁, v)) (hs : integerParam c.env v = .ok s)
    (hnull : s ≠ .null) (hfree : slotTaken db a.source s = false) :
    Core.insertEvent c.env a db =
      (accepted a key ref (raiseCounter
        { db₁ with events := db.events ++ [callRow db a key created ref s] } a.source s),
        rowToEvent (callRow db a key created ref s)) := by
  have hev : db₁.events = db.events := by rw [allocate_frame halloc]
  have hfresh' : findEvent db₁ (some key) = none := by
    rw [findEvent, hev]
    exact h.fresh
  have hfree' : ∀ row ∈ db₁.events, row.source = a.source → sqlEq row.seq s = false := by
    rw [hev]
    simpa [slotTaken] using hfree
  have hrow : Core.eventRow db₁ a (callValues a key created ref).authActor key s created ref =
      callRow db a key created ref s := by
    simp only [callRow, Core.eventRow, hev]
  rw [h.core_insertEvent, commitEvent, halloc]
  simp only [h.rowParams, hs, ok_bind, pure, Except.pure, insertRow_of_free hnull hfresh' hfree',
    hrow, hev, finishEvent]
  have hid : (callRow db a key created ref s).id = nextId (db.events.map (·.id)) := rfl
  rw [getEventById_append hid]
  · rfl
  · split_ifs <;> rfl

/-- A number beyond 64 bits is refused. -/
theorem Inserts.core_overflow {i : ℤ} (hseq : a.seq = .int i) (hi : ¬ (minInt ≤ i ∧ i ≤ maxInt)) :
    Core.insertEvent c.env a db = (db, .error .overflow) := by
  have hparam : integerParam c.env (.int i) = .error .overflow := by
    rw [integerParam, bind_int_overflow hi]
    rfl
  have halloc : allocate c.env db a = .ok (db, .int i) := by
    rw [allocate_given _ _ (by rw [hseq]; exact nofun), hseq]
  rw [h.core_insertEvent, commitEvent, halloc]
  simp only [h.rowParams, hparam, error_bind, finishEvent]

/-- The number of a committed row: the integer that was given, or the one that was counted. -/
theorem Inserts.core_events {row : EventRow}
    (hev : (Core.insertEvent c.env a db).1.events = db.events ++ [row]) :
    ∃ n, row.seq = .int n ∧ minInt ≤ n ∧ n ≤ maxInt ∧ (a.seq = .int n ∨ a.seq = .none) := by
  rcases insertEvent_cases c.env a db with ⟨hr, -⟩ | ⟨row', hc, -⟩
  · have hlen := congrArg List.length (hr.events.symm.trans hev)
    simp at hlen
  · rw [hc.events, List.append_cancel_left_eq, List.singleton_inj] at hev
    subst hev
    obtain ⟨db₁, v, halloc, hp, -⟩ := hc.slot
    rw [h.rowParams, bind_eq_ok] at hp
    obtain ⟨s, hs, hp⟩ := hp
    have hv : ∃ n, v = .int n ∧ (a.seq = .int n ∨ a.seq = .none) := by
      rcases h.portable.seq with hseq | ⟨i, hseq⟩
      · unfold allocate at halloc
        rw [hseq] at halloc
        simp only [bind_eq_ok, pure_eq_ok, Prod.exists, Prod.mk.injEq] at halloc
        obtain ⟨_, n, -, -, rfl⟩ := halloc
        exact ⟨n, rfl, .inr hseq⟩
      · rw [allocate_given _ _ (by rw [hseq]; exact nofun), hseq, Except.ok.injEq,
          Prod.mk.injEq] at halloc
        exact ⟨i, halloc.2.symm, .inl hseq⟩
    obtain ⟨n, rfl, hn⟩ := hv
    by_cases hi : minInt ≤ n ∧ n ≤ maxInt
    · rw [integerParam, bind_int hi] at hs
      cases hs
      rw [pure_eq_ok, RowParams.mk.injEq] at hp
      exact ⟨n, hp.2.1.symm, hi.1, hi.2, hn⟩
    · rw [integerParam, bind_int_overflow hi] at hs
      cases hs

theorem Inserts.hasEvent_eq : hasEvent db key = false := by
  have hfresh := h.fresh
  rw [findEvent_eq_none_iff] at hfresh
  exact hasEvent_eq_false.mpr hfresh

theorem Inserts.hasAccepted_eq : hasAccepted db key = false := by
  by_contra hacc
  rw [Bool.not_eq_false] at hacc
  exact absurd (h.wellFormed.accepted key hacc) (by simp [h.hasEvent_eq])

/-- A refusal of the one is no answer of the other. -/
theorem Inserts.not_equivalent {y : Db × Except Exn Event} {e : Exn} (hy : y.2 = .error e)
    (he : e.status = 403) : ¬ Equivalent (Core.insertEvent c.env a db) y := by
  rintro ⟨-, -, -, ⟨event, -, hy'⟩ | ⟨e', e'', hx, hy', hstat⟩⟩
  · rw [hy] at hy'
    cases hy'
  · rw [hy] at hy'
    cases hy'
    exact h.core_status hx (hstat.trans he)

end

theorem nextSeq_eq {source : Str} {n : ℤ} (hsource : Clean source)
    (h : nextValue env db source = .int n) :
    nextSeq env db source = .ok (bumpCounter env db source, n) := by
  have hfind : findCounter (bumpCounter env db source) source = some ⟨source, .int n⟩ := by
    rw [← h, nextValue, bumpCounter, findCounter_upsert]
    cases hold : findCounter db source with
    | none => rfl
    | some row =>
      have hsrc : row.source = source := by simpa using List.find?_some hold
      simp only [hsrc]
  rw [nextSeq, strParam_ok hsource, ok_bind]
  simp only [hfind]
  rfl

/-! ## The two numberings -/

section
variable {v : EventValues} {g : Guard} {n : ℕ} (h : Inserts c db a key created ref)
  (hg : g.holds db = true)
include h hg

/-- The number comes from the counter. -/
theorem equivalent_counted (hv : v = callValues a key created ref) (hseq : a.seq = .none) :
    Equivalent (Core.insertEvent c.env a db) (outcome (run c a (n + 4) (db, .commit
      (insertStatements v none g ++ acceptStatements a v)))) ↔ Fits c db a := by
  have hno : hasEvent db v.eventId = false := by
    rw [hv]
    exact h.hasEvent_eq
  have hexec := execAll_insert_counted (c := c) hno hg
  have hsrc : v.source = a.source := by rw [hv]; rfl
  rw [hsrc] at hexec
  generalize hnext : nextValue c.env db a.source = next at hexec
  by_cases hlands : next ≠ .null ∧ slotTaken db a.source next = false
  · -- the row lands with the value of the counter
    have hins : insertOrIgnore (bumpCounter c.env db a.source) v next =
        { bumpCounter c.env db a.source with
          events := db.events ++ [callRow db a key created ref next] } := by
      rw [insertOrIgnore, hsrc, if_neg]
      · rw [hv]
        rfl
      · rintro (hnull | hid | hslot)
        · exact hlands.1 hnull
        · exact absurd (hno.symm.trans hid) (by simp)
        · exact absurd (hlands.2.symm.trans hslot) (by simp)
    rw [hins] at hexec
    rw [raft_landed (s := next) h.portable h.keyed hv hexec h.hasAccepted_eq h.fresh rfl rfl
      (by rw [hv]; rfl)]
    refine ⟨fun heq => ?_, fun hfits => equivalent_of_eq ?_⟩
    · have hev : (Core.insertEvent c.env a db).1.events =
          db.events ++ [callRow db a key created ref next] := by
        rw [heq.1, accepted]
        split_ifs <;> rfl
      obtain ⟨i, hi, hmin, hmax, -⟩ := h.core_events hev
      have hi' : next = .int i := hi
      rw [hi'] at hlands hnext
      exact .inr ⟨i, hmin, hmax, hlands.2, .inr ⟨hseq, hnext⟩⟩
    · obtain ⟨i, hi, -⟩ | ⟨i, hmin, hmax, hslot, hi | ⟨-, hi⟩⟩ := hfits
      · exact absurd (hseq.symm.trans hi) (by simp)
      · exact absurd (hseq.symm.trans hi) (by simp)
      · rw [hnext] at hi
        subst hi
        have halloc : allocate c.env db a = .ok (bumpCounter c.env db a.source, .int i) := by
          rw [allocate, hseq]
          simp only [nextSeq_eq h.portable.source hnext]
          rfl
        rw [h.core_committed halloc (integerParam_int ⟨hmin, hmax⟩) (by simp) hslot]
        have hraise : raiseCounter { bumpCounter c.env db a.source with
            events := db.events ++ [callRow db a key created ref (.int i)] } a.source (.int i) =
            { bumpCounter c.env db a.source with
              events := db.events ++ [callRow db a key created ref (.int i)] } := by
          have hnodup : ((bumpCounter c.env db a.source).sourceCounters.map (·.source)).Nodup :=
            sources_upsert _ _ h.wellFormed.sources
          have hcount : counterValue (bumpCounter c.env db a.source) a.source = some (.int i) :=
            (counterValue_bump db a.source).trans (congrArg some hnext)
          exact upsertCounter_eq_self hnodup hcount (by rw [sqlMax_int, max_self])
        rw [hraise]
  · -- the number is taken: the row is ignored
    have hins : insertOrIgnore (bumpCounter c.env db a.source) v next =
        bumpCounter c.env db a.source := by
      rw [insertOrIgnore, hsrc, if_pos]
      by_cases hnull : next = .null
      · exact .inl hnull
      · have hslot : slotTaken db a.source next = true := by simpa [hnull] using hlands
        exact .inr (.inr hslot)
    rw [hins] at hexec
    obtain ⟨db₂, message, hraft⟩ :=
      raft_ignored (n := n) h.portable h.keyed hv hexec h.referred h.wellFormed h.fresh rfl rfl
    rw [hraft]
    refine ⟨fun heq => absurd heq (h.not_equivalent rfl rfl), fun hfits => ?_⟩
    obtain ⟨i, hi, -⟩ | ⟨i, hmin, hmax, hslot, hi | ⟨-, hi⟩⟩ := hfits
    · exact absurd (hseq.symm.trans hi) (by simp)
    · exact absurd (hseq.symm.trans hi) (by simp)
    · rw [hnext] at hi
      subst hi
      exact absurd ⟨by simp, hslot⟩ hlands

/-- The call brings its number. -/
theorem equivalent_numbered {i : ℤ} {t : SqlVal} (hv : v = callValues a key created ref)
    (hseq : a.seq = .int i) (ht : t.Numeric) (hread : ¬ Unread c (.int i))
    (hint : minInt ≤ i ∧ i ≤ maxInt → t = .int i) :
    Equivalent (Core.insertEvent c.env a db) (outcome (run c a (n + 4) (db, .commit
      (insertStatements v (some t) g ++ acceptStatements a v)))) ↔ Fits c db a := by
  have hno : hasEvent db v.eventId = false := by
    rw [hv]
    exact h.hasEvent_eq
  have hsrc : v.source = a.source := by rw [hv]; rfl
  have hexec := execAll_insert_numbered (c := c) hno hg ht
  rw [hsrc] at hexec
  by_cases hslot : slotTaken db a.source (integerColumn c.env.engine t) = true
  · -- the number is taken: the row is ignored
    rw [if_pos hslot] at hexec
    obtain ⟨db₂, message, hraft⟩ :=
      raft_ignored (n := n) h.portable h.keyed hv hexec h.referred h.wellFormed h.fresh rfl rfl
    rw [hraft]
    refine ⟨fun heq => absurd heq (h.not_equivalent rfl rfl), fun hfits => ?_⟩
    rcases hfits with hu | ⟨n, hmin, hmax, hfree, hn | ⟨hn, -⟩⟩
    · exact absurd (hseq ▸ hu) hread
    · cases hseq.symm.trans hn
      rw [hint ⟨hmin, hmax⟩] at hslot
      exact absurd (hfree.symm.trans hslot) nofun
    · exact absurd (hseq.symm.trans hn) nofun
  · rw [if_neg hslot] at hexec
    have hrow : eventRow db v (integerColumn c.env.engine t) =
        callRow db a key created ref (integerColumn c.env.engine t) := by rw [hv]; rfl
    rw [hrow] at hexec
    rw [raft_landed (s := integerColumn c.env.engine t) h.portable h.keyed hv hexec
      h.hasAccepted_eq h.fresh rfl rfl (by rw [hv]; rfl)]
    by_cases hi : minInt ≤ i ∧ i ≤ maxInt
    · have ht' := hint hi
      subst ht'
      have hfree : slotTaken db a.source (.int i) = false := Bool.eq_false_iff.mpr hslot
      have halloc : allocate c.env db a = .ok (db, .int i) := by
        rw [allocate_given _ _ (by rw [hseq]; exact nofun), hseq]
      refine ⟨fun _ => .inr ⟨i, hi.1, hi.2, hfree, .inl hseq⟩, fun _ => equivalent_of_eq ?_⟩
      rw [h.core_committed halloc (integerParam_int hi) nofun hfree]
      rfl
    · -- the row lands with a double, which the SQLite store refuses
      refine ⟨fun heq => ?_, fun hfits => ?_⟩
      · have hlen := congrArg List.length heq.1
        rw [h.core_overflow hseq hi, accepted] at hlen
        split_ifs at hlen <;> simp [raiseCounter, upsertCounter, auditRow] at hlen
      · rcases hfits with hu | ⟨n, hmin, hmax, hfree, hn | ⟨hn, -⟩⟩
        · exact absurd (hseq ▸ hu) hread
        · cases hseq.symm.trans hn
          exact absurd ⟨hmin, hmax⟩ hi
        · exact absurd (hseq.symm.trans hn) nofun

end

/-- The two backends leave the same contents and give the same answer exactly when the number of
the call fits both. -/
theorem backends_agree_iff (c : Cluster) (db : Db) (a : EventArgs) (hw : WellFormed db)
    (ha : Portable c a) :
    Equivalent (Core.insertEvent c.env a db) (insertEvent c a db) ↔ Agrees c db a := by
  by_cases hs : Sends c db a
  swap
  · exact ⟨fun _ h => absurd h hs, fun _ => equivalent_of_unsent hw ha hs⟩
  obtain ⟨key, hkey, -⟩ := ha.key
  obtain ⟨created, hcr, -⟩ := ha.created
  obtain ⟨ref, href, -⟩ := ha.sourceRef
  have hfresh := hs.fresh _ hkey
  have hsourced : ¬ (a.type = lit "command" ∧ a.sourceRef.truthy = false) := fun ⟨hty, hno⟩ =>
    absurd ((hs.command hty).1.symm.trans hno) nofun
  obtain ⟨g, n, hg, hraft⟩ := hs.insertEvent ha hw hkey hcr href
  rw [hraft]
  by_cases hauth : Authorized c.env db a
  · have hagrees : Agrees c db a ↔ Fits c db a :=
      ⟨fun h => (h hs).elim And.right fun hn => absurd hauth hn.1, fun h _ => .inl ⟨hauth, h⟩⟩
    obtain ⟨actor, hactor⟩ := hauth
    have hi : Inserts c db a key created ref := ⟨ha, hw, hkey, hcr, href, hfresh, hsourced, by
      rw [hactor, authorize_actor hw ha hactor]⟩
    have hg' := hg.mpr ⟨actor, hactor⟩
    rw [hagrees]
    rcases ha.seq with hseq | ⟨i, hseq⟩
    · rw [hseq]
      exact equivalent_counted hi hg' rfl hseq
    · rw [hseq]
      rcases seqParam_int c i with ⟨hu, e, he, hstat⟩ | ⟨t, ht, hnum, hread, hint⟩
      · obtain ⟨_, hi', hout, -⟩ := id hu
        cases hi'
        simp only [he]
        exact ⟨fun _ => .inl (hseq ▸ hu), fun _ =>
          equivalent_of_error (hi.core_overflow hseq hout) rfl hstat.symm⟩
      · simp only [ht]
        exact equivalent_numbered hi hg' rfl hseq hnum hread hint
  · have hg' : Guard.holds db g = false := Bool.eq_false_iff.mpr fun h => hauth (hg.mp h)
    obtain ⟨valid, hv⟩ := ha.validateToken hw
    obtain ⟨message, hcore⟩ := core_denied ha hkey href hv hfresh hsourced hauth
    have hagrees : Agrees c db a ↔ ¬ Unread c a.seq :=
      ⟨fun h => (h hs).elim (fun hy => absurd hy.1 hauth) And.right, fun h _ => .inr ⟨hauth, h⟩⟩
    rw [hagrees]
    have hsent : ∀ seq, Equivalent (Core.insertEvent c.env a db)
        (outcome (run c a (n + 4) (db, .commit
          (insertStatements (callValues a key created ref) seq g ++
            acceptStatements a (callValues a key created ref))))) := fun seq => by
      obtain ⟨message', hdenied⟩ := raft_denied ha hkey href hv rfl hfresh hg'
      exact equivalent_of_error hcore hdenied rfl
    rcases ha.seq with hseq | ⟨i, hseq⟩
    · rw [hseq]
      exact ⟨fun _ ⟨_, hi, _⟩ => absurd hi nofun, fun _ => hsent none⟩
    · rw [hseq]
      rcases seqParam_int c i with ⟨hu, e, he, hstat⟩ | ⟨t, ht, -, hread, -⟩
      · -- the one refuses the call, the other its number
        simp only [he]
        refine ⟨fun heq => ?_, fun hn => absurd hu hn⟩
        obtain ⟨-, -, -, ⟨event, hx, -⟩ | ⟨e₁, e₂, hx, hy, hst⟩⟩ := heq
        · rw [hcore] at hx
          cases hx
        · rw [hcore] at hx
          cases hx
          cases hy
          exact absurd (hst.trans hstat) (by simp [Exn.status])
      · simp only [ht]
        exact ⟨fun _ => hread, fun _ => hsent (some t)⟩

/-! ## The second message of a source -/

/-- A message from `alice` to `bob`. -/
def aliceSays (eventId : Str) (seq : Val) : EventArgs where
  source := lit "alice"
  target := lit "bob"
  type := lit "message"
  payload := []
  seq := seq
  eventId := .str eventId
  createdAt := .none
  requiresAck := .bool true
  sourceRef := .none
  token := .none
  now := lit "2026-10-01T12:00:00Z"
  newId := []

/-- The ledger after a first message of `alice`, which the server numbered. -/
def oneEvent : Db := (Core.insertEvent plainEnv (aliceSays (lit "e1") .none) {}).1

/-- With the number 7 the second message is stored alike. -/
theorem backends_agree_seven :
    Equivalent (Core.insertEvent plainEnv (aliceSays (lit "e2") (.int 7)) oneEvent)
      (insertEvent plainCluster (aliceSays (lit "e2") (.int 7)) oneEvent) := by
  refine (backends_agree_iff plainCluster oneEvent (aliceSays (lit "e2") (.int 7)) ?_ ?_).mpr
    fun _ => .inl ⟨⟨none, rfl⟩, .inr ⟨7, by decide, by decide, by decide, .inl rfl⟩⟩
  · exact ⟨by decide, nofun, nofun, nofun⟩
  · exact ⟨.inr ⟨7, rfl⟩, ⟨_, rfl, rfl⟩, ⟨_, rfl, rfl⟩, ⟨_, rfl, rfl⟩, .inl rfl, by decide,
      by decide, by decide, by decide, by decide⟩

/-- The number 1 is taken: one backend answers with a 500, the other with a 403. -/
theorem taken_number_differs :
    (∃ k, (Core.insertEvent plainEnv (aliceSays (lit "e2") (.int 1)) oneEvent).2 =
        .error (.integrity k)) ∧
      (∃ m, (insertEvent plainCluster (aliceSays (lit "e2") (.int 1)) oneEvent).2 =
        .error (.permission m)) ∧
      ¬ Equivalent (Core.insertEvent plainEnv (aliceSays (lit "e2") (.int 1)) oneEvent)
        (insertEvent plainCluster (aliceSays (lit "e2") (.int 1)) oneEvent) := by
  refine ⟨⟨_, rfl⟩, ⟨_, rfl⟩, ?_⟩
  rintro ⟨-, -, -, ⟨event, h, -⟩ | ⟨e, e', h, h', hstat⟩⟩
  · cases h
  · cases h
    cases h'
    exact absurd hstat (by decide)

end Raft
end ATalk
