import ATalk.Raft.Statement

/-!
# The rqlite store

`RaftSQLStore` on the ledger. An operation is a sequence of requests to the cluster, and other
callers may be served between two of them; `insert_event` is a small machine whose steps are its
requests. The statement lists of all mutating operations stand here, under their names.

* `Phase`, `step` : `insert_event` and `_insert_command`, a request at a time;
* `insertEvent` : the whole call when nobody else writes;
* `addPeer` and the others : the lists of the remaining operations.
-/

namespace ATalk
namespace Raft

open Text Python Sqlite ATalk.Core Checks

/-! ## Parameters -/

/-- `int(x)` -/
def pyInt : Val → Except Exn ℤ
  | .none => .error .typeError
  | .bool b => .ok (if b then 1 else 0)
  | .int i => .ok i
  | .float f =>
    match f with
    | .nan => .error (.value (lit "cannot convert float NaN to integer"))
    | f =>
      match f.value with
      | some q => .ok (q.num.tdiv q.den)
      | none => .error .overflow
  | .str s =>
    match intOfStr s with
    | some i => .ok i
    | none => .error (.value (lit "invalid literal for int() with base 10"))
  | .list _ => .error .typeError
  | .dict _ => .error .typeError

/-- An integer parameter. -/
def intParam (c : Cluster) (i : ℤ) : Except Exn SqlVal :=
  if minInt ≤ i ∧ i ≤ maxInt then .ok (.int i)
  else
    match c.bigInt i with
    | some f => .ok (.real f)
    | none => .error (.runtime "parameter out of range")

/-- A parameter of a TEXT column. -/
def jsonParam (c : Cluster) : Val → Except Exn (Option Str)
  | .none => .ok none
  | .str s => .ok (some s)
  | v =>
    match c.jsonText v with
    | some s => .ok (some s)
    | none => .error (.runtime "unsupported parameter type")

/-- A parameter of a TEXT column that is no NULL. -/
def keyParam (c : Cluster) (v : Val) : Except Exn Str := do
  match ← jsonParam c v with
  | some s => return s
  | none => .error (.runtime "NOT NULL constraint failed")

/-! ## Reads -/

def eventOrNone (c : Cluster) (db : Db) (eventId : Val) : Except Exn (Option Event) := do
  match findEvent db (← jsonParam c eventId) with
  | none => return none
  | some row => return some (← rowToEvent row)

/-- `token_scope` -/
def tokenScope (c : Cluster) (db : Db) (now : Time) (peerId : Str) (token : Val) :
    Except Exn (Option Str) :=
  if token.truthy = false then .ok none
  else scopeOf c.env now token (db.peerTokens.filter (·.peerId = peerId))

def validateToken (c : Cluster) (db : Db) (now : Time) (peerId : Str) (token : Val) :
    Except Exn Bool :=
  if token.truthy = false then .ok false
  else do
    return (← scopeOf c.env now token (db.peerTokens.filter (·.peerId = peerId))).isSome

def matchingGrant (c : Cluster) (db : Db) (now : Time) (source target : Str) (payload : Dict) :
    Option GrantRow :=
  let operation := commandType c.env payload
  if operation = [] then none
  else db.peerGrants.find? fun row =>
    GrantRow.live row now source target operation && scopeMatches row.scope payload

/-! ## Statement lists -/

/-- The counter and the row of an event. -/
def insertStatements (v : EventValues) (seq : Option SqlVal) (guard : Guard) : List Stmt :=
  match seq with
  | none => [.bumpCounter v.source v.eventId guard, .insertCounted v guard]
  | some s => [.insertNumbered v s guard, .raiseCounter v.source s v.eventId]

/-- `insert_event` for a message. -/
def messageStatements (v : EventValues) (seq : Option SqlVal) : List Stmt :=
  insertStatements v seq (.acl v.source v.target)

def acceptValues (v : EventValues) (now : Time) : AuditValues :=
  ⟨now, v.source, lit "command_accept", v.sourceRef, v.target, some v.eventId, lit "accepted", []⟩

/-- `_insert_command` -/
def commandStatements (v : EventValues) (seq : Option SqlVal) (guard : Guard) (now : Time) :
    List Stmt :=
  insertStatements v seq guard ++ [.acceptCommand (acceptValues v now) v.eventId v.source v.target]

def addPeer (peerId digest tokenId : Str) (role platform endpoint : Option Str)
    (deliveryClass : Str) (ackTimeoutSec : ℤ) (now : Time) : List Stmt :=
  [.upsertPeer peerId digest role platform endpoint deliveryClass ackTimeoutSec now,
    .insertToken true peerId digest tokenId (lit "primary") (lit "full") now,
    .revokeOthers now peerId digest]

def rotatePeerToken (peerId digest tokenId : Str) (graceUntil now : Time) : List Stmt :=
  [.graceTokens graceUntil peerId now,
    .insertToken false peerId digest tokenId (lit "rotation") (lit "full") now,
    .setPeerToken digest peerId]

def addGrant (grantor grantee commandType : Str) (scope : Dict) (now : Time)
    (validUntil : Option Time) : List Stmt :=
  [.insertGrant grantor grantee commandType scope now validUntil]

def revokeGrant (now : Time) (grantId : ℕ) : List Stmt := [.revokeGrant now grantId]

/-- The audit row of a device token. -/
def deviceAudit (actor action peerId result tokenId : Str) (deviceLabel : Val) (scope : Str)
    (now : Time) : AuditValues :=
  ⟨now, actor, action, none, peerId, none, result,
    [(lit "token_id", .str tokenId), (lit "device_label", deviceLabel), (lit "scope", .str scope)]⟩

def addDeviceToken (peerId digest tokenId deviceLabel scope actor : Str) (now : Time) : List Stmt :=
  [.insertToken false peerId digest tokenId deviceLabel scope now,
    .insertAudit (deviceAudit actor (lit "device_token_add") peerId (lit "accepted") tokenId
      (.str deviceLabel) scope now)]

def labelVal : Option Str → Val
  | some label => .str label
  | none => .none

/-- The row read before decides whether there is anything to revoke. -/
def revokeDeviceToken (row : TokenRow) (tokenId actor : Str) (now : Time) : List Stmt :=
  let revoked := row.revokedAt.getD [] ≠ []
  (if revoked then [] else [.revokeToken now tokenId]) ++
    [.insertAudit (deviceAudit actor (lit "device_token_revoke") row.peerId
      (if revoked then lit "already_revoked" else lit "accepted") tokenId
      (labelVal row.deviceLabel) row.scope now)]

/-- `list(dict.fromkeys(targets))` keeps the first of equal targets. -/
def distinct : List Str → List Str
  | [] => []
  | t :: ts => t :: (distinct ts).filter (· ≠ t)

def setTargetAcl (peerId : Str) (targets : List Str) (now : Time) : List Stmt :=
  .upsertAcl peerId now :: .deleteAclTargets peerId ::
    (distinct targets).map fun target => .insertAclTarget peerId target now

def clearTargetAcl (peerId : Str) : List Stmt := [.deleteAclTargets peerId, .deleteAcl peerId]

def ack (eventId agentId : Str) (ackType : AckType) (now : Time) (detail : Val) : List Stmt :=
  [.upsertAck eventId agentId ackType now detail]

def audit (values : AuditValues) : List Stmt := [.insertAudit values]

/-! ## `insert_event` -/

def eventValues (c : Cluster) (a : EventArgs) (now : Time) (authActor : Option Str) :
    Except Exn EventValues := do
  let key ← keyParam c a.key
  let created ← keyParam c a.created
  let ref ← jsonParam c a.sourceRef
  return ⟨key, a.source, a.target, a.type, created, now, a.payload, a.requiresAck.truthy, ref,
    authActor⟩

/-- `seq`, or the counter. -/
def seqParam (c : Cluster) : Val → Except Exn (Option SqlVal)
  | .none => .ok none
  | v => do return some (← intParam c (← pyInt v))

def messageRequest (c : Cluster) (a : EventArgs) (now : Time) : Except Exn (List Stmt) := do
  let v ← eventValues c a now none
  return messageStatements v (← seqParam c a.seq)

def commandRequest (c : Cluster) (a : EventArgs) (now : Time) (grant : GrantRow) :
    Except Exn (List Stmt) := do
  let digest ← tokenDigest c.env a.token
  let v ← eventValues c a now (some a.source)
  let guard := Guard.command a.source digest now grant.id a.target grant.scope
    (commandType c.env a.payload)
  return commandStatements v (← seqParam c a.seq) guard now

/-- What a call is about to do: a request, or return. -/
inductive Phase where
  | probe
  | grants
  | commit (stmts : List Stmt)
  | readBack
  | refuse (late : Bool)
  | audit (result message : String)
  | done (result : Except Exn Event)

def Phase.ofExcept (f : α → Phase) : Except Exn α → Phase
  | .error e => .done (.error e)
  | .ok x => f x

def start (a : EventArgs) : Phase :=
  if a.type = lit "command" ∧ a.sourceRef.truthy = false then
    .audit "missing_source_ref" "command requires source_ref"
  else .probe

/-- After the probe: the event of the id, if it is the caller's, or the next request. -/
def afterProbe (c : Cluster) (a : EventArgs) (now : Time) : Option Event → Phase
  | some event => .done (verifyEventIdentity event a.source a.target a.type)
  | none =>
    if a.type = lit "command" then .grants
    else Phase.ofExcept .commit (messageRequest c a now)

def afterGrants (c : Cluster) (a : EventArgs) (now : Time) : Option GrantRow → Phase
  | none => .refuse false
  | some grant =>
    if a.token.truthy = false then .refuse false
    else Phase.ofExcept .commit (commandRequest c a now grant)

def afterReadBack (a : EventArgs) : Option Event → Phase
  | some event => .done (verifyEventIdentity event a.source a.target a.type)
  | none =>
    if a.type = lit "command" then .refuse true
    else .done (.error (.permission (lit "target not allowed")))

/-- The reason of a refused command. -/
def refusal (late valid : Bool) : Phase :=
  match valid, late with
  | true, true => .audit "grant_denied" "command authorization changed before commit"
  | false, true => .audit "invalid_token" "command authorization changed before commit"
  | true, false => .audit "grant_denied" "command grant rejected"
  | false, false => .audit "invalid_token" "command token rejected"

def rejectValues (c : Cluster) (a : EventArgs) (now : Time) (result : String) :
    Except Exn AuditValues := do
  let ref ← jsonParam c a.sourceRef
  let key ← jsonParam c a.key
  return ⟨now, a.source, lit "command_reject", ref, a.target, key, lit result, []⟩

/-- One request of the call, at the time it is made. -/
def step (c : Cluster) (a : EventArgs) (now : Time) (db : Db) : Phase → Db × Phase
  | .probe => (db, Phase.ofExcept (afterProbe c a now) (eventOrNone c db a.key))
  | .grants => (db, afterGrants c a now (matchingGrant c db now a.source a.target a.payload))
  | .commit stmts =>
    match transaction c db stmts with
    | (db', .error e) => (db', .done (.error (.runtime e.constraint)))
    | (db', .ok _) => (db', .readBack)
  | .readBack => (db, Phase.ofExcept (afterReadBack a) (eventOrNone c db a.key))
  | .refuse late =>
    (db, Phase.ofExcept (refusal late) (validateToken c db now a.source a.token))
  | .audit result message =>
    match rejectValues c a now result with
    | .error e => (db, .done (.error e))
    | .ok values =>
      match transaction c db (audit values) with
      | (db', .error e) => (db', .done (.error (.runtime e.constraint)))
      | (db', .ok _) => (db', .done (.error (.permission (lit message))))
  | .done result => (db, .done result)

/-- The requests of a call one after the other, nobody else writing. -/
def run (c : Cluster) (a : EventArgs) : ℕ → Db × Phase → Db × Phase
  | 0, s => s
  | n + 1, s => run c a n (step c a a.now s.1 s.2)

/-- `insert_event`; a call makes six requests at most. -/
def insertEvent (c : Cluster) (a : EventArgs) (db : Db) : Db × Except Exn Event :=
  match run c a 6 (db, start a) with
  | (db', .done result) => (db', result)
  | (db', _) => (db', .error (.runtime "unfinished"))

/-! ## A cluster -/

/-- A cluster that takes texts and integers of 64 bits. -/
def plainCluster : Cluster where
  env := plainEnv
  bigInt _ := none
  bigInt_ne_nan _ := none_ne_nan
  jsonText _ := none
  foreignKeys := false

end Raft
end ATalk
