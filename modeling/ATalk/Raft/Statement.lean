import ATalk.Core.Store

/-!
# The statements of the rqlite store

A request to rqlite is a list of SQL statements with their parameters, run as one transaction.
A statement is data, so that the same list can be sent again; `exec` is what SQLite makes of it.

* `Stmt`, `exec` : the statements `RaftSQLStore` sends, a constructor for each text;
* `transaction` : all of a list, or the ledger as it was.
-/

namespace ATalk
namespace Raft

open Text Python Sqlite ATalk.Core

/-- What the model leaves open of a cluster besides the host: the double rqlite reads for an
integer beyond 64 bits (`none`: it refuses the request), the text it stores for a parameter that
is no string, and whether foreign keys are enforced. -/
structure Cluster where
  env : Env
  bigInt : ℤ → Option Flt
  bigInt_ne_nan : ∀ i, bigInt i ≠ some .nan
  jsonText : Val → Option Str
  foreignKeys : Bool

/-- Where an integer beyond 64 bits is refused, none is read as a NaN. -/
theorem none_ne_nan : (none : Option Flt) ≠ some .nan := by simp

/-- The condition of an INSERT ... SELECT: the target ACL of a message, or the token and the grant
of a command. -/
inductive Guard where
  | acl (source target : Str)
  | command (source tokenDigest : Str) (now : Time) (grantId : ℕ) (target : Str) (scope : Dict)
      (operation : Str)

/-- `revoked_at IS NULL AND (grace_until IS NULL OR grace_until>=?)` -/
def tokenActive (row : TokenRow) (now : Time) : Bool :=
  row.revokedAt = none &&
    match row.graceUntil with
    | none => true
    | some t => now ≤ t

def Guard.holds (db : Db) : Guard → Bool
  | .acl source target =>
    !restricted db source || (target ≠ lit "*" && listed db source target)
  | .command source tokenDigest now grantId target scope operation =>
    (db.peerTokens.any fun row =>
      row.peerId = source && row.tokenHash = tokenDigest && tokenActive row now) &&
    db.peerGrants.any fun row =>
      row.id = grantId && sameDict row.scope scope && GrantRow.live row now source target operation

/-- The values of an event row besides its sequence number. -/
structure EventValues where
  eventId : Str
  source : Str
  target : Str
  type : Str
  createdAt : Time
  storedAt : Time
  payload : Dict
  requiresAck : Bool
  sourceRef : Option Str
  authActor : Option Str

/-- The values of an audit row. -/
structure AuditValues where
  ts : Time
  actor : Str
  action : Str
  sourceRef : Option Str
  target : Str
  eventId : Option Str
  result : Str
  detail : Dict

inductive Stmt where
  /-- `INSERT INTO peers ... ON CONFLICT(peer_id) DO UPDATE` -/
  | upsertPeer (peerId digest : Str) (role platform endpoint : Option Str) (deliveryClass : Str)
      (ackTimeoutSec : ℤ) (now : Time)
  /-- `INSERT [OR IGNORE] INTO peer_tokens` -/
  | insertToken (orIgnore : Bool) (peerId digest tokenId deviceLabel scope : Str) (now : Time)
  /-- `UPDATE peer_tokens SET revoked_at = ? WHERE peer_id = ? AND token_hash <> ?` -/
  | revokeOthers (now : Time) (peerId digest : Str)
  /-- `UPDATE peer_tokens SET grace_until = ?` -/
  | graceTokens (graceUntil : Time) (peerId : Str) (now : Time)
  /-- `UPDATE peers SET token_hash = ?` -/
  | setPeerToken (digest peerId : Str)
  | insertGrant (grantor grantee commandType : Str) (scope : Dict) (now : Time)
      (validUntil : Option Time)
  | revokeGrant (now : Time) (grantId : ℕ)
  | revokeToken (now : Time) (tokenId : Str)
  | insertAudit (values : AuditValues)
  /-- `INSERT INTO peer_target_acl ... ON CONFLICT(peer_id) DO UPDATE` -/
  | upsertAcl (peerId : Str) (now : Time)
  | deleteAclTargets (peerId : Str)
  | insertAclTarget (peerId target : Str) (now : Time)
  | deleteAcl (peerId : Str)
  /-- `INSERT INTO acks ... ON CONFLICT DO UPDATE` -/
  | upsertAck (eventId agentId : Str) (ackType : AckType) (now : Time) (detail : Val)
  /-- `INSERT INTO source_counters ... SELECT ?,1 WHERE NOT EXISTS(event) AND guard` -/
  | bumpCounter (source eventId : Str) (guard : Guard)
  /-- `INSERT OR IGNORE INTO events ... SELECT .. last_seq .. FROM source_counters WHERE guard` -/
  | insertCounted (values : EventValues) (guard : Guard)
  /-- `INSERT OR IGNORE INTO events ... SELECT .. ? .. WHERE guard` -/
  | insertNumbered (values : EventValues) (seq : SqlVal) (guard : Guard)
  /-- `INSERT INTO source_counters ... WHERE EXISTS(event) ON CONFLICT DO UPDATE SET max` -/
  | raiseCounter (source : Str) (seq : SqlVal) (eventId : Str)
  /-- `INSERT INTO audit_log ... WHERE EXISTS(event) AND NOT EXISTS(command_accept)` -/
  | acceptCommand (values : AuditValues) (eventId source target : Str)

/-! ## Rows -/

def hasPeer (db : Db) (peerId : Str) : Bool := db.peers.any (·.peerId = peerId)

/-- A foreign key to `peers`. -/
def peerKey (c : Cluster) (db : Db) (peerId : Str) : Bool := !c.foreignKeys || hasPeer db peerId

/-- The labels of tokens that belong to the peer itself and to no device. -/
def ownLabel (label : Option Str) : Bool :=
  match label with
  | none => true
  | some l => l ∈ [lit "legacy", lit "primary", lit "rotation"]

/-- `DO UPDATE SET`: the columns of a peer that is added again. -/
def provision (digest : Str) (role platform endpoint : Option Str) (deliveryClass : Str)
    (ackTimeoutSec : ℤ) (row : PeerRow) : PeerRow :=
  { row with
    tokenHash := some digest, role := role, platform := platform, endpoint := endpoint,
    deliveryClass := deliveryClass, ackTimeoutSec := ackTimeoutSec, revokedAt := none }

def upsertPeer (db : Db) (peerId digest : Str) (role platform endpoint : Option Str)
    (deliveryClass : Str) (ackTimeoutSec : ℤ) (now : Time) : Db :=
  { db with
    peers :=
      if hasPeer db peerId then
        db.peers.map fun row =>
          if row.peerId = peerId then
            provision digest role platform endpoint deliveryClass ackTimeoutSec row
          else row
      else db.peers ++ [⟨peerId, some digest, role, platform, endpoint, deliveryClass,
        ackTimeoutSec, now, none⟩] }

def tokenRow (db : Db) (peerId digest tokenId deviceLabel scope : Str) (now : Time) : TokenRow :=
  ⟨nextId (db.peerTokens.map (·.id)), peerId, digest, some tokenId, some deviceLabel, scope, now,
    none, none⟩

/-- A unique key of `peer_tokens` is taken. -/
def tokenTaken (db : Db) (digest tokenId : Str) : Bool :=
  db.peerTokens.any fun row => row.tokenHash = digest || row.tokenId = some tokenId

/-- A live token of the peer itself with another digest. -/
def isOther (peerId digest : Str) (row : TokenRow) : Bool :=
  row.peerId = peerId && row.tokenHash ≠ digest && row.revokedAt = none && ownLabel row.deviceLabel

def grantRow (db : Db) (grantor grantee commandType : Str) (scope : Dict) (now : Time)
    (validUntil : Option Time) : GrantRow :=
  ⟨nextId (db.peerGrants.map (·.id)), grantor, grantee, commandType, scope, now, validUntil, none⟩

def insertAudit (db : Db) (v : AuditValues) : Db :=
  auditRow db v.ts (some v.actor) v.action v.sourceRef (some v.target) v.eventId v.result v.detail

def upsertAcl (db : Db) (peerId : Str) (now : Time) : Db :=
  { db with peerTargetAcl :=
      if restricted db peerId then
        db.peerTargetAcl.map fun row =>
          if row.peerId = peerId then { row with updatedAt := now } else row
      else db.peerTargetAcl ++ [⟨peerId, now, now⟩] }

def hasEvent (db : Db) (eventId : Str) : Bool := db.events.any (·.eventId = eventId)

/-- The sequence number of a source is taken. -/
def slotTaken (db : Db) (source : Str) (seq : SqlVal) : Bool :=
  db.events.any fun row => row.source = source && sqlEq row.seq seq

def eventRow (db : Db) (v : EventValues) (seq : SqlVal) : EventRow where
  id := nextId (db.events.map (·.id))
  eventId := v.eventId
  source := v.source
  target := v.target
  type := v.type
  seq := seq
  createdAt := v.createdAt
  storedAt := v.storedAt
  payload := v.payload
  requiresAck := v.requiresAck
  sourceRef := v.sourceRef
  authActor := v.authActor

/-- `INSERT OR IGNORE`: a row that violates a key is left out. -/
def insertOrIgnore (db : Db) (v : EventValues) (seq : SqlVal) : Db :=
  if seq = .null ∨ hasEvent db v.eventId = true ∨ slotTaken db v.source seq = true then db
  else { db with events := db.events ++ [eventRow db v seq] }

/-- `SELECT last_seq FROM source_counters WHERE source=?` -/
def counterValue (db : Db) (source : Str) : Option SqlVal := (findCounter db source).map (·.lastSeq)

def hasAccepted (db : Db) (eventId : Str) : Bool :=
  db.auditLog.any fun row => row.eventId = some eventId && row.action = lit "command_accept"

/-- The row of a command that its source was authorized to send. -/
def isCommand (eventId source target : Str) (row : EventRow) : Bool :=
  row.eventId = eventId && row.source = source && row.target = target &&
    row.type = lit "command" && row.authActor = some source

/-! ## Execution -/

/-- A violated constraint. -/
structure SqlError where
  constraint : String
deriving DecidableEq, Repr

/-- What a statement leaves: the ledger, and the id of a row it inserted. -/
abbrev Executed := Except SqlError (Db × Option ℕ)

def done (db : Db) : Executed := .ok (db, none)

def exec (c : Cluster) (db : Db) : Stmt → Executed
  | .upsertPeer peerId digest role platform endpoint deliveryClass ackTimeoutSec now =>
    done (upsertPeer db peerId digest role platform endpoint deliveryClass ackTimeoutSec now)
  | .insertToken orIgnore peerId digest tokenId deviceLabel scope now =>
    if tokenTaken db digest tokenId then
      if orIgnore then done db else .error ⟨"UNIQUE constraint failed: peer_tokens"⟩
    else if peerKey c db peerId = false then .error ⟨"FOREIGN KEY constraint failed"⟩
    else
      let row := tokenRow db peerId digest tokenId deviceLabel scope now
      .ok ({ db with peerTokens := db.peerTokens ++ [row] }, some row.id)
  | .revokeOthers now peerId digest =>
    done { db with
      peerTokens := db.peerTokens.map fun row =>
        if isOther peerId digest row then { row with revokedAt := some now } else row }
  | .graceTokens graceUntil peerId now =>
    done { db with
      peerTokens := db.peerTokens.map fun row =>
        if row.peerId = peerId ∧ ownLabel row.deviceLabel = true ∧ tokenActive row now = true then
          { row with graceUntil := some graceUntil }
        else row }
  | .setPeerToken digest peerId =>
    done { db with peers := db.peers.map fun row =>
      if row.peerId = peerId then { row with tokenHash := some digest } else row }
  | .insertGrant grantor grantee commandType scope now validUntil =>
    if peerKey c db grantor = false ∨ peerKey c db grantee = false then
      .error ⟨"FOREIGN KEY constraint failed"⟩
    else
      let row := grantRow db grantor grantee commandType scope now validUntil
      .ok ({ db with peerGrants := db.peerGrants ++ [row] }, some row.id)
  | .revokeGrant now grantId =>
    done { db with peerGrants := db.peerGrants.map fun row =>
      if row.id = grantId then { row with revokedAt := some now } else row }
  | .revokeToken now tokenId =>
    done { db with peerTokens := db.peerTokens.map fun row =>
      if row.tokenId = some tokenId then { row with revokedAt := some now } else row }
  | .insertAudit values => done (insertAudit db values)
  | .upsertAcl peerId now =>
    if peerKey c db peerId = false then .error ⟨"FOREIGN KEY constraint failed"⟩
    else done (upsertAcl db peerId now)
  | .deleteAclTargets peerId =>
    done { db with peerTargetAclTargets := db.peerTargetAclTargets.filter (·.peerId ≠ peerId) }
  | .insertAclTarget peerId target now =>
    if listed db peerId target then .error ⟨"UNIQUE constraint failed: peer_target_acl_targets"⟩
    else if peerKey c db target = false then .error ⟨"FOREIGN KEY constraint failed"⟩
    else done { db with peerTargetAclTargets := db.peerTargetAclTargets ++ [⟨peerId, target, now⟩] }
  | .deleteAcl peerId =>
    done { db with peerTargetAcl := db.peerTargetAcl.filter (·.peerId ≠ peerId) }
  | .upsertAck eventId agentId ackType now detail =>
    if c.foreignKeys = true ∧ hasEvent db eventId = false then
      .error ⟨"FOREIGN KEY constraint failed"⟩
    else done (upsertAck db eventId agentId ackType now detail)
  | .bumpCounter source eventId guard =>
    if hasEvent db eventId = false ∧ guard.holds db = true then
      done (Core.bumpCounter c.env db source)
    else done db
  | .insertCounted values guard =>
    match counterValue db values.source with
    | some seq => done (if guard.holds db then insertOrIgnore db values seq else db)
    | none => done db
  | .insertNumbered values seq guard =>
    done (if guard.holds db then
      insertOrIgnore db values (integerColumn c.env.engine seq) else db)
  | .raiseCounter source seq eventId =>
    if db.events.any fun row =>
        row.eventId = eventId && row.source = source && sqlEq row.seq seq then
      done (Core.raiseCounter db source (integerColumn c.env.engine seq))
    else done db
  | .acceptCommand values eventId source target =>
    if db.events.any (isCommand eventId source target) = true ∧
        hasAccepted db eventId = false then
      done (insertAudit db values)
    else done db

/-- The statements one after the other. -/
def execAll (c : Cluster) : Db → List Stmt → Except SqlError (Db × List (Option ℕ))
  | db, [] => .ok (db, [])
  | db, s :: ss =>
    match exec c db s with
    | .error e => .error e
    | .ok (db', id) =>
      match execAll c db' ss with
      | .error e => .error e
      | .ok (db'', ids) => .ok (db'', id :: ids)

/-- `/db/request?transaction`: a failed statement undoes the ones before it. -/
def transaction (c : Cluster) (db : Db) (stmts : List Stmt) :
    Db × Except SqlError (List (Option ℕ)) :=
  match execAll c db stmts with
  | .error e => (db, .error e)
  | .ok (db', ids) => (db', .ok ids)

end Raft
end ATalk
