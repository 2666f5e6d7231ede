import ATalk.Lib.Calendar
import ATalk.Lib.Callers
import ATalk.Raft.Store

/-!
# Administration on SQLite

`add_peer`, `rotate_peer_token`, the device tokens and the target lists of `AtalkStore`. The
connection commits every statement by itself, `with self.conn` around several of them too; only a
BEGIN IMMEDIATE makes one of more. A call reads what it needs, then commits its parts in turn, each
at a time of its own, and may die between two of them.

* `Call`, `Drawn`, `plan` : the calls, and the parts they commit;
* `adminCalls` : a call as a machine on a host with a clock, `alone` : one that nobody interrupts;
* `restart` : the start-up migrations of the tokens;
* `Other` : what else happens to the host.
-/

namespace ATalk
namespace Admin

open Text Python Sqlite ATalk.Core Checks Callers Calendar
open Raft (Stmt)

/-- SQLite, with `PRAGMA foreign_keys=ON`: it runs the same statements as the rqlite store. -/
def sqlite (env : Env) : Raft.Cluster where
  env := env
  bigInt _ := none
  bigInt_ne_nan _ := Raft.none_ne_nan
  jsonText _ := none
  foreignKeys := true

/-! ## The calls -/

inductive Call where
  | addPeer (peerId : Str) (token role platform endpoint : Option Str) (deliveryClass : Str)
      (ackTimeoutSec : ℤ)
  | rotatePeerToken (peerId : Str) (token : Option Str) (graceSeconds : ℤ)
  | addDeviceToken (peerId deviceLabel : Str) (token : Option Str) (scope actor : Str)
  | revokeDeviceToken (tokenId actor : Str)
  | setTargetAcl (peerId : Str) (allowedTargets : List Str)
  | clearTargetAcl (peerId : Str)

/-- What a call draws: `secrets.token_urlsafe(32)` and `uuid.uuid4()`. -/
structure Drawn where
  token : Str
  tokenId : Str
  token_ne : token ≠ []
  token_clean : Clean token
  tokenId_ne : tokenId ≠ []

inductive Reply where
  | token (token : Str)
  | deviceToken (tokenId token : Str)
  | revoked (result : Str)
  | done
deriving DecidableEq

/-- Statements that are committed together, made when they are. -/
abbrev Part := Instant → Except Exn (List Stmt)

/-- What a call has found out before it writes. -/
structure Plan where
  parts : List Part
  reply : Reply

/-! ## Parameters -/

def optParam : Option Str → Except Exn Unit
  | some s => strParam s
  | none => .ok ()

/-- `token_hash(token)` -/
def hashOf (env : Env) (token : Str) : Except Exn Str := tokenDigest env (.str token)

/-- `token if token is not None else secrets.token_urlsafe(32)` -/
def givenOr (token : Option Str) (drawn : Drawn) : Str := token.getD drawn.token

/-- `token or secrets.token_urlsafe(32)` -/
def truthyOr (token : Option Str) (drawn : Drawn) : Str :=
  match token with
  | some [] => drawn.token
  | some t => t
  | none => drawn.token

/-! ## What the calls commit -/

/-- `add_peer`: three statements, each committed by itself. -/
def addPeer (env : Env) (peerId token : Str) (role platform endpoint : Option Str)
    (deliveryClass : Str) (ackTimeoutSec : ℤ) (drawn : Drawn) : List Part :=
  [fun now => do
      let digest ← hashOf env token
      strParam peerId
      optParam role
      optParam platform
      optParam endpoint
      strParam deliveryClass
      guardOr (minInt ≤ ackTimeoutSec ∧ ackTimeoutSec ≤ maxInt) .overflow
      return [.upsertPeer peerId digest role platform endpoint deliveryClass ackTimeoutSec (iso now)],
    fun now => do
      let digest ← hashOf env token
      strParam peerId
      return [.insertToken true peerId digest drawn.tokenId (lit "primary") (lit "full") (iso now)],
    fun now => do
      let digest ← hashOf env token
      strParam peerId
      return [.revokeOthers (iso now) peerId digest]]

/-- `rotate_peer_token`: the same; the token is hashed after the first. -/
def rotatePeerToken (env : Env) (peerId token : Str) (graceUntil : Instant) (drawn : Drawn) :
    List Part :=
  [fun now => do
      strParam peerId
      return [.graceTokens (iso graceUntil) peerId (iso now)],
    fun now => do
      strParam peerId
      let digest ← hashOf env token
      return [.insertToken false peerId digest drawn.tokenId (lit "rotation") (lit "full") (iso now)],
    fun _ => do
      let digest ← hashOf env token
      strParam peerId
      return [.setPeerToken digest peerId]]

/-- `add_device_token`: one transaction. -/
def addDeviceToken (env : Env) (peerId deviceLabel token scope actor : Str) (drawn : Drawn)
    (now : Instant) : List Part :=
  [fun _ => do
      let digest ← hashOf env token
      strParam deviceLabel
      strParam actor
      return Raft.addDeviceToken peerId digest drawn.tokenId deviceLabel scope actor (iso now)]

/-- `revoke_device_token`: one transaction. -/
def revokeDeviceToken (row : TokenRow) (tokenId actor : Str) (now : Instant) : List Part :=
  [fun _ => do
      strParam actor
      return Raft.revokeDeviceToken row tokenId actor (iso now)]

/-- `set_target_acl`: every target is committed by itself. -/
def setTargetAcl (peerId : Str) (targets : List Str) (now : Instant) : List Part :=
  (fun _ => do
      strParam peerId
      return [.upsertAcl peerId (iso now)]) ::
    (fun _ => do return [.deleteAclTargets peerId]) ::
      targets.map fun target _ => do
        strParam target
        return [.insertAclTarget peerId target (iso now)]

/-- `clear_target_acl` -/
def clearTargetAcl (peerId : Str) : List Part :=
  [fun _ => do
      strParam peerId
      return [.deleteAclTargets peerId],
    fun _ => do return [.deleteAcl peerId]]

/-- A peer that has not been revoked. -/
def activePeer (db : Db) (peerId : Str) : Bool :=
  db.peers.any fun row => row.peerId = peerId && row.revokedAt = none

def findToken (db : Db) (tokenId : Str) : Option TokenRow :=
  db.peerTokens.find? (·.tokenId = some tokenId)

/-- What a call checks and reads before its first write. -/
def plan (env : Env) (call : Call) (drawn : Drawn) (now : Instant) (db : Db) : Except Exn Plan :=
  match call with
  | .addPeer peerId token role platform endpoint deliveryClass ackTimeoutSec =>
    let token := givenOr token drawn
    .ok ⟨addPeer env peerId token role platform endpoint deliveryClass ackTimeoutSec drawn,
      .token token⟩
  | .rotatePeerToken peerId token graceSeconds =>
    let token := truthyOr token drawn
    match later now graceSeconds.toNat with
    | none => .error .overflow
    | some graceUntil => .ok ⟨rotatePeerToken env peerId token graceUntil drawn, .token token⟩
  | .addDeviceToken peerId deviceLabel token scope actor => do
    guardOr (deviceLabel ∉ [lit "legacy", lit "primary", lit "rotation"])
      (.value (lit "device_label is reserved"))
    guardOr (scope ∈ [lit "full", lit "notify"]) (.value (lit "scope must be full or notify"))
    strParam peerId
    guardOr (activePeer db peerId = true) (.key peerId)
    let token := truthyOr token drawn
    return ⟨addDeviceToken env peerId deviceLabel token scope actor drawn now,
      .deviceToken drawn.tokenId token⟩
  | .revokeDeviceToken tokenId actor => do
    strParam tokenId
    match findToken db tokenId with
    | none => .error (.key tokenId)
    | some row =>
      return ⟨revokeDeviceToken row tokenId actor now,
        .revoked (if row.revokedAt.getD [] ≠ [] then lit "already_revoked" else lit "accepted")⟩
  | .setTargetAcl peerId allowedTargets =>
    .ok ⟨setTargetAcl peerId (Raft.distinct allowedTargets) now, .done⟩
  | .clearTargetAcl peerId => .ok ⟨clearTargetAcl peerId, .done⟩

/-! ## A call step by step -/

/-- The database file and the clock of its host. -/
structure Host where
  db : Db := {}
  clock : Instant

inductive Phase where
  | start
  | running (parts : List Part) (reply : Reply)
  | returned (result : Except Exn Reply)

/-- What a part leaves. -/
def commit (env : Env) (part : Part) (now : Instant) (db : Db) : Db × Except Exn Unit :=
  match part now with
  | .error e => (db, .error e)
  | .ok stmts =>
    match Raft.transaction (sqlite env) db stmts with
    | (db', .error e) => (db', .error (.integrity e.constraint))
    | (db', .ok _) => (db', .ok ())

/-- One part of a call. -/
def step (env : Env) (a : Call × Drawn) (host : Host) : Phase → Host × Phase
  | .start =>
    match plan env a.1 a.2 host.clock host.db with
    | .error e => (host, .returned (.error e))
    | .ok p => (host, .running p.parts p.reply)
  | .running [] reply => (host, .returned (.ok reply))
  | .running (part :: parts) reply =>
    match commit env part host.clock host.db with
    | (db, .error e) => ({ host with db := db }, .returned (.error e))
    | (db, .ok _) => ({ host with db := db }, .running parts reply)
  | .returned result => (host, .returned result)

def adminCalls (env : Env) :
    Machine Host (Call × Drawn) Unit Phase (Except Exn Reply) where
  start _ := .start
  step a _ := step env a
  result
    | .returned result => some result
    | _ => none

/-- A call that nobody interrupts: where it is after some steps, each made at its own time. -/
def alone (env : Env) (a : Call × Drawn) (clock : ℕ → Instant) (db : Db) : ℕ → Db × Phase
  | 0 => (db, .start)
  | n + 1 =>
    let s := alone env a clock db n
    let r := step env a ⟨s.1, clock n⟩ s.2
    (r.1.db, r.2)

/-! ## Start-up -/

/-- `INSERT OR IGNORE INTO peer_tokens .. SELECT .. FROM peers`, for one of its rows. -/
def migrateToken (tokens : List TokenRow) (peer : PeerRow) : List TokenRow :=
  match peer.tokenHash with
  | none => tokens
  | some digest =>
    if tokens.any (·.tokenHash = digest) then tokens
    else tokens ++ [⟨nextId (tokens.map (·.id)), peer.peerId, digest, none, none, lit "full",
      peer.createdAt, none, none⟩]

/-- `_migrate_peer_tokens` -/
def migratePeerTokens (db : Db) : Db :=
  { db with peerTokens := db.peers.foldl migrateToken db.peerTokens }

/-- A row from before tokens had ids. -/
def unlabelled (row : TokenRow) : Bool := row.tokenId.getD [] = []

/-- `legacy_token_id(..)` and `coalesce(device_label,'legacy')` -/
def label (legacyTokenId : Str → Str → Str) (row : TokenRow) : TokenRow :=
  { row with
    tokenId := some (legacyTokenId row.peerId row.tokenHash),
    deviceLabel := some (row.deviceLabel.getD (lit "legacy")) }

/-- One UPDATE of `_ensure_token_schema`; an id that another row has is an error. -/
def labelToken (legacyTokenId : Str → Str → Str) (tokens : List TokenRow) (row : TokenRow) :
    Option (List TokenRow) :=
  if tokens.any fun r => r.id ≠ row.id && r.tokenId = some (legacyTokenId row.peerId row.tokenHash)
  then none
  else some (tokens.map fun r => if r.id = row.id then label legacyTokenId r else r)

/-- `_ensure_token_schema`: all of its updates or none. -/
def ensureTokenSchema (legacyTokenId : Str → Str → Str) (db : Db) : Db :=
  match (db.peerTokens.filter unlabelled).foldlM (labelToken legacyTokenId) db.peerTokens with
  | some tokens => { db with peerTokens := tokens }
  | none => db

/-- The database after the store has been opened again. -/
def restart (legacyTokenId : Str → Str → Str) (db : Db) : Db :=
  ensureTokenSchema legacyTokenId (migratePeerTokens db)

/-- The tables of the administration are the same. -/
structure SameAdmin (db db' : Db) : Prop where
  peers : db'.peers = db.peers
  peerTokens : db'.peerTokens = db.peerTokens
  peerTargetAcl : db'.peerTargetAcl = db.peerTargetAcl
  peerTargetAclTargets : db'.peerTargetAclTargets = db.peerTargetAclTargets

/-- Time passes, the store is opened again, or a request writes other tables. -/
inductive Other (legacyTokenId : Str → Str → Str) (host : Host) : Host → Prop where
  | tick {clock : Instant} (h : host.clock ≤ clock) :
    Other legacyTokenId host { host with clock := clock }
  | restart : Other legacyTokenId host { host with db := restart legacyTokenId host.db }
  | write {db : Db} (h : SameAdmin host.db db) : Other legacyTokenId host { host with db := db }

/-- A database that has just been made. -/
def Fresh (host : Host) : Prop := host.db = {}

end Admin
end ATalk
