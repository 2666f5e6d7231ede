import ATalk.Lib.Json
import ATalk.Sqlite

/-!
# The ledger

The tables of the database, a record for each row. A table is the list of its rows in the order
they were inserted; AUTOINCREMENT counts on from the largest id. JSON texts are kept as the
values they were printed from.

* `Db` : all tables;
* `nextId`, `nextId_not_mem` : the id of a new row.
-/

namespace ATalk

open Text Python Sqlite

/-- `now_iso()` prints times so that their order is the order of their texts. -/
abbrev Time := Str

structure PeerRow where
  peerId : Str
  tokenHash : Option Str
  role : Option Str
  platform : Option Str
  endpoint : Option Str
  deliveryClass : Str
  ackTimeoutSec : ℤ
  createdAt : Time
  revokedAt : Option Time
deriving DecidableEq

structure TokenRow where
  id : ℕ
  peerId : Str
  tokenHash : Str
  tokenId : Option Str
  deviceLabel : Option Str
  scope : Str
  createdAt : Time
  graceUntil : Option Time
  revokedAt : Option Time
deriving DecidableEq

structure GrantRow where
  id : ℕ
  grantor : Str
  grantee : Str
  commandType : Str
  scope : Dict
  grantedAt : Time
  validUntil : Option Time
  revokedAt : Option Time

structure AclRow where
  peerId : Str
  createdAt : Time
  updatedAt : Time
deriving DecidableEq

structure AclTargetRow where
  peerId : Str
  targetPeer : Str
  createdAt : Time
deriving DecidableEq

structure CounterRow where
  source : Str
  lastSeq : SqlVal
deriving DecidableEq

structure EventRow where
  id : ℕ
  eventId : Str
  source : Str
  target : Str
  type : Str
  seq : SqlVal
  createdAt : Time
  storedAt : Time
  payload : Dict
  requiresAck : Bool
  sourceRef : Option Str
  authActor : Option Str

inductive AckType where
  | received
  | applied
deriving DecidableEq, Repr

def AckType.text : AckType → Str
  | .received => lit "received"
  | .applied => lit "applied"

structure AckRow where
  id : ℕ
  eventId : Str
  agentId : Str
  ackType : AckType
  ackAt : Time
  detail : Val

structure AuditRow where
  id : ℕ
  ts : Time
  actor : Option Str
  action : Str
  sourceRef : Option Str
  target : Option Str
  eventId : Option Str
  result : Str
  detail : Dict

/-! ## The federation tables -/

inductive SendStatus where
  | pending
  | sent
  | failedPermanent
deriving DecidableEq, Repr

structure OutboundRow where
  id : ℕ
  eventId : Str
  origin : Str
  originKeyId : Str
  sourceLocal : Str
  sourceAddr : Str
  target : Str
  targetFamily : Str
  type : Str
  signedJson : List (Str × Json)
  sig : Str
  envelopeJson : Bytes
  notifyIntentId : Str
  status : SendStatus
  attempts : ℕ
  nextRetryAt : Option Time
  lastError : Option Str
  createdAt : Time
  updatedAt : Time

inductive DeliveryState where
  | pending
  | delivered
deriving DecidableEq, Repr

structure InboundRow where
  id : ℕ
  origin : Str
  eventId : Str
  target : Str
  eventJcs : Bytes
  signedJson : List (Str × Json)
  sig : Str
  regFamily : Str
  regKeyId : Str
  regPublicKey : Str
  localEventId : Str
  deliveryState : DeliveryState
  createdAt : Time

structure ConflictRow where
  id : ℕ
  origin : Str
  eventId : Str
  eventJcs : Bytes
  signedJson : List (Str × Json)
  sig : Str
  reason : Str
  seenAt : Time

structure ReceiptOutRow where
  id : ℕ
  eventId : Str
  agent : Str
  ackType : AckType
  atTime : Time
  origin : Str
  originEventSigHash : Str
  issuer : Str
  issuerKeyId : Str
  signedJson : Option (List (Str × Json))
  sig : Option Str
  status : SendStatus
  attempts : ℕ
  nextRetryAt : Option Time
  lastError : Option Str
  createdAt : Time
  updatedAt : Time

structure ReceiptOriginalRow where
  id : ℕ
  eventId : Str
  agent : Str
  ackType : AckType
  issuer : Str
  issuerKeyId : Str
  signedJson : List (Str × Json)
  sig : Str
  isVariant : Bool
  firstSeenAt : Time

structure ReceiptInRow where
  eventId : Str
  agent : Str
  ackType : AckType
  issuer : Str
  originalId : ℕ
  updatedAt : Time
deriving DecidableEq

structure NotificationRow where
  intentId : Str
  kind : Str
  agent : Option Str
  eventId : Option Str
  detail : List (Str × Str)
  hintSent : Bool
  acked : Bool
  createdAt : Time
deriving DecidableEq

structure Db where
  peers : List PeerRow := []
  peerTokens : List TokenRow := []
  peerGrants : List GrantRow := []
  peerTargetAcl : List AclRow := []
  peerTargetAclTargets : List AclTargetRow := []
  sourceCounters : List CounterRow := []
  events : List EventRow := []
  acks : List AckRow := []
  auditLog : List AuditRow := []
  federationOutbound : List OutboundRow := []
  federationInbound : List InboundRow := []
  federationInboundConflicts : List ConflictRow := []
  federationReceiptOut : List ReceiptOutRow := []
  federationReceiptInOriginals : List ReceiptOriginalRow := []
  federationReceiptIn : List ReceiptInRow := []
  federationNotifications : List NotificationRow := []

/-! ## Row ids -/

/-- The id AUTOINCREMENT gives the next row. -/
def nextId (ids : List ℕ) : ℕ := ids.foldr max 0 + 1

theorem lt_nextId {ids : List ℕ} {i : ℕ} (h : i ∈ ids) : i < nextId ids := by
  induction ids with
  | nil => cases h
  | cons j ids ih =>
    rw [nextId, List.foldr_cons]
    rcases List.mem_cons.mp h with rfl | h
    · omega
    · have := ih h
      rw [nextId] at this
      omega

theorem nextId_not_mem (ids : List ℕ) : nextId ids ∉ ids := fun h => Nat.lt_irrefl _ (lt_nextId h)

end ATalk
