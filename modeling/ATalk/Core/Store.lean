import ATalk.Lib.Checks
import ATalk.Core.Ledger

/-!
# The SQLite store

`AtalkStore` on the ledger: token and grant checks, the target list, the sequence allocator, and
`insert_event`. A call that writes is a function from a ledger to a ledger and a result; what it
does in one immediate transaction is one step, and `insert_event` is two of them: the
transaction (`writeEvent`) and what follows its COMMIT or ROLLBACK (`finishEvent`).

* `insertEvent` : the whole call;
* `rowToEvent`, `listEvents` : reading rows back;
* `ackEvent` : `AtalkStore.ack`.
-/

namespace ATalk
namespace Core

open Text Python Sqlite Checks

/-- What the store can raise. -/
inductive Exn where
  | eventIdConflict (eventId : Str)
  | permission (message : Str)
  | key (name : Str)
  | value (message : Str)
  | unicodeEncode
  | overflow
  | unsupportedType
  | integrity (constraint : String)
  | typeError
  | runtime (message : String)
deriving DecidableEq, Repr

/-- The status `do_POST` answers an exception with. -/
def Exn.status : Exn → ℕ
  | .eventIdConflict _ => 409
  | .permission _ => 403
  | .key _ => 400
  | .value _ => 400
  | .unicodeEncode => 400
  | .overflow => 500
  | .unsupportedType => 500
  | .integrity _ => 500
  | .typeError => 500
  | .runtime _ => 500

def ofBindError : BindError → Exn
  | .unicodeEncode => .unicodeEncode
  | .overflow => .overflow
  | .unsupportedType => .unsupportedType

/-- What the store takes from its host: SQLite's arithmetic of doubles, the digest of a token,
and `str(x)` of a value that is no string. -/
structure Env where
  engine : Engine
  tokenHash : Bytes → Str
  strOf : Val → Str

/-! ## Parameters -/

/-- A parameter compared with, or stored in, a TEXT column. -/
def textParam (env : Env) (v : Val) : Except Exn (Option Str) :=
  match bind v with
  | .error e => .error (ofBindError e)
  | .ok x => .ok (textColumn env.engine x)

/-- A parameter stored in an INTEGER column. -/
def integerParam (env : Env) (v : Val) : Except Exn SqlVal :=
  match bind v with
  | .error e => .error (ofBindError e)
  | .ok x => .ok (integerColumn env.engine x)

/-- A string parameter. -/
def strParam (s : Str) : Except Exn Unit := guardOr (Clean s) .unicodeEncode

mutual

/-- The printed JSON text of the value can be encoded. -/
def cleanVal : Val → Bool
  | .str s => decide (Clean s)
  | .list xs => cleanList xs
  | .dict ms => cleanDict ms
  | _ => true
termination_by structural v => v

def cleanList : List Val → Bool
  | [] => true
  | x :: xs => cleanVal x && cleanList xs
termination_by structural xs => xs

def cleanDict : List (Str × Val) → Bool
  | [] => true
  | (k, x) :: ms => decide (Clean k) && (cleanVal x && cleanDict ms)
termination_by structural ms => ms

end

/-- `compact_json(v)` as a parameter. -/
def jsonParam (v : Val) : Except Exn Unit := guardOr (cleanVal v = true) .unicodeEncode

/-! ## Events -/

structure Event where
  id : ℕ
  eventId : Str
  source : Str
  target : Str
  type : Str
  seq : ℤ
  createdAt : Time
  storedAt : Time
  payload : Dict
  requiresAck : Bool
  sourceRef : Option Str
  authActor : Option Str

/-- `int(x)` of a value read from an INTEGER column. -/
def intOf : SqlVal → Except Exn ℤ
  | .null => .error .typeError
  | .int i => .ok i
  | .real f =>
    match f.value with
    | some q => .ok (q.num.tdiv q.den)
    | none => .error .overflow
  | .text s =>
    match intOfStr s with
    | some i => .ok i
    | none => .error (.value (lit "invalid literal for int() with base 10"))

/-- `_row_to_event` -/
def rowToEvent (row : EventRow) : Except Exn Event :=
  match intOf row.seq with
  | .error e => .error e
  | .ok seq => .ok ⟨row.id, row.eventId, row.source, row.target, row.type, seq, row.createdAt,
      row.storedAt, row.payload, row.requiresAck, row.sourceRef, row.authActor⟩

def verifyEventIdentity (event : Event) (source target type : Str) : Except Exn Event :=
  if (event.source, event.target, event.type) ≠ (source, target, type) then
    .error (.eventIdConflict event.eventId)
  else .ok event

def findEvent (db : Db) (eventId : Option Str) : Option EventRow :=
  db.events.find? fun row => some row.eventId = eventId

def getEvent (db : Db) (eventId : Option Str) : Except Exn Event :=
  match findEvent db eventId with
  | none => .error (.key (eventId.getD []))
  | some row => rowToEvent row

def getEventById (db : Db) (id : ℕ) : Except Exn Event :=
  match db.events.find? fun row => row.id = id with
  | none => .error (.key (decimalText id))
  | some row => rowToEvent row

/-! ## Authorization -/

def authRequired (db : Db) : Bool := db.peers ≠ []

/-- `token_hash(token)` -/
def tokenDigest (env : Env) : Val → Except Exn Str
  | .str s =>
    match encode s with
    | none => .error .unicodeEncode
    | some b => .ok (env.tokenHash b)
  | _ => .error .typeError

/-- A token row that may still be used. -/
def TokenRow.live (row : TokenRow) (now : Time) : Bool :=
  row.revokedAt.getD [] = [] &&
    match row.graceUntil with
    | none => true
    | some t => t = [] || now ≤ t

/-- The rows of a peer, tried in order. -/
def scopeOf (env : Env) (now : Time) (token : Val) : List TokenRow → Except Exn (Option Str)
  | [] => .ok none
  | row :: rows =>
    if TokenRow.live row now then
      match tokenDigest env token with
      | .error e => .error e
      | .ok digest =>
        if row.tokenHash = digest then .ok (some (if row.scope = [] then lit "full" else row.scope))
        else scopeOf env now token rows
    else scopeOf env now token rows

def tokenScope (env : Env) (db : Db) (now : Time) (peerId : Str) (token : Val) :
    Except Exn (Option Str) :=
  if token.truthy = false then .ok none
  else do
    strParam peerId
    scopeOf env now token (db.peerTokens.filter (·.peerId = peerId))

/-- `str(x)` -/
def strOf (env : Env) : Val → Str
  | .str s => s
  | v => env.strOf v

def commandType (env : Env) (payload : Dict) : Str :=
  strip (strOf env (getDefault (lit "op") payload (.str [])))

/-- A grant a command of this kind may rest on. -/
def GrantRow.live (row : GrantRow) (now : Time) (source target operation : Str) : Bool :=
  row.grantor = target && row.grantee = source &&
    (row.commandType = operation || row.commandType = lit "*") && row.revokedAt = none &&
    match row.validUntil with
    | none => true
    | some t => now ≤ t

/-- Every entry of the scope stands in the payload. -/
def scopeMatches (scope payload : Dict) : Bool :=
  scope.all fun (k, v) => (getNone k payload).eq v

def commandAllowed (env : Env) (db : Db) (now : Time) (source target : Str) (payload : Dict) :
    Except Exn Bool :=
  let operation := commandType env payload
  if operation = [] then .ok false
  else do
    strParam target
    strParam source
    strParam operation
    return db.peerGrants.any fun row =>
      GrantRow.live row now source target operation && scopeMatches row.scope payload

def restricted (db : Db) (source : Str) : Bool := db.peerTargetAcl.any (·.peerId = source)

def listed (db : Db) (source target : Str) : Bool :=
  db.peerTargetAclTargets.any fun row => row.peerId = source && row.targetPeer = target

def targetAclAllows (db : Db) (source target : Str) : Except Exn Bool := do
  strParam source
  if restricted db source = false then return true
  if target = lit "*" then return false
  strParam target
  return listed db source target

/-! ## The audit log -/

def auditRow (db : Db) (now : Time) (actor : Option Str) (action : Str)
    (sourceRef target eventId : Option Str) (result : Str) (detail : Dict) : Db :=
  { db with auditLog := db.auditLog ++
      [⟨nextId (db.auditLog.map (·.id)), now, actor, action, sourceRef, target, eventId, result,
        detail⟩] }

/-- `audit(actor, action, source_ref, target, event_id, result)` -/
def audit (env : Env) (db : Db) (now : Time) (actor : Str) (action : String) (sourceRef : Val)
    (target : Str) (eventId : Val) (result : String) : Except Exn Db := do
  strParam actor
  let ref ← textParam env sourceRef
  strParam target
  let key ← textParam env eventId
  return auditRow db now (some actor) (lit action) ref (some target) key (lit result) []

/-! ## Sequence numbers -/

def findCounter (db : Db) (source : Str) : Option CounterRow :=
  db.sourceCounters.find? (·.source = source)

/-- Insert a counter, or change the one there is. -/
def upsertCounter (db : Db) (source : Str) (init : SqlVal) (update : SqlVal → SqlVal) : Db :=
  { db with sourceCounters :=
      if db.sourceCounters.any (·.source = source) then
        db.sourceCounters.map fun row =>
          if row.source = source then { row with lastSeq := update row.lastSeq } else row
      else db.sourceCounters ++ [⟨source, init⟩] }

/-- The counter one further. -/
def bumpCounter (env : Env) (db : Db) (source : Str) : Db :=
  upsertCounter db source (.int 1) fun v => integerColumn env.engine (sqlSucc env.engine v)

/-- `next_seq(source)` -/
def nextSeq (env : Env) (db : Db) (source : Str) : Except Exn (Db × ℤ) := do
  strParam source
  let db' := bumpCounter env db source
  match findCounter db' source with
  | none => .error .typeError
  | some row => return (db', ← intOf row.lastSeq)

/-- The high-water mark after an event. -/
def raiseCounter (db : Db) (source : Str) (seq : SqlVal) : Db :=
  upsertCounter db source seq fun v => sqlMax v seq

/-! ## `insert_event` -/

/-- The arguments of a call, the clock it reads and the id it would make up. -/
structure EventArgs where
  source : Str
  target : Str
  type : Str
  payload : Dict
  seq : Val
  eventId : Val
  createdAt : Val
  requiresAck : Val
  sourceRef : Val
  token : Val
  now : Time
  newId : Str

/-- `event_id or str(uuid.uuid4())` -/
def EventArgs.key (a : EventArgs) : Val := if a.eventId.truthy then a.eventId else .str a.newId

/-- `created_at or now_iso()` -/
def EventArgs.created (a : EventArgs) : Val :=
  if a.createdAt.truthy then a.createdAt else .str a.now

inductive Verdict where
  | allowed (authActor : Option Str)
  | rejected (result : String) (message : String)
  | refused

/-- The checks made inside the transaction. -/
def authorize (env : Env) (db : Db) (a : EventArgs) : Except Exn Verdict :=
  if a.type = lit "command" then do
    if (← tokenScope env db a.now a.source a.token) = none then
      return .rejected "invalid_token" "command token rejected"
    if (← commandAllowed env db a.now a.source a.target a.payload) = false then
      return .rejected "grant_denied" "command grant rejected"
    return .allowed (some a.source)
  else do
    if ← targetAclAllows db a.source a.target then return .allowed none
    return .refused

/-- `seq if seq is not None else self.next_seq(source)` -/
def allocate (env : Env) (db : Db) (a : EventArgs) : Except Exn (Db × Val) :=
  match a.seq with
  | .none => do
    let (db', n) ← nextSeq env db a.source
    return (db', .int n)
  | v => .ok (db, v)

/-- The row of the call, as its columns keep it: the id, the sequence number and the creation
time may still be NULL. -/
structure RowParams where
  key : Option Str
  seq : SqlVal
  created : Option Str
  sourceRef : Option Str

def rowParams (env : Env) (a : EventArgs) (seqVal : Val) : Except Exn RowParams := do
  let key ← textParam env a.key
  strParam a.source
  strParam a.target
  strParam a.type
  let seq ← integerParam env seqVal
  let created ← textParam env a.created
  jsonParam (.dict a.payload)
  let ref ← textParam env a.sourceRef
  return ⟨key, seq, created, ref⟩

def eventRow (db : Db) (a : EventArgs) (authActor : Option Str) (key : Str) (seq : SqlVal)
    (created : Str) (sourceRef : Option Str) : EventRow where
  id := nextId (db.events.map (·.id))
  eventId := key
  source := a.source
  target := a.target
  type := a.type
  seq := seq
  createdAt := created
  storedAt := a.now
  payload := a.payload
  requiresAck := a.requiresAck.truthy
  sourceRef := sourceRef
  authActor := authActor

/-- What a row violates: a column that must not be NULL, or a unique key. -/
inductive RowError where
  | eventId
  | other (constraint : String)

def insertRow (db : Db) (a : EventArgs) (authActor : Option Str) (p : RowParams) :
    Except RowError (Db × EventRow) :=
  match p.key, p.seq, p.created with
  | none, _, _ => .error .eventId
  | _, .null, _ => .error (.other "events.seq")
  | _, _, none => .error (.other "events.created_at")
  | some key, seq, some created =>
    if db.events.any (·.eventId = key) then .error .eventId
    else if db.events.any fun row => row.source = a.source && sqlEq row.seq seq then
      .error (.other "events.source, events.seq")
    else
      let row := eventRow db a authActor key seq created p.sourceRef
      .ok ({ db with events := db.events ++ [row] }, row)

/-- What remains to be done after the transaction has ended. -/
inductive Pending where
  | finished (result : Except Exn Event)
  | fetch (id : ℕ)
  | refetch
  | rejected (result : String) (message : String)

/-- The insert, the high-water mark and the accepted audit row. -/
def commitEvent (env : Env) (db : Db) (a : EventArgs) (authActor : Option Str) : Db × Pending :=
  match allocate env db a with
  | .error e => (db, .finished (.error e))
  | .ok (db₁, seqVal) =>
    match rowParams env a seqVal with
    | .error e => (db, .finished (.error e))
    | .ok p =>
      match insertRow db₁ a authActor p with
      | .error .eventId => (db, .refetch)
      | .error (.other c) => (db, .finished (.error (.integrity c)))
      | .ok (db₂, row) =>
        let db₃ := raiseCounter db₂ a.source row.seq
        let db₄ :=
          if a.type = lit "command" then
            auditRow db₃ a.now (some a.source) (lit "command_accept") row.sourceRef (some a.target)
              (some row.eventId) (lit "accepted") []
          else db₃
        (db₄, .fetch row.id)

/-- The immediate transaction. -/
def writeEvent (env : Env) (a : EventArgs) (db : Db) : Db × Pending :=
  match textParam env a.key with
  | .error e => (db, .finished (.error e))
  | .ok key =>
    match findEvent db key with
    | some row => (db, .finished (do
        verifyEventIdentity (← rowToEvent row) a.source a.target a.type))
    | none =>
      match authorize env db a with
      | .error e => (db, .finished (.error e))
      | .ok (.rejected result message) => (db, .rejected result message)
      | .ok .refused => (db, .finished (.error (.permission (lit "target not allowed"))))
      | .ok (.allowed authActor) => commitEvent env db a authActor

/-- `audit(..)`, then `raise PermissionError(message)`. -/
def reject (env : Env) (a : EventArgs) (result message : String) (db : Db) :
    Db × Except Exn Event :=
  match audit env db a.now a.source "command_reject" a.sourceRef a.target a.key result with
  | .error e => (db, .error e)
  | .ok db' => (db', .error (.permission (lit message)))

/-- After the transaction. -/
def finishEvent (env : Env) (a : EventArgs) (db : Db) : Pending → Db × Except Exn Event
  | .finished result => (db, result)
  | .fetch id => (db, getEventById db id)
  | .refetch => (db, do
      verifyEventIdentity (← getEvent db (← textParam env a.key)) a.source a.target a.type)
  | .rejected result message => reject env a result message db

def insertEvent (env : Env) (a : EventArgs) (db : Db) : Db × Except Exn Event :=
  if a.type = lit "command" ∧ a.sourceRef.truthy = false then
    reject env a "missing_source_ref" "command requires source_ref" db
  else
    let (db', pending) := writeEvent env a db
    finishEvent env a db' pending

/-! ## Reading and acknowledging -/

def hasAck (db : Db) (eventId agent : Str) (ackType : AckType) : Bool :=
  db.acks.any fun row => row.eventId = eventId && row.agentId = agent && row.ackType = ackType

def forTarget (target : Str) (row : EventRow) : Bool := row.target = target || row.target = lit "*"

/-- The rows `list_events` selects: those for a target, or all of them without one. -/
def selectEvents (db : Db) (target : Str) (sinceId : ℤ) (pending : Bool) : List EventRow :=
  db.events.filter fun row =>
    sinceId < row.id &&
      (target = [] || forTarget target row && !(pending && hasAck db row.eventId target .applied))

/-- `list_events`; the empty target stands for none. -/
def listEvents (db : Db) (target : Str) (sinceId limit : ℤ) (state : Str) :
    Except Exn (List Event) := do
  let limit := max 1 (min limit 500)
  guardOr (target = [] ∨ state = lit "pending" ∨ state = lit "all")
    (.value (lit "state must be pending or all"))
  strParam target
  guardOr (minInt ≤ sinceId ∧ sinceId ≤ maxInt) .overflow
  ((selectEvents db target sinceId (state = lit "pending")).take limit.toNat).mapM rowToEvent

def backlogDepth (db : Db) (target : Str) : ℕ :=
  (db.events.filter fun row =>
    row.requiresAck && forTarget target row && !hasAck db row.eventId target .applied).length

/-- `ack_type in {"received", "applied"}`; a list or a dict cannot be hashed. -/
def parseAckType : Val → Except Exn AckType
  | .str s =>
    if s = lit "received" then .ok .received
    else if s = lit "applied" then .ok .applied
    else .error (.value (lit "ack_type must be received or applied"))
  | .list _ => .error .typeError
  | .dict _ => .error .typeError
  | _ => .error (.value (lit "ack_type must be received or applied"))

/-- `detail or {}` -/
def detailOf (detail : Val) : Val := if detail.truthy then detail else .dict []

/-- Insert the acknowledgement, or refresh the one there is. -/
def upsertAck (db : Db) (eventId agentId : Str) (ackType : AckType) (now : Time) (detail : Val) :
    Db :=
  { db with acks :=
      if hasAck db eventId agentId ackType then
        db.acks.map fun row =>
          if row.eventId = eventId ∧ row.agentId = agentId ∧ row.ackType = ackType then
            { row with ackAt := now, detail := detail }
          else row
      else db.acks ++ [⟨nextId (db.acks.map (·.id)), eventId, agentId, ackType, now, detail⟩] }

/-- The statement of an acknowledgement: a NULL or an event that does not exist is refused. -/
def writeAck (db : Db) (eventId agentId : Option Str) (ackType : AckType) (now : Time)
    (detail : Val) : Except Exn Db :=
  match eventId, agentId with
  | some eventId, some agentId =>
    if db.events.any (·.eventId = eventId) then .ok (upsertAck db eventId agentId ackType now detail)
    else .error (.integrity "FOREIGN KEY")
  | _, _ => .error (.integrity "acks")

def ackEvent (env : Env) (db : Db) (now : Time) (eventId agentId ackType detail : Val) :
    Except Exn Db := do
  let ackType ← parseAckType ackType
  let event ← textParam env eventId
  let agent ← textParam env agentId
  jsonParam (detailOf detail)
  writeAck db event agent ackType now (detailOf detail)

/-! ## A host -/

/-- A stand-in for the arithmetic of doubles. -/
def plainEngine : Engine where
  realText _ := lit "0.0"
  realOf _ := .fin false 0
  realSucc f := f
  textSucc _ := .int 1
  le_realSucc _ hf := ⟨hf, numLe_refl hf⟩

/-- A host whose digest reads a token as a text. -/
def plainEnv : Env where
  engine := plainEngine
  tokenHash b := b.map fun x => ⟨x.val, by omega⟩
  strOf _ := []

end Core
end ATalk
