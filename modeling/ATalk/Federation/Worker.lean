import ATalk.Federation.Outbox
import ATalk.Lib.Calendar

/-!
# The worker

One thread sends what is due. `process_due` reads a page of at most twenty outbound rows, handles
them one by one, and then does the same with the receipts. A row whose answer does not end it waits
until its next deadline, which the peer names itself or `_backoff` chooses.

* `backoff` : the deadline of a retry, in whole seconds and never early;
* `dueOutbound`, `dueReceipts` : the page of a cycle;
* `sendOutbound`, `sendReceipt` : the handling of a row, `guardedOutbound`, `guardedReceipt` : the
  same in isolation from the others;
* `processDue` : a cycle.

The delivery of inbound events and the hints of notifications, which follow in a cycle, write other
tables.
-/

namespace ATalk
namespace Federation

open Text Json Python Calendar ATalk.Core

/-! ## Deadlines -/

/-- A reading of the clock in microseconds. -/
abbrev Moment := Fin (horizon * 1000000)

/-- Its second, as `now_iso()` gives it. -/
def Moment.second (m : Moment) : Instant := ⟨m.val / 1000000, by have := m.isLt; omega⟩

def nowIso (m : Moment) : Time := iso (Moment.second m)

/-- `datetime.max` -/
def lastMoment : Moment := ⟨horizon * 1000000 - 1, by decide⟩

/-- `now + timedelta(..)`, an `OverflowError` after the year 9999. -/
def after (m : Moment) (delay : ℕ) : Option Moment :=
  if h : m.val + delay < horizon * 1000000 then some ⟨m.val + delay, h⟩ else none

/-- Whole seconds, rounded up; after the last second of the calendar there is none. -/
def roundUp (m : Moment) : Instant :=
  if m.val % 1000000 = 0 then Moment.second m
  else (later (Moment.second m) 1).getD (Moment.second m)

/-- `backoff_base` and `backoff_max` in microseconds. -/
structure WorkerConfig where
  backoffBase : ℕ
  backoffMax : ℕ

/-- `_backoff`, with the draw of `random.uniform(0, backoff_base)`. A Retry-After is honoured up to
the end of the calendar; the ordinary backoff overflows there. -/
def backoff (cfg : WorkerConfig) (attempts : ℕ) (retryAfter : Option ℕ) (jitter : ℕ)
    (now : Moment) : Option Time :=
  match retryAfter with
  | some delay => some (iso (roundUp ((after now delay).getD lastMoment)))
  | none =>
    let steps := min (max attempts 1) 10
    let delay := min (cfg.backoffBase * 2 ^ (steps - 1) + jitter) cfg.backoffMax
    (after now delay).map fun m => iso (roundUp m)

/-! ## Answers -/

/-- `SendOutcome`; a Retry-After is in microseconds. -/
inductive SendOutcome where
  | sent
  | retry (error : Str) (retryAfter : Option ℕ)
  | permanent (error : Str)

/-- What comes of sending to a peer: an outcome, or an exception of some class. -/
abbrev Answer := Except Str SendOutcome

/-- What a retry reads: the generator and the clock in `_backoff`, the clock again when the row is
written. -/
structure Draw where
  jitter : ℕ
  now : Moment
  stored : Moment

/-- What the world does while a row is handled; `made` is when a receipt is signed. -/
structure Turn where
  answer : Answer
  made : Moment
  send : Draw
  guard : Draw

def overflowError : Str := lit "OverflowError"

def workerError (cls : Str) : Str := lit "worker_error: " ++ cls

/-! ## Outbound rows -/

/-- `status='pending' AND (next_retry_at IS NULL OR next_retry_at <= ?)` -/
def isDue (now : Time) (status : SendStatus) (nextRetryAt : Option Time) : Bool :=
  status = .pending &&
    match nextRetryAt with
    | none => true
    | some t => t ≤ now

def dueOutbound (db : Db) (now : Time) (limit : ℕ) : List OutboundRow :=
  ((db.federationOutbound.filter fun row => isDue now row.status row.nextRetryAt).insertionSort
    (·.id ≤ ·.id)).take limit

/-- `_apply_outcome` for an outbound row. -/
def applyOutbound (cfg : WorkerConfig) (db : Db) (row : OutboundRow) (outcome : SendOutcome)
    (draw : Draw) : Except Str Db :=
  match outcome with
  | .sent => .ok (markOutboundSent db row.eventId (nowIso draw.stored))
  | .permanent error => .ok (failOutboundPermanent db row.eventId error (nowIso draw.stored))
  | .retry error retryAfter =>
    match backoff cfg (row.attempts + 1) retryAfter draw.jitter draw.now with
    | none => .error overflowError
    | some deadline =>
      .ok (markOutboundRetry db row.eventId (row.attempts + 1) deadline error (nowIso draw.stored))

/-- `_send_outbound`; to a family that is not registered nothing is sent. -/
def sendOutbound (fed : Runtime) (cfg : WorkerConfig) (db : Db) (row : OutboundRow)
    (turn : Turn) : Except Str Db :=
  match fed.registry.receiptsPeer row.targetFamily with
  | none => applyOutbound cfg db row (.retry (lit "unregistered_family") none) turn.send
  | some _ =>
    match turn.answer with
    | .error cls => .error cls
    | .ok outcome => applyOutbound cfg db row outcome turn.send

/-- `_guarded` after an exception; a backoff that overflows is not persisted. -/
def raisedOutbound (cfg : WorkerConfig) (db : Db) (row : OutboundRow) (cls : Str) (draw : Draw) :
    Db :=
  match backoff cfg (row.attempts + 1) none draw.jitter draw.now with
  | none => db
  | some deadline =>
    markOutboundRetry db row.eventId (row.attempts + 1) deadline (workerError cls)
      (nowIso draw.stored)

def guardedOutbound (fed : Runtime) (cfg : WorkerConfig) (db : Db) (row : OutboundRow)
    (turn : Turn) : Db :=
  match sendOutbound fed cfg db row turn with
  | .ok db' => db'
  | .error cls => raisedOutbound cfg db row cls turn.guard

/-! ## Receipts -/

/-- `event_id=? AND agent=? AND ack_type=?` -/
def SameReceipt (row r : ReceiptOutRow) : Prop :=
  r.eventId = row.eventId ∧ r.agent = row.agent ∧ r.ackType = row.ackType

instance (row r : ReceiptOutRow) : Decidable (SameReceipt row r) :=
  inferInstanceAs (Decidable (_ ∧ _ ∧ _))

def dueReceipts (db : Db) (now : Time) (limit : ℕ) : List ReceiptOutRow :=
  ((db.federationReceiptOut.filter fun row => isDue now row.status row.nextRetryAt).insertionSort
    (·.id ≤ ·.id)).take limit

/-- An UPDATE of a pending receipt. -/
def updateReceipt (db : Db) (row : ReceiptOutRow) (f : ReceiptOutRow → ReceiptOutRow) : Db :=
  { db with federationReceiptOut := db.federationReceiptOut.map fun r =>
      if SameReceipt row r ∧ r.status = .pending then f r else r }

/-- `materialize_receipt`: what is signed once stays. -/
def materializeReceipt (db : Db) (row : ReceiptOutRow) (signedJson : List (Str × Json)) (sig : Str)
    (now : Time) : Db :=
  updateReceipt db row fun r =>
    match r.signedJson with
    | some _ => r
    | none => { r with signedJson := some signedJson, sig := some sig, updatedAt := now }

def markReceiptSent (db : Db) (row : ReceiptOutRow) (now : Time) : Db :=
  updateReceipt db row fun r =>
    { r with status := .sent, attempts := r.attempts + 1, lastError := none, updatedAt := now }

def markReceiptRetry (db : Db) (row : ReceiptOutRow) (attempts : ℕ) (nextRetryAt : Time)
    (lastError : Str) (now : Time) : Db :=
  updateReceipt db row fun r =>
    { r with
      attempts := attempts, nextRetryAt := some nextRetryAt, lastError := some lastError,
      updatedAt := now }

/-- The pending receipt fails for good, and the operator is told. -/
def failReceiptPermanent (fed : Runtime) (db : Db) (row : ReceiptOutRow) (error : Str)
    (now : Time) : Db :=
  match db.federationReceiptOut.find? fun r => SameReceipt row r ∧ r.status = .pending with
  | none => db
  | some found =>
    let db' := { db with federationReceiptOut := db.federationReceiptOut.map fun r =>
      if r.id = found.id then
        { r with
          status := .failedPermanent, attempts := r.attempts + 1, lastError := some error,
          updatedAt := now }
      else r }
    insertNotification db'
      (fed.stableIntentId [lit "receipt_send_failed", row.eventId, row.agent, AckType.text row.ackType])
      "receipt_send_failed" none (some row.eventId)
      [(lit "agent", row.agent), (lit "ack_type", AckType.text row.ackType), (lit "error", error)] now

/-- The class of an exception of `compose_receipt`. -/
def Raised.cls : Raised → Str
  | .federation _ => lit "FederationError"
  | .unicodeEncode => lit "UnicodeEncodeError"

/-- `_materialize_receipt` -/
def signReceipt (fed : Runtime) (db : Db) (row : ReceiptOutRow) (now : Time) : Except Str Db :=
  match composeReceipt fed.crypto fed.identity row.eventId row.origin row.originEventSigHash
      row.agent (AckType.text row.ackType) row.atTime with
  | .error e => .error (Raised.cls e)
  | .ok envelope =>
    .ok (materializeReceipt db row (sorted envelope) ((strMember (lit "sig") envelope).getD []) now)

/-- `{**row, **(get_receipt_out(..) or {})}` -/
def freshReceipt (db : Db) (row : ReceiptOutRow) : ReceiptOutRow :=
  (db.federationReceiptOut.find? fun r => SameReceipt row r).getD row

/-- `canonical_bytes({**json.loads(row["signed_json"]), "sig": row["sig"]})` -/
def signedBody (row : ReceiptOutRow) : Except Str Bytes :=
  match row.signedJson with
  | none => .error (lit "TypeError")
  | some signed =>
    let sig := match row.sig with
      | some s => Json.str s
      | none => .null
    match canonicalBytes (withoutSig signed ++ [(lit "sig", sig)]) with
    | none => .error (lit "UnicodeEncodeError")
    | some body => .ok body

/-- `_apply_outcome` for a receipt. -/
def applyReceipt (fed : Runtime) (cfg : WorkerConfig) (db : Db) (row : ReceiptOutRow)
    (outcome : SendOutcome) (draw : Draw) : Except Str Db :=
  match outcome with
  | .sent => .ok (markReceiptSent db row (nowIso draw.stored))
  | .permanent error => .ok (failReceiptPermanent fed db row error (nowIso draw.stored))
  | .retry error retryAfter =>
    match backoff cfg (row.attempts + 1) retryAfter draw.jitter draw.now with
    | none => .error overflowError
    | some deadline =>
      .ok (markReceiptRetry db row (row.attempts + 1) deadline error (nowIso draw.stored))

/-- `_send_receipt` once the receipt is signed. -/
def sendSigned (fed : Runtime) (cfg : WorkerConfig) (db : Db) (row : ReceiptOutRow) (turn : Turn) :
    Except Str Db :=
  match fed.registry.receiptsPeer row.origin with
  | none => applyReceipt fed cfg db row (.retry (lit "unregistered_family") none) turn.send
  | some _ =>
    match signedBody row with
    | .error cls => .error cls
    | .ok _ =>
      match turn.answer with
      | .error cls => .error cls
      | .ok outcome => applyReceipt fed cfg db row outcome turn.send

/-- `_send_receipt`: what it has written, and whether it raised. -/
def sendReceipt (fed : Runtime) (cfg : WorkerConfig) (db : Db) (row : ReceiptOutRow) (turn : Turn) :
    Db × Except Str Unit :=
  let made : Except Str (Db × ReceiptOutRow) :=
    match row.signedJson with
    | some _ => .ok (db, row)
    | none =>
      match signReceipt fed db row (nowIso turn.made) with
      | .error cls => .error cls
      | .ok db' => .ok (db', freshReceipt db' row)
  match made with
  | .error cls => (db, .error cls)
  | .ok (db', row') =>
    match sendSigned fed cfg db' row' turn with
    | .error cls => (db', .error cls)
    | .ok db'' => (db'', .ok ())

def raisedReceipt (cfg : WorkerConfig) (db : Db) (row : ReceiptOutRow) (cls : Str) (draw : Draw) :
    Db :=
  match backoff cfg (row.attempts + 1) none draw.jitter draw.now with
  | none => db
  | some deadline =>
    markReceiptRetry db row (row.attempts + 1) deadline (workerError cls) (nowIso draw.stored)

def guardedReceipt (fed : Runtime) (cfg : WorkerConfig) (db : Db) (row : ReceiptOutRow)
    (turn : Turn) : Db :=
  match sendReceipt fed cfg db row turn with
  | (db', .ok _) => db'
  | (db', .error cls) => raisedReceipt cfg db' row cls turn.guard

/-- What a receipt is sent as: the row itself, or the row it has just become by being signed. -/
def Readied (fed : Runtime) (db : Db) (row : ReceiptOutRow) (turn : Turn) (db' : Db)
    (current : ReceiptOutRow) : Prop :=
  (row.signedJson ≠ none ∧ db' = db ∧ current = row) ∨
    row.signedJson = none ∧ signReceipt fed db row (nowIso turn.made) = .ok db' ∧
      current = freshReceipt db' row

/-- Signing raises, sending raises, or the outcome is written. -/
theorem sendReceipt_cases (fed : Runtime) (cfg : WorkerConfig) (db : Db) (row : ReceiptOutRow)
    (turn : Turn) :
    (∃ cls, row.signedJson = none ∧ signReceipt fed db row (nowIso turn.made) = .error cls ∧
        sendReceipt fed cfg db row turn = (db, .error cls)) ∨
      ∃ db' current, Readied fed db row turn db' current ∧
        ((∃ cls, sendSigned fed cfg db' current turn = .error cls ∧
            sendReceipt fed cfg db row turn = (db', .error cls)) ∨
          ∃ db'', sendSigned fed cfg db' current turn = .ok db'' ∧
            sendReceipt fed cfg db row turn = (db'', .ok ())) := by
  unfold sendReceipt
  cases hjson : row.signedJson with
  | some json =>
    refine .inr ⟨db, row, .inl ⟨by rw [hjson]; simp, rfl, rfl⟩, ?_⟩
    cases hsend : sendSigned fed cfg db row turn with
    | error cls => exact .inl ⟨cls, rfl, by simp only [hsend]⟩
    | ok db'' => exact .inr ⟨db'', rfl, by simp only [hsend]⟩
  | none =>
    cases hsign : signReceipt fed db row (nowIso turn.made) with
    | error cls => exact .inl ⟨cls, rfl, rfl, rfl⟩
    | ok db' =>
      refine .inr ⟨db', freshReceipt db' row, .inr ⟨hjson, hsign, rfl⟩, ?_⟩
      cases hsend : sendSigned fed cfg db' (freshReceipt db' row) turn with
      | error cls => exact .inl ⟨cls, rfl, by simp only [hsend]⟩
      | ok db'' => exact .inr ⟨db'', rfl, by simp only [hsend]⟩

theorem guardedReceipt_ok {fed : Runtime} {cfg : WorkerConfig} {db db' : Db} {row : ReceiptOutRow}
    {turn : Turn} (h : sendReceipt fed cfg db row turn = (db', .ok ())) :
    guardedReceipt fed cfg db row turn = db' := by rw [guardedReceipt, h]

theorem guardedReceipt_error {fed : Runtime} {cfg : WorkerConfig} {db db' : Db}
    {row : ReceiptOutRow} {turn : Turn} {cls : Str}
    (h : sendReceipt fed cfg db row turn = (db', .error cls)) :
    guardedReceipt fed cfg db row turn = raisedReceipt cfg db' row cls turn.guard := by
  rw [guardedReceipt, h]

/-! ## A cycle -/

/-- The page of a cycle. -/
def pageSize : ℕ := 20

/-- The rows of a page one after the other, each whatever came of the ones before it. -/
def processOutbound (fed : Runtime) (cfg : WorkerConfig) (turn : ℕ → Turn) :
    List OutboundRow → Db → Db
  | [], db => db
  | row :: rows, db =>
    processOutbound fed cfg turn rows (guardedOutbound fed cfg db row (turn row.id))

def processReceipts (fed : Runtime) (cfg : WorkerConfig) (turn : ℕ → Turn) :
    List ReceiptOutRow → Db → Db
  | [], db => db
  | row :: rows, db =>
    processReceipts fed cfg turn rows (guardedReceipt fed cfg db row (turn row.id))

/-- `process_due`, when every write of the store succeeds. -/
def processDue (fed : Runtime) (cfg : WorkerConfig) (now : Time) (turn turn' : ℕ → Turn) (db : Db) :
    Db :=
  let db' := processOutbound fed cfg turn (dueOutbound db now pageSize) db
  processReceipts fed cfg turn' (dueReceipts db' now pageSize) db'

end Federation
end ATalk
