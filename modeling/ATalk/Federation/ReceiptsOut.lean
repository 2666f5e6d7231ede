import ATalk.Federation.Notifications

/-!
# The receipts of an instance

An acknowledgement stores what a receipt will say; the bytes are made later, by the recovery scan or
before the first transmission, and once they are stored they stay. They are signed under the
identity that is loaded then: after a restart with another identity file the issuer and the key id
of a receipt that was not signed yet are no longer the stored ones.

* `scanReceipts` : the receipts of the recovery scan;
* `Dispatches` : one statement of the database, one request, a crash, a restart;
* `Consistent` : what every run keeps between its labels and its tables;
* `receipt_fixed` : when the receipts of a run are fixed statements.
-/

namespace ATalk
namespace Federation

open Text Json Python Transition ATalk.Core Checks

/-! ## The recovery scan -/

/-- `_guarded(_materialize_receipt, row)` -/
def guardedSign (fed : Runtime) (cfg : WorkerConfig) (db : Db) (row : ReceiptOutRow)
    (turn : Turn) : Db :=
  match signReceipt fed db row (nowIso turn.made) with
  | .ok db' => db'
  | .error cls => raisedReceipt cfg db row cls turn.guard

/-- The page of the scan. -/
def scanSize : ℕ := 1000

/-- The receipts that were read unsigned are signed, each by itself. -/
def scanReceipts (fed : Runtime) (cfg : WorkerConfig) (turn : ℕ → Turn) :
    List ReceiptOutRow → Db → Db
  | [], db => db
  | row :: rows, db =>
    scanReceipts fed cfg turn rows
      (match row.signedJson with
      | some _ => db
      | none => guardedSign fed cfg db row (turn row.id))

/-- `recovery_scan`, when every write of the store succeeds. -/
def recoveryScan (fed : Runtime) (cfg : WorkerConfig) (now : Time) (scan turn turn' : ℕ → Turn)
    (db : Db) : Db :=
  processDue fed cfg now turn turn'
    (scanReceipts fed cfg scan (dueReceipts db now scanSize) db)

/-! ## The steps -/

/-- Where the worker is: in the recovery scan, in a cycle, or with a receipt in its hands, as it was
read from the page and as it is now. -/
inductive ReceiptPlace where
  | down
  | idle
  | scan (rows : List ReceiptOutRow)
  | page (rows : List ReceiptOutRow)
  | made (row : ReceiptOutRow) (rows : List ReceiptOutRow)
  | ready (row current : ReceiptOutRow) (rows : List ReceiptOutRow)
  | answered (row current : ReceiptOutRow) (answer : Answer) (rows : List ReceiptOutRow)
  | raised (row : ReceiptOutRow) (cls : Str) (back : ReceiptPlace)

/-- The rows in its hands. -/
def ReceiptPlace.rows : ReceiptPlace → List ReceiptOutRow
  | .scan rows => rows
  | .page rows => rows
  | .made row rows => row :: rows
  | .ready row current rows => row :: current :: rows
  | .answered row current _ rows => row :: current :: rows
  | .raised row _ back => row :: back.rows
  | .down => []
  | .idle => []

/-- The receipt it handles, and where it goes on. -/
def ReceiptPlace.handles : ReceiptPlace → Option (ReceiptOutRow × ReceiptPlace)
  | .scan (row :: rows) => some (row, .scan rows)
  | .page (row :: rows) => some (row, .page rows)
  | .made row rows => some (row, .page rows)
  | .ready row _ rows => some (row, .page rows)
  | .answered row _ _ rows => some (row, .page rows)
  | _ => none

structure Dispatcher where
  db : Db := {}
  fed : Runtime
  place : ReceiptPlace := .down

/-- A receipt fixed by a first acknowledgement, signed under an identity, and on the wire. -/
inductive ReceiptLabel where
  | acknowledged (row : ReceiptOutRow)
  | signed (row : ReceiptOutRow) (identity : Identity)
  | transmitted (row : ReceiptOutRow) (body : Bytes)
  | silent

/-- The row that an acknowledgement has added. -/
def ackLabel (db db' : Db) : ReceiptLabel :=
  match db'.federationReceiptOut.drop db.federationReceiptOut.length with
  | row :: _ => .acknowledged row
  | [] => .silent

/-- What the UPDATE of `materialize_receipt` finds. -/
def signLabel (db : Db) (row : ReceiptOutRow) (identity : Identity) : ReceiptLabel :=
  match db.federationReceiptOut.find? fun r =>
      SameReceipt row r ∧ r.status = .pending ∧ r.signedJson = none with
  | some r => .signed r identity
  | none => .silent

/-- A step of an acknowledgement, of the worker, or of a request that writes other tables. The
identity is the one that was loaded at the start. -/
inductive Dispatches (s : Dispatcher) : ReceiptLabel → Dispatcher → Prop where
  | ack {env : Env} {r : AckRequest} {path : AckPath} {db : Db}
      (h : ackWrite env s.fed s.db r path = .ok db) :
      Dispatches s (ackLabel s.db db) { s with db := db }
  | write {db : Db} (h : db.federationReceiptOut = s.db.federationReceiptOut) :
      Dispatches s .silent { s with db := db }
  | crash : Dispatches s .silent { s with place := .down }
  | restart (fed : Runtime) (h : s.place = .down) : Dispatches s .silent { s with fed := fed }
  | recover (now : Time) (h : s.place = .down) :
      Dispatches s .silent { s with place := .scan (dueReceipts s.db now scanSize) }
  | recoverFails (h : s.place = .down) : Dispatches s .silent { s with place := .idle }
  | recovered (h : s.place = .scan []) : Dispatches s .silent { s with place := .idle }
  | cycle (now : Time) (h : s.place = .idle) :
      Dispatches s .silent { s with place := .page (dueReceipts s.db now pageSize) }
  | finish (h : s.place = .page []) : Dispatches s .silent { s with place := .idle }
  | skip {row : ReceiptOutRow} {rows : List ReceiptOutRow} (h : s.place = .scan (row :: rows))
      (hsigned : row.signedJson ≠ none) : Dispatches s .silent { s with place := .scan rows }
  | scanSign {row : ReceiptOutRow} {rows : List ReceiptOutRow} {now : Time} {db : Db}
      (h : s.place = .scan (row :: rows)) (hnone : row.signedJson = none)
      (hdb : signReceipt s.fed s.db row now = .ok db) :
      Dispatches s (signLabel s.db row s.fed.identity) { s with db := db, place := .scan rows }
  | sign {row : ReceiptOutRow} {rows : List ReceiptOutRow} {now : Time} {db : Db}
      (h : s.place = .page (row :: rows)) (hnone : row.signedJson = none)
      (hdb : signReceipt s.fed s.db row now = .ok db) :
      Dispatches s (signLabel s.db row s.fed.identity) { s with db := db, place := .made row rows }
  | reread {row : ReceiptOutRow} {rows : List ReceiptOutRow} (h : s.place = .made row rows) :
      Dispatches s .silent { s with place := .ready row (freshReceipt s.db row) rows }
  | stored {row : ReceiptOutRow} {rows : List ReceiptOutRow} (h : s.place = .page (row :: rows))
      (hsigned : row.signedJson ≠ none) :
      Dispatches s .silent { s with place := .ready row row rows }
  | unregistered {cfg : WorkerConfig} {row current : ReceiptOutRow} {rows : List ReceiptOutRow}
      {draw : Draw} {db : Db} (h : s.place = .ready row current rows)
      (hfamily : s.fed.registry.receiptsPeer current.origin = none)
      (hdb : applyReceipt s.fed cfg s.db current (.retry (lit "unregistered_family") none) draw =
        .ok db) :
      Dispatches s .silent { s with db := db, place := .page rows }
  | transmit {peer : PeerRecord} {row current : ReceiptOutRow} {rows : List ReceiptOutRow}
      {body : Bytes} (answer : Answer) (h : s.place = .ready row current rows)
      (hfamily : s.fed.registry.receiptsPeer current.origin = some peer)
      (hbody : signedBody current = .ok body) :
      Dispatches s (.transmitted current body)
        { s with place := .answered row current answer rows }
  | apply {cfg : WorkerConfig} {row current : ReceiptOutRow} {outcome : SendOutcome}
      {rows : List ReceiptOutRow} {draw : Draw} {db : Db}
      (h : s.place = .answered row current (.ok outcome) rows)
      (hdb : applyReceipt s.fed cfg s.db current outcome draw = .ok db) :
      Dispatches s .silent { s with db := db, place := .page rows }
  | raise {row : ReceiptOutRow} {back : ReceiptPlace} (cls : Str)
      (h : s.place.handles = some (row, back)) :
      Dispatches s .silent { s with place := .raised row cls back }
  | persist {row : ReceiptOutRow} {cls : Str} {back : ReceiptPlace} (cfg : WorkerConfig)
      (draw : Draw) (h : s.place = .raised row cls back) :
      Dispatches s .silent { s with db := raisedReceipt cfg s.db row cls draw, place := back }
  | persistFails {row : ReceiptOutRow} {cls : Str} {back : ReceiptPlace}
      (h : s.place = .raised row cls back) : Dispatches s .silent { s with place := back }

/-- An instance that has acknowledged nothing and whose worker has not started. -/
def dispatch : System Dispatcher ReceiptLabel where
  init s := s.db.federationReceiptOut = [] ∧ s.place = .down
  step := Dispatches

/-! ## What a receipt says -/

/-- The columns that no step but the signing writes. -/
def kept (r : ReceiptOutRow) : ReceiptOutRow :=
  { r with status := .pending, attempts := 0, nextRetryAt := none, lastError := none, updatedAt := [] }

/-- The columns that the first acknowledgement fixes. -/
def declared (r : ReceiptOutRow) : ReceiptOutRow := { kept r with signedJson := none, sig := none }

/-- What a row declares, issued by a family under a key. -/
def issuedAs (r : ReceiptOutRow) (issuer keyId : Str) : ReceiptFields :=
  ⟨issuer, keyId, r.eventId, r.origin, r.originEventSigHash, r.agent, AckType.text r.ackType,
    r.atTime⟩

/-- What the stored row says. -/
def declaration (r : ReceiptOutRow) : ReceiptFields := issuedAs r r.issuer r.issuerKeyId

/-- The bytes are an envelope with these fields. -/
def Says (body : Bytes) (f : ReceiptFields) : Prop :=
  ∃ sig, canonicalBytes (withSig (signedReceipt f) sig) = some body

/-- The stored original was signed under the identity. -/
def SignedAs (r : ReceiptOutRow) (identity : Identity) : Prop :=
  ∃ sig, r.signedJson =
      some (sorted (withSig (signedReceipt (issuedAs r identity.family identity.keyId)) sig)) ∧
    r.sig = some sig

/-- All transmissions of a receipt are the same bytes, which say what its first acknowledgement
stored. -/
structure FixedStatement (tr : List ReceiptLabel) : Prop where
  same : ∀ row body row' body', .transmitted row body ∈ tr → .transmitted row' body' ∈ tr →
    SameReceipt row row' → body' = body
  stored : ∀ row body, .transmitted row body ∈ tr →
    ∃ first, .acknowledged first ∈ tr ∧ SameReceipt row first ∧ Says body (declaration first)

/-- Every receipt that is on the wire was signed by its stored issuer under its stored key. -/
def SignedByIssuer (tr : List ReceiptLabel) : Prop :=
  ∀ row identity, .signed row identity ∈ tr →
    (∃ sent body, .transmitted sent body ∈ tr ∧ SameReceipt row sent) →
      identity.family = row.issuer ∧ identity.keyId = row.issuerKeyId

variable {r r' row : ReceiptOutRow} {db db' : Db} {identity : Identity} {tr : List ReceiptLabel}
  {s s' : Dispatcher} {label : ReceiptLabel} {f g : ReceiptFields} {body : Bytes}

/-! ## Bytes and fields -/

theorem tidy_receiptEnvelope (f : ReceiptFields) (sig : Str) :
    Tidy (.obj (withSig (signedReceipt f) sig)) := by
  refine ⟨of_decide_eq_true rfl, trivial, trivial, trivial, ⟨of_decide_eq_true rfl, ?_⟩, trivial,
    trivial⟩
  exact ⟨trivial, trivial, trivial, trivial, trivial, trivial, trivial⟩

theorem sorted_receiptEnvelope (f : ReceiptFields) (sig : Str) :
    sorted (withSig (signedReceipt f) sig) =
      [(lit "issuer", .str f.issuer), (lit "key_id", .str f.keyId),
        (lit "kind", .str receiptKind), (lit "receipt", .obj (sorted (receiptObject f))),
        (lit "sig", .str sig)] := rfl

/-- Two receipt envelopes with the same members in canonical order. -/
theorem receiptEnvelope_injective {sig sig' : Str}
    (h : sorted (withSig (signedReceipt f) sig) = sorted (withSig (signedReceipt g) sig')) :
    f = g := by
  obtain ⟨issuer, keyId, eventId, origin, sigHash, agent, ackType, atTime⟩ := f
  obtain ⟨issuer', keyId', eventId', origin', sigHash', agent', ackType', atTime'⟩ := g
  rw [sorted_receiptEnvelope, sorted_receiptEnvelope, sorted_receiptObject,
    sorted_receiptObject] at h
  simp only [List.cons.injEq, Prod.mk.injEq, Json.str.injEq, Json.obj.injEq, true_and, and_true,
    and_assoc] at h
  obtain ⟨rfl, rfl, rfl, rfl, rfl, rfl, rfl, rfl, -⟩ := h
  rfl

/-- The bytes tell the fields. -/
theorem Says.injective (hf : Says body f) (hg : Says body g) : f = g := by
  obtain ⟨sig, hsig⟩ := hf
  obtain ⟨sig', hsig'⟩ := hg
  exact receiptEnvelope_injective (canonicalBytes_injective (tidy_receiptEnvelope f sig)
    (tidy_receiptEnvelope g sig') hsig hsig')

/-- What is transmitted is the stored original. -/
theorem SignedAs.tells (h : SignedAs r identity) (hbody : signedBody r = .ok body) :
    Says body (issuedAs r identity.family identity.keyId) := by
  obtain ⟨sig, hsigned, hsig⟩ := h
  unfold signedBody at hbody
  rw [hsigned, hsig] at hbody
  simp only at hbody
  split at hbody
  · cases hbody
  · next raw hraw =>
    cases hbody
    exact ⟨sig, hraw⟩

/-! ## What a step does to the table -/

/-- Nothing but what has become of the receipts is written. -/
def Retains (db db' : Db) : Prop :=
  db'.federationReceiptOut.map kept = db.federationReceiptOut.map kept

theorem Retains.of_eq (h : db'.federationReceiptOut = db.federationReceiptOut) : Retains db db' :=
  congrArg (List.map kept) h

theorem Retains.back (h : Retains db db') (hr : r' ∈ db'.federationReceiptOut) :
    ∃ r ∈ db.federationReceiptOut, kept r = kept r' := by
  have hmem := List.mem_map_of_mem (f := kept) hr
  rw [h] at hmem
  exact List.mem_map.mp hmem

theorem Retains.forth (h : Retains db db') (hr : r ∈ db.federationReceiptOut) :
    ∃ r' ∈ db'.federationReceiptOut, kept r' = kept r := by
  have hmem := List.mem_map_of_mem (f := kept) hr
  rw [← h] at hmem
  exact List.mem_map.mp hmem

theorem updateReceipt_retains (db : Db) (row : ReceiptOutRow) {f : ReceiptOutRow → ReceiptOutRow}
    (hf : ∀ r, kept (f r) = kept r) : Retains db (updateReceipt db row f) := by
  show (List.map _ _).map kept = _
  rw [List.map_map]
  refine List.map_congr_left fun r _ => ?_
  show kept (if _ then f r else r) = kept r
  split_ifs
  · exact hf r
  · rfl

theorem failReceiptPermanent_retains (fed : Runtime) (db : Db) (row : ReceiptOutRow) (error : Str)
    (now : Time) : Retains db (failReceiptPermanent fed db row error now) := by
  unfold failReceiptPermanent
  split
  · exact .of_eq rfl
  · rw [Retains, insertNotification_receipts, List.map_map]
    refine List.map_congr_left fun r _ => ?_
    show kept (if _ then _ else r) = kept r
    split_ifs <;> rfl

theorem applyReceipt_retains {fed : Runtime} {cfg : WorkerConfig} {outcome : SendOutcome}
    {draw : Draw} (h : applyReceipt fed cfg db row outcome draw = .ok db') : Retains db db' := by
  cases outcome with
  | sent =>
    cases h
    exact updateReceipt_retains _ _ fun _ => rfl
  | permanent error =>
    cases h
    exact failReceiptPermanent_retains ..
  | retry error retryAfter =>
    simp only [applyReceipt] at h
    split at h
    · cases h
    · cases h
      exact updateReceipt_retains _ _ fun _ => rfl

theorem raisedReceipt_retains (cfg : WorkerConfig) (db : Db) (row : ReceiptOutRow) (cls : Str)
    (draw : Draw) : Retains db (raisedReceipt cfg db row cls draw) := by
  unfold raisedReceipt
  split
  · exact .of_eq rfl
  · exact updateReceipt_retains _ _ fun _ => rfl

theorem declared_of_kept (h : kept r = kept r') : declared r = declared r' := by
  rw [declared, declared, h]

theorem SameReceipt.of_declared (h : declared r = declared r') : SameReceipt r r' :=
  ⟨(congrArg ReceiptOutRow.eventId h.symm :), (congrArg ReceiptOutRow.agent h.symm :),
    (congrArg ReceiptOutRow.ackType h.symm :)⟩

theorem issuedAs_of_declared (h : declared r = declared r') (issuer keyId : Str) :
    issuedAs r issuer keyId = issuedAs r' issuer keyId :=
  (congrArg (fun q => issuedAs q issuer keyId) h :)

theorem declaration_of_declared (h : declared r = declared r') : declaration r = declaration r' :=
  (congrArg declaration h :)

theorem SignedAs.congr (h : SignedAs r identity) (hkept : kept r = kept r') :
    SignedAs r' identity :=
  (congrArg (SignedAs · identity) hkept :) ▸ h

theorem signedBody_congr (h : kept r = kept r') : signedBody r = signedBody r' :=
  (congrArg signedBody h :)

/-- An acknowledgement leaves the receipts as they are, or adds one that was not there. -/
theorem ackWrite_receipts {env : Env} {fed : Runtime} {q : AckRequest} {path : AckPath}
    (h : ackWrite env fed db q path = .ok db') :
    db'.federationReceiptOut = db.federationReceiptOut ∨
    ∃ row, db'.federationReceiptOut = db.federationReceiptOut ++ [row] ∧ row.signedJson = none ∧
      ∀ r ∈ db.federationReceiptOut, ¬ SameReceipt row r := by
  cases path with
  | localPath =>
    simp only [ackWrite, ackEvent, bind_eq_ok] at h
    obtain ⟨_, -, _, -, _, -, _, -, h⟩ := h
    obtain ⟨acks, rfl⟩ := writeAck_acks h
    exact .inl rfl
  | federated inb eventId agentId ackType sigHash =>
    simp only [ackWrite, ackWithReceiptIntent, bind_eq_ok] at h
    obtain ⟨_, -, db₁, hdb₁, h⟩ := h
    obtain ⟨acks, rfl⟩ := writeAck_acks hdb₁
    split_ifs at h with hthere
    · cases h
      exact .inl rfl
    · cases h
      refine .inr ⟨_, rfl, rfl, ?_⟩
      rintro r hr ⟨hevent, hagent, htype⟩
      refine hthere (List.any_eq_true.mpr ⟨r, hr, ?_⟩)
      simpa [receiptOutRow, and_assoc] using And.intro hevent (And.intro hagent htype)

/-- A composed receipt is the envelope of its fields, signed. -/
theorem composeReceipt_ok {crypto : Crypto} {eventId origin sigHash agent ackType atTime : Str}
    {envelope : List (Str × Json)}
    (h : composeReceipt crypto identity eventId origin sigHash agent ackType atTime =
      .ok envelope) :
    ∃ sig, envelope = withSig (signedReceipt ⟨identity.family, identity.keyId, eventId, origin,
      sigHash, agent, ackType, atTime⟩) sig := by
  unfold composeReceipt compose at h
  split at h
  · cases h
  · simp only [bind_eq_ok, pure_eq_ok] at h
    obtain ⟨_, -, rfl⟩ := h
    exact ⟨_, rfl⟩

/-- What the signing makes of a row. -/
def written (row : ReceiptOutRow) (json : List (Str × Json)) (sig : Str) (now : Time)
    (r : ReceiptOutRow) : ReceiptOutRow :=
  if SameReceipt row r ∧ r.status = .pending then
    match r.signedJson with
    | some _ => r
    | none => { r with signedJson := some json, sig := some sig, updatedAt := now }
  else r

variable {json : List (Str × Json)} {sig : Str} {now : Time}

theorem declared_written (r : ReceiptOutRow) : declared (written row json sig now r) = declared r := by
  unfold written
  split_ifs
  · split <;> rfl
  · rfl

theorem written_of_signed (h : r.signedJson ≠ none) : written row json sig now r = r := by
  unfold written
  split_ifs
  · split
    · rfl
    · contradiction
  · rfl

theorem written_of_unsigned (hsame : SameReceipt row r) (hpending : r.status = .pending)
    (hnone : r.signedJson = none) :
    written row json sig now r = { r with signedJson := some json, sig := some sig, updatedAt := now } := by
  unfold written
  rw [if_pos ⟨hsame, hpending⟩, hnone]

theorem written_cases (r : ReceiptOutRow) : written row json sig now r = r ∨
    SameReceipt row r ∧ r.status = .pending ∧ r.signedJson = none := by
  unfold written
  split_ifs with h
  · split
    · exact .inl rfl
    · next hnone => exact .inr ⟨h.1, h.2, hnone⟩
  · exact .inl rfl

/-- The envelope that an identity signs for a row. -/
def original (row : ReceiptOutRow) (identity : Identity) (sig : Str) : List (Str × Json) :=
  sorted (withSig (signedReceipt (issuedAs row identity.family identity.keyId)) sig)

theorem signedAs_written (hdeclared : declared r = declared row) (hpending : r.status = .pending)
    (hnone : r.signedJson = none) :
    SignedAs (written row (original row identity sig) sig now r) identity := by
  rw [written_of_unsigned (.of_declared hdeclared.symm) hpending hnone]
  refine ⟨sig, ?_, rfl⟩
  show some (original row identity sig) = _
  rw [original, ← issuedAs_of_declared hdeclared]
  rfl

/-- The signing writes the original of the pending receipts that have none. -/
theorem signReceipt_writes {fed : Runtime} {now : Time}
    (h : signReceipt fed db row now = .ok db') :
    ∃ sig, db'.federationReceiptOut =
      db.federationReceiptOut.map (written row (original row fed.identity sig) sig now) := by
  unfold signReceipt at h
  split at h
  · cases h
  · next envelope henvelope =>
    cases h
    obtain ⟨sig, rfl⟩ := composeReceipt_ok henvelope
    exact ⟨sig, rfl⟩

/-! ## The labels of a run and its tables -/

def keyOf (r : ReceiptOutRow) : Str × Str × AckType := (r.eventId, r.agent, r.ackType)

theorem keyOf_eq : keyOf r' = keyOf r ↔ SameReceipt r r' := by
  simp only [keyOf, SameReceipt, Prod.mk.injEq]

theorem map_keyOf_of_declared {rows rows' : List ReceiptOutRow}
    (h : rows'.map declared = rows.map declared) : rows'.map keyOf = rows.map keyOf := by
  have hmap := congrArg (List.map keyOf) h
  rw [List.map_map, List.map_map] at hmap
  exact hmap

/-- A row in the hands of the worker is the stored one, or was read before that one was signed. -/
def Mirrors (db : Db) (row : ReceiptOutRow) : Prop :=
  ∃ r ∈ db.federationReceiptOut, declared r = declared row ∧
    (row.signedJson = none ∨ kept r = kept row)

theorem Mirrors.of_mem (h : r ∈ db.federationReceiptOut) : Mirrors db r :=
  ⟨r, h, rfl, .inr rfl⟩

theorem Mirrors.retain (h : Mirrors db row) (hkept : Retains db db') : Mirrors db' row := by
  obtain ⟨r, hr, hdeclared, hsigned⟩ := h
  obtain ⟨r', hr', heq⟩ := hkept.forth hr
  refine ⟨r', hr', (declared_of_kept heq).trans hdeclared, ?_⟩
  exact hsigned.imp_right fun hsame => heq.trans hsame

theorem Mirrors.append {rows : List ReceiptOutRow} (h : Mirrors db row)
    (hdb : db'.federationReceiptOut = db.federationReceiptOut ++ rows) : Mirrors db' row := by
  obtain ⟨r, hr, hrest⟩ := h
  exact ⟨r, hdb ▸ List.mem_append_left _ hr, hrest⟩

theorem Mirrors.write (h : Mirrors db row)
    (hdb : db'.federationReceiptOut = db.federationReceiptOut.map (written r json sig now)) :
    Mirrors db' row := by
  obtain ⟨q, hq, hdeclared, hsigned⟩ := h
  have hmem : written r json sig now q ∈ db'.federationReceiptOut :=
    hdb ▸ List.mem_map_of_mem hq
  refine ⟨_, hmem, (declared_written q).trans hdeclared, ?_⟩
  by_cases hnone : row.signedJson = none
  · exact .inl hnone
  · have hsame : kept q = kept row := hsigned.resolve_left hnone
    have hq : q.signedJson ≠ none := by
      have hjson : q.signedJson = row.signedJson := (congrArg ReceiptOutRow.signedJson hsame :)
      rwa [hjson]
    rw [written_of_signed hq]
    exact .inr hsame

/-- What every run keeps between its labels and its tables. -/
structure Consistent (tr : List ReceiptLabel) (s : Dispatcher) : Prop where
  keys : (s.db.federationReceiptOut.map keyOf).Nodup
  acked : ∀ r ∈ s.db.federationReceiptOut, ∃ row, .acknowledged row ∈ tr ∧ declared row = declared r
  stored : ∀ row, .acknowledged row ∈ tr →
    ∃ r ∈ s.db.federationReceiptOut, declared r = declared row
  signed : ∀ r ∈ s.db.federationReceiptOut, r.signedJson ≠ none →
    ∃ row identity, .signed row identity ∈ tr ∧ declared row = declared r ∧ SignedAs r identity
  made : ∀ row identity, .signed row identity ∈ tr →
    ∃ r ∈ s.db.federationReceiptOut, declared r = declared row ∧ SignedAs r identity
  sent : ∀ row body, .transmitted row body ∈ tr →
    ∃ r ∈ s.db.federationReceiptOut, SameReceipt row r ∧ signedBody r = .ok body
  held : ∀ row ∈ s.place.rows, Mirrors s.db row

theorem Consistent.same (h : Consistent tr s) (hr : r ∈ s.db.federationReceiptOut)
    (hr' : r' ∈ s.db.federationReceiptOut) (hsame : SameReceipt r r') : r' = r :=
  List.inj_on_of_nodup_map h.keys hr' hr (keyOf_eq.mpr hsame)

theorem mem_concat_of_ne {l l' : ReceiptLabel} (h : l ∈ tr ++ [l']) (hne : l ≠ l') : l ∈ tr := by
  rcases List.mem_append.mp h with h | h
  · exact h
  · exact absurd (List.mem_singleton.mp h) hne

/-- A step that neither acknowledges nor signs. -/
theorem Consistent.retain (h : Consistent tr s) (hkept : Retains s.db s'.db)
    (hack : ∀ row, ReceiptLabel.acknowledged row ≠ label)
    (hsign : ∀ row identity, ReceiptLabel.signed row identity ≠ label)
    (hsent : ∀ row body, ReceiptLabel.transmitted row body = label →
      ∃ r ∈ s.db.federationReceiptOut, SameReceipt row r ∧ signedBody r = .ok body)
    (hheld : ∀ row ∈ s'.place.rows, Mirrors s.db row) : Consistent (tr ++ [label]) s' := by
  refine ⟨?_, fun r' hr' => ?_, fun row hrow => ?_, fun r' hr' hsigned => ?_,
    fun row identity hrow => ?_, fun row body hrow => ?_, fun row hrow => ?_⟩
  · have hmap : s'.db.federationReceiptOut.map declared = s.db.federationReceiptOut.map declared := by
      have hdeclared := congrArg (List.map declared) hkept
      rw [List.map_map, List.map_map] at hdeclared
      exact hdeclared
    rw [map_keyOf_of_declared hmap]
    exact h.keys
  · obtain ⟨r, hr, heq⟩ := hkept.back hr'
    obtain ⟨row, hrow, hdeclared⟩ := h.acked r hr
    exact ⟨row, List.mem_append_left _ hrow, hdeclared.trans (declared_of_kept heq)⟩
  · obtain ⟨r, hr, hdeclared⟩ := h.stored row (mem_concat_of_ne hrow (hack row))
    obtain ⟨r', hr', heq⟩ := hkept.forth hr
    exact ⟨r', hr', (declared_of_kept heq).trans hdeclared⟩
  · obtain ⟨r, hr, heq⟩ := hkept.back hr'
    have hjson : r.signedJson = r'.signedJson := (congrArg ReceiptOutRow.signedJson heq :)
    obtain ⟨row, identity, hrow, hdeclared, has⟩ := h.signed r hr (hjson ▸ hsigned)
    exact ⟨row, identity, List.mem_append_left _ hrow, hdeclared.trans (declared_of_kept heq),
      has.congr heq⟩
  · obtain ⟨r, hr, hdeclared, has⟩ := h.made row identity (mem_concat_of_ne hrow (hsign row identity))
    obtain ⟨r', hr', heq⟩ := hkept.forth hr
    exact ⟨r', hr', (declared_of_kept heq).trans hdeclared, has.congr heq.symm⟩
  · have hold : ∃ r ∈ s.db.federationReceiptOut, SameReceipt row r ∧ signedBody r = .ok body := by
      rcases List.mem_append.mp hrow with hrow | hrow
      · exact h.sent row body hrow
      · exact hsent row body (List.mem_singleton.mp hrow)
    obtain ⟨r, hr, hsame, hbody⟩ := hold
    obtain ⟨r', hr', heq⟩ := hkept.forth hr
    exact ⟨r', hr', hsame.trans (.of_declared (declared_of_kept heq.symm)),
      (signedBody_congr heq).trans hbody⟩
  · exact (hheld row hrow).retain hkept

/-- A step of the worker or of another request: nothing is signed, nothing is on the wire. -/
theorem Consistent.silent (h : Consistent tr s) (hkept : Retains s.db s'.db)
    (hheld : ∀ row ∈ s'.place.rows, Mirrors s.db row) : Consistent (tr ++ [.silent]) s' :=
  h.retain hkept nofun nofun nofun hheld

/-- The first acknowledgement of a receipt. -/
theorem Consistent.acknowledge (h : Consistent tr s)
    (hdb : s'.db.federationReceiptOut = s.db.federationReceiptOut ++ [row])
    (hnone : row.signedJson = none)
    (hfresh : ∀ r ∈ s.db.federationReceiptOut, ¬ SameReceipt row r) (hplace : s'.place = s.place) :
    Consistent (tr ++ [.acknowledged row]) s' := by
  have hmem : ∀ {r}, r ∈ s'.db.federationReceiptOut ↔ r ∈ s.db.federationReceiptOut ∨ r = row := by
    intro r
    rw [hdb, List.mem_append, List.mem_singleton]
  refine ⟨?_, fun r hr => ?_, fun row' hrow' => ?_, fun r hr hsigned => ?_,
    fun row' identity hrow' => ?_, fun row' body hrow' => ?_, fun row' hrow' => ?_⟩
  · rw [hdb, List.map_append, List.map_singleton, ← List.concat_eq_append]
    refine h.keys.concat fun hkey => ?_
    obtain ⟨r, hr, heq⟩ := List.mem_map.mp hkey
    exact hfresh r hr (keyOf_eq.mp heq)
  · rcases hmem.mp hr with hr | rfl
    · obtain ⟨first, hfirst, hdeclared⟩ := h.acked r hr
      exact ⟨first, List.mem_append_left _ hfirst, hdeclared⟩
    · exact ⟨r, List.mem_append_right _ (List.mem_singleton_self _), rfl⟩
  · rcases List.mem_append.mp hrow' with hrow' | hrow'
    · obtain ⟨r, hr, hdeclared⟩ := h.stored row' hrow'
      exact ⟨r, hmem.mpr (.inl hr), hdeclared⟩
    · cases List.mem_singleton.mp hrow'
      exact ⟨row, hmem.mpr (.inr rfl), rfl⟩
  · rcases hmem.mp hr with hr | rfl
    · obtain ⟨first, identity, hfirst, hrest⟩ := h.signed r hr hsigned
      exact ⟨first, identity, List.mem_append_left _ hfirst, hrest⟩
    · exact absurd hnone hsigned
  · obtain ⟨r, hr, hrest⟩ := h.made row' identity (mem_concat_of_ne hrow' nofun)
    exact ⟨r, hmem.mpr (.inl hr), hrest⟩
  · obtain ⟨r, hr, hrest⟩ := h.sent row' body (mem_concat_of_ne hrow' nofun)
    exact ⟨r, hmem.mpr (.inl hr), hrest⟩
  · rw [hplace] at hrow'
    exact (h.held row' hrow').append hdb

/-- The signing of a receipt that was read before. -/
theorem Consistent.sign (h : Consistent tr s) (hrow : Mirrors s.db row)
    (hdb : s'.db.federationReceiptOut =
      s.db.federationReceiptOut.map (written row (original row identity sig) sig now))
    (hheld : ∀ row ∈ s'.place.rows, Mirrors s.db row) :
    Consistent (tr ++ [signLabel s.db row identity]) s' := by
  cases hfind : s.db.federationReceiptOut.find? fun r =>
      SameReceipt row r ∧ r.status = .pending ∧ r.signedJson = none with
  | none =>
    -- the UPDATE finds no row
    have hsame : s'.db.federationReceiptOut = s.db.federationReceiptOut := by
      rw [hdb, List.map_congr_left (g := fun r => r) fun r hr => ?_, List.map_id']
      refine (written_cases r).resolve_right fun hnew => ?_
      have hno := List.find?_eq_none.mp hfind r hr
      simp only [decide_eq_true_eq] at hno
      exact hno hnew
    rw [signLabel, hfind]
    exact h.silent (.of_eq hsame) hheld
  | some found =>
    have hfound := List.mem_of_find?_eq_some hfind
    have hmatch := List.find?_some hfind
    simp only [decide_eq_true_eq] at hmatch
    obtain ⟨hkey, hpending, hnone⟩ := hmatch
    have hdeclared : declared found = declared row := by
      obtain ⟨r, hr, heq, -⟩ := hrow
      rw [← h.same hfound hr (hkey.symm.trans (.of_declared heq.symm))]
      exact heq
    have hlabel : signLabel s.db row identity = .signed found identity := by
      rw [signLabel, hfind]
    rw [hlabel]
    have hforth : ∀ {r}, r ∈ s.db.federationReceiptOut →
        written row (original row identity sig) sig now r ∈ s'.db.federationReceiptOut :=
      fun hr => hdb ▸ List.mem_map_of_mem hr
    refine ⟨?_, fun r' hr' => ?_, fun first hfirst => ?_, fun r' hr' hsigned => ?_,
      fun first identity' hfirst => ?_, fun sent body hsent => ?_, fun r hr => ?_⟩
    · have hmap : s'.db.federationReceiptOut.map declared =
          s.db.federationReceiptOut.map declared := by
        rw [hdb, List.map_map]
        exact List.map_congr_left fun r _ => declared_written r
      rw [map_keyOf_of_declared hmap]
      exact h.keys
    · rw [hdb] at hr'
      obtain ⟨r, hr, rfl⟩ := List.mem_map.mp hr'
      obtain ⟨first, hfirst, heq⟩ := h.acked r hr
      exact ⟨first, List.mem_append_left _ hfirst, heq.trans (declared_written r).symm⟩
    · obtain ⟨r, hr, heq⟩ := h.stored first (mem_concat_of_ne hfirst nofun)
      exact ⟨_, hforth hr, (declared_written r).trans heq⟩
    · rw [hdb] at hr'
      obtain ⟨r, hr, rfl⟩ := List.mem_map.mp hr'
      rcases written_cases r with hold | ⟨hsame, -, -⟩
      · rw [hold] at hsigned ⊢
        obtain ⟨first, identity', hfirst, hrest⟩ := h.signed r hr hsigned
        exact ⟨first, identity', List.mem_append_left _ hfirst, hrest⟩
      · cases h.same hfound hr (hkey.symm.trans hsame)
        exact ⟨found, identity, List.mem_append_right _ (List.mem_singleton_self _),
          (declared_written found).symm, signedAs_written hdeclared hpending hnone⟩
    · rcases List.mem_append.mp hfirst with hfirst | hfirst
      · obtain ⟨r, hr, heq, has⟩ := h.made first identity' hfirst
        have hsigned : r.signedJson ≠ none := by
          obtain ⟨_, hjson, -⟩ := has
          rw [hjson]
          nofun
        refine ⟨r, ?_, heq, has⟩
        have hmem := hforth hr
        rwa [written_of_signed hsigned] at hmem
      · cases List.mem_singleton.mp hfirst
        exact ⟨_, hforth hfound, declared_written _, signedAs_written hdeclared hpending hnone⟩
    · obtain ⟨r, hr, hsame, hbody⟩ := h.sent sent body (mem_concat_of_ne hsent nofun)
      have hsigned : r.signedJson ≠ none := by
        intro hnone
        unfold signedBody at hbody
        rw [hnone] at hbody
        cases hbody
      refine ⟨r, ?_, hsame, hbody⟩
      have hmem := hforth hr
      rwa [written_of_signed hsigned] at hmem
    · exact (hheld r hr).write hdb

/-! ## Every run -/

theorem mem_of_mem_dueReceipts {limit : ℕ} (h : row ∈ dueReceipts db now limit) :
    row ∈ db.federationReceiptOut := by
  have hmem := (List.mem_insertionSort _).mp (List.mem_of_mem_take h)
  exact List.mem_of_mem_filter hmem

theorem ackLabel_same (h : db'.federationReceiptOut = db.federationReceiptOut) :
    ackLabel db db' = .silent := by
  rw [ackLabel, h, List.drop_length]

theorem ackLabel_append (h : db'.federationReceiptOut = db.federationReceiptOut ++ [row]) :
    ackLabel db db' = .acknowledged row := by
  rw [ackLabel, h, List.drop_left]

theorem ReceiptPlace.rows_of_handles {place back : ReceiptPlace}
    (h : place.handles = some (row, back)) : ∀ q ∈ row :: back.rows, q ∈ place.rows := by
  match place, h with
  | .scan (_ :: _), rfl => exact fun q hq => hq
  | .page (_ :: _), rfl => exact fun q hq => hq
  | .made _ _, rfl => exact fun q hq => hq
  | .ready _ _ _, rfl =>
    exact fun q hq => (List.mem_cons.mp hq).elim (fun h => h ▸ List.mem_cons_self)
      fun h => List.mem_cons_of_mem _ (List.mem_cons_of_mem _ h)
  | .answered _ _ _ _, rfl =>
    exact fun q hq => (List.mem_cons.mp hq).elim (fun h => h ▸ List.mem_cons_self)
      fun h => List.mem_cons_of_mem _ (List.mem_cons_of_mem _ h)

theorem freshReceipt_mirrors (h : Mirrors db row) : Mirrors db (freshReceipt db row) := by
  unfold freshReceipt
  cases hfind : db.federationReceiptOut.find? fun r => SameReceipt row r with
  | none => exact h
  | some r => exact .of_mem (List.mem_of_find?_eq_some hfind)

theorem Consistent.move (h : Consistent tr s) (hmove : Dispatches s label s') :
    Consistent (tr ++ [label]) s' := by
  have hheld := h.held
  cases hmove with
  | @ack env r path db hwrite =>
    rcases ackWrite_receipts hwrite with hsame | ⟨row, hout, hnone, hfresh⟩
    · rw [ackLabel_same hsame]
      exact h.silent (.of_eq hsame) hheld
    · rw [ackLabel_append hout]
      exact h.acknowledge hout hnone hfresh rfl
  | write hsame => exact h.silent (.of_eq hsame) hheld
  | crash => exact h.silent (.of_eq rfl) nofun
  | restart fed hplace => exact h.silent (.of_eq rfl) hheld
  | recover now hplace =>
    exact h.silent (.of_eq rfl) fun row hrow => .of_mem (mem_of_mem_dueReceipts hrow)
  | recoverFails hplace => exact h.silent (.of_eq rfl) nofun
  | recovered hplace => exact h.silent (.of_eq rfl) nofun
  | cycle now hplace =>
    exact h.silent (.of_eq rfl) fun row hrow => .of_mem (mem_of_mem_dueReceipts hrow)
  | finish hplace => exact h.silent (.of_eq rfl) nofun
  | skip hplace hsigned =>
    rw [hplace] at hheld
    exact h.silent (.of_eq rfl) fun q hq => hheld q (List.mem_cons_of_mem _ hq)
  | scanSign hplace hnone hdb =>
    rw [hplace] at hheld
    obtain ⟨sig, hout⟩ := signReceipt_writes hdb
    exact h.sign (hheld _ List.mem_cons_self) hout fun q hq => hheld q (List.mem_cons_of_mem _ hq)
  | sign hplace hnone hdb =>
    rw [hplace] at hheld
    obtain ⟨sig, hout⟩ := signReceipt_writes hdb
    exact h.sign (hheld _ List.mem_cons_self) hout hheld
  | @reread row rows hplace =>
    rw [hplace] at hheld
    have hrow := hheld row List.mem_cons_self
    refine h.silent (.of_eq rfl) fun q hq => ?_
    rcases List.mem_cons.mp hq with rfl | hq
    · exact hrow
    · rcases List.mem_cons.mp hq with rfl | hq
      · exact freshReceipt_mirrors hrow
      · exact hheld q (List.mem_cons_of_mem _ hq)
  | @stored row rows hplace hsigned =>
    rw [hplace] at hheld
    refine h.silent (.of_eq rfl) fun q hq => ?_
    rcases List.mem_cons.mp hq with rfl | hq
    · exact hheld q List.mem_cons_self
    · exact hheld q hq
  | unregistered hplace hfamily hdb =>
    rw [hplace] at hheld
    exact h.silent (applyReceipt_retains hdb) fun q hq =>
      hheld q (List.mem_cons_of_mem _ (List.mem_cons_of_mem _ hq))
  | @transmit peer row current rows body answer hplace hfamily hbody =>
    rw [hplace] at hheld
    obtain ⟨r, hr, hdeclared, hsigned⟩ :=
      hheld current (List.mem_cons_of_mem _ List.mem_cons_self)
    have hsome : current.signedJson ≠ none := by
      intro hnone
      unfold signedBody at hbody
      rw [hnone] at hbody
      cases hbody
    refine h.retain (.of_eq rfl) nofun nofun (fun sent body' heq => ?_) hheld
    cases heq
    exact ⟨r, hr, .of_declared hdeclared.symm,
      (signedBody_congr (hsigned.resolve_left hsome)).trans hbody⟩
  | apply hplace hdb =>
    rw [hplace] at hheld
    exact h.silent (applyReceipt_retains hdb) fun q hq =>
      hheld q (List.mem_cons_of_mem _ (List.mem_cons_of_mem _ hq))
  | raise cls hplace =>
    exact h.silent (.of_eq rfl) fun q hq => hheld q (ReceiptPlace.rows_of_handles hplace q hq)
  | persist cfg draw hplace =>
    rw [hplace] at hheld
    exact h.silent (raisedReceipt_retains ..) fun q hq => hheld q (List.mem_cons_of_mem _ hq)
  | persistFails hplace =>
    rw [hplace] at hheld
    exact h.silent (.of_eq rfl) fun q hq => hheld q (List.mem_cons_of_mem _ hq)

theorem consistent_of_trace {start : Dispatcher} (hinit : dispatch.init start)
    (h : Trace dispatch start tr s) : Consistent tr s := by
  refine h.invariant (.init hinit) ?_ fun _ _ _ _ _ hrec hstep => hrec.move hstep
  obtain ⟨hout, hplace⟩ := hinit
  refine ⟨by rw [hout]; exact List.nodup_nil, fun r hr => ?_, nofun, fun r hr => ?_, nofun, nofun,
    fun row hrow => ?_⟩
  · rw [hout] at hr
    cases hr
  · rw [hout] at hr
    cases hr
  · rw [hplace] at hrow
    cases hrow

/-! ## The scan and the cycle are made of these steps -/

/-- After an exception the row is put off, and the worker goes on. -/
theorem raised_trace (fed : Runtime) (cfg : WorkerConfig) (db : Db) (cls : Str) (draw : Draw)
    {place back : ReceiptPlace} (h : place.handles = some (row, back)) :
    Trace dispatch ⟨db, fed, place⟩ [.silent, .silent]
      ⟨raisedReceipt cfg db row cls draw, fed, back⟩ := by
  have hraise : Dispatches ⟨db, fed, place⟩ .silent ⟨db, fed, .raised row cls back⟩ := .raise cls h
  have hpersist : Dispatches ⟨db, fed, .raised row cls back⟩ .silent
    ⟨raisedReceipt cfg db row cls draw, fed, back⟩ := .persist cfg draw rfl
  exact .snoc (.snoc .nil hraise) hpersist

/-- A signed receipt is sent, or put off. -/
theorem sendSigned_trace (fed : Runtime) (cfg : WorkerConfig) (db : Db) (row current : ReceiptOutRow)
    (turn : Turn) (rows : List ReceiptOutRow) : ∃ tr,
      Trace dispatch ⟨db, fed, .ready row current rows⟩ tr
        ⟨match sendSigned fed cfg db current turn with
          | .ok db' => db'
          | .error cls => raisedReceipt cfg db row cls turn.guard, fed, .page rows⟩ := by
  have hready : (ReceiptPlace.ready row current rows).handles = some (row, .page rows) := rfl
  unfold sendSigned
  cases hfamily : fed.registry.receiptsPeer current.origin with
  | none =>
    cases hdb : applyReceipt fed cfg db current (.retry (lit "unregistered_family") none)
        turn.send with
    | error cls => exact ⟨_, raised_trace fed cfg db cls turn.guard hready⟩
    | ok db' => exact ⟨_, .snoc .nil (.unregistered rfl hfamily hdb)⟩
  | some peer =>
    cases hbody : signedBody current with
    | error cls => exact ⟨_, raised_trace fed cfg db cls turn.guard hready⟩
    | ok body =>
      have hsent : Trace dispatch ⟨db, fed, .ready row current rows⟩
          ([] ++ [.transmitted current body])
          ⟨db, fed, .answered row current turn.answer rows⟩ :=
        .snoc .nil (.transmit turn.answer rfl hfamily hbody)
      have hanswered : (ReceiptPlace.answered row current turn.answer rows).handles =
        some (row, .page rows) := rfl
      cases hanswer : turn.answer with
      | error cls => exact ⟨_, hsent.append (raised_trace fed cfg db cls turn.guard hanswered)⟩
      | ok outcome =>
        cases hdb : applyReceipt fed cfg db current outcome turn.send with
        | error cls =>
          simp only [hdb]
          exact ⟨_, hsent.append (raised_trace fed cfg db cls turn.guard hanswered)⟩
        | ok db' =>
          simp only [hdb]
          rw [hanswer] at hsent
          exact ⟨_, hsent.snoc (.apply rfl hdb)⟩

/-- A receipt of a page is handled in a few steps. -/
theorem guardedReceipt_trace (fed : Runtime) (cfg : WorkerConfig) (db : Db) (row : ReceiptOutRow)
    (turn : Turn) (rows : List ReceiptOutRow) : ∃ tr,
      Trace dispatch ⟨db, fed, .page (row :: rows)⟩ tr
        ⟨guardedReceipt fed cfg db row turn, fed, .page rows⟩ := by
  rcases sendReceipt_cases fed cfg db row turn with ⟨cls, -, -, hsend⟩ | ⟨d, current, hready, hsend⟩
  · rw [guardedReceipt_error hsend]
    exact ⟨_, raised_trace fed cfg db cls turn.guard rfl⟩
  · -- up to the row that is sent
    obtain ⟨before, hbefore⟩ : ∃ tr, Trace dispatch ⟨db, fed, .page (row :: rows)⟩ tr
        ⟨d, fed, .ready row current rows⟩ := by
      rcases hready with ⟨hjson, rfl, rfl⟩ | ⟨hjson, hmade, rfl⟩
      · exact ⟨_, Trace.nil.snoc (.stored rfl hjson)⟩
      · have hsign : Dispatches ⟨db, fed, .page (row :: rows)⟩ (signLabel db row fed.identity)
            ⟨d, fed, .made row rows⟩ := .sign rfl hjson hmade
        have hreread : Dispatches ⟨d, fed, .made row rows⟩ .silent
            ⟨d, fed, .ready row (freshReceipt d row) rows⟩ := .reread rfl
        exact ⟨_, (Trace.nil.snoc hsign).snoc hreread⟩
    obtain ⟨tr, htrace⟩ := sendSigned_trace fed cfg d row current turn rows
    refine ⟨before ++ tr, hbefore.append ?_⟩
    rcases hsend with ⟨cls, hsigned, hsend⟩ | ⟨d', hsigned, hsend⟩
    · rw [guardedReceipt_error hsend]
      rw [hsigned] at htrace
      exact htrace
    · rw [guardedReceipt_ok hsend]
      rw [hsigned] at htrace
      exact htrace

/-- The receipts of a cycle are a run. -/
theorem processReceipts_trace (fed : Runtime) (cfg : WorkerConfig) (turn : ℕ → Turn)
    (rows : List ReceiptOutRow) (db : Db) : ∃ tr,
      Trace dispatch ⟨db, fed, .page rows⟩ tr
        ⟨processReceipts fed cfg turn rows db, fed, .page []⟩ := by
  induction rows generalizing db with
  | nil => exact ⟨[], .nil⟩
  | cons row rows ih =>
    obtain ⟨tr, hone⟩ := guardedReceipt_trace fed cfg db row (turn row.id) rows
    obtain ⟨tr', hrest⟩ := ih (guardedReceipt fed cfg db row (turn row.id))
    exact ⟨tr ++ tr', hone.append hrest⟩

/-- The receipts of the recovery scan are a run. -/
theorem scanReceipts_trace (fed : Runtime) (cfg : WorkerConfig) (turn : ℕ → Turn)
    (rows : List ReceiptOutRow) (db : Db) : ∃ tr,
      Trace dispatch ⟨db, fed, .scan rows⟩ tr
        ⟨scanReceipts fed cfg turn rows db, fed, .scan []⟩ := by
  induction rows generalizing db with
  | nil => exact ⟨[], .nil⟩
  | cons row rows ih =>
    unfold scanReceipts
    cases hjson : row.signedJson with
    | some json =>
      have hskip : Dispatches ⟨db, fed, .scan (row :: rows)⟩ .silent ⟨db, fed, .scan rows⟩ :=
        .skip rfl (by rw [hjson]; nofun)
      obtain ⟨tr, hrest⟩ := ih db
      exact ⟨_, (Trace.nil.snoc hskip).append hrest⟩
    | none =>
      simp only [guardedSign]
      cases hmade : signReceipt fed db row (nowIso (turn row.id).made) with
      | ok d =>
        have hsign : Dispatches ⟨db, fed, .scan (row :: rows)⟩ (signLabel db row fed.identity)
          ⟨d, fed, .scan rows⟩ := .scanSign rfl hjson hmade
        obtain ⟨tr, hrest⟩ := ih d
        exact ⟨_, (Trace.nil.snoc hsign).append hrest⟩
      | error cls =>
        obtain ⟨tr, hrest⟩ := ih (raisedReceipt cfg db row cls (turn row.id).guard)
        exact ⟨_, (raised_trace fed cfg db cls (turn row.id).guard rfl).append hrest⟩

/-! ## One fixed statement -/

/-- Whatever is acknowledged again, lost, retried or started again with another identity: the
receipts of a run are fixed statements exactly when every one of them that is on the wire was signed
by the issuer and under the key that its first acknowledgement stored. -/
theorem receipt_fixed {start : Dispatcher} (hinit : dispatch.init start)
    (h : Trace dispatch start tr s) : FixedStatement tr ↔ SignedByIssuer tr := by
  have hc := consistent_of_trace hinit h
  -- what is on the wire is the original that some identity has signed
  have hwire : ∀ row body, .transmitted row body ∈ tr →
      ∃ r ∈ s.db.federationReceiptOut, SameReceipt row r ∧ signedBody r = .ok body ∧
        ∃ signed identity, .signed signed identity ∈ tr ∧ declared signed = declared r ∧
          Says body (issuedAs r identity.family identity.keyId) := by
    intro row body hsent
    obtain ⟨r, hr, hsame, hbody⟩ := hc.sent row body hsent
    have hsome : r.signedJson ≠ none := by
      intro hnone
      unfold signedBody at hbody
      rw [hnone] at hbody
      cases hbody
    obtain ⟨signed, identity, hsigned, hdeclared, has⟩ := hc.signed r hr hsome
    exact ⟨r, hr, hsame, hbody, signed, identity, hsigned, hdeclared, has.tells hbody⟩
  constructor
  · rintro hfixed row identity hsigned ⟨sent, body, hsent, hsame⟩
    obtain ⟨r, hr, hdeclared, has⟩ := hc.made row identity hsigned
    obtain ⟨r', hr', hsame', hbody, -⟩ := hwire sent body hsent
    have hrow : r' = r :=
      hc.same hr hr' ((SameReceipt.of_declared hdeclared).trans (hsame.trans hsame'))
    subst hrow
    obtain ⟨first, hfirst, hfirstSame, htells⟩ := hfixed.stored sent body hsent
    obtain ⟨q, hq, hqdeclared⟩ := hc.stored first hfirst
    have hqr : q = r' := hc.same hr hq
      (hsame'.symm.trans (hfirstSame.trans (.of_declared hqdeclared.symm)))
    subst hqr
    have hfields := Says.injective (has.tells hbody) htells
    have hdecl : declaration first = declaration q :=
      declaration_of_declared hqdeclared.symm
    rw [hdecl, issuedAs, declaration, issuedAs, ReceiptFields.mk.injEq] at hfields
    have hissuer : q.issuer = row.issuer := (congrArg ReceiptOutRow.issuer hdeclared :)
    have hkey : q.issuerKeyId = row.issuerKeyId := (congrArg ReceiptOutRow.issuerKeyId hdeclared :)
    exact ⟨hfields.1.trans hissuer, hfields.2.1.trans hkey⟩
  · intro hby
    refine ⟨fun row body row' body' hsent hsent' hsame => ?_, fun row body hsent => ?_⟩
    · obtain ⟨r, hr, hkey, hbody⟩ := hc.sent row body hsent
      obtain ⟨r', hr', hkey', hbody'⟩ := hc.sent row' body' hsent'
      have hrow : r' = r := hc.same hr hr' (hkey.symm.trans (hsame.trans hkey'))
      rw [hrow, hbody] at hbody'
      cases hbody'
      rfl
    · obtain ⟨r, hr, hkey, hbody, signed, identity, hsigned, hdeclared, htells⟩ :=
        hwire row body hsent
      obtain ⟨first, hfirst, hfirstDeclared⟩ := hc.acked r hr
      have hmatch := hby signed identity hsigned
        ⟨row, body, hsent, (SameReceipt.of_declared hdeclared).trans hkey.symm⟩
      refine ⟨first, hfirst, hkey.trans (.of_declared hfirstDeclared.symm), ?_⟩
      have hissuer : signed.issuer = r.issuer := (congrArg ReceiptOutRow.issuer hdeclared :)
      have hkeyId : signed.issuerKeyId = r.issuerKeyId :=
        (congrArg ReceiptOutRow.issuerKeyId hdeclared :)
      rw [declaration_of_declared hfirstDeclared, declaration, ← hissuer, ← hkeyId, ← hmatch.1,
        ← hmatch.2]
      exact htells

/-! ## A receipt can be composed -/

theorem domain_signedReceipt (h : f.Valid) : Domain (.obj (signedReceipt f)) := by
  have hissuer := (plain_familyRe h.issuer).clean
  have hkey := (plain_keyIdRe h.keyId).clean
  have hevent := (plain_uuidRe h.eventId).clean
  have horigin := (plain_familyRe h.origin).clean
  have hhash := (plain_hex64Re h.sigHash).clean
  have hack := (plain_lit_of (of_decide_eq_true rfl) h.ackType).clean
  have hat := (plain_timestampOk h.atTime).clean
  have hkind : Clean receiptKind := by decide
  obtain ⟨_, _, haddress⟩ := h.agent
  have hagent := haddress.plain.clean
  have hreceipt : Domain (.obj (receiptObject f)) := by
    rw [Domain, domainMembers_iff]
    refine ⟨of_decide_eq_true rfl, fun m hm => ?_⟩
    simp only [receiptObject, List.mem_cons, List.not_mem_nil, or_false] at hm
    rcases hm with rfl | rfl | rfl | rfl | rfl | rfl
    all_goals exact domain_str (of_decide_eq_true rfl) (by assumption)
  rw [Domain, domainMembers_iff]
  refine ⟨of_decide_eq_true rfl, fun m hm => ?_⟩
  simp only [signedReceipt, List.mem_cons, List.not_mem_nil, or_false] at hm
  rcases hm with rfl | rfl | rfl | rfl
  all_goals try exact domain_str (of_decide_eq_true rfl) (by assumption)
  exact ⟨of_decide_eq_true rfl, hreceipt⟩

theorem receiptEnvelopeReads_withSig (f : ReceiptFields) (sig : Str) :
    ReceiptEnvelopeReads (withSig (signedReceipt f) sig) f :=
  ⟨rfl, rfl, _, rfl, of_decide_eq_true rfl, rfl, rfl, rfl, rfl, rfl, rfl⟩

/-- Valid fields are signed, and the envelope has bytes. -/
theorem compose_receipt_of_valid (crypto : Crypto) (identity : Identity) (hf : f.Valid) :
    ∃ sig body, compose crypto identity (signedReceipt f) validateReceiptEnvelope =
        .ok (withSig (signedReceipt f) sig) ∧
      canonicalBytes (withSig (signedReceipt f) sig) = some body := by
  have hdomain := domain_signedReceipt hf
  obtain ⟨message, hm, -⟩ := canonicalBytes_of_domain hdomain
  have hclean := (plain_signature crypto identity (signedReceipt f)).clean
  obtain ⟨body, hbody, -⟩ := canonicalBytes_of_domain
    (domain_withSig hdomain (of_decide_eq_true rfl) hclean)
  obtain ⟨env, hv⟩ : ∃ env, validateReceiptEnvelope
      (withSig (signedReceipt f) (signature crypto identity (signedReceipt f))) = .ok env :=
    ⟨_, validateReceiptEnvelope_ok_iff.mpr ⟨of_decide_eq_true rfl, of_decide_eq_true rfl, rfl,
      ⟨f, receiptEnvelopeReads_withSig f _, hf⟩, _, _, rfl,
      decodeStrict_signature crypto identity (signedReceipt f) _ _, rfl⟩⟩
  refine ⟨_, body, ?_, hbody⟩
  unfold compose
  rw [hm]
  rw [signature, hm, Option.getD_some] at hv
  simp only [hv]
  rw [signature, hm]
  rfl

/-! ## A restart with another key -/

/-- A receipt after its signing. -/
def signedRow (row : ReceiptOutRow) (identity : Identity) (sig : Str) (now : Time) : ReceiptOutRow :=
  { row with signedJson := some (original row identity sig), sig := some sig, updatedAt := now }

theorem signReceipt_alone {fed : Runtime} (hout : db.federationReceiptOut = [row])
    (hpending : row.status = .pending) (hnone : row.signedJson = none)
    (hcompose : compose fed.crypto fed.identity
        (signedReceipt (issuedAs row fed.identity.family fed.identity.keyId))
        validateReceiptEnvelope =
      .ok (withSig (signedReceipt (issuedAs row fed.identity.family fed.identity.keyId)) sig)) :
    signReceipt fed db row now =
      .ok { db with federationReceiptOut := [signedRow row fed.identity sig now] } := by
  have hwritten : materializeReceipt db row (original row fed.identity sig) sig now =
      { db with federationReceiptOut := [signedRow row fed.identity sig now] } := by
    show { db with federationReceiptOut :=
      db.federationReceiptOut.map (written row (original row fed.identity sig) sig now) } = _
    rw [hout, List.map_singleton, written_of_unsigned (.refl row) hpending hnone]
    rfl
  have hreceipt : composeReceipt fed.crypto fed.identity row.eventId row.origin
      row.originEventSigHash row.agent (AckType.text row.ackType) row.atTime =
        .ok (withSig (signedReceipt (issuedAs row fed.identity.family fed.identity.keyId)) sig) :=
    hcompose
  rw [signReceipt, hreceipt]
  exact congrArg Except.ok hwritten

theorem signLabel_alone (hout : db.federationReceiptOut = [row]) (hpending : row.status = .pending)
    (hnone : row.signedJson = none) : signLabel db row identity = .signed row identity := by
  have hfound : [row].find? (fun r => SameReceipt row r ∧ r.status = .pending ∧ r.signedJson = none) =
      some row := List.find?_cons_of_pos (decide_eq_true ⟨.refl row, hpending, hnone⟩)
  rw [signLabel, hout, hfound]

theorem signedBody_signedRow (row : ReceiptOutRow)
    (hbody : canonicalBytes (withSig (signedReceipt
      (issuedAs row identity.family identity.keyId)) sig) = some body) :
    signedBody (signedRow row identity sig now) = .ok body := by
  have hcanonical : canonicalBytes (withoutSig (original row identity sig) ++
      [(lit "sig", .str sig)]) = some body := hbody
  unfold signedBody
  simp only [signedRow, hcanonical]

/-- A receipt that waits alone is on the page. -/
theorem dueReceipts_alone {limit : ℕ} (hout : db.federationReceiptOut = [row])
    (hpending : row.status = .pending) (hdue : row.nextRetryAt = none) :
    dueReceipts db now (limit + 1) = [row] := by
  have hwaits : isDue now row.status row.nextRetryAt = true := by
    unfold isDue
    rw [hpending, hdue]
    rfl
  have hfilter : [row].filter (fun row => isDue now row.status row.nextRetryAt) = [row] :=
    List.filter_cons_of_pos hwaits
  rw [dueReceipts, hout, hfilter, List.insertionSort_cons, List.insertionSort_nil,
    List.orderedInsert_nil, List.take_succ_cons, List.take_nil]

/-- A receipt that waits alone is signed by the recovery scan under the identity of the restart, and
then sent. -/
theorem restart_run {fed fed' : Runtime} {peer : PeerRecord}
    (hout : db.federationReceiptOut = [row]) (hpending : row.status = .pending)
    (hnone : row.signedJson = none) (hdue : row.nextRetryAt = none)
    (hpeer : fed'.registry.receiptsPeer row.origin = some peer)
    (hvalid : (issuedAs row fed'.identity.family fed'.identity.keyId).Valid) :
    ∃ signed body s, Trace dispatch ⟨db, fed, .down⟩ [.silent, .silent, .silent,
      .signed row fed'.identity, .silent, .silent, .silent, .transmitted signed body] s ∧
    SameReceipt row signed ∧ Says body (issuedAs row fed'.identity.family fed'.identity.keyId) := by
  obtain ⟨sig, body, hcompose, hbody⟩ := compose_receipt_of_valid fed'.crypto fed'.identity hvalid
  set signed := signedRow row fed'.identity sig noon with hsignedRow
  set db' : Db := { db with federationReceiptOut := [signed] } with hdb'
  have hcrash : Dispatches ⟨db, fed, .down⟩ .silent ⟨db, fed, .down⟩ := .crash
  have hrestart : Dispatches ⟨db, fed, .down⟩ .silent ⟨db, fed', .down⟩ := .restart fed' rfl
  have hrecover : Dispatches ⟨db, fed', .down⟩ .silent ⟨db, fed', .scan [row]⟩ := by
    have hscan := @Dispatches.recover ⟨db, fed', .down⟩ noon rfl
    rwa [scanSize, dueReceipts_alone hout hpending hdue] at hscan
  have hmade : signReceipt fed' db row noon = .ok db' :=
    signReceipt_alone hout hpending hnone hcompose
  have hsign : Dispatches ⟨db, fed', .scan [row]⟩ (.signed row fed'.identity)
      ⟨db', fed', .scan []⟩ := by
    rw [← signLabel_alone hout hpending hnone]
    exact @Dispatches.scanSign ⟨db, fed', .scan [row]⟩ row [] noon db' rfl hnone hmade
  have hrecovered : Dispatches ⟨db', fed', .scan []⟩ .silent ⟨db', fed', .idle⟩ := .recovered rfl
  have hcycle : Dispatches ⟨db', fed', .idle⟩ .silent ⟨db', fed', .page [signed]⟩ := by
    have hpage := @Dispatches.cycle ⟨db', fed', .idle⟩ noon rfl
    have hone : dueReceipts db' noon pageSize = [signed] := dueReceipts_alone rfl hpending hdue
    rwa [hone] at hpage
  have hstored : Dispatches ⟨db', fed', .page [signed]⟩ .silent
    ⟨db', fed', .ready signed signed []⟩ := .stored rfl nofun
  have hsend : Dispatches ⟨db', fed', .ready signed signed []⟩ (.transmitted signed body)
      ⟨db', fed', .answered signed signed (.error []) []⟩ :=
    @Dispatches.transmit ⟨db', fed', .ready signed signed []⟩ peer signed signed [] body (.error [])
      rfl hpeer (signedBody_signedRow row hbody)
  have hrun : Trace dispatch ⟨db, fed, .down⟩ ([] ++ [.silent] ++ [.silent] ++ [.silent] ++
      [.signed row fed'.identity] ++ [.silent] ++ [.silent] ++ [.silent] ++
      [.transmitted signed body]) ⟨db', fed', .answered signed signed (.error []) []⟩ :=
    .snoc (.snoc (.snoc (.snoc (.snoc (.snoc (.snoc (.snoc .nil hcrash) hrestart) hrecover)
      hsign) hrecovered) hcycle) hstored) hsend
  exact ⟨signed, body, _, hrun, ⟨rfl, rfl, rfl⟩, sig, hbody⟩

def peerA : PeerRecord where
  family := lit "org-a"
  keyId := lit "oa-1"
  publicKey := lit "pk"
  publicKeyBytes := []
  inboxUrl := lit "https://a.example/federation/inbox"
  receiptsUrl := lit "https://a.example/federation/receipts"

def orgB : Identity where
  family := lit "org-b"
  keyId := lit "ob-1"
  seed := []
  family_ok := by decide
  keyId_ok := by decide

/-- Another key of the same family. -/
def orgB2 : Identity := { orgB with keyId := lit "ob-2", keyId_ok := by decide }

/-- An instance under an identity, with `org-a` in its registry. -/
def fedUnder (identity : Identity) : Runtime where
  crypto := plainCrypto
  identity := identity
  registry := ⟨[peerA], by decide⟩
  outboxCap := 1000
  uuid5 := id

/-- Alice's event, as it came to Bob. -/
def bobInbound : InboundRow where
  id := 1
  origin := lit "org-a"
  eventId := lit "00000000-0000-4000-8000-000000000001"
  target := lit "bob@org-b"
  eventJcs := []
  signedJson := []
  sig := []
  regFamily := lit "org-a"
  regKeyId := lit "oa-1"
  regPublicKey := lit "pk"
  localEventId := lit "00000000-0000-4000-8000-000000000001"
  deliveryState := .delivered
  createdAt := noon

def bobEvent : EventRow where
  id := 1
  eventId := lit "00000000-0000-4000-8000-000000000001"
  source := lit "alice@org-a"
  target := lit "bob"
  type := lit "message"
  seq := .int 1
  createdAt := noon
  storedAt := noon
  payload := []
  requiresAck := true
  sourceRef := none
  authActor := none

def bobDb : Db := { events := [bobEvent] }

/-- What Bob's acknowledgement stores. -/
def bobRow : ReceiptOutRow :=
  receiptOutRow bobDb bobInbound orgB bobInbound.eventId .received
    (List.replicate 64 (ofChar '0')) noon

def bobAck : AckRequest := ⟨.none, .none, .none, .none, noon⟩

theorem valid_bobRow (identity : Identity) :
    (issuedAs bobRow identity.family identity.keyId).Valid where
  issuer := identity.family_ok
  keyId := identity.keyId_ok
  eventId := show uuidRe (lit "00000000-0000-4000-8000-000000000001") = true by decide
  origin := show familyRe (lit "org-a") = true by decide
  sigHash := show hex64Re (List.replicate 64 (ofChar '0')) = true by decide
  agent := ⟨lit "bob", lit "org-b", rfl, by decide, by decide⟩
  ackType := show lit "received" ∈ ackTypes by decide
  atTime := show timestampOk (lit "2026-10-01T12:00:00Z") = true by decide

/-- Bob acknowledges; the server crashes, starts again under an identity and sends the receipt. -/
theorem bob_run (identity : Identity) : ∃ signed body s,
    Trace dispatch ⟨bobDb, fedUnder orgB, .down⟩ ([.acknowledged bobRow] ++ [.silent, .silent, .silent,
      .signed bobRow identity, .silent, .silent, .silent, .transmitted signed body]) s ∧
    SameReceipt bobRow signed ∧ Says body (issuedAs bobRow identity.family identity.keyId) := by
  let db : Db := { bobDb with
    acks := [⟨1, bobInbound.eventId, lit "bob", .received, noon, .dict []⟩]
    federationReceiptOut := [bobRow] }
  have hack : Dispatches ⟨bobDb, fedUnder orgB, .down⟩ (.acknowledged bobRow)
      ⟨db, fedUnder orgB, .down⟩ :=
    @Dispatches.ack ⟨bobDb, fedUnder orgB, .down⟩ plainEnv bobAck
      (.federated bobInbound bobInbound.eventId (lit "bob") .received
        (List.replicate 64 (ofChar '0'))) db rfl
  obtain ⟨signed, body, s, hrun, hrest⟩ := @restart_run bobRow db (fedUnder orgB)
    (fedUnder identity) peerA rfl rfl rfl rfl rfl (valid_bobRow identity)
  exact ⟨signed, body, s, .append (.snoc .nil hack) hrun, hrest⟩

/-- Bob's receipt goes out under a key that his acknowledgement did not store. -/
theorem receipt_changed : ∃ start tr s, dispatch.init start ∧ Trace dispatch start tr s ∧
    ¬ FixedStatement tr := by
  obtain ⟨signed, body, s, hrun, hsame, htells⟩ := bob_run orgB2
  refine ⟨_, _, s, ⟨rfl, rfl⟩, hrun, fun hfixed => ?_⟩
  obtain ⟨first, hfirst, -, hfirstTells⟩ := hfixed.stored signed body (by simp)
  have hrow : first = bobRow := by simpa using hfirst
  subst hrow
  have hkey := congrArg ReceiptFields.keyId (htells.injective hfirstTells)
  exact absurd hkey (show lit "ob-2" ≠ lit "ob-1" by decide)

/-- Under the stored key it is a fixed statement. -/
theorem receipt_fixed_bob : ∃ signed body, FixedStatement ([.acknowledged bobRow] ++ [.silent,
    .silent, .silent, .signed bobRow orgB, .silent, .silent, .silent, .transmitted signed body]) := by
  obtain ⟨signed, body, s, hrun, -⟩ := bob_run orgB
  refine ⟨signed, body, (receipt_fixed ⟨rfl, rfl⟩ hrun).mpr fun row identity hsigned _ => ?_⟩
  have hpair : row = bobRow ∧ identity = orgB := by simpa using hsigned
  rw [hpair.1, hpair.2]
  exact ⟨rfl, rfl⟩

end Federation
end ATalk
