import ATalk.Federation.Agreement
import ATalk.Lib.Transition

/-!
# The ledger of inbound receipts

Every signed original that comes in is kept, the first of its event, agent and kind as the original
and the others as variants of it; a merged row points to the first one. All of it, and the
notification of the local sender, is one transaction.

* `recordReceiptIn` : the transaction, `receiptStage` and `receiptOriginals` : what is read;
* `Ledgered` : the invariant of the two tables, `Ledgered.record` : a call keeps it;
* `Extends` : what a call leaves behind;
* `receipt_ledger` : every run of calls.
-/

namespace ATalk
namespace Federation

open Text Json Python Transition ATalk.Core

/-! ## `record_receipt_in` -/

/-- The arguments of `record_receipt_in`. -/
structure ReceiptParams where
  eventId : Str
  agent : Str
  ackType : AckType
  issuer : Str
  issuerKeyId : Str
  signedJson : List (Str × Json)
  sig : Str
  notifyAgent : Option Str
  notifyDetail : List (Str × Str)

/-- What a receipt is about. -/
abbrev ReceiptKey := Str × Str × AckType

def ReceiptParams.key (p : ReceiptParams) : ReceiptKey := (p.eventId, p.agent, p.ackType)

def originalKey (row : ReceiptOriginalRow) : ReceiptKey := (row.eventId, row.agent, row.ackType)

def mergedKey (row : ReceiptInRow) : ReceiptKey := (row.eventId, row.agent, row.ackType)

inductive ReceiptStatus where
  | stored
  | duplicate
deriving DecidableEq, Repr

/-- `WHERE event_id=? AND agent=? AND ack_type=? AND sig=?` -/
def findOriginal (rows : List ReceiptOriginalRow) (p : ReceiptParams) : Option ReceiptOriginalRow :=
  rows.find? fun row => originalKey row = p.key && row.sig = p.sig

def originalRow (db : Db) (p : ReceiptParams) (now : Time) : ReceiptOriginalRow where
  id := nextId (db.federationReceiptInOriginals.map (·.id))
  eventId := p.eventId
  agent := p.agent
  ackType := p.ackType
  issuer := p.issuer
  issuerKeyId := p.issuerKeyId
  signedJson := p.signedJson
  sig := p.sig
  isVariant := db.federationReceiptInOriginals.any fun row => originalKey row = p.key
  firstSeenAt := now

/-- `INSERT OR IGNORE`, with what `rowcount` says. -/
def insertOriginal (db : Db) (p : ReceiptParams) (now : Time) : Db × Bool :=
  match findOriginal db.federationReceiptInOriginals p with
  | some _ => (db, false)
  | none =>
    ({ db with federationReceiptInOriginals :=
        db.federationReceiptInOriginals ++ [originalRow db p now] }, true)

/-- `ON CONFLICT(event_id, agent, ack_type) DO NOTHING` -/
def mergeReceipt (db : Db) (p : ReceiptParams) (originalId : ℕ) (now : Time) : Db :=
  if db.federationReceiptIn.any fun row => mergedKey row = p.key then db
  else
    { db with federationReceiptIn := db.federationReceiptIn ++
        [⟨p.eventId, p.agent, p.ackType, p.issuer, originalId, now⟩] }

/-- `dict(notify_detail, agent=agent, ack_type=ack_type, issuer=issuer)` -/
def receiptDetail (p : ReceiptParams) : List (Str × Str) :=
  let own := [(lit "agent", p.agent), (lit "ack_type", AckType.text p.ackType),
    (lit "issuer", p.issuer)]
  p.notifyDetail.filter (fun entry => entry.1 ∉ own.map (·.1)) ++ own

def recordReceiptIn (fed : Runtime) (db : Db) (p : ReceiptParams) (now : Time) :
    Except Exn (Db × ReceiptStatus) :=
  let (db₁, inserted) := insertOriginal db p now
  match findOriginal db₁.federationReceiptInOriginals p with
  | none => .error .typeError
  | some original =>
    let db₂ := mergeReceipt db₁ p original.id now
    if inserted then
      .ok (insertNotification db₂
        (fed.stableIntentId [lit "receipt", p.eventId, p.agent, AckType.text p.ackType])
        "receipt_received" p.notifyAgent (some p.eventId) (receiptDetail p) now, .stored)
    else .ok (db₂, .duplicate)

/-! ## What is read -/

/-- `receipt_stage` -/
def receiptStage (db : Db) (eventId agent : Str) : Option AckType :=
  let types := (db.federationReceiptIn.filter fun row =>
    row.eventId = eventId && row.agent = agent).map (·.ackType)
  if .applied ∈ types then some .applied
  else if .received ∈ types then some .received
  else none

def receiptOriginals (db : Db) (eventId : Str) (agent : Option Str) (ackType : Option AckType) :
    List ReceiptOriginalRow :=
  (db.federationReceiptInOriginals.filter fun row =>
    row.eventId = eventId && agent.all (row.agent = ·) && ackType.all (row.ackType = ·)).insertionSort
      (·.id ≤ ·.id)

/-! ## The two tables -/

variable {fed : Runtime} {db db' db'' : Db} {p : ReceiptParams} {now : Time} {status : ReceiptStatus}

/-- What the unique key of the originals is over. -/
def signedKey (row : ReceiptOriginalRow) : ReceiptKey × Str := (originalKey row, row.sig)

/-- The originals that are not variants. -/
def firstOriginals (db : Db) : List ReceiptOriginalRow :=
  db.federationReceiptInOriginals.filter fun row => !row.isVariant

/-- The ledger: originals in the order of their ids, a signature once, a variant exactly after
another original of its key, and a merged row for each first original. -/
structure Ledgered (db : Db) : Prop where
  ids : (db.federationReceiptInOriginals.map (·.id)).Pairwise (· < ·)
  signatures : (db.federationReceiptInOriginals.map signedKey).Nodup
  variants : ∀ row ∈ db.federationReceiptInOriginals, row.isVariant = true ↔
    ∃ r ∈ db.federationReceiptInOriginals, originalKey r = originalKey row ∧ r.id < row.id
  merged : db.federationReceiptIn.map (fun m => (mergedKey m, m.issuer, m.originalId)) =
    (firstOriginals db).map fun row => (originalKey row, row.issuer, row.id)

theorem findOriginal_eq_none {rows : List ReceiptOriginalRow} :
    findOriginal rows p = none ↔ (p.key, p.sig) ∉ rows.map signedKey := by
  rw [findOriginal, List.find?_eq_none, List.mem_map]
  constructor
  · rintro h ⟨row, hrow, hkey⟩
    obtain ⟨hkey, hsig⟩ := Prod.mk.inj hkey
    exact h row hrow (by rw [hkey, hsig]; simp)
  · intro h row hrow hfound
    rw [Bool.and_eq_true, decide_eq_true_eq, decide_eq_true_eq] at hfound
    exact h ⟨row, hrow, Prod.ext hfound.1 hfound.2⟩

theorem findOriginal_spec {rows : List ReceiptOriginalRow} {row : ReceiptOriginalRow}
    (h : findOriginal rows p = some row) : row ∈ rows ∧ originalKey row = p.key ∧ row.sig = p.sig := by
  have hkey := List.find?_some h
  rw [Bool.and_eq_true, decide_eq_true_eq, decide_eq_true_eq] at hkey
  exact ⟨List.mem_of_find?_eq_some h, hkey⟩

/-- A new original: it is found, and nothing else changes. -/
theorem findOriginal_append (h : findOriginal db.federationReceiptInOriginals p = none) :
    findOriginal (db.federationReceiptInOriginals ++ [originalRow db p now]) p =
      some (originalRow db p now) := by
  have hlast : findOriginal [originalRow db p now] p = some (originalRow db p now) := by
    simp [findOriginal, originalRow, originalKey, ReceiptParams.key]
  rw [findOriginal] at h hlast ⊢
  rw [List.find?_append, h, hlast]
  rfl

@[simp] theorem insertNotification_originals (db : Db) (intentId : Str) (kind : String)
    (agent eventId : Option Str) (detail : List (Str × Str)) (now : Time) :
    (insertNotification db intentId kind agent eventId detail now).federationReceiptInOriginals =
      db.federationReceiptInOriginals := by
  unfold insertNotification
  split_ifs <;> rfl

@[simp] theorem insertNotification_receiptIn (db : Db) (intentId : Str) (kind : String)
    (agent eventId : Option Str) (detail : List (Str × Str)) (now : Time) :
    (insertNotification db intentId kind agent eventId detail now).federationReceiptIn =
      db.federationReceiptIn := by
  unfold insertNotification
  split_ifs <;> rfl

@[simp] theorem mergeReceipt_originals (db : Db) (p : ReceiptParams) (originalId : ℕ) (now : Time) :
    (mergeReceipt db p originalId now).federationReceiptInOriginals =
      db.federationReceiptInOriginals := by
  unfold mergeReceipt
  split_ifs <;> rfl

/-- The table of originals with a new one. -/
def withOriginal (db : Db) (p : ReceiptParams) (now : Time) : Db :=
  { db with federationReceiptInOriginals :=
      db.federationReceiptInOriginals ++ [originalRow db p now] }

/-- A call with its original merged and the local sender told. -/
def storeReceipt (fed : Runtime) (db : Db) (p : ReceiptParams) (now : Time) : Db :=
  insertNotification (mergeReceipt (withOriginal db p now) p (originalRow db p now).id now)
    (fed.stableIntentId [lit "receipt", p.eventId, p.agent, AckType.text p.ackType])
    "receipt_received" p.notifyAgent (some p.eventId) (receiptDetail p) now

/-- The outcomes of a call: the signature was stored, or is stored now. -/
theorem recordReceiptIn_eq (fed : Runtime) (db : Db) (p : ReceiptParams) (now : Time) :
    recordReceiptIn fed db p now =
      match findOriginal db.federationReceiptInOriginals p with
      | some original => .ok (mergeReceipt db p original.id now, .duplicate)
      | none => .ok (storeReceipt fed db p now, .stored) := by
  unfold recordReceiptIn insertOriginal
  cases h : findOriginal db.federationReceiptInOriginals p with
  | some original => simp only [h, Bool.false_eq_true, if_false]
  | none => simp only [findOriginal_append h, if_true, storeReceipt, withOriginal]

/-! ## A call keeps the ledger -/

/-- A key with an original has a first one, and it is before all others. -/
theorem Ledgered.first (h : Ledgered db) {row : ReceiptOriginalRow}
    (hrow : row ∈ db.federationReceiptInOriginals) :
    ∃ r ∈ firstOriginals db, originalKey r = originalKey row ∧ r.id ≤ row.id := by
  induction hid : row.id using Nat.strong_induction_on generalizing row with
  | _ n ih =>
    subst hid
    by_cases hvariant : row.isVariant = true
    · obtain ⟨r, hr, hkey, hlt⟩ := (h.variants row hrow).mp hvariant
      obtain ⟨r', hr', hkey', hle⟩ := ih r.id hlt hr rfl
      exact ⟨r', hr', hkey'.trans hkey, hle.trans hlt.le⟩
    · exact ⟨row, List.mem_filter.mpr ⟨hrow, by simpa using hvariant⟩, rfl, Nat.le_refl _⟩

/-- A key is merged as soon as it has an original. -/
theorem Ledgered.merged_iff (h : Ledgered db) (key : ReceiptKey) :
    (∃ m ∈ db.federationReceiptIn, mergedKey m = key) ↔
      ∃ row ∈ db.federationReceiptInOriginals, originalKey row = key := by
  have hkeys : db.federationReceiptIn.map mergedKey = (firstOriginals db).map originalKey := by
    have hmap := congrArg (List.map Prod.fst) h.merged
    rwa [List.map_map, List.map_map] at hmap
  rw [← List.mem_map, hkeys, List.mem_map]
  constructor
  · rintro ⟨row, hrow, hkey⟩
    exact ⟨row, (List.mem_filter.mp hrow).1, hkey⟩
  · rintro ⟨row, hrow, hkey⟩
    obtain ⟨r, hr, hrkey, -⟩ := h.first hrow
    exact ⟨r, hr, hrkey.trans hkey⟩

theorem any_mergedKey (db : Db) (key : ReceiptKey) :
    (db.federationReceiptIn.any fun row => mergedKey row = key) = true ↔
      ∃ m ∈ db.federationReceiptIn, mergedKey m = key := by
  rw [List.any_eq_true]
  simp only [decide_eq_true_eq]

/-- A signature that is stored is left as it is. -/
theorem Ledgered.record_duplicate (h : Ledgered db) {original : ReceiptOriginalRow}
    (hfound : findOriginal db.federationReceiptInOriginals p = some original) :
    recordReceiptIn fed db p now = .ok (db, .duplicate) := by
  obtain ⟨hmem, hkey, -⟩ := findOriginal_spec hfound
  have hmerged := (any_mergedKey db p.key).mpr ((h.merged_iff p.key).mpr ⟨original, hmem, hkey⟩)
  rw [recordReceiptIn_eq, hfound]
  simp only [mergeReceipt, hmerged, if_true]

theorem lt_originalRow_id {row : ReceiptOriginalRow}
    (hrow : row ∈ db.federationReceiptInOriginals) : row.id < (originalRow db p now).id :=
  lt_nextId (List.mem_map_of_mem hrow)

/-- The columns of the merged row that a new original brings: none for a variant. -/
theorem Ledgered.merge (h : Ledgered db) :
    (mergeReceipt (withOriginal db p now) p (originalRow db p now).id now).federationReceiptIn =
      db.federationReceiptIn ++ if (originalRow db p now).isVariant then []
        else [⟨p.eventId, p.agent, p.ackType, p.issuer, (originalRow db p now).id, now⟩] := by
  have hsame : ((withOriginal db p now).federationReceiptIn.any fun row => mergedKey row = p.key) =
      (originalRow db p now).isVariant := by
    rw [Bool.eq_iff_iff]
    refine (any_mergedKey db p.key).trans ((h.merged_iff p.key).trans ?_)
    show _ ↔ (db.federationReceiptInOriginals.any fun row => originalKey row = p.key) = true
    rw [List.any_eq_true]
    simp only [decide_eq_true_eq]
  rw [mergeReceipt, hsame]
  split_ifs
  · rw [List.append_nil]
    rfl
  · rfl

theorem Ledgered.store (h : Ledgered db)
    (hnew : findOriginal db.federationReceiptInOriginals p = none) :
    Ledgered (storeReceipt fed db p now) := by
  have hrows : (storeReceipt fed db p now).federationReceiptInOriginals =
      db.federationReceiptInOriginals ++ [originalRow db p now] := by
    rw [storeReceipt, insertNotification_originals, mergeReceipt_originals, withOriginal]
  constructor
  · rw [hrows, List.map_append, List.pairwise_append]
    refine ⟨h.ids, List.pairwise_singleton _ _, fun i hi j hj => ?_⟩
    obtain ⟨row, hrow, rfl⟩ := List.mem_map.mp hi
    rw [List.map_singleton, List.mem_singleton] at hj
    rw [hj]
    exact lt_originalRow_id hrow
  · rw [hrows, List.map_append, List.map_singleton]
    have hfresh : signedKey (originalRow db p now) ∉
        db.federationReceiptInOriginals.map signedKey := findOriginal_eq_none.mp hnew
    exact h.signatures.append (List.nodup_singleton _)
      (List.disjoint_singleton.mpr hfresh)
  · intro row hrow
    rw [hrows] at hrow ⊢
    rcases List.mem_append.mp hrow with hrow | hrow
    · -- the new row is not before an old one
      rw [h.variants row hrow]
      constructor
      · rintro ⟨r, hr, hkey, hlt⟩
        exact ⟨r, List.mem_append_left _ hr, hkey, hlt⟩
      · rintro ⟨r, hr, hkey, hlt⟩
        rcases List.mem_append.mp hr with hr | hr
        · exact ⟨r, hr, hkey, hlt⟩
        · rw [List.mem_singleton.mp hr] at hlt
          exact absurd hlt (lt_originalRow_id hrow).asymm
    · rw [List.mem_singleton.mp hrow]
      show (db.federationReceiptInOriginals.any fun row => originalKey row = p.key) = true ↔ _
      rw [List.any_eq_true]
      simp only [decide_eq_true_eq]
      constructor
      · rintro ⟨r, hr, hkey⟩
        exact ⟨r, List.mem_append_left _ hr, hkey, lt_originalRow_id hr⟩
      · rintro ⟨r, hr, hkey, hlt⟩
        rcases List.mem_append.mp hr with hr | hr
        · exact ⟨r, hr, hkey⟩
        · rw [List.mem_singleton.mp hr] at hlt
          exact absurd hlt (Nat.lt_irrefl _)
  · have hfirst : firstOriginals (storeReceipt fed db p now) = firstOriginals db ++
        if (originalRow db p now).isVariant then [] else [originalRow db p now] := by
      rw [firstOriginals, hrows, List.filter_append, firstOriginals]
      congr 1
      cases hvariant : (originalRow db p now).isVariant <;> simp [hvariant]
    rw [hfirst, storeReceipt, insertNotification_receiptIn, h.merge, List.map_append,
      List.map_append, h.merged]
    congr 1
    cases (originalRow db p now).isVariant <;> rfl

/-! ## Runs of calls -/

/-- Rows are only added. -/
structure Extends (db db' : Db) : Prop where
  originals : db.federationReceiptInOriginals <+: db'.federationReceiptInOriginals
  merged : db.federationReceiptIn <+: db'.federationReceiptIn

theorem Extends.refl (db : Db) : Extends db db := ⟨List.prefix_refl _, List.prefix_refl _⟩

theorem Extends.trans (h : Extends db db') (h' : Extends db' db'') : Extends db db'' :=
  ⟨h.originals.trans h'.originals, h.merged.trans h'.merged⟩

/-- A call, with what it returned. -/
abbrev Call := ReceiptParams × ReceiptStatus

/-- A call, one immediate transaction, or a write to other tables. -/
inductive Records (db : Db) : Option Call → Db → Prop where
  | record {fed : Runtime} {p : ReceiptParams} {now : Time} {status : ReceiptStatus} {db' : Db}
      (h : recordReceiptIn fed db p now = .ok (db', status)) : Records db (some (p, status)) db'
  | write {db' : Db} (horiginals : db'.federationReceiptInOriginals = db.federationReceiptInOriginals)
      (hmerged : db'.federationReceiptIn = db.federationReceiptIn) : Records db none db'

def receiptLedger : System Db (Option Call) where
  init db := db.federationReceiptInOriginals = [] ∧ db.federationReceiptIn = []
  step := Records

/-- What a call does to the ledger. -/
theorem Ledgered.record (h : Ledgered db) (hcall : recordReceiptIn fed db p now = .ok (db', status)) :
    Ledgered db' ∧ Extends db db' ∧
      (status = .duplicate ↔ (p.key, p.sig) ∈ db.federationReceiptInOriginals.map signedKey) ∧
      (status = .stored → originalRow db p now ∈ db'.federationReceiptInOriginals) := by
  cases hfound : findOriginal db.federationReceiptInOriginals p with
  | some original =>
    rw [h.record_duplicate hfound] at hcall
    cases hcall
    obtain ⟨hmem, hkey, hsig⟩ := findOriginal_spec hfound
    have hstored : (p.key, p.sig) ∈ db.federationReceiptInOriginals.map signedKey :=
      List.mem_map.mpr ⟨original, hmem, Prod.ext hkey hsig⟩
    exact ⟨h, .refl db, iff_of_true rfl hstored, nofun⟩
  | none =>
    rw [recordReceiptIn_eq, hfound] at hcall
    cases hcall
    have hrows : (storeReceipt fed db p now).federationReceiptInOriginals =
        db.federationReceiptInOriginals ++ [originalRow db p now] := by
      rw [storeReceipt, insertNotification_originals, mergeReceipt_originals, withOriginal]
    refine ⟨h.store hfound, ⟨?_, ?_⟩, iff_of_false nofun (findOriginal_eq_none.mp hfound), fun _ => ?_⟩
    · rw [hrows]
      exact List.prefix_append _ _
    · rw [storeReceipt, insertNotification_receiptIn, h.merge]
      exact List.prefix_append _ _
    · rw [hrows]
      exact List.mem_append_right _ (List.mem_singleton_self _)

theorem Ledgered.congr (h : Ledgered db)
    (horiginals : db'.federationReceiptInOriginals = db.federationReceiptInOriginals)
    (hmerged : db'.federationReceiptIn = db.federationReceiptIn) : Ledgered db' where
  ids := by rw [horiginals]; exact h.ids
  signatures := by rw [horiginals]; exact h.signatures
  variants := by rw [horiginals]; exact h.variants
  merged := by rw [hmerged, h.merged, firstOriginals, firstOriginals, horiginals]

theorem Records.step {call : Option Call} (h : Ledgered db) (hstep : Records db call db') :
    Ledgered db' ∧ Extends db db' := by
  cases hstep with
  | record hcall => exact ⟨(h.record hcall).1, (h.record hcall).2.1⟩
  | write horiginals hmerged =>
    exact ⟨h.congr horiginals hmerged, horiginals ▸ List.prefix_refl _, hmerged ▸ List.prefix_refl _⟩

/-- Every reached ledger is one. -/
theorem ledgered_of_reach (h : Reachable receiptLedger db) : Ledgered db := by
  refine h.invariant (P := Ledgered) (fun s hs => ?_)
    fun s call s' hs _ hstep => (Records.step hs hstep).1
  obtain ⟨horiginals, hmerged⟩ := hs
  have hempty : Ledgered ({} : Db) := ⟨List.Pairwise.nil, List.nodup_nil, nofun, rfl⟩
  exact hempty.congr horiginals hmerged

theorem extends_of_trace {calls : List (Option Call)} (h : Reachable receiptLedger db)
    (hrun : Trace receiptLedger db calls db') : Extends db db' :=
  hrun.rel Extends.refl (fun _ _ _ => Extends.trans)
    (fun _ _ _ hs hstep => (Records.step (ledgered_of_reach hs) hstep).2) h

/-! ## What the tables say -/

/-- The originals of a key, in the order they came in. -/
theorem Ledgered.receiptOriginals_eq (h : Ledgered db) (eventId agent : Str) (ackType : AckType) :
    receiptOriginals db eventId (some agent) (some ackType) =
      db.federationReceiptInOriginals.filter fun row => originalKey row = (eventId, agent, ackType) := by
  have hids := (List.pairwise_map.mp h.ids).imp fun hlt => Nat.le_of_lt hlt
  have hfilter : (db.federationReceiptInOriginals.filter fun row =>
      row.eventId = eventId && (some agent).all (row.agent = ·) &&
        (some ackType).all (row.ackType = ·)) = db.federationReceiptInOriginals.filter
          fun row => originalKey row = (eventId, agent, ackType) := by
    refine List.filter_congr fun row _ => ?_
    rw [Bool.eq_iff_iff]
    simp [originalKey, and_assoc]
  rw [receiptOriginals, hfilter]
  exact (hids.filter _).insertionSort_eq

theorem mem_types {eventId agent : Str} {ackType : AckType} :
    ackType ∈ (db.federationReceiptIn.filter fun row =>
      row.eventId = eventId && row.agent = agent).map (·.ackType) ↔
        ∃ m ∈ db.federationReceiptIn, mergedKey m = (eventId, agent, ackType) := by
  rw [List.mem_map]
  constructor
  · rintro ⟨m, hm, rfl⟩
    obtain ⟨hm, hkey⟩ := List.mem_filter.mp hm
    rw [Bool.and_eq_true, decide_eq_true_eq, decide_eq_true_eq] at hkey
    exact ⟨m, hm, by rw [mergedKey, hkey.1, hkey.2]⟩
  · rintro ⟨m, hm, hkey⟩
    obtain ⟨hevent, hrest⟩ := Prod.mk.inj hkey
    obtain ⟨hagent, htype⟩ := Prod.mk.inj hrest
    refine ⟨m, List.mem_filter.mpr ⟨hm, ?_⟩, htype⟩
    rw [hevent, hagent]
    simp

/-- A stage has a merged row behind it. -/
theorem receiptStage_merged {eventId agent : Str} {ackType : AckType}
    (h : receiptStage db eventId agent = some ackType) :
    ∃ m ∈ db.federationReceiptIn, mergedKey m = (eventId, agent, ackType) := by
  unfold receiptStage at h
  simp only at h
  split_ifs at h with happlied hreceived
  · cases h
    exact mem_types.mp happlied
  · cases h
    exact mem_types.mp hreceived

theorem receiptStage_applied {eventId agent : Str} :
    receiptStage db eventId agent = some .applied ↔
      ∃ m ∈ db.federationReceiptIn, mergedKey m = (eventId, agent, .applied) := by
  refine ⟨receiptStage_merged, fun h => ?_⟩
  unfold receiptStage
  simp only
  rw [if_pos (mem_types.mpr h)]

theorem receiptStage_ne_none {eventId agent : Str} {ackType : AckType}
    (h : ∃ m ∈ db.federationReceiptIn, mergedKey m = (eventId, agent, ackType)) :
    receiptStage db eventId agent ≠ none := by
  have htypes := mem_types.mpr h
  unfold receiptStage
  simp only
  split_ifs with happlied hreceived
  · exact nofun
  · exact nofun
  · cases ackType with
    | received => exact absurd htypes hreceived
    | applied => exact absurd htypes happlied

/-- A stage does not fall back. -/
theorem Extends.stage (h : Extends db db') (eventId agent : Str) :
    (receiptStage db eventId agent = some .applied →
        receiptStage db' eventId agent = some .applied) ∧
      (receiptStage db eventId agent ≠ none → receiptStage db' eventId agent ≠ none) := by
  constructor
  · rw [receiptStage_applied, receiptStage_applied]
    rintro ⟨m, hm, hkey⟩
    exact ⟨m, h.merged.subset hm, hkey⟩
  · intro hstage
    obtain ⟨ackType, hsome⟩ := Option.ne_none_iff_exists'.mp hstage
    obtain ⟨m, hm, hkey⟩ := receiptStage_merged hsome
    exact receiptStage_ne_none ⟨m, h.merged.subset hm, hkey⟩

theorem Ledgered.firstKeys (h : Ledgered db) : ((firstOriginals db).map originalKey).Nodup := by
  have hids := (List.pairwise_map.mp h.ids).filter fun row => !row.isVariant
  refine List.pairwise_map.mpr (hids.imp_of_mem fun {row row'} hrow hrow' hlt hkey => ?_)
  -- the later of two would be a variant
  obtain ⟨hmem', hfirst'⟩ := List.mem_filter.mp hrow'
  have hvariant := (h.variants row' hmem').mpr ⟨row, (List.mem_filter.mp hrow).1, hkey, hlt⟩
  rw [hvariant] at hfirst'
  cases hfirst'

/-- The first original of a key, the variants after it, and the merged row that points to it. -/
theorem Ledgered.originals (h : Ledgered db) {row : ReceiptOriginalRow} {eventId agent : Str}
    {ackType : AckType} (hrow : row ∈ db.federationReceiptInOriginals)
    (hkey : originalKey row = (eventId, agent, ackType)) :
    ∃ first rest, receiptOriginals db eventId (some agent) (some ackType) = first :: rest ∧
      first.isVariant = false ∧ (∀ r ∈ rest, r.isVariant = true) ∧
      (∃ m ∈ db.federationReceiptIn, mergedKey m = (eventId, agent, ackType) ∧
        m.originalId = first.id) ∧
      (db.federationReceiptIn.map mergedKey).count (eventId, agent, ackType) = 1 := by
  have hlist := h.receiptOriginals_eq eventId agent ackType
  have hmem : row ∈ receiptOriginals db eventId (some agent) (some ackType) := by
    rw [hlist]
    exact List.mem_filter.mpr ⟨hrow, decide_eq_true hkey⟩
  have hids : (receiptOriginals db eventId (some agent) (some ackType)).Pairwise
      fun r r' => r.id < r'.id := by
    rw [hlist]
    exact (List.pairwise_map.mp h.ids).filter _
  have hof : ∀ r, r ∈ receiptOriginals db eventId (some agent) (some ackType) ↔
      r ∈ db.federationReceiptInOriginals ∧ originalKey r = (eventId, agent, ackType) := by
    intro r
    rw [hlist, List.mem_filter, decide_eq_true_eq]
  cases hcase : receiptOriginals db eventId (some agent) (some ackType) with
  | nil =>
    rw [hcase] at hmem
    cases hmem
  | cons first rest =>
    rw [hcase] at hids hof
    obtain ⟨hafter, -⟩ := List.pairwise_cons.mp hids
    obtain ⟨hfirst, hfirstKey⟩ := (hof first).mp (List.mem_cons_self ..)
    have hplain : first.isVariant = false := by
      rw [← Bool.not_eq_true, h.variants first hfirst]
      rintro ⟨r, hr, hrkey, hlt⟩
      rcases List.mem_cons.mp ((hof r).mpr ⟨hr, hrkey.trans hfirstKey⟩) with rfl | hrest
      · exact Nat.lt_irrefl _ hlt
      · exact (hafter r hrest).asymm hlt
    have hfirsts : first ∈ firstOriginals db := by
      rw [firstOriginals, List.mem_filter, hplain]
      exact ⟨hfirst, rfl⟩
    have hmerged : (originalKey first, first.issuer, first.id) ∈
        db.federationReceiptIn.map fun m => (mergedKey m, m.issuer, m.originalId) := by
      rw [h.merged]
      exact List.mem_map_of_mem hfirsts
    obtain ⟨m, hm, hcolumns⟩ := List.mem_map.mp hmerged
    obtain ⟨hmkey, hcolumns⟩ := Prod.mk.inj hcolumns
    have hkeys : db.federationReceiptIn.map mergedKey = (firstOriginals db).map originalKey := by
      have hmap := congrArg (List.map Prod.fst) h.merged
      rwa [List.map_map, List.map_map] at hmap
    refine ⟨first, rest, rfl, hplain, fun r hr => ?_, ⟨m, hm, hmkey.trans hfirstKey,
      (Prod.mk.inj hcolumns).2⟩, ?_⟩
    · obtain ⟨hrmem, hrkey⟩ := (hof r).mp (List.mem_cons_of_mem _ hr)
      exact (h.variants r hrmem).mpr ⟨first, hfirst, hfirstKey.trans hrkey.symm, hafter r hr⟩
    · rw [hkeys]
      exact List.count_eq_one_of_mem h.firstKeys (List.mem_map.mpr ⟨first, hfirsts, hfirstKey⟩)

/-- In every run of calls: a key keeps its first original, the only one that is no variant, and the
merged row that points to it; a call says whether its signature was stored, which from then on is
there once and unchanged; and a stage, which has an original behind it, does not fall back. -/
theorem receipt_ledger {start db : Db} {calls : List (Option Call)}
    (hstart : receiptLedger.init start) (hrun : Trace receiptLedger start calls db) :
    (∀ eventId agent ackType,
      (∃ row ∈ db.federationReceiptInOriginals, originalKey row = (eventId, agent, ackType)) →
      ∃ first m, first.isVariant = false ∧ mergedKey m = (eventId, agent, ackType) ∧
        m.originalId = first.id ∧ ∀ later db', Trace receiptLedger db later db' →
          (∃ rest, receiptOriginals db' eventId (some agent) (some ackType) = first :: rest ∧
            ∀ row ∈ rest, row.isVariant = true) ∧
          m ∈ db'.federationReceiptIn ∧
          (db'.federationReceiptIn.map mergedKey).count (eventId, agent, ackType) = 1) ∧
    (∀ p status db', Records db (some (p, status)) db' →
      (status = .duplicate ↔ (p.key, p.sig) ∈ db.federationReceiptInOriginals.map signedKey) ∧
      ∃ row, signedKey row = (p.key, p.sig) ∧
        (status = .stored → row.issuer = p.issuer ∧ row.issuerKeyId = p.issuerKeyId ∧
          row.signedJson = p.signedJson) ∧
        ∀ later db'', Trace receiptLedger db' later db'' →
          row ∈ db''.federationReceiptInOriginals ∧
          (db''.federationReceiptInOriginals.map signedKey).count (p.key, p.sig) = 1) ∧
    (∀ eventId agent later db', Trace receiptLedger db later db' →
      (receiptStage db eventId agent = some .applied →
        receiptStage db' eventId agent = some .applied) ∧
      (receiptStage db eventId agent ≠ none → receiptStage db' eventId agent ≠ none)) ∧
    ∀ eventId agent ackType, receiptStage db eventId agent = some ackType →
      ∃ row ∈ db.federationReceiptInOriginals, originalKey row = (eventId, agent, ackType) := by
  have hreach : Reachable receiptLedger db := hrun.reachable (.init hstart)
  have hledger := ledgered_of_reach hreach
  refine ⟨?_, ?_, ?_, ?_⟩
  · rintro eventId agent ackType ⟨row, hrow, hkey⟩
    obtain ⟨first, rest, hlist, hfirst, -, ⟨m, hm, hmkey, hid⟩, -⟩ := hledger.originals hrow hkey
    refine ⟨first, m, hfirst, hmkey, hid, fun later db' hlater => ?_⟩
    have hledger' := ledgered_of_reach (hlater.reachable hreach)
    have hextends := extends_of_trace hreach hlater
    obtain ⟨first', rest', hlist', -, hvariants', -, hcount'⟩ :=
      hledger'.originals (hextends.originals.subset hrow) hkey
    have hprefix : receiptOriginals db eventId (some agent) (some ackType) <+:
        receiptOriginals db' eventId (some agent) (some ackType) := by
      rw [hledger.receiptOriginals_eq, hledger'.receiptOriginals_eq]
      exact hextends.originals.filter _
    rw [hlist, hlist'] at hprefix
    obtain ⟨hsame, -⟩ := List.cons_prefix_cons.mp hprefix
    exact ⟨⟨rest', hsame ▸ hlist', hvariants'⟩, hextends.merged.subset hm, hcount'⟩
  · intro p status db' hstep
    have hreach' : Reachable receiptLedger db' := .step hreach trivial hstep
    cases hstep with
    | record hcall =>
      obtain ⟨hledger', hextends, hduplicate, hstored⟩ := hledger.record hcall
      have hkept : ∃ row ∈ db'.federationReceiptInOriginals, signedKey row = (p.key, p.sig) ∧
          (status = .stored → row.issuer = p.issuer ∧ row.issuerKeyId = p.issuerKeyId ∧
            row.signedJson = p.signedJson) := by
        cases status with
        | stored => exact ⟨_, hstored rfl, rfl, fun _ => ⟨rfl, rfl, rfl⟩⟩
        | duplicate =>
          obtain ⟨row, hrow, hkey⟩ := List.mem_map.mp (hduplicate.mp rfl)
          exact ⟨row, hextends.originals.subset hrow, hkey, nofun⟩
      obtain ⟨row, hrow, hkey, hfields⟩ := hkept
      refine ⟨hduplicate, row, hkey, hfields, fun later db'' hlater => ?_⟩
      have hrow' := (extends_of_trace hreach' hlater).originals.subset hrow
      have hledger'' := ledgered_of_reach (hlater.reachable hreach')
      refine ⟨hrow', List.count_eq_one_of_mem hledger''.signatures ?_⟩
      exact List.mem_map.mpr ⟨row, hrow', hkey⟩
  · intro eventId agent later db' hlater
    exact (extends_of_trace hreach hlater).stage eventId agent
  · intro eventId agent ackType hstage
    exact (hledger.merged_iff _).mp (receiptStage_merged hstage)

/-- Bob received Alice's message. -/
def bobReceipt : ReceiptParams where
  eventId := lit "id"
  agent := lit "bob@org-b"
  ackType := .received
  issuer := lit "org-b"
  issuerKeyId := lit "ob-1"
  signedJson := []
  sig := lit "sig"
  notifyAgent := some (lit "alice")
  notifyDetail := []

/-- A receipt that comes again is a duplicate. -/
theorem receipt_ledger_bob : ∃ db, Trace receiptLedger {} [some (bobReceipt, .stored)] db ∧
    ∀ status db', Records db (some (bobReceipt, status)) db' → status = .duplicate := by
  have hcall : Records {} (some (bobReceipt, .stored)) (storeReceipt fedA {} bobReceipt noon) :=
    .record (recordReceiptIn_eq fedA {} bobReceipt noon)
  have hrun : Trace receiptLedger {} ([] ++ [some (bobReceipt, .stored)]) _ := .snoc .nil hcall
  refine ⟨_, hrun, fun status db' hstep => ?_⟩
  exact ((receipt_ledger ⟨rfl, rfl⟩ hrun).2.1 bobReceipt status db' hstep).1.mpr
    (List.mem_singleton_self _)

end Federation
end ATalk
