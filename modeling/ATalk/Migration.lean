import ATalk.Lib.KeyedTable
import ATalk.Lib.Slices
import ATalk.Migration.Digest
import Mathlib.Data.Sum.Order
import Mathlib.Data.List.Lex
import Mathlib.Data.List.Perm.Subperm
import Mathlib.Logic.Function.Basic

/-!
# Shadow migration

A snapshot of a SQLite ledger is copied into an rqlite ledger: `import` into an empty one, `sync` into
one that has rows. The rows of a table go over in slices, a transaction for each slice, and `compare`
sets the digests of both sides against each other.

* `Ledger` : the tables, each row with its key, and the sequences of AUTOINCREMENT;
* `importSnapshot`, `syncSnapshot`, `compare` : the migrator;
* `import_rows`, `sync_rows` : the rows of a table after one of them has returned;
* `shadow_faithful_iff` : an import is faithful, and a sync is as far as its slices reach.
-/

namespace ATalk
namespace Migration

open Text Python Sqlite KeyedTable Slices

/-! ## The schema -/

inductive Table where
  | peers
  | peerTokens
  | peerGrants
  | peerTargetAcl
  | peerTargetAclTargets
  | sourceCounters
  | events
  | acks
  | auditLog
  | settings
deriving DecidableEq, Repr

/-- `TABLES` -/
def tables : List Table :=
  [.peers, .peerTokens, .peerGrants, .peerTargetAcl, .peerTargetAclTargets, .sourceCounters, .events,
    .acks, .auditLog, .settings]

/-- `_columns` : the columns of the schema. -/
def columns : Table → List String
  | .peers => ["peer_id", "token_hash", "role", "platform", "endpoint", "delivery_class",
      "ack_timeout_sec", "created_at", "revoked_at"]
  | .peerTokens => ["id", "peer_id", "token_hash", "token_id", "device_label", "scope", "created_at",
      "grace_until", "revoked_at"]
  | .peerGrants => ["id", "grantor", "grantee", "command_type", "scope_json", "granted_at",
      "valid_until", "revoked_at"]
  | .peerTargetAcl => ["peer_id", "created_at", "updated_at"]
  | .peerTargetAclTargets => ["peer_id", "target_peer", "created_at"]
  | .sourceCounters => ["source", "last_seq"]
  | .events => ["id", "event_id", "source", "target", "type", "seq", "created_at", "stored_at",
      "payload_json", "requires_ack", "source_ref", "auth_actor"]
  | .acks => ["id", "event_id", "agent_id", "ack_type", "ack_at", "detail_json"]
  | .auditLog => ["id", "ts", "actor", "action", "source_ref", "target", "event_id", "result",
      "detail_json"]
  | .settings => ["key", "value"]

/-- `ORDER_BY` -/
def orderBy : Table → List String
  | .peers => ["peer_id"]
  | .peerTokens => ["id"]
  | .peerGrants => ["id"]
  | .peerTargetAcl => ["peer_id"]
  | .peerTargetAclTargets => ["peer_id", "target_peer"]
  | .sourceCounters => ["source"]
  | .events => ["id"]
  | .acks => ["id"]
  | .auditLog => ["id"]
  | .settings => ["key"]

/-- `PRIMARY_KEY` -/
def primaryKey : Table → List String
  | .peers => ["peer_id"]
  | .peerTokens => ["id"]
  | .peerGrants => ["id"]
  | .peerTargetAcl => ["peer_id"]
  | .peerTargetAclTargets => ["peer_id", "target_peer"]
  | .sourceCounters => ["source"]
  | .events => ["id"]
  | .acks => ["id"]
  | .auditLog => ["id"]
  | .settings => ["key"]

/-- Rows are listed in the order of their keys. -/
theorem orderBy_eq_primaryKey (t : Table) : orderBy t = primaryKey t := by
  cases t <;> rfl

/-- The tables whose ids AUTOINCREMENT counts. -/
def counted : Table → Bool
  | .peerTokens | .peerGrants | .events | .acks | .auditLog => true
  | _ => false

/-! ## Rows -/

/-- `row[column]` -/
def cell (t : Table) (cells : Cells) (column : String) : SqlVal :=
  cells.getD ((columns t).idxOf column) .null

/-- A value for each column; the values of the key are integers or texts. -/
structure Row (t : Table) where
  cells : Cells
  width : cells.length = (columns t).length
  keyed : ∀ column ∈ primaryKey t, (∃ i, cell t cells column = .int i) ∨
    ∃ s, cell t cells column = .text s

/-- A value of a key in the order of SQL: integers before texts. -/
def keyCell : SqlVal → ℤ ⊕ₗ Str
  | .text s => toLex (.inr s)
  | .int i => toLex (.inl i)
  | _ => toLex (.inl 0)

/-- What a row is listed by, and found by. -/
def Row.key {t : Table} (row : Row t) : List (ℤ ⊕ₗ Str) :=
  (orderBy t).map fun column => keyCell (cell t row.cells column)

/-- The id of a row that has one. -/
def Row.id {t : Table} (row : Row t) : ℤ :=
  match cell t row.cells "id" with
  | .int i => i
  | _ => 0

abbrev Contents (t : Table) := Keyed (@Row.key t)

/-- The tables, and `sqlite_sequence`. -/
structure Ledger where
  contents : ∀ t, Contents t
  sequence : Table → ℤ

/-- `_sqlite_rows` -/
def Ledger.rows (l : Ledger) (t : Table) : List (Row t) := (l.contents t).listing

/-! ## The target -/

inductive Stmt where
  | deleteSettings
  | insert (t : Table) (row : Row t)
  | upsert (t : Table) (row : Row t)

/-- What the migrator raises. -/
inductive Raised where
  | refused
  | notEmpty (occupied : List (Table × ℕ))
  | verification (mismatches : List (Table × ℕ × ℕ))

/-- A row is written, and the sequence of its table goes up to its id. -/
def Ledger.put (l : Ledger) (t : Table) (contents : Contents t) (row : Row t) : Ledger where
  contents := Function.update l.contents t contents
  sequence := if counted t then Function.update l.sequence t (max (l.sequence t) row.id)
    else l.sequence

/-- One statement. `refuses` stands for the constraints of the schema besides the keys: it may fail
any statement. -/
def exec (refuses : Ledger → Stmt → Bool) (l : Ledger) (s : Stmt) : Option Ledger :=
  if refuses l s then none
  else
    match s with
    | .deleteSettings =>
      some { l with contents := Function.update l.contents .settings Keyed.empty }
    | .insert t row => ((l.contents t).insert row).map fun contents => l.put t contents row
    | .upsert t row => some (l.put t ((l.contents t).upsert row) row)

/-- `client.transaction` : all of it, or none. -/
def transaction (refuses : Ledger → Stmt → Bool) (l : Ledger) (ss : List Stmt) : Option Ledger :=
  ss.foldlM (exec refuses) l

/-- One transaction after the other, up to the first that raises. -/
def transactions (refuses : Ledger → Stmt → Bool) : Ledger → List (List Stmt) →
    Ledger × Except Raised Unit
  | l, [] => (l, .ok ())
  | l, ss :: rest =>
    match transaction refuses l ss with
    | none => (l, .error .refused)
    | some l' => transactions refuses l' rest

/-- `_target_count` -/
def targetCount (l : Ledger) (t : Table) : ℕ := (l.contents t).rows.length

/-! ## The migrator -/

/-- The transactions for a table: `if statements` leaves out the empty ones. -/
def copies (stmt : ∀ t, Row t → Stmt) (snapshot : Ledger) (batchSize : ℤ) (t : Table) :
    List (List Stmt) :=
  ((batches (snapshot.rows t) batchSize).filter fun rows => !rows.isEmpty).map fun rows =>
    rows.map (stmt t)

abbrev Counts := List (Table × ℕ)

/-- `counts` -/
def counts (snapshot : Ledger) : Counts := tables.map fun t => (t, (snapshot.rows t).length)

def assertEmptyShadow (l : Ledger) : Except Raised Unit :=
  let occupied := ((tables.filter (· ≠ .settings)).map fun t => (t, targetCount l t)).filter (·.2 ≠ 0)
  if occupied = [] then .ok () else .error (.notEmpty occupied)

def verifyCounts (l : Ledger) (expected : Counts) : Except Raised Unit :=
  let mismatches := (expected.map fun e => (e.1, e.2, targetCount l e.1)).filter fun m =>
    m.2.1 ≠ m.2.2
  if mismatches = [] then .ok () else .error (.verification mismatches)

def importSnapshot (refuses : Ledger → Stmt → Bool) (snapshot l : Ledger) (batchSize : ℤ) :
    Ledger × Except Raised Counts :=
  match assertEmptyShadow l with
  | .error e => (l, .error e)
  | .ok () =>
    match transactions refuses l
        ([.deleteSettings] :: tables.flatMap (copies .insert snapshot batchSize)) with
    | (l', .error e) => (l', .error e)
    | (l', .ok ()) => (l', (verifyCounts l' (counts snapshot)).map fun _ => counts snapshot)

def syncSnapshot (refuses : Ledger → Stmt → Bool) (snapshot l : Ledger) (batchSize : ℤ) :
    Ledger × Except Raised Counts :=
  match transactions refuses l (tables.flatMap (copies .upsert snapshot batchSize)) with
  | (l', .error e) => (l', .error e)
  | (l', .ok ()) => (l', .ok (counts snapshot))

structure Report where
  source : TableDigest
  target : TableDigest
  isMatch : Bool

def compareTable (d : Digests) (snapshot l : Ledger) (t : Table) : Report :=
  let source := canonicalDigest d ((snapshot.rows t).map (·.cells))
  let target := canonicalDigest d ((l.rows t).map (·.cells))
  ⟨source, target, source = target⟩

def compare (d : Digests) (snapshot l : Ledger) : List (Table × Report) :=
  tables.map fun t => (t, compareTable d snapshot l t)

/-! ## Statements in a row -/

section
variable {refuses : Ledger → Stmt → Bool} {l l' : Ledger} {t t' : Table}

theorem put_self (l : Ledger) (t : Table) (contents : Contents t) (row : Row t) :
    (l.put t contents row).contents t = contents := Function.update_self ..

theorem put_of_ne (l : Ledger) (contents : Contents t) (row : Row t) (h : t' ≠ t) :
    (l.put t contents row).contents t' = l.contents t' := Function.update_of_ne h ..

theorem put_sequence (l : Ledger) (contents : Contents t) (row : Row t) :
    (l.put t contents row).sequence t = if counted t then max (l.sequence t) row.id
      else l.sequence t := by
  unfold Ledger.put
  split_ifs
  · exact Function.update_self ..
  · rfl

theorem put_sequence_of_ne (l : Ledger) (contents : Contents t) (row : Row t) (h : t' ≠ t) :
    (l.put t contents row).sequence t' = l.sequence t' := by
  unfold Ledger.put
  split_ifs
  · exact Function.update_of_ne h ..
  · rfl

/-- Transactions that all succeed are their statements in a row. -/
theorem transactions_ok {tss : List (List Stmt)} (h : transactions refuses l tss = (l', .ok ())) :
    transaction refuses l tss.flatten = some l' := by
  induction tss generalizing l with
  | nil =>
    cases h
    rfl
  | cons ss tss ih =>
    rw [transactions] at h
    split at h
    · cases h
    · next mid hmid =>
      unfold transaction at hmid ⊢
      rw [List.flatten_cons, List.foldlM_append, hmid]
      exact ih h

/-- The statements for a table. -/
theorem copies_flatten (stmt : ∀ t, Row t → Stmt) (snapshot : Ledger) (batchSize : ℤ) (t : Table) :
    (copies stmt snapshot batchSize t).flatten =
      (batches (snapshot.rows t) batchSize).flatten.map (stmt t) := by
  unfold copies
  generalize batches (snapshot.rows t) batchSize = slices
  induction slices with
  | nil => rfl
  | cons rows slices ih =>
    rw [List.filter_cons, List.flatten_cons, List.map_append, ← ih]
    cases rows <;> rfl

/-- The contents and the sequence of a table. -/
def Ledger.part (l : Ledger) (t : Table) : Contents t × ℤ := (l.contents t, l.sequence t)

/-- Statements that each write one table. -/
theorem parts_of_flatMap {f : Table → List Stmt} {R : ∀ t, Contents t × ℤ → Contents t × ℤ → Prop}
    (hf : ∀ t l l', transaction refuses l (f t) = some l' →
      R t (l.part t) (l'.part t) ∧ ∀ t' ≠ t, l'.part t' = l.part t')
    {ts : List Table} (hts : ts.Nodup) (h : transaction refuses l (ts.flatMap f) = some l') :
    (∀ t ∈ ts, R t (l.part t) (l'.part t)) ∧ ∀ t ∉ ts, l'.part t = l.part t := by
  induction ts generalizing l with
  | nil =>
    cases h
    exact ⟨nofun, fun _ _ => rfl⟩
  | cons s ts ih =>
    obtain ⟨hs, hrest⟩ := List.nodup_cons.mp hts
    unfold transaction at h
    rw [List.flatMap_cons, List.foldlM_append] at h
    obtain ⟨mid, hmid, hafter⟩ := Option.bind_eq_some_iff.mp h
    obtain ⟨hR, hsame⟩ := hf s l mid hmid
    obtain ⟨hall, hothers⟩ := ih hrest hafter
    refine ⟨fun t ht => ?_, fun t ht => ?_⟩
    · rcases List.mem_cons.mp ht with rfl | ht
      · rw [hothers t hs]
        exact hR
      · have hne : t ≠ s := fun heq => hs (heq ▸ ht)
        rw [← hsame t hne]
        exact hall t ht
    · obtain ⟨hne, hnot⟩ := not_or.mp (fun hor => ht (List.mem_cons.mpr hor))
      rw [hothers t hnot, hsame t hne]

/-- The sequence of a table after rows were written to it. -/
def sequenceAfter (t : Table) (sequence : ℤ) (rows : List (Row t)) : ℤ :=
  if counted t then rows.foldl (fun high row => max high row.id) sequence else sequence

theorem sequenceAfter_cons (sequence : ℤ) (row : Row t) (rows : List (Row t)) :
    sequenceAfter t sequence (row :: rows) =
      sequenceAfter t (if counted t then max sequence row.id else sequence) rows := by
  unfold sequenceAfter
  split_ifs <;> rfl

/-- Rows that were inserted. -/
theorem inserts_part {rows : List (Row t)}
    (h : transaction refuses l (rows.map (Stmt.insert t)) = some l') :
    ((l'.contents t).rows = (l.contents t).rows ++ rows ∧
      l'.sequence t = sequenceAfter t (l.sequence t) rows) ∧
      ∀ t' ≠ t, l'.part t' = l.part t' := by
  induction rows generalizing l with
  | nil =>
    cases h
    refine ⟨⟨(List.append_nil _).symm, ?_⟩, fun _ _ => rfl⟩
    unfold sequenceAfter
    split_ifs <;> rfl
  | cons row rows ih =>
    unfold transaction at h
    rw [List.map_cons, List.foldlM_cons] at h
    obtain ⟨mid, hmid, hafter⟩ := Option.bind_eq_some_iff.mp h
    unfold exec at hmid
    split_ifs at hmid
    obtain ⟨contents, hinsert, rfl⟩ := Option.map_eq_some_iff.mp hmid
    obtain ⟨⟨hrows, hsequence⟩, hothers⟩ := ih hafter
    refine ⟨⟨?_, ?_⟩, fun t' ht' => ?_⟩
    · rw [hrows, put_self, Keyed.insert_rows hinsert, List.append_assoc]
      rfl
    · rw [hsequence, put_sequence, sequenceAfter_cons]
    · rw [hothers t' ht', Ledger.part, put_of_ne l contents row ht',
        put_sequence_of_ne l contents row ht']
      rfl

/-- Rows that were put in place. -/
theorem upserts_part {rows : List (Row t)}
    (h : transaction refuses l (rows.map (Stmt.upsert t)) = some l') :
    l'.contents t = (l.contents t).upsertAll rows ∧ ∀ t' ≠ t, l'.part t' = l.part t' := by
  induction rows generalizing l with
  | nil =>
    cases h
    exact ⟨rfl, fun _ _ => rfl⟩
  | cons row rows ih =>
    unfold transaction at h
    rw [List.map_cons, List.foldlM_cons] at h
    obtain ⟨mid, hmid, hafter⟩ := Option.bind_eq_some_iff.mp h
    unfold exec at hmid
    split_ifs at hmid
    cases hmid
    obtain ⟨hcontents, hothers⟩ := ih hafter
    refine ⟨?_, fun t' ht' => ?_⟩
    · rw [hcontents, put_self]
      rfl
    · rw [hothers t' ht', Ledger.part, put_of_ne l _ row ht', put_sequence_of_ne l _ row ht']
      rfl

theorem tables_nodup : tables.Nodup := by decide

theorem mem_tables (t : Table) : t ∈ tables := by
  cases t <;> decide

/-! ## The two copies -/

variable {snapshot : Ledger} {batchSize : ℤ} {cs : Counts}

theorem map_flatten_flatMap (f : Table → List (List Stmt)) (ts : List Table) :
    (ts.flatMap f).flatten = ts.flatMap fun t => (f t).flatten := by
  induction ts with
  | nil => rfl
  | cons t ts ih => rw [List.flatMap_cons, List.flatMap_cons, List.flatten_append, ih]

/-- An import starts from an empty ledger. -/
theorem empty_of_assert (h : assertEmptyShadow l = .ok ()) (ht : t ≠ .settings) :
    (l.contents t).rows = [] := by
  unfold assertEmptyShadow at h
  simp only at h
  split_ifs at h with hnone
  have hmem : (t, targetCount l t) ∈ (tables.filter (· ≠ .settings)).map fun t =>
      (t, targetCount l t) :=
    List.mem_map.mpr ⟨t, List.mem_filter.mpr ⟨mem_tables t, decide_eq_true ht⟩, rfl⟩
  have hzero := List.filter_eq_nil_iff.mp hnone _ hmem
  rw [decide_eq_true_eq, not_not] at hzero
  exact List.eq_nil_of_length_eq_zero hzero

/-- An import that returns has counted the rows of every table. -/
theorem count_of_verify (h : verifyCounts l (counts snapshot) = .ok ()) (t : Table) :
    (l.contents t).rows.length = (snapshot.rows t).length := by
  unfold verifyCounts at h
  simp only at h
  split_ifs at h with hnone
  have hmem : (t, (snapshot.rows t).length, targetCount l t) ∈
      (counts snapshot).map fun e => (e.1, e.2, targetCount l e.1) :=
    List.mem_map.mpr ⟨_, List.mem_map_of_mem (mem_tables t), rfl⟩
  have hsame := List.filter_eq_nil_iff.mp hnone _ hmem
  rw [decide_eq_true_eq, not_not] at hsame
  exact hsame.symm

/-- What an import that returns has inserted. -/
theorem import_inserts (h : importSnapshot refuses snapshot l batchSize = (l', .ok cs)) (t : Table) :
    (l'.contents t).rows = (batches (snapshot.rows t) batchSize).flatten ∧
      l'.sequence t = sequenceAfter t (l.sequence t) (l'.contents t).rows ∧
      (l'.contents t).rows.length = (snapshot.rows t).length := by
  unfold importSnapshot at h
  split at h
  · cases h
  · next hempty =>
    split at h
    · cases h
    · next hrun =>
      obtain ⟨hsame, hverify⟩ := Prod.ext_iff.mp h
      simp only at hsame hverify
      rw [hsame] at hrun hverify
      cases hcounts : verifyCounts l' (counts snapshot) with
      | error e =>
        rw [hcounts] at hverify
        cases hverify
      | ok u =>
        have hrows := count_of_verify hcounts t
        have hstmts := transactions_ok hrun
        unfold transaction at hstmts
        rw [List.flatten_cons, List.singleton_append, List.foldlM_cons] at hstmts
        obtain ⟨cleared, hclear, hcopy⟩ := Option.bind_eq_some_iff.mp hstmts
        rw [map_flatten_flatMap] at hcopy
        have hpart := (parts_of_flatMap (R := fun t before after =>
          after.1.rows = before.1.rows ++ (batches (snapshot.rows t) batchSize).flatten ∧
            after.2 = sequenceAfter t before.2 (batches (snapshot.rows t) batchSize).flatten)
          (fun t l l' hrows => ?_) tables_nodup hcopy).1 t (mem_tables t)
        · obtain ⟨hcontents, hsequence⟩ := hpart
          have hbefore : (cleared.contents t).rows = [] ∧ cleared.sequence t = l.sequence t := by
            unfold exec at hclear
            split_ifs at hclear
            cases hclear
            refine ⟨?_, rfl⟩
            by_cases ht : t = .settings
            · rw [ht]
              show (Function.update l.contents .settings Keyed.empty .settings).rows = []
              rw [Function.update_self]
              rfl
            · show (Function.update l.contents .settings Keyed.empty t).rows = []
              rw [Function.update_of_ne ht]
              exact empty_of_assert hempty ht
          have hall : (l'.contents t).rows = (batches (snapshot.rows t) batchSize).flatten := by
            have hcontents' : (l'.contents t).rows =
                (cleared.contents t).rows ++ (batches (snapshot.rows t) batchSize).flatten :=
              hcontents
            rw [hcontents', hbefore.1, List.nil_append]
          refine ⟨hall, ?_, hrows⟩
          rw [hall, ← hbefore.2]
          exact hsequence
        · rw [copies_flatten] at hrows
          exact inserts_part hrows

/-- The rows of the snapshot are listed once. -/
theorem rows_nodup (l : Ledger) (t : Table) : (l.rows t).Nodup :=
  (l.contents t).listing_perm.nodup_iff.mpr (l.contents t).nodup

/-- After an import that returns, the target holds the rows of the snapshot. -/
theorem import_rows (h : importSnapshot refuses snapshot l batchSize = (l', .ok cs)) (t : Table)
    (row : Row t) : row ∈ (l'.contents t).rows ↔ row ∈ (snapshot.contents t).rows := by
  obtain ⟨hrows, -, hlength⟩ := import_inserts h t
  have hsub : (l'.contents t).rows ⊆ snapshot.rows t := by
    intro x hx
    rw [hrows, mem_batches (rows_nodup snapshot t)] at hx
    exact hx.1
  have hperm : (l'.contents t).rows.Perm (snapshot.rows t) :=
    (List.subperm_of_subset (l'.contents t).nodup hsub).perm_of_length_le hlength.ge
  rw [hperm.mem_iff]
  exact Keyed.mem_listing

/-- What the slices of a sync leave out. -/
def skipped (snapshot : Ledger) (batchSize : ℤ) (t : Table) : List (Row t) :=
  left (snapshot.rows t) batchSize

/-- After a sync that returns, the target holds the rows of the snapshot that are in a slice, and its
own that have other keys. -/
theorem sync_rows (h : syncSnapshot refuses snapshot l batchSize = (l', .ok cs)) (t : Table)
    (row : Row t) : row ∈ (l'.contents t).rows ↔
      row ∈ (snapshot.contents t).rows ∧ row ∉ skipped snapshot batchSize t ∨
        row ∈ (l.contents t).rows ∧
          ∀ x ∈ (snapshot.contents t).rows, x.key = row.key → x ∈ skipped snapshot batchSize t := by
  unfold syncSnapshot at h
  split at h
  · cases h
  · next hrun =>
    cases h
    have hstmts := transactions_ok hrun
    rw [map_flatten_flatMap] at hstmts
    have hpart := (parts_of_flatMap (R := fun t before after =>
      after.1 = before.1.upsertAll (batches (snapshot.rows t) batchSize).flatten)
      (fun t l l' hrows => ?_) tables_nodup hstmts).1 t (mem_tables t)
    · have hcontents : l'.contents t =
          (l.contents t).upsertAll (batches (snapshot.rows t) batchSize).flatten := hpart
      have hmem : ∀ x, x ∈ (batches (snapshot.rows t) batchSize).flatten ↔
          x ∈ (snapshot.contents t).rows ∧ x ∉ skipped snapshot batchSize t := by
        intro x
        rw [mem_batches (rows_nodup snapshot t)]
        exact and_congr_left fun _ => Keyed.mem_listing
      have hkeys : ∀ x ∈ (batches (snapshot.rows t) batchSize).flatten,
          ∀ y ∈ (batches (snapshot.rows t) batchSize).flatten, x.key = y.key → x = y :=
        fun x hx y hy hsame =>
          (snapshot.contents t).eq_of_key ((hmem x).mp hx).1 ((hmem y).mp hy).1 hsame
      rw [hcontents, Keyed.mem_upsertAll hkeys, hmem]
      refine or_congr_right (and_congr_right fun _ => ?_)
      constructor
      · intro hnot x hx hsame
        by_contra hin
        refine hnot ?_
        rw [← hsame]
        exact List.mem_map_of_mem ((hmem x).mpr ⟨hx, hin⟩)
      · intro hall hin
        obtain ⟨x, hx, hsame⟩ := List.mem_map.mp hin
        obtain ⟨hrow, hnot⟩ := (hmem x).mp hx
        exact hnot (hall x hrow hsame)
    · rw [copies_flatten] at hrows
      exact upserts_part hrows

/-! ## The law -/

theorem cells_injective {row row' : Row t} (h : row.cells = row'.cells) : row = row' := by
  cases row
  cases row'
  cases h
  rfl

/-- The sides match when they hold the same rows. -/
theorem match_iff {d : Digests} (hreal : Printed d.realText) (hsha : Function.Injective d.sha256) :
    (compareTable d snapshot l t).isMatch = true ↔
      ∀ row, row ∈ (snapshot.contents t).rows ↔ row ∈ (l.contents t).rows := by
  unfold compareTable
  rw [decide_eq_true_eq, canonicalDigest_eq_iff hreal hsha, ← Keyed.listing_eq_iff]
  exact (List.map_injective_iff.mpr fun _ _ => cells_injective).eq_iff

/-- Every row of the snapshot is in the target, and a table does not match exactly when the target has
a row that the snapshot lacks. -/
def Synced (d : Digests) (snapshot l : Ledger) : Prop :=
  (∀ t, ∀ row ∈ (snapshot.contents t).rows, row ∈ (l.contents t).rows) ∧
    ∀ t, (compareTable d snapshot l t).isMatch = false ↔
      ∃ row ∈ (l.contents t).rows, row ∉ (snapshot.contents t).rows

/-- After an import that returns every table matches. After a sync that returns every row of the
snapshot is in the target exactly when those that no slice holds were there before, and then `compare`
finds the rows that only the target has. -/
theorem shadow_faithful_iff (d : Digests) (hreal : Printed d.realText)
    (hsha : Function.Injective d.sha256) (refuses : Ledger → Stmt → Bool) (snapshot l l' : Ledger)
    (batchSize : ℤ) (cs : Counts) :
    (importSnapshot refuses snapshot l batchSize = (l', .ok cs) →
      ∀ entry ∈ compare d snapshot l', entry.2.isMatch = true) ∧
    (syncSnapshot refuses snapshot l batchSize = (l', .ok cs) →
      (Synced d snapshot l' ↔
        ∀ t, ∀ row ∈ skipped snapshot batchSize t, row ∈ (l.contents t).rows)) := by
  refine ⟨fun h entry hentry => ?_, fun h => ⟨fun hsynced t row hrow => ?_, fun hthere => ?_⟩⟩
  · obtain ⟨t, -, rfl⟩ := List.mem_map.mp hentry
    exact (match_iff hreal hsha).mpr fun row => (import_rows h t row).symm
  · have hsource : row ∈ (snapshot.contents t).rows :=
      Keyed.mem_listing.mp (left_subset _ _ hrow)
    rcases (sync_rows h t row).mp (hsynced.1 t row hsource) with ⟨-, hnot⟩ | ⟨hold, -⟩
    · exact absurd hrow hnot
    · exact hold
  · have hall : ∀ t, ∀ row ∈ (snapshot.contents t).rows, row ∈ (l'.contents t).rows := by
      intro t row hrow
      rw [sync_rows h t row]
      by_cases hskip : row ∈ skipped snapshot batchSize t
      · refine .inr ⟨hthere t row hskip, fun x hx hsame => ?_⟩
        rw [(snapshot.contents t).eq_of_key hx hrow hsame]
        exact hskip
      · exact .inl ⟨hrow, hskip⟩
    refine ⟨hall, fun t => ?_⟩
    rw [← Bool.not_eq_true, match_iff hreal hsha]
    constructor
    · intro hnot
      by_contra hnone
      refine hnot fun row => ⟨hall t row, fun hrow => ?_⟩
      by_contra hlack
      exact hnone ⟨row, hrow, hlack⟩
    · rintro ⟨row, hrow, hlack⟩ hsame
      exact hlack ((hsame row).mpr hrow)

end

/-- A ledger without rows. -/
def bare : Ledger := ⟨fun _ => Keyed.empty, fun _ => 0⟩

/-- A peer. -/
def aliceRow : Row .peers where
  cells := [.text (lit "alice"), .null, .null, .null, .null, .text (lit "normal"), .int 180,
    .text (lit "2026-01-01T00:00:00Z"), .null]
  width := rfl
  keyed column h := by
    rw [List.mem_singleton.mp h]
    exact .inr ⟨_, rfl⟩

/-- A ledger with one. -/
def withAlice : Ledger := bare.put .peers ⟨[aliceRow], List.nodup_singleton _⟩ aliceRow

/-- A target that an empty snapshot was imported into. -/
def imported : Ledger :=
  { bare with contents := Function.update bare.contents .settings Keyed.empty }

/-- A sync in slices of a hundred rows. -/
theorem shadow_faithful_iff_alice :
    Synced plainDigests withAlice (syncSnapshot (fun _ _ => false) withAlice imported 100).1 :=
  ((shadow_faithful_iff plainDigests plainReal_printed Function.injective_id (fun _ _ => false)
    withAlice imported _ 100 (counts withAlice)).2 (Prod.ext rfl rfl)).mpr fun _ _ h => nomatch h

/-- A sync in slices of no rows returns, and the target lacks a row of the snapshot. -/
theorem empty_slices_lose_rows : ¬ ∀ (d : Digests), Printed d.realText →
    Function.Injective d.sha256 → ∀ (refuses : Ledger → Stmt → Bool) (earlier later l target l' : Ledger)
      (batchSize batchSize' : ℤ) (cs cs' : Counts),
      importSnapshot refuses earlier l batchSize = (target, .ok cs) →
        syncSnapshot refuses later target batchSize' = (l', .ok cs') → Synced d later l' := by
  intro hclaim
  have hsynced := hclaim plainDigests plainReal_printed Function.injective_id (fun _ _ => false) bare
    withAlice bare imported imported 100 0 (counts bare) (counts withAlice) rfl rfl
  have hrow : aliceRow ∈ (withAlice.contents .peers).rows := by
    unfold withAlice
    rw [put_self]
    exact List.mem_singleton_self _
  have hthere := hsynced.1 .peers aliceRow hrow
  have hnone : (imported.contents .peers).rows = [] := by
    show (Function.update bare.contents .settings Keyed.empty .peers).rows = []
    rw [Function.update_of_ne (by decide)]
    rfl
  rw [hnone] at hthere
  cases hthere

end Migration
end ATalk
