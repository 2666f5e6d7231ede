import ATalk.Federation.Notifications
import ATalk.Lib.Sweep

/-!
# The scan of the hints

`hint_notifications` walks the pending agent rows by pages of a hundred, fifty of them at most, and
goes on where it stopped when it is called again. The walk is a sweep over the keys of the rows.

* `HintCall` : a call whose page reads may see different tables, `HintCall.sweep`;
* `hintPages_call` : the call of the code, with the rows that it hands over;
* `hint_scan_covers` : every agent row that stays pending is handed over.
-/

namespace ATalk
namespace Federation

open Text Json Python Transition ATalk.Core Sweep

/-! ## The pending rows -/

/-- `hint_sent=0 AND acked=0 AND agent IS NOT NULL` -/
def hintPending (row : NotificationRow) : Bool := !row.hintSent && !row.acked && row.agent.isSome

def pendingHints (db : Db) : List NotificationRow := db.federationNotifications.filter hintPending

/-- Their positions in the order of the scan. -/
def pendingKeys (db : Db) : Finset HintCursor := ((pendingHints db).map hintCursor).toFinset

/-- The key of the table. -/
def HintIds (db : Db) : Prop := (db.federationNotifications.map (·.intentId)).Nodup

theorem mem_pendingKeys {db : Db} {key : HintCursor} : key ∈ pendingKeys db ↔
    ∃ row ∈ db.federationNotifications, hintPending row = true ∧ hintCursor row = key := by
  rw [pendingKeys, List.mem_toFinset, List.mem_map]
  constructor
  · rintro ⟨row, hrow, rfl⟩
    obtain ⟨hmem, hpending⟩ := List.mem_filter.mp hrow
    exact ⟨row, hmem, hpending, rfl⟩
  · rintro ⟨row, hmem, hpending, rfl⟩
    exact ⟨row, List.mem_filter.mpr ⟨hmem, hpending⟩, rfl⟩

theorem nodup_keys {rows : List NotificationRow} (h : (rows.map (·.intentId)).Nodup) :
    (rows.map hintCursor).Nodup := by
  refine List.Nodup.of_map (fun key : HintCursor => (ofLex key).2) ?_
  rw [List.map_map]
  exact h

/-! ## A page -/

variable {db db' : Db} {after cursor : Option HintCursor} {limit : ℕ}

theorem after_iff {key : HintCursor} : (after.all (· < key)) = true ↔ After after key := by
  cases after with
  | none => exact iff_of_true rfl (after_none key)
  | some p => exact decide_eq_true_iff.trans after_some.symm

theorem mem_undelivered {row : NotificationRow} (h : row ∈ undeliveredHints db after limit) :
    row ∈ db.federationNotifications ∧ hintPending row = true ∧ After after (hintCursor row) := by
  have hmem := (List.perm_insertionSort _ _).mem_iff.mp (List.mem_of_mem_take h)
  obtain ⟨hrow, hfilter⟩ := List.mem_filter.mp hmem
  rw [Bool.and_eq_true, after_iff] at hfilter
  exact ⟨hrow, hfilter.1, hfilter.2⟩

/-- The keys of a page. -/
def pageKeys (page : List NotificationRow) : Finset HintCursor := (page.map hintCursor).toFinset

theorem mem_pageKeys {page : List NotificationRow} {key : HintCursor} :
    key ∈ pageKeys page ↔ ∃ row ∈ page, hintCursor row = key := by
  rw [pageKeys, List.mem_toFinset, List.mem_map]

theorem nodup_undelivered (hids : HintIds db) :
    ((undeliveredHints db after limit).map hintCursor).Nodup := by
  refine nodup_keys ?_
  have hids : (db.federationNotifications.map (·.intentId)).Nodup := hids
  have hfilter := hids.sublist ((List.filter_sublist (p := fun row =>
    !row.hintSent && !row.acked && row.agent.isSome && after.all (· < hintCursor row))
      (l := db.federationNotifications)).map (·.intentId))
  have hsorted := ((List.perm_insertionSort (hintCursor · ≤ hintCursor ·) _).map
    (·.intentId)).nodup_iff.mpr hfilter
  exact hsorted.sublist ((List.take_sublist _ _).map _)

theorem card_pageKeys (hids : HintIds db) :
    (pageKeys (undeliveredHints db after limit)).card =
      (undeliveredHints db after limit).length := by
  rw [pageKeys, List.toFinset_card_of_nodup (nodup_undelivered hids), List.length_map]

/-- The page is that of the keys. -/
theorem pageOf_undelivered (hids : HintIds db) : PageOf limit (pendingKeys db) after
    (pageKeys (undeliveredHints db after limit)) where
  mem := by
    intro key hkey
    obtain ⟨row, hrow, rfl⟩ := mem_pageKeys.mp hkey
    obtain ⟨hmem, hpending, hafter⟩ := mem_undelivered hrow
    exact ⟨mem_pendingKeys.mpr ⟨row, hmem, hpending, rfl⟩, hafter⟩
  card_le := by
    rw [card_pageKeys hids]
    exact List.length_take_le _ _
  full := by
    intro key hkey hafter hmiss
    obtain ⟨row, hrow, hpending, rfl⟩ := mem_pendingKeys.mp hkey
    have hfilter : row ∈ db.federationNotifications.filter fun row =>
        !row.hintSent && !row.acked && row.agent.isSome && after.all (· < hintCursor row) := by
      refine List.mem_filter.mpr ⟨hrow, ?_⟩
      rw [Bool.and_eq_true, after_iff]
      exact ⟨hpending, hafter⟩
    have hnot : row ∉ undeliveredHints db after limit := fun h =>
      hmiss (mem_pageKeys.mpr ⟨row, h, rfl⟩)
    obtain ⟨hlength, hbefore⟩ := hintPage_full hfilter hnot
    refine ⟨(card_pageKeys hids).trans hlength, fun key' hkey' => ?_⟩
    obtain ⟨row', hrow', rfl⟩ := mem_pageKeys.mp hkey'
    refine lt_of_le_of_ne (hbefore row' hrow').2 fun heq => ?_
    exact hmiss (heq ▸ mem_pageKeys.mpr ⟨row', hrow', rfl⟩)

/-- The last row of a page has its greatest key. -/
theorem le_getLast {last : NotificationRow}
    (hlast : (undeliveredHints db after limit).getLast? = some last) :
    ∀ row ∈ undeliveredHints db after limit, hintCursor row ≤ hintCursor last := by
  intro row hrow
  have hsorted := (List.pairwise_insertionSort
    (fun a b : NotificationRow => hintCursor a ≤ hintCursor b) _).sublist (List.take_sublist limit
      ((db.federationNotifications.filter fun row => !row.hintSent && !row.acked &&
        row.agent.isSome && after.all (· < hintCursor row)).insertionSort
          (hintCursor · ≤ hintCursor ·)))
  obtain ⟨front, hfront⟩ := List.getLast?_eq_some_iff.mp hlast
  change (undeliveredHints db after limit).Pairwise _ at hsorted
  rw [hfront] at hsorted hrow
  rcases List.mem_append.mp hrow with hmem | hmem
  · exact (List.pairwise_append.mp hsorted).2.2 row hmem last (List.mem_singleton_self _)
  · rw [List.mem_singleton.mp hmem]

/-! ## A call -/

/-- A call that may read so many pages: what the table is at each read, the rows that are handed
over, and the positions before and after it. -/
inductive HintCall :
    ℕ → Option HintCursor → List Db → List NotificationRow → Option HintCursor → Prop
  | budget (after : Option HintCursor) : HintCall 0 after [] [] after
  | wrap {pages : ℕ} {after : Option HintCursor} {db : Db}
      (hshort : (undeliveredHints db after 100).length < 100) :
      HintCall (pages + 1) after [db] (undeliveredHints db after 100) none
  | full {pages : ℕ} {after cursor : Option HintCursor} {db : Db} {reads : List Db}
      {last : NotificationRow} {rest : List NotificationRow}
      (hlast : (undeliveredHints db after 100).getLast? = some last)
      (hfull : ¬ (undeliveredHints db after 100).length < 100)
      (hrest : HintCall pages (some (hintCursor last)) reads rest cursor) :
      HintCall (pages + 1) after (db :: reads) (undeliveredHints db after 100 ++ rest) cursor

variable {pages : ℕ} {reads : List Db} {rows : List NotificationRow}

theorem mem_pageKeys_append {page rest : List NotificationRow} {key : HintCursor} :
    key ∈ pageKeys (page ++ rest) ↔ key ∈ pageKeys page ∨ key ∈ pageKeys rest := by
  simp only [mem_pageKeys, List.mem_append, or_and_right, exists_or]

/-- A call sweeps over the keys. -/
theorem HintCall.sweep (h : HintCall pages after reads rows cursor)
    (hids : ∀ db ∈ reads, HintIds db) :
    Sweep.Call 100 pages after (reads.map pendingKeys) (pageKeys rows) cursor := by
  induction h with
  | budget after => exact .budget after
  | @wrap pages after db hshort =>
    have hdb := hids db (List.mem_singleton_self _)
    refine .wrap (pageOf_undelivered hdb) ?_
    rw [card_pageKeys hdb]
    exact hshort
  | @full pages after cursor db reads last rest hlast hfull hrest ih =>
    have hdb := hids db List.mem_cons_self
    have hcount : (pageKeys (undeliveredHints db after 100)).card = 100 := by
      have hcard : (pageKeys (undeliveredHints db after 100)).card = _ := card_pageKeys hdb
      have hle : (pageKeys (undeliveredHints db after 100)).card ≤ 100 :=
        (pageOf_undelivered hdb).card_le
      omega
    refine .of_full (pageOf_undelivered hdb) hcount ?_ ?_
      (ih fun db hread => hids db (List.mem_cons_of_mem _ hread)) fun key => mem_pageKeys_append
    · exact mem_pageKeys.mpr ⟨last, List.mem_of_getLast? hlast, rfl⟩
    · intro key hkey
      obtain ⟨row, hrow, rfl⟩ := mem_pageKeys.mp hkey
      exact le_getLast hlast row hrow

/-- What is handed over was read, and waits for a hint. -/
theorem HintCall.pending (h : HintCall pages after reads rows cursor) :
    ∀ row ∈ rows, ∃ db ∈ reads, row ∈ pendingHints db := by
  induction h with
  | budget after => exact nofun
  | @wrap pages after db hshort =>
    intro row hrow
    obtain ⟨hmem, hpending, -⟩ := mem_undelivered hrow
    exact ⟨db, List.mem_singleton_self _, List.mem_filter.mpr ⟨hmem, hpending⟩⟩
  | @full pages after cursor db reads last rest hlast hfull hrest ih =>
    intro row hrow
    rcases List.mem_append.mp hrow with hfirst | hlater
    · obtain ⟨hmem, hpending, -⟩ := mem_undelivered hfirst
      exact ⟨db, List.mem_cons_self, List.mem_filter.mpr ⟨hmem, hpending⟩⟩
    · obtain ⟨db', hread, hmem⟩ := ih row hlater
      exact ⟨db', List.mem_cons_of_mem _ hread, hmem⟩

theorem agent_of_pending {row : NotificationRow} (h : row ∈ pendingHints db) :
    row.agent ≠ none := by
  have hpending := (List.mem_filter.mp h).2
  rw [hintPending, Bool.and_eq_true] at hpending
  intro hnone
  rw [hnone] at hpending
  cases hpending.2

/-! ## The call of the code -/

variable {woken : NotificationRow → Bool}

/-- The rows that `hintPages` hands to `_hint_one`. -/
def handedOver (woken : NotificationRow → Bool) :
    ℕ → Db → Option HintCursor → List NotificationRow
  | 0, _, _ => []
  | pages + 1, db, after =>
    let page := undeliveredHints db after 100
    match page.getLast? with
    | none => []
    | some last =>
      if page.length < 100 then page
      else page ++ handedOver woken pages (page.foldl (hintOne woken) db) (some (hintCursor last))

/-- What the table is at its reads. -/
def readsOf (woken : NotificationRow → Bool) : ℕ → Db → Option HintCursor → List Db
  | 0, _, _ => []
  | pages + 1, db, after =>
    let page := undeliveredHints db after 100
    match page.getLast? with
    | none => [db]
    | some last =>
      if page.length < 100 then [db]
      else db :: readsOf woken pages (page.foldl (hintOne woken) db) (some (hintCursor last))

theorem hintPages_call (woken : NotificationRow → Bool) (pages : ℕ) (db : Db)
    (after : Option HintCursor) :
    HintCall pages after (readsOf woken pages db after) (handedOver woken pages db after)
      (hintPages woken pages db after).2 := by
  induction pages generalizing db after with
  | zero => exact .budget after
  | succ pages ih =>
    simp only [readsOf, handedOver, hintPages]
    cases hlast : (undeliveredHints db after 100).getLast? with
    | none =>
      have hempty := List.getLast?_eq_none_iff.mp hlast
      have hshort : (undeliveredHints db after 100).length < 100 := by rw [hempty]; decide
      have hcall : HintCall (pages + 1) after [db] (undeliveredHints db after 100) none :=
        .wrap hshort
      rw [hempty] at hcall
      exact hcall
    | some last =>
      dsimp only
      split_ifs with hshort
      · exact .wrap hshort
      · exact .full hlast hshort (ih _ _)

/-! ### What a call leaves -/

theorem hintIds_hintOne (row : NotificationRow) (h : HintIds db) :
    HintIds (hintOne woken db row) := by
  obtain ⟨k, hk, hflags⟩ := (hintOne_marks woken db row).rows
  rw [HintIds, hk, List.map_map]
  have hsame : ((·.intentId) ∘ k : NotificationRow → Str) = (·.intentId) :=
    funext fun row => (hflags row).intentId
  rw [hsame]
  exact h

theorem hintIds_foldl (page : List NotificationRow) (h : HintIds db) :
    HintIds (page.foldl (hintOne woken) db) := by
  induction page generalizing db with
  | nil => exact h
  | cons row page ih => exact ih (hintIds_hintOne row h)

/-- Marks take rows from those that wait, -/
theorem pendingKeys_hintOne (row : NotificationRow) :
    pendingKeys (hintOne woken db row) ⊆ pendingKeys db := by
  intro key hkey
  unfold hintOne at hkey
  split_ifs at hkey
  · obtain ⟨r', hr', hpending, rfl⟩ := mem_pendingKeys.mp hkey
    obtain ⟨r, hr, rfl⟩ := List.mem_map.mp hr'
    split_ifs at hpending ⊢ with hid
    · simp [hintPending] at hpending
    · exact mem_pendingKeys.mpr ⟨r, hr, hpending, rfl⟩
  · exact hkey

theorem pendingKeys_foldl (page : List NotificationRow) :
    pendingKeys (page.foldl (hintOne woken) db) ⊆ pendingKeys db := by
  induction page generalizing db with
  | nil => exact fun key hkey => hkey
  | cons row page ih => exact ih.trans (pendingKeys_hintOne row)

/-- and leave the other rows. -/
theorem mem_foldl_hintOne {page : List NotificationRow} {r : NotificationRow}
    (hr : r ∈ db.federationNotifications) (hnot : ∀ row ∈ page, row.intentId ≠ r.intentId) :
    r ∈ (page.foldl (hintOne woken) db).federationNotifications := by
  induction page generalizing db with
  | nil => exact hr
  | cons row page ih =>
    refine ih ?_ fun row' hrow' => hnot row' (List.mem_cons_of_mem _ hrow')
    unfold hintOne
    split_ifs
    · refine List.mem_map.mpr ⟨r, hr, if_neg fun hid => ?_⟩
      exact hnot row List.mem_cons_self hid.symm
    · exact hr

/-- A call takes keys from those that wait. -/
theorem pendingKeys_hintPages (pages : ℕ) (db : Db) (after : Option HintCursor) :
    pendingKeys (hintPages woken pages db after).1 ⊆ pendingKeys db := by
  induction pages generalizing db after with
  | zero => exact fun key hkey => hkey
  | succ pages ih =>
    simp only [hintPages]
    split
    · exact fun key hkey => hkey
    · split_ifs
      · exact pendingKeys_foldl _
      · exact (ih _ _).trans (pendingKeys_foldl _)

/-- A key that a page does not have waits after it. -/
theorem pending_foldl {key : HintCursor} (hids : HintIds db) (hkey : key ∈ pendingKeys db)
    (hmiss : key ∉ pageKeys (undeliveredHints db after limit)) :
    key ∈ pendingKeys ((undeliveredHints db after limit).foldl (hintOne woken) db) := by
  obtain ⟨r, hr, hpending, rfl⟩ := mem_pendingKeys.mp hkey
  refine mem_pendingKeys.mpr ⟨r, mem_foldl_hintOne hr fun row hrow hid => ?_, hpending, rfl⟩
  have hsame : row = r := List.inj_on_of_nodup_map hids (mem_undelivered hrow).1 hr hid
  exact hmiss (mem_pageKeys.mpr ⟨row, hrow, by rw [hsame]⟩)

/-- The tables at the reads of a call: the keys that wait are among those at its start, and those
that it does not hand over are all there. -/
structure ReadFrom (db : Db) (handed : List NotificationRow) (read : Db) : Prop where
  ids : HintIds read
  within : pendingKeys read ⊆ pendingKeys db
  waits : ∀ key ∈ pendingKeys db, key ∉ pageKeys handed → key ∈ pendingKeys read

theorem readsOf_readFrom (pages : ℕ) (db : Db) (after : Option HintCursor) (hids : HintIds db) :
    ∀ read ∈ readsOf woken pages db after, ReadFrom db (handedOver woken pages db after) read := by
  induction pages generalizing db after with
  | zero => exact nofun
  | succ pages ih =>
    have hself : ∀ handed, ReadFrom db handed db := fun handed =>
      ⟨hids, Finset.Subset.refl _, fun key hkey _ => hkey⟩
    simp only [readsOf, handedOver]
    split
    · intro read hread
      rw [List.mem_singleton.mp hread]
      exact hself _
    · split_ifs
      · intro read hread
        rw [List.mem_singleton.mp hread]
        exact hself _
      · intro read hread
        rcases List.mem_cons.mp hread with rfl | hlater
        · exact hself _
        · have hrest := ih _ _ (hintIds_foldl _ hids) read hlater
          refine ⟨hrest.ids, hrest.within.trans (pendingKeys_foldl _), fun key hkey hmiss => ?_⟩
          rw [mem_pageKeys_append, not_or] at hmiss
          exact hrest.waits key (pending_foldl hids hkey hmiss.1) hmiss.2

/-! ## Runs -/

/-- Serialized calls of any kind. -/
structure HintCalls where
  cursor : ℕ → Option HintCursor
  reads : ℕ → List Db
  handed : ℕ → List NotificationRow
  ids : ∀ i, ∀ db ∈ reads i, HintIds db
  call : ∀ i, HintCall 50 (cursor i) (reads i) (handed i) (cursor (i + 1))

/-- Calls of `hint_notifications` one after the other. In between rows may be acknowledged or
marked, and none is added. -/
structure HintRun where
  woken : ℕ → NotificationRow → Bool
  db : ℕ → Db
  cursor : ℕ → Option HintCursor
  ids : ∀ i, HintIds (db i)
  next : ∀ i, cursor (i + 1) = (hintNotifications (woken i) (db i) (cursor i)).2
  between : ∀ i,
    pendingKeys (db (i + 1)) ⊆ pendingKeys (hintNotifications (woken i) (db i) (cursor i)).1

/-- The keyset scan of the calls. -/
def HintCalls.run (calls : HintCalls) : Run HintCursor 100 50 where
  pos := calls.cursor
  tables i := (calls.reads i).map pendingKeys
  read i := pageKeys (calls.handed i)
  call i := (calls.call i).sweep (calls.ids i)

/-- The rows that a call hands over. -/
def HintRun.handed (run : HintRun) (i : ℕ) : List NotificationRow :=
  handedOver (run.woken i) 50 (run.db i) (run.cursor i)

theorem HintRun.readFrom (run : HintRun) (i : ℕ) :
    ∀ read ∈ readsOf (run.woken i) 50 (run.db i) (run.cursor i),
      ReadFrom (run.db i) (run.handed i) read := readsOf_readFrom 50 _ _ (run.ids i)

def HintRun.calls (run : HintRun) : HintCalls where
  cursor := run.cursor
  reads i := readsOf (run.woken i) 50 (run.db i) (run.cursor i)
  handed := run.handed
  ids i db hread := (run.readFrom i db hread).ids
  call i := by
    rw [run.next i]
    exact hintPages_call (run.woken i) 50 (run.db i) (run.cursor i)

/-- No key comes to those of the first call. -/
theorem HintRun.within (run : HintRun) (i : ℕ) :
    pendingKeys (run.db i) ⊆ pendingKeys (run.db 0) := by
  induction i with
  | zero => exact fun key hkey => hkey
  | succ i ih => exact (run.between i).trans ((pendingKeys_hintPages 50 _ _).trans ih)

/-- One key for each row that waits. -/
theorem card_pendingKeys (hids : HintIds db) :
    (pendingKeys db).card = (pendingHints db).length := by
  have hids : (db.federationNotifications.map (·.intentId)).Nodup := hids
  have hfilter : ((pendingHints db).map (·.intentId)).Nodup :=
    hids.sublist (List.filter_sublist.map _)
  rw [pendingKeys, List.toFinset_card_of_nodup (nodup_keys hfilter), List.length_map]

/-- A key that waits until it is handed over is handed over. -/
theorem HintRun.covered (run : HintRun) {key : HintCursor} {bound : ℕ}
    (hbound : (pendingHints (run.db 0)).length / 5000 + 2 ≤ bound)
    (hwaits : ∀ i < bound, (∀ j < i, key ∉ pageKeys (run.handed j)) →
      key ∈ pendingKeys (run.db i)) : ∃ i < bound, key ∈ pageKeys (run.handed i) := by
  by_contra hnever
  push Not at hnever
  have hall : ∀ i < bound, key ∈ pendingKeys (run.db i) := fun i hi =>
    hwaits i hi fun j hj => hnever j (hj.trans hi)
  have hwithin : run.calls.run.Within (pendingKeys (run.db 0)) := by
    intro i table htable
    obtain ⟨read, hread, rfl⟩ := List.mem_map.mp htable
    exact (run.readFrom i read hread).within.trans (run.within i)
  rw [← card_pendingKeys (run.ids 0)] at hbound
  have hstays : run.calls.run.Stays key 0 ((pendingKeys (run.db 0)).card / 5000 + 2) := by
    intro i _ hi table htable
    obtain ⟨read, hread, rfl⟩ := List.mem_map.mp htable
    have hib : i < bound := by omega
    exact (run.readFrom i read hread).waits key (hall i hib) (hnever i hib)
  obtain ⟨i, hi, hread⟩ := Run.covered rfl (by decide) hwithin hstays
  exact hnever i (by omega) hread

/-- One row that nobody takes. -/
def lonelyRow : NotificationRow :=
  { intentId := lit "i-1", kind := lit "send_failed", agent := some (lit "alice"), eventId := none,
    detail := [], hintSent := false, acked := false, createdAt := lit "2026-01-01T00:00:00Z" }

def lonelyRun : HintRun where
  woken _ _ := false
  db _ := { federationNotifications := [lonelyRow] }
  cursor _ := none
  ids _ := List.nodup_singleton _
  next _ := rfl
  between _ := fun _ hkey => hkey

end Federation
end ATalk
