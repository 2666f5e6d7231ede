import ATalk.Lib.Transition
import ATalk.Migration

/-!
# Cursors after a migration

AUTOINCREMENT counts the events of a ledger on from the larger of the highest id in the table and the
entry of `sqlite_sequence`. An import copies the rows and not the entry, so the target counts on from
the events that the snapshot still has.

* `writing` : the events that are inserted into a ledger and deleted from it;
* `cursors_survive_iff` : when every event of the target is behind every cursor of the source.
-/

namespace ATalk
namespace Migration

open Text Python Sqlite KeyedTable Transition

/-- The highest id in the table of events. -/
def highest (l : Ledger) : ℤ := ((l.contents .events).rows.map Row.id).foldl max 0

/-- The id that AUTOINCREMENT assigns. -/
def nextRowid (l : Ledger) : ℤ := max (highest l) (l.sequence .events) + 1

/-- A ledger, and the ids of events that it ever assigned. -/
structure History where
  ledger : Ledger
  assigned : List ℤ

inductive Write where
  | insert (row : Row .events)
  /-- Events are deleted or changed, and other tables in any way. -/
  | other (ledger : Ledger)

/-- The writes to a ledger. -/
def writing (start : Ledger → Prop) : System History Write where
  init h := start h.ledger ∧ h.assigned = []
  step h act h' :=
    match act with
    | .insert row => row.id = nextRowid h.ledger ∧
        ∃ contents, (h.ledger.contents .events).insert row = some contents ∧
          h' = ⟨h.ledger.put .events contents row, h.assigned ++ [row.id]⟩
    | .other ledger => ledger.sequence .events = h.ledger.sequence .events ∧
        (ledger.contents .events).rows.map Row.id ⊆ (h.ledger.contents .events).rows.map Row.id ∧
          h' = { h with ledger := ledger }

/-- A ledger without events that never had any. -/
def Fresh (l : Ledger) : Prop := (l.contents .events).rows = [] ∧ l.sequence .events = 0

/-! ## What is assigned -/

theorem le_foldl_max {xs : List ℤ} {a x : ℤ} : x ≤ xs.foldl max a ↔ x ≤ a ∨ ∃ y ∈ xs, x ≤ y := by
  induction xs generalizing a with
  | nil => simp
  | cons y xs ih =>
    rw [List.foldl_cons, ih, le_max_iff, or_assoc]
    refine or_congr_right ⟨?_, ?_⟩
    · rintro (hle | ⟨z, hz, hle⟩)
      · exact ⟨y, List.mem_cons_self, hle⟩
      · exact ⟨z, List.mem_cons_of_mem _ hz, hle⟩
    · rintro ⟨z, hz, hle⟩
      rcases List.mem_cons.mp hz with rfl | hz
      · exact .inl hle
      · exact .inr ⟨z, hz, hle⟩

section
variable {l : Ledger} {h : History} {start : Ledger → Prop}

theorem le_highest {x : ℤ} :
    x ≤ highest l ↔ x ≤ 0 ∨ ∃ row ∈ (l.contents .events).rows, x ≤ row.id := by
  unfold highest
  rw [le_foldl_max]
  simp

theorem put_events_sequence (contents : Contents .events) (row : Row .events) :
    (l.put .events contents row).sequence .events = max (l.sequence .events) row.id :=
  put_sequence l contents row

/-- Ids are assigned above the sequence, and above zero. -/
theorem lt_nextRowid (l : Ledger) : max 0 (l.sequence .events) < nextRowid l := by
  have hzero : 0 ≤ highest l := le_highest.mpr (.inl le_rfl)
  unfold nextRowid
  have hle : max 0 (l.sequence .events) ≤ max (highest l) (l.sequence .events) :=
    max_le_max hzero le_rfl
  omega

/-- What is assigned after a ledger was started is above its sequence. -/
theorem assigned_above {first : Ledger} (hh : Reachable (writing (· = first)) h) :
    first.sequence .events ≤ h.ledger.sequence .events ∧
      ∀ id ∈ h.assigned, max 0 (first.sequence .events) < id := by
  refine Reach.invariant (P := fun h : History =>
    first.sequence .events ≤ h.ledger.sequence .events ∧
      ∀ id ∈ h.assigned, max 0 (first.sequence .events) < id)
    (fun h hinit => ?_) (fun h act h' hinv _ hstep => ?_) hh
  · obtain ⟨hledger, hnone⟩ := hinit
    have hfirst : h.ledger = first := hledger
    rw [hfirst, hnone]
    exact ⟨le_rfl, nofun⟩
  · obtain ⟨hle, hall⟩ := hinv
    cases act with
    | insert row =>
      obtain ⟨hid, contents, -, rfl⟩ := hstep
      refine ⟨?_, fun id hmem => ?_⟩
      · rw [put_events_sequence]
        exact hle.trans (le_max_left _ _)
      · rcases List.mem_append.mp hmem with hold | hnew
        · exact hall id hold
        · rw [List.mem_singleton.mp hnew, hid]
          exact lt_of_le_of_lt (max_le_max le_rfl hle) (lt_nextRowid h.ledger)
    | other ledger =>
      obtain ⟨hsequence, -, rfl⟩ := hstep
      refine ⟨?_, hall⟩
      show first.sequence .events ≤ ledger.sequence .events
      rw [hsequence]
      exact hle

/-- Ids are assigned from one on. -/
theorem assigned_pos (hh : Reachable (writing start) h) : ∀ id ∈ h.assigned, 0 < id := by
  refine Reach.invariant (P := fun h : History => ∀ id ∈ h.assigned, 0 < id)
    (fun h hinit => ?_) (fun h act h' hinv _ hstep => ?_) hh
  · rw [hinit.2]
    exact nofun
  · cases act with
    | insert row =>
      obtain ⟨hid, contents, -, rfl⟩ := hstep
      intro id hmem
      rcases List.mem_append.mp hmem with hold | hnew
      · exact hinv id hold
      · rw [List.mem_singleton.mp hnew, hid]
        exact lt_of_le_of_lt (le_max_left _ _) (lt_nextRowid h.ledger)
    | other ledger =>
      obtain ⟨-, -, rfl⟩ := hstep
      exact hinv

/-- An event with an id of its own. -/
def eventWith (id : ℤ) : Row .events where
  cells := [.int id, .text (lit "e"), .text (lit "alice"), .text (lit "bob"), .text (lit "message"),
    .int id, .text (lit "t"), .text (lit "t"), .text (lit "{}"), .int 1, .null, .null]
  width := rfl
  keyed column h := by
    rw [List.mem_singleton.mp h]
    exact .inl ⟨id, rfl⟩

theorem id_of_key {row : Row .events} {id : ℤ} (h : row.key = (eventWith id).key) : row.id = id := by
  have hcell : keyCell (cell .events row.cells "id") = toLex (.inl id) := (List.cons.inj h).1
  unfold Row.id
  rcases row.keyed "id" (List.mem_singleton_self _) with ⟨i, hi⟩ | ⟨s, hs⟩
  · rw [hi] at hcell ⊢
    exact Sum.inl.inj (toLex.injective hcell)
  · rw [hs] at hcell
    exact absurd (toLex.injective hcell) (by simp)

/-- The next event can be inserted. -/
theorem insert_next (l : Ledger) : ∃ contents,
    (l.contents .events).insert (eventWith (nextRowid l)) = some contents := by
  unfold Keyed.insert
  split_ifs with htaken
  · obtain ⟨row, hrow, hkey⟩ := List.mem_map.mp htaken
    have hid := id_of_key hkey
    have hle : row.id ≤ highest l := le_highest.mpr (.inr ⟨row, hrow, le_rfl⟩)
    have hmax : highest l ≤ max (highest l) (l.sequence .events) := le_max_left _ _
    unfold nextRowid at hid
    omega
  · exact ⟨_, rfl⟩

/-- After an import the sequence of the target is as high as its own and the events of the snapshot. -/
theorem le_imported_sequence {refuses : Ledger → Stmt → Bool} {snapshot l' : Ledger} {batchSize : ℤ}
    {cs : Counts} (himport : importSnapshot refuses snapshot l batchSize = (l', .ok cs)) {x : ℤ} :
    x ≤ l'.sequence .events ↔ x ≤ l.sequence .events ∨
      ∃ row ∈ (snapshot.contents .events).rows, x ≤ row.id := by
  obtain ⟨-, hsequence, -⟩ := import_inserts himport .events
  have hfold : l'.sequence .events =
      ((l'.contents .events).rows.map Row.id).foldl max (l.sequence .events) := by
    rw [hsequence, List.foldl_map]
    rfl
  rw [hfold, le_foldl_max]
  refine or_congr_right ⟨?_, ?_⟩
  · rintro ⟨y, hy, hle⟩
    obtain ⟨row, hrow, rfl⟩ := List.mem_map.mp hy
    exact ⟨row, (import_rows himport .events row).mp hrow, hle⟩
  · rintro ⟨row, hrow, hle⟩
    exact ⟨row.id, List.mem_map_of_mem ((import_rows himport .events row).mpr hrow), hle⟩

end

/-! ## The law -/

/-- A cursor of a reader: no id that was ever assigned is lower than it, or it is at the start. -/
def IsCursor (h : History) (c : ℤ) : Prop := c ≤ 0 ∨ ∃ id ∈ h.assigned, c ≤ id

/-- Every event that the target assigns is behind every cursor of the source. -/
def Survives (h : History) (target : Ledger) : Prop :=
  ∀ c, IsCursor h c → ∀ later, Reachable (writing (· = target)) later →
    ∀ id ∈ later.assigned, c < id

/-- The cursors of a source survive an import exactly when its newest event is in the snapshot, or the
target had counted as far. -/
theorem cursors_survive_iff (refuses : Ledger → Stmt → Bool) (h : History)
    (hh : Reachable (writing Fresh) h) (l l' : Ledger) (batchSize : ℤ) (cs : Counts)
    (himport : importSnapshot refuses h.ledger l batchSize = (l', .ok cs)) :
    Survives h l' ↔ ∀ id ∈ h.assigned,
      id ≤ l.sequence .events ∨ ∃ row ∈ (h.ledger.contents .events).rows, id ≤ row.id := by
  constructor
  · intro hsurvives id hid
    rw [← le_imported_sequence himport]
    by_contra hlow
    -- the first event of the target
    obtain ⟨contents, hinsert⟩ := insert_next l'
    have hinit : Reachable (writing (· = l')) ⟨l', []⟩ := .init ⟨rfl, rfl⟩
    have hfirst : Reachable (writing (· = l'))
        ⟨l'.put .events contents (eventWith (nextRowid l')), [] ++ [nextRowid l']⟩ :=
      .step (a := .insert (eventWith (nextRowid l'))) hinit trivial ⟨rfl, contents, hinsert, rfl⟩
    have hlt := hsurvives id (.inr ⟨id, hid, le_rfl⟩) _ hfirst (nextRowid l') (List.mem_singleton_self _)
    have hpos := assigned_pos hh id hid
    have hhigh : highest l' < id := by
      rw [← not_le, le_highest]
      rintro (hzero | ⟨row, hrow, hle⟩)
      · omega
      · refine hlow ((le_imported_sequence himport).mpr (.inr ⟨row, ?_, hle⟩))
        exact (import_rows himport .events row).mp hrow
    have hmax : max (highest l') (l'.sequence .events) < id := max_lt hhigh (not_le.mp hlow)
    unfold nextRowid at hlt
    omega
  · intro hnewest c hc later hlater id hid
    have habove := (assigned_above hlater).2 id hid
    rcases hc with hzero | ⟨source, hsource, hle⟩
    · exact lt_of_le_of_lt (hzero.trans (le_max_left _ _)) habove
    · have hcopied := (le_imported_sequence himport).mpr (hnewest source hsource)
      exact lt_of_le_of_lt (hle.trans (hcopied.trans (le_max_right _ _))) habove

/-- The first event of a ledger. -/
def firstEvent : History :=
  ⟨bare.put .events ⟨[eventWith 1], List.nodup_singleton _⟩ (eventWith 1), [] ++ [1]⟩

theorem firstEvent_reachable : Reachable (writing Fresh) firstEvent := by
  have hinit : Reachable (writing Fresh) ⟨bare, []⟩ := .init ⟨⟨rfl, rfl⟩, rfl⟩
  exact .step (a := .insert (eventWith 1)) hinit trivial ⟨rfl, _, rfl, rfl⟩

/-- The event is in the snapshot. -/
theorem cursors_survive_iff_first :
    Survives firstEvent (importSnapshot (fun _ _ => false) firstEvent.ledger bare 100).1 := by
  refine (cursors_survive_iff (fun _ _ => false) firstEvent firstEvent_reachable bare _ 100
    (counts firstEvent.ledger) (Prod.ext rfl rfl)).mpr fun id hid => .inr ⟨eventWith 1, ?_, ?_⟩
  · unfold firstEvent
    rw [put_self]
    exact List.mem_singleton_self _
  · exact (List.mem_singleton.mp hid).le

/-- The ledger after the event was deleted. -/
def withoutFirst : Ledger := ⟨fun _ => Keyed.empty, firstEvent.ledger.sequence⟩

/-- The newest event was deleted before the snapshot: its id is assigned again, and a reader that is at
it misses the new event. -/
theorem deleted_newest_repeats : ¬ ∀ (refuses : Ledger → Stmt → Bool) (h : History),
    Reachable (writing Fresh) h → ∀ (l l' : Ledger) (batchSize : ℤ) (cs : Counts),
      importSnapshot refuses h.ledger l batchSize = (l', .ok cs) → Survives h l' := by
  intro hclaim
  have hdeleted : Reachable (writing Fresh) ⟨withoutFirst, [] ++ [1]⟩ :=
    .step (a := .other withoutFirst) firstEvent_reachable trivial ⟨rfl, List.nil_subset _, rfl⟩
  have hsurvives := hclaim (fun _ _ => false) _ hdeleted bare imported 100 (counts bare) rfl
  have hinit : Reachable (writing (· = imported)) ⟨imported, []⟩ := .init ⟨rfl, rfl⟩
  have hnext : Reachable (writing (· = imported))
      ⟨imported.put .events ⟨[eventWith 1], List.nodup_singleton _⟩ (eventWith 1), [] ++ [1]⟩ :=
    .step (a := .insert (eventWith 1)) hinit trivial ⟨rfl, _, rfl, rfl⟩
  have hlt := hsurvives 1 (.inr ⟨1, List.mem_singleton_self _, le_rfl⟩) _ hnext 1
    (List.mem_singleton_self _)
  exact lt_irrefl 1 hlt

end Migration
end ATalk
