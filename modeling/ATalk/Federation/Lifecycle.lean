import ATalk.Federation.Agreement
import ATalk.Federation.Worker
import ATalk.Lib.Transition

/-!
# The life of an outbound row

Senders queue events at any time while the one worker of the instance reads its page, transmits and
writes down what came of it; a write may fail, and the process may die anywhere and start again with
a recovery scan. The worker acts on the rows as they were when it read them.

* `Moves`, `outbox` : the steps of the senders and of the worker, with what they commit and transmit;
* `Orderly`, `orderly_of_reach` : what every run keeps: the rows in the hands of the worker are
  pending rows of the table;
* `Advances` : what a row may become;
* `outbox_lifecycle` : the cap, the end states and the bytes on the wire.
-/

namespace ATalk
namespace Federation

open Text Json Python Transition Calendar ATalk.Core

/-! ## The steps -/

/-- Where the worker of an instance is: with the rest of a page, with a row it has an answer for, or
with one that raised. -/
inductive Place where
  | down
  | idle
  | page (rows : List OutboundRow)
  | answered (row : OutboundRow) (answer : Answer) (rows : List OutboundRow)
  | raised (row : OutboundRow) (cls : Str) (rows : List OutboundRow)

/-- The rows in its hands. -/
def Place.rows : Place → List OutboundRow
  | .page rows => rows
  | .answered row _ rows => row :: rows
  | .raised row _ rows => row :: rows
  | _ => []

/-- The row it handles, and the rest of the page. -/
def Place.handles : Place → Option (OutboundRow × List OutboundRow)
  | .page (row :: rows) => some (row, rows)
  | .answered row _ rows => some (row, rows)
  | _ => none

structure Node where
  db : Db := {}
  place : Place := .down

/-- The first commit of an event, and an envelope on the wire. -/
inductive Label where
  | committed (eventId : Str) (envelope : Bytes)
  | transmitted (eventId : Str) (envelope : Bytes)
  | silent
deriving DecidableEq

/-- What a call of `enqueue_outbound` leaves. -/
def enqueueStep (db : Db) (p : OutboundParams) : Option (Db × Enqueued) → Db × Label
  | some (db', .queued) => (db', .committed p.eventId p.envelopeJson)
  | some (db', .existing) => (db', .silent)
  | none => (db, .silent)

/-- A step of a sender, of the worker, or of a request that writes other tables. The registry may
have changed at every step. -/
inductive Moves (cap : ℕ) (s : Node) : Label → Node → Prop where
  | enqueue {fed : Runtime} {p : OutboundParams} {now : Time} {db : Db} {label : Label}
      (hcap : fed.outboxCap = cap)
      (h : enqueueStep s.db p (enqueueOutbound fed s.db p now) = (db, label)) :
      Moves cap s label { s with db := db }
  | write {db : Db} (h : db.federationOutbound = s.db.federationOutbound) :
      Moves cap s .silent { s with db := db }
  | crash : Moves cap s .silent { s with place := .down }
  | recover (now : Time) (h : s.place = .down) :
      Moves cap s .silent { s with place := .page (dueOutbound s.db now pageSize) }
  | recoverFails (h : s.place = .down) : Moves cap s .silent { s with place := .idle }
  | cycle (now : Time) (h : s.place = .idle) :
      Moves cap s .silent { s with place := .page (dueOutbound s.db now pageSize) }
  | finish (h : s.place = .page []) : Moves cap s .silent { s with place := .idle }
  | unregistered {fed : Runtime} {cfg : WorkerConfig} {row : OutboundRow} {rows : List OutboundRow}
      {draw : Draw} {db : Db} (h : s.place = .page (row :: rows))
      (hfamily : fed.registry.receiptsPeer row.targetFamily = none)
      (hdb : applyOutbound cfg s.db row (.retry (lit "unregistered_family") none) draw = .ok db) :
      Moves cap s .silent ⟨db, .page rows⟩
  | transmit {fed : Runtime} {peer : PeerRecord} {row : OutboundRow} {rows : List OutboundRow}
      (answer : Answer) (h : s.place = .page (row :: rows))
      (hfamily : fed.registry.receiptsPeer row.targetFamily = some peer) :
      Moves cap s (.transmitted row.eventId row.envelopeJson)
        { s with place := .answered row answer rows }
  | apply {cfg : WorkerConfig} {row : OutboundRow} {outcome : SendOutcome}
      {rows : List OutboundRow} {draw : Draw} {db : Db}
      (h : s.place = .answered row (.ok outcome) rows)
      (hdb : applyOutbound cfg s.db row outcome draw = .ok db) :
      Moves cap s .silent ⟨db, .page rows⟩
  | raise {row : OutboundRow} {rows : List OutboundRow} (cls : Str)
      (h : s.place.handles = some (row, rows)) :
      Moves cap s .silent { s with place := .raised row cls rows }
  | persist {row : OutboundRow} {cls : Str} {rows : List OutboundRow} (cfg : WorkerConfig)
      (draw : Draw) (h : s.place = .raised row cls rows) :
      Moves cap s .silent ⟨raisedOutbound cfg s.db row cls draw, .page rows⟩
  | persistFails {row : OutboundRow} {cls : Str} {rows : List OutboundRow}
      (h : s.place = .raised row cls rows) : Moves cap s .silent { s with place := .page rows }

/-- An instance whose outbox is empty and whose worker has not started. -/
def outbox (cap : ℕ) : System Node Label where
  init s := s.db.federationOutbound = [] ∧ s.place = .down
  step := Moves cap

/-! ## What may become of a row -/

/-- The columns that are written once. -/
structure SameOriginal (row row' : OutboundRow) : Prop where
  id : row'.id = row.id
  eventId : row'.eventId = row.eventId
  target : row'.target = row.target
  targetFamily : row'.targetFamily = row.targetFamily
  signedJson : row'.signedJson = row.signedJson
  sig : row'.sig = row.sig
  envelopeJson : row'.envelopeJson = row.envelopeJson

/-- A row is what it was, or was pending and has the same original. -/
structure Advances (row row' : OutboundRow) : Prop extends SameOriginal row row' where
  ended : row.status ≠ .pending → row' = row

variable {row row' : OutboundRow} {db db' : Db} {cap : ℕ} {s s' : Node} {label : Label}

theorem SameOriginal.refl (row : OutboundRow) : SameOriginal row row :=
  ⟨rfl, rfl, rfl, rfl, rfl, rfl, rfl⟩

theorem Advances.refl (row : OutboundRow) : Advances row row := ⟨.refl row, fun _ => rfl⟩

theorem Advances.trans {r s t : OutboundRow} (h : Advances r s) (h' : Advances s t) :
    Advances r t := by
  refine ⟨⟨h'.id.trans h.id, h'.eventId.trans h.eventId, h'.target.trans h.target,
    h'.targetFamily.trans h.targetFamily, h'.signedJson.trans h.signedJson, h'.sig.trans h.sig,
    h'.envelopeJson.trans h.envelopeJson⟩, fun hended => ?_⟩
  have hs : s = r := h.ended hended
  rw [← hs] at hended ⊢
  exact h'.ended hended

/-- A write of the worker: the pending row of one event advances, the others stay. -/
def Settles (eventId : Str) (db db' : Db) : Prop :=
  ∃ f : OutboundRow → OutboundRow, db'.federationOutbound = db.federationOutbound.map f ∧
    ∀ row ∈ db.federationOutbound, SameOriginal row (f row) ∧
      (f row = row ∨ row.eventId = eventId ∧ row.status = .pending)

theorem Settles.refl (eventId : Str) (db : Db) : Settles eventId db db :=
  ⟨fun row => row, (List.map_id _).symm, fun row _ => ⟨.refl row, .inl rfl⟩⟩

theorem updatePending_settles {eventId : Str} {f : OutboundRow → OutboundRow}
    (hf : ∀ row, SameOriginal row (f row)) : Settles eventId db (updatePending db eventId f) := by
  refine ⟨_, rfl, fun row _ => ?_⟩
  show SameOriginal row (if _ then _ else _) ∧ ((if _ then _ else _) = row ∨ _)
  split_ifs with h
  · exact ⟨hf row, .inr h⟩
  · exact ⟨.refl row, .inl rfl⟩

@[simp] theorem insertNotification_outbound (db : Db) (intentId : Str) (kind : String)
    (agent eventId : Option Str) (detail : List (Str × Str)) (now : Time) :
    (insertNotification db intentId kind agent eventId detail now).federationOutbound =
      db.federationOutbound := by
  unfold insertNotification
  split_ifs <;> rfl

/-- A row that fails for good is the pending row of its event. -/
theorem failOutboundPermanent_settles (hids : (db.federationOutbound.map (·.id)).Nodup)
    (eventId error : Str) (now : Time) :
    Settles eventId db (failOutboundPermanent db eventId error now) := by
  unfold failOutboundPermanent
  split
  · exact .refl eventId db
  next found hfound =>
    refine ⟨_, insertNotification_outbound .., fun row hrow => ?_⟩
    show SameOriginal row (if _ then _ else _) ∧ ((if _ then _ else _) = row ∨ _)
    split_ifs with hid
    · -- no other row has the id
      have hmem := List.mem_of_find?_eq_some hfound
      have hsame : row = found := List.inj_on_of_nodup_map hids hrow hmem hid
      have hkey := List.find?_some hfound
      rw [Bool.and_eq_true, decide_eq_true_eq, decide_eq_true_eq] at hkey
      exact ⟨⟨rfl, rfl, rfl, rfl, rfl, rfl, rfl⟩, .inr (hsame ▸ hkey)⟩
    · exact ⟨.refl row, .inl rfl⟩

theorem markOutboundRetry_settles (db : Db) (eventId : Str) (attempts : ℕ) (deadline : Time)
    (error : Str) (now : Time) :
    Settles eventId db (markOutboundRetry db eventId attempts deadline error now) :=
  updatePending_settles fun _ => ⟨rfl, rfl, rfl, rfl, rfl, rfl, rfl⟩

theorem applyOutbound_settles (hids : (db.federationOutbound.map (·.id)).Nodup)
    {cfg : WorkerConfig} {outcome : SendOutcome} {draw : Draw}
    (h : applyOutbound cfg db row outcome draw = .ok db') : Settles row.eventId db db' := by
  cases outcome with
  | sent =>
    cases h
    exact updatePending_settles fun _ => ⟨rfl, rfl, rfl, rfl, rfl, rfl, rfl⟩
  | permanent error =>
    cases h
    exact failOutboundPermanent_settles hids _ _ _
  | retry error retryAfter =>
    simp only [applyOutbound] at h
    split at h
    · cases h
    · cases h
      exact markOutboundRetry_settles ..

theorem raisedOutbound_settles (cfg : WorkerConfig) (db : Db) (row : OutboundRow) (cls : Str)
    (draw : Draw) : Settles row.eventId db (raisedOutbound cfg db row cls draw) := by
  unfold raisedOutbound
  split
  · exact .refl _ db
  · exact markOutboundRetry_settles ..

/-! ## What every run keeps -/

/-- What the worker holds are pending rows of the table, no event twice. -/
structure Holding (db : Db) (rows : List OutboundRow) : Prop where
  pending : ∀ row ∈ rows, row ∈ db.federationOutbound ∧ row.status = .pending
  nodup : (rows.map (·.eventId)).Nodup

structure Orderly (cap : ℕ) (s : Node) : Prop where
  ids : (s.db.federationOutbound.map (·.id)).Nodup
  eventIds : (s.db.federationOutbound.map (·.eventId)).Nodup
  cap : pendingOutbound s.db ≤ cap
  holding : Holding s.db s.place.rows

theorem Holding.nil (db : Db) : Holding db [] := ⟨nofun, List.nodup_nil⟩

theorem Holding.tail {rows : List OutboundRow} (h : Holding db (row :: rows)) : Holding db rows :=
  ⟨fun r hr => h.pending r (List.mem_cons_of_mem _ hr), (List.nodup_cons.mp h.nodup).2⟩

theorem Holding.congr {rows : List OutboundRow} (h : Holding db rows)
    (hsame : db'.federationOutbound = db.federationOutbound) : Holding db' rows :=
  ⟨fun r hr => by rw [hsame]; exact h.pending r hr, h.nodup⟩

/-- A page is a part of the table. -/
theorem holding_due (heventIds : (db.federationOutbound.map (·.eventId)).Nodup) (now : Time)
    (limit : ℕ) : Holding db (dueOutbound db now limit) := by
  have hperm := List.perm_insertionSort (fun a b : OutboundRow => a.id ≤ b.id)
    (db.federationOutbound.filter fun row => isDue now row.status row.nextRetryAt)
  refine ⟨fun row hrow => ?_, ?_⟩
  · have hmem := List.mem_filter.mp (hperm.mem_iff.mp (List.mem_of_mem_take hrow))
    refine ⟨hmem.1, ?_⟩
    exact of_decide_eq_true (Bool.and_eq_true_iff.mp hmem.2).1
  · have hsorted : (((db.federationOutbound.filter fun row =>
        isDue now row.status row.nextRetryAt).insertionSort (·.id ≤ ·.id)).map
          (·.eventId)).Nodup :=
      (hperm.map _).nodup_iff.mpr (heventIds.sublist (List.filter_sublist.map _))
    exact hsorted.sublist ((List.take_sublist _ _).map _)

theorem Settles.nodup {eventId : Str} {α : Type} (h : Settles eventId db db')
    (key : OutboundRow → α) (hkey : ∀ r r', SameOriginal r r' → key r' = key r)
    (hnodup : (db.federationOutbound.map key).Nodup) :
    (db'.federationOutbound.map key).Nodup := by
  obtain ⟨f, hrows, hf⟩ := h
  have hsame : db'.federationOutbound.map key = db.federationOutbound.map key := by
    rw [hrows, List.map_map]
    exact List.map_congr_left fun row hrow => hkey _ _ (hf row hrow).1
  rw [hsame]
  exact hnodup

/-- The worker makes no row pending. -/
theorem Settles.pending_le {eventId : Str} (h : Settles eventId db db') :
    pendingOutbound db' ≤ pendingOutbound db := by
  obtain ⟨f, hrows, hf⟩ := h
  unfold pendingOutbound
  rw [hrows, ← List.countP_eq_length_filter, ← List.countP_eq_length_filter, List.countP_map]
  refine List.countP_mono_left fun row hrow hpending => ?_
  rcases (hf row hrow).2 with hsame | ⟨-, hbefore⟩
  · rw [Function.comp, hsame] at hpending
    exact hpending
  · exact decide_eq_true hbefore

/-- The rows of the page that follow are not touched. -/
theorem Settles.holding {rows : List OutboundRow} (h : Settles row.eventId db db')
    (hheld : Holding db (row :: rows)) : Holding db' rows := by
  refine ⟨fun r hr => ?_, hheld.tail.nodup⟩
  obtain ⟨f, hrows, hf⟩ := h
  obtain ⟨hmem, hpending⟩ := hheld.tail.pending r hr
  have hne : r.eventId ≠ row.eventId := fun heq =>
    (List.nodup_cons.mp hheld.nodup).1 (List.mem_map.mpr ⟨r, hr, heq⟩)
  have hsame : f r = r := (hf r hmem).2.resolve_right fun hkey => hne hkey.1
  rw [hrows]
  exact ⟨List.mem_map.mpr ⟨r, hmem, hsame⟩, hpending⟩

theorem Orderly.settle {rows : List OutboundRow} (hs : Orderly cap s)
    (hrows : s.place.rows = row :: rows) (h : Settles row.eventId s.db db) :
    Orderly cap ⟨db, .page rows⟩ where
  ids := h.nodup (·.id) (fun _ _ hsame => hsame.id) hs.ids
  eventIds := h.nodup (·.eventId) (fun _ _ hsame => hsame.eventId) hs.eventIds
  cap := h.pending_le.trans hs.cap
  holding := h.holding (hrows ▸ hs.holding)

/-- A queued row has a new id, a new event and a place below the cap. -/
theorem Orderly.queue {fed : Runtime} {p : OutboundParams} {now : Time} (hs : Orderly cap s)
    (hcap : fed.outboxCap = cap)
    (h : enqueueOutbound fed s.db p now = some (db, .queued)) : Orderly cap { s with db := db } := by
  rcases enqueueOutbound_some h with ⟨hfalse, -⟩ | ⟨-, hnone, hroom, rfl⟩
  · cases hfalse
  refine ⟨?_, ?_, ?_, ?_⟩
  · rw [List.map_append, List.map_singleton, ← List.concat_eq_append]
    exact hs.ids.concat (nextId_not_mem _)
  · rw [List.map_append, List.map_singleton, ← List.concat_eq_append]
    refine hs.eventIds.concat fun hmem => ?_
    obtain ⟨old, hold, heq⟩ := List.mem_map.mp hmem
    exact List.find?_eq_none.mp hnone old hold (decide_eq_true heq)
  · rw [← hcap]
    refine Nat.le_trans (Nat.le_of_eq ?_) (Nat.succ_le_of_lt hroom)
    simp only [pendingOutbound, List.filter_append, List.length_append]
    rfl
  · refine ⟨fun row hrow => ?_, hs.holding.nodup⟩
    obtain ⟨hmem, hpending⟩ := hs.holding.pending row hrow
    exact ⟨List.mem_append_left _ hmem, hpending⟩

theorem Orderly.place {place : Place} (hs : Orderly cap s) (h : Holding s.db place.rows) :
    Orderly cap { s with place := place } := ⟨hs.ids, hs.eventIds, hs.cap, h⟩

theorem Place.rows_of_handles {place : Place} {rows : List OutboundRow}
    (h : place.handles = some (row, rows)) : place.rows = row :: rows := by
  cases place with
  | page rows =>
    cases rows with
    | nil => cases h
    | cons => cases h; rfl
  | answered => cases h; rfl
  | _ => cases h

theorem Orderly.move (hs : Orderly cap s) (h : Moves cap s label s') : Orderly cap s' := by
  cases h with
  | @enqueue fed p now db label hcap h =>
    cases henqueue : enqueueOutbound fed s.db p now with
    | none =>
      rw [henqueue] at h
      cases h
      exact hs
    | some r =>
      obtain ⟨db', e⟩ := r
      rw [henqueue] at h
      cases e with
      | queued =>
        cases h
        exact hs.queue hcap henqueue
      | existing =>
        cases h
        rcases enqueueOutbound_some henqueue with ⟨-, rfl, -⟩ | ⟨hfalse, -⟩
        · exact hs
        · cases hfalse
  | write h =>
    refine ⟨by rw [h]; exact hs.ids, by rw [h]; exact hs.eventIds, ?_, hs.holding.congr h⟩
    rw [pendingOutbound, h]
    exact hs.cap
  | crash => exact hs.place (.nil _)
  | recover now => exact hs.place (holding_due hs.eventIds now _)
  | recoverFails => exact hs.place (.nil _)
  | cycle now => exact hs.place (holding_due hs.eventIds now _)
  | finish => exact hs.place (.nil _)
  | unregistered h _ hdb =>
    exact hs.settle (by rw [h]; rfl) (applyOutbound_settles hs.ids hdb)
  | transmit answer h =>
    have hheld := hs.holding
    rw [h] at hheld
    exact hs.place hheld
  | apply h hdb => exact hs.settle (by rw [h]; rfl) (applyOutbound_settles hs.ids hdb)
  | raise cls h =>
    have hheld := hs.holding
    rw [Place.rows_of_handles h] at hheld
    exact hs.place hheld
  | persist cfg draw h => exact hs.settle (by rw [h]; rfl) (raisedOutbound_settles ..)
  | persistFails h =>
    have hheld := hs.holding
    rw [h] at hheld
    exact hs.place (Holding.tail hheld)

/-- Every reached state is orderly. -/
theorem orderly_of_reach (h : Reachable (outbox cap) s) : Orderly cap s := by
  refine h.invariant (P := Orderly cap) (fun s hinit => ?_) fun _ _ _ hs _ hstep => hs.move hstep
  obtain ⟨hempty, hdown⟩ := hinit
  refine ⟨by rw [hempty]; exact List.nodup_nil, by rw [hempty]; exact List.nodup_nil, ?_, ?_⟩
  · rw [pendingOutbound, hempty]
    exact Nat.zero_le _
  · rw [hdown]
    exact .nil _

/-! ## Rows before and after -/

/-- Every row is there later, and what it may have become. -/
def Carries (db db' : Db) : Prop :=
  ∀ row ∈ db.federationOutbound, ∃ row' ∈ db'.federationOutbound, Advances row row'

theorem Carries.of_subset (h : ∀ row ∈ db.federationOutbound, row ∈ db'.federationOutbound) :
    Carries db db' := fun row hrow => ⟨row, h row hrow, .refl row⟩

theorem Carries.trans {db₁ db₂ db₃ : Db} (h : Carries db₁ db₂) (h' : Carries db₂ db₃) :
    Carries db₁ db₃ := by
  intro row hrow
  obtain ⟨row', hrow', hr⟩ := h row hrow
  obtain ⟨row'', hrow'', hr'⟩ := h' row' hrow'
  exact ⟨row'', hrow'', hr.trans hr'⟩

/-- What a step makes of the table: its rows advance, or a row of a new event follows them. -/
inductive Effect (db : Db) (label : Label) (db' : Db) : Prop where
  | advances (f : OutboundRow → OutboundRow)
      (hrows : db'.federationOutbound = db.federationOutbound.map f)
      (hf : ∀ row ∈ db.federationOutbound, Advances row (f row))
      (hlabel : ∀ eventId envelope, label ≠ .committed eventId envelope) : Effect db label db'
  | queued (row : OutboundRow) (hrows : db'.federationOutbound = db.federationOutbound ++ [row])
      (hnew : ∀ r ∈ db.federationOutbound, r.eventId ≠ row.eventId)
      (hlabel : label = .committed row.eventId row.envelopeJson) : Effect db label db'

theorem Settles.effect {eventId : Str} (h : Settles eventId db db') : Effect db .silent db' := by
  obtain ⟨f, hrows, hf⟩ := h
  refine .advances f hrows (fun row hrow => ⟨(hf row hrow).1, fun hended => ?_⟩) nofun
  exact (hf row hrow).2.resolve_right fun hkey => hended hkey.2

theorem Effect.same (h : db'.federationOutbound = db.federationOutbound)
    (hlabel : ∀ eventId envelope, label ≠ .committed eventId envelope) : Effect db label db' :=
  .advances id (by rw [h, List.map_id]) (fun row _ => .refl row) hlabel

theorem enqueue_effect {fed : Runtime} {p : OutboundParams} {now : Time}
    (h : enqueueStep db p (enqueueOutbound fed db p now) = (db', label)) :
    Effect db label db' := by
  cases henqueue : enqueueOutbound fed db p now with
  | none =>
    rw [henqueue] at h
    cases h
    exact .same rfl nofun
  | some r =>
    obtain ⟨db₁, e⟩ := r
    rw [henqueue] at h
    rcases enqueueOutbound_some henqueue with ⟨rfl, rfl, -⟩ | ⟨rfl, hnone, -, rfl⟩
    · cases h
      exact .same rfl nofun
    · cases h
      refine .queued _ rfl (fun r hr heq => ?_) rfl
      exact List.find?_eq_none.mp hnone r hr (decide_eq_true heq)

theorem Moves.effect (hs : Orderly cap s) (h : Moves cap s label s') :
    Effect s.db label s'.db := by
  cases h with
  | enqueue _ h => exact enqueue_effect h
  | write h => exact .same h nofun
  | unregistered _ _ hdb => exact (applyOutbound_settles hs.ids hdb).effect
  | apply _ hdb => exact (applyOutbound_settles hs.ids hdb).effect
  | persist => exact (raisedOutbound_settles ..).effect
  | _ => exact .same rfl nofun

theorem Effect.carries (h : Effect db label db') : Carries db db' := by
  intro row hrow
  cases h with
  | advances f hrows hf => exact ⟨f row, hrows ▸ List.mem_map_of_mem hrow, hf row hrow⟩
  | queued _ hrows => exact ⟨row, hrows ▸ List.mem_append_left _ hrow, .refl row⟩

theorem carries_of_trace {tr : List Label} (hs : Reachable (outbox cap) s)
    (h : Trace (outbox cap) s tr s') : Carries s.db s'.db :=
  h.rel (R := fun s s' => Carries s.db s'.db) (fun _ => .of_subset fun _ hrow => hrow)
    (fun _ _ _ => .trans)
    (fun _ _ _ hreach hstep => (Moves.effect (orderly_of_reach hreach) hstep).carries) hs

/-! ## What is transmitted -/

/-- An envelope on the wire is that of a pending row. -/
theorem Moves.transmitted {eventId : Str} {envelope : Bytes} (hs : Orderly cap s)
    (h : Moves cap s (.transmitted eventId envelope) s') :
    ∃ row ∈ s.db.federationOutbound, row.eventId = eventId ∧ row.envelopeJson = envelope ∧
      row.status = .pending := by
  generalize hlabel : Label.transmitted eventId envelope = label at h
  cases h with
  | @enqueue fed p now db label hcap h =>
    subst hlabel
    cases henqueue : enqueueOutbound fed s.db p now with
    | none =>
      rw [henqueue] at h
      cases h
    | some r =>
      obtain ⟨db', e⟩ := r
      rw [henqueue] at h
      cases e <;> cases h
  | @transmit fed peer row rows answer hplace =>
    cases hlabel
    have hheld := hs.holding
    rw [hplace] at hheld
    obtain ⟨hmem, hpending⟩ := hheld.pending row (List.mem_cons_self ..)
    exact ⟨row, hmem, rfl, rfl, hpending⟩
  | _ => cases hlabel

/-- A row that has ended is on the wire no more. -/
theorem not_transmitted_of_ended {tr : List Label} (hs : Reachable (outbox cap) s)
    (h : Trace (outbox cap) s tr s') (hrow : row ∈ s.db.federationOutbound)
    (hended : row.status ≠ .pending) (envelope : Bytes) :
    .transmitted row.eventId envelope ∉ tr := by
  intro hmem
  obtain ⟨pre, post, rfl⟩ := List.append_of_mem hmem
  obtain ⟨t, t', hpre, hstep, -⟩ := h.split
  have ht := orderly_of_reach (hpre.reachable hs)
  obtain ⟨sent, hsent, hid, -, hpending⟩ := Moves.transmitted ht hstep
  -- the ended row is still there, and no other has its event
  obtain ⟨row', hrow', hadvances⟩ := carries_of_trace hs hpre row hrow
  have hsame : row' = row := hadvances.ended hended
  subst hsame
  have hunique : sent = row' := List.inj_on_of_nodup_map ht.eventIds hsent hrow' hid
  rw [hunique] at hpending
  exact hended hpending

/-- The commit of an event. -/
def commits (eventId : Str) : Label → Bool
  | .committed id _ => id = eventId
  | _ => false

/-- The first commit of an event is that of its row, and an event without a row has none. -/
structure Recorded (tr : List Label) (db : Db) : Prop where
  first : ∀ row ∈ db.federationOutbound,
    tr.find? (commits row.eventId) = some (.committed row.eventId row.envelopeJson)
  none : ∀ eventId, (∀ row ∈ db.federationOutbound, row.eventId ≠ eventId) →
    tr.find? (commits eventId) = none

theorem find?_commits_of_not_commit {tr : List Label} (eventId : Str)
    (h : ∀ id envelope, label ≠ .committed id envelope) :
    (tr ++ [label]).find? (commits eventId) = tr.find? (commits eventId) := by
  have hskip : commits eventId label = false := by
    cases label with
    | committed id envelope => exact absurd rfl (h id envelope)
    | _ => rfl
  rw [List.find?_append, List.find?_cons_of_neg (by rw [hskip]; decide), List.find?_nil,
    Option.or_none]

theorem Recorded.effect {tr : List Label} (h : Recorded tr db) (he : Effect db label db') :
    Recorded (tr ++ [label]) db' := by
  cases he with
  | advances f hrows hf hlabel =>
    refine ⟨fun row hrow => ?_, fun eventId hnone => ?_⟩
    · rw [hrows] at hrow
      obtain ⟨old, hold, rfl⟩ := List.mem_map.mp hrow
      have hsame := (hf old hold).toSameOriginal
      rw [find?_commits_of_not_commit _ hlabel, hsame.eventId, hsame.envelopeJson]
      exact h.first old hold
    · rw [find?_commits_of_not_commit _ hlabel]
      refine h.none eventId fun old hold heq => ?_
      refine hnone (f old) (hrows ▸ List.mem_map_of_mem hold) ?_
      rw [(hf old hold).eventId]
      exact heq
  | queued row hrows hnew hlabel =>
    subst hlabel
    refine ⟨fun r hr => ?_, fun eventId hnone => ?_⟩
    · rw [hrows] at hr
      rcases List.mem_append.mp hr with hold | hlast
      · rw [List.find?_append, h.first r hold]
        rfl
      · rw [List.mem_singleton.mp hlast, List.find?_append, h.none _ hnew, Option.none_or]
        exact List.find?_cons_of_pos (by simp [commits])
    · have hne : row.eventId ≠ eventId :=
        hnone row (hrows ▸ List.mem_append_right _ (List.mem_singleton_self row))
      rw [List.find?_append, h.none eventId fun r hr =>
        hnone r (hrows ▸ List.mem_append_left _ hr), Option.none_or,
        List.find?_cons_of_neg (by simpa [commits] using hne), List.find?_nil]

theorem recorded_of_trace {tr : List Label} (hinit : (outbox cap).init s)
    (h : Trace (outbox cap) s tr s') : Recorded tr s'.db := by
  refine h.invariant (P := fun tr s => Recorded tr s.db) (.init hinit) ?_ ?_
  · refine ⟨fun row hrow => ?_, fun _ _ => rfl⟩
    rw [hinit.1] at hrow
    cases hrow
  · exact fun _ _ _ _ hreach hrec hstep =>
      hrec.effect (Moves.effect (orderly_of_reach hreach) hstep)

/-! ## The handler and the cycle are made of these steps -/

/-- `federation_send` writes nothing, or makes the first commit of its event. -/
theorem federationSend_moves {fed : Runtime} {source target family newId : Str} {body : Dict}
    {now : Time} {reply : Reply} {place : Place}
    (h : federationSend fed db source target body family newId now = .ok (db', reply)) :
    db' = db ∨ ∃ eventId envelope,
      Moves fed.outboxCap ⟨db, place⟩ (.committed eventId envelope) ⟨db', place⟩ := by
  rcases federationSend_cases h with hsame | ⟨r, raw, hqueued, -, hdb⟩
  · exact .inl hsame
  · cases hdb
    exact .inr ⟨_, _, .enqueue rfl (by rw [hqueued.enqueue raw]; rfl)⟩

/-- A row is handled in a few steps. -/
theorem guardedOutbound_trace (fed : Runtime) (cfg : WorkerConfig) (db : Db) (row : OutboundRow)
    (turn : Turn) (rows : List OutboundRow) : ∃ tr,
      Trace (outbox fed.outboxCap) ⟨db, .page (row :: rows)⟩ tr
        ⟨guardedOutbound fed cfg db row turn, .page rows⟩ := by
  have hraised : ∀ (place : Place) (cls : Str), place.handles = some (row, rows) →
      Trace (outbox fed.outboxCap) ⟨db, place⟩ [.silent, .silent]
        ⟨raisedOutbound cfg db row cls turn.guard, .page rows⟩ := by
    intro place cls hplace
    have hone : Moves fed.outboxCap ⟨db, place⟩ .silent ⟨db, .raised row cls rows⟩ :=
      .raise cls hplace
    have htwo : Moves fed.outboxCap ⟨db, .raised row cls rows⟩ .silent
      ⟨raisedOutbound cfg db row cls turn.guard, .page rows⟩ := .persist cfg turn.guard rfl
    exact .snoc (.snoc .nil hone) htwo
  unfold guardedOutbound sendOutbound
  cases hfamily : fed.registry.receiptsPeer row.targetFamily with
  | none =>
    cases hdb : applyOutbound cfg db row (.retry (lit "unregistered_family") none) turn.send with
    | error cls => exact ⟨_, hraised (.page (row :: rows)) cls rfl⟩
    | ok db' => exact ⟨_, .snoc .nil (.unregistered rfl hfamily hdb)⟩
  | some peer =>
    have hsent : Trace (outbox fed.outboxCap) ⟨db, .page (row :: rows)⟩
        ([] ++ [.transmitted row.eventId row.envelopeJson])
        ⟨db, .answered row turn.answer rows⟩ := .snoc .nil (.transmit turn.answer rfl hfamily)
    cases hanswer : turn.answer with
    | error cls => exact ⟨_, hsent.append (hraised (.answered row turn.answer rows) cls rfl)⟩
    | ok outcome =>
      rw [hanswer] at hsent
      cases hdb : applyOutbound cfg db row outcome turn.send with
      | error cls =>
        simp only [hdb]
        exact ⟨_, hsent.append (hraised (.answered row (.ok outcome) rows) cls rfl)⟩
      | ok db' =>
        simp only [hdb]
        exact ⟨_, hsent.snoc (.apply rfl hdb)⟩

/-- The outbound half of a cycle is a run. -/
theorem processOutbound_trace (fed : Runtime) (cfg : WorkerConfig) (turn : ℕ → Turn)
    (rows : List OutboundRow) (db : Db) : ∃ tr,
      Trace (outbox fed.outboxCap) ⟨db, .page rows⟩ tr
        ⟨processOutbound fed cfg turn rows db, .page []⟩ := by
  induction rows generalizing db with
  | nil => exact ⟨[], .nil⟩
  | cons row rows ih =>
    obtain ⟨tr, hone⟩ := guardedOutbound_trace fed cfg db row (turn row.id) rows
    obtain ⟨tr', hrest⟩ := ih (guardedOutbound fed cfg db row (turn row.id))
    exact ⟨tr ++ tr', hone.append hrest⟩

/-! ## The lifecycle -/

/-- Whatever is enqueued, sent, retried, lost or started again: the pending rows stay below the cap,
which refuses no event that is stored; a row that has ended stays as it is and is on the wire no
more; and every envelope on the wire is that of the first commit of its event. -/
theorem outbox_lifecycle {start : Node} {tr tr' : List Label} (hinit : (outbox cap).init start)
    (h : Trace (outbox cap) start tr s) (h' : Trace (outbox cap) s tr' s') :
    (pendingOutbound s.db ≤ cap ∧
      ∀ fed p now, (findOutbound s.db p.eventId).isSome →
        enqueueOutbound fed s.db p now = some (s.db, .existing)) ∧
    (∀ row ∈ s.db.federationOutbound,
      (∃ row' ∈ s'.db.federationOutbound, Advances row row') ∧
      (row.status ≠ .pending → ∀ envelope, .transmitted row.eventId envelope ∉ tr')) ∧
    ∀ pre eventId envelope post, tr = pre ++ .transmitted eventId envelope :: post →
      pre.find? (commits eventId) = some (.committed eventId envelope) := by
  have hs : Reachable (outbox cap) s := h.reachable (.init hinit)
  refine ⟨⟨(orderly_of_reach hs).cap, fun fed p now hstored => ?_⟩, fun row hrow => ?_, ?_⟩
  · obtain ⟨row, hrow⟩ := Option.isSome_iff_exists.mp hstored
    rw [enqueueOutbound, hrow]
  · exact ⟨carries_of_trace hs h' row hrow,
      fun hended => not_transmitted_of_ended hs h' hrow hended⟩
  · rintro pre eventId envelope post rfl
    obtain ⟨t, t', hpre, hstep, -⟩ := h.split
    have ht := orderly_of_reach (hpre.reachable (.init hinit))
    obtain ⟨row, hrow, rfl, rfl, -⟩ := Moves.transmitted ht hstep
    exact (recorded_of_trace hinit hpre).first row hrow

/-- An event for Bob. -/
def bobParams : OutboundParams :=
  ⟨lit "id", lit "org-a", lit "oa-1", lit "alice", lit "alice@org-a", lit "bob@org-b", lit "org-b",
    lit "message", [], lit "sig", [1]⟩

/-- It is queued, found by the recovery scan and transmitted. -/
theorem outbox_lifecycle_bob : ∃ s,
    Trace (outbox 1000) {} [.committed (lit "id") [1], .silent, .transmitted (lit "id") [1]] s ∧
    [Label.committed (lit "id") [1], .silent].find? (commits (lit "id")) =
      some (.committed (lit "id") [1]) := by
  let now := noon
  let row := outboundRow {} bobParams (fedA.stableIntentId [lit "send_failed", lit "id"]) now
  have hcommit : Moves 1000 {} (.committed (lit "id") [1])
      ⟨{ federationOutbound := [row] }, .down⟩ :=
    .enqueue (rfl : fedA.outboxCap = 1000)
      (rfl : enqueueStep {} bobParams (enqueueOutbound fedA {} bobParams now) = _)
  have hread : Moves 1000 ⟨{ federationOutbound := [row] }, .down⟩ .silent
    ⟨{ federationOutbound := [row] }, .page [row]⟩ := .recover now rfl
  have hsend : Moves 1000 ⟨{ federationOutbound := [row] }, .page [row]⟩
      (.transmitted (lit "id") [1])
      ⟨{ federationOutbound := [row] }, .answered row (.error []) []⟩ :=
    @Moves.transmit _ _ fedA peerB row [] (.error []) rfl rfl
  have hrun : Trace (outbox 1000) {}
      ([] ++ [.committed (lit "id") [1]] ++ [.silent] ++ [.transmitted (lit "id") [1]]) _ :=
    .snoc (.snoc (.snoc .nil hcommit) hread) hsend
  exact ⟨_, hrun, (outbox_lifecycle ⟨rfl, rfl⟩ hrun .nil).2.2 [.committed (lit "id") [1], .silent]
    _ _ [] rfl⟩

end Federation
end ATalk
