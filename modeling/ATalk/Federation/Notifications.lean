import ATalk.Federation.Inbox
import ATalk.Federation.Receipts
import ATalk.Federation.Queue
import Mathlib.Data.Prod.Lex

/-!
# Notifications

An outbound event or a receipt that fails for good, and a receipt that comes in, is told once: the
id of the notification is made from what it is about. The push path marks hints; a consumer pulls
the oldest rows that nobody has acknowledged, a page at a time, and acknowledges them.

* `hintNotifications`, `pullHints`, `ackHints` : the scan, the pull and the acknowledgement;
* `Fact` : what is told, `intentId_injective` : two facts have two ids;
* `Notified` : the table holds a row for each fact and no other, `notified_of_reach`;
* `Flagged` : what may become of a row;
* `Consumes` : a consumer that acknowledges what it pulls, `Consumes.waiting` : how many rows are
  left in front of one it has not seen;
* `notifications_once`.
-/

namespace ATalk
namespace Federation

open Text Json Python Transition ATalk.Core

/-! ## Hints -/

/-- `created_at, intent_id`, the order of every page. -/
abbrev HintCursor := Str ×ₗ Str

def hintCursor (row : NotificationRow) : HintCursor := toLex (row.createdAt, row.intentId)

def hintPage (rows : List NotificationRow) (limit : ℕ) : List NotificationRow :=
  (rows.insertionSort (hintCursor · ≤ hintCursor ·)).take limit

/-- `undelivered_notification_hints` -/
def undeliveredHints (db : Db) (after : Option HintCursor) (limit : ℕ) : List NotificationRow :=
  hintPage (db.federationNotifications.filter fun row =>
    !row.hintSent && !row.acked && row.agent.isSome && after.all (· < hintCursor row)) limit

/-- `notification_hints_for`, or `operator_notification_hints` without an agent. -/
def pullHints (db : Db) (agent : Option Str) (limit : ℕ) : List NotificationRow :=
  hintPage (db.federationNotifications.filter fun row => !row.acked && row.agent = agent) limit

def markHintSent (db : Db) (intentId : Str) : Db :=
  { db with federationNotifications := db.federationNotifications.map fun row =>
      if row.intentId = intentId then { row with hintSent := true } else row }

/-- `ack_notification_hints`; no agent is the operator. -/
def ackHints (db : Db) (intentIds : List Str) (agent : Option Str) : Db :=
  { db with federationNotifications := db.federationNotifications.map fun row =>
      if row.acked = false ∧ row.intentId ∈ intentIds ∧ row.agent = agent then
        { row with acked := true }
      else row }

/-- `_hint_one` : a hint that a live queue took is marked. -/
def hintOne (woken : NotificationRow → Bool) (db : Db) (row : NotificationRow) : Db :=
  if row.agent.isSome && woken row then markHintSent db row.intentId else db

/-- The pages of a scan, up to its budget; the cursor wraps around after the last one. -/
def hintPages (woken : NotificationRow → Bool) : ℕ → Db → Option HintCursor → Db × Option HintCursor
  | 0, db, after => (db, after)
  | pages + 1, db, after =>
    let page := undeliveredHints db after 100
    match page.getLast? with
    | none => (db, none)
    | some last =>
      let db' := page.foldl (hintOne woken) db
      if page.length < 100 then (db', none)
      else hintPages woken pages db' (some (hintCursor last))

/-- `hint_notifications` : fifty full pages are the budget of a cycle. -/
def hintNotifications (woken : NotificationRow → Bool) (db : Db) (cursor : Option HintCursor) :
    Db × Option HintCursor := hintPages woken 50 db cursor

/-! ## Facts -/

/-- What a notification is about. -/
inductive Fact where
  | sendFailed (eventId : Str)
  | receiptFailed (eventId agent : Str) (ackType : AckType)
  | receiptIn (eventId agent : Str) (ackType : AckType)
deriving DecidableEq

def Fact.eventId : Fact → Str
  | .sendFailed eventId => eventId
  | .receiptFailed eventId _ _ => eventId
  | .receiptIn eventId _ _ => eventId

def Fact.kind : Fact → Str
  | .sendFailed _ => lit "send_failed"
  | .receiptFailed .. => lit "receipt_send_failed"
  | .receiptIn .. => lit "receipt_received"

/-- The parts of the stable id. -/
def Fact.parts : Fact → List Str
  | .sendFailed eventId => [lit "send_failed", eventId]
  | .receiptFailed eventId agent ackType =>
    [lit "receipt_send_failed", eventId, agent, AckType.text ackType]
  | .receiptIn eventId agent ackType => [lit "receipt", eventId, agent, AckType.text ackType]

def Fact.intentId (uuid5 : Str → Str) (f : Fact) : Str :=
  uuid5 (lit "atalk-fed-notify:" ++ (lit ":").intercalate f.parts)

/-- The failed rows, and the receipts that came in. -/
def Fact.Holds (db : Db) : Fact → Prop
  | .sendFailed eventId =>
    ∃ row ∈ db.federationOutbound, row.eventId = eventId ∧ row.status = .failedPermanent
  | .receiptFailed eventId agent ackType =>
    ∃ row ∈ db.federationReceiptOut, (row.eventId, row.agent, row.ackType) = (eventId, agent, ackType) ∧
      row.status = .failedPermanent
  | .receiptIn eventId agent ackType =>
    ∃ row ∈ db.federationReceiptIn, mergedKey row = (eventId, agent, ackType)

/-! ## Two facts have two ids -/

theorem shapeRe_all {ps : List (CodePoint → Bool)} {s : Str} {q : CodePoint → Prop}
    (h : shapeRe ps s = true) (hps : ∀ p ∈ ps, ∀ c, p c = true → q c) : ∀ c ∈ s, q c := by
  induction ps generalizing s with
  | nil =>
    cases s with
    | nil => exact nofun
    | cons c s => cases h
  | cons p ps ih =>
    cases s with
    | nil => cases h
    | cons c s =>
      rw [shapeRe, Bool.and_eq_true] at h
      intro d hd
      rcases List.mem_cons.mp hd with rfl | hd
      · exact hps p (List.mem_cons_self ..) d h.1
      · exact ih h.2 (fun p hp => hps p (List.mem_cons_of_mem _ hp)) d hd

/-- A UUID has no colon in it. -/
theorem colon_not_mem_uuid {s : Str} (h : uuidRe s = true) : ofChar ':' ∉ s := by
  have hall : ∀ c ∈ s, c ≠ ofChar ':' := by
    refine shapeRe_all h fun p hp c hc heq => ?_
    subst heq
    have hcases : p = isHex ∨ p = isChar '-' := by
      simp only [hexRun, List.mem_append, List.mem_singleton] at hp
      rcases hp with ((((((((hp | hp) | hp) | hp) | hp) | hp) | hp) | hp) | hp)
      all_goals first
        | exact .inr hp
        | exact .inl (List.eq_of_mem_replicate hp)
    rcases hcases with rfl | rfl
    · exact absurd hc (by decide)
    · exact absurd hc (by decide)
  exact fun hmem => hall _ hmem rfl

/-- What is before the first separator, and what is after it. -/
theorem append_separator_inj {c : CodePoint} {a a' b b' : Str} (ha : c ∉ a) (ha' : c ∉ a')
    (h : a ++ c :: b = a' ++ c :: b') : a = a' ∧ b = b' := by
  induction a generalizing a' with
  | nil =>
    cases a' with
    | nil => exact ⟨rfl, (List.cons.inj h).2⟩
    | cons d a' => exact absurd (List.mem_cons.mpr (.inl (List.cons.inj h).1)) ha'
  | cons d a ih =>
    cases a' with
    | nil => exact absurd (List.mem_cons.mpr (.inl (List.cons.inj h).1.symm)) ha
    | cons e a' =>
      obtain ⟨hhead, hrest⟩ := List.cons.inj h
      obtain ⟨htail, hb⟩ := ih (fun hc => ha (List.mem_cons_of_mem _ hc))
        (fun hc => ha' (List.mem_cons_of_mem _ hc)) hrest
      exact ⟨by rw [hhead, htail], hb⟩

/-- An agent and a kind of acknowledgement, whatever the agent's address looks like. -/
theorem append_ackType_inj {a a' : Str} {t t' : AckType}
    (h : a ++ ofChar ':' :: AckType.text t = a' ++ ofChar ':' :: AckType.text t') :
    a = a' ∧ t = t' := by
  have hreverse := congrArg List.reverse h
  cases t <;> cases t'
  · exact ⟨List.append_cancel_right h, rfl⟩
  · simp [AckType.text, lit, ofChar] at hreverse
  · simp [AckType.text, lit, ofChar] at hreverse
  · exact ⟨List.append_cancel_right h, rfl⟩

/-- The kind a stable id starts with. -/
def Fact.word : Fact → Str
  | .sendFailed _ => lit "send_failed"
  | .receiptFailed .. => lit "receipt_send_failed"
  | .receiptIn .. => lit "receipt"

/-- The rest of it. -/
def Fact.about : Fact → Str
  | .sendFailed eventId => eventId
  | .receiptFailed eventId agent ackType =>
    eventId ++ ofChar ':' :: (agent ++ ofChar ':' :: AckType.text ackType)
  | .receiptIn eventId agent ackType =>
    eventId ++ ofChar ':' :: (agent ++ ofChar ':' :: AckType.text ackType)

theorem Fact.joined (f : Fact) :
    (lit ":").intercalate f.parts = f.word ++ ofChar ':' :: f.about := by
  cases f <;> simp [Fact.parts, Fact.word, Fact.about, List.intercalate, List.intersperse, lit]

theorem Fact.colon_not_mem_word (f : Fact) : ofChar ':' ∉ f.word := by
  cases f <;> exact of_decide_eq_true rfl

theorem about_inj {e e' a a' : Str} {t t' : AckType} (he : ofChar ':' ∉ e) (he' : ofChar ':' ∉ e')
    (h : e ++ ofChar ':' :: (a ++ ofChar ':' :: AckType.text t) =
      e' ++ ofChar ':' :: (a' ++ ofChar ':' :: AckType.text t')) : e = e' ∧ a = a' ∧ t = t' := by
  obtain ⟨hevent, hrest⟩ := append_separator_inj he he' h
  exact ⟨hevent, append_ackType_inj hrest⟩

/-- Two facts about events whose ids are UUIDs have two stable ids. -/
theorem intentId_injective {uuid5 : Str → Str} (huuid : Function.Injective uuid5) {f g : Fact}
    (hf : ofChar ':' ∉ f.eventId) (hg : ofChar ':' ∉ g.eventId)
    (h : f.intentId uuid5 = g.intentId uuid5) : f = g := by
  have hname := List.append_cancel_left (huuid h)
  rw [f.joined, g.joined] at hname
  obtain ⟨hword, habout⟩ := append_separator_inj f.colon_not_mem_word g.colon_not_mem_word hname
  cases f with
  | sendFailed e =>
    cases g with
    | sendFailed e' => exact congrArg Fact.sendFailed habout
    | receiptFailed => exact absurd hword (of_decide_eq_true rfl)
    | receiptIn => exact absurd hword (of_decide_eq_true rfl)
  | receiptFailed e a t =>
    cases g with
    | sendFailed => exact absurd hword (of_decide_eq_true rfl)
    | receiptFailed e' a' t' =>
      obtain ⟨rfl, rfl, rfl⟩ := about_inj hf hg habout
      rfl
    | receiptIn => exact absurd hword (of_decide_eq_true rfl)
  | receiptIn e a t =>
    cases g with
    | sendFailed => exact absurd hword (of_decide_eq_true rfl)
    | receiptFailed => exact absurd hword (of_decide_eq_true rfl)
    | receiptIn e' a' t' =>
      obtain ⟨rfl, rfl, rfl⟩ := about_inj hf hg habout
      rfl

/-! ## The tables -/

variable {uuid5 : Str → Str} {fed : Runtime} {db db' db'' : Db} {f g : Fact} {now : Time}

/-- The tables that facts are read from: unique keys, events with UUIDs, and a failure's id with its
row. -/
structure FactTables (uuid5 : Str → Str) (db : Db) : Prop where
  outbound : OutboundKeys db
  intents : ∀ row ∈ db.federationOutbound,
    row.notifyIntentId = (Fact.sendFailed row.eventId).intentId uuid5
  outboundIds : ∀ row ∈ db.federationOutbound, uuidRe row.eventId = true
  receiptOut : ReceiptKeys db
  receiptOutIds : ∀ row ∈ db.federationReceiptOut, uuidRe row.eventId = true
  ledger : Ledgered db
  receiptInIds : ∀ row ∈ db.federationReceiptIn, uuidRe row.eventId = true

/-- The row is the notification of the fact. -/
structure About (uuid5 : Str → Str) (f : Fact) (row : NotificationRow) : Prop where
  intentId : row.intentId = f.intentId uuid5
  kind : row.kind = f.kind
  eventId : row.eventId = some f.eventId

/-- One row for every fact, and no others. -/
structure Exact (uuid5 : Str → Str) (db : Db) : Prop where
  nodup : (db.federationNotifications.map (·.intentId)).Nodup
  complete : ∀ f, Fact.Holds db f → ∃ row ∈ db.federationNotifications, About uuid5 f row
  sound : ∀ row ∈ db.federationNotifications, ∃ f, Fact.Holds db f ∧ About uuid5 f row

structure Notified (uuid5 : Str → Str) (db : Db) : Prop where
  tables : FactTables uuid5 db
  exact : Exact uuid5 db

theorem FactTables.colon_not_mem (h : FactTables uuid5 db) (hf : f.Holds db) :
    ofChar ':' ∉ f.eventId := by
  cases f with
  | sendFailed e =>
    obtain ⟨row, hrow, rfl, -⟩ := hf
    exact colon_not_mem_uuid (h.outboundIds row hrow)
  | receiptFailed e a t =>
    obtain ⟨row, hrow, hkey, -⟩ := hf
    obtain ⟨rfl, -⟩ := Prod.mk.inj hkey
    exact colon_not_mem_uuid (h.receiptOutIds row hrow)
  | receiptIn e a t =>
    obtain ⟨row, hrow, hkey⟩ := hf
    obtain ⟨rfl, -⟩ := Prod.mk.inj hkey
    exact colon_not_mem_uuid (h.receiptInIds row hrow)

/-- Facts are read from three tables. -/
theorem holds_congr (hout : db'.federationOutbound = db.federationOutbound)
    (hreceipts : db'.federationReceiptOut = db.federationReceiptOut)
    (hin : db'.federationReceiptIn = db.federationReceiptIn) (f : Fact) :
    f.Holds db' ↔ f.Holds db := by
  cases f with
  | sendFailed => rw [Fact.Holds, hout, Fact.Holds]
  | receiptFailed => rw [Fact.Holds, hreceipts, Fact.Holds]
  | receiptIn => rw [Fact.Holds, hin, Fact.Holds]

theorem FactTables.congr (h : FactTables uuid5 db)
    (hout : db'.federationOutbound = db.federationOutbound)
    (hreceipts : db'.federationReceiptOut = db.federationReceiptOut)
    (horiginals : db'.federationReceiptInOriginals = db.federationReceiptInOriginals)
    (hin : db'.federationReceiptIn = db.federationReceiptIn) : FactTables uuid5 db' where
  outbound := h.outbound.congr hout
  intents := by rw [hout]; exact h.intents
  outboundIds := by rw [hout]; exact h.outboundIds
  receiptOut := h.receiptOut.congr hreceipts
  receiptOutIds := by rw [hreceipts]; exact h.receiptOutIds
  ledger := h.ledger.congr horiginals hin
  receiptInIds := by rw [hin]; exact h.receiptInIds

/-! ## What a call tells -/

/-- The facts and the notifications are what they were. -/
structure Quiet (db db' : Db) : Prop where
  facts : ∀ f, Fact.Holds db' f ↔ Fact.Holds db f
  notifications : db'.federationNotifications = db.federationNotifications

/-- A fact has come up, and is told unless its id is there. -/
structure Told (uuid5 : Str → Str) (f : Fact) (db db' : Db) : Prop where
  facts : ∀ g, Fact.Holds db' g ↔ Fact.Holds db g ∨ g = f
  notifications : ∃ row, About uuid5 f row ∧ row.acked = false ∧ db'.federationNotifications =
    if db.federationNotifications.any (·.intentId = f.intentId uuid5) then db.federationNotifications
    else db.federationNotifications ++ [row]

theorem Quiet.refl (db : Db) : Quiet db db := ⟨fun _ => Iff.rfl, rfl⟩

theorem Quiet.trans (h : Quiet db db') (h' : Quiet db' db'') : Quiet db db'' :=
  ⟨fun f => (h'.facts f).trans (h.facts f), h'.notifications.trans h.notifications⟩

theorem Quiet.exact (h : Quiet db db') (hdb : Exact uuid5 db) : Exact uuid5 db' where
  nodup := by rw [h.notifications]; exact hdb.nodup
  complete f hf := by rw [h.notifications]; exact hdb.complete f ((h.facts f).mp hf)
  sound row hrow := by
    rw [h.notifications] at hrow
    obtain ⟨f, hf, habout⟩ := hdb.sound row hrow
    exact ⟨f, (h.facts f).mpr hf, habout⟩

theorem Told.exact (h : Told uuid5 f db db') (huuid : Function.Injective uuid5)
    (htables : FactTables uuid5 db) (htables' : FactTables uuid5 db') (hdb : Exact uuid5 db) :
    Exact uuid5 db' := by
  obtain ⟨row, habout, -, hrows⟩ := h.notifications
  have hnow : f.Holds db' := (h.facts f).mpr (.inr rfl)
  split_ifs at hrows with hany
  · -- the id is there, and so was the fact
    obtain ⟨old, hold, hid⟩ := List.any_eq_true.mp hany
    rw [decide_eq_true_eq] at hid
    obtain ⟨g, hg, hgabout⟩ := hdb.sound old hold
    have hsame : g = f := intentId_injective huuid (htables.colon_not_mem hg)
      (htables'.colon_not_mem hnow) (hgabout.intentId.symm.trans hid)
    have hfacts : ∀ g', Fact.Holds db' g' ↔ Fact.Holds db g' := by
      intro g'
      rw [h.facts g', or_iff_left_iff_imp]
      rintro rfl
      exact hsame ▸ hg
    exact Quiet.exact ⟨hfacts, hrows⟩ hdb
  · have hnew : f.intentId uuid5 ∉ db.federationNotifications.map (·.intentId) := by
      intro hmem
      obtain ⟨old, hold, hid⟩ := List.mem_map.mp hmem
      exact hany (List.any_eq_true.mpr ⟨old, hold, decide_eq_true hid⟩)
    refine ⟨?_, fun g hg => ?_, fun n hn => ?_⟩
    · rw [hrows, List.map_append, List.map_singleton, ← List.concat_eq_append, habout.intentId]
      exact hdb.nodup.concat hnew
    · rw [hrows]
      rcases (h.facts g).mp hg with hg | rfl
      · obtain ⟨n, hn, hnabout⟩ := hdb.complete g hg
        exact ⟨n, List.mem_append_left _ hn, hnabout⟩
      · exact ⟨row, List.mem_append_right _ (List.mem_singleton_self _), habout⟩
    · rw [hrows] at hn
      rcases List.mem_append.mp hn with hn | hn
      · obtain ⟨g, hg, hgabout⟩ := hdb.sound n hn
        exact ⟨g, (h.facts g).mpr (.inl hg), hgabout⟩
      · rw [List.mem_singleton.mp hn]
        exact ⟨f, hnow, habout⟩

/-- `_insert_notification` tells a fact that the statement before it made. -/
theorem told_insertNotification {kind : String} {agent eventId : Option Str} {intentId : Str}
    {detail : List (Str × Str)} (hfacts : ∀ g, Fact.Holds db' g ↔ Fact.Holds db g ∨ g = f)
    (hsame : db'.federationNotifications = db.federationNotifications)
    (hid : intentId = f.intentId uuid5) (hkind : lit kind = f.kind)
    (hevent : eventId = some f.eventId) :
    Told uuid5 f db (insertNotification db' intentId kind agent eventId detail now) where
  facts g := by
    rw [← hfacts g]
    exact holds_congr (insertNotification_outbound ..) (insertNotification_receipts ..)
      (insertNotification_receiptIn ..) g
  notifications := by
    refine ⟨⟨intentId, lit kind, agent, eventId, detail, false, false, now⟩, ⟨hid, hkind, hevent⟩,
      rfl, ?_⟩
    rw [insertNotification, hsame, hid]
    split_ifs
    · exact hsame
    · rfl

/-! ## The calls -/

/-- A table of outbound rows with the same failures. -/
theorem quiet_outbound {rows : List OutboundRow} (h : db' = { db with federationOutbound := rows })
    (hfailed : ∀ row, row.status = .failedPermanent → (row ∈ rows ↔ row ∈ db.federationOutbound)) :
    Quiet db db' := by
  subst h
  refine ⟨fun f => ?_, rfl⟩
  cases f with
  | sendFailed e =>
    constructor
    · rintro ⟨row, hrow, he, hstatus⟩
      exact ⟨row, (hfailed row hstatus).mp hrow, he, hstatus⟩
    · rintro ⟨row, hrow, he, hstatus⟩
      exact ⟨row, (hfailed row hstatus).mpr hrow, he, hstatus⟩
  | receiptFailed => exact Iff.rfl
  | receiptIn => exact Iff.rfl

theorem quiet_receiptOut {rows : List ReceiptOutRow}
    (h : db' = { db with federationReceiptOut := rows })
    (hfailed : ∀ row, row.status = .failedPermanent →
      (row ∈ rows ↔ row ∈ db.federationReceiptOut)) : Quiet db db' := by
  subst h
  refine ⟨fun f => ?_, rfl⟩
  cases f with
  | sendFailed => exact Iff.rfl
  | receiptFailed e a t =>
    constructor
    · rintro ⟨row, hrow, hkey, hstatus⟩
      exact ⟨row, (hfailed row hstatus).mp hrow, hkey, hstatus⟩
    · rintro ⟨row, hrow, hkey, hstatus⟩
      exact ⟨row, (hfailed row hstatus).mpr hrow, hkey, hstatus⟩
  | receiptIn => exact Iff.rfl

/-- The rows of a table under a map that leaves the ended ones. -/
theorem mem_map_ended {α : Type} {rows : List α} {p : α → Prop} [DecidablePred p] {g : α → α}
    {q : α → Prop} (hp : ∀ row, p row → ¬ q row) (hg : ∀ row, p row → ¬ q (g row))
    {row : α} (hrow : q row) :
    row ∈ rows.map (fun r => if p r then g r else r) ↔ row ∈ rows := by
  rw [List.mem_map]
  constructor
  · rintro ⟨r, hr, rfl⟩
    split_ifs at hrow ⊢ with hpr
    · exact absurd hrow (hg r hpr)
    · exact hr
  · intro hmem
    exact ⟨row, hmem, if_neg fun hpr => hp row hpr hrow⟩

theorem FactTables.enqueue {p : OutboundParams} {res : Enqueued} (h : FactTables uuid5 db)
    (huuid : fed.uuid5 = uuid5) (hid : uuidRe p.eventId = true)
    (hcall : enqueueOutbound fed db p now = some (db', res)) :
    FactTables uuid5 db' ∧ Quiet db db' := by
  rcases enqueueOutbound_some hcall with ⟨-, rfl, -⟩ | ⟨-, hnone, -, rfl⟩
  · exact ⟨h, .refl db'⟩
  · refine ⟨⟨⟨?_, ?_⟩, ?_, ?_, h.receiptOut.congr rfl, h.receiptOutIds, h.ledger.congr rfl rfl,
      h.receiptInIds⟩, quiet_outbound rfl fun row hstatus => ?_⟩
    · rw [List.map_append, List.map_singleton, ← List.concat_eq_append]
      exact h.outbound.ids.concat (nextId_not_mem _)
    · rw [List.map_append, List.map_singleton, ← List.concat_eq_append]
      refine h.outbound.eventIds.concat fun hmem => ?_
      obtain ⟨old, hold, heq⟩ := List.mem_map.mp hmem
      exact List.find?_eq_none.mp hnone old hold (decide_eq_true heq)
    · intro row hrow
      rcases List.mem_append.mp hrow with hrow | hrow
      · exact h.intents row hrow
      · rw [List.mem_singleton.mp hrow, ← huuid]
        rfl
    · intro row hrow
      rcases List.mem_append.mp hrow with hrow | hrow
      · exact h.outboundIds row hrow
      · rw [List.mem_singleton.mp hrow]
        exact hid
    · rw [List.mem_append, or_iff_left]
      intro hnew
      rw [List.mem_singleton.mp hnew] at hstatus
      cases hstatus

/-- A map of the outbound rows that leaves their ids, events and intents. -/
theorem FactTables.mapOutbound {k : OutboundRow → OutboundRow} (h : FactTables uuid5 db)
    (hk : ∀ row, (k row).id = row.id ∧ (k row).eventId = row.eventId ∧
      (k row).notifyIntentId = row.notifyIntentId) :
    FactTables uuid5 { db with federationOutbound := db.federationOutbound.map k } where
  outbound := by
    constructor
    · have hids : (db.federationOutbound.map k).map (·.id) = db.federationOutbound.map (·.id) := by
        rw [List.map_map]
        exact List.map_congr_left fun row _ => (hk row).1
      exact hids ▸ h.outbound.ids
    · have hids : (db.federationOutbound.map k).map (·.eventId) =
          db.federationOutbound.map (·.eventId) := by
        rw [List.map_map]
        exact List.map_congr_left fun row _ => (hk row).2.1
      exact hids ▸ h.outbound.eventIds
  intents row hrow := by
    obtain ⟨r, hr, rfl⟩ := List.mem_map.mp hrow
    rw [(hk r).2.1, (hk r).2.2]
    exact h.intents r hr
  outboundIds row hrow := by
    obtain ⟨r, hr, rfl⟩ := List.mem_map.mp hrow
    rw [(hk r).2.1]
    exact h.outboundIds r hr
  receiptOut := h.receiptOut.congr rfl
  receiptOutIds := h.receiptOutIds
  ledger := h.ledger.congr rfl rfl
  receiptInIds := h.receiptInIds

/-- What the UPDATE of a pending row can do to it here. -/
structure KeepsIntent (k : OutboundRow → OutboundRow) : Prop where
  columns : ∀ row, (k row).id = row.id ∧ (k row).eventId = row.eventId ∧
    (k row).notifyIntentId = row.notifyIntentId
  status : ∀ row, row.status = .pending → (k row).status ≠ .failedPermanent

theorem FactTables.updatePending {k : OutboundRow → OutboundRow} (h : FactTables uuid5 db)
    (eventId : Str) (hk : KeepsIntent k) :
    FactTables uuid5 (updatePending db eventId k) ∧ Quiet db (updatePending db eventId k) := by
  refine ⟨h.mapOutbound fun row => ?_, quiet_outbound rfl fun row hstatus => ?_⟩
  · split_ifs
    · exact hk.columns row
    · exact ⟨rfl, rfl, rfl⟩
  · refine mem_map_ended (q := fun r : OutboundRow => r.status = .failedPermanent)
      (fun r hr hended => ?_) (fun r hr => hk.status r hr.2) hstatus
    rw [hr.2] at hended
    cases hended

/-- The pending row of an event fails, and its sender is told. -/
theorem FactTables.failOutbound (h : FactTables uuid5 db) (eventId error : Str) (now : Time) :
    FactTables uuid5 (failOutboundPermanent db eventId error now) ∧
      (Quiet db (failOutboundPermanent db eventId error now) ∨
        ∃ f, Told uuid5 f db (failOutboundPermanent db eventId error now)) := by
  unfold failOutboundPermanent
  split
  · exact ⟨h, .inl (.refl db)⟩
  next found hfound =>
    have hmem := List.mem_of_find?_eq_some hfound
    have hkey := List.find?_some hfound
    rw [Bool.and_eq_true, decide_eq_true_eq, decide_eq_true_eq] at hkey
    have htables := h.mapOutbound (k := fun r => if r.id = found.id then
        { r with
          status := .failedPermanent, attempts := r.attempts + 1, lastError := some error,
          updatedAt := now }
      else r) fun row => by split_ifs <;> exact ⟨rfl, rfl, rfl⟩
    refine ⟨htables.congr (insertNotification_outbound ..) (insertNotification_receipts ..)
      (insertNotification_originals ..) (insertNotification_receiptIn ..), .inr ⟨.sendFailed eventId,
        told_insertNotification (fun g => ?_) rfl ?_ rfl rfl⟩⟩
    · cases g with
      | sendFailed e =>
        constructor
        · rintro ⟨row, hrow, rfl, hstatus⟩
          obtain ⟨r, hr, rfl⟩ := List.mem_map.mp hrow
          split_ifs at hstatus ⊢ with hid
          · have hsame : r = found := List.inj_on_of_nodup_map h.outbound.ids hr hmem hid
            exact .inr (congrArg Fact.sendFailed ((congrArg _ hsame).trans hkey.1))
          · exact .inl ⟨r, hr, rfl, hstatus⟩
        · rintro (⟨row, hrow, rfl, hstatus⟩ | hnew)
          · refine ⟨row, List.mem_map.mpr ⟨row, hrow, if_neg fun hid => ?_⟩, rfl, hstatus⟩
            rw [List.inj_on_of_nodup_map h.outbound.ids hrow hmem hid, hkey.2] at hstatus
            cases hstatus
          · exact ⟨_, List.mem_map.mpr ⟨found, hmem, if_pos rfl⟩,
              hkey.1.trans (Fact.sendFailed.inj hnew).symm, rfl⟩
      | receiptFailed => simp [Fact.Holds]
      | receiptIn => simp [Fact.Holds]
    · rw [h.intents found hmem, hkey.1]

/-- A map of the receipts that leaves their ids and what they are about. -/
theorem FactTables.mapReceipts {k : ReceiptOutRow → ReceiptOutRow} (h : FactTables uuid5 db)
    (hk : ∀ row, SameReceipt row (k row) ∧ (k row).id = row.id) :
    FactTables uuid5 { db with federationReceiptOut := db.federationReceiptOut.map k } where
  outbound := h.outbound.congr rfl
  intents := h.intents
  outboundIds := h.outboundIds
  receiptOut := by
    constructor
    · have hids : (db.federationReceiptOut.map k).map (·.id) = db.federationReceiptOut.map (·.id) := by
        rw [List.map_map]
        exact List.map_congr_left fun row _ => (hk row).2
      exact hids ▸ h.receiptOut.ids
    · intro r hr r' hr' hsame
      obtain ⟨old, hold, rfl⟩ := List.mem_map.mp hr
      obtain ⟨old', hold', rfl⟩ := List.mem_map.mp hr'
      rw [h.receiptOut.receipts old hold old' hold'
        (((hk old).1.trans hsame).trans (hk old').1.symm)]
  receiptOutIds row hrow := by
    obtain ⟨r, hr, rfl⟩ := List.mem_map.mp hrow
    rw [(hk r).1.1]
    exact h.receiptOutIds r hr
  ledger := h.ledger.congr rfl rfl
  receiptInIds := h.receiptInIds

theorem FactTables.updateReceipt {k : ReceiptOutRow → ReceiptOutRow} (h : FactTables uuid5 db)
    (row : ReceiptOutRow) (hk : ∀ r, SameReceipt r (k r) ∧ (k r).id = r.id)
    (hstatus : ∀ r, r.status = .pending → (k r).status ≠ .failedPermanent) :
    FactTables uuid5 (updateReceipt db row k) ∧ Quiet db (updateReceipt db row k) := by
  refine ⟨h.mapReceipts fun r => ?_, quiet_receiptOut rfl fun r hended => ?_⟩
  · split_ifs
    · exact hk r
    · exact ⟨.refl r, rfl⟩
  · refine mem_map_ended (q := fun r : ReceiptOutRow => r.status = .failedPermanent)
      (fun r hr hended => ?_) (fun r hr => hstatus r hr.2) hended
    rw [hr.2] at hended
    cases hended

theorem FactTables.failReceipt (h : FactTables uuid5 db) (huuid : fed.uuid5 = uuid5)
    (row : ReceiptOutRow) (error : Str) (now : Time) :
    FactTables uuid5 (failReceiptPermanent fed db row error now) ∧
      (Quiet db (failReceiptPermanent fed db row error now) ∨
        ∃ f, Told uuid5 f db (failReceiptPermanent fed db row error now)) := by
  unfold failReceiptPermanent
  split
  · exact ⟨h, .inl (.refl db)⟩
  next found hfound =>
    have hmem := List.mem_of_find?_eq_some hfound
    have hkey := List.find?_some hfound
    rw [decide_eq_true_eq] at hkey
    obtain ⟨⟨hevent, hagent, htype⟩, hpending⟩ := hkey
    have htables := h.mapReceipts (k := fun r => if r.id = found.id then
        { r with
          status := .failedPermanent, attempts := r.attempts + 1, lastError := some error,
          updatedAt := now }
      else r) fun r => by split_ifs <;> exact ⟨⟨rfl, rfl, rfl⟩, rfl⟩
    refine ⟨htables.congr (insertNotification_outbound ..) (insertNotification_receipts ..)
      (insertNotification_originals ..) (insertNotification_receiptIn ..),
      .inr ⟨.receiptFailed row.eventId row.agent row.ackType,
        told_insertNotification (fun g => ?_) rfl ?_ rfl rfl⟩⟩
    · cases g with
      | sendFailed => simp [Fact.Holds]
      | receiptFailed e a t =>
        constructor
        · rintro ⟨r', hr', hrkey, hstatus⟩
          obtain ⟨r, hr, rfl⟩ := List.mem_map.mp hr'
          split_ifs at hrkey hstatus with hid
          · have hsame : r = found := List.inj_on_of_nodup_map h.receiptOut.ids hr hmem hid
            subst hsame
            obtain ⟨rfl, hrest⟩ := Prod.mk.inj hrkey
            obtain ⟨rfl, rfl⟩ := Prod.mk.inj hrest
            right
            show Fact.receiptFailed r.eventId r.agent r.ackType = _
            rw [hevent, hagent, htype]
          · exact .inl ⟨r, hr, hrkey, hstatus⟩
        · rintro (⟨r, hr, hrkey, hstatus⟩ | hnew)
          · refine ⟨r, List.mem_map.mpr ⟨r, hr, if_neg fun hid => ?_⟩, hrkey, hstatus⟩
            rw [List.inj_on_of_nodup_map h.receiptOut.ids hr hmem hid, hpending] at hstatus
            cases hstatus
          · cases hnew
            refine ⟨_, List.mem_map.mpr ⟨found, hmem, if_pos rfl⟩, ?_, rfl⟩
            show (found.eventId, found.agent, found.ackType) = _
            rw [hevent, hagent, htype]
      | receiptIn => simp [Fact.Holds]
    · rw [← huuid]
      rfl

theorem writeAck_acks {eventId agentId : Option Str} {ackType : AckType} {detail : Val}
    (h : writeAck db eventId agentId ackType now detail = .ok db') :
    ∃ acks, db' = { db with acks := acks } := by
  unfold writeAck at h
  split at h
  · split_ifs at h
    cases h
    exact ⟨_, rfl⟩
  · cases h

/-- A new intent to send a receipt has not failed. -/
theorem FactTables.ack {inb : InboundRow} {identity : Identity} {eventId agentId sigHash : Str}
    {ackType : AckType} {detail : Val} (h : FactTables uuid5 db) (hid : uuidRe eventId = true)
    (hcall : ackWithReceiptIntent db inb identity eventId agentId ackType sigHash detail now =
      .ok db') : FactTables uuid5 db' ∧ Quiet db db' := by
  unfold ackWithReceiptIntent at hcall
  obtain ⟨db₁, hack, hcall⟩ := Checks.bind_eq_ok.mp hcall
  obtain ⟨acks, rfl⟩ := writeAck_acks hack
  have htables : FactTables uuid5 { db with acks := acks } := h.congr rfl rfl rfl rfl
  have hquiet : Quiet db { db with acks := acks } := ⟨fun f => holds_congr rfl rfl rfl f, rfl⟩
  split_ifs at hcall with hthere
  · cases hcall
    exact ⟨htables, hquiet⟩
  · cases hcall
    refine ⟨⟨htables.outbound.congr rfl, h.intents, h.outboundIds, ⟨?_, ?_⟩, ?_,
      h.ledger.congr rfl rfl, h.receiptInIds⟩, hquiet.trans (quiet_receiptOut rfl ?_)⟩
    · rw [List.map_append, List.map_singleton, ← List.concat_eq_append]
      exact h.receiptOut.ids.concat (nextId_not_mem _)
    · intro r hr r' hr' hsame
      have hfresh : ∀ old ∈ db.federationReceiptOut,
          ¬ (old.eventId = eventId ∧ old.agent = inb.target ∧ old.ackType = ackType) := by
        rintro old hold ⟨hevent, hagent, htype⟩
        refine hthere (List.any_eq_true.mpr ⟨old, hold, ?_⟩)
        rw [hevent, hagent, htype]
        simp
      rcases List.mem_append.mp hr with hr | hr <;> rcases List.mem_append.mp hr' with hr' | hr'
      · exact h.receiptOut.receipts r hr r' hr' hsame
      · rw [List.mem_singleton.mp hr'] at hsame
        exact absurd ⟨hsame.1.symm, hsame.2.1.symm, hsame.2.2.symm⟩ (hfresh r hr)
      · rw [List.mem_singleton.mp hr] at hsame
        exact absurd hsame (hfresh r' hr')
      · rw [List.mem_singleton.mp hr, List.mem_singleton.mp hr']
    · intro r hr
      rcases List.mem_append.mp hr with hr | hr
      · exact h.receiptOutIds r hr
      · rw [List.mem_singleton.mp hr]
        exact hid
    · intro r hstatus
      rw [List.mem_append, or_iff_left]
      intro hnew
      rw [List.mem_singleton.mp hnew] at hstatus
      cases hstatus

theorem Ledgered.mergedKeys_store (h : Ledgered db) (fed : Runtime) (p : ReceiptParams) (now : Time)
    (key : ReceiptKey) :
    (∃ m ∈ (storeReceipt fed db p now).federationReceiptIn, mergedKey m = key) ↔
      (∃ m ∈ db.federationReceiptIn, mergedKey m = key) ∨ key = p.key := by
  rw [storeReceipt, insertNotification_receiptIn, h.merge]
  split_ifs with hvariant
  · rw [List.append_nil, or_iff_left_of_imp]
    rintro rfl
    obtain ⟨row, hrow, hkey⟩ := List.any_eq_true.mp hvariant
    exact (h.merged_iff p.key).mpr ⟨row, hrow, of_decide_eq_true hkey⟩
  · constructor
    · rintro ⟨m, hm, rfl⟩
      rcases List.mem_append.mp hm with hm | hm
      · exact .inl ⟨m, hm, rfl⟩
      · rw [List.mem_singleton.mp hm]
        exact .inr rfl
    · rintro (⟨m, hm, hkey⟩ | rfl)
      · exact ⟨m, List.mem_append_left _ hm, hkey⟩
      · exact ⟨_, List.mem_append_right _ (List.mem_singleton_self _), rfl⟩

/-- A receipt that comes in is told; one that comes again, or with another signature, is not told
twice. -/
theorem FactTables.record {p : ReceiptParams} {status : ReceiptStatus} (h : FactTables uuid5 db)
    (huuid : fed.uuid5 = uuid5) (hid : uuidRe p.eventId = true)
    (hcall : recordReceiptIn fed db p now = .ok (db', status)) :
    FactTables uuid5 db' ∧ (Quiet db db' ∨ ∃ f, Told uuid5 f db db') := by
  cases hfound : findOriginal db.federationReceiptInOriginals p with
  | some original =>
    rw [h.ledger.record_duplicate hfound] at hcall
    cases hcall
    exact ⟨h, .inl (.refl db)⟩
  | none =>
    rw [recordReceiptIn_eq, hfound] at hcall
    cases hcall
    have hmerged := h.ledger.mergedKeys_store fed p now
    have hout : (storeReceipt fed db p now).federationOutbound = db.federationOutbound := by
      rw [storeReceipt, insertNotification_outbound, mergeReceipt]
      split_ifs <;> rfl
    have hreceipts : (storeReceipt fed db p now).federationReceiptOut = db.federationReceiptOut := by
      rw [storeReceipt, insertNotification_receipts, mergeReceipt]
      split_ifs <;> rfl
    refine ⟨⟨h.outbound.congr hout, by rw [hout]; exact h.intents, by rw [hout]; exact h.outboundIds,
      h.receiptOut.congr hreceipts, by rw [hreceipts]; exact h.receiptOutIds, h.ledger.store hfound,
      fun m hm => ?_⟩, .inr ⟨.receiptIn p.eventId p.agent p.ackType, ?_⟩⟩
    · rcases (hmerged (mergedKey m)).mp ⟨m, hm, rfl⟩ with ⟨m', hm', hkey⟩ | hkey
      · rw [← (Prod.mk.inj hkey).1]
        exact h.receiptInIds m' hm'
      · rw [(Prod.mk.inj hkey).1]
        exact hid
    · refine told_insertNotification (fun g => ?_) ?_ (by rw [← huuid]; rfl) rfl rfl
      · cases g with
        | sendFailed e =>
          have hrows := hout
          rw [storeReceipt, insertNotification_outbound] at hrows
          simp only [Fact.Holds, hrows, reduceCtorEq, or_false]
        | receiptFailed e a t =>
          have hrows := hreceipts
          rw [storeReceipt, insertNotification_receipts] at hrows
          simp only [Fact.Holds, hrows, reduceCtorEq, or_false]
        | receiptIn e a t =>
          have hrows := hmerged (e, a, t)
          rw [storeReceipt, insertNotification_receiptIn] at hrows
          refine hrows.trans (or_congr Iff.rfl ⟨fun hkey => ?_, fun hkey => ?_⟩)
          · obtain ⟨rfl, hrest⟩ := Prod.mk.inj hkey
            obtain ⟨rfl, rfl⟩ := Prod.mk.inj hrest
            rfl
          · obtain ⟨rfl, rfl, rfl⟩ := Fact.receiptIn.inj hkey
            rfl
      · rw [mergeReceipt]
        split_ifs <;> rfl

/-! ## Rows stay -/

/-- An acknowledgement, or any other call. -/
inductive Act where
  | acked (intentIds : List Str) (agent : Option Str)
  | other

/-- The acknowledgement names the row, and is issued for its agent. -/
def Act.Names : Act → NotificationRow → Prop
  | .acked intentIds agent, row => row.intentId ∈ intentIds ∧ row.agent = agent
  | .other, _ => False

variable {act : Act}

/-- What becomes of a stored notification: its flags are set and never cleared, and it is
acknowledged by name. -/
structure Flagged (act : Act) (row row' : NotificationRow) : Prop where
  columns : { row' with hintSent := row.hintSent, acked := row.acked } = row
  keeps : row.acked = true → row'.acked = true
  sets : row'.acked = true → row.acked = true ∨ act.Names row

/-- Rows are flagged, and new ones come in behind them. -/
def Grows (act : Act) (db db' : Db) : Prop :=
  ∃ k new, db'.federationNotifications = db.federationNotifications.map k ++ new ∧
    (∀ row, Flagged act row (k row)) ∧ ∀ row ∈ new, row.acked = false

theorem Flagged.refl (act : Act) (row : NotificationRow) : Flagged act row row := ⟨rfl, id, .inl⟩

theorem Flagged.intentId {r s : NotificationRow} (h : Flagged act r s) : s.intentId = r.intentId :=
  (congrArg NotificationRow.intentId h.columns :)

theorem Flagged.agent {r s : NotificationRow} (h : Flagged act r s) : s.agent = r.agent :=
  (congrArg NotificationRow.agent h.columns :)

theorem Flagged.cursor {r s : NotificationRow} (h : Flagged act r s) :
    hintCursor s = hintCursor r :=
  (congrArg hintCursor h.columns :)

theorem Flagged.about {r s : NotificationRow} (h : Flagged act r s) :
    About uuid5 f s ↔ About uuid5 f r := by
  have hkind : s.kind = r.kind := (congrArg NotificationRow.kind h.columns :)
  have hevent : s.eventId = r.eventId := (congrArg NotificationRow.eventId h.columns :)
  constructor
  · rintro ⟨h₁, h₂, h₃⟩
    exact ⟨h.intentId ▸ h₁, hkind ▸ h₂, hevent ▸ h₃⟩
  · rintro ⟨h₁, h₂, h₃⟩
    exact ⟨h.intentId.trans h₁, hkind.trans h₂, hevent.trans h₃⟩

theorem Act.names_congr {r s : NotificationRow} (hid : s.intentId = r.intentId)
    (hagent : s.agent = r.agent) : act.Names s ↔ act.Names r := by
  cases act with
  | acked => rw [Act.Names, hid, hagent, Act.Names]
  | other => exact Iff.rfl

theorem Flagged.trans {r s t : NotificationRow} (h : Flagged act r s) (h' : Flagged act s t) :
    Flagged act r t := by
  refine ⟨?_, fun hr => h'.keeps (h.keeps hr), fun ht => ?_⟩
  · calc { t with hintSent := r.hintSent, acked := r.acked }
      _ = { ({ t with hintSent := s.hintSent, acked := s.acked } : NotificationRow) with
            hintSent := r.hintSent, acked := r.acked } := rfl
      _ = { s with hintSent := r.hintSent, acked := r.acked } := by rw [h'.columns]
      _ = r := h.columns
  · rcases h'.sets ht with hs | hs
    · exact h.sets hs
    · exact .inr ((Act.names_congr h.intentId h.agent).mp hs)

theorem Grows.same (act : Act) (h : db'.federationNotifications = db.federationNotifications) :
    Grows act db db' :=
  ⟨id, [], by rw [h, List.map_id, List.append_nil], .refl act, nofun⟩

theorem Told.grows (h : Told uuid5 f db db') : Grows .other db db' := by
  obtain ⟨row, -, hfresh, hrows⟩ := h.notifications
  split_ifs at hrows
  · exact .same _ hrows
  · refine ⟨id, [row], by rw [hrows, List.map_id], .refl _, fun r hr => ?_⟩
    rw [List.mem_singleton.mp hr]
    exact hfresh

/-- Only flags are set. -/
structure Marks (act : Act) (db db' : Db) : Prop where
  frame : db' = { db with federationNotifications := db'.federationNotifications }
  rows : ∃ k, db'.federationNotifications = db.federationNotifications.map k ∧
    ∀ row, Flagged act row (k row)

theorem Marks.refl (act : Act) (db : Db) : Marks act db db :=
  ⟨rfl, id, (List.map_id _).symm, .refl act⟩

theorem Marks.trans (h : Marks act db db') (h' : Marks act db' db'') : Marks act db db'' := by
  obtain ⟨k, hk, hflags⟩ := h.rows
  obtain ⟨k', hk', hflags'⟩ := h'.rows
  refine ⟨by rw [h'.frame, h.frame], k' ∘ k, by rw [hk', hk, List.map_map], fun row => ?_⟩
  exact (hflags row).trans (hflags' (k row))

theorem Marks.exact (h : Marks act db db') (hdb : Exact uuid5 db) : Exact uuid5 db' := by
  obtain ⟨k, hk, hflags⟩ := h.rows
  have hfacts : ∀ f, Fact.Holds db' f ↔ Fact.Holds db f := fun f => by
    rw [h.frame]
    exact holds_congr rfl rfl rfl f
  refine ⟨?_, fun f hf => ?_, fun row hrow => ?_⟩
  · have hids : db'.federationNotifications.map (·.intentId) =
        db.federationNotifications.map (·.intentId) := by
      rw [hk, List.map_map]
      exact List.map_congr_left fun row _ => (hflags row).intentId
    rw [hids]
    exact hdb.nodup
  · obtain ⟨row, hrow, habout⟩ := hdb.complete f ((hfacts f).mp hf)
    exact ⟨k row, hk ▸ List.mem_map_of_mem hrow, (hflags row).about.mpr habout⟩
  · rw [hk] at hrow
    obtain ⟨old, hold, rfl⟩ := List.mem_map.mp hrow
    obtain ⟨f, hf, habout⟩ := hdb.sound old hold
    exact ⟨f, (hfacts f).mpr hf, (hflags old).about.mpr habout⟩

theorem Marks.notified (h : Marks act db db') (hdb : Notified uuid5 db) : Notified uuid5 db' := by
  refine ⟨?_, h.exact hdb.exact⟩
  rw [h.frame]
  exact hdb.tables.congr rfl rfl rfl rfl

theorem Marks.grows (h : Marks act db db') : Grows act db db' := by
  obtain ⟨k, hk, hflags⟩ := h.rows
  exact ⟨k, [], by rw [hk, List.append_nil], hflags, nofun⟩

theorem markHintSent_marks (db : Db) (intentId : Str) :
    Marks .other db (markHintSent db intentId) := by
  refine ⟨rfl, _, rfl, fun row => ?_⟩
  split_ifs
  · exact ⟨rfl, id, .inl⟩
  · exact .refl _ row

theorem hintOne_marks (woken : NotificationRow → Bool) (db : Db) (row : NotificationRow) :
    Marks .other db (hintOne woken db row) := by
  unfold hintOne
  split_ifs
  · exact markHintSent_marks db _
  · exact .refl _ db

theorem foldl_hintOne (woken : NotificationRow → Bool) (rows : List NotificationRow) (db : Db) :
    Marks .other db (rows.foldl (hintOne woken) db) := by
  induction rows generalizing db with
  | nil => exact .refl _ db
  | cons row rows ih => exact (hintOne_marks woken db row).trans (ih _)

/-- A scan sets flags, however many pages it takes. -/
theorem hintPages_marks (woken : NotificationRow → Bool) (pages : ℕ) (db : Db)
    (after : Option HintCursor) : Marks .other db (hintPages woken pages db after).1 := by
  induction pages generalizing db after with
  | zero => exact .refl _ db
  | succ pages ih =>
    simp only [hintPages]
    split
    · exact .refl _ db
    · split_ifs
      · exact foldl_hintOne ..
      · exact (foldl_hintOne ..).trans (ih _ _)

theorem ackHints_marks (db : Db) (ids : List Str) (agent : Option Str) :
    Marks (.acked ids agent) db (ackHints db ids agent) := by
  refine ⟨rfl, _, rfl, fun row => ?_⟩
  split_ifs with hnamed
  · exact ⟨rfl, fun _ => rfl, fun _ => .inr hnamed.2⟩
  · exact .refl _ row

/-! ## Runs -/

/-- The calls that write the tables of facts and notifications; the ids of events are UUIDs. -/
inductive Notifies (uuid5 : Str → Str) (db : Db) : Act → Db → Prop where
  | enqueue {fed : Runtime} {p : OutboundParams} {now : Time} {res : Enqueued} {db' : Db}
      (huuid : fed.uuid5 = uuid5) (hid : uuidRe p.eventId = true)
      (h : enqueueOutbound fed db p now = some (db', res)) : Notifies uuid5 db .other db'
  | outboundSent (eventId : Str) (now : Time) :
      Notifies uuid5 db .other (markOutboundSent db eventId now)
  | outboundRetry (eventId : Str) (attempts : ℕ) (deadline : Time) (error : Str) (now : Time) :
      Notifies uuid5 db .other (markOutboundRetry db eventId attempts deadline error now)
  | outboundFails (eventId error : Str) (now : Time) :
      Notifies uuid5 db .other (failOutboundPermanent db eventId error now)
  | ack {inb : InboundRow} {identity : Identity} {eventId agentId sigHash : Str} {ackType : AckType}
      {detail : Val} {now : Time} {db' : Db} (hid : uuidRe eventId = true)
      (h : ackWithReceiptIntent db inb identity eventId agentId ackType sigHash detail now =
        .ok db') : Notifies uuid5 db .other db'
  | materialize (row : ReceiptOutRow) (signedJson : List (Str × Json)) (sig : Str) (now : Time) :
      Notifies uuid5 db .other (materializeReceipt db row signedJson sig now)
  | receiptSent (row : ReceiptOutRow) (now : Time) :
      Notifies uuid5 db .other (markReceiptSent db row now)
  | receiptRetry (row : ReceiptOutRow) (attempts : ℕ) (deadline : Time) (error : Str)
      (now : Time) : Notifies uuid5 db .other (markReceiptRetry db row attempts deadline error now)
  | receiptFails {fed : Runtime} (huuid : fed.uuid5 = uuid5) (row : ReceiptOutRow) (error : Str)
      (now : Time) : Notifies uuid5 db .other (failReceiptPermanent fed db row error now)
  | record {fed : Runtime} {p : ReceiptParams} {now : Time} {status : ReceiptStatus} {db' : Db}
      (huuid : fed.uuid5 = uuid5) (hid : uuidRe p.eventId = true)
      (h : recordReceiptIn fed db p now = .ok (db', status)) : Notifies uuid5 db .other db'
  | scan (woken : NotificationRow → Bool) (cursor : Option HintCursor) :
      Notifies uuid5 db .other (hintNotifications woken db cursor).1
  | acknowledge (ids : List Str) (agent : Option Str) :
      Notifies uuid5 db (.acked ids agent) (ackHints db ids agent)
  | write {db' : Db} (hout : db'.federationOutbound = db.federationOutbound)
      (hreceipts : db'.federationReceiptOut = db.federationReceiptOut)
      (horiginals : db'.federationReceiptInOriginals = db.federationReceiptInOriginals)
      (hin : db'.federationReceiptIn = db.federationReceiptIn)
      (hnotifications : db'.federationNotifications = db.federationNotifications) :
      Notifies uuid5 db .other db'

/-- An instance that has sent and received nothing yet. -/
def notifier (uuid5 : Str → Str) : System Db Act where
  init db := db.federationOutbound = [] ∧ db.federationReceiptOut = [] ∧
    db.federationReceiptInOriginals = [] ∧ db.federationReceiptIn = [] ∧
    db.federationNotifications = []
  step := Notifies uuid5

theorem Notified.quiet (h : Notified uuid5 db) (htables : FactTables uuid5 db')
    (hquiet : Quiet db db') : Notified uuid5 db' ∧ Grows .other db db' :=
  ⟨⟨htables, hquiet.exact h.exact⟩, .same _ hquiet.notifications⟩

theorem Notified.tell (h : Notified uuid5 db) (huuid : Function.Injective uuid5)
    (htables : FactTables uuid5 db') (hcase : Quiet db db' ∨ ∃ f, Told uuid5 f db db') :
    Notified uuid5 db' ∧ Grows .other db db' := by
  rcases hcase with hquiet | ⟨f, htold⟩
  · exact h.quiet htables hquiet
  · exact ⟨⟨htables, htold.exact huuid h.tables htables h.exact⟩, htold.grows⟩

/-- Every call leaves a row for each fact, and keeps the rows there are. -/
theorem Notified.step (huuid : Function.Injective uuid5) (h : Notified uuid5 db)
    (hstep : Notifies uuid5 db act db') : Notified uuid5 db' ∧ Grows act db db' := by
  have hpending : SendStatus.pending ≠ .failedPermanent := by decide
  have hsent : SendStatus.sent ≠ .failedPermanent := by decide
  cases hstep with
  | enqueue hfed hid hcall =>
    obtain ⟨htables, hquiet⟩ := h.tables.enqueue hfed hid hcall
    exact h.quiet htables hquiet
  | outboundSent eventId now =>
    have hcall : FactTables uuid5 (markOutboundSent db eventId now) ∧
        Quiet db (markOutboundSent db eventId now) :=
      h.tables.updatePending eventId ⟨fun _ => ⟨rfl, rfl, rfl⟩, fun _ _ => hsent⟩
    exact h.quiet hcall.1 hcall.2
  | outboundRetry eventId attempts deadline error now =>
    have hcall : FactTables uuid5 (markOutboundRetry db eventId attempts deadline error now) ∧
        Quiet db (markOutboundRetry db eventId attempts deadline error now) :=
      h.tables.updatePending eventId ⟨fun _ => ⟨rfl, rfl, rfl⟩, fun _ hrow => hrow ▸ hpending⟩
    exact h.quiet hcall.1 hcall.2
  | outboundFails eventId error now =>
    obtain ⟨htables, hcase⟩ := h.tables.failOutbound eventId error now
    exact h.tell huuid htables hcase
  | ack hid hcall =>
    obtain ⟨htables, hquiet⟩ := h.tables.ack hid hcall
    exact h.quiet htables hquiet
  | materialize row signedJson sig now =>
    have hcall : FactTables uuid5 (materializeReceipt db row signedJson sig now) ∧
        Quiet db (materializeReceipt db row signedJson sig now) :=
      h.tables.updateReceipt row (fun r => by split <;> exact ⟨⟨rfl, rfl, rfl⟩, rfl⟩)
        (fun r hr => by split <;> exact hr ▸ hpending)
    exact h.quiet hcall.1 hcall.2
  | receiptSent row now =>
    have hcall : FactTables uuid5 (markReceiptSent db row now) ∧
        Quiet db (markReceiptSent db row now) :=
      h.tables.updateReceipt row (fun _ => ⟨⟨rfl, rfl, rfl⟩, rfl⟩) (fun _ _ => hsent)
    exact h.quiet hcall.1 hcall.2
  | receiptRetry row attempts deadline error now =>
    have hcall : FactTables uuid5 (markReceiptRetry db row attempts deadline error now) ∧
        Quiet db (markReceiptRetry db row attempts deadline error now) :=
      h.tables.updateReceipt row (fun _ => ⟨⟨rfl, rfl, rfl⟩, rfl⟩) (fun _ hr => hr ▸ hpending)
    exact h.quiet hcall.1 hcall.2
  | receiptFails hfed row error now =>
    obtain ⟨htables, hcase⟩ := h.tables.failReceipt hfed row error now
    exact h.tell huuid htables hcase
  | record hfed hid hcall =>
    obtain ⟨htables, hcase⟩ := h.tables.record hfed hid hcall
    exact h.tell huuid htables hcase
  | scan woken cursor =>
    have hmarks := hintPages_marks woken 50 db cursor
    exact ⟨hmarks.notified h, hmarks.grows⟩
  | acknowledge ids agent =>
    exact ⟨(ackHints_marks db ids agent).notified h, (ackHints_marks db ids agent).grows⟩
  | write hout hreceipts horiginals hin hnotifications =>
    exact h.quiet (h.tables.congr hout hreceipts horiginals hin)
      ⟨holds_congr hout hreceipts hin, hnotifications⟩

theorem notified_of_reach (huuid : Function.Injective uuid5) (h : Reachable (notifier uuid5) db) :
    Notified uuid5 db := by
  refine h.invariant (P := Notified uuid5) (fun s hs => ?_)
    fun s act s' hs _ hstep => (hs.step huuid hstep).1
  obtain ⟨hout, hreceipts, horiginals, hin, hnotifications⟩ := hs
  have hledger : Ledgered ({} : Db) := ⟨List.Pairwise.nil, List.nodup_nil, nofun, rfl⟩
  have hempty : FactTables uuid5 ({} : Db) :=
    ⟨⟨List.nodup_nil, List.nodup_nil⟩, nofun, nofun, ⟨List.nodup_nil, nofun⟩, nofun, hledger, nofun⟩
  have hnone : ∀ f, ¬ Fact.Holds ({} : Db) f := by
    intro f hf
    cases f <;> obtain ⟨row, hrow, -⟩ := hf <;> cases hrow
  have hexact : Exact uuid5 ({} : Db) :=
    ⟨List.nodup_nil, fun f hf => absurd hf (hnone f), nofun⟩
  exact ⟨hempty.congr hout hreceipts horiginals hin,
    Quiet.exact ⟨holds_congr hout hreceipts hin, hnotifications⟩ hexact⟩

/-! ## A consumer -/

/-- The rows of the same agent that come no later on a page. -/
def ahead (r row : NotificationRow) : Bool := row.agent = r.agent && hintCursor row ≤ hintCursor r

def rowsAhead (db : Db) (r : NotificationRow) : ℕ := db.federationNotifications.countP (ahead r)

/-- Those that nobody has acknowledged. -/
def waitingAhead (db : Db) (r : NotificationRow) : ℕ :=
  db.federationNotifications.countP fun row => ahead r row && !row.acked

/-- A consumer of an agent goes through rounds: it pulls a page, and acknowledges what was on it.
Other calls come between the rounds and within them. -/
inductive Consumes (uuid5 : Str → Str) (agent : Option Str) (limit : ℕ) (db : Db) :
    List (List NotificationRow) → List Act → Db → Prop where
  | start : Consumes uuid5 agent limit db [] [] db
  | other {pages : List (List NotificationRow)} {acts : List Act} {act : Act} {s s' : Db} :
      Consumes uuid5 agent limit db pages acts s → Notifies uuid5 s act s' →
      Consumes uuid5 agent limit db pages (acts ++ [act]) s'
  | round {pages : List (List NotificationRow)} {acts within : List Act} {s s' : Db} :
      Consumes uuid5 agent limit db pages acts s → Trace (notifier uuid5) s within s' →
      Consumes uuid5 agent limit db (pages ++ [pullHints s agent limit]) (acts ++ within)
        (ackHints s' ((pullHints s agent limit).map (·.intentId)) agent)

/-- A page that leaves a row out is full, and its rows come first. -/
theorem hintPage_full {rows : List NotificationRow} {limit : ℕ} {row : NotificationRow}
    (hrow : row ∈ rows) (hnot : row ∉ hintPage rows limit) :
    (hintPage rows limit).length = limit ∧
      ∀ r ∈ hintPage rows limit, r ∈ rows ∧ hintCursor r ≤ hintCursor row := by
  have hperm := List.perm_insertionSort (hintCursor · ≤ hintCursor ·) rows
  have hsorted := List.pairwise_insertionSort
    (fun a b : NotificationRow => hintCursor a ≤ hintCursor b) rows
  unfold hintPage at hnot ⊢
  rw [← List.take_append_drop limit (rows.insertionSort _)] at hsorted
  obtain ⟨-, -, hcross⟩ := List.pairwise_append.mp hsorted
  have hlast : row ∈ (rows.insertionSort (hintCursor · ≤ hintCursor ·)).drop limit := by
    have hmem := hperm.mem_iff.mpr hrow
    rw [← List.take_append_drop limit (rows.insertionSort _)] at hmem
    exact (List.mem_append.mp hmem).resolve_left hnot
  refine ⟨?_, fun r hr => ⟨hperm.mem_iff.mp (List.mem_of_mem_take hr), hcross r hr row hlast⟩⟩
  have hpos := List.length_pos_of_mem hlast
  rw [List.length_drop] at hpos
  rw [List.length_take]
  omega

/-- The row is there, and nobody has acknowledged it. -/
def Stays (row : NotificationRow) (db : Db) : Prop :=
  ∃ r ∈ db.federationNotifications, r.intentId = row.intentId ∧ r.agent = row.agent ∧
    hintCursor r = hintCursor row ∧ r.acked = false

theorem Stays.step {row : NotificationRow} (h : Stays row db) (hgrows : Grows act db db')
    (hact : ¬ act.Names row) : Stays row db' := by
  obtain ⟨r, hr, hid, hagent, hcursor, hacked⟩ := h
  obtain ⟨k, new, hrows, hflags, -⟩ := hgrows
  refine ⟨k r, ?_, (hflags r).intentId.trans hid, (hflags r).agent.trans hagent,
    (hflags r).cursor.trans hcursor, ?_⟩
  · rw [hrows]
    exact List.mem_append_left _ (List.mem_map_of_mem hr)
  · rw [← Bool.not_eq_true]
    intro hset
    rcases (hflags r).sets hset with hbefore | hnamed
    · rw [hacked] at hbefore
      cases hbefore
    · exact hact ((Act.names_congr hid hagent).mp hnamed)

/-- A call adds to the rows that wait no more than it adds to the rows. -/
theorem Grows.waiting (h : Grows act db db') {r : NotificationRow} {q : NotificationRow → Bool}
    (hq : ∀ row row', Flagged act row row' → q row' = q row)
    (hahead : ∀ row, q row = true → ahead r row = true) :
    (db'.federationNotifications.countP fun row => q row && !row.acked) + rowsAhead db r ≤
      (db.federationNotifications.countP fun row => q row && !row.acked) + rowsAhead db' r := by
  obtain ⟨k, new, hrows, hflags, -⟩ := h
  have hold : (db.federationNotifications.map k).countP (fun row => q row && !row.acked) ≤
      db.federationNotifications.countP fun row => q row && !row.acked := by
    rw [List.countP_map]
    refine List.countP_mono_left fun row _ hrow => ?_
    rw [Function.comp, Bool.and_eq_true, hq row (k row) (hflags row), Bool.not_eq_true'] at hrow
    rw [Bool.and_eq_true, Bool.not_eq_true']
    refine ⟨hrow.1, Bool.eq_false_of_not_eq_true fun hacked => ?_⟩
    rw [(hflags row).keeps hacked] at hrow
    cases hrow.2
  have hnew : new.countP (fun row => q row && !row.acked) ≤ new.countP (ahead r) := by
    refine List.countP_mono_left fun row _ hrow => ?_
    exact hahead row (Bool.and_eq_true_iff.mp hrow).1
  have hsame : (db.federationNotifications.map k).countP (ahead r) = rowsAhead db r := by
    rw [List.countP_map]
    refine List.countP_congr fun row _ => ?_
    rw [Function.comp, ahead, (hflags row).agent, (hflags row).cursor, ahead]
  have hall : rowsAhead db' r = rowsAhead db r + new.countP (ahead r) := by
    rw [rowsAhead, hrows, List.countP_append, hsame]
  rw [hall, hrows, List.countP_append]
  omega

theorem ahead_flagged {r row row' : NotificationRow} (h : Flagged act row row') :
    ahead r row' = ahead r row := by rw [ahead, h.agent, h.cursor, ahead]

/-- The same for the calls within a round. -/
theorem waiting_of_trace {acts : List Act} (huuid : Function.Injective uuid5)
    (hdb : Reachable (notifier uuid5) db) (h : Trace (notifier uuid5) db acts db')
    {r : NotificationRow} {q : NotificationRow → Bool}
    (hq : ∀ act row row', Flagged act row row' → q row' = q row)
    (hahead : ∀ row, q row = true → ahead r row = true) :
    (db'.federationNotifications.countP fun row => q row && !row.acked) + rowsAhead db r ≤
      (db.federationNotifications.countP fun row => q row && !row.acked) + rowsAhead db' r := by
  induction h with
  | nil => exact Nat.le_refl _
  | snoc hrun hstep ih =>
    have hgrows := ((notified_of_reach huuid (hrun.reachable hdb)).step huuid hstep).2
    have hlast := hgrows.waiting (hq _) hahead
    omega

theorem stays_of_trace {acts : List Act} {row : NotificationRow}
    (huuid : Function.Injective uuid5) (hdb : Reachable (notifier uuid5) db)
    (h : Trace (notifier uuid5) db acts db') (hacts : ∀ act ∈ acts, ¬ act.Names row)
    (hrow : Stays row db) : Stays row db' := by
  induction h with
  | nil => exact hrow
  | snoc hrun hstep ih =>
    have hgrows := ((notified_of_reach huuid (hrun.reachable hdb)).step huuid hstep).2
    refine (ih fun act hact => hacts act (List.mem_append_left _ hact)).step hgrows ?_
    exact hacts _ (List.mem_append_right _ (List.mem_singleton_self _))

/-- An acknowledged page is a page less to wait for. -/
theorem waiting_round {acts : List Act} {row : NotificationRow} {limit : ℕ}
    (huuid : Function.Injective uuid5) (hdb : Reachable (notifier uuid5) db)
    (h : Trace (notifier uuid5) db acts db') (hrow : Stays row db)
    (hnot : row.intentId ∉ (pullHints db row.agent limit).map (·.intentId)) :
    waitingAhead (ackHints db' ((pullHints db row.agent limit).map (·.intentId)) row.agent) row +
        limit + rowsAhead db row ≤ waitingAhead db row + rowsAhead db' row := by
  obtain ⟨r, hr, hid, hagent, hcursor, hacked⟩ := hrow
  let ids := (pullHints db row.agent limit).map (·.intentId)
  let q : NotificationRow → Bool := fun n => ahead row n && decide (n.intentId ∉ ids)
  have hq : ∀ act n n', Flagged act n n' → q n' = q n := fun act n n' hflag => by
    simp only [q, ahead_flagged hflag, hflag.intentId]
  have hahead : ∀ n, q n = true → ahead row n = true := fun n hn =>
    (Bool.and_eq_true_iff.mp hn).1
  have hwithin := waiting_of_trace huuid hdb h hq hahead
  -- the page is full of rows in front of the one that waits
  have hmem : r ∈ db.federationNotifications.filter fun n => !n.acked && n.agent = row.agent := by
    rw [List.mem_filter, hacked, hagent]
    exact ⟨hr, by simp⟩
  have hout : r ∉ pullHints db row.agent limit := fun hin =>
    hnot (List.mem_map.mpr ⟨r, hin, hid⟩)
  obtain ⟨hlength, hpage⟩ := hintPage_full hmem hout
  have hnodup : (pullHints db row.agent limit).Nodup := by
    have hrows : db.federationNotifications.Nodup :=
      List.Nodup.of_map _ (notified_of_reach huuid hdb).exact.nodup
    have hsorted := (List.perm_insertionSort (hintCursor · ≤ hintCursor ·)
      (db.federationNotifications.filter fun n => !n.acked && n.agent = row.agent)).nodup_iff.mpr
        (hrows.filter _)
    exact hsorted.sublist (List.take_sublist _ _)
  have hfull : limit + db.federationNotifications.countP (fun n => q n && !n.acked) ≤
      waitingAhead db row := by
    have hsub : pullHints db row.agent limit ⊆ db.federationNotifications.filter
        (fun n => (ahead row n && !n.acked) && decide (n.intentId ∈ ids)) := by
      intro n hn
      obtain ⟨hin, hle⟩ := hpage n hn
      obtain ⟨hnmem, hncond⟩ := List.mem_filter.mp hin
      rw [Bool.and_eq_true, Bool.not_eq_true', decide_eq_true_eq] at hncond
      rw [hcursor] at hle
      rw [List.mem_filter, ahead, hncond.1, hncond.2]
      refine ⟨hnmem, ?_⟩
      simp [hle, ids, List.mem_map_of_mem hn]
    have hcount := (List.subperm_of_subset hnodup hsub).length_le
    have hlimit : (pullHints db row.agent limit).length = limit := hlength
    rw [hlimit, ← List.countP_eq_length_filter] at hcount
    have hsplit := List.length_eq_countP_add_countP (l := db.federationNotifications.filter
      fun n => ahead row n && !n.acked) fun n => decide (n.intentId ∈ ids)
    rw [← List.countP_eq_length_filter, List.countP_filter, List.countP_filter] at hsplit
    have hin : db.federationNotifications.countP (fun n =>
        decide (n.intentId ∈ ids) && (ahead row n && !n.acked)) = db.federationNotifications.countP
          (fun n => (ahead row n && !n.acked) && decide (n.intentId ∈ ids)) :=
      List.countP_congr fun n _ => by rw [Bool.and_comm]
    have hrest : db.federationNotifications.countP (fun n =>
        (decide ¬ decide (n.intentId ∈ ids) = true) && (ahead row n && !n.acked)) =
          db.federationNotifications.countP fun n => q n && !n.acked := by
      refine List.countP_congr fun n _ => ?_
      simp only [q]
      grind
    rw [waitingAhead]
    omega
  have hlast : waitingAhead (ackHints db' ids row.agent) row ≤
      db'.federationNotifications.countP fun n => q n && !n.acked := by
    rw [waitingAhead, ackHints]
    simp only [List.countP_map]
    refine List.countP_mono_left fun n _ hn => ?_
    simp only [Function.comp] at hn
    split_ifs at hn with hnamed
    · simp at hn
    · rw [Bool.and_eq_true, Bool.not_eq_true'] at hn
      have hnagent : n.agent = row.agent := of_decide_eq_true (Bool.and_eq_true_iff.mp hn.1).1
      have hfree : n.intentId ∉ ids := fun hin => hnamed ⟨hn.2, hin, hnagent⟩
      simp [q, hn.1, hn.2, hfree]
  show waitingAhead (ackHints db' ids row.agent) row + limit + rowsAhead db row ≤ _
  omega

theorem rowsAhead_ackHints (db : Db) (ids : List Str) (agent : Option Str) (r : NotificationRow) :
    rowsAhead (ackHints db ids agent) r = rowsAhead db r := by
  obtain ⟨k, hk, hflags⟩ := (ackHints_marks db ids agent).rows
  rw [rowsAhead, hk, List.countP_map, rowsAhead]
  exact List.countP_congr fun row _ => by rw [Function.comp, ahead_flagged (hflags row)]

/-- With every round a page less is in front of a row that no page has shown. -/
theorem Consumes.waiting {agent : Option Str} {limit : ℕ} {pages : List (List NotificationRow)}
    {acts : List Act} {s : Db} (huuid : Function.Injective uuid5)
    (hdb : Reachable (notifier uuid5) db) (h : Consumes uuid5 agent limit db pages acts s)
    {row : NotificationRow} (hagent : row.agent = agent) (hrow : Stays row db)
    (hacts : ∀ act ∈ acts, ¬ act.Names row)
    (hpages : ∀ page ∈ pages, row.intentId ∉ page.map (·.intentId)) :
    Reachable (notifier uuid5) s ∧ Stays row s ∧
      limit * pages.length + waitingAhead s row + rowsAhead db row ≤
        waitingAhead db row + rowsAhead s row := by
  subst hagent
  induction h with
  | start => exact ⟨hdb, hrow, by simp⟩
  | other hbefore hstep ih =>
    obtain ⟨hs, hstays, hwait⟩ := ih (fun act hact => hacts act (List.mem_append_left _ hact)) hpages
    have hgrows := ((notified_of_reach huuid hs).step huuid hstep).2
    have hname := hacts _ (List.mem_append_right _ (List.mem_singleton_self _))
    have hlast := hgrows.waiting (r := row) (fun n n' hflag => ahead_flagged hflag) fun n hn => hn
    refine ⟨.step hs trivial hstep, hstays.step hgrows hname, ?_⟩
    rw [waitingAhead] at hwait ⊢
    omega
  | @round pages acts within s s' hbefore hwithin ih =>
    obtain ⟨hs, hstays, hwait⟩ := ih (fun act hact => hacts act (List.mem_append_left _ hact))
      fun page hpage => hpages page (List.mem_append_left _ hpage)
    have hnot := hpages _ (List.mem_append_right _ (List.mem_singleton_self _))
    have hround := waiting_round huuid hs hwithin hstays hnot
    have hstays' := stays_of_trace huuid hs hwithin
      (fun act hact => hacts act (List.mem_append_right _ hact)) hstays
    have hack := (ackHints_marks s' ((pullHints s row.agent limit).map (·.intentId)) row.agent).grows
    refine ⟨.step (hwithin.reachable hs) trivial (.acknowledge _ _),
      hstays'.step hack fun hnamed => hnot hnamed.1, ?_⟩
    rw [rowsAhead_ackHints, List.length_append, List.length_singleton, Nat.mul_succ]
    omega

/-- In every reached state each failed event, failed receipt and stored receipt has one
notification, and there are no others; no two of them share an id. A row is acknowledged by name
and for its own agent, and stays so. A consumer that acknowledges what it pulls is shown a row
before its rounds have room for all rows in front of it: those that waited at the start, and those
that have come in with an earlier stamp, or with the same and a smaller id. -/
theorem notifications_once (huuid : Function.Injective uuid5)
    (hdb : Reachable (notifier uuid5) db) :
    (∀ f, Fact.Holds db f → ∃ row ∈ db.federationNotifications, About uuid5 f row ∧
      ∀ row' ∈ db.federationNotifications, About uuid5 f row' → row' = row) ∧
    (∀ row ∈ db.federationNotifications, ∃ f, Fact.Holds db f ∧ About uuid5 f row) ∧
    (∀ f g, Fact.Holds db f → Fact.Holds db g → f.intentId uuid5 = g.intentId uuid5 → f = g) ∧
    (∀ act db', Notifies uuid5 db act db' →
      (∀ row ∈ db.federationNotifications, ∃ row' ∈ db'.federationNotifications,
        Flagged act row row') ∧
      ∀ row' ∈ db'.federationNotifications, row'.acked = true → act.Names row' ∨
        ∃ row ∈ db.federationNotifications, row.intentId = row'.intentId ∧ row.acked = true) ∧
    ∀ limit pages acts s, ∀ row ∈ db.federationNotifications, row.acked = false →
      Consumes uuid5 row.agent limit db pages acts s → (∀ act ∈ acts, ¬ act.Names row) →
      waitingAhead db row + (rowsAhead s row - rowsAhead db row) ≤ limit * pages.length →
      ∃ page ∈ pages, row.intentId ∈ page.map (·.intentId) := by
  have hnotified := notified_of_reach huuid hdb
  refine ⟨fun f hf => ?_, hnotified.exact.sound, fun f g hf hg hid => ?_, fun act db' hstep => ?_, ?_⟩
  · obtain ⟨row, hrow, habout⟩ := hnotified.exact.complete f hf
    refine ⟨row, hrow, habout, fun row' hrow' habout' => ?_⟩
    exact List.inj_on_of_nodup_map hnotified.exact.nodup hrow' hrow
      (habout'.intentId.trans habout.intentId.symm)
  · exact intentId_injective huuid (hnotified.tables.colon_not_mem hf)
      (hnotified.tables.colon_not_mem hg) hid
  · obtain ⟨-, k, new, hrows, hflags, hnew⟩ := hnotified.step huuid hstep
    constructor
    · intro row hrow
      refine ⟨k row, ?_, hflags row⟩
      rw [hrows]
      exact List.mem_append_left _ (List.mem_map_of_mem hrow)
    · intro row' hrow' hacked
      rw [hrows] at hrow'
      rcases List.mem_append.mp hrow' with hold | hfresh
      · obtain ⟨row, hrow, rfl⟩ := List.mem_map.mp hold
        rcases (hflags row).sets hacked with hbefore | hnamed
        · exact .inr ⟨row, hrow, (hflags row).intentId.symm, hbefore⟩
        · exact .inl ((Act.names_congr (hflags row).intentId (hflags row).agent).mpr hnamed)
      · rw [hnew row' hfresh] at hacked
        cases hacked
  · intro limit pages acts s row hrow hacked hrun hacts hroom
    by_contra hnever
    push Not at hnever
    have hstays : Stays row db := ⟨row, hrow, rfl, rfl, rfl, hacked⟩
    obtain ⟨-, ⟨r, hr, -, hagent, hcursor, hwaits⟩, hwait⟩ :=
      hrun.waiting huuid hdb rfl hstays hacts hnever
    -- the row itself is one of those that wait
    have hself : 0 < waitingAhead s row := by
      refine List.countP_pos_iff.mpr ⟨r, hr, ?_⟩
      rw [ahead, hagent, hcursor, hwaits]
      simp
    omega

/-- Alice's event has a UUID. -/
def aliceParams : OutboundParams :=
  ⟨lit "00000000-0000-4000-8000-000000000001", lit "org-a", lit "oa-1", lit "alice",
    lit "alice@org-a", lit "bob@org-b", lit "org-b", lit "message", [], lit "sig", [1]⟩

/-- The digest of the name of its failure; other names stand for their digests. -/
def aliceUuid5 (name : Str) : Str :=
  if name = lit "atalk-fed-notify:send_failed:00000000-0000-4000-8000-000000000001" then
    lit "003bb724-4311-5bf3-9bdc-5cdf9d717cd1"
  else ofChar 'x' :: name

theorem aliceUuid5_injective : Function.Injective aliceUuid5 := by
  intro a b h
  unfold aliceUuid5 at h
  split_ifs at h with ha hb hb
  · exact ha.trans hb.symm
  · exact absurd (List.cons.inj h).1 (of_decide_eq_true rfl)
  · exact absurd (List.cons.inj h).1 (of_decide_eq_true rfl)
  · exact (List.cons.inj h).2

/-- It fails for good, and she is told. -/
theorem notifications_once_alice : ∃ db, Reachable (notifier aliceUuid5) db ∧
    ∃ row ∈ db.federationNotifications,
      About aliceUuid5 (.sendFailed aliceParams.eventId) row := by
  let fed : Runtime := { fedA with uuid5 := aliceUuid5 }
  let row := outboundRow {} aliceParams (fed.stableIntentId [lit "send_failed", aliceParams.eventId])
    noon
  let queued : Db := { federationOutbound := [row] }
  have hqueue : Notifies aliceUuid5 {} .other queued :=
    @Notifies.enqueue aliceUuid5 {} fed aliceParams noon .queued queued rfl (by decide) rfl
  have hfail : Notifies aliceUuid5 queued .other _ :=
    .outboundFails aliceParams.eventId (lit "http_403") noon
  have hreach : Reachable (notifier aliceUuid5) _ :=
    .step (.step (.init ⟨rfl, rfl, rfl, rfl, rfl⟩) trivial hqueue) trivial hfail
  obtain ⟨told, htold, habout, -⟩ := (notifications_once aliceUuid5_injective hreach).1
    (.sendFailed aliceParams.eventId) ⟨_, List.mem_cons_self .., rfl, rfl⟩
  exact ⟨_, hreach, told, htold, habout⟩

end Federation
end ATalk
