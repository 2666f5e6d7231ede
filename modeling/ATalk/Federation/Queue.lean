import ATalk.Federation.Lifecycle
import Mathlib.Data.List.Sort

/-!
# One attempt for every row of a page

Both queues of the worker are tables of rows that wait for their next attempt. What decides when a
row is sent are four of its columns; one attempt ends the row or makes it wait, and touches no other
row of the table.

* `Task` : the four columns, `duePage` : the page of a cycle in terms of them;
* `Tried` : what one attempt makes of a row;
* `guardedOutbound_tries`, `guardedReceipt_tries` : whatever the peer answers, and if it raises;
* `processOutbound_serves`, `processReceipts_serves` : every row of a page is tried once.
-/

namespace ATalk
namespace Federation

open Text Json Python Calendar ATalk.Core

/-! ## Tasks -/

/-- The columns that decide when a row is sent. -/
structure Task where
  id : ℕ
  status : SendStatus
  attempts : ℕ
  nextRetryAt : Option Time

def outboundTask (row : OutboundRow) : Task := ⟨row.id, row.status, row.attempts, row.nextRetryAt⟩

def receiptTask (row : ReceiptOutRow) : Task :=
  ⟨row.id, row.status, row.attempts, row.nextRetryAt⟩

def outboundTasks (db : Db) : List Task := db.federationOutbound.map outboundTask

def receiptTasks (db : Db) : List Task := db.federationReceiptOut.map receiptTask

def Task.due (t : Task) (now : Time) : Bool := isDue now t.status t.nextRetryAt

def duePage (ts : List Task) (now : Time) (limit : ℕ) : List Task :=
  ((ts.filter (·.due now)).insertionSort (·.id ≤ ·.id)).take limit

/-- A page of rows is a page of their tasks. -/
theorem map_take_due {ρ : Type} (task : ρ → Task) (rows : List ρ) (now : Time) (limit : ℕ) :
    (((rows.filter fun row => (task row).due now).insertionSort
      fun a b => (task a).id ≤ (task b).id).take limit).map task =
        duePage (rows.map task) now limit := by
  rw [duePage, List.filter_map, List.map_take,
    List.map_insertionSort _ (fun a b : Task => a.id ≤ b.id) _ _ fun _ _ _ _ => Iff.rfl]
  rfl

theorem dueOutbound_tasks (db : Db) (now : Time) (limit : ℕ) :
    (dueOutbound db now limit).map outboundTask = duePage (outboundTasks db) now limit :=
  map_take_due outboundTask db.federationOutbound now limit

theorem dueReceipts_tasks (db : Db) (now : Time) (limit : ℕ) :
    (dueReceipts db now limit).map receiptTask = duePage (receiptTasks db) now limit :=
  map_take_due receiptTask db.federationReceiptOut now limit

/-! ## An attempt -/

/-- The row has ended, or waits with one more attempt until a time that is not before `m`. -/
structure Tried (m : Moment) (t t' : Task) : Prop where
  id : t'.id = t.id
  attempts : t'.attempts = t.attempts + 1
  waits : t'.status = .pending →
    ∃ deadline : Instant, t'.nextRetryAt = some (iso deadline) ∧ m.val ≤ deadline.val * 1000000

/-- The task with the same id becomes this one. -/
def replaceTask (t : Task) (ts : List Task) : List Task :=
  ts.map fun t' => if t'.id = t.id then t else t'

/-- An UPDATE that finds one row. -/
theorem map_update {ρ : Type} (task : ρ → Task) {rows : List ρ} {row : ρ} {f : ρ → ρ}
    (P : ρ → Prop) [DecidablePred P] (hids : (rows.map fun r => (task r).id).Nodup)
    (hrow : row ∈ rows) (hP : ∀ r ∈ rows, P r ↔ r = row)
    (hid : (task (f row)).id = (task row).id) :
    (rows.map fun r => if P r then f r else r).map task =
      replaceTask (task (f row)) (rows.map task) := by
  rw [replaceTask, List.map_map, List.map_map]
  refine List.map_congr_left fun r hr => ?_
  show task (if P r then f r else r) = if (task r).id = (task (f row)).id then _ else _
  by_cases hsame : r = row
  · subst hsame
    rw [if_pos ((hP r hr).mpr rfl), if_pos hid.symm]
  · have hne : (task r).id ≠ (task (f row)).id := fun heq =>
      hsame (List.inj_on_of_nodup_map hids hr hrow (heq.trans hid))
    rw [if_neg fun h => hsame ((hP r hr).mp h), if_neg hne]

/-! ## Deadlines -/

/-- A moment after which a second and the longest ordinary backoff still fit. -/
def Early (cfg : WorkerConfig) (m : Moment) : Prop :=
  m.val + 1000000 + cfg.backoffMax < horizon * 1000000

variable {cfg : WorkerConfig} {m : Moment}

theorem roundUp_ge {m' : Moment} (hm : m.val + 1000000 < horizon * 1000000) (h : m.val ≤ m'.val) :
    m.val ≤ (roundUp m').val * 1000000 := by
  have hsecond : (Moment.second m').val = m'.val / 1000000 := rfl
  unfold roundUp
  split_ifs with hwhole
  · rw [hsecond]
    omega
  · cases hnext : later (Moment.second m') 1 with
    | some t =>
      rw [later_eq_some] at hnext
      rw [Option.getD_some, hnext, hsecond]
      omega
    | none =>
      -- the last second of the calendar
      have hlast : ¬ (Moment.second m').val + 1 < horizon := by
        intro hlt
        rw [later, dif_pos hlt] at hnext
        cases hnext
      rw [Option.getD_none]
      omega

theorem after_ge {m' : Moment} {delay : ℕ} (h : after m delay = some m') : m.val ≤ m'.val := by
  unfold after at h
  split_ifs at h
  cases h
  exact Nat.le_add_right _ _

/-- No deadline is early. -/
theorem backoff_ge {attempts jitter : ℕ} {retryAfter : Option ℕ} {t : Time}
    (hm : m.val + 1000000 < horizon * 1000000) (h : backoff cfg attempts retryAfter jitter m = some t) :
    ∃ deadline : Instant, t = iso deadline ∧ m.val ≤ deadline.val * 1000000 := by
  cases retryAfter with
  | some delay =>
    cases h
    refine ⟨_, rfl, roundUp_ge hm ?_⟩
    cases hafter : after m delay with
    | some m' => exact after_ge hafter
    | none => exact Nat.le_of_lt_succ m.isLt
  | none =>
    obtain ⟨m', hafter, rfl⟩ := Option.map_eq_some_iff.mp h
    exact ⟨_, rfl, roundUp_ge hm (after_ge hafter)⟩

/-- There is always a deadline. -/
theorem backoff_some (hm : Early cfg m) (attempts : ℕ) (retryAfter : Option ℕ) (jitter : ℕ) :
    ∃ t, backoff cfg attempts retryAfter jitter m = some t := by
  cases retryAfter with
  | some delay => exact ⟨_, rfl⟩
  | none =>
    have hroom : m.val + min (cfg.backoffBase * 2 ^ (min (max attempts 1) 10 - 1) + jitter)
        cfg.backoffMax < horizon * 1000000 := by
      unfold Early at hm
      omega
    refine ⟨iso (roundUp ⟨_, hroom⟩), ?_⟩
    simp only [backoff, after, dif_pos hroom]
    rfl

/-! ## Outbound rows -/

theorem Tried.mono {t t' : Task} {m' : Moment} (h : Tried m' t t') (hm : m ≤ m') : Tried m t t' := by
  refine ⟨h.id, h.attempts, fun hpending => ?_⟩
  obtain ⟨deadline, ht, hdeadline⟩ := h.waits hpending
  exact ⟨deadline, ht, Nat.le_trans hm hdeadline⟩

/-- The clock while a row is handled: it does not go back, and the end of the calendar is far. -/
structure Turn.Timely (cfg : WorkerConfig) (turn : Turn) : Prop where
  order : turn.send.now ≤ turn.guard.now
  early : Early cfg turn.send.now
  guard : Early cfg turn.guard.now

variable {db db' : Db} {row : OutboundRow} {turn : Turn} {fed : Runtime}

/-- A table whose ids and events are unique. -/
structure OutboundKeys (db : Db) : Prop where
  ids : (db.federationOutbound.map (·.id)).Nodup
  eventIds : (db.federationOutbound.map (·.eventId)).Nodup

theorem OutboundKeys.congr (h : OutboundKeys db)
    (hsame : db'.federationOutbound = db.federationOutbound) : OutboundKeys db' :=
  ⟨by rw [hsame]; exact h.ids, by rw [hsame]; exact h.eventIds⟩

/-- The UPDATE of the pending row of an event finds the row. -/
theorem updatePending_tasks (hkeys : OutboundKeys db) (hrow : row ∈ db.federationOutbound)
    (hpending : row.status = .pending) {f : OutboundRow → OutboundRow} (hid : (f row).id = row.id) :
    outboundTasks (updatePending db row.eventId f) =
      replaceTask (outboundTask (f row)) (outboundTasks db) := by
  refine map_update outboundTask (fun r => r.eventId = row.eventId ∧ r.status = .pending) hkeys.ids
    hrow (fun r hr => ⟨fun h => ?_, fun h => ?_⟩) hid
  · exact List.inj_on_of_nodup_map hkeys.eventIds hr hrow h.1
  · rw [h]
    exact ⟨rfl, hpending⟩

theorem markOutboundRetry_tasks (hkeys : OutboundKeys db) (hrow : row ∈ db.federationOutbound)
    (hpending : row.status = .pending) (deadline : Time) (error : Str) (now : Time) :
    outboundTasks (markOutboundRetry db row.eventId (row.attempts + 1) deadline error now) =
      replaceTask ⟨row.id, .pending, row.attempts + 1, some deadline⟩ (outboundTasks db) := by
  rw [← hpending]
  exact updatePending_tasks hkeys hrow hpending rfl

theorem markOutboundSent_tasks (hkeys : OutboundKeys db) (hrow : row ∈ db.federationOutbound)
    (hpending : row.status = .pending) (now : Time) :
    outboundTasks (markOutboundSent db row.eventId now) =
      replaceTask ⟨row.id, .sent, row.attempts + 1, row.nextRetryAt⟩ (outboundTasks db) :=
  updatePending_tasks hkeys hrow hpending rfl

theorem failOutboundPermanent_tasks (hkeys : OutboundKeys db)
    (hrow : row ∈ db.federationOutbound) (hpending : row.status = .pending) (error : Str)
    (now : Time) : outboundTasks (failOutboundPermanent db row.eventId error now) =
      replaceTask ⟨row.id, .failedPermanent, row.attempts + 1, row.nextRetryAt⟩
        (outboundTasks db) := by
  have hfind : db.federationOutbound.find? (fun r => r.eventId = row.eventId && r.status = .pending) =
      some row := by
    cases hfound : db.federationOutbound.find?
        (fun r => r.eventId = row.eventId && r.status = .pending) with
    | none =>
      have hmiss := List.find?_eq_none.mp hfound row hrow
      simp [hpending] at hmiss
    | some found =>
      have hkey := List.find?_some hfound
      rw [Bool.and_eq_true, decide_eq_true_eq, decide_eq_true_eq] at hkey
      rw [List.inj_on_of_nodup_map hkeys.eventIds (List.mem_of_find?_eq_some hfound) hrow hkey.1]
  unfold failOutboundPermanent
  rw [hfind]
  simp only [outboundTasks, insertNotification_outbound]
  exact map_update outboundTask (fun r => r.id = row.id) hkeys.ids hrow
    (fun r hr => ⟨fun h => List.inj_on_of_nodup_map hkeys.ids hr hrow h, fun h => by rw [h]⟩) rfl

theorem tried_retry {t : Task} {attempts jitter : ℕ} {retryAfter : Option ℕ} {deadline : Time}
    (hm : Early cfg m) (h : backoff cfg attempts retryAfter jitter m = some deadline) :
    Tried m t ⟨t.id, .pending, t.attempts + 1, some deadline⟩ := by
  have hroom : m.val + 1000000 < horizon * 1000000 := by
    unfold Early at hm
    omega
  obtain ⟨d, rfl, hd⟩ := backoff_ge hroom h
  exact ⟨rfl, rfl, fun _ => ⟨d, rfl, hd⟩⟩

theorem tried_ended {t : Task} {status : SendStatus} {nextRetryAt : Option Time}
    (h : status ≠ .pending) : Tried m t ⟨t.id, status, t.attempts + 1, nextRetryAt⟩ :=
  ⟨rfl, rfl, fun hpending => absurd hpending h⟩

/-- Every outcome is written down. -/
theorem applyOutbound_tries (hkeys : OutboundKeys db) (hrow : row ∈ db.federationOutbound)
    (hpending : row.status = .pending) (outcome : SendOutcome) {draw : Draw}
    (hm : Early cfg draw.now) : ∃ db' t', applyOutbound cfg db row outcome draw = .ok db' ∧
      Tried draw.now (outboundTask row) t' ∧
      outboundTasks db' = replaceTask t' (outboundTasks db) := by
  cases outcome with
  | sent =>
    have hended : SendStatus.sent ≠ .pending := by decide
    exact ⟨_, _, rfl, tried_ended hended, markOutboundSent_tasks hkeys hrow hpending _⟩
  | permanent error =>
    have hended : SendStatus.failedPermanent ≠ .pending := by decide
    exact ⟨_, _, rfl, tried_ended hended, failOutboundPermanent_tasks hkeys hrow hpending _ _⟩
  | retry error retryAfter =>
    obtain ⟨deadline, hdeadline⟩ := backoff_some hm (row.attempts + 1) retryAfter draw.jitter
    refine ⟨_, _, by rw [applyOutbound, hdeadline], tried_retry hm hdeadline, ?_⟩
    exact markOutboundRetry_tasks hkeys hrow hpending _ _ _

/-- A row is tried whatever the peer answers, and if it raises. -/
theorem guardedOutbound_tries (hkeys : OutboundKeys db) (hrow : row ∈ db.federationOutbound)
    (hpending : row.status = .pending) (hturn : turn.Timely cfg) (fed : Runtime) :
    ∃ t', Tried turn.send.now (outboundTask row) t' ∧
      outboundTasks (guardedOutbound fed cfg db row turn) = replaceTask t' (outboundTasks db) := by
  have happly : ∀ outcome, ∃ db' t', applyOutbound cfg db row outcome turn.send = .ok db' ∧
      Tried turn.send.now (outboundTask row) t' ∧
      outboundTasks db' = replaceTask t' (outboundTasks db) :=
    fun outcome => applyOutbound_tries hkeys hrow hpending outcome hturn.early
  unfold guardedOutbound sendOutbound
  cases fed.registry.receiptsPeer row.targetFamily with
  | none =>
    obtain ⟨db', t', hdb, htried, htasks⟩ := happly (.retry (lit "unregistered_family") none)
    simp only [hdb]
    exact ⟨t', htried, htasks⟩
  | some peer =>
    cases turn.answer with
    | ok outcome =>
      obtain ⟨db', t', hdb, htried, htasks⟩ := happly outcome
      simp only [hdb]
      exact ⟨t', htried, htasks⟩
    | error cls =>
      obtain ⟨deadline, hdeadline⟩ :=
        backoff_some hturn.guard (row.attempts + 1) none turn.guard.jitter
      simp only [raisedOutbound, hdeadline]
      exact ⟨_, (tried_retry hturn.guard hdeadline).mono hturn.order,
        markOutboundRetry_tasks hkeys hrow hpending _ _ _⟩

/-! ## Receipts -/

/-- A table whose ids and receipts are unique. -/
structure ReceiptKeys (db : Db) : Prop where
  ids : (db.federationReceiptOut.map (·.id)).Nodup
  receipts : ∀ r ∈ db.federationReceiptOut, ∀ r' ∈ db.federationReceiptOut, SameReceipt r r' → r' = r

/-- The receipt is there, with the task that it had when it was read. -/
def Stands (db : Db) (row : ReceiptOutRow) : Prop :=
  ∃ r ∈ db.federationReceiptOut, SameReceipt row r ∧ receiptTask r = receiptTask row

variable {receipt : ReceiptOutRow}

theorem SameReceipt.refl (r : ReceiptOutRow) : SameReceipt r r := ⟨rfl, rfl, rfl⟩

theorem SameReceipt.trans {r s t : ReceiptOutRow} (h : SameReceipt r s) (h' : SameReceipt s t) :
    SameReceipt r t := ⟨h'.1.trans h.1, h'.2.1.trans h.2.1, h'.2.2.trans h.2.2⟩

theorem SameReceipt.symm {r s : ReceiptOutRow} (h : SameReceipt r s) : SameReceipt s r :=
  ⟨h.1.symm, h.2.1.symm, h.2.2.symm⟩

theorem ReceiptKeys.congr (h : ReceiptKeys db)
    (hsame : db'.federationReceiptOut = db.federationReceiptOut) : ReceiptKeys db' :=
  ⟨by rw [hsame]; exact h.ids, by rw [hsame]; exact h.receipts⟩

/-- The UPDATE of a pending receipt finds its row. -/
theorem updateReceipt_tasks (hkeys : ReceiptKeys db) {r : ReceiptOutRow}
    (hr : r ∈ db.federationReceiptOut) (hsame : SameReceipt receipt r)
    (hpending : r.status = .pending) {f : ReceiptOutRow → ReceiptOutRow} (hid : (f r).id = r.id) :
    receiptTasks (updateReceipt db receipt f) =
      replaceTask (receiptTask (f r)) (receiptTasks db) := by
  refine map_update receiptTask (fun r => SameReceipt receipt r ∧ r.status = .pending) hkeys.ids
    hr (fun r' hr' => ⟨fun h => ?_, fun h => ?_⟩) hid
  · exact hkeys.receipts r hr r' hr' (hsame.symm.trans h.1)
  · rw [h]
    exact ⟨hsame, hpending⟩

theorem markReceiptSent_tasks (hkeys : ReceiptKeys db) (hstands : Stands db receipt)
    (hpending : receipt.status = .pending) (now : Time) :
    receiptTasks (markReceiptSent db receipt now) =
      replaceTask ⟨receipt.id, .sent, receipt.attempts + 1, receipt.nextRetryAt⟩
        (receiptTasks db) := by
  obtain ⟨r, hr, hsame, htask⟩ := hstands
  obtain ⟨hid, hstatus, hattempts, hnext⟩ := Task.mk.inj htask
  rw [← hid, ← hattempts, ← hnext]
  exact updateReceipt_tasks hkeys hr hsame (hstatus.trans hpending) rfl

theorem markReceiptRetry_tasks (hkeys : ReceiptKeys db) (hstands : Stands db receipt)
    (hpending : receipt.status = .pending) (deadline : Time) (error : Str) (now : Time) :
    receiptTasks (markReceiptRetry db receipt (receipt.attempts + 1) deadline error now) =
      replaceTask ⟨receipt.id, .pending, receipt.attempts + 1, some deadline⟩ (receiptTasks db) := by
  obtain ⟨r, hr, hsame, htask⟩ := hstands
  obtain ⟨hid, hstatus, -, -⟩ := Task.mk.inj htask
  rw [hpending] at hstatus
  rw [← hid, ← hstatus]
  exact updateReceipt_tasks hkeys hr hsame hstatus rfl

@[simp] theorem insertNotification_receipts (db : Db) (intentId : Str) (kind : String)
    (agent eventId : Option Str) (detail : List (Str × Str)) (now : Time) :
    (insertNotification db intentId kind agent eventId detail now).federationReceiptOut =
      db.federationReceiptOut := by
  unfold insertNotification
  split_ifs <;> rfl

theorem failReceiptPermanent_tasks (hkeys : ReceiptKeys db) (hstands : Stands db receipt)
    (hpending : receipt.status = .pending) (fed : Runtime) (error : Str) (now : Time) :
    receiptTasks (failReceiptPermanent fed db receipt error now) =
      replaceTask ⟨receipt.id, .failedPermanent, receipt.attempts + 1, receipt.nextRetryAt⟩
        (receiptTasks db) := by
  obtain ⟨r, hr, hsame, htask⟩ := hstands
  obtain ⟨hid, hstatus, hattempts, hnext⟩ := Task.mk.inj htask
  have hfind : db.federationReceiptOut.find?
      (fun r => SameReceipt receipt r ∧ r.status = .pending) = some r := by
    cases hfound : db.federationReceiptOut.find?
        (fun r => SameReceipt receipt r ∧ r.status = .pending) with
    | none =>
      have hmiss := List.find?_eq_none.mp hfound r hr
      exact absurd (decide_eq_true ⟨hsame, hstatus.trans hpending⟩) hmiss
    | some found =>
      have hkey := List.find?_some hfound
      rw [decide_eq_true_eq] at hkey
      rw [hkeys.receipts r hr found (List.mem_of_find?_eq_some hfound) (hsame.symm.trans hkey.1)]
  unfold failReceiptPermanent
  rw [hfind, ← hid, ← hattempts, ← hnext]
  simp only [receiptTasks, insertNotification_receipts]
  exact map_update receiptTask (fun r' => r'.id = r.id) hkeys.ids hr
    (fun r' hr' => ⟨fun h => List.inj_on_of_nodup_map hkeys.ids hr' hr h, fun h => by rw [h]⟩) rfl

theorem applyReceipt_tries (hkeys : ReceiptKeys db) (hstands : Stands db receipt)
    (hpending : receipt.status = .pending) (fed : Runtime) (outcome : SendOutcome) {draw : Draw}
    (hm : Early cfg draw.now) : ∃ db' t', applyReceipt fed cfg db receipt outcome draw = .ok db' ∧
      Tried draw.now (receiptTask receipt) t' ∧
      receiptTasks db' = replaceTask t' (receiptTasks db) := by
  cases outcome with
  | sent =>
    have hended : SendStatus.sent ≠ .pending := by decide
    exact ⟨_, _, rfl, tried_ended hended, markReceiptSent_tasks hkeys hstands hpending _⟩
  | permanent error =>
    have hended : SendStatus.failedPermanent ≠ .pending := by decide
    exact ⟨_, _, rfl, tried_ended hended, failReceiptPermanent_tasks hkeys hstands hpending _ _ _⟩
  | retry error retryAfter =>
    obtain ⟨deadline, hdeadline⟩ := backoff_some hm (receipt.attempts + 1) retryAfter draw.jitter
    refine ⟨_, _, by rw [applyReceipt, hdeadline], tried_retry hm hdeadline, ?_⟩
    exact markReceiptRetry_tasks hkeys hstands hpending _ _ _

/-- Signing changes no task, and what is read back is the receipt. -/
theorem materializeReceipt_stands (hkeys : ReceiptKeys db) (hstands : Stands db receipt)
    (signed : List (Str × Json)) (sig : Str) (now : Time) :
    let db' := materializeReceipt db receipt signed sig now
    receiptTasks db' = receiptTasks db ∧ ReceiptKeys db' ∧ Stands db' receipt ∧
      SameReceipt receipt (freshReceipt db' receipt) ∧
      receiptTask (freshReceipt db' receipt) = receiptTask receipt := by
  intro db'
  obtain ⟨f, hrows, hf⟩ : ∃ f : ReceiptOutRow → ReceiptOutRow,
      db'.federationReceiptOut = db.federationReceiptOut.map f ∧
      ∀ r, SameReceipt r (f r) ∧ receiptTask (f r) = receiptTask r := by
    refine ⟨_, rfl, fun r => ?_⟩
    show SameReceipt r (if _ then _ else _) ∧ receiptTask (if _ then _ else _) = receiptTask r
    split_ifs
    · dsimp only
      split <;> exact ⟨⟨rfl, rfl, rfl⟩, rfl⟩
    · exact ⟨.refl r, rfl⟩
  have htasks : receiptTasks db' = receiptTasks db := by
    rw [receiptTasks, hrows, List.map_map]
    exact List.map_congr_left fun r _ => (hf r).2
  have hids : db'.federationReceiptOut.map (·.id) = db.federationReceiptOut.map (·.id) := by
    rw [hrows, List.map_map]
    exact List.map_congr_left fun r _ => congrArg Task.id (hf r).2
  have hkeys' : ReceiptKeys db' := by
    refine ⟨hids ▸ hkeys.ids, ?_⟩
    rw [hrows]
    intro r hr r' hr' hsame
    obtain ⟨old, hold, rfl⟩ := List.mem_map.mp hr
    obtain ⟨old', hold', rfl⟩ := List.mem_map.mp hr'
    rw [hkeys.receipts old hold old' hold' (((hf old).1.trans hsame).trans (hf old').1.symm)]
  obtain ⟨r, hr, hsame, htask⟩ := hstands
  have hmem : f r ∈ db'.federationReceiptOut := hrows ▸ List.mem_map_of_mem hr
  have hsame' : SameReceipt receipt (f r) := hsame.trans (hf r).1
  have hfresh : freshReceipt db' receipt = f r := by
    unfold freshReceipt
    cases hfound : db'.federationReceiptOut.find? fun r => SameReceipt receipt r with
    | none => exact absurd (decide_eq_true hsame') (List.find?_eq_none.mp hfound (f r) hmem)
    | some found =>
      have hkey := List.find?_some hfound
      rw [decide_eq_true_eq] at hkey
      exact hkeys'.receipts (f r) hmem found (List.mem_of_find?_eq_some hfound)
        (hsame'.symm.trans hkey)
  rw [hfresh]
  exact ⟨htasks, hkeys', ⟨f r, hmem, hsame', (hf r).2.trans htask⟩, hsame', (hf r).2.trans htask⟩

theorem Stands.of_same {r : ReceiptOutRow} (h : Stands db receipt) (hsame : SameReceipt receipt r)
    (htask : receiptTask r = receiptTask receipt) : Stands db r := by
  obtain ⟨s, hs, hsame', htask'⟩ := h
  exact ⟨s, hs, hsame.symm.trans hsame', htask'.trans htask.symm⟩

/-- A signed receipt is tried, or its handling raises and writes nothing. -/
theorem sendSigned_tries (hkeys : ReceiptKeys db) (hstands : Stands db receipt)
    (hpending : receipt.status = .pending) (hturn : turn.Timely cfg) (fed : Runtime) :
    (∃ cls, sendSigned fed cfg db receipt turn = .error cls) ∨
      ∃ db' t', sendSigned fed cfg db receipt turn = .ok db' ∧
        Tried turn.send.now (receiptTask receipt) t' ∧
        receiptTasks db' = replaceTask t' (receiptTasks db) := by
  unfold sendSigned
  cases fed.registry.receiptsPeer receipt.origin with
  | none => exact .inr (applyReceipt_tries hkeys hstands hpending fed _ hturn.early)
  | some peer =>
    cases signedBody receipt with
    | error cls => exact .inl ⟨cls, rfl⟩
    | ok body =>
      cases turn.answer with
      | error cls => exact .inl ⟨cls, rfl⟩
      | ok outcome => exact .inr (applyReceipt_tries hkeys hstands hpending fed outcome hturn.early)

/-- What the handling of a receipt has written when it raises has changed no task. -/
theorem sendReceipt_tries (hkeys : ReceiptKeys db) (hstands : Stands db receipt)
    (hpending : receipt.status = .pending) (hturn : turn.Timely cfg) (fed : Runtime) :
    ∃ db₁, receiptTasks db₁ = receiptTasks db ∧ ReceiptKeys db₁ ∧ Stands db₁ receipt ∧
      ((∃ cls, sendReceipt fed cfg db receipt turn = (db₁, .error cls)) ∨
        ∃ db₂ t', sendReceipt fed cfg db receipt turn = (db₂, .ok ()) ∧
          Tried turn.send.now (receiptTask receipt) t' ∧
          receiptTasks db₂ = replaceTask t' (receiptTasks db₁)) := by
  unfold sendReceipt
  cases hsigned : receipt.signedJson with
  | some signed =>
    refine ⟨db, rfl, hkeys, hstands, ?_⟩
    rcases sendSigned_tries hkeys hstands hpending hturn fed with
      ⟨cls, hcls⟩ | ⟨db', t', hok, htried, htasks⟩
    · simp only [hcls]
      exact .inl ⟨cls, rfl⟩
    · simp only [hok]
      exact .inr ⟨db', t', rfl, htried, htasks⟩
  | none =>
    unfold signReceipt
    cases composeReceipt fed.crypto fed.identity receipt.eventId receipt.origin
        receipt.originEventSigHash receipt.agent (AckType.text receipt.ackType) receipt.atTime with
    | error e => exact ⟨db, rfl, hkeys, hstands, .inl ⟨_, rfl⟩⟩
    | ok envelope =>
      obtain ⟨htasks, hkeys', hstands', hsame, htask⟩ := materializeReceipt_stands hkeys hstands
        (sorted envelope) ((strMember (lit "sig") envelope).getD []) (nowIso turn.made)
      refine ⟨_, htasks, hkeys', hstands', ?_⟩
      have hpending' := (congrArg Task.status htask).trans hpending
      have hstands'' := hstands'.of_same hsame htask
      rcases sendSigned_tries hkeys' hstands'' hpending' hturn fed with
        ⟨cls, hcls⟩ | ⟨db', t', hok, htried, htasks'⟩
      · simp only [hcls]
        exact .inl ⟨cls, rfl⟩
      · simp only [hok]
        rw [htask] at htried
        exact .inr ⟨db', t', rfl, htried, htasks'⟩

/-- A receipt is tried whatever the peer answers, and if it raises. -/
theorem guardedReceipt_tries (hkeys : ReceiptKeys db) (hstands : Stands db receipt)
    (hpending : receipt.status = .pending) (hturn : turn.Timely cfg) (fed : Runtime) :
    ∃ t', Tried turn.send.now (receiptTask receipt) t' ∧
      receiptTasks (guardedReceipt fed cfg db receipt turn) = replaceTask t' (receiptTasks db) := by
  obtain ⟨db₁, htasks₁, hkeys₁, hstands₁, ⟨cls, hcls⟩ | ⟨db₂, t', hok, htried, htasks⟩⟩ :=
    sendReceipt_tries hkeys hstands hpending hturn fed
  · obtain ⟨deadline, hdeadline⟩ :=
      backoff_some hturn.guard (receipt.attempts + 1) none turn.guard.jitter
    unfold guardedReceipt raisedReceipt
    simp only [hcls, hdeadline]
    rw [← htasks₁]
    exact ⟨_, (tried_retry hturn.guard hdeadline).mono hturn.order,
      markReceiptRetry_tasks hkeys₁ hstands₁ hpending _ _ _⟩
  · unfold guardedReceipt
    simp only [hok]
    rw [← htasks₁]
    exact ⟨t', htried, htasks⟩

/-! ## A page -/

/-- Every task of the page is tried, and no other changes. -/
def Served (m : ℕ → Moment) (page ts ts' : List Task) : Prop :=
  ∃ g : ℕ → Task, ts' = ts.map (fun t => if t.id ∈ page.map (·.id) then g t.id else t) ∧
    ∀ t ∈ page, Tried (m t.id) t (g t.id)

theorem Served.nil (m : ℕ → Moment) (ts : List Task) : Served m [] ts ts :=
  ⟨fun _ => ⟨0, .pending, 0, none⟩, by simp, nofun⟩

theorem Served.cons {m : ℕ → Moment} {t t' : Task} {page ts ts' : List Task}
    (htried : Tried (m t.id) t t') (hnew : t.id ∉ page.map (·.id))
    (h : Served m page (replaceTask t' ts) ts') : Served m (t :: page) ts ts' := by
  obtain ⟨g, rfl, hg⟩ := h
  refine ⟨fun i => if i = t.id then t' else g i, ?_, fun s hs => ?_⟩
  · rw [replaceTask, List.map_map]
    refine List.map_congr_left fun s _ => ?_
    show (fun t => if t.id ∈ page.map (·.id) then g t.id else t) (if s.id = t'.id then t' else s) = _
    rw [htried.id, List.map_cons]
    by_cases hid : s.id = t.id
    · -- the task that was tried first is not on the rest of the page
      have hfirst : s.id ∈ t.id :: page.map (·.id) := hid ▸ List.mem_cons_self ..
      have hlater : t'.id ∉ page.map (·.id) := by
        rw [htried.id]
        exact hnew
      rw [if_pos hid, if_pos hfirst]
      simp only [if_neg hlater, if_pos hid]
    · have hmem : s.id ∈ t.id :: page.map (·.id) ↔ s.id ∈ page.map (·.id) :=
        ⟨fun h => (List.mem_cons.mp h).resolve_left hid, List.mem_cons_of_mem _⟩
      simp only [hid, hmem, if_false]
  · rcases List.mem_cons.mp hs with rfl | hs
    · simp only [if_true]
      exact htried
    · have hne : s.id ≠ t.id := fun heq => hnew (heq ▸ List.mem_map_of_mem hs)
      simp only [hne, if_false]
      exact hg s hs

theorem guardedOutbound_settles (hids : (db.federationOutbound.map (·.id)).Nodup) (fed : Runtime)
    (cfg : WorkerConfig) (row : OutboundRow) (turn : Turn) :
    Settles row.eventId db (guardedOutbound fed cfg db row turn) := by
  unfold guardedOutbound
  split
  next db' hsend =>
    unfold sendOutbound at hsend
    split at hsend
    · exact applyOutbound_settles hids hsend
    · split at hsend
      · cases hsend
      · exact applyOutbound_settles hids hsend
  · exact raisedOutbound_settles ..

theorem OutboundKeys.settle {eventId : Str} (h : OutboundKeys db) (hdb : Settles eventId db db') :
    OutboundKeys db' :=
  ⟨hdb.nodup (·.id) (fun _ _ hsame => hsame.id) h.ids,
    hdb.nodup (·.eventId) (fun _ _ hsame => hsame.eventId) h.eventIds⟩

/-- Every outbound row of a page is tried once. -/
theorem processOutbound_serves {turn : ℕ → Turn} (hturn : ∀ i, (turn i).Timely cfg) (fed : Runtime)
    {rows : List OutboundRow} (hkeys : OutboundKeys db) (hrows : Holding db rows)
    (hids : (rows.map (·.id)).Nodup) :
    OutboundKeys (processOutbound fed cfg turn rows db) ∧
      Served (fun i => (turn i).send.now) (rows.map outboundTask) (outboundTasks db)
        (outboundTasks (processOutbound fed cfg turn rows db)) := by
  induction rows generalizing db with
  | nil => exact ⟨hkeys, .nil _ _⟩
  | cons row rows ih =>
    rw [List.map_cons, List.nodup_cons] at hids
    obtain ⟨hrow, hpending⟩ := hrows.pending row (List.mem_cons_self ..)
    have hsettles := guardedOutbound_settles hkeys.ids fed cfg row (turn row.id)
    obtain ⟨t', htried, htasks⟩ :=
      guardedOutbound_tries hkeys hrow hpending (hturn row.id) fed
    obtain ⟨hkeys', hserved⟩ := ih (hkeys.settle hsettles) (hsettles.holding hrows) hids.2
    rw [htasks] at hserved
    refine ⟨hkeys', .cons htried ?_ hserved⟩
    rw [List.map_map]
    exact hids.1

/-- The receipts are the same, though not what has become of them. -/
def KeepsReceipts (db db' : Db) : Prop :=
  ∃ f : ReceiptOutRow → ReceiptOutRow,
    db'.federationReceiptOut = db.federationReceiptOut.map f ∧ ∀ r, SameReceipt r (f r)

theorem KeepsReceipts.refl (db : Db) : KeepsReceipts db db :=
  ⟨fun r => r, (List.map_id _).symm, .refl⟩

theorem KeepsReceipts.trans {db₁ db₂ db₃ : Db} (h : KeepsReceipts db₁ db₂)
    (h' : KeepsReceipts db₂ db₃) : KeepsReceipts db₁ db₃ := by
  obtain ⟨f, hf, hsame⟩ := h
  obtain ⟨g, hg, hsame'⟩ := h'
  exact ⟨g ∘ f, by rw [hg, hf, List.map_map], fun r => (hsame r).trans (hsame' (f r))⟩

theorem updateReceipt_keeps (db : Db) (row : ReceiptOutRow) {f : ReceiptOutRow → ReceiptOutRow}
    (hf : ∀ r, SameReceipt r (f r)) : KeepsReceipts db (updateReceipt db row f) := by
  refine ⟨_, rfl, fun r => ?_⟩
  split_ifs
  · exact hf r
  · exact .refl r

theorem failReceiptPermanent_keeps (fed : Runtime) (db : Db) (row : ReceiptOutRow) (error : Str)
    (now : Time) : KeepsReceipts db (failReceiptPermanent fed db row error now) := by
  unfold failReceiptPermanent
  split
  · exact .refl db
  · refine ⟨_, insertNotification_receipts .., fun r => ?_⟩
    split_ifs
    · exact ⟨rfl, rfl, rfl⟩
    · exact .refl r

theorem applyReceipt_keeps {outcome : SendOutcome} {draw : Draw}
    (h : applyReceipt fed cfg db receipt outcome draw = .ok db') : KeepsReceipts db db' := by
  cases outcome with
  | sent =>
    cases h
    exact updateReceipt_keeps _ _ fun _ => ⟨rfl, rfl, rfl⟩
  | permanent error =>
    cases h
    exact failReceiptPermanent_keeps ..
  | retry error retryAfter =>
    simp only [applyReceipt] at h
    split at h
    · cases h
    · cases h
      exact updateReceipt_keeps _ _ fun _ => ⟨rfl, rfl, rfl⟩

theorem sendSigned_keeps (h : sendSigned fed cfg db receipt turn = .ok db') :
    KeepsReceipts db db' := by
  unfold sendSigned at h
  split at h
  · exact applyReceipt_keeps h
  · split at h
    · cases h
    · split at h
      · cases h
      · exact applyReceipt_keeps h

theorem signReceipt_keeps {now : Time} (h : signReceipt fed db receipt now = .ok db') :
    KeepsReceipts db db' := by
  unfold signReceipt at h
  split at h
  · cases h
  · cases h
    exact updateReceipt_keeps _ _ fun r => by split <;> exact ⟨rfl, rfl, rfl⟩

theorem sendReceipt_keeps (fed : Runtime) (cfg : WorkerConfig) (db : Db) (receipt : ReceiptOutRow)
    (turn : Turn) : KeepsReceipts db (sendReceipt fed cfg db receipt turn).1 := by
  rcases sendReceipt_cases fed cfg db receipt turn with ⟨cls, -, -, hsend⟩ | ⟨d, r, hready, hsend⟩
  · rw [hsend]
    exact .refl db
  · have hd : KeepsReceipts db d := by
      rcases hready with ⟨-, rfl, -⟩ | ⟨-, hsign, -⟩
      · exact .refl d
      · exact signReceipt_keeps hsign
    rcases hsend with ⟨cls, -, hsend⟩ | ⟨d', hsigned, hsend⟩
    · rw [hsend]
      exact hd
    · rw [hsend]
      exact hd.trans (sendSigned_keeps hsigned)

theorem guardedReceipt_keeps (fed : Runtime) (cfg : WorkerConfig) (db : Db)
    (receipt : ReceiptOutRow) (turn : Turn) :
    KeepsReceipts db (guardedReceipt fed cfg db receipt turn) := by
  have hsent := sendReceipt_keeps fed cfg db receipt turn
  unfold guardedReceipt
  split
  next d _ heq =>
    rw [heq] at hsent
    exact hsent
  next d cls heq =>
    rw [heq] at hsent
    unfold raisedReceipt
    split
    · exact hsent
    · exact hsent.trans (updateReceipt_keeps _ _ fun _ => ⟨rfl, rfl, rfl⟩)

/-- The receipts of a page that follow stand as they were read. -/
theorem Stands.replace {t' : Task} {r : ReceiptOutRow} (hdb : KeepsReceipts db db')
    (htasks : receiptTasks db' = replaceTask t' (receiptTasks db)) (h : Stands db r)
    (hne : r.id ≠ t'.id) : Stands db' r := by
  obtain ⟨f, hrows, hsame⟩ := hdb
  obtain ⟨s, hs, hkey, htask⟩ := h
  have hpoint : receiptTask (f s) =
      if (receiptTask s).id = t'.id then t' else receiptTask s := by
    rw [receiptTasks, hrows, replaceTask, receiptTasks, List.map_map, List.map_map] at htasks
    exact List.map_inj_left.mp htasks s hs
  have hother : ¬ (receiptTask r).id = t'.id := hne
  rw [htask, if_neg hother] at hpoint
  exact ⟨f s, hrows ▸ List.mem_map_of_mem hs, hkey.trans (hsame s), hpoint⟩

theorem ReceiptKeys.keep {t' : Task} (h : ReceiptKeys db) (hdb : KeepsReceipts db db')
    (htasks : receiptTasks db' = replaceTask t' (receiptTasks db)) : ReceiptKeys db' := by
  have hids : db'.federationReceiptOut.map (·.id) = db.federationReceiptOut.map (·.id) := by
    have hmap := congrArg (List.map Task.id) htasks
    rw [receiptTasks, replaceTask, receiptTasks, List.map_map, List.map_map, List.map_map] at hmap
    refine hmap.trans (List.map_congr_left fun r _ => ?_)
    show Task.id (if (receiptTask r).id = t'.id then t' else receiptTask r) = r.id
    split_ifs with heq
    · exact heq.symm
    · rfl
  refine ⟨hids ▸ h.ids, ?_⟩
  obtain ⟨f, hrows, hsame⟩ := hdb
  rw [hrows]
  intro r hr r' hr' hkey
  obtain ⟨old, hold, rfl⟩ := List.mem_map.mp hr
  obtain ⟨old', hold', rfl⟩ := List.mem_map.mp hr'
  rw [h.receipts old hold old' hold' (((hsame old).trans hkey).trans (hsame old').symm)]

/-- Every receipt of a page is tried once. -/
theorem processReceipts_serves {turn : ℕ → Turn} (hturn : ∀ i, (turn i).Timely cfg) (fed : Runtime)
    {rows : List ReceiptOutRow} (hkeys : ReceiptKeys db)
    (hrows : ∀ row ∈ rows, Stands db row ∧ row.status = .pending)
    (hids : (rows.map (·.id)).Nodup) :
    ReceiptKeys (processReceipts fed cfg turn rows db) ∧
      Served (fun i => (turn i).send.now) (rows.map receiptTask) (receiptTasks db)
        (receiptTasks (processReceipts fed cfg turn rows db)) := by
  induction rows generalizing db with
  | nil => exact ⟨hkeys, .nil _ _⟩
  | cons row rows ih =>
    rw [List.map_cons, List.nodup_cons] at hids
    obtain ⟨hstands, hpending⟩ := hrows row (List.mem_cons_self ..)
    have hkeeps := guardedReceipt_keeps fed cfg db row (turn row.id)
    obtain ⟨t', htried, htasks⟩ :=
      guardedReceipt_tries hkeys hstands hpending (hturn row.id) fed
    have hrest : ∀ r ∈ rows, Stands (guardedReceipt fed cfg db row (turn row.id)) r ∧
        r.status = .pending := by
      intro r hr
      obtain ⟨hstands', hpending'⟩ := hrows r (List.mem_cons_of_mem _ hr)
      refine ⟨hstands'.replace hkeeps htasks fun heq => hids.1 ?_, hpending'⟩
      rw [htried.id] at heq
      exact List.mem_map.mpr ⟨r, hr, heq⟩
    obtain ⟨hkeys', hserved⟩ := ih (hkeys.keep hkeeps htasks) hrest hids.2
    rw [htasks] at hserved
    refine ⟨hkeys', .cons htried ?_ hserved⟩
    rw [List.map_map]
    exact hids.1

end Federation
end ATalk
