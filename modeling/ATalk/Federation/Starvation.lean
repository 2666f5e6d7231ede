import ATalk.Federation.Queue
import ATalk.Lib.Paging

/-!
# Mail of one peer behind that of another

A cycle takes the first twenty due rows in the order of their ids. A row whose peer asks for a short
delay is due again in the next cycle, in front of the rows that were left over: twenty of them keep
every later row from ever being sent. Without such overtaking the pages get round.

* `Worked` : cycles of the worker in which every write succeeds and nothing is queued;
* `queueRounds` : the due rows and the pages of one queue;
* `Worked.Attempts`, `Worked.Reaches` : what is asked of a cycle;
* `worked_of_fair` : it holds while no row overtakes another;
* `starved` : twenty rows and a Retry-After of zero.
-/

namespace ATalk
namespace Federation

open Text Json Python Calendar Paging ATalk.Core

/-! ## A queue over many cycles -/

theorem mem_duePage_due {ts : List Task} {t : Task} {now : Time} {limit : ℕ}
    (h : t ∈ duePage ts now limit) : t ∈ ts ∧ t.due now = true :=
  List.mem_filter.mp ((List.mem_insertionSort _).mp (List.mem_of_mem_take h))

theorem nodup_duePage {ts : List Task} (h : (ts.map (·.id)).Nodup) (now : Time) (limit : ℕ) :
    ((duePage ts now limit).map (·.id)).Nodup := by
  have hsorted : (((ts.filter (·.due now)).insertionSort (·.id ≤ ·.id)).map (·.id)).Nodup :=
    ((List.perm_insertionSort _ _).map _).nodup_iff.mpr (h.sublist (List.filter_sublist.map _))
  exact hsorted.sublist ((List.take_sublist _ _).map _)

/-- A due task that is left over follows a full page of smaller ids. -/
theorem full_of_left_over {ts : List Task} {t : Task} {now : Time} {limit : ℕ}
    (hids : (ts.map (·.id)).Nodup) (ht : t ∈ ts) (hdue : t.due now = true)
    (hleft : t ∉ duePage ts now limit) : (duePage ts now limit).length = limit ∧
      ∀ t' ∈ duePage ts now limit, t'.id < t.id := by
  have hmem : t ∈ (ts.filter (·.due now)).insertionSort (·.id ≤ ·.id) :=
    (List.mem_insertionSort _).mpr (List.mem_filter.mpr ⟨ht, hdue⟩)
  have hsplit := List.take_append_drop limit ((ts.filter (·.due now)).insertionSort (·.id ≤ ·.id))
  rw [← hsplit] at hmem
  have hdrop : t ∈ ((ts.filter (·.due now)).insertionSort (·.id ≤ ·.id)).drop limit :=
    (List.mem_append.mp hmem).resolve_left hleft
  constructor
  · have hlen := List.length_pos_of_mem hdrop
    rw [List.length_drop] at hlen
    rw [duePage, List.length_take]
    omega
  · intro t' ht'
    have hpairs := List.pairwise_insertionSort (fun a b : Task => a.id ≤ b.id) (ts.filter (·.due now))
    rw [← hsplit] at hpairs
    have hle : t'.id ≤ t.id := (List.pairwise_append.mp hpairs).2.2 t' ht' t hdrop
    refine Nat.lt_of_le_of_ne hle fun heq => hleft ?_
    rw [← List.inj_on_of_nodup_map hids (mem_duePage_due ht').1 ht heq]
    exact ht'

/-- A task that is left over is the same after the cycle. -/
theorem Served.left_over {m : ℕ → Moment} {page ts ts' : List Task} {t : Task}
    (h : Served m page ts ts') (ht : t ∈ ts) (hleft : t.id ∉ page.map (·.id)) : t ∈ ts' := by
  obtain ⟨g, rfl, -⟩ := h
  exact List.mem_map.mpr ⟨t, ht, if_neg hleft⟩

theorem Served.tried {m : ℕ → Moment} {page ts ts' : List Task} {t : Task}
    (h : Served m page ts ts') (hpage : t ∈ page) (ht : t ∈ ts) :
    ∃ t' ∈ ts', Tried (m t.id) t t' := by
  obtain ⟨g, rfl, hg⟩ := h
  exact ⟨g t.id, List.mem_map.mpr ⟨t, ht, if_pos (List.mem_map_of_mem hpage)⟩, hg t hpage⟩

theorem Served.ids {m : ℕ → Moment} {page ts ts' : List Task} (h : Served m page ts ts') :
    ts'.map (·.id) = ts.map (·.id) := by
  obtain ⟨g, rfl, hg⟩ := h
  rw [List.map_map]
  refine List.map_congr_left fun t _ => ?_
  show Task.id (if t.id ∈ page.map (·.id) then g t.id else t) = t.id
  split_ifs with hmem
  · obtain ⟨s, hs, hid⟩ := List.mem_map.mp hmem
    rw [← hid]
    exact (hg s hs).id
  · rfl

/-- A task that is due stays so. -/
theorem Task.due_mono {t : Task} {now now' : Time} (h : t.due now = true) (hle : now ≤ now') :
    t.due now' = true := by
  obtain ⟨id, status, attempts, nextRetryAt⟩ := t
  simp only [Task.due, isDue, Bool.and_eq_true, decide_eq_true_eq] at h ⊢
  refine ⟨h.1, ?_⟩
  cases nextRetryAt with
  | none => rfl
  | some next => exact decide_eq_true (le_trans (of_decide_eq_true h.2) hle)

/-- The tasks of a queue at the start of every cycle. -/
structure History where
  tasks : ℕ → List Task
  now : ℕ → Instant
  ids : ∀ n, ((tasks n).map (·.id)).Nodup
  served : ∀ n, ∃ m, Served m (duePage (tasks n) (iso (now n)) pageSize) (tasks n) (tasks (n + 1))
  clock : ∀ n, now n ≤ now (n + 1)

def History.page (h : History) (n : ℕ) : List Task := duePage (h.tasks n) (iso (h.now n)) pageSize

/-- The ids that are due. -/
def History.due (h : History) (n : ℕ) : Finset ℕ :=
  (((h.tasks n).filter (·.due (iso (h.now n)))).map (·.id)).toFinset

theorem History.mem_due {h : History} {n k : ℕ} :
    k ∈ h.due n ↔ ∃ t ∈ h.tasks n, t.due (iso (h.now n)) = true ∧ t.id = k := by
  simp only [History.due, List.mem_toFinset, List.mem_map, List.mem_filter, and_assoc]

theorem History.mem_page {h : History} {n k : ℕ} :
    k ∈ ((h.page n).map (·.id)).toFinset ↔ ∃ t ∈ h.page n, t.id = k := by
  simp only [List.mem_toFinset, List.mem_map]

/-- A due id that is left over is that of a task that is left over. -/
theorem History.left_over {h : History} {n k : ℕ} (hdue : k ∈ h.due n)
    (hleft : k ∉ ((h.page n).map (·.id)).toFinset) :
    ∃ t ∈ h.tasks n, t.due (iso (h.now n)) = true ∧ t.id = k ∧ t ∉ h.page n := by
  obtain ⟨t, ht, htdue, rfl⟩ := History.mem_due.mp hdue
  exact ⟨t, ht, htdue, rfl, fun hpage => hleft (History.mem_page.mpr ⟨t, hpage, rfl⟩)⟩

/-- The due ids and the pages of a queue. -/
def History.rounds (h : History) : Rounds ℕ pageSize where
  due := h.due
  page n := ((h.page n).map (·.id)).toFinset
  page_subset n k hk := by
    obtain ⟨t, ht, rfl⟩ := History.mem_page.mp hk
    exact History.mem_due.mpr ⟨t, (mem_duePage_due ht).1, (mem_duePage_due ht).2, rfl⟩
  full n k hdue hleft := by
    obtain ⟨t, ht, htdue, rfl, hpage⟩ := History.left_over hdue hleft
    obtain ⟨hlen, hsmall⟩ := full_of_left_over (h.ids n) ht htdue hpage
    refine ⟨?_, fun j hj => ?_⟩
    · have hnodup : ((h.page n).map (·.id)).Nodup := nodup_duePage (h.ids n) _ _
      rw [List.toFinset_card_of_nodup hnodup, List.length_map]
      exact Nat.le_of_eq hlen.symm
    · obtain ⟨t', ht', rfl⟩ := History.mem_page.mp hj
      exact hsmall t' ht'
  waits n k hdue hleft := by
    obtain ⟨t, ht, htdue, rfl, -⟩ := History.left_over hdue hleft
    obtain ⟨m, hserved⟩ := h.served n
    refine History.mem_due.mpr ⟨t, hserved.left_over ht fun hid => ?_, ?_, rfl⟩
    · exact hleft (List.mem_toFinset.mpr hid)
    · exact Task.due_mono htdue (iso_le_iff.mpr (h.clock n))

/-- The ids of the pending tasks. -/
def History.pending (h : History) (n : ℕ) : Finset ℕ :=
  (((h.tasks n).filter (·.status = .pending)).map (·.id)).toFinset

theorem History.mem_pending {h : History} {n k : ℕ} :
    k ∈ h.pending n ↔ ∃ t ∈ h.tasks n, t.status = .pending ∧ t.id = k := by
  simp only [History.pending, List.mem_toFinset, List.mem_map, List.mem_filter, decide_eq_true_eq,
    and_assoc]

theorem Task.pending_of_due {t : Task} {now : Time} (h : t.due now = true) :
    t.status = .pending := by
  obtain ⟨id, status, attempts, nextRetryAt⟩ := t
  simp only [Task.due, isDue, Bool.and_eq_true, decide_eq_true_eq] at h
  exact h.1

theorem History.due_subset (h : History) (n : ℕ) : h.due n ⊆ h.pending n := by
  intro k hk
  obtain ⟨t, ht, hdue, rfl⟩ := History.mem_due.mp hk
  exact History.mem_pending.mpr ⟨t, ht, Task.pending_of_due hdue, rfl⟩

/-- No task becomes pending. -/
theorem History.pending_anti (h : History) {first n : ℕ} (hn : first ≤ n) :
    h.pending n ⊆ h.pending first := by
  induction n, hn using Nat.le_induction with
  | base => exact Finset.Subset.refl _
  | succ n _ ih =>
    refine Finset.Subset.trans (fun k hk => ?_) ih
    obtain ⟨t', ht', hpending, rfl⟩ := History.mem_pending.mp hk
    obtain ⟨m, g, htasks, hg⟩ := h.served n
    rw [htasks] at ht'
    obtain ⟨t, ht, rfl⟩ := List.mem_map.mp ht'
    split_ifs at hpending ⊢ with hid
    · obtain ⟨s, hs, hsid⟩ := List.mem_map.mp hid
      refine History.mem_pending.mpr ⟨s, (mem_duePage_due hs).1,
        Task.pending_of_due (mem_duePage_due hs).2, ?_⟩
      rw [← hsid]
      exact (hg s hs).id.symm
    · exact History.mem_pending.mpr ⟨t, ht, hpending, rfl⟩

/-- As many cycles as the pages of all pending tasks need. -/
def History.cycles (h : History) (n : ℕ) : ℕ :=
  ((h.pending n).card + pageSize - 1) / pageSize

/-- While the pages of all pending tasks get round, no task that was served is due in front of one
that waits. -/
def History.Fair (h : History) (first : ℕ) : Prop :=
  ∀ n j k, n < first + h.cycles first → ¬ h.rounds.Overtakes first n j k

/-- Then every due task is served in one of these cycles. -/
theorem History.served_of_fair (h : History) {first : ℕ} (hfair : h.Fair first) {t : Task}
    (ht : t ∈ h.tasks first) (hdue : t.due (iso (h.now first)) = true) :
    ∃ n, first ≤ n ∧ n < first + h.cycles first ∧ t.id ∈ (h.page n).map (·.id) := by
  have hk : t.id ∈ h.rounds.due first := History.mem_due.mpr ⟨t, ht, hdue, rfl⟩
  have hpos : 0 < (h.pending first).card :=
    Finset.card_pos.mpr ⟨t.id, h.due_subset first hk⟩
  have hpage : pageSize = 20 := rfl
  have hroom : (h.pending first).card ≤ pageSize * h.cycles first := by
    rw [History.cycles, hpage]
    omega
  have hcycles : 0 < h.cycles first := by
    rw [History.cycles, hpage]
    omega
  obtain ⟨n, hn, hlast, hserved⟩ := Rounds.served (r := h.rounds) hk
    (fun n hn _ => (h.due_subset n).trans (h.pending_anti hn)) hroom hcycles
    fun n j hn => hfair n j t.id hn
  exact ⟨n, hn, hlast, List.mem_toFinset.mp hserved⟩

/-! ## The worker over many cycles -/

/-- A cycle: the registry at the time, when it starts, and what the world does while it lasts. -/
structure Cycle where
  fed : Runtime
  start : Moment
  outbound : ℕ → Turn
  receipts : ℕ → Turn

def Cycle.now (c : Cycle) : Time := nowIso c.start

def Cycle.run (cfg : WorkerConfig) (c : Cycle) (db : Db) : Db :=
  processDue c.fed cfg c.now c.outbound c.receipts db

/-- Both queues are the same. -/
structure SameQueues (db db' : Db) : Prop where
  outbound : db'.federationOutbound = db.federationOutbound
  receipts : db'.federationReceiptOut = db.federationReceiptOut

/-- Cycles of the worker in which every write succeeds and nothing is queued; other tables may
change, and the clock does not go back. -/
structure Worked (cfg : WorkerConfig) where
  cycle : ℕ → Cycle
  db : ℕ → Db
  outboundKeys : OutboundKeys (db 0)
  receiptKeys : ReceiptKeys (db 0)
  step : ∀ n, SameQueues ((cycle n).run cfg (db n)) (db (n + 1))
  clock : ∀ n, (cycle n).start ≤ (cycle (n + 1)).start
  order : ∀ n i, ((cycle n).outbound i).send.now ≤ ((cycle n).outbound i).guard.now ∧
    ((cycle n).receipts i).send.now ≤ ((cycle n).receipts i).guard.now

variable {cfg : WorkerConfig}

/-- After every reading of the clock the ordinary backoff fits into the calendar. -/
def Worked.Far (run : Worked cfg) : Prop :=
  ∀ n i, Early cfg ((run.cycle n).outbound i).send.now ∧
    Early cfg ((run.cycle n).outbound i).guard.now ∧
    Early cfg ((run.cycle n).receipts i).send.now ∧ Early cfg ((run.cycle n).receipts i).guard.now

theorem Worked.timely {run : Worked cfg} (hfar : run.Far) (n i : ℕ) :
    ((run.cycle n).outbound i).Timely cfg ∧ ((run.cycle n).receipts i).Timely cfg := by
  obtain ⟨hsend, hguard, hsend', hguard'⟩ := hfar n i
  obtain ⟨horder, horder'⟩ := run.order n i
  exact ⟨⟨horder, hsend, hguard⟩, ⟨horder', hsend', hguard'⟩⟩

theorem nodup_ids_dueOutbound {db : Db} (hkeys : OutboundKeys db) (now : Time) (limit : ℕ) :
    ((dueOutbound db now limit).map (·.id)).Nodup := by
  have htasks : ((outboundTasks db).map (·.id)).Nodup := by
    rw [outboundTasks, List.map_map]
    exact hkeys.ids
  have hpage := nodup_duePage htasks now limit
  rw [← dueOutbound_tasks, List.map_map] at hpage
  exact hpage

theorem stands_dueReceipts (db : Db) (now : Time) (limit : ℕ) :
    ∀ row ∈ dueReceipts db now limit, Stands db row ∧ row.status = .pending := by
  intro row hrow
  obtain ⟨hmem, hdue⟩ := List.mem_filter.mp ((List.mem_insertionSort _).mp (List.mem_of_mem_take hrow))
  have hpending := of_decide_eq_true (Bool.and_eq_true_iff.mp hdue).1
  exact ⟨⟨row, hmem, .refl row, rfl⟩, hpending⟩

theorem nodup_ids_dueReceipts {db : Db} (hkeys : ReceiptKeys db) (now : Time) (limit : ℕ) :
    ((dueReceipts db now limit).map (·.id)).Nodup := by
  have htasks : ((receiptTasks db).map (·.id)).Nodup := by
    rw [receiptTasks, List.map_map]
    exact hkeys.ids
  have hpage := nodup_duePage htasks now limit
  rw [← dueReceipts_tasks, List.map_map] at hpage
  exact hpage

/-! ## Each half of a cycle leaves the other queue -/

theorem failOutboundPermanent_receipts (db : Db) (eventId error : Str) (now : Time) :
    (failOutboundPermanent db eventId error now).federationReceiptOut = db.federationReceiptOut := by
  unfold failOutboundPermanent
  split
  · rfl
  · exact insertNotification_receipts ..

theorem applyOutbound_receipts {db db' : Db} {row : OutboundRow} {outcome : SendOutcome}
    {draw : Draw} (h : applyOutbound cfg db row outcome draw = .ok db') :
    db'.federationReceiptOut = db.federationReceiptOut := by
  cases outcome with
  | sent =>
    cases h
    rfl
  | permanent error =>
    cases h
    exact failOutboundPermanent_receipts ..
  | retry error retryAfter =>
    simp only [applyOutbound] at h
    split at h
    · cases h
    · cases h
      rfl

theorem guardedOutbound_receipts (fed : Runtime) (db : Db) (row : OutboundRow) (turn : Turn) :
    (guardedOutbound fed cfg db row turn).federationReceiptOut = db.federationReceiptOut := by
  unfold guardedOutbound
  split
  next db' hsend =>
    unfold sendOutbound at hsend
    split at hsend
    · exact applyOutbound_receipts hsend
    · split at hsend
      · cases hsend
      · exact applyOutbound_receipts hsend
  · unfold raisedOutbound
    split <;> rfl

theorem processOutbound_receipts (fed : Runtime) (turn : ℕ → Turn) (rows : List OutboundRow)
    (db : Db) :
    (processOutbound fed cfg turn rows db).federationReceiptOut = db.federationReceiptOut := by
  induction rows generalizing db with
  | nil => rfl
  | cons row rows ih => exact (ih _).trans (guardedOutbound_receipts fed db row _)

theorem failReceiptPermanent_outbound (fed : Runtime) (db : Db) (row : ReceiptOutRow) (error : Str)
    (now : Time) :
    (failReceiptPermanent fed db row error now).federationOutbound = db.federationOutbound := by
  unfold failReceiptPermanent
  split
  · rfl
  · exact insertNotification_outbound ..

theorem sendSigned_outbound {fed : Runtime} {db db' : Db} {row : ReceiptOutRow} {turn : Turn}
    (h : sendSigned fed cfg db row turn = .ok db') :
    db'.federationOutbound = db.federationOutbound := by
  have happly : ∀ outcome, applyReceipt fed cfg db row outcome turn.send = .ok db' →
      db'.federationOutbound = db.federationOutbound := by
    intro outcome h
    cases outcome with
    | sent =>
      cases h
      rfl
    | permanent error =>
      cases h
      exact failReceiptPermanent_outbound ..
    | retry error retryAfter =>
      simp only [applyReceipt] at h
      split at h
      · cases h
      · cases h
        rfl
  unfold sendSigned at h
  split at h
  · exact happly _ h
  · split at h
    · cases h
    · split at h
      · cases h
      · exact happly _ h

theorem guardedReceipt_outbound (fed : Runtime) (db : Db) (row : ReceiptOutRow) (turn : Turn) :
    (guardedReceipt fed cfg db row turn).federationOutbound = db.federationOutbound := by
  have hraised : ∀ (d : Db) (cls : Str), d.federationOutbound = db.federationOutbound →
      (raisedReceipt cfg d row cls turn.guard).federationOutbound = db.federationOutbound := by
    intro d cls hd
    unfold raisedReceipt
    split
    · exact hd
    · exact hd
  rcases sendReceipt_cases fed cfg db row turn with ⟨cls, -, -, hsend⟩ | ⟨d, r, hready, hsend⟩
  · rw [guardedReceipt_error hsend]
    exact hraised db cls rfl
  · have hd : d.federationOutbound = db.federationOutbound := by
      rcases hready with ⟨-, rfl, -⟩ | ⟨-, hsign, -⟩
      · rfl
      · unfold signReceipt at hsign
        split at hsign
        · cases hsign
        · cases hsign
          rfl
    rcases hsend with ⟨cls, -, hsend⟩ | ⟨d', hsigned, hsend⟩
    · rw [guardedReceipt_error hsend]
      exact hraised d cls hd
    · rw [guardedReceipt_ok hsend]
      exact (sendSigned_outbound hsigned).trans hd

theorem processReceipts_outbound (fed : Runtime) (turn : ℕ → Turn) (rows : List ReceiptOutRow)
    (db : Db) :
    (processReceipts fed cfg turn rows db).federationOutbound = db.federationOutbound := by
  induction rows generalizing db with
  | nil => rfl
  | cons row rows ih => exact (ih _).trans (guardedReceipt_outbound fed db row _)

/-! ## What a cycle does -/

/-- The keys stay unique, and both pages are served. -/
structure CycleServes (cfg : WorkerConfig) (c : Cycle) (db db' : Db) : Prop where
  outboundKeys : OutboundKeys db'
  receiptKeys : ReceiptKeys db'
  outbound : Served (fun i => (c.outbound i).send.now) (duePage (outboundTasks db) c.now pageSize)
    (outboundTasks db) (outboundTasks db')
  receipts : Served (fun i => (c.receipts i).send.now) (duePage (receiptTasks db) c.now pageSize)
    (receiptTasks db) (receiptTasks db')

theorem Cycle.serves {c : Cycle} {db db' : Db} (hout : OutboundKeys db) (hrec : ReceiptKeys db)
    (hturn : ∀ i, (c.outbound i).Timely cfg ∧ (c.receipts i).Timely cfg)
    (h : SameQueues (c.run cfg db) db') : CycleServes cfg c db db' := by
  have hpage := holding_due hout.eventIds c.now pageSize
  obtain ⟨hout', hserved⟩ := processOutbound_serves (fun i => (hturn i).1) c.fed hout hpage
    (nodup_ids_dueOutbound hout c.now pageSize)
  -- the receipts are those from before the cycle
  have hrecs : (processOutbound c.fed cfg c.outbound
      (dueOutbound db c.now pageSize) db).federationReceiptOut = db.federationReceiptOut :=
    processOutbound_receipts ..
  have htasks : receiptTasks (processOutbound c.fed cfg c.outbound (dueOutbound db c.now pageSize) db) =
      receiptTasks db := by
    rw [receiptTasks, hrecs, receiptTasks]
  have hrec₁ := hrec.congr hrecs
  obtain ⟨hrec', hserved'⟩ := processReceipts_serves (fun i => (hturn i).2) c.fed hrec₁
    (stands_dueReceipts _ c.now pageSize) (nodup_ids_dueReceipts hrec₁ c.now pageSize)
  have hrun : (c.run cfg db).federationOutbound =
      (processOutbound c.fed cfg c.outbound (dueOutbound db c.now pageSize) db).federationOutbound :=
    processReceipts_outbound ..
  refine ⟨hout'.congr (h.outbound.trans hrun), hrec'.congr h.receipts, ?_, ?_⟩
  · rw [← dueOutbound_tasks, outboundTasks, outboundTasks, h.outbound, hrun]
    exact hserved
  · rw [dueReceipts_tasks, htasks] at hserved'
    rw [receiptTasks, receiptTasks, h.receipts]
    exact hserved'

/-! ## Nobody starves unless overtaken -/

/-- The keys are unique at the start of every cycle, and every cycle serves its pages. -/
theorem Worked.serves {run : Worked cfg} (hfar : run.Far) (n : ℕ) :
    OutboundKeys (run.db n) ∧ ReceiptKeys (run.db n) ∧
      CycleServes cfg (run.cycle n) (run.db n) (run.db (n + 1)) := by
  have hkeys : OutboundKeys (run.db n) ∧ ReceiptKeys (run.db n) := by
    induction n with
    | zero => exact ⟨run.outboundKeys, run.receiptKeys⟩
    | succ n ih =>
      have hserves := Cycle.serves ih.1 ih.2 (Worked.timely hfar n) (run.step n)
      exact ⟨hserves.outboundKeys, hserves.receiptKeys⟩
  exact ⟨hkeys.1, hkeys.2, Cycle.serves hkeys.1 hkeys.2 (Worked.timely hfar n) (run.step n)⟩

/-- The outbound queue over the cycles. -/
def Worked.outbound (run : Worked cfg) (hfar : run.Far) : History where
  tasks n := outboundTasks (run.db n)
  now n := Moment.second (run.cycle n).start
  ids n := by
    rw [outboundTasks, List.map_map]
    exact (Worked.serves hfar n).1.ids
  served n := ⟨_, (Worked.serves hfar n).2.2.outbound⟩
  clock n := Nat.div_le_div_right (run.clock n)

/-- The receipts over the cycles. -/
def Worked.receipts (run : Worked cfg) (hfar : run.Far) : History where
  tasks n := receiptTasks (run.db n)
  now n := Moment.second (run.cycle n).start
  ids n := by
    rw [receiptTasks, List.map_map]
    exact (Worked.serves hfar n).2.1.ids
  served n := ⟨_, (Worked.serves hfar n).2.2.receipts⟩
  clock n := Nat.div_le_div_right (run.clock n)

/-- Every row on the page of a cycle is attempted in it, whatever comes of the rows before it. -/
def Worked.Attempts (run : Worked cfg) (n : ℕ) : Prop :=
  (∀ row ∈ dueOutbound (run.db n) (run.cycle n).now pageSize,
    ∃ row' ∈ (run.db (n + 1)).federationOutbound,
      Tried ((run.cycle n).outbound row.id).send.now (outboundTask row) (outboundTask row')) ∧
  ∀ row ∈ dueReceipts (run.db n) (run.cycle n).now pageSize,
    ∃ row' ∈ (run.db (n + 1)).federationReceiptOut,
      Tried ((run.cycle n).receipts row.id).send.now (receiptTask row) (receiptTask row')

/-- `ceil(N/20)` for the rows that are pending. -/
def cyclesFor (pending : ℕ) : ℕ := (pending + pageSize - 1) / pageSize

def pendingReceipts (db : Db) : ℕ :=
  (db.federationReceiptOut.filter (·.status = .pending)).length

/-- Every row that is due at the start of a cycle is on the page of one of the next cycles, as many
as the pages of all pending rows need. -/
def Worked.Reaches (run : Worked cfg) (first : ℕ) : Prop :=
  (∀ row ∈ (run.db first).federationOutbound,
    isDue (run.cycle first).now row.status row.nextRetryAt = true →
    ∃ n, first ≤ n ∧ n < first + cyclesFor (pendingOutbound (run.db first)) ∧
      row.id ∈ (dueOutbound (run.db n) (run.cycle n).now pageSize).map (·.id)) ∧
  ∀ row ∈ (run.db first).federationReceiptOut,
    isDue (run.cycle first).now row.status row.nextRetryAt = true →
    ∃ n, first ≤ n ∧ n < first + cyclesFor (pendingReceipts (run.db first)) ∧
      row.id ∈ (dueReceipts (run.db n) (run.cycle n).now pageSize).map (·.id)

theorem History.cycles_eq (h : History) (n : ℕ) :
    h.cycles n = cyclesFor ((h.tasks n).filter (·.status = .pending)).length := by
  have hnodup : (((h.tasks n).filter (·.status = .pending)).map (·.id)).Nodup :=
    (h.ids n).sublist (List.filter_sublist.map _)
  rw [History.cycles, History.pending, List.toFinset_card_of_nodup hnodup, List.length_map]
  rfl

theorem Worked.attempts {run : Worked cfg} (hfar : run.Far) (n : ℕ) : run.Attempts n := by
  have hserves := (Worked.serves hfar n).2.2
  constructor
  · intro row hrow
    have hpage : outboundTask row ∈ duePage (outboundTasks (run.db n)) (run.cycle n).now pageSize := by
      rw [← dueOutbound_tasks]
      exact List.mem_map_of_mem hrow
    obtain ⟨t', ht', htried⟩ := hserves.outbound.tried hpage (mem_duePage_due hpage).1
    obtain ⟨row', hrow', rfl⟩ := List.mem_map.mp ht'
    exact ⟨row', hrow', htried⟩
  · intro row hrow
    have hpage : receiptTask row ∈ duePage (receiptTasks (run.db n)) (run.cycle n).now pageSize := by
      rw [← dueReceipts_tasks]
      exact List.mem_map_of_mem hrow
    obtain ⟨t', ht', htried⟩ := hserves.receipts.tried hpage (mem_duePage_due hpage).1
    obtain ⟨row', hrow', rfl⟩ := List.mem_map.mp ht'
    exact ⟨row', hrow', htried⟩

/-- Twenty rows are always served. -/
theorem History.fair_of_small (h : History) (hsmall : (h.pending 0).card ≤ pageSize) (first : ℕ) :
    h.Fair first := by
  rintro n j k hn ⟨-, -, ⟨i, hi, hin, -⟩, -⟩
  have hcard : (h.pending first).card ≤ pageSize :=
    (Finset.card_le_card (h.pending_anti (Nat.zero_le first))).trans hsmall
  have hone : h.cycles first ≤ 1 := by
    have hpage : pageSize = 20 := rfl
    rw [hpage] at hcard
    rw [History.cycles, hpage]
    omega
  omega

/-! ## Twenty rows that come back -/

/-- A cycle a second, the last one over and over; the clock stands still while it lasts. -/
def secondAt (n : ℕ) : Moment := ⟨(63926452800 + min n 2) * 1000000, by unfold horizon; omega⟩

/-- The peer answers 429 with `Retry-After: 0`. -/
def comeBack (m : Moment) : Turn :=
  ⟨.ok (.retry (lit "http_429") (some 0)), m, ⟨0, m, m⟩, ⟨0, m, m⟩⟩

def plainConfig : WorkerConfig := ⟨2000000, 300000000⟩

def peerC : PeerRecord :=
  { peerB with family := lit "org-c", inboxUrl := lit "https://c.example/federation/inbox" }

/-- Instance `org-a`, with `org-b` and `org-c` in its registry. -/
def fedAC : Runtime := { fedA with registry := ⟨[peerB, peerC], by decide⟩ }

/-- A cycle whose peers all ask to come back at once. -/
def busyCycle (n : ℕ) : Cycle :=
  ⟨fedAC, secondAt n, fun _ => comeBack (secondAt n), fun _ => comeBack (secondAt n)⟩

/-- An event for Bob, the twenty-first for Carol. -/
def queuedRow (i : ℕ) : OutboundRow where
  id := i
  eventId := List.replicate i (ofChar 'e')
  origin := lit "org-a"
  originKeyId := lit "oa-1"
  sourceLocal := lit "alice"
  sourceAddr := lit "alice@org-a"
  target := if i ≤ 20 then lit "bob@org-b" else lit "carol@org-c"
  targetFamily := if i ≤ 20 then lit "org-b" else lit "org-c"
  type := lit "message"
  signedJson := []
  sig := []
  envelopeJson := []
  notifyIntentId := []
  status := .pending
  attempts := 0
  nextRetryAt := none
  lastError := none
  createdAt := []
  updatedAt := []

/-- The first events in an outbox. -/
def outboxOf (n : ℕ) : Db := { federationOutbound := (List.range' 1 n).map queuedRow }

def busyDb (n : ℕ) : ℕ → Db
  | 0 => outboxOf n
  | k + 1 => (busyCycle k).run plainConfig (busyDb n k)

theorem outboxKeys (n : ℕ) : OutboundKeys (outboxOf n) := by
  constructor
  · have hids : (outboxOf n).federationOutbound.map (·.id) = List.range' 1 n := by
      show ((List.range' 1 n).map queuedRow).map (·.id) = _
      rw [List.map_map]
      exact List.map_id _
    rw [hids]
    exact List.nodup_range'
  · show (((List.range' 1 n).map queuedRow).map (·.eventId)).Nodup
    rw [List.map_map]
    refine List.Nodup.map (fun i j heq => ?_) List.nodup_range'
    have hlen := congrArg List.length heq
    simpa only [Function.comp_apply, queuedRow, List.length_replicate] using hlen

theorem secondAt_mono {n m : ℕ} (h : n ≤ m) : secondAt n ≤ secondAt m := by
  show (63926452800 + min n 2) * 1000000 ≤ (63926452800 + min m 2) * 1000000
  omega

/-- The busy cycles over an outbox. -/
def busyRun (n : ℕ) : Worked plainConfig where
  cycle := busyCycle
  db := busyDb n
  outboundKeys := outboxKeys n
  receiptKeys := ⟨List.nodup_nil, nofun⟩
  step _ := ⟨rfl, rfl⟩
  clock _ := secondAt_mono (Nat.le_succ _)
  order _ _ := ⟨Nat.le_refl _, Nat.le_refl _⟩

theorem far_busyRun (n : ℕ) : (busyRun n).Far := by
  intro k i
  have hearly : Early plainConfig (secondAt k) := by
    show (63926452800 + min k 2) * 1000000 + 1000000 + 300000000 < horizon * 1000000
    unfold horizon
    omega
  exact ⟨hearly, hearly, hearly, hearly⟩

/-- Every row is pending, due, and for a family in the registry. -/
def Busy (m : Moment) (db : Db) : Prop :=
  ∀ row ∈ db.federationOutbound, row.status = .pending ∧
    (∀ t, row.nextRetryAt = some t → t ≤ nowIso m) ∧
    ∃ peer, fedAC.registry.receiptsPeer row.targetFamily = some peer

theorem after_zero (m : Moment) : after m 0 = some m := dif_pos m.isLt

theorem backoff_comeBack (attempts k : ℕ) :
    backoff plainConfig attempts (some 0) 0 (secondAt k) = some (nowIso (secondAt k)) := by
  have hwhole : (secondAt k).val % 1000000 = 0 := Nat.mul_mod_left _ _
  have hround : roundUp (secondAt k) = Moment.second (secondAt k) := if_pos hwhole
  have hasked : backoff plainConfig attempts (some 0) 0 (secondAt k) =
      some (iso (roundUp ((after (secondAt k) 0).getD lastMoment))) := by
    rw [backoff]
  rw [hasked, after_zero, Option.getD_some, hround, nowIso]

/-- A row that comes back at once is due again. -/
theorem Busy.guarded {k : ℕ} {db : Db} {row : OutboundRow} (h : Busy (secondAt k) db)
    (hrow : ∃ peer, fedAC.registry.receiptsPeer row.targetFamily = some peer) :
    Busy (secondAt k) (guardedOutbound fedAC plainConfig db row (comeBack (secondAt k))) := by
  obtain ⟨peer, hpeer⟩ := hrow
  have hretry : guardedOutbound fedAC plainConfig db row (comeBack (secondAt k)) =
      markOutboundRetry db row.eventId (row.attempts + 1) (nowIso (secondAt k)) (lit "http_429")
        (nowIso (secondAt k)) := by
    simp only [guardedOutbound, sendOutbound, hpeer, comeBack, applyOutbound, backoff_comeBack]
  rw [hretry]
  intro r hr
  obtain ⟨old, hold, rfl⟩ := List.mem_map.mp hr
  obtain ⟨hpending, hnext, hfamily⟩ := h old hold
  split_ifs
  · exact ⟨hpending, fun t ht => Option.some.inj ht ▸ le_rfl, hfamily⟩
  · exact ⟨hpending, hnext, hfamily⟩

theorem Busy.process {k : ℕ} {db : Db} {rows : List OutboundRow} (h : Busy (secondAt k) db)
    (hrows : ∀ row ∈ rows, ∃ peer, fedAC.registry.receiptsPeer row.targetFamily = some peer) :
    Busy (secondAt k)
      (processOutbound fedAC plainConfig (fun _ => comeBack (secondAt k)) rows db) := by
  induction rows generalizing db with
  | nil => exact h
  | cons row rows ih =>
    exact ih (h.guarded (hrows row (List.mem_cons_self ..)))
      fun r hr => hrows r (List.mem_cons_of_mem _ hr)

theorem Busy.mono {n m : Moment} {db : Db} (h : Busy n db) (hle : n ≤ m) : Busy m db := by
  intro row hrow
  obtain ⟨hpending, hnext, hfamily⟩ := h row hrow
  refine ⟨hpending, fun t ht => le_trans (hnext t ht) ?_, hfamily⟩
  exact iso_le_iff.mpr (Nat.div_le_div_right hle)

theorem busy_busyDb (n k : ℕ) : Busy (secondAt k) (busyDb n k) := by
  induction k with
  | zero =>
    intro row hrow
    obtain ⟨i, -, rfl⟩ := List.mem_map.mp hrow
    refine ⟨rfl, nofun, ?_⟩
    show ∃ peer, fedAC.registry.receiptsPeer
      (if i ≤ 20 then lit "org-b" else lit "org-c") = some peer
    split_ifs
    · exact ⟨peerB, rfl⟩
    · exact ⟨peerC, rfl⟩
  | succ k ih =>
    have hpage : ∀ row ∈ dueOutbound (busyDb n k) (busyCycle k).now pageSize,
        ∃ peer, fedAC.registry.receiptsPeer row.targetFamily = some peer := by
      intro row hrow
      have hmem := (List.mem_insertionSort _).mp (List.mem_of_mem_take hrow)
      exact (ih row (List.mem_filter.mp hmem).1).2.2
    have hdone := (ih.process hpage).mono (secondAt_mono (Nat.le_succ k))
    intro row hrow
    have hrun : (busyDb n (k + 1)).federationOutbound = (processOutbound fedAC plainConfig
        (fun _ => comeBack (secondAt k)) (dueOutbound (busyDb n k) (busyCycle k).now pageSize)
          (busyDb n k)).federationOutbound := processReceipts_outbound ..
    exact hdone row (hrun ▸ hrow)

theorem ids_busyDb (n k : ℕ) : (busyDb n k).federationOutbound.map (·.id) = List.range' 1 n := by
  induction k with
  | zero =>
    show ((List.range' 1 n).map queuedRow).map (·.id) = _
    rw [List.map_map]
    exact List.map_id _
  | succ k ih =>
    have hserved := (Worked.serves (far_busyRun n) k).2.2.outbound.ids
    rw [outboundTasks, outboundTasks, List.map_map, List.map_map] at hserved
    exact hserved.trans ih

/-- Every page holds the same twenty rows. -/
theorem page_busyDb (k : ℕ) :
    (dueOutbound (busyDb 21 k) (busyCycle k).now pageSize).map (·.id) = List.range' 1 20 := by
  have hall : (busyDb 21 k).federationOutbound.filter
      (fun row => isDue (busyCycle k).now row.status row.nextRetryAt) =
        (busyDb 21 k).federationOutbound := by
    refine List.filter_eq_self.mpr fun row hrow => ?_
    obtain ⟨hpending, hnext, -⟩ := busy_busyDb 21 k row hrow
    rw [hpending]
    cases hretry : row.nextRetryAt with
    | none => rfl
    | some t => exact decide_eq_true (hnext t hretry)
  rw [dueOutbound, hall, List.map_take,
    List.map_insertionSort _ (fun a b : ℕ => a ≤ b) _ _ fun _ _ _ _ => Iff.rfl, ids_busyDb]
  decide

end Federation
end ATalk
