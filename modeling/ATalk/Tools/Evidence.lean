import ATalk.Tools.Steps

/-!
# What a task's state is evidence of

In a ledger of well-typed events, the status of a task is backed by its history since the last
handoff, an end state is final, and the listing of the events does not matter.

* `operate_cases` : what an operation that advances a task changes;
* `Backed`, `Backed.operate` : the link from the status to the history, and that it is kept;
* `verifiable_ledger` : the whole statement.
-/

namespace ATalk
namespace Tools

open Text Python

variable {str : Val → Str} {ev : Event} {o o' : Opened}

/-! ## Operations -/

@[simp] theorem hist_participants (note : Val) :
    (hist o ev note).participants = o.participants := rfl

/-- The history has one entry more, of the event. -/
def Recorded (ev : Event) (o o' : Opened) : Prop :=
  ∃ note, o'.history = o.history ++ [historyEntry ev note]

/-- What each operation changes, of the status, the assignee and the evidence. -/
inductive Advance (ev : Event) (o o' : Opened) : Op → Prop
  | accept : o.assignee = .str ev.source → o.status = .pending → o'.status = .accepted →
      o'.assignee = o.assignee → Advance ev o o' .accept
  | start : o.status ∈ [Status.accepted, .waiting] → o'.status = .inProgress →
      o'.assignee = o.assignee → Advance ev o o' .start
  | block : o.status ∈ [Status.accepted, .inProgress] → o'.status = .waiting →
      o'.assignee = o.assignee → Advance ev o o' .block
  | note {op : Op} : op ∈ [Op.update, .deliver, .verify] → o'.status = o.status →
      o'.assignee = o.assignee → Advance ev o o' op
  | handoff : o'.status = .pending → Advance ev o o' .handoff
  | complete : o.status = .inProgress → o'.status = .completed → o'.assignee = o.assignee →
      o'.deliverable.truthy = true → o'.verification.truthy = true → Advance ev o o' .complete
  | stop {op : Op} : op ∈ [Op.fail, .cancel] → o'.status ∈ [Status.failed, .cancelled] →
      Advance ev o o' op

theorem eq_str_iff {t : Str} {v : Val} : (Val.str t).eq v = true ↔ v = .str t := by
  cases v <;> simp [Val.eq, Val.number, eq_comm]

/-- An operation that advances a task records the event and changes what its kind says. -/
theorem operate_cases {op : Op} (h : operate str ev o op = .ok (.advance o')) :
    Recorded ev o o' ∧ Advance ev o o' op := by
  cases op with
  | create =>
    rw [operate] at h
    cases h
  | accept =>
    rw [operate] at h
    split_ifs at h with hsource hstatus
    · cases h
    · cases h
    · cases h
      rw [Bool.not_eq_true', Bool.not_eq_false, eq_str_iff] at hsource
      exact ⟨⟨_, rfl⟩, .accept hsource (not_not.mp hstatus) rfl rfl⟩
  | start =>
    rw [operate] at h
    split_ifs at h with hstatus
    · cases h
      exact ⟨⟨_, rfl⟩, .start hstatus rfl rfl⟩
    · cases h
  | update =>
    rw [operate] at h
    cases h
    exact ⟨⟨_, rfl⟩, .note (by decide) rfl rfl⟩
  | block =>
    rw [operate] at h
    split_ifs at h with hstatus
    · cases h
      exact ⟨⟨_, rfl⟩, .block hstatus rfl rfl⟩
    · cases h
  | handoff =>
    rw [operate] at h
    split_ifs at h with hto
    · cases h
    · obtain ⟨found, hfound, hrest⟩ := Checks.bind_eq_ok.mp h
      split_ifs at hrest with hin
      · cases hrest
        exact ⟨⟨_, rfl⟩, .handoff rfl⟩
      · obtain ⟨participants, -, hlast⟩ := Checks.bind_eq_ok.mp hrest
        cases hlast
        exact ⟨⟨_, rfl⟩, .handoff rfl⟩
  | deliver =>
    rw [operate] at h
    split_ifs at h with hgiven
    · cases h
    · cases h
      exact ⟨⟨_, rfl⟩, .note (by decide) rfl rfl⟩
  | verify =>
    rw [operate] at h
    split_ifs at h with hgiven
    · cases h
    · cases h
      exact ⟨⟨_, rfl⟩, .note (by decide) rfl rfl⟩
  | complete =>
    rw [operate] at h
    split_ifs at h with hstatus hevidence
    · cases h
    · cases h
    · cases h
      rw [Bool.or_eq_true, not_or, Bool.not_eq_true', Bool.not_eq_false, Bool.not_eq_true',
        Bool.not_eq_false] at hevidence
      exact ⟨⟨_, rfl⟩, .complete (not_not.mp hstatus) rfl rfl hevidence.1 hevidence.2⟩
  | fail =>
    rw [operate] at h
    split_ifs at h with hreason
    · cases h
    · cases h
      exact ⟨⟨_, rfl⟩, .stop (by decide) (List.mem_cons_self)⟩
  | cancel =>
    rw [operate] at h
    cases h
    exact ⟨⟨_, rfl⟩, .stop (by decide) (List.mem_cons_of_mem _ List.mem_cons_self)⟩

/-! ## The invariant -/

/-- The names of the operations in the history. -/
def opName (e : HistoryEntry) (op : Op) : Prop := e.op = .str op.text

/-- The current assignee has accepted since the last handoff, and whoever works on the task has
started it since. -/
def Accepted (o : Opened) : Prop :=
  ∃ earlier e later, o.history = earlier ++ e :: later ∧ earlier ≠ [] ∧ opName e .accept ∧
    o.assignee = .str e.actor ∧ (∀ e' ∈ later, ¬ opName e' .handoff) ∧
    (o.status ∈ [Status.inProgress, .completed] → ∃ e' ∈ later, opName e' .start)

/-- What the status of an open task says of its history and its evidence. -/
structure Backed (o : Opened) : Prop where
  created : ∃ e rest, o.history = e :: rest ∧ opName e .create
  evidence : o.status = .completed → o.deliverable.truthy = true ∧ o.verification.truthy = true
  accepted : o.status ∈ [Status.accepted, .inProgress, .waiting, .completed] → Accepted o

theorem opName_field {op : Op} (h : Op.ofVal (ev.field "op") = some op) :
    ev.field "op" = .str op.text := by
  cases hval : ev.field "op" with
  | str s =>
    rw [hval] at h
    have htext := List.find?_some h
    rw [decide_eq_true_eq.mp htext]
  | _ =>
    rw [hval] at h
    nomatch h

/-- Two names are of one operation. -/
theorem text_injective {op op' : Op} (h : op.text = op'.text) : op = op' := by
  revert h
  cases op <;> cases op' <;> decide

/-- A further entry that is no handoff keeps the acceptance. -/
theorem Accepted.record {op : Op} (hop : Op.ofVal (ev.field "op") = some op) (hne : op ≠ .handoff)
    (hrecorded : Recorded ev o o') (hassignee : o'.assignee = o.assignee) (h : Accepted o)
    (hstarted : o'.status ∈ [Status.inProgress, .completed] →
      o.status ∈ [Status.inProgress, .completed] ∨ op = .start) : Accepted o' := by
  obtain ⟨earlier, e, later, hhistory, hearlier, haccept, hactor, hno, hstart⟩ := h
  obtain ⟨note, hrecorded⟩ := hrecorded
  have hname := opName_field hop
  refine ⟨earlier, e, later ++ [historyEntry ev note], ?_, hearlier, haccept, hassignee.trans hactor, ?_, ?_⟩
  · rw [hrecorded, hhistory, List.append_assoc, List.cons_append]
  · intro e' he'
    rcases List.mem_append.mp he' with hold | hnew
    · exact hno e' hold
    · rw [List.mem_singleton.mp hnew]
      intro hhandoff
      have htext : op.text = Op.handoff.text := Val.str.inj (hname.symm.trans hhandoff)
      exact hne (text_injective htext)
  · intro hstatus
    rcases hstarted hstatus with hbefore | hnow
    · obtain ⟨e', he', hstart'⟩ := hstart hbefore
      exact ⟨e', List.mem_append_left _ he', hstart'⟩
    · refine ⟨_, List.mem_append_right _ (List.mem_singleton_self _), ?_⟩
      rw [hnow] at hname
      exact hname

/-- An operation keeps the invariant. -/
theorem Backed.operate {op : Op} (hop : Op.ofVal (ev.field "op") = some op)
    (h : operate str ev o op = .ok (.advance o')) (hopen : o.status ∉ terminal)
    (hbacked : Backed o) : Backed o' := by
  obtain ⟨hrecorded, hadvance⟩ := operate_cases h
  obtain ⟨e, rest, hhistory, hcreate⟩ := hbacked.created
  have hcreated : ∃ e rest, o'.history = e :: rest ∧ opName e .create := by
    obtain ⟨note, hnote⟩ := hrecorded
    rw [hhistory, List.cons_append] at hnote
    exact ⟨e, _, hnote, hcreate⟩
  refine ⟨hcreated, ?_, ?_⟩
  · intro hdone
    cases hadvance with
    | complete _ _ _ hd hv => exact ⟨hd, hv⟩
    | note hmem hstatus _ =>
      rw [← hstatus, hdone] at hopen
      exact absurd (by decide) hopen
    | _ => simp_all
  · intro hstatus
    cases hadvance with
    | accept hsource hpending hnow hsame =>
      -- the entry of this event is the acceptance
      obtain ⟨note, hnote⟩ := hrecorded
      refine ⟨o.history, _, [], hnote, ?_, opName_field hop, hsame.trans hsource, ?_, ?_⟩
      · rw [hhistory]
        exact List.cons_ne_nil _ _
      · intro e' he'
        nomatch he'
      · intro hworking
        rw [hnow] at hworking
        exact absurd hworking (by decide)
    | start hfrom hnow hsame =>
      refine (hbacked.accepted ?_).record hop (by decide) hrecorded hsame fun _ => .inr rfl
      revert hfrom
      cases o.status <;> decide
    | block hfrom hnow hsame =>
      refine (hbacked.accepted ?_).record hop (by decide) hrecorded hsame ?_
      · revert hfrom
        cases o.status <;> decide
      · intro hworking
        rw [hnow] at hworking
        exact absurd hworking (by decide)
    | note hmem hsameStatus hsame =>
      rw [hsameStatus] at hstatus
      refine (hbacked.accepted hstatus).record hop ?_ hrecorded hsame ?_
      · rintro rfl
        exact absurd hmem (by decide)
      · intro hworking
        rw [hsameStatus] at hworking
        exact .inl hworking
    | handoff hnow =>
      rw [hnow] at hstatus
      exact absurd hstatus (by decide)
    | complete hfrom hnow hsame _ _ =>
      refine (hbacked.accepted ?_).record hop (by decide) hrecorded hsame ?_
      · rw [hfrom]
        decide
      · intro _
        rw [hfrom]
        exact .inl (by decide)
    | stop hmem hnow =>
      exfalso
      revert hnow hstatus
      cases o'.status <;> decide

/-! ## Well-typed events -/

/-- A string, or nothing. -/
def IsText (v : Val) : Prop := v = .none ∨ ∃ s, v = .str s

/-- The fields of the payload that the fold looks into have their types. -/
structure WellTyped (ev : Event) : Prop where
  taskId : IsText (ev.field "task_id")
  op : IsText (ev.field "op")
  recipient : IsText (ev.field "to")
  assignee : IsText (ev.field "assignee")
  participants : ev.field "participants" = .none ∨
    ∃ names : List Str, ev.field "participants" = .list (names.map .str)

theorem IsText.hashable {v : Val} (h : IsText v) : hashable v = true := by
  rcases h with rfl | ⟨s, rfl⟩
  · rfl
  · rfl

/-- A task whose status is backed, and whose participants are a list. -/
def Sound (t : Task) : Prop :=
  ∀ o, t.opened = some o → Backed o ∧ ∃ xs, o.participants = .list xs

/-- The list of participants stays a list. -/
theorem operate_participants {op : Op} (h : operate str ev o op = .ok (.advance o'))
    (hlist : ∃ xs, o.participants = .list xs) : ∃ xs, o'.participants = .list xs := by
  obtain ⟨xs, hxs⟩ := hlist
  by_cases hop : op = .handoff
  · rw [hop, operate] at h
    split_ifs at h with hto
    · cases h
    · obtain ⟨found, hfound, hrest⟩ := Checks.bind_eq_ok.mp h
      split_ifs at hrest with hin
      · cases hrest
        exact ⟨xs, hxs⟩
      · obtain ⟨participants, happend, hlast⟩ := Checks.bind_eq_ok.mp hrest
        cases hlast
        rw [hist_participants, hxs] at happend
        exact ⟨_, (Except.ok.inj happend).symm⟩
  · refine ⟨xs, ?_⟩
    rw [← hxs]
    cases op with
    | handoff => exact absurd rfl hop
    | create => cases h
    | update =>
      cases h
      rfl
    | cancel =>
      cases h
      rfl
    | _ =>
      rw [operate] at h
      split_ifs at h <;> first
        | (cases h; rfl)
        | cases h

/-- A valid `create` opens a sound task. -/
theorem sound_create (htyped : WellTyped ev) (hop : Op.ofVal (ev.field "op") = some .create) :
    Sound (create ev) := by
  intro o ho
  unfold create at ho
  split_ifs at ho with hmissing
  · nomatch ho
  · rw [← Option.some.inj ho]
    refine ⟨⟨⟨_, [], rfl, opName_field hop⟩, nofun, ?_⟩, ?_⟩
    · intro hstatus
      change Status.pending ∈ _ at hstatus
      exact absurd hstatus (by decide)
    · rw [hist_participants]
      rcases htyped.participants with hnone | ⟨names, hnames⟩
      · rw [hnone]
        exact ⟨_, rfl⟩
      · rw [hnames]
        cases names with
        | nil => exact ⟨_, rfl⟩
        | cons name names => exact ⟨_, rfl⟩

theorem sound_applyOp {op : Op} {t : Option Task} {t' : Task} (htyped : WellTyped ev)
    (hop : Op.ofVal (ev.field "op") = some op) (h : applyOp str ev op t = .ok t')
    (hsound : ∀ t₀, t = some t₀ → Sound t₀) : Sound t' := by
  rcases applyOp_cases h with ⟨-, hnone | ⟨hcreate, hnew⟩⟩ | ⟨t₀, ht, -, hsame⟩ |
    ⟨t₀, o, o', ht, ho, hopen, hoperate, hnew⟩
  · intro o ho
    rw [hnone] at ho
    nomatch ho
  · rw [hcreate] at hop
    rw [hnew]
    exact sound_create htyped hop
  · intro o ho
    rw [hsame] at ho
    exact hsound t₀ ht o ho
  · intro o₁ ho₁
    rw [hnew] at ho₁
    rw [← Option.some.inj ho₁]
    obtain ⟨hbacked, hlist⟩ := hsound t₀ ht o ho
    exact ⟨hbacked.operate hop hoperate hopen, operate_participants hoperate hlist⟩

/-- Every task of the dictionary is sound. -/
def AllSound (tasks : Tasks) : Prop := ∀ e ∈ tasks, Sound e.2

theorem sound_getTask {tasks : Tasks} (hall : AllSound tasks) {tid : Val} {t : Task}
    (h : getTask tid tasks = some t) : Sound t := by
  obtain ⟨k, hmem⟩ := mem_of_getTask h
  exact hall _ hmem

/-- A step keeps the tasks sound. -/
theorem AllSound.step {tasks tasks' : Tasks} (htyped : WellTyped ev)
    (h : foldStep str tasks ev = .ok tasks') (hall : AllSound tasks) : AllSound tasks' := by
  rcases foldStep_cases h with ⟨-, rfl⟩ | ⟨op, t, hop, -, -, happly, rfl⟩
  · exact hall
  · intro e he
    rcases mem_setTask he with hnew | hold
    · rw [hnew]
      exact sound_applyOp htyped hop happly fun t₀ ht₀ => sound_getTask hall ht₀
    · exact hall e hold

/-- A well-typed event does not make the loop raise. -/
theorem harmless_of_wellTyped {tasks : Tasks} (htyped : WellTyped ev) (hall : AllSound tasks) :
    Harmless tasks ev := by
  intro _
  refine ⟨htyped.op.hashable, fun op _ => ⟨htyped.taskId.hashable, ?_⟩⟩
  intro _ _ t o ht ho _
  obtain ⟨xs, hxs⟩ := (sound_getTask hall ht o ho).2
  rw [hxs]
  trivial

/-- A run over well-typed events returns, with sound tasks. -/
theorem sound_run (str : Val → Str) {events : List Event} (htyped : ∀ ev ∈ events, WellTyped ev) :
    ∀ {tasks : Tasks}, AllSound tasks →
      ∃ tasks', events.foldlM (foldStep str) tasks = .ok tasks' ∧ AllSound tasks' := by
  induction events with
  | nil =>
    intro tasks hall
    exact ⟨tasks, rfl, hall⟩
  | cons ev events ih =>
    intro tasks hall
    have hev := htyped ev List.mem_cons_self
    obtain ⟨next, hnext⟩ := foldStep_ok_iff.mpr (harmless_of_wellTyped hev hall)
    obtain ⟨tasks', hrun, hall'⟩ :=
      ih (fun e he => htyped e (List.mem_cons_of_mem _ he)) (hall.step hev hnext)
    refine ⟨tasks', ?_, hall'⟩
    rw [List.foldlM_cons, hnext]
    exact hrun

/-! ## End states -/

/-- The entry of a task is the one it was, up to its anomalies. -/
def Ended (tid : Str) (t : Task) (o : Opened) (tasks : Tasks) : Prop :=
  ∃ t', getTask (.str tid) tasks = some t' ∧ t'.taskId = t.taskId ∧ t'.opened = some o

/-- A step leaves a task in an end state as it is. -/
theorem Ended.step {tid : Str} {t : Task} {tasks tasks' : Tasks}
    (h : foldStep str tasks ev = .ok tasks') (hend : o.status ∈ terminal)
    (hended : Ended tid t o tasks) : Ended tid t o tasks' := by
  obtain ⟨t₁, hget, hid, ho⟩ := hended
  rcases foldStep_cases h with ⟨-, rfl⟩ | ⟨op, t', -, -, -, happly, rfl⟩
  · exact ⟨t₁, hget, hid, ho⟩
  · by_cases htid : ev.field "task_id" = .str tid
    · rw [htid, hget] at happly
      rw [htid]
      refine ⟨t', getTask_setTask_self tasks, ?_⟩
      rcases applyOp_cases happly with ⟨hnone, -⟩ | ⟨t₀, ht₀, hsameId, hsame⟩ |
        ⟨t₀, o₀, o', ht₀, ho₀, hopen, -, -⟩
      · nomatch hnone
      · rw [← Option.some.inj ht₀] at hsameId hsame
        exact ⟨hsameId.trans hid, hsame.trans ho⟩
      · rw [← Option.some.inj ht₀, ho] at ho₀
        rw [Option.some.inj ho₀] at hend
        exact absurd hend hopen
    · rw [Ended, getTask_setTask_other htid]
      exact ⟨t₁, hget, hid, ho⟩

theorem Ended.run {tid : Str} {t : Task} {events : List Event} (hend : o.status ∈ terminal) :
    ∀ {tasks tasks' : Tasks}, events.foldlM (foldStep str) tasks = .ok tasks' →
      Ended tid t o tasks → Ended tid t o tasks' := by
  induction events with
  | nil =>
    intro tasks tasks' h hended
    rw [← Except.ok.inj h]
    exact hended
  | cons ev events ih =>
    intro tasks tasks' h hended
    rw [List.foldlM_cons] at h
    obtain ⟨next, hnext, hrest⟩ := Checks.bind_eq_ok.mp h
    exact ih hrest (hended.step hnext hend)

/-! ## The ledger -/

/-- A ledger of well-typed events is verifiable: every status is backed, an end state is final, and
the state does not depend on how the events are listed. -/
theorem verifiable_ledger (str : Val → Str) (events : List Event)
    (hids : (events.map Event.id).Nodup) (htyped : ∀ ev ∈ events, WellTyped ev) :
    (∃ tasks, fold str events = .ok tasks ∧
      ∀ e ∈ tasks, ∀ o, e.2.opened = some o → Backed o) ∧
    (∀ more, ((events ++ more).map Event.id).Nodup → (∀ ev ∈ more, WellTyped ev) →
      (∀ a ∈ events, ∀ b ∈ more, a.id < b.id) →
      ∀ tasks, fold str events = .ok tasks → ∀ tid t o, getTask (.str tid) tasks = some t →
        t.opened = some o → o.status ∈ terminal →
        ∃ tasks', fold str (events ++ more) = .ok tasks' ∧
          ∃ t', getTask (.str tid) tasks' = some t' ∧ t'.taskId = t.taskId ∧ t'.opened = some o) ∧
    (∀ listed, listed.Perm events → fold str listed = fold str events) := by
  have hstart : AllSound [] := fun e he => nomatch he
  refine ⟨?_, ?_, ?_⟩
  · obtain ⟨tasks, hrun, hall⟩ :=
      sound_run str (fun ev hev => htyped ev (mem_sortById.mp hev)) hstart
    exact ⟨tasks, hrun, fun e he o ho => (hall e he o ho).1⟩
  · intro more hall htypedMore hlater tasks hfold tid t o ht ho hend
    obtain ⟨tasks₀, hrun, hall₀⟩ :=
      sound_run str (fun ev hev => htyped ev (mem_sortById.mp hev)) hstart
    have hsame : tasks₀ = tasks := Except.ok.inj (hrun.symm.trans hfold)
    rw [hsame] at hall₀
    obtain ⟨tasks', hmore, -⟩ :=
      sound_run str (fun ev hev => htypedMore ev (mem_sortById.mp hev)) hall₀
    refine ⟨tasks', ?_, Ended.run hend hmore ⟨t, ht, rfl, ho⟩⟩
    unfold fold at hfold ⊢
    rw [sortById_append hall hlater, List.foldlM_append]
    exact Checks.bind_eq_ok.mpr ⟨tasks, hfold, hmore⟩
  · intro listed hperm
    unfold fold
    rw [sortById_eq (hperm.map Event.id |>.nodup_iff.mpr hids) (sorted_sortById events)
      ((sortById_perm events).trans hperm.symm)]

/-- A ledger with one task, created by `a` and accepted by `b`. -/
def acceptedLedger : List Event :=
  [⟨2, lit "e2", lit "b", lit "2026-01-01T00:00:01Z",
    [(lit "task_id", .str (lit "t")), (lit "op", .str (lit "accept"))]⟩,
   ⟨1, lit "e1", lit "a", lit "2026-01-01T00:00:00Z",
    [(lit "task_id", .str (lit "t")), (lit "op", .str (lit "create")),
      (lit "title", .str (lit "x")), (lit "assignee", .str (lit "b"))]⟩]

/-- `str(x)` of a string. -/
def strOfStr : Val → Str
  | .str s => s
  | _ => []

theorem verifiable_ledger_accepted : ∃ tasks, fold strOfStr acceptedLedger = .ok tasks ∧
    ∀ e ∈ tasks, ∀ o, e.2.opened = some o → Backed o := by
  have htyped : ∀ ev ∈ acceptedLedger, WellTyped ev := by
    intro ev hev
    rcases List.mem_cons.mp hev with rfl | hev
    · exact ⟨.inr ⟨_, rfl⟩, .inr ⟨_, rfl⟩, .inl rfl, .inl rfl, .inl rfl⟩
    · rw [List.mem_singleton.mp hev]
      exact ⟨.inr ⟨_, rfl⟩, .inr ⟨_, rfl⟩, .inl rfl, .inr ⟨_, rfl⟩, .inl rfl⟩
  exact (verifiable_ledger strOfStr acceptedLedger (by decide) htyped).1

end Tools
end ATalk
