import ATalk.Lib.Checks
import ATalk.Tools.TaskLib

/-!
# The steps of the fold

What the order of the ids, the dictionary and one step of the loop do, once for the invariants of
the other modules.

* `sortById_eq` : distinct ids have one order;
* `foldStep_cases`, `applyOp_cases` : every way in which a step returns;
* `Harmless`, `foldStep_ok_iff` : when it returns.
-/

namespace ATalk
namespace Tools

open Text Python

variable {str : Val → Str}

/-! ## The order of the ids -/

instance : Std.Total (fun a b : Event => a.id ≤ b.id) := ⟨fun a b => le_total a.id b.id⟩

instance : IsTrans Event (fun a b => a.id ≤ b.id) := ⟨fun _ _ _ => le_trans⟩

theorem mem_sortById {events : List Event} {ev : Event} : ev ∈ sortById events ↔ ev ∈ events :=
  List.mem_insertionSort _

theorem eq_of_id_eq {events : List Event} (hids : (events.map Event.id).Nodup) {a b : Event}
    (ha : a ∈ events) (hb : b ∈ events) (h : a.id = b.id) : a = b :=
  List.inj_on_of_nodup_map hids ha hb h

/-- With distinct ids the order of the fold is the only ordered one. -/
theorem sortById_eq {events sorted : List Event} (hids : (events.map Event.id).Nodup)
    (hsorted : sorted.Pairwise (·.id ≤ ·.id)) (hperm : sorted.Perm events) :
    sortById events = sorted := by
  have hinsertion := List.perm_insertionSort (fun a b : Event => a.id ≤ b.id) events
  refine List.Perm.eq_of_pairwise ?_ (List.pairwise_insertionSort _ events) hsorted
    (hinsertion.trans hperm.symm)
  intro a b ha hb hab hba
  exact eq_of_id_eq hids (hinsertion.subset ha) (hperm.subset hb) (le_antisymm hab hba)

theorem sorted_sortById (events : List Event) : (sortById events).Pairwise (·.id ≤ ·.id) :=
  List.pairwise_insertionSort _ events

theorem sortById_perm (events : List Event) : (sortById events).Perm events :=
  List.perm_insertionSort _ events

/-- Events with larger ids come after. -/
theorem sortById_append {events more : List Event}
    (hids : ((events ++ more).map Event.id).Nodup)
    (hlater : ∀ a ∈ events, ∀ b ∈ more, a.id < b.id) :
    sortById (events ++ more) = sortById events ++ sortById more := by
  refine sortById_eq hids ?_ ((sortById_perm events).append (sortById_perm more))
  refine List.pairwise_append.mpr ⟨sorted_sortById events, sorted_sortById more, ?_⟩
  intro a ha b hb
  exact (hlater a (mem_sortById.mp ha) b (mem_sortById.mp hb)).le

/-- A selection of the events keeps their order. -/
theorem sortById_filter {events : List Event} (hids : (events.map Event.id).Nodup)
    (p : Event → Bool) : sortById (events.filter p) = (sortById events).filter p := by
  refine sortById_eq ?_ ((sorted_sortById events).filter p) ((sortById_perm events).filter p)
  exact hids.sublist ((List.filter_sublist).map Event.id)

/-! ## Entries -/

theorem getTask_setTask_self {tid : Str} {t : Task} (tasks : Tasks) :
    getTask (.str tid) (setTask (.str tid) t tasks) = some t := by
  induction tasks with
  | nil => simp [setTask, getTask]
  | cons e tasks ih =>
    obtain ⟨k, t'⟩ := e
    unfold setTask
    by_cases hk : isOrEq k (.str tid)
    · rw [if_pos hk, getTask, if_pos hk]
    · rw [if_neg hk, getTask, if_neg hk]
      exact ih

/-- The entry of another task stays. -/
theorem getTask_setTask_other {key : Val} {tid : Str} {t : Task} (hne : key ≠ .str tid)
    (tasks : Tasks) : getTask (.str tid) (setTask key t tasks) = getTask (.str tid) tasks := by
  induction tasks with
  | nil =>
    have hnot : ¬ isOrEq key (.str tid) := fun h => hne ((isOrEq_str key tid).mp h)
    simp only [setTask, getTask, if_neg hnot]
  | cons e tasks ih =>
    obtain ⟨k, t'⟩ := e
    unfold setTask
    by_cases hk : isOrEq k key
    · rw [if_pos hk]
      have hnot : k ≠ .str tid := by
        rintro rfl
        exact hne (isOrEq_of_str hk)
      have hnot' : ¬ isOrEq k (.str tid) := fun h => hnot ((isOrEq_str k tid).mp h)
      rw [getTask, if_neg hnot', getTask, if_neg hnot']
    · rw [if_neg hk]
      unfold getTask
      rw [ih]

/-- What is in the dictionary after an update. -/
theorem mem_setTask {key : Val} {t : Task} {tasks : Tasks} {e : Val × Task}
    (h : e ∈ setTask key t tasks) : e.2 = t ∨ e ∈ tasks := by
  induction tasks with
  | nil =>
    left
    rw [List.mem_singleton.mp h]
  | cons e' tasks ih =>
    obtain ⟨k, t'⟩ := e'
    unfold setTask at h
    by_cases hk : isOrEq k key
    · rw [if_pos hk] at h
      rcases List.mem_cons.mp h with rfl | hmem
      · exact .inl rfl
      · exact .inr (List.mem_cons_of_mem _ hmem)
    · rw [if_neg hk] at h
      rcases List.mem_cons.mp h with rfl | hmem
      · exact .inr List.mem_cons_self
      · rcases ih hmem with heq | hold
        · exact .inl heq
        · exact .inr (List.mem_cons_of_mem _ hold)

theorem mem_of_getTask {tid : Val} {t : Task} {tasks : Tasks} (h : getTask tid tasks = some t) :
    ∃ k, (k, t) ∈ tasks := by
  induction tasks with
  | nil => nomatch h
  | cons e tasks ih =>
    obtain ⟨k, t'⟩ := e
    unfold getTask at h
    by_cases hk : isOrEq k tid
    · rw [if_pos hk] at h
      rw [← Option.some.inj h]
      exact ⟨k, List.mem_cons_self⟩
    · rw [if_neg hk] at h
      obtain ⟨k', hmem⟩ := ih h
      exact ⟨k', List.mem_cons_of_mem _ hmem⟩

/-! ## Steps -/

/-- A step that returns: nothing, or an operation on the entry that the event names. -/
theorem foldStep_cases {tasks tasks' : Tasks} {ev : Event}
    (h : foldStep str tasks ev = .ok tasks') :
    (((ev.field "task_id").truthy = false ∨ Op.ofVal (ev.field "op") = none) ∧ tasks' = tasks) ∨
    ∃ op t, Op.ofVal (ev.field "op") = some op ∧
      (ev.field "task_id").truthy = true ∧ hashable (ev.field "task_id") = true ∧
      applyOp str ev op (getTask (ev.field "task_id") tasks) = .ok t ∧
      tasks' = setTask (ev.field "task_id") t tasks := by
  unfold foldStep at h
  simp only [Bool.not_eq_true'] at h
  by_cases htid : (ev.field "task_id").truthy
  · rw [if_neg (by rw [htid]; decide)] at h
    by_cases hop : hashable (ev.field "op")
    · rw [if_neg (by rw [hop]; decide)] at h
      cases hname : Op.ofVal (ev.field "op") with
      | none =>
        rw [hname] at h
        exact .inl ⟨.inr rfl, (Except.ok.inj h).symm⟩
      | some op =>
        rw [hname] at h
        by_cases hkey : hashable (ev.field "task_id")
        · simp only [hkey, Bool.true_eq_false, if_false] at h
          obtain ⟨t, happly, hset⟩ := Checks.bind_eq_ok.mp h
          exact .inr ⟨op, t, rfl, htid, hkey, happly, (Except.ok.inj hset).symm⟩
        · simp only [eq_false_of_ne_true hkey, if_true] at h
          nomatch h
    · rw [if_pos (eq_false_of_ne_true hop)] at h
      nomatch h
  · rw [if_pos (eq_false_of_ne_true htid)] at h
    exact .inl ⟨.inl (eq_false_of_ne_true htid), (Except.ok.inj h).symm⟩

@[simp] theorem anom_opened (t : Task) (ev : Event) (why : Str) :
    (anom t ev why).opened = t.opened := rfl

@[simp] theorem anom_taskId (t : Task) (ev : Event) (why : Str) :
    (anom t ev why).taskId = t.taskId := rfl

/-- An operation other than `create` on an entry that is there. -/
theorem applyOp_some {ev : Event} {op : Op} {t : Task} (hop : op ≠ .create) :
    applyOp str ev op (some t) =
      match t.opened with
      | none => .ok (anom t ev (lit "op " ++ op.text ++ lit " before valid create"))
      | some o =>
        if o.status ∈ terminal then
          .ok (anom t ev (lit "op " ++ op.text ++ lit " after terminal state " ++ o.status.text))
        else (do
          match ← operate str ev o op with
          | .anomaly why => .ok (anom t ev why)
          | .advance o' => .ok { t with opened := some o' }) := by
  cases op with
  | create => exact absurd rfl hop
  | _ => rfl

/-- What an operation makes of an entry: a new one, the same with an anomaly, or an advance. -/
theorem applyOp_cases {ev : Event} {op : Op} {t : Option Task} {t' : Task}
    (h : applyOp str ev op t = .ok t') :
    (t = none ∧ (t'.opened = none ∨ op = .create ∧ t' = create ev)) ∨
    (∃ t₀, t = some t₀ ∧ t'.taskId = t₀.taskId ∧ t'.opened = t₀.opened) ∨
    ∃ t₀ o o', t = some t₀ ∧ t₀.opened = some o ∧ o.status ∉ terminal ∧
      operate str ev o op = .ok (.advance o') ∧ t' = { t₀ with opened := some o' } := by
  cases t with
  | none =>
    left
    refine ⟨rfl, ?_⟩
    cases op with
    | create => exact .inr ⟨rfl, (Except.ok.inj h).symm⟩
    | _ =>
      left
      rw [← Except.ok.inj h]
      rfl
  | some t₀ =>
    right
    by_cases hcreate : op = .create
    · left
      rw [hcreate] at h
      rw [← Except.ok.inj h]
      exact ⟨t₀, rfl, rfl, rfl⟩
    · rw [applyOp_some hcreate] at h
      cases ho : t₀.opened with
      | none =>
        rw [ho] at h
        left
        rw [← Except.ok.inj h]
        exact ⟨t₀, rfl, rfl, rfl⟩
      | some o =>
        rw [ho] at h
        by_cases hterminal : o.status ∈ terminal
        · simp only [if_pos hterminal] at h
          left
          rw [← Except.ok.inj h]
          exact ⟨t₀, rfl, rfl, rfl⟩
        · simp only [if_neg hterminal] at h
          obtain ⟨outcome, hoperate, hrest⟩ := Checks.bind_eq_ok.mp h
          cases outcome with
          | anomaly why =>
            left
            rw [← Except.ok.inj hrest]
            exact ⟨t₀, rfl, rfl, rfl⟩
          | advance o' =>
            right
            exact ⟨t₀, o, o', rfl, ho, hterminal, hoperate, (Except.ok.inj hrest).symm⟩

/-! ## Steps that return -/

/-- The container takes the recipient of a handoff: it has it already, or it is a list. -/
def Takes (recipient : Val) : Val → Prop
  | .list _ => True
  | .str s => ∃ w, recipient = .str w ∧ w <:+: s
  | .dict ms => ∃ k ∈ dictKeys ms, recipient = .str k
  | _ => False

theorem takes_iff {recipient container : Val} :
    Takes recipient container ↔ isIn recipient container = .ok true ∨
      isIn recipient container = .ok false ∧ ∃ v, append recipient container = .ok v := by
  cases container with
  | list xs =>
    refine iff_of_true trivial ?_
    cases hin : xs.any (isOrEq · recipient) with
    | false => exact .inr ⟨congrArg _ hin, _, rfl⟩
    | true => exact .inl (congrArg _ hin)
  | str s =>
    constructor
    · rintro ⟨w, rfl, hin⟩
      exact .inl (congrArg _ (decide_eq_true hin))
    · rintro (hin | ⟨-, v, hv⟩)
      · cases recipient with
        | str w => exact ⟨w, rfl, of_decide_eq_true (Except.ok.inj hin)⟩
        | _ => nomatch hin
      · nomatch hv
  | dict ms =>
    constructor
    · rintro ⟨k, hk, rfl⟩
      obtain ⟨m, hm, rfl⟩ := List.mem_map.mp hk
      have hany : (ms.any fun m' => isOrEq (.str m'.1) (.str m.1)) = true :=
        List.any_eq_true.mpr ⟨m, hm, (isOrEq_str _ _).mpr rfl⟩
      exact .inl (congrArg _ hany)
    · rintro (hin | ⟨-, v, hv⟩)
      · unfold isIn at hin
        split_ifs at hin with hhash
        obtain ⟨m, hm, heq⟩ := List.any_eq_true.mp (Except.ok.inj hin)
        exact ⟨m.1, List.mem_map.mpr ⟨m, hm, rfl⟩, isOrEq_of_str heq⟩
      · nomatch hv
  | _ =>
    refine iff_of_false id ?_
    rintro (hin | ⟨hin, -⟩) <;> nomatch hin

/-- A block whose rest never raises returns when its first step does. -/
theorem exists_bind_ok {ε α β : Type} {x : Except ε α} {f : α → Except ε β}
    (hf : ∀ a, ∃ b, f a = .ok b) : (∃ b, (x >>= f) = .ok b) ↔ ∃ a, x = .ok a := by
  constructor
  · rintro ⟨b, h⟩
    obtain ⟨a, ha, -⟩ := Checks.bind_eq_ok.mp h
    exact ⟨a, ha⟩
  · rintro ⟨a, ha⟩
    obtain ⟨b, hb⟩ := hf a
    exact ⟨b, Checks.bind_eq_ok.mpr ⟨a, ha, hb⟩⟩

/-- The only operation that can raise is a handoff. -/
theorem operate_ok_iff {ev : Event} {o : Opened} {op : Op} :
    (∃ outcome, operate str ev o op = .ok outcome) ↔
      (op = .handoff → (ev.field "to").truthy = true → Takes (ev.field "to") o.participants) := by
  cases op with
  | handoff =>
    rw [operate]
    by_cases hto : (ev.field "to").truthy
    · have hto' : ¬ (!(ev.field "to").truthy) = true := by
        rw [hto]
        decide
      simp only [if_neg hto', hto, forall_const]
      rw [takes_iff]
      show (∃ outcome, (isIn (ev.field "to") o.participants >>= _) = .ok outcome) ↔ _
      constructor
      · rintro ⟨outcome, h⟩
        obtain ⟨found, hfound, hrest⟩ := Checks.bind_eq_ok.mp h
        cases found with
        | true => exact .inl hfound
        | false =>
          obtain ⟨v, hv, -⟩ := Checks.bind_eq_ok.mp hrest
          exact .inr ⟨hfound, v, hv⟩
      · rintro (hfound | ⟨hfound, v, hv⟩)
        · exact ⟨_, Checks.bind_eq_ok.mpr ⟨true, hfound, rfl⟩⟩
        · exact ⟨_, Checks.bind_eq_ok.mpr ⟨false, hfound, Checks.bind_eq_ok.mpr ⟨v, hv, rfl⟩⟩⟩
    · refine iff_of_true ?_ fun _ h => absurd h hto
      rw [if_pos (by rw [eq_false_of_ne_true hto]; decide)]
      exact ⟨_, rfl⟩
  | create => exact iff_of_true ⟨_, rfl⟩ nofun
  | update => exact iff_of_true ⟨_, rfl⟩ nofun
  | cancel => exact iff_of_true ⟨_, rfl⟩ nofun
  | _ =>
    refine iff_of_true ?_ nofun
    rw [operate]
    split_ifs <;> exact ⟨_, rfl⟩

theorem applyOp_ok_iff (str : Val → Str) (ev : Event) (op : Op) (t : Option Task) :
    (∃ t', applyOp str ev op t = .ok t') ↔
      (op = .handoff → (ev.field "to").truthy = true → ∀ t₀ o, t = some t₀ → t₀.opened = some o →
        o.status ∉ terminal → Takes (ev.field "to") o.participants) := by
  cases t with
  | none => cases op <;> exact iff_of_true ⟨_, rfl⟩ nofun
  | some t₀ =>
    by_cases hcreate : op = .create
    · rw [hcreate]
      exact iff_of_true ⟨_, rfl⟩ nofun
    · rw [applyOp_some hcreate]
      cases ho : t₀.opened with
      | none =>
        refine iff_of_true ⟨_, rfl⟩ ?_
        intro _ _ t₁ o ht ho'
        rw [← Option.some.inj ht, ho] at ho'
        nomatch ho'
      | some o =>
        by_cases hterminal : o.status ∈ terminal
        · refine iff_of_true ⟨_, if_pos hterminal⟩ ?_
          intro _ _ t₁ o' ht ho' hopen
          rw [← Option.some.inj ht, ho] at ho'
          rw [Option.some.inj ho'] at hterminal
          exact absurd hterminal hopen
        · simp only [if_neg hterminal]
          refine (exists_bind_ok fun outcome => ?_).trans (operate_ok_iff.trans ?_)
          · cases outcome <;> exact ⟨_, rfl⟩
          constructor
          · intro htakes hop hto t₁ o' ht ho' _
            rw [← Option.some.inj ht, ho] at ho'
            rw [← Option.some.inj ho']
            exact htakes hop hto
          · intro htakes hop hto
            exact htakes hop hto t₀ o rfl ho hterminal

/-- The event does not make the loop raise in this state. -/
def Harmless (tasks : Tasks) (ev : Event) : Prop :=
  (ev.field "task_id").truthy = true → hashable (ev.field "op") = true ∧
    ∀ op, Op.ofVal (ev.field "op") = some op → hashable (ev.field "task_id") = true ∧
      (op = .handoff → (ev.field "to").truthy = true →
        ∀ t o, getTask (ev.field "task_id") tasks = some t → t.opened = some o →
          o.status ∉ terminal → Takes (ev.field "to") o.participants)

theorem foldStep_ok_iff {tasks : Tasks} {ev : Event} :
    (∃ tasks', foldStep str tasks ev = .ok tasks') ↔ Harmless tasks ev := by
  unfold foldStep Harmless
  by_cases htid : (ev.field "task_id").truthy
  · by_cases hop : hashable (ev.field "op")
    · cases hname : Op.ofVal (ev.field "op") with
      | none => simp [htid, hop]
      | some op =>
        by_cases hkey : hashable (ev.field "task_id")
        · have happly := applyOp_ok_iff str ev op (getTask (ev.field "task_id") tasks)
          simp only [htid, hop, hkey, Bool.not_true, Bool.false_eq_true, if_false, true_and,
            forall_const, Option.some.injEq, forall_eq']
          exact (exists_bind_ok fun t => ⟨_, rfl⟩).trans happly
        · simp [htid, hop, hkey]
    · simp [htid, hop]
  · simp [htid]

end Tools
end ATalk
