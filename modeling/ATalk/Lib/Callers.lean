import ATalk.Lib.Transition
import Mathlib.Data.Nat.Notation

/-!
# Callers on one store

Several callers share a store. A call is a machine of its own: it starts from its arguments, takes
one step on the store at a time, and ends with a result; between two of its steps other callers
may take theirs, and the store may change by other means.

* `Machine`, `World`, `callers` : the calls, a store with the calls begun on it, and their runs;
* `Machine.Keeps` : an invariant of the store, and one of each call that other steps cannot break;
* `Keeps.reach`, `Keeps.run` : they hold in every reached world, and the store only moves forward;
* `Keeps.call` : what the own steps of a call keep;
* `Machine.logged`, `Keeps.logged` : the machine that notes its own steps, and its invariants;
* `Machine.brought_about` : what was not there at the start is the work of a noted step;
* `Machine.recorded` : the machine whose store has a history;
* `Machine.steps`, `Machine.Leads`, `reach_steps` : a call that nobody interrupts;
* `Machine.advance`, `reach_schedule` : calls in turn;
* `Machine.either`, `Keeps.either` : calls of two kinds.
-/

namespace ATalk
namespace Callers

open Transition

variable {σ α τ φ ρ : Type}

/-- A kind of call: its start, one step of it at a time, and what it has returned. -/
structure Machine (σ α τ φ ρ : Type) where
  start : α → φ
  step : α → τ → σ → φ → σ × φ
  result : φ → Option ρ

/-- A store, and the calls begun on it with the place each has come to. -/
structure World (σ α φ : Type) where
  store : σ
  calls : List (α × φ)

inductive Action (σ α τ : Type) where
  | call (a : α)
  | advance (i : ℕ) (now : τ)
  | other (store : σ)

/-- The runs of any number of calls, on a store that also changes by `env`. -/
def callers (M : Machine σ α τ φ ρ) (init : σ → Prop) (env : σ → σ → Prop) :
    System (World σ α φ) (Action σ α τ) where
  init w := init w.store ∧ w.calls = []
  step w act w' :=
    match act with
    | .call a => w' = { w with calls := w.calls ++ [(a, M.start a)] }
    | .advance i now => ∃ a p, w.calls[i]? = some (a, p) ∧ M.result p = none ∧
        w' = ⟨(M.step a now w.store p).1, w.calls.set i (a, (M.step a now w.store p).2)⟩
    | .other store => env w.store store ∧ w' = { w with store := store }

/-- A condition on the step of a call, as one on the actions of a world. -/
def onAdvance (ok : α → τ → σ → φ → Prop) (w : World σ α φ) : Action σ α τ → Prop
  | .advance i now => ∀ a p, w.calls[i]? = some (a, p) → ok a now w.store p
  | _ => True

/-- No condition on the calls is none on the actions. -/
theorem onAdvance_true : (onAdvance fun (_ : α) (_ : τ) (_ : σ) (_ : φ) => True) =
    fun (_ : World σ α φ) (_ : Action σ α τ) => True := by
  funext w act
  cases act <;> simp [onAdvance]

/-- An invariant `I` of the store and one `J` of each call, where the store moves along a preorder
`R` that keeps `J`. -/
structure Machine.Keeps (M : Machine σ α τ φ ρ) (init : σ → Prop) (env : σ → σ → Prop)
    (ok : α → τ → σ → φ → Prop) (I : σ → Prop) (J : σ → α → φ → Prop) (R : σ → σ → Prop) :
    Prop where
  refl : ∀ s, R s s
  trans : ∀ s t u, R s t → R t u → R s u
  init : ∀ s, init s → I s
  env : ∀ s s', I s → env s s' → I s' ∧ R s s'
  start : ∀ s a, I s → J s a (M.start a)
  mono : ∀ s s' a p, R s s' → J s a p → J s' a p
  step : ∀ s a now p, I s → J s a p → M.result p = none → ok a now s p →
    I (M.step a now s p).1 ∧ J (M.step a now s p).1 a (M.step a now s p).2 ∧
      R s (M.step a now s p).1

section
variable {M : Machine σ α τ φ ρ} {init : σ → Prop} {env : σ → σ → Prop}
  {ok : α → τ → σ → φ → Prop} {I : σ → Prop} {J : σ → α → φ → Prop} {R : σ → σ → Prop}
  {w w' : World σ α φ}

/-- One action. -/
theorem Machine.Keeps.action (h : M.Keeps init env ok I J R) {act : Action σ α τ}
    (hw : I w.store ∧ ∀ c ∈ w.calls, J w.store c.1 c.2) (hok : onAdvance ok w act)
    (hstep : (callers M init env).step w act w') :
    (I w'.store ∧ ∀ c ∈ w'.calls, J w'.store c.1 c.2) ∧ R w.store w'.store := by
  obtain ⟨hI, hJ⟩ := hw
  cases act with
  | call a =>
    have hw' : w' = { w with calls := w.calls ++ [(a, M.start a)] } := hstep
    rw [hw']
    refine ⟨⟨hI, fun c hc => ?_⟩, h.refl _⟩
    rcases List.mem_append.mp hc with hc | hc
    · exact hJ c hc
    · rw [List.mem_singleton.mp hc]
      exact h.start _ _ hI
  | advance i now =>
    obtain ⟨a, p, hi, hnone, rfl⟩ := hstep
    have hJp : J w.store a p := hJ (a, p) (List.mem_of_getElem? hi)
    obtain ⟨hI', hJ', hR⟩ := h.step w.store a now p hI hJp hnone (hok a p hi)
    refine ⟨⟨hI', fun c hc => ?_⟩, hR⟩
    rcases List.mem_or_eq_of_mem_set hc with hc | rfl
    · exact h.mono _ _ _ _ hR (hJ c hc)
    · exact hJ'
  | other store =>
    obtain ⟨henv, rfl⟩ := hstep
    obtain ⟨hI', hR⟩ := h.env _ _ hI henv
    exact ⟨⟨hI', fun c hc => h.mono _ _ _ _ hR (hJ c hc)⟩, hR⟩

/-- Both invariants hold in every reached world. -/
theorem Machine.Keeps.reach (h : M.Keeps init env ok I J R)
    (hw : Reach (callers M init env) (onAdvance ok) w) :
    I w.store ∧ ∀ c ∈ w.calls, J w.store c.1 c.2 := by
  refine hw.invariant (fun s hs => ?_) fun s act s' hs hok hstep => (h.action hs hok hstep).1
  refine ⟨h.init _ hs.1, ?_⟩
  rw [hs.2]
  exact nofun

/-- The store moves along the preorder. -/
theorem Machine.Keeps.run (h : M.Keeps init env ok I J R)
    (hw : Reach (callers M init env) (onAdvance ok) w)
    (hrun : Run (callers M init env) (onAdvance ok) w w') : R w.store w'.store :=
  hw.rel (R := fun v v' => R v.store v'.store) (fun _ => h.refl _) (fun _ _ _ => h.trans _ _ _)
    (fun _ _ _ hs hok hstep => (h.action (h.reach hs) hok hstep).2) hrun

/-- The same from any world that has both invariants. -/
theorem Machine.Keeps.run_from (h : M.Keeps init env ok I J R)
    (hw : I w.store ∧ ∀ c ∈ w.calls, J w.store c.1 c.2)
    (hrun : Run (callers M init env) (onAdvance ok) w w') :
    (I w'.store ∧ ∀ c ∈ w'.calls, J w'.store c.1 c.2) ∧ R w.store w'.store := by
  induction hrun with
  | refl => exact ⟨hw, h.refl _⟩
  | tail _ hst ih =>
    obtain ⟨act, hok, hact⟩ := hst
    obtain ⟨hw', hR⟩ := h.action ih.1 hok hact
    exact ⟨hw', h.trans _ _ _ ih.2 hR⟩

/-- What holds of a call now and is kept by its own steps holds of it ever after. -/
theorem Machine.Keeps.call (h : M.Keeps init env ok I J R) {Q : φ → Prop} {i : ℕ} {a : α} {p : φ}
    (hw : Reach (callers M init env) (onAdvance ok) w) (hi : w.calls[i]? = some (a, p)) (hp : Q p)
    (hstep : ∀ s now p', I s → R w.store s → Q p' → M.result p' = none → Q (M.step a now s p').2)
    (hrun : Run (callers M init env) (onAdvance ok) w w') :
    ∃ p', w'.calls[i]? = some (a, p') ∧ Q p' := by
  induction hrun with
  | refl => exact ⟨p, hi, hp⟩
  | tail hpre hst ih =>
    obtain ⟨p', hi', hp'⟩ := ih
    obtain ⟨act, -, hact⟩ := hst
    cases act with
    | call b =>
      cases hact
      exact ⟨p', (List.getElem?_append_left (List.getElem?_eq_some_iff.mp hi').1).trans hi', hp'⟩
    | advance j now =>
      obtain ⟨b, q, hj, hnone, rfl⟩ := hact
      by_cases hij : j = i
      · subst hij
        cases hj.symm.trans hi'
        refine ⟨_, List.getElem?_set_self (List.getElem?_eq_some_iff.mp hj).1, ?_⟩
        exact hstep _ _ _ (h.reach (hw.run hpre)).1 (h.run hw hpre) hp' hnone
      · exact ⟨p', (List.getElem?_set_ne hij).trans hi', hp'⟩
    | other store =>
      obtain ⟨-, rfl⟩ := hact
      exact ⟨p', hi', hp'⟩

end

/-- An own step of a call: when it was made, from which place, and the store around it. -/
structure Visit (σ τ φ : Type) where
  now : τ
  phase : φ
  before : σ
  after : σ

/-- The machine that notes its own steps. -/
def Machine.logged (M : Machine σ α τ φ ρ) : Machine σ α τ (φ × List (Visit σ τ φ)) ρ where
  start a := (M.start a, [])
  step a now s q :=
    ((M.step a now s q.1).1, (M.step a now s q.1).2,
      q.2 ++ [⟨now, q.1, s, (M.step a now s q.1).1⟩])
  result q := M.result q.1

section
variable {M : Machine σ α τ φ ρ} {init : σ → Prop} {env : σ → σ → Prop}

/-- Beside the invariants of a machine, one of its calls that may look at what they noted. -/
theorem Machine.Keeps.logged {ok : α → τ → σ → φ → Prop} {I : σ → Prop} {J : σ → α → φ → Prop}
    {R : σ → σ → Prop} {ok' : α → τ → σ → φ × List (Visit σ τ φ) → Prop}
    {L : σ → α → φ × List (Visit σ τ φ) → Prop} (h : M.Keeps init env ok I J R)
    (hstart : ∀ s a, I s → L s a (M.start a, []))
    (hmono : ∀ s s' a q, R s s' → L s a q → L s' a q)
    (hok : ∀ s a now q, I s → J s a q.1 → L s a q → ok' a now s q → ok a now s q.1)
    (hstep : ∀ s a now q, I s → J s a q.1 → L s a q → M.result q.1 = none → ok' a now s q →
      R s (M.step a now s q.1).1 →
        L (M.step a now s q.1).1 a (M.logged.step a now s q).2) :
    M.logged.Keeps init env ok' I (fun s a q => J s a q.1 ∧ L s a q) R where
  refl := h.refl
  trans := h.trans
  init := h.init
  env := h.env
  start s a hI := ⟨h.start s a hI, hstart s a hI⟩
  mono s s' a q hR hq := ⟨h.mono s s' a q.1 hR hq.1, hmono s s' a q hR hq.2⟩
  step s a now q hI hq hnone hq' := by
    obtain ⟨hI', hJ', hR⟩ := h.step s a now q.1 hI hq.1 hnone (hok s a now q hI hq.1 hq.2 hq')
    exact ⟨hI', ⟨hJ', hstep s a now q hI hq.1 hq.2 hnone hq' hR⟩, hR⟩

/-- What holds of the store, and did not at the start, was brought about by a noted step of a call. -/
theorem Machine.brought_about {P : σ → Prop}
    {ok : World σ α (φ × List (Visit σ τ φ)) → Action σ α τ → Prop}
    {w : World σ α (φ × List (Visit σ τ φ))} (hinit : ∀ s, init s → ¬ P s)
    (henv : ∀ s s', env s s' → P s' → P s) (hw : Reach (callers M.logged init env) ok w)
    (hP : P w.store) : ∃ c ∈ w.calls, ∃ v ∈ c.2.2, ¬ P v.before ∧ P v.after := by
  refine hw.invariant (P := fun w => P w.store →
    ∃ c ∈ w.calls, ∃ v ∈ c.2.2, ¬ P v.before ∧ P v.after) (fun s hs hs' => ?_) ?_ hP
  · exact absurd hs' (hinit _ hs.1)
  intro s act s' ih _ hstep hs'
  cases act with
  | call a =>
    have heq : s' = { s with calls := s.calls ++ [(a, M.logged.start a)] } := hstep
    rw [heq] at hs' ⊢
    obtain ⟨c, hc, hv⟩ := ih hs'
    exact ⟨c, List.mem_append_left _ hc, hv⟩
  | advance i now =>
    obtain ⟨a, p, hi, -, rfl⟩ := hstep
    have hset : (a, (M.logged.step a now s.store p).2) ∈
        s.calls.set i (a, (M.logged.step a now s.store p).2) :=
      List.mem_set (List.getElem?_eq_some_iff.mp hi).1 _
    by_cases hbefore : P s.store
    · obtain ⟨c, hc, v, hv, hchanged⟩ := ih hbefore
      obtain ⟨j, hj, hget⟩ := List.getElem_of_mem hc
      by_cases hij : i = j
      · -- the noted step belongs to the call that has moved on, whose notes only grow
        subst hij
        have hsame : c = (a, p) := by
          rw [← hget]
          exact (List.getElem?_eq_some_iff.mp hi).2
        subst hsame
        exact ⟨_, hset, v, List.mem_append_left _ hv, hchanged⟩
      · refine ⟨c, List.mem_iff_getElem?.mpr ⟨j, ?_⟩, v, hv, hchanged⟩
        rw [List.getElem?_set_ne hij, List.getElem?_eq_getElem hj, hget]
    · exact ⟨_, hset, _, List.mem_append_right _ (List.mem_singleton_self _), hbefore, hs'⟩
  | other store =>
    obtain ⟨henv', rfl⟩ := hstep
    exact ih (henv _ _ henv' hs')

/-- Some steps of a call that nobody interrupts. -/
def Machine.steps (M : Machine σ α τ φ ρ) (a : α) (now : τ) : ℕ → σ × φ → σ × φ
  | 0, x => x
  | n + 1, x => M.step a now (M.steps a now n x).1 (M.steps a now n x).2

/-- Some steps of a call lead from one place to another. -/
def Machine.Leads (M : Machine σ α τ φ ρ) (a : α) (now : τ) (x y : σ × φ) : Prop :=
  ∃ n, M.steps a now n x = y

theorem Machine.Leads.refl (a : α) (now : τ) (x : σ × φ) : M.Leads a now x x := ⟨0, rfl⟩

theorem Machine.steps_succ (a : α) (now : τ) (n : ℕ) (x : σ × φ) :
    M.steps a now (n + 1) x = M.steps a now n (M.step a now x.1 x.2) := by
  induction n with
  | zero => rfl
  | succ n ih =>
    show M.step a now (M.steps a now (n + 1) x).1 (M.steps a now (n + 1) x).2 = _
    rw [ih]
    rfl

/-- One step, and those after it. -/
theorem Machine.Leads.step {a : α} {now : τ} {s : σ} {p : φ} {y : σ × φ}
    (h : M.Leads a now (M.step a now s p) y) : M.Leads a now (s, p) y := by
  obtain ⟨n, rfl⟩ := h
  exact ⟨n + 1, Machine.steps_succ a now n (s, p)⟩

/-- What every step keeps holds at their end. -/
theorem Machine.Leads.keeps {a : α} {now : τ} {x y : σ × φ} {I : σ → φ → Prop}
    (h : M.Leads a now x y) (hx : I x.1 x.2)
    (hstep : ∀ s p, I s p → I (M.step a now s p).1 (M.step a now s p).2) : I y.1 y.2 := by
  obtain ⟨n, rfl⟩ := h
  induction n with
  | zero => exact hx
  | succ n ih => exact hstep _ _ ih

/-- They are part of a run. -/
theorem reach_steps {s : σ} {a : α} {p : φ} (calls : List (α × φ)) (now : τ) (n : ℕ)
    (h : Reachable (callers M init env) ⟨s, calls ++ [(a, p)]⟩)
    (hnone : (List.range n).all (fun k => (M.result (M.steps a now k (s, p)).2).isNone) = true) :
    Reachable (callers M init env)
      ⟨(M.steps a now n (s, p)).1, calls ++ [(a, (M.steps a now n (s, p)).2)]⟩ := by
  induction n with
  | zero => exact h
  | succ n ih =>
    rw [List.range_succ, List.all_append, Bool.and_eq_true] at hnone
    have hlast : M.result (M.steps a now n (s, p)).2 = none := by simpa using hnone.2
    refine .step (a := .advance calls.length now) (ih hnone.1) trivial
      ⟨a, (M.steps a now n (s, p)).2, ?_, hlast, ?_⟩
    · simp
    · simp [Machine.steps]

/-- One step of one of the calls. -/
def Machine.advance (M : Machine σ α τ φ ρ) (now : τ) (w : World σ α φ) (i : ℕ) :
    Option (World σ α φ) :=
  match w.calls[i]? with
  | none => none
  | some (a, p) =>
    match M.result p with
    | some _ => none
    | none => some ⟨(M.step a now w.store p).1, w.calls.set i (a, (M.step a now w.store p).2)⟩

/-- A schedule of such steps is part of a run. -/
theorem reach_schedule (now : τ) (schedule : List ℕ) {w w' : World σ α φ}
    (h : Reachable (callers M init env) w)
    (hrun : schedule.foldlM (M.advance now) w = some w') :
    Reachable (callers M init env) w' := by
  induction schedule generalizing w with
  | nil =>
    cases hrun
    exact h
  | cons i schedule ih =>
    rw [List.foldlM_cons] at hrun
    obtain ⟨v, hv, hrest⟩ := Option.bind_eq_some_iff.mp hrun
    unfold Machine.advance at hv
    split at hv
    · cases hv
    · next a p hi =>
      split at hv
      · cases hv
      · next hnone =>
        cases hv
        exact ih (.step (a := .advance i now) h trivial ⟨a, p, hi, hnone, rfl⟩) hrest

end

/-- The machine on a store with a history: a step adds to it what it has brought about. -/
def Machine.recorded {ν : Type} (M : Machine σ α τ φ ρ) (note : σ → σ → List ν) :
    Machine (σ × List ν) α τ φ ρ where
  start := M.start
  step a now s p :=
    (((M.step a now s.1 p).1, s.2 ++ note s.1 (M.step a now s.1 p).1), (M.step a now s.1 p).2)
  result := M.result

/-! ## Two kinds of calls -/

section
variable {β ψ : Type}

/-- Calls of two kinds on one store. -/
def Machine.either (M : Machine σ α τ φ ρ) (N : Machine σ β τ ψ ρ) :
    Machine σ (α ⊕ β) τ (φ ⊕ ψ) ρ where
  start
    | .inl a => .inl (M.start a)
    | .inr b => .inr (N.start b)
  step
    | .inl a, now, s, .inl p => ((M.step a now s p).1, .inl (M.step a now s p).2)
    | .inr b, now, s, .inr q => ((N.step b now s q).1, .inr (N.step b now s q).2)
    | _, _, s, p => (s, p)
  result
    | .inl p => M.result p
    | .inr q => N.result q

/-- A condition on the steps of each kind. -/
def eitherOk (ok : α → τ → σ → φ → Prop) (ok' : β → τ → σ → ψ → Prop) :
    α ⊕ β → τ → σ → φ ⊕ ψ → Prop
  | .inl a, now, s, .inl p => ok a now s p
  | .inr b, now, s, .inr q => ok' b now s q
  | _, _, _, _ => True

/-- An invariant of the calls of each kind. -/
def eitherInv (J : σ → α → φ → Prop) (J' : σ → β → ψ → Prop) : σ → α ⊕ β → φ ⊕ ψ → Prop
  | s, .inl a, .inl p => J s a p
  | s, .inr b, .inr q => J' s b q
  | _, _, _ => False

/-- Two machines that keep an invariant of the store keep it side by side. -/
theorem Machine.Keeps.either {M : Machine σ α τ φ ρ} {N : Machine σ β τ ψ ρ} {init : σ → Prop}
    {env : σ → σ → Prop} {ok : α → τ → σ → φ → Prop} {ok' : β → τ → σ → ψ → Prop} {I : σ → Prop}
    {J : σ → α → φ → Prop} {J' : σ → β → ψ → Prop} {R : σ → σ → Prop}
    (h : M.Keeps init env ok I J R) (h' : N.Keeps init env ok' I J' R) :
    (M.either N).Keeps init env (eitherOk ok ok') I (eitherInv J J') R where
  refl := h.refl
  trans := h.trans
  init := h.init
  env := h.env
  start s a hI := by
    cases a with
    | inl a => exact h.start s a hI
    | inr b => exact h'.start s b hI
  mono s s' a p hR hJ := by
    match a, p, hJ with
    | .inl a, .inl p, hJ => exact h.mono s s' a p hR hJ
    | .inr b, .inr q, hJ => exact h'.mono s s' b q hR hJ
  step s a now p hI hJ hnone hok := by
    match a, p, hJ, hnone, hok with
    | .inl a, .inl p, hJ, hnone, hok => exact h.step s a now p hI hJ hnone hok
    | .inr b, .inr q, hJ, hnone, hok => exact h'.step s b now q hI hJ hnone hok

end

end Callers
end ATalk
