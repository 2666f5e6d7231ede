import Mathlib.Logic.Relation

/-!
# Transition systems

States, labelled steps, and the states that runs reach when every step meets a condition. An
invariant is proved once for the start and once for a step.

* `Reach` : the states of the runs whose steps all meet a condition;
* `Reach.invariant`, `Reach.invariant_of` : the induction over a run, and the one that may use an
  invariant already proved;
* `Reach.mono` : a weaker condition reaches more;
* `Trace` : a run and the labels of its steps;
* `Run` : what a state can become, `Reach.rel` : a preorder that every step follows, every run does.
-/

namespace ATalk
namespace Transition

variable {σ α : Type}

structure System (σ α : Type) where
  init : σ → Prop
  step : σ → α → σ → Prop

/-- The states reached by steps that all meet `ok`. -/
inductive Reach (S : System σ α) (ok : σ → α → Prop) : σ → Prop where
  | init {s : σ} : S.init s → Reach S ok s
  | step {s s' : σ} {a : α} : Reach S ok s → ok s a → S.step s a s' → Reach S ok s'

/-- No condition on the steps. -/
abbrev Reachable (S : System σ α) : σ → Prop := Reach S fun _ _ => True

variable {S : System σ α} {ok ok' : σ → α → Prop} {P Q : σ → Prop}

theorem Reach.mono (h : ∀ s a, ok s a → ok' s a) {s : σ} (hs : Reach S ok s) : Reach S ok' s := by
  induction hs with
  | init hi => exact .init hi
  | step _ ha hstep ih => exact .step ih (h _ _ ha) hstep

theorem Reach.reachable {s : σ} (hs : Reach S ok s) : Reachable S s :=
  hs.mono fun _ _ _ => trivial

/-- What holds at the start and is kept by every step holds in every reached state. -/
theorem Reach.invariant (hinit : ∀ s, S.init s → P s)
    (hstep : ∀ s a s', P s → ok s a → S.step s a s' → P s') {s : σ} (hs : Reach S ok s) : P s := by
  induction hs with
  | init hi => exact hinit _ hi
  | step _ ha hst ih => exact hstep _ _ _ ih ha hst

/-- The same, with an invariant already known. -/
theorem Reach.invariant_of (hQ : ∀ s, Reach S ok s → Q s) (hinit : ∀ s, S.init s → P s)
    (hstep : ∀ s a s', Q s → P s → ok s a → S.step s a s' → P s') {s : σ} (hs : Reach S ok s) :
    P s := by
  induction hs with
  | init hi => exact hinit _ hi
  | step hr ha hst ih => exact hstep _ _ _ (hQ _ hr) ih ha hst

/-- One step that meets the condition, whatever its label. -/
def Step (S : System σ α) (ok : σ → α → Prop) (s s' : σ) : Prop := ∃ a, ok s a ∧ S.step s a s'

/-- The states that a run leads to from a state. -/
abbrev Run (S : System σ α) (ok : σ → α → Prop) : σ → σ → Prop := Relation.ReflTransGen (Step S ok)

theorem Reach.run {s s' : σ} (hs : Reach S ok s) (h : Run S ok s s') : Reach S ok s' := by
  induction h with
  | refl => exact hs
  | tail _ hstep ih =>
    obtain ⟨a, ha, hst⟩ := hstep
    exact .step ih ha hst

theorem Run.mono (h : ∀ s a, ok s a → ok' s a) {s s' : σ} (hrun : Run S ok s s') :
    Run S ok' s s' := by
  induction hrun with
  | refl => exact .refl
  | tail _ hstep ih =>
    obtain ⟨a, ha, hst⟩ := hstep
    exact ih.tail ⟨a, h _ _ ha, hst⟩

/-- What relates the states before and after every step from a reached state relates the states
before and after every run. -/
theorem Reach.rel {R : σ → σ → Prop} (hrefl : ∀ s, R s s) (htrans : ∀ s t u, R s t → R t u → R s u)
    (hstep : ∀ s a s', Reach S ok s → ok s a → S.step s a s' → R s s') {s s' : σ}
    (hs : Reach S ok s) (h : Run S ok s s') : R s s' := by
  induction h with
  | refl => exact hrefl _
  | tail hrun hst ih =>
    obtain ⟨a, ha, hst⟩ := hst
    exact htrans _ _ _ ih (hstep _ _ _ (hs.run hrun) ha hst)

/-! ## Traces -/

/-- A run that meets no condition, with the labels of its steps in order. -/
inductive Trace (S : System σ α) (s : σ) : List α → σ → Prop where
  | nil : Trace S s [] s
  | snoc {as : List α} {a : α} {t u : σ} : Trace S s as t → S.step t a u → Trace S s (as ++ [a]) u

variable {s t u : σ} {as bs : List α}

theorem Trace.reachable (hs : Reachable S s) (h : Trace S s as t) : Reachable S t := by
  induction h with
  | nil => exact hs
  | snoc _ hstep ih => exact .step ih trivial hstep

theorem Trace.append (h : Trace S s as t) (h' : Trace S t bs u) : Trace S s (as ++ bs) u := by
  induction h' with
  | nil =>
    rw [List.append_nil]
    exact h
  | snoc _ hstep ih =>
    rw [← List.append_assoc]
    exact .snoc ih hstep

/-- The first steps of a run, the one after them, and the rest. -/
theorem Trace.split {a : α} (h : Trace S s (as ++ a :: bs) u) :
    ∃ t t', Trace S s as t ∧ S.step t a t' ∧ Trace S t' bs u := by
  generalize htrace : as ++ a :: bs = cs at h
  induction h generalizing bs with
  | nil => simp at htrace
  | @snoc ds d v w hrun hstep ih =>
    rcases List.eq_nil_or_concat bs with rfl | ⟨bs', b, rfl⟩
    · obtain ⟨rfl, hd⟩ := List.append_inj' htrace rfl
      cases hd
      exact ⟨v, w, hrun, hstep, .nil⟩
    · rw [List.concat_eq_append] at htrace ⊢
      rw [← List.cons_append, ← List.append_assoc] at htrace
      obtain ⟨hds, hd⟩ := List.append_inj' htrace rfl
      cases hd
      obtain ⟨t, t', hfirst, hone, hrest⟩ := ih hds
      exact ⟨t, t', hfirst, hone, .snoc hrest hstep⟩

/-- What holds of the empty run and is kept by every step holds of every run. -/
theorem Trace.invariant {P : List α → σ → Prop} (hs : Reachable S s) (hnil : P [] s)
    (hstep : ∀ as a t u, Reachable S t → P as t → S.step t a u → P (as ++ [a]) u)
    (h : Trace S s as t) : P as t := by
  induction h with
  | nil => exact hnil
  | snoc hrun hst ih => exact hstep _ _ _ _ (hrun.reachable hs) ih hst

/-- What relates the states around every step from a reached state relates the ends of every run. -/
theorem Trace.rel {R : σ → σ → Prop} (hrefl : ∀ s, R s s) (htrans : ∀ s t u, R s t → R t u → R s u)
    (hstep : ∀ s a s', Reachable S s → S.step s a s' → R s s') (hs : Reachable S s)
    (h : Trace S s as t) : R s t :=
  h.invariant (P := fun _ => R s) hs (hrefl s) fun _ _ _ _ hreach hR hst =>
    htrans _ _ _ hR (hstep _ _ _ hreach hst)

/-! ## Simulation -/

/-- A system whose steps are runs of another one, under a view of its states. -/
structure Simulates {τ β : Type} (S : System σ α) (ok : σ → α → Prop) (T : System τ β)
    (view : σ → τ) : Prop where
  init : ∀ s, S.init s → T.init (view s)
  step : ∀ s a s', Reach S ok s → ok s a → S.step s a s' → ∃ bs, Trace T (view s) bs (view s')

section
variable {τ β : Type} {T : System τ β} {view : σ → τ}

theorem Simulates.reach (h : Simulates S ok T view) {s : σ} (hs : Reach S ok s) :
    Reachable T (view s) := by
  induction hs with
  | init hinit => exact .init (h.init _ hinit)
  | step hs hok hstep ih =>
    obtain ⟨bs, htrace⟩ := h.step _ _ _ hs hok hstep
    exact htrace.reachable ih

theorem Simulates.run (h : Simulates S ok T view) {s s' : σ} (hs : Reach S ok s)
    (hrun : Run S ok s s') : ∃ bs, Trace T (view s) bs (view s') := by
  induction hrun with
  | refl => exact ⟨[], .nil⟩
  | tail hrun hstep ih =>
    obtain ⟨bs, htrace⟩ := ih
    obtain ⟨a, hok, hstep⟩ := hstep
    obtain ⟨bs', htrace'⟩ := h.step _ _ _ (hs.run hrun) hok hstep
    exact ⟨bs ++ bs', htrace.append htrace'⟩

end

end Transition
end ATalk
