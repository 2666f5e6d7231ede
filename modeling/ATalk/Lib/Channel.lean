import ATalk.Lib.Transition
import Mathlib.Data.Set.Insert

/-!
# A channel that delivers at most once

Messages are posted under a key, at most one under each. What arrives is what was posted, once for
each key; and a key is closed at the sender, as confirmed when its message has arrived, or as given
up when the sender has stopped trying. It is never both.

* `Channel`, `channel` : the states and the steps;
* `Channel.Sound`      : what holds in every state;
* `Channel.Later`      : what is said of a key is said of it ever after;
* `arrives_once`       : in a run a key arrives at most once.
-/

namespace ATalk
namespace Transition

variable {κ μ : Type}

/-- The messages posted and arrived, with their keys, and the keys that are closed. -/
@[ext] structure Channel (κ μ : Type) where
  posted : Set (κ × μ)
  arrived : Set (κ × μ)
  confirmed : Set κ
  givenUp : Set κ

inductive Channel.Event (κ μ : Type) where
  | post (k : κ) (m : μ)
  | arrive (k : κ) (m : μ)
  | confirm (k : κ)
  | giveUp (k : κ)

/-- The key is open at the sender. -/
def Channel.Open (c : Channel κ μ) (k : κ) : Prop := k ∉ c.confirmed ∧ k ∉ c.givenUp

inductive Channel.Step (c : Channel κ μ) : Channel.Event κ μ → Channel κ μ → Prop where
  | post {k : κ} {m : μ} (hnew : ∀ m', (k, m') ∉ c.posted) :
      Channel.Step c (.post k m) { c with posted := insert (k, m) c.posted }
  | arrive {k : κ} {m : μ} (hposted : (k, m) ∈ c.posted) (hnew : ∀ m', (k, m') ∉ c.arrived) :
      Channel.Step c (.arrive k m) { c with arrived := insert (k, m) c.arrived }
  | confirm {k : κ} {m : μ} (harrived : (k, m) ∈ c.arrived) (hopen : c.Open k) :
      Channel.Step c (.confirm k) { c with confirmed := insert k c.confirmed }
  | giveUp {k : κ} {m : μ} (hposted : (k, m) ∈ c.posted) (hopen : c.Open k) :
      Channel.Step c (.giveUp k) { c with givenUp := insert k c.givenUp }

def channel (κ μ : Type) : System (Channel κ μ) (Channel.Event κ μ) where
  init c := c = ⟨∅, ∅, ∅, ∅⟩
  step := Channel.Step

/-! ## What holds in every state -/

structure Channel.Sound (c : Channel κ μ) : Prop where
  single : ∀ k m m', (k, m) ∈ c.posted → (k, m') ∈ c.posted → m = m'
  arrived : c.arrived ⊆ c.posted
  confirmed : ∀ k ∈ c.confirmed, ∃ m, (k, m) ∈ c.arrived
  givenUp : ∀ k ∈ c.givenUp, ∃ m, (k, m) ∈ c.posted
  apart : ∀ k ∈ c.confirmed, k ∉ c.givenUp

variable {c c' c'' : Channel κ μ} {e : Channel.Event κ μ} {k : κ} {m : μ}

theorem Channel.Sound.step (h : c.Sound) (hstep : (channel κ μ).step c e c') : c'.Sound := by
  cases hstep with
  | post hnew =>
    refine ⟨?_, fun x hx => .inr (h.arrived hx), h.confirmed, fun k hk => ?_, h.apart⟩
    · rintro k₁ m₁ m₂ (h₁ | h₁) (h₂ | h₂)
      · exact (Prod.mk.inj (h₁.trans h₂.symm)).2
      · obtain ⟨rfl, rfl⟩ := Prod.mk.inj h₁
        exact absurd h₂ (hnew m₂)
      · obtain ⟨rfl, rfl⟩ := Prod.mk.inj h₂
        exact absurd h₁ (hnew m₁)
      · exact h.single k₁ m₁ m₂ h₁ h₂
    · obtain ⟨m, hm⟩ := h.givenUp k hk
      exact ⟨m, .inr hm⟩
  | arrive hposted hnew =>
    refine ⟨h.single, ?_, fun k hk => ?_, h.givenUp, h.apart⟩
    · rintro x (rfl | hx)
      · exact hposted
      · exact h.arrived hx
    · obtain ⟨m, hm⟩ := h.confirmed k hk
      exact ⟨m, .inr hm⟩
  | confirm harrived hopen =>
    refine ⟨h.single, h.arrived, ?_, h.givenUp, ?_⟩
    · rintro k (rfl | hk)
      · exact ⟨_, harrived⟩
      · exact h.confirmed k hk
    · rintro k (rfl | hk)
      · exact hopen.2
      · exact h.apart k hk
  | giveUp hposted hopen =>
    refine ⟨h.single, h.arrived, h.confirmed, ?_, ?_⟩
    · rintro k (rfl | hk)
      · exact ⟨_, hposted⟩
      · exact h.givenUp k hk
    · rintro k hk (rfl | hgiven)
      · exact hopen.1 hk
      · exact h.apart k hk hgiven

theorem Channel.sound_of_reach (h : Reachable (channel κ μ) c) : c.Sound := by
  refine h.invariant (fun s hs => ?_) fun s e s' hs _ hstep => hs.step hstep
  rw [show s = ⟨∅, ∅, ∅, ∅⟩ from hs]
  exact ⟨fun _ _ _ h => absurd h (Set.notMem_empty _), Set.empty_subset _,
    fun _ h => absurd h (Set.notMem_empty _), fun _ h => absurd h (Set.notMem_empty _),
    fun _ h => absurd h (Set.notMem_empty _)⟩

/-! ## What stays -/

structure Channel.Later (c c' : Channel κ μ) : Prop where
  posted : c.posted ⊆ c'.posted
  arrived : c.arrived ⊆ c'.arrived
  confirmed : c.confirmed ⊆ c'.confirmed
  givenUp : c.givenUp ⊆ c'.givenUp

theorem Channel.Later.refl (c : Channel κ μ) : c.Later c :=
  ⟨subset_rfl, subset_rfl, subset_rfl, subset_rfl⟩

theorem Channel.Later.trans (h : c.Later c') (h' : c'.Later c'') : c.Later c'' :=
  ⟨h.posted.trans h'.posted, h.arrived.trans h'.arrived, h.confirmed.trans h'.confirmed,
    h.givenUp.trans h'.givenUp⟩

theorem Channel.Later.of_step (h : (channel κ μ).step c e c') : c.Later c' := by
  cases h with
  | post => exact ⟨Set.subset_insert _ _, subset_rfl, subset_rfl, subset_rfl⟩
  | arrive => exact ⟨subset_rfl, Set.subset_insert _ _, subset_rfl, subset_rfl⟩
  | confirm => exact ⟨subset_rfl, subset_rfl, Set.subset_insert _ _, subset_rfl⟩
  | giveUp => exact ⟨subset_rfl, subset_rfl, subset_rfl, Set.subset_insert _ _⟩

theorem Channel.later_of_trace {tr : List (Channel.Event κ μ)} (h : Trace (channel κ μ) c tr c') :
    c.Later c' := by
  induction h with
  | nil => exact .refl c
  | snoc _ hstep ih => exact ih.trans (.of_step hstep)

/-- The key arrives in the step. -/
def Channel.Event.Arrives (k : κ) : Channel.Event κ μ → Prop
  | .arrive k' _ => k' = k
  | _ => False

/-- A message that has arrived does not arrive again. -/
theorem Channel.not_arrives {tr : List (Channel.Event κ μ)} (h : Trace (channel κ μ) c tr c')
    (harrived : (k, m) ∈ c.arrived) : ∀ e ∈ tr, ¬ e.Arrives k := by
  induction h with
  | nil => exact List.forall_mem_nil _
  | snoc htrace hstep ih =>
    refine List.forall_mem_append.mpr ⟨ih, List.forall_mem_singleton.mpr fun he => ?_⟩
    have hthere := (Channel.later_of_trace htrace).arrived harrived
    cases hstep with
    | arrive hposted hnew =>
      subst he
      exact hnew m hthere
    | _ => exact he

/-- In a run a key arrives at most once. -/
theorem Channel.arrives_once {pre post : List (Channel.Event κ μ)}
    (h : Trace (channel κ μ) c (pre ++ e :: post) c') (he : e.Arrives k) :
    ∀ e' ∈ post, ¬ e'.Arrives k := by
  obtain ⟨t, t', -, hstep, hpost⟩ := h.split
  cases hstep with
  | arrive hposted hnew =>
    subst he
    exact Channel.not_arrives hpost (.inl rfl)
  | _ => exact absurd he id

end Transition
end ATalk
