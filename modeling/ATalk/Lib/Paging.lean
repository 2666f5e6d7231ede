import Mathlib.Data.Finset.Card
import Mathlib.Algebra.Order.BigOperators.Group.Finset
import Mathlib.Order.Interval.Finset.Nat

/-!
# Service by pages

In every round some of the waiting keys are due, and the first few of these in their order are
served. A due key that is left over stays due. Nobody starves as long as no key that was served
comes due again in front of one that has waited since before.

* `Rounds` : the due keys and the pages of all rounds;
* `Rounds.Overtakes` : a served key that is due again in front of one that waits;
* `Rounds.served` : without it every due key is served before the pages could hold more than all
  keys.
-/

namespace ATalk
namespace Paging

variable {κ : Type} [LinearOrder κ]

/-- What is due and what is served in each round. -/
structure Rounds (κ : Type) [LinearOrder κ] (limit : ℕ) where
  due : ℕ → Finset κ
  page : ℕ → Finset κ
  page_subset : ∀ n, page n ⊆ due n
  /-- A page that leaves a key out is full, and its keys are smaller. -/
  full : ∀ n k, k ∈ due n → k ∉ page n → limit ≤ (page n).card ∧ ∀ j ∈ page n, j < k
  waits : ∀ n k, k ∈ due n → k ∉ page n → k ∈ due (n + 1)

variable {limit : ℕ} (r : Rounds κ limit)

namespace Rounds

/-- In round `n`, a key served in an earlier round since `first` is due in front of one that has
waited since. -/
def Overtakes (first n : ℕ) (j k : κ) : Prop :=
  j < k ∧ j ∈ r.due n ∧ (∃ i, first ≤ i ∧ i < n ∧ j ∈ r.page i) ∧
    ∀ i, first ≤ i → i < n → k ∈ r.due i ∧ k ∉ r.page i

variable {r}

/-- A key that is not served stays due. -/
theorem due_of_not_served {first n : ℕ} {k : κ} (hdue : k ∈ r.due first) (hn : first ≤ n)
    (h : ∀ i, first ≤ i → i < n → k ∉ r.page i) : k ∈ r.due n := by
  induction n, hn using Nat.le_induction with
  | base => exact hdue
  | succ n hn ih =>
    have hlast : k ∈ r.due n := ih fun i hi hin => h i hi (Nat.lt_succ_of_lt hin)
    exact r.waits n k hlast (h n hn (Nat.lt_succ_self n))

/-- The pages that a waiting key sees are disjoint. -/
theorem disjoint_pages {first last : ℕ} {k : κ} (hdue : k ∈ r.due first)
    (hwait : ∀ i, first ≤ i → i < last → k ∉ r.page i)
    (hfair : ∀ n j, n < last → ¬ r.Overtakes first n j k) {i n : ℕ} (hi : first ≤ i) (hin : i < n)
    (hn : n < last) : Disjoint (r.page i) (r.page n) := by
  have hwaits : ∀ m, first ≤ m → m < last → k ∈ r.due m := fun m hm hml =>
    due_of_not_served hdue hm fun i hi him => hwait i hi (him.trans hml)
  rw [Finset.disjoint_left]
  intro j hj hj'
  refine hfair n j hn ⟨?_, r.page_subset n hj', ⟨i, hi, hin, hj⟩, fun m hm hmn => ?_⟩
  · exact (r.full i k (hwaits i hi (hin.trans hn)) (hwait i hi (hin.trans hn))).2 j hj
  · exact ⟨hwaits m hm (hmn.trans hn), hwait m hm (hmn.trans hn)⟩

/-- Every due key is served while the pages have room for all keys. -/
theorem served {keys : Finset κ} {first rounds : ℕ} {k : κ} (hdue : k ∈ r.due first)
    (hkeys : ∀ n, first ≤ n → n < first + rounds → r.due n ⊆ keys)
    (hroom : keys.card ≤ limit * rounds) (hrounds : 0 < rounds)
    (hfair : ∀ n j, n < first + rounds → ¬ r.Overtakes first n j k) :
    ∃ n, first ≤ n ∧ n < first + rounds ∧ k ∈ r.page n := by
  by_contra hnever
  push Not at hnever
  have hwaits : ∀ n, first ≤ n → n < first + rounds → k ∈ r.due n := fun n hn hlast =>
    due_of_not_served hdue hn fun i hi hin => hnever i hi (hin.trans hlast)
  let window := Finset.Ico first (first + rounds)
  have hdisjoint : (window : Set ℕ).PairwiseDisjoint r.page := by
    intro i hi n hn hne
    obtain ⟨hi, hil⟩ := Finset.mem_Ico.mp hi
    obtain ⟨hn, hnl⟩ := Finset.mem_Ico.mp hn
    rcases Nat.lt_or_gt_of_ne hne with hlt | hgt
    · exact disjoint_pages hdue hnever hfair hi hlt hnl
    · exact (disjoint_pages hdue hnever hfair hn hgt hil).symm
  have hfull : limit * rounds ≤ (window.biUnion r.page).card := by
    rw [Finset.card_biUnion hdisjoint]
    have hsum : ∑ _ ∈ window, limit ≤ ∑ n ∈ window, (r.page n).card := by
      refine Finset.sum_le_sum fun n hn => ?_
      obtain ⟨hn, hlast⟩ := Finset.mem_Ico.mp hn
      exact (r.full n k (hwaits n hn hlast) (hnever n hn hlast)).1
    rw [Finset.sum_const_nat fun _ _ => rfl, Nat.card_Ico, Nat.add_sub_cancel_left,
      Nat.mul_comm] at hsum
    exact hsum
  -- the waiting key is one more
  have hnew : k ∉ window.biUnion r.page := by
    rw [Finset.mem_biUnion]
    rintro ⟨n, hn, hk⟩
    obtain ⟨hn, hlast⟩ := Finset.mem_Ico.mp hn
    exact hnever n hn hlast hk
  have hall : insert k (window.biUnion r.page) ⊆ keys := by
    refine Finset.insert_subset (hkeys first (Nat.le_refl _) (by omega) hdue) ?_
    refine Finset.biUnion_subset.mpr fun n hn => ?_
    obtain ⟨hn, hlast⟩ := Finset.mem_Ico.mp hn
    exact (r.page_subset n).trans (hkeys n hn hlast)
  have hcard := Finset.card_le_card hall
  rw [Finset.card_insert_of_notMem hnew] at hcard
  omega

end Rounds

end Paging
end ATalk
