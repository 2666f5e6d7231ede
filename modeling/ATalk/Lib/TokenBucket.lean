import Mathlib.Algebra.Order.Field.Basic
import Mathlib.Tactic.Linarith
import Mathlib.Tactic.Ring
import Mathlib.Data.List.Infix

/-!
# Token buckets

A bucket holds tokens up to its capacity, and is refilled at a constant rate. A call takes a token,
or is refused when there is none.

* `Bucket`, `Bucket.allow`, `Bucket.run` : a bucket, a call of it, and a sequence of calls;
* `Bucket.Sound` : the tokens are within the capacity, and stay there;
* `grantsIn_run_le` : no window has more grants than the capacity and what is refilled in it;
* `Bucket.refused_run` : a call is refused only where a grant would break this for a window.
-/

namespace ATalk
namespace TokenBucket

variable {K : Type}

/-! ## Logs -/

section
variable {s t u : K} {g : Bool} {log : List (K × Bool)}

/-- The grants of a log. -/
def grants (log : List (K × Bool)) : ℕ := log.countP fun call => call.2

@[simp] theorem grants_nil : grants ([] : List (K × Bool)) = 0 := rfl

theorem grants_append (log log' : List (K × Bool)) :
    grants (log ++ log') = grants log + grants log' := List.countP_append

theorem grants_cons : grants ((u, g) :: log) = grants log + g.toNat := by
  unfold grants
  cases g with
  | true => exact List.countP_cons_of_pos rfl
  | false => exact List.countP_cons_of_neg Bool.false_ne_true

theorem grants_singleton : grants [(u, g)] = g.toNat := by
  rw [grants_cons, grants_nil, Nat.zero_add]

variable [LinearOrder K]

/-- The grants of a log in a window. -/
def grantsIn (s t : K) (log : List (K × Bool)) : ℕ :=
  log.countP fun call => call.2 && decide (s ≤ call.1) && decide (call.1 ≤ t)

@[simp] theorem grantsIn_nil : grantsIn s t ([] : List (K × Bool)) = 0 := rfl

theorem grantsIn_cons_of_mem (hs : s ≤ u) (ht : u ≤ t) :
    grantsIn s t ((u, g) :: log) = grantsIn s t log + g.toNat := by
  unfold grantsIn
  cases g with
  | true => exact List.countP_cons_of_pos (by simp [hs, ht])
  | false => exact List.countP_cons_of_neg (by simp)

theorem grantsIn_cons_of_not_mem (h : ¬ (s ≤ u ∧ u ≤ t)) :
    grantsIn s t ((u, g) :: log) = grantsIn s t log := by
  unfold grantsIn
  refine List.countP_cons_of_neg ?_
  simp only [Bool.and_eq_true, decide_eq_true_eq]
  exact fun hin => h ⟨hin.1.2, hin.2⟩

/-- A window that a log does not reach. -/
theorem grantsIn_eq_zero (h : ∀ call ∈ log, t < call.1) : grantsIn s t log = 0 := by
  refine List.countP_eq_zero.mpr fun call hcall => ?_
  simp only [Bool.and_eq_true, decide_eq_true_eq]
  exact fun hin => absurd hin.2 (not_le.mpr (h call hcall))

/-- The grants of an end of a log that lies in the window. -/
theorem grants_le_grantsIn {later : List (K × Bool)} (hsuffix : later <:+ log)
    (h : ∀ call ∈ later, s ≤ call.1 ∧ call.1 ≤ t) : grants later ≤ grantsIn s t log := by
  have hall : grants later = grantsIn s t later := by
    refine List.countP_congr fun call hcall => ?_
    simp [(h call hcall).1, (h call hcall).2]
  rw [hall]
  exact List.Sublist.countP_le hsuffix.sublist

end

/-! ## Buckets -/

variable [Field K] [LinearOrder K]

/-- A bucket, with the time of its last call. -/
structure Bucket (K : Type) where
  capacity : K
  refill : K
  tokens : K
  updated : K

namespace Bucket

/-- The tokens at a time. -/
def level (b : Bucket K) (now : K) : K := min b.capacity (b.tokens + (now - b.updated) * b.refill)

/-- A call. -/
def allow (b : Bucket K) (now : K) : Bool × Bucket K :=
  if 1 ≤ b.level now then (true, { b with tokens := b.level now - 1, updated := now })
  else (false, { b with tokens := b.level now, updated := now })

/-- The calls at the given times, with their results. -/
def run (b : Bucket K) : List K → List (K × Bool)
  | [] => []
  | now :: times => (now, (b.allow now).1) :: run (b.allow now).2 times

/-- The bucket after the calls. -/
def after (b : Bucket K) : List K → Bucket K
  | [] => b
  | now :: times => after (b.allow now).2 times

/-- A bucket with a capacity for one call at least. -/
structure Sound (b : Bucket K) : Prop where
  capacity : 1 ≤ b.capacity
  refill : 0 ≤ b.refill
  nonneg : 0 ≤ b.tokens
  le : b.tokens ≤ b.capacity

end Bucket

/-! ## One call -/

section
variable {b : Bucket K} {now : K}

theorem Bucket.allow_fst : (b.allow now).1 = decide (1 ≤ b.level now) := by
  unfold allow
  split_ifs with h
  · exact (decide_eq_true h).symm
  · exact (decide_eq_false h).symm

/-- The tokens that a call leaves. -/
theorem Bucket.allow_tokens :
    (b.allow now).2.tokens = b.level now - ((b.allow now).1.toNat : K) := by
  unfold allow
  split_ifs <;> simp

@[simp] theorem Bucket.allow_updated : (b.allow now).2.updated = now := by
  unfold allow
  split_ifs <;> rfl

@[simp] theorem Bucket.allow_capacity : (b.allow now).2.capacity = b.capacity := by
  unfold allow
  split_ifs <;> rfl

@[simp] theorem Bucket.allow_refill : (b.allow now).2.refill = b.refill := by
  unfold allow
  split_ifs <;> rfl

/-! ## Runs -/

variable {times : List K}

/-- The times of the calls do not decrease. -/
def Bucket.Timed (b : Bucket K) (times : List K) : Prop := (b.updated :: times).Pairwise (· ≤ ·)

theorem Bucket.Timed.cons (h : b.Timed (now :: times)) :
    b.updated ≤ now ∧ (b.allow now).2.Timed times ∧ ∀ later ∈ times, now ≤ later := by
  have hall := List.pairwise_cons.mp h
  have hrest := List.pairwise_cons.mp hall.2
  refine ⟨hall.1 now List.mem_cons_self, ?_, hrest.1⟩
  unfold Timed
  rw [allow_updated]
  exact hall.2

theorem Bucket.run_times (b : Bucket K) (times : List K) : (b.run times).map (·.1) = times := by
  induction times generalizing b with
  | nil => rfl
  | cons now times ih => exact congrArg (now :: ·) (ih _)

theorem Bucket.mem_run {call : K × Bool} (h : call ∈ b.run times) : call.1 ∈ times := by
  rw [← run_times b times]
  exact List.mem_map_of_mem h

theorem Bucket.run_append (b : Bucket K) (times more : List K) :
    b.run (times ++ more) = b.run times ++ (b.after times).run more := by
  induction times generalizing b with
  | nil => rfl
  | cons now times ih => exact congrArg (_ :: ·) (ih _)

theorem Bucket.after_capacity (b : Bucket K) (times : List K) :
    (b.after times).capacity = b.capacity := by
  induction times generalizing b with
  | nil => rfl
  | cons now times ih => exact (ih _).trans allow_capacity

theorem Bucket.after_refill (b : Bucket K) (times : List K) :
    (b.after times).refill = b.refill := by
  induction times generalizing b with
  | nil => rfl
  | cons now times ih => exact (ih _).trans allow_refill

end

variable [IsStrictOrderedRing K] {b : Bucket K} {now s t : K} {times : List K}

namespace Bucket.Sound

theorem level_nonneg (h : b.Sound) (hnow : b.updated ≤ now) : 0 ≤ b.level now := by
  have hcapacity := h.capacity
  have hrefill : 0 ≤ (now - b.updated) * b.refill := mul_nonneg (by linarith) h.refill
  have hnonneg := h.nonneg
  exact le_min (by linarith) (by linarith)

/-- One call. -/
theorem allow (h : b.Sound) (hnow : b.updated ≤ now) : (b.allow now).2.Sound := by
  have hlevel := h.level_nonneg hnow
  have hle : b.level now ≤ b.capacity := min_le_left _ _
  refine ⟨?_, ?_, ?_, ?_⟩
  · rw [allow_capacity]
    exact h.capacity
  · rw [allow_refill]
    exact h.refill
  · unfold Bucket.allow
    split_ifs with hone
    · show 0 ≤ b.level now - 1
      linarith
    · exact hlevel
  · rw [allow_capacity]
    unfold Bucket.allow
    split_ifs with hone
    · show b.level now - 1 ≤ b.capacity
      linarith
    · exact hle

end Bucket.Sound

/-! ## The bound -/

/-- A bucket stays sound. -/
theorem Bucket.Sound.after (h : b.Sound) (htimes : b.Timed times) : (b.after times).Sound := by
  induction times generalizing b with
  | nil => exact h
  | cons now times ih =>
    obtain ⟨hnow, hrest, -⟩ := htimes.cons
    exact ih (h.allow hnow) hrest

/-- The grants up to a time are paid from the tokens and from what is refilled until then. -/
theorem Bucket.Sound.grants_le (h : b.Sound) (htimes : b.Timed times) (ht : b.updated ≤ t) :
    (grantsIn b.updated t (b.run times) : K) ≤ b.tokens + (t - b.updated) * b.refill := by
  induction times generalizing b with
  | nil =>
    have hnonneg := h.nonneg
    have hrefill : 0 ≤ (t - b.updated) * b.refill := mul_nonneg (by linarith) h.refill
    show ((0 : ℕ) : K) ≤ _
    rw [Nat.cast_zero]
    linarith
  | cons now times ih =>
    obtain ⟨hnow, hrest, hlater⟩ := htimes.cons
    by_cases hin : now ≤ t
    · have hih := ih (h.allow hnow) hrest (by rw [allow_updated]; exact hin)
      rw [allow_updated, allow_refill, allow_tokens] at hih
      have hlevel : b.level now ≤ b.tokens + (now - b.updated) * b.refill := min_le_right _ _
      have hsame : grantsIn b.updated t ((b.allow now).2.run times) =
          grantsIn now t ((b.allow now).2.run times) := by
        refine List.countP_congr fun call hcall => ?_
        have hge := hlater call.1 (mem_run hcall)
        simp [hge, hnow.trans hge]
      rw [run, grantsIn_cons_of_mem hnow hin, hsame, Nat.cast_add]
      calc (grantsIn now t ((b.allow now).2.run times) : K) + ((b.allow now).1.toNat : K)
          ≤ b.level now + (t - now) * b.refill := by linarith
        _ ≤ b.tokens + (t - b.updated) * b.refill := by linarith
    · -- the window ends before the call
      have hzero : grantsIn b.updated t (b.run (now :: times)) = 0 := by
        refine grantsIn_eq_zero fun call hcall => ?_
        rcases List.mem_cons.mp (mem_run hcall) with heq | hmem
        · rw [heq]
          exact not_le.mp hin
        · exact (not_le.mp hin).trans_le (hlater _ hmem)
      have hnonneg := h.nonneg
      have hrefill : 0 ≤ (t - b.updated) * b.refill := mul_nonneg (by linarith) h.refill
      rw [hzero, Nat.cast_zero]
      linarith

/-- No window has more grants than the capacity and what is refilled in it. -/
theorem grantsIn_run_le (h : b.Sound) (htimes : b.Timed times) (hst : s ≤ t) :
    (grantsIn s t (b.run times) : K) ≤ b.capacity + (t - s) * b.refill := by
  have hwindow : 0 ≤ (t - s) * b.refill := mul_nonneg (by linarith) h.refill
  have hcapacity := h.capacity
  induction times generalizing b with
  | nil =>
    show ((0 : ℕ) : K) ≤ _
    rw [Nat.cast_zero]
    linarith
  | cons now times ih =>
    obtain ⟨hnow, hrest, hlater⟩ := htimes.cons
    by_cases hs : s ≤ now
    · by_cases hin : now ≤ t
      · -- the window begins with this call
        have hpaid := (h.allow hnow).grants_le hrest (t := t) (by rw [Bucket.allow_updated]; exact hin)
        rw [Bucket.allow_updated, Bucket.allow_refill, Bucket.allow_tokens] at hpaid
        have hlevel : b.level now ≤ b.capacity := min_le_left _ _
        have hless : (t - now) * b.refill ≤ (t - s) * b.refill :=
          mul_le_mul_of_nonneg_right (by linarith) h.refill
        have hsame : grantsIn s t ((b.allow now).2.run times) =
            grantsIn now t ((b.allow now).2.run times) := by
          refine List.countP_congr fun call hcall => ?_
          have hge := hlater call.1 (Bucket.mem_run hcall)
          simp [hge, hs.trans hge]
        rw [Bucket.run, grantsIn_cons_of_mem hs hin, hsame, Nat.cast_add]
        linarith
      · have hzero : grantsIn s t (b.run (now :: times)) = 0 := by
          refine grantsIn_eq_zero fun call hcall => ?_
          rcases List.mem_cons.mp (Bucket.mem_run hcall) with heq | hmem
          · rw [heq]
            exact not_le.mp hin
          · exact (not_le.mp hin).trans_le (hlater _ hmem)
        rw [hzero, Nat.cast_zero]
        linarith
    · have hih := ih (h.allow hnow) hrest
      rw [Bucket.allow_capacity, Bucket.allow_refill] at hih
      rw [Bucket.run, grantsIn_cons_of_not_mem fun hin => hs hin.1]
      exact hih hwindow hcapacity

/-! ## Refused calls -/

/-- The tokens of a bucket are what is left of its capacity since a time when it was full. -/
def Bucket.Spent (b : Bucket K) (start : K) (log : List (K × Bool)) : Prop :=
  ∃ later u, later <:+ log ∧ start ≤ u ∧ u ≤ b.updated ∧
    (∀ call ∈ later, u ≤ call.1 ∧ call.1 ≤ b.updated) ∧
    b.tokens = b.capacity + (b.updated - u) * b.refill - (grants later : K)

omit [IsStrictOrderedRing K] in
/-- One call. -/
theorem Bucket.Spent.allow {start : K} {log : List (K × Bool)} (h : b.Spent start log)
    (hstart : start ≤ now) (hnow : b.updated ≤ now) :
    (b.allow now).2.Spent start (log ++ [(now, (b.allow now).1)]) := by
  obtain ⟨later, u, hsuffix, hu, hupdated, hlater, htokens⟩ := h
  unfold Spent
  rw [allow_updated, allow_capacity, allow_refill, allow_tokens]
  by_cases hfull : b.capacity ≤ b.tokens + (now - b.updated) * b.refill
  · -- the bucket is full again
    refine ⟨[(now, (b.allow now).1)], now, List.suffix_append _ _, hstart, le_refl _,
      fun call hcall => ?_, ?_⟩
    · rw [List.mem_singleton.mp hcall]
      exact ⟨le_refl _, le_refl _⟩
    · rw [grants_singleton, sub_self, zero_mul, add_zero, level, min_eq_left hfull]
  · refine ⟨later ++ [(now, (b.allow now).1)], u, ?_, hu, hupdated.trans hnow,
      fun call hcall => ?_, ?_⟩
    · obtain ⟨earlier, hsplit⟩ := hsuffix
      exact ⟨earlier, by rw [← hsplit, List.append_assoc]⟩
    · rcases List.mem_append.mp hcall with hold | hnew
      · exact ⟨(hlater call hold).1, (hlater call hold).2.trans hnow⟩
      · rw [List.mem_singleton.mp hnew]
        exact ⟨hupdated.trans hnow, le_refl _⟩
    · rw [grants_append, grants_singleton, Nat.cast_add, level,
        min_eq_right (le_of_lt (not_le.mp hfull)), htokens]
      ring

omit [IsStrictOrderedRing K] in
theorem Bucket.Timed.split {before later : List K} (h : b.Timed (before ++ now :: later)) :
    b.Timed before ∧ (b.after before).Timed (now :: later) := by
  induction before generalizing b with
  | nil => exact ⟨List.pairwise_singleton _ _, h⟩
  | cons first before ih =>
    obtain ⟨hfirst, hrest, hge⟩ := h.cons
    obtain ⟨hbefore, hlater⟩ := ih hrest
    refine ⟨List.pairwise_cons.mpr ⟨fun time htime => ?_, ?_⟩, hlater⟩
    · rcases List.mem_cons.mp htime with rfl | hmem
      · exact hfirst
      · exact hfirst.trans (hge time (List.mem_append_left _ hmem))
    · unfold Timed at hbefore
      rwa [allow_updated] at hbefore

/-- A sequence of calls. -/
theorem Bucket.Spent.after {start : K} {log : List (K × Bool)} (h : b.Spent start log)
    (hstart : start ≤ b.updated) (htimes : b.Timed times) :
    (b.after times).Spent start (log ++ b.run times) := by
  induction times generalizing b log with
  | nil =>
    rw [run, List.append_nil]
    exact h
  | cons now times ih =>
    obtain ⟨hnow, hrest, -⟩ := htimes.cons
    have hnext := ih (h.allow (hstart.trans hnow) hnow)
      (by rw [allow_updated]; exact hstart.trans hnow) hrest
    rw [List.append_assoc, List.singleton_append] at hnext
    exact hnext

/-- A call is refused only where a grant would break the bound of a window that ends with it. -/
theorem Bucket.refused_run (h : b.Sound) (hfull : b.tokens = b.capacity) {before later : List K}
    (htimes : b.Timed (before ++ now :: later)) (hrefused : (b.after before).level now < 1) :
    ∃ u, b.updated ≤ u ∧ u ≤ now ∧
      b.capacity + (now - u) * b.refill < (grantsIn u now (b.run before) : K) + 1 := by
  obtain ⟨hbefore, hnow⟩ := htimes.split
  have hfresh : b.Spent b.updated [] :=
    ⟨[], b.updated, List.suffix_refl _, le_refl _, le_refl _, nofun, by rw [hfull]; simp⟩
  obtain ⟨spent, u, hsuffix, hu, hupdated, hspent, htokens⟩ := hfresh.after (le_refl _) hbefore
  rw [List.nil_append] at hsuffix
  rw [after_capacity, after_refill] at htokens
  have hle : (b.after before).updated ≤ now := hnow.cons.1
  refine ⟨u, hu, hupdated.trans hle, ?_⟩
  have hgrants : (grants spent : K) ≤ grantsIn u now (b.run before) :=
    Nat.cast_le.mpr (grants_le_grantsIn hsuffix fun call hcall =>
      ⟨(hspent call hcall).1, (hspent call hcall).2.trans hle⟩)
  have hcapacity := h.capacity
  have hless : (b.after before).tokens + (now - (b.after before).updated) * b.refill < 1 := by
    unfold level at hrefused
    rw [after_capacity, after_refill] at hrefused
    rcases min_lt_iff.mp hrefused with hcap | htok
    · exact absurd hcapacity (not_le.mpr hcap)
    · exact htok
  rw [htokens] at hless
  calc b.capacity + (now - u) * b.refill
      = b.capacity + ((b.after before).updated - u) * b.refill - (grants spent : K) +
          (now - (b.after before).updated) * b.refill + (grants spent : K) := by ring
    _ < (grantsIn u now (b.run before) : K) + 1 := by linarith

end TokenBucket
end ATalk
