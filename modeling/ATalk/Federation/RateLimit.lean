import ATalk.Lib.Text
import ATalk.Lib.TokenBucket
import Mathlib.Algebra.Order.Ring.Rat

/-!
# Rate limits

The token buckets of a runtime, one for all connections and one for each family, with rational
numbers in the place of floats.

* `tokenBucket` : a new `TokenBucket`, `Limiter` : the buckets of a runtime;
* `Limiter.results_conn`, `Limiter.results_family` : the calls of a bucket, out of all calls;
* `token_bucket_bound` : what a bucket lets through, over every window.
-/

namespace ATalk
namespace Federation

open Text TokenBucket

/-- `TokenBucket(rate_per_min)`, at a reading of the clock. -/
def tokenBucket (ratePerMin now : ℚ) : Bucket ℚ where
  capacity := max 1 ratePerMin
  refill := max 1 ratePerMin / 60
  tokens := max 1 ratePerMin
  updated := now

theorem sound_tokenBucket (ratePerMin now : ℚ) : (tokenBucket ratePerMin now).Sound where
  capacity := le_max_left _ _
  refill := div_nonneg (zero_le_one.trans (le_max_left _ _)) (by norm_num)
  nonneg := zero_le_one.trans (le_max_left _ _)
  le := le_refl _

/-! ## The buckets of a runtime -/

/-- The rates, `conn_bucket` and `_family_buckets`. -/
structure Limiter where
  rateConn : ℚ
  rateFamily : ℚ
  connBucket : Bucket ℚ
  familyBuckets : Str → Option (Bucket ℚ) := fun _ => none

/-- A call, with its readings of the clock: that of a new bucket, and that of `allow`. -/
inductive LimitCall where
  | conn (now : ℚ)
  | family (name : Str) (created now : ℚ)

namespace Limiter

/-- The bucket of a family, a new one without it. -/
def familyBucket (l : Limiter) (name : Str) (created : ℚ) : Bucket ℚ :=
  (l.familyBuckets name).getD (tokenBucket l.rateFamily created)

/-- `allow_conn` and `allow_family` -/
def call (l : Limiter) : LimitCall → Bool × Limiter
  | .conn now => ((l.connBucket.allow now).1, { l with connBucket := (l.connBucket.allow now).2 })
  | .family name created now =>
    (((l.familyBucket name created).allow now).1, { l with
      familyBuckets := Function.update l.familyBuckets name
        (some ((l.familyBucket name created).allow now).2) })

/-- The results of the calls. -/
def results (l : Limiter) : List LimitCall → List (LimitCall × Bool)
  | [] => []
  | c :: calls => (c, (l.call c).1) :: results (l.call c).2 calls

end Limiter

/-- The times of the calls of all connections, with their results. -/
def connLog : List (LimitCall × Bool) → List (ℚ × Bool) :=
  List.filterMap fun
    | (.conn now, granted) => some (now, granted)
    | _ => none

/-- The times of the calls of a family, with their results. -/
def familyLog (name : Str) : List (LimitCall × Bool) → List (ℚ × Bool) :=
  List.filterMap fun
    | (.family name' _ now, granted) => if name' = name then some (now, granted) else none
    | _ => none

/-- The calls of all connections are a run of their bucket. -/
theorem Limiter.results_conn (l : Limiter) (calls : List LimitCall) :
    connLog (l.results calls) = l.connBucket.run ((connLog (l.results calls)).map (·.1)) := by
  induction calls generalizing l with
  | nil => rfl
  | cons c calls ih =>
    cases c with
    | conn now => exact congrArg (_ :: ·) (ih (l.call (.conn now)).2)
    | family name created now => exact ih (l.call (.family name created now)).2

/-- The bucket of a family after a call for one. -/
theorem Limiter.familyBucket_call (l : Limiter) (name name' : Str) (created later now : ℚ) :
    (l.call (.family name' created now)).2.familyBucket name later =
      if name = name' then ((l.familyBucket name' created).allow now).2
      else l.familyBucket name later := by
  have hbuckets : (l.call (.family name' created now)).2.familyBuckets =
      Function.update l.familyBuckets name' (some ((l.familyBucket name' created).allow now).2) := rfl
  unfold familyBucket at hbuckets ⊢
  rw [hbuckets, Function.update_apply]
  split_ifs <;> rfl

theorem familyLog_cons (name name' : Str) (created now : ℚ) (granted : Bool)
    (log : List (LimitCall × Bool)) :
    familyLog name ((.family name' created now, granted) :: log) =
      if name' = name then (now, granted) :: familyLog name log else familyLog name log := by
  unfold familyLog
  split_ifs with hname
  · exact List.filterMap_cons_some (if_pos hname)
  · exact List.filterMap_cons_none (if_neg hname)

/-- The calls of a family are a run of its bucket: the one that is there, or one made at the first
of them. -/
theorem Limiter.results_family (l : Limiter) (name : Str) (calls : List LimitCall) :
    ∃ created, familyLog name (l.results calls) =
      (l.familyBucket name created).run ((familyLog name (l.results calls)).map (·.1)) := by
  induction calls generalizing l with
  | nil => exact ⟨0, rfl⟩
  | cons c calls ih =>
    obtain ⟨later, hlater⟩ := ih (l.call c).2
    cases c with
    | conn now => exact ⟨later, hlater⟩
    | family name' created now =>
      rw [familyBucket_call] at hlater
      rw [results, familyLog_cons]
      by_cases hname : name' = name
      · rw [if_pos hname.symm] at hlater
        refine ⟨created, ?_⟩
        rw [if_pos hname, List.map_cons, Bucket.run, ← hname]
        rw [← hname] at hlater
        exact congrArg (_ :: ·) hlater
      · rw [if_neg (Ne.symm hname)] at hlater
        rw [if_neg hname]
        exact ⟨later, hlater⟩

/-! ## The bound -/

/-- What a bucket for `r` calls per minute lets through of calls at the given times. -/
structure RateBound (r start : ℚ) (times : List ℚ) : Prop where
  window : ∀ s t, s ≤ t →
    (grantsIn s t ((tokenBucket r start).run times) : ℚ) ≤ r + r * (t - s) / 60
  tokens : ∀ n, 0 ≤ ((tokenBucket r start).after (times.take n)).tokens ∧
    ((tokenBucket r start).after (times.take n)).tokens ≤ r
  granted : ∀ before now later, times = before ++ now :: later →
    1 ≤ ((tokenBucket r start).after before).level now →
      (((tokenBucket r start).after before).allow now).1 = true
  /-- A refused call would have exceeded the bound of a window that ends with it. -/
  refused : ∀ before now later, times = before ++ now :: later →
    (((tokenBucket r start).after before).allow now).1 = false → ∃ u, start ≤ u ∧ u ≤ now ∧
      r + r * (now - u) / 60 < (grantsIn u now ((tokenBucket r start).run before) : ℚ) + 1

/-- A bucket lets through its rate and no more, and refuses no call for which it has a token. -/
theorem token_bucket_bound (r start : ℚ) (times : List ℚ) (hr : 1 ≤ r)
    (htimes : (start :: times).Pairwise (· ≤ ·)) : RateBound r start times := by
  have hcapacity : (tokenBucket r start).capacity = r := max_eq_right hr
  have hrefill : ∀ d : ℚ, d * (tokenBucket r start).refill = r * d / 60 := by
    intro d
    show d * (max 1 r / 60) = r * d / 60
    rw [max_eq_right hr]
    ring
  have hsound := sound_tokenBucket r start
  have htimed : (tokenBucket r start).Timed times := htimes
  refine ⟨fun s t hst => ?_, fun n => ?_, fun before now later _ hone => ?_,
    fun before now later hsplit hrefused => ?_⟩
  · have hle := grantsIn_run_le hsound htimed hst
    rw [hcapacity, hrefill] at hle
    exact hle
  · have hprefix : (tokenBucket r start).Timed (times.take n) :=
      htimed.sublist ((List.take_sublist n times).cons_cons start)
    have hafter := hsound.after hprefix
    have hle := hafter.le
    rw [Bucket.after_capacity, hcapacity] at hle
    exact ⟨hafter.nonneg, hle⟩
  · rw [Bucket.allow_fst]
    exact decide_eq_true hone
  · rw [hsplit] at htimed
    rw [Bucket.allow_fst, decide_eq_false_iff_not, not_le] at hrefused
    obtain ⟨u, hu, hnow, hless⟩ := Bucket.refused_run hsound rfl htimed hrefused
    rw [hcapacity, hrefill] at hless
    exact ⟨u, hu, hnow, hless⟩

/-- A bucket of one call per minute that is called twice at once. -/
theorem token_bucket_bound_twice : RateBound 1 0 [0, 0] :=
  token_bucket_bound 1 0 [0, 0] (by decide) (by decide)

end Federation
end ATalk
