import Mathlib.Data.List.TakeDrop
import Mathlib.Data.List.Range
import Mathlib.Tactic.SplitIfs
import Mathlib.Data.Int.Notation
import Mathlib.Order.Lattice
import Mathlib.Algebra.Order.Group.Int

/-!
# Slices

`xs[i:j]` and `range(start, stop, step)` as Python has them, and a list cut into slices whose
distance and width may differ.

* `slice`, `offsets` : the slices, and the places where they begin;
* `batches_flatten` : slices of the distance that they are wide are the whole list;
* `mem_batches` : what they hold when the width is not positive.
-/

namespace ATalk
namespace Slices

variable {α : Type} {xs : List α} {x : α}

/-- An index of a slice: from the end when it is negative, within the list in any case. -/
def bound (n : ℕ) (i : ℤ) : ℕ := if i < 0 then (n + i).toNat else min i.toNat n

/-- `xs[i:j]` -/
def slice (xs : List α) (i j : ℤ) : List α :=
  (xs.take (bound xs.length j)).drop (bound xs.length i)

/-- `range(0, n, step)` for a positive step. -/
def offsets (n step : ℕ) : List ℕ := (List.range ((n + step - 1) / step)).map (· * step)

/-- `[xs[offset:offset + width] for offset in range(0, len(xs), max(1, width))]` -/
def batches (xs : List α) (width : ℤ) : List (List α) :=
  (offsets xs.length (max 1 width).toNat).map fun (offset : ℕ) => slice xs offset (offset + width)

theorem mem_offsets {n step i : ℕ} (hstep : 0 < step) :
    i ∈ offsets n step ↔ i < n ∧ i % step = 0 := by
  unfold offsets
  rw [List.mem_map]
  constructor
  · rintro ⟨k, hk, rfl⟩
    have hlt : k < (n + step - 1) / step := List.mem_range.mp hk
    have hmul : (k + 1) * step ≤ n + step - 1 :=
      (Nat.mul_le_mul_right step hlt).trans (Nat.div_mul_le_self _ _)
    rw [Nat.add_mul] at hmul
    exact ⟨by omega, Nat.mul_mod_left k step⟩
  · rintro ⟨hlt, hmod⟩
    refine ⟨i / step, List.mem_range.mpr ?_, Nat.div_mul_cancel (Nat.dvd_of_mod_eq_zero hmod)⟩
    have hmul : i / step * step = i := Nat.div_mul_cancel (Nat.dvd_of_mod_eq_zero hmod)
    refine (Nat.le_div_iff_mul_le hstep).mpr ?_
    rw [Nat.succ_mul]
    omega

/-- Pieces of one width, side by side. -/
theorem flatten_pieces (xs : List α) (width k : ℕ) :
    ((List.range k).map fun i => (xs.drop (i * width)).take width).flatten = xs.take (k * width) := by
  induction k with
  | zero => simp
  | succ k ih =>
    rw [List.range_succ, List.map_append, List.flatten_append, ih, Nat.succ_mul, List.take_add]
    simp

/-- Slices as wide as they are apart are the whole list. -/
theorem batches_flatten (xs : List α) {width : ℤ} (hwidth : 1 ≤ width) :
    (batches xs width).flatten = xs := by
  obtain ⟨w, rfl⟩ := Int.eq_ofNat_of_zero_le (by omega : 0 ≤ width)
  have hw : 0 < w := by omega
  have hstep : (max 1 (w : ℤ)).toNat = w := by omega
  have hslice : ∀ i ∈ List.range ((xs.length + w - 1) / w),
      slice xs ((i * w : ℕ) : ℤ) ((i * w : ℕ) + (w : ℤ)) = (xs.drop (i * w)).take w := by
    intro i hi
    have hlt : i * w < xs.length :=
      ((mem_offsets hw).mp (List.mem_map_of_mem hi)).1
    have hlow : bound xs.length ((i * w : ℕ) : ℤ) = i * w := by
      unfold bound
      rw [if_neg (by omega), Int.toNat_natCast]
      omega
    have hhigh : bound xs.length ((i * w : ℕ) + (w : ℤ)) = min (i * w + w) xs.length := by
      unfold bound
      rw [if_neg (by omega)]
      omega
    unfold slice
    rw [hlow, hhigh, List.drop_take]
    rcases le_total (i * w + w) xs.length with hle | hle
    · rw [Nat.min_eq_left hle, Nat.add_sub_cancel_left]
    · rw [Nat.min_eq_right hle, ← List.length_drop, List.take_length, List.take_of_length_le]
      rw [List.length_drop]
      omega
  unfold batches offsets
  rw [hstep, List.map_map]
  refine (congrArg List.flatten (List.map_congr_left hslice)).trans ?_
  rw [flatten_pieces]
  refine List.take_of_length_le ?_
  have hdiv : xs.length + w - 1 < ((xs.length + w - 1) / w + 1) * w :=
    Nat.lt_mul_of_div_lt (Nat.lt_succ_self _) hw
  rw [Nat.succ_mul] at hdiv
  omega

/-- What the slices of a width leave out. -/
def left (xs : List α) (width : ℤ) : List α :=
  if 1 ≤ width then []
  else if width < 0 ∧ -(xs.length : ℤ) < width then xs.drop (xs.length - 1)
  else xs

theorem left_subset (xs : List α) (width : ℤ) : left xs width ⊆ xs := by
  unfold left
  split_ifs
  · exact List.nil_subset xs
  · exact List.drop_subset _ xs
  · exact List.Subset.refl xs

/-- A slice whose width is not positive ends before the last entry, if it holds any. -/
theorem slice_nonpos {width : ℤ} (hwidth : width ≤ 0) {i : ℕ} (hi : i < xs.length) :
    slice xs i (i + width) =
      if i + width < 0 then (xs.take (xs.length + i + width).toNat).drop i else [] := by
  have hlow : bound xs.length (i : ℤ) = i := by
    unfold bound
    rw [if_neg (by omega)]
    omega
  unfold slice
  rw [hlow]
  split_ifs with hneg
  · have hhigh : bound xs.length (i + width) = (xs.length + i + width).toNat := by
      unfold bound
      rw [if_pos hneg]
      omega
    rw [hhigh]
  · have hhigh : bound xs.length (i + width) ≤ i := by
      unfold bound
      rw [if_neg hneg]
      omega
    rw [List.drop_eq_nil_iff, List.length_take]
    omega

theorem mem_slice {i j : ℕ} :
    x ∈ (xs.take j).drop i ↔ ∃ k, i ≤ k ∧ k < j ∧ xs[k]? = some x := by
  rw [List.mem_iff_getElem?]
  constructor
  · rintro ⟨k, hk⟩
    rw [List.getElem?_drop, List.getElem?_take] at hk
    split_ifs at hk with hlt
    exact ⟨i + k, Nat.le_add_right i k, hlt, hk⟩
  · rintro ⟨k, hle, hlt, hk⟩
    refine ⟨k - i, ?_⟩
    rw [List.getElem?_drop, List.getElem?_take, Nat.add_sub_cancel' hle, if_pos hlt]
    exact hk

/-- The slices of a width that is not positive. -/
theorem mem_batches_nonpos {width : ℤ} (hwidth : width ≤ 0) :
    x ∈ (batches xs width).flatten ↔
      ∃ i : ℕ, i < xs.length ∧ i + width < 0 ∧
        ∃ k, i ≤ k ∧ k < (xs.length + i + width).toNat ∧ xs[k]? = some x := by
  have hstep : (max 1 width).toNat = 1 := by omega
  unfold batches
  rw [hstep, List.mem_flatten]
  constructor
  · rintro ⟨l, hl, hx⟩
    obtain ⟨i, hi, rfl⟩ := List.mem_map.mp hl
    have hlt : i < xs.length := ((mem_offsets Nat.one_pos).mp hi).1
    rw [slice_nonpos hwidth hlt] at hx
    split_ifs at hx with hneg
    · exact ⟨i, hlt, hneg, mem_slice.mp hx⟩
    · cases hx
  · rintro ⟨i, hlt, hneg, hx⟩
    refine ⟨slice xs i (i + width), ?_, ?_⟩
    · exact List.mem_map.mpr ⟨i, (mem_offsets Nat.one_pos).mpr ⟨hlt, Nat.mod_one i⟩, rfl⟩
    · rw [slice_nonpos hwidth hlt, if_pos hneg]
      exact mem_slice.mpr hx

/-- An entry is in a slice unless the slices leave it out. -/
theorem mem_batches (hxs : xs.Nodup) (width : ℤ) :
    x ∈ (batches xs width).flatten ↔ x ∈ xs ∧ x ∉ left xs width := by
  unfold left
  split_ifs with hpos hneg
  · rw [batches_flatten xs hpos]
    simp
  · -- every slice ends before the last entry, and each of the others is in one
    rw [mem_batches_nonpos (by omega)]
    have hlast : x ∈ xs.drop (xs.length - 1) ↔ ∃ k, xs.length - 1 ≤ k ∧ xs[k]? = some x := by
      have hslice : x ∈ (xs.take xs.length).drop (xs.length - 1) ↔
          ∃ k, xs.length - 1 ≤ k ∧ k < xs.length ∧ xs[k]? = some x := mem_slice
      rw [List.take_length] at hslice
      rw [hslice]
      refine exists_congr fun k => and_congr_right fun _ => ⟨fun h => h.2, fun h => ⟨?_, h⟩⟩
      exact (List.getElem?_eq_some_iff.mp h).1
    rw [hlast]
    constructor
    · rintro ⟨i, hi, hend, k, hle, hlt, hk⟩
      refine ⟨List.mem_of_getElem? hk, ?_⟩
      rintro ⟨k', hle', hk'⟩
      have hsame : k = k' := by
        have hlength := (List.getElem?_eq_some_iff.mp hk).1
        exact (List.getElem?_inj hlength hxs).mp (hk.trans hk'.symm)
      omega
    · rintro ⟨hx, hnot⟩
      obtain ⟨k, hk⟩ := List.mem_iff_getElem?.mp hx
      have hlt : k < xs.length - 1 := by
        refine Nat.lt_of_not_le fun hle => hnot ⟨k, hle, hk⟩
      refine ⟨(k + 1 - xs.length - width).toNat, ?_, ?_, k, ?_, ?_, hk⟩
      · omega
      · omega
      · omega
      · omega
  · rw [mem_batches_nonpos (by omega)]
    refine iff_of_false ?_ fun h => h.2 h.1
    rintro ⟨i, hi, hend, k, hle, hlt, -⟩
    omega

end Slices
end ATalk
