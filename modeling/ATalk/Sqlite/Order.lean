import ATalk.Sqlite
import Mathlib.Order.WithBot
import Mathlib.Data.Rat.Cast.Order
import Mathlib.Algebra.Order.Ring.Rat

/-!
# The order of numbers

Integers and doubles compare by value. The values form a linear order, in which `max` is the
maximum, `x + 1` does not fall, and a column does not move a number.

* `SqlVal.Numeric`, `SqlVal.ext` : a number, and its place in the order;
* `sqlLe_iff`, `ext_sqlMax`, `ext_le_sqlSucc`, `ext_integerColumn`.
-/

namespace ATalk
namespace Sqlite

open Text Python

/-- Where a double stands: the infinities below and above the rationals. -/
def place : Flt → WithBot (WithTop ℚ)
  | .fin neg mag => (((if neg then -mag else mag : ℚ) : WithTop ℚ) : WithBot (WithTop ℚ))
  | .inf true => ⊥
  | .inf false => ((⊤ : WithTop ℚ) : WithBot (WithTop ℚ))
  | .nan => ((⊤ : WithTop ℚ) : WithBot (WithTop ℚ))

theorem numLe_iff {f g : Flt} (hf : f ≠ .nan) (hg : g ≠ .nan) :
    numLe f g = true ↔ place f ≤ place g := by
  cases f with
  | nan => exact absurd rfl hf
  | inf a =>
    cases a with
    | true => simp [numLe, place]
    | false =>
      cases g with
      | nan => exact absurd rfl hg
      | inf b => cases b <;> simp [numLe, place]
      | fin c d => simp [numLe, place]
  | fin a b =>
    cases g with
    | nan => exact absurd rfl hg
    | inf c =>
      cases c with
      | true => simp [numLe, place]
      | false => simp [numLe, place]
    | fin c d =>
      simp only [place, WithBot.coe_le_coe, WithTop.coe_le_coe]
      exact decide_eq_true_iff

/-! ## Numbers -/

/-- An integer, or a double that is a number. -/
def SqlVal.Numeric : SqlVal → Prop
  | .int _ => True
  | .real f => f ≠ .nan
  | _ => False

def SqlVal.ext (v : SqlVal) : WithBot (WithTop ℚ) := place v.number

theorem SqlVal.Numeric.ne_null {v : SqlVal} (h : v.Numeric) : v ≠ .null := by
  rintro rfl
  exact h

theorem SqlVal.Numeric.number {v : SqlVal} (h : v.Numeric) : v.number ≠ .nan := by
  cases v with
  | int i => exact nofun
  | real f => exact h
  | _ => exact absurd h id

theorem sqlLe_iff {a b : SqlVal} (ha : a.Numeric) (hb : b.Numeric) :
    sqlLe a b = true ↔ a.ext ≤ b.ext := by
  have hnum : sqlLe a b = numLe a.number b.number := by
    cases a <;> cases b <;> first | exact absurd ha id | exact absurd hb id | rfl
  rw [hnum, numLe_iff ha.number hb.number]
  rfl

theorem sqlEq_iff {a b : SqlVal} (ha : a.Numeric) (hb : b.Numeric) :
    sqlEq a b = true ↔ a.ext = b.ext := by
  simp only [sqlEq, ne_eq, ha.ne_null, hb.ne_null, not_false_eq_true, decide_true, Bool.true_and,
    Bool.and_eq_true, sqlLe_iff ha hb, sqlLe_iff hb ha]
  exact ⟨fun h => le_antisymm h.1 h.2, fun h => ⟨h.le, h.ge⟩⟩

theorem sqlMax_of_numeric {a b : SqlVal} (ha : a.Numeric) (hb : b.Numeric) :
    sqlMax a b = if sqlLe b a then a else b :=
  if_neg fun h => h.elim ha.ne_null hb.ne_null

theorem numeric_sqlMax {a b : SqlVal} (ha : a.Numeric) (hb : b.Numeric) : (sqlMax a b).Numeric := by
  rw [sqlMax_of_numeric ha hb]
  split_ifs
  · exact ha
  · exact hb

theorem ext_sqlMax {a b : SqlVal} (ha : a.Numeric) (hb : b.Numeric) :
    (sqlMax a b).ext = max a.ext b.ext := by
  rw [sqlMax_of_numeric ha hb]
  split_ifs with h
  · rw [max_eq_left ((sqlLe_iff hb ha).mp h)]
  · rw [max_eq_right]
    rw [sqlLe_iff hb ha, not_le] at h
    exact h.le

/-- A maximum already reached is kept as it is. -/
theorem sqlMax_eq_left {a b : SqlVal} (ha : a.Numeric) (hb : b.Numeric) (h : b.ext ≤ a.ext) :
    sqlMax a b = a := by
  rw [sqlMax_of_numeric ha hb, if_pos ((sqlLe_iff hb ha).mpr h)]

/-! ## Columns and counters -/

theorem realColumn_spec {f : Flt} (hf : f ≠ .nan) :
    (realColumn f).Numeric ∧ (realColumn f).ext = place f := by
  unfold realColumn
  cases f with
  | nan => exact absurd rfl hf
  | inf a => exact ⟨hf, rfl⟩
  | fin neg mag =>
    simp only [Flt.value, SqlVal.ext, place]
    generalize hq : (if neg = true then -mag else mag) = q
    split_ifs with hint
    · refine ⟨trivial, ?_⟩
      simp only [SqlVal.number, Bool.false_eq_true, if_false]
      rw [(Rat.den_eq_one_iff _).mp hint.1]
    · exact ⟨hf, by simp only [SqlVal.number, hq]⟩

variable (engine : Engine)

/-- A column keeps a number where it is. -/
theorem integerColumn_spec {v : SqlVal} (h : v.Numeric) :
    (integerColumn engine v).Numeric ∧ (integerColumn engine v).ext = v.ext := by
  cases v with
  | int i => exact ⟨h, rfl⟩
  | real f => exact realColumn_spec h
  | _ => exact absurd h id

/-- `x + 1` does not fall. -/
theorem sqlSucc_spec {v : SqlVal} (h : v.Numeric) :
    (sqlSucc engine v).Numeric ∧ v.ext ≤ (sqlSucc engine v).ext := by
  cases v with
  | int i =>
    simp only [sqlSucc]
    split_ifs with hi
    · refine ⟨trivial, ?_⟩
      simp only [SqlVal.ext, SqlVal.number, place, Bool.false_eq_true, if_false,
        WithBot.coe_le_coe, WithTop.coe_le_coe, Int.cast_le]
      omega
    · obtain ⟨hn, hle⟩ := engine.le_realSucc (.fin false i) h.number
      exact ⟨hn, (numLe_iff h.number hn).mp hle⟩
  | real f =>
    obtain ⟨hn, hle⟩ := engine.le_realSucc f h
    exact ⟨hn, (numLe_iff h hn).mp hle⟩
  | _ => exact absurd h id

end Sqlite
end ATalk
