import Mathlib.Algebra.Field.Basic
import Mathlib.Algebra.Group.Even
import Mathlib.Tactic.FieldSimp
import Mathlib.Tactic.LinearCombination
import Mathlib.Tactic.Ring

/-!
# Complete twisted Edwards curves

The curve `-x² + y² = 1 + d x² y²` over a field that has a root of `-1` and in which `d` is not a
square. Its addition law has no exceptional pairs, so the points are a group.

* `Curve.add_den_ne`, `Curve.sub_den_ne` : no denominator of the addition law is zero;
* `add_assoc_x`, `add_assoc_y` : the identities behind associativity;
* the instance of `AddCommGroup` for `Point`.
-/

namespace ATalk
namespace Edwards

variable {F : Type} [Field F]

/-- The coefficient of a complete curve, with a root of `-1`. -/
structure Curve (F : Type) [Field F] where
  d : F
  i : F
  sq_i : i ^ 2 = -1
  two_ne : (2 : F) ≠ 0
  nonsquare : ¬ IsSquare d

/-- `-x² + y² = 1 + d x² y²` -/
def Curve.On (E : Curve F) (x y : F) : Prop := -x ^ 2 + y ^ 2 = 1 + E.d * x ^ 2 * y ^ 2

variable {E : Curve F} {x₁ y₁ x₂ y₂ x₃ y₃ : F}

/-! ## Completeness -/

/-- A product of coordinates that is a sign would make `d` a square. -/
theorem Curve.On.complete (h₁ : E.On x₁ y₁) (h₂ : E.On x₂ y₂) {s : F} (hs : s ^ 2 = 1) :
    E.d * x₁ * x₂ * y₁ * y₂ ≠ s := by
  intro heq
  have hi := E.sq_i
  unfold Curve.On at h₁ h₂
  have hs0 : s ≠ 0 := by
    rintro rfl
    exact zero_ne_one ((zero_pow two_ne_zero).symm.trans hs)
  have hx : x₁ * y₁ ≠ 0 := by
    intro h0
    refine hs0 ?_
    rw [← heq]
    linear_combination E.d * x₂ * y₂ * h0
  -- a factor that is not zero gives the root
  have hroot : ∀ {u v : F}, v ≠ 0 → u ^ 2 = E.d * (x₁ * y₁) ^ 2 * v ^ 2 → False := by
    intro u v hv huv
    refine E.nonsquare ⟨u / (x₁ * y₁ * v), ?_⟩
    have hden : x₁ * y₁ * v ≠ 0 := mul_ne_zero hx hv
    rw [div_mul_div_comm, eq_div_iff (mul_ne_zero hden hden)]
    linear_combination -huv
  have hplus : (E.i * x₁ + s * y₁) ^ 2 = E.d * (x₁ * y₁) ^ 2 * (E.i * x₂ + y₂) ^ 2 := by
    linear_combination h₁ - E.d * x₁ ^ 2 * y₁ ^ 2 * h₂ +
      (x₁ ^ 2 - E.d * x₁ ^ 2 * y₁ ^ 2 * x₂ ^ 2) * hi + (y₁ ^ 2 - 1) * hs -
      (2 * E.i * x₁ * y₁ + (E.d * x₁ * x₂ * y₁ * y₂ + s)) * heq
  have hminus : (E.i * x₁ - s * y₁) ^ 2 = E.d * (x₁ * y₁) ^ 2 * (E.i * x₂ - y₂) ^ 2 := by
    linear_combination h₁ - E.d * x₁ ^ 2 * y₁ ^ 2 * h₂ +
      (x₁ ^ 2 - E.d * x₁ ^ 2 * y₁ ^ 2 * x₂ ^ 2) * hi + (y₁ ^ 2 - 1) * hs +
      (2 * E.i * x₁ * y₁ - (E.d * x₁ * x₂ * y₁ * y₂ + s)) * heq
  by_cases hsum : E.i * x₂ + y₂ = 0
  · by_cases hdiff : E.i * x₂ - y₂ = 0
    · -- both vanish, so the second point has no second coordinate
      have hy : 2 * y₂ = 0 := by linear_combination hsum - hdiff
      have hy0 : y₂ = 0 := (mul_eq_zero.mp hy).resolve_left E.two_ne
      refine hs0 ?_
      rw [← heq, hy0, mul_zero]
    · exact hroot hdiff hminus
  · exact hroot hsum hplus

theorem Curve.On.add_den_ne (h₁ : E.On x₁ y₁) (h₂ : E.On x₂ y₂) :
    1 + E.d * x₁ * x₂ * y₁ * y₂ ≠ 0 := by
  intro h0
  refine h₁.complete h₂ (neg_one_sq (R := F)) ?_
  linear_combination h0

theorem Curve.On.sub_den_ne (h₁ : E.On x₁ y₁) (h₂ : E.On x₂ y₂) :
    1 - E.d * x₁ * x₂ * y₁ * y₂ ≠ 0 := by
  intro h0
  refine h₁.complete h₂ (one_pow 2) ?_
  linear_combination -h0

/-! ## The addition law -/

/-- The equation of the curve without denominators. -/
theorem Curve.on_div_iff {X Y A B : F} (hA : A ≠ 0) (hB : B ≠ 0) :
    E.On (X / A) (Y / B) ↔
      -X ^ 2 * B ^ 2 + Y ^ 2 * A ^ 2 = A ^ 2 * B ^ 2 + E.d * X ^ 2 * Y ^ 2 := by
  have hden : A ^ 2 * B ^ 2 ≠ 0 := mul_ne_zero (pow_ne_zero 2 hA) (pow_ne_zero 2 hB)
  unfold Curve.On
  rw [← mul_left_inj' hden]
  have hleft : (-(X / A) ^ 2 + (Y / B) ^ 2) * (A ^ 2 * B ^ 2) =
      -X ^ 2 * B ^ 2 + Y ^ 2 * A ^ 2 := by
    field_simp
  have hright : (1 + E.d * (X / A) ^ 2 * (Y / B) ^ 2) * (A ^ 2 * B ^ 2) =
      A ^ 2 * B ^ 2 + E.d * X ^ 2 * Y ^ 2 := by
    field_simp
  rw [hleft, hright]

/-- The sum of two points is on the curve. -/
theorem Curve.On.add (h₁ : E.On x₁ y₁) (h₂ : E.On x₂ y₂) :
    E.On ((x₁ * y₂ + x₂ * y₁) / (1 + E.d * x₁ * x₂ * y₁ * y₂))
      ((y₁ * y₂ + x₁ * x₂) / (1 - E.d * x₁ * x₂ * y₁ * y₂)) := by
  have hadd := h₁.add_den_ne h₂
  have hsub := h₁.sub_den_ne h₂
  rw [Curve.on_div_iff hadd hsub]
  unfold Curve.On at h₁ h₂
  generalize E.d = d at *
  linear_combination
    (y₂ ^ 4 - 4 * x₂ ^ 2 * y₂ ^ 2 - 2 * x₂ ^ 2 * y₂ ^ 2 * d + 2 * x₂ ^ 2 * y₂ ^ 4 + x₂ ^ 4 -
      2 * x₂ ^ 4 * y₂ ^ 2 - 2 * x₂ ^ 4 * y₂ ^ 4 * d - x₂ ^ 4 * y₂ ^ 4 * d ^ 2 -
      y₁ ^ 2 * x₂ ^ 2 * y₂ ^ 4 * d + y₁ ^ 2 * x₂ ^ 4 * y₂ ^ 2 * d +
      y₁ ^ 2 * x₂ ^ 4 * y₂ ^ 4 * d ^ 2 + x₁ ^ 2 * x₂ ^ 2 * y₂ ^ 4 * d -
      x₁ ^ 2 * x₂ ^ 4 * y₂ ^ 2 * d - x₁ ^ 2 * x₂ ^ 4 * y₂ ^ 4 * d ^ 2 +
      x₁ ^ 2 * y₁ ^ 2 * x₂ ^ 4 * y₂ ^ 4 * d ^ 3) * h₁ +
    (1 + y₂ ^ 2 - x₂ ^ 2 + 2 * x₂ ^ 2 * y₂ ^ 2 + x₂ ^ 2 * y₂ ^ 2 * d - y₁ ^ 2 * y₂ ^ 2 +
      y₁ ^ 2 * x₂ ^ 2 - 2 * y₁ ^ 2 * x₂ ^ 2 * y₂ ^ 2 - 2 * y₁ ^ 2 * x₂ ^ 2 * y₂ ^ 2 * d +
      y₁ ^ 4 * x₂ ^ 2 * y₂ ^ 2 * d + x₁ ^ 2 * y₂ ^ 2 - x₁ ^ 2 * x₂ ^ 2 +
      2 * x₁ ^ 2 * x₂ ^ 2 * y₂ ^ 2 + 2 * x₁ ^ 2 * x₂ ^ 2 * y₂ ^ 2 * d +
      x₁ ^ 4 * x₂ ^ 2 * y₂ ^ 2 * d) * h₂

/-- A sum of three in one coordinate, as one fraction. -/
theorem triple_div {X Y A B x y k u : F} (hA : A ≠ 0) (hB : B ≠ 0) :
    (X / A * x + Y / B * y) / (1 + k * (X / A) * u * (Y / B)) =
      (X * B * x + Y * A * y) / (A * B + k * X * Y * u) := by
  rw [← mul_div_mul_left _ _ (mul_ne_zero hA hB)]
  congr 1
  · field_simp
  · field_simp

/-- The first coordinates of the two triple sums, without denominators. -/
theorem add_assoc_x {d : F} (h₁ : -x₁ ^ 2 + y₁ ^ 2 = 1 + d * x₁ ^ 2 * y₁ ^ 2)
    (h₂ : -x₂ ^ 2 + y₂ ^ 2 = 1 + d * x₂ ^ 2 * y₂ ^ 2)
    (h₃ : -x₃ ^ 2 + y₃ ^ 2 = 1 + d * x₃ ^ 2 * y₃ ^ 2) :
    ((x₁ * y₂ + x₂ * y₁) * (1 - d * x₁ * x₂ * y₁ * y₂) * y₃ +
          x₃ * (y₁ * y₂ + x₁ * x₂) * (1 + d * x₁ * x₂ * y₁ * y₂)) *
        ((1 + d * x₂ * x₃ * y₂ * y₃) * (1 - d * x₂ * x₃ * y₂ * y₃) +
          d * x₁ * y₁ * (x₂ * y₃ + x₃ * y₂) * (y₂ * y₃ + x₂ * x₃)) =
      (x₁ * (y₂ * y₃ + x₂ * x₃) * (1 + d * x₂ * x₃ * y₂ * y₃) +
          (x₂ * y₃ + x₃ * y₂) * (1 - d * x₂ * x₃ * y₂ * y₃) * y₁) *
        ((1 + d * x₁ * x₂ * y₁ * y₂) * (1 - d * x₁ * x₂ * y₁ * y₂) +
          d * (x₁ * y₂ + x₂ * y₁) * (y₁ * y₂ + x₁ * x₂) * x₃ * y₃) := by
  linear_combination
    d * x₂ * y₂ *
      (x₁ * (y₂ ^ 3 * x₃ * y₃ ^ 2 - x₂ * y₂ ^ 2 * y₃ + x₂ * y₂ ^ 2 * y₃ ^ 3 - x₂ ^ 2 * y₂ * x₃ -
          x₂ ^ 2 * y₂ * x₃ ^ 3 - x₂ ^ 2 * y₂ ^ 3 * x₃ * y₃ ^ 2 * d - x₂ ^ 3 * x₃ ^ 2 * y₃ -
          x₂ ^ 3 * y₂ ^ 2 * x₃ ^ 2 * y₃ * d) +
        y₁ * (-y₂ ^ 3 * x₃ ^ 2 * y₃ - x₂ * y₂ ^ 2 * x₃ - x₂ * y₂ ^ 2 * x₃ ^ 3 - x₂ ^ 2 * y₂ * y₃ +
          x₂ ^ 2 * y₂ * y₃ ^ 3 + x₂ ^ 2 * y₂ ^ 3 * x₃ ^ 2 * y₃ * d + x₂ ^ 3 * x₃ * y₃ ^ 2 +
          x₂ ^ 3 * y₂ ^ 2 * x₃ * y₃ ^ 2 * d)) * h₁ +
    d * x₂ * y₂ *
      (x₁ ^ 3 * (y₂ * x₃ * y₃ ^ 2 + x₂ * x₃ ^ 2 * y₃) +
        x₁ ^ 2 * y₁ * (y₂ * y₃ - y₂ * y₃ ^ 3 - x₂ * x₃ - x₂ * x₃ ^ 3) +
        x₁ * y₁ ^ 2 * (-y₂ * x₃ - y₂ * x₃ ^ 3 + x₂ * y₃ - x₂ * y₃ ^ 3) +
        y₁ ^ 3 * (y₂ * x₃ ^ 2 * y₃ + x₂ * x₃ * y₃ ^ 2) +
        x₁ * (y₂ * x₃ * y₃ ^ 2 + x₂ * x₃ ^ 2 * y₃) -
        y₁ * (y₂ * x₃ ^ 2 * y₃ + x₂ * x₃ * y₃ ^ 2)) * h₂ +
    d * x₂ * y₂ *
      (x₃ * (y₁ * x₂ * y₂ ^ 2 - y₁ ^ 3 * x₂ * y₂ ^ 2 + x₁ * x₂ ^ 2 * y₂ - x₁ * y₁ ^ 2 * y₂ ^ 3 +
          x₁ * y₁ ^ 2 * x₂ ^ 2 * y₂ ^ 3 * d + x₁ ^ 2 * y₁ * x₂ ^ 3 +
          x₁ ^ 2 * y₁ * x₂ ^ 3 * y₂ ^ 2 * d + x₁ ^ 3 * x₂ ^ 2 * y₂) +
        y₃ * (y₁ * x₂ ^ 2 * y₂ - y₁ ^ 3 * x₂ ^ 2 * y₂ + x₁ * x₂ * y₂ ^ 2 - x₁ * y₁ ^ 2 * x₂ ^ 3 -
          x₁ * y₁ ^ 2 * x₂ ^ 3 * y₂ ^ 2 * d + x₁ ^ 2 * y₁ * y₂ ^ 3 -
          x₁ ^ 2 * y₁ * x₂ ^ 2 * y₂ ^ 3 * d + x₁ ^ 3 * x₂ * y₂ ^ 2)) * h₃

/-- The second coordinates. -/
theorem add_assoc_y {d : F} (h₁ : -x₁ ^ 2 + y₁ ^ 2 = 1 + d * x₁ ^ 2 * y₁ ^ 2)
    (h₂ : -x₂ ^ 2 + y₂ ^ 2 = 1 + d * x₂ ^ 2 * y₂ ^ 2)
    (h₃ : -x₃ ^ 2 + y₃ ^ 2 = 1 + d * x₃ ^ 2 * y₃ ^ 2) :
    ((y₁ * y₂ + x₁ * x₂) * (1 + d * x₁ * x₂ * y₁ * y₂) * y₃ +
          (x₁ * y₂ + x₂ * y₁) * (1 - d * x₁ * x₂ * y₁ * y₂) * x₃) *
        ((1 + d * x₂ * x₃ * y₂ * y₃) * (1 - d * x₂ * x₃ * y₂ * y₃) -
          d * x₁ * y₁ * (x₂ * y₃ + x₃ * y₂) * (y₂ * y₃ + x₂ * x₃)) =
      (y₁ * (y₂ * y₃ + x₂ * x₃) * (1 + d * x₂ * x₃ * y₂ * y₃) +
          x₁ * (x₂ * y₃ + x₃ * y₂) * (1 - d * x₂ * x₃ * y₂ * y₃)) *
        ((1 + d * x₁ * x₂ * y₁ * y₂) * (1 - d * x₁ * x₂ * y₁ * y₂) -
          d * (x₁ * y₂ + x₂ * y₁) * (y₁ * y₂ + x₁ * x₂) * x₃ * y₃) := by
  linear_combination
    d * x₂ * y₂ *
      (y₁ * (y₂ ^ 3 * x₃ * y₃ ^ 2 - x₂ * y₂ ^ 2 * y₃ + x₂ * y₂ ^ 2 * y₃ ^ 3 - x₂ ^ 2 * y₂ * x₃ -
          x₂ ^ 2 * y₂ * x₃ ^ 3 - x₂ ^ 2 * y₂ ^ 3 * x₃ * y₃ ^ 2 * d - x₂ ^ 3 * x₃ ^ 2 * y₃ -
          x₂ ^ 3 * y₂ ^ 2 * x₃ ^ 2 * y₃ * d) +
        x₁ * (-y₂ ^ 3 * x₃ ^ 2 * y₃ - x₂ * y₂ ^ 2 * x₃ - x₂ * y₂ ^ 2 * x₃ ^ 3 - x₂ ^ 2 * y₂ * y₃ +
          x₂ ^ 2 * y₂ * y₃ ^ 3 + x₂ ^ 2 * y₂ ^ 3 * x₃ ^ 2 * y₃ * d + x₂ ^ 3 * x₃ * y₃ ^ 2 +
          x₂ ^ 3 * y₂ ^ 2 * x₃ * y₃ ^ 2 * d)) * h₁ +
    d * x₂ * y₂ *
      (-x₁ ^ 3 * (y₂ * x₃ ^ 2 * y₃ + x₂ * x₃ * y₃ ^ 2) +
        x₁ ^ 2 * y₁ * (y₂ * x₃ + y₂ * x₃ ^ 3 - x₂ * y₃ + x₂ * y₃ ^ 3) +
        x₁ * y₁ ^ 2 * (-y₂ * y₃ + y₂ * y₃ ^ 3 + x₂ * x₃ + x₂ * x₃ ^ 3) -
        y₁ ^ 3 * (y₂ * x₃ * y₃ ^ 2 + x₂ * x₃ ^ 2 * y₃) -
        x₁ * (y₂ * x₃ ^ 2 * y₃ + x₂ * x₃ * y₃ ^ 2) +
        y₁ * (y₂ * x₃ * y₃ ^ 2 + x₂ * x₃ ^ 2 * y₃)) * h₂ +
    d * x₂ * y₂ *
      (y₃ * (y₁ * x₂ * y₂ ^ 2 - y₁ ^ 3 * x₂ * y₂ ^ 2 + x₁ * x₂ ^ 2 * y₂ - x₁ * y₁ ^ 2 * y₂ ^ 3 +
          x₁ * y₁ ^ 2 * x₂ ^ 2 * y₂ ^ 3 * d + x₁ ^ 2 * y₁ * x₂ ^ 3 +
          x₁ ^ 2 * y₁ * x₂ ^ 3 * y₂ ^ 2 * d + x₁ ^ 3 * x₂ ^ 2 * y₂) +
        x₃ * (y₁ * x₂ ^ 2 * y₂ - y₁ ^ 3 * x₂ ^ 2 * y₂ + x₁ * x₂ * y₂ ^ 2 - x₁ * y₁ ^ 2 * x₂ ^ 3 -
          x₁ * y₁ ^ 2 * x₂ ^ 3 * y₂ ^ 2 * d + x₁ ^ 2 * y₁ * y₂ ^ 3 -
          x₁ ^ 2 * y₁ * x₂ ^ 2 * y₂ ^ 3 * d + x₁ ^ 3 * x₂ * y₂ ^ 2)) * h₃

/-! ## The group -/

/-- A point of the curve. -/
@[ext]
structure Point (E : Curve F) where
  x : F
  y : F
  on : E.On x y

namespace Point

instance : Zero (Point E) where
  zero := ⟨0, 1, by unfold Curve.On; ring⟩

instance : Neg (Point E) where
  neg p := ⟨-p.x, p.y, by
    have h := p.on
    unfold Curve.On at h ⊢
    linear_combination h⟩

instance : Add (Point E) where
  add p q := ⟨_, _, p.on.add q.on⟩

@[simp] theorem zero_x : (0 : Point E).x = 0 := rfl

@[simp] theorem zero_y : (0 : Point E).y = 1 := rfl

theorem neg_x (p : Point E) : (-p).x = -p.x := rfl

theorem neg_y (p : Point E) : (-p).y = p.y := rfl

theorem add_x (p q : Point E) :
    (p + q).x = (p.x * q.y + q.x * p.y) / (1 + E.d * p.x * q.x * p.y * q.y) := rfl

theorem add_y (p q : Point E) :
    (p + q).y = (p.y * q.y + p.x * q.x) / (1 - E.d * p.x * q.x * p.y * q.y) := rfl

theorem add_comm' (p q : Point E) : p + q = q + p := by
  ext
  · rw [add_x, add_x]
    congr 1 <;> ring
  · rw [add_y, add_y]
    congr 1 <;> ring

theorem zero_add' (p : Point E) : 0 + p = p := by
  ext
  · rw [add_x]
    simp
  · rw [add_y]
    simp

theorem neg_add' (p : Point E) : -p + p = 0 := by
  ext
  · rw [add_x, neg_x, neg_y, zero_x]
    ring
  · have hden := (-p).on.sub_den_ne p.on
    have hon := p.on
    unfold Curve.On at hon
    rw [add_y, zero_y, div_eq_one_iff_eq hden, neg_x, neg_y]
    linear_combination hon

/-- The coordinates of a sum of three. -/
theorem add_add_x (p q r : Point E) : (p + q + r).x =
    ((p.x * q.y + q.x * p.y) * (1 - E.d * p.x * q.x * p.y * q.y) * r.y +
        r.x * (p.y * q.y + p.x * q.x) * (1 + E.d * p.x * q.x * p.y * q.y)) /
      ((1 + E.d * p.x * q.x * p.y * q.y) * (1 - E.d * p.x * q.x * p.y * q.y) +
        E.d * (p.x * q.y + q.x * p.y) * (p.y * q.y + p.x * q.x) * r.x * r.y) := by
  have htriple := triple_div (X := p.x * q.y + q.x * p.y) (Y := p.y * q.y + p.x * q.x) (x := r.y)
    (y := r.x) (k := E.d) (u := r.x * r.y) (p.on.add_den_ne q.on) (p.on.sub_den_ne q.on)
  rw [add_x (p + q) r, add_x p q, add_y p q]
  convert htriple using 2 <;> ring

theorem add_add_y (p q r : Point E) : (p + q + r).y =
    ((p.y * q.y + p.x * q.x) * (1 + E.d * p.x * q.x * p.y * q.y) * r.y +
        (p.x * q.y + q.x * p.y) * (1 - E.d * p.x * q.x * p.y * q.y) * r.x) /
      ((1 + E.d * p.x * q.x * p.y * q.y) * (1 - E.d * p.x * q.x * p.y * q.y) -
        E.d * (p.x * q.y + q.x * p.y) * (p.y * q.y + p.x * q.x) * r.x * r.y) := by
  have htriple := triple_div (X := p.x * q.y + q.x * p.y) (Y := p.y * q.y + p.x * q.x) (x := r.x)
    (y := r.y) (k := -E.d) (u := r.x * r.y) (p.on.add_den_ne q.on) (p.on.sub_den_ne q.on)
  rw [add_y (p + q) r, add_x p q, add_y p q]
  convert htriple using 2 <;> ring

/-- Their denominators. -/
theorem add_add_den_ne (p q r : Point E) :
    (1 + E.d * p.x * q.x * p.y * q.y) * (1 - E.d * p.x * q.x * p.y * q.y) +
        E.d * (p.x * q.y + q.x * p.y) * (p.y * q.y + p.x * q.x) * r.x * r.y ≠ 0 ∧
      (1 + E.d * p.x * q.x * p.y * q.y) * (1 - E.d * p.x * q.x * p.y * q.y) -
        E.d * (p.x * q.y + q.x * p.y) * (p.y * q.y + p.x * q.x) * r.x * r.y ≠ 0 := by
  have hA := p.on.add_den_ne q.on
  have hB := p.on.sub_den_ne q.on
  have hadd := mul_ne_zero (mul_ne_zero hA hB) ((p + q).on.add_den_ne r.on)
  have hsub := mul_ne_zero (mul_ne_zero hA hB) ((p + q).on.sub_den_ne r.on)
  rw [add_x, add_y] at hadd hsub
  refine ⟨fun h0 => hadd ?_, fun h0 => hsub ?_⟩
  · rw [← h0]
    field_simp
  · rw [← h0]
    field_simp

theorem add_assoc' (p q r : Point E) : p + q + r = p + (q + r) := by
  have hp := p.on
  have hq := q.on
  have hr := r.on
  have hleft := add_add_den_ne p q r
  have hright := add_add_den_ne q r p
  unfold Curve.On at hp hq hr
  rw [add_comm' p (q + r)]
  ext
  · rw [add_add_x, add_add_x, div_eq_div_iff hleft.1 hright.1]
    linear_combination add_assoc_x hp hq hr
  · rw [add_add_y, add_add_y, div_eq_div_iff hleft.2 hright.2]
    linear_combination add_assoc_y hp hq hr

instance : AddCommGroup (Point E) where
  add_assoc := add_assoc'
  zero_add := zero_add'
  add_zero p := (add_comm' p 0).trans (zero_add' p)
  neg_add_cancel := neg_add'
  add_comm := add_comm'
  nsmul := nsmulRec
  zsmul := zsmulRec

end Point

end Edwards
end ATalk
