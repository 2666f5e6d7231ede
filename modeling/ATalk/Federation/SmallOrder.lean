import ATalk.Federation.PointDecoding
import ATalk.Lib.Checks
import Mathlib.GroupTheory.OrderOfElement

/-!
# The small-order test

The arithmetic in extended coordinates is that of the group of the curve, so that multiplying by
eight decides whether the order of a point divides eight.

* `Represents` : the coordinates that stand for a point;
* `represents_add`, `represents_scalarMul` : the two operations;
* `smallOrder_exact` : the test, and the two rejections of `verify`.
-/

namespace ATalk
namespace Federation
namespace Ed25519

open Text Checks

/-- The points of the curve, with their group. -/
abbrev CurvePoint : Type := Edwards.Point curve

/-- The coordinates stand for a point: `Z` is not zero, `X = x Z`, `Y = y Z` and `X Y = Z T`. -/
structure Represents (p : Extended) (q : CurvePoint) : Prop where
  z_ne : (p.z : ZMod P) ≠ 0
  x_eq : (p.x : ZMod P) = q.x * p.z
  y_eq : (p.y : ZMod P) = q.y * p.z
  xy_eq : (p.x : ZMod P) * p.y = p.z * p.t

/-! ## Addition -/

theorem Represents.t_eq {p : Extended} {q : CurvePoint} (h : Represents p q) :
    (p.t : ZMod P) = q.x * q.y * p.z := by
  refine mul_left_cancel₀ h.z_ne ?_
  rw [← h.xy_eq, h.x_eq, h.y_eq]
  ring

theorem represents_identity : Represents identity 0 where
  z_ne := by
    rw [identity, Int.cast_one]
    exact one_ne_zero
  x_eq := by
    rw [identity, Int.cast_zero, Edwards.Point.zero_x, zero_mul]
  y_eq := by
    rw [identity, Edwards.Point.zero_y, one_mul]
  xy_eq := by
    simp [identity]

/-- The coordinates of a sum, as residues. -/
theorem add_cast (p₁ p₂ : Extended) :
    ((add p₁ p₂).x : ZMod P) = 2 * (p₁.x * p₂.y + p₂.x * p₁.y) *
        (2 * p₁.z * p₂.z - 2 * D * p₁.t * p₂.t) ∧
      ((add p₁ p₂).y : ZMod P) = (2 * p₁.z * p₂.z + 2 * D * p₁.t * p₂.t) *
        (2 * (p₁.y * p₂.y + p₁.x * p₂.x)) ∧
      ((add p₁ p₂).z : ZMod P) = (2 * p₁.z * p₂.z - 2 * D * p₁.t * p₂.t) *
        (2 * p₁.z * p₂.z + 2 * D * p₁.t * p₂.t) ∧
      ((add p₁ p₂).t : ZMod P) = 2 * (p₁.x * p₂.y + p₂.x * p₁.y) *
        (2 * (p₁.y * p₂.y + p₁.x * p₂.x)) := by
  unfold add
  simp only [cast_emod, Int.cast_mul, Int.cast_sub, Int.cast_add, Int.cast_ofNat]
  refine ⟨?_, ?_, trivial, ?_⟩
  · ring
  · ring
  · ring

/-- `_add` stands for the sum, whatever the two points are. -/
theorem represents_add {p₁ p₂ : Extended} {q₁ q₂ : CurvePoint} (h₁ : Represents p₁ q₁)
    (h₂ : Represents p₂ q₂) : Represents (add p₁ p₂) (q₁ + q₂) := by
  obtain ⟨hx, hy, hz, ht⟩ := add_cast p₁ p₂
  have hadd : 1 + (D : ZMod P) * q₁.x * q₂.x * q₁.y * q₂.y ≠ 0 := q₁.on.add_den_ne q₂.on
  have hsub : 1 - (D : ZMod P) * q₁.x * q₂.x * q₁.y * q₂.y ≠ 0 := q₁.on.sub_den_ne q₂.on
  have hscale : (2 : ZMod P) * p₁.z * p₂.z ≠ 0 :=
    mul_ne_zero (mul_ne_zero two_ne_zero' h₁.z_ne) h₂.z_ne
  have hsumx : (q₁ + q₂).x * (1 + (D : ZMod P) * q₁.x * q₂.x * q₁.y * q₂.y) =
      q₁.x * q₂.y + q₂.x * q₁.y := div_mul_cancel₀ _ hadd
  have hsumy : (q₁ + q₂).y * (1 - (D : ZMod P) * q₁.x * q₂.x * q₁.y * q₂.y) =
      q₁.y * q₂.y + q₁.x * q₂.x := div_mul_cancel₀ _ hsub
  rw [h₁.x_eq, h₁.y_eq, h₂.x_eq, h₂.y_eq] at hx hy ht
  rw [h₁.t_eq, h₂.t_eq] at hx hy hz
  constructor
  · have hz' : ((add p₁ p₂).z : ZMod P) = (2 * p₁.z * p₂.z) ^ 2 *
        ((1 - D * q₁.x * q₂.x * q₁.y * q₂.y) * (1 + D * q₁.x * q₂.x * q₁.y * q₂.y)) := by
      rw [hz]
      ring
    rw [hz']
    exact mul_ne_zero (pow_ne_zero 2 hscale) (mul_ne_zero hsub hadd)
  · rw [hx, hz]
    linear_combination -(2 * (p₁.z : ZMod P) * p₂.z) ^ 2 *
      (1 - (D : ZMod P) * q₁.x * q₂.x * q₁.y * q₂.y) * hsumx
  · rw [hy, hz]
    linear_combination -(2 * (p₁.z : ZMod P) * p₂.z) ^ 2 *
      (1 + (D : ZMod P) * q₁.x * q₂.x * q₁.y * q₂.y) * hsumy
  · rw [hx, hy, hz, ht]
    ring

/-! ## Multiplication -/

/-- The number of a list of digits, the highest first. -/
def ofDigits (digits : List Bool) (start : ℕ) : ℕ :=
  digits.foldl (fun acc bit => 2 * acc + bit.toNat) start

theorem ofDigits_bin (k : ℕ) : ofDigits (bin k) 0 = k := by
  induction k using bin.induct with
  | case1 k hk =>
    unfold bin
    rw [if_pos hk]
    interval_cases k <;> rfl
  | case2 k hk ih =>
    unfold bin
    rw [if_neg hk]
    unfold ofDigits at ih ⊢
    rw [List.foldl_append, ih, List.foldl_cons, List.foldl_nil]
    rcases Nat.mod_two_eq_zero_or_one k with h2 | h2
    · rw [h2]
      simp only [Nat.reduceEqDiff, decide_false, Bool.toNat_false]
      omega
    · rw [h2]
      simp only [decide_true, Bool.toNat_true]
      omega

/-- Double and add, from any multiple on. -/
theorem represents_foldl {point : Extended} {q : CurvePoint} (h : Represents point q)
    (digits : List Bool) : ∀ {result : Extended} {m : ℕ}, Represents result (m • q) →
      Represents (digits.foldl (fun result bit =>
        let result := add result result
        if bit then add result point else result) result) (ofDigits digits m • q) := by
  induction digits with
  | nil =>
    intro result m hresult
    exact hresult
  | cons bit digits ih =>
    intro result m hresult
    have hdouble : Represents (add result result) ((2 * m) • q) := by
      rw [two_mul, add_nsmul]
      exact represents_add hresult hresult
    cases bit with
    | false => exact ih hdouble
    | true =>
      refine ih (m := 2 * m + 1) ?_
      rw [add_nsmul, one_nsmul]
      exact represents_add hdouble h

theorem represents_scalarMul {point : Extended} {q : CurvePoint} (h : Represents point q) (k : ℕ) :
    Represents (scalarMul point k) (k • q) := by
  have hstart : Represents identity (0 • q) := by
    rw [zero_nsmul]
    exact represents_identity
  have hrun := represents_foldl h (bin k) hstart
  rw [ofDigits_bin] at hrun
  exact hrun

/-! ## The test -/

theorem emod_eq_zero_iff (a : ℤ) : a % P = 0 ↔ (a : ZMod P) = 0 := by
  rw [← Int.dvd_iff_emod_eq_zero, ← ZMod.intCast_zmod_eq_zero_iff_dvd]

theorem isIdentity_iff {p : Extended} {q : CurvePoint} (h : Represents p q) :
    isIdentity p = true ↔ q = 0 := by
  unfold isIdentity
  rw [Bool.and_eq_true, decide_eq_true_eq, decide_eq_true_eq, emod_eq_zero_iff, emod_eq_zero_iff,
    Int.cast_sub, h.x_eq, h.y_eq, mul_eq_zero_iff_right h.z_ne]
  constructor
  · rintro ⟨hx, hy⟩
    have hone : (q.y - 1) * (p.z : ZMod P) = 0 := by linear_combination hy
    have hy1 := sub_eq_zero.mp ((mul_eq_zero.mp hone).resolve_right h.z_ne)
    exact Edwards.Point.ext hx hy1
  · rintro rfl
    refine ⟨rfl, ?_⟩
    rw [Edwards.Point.zero_y, one_mul, sub_self]

theorem smallOrder_iff {p : Extended} {q : CurvePoint} (h : Represents p q) :
    smallOrder p = true ↔ addOrderOf q ∣ 8 := by
  rw [addOrderOf_dvd_iff_nsmul_eq_zero]
  exact isIdentity_iff (represents_scalarMul h 8)

/-- A point as `_decompress` returns it. -/
theorem represents_affine {x y : ℤ} (h : OnCurve x y) :
    Represents ⟨x, y, 1, x * y % P⟩ ⟨x, y, h⟩ where
  z_ne := by
    rw [Int.cast_one]
    exact one_ne_zero
  x_eq := by
    rw [Int.cast_one, mul_one]
  y_eq := by
    rw [Int.cast_one, mul_one]
  xy_eq := by
    rw [cast_emod, Int.cast_mul, Int.cast_one, one_mul]

theorem represents_decompress {enc : Bytes} {side : String} {p : Extended}
    (h : decompress enc side = .ok p) : ∃ q, Represents p q := by
  obtain ⟨x, hx, rfl⟩ := (decompress_ok_iff side p).mp h
  exact ⟨_, represents_affine hx.2.2.1⟩

/-! ## The rejections -/

/-- The bytes stand for a point with an order that divides eight. -/
def SmallOrder (enc : Bytes) : Prop :=
  ∃ x, ∃ h : Decodes enc x, addOrderOf (⟨x, secondOf enc, h.2.2.1⟩ : CurvePoint) ∣ 8

/-- The bytes stand for a point with another order. -/
def LargeOrder (enc : Bytes) : Prop :=
  ∃ x, ∃ h : Decodes enc x, ¬ addOrderOf (⟨x, secondOf enc, h.2.2.1⟩ : CurvePoint) ∣ 8

/-- What the decoding and the test say together. -/
theorem decompress_cases (enc : Bytes) (side : String) :
    (SmallOrder enc ∧ ¬ LargeOrder enc ∧
      ∃ p, decompress enc side = .ok p ∧ smallOrder p = true) ∨
    (LargeOrder enc ∧ ¬ SmallOrder enc ∧
      ∃ p, decompress enc side = .ok p ∧ smallOrder p = false) ∨
    (¬ SmallOrder enc ∧ ¬ LargeOrder enc ∧
      ∃ e, decompress enc side = .error e ∧
        (e.category = "non_canonical_" ++ side ∨ e.category = "invalid_" ++ side)) := by
  by_cases hdecodes : ∃ x, Decodes enc x
  · obtain ⟨x, hx⟩ := hdecodes
    have hok : decompress enc side = .ok ⟨x, secondOf enc, 1, x * secondOf enc % P⟩ :=
      (decompress_ok_iff side _).mpr ⟨x, hx, rfl⟩
    have hiff := smallOrder_iff (represents_affine hx.2.2.1)
    by_cases horder : addOrderOf (⟨x, secondOf enc, hx.2.2.1⟩ : CurvePoint) ∣ 8
    · refine .inl ⟨⟨x, hx, horder⟩, ?_, _, hok, hiff.mpr horder⟩
      rintro ⟨x', hx', hnot⟩
      obtain rfl := decodes_unique hx hx'
      exact hnot horder
    · refine .inr (.inl ⟨⟨x, hx, horder⟩, ?_, _, hok, ?_⟩)
      · rintro ⟨x', hx', hdvd⟩
        obtain rfl := decodes_unique hx hx'
        exact horder hdvd
      · exact Bool.eq_false_iff.mpr fun htrue => horder (hiff.mp htrue)
  · refine .inr (.inr ⟨fun h => hdecodes ⟨h.choose, h.choose_spec.1⟩,
      fun h => hdecodes ⟨h.choose, h.choose_spec.1⟩, ?_⟩)
    rcases decompress_error side hdecodes with h | h
    · exact ⟨_, h.2, .inl rfl⟩
    · exact ⟨_, h.2, .inr rfl⟩

/-- The checks of `verify` that come before the points. -/
def WellFormed (publicKey sig : Bytes) : Prop :=
  sig.length = 64 ∧ publicKey.length = 32 ∧ littleEndian (sig.drop 32) < L

/-- The other reasons of `verify`. -/
def otherCategories : List String :=
  ["signature_length", "public_key_length", "non_canonical_s", "non_canonical_r", "invalid_r",
    "non_canonical_a", "invalid_a", "signature_invalid"]

variable {nacl : Bytes → Bytes → Bytes → Bool} {publicKey message sig : Bytes}

theorem verify_of_not_wellFormed (h : ¬ WellFormed publicKey sig) :
    ∀ e, verify nacl publicKey message sig = .error e → e.category ∈ otherCategories := by
  intro e he
  unfold verify at he
  by_cases hsig : sig.length = 64
  · rw [if_neg (not_not.mpr hsig)] at he
    by_cases hkey : publicKey.length = 32
    · rw [if_neg (not_not.mpr hkey)] at he
      by_cases hs : littleEndian (sig.drop 32) < L
      · exact absurd ⟨hsig, hkey, hs⟩ h
      · rw [if_pos (not_lt.mp hs)] at he
        rw [← Except.error.inj he]
        show "non_canonical_s" ∈ otherCategories
        decide
    · rw [if_pos hkey] at he
      rw [← Except.error.inj he]
      show "public_key_length" ∈ otherCategories
      decide
  · rw [if_pos hsig] at he
    rw [← Except.error.inj he]
    show "signature_length" ∈ otherCategories
    decide

/-- What `verify` answers, by the points that its two encodings stand for. -/
theorem verify_of_wellFormed (nacl : Bytes → Bytes → Bytes → Bool) (message : Bytes)
    (h : WellFormed publicKey sig) :
    (SmallOrder (sig.take 32) ∧ ¬ LargeOrder (sig.take 32) ∧
      verify nacl publicKey message sig = .error (rejected "small_order_r")) ∨
    (¬ SmallOrder (sig.take 32) ∧ LargeOrder (sig.take 32) ∧ SmallOrder publicKey ∧
      verify nacl publicKey message sig = .error (rejected "small_order_a")) ∨
    (¬ SmallOrder (sig.take 32) ∧ ¬ (LargeOrder (sig.take 32) ∧ SmallOrder publicKey) ∧
      ∀ e, verify nacl publicKey message sig = .error e → e.category ∈ otherCategories) := by
  unfold verify
  rw [if_neg (not_not.mpr h.1), if_neg (not_not.mpr h.2.1), if_neg (not_le.mpr h.2.2)]
  rcases decompress_cases (sig.take 32) "r" with hr | hr | hr
  · obtain ⟨hsmall, hlarge, r, hok, htest⟩ := hr
    left
    rw [hok]
    exact ⟨hsmall, hlarge, if_pos htest⟩
  · obtain ⟨hlarge, hsmall, r, hok, htest⟩ := hr
    right
    rw [hok]
    simp only [ok_bind, htest, Bool.false_eq_true, if_false]
    rcases decompress_cases publicKey "a" with ha | ha | ha
    · obtain ⟨hsmallA, -, a, hokA, htestA⟩ := ha
      left
      rw [hokA]
      exact ⟨hsmall, hlarge, hsmallA, if_pos htestA⟩
    · obtain ⟨-, hsmallA, a, hokA, htestA⟩ := ha
      right
      refine ⟨hsmall, fun hboth => hsmallA hboth.2, ?_⟩
      rw [hokA]
      simp only [ok_bind, htestA, Bool.false_eq_true, if_false]
      intro e he
      split_ifs at he with hnacl
      rw [← Except.error.inj he]
      show "signature_invalid" ∈ otherCategories
      decide
    · obtain ⟨hsmallA, -, e, herror, hcategory⟩ := ha
      right
      refine ⟨hsmall, fun hboth => hsmallA hboth.2, ?_⟩
      rw [herror]
      intro e' he'
      rw [← Except.error.inj he']
      rcases hcategory with hc | hc
      · rw [hc]
        decide
      · rw [hc]
        decide
  · obtain ⟨hsmall, hlarge, e, herror, hcategory⟩ := hr
    right
    right
    refine ⟨hsmall, fun hboth => hlarge hboth.1, ?_⟩
    rw [herror]
    intro e' he'
    rw [← Except.error.inj he']
    rcases hcategory with hc | hc
    · rw [hc]
      decide
    · rw [hc]
      decide

theorem verify_small_order_r : verify nacl publicKey message sig =
      .error (rejected "small_order_r") ↔
    WellFormed publicKey sig ∧ SmallOrder (sig.take 32) := by
  constructor
  · intro hr
    by_cases h : WellFormed publicKey sig
    · rcases verify_of_wellFormed nacl message h with h1 | h1 | h1
      · exact ⟨h, h1.1⟩
      · rw [h1.2.2.2] at hr
        exact absurd (congrArg FederationError.category (Except.error.inj hr)) (by decide)
      · exact absurd (h1.2.2 _ hr) (by decide)
    · exact absurd (verify_of_not_wellFormed h _ hr) (by decide)
  · rintro ⟨h, hsmall⟩
    rcases verify_of_wellFormed nacl message h with h1 | h1 | h1
    · exact h1.2.2
    · exact absurd hsmall h1.1
    · exact absurd hsmall h1.1

theorem verify_small_order_a : verify nacl publicKey message sig =
      .error (rejected "small_order_a") ↔
    WellFormed publicKey sig ∧ LargeOrder (sig.take 32) ∧ SmallOrder publicKey := by
  constructor
  · intro ha
    by_cases h : WellFormed publicKey sig
    · rcases verify_of_wellFormed nacl message h with h1 | h1 | h1
      · rw [h1.2.2] at ha
        exact absurd (congrArg FederationError.category (Except.error.inj ha)) (by decide)
      · exact ⟨h, h1.2.1, h1.2.2.1⟩
      · exact absurd (h1.2.2 _ ha) (by decide)
    · exact absurd (verify_of_not_wellFormed h _ ha) (by decide)
  · rintro ⟨h, hlarge, hsmall⟩
    rcases verify_of_wellFormed nacl message h with h1 | h1 | h1
    · exact absurd hlarge h1.2.1
    · exact h1.2.2.2
    · exact absurd ⟨hlarge, hsmall⟩ h1.2.1

/-- The small-order test is exact. Addition and multiplication in extended coordinates are those of
the group, so the test of a decoded point is whether eight times it is neutral, and `verify` names a
small order exactly for the encodings, reached by its checks, of points whose order divides eight. -/
theorem smallOrder_exact :
    (∀ p₁ p₂ q₁ q₂, Represents p₁ q₁ → Represents p₂ q₂ → Represents (add p₁ p₂) (q₁ + q₂)) ∧
    (∀ p q k, Represents p q → 1 ≤ k → Represents (scalarMul p k) (k • q)) ∧
    (∀ x y, ∀ h : OnCurve x y,
      (smallOrder ⟨x, y, 1, x * y % P⟩ = true ↔ 8 • (⟨x, y, h⟩ : CurvePoint) = 0)) ∧
    (∀ enc side p, decompress enc side = .ok p →
      ∃ q, Represents p q ∧ (smallOrder p = true ↔ 8 • q = 0)) ∧
    (∀ nacl publicKey message sig,
      (verify nacl publicKey message sig = .error (rejected "small_order_r") ↔
        WellFormed publicKey sig ∧ SmallOrder (sig.take 32)) ∧
      (verify nacl publicKey message sig = .error (rejected "small_order_a") ↔
        WellFormed publicKey sig ∧ LargeOrder (sig.take 32) ∧ SmallOrder publicKey)) := by
  refine ⟨?_, ?_, ?_, ?_, ?_⟩
  · intro p₁ p₂ q₁ q₂ h₁ h₂
    exact represents_add h₁ h₂
  · intro p q k h hk
    exact represents_scalarMul h k
  · intro x y h
    exact isIdentity_iff (represents_scalarMul (represents_affine h) 8)
  · intro enc side p hp
    obtain ⟨q, hq⟩ := represents_decompress hp
    exact ⟨q, hq, isIdentity_iff (represents_scalarMul hq 8)⟩
  · intro nacl publicKey message sig
    exact ⟨verify_small_order_r, verify_small_order_a⟩

/-- The neutral point has a small order. -/
theorem smallOrder_exact_identity :
    decompress (byte 1 :: List.replicate 31 0) "r" = .ok identity ∧
      ∃ q : CurvePoint, Represents identity q ∧ 8 • q = 0 := by
  have hok := constants_evaluated.2.2.1
  obtain ⟨q, hq, hiff⟩ := smallOrder_exact.2.2.2.1 _ _ _ hok
  exact ⟨hok, q, hq, hiff.mp constants_evaluated.2.2.2⟩

end Ed25519
end Federation
end ATalk
