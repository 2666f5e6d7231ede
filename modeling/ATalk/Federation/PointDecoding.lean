import ATalk.Federation.Ed25519

/-!
# Decoding a point

`_decompress` is the decoding of RFC 8032: the coordinate that it returns is the root of the curve's
equation with the parity that the top bit names.

* `candidate_spec` : what the exponentiation gives, for a ratio with a root and for one without;
* `decompress_of_root`, `decompress_of_no_root` : both outcomes behind it;
* `decompress_rfc8032` : which encodings are decoded, to what, and which error the others get.
-/

namespace ATalk
namespace Federation
namespace Ed25519

open Text ModPow

/-! ## Bytes -/

/-- `k.to_bytes(n, "little")` -/
def toLittleEndian : ℕ → ℕ → Bytes
  | 0, _ => []
  | n + 1, k => byte k :: toLittleEndian n (k / 256)

theorem littleEndian_cons (a : Byte) (b : Bytes) :
    littleEndian (a :: b) = a.val + 256 * littleEndian b := rfl

theorem littleEndian_append (a b : Bytes) :
    littleEndian (a ++ b) = littleEndian a + 256 ^ a.length * littleEndian b := by
  induction a with
  | nil => simp [littleEndian]
  | cons c a ih =>
    rw [List.cons_append, littleEndian_cons, littleEndian_cons, ih, List.length_cons, pow_succ]
    ring

theorem littleEndian_lt (b : Bytes) : littleEndian b < 256 ^ b.length := by
  induction b with
  | nil => exact Nat.one_pos
  | cons c b ih =>
    have hc := c.isLt
    rw [littleEndian_cons, List.length_cons, pow_succ]
    omega

theorem toLittleEndian_littleEndian (b : Bytes) :
    toLittleEndian b.length (littleEndian b) = b := by
  induction b with
  | nil => rfl
  | cons c b ih =>
    have hc := c.isLt
    rw [List.length_cons, toLittleEndian, littleEndian_cons]
    have hdiv : (c.val + 256 * littleEndian b) / 256 = littleEndian b := by omega
    have hmod : (c.val + 256 * littleEndian b) % 256 = c.val := by omega
    rw [hdiv, ih, byte_eq hmod]

/-- The sign bit is the top bit of the number. -/
theorem signBit_eq {enc : Bytes} (hlen : enc.length = 32) :
    (enc.getD 31 0).val / 128 = littleEndian enc / 2 ^ 255 := by
  have hsplit : enc = enc.take 31 ++ [enc.getD 31 0] := by
    have hdrop : enc.drop 31 = [enc.getD 31 0] := by
      have h31 : 31 < enc.length := by omega
      rw [List.drop_eq_getElem_cons h31, List.drop_eq_nil_of_le (by omega),
        List.getD_eq_getElem?_getD, List.getElem?_eq_getElem h31, Option.getD_some]
    conv_lhs => rw [← List.take_append_drop 31 enc, hdrop]
  have htake : (enc.take 31).length = 31 := by
    rw [List.length_take]
    omega
  have hlow := littleEndian_lt (enc.take 31)
  rw [htake] at hlow
  have hvalue : littleEndian enc =
      littleEndian (enc.take 31) + 2 ^ 248 * (enc.getD 31 0).val := by
    conv_lhs => rw [hsplit]
    rw [littleEndian_append, htake]
    simp [littleEndian]
  rw [hvalue]
  have hpow : (256 : ℕ) ^ 31 = 2 ^ 248 := by norm_num
  rw [hpow] at hlow
  omega

/-! ## The root -/

theorem candidate_range (u v : ℤ) : 0 ≤ candidate u v ∧ candidate u v < P := emod_range _

theorem candidate_cast {u v : ℤ} (hv : 0 ≤ v) : (candidate u v : ZMod P) =
    (u : ZMod P) * v ^ 3 * (u * v ^ 7) ^ ((P - 5) / 8) := by
  unfold candidate
  rw [cast_emod, Int.cast_mul, cast_emod, Int.cast_mul, cast_pow hv, cast_pow (emod_range _).1,
    cast_emod, Int.cast_mul, cast_pow hv]

theorem quarter_exponent : 2 * ((P - 5) / 8) + 1 = (P - 1) / 4 := by norm_num [P]

theorem half_exponent : 2 * ((P - 1) / 4) = P / 2 := by norm_num [P]

/-- The square of the candidate, up to a fourth root of unity. -/
theorem candidate_square (u v : ZMod P) {e : ℕ} :
    v * (u * v ^ 3 * (u * v ^ 7) ^ e) ^ 2 = u * (u * v ^ 7) ^ (2 * e + 1) := by
  rw [pow_succ (u * v ^ 7), pow_mul']
  ring

/-- A ratio with a root is a square, up to an eighth power. -/
theorem isSquare_of_root {u v x : ZMod P} (h : v * x ^ 2 = u) : IsSquare (u * v ^ 7) := by
  refine ⟨v ^ 4 * x, ?_⟩
  rw [← h]
  ring

theorem root_of_isSquare {u v : ZMod P} (hv : v ≠ 0) (h : IsSquare (u * v ^ 7)) :
    ∃ x, v * x ^ 2 = u := by
  obtain ⟨r, hr⟩ := h
  refine ⟨r / v ^ 4, ?_⟩
  have hv8 : v ^ 8 ≠ 0 := pow_ne_zero 8 hv
  rw [div_pow, ← pow_mul, mul_div_assoc', div_eq_iff hv8, pow_two, ← hr]
  ring

/-- The candidate is a root, or one up to the root of `-1`, when the ratio has one. -/
theorem candidate_spec {u v : ℤ} (hv : 0 ≤ v) (hv0 : (v : ZMod P) ≠ 0) :
    ((∃ x : ZMod P, v * x ^ 2 = u) →
      (v : ZMod P) * (candidate u v) ^ 2 = u ∨ (v : ZMod P) * (candidate u v) ^ 2 = -u) ∧
    ((v : ZMod P) * (candidate u v) ^ 2 = u ∨ (v : ZMod P) * (candidate u v) ^ 2 = -u →
      ∃ x : ZMod P, v * x ^ 2 = u) := by
  have hsquare := candidate_square (u : ZMod P) v (e := (P - 5) / 8)
  rw [← candidate_cast hv, quarter_exponent] at hsquare
  constructor
  · intro hroot
    by_cases hu : (u : ZMod P) = 0
    · left
      rw [hsquare, hu, zero_mul]
    · have hw : (u : ZMod P) * v ^ 7 ≠ 0 := mul_ne_zero hu (pow_ne_zero 7 hv0)
      obtain ⟨x, hx⟩ := hroot
      have heuler := (ZMod.euler_criterion P hw).mp (isSquare_of_root hx)
      rw [← half_exponent, pow_mul', pow_two, mul_self_eq_one_iff] at heuler
      rcases heuler with h1 | h1
      · left
        rw [hsquare, h1, mul_one]
      · right
        rw [hsquare, h1, mul_neg_one]
  · rintro (h | h)
    · exact ⟨_, h⟩
    · refine ⟨candidate u v * sqrtM1, ?_⟩
      rw [mul_pow, sqrtM1_sq]
      linear_combination -h

/-! ## The curve's equation -/

/-- The coordinates are on the curve. -/
def OnCurve (x y : ℤ) : Prop := curve.On (x : ZMod P) (y : ZMod P)

/-- `u` and `v` of `_decompress` -/
def ratioU (y : ℤ) : ℤ := (y * y - 1) % P

def ratioV (y : ℤ) : ℤ := (D * y * y + 1) % P

theorem ratioU_cast (y : ℤ) : (ratioU y : ZMod P) = (y : ZMod P) ^ 2 - 1 := by
  unfold ratioU
  rw [cast_emod]
  push_cast
  ring

theorem ratioV_cast (y : ℤ) : (ratioV y : ZMod P) = D * (y : ZMod P) ^ 2 + 1 := by
  unfold ratioV
  rw [cast_emod]
  push_cast
  ring

/-- The denominator of the ratio is not zero. -/
theorem ratioV_ne (y : ℤ) : (ratioV y : ZMod P) ≠ 0 := by
  rw [ratioV_cast]
  intro h0
  by_cases hy : (y : ZMod P) = 0
  · rw [hy, zero_pow two_ne_zero, mul_zero, zero_add] at h0
    exact one_ne_zero h0
  · refine D_nonsquare ⟨sqrtM1 / y, ?_⟩
    rw [div_mul_div_comm, eq_div_iff (mul_ne_zero hy hy)]
    linear_combination h0 - sqrtM1_sq

/-- A first coordinate is a root of the ratio. -/
theorem onCurve_iff {x y : ℤ} : OnCurve x y ↔ (ratioV y : ZMod P) * (x : ZMod P) ^ 2 = ratioU y := by
  rw [ratioU_cast, ratioV_cast]
  unfold OnCurve Edwards.Curve.On curve
  constructor
  · intro h
    linear_combination -h
  · intro h
    linear_combination -h

theorem onCurve_cast (x : ZMod P) (y : ℤ) (h : (ratioV y : ZMod P) * x ^ 2 = ratioU y) :
    OnCurve x.val y := by
  rw [onCurve_iff, Int.cast_natCast, ZMod.natCast_zmod_val]
  exact h

/-! ## The two outcomes -/

/-- The residue of a negated integer, and the integer that the module compares with. -/
theorem square_eq_iff {y x : ℤ} :
    (ratioV y * x * x % P = ratioU y ↔ OnCurve x y) ∧
      (ratioV y * x * x % P = (P - ratioU y) % P ↔
        (ratioV y : ZMod P) * (x : ZMod P) ^ 2 = -ratioU y) := by
  have hleft : ((ratioV y * x * x % P : ℤ) : ZMod P) = (ratioV y : ZMod P) * (x : ZMod P) ^ 2 := by
    rw [cast_emod]
    push_cast
    ring
  have hneg : (((P - ratioU y) % P : ℤ) : ZMod P) = -ratioU y := by
    rw [cast_emod, Int.cast_sub, Int.cast_natCast, CharP.cast_eq_zero, zero_sub]
  have hu : 0 ≤ ratioU y ∧ ratioU y < P := emod_range _
  constructor
  · rw [onCurve_iff, ← hleft]
    exact (cast_inj (emod_range _) hu).symm
  · rw [← hleft, ← hneg]
    exact (cast_inj (emod_range _) (emod_range _)).symm

variable {enc : Bytes} (side : String)

/-- The second coordinate and the sign bit of an encoding. -/
def secondOf (enc : Bytes) : ℤ := littleEndian enc % 2 ^ 255

def signOf (enc : Bytes) : ℤ := (enc.getD 31 0).val / 128

theorem decompress_eq (hy : secondOf enc < P) : decompress enc side =
    let x := candidate (ratioU (secondOf enc)) (ratioV (secondOf enc))
    if ratioV (secondOf enc) * x * x % P = (P - ratioU (secondOf enc)) % P then
      withSign side (x * sqrtM1 % P) (secondOf enc) (signOf enc)
    else if ratioV (secondOf enc) * x * x % P ≠ ratioU (secondOf enc) then
      .error ⟨"signature", "invalid_" ++ side, lit "not on curve"⟩
    else withSign side x (secondOf enc) (signOf enc) :=
  if_neg (not_le.mpr hy)

/-- A second coordinate of the curve comes to its sign. -/
theorem decompress_of_root (hy : secondOf enc < P) (hroot : ∃ x, OnCurve x (secondOf enc)) :
    ∃ x : ℤ, (0 ≤ x ∧ x < P) ∧ OnCurve x (secondOf enc) ∧
      decompress enc side = withSign side x (secondOf enc) (signOf enc) := by
  have hratio : ∃ x : ZMod P, ratioV (secondOf enc) * x ^ 2 = ratioU (secondOf enc) := by
    obtain ⟨x, hx⟩ := hroot
    exact ⟨x, onCurve_iff.mp hx⟩
  have hspec := (candidate_spec (emod_range _).1 (ratioV_ne (secondOf enc))).1 hratio
  rw [decompress_eq side hy]
  simp only
  split_ifs with hneg hinvalid
  · refine ⟨_, emod_range _, ?_, rfl⟩
    rw [onCurve_iff, cast_emod, Int.cast_mul, mul_pow, sqrtM1_sq]
    linear_combination -(square_eq_iff.2.mp hneg)
  · exfalso
    rcases hspec with h | h
    · exact hinvalid (square_eq_iff.1.mpr (onCurve_iff.mpr h))
    · exact hneg (square_eq_iff.2.mpr h)
  · exact ⟨_, candidate_range _ _, square_eq_iff.1.mp (not_not.mp hinvalid), rfl⟩

/-- A second coordinate of no point is refused. -/
theorem decompress_of_no_root (hy : secondOf enc < P) (hnone : ¬ ∃ x, OnCurve x (secondOf enc)) :
    decompress enc side = .error ⟨"signature", "invalid_" ++ side, lit "not on curve"⟩ := by
  have hno : ∀ x : ZMod P, ratioV (secondOf enc) * x ^ 2 ≠ ratioU (secondOf enc) := fun x hx =>
    hnone ⟨x.val, onCurve_cast x _ hx⟩
  have hspec := (candidate_spec (u := ratioU (secondOf enc)) (emod_range _).1
    (ratioV_ne (secondOf enc))).2
  rw [decompress_eq side hy]
  simp only
  split_ifs with hneg hinvalid
  · obtain ⟨x, hx⟩ := hspec (.inr (square_eq_iff.2.mp hneg))
    exact absurd hx (hno x)
  · rfl
  · obtain ⟨x, hx⟩ := hspec (.inl (onCurve_iff.mp (square_eq_iff.1.mp (not_not.mp hinvalid))))
    exact absurd hx (hno x)

/-! ## The sign -/

theorem P_odd : (P : ℤ) % 2 = 1 := by norm_num [P]

/-- The other residue of a square, for a modulus that is left a variable. -/
theorem neg_emod {p x : ℤ} (hr : 0 ≤ x ∧ x < p) : (p - x) % p = if x = 0 then 0 else p - x := by
  split_ifs with h0
  · rw [h0, sub_zero, Int.emod_self]
  · exact Int.emod_eq_of_lt (by omega) (by omega)

theorem neg_parity {p x : ℤ} (hodd : p % 2 = 1) : (p - x) % 2 = 1 - x % 2 := by omega

theorem neg_range {p x : ℤ} (hr : 0 ≤ x ∧ x < p) (hne : x ≠ 0) : 0 ≤ p - x ∧ p - x < p := by omega

/-- Two roots differ in their sign only. -/
theorem eq_or_neg_of_onCurve {x x' y : ℤ} (hx : OnCurve x y) (hx' : OnCurve x' y)
    (hr : 0 ≤ x ∧ x < P) (hr' : 0 ≤ x' ∧ x' < P) : x' = x ∨ x' = (P - x) % P := by
  have hsquares : (x' : ZMod P) * x' = x * x := by
    have h := onCurve_iff.mp hx
    have h' := onCurve_iff.mp hx'
    refine mul_left_cancel₀ (ratioV_ne y) ?_
    linear_combination h' - h
  rcases mul_self_eq_mul_self_iff.mp hsquares with h | h
  · left
    exact (cast_inj hr' hr).mp h
  · right
    refine (cast_inj hr' (emod_range _)).mp ?_
    rw [h, cast_emod, Int.cast_sub, Int.cast_natCast, CharP.cast_eq_zero, zero_sub]

/-- The parity tells the roots apart. -/
theorem eq_of_parity {x x' y : ℤ} (hx : OnCurve x y) (hx' : OnCurve x' y)
    (hr : 0 ≤ x ∧ x < P) (hr' : 0 ≤ x' ∧ x' < P) (hparity : x % 2 = x' % 2) : x = x' := by
  rcases eq_or_neg_of_onCurve hx hx' hr hr' with h | h
  · exact h.symm
  · rw [neg_emod hr] at h
    split_ifs at h with h0
    · rw [h0, h]
    · have hflip := neg_parity (x := x) P_odd
      rw [← h] at hflip
      omega

theorem onCurve_neg {x y : ℤ} (hx : OnCurve x y) : OnCurve (P - x) y := by
  rw [onCurve_iff] at hx ⊢
  rw [Int.cast_sub, Int.cast_natCast, CharP.cast_eq_zero, zero_sub, neg_sq]
  exact hx

/-- The end of `_decompress`, from any root. -/
theorem withSign_spec {x y s : ℤ} (hx : OnCurve x y) (hr : 0 ≤ x ∧ x < P) (hs : s = 0 ∨ s = 1) :
    (x = 0 ∧ s = 1 ∧ withSign side x y s = .error (rejected ("non_canonical_" ++ side))) ∨
      ∃ x' : ℤ, (0 ≤ x' ∧ x' < P) ∧ OnCurve x' y ∧ x' % 2 = s ∧ (x' = 0 → s = 0) ∧
        withSign side x y s = .ok ⟨x', y, 1, x' * y % P⟩ := by
  unfold withSign
  by_cases hcanon : x = 0 ∧ s ≠ 0
  · left
    rw [if_pos hcanon]
    exact ⟨hcanon.1, hs.resolve_left hcanon.2, rfl⟩
  · right
    rw [if_neg hcanon]
    by_cases hparity : x % 2 = s
    · refine ⟨x, hr, hx, hparity, ?_, ?_⟩
      · rintro rfl
        rw [← hparity, Int.zero_emod]
      · simp only [if_neg (not_not.mpr hparity)]
    · -- the root has the other parity, so it is not zero
      have hne : x ≠ 0 := by
        intro h0
        have hs0 : s = 0 := not_not.mp fun h => hcanon ⟨h0, h⟩
        rw [h0, hs0] at hparity
        exact hparity (Int.zero_emod 2)
      have hflip := neg_parity (x := x) P_odd
      refine ⟨P - x, neg_range hr hne, onCurve_neg hx, ?_, ?_, ?_⟩
      · rw [hflip]
        rcases Int.emod_two_eq_zero_or_one x with h2 | h2 <;> omega
      · intro h0
        exact absurd h0 (sub_pos.mpr hr.2).ne'
      · simp only [if_pos hparity]

/-! ## The decoding -/

/-- The encoding of a point: the second coordinate, with the parity of the first on top. -/
def encode (x y : ℤ) : Bytes := toLittleEndian 32 (y.toNat + x.toNat % 2 * 2 ^ 255)

/-- The point that an encoding stands for, by its first coordinate. -/
def Decodes (enc : Bytes) (x : ℤ) : Prop :=
  secondOf enc < P ∧ (0 ≤ x ∧ x < P) ∧ OnCurve x (secondOf enc) ∧ x % 2 = signOf enc

theorem signOf_eq (hlen : enc.length = 32) : signOf enc = littleEndian enc / 2 ^ 255 := by
  have h := congrArg (fun n : ℕ => (n : ℤ)) (signBit_eq hlen)
  push_cast at h
  exact h

theorem signOf_bit (enc : Bytes) : signOf enc = 0 ∨ signOf enc = 1 := by
  have hbyte := (enc.getD 31 0).isLt
  unfold signOf
  omega

theorem secondOf_nonneg (enc : Bytes) : 0 ≤ secondOf enc := Int.emod_nonneg _ (by norm_num)

theorem decodes_unique {x x' : ℤ} (h : Decodes enc x) (h' : Decodes enc x') : x = x' :=
  eq_of_parity h.2.2.1 h'.2.2.1 h.2.1 h'.2.1 (h.2.2.2.trans h'.2.2.2.symm)

/-- A decoded point encodes to the same bytes. -/
theorem encode_of_decodes (hlen : enc.length = 32) {x : ℤ} (h : Decodes enc x) :
    encode x (secondOf enc) = enc := by
  have hx : (x.toNat % 2 : ℕ) = littleEndian enc / 2 ^ 255 := by
    have hparity := h.2.2.2
    rw [signOf_eq hlen] at hparity
    have hnonneg := h.2.1.1
    omega
  have hy : (secondOf enc).toNat = littleEndian enc % 2 ^ 255 := by
    unfold secondOf
    omega
  have hnumber : (secondOf enc).toNat + x.toNat % 2 * 2 ^ 255 = littleEndian enc := by
    rw [hx, hy]
    omega
  unfold encode
  rw [hnumber, ← hlen, toLittleEndian_littleEndian]

/-- A second coordinate that is not reduced is refused. -/
theorem decompress_of_large (hy : P ≤ secondOf enc) :
    decompress enc side = .error (rejected ("non_canonical_" ++ side)) := if_pos hy

/-- A second coordinate of the curve is decoded, except for the other zero. -/
theorem decompress_of_onCurve (hy : secondOf enc < P)
    (hroot : ∃ x : ℤ, OnCurve x (secondOf enc)) :
    (OnCurve 0 (secondOf enc) ∧ signOf enc = 1 ∧
      decompress enc side = .error (rejected ("non_canonical_" ++ side))) ∨
    ∃ x, Decodes enc x ∧
      decompress enc side = .ok ⟨x, secondOf enc, 1, x * secondOf enc % P⟩ := by
  obtain ⟨x, hr, hx, heq⟩ := decompress_of_root side hy hroot
  rw [heq]
  rcases withSign_spec side hx hr (signOf_bit enc) with h | h
  · obtain ⟨h0, hs, herror⟩ := h
    rw [h0] at hx
    exact .inl ⟨hx, hs, herror⟩
  · obtain ⟨x', hr', hx', hparity, hzero, hok⟩ := h
    exact .inr ⟨x', ⟨hy, hr', hx', hparity⟩, hok⟩

/-- The other zero is no decoding: the only root of its second coordinate is zero. -/
theorem not_decodes_of_zero (h0 : OnCurve 0 (secondOf enc)) (hs : signOf enc = 1) (x : ℤ) :
    ¬ Decodes enc x := by
  intro h
  have hparity := h.2.2.2
  rcases eq_or_neg_of_onCurve h0 h.2.2.1 ⟨le_rfl, P_pos⟩ h.2.1 with hx | hx
  · rw [hx, hs] at hparity
    exact absurd hparity (by decide)
  · rw [neg_emod ⟨le_rfl, P_pos⟩, if_pos rfl] at hx
    rw [hx, hs] at hparity
    exact absurd hparity (by decide)

/-- An encoding is decoded exactly when it stands for a point, and to that point. -/
theorem decompress_ok_iff (p : Extended) : decompress enc side = .ok p ↔
    ∃ x, Decodes enc x ∧ p = ⟨x, secondOf enc, 1, x * secondOf enc % P⟩ := by
  constructor
  · intro hp
    rcases le_or_gt (P : ℤ) (secondOf enc) with hy | hy
    · rw [decompress_of_large side hy] at hp
      nomatch hp
    · by_cases hroot : ∃ x : ℤ, OnCurve x (secondOf enc)
      · rcases decompress_of_onCurve side hy hroot with ⟨-, -, h⟩ | ⟨x, hx, h⟩
        · rw [h] at hp
          nomatch hp
        · rw [h] at hp
          exact ⟨x, hx, (Except.ok.inj hp).symm⟩
      · rw [decompress_of_no_root side hy hroot] at hp
        nomatch hp
  · rintro ⟨x, hx, rfl⟩
    rcases decompress_of_onCurve side hx.1 ⟨x, hx.2.2.1⟩ with ⟨h0, hs, -⟩ | ⟨x', hx', h⟩
    · exact absurd hx (not_decodes_of_zero h0 hs x)
    · rw [h, decodes_unique hx' hx]

/-- The reason for which the bytes of no point are refused. -/
theorem decompress_error (hnone : ¬ ∃ x, Decodes enc x) :
    ((P ≤ secondOf enc ∨ OnCurve 0 (secondOf enc) ∧ signOf enc = 1) ∧
      decompress enc side = .error (rejected ("non_canonical_" ++ side))) ∨
    ((secondOf enc < P ∧ ¬ ∃ x : ℤ, OnCurve x (secondOf enc)) ∧
      decompress enc side = .error ⟨"signature", "invalid_" ++ side, lit "not on curve"⟩) := by
  rcases le_or_gt (P : ℤ) (secondOf enc) with hy | hy
  · exact .inl ⟨.inl hy, decompress_of_large side hy⟩
  · by_cases hroot : ∃ x : ℤ, OnCurve x (secondOf enc)
    · rcases decompress_of_onCurve side hy hroot with h | h
      · exact .inl ⟨.inr ⟨h.1, h.2.1⟩, h.2.2⟩
      · exact absurd ⟨h.choose, h.choose_spec.1⟩ hnone
    · exact .inr ⟨⟨hy, hroot⟩, decompress_of_no_root side hy hroot⟩

/-- Decoding is that of RFC 8032. The bytes of a point give that point, which encodes to them, and
no other point does. The bytes of no point are refused, with the reason that applies. -/
theorem decompress_rfc8032 (enc : Bytes) (side : String) (hlen : enc.length = 32) :
    (∀ p, decompress enc side = .ok p ↔
      ∃ x, Decodes enc x ∧ p = ⟨x, secondOf enc, 1, x * secondOf enc % P⟩) ∧
    (∀ x x', Decodes enc x → Decodes enc x' → x = x') ∧
    (∀ p, decompress enc side = .ok p → encode p.x p.y = enc) ∧
    ((¬ ∃ x, Decodes enc x) →
      ((P ≤ secondOf enc ∨ OnCurve 0 (secondOf enc) ∧ signOf enc = 1) ∧
        decompress enc side = .error (rejected ("non_canonical_" ++ side))) ∨
      ((secondOf enc < P ∧ ¬ ∃ x : ℤ, OnCurve x (secondOf enc)) ∧
        decompress enc side =
          .error ⟨"signature", "invalid_" ++ side, lit "not on curve"⟩)) := by
  refine ⟨decompress_ok_iff side, fun x x' => decodes_unique, ?_, decompress_error side⟩
  intro p hp
  obtain ⟨x, hx, rfl⟩ := (decompress_ok_iff side p).mp hp
  exact encode_of_decodes hlen hx

/-- The encoding of the neutral point. -/
theorem decompress_rfc8032_identity :
    decompress (byte 1 :: List.replicate 31 0) "r" = .ok identity ∧
      encode 0 1 = byte 1 :: List.replicate 31 0 := by
  have hok := constants_evaluated.2.2.1
  have hspec := decompress_rfc8032 (byte 1 :: List.replicate 31 0) "r" (by decide)
  exact ⟨hok, hspec.2.2.1 identity hok⟩

end Ed25519
end Federation
end ATalk
