import ATalk.Federation.Canonical
import ATalk.Lib.ModPow
import ATalk.Lib.Edwards
import Mathlib.NumberTheory.LegendreSymbol.Basic
import Mathlib.Tactic.NormNum.Prime

/-!
# Strict Ed25519 checks

The decoding of points and the arithmetic of the small-order test, as `ed25519strict` does them on
integers modulo `P`. The equation of the signature itself is left to PyNaCl.

* `decompress`, `add`, `scalarMul`, `smallOrder`, `verify` : the functions of the module;
* `prime_P`, `curve` : the field and the curve that they are about.
-/

namespace ATalk
namespace Federation
namespace Ed25519

open Text ModPow

/-! ## Constants -/

def P : ℕ := 2 ^ 255 - 19

def L : ℕ := 2 ^ 252 + 27742317777372353535851937790883648493

/-- `_D` -/
def D : ℤ := -121665 * powMod 121666 (P - 2) P % P

/-- `_SQRT_M1` -/
def sqrtM1 : ℤ := powMod 2 ((P - 1) / 4) P

/-! ## Points -/

/-- A point in extended coordinates. -/
structure Extended where
  x : ℤ
  y : ℤ
  z : ℤ
  t : ℤ
deriving DecidableEq, Repr

/-- `_IDENTITY` -/
def identity : Extended := ⟨0, 1, 1, 0⟩

/-- `int.from_bytes(b, "little")` -/
def littleEndian (b : Bytes) : ℕ := b.foldr (fun byte acc => byte.val + 256 * acc) 0

/-- `pow(b, e, P)` of a number that is not negative. -/
def pow (b : ℤ) (e : ℕ) : ℤ := powMod b.toNat e P

def rejected (category : String) : FederationError := ⟨"signature", category, []⟩

/-- `u v^3 (u v^7)^((P - 5) / 8)` -/
def candidate (u v : ℤ) : ℤ :=
  (u * pow v 3 % P) * pow (u * pow v 7 % P) ((P - 5) / 8) % P

/-- The end of `_decompress` : the root with the parity that the sign bit names. -/
def withSign (side : String) (x y signBit : ℤ) : Except FederationError Extended :=
  if x = 0 ∧ signBit ≠ 0 then .error (rejected ("non_canonical_" ++ side))
  else
    let x := if x % 2 ≠ signBit then P - x else x
    .ok ⟨x, y, 1, x * y % P⟩

/-- `_decompress` of 32 bytes. -/
def decompress (enc : Bytes) (side : String) : Except FederationError Extended :=
  let y : ℤ := littleEndian enc % 2 ^ 255
  let signBit : ℤ := (enc.getD 31 0).val / 128
  if P ≤ y then .error (rejected ("non_canonical_" ++ side))
  else
    let u := (y * y - 1) % P
    let v := (D * y * y + 1) % P
    let x := candidate u v
    let vx2 := v * x * x % P
    if vx2 = (P - u) % P then withSign side (x * sqrtM1 % P) y signBit
    else if vx2 ≠ u then .error ⟨"signature", "invalid_" ++ side, lit "not on curve"⟩
    else withSign side x y signBit

/-- `_add` -/
def add (p1 p2 : Extended) : Extended :=
  let a := (p1.y - p1.x) * (p2.y - p2.x) % P
  let b := (p1.y + p1.x) * (p2.y + p2.x) % P
  let c := 2 * D * p1.t * p2.t % P
  let d := 2 * p1.z * p2.z % P
  let e := b - a
  let f := d - c
  let g := d + c
  let h := b + a
  ⟨e * f % P, g * h % P, f * g % P, e * h % P⟩

def isIdentity (p : Extended) : Bool := p.x % P = 0 && (p.y - p.z) % P = 0

/-- `bin(k)[2:]`, as whether each digit is one. -/
def bin (k : ℕ) : List Bool :=
  if k ≤ 1 then [decide (k = 1)] else bin (k / 2) ++ [decide (k % 2 = 1)]

/-- `_scalar_mul` -/
def scalarMul (point : Extended) (k : ℕ) : Extended :=
  (bin k).foldl (fun result bit =>
    let result := add result result
    if bit then add result point else result) identity

/-- `_small_order` -/
def smallOrder (point : Extended) : Bool := isIdentity (scalarMul point 8)

/-- `verify`; `nacl` is whether `VerifyKey(public_key).verify(message, sig)` returns. -/
def verify (nacl : Bytes → Bytes → Bytes → Bool) (publicKey message sig : Bytes) :
    Except FederationError Bool :=
  if sig.length ≠ 64 then .error (rejected "signature_length")
  else if publicKey.length ≠ 32 then .error (rejected "public_key_length")
  else if L ≤ littleEndian (sig.drop 32) then .error (rejected "non_canonical_s")
  else do
    let r ← decompress (sig.take 32) "r"
    if smallOrder r then .error (rejected "small_order_r")
    else
      let a ← decompress publicKey "a"
      if smallOrder a then .error (rejected "small_order_a")
      else if nacl publicKey message sig then .ok true
      else .error (rejected "signature_invalid")

/-! ## The field -/

/-- Lucas's test of the module, and of the large factors below it. -/
theorem lucas_tests : LucasTest 2773320623 5 [2, 2437, 569003] ∧
    LucasTest 72106336199 7 [2, 13, 2773320623] ∧
    LucasTest 8574133 2 [2, 2, 3, 7, 103, 991] ∧
    LucasTest 1919519569386763 2 [2, 3, 7, 19, 47, 47, 127, 8574133] ∧
    LucasTest 75445702479781427272750846543864801 7
      [2, 2, 2, 2, 2, 3, 3, 5, 5, 75707, 72106336199, 1919519569386763] ∧
    LucasTest 31757755568855353 10 [2, 2, 2, 3, 31, 107, 223, 4153, 430751] ∧
    LucasTest 74058212732561358302231226437062788676166966415465897661863160754340907 2
      [2, 3, 353, 57467, 132049, 1923133, 31757755568855353, 75445702479781427272750846543864801] ∧
    LucasTest P 2 [2, 2, 3, 65147,
      74058212732561358302231226437062788676166966415465897661863160754340907] := by
  decide +kernel

theorem prime_P : Nat.Prime P := by
  obtain ⟨h₁, h₂, h₃, h₄, h₅, h₆, h₇, hP⟩ := lucas_tests
  have p₁ : Nat.Prime 2773320623 := prime_of_lucas h₁ (by
    simp only [List.forall_mem_cons]
    norm_num)
  have p₂ : Nat.Prime 72106336199 := prime_of_lucas h₂ (by
    simp only [List.forall_mem_cons, p₁]
    norm_num)
  have p₃ : Nat.Prime 8574133 := prime_of_lucas h₃ (by
    simp only [List.forall_mem_cons]
    norm_num)
  have p₄ : Nat.Prime 1919519569386763 := prime_of_lucas h₄ (by
    simp only [List.forall_mem_cons, p₃]
    norm_num)
  have p₅ : Nat.Prime 75445702479781427272750846543864801 := prime_of_lucas h₅ (by
    simp only [List.forall_mem_cons, p₂, p₄]
    norm_num)
  have p₆ : Nat.Prime 31757755568855353 := prime_of_lucas h₆ (by
    simp only [List.forall_mem_cons]
    norm_num)
  -- the large factor of `P - 1`
  have p₇ := prime_of_lucas h₇ (by
    simp only [List.forall_mem_cons, p₅, p₆]
    norm_num)
  refine prime_of_lucas hP ?_
  simp only [List.forall_mem_cons, p₇]
  norm_num

instance : Fact (Nat.Prime P) := ⟨prime_P⟩

/-- The integers of the module as residues. -/
theorem cast_emod (a : ℤ) : ((a % P : ℤ) : ZMod P) = (a : ZMod P) :=
  (ZMod.intCast_eq_intCast_iff _ _ _).mpr (Int.mod_modEq a P)

theorem cast_pow {b : ℤ} (hb : 0 ≤ b) (e : ℕ) : ((pow b e : ℤ) : ZMod P) = (b : ZMod P) ^ e := by
  unfold pow
  rw [Int.cast_natCast, powMod_cast, ← Int.cast_natCast, Int.toNat_of_nonneg hb]

theorem P_pos : (0 : ℤ) < P := by norm_num [P]

theorem emod_range (a : ℤ) : 0 ≤ a % P ∧ a % P < P :=
  ⟨Int.emod_nonneg _ P_pos.ne', Int.emod_lt_of_pos _ P_pos⟩

/-- Two reduced integers are the same residue when they are the same. -/
theorem cast_inj {a b : ℤ} (ha : 0 ≤ a ∧ a < P) (hb : 0 ≤ b ∧ b < P) :
    ((a : ZMod P) = b) ↔ a = b := by
  rw [ZMod.intCast_eq_intCast_iff]
  unfold Int.ModEq
  rw [Int.emod_eq_of_lt ha.1 ha.2, Int.emod_eq_of_lt hb.1 hb.2]

/-! ## The curve -/

/-- The constants in the kernel: the square of the root of minus one, Euler's criterion for `D`, and
the neutral point. -/
theorem constants_evaluated : (sqrtM1 * sqrtM1 + 1) % P = 0 ∧ pow D (P / 2) = P - 1 ∧
    decompress (byte 1 :: List.replicate 31 0) "r" = .ok identity ∧ smallOrder identity = true := by
  decide +kernel

theorem sqrtM1_sq : (sqrtM1 : ZMod P) ^ 2 = -1 := by
  have hcast := congrArg (fun a : ℤ => (a : ZMod P)) constants_evaluated.1
  simp only [cast_emod] at hcast
  push_cast at hcast
  linear_combination hcast

theorem two_ne_zero' : (2 : ZMod P) ≠ 0 := by
  intro h
  have hcast : ((2 : ℕ) : ZMod P) = 0 := by
    rw [Nat.cast_ofNat]
    exact h
  have hle : P ≤ 2 := Nat.le_of_dvd (by decide) ((ZMod.natCast_eq_zero_iff 2 P).mp hcast)
  have hlt : 2 < P := by norm_num [P]
  omega

theorem cast_pow_eq_neg_one {b : ℤ} (hb : 0 ≤ b) {e : ℕ} (h : pow b e = P - 1) :
    (b : ZMod P) ^ e = -1 := by
  rw [← cast_pow hb, h, Int.cast_sub, Int.cast_natCast, CharP.cast_eq_zero, Int.cast_one, zero_sub]

/-- The power of `D` that Euler's criterion looks at is `-1`. -/
theorem D_nonsquare : ¬ IsSquare (D : ZMod P) := by
  have hpow : (D : ZMod P) ^ (P / 2) = -1 := 
    cast_pow_eq_neg_one (emod_range _).1 constants_evaluated.2.1
  have hsign : (-1 : ZMod P) ≠ 1 := by
    intro h
    refine two_ne_zero' ?_
    linear_combination -h
  have hne : (D : ZMod P) ≠ 0 := by
    intro h0
    have hzero : (D : ZMod P) ^ (P / 2) = 0 := by
      rw [h0]
      exact zero_pow (Nat.div_pos prime_P.two_le two_pos).ne'
    exact neg_ne_zero.mpr one_ne_zero (hpow.symm.trans hzero)
  intro hsquare
  exact hsign (hpow.symm.trans ((ZMod.euler_criterion P hne).mp hsquare))

/-- The curve of Ed25519. -/
def curve : Edwards.Curve (ZMod P) where
  d := D
  i := sqrtM1
  sq_i := sqrtM1_sq
  two_ne := two_ne_zero'
  nonsquare := D_nonsquare

end Ed25519
end Federation
end ATalk
