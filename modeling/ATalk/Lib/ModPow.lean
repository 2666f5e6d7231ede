import Mathlib.NumberTheory.LucasPrimality
import Mathlib.Data.List.Prime
import Mathlib.Data.Nat.Log
import Mathlib.Tactic.Ring

/-!
# Powers modulo a number

`powMod b e m` is `pow(b, e, m)`, by squaring, so that it can be evaluated for large exponents. With it
a number is shown to be prime by Lucas's test.

* `powMod_eq` : it is the power;
* `powMod_cast` : the same in `ZMod m`;
* `LucasTest`, `prime_of_lucas` : a number with an element of full order is prime.
-/

namespace ATalk
namespace ModPow

/-- The loop over the bits of the exponent, from the low end. -/
def powLoop (m : ℕ) : ℕ → ℕ → ℕ → ℕ → ℕ
  | 0, acc, _, _ => acc
  | fuel + 1, acc, b, e =>
    powLoop m fuel (if e % 2 = 1 then acc * b % m else acc) (b * b % m) (e / 2)

/-- `pow(b, e, m)` -/
def powMod (b e m : ℕ) : ℕ := powLoop m (e.log2 + 1) (1 % m) (b % m) e

theorem powLoop_modEq (m : ℕ) : ∀ (fuel acc b e : ℕ), e < 2 ^ fuel →
    powLoop m fuel acc b e ≡ acc * b ^ e [MOD m]
  | 0, acc, b, e, he => by
    have he0 : e = 0 := Nat.lt_one_iff.mp he
    rw [he0, pow_zero, mul_one]
    rfl
  | fuel + 1, acc, b, e, he => by
    have hhalf : e / 2 < 2 ^ fuel := by
      rw [pow_succ] at he
      omega
    have hsquare : (b * b % m) ^ (e / 2) ≡ b ^ (2 * (e / 2)) [MOD m] := by
      rw [pow_mul, pow_two]
      exact (Nat.mod_modEq _ _).pow _
    have hrest := powLoop_modEq m fuel (if e % 2 = 1 then acc * b % m else acc) (b * b % m) (e / 2)
      hhalf
    rw [powLoop]
    refine hrest.trans ?_
    split_ifs with hodd
    · have hexp : e = 2 * (e / 2) + 1 := by omega
      calc acc * b % m * (b * b % m) ^ (e / 2)
          ≡ acc * b * b ^ (2 * (e / 2)) [MOD m] := (Nat.mod_modEq _ _).mul hsquare
        _ = acc * b ^ (2 * (e / 2) + 1) := by ring
        _ = acc * b ^ e := by rw [← hexp]
    · have hexp : e = 2 * (e / 2) := by omega
      calc acc * (b * b % m) ^ (e / 2)
          ≡ acc * b ^ (2 * (e / 2)) [MOD m] := hsquare.mul_left acc
        _ = acc * b ^ e := by rw [← hexp]

theorem powLoop_lt {m : ℕ} (hm : 0 < m) : ∀ (fuel acc b e : ℕ), acc < m →
    powLoop m fuel acc b e < m
  | 0, _, _, _, hacc => hacc
  | fuel + 1, acc, b, e, hacc => by
    rw [powLoop]
    refine powLoop_lt hm fuel _ _ _ ?_
    split_ifs
    · exact Nat.mod_lt _ hm
    · exact hacc

theorem powMod_modEq (b e m : ℕ) : powMod b e m ≡ b ^ e [MOD m] := by
  unfold powMod
  refine (powLoop_modEq m _ _ _ e Nat.lt_log2_self).trans ?_
  calc 1 % m * (b % m) ^ e
      ≡ 1 * b ^ e [MOD m] := (Nat.mod_modEq _ _).mul ((Nat.mod_modEq _ _).pow e)
    _ = b ^ e := one_mul _

/-- `pow(b, e, m)` is the power, reduced. -/
theorem powMod_eq {m : ℕ} (hm : 0 < m) (b e : ℕ) : powMod b e m = b ^ e % m := by
  have hlt : powMod b e m < m := powLoop_lt hm _ _ _ _ (Nat.mod_lt _ hm)
  have heq := powMod_modEq b e m
  unfold Nat.ModEq at heq
  rwa [Nat.mod_eq_of_lt hlt] at heq

/-- The power in the ring of residues. -/
theorem powMod_cast (b e m : ℕ) : ((powMod b e m : ℕ) : ZMod m) = (b : ZMod m) ^ e := by
  rw [← Nat.cast_pow]
  exact (ZMod.natCast_eq_natCast_iff _ _ _).mpr (powMod_modEq b e m)

/-- What Lucas's test looks at: the factors of `p - 1`, with repetitions, and an element whose order
is a multiple of none of the quotients. -/
def LucasTest (p a : ℕ) (factors : List ℕ) : Prop :=
  1 < p ∧ factors.prod = p - 1 ∧ powMod a (p - 1) p = 1 ∧
    ∀ q ∈ factors, powMod a ((p - 1) / q) p ≠ 1

instance (p a : ℕ) (factors : List ℕ) : Decidable (LucasTest p a factors) :=
  inferInstanceAs (Decidable (_ ∧ _))

/-- Lucas's test is passed by primes only, when the factors are prime. -/
theorem prime_of_lucas {p a : ℕ} {factors : List ℕ} (h : LucasTest p a factors)
    (hprime : ∀ q ∈ factors, q.Prime) : p.Prime := by
  obtain ⟨hp, hprod, hfull, hpart⟩ := h
  have hone : ∀ e, ((a : ZMod p) ^ e = 1 ↔ powMod a e p = 1) := by
    intro e
    have hlt : powMod a e p < p := powLoop_lt (by omega) _ _ _ _ (Nat.mod_lt _ (by omega))
    rw [← powMod_cast, ← Nat.cast_one, ZMod.natCast_eq_natCast_iff', Nat.mod_eq_of_lt hlt,
      Nat.mod_eq_of_lt hp]
  refine lucas_primality p (a : ZMod p) ((hone _).mpr hfull) fun q hq hdvd => ?_
  rw [← hprod] at hdvd
  -- a prime that divides the product is one of the factors
  obtain ⟨r, hr, hqr⟩ := (Prime.dvd_prod_iff hq.prime).mp hdvd
  have hsame : q = r := (Nat.prime_dvd_prime_iff_eq hq (hprime r hr)).mp hqr
  rw [hsame]
  exact fun h => hpart r hr ((hone _).mp h)

end ModPow
end ATalk
