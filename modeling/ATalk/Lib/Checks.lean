import Mathlib.Init
import Mathlib.Tactic.SplitIfs

/-!
# Checks that raise

A Python function that raises is a computation in `Except`. These are the rules that take a
successful run of one apart: what a bind, a guard, a test and a caught exception let through.

* `bind_eq_ok`, `pure_eq_ok` : a block ends well when each of its steps does;
* `guardOr_eq_ok` : `if not p: raise e`.
-/

namespace ATalk
namespace Checks

variable {ε α β : Type}

/-- `if not p: raise e`. -/
def guardOr (p : Prop) [Decidable p] (e : ε) : Except ε Unit := if p then .ok () else .error e

@[simp] theorem guardOr_eq_ok {p : Prop} [Decidable p] {e : ε} {u : Unit} :
    guardOr p e = .ok u ↔ p := by
  unfold guardOr
  split_ifs with h
  · simp [h]
  · simp [h]

theorem guardOr_pos {p : Prop} [Decidable p] (h : p) (e : ε) : guardOr p e = .ok () := if_pos h

theorem guardOr_neg {p : Prop} [Decidable p] (h : ¬ p) (e : ε) : guardOr p e = .error e := if_neg h

/-- A block ends well when its first step does and the rest does on its result. -/
theorem bind_eq_ok {x : Except ε α} {f : α → Except ε β} {b : β} :
    (x >>= f) = .ok b ↔ ∃ a, x = .ok a ∧ f a = .ok b := by
  cases x with
  | error e => exact ⟨nofun, fun ⟨_, h, _⟩ => nomatch h⟩
  | ok a => exact ⟨fun h => ⟨a, rfl, h⟩, fun ⟨_, h, h'⟩ => by cases h; exact h'⟩

theorem pure_eq_ok {a b : α} : (pure a : Except ε α) = .ok b ↔ a = b :=
  ⟨fun h => Except.ok.inj h, fun h => congrArg _ h⟩

theorem ok_eq_ok {a b : α} : (Except.ok a : Except ε α) = .ok b ↔ a = b :=
  ⟨fun h => Except.ok.inj h, fun h => congrArg _ h⟩

@[simp] theorem ok_bind (a : α) (f : α → Except ε β) : (Except.ok a >>= f) = f a := rfl

@[simp] theorem error_bind (e : ε) (f : α → Except ε β) : (Except.error e >>= f) = .error e := rfl

end Checks
end ATalk
