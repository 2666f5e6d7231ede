import ATalk.Python
import Mathlib.Data.List.Lex
import Mathlib.Order.Fin.Basic

/-!
# SQLite values

What a bound parameter becomes, what a column keeps of it, and how values compare: NULL below
numbers, numbers below texts. An INTEGER column turns a text that reads as a number into that
number and keeps any other text; a TEXT column turns numbers into texts.

* `bind` : a Python value as a parameter, or what `sqlite3` raises;
* `integerColumn`, `textColumn` : the two column affinities;
* `sqlMax`, `sqlEq` : `max(a, b)` and the equality of a unique index.
-/

namespace ATalk
namespace Sqlite

open Text Python

inductive SqlVal where
  | null
  | int (i : ℤ)
  | real (f : Flt)
  | text (s : Str)
deriving DecidableEq, Repr, Inhabited

/-- Doubles and integers in one order, the infinities outside. -/
def numLe : Flt → Flt → Bool
  | .inf true, _ => true
  | _, .inf false => true
  | .fin a b, .fin c d => (Flt.fin a b).value.getD 0 ≤ (Flt.fin c d).value.getD 0
  | _, _ => false

/-- The arithmetic and the conversions of doubles, which the model leaves open: the text of a
double, the double a numeral stands for, and `x + 1` on doubles, which never falls, and on
texts. -/
structure Engine where
  realText : Flt → Str
  realOf : Str → Flt
  realSucc : Flt → Flt
  textSucc : Str → SqlVal
  le_realSucc : ∀ f, f ≠ .nan → realSucc f ≠ .nan ∧ numLe f (realSucc f) = true

/-- What binding a parameter can raise. -/
inductive BindError where
  | unicodeEncode
  | overflow
  | unsupportedType
deriving DecidableEq, Repr

def minInt : ℤ := -2 ^ 63

def maxInt : ℤ := 2 ^ 63 - 1

/-- A parameter of a statement. -/
def bind : Val → Except BindError SqlVal
  | .none => .ok .null
  | .bool b => .ok (.int (if b then 1 else 0))
  | .int i => if minInt ≤ i ∧ i ≤ maxInt then .ok (.int i) else .error .overflow
  | .float .nan => .ok .null
  | .float f => .ok (.real f)
  | .str s => if Clean s then .ok (.text s) else .error .unicodeEncode
  | .list _ => .error .unsupportedType
  | .dict _ => .error .unsupportedType

/-! ## Column affinities -/

def isDigit (c : CodePoint) : Bool := 0x30 ≤ c.val && c.val ≤ 0x39

def isSpace (c : CodePoint) : Bool := c.val ∈ [0x20, 0x9, 0xA, 0xB, 0xC, 0xD]

def trim (s : Str) : Str := ((s.dropWhile isSpace).reverse.dropWhile isSpace).reverse

def dropSign : Str → Str
  | c :: t => if c = ofChar '-' ∨ c = ofChar '+' then t else c :: t
  | [] => []

/-- `e±ddd`, or nothing. -/
def isExponent : Str → Bool
  | [] => true
  | c :: t =>
    (c = ofChar 'e' || c = ofChar 'E') && dropSign t ≠ [] && (dropSign t).all isDigit

/-- A numeral: digits with at most one point among them, at least one digit, an exponent. -/
def isNumeral (s : Str) : Bool :=
  let t := dropSign (trim s)
  let whole := t.takeWhile isDigit
  match t.dropWhile isDigit with
  | [] => whole ≠ []
  | c :: u =>
    if c = ofChar '.' then
      (whole ≠ [] || u.takeWhile isDigit ≠ []) && isExponent (u.dropWhile isDigit)
    else whole ≠ [] && isExponent (c :: u)

/-- A numeral that is an integer. -/
def isInteger (s : Str) : Bool :=
  let t := dropSign (trim s)
  t ≠ [] && t.all isDigit

def naturalOf (s : Str) : ℕ := s.foldl (fun n c => n * 10 + (c.val - 0x30)) 0

def integerOf (s : Str) : ℤ :=
  match trim s with
  | c :: t => if c = ofChar '-' then -(naturalOf t : ℤ) else naturalOf (dropSign (c :: t))
  | [] => 0

/-- A double that is an integer inside the range becomes one. -/
def realColumn (f : Flt) : SqlVal :=
  match f.value with
  | some q => if q.den = 1 ∧ minInt < q.num ∧ q.num < maxInt then .int q.num else .real f
  | none => .real f

/-- What an INTEGER column keeps. -/
def integerColumn (engine : Engine) : SqlVal → SqlVal
  | .null => .null
  | .int i => .int i
  | .real f => realColumn f
  | .text s =>
    if isNumeral s then
      if isInteger s ∧ minInt ≤ integerOf s ∧ integerOf s ≤ maxInt then .int (integerOf s)
      else realColumn (engine.realOf s)
    else .text s

def decimalText (i : ℤ) : Str := lit (toString i)

/-- What a TEXT column keeps; `none` is NULL. -/
def textColumn (engine : Engine) : SqlVal → Option Str
  | .null => none
  | .int i => some (decimalText i)
  | .real f => some (engine.realText f)
  | .text s => some s

/-! ## Comparisons -/

def SqlVal.number : SqlVal → Flt
  | .int i => .fin false i
  | .real f => f
  | _ => .nan

/-- `a <= b` by storage class, then by value. -/
def sqlLe : SqlVal → SqlVal → Bool
  | .null, _ => true
  | _, .null => false
  | .text s, .text t => s ≤ t
  | _, .text _ => true
  | .text _, _ => false
  | a, b => numLe a.number b.number

/-- `max(a, b)`: NULL when one is. -/
def sqlMax (a b : SqlVal) : SqlVal :=
  if a = .null ∨ b = .null then .null else if sqlLe b a then a else b

/-- Two values a unique index takes for one. -/
def sqlEq (a b : SqlVal) : Bool := a ≠ .null && b ≠ .null && sqlLe a b && sqlLe b a

/-- `x + 1`: an integer that would leave the range becomes a double. -/
def sqlSucc (engine : Engine) : SqlVal → SqlVal
  | .null => .null
  | .int i => if i < maxInt then .int (i + 1) else .real (engine.realSucc (.fin false i))
  | .real f => .real (engine.realSucc f)
  | .text s => engine.textSucc s

theorem numLe_refl {f : Flt} (hf : f ≠ .nan) : numLe f f = true := by
  cases f with
  | fin a b => simp [numLe]
  | inf a => cases a <;> rfl
  | nan => exact absurd rfl hf

@[simp] theorem bind_str {s : Str} (h : Clean s) : bind (.str s) = .ok (.text s) := if_pos h

theorem bind_int {i : ℤ} (h : minInt ≤ i ∧ i ≤ maxInt) : bind (.int i) = .ok (.int i) := if_pos h

theorem bind_int_overflow {i : ℤ} (h : ¬ (minInt ≤ i ∧ i ≤ maxInt)) :
    bind (.int i) = .error .overflow := if_neg h

theorem sqlLe_int (a b : ℤ) : sqlLe (.int a) (.int b) = decide (a ≤ b) := by
  have h : ((a : ℚ) ≤ (b : ℚ)) ↔ a ≤ b := Int.cast_le
  simp [sqlLe, numLe, SqlVal.number, Flt.value, h]

theorem sqlEq_int (a b : ℤ) : sqlEq (.int a) (.int b) = decide (a = b) := by
  simp only [sqlEq, sqlLe_int, ne_eq, reduceCtorEq, not_false_eq_true, decide_true, Bool.true_and,
    ← Bool.decide_and, decide_eq_decide]
  omega

theorem sqlMax_int (a b : ℤ) : sqlMax (.int a) (.int b) = .int (max a b) := by
  simp only [sqlMax, reduceCtorEq, or_self, if_false, sqlLe_int, decide_eq_true_eq]
  split_ifs with h
  · rw [max_eq_left h]
  · rw [max_eq_right (by omega)]

end Sqlite
end ATalk
