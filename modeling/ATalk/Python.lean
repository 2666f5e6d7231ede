import ATalk.Lib.Text
import Mathlib.Data.Rat.Defs
import Mathlib.Data.Rat.Cast.Order

/-!
# Python values

The values a request body is made of (what `json.loads` builds), with the operations the
server applies to them: truth, equality, `dict.get`, `str.strip` and `int` of a string.

* `Val.truthy`, `Val.eq` : `bool(x)` and `x == y`;
* `dictGet`, `getNone` : `d[k]` when there is one, `d.get(k)`;
* `intOfStr` : `int(s)`, `none` where it raises `ValueError`.
-/

namespace ATalk
namespace Python

open Text

/-- A float: a sign and a magnitude, or one of the values `json.loads` reads besides. -/
inductive Flt where
  | fin (neg : Bool) (mag : ℚ)
  | inf (neg : Bool)
  | nan
deriving DecidableEq, Repr

inductive Val where
  | none
  | bool (b : Bool)
  | int (i : ℤ)
  | float (f : Flt)
  | str (s : Str)
  | list (xs : List Val)
  | dict (ms : List (Str × Val))
deriving Inhabited

abbrev Dict := List (Str × Val)

/-! ## Dictionaries -/

def dictGet (k : Str) : Dict → Option Val
  | [] => .none
  | (k', v) :: ms => if k' = k then some v else dictGet k ms

/-- `d.get(k)` -/
def getNone (k : Str) (d : Dict) : Val := (dictGet k d).getD .none

/-- `d.get(k, default)` -/
def getDefault (k : Str) (d : Dict) (default : Val) : Val := (dictGet k d).getD default

def dictKeys (d : Dict) : List Str := d.map Prod.fst

/-! ## Truth and equality -/

def Flt.value : Flt → Option ℚ
  | .fin neg mag => some (if neg then -mag else mag)
  | _ => .none

/-- `bool(x)` -/
def Val.truthy : Val → Bool
  | .none => false
  | .bool b => b
  | .int i => i ≠ 0
  | .float (.fin _ mag) => mag ≠ 0
  | .float _ => true
  | .str s => s ≠ []
  | .list xs => !xs.isEmpty
  | .dict ms => !ms.isEmpty

@[simp] theorem truthy_none : Val.none.truthy = false := rfl

@[simp] theorem truthy_str (s : Str) : (Val.str s).truthy = decide (s ≠ []) := rfl

/-- A number as a float; `True` is `1`. -/
def Val.number : Val → Option Flt
  | .bool b => some (.fin false (if b then 1 else 0))
  | .int i => some (.fin false i)
  | .float f => some f
  | _ => .none

/-- `==` on numbers: exact, and `nan` equals nothing. -/
def numberEq (f g : Flt) : Bool :=
  match f, g with
  | .fin .., .fin .. => f.value = g.value
  | .inf a, .inf b => a = b
  | _, _ => false

mutual

/-- `x == y` -/
def Val.eq : Val → Val → Bool
  | .none, .none => true
  | .str s, .str t => s = t
  | .list xs, .list ys => eqList xs ys
  | .dict ms, .dict ns => ms.length = ns.length && eqDict ms ns
  | x, y =>
    match x.number, y.number with
    | some f, some g => numberEq f g
    | _, _ => false
termination_by structural x => x

def eqList : List Val → List Val → Bool
  | [], [] => true
  | x :: xs, y :: ys => x.eq y && eqList xs ys
  | _, _ => false
termination_by structural xs => xs

/-- Every entry of the first has an equal one in the second. -/
def eqDict : List (Str × Val) → List (Str × Val) → Bool
  | [], _ => true
  | (k, x) :: ms, ns =>
    (match dictGet k ns with
    | some y => x.eq y
    | .none => false) && eqDict ms ns
termination_by structural ms => ms

end

mutual

/-- The same printed JSON text. -/
def Val.same : Val → Val → Bool
  | .none, .none => true
  | .bool a, .bool b => a = b
  | .int i, .int j => i = j
  | .float f, .float g => f = g
  | .str s, .str t => s = t
  | .list xs, .list ys => sameList xs ys
  | .dict ms, .dict ns => sameDict ms ns
  | _, _ => false
termination_by structural x => x

def sameList : List Val → List Val → Bool
  | [], [] => true
  | x :: xs, y :: ys => x.same y && sameList xs ys
  | _, _ => false
termination_by structural xs => xs

def sameDict : List (Str × Val) → List (Str × Val) → Bool
  | [], [] => true
  | (k, x) :: ms, (l, y) :: ns => k = l && (x.same y && sameDict ms ns)
  | _, _ => false
termination_by structural ms => ms

end

mutual

theorem Val.same_refl (v : Val) : v.same v = true := by
  cases v with
  | list xs => exact sameList_refl xs
  | dict ms => exact sameDict_refl ms
  | _ => simp [Val.same]
termination_by structural v

theorem sameList_refl (xs : List Val) : sameList xs xs = true := by
  cases xs with
  | nil => rfl
  | cons x xs => simp [sameList, Val.same_refl x, sameList_refl xs]
termination_by structural xs

@[simp] theorem sameDict_refl (ms : List (Str × Val)) : sameDict ms ms = true := by
  cases ms with
  | nil => rfl
  | cons m ms => simp [sameDict, Val.same_refl m.2, sameDict_refl ms]
termination_by structural ms

end

/-! ## Strings -/

/-- The characters `str.isspace` accepts. -/
def isSpace (c : CodePoint) : Bool :=
  c.val ∈ [0x9, 0xA, 0xB, 0xC, 0xD, 0x1C, 0x1D, 0x1E, 0x1F, 0x20, 0x85, 0xA0, 0x1680, 0x2000, 0x2001,
    0x2002, 0x2003, 0x2004, 0x2005, 0x2006, 0x2007, 0x2008, 0x2009, 0x200A, 0x2028, 0x2029, 0x202F,
    0x205F, 0x3000]

/-- `s.strip()` -/
def strip (s : Str) : Str := ((s.dropWhile isSpace).reverse.dropWhile isSpace).reverse

/-- The zeros of the runs of decimal digits (category `Nd`). -/
def digitZeros : List ℕ :=
  [0x30, 0x660, 0x6F0, 0x7C0, 0x966, 0x9E6, 0xA66, 0xAE6, 0xB66, 0xBE6, 0xC66, 0xCE6, 0xD66, 0xDE6,
    0xE50, 0xED0, 0xF20, 0x1040, 0x1090, 0x17E0, 0x1810, 0x1946, 0x19D0, 0x1A80, 0x1A90, 0x1B50,
    0x1BB0, 0x1C40, 0x1C50, 0xA620, 0xA8D0, 0xA900, 0xA9D0, 0xA9F0, 0xAA50, 0xABF0, 0xFF10, 0x104A0,
    0x10D30, 0x11066, 0x110F0, 0x11136, 0x111D0, 0x112F0, 0x11450, 0x114D0, 0x11650, 0x116C0, 0x11730,
    0x118E0, 0x11950, 0x11C50, 0x11D50, 0x11DA0, 0x16A60, 0x16AC0, 0x16B50, 0x1D7CE, 0x1D7D8, 0x1D7E2,
    0x1D7EC, 0x1D7F6, 0x1E140, 0x1E2F0, 0x1E950, 0x1FBF0]

def digitValue (c : CodePoint) : Option ℕ :=
  (digitZeros.find? fun z => z ≤ c.val && c.val ≤ z + 9).map fun z => c.val - z

/-- Digits with single underscores between them; `acc` is the value so far. -/
def digitsFrom (acc : ℕ) : Str → Option ℕ
  | [] => some acc
  | c :: t =>
    match digitValue c with
    | some d => digitsFrom (acc * 10 + d) t
    | .none =>
      if c = ofChar '_' then
        match t with
        | d :: t' => (digitValue d).bind fun v => digitsFrom (acc * 10 + v) t'
        | [] => .none
      else .none

/-- The most digits `int` converts (`sys.int_info.default_max_str_digits`). -/
def maxStrDigits : ℕ := 4300

def digits (s : Str) : Option ℕ :=
  match s with
  | [] => .none
  | c :: t =>
    if maxStrDigits < (s.filter (· ≠ ofChar '_')).length then .none
    else (digitValue c).bind fun d => digitsFrom d t

/-- `int(s)`; `none` where it raises `ValueError`. -/
def intOfStr (s : Str) : Option ℤ :=
  match strip s with
  | [] => .none
  | c :: t =>
    if c = ofChar '-' then (digits t).map fun n => -(n : ℤ)
    else if c = ofChar '+' then (digits t).map fun n => (n : ℤ)
    else (digits (c :: t)).map fun n => (n : ℤ)

example : intOfStr (lit " -1_0 ") = some (-10) := by decide +kernel

end Python
end ATalk
