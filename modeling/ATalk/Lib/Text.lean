import Mathlib.Data.List.Basic
import Mathlib.Algebra.BigOperators.Group.List.Basic
import Mathlib.Algebra.GroupWithZero.Nat

/-!
# Code-point strings and UTF-8

A Python `str` is a sequence of code points, lone surrogates included, so it is modelled by
a list of numbers below `0x110000` and not by `String`. UTF-8 is the strict codec: it has no
encoding for a surrogate, and its decoder refuses overlong forms, surrogates and numbers
above `0x10FFFF`.

* `encode` / `decode` : the codec (`none` is `UnicodeEncodeError` / `UnicodeDecodeError`);
* `decode_encode`     : decoding inverts encoding;
* `length_encode`     : the size of an encoding is the sum of the sizes of its characters.
-/

namespace ATalk
namespace Text

abbrev CodePoint := Fin 0x110000

abbrev Str := List CodePoint

abbrev Byte := Fin 256

abbrev Bytes := List Byte

-- Instances with a name: a literal or a membership test needs no proof of its own.
instance CodePoint.neZero : NeZero 0x110000 := ⟨by decide⟩

instance Byte.neZero : NeZero 256 := ⟨by decide⟩

instance CodePoint.lawfulBEq : LawfulBEq CodePoint := inferInstance

instance Str.lawfulBEq : LawfulBEq Str := inferInstance

/-- A Lean character as a code point. -/
def ofChar (c : Char) : CodePoint := Fin.ofNat _ c.toNat

/-- A literal. -/
def lit (s : String) : Str := s.toList.map ofChar

/-- Surrogates are code points, but no character has one and UTF-8 cannot write one. -/
def isSurrogate (c : CodePoint) : Bool := 0xD800 ≤ c.val && c.val ≤ 0xDFFF

/-- No surrogate occurs in the string: it can be encoded. -/
def Clean (s : Str) : Prop := ∀ c ∈ s, isSurrogate c = false

-- Not by the bounded quantifier: that one would run through all code points.
instance (s : Str) : Decidable (Clean s) :=
  decidable_of_iff (s.all (fun c => !isSurrogate c) = true) (by simp [Clean])

@[simp] theorem clean_nil : Clean [] := by intro c h; cases h

@[simp] theorem clean_cons {c : CodePoint} {s : Str} :
    Clean (c :: s) ↔ isSurrogate c = false ∧ Clean s := List.forall_mem_cons

@[simp] theorem clean_append {s t : Str} : Clean (s ++ t) ↔ Clean s ∧ Clean t :=
  List.forall_mem_append

/-! ## Encoding -/

def byte (n : ℕ) : Byte := Fin.ofNat _ n

@[simp] theorem byte_val (n : ℕ) : (byte n).val = n % 256 := rfl

/-- The number of bytes of a code point. -/
def charSize (c : CodePoint) : ℕ :=
  if c.val < 0x80 then 1 else if c.val < 0x800 then 2 else if c.val < 0x10000 then 3 else 4

def encodeChar (c : CodePoint) : Bytes :=
  if c.val < 0x80 then [byte c.val]
  else if c.val < 0x800 then [byte (0xC0 + c.val / 64), byte (0x80 + c.val % 64)]
  else if c.val < 0x10000 then
    [byte (0xE0 + c.val / 4096), byte (0x80 + c.val / 64 % 64), byte (0x80 + c.val % 64)]
  else
    [byte (0xF0 + c.val / 262144), byte (0x80 + c.val / 4096 % 64),
      byte (0x80 + c.val / 64 % 64), byte (0x80 + c.val % 64)]

/-- `s.encode("utf-8")`. -/
def encode (s : Str) : Option Bytes := if Clean s then some (s.flatMap encodeChar) else none

theorem encode_eq_some {s : Str} (h : Clean s) : encode s = some (s.flatMap encodeChar) :=
  if_pos h

theorem encode_eq_some_iff {s : Str} {b : Bytes} :
    encode s = some b ↔ Clean s ∧ s.flatMap encodeChar = b := by
  unfold encode
  split
  · next h => simp [h]
  · next h => simp [h]

theorem length_encodeChar (c : CodePoint) : (encodeChar c).length = charSize c := by
  unfold encodeChar charSize
  split_ifs <;> rfl

/-- The size of a string in bytes. -/
def byteSize (s : Str) : ℕ := (s.map charSize).sum

@[simp] theorem byteSize_nil : byteSize [] = 0 := rfl

@[simp] theorem byteSize_cons (c : CodePoint) (s : Str) :
    byteSize (c :: s) = charSize c + byteSize s := by simp [byteSize]

@[simp] theorem byteSize_append (s t : Str) : byteSize (s ++ t) = byteSize s + byteSize t := by
  simp [byteSize]

theorem length_flatMap_encodeChar (s : Str) : (s.flatMap encodeChar).length = byteSize s := by
  induction s with
  | nil => rfl
  | cons c s ih => simp [ih, length_encodeChar]

theorem length_encode {s : Str} {b : Bytes} (h : encode s = some b) : b.length = byteSize s := by
  obtain ⟨-, rfl⟩ := encode_eq_some_iff.mp h
  exact length_flatMap_encodeChar s

/-- Pure ASCII takes one byte a character. -/
theorem byteSize_ascii {s : Str} (h : ∀ c ∈ s, c.val < 0x80) : byteSize s = s.length := by
  induction s with
  | nil => rfl
  | cons c s ih =>
    rw [List.forall_mem_cons] at h
    rw [byteSize_cons, ih h.2, charSize, if_pos h.1, List.length_cons, Nat.add_comm]

theorem clean_of_ascii {s : Str} (h : ∀ c ∈ s, c.val < 0x80) : Clean s := by
  intro c hc
  have := h c hc
  simp only [isSurrogate, Bool.and_eq_false_iff, decide_eq_false_iff_not]
  left
  omega

/-! ## Decoding -/

/-- A continuation byte. -/
def isTail (b : Byte) : Bool := 0x80 ≤ b.val && b.val ≤ 0xBF

def codePoint (n : ℕ) : CodePoint := Fin.ofNat _ n

/-- `b.decode("utf-8")`. -/
def decode : Bytes → Option Str
  | [] => some []
  | b₀ :: r₀ =>
    if b₀.val < 0x80 then (codePoint b₀.val :: ·) <$> decode r₀
    else match r₀ with
    | [] => none
    | b₁ :: r₁ =>
      if 0xC2 ≤ b₀.val ∧ b₀.val ≤ 0xDF then
        if isTail b₁ then
          (codePoint ((b₀.val - 0xC0) * 64 + (b₁.val - 0x80)) :: ·) <$> decode r₁
        else none
      else match r₁ with
      | [] => none
      | b₂ :: r₂ =>
        if 0xE0 ≤ b₀.val ∧ b₀.val ≤ 0xEF then
          let n := (b₀.val - 0xE0) * 4096 + (b₁.val - 0x80) * 64 + (b₂.val - 0x80)
          if isTail b₁ && isTail b₂ && 0x800 ≤ n && !(0xD800 ≤ n && n ≤ 0xDFFF) then
            (codePoint n :: ·) <$> decode r₂
          else none
        else match r₂ with
        | [] => none
        | b₃ :: r₃ =>
          let n := (b₀.val - 0xF0) * 262144 + (b₁.val - 0x80) * 4096 + (b₂.val - 0x80) * 64
            + (b₃.val - 0x80)
          if 0xF0 ≤ b₀.val && isTail b₁ && isTail b₂ && isTail b₃ && 0x10000 ≤ n
              && n < 0x110000 then
            (codePoint n :: ·) <$> decode r₃
          else none
termination_by structural b => b

theorem codePoint_val (c : CodePoint) : codePoint c.val = c :=
  Fin.ext (Nat.mod_eq_of_lt c.isLt)

/-- What the encoder writes for six bits is a continuation byte with these bits. -/
theorem tail_val (n : ℕ) : (byte (0x80 + n % 64)).val = 0x80 + n % 64 := by
  rw [byte_val]; omega

theorem isTail_byte (n : ℕ) : isTail (byte (0x80 + n % 64)) = true := by
  simp only [isTail, tail_val, Bool.and_eq_true, decide_eq_true_eq]; omega

/-- The decoder reads back what the encoder wrote for one character and goes on. -/
theorem decode_encodeChar_append {c : CodePoint} (hc : isSurrogate c = false) (r : Bytes) :
    decode (encodeChar c ++ r) = (c :: ·) <$> decode r := by
  have hlt := c.isLt
  simp only [isSurrogate, Bool.and_eq_false_iff, decide_eq_false_iff_not] at hc
  unfold encodeChar
  split_ifs with h1 h2 h3 <;> simp only [List.cons_append, List.nil_append] <;>
    rw [decode.eq_def]
  · -- one byte
    have h0 : (byte c.val).val = c.val := by rw [byte_val]; omega
    simp only [h0]
    rw [if_pos h1, codePoint_val]
  · -- two bytes
    have h0 : (byte (0xC0 + c.val / 64)).val = 0xC0 + c.val / 64 := by rw [byte_val]; omega
    have hn : (0xC0 + c.val / 64 - 0xC0) * 64 + (0x80 + c.val % 64 - 0x80) = c.val := by omega
    simp only [h0, tail_val, isTail_byte, if_true, hn, codePoint_val]
    rw [if_neg (by omega), if_pos (by omega)]
  · -- three bytes: not a surrogate
    have h0 : (byte (0xE0 + c.val / 4096)).val = 0xE0 + c.val / 4096 := by rw [byte_val]; omega
    have hn : (0xE0 + c.val / 4096 - 0xE0) * 4096 + (0x80 + c.val / 64 % 64 - 0x80) * 64
        + (0x80 + c.val % 64 - 0x80) = c.val := by omega
    have hns : (decide (0xD800 ≤ c.val) && decide (c.val ≤ 0xDFFF)) = false := by
      simp only [Bool.and_eq_false_iff, decide_eq_false_iff_not]; omega
    simp only [h0, tail_val, isTail_byte, hn, hns, codePoint_val]
    rw [if_neg (by omega), if_neg (by omega), if_pos (by omega), if_pos (by simp; omega)]
  · -- four bytes
    have h0 : (byte (0xF0 + c.val / 262144)).val = 0xF0 + c.val / 262144 := by
      rw [byte_val]; omega
    have hn : (0xF0 + c.val / 262144 - 0xF0) * 262144 + (0x80 + c.val / 4096 % 64 - 0x80) * 4096
        + (0x80 + c.val / 64 % 64 - 0x80) * 64 + (0x80 + c.val % 64 - 0x80) = c.val := by omega
    simp only [h0, tail_val, isTail_byte, hn, codePoint_val]
    rw [if_neg (by omega), if_neg (by omega), if_neg (by omega), if_pos (by simp; omega)]

/-- Decoding inverts encoding. -/
theorem decode_encode {s : Str} {b : Bytes} (h : encode s = some b) : decode b = some s := by
  obtain ⟨hs, rfl⟩ := encode_eq_some_iff.mp h
  clear h
  induction s with
  | nil => rfl
  | cons c s ih =>
    rw [clean_cons] at hs
    rw [List.flatMap_cons, decode_encodeChar_append hs.1, ih hs.2]
    rfl

/-- Two strings with one encoding are one string. -/
theorem encode_injective {s t : Str} {b : Bytes} (hs : encode s = some b)
    (ht : encode t = some b) : s = t :=
  Option.some.inj ((decode_encode hs).symm.trans (decode_encode ht))

end Text
end ATalk
