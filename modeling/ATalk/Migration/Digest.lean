import ATalk.Lib.JsonText
import ATalk.Sqlite
import Mathlib.Data.Rat.Encodable

/-!
# The digest of a table

`_canonical_digest` : the rows of a table, each printed as a JSON array on a line of its own, and the
SHA-256 of the text. The hash and the texts of doubles are parameters.

* `canonicalDigest` : the digest;
* `canonicalText_injective` : a text stands for one list of rows.
-/

namespace ATalk
namespace Migration

open Text Python Sqlite

/-- The values of a row, in the order of the columns. -/
abbrev Cells := List SqlVal

/-- What the digests take from the host: the text of a double, and the SHA-256 of a text's bytes. -/
structure Digests where
  realText : Flt → Str
  sha256 : Str → Str

/-- A value as `json.dumps` takes it. -/
def cellJson (realText : Flt → Str) : SqlVal → Json
  | .null => .null
  | .int i => .num (decimalText i)
  | .real f => .num (realText f)
  | .text s => .str s

/-- `json.dumps(values, ensure_ascii=False, separators=(",", ":"))` -/
def rowText (realText : Flt → Str) (row : Cells) : Str := Json.dump (.arr (row.map (cellJson realText)))

/-- What is hashed. -/
def canonicalText (realText : Flt → Str) (rows : List Cells) : Str :=
  rows.flatMap fun row => rowText realText row ++ lit "\n"

structure TableDigest where
  rows : ℕ
  sha256 : Str
deriving DecidableEq

/-- `_canonical_digest` -/
def canonicalDigest (d : Digests) (rows : List Cells) : TableDigest :=
  ⟨rows.length, d.sha256 (canonicalText d.realText rows)⟩

/-! ## Decimals -/

/-- A character of a decimal numeral. -/
def isDecimal (c : CodePoint) : Bool := c = ofChar '-' || isDigit c

theorem ofChar_injective {a b : Char} (h : ofChar a = ofChar b) : a = b := by
  have hval : (ofChar a).val = (ofChar b).val := congrArg Fin.val h
  have hlt : ∀ c : Char, c.toNat < 0x110000 := by
    intro c
    rcases c.valid with hlow | ⟨-, hhigh⟩
    · exact lt_trans hlow (by decide)
    · exact hhigh
  unfold ofChar at hval
  rw [Fin.val_ofNat, Fin.val_ofNat, Nat.mod_eq_of_lt (hlt a), Nat.mod_eq_of_lt (hlt b)] at hval
  exact Char.toNat_inj.mp hval

theorem lit_injective {s t : String} (h : lit s = lit t) : s = t :=
  String.ext (List.map_injective_iff.mpr (fun _ _ => ofChar_injective) h)

/-- The characters of an integer: a sign when it is negative, and the digits of its size. -/
theorem toList_decimal (i : ℤ) : (toString i).toList =
    if 0 ≤ i then Nat.toDigits 10 i.toNat else '-' :: Nat.toDigits 10 (-i).toNat := by
  rw [Int.toString_eq_repr, Int.repr_eq_if]
  split_ifs
  · exact Nat.toList_repr
  · rw [String.toList_append, Nat.toList_repr]
    rfl

theorem isDigit_of_toDigits {n : ℕ} {c : Char} (h : c ∈ Nat.toDigits 10 n) :
    isDigit (ofChar c) = true ∧ c ≠ '-' := by
  have hdigit : c.isDigit = true := Nat.isDigit_of_mem_toDigits (by decide) (by decide) h
  obtain ⟨hlow, hhigh⟩ := Char.isDigit_iff_toNat.mp hdigit
  have hlow' : 0x30 ≤ c.toNat := hlow
  have hhigh' : c.toNat ≤ 0x39 := hhigh
  refine ⟨?_, ?_⟩
  · unfold isDigit ofChar
    rw [Fin.val_ofNat, Nat.mod_eq_of_lt (by omega), Bool.and_eq_true]
    exact ⟨decide_eq_true hlow', decide_eq_true hhigh'⟩
  · rintro rfl
    exact absurd hlow' (by decide)

theorem decimalText_injective {i j : ℤ} (h : decimalText i = decimalText j) : i = j := by
  have hchars : (toString i).toList = (toString j).toList := congrArg String.toList (lit_injective h)
  rw [toList_decimal, toList_decimal] at hchars
  have hsize : ∀ {m n : ℕ}, Nat.toDigits 10 m = Nat.toDigits 10 n → m = n := by
    intro m n hdigits
    rw [← @Nat.ofDigitChars_ten_toDigits m, hdigits, Nat.ofDigitChars_ten_toDigits]
  split_ifs at hchars with hi hj hj
  · have hsame := hsize hchars
    omega
  · have hsign : '-' ∈ Nat.toDigits 10 i.toNat := hchars ▸ List.mem_cons_self
    exact absurd rfl (isDigit_of_toDigits hsign).2
  · have hsign : '-' ∈ Nat.toDigits 10 j.toNat := hchars ▸ List.mem_cons_self
    exact absurd rfl (isDigit_of_toDigits hsign).2
  · have hsame := hsize (List.cons.inj hchars).2
    omega

theorem decimal_of_mem {i : ℤ} {c : CodePoint} (h : c ∈ decimalText i) : isDecimal c = true := by
  obtain ⟨d, hd, rfl⟩ := List.mem_map.mp h
  rw [toList_decimal] at hd
  unfold isDecimal
  split_ifs at hd
  · rw [(isDigit_of_toDigits hd).1, Bool.or_true]
  · rcases List.mem_cons.mp hd with rfl | hd
    · rfl
    · rw [(isDigit_of_toDigits hd).1, Bool.or_true]

/-! ## Rows -/

/-- What ends a value of an array. -/
def endsValue (c : CodePoint) : Bool := c = ofChar ',' || c = ofChar ']'

/-- The texts of doubles: no two have the same, and none is taken for another value or its end. -/
structure Printed (realText : Flt → Str) : Prop where
  injective : Function.Injective realText
  inner : ∀ f, ∀ c ∈ realText f, endsValue c = false ∧ c ≠ ofChar '"'
  marked : ∀ f, ∃ c ∈ realText f, isDecimal c = false
  notNull : ∀ f, realText f ≠ lit "null"

section
variable {realText : Flt → Str} {r r' : Str}

/-- Texts without an end are told apart by where they end. -/
theorem split_at_end {s t : Str} {c d : CodePoint} (hs : ∀ x ∈ s, endsValue x = false)
    (ht : ∀ x ∈ t, endsValue x = false) (hc : endsValue c = true) (hd : endsValue d = true)
    (h : s ++ c :: r = t ++ d :: r') : s = t := by
  have htake : ∀ {u v : Str} {e : CodePoint}, (∀ x ∈ u, endsValue x = false) → endsValue e = true →
      (u ++ e :: v).takeWhile (fun x => !endsValue x) = u := by
    intro u v e hu he
    rw [List.takeWhile_append_of_pos fun x hx => by rw [hu x hx]; rfl, List.takeWhile_cons,
      if_neg (by rw [he]; decide), List.append_nil]
  rw [← htake hs hc, h, htake ht hd]

/-- The text of a value that is no text. -/
def token (realText : Flt → Str) : SqlVal → Str
  | .int i => decimalText i
  | .real f => realText f
  | _ => lit "null"

theorem decimal_inner {c : CodePoint} (h : isDecimal c = true) :
    endsValue c = false ∧ c ≠ ofChar '"' := by
  unfold isDecimal isDigit at h
  refine ⟨Bool.eq_false_iff.mpr fun hend => ?_, ?_⟩
  · unfold endsValue at hend
    rw [Bool.or_eq_true, decide_eq_true_eq, decide_eq_true_eq] at hend
    rcases hend with rfl | rfl
    · exact absurd h (by decide)
    · exact absurd h (by decide)
  · rintro rfl
    exact absurd h (by decide)

theorem token_inner (hreal : Printed realText) (v : SqlVal) {c : CodePoint}
    (h : c ∈ token realText v) : endsValue c = false ∧ c ≠ ofChar '"' := by
  cases v with
  | int i => exact decimal_inner (decimal_of_mem h)
  | real f => exact hreal.inner f c h
  | _ =>
    have hletters : c = ofChar 'n' ∨ c = ofChar 'u' ∨ c = ofChar 'l' := by
      have hmem : c ∈ [ofChar 'n', ofChar 'u', ofChar 'l', ofChar 'l'] := h
      simp only [List.mem_cons, List.not_mem_nil, or_false, or_self] at hmem
      exact hmem
    rcases hletters with rfl | rfl | rfl
    all_goals exact ⟨by decide, by decide⟩

/-- A text has one value. -/
theorem token_injective (hreal : Printed realText) {v w : SqlVal} (hv : ∀ s, v ≠ .text s)
    (hw : ∀ s, w ≠ .text s) (h : token realText v = token realText w) : v = w := by
  have hnull : ∀ i, decimalText i ≠ lit "null" := by
    intro i hi
    have hmem : ofChar 'n' ∈ decimalText i := by
      rw [hi]
      decide
    exact absurd (decimal_of_mem hmem) (by decide)
  have hmarked : ∀ f i, realText f ≠ decimalText i := by
    intro f i hi
    obtain ⟨c, hc, hmark⟩ := hreal.marked f
    rw [hi] at hc
    rw [decimal_of_mem hc] at hmark
    cases hmark
  cases v with
  | text s => exact absurd rfl (hv s)
  | null =>
    cases w with
    | text s => exact absurd rfl (hw s)
    | null => rfl
    | int j => exact absurd h.symm (hnull j)
    | real g => exact absurd h.symm (hreal.notNull g)
  | int i =>
    cases w with
    | text s => exact absurd rfl (hw s)
    | null => exact absurd h (hnull i)
    | int j => rw [decimalText_injective h]
    | real g => exact absurd h.symm (hmarked g i)
  | real f =>
    cases w with
    | text s => exact absurd rfl (hw s)
    | null => exact absurd h (hreal.notNull f)
    | int j => exact absurd h (hmarked f j)
    | real g => rw [hreal.injective h]

theorem dump_token {v : SqlVal} (hv : ∀ s, v ≠ .text s) :
    Json.dump (cellJson realText v) = token realText v := by
  cases v with
  | text s => exact absurd rfl (hv s)
  | _ => rfl

theorem token_ne_nil (hreal : Printed realText) (v : SqlVal) : token realText v ≠ [] := by
  intro hnil
  cases v with
  | int i =>
    have hchars := toList_decimal i
    have hempty : (toString i).toList = [] := List.map_eq_nil_iff.mp hnil
    rw [hempty] at hchars
    split_ifs at hchars
    · exact Nat.toDigits_ne_nil hchars.symm
  | real f =>
    obtain ⟨c, hc, -⟩ := hreal.marked f
    rw [show realText f = [] from hnil] at hc
    cases hc
  | _ => cases hnil

/-- A printed value is read in one way, up to its end. -/
theorem cell_inj (hreal : Printed realText) {v w : SqlVal} {c d : CodePoint}
    (hc : endsValue c = true) (hd : endsValue d = true)
    (h : Json.dump (cellJson realText v) ++ c :: r = Json.dump (cellJson realText w) ++ d :: r') :
    v = w ∧ c :: r = d :: r' := by
  have hapart : ∀ {s : Str} {x : SqlVal} {y y' : Str}, (∀ t, x ≠ .text t) → token realText x ≠ [] →
      Json.dumpString s ++ y ≠ token realText x ++ y' := by
    intro s x y y' hx hne heq
    obtain ⟨a, l, ha⟩ := List.exists_cons_of_ne_nil hne
    rw [ha] at heq
    have hquote : ofChar '"' = a := (List.cons.inj heq).1
    exact (token_inner hreal x (ha ▸ List.mem_cons_self)).2 hquote.symm
  by_cases hv : ∃ s, v = .text s
  · obtain ⟨s, rfl⟩ := hv
    by_cases hw : ∃ s, w = .text s
    · obtain ⟨t, rfl⟩ := hw
      have hscan := Json.scanString_printed s (c :: r)
      have hbody : s.flatMap Json.escape ++ (ofChar '"' :: c :: r) =
          t.flatMap Json.escape ++ (ofChar '"' :: d :: r') := by
        have htail : (s.flatMap Json.escape ++ [ofChar '"']) ++ c :: r =
            (t.flatMap Json.escape ++ [ofChar '"']) ++ d :: r' := (List.cons.inj h).2
        rw [List.append_assoc, List.append_assoc] at htail
        exact htail
      rw [hbody, Json.scanString_printed] at hscan
      cases hscan
      exact ⟨rfl, rfl⟩
    · have hw' : ∀ s, w ≠ .text s := fun s hs => hw ⟨s, hs⟩
      rw [dump_token hw'] at h
      exact absurd h (hapart hw' (token_ne_nil hreal w))
  · have hv' : ∀ s, v ≠ .text s := fun s hs => hv ⟨s, hs⟩
    by_cases hw : ∃ s, w = .text s
    · obtain ⟨t, rfl⟩ := hw
      rw [dump_token hv'] at h
      exact absurd h.symm (hapart hv' (token_ne_nil hreal v))
    · have hw' : ∀ s, w ≠ .text s := fun s hs => hw ⟨s, hs⟩
      rw [dump_token hv', dump_token hw'] at h
      have hsame := split_at_end (fun x hx => (token_inner hreal v hx).1)
        (fun x hx => (token_inner hreal w hx).1) hc hd h
      rw [hsame] at h
      exact ⟨token_injective hreal hv' hw' hsame, List.append_cancel_left h⟩

/-- The elements of an array behind the first, with its end. -/
theorem elements_head (realText : Flt → Str) (xs : Cells) (r : Str) :
    ∃ c t, Json.dumpElements (xs.map (cellJson realText)) ++ r = c :: t ∧ endsValue c = true := by
  cases xs with
  | nil => exact ⟨_, _, rfl, by decide⟩
  | cons x xs =>
    rw [List.map_cons, Json.dumpElements, List.cons_append]
    exact ⟨_, _, rfl, by decide⟩

theorem elements_inj (hreal : Printed realText) (xs ys : Cells)
    (h : Json.dumpElements (xs.map (cellJson realText)) ++ r =
      Json.dumpElements (ys.map (cellJson realText)) ++ r') : xs = ys ∧ r = r' := by
  induction xs generalizing ys with
  | nil =>
    cases ys with
    | nil => exact ⟨rfl, (List.cons.inj h).2⟩
    | cons y ys =>
      rw [List.map_cons, Json.dumpElements, List.cons_append] at h
      exact absurd (List.cons.inj h).1 (by decide)
  | cons x xs ih =>
    cases ys with
    | nil =>
      rw [List.map_cons, Json.dumpElements, List.cons_append] at h
      exact absurd (List.cons.inj h).1 (by decide)
    | cons y ys =>
      rw [List.map_cons, List.map_cons, Json.dumpElements, Json.dumpElements, List.cons_append,
        List.cons_append, List.append_assoc, List.append_assoc] at h
      have htail := (List.cons.inj h).2
      obtain ⟨c, t, hcs, hc⟩ := elements_head realText xs r
      obtain ⟨d, t', hds, hd⟩ := elements_head realText ys r'
      rw [hcs, hds] at htail
      obtain ⟨rfl, hrest⟩ := cell_inj hreal hc hd htail
      rw [← hcs, ← hds] at hrest
      obtain ⟨rfl, hr⟩ := ih ys hrest
      exact ⟨rfl, hr⟩

/-- No value begins with the end of an array. -/
theorem cell_head (hreal : Printed realText) (v : SqlVal) :
    ∃ c t, Json.dump (cellJson realText v) = c :: t ∧ c ≠ ofChar ']' := by
  by_cases hv : ∃ s, v = .text s
  · obtain ⟨s, rfl⟩ := hv
    exact ⟨_, _, rfl, by decide⟩
  · obtain ⟨c, t, hct⟩ := List.exists_cons_of_ne_nil (token_ne_nil hreal v)
    refine ⟨c, t, (dump_token fun s hs => hv ⟨s, hs⟩).trans hct, ?_⟩
    rintro rfl
    have hinner := (token_inner hreal v (hct ▸ List.mem_cons_self)).1
    exact absurd hinner (by decide)

/-- A printed row is read in one way. -/
theorem row_inj (hreal : Printed realText) {xs ys : Cells}
    (h : rowText realText xs ++ r = rowText realText ys ++ r') : xs = ys ∧ r = r' := by
  unfold rowText at h
  rw [Json.dump_arr_append, Json.dump_arr_append] at h
  have hinner := (List.cons.inj h).2
  have hapart : ∀ (x : SqlVal) (xs : Cells) (u u' : Str),
      ofChar ']' :: u ≠ Json.elementsText ((x :: xs).map (cellJson realText)) u' := by
    intro x xs u u' heq
    obtain ⟨c, t, hct, hc⟩ := cell_head hreal x
    rw [List.map_cons, Json.elementsText, hct] at heq
    exact hc (List.cons.inj heq).1.symm
  cases xs with
  | nil =>
    cases ys with
    | nil => exact ⟨rfl, (List.cons.inj hinner).2⟩
    | cons y ys => exact absurd hinner (hapart y ys r r')
  | cons x xs =>
    cases ys with
    | nil => exact absurd hinner.symm (hapart x xs r' r)
    | cons y ys =>
      refine elements_inj hreal (x :: xs) (y :: ys) ?_
      rw [List.map_cons, List.map_cons, Json.dumpElements_cons_append,
        Json.dumpElements_cons_append]
      exact congrArg (ofChar ',' :: ·) hinner

/-- A text stands for one list of rows. -/
theorem canonicalText_injective (hreal : Printed realText) :
    Function.Injective (canonicalText realText) := by
  intro rows rows' h
  have hbreak : ∀ row : Cells, rowText realText row ++ lit "\n" ≠ [] := by
    intro row hnil
    exact absurd (List.append_eq_nil_iff.mp hnil).2 (by decide)
  induction rows generalizing rows' with
  | nil =>
    cases rows' with
    | nil => rfl
    | cons row rows' =>
      have hnil := (List.append_eq_nil_iff.mp h.symm).1
      exact absurd hnil (hbreak row)
  | cons row rows ih =>
    cases rows' with
    | nil =>
      have hnil := (List.append_eq_nil_iff.mp h).1
      exact absurd hnil (hbreak row)
    | cons row' rows' =>
      have hline : rowText realText row ++ (lit "\n" ++ canonicalText realText rows) =
          rowText realText row' ++ (lit "\n" ++ canonicalText realText rows') := by
        rw [← List.append_assoc, ← List.append_assoc]
        exact h
      obtain ⟨rfl, hrest⟩ := row_inj hreal hline
      rw [ih (List.append_cancel_left hrest)]

/-- Tables with one digest have the same rows in the same order, when no two texts have one hash. -/
theorem canonicalDigest_eq_iff {d : Digests} (hreal : Printed d.realText)
    (hsha : Function.Injective d.sha256) {rows rows' : List Cells} :
    canonicalDigest d rows = canonicalDigest d rows' ↔ rows = rows' := by
  refine ⟨fun h => ?_, fun h => by rw [h]⟩
  have hhash : d.sha256 (canonicalText d.realText rows) =
      d.sha256 (canonicalText d.realText rows') := congrArg TableDigest.sha256 h
  exact canonicalText_injective hreal (hsha hhash)

end

/-! ## A host -/

/-- Texts of doubles that no two share. -/
def plainReal : Flt → Str
  | .fin neg mag => ofChar 'e' :: (if neg then ofChar '-' else ofChar '+') ::
      decimalText (Encodable.encode mag)
  | .inf neg => [ofChar 'I', if neg then ofChar '-' else ofChar '+']
  | .nan => [ofChar 'N']

theorem plainReal_printed : Printed plainReal := by
  have hsign : ∀ a b : Bool, (if a then ofChar '-' else ofChar '+') =
      (if b then ofChar '-' else ofChar '+') → a = b := by decide
  have hsignInner : ∀ a : Bool, endsValue (if a then ofChar '-' else ofChar '+') = false ∧
      (if a then ofChar '-' else ofChar '+') ≠ ofChar '"' := by decide
  refine ⟨fun f g h => ?_, fun f c hc => ?_, fun f => ?_, fun f h => ?_⟩
  · cases f with
    | fin neg mag =>
      cases g with
      | fin neg' mag' =>
        obtain ⟨hneg, hmag⟩ := List.cons.inj (List.cons.inj h).2
        have hcode : (Encodable.encode mag : ℤ) = Encodable.encode mag' := decimalText_injective hmag
        rw [hsign _ _ hneg, Encodable.encode_injective (Int.ofNat.inj hcode)]
      | _ => exact absurd (List.cons.inj h).1 (by decide)
    | inf neg =>
      cases g with
      | inf neg' => rw [hsign _ _ (List.cons.inj (List.cons.inj h).2).1]
      | _ => exact absurd (List.cons.inj h).1 (by decide)
    | nan =>
      cases g with
      | nan => rfl
      | _ => exact absurd (List.cons.inj h).1 (by decide)
  · cases f with
    | fin neg mag =>
      rcases List.mem_cons.mp hc with rfl | hc
      · exact ⟨by decide, by decide⟩
      · rcases List.mem_cons.mp hc with rfl | hc
        · exact hsignInner neg
        · exact decimal_inner (decimal_of_mem hc)
    | inf neg =>
      rcases List.mem_cons.mp hc with rfl | hc
      · exact ⟨by decide, by decide⟩
      · rw [List.mem_singleton.mp hc]
        exact hsignInner neg
    | nan =>
      rw [List.mem_singleton.mp hc]
      exact ⟨by decide, by decide⟩
  · cases f with
    | fin neg mag => exact ⟨ofChar 'e', List.mem_cons_self, by decide⟩
    | inf neg => exact ⟨ofChar 'I', List.mem_cons_self, by decide⟩
    | nan => exact ⟨ofChar 'N', List.mem_cons_self, by decide⟩
  · cases f with
    | fin neg mag => exact absurd (List.cons.inj h).1 (by decide)
    | inf neg => exact absurd (List.cons.inj h).1 (by decide)
    | nan => exact absurd (List.cons.inj h).1 (by decide)

/-- A host whose hash is the text itself. -/
def plainDigests : Digests := ⟨plainReal, id⟩

end Migration
end ATalk
