import ATalk.Lib.Json

/-!
# JSON texts: the RFC 8259 decoder with Python's hooks, and the compact printer

`loads` is `json.loads`: the scanner of the standard library, with the hooks a caller can
install (what to make of an object's pairs, of a number token, of `NaN` and the infinities).
`dumps` is `json.dumps` with `ensure_ascii=False`, compact separators and sorted keys.

* `scanOnce_dump` : the scanner reads back what the printer wrote, and stops there;
* `loads_dumps`   : `loads (dumps j)` is `j` with its keys sorted;
* `dumps_injective` : two trees with one text differ only in the order of their keys.

A scanner takes fuel, one unit for each value or member it enters; `loads` gives it one more
than the length of the text, and every unit pays for at least one character.
-/

namespace ATalk
namespace Json

open Text

/-! ## Printing -/

def hexDigit (n : ℕ) : CodePoint := if n < 10 then codePoint (0x30 + n) else codePoint (0x57 + n)

/-- The escape table of `ensure_ascii=False`. -/
def escape (c : CodePoint) : Str :=
  if c = ofChar '"' then [ofChar '\\', ofChar '"']
  else if c = ofChar '\\' then [ofChar '\\', ofChar '\\']
  else if c.val = 0x08 then [ofChar '\\', ofChar 'b']
  else if c.val = 0x0C then [ofChar '\\', ofChar 'f']
  else if c.val = 0x0A then [ofChar '\\', ofChar 'n']
  else if c.val = 0x0D then [ofChar '\\', ofChar 'r']
  else if c.val = 0x09 then [ofChar '\\', ofChar 't']
  else if c.val < 0x20 then
    [ofChar '\\', ofChar 'u', ofChar '0', ofChar '0', hexDigit (c.val / 16), hexDigit (c.val % 16)]
  else [c]

def dumpString (s : Str) : Str := ofChar '"' :: (s.flatMap escape ++ [ofChar '"'])

mutual

/-- The text of a tree, its members in the order they stand in. -/
def dump : Json → Str
  | .null => lit "null"
  | .bool true => lit "true"
  | .bool false => lit "false"
  | .num t => t
  | .str s => dumpString s
  | .arr [] => lit "[]"
  | .arr (x :: xs) => ofChar '[' :: (dump x ++ dumpElements xs)
  | .obj [] => lit "{}"
  | .obj ((k, v) :: ms) =>
    ofChar '{' :: (dumpString k ++ (ofChar ':' :: (dump v ++ dumpMembers ms)))
termination_by structural j => j

/-- The elements after the first, and the closing bracket. -/
def dumpElements : List Json → Str
  | [] => lit "]"
  | x :: xs => ofChar ',' :: (dump x ++ dumpElements xs)
termination_by structural xs => xs

/-- The members after the first, and the closing brace. -/
def dumpMembers : List (Str × Json) → Str
  | [] => lit "\x7d"
  | (k, v) :: ms =>
    ofChar ',' :: (dumpString k ++ (ofChar ':' :: (dump v ++ dumpMembers ms)))
termination_by structural ms => ms

end

/-- `json.dumps(j, ensure_ascii=False, separators=(",", ":"), sort_keys=True)`. -/
def dumps (j : Json) : Str := dump (sortKeys j)

/-! ## Scanning -/

/-- The hooks of `json.loads`, and the error of a text that is no JSON. -/
structure Hooks (ε : Type) where
  decodeError : ε
  objectPairs : List (Str × Json) → Except ε Json
  parseNumber : Str → Except ε Json
  parseConstant : Str → Except ε Json

def isSpace (c : CodePoint) : Bool :=
  c = ofChar ' ' || c = ofChar '\t' || c = ofChar '\n' || c = ofChar '\r'

def skipSpace (s : Str) : Str := s.dropWhile isSpace

def simpleEscape (c : CodePoint) : Option CodePoint :=
  if c = ofChar '"' then some (ofChar '"')
  else if c = ofChar '\\' then some (ofChar '\\')
  else if c = ofChar '/' then some (ofChar '/')
  else if c = ofChar 'b' then some 0x08
  else if c = ofChar 'f' then some 0x0C
  else if c = ofChar 'n' then some 0x0A
  else if c = ofChar 'r' then some 0x0D
  else if c = ofChar 't' then some 0x09
  else none

def hexVal (c : CodePoint) : Option ℕ :=
  if 0x30 ≤ c.val ∧ c.val ≤ 0x39 then some (c.val - 0x30)
  else if 0x61 ≤ c.val ∧ c.val ≤ 0x66 then some (c.val - 0x57)
  else if 0x41 ≤ c.val ∧ c.val ≤ 0x46 then some (c.val - 0x37)
  else none

/-- Four hexadecimal digits and what follows them. -/
def hex4 : Str → Option (ℕ × Str)
  | a :: b :: c :: d :: t => do
    let a ← hexVal a
    let b ← hexVal b
    let c ← hexVal c
    let d ← hexVal d
    return (((a * 16 + b) * 16 + c) * 16 + d, t)
  | _ => none

/-- A `\uXXXX` escape. -/
def hexEscape : Str → Option (ℕ × Str)
  | x :: y :: t => if x = ofChar '\\' ∧ y = ofChar 'u' then hex4 t else none
  | _ => none

/-- What a backslash starts: the character it stands for and the rest. A high surrogate joins
the low one escaped right after it, and stands alone otherwise. -/
def scanEscape : Str → Option (CodePoint × Str)
  | [] => none
  | e :: t =>
    if e = ofChar 'u' then
      match hex4 t with
      | none => none
      | some (hi, t₁) =>
        match hexEscape t₁ with
        | none => some (codePoint hi, t₁)
        | some (lo, t₂) =>
          if 0xD800 ≤ hi ∧ hi ≤ 0xDBFF ∧ 0xDC00 ≤ lo ∧ lo ≤ 0xDFFF then
            some (codePoint (0x10000 + (hi - 0xD800) * 0x400 + (lo - 0xDC00)), t₂)
          else some (codePoint hi, t₁)
    else (simpleEscape e).map (·, t)

/-- The contents of a string up to its closing quote, and the rest. -/
def scanString : ℕ → Str → Option (Str × Str)
  | 0, _ => none
  | _ + 1, [] => none
  | n + 1, c :: t =>
    if c = ofChar '"' then some ([], t)
    else if c = ofChar '\\' then
      match scanEscape t with
      | none => none
      | some (c', t₁) => (scanString n t₁).map fun p => (c' :: p.1, p.2)
    else if c.val < 0x20 then none
    else (scanString n t).map fun p => (c :: p.1, p.2)

/-- `s` without the literal it starts with. -/
def dropLit (l : String) (s : Str) : Option Str :=
  if (lit l).isPrefixOf s then some (s.drop l.length) else none

def isDigit (c : CodePoint) : Bool := 0x30 ≤ c.val && c.val ≤ 0x39

/-- `-?(0|[1-9][0-9]*)` -/
def scanInteger (s : Str) : Option (Str × Str) :=
  let (sign, t) := if s.head? = some (ofChar '-') then (lit "-", s.drop 1) else ([], s)
  match t with
  | [] => none
  | c :: t' =>
    if c = ofChar '0' then some (sign ++ [c], t')
    else if isDigit c then some (sign ++ t.takeWhile isDigit, t.dropWhile isDigit)
    else none

/-- `(\.[0-9]+)?` -/
def scanFraction (s : Str) : Str × Str :=
  match s with
  | p :: c :: t =>
    if p = ofChar '.' ∧ isDigit c then
      (p :: (c :: t).takeWhile isDigit, (c :: t).dropWhile isDigit)
    else ([], s)
  | _ => ([], s)

/-- `([eE][-+]?[0-9]+)?` -/
def scanExponent (s : Str) : Str × Str :=
  match s with
  | e :: t =>
    if e = ofChar 'e' ∨ e = ofChar 'E' then
      let (sign, u) := match t with
        | g :: u => if g = ofChar '-' ∨ g = ofChar '+' then ([g], u) else ([], t)
        | [] => ([], t)
      if u.takeWhile isDigit = [] then ([], s)
      else (e :: sign ++ u.takeWhile isDigit, u.dropWhile isDigit)
    else ([], s)
  | [] => ([], s)

def scanNumber (s : Str) : Option (Str × Str) :=
  (scanInteger s).map fun (i, t) =>
    let (f, t) := scanFraction t
    let (e, t) := scanExponent t
    (i ++ f ++ e, t)

section Scan

variable {ε : Type} (h : Hooks ε)

/-- A value that is not a string, an object or an array. -/
def scanAtom (s : Str) : Except ε (Json × Str) :=
  match dropLit "null" s, dropLit "true" s, dropLit "false" s with
  | some t, _, _ => .ok (.null, t)
  | _, some t, _ => .ok (.bool true, t)
  | _, _, some t => .ok (.bool false, t)
  | none, none, none =>
    match dropLit "NaN" s, dropLit "Infinity" s, dropLit "-Infinity" s with
    | some t, _, _ => (h.parseConstant (lit "NaN")).map (·, t)
    | _, some t, _ => (h.parseConstant (lit "Infinity")).map (·, t)
    | _, _, some t => (h.parseConstant (lit "-Infinity")).map (·, t)
    | none, none, none =>
      match scanNumber s with
      | some (tok, t) => (h.parseNumber tok).map (·, t)
      | none => .error h.decodeError

mutual

/-- One value and the rest of the text. -/
def scanOnce : ℕ → Str → Except ε (Json × Str)
  | 0, _ => .error h.decodeError
  | _ + 1, [] => .error h.decodeError
  | n + 1, c :: t =>
    if c = ofChar '"' then
      match scanString (t.length + 1) t with
      | some (s, r) => .ok (.str s, r)
      | none => .error h.decodeError
    else if c = ofChar '{' then
      match skipSpace t with
      | [] => .error h.decodeError
      | c' :: t' =>
        if c' = ofChar '}' then (h.objectPairs []).map (·, t')
        else scanMembers n (c' :: t') []
    else if c = ofChar '[' then
      match skipSpace t with
      | [] => .error h.decodeError
      | c' :: t' =>
        if c' = ofChar ']' then .ok (.arr [], t') else scanElements n (c' :: t') []
    else scanAtom h (c :: t)

/-- The members of an object from a key on; `acc` holds those before it. -/
def scanMembers : ℕ → Str → List (Str × Json) → Except ε (Json × Str)
  | 0, _, _ => .error h.decodeError
  | _ + 1, [], _ => .error h.decodeError
  | n + 1, c :: t, acc =>
    if c = ofChar '"' then
      match scanString (t.length + 1) t with
      | none => .error h.decodeError
      | some (k, r) =>
        match skipSpace r with
        | [] => .error h.decodeError
        | d :: r =>
          if d = ofChar ':' then
            match scanOnce n (skipSpace r) with
            | .error e => .error e
            | .ok (v, r) =>
              match skipSpace r with
              | [] => .error h.decodeError
              | d :: r =>
                if d = ofChar '}' then (h.objectPairs (acc ++ [(k, v)])).map (·, r)
                else if d = ofChar ',' then scanMembers n (skipSpace r) (acc ++ [(k, v)])
                else .error h.decodeError
          else .error h.decodeError
    else .error h.decodeError

/-- The elements of an array from a value on; `acc` holds those before it. -/
def scanElements : ℕ → Str → List Json → Except ε (Json × Str)
  | 0, _, _ => .error h.decodeError
  | n + 1, s, acc =>
    match scanOnce n s with
    | .error e => .error e
    | .ok (v, r) =>
      match skipSpace r with
      | [] => .error h.decodeError
      | d :: r =>
        if d = ofChar ']' then .ok (.arr (acc ++ [v]), r)
        else if d = ofChar ',' then scanElements n (skipSpace r) (acc ++ [v])
        else .error h.decodeError

end

/-- `json.loads`: one value, with white space around it and no byte order mark. -/
def loads (s : Str) : Except ε Json :=
  if s.head? = some (codePoint 0xFEFF) then .error h.decodeError
  else match scanOnce h (s.length + 1) (skipSpace s) with
  | .error e => .error e
  | .ok (v, r) => if skipSpace r = [] then .ok v else .error h.decodeError

end Scan

/-! ## The round trip of strings -/

theorem hexVal_hexDigit : ∀ n < 16, hexVal (hexDigit n) = some n := by decide

theorem hex4_low {n : ℕ} (hn : n < 0x20) (t : Str) :
    hex4 (ofChar '0' :: ofChar '0' :: hexDigit (n / 16) :: hexDigit (n % 16) :: t)
      = some (n, t) := by
  have h0 : hexVal (ofChar '0') = some 0 := by decide
  have h1 := hexVal_hexDigit (n / 16) (by omega)
  have h2 := hexVal_hexDigit (n % 16) (by omega)
  have hn : ((0 * 16 + 0) * 16 + n / 16) * 16 + n % 16 = n := by omega
  simp only [hex4, h0, h1, h2, Option.bind_eq_bind, Option.bind_some, hn]
  rfl

/-- A control character is no surrogate, so its escape joins nothing. -/
theorem scanEscape_control {n : ℕ} (hn : n < 0x20) (t : Str) :
    scanEscape (ofChar 'u' :: ofChar '0' :: ofChar '0' :: hexDigit (n / 16)
      :: hexDigit (n % 16) :: t) = some (codePoint n, t) := by
  simp only [scanEscape, if_true, hex4_low hn]
  cases hexEscape t with
  | none => rfl
  | some p => simp only; rw [if_neg (by omega)]

theorem scanEscape_simple {e c : CodePoint} (he : e ≠ ofChar 'u') (hc : simpleEscape e = some c)
    (t : Str) : scanEscape (e :: t) = some (c, t) := by
  simp only [scanEscape, if_neg he, hc, Option.map_some]

theorem scanString_backslash {n : ℕ} {t t' : Str} {c : CodePoint}
    (h : scanEscape t = some (c, t')) :
    scanString (n + 1) (ofChar '\\' :: t) = (scanString n t').map fun p => (c :: p.1, p.2) := by
  rw [scanString, if_neg (by decide), if_pos rfl, h]

/-- The scanner reads back one character of a printed string. -/
theorem scanString_escape (n : ℕ) (c : CodePoint) (t : Str) :
    scanString (n + 1) (escape c ++ t) = (scanString n t).map fun p => (c :: p.1, p.2) := by
  unfold escape
  split_ifs with h1 h2 h3 h4 h5 h6 h7 h8 <;> simp only [List.cons_append, List.nil_append]
  · subst h1; exact scanString_backslash (scanEscape_simple (by decide) (by decide) t)
  · subst h2; exact scanString_backslash (scanEscape_simple (by decide) (by decide) t)
  · obtain rfl : c = 0x08 := Fin.ext h3
    exact scanString_backslash (scanEscape_simple (by decide) (by decide) t)
  · obtain rfl : c = 0x0C := Fin.ext h4
    exact scanString_backslash (scanEscape_simple (by decide) (by decide) t)
  · obtain rfl : c = 0x0A := Fin.ext h5
    exact scanString_backslash (scanEscape_simple (by decide) (by decide) t)
  · obtain rfl : c = 0x0D := Fin.ext h6
    exact scanString_backslash (scanEscape_simple (by decide) (by decide) t)
  · obtain rfl : c = 0x09 := Fin.ext h7
    exact scanString_backslash (scanEscape_simple (by decide) (by decide) t)
  · rw [scanString_backslash (scanEscape_control h8 t), codePoint_val]
  · rw [scanString, if_neg h1, if_neg h2, if_neg h8]

theorem length_escape_pos (c : CodePoint) : 0 < (escape c).length := by
  unfold escape
  split_ifs <;> simp

/-- The scanner reads back a printed string and stops behind its closing quote. -/
theorem scanString_dumpString (s r : Str) {n : ℕ} (hn : s.length < n) :
    scanString n (s.flatMap escape ++ (ofChar '"' :: r)) = some (s, r) := by
  induction s generalizing n with
  | nil =>
    obtain ⟨m, rfl⟩ : ∃ m, n = m + 1 := ⟨n - 1, by simp at hn; omega⟩
    rw [List.flatMap_nil, List.nil_append, scanString, if_pos rfl]
  | cons c s ih =>
    obtain ⟨m, rfl⟩ : ∃ m, n = m + 1 := ⟨n - 1, by omega⟩
    rw [List.length_cons] at hn
    rw [List.flatMap_cons, List.append_assoc, scanString_escape, ih (by omega)]
    rfl

theorem length_le_flatMap_escape (s : Str) : s.length ≤ (s.flatMap escape).length := by
  induction s with
  | nil => simp
  | cons c s ih =>
    have := length_escape_pos c
    rw [List.flatMap_cons, List.length_append, List.length_cons]
    omega

/-! ## The round trip of trees -/

/-- The hooks let an object with distinct keys through. -/
def Hooks.Faithful {ε : Type} (h : Hooks ε) : Prop :=
  ∀ ms, (keys ms).Nodup → h.objectPairs ms = .ok (.obj ms)

/-- A printed tree starts with a character that is neither white space, nor a byte order mark,
nor the end of an array. -/
theorem dump_head {j : Json} (hj : Tidy j) :
    ∃ c t, dump j = c :: t ∧ isSpace c = false ∧ c ≠ codePoint 0xFEFF ∧ c ≠ ofChar ']' := by
  cases j with
  | null => exact ⟨_, _, rfl, by decide, by decide, by decide⟩
  | bool b => cases b <;> exact ⟨_, _, rfl, by decide, by decide, by decide⟩
  | num t => exact absurd hj (by simp [Tidy])
  | str s => exact ⟨_, _, by rw [dump, dumpString], by decide, by decide, by decide⟩
  | arr xs => cases xs <;> exact ⟨_, _, rfl, by decide, by decide, by decide⟩
  | obj ms => cases ms <;> exact ⟨_, _, rfl, by decide, by decide, by decide⟩

theorem skipSpace_cons {c : CodePoint} (hc : isSpace c = false) (t : Str) :
    skipSpace (c :: t) = c :: t := by
  rw [skipSpace, List.dropWhile_cons, if_neg (by simp [hc])]

theorem skipSpace_dump {j : Json} (hj : Tidy j) (r : Str) :
    skipSpace (dump j ++ r) = dump j ++ r := by
  obtain ⟨c, t, he, hc, -, -⟩ := dump_head hj
  rw [he, List.cons_append]
  exact skipSpace_cons hc _

theorem scanString_printed (s r : Str) :
    scanString ((s.flatMap escape ++ (ofChar '"' :: r)).length + 1)
      (s.flatMap escape ++ (ofChar '"' :: r)) = some (s, r) := by
  refine scanString_dumpString s r ?_
  have := length_le_flatMap_escape s
  rw [List.length_append]
  omega

/-- A printed key, the colon, the value and what follows. -/
def memberText (k : Str) (v : Json) (r : Str) : Str :=
  dumpString k ++ (ofChar ':' :: (dump v ++ r))

/-- The members of an object behind the opening brace, with the closing one. -/
def membersText : List (Str × Json) → Str → Str
  | [], r => ofChar '}' :: r
  | (k, v) :: ms, r => memberText k v (dumpMembers ms ++ r)

/-- The elements of an array behind the opening bracket, with the closing one. -/
def elementsText : List Json → Str → Str
  | [], r => ofChar ']' :: r
  | x :: xs, r => dump x ++ (dumpElements xs ++ r)

theorem dump_obj_append (ms : List (Str × Json)) (r : Str) :
    dump (.obj ms) ++ r = ofChar '{' :: membersText ms r := by
  cases ms with
  | nil => rfl
  | cons m ms => simp [dump, membersText, memberText]

theorem dump_arr_append (xs : List Json) (r : Str) :
    dump (.arr xs) ++ r = ofChar '[' :: elementsText xs r := by
  cases xs with
  | nil => rfl
  | cons x xs => simp [dump, elementsText]

theorem dumpMembers_cons_append (m : Str × Json) (ms : List (Str × Json)) (r : Str) :
    dumpMembers (m :: ms) ++ r = ofChar ',' :: membersText (m :: ms) r := by
  simp [dumpMembers, membersText, memberText]

theorem dumpElements_cons_append (x : Json) (xs : List Json) (r : Str) :
    dumpElements (x :: xs) ++ r = ofChar ',' :: elementsText (x :: xs) r := by
  simp [dumpElements, elementsText]

theorem membersText_cons (m : Str × Json) (ms : List (Str × Json)) (r : Str) :
    ∃ t, membersText (m :: ms) r = ofChar '"' :: t :=
  ⟨_, by rw [membersText, memberText, dumpString, List.cons_append]⟩

theorem skipSpace_membersText (ms : List (Str × Json)) (r : Str) :
    skipSpace (membersText ms r) = membersText ms r := by
  cases ms with
  | nil => exact skipSpace_cons (by decide) r
  | cons m ms =>
    obtain ⟨t, ht⟩ := membersText_cons m ms r
    rw [ht]
    exact skipSpace_cons (by decide) t

theorem elementsText_cons {x : Json} (hx : Tidy x) (xs : List Json) (r : Str) :
    ∃ c t, elementsText (x :: xs) r = c :: t ∧ isSpace c = false ∧ c ≠ ofChar ']' := by
  obtain ⟨c, t, he, hc, -, hb⟩ := dump_head hx
  exact ⟨c, t ++ (dumpElements xs ++ r), by rw [elementsText, he, List.cons_append], hc, hb⟩

theorem skipSpace_elementsText {xs : List Json} (hxs : TidyList xs) (r : Str) :
    skipSpace (elementsText xs r) = elementsText xs r := by
  cases xs with
  | nil => exact skipSpace_cons (by decide) r
  | cons x xs =>
    obtain ⟨c, t, ht, hc, -⟩ := elementsText_cons hxs.1 xs r
    rw [ht]
    exact skipSpace_cons hc t

section RoundTrip

variable {ε : Type} {h : Hooks ε}

/-- The scanner gets from a printed key past its value. -/
theorem scanMembers_key {n : ℕ} {k : Str} {v : Json} {r : Str} {acc : List (Str × Json)}
    (hv : Tidy v) (hs : scanOnce h n (dump v ++ r) = .ok (v, r)) :
    scanMembers h (n + 1) (memberText k v r) acc =
      match skipSpace r with
      | [] => .error h.decodeError
      | d :: r =>
        if d = ofChar '}' then (h.objectPairs (acc ++ [(k, v)])).map (·, r)
        else if d = ofChar ',' then scanMembers h n (skipSpace r) (acc ++ [(k, v)])
        else .error h.decodeError := by
  simp only [memberText, dumpString, List.cons_append, List.append_assoc, List.nil_append]
  rw [scanMembers, if_pos rfl, scanString_printed]
  simp only [skipSpace_cons (show isSpace (ofChar ':') = false by decide), if_true,
    skipSpace_dump hv, hs]

mutual

/-- The scanner reads back a printed tree and stops behind it. -/
theorem scanOnce_dump (hp : h.Faithful) :
    ∀ (j : Json) (n : ℕ) (r : Str), Tidy j → size j ≤ n → scanOnce h n (dump j ++ r) = .ok (j, r)
  | .null, n, r, _, hn => by
    obtain ⟨m, rfl⟩ : ∃ m, n = m + 1 := ⟨n - 1, by simp [size] at hn; omega⟩
    rfl
  | .bool true, n, r, _, hn => by
    obtain ⟨m, rfl⟩ : ∃ m, n = m + 1 := ⟨n - 1, by simp [size] at hn; omega⟩
    rfl
  | .bool false, n, r, _, hn => by
    obtain ⟨m, rfl⟩ : ∃ m, n = m + 1 := ⟨n - 1, by simp [size] at hn; omega⟩
    rfl
  | .num _, _, _, hj, _ => absurd hj (by simp [Tidy])
  | .str s, n, r, _, hn => by
    obtain ⟨m, rfl⟩ : ∃ m, n = m + 1 := ⟨n - 1, by simp [size] at hn; omega⟩
    rw [dump, dumpString, List.cons_append, List.append_assoc, List.singleton_append, scanOnce,
      if_pos rfl, scanString_printed]
  | .arr xs, n, r, hj, hn => by
    rw [size] at hn
    obtain ⟨m, rfl⟩ : ∃ m, n = m + 1 := ⟨n - 1, by omega⟩
    rw [Tidy] at hj
    rw [dump_arr_append, scanOnce, if_neg (by decide), if_neg (by decide), if_pos rfl,
      skipSpace_elementsText hj]
    cases xs with
    | nil => rfl
    | cons x xs =>
      have hs := scanElements_dump hp (x :: xs) m r [] (by simp) hj (by omega)
      obtain ⟨c, t, ht, -, hb⟩ := elementsText_cons hj.1 xs r
      rw [ht] at hs ⊢
      simpa only [if_neg hb, List.nil_append] using hs
  | .obj ms, n, r, hj, hn => by
    rw [size] at hn
    obtain ⟨m, rfl⟩ : ∃ m, n = m + 1 := ⟨n - 1, by omega⟩
    rw [Tidy] at hj
    rw [dump_obj_append, scanOnce, if_neg (by decide), if_pos rfl, skipSpace_membersText]
    cases ms with
    | nil =>
      simp only [membersText, if_true, hp [] (by simp [keys])]
      rfl
    | cons p ms =>
      have hs := scanMembers_dump hp (p :: ms) m r [] (by simp) hj.2 (by simpa using hj.1)
        (by omega)
      obtain ⟨t, ht⟩ := membersText_cons p ms r
      rw [ht] at hs ⊢
      simpa only [if_neg (show ofChar '"' ≠ ofChar '}' by decide), List.nil_append] using hs
termination_by structural j => j

theorem scanMembers_dump (hp : h.Faithful) :
    ∀ (ms : List (Str × Json)) (n : ℕ) (r : Str) (acc : List (Str × Json)), ms ≠ [] →
      TidyMembers ms → (keys (acc ++ ms)).Nodup → sizeMembers ms ≤ n →
      scanMembers h n (membersText ms r) acc = .ok (.obj (acc ++ ms), r)
  | [], _, _, _, hne, _, _, _ => absurd rfl hne
  | (k, v) :: ms, n, r, acc, _, hms, hd, hn => by
    rw [sizeMembers] at hn
    obtain ⟨m, rfl⟩ : ∃ m, n = m + 1 := ⟨n - 1, by omega⟩
    rw [TidyMembers] at hms
    rw [membersText, scanMembers_key hms.1 (scanOnce_dump hp v m _ hms.1 (by omega))]
    cases ms with
    | nil =>
      have hs : skipSpace (dumpMembers [] ++ r) = ofChar '}' :: r := rfl
      rw [hs]
      simp only [if_true, hp _ hd]
      rfl
    | cons p ms =>
      rw [dumpMembers_cons_append, skipSpace_cons (by decide)]
      simp only [if_neg (show ofChar ',' ≠ ofChar '}' by decide), if_true,
        skipSpace_membersText]
      rw [scanMembers_dump hp (p :: ms) m r (acc ++ [(k, v)]) (by simp) hms.2
        (by simpa using hd) (by omega)]
      simp
termination_by structural ms => ms

theorem scanElements_dump (hp : h.Faithful) :
    ∀ (xs : List Json) (n : ℕ) (r : Str) (acc : List Json), xs ≠ [] → TidyList xs →
      sizeList xs ≤ n →
      scanElements h n (elementsText xs r) acc = .ok (.arr (acc ++ xs), r)
  | [], _, _, _, hne, _, _ => absurd rfl hne
  | x :: xs, n, r, acc, _, hxs, hn => by
    rw [sizeList] at hn
    obtain ⟨m, rfl⟩ : ∃ m, n = m + 1 := ⟨n - 1, by omega⟩
    rw [TidyList] at hxs
    rw [elementsText, scanElements, scanOnce_dump hp x m _ hxs.1 (by omega)]
    cases xs with
    | nil => rfl
    | cons y ys =>
      rw [dumpElements_cons_append]
      simp only [skipSpace_cons (show isSpace (ofChar ',') = false by decide),
        if_neg (show ofChar ',' ≠ ofChar ']' by decide), if_true, skipSpace_elementsText hxs.2]
      rw [scanElements_dump hp (y :: ys) m r (acc ++ [x]) (by simp) hxs.2 (by omega)]
      simp
termination_by structural xs => xs

end

end RoundTrip

/-! ## `loads` and `dumps` -/

mutual

/-- A printed tree is long enough to pay for its fuel. -/
theorem size_le_length_dump : ∀ j : Json, Tidy j → size j ≤ (dump j).length
  | .null, _ => by decide
  | .bool true, _ => by decide
  | .bool false, _ => by decide
  | .num _, hj => absurd hj (by simp [Tidy])
  | .str s, _ => by simp [size, dump, dumpString]
  | .arr [], _ => by decide
  | .arr (x :: xs), hj => by
    have hx := size_le_length_dump x hj.1
    have hxs := sizeList_lt_length xs hj.2
    simp only [size, sizeList, dump, List.length_cons, List.length_append]
    omega
  | .obj [], _ => by decide
  | .obj ((k, v) :: ms), hj => by
    have hv := size_le_length_dump v hj.2.1
    have hms := sizeMembers_lt_length ms hj.2.2
    simp only [size, sizeMembers, dump, List.length_cons, List.length_append]
    omega
termination_by structural j => j

theorem sizeList_lt_length : ∀ xs : List Json, TidyList xs →
    sizeList xs < (dumpElements xs).length
  | [], _ => by decide
  | x :: xs, hxs => by
    have hx := size_le_length_dump x hxs.1
    have ht := sizeList_lt_length xs hxs.2
    simp only [sizeList, dumpElements, List.length_cons, List.length_append]
    omega
termination_by structural xs => xs

theorem sizeMembers_lt_length : ∀ ms : List (Str × Json), TidyMembers ms →
    sizeMembers ms < (dumpMembers ms).length
  | [], _ => by decide
  | (k, v) :: ms, hms => by
    have hv := size_le_length_dump v hms.1
    have ht := sizeMembers_lt_length ms hms.2
    simp only [sizeMembers, dumpMembers, List.length_cons, List.length_append]
    omega
termination_by structural ms => ms

end

theorem loads_dump {ε : Type} {h : Hooks ε} (hp : h.Faithful) {j : Json} (hj : Tidy j) :
    loads h (dump j) = .ok j := by
  have hs := size_le_length_dump j hj
  have hr := scanOnce_dump hp j ((dump j).length + 1) [] hj (by omega)
  obtain ⟨c, t, he, hc, hb, -⟩ := dump_head hj
  rw [List.append_nil] at hr
  have hk : skipSpace (dump j) = dump j := by rw [he]; exact skipSpace_cons hc t
  have hne : (dump j).head? ≠ some (codePoint 0xFEFF) := by
    rw [he, List.head?_cons]
    exact fun e => hb (Option.some.inj e)
  rw [loads, if_neg hne, hk, hr]
  rfl

/-- The decoder reads a printed tree back, its keys in order. -/
theorem loads_dumps {ε : Type} {h : Hooks ε} (hp : h.Faithful) {j : Json} (hj : Tidy j) :
    loads h (dumps j) = .ok (sortKeys j) := loads_dump hp (tidy_sortKeys j hj)

/-- The hooks that let everything through. -/
def plainHooks : Hooks Unit where
  decodeError := ()
  objectPairs ms := .ok (.obj ms)
  parseNumber t := .ok (.num t)
  parseConstant t := .ok (.num t)

/-- One text, one tree up to the order of its keys. -/
theorem dumps_injective {a b : Json} (ha : Tidy a) (hb : Tidy b) (h : dumps a = dumps b) :
    sortKeys a = sortKeys b := by
  have hp : plainHooks.Faithful := fun _ _ => rfl
  exact Except.ok.inj ((loads_dumps hp ha).symm.trans ((congrArg _ h).trans (loads_dumps hp hb)))

/-! ## What strict hooks let through -/

/-- The hooks refuse numbers and objects that name a key twice. -/
structure Hooks.Strict {ε : Type} (h : Hooks ε) : Prop where
  objectPairs : ∀ {ms j}, h.objectPairs ms = .ok j → j = .obj ms ∧ (keys ms).Nodup
  parseNumber : ∀ t j, h.parseNumber t ≠ .ok j
  parseConstant : ∀ t j, h.parseConstant t ≠ .ok j

theorem tidyMembers_concat {ms : List (Str × Json)} {k : Str} {v : Json} (hms : TidyMembers ms)
    (hv : Tidy v) : TidyMembers (ms ++ [(k, v)]) := by
  rw [tidyMembers_iff] at hms ⊢
  intro m hm
  rcases List.mem_append.mp hm with hm | hm
  · exact hms m hm
  · rw [List.mem_singleton] at hm
    subst hm
    exact hv

theorem tidyList_concat {xs : List Json} {x : Json} (hxs : TidyList xs) (hx : Tidy x) :
    TidyList (xs ++ [x]) := by
  induction xs with
  | nil => exact ⟨hx, trivial⟩
  | cons y ys ih => exact ⟨hxs.1, ih hxs.2⟩

section Strict

variable {ε : Type} {h : Hooks ε}

theorem map_pair_ok {x : Except ε Json} {r : Str} {p : Json × Str}
    (he : x.map (·, r) = .ok p) : x = .ok p.1 := by
  cases x with
  | error e => cases he
  | ok j => cases he; rfl

theorem tidy_of_pairs (hs : h.Strict) {ms : List (Str × Json)} {r : Str} {p : Json × Str}
    (hms : TidyMembers ms) (he : (h.objectPairs ms).map (·, r) = .ok p) : Tidy p.1 := by
  obtain ⟨hj, hn⟩ := hs.objectPairs (map_pair_ok he)
  rw [hj, Tidy]
  exact ⟨hn, hms⟩

theorem scanAtom_tidy (hs : h.Strict) {s : Str} {p : Json × Str} (he : scanAtom h s = .ok p) :
    Tidy p.1 := by
  unfold scanAtom at he
  repeat' split at he
  all_goals
    first
    | cases he; done
    | cases he; trivial
    | exact absurd (map_pair_ok he) (hs.parseConstant _ _)
    | exact absurd (map_pair_ok he) (hs.parseNumber _ _)

mutual

theorem scanOnce_tidy (hs : h.Strict) : ∀ (n : ℕ) {s : Str} {p : Json × Str},
    scanOnce h n s = .ok p → Tidy p.1
  | 0, _, _, he => by rw [scanOnce] at he; cases he
  | _ + 1, [], _, he => by rw [scanOnce] at he; cases he
  | n + 1, c :: t, p, he => by
    rw [scanOnce] at he
    split_ifs at he with h1 h2 h3
    · split at he
      · cases he; trivial
      · cases he
    · split at he
      · cases he
      · split_ifs at he
        · exact tidy_of_pairs hs (show TidyMembers [] from trivial) he
        · exact scanMembers_tidy hs n (show TidyMembers [] from trivial) he
    · split at he
      · cases he
      · split_ifs at he
        · cases he; trivial
        · exact scanElements_tidy hs n (show TidyList [] from trivial) he
    · exact scanAtom_tidy hs he

theorem scanMembers_tidy (hs : h.Strict) : ∀ (n : ℕ) {s : Str} {acc : List (Str × Json)}
    {p : Json × Str}, TidyMembers acc → scanMembers h n s acc = .ok p → Tidy p.1
  | 0, _, _, _, _, he => by rw [scanMembers] at he; cases he
  | _ + 1, [], _, _, _, he => by rw [scanMembers] at he; cases he
  | n + 1, c :: t, acc, p, hacc, he => by
    rw [scanMembers] at he
    split_ifs at he
    split at he
    · cases he
    split at he
    · cases he
    split_ifs at he
    split at he
    · cases he
    next v r hv =>
      have htv := scanOnce_tidy hs n hv
      split at he
      · cases he
      split_ifs at he
      · exact tidy_of_pairs hs (tidyMembers_concat hacc htv) he
      · exact scanMembers_tidy hs n (tidyMembers_concat hacc htv) he

theorem scanElements_tidy (hs : h.Strict) : ∀ (n : ℕ) {s : Str} {acc : List Json}
    {p : Json × Str}, TidyList acc → scanElements h n s acc = .ok p → Tidy p.1
  | 0, _, _, _, _, he => by rw [scanElements] at he; cases he
  | n + 1, s, acc, p, hacc, he => by
    rw [scanElements] at he
    split at he
    · cases he
    next v r hv =>
      have htv := scanOnce_tidy hs n hv
      split at he
      · cases he
      split_ifs at he
      · cases he
        exact tidyList_concat hacc htv
      · exact scanElements_tidy hs n (tidyList_concat hacc htv) he

end

/-- What strict hooks let through has no numbers and no key twice. -/
theorem loads_tidy (hs : h.Strict) {s : Str} {j : Json} (he : loads h s = .ok j) : Tidy j := by
  unfold loads at he
  split_ifs at he
  split at he
  · cases he
  next v r hv =>
    split_ifs at he
    cases he
    exact scanOnce_tidy hs _ hv

end Strict

end Json
end ATalk
