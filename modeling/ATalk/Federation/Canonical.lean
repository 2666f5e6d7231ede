import ATalk.Lib.JsonText
import Mathlib.Tactic.IntervalCases
import Mathlib.Algebra.Order.BigOperators.Group.List

/-!
# Strict parsing and canonical bytes

The parse boundary of federation envelopes: `parseStrict` turns untrusted bytes into a tree of
objects and strings, `canonicalBytes` prints one. Between them stand the depth scan of the text,
the hooks of the decoder, the second depth check on the parsed tree and the domain walk, the
last two on explicit stacks.

* `parseStrict_canonicalBytes` : parsing inverts printing, up to the order of keys, on the
  protocol domain (`Domain`, at most `nestingDepthLimit` containers deep);
* `canonicalBytes_injective` : one byte string, one object up to the order of keys;
* `decodeStrict_encode` : strict base64url reads back what `encode` wrote.
-/

namespace ATalk
namespace Federation

open Text Json

/-- A rejection with a stable layer and category. -/
structure FederationError where
  layer : String
  category : String
  detail : Str := []
deriving DecidableEq, Repr

/-! ## The depth scan of the text -/

def nestingDepthLimit : ℕ := 64

def tooDeep (layer : String) (depth : ℤ) : FederationError :=
  ⟨layer, "nesting_too_deep", lit s!"depth {depth} > {nestingDepthLimit}"⟩

/-- The loop variables of `_depth_prescan`. -/
structure Prescan where
  depth : ℤ
  inString : Bool
  escaped : Bool
deriving DecidableEq, Repr

def prescanStep (layer : String) (s : Prescan) (c : CodePoint) : Except FederationError Prescan :=
  if s.inString then
    if s.escaped then .ok { s with escaped := false }
    else if c = ofChar '\\' then .ok { s with escaped := true }
    else if c = ofChar '"' then .ok { s with inString := false }
    else .ok s
  else if c = ofChar '"' then .ok { s with inString := true }
  else if c = ofChar '{' ∨ c = ofChar '[' then
    if s.depth + 1 > nestingDepthLimit then .error (tooDeep layer (s.depth + 1))
    else .ok { s with depth := s.depth + 1 }
  else if c = ofChar '}' ∨ c = ofChar ']' then .ok { s with depth := s.depth - 1 }
  else .ok s

def prescanFrom (layer : String) : Prescan → Str → Except FederationError Unit
  | _, [] => .ok ()
  | s, c :: t =>
    match prescanStep layer s c with
    | .error e => .error e
    | .ok s' => prescanFrom layer s' t

def depthPrescan (text : Str) (layer : String) : Except FederationError Unit :=
  prescanFrom layer ⟨0, false, false⟩ text

/-! ## The hooks of the decoder -/

/-- What `json.loads` can raise here: its own error, or what a hook raised. -/
inductive ParseError where
  | decode
  | federation (e : FederationError)
deriving DecidableEq, Repr

/-- The first key that occurs among those before it. -/
def firstDupe : List Str → List (Str × Json) → Option Str
  | _, [] => none
  | seen, (k, _) :: ms => if k ∈ seen then some k else firstDupe (k :: seen) ms

def noDupes (pairs : List (Str × Json)) : Except ParseError Json :=
  match firstDupe [] pairs with
  | some k => .error (.federation ⟨"parse", "duplicate_key", k⟩)
  | none => .ok (.obj pairs)

def rejectNumber (token : Str) : Except ParseError Json :=
  .error (.federation ⟨"parse/schema", "value_domain",
    lit s!"number ({token.length} chars, starts '" ++ token.take 32 ++ lit "')"⟩)

def rejectConstant (name : Str) : Except ParseError Json :=
  .error (.federation ⟨"parse/schema", "value_domain", lit "number (" ++ name ++ lit ")"⟩)

def hooks : Hooks ParseError where
  decodeError := .decode
  objectPairs := noDupes
  parseNumber := rejectNumber
  parseConstant := rejectConstant

/-! ## The depth check of the parsed tree -/

/-- The values inside a container. -/
def children : Json → Option (List Json)
  | .arr xs => some xs
  | .obj ms => some (ms.map Prod.snd)
  | _ => none

theorem sizeList_eq_sum (xs : List Json) : sizeList xs = (xs.map fun x => 1 + size x).sum := by
  induction xs with
  | nil => rfl
  | cons x xs ih => simp [sizeList, ih]

theorem sizeMembers_eq_sum (ms : List (Str × Json)) :
    sizeMembers ms = (ms.map fun m => 1 + size m.2).sum := by
  induction ms with
  | nil => rfl
  | cons m ms ih => obtain ⟨k, x⟩ := m; simp [sizeMembers, ih]

theorem sum_size_children_lt {j : Json} {xs : List Json} (h : children j = some xs) :
    (xs.map fun x => size x).sum < size j := by
  have hle : ∀ ys : List Json,
      (ys.map fun y => size y).sum ≤ (ys.map fun y => 1 + size y).sum := fun ys =>
    List.sum_le_sum fun y _ => Nat.le_add_left _ _
  cases j <;> simp only [children, Option.some.injEq, reduceCtorEq] at h
  · subst h
    have := hle (by assumption)
    rw [size, sizeList_eq_sum]
    omega
  · next ms =>
    subst h
    have := hle (ms.map Prod.snd)
    rw [size, sizeMembers_eq_sum]
    simp only [List.map_map, Function.comp_def] at this ⊢
    omega

/-- `_post_load_depth_check`; the head of the list is the top of the stack. -/
def postLoadDepthCheck (layer : String) : List (Json × ℕ) → Except FederationError Unit
  | [] => .ok ()
  | (node, depth) :: stack =>
    match _h : children node with
    | none => postLoadDepthCheck layer stack
    | some xs =>
      if depth > nestingDepthLimit then .error (tooDeep layer depth)
      else postLoadDepthCheck layer ((xs.map (·, depth + 1)).reverse ++ stack)
termination_by stack => (stack.map fun p => size p.1).sum
decreasing_by
  · have := size_pos node
    simp only [List.map_cons, List.sum_cons]
    omega
  · have := sum_size_children_lt _h
    simp only [List.map_append, List.map_reverse, List.map_map, Function.comp_def,
      List.sum_append, List.sum_reverse, List.map_cons, List.sum_cons]
    omega

def parseJsonText (text : Str) (layer : String) : Except ParseError Json :=
  match depthPrescan text layer with
  | .error e => .error (.federation e)
  | .ok () =>
    match loads hooks text with
    | .error e => .error e
    | .ok tree =>
      match postLoadDepthCheck layer [(tree, 1)] with
      | .error e => .error (.federation e)
      | .ok () => .ok tree

/-! ## The domain walk -/

/-- `[a-z_]+` -/
def keyRe (k : Str) : Bool :=
  k ≠ [] && k.all fun c => (0x61 ≤ c.val && c.val ≤ 0x7A) || c.val = 0x5F

/-- A stack entry of `_check_domain`. -/
inductive DomainItem where
  | key (k : Str) (path : Str)
  | value (j : Json) (path : Str)

def DomainItem.size : DomainItem → ℕ
  | .key _ _ => 1
  | .value j _ => j.size

/-- What an object puts on the stack, in the order it is visited. -/
def pendingItems (path : Str) (ms : List (Str × Json)) : List DomainItem :=
  ms.flatMap fun (k, v) => [.key k path, .value v (path ++ k ++ lit ".")]

theorem sum_size_pendingItems (path : Str) (ms : List (Str × Json)) :
    ((pendingItems path ms).map DomainItem.size).sum = sizeMembers ms := by
  induction ms with
  | nil => rfl
  | cons m ms ih =>
    obtain ⟨k, x⟩ := m
    rw [pendingItems, List.flatMap_cons, List.map_append, List.sum_append, ← pendingItems, ih]
    simp [DomainItem.size, sizeMembers]

/-- The verdict on one entry, and what it puts on the stack. -/
def checkItem : DomainItem → Except FederationError (List DomainItem)
  | .key k path =>
    if keyRe k then .ok [] else .error ⟨"parse/schema", "value_domain", path ++ k ++ lit " (key charset)"⟩
  | .value (.str s) path =>
    if Clean s then .ok [] else .error ⟨"parse", "invalid_unicode", path⟩
  | .value (.obj ms) path => .ok (pendingItems path ms)
  | .value _ path =>
    .error ⟨"parse/schema", "value_domain", if path = [] then lit "root" else path⟩

theorem sum_size_checkItem {item : DomainItem} {pending : List DomainItem}
    (h : checkItem item = .ok pending) : (pending.map DomainItem.size).sum < item.size := by
  rcases item with ⟨k, path⟩ | ⟨j, path⟩
  · simp only [checkItem] at h
    split_ifs at h with hk
    simp only [Except.ok.injEq] at h
    simp [← h, DomainItem.size]
  · cases j <;> simp only [checkItem, reduceCtorEq] at h
    · split_ifs at h with hs
      simp only [Except.ok.injEq] at h
      simp [← h, DomainItem.size, size]
    · simp only [Except.ok.injEq] at h
      rw [← h, sum_size_pendingItems, DomainItem.size, size]
      omega

/-- `_check_domain`; the head of the list is the top of the stack. -/
def checkDomain : List DomainItem → Except FederationError Unit
  | [] => .ok ()
  | item :: stack =>
    match _h : checkItem item with
    | .error e => .error e
    | .ok pending => checkDomain (pending ++ stack)
termination_by stack => (stack.map DomainItem.size).sum
decreasing_by
  have := sum_size_checkItem _h
  simp only [List.map_append, List.sum_append, List.map_cons, List.sum_cons]
  omega

/-- Untrusted bytes to an object of the protocol domain. -/
def parseStrict (raw : Bytes) : Except FederationError (List (Str × Json)) :=
  match decode raw with
  | none => .error ⟨"parse", "invalid_utf8", []⟩
  | some text =>
    match parseJsonText text "parse" with
    | .error .decode => .error ⟨"parse", "invalid_json", []⟩
    | .error (.federation e) => .error e
    | .ok (.obj ms) =>
      match checkDomain [.value (.obj ms) []] with
      | .error e => .error e
      | .ok () => .ok ms
    | .ok _ => .error ⟨"parse/schema", "value_domain", lit "root must be an object"⟩

/-- The JCS bytes of an object; `none` is `UnicodeEncodeError`. -/
def canonicalBytes (obj : List (Str × Json)) : Option Bytes := encode (dumps (.obj obj))

/-! ## What the two depth checks let through -/

theorem hexDigit_plain : ∀ n < 16, hexDigit n ≠ ofChar '\\' ∧ hexDigit n ≠ ofChar '"' := by decide

@[simp] theorem prescanFrom_cons (layer : String) (s : Prescan) (c : CodePoint) (t : Str) :
    prescanFrom layer s (c :: t) =
      match prescanStep layer s c with
      | .error e => .error e
      | .ok s' => prescanFrom layer s' t := rfl

/-- An escaped character leaves the scan inside the string. -/
theorem prescan_escape (layer : String) (d : ℤ) (c : CodePoint) (t : Str) :
    prescanFrom layer ⟨d, true, false⟩ (escape c ++ t) = prescanFrom layer ⟨d, true, false⟩ t := by
  have hstep : ∀ e : CodePoint, ∀ t : Str,
      prescanFrom layer ⟨d, true, false⟩ (ofChar '\\' :: e :: t) =
        prescanFrom layer ⟨d, true, false⟩ t := fun e t => by
    simp [prescanStep]
  have hplain : ∀ e : CodePoint, e ≠ ofChar '\\' → e ≠ ofChar '"' → ∀ t : Str,
      prescanFrom layer ⟨d, true, false⟩ (e :: t) = prescanFrom layer ⟨d, true, false⟩ t :=
    fun e h1 h2 t => by simp [prescanStep, h1, h2]
  unfold escape
  split_ifs with h1 h2 h3 h4 h5 h6 h7 h8
  all_goals try exact hstep _ _
  · have hd := hexDigit_plain (c.val / 16) (by omega)
    have hm := hexDigit_plain (c.val % 16) (by omega)
    simp only [List.cons_append, List.nil_append]
    rw [hstep, hplain _ (by decide) (by decide), hplain _ (by decide) (by decide),
      hplain _ hd.1 hd.2, hplain _ hm.1 hm.2]
  · exact hplain c h2 h1 t

theorem prescan_dumpString (layer : String) (d : ℤ) (s t : Str) :
    prescanFrom layer ⟨d, false, false⟩ (dumpString s ++ t) =
      prescanFrom layer ⟨d, false, false⟩ t := by
  have hbody : ∀ s : Str, prescanFrom layer ⟨d, true, false⟩ (s.flatMap escape ++ ofChar '"' :: t)
      = prescanFrom layer ⟨d, false, false⟩ t := by
    intro s
    induction s with
    | nil => simp [prescanStep, show ofChar '"' ≠ ofChar '\\' by decide]
    | cons c s ih => rw [List.flatMap_cons, List.append_assoc, prescan_escape, ih]
  rw [dumpString, List.cons_append, List.append_assoc, prescanFrom_cons]
  simpa [prescanStep] using hbody s

/-- A character outside a string that is no quote and no bracket. -/
theorem prescan_plain (layer : String) (d : ℤ) {c : CodePoint}
    (hc : c ∉ [ofChar '"', ofChar '{', ofChar '[', ofChar '}', ofChar ']']) (t : Str) :
    prescanFrom layer ⟨d, false, false⟩ (c :: t) = prescanFrom layer ⟨d, false, false⟩ t := by
  simp only [List.mem_cons, List.not_mem_nil, or_false, not_or] at hc
  simp [prescanStep, hc]

theorem prescan_word (layer : String) (d : ℤ) {w : Str}
    (hw : w.all (fun c => c ∉ [ofChar '"', ofChar '{', ofChar '[', ofChar '}', ofChar ']']) = true)
    (t : Str) :
    prescanFrom layer ⟨d, false, false⟩ (w ++ t) = prescanFrom layer ⟨d, false, false⟩ t := by
  induction w with
  | nil => rfl
  | cons c w ih =>
    rw [List.all_cons, Bool.and_eq_true, decide_eq_true_eq] at hw
    rw [List.cons_append, prescan_plain layer d hw.1, ih hw.2]

theorem prescan_open (layer : String) {d : ℤ} (hd : d + 1 ≤ nestingDepthLimit) {c : CodePoint}
    (hc : c = ofChar '{' ∨ c = ofChar '[') (t : Str) :
    prescanFrom layer ⟨d, false, false⟩ (c :: t) = prescanFrom layer ⟨d + 1, false, false⟩ t := by
  have hq : c ≠ ofChar '"' := by rintro rfl; revert hc; decide
  simp [prescanStep, hq, hc, not_lt.mpr hd]

theorem prescan_close (layer : String) (d : ℤ) {c : CodePoint}
    (hc : c = ofChar '}' ∨ c = ofChar ']') (t : Str) :
    prescanFrom layer ⟨d + 1, false, false⟩ (c :: t) = prescanFrom layer ⟨d, false, false⟩ t := by
  have hq : c ≠ ofChar '"' := by rintro rfl; revert hc; decide
  have ho : ¬ (c = ofChar '{' ∨ c = ofChar '[') := by rcases hc with rfl | rfl <;> decide
  simp [prescanStep, hq, ho, hc]

mutual

/-- The scan passes over a printed tree that fits under the limit. -/
theorem prescan_dump (layer : String) : ∀ (j : Json) (d : ℤ) (t : Str), Tidy j →
    d + depth j ≤ nestingDepthLimit →
    prescanFrom layer ⟨d, false, false⟩ (dump j ++ t) = prescanFrom layer ⟨d, false, false⟩ t
  | .null, d, t, _, _ => prescan_word layer d (w := lit "null") (by decide) t
  | .bool true, d, t, _, _ => prescan_word layer d (w := lit "true") (by decide) t
  | .bool false, d, t, _, _ => prescan_word layer d (w := lit "false") (by decide) t
  | .num _, _, _, h, _ => absurd h (by simp [Tidy])
  | .str s, d, t, _, _ => by rw [dump, prescan_dumpString]
  | .arr [], d, t, _, hd => by
    have hd' : d + 1 ≤ nestingDepthLimit := by simpa [depth, depthList] using hd
    exact (prescan_open layer hd' (.inr rfl) _).trans (prescan_close layer d (.inr rfl) t)
  | .arr (x :: xs), d, t, h, hd => by
    rw [Tidy, TidyList] at h
    rw [depth, depthList] at hd
    rw [dump, List.cons_append, List.append_assoc, prescan_open layer (by omega) (.inr rfl),
      prescan_dump layer x (d + 1) _ h.1 (by omega),
      prescan_dumpElements layer xs d t h.2 (by omega)]
  | .obj [], d, t, _, hd => by
    have hd' : d + 1 ≤ nestingDepthLimit := by simpa [depth, depthMembers] using hd
    exact (prescan_open layer hd' (.inl rfl) _).trans (prescan_close layer d (.inl rfl) t)
  | .obj ((k, v) :: ms), d, t, h, hd => by
    rw [Tidy, TidyMembers] at h
    rw [depth, depthMembers] at hd
    rw [dump, List.cons_append, List.append_assoc, prescan_open layer (by omega) (.inl rfl),
      prescan_dumpString, List.cons_append, prescan_plain layer _ (by decide),
      List.append_assoc, prescan_dump layer v (d + 1) _ h.2.1 (by omega),
      prescan_dumpMembers layer ms d t h.2.2 (by omega)]

theorem prescan_dumpElements (layer : String) : ∀ (xs : List Json) (d : ℤ) (t : Str),
    TidyList xs → d + 1 + depthList xs ≤ nestingDepthLimit →
    prescanFrom layer ⟨d + 1, false, false⟩ (dumpElements xs ++ t) =
      prescanFrom layer ⟨d, false, false⟩ t
  | [], d, t, _, _ => prescan_close layer d (.inr rfl) t
  | x :: xs, d, t, h, hd => by
    rw [TidyList] at h
    rw [depthList] at hd
    rw [dumpElements, List.cons_append, prescan_plain layer _ (by decide), List.append_assoc,
      prescan_dump layer x (d + 1) _ h.1 (by omega),
      prescan_dumpElements layer xs d t h.2 (by omega)]

theorem prescan_dumpMembers (layer : String) : ∀ (ms : List (Str × Json)) (d : ℤ) (t : Str),
    TidyMembers ms → d + 1 + depthMembers ms ≤ nestingDepthLimit →
    prescanFrom layer ⟨d + 1, false, false⟩ (dumpMembers ms ++ t) =
      prescanFrom layer ⟨d, false, false⟩ t
  | [], d, t, _, _ => prescan_close layer d (.inl rfl) t
  | (k, v) :: ms, d, t, h, hd => by
    rw [TidyMembers] at h
    rw [depthMembers] at hd
    rw [dumpMembers, List.cons_append, prescan_plain layer _ (by decide), List.append_assoc,
      prescan_dumpString, List.cons_append, prescan_plain layer _ (by decide), List.append_assoc,
      prescan_dump layer v (d + 1) _ h.1 (by omega),
      prescan_dumpMembers layer ms d t h.2 (by omega)]

end

theorem depthPrescan_dump {layer : String} {j : Json} (hj : Tidy j)
    (hd : depth j ≤ nestingDepthLimit) : depthPrescan (dump j) layer = .ok () := by
  have h := prescan_dump layer j 0 [] hj (by omega)
  rwa [List.append_nil] at h

theorem depth_le_depthList {x : Json} {xs : List Json} (h : x ∈ xs) : depth x ≤ depthList xs := by
  induction xs with
  | nil => cases h
  | cons y ys ih =>
    rw [depthList]
    rcases List.mem_cons.mp h with rfl | h
    · omega
    · have := ih h
      omega

theorem depth_le_depthMembers {m : Str × Json} {ms : List (Str × Json)} (h : m ∈ ms) :
    depth m.2 ≤ depthMembers ms := by
  induction ms with
  | nil => cases h
  | cons y ys ih =>
    obtain ⟨k, v⟩ := y
    rw [depthMembers]
    rcases List.mem_cons.mp h with rfl | h
    · exact le_max_left ..
    · have := ih h
      omega

/-- A container is one deeper than what it holds. -/
theorem depth_children {j : Json} {xs : List Json} (h : children j = some xs) {x : Json}
    (hx : x ∈ xs) : depth x + 1 ≤ depth j := by
  cases j <;> simp only [children, Option.some.injEq, reduceCtorEq] at h
  · subst h
    have := depth_le_depthList hx
    rw [depth]
    omega
  · subst h
    obtain ⟨m, hm, rfl⟩ := List.mem_map.mp hx
    have := depth_le_depthMembers hm
    rw [depth]
    omega

/-- The walk lets a stack pass whose entries all fit under the limit. -/
theorem postLoadDepthCheck_ok (layer : String) (stack : List (Json × ℕ))
    (h : ∀ p ∈ stack, p.2 + depth p.1 ≤ nestingDepthLimit + 1) :
    postLoadDepthCheck layer stack = .ok () := by
  fun_induction postLoadDepthCheck layer stack with
  | case1 => rfl
  | case2 node d stack hc ih => exact ih fun p hp => h p (List.mem_cons_of_mem _ hp)
  | case3 node d stack xs hc hd =>
    have hle : d + depth node ≤ nestingDepthLimit + 1 := h (node, d) (List.mem_cons_self ..)
    have hpos : 0 < depth node := by
      cases node <;> simp only [children, reduceCtorEq] at hc <;> simp only [depth] <;> omega
    omega
  | case4 node d stack xs hc hd ih =>
    apply ih
    intro p hp
    rcases List.mem_append.mp hp with hp | hp
    · obtain ⟨x, hx, rfl⟩ := List.mem_map.mp (List.mem_reverse.mp hp)
      have := depth_children hc hx
      have := h (node, d) (List.mem_cons_self ..)
      simp only at this ⊢
      omega
    · exact h p (List.mem_cons_of_mem _ hp)

/-! ## The protocol domain -/

mutual

/-- Objects and strings; keys of `[a-z_]+`, none twice; no surrogate in a string. -/
def Domain : Json → Prop
  | .str s => Clean s
  | .obj ms => (keys ms).Nodup ∧ DomainMembers ms
  | _ => False
termination_by structural j => j

def DomainMembers : List (Str × Json) → Prop
  | [] => True
  | (k, x) :: ms => keyRe k = true ∧ Domain x ∧ DomainMembers ms
termination_by structural ms => ms

end

theorem domainMembers_iff {ms : List (Str × Json)} :
    DomainMembers ms ↔ ∀ m ∈ ms, keyRe m.1 = true ∧ Domain m.2 := by
  induction ms with
  | nil => simp [DomainMembers]
  | cons m ms ih => obtain ⟨k, x⟩ := m; simp [DomainMembers, ih, and_assoc]

mutual

theorem tidy_of_domain : ∀ j : Json, Domain j → Tidy j
  | .null, h | .bool _, h | .num _, h | .arr _, h => by simp [Domain] at h
  | .str _, _ => by simp [Tidy]
  | .obj ms, h => by
    rw [Domain] at h
    rw [Tidy]
    exact ⟨h.1, tidyMembers_of_domain ms h.2⟩

theorem tidyMembers_of_domain : ∀ ms : List (Str × Json), DomainMembers ms → TidyMembers ms
  | [], _ => by simp [TidyMembers]
  | (_, x) :: ms, h => by
    rw [DomainMembers] at h
    rw [TidyMembers]
    exact ⟨tidy_of_domain x h.2.1, tidyMembers_of_domain ms h.2.2⟩

end

mutual

theorem domain_sortKeys : ∀ j : Json, Domain j → Domain (sortKeys j)
  | .null, h | .bool _, h | .num _, h | .arr _, h => by simp [Domain] at h
  | .str _, h => by simpa [sortKeys] using h
  | .obj ms, h => by
    rw [Domain] at h
    rw [sortKeys, Domain]
    have hp := List.perm_insertionSort keyLe (sortKeysMembers ms)
    refine ⟨(keys_insertionSort_perm _).nodup_iff.mpr ?_, domainMembers_iff.mpr fun m hm => ?_⟩
    · rw [keys_sortKeysMembers]
      exact h.1
    · exact domainMembers_iff.mp (domainMembers_sortKeys ms h.2) m (hp.subset hm)

theorem domainMembers_sortKeys :
    ∀ ms : List (Str × Json), DomainMembers ms → DomainMembers (sortKeysMembers ms)
  | [], _ => by simp [sortKeysMembers, DomainMembers]
  | (_, x) :: ms, h => by
    rw [DomainMembers] at h
    rw [sortKeysMembers, DomainMembers]
    exact ⟨h.1, domain_sortKeys x h.2.1, domainMembers_sortKeys ms h.2.2⟩

end

theorem depthMembers_perm {ms ms' : List (Str × Json)} (h : ms.Perm ms') :
    depthMembers ms = depthMembers ms' := by
  induction h with
  | nil => rfl
  | cons m _ ih => rw [depthMembers, depthMembers, ih]
  | swap m m' ms => simp only [depthMembers]; omega
  | trans _ _ ih ih' => exact ih.trans ih'

mutual

theorem depth_sortKeys : ∀ j : Json, depth (sortKeys j) = depth j
  | .null | .bool _ | .num _ | .str _ => by simp [sortKeys, depth]
  | .arr xs => by rw [sortKeys, depth, depth, depthList_sortKeys xs]
  | .obj ms => by
    have hp := List.perm_insertionSort keyLe (sortKeysMembers ms)
    rw [sortKeys, depth, depth, depthMembers_perm hp, depthMembers_sortKeys ms]

theorem depthList_sortKeys : ∀ xs : List Json, depthList (sortKeysList xs) = depthList xs
  | [] => rfl
  | x :: xs => by rw [sortKeysList, depthList, depthList, depth_sortKeys x, depthList_sortKeys xs]

theorem depthMembers_sortKeys :
    ∀ ms : List (Str × Json), depthMembers (sortKeysMembers ms) = depthMembers ms
  | [] => rfl
  | (_, x) :: ms => by
    rw [sortKeysMembers, depthMembers, depthMembers, depth_sortKeys x, depthMembers_sortKeys ms]

end

/-- What an entry of the domain walk must satisfy to pass. -/
def DomainItem.Fine : DomainItem → Prop
  | .key k _ => keyRe k = true
  | .value j _ => Domain j

/-- The walk lets a stack pass whose entries are all in the domain. -/
theorem checkDomain_ok (stack : List DomainItem) (h : ∀ item ∈ stack, item.Fine) :
    checkDomain stack = .ok () := by
  fun_induction checkDomain stack with
  | case1 => rfl
  | case2 item stack e he =>
    have hf := h item (List.mem_cons_self ..)
    rcases item with ⟨k, path⟩ | ⟨j, path⟩
    · simp only [DomainItem.Fine] at hf
      simp [checkItem, hf] at he
    · simp only [DomainItem.Fine] at hf
      cases j <;> simp only [Domain] at hf <;> simp [checkItem, hf] at he
  | case3 item stack pending hc ih =>
    apply ih
    intro i hi
    rcases List.mem_append.mp hi with hi | hi
    · have hf := h item (List.mem_cons_self ..)
      rcases item with ⟨k, path⟩ | ⟨j, path⟩
      · simp only [DomainItem.Fine] at hf
        simp only [checkItem, hf, if_pos, Except.ok.injEq] at hc
        rw [← hc] at hi
        cases hi
      · simp only [DomainItem.Fine] at hf
        cases j <;> simp only [Domain] at hf
        · simp only [checkItem, hf, if_pos, Except.ok.injEq] at hc
          rw [← hc] at hi
          cases hi
        · next ms =>
          simp only [checkItem, Except.ok.injEq] at hc
          rw [← hc] at hi
          obtain ⟨m, hm, hi⟩ := List.mem_flatMap.mp hi
          have hd := domainMembers_iff.mp hf.2 m hm
          rcases List.mem_cons.mp hi with rfl | hi
          · exact hd.1
          · rcases List.mem_singleton.mp hi with rfl
            exact hd.2
    · exact h i (List.mem_cons_of_mem _ hi)

/-! ## Parsing inverts printing -/

theorem firstDupe_eq_none_iff {seen : List Str} {ms : List (Str × Json)} :
    firstDupe seen ms = none ↔ (keys ms).Nodup ∧ ∀ k ∈ keys ms, k ∉ seen := by
  induction ms generalizing seen with
  | nil => simp [firstDupe, keys]
  | cons m ms ih =>
    obtain ⟨k, x⟩ := m
    rw [firstDupe]
    split_ifs with h
    · simp [keys, h]
    · rw [ih]
      simp only [keys, List.map_cons, List.nodup_cons, List.mem_cons, not_or, forall_eq_or_imp]
      constructor
      · rintro ⟨hn, hs⟩
        exact ⟨⟨fun hk => (hs k hk).1 rfl, hn⟩, h, fun k' hk' => (hs k' hk').2⟩
      · rintro ⟨⟨hk, hn⟩, -, hs⟩
        exact ⟨hn, fun k' hk' => ⟨fun e => hk (e ▸ hk'), hs k' hk'⟩⟩

theorem noDupes_ok_iff {ms : List (Str × Json)} {j : Json} :
    noDupes ms = .ok j ↔ (keys ms).Nodup ∧ j = .obj ms := by
  unfold noDupes
  cases h : firstDupe [] ms with
  | none =>
    have hn := firstDupe_eq_none_iff.mp h
    simp only [Except.ok.injEq]
    exact ⟨fun e => ⟨hn.1, e.symm⟩, fun e => e.2.symm⟩
  | some k =>
    simp only [reduceCtorEq, false_iff, not_and]
    intro hn
    have : firstDupe [] ms = none := firstDupe_eq_none_iff.mpr ⟨hn, fun _ _ => List.not_mem_nil⟩
    rw [h] at this
    cases this

theorem hooks_faithful : hooks.Faithful := fun _ h => noDupes_ok_iff.mpr ⟨h, rfl⟩

theorem hooks_strict : hooks.Strict where
  objectPairs h := (noDupes_ok_iff.mp h).symm
  parseNumber _ _ := nofun
  parseConstant _ _ := nofun

theorem parseJsonText_dumps {layer : String} {j : Json} (hj : Tidy j)
    (hd : depth j ≤ nestingDepthLimit) : parseJsonText (dumps j) layer = .ok (sortKeys j) := by
  have hp : depthPrescan (dumps j) layer = .ok () :=
    depthPrescan_dump (tidy_sortKeys j hj) (by rwa [depth_sortKeys])
  have hw : postLoadDepthCheck layer [(sortKeys j, 1)] = .ok () := by
    apply postLoadDepthCheck_ok
    intro p hp
    rw [List.mem_singleton.mp hp, depth_sortKeys]
    omega
  rw [parseJsonText, hp]
  simp only [loads_dumps hooks_faithful hj, hw]

/-- The members of an object in canonical order. -/
def sorted (ms : List (Str × Json)) : List (Str × Json) :=
  (sortKeysMembers ms).insertionSort keyLe

theorem sortKeys_obj (ms : List (Str × Json)) : sortKeys (.obj ms) = .obj (sorted ms) := by
  rw [sortKeys, sorted]

/-- Strict parsing reads canonical bytes back, the keys in order. -/
theorem parseStrict_canonicalBytes {ms : List (Str × Json)} {raw : Bytes}
    (hdom : Domain (.obj ms)) (hd : depth (.obj ms) ≤ nestingDepthLimit)
    (hraw : canonicalBytes ms = some raw) : parseStrict raw = .ok (sorted ms) := by
  have htext := decode_encode hraw
  have hwalk : checkDomain [.value (.obj (sorted ms)) []] = .ok () := by
    apply checkDomain_ok
    intro item hi
    rw [List.mem_singleton.mp hi, DomainItem.Fine, ← sortKeys_obj]
    exact domain_sortKeys _ hdom
  rw [parseStrict, htext]
  simp only [parseJsonText_dumps (tidy_of_domain _ hdom) hd, sortKeys_obj, hwalk]

theorem parseJsonText_tidy {layer : String} {text : Str} {j : Json}
    (h : parseJsonText text layer = .ok j) : Tidy j := by
  unfold parseJsonText at h
  split at h
  · cases h
  split at h
  · cases h
  next tree hl =>
    split at h
    · cases h
    · cases h
      exact loads_tidy hooks_strict hl

/-- What strict parsing lets through names no key twice. -/
theorem parseStrict_tidy {raw : Bytes} {ms : List (Str × Json)} (h : parseStrict raw = .ok ms) :
    Tidy (.obj ms) := by
  unfold parseStrict at h
  split at h
  · cases h
  split at h
  · cases h
  · cases h
  · next hp =>
    split at h
    · cases h
    · cases h
      exact parseJsonText_tidy hp
  · cases h

/-- One byte string, one object up to the order of its keys. -/
theorem canonicalBytes_injective {a b : List (Str × Json)} {raw : Bytes} (ha : Tidy (.obj a))
    (hb : Tidy (.obj b)) (hra : canonicalBytes a = some raw) (hrb : canonicalBytes b = some raw) :
    sorted a = sorted b := by
  have h := dumps_injective ha hb (encode_injective hra hrb)
  rwa [sortKeys_obj, sortKeys_obj, Json.obj.injEq] at h

theorem get_of_sorted_eq {a b : List (Str × Json)} (ha : (keys a).Nodup) (hb : (keys b).Nodup)
    (h : sorted a = sorted b) (k : Str) : (get k a).map sortKeys = (get k b).map sortKeys := by
  rw [← get_sorted ha, ← get_sorted hb]
  exact congrArg (get k) h

/-! ## The domain can be printed -/

theorem clean_escape {c : CodePoint} (hc : isSurrogate c = false) : Clean (escape c) := by
  have hhex : ∀ n < 16, isSurrogate (hexDigit n) = false := by decide
  unfold escape
  split_ifs with h1 h2 h3 h4 h5 h6 h7 h8
  all_goals simp only [clean_cons, clean_nil, and_true]
  all_goals try decide
  · exact ⟨by decide, by decide, by decide, by decide, hhex _ (by omega), hhex _ (by omega)⟩
  · exact hc

theorem clean_dumpString {s : Str} (hs : Clean s) : Clean (dumpString s) := by
  have hflat : Clean (s.flatMap escape) := by
    intro c hc
    obtain ⟨d, hd, hcd⟩ := List.mem_flatMap.mp hc
    exact clean_escape (hs d hd) c hcd
  exact clean_cons.mpr ⟨by decide, clean_append.mpr ⟨hflat, clean_cons.mpr ⟨by decide, clean_nil⟩⟩⟩

theorem clean_of_keyRe {k : Str} (hk : keyRe k = true) : Clean k := by
  apply clean_of_ascii
  intro c hc
  simp only [keyRe, Bool.and_eq_true, List.all_eq_true, Bool.or_eq_true, decide_eq_true_eq] at hk
  have := hk.2 c hc
  omega

mutual

theorem clean_dump : ∀ j : Json, Domain j → Clean (dump j)
  | .null, h | .bool _, h | .num _, h | .arr _, h => by simp [Domain] at h
  | .str s, h => by
    rw [Domain] at h
    rw [dump]
    exact clean_dumpString h
  | .obj [], _ => by decide
  | .obj ((k, v) :: ms), h => by
    rw [Domain, DomainMembers] at h
    rw [dump]
    exact clean_cons.mpr ⟨by decide, clean_append.mpr ⟨clean_dumpString (clean_of_keyRe h.2.1),
      clean_cons.mpr ⟨by decide, clean_append.mpr ⟨clean_dump v h.2.2.1,
        clean_dumpMembers ms h.2.2.2⟩⟩⟩⟩

theorem clean_dumpMembers : ∀ ms : List (Str × Json), DomainMembers ms → Clean (dumpMembers ms)
  | [], _ => by decide
  | (k, v) :: ms, h => by
    rw [DomainMembers] at h
    rw [dumpMembers]
    exact clean_cons.mpr ⟨by decide, clean_append.mpr ⟨clean_dumpString (clean_of_keyRe h.1),
      clean_cons.mpr ⟨by decide, clean_append.mpr ⟨clean_dump v h.2.1,
        clean_dumpMembers ms h.2.2⟩⟩⟩⟩

end

/-- An object of the domain has canonical bytes, as many as its text takes. -/
theorem canonicalBytes_of_domain {ms : List (Str × Json)} (h : Domain (.obj ms)) :
    ∃ raw, canonicalBytes ms = some raw ∧ raw.length = byteSize (dump (.obj (sorted ms))) := by
  have hc : Clean (dumps (.obj ms)) := clean_dump _ (domain_sortKeys _ h)
  refine ⟨_, encode_eq_some hc, ?_⟩
  rw [length_flatMap_encodeChar, dumps, sortKeys_obj]

/-! ## Strict base64url -/

def b64urlTable : Str := lit "ABCDEFGHIJKLMNOPQRSTUVWXYZabcdefghijklmnopqrstuvwxyz0123456789-_"

def b64url (n : ℕ) : CodePoint := b64urlTable.getD n 0

/-- `_B64_VAL` -/
def b64Val (c : CodePoint) : ℕ := b64urlTable.idxOf c

/-- `[A-Za-z0-9_-]+` -/
def b64Re (text : Str) : Bool := text ≠ [] && text.all fun c => b64Val c < 64

/-- Unpadded base64url, three bytes at a time. -/
def encodeB64 : Bytes → Str
  | a :: b :: c :: t =>
    b64url (a.val / 4) :: b64url (a.val % 4 * 16 + b.val / 16) ::
      b64url (b.val % 16 * 4 + c.val / 64) :: b64url (c.val % 64) :: encodeB64 t
  | [a, b] => [b64url (a.val / 4), b64url (a.val % 4 * 16 + b.val / 16), b64url (b.val % 16 * 4)]
  | [a] => [b64url (a.val / 4), b64url (a.val % 4 * 16)]
  | [] => []

/-- The loop variables of `decode_strict`. -/
structure Bits where
  acc : ℕ
  nbits : ℕ
  out : Bytes
deriving DecidableEq, Repr

def Bits.push (s : Bits) (ch : CodePoint) : Bits :=
  let acc := s.acc * 64 + b64Val ch
  let nbits := s.nbits + 6
  if 8 ≤ nbits then ⟨acc, nbits - 8, s.out ++ [byte (acc / 2 ^ (nbits - 8))]⟩
  else ⟨acc, nbits, s.out⟩

def decodeStrict (text : Str) (length : ℕ) (lengthCategory layer : String) :
    Except FederationError Bytes :=
  let bad : FederationError := ⟨layer, "non_canonical_base64url", []⟩
  if b64Re text = false then .error bad
  else if text.length % 4 = 1 then .error bad
  else
    let s := text.foldl Bits.push ⟨0, 0, []⟩
    if s.nbits ≠ 0 ∧ s.acc % 2 ^ s.nbits ≠ 0 then .error bad
    else if s.out.length ≠ length then .error ⟨layer, lengthCategory, []⟩
    else .ok s.out

theorem b64Val_b64url : ∀ n < 64, b64Val (b64url n) = n := by decide

theorem byte_val (b : Byte) : byte b.val = b := Fin.ofNat_val_eq_self b

theorem push_short (acc : ℕ) (out : Bytes) {n : ℕ} (hn : n < 64) :
    Bits.push ⟨acc, 0, out⟩ (b64url n) = ⟨acc * 64 + n, 6, out⟩ := by
  rw [Bits.push, b64Val_b64url n hn]
  rfl

theorem push_long (acc nbits : ℕ) (out : Bytes) {n : ℕ} (hn : n < 64) :
    Bits.push ⟨acc, nbits + 2, out⟩ (b64url n) =
      ⟨acc * 64 + n, nbits, out ++ [byte ((acc * 64 + n) / 2 ^ nbits)]⟩ := by
  rw [Bits.push, b64Val_b64url n hn]
  simp only [if_pos (show 8 ≤ nbits + 2 + 6 by omega), show nbits + 2 + 6 - 8 = nbits by omega]

theorem byte_eq {n : ℕ} {b : Byte} (h : n % 256 = b.val) : byte n = b := by
  apply Fin.ext
  rw [← h]
  rfl

/-- The loop reads the bytes back; what is left of the accumulator below `nbits` is zero. -/
theorem foldl_push_encodeB64 (bs out : Bytes) (acc : ℕ) :
    ∃ acc' nbits', (encodeB64 bs).foldl Bits.push ⟨acc, 0, out⟩ = ⟨acc', nbits', out ++ bs⟩ ∧
      acc' % 2 ^ nbits' = 0 := by
  induction bs using encodeB64.induct generalizing out acc with
  | case1 a b c t ih =>
    have ha := a.isLt
    have hb := b.isLt
    have hc := c.isLt
    simp only [encodeB64, List.foldl_cons]
    rw [push_short _ _ (by omega), push_long _ 4 _ (by omega), push_long _ 2 _ (by omega),
      push_long _ 0 _ (by omega)]
    simp only [Nat.reducePow, Nat.div_one]
    rw [byte_eq (b := a) (by omega), byte_eq (b := b) (by omega), byte_eq (b := c) (by omega)]
    obtain ⟨acc', nbits', hf, hz⟩ := ih (out ++ [a] ++ [b] ++ [c]) _
    exact ⟨acc', nbits', by rw [hf]; simp, hz⟩
  | case2 a b =>
    have ha := a.isLt
    have hb := b.isLt
    simp only [encodeB64, List.foldl_cons, List.foldl_nil]
    rw [push_short _ _ (by omega), push_long _ 4 _ (by omega), push_long _ 2 _ (by omega)]
    simp only [Nat.reducePow]
    rw [byte_eq (b := a) (by omega), byte_eq (b := b) (by omega)]
    exact ⟨_, _, by rw [List.append_assoc]; rfl, by simp only [Nat.reducePow]; omega⟩
  | case3 a =>
    have ha := a.isLt
    simp only [encodeB64, List.foldl_cons, List.foldl_nil]
    rw [push_short _ _ (by omega), push_long _ 4 _ (by omega)]
    simp only [Nat.reducePow]
    rw [byte_eq (b := a) (by omega)]
    exact ⟨_, _, rfl, by simp only [Nat.reducePow]; omega⟩
  | case4 => exact ⟨acc, 0, by simp [encodeB64], Nat.mod_one _⟩

theorem b64Re_encodeB64 {bs : Bytes} (hb : bs ≠ []) : b64Re (encodeB64 bs) = true := by
  have hval : ∀ n < 64, b64Val (b64url n) < 64 := fun n hn => by rwa [b64Val_b64url n hn]
  have hall : ∀ bs : Bytes, ((encodeB64 bs).all fun c => b64Val c < 64) = true := by
    intro bs
    induction bs using encodeB64.induct with
    | case1 a b c t ih =>
      have ha := a.isLt
      have hb := b.isLt
      have hc := c.isLt
      simp only [encodeB64, List.all_cons, ih, Bool.and_true, Bool.and_eq_true, decide_eq_true_eq]
      exact ⟨hval _ (by omega), hval _ (by omega), hval _ (by omega), hval _ (by omega)⟩
    | case2 a b =>
      have ha := a.isLt
      have hb := b.isLt
      simp only [encodeB64, List.all_cons, List.all_nil, Bool.and_true, Bool.and_eq_true,
        decide_eq_true_eq]
      exact ⟨hval _ (by omega), hval _ (by omega), hval _ (by omega)⟩
    | case3 a =>
      have ha := a.isLt
      simp only [encodeB64, List.all_cons, List.all_nil, Bool.and_true, Bool.and_eq_true,
        decide_eq_true_eq]
      exact ⟨hval _ (by omega), hval _ (by omega)⟩
    | case4 => rfl
  have hne : encodeB64 bs ≠ [] := by
    match bs, hb with
    | [a], _ | [a, b], _ | a :: b :: c :: t, _ => simp [encodeB64]
  rw [b64Re, hall bs, Bool.and_true, decide_eq_true_eq]
  exact hne

theorem length_encodeB64_mod (bs : Bytes) : (encodeB64 bs).length % 4 ≠ 1 := by
  induction bs using encodeB64.induct with
  | case1 a b c t ih => simp only [encodeB64, List.length_cons]; omega
  | case2 a b => simp [encodeB64]
  | case3 a => simp [encodeB64]
  | case4 => simp [encodeB64]

/-- Strict decoding reads back what `encode` wrote. -/
theorem decodeStrict_encode {bs : Bytes} (hb : bs ≠ []) (lengthCategory layer : String) :
    decodeStrict (encodeB64 bs) bs.length lengthCategory layer = .ok bs := by
  obtain ⟨acc, nbits, hf, hz⟩ := foldl_push_encodeB64 bs [] 0
  rw [decodeStrict, if_neg (by simp [b64Re_encodeB64 hb]), if_neg (length_encodeB64_mod bs), hf]
  simp [hz]

end Federation
end ATalk
