import ATalk.Federation.Canonical
import ATalk.Lib.JsonHooks

/-!
# The two depth guards

One guard counts brackets in the text, the other walks the tree that was read from it. On a
well-formed text they agree, because the scan of the text follows the scanner of the decoder: it is
outside of a string where a value begins, and it is as deep as the containers that are open.

* `Follows` : what the scan does on a part of the text;
* `scanOnce_follows` : on what the decoder read as one value;
* `postLoadDepthCheck_ok_iff` : the walk of the tree;
* `depth_guards_agree` : both guards, and what the parser accepts.
-/

namespace ATalk
namespace Federation

open Text Json

/-- From one depth the scan goes on to another behind a part of the text, when what is nested in it
fits under the limit. It raises there when it does not fit. -/
def Follows (layer : String) (d d' : ℤ) (nested : ℕ) (s r : Str) : Prop :=
  (d + nested ≤ nestingDepthLimit →
      prescanFrom layer ⟨d, false, false⟩ s = prescanFrom layer ⟨d', false, false⟩ r) ∧
    (nestingDepthLimit < d + nested → ∃ e, prescanFrom layer ⟨d, false, false⟩ s = .error e)

variable {layer : String} {d d' d'' : ℤ} {k k' : ℕ} {s t r : Str}

/-- A part without brackets. -/
theorem Follows.flat (hd : d ≤ nestingDepthLimit)
    (h : prescanFrom layer ⟨d, false, false⟩ s = prescanFrom layer ⟨d, false, false⟩ r) :
    Follows layer d d 0 s r :=
  ⟨fun _ => h, fun hdeep => absurd hd (by omega)⟩

/-- Two parts, the first of which leaves the depth as it is. -/
theorem Follows.trans (h : Follows layer d d k s t) (h' : Follows layer d d' k' t r) :
    Follows layer d d' (max k k') s r := by
  refine ⟨fun hfits => ?_, fun hdeep => ?_⟩
  · rw [h.1 (by omega)]
    exact h'.1 (by omega)
  · by_cases hfirst : nestingDepthLimit < d + k
    · exact h.2 hfirst
    · rw [h.1 (by omega)]
      exact h'.2 (by omega)

/-- Text that the scan passes over comes first. -/
theorem Follows.after (h : prescanFrom layer ⟨d, false, false⟩ s =
    prescanFrom layer ⟨d, false, false⟩ t) (h' : Follows layer d d' k t r) :
    Follows layer d d' k s r := by
  unfold Follows
  rw [h]
  exact h'

/-- An opening bracket, and what it opens. -/
theorem Follows.opens {c : CodePoint} (hc : c = ofChar '{' ∨ c = ofChar '[')
    (h : d + 1 ≤ nestingDepthLimit → Follows layer (d + 1) d k t r) :
    Follows layer d d (1 + k) (c :: t) r := by
  refine ⟨fun hfits => ?_, fun hdeep => ?_⟩
  · rw [prescan_open layer (by omega) hc]
    exact (h (by omega)).1 (by push_cast at hfits; omega)
  · by_cases hopen : d + 1 ≤ nestingDepthLimit
    · rw [prescan_open layer hopen hc]
      exact (h hopen).2 (by push_cast at hdeep; omega)
    · have hquote : c ≠ ofChar '"' := by
        rintro rfl
        revert hc
        decide
      refine ⟨tooDeep layer (d + 1), ?_⟩
      simp only [prescanFrom_cons, prescanStep, Bool.false_eq_true, if_false, if_neg hquote,
        if_pos hc, gt_iff_lt, if_pos (not_le.mp hopen)]

/-- A closing bracket. -/
theorem Follows.closes {c : CodePoint} (hc : c = ofChar '}' ∨ c = ofChar ']')
    (hd : d + 1 ≤ nestingDepthLimit) : Follows layer (d + 1) d 0 (c :: t) t :=
  ⟨fun _ => prescan_close layer d hc t, fun hdeep => absurd hd (by omega)⟩

/-! ## Inside of strings -/

theorem hexVal_plain {c : CodePoint} {v : ℕ} (h : hexVal c = some v) :
    c ≠ ofChar '\\' ∧ c ≠ ofChar '"' := by
  constructor
  · rintro rfl
    rw [show hexVal (ofChar '\\') = none by decide] at h
    cases h
  · rintro rfl
    rw [show hexVal (ofChar '"') = none by decide] at h
    cases h

/-- A character of a string that neither ends it nor escapes the next one. -/
theorem prescan_inside {c : CodePoint} (hslash : c ≠ ofChar '\\') (hquote : c ≠ ofChar '"') :
    prescanFrom layer ⟨d, true, false⟩ (c :: t) = prescanFrom layer ⟨d, true, false⟩ t := by
  simp only [prescanFrom_cons, prescanStep, if_true, Bool.false_eq_true, if_false, if_neg hslash,
    if_neg hquote]

theorem prescan_hex4 {v : ℕ} (h : hex4 t = some (v, r)) :
    prescanFrom layer ⟨d, true, false⟩ t = prescanFrom layer ⟨d, true, false⟩ r := by
  match t with
  | [] | [_] | [_, _] | [_, _, _] => cases h
  | a :: b :: c :: e :: u =>
    simp only [hex4, Option.bind_eq_bind, Option.bind_eq_some_iff] at h
    obtain ⟨va, ha, vb, hb, vc, hc, ve, he, h⟩ := h
    cases h
    rw [prescan_inside (hexVal_plain ha).1 (hexVal_plain ha).2,
      prescan_inside (hexVal_plain hb).1 (hexVal_plain hb).2,
      prescan_inside (hexVal_plain hc).1 (hexVal_plain hc).2,
      prescan_inside (hexVal_plain he).1 (hexVal_plain he).2]

/-- The character behind a backslash is passed over, whatever it is. -/
theorem prescan_escaped (c : CodePoint) :
    prescanFrom layer ⟨d, true, true⟩ (c :: t) = prescanFrom layer ⟨d, true, false⟩ t := by
  simp only [prescanFrom_cons, prescanStep, if_true]

theorem prescan_backslash :
    prescanFrom layer ⟨d, true, false⟩ (ofChar '\\' :: t) = prescanFrom layer ⟨d, true, true⟩ t := by
  simp only [prescanFrom_cons, prescanStep, if_true, Bool.false_eq_true, if_false]

theorem prescan_hexEscape {v : ℕ} (h : hexEscape t = some (v, r)) :
    prescanFrom layer ⟨d, true, false⟩ t = prescanFrom layer ⟨d, true, false⟩ r := by
  match t with
  | [] | [_] => cases h
  | x :: y :: u =>
    simp only [hexEscape] at h
    split_ifs at h with hxy
    rw [hxy.1, prescan_backslash, prescan_escaped]
    exact prescan_hex4 h

/-- What a backslash starts. -/
theorem prescan_scanEscape {c : CodePoint} (h : scanEscape t = some (c, r)) :
    prescanFrom layer ⟨d, true, true⟩ t = prescanFrom layer ⟨d, true, false⟩ r := by
  match t with
  | [] => cases h
  | e :: u =>
    rw [prescan_escaped]
    simp only [scanEscape] at h
    split_ifs at h with hu
    · split at h
      · cases h
      next hi t₁ hhex =>
        rw [prescan_hex4 hhex]
        split at h
        · cases h
          rfl
        next lo t₂ hlow =>
          split_ifs at h
          · have hrest : t₂ = r := congrArg Prod.snd (Option.some.inj h)
            rw [← hrest]
            exact prescan_hexEscape hlow
          · have hrest : t₁ = r := congrArg Prod.snd (Option.some.inj h)
            rw [hrest]
    · obtain ⟨c', -, hc⟩ := Option.map_eq_some_iff.mp h
      cases hc
      rfl

/-- The contents of a string up to its closing quote. -/
theorem prescan_scanString : ∀ (n : ℕ) {t r w : Str}, scanString n t = some (w, r) →
    prescanFrom layer ⟨d, true, false⟩ t = prescanFrom layer ⟨d, false, false⟩ r
  | 0, _, _, _, h => by cases h
  | _ + 1, [], _, _, h => by cases h
  | n + 1, c :: t, r, w, h => by
    unfold scanString at h
    split_ifs at h with hquote hslash
    · cases h
      simp only [hquote, prescanFrom_cons, prescanStep, if_true, Bool.false_eq_true, if_false,
        show ofChar '"' ≠ ofChar '\\' by decide]
    · split at h
      · cases h
      next c' t₁ hescape =>
        obtain ⟨p, hp, hpair⟩ := Option.map_eq_some_iff.mp h
        cases hpair
        rw [hslash, prescan_backslash, prescan_scanEscape hescape]
        exact prescan_scanString n hp
    · obtain ⟨p, hp, hpair⟩ := Option.map_eq_some_iff.mp h
      cases hpair
      rw [prescan_inside hslash hquote]
      exact prescan_scanString n hp

/-- A string with its opening quote. -/
theorem prescan_string {n : ℕ} {w : Str} (h : scanString n t = some (w, r)) :
    prescanFrom layer ⟨d, false, false⟩ (ofChar '"' :: t) =
      prescanFrom layer ⟨d, false, false⟩ r := by
  rw [← prescan_scanString n h]
  simp only [prescanFrom_cons, prescanStep, Bool.false_eq_true, if_false, if_true]

/-! ## Outside of strings -/

theorem prescan_skipSpace (s : Str) : prescanFrom layer ⟨d, false, false⟩ (skipSpace s) =
    prescanFrom layer ⟨d, false, false⟩ s := by
  induction s with
  | nil => rfl
  | cons c s ih =>
    unfold skipSpace
    rw [List.dropWhile_cons]
    split_ifs with hspace
    · have hplain : c ∉ [ofChar '"', ofChar '{', ofChar '[', ofChar '}', ofChar ']'] := by
        intro hc
        simp only [List.mem_cons, List.not_mem_nil, or_false] at hc
        rcases hc with rfl | rfl | rfl | rfl | rfl <;> exact absurd hspace (by decide)
      rw [prescan_plain layer d hplain]
      exact ih
    · rfl

theorem dropLit_eq_some {l : String} (h : dropLit l s = some r) (hlen : l.length = (lit l).length) :
    s = lit l ++ r := by
  unfold dropLit at h
  split_ifs at h with hprefix
  obtain ⟨u, rfl⟩ := List.isPrefixOf_iff_prefix.mp hprefix
  cases h
  rw [hlen, List.drop_left]

/-- A word is passed over. -/
theorem prescan_dropLit {l : String} (h : dropLit l s = some r) (hlen : l.length = (lit l).length)
    (hword : (lit l).all (fun c =>
      c ∉ [ofChar '"', ofChar '{', ofChar '[', ofChar '}', ofChar ']']) = true) :
    prescanFrom layer ⟨d, false, false⟩ s = prescanFrom layer ⟨d, false, false⟩ r := by
  rw [dropLit_eq_some h hlen]
  exact prescan_word layer d hword r

/-! ## The text follows the decoder -/

variable {ε : Type} {h : Hooks ε}

theorem scanAtom_flat (layer : String) (d : ℤ) (hs : h.Strict) {j : Json} (hscan : scanAtom h s = .ok (j, r)) :
    depth j = 0 ∧
      prescanFrom layer ⟨d, false, false⟩ s = prescanFrom layer ⟨d, false, false⟩ r := by
  unfold scanAtom at hscan
  cases hnull : dropLit "null" s with
  | some t =>
    simp only [hnull] at hscan
    cases hscan
    exact ⟨rfl, prescan_dropLit hnull (by decide) (by decide)⟩
  | none =>
    cases htrue : dropLit "true" s with
    | some t =>
      simp only [hnull, htrue] at hscan
      cases hscan
      exact ⟨rfl, prescan_dropLit htrue (by decide) (by decide)⟩
    | none =>
      cases hfalse : dropLit "false" s with
      | some t =>
        simp only [hnull, htrue, hfalse] at hscan
        cases hscan
        exact ⟨rfl, prescan_dropLit hfalse (by decide) (by decide)⟩
      | none =>
        exfalso
        simp only [hnull, htrue, hfalse] at hscan
        split at hscan
        · exact hs.parseConstant _ _ (map_pair_ok hscan)
        · exact hs.parseConstant _ _ (map_pair_ok hscan)
        · exact hs.parseConstant _ _ (map_pair_ok hscan)
        · split at hscan
          · exact hs.parseNumber _ _ (map_pair_ok hscan)
          · cases hscan

/-- What the hook makes of the pairs is an object of them. -/
theorem object_of_pairs (hs : h.Strict) {ms : List (Str × Json)} {j : Json}
    (hpairs : (h.objectPairs ms).map (·, t) = .ok (j, r)) : j = .obj ms ∧ t = r := by
  have hobject := (hs.objectPairs (map_pair_ok hpairs)).1
  cases hms : h.objectPairs ms with
  | error e =>
    rw [hms] at hpairs
    cases hpairs
  | ok o =>
    rw [hms] at hpairs
    cases hpairs
    exact ⟨hobject, rfl⟩

theorem depthMembers_cons (k : Str) (v : Json) (ms : List (Str × Json)) :
    depthMembers ((k, v) :: ms) = max (depth v) (depthMembers ms) := rfl

mutual

/-- What the decoder reads as one value, the scan passes over, as deep as the value is nested. -/
theorem scanOnce_follows (hs : h.Strict) : ∀ (n : ℕ) {s r : Str} {j : Json} {d : ℤ},
    d ≤ nestingDepthLimit → scanOnce h n s = .ok (j, r) → Follows layer d d (depth j) s r
  | 0, _, _, _, _, _, hscan => by
    rw [scanOnce] at hscan
    cases hscan
  | _ + 1, [], _, _, _, _, hscan => by
    rw [scanOnce] at hscan
    cases hscan
  | n + 1, c :: t, r, j, d, hd, hscan => by
    rw [scanOnce] at hscan
    split_ifs at hscan with hquote hbrace hbracket
    · split at hscan
      · next w r' hstring =>
        cases hscan
        refine .flat hd ?_
        rw [hquote]
        exact prescan_string hstring
      · cases hscan
    · split at hscan
      · cases hscan
      next c' t' hskip =>
        split_ifs at hscan with hclose
        · -- an empty object
          obtain ⟨rfl, rfl⟩ := object_of_pairs hs hscan
          refine .opens (.inl hbrace) fun hopen => ?_
          refine .after (prescan_skipSpace t).symm ?_
          rw [hskip]
          exact .closes (.inl hclose) hopen
        · obtain ⟨ms, rfl, hfollows⟩ := scanMembers_follows hs n hscan
          refine .opens (.inl hbrace) fun hopen => ?_
          refine .after (prescan_skipSpace t).symm ?_
          rw [hskip]
          exact hfollows hopen
    · split at hscan
      · cases hscan
      next c' t' hskip =>
        split_ifs at hscan with hclose
        · -- an empty array
          cases hscan
          refine .opens (.inr hbracket) fun hopen => ?_
          refine .after (prescan_skipSpace t).symm ?_
          rw [hskip]
          exact .closes (.inr hclose) hopen
        · obtain ⟨xs, rfl, hfollows⟩ := scanElements_follows hs n hscan
          refine .opens (.inr hbracket) fun hopen => ?_
          refine .after (prescan_skipSpace t).symm ?_
          rw [hskip]
          exact hfollows hopen
    · obtain ⟨hleaf, hflat⟩ := scanAtom_flat layer d hs hscan
      rw [hleaf]
      exact .flat hd hflat

/-- The members of an object up to its closing brace. -/
theorem scanMembers_follows (hs : h.Strict) : ∀ (n : ℕ) {s r : Str} {acc : List (Str × Json)}
    {j : Json} {d : ℤ}, scanMembers h n s acc = .ok (j, r) → ∃ ms, j = .obj (acc ++ ms) ∧
      (d + 1 ≤ nestingDepthLimit → Follows layer (d + 1) d (depthMembers ms) s r)
  | 0, _, _, _, _, _, hscan => by
    rw [scanMembers] at hscan
    cases hscan
  | _ + 1, [], _, _, _, _, hscan => by
    rw [scanMembers] at hscan
    cases hscan
  | n + 1, c :: t, r, acc, j, d, hscan => by
    rw [scanMembers] at hscan
    split_ifs at hscan with hquote
    split at hscan
    · cases hscan
    next k r₁ hkey =>
      split at hscan
      · cases hscan
      next c₂ r₂ hcolon =>
        split_ifs at hscan with hc₂
        split at hscan
        · cases hscan
        next v r₃ hvalue =>
          split at hscan
          · cases hscan
          next c₄ r₄ hnext =>
            -- the key and the colon, then the value, then what is behind it
            have hplain : ∀ e, e = ofChar ':' ∨ e = ofChar ',' →
                e ∉ [ofChar '"', ofChar '{', ofChar '[', ofChar '}', ofChar ']'] := by
              rintro e (rfl | rfl) <;> decide
            have hbefore : prescanFrom layer ⟨d + 1, false, false⟩ (c :: t) =
                prescanFrom layer ⟨d + 1, false, false⟩ (skipSpace r₂) := by
              rw [hquote, prescan_string hkey, ← prescan_skipSpace r₁, hcolon,
                prescan_plain layer _ (hplain _ (.inl hc₂)), prescan_skipSpace]
            have hbehind : prescanFrom layer ⟨d + 1, false, false⟩ r₃ =
                prescanFrom layer ⟨d + 1, false, false⟩ (c₄ :: r₄) := by
              rw [← prescan_skipSpace r₃, hnext]
            split_ifs at hscan with hclose hcomma
            · obtain ⟨rfl, rfl⟩ := object_of_pairs hs hscan
              refine ⟨[(k, v)], rfl, fun hopen => .after hbefore ?_⟩
              exact (scanOnce_follows hs n hopen hvalue).trans
                (.after hbehind (.closes (.inl hclose) hopen))
            · obtain ⟨ms, rfl, hfollows⟩ := scanMembers_follows hs n (d := d) hscan
              rw [List.append_assoc]
              refine ⟨(k, v) :: ms, rfl, fun hopen => .after hbefore ?_⟩
              refine (scanOnce_follows hs n hopen hvalue).trans (.after ?_ (hfollows hopen))
              rw [hbehind, prescan_plain layer _ (hplain _ (.inr hcomma)), prescan_skipSpace]

/-- The elements of an array up to its closing bracket. -/
theorem scanElements_follows (hs : h.Strict) : ∀ (n : ℕ) {s r : Str} {acc : List Json}
    {j : Json} {d : ℤ}, scanElements h n s acc = .ok (j, r) → ∃ xs, j = .arr (acc ++ xs) ∧
      (d + 1 ≤ nestingDepthLimit → Follows layer (d + 1) d (depthList xs) s r)
  | 0, _, _, _, _, _, hscan => by
    rw [scanElements] at hscan
    cases hscan
  | n + 1, s, r, acc, j, d, hscan => by
    rw [scanElements] at hscan
    split at hscan
    · cases hscan
    next v r₁ hvalue =>
      split at hscan
      · cases hscan
      next c₂ r₂ hnext =>
        have hbehind : prescanFrom layer ⟨d + 1, false, false⟩ r₁ =
            prescanFrom layer ⟨d + 1, false, false⟩ (c₂ :: r₂) := by
          rw [← prescan_skipSpace r₁, hnext]
        split_ifs at hscan with hclose hcomma
        · cases hscan
          refine ⟨[v], rfl, fun hopen => ?_⟩
          exact (scanOnce_follows hs n hopen hvalue).trans
            (.after hbehind (.closes (.inr hclose) hopen))
        · obtain ⟨xs, rfl, hfollows⟩ := scanElements_follows hs n (d := d) hscan
          rw [List.append_assoc]
          refine ⟨v :: xs, rfl, fun hopen => ?_⟩
          refine (scanOnce_follows hs n hopen hvalue).trans (.after ?_ (hfollows hopen))
          have hplain : c₂ ∉ [ofChar '"', ofChar '{', ofChar '[', ofChar '}', ofChar ']'] := by
            rw [hcomma]
            decide
          rw [hbehind, prescan_plain layer _ hplain, prescan_skipSpace]

end

/-- The scan of a text that the decoder reads. -/
theorem depthPrescan_of_loads (layer : String) (hs : h.Strict) {j : Json} (hloads : loads h s = .ok j) :
    ((∃ e, depthPrescan s layer = .error e) ↔ nestingDepthLimit < depth j) ∧
      (depthPrescan s layer = .ok () ↔ depth j ≤ nestingDepthLimit) := by
  unfold loads at hloads
  split_ifs at hloads with hbom
  split at hloads
  · cases hloads
  next v r hscan =>
    split_ifs at hloads with hend
    cases hloads
    have hfollows : Follows layer 0 0 (depth j) s r :=
      .after (prescan_skipSpace s).symm (scanOnce_follows hs _ (by decide) hscan)
    have hrest : prescanFrom layer ⟨0, false, false⟩ r = .ok () := by
      rw [← prescan_skipSpace, hend]
      rfl
    have hfits : depth j ≤ nestingDepthLimit → depthPrescan s layer = .ok () := by
      intro hle
      unfold depthPrescan
      rw [hfollows.1 (by omega)]
      exact hrest
    have hdeep : nestingDepthLimit < depth j → ∃ e, depthPrescan s layer = .error e := fun hlt =>
      hfollows.2 (by omega)
    refine ⟨⟨fun ⟨e, he⟩ => ?_, hdeep⟩, ⟨fun hok => ?_, hfits⟩⟩
    · by_contra hle
      rw [hfits (not_lt.mp hle)] at he
      cases he
    · by_contra hlt
      obtain ⟨e, he⟩ := hdeep (not_le.mp hlt)
      rw [hok] at he
      cases he

/-! ## The walk of the tree -/

/-- A container is one deeper than the deepest of what it holds. -/
theorem depth_of_children {j : Json} {xs : List Json} (hc : children j = some xs) {m : ℕ}
    (hall : ∀ x ∈ xs, depth x ≤ m) : depth j ≤ m + 1 := by
  have hlist : ∀ ys : List Json, (∀ y ∈ ys, depth y ≤ m) → depthList ys ≤ m := by
    intro ys hys
    induction ys with
    | nil => exact Nat.zero_le _
    | cons y ys ih =>
      rw [List.forall_mem_cons] at hys
      exact max_le hys.1 (ih hys.2)
  have hmembers : ∀ ms : List (Str × Json), (∀ y ∈ ms.map Prod.snd, depth y ≤ m) →
      depthMembers ms ≤ m := by
    intro ms hms
    induction ms with
    | nil => exact Nat.zero_le _
    | cons p ms ih =>
      rw [List.map_cons, List.forall_mem_cons] at hms
      exact max_le hms.1 (ih hms.2)
  cases j with
  | arr ys =>
    cases hc
    have hle := hlist xs hall
    rw [depth]
    omega
  | obj ms =>
    cases hc
    have hle := hmembers ms hall
    rw [depth]
    omega
  | _ => cases hc

/-- The walk raises unless every entry of its stack fits under the limit. -/
theorem fits_of_postLoadDepthCheck {stack : List (Json × ℕ)}
    (hok : postLoadDepthCheck layer stack = .ok ()) :
    ∀ p ∈ stack, 0 < depth p.1 → p.2 + depth p.1 ≤ nestingDepthLimit + 1 := by
  fun_induction postLoadDepthCheck layer stack with
  | case1 => exact fun _ hp => absurd hp List.not_mem_nil
  | case2 node d stack hc ih =>
    intro p hp hpos
    rcases List.mem_cons.mp hp with rfl | hp
    · exfalso
      cases node <;> simp only [children, reduceCtorEq] at hc <;> exact absurd hpos (lt_irrefl 0)
    · exact ih hok p hp hpos
  | case3 node d stack xs hc hd => cases hok
  | case4 node d stack xs hc hd ih =>
    intro p hp hpos
    rcases List.mem_cons.mp hp with rfl | hp
    · have hchildren : ∀ x ∈ xs, depth x ≤ nestingDepthLimit - d := by
        intro x hx
        rcases Nat.eq_zero_or_pos (depth x) with hleaf | hdeep
        · omega
        · have hmem : (x, d + 1) ∈ (xs.map (·, d + 1)).reverse ++ stack :=
            List.mem_append_left _ (List.mem_reverse.mpr (List.mem_map.mpr ⟨x, hx, rfl⟩))
          have hfits := ih hok _ hmem hdeep
          simp only at hfits
          omega
      have hle := depth_of_children hc hchildren
      simp only
      omega
    · exact ih hok p (List.mem_append_right _ hp) hpos

/-- The walk of a tree. -/
theorem postLoadDepthCheck_ok_iff (layer : String) (j : Json) :
    postLoadDepthCheck layer [(j, 1)] = .ok () ↔ depth j ≤ nestingDepthLimit := by
  constructor
  · intro hok
    rcases Nat.eq_zero_or_pos (depth j) with hleaf | hdeep
    · omega
    · have hfits := fits_of_postLoadDepthCheck hok _ (List.mem_singleton_self _) hdeep
      simp only at hfits
      omega
  · intro hle
    refine postLoadDepthCheck_ok layer _ fun p hp => ?_
    rw [List.mem_singleton.mp hp]
    show 1 + depth j ≤ _
    omega

/-! ## Both guards -/

/-- On a well-formed text without numbers and without a key twice, both guards raise when its
containers nest deeper than the limit, and the parser reads the others. -/
theorem depth_guards_agree (text : Str) (tree : Json) (layer : String)
    (hwell : loads plainHooks text = .ok tree) (htidy : Tidy tree) :
    ((∃ e, depthPrescan text layer = .error e) ↔ nestingDepthLimit < depth tree) ∧
      ((∃ e, postLoadDepthCheck layer [(tree, 1)] = .error e) ↔ nestingDepthLimit < depth tree) ∧
      ((∃ j, parseJsonText text layer = .ok j) ↔ depth tree ≤ nestingDepthLimit) := by
  have hloads := loads_of_plain hooks_faithful htidy hwell
  have hprescan := depthPrescan_of_loads layer hooks_strict hloads
  have hwalk := postLoadDepthCheck_ok_iff layer tree
  refine ⟨hprescan.1, ?_, ?_⟩
  · cases hcheck : postLoadDepthCheck layer [(tree, 1)] with
    | error e =>
      rw [hcheck] at hwalk
      exact iff_of_true ⟨e, rfl⟩ (not_le.mp fun hle => nomatch hwalk.mpr hle)
    | ok u =>
      rw [hcheck] at hwalk
      exact iff_of_false nofun (not_lt.mpr (hwalk.mp rfl))
  · constructor
    · rintro ⟨j, hj⟩
      by_contra hlt
      obtain ⟨e, he⟩ := hprescan.1.mpr (not_le.mp hlt)
      rw [parseJsonText, he] at hj
      cases hj
    · intro hle
      refine ⟨tree, ?_⟩
      rw [parseJsonText, hprescan.2.mpr hle, hloads]
      simp only [hwalk.mpr hle]

/-- A bracket in a string, and a string that ends in a backslash. -/
theorem depth_guards_agree_quoted :
    ((∃ e, depthPrescan (lit "[\"[\\\\\"]") "parse" = .error e) ↔ 64 < 1) ∧
      ((∃ j, parseJsonText (lit "[\"[\\\\\"]") "parse" = .ok j) ↔ 1 ≤ 64) := by
  have hwell : loads plainHooks (lit "[\"[\\\\\"]") = .ok (.arr [.str (lit "[\\")]) := rfl
  have htidy : Tidy (.arr [.str (lit "[\\")]) := ⟨trivial, trivial⟩
  have hagree := depth_guards_agree _ _ "parse" hwell htidy
  exact ⟨hagree.1, hagree.2.2⟩

end Federation
end ATalk
