import ATalk.Lib.JsonText

/-!
# Hooks and well-formed texts

The plain hooks let every well-formed JSON text through. What other hooks are asked for depends on
the text alone, so a tree without numbers and without a key twice is read by every faithful decoder.

* `scanOnce_of_plain` : the scanner with other hooks, on a text that is read as such a tree;
* `loads_of_plain` : the same of `json.loads`.
-/

namespace ATalk
namespace Json

open Text

variable {ε : Type} {h : Hooks ε}

theorem keys_append (ms ms' : List (Str × Json)) : keys (ms ++ ms') = keys ms ++ keys ms' :=
  List.map_append

theorem tidyMembers_append {ms ms' : List (Str × Json)} :
    TidyMembers (ms ++ ms') ↔ TidyMembers ms ∧ TidyMembers ms' := by
  simp only [tidyMembers_iff, List.forall_mem_append]

theorem tidyList_append {xs ys : List Json} : TidyList (xs ++ ys) ↔ TidyList xs ∧ TidyList ys := by
  induction xs with
  | nil => exact ⟨fun h => ⟨trivial, h⟩, fun h => h.2⟩
  | cons x xs ih =>
    rw [List.cons_append, TidyList, TidyList, ih]
    exact and_assoc.symm

/-- An atom that is not a number asks for no hook. -/
theorem scanAtom_of_plain {s r : Str} {j : Json} (hj : Tidy j)
    (hs : scanAtom plainHooks s = .ok (j, r)) : scanAtom h s = .ok (j, r) := by
  unfold scanAtom at hs ⊢
  cases hnull : dropLit "null" s with
  | some t =>
    simp only [hnull] at hs ⊢
    cases hs
    rfl
  | none =>
    cases htrue : dropLit "true" s with
    | some t =>
      simp only [hnull, htrue] at hs ⊢
      cases hs
      rfl
    | none =>
      cases hfalse : dropLit "false" s with
      | some t =>
        simp only [hnull, htrue, hfalse] at hs ⊢
        cases hs
        rfl
      | none =>
        -- what is left are numbers, which the tree does not have
        exfalso
        simp only [hnull, htrue, hfalse] at hs
        repeat' split at hs
        all_goals cases hs
        all_goals exact hj

mutual

theorem scanOnce_of_plain (hp : h.Faithful) : ∀ (n : ℕ) {s r : Str} {j : Json}, Tidy j →
    scanOnce plainHooks n s = .ok (j, r) → scanOnce h n s = .ok (j, r)
  | 0, _, _, _, _, hs => by
    rw [scanOnce] at hs
    cases hs
  | _ + 1, [], _, _, _, hs => by
    rw [scanOnce] at hs
    cases hs
  | n + 1, c :: t, r, j, hj, hs => by
    rw [scanOnce] at hs ⊢
    split_ifs at hs ⊢ with hquote hbrace hbracket
    · split at hs
      · cases hs
        rfl
      · cases hs
    · split at hs
      · cases hs
      · next c' t' hskip =>
        split_ifs at hs with hclose
        · cases hs
          simp only [if_pos hclose, hp [] List.nodup_nil]
          rfl
        · simp only [if_neg hclose]
          obtain ⟨ms, rfl, htail⟩ := scanMembers_of_plain hp n hs
          exact htail hj.2 hj.1
    · split at hs
      · cases hs
      · next c' t' hskip =>
        split_ifs at hs with hclose
        · cases hs
          simp only [if_pos hclose]
        · simp only [if_neg hclose]
          obtain ⟨xs, rfl, htail⟩ := scanElements_of_plain hp n hs
          exact htail hj
    · exact scanAtom_of_plain hj hs

/-- The members that follow those before them. -/
theorem scanMembers_of_plain (hp : h.Faithful) : ∀ (n : ℕ) {s r : Str} {acc : List (Str × Json)}
    {j : Json}, scanMembers plainHooks n s acc = .ok (j, r) →
    ∃ ms, j = .obj (acc ++ ms) ∧ (TidyMembers (acc ++ ms) → (keys (acc ++ ms)).Nodup →
      scanMembers h n s acc = .ok (.obj (acc ++ ms), r))
  | 0, _, _, _, _, hs => by
    rw [scanMembers] at hs
    cases hs
  | _ + 1, [], _, _, _, hs => by
    rw [scanMembers] at hs
    cases hs
  | n + 1, c :: t, r, acc, j, hs => by
    rw [scanMembers] at hs
    rw [scanMembers]
    split_ifs at hs ⊢
    split at hs
    · cases hs
    next k r₁ hkey =>
      split at hs
      · cases hs
      next d r₂ hcolon =>
        split_ifs at hs with hd
        simp only [if_pos hd]
        split at hs
        · cases hs
        next v r₃ hvalue =>
          -- the value belongs to the object, so it is tidy when the object is
          have hone : ∀ ms, TidyMembers (acc ++ (k, v) :: ms) →
              scanOnce h n (skipSpace r₂) = .ok (v, r₃) := fun ms htidy =>
            scanOnce_of_plain hp n ((tidyMembers_append.mp htidy).2.1) hvalue
          split at hs
          · cases hs
          next d' r₄ hnext =>
            split_ifs at hs with hclose hcomma
            · cases hs
              refine ⟨[(k, v)], rfl, fun htidy hnodup => ?_⟩
              simp only [hone [] htidy, hnext, if_pos hclose, hp _ hnodup]
              rfl
            · obtain ⟨ms, rfl, htail⟩ := scanMembers_of_plain hp n hs
              rw [List.append_assoc] at htail ⊢
              refine ⟨(k, v) :: ms, rfl, fun htidy hnodup => ?_⟩
              simp only [hone ms htidy, hnext, if_neg hclose, if_pos hcomma]
              exact htail htidy hnodup

/-- The elements that follow those before them. -/
theorem scanElements_of_plain (hp : h.Faithful) : ∀ (n : ℕ) {s r : Str} {acc : List Json} {j : Json},
    scanElements plainHooks n s acc = .ok (j, r) →
    ∃ xs, j = .arr (acc ++ xs) ∧ (TidyList (acc ++ xs) →
      scanElements h n s acc = .ok (.arr (acc ++ xs), r))
  | 0, _, _, _, _, hs => by
    rw [scanElements] at hs
    cases hs
  | n + 1, s, r, acc, j, hs => by
    rw [scanElements] at hs
    rw [scanElements]
    split at hs
    · cases hs
    next v r₁ hvalue =>
      have hone : ∀ xs, TidyList (acc ++ v :: xs) → scanOnce h n s = .ok (v, r₁) := fun xs htidy =>
        scanOnce_of_plain hp n ((tidyList_append.mp htidy).2.1) hvalue
      split at hs
      · cases hs
      next d r₂ hnext =>
        split_ifs at hs with hclose hcomma
        · cases hs
          refine ⟨[v], rfl, fun htidy => ?_⟩
          simp only [hone [] htidy, hnext, if_pos hclose]
        · obtain ⟨xs, rfl, htail⟩ := scanElements_of_plain hp n hs
          rw [List.append_assoc] at htail ⊢
          refine ⟨v :: xs, rfl, fun htidy => ?_⟩
          simp only [hone xs htidy, hnext, if_neg hclose, if_pos hcomma]
          exact htail htidy

end

/-- A well-formed text without numbers and without a key twice is read by every faithful decoder. -/
theorem loads_of_plain (hp : h.Faithful) {s : Str} {j : Json} (hj : Tidy j)
    (hs : loads plainHooks s = .ok j) : loads h s = .ok j := by
  unfold loads at hs ⊢
  split_ifs at hs with hbom
  rw [if_neg hbom]
  split at hs
  · cases hs
  next v r hscan =>
    split_ifs at hs with hend
    cases hs
    simp only [scanOnce_of_plain hp _ hj hscan, if_pos hend]

end Json
end ATalk
