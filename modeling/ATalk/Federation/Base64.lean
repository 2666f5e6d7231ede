import ATalk.Federation.Canonical

/-!
# Strict base64url is a bijection

`decodeStrict` accepts the strings that `encode` writes, and no others: what it reads four
characters at a time is written back as the same four, unless bits are left over.

* `foldl_push_text` : the loop over a string of the alphabet, and what it leaves;
* `decodeStrict_bijective` : which strings are accepted, and which error the others get.
-/

namespace ATalk
namespace Federation

open Text Json

/-! ## The alphabet -/

/-- A character of the alphabet is written back. -/
theorem b64url_b64Val {c : CodePoint} (hc : b64Val c < 64) : b64url (b64Val c) = c := by
  have hlen : b64urlTable.length = 64 := by decide
  have hidx : b64urlTable.idxOf c < b64urlTable.length := by
    rw [hlen]
    exact hc
  unfold b64url b64Val
  rw [List.getD_eq_getElem?_getD, List.getElem?_eq_getElem hidx, Option.getD_some]
  exact List.getElem_idxOf hidx

theorem b64Re_iff {text : Str} : b64Re text = true ↔ text ≠ [] ∧ ∀ c ∈ text, b64Val c < 64 := by
  unfold b64Re
  rw [Bool.and_eq_true, decide_eq_true_eq, List.all_eq_true]
  simp only [decide_eq_true_eq]

/-- A character adds six bits. -/
theorem push_char_short (acc : ℕ) (out : Bytes) (c : CodePoint) :
    Bits.push ⟨acc, 0, out⟩ c = ⟨acc * 64 + b64Val c, 6, out⟩ := rfl

/-- A character that completes a byte. -/
theorem push_char_long (acc nbits : ℕ) (out : Bytes) (c : CodePoint) :
    Bits.push ⟨acc, nbits + 2, out⟩ c =
      ⟨acc * 64 + b64Val c, nbits, out ++ [byte ((acc * 64 + b64Val c) / 2 ^ nbits)]⟩ := by
  unfold Bits.push
  rw [if_pos (show 8 ≤ nbits + 2 + 6 by omega)]
  simp only [show nbits + 2 + 6 - 8 = nbits by omega]

/-! ## The loop -/

/-- A character is the one that its six bits are written as. -/
theorem eq_b64url {c : CodePoint} {n : ℕ} (hc : b64Val c < 64) (h : b64Val c = n) :
    c = b64url n := by
  rw [← h]
  exact (b64url_b64Val hc).symm

/-- The loop reads a string of the alphabet. When no bits other than zero are left, it is what
`encode` writes for the bytes that were read. -/
theorem foldl_push_text : ∀ (text : Str) (acc : ℕ) (out : Bytes), (∀ c ∈ text, b64Val c < 64) →
    text.length % 4 ≠ 1 →
    let s := text.foldl Bits.push ⟨acc, 0, out⟩
    ¬ (s.nbits ≠ 0 ∧ s.acc % 2 ^ s.nbits ≠ 0) →
    ∃ bs, s.out = out ++ bs ∧ text = encodeB64 bs
  | [], acc, out, _, _ => by
    intro s _
    exact ⟨[], (List.append_nil out).symm, rfl⟩
  | [a], _, _, _, hlen => absurd rfl hlen
  | [a, b], acc, out, hall, _ => by
    intro s hleft
    have ha : b64Val a < 64 := hall a (by simp)
    have hb : b64Val b < 64 := hall b (by simp)
    have hs : s = ⟨(acc * 64 + b64Val a) * 64 + b64Val b, 4,
        out ++ [byte (((acc * 64 + b64Val a) * 64 + b64Val b) / 2 ^ 4)]⟩ := by
      show List.foldl Bits.push _ _ = _
      rw [List.foldl_cons, List.foldl_cons, List.foldl_nil, push_char_short, push_char_long]
    rw [hs] at hleft ⊢
    have hzero : ((acc * 64 + b64Val a) * 64 + b64Val b) % 2 ^ 4 = 0 := by
      by_contra hne
      exact hleft ⟨show 4 ≠ 0 by decide, hne⟩
    refine ⟨[byte (((acc * 64 + b64Val a) * 64 + b64Val b) / 2 ^ 4)], rfl, ?_⟩
    simp only [Nat.reducePow] at hzero
    simp only [encodeB64, Text.byte_val, Nat.reducePow, List.cons.injEq, and_true]
    exact ⟨eq_b64url ha (by omega), eq_b64url hb (by omega)⟩
  | [a, b, c], acc, out, hall, _ => by
    intro s hleft
    have ha : b64Val a < 64 := hall a (by simp)
    have hb : b64Val b < 64 := hall b (by simp)
    have hc : b64Val c < 64 := hall c (by simp)
    have hs : s = ⟨((acc * 64 + b64Val a) * 64 + b64Val b) * 64 + b64Val c, 2,
        out ++ [byte (((acc * 64 + b64Val a) * 64 + b64Val b) / 2 ^ 4)] ++
          [byte ((((acc * 64 + b64Val a) * 64 + b64Val b) * 64 + b64Val c) / 2 ^ 2)]⟩ := by
      show List.foldl Bits.push _ _ = _
      rw [List.foldl_cons, List.foldl_cons, List.foldl_cons, List.foldl_nil, push_char_short,
        push_char_long, push_char_long]
    rw [hs] at hleft ⊢
    have hzero : (((acc * 64 + b64Val a) * 64 + b64Val b) * 64 + b64Val c) % 2 ^ 2 = 0 := by
      by_contra hne
      exact hleft ⟨show 2 ≠ 0 by decide, hne⟩
    refine ⟨_, List.append_assoc _ _ _, ?_⟩
    simp only [Nat.reducePow] at hzero
    simp only [List.cons_append, List.nil_append, encodeB64, Text.byte_val, Nat.reducePow,
      List.cons.injEq, and_true]
    exact ⟨eq_b64url ha (by omega), eq_b64url hb (by omega), eq_b64url hc (by omega)⟩
  | a :: b :: c :: d :: t, acc, out, hall, hlen => by
    intro s hleft
    have ha : b64Val a < 64 := hall a (by simp)
    have hb : b64Val b < 64 := hall b (by simp)
    have hc : b64Val c < 64 := hall c (by simp)
    have hd : b64Val d < 64 := hall d (by simp)
    have hrest : ∀ e ∈ t, b64Val e < 64 := fun e he => hall e (by simp [he])
    have hlent : t.length % 4 ≠ 1 := by
      simp only [List.length_cons] at hlen
      omega
    have hs : s = t.foldl Bits.push
        ⟨(((acc * 64 + b64Val a) * 64 + b64Val b) * 64 + b64Val c) * 64 + b64Val d, 0,
          out ++ [byte (((acc * 64 + b64Val a) * 64 + b64Val b) / 2 ^ 4)] ++
            [byte ((((acc * 64 + b64Val a) * 64 + b64Val b) * 64 + b64Val c) / 2 ^ 2)] ++
            [byte (((((acc * 64 + b64Val a) * 64 + b64Val b) * 64 + b64Val c) * 64 + b64Val d)
              / 2 ^ 0)]⟩ := by
      show List.foldl Bits.push _ _ = _
      rw [List.foldl_cons, List.foldl_cons, List.foldl_cons, List.foldl_cons, push_char_short,
        push_char_long, push_char_long, push_char_long]
    rw [hs] at hleft ⊢
    obtain ⟨bs, hout, htext⟩ := foldl_push_text t _ _ hrest hlent hleft
    refine ⟨byte (((acc * 64 + b64Val a) * 64 + b64Val b) / 2 ^ 4) ::
      byte ((((acc * 64 + b64Val a) * 64 + b64Val b) * 64 + b64Val c) / 2 ^ 2) ::
      byte (((((acc * 64 + b64Val a) * 64 + b64Val b) * 64 + b64Val c) * 64 + b64Val d) / 2 ^ 0) ::
      bs, ?_, ?_⟩
    · rw [hout]
      simp only [List.append_assoc, List.cons_append, List.nil_append]
    · simp only [encodeB64, Text.byte_val, Nat.reducePow, List.cons.injEq]
      exact ⟨eq_b64url ha (by omega), eq_b64url hb (by omega), eq_b64url hc (by omega),
        eq_b64url hd (by omega), htext⟩

/-! ## The decoder -/

/-- Two byte strings are not written alike. -/
theorem encodeB64_injective {a b : Bytes} (h : encodeB64 a = encodeB64 b) : a = b := by
  obtain ⟨acc, nbits, ha, -⟩ := foldl_push_encodeB64 a [] 0
  obtain ⟨acc', nbits', hb, -⟩ := foldl_push_encodeB64 b [] 0
  rw [h, hb] at ha
  exact (congrArg Bits.out ha).symm

/-- A string is what `encode` writes for some bytes, and the decoder looks at their number, or it
is refused as not canonical. -/
theorem decodeStrict_cases (text : Str) (n : ℕ) (lengthCategory layer : String) :
    (∃ b, b ≠ [] ∧ text = encodeB64 b ∧ decodeStrict text n lengthCategory layer =
        if b.length ≠ n then .error ⟨layer, lengthCategory, []⟩ else .ok b) ∨
      (∀ b, b ≠ [] → text ≠ encodeB64 b) ∧ decodeStrict text n lengthCategory layer =
        .error ⟨layer, "non_canonical_base64url", []⟩ := by
  by_cases hencoded : ∃ b, b ≠ [] ∧ text = encodeB64 b
  · obtain ⟨b, hb, rfl⟩ := hencoded
    obtain ⟨acc, nbits, hfold, hzero⟩ := foldl_push_encodeB64 b [] 0
    refine .inl ⟨b, hb, rfl, ?_⟩
    rw [decodeStrict, if_neg (by simp [b64Re_encodeB64 hb]), if_neg (length_encodeB64_mod b), hfold]
    have hleft : ¬ (nbits ≠ 0 ∧ acc % 2 ^ nbits ≠ 0) := fun h => h.2 hzero
    simp only [if_neg hleft, List.nil_append]
  · have hnone : ∀ b, b ≠ [] → text ≠ encodeB64 b := fun b hb he => hencoded ⟨b, hb, he⟩
    refine .inr ⟨hnone, ?_⟩
    unfold decodeStrict
    by_cases hre : b64Re text = false
    · rw [if_pos hre]
    · rw [if_neg hre]
      obtain ⟨hne, hall⟩ := b64Re_iff.mp (Bool.not_eq_false _ ▸ hre)
      by_cases hlen : text.length % 4 = 1
      · rw [if_pos hlen]
      · rw [if_neg hlen]
        -- the string is of the alphabet: something other than zero is left
        refine if_pos ?_
        by_contra hleft
        obtain ⟨b, -, htext⟩ := foldl_push_text text 0 [] hall hlen hleft
        refine hnone b ?_ htext
        rintro rfl
        exact hne htext

/-- Strict base64url: `decodeStrict` inverts `encode` on the strings of `encode` with the right
number of bytes; the other strings of `encode` have the wrong length, and the rest is not canonical. -/
theorem decodeStrict_bijective (text : Str) (n : ℕ) (hn : 1 ≤ n) (lengthCategory layer : String) :
    (∀ b, decodeStrict text n lengthCategory layer = .ok b ↔ text = encodeB64 b ∧ b.length = n) ∧
      (∀ b b', text = encodeB64 b → text = encodeB64 b' → b = b') ∧
      (∀ b, b ≠ [] → decodeStrict (encodeB64 b) b.length lengthCategory layer = .ok b) ∧
      ∀ e, decodeStrict text n lengthCategory layer = .error e →
        ((∀ b, b ≠ [] → text ≠ encodeB64 b) → e = ⟨layer, "non_canonical_base64url", []⟩) ∧
        ((∃ b, b ≠ [] ∧ text = encodeB64 b) → e = ⟨layer, lengthCategory, []⟩) := by
  refine ⟨fun b => ?_, fun b b' hb hb' => encodeB64_injective (hb.symm.trans hb'),
    fun b hb => decodeStrict_encode hb lengthCategory layer, fun e he => ?_⟩
  · rcases decodeStrict_cases text n lengthCategory layer with ⟨c, -, hc, hdecode⟩ | ⟨hnone, hdecode⟩
    · rw [hdecode]
      split_ifs with hlen
      · refine iff_of_false nofun fun ⟨hb, hblen⟩ => hlen ?_
        rw [encodeB64_injective (hc.symm.trans hb)]
        exact hblen
      · constructor
        · intro h
          cases h
          exact ⟨hc, not_not.mp hlen⟩
        · rintro ⟨hb, -⟩
          rw [encodeB64_injective (hc.symm.trans hb)]
    · rw [hdecode]
      refine iff_of_false nofun fun ⟨hb, hblen⟩ => hnone b ?_ hb
      rintro rfl
      exact absurd hn (by rw [← hblen]; decide)
  · rcases decodeStrict_cases text n lengthCategory layer with ⟨c, hne, hc, hdecode⟩ | ⟨hnone, hdecode⟩
    · rw [hdecode] at he
      split_ifs at he
      cases he
      exact ⟨fun hnone => absurd hc (hnone c hne), fun _ => rfl⟩
    · rw [hdecode] at he
      cases he
      exact ⟨fun _ => rfl, fun ⟨b, hb, htext⟩ => absurd htext (hnone b hb)⟩

theorem decodeStrict_bijective_one :
    (1 ≤ 1) ∧ ∀ b, decodeStrict (lit "QQ") 1 "signature_length" "schema" = .ok b ↔
      lit "QQ" = encodeB64 b ∧ b.length = 1 :=
  ⟨by decide, (decodeStrict_bijective (lit "QQ") 1 (by decide) "signature_length" "schema").1⟩

end Federation
end ATalk
