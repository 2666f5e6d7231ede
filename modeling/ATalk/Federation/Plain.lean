import ATalk.Federation.Schema

/-!
# Strings that print as they are

Every string a grammar of the schema accepts is printable ASCII without a quote or a backslash:
it can be encoded, and a JSON text shows it unchanged.

* `Plain.clean`, `Plain.escapedSize` : what that is good for;
* `plain_familyRe`, `plain_uuidRe`, … : one lemma a grammar.
-/

namespace ATalk
namespace Federation

open Text Json

/-- A printable ASCII character that needs no escape. -/
def plainChar (c : CodePoint) : Bool :=
  0x20 ≤ c.val && c.val < 0x80 && c.val ≠ 0x22 && c.val ≠ 0x5C

def Plain (s : Str) : Prop := ∀ c ∈ s, plainChar c = true

/-- The size of a string in a JSON text, its quotes apart. -/
def escapedSize (s : Str) : ℕ := byteSize (s.flatMap escape)

theorem escape_plain {c : CodePoint} (h : plainChar c = true) : escape c = [c] := by
  simp only [plainChar, Bool.and_eq_true, decide_eq_true_eq] at h
  have hq : c ≠ ofChar '"' := by rintro rfl; revert h; decide
  have hb : c ≠ ofChar '\\' := by rintro rfl; revert h; decide
  unfold escape
  rw [if_neg hq, if_neg hb, if_neg (by omega), if_neg (by omega), if_neg (by omega),
    if_neg (by omega), if_neg (by omega), if_neg (by omega)]

theorem Plain.clean {s : Str} (h : Plain s) : Clean s :=
  clean_of_ascii fun c hc => by
    have := h c hc
    simp only [plainChar, Bool.and_eq_true, decide_eq_true_eq] at this
    omega

theorem Plain.escapedSize {s : Str} (h : Plain s) : escapedSize s = s.length := by
  have hflat : s.flatMap escape = s := by
    induction s with
    | nil => rfl
    | cons c s ih =>
      rw [List.flatMap_cons, escape_plain (h c (List.mem_cons_self ..)),
        ih fun c hc => h c (List.mem_cons_of_mem _ hc)]
      rfl
  rw [Federation.escapedSize, hflat]
  apply byteSize_ascii
  intro c hc
  have := h c hc
  simp only [plainChar, Bool.and_eq_true, decide_eq_true_eq] at this
  omega

theorem plain_append {s t : Str} : Plain (s ++ t) ↔ Plain s ∧ Plain t := List.forall_mem_append

theorem plain_cons {c : CodePoint} {s : Str} :
    Plain (c :: s) ↔ plainChar c = true ∧ Plain s := List.forall_mem_cons

theorem plain_classRe {p : CodePoint → Bool} {n : ℕ} {s : Str}
    (hp : ∀ c, p c = true → plainChar c = true) (h : classRe p n s = true) : Plain s := by
  simp only [classRe, Bool.and_eq_true, List.all_eq_true] at h
  exact fun c hc => hp c (h.2 c hc)

theorem plain_shapeRe {ps : List (CodePoint → Bool)} {s : Str}
    (hp : ∀ p ∈ ps, ∀ c, p c = true → plainChar c = true) (h : shapeRe ps s = true) : Plain s := by
  induction ps generalizing s with
  | nil =>
    cases s with
    | nil => exact fun c hc => nomatch hc
    | cons c s => simp [shapeRe] at h
  | cons p ps ih =>
    cases s with
    | nil => simp [shapeRe] at h
    | cons c s =>
      simp only [shapeRe, Bool.and_eq_true] at h
      exact plain_cons.mpr ⟨hp p (List.mem_cons_self ..) c h.1,
        ih (fun q hq => hp q (List.mem_cons_of_mem _ hq)) h.2⟩

theorem length_shapeRe {ps : List (CodePoint → Bool)} {s : Str} (h : shapeRe ps s = true) :
    s.length = ps.length := by
  induction ps generalizing s with
  | nil =>
    cases s with
    | nil => rfl
    | cons c s => simp [shapeRe] at h
  | cons p ps ih =>
    cases s with
    | nil => simp [shapeRe] at h
    | cons c s =>
      simp only [shapeRe, Bool.and_eq_true] at h
      simp [ih h.2]

theorem plain_digit {c : CodePoint} (h : isDigit c = true) : plainChar c = true := by
  simp only [isDigit, plainChar, Bool.and_eq_true, decide_eq_true_eq] at h ⊢
  omega

theorem plain_lower {c : CodePoint} (h : isLower c = true) : plainChar c = true := by
  simp only [isLower, plainChar, Bool.and_eq_true, decide_eq_true_eq] at h ⊢
  omega

theorem plain_upper {c : CodePoint} (h : isUpper c = true) : plainChar c = true := by
  simp only [isUpper, plainChar, Bool.and_eq_true, decide_eq_true_eq] at h ⊢
  omega

theorem plain_hex {c : CodePoint} (h : isHex c = true) : plainChar c = true := by
  simp only [isHex, isDigit, plainChar, Bool.or_eq_true, Bool.and_eq_true,
    decide_eq_true_eq] at h ⊢
  omega

theorem plain_char {d : Char} (hd : plainChar (ofChar d) = true) {c : CodePoint}
    (h : isChar d c = true) : plainChar c = true := by
  simp only [isChar, decide_eq_true_eq] at h
  rw [h]
  exact hd

theorem plain_familyRe {s : Str} (h : familyRe s = true) : Plain s := by
  refine plain_classRe (fun c hc => ?_) h
  simp only [Bool.or_eq_true] at hc
  rcases hc with (hc | hc) | hc
  · exact plain_lower hc
  · exact plain_digit hc
  · exact plain_char (by decide) hc

theorem plain_agentRe {s : Str} (h : agentRe s = true) : Plain s := by
  refine plain_classRe (fun c hc => ?_) h
  simp only [Bool.or_eq_true] at hc
  rcases hc with ((hc | hc) | hc) | hc
  · exact plain_lower hc
  · exact plain_digit hc
  · exact plain_char (by decide) hc
  · exact plain_char (by decide) hc

theorem plain_keyIdRe {s : Str} (h : keyIdRe s = true) : Plain s := by
  refine plain_classRe (fun c hc => ?_) h
  simp only [Bool.or_eq_true] at hc
  rcases hc with ((((hc | hc) | hc) | hc) | hc) | hc
  · exact plain_upper hc
  · exact plain_lower hc
  · exact plain_digit hc
  · exact plain_char (by decide) hc
  · exact plain_char (by decide) hc
  · exact plain_char (by decide) hc

theorem plain_uuidRe {s : Str} (h : uuidRe s = true) : Plain s := by
  refine plain_shapeRe (fun p hp c hc => ?_) h
  simp only [hexRun, List.mem_append, List.mem_replicate, List.mem_singleton] at hp
  rcases hp with (((((((⟨-, rfl⟩ | rfl) | ⟨-, rfl⟩) | rfl) | ⟨-, rfl⟩) | rfl) | ⟨-, rfl⟩) | rfl) |
    ⟨-, rfl⟩
  all_goals first | exact plain_hex hc | exact plain_char (by decide) hc

theorem plain_hex64Re {s : Str} (h : hex64Re s = true) : Plain s := by
  refine plain_shapeRe (fun p hp c hc => ?_) h
  rw [(List.mem_replicate.mp hp).2] at hc
  exact plain_hex hc

theorem plain_timestampOk {s : Str} (h : timestampOk s = true) : Plain s := by
  rw [timestampOk, Bool.and_eq_true] at h
  refine plain_shapeRe (fun p hp c hc => ?_) h.1
  simp only [digitRun, List.mem_append, List.mem_replicate, List.mem_singleton] at hp
  rcases hp with ((((((((((⟨-, rfl⟩ | rfl) | ⟨-, rfl⟩) | rfl) | ⟨-, rfl⟩) | rfl) | ⟨-, rfl⟩) | rfl) |
    ⟨-, rfl⟩) | rfl) | ⟨-, rfl⟩) | rfl
  all_goals first | exact plain_digit hc | exact plain_char (by decide) hc

theorem length_uuidRe {s : Str} (h : uuidRe s = true) : s.length = 36 := length_shapeRe h

theorem length_timestampOk {s : Str} (h : timestampOk s = true) : s.length = 20 := by
  rw [timestampOk, Bool.and_eq_true] at h
  exact length_shapeRe h.1

theorem IsAddress.plain {addr agent family : Str} (h : IsAddress addr agent family) :
    Plain addr := by
  obtain ⟨rfl, ha, hf⟩ := h
  exact plain_append.mpr ⟨plain_agentRe ha, plain_cons.mpr ⟨by decide, plain_familyRe hf⟩⟩

theorem plain_lit_of {l : List Str} (hl : l.all (fun s => s.all plainChar) = true) {s : Str}
    (h : s ∈ l) : Plain s := by
  rw [List.all_eq_true] at hl
  exact fun c hc => List.all_eq_true.mp (hl s h) c hc

theorem plain_b64url : ∀ n < 64, plainChar (b64url n) = true := by decide +kernel

theorem plain_encodeB64 (bs : Bytes) : Plain (encodeB64 bs) := by
  induction bs using encodeB64.induct with
  | case1 a b c t ih =>
    have ha := a.isLt
    have hb := b.isLt
    have hc := c.isLt
    simp only [encodeB64, plain_cons]
    exact ⟨plain_b64url _ (by omega), plain_b64url _ (by omega), plain_b64url _ (by omega),
      plain_b64url _ (by omega), ih⟩
  | case2 a b =>
    have ha := a.isLt
    have hb := b.isLt
    simp only [encodeB64, plain_cons]
    exact ⟨plain_b64url _ (by omega), plain_b64url _ (by omega), plain_b64url _ (by omega), List.forall_mem_nil _⟩
  | case3 a =>
    have ha := a.isLt
    simp only [encodeB64, plain_cons]
    exact ⟨plain_b64url _ (by omega), plain_b64url _ (by omega), List.forall_mem_nil _⟩
  | case4 => exact List.forall_mem_nil _

theorem length_encodeB64 (bs : Bytes) : (encodeB64 bs).length = (bs.length * 4 + 2) / 3 := by
  induction bs using encodeB64.induct with
  | case1 a b c t ih => simp only [encodeB64, List.length_cons, ih]; omega
  | case2 a b => simp [encodeB64]
  | case3 a => simp [encodeB64]
  | case4 => simp [encodeB64]

end Federation
end ATalk
