import ATalk.Federation.Depth
import ATalk.Lib.JsonEqual

/-!
# Canonical bytes are a bijection

What strict parsing accepts is in the protocol domain, so it has canonical bytes, and these are read
back as an equal object. Equal objects have the same canonical bytes.

* `domain_of_checkDomain` : the walk lets nothing else through;
* `parseStrict_domain` : what strict parsing accepts;
* `canonicalBytes_bijective` : both directions, and when two objects have one encoding.
-/

namespace ATalk
namespace Federation

open Text Json

/-! ## What strict parsing accepts -/

/-- An entry of the domain walk without a key twice. -/
def DomainItem.Tidy : DomainItem → Prop
  | .key _ _ => True
  | .value j _ => Json.Tidy j

theorem tidy_pendingItems {path : Str} {ms : List (Str × Json)} (hms : TidyMembers ms) :
    ∀ item ∈ pendingItems path ms, item.Tidy := by
  intro item hitem
  obtain ⟨m, hm, hitem⟩ := List.mem_flatMap.mp hitem
  rcases List.mem_cons.mp hitem with rfl | hitem
  · trivial
  · rw [List.mem_singleton.mp hitem]
    exact tidyMembers_iff.mp hms m hm

/-- The members of an object whose entries passed the walk. -/
theorem domainMembers_of_pending {path : Str} {ms : List (Str × Json)}
    (h : ∀ item ∈ pendingItems path ms, item.Fine) : DomainMembers ms := by
  refine domainMembers_iff.mpr fun m hm => ?_
  have hitems : ∀ item ∈ [DomainItem.key m.1 path, .value m.2 (path ++ m.1 ++ lit ".")], item.Fine :=
    fun item hitem => h item (List.mem_flatMap.mpr ⟨m, hm, hitem⟩)
  exact ⟨hitems _ List.mem_cons_self, hitems _ (List.mem_cons_of_mem _ List.mem_cons_self)⟩

/-- An entry passes when what it puts on the stack does. -/
theorem checkItem_spec {item : DomainItem} {pending : List DomainItem}
    (h : checkItem item = .ok pending) (htidy : item.Tidy) :
    (∀ i ∈ pending, i.Tidy) ∧ ((∀ i ∈ pending, i.Fine) → item.Fine) := by
  cases item with
  | key k path =>
    simp only [checkItem] at h
    split_ifs at h with hkey
    cases h
    exact ⟨List.forall_mem_nil _, fun _ => hkey⟩
  | value j path =>
    cases j with
    | str s =>
      simp only [checkItem] at h
      split_ifs at h with hclean
      cases h
      exact ⟨List.forall_mem_nil _, fun _ => hclean⟩
    | obj ms =>
      cases h
      exact ⟨tidy_pendingItems htidy.2, fun hall => ⟨htidy.1, domainMembers_of_pending hall⟩⟩
    | _ => cases h

/-- The walk lets a stack pass only when all its entries are in the domain. -/
theorem domain_of_checkDomain {stack : List DomainItem} (hok : checkDomain stack = .ok ())
    (htidy : ∀ item ∈ stack, item.Tidy) : ∀ item ∈ stack, item.Fine := by
  fun_induction checkDomain stack with
  | case1 => exact List.forall_mem_nil _
  | case2 item stack e he => cases hok
  | case3 item stack pending hcheck ih =>
    rw [List.forall_mem_cons] at htidy
    obtain ⟨hpending, hfine⟩ := checkItem_spec hcheck htidy.1
    have hall := ih hok fun i hi => (List.mem_append.mp hi).elim (hpending i) (htidy.2 i)
    rw [List.forall_mem_append] at hall
    exact List.forall_mem_cons.mpr ⟨hfine hall.1, hall.2⟩

theorem parseJsonText_depth {layer : String} {text : Str} {j : Json}
    (h : parseJsonText text layer = .ok j) : depth j ≤ nestingDepthLimit := by
  unfold parseJsonText at h
  split at h
  · cases h
  split at h
  · cases h
  split at h
  · cases h
  · next hcheck =>
    cases h
    exact (postLoadDepthCheck_ok_iff _ _).mp hcheck

/-- What strict parsing accepts is in the domain, and fits under the limit. -/
theorem parseStrict_domain {raw : Bytes} {ms : List (Str × Json)} (h : parseStrict raw = .ok ms) :
    Domain (.obj ms) ∧ depth (.obj ms) ≤ nestingDepthLimit := by
  have htidy := parseStrict_tidy h
  unfold parseStrict at h
  split at h
  · cases h
  split at h
  · cases h
  · cases h
  · next hparse =>
    split at h
    · cases h
    · next hwalk =>
      cases h
      refine ⟨?_, parseJsonText_depth hparse⟩
      exact domain_of_checkDomain hwalk (fun item hitem => by
        rw [List.mem_singleton.mp hitem]
        exact htidy) _ (List.mem_singleton_self _)
  · cases h

/-! ## Both directions -/

/-- Sorting the keys of an object changes nothing that is compared. -/
theorem equal_sorted {ms : List (Str × Json)} (hms : Domain (.obj ms)) :
    equal (.obj (sorted ms)) (.obj ms) = true := by
  have hsorted := domain_sortKeys _ hms
  rw [sortKeys_obj] at hsorted
  rw [equal_iff_sortKeys _ _ (tidy_of_domain _ hsorted) (tidy_of_domain _ hms), ← sortKeys_obj]
  exact sortKeys_idem _ (tidy_of_domain _ hms)

/-- Two objects of the domain have one encoding when they are equal. -/
theorem canonicalBytes_eq_iff {a b : List (Str × Json)} (ha : Domain (.obj a)) (hb : Domain (.obj b)) :
    canonicalBytes a = canonicalBytes b ↔ equal (.obj a) (.obj b) = true := by
  have hta := tidy_of_domain _ ha
  have htb := tidy_of_domain _ hb
  rw [equal_iff_sortKeys _ _ hta htb]
  constructor
  · intro heq
    obtain ⟨raw, hraw, -⟩ := canonicalBytes_of_domain ha
    rw [sortKeys_obj, sortKeys_obj,
      canonicalBytes_injective hta htb hraw (heq.symm.trans hraw)]
  · intro heq
    unfold canonicalBytes dumps
    rw [heq]

/-- Canonical encoding is a bijection on the protocol domain, up to the order of keys. -/
theorem canonicalBytes_bijective :
    (∀ o, Domain (.obj o) → depth (.obj o) ≤ nestingDepthLimit →
      ∃ raw o', canonicalBytes o = some raw ∧ parseStrict raw = .ok o' ∧
        equal (.obj o') (.obj o) = true) ∧
    (∀ raw o, parseStrict raw = .ok o →
      ∃ raw' o', canonicalBytes o = some raw' ∧ parseStrict raw' = .ok o' ∧
        equal (.obj o') (.obj o) = true ∧ canonicalBytes o' = some raw') ∧
    ∀ a b, Domain (.obj a) → Domain (.obj b) →
      (canonicalBytes a = canonicalBytes b ↔ equal (.obj a) (.obj b) = true) := by
  have hround : ∀ o, Domain (.obj o) → depth (.obj o) ≤ nestingDepthLimit →
      ∃ raw, canonicalBytes o = some raw ∧ parseStrict raw = .ok (sorted o) := by
    intro o ho hdepth
    obtain ⟨raw, hraw, -⟩ := canonicalBytes_of_domain ho
    exact ⟨raw, hraw, parseStrict_canonicalBytes ho hdepth hraw⟩
  refine ⟨fun o ho hdepth => ?_, fun raw o hparse => ?_, fun a b => canonicalBytes_eq_iff⟩
  · obtain ⟨raw, hraw, hparse⟩ := hround o ho hdepth
    exact ⟨raw, sorted o, hraw, hparse, equal_sorted ho⟩
  · obtain ⟨ho, hdepth⟩ := parseStrict_domain hparse
    obtain ⟨raw', hraw, hparse'⟩ := hround o ho hdepth
    obtain ⟨ho', -⟩ := parseStrict_domain hparse'
    refine ⟨raw', sorted o, hraw, hparse', equal_sorted ho, ?_⟩
    rw [← hraw]
    exact (canonicalBytes_eq_iff ho' ho).mpr (equal_sorted ho)

end Federation
end ATalk
