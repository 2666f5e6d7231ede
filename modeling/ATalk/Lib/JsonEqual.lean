import ATalk.Lib.Json

/-!
# Equality of JSON values

Python compares the values that `json.loads` builds with `==`: two objects are equal when they have
the same keys with equal values, in whatever order. Sorting the keys decides it.

* `equal` : `a == b`;
* `sortKeys_idem` : sorting a second time changes nothing;
* `equal_iff_sortKeys` : for trees that name no key twice, equal means the same with sorted keys.
-/

namespace ATalk
namespace Json

open Text

mutual

/-- `a == b` -/
def equal : Json → Json → Bool
  | .null, .null => true
  | .bool a, .bool b => a = b
  | .num a, .num b => a = b
  | .str s, .str t => s = t
  | .arr xs, .arr ys => equalList xs ys
  | .obj ms, .obj ns => ms.length = ns.length && equalMembers ms ns
  | _, _ => false
termination_by structural j => j

def equalList : List Json → List Json → Bool
  | [], [] => true
  | x :: xs, y :: ys => equal x y && equalList xs ys
  | _, _ => false
termination_by structural xs => xs

/-- Every member of the first has an equal one in the second. -/
def equalMembers : List (Str × Json) → List (Str × Json) → Bool
  | [], _ => true
  | (k, x) :: ms, ns =>
    (match get k ns with
    | some y => equal x y
    | none => false) && equalMembers ms ns
termination_by structural ms => ms

end

/-! ## Members in any order -/

theorem length_sortKeysMembers (ms : List (Str × Json)) :
    (sortKeysMembers ms).length = ms.length := by
  have hkeys := congrArg List.length (keys_sortKeysMembers ms)
  unfold keys at hkeys
  rwa [List.length_map, List.length_map] at hkeys

theorem mem_sortKeysMembers {k : Str} {v : Json} {ms : List (Str × Json)} (h : (k, v) ∈ ms) :
    (k, sortKeys v) ∈ sortKeysMembers ms := by
  induction ms with
  | nil => cases h
  | cons m ms ih =>
    obtain ⟨k', x⟩ := m
    rw [sortKeysMembers]
    rcases List.mem_cons.mp h with heq | hmem
    · cases heq
      exact List.mem_cons_self
    · exact List.mem_cons_of_mem _ (ih hmem)

theorem exists_of_mem_sortKeysMembers {m : Str × Json} {ms : List (Str × Json)}
    (h : m ∈ sortKeysMembers ms) : ∃ x, (m.1, x) ∈ ms ∧ m.2 = sortKeys x := by
  induction ms with
  | nil => cases h
  | cons m' ms ih =>
    obtain ⟨k, x⟩ := m'
    rw [sortKeysMembers] at h
    rcases List.mem_cons.mp h with rfl | hmem
    · exact ⟨x, List.mem_cons_self, rfl⟩
    · obtain ⟨y, hy, hsame⟩ := ih hmem
      exact ⟨y, List.mem_cons_of_mem _ hy, hsame⟩

/-- With distinct keys there is one order in which the keys ascend. -/
theorem insertionSort_eq_of_perm {ms ns : List (Str × Json)} (hnodup : (keys ms).Nodup)
    (hperm : ms.Perm ns) : ms.insertionSort keyLe = ns.insertionSort keyLe := by
  have hleft := List.perm_insertionSort keyLe ms
  have hright := List.perm_insertionSort keyLe ns
  refine List.Perm.eq_of_pairwise (fun a b ha hb hab hba => ?_)
    (List.pairwise_insertionSort keyLe ms) (List.pairwise_insertionSort keyLe ns)
    (hleft.trans (hperm.trans hright.symm))
  have hkey : a.1 = b.1 := le_antisymm hab hba
  have hma : (a.1, a.2) ∈ ms := hleft.subset ha
  have hmb : (a.1, b.2) ∈ ms := by
    rw [hkey]
    exact hperm.symm.subset (hright.subset hb)
  have hvalue := (get_of_mem hnodup hma).symm.trans (get_of_mem hnodup hmb)
  exact Prod.ext hkey (Option.some.inj hvalue)

theorem sortKeysMembers_eq_map (ms : List (Str × Json)) :
    sortKeysMembers ms = ms.map fun m => (m.1, sortKeys m.2) := by
  induction ms with
  | nil => rfl
  | cons m ms ih =>
    rw [List.map_cons, ← ih]
    rfl

mutual

/-- Sorted keys stay as they are. -/
theorem sortKeys_idem : ∀ j : Json, Tidy j → sortKeys (sortKeys j) = sortKeys j
  | .null, _ | .bool _, _ | .num _, _ | .str _, _ => rfl
  | .arr xs, h => by
    rw [sortKeys, sortKeys, sortKeysList_idem xs h]
  | .obj ms, h => by
    have hkeys : (keys (sortKeysMembers ms)).Nodup := by
      rw [keys_sortKeysMembers]
      exact h.1
    have hperm := List.perm_insertionSort keyLe (sortKeysMembers ms)
    have hinner : (sortKeysMembers ((sortKeysMembers ms).insertionSort keyLe)).Perm
        (sortKeysMembers ms) := by
      rw [sortKeysMembers_eq_map (List.insertionSort _ _)]
      have hmap := hperm.map fun m : Str × Json => (m.1, sortKeys m.2)
      rw [← sortKeysMembers_eq_map (sortKeysMembers ms), sortKeysMembers_idem ms h.2] at hmap
      exact hmap
    exact congrArg Json.obj (insertionSort_eq_of_perm hkeys hinner.symm).symm

theorem sortKeysList_idem : ∀ xs : List Json, TidyList xs →
    sortKeysList (sortKeysList xs) = sortKeysList xs
  | [], _ => rfl
  | x :: xs, h => by
    rw [sortKeysList, sortKeysList, sortKeys_idem x h.1, sortKeysList_idem xs h.2]

theorem sortKeysMembers_idem : ∀ ms : List (Str × Json), TidyMembers ms →
    sortKeysMembers (sortKeysMembers ms) = sortKeysMembers ms
  | [], _ => rfl
  | (k, x) :: ms, h => by
    rw [sortKeysMembers, sortKeysMembers, sortKeys_idem x h.1, sortKeysMembers_idem ms h.2]

end

/-- Two objects have the same sorted members when their members match. -/
theorem sorted_eq_iff {ms ns : List (Str × Json)} (hms : (keys ms).Nodup) (hns : (keys ns).Nodup) :
    (sortKeysMembers ms).insertionSort keyLe = (sortKeysMembers ns).insertionSort keyLe ↔
      ms.length = ns.length ∧
        ∀ m ∈ ms, ∃ y, get m.1 ns = some y ∧ sortKeys m.2 = sortKeys y := by
  constructor
  · intro heq
    refine ⟨?_, fun m hm => ?_⟩
    · have hlength := congrArg List.length heq
      rwa [List.length_insertionSort, List.length_insertionSort, length_sortKeysMembers,
        length_sortKeysMembers] at hlength
    · have hget : (get m.1 ms).map sortKeys = (get m.1 ns).map sortKeys := by
        rw [← get_sorted hms, ← get_sorted hns, heq]
      rw [get_of_mem hms hm] at hget
      obtain ⟨y, hy, hsame⟩ := Option.map_eq_some_iff.mp hget.symm
      exact ⟨y, hy, hsame.symm⟩
  · rintro ⟨hlength, hmatch⟩
    have hnodup : (keys (sortKeysMembers ms)).Nodup := by
      rw [keys_sortKeysMembers]
      exact hms
    refine insertionSort_eq_of_perm hnodup ?_
    have hsub : sortKeysMembers ms ⊆ sortKeysMembers ns := by
      intro m hm
      obtain ⟨x, hx, hsame⟩ := exists_of_mem_sortKeysMembers hm
      obtain ⟨y, hy, hxy⟩ := hmatch _ hx
      have hmem := mem_sortKeysMembers (mem_of_get hy)
      rwa [← hxy, ← hsame] at hmem
    refine (List.subperm_of_subset (List.Nodup.of_map Prod.fst hnodup) hsub).perm_of_length_le ?_
    rw [length_sortKeysMembers, length_sortKeysMembers, hlength]

/-! ## Trees -/

mutual

/-- Two trees that name no key twice are equal when they are the same with sorted keys. -/
theorem equal_iff_sortKeys : ∀ a b : Json, Tidy a → Tidy b →
    (equal a b = true ↔ sortKeys a = sortKeys b)
  | .arr xs, .arr ys, ha, hb => by
    rw [equal, sortKeys, sortKeys, Json.arr.injEq]
    exact equalList_iff xs ys ha hb
  | .obj ms, .obj ns, ha, hb => by
    rw [equal, sortKeys, sortKeys, Json.obj.injEq, sorted_eq_iff ha.1 hb.1, Bool.and_eq_true,
      decide_eq_true_eq, equalMembers_iff ms ns ha.2 hb.2]
  | .null, .null, _, _ => by simp [equal]
  | .bool a, .bool b, _, _ => by simp [equal, sortKeys]
  | .str s, .str t, _, _ => by simp [equal, sortKeys]
  | .num _, _, ha, _ => ha.elim
  | .arr _, .null, _, _ | .arr _, .bool _, _, _ | .arr _, .num _, _, _ | .arr _, .str _, _, _
  | .arr _, .obj _, _, _ | .obj _, .null, _, _ | .obj _, .bool _, _, _ | .obj _, .num _, _, _
  | .obj _, .str _, _, _ | .obj _, .arr _, _, _ | .null, .bool _, _, _ | .null, .num _, _, _
  | .null, .str _, _, _ | .null, .arr _, _, _ | .null, .obj _, _, _ | .bool _, .null, _, _
  | .bool _, .num _, _, _ | .bool _, .str _, _, _ | .bool _, .arr _, _, _ | .bool _, .obj _, _, _
  | .str _, .null, _, _ | .str _, .bool _, _, _ | .str _, .num _, _, _ | .str _, .arr _, _, _
  | .str _, .obj _, _, _ => by simp [equal, sortKeys]
termination_by structural a => a

theorem equalList_iff : ∀ xs ys : List Json, TidyList xs → TidyList ys →
    (equalList xs ys = true ↔ sortKeysList xs = sortKeysList ys)
  | [], [], _, _ => by simp [equalList]
  | [], _ :: _, _, _ | _ :: _, [], _, _ => by simp [equalList, sortKeysList]
  | x :: xs, y :: ys, hx, hy => by
    rw [equalList, sortKeysList, sortKeysList, List.cons.injEq, Bool.and_eq_true,
      equal_iff_sortKeys x y hx.1 hy.1, equalList_iff xs ys hx.2 hy.2]
termination_by structural xs => xs

theorem equalMembers_iff : ∀ ms ns : List (Str × Json), TidyMembers ms → TidyMembers ns →
    (equalMembers ms ns = true ↔
      ∀ m ∈ ms, ∃ y, get m.1 ns = some y ∧ sortKeys m.2 = sortKeys y)
  | [], _, _, _ => by simp [equalMembers]
  | (k, x) :: ms, ns, hms, hns => by
    rw [equalMembers, Bool.and_eq_true, equalMembers_iff ms ns hms.2 hns, List.forall_mem_cons]
    refine and_congr_left fun _ => ?_
    cases hget : get k ns with
    | none => simp
    | some y =>
      have hy : Tidy y := tidyMembers_iff.mp hns _ (mem_of_get hget)
      simp only [Option.some.injEq, exists_eq_left', equal_iff_sortKeys x y hms.1 hy]
termination_by structural ms => ms

end

end Json
end ATalk
