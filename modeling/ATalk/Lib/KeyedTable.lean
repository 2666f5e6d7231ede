import Mathlib.Data.List.Sort
import Mathlib.Data.List.Nodup
import Mathlib.Order.Defs.LinearOrder

/-!
# Tables with a key

The rows of a table in the order they were inserted, no two of them with one key. A row is inserted,
or it takes the place of the one with its key; a listing is in the order of the keys.

* `filter_key_eq` : the one row with a key;
* `Keyed` : the tables;
* `Keyed.get`, `Keyed.insert`, `Keyed.upsert`, `Keyed.remove`, `Keyed.listing` : what is done with
  them;
* `mem_upsertAll` : the rows after some of them were put in place;
* `listing_eq_iff` : tables with one listing hold the same rows.
-/

namespace ATalk
namespace KeyedTable

variable {ρ κ : Type} [LinearOrder κ] {key : ρ → κ}

omit [LinearOrder κ] in
/-- The one row with the key of a row. -/
theorem filter_key_eq [DecidableEq κ] {rows : List ρ} {r : ρ} (h : (rows.map key).Nodup)
    (hr : r ∈ rows) : (rows.filter fun x => key x = key r) = [r] := by
  induction rows with
  | nil => cases hr
  | cons x rows ih =>
    rw [List.map_cons, List.nodup_cons] at h
    have hother : ∀ y ∈ rows, key y ≠ key x := fun y hy hsame =>
      h.1 (hsame ▸ List.mem_map_of_mem hy)
    rcases List.mem_cons.mp hr with rfl | hr
    · rw [List.filter_cons_of_pos (by simp), List.filter_eq_nil_iff.mpr fun y hy => by
        simpa using hother y hy]
    · rw [List.filter_cons_of_neg (by simpa using (hother r hr).symm)]
      exact ih h.2 hr

/-- No two rows have the same key. -/
structure Keyed (key : ρ → κ) where
  rows : List ρ
  unique : (rows.map key).Nodup

namespace Keyed

variable {T T' : Keyed key} {r x : ρ} {rs : List ρ}

omit [LinearOrder κ] in
theorem eq_of_key (T : Keyed key) {x y : ρ} (hx : x ∈ T.rows) (hy : y ∈ T.rows)
    (h : key x = key y) : x = y :=
  List.inj_on_of_nodup_map T.unique hx hy h

omit [LinearOrder κ] in
theorem nodup (T : Keyed key) : T.rows.Nodup := .of_map key T.unique

/-- A table without rows. -/
def empty : Keyed key := ⟨[], List.nodup_nil⟩

/-- `SELECT .. ORDER BY` the key. -/
def listing (T : Keyed key) : List ρ := T.rows.insertionSort fun x y => key x ≤ key y

/-- A new row; `none` where its key is taken. -/
def insert (T : Keyed key) (r : ρ) : Option (Keyed key) :=
  if h : key r ∈ T.rows.map key then none
  else some ⟨T.rows ++ [r], by
    rw [List.map_append, List.map_singleton, ← List.concat_eq_append]
    exact T.unique.concat h⟩

/-- A row in the place of the one with its key, or behind all others. -/
def upsert (T : Keyed key) (r : ρ) : Keyed key :=
  if h : key r ∈ T.rows.map key then
    ⟨T.rows.map fun x => if key x = key r then r else x, by
      have hkeys : (T.rows.map fun x => if key x = key r then r else x).map key = T.rows.map key := by
        rw [List.map_map]
        refine List.map_congr_left fun x _ => ?_
        show key (if key x = key r then r else x) = key x
        split_ifs with hx
        · exact hx.symm
        · rfl
      rw [hkeys]
      exact T.unique⟩
  else
    ⟨T.rows ++ [r], by
      rw [List.map_append, List.map_singleton, ← List.concat_eq_append]
      exact T.unique.concat h⟩

theorem insert_rows (h : T.insert r = some T') : T'.rows = T.rows ++ [r] := by
  unfold insert at h
  split_ifs at h
  cases h
  rfl

theorem mem_upsert : x ∈ (T.upsert r).rows ↔ x = r ∨ x ∈ T.rows ∧ key x ≠ key r := by
  unfold upsert
  split_ifs with hkey
  · rw [List.mem_map]
    constructor
    · rintro ⟨y, hy, hx⟩
      split_ifs at hx with hsame
      · exact .inl hx.symm
      · rw [← hx]
        exact .inr ⟨hy, hsame⟩
    · rintro (rfl | ⟨hx, hne⟩)
      · obtain ⟨y, hy, hsame⟩ := List.mem_map.mp hkey
        exact ⟨y, hy, if_pos hsame⟩
      · exact ⟨x, hx, if_neg hne⟩
  · rw [List.mem_append, List.mem_singleton]
    constructor
    · rintro (hx | rfl)
      · refine .inr ⟨hx, fun hsame => hkey ?_⟩
        rw [← hsame]
        exact List.mem_map_of_mem hx
      · exact .inl rfl
    · rintro (rfl | ⟨hx, -⟩)
      · exact .inr rfl
      · exact .inl hx

omit [LinearOrder κ] in
theorem nodup_filter (T : Keyed key) (p : ρ → Bool) : ((T.rows.filter p).map key).Nodup :=
  T.unique.sublist (List.filter_sublist.map key)

/-- The row of a key. -/
def get (T : Keyed key) (k : κ) : Option ρ := T.rows.find? fun x => key x = k

/-- All rows but the one of a key. -/
def remove (T : Keyed key) (k : κ) : Keyed key :=
  ⟨T.rows.filter fun x => key x ≠ k, T.nodup_filter _⟩

theorem get_eq_some {k : κ} : T.get k = some r ↔ r ∈ T.rows ∧ key r = k := by
  unfold get
  constructor
  · intro h
    exact ⟨List.mem_of_find?_eq_some h, by simpa using List.find?_some h⟩
  · rintro ⟨hr, hkey⟩
    cases hfind : T.rows.find? fun x => key x = k with
    | none =>
      have hnone := List.find?_eq_none.mp hfind r hr
      simp [hkey] at hnone
    | some x =>
      have hx : key x = k := by simpa using List.find?_some hfind
      rw [T.eq_of_key (List.mem_of_find?_eq_some hfind) hr (hx.trans hkey.symm)]

theorem mem_remove {k : κ} : x ∈ (T.remove k).rows ↔ x ∈ T.rows ∧ key x ≠ k := by
  unfold remove
  rw [List.mem_filter, decide_eq_true_iff]

/-- Rows put in place one after the other. -/
def upsertAll (T : Keyed key) (rs : List ρ) : Keyed key := rs.foldl upsert T

/-- When a key stands for one of them, they are all there, with the rows that have other keys. -/
theorem mem_upsertAll (hrs : ∀ x ∈ rs, ∀ y ∈ rs, key x = key y → x = y) :
    x ∈ (T.upsertAll rs).rows ↔ x ∈ rs ∨ x ∈ T.rows ∧ key x ∉ rs.map key := by
  induction rs generalizing T with
  | nil => simp [upsertAll]
  | cons r rs ih =>
    have htail : ∀ x ∈ rs, ∀ y ∈ rs, key x = key y → x = y := fun x hx y hy =>
      hrs x (List.mem_cons_of_mem _ hx) y (List.mem_cons_of_mem _ hy)
    show x ∈ ((T.upsert r).upsertAll rs).rows ↔ _
    rw [ih htail, mem_upsert, List.map_cons, List.mem_cons, List.mem_cons, not_or]
    constructor
    · rintro (hx | ⟨rfl | ⟨hx, hne⟩, hkey⟩)
      · exact .inl (.inr hx)
      · exact .inl (.inl rfl)
      · exact .inr ⟨hx, hne, hkey⟩
    · rintro ((rfl | hx) | ⟨hx, hne, hkey⟩)
      · -- the row is put in place again, or no later one has its key
        by_cases hkey : key x ∈ rs.map key
        · obtain ⟨y, hy, hsame⟩ := List.mem_map.mp hkey
          have hyx := hrs y (List.mem_cons_of_mem _ hy) x List.mem_cons_self hsame
          exact .inl (hyx ▸ hy)
        · exact .inr ⟨.inl rfl, hkey⟩
      · exact .inl hx
      · exact .inr ⟨.inr ⟨hx, hne⟩, hkey⟩

theorem upsertAll_append (T : Keyed key) (rs rs' : List ρ) :
    T.upsertAll (rs ++ rs') = (T.upsertAll rs).upsertAll rs' := List.foldl_append

theorem listing_perm (T : Keyed key) : T.listing.Perm T.rows := List.perm_insertionSort _ _

theorem mem_listing : x ∈ T.listing ↔ x ∈ T.rows := T.listing_perm.mem_iff

theorem listing_sorted (T : Keyed key) : T.listing.Pairwise fun x y => key x ≤ key y := by
  have htotal : Std.Total fun x y : ρ => key x ≤ key y := ⟨fun x y => le_total _ _⟩
  have htrans : IsTrans ρ fun x y => key x ≤ key y := ⟨fun _ _ _ => le_trans⟩
  exact List.pairwise_insertionSort _ _

/-- Tables with one listing hold the same rows. -/
theorem listing_eq_iff : T.listing = T'.listing ↔ ∀ x, x ∈ T.rows ↔ x ∈ T'.rows := by
  constructor
  · intro h x
    rw [← mem_listing, h, mem_listing]
  · intro h
    have hperm : T.listing.Perm T'.listing := by
      refine (T.listing_perm.trans ?_).trans T'.listing_perm.symm
      exact (List.perm_ext_iff_of_nodup T.nodup T'.nodup).mpr h
    refine List.Perm.eq_of_pairwise (fun x y hx hy hle hge => ?_) T.listing_sorted T'.listing_sorted
      hperm
    have hx' : x ∈ T'.rows := (h x).mp (mem_listing.mp hx)
    exact T'.eq_of_key hx' (mem_listing.mp hy) (le_antisymm hle hge)

end Keyed

end KeyedTable
end ATalk
