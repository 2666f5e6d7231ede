import Mathlib.Data.Finset.Card
import Mathlib.Data.Nat.ModEq

/-!
# A scan by pages with a position that lasts

A table is read a page at a time, in the order of its keys and after a position. A call reads a
number of pages; the position lasts from call to call and goes back to the start when a page is not
full. The table may change between two reads.

* `PageOf` : the first keys after a position;
* `Call`, `Call.cases` : the reads of a call, and what they come to;
* `Run.covered_of_sweep` : a sweep from the start to the end has read every key that was there;
* `Run.covered` : when no key is added, every key that stays is read soon.
-/

namespace ATalk
namespace Sweep

variable {κ : Type} [LinearOrder κ]

/-- The key comes after the position; the start is no position. -/
def After (pos : Option κ) (k : κ) : Prop := ∀ p, pos = some p → p < k

instance (pos : Option κ) (k : κ) : Decidable (After pos k) :=
  inferInstanceAs (Decidable (∀ p ∈ pos, p < k))

theorem after_none (k : κ) : After none k := nofun

theorem after_some {p k : κ} : After (some p) k ↔ p < k :=
  ⟨fun h => h p rfl, fun h q hq => by rw [← Option.some.inj hq]; exact h⟩

/-- The first keys of a table after a position, at most `limit` of them. -/
structure PageOf (limit : ℕ) (table : Finset κ) (pos : Option κ) (page : Finset κ) : Prop where
  mem : ∀ k ∈ page, k ∈ table ∧ After pos k
  card_le : page.card ≤ limit
  full : ∀ k ∈ table, After pos k → k ∉ page → page.card = limit ∧ ∀ j ∈ page, j < k

/-- A call that may read so many pages: the tables that it sees, the keys that it reads, and the
positions before and after it. -/
inductive Call (limit : ℕ) : ℕ → Option κ → List (Finset κ) → Finset κ → Option κ → Prop
  | budget (pos : Option κ) : Call limit 0 pos [] ∅ pos
  | wrap {pages : ℕ} {pos : Option κ} {table page : Finset κ} (hpage : PageOf limit table pos page)
      (hshort : page.card < limit) : Call limit (pages + 1) pos [table] page none
  | full {pages : ℕ} {pos pos' : Option κ} {table page rest : Finset κ}
      {tables : List (Finset κ)} {last : κ} (hpage : PageOf limit table pos page)
      (hfull : page.card = limit) (hlast : last ∈ page) (hle : ∀ k ∈ page, k ≤ last)
      (hrest : Call limit pages (some last) tables rest pos') :
      Call limit (pages + 1) pos (table :: tables) (page ∪ rest) pos'

variable {limit pages : ℕ} {pos pos' : Option κ} {tables : List (Finset κ)} {read : Finset κ}

/-- A full page and what a further call reads. -/
theorem Call.of_full {table page rest : Finset κ} {last : κ} (hpage : PageOf limit table pos page)
    (hfull : page.card = limit) (hlast : last ∈ page) (hle : ∀ k ∈ page, k ≤ last)
    (hrest : Call limit pages (some last) tables rest pos')
    (hread : ∀ k, k ∈ read ↔ k ∈ page ∨ k ∈ rest) :
    Call limit (pages + 1) pos (table :: tables) read pos' := by
  have hunion : read = page ∪ rest := by
    ext k
    rw [hread, Finset.mem_union]
  rw [hunion]
  exact .full hpage hfull hlast hle hrest

/-- What a call reads is in the tables that it sees, after its position. -/
theorem Call.mem (h : Call limit pages pos tables read pos') :
    ∀ k ∈ read, After pos k ∧ ∃ table ∈ tables, k ∈ table := by
  induction h with
  | budget pos =>
    intro k hk
    exact absurd hk (Finset.notMem_empty k)
  | wrap hpage hshort =>
    intro k hk
    exact ⟨(hpage.mem k hk).2, _, List.mem_singleton_self _, (hpage.mem k hk).1⟩
  | @full pages pos pos' table page rest tables last hpage hfull hlast hle hrest ih =>
    intro k hk
    rcases Finset.mem_union.mp hk with hfirst | hlater
    · exact ⟨(hpage.mem k hfirst).2, _, List.mem_cons_self, (hpage.mem k hfirst).1⟩
    · obtain ⟨hafter, table', htable', hmem⟩ := ih k hlater
      refine ⟨fun p hp => ?_, table', List.mem_cons_of_mem _ htable', hmem⟩
      exact ((hpage.mem last hlast).2 p hp).trans (after_some.mp hafter)

/-- A call that goes on where it stopped: all its pages are full, and it misses a key that stays
only when the position does not reach it. -/
structure Goes (limit pages : ℕ) (pos : Option κ) (tables : List (Finset κ)) (read : Finset κ)
    (pos' : Option κ) : Prop where
  card : read.card = limit * pages
  after : ∀ k, After pos' k → After pos k
  passed : ∀ k ∈ read, ¬ After pos' k
  waits : ∀ k, (∀ table ∈ tables, k ∈ table) → After pos k → k ∉ read →
    After pos' k ∧ ∀ j ∈ read, j < k
  position : pages ≠ 0 → pos' ≠ none

/-- A call wraps around, and has then read every key that stayed after its position, or goes on. -/
theorem Call.cases (h : Call limit pages pos tables read pos') :
    (pos' = none ∧ ∀ k, (∀ table ∈ tables, k ∈ table) → After pos k → k ∈ read) ∨
      Goes limit pages pos tables read pos' := by
  induction h with
  | budget pos =>
    right
    refine ⟨by rw [Finset.card_empty, Nat.mul_zero], fun k hk => hk, ?_, ?_, fun h => absurd rfl h⟩
    · intro k hk
      exact absurd hk (Finset.notMem_empty k)
    · intro k _ hafter _
      exact ⟨hafter, fun j hj => absurd hj (Finset.notMem_empty j)⟩
  | @wrap pages pos table page hpage hshort =>
    left
    refine ⟨rfl, fun k hk hafter => ?_⟩
    by_contra hmiss
    have hfull := (hpage.full k (hk table (List.mem_singleton_self _)) hafter hmiss).1
    omega
  | @full pages pos pos' table page rest tables last hpage hfull hlast hle hrest ih =>
    -- a key that the page misses comes after the whole page
    have hbehind : ∀ k, (∀ t ∈ table :: tables, k ∈ t) → After pos k → k ∉ page →
        (∀ j ∈ page, j < k) ∧ After (some last) k := by
      intro k hk hafter hmiss
      have hlt := (hpage.full k (hk table List.mem_cons_self) hafter hmiss).2
      exact ⟨hlt, after_some.mpr (hlt last hlast)⟩
    rcases ih with ⟨hwrapped, hall⟩ | hgoes
    · left
      refine ⟨hwrapped, fun k hk hafter => ?_⟩
      by_cases hmem : k ∈ page
      · exact Finset.mem_union_left _ hmem
      · refine Finset.mem_union_right _ (hall k ?_ (hbehind k hk hafter hmem).2)
        exact fun t ht => hk t (List.mem_cons_of_mem _ ht)
    · right
      have hdisjoint : Disjoint page rest := by
        rw [Finset.disjoint_left]
        intro k hk hk'
        exact absurd (after_some.mp (hrest.mem k hk').1) (not_lt.mpr (hle k hk))
      refine ⟨?_, ?_, ?_, ?_, ?_⟩
      · rw [Finset.card_union_of_disjoint hdisjoint, hfull, hgoes.card, Nat.mul_succ, Nat.add_comm]
      · intro k hk p hp
        exact ((hpage.mem last hlast).2 p hp).trans (after_some.mp (hgoes.after k hk))
      · intro k hk
        rcases Finset.mem_union.mp hk with hfirst | hlater
        · intro hafter
          exact absurd (after_some.mp (hgoes.after k hafter)) (not_lt.mpr (hle k hfirst))
        · exact hgoes.passed k hlater
      · intro k hk hafter hmiss
        rw [Finset.mem_union, not_or] at hmiss
        obtain ⟨hlt, hlast'⟩ := hbehind k hk hafter hmiss.1
        obtain ⟨hafter', hlt'⟩ :=
          hgoes.waits k (fun t ht => hk t (List.mem_cons_of_mem _ ht)) hlast' hmiss.2
        refine ⟨hafter', fun j hj => ?_⟩
        rcases Finset.mem_union.mp hj with hfirst | hlater
        · exact hlt j hfirst
        · exact hlt' j hlater
      · intro _ hnone
        -- the position is at least the last key of the page
        have hlast' := hgoes.after last (by rw [hnone]; exact after_none last)
        exact lt_irrefl last (after_some.mp hlast')

/-! ## Runs -/

/-- Calls one after the other. -/
structure Run (κ : Type) [LinearOrder κ] (limit pages : ℕ) where
  pos : ℕ → Option κ
  tables : ℕ → List (Finset κ)
  read : ℕ → Finset κ
  call : ∀ i, Call limit pages (pos i) (tables i) (read i) (pos (i + 1))

namespace Run

variable {run : Run κ limit pages} {x : κ}

/-- The key is in every table that the calls see. -/
def Stays (run : Run κ limit pages) (x : κ) (first last : ℕ) : Prop :=
  ∀ i, first ≤ i → i < last → ∀ table ∈ run.tables i, x ∈ table

/-- A sweep that starts at the start and ends by wrapping around has read every key that stayed. -/
theorem covered_of_sweep (run : Run κ limit pages) (hpages : pages ≠ 0) {first last : ℕ}
    (hlt : first < last)
    (hstart : After (run.pos first) x) (hend : run.pos last = none)
    (hstays : run.Stays x first last) : ∃ i, first ≤ i ∧ i < last ∧ x ∈ run.read i := by
  by_contra hmiss
  have hnever : ∀ i, first ≤ i → i < last → x ∉ run.read i :=
    fun i hi hil hmem => hmiss ⟨i, hi, hil, hmem⟩
  -- the position stays in front of the key, and is one after every call
  have hahead : ∀ i, first ≤ i → i < last →
      After (run.pos i) x ∧ After (run.pos (i + 1)) x ∧ run.pos (i + 1) ≠ none := by
    intro i hi
    induction i, hi using Nat.le_induction with
    | base =>
      intro hil
      rcases (run.call first).cases with ⟨-, hall⟩ | hgoes
      · exact absurd (hall x (hstays first le_rfl hil) hstart) (hnever first le_rfl hil)
      · exact ⟨hstart, (hgoes.waits x (hstays first le_rfl hil) hstart
          (hnever first le_rfl hil)).1, hgoes.position hpages⟩
    | succ i hi ih =>
      intro hil
      have hbefore := (ih (Nat.lt_of_succ_lt hil)).2.1
      have hi' : first ≤ i + 1 := Nat.le_succ_of_le hi
      rcases (run.call (i + 1)).cases with ⟨-, hall⟩ | hgoes
      · exact absurd (hall x (hstays _ hi' hil) hbefore) (hnever _ hi' hil)
      · exact ⟨hbefore, (hgoes.waits x (hstays _ hi' hil) hbefore (hnever _ hi' hil)).1,
          hgoes.position hpages⟩
  have hone : last - 1 + 1 = last := by omega
  have hlast := (hahead (last - 1) (by omega) (by omega)).2.2
  rw [hone] at hlast
  exact hlast hend

/-! ### No key is added -/

variable {all : Finset κ}

/-- No table has a key besides these. -/
def Within (run : Run κ limit pages) (all : Finset κ) : Prop :=
  ∀ i, ∀ table ∈ run.tables i, table ⊆ all

/-- The keys between the position and `x`. -/
def ahead (all : Finset κ) (pos : Option κ) (x : κ) : Finset κ :=
  all.filter fun k => After pos k ∧ k < x

/-- The keys after the position. -/
def behind (all : Finset κ) (pos : Option κ) : Finset κ := all.filter fun k => After pos k

theorem mem_ahead {pos : Option κ} {k : κ} :
    k ∈ ahead all pos x ↔ k ∈ all ∧ After pos k ∧ k < x := by
  rw [ahead, Finset.mem_filter]

theorem mem_behind {pos : Option κ} {k : κ} : k ∈ behind all pos ↔ k ∈ all ∧ After pos k := by
  rw [behind, Finset.mem_filter]

theorem read_subset (hwithin : run.Within all) (i : ℕ) : run.read i ⊆ all := by
  intro k hk
  obtain ⟨-, table, htable, hmem⟩ := (run.call i).mem k hk
  exact hwithin i table htable hmem

/-- A call that misses a key after its position takes its pages off the keys in between. -/
theorem card_ahead (hwithin : run.Within all) {i : ℕ}
    (hgoes : Goes limit pages (run.pos i) (run.tables i) (run.read i) (run.pos (i + 1)))
    (hlt : ∀ j ∈ run.read i, j < x) :
    (ahead all (run.pos (i + 1)) x).card + limit * pages ≤ (ahead all (run.pos i) x).card := by
  rw [← hgoes.card, ← Finset.card_union_of_disjoint]
  · refine Finset.card_le_card fun k hk => mem_ahead.mpr ?_
    rcases Finset.mem_union.mp hk with hlater | hread
    · obtain ⟨hall, hafter, hltx⟩ := mem_ahead.mp hlater
      exact ⟨hall, hgoes.after k hafter, hltx⟩
    · exact ⟨read_subset hwithin i hread, ((run.call i).mem k hread).1, hlt k hread⟩
  · rw [Finset.disjoint_left]
    intro k hk hread
    exact hgoes.passed k hread (mem_ahead.mp hk).2.1

theorem card_behind (hwithin : run.Within all) {i : ℕ}
    (hgoes : Goes limit pages (run.pos i) (run.tables i) (run.read i) (run.pos (i + 1))) :
    (behind all (run.pos (i + 1))).card + limit * pages ≤ (behind all (run.pos i)).card := by
  rw [← hgoes.card, ← Finset.card_union_of_disjoint]
  · refine Finset.card_le_card fun k hk => mem_behind.mpr ?_
    rcases Finset.mem_union.mp hk with hlater | hread
    · obtain ⟨hall, hafter⟩ := mem_behind.mp hlater
      exact ⟨hall, hgoes.after k hafter⟩
    · exact ⟨read_subset hwithin i hread, ((run.call i).mem k hread).1⟩
  · rw [Finset.disjoint_left]
    intro k hk hread
    exact hgoes.passed k hread (mem_behind.mp hk).2

/-- One call less for the keys that a call has read. -/
theorem div_step (i : ℕ) {n m b : ℕ} (hb : 0 < b) (hle : m + b ≤ n) :
    i + 1 + m / b ≤ i + n / b := by
  have hdiv : m / b + 1 ≤ n / b := by
    rw [← Nat.add_div_right m hb]
    exact Nat.div_le_div_right hle
  omega

/-- A key after the position is read before the calls could read more than the keys in between. -/
theorem read_of_after {budget : ℕ} (hbudget : limit * pages = budget) (hpos : 0 < budget)
    (hwithin : run.Within all) : ∀ n i, (ahead all (run.pos i) x).card = n →
      After (run.pos i) x → run.Stays x i (i + n / budget + 1) →
      ∃ j, i ≤ j ∧ j ≤ i + n / budget ∧ x ∈ run.read j := by
  intro n
  induction n using Nat.strong_induction_on with
  | _ n ih =>
    intro i hn hafter hstays
    by_cases hread : x ∈ run.read i
    · exact ⟨i, le_rfl, Nat.le_add_right _ _, hread⟩
    · have hhere := hstays i le_rfl (Nat.lt_succ_of_le (Nat.le_add_right _ _))
      rcases (run.call i).cases with ⟨-, hall⟩ | hgoes
      · exact absurd (hall x hhere hafter) hread
      · obtain ⟨hafter', hlt⟩ := hgoes.waits x hhere hafter hread
        have hcard := card_ahead hwithin hgoes hlt
        rw [hn, hbudget] at hcard
        have hstep := div_step i hpos hcard
        obtain ⟨j, hij, hj, hmem⟩ := ih _ (by omega) (i + 1) rfl hafter'
          fun k hk hkl => hstays k (by omega) (by omega)
        exact ⟨j, by omega, by omega, hmem⟩

/-- The position is back at the start before the calls could read more than the keys after it. -/
theorem wraps {budget : ℕ} (hbudget : limit * pages = budget) (hpos : 0 < budget)
    (hwithin : run.Within all) : ∀ n i, (behind all (run.pos i)).card = n →
      ∃ j, i ≤ j ∧ j ≤ i + n / budget ∧ run.pos (j + 1) = none := by
  intro n
  induction n using Nat.strong_induction_on with
  | _ n ih =>
    intro i hn
    rcases (run.call i).cases with ⟨hwrapped, -⟩ | hgoes
    · exact ⟨i, le_rfl, Nat.le_add_right _ _, hwrapped⟩
    · have hcard := card_behind hwithin hgoes
      rw [hn, hbudget] at hcard
      have hstep := div_step i hpos hcard
      obtain ⟨j, hij, hj, hwrapped⟩ := ih _ (by omega) (i + 1) rfl
      exact ⟨j, by omega, by omega, hwrapped⟩

/-- When no key is added, a key that stays is read within two calls more than all keys fill. -/
theorem covered {budget : ℕ} (hbudget : limit * pages = budget) (hpos : 0 < budget)
    (hwithin : run.Within all) (hstays : run.Stays x 0 (all.card / budget + 2)) :
    ∃ i, i < all.card / budget + 2 ∧ x ∈ run.read i := by
  by_cases hafter : After (run.pos 0) x
  · have hle : (ahead all (run.pos 0) x).card ≤ all.card :=
      Finset.card_le_card fun k hk => (mem_ahead.mp hk).1
    have hdiv := Nat.div_le_div_right (c := budget) hle
    obtain ⟨j, -, hj, hread⟩ := read_of_after hbudget hpos hwithin _ 0 rfl hafter
      fun k hk hkl => hstays k hk (by omega)
    exact ⟨j, by omega, hread⟩
  · -- around once, and then up to the key
    obtain ⟨j, -, hj, hwrapped⟩ := wraps hbudget hpos hwithin _ 0 rfl
    have hsum :
        (behind all (run.pos 0)).card + (ahead all (run.pos (j + 1)) x).card ≤ all.card := by
      rw [← Finset.card_union_of_disjoint]
      · refine Finset.card_le_card fun k hk => ?_
        rcases Finset.mem_union.mp hk with hbehind | hahead
        · exact (mem_behind.mp hbehind).1
        · exact (mem_ahead.mp hahead).1
      · rw [Finset.disjoint_left]
        intro k hk hk'
        refine hafter fun p hp => ?_
        exact ((mem_behind.mp hk).2 p hp).trans (mem_ahead.mp hk').2.2
    have hdiv := Nat.div_le_div_right (c := budget) hsum
    have hadd : (behind all (run.pos 0)).card / budget +
        (ahead all (run.pos (j + 1)) x).card / budget ≤
          ((behind all (run.pos 0)).card + (ahead all (run.pos (j + 1)) x).card) / budget :=
      Nat.div_add_div_le_add_div
    have hstart : After (run.pos (j + 1)) x := by
      rw [hwrapped]
      exact after_none x
    obtain ⟨i, -, hi, hread⟩ := read_of_after hbudget hpos hwithin _ (j + 1) rfl hstart
      fun k hk hkl => hstays k (Nat.zero_le k) (by omega)
    exact ⟨i, by omega, hread⟩

end Run

end Sweep
end ATalk
