import Mathlib.Data.List.Infix
import Mathlib.Order.Defs.LinearOrder
import Mathlib.Order.Basic
import Mathlib.Order.Lattice
import Mathlib.Order.MinMax

/-!
# Reading a log by a cursor

A log grows at its end, by entries with ever larger keys. A reader asks for pages: the first few
entries behind its cursor among those that are shown, and it moves the cursor to the last entry of
the page. Which entries are shown may change from page to page.

* `Page`, `Page.Serves` : a page, and what it holds;
* `Reads` : the log and the pages read so far;
* `Reads.ascending`, `Reads.mem_returned` : the entries come in order and once, and up to the cursor
  exactly those that were shown on the page that passed them;
* `Progress` : a worker goes through a page, and moves its cursor entry by entry;
* `Settled` : what lies before its cursor has been dealt with.
-/

namespace ATalk
namespace Cursor

variable {ρ κ : Type} [LinearOrder κ] {key : ρ → κ}

/-- The keys of a log rise. -/
def Ascending (key : ρ → κ) (log : List ρ) : Prop := log.Pairwise fun x y => key x < key y

theorem Ascending.append_one {log : List ρ} {x : ρ} (h : Ascending key log)
    (hx : ∀ y ∈ log, key y < key x) : Ascending key (log ++ [x]) := by
  refine List.pairwise_append.mpr ⟨h, List.pairwise_singleton .., fun y hy z hz => ?_⟩
  rw [List.mem_singleton.mp hz]
  exact hx y hy

/-- A key stands for one entry. -/
theorem Ascending.eq_of_key {log : List ρ} {x y : ρ} (h : Ascending key log) (hx : x ∈ log)
    (hy : y ∈ log) (hkey : key x = key y) : x = y := by
  induction log with
  | nil => cases hx
  | cons z log ih =>
    obtain ⟨hz, hlog⟩ := List.pairwise_cons.mp h
    rcases List.mem_cons.mp hx with hxz | hxs
    · rcases List.mem_cons.mp hy with hyz | hys
      · rw [hxz, hyz]
      · exact absurd (hxz ▸ hkey) (hz y hys).ne
    · rcases List.mem_cons.mp hy with hyz | hys
      · exact absurd (hyz ▸ hkey).symm (hz x hxs).ne
      · exact ih hlog hxs hys

/-- The first entries of a log are all of its entries up to the last of them. -/
theorem mem_take_of_le {log : List ρ} {n : ℕ} {x y : ρ} (h : Ascending key log) (hx : x ∈ log)
    (hy : y ∈ log.take n) (hle : key x ≤ key y) : x ∈ log.take n := by
  rw [← List.take_append_drop n log] at h hx
  rcases List.mem_append.mp hx with hx | hx
  · exact hx
  · have hlt := (List.pairwise_append.mp h).2.2 y hy x hx
    exact absurd hle (not_le.mpr hlt)

/-- A page: the log when it was read, the cursor it was asked with, the entries shown at that time,
and the entries returned. -/
structure Page (ρ κ : Type) where
  log : List ρ
  since : κ
  shown : ρ → Bool
  rows : List ρ

namespace Page

/-- The cursor after the page. -/
def next (key : ρ → κ) (p : Page ρ κ) : κ :=
  match p.rows.getLast? with
  | none => p.since
  | some row => key row

/-- The page passed the entry. -/
def Passes (key : ρ → κ) (p : Page ρ κ) (row : ρ) : Prop := p.since < key row ∧ key row ≤ p.next key

/-- The entries behind the cursor that are shown. -/
def candidates (key : ρ → κ) (p : Page ρ κ) : List ρ :=
  p.log.filter fun row => decide (p.since < key row) && p.shown row

/-- The page holds the first few of them, at least one. -/
def Serves (key : ρ → κ) (p : Page ρ κ) : Prop :=
  ∃ limit, 0 < limit ∧ p.rows = (p.candidates key).take limit

variable {p : Page ρ κ} {row : ρ}

theorem mem_candidates :
    row ∈ p.candidates key ↔ row ∈ p.log ∧ p.since < key row ∧ p.shown row = true := by
  simp only [candidates, List.mem_filter, Bool.and_eq_true, decide_eq_true_eq]

theorem candidates_ascending (h : Ascending key p.log) : Ascending key (p.candidates key) :=
  List.Pairwise.filter _ h

theorem Serves.sublist (h : p.Serves key) : p.rows.Sublist (p.candidates key) := by
  obtain ⟨limit, -, hrows⟩ := h
  rw [hrows]
  exact List.take_sublist _ _

theorem Serves.mem (h : p.Serves key) (hrow : row ∈ p.rows) :
    row ∈ p.log ∧ p.since < key row ∧ p.shown row = true :=
  mem_candidates.mp (h.sublist.subset hrow)

/-- No entry of a page is behind its last one. -/
theorem Serves.le_next (h : p.Serves key) (hlog : Ascending key p.log) (hrow : row ∈ p.rows) :
    key row ≤ p.next key := by
  have hrows : Ascending key p.rows := (candidates_ascending hlog).sublist h.sublist
  rcases List.eq_nil_or_concat p.rows with hnil | ⟨front, last, hlast⟩
  · rw [hnil] at hrow
    cases hrow
  · rw [List.concat_eq_append] at hlast
    have hnext : p.next key = key last := by
      unfold next
      rw [hlast, List.getLast?_concat]
    rw [hlast] at hrow hrows
    rw [hnext]
    rcases List.mem_append.mp hrow with hfront | hsame
    · exact ((List.pairwise_append.mp hrows).2.2 row hfront last (List.mem_singleton_self _)).le
    · rw [List.mem_singleton.mp hsame]

/-- The cursor of a page is the one it was asked with, or the key of an entry. -/
theorem Serves.next_cases (h : p.Serves key) : p.rows = [] ∧ p.next key = p.since ∨
    ∃ last ∈ p.rows, p.next key = key last ∧ last ∈ p.log ∧ p.since < key last := by
  unfold next
  cases hlast : p.rows.getLast? with
  | none => exact .inl ⟨List.getLast?_eq_none_iff.mp hlast, rfl⟩
  | some last =>
    have hmem := List.mem_of_getLast? hlast
    exact .inr ⟨last, hmem, rfl, (h.mem hmem).1, (h.mem hmem).2.1⟩

theorem Serves.since_le (h : p.Serves key) : p.since ≤ p.next key := by
  rcases h.next_cases with ⟨-, hnext⟩ | ⟨last, -, hnext, -, hlt⟩
  · exact hnext.ge
  · exact hnext ▸ hlt.le

/-- Of the entries it passed the page holds those that were shown. -/
theorem Serves.mem_iff (h : p.Serves key) (hlog : Ascending key p.log) (hrow : row ∈ p.log)
    (hpasses : p.Passes key row) : row ∈ p.rows ↔ p.shown row = true := by
  refine ⟨fun hmem => (h.mem hmem).2.2, fun hshown => ?_⟩
  obtain ⟨hsince, hle⟩ := hpasses
  rcases h.next_cases with ⟨-, hnext⟩ | ⟨last, hlast, hnext, -, -⟩
  · rw [hnext] at hle
    exact absurd hsince (not_lt.mpr hle)
  · obtain ⟨limit, -, hrows⟩ := h
    rw [hrows] at hlast ⊢
    rw [hnext] at hle
    have hcandidate : row ∈ p.candidates key := mem_candidates.mpr ⟨hrow, hsince, hshown⟩
    exact mem_take_of_le (candidates_ascending hlog) hcandidate hlast hle

/-- An empty page shows nothing behind its cursor. -/
theorem Serves.hidden (h : p.Serves key) (hempty : p.rows = []) (hrow : row ∈ p.log)
    (hsince : p.since < key row) : p.shown row = false := by
  obtain ⟨limit, hlimit, hrows⟩ := h
  rw [hempty] at hrows
  rcases List.take_eq_nil_iff.mp hrows.symm with hzero | hnil
  · omega
  · rw [← Bool.not_eq_true]
    intro hshown
    have hcandidate : row ∈ p.candidates key := mem_candidates.mpr ⟨hrow, hsince, hshown⟩
    rw [hnil] at hcandidate
    cases hcandidate

/-- Some first entries of a page are a page. -/
theorem Serves.take (h : p.Serves key) {n : ℕ} (hn : 0 < n) :
    Serves key { p with rows := p.rows.take n } := by
  obtain ⟨limit, hlimit, hrows⟩ := h
  refine ⟨min n limit, lt_min hn hlimit, ?_⟩
  show p.rows.take n = _
  rw [hrows, List.take_take]
  rfl

/-- What a page left is what is shown behind it. -/
theorem Serves.split (h : p.Serves key) (hlog : Ascending key p.log) :
    p.candidates key = p.rows ++ { p with since := p.next key }.candidates key := by
  have hnext : { p with since := p.next key }.candidates key =
      (p.candidates key).filter fun row => decide (p.next key < key row) := by
    unfold candidates
    rw [List.filter_filter]
    refine List.filter_congr fun row _ => ?_
    have hlt : p.next key < key row → p.since < key row := h.since_le.trans_lt
    cases p.shown row with
    | false => simp
    | true =>
      simp only [Bool.and_true]
      by_cases hrow : p.next key < key row
      · simp [hrow, hlt hrow]
      · simp [hrow]
  have hascending := candidates_ascending hlog
  obtain ⟨limit, hlimit, hrows⟩ := id h
  have hall : p.candidates key = p.rows ++ (p.candidates key).drop limit := by
    rw [hrows, List.take_append_drop]
  rw [hnext]
  conv_lhs => rw [hall]
  conv_rhs => rw [hall]
  have hfront : (p.rows.filter fun row => decide (p.next key < key row)) = [] := by
    refine List.filter_eq_nil_iff.mpr fun row hrow => ?_
    have hle := h.le_next hlog hrow
    simp [hle]
  have hback : (((p.candidates key).drop limit).filter fun row =>
      decide (p.next key < key row)) = (p.candidates key).drop limit := by
    refine List.filter_eq_self.mpr fun row hrow => ?_
    rw [hall] at hascending
    rcases h.next_cases with ⟨hnil, -⟩ | ⟨last, hlast, hkey, -, -⟩
    · rw [hrows] at hnil
      rcases List.take_eq_nil_iff.mp hnil with hzero | hempty
      · omega
      · rw [hempty] at hrow
        simp at hrow
    · rw [hkey]
      exact decide_eq_true ((List.pairwise_append.mp hascending).2.2 last hlast row hrow)
  rw [List.filter_append, hfront, hback]
  rfl

end Page

/-! ## Runs of a reader -/

/-- The cursor after some pages. -/
def cursor (key : ρ → κ) (start : κ) (pages : List (Page ρ κ)) : κ :=
  match pages.getLast? with
  | none => start
  | some p => p.next key

/-- What some pages returned. -/
def returned (pages : List (Page ρ κ)) : List ρ := pages.flatMap (·.rows)

omit [LinearOrder κ] in
@[simp] theorem cursor_nil (start : κ) : cursor key start [] = start := rfl

omit [LinearOrder κ] in
@[simp] theorem cursor_append (start : κ) (pages : List (Page ρ κ)) (p : Page ρ κ) :
    cursor key start (pages ++ [p]) = p.next key := by
  rw [cursor, List.getLast?_concat]

omit [LinearOrder κ] in
theorem returned_append (pages : List (Page ρ κ)) (p : Page ρ κ) :
    returned (pages ++ [p]) = returned pages ++ p.rows := by
  rw [returned, List.flatMap_append, List.flatMap_singleton, returned]

/-- The pages that a reader has read, and the log as it is now. -/
inductive Reads (key : ρ → κ) (start : κ) : List (Page ρ κ) → List ρ → Prop where
  | start {log : List ρ} : Ascending key log → Reads key start [] log
  | grow {pages : List (Page ρ κ)} {log log' : List ρ} : Reads key start pages log →
      log <+: log' → Ascending key log' → Reads key start pages log'
  | page {pages : List (Page ρ κ)} {log : List ρ} {p : Page ρ κ} : Reads key start pages log →
      p.log = log → p.since = cursor key start pages → p.Serves key →
      Reads key start (pages ++ [p]) log

variable {start : κ} {pages : List (Page ρ κ)} {log : List ρ} {row : ρ}

theorem Reads.log_ascending (h : Reads key start pages log) : Ascending key log := by
  induction h with
  | start hlog => exact hlog
  | grow _ _ hlog _ => exact hlog
  | page _ _ _ _ ih => exact ih

/-- The cursor stands at its start or at an entry. -/
theorem Reads.cursor_mem (h : Reads key start pages log) :
    cursor key start pages = start ∨ ∃ row ∈ log, key row = cursor key start pages := by
  induction h with
  | start _ => exact .inl rfl
  | grow _ hsub _ ih => exact ih.imp_right fun ⟨row, hrow, hkey⟩ => ⟨row, hsub.subset hrow, hkey⟩
  | @page pages log p hreads hlog hsince hserves ih =>
    rw [cursor_append]
    rcases hserves.next_cases with ⟨-, hnext⟩ | ⟨last, -, hnext, hmem, -⟩
    · rw [hnext, hsince]
      exact ih
    · exact .inr ⟨last, hlog ▸ hmem, hnext.symm⟩

/-- Every page was asked with the start or more, and ends at the cursor or before. -/
theorem Reads.bounds (h : Reads key start pages log) : start ≤ cursor key start pages ∧
    ∀ p ∈ pages, start ≤ p.since ∧ p.next key ≤ cursor key start pages := by
  induction h with
  | start _ => exact ⟨le_rfl, nofun⟩
  | grow _ _ _ ih => exact ih
  | @page pages log p hreads hlog hsince hserves ih =>
    obtain ⟨hstart, hpages⟩ := ih
    have hle : cursor key start pages ≤ p.next key := hsince ▸ hserves.since_le
    rw [cursor_append]
    refine ⟨hstart.trans hle, fun q hq => ?_⟩
    rcases List.mem_append.mp hq with hq | hq
    · exact ⟨(hpages q hq).1, (hpages q hq).2.trans hle⟩
    · rw [List.mem_singleton.mp hq]
      exact ⟨hsince ▸ hstart, le_rfl⟩

/-- What was returned lies between the start and the cursor. -/
theorem Reads.returned_mem (h : Reads key start pages log) :
    ∀ row ∈ returned pages, row ∈ log ∧ start < key row ∧ key row ≤ cursor key start pages := by
  induction h with
  | start _ => exact nofun
  | grow _ hsub _ ih =>
    intro row hrow
    obtain ⟨hmem, hbounds⟩ := ih row hrow
    exact ⟨hsub.subset hmem, hbounds⟩
  | @page pages log p hreads hlog hsince hserves ih =>
    intro row hrow
    rw [returned_append] at hrow
    rw [cursor_append]
    have hle : cursor key start pages ≤ p.next key := hsince ▸ hserves.since_le
    rcases List.mem_append.mp hrow with hrow | hrow
    · obtain ⟨hmem, hlt, hcursor⟩ := ih row hrow
      exact ⟨hmem, hlt, hcursor.trans hle⟩
    · obtain ⟨hmem, hlt, -⟩ := hserves.mem hrow
      have hlogs : Ascending key p.log := hlog ▸ hreads.log_ascending
      exact ⟨hlog ▸ hmem, (hsince ▸ hreads.bounds.1).trans_lt hlt, hserves.le_next hlogs hrow⟩

/-- The last page was read from a log that holds all of it. -/
theorem Reads.returned_mem_last {p : Page ρ κ} (h : Reads key start (pages ++ [p]) log) :
    ∀ row ∈ returned (pages ++ [p]), row ∈ p.log := by
  generalize hall : pages ++ [p] = all at h
  induction h with
  | start _ => simp at hall
  | grow _ _ _ ih => exact ih hall
  | page hreads hlog hsince hserves _ =>
    obtain ⟨rfl, hp⟩ := List.append_inj' hall rfl
    cases hp
    intro row hrow
    exact hlog ▸ ((hreads.page hlog hsince hserves).returned_mem row hrow).1

/-- The entries come in the order of the log, each once. -/
theorem Reads.ascending (h : Reads key start pages log) : Ascending key (returned pages) := by
  induction h with
  | start _ => exact List.Pairwise.nil
  | grow _ _ _ ih => exact ih
  | @page pages log p hreads hlog hsince hserves ih =>
    have hlogs : Ascending key p.log := hlog ▸ hreads.log_ascending
    rw [returned_append]
    refine List.pairwise_append.mpr
      ⟨ih, (Page.candidates_ascending hlogs).sublist hserves.sublist, fun x hx y hy => ?_⟩
    have hx' : key x ≤ p.since := hsince ▸ (hreads.returned_mem x hx).2.2
    exact hx'.trans_lt (hserves.mem hy).2.1

/-- Up to the cursor, an entry was returned unless the page that passed it did not show it. -/
theorem Reads.mem_returned (h : Reads key start pages log) (hrow : row ∈ log)
    (hstart : start < key row) (hcursor : key row ≤ cursor key start pages) :
    row ∈ returned pages ↔ ¬ ∃ p ∈ pages, p.Passes key row ∧ p.shown row = false := by
  induction h with
  | start _ => exact absurd hstart (not_lt.mpr hcursor)
  | @grow pages log log' hreads hsub hlog ih =>
    obtain ⟨new, rfl⟩ := hsub
    rcases List.mem_append.mp hrow with hold | hnew
    · exact ih hold hcursor
    · -- the cursor stands at an earlier entry
      rcases hreads.cursor_mem with hcur | ⟨old, hmem, hkey⟩
      · rw [hcur] at hcursor
        exact absurd hstart (not_lt.mpr hcursor)
      · rw [← hkey] at hcursor
        have hlt := (List.pairwise_append.mp hlog).2.2 old hmem row hnew
        exact absurd hlt (not_lt.mpr hcursor)
  | @page pages log p hreads hlog hsince hserves ih =>
    have hlogs : Ascending key p.log := hlog ▸ hreads.log_ascending
    rw [returned_append, List.mem_append]
    rw [cursor_append] at hcursor
    rcases le_or_gt (key row) (cursor key start pages) with hle | hgt
    · -- the page was asked from behind the entry
      have hnot : ¬ p.since < key row := not_lt.mpr (hsince ▸ hle)
      have hold := ih hrow hle
      constructor
      · rintro (hmem | hmem) ⟨q, hq, hpasses, hshown⟩
        · rcases List.mem_append.mp hq with hq | hq
          · exact hold.mp hmem ⟨q, hq, hpasses, hshown⟩
          · rw [List.mem_singleton.mp hq] at hpasses
            exact hnot hpasses.1
        · exact hnot (hserves.mem hmem).2.1
      · intro hall
        exact .inl (hold.mpr fun ⟨q, hq, hpasses⟩ => hall ⟨q, List.mem_append_left _ hq, hpasses⟩)
    · -- the page passes the entry, and none before it did
      have hpasses : p.Passes key row := ⟨hsince ▸ hgt, hcursor⟩
      have hiff := hserves.mem_iff hlogs (hlog ▸ hrow) hpasses
      constructor
      · rintro (hmem | hmem) ⟨q, hq, hpassed, hshown⟩
        · exact absurd (hreads.returned_mem row hmem).2.2 (not_le.mpr hgt)
        · rcases List.mem_append.mp hq with hq | hq
          · exact absurd (hpassed.2.trans (hreads.bounds.2 q hq).2) (not_le.mpr hgt)
          · rw [List.mem_singleton.mp hq, hiff.mp hmem] at hshown
            cases hshown
      · intro hall
        refine .inr (hiff.mpr ?_)
        rw [← Bool.not_eq_false]
        intro hshown
        exact hall ⟨p, List.mem_append_right _ (List.mem_singleton_self _), hpasses, hshown⟩

/-- Every page was read from an earlier log, and holds what it should. -/
theorem Reads.mem_pages (h : Reads key start pages log) :
    ∀ p ∈ pages, p.log <+: log ∧ p.Serves key := by
  induction h with
  | start _ => exact nofun
  | grow _ hsub _ ih => exact fun p hp => ⟨(ih p hp).1.trans hsub, (ih p hp).2⟩
  | @page pages log p hreads hlog hsince hserves ih =>
    intro q hq
    rcases List.mem_append.mp hq with hq | hq
    · exact ih q hq
    · rw [List.mem_singleton.mp hq]
      exact ⟨hlog ▸ List.prefix_rfl, hserves⟩

/-- After an empty page everything behind the start has been decided: an entry was returned unless
the page that passed it, or the empty one, did not show it. -/
theorem Reads.complete {p : Page ρ κ} (h : Reads key start (pages ++ [p]) log) (hempty : p.rows = [])
    (hrow : row ∈ p.log) (hstart : start < key row) :
    row ∈ returned (pages ++ [p]) ↔
      ¬ ((∃ q ∈ pages, q.Passes key row ∧ q.shown row = false) ∨
        p.since < key row ∧ p.shown row = false) := by
  obtain ⟨hsub, hserves⟩ := h.mem_pages p (List.mem_append_right _ (List.mem_singleton_self _))
  have hnext : p.next key = p.since := by
    unfold Page.next
    rw [hempty]
    rfl
  rcases le_or_gt (key row) p.since with hle | hgt
  · have hnot : ¬ p.since < key row := not_lt.mpr hle
    rw [h.mem_returned (hsub.subset hrow) hstart (by rw [cursor_append, hnext]; exact hle)]
    refine not_congr ⟨fun ⟨q, hq, hpasses, hshown⟩ => .inl ⟨q, ?_, hpasses, hshown⟩, ?_⟩
    · -- the empty page passes nothing
      rcases List.mem_append.mp hq with hq | hq
      · exact hq
      · rw [List.mem_singleton.mp hq] at hpasses
        exact absurd hpasses.1 hnot
    · rintro (⟨q, hq, hskip⟩ | ⟨hlt, -⟩)
      · exact ⟨q, List.mem_append_left _ hq, hskip⟩
      · exact absurd hlt hnot
  · have hhidden := hserves.hidden hempty hrow hgt
    refine iff_of_false (fun hmem => ?_) fun hall => hall (.inr ⟨hgt, hhidden⟩)
    have hcursor := (h.returned_mem row hmem).2.2
    rw [cursor_append, hnext] at hcursor
    exact absurd hcursor (not_le.mpr hgt)

/-- After a page that held all there was, an entry that every page showed was returned. -/
theorem Reads.mem_of_shown {p : Page ρ κ} (h : Reads key start (pages ++ [p]) log)
    (hall : p.rows = p.candidates key) (hrow : row ∈ p.log) (hstart : start < key row)
    (hshown : ∀ q ∈ pages ++ [p], q.shown row = true) : row ∈ returned (pages ++ [p]) := by
  have hlast : p ∈ pages ++ [p] := List.mem_append_right _ (List.mem_singleton_self _)
  obtain ⟨hsub, hserves⟩ := h.mem_pages p hlast
  have hle : key row ≤ p.next key := by
    rcases le_or_gt (key row) p.since with hle | hgt
    · exact hle.trans hserves.since_le
    · have hmem : row ∈ p.rows := by
        rw [hall]
        exact Page.mem_candidates.mpr ⟨hrow, hgt, hshown p hlast⟩
      exact hserves.le_next (h.log_ascending.sublist hsub.sublist) hmem
  rw [h.mem_returned (hsub.subset hrow) hstart (by rw [cursor_append]; exact hle)]
  rintro ⟨q, hq, -, hhidden⟩
  rw [hshown q hq] at hhidden
  cases hhidden

/-! ## Working through a page -/

/-- A worker goes through a page: it has the rest of the page before it, and its cursor is past the
entries it has done. -/
structure Progress (key : ρ → κ) (log : List ρ) (pos : κ) (p : Page ρ κ) (rest : List ρ) : Prop where
  earlier : p.log <+: log
  ascending : Ascending key log
  serves : p.Serves key
  since : p.since ≤ pos
  split : ∃ done, p.rows = done ++ rest ∧ ∀ x ∈ done, key x ≤ pos
  ahead : ∀ x ∈ rest, pos < key x

namespace Progress

variable {p : Page ρ κ} {pos : κ} {rest : List ρ} {x : ρ}

theorem log_ascending (h : Progress key log pos p rest) : Ascending key p.log :=
  h.ascending.sublist h.earlier.sublist

theorem rows_ascending (h : Progress key log pos p rest) : Ascending key p.rows :=
  (Page.candidates_ascending h.log_ascending).sublist h.serves.sublist

theorem first (hserves : p.Serves key) (hlog : Ascending key p.log) :
    Progress key p.log p.since p p.rows :=
  ⟨List.prefix_rfl, hlog, hserves, le_rfl, ⟨[], rfl, nofun⟩, fun _ hx => (hserves.mem hx).2.1⟩

theorem grow (h : Progress key log pos p rest) {log' : List ρ} (hsub : log <+: log')
    (hlog : Ascending key log') : Progress key log' pos p rest :=
  ⟨h.earlier.trans hsub, hlog, h.serves, h.since, h.split, h.ahead⟩

theorem mem_rows (h : Progress key log pos p rest) (hx : x ∈ rest) : x ∈ p.rows := by
  obtain ⟨done, hrows, -⟩ := h.split
  rw [hrows]
  exact List.mem_append_right _ hx

/-- The next entry is done. -/
theorem advance (h : Progress key log pos p (x :: rest)) :
    Progress key log (max pos (key x)) p rest := by
  obtain ⟨done, hrows, hdone⟩ := h.split
  have hpos : pos ≤ max pos (key x) := le_max_left _ _
  refine ⟨h.earlier, h.ascending, h.serves, h.since.trans hpos, ⟨done ++ [x], ?_, fun y hy => ?_⟩,
    fun y hy => ?_⟩
  · rw [hrows, List.append_assoc]
    rfl
  · rcases List.mem_append.mp hy with hy | hy
    · exact (hdone y hy).trans hpos
    · rw [List.mem_singleton.mp hy]
      exact le_max_right _ _
  · have hrest := h.rows_ascending
    rw [hrows] at hrest
    have hlt := (List.pairwise_cons.mp (List.pairwise_append.mp hrest).2.1).1 y hy
    exact max_lt (h.ahead y (List.mem_cons_of_mem _ hy)) hlt

/-- Between the cursor and the next entry of the page are only entries that the page did not show. -/
theorem passed (h : Progress key log pos p (x :: rest)) {y : ρ} (hy : y ∈ log)
    (hlt : pos < key y) (hle : key y ≤ key x) :
    y = x ∨ y ∈ p.log ∧ p.since < key y ∧ p.shown y = false := by
  have hx := h.serves.mem (h.mem_rows List.mem_cons_self)
  have hmem : y ∈ p.log := by
    obtain ⟨new, hnew⟩ := h.earlier
    rw [← hnew] at hy
    rcases List.mem_append.mp hy with hold | hlater
    · exact hold
    · have hlog := h.ascending
      rw [← hnew] at hlog
      exact absurd ((List.pairwise_append.mp hlog).2.2 x hx.1 y hlater) (not_lt.mpr hle)
  have hsince : p.since < key y := h.since.trans_lt hlt
  cases hshown : p.shown y with
  | false => exact .inr ⟨hmem, hsince, rfl⟩
  | true =>
    have hrow : y ∈ p.rows := by
      have hxrow := h.mem_rows List.mem_cons_self
      obtain ⟨limit, -, hlimit⟩ := h.serves
      rw [hlimit] at hxrow ⊢
      exact mem_take_of_le (Page.candidates_ascending h.log_ascending)
        (Page.mem_candidates.mpr ⟨hmem, hsince, hshown⟩) hxrow hle
    obtain ⟨done, hrows, hdone⟩ := h.split
    have hascending := h.rows_ascending
    rw [hrows] at hrow hascending
    rcases List.mem_append.mp hrow with hdoney | hresty
    · exact absurd hlt (not_lt.mpr (hdone y hdoney))
    · rcases List.mem_cons.mp hresty with hsame | hlater
      · exact .inl hsame
      · have hrest := (List.pairwise_append.mp hascending).2.1
        exact absurd ((List.pairwise_cons.mp hrest).1 y hlater) (not_lt.mpr hle)

end Progress

/-- Every entry up to the cursor has been dealt with. The cursor is where it started, or at an
entry. -/
structure Settled (key : ρ → κ) (start : κ) (log : List ρ) (done : ρ → Prop) (pos : κ) : Prop where
  reached : pos = start ∨ ∃ x ∈ log, key x = pos
  done : ∀ x ∈ log, key x ≤ pos → done x

section
variable {pos : κ} {done done' : ρ → Prop} {p : Page ρ κ} {x : ρ} {rest : List ρ}

/-- Nothing is settled at the start. -/
theorem Settled.atStart (hlog : ∀ x ∈ log, start < key x) : Settled key start log done start :=
  ⟨.inl rfl, fun x hx hle => absurd hle (not_le.mpr (hlog x hx))⟩

/-- New entries are behind the cursor. -/
theorem Settled.grow (h : Settled key start log done pos) {log' : List ρ} (hsub : log <+: log')
    (hlog : Ascending key log') (hstart : ∀ x ∈ log', start < key x)
    (hdone : ∀ x ∈ log, key x ≤ pos → done x → done' x) : Settled key start log' done' pos := by
  refine ⟨h.reached.imp_right fun ⟨x, hx, hkey⟩ => ⟨x, hsub.subset hx, hkey⟩, fun x hx hle => ?_⟩
  obtain ⟨new, rfl⟩ := hsub
  rcases List.mem_append.mp hx with hold | hnew
  · exact hdone x hold hle (h.done x hold hle)
  · rcases h.reached with hpos | ⟨y, hy, hkey⟩
    · rw [hpos] at hle
      exact absurd hle (not_le.mpr (hstart x hx))
    · have hlt : key y < key x := (List.pairwise_append.mp hlog).2.2 y hy x hnew
      rw [hkey] at hlt
      exact absurd hle (not_le.mpr hlt)

/-- The worker deals with the next entry of its page. -/
theorem Settled.advance (h : Settled key start log done pos) (hp : Progress key log pos p (x :: rest))
    (hx : done x)
    (hskip : ∀ y ∈ p.log, p.Passes key y → p.shown y = false → done y) :
    Settled key start log done (max pos (key x)) := by
  have hrow := hp.mem_rows List.mem_cons_self
  refine ⟨?_, fun y hy hle => ?_⟩
  · rcases max_choice pos (key x) with hmax | hmax
    · rw [hmax]
      exact h.reached
    · rw [hmax]
      exact .inr ⟨x, hp.earlier.subset (hp.serves.mem hrow).1, rfl⟩
  · rcases le_or_gt (key y) pos with hold | hnew
    · exact h.done y hy hold
    · have hley : key y ≤ key x := (le_max_iff.mp hle).resolve_left (not_le.mpr hnew)
      rcases hp.passed hy hnew hley with rfl | ⟨hmem, hsince, hshown⟩
      · exact hx
      · have hnext := hp.serves.le_next hp.log_ascending hrow
        exact hskip y hmem ⟨hsince, hley.trans hnext⟩ hshown

end

/-- The first entry that a page shows behind its cursor is its first. -/
theorem Page.Serves.head {p : Page ρ κ} (h : p.Serves key) (hlog : Ascending key p.log)
    {x : ρ} (hx : x ∈ p.log) (hsince : p.since < key x) (hshown : p.shown x = true)
    (hfirst : ∀ y ∈ p.log, p.since < key y → key y < key x → p.shown y = false) :
    ∃ rest, p.rows = x :: rest := by
  have hcandidate : x ∈ p.candidates key := mem_candidates.mpr ⟨hx, hsince, hshown⟩
  have hascending := candidates_ascending hlog
  obtain ⟨limit, hlimit, hrows⟩ := h
  cases hcandidates : p.candidates key with
  | nil =>
    rw [hcandidates] at hcandidate
    cases hcandidate
  | cons y rest =>
    rw [hcandidates] at hcandidate hascending
    have hy : y ∈ p.candidates key := by
      rw [hcandidates]
      exact List.mem_cons_self
    obtain ⟨hmem, hsincey, hshowny⟩ := mem_candidates.mp hy
    have hsame : x = y := by
      rcases List.mem_cons.mp hcandidate with hsame | hlater
      · exact hsame
      · have hlt := (List.pairwise_cons.mp hascending).1 x hlater
        rw [hfirst y hmem hsincey hlt] at hshowny
        cases hshowny
    obtain ⟨n, rfl⟩ := Nat.exists_eq_succ_of_ne_zero (Nat.pos_iff_ne_zero.mp hlimit)
    exact ⟨rest.take n, by rw [hrows, hcandidates, hsame]; rfl⟩

end Cursor
end ATalk
