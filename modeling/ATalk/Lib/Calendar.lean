import ATalk.Lib.Text
import Mathlib.Data.List.Lex
import Mathlib.Order.Fin.Basic

/-!
# Times as texts

The proleptic Gregorian calendar from 1 January of the year 1 to the end of the year 9999, and the
text of a moment in it, `YYYY-MM-DDTHH:MM:SSZ`. Fields of fixed width, the greatest first: texts
compare like moments.

* `Date.next`, `date` : the days one after the other, `ordinal_date` : their number;
* `iso` : the text of a moment;
* `iso_lt_iff`, `iso_le_iff` : the two orders are the same.
-/

namespace ATalk
namespace Calendar

open Text

/-! ## Days -/

structure Date where
  year : ℕ
  month : ℕ
  day : ℕ
deriving DecidableEq

def isLeap (year : ℕ) : Bool := year % 4 = 0 && (year % 100 ≠ 0 || year % 400 = 0)

def daysIn (year month : ℕ) : ℕ :=
  if month = 2 then (if isLeap year then 29 else 28)
  else if month ∈ [4, 6, 9, 11] then 30 else 31

def Date.next (d : Date) : Date :=
  if d.day < daysIn d.year d.month then { d with day := d.day + 1 }
  else if d.month < 12 then ⟨d.year, d.month + 1, 1⟩
  else ⟨d.year + 1, 1, 1⟩

/-- The day `n` days after 1 January of the year 1. -/
def date : ℕ → Date
  | 0 => ⟨1, 1, 1⟩
  | n + 1 => (date n).next

/-- The days of the years before. -/
def daysBeforeYear (year : ℕ) : ℕ :=
  365 * (year - 1) + (year - 1) / 4 - (year - 1) / 100 + (year - 1) / 400

/-- The days of the months before. -/
def daysBeforeMonth (year : ℕ) : ℕ → ℕ
  | 0 => 0
  | 1 => 0
  | month + 1 => daysBeforeMonth year month + daysIn year month

def Date.ordinal (d : Date) : ℕ := daysBeforeYear d.year + daysBeforeMonth d.year d.month + d.day - 1

structure Date.Valid (d : Date) : Prop where
  year : 1 ≤ d.year
  month : 1 ≤ d.month ∧ d.month ≤ 12
  day : 1 ≤ d.day ∧ d.day ≤ daysIn d.year d.month

theorem daysBeforeYear_succ (y : ℕ) :
    daysBeforeYear (y + 2) = daysBeforeYear (y + 1) + if isLeap (y + 1) then 366 else 365 := by
  have h4 : (y + 1) / 4 = y / 4 + if 4 ∣ y + 1 then 1 else 0 := Nat.succ_div
  have h100 : (y + 1) / 100 = y / 100 + if 100 ∣ y + 1 then 1 else 0 := Nat.succ_div
  have h400 : (y + 1) / 400 = y / 400 + if 400 ∣ y + 1 then 1 else 0 := Nat.succ_div
  have hle : y / 100 ≤ y / 4 := Nat.div_le_div_left (by decide) (by decide)
  have hold : daysBeforeYear (y + 1) = 365 * y + y / 4 - y / 100 + y / 400 := rfl
  have hnew : daysBeforeYear (y + 2) =
      365 * (y + 1) + (y + 1) / 4 - (y + 1) / 100 + (y + 1) / 400 := rfl
  rw [hnew, hold, h4, h100, h400, isLeap]
  simp only [Bool.and_eq_true, Bool.or_eq_true, decide_eq_true_eq, ← Nat.dvd_iff_mod_eq_zero, ne_eq]
  generalize y / 4 = a at *
  generalize y / 100 = b at *
  generalize y / 400 = e
  split_ifs <;> omega

/-- The days of a year. -/
theorem daysBeforeMonth_year (year : ℕ) :
    daysBeforeMonth year 12 + daysIn year 12 = if isLeap year then 366 else 365 := by
  simp only [daysBeforeMonth, daysIn]
  cases isLeap year <;> rfl

theorem Date.Valid.next {d : Date} (h : d.Valid) :
    d.next.Valid ∧ d.next.ordinal = d.ordinal + 1 := by
  obtain ⟨hyear, ⟨hm, hm'⟩, hd, hd'⟩ := h
  have hpos : ∀ year month, 28 ≤ daysIn year month := by
    intro year month
    unfold daysIn
    split_ifs <;> omega
  have hone := hpos d.year (d.month + 1)
  have hone' := hpos (d.year + 1) 1
  unfold Date.next
  split_ifs with hday hmonth
  · exact ⟨⟨hyear, ⟨hm, hm'⟩, by simp only; omega, hday⟩, by simp only [ordinal]; omega⟩
  · -- the first of the next month
    have hlast : d.day = daysIn d.year d.month := by omega
    refine ⟨⟨hyear, ⟨by simp only; omega, hmonth⟩, Nat.le_refl 1, by simp only; omega⟩, ?_⟩
    have hsum : daysBeforeMonth d.year (d.month + 1) =
        daysBeforeMonth d.year d.month + daysIn d.year d.month := by
      obtain ⟨k, hk⟩ := Nat.exists_eq_add_of_le hm
      rw [hk, Nat.add_comm 1 k]
      rfl
    simp only [ordinal, hsum]
    omega
  · -- the first of January
    have hlast : d.day = daysIn d.year d.month := by omega
    have hdec : d.month = 12 := by omega
    rw [hdec] at hlast
    refine ⟨⟨by simp only; omega, ⟨Nat.le_refl 1, by simp⟩, Nat.le_refl 1, by simp only; omega⟩, ?_⟩
    obtain ⟨y, hy⟩ : ∃ y, d.year = y + 1 := ⟨d.year - 1, by omega⟩
    have hsum := daysBeforeMonth_year (y + 1)
    rw [hy] at hlast
    simp only [ordinal, hy, hdec, daysBeforeYear_succ, daysBeforeMonth] at hsum ⊢
    omega

theorem valid_date (n : ℕ) : (date n).Valid ∧ (date n).ordinal = n := by
  induction n with
  | zero => exact ⟨⟨Nat.le_refl 1, ⟨Nat.le_refl 1, by simp [date]⟩, Nat.le_refl 1, by decide⟩, rfl⟩
  | succ n ih =>
    obtain ⟨hvalid, hord⟩ := ih.1.next
    exact ⟨hvalid, by rw [date, hord, ih.2]⟩

/-- The number of a day. -/
theorem ordinal_date (n : ℕ) : (date n).ordinal = n := (valid_date n).2

/-- The years up to 9999. -/
theorem year_date {n : ℕ} (h : n < 3652059) : (date n).year ≤ 9999 := by
  have hord := ordinal_date n
  have hday := (valid_date n).1.day.1
  unfold Date.ordinal daysBeforeYear at hord
  omega

/-- Years first, then months, then days. -/
def Date.Before (a b : Date) : Prop :=
  a.year < b.year ∨ a.year = b.year ∧ (a.month < b.month ∨ a.month = b.month ∧ a.day < b.day)

theorem Date.before_next (d : Date) : d.Before d.next := by
  unfold Date.next Date.Before
  split_ifs
  · exact .inr ⟨rfl, .inr ⟨rfl, Nat.lt_succ_self _⟩⟩
  · exact .inr ⟨rfl, .inl (Nat.lt_succ_self _)⟩
  · exact .inl (Nat.lt_succ_self _)

theorem Date.Before.trans {a b c : Date} (h : a.Before b) (h' : b.Before c) : a.Before c := by
  unfold Date.Before at *
  omega

theorem date_before {n m : ℕ} (h : n < m) : (date n).Before (date m) := by
  induction m with
  | zero => omega
  | succ m ih =>
    rcases Nat.lt_or_ge n m with hlt | hge
    · exact (ih hlt).trans (Date.before_next _)
    · have heq : n = m := by omega
      rw [heq]
      exact Date.before_next _

/-! ## Texts -/

def digit (n : ℕ) : CodePoint := Fin.ofNat _ (0x30 + n % 10)

/-- A number with leading zeros. -/
def digits : ℕ → ℕ → Str
  | 0, _ => []
  | w + 1, n => digits w (n / 10) ++ [digit n]

theorem length_digits (w n : ℕ) : (digits w n).length = w := by
  induction w generalizing n with
  | zero => rfl
  | succ w ih => rw [digits, List.length_append, ih, List.length_singleton]

theorem append_lt_append {a b : Str} (hlen : a.length = b.length) (h : a < b) (s t : Str) :
    a ++ s < b ++ t := by
  induction a generalizing b with
  | nil =>
    rw [List.length_nil, eq_comm, List.length_eq_zero_iff] at hlen
    rw [hlen] at h
    exact absurd h (List.lt_irrefl [])
  | cons x a ih =>
    cases b with
    | nil => cases hlen
    | cons y b =>
      rw [List.cons_append, List.cons_append, List.cons_lt_cons_iff]
      rcases List.cons_lt_cons_iff.mp h with hxy | ⟨rfl, hab⟩
      · exact .inl hxy
      · exact .inr ⟨rfl, ih (Nat.succ.inj hlen) hab⟩

theorem append_lt_append_left {s t : Str} (a : Str) (h : s < t) : a ++ s < a ++ t := by
  induction a with
  | nil => exact h
  | cons x a ih => exact List.cons_lt_cons_iff.mpr (.inr ⟨rfl, ih⟩)

theorem digits_lt {w n m : ℕ} (h : n < m) (hm : m < 10 ^ w) : digits w n < digits w m := by
  induction w generalizing n m with
  | zero => omega
  | succ w ih =>
    rw [digits, digits]
    rcases Nat.lt_or_ge (n / 10) (m / 10) with hlt | hge
    · have hdiv : m / 10 < 10 ^ w := by
        rw [Nat.div_lt_iff_lt_mul (by decide), ← Nat.pow_succ]
        exact hm
      exact append_lt_append (by rw [length_digits, length_digits]) (ih hlt hdiv) _ _
    · have heq : n / 10 = m / 10 := by omega
      rw [heq]
      refine append_lt_append_left _ (List.cons_lt_cons_iff.mpr (.inl ?_))
      rw [Fin.lt_def]
      simp only [digit, Fin.ofNat]
      omega

/-- A field decides, or leaves it to the rest. -/
theorem field_lt {w n m : ℕ} {s t : Str} (hm : m < 10 ^ w) (h : n < m ∨ n = m ∧ s < t) :
    digits w n ++ s < digits w m ++ t := by
  rcases h with h | ⟨rfl, h⟩
  · exact append_lt_append (by rw [length_digits, length_digits]) (digits_lt h hm) s t
  · exact append_lt_append_left _ h

/-! ## Moments -/

/-- The seconds of the years up to 9999. -/
def horizon : ℕ := 3652059 * 86400

/-- A second, counted from 1 January of the year 1. -/
abbrev Instant := Fin horizon

/-- The date of a moment and the time of day. -/
def isoDate (d : Date) (rest : Str) : Str :=
  digits 4 d.year ++ (lit "-" ++ (digits 2 d.month ++ (lit "-" ++ (digits 2 d.day ++ rest))))

def isoTime (second : ℕ) : Str :=
  lit "T" ++ (digits 2 (second / 3600) ++ (lit ":" ++ (digits 2 (second / 60 % 60) ++ (lit ":" ++
    (digits 2 (second % 60) ++ lit "Z")))))

/-- `isoformat(timespec="seconds")` in UTC, with `Z`. -/
def iso (t : Instant) : Str := isoDate (date (t.val / 86400)) (isoTime (t.val % 86400))

theorem isoTime_lt {n m : ℕ} (h : n < m) (hm : m < 86400) : isoTime n < isoTime m := by
  refine append_lt_append_left _ (field_lt (by omega) ?_)
  rcases Nat.lt_or_ge (n / 3600) (m / 3600) with hlt | hge
  · exact .inl hlt
  refine .inr ⟨by omega, append_lt_append_left _ (field_lt (by omega) ?_)⟩
  rcases Nat.lt_or_ge (n / 60 % 60) (m / 60 % 60) with hlt | hge'
  · exact .inl hlt
  exact .inr ⟨by omega, append_lt_append_left _ (field_lt (by omega) (.inl (by omega)))⟩

theorem isoDate_lt {a b : Date} (hb : b.Valid) (hyear : b.year ≤ 9999) (h : a.Before b)
    (s t : Str) : isoDate a s < isoDate b t := by
  have hday : b.day ≤ 31 := by
    refine Nat.le_trans hb.day.2 ?_
    unfold daysIn
    split_ifs <;> omega
  have hmonth := hb.month.2
  refine field_lt (by omega) ?_
  rcases h with hlt | ⟨heq, hlt | ⟨heq', hlt⟩⟩
  · exact .inl hlt
  · exact .inr ⟨heq, append_lt_append_left _ (field_lt (by omega) (.inl hlt))⟩
  · exact .inr ⟨heq, append_lt_append_left _ (field_lt (by omega) (.inr ⟨heq',
      append_lt_append_left _ (field_lt (by omega) (.inl hlt))⟩))⟩

/-- A later moment has a greater text. -/
theorem iso_lt {t u : Instant} (h : t < u) : iso t < iso u := by
  have hu : u.val < 3652059 * 86400 := u.isLt
  have htu : t.val < u.val := h
  unfold iso
  rcases Nat.lt_or_ge (t.val / 86400) (u.val / 86400) with hlt | hge
  · exact isoDate_lt (valid_date _).1 (year_date (by omega)) (date_before hlt) _ _
  · have heq : t.val / 86400 = u.val / 86400 := by omega
    rw [heq]
    have hrest := isoTime_lt (n := t.val % 86400) (m := u.val % 86400) (by omega) (by omega)
    unfold isoDate
    exact append_lt_append_left _ (append_lt_append_left _ (append_lt_append_left _
      (append_lt_append_left _ (append_lt_append_left _ hrest))))

theorem iso_lt_iff {t u : Instant} : iso t < iso u ↔ t < u := by
  refine ⟨fun h => ?_, iso_lt⟩
  by_contra hle
  rcases Nat.lt_or_ge u.val t.val with hlt | hge
  · exact List.lt_asymm h (iso_lt hlt)
  · have heq : t = u := Fin.ext (Nat.le_antisymm hge (Nat.not_lt.mp hle))
    rw [heq] at h
    exact List.lt_irrefl _ h

theorem iso_le_iff {t u : Instant} : iso t ≤ iso u ↔ t ≤ u := by
  have hle : iso t ≤ iso u ↔ ¬ iso u < iso t := not_lt.symm
  rw [hle, iso_lt_iff, Fin.not_lt]

theorem iso_ne_nil (t : Instant) : iso t ≠ [] := by
  intro h
  have hlen := congrArg List.length h
  simp [iso, isoDate, length_digits] at hlen

/-- `t + timedelta(seconds=n)`, an `OverflowError` after the year 9999. -/
def later (t : Instant) (n : ℕ) : Option Instant :=
  if h : t.val + n < horizon then some ⟨t.val + n, h⟩ else none

theorem later_eq_some {t u : Instant} {n : ℕ} : later t n = some u ↔ u.val = t.val + n := by
  unfold later
  split_ifs with h
  · rw [Option.some.injEq, Fin.ext_iff, eq_comm]
  · have hu := u.isLt
    exact ⟨nofun, fun heq => absurd (heq ▸ hu) h⟩

end Calendar
end ATalk
