import Mathlib.Logic.Function.Iterate

/-!
# The Gregorian calendar

Dates with their successor, and the number of days between two of them.

* `Date`, `Date.next`     the dates that exist, and the day after;
* `Date.number`           years, months and days counted from 1970-01-01;
* `Date.next_number`      **`number` says how many days after 1970-01-01 a date is**;
* `yearDays_closed`       the days of whole years, without a sum.
-/

set_option linter.unusedVariables false

namespace Calendar

/-! ## years and months -/

def isLeap (year : Nat) : Bool := year % 4 == 0 && (year % 100 != 0 || year % 400 == 0)

def monthLength (year month : Nat) : Nat :=
  if month = 2 then if isLeap year then 29 else 28
  else if month = 4 ∨ month = 6 ∨ month = 9 ∨ month = 11 then 30
  else 31

def yearLength (year : Nat) : Nat := if isLeap year then 366 else 365

theorem monthLength_pos (year month : Nat) : 0 < monthLength year month := by
  unfold monthLength
  repeat' split
  all_goals decide

theorem monthLength_le (year month : Nat) : monthLength year month ≤ 31 := by
  unfold monthLength
  repeat' split
  all_goals decide

/-- a date that exists -/
structure Date where
  year : Nat
  month : Nat
  day : Nat
  month_pos : 1 ≤ month
  month_le : month ≤ 12
  day_pos : 1 ≤ day
  day_le : day ≤ monthLength year month
  deriving DecidableEq

namespace Date

theorem ext_iff' {a b : Date} : a = b ↔ a.year = b.year ∧ a.month = b.month ∧ a.day = b.day := by
  cases a
  cases b
  simp

def epoch : Date := ⟨1970, 1, 1, by decide, by decide, by decide, by decide⟩

/-- the day after -/
def next (d : Date) : Date :=
  if h : d.day < monthLength d.year d.month then
    ⟨d.year, d.month, d.day + 1, d.month_pos, d.month_le, by omega, h⟩
  else if h : d.month < 12 then
    ⟨d.year, d.month + 1, 1, by omega, h, by omega, monthLength_pos _ _⟩
  else ⟨d.year + 1, 1, 1, by omega, by omega, by omega, monthLength_pos _ _⟩

end Date

/-! ## days -/

/-- the days of the first `n` years from 1970 on -/
def yearDays : Nat → Nat
  | 0 => 0
  | n + 1 => yearDays n + yearLength (1970 + n)

/-- the days of the first `m` months of a year -/
def monthDays (year : Nat) : Nat → Nat
  | 0 => 0
  | m + 1 => monthDays year m + monthLength year (m + 1)

theorem yearDays_succ (n : Nat) : yearDays (n + 1) = yearDays n + yearLength (1970 + n) := rfl

theorem monthDays_year (year : Nat) : monthDays year 12 = yearLength year := by
  unfold yearLength
  cases h : isLeap year <;> simp [monthDays, monthLength, h]

theorem isLeap_iff (year : Nat) :
    isLeap year = true ↔ year % 4 = 0 ∧ (year % 100 ≠ 0 ∨ year % 400 = 0) := by
  simp [isLeap]

/-- a year adds its leap day to the multiples of 4, 100 and 400 -/
theorem yearLength_multiples (y : Nat) :
    yearLength (y + 1) + (y + 1) / 100 + y / 4 + y / 400 = 365 + y / 100 + (y + 1) / 4 +
    (y + 1) / 400 := by
  unfold yearLength
  by_cases h : isLeap (y + 1) = true
  · rw [if_pos h]
    rw [isLeap_iff] at h
    omega
  · rw [if_neg h]
    rw [isLeap_iff] at h
    omega

/-- **the days of whole years, by the multiples of 4, 100 and 400 among them** -/
theorem yearDays_closed (n : Nat) :
    yearDays n + 1969 / 4 + (1969 + n) / 100 + 1969 / 400 =
      n * 365 + (1969 + n) / 4 + 1969 / 100 + (1969 + n) / 400 := by
  induction n with
  | zero => rw [show yearDays 0 = 0 from rfl]
  | succ n ih =>
    obtain ⟨y, hy⟩ : ∃ y, 1969 + n = y := ⟨_, rfl⟩
    have hnext : 1969 + (n + 1) = y + 1 := by omega
    have hyear : 1970 + n = y + 1 := by omega
    have hmultiples := yearLength_multiples y
    rw [hy] at ih
    rw [yearDays_succ, hnext, hyear]
    -- the quotients are atoms from here on
    generalize y / 4 = q4 at *
    generalize y / 100 = q100 at *
    generalize y / 400 = q400 at *
    generalize (y + 1) / 4 = r4 at *
    generalize (y + 1) / 100 = r100 at *
    generalize (y + 1) / 400 = r400 at *
    omega

namespace Date

/-- the days from 1970-01-01 -/
def number (d : Date) : Nat :=
  yearDays (d.year - 1970) + monthDays d.year (d.month - 1) + (d.day - 1)

theorem next_year (d : Date) : d.year ≤ d.next.year := by
  unfold next
  repeat' split
  all_goals simp

theorem number_next (d : Date) (h : 1970 ≤ d.year) : d.next.number = d.number + 1 := by
  have hday := d.day_pos
  have hlast := d.day_le
  have hmonth := d.month_pos
  have htwelve := d.month_le
  unfold next
  split
  · next hlt =>
    simp only [number]
    omega
  next hge =>
  have hend : d.day = monthLength d.year d.month := by omega
  split
  · next hlt =>
    simp only [number]
    obtain ⟨m, hm⟩ : ∃ m, d.month = m + 1 := ⟨d.month - 1, by omega⟩
    rw [hend, hm]
    simp only [Nat.add_sub_cancel, monthDays]
    have := monthLength_pos d.year (m + 1)
    omega
  · next hdec =>
    have hmonth12 : d.month = 12 := by omega
    obtain ⟨n, hn⟩ : ∃ n, d.year - 1970 = n := ⟨_, rfl⟩
    have hyear : 1970 + n = d.year := by omega
    have hlength := monthDays_year d.year
    have hsplit : monthDays d.year 12 = monthDays d.year 11 + monthLength d.year 12 := rfl
    have hdays := yearDays_succ n
    rw [hyear] at hdays
    have hpos := monthLength_pos d.year 12
    have hnumber : d.number = yearDays n + monthDays d.year 11 + (monthLength d.year 12 - 1) := by
      unfold number
      rw [hn, hend, hmonth12]
    have hfirst : yearDays (d.year + 1 - 1970) + monthDays (d.year + 1) 0 + 0 = yearDays
      (n + 1) := by
      rw [← hyear, Nat.add_assoc 1970, Nat.add_sub_cancel_left]
      rfl
    refine Eq.trans hfirst ?_
    -- without the two differences, which `omega` would compare digit by digit
    clear hfirst hn
    omega

/-- every date but the first has one before it -/
theorem exists_before (d : Date) (h : 1970 ≤ d.year) (hne : d ≠ epoch) : ∃ p :
    Date, 1970 ≤ p.year ∧ p.next = d := by
  have hlast := d.day_le
  have hdpos := d.day_pos
  have hmpos := d.month_pos
  have htwelve := d.month_le
  by_cases hday : 1 < d.day
  · refine ⟨⟨d.year, d.month, d.day - 1, d.month_pos, d.month_le, by omega, by omega⟩, h, ?_⟩
    unfold next
    rw [dif_pos (show d.day - 1 < monthLength d.year d.month by omega)]
    exact Date.ext_iff'.2 ⟨rfl, rfl, by show d.day - 1 + 1 = d.day; omega⟩
  by_cases hmonth : 1 < d.month
  · refine ⟨⟨d.year, d.month - 1, monthLength d.year (d.month - 1), by omega, by omega,
      monthLength_pos _ _,
      Nat.le_refl _⟩, h, ?_⟩
    unfold next
    rw [dif_neg (Nat.lt_irrefl _), dif_pos (show d.month - 1 < 12 by omega)]
    exact Date.ext_iff'.2 ⟨rfl, by show d.month - 1 + 1 = d.month; omega, by show 1 = d.day; omega⟩
  · have hyear : d.year ≠ 1970 := fun hy =>
      hne (Date.ext_iff'.2 ⟨hy, by show d.month = 1; omega, by show d.day = 1; omega⟩)
    have hyear : 1970 ≤ d.year - 1 := by omega
    refine ⟨⟨d.year - 1, 12, 31, by decide, by decide, by decide, ?_⟩, hyear, ?_⟩
    · unfold monthLength
      simp
    · unfold next
      rw [dif_neg (by show ¬ 31 < monthLength _ 12; unfold monthLength; simp),
        dif_neg (by show ¬ 12 < 12; decide)]
      exact Date.ext_iff'.2 ⟨by show d.year - 1 + 1 = d.year; omega, by show 1 = d.month; omega,
        by show 1 = d.day; omega⟩

theorem iterate_number (n : Nat) : (next^[n] epoch).number = n ∧ 1970 ≤ (next^[n] epoch).year := by
  induction n with
  | zero => exact ⟨rfl, by decide⟩
  | succ n ih =>
    rw [Function.iterate_succ_apply']
    exact ⟨by rw [number_next _ ih.2, ih.1], Nat.le_trans ih.2 (next_year _)⟩

/-- **a date comes as many days after 1970-01-01 as its number says, and never again** -/
theorem next_number (d : Date) (h : 1970 ≤ d.year) (n : Nat) :
    next^[n] epoch = d ↔ n = d.number := by
  constructor
  · rintro rfl
    exact (iterate_number n).1.symm
  · rintro rfl
    generalize hn : d.number = n
    induction n generalizing d with
    | zero =>
      by_contra hne
      obtain ⟨p, hp, hnext⟩ := exists_before d h (Ne.symm hne)
      have := number_next p hp
      rw [hnext] at this
      omega
    | succ n ih =>
      have hne : d ≠ epoch := by
        rintro rfl
        cases hn
      obtain ⟨p, hp, rfl⟩ := exists_before d h hne
      have := number_next p hp
      rw [Function.iterate_succ_apply', ih p hp (by omega)]

end Date

end Calendar
