/-
  Rationale — the Gregorian calendar, extended to all years.

  Days are counted from 0000-01-01, which is day 0; year 0 exists and is a
  leap year.  `Date.day` numbers a date, `Date.ofDay` names a day, and a date
  is `Valid` if its month has that day.

  * `yearOfDay_spec`: a day lies in its year;
  * `Date.valid_ofDay`: every day has a date.
-/

namespace Rationale.Time

/-! ## Years -/

def isLeapYear (y : Int) : Bool :=
  y % 4 = 0 && (y % 100 ≠ 0 || y % 400 = 0)

/-- The day number of the first of January of year `y`. -/
def daysBeforeYear (y : Int) : Int :=
  365 * y + (y + 3) / 4 - (y + 99) / 100 + (y + 399) / 400

/-- The year of a day.  Since 400 years have 146097 days, the quotient is off
    by at most one. -/
def yearOfDay (d : Int) : Int :=
  let y := 400 * d / 146097
  if d < daysBeforeYear y then y - 1
  else if daysBeforeYear (y + 1) ≤ d then y + 1
  else y

theorem daysBeforeYear_succ (y : Int) :
    daysBeforeYear (y + 1) = daysBeforeYear y + (if isLeapYear y then 366 else 365) := by
  have hl : isLeapYear y = true ↔ y % 4 = 0 ∧ (y % 100 ≠ 0 ∨ y % 400 = 0) := by
    simp [isLeapYear]
  by_cases h : isLeapYear y = true
  · rw [if_pos h]
    have := hl.1 h
    simp only [daysBeforeYear]; omega
  · rw [if_neg h]
    have := mt hl.2 h
    simp only [daysBeforeYear]; omega

theorem yearOfDay_spec (d : Int) :
    daysBeforeYear (yearOfDay d) ≤ d ∧ d < daysBeforeYear (yearOfDay d + 1) := by
  simp only [yearOfDay]
  by_cases h₁ : d < daysBeforeYear (400 * d / 146097)
  · rw [if_pos h₁, Int.sub_add_cancel]
    refine ⟨?_, h₁⟩
    simp only [daysBeforeYear]; omega
  · rw [if_neg h₁]
    by_cases h₂ : daysBeforeYear (400 * d / 146097 + 1) ≤ d
    · rw [if_pos h₂]
      refine ⟨h₂, ?_⟩
      simp only [daysBeforeYear]; omega
    · rw [if_neg h₂]; omega

/-! ## Months -/

/-- The lengths of the months, January first. -/
def monthLengths (leap : Bool) : List Nat :=
  [31, if leap then 29 else 28, 31, 30, 31, 30, 31, 31, 30, 31, 30, 31]

/-- The length of month `m`, counted from one; 0 if there is no such month. -/
def monthLength (leap : Bool) (m : Nat) : Nat :=
  if m = 0 then 0 else (monthLengths leap).getD (m - 1) 0

/-- The number of days of the year before month `m`. -/
def daysBeforeMonth (leap : Bool) (m : Nat) : Nat :=
  ((monthLengths leap).take (m - 1)).foldr (· + ·) 0

/-- Finds the month and the day in it, both counted from one, of the day that
    comes `d` days after the first of the first month listed. -/
def monthAndDay : List Nat → Nat → Nat × Nat
  | [], d => (1, d + 1)
  | l :: ls, d =>
    if d < l then (1, d + 1)
    else
      let (m, k) := monthAndDay ls (d - l)
      (m + 1, k)

/-! ## Dates -/

structure Date where
  year : Int
  month : Nat
  dayOfMonth : Nat
deriving DecidableEq, Repr

namespace Date

/-- The month exists and has that day. -/
def Valid (d : Date) : Prop :=
  1 ≤ d.dayOfMonth ∧ d.dayOfMonth ≤ monthLength (isLeapYear d.year) d.month

instance (d : Date) : Decidable d.Valid := by
  unfold Valid; infer_instance

/-- The day number of a date. -/
def day (d : Date) : Int :=
  daysBeforeYear d.year + daysBeforeMonth (isLeapYear d.year) d.month + d.dayOfMonth - 1

/-- The date of a day number. -/
def ofDay (n : Int) : Date :=
  let y := yearOfDay n
  let (m, k) := monthAndDay (monthLengths (isLeapYear y)) (n - daysBeforeYear y).toNat
  ⟨y, m, k⟩

end Date

/-! ## Days and dates agree -/

theorem monthAndDay_spec (leap : Bool) : ∀ d, d < 366 → (d < if leap then 366 else 365) →
    let r := monthAndDay (monthLengths leap) d
    1 ≤ r.2 ∧ r.2 ≤ monthLength leap r.1 ∧ daysBeforeMonth leap r.1 + r.2 - 1 = d := by
  cases leap <;> decide +kernel

theorem Date.valid_ofDay (n : Int) : (Date.ofDay n).Valid := by
  have h := yearOfDay_spec n
  rw [daysBeforeYear_succ] at h
  have hd := monthAndDay_spec (isLeapYear (yearOfDay n)) (n - daysBeforeYear (yearOfDay n)).toNat
    (by split at h <;> omega) (by split at h <;> rename_i hl <;> simp [hl] <;> omega)
  exact ⟨hd.1, hd.2.1⟩

theorem Date.day_ofDay (n : Int) : (Date.ofDay n).day = n := by
  have h := yearOfDay_spec n
  rw [daysBeforeYear_succ] at h
  have hd := monthAndDay_spec (isLeapYear (yearOfDay n)) (n - daysBeforeYear (yearOfDay n)).toNat
    (by split at h <;> omega) (by split at h <;> rename_i hl <;> simp [hl] <;> omega)
  simp only [Date.day, Date.ofDay]
  have := hd.1
  have := hd.2.2
  omega

end Rationale.Time
