/-
  Rationale — stored timestamps are in the order of time.

  The text that a store keeps of an instant has its parts from the largest to
  the smallest, each with a fixed number of digits.  Only the fraction of a
  second can end early.  A plus sign follows it, which comes before the dot and
  before every digit: so a fraction that ends comes before one that goes on.

  * `charsLt_digits`: numerals are in the order of the fractions that they write;
  * `Time.Date.parts_lt_of_day_lt`: dates are in the order of their parts;
  * `Time.Instant.stored_lt_iff`: so a store can sort by the texts.
-/
import Mathlib.Algebra.Order.Ring.Nat
import Rationale.Proofs.ByteOrder
import Rationale.Proofs.Storing

namespace Rationale

/-! ## Numerals -/

namespace Text

variable {as bs x y : List Char} {c : Char} {k m n w : Nat}

@[simp]
theorem charsLt_cons_self : charsLt (c :: x) (c :: y) = charsLt x y := by
  simp [charsLt]

/-- The fraction that digits write, in units of its `n`th place. -/
def fractionValue (n : Nat) (ds : List Char) : Nat :=
  Nat.ofDigitChars 10 ds 0 * 10 ^ (n - ds.length)

theorem fractionValue_cons (h : as.length ≤ n) :
    fractionValue (n + 1) (c :: as) = (c.toNat - 48) * 10 ^ n + fractionValue n as := by
  have hpow : 10 ^ as.length * 10 ^ (n - as.length) = 10 ^ n := by
    rw [← Nat.pow_add, Nat.add_sub_cancel' h]
  have hzero : '0'.toNat = 48 := rfl
  rw [fractionValue, fractionValue, Nat.ofDigitChars_cons, Nat.ofDigitChars_eq_ofDigitChars_zero,
    List.length_cons, Nat.add_sub_add_right, Nat.mul_zero, Nat.zero_add, hzero, Nat.add_mul,
    Nat.mul_right_comm, hpow, Nat.mul_comm (10 ^ n)]

theorem fractionValue_lt (has : as.all Char.isDigit = true) (h : as.length ≤ n) :
    fractionValue n as < 10 ^ n := by
  calc fractionValue n as < 10 ^ as.length * 10 ^ (n - as.length) :=
        Nat.mul_lt_mul_of_pos_right (ofDigitChars_lt has) (Nat.pow_pos (by decide))
    _ = 10 ^ n := by rw [← Nat.pow_add, Nat.add_sub_cancel' h]

/-- **Numerals are in the order of their fractions.**  What follows the shorter
    one must come before all digits. -/
theorem charsLt_digits (has : as.all Char.isDigit = true) (hbs : bs.all Char.isDigit = true)
    (ha : as.length ≤ n) (hb : bs.length ≤ n)
    (hx : as.length < bs.length → ∃ c ∈ x.head?, c.toNat < 48)
    (h : fractionValue n as < fractionValue n bs) : charsLt (as ++ x) (bs ++ y) = true := by
  have hdigit : ∀ {c : Char}, c.isDigit = true → 48 ≤ c.toNat := by
    intro c hc
    simp only [Char.isDigit, Bool.and_eq_true, decide_eq_true_eq] at hc
    exact hc.1
  induction as generalizing bs n with
  | nil =>
    cases bs with
    | nil => exact absurd h (Nat.lt_irrefl _)
    | cons b bs =>
      obtain ⟨c, hc, hlt⟩ := hx (by simp)
      obtain ⟨x, rfl⟩ := List.head?_eq_some_iff.1 hc
      rw [List.all_cons, Bool.and_eq_true] at hbs
      have hcb : c.toNat < b.toNat := Nat.lt_of_lt_of_le hlt (hdigit hbs.1)
      simp [charsLt, hcb]
  | cons a as ih =>
    cases bs with
    | nil => simp [fractionValue] at h
    | cons b bs =>
      obtain ⟨n, rfl⟩ : ∃ m, n = m + 1 := ⟨n - 1, by simp at ha; omega⟩
      rw [List.all_cons, Bool.and_eq_true] at has hbs
      rw [List.length_cons, Nat.add_le_add_iff_right] at ha hb
      rw [fractionValue_cons ha, fractionValue_cons hb] at h
      have ha48 := hdigit has.1
      have hb48 := hdigit hbs.1
      have hbelow := fractionValue_lt hbs.2 hb
      rw [List.cons_append, List.cons_append]
      rcases Nat.lt_trichotomy a.toNat b.toNat with hab | hab | hab
      · simp [charsLt, hab]
      · obtain rfl : a = b := Char.toNat_inj.1 hab
        rw [charsLt_cons_self]
        exact ih has.2 hbs.2 ha hb (fun hlt => hx (by simpa using hlt)) (by omega)
      · -- the first digit alone makes the fraction greater
        have hstep : (b.toNat - 48 + 1) * 10 ^ n ≤ (a.toNat - 48) * 10 ^ n :=
          Nat.mul_le_mul_right _ (by omega)
        rw [Nat.add_mul, Nat.one_mul] at hstep
        omega

theorem fractionValue_padded (hw : 0 < w) (hm : m < 10 ^ w) :
    fractionValue n (padded w m) = m * 10 ^ (n - w) := by
  rw [fractionValue, ofDigitChars_padded, length_padded hw hm]

/-- Numbers of one width come in their order. -/
theorem charsLt_padded (hw : 0 < w) (hm : m < 10 ^ w) (hk : k < 10 ^ w)
    (h : m < k ∨ m = k ∧ charsLt x y = true) :
    charsLt (padded w m ++ x) (padded w k ++ y) = true := by
  have hml := length_padded hw hm
  have hkl := length_padded hw hk
  rcases h with h | ⟨rfl, h⟩
  · refine charsLt_digits (n := w) (all_isDigit_padded w m) (all_isDigit_padded w k) hml.le hkl.le
      (fun hlt => absurd hlt (by omega)) ?_
    rwa [fractionValue_padded hw hm, fractionValue_padded hw hk, Nat.sub_self, Nat.pow_zero,
      Nat.mul_one, Nat.mul_one]
  · have hsame : ∀ p : List Char, charsLt (p ++ x) (p ++ y) = true := by
      intro p
      induction p with
      | nil => exact h
      | cons c p ih => rwa [List.cons_append, List.cons_append, charsLt_cons_self]
    exact hsame _

end Text

namespace Time

open Text

/-! ## Fractions -/

/-- A fraction that is not zero is a dot and digits, none of them left out but zeros. -/
theorem Instant.exists_fractionText {m : Nat} (hm : m < 1000000000) (h0 : m ≠ 0) :
    ∃ ds : List Char, fractionText m = '.' :: ds ∧ ds.all Char.isDigit = true ∧ ds.length ≤ 9 ∧
      fractionValue 9 ds = m := by
  have hpadded : ∀ w k, 0 < w → w ≤ 9 → k < 10 ^ w → k * 10 ^ (9 - w) = m →
      (padded w k).all Char.isDigit = true ∧ (padded w k).length ≤ 9 ∧
        fractionValue 9 (padded w k) = m := by
    intro w k hw hw9 hk hkm
    refine ⟨all_isDigit_padded w k, ?_, ?_⟩
    · rwa [length_padded hw hk]
    · rwa [fractionValue_padded hw hk]
  unfold fractionText
  rw [if_neg h0]
  split
  · exact ⟨_, rfl, hpadded 3 _ (by decide) (by decide) (by omega) (by omega)⟩
  · split
    · exact ⟨_, rfl, hpadded 6 _ (by decide) (by decide) (by omega) (by omega)⟩
    · exact ⟨_, rfl, hpadded 9 _ (by decide) (by decide) (by omega) (by omega)⟩

/-- **Fractions come in their order**, if a plus sign follows them. -/
theorem Instant.charsLt_fractionText {m k : Nat} (hk : k < 1000000000) (h : m < k)
    (x y : List Char) :
    charsLt (fractionText m ++ '+' :: x) (fractionText k ++ '+' :: y) = true := by
  obtain ⟨ds, hds, hdigits, hlength, hvalue⟩ := exists_fractionText hk (by omega)
  rw [hds]
  by_cases h0 : m = 0
  · subst h0
    simp [fractionText, charsLt]
  · obtain ⟨es, hes, hdigits', hlength', hvalue'⟩ := exists_fractionText (by omega) h0
    rw [hes, List.cons_append, List.cons_append, charsLt_cons_self]
    exact charsLt_digits hdigits' hdigits hlength' hlength (fun _ => ⟨'+', rfl, by decide⟩)
      (by rwa [hvalue, hvalue'])

/-! ## Dates -/

theorem daysBeforeMonth_le (leap : Bool) : ∀ m ≤ 12, ∀ k < m,
    daysBeforeMonth leap k + monthLength leap k ≤ daysBeforeMonth leap m := by
  cases leap <;> decide +kernel

/-- **Dates come in the order of their parts.** -/
theorem Date.parts_lt_of_day_lt {d e : Date} (hd : d.Valid) (he : e.Valid) (h : d.day < e.day) :
    d.year < e.year ∨ d.year = e.year ∧
      (d.month < e.month ∨ d.month = e.month ∧ d.dayOfMonth < e.dayOfMonth) := by
  rcases Int.lt_trichotomy d.year e.year with hyear | hyear | hyear
  · exact .inl hyear
  · refine .inr ⟨hyear, ?_⟩
    have hlast := he.2
    have hfirst := hd.1
    simp only [Date.day, hyear] at h
    rcases Nat.lt_trichotomy d.month e.month with hmonth | hmonth | hmonth
    · exact .inl hmonth
    · rw [hmonth] at h
      exact .inr ⟨hmonth, by omega⟩
    · have hdays := daysBeforeMonth_le (isLeapYear e.year) d.month (Timestamp.month_le_of_valid hd)
        e.month hmonth
      omega
  · have hlast := (Date.day_bounds he).2
    have hyears := daysBeforeYear_le (show e.year + 1 ≤ d.year by omega)
    have hfirst := (Date.day_bounds hd).1
    omega

/-! ## Instants -/

namespace Instant

variable {a b : Instant}

/-- The second of the day, in universal time. -/
def secondOfDay (t : Instant) : Nat :=
  (t.second % 86400).toNat

/-- The second of the minute, as it is written: a leap second is second 60. -/
def writtenSecond (t : Instant) : Nat :=
  t.secondOfDay % 60 + if t.isLeap then 1 else 0

/-- A leap second is written as second 60, and every other one as itself. -/
theorem writtenSecond_cases (t : Instant) :
    (1000000000 ≤ t.nano ∧ t.secondOfDay % 60 = 59 ∧ t.writtenSecond = 60) ∨
      t.nano < 1000000000 ∧ t.writtenSecond = t.secondOfDay % 60 := by
  by_cases hleap : 1000000000 ≤ t.nano
  · have hlast := t.leap_last hleap
    have hsecond : t.secondOfDay % 60 = 59 := by
      unfold secondOfDay
      omega
    exact .inl ⟨hleap, hsecond, by simp [writtenSecond, isLeap, hleap, hsecond]⟩
  · exact .inr ⟨by omega, by simp [writtenSecond, isLeap, hleap]⟩

/-- **Times of one day come in the order of their parts.** -/
theorem clock_lt_of_lt (hday : a.second / 86400 = b.second / 86400) (h : a < b) :
    a.secondOfDay / 3600 < b.secondOfDay / 3600 ∨
      a.secondOfDay / 3600 = b.secondOfDay / 3600 ∧
        (a.secondOfDay / 60 % 60 < b.secondOfDay / 60 % 60 ∨
          a.secondOfDay / 60 % 60 = b.secondOfDay / 60 % 60 ∧
            (a.writtenSecond < b.writtenSecond ∨
              a.writtenSecond = b.writtenSecond ∧
                a.nano % 1000000000 < b.nano % 1000000000)) := by
  have ha := a.nano_lt
  have hb := b.nano_lt
  have hsecond : a.secondOfDay < b.secondOfDay ∨
      a.secondOfDay = b.secondOfDay ∧ a.nano < b.nano := by
    rw [lt_def] at h
    unfold secondOfDay
    omega
  rcases a.writtenSecond_cases with ⟨hnano, hlast, hwritten⟩ | ⟨hnano, hwritten⟩
  · rcases b.writtenSecond_cases with ⟨hnano', hlast', hwritten'⟩ | ⟨hnano', hwritten'⟩
    · omega
    · omega
  · rcases b.writtenSecond_cases with ⟨hnano', hlast', hwritten'⟩ | ⟨hnano', hwritten'⟩
    · omega
    · omega

/-- The date, in universal time. -/
def date (t : Instant) : Date :=
  Date.ofDay (t.second / 86400)

/-- The time of day, as a store keeps it. -/
def clockText (t : Instant) : List Char :=
  padded 2 (t.secondOfDay / 3600) ++ ':' :: (padded 2 (t.secondOfDay / 60 % 60) ++
    ':' :: (padded 2 t.writtenSecond ++
      (fractionText (t.nano % 1000000000) ++ ['+', '0', '0', ':', '0', '0'])))

/-- The text that a store keeps of an instant whose year has four digits. -/
theorem toList_stored {t : Instant} (h : t.FourDigits) :
    t.stored.toList = padded 4 t.year.toNat ++ '-' :: (padded 2 t.date.month ++
      '-' :: (padded 2 t.date.dayOfMonth ++ 'T' :: t.clockText)) := by
  obtain ⟨h0, h9⟩ := h
  rw [stored, toList_write (y := t.year.toNat) (by omega) (by omega)]
  simp [date, clockText, secondOfDay, writtenSecond]

theorem charsLt_clockText (hday : a.second / 86400 = b.second / 86400) (h : a < b) :
    charsLt a.clockText b.clockText = true := by
  have hlt : ∀ t : Instant, t.secondOfDay / 3600 < 10 ^ 2 ∧ t.secondOfDay / 60 % 60 < 10 ^ 2 ∧
      t.writtenSecond < 10 ^ 2 := by
    intro t
    have hsecond : t.secondOfDay < 86400 := by
      unfold secondOfDay
      omega
    rcases t.writtenSecond_cases with ⟨-, -, hwritten⟩ | ⟨-, hwritten⟩
    · omega
    · omega
  obtain ⟨hah, ham, has⟩ := hlt a
  obtain ⟨hbh, hbm, hbs⟩ := hlt b
  refine charsLt_padded (by decide) hah hbh ((clock_lt_of_lt hday h).imp_right ?_)
  refine And.imp_right fun hminute => ?_
  rw [charsLt_cons_self]
  refine charsLt_padded (by decide) ham hbm (hminute.imp_right ?_)
  refine And.imp_right fun hsecond => ?_
  rw [charsLt_cons_self]
  refine charsLt_padded (by decide) has hbs (hsecond.imp_right ?_)
  exact And.imp_right fun hnano => charsLt_fractionText (Nat.mod_lt _ (by decide)) hnano _ _

/-- **What comes first has the text that comes first.** -/
theorem stored_lt_of_lt (ha : a.FourDigits) (hb : b.FourDigits) (h : a < b) :
    Text.lt a.stored b.stored = true := by
  have hva := Date.valid_ofDay (a.second / 86400)
  have hvb := Date.valid_ofDay (b.second / 86400)
  have hparts : a.year < b.year ∨ a.year = b.year ∧ (a.date.month < b.date.month ∨
      a.date.month = b.date.month ∧ (a.date.dayOfMonth < b.date.dayOfMonth ∨
        a.date.dayOfMonth = b.date.dayOfMonth ∧ charsLt a.clockText b.clockText = true)) := by
    have hdays : a.second / 86400 ≤ b.second / 86400 := by
      rw [lt_def] at h
      omega
    rcases Int.lt_or_eq_of_le hdays with hday | hday
    · have hparts := Date.parts_lt_of_day_lt hva hvb (by rwa [Date.day_ofDay, Date.day_ofDay])
      exact hparts.imp_right (And.imp_right (Or.imp_right (And.imp_right .inl)))
    · have hsame : a.date = b.date := congrArg Date.ofDay hday
      exact .inr ⟨congrArg Date.year hsame, .inr ⟨congrArg Date.month hsame,
        .inr ⟨congrArg Date.dayOfMonth hsame, charsLt_clockText hday h⟩⟩⟩
  obtain ⟨ha0, ha9⟩ := id ha
  obtain ⟨hb0, hb9⟩ := id hb
  obtain ⟨ham, had⟩ := Timestamp.lt_of_valid hva
  obtain ⟨hbm, hbd⟩ := Timestamp.lt_of_valid hvb
  rw [Text.lt, toList_stored ha, toList_stored hb]
  refine charsLt_padded (by decide) (by omega) (by omega) (hparts.imp (by omega) ?_)
  rintro ⟨hyear, hmonth⟩
  refine ⟨congrArg Int.toNat hyear, ?_⟩
  rw [charsLt_cons_self]
  refine charsLt_padded (by decide) ham hbm (hmonth.imp_right (And.imp_right fun hday => ?_))
  rw [charsLt_cons_self]
  refine charsLt_padded (by decide) had hbd (hday.imp_right (And.imp_right fun hclock => ?_))
  rwa [charsLt_cons_self]

/-- **Stored timestamps are in the order of time**, byte by byte, and no two
    instants have one text, if their years have four digits. -/
theorem stored_lt_iff (ha : a.FourDigits) (hb : b.FourDigits) :
    (a < b ↔ bytes a.stored < bytes b.stored) ∧ (a = b ↔ a.stored = b.stored) := by
  have hlt := stored_lt_of_lt ha hb
  have hgt := stored_lt_of_lt hb ha
  rw [← lt_iff_bytes]
  refine ⟨⟨hlt, fun htext => ?_⟩, congrArg stored, fun htext => ?_⟩
  · rw [lt_iff_not_ge]
    intro hba
    by_cases hab : a ≤ b
    · rw [le_antisymm hab hba, lt_irrefl] at htext
      cases htext
    · have hloop := lt_trans htext (hgt (lt_iff_not_ge.2 hab))
      rw [lt_irrefl] at hloop
      cases hloop
  · have hread := read_stored ha.1 ha.2
    rw [htext, read_stored hb.1 hb.2] at hread
    exact (Except.ok.inj hread).symm

/-- Half a second into the leap second of 2016, and a nanosecond into the year after. -/
theorem stored_lt_afterLeapSecond : ∃ a b : Instant,
    read "2016-12-31T23:59:60.5Z" = .ok a ∧ read "2017-01-01T01:00:00.000000001+01:00" = .ok b ∧
    a.FourDigits ∧ b.FourDigits ∧ a < b ∧ bytes a.stored < bytes b.stored ∧
    a.stored ≠ b.stored := by
  obtain ⟨a, b, hreadA, hreadB, ha, hb, hab⟩ : ∃ a b : Instant,
      read "2016-12-31T23:59:60.5Z" = .ok a ∧ read "2017-01-01T01:00:00.000000001+01:00" = .ok b ∧
      a.FourDigits ∧ b.FourDigits ∧ a < b :=
    ⟨_, _, rfl, rfl, by decide, by decide, by decide⟩
  obtain ⟨horder, hsame⟩ := stored_lt_iff ha hb
  refine ⟨a, b, hreadA, hreadB, ha, hb, hab, horder.1 hab, fun htext => ?_⟩
  rw [hsame.2 htext] at hab
  exact absurd (le_refl b) (lt_iff_not_ge.1 hab)

end Instant

end Time

end Rationale
