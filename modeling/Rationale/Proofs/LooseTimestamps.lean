/-
  Rationale — written timestamps read back loosely.

  A timestamp that is written is also a loose one: no number in it lacks its
  zeros, and there are no blanks for the reader to skip.

  * `number?_padded`: a number in all its digits is read in full;
  * `Instant.readLoose?_json`: an instant of the years 0 to 9999 reads back
    from the text shown to users.
-/
import Rationale.Proofs.Timestamps
import Rationale.Time.Loose

namespace Rationale.Time

open Text

namespace Loose

/-! ## The parts -/

theorem skip_cons {c : Char} (h : isBlank c = false) (cs : List Char) :
    skip (c :: cs) = c :: cs := by
  simp [skip, h]

/-- A number of at least one digit starts with one. -/
theorem exists_padded_eq_cons {w n : Nat} (hw : 0 < w) :
    ∃ d ds, padded w n = d :: ds ∧ d.isDigit = true := by
  have hl := le_length_padded w n
  have hd := all_isDigit_padded w n
  cases hp : padded w n with
  | nil =>
    rw [hp, List.length_nil] at hl
    omega
  | cons d ds =>
    rw [hp, List.all_cons, Bool.and_eq_true] at hd
    exact ⟨d, ds, rfl, hd.1⟩

theorem skip_padded {w n : Nat} (hw : 0 < w) (cs : List Char) :
    skip (padded w n ++ cs) = padded w n ++ cs := by
  obtain ⟨d, ds, hp, hd⟩ := exists_padded_eq_cons (n := n) hw
  rw [hp, List.cons_append, skip_cons (isBlank_eq_false_of_isDigit hd)]

theorem number?_padded {w n : Nat} (hw : 0 < w) (h : n < 10 ^ w) (cs : List Char) :
    number? w (padded w n ++ cs) = some (n, cs) := by
  have hl := length_padded hw h
  have hd : (padded w n).takeWhile Char.isDigit = padded w n := by
    simpa using Timestamp.takeWhile_digits (all_isDigit_padded w n)
      (by simp [Timestamp.NoDigit] : Timestamp.NoDigit [])
  have hne : padded w n ≠ [] := by
    rw [← List.length_pos_iff]
    omega
  simp only [number?, skip_padded hw, List.take_left' hl, hd, if_neg hne, ofDigitChars_padded,
    List.drop_left]

theorem mark?_cons {m : Char} (h : isBlank m = false) (cs : List Char) :
    mark? m (m :: cs) = some cs := by
  simp [mark?, skip_cons h]

/-- A year of four digits has no sign. -/
theorem year?_padded {y : Nat} (h : y < 10 ^ 4) (cs : List Char) :
    year? (padded 4 y ++ cs) = some ((y : Int), cs) := by
  have hn := number?_padded (by decide : 0 < 4) h cs
  obtain ⟨d, ds, hp, hd⟩ := exists_padded_eq_cons (n := y) (by decide : 0 < 4)
  simp only [year?, skip_padded (by decide : 0 < 4)]
  rw [hp, List.cons_append] at hn ⊢
  split
  · rename_i heq
    rw [(List.cons.inj heq).1] at hd
    exact absurd hd (by decide)
  · rename_i heq
    rw [(List.cons.inj heq).1] at hd
    exact absurd hd (by decide)
  · simp [hn]

theorem date?_text {d : Date} (hv : d.Valid) {y : Nat} (hy : d.year = y) (h : y < 10 ^ 4)
    (cs : List Char) :
    date? (padded 4 y ++ '-' :: padded 2 d.month ++ '-' :: padded 2 d.dayOfMonth ++ cs) =
      some (d, cs) := by
  obtain ⟨hm, hd⟩ := Timestamp.lt_of_valid hv
  have hdate : (⟨(y : Int), d.month, d.dayOfMonth⟩ : Date) = d := by
    cases d
    simp_all
  simp [date?, year?_padded h, mark?_cons (by decide : isBlank '-' = false),
    number?_padded (by decide : 0 < 2) hm, number?_padded (by decide : 0 < 2) hd, hdate]

theorem clock?_text {h m s : Nat} (hh : h ≤ 23) (hm : m ≤ 59) (hs : s ≤ 60) (cs : List Char) :
    clock? (padded 2 h ++ ':' :: padded 2 m ++ ':' :: padded 2 s ++ cs) = some ((h, m, s), cs) := by
  simp [clock?, mark?_cons (by decide : isBlank ':' = false),
    number?_padded (by decide : 0 < 2) (by omega : h < 10 ^ 2),
    number?_padded (by decide : 0 < 2) (by omega : m < 10 ^ 2),
    number?_padded (by decide : 0 < 2) (by omega : s < 10 ^ 2), hh, hm, hs]

end Loose

/-! ## Whole timestamps -/

open Loose in
/-- **What is shown of an instant reads back loosely**, if its year has four
    digits. -/
theorem Instant.readLoose?_json {t : Instant} (h0 : 0 ≤ t.year) (h9 : t.year ≤ 9999) :
    readLoose? t.json = some t := by
  obtain ⟨y, hy⟩ := Int.eq_ofNat_of_zero_le h0
  have hy4 : y < 10 ^ 4 := by omega
  have hv := Date.valid_ofDay (t.second / 86400)
  have hday := Date.day_ofDay (t.second / 86400)
  have hyears : hasYear t.year = true := by
    simp only [hasYear, Bool.and_eq_true, decide_eq_true_eq]
    omega
  have hnano : t.nano % 1000000000 < 1000000000 := Nat.mod_lt _ (by decide)
  have hsecond : (t.second % 86400).toNat % 60 + (if t.isLeap then 1 else 0) ≤ 60 := by
    split <;> omega
  have hfraction := Timestamp.fraction_text hnano
    (by simp [Timestamp.NoDigit] : Timestamp.NoDigit ['Z']) (by decide)
  unfold readLoose? json
  rw [toList_write hy hy4, date?_text hv hy hy4]
  simp only [Option.bind_eq_bind, Option.bind_some, Timestamp.mark_cons, List.mem_cons, true_or,
    Except.toOption]
  rw [clock?_text (by omega) (by omega) hsecond]
  simp only [Option.bind_some, hfraction, hday]
  have hoffset : offset? (skip ['Z']) = some (0, []) := by decide
  rw [hoffset, Option.bind_some, ofClock_parts, if_pos ⟨by decide, hv, hyears, hyears⟩]

end Rationale.Time
