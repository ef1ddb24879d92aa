/-
  Rationale — written timestamps read back.

  Each part of a timestamp is read from its own text, and what follows is left
  over.  Together the parts make up the instant that was written, if its year
  has four digits; the text of any other year starts with a sign, at which
  reading stops.

  * `read_stored`, `read_json`: an instant of the years 0 to 9999 reads back
    from the text kept in a store and from the text shown to users;
  * `eq_of_read_stored`: no instant reads as another one.
-/
import Mathlib.Algebra.Ring.Nat
import Rationale.Proofs.Outcome

/-! ## Padded numbers -/

namespace Rationale.Text

theorem length_padded {w n : Nat} (hw : 0 < w) (h : n < 10 ^ w) : (padded w n).length = w := by
  have hl := (Nat.length_toDigits_le_iff (n := n) (by decide : 1 < 10) hw).2 h
  simp only [padded, List.length_append, List.length_replicate]
  omega

theorem le_length_padded (w n : Nat) : w ≤ (padded w n).length := by
  simp only [padded, List.length_append, List.length_replicate]
  omega

theorem all_isDigit_padded (w n : Nat) : (padded w n).all Char.isDigit = true := by
  rw [padded, List.all_append, all_isDigit_toDigits, Bool.and_true, List.all_eq_true]
  intro c hc
  rw [List.eq_of_mem_replicate hc]
  decide

theorem ofDigitChars_padded (w n : Nat) : Nat.ofDigitChars 10 (padded w n) 0 = n := by
  rw [padded, Nat.ofDigitChars_append, Nat.ofDigitChars_replicate_zero, Nat.mul_zero,
    Nat.ofDigitChars_ten_toDigits]

end Rationale.Text

namespace Rationale.Time

open Text

/-! ## The parts -/

namespace Timestamp

theorem length_le_byteCount (cs : List Char) : cs.length ≤ byteCount cs := by
  induction cs with
  | nil => simp [byteCount]
  | cons c cs ih =>
    have hc : 0 < c.utf8Size := Char.utf8Size_pos c
    simp only [byteCount, List.foldr_cons, List.length_cons] at ih ⊢
    omega

theorem digits_padded {w n : Nat} (hw : 0 < w) (h : n < 10 ^ w) (cs : List Char) :
    digits w (padded w n ++ cs) = .ok (n, cs) := by
  have hl := length_padded hw h
  simp [digits, List.take_left' hl, List.drop_left' hl, hl, all_isDigit_padded,
    ofDigitChars_padded]

@[simp]
theorem mark_cons {allowed : List Char} {c : Char} (h : c ∈ allowed) (cs : List Char) :
    mark allowed (c :: cs) = .ok cs := by
  simp [mark, h]

theorem monthLength_le (leap : Bool) (m : Nat) : monthLength leap m ≤ 31 := by
  unfold monthLength
  split
  · omega
  · rcases m with _ | _ | _ | _ | _ | _ | _ | _ | _ | _ | _ | _ | _ | m <;>
      cases leap <;> simp [monthLengths]

theorem month_le_of_valid {d : Date} (h : d.Valid) : d.month ≤ 12 := by
  rcases Nat.lt_or_ge 12 d.month with hm | hm
  · have hl : monthLength (isLeapYear d.year) d.month = 0 := by
      unfold monthLength
      rw [if_neg (by omega), List.getD_eq_getElem?_getD, List.getElem?_eq_none]
      · rfl
      · simp [monthLengths]
        omega
    have hv := h.1
    have hv' := h.2
    omega
  · exact hm

/-- A month and a day of the month take two digits. -/
theorem lt_of_valid {d : Date} (h : d.Valid) : d.month < 10 ^ 2 ∧ d.dayOfMonth < 10 ^ 2 := by
  have := month_le_of_valid h
  have := h.2
  have := monthLength_le (isLeapYear d.year) d.month
  omega

/-- The text of a date. -/
theorem day_text {d : Date} (hv : d.Valid) {y : Nat} (hy : d.year = y) (h : y < 10 ^ 4)
    (cs : List Char) :
    day (padded 4 y ++ '-' :: padded 2 d.month ++ '-' :: padded 2 d.dayOfMonth ++ cs) =
      .ok (d.day, cs) := by
  obtain ⟨hm, hd⟩ := lt_of_valid hv
  simp only [day, List.append_assoc, List.cons_append]
  rw [digits_padded (by decide) h, ok_bind]
  simp only [mark_cons, List.mem_singleton, ok_bind, digits_padded (by decide : 0 < 2) hm,
    digits_padded (by decide : 0 < 2) hd]
  have hdate : (⟨(y : Int), d.month, d.dayOfMonth⟩ : Date) = d := by
    cases d
    simp_all
  rw [hdate, if_pos hv]

/-- The text of a time of day. -/
theorem clock_text {h m s : Nat} (hh : h < 10 ^ 2) (hm : m < 10 ^ 2) (hs : s < 10 ^ 2)
    (cs : List Char) :
    clock (padded 2 h ++ ':' :: padded 2 m ++ ':' :: padded 2 s ++ cs) = .ok ((h, m, s), cs) := by
  simp only [clock, List.append_assoc, List.cons_append]
  rw [digits_padded (by decide) hh, ok_bind]
  simp only [mark_cons, List.mem_singleton, ok_bind, digits_padded (by decide : 0 < 2) hm,
    digits_padded (by decide : 0 < 2) hs]

/-- A date and a time of day have no fewer than nineteen characters. -/
theorem le_byteCount_text (y m d h k s : Nat) (sep : Char) (cs : List Char) :
    19 ≤ byteCount (padded 4 y ++ '-' :: padded 2 m ++ '-' :: padded 2 d ++
      sep :: (padded 2 h ++ ':' :: padded 2 k ++ ':' :: padded 2 s ++ cs)) := by
  refine Nat.le_trans ?_ (length_le_byteCount _)
  simp only [List.length_append, List.length_cons]
  have := le_length_padded 4 y
  have := le_length_padded 2 m
  have := le_length_padded 2 d
  have := le_length_padded 2 h
  have := le_length_padded 2 k
  have := le_length_padded 2 s
  omega

/-! ## Fractions -/

/-- No digit can be read at the start of the text. -/
def NoDigit (cs : List Char) : Prop :=
  ∀ c ∈ cs.head?, c.isDigit = false

theorem takeWhile_digits {ds cs : List Char} (hds : ds.all Char.isDigit = true) (h : NoDigit cs) :
    (ds ++ cs).takeWhile Char.isDigit = ds := by
  rw [List.takeWhile_append_of_pos (List.all_eq_true.1 hds)]
  cases cs with
  | nil => simp
  | cons c cs => simp [h c (by simp)]

theorem dropWhile_digits {ds cs : List Char} (hds : ds.all Char.isDigit = true) (h : NoDigit cs) :
    (ds ++ cs).dropWhile Char.isDigit = cs := by
  rw [List.dropWhile_append_of_pos (List.all_eq_true.1 hds)]
  cases cs with
  | nil => simp
  | cons c cs => simp [h c (by simp)]

/-- A fraction is read up to what cannot belong to it. -/
theorem fraction_digits {ds : List Char} (hne : ds ≠ []) (hds : ds.all Char.isDigit = true)
    {cs : List Char} (hcs : NoDigit cs) :
    fraction ('.' :: ds ++ cs) = .ok (⟨nanos ds, nanos_lt hds⟩, cs) := by
  have htake := takeWhile_digits hds hcs
  have hdrop := dropWhile_digits hds hcs
  cases ds with
  | nil => exact absurd rfl hne
  | cons c ds =>
    rw [List.all_cons, Bool.and_eq_true] at hds
    rw [List.cons_append] at htake hdrop
    simp only [fraction, List.cons_append, hds.1, if_true, htake, hdrop]

/-- Without a point there is no fraction. -/
theorem fraction_none {cs : List Char} (h : cs.head? ≠ some '.') :
    fraction cs = .ok (⟨0, by decide⟩, cs) := by
  unfold fraction
  split
  · exact absurd rfl h
  · rfl

theorem nanos_padded {w k n : Nat} (hw : 0 < w) (hk : w + k = 9) (h : n < 10 ^ w) :
    nanos (padded w n) = 10 ^ k * n := by
  have hl := length_padded hw h
  have hz : List.replicate 9 '0' = List.replicate k '0' ++ List.replicate w '0' := by
    rw [List.replicate_append_replicate, Nat.add_comm, hk]
  have htake : (padded w n ++ List.replicate 9 '0').take 9 = padded w n ++ List.replicate k '0' := by
    rw [hz, ← List.append_assoc, List.take_left']
    simp [hl, hk]
  rw [nanos, htake, Nat.ofDigitChars_append, ofDigitChars_padded, Nat.ofDigitChars_replicate_zero]

theorem fraction_padded {w k n : Nat} (hw : 0 < w) (hk : w + k = 9) (h : n < 10 ^ w)
    (hn : 10 ^ k * n < 1000000000) {cs : List Char} (hcs : NoDigit cs) :
    fraction ('.' :: padded w n ++ cs) = .ok (⟨10 ^ k * n, hn⟩, cs) := by
  have hne : padded w n ≠ [] := by
    rw [← List.length_pos_iff, length_padded hw h]
    exact hw
  rw [fraction_digits hne (all_isDigit_padded w n) hcs]
  simp only [nanos_padded hw hk h]

/-- The text of a fraction, before a text that does not go on with it. -/
theorem fraction_text {n : Nat} (hn : n < 1000000000) {cs : List Char} (hcs : NoDigit cs)
    (hdot : cs.head? ≠ some '.') :
    fraction (Instant.fractionText n ++ cs) = .ok (⟨n, hn⟩, cs) := by
  unfold Instant.fractionText
  split
  · subst n
    exact fraction_none hdot
  · split
    · rw [fraction_padded (k := 6) (by decide) (by decide) (by omega) (by omega) hcs]
      simp only [Except.ok.injEq, Prod.mk.injEq, and_true, Subtype.mk.injEq]
      omega
    · split
      · rw [fraction_padded (k := 3) (by decide) (by decide) (by omega) (by omega) hcs]
        simp only [Except.ok.injEq, Prod.mk.injEq, and_true, Subtype.mk.injEq]
        omega
      · rw [fraction_padded (k := 0) (by decide) (by decide) (by omega) (by omega) hcs]
        simp only [Except.ok.injEq, Prod.mk.injEq, and_true, Subtype.mk.injEq]
        omega

end Timestamp

/-! ## Whole timestamps -/

namespace Instant

/-- The year, in universal time. -/
def year (t : Instant) : Int :=
  (Date.ofDay (t.second / 86400)).year

theorem yearText_of_nat {y : Nat} (h : y < 10 ^ 4) : yearText y = padded 4 y := by
  rw [yearText, if_neg (by omega), if_neg (by omega), Int.natAbs_natCast]

/-- The clock of an instant, put together again. -/
theorem ofClock_parts (t : Instant) (h : t.nano % 1000000000 < 1000000000) :
    ofClock (t.second / 86400) ((t.second % 86400).toNat / 3600)
      ((t.second % 86400).toNat / 60 % 60)
      ((t.second % 86400).toNat % 60 + if t.isLeap then 1 else 0)
      ⟨t.nano % 1000000000, h⟩ 0 = t := by
  have hlt := t.nano_lt
  cases hl : t.isLeap with
  | true =>
    have hnano : 1000000000 ≤ t.nano := by simpa [isLeap] using hl
    have hlast := t.leap_last hnano
    have hs : (t.second % 86400).toNat % 60 + 1 = 60 := by omega
    rw [if_pos rfl, hs]
    simp only [ofClock, ofParts, if_pos, dif_pos]
    exact Instant.ext (by simp only; omega) (by simp only; omega)
  | false =>
    have hnano : t.nano < 1000000000 := by simpa [isLeap] using hl
    have hs : (t.second % 86400).toNat % 60 ≠ 60 := by omega
    simp only [ofClock, ofParts, Bool.false_eq_true, if_false, Nat.add_zero, if_neg hs, dif_neg,
      not_false_eq_true]
    exact Instant.ext (by simp only; omega) (by simp only; omega)

/-- The text of an instant whose year has four digits, part by part. -/
theorem toList_write {t : Instant} {y : Nat} (hy : t.year = y) (h : y < 10 ^ 4)
    (zone : List Char) :
    (t.write zone).toList =
      padded 4 y ++ '-' :: padded 2 (Date.ofDay (t.second / 86400)).month ++
        '-' :: padded 2 (Date.ofDay (t.second / 86400)).dayOfMonth ++
        ('T' :: (padded 2 ((t.second % 86400).toNat / 3600) ++
          ':' :: padded 2 ((t.second % 86400).toNat / 60 % 60) ++
          ':' :: padded 2 ((t.second % 86400).toNat % 60 + if t.isLeap then 1 else 0) ++
          (fractionText (t.nano % 1000000000) ++ zone))) := by
  have hyear : (Date.ofDay (t.second / 86400)).year = (y : Int) := hy
  simp only [write, hyear, yearText_of_nat h, String.toList_ofList]
  simp

/-- **An instant reads back**, if its year has four digits. -/
theorem read_write {t : Instant} (h0 : 0 ≤ t.year) (h9 : t.year ≤ 9999) {zone : List Char}
    (hz : Timestamp.offset zone = .ok (0, [])) (hn : Timestamp.NoDigit zone)
    (hdot : zone.head? ≠ some '.') : read (t.write zone) = .ok t := by
  obtain ⟨y, hy⟩ := Int.eq_ofNat_of_zero_le h0
  have hy4 : y < 10 ^ 4 := by omega
  have hv := Date.valid_ofDay (t.second / 86400)
  have hday := Date.day_ofDay (t.second / 86400)
  have hyear : (Date.ofDay (t.second / 86400)).year = (y : Int) := hy
  have hnano : t.nano % 1000000000 < 1000000000 := Nat.mod_lt _ (by decide)
  have hsecond : (t.second % 86400).toNat % 60 + (if t.isLeap then 1 else 0) ≤ 60 := by
    split <;> omega
  have htext := toList_write hy hy4 zone
  have hlong : ¬ Timestamp.byteCount (t.write zone).toList < 19 := by
    rw [htext]
    exact Nat.not_lt.2 (Timestamp.le_byteCount_text _ _ _ _ _ _ _ _)
  unfold read
  simp only [if_neg hlong]
  rw [htext, Timestamp.day_text hv hyear hy4, hday]
  simp only [ok_bind, Timestamp.mark_cons, List.mem_cons, true_or]
  rw [Timestamp.clock_text (by omega) (by omega) (by omega), ok_bind,
    Timestamp.fraction_text hnano hn hdot, ok_bind]
  simp only []
  rw [if_neg (by omega)]
  simp only [hz, ok_bind, ne_eq, not_true_eq_false, if_false]
  rw [if_neg (by decide), ofClock_parts]

theorem read_stored {t : Instant} (h0 : 0 ≤ t.year) (h9 : t.year ≤ 9999) :
    read t.stored = .ok t :=
  read_write h0 h9 (by decide) (by simp [Timestamp.NoDigit]) (by decide)

theorem read_json {t : Instant} (h0 : 0 ≤ t.year) (h9 : t.year ≤ 9999) : read t.json = .ok t :=
  read_write h0 h9 (by decide) (by simp [Timestamp.NoDigit]) (by decide)

/-- A text that starts with anything but a digit is no timestamp. -/
theorem read_ne_ok {s : String} {c : Char} (hs : s.toList.head? = some c)
    (hc : c.isDigit = false) (t : Instant) : read s ≠ .ok t := by
  have hday : Timestamp.day s.toList = .error .invalid := by
    obtain ⟨cs, hcs⟩ := List.head?_eq_some_iff.1 hs
    rw [hcs]
    simp [Timestamp.day, Timestamp.digits, hc]
    rfl
  unfold read
  simp only [hday]
  split <;> exact fun h => nomatch h

/-- The text of a year that does not have four digits starts with a sign. -/
theorem sign_of_year {t : Instant} (h : ¬ (0 ≤ t.year ∧ t.year ≤ 9999)) (zone : List Char) :
    ∃ c, (t.write zone).toList.head? = some c ∧ c.isDigit = false := by
  unfold year at h
  by_cases h0 : (Date.ofDay (t.second / 86400)).year < 0
  · refine ⟨'-', ?_, by decide⟩
    simp [write, yearText, h0]
  · refine ⟨'+', ?_, by decide⟩
    have h9 : 9999 < (Date.ofDay (t.second / 86400)).year := by omega
    simp [write, yearText, h0, h9]

/-- **What is read is what was written**, whatever its year. -/
theorem eq_of_read_stored {t u : Instant} (h : read t.stored = .ok u) : u = t := by
  by_cases hy : 0 ≤ t.year ∧ t.year ≤ 9999
  · rw [read_stored hy.1 hy.2] at h
    exact (Except.ok.inj h).symm
  · obtain ⟨c, hs, hc⟩ := sign_of_year hy ['+', '0', '0', ':', '0', '0']
    exact absurd h (read_ne_ok hs hc u)

end Instant

end Rationale.Time
