/-
  Rationale — instants that a store keeps.

  A store keeps an instant as a timestamp in universal time, and a timestamp
  has a year of four digits.  The offset of a timestamp can carry an instant
  out of these years: the last hours of the year 9999, west of the meridian,
  are in the year 10000.  The text of such an instant starts with a sign, and no
  timestamp does.

  * `Instant.year_of_read`: an offset carries an instant out by no more than a
    year;
  * `Instant.read_stored_eq_ok`: what is stored can be read if and only if the
    year has four digits;
  * `Store.kept_of_read`: so it is for attempts, and a locator with an attempt
    that cannot be read has no status any more.
-/
import Rationale.Proofs.Companions
import Rationale.Proofs.Timestamps

namespace Rationale

namespace Time

/-! ## Years of what is read -/

theorem dayOfYear_le (leap : Bool) : ∀ m ≤ 12,
    daysBeforeMonth leap m + monthLength leap m ≤ if leap then 366 else 365 := by
  cases leap <;> decide +kernel

/-- A date lies in its year. -/
theorem Date.day_bounds {d : Date} (h : d.Valid) :
    daysBeforeYear d.year ≤ d.day ∧ d.day < daysBeforeYear (d.year + 1) := by
  have hyear := dayOfYear_le (isLeapYear d.year) d.month (Timestamp.month_le_of_valid h)
  have hfirst := h.1
  have hlast := h.2
  rw [daysBeforeYear_succ]
  unfold Date.day
  by_cases hleap : isLeapYear d.year = true
  · rw [if_pos hleap] at hyear ⊢
    omega
  · rw [if_neg hleap] at hyear ⊢
    omega

theorem daysBeforeYear_le {y z : Int} (h : y ≤ z) : daysBeforeYear y ≤ daysBeforeYear z := by
  unfold daysBeforeYear
  omega

/-- A day with no more than a day between it and the years `y` to `z` is no
    more than a year away from them. -/
theorem yearOfDay_bounds {d y z : Int} (hy : daysBeforeYear y - 1 ≤ d)
    (hz : d ≤ daysBeforeYear (z + 1)) : y - 1 ≤ yearOfDay d ∧ yearOfDay d ≤ z + 1 := by
  obtain ⟨hfirst, hlast⟩ := yearOfDay_spec d
  constructor
  · by_contra hlt
    have hbefore := daysBeforeYear_le (show yearOfDay d + 1 ≤ y - 1 by omega)
    have hsucc := daysBeforeYear_succ (y - 1)
    rw [Int.sub_add_cancel] at hsucc
    split at hsucc <;> omega
  · by_contra hlt
    have hafter := daysBeforeYear_le (show z + 1 + 1 ≤ yearOfDay d by omega)
    have hsucc := daysBeforeYear_succ (z + 1)
    split at hsucc <;> omega

namespace Timestamp

theorem lt_of_digits {w n : Nat} {cs cs' : List Char} (h : digits w cs = .ok (n, cs')) :
    n < 10 ^ w := by
  unfold digits at h
  dsimp only at h
  split at h
  · rename_i hdigits
    cases h
    have hlt := Text.ofDigitChars_lt hdigits.2
    rwa [hdigits.1] at hlt
  · cases h

theorem day_bounds {cs cs' : List Char} {d : Int} (h : day cs = .ok (d, cs')) :
    0 ≤ d ∧ d < daysBeforeYear 10000 := by
  obtain ⟨⟨y, cs₁⟩, hy, h⟩ := bind_eq_ok.1 h
  obtain ⟨cs₂, -, h⟩ := bind_eq_ok.1 h
  obtain ⟨⟨m, cs₃⟩, -, h⟩ := bind_eq_ok.1 h
  obtain ⟨cs₄, -, h⟩ := bind_eq_ok.1 h
  obtain ⟨⟨k, cs₅⟩, -, h⟩ := bind_eq_ok.1 h
  have hy4 := lt_of_digits hy
  dsimp only at h
  split at h
  · rename_i hvalid
    cases h
    obtain ⟨hfirst, hlast⟩ := Date.day_bounds hvalid
    have hzero : 0 ≤ daysBeforeYear y := daysBeforeYear_le (show 0 ≤ (y : Int) by omega)
    have hend := daysBeforeYear_le (show (y : Int) + 1 ≤ 10000 by omega)
    exact ⟨Int.le_trans hzero hfirst, Int.lt_of_lt_of_le hlast hend⟩
  · cases h

end Timestamp

namespace Instant

variable {s : String} {t : Instant}

theorem second_ofClock (day : Int) (h m s : Nat) (nano : { n : Nat // n < 1000000000 })
    (offset : Int) : (ofClock day h m s nano offset).second =
      (day * 1440 + h * 60 + m - offset) * 60 + if s = 60 then 59 else s := by
  unfold ofClock ofParts
  by_cases hs : s = 60
  · simp [hs]
  · simp [hs]

/-- A timestamp is a time on a day of the years 0 to 9999, moved by less than a
    day. -/
theorem second_of_read (h : read s = .ok t) : ∃ d : Int, 0 ≤ d ∧ d < daysBeforeYear 10000 ∧
    (d - 1) * 86400 ≤ t.second ∧ t.second < (d + 2) * 86400 := by
  unfold read at h
  dsimp only at h
  split at h
  · cases h
  obtain ⟨⟨d, cs₁⟩, hd, h⟩ := bind_eq_ok.1 h
  obtain ⟨cs₂, -, h⟩ := bind_eq_ok.1 h
  obtain ⟨⟨⟨h', m, s'⟩, cs₃⟩, -, h⟩ := bind_eq_ok.1 h
  obtain ⟨⟨nano, cs₄⟩, -, h⟩ := bind_eq_ok.1 h
  dsimp only at h
  split at h
  · cases h
  rename_i hclock
  obtain ⟨⟨offset, cs₅⟩, -, h⟩ := bind_eq_ok.1 h
  dsimp only at h
  split at h
  · cases h
  split at h
  · cases h
  rename_i hoffset
  cases h
  obtain ⟨hfirst, hlast⟩ := Timestamp.day_bounds hd
  refine ⟨d, hfirst, hlast, ?_⟩
  rw [second_ofClock]
  split <;> omega

/-- **An offset carries an instant out of the years by no more than a year.** -/
theorem year_of_read (h : read s = .ok t) : -1 ≤ t.year ∧ t.year ≤ 10000 := by
  obtain ⟨d, hfirst, hlast, hlow, hhigh⟩ := second_of_read h
  have hlow' : daysBeforeYear 0 - 1 ≤ t.second / 86400 := by
    rw [show daysBeforeYear 0 = 0 from rfl]
    omega
  have hhigh' : t.second / 86400 ≤ daysBeforeYear (9999 + 1) := by
    rw [show (9999 + 1 : Int) = 10000 from rfl]
    omega
  exact yearOfDay_bounds hlow' hhigh'

/-- The year of the instant, in universal time, has four digits. -/
def FourDigits (t : Instant) : Prop :=
  0 ≤ t.year ∧ t.year ≤ 9999

instance (t : Instant) : Decidable t.FourDigits :=
  inferInstanceAs (Decidable (_ ∧ _))

/-- What is stored can be read if the year has four digits, and not otherwise. -/
theorem read_stored_eq_ok {u : Instant} : read t.stored = .ok u ↔ u = t ∧ t.FourDigits := by
  constructor
  · intro h
    refine ⟨eq_of_read_stored h, ?_⟩
    by_contra hyear
    obtain ⟨c, hs, hc⟩ := sign_of_year hyear ['+', '0', '0', ':', '0', '0']
    exact read_ne_ok hs hc u h
  · rintro ⟨rfl, hyear⟩
    exact read_stored hyear.1 hyear.2

end Instant

end Time

open Time

/-! ## Attempts -/

namespace Attempt

variable {a b : Attempt}

/-- A row reads back as the attempt if it was completed in a year of four digits. -/
theorem decode_row_eq_ok : a.row.decode = .ok b ↔ b = a ∧ a.completeAt.FourDigits := by
  have hverdict : Coded.decode (Coded.text a.verdict) = .ok a.verdict := Coded.decode_text _
  constructor
  · intro h
    obtain ⟨t, ht, h⟩ := bind_eq_ok.1 h
    obtain ⟨v, hv, h⟩ := bind_eq_ok.1 h
    obtain ⟨rfl, hyear⟩ := Instant.read_stored_eq_ok.1 (Instant.decode_eq_ok.1 ht)
    cases hverdict.symm.trans hv
    cases h
    exact ⟨rfl, hyear⟩
  · rintro ⟨rfl, hyear⟩
    have ht : Instant.decode b.completeAt.stored = .ok b.completeAt :=
      Instant.decode_eq_ok.2 (Instant.read_stored_eq_ok.2 ⟨rfl, hyear⟩)
    exact bind_eq_ok.2 ⟨_, ht, bind_eq_ok.2 ⟨_, hverdict, rfl⟩⟩

end Attempt

/-- The attempt in the log, under that number. -/
def NewAttempt.numbered (new : NewAttempt) (i : Id) : Attempt where
  id := i
  locatorId := new.locatorId
  completeAt := new.completeAt
  verdict := new.verdict
  quotation := new.quotation
  foundQuotation := new.foundQuotation
  errorMessage := new.errorMessage

namespace Store

variable {db db' : Store} {i : Id} {new : NewAttempt} {a : Attempt}

/-- What recording does: a row goes to the end of the log, under the next number. -/
theorem record_eq_ok : db.record new = .ok (a, db') ↔
    (∃ l, db.locator new.locatorId = .ok l) ∧ a = new.numbered db.nextAttemptId ∧
      db' = { db with attempts := db.attempts ++ [a.row] } := by
  unfold record
  cases db.locator new.locatorId with
  | error e =>
    constructor
    · intro h
      cases h
    · rintro ⟨⟨l, hl⟩, -⟩
      cases hl
  | ok l =>
    constructor
    · intro h
      cases h
      exact ⟨⟨l, rfl⟩, rfl, rfl⟩
    · rintro ⟨-, rfl, rfl⟩
      rfl

/-! ## Statuses -/

theorem result_locatorStatus : (db.locatorStatus i).result =
    db.locator i >>= fun _ => LocatorStatus.ofHistory <$> db.history [i] := by
  simp only [locatorStatus, Logged.result_bind, Logged.result_ofExcept, Logged.result_warn, ok_bind]
  rfl

/-- A locator with an attempt that cannot be read has no status. -/
theorem locatorStatus_ne_ok {r : AttemptRow} (hr : r ∈ db.attempts) (hi : r.locatorId = i)
    (hdecode : ∀ a, r.decode ≠ .ok a) (status : LocatorStatus) :
    (db.locatorStatus i).result ≠ .ok status := by
  rw [result_locatorStatus]
  intro h
  obtain ⟨_, -, h⟩ := bind_eq_ok.1 h
  obtain ⟨as, has, -⟩ := map_eq_ok.1 h
  have hlisted : r ∈ (db.attempts.filter (·.locatorId ∈ [i])).mergeSort AttemptRow.notAfter := by
    rw [List.mem_mergeSort, List.mem_filter]
    exact ⟨hr, by simp [hi]⟩
  obtain ⟨a, -, ha⟩ := exists_mem_of_mapM has hlisted
  exact hdecode a ha

/-- **An instant that was read is kept if its year has four digits**, and is lost
    for good if not.  The offset of its text can carry it a year out of the years
    0 to 9999.  In these years, what is stored for it reads back as it was, and so
    does an attempt that was completed then.  Out of them, what is stored reads
    as nothing, and a locator that got such an attempt has no status any more,
    whatever is recorded later. -/
theorem kept_of_read {s : String} {t : Instant} (h : Instant.read s = .ok t) :
    -1 ≤ t.year ∧ t.year ≤ 10000 ∧
    (∀ u, Instant.read t.stored = .ok u ↔ u = t ∧ t.FourDigits) ∧
    ∀ (db db' : Store) (new : NewAttempt) (a : Attempt), new.completeAt = t →
      db.record new = .ok (a, db') →
      a.row ∈ db'.attempts ∧
      (∀ b, a.row.decode = .ok b ↔ b = a ∧ t.FourDigits) ∧
      (¬ t.FourDigits → ∀ later : Store, db'.attempts ⊆ later.attempts →
        ∀ status, (later.locatorStatus new.locatorId).result ≠ .ok status) := by
  obtain ⟨hlow, hhigh⟩ := Instant.year_of_read h
  refine ⟨hlow, hhigh, fun u => Instant.read_stored_eq_ok, ?_⟩
  intro db db' new a hnew hrecord
  obtain ⟨-, rfl, rfl⟩ := record_eq_ok.1 hrecord
  have hmem : (new.numbered db.nextAttemptId).row ∈
      db.attempts ++ [(new.numbered db.nextAttemptId).row] := by simp
  have hdecode : ∀ b, (new.numbered db.nextAttemptId).row.decode = .ok b ↔
      b = new.numbered db.nextAttemptId ∧ t.FourDigits := by
    intro b
    rw [← hnew]
    exact Attempt.decode_row_eq_ok
  refine ⟨hmem, hdecode, fun hyear later hlater status => ?_⟩
  exact locatorStatus_ne_ok (hlater hmem) rfl (fun b hb => hyear ((hdecode b).1 hb).2) status

end Store

/-- An attempt to find a quotation. -/
def NewAttempt.sample (i : Id) (t : Instant) (v : Verdict) : NewAttempt :=
  ⟨i, t, v, "Dry.", none, none⟩

namespace Store

/-- A store with two live locators. -/
def twoLocators : Store :=
  { urlLocators := [
      ⟨⟨1, 1, 1, "2024-01-01T00:00:00+00:00"⟩, none⟩,
      ⟨⟨2, 1, 2, "2024-01-01T00:00:00+00:00"⟩, none⟩] }

/-- The leap second of 2016, three hours behind universal time, is kept. -/
theorem kept_of_read_leapSecond : ∃ t a db',
    Instant.read "2016-12-31T20:59:60.1234567891-03:00" = .ok t ∧ t.isLeap = true ∧
    Instant.read t.stored = .ok t ∧
    twoLocators.record (.sample 1 t .found) = .ok (a, db') ∧ a.row.decode = .ok a := by
  obtain ⟨t, ht, hleap, hyear⟩ : ∃ t,
      Instant.read "2016-12-31T20:59:60.1234567891-03:00" = .ok t ∧ t.isLeap = true ∧
        t.FourDigits := ⟨_, rfl, by decide, by decide⟩
  obtain ⟨a, db', hrecord⟩ : ∃ a db',
      twoLocators.record (.sample 1 t .found) = .ok (a, db') := ⟨_, _, rfl⟩
  obtain ⟨-, -, hstored, hrecorded⟩ := kept_of_read ht
  obtain ⟨-, hdecode, -⟩ := hrecorded _ _ _ _ rfl hrecord
  exact ⟨t, a, db', ht, hleap, (hstored t).2 ⟨rfl, hyear⟩, hrecord, (hdecode a).2 ⟨rfl, hyear⟩⟩

/-- The last second of the year 9999, an hour behind universal time, is lost. -/
theorem lost_pastYear9999 : ∃ t a db',
    Instant.read "9999-12-31T23:59:59-01:00" = .ok t ∧
    t.stored = "+10000-01-01T00:59:59+00:00" ∧ (∀ u, Instant.read t.stored ≠ .ok u) ∧
    twoLocators.record (.sample 1 t .found) = .ok (a, db') ∧
    ∀ status, (db'.locatorStatus 1).result ≠ .ok status := by
  obtain ⟨t, ht, htext, hyear⟩ : ∃ t, Instant.read "9999-12-31T23:59:59-01:00" = .ok t ∧
      t.stored = "+10000-01-01T00:59:59+00:00" ∧ ¬ t.FourDigits := ⟨_, rfl, by decide, by decide⟩
  refine ⟨t, _, _, ht, htext, fun u hu => hyear (Instant.read_stored_eq_ok.1 hu).2, rfl, ?_⟩
  refine locatorStatus_ne_ok List.mem_cons_self rfl fun a ha => ?_
  exact hyear (Attempt.decode_row_eq_ok.1 ha).2

end Store

end Rationale
