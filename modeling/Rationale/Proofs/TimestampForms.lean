/-
  Rationale — which texts are timestamps.

  A timestamp is a date that exists, a time of day, an optional fraction of any
  number of digits, and an offset of less than a day; `Spells` says so, part by
  part, together with the instant that is meant.  Each part of the reader accepts
  the texts of its own part and leaves what follows.

  * `digits_eq_ok`, …, `offset_eq_ok`: what each part reads;
  * `read_eq_ok`: a text is read if and only if it is a timestamp, as the instant
    that it spells.
-/
import Rationale.Proofs.Numerals
import Rationale.Proofs.Storing

/-! ## Digits -/

namespace Rationale.Text

theorem padded_ofDigitChars {ds : List Char} (hne : 0 < ds.length) (h : ds.all Char.isDigit = true) :
    padded ds.length (Nat.ofDigitChars 10 ds 0) = ds := by
  have hlen : (padded ds.length (Nat.ofDigitChars 10 ds 0)).length = ds.length :=
    length_padded hne (ofDigitChars_lt h)
  exact (eq_of_ofDigitChars_eq (all_isDigit_padded _ _) h hlen (ofDigitChars_padded _ _)).2

end Rationale.Text

namespace Rationale.Time

open Text

namespace Timestamp

variable {cs rest zs fs : List Char} {allowed : List Char} {w n h m s : Nat} {d o : Int}

/-! ## The parts -/

/-- An optional fraction of the second, with its nanoseconds. -/
inductive Fraction : List Char → { n : Nat // n < 1000000000 } → Prop
  | none : Fraction [] ⟨0, by decide⟩
  | some {ds : List Char} (hne : ds ≠ []) (hds : ds.all Char.isDigit = true) :
    Fraction ('.' :: ds) ⟨nanos ds, nanos_lt hds⟩

/-- An offset of less than a day from universal time, in minutes. -/
inductive Zone : List Char → Int → Prop
  | universal {c : Char} : c ∈ ['Z', 'z'] → Zone [c] 0
  | ahead {h m : Nat} : h < 24 → m < 60 →
    Zone ('+' :: (padded 2 h ++ ':' :: padded 2 m)) (h * 60 + m)
  | behind {c : Char} {h m : Nat} : c ∈ ['-', '\u2212'] → h < 24 → m < 60 →
    Zone (c :: (padded 2 h ++ ':' :: padded 2 m)) (-(h * 60 + m))

theorem digits_eq_ok (hw : 0 < w) :
    digits w cs = .ok (n, rest) ↔ n < 10 ^ w ∧ cs = padded w n ++ rest := by
  constructor
  · intro hd
    refine ⟨lt_of_digits hd, ?_⟩
    unfold digits at hd
    dsimp only at hd
    split at hd
    · rename_i hall
      cases hd
      have htake : padded w (Nat.ofDigitChars 10 (cs.take w) 0) = cs.take w := by
        have hpad := padded_ofDigitChars (by omega : 0 < (cs.take w).length) hall.2
        rwa [hall.1] at hpad
      rw [htake, List.take_append_drop]
    · cases hd
  · rintro ⟨hlt, rfl⟩
    exact digits_padded hw hlt rest

theorem mark_eq_ok : mark allowed cs = .ok rest ↔ ∃ c ∈ allowed, cs = c :: rest := by
  constructor
  · intro hm
    cases cs with
    | nil => cases hm
    | cons c cs =>
      rw [mark] at hm
      split at hm
      · rename_i hc
        cases hm
        exact ⟨c, hc, rfl⟩
      · cases hm
  · rintro ⟨c, hc, rfl⟩
    exact mark_cons hc rest

theorem mark_one_eq_ok {c : Char} : mark [c] cs = .ok rest ↔ cs = c :: rest := by
  rw [mark_eq_ok]
  simp

theorem day_eq_ok : day cs = .ok (d, rest) ↔ ∃ (date : Date) (y : Nat), date.Valid ∧
    date.year = y ∧ y < 10 ^ 4 ∧ date.day = d ∧
    cs = padded 4 y ++ '-' :: padded 2 date.month ++ '-' :: padded 2 date.dayOfMonth ++ rest := by
  constructor
  · intro hd
    simp only [day, bind_eq_ok, Prod.exists] at hd
    obtain ⟨y, cs₁, hy, cs₂, hmark, m, cs₃, hm, cs₄, hmark', k, cs₅, hk, hd⟩ := hd
    obtain ⟨hy4, rfl⟩ := (digits_eq_ok (by decide)).1 hy
    obtain rfl := mark_one_eq_ok.1 hmark
    obtain ⟨-, rfl⟩ := (digits_eq_ok (by decide)).1 hm
    obtain rfl := mark_one_eq_ok.1 hmark'
    obtain ⟨-, rfl⟩ := (digits_eq_ok (by decide)).1 hk
    split at hd
    · rename_i hvalid
      cases hd
      refine ⟨⟨y, m, k⟩, y, hvalid, rfl, hy4, rfl, ?_⟩
      simp only [List.append_assoc, List.cons_append]
    · cases hd
  · rintro ⟨date, y, hvalid, hyear, hy4, rfl, rfl⟩
    exact day_text hvalid hyear hy4 rest

theorem clock_eq_ok : clock cs = .ok ((h, m, s), rest) ↔
    (h < 10 ^ 2 ∧ m < 10 ^ 2 ∧ s < 10 ^ 2) ∧
    cs = padded 2 h ++ ':' :: padded 2 m ++ ':' :: padded 2 s ++ rest := by
  constructor
  · intro hc
    simp only [clock, bind_eq_ok, Prod.exists] at hc
    obtain ⟨h', cs₁, hh, cs₂, hmark, m', cs₃, hm, cs₄, hmark', s', cs₅, hs, hc⟩ := hc
    obtain ⟨hh2, rfl⟩ := (digits_eq_ok (by decide)).1 hh
    obtain rfl := mark_one_eq_ok.1 hmark
    obtain ⟨hm2, rfl⟩ := (digits_eq_ok (by decide)).1 hm
    obtain rfl := mark_one_eq_ok.1 hmark'
    obtain ⟨hs2, rfl⟩ := (digits_eq_ok (by decide)).1 hs
    cases hc
    exact ⟨⟨hh2, hm2, hs2⟩, by simp only [List.append_assoc, List.cons_append]⟩
  · rintro ⟨⟨hh, hm, hs⟩, rfl⟩
    exact clock_text hh hm hs rest

theorem fraction_eq_ok {nano : { n : Nat // n < 1000000000 }} :
    fraction cs = .ok (nano, rest) ↔ ∃ fs, Fraction fs nano ∧ cs = fs ++ rest ∧
      (fs = [] → rest.head? ≠ some '.') ∧ (fs ≠ [] → NoDigit rest) := by
  constructor
  · intro hf
    unfold fraction at hf
    split at hf
    · rename_i cs
      split at hf
      · cases hf
      · rename_i c cs
        split at hf
        · rename_i hc
          cases hf
          have hne : (c :: cs).takeWhile Char.isDigit ≠ [] := by simp [hc]
          refine ⟨'.' :: (c :: cs).takeWhile Char.isDigit, .some hne List.all_takeWhile, ?_, ?_, ?_⟩
          · rw [List.cons_append, List.takeWhile_append_dropWhile]
          · exact fun h => nomatch h
          · intro _ c' hc'
            have hhead := List.head?_dropWhile_not Char.isDigit (c :: cs)
            rw [Option.mem_def.1 hc'] at hhead
            simpa using hhead
        · cases hf
    · rename_i hdot
      cases hf
      refine ⟨[], .none, rfl, fun _ hhead => ?_, fun h => absurd rfl h⟩
      obtain ⟨cs', hcs'⟩ := List.head?_eq_some_iff.1 hhead
      exact hdot cs' hcs'
  · rintro ⟨fs, hfs, rfl, hnone, hsome⟩
    cases hfs with
    | none => exact fraction_none (hnone rfl)
    | some hne hds => exact fraction_digits hne hds (hsome (by simp))

theorem offsetSize_eq_ok : offsetSize cs = .ok ((h, m), rest) ↔
    h < 10 ^ 2 ∧ m < 60 ∧ cs = padded 2 h ++ ':' :: padded 2 m ++ rest := by
  constructor
  · intro ho
    unfold offsetSize at ho
    split at ho
    · cases ho
    rw [bind_eq_ok] at ho
    obtain ⟨⟨h', cs₁⟩, hh, ho⟩ := ho
    obtain ⟨hh2, rfl⟩ := (digits_eq_ok (by decide)).1 hh
    cases cs₁ with
    | nil => cases ho
    | cons c cs₂ =>
      dsimp only at ho
      split at ho
      · cases ho
      rename_i hc
      split at ho
      · cases ho
      rw [bind_eq_ok] at ho
      obtain ⟨⟨m', cs₃⟩, hm, ho⟩ := ho
      obtain ⟨-, rfl⟩ := (digits_eq_ok (by decide)).1 hm
      dsimp only at ho
      split at ho
      · cases ho
      rename_i hm60
      cases ho
      obtain rfl := not_not.1 hc
      exact ⟨hh2, by omega, by simp only [List.append_assoc, List.cons_append]⟩
  · rintro ⟨hh, hm, rfl⟩
    have hlong : ∀ (k : Nat) (cs : List Char), ¬ byteCount (padded 2 k ++ cs) < 2 := by
      intro k cs
      have hbytes := length_le_byteCount (padded 2 k ++ cs)
      have hpad := le_length_padded 2 k
      rw [List.length_append] at hbytes
      omega
    simp only [offsetSize, List.append_assoc, List.cons_append, if_neg (hlong _ _),
      digits_padded (by decide : 0 < 2) hh, digits_padded (by decide : 0 < 2) (by omega : m < 10 ^ 2),
      ok_bind, ne_eq, not_true_eq_false, if_false, if_neg (by omega : ¬ 60 ≤ m)]

/-- An offset at the end of a timestamp. -/
theorem offset_eq_ok : offset zs = .ok (o, []) ∧ -1440 < o ∧ o < 1440 ↔ Zone zs o := by
  constructor
  · rintro ⟨ho, hlow, hhigh⟩
    cases zs with
    | nil => cases ho
    | cons c cs =>
      rw [offset] at ho
      split at ho
      · rename_i hc
        cases ho
        exact .universal (by simpa using hc)
      · split at ho
        · rename_i hsign
          rw [bind_eq_ok] at ho
          obtain ⟨⟨⟨h, m⟩, cs'⟩, hsize, ho⟩ := ho
          obtain ⟨-, hm, rfl⟩ := offsetSize_eq_ok.1 hsize
          dsimp only at ho
          cases ho
          rw [List.append_nil]
          by_cases hplus : c = '+'
          · subst hplus
            rw [if_pos rfl] at hlow hhigh ⊢
            exact .ahead (by omega) hm
          · rw [if_neg hplus] at hlow hhigh ⊢
            have hminus : c ∈ ['-', '\u2212'] := by
              rcases hsign with rfl | hc | hc
              · exact absurd rfl hplus
              · simp [hc]
              · simp [hc]
            exact .behind hminus (by omega) hm
        · cases ho
  · intro hz
    have hsize : ∀ {h m : Nat}, h < 24 → m < 60 →
        offsetSize (padded 2 h ++ ':' :: padded 2 m) = .ok ((h, m), []) := fun hh hm =>
      offsetSize_eq_ok.2 ⟨by omega, hm, by rw [List.append_nil]⟩
    cases hz with
    | @universal c hc =>
      have hc' : c = 'Z' ∨ c = 'z' := by simpa using hc
      rw [offset, if_pos hc']
      exact ⟨rfl, by decide, by decide⟩
    | @ahead h m hh hm =>
      refine ⟨?_, by omega, by omega⟩
      rw [offset, if_neg (by decide), if_pos (by decide), hsize hh hm]
      rfl
    | @behind c h m hc hh hm =>
      refine ⟨?_, by omega, by omega⟩
      rcases List.mem_pair.1 hc with rfl | rfl <;>
      · rw [offset, if_neg (by decide), if_pos (by decide), hsize hh hm]
        rfl

end Timestamp

/-! ## Whole timestamps -/

namespace Instant

open Timestamp

/-- The text is a timestamp, and the instant is the one that it means. -/
inductive Spells : String → Instant → Prop
  | intro {date : Date} {y h m s : Nat} {nano : { n : Nat // n < 1000000000 }} {o : Int}
      {sep : Char} {fs zs : List Char} : date.Valid → date.year = y → y < 10 ^ 4 →
      sep ∈ ['T', 't', ' '] → h ≤ 23 → m ≤ 59 → s ≤ 60 → Fraction fs nano → Zone zs o →
      Spells (String.ofList (padded 4 y ++ '-' :: padded 2 date.month ++
        '-' :: padded 2 date.dayOfMonth ++ sep :: (padded 2 h ++ ':' :: padded 2 m ++
        ':' :: padded 2 s ++ (fs ++ zs)))) (ofClock date.day h m s nano o)

/-- What an offset starts with belongs to no fraction. -/
theorem head_of_zone {zs : List Char} {o : Int} (hz : Zone zs o) :
    zs.head? ≠ some '.' ∧ NoDigit zs := by
  have hhead : ∃ c ∈ ['Z', 'z', '+', '-', '\u2212'], zs.head? = some c := by
    cases hz with
    | @universal c hc => exact ⟨c, by simp at hc ⊢; tauto, rfl⟩
    | ahead => exact ⟨'+', by simp, rfl⟩
    | @behind c h m hc => exact ⟨c, by simp at hc ⊢; tauto, rfl⟩
  obtain ⟨c, hc, hzs⟩ := hhead
  unfold NoDigit
  rw [hzs]
  simp only [List.mem_cons, List.not_mem_nil, or_false] at hc
  rcases hc with rfl | rfl | rfl | rfl | rfl <;> simp

/-- **A text is read if and only if it is a timestamp.** -/
theorem read_eq_ok {text : String} {t : Instant} : read text = .ok t ↔ Spells text t := by
  constructor
  · intro hr
    unfold read at hr
    dsimp only at hr
    split at hr
    · cases hr
    obtain ⟨⟨d, cs₁⟩, hday, hr⟩ := bind_eq_ok.1 hr
    obtain ⟨cs₂, hsep, hr⟩ := bind_eq_ok.1 hr
    obtain ⟨⟨⟨h, m, s⟩, cs₃⟩, hclock, hr⟩ := bind_eq_ok.1 hr
    obtain ⟨⟨nano, cs₄⟩, hfraction, hr⟩ := bind_eq_ok.1 hr
    dsimp only at hr
    split at hr
    · cases hr
    rename_i hbounds
    obtain ⟨⟨o, cs₅⟩, hoffset, hr⟩ := bind_eq_ok.1 hr
    dsimp only at hr
    split at hr
    · cases hr
    rename_i hend
    split at hr
    · cases hr
    rename_i hrange
    cases hr
    obtain ⟨date, y, hvalid, hyear, hy4, rfl, htext⟩ := day_eq_ok.1 hday
    obtain ⟨sep, hmem, rfl⟩ := mark_eq_ok.1 hsep
    obtain ⟨-, rfl⟩ := clock_eq_ok.1 hclock
    obtain ⟨fs, hfs, rfl, -, -⟩ := fraction_eq_ok.1 hfraction
    obtain rfl := not_not.1 hend
    have hzone : Zone cs₄ o := offset_eq_ok.1 ⟨hoffset, by omega, by omega⟩
    rw [← String.ofList_toList (s := text), htext]
    exact .intro hvalid hyear hy4 hmem (by omega) (by omega) (by omega) hfs hzone
  · intro hs
    cases hs with
    | @intro date y h m s nano o sep fs zs hvalid hyear hy4 hsep hh hm hs hfs hzone =>
      obtain ⟨hdot, hdigit⟩ := head_of_zone hzone
      obtain ⟨hoffset, hlow, hhigh⟩ := offset_eq_ok.2 hzone
      have hfraction : fraction (fs ++ zs) = .ok (nano, zs) :=
        fraction_eq_ok.2 ⟨fs, hfs, rfl, fun _ => hdot, fun _ => hdigit⟩
      unfold read
      simp only [String.toList_ofList,
        if_neg (Nat.not_lt.2 (le_byteCount_text _ _ _ _ _ _ _ _))]
      rw [day_text hvalid hyear hy4, ok_bind, mark_cons hsep, ok_bind,
        clock_text (by omega) (by omega) (by omega), ok_bind, hfraction, ok_bind]
      simp only [if_neg (by omega : ¬ (23 < h ∨ 59 < m ∨ 60 < s)), hoffset, ok_bind, ne_eq,
        not_true_eq_false, if_false, if_neg (by omega : ¬ (o ≤ -1440 ∨ 1440 ≤ o))]

end Instant

end Rationale.Time
