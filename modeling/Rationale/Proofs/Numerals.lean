/-
  Rationale — which texts are numbers.

  The text of an integer is a run of ASCII digits after at most one sign
  (`WritesInt`); no other text is read as one, and it is read as a 64-bit number
  if and only if it is in the range of these.  An id that a filter is given may
  stand between blanks (`WritesId`).

  * `int64?_isSome_iff`: which texts are read as 64-bit numbers;
  * `trim_append`, `exists_trim`: what a text is without the blanks around it;
  * `id_isSome_iff`: which texts are read as ids.
-/
import Rationale.Text.Decimal

namespace Rationale.Text

variable {cs as bs before core after : List Char} {n : Int}

/-! ## Digits -/

theorem digit_eq {c d : Char} (hc : c.isDigit = true) (hd : d.isDigit = true)
    (h : c.toNat - '0'.toNat = d.toNat - '0'.toNat) : c = d := by
  simp only [Char.isDigit, Bool.and_eq_true, decide_eq_true_eq] at hc hd
  have hc0 : 48 ≤ c.toNat := hc.1
  have hd0 : 48 ≤ d.toNat := hd.1
  have h0 : '0'.toNat = 48 := rfl
  have hnat : c.toNat = d.toNat := by omega
  exact Char.ext (UInt32.toNat_inj.1 hnat)

/-- Of all texts of one length, a number has one only. -/
theorem eq_of_ofDigitChars_eq (has : as.all Char.isDigit = true) (hbs : bs.all Char.isDigit = true)
    (hlen : as.length = bs.length) {i j : Nat}
    (h : Nat.ofDigitChars 10 as i = Nat.ofDigitChars 10 bs j) : i = j ∧ as = bs := by
  induction as generalizing bs i j with
  | nil =>
    cases bs with
    | nil => exact ⟨by simpa using h, rfl⟩
    | cons b bs => cases hlen
  | cons a as ih =>
    cases bs with
    | nil => cases hlen
    | cons b bs =>
      rw [List.all_cons, Bool.and_eq_true] at has hbs
      rw [Nat.ofDigitChars_cons, Nat.ofDigitChars_cons] at h
      obtain ⟨hacc, rfl⟩ := ih has.2 hbs.2 (Nat.succ.inj hlen) h
      have ha := digit_lt has.1
      have hb := digit_lt hbs.1
      have hval : a.toNat - '0'.toNat = b.toNat - '0'.toNat := by omega
      exact ⟨by omega, by rw [digit_eq has.1 hbs.1 hval]⟩

/-! ## Integers -/

/-- The text is at most one sign and then digits, and writes that integer. -/
inductive WritesInt : List Char → Int → Prop
  | bare {ds : List Char} : ds ≠ [] → ds.all Char.isDigit = true →
    WritesInt ds (Nat.ofDigitChars 10 ds 0)
  | plus {ds : List Char} : ds ≠ [] → ds.all Char.isDigit = true →
    WritesInt ('+' :: ds) (Nat.ofDigitChars 10 ds 0)
  | minus {ds : List Char} : ds ≠ [] → ds.all Char.isDigit = true →
    WritesInt ('-' :: ds) (-(Nat.ofDigitChars 10 ds 0))

/-- The text writes a signed 64-bit number. -/
def WritesInt64 (cs : List Char) : Prop :=
  ∃ n, WritesInt cs n ∧ -9223372036854775808 ≤ n ∧ n ≤ 9223372036854775807

/-- The text writes a signed 64-bit number between blanks. -/
def WritesId (cs : List Char) : Prop :=
  ∃ before core after, cs = before ++ core ++ after ∧ (∀ c ∈ before, isBlank c = true) ∧
    (∀ c ∈ after, isBlank c = true) ∧ WritesInt64 core

theorem natOfChars?_eq_some {m : Nat} : natOfChars? cs = some m ↔
    cs ≠ [] ∧ cs.all Char.isDigit = true ∧ Nat.ofDigitChars 10 cs 0 = m := by
  simp [natOfChars?, and_assoc]

theorem map_natOfChars?_eq_some {f : Int → Int} :
    (do let m ← natOfChars? cs; pure (m : Int)).map f = some n ↔
      cs ≠ [] ∧ cs.all Char.isDigit = true ∧ f (Nat.ofDigitChars 10 cs 0) = n := by
  simp [natOfChars?_eq_some, Option.bind_eq_some_iff, and_assoc]

theorem intOfChars?_eq_some : intOfChars? cs = some n ↔ WritesInt cs n := by
  constructor
  · intro h
    unfold intOfChars? at h
    split at h
    · obtain ⟨hne, hds, rfl⟩ := map_natOfChars?_eq_some.1 h
      exact .plus hne hds
    · obtain ⟨hne, hds, rfl⟩ := map_natOfChars?_eq_some.1 h
      exact .minus hne hds
    · obtain ⟨hne, hds, rfl⟩ := map_natOfChars?_eq_some.1 h
      exact .bare hne hds
  · intro h
    cases h with
    | bare hne hds =>
      unfold intOfChars?
      split
      · simp at hds
      · simp at hds
      · exact map_natOfChars?_eq_some.2 ⟨hne, hds, rfl⟩
    | plus hne hds =>
      rw [intOfChars?]
      exact map_natOfChars?_eq_some.2 ⟨hne, hds, rfl⟩
    | minus hne hds =>
      rw [intOfChars?]
      exact map_natOfChars?_eq_some.2 ⟨hne, hds, rfl⟩

theorem int64OfInt?_isSome_iff :
    (int64OfInt? n).isSome = true ↔ -9223372036854775808 ≤ n ∧ n ≤ 9223372036854775807 := by
  unfold int64OfInt?
  split
  · rename_i hrange
    exact iff_of_true rfl hrange
  · rename_i hrange
    exact iff_of_false (fun h => nomatch h) hrange

theorem int64OfChars_isSome_iff :
    ((intOfChars? cs).bind int64OfInt?).isSome = true ↔ WritesInt64 cs := by
  constructor
  · intro h
    obtain ⟨m, hm⟩ := Option.isSome_iff_exists.1 h
    obtain ⟨n, hn, hm⟩ := Option.bind_eq_some_iff.1 hm
    exact ⟨n, intOfChars?_eq_some.1 hn, int64OfInt?_isSome_iff.1 (by rw [hm]; rfl)⟩
  · rintro ⟨n, hn, hrange⟩
    rw [intOfChars?_eq_some.2 hn]
    exact int64OfInt?_isSome_iff.2 hrange

/-- **Which texts are 64-bit numbers.** -/
theorem int64?_isSome_iff {s : String} : (int64? s).isSome = true ↔ WritesInt64 s.toList :=
  int64OfChars_isSome_iff

theorem WritesInt.ne_nil (h : WritesInt cs n) : cs ≠ [] := by
  cases h with
  | bare hne => exact hne
  | plus => exact List.cons_ne_nil _ _
  | minus => exact List.cons_ne_nil _ _

theorem WritesInt.not_blank (h : WritesInt cs n) : ∀ c ∈ cs, isBlank c = false := by
  have hdigits : ∀ {ds : List Char}, ds.all Char.isDigit = true → ∀ c ∈ ds, isBlank c = false :=
    fun hds c hc => isBlank_eq_false_of_isDigit (List.all_eq_true.1 hds c hc)
  cases h with
  | bare _ hds => exact hdigits hds
  | plus _ hds => exact List.forall_mem_cons.2 ⟨by decide, hdigits hds⟩
  | minus _ hds => exact List.forall_mem_cons.2 ⟨by decide, hdigits hds⟩

/-! ## Blanks at the ends -/

theorem dropWhile_isBlank_append (hbefore : ∀ c ∈ before, isBlank c = true) (hne : core ≠ [])
    (hcore : ∀ c ∈ core, isBlank c = false) :
    (before ++ core ++ after).dropWhile isBlank = core ++ after := by
  rw [List.append_assoc, List.dropWhile_append_of_pos hbefore]
  cases core with
  | nil => exact absurd rfl hne
  | cons c core => simp [hcore c (by simp)]

/-- A text between blanks that has none itself. -/
theorem trim_append (hbefore : ∀ c ∈ before, isBlank c = true)
    (hafter : ∀ c ∈ after, isBlank c = true) (hne : core ≠ [])
    (hcore : ∀ c ∈ core, isBlank c = false) : trim (before ++ core ++ after) = core := by
  have hback : (core ++ after).reverse = after.reverse ++ core.reverse ++ [] := by
    rw [List.reverse_append, List.append_nil]
  rw [trim, dropWhile_isBlank_append hbefore hne hcore, hback,
    dropWhile_isBlank_append (by simpa using hafter) (by simpa using hne) (by simpa using hcore),
    List.append_nil, List.reverse_reverse]

/-- A text is what is left of it between blanks. -/
theorem exists_trim (cs : List Char) : ∃ before after, cs = before ++ trim cs ++ after ∧
    (∀ c ∈ before, isBlank c = true) ∧ ∀ c ∈ after, isBlank c = true := by
  refine ⟨cs.takeWhile isBlank, ((cs.dropWhile isBlank).reverse.takeWhile isBlank).reverse,
    ?_, ?_, ?_⟩
  · rw [trim, List.append_assoc, ← List.reverse_append, List.takeWhile_append_dropWhile,
      List.reverse_reverse, List.takeWhile_append_dropWhile]
  · exact List.all_eq_true.1 List.all_takeWhile
  · intro c hc
    exact List.all_eq_true.1 List.all_takeWhile c (List.mem_reverse.1 hc)

/-- **Which texts are ids.** -/
theorem id_isSome_iff :
    ((intOfChars? (trim cs)).bind int64OfInt?).isSome = true ↔ WritesId cs := by
  rw [int64OfChars_isSome_iff]
  constructor
  · intro h
    obtain ⟨before, after, hcs, hbefore, hafter⟩ := exists_trim cs
    exact ⟨before, trim cs, after, hcs, hbefore, hafter, h⟩
  · rintro ⟨before, core, after, rfl, hbefore, hafter, hcore⟩
    obtain ⟨n, hn, -⟩ := id hcore
    rwa [trim_append hbefore hafter hn.ne_nil hn.not_blank]

end Rationale.Text
