/-
  Rationale — reading pieces back.

  A text is read for placeholders character by character, and what stands next
  to a piece can change what is read: a digit goes on a number, and a quote
  hides what follows.  Pieces that were read from a text are read again from
  what they write (`Scanned`), and so they are when their placeholders were
  moved, as long as the numbers still fit.

  * `Scanned.piecesFrom_write`: such pieces are read back;
  * `scanned_piecesFrom`: whatever is read from a text is of that kind;
  * `pieces_renumber`: what is read from a text that was moved;
  * `renumber_renumber`: texts that are moved twice.
-/
import Mathlib.Algebra.Ring.Nat
import Mathlib.Data.List.Basic
import Rationale.Sql.Composing

namespace Rationale.Sql

/-! ## Numbers -/

/-- The text does not go on a numeral. -/
def NoDigit (cs : List Char) : Prop :=
  ∀ c ∈ cs.head?, c.isDigit = false

theorem NoDigit.append {cs ds : List Char} (hc : NoDigit cs) (hd : NoDigit ds) :
    NoDigit (cs ++ ds) := by
  cases cs with
  | nil => exact hd
  | cons c cs => exact hc

/-- Digits are read up to what does not go on the numeral. -/
theorem piecesFrom_digits {ds ds' cs : List Char} (hds : ds'.all Char.isDigit = true)
    (hcs : NoDigit cs) :
    piecesFrom (.digits ds) (ds' ++ cs) = .ofDigits (ds ++ ds') :: piecesFrom .plain cs := by
  induction ds' generalizing ds with
  | nil =>
    rw [List.nil_append, List.append_nil]
    cases cs with
    | nil => rfl
    | cons c cs =>
      have hc : c.isDigit = false := hcs c rfl
      rw [piecesFrom, piecesFrom, if_neg (by simp [hc])]
      split <;> rfl
  | cons d ds' ih =>
    simp only [List.all_cons, Bool.and_eq_true] at hds
    rw [List.cons_append, piecesFrom, if_pos hds.1, ih hds.2, List.append_assoc]
    rfl

theorem ofDigits_toDigits {n : Nat} (h : n < 2 ^ 64) :
    Piece.ofDigits (Nat.toDigits 10 n) = .placeholder n := by
  rw [Piece.ofDigits, Text.natOfChars?_toDigits, Option.bind_some, Text.word64, if_pos (by omega)]

/-- Digits are a placeholder if their number fits a word. -/
theorem ofDigits_eq_placeholder_iff {ds : List Char} {n : Nat} :
    Piece.ofDigits ds = .placeholder n ↔ Text.natOfChars? ds = some n ∧ n < 2 ^ 64 := by
  unfold Piece.ofDigits Text.word64
  cases Text.natOfChars? ds with
  | none => simp
  | some m =>
    rw [Option.bind_some]
    by_cases hm : m < 18446744073709551616
    · rw [if_pos hm]
      constructor
      · rintro ⟨⟩
        exact ⟨rfl, by omega⟩
      · rintro ⟨⟨⟩, -⟩
        rfl
    · rw [if_neg hm]
      constructor
      · rintro ⟨⟩
      · rintro ⟨⟨⟩, hn⟩
        exact absurd hn (by omega)

theorem ofDigits_cases (ds : List Char) :
    Piece.ofDigits ds = .bare ∨ ∃ n < 2 ^ 64, Piece.ofDigits ds = .placeholder n := by
  cases h : Piece.ofDigits ds with
  | char c =>
    unfold Piece.ofDigits at h
    split at h <;> cases h
  | bare => exact .inl rfl
  | placeholder n => exact .inr ⟨n, (ofDigits_eq_placeholder_iff.1 h).2, rfl⟩

/-- A number that was begun is a piece of its own. -/
theorem exists_piecesFrom_digits (ds cs : List Char) :
    ∃ ds' ps, piecesFrom (.digits ds) cs = .ofDigits ds' :: ps := by
  induction cs generalizing ds with
  | nil => exact ⟨ds, [], rfl⟩
  | cons c cs ih =>
    rw [piecesFrom]
    split
    · exact ih (ds ++ [c])
    · split <;> exact ⟨ds, _, rfl⟩

/-! ## Quotes -/

/-- A placeholder is a question mark and digits. -/
theorem quote_not_mem_placeholder (n : Nat) : '\x27' ∉ (Piece.placeholder n).write := by
  have hdigits := List.all_eq_true.1 (Text.all_isDigit_toDigits n)
  intro hquote
  rcases List.mem_cons.1 hquote with hmark | hdigit
  · exact absurd hmark (by decide)
  · exact absurd (hdigits '\x27' hdigit) (by decide)

theorem count_quote_write (ps : List Piece) :
    (ps.flatMap Piece.write).count '\x27' = ps.count (.char '\x27') := by
  induction ps with
  | nil => rfl
  | cons p ps ih =>
    rw [List.flatMap_cons, List.count_append, ih]
    cases p with
    | char c => by_cases hc : c = '\x27' <;> simp [Piece.write, hc, Nat.add_comm]
    | placeholder n => simp [List.count_eq_zero_of_not_mem (quote_not_mem_placeholder n)]
    | bare => simp [Piece.write]

theorem count_quote_ofDigits (ds : List Char) (ps : List Piece) :
    (Piece.ofDigits ds :: ps).count (.char '\x27') = ps.count (.char '\x27') := by
  rcases ofDigits_cases ds with hds | ⟨n, -, hds⟩ <;> simp [hds]

/-- Every quote is read as a character. -/
theorem count_quote_piecesFrom (r : Reading) (cs : List Char) :
    (piecesFrom r cs).count (.char '\x27') = cs.count '\x27' := by
  fun_induction piecesFrom r cs with
  | case1 | case2 => rfl
  | case3 ds => exact count_quote_ofDigits ds []
  | case4 c cs ih => simp only [List.count_cons, ih, beq_iff_eq, Piece.char.injEq]
  | case5 cs ih => rw [ih, List.count_cons_of_ne (by decide)]
  | case6 c cs hmark ih => simp only [List.count_cons, ih, beq_iff_eq, Piece.char.injEq]
  | case7 ds c cs hdigit ih =>
    rw [ih, List.count_cons_of_ne]
    rintro rfl
    exact absurd hdigit (by decide)
  | case8 ds cs hdigit ih => rw [count_quote_ofDigits, ih, List.count_cons_of_ne (by decide)]
  | case9 ds c cs hdigit hmark ih =>
    rw [count_quote_ofDigits]
    simp only [List.count_cons, ih, beq_iff_eq, Piece.char.injEq]

/-! ## Pieces that are read back -/

/-- Pieces as a reader gives them that starts outside or inside a literal. -/
inductive Scanned : Reading → List Piece → Prop
  | plain : Scanned .plain []
  | literal : Scanned .literal []
  | char {c ps} : c ≠ '?' → Scanned (if c = '\x27' then .literal else .plain) ps →
      Scanned .plain (.char c :: ps)
  | quoted {c ps} : Scanned (if c = '\x27' then .plain else .literal) ps →
      Scanned .literal (.char c :: ps)
  | placeholder {n ps} : n < 2 ^ 64 → NoDigit (ps.flatMap Piece.write) → Scanned .plain ps →
      Scanned .plain (.placeholder n :: ps)
  | bare {ps} : NoDigit (ps.flatMap Piece.write) → Scanned .plain ps → Scanned .plain (.bare :: ps)

variable {r : Reading} {ps : List Piece} {s : String} {k : Nat}

/-- **Scanned pieces are read back.** -/
theorem Scanned.piecesFrom_write (h : Scanned r ps) :
    piecesFrom r (ps.flatMap Piece.write) = ps := by
  induction h with
  | plain | literal => rfl
  | char hmark _ ih =>
    rw [List.flatMap_cons, Piece.write, List.singleton_append, piecesFrom, if_neg hmark, ih]
  | quoted _ ih => rw [List.flatMap_cons, Piece.write, List.singleton_append, piecesFrom, ih]
  | placeholder hn hnext _ ih =>
    rw [List.flatMap_cons, Piece.write, List.cons_append, piecesFrom, if_pos rfl,
      piecesFrom_digits (Text.all_isDigit_toDigits _) hnext, List.nil_append,
      ofDigits_toDigits hn, ih]
  | @bare ps hnext _ ih =>
    have hnone : ([] : List Char).all Char.isDigit = true := rfl
    have hmark : piecesFrom (.digits []) (ps.flatMap Piece.write) =
        .bare :: piecesFrom .plain (ps.flatMap Piece.write) := piecesFrom_digits hnone hnext
    rw [List.flatMap_cons, Piece.write, List.singleton_append, piecesFrom, if_pos rfl, hmark, ih]

theorem Scanned.ofDigits (hnext : NoDigit (ps.flatMap Piece.write)) (h : Scanned .plain ps)
    (ds : List Char) : Scanned .plain (.ofDigits ds :: ps) := by
  rcases ofDigits_cases ds with hds | ⟨n, hn, hds⟩
  · rw [hds]
    exact .bare hnext h
  · rw [hds]
    exact .placeholder hn hnext h

theorem noDigit_write_ofDigits (ds : List Char) (ps : List Piece) :
    NoDigit ((Piece.ofDigits ds :: ps).flatMap Piece.write) := by
  rcases ofDigits_cases ds with hds | ⟨n, -, hds⟩ <;>
    simp [hds, NoDigit, Piece.write]

/-- **What is read from a text** is read back. -/
theorem scanned_piecesFrom (cs : List Char) :
    Scanned .plain (piecesFrom .plain cs) ∧ Scanned .literal (piecesFrom .literal cs) ∧
      ∀ ds, Scanned .plain (piecesFrom (.digits ds) cs) := by
  induction cs with
  | nil => exact ⟨.plain, .literal, fun ds => .ofDigits (by simp [NoDigit]) .plain ds⟩
  | cons c cs ih =>
    obtain ⟨hplain, hliteral, hdigits⟩ := ih
    have hchar (hmark : c ≠ '?') :
        Scanned .plain (.char c :: piecesFrom (if c = '\x27' then .literal else .plain) cs) := by
      refine .char hmark ?_
      split
      · exact hliteral
      · exact hplain
    refine ⟨?_, ?_, fun ds => ?_⟩
    · rw [piecesFrom]
      split
      · exact hdigits []
      · exact hchar ‹_›
    · rw [piecesFrom]
      refine .quoted ?_
      split
      · exact hplain
      · exact hliteral
    · rw [piecesFrom]
      split
      · exact hdigits (ds ++ [c])
      · rename_i hdigit
        split
        · -- the next number starts right behind this one
          have hnext := hdigits []
          obtain ⟨ds', ps, hps⟩ := exists_piecesFrom_digits [] cs
          rw [hps] at hnext ⊢
          exact .ofDigits (noDigit_write_ofDigits ds' ps) hnext ds
        · refine .ofDigits ?_ (hchar ‹_›) ds
          simpa [NoDigit, Piece.write] using hdigit

/-! ## Moving placeholders -/

theorem Piece.shift_zero (p : Piece) : p.shift 0 = p := by
  cases p <;> rfl

theorem Piece.shift_shift (a b : Nat) (p : Piece) : (p.shift a).shift b = p.shift (a + b) := by
  cases p with
  | char c => rfl
  | bare => rfl
  | placeholder n => rw [shift, shift, shift, Nat.add_assoc]

theorem head?_write_shift (k : Nat) (ps : List Piece) :
    ((ps.map (.shift k)).flatMap Piece.write).head? = (ps.flatMap Piece.write).head? := by
  cases ps with
  | nil => rfl
  | cons p ps => cases p <;> rfl

theorem count_char_shift (c : Char) (k : Nat) (ps : List Piece) :
    (ps.map (Piece.shift k)).count (Piece.char c) = ps.count (.char c) := by
  rw [List.count, List.countP_map]
  refine List.countP_congr fun p _ => ?_
  cases p <;> simp [Piece.shift]

/-- **Moving placeholders** leaves the quotes. -/
theorem count_quote_renumber (s : String) (k : Nat) :
    (renumber s k).toList.count '\x27' = s.toList.count '\x27' := by
  rw [renumber]
  split
  · rfl
  · rw [write, String.toList_ofList, count_quote_write, count_char_shift, pieces,
      count_quote_piecesFrom]

/-- Placeholders stay placeholders when they are moved, if their numbers fit. -/
theorem Scanned.shift (h : Scanned r ps) (hfits : ∀ n, .placeholder n ∈ ps → n + k < 2 ^ 64) :
    Scanned r (ps.map (.shift k)) := by
  induction h with
  | plain => exact .plain
  | literal => exact .literal
  | char hmark _ ih => exact .char hmark (ih fun n hn => hfits n (List.mem_cons_of_mem _ hn))
  | quoted _ ih => exact .quoted (ih fun n hn => hfits n (List.mem_cons_of_mem _ hn))
  | placeholder _ hnext _ ih =>
    refine .placeholder (hfits _ List.mem_cons_self) ?_
      (ih fun n hn => hfits n (List.mem_cons_of_mem _ hn))
    rw [NoDigit, head?_write_shift]
    exact hnext
  | bare hnext _ ih =>
    refine .bare ?_ (ih fun n hn => hfits n (List.mem_cons_of_mem _ hn))
    rw [NoDigit, head?_write_shift]
    exact hnext

/-- **The pieces of a text that is moved** are its pieces moved. -/
theorem pieces_renumber (h : ∀ n, .placeholder n ∈ pieces s → n + k < 2 ^ 64) :
    pieces (renumber s k) = (pieces s).map (.shift k) := by
  have hscanned := (scanned_piecesFrom s.toList).1.shift h
  rw [renumber]
  split
  · rename_i hzero
    rw [hzero, List.map_congr_left fun p _ => p.shift_zero, List.map_id']
  · rw [pieces, write, String.toList_ofList]
    exact hscanned.piecesFrom_write

/-- **Moving a text twice** is moving it once. -/
theorem renumber_renumber {a b : Nat}
    (h : ∀ n, .placeholder n ∈ pieces s → n + (a + b) < 2 ^ 64) :
    renumber (renumber s a) b = renumber s (a + b) := by
  by_cases hb : b = 0
  · rw [hb, renumber_zero, Nat.add_zero]
  have hpieces : pieces (renumber s a) = (pieces s).map (.shift a) := by
    refine pieces_renumber fun n hn => ?_
    have hn := h n hn
    omega
  calc renumber (renumber s a) b
      = write (((pieces s).map (.shift a)).map (.shift b)) := by rw [renumber, if_neg hb, hpieces]
    _ = write ((pieces s).map (.shift (a + b))) := by
        rw [List.map_map]
        exact congrArg write (List.map_congr_left fun p _ => p.shift_shift a b)
    _ = renumber s (a + b) := by rw [renumber, if_neg (by omega)]

end Rationale.Sql
