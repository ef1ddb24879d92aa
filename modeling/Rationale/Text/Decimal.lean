/-
  Rationale — decimal numerals and the integers they stand for.

  A numeral is a non-empty run of ASCII digits; leading zeros are allowed and
  nothing else is (`natOfChars?`).  A signed numeral may start with one sign
  (`intOfChars?`), and `int64?` and `word?` read a whole text as a signed
  64-bit number and as an unsigned one.

  * `natOfChars?_toDigits`: a numeral as it is usually written reads back;
  * `int64OfInt?_toInt`: every 64-bit number is in its own range;
  * `int64?_text`: a written 64-bit number reads back;
  * `trim_ofInt64`: it has no blanks.
-/
import Rationale.Text.Blank

namespace Rationale.Text

/-! ## Reading -/

/-- The number written by a non-empty run of digits. -/
def natOfChars? (cs : List Char) : Option Nat :=
  if !cs.isEmpty && cs.all Char.isDigit then some (Nat.ofDigitChars 10 cs 0) else none

/-- A numeral after at most one sign. -/
def intOfChars? : List Char → Option Int
  | '+' :: cs => (natOfChars? cs).map fun n => (n : Int)
  | '-' :: cs => (natOfChars? cs).map fun n => -(n : Int)
  | cs => (natOfChars? cs).map fun n => (n : Int)

/-- An integer as a signed 64-bit number, if it is in range. -/
def int64OfInt? (n : Int) : Option Int64 :=
  if -9223372036854775808 ≤ n ∧ n ≤ 9223372036854775807 then some (Int64.ofInt n) else none

/-- The signed 64-bit number that the whole text writes. -/
def int64? (s : String) : Option Int64 :=
  (intOfChars? s.toList).bind int64OfInt?

/-- A number below `2 ^ 64`. -/
def word64 (n : Nat) : Option Nat :=
  if n < 18446744073709551616 then some n else none

/-- The unsigned 64-bit number that the whole text writes; a plus sign is
    allowed and a minus sign is not. -/
def word? (s : String) : Option Nat :=
  match s.toList with
  | '+' :: cs => (natOfChars? cs).bind word64
  | cs => (natOfChars? cs).bind word64

/-! ## Writing -/

/-- A signed 64-bit number in decimal. -/
def ofInt64 (n : Int64) : String :=
  n.toInt.repr

/-- `n` in decimal, with zeros in front up to `width` digits. -/
def padded (width n : Nat) : List Char :=
  let ds := Nat.toDigits 10 n
  List.replicate (width - ds.length) '0' ++ ds

/-! ## Written numbers read back -/

theorem digit_lt {c : Char} (hc : c.isDigit = true) : c.toNat - '0'.toNat < 10 := by
  simp only [Char.isDigit, Bool.and_eq_true, decide_eq_true_eq] at hc
  have h9 : c.toNat ≤ 57 := hc.2
  have h0 : '0'.toNat = 48 := rfl
  omega

theorem ofDigitChars_lt_mul {cs : List Char} (h : cs.all Char.isDigit = true) (n : Nat) :
    Nat.ofDigitChars 10 cs n < (n + 1) * Nat.pow 10 cs.length := by
  induction cs generalizing n with
  | nil => simp
  | cons c cs ih =>
    simp only [List.all_cons, Bool.and_eq_true] at h
    have hc := digit_lt h.1
    calc Nat.ofDigitChars 10 (c :: cs) n
        = Nat.ofDigitChars 10 cs (10 * n + (c.toNat - '0'.toNat)) := Nat.ofDigitChars_cons
      _ < (10 * n + (c.toNat - '0'.toNat) + 1) * Nat.pow 10 cs.length := ih h.2 _
      _ ≤ ((n + 1) * 10) * Nat.pow 10 cs.length := Nat.mul_le_mul_right _ (by omega)
      _ = (n + 1) * Nat.pow 10 (c :: cs).length := by
        rw [Nat.mul_assoc, Nat.mul_comm 10]
        rfl

theorem ofDigitChars_lt {cs : List Char} (h : cs.all Char.isDigit = true) :
    Nat.ofDigitChars 10 cs 0 < Nat.pow 10 cs.length := by
  have := ofDigitChars_lt_mul h 0
  rwa [Nat.zero_add, Nat.one_mul] at this

theorem all_isDigit_toDigits (n : Nat) : (Nat.toDigits 10 n).all Char.isDigit = true :=
  List.all_eq_true.2 fun _ h => Nat.isDigit_of_mem_toDigits (by decide) (by decide) h

theorem natOfChars?_toDigits (n : Nat) : natOfChars? (Nat.toDigits 10 n) = some n := by
  simp [natOfChars?, Nat.toDigits_ne_nil, all_isDigit_toDigits, Nat.ofDigitChars_ten_toDigits]

theorem intOfChars?_toDigits (n : Nat) : intOfChars? (Nat.toDigits 10 n) = some (n : Int) := by
  have hd := all_isDigit_toDigits n
  have hn := natOfChars?_toDigits n
  unfold intOfChars?
  split
  · rename_i heq; rw [heq] at hd; simp at hd
  · rename_i heq; rw [heq] at hd; simp at hd
  · rw [hn]; rfl

theorem intOfChars?_repr (n : Int) : intOfChars? n.repr.toList = some n := by
  cases n with
  | ofNat m => simpa [Int.repr] using intOfChars?_toDigits m
  | negSucc m =>
    have h : (Int.negSucc m).repr.toList = '-' :: Nat.toDigits 10 (m + 1) := by
      simp [Int.repr, String.toList_append]
    rw [h, intOfChars?, natOfChars?_toDigits]
    simp [Int.negSucc_eq]

theorem int64OfInt?_toInt (n : Int64) : int64OfInt? n.toInt = some n := by
  have h1 := n.le_toInt
  have h2 := n.toInt_lt
  rw [int64OfInt?, if_pos (by omega), Int64.ofInt_toInt]

theorem int64?_text (n : Int64) : int64? (ofInt64 n) = some n := by
  simp [int64?, ofInt64, intOfChars?_repr, int64OfInt?_toInt]

/-! ## Written numbers have no blanks -/

theorem isBlank_eq_false_of_isDigit {c : Char} (h : c.isDigit = true) : isBlank c = false := by
  simp only [Char.isDigit, Bool.and_eq_true, decide_eq_true_eq] at h
  have h0 : 48 ≤ c.toNat := h.1
  have h9 : c.toNat ≤ 57 := h.2
  simp only [isBlank, blankRanges, List.any_cons, List.any_nil, Bool.or_false, Bool.or_eq_false_iff,
    Bool.and_eq_false_iff, decide_eq_false_iff_not]
  omega

theorem trim_ofInt64 (n : Int64) : trim (ofInt64 n).toList = (ofInt64 n).toList := by
  have hdigits : ∀ m, ∀ c ∈ Nat.toDigits 10 m, isBlank c = false := fun m c hc =>
    isBlank_eq_false_of_isDigit (List.all_eq_true.1 (all_isDigit_toDigits m) c hc)
  apply trim_eq_self
  unfold ofInt64
  cases n.toInt with
  | ofNat m => simpa [Int.repr] using hdigits m
  | negSucc m =>
    have h : (Int.negSucc m).repr.toList = '-' :: Nat.toDigits 10 (m + 1) := by
      simp [Int.repr, String.toList_append]
    rw [h]
    intro c hc
    rcases List.mem_cons.1 hc with rfl | hc
    · decide
    · exact hdigits _ c hc

end Rationale.Text
