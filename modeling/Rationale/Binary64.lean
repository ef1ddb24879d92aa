/-
  Rationale — numbers of double precision.

  A finite number is a mantissa times a power of two, with an exponent of at
  least -1074; its mantissa has up to 53 bits.  `ofRatio` takes the nearest such
  number, the one with an even mantissa if two are equally near, and
  `ofDecimal` does so for a decimal.

  * `nearestEven_bounds`: rounding a quotient is off by at most a half.
-/
import Rationale.Text.Decimal

namespace Rationale

inductive Binary64 where
  | finite (negative : Bool) (mantissa : Nat) (exponent : Int)
  | infinite (negative : Bool)
  | notANumber
deriving DecidableEq, Repr

namespace Binary64

/-! ## Rounding -/

/-- The nearest whole number to `num / den`, the even one of two. -/
def nearestEven (num den : Nat) : Nat :=
  let q := num / den
  let r := num % den
  if den < 2 * r ∨ (den = 2 * r ∧ q % 2 = 1) then q + 1 else q

theorem nearestEven_bounds (num : Nat) {den : Nat} (h : 0 < den) :
    2 * (nearestEven num den * den) ≤ 2 * num + den ∧
      2 * num ≤ 2 * (nearestEven num den * den) + den := by
  have hd := Nat.div_add_mod num den
  have hm := Nat.mod_lt num h
  rw [Nat.mul_comm] at hd
  have hs : (num / den + 1) * den = num / den * den + den := Nat.succ_mul _ _
  simp only [nearestEven]
  split <;> omega

/-- `num / den` divided by the power of two with the exponent `e`. -/
def scaled (num den : Nat) (e : Int) : Nat × Nat :=
  if 0 ≤ e then (num, den * Nat.pow 2 e.toNat) else (num * Nat.pow 2 (-e).toNat, den)

/-- The exponent with which the mantissa of `num / den` has 53 bits, or fewer
    if the exponent is the least. -/
def exponentOf (num den : Nat) : Int :=
  let e : Int := max (-1074) ((Nat.log2 num : Int) - Nat.log2 den - 53)
  let (n, d) := scaled num den e
  if n / d < 9007199254740992 then e else e + 1

/-- The number nearest to `num / den`. -/
def ofRatio (negative : Bool) (num den : Nat) : Binary64 :=
  let e := exponentOf num den
  let (n, d) := scaled num den e
  let m := nearestEven n d
  if 971 < e ∨ (e = 971 ∧ 9007199254740992 ≤ m) then infinite negative else finite negative m e

/-- The number nearest to the number that `digits` write, times ten to the
    `shift`.  Powers of ten that are out of reach are not worked out. -/
def ofDecimal (negative : Bool) (digits : List Char) (shift : Int) : Binary64 :=
  let ds := digits.dropWhile (· = '0')
  let top := ds.length + shift
  if ds = [] ∨ top < -330 then finite negative 0 (-1074)
  else if 330 < top then infinite negative
  else
    let n := Nat.ofDigitChars 10 ds 0
    if 0 ≤ shift then ofRatio negative (n * Nat.pow 10 shift.toNat) 1
    else ofRatio negative n (Nat.pow 10 (-shift).toNat)

/-! ## Reading off -/

def isZero : Binary64 → Bool
  | finite _ m _ => m = 0
  | _ => false

/-- The nearest whole number, a half going up, within the unsigned 64-bit
    range; what is no number counts as 0. -/
def toWord : Binary64 → Nat
  | finite negative m e =>
    if negative then 0
    else
      let n :=
        if 0 ≤ e then m * Nat.pow 2 e.toNat
        else (2 * m + Nat.pow 2 (-e).toNat) / (2 * Nat.pow 2 (-e).toNat)
      min n 18446744073709551615
  | infinite negative => if negative then 0 else 18446744073709551615
  | notANumber => 0

end Binary64

end Rationale
