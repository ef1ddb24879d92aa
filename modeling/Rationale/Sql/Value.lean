/-
  Rationale — the values of SQL columns and arguments.

  Columns hold a 64-bit integer, a text, or nothing.  `Value.lt` is the order
  of an ORDER BY: nothing first, then integers by size, then texts by their
  bytes, which for texts is the order by code points.  A comparison in a
  condition (`Value.compares`) never holds of a value that is absent.

  * `lt_irrefl`, `lt_trans`, `lt_trichotomy`: the order is strict and linear.
-/
import Rationale.Text.Order

namespace Rationale.Sql

inductive Value where
  | null
  | integer (n : Int64)
  | text (s : String)
deriving DecidableEq, Repr

namespace Value

def isNull (v : Value) : Bool :=
  v = null

/-- The order of an ORDER BY. -/
def lt : Value → Value → Bool
  | null, null => false
  | null, _ => true
  | integer _, null => false
  | integer a, integer b => a < b
  | integer _, text _ => true
  | text _, null => false
  | text _, integer _ => false
  | text a, text b => Text.lt a b

theorem lt_irrefl (a : Value) : a.lt a = false := by
  cases a <;> simp [lt, Text.lt_irrefl]

theorem lt_trans {a b c : Value} (h₁ : a.lt b = true) (h₂ : b.lt c = true) : a.lt c = true := by
  cases a <;> cases b <;> cases c <;> simp_all [lt]
  · exact Int64.lt_trans h₁ h₂
  · exact Text.lt_trans h₁ h₂

theorem lt_trichotomy (a b : Value) : a.lt b = true ∨ a = b ∨ b.lt a = true := by
  cases a <;> cases b <;> simp [lt]
  · rename_i m n
    simp only [Int64.lt_iff_toInt_lt, ← Int64.toInt_inj]
    omega
  · exact Text.lt_trichotomy _ _

/-! ## Comparisons in conditions -/

inductive Comparison where
  | equal
  | less
  | greater
deriving DecidableEq, Repr

def Comparison.symbol : Comparison → String
  | equal => "="
  | less => "<"
  | greater => ">"

/-- The comparison holds between two values that are both present. -/
def compares (c : Comparison) (a b : Value) : Bool :=
  !a.isNull && !b.isNull &&
    match c with
    | .equal => a = b
    | .less => a.lt b
    | .greater => b.lt a

end Value

end Rationale.Sql
