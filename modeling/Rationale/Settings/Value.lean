/-
  Rationale — the values of settings.

  What a setting holds is read by what it is needed for: a number may come as
  a switch, as a text or with a fraction, and a switch as a number or a text.
  A list or a table is no value of any setting.
-/
import Rationale.Binary64

namespace Rationale

/-- The value of a key, before it is known what it is for. -/
inductive SettingValue where
  | int (n : Int)
  | real (x : Binary64) (written : String)
  | bool (b : Bool)
  | text (s : String)
  /-- A list or a table, whose parts do not matter. -/
  | compound
deriving DecidableEq, Repr

namespace SettingValue

/-- The value as an unsigned 64-bit number. -/
def nat? : SettingValue → Option Nat
  | int n => if n < 0 then none else some n.toNat
  | real x _ => some x.toWord
  | bool b => some b.toNat
  | text s =>
    if s.toLower ∈ ["true", "on", "yes"] then some 1
    else if s.toLower ∈ ["false", "off", "no"] then some 0
    else Text.word? s
  | compound => none

/-- The value as a switch. -/
def switch? : SettingValue → Option Bool
  | int n => some (n ≠ 0)
  | real x _ => some !x.isZero
  | bool b => some b
  | text s =>
    if s.toLower ∈ ["1", "true", "on", "yes"] then some true
    else if s.toLower ∈ ["0", "false", "off", "no"] then some false
    else none
  | compound => none

/-- The value as a text. -/
def string? : SettingValue → Option String
  | int n => some n.repr
  | real _ written => some written
  | bool b => some (if b then "true" else "false")
  | text s => some s
  | compound => none

end SettingValue

end Rationale
