/-
  Rationale — loosely written timestamps.

  A timestamp that is part of a larger value may be written loosely: a number
  may lack its leading zeros, blanks may stand before a number or a mark and at
  both ends, and a year with a sign may have any number of digits.  The offset
  may be the word `UTC`, and any run of colons and blanks, or nothing, may
  stand between its hours and minutes.

  * `Instant.readLoose?` reads such a text, within the years of `Loose.hasYear`.
-/
import Rationale.Text.Blank
import Rationale.Time.Timestamp

namespace Rationale.Time

namespace Loose

/-! ## The parts of a timestamp -/

def skip (cs : List Char) : List Char :=
  cs.dropWhile Text.isBlank

/-- A number of at least one digit and at most `width`, behind blanks. -/
def number? (width : Nat) (cs : List Char) : Option (Nat × List Char) :=
  let cs := skip cs
  let ds := (cs.take width).takeWhile Char.isDigit
  if ds = [] then none else some (Nat.ofDigitChars 10 ds 0, cs.drop ds.length)

/-- The mark `m`, behind blanks. -/
def mark? (m : Char) (cs : List Char) : Option (List Char) :=
  match skip cs with
  | [] => none
  | c :: cs => if c = m then some cs else none

/-- A year of up to four digits, or of any number of digits behind a sign. -/
def year? (cs : List Char) : Option (Int × List Char) :=
  let signed (cs : List Char) : Option (Nat × List Char) :=
    if cs.head?.any Char.isDigit then number? cs.length cs else none
  match skip cs with
  | '-' :: cs => (signed cs).map fun (y, cs) => (-(y : Int), cs)
  | '+' :: cs => (signed cs).map fun (y, cs) => ((y : Int), cs)
  | cs => (number? 4 cs).map fun (y, cs) => ((y : Int), cs)

def date? (cs : List Char) : Option (Date × List Char) := do
  let (y, cs) ← year? cs
  let cs ← mark? '-' cs
  let (m, cs) ← number? 2 cs
  let cs ← mark? '-' cs
  let (d, cs) ← number? 2 cs
  return (⟨y, m, d⟩, cs)

/-- Hour, minute and second. -/
def clock? (cs : List Char) : Option ((Nat × Nat × Nat) × List Char) := do
  let (h, cs) ← number? 2 cs
  let cs ← mark? ':' cs
  let (m, cs) ← number? 2 cs
  let cs ← mark? ':' cs
  let (s, cs) ← number? 2 cs
  if h ≤ 23 ∧ m ≤ 59 ∧ s ≤ 60 then some ((h, m, s), cs) else none

/-- Hours and minutes of an offset after its sign, in minutes. -/
def offsetSize? (cs : List Char) : Option (Int × List Char) := do
  let (h, cs) ← (Timestamp.digits 2 cs).toOption
  let (m, cs) ← (Timestamp.digits 2 (cs.dropWhile fun c => c = ':' || Text.isBlank c)).toOption
  if h ≤ 23 ∧ m ≤ 59 then some (h * 60 + m, cs) else none

/-- An offset from universal time, in minutes; the minus sign has two forms. -/
def offset? (cs : List Char) : Option (Int × List Char) :=
  if (cs.take 3).map Char.toUpper = ['U', 'T', 'C'] then some (0, cs.drop 3)
  else
    match cs with
    | [] => none
    | c :: cs =>
      if c = 'Z' ∨ c = 'z' then some (0, cs)
      else if c = '+' then offsetSize? cs
      else if c = '-' ∨ c = '\u2212' then (offsetSize? cs).map fun (n, cs) => (-n, cs)
      else none

/-- The years in which an instant can be given. -/
def hasYear (y : Int) : Bool :=
  -262143 ≤ y && y ≤ 262142

end Loose

/-! ## Reading -/

open Loose in
/-- The instant that a text writes, loosely or not. -/
def Instant.readLoose? (text : String) : Option Instant := do
  let (date, cs) ← date? text.toList
  let cs ← (Timestamp.mark ['T', 't', ' '] cs).toOption
  let ((h, m, s), cs) ← clock? cs
  let (nano, cs) ← (Timestamp.fraction cs).toOption
  let (offset, cs) ← offset? (skip cs)
  let t := ofClock date.day h m s nano offset
  if skip cs = [] ∧ date.Valid ∧ hasYear date.year ∧ hasYear (Date.ofDay (t.second / 86400)).year
  then some t else none

end Rationale.Time
