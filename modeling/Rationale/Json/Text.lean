/-
  Rationale — JSON as text.

  `Json.parse?` reads a text that holds one value and nothing else but blanks.
  `Json.compact` writes a value without blanks, and `Json.pretty` one member or
  element to a line.

  * a number with a fraction or an exponent is kept as it is written;
  * a character beyond the sixteen-bit range may be escaped as a pair.
-/
import Rationale.Json
import Rationale.Text.Radix

namespace Rationale.Json

/-! ## Reading -/

namespace Reader

def isBlank (c : Char) : Bool :=
  c = ' ' || c = '\n' || c = '\r' || c = '\t'

def skip (cs : List Char) : List Char :=
  cs.dropWhile isBlank

/-- The rest behind a word. -/
def word? (w cs : List Char) : Option (List Char) :=
  if w.isPrefixOf cs then some (cs.drop w.length) else none

/-- Four hexadecimal digits. -/
def unit? : List Char → Option (Nat × List Char)
  | a :: b :: c :: d :: cs => do
    return (← Text.natInRadix? 16 [a, b, c, d], cs)
  | _ => none

/-- The character behind `\u`, which may be the first half of a pair. -/
def codePoint? (cs : List Char) : Option (Char × List Char) := do
  let (hi, cs) ← unit? cs
  if 0xD800 ≤ hi ∧ hi < 0xDC00 then
    match cs with
    | '\\' :: 'u' :: cs => do
      let (lo, cs) ← unit? cs
      if 0xDC00 ≤ lo ∧ lo < 0xE000 then
        return (Char.ofNat (0x10000 + (hi - 0xD800) * 0x400 + (lo - 0xDC00)), cs)
      else none
    | _ => none
  else if 0xDC00 ≤ hi ∧ hi < 0xE000 then none
  else return (Char.ofNat hi, cs)

/-- The character behind a backslash. -/
def escaped? : List Char → Option (Char × List Char)
  | '"' :: cs => some ('"', cs)
  | '\\' :: cs => some ('\\', cs)
  | '/' :: cs => some ('/', cs)
  | 'b' :: cs => some ('\x08', cs)
  | 'f' :: cs => some ('\x0c', cs)
  | 'n' :: cs => some ('\n', cs)
  | 'r' :: cs => some ('\r', cs)
  | 't' :: cs => some ('\t', cs)
  | 'u' :: cs => codePoint? cs
  | _ => none

/-- The characters of a string behind its quote, in at most `fuel` steps; `back`
    are the ones read before, the last first. -/
def chars? : (fuel : Nat) → (back cs : List Char) → Option (List Char × List Char)
  | 0, _, _ => none
  | fuel + 1, back, c :: cs =>
    if c = '"' then some (back.reverse, cs)
    else if c = '\\' then do
      let (e, cs) ← escaped? cs
      chars? fuel (e :: back) cs
    else if c.toNat < 0x20 then none
    else chars? fuel (c :: back) cs
  | _ + 1, _, [] => none

/-- A string, in at most `fuel` steps. -/
def string? (fuel : Nat) : List Char → Option (String × List Char)
  | '"' :: cs => do
    let (s, cs) ← chars? fuel [] cs
    return (String.ofList s, cs)
  | _ => none

/-- A number, whose integer part has no needless zero. -/
def number? (cs : List Char) : Option (Json × List Char) := do
  let (sign, cs) := match cs with
    | '-' :: cs => (['-'], cs)
    | cs => ([], cs)
  let whole := cs.takeWhile Char.isDigit
  let cs := cs.dropWhile Char.isDigit
  if whole = [] ∨ (whole.head? = some '0' ∧ whole ≠ ['0']) then none
  let (fraction, cs) ← match cs with
    | '.' :: cs =>
      let ds := cs.takeWhile Char.isDigit
      if ds = [] then none else some ('.' :: ds, cs.dropWhile Char.isDigit)
    | cs => some ([], cs)
  let (exponent, cs) ← match cs with
    | e :: cs =>
      if e = 'e' ∨ e = 'E' then
        let (s, cs) := match cs with
          | '+' :: cs => (['+'], cs)
          | '-' :: cs => (['-'], cs)
          | cs => ([], cs)
        let ds := cs.takeWhile Char.isDigit
        if ds = [] then none else some (e :: s ++ ds, cs.dropWhile Char.isDigit)
      else some ([], e :: cs)
    | [] => some ([], [])
  let text := sign ++ whole ++ fraction ++ exponent
  if fraction ++ exponent = [] ∧ text ≠ ['-', '0'] then
    return (int (← Text.intOfChars? text), cs)
  else return (real (String.ofList text), cs)

mutual

/-- A value, in at most `fuel` steps. -/
def value? : (fuel : Nat) → List Char → Option (Json × List Char)
  | 0, _ => none
  | fuel + 1, cs =>
    match skip cs with
    | 'n' :: cs => do return (null, ← word? ['u', 'l', 'l'] cs)
    | 't' :: cs => do return (bool true, ← word? ['r', 'u', 'e'] cs)
    | 'f' :: cs => do return (bool false, ← word? ['a', 'l', 's', 'e'] cs)
    | '"' :: cs => do
      let (s, cs) ← string? fuel ('"' :: cs)
      return (str s, cs)
    | '[' :: cs =>
      match skip cs with
      | ']' :: cs => some (arr [], cs)
      | cs => do
        let (vs, cs) ← elementsFrom? fuel cs
        return (arr vs, cs)
    | '\x7b' :: cs =>
      match skip cs with
      | '\x7d' :: cs => some (obj [], cs)
      | cs => do
        let (ms, cs) ← membersFrom? fuel cs
        return (obj ms, cs)
    | cs => number? cs

/-- Elements and the bracket behind them. -/
def elementsFrom? : (fuel : Nat) → List Char → Option (List Json × List Char)
  | 0, _ => none
  | fuel + 1, cs => do
    let (v, cs) ← value? fuel cs
    match skip cs with
    | ']' :: cs => return ([v], cs)
    | ',' :: cs => do
      let (vs, cs) ← elementsFrom? fuel cs
      return (v :: vs, cs)
    | _ => none

/-- Members and the brace behind them. -/
def membersFrom? : (fuel : Nat) → List Char → Option (List (String × Json) × List Char)
  | 0, _ => none
  | fuel + 1, cs => do
    let (name, cs) ← string? fuel (skip cs)
    match skip cs with
    | ':' :: cs => do
      let (v, cs) ← value? fuel cs
      match skip cs with
      | '\x7d' :: cs => return ([(name, v)], cs)
      | ',' :: cs => do
        let (ms, cs) ← membersFrom? fuel cs
        return ((name, v) :: ms, cs)
      | _ => none
    | _ => none

end

end Reader

/-- The value that a text holds; each step of reading it uses up a character. -/
def parse? (text : String) : Option Json := do
  let cs := text.toList
  let (v, cs) ← Reader.value? (cs.length + 1) cs
  if Reader.skip cs = [] then some v else none

/-! ## Writing -/

namespace Writer

/-- `n` in four hexadecimal digits. -/
def hex4 (n : Nat) : List Char :=
  let ds := Nat.toDigits 16 n
  List.replicate (4 - ds.length) '0' ++ ds

/-- A character of a string. -/
def char (c : Char) : List Char :=
  if c = '"' then ['\\', '"']
  else if c = '\\' then ['\\', '\\']
  else if c = '\x08' then ['\\', 'b']
  else if c = '\x0c' then ['\\', 'f']
  else if c = '\n' then ['\\', 'n']
  else if c = '\r' then ['\\', 'r']
  else if c = '\t' then ['\\', 't']
  else if c.toNat < 0x20 then '\\' :: 'u' :: hex4 c.toNat
  else [c]

def string (s : String) : String :=
  String.ofList ('"' :: s.toList.flatMap char ++ ['"'])

/-- A value that has no parts. -/
def leaf : Json → String
  | null => "null"
  | bool true => "true"
  | bool false => "false"
  | int n => n.repr
  | real text => text
  | str s => string s
  | arr _ => "[]"
  | obj _ => "\x7b\x7d"

/-- A new line, `depth` levels in. -/
def newLine (depth : Nat) : String :=
  String.ofList ('\n' :: List.replicate (2 * depth) ' ')

end Writer

open Writer in
/-- The value in one line, without blanks. -/
def compact : Json → String
  | arr elements =>
    "[" ++ ",".intercalate (elements.attach.map fun ⟨v, _⟩ => v.compact) ++ "]"
  | obj members =>
    "\x7b" ++ ",".intercalate
      (members.attach.map fun ⟨(name, v), _⟩ => string name ++ ":" ++ v.compact) ++ "\x7d"
  | j => leaf j
termination_by j => sizeOf j
decreasing_by
  · have := List.sizeOf_lt_of_mem ‹_›
    simp only [arr.sizeOf_spec]
    omega
  · have := List.sizeOf_lt_of_mem ‹_›
    simp only [obj.sizeOf_spec, Prod.mk.sizeOf_spec] at *
    omega

open Writer in
/-- The value with a line for each of its parts, `depth` levels in. -/
def prettyAt (depth : Nat) : Json → String
  | arr (v :: vs) =>
    let parts := (v :: vs).attach.map fun ⟨v, _⟩ => newLine (depth + 1) ++ v.prettyAt (depth + 1)
    "[" ++ ",".intercalate parts ++ newLine depth ++ "]"
  | obj (m :: ms) =>
    let parts := (m :: ms).attach.map fun ⟨(name, v), _⟩ =>
      newLine (depth + 1) ++ string name ++ ": " ++ v.prettyAt (depth + 1)
    "\x7b" ++ ",".intercalate parts ++ newLine depth ++ "\x7d"
  | j => leaf j
termination_by j => sizeOf j
decreasing_by
  · have := List.sizeOf_lt_of_mem ‹_›
    simp only [arr.sizeOf_spec] at *
    omega
  · have := List.sizeOf_lt_of_mem ‹_›
    simp only [obj.sizeOf_spec, Prod.mk.sizeOf_spec] at *
    omega

/-- The value with a line for each of its parts. -/
def pretty (j : Json) : String :=
  j.prettyAt 0

end Rationale.Json
