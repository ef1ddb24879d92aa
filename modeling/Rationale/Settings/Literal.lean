/-
  Rationale — how a settings file writes values that have no parts.

  A text stands in quotes or in threefold quotes, between which it may have
  more than one line; in double quotes a backslash begins an escape.  All other
  values are words without blanks, but for a blank between a date and a time.

  * only double quotes know escapes: `escaped?` and `lineJoin?`;
  * digits may be parted by single underscores (`digits?`);
  * a date or a time has to exist and is kept as its text.
-/
import Rationale.Settings.Value
import Rationale.Text.Radix
import Rationale.Time.Timestamp

namespace Rationale.SettingsFile

/-! ## Characters -/

def isBlank (c : Char) : Bool :=
  c = ' ' || c = '\t'

def skip (cs : List Char) : List Char :=
  cs.dropWhile isBlank

/-- No control character but a tab. -/
def isPlain (c : Char) : Bool :=
  c = '\t' || (0x20 ≤ c.toNat && c.toNat ≠ 0x7F)

/-- The rest behind a line break. -/
def newline? : List Char → Option (List Char)
  | '\n' :: cs => some cs
  | '\r' :: '\n' :: cs => some cs
  | _ => none

/-! ## Texts -/

/-- The character that `n` hexadecimal digits number. -/
def codePoint? (n : Nat) (cs : List Char) : Option (Char × List Char) := do
  let ds := cs.take n
  if ds.length = n then return (← Text.charOfNat? (← Text.natInRadix? 16 ds), cs.drop n) else none

/-- The character behind a backslash. -/
def escaped? : List Char → Option (Char × List Char)
  | '"' :: cs => some ('"', cs)
  | '\\' :: cs => some ('\\', cs)
  | 'b' :: cs => some ('\x08', cs)
  | 'f' :: cs => some ('\x0c', cs)
  | 'n' :: cs => some ('\n', cs)
  | 'r' :: cs => some ('\r', cs)
  | 't' :: cs => some ('\t', cs)
  | 'u' :: cs => codePoint? 4 cs
  | 'U' :: cs => codePoint? 8 cs
  | _ => none

/-- A text up to its double quote, in at most `fuel` steps; `back` are the
    characters read before, the last first. -/
def basic? : (fuel : Nat) → (back cs : List Char) → Option (String × List Char)
  | 0, _, _ => none
  | fuel + 1, back, c :: cs =>
    if c = '"' then some (String.ofList back.reverse, cs)
    else if c = '\\' then do
      let (e, cs) ← escaped? cs
      basic? fuel (e :: back) cs
    else if isPlain c then basic? fuel (c :: back) cs
    else none
  | _ + 1, _, [] => none

/-- A text up to its single quote. -/
def literal? (cs : List Char) : Option (String × List Char) :=
  let isPart (c : Char) : Bool := isPlain c && c ≠ '\x27'
  match cs.dropWhile isPart with
  | '\x27' :: rest => some (String.ofList (cs.takeWhile isPart), rest)
  | _ => none

/-- The rest behind blanks and line breaks. -/
def dropBreaks : List Char → List Char
  | '\r' :: '\n' :: cs => dropBreaks cs
  | c :: cs => if isBlank c || c = '\n' then dropBreaks cs else c :: cs
  | [] => []

/-- The rest behind a backslash at the end of a line: the text goes on with the
    next character that is neither blank nor a line break. -/
def lineJoin? (cs : List Char) : Option (List Char) :=
  (newline? (skip cs)).map dropBreaks

/-- A text up to its threefold `quote`, in at most `fuel` steps.  Of three to
    five quotes the last three end it. -/
def multiline? (quote : Char) : (fuel : Nat) → (back cs : List Char) → Option (String × List Char)
  | 0, _, _ => none
  | _ + 1, _, [] => none
  | fuel + 1, back, c :: cs =>
    if c = quote then
      let run := ((c :: cs).takeWhile (· = quote)).length
      if run < 3 then multiline? quote fuel (c :: back) cs
      else
        let more := min (run - 3) 2
        some (String.ofList (List.replicate more quote ++ back).reverse, (c :: cs).drop (more + 3))
    else if c = '\\' ∧ quote = '"' then
      match lineJoin? cs with
      | some cs => multiline? quote fuel back cs
      | none => do
        let (e, cs) ← escaped? cs
        multiline? quote fuel (e :: back) cs
    else if isPlain c then multiline? quote fuel (c :: back) cs
    else do
      let cs ← newline? (c :: cs)
      multiline? quote fuel ('\n' :: back) cs

/-- A text in single or double quotes, within a line. -/
def quoted? : List Char → Option (String × List Char)
  | '"' :: cs => basic? (cs.length + 1) [] cs
  | '\x27' :: cs => literal? cs
  | _ => none

/-- A text in quotes; a line break behind a threefold quote does not count. -/
def text? (cs : List Char) : Option (String × List Char) :=
  match cs with
  | a :: b :: c :: rest =>
    if a = b ∧ b = c ∧ (a = '"' ∨ a = '\x27') then
      multiline? a (rest.length + 1) [] ((newline? rest).getD rest)
    else quoted? cs
  | _ => quoted? cs

/-! ## Numbers -/

/-- A sign and what follows it. -/
def sign : List Char → Option Char × List Char
  | '+' :: cs => (some '+', cs)
  | '-' :: cs => (some '-', cs)
  | cs => (none, cs)

/-- Digits without the underscores between them. -/
def digits? (cs : List Char) : Option (List Char) :=
  let groups := cs.splitOn '_'
  if [] ∈ groups then none else some groups.flatten

/-- Decimal digits without a needless zero. -/
def whole? (cs : List Char) : Option (List Char) := do
  let ds ← digits? cs
  if ds.all Char.isDigit ∧ (ds.length = 1 ∨ ds.head? ≠ some '0') then some ds else none

/-- An integer in the signed 64-bit range: a decimal, or one without a sign in
    a radix that is a power of two. -/
def int? (cs : List Char) : Option Int := do
  let n : Int ← match cs with
    | '0' :: 'x' :: cs => do pure (Int.ofNat (← Text.natInRadix? 16 (← digits? cs)))
    | '0' :: 'o' :: cs => do pure (Int.ofNat (← Text.natInRadix? 8 (← digits? cs)))
    | '0' :: 'b' :: cs => do pure (Int.ofNat (← Text.natInRadix? 2 (← digits? cs)))
    | cs => do
      let (s, cs) := sign cs
      Text.intOfChars? (s.toList ++ (← whole? cs))
  (Text.int64OfInt? n).map (·.toInt)

/-- The digits behind the point, if there is a point. -/
def fraction? (cs : List Char) : Option (Option (List Char)) :=
  match cs with
  | [] => some none
  | c :: cs => do
    let ds ← digits? cs
    if c = '.' ∧ ds.all Char.isDigit then return some ds else none

/-- The exponent behind its letter, if there is one. -/
def exponent? (cs : List Char) : Option (Option Int) :=
  match cs with
  | [] => some none
  | _ :: cs => do
    let (s, cs) := sign cs
    return some (← Text.intOfChars? (s.toList ++ (← digits? cs)))

/-- A number with a fraction or an exponent, which is not too large, or the
    word for a special one. -/
def real? (cs : List Char) : Option Binary64 :=
  let (s, rest) := sign cs
  let negative := s = some '-'
  match rest with
  | ['i', 'n', 'f'] => some (.infinite negative)
  | ['n', 'a', 'n'] => some .notANumber
  | _ => do
    let isPlace (c : Char) : Bool := c ≠ 'e' && c ≠ 'E'
    let places := rest.takeWhile isPlace
    let whole ← whole? (places.takeWhile (· ≠ '.'))
    let fraction ← fraction? (places.dropWhile (· ≠ '.'))
    let exponent ← exponent? (rest.dropWhile isPlace)
    if fraction = none ∧ exponent = none then none
    let behind := fraction.getD []
    let x := Binary64.ofDecimal negative (whole ++ behind) (exponent.getD 0 - behind.length)
    if x = .infinite false then none else some x

/-! ## Dates and times -/

/-- The rest behind a time of day. -/
def time? (cs : List Char) : Option (List Char) := do
  let ((h, m, s), cs) ← (Time.Timestamp.clock cs).toOption
  let (_, cs) ← (Time.Timestamp.fraction cs).toOption
  if h ≤ 23 ∧ m ≤ 59 ∧ s ≤ 60 then some cs else none

/-- Nothing, or an offset of less than a day from universal time. -/
def isOffset (cs : List Char) : Bool :=
  cs.isEmpty ||
    match Time.Timestamp.offset cs with
    | .ok (n, []) => -1440 < n && n < 1440
    | _ => false

/-- A time of day, with an offset or not. -/
def isTime (cs : List Char) : Bool :=
  (time? cs).any isOffset

/-- The rest behind a date. -/
def date? (cs : List Char) : Option (List Char) :=
  (Time.Timestamp.day cs).toOption.map (·.2)

/-- A character of a word, which a number, a switch or a time may have. -/
def isWordChar (c : Char) : Bool :=
  c.isAlphanum || c ∈ ['_', '+', '-', '.', ':']

/-- A date, a time of day, or a date with a time, and what follows it; a blank
    behind a date goes with it if a digit follows. -/
def moment? (cs : List Char) : Option (String × List Char) :=
  let word := cs.takeWhile isWordChar
  let rest := cs.dropWhile isWordChar
  match date? word with
  | some [] =>
    match rest with
    | ' ' :: c :: more =>
      if c.isDigit then
        let time := (c :: more).takeWhile isWordChar
        if isTime time then
          some (String.ofList (word ++ ' ' :: time), (c :: more).dropWhile isWordChar)
        else none
      else some (String.ofList word, rest)
    | _ => some (String.ofList word, rest)
  | some (mark :: time) =>
    if (mark = 'T' ∨ mark = 't') ∧ isTime time then some (String.ofList word, rest) else none
  | none =>
    if (time? word) = some [] then some (String.ofList word, rest) else none

/-! ## Words -/

/-- A value without quotes or brackets. -/
def word? (cs : List Char) : Option (SettingValue × List Char) :=
  let word := cs.takeWhile isWordChar
  let rest := cs.dropWhile isWordChar
  match word with
  | ['t', 'r', 'u', 'e'] => some (.bool true, rest)
  | ['f', 'a', 'l', 's', 'e'] => some (.bool false, rest)
  | _ =>
    match moment? cs, real? word, int? word with
    | some (s, rest), _, _ => some (.text s, rest)
    | none, some x, _ => some (.real x (String.ofList word), rest)
    | none, none, n => n.map (.int ·, rest)

end Rationale.SettingsFile
