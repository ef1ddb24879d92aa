/-
  Rationale — timestamps: the texts of instants.

  A timestamp is a date, a `T`, a time of day with an optional fraction, and an
  offset from universal time.  `Instant.read` accepts any offset below a day
  and any number of fraction digits, of which nine count; `Instant.write`
  always writes universal time, with no, three, six or nine fraction digits,
  whichever is the least that is exact.

  * `Instant.stored` is the form kept in a store, `Instant.json` the form shown
    to users; they differ in the spelling of the offset;
  * a leap second is read from, and written as, second 60 of any minute;
  * reading stops at the first part that does not fit, and `Misread` says how.
-/
import Rationale.Text.Decimal
import Rationale.Time.Instant

namespace Rationale.Time

/-! ## Why a text is no timestamp -/

inductive Misread where
  | tooShort
  | invalid
  | outOfRange
  | trailing
deriving DecidableEq, Repr

def Misread.message : Misread → String
  | tooShort => "premature end of input"
  | invalid => "input contains invalid characters"
  | outOfRange => "input is out of range"
  | trailing => "trailing input"

/-! ## The parts of a timestamp -/

namespace Timestamp

/-- The length of a text in UTF-8. -/
def byteCount (cs : List Char) : Nat :=
  cs.foldr (fun c n => c.utf8Size + n) 0

/-- A number of exactly `width` digits. -/
def digits (width : Nat) (cs : List Char) : Except Misread (Nat × List Char) :=
  let ds := cs.take width
  if ds.length = width ∧ ds.all Char.isDigit then
    .ok (Nat.ofDigitChars 10 ds 0, cs.drop width)
  else .error .invalid

/-- One of the characters `allowed`. -/
def mark (allowed : List Char) : List Char → Except Misread (List Char)
  | [] => .error .invalid
  | c :: cs => if c ∈ allowed then .ok cs else .error .invalid

/-- A date that exists, as its day number. -/
def day (cs : List Char) : Except Misread (Int × List Char) := do
  let (y, cs) ← digits 4 cs
  let cs ← mark ['-'] cs
  let (m, cs) ← digits 2 cs
  let cs ← mark ['-'] cs
  let (d, cs) ← digits 2 cs
  let date : Date := ⟨y, m, d⟩
  if date.Valid then .ok (date.day, cs) else .error .outOfRange

/-- Hour, minute and second, not yet checked. -/
def clock (cs : List Char) : Except Misread ((Nat × Nat × Nat) × List Char) := do
  let (h, cs) ← digits 2 cs
  let cs ← mark [':'] cs
  let (m, cs) ← digits 2 cs
  let cs ← mark [':'] cs
  let (s, cs) ← digits 2 cs
  .ok ((h, m, s), cs)

/-- The nanoseconds that a fraction writes: its first nine digits, with zeros
    for those that it lacks. -/
def nanos (ds : List Char) : Nat :=
  Nat.ofDigitChars 10 ((ds ++ List.replicate 9 '0').take 9) 0

theorem nanos_lt {ds : List Char} (h : ds.all Char.isDigit = true) : nanos ds < 1000000000 := by
  have hd : ((ds ++ List.replicate 9 '0').take 9).all Char.isDigit = true := by
    refine List.all_eq_true.2 fun c hc => ?_
    rcases List.mem_append.1 (List.mem_of_mem_take hc) with hc | hc
    · exact List.all_eq_true.1 h c hc
    · rw [List.eq_of_mem_replicate hc]
      decide
  have hl : ((ds ++ List.replicate 9 '0').take 9).length = 9 := by simp
  have := Text.ofDigitChars_lt hd
  rwa [hl] at this

/-- An optional fraction of the second, in nanoseconds. -/
def fraction : List Char → Except Misread ({ n : Nat // n < 1000000000 } × List Char)
  | '.' :: cs =>
    match cs with
    | [] => .error .tooShort
    | c :: _ =>
      if c.isDigit then
        .ok (⟨nanos (cs.takeWhile Char.isDigit), nanos_lt List.all_takeWhile⟩,
          cs.dropWhile Char.isDigit)
      else .error .invalid
  | cs => .ok (⟨0, by decide⟩, cs)

/-- Hours and minutes of an offset after its sign. -/
def offsetSize (cs : List Char) : Except Misread ((Nat × Nat) × List Char) := do
  if byteCount cs < 2 then .error .tooShort
  let (h, cs) ← digits 2 cs
  match cs with
  | [] => .error .tooShort
  | c :: cs =>
    if c ≠ ':' then .error .invalid
    else if byteCount cs < 2 then .error .tooShort
    else
      let (m, cs) ← digits 2 cs
      if 60 ≤ m then .error .outOfRange else .ok ((h, m), cs)

/-- An offset from universal time, in minutes; the minus sign has two forms. -/
def offset : List Char → Except Misread (Int × List Char)
  | [] => .error .tooShort
  | c :: cs =>
    if c = 'Z' ∨ c = 'z' then .ok (0, cs)
    else if c = '+' ∨ c = '-' ∨ c = '\u2212' then do
      let ((h, m), cs) ← offsetSize cs
      let size : Int := h * 60 + m
      .ok (if c = '+' then size else -size, cs)
    else .error .invalid

end Timestamp

/-! ## Reading -/

namespace Instant

/-- The instant at `h : m : s` of a day, `offset` minutes ahead of universal
    time; second 60 is the last second of its minute, held. -/
def ofClock (day : Int) (h m s : Nat) (nano : { n : Nat // n < 1000000000 }) (offset : Int) :
    Instant :=
  let minute := day * 1440 + h * 60 + m - offset
  if s = 60 then ofParts (minute * 60 + 59) nano nano.2 true fun _ => by omega
  else ofParts (minute * 60 + s) nano nano.2 false fun h => by simp at h

/-- The instant written by a text. -/
def read (text : String) : Except Misread Instant := do
  let cs := text.toList
  if Timestamp.byteCount cs < 19 then .error .tooShort
  let (day, cs) ← Timestamp.day cs
  let cs ← Timestamp.mark ['T', 't', ' '] cs
  let ((h, m, s), cs) ← Timestamp.clock cs
  let (nano, cs) ← Timestamp.fraction cs
  if 23 < h ∨ 59 < m ∨ 60 < s then .error .outOfRange
  let (offset, cs) ← Timestamp.offset cs
  if cs ≠ [] then .error .trailing
  else if offset ≤ -1440 ∨ 1440 ≤ offset then .error .outOfRange
  else .ok (ofClock day h m s nano offset)

/-! ## Writing -/

/-- A year; outside of 0 to 9999 it has a sign. -/
def yearText (y : Int) : List Char :=
  if y < 0 then '-' :: Text.padded 4 y.natAbs
  else if 9999 < y then '+' :: Text.padded 4 y.natAbs
  else Text.padded 4 y.natAbs

/-- A fraction of a second in as few groups of three digits as are exact. -/
def fractionText (nano : Nat) : List Char :=
  if nano = 0 then []
  else if nano % 1000000 = 0 then '.' :: Text.padded 3 (nano / 1000000)
  else if nano % 1000 = 0 then '.' :: Text.padded 6 (nano / 1000)
  else '.' :: Text.padded 9 nano

/-- The instant in universal time, with `zone` for the offset. -/
def write (t : Instant) (zone : List Char) : String :=
  let date := Date.ofDay (t.second / 86400)
  let s := (t.second % 86400).toNat
  String.ofList <|
    yearText date.year ++ '-' :: Text.padded 2 date.month ++ '-' :: Text.padded 2 date.dayOfMonth
      ++ 'T' :: Text.padded 2 (s / 3600) ++ ':' :: Text.padded 2 (s / 60 % 60)
      ++ ':' :: Text.padded 2 (s % 60 + if t.isLeap then 1 else 0)
      ++ fractionText (t.nano % 1000000000) ++ zone

/-- The text kept in a store. -/
def stored (t : Instant) : String :=
  t.write ['+', '0', '0', ':', '0', '0']

/-- The text shown to users. -/
def json (t : Instant) : String :=
  t.write ['Z']

end Instant

end Rationale.Time
