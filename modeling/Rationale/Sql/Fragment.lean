/-
  Rationale — SQL fragments and their placeholders.

  A fragment is a text with placeholders `?1`, `?2`, … for its arguments.  Its
  text is read as a list of `Piece`s: placeholders, bare question marks, and
  all other characters.  Inside single quotes everything is a character.

  * `renumber` moves the placeholders of a fragment behind arguments that are
    already bound;
  * a number of 2 ^ 64 or more is no placeholder: only its question mark stays;
  * `offsetBeyond` is where a text asks for more arguments than a database takes;
  * `Fragment.inPlace` is what a fragment stands for: its text with each
    argument in the places of its placeholder.
-/
import Rationale.Sql.Value
import Rationale.Text.Decimal

namespace Rationale.Sql

structure Fragment where
  sql : String
  args : List Value
deriving DecidableEq, Repr

/-! ## Pieces -/

inductive Piece where
  | char (c : Char)
  | placeholder (n : Nat)
  /-- A question mark without a number of its own. -/
  | bare
deriving DecidableEq, Repr

namespace Piece

/-- The piece that a question mark and the digits after it make. -/
def ofDigits (ds : List Char) : Piece :=
  match (Text.natOfChars? ds).bind Text.word64 with
  | some n => placeholder n
  | none => bare

def write : Piece → List Char
  | char c => [c]
  | placeholder n => '?' :: Nat.toDigits 10 n
  | bare => ['?']

/-- The piece behind `offset` other arguments. -/
def shift (offset : Nat) : Piece → Piece
  | placeholder n => placeholder (n + offset)
  | p => p

end Piece

/-- Where a reader of pieces stands. -/
inductive Reading where
  | plain
  /-- Between single quotes. -/
  | literal
  /-- Behind a question mark and these digits. -/
  | digits (ds : List Char)

/-- The pieces of a text.  A quote starts a literal and the next one ends it. -/
def piecesFrom : Reading → List Char → List Piece
  | .plain, [] | .literal, [] => []
  | .digits ds, [] => [.ofDigits ds]
  | .literal, c :: cs => .char c :: piecesFrom (if c = '\x27' then .plain else .literal) cs
  | .plain, c :: cs =>
    if c = '?' then piecesFrom (.digits []) cs
    else .char c :: piecesFrom (if c = '\x27' then .literal else .plain) cs
  | .digits ds, c :: cs =>
    if c.isDigit then piecesFrom (.digits (ds ++ [c])) cs
    else if c = '?' then .ofDigits ds :: piecesFrom (.digits []) cs
    else .ofDigits ds :: .char c :: piecesFrom (if c = '\x27' then .literal else .plain) cs

def pieces (sql : String) : List Piece :=
  piecesFrom .plain sql.toList

def write (ps : List Piece) : String :=
  String.ofList (ps.flatMap Piece.write)

/-! ## Renumbering -/

/-- The text behind `offset` other arguments; behind none it is left as it is. -/
def renumber (sql : String) (offset : Nat) : String :=
  if offset = 0 then sql else write ((pieces sql).map (.shift offset))

@[simp]
theorem renumber_zero (sql : String) : renumber sql 0 = sql := rfl

/-! ## Numbers -/

def Piece.number? : Piece → Option Nat
  | placeholder n => some n
  | _ => none

/-- The numbers of the placeholders, from left to right. -/
def Fragment.placeholders (f : Fragment) : List Nat :=
  (pieces f.sql).filterMap Piece.number?

/-- A database takes no statement with more arguments. -/
def argumentLimit : Nat := 32766

/-- The place, in bytes, of the first placeholder for an argument beyond the limit. -/
def offsetBeyond (sql : String) : Nat :=
  (write ((pieces sql).takeWhile fun p => p.number?.all (· ≤ argumentLimit))).utf8ByteSize

/-! ## What a fragment stands for -/

namespace Piece

/-- The piece with its argument in its place.  It stays as it is if it has none. -/
def inPlace (ρ : Value → String) (args : List Value) : Piece → List Char
  | placeholder 0 => (placeholder 0).write
  | placeholder (n + 1) =>
    match args[n]? with
    | some v => (ρ v).toList
    | none => (placeholder (n + 1)).write
  | p => p.write

end Piece

/-- The text of a fragment with its arguments in the places of their
    placeholders, as `ρ` writes them. -/
def Fragment.inPlace (ρ : Value → String) (f : Fragment) : String :=
  String.ofList ((pieces f.sql).flatMap (Piece.inPlace ρ f.args))

end Rationale.Sql
