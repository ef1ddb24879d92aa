/-
  Rationale — the order of a page and where it continues.

  A sort specification resolves to sort columns, each with a direction.
  `comesBefore` is the lexicographic order that they denote.  A continuation
  has a boundary, one value for each column, and `after` is the condition that
  a row comes after it: a disjunction with one member for each column, which
  compares that column and sets the ones before it equal.

  * `RowCondition.holds` is what a condition means, `RowCondition.sql` its text;
  * a row is only ever returned if none of its sort columns is absent;
  * `resolve` refuses a property that is no column, and a column named twice.
-/
import Rationale.Query.Request
import Rationale.Sql.Composing

namespace Rationale.Query

open Sql

/-! ## Columns -/

/-- The columns of justifications that a page can be sorted by. -/
inductive Column where
  | justificationId
  | created
  | polarity
  | rootPolarity
  | rootTargetType
  | rootTargetId
  | targetType
  | targetId
  | basisType
  | basisId
  | creatorUserId
deriving DecidableEq, Repr

/-- What a column holds; timestamps are texts in their stored form. -/
inductive ColumnKind where
  | integer
  | text
  | timestamp
deriving DecidableEq, Repr

def ColumnKind.name : ColumnKind → String
  | integer => "Integer"
  | text => "Text"
  | timestamp => "Timestamp"

namespace Column

def all : List Column :=
  [.justificationId, .created, .polarity, .rootPolarity, .rootTargetType, .rootTargetId,
    .targetType, .targetId, .basisType, .basisId, .creatorUserId]

theorem mem_all (c : Column) : c ∈ all := by
  cases c <;> decide

def name : Column → String
  | justificationId => "justification_id"
  | created => "created"
  | polarity => "polarity"
  | rootPolarity => "root_polarity"
  | rootTargetType => "root_target_type"
  | rootTargetId => "root_target_id"
  | targetType => "target_type"
  | targetId => "target_id"
  | basisType => "basis_type"
  | basisId => "basis_id"
  | creatorUserId => "creator_user_id"

def kind : Column → ColumnKind
  | justificationId | rootTargetId | targetId | basisId | creatorUserId => .integer
  | created => .timestamp
  | polarity | rootPolarity | rootTargetType | targetType | basisType => .text

/-- The column with that name. -/
def named? (s : String) : Option Column :=
  all.find? (·.name = s)

theorem named?_name (c : Column) : named? c.name = some c := by
  cases c <;> decide

end Column

/-- The column name that a property stands for: `id` is the key, and any other
    property is a column name in camel case. -/
def columnName (property : String) : String :=
  if property = "id" then "justification_id"
  else String.ofList <| property.toList.flatMap fun c =>
    if c.isUpper then ['_', c.toLower] else [c]

/-! ## Sort columns -/

structure SortColumn where
  column : Column
  direction : Direction
  /-- The value of the boundary, as given. -/
  value : Option String
deriving DecidableEq, Repr

namespace SortColumn

/-- The comparison of a later row with an earlier one. -/
def comparison (c : SortColumn) : Value.Comparison :=
  match c.direction with
  | .asc => .greater
  | .desc => .less

def keyword (c : SortColumn) : String :=
  match c.direction with
  | .asc => "ASC"
  | .desc => "DESC"

/-- In this column `a` comes before `b`. -/
def before (c : SortColumn) (a b : Value) : Bool :=
  match c.direction with
  | .asc => a.lt b
  | .desc => b.lt a

/-- The value of the boundary in the form in which the column is stored. -/
def boundary (c : SortColumn) : Except Fault Value :=
  match c.value with
  | none => .error (.sort (.noBoundary c.column.name))
  | some raw =>
    match c.column.kind with
    | .text => .ok (.text raw)
    | .integer =>
      match Text.int64? raw with
      | some n => .ok (.integer n)
      | none => .error (.sort (.notAnInteger c.column.name raw))
    | .timestamp =>
      match Time.Instant.read raw with
      | .ok t => .ok (.text t.stored)
      | .error _ => .error (.sort (.notATimestamp c.column.name raw))

end SortColumn

/-- The columns of a specification whose entries must not use the columns `used`. -/
def resolveAfter (used : List Column) : List SortDescription → Except Fault (List SortColumn)
  | [] => .ok []
  | s :: rest =>
    match Column.named? (columnName s.property) with
    | none => .error (.sort (.unknownProperty s.property))
    | some c =>
      if c ∈ used then .error (.sort (.repeated s.property))
      else do
        let cs ← resolveAfter (c :: used) rest
        return ⟨c, s.direction.getD .asc, s.value⟩ :: cs

/-- The columns of a specification; an empty one sorts by id. -/
def resolve (sorts : List SortDescription) : Except Fault (List SortColumn) :=
  match sorts with
  | [] => .ok [⟨.justificationId, .asc, none⟩]
  | sorts => resolveAfter [] sorts

/-! ## The order -/

/-- A row, as the values of its sort columns. -/
abbrev SortRow : Type :=
  Column → Value

/-- The lexicographic order of the columns. -/
def comesBefore : List SortColumn → SortRow → SortRow → Bool
  | [], _, _ => false
  | c :: cs, a, b =>
    c.before (a c.column) (b c.column) || (a c.column = b c.column && comesBefore cs a b)

/-- The order in which rows are returned: equal keys keep their places. -/
def inOrder (cs : List SortColumn) (a b : SortRow) : Bool :=
  !comesBefore cs b a

/-- The ORDER BY clause. -/
def orderBy (cs : List SortColumn) (table : String) : String :=
  ", ".intercalate (cs.map fun c => table ++ "." ++ c.column.name ++ " " ++ c.keyword)

/-! ## Conditions -/

/-- A comparison of a column with an argument. -/
structure Test where
  column : Column
  comparison : Value.Comparison
  value : Value
deriving DecidableEq, Repr

namespace Test

def holds (t : Test) (row : SortRow) : Bool :=
  Value.compares t.comparison (row t.column) t.value

def sql (table : String) (t : Test) : Composing String := do
  let p ← Composing.bind t.value
  return table ++ "." ++ t.column.name ++ " " ++ t.comparison.symbol ++ " " ++ p

end Test

/-- The condition that a row comes after the boundary: one disjunct for each
    column, in which that column is after and the ones before it are equal. -/
def after : List (SortColumn × Value) → List (List Test)
  | [] => []
  | (c, v) :: rest =>
    [⟨c.column, c.comparison, v⟩] :: (after rest).map (⟨c.column, .equal, v⟩ :: ·)

/-- The condition on the rows of a page. -/
structure RowCondition where
  /-- Columns that must not be absent. -/
  present : List Column
  /-- A disjunction of conjunctions, for a continuation. -/
  continued : Option (List (List Test))
deriving DecidableEq, Repr

namespace RowCondition

def holds (c : RowCondition) (row : SortRow) : Bool :=
  c.present.all (fun k => !(row k).isNull) &&
    match c.continued with
    | none => true
    | some disjuncts => disjuncts.any fun conjuncts => conjuncts.all (·.holds row)

def conjunction (table : String) (ts : List Test) : Composing String := do
  return "(" ++ " AND ".intercalate (← ts.mapM (Test.sql table)) ++ ")"

def disjunction (table : String) (ds : List (List Test)) : Composing String := do
  return "(" ++ " OR ".intercalate (← ds.mapM (conjunction table)) ++ ")"

/-- The WHERE clause. -/
def sql (table : String) (c : RowCondition) : Composing String := do
  let present := c.present.map fun k => table ++ "." ++ k.name ++ " IS NOT NULL"
  let continued ← match c.continued with
    | none => pure []
    | some ds => do pure [← disjunction table ds]
  return " AND ".intercalate (present ++ continued)

end RowCondition

/-- The condition on the rows of a page; a continuation needs a boundary. -/
def rowCondition (cs : List SortColumn) (isContinuation : Bool) : Except Fault RowCondition :=
  if isContinuation then do
    let values ← cs.mapM SortColumn.boundary
    return ⟨cs.map (·.column), some (after (cs.zip values))⟩
  else .ok ⟨cs.map (·.column), none⟩

end Rationale.Query
