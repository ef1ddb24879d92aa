/-
  Rationale — the query for the candidates of a page.

  A request that is accepted becomes a `PageQuery`: which justifications are
  selected, in which order, from which boundary on, and how many.  Its text is
  `PageQuery.candidates`; what it means on a store is `Store.candidates`.

  * `Selection` is one member of the union: everything, or what is reached on
    one path;
  * `Request.compile` refuses a request at its first fault, in the order sort
    columns, filters, boundary.
-/
import Rationale.Query.Path
import Rationale.Query.Sort

namespace Rationale.Query

open Sql

/-! ## Selections -/

/-- What one member of the union selects. -/
inductive Selection where
  | every
  /-- What leads, on the path, to a row with one of the values. -/
  | reaching (place : Place) (path : Path place) (values : List Value)

/-- The key, and every sort column besides. -/
def projection (cs : List SortColumn) : String :=
  ", ".intercalate <|
    "j.justification_id AS justification_id" ::
      (cs.filter (·.column ≠ .justificationId)).map fun c =>
        "j." ++ c.column.name ++ " AS " ++ c.column.name

/-- The text of a selection, under construction. -/
def Selection.composing (cs : List SortColumn) : Selection → Composing String
  | every => do
    let projected := projection cs
    return s!"SELECT {projected} FROM justifications j WHERE j.deleted IS NULL"
  | reaching place path values => do
    let projected := projection cs
    let column := place.column
    let joins ← path.joins
    let list ← Composing.bindAll values
    return s!"SELECT DISTINCT {projected}
       FROM justifications j{joins}
      WHERE j.deleted IS NULL
        AND {column} IN ({list})"

def Selection.fragment (cs : List SortColumn) (s : Selection) : Fragment :=
  Composing.fragment (s.composing cs)

/-! ## Filters -/

/-- One value of a filter, as an argument; ids may stand between blanks. -/
def filterValue (name : FilterName) (raw : String) : Except Fault Value :=
  if name.takesIds then
    match (Text.intOfChars? (Text.trim raw.toList)).bind Text.int64OfInt? with
    | some n => .ok (.integer n)
    | none => .error (.filter (.notAnId name raw))
  else .ok (.text raw)

/-- The values of a filter, of which there must be one. -/
def filterValues (name : FilterName) (value : FilterValue) : Except Fault (List Value) :=
  if value.values = [] then .error (.filter (.noValues name))
  else value.values.mapM (filterValue name)

/-- The selections of the filters for some names. -/
def selectionsFor (filters : Filters) : List FilterName → Except Fault (List Selection)
  | [] => .ok []
  | name :: names =>
    match filters name with
    | none => selectionsFor filters names
    | some value => do
      let values ← filterValues name value
      let rest ← selectionsFor filters names
      return name.paths.map (fun path => Selection.reaching name.place path values) ++ rest

/-- The selections of a request: everything, if there is no filter. -/
def selections (filters : Filters) : Except Fault (List Selection) :=
  if FilterName.all.all fun name => (filters name).isNone then .ok [.every]
  else selectionsFor filters FilterName.all

/-! ## Pages -/

structure PageQuery where
  selections : List Selection
  columns : List SortColumn
  condition : RowCondition
  limit : Nat

/-- The query of a request. -/
def Request.compile (r : Request) : Except Fault PageQuery := do
  let columns ← resolve r.sorts
  let selections ← selections r.filters
  let condition ← rowCondition columns r.isContinuation
  return ⟨selections, columns, condition, r.effectiveCount⟩

/-- The text of the query, under construction: it selects ids. -/
def PageQuery.composing (q : PageQuery) : Composing String := do
  let members ← q.selections.mapM fun s => Composing.splice (s.fragment q.columns)
  let union := "\n      UNION\n      ".intercalate members
  let condition ← Composing.splice (Composing.fragment (q.condition.sql "lj"))
  let limit ← Composing.bind (.integer (Int64.ofNat q.limit))
  let order := orderBy q.columns "lj"
  return s!"SELECT lj.justification_id
       FROM (
      {union}
       ) AS lj
      WHERE {condition}
      ORDER BY {order}
      LIMIT {limit}"

def PageQuery.candidates (q : PageQuery) : Fragment :=
  Composing.fragment q.composing

end Rationale.Query
