/-
  Rationale — requests for a page of justifications.

  A request names filters, which together widen the page, a sort
  specification, and how many justifications to return.  A continuation
  returns only what comes after the boundary given by the values of the sorts.

  Filters and sorts can be written as arguments: `name=v1,v2`
  (`parseFilter`) and `property:direction:value` (`SortDescription.parse`),
  where the value of a sort may itself have colons.
-/
import Rationale.Fault

namespace Rationale.Query

/-! ## Filters -/

/-- The value of a filter, or a list of values. -/
inductive FilterValue where
  | one (value : String)
  | many (values : List String)
deriving DecidableEq, Repr

def FilterValue.values : FilterValue → List String
  | one v => [v]
  | many vs => vs

/-- At most one value for each filter. -/
abbrev Filters : Type :=
  FilterName → Option FilterValue

/-- The filters with `value` for `name`, whatever it was before. -/
def Filters.set (fs : Filters) (name : FilterName) (value : FilterValue) : Filters :=
  fun n => if n = name then some value else fs n

/-- The text before the first `sep` and the text after it. -/
def splitFirst? (sep : Char) (cs : List Char) : Option (List Char × List Char) :=
  match cs.dropWhile (· ≠ sep) with
  | [] => none
  | _ :: rest => some (cs.takeWhile (· ≠ sep), rest)

/-- A filter written as `name=v1,v2`. -/
def parseFilter (arg : String) : Except Fault (FilterName × FilterValue) :=
  match splitFirst? '=' arg.toList with
  | none => .error (.filter (.noEquals arg))
  | some (key, values) =>
    match Coded.read? (String.ofList key) with
    | none => .error (.filter (.unknownName (String.ofList key)))
    | some name =>
      match (values.splitOn ',').map String.ofList with
      | [v] => .ok (name, .one v)
      | vs => .ok (name, .many vs)

/-! ## Sorts -/

/-- One entry of a sort specification. -/
structure SortDescription where
  property : String
  /-- Ascending if absent. -/
  direction : Option Direction := none
  /-- The value of the boundary of a continuation. -/
  value : Option String := none
deriving DecidableEq, Repr

/-- A direction written out. -/
def parseDirection (cs : List Char) : Except Fault Direction :=
  match Coded.read? (String.ofList cs) with
  | some d => .ok d
  | none => .error (.sort (.unknownDirection (String.ofList cs)))

/-- A sort written as `property`, `property:direction` or `property:direction:value`. -/
def SortDescription.parse (arg : String) : Except Fault SortDescription :=
  let (property, rest) := match splitFirst? ':' arg.toList with
    | none => (arg.toList, none)
    | some (p, rest) => (p, some rest)
  if property = [] then .error (.sort (.noProperty arg))
  else
    match rest with
    | none => .ok { property := String.ofList property }
    | some rest =>
      match splitFirst? ':' rest with
      | none => do
        let d ← parseDirection rest
        return { property := String.ofList property, direction := d }
      | some (direction, value) => do
        let d ← parseDirection direction
        return { property := String.ofList property, direction := d, value := String.ofList value }

/-! ## Requests -/

/-- No page is longer than this. -/
def maxCount : Nat := 1024

structure Request where
  filters : Filters := fun _ => none
  /-- The order of the page; by id if empty. -/
  sorts : List SortDescription := []
  count : Nat
  /-- Return only what comes after the boundary. -/
  isContinuation : Bool := false
  /-- Give the URLs of writ quotes. -/
  includeUrls : Bool := false

namespace Request

/-- The length of the page, if there are enough justifications. -/
def effectiveCount (r : Request) : Nat :=
  min r.count maxCount

def withFilter (r : Request) (name : FilterName) (value : FilterValue) : Request :=
  { r with filters := r.filters.set name value }

def withSort (r : Request) (s : SortDescription) : Request :=
  { r with sorts := r.sorts ++ [s] }

/-- Filters given as arguments, each replacing an earlier one of its name. -/
def withFilterArgs (r : Request) : List String → Except Fault Request
  | [] => .ok r
  | arg :: args => do
    let (name, value) ← parseFilter arg
    (r.withFilter name value).withFilterArgs args

/-- Sorts given as arguments, after those already there. -/
def withSortArgs (r : Request) : List String → Except Fault Request
  | [] => .ok r
  | arg :: args => do
    let s ← SortDescription.parse arg
    (r.withSort s).withSortArgs args

end Request

end Rationale.Query
