/-
  Rationale — the tables of a settings file.

  A table is the list of its items.  A table inside it comes from a header of
  its own, from the headers of tables further in, or from dotted keys; an array
  of tables grows by headers, and only its last table can still change.

  * no key is given twice, and no table is opened twice (`addValue?`,
    `openTable?`);
  * dotted keys go only through tables that come from dotted keys, and headers
    through all tables and the last ones of arrays (`update?`).
-/
import Rationale.Settings.Value

namespace Rationale.SettingsFile

/-- Where a table comes from. -/
inductive Origin where
  | header
  /-- The header of a table further in. -/
  | path
  | dotted
deriving DecidableEq, Repr

inductive Item where
  | value (v : SettingValue)
  | table (origin : Origin) (items : List (String × Item))
  /-- An array of tables, by the items of the last. -/
  | tables (last : List (String × Item))

namespace Item

/-- A value, or a table as one. -/
def toValue : Item → SettingValue
  | value v => v
  | _ => .compound

end Item

abbrev Items : Type :=
  List (String × Item)

namespace Items

/-- The items with `item` under the key, in place of what was there. -/
def set (items : Items) (key : String) (item : Item) : Items :=
  if (items.lookup key).isSome then
    items.map fun (k, i) => if k = key then (k, item) else (k, i)
  else items ++ [(key, item)]

/-- Changes the table at the end of a path, which begins in a table with that
    origin and those items; tables that are missing on it are made. -/
def update? (dotted : Bool) (change : Origin → Items → Option Items) :
    List String → Origin → Items → Option Items
  | [], origin, items => change origin items
  | key :: path, _, items =>
    match items.lookup key with
    | none => do
      let o := if dotted then Origin.dotted else .path
      return items.set key (.table o (← update? dotted change path o []))
    | some (.table o inner) =>
      if dotted ∧ o = .header then none
      else do return items.set key (.table o (← update? dotted change path o inner))
    | some (.tables last) => do
      return items.set key (.tables (← update? dotted change path .header last))
    | some (.value _) => none

/-- Adds a value under a dotted key, whose last part is `key`. -/
def addValue? (path : List String) (key : String) (v : SettingValue) (origin : Origin)
    (items : Items) : Option Items :=
  let add (o : Origin) (inner : Items) : Option Items :=
    if (path ≠ [] ∧ o ≠ .dotted) ∨ (inner.lookup key).isSome then none
    else some (inner ++ [(key, .value v)])
  update? true add path origin items

/-- Opens the table `key` in the table at the end of `path`. -/
def openTable? (path : List String) (key : String) (items : Items) : Option Items :=
  let add (_ : Origin) (outer : Items) : Option Items :=
    match outer.lookup key with
    | none => some (outer.set key (.table .header []))
    | some (.table .path inner) => some (outer.set key (.table .header inner))
    | _ => none
  update? false add path .header items

/-- Adds a table to the array `key` in the table at the end of `path`. -/
def openElement? (path : List String) (key : String) (items : Items) : Option Items :=
  let add (_ : Origin) (outer : Items) : Option Items :=
    match outer.lookup key with
    | none | some (.tables _) => some (outer.set key (.tables []))
    | _ => none
  update? false add path .header items

end Items

end Rationale.SettingsFile
