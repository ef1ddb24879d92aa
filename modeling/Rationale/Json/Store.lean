/-
  Rationale — the JSON form of a store.

  A store is an object with a member for each table that has rows; a row is an
  array of the cells of its columns, in their order.
-/
import Rationale.Json.Sql
import Rationale.Store.Schema

namespace Rationale

namespace Store

/-- Adds the rows of one member of the object. -/
def insertMember (db : Store) (name : String) (rows : Json) : Option Store := do
  db.insert (← TableName.named? name) (← JsonForm.ofJson? rows)

/-- Adds the rows of all tables of an object. -/
def insertJson (db : Store) : Json → Option Store
  | .obj members => members.foldlM (fun db (name, rows) => db.insertMember name rows) db
  | _ => none

def ofJson? (j : Json) : Option Store :=
  insertJson {} j

end Store

end Rationale
