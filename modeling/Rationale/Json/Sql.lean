/-
  Rationale — the JSON forms of SQL values and fragments.
-/
import Rationale.Json
import Rationale.Sql.Fragment

namespace Rationale.Sql

instance : JsonForm Value where
  toJson
    | .null => .null
    | .integer n => JsonForm.toJson n
    | .text s => .str s
  ofJson?
    | .null => some .null
    | .str s => some (.text s)
    | j => .integer <$> JsonForm.ofJson? j

instance : JsonForm Fragment where
  toJson f := .obj [("sql", JsonForm.toJson f.sql), ("args", JsonForm.toJson f.args)]
  ofJson? j := return ⟨← j.get? "sql", ← j.get? "args"⟩

end Rationale.Sql
