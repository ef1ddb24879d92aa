/-
  Rationale — enumerations with a fixed spelling.

  A `Coded` type is an enumeration whose values have a text each.  Reading
  (`read?`) is exact: case and blanks count.  A value may have further
  spellings, but only one text is written.

  * `read?_text`: what is written reads back;
  * `text_injective`: two values never share a text.
-/

namespace Rationale

class Coded (α : Type) where
  /-- The name of the enumeration in messages. -/
  typeName : String
  text : α → String
  /-- Every accepted spelling, with the value it stands for. -/
  spellings : List (String × α)
  lookup_text : ∀ a, spellings.lookup (text a) = some a

namespace Coded

variable {α : Type} [Coded α]

/-- The value with that spelling. -/
def read? (s : String) : Option α :=
  (spellings : List (String × α)).lookup s

@[simp]
theorem read?_text (a : α) : read? (text a) = some a :=
  lookup_text a

theorem text_injective {a b : α} (h : text a = text b) : a = b := by
  have := read?_text a
  rw [h, read?_text] at this
  exact (Option.some.inj this).symm

end Coded

end Rationale
