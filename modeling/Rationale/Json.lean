/-
  Rationale — JSON values, and types that have a JSON form.

  An object is the list of its members, of which the first with a name counts.
  A record may be written as an object with a member for each of its parts, or
  as the array of all its parts in their order (`Json.parts?`).  A union says
  of what type its value is (`Json.union?`).  What is found in a value is
  smaller than the whole (`Json.Within`), so that nested values can be read by
  recursion.

  * `JsonForm` is the class of types with a JSON form;
  * a part that may be absent may also be null (`Json.Parts.optional?`).
-/
import Rationale.Fault
import Rationale.Time.Loose

namespace Rationale

inductive Json where
  | null
  | bool (b : Bool)
  | int (n : Int)
  /-- A number that is not written as an integer. -/
  | real (text : String)
  | str (s : String)
  | arr (elements : List Json)
  | obj (members : List (String × Json))
deriving Repr

namespace Json

/-! ## Parts -/

/-- The member of that name. -/
def field? : Json → String → Option Json
  | obj members, name => members.lookup name
  | _, _ => none

/-- A value that is smaller than `j`. -/
abbrev Within (j : Json) : Type :=
  { v : Json // sizeOf v < sizeOf j }

/-- What lies within a part of `j` lies within `j`. -/
def Within.inner {j : Json} (v : Within j) (w : Within v.1) : Within j :=
  ⟨w.1, Nat.lt_trans w.2 v.2⟩

theorem sizeOf_element_lt {elements : List Json} {v : Json} (h : v ∈ elements) :
    sizeOf v < sizeOf (arr elements) := by
  have := List.sizeOf_lt_of_mem h
  simp only [arr.sizeOf_spec]
  omega

theorem sizeOf_member_lt {members : List (String × Json)} {m : String × Json} (h : m ∈ members) :
    sizeOf m.2 < sizeOf (obj members) := by
  rcases m with ⟨name, v⟩
  have := List.sizeOf_lt_of_mem h
  simp only [obj.sizeOf_spec, Prod.mk.sizeOf_spec] at *
  omega

/-- The elements of an array. -/
def elements? : (j : Json) → Option (List (Within j))
  | arr elements => some (elements.attach.map fun v => ⟨v.1, sizeOf_element_lt v.2⟩)
  | _ => none

/-- The parts of a record, by their names. -/
abbrev Parts (j : Json) : Type :=
  List (String × Within j)

/-- The parts of a record whose parts are called `names`: the members of an
    object, or the elements of an array that has one for each name. -/
def parts? (names : List String) : (j : Json) → Option (Parts j)
  | obj members => some (members.attach.map fun m => (m.1.1, ⟨m.1.2, sizeOf_member_lt m.2⟩))
  | arr elements =>
    if elements.length = names.length then
      some (names.zip (elements.attach.map fun v => ⟨v.1, sizeOf_element_lt v.2⟩))
    else none
  | _ => none

/-- The text of a tag: a string, or an object whose one member has that name
    and is null. -/
def tagText? : Json → Option String
  | str s => some s
  | obj [(s, null)] => some s
  | _ => none

/-- The tag of a union and the value it is about: two members of an object, or
    the two elements of an array, whose tag is a string. -/
def union? (tag : String) : (j : Json) → Option (String × Within j)
  | arr [str s, v] => some (s, ⟨v, sizeOf_element_lt (by simp)⟩)
  | obj members => do
    let parts ← parts? [] (obj members)
    return (← tagText? (← parts.lookup tag).1, ← parts.lookup "value")
  | _ => none

def isNull : Json → Bool
  | null => true
  | _ => false

/-- An object that says of what type its value is. -/
def tagged (tag type : String) (value : Json) : Json :=
  obj [(tag, str type), ("value", value)]

end Json

/-! ## Types with a JSON form -/

class JsonForm (α : Type) where
  toJson : α → Json
  ofJson? : Json → Option α

namespace Json

variable {α : Type} [JsonForm α]

/-- The value of the member of that name. -/
def get? (j : Json) (name : String) : Option α :=
  (j.field? name).bind JsonForm.ofJson?

/-- The value of the member of that name, if it is there and is not null. -/
def optional? (j : Json) (name : String) : Option (Option α) :=
  match j.field? name with
  | none | some null => some none
  | some v => some <$> JsonForm.ofJson? v

/-- The part of that name. -/
def Parts.get? {j : Json} (parts : Parts j) (name : String) : Option α :=
  (parts.lookup name).bind fun v => JsonForm.ofJson? v.1

/-- The part of that name, if it is there and is not null. -/
def Parts.optional? {j : Json} (parts : Parts j) (name : String) : Option (Option α) :=
  match parts.lookup name with
  | none | some ⟨null, _⟩ => some none
  | some v => some <$> JsonForm.ofJson? v.1

end Json

instance : JsonForm Json where
  toJson j := j
  ofJson? j := some j

instance : JsonForm String where
  toJson := .str
  ofJson?
    | .str s => some s
    | _ => none

instance : JsonForm Bool where
  toJson := .bool
  ofJson?
    | .bool b => some b
    | _ => none

instance : JsonForm Int64 where
  toJson n := .int n.toInt
  ofJson?
    | .int n => Text.int64OfInt? n
    | _ => none

/-- A number below `2 ^ 64`. -/
instance : JsonForm Nat where
  toJson n := .int n
  ofJson?
    | .int (.ofNat n) => Text.word64 n
    | _ => none

instance {α : Type} [JsonForm α] : JsonForm (List α) where
  toJson as := .arr (as.map JsonForm.toJson)
  ofJson?
    | .arr elements => elements.mapM JsonForm.ofJson?
    | _ => none

/-- Absent values are null. -/
instance {α : Type} [JsonForm α] : JsonForm (Option α) where
  toJson
    | some a => JsonForm.toJson a
    | none => .null
  ofJson?
    | .null => some none
    | j => some <$> JsonForm.ofJson? j

/-- A pair is an array of two. -/
instance {α β : Type} [JsonForm α] [JsonForm β] : JsonForm (α × β) where
  toJson p := .arr [JsonForm.toJson p.1, JsonForm.toJson p.2]
  ofJson?
    | .arr [a, b] => return (← JsonForm.ofJson? a, ← JsonForm.ofJson? b)
    | _ => none

instance : JsonForm Time.Instant where
  toJson t := .str t.json
  ofJson?
    | .str s => Time.Instant.readLoose? s
    | _ => none

/-- The text of a value of an enumeration. -/
def Coded.toJson {α : Type} [Coded α] (a : α) : Json :=
  .str (Coded.text a)

/-- The value whose own text, and no other spelling, is the text of a tag. -/
def Coded.ofJson? {α : Type} [Coded α] (j : Json) : Option α := do
  let s ← j.tagText?
  (Coded.read? s).filter fun a => Coded.text a = s

instance : JsonForm Polarity := ⟨Coded.toJson, Coded.ofJson?⟩
instance : JsonForm Verdict := ⟨Coded.toJson, Coded.ofJson?⟩

end Rationale
