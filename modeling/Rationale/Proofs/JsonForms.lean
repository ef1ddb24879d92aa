/-
  Rationale — JSON forms that read back.

  A type is `Lossless` if each of its values reads back from its JSON form.
  Only timestamps stand in the way: one outside of the years 0 to 9999 is
  written with a sign.  `Dated` says of a type where in a value there are
  timestamps; a type of which it says nothing has none.

  A record is written as an object, whose parts are looked up by their names
  (`Json.get?_partsOf`, `Json.optional?_partsOf`); a union as a tag and a value
  (`Json.union?_tagged`).  What may be absent is written as null if it is, so
  nothing that is there may be written as null (`NonNull`).

  * `ofJson?_toJson`: a lossless type reads back;
  * lists, options and relations are lossless if what they hold is.
-/
import Rationale.Json.Entity
import Rationale.Proofs.LooseTimestamps

namespace Rationale

open Json JsonForm Time

/-! ## Parts of records and unions -/

namespace Json

/-- The parts of an object, whatever they are called. -/
def partsOf (members : List (String × Json)) : Parts (obj members) :=
  ((obj members).parts? []).getD []

@[simp]
theorem parts?_obj (names : List String) (members : List (String × Json)) :
    (obj members).parts? names = some (partsOf members) :=
  rfl

theorem lookup_partsOf (members : List (String × Json)) (name : String) :
    ((partsOf members).lookup name).map (·.1) = members.lookup name := by
  have h : ∀ ms : List { m // m ∈ members },
      ((ms.map fun m => ((m.1.1, ⟨m.1.2, sizeOf_member_lt m.2⟩) : String × Within _)).lookup
        name).map (·.1) = (ms.map (·.1)).lookup name := by
    intro ms
    induction ms with
    | nil => rfl
    | cons m ms ih =>
      obtain ⟨⟨k, v⟩, hm⟩ := m
      simp only [List.map_cons, List.lookup_cons]
      cases name == k with
      | true => rfl
      | false => exact ih
  have ha := h members.attach
  rw [List.attach_map_subtype_val] at ha
  exact ha

theorem exists_lookup_partsOf {members : List (String × Json)} {name : String} {v : Json}
    (h : members.lookup name = some v) :
    ∃ hv, (partsOf members).lookup name = some ⟨v, hv⟩ := by
  rw [← lookup_partsOf] at h
  obtain ⟨⟨w, hw⟩, hl, rfl⟩ := Option.map_eq_some_iff.1 h
  exact ⟨hw, hl⟩

/-- Reading the elements of an array one by one. -/
theorem exists_elements? (elements : List Json) :
    ∃ vs, (arr elements).elements? = some vs ∧
      ∀ {α : Type} (f : Json → Option α), (vs.mapM fun v => f v.1) = elements.mapM f := by
  refine ⟨_, rfl, fun f => ?_⟩
  have h : (elements.attach.map (·.1)).mapM f = elements.mapM f := by
    rw [List.attach_map_subtype_val]
  rw [List.mapM_map] at h ⊢
  exact h

variable {α : Type} [JsonForm α]

@[simp]
theorem get?_partsOf (members : List (String × Json)) (name : String) :
    ((partsOf members).get? name : Option α) = (members.lookup name).bind ofJson? := by
  rw [Parts.get?, ← lookup_partsOf]
  cases (partsOf members).lookup name <;> rfl

/-- A part that may be absent is read like a value that may be null. -/
@[simp]
theorem optional?_partsOf (members : List (String × Json)) (name : String) :
    ((partsOf members).optional? name : Option (Option α)) =
      (members.lookup name).elim (some none) ofJson? := by
  rw [Parts.optional?, ← lookup_partsOf]
  rcases (partsOf members).lookup name with _ | ⟨_ | _ | _ | _ | _ | _ | _, _⟩ <;> rfl

theorem sizeOf_value_lt (tag type : String) (v : Json) : sizeOf v < sizeOf (tagged tag type v) := by
  simp only [tagged, obj.sizeOf_spec, List.cons.sizeOf_spec, Prod.mk.sizeOf_spec]
  omega

@[simp]
theorem union?_tagged {tag : String} (h : tag ≠ "value") (type : String) (v : Json) :
    (tagged tag type v).union? tag = some (type, ⟨v, sizeOf_value_lt tag type v⟩) := by
  have hne : ("value" == tag) = false := beq_false_of_ne h.symm
  obtain ⟨_, ht⟩ : ∃ hv, (partsOf [(tag, str type), ("value", v)]).lookup tag =
    some ⟨str type, hv⟩ := exists_lookup_partsOf (by simp)
  obtain ⟨_, hv⟩ : ∃ hv, (partsOf [(tag, str type), ("value", v)]).lookup "value" =
    some ⟨v, hv⟩ := exists_lookup_partsOf (by simp [List.lookup_cons, hne])
  simp [tagged, union?, ht, hv, tagText?]

end Json

/-! ## Timestamps within values -/

class Dated (α : Type) where
  /-- All timestamps in the value are of the years 0 to 9999. -/
  InYears : α → Prop

export Dated (InYears)

/-- A type without timestamps. -/
instance (priority := low) undated {α : Type} : Dated α where
  InYears _ := True

@[simp]
theorem inYears_undated {α : Type} (a : α) : @InYears α undated a :=
  trivial

instance : Dated Instant where
  InYears t := 0 ≤ t.year ∧ t.year ≤ 9999

section

variable {α : Type} [Dated α]

instance : Dated (List α) where
  InYears as := ∀ a ∈ as, InYears a

instance : Dated (Option α) where
  InYears o := ∀ a ∈ o, InYears a

instance : Dated (Relation α) where
  InYears r := ∀ a, r = .entity a → InYears a

@[simp]
theorem inYears_list {as : List α} : InYears as ↔ ∀ a ∈ as, InYears a :=
  Iff.rfl

@[simp]
theorem inYears_option {o : Option α} : InYears o ↔ ∀ a ∈ o, InYears a :=
  Iff.rfl

@[simp]
theorem inYears_relation {r : Relation α} : InYears r ↔ ∀ a, r = .entity a → InYears a :=
  Iff.rfl

end

/-! ## Lossless types -/

class Lossless (α : Type) [JsonForm α] [Dated α] : Prop where
  ofJson?_toJson {a : α} (h : InYears a) : ofJson? (toJson a) = some a

export Lossless (ofJson?_toJson)

attribute [simp] ofJson?_toJson

/-- No value of the type is written as null. -/
class NonNull (α : Type) [JsonForm α] : Prop where
  toJson_ne_null (a : α) : toJson a ≠ .null

@[simp]
theorem ofJson?_str (s : String) : ofJson? (.str s) = some s :=
  rfl

instance : Lossless String where
  ofJson?_toJson _ := rfl

instance : NonNull String where
  toJson_ne_null _ h := nomatch h

instance : Lossless Bool where
  ofJson?_toJson _ := rfl

instance : Lossless Int64 where
  ofJson?_toJson _ := Text.int64OfInt?_toInt _

instance : Lossless Instant where
  ofJson?_toJson h := Instant.readLoose?_json h.1 h.2

/-- The text of a value of an enumeration is its own. -/
theorem Coded.ofJson?_toJson {α : Type} [Coded α] (a : α) :
    Coded.ofJson? (Coded.toJson a) = some a := by
  simp [Coded.ofJson?, Coded.toJson, tagText?]

instance : Lossless Polarity where
  ofJson?_toJson _ := Coded.ofJson?_toJson _

/-! ## Lists, options and relations -/

theorem mapM_map_eq_some {α β : Type} {write : α → β} {read : β → Option α} {as : List α}
    (h : ∀ a ∈ as, read (write a) = some a) : (as.map write).mapM read = some as := by
  induction as with
  | nil => rfl
  | cons a as ih =>
    rw [List.forall_mem_cons] at h
    simp [h.1, ih h.2]

/-- A relation reads back if the entity that it holds does. -/
theorem Relation.ofJsonWith?_toJsonWith {α : Type} {write : α → Json} {read : Json → Option α}
    {r : Relation α} (h : ∀ a, r = .entity a → read (write a) = some a) :
    (ofJsonWith? (r.toJsonWith write) fun v => read v.1) = some r := by
  cases r with
  | entity a => simp [toJsonWith, ofJsonWith?, h a rfl]
  | ref i => simp [toJsonWith, ofJsonWith?]

section

variable {α : Type} [JsonForm α] [Dated α] [Lossless α]

instance : Lossless (List α) where
  ofJson?_toJson h := mapM_map_eq_some fun a ha => ofJson?_toJson (h a ha)

instance : NonNull (List α) where
  toJson_ne_null _ h := nomatch h

instance [NonNull α] : Lossless (Option α) where
  ofJson?_toJson {o} h := by
    cases o with
    | none => rfl
    | some a =>
      have h : InYears a := h a rfl
      have hn : toJson a ≠ .null := NonNull.toJson_ne_null a
      have hr := ofJson?_toJson h
      change ofJson? (toJson a) = some (some a)
      generalize toJson a = v at hn hr
      have ho : ofJson? v = some <$> (ofJson? v : Option α) := by
        cases v with
        | null => exact absurd rfl hn
        | _ => rfl
      rw [ho, hr]
      rfl

instance : Lossless (Relation α) where
  ofJson?_toJson h := Relation.ofJsonWith?_toJsonWith fun a ha => ofJson?_toJson (h a ha)

end

end Rationale
