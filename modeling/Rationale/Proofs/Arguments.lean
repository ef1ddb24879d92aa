/-
  Rationale — what the arguments of a request say.

  A sort is written as its property, its direction and its value, with a colon
  after each of the first two; whatever the value is, colons included, it is
  the rest of the text.  A filter is written as its name and its values, and
  here it is the values that an equals sign does not end.

  * `parse_sortText`, `parseFilter_text`: what a text of each kind says;
  * `withSortArgs_eq_ok`: sorts that are given as texts come in their order.
-/
import Mathlib.Data.List.Forall2
import Rationale.Proofs.Outcome
import Rationale.Query.Request

namespace Rationale.Query

variable {sep : Char} {as bs : List Char} {p dir v : String} {d : Direction} {name : FilterName}
  {r r' : Request} {texts : List String}

/-! ## Separators -/

theorem splitFirst?_append (h : sep ∉ as) : splitFirst? sep (as ++ sep :: bs) = some (as, bs) := by
  have hpos : ∀ c ∈ as, decide (c ≠ sep) = true := by
    intro c hc
    exact decide_eq_true fun heq => h (heq ▸ hc)
  have hdrop : (as ++ sep :: bs).dropWhile (· ≠ sep) = sep :: bs := by
    rw [List.dropWhile_append_of_pos hpos, List.dropWhile_cons_of_neg (by simp)]
  have htake : (as ++ sep :: bs).takeWhile (· ≠ sep) = as := by
    rw [List.takeWhile_append_of_pos hpos, List.takeWhile_cons_of_neg (by simp), List.append_nil]
  rw [splitFirst?, hdrop, htake]

/-! ## Sorts -/

/-- A sort with a direction and a value, as a text. -/
def sortText (p dir v : String) : String :=
  p ++ ":" ++ dir ++ ":" ++ v

/-- No spelling of a direction has a colon. -/
theorem colon_not_mem_of_direction (h : Coded.read? dir = some d) : ':' ∉ dir.toList := by
  have hspellings : ∀ s ∈ (Coded.spellings : List (String × Direction)), ':' ∉ s.1.toList := by
    decide
  obtain ⟨before, after, hsplit, -⟩ := List.lookup_eq_some_iff.1 h
  exact hspellings (dir, d) (by rw [hsplit]; simp)

/-- **The value of a sort may have colons.** -/
theorem parse_sortText (hne : p.toList ≠ []) (hp : ':' ∉ p.toList) (hd : Coded.read? dir = some d) :
    SortDescription.parse (sortText p dir v) = .ok ⟨p, some d, some v⟩ := by
  have htext : (sortText p dir v).toList = p.toList ++ ':' :: (dir.toList ++ ':' :: v.toList) := by
    simp [sortText, String.toList_append]
  have hdir : parseDirection dir.toList = .ok d := by
    rw [parseDirection, String.ofList_toList, hd]
  simp only [SortDescription.parse, htext, splitFirst?_append hp, if_neg hne,
    splitFirst?_append (colon_not_mem_of_direction hd), hdir, ok_bind, String.ofList_toList]
  rfl

/-- Sorts that are given as texts come after those already there, in their order. -/
theorem withSortArgs_eq_ok : r.withSortArgs texts = .ok r' ↔
    ∃ ss, List.Forall₂ (fun text s => SortDescription.parse text = .ok s) texts ss ∧
      r' = { r with sorts := r.sorts ++ ss } := by
  induction texts generalizing r with
  | nil =>
    constructor
    · intro h
      cases h
      exact ⟨[], .nil, by rw [List.append_nil]⟩
    · rintro ⟨ss, hss, rfl⟩
      cases hss
      rw [List.append_nil]
      rfl
  | cons text texts ih =>
    rw [Request.withSortArgs, bind_eq_ok]
    constructor
    · rintro ⟨s, hs, h⟩
      obtain ⟨ss, hss, rfl⟩ := ih.1 h
      refine ⟨s :: ss, .cons hs hss, ?_⟩
      simp only [Request.withSort, List.append_assoc, List.cons_append, List.nil_append]
    · rintro ⟨ss, hss, rfl⟩
      cases hss with
      | @cons _ s _ ss hs hss =>
        refine ⟨s, hs, ih.2 ⟨ss, hss, ?_⟩⟩
        simp only [Request.withSort, List.append_assoc, List.cons_append, List.nil_append]

/-! ## Filters -/

/-- The value of a filter that lists these values. -/
def FilterValue.ofValues : List String → FilterValue
  | [v] => .one v
  | vs => .many vs

@[simp]
theorem FilterValue.values_ofValues (vs : List String) : (ofValues vs).values = vs := by
  match vs with
  | [] | [_] | _ :: _ :: _ => rfl

/-- The values that the text of a filter lists, separated by commas. -/
def listedValues (text : String) : List String :=
  (text.toList.splitOn ',').map String.ofList

theorem equals_not_mem_name (name : FilterName) : '=' ∉ (Coded.text name).toList := by
  cases name <;> decide

/-- **A filter has whatever values its text lists.** -/
theorem parseFilter_text (name : FilterName) (text : String) :
    parseFilter (Coded.text name ++ "=" ++ text) = .ok (name, .ofValues (listedValues text)) := by
  have htext : (Coded.text name ++ "=" ++ text).toList =
      (Coded.text name).toList ++ '=' :: text.toList := by
    simp [String.toList_append]
  have hread : Coded.read? (String.ofList (Coded.text name).toList) = some name := by
    rw [String.ofList_toList, Coded.read?_text]
  rw [parseFilter, htext, splitFirst?_append (equals_not_mem_name name)]
  simp only [hread]
  generalize hvs : (text.toList.splitOn ',').map String.ofList = vs
  rw [listedValues, hvs]
  match vs with
  | [] | [_] | _ :: _ :: _ => rfl

end Rationale.Query
