/-
  Rationale — ids in ascending order, each once.

  * `mem_ascending`: ordering keeps the ids and nothing else;
  * `pairwise_ascending`: the ids ascend strictly, so none is repeated.
-/
import Rationale.Vocabulary

namespace Rationale

/-- Puts an id in its place, unless it is there. -/
def insertAscending (i : Id) : List Id → List Id
  | [] => [i]
  | k :: ks => if i < k then i :: k :: ks else if i = k then k :: ks else k :: insertAscending i ks

/-- The ids, each once, in ascending order. -/
def ascending (ids : List Id) : List Id :=
  ids.foldr insertAscending []

theorem mem_insertAscending {i x : Id} {ks : List Id} :
    x ∈ insertAscending i ks ↔ x = i ∨ x ∈ ks := by
  induction ks with
  | nil => simp [insertAscending]
  | cons k ks ih =>
    rw [insertAscending]
    split
    · simp
    · split
      · simp_all
      · simp only [List.mem_cons, ih]
        exact ⟨by rintro (h | h | h) <;> simp [h], by rintro (h | h | h) <;> simp [h]⟩

@[simp]
theorem mem_ascending {ids : List Id} {x : Id} : x ∈ ascending ids ↔ x ∈ ids := by
  induction ids with
  | nil => simp [ascending]
  | cons i ids ih =>
    rw [ascending, List.foldr_cons, mem_insertAscending, ← ascending, ih, List.mem_cons]

theorem pairwise_insertAscending (i : Id) {ks : List Id} (h : ks.Pairwise (· < ·)) :
    (insertAscending i ks).Pairwise (· < ·) := by
  induction ks with
  | nil => simp [insertAscending]
  | cons k ks ih =>
    rw [List.pairwise_cons] at h
    rw [insertAscending]
    split
    · rename_i hik
      refine List.pairwise_cons.2 ⟨fun x hx => ?_, List.pairwise_cons.2 h⟩
      rcases List.mem_cons.1 hx with rfl | hx
      · exact hik
      · exact Int64.lt_trans hik (h.1 x hx)
    · split
      · exact List.pairwise_cons.2 h
      · rename_i hik hne
        refine List.pairwise_cons.2 ⟨fun x hx => ?_, ih h.2⟩
        rcases mem_insertAscending.1 hx with rfl | hx
        · exact Int64.lt_of_le_of_ne (Int64.not_lt.1 hik) (Ne.symm hne)
        · exact h.1 x hx

theorem pairwise_ascending (ids : List Id) : (ascending ids).Pairwise (· < ·) := by
  induction ids with
  | nil => simp [ascending]
  | cons i ids ih => exact pairwise_insertAscending i ih

end Rationale
