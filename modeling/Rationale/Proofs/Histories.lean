/-
  Rationale — the order of a history.

  A history is read in the order of the stored texts of its dates, and then of
  its numbers; the status orders it again, by instants.  Whether the texts are
  in the order of the instants makes no difference: the status leaves attempts
  in the order in which it got them only where they were completed at the same
  instant, and then their texts are the same.

  * `LocatorStatus.ofHistory_mergeSort`: it makes no difference whether a history
    is read in the order of texts or of numbers;
  * `LocatorStatus.ofHistory_congr`: nor which numbers its attempts have.
-/
import Rationale.Proofs.Storing

namespace Rationale

open Time

/-! ## Histories -/

namespace Attempt

variable {a b : Attempt}

/-- The order of entry. -/
def entered (a b : Attempt) : Bool :=
  a.id ≤ b.id

/-- The order in which a history is read. -/
def listed (a b : Attempt) : Bool :=
  a.row.notAfter b.row

theorem entered_iff : entered a b = true ↔ a.id ≤ b.id := by
  simp [entered]

theorem linear_entered : Sorting.Linear entered where
  trans a b c := by
    simp only [entered_iff]
    exact Int64.le_trans
  total a b := by
    rw [Bool.or_eq_true, entered_iff, entered_iff]
    exact Int64.le_total a.id b.id

theorem linear_listed : Sorting.Linear listed :=
  Store.linear_notAfter.on row

theorem notAfter_iff : notAfter a b = true ↔ a.completeAt ≤ b.completeAt ∧
    (b.completeAt ≤ a.completeAt → a.isFound = true → b.isFound = true) := by
  simp only [notAfter, Bool.or_eq_true, Bool.and_eq_true, decide_eq_true_eq, Bool.not_eq_true',
    Instant.lt_iff_not_ge]
  constructor
  · rintro (hlt | ⟨heq, hfound⟩)
    · exact ⟨(Instant.le_total _ _).resolve_right hlt, fun hge => absurd hge hlt⟩
    · refine ⟨heq ▸ Instant.le_refl _, fun _ ha => ?_⟩
      simpa [ha] using hfound
  · rintro ⟨hle, hfound⟩
    by_cases hge : b.completeAt ≤ a.completeAt
    · refine .inr ⟨Instant.le_antisymm hle hge, ?_⟩
      cases ha : a.isFound with
      | false => exact .inl rfl
      | true => exact .inr (hfound hge ha)
    · exact .inl hge

theorem linear_notAfter : Sorting.Linear notAfter where
  trans a b c := by
    simp only [notAfter_iff]
    rintro ⟨hab, hfound⟩ ⟨hbc, hfound'⟩
    refine ⟨Instant.le_trans hab hbc, fun hca ha => ?_⟩
    exact hfound' (Instant.le_trans hca hab) (hfound (Instant.le_trans hbc hca) ha)
  total a b := by
    rw [Bool.or_eq_true, notAfter_iff, notAfter_iff]
    rcases Instant.le_total a.completeAt b.completeAt with hle | hle
    · cases ha : a.isFound with
      | false => exact .inl ⟨hle, fun _ h => nomatch h⟩
      | true =>
        by_cases hge : b.completeAt ≤ a.completeAt
        · exact .inr ⟨hge, fun _ _ => rfl⟩
        · exact .inl ⟨hle, fun h => absurd h hge⟩
    · cases hb : b.isFound with
      | false => exact .inr ⟨hle, fun _ h => nomatch h⟩
      | true =>
        by_cases hge : a.completeAt ≤ b.completeAt
        · exact .inl ⟨hge, fun _ _ => rfl⟩
        · exact .inr ⟨hle, fun h => absurd h hge⟩

/-- Attempts that are level were completed at the same instant, and so their
    texts are the same. -/
theorem listed_eq_entered (h : Sorting.level notAfter a b = true) : listed a b = entered a b := by
  obtain ⟨hab, hba⟩ := Bool.and_eq_true_iff.1 h
  have hat : a.completeAt = b.completeAt :=
    Instant.le_antisymm (notAfter_iff.1 hab).1 (notAfter_iff.1 hba).1
  simp [listed, entered, AttemptRow.notAfter, row, hat, Text.lt_irrefl]

end Attempt

namespace LocatorStatus

open Attempt

/-- **The order of texts is no other than that of numbers**, to the status. -/
theorem ofHistory_mergeSort (as : List Attempt) :
    ofHistory (as.mergeSort listed) = ofHistory (as.mergeSort entered) := by
  have horder : Sorting.thenBy notAfter listed = Sorting.thenBy notAfter entered := by
    funext a b
    unfold Sorting.thenBy
    by_cases hlevel : Sorting.level notAfter a b = true
    · rw [listed_eq_entered hlevel]
    · cases hab : notAfter a b with
      | false => rw [Bool.false_and, Bool.false_and]
      | true =>
        have hba : notAfter b a = false := by simpa [Sorting.level, hab] using hlevel
        rw [hba, Bool.not_false, Bool.true_or, Bool.true_or]
  have hinOrder : inOrder (as.mergeSort listed) = inOrder (as.mergeSort entered) := by
    unfold inOrder
    rw [← Sorting.mergeSort_filter linear_listed, ← Sorting.mergeSort_filter linear_entered,
      Sorting.mergeSort_mergeSort linear_notAfter linear_listed,
      Sorting.mergeSort_mergeSort linear_notAfter linear_entered, horder]
  rw [ofHistory, ofHistory, hinOrder]

/-- What is made of a history depends on its attempts alone, not on their numbers. -/
theorem ofLatest_map {f : Attempt → Attempt} (hfound : ∀ a, (f a).isFound = a.isFound)
    (hquoted : ∀ a, (f a).quoted = a.quoted) (hat : ∀ a, (f a).completeAt = a.completeAt)
    (as : List Attempt) : ofLatest (as.map f) = ofLatest as := by
  have hisFound : Attempt.isFound ∘ f = Attempt.isFound := funext hfound
  have hnotFound : (fun a => !Attempt.isFound a) ∘ f = fun a => !Attempt.isFound a := by
    funext a
    rw [Function.comp_apply, hfound]
  have hwindow : ∀ a run, Window.ofRun (f a) (run.map f) = .ofRun a run := by
    intro a run
    simp only [Window.ofRun, ← List.map_cons, List.getLast_map, hat]
  cases as with
  | nil => rfl
  | cons a before =>
    simp only [List.map_cons, ofLatest, hfound, hquoted, List.takeWhile_map, List.dropWhile_map,
      hisFound, hnotFound, hwindow]
    cases before.dropWhile fun a => !a.isFound with
    | nil => rfl
    | cons f' before =>
      simp only [List.map_cons, hquoted, List.takeWhile_map, hisFound, hwindow]

end LocatorStatus

/-- What was recorded, without its number. -/
def Attempt.unnumbered (a : Attempt) : NewAttempt where
  locatorId := a.locatorId
  completeAt := a.completeAt
  verdict := a.verdict
  quotation := a.quotation
  foundQuotation := a.foundQuotation
  errorMessage := a.errorMessage

namespace LocatorStatus

open Attempt

/-- **The numbers of attempts make no difference** to the status. -/
theorem ofHistory_congr {as bs : List Attempt} (h : as.map unnumbered = bs.map unnumbered) :
    ofHistory as = ofHistory bs := by
  have hrenumber : ∀ as : List Attempt,
      ofHistory ((as.map unnumbered).map (·.numbered 0)) = ofHistory as := by
    intro as
    let f : Attempt → Attempt := fun a => a.unnumbered.numbered 0
    have hinOrder : inOrder (as.map f) = (inOrder as).map f := by
      have hsort := List.map_mergeSort (r := notAfter) (s := notAfter) (f := f)
        (l := as.filter (·.verdict ≠ .error)) fun _ _ _ _ => rfl
      rw [inOrder, inOrder, hsort, List.filter_map]
      rfl
    have hlatest : ofLatest ((inOrder as).reverse.map f) = ofLatest (inOrder as).reverse :=
      ofLatest_map (f := f) (fun _ => rfl) (fun _ => rfl) (fun _ => rfl) _
    rw [List.map_map]
    show ofHistory (as.map f) = ofHistory as
    rw [ofHistory_eq_ofLatest, ofHistory_eq_ofLatest, hinOrder, ← List.map_reverse, hlatest]
  rw [← hrenumber as, ← hrenumber bs, h]

end LocatorStatus

end Rationale
