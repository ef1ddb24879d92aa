/-
  Rationale — what the query of a page returns from a store.

  `Store.reach` follows a path through live rows.  A justification is selected
  by a value on a path if the path leads to a row that has the value, and
  `Store.candidates` are the selected justifications in their order, from the
  boundary on, up to the limit.

  * `mem_matching`: a justification matches if it is live and some selection
    selects it;
  * `matching_purge`, `candidates_purge`: rows marked as deleted play no part.
-/
import Rationale.Chance
import Rationale.Query.Page
import Rationale.Store.Link

namespace Rationale

open Sql Query

/-! ## Rows of a place -/

namespace Query.Place

/-- The rows at a place. -/
def Row : Place → Type
  | justification => JustificationRow
  | propositionCompound => CompoundRow
  | proposition => PropositionRow
  | paraphrase => ParaphraseRow
  | writQuote => WritQuoteRow
  | writ => WritRow
  | mediaExcerpt => MediaExcerptRow
  | url => UrlRow

/-- The value that a filter compares. -/
def value : (place : Place) → place.Row → Value
  | justification => fun (r : JustificationRow) => .integer r.id
  | propositionCompound => fun (r : CompoundRow) => .integer r.id
  | proposition => fun (r : PropositionRow) => .integer r.id
  | paraphrase => fun (r : ParaphraseRow) => .integer r.id
  | writQuote => fun (r : WritQuoteRow) => .integer r.id
  | writ => fun (r : WritRow) => .integer r.id
  | mediaExcerpt => fun (r : MediaExcerptRow) => .integer r.id
  | url => fun (r : UrlRow) => .text r.url

end Query.Place

/-- The columns of a justification that a page can be sorted by. -/
def JustificationRow.sortRow (j : JustificationRow) : SortRow
  | .justificationId => .integer j.id
  | .created => .text j.created
  | .polarity => .text j.polarity
  | .rootPolarity => .text j.rootPolarity
  | .rootTargetType => .text j.rootTargetType
  | .rootTargetId => .integer j.rootTargetId
  | .targetType => .text j.targetType
  | .targetId => .integer j.targetId
  | .basisType => .text j.basisType
  | .basisId => .integer j.basisId
  | .creatorUserId => .integer j.creatorId

/-! ## Evaluations -/

namespace Query

/-- The order of a page, in which rows that tie come by their rank. -/
def PageQuery.order (q : PageQuery) (ρ : Rank) (a b : JustificationRow) : Bool :=
  inOrder q.columns a.sortRow b.sortRow &&
    (!inOrder q.columns b.sortRow a.sortRow || ρ a.id ≤ ρ b.id)

/-- The query of a page and the order in which it comes across rows. -/
structure Evaluation extends PageQuery where
  rank : Rank

/-- The evaluation of the query for a use. -/
def PageQuery.use (q : PageQuery) (ch : Chance) (u : Use) : Evaluation :=
  ⟨q, ch.found u⟩

end Query

namespace Store

/-! ## Selection -/

/-- The rows to which a path leads from a justification. -/
def reach (db : Store) (j : JustificationRow) : {place : Place} → Path place → List place.Row
  | _, .self => [j]
  | _, .compoundBasis => (db.basisProposition? j).toList
  | _, .compoundAtom c =>
    (reach db j c).flatMap fun c =>
      (db.propositionAtoms c).filterMap fun a => db.propositions.row? a.propositionId
  | _, .basisProposition =>
    (db.basisMixed? j).toList.flatMap fun c => (db.mixedAtoms c).filterMap db.atomProposition?
  | _, .basisParaphrase =>
    (db.basisMixed? j).toList.flatMap fun c => (db.mixedAtoms c).filterMap db.atomParaphrase?
  | _, .paraphrasing p =>
    (reach db j p).filterMap fun (p : ParaphraseRow) => db.propositions.row? p.propositionId
  | _, .quoteBasis => (db.basisQuote? j).toList
  | _, .paraphrasedQuote p => (reach db j p).filterMap db.paraphrasedQuote?
  | _, .writ q => (reach db j q).filterMap fun (q : WritQuoteRow) => db.writs.row? q.writId
  | _, .excerptBasis => (db.basisExcerpt? j).toList
  | _, .paraphrasedExcerpt p => (reach db j p).filterMap db.paraphrasedExcerpt?
  | _, .quoteUrl q => (reach db j q).flatMap fun (q : WritQuoteRow) => db.quoteUrls q.id
  | _, .excerptUrl e =>
    (reach db j e).flatMap fun (e : MediaExcerptRow) => (db.locators e.id).map (·.2)

/-- The selection selects the justification. -/
def selects (db : Store) (j : JustificationRow) : Selection → Bool
  | .every => true
  | .reaching place path values => (db.reach j path).any fun r => place.value r ∈ values

/-- The live justifications that one of the selections selects. -/
def matching (db : Store) (selections : List Selection) : List JustificationRow :=
  db.justifications.live.filter fun j => selections.any (db.selects j)

/-- The justifications of a page, in its order. -/
def candidates (db : Store) (q : Evaluation) : List JustificationRow :=
  let wanted := (db.matching q.selections).filter fun j => q.condition.holds j.sortRow
  (wanted.mergeSort (q.order q.rank)).take q.limit

theorem mem_matching {db : Store} {selections : List Selection} {j : JustificationRow} :
    j ∈ db.matching selections ↔
      j ∈ db.justifications.live ∧ ∃ s ∈ selections, db.selects j s = true := by
  simp [matching]

theorem candidates_subset {db : Store} {q : Evaluation} {j : JustificationRow}
    (h : j ∈ db.candidates q) : j ∈ db.matching q.selections := by
  have := List.mem_of_mem_take h
  simp only [List.mem_mergeSort, List.mem_filter] at this
  exact this.1

/-! ## Deleted rows -/

theorem reach_purge (db : Store) (j : JustificationRow) {place : Place} (p : Path place) :
    db.purge.reach j p = db.reach j p := by
  have hp : db.purge.propositions = db.propositions.purge := rfl
  have hw : db.purge.writs = db.writs.purge := rfl
  induction p <;> simp_all [reach] <;> rfl

theorem matching_purge (db : Store) (selections : List Selection) :
    db.purge.matching selections = db.matching selections := by
  have h : db.purge.selects = db.selects := by
    funext j s
    cases s <;> simp [selects, reach_purge]
  have hj : db.purge.justifications.live = db.justifications.live := Table.live_purge _
  simp only [matching, h, hj]

theorem candidates_purge (db : Store) (q : Evaluation) :
    db.purge.candidates q = db.candidates q := by
  simp only [candidates, matching_purge]

end Store

end Rationale
