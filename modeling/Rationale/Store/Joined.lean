/-
  Rationale — what the queries about a page return from a store.

  A `JoinedRow` is a justification with the live rows of its basis, as stored.
  A justification on a compound gives one row for each atom, and one row
  without an atom if there is none.

  * `Store.justificationRows` are the rows of some justifications in an order;
    `primaryRows`, `targetRows` and `counterRows` are those of the candidates
    of a page, of the justifications to which targets lead from them, and of
    those that counter them;
  * `Store.targetSearch`: targets are followed through all justifications,
    deleted or not, but only live ones are returned;
  * `joined_ne_nil`, `justification_of_mem_joined`: every justification has a
    row, and all rows are its own.
-/
import Rationale.Ascending
import Rationale.Graph.Search
import Rationale.Store.Reach
import Rationale.Text.Order

namespace Rationale

open Query

/-! ## Rows -/

/-- A writ quote with the title of its writ. -/
structure JoinedQuote where
  quote : WritQuoteRow
  writTitle : String
deriving DecidableEq, Repr

/-- A paraphrase, with its proposition and its quote if they are live. -/
structure JoinedParaphrase where
  id : Id
  excerptType : String
  excerptId : Id
  propositionId : Id
  proposition : Option PropositionRow
  quote : Option JoinedQuote
deriving DecidableEq, Repr

/-- An atom of a mixed compound, with its entity if that is live. -/
structure JoinedAtom where
  id : Id
  entityType : String
  entityId : Id
  orderPosition : Int64
  proposition : Option PropositionRow
  paraphrase : Option JoinedParaphrase
deriving DecidableEq, Repr

/-- A justification with its basis and at most one atom of it. -/
structure JoinedRow where
  justification : JustificationRow
  compound : Option CompoundRow
  /-- The position and the proposition of an atom of `compound`. -/
  compoundAtom : Option (Int64 × PropositionRow)
  quote : Option JoinedQuote
  mixed : Option CompoundRow
  /-- An atom of `mixed`. -/
  mixedAtom : Option JoinedAtom
deriving DecidableEq, Repr

/-- The right side of a left join: `none` if there is nothing to join. -/
def orNone {α : Type} : List α → List (Option α)
  | [] => [none]
  | as => as.map some

theorem orNone_ne_nil {α : Type} (as : List α) : orNone as ≠ [] := by
  cases as <;> simp [orNone]

namespace JustificationRow

/-- The justification that a justification targets, if it targets one. -/
def targetId? (j : JustificationRow) : Option Id :=
  if j.targetType = Coded.text TargetType.justification then some j.targetId else none

theorem targetId?_eq_some {j : JustificationRow} {i : Id} :
    j.targetId? = some i ↔ j.targetType = Coded.text TargetType.justification ∧ j.targetId = i := by
  unfold targetId?
  split <;> simp_all

/-- The proposition that a justification targets, if it targets one. -/
def targetPropositionId? (j : JustificationRow) : Option Id :=
  if j.targetType = Coded.text TargetType.proposition then some j.targetId else none

/-- The proposition that is the root of a justification, if the root is one. -/
def rootPropositionId? (j : JustificationRow) : Option Id :=
  if j.rootTargetType = Coded.text RootTargetType.proposition then some j.rootTargetId else none

/-- The older justification, or of two of one age the one with the lower id. -/
def notYounger (a b : JustificationRow) : Bool :=
  Text.lt a.created b.created || (a.created = b.created && a.id ≤ b.id)

end JustificationRow

namespace Store

variable (db : Store)

/-! ## Joining -/

/-- A quote with its writ, if that is live. -/
def joinedQuote? (q : WritQuoteRow) : Option JoinedQuote :=
  (db.writs.row? q.writId).map fun w => ⟨q, w.title⟩

def joinedParaphrase (p : ParaphraseRow) : JoinedParaphrase where
  id := p.id
  excerptType := p.excerptType
  excerptId := p.excerptId
  propositionId := p.propositionId
  proposition := db.propositions.row? p.propositionId
  quote := (db.paraphrasedQuote? p).bind db.joinedQuote?

def joinedAtom (a : BasisAtomRow) : JoinedAtom where
  id := a.id
  entityType := a.entityType
  entityId := a.entityId
  orderPosition := a.orderPosition
  proposition := db.atomProposition? a
  paraphrase := (db.atomParaphrase? a).map db.joinedParaphrase

/-- A justification with its basis, a row for each atom. -/
def joined (j : JustificationRow) : List JoinedRow :=
  let compound := db.basisProposition? j
  let mixed := db.basisMixed? j
  (orNone (compound.elim [] db.propositionAtoms)).flatMap fun ca =>
    (orNone (mixed.elim [] db.mixedAtoms)).map fun ma =>
      { justification := j
        compound
        compoundAtom := ca.bind fun a =>
          (db.propositions.row? a.propositionId).map (a.orderPosition, ·)
        quote := (db.basisQuote? j).bind db.joinedQuote?
        mixed
        mixedAtom := ma.map db.joinedAtom }

theorem justification_of_mem_joined {db : Store} {j : JustificationRow} {r : JoinedRow}
    (h : r ∈ db.joined j) : r.justification = j := by
  simp only [joined, List.mem_flatMap, List.mem_map] at h
  obtain ⟨_, _, _, _, rfl⟩ := h
  rfl

theorem joined_ne_nil (j : JustificationRow) : db.joined j ≠ [] := by
  simp only [joined, ne_eq, List.flatMap_eq_nil_iff, List.map_eq_nil_iff]
  intro h
  obtain ⟨a, ha⟩ := List.exists_mem_of_ne_nil _
    (orNone_ne_nil ((db.basisProposition? j).elim [] db.propositionAtoms))
  exact orNone_ne_nil _ (h a ha)

/-! ## Targets -/

/-- From each justification that targets one, to its target. -/
def targetEdges : List (Id × Id) :=
  db.justifications.rows.filterMap fun j => j.targetId?.map (j.id, ·)

/-- The search along targets from those of the page. -/
def targetSearch (q : Evaluation) : Graph.Search Id :=
  let ids := (db.candidates q).map (·.id)
  .start ((db.targetEdges.filter (·.1 ∈ ids)).map (·.2))

/-! ## The rows of a page -/

/-- The rows of the live justifications with one of the ids, in the given order. -/
def justificationRows (ids : List Id) (order : JustificationRow → JustificationRow → Bool) :
    List JoinedRow :=
  ((db.justifications.live.filter (·.id ∈ ids)).flatMap db.joined).mergeSort fun r s =>
    order r.justification s.justification

/-- The rows of the page, put in its order again, where those that tie come in
    the order `listing`. -/
def primaryRows (q : Evaluation) (listing : Rank) : List JoinedRow :=
  db.justificationRows ((db.candidates q).map (·.id)) (q.order listing)

/-- The rows of all justifications to which targets lead from the page. -/
def targetRows (q : Evaluation) : List JoinedRow :=
  db.justificationRows ((db.targetSearch q).run db.targetEdges).found fun a b => a.id ≤ b.id

/-- The rows of all justifications that counter the page, the oldest first. -/
def counterRows (q : Evaluation) : List JoinedRow :=
  let ids := (db.candidates q).map (·.id)
  let counters := db.justifications.live.filter fun j => j.targetId?.any (· ∈ ids)
  db.justificationRows (counters.map (·.id)) JustificationRow.notYounger

/-- The live propositions that are targets of the page or roots of it, each as far
    as an evaluation of its own finds the page again. -/
def propositionRows (targets roots : Evaluation) : List PropositionRow :=
  let targetIds := (db.candidates targets).filterMap (·.targetPropositionId?)
  let rootIds := (db.candidates roots).filterMap (·.rootPropositionId?)
  (ascending (targetIds ++ rootIds)).filterMap db.propositions.row?

end Store

end Rationale
