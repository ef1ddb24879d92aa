/-
  Rationale — from a type and an id to a relation.

  Rows name an entity by its type and its id.  Each function here gives the
  relation that such a pair stands for, with the entity if it is at hand and
  with the id alone if not.

  * `Basis.resolve_type`, `Basis.resolve_id` and their like: the relation has
    the type and the id that it was made from.
-/
import Rationale.Justification

namespace Rationale

/-! ## Bases -/

/-- The entities at hand that can be a basis, by id. -/
structure BasisLookups where
  propositionCompounds : Id → Option PropositionCompound := fun _ => none
  writQuotes : Id → Option WritQuote := fun _ => none
  mediaExcerpts : Id → Option MediaExcerpt := fun _ => none
  basisCompounds : Id → Option BasisCompound := fun _ => none

/-- Every entity at hand is at hand under its own id. -/
structure BasisLookups.Keyed (l : BasisLookups) : Prop where
  propositionCompounds : ∀ i, ∀ c ∈ l.propositionCompounds i, c.id = i
  writQuotes : ∀ i, ∀ q ∈ l.writQuotes i, q.id = i
  mediaExcerpts : ∀ i, ∀ e ∈ l.mediaExcerpts i, e.id = i
  basisCompounds : ∀ i, ∀ c ∈ l.basisCompounds i, c.id = i

def Basis.resolve (l : BasisLookups) (type : BasisType) (i : Id) : Basis :=
  match type with
  | .propositionCompound => .propositionCompound (.ofLookup i (l.propositionCompounds i))
  | .writQuote => .writQuote (.ofLookup i (l.writQuotes i))
  | .mediaExcerpt => .mediaExcerpt (.ofLookup i (l.mediaExcerpts i))
  | .justificationBasisCompound => .justificationBasisCompound (.ofLookup i (l.basisCompounds i))

@[simp]
theorem Basis.resolve_type (l : BasisLookups) (type : BasisType) (i : Id) :
    (Basis.resolve l type i).type = type := by
  cases type <;> rfl

theorem Basis.resolve_id {l : BasisLookups} (h : l.Keyed) (type : BasisType) (i : Id) :
    (Basis.resolve l type i).id = i := by
  cases type
  · exact Relation.ofLookup_id (h.propositionCompounds i)
  · exact Relation.ofLookup_id (h.writQuotes i)
  · exact Relation.ofLookup_id (h.mediaExcerpts i)
  · exact Relation.ofLookup_id (h.basisCompounds i)

/-! ## Targets and roots -/

/-- The entities at hand that can be a target, by id. -/
structure TargetLookups where
  propositions : Id → Option Proposition := fun _ => none
  statements : Id → Option Statement := fun _ => none
  justifications : Id → Option Justification := fun _ => none

def TargetOf.resolve (l : TargetLookups) (type : TargetType) (i : Id) : Target :=
  match type with
  | .proposition => .proposition (.ofLookup i (l.propositions i))
  | .statement => .statement (.ofLookup i (l.statements i))
  | .justification => .justification (.ofLookup i (l.justifications i))

@[simp]
theorem TargetOf.resolve_type (l : TargetLookups) (type : TargetType) (i : Id) :
    (TargetOf.resolve l type i).type = type := by
  cases type <;> rfl

def RootTarget.resolve (l : TargetLookups) (type : RootTargetType) (i : Id) : RootTarget :=
  match type with
  | .proposition => .proposition (.ofLookup i (l.propositions i))
  | .statement => .statement (.ofLookup i (l.statements i))

@[simp]
theorem RootTarget.resolve_type (l : TargetLookups) (type : RootTargetType) (i : Id) :
    (RootTarget.resolve l type i).type = type := by
  cases type <;> rfl

/-! ## Atoms, excerpts and sentences -/

/-- What an atom stands for, given what was found under its id. -/
def BasisAtomEntity.resolve (type : AtomType) (i : Id) (proposition : Option Proposition)
    (paraphrase : Option SourceExcerptParaphrase) : BasisAtomEntity :=
  match type with
  | .proposition => .proposition (.ofLookup i proposition)
  | .sourceExcerptParaphrase => .sourceExcerptParaphrase (.ofLookup i paraphrase)

/-- The excerpt that a paraphrase restates. -/
def SourceExcerpt.resolve (type : SourceExcerptType) (i : Id) (quote : Option WritQuote)
    (excerpts : Id → Option MediaExcerpt) : SourceExcerpt :=
  match type with
  | .writQuote => .writQuote (.ofLookup i quote)
  | .mediaExcerpt => .mediaExcerpt (.ofLookup i (excerpts i))

/-- What a statement says; a statement in a statement stays an id. -/
def SentenceOf.resolve (type : SentenceType) (i : Id) (proposition : Option Proposition) :
    Sentence :=
  match type with
  | .proposition => .proposition (.ofLookup i proposition)
  | .statement => .statement (.ref i)

end Rationale
