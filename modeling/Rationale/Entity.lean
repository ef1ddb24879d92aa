/-
  Rationale — what justifications rest on and point at.

  A `Relation` from one entity to another holds either the other entity or its
  id alone.  `Relation.ofLookup` is the rule by which a relation is filled in:
  with the entity if it is at hand, and with the id if not.

  * `Relation.id`: the id either way, given the id of an entity;
  * `ofLookup_id`: filling in keeps the id, if entities are at hand under
    their own ids.
-/
import Rationale.Confirmation

namespace Rationale

open Time

/-! ## Relations -/

/-- The other end of a relation: the entity, or its id. -/
inductive Relation (α : Type) where
  | entity (value : α)
  | ref (id : Id)
deriving DecidableEq, Repr

namespace Relation

variable {α : Type}

/-- The entity at hand, or else the bare id. -/
def ofLookup (id : Id) : Option α → Relation α
  | some a => entity a
  | none => ref id

def entity? : Relation α → Option α
  | entity a => some a
  | ref _ => none

def isHydrated (r : Relation α) : Bool :=
  r.entity?.isSome

/-- The id of the other end. -/
def id (key : α → Id) : Relation α → Id
  | entity a => key a
  | ref i => i

theorem ofLookup_id {key : α → Id} {i : Id} {found : Option α} (h : ∀ a ∈ found, key a = i) :
    (ofLookup i found).id key = i := by
  cases found with
  | none => rfl
  | some a => exact h a rfl

@[simp]
theorem isHydrated_ofLookup (i : Id) (found : Option α) :
    (ofLookup i found).isHydrated = found.isSome := by
  cases found <;> rfl

end Relation

/-! ## People -/

/-- What is shown of a user. -/
structure UserBlurb where
  id : Id
  longName : String
deriving DecidableEq, Repr

/-- A person or an organization that can speak. -/
structure Persorg where
  id : Id
  name : String
  isOrganization : Bool
deriving DecidableEq, Repr

/-! ## Propositions and statements -/

structure Proposition where
  id : Id
  text : String
  creatorId : Id
  created : Instant
deriving DecidableEq, Repr

/-- What a statement of the kind `σ` says: a proposition, or another statement. -/
inductive SentenceOf (σ : Type) where
  | proposition (p : Relation Proposition)
  | statement (s : Relation σ)

/-- A speaker saying a sentence. -/
structure Statement where
  id : Id
  speaker : Persorg
  sentence : SentenceOf Statement
  creatorId : Id
  created : Instant

abbrev Sentence : Type :=
  SentenceOf Statement

/-! ## Writs and URLs -/

structure Writ where
  id : Id
  title : String
deriving DecidableEq, Repr

structure Url where
  id : Id
  url : String
deriving DecidableEq, Repr

/-- Where a quotation stands in a page, with the text around it. -/
structure UrlTargetAnchor where
  exactText : String
  prefixText : String
  suffixText : String
  startOffset : Int64
  endOffset : Int64
deriving DecidableEq, Repr

/-- The places of a page at which a writ quote was confirmed to stand. -/
structure UrlTarget where
  id : Id
  writQuoteId : Id
  urlId : Id
  anchors : List UrlTargetAnchor
deriving DecidableEq, Repr

/-- A URL of a writ quote, with its confirmed target if there is one. -/
structure WritQuoteUrl where
  url : Url
  target : Option UrlTarget
deriving DecidableEq, Repr

structure WritQuote where
  id : Id
  quoteText : String
  writ : Writ
  creatorId : Id
  created : Instant
  /-- Only present if the URLs were asked for. -/
  urls : Option (List WritQuoteUrl)
deriving DecidableEq, Repr

/-! ## Media excerpts -/

/-- A URL at which a media excerpt should be found. -/
structure UrlLocator where
  id : Id
  url : Url
  status : LocatorStatus
deriving DecidableEq, Repr

structure Source where
  id : Id
  description : String
deriving DecidableEq, Repr

structure Citation where
  source : Source
  pincite : Option String
deriving DecidableEq, Repr

structure MediaExcerpt where
  id : Id
  quotation : String
  creatorId : Id
  created : Instant
  locators : List UrlLocator
  citations : List Citation
deriving DecidableEq, Repr

/-! ## Paraphrases -/

inductive SourceExcerpt where
  | writQuote (q : Relation WritQuote)
  | mediaExcerpt (e : Relation MediaExcerpt)
deriving DecidableEq, Repr

/-- A proposition that restates what a source excerpt says. -/
structure SourceExcerptParaphrase where
  id : Id
  proposition : Relation Proposition
  excerpt : SourceExcerpt
deriving DecidableEq, Repr

/-! ## Compounds -/

structure CompoundAtom where
  proposition : Proposition
  orderPosition : Int64
deriving DecidableEq, Repr

/-- Propositions that together are one basis. -/
structure PropositionCompound where
  id : Id
  creatorId : Id
  created : Instant
  atoms : List CompoundAtom
deriving DecidableEq, Repr

inductive BasisAtomEntity where
  | proposition (p : Relation Proposition)
  | sourceExcerptParaphrase (p : Relation SourceExcerptParaphrase)
deriving DecidableEq, Repr

structure BasisAtom where
  id : Id
  entity : BasisAtomEntity
  orderPosition : Int64
deriving DecidableEq, Repr

/-- Propositions and paraphrases that together are one basis. -/
structure BasisCompound where
  id : Id
  creatorId : Id
  created : Instant
  atoms : List BasisAtom
deriving DecidableEq, Repr

end Rationale
