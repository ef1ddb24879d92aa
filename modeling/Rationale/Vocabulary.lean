/-
  Rationale — the enumerations of the data model, with their stored texts.

  Each column that says of what kind another column is holds one of these
  texts.  `Polarity.negate` is the one operation: it is its own inverse.
-/
import Rationale.Code

namespace Rationale

/-- Names an entity, or is a number in a store. -/
abbrev Id := Int64

/-! ## Justifications -/

inductive Polarity where
  | positive
  | negative
deriving DecidableEq, Repr

def Polarity.negate : Polarity → Polarity
  | positive => negative
  | negative => positive

@[simp]
theorem Polarity.negate_negate (p : Polarity) : p.negate.negate = p := by
  cases p <;> rfl

instance : Coded Polarity where
  typeName := "Polarity"
  text
    | .positive => "POSITIVE"
    | .negative => "NEGATIVE"
  spellings := [("POSITIVE", .positive), ("NEGATIVE", .negative)]
  lookup_text a := by cases a <;> rfl

inductive BasisType where
  | propositionCompound
  | writQuote
  | mediaExcerpt
  | justificationBasisCompound
deriving DecidableEq, Repr

instance : Coded BasisType where
  typeName := "BasisType"
  text
    | .propositionCompound => "PROPOSITION_COMPOUND"
    | .writQuote => "WRIT_QUOTE"
    | .mediaExcerpt => "MEDIA_EXCERPT"
    | .justificationBasisCompound => "JUSTIFICATION_BASIS_COMPOUND"
  spellings :=
    [("PROPOSITION_COMPOUND", .propositionCompound), ("WRIT_QUOTE", .writQuote),
      ("MEDIA_EXCERPT", .mediaExcerpt),
      ("JUSTIFICATION_BASIS_COMPOUND", .justificationBasisCompound)]
  lookup_text a := by cases a <;> rfl

inductive TargetType where
  | proposition
  | statement
  | justification
deriving DecidableEq, Repr

instance : Coded TargetType where
  typeName := "TargetType"
  text
    | .proposition => "PROPOSITION"
    | .statement => "STATEMENT"
    | .justification => "JUSTIFICATION"
  spellings :=
    [("PROPOSITION", .proposition), ("STATEMENT", .statement), ("JUSTIFICATION", .justification)]
  lookup_text a := by cases a <;> rfl

inductive RootTargetType where
  | proposition
  | statement
deriving DecidableEq, Repr

instance : Coded RootTargetType where
  typeName := "RootTargetType"
  text
    | .proposition => "PROPOSITION"
    | .statement => "STATEMENT"
  spellings := [("PROPOSITION", .proposition), ("STATEMENT", .statement)]
  lookup_text a := by cases a <;> rfl

/-! ## What they rest on -/

inductive SentenceType where
  | proposition
  | statement
deriving DecidableEq, Repr

instance : Coded SentenceType where
  typeName := "SentenceType"
  text
    | .proposition => "PROPOSITION"
    | .statement => "STATEMENT"
  spellings := [("PROPOSITION", .proposition), ("STATEMENT", .statement)]
  lookup_text a := by cases a <;> rfl

inductive SourceExcerptType where
  | writQuote
  | mediaExcerpt
deriving DecidableEq, Repr

instance : Coded SourceExcerptType where
  typeName := "SourceExcerptType"
  text
    | .writQuote => "WRIT_QUOTE"
    | .mediaExcerpt => "MEDIA_EXCERPT"
  spellings := [("WRIT_QUOTE", .writQuote), ("MEDIA_EXCERPT", .mediaExcerpt)]
  lookup_text a := by cases a <;> rfl

/-- The kinds of atom of a mixed compound. -/
inductive AtomType where
  | proposition
  | sourceExcerptParaphrase
deriving DecidableEq, Repr

instance : Coded AtomType where
  typeName := "BasisCompoundAtomType"
  text
    | .proposition => "PROPOSITION"
    | .sourceExcerptParaphrase => "SOURCE_EXCERPT_PARAPHRASE"
  spellings :=
    [("PROPOSITION", .proposition), ("SOURCE_EXCERPT_PARAPHRASE", .sourceExcerptParaphrase)]
  lookup_text a := by cases a <;> rfl

/-- How an attempt to find a quotation ended. -/
inductive Verdict where
  | found
  | notFound
  | error
deriving DecidableEq, Repr

instance : Coded Verdict where
  typeName := "AutoConfirmationResultStatus"
  text
    | .found => "FOUND"
    | .notFound => "NOT_FOUND"
    | .error => "ERROR"
  spellings := [("FOUND", .found), ("NOT_FOUND", .notFound), ("ERROR", .error)]
  lookup_text a := by cases a <;> rfl

/-! ## Entities that can be looked up -/

/-- The kinds of entity that a lookup can miss. -/
inductive EntityKind where
  | justification
  | proposition
  | statement
  | mediaExcerpt
  | urlLocator
  | user
deriving DecidableEq, Repr

def EntityKind.text : EntityKind → String
  | justification => "justification"
  | proposition => "proposition"
  | statement => "statement"
  | mediaExcerpt => "media_excerpt"
  | urlLocator => "url_locator"
  | user => "user"

/-! ## Requests -/

inductive Direction where
  | asc
  | desc
deriving DecidableEq, Repr

instance : Coded Direction where
  typeName := "SortDirection"
  text
    | .asc => "asc"
    | .desc => "desc"
  spellings := [("asc", .asc), ("ascending", .asc), ("desc", .desc), ("descending", .desc)]
  lookup_text a := by cases a <;> rfl

/-- What a page of justifications can be filtered by. -/
inductive FilterName where
  | justificationId
  | propositionId
  | propositionCompoundId
  | mediaExcerptId
  | writQuoteId
  | writId
  | sourceExcerptParaphraseId
  | url
deriving DecidableEq, Repr

/-- The filter names, in the order in which filters are applied. -/
def FilterName.all : List FilterName :=
  [.justificationId, .propositionId, .propositionCompoundId, .mediaExcerptId, .writQuoteId,
    .writId, .sourceExcerptParaphraseId, .url]

theorem FilterName.mem_all (n : FilterName) : n ∈ FilterName.all := by
  cases n <;> decide

/-- The values of the filter are ids rather than URLs. -/
def FilterName.takesIds (n : FilterName) : Bool :=
  n ≠ .url

instance : Coded FilterName where
  typeName := "JustificationFilterName"
  text
    | .justificationId => "justificationId"
    | .propositionId => "propositionId"
    | .propositionCompoundId => "propositionCompoundId"
    | .mediaExcerptId => "mediaExcerptId"
    | .writQuoteId => "writQuoteId"
    | .writId => "writId"
    | .sourceExcerptParaphraseId => "sourceExcerptParaphraseId"
    | .url => "url"
  spellings :=
    [("justificationId", .justificationId), ("propositionId", .propositionId),
      ("propositionCompoundId", .propositionCompoundId), ("mediaExcerptId", .mediaExcerptId),
      ("writQuoteId", .writQuoteId), ("writId", .writId),
      ("sourceExcerptParaphraseId", .sourceExcerptParaphraseId), ("url", .url)]
  lookup_text a := by cases a <;> rfl

/-! ## Polarity rules -/

/-- A broken rule about polarities. -/
inductive PolarityViolation where
  /-- The root is targeted directly, with another polarity than towards the root. -/
  | rootMismatch
  /-- Another justification is countered, but not negatively. -/
  | nonNegativeCounter
  /-- The polarity towards the root is not the opposite of the countered one's. -/
  | unnegatedRootPolarity
deriving DecidableEq, Repr

def PolarityViolation.text : PolarityViolation → String
  | rootMismatch => "RootMismatch"
  | nonNegativeCounter => "NonNegativeCounter"
  | unnegatedRootPolarity => "UnnegatedRootPolarity"

end Rationale
