/-
  Rationale — the ways from a justification to what it is filtered by.

  A `Path` leads from a justification through its basis to a row of some
  `Place`.  A path is also text: joins that start at `justifications j`
  (`Path.joins`), which bind the texts of the kinds that they require, and a
  column of the place at which it ends (`Place.column`).

  * `FilterName.place` is what a filter looks for, and `FilterName.paths` are
    the ways by which it looks;
  * what a path means on the rows of a store is `Path.reach`, in
    `Rationale.Store.Reach`.
-/
import Rationale.Sql.Composing
import Rationale.Vocabulary

namespace Rationale.Query

open Sql

/-! ## Places -/

/-- The tables at which a path can end. -/
inductive Place where
  | justification
  | propositionCompound
  | proposition
  | paraphrase
  | writQuote
  | writ
  | mediaExcerpt
  | url
deriving DecidableEq, Repr

/-- The column that a filter compares. -/
def Place.column : Place → String
  | justification => "j.justification_id"
  | propositionCompound => "pc.proposition_compound_id"
  | proposition => "p.proposition_id"
  | paraphrase => "sep.source_excerpt_paraphrase_id"
  | writQuote => "wq.writ_quote_id"
  | writ => "w.writ_id"
  | mediaExcerpt => "me.media_excerpt_id"
  | url => "u.url"

/-! ## Paths -/

inductive Path : Place → Type where
  /-- The justification itself. -/
  | self : Path .justification
  /-- The proposition compound that is the basis. -/
  | compoundBasis : Path .propositionCompound
  /-- A proposition of a compound. -/
  | compoundAtom (c : Path .propositionCompound) : Path .proposition
  /-- A proposition of the mixed compound that is the basis. -/
  | basisProposition : Path .proposition
  /-- A paraphrase of the mixed compound that is the basis. -/
  | basisParaphrase : Path .paraphrase
  /-- The proposition that a paraphrase restates its excerpt in. -/
  | paraphrasing (p : Path .paraphrase) : Path .proposition
  /-- The writ quote that is the basis. -/
  | quoteBasis : Path .writQuote
  /-- The writ quote that a paraphrase restates. -/
  | paraphrasedQuote (p : Path .paraphrase) : Path .writQuote
  /-- The writ of a quote. -/
  | writ (q : Path .writQuote) : Path .writ
  /-- The media excerpt that is the basis. -/
  | excerptBasis : Path .mediaExcerpt
  /-- The media excerpt that a paraphrase restates. -/
  | paraphrasedExcerpt (p : Path .paraphrase) : Path .mediaExcerpt
  /-- A URL of a writ quote. -/
  | quoteUrl (q : Path .writQuote) : Path .url
  /-- A URL at which a media excerpt is located. -/
  | excerptUrl (e : Path .mediaExcerpt) : Path .url
deriving DecidableEq, Repr

/-! ## Joins -/

/-- The text of a kind, as an argument. -/
def code {α : Type} [Coded α] (a : α) : Value :=
  .text (Coded.text a)

/-- The joins to the atoms of that type of the mixed compound that is the basis. -/
def basisAtoms (type : AtomType) : Composing String := do
  let jbc ← Composing.bind (code BasisType.justificationBasisCompound)
  let entityType ← Composing.bind (code type)
  return s!"
     JOIN justification_basis_compounds jbc
       ON j.basis_type = {jbc}
      AND jbc.justification_basis_compound_id = j.basis_id
      AND jbc.deleted IS NULL
     JOIN justification_basis_compound_atoms jbca
       ON jbca.justification_basis_compound_id = jbc.justification_basis_compound_id
      AND jbca.entity_type = {entityType}"

/-- The joins from `justifications j` along a path. -/
def Path.joins : {place : Place} → Path place → Composing String
  | _, self => return ""
  | _, compoundBasis => do
    let pc ← Composing.bind (code BasisType.propositionCompound)
    return s!"
       JOIN proposition_compounds pc
         ON j.basis_type = {pc}
        AND pc.proposition_compound_id = j.basis_id
        AND pc.deleted IS NULL"
  | _, compoundAtom c => do
    let joins ← c.joins
    return s!"{joins}
       JOIN proposition_compound_atoms pca
         ON pca.proposition_compound_id = pc.proposition_compound_id
       JOIN propositions p
         ON p.proposition_id = pca.proposition_id
        AND p.deleted IS NULL"
  | _, basisProposition => do
    let atoms ← basisAtoms .proposition
    return s!"{atoms}
       JOIN propositions p
         ON p.proposition_id = jbca.entity_id
        AND p.deleted IS NULL"
  | _, basisParaphrase => do
    let atoms ← basisAtoms .sourceExcerptParaphrase
    return s!"{atoms}
       JOIN source_excerpt_paraphrases sep
         ON sep.source_excerpt_paraphrase_id = jbca.entity_id
        AND sep.deleted IS NULL"
  | _, paraphrasing p => do
    let joins ← p.joins
    return s!"{joins}
       JOIN propositions p
         ON p.proposition_id = sep.paraphrasing_proposition_id
        AND p.deleted IS NULL"
  | _, quoteBasis => do
    let wq ← Composing.bind (code BasisType.writQuote)
    return s!"
       JOIN writ_quotes wq
         ON j.basis_type = {wq}
        AND wq.writ_quote_id = j.basis_id
        AND wq.deleted IS NULL"
  | _, paraphrasedQuote p => do
    let joins ← p.joins
    let wq ← Composing.bind (code SourceExcerptType.writQuote)
    return s!"{joins}
       JOIN writ_quotes wq
         ON sep.source_excerpt_type = {wq}
        AND wq.writ_quote_id = sep.source_excerpt_id
        AND wq.deleted IS NULL"
  | _, writ q => do
    let joins ← q.joins
    return s!"{joins}
       JOIN writs w
         ON w.writ_id = wq.writ_id
        AND w.deleted IS NULL"
  | _, excerptBasis => do
    let me ← Composing.bind (code BasisType.mediaExcerpt)
    return s!"
       JOIN media_excerpts me
         ON j.basis_type = {me}
        AND me.media_excerpt_id = j.basis_id
        AND me.deleted IS NULL"
  | _, paraphrasedExcerpt p => do
    let joins ← p.joins
    let me ← Composing.bind (code SourceExcerptType.mediaExcerpt)
    return s!"{joins}
       JOIN media_excerpts me
         ON sep.source_excerpt_type = {me}
        AND me.media_excerpt_id = sep.source_excerpt_id
        AND me.deleted IS NULL"
  | _, quoteUrl q => do
    let joins ← q.joins
    return s!"{joins}
       JOIN writ_quote_urls wqu
         ON wqu.writ_quote_id = wq.writ_quote_id
        AND wqu.deleted IS NULL
       JOIN urls u
         ON u.url_id = wqu.url_id
        AND u.deleted IS NULL"
  | _, excerptUrl e => do
    let joins ← e.joins
    return s!"{joins}
       JOIN url_locators ul
         ON ul.media_excerpt_id = me.media_excerpt_id
        AND ul.deleted IS NULL
       JOIN urls u
         ON u.url_id = ul.url_id
        AND u.deleted IS NULL"

end Rationale.Query

/-! ## The paths of a filter -/

namespace Rationale.FilterName

open Query

/-- What the values of a filter name. -/
def place : FilterName → Place
  | justificationId => .justification
  | propositionId => .proposition
  | propositionCompoundId => .propositionCompound
  | mediaExcerptId => .mediaExcerpt
  | writQuoteId => .writQuote
  | writId => .writ
  | sourceExcerptParaphraseId => .paraphrase
  | url => .url

/-- The ways by which a filter looks for its values. -/
def paths : (name : FilterName) → List (Path name.place)
  | justificationId => [.self]
  | propositionId =>
    [.compoundAtom .compoundBasis, .basisProposition, .paraphrasing .basisParaphrase]
  | propositionCompoundId => [.compoundBasis]
  | mediaExcerptId => [.excerptBasis, .paraphrasedExcerpt .basisParaphrase]
  | writQuoteId => [.quoteBasis, .paraphrasedQuote .basisParaphrase]
  | writId => [.writ .quoteBasis, .writ (.paraphrasedQuote .basisParaphrase)]
  | sourceExcerptParaphraseId => [.basisParaphrase]
  | url =>
    [.quoteUrl .quoteBasis, .excerptUrl .excerptBasis,
      .quoteUrl (.paraphrasedQuote .basisParaphrase)]

theorem paths_ne_nil (name : FilterName) : name.paths ≠ [] := by
  cases name <;> simp [paths]

end Rationale.FilterName
