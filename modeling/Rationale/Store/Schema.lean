/-
  Rationale — tables by name, and rows as lists of cells.

  `TableName` lists the tables with the names of their columns.  A row comes as
  a list of cells, in the order of the columns; cells left out at the end are
  absent.  The last column of most tables marks a row as deleted.

  * `Store.insert` adds rows to a table;
  * `Store.mark` marks, or unmarks, the rows that have given values in given
    columns as deleted.
-/
import Rationale.Sql.Value
import Rationale.Store.Row

namespace Rationale

open Sql (Value)

/-! ## Tables -/

inductive TableName where
  | users
  | persorgs
  | propositions
  | statements
  | writs
  | writQuotes
  | urls
  | writQuoteUrls
  | urlTargets
  | anchors
  | mediaExcerpts
  | urlLocators
  | attempts
  | sources
  | citations
  | paraphrases
  | propositionCompounds
  | compoundAtoms
  | basisCompounds
  | basisAtoms
  | justifications
deriving DecidableEq, Repr

namespace TableName

def all : List TableName :=
  [users, persorgs, propositions, statements, writs, writQuotes, urls, writQuoteUrls, urlTargets,
    anchors, mediaExcerpts, urlLocators, attempts, sources, citations, paraphrases,
    propositionCompounds, compoundAtoms, basisCompounds, basisAtoms, justifications]

def name : TableName → String
  | users => "users"
  | persorgs => "persorgs"
  | propositions => "propositions"
  | statements => "statements"
  | writs => "writs"
  | writQuotes => "writ_quotes"
  | urls => "urls"
  | writQuoteUrls => "writ_quote_urls"
  | urlTargets => "writ_quote_url_targets"
  | anchors => "writ_quote_url_target_anchors"
  | mediaExcerpts => "media_excerpts"
  | urlLocators => "url_locators"
  | attempts => "url_locator_auto_confirmation_results"
  | sources => "sources"
  | citations => "media_excerpt_citations"
  | paraphrases => "source_excerpt_paraphrases"
  | propositionCompounds => "proposition_compounds"
  | compoundAtoms => "proposition_compound_atoms"
  | basisCompounds => "justification_basis_compounds"
  | basisAtoms => "justification_basis_compound_atoms"
  | justifications => "justifications"

/-- The columns, without the one that marks a row as deleted. -/
def columns : TableName → List String
  | users => ["user_id", "long_name", "created"]
  | persorgs => ["persorg_id", "name", "is_organization", "created"]
  | propositions => ["proposition_id", "text", "creator_user_id", "created"]
  | statements =>
    ["statement_id", "speaker_persorg_id", "sentence_type", "sentence_id", "creator_user_id",
      "created"]
  | writs => ["writ_id", "title", "creator_user_id", "created"]
  | writQuotes => ["writ_quote_id", "writ_id", "quote_text", "creator_user_id", "created"]
  | urls => ["url_id", "url", "created"]
  | writQuoteUrls => ["writ_quote_id", "url_id", "created"]
  | urlTargets => ["url_target_id", "writ_quote_id", "url_id", "created"]
  | anchors =>
    ["anchor_id", "url_target_id", "exact_text", "prefix_text", "suffix_text", "start_offset",
      "end_offset"]
  | mediaExcerpts => ["media_excerpt_id", "quotation", "creator_user_id", "created"]
  | urlLocators => ["url_locator_id", "media_excerpt_id", "url_id", "created"]
  | attempts =>
    ["result_id", "url_locator_id", "complete_at", "status", "quotation", "found_quotation",
      "error_message"]
  | sources => ["source_id", "description", "created"]
  | citations => ["media_excerpt_id", "source_id", "pincite", "created"]
  | paraphrases =>
    ["source_excerpt_paraphrase_id", "paraphrasing_proposition_id", "source_excerpt_type",
      "source_excerpt_id", "creator_user_id", "created"]
  | propositionCompounds => ["proposition_compound_id", "creator_user_id", "created"]
  | compoundAtoms => ["proposition_compound_id", "proposition_id", "order_position"]
  | basisCompounds => ["justification_basis_compound_id", "creator_user_id", "created"]
  | basisAtoms =>
    ["justification_basis_compound_atom_id", "justification_basis_compound_id", "entity_type",
      "entity_id", "order_position"]
  | justifications =>
    ["justification_id", "root_target_type", "root_target_id", "root_polarity", "target_type",
      "target_id", "basis_type", "basis_id", "polarity", "creator_user_id", "created"]

def named? (s : String) : Option TableName :=
  all.find? (·.name = s)

end TableName

/-! ## Rows as cells -/

/-- Rows that can be read from, and shown as, the cells of their columns. -/
class Cells (α : Type) where
  cells : α → List Value
  ofCells? : List Value → Option α
  ofCells?_cells : ∀ a, ofCells? (cells a) = some a

/-- A text that may be absent, as a cell. -/
def optionalText : Option String → Value
  | some s => .text s
  | none => .null

/-- A cell that may be absent. -/
def optionalText? : Value → Option (Option String)
  | .text s => some (some s)
  | .null => some none
  | .integer _ => none

@[simp]
theorem optionalText?_optionalText (s : Option String) :
    optionalText? (optionalText s) = some s := by
  cases s <;> rfl

instance : Cells UserRow where
  cells r := [.integer r.id, .text r.longName, .text r.created]
  ofCells?
    | [.integer id, .text longName, .text created] => some ⟨id, longName, created⟩
    | _ => none
  ofCells?_cells _ := rfl

instance : Cells PersorgRow where
  cells r := [.integer r.id, .text r.name, .integer r.isOrganization, .text r.created]
  ofCells?
    | [.integer id, .text name, .integer isOrganization, .text created] =>
      some ⟨id, name, isOrganization, created⟩
    | _ => none
  ofCells?_cells _ := rfl

instance : Cells PropositionRow where
  cells r := [.integer r.id, .text r.text, .integer r.creatorId, .text r.created]
  ofCells?
    | [.integer id, .text text, .integer creatorId, .text created] =>
      some ⟨id, text, creatorId, created⟩
    | _ => none
  ofCells?_cells _ := rfl

instance : Cells StatementRow where
  cells r :=
    [.integer r.id, .integer r.speakerId, .text r.sentenceType, .integer r.sentenceId,
      .integer r.creatorId, .text r.created]
  ofCells?
    | [.integer id, .integer speakerId, .text sentenceType, .integer sentenceId,
        .integer creatorId, .text created] =>
      some ⟨id, speakerId, sentenceType, sentenceId, creatorId, created⟩
    | _ => none
  ofCells?_cells _ := rfl

instance : Cells WritRow where
  cells r := [.integer r.id, .text r.title, .integer r.creatorId, .text r.created]
  ofCells?
    | [.integer id, .text title, .integer creatorId, .text created] =>
      some ⟨id, title, creatorId, created⟩
    | _ => none
  ofCells?_cells _ := rfl

instance : Cells WritQuoteRow where
  cells r :=
    [.integer r.id, .integer r.writId, .text r.quoteText, .integer r.creatorId, .text r.created]
  ofCells?
    | [.integer id, .integer writId, .text quoteText, .integer creatorId, .text created] =>
      some ⟨id, writId, quoteText, creatorId, created⟩
    | _ => none
  ofCells?_cells _ := rfl

instance : Cells UrlRow where
  cells r := [.integer r.id, .text r.url, .text r.created]
  ofCells?
    | [.integer id, .text url, .text created] => some ⟨id, url, created⟩
    | _ => none
  ofCells?_cells _ := rfl

instance : Cells WritQuoteUrlRow where
  cells r := [.integer r.writQuoteId, .integer r.urlId, .text r.created]
  ofCells?
    | [.integer writQuoteId, .integer urlId, .text created] => some ⟨writQuoteId, urlId, created⟩
    | _ => none
  ofCells?_cells _ := rfl

instance : Cells UrlTargetRow where
  cells r := [.integer r.id, .integer r.writQuoteId, .integer r.urlId, .text r.created]
  ofCells?
    | [.integer id, .integer writQuoteId, .integer urlId, .text created] =>
      some ⟨id, writQuoteId, urlId, created⟩
    | _ => none
  ofCells?_cells _ := rfl

instance : Cells AnchorRow where
  cells r :=
    [.integer r.id, .integer r.targetId, .text r.exactText, .text r.prefixText,
      .text r.suffixText, .integer r.startOffset, .integer r.endOffset]
  ofCells?
    | [.integer id, .integer targetId, .text exactText, .text prefixText, .text suffixText,
        .integer startOffset, .integer endOffset] =>
      some ⟨id, targetId, exactText, prefixText, suffixText, startOffset, endOffset⟩
    | _ => none
  ofCells?_cells _ := rfl

instance : Cells MediaExcerptRow where
  cells r := [.integer r.id, .text r.quotation, .integer r.creatorId, .text r.created]
  ofCells?
    | [.integer id, .text quotation, .integer creatorId, .text created] =>
      some ⟨id, quotation, creatorId, created⟩
    | _ => none
  ofCells?_cells _ := rfl

instance : Cells UrlLocatorRow where
  cells r := [.integer r.id, .integer r.mediaExcerptId, .integer r.urlId, .text r.created]
  ofCells?
    | [.integer id, .integer mediaExcerptId, .integer urlId, .text created] =>
      some ⟨id, mediaExcerptId, urlId, created⟩
    | _ => none
  ofCells?_cells _ := rfl

instance : Cells AttemptRow where
  cells r :=
    [.integer r.id, .integer r.locatorId, .text r.completeAt, .text r.verdict, .text r.quotation,
      optionalText r.foundQuotation, optionalText r.errorMessage]
  ofCells?
    | [.integer id, .integer locatorId, .text completeAt, .text verdict, .text quotation, found,
        error] => do
      return ⟨id, locatorId, completeAt, verdict, quotation, ← optionalText? found,
        ← optionalText? error⟩
    | _ => none
  ofCells?_cells _ := by simp

instance : Cells SourceRow where
  cells r := [.integer r.id, .text r.description, .text r.created]
  ofCells?
    | [.integer id, .text description, .text created] => some ⟨id, description, created⟩
    | _ => none
  ofCells?_cells _ := rfl

instance : Cells CitationRow where
  cells r :=
    [.integer r.mediaExcerptId, .integer r.sourceId, optionalText r.pincite, .text r.created]
  ofCells?
    | [.integer mediaExcerptId, .integer sourceId, pincite, .text created] => do
      return ⟨mediaExcerptId, sourceId, ← optionalText? pincite, created⟩
    | _ => none
  ofCells?_cells _ := by simp

instance : Cells ParaphraseRow where
  cells r :=
    [.integer r.id, .integer r.propositionId, .text r.excerptType, .integer r.excerptId,
      .integer r.creatorId, .text r.created]
  ofCells?
    | [.integer id, .integer propositionId, .text excerptType, .integer excerptId,
        .integer creatorId, .text created] =>
      some ⟨id, propositionId, excerptType, excerptId, creatorId, created⟩
    | _ => none
  ofCells?_cells _ := rfl

instance : Cells CompoundRow where
  cells r := [.integer r.id, .integer r.creatorId, .text r.created]
  ofCells?
    | [.integer id, .integer creatorId, .text created] => some ⟨id, creatorId, created⟩
    | _ => none
  ofCells?_cells _ := rfl

instance : Cells CompoundAtomRow where
  cells r := [.integer r.compoundId, .integer r.propositionId, .integer r.orderPosition]
  ofCells?
    | [.integer compoundId, .integer propositionId, .integer orderPosition] =>
      some ⟨compoundId, propositionId, orderPosition⟩
    | _ => none
  ofCells?_cells _ := rfl

instance : Cells BasisAtomRow where
  cells r :=
    [.integer r.id, .integer r.compoundId, .text r.entityType, .integer r.entityId,
      .integer r.orderPosition]
  ofCells?
    | [.integer id, .integer compoundId, .text entityType, .integer entityId,
        .integer orderPosition] =>
      some ⟨id, compoundId, entityType, entityId, orderPosition⟩
    | _ => none
  ofCells?_cells _ := rfl

instance : Cells JustificationRow where
  cells r :=
    [.integer r.id, .text r.rootTargetType, .integer r.rootTargetId, .text r.rootPolarity,
      .text r.targetType, .integer r.targetId, .text r.basisType, .integer r.basisId,
      .text r.polarity, .integer r.creatorId, .text r.created]
  ofCells?
    | [.integer id, .text rootTargetType, .integer rootTargetId, .text rootPolarity,
        .text targetType, .integer targetId, .text basisType, .integer basisId, .text polarity,
        .integer creatorId, .text created] =>
      some ⟨id, rootTargetType, rootTargetId, rootPolarity, targetType, targetId, basisType,
        basisId, polarity, creatorId, created⟩
    | _ => none
  ofCells?_cells _ := rfl

/-! ## Changing a store -/

/-- The first `width` cells, where those left out are absent. -/
def padCells (width : Nat) (cells : List Value) : List Value :=
  (cells ++ List.replicate width Value.null).take width

namespace Stored

variable {α : Type} [Cells α]

/-- A row of a table with `width` columns and a mark. -/
def ofCells? (width : Nat) (cells : List Value) : Option (Stored α) := do
  let cells := padCells (width + 1) cells
  return ⟨← Cells.ofCells? (cells.take width), ← optionalText? (← cells[width]?)⟩

/-- The row has the given values in the given columns. -/
def agrees (columns : List String) (wanted : List (String × Value)) (s : Stored α) : Bool :=
  let cells := (columns ++ ["deleted"]).zip (Cells.cells s.row ++ [optionalText s.deleted])
  wanted.all fun (column, value) => !value.isNull && cells.lookup column = some value

end Stored

namespace Store

/-- Adds rows to a table, if each of them fits its columns. -/
def insert (db : Store) (t : TableName) (rows : List (List Value)) : Option Store :=
  let width := t.columns.length
  let stored {α : Type} [Cells α] : Option (Table α) := rows.mapM (Stored.ofCells? width)
  let plain {α : Type} [Cells α] : Option (List α) :=
    rows.mapM fun cells => Cells.ofCells? (padCells width cells)
  match t with
  | .users => stored.map fun rs => { db with users := db.users ++ rs }
  | .persorgs => stored.map fun rs => { db with persorgs := db.persorgs ++ rs }
  | .propositions => stored.map fun rs => { db with propositions := db.propositions ++ rs }
  | .statements => stored.map fun rs => { db with statements := db.statements ++ rs }
  | .writs => stored.map fun rs => { db with writs := db.writs ++ rs }
  | .writQuotes => stored.map fun rs => { db with writQuotes := db.writQuotes ++ rs }
  | .urls => stored.map fun rs => { db with urls := db.urls ++ rs }
  | .writQuoteUrls => stored.map fun rs => { db with writQuoteUrls := db.writQuoteUrls ++ rs }
  | .urlTargets => stored.map fun rs => { db with urlTargets := db.urlTargets ++ rs }
  | .anchors => stored.map fun rs => { db with anchors := db.anchors ++ rs }
  | .mediaExcerpts => stored.map fun rs => { db with mediaExcerpts := db.mediaExcerpts ++ rs }
  | .urlLocators => stored.map fun rs => { db with urlLocators := db.urlLocators ++ rs }
  | .attempts => plain.map fun rs => { db with attempts := db.attempts ++ rs }
  | .sources => stored.map fun rs => { db with sources := db.sources ++ rs }
  | .citations => stored.map fun rs => { db with citations := db.citations ++ rs }
  | .paraphrases => stored.map fun rs => { db with paraphrases := db.paraphrases ++ rs }
  | .propositionCompounds =>
    stored.map fun rs => { db with propositionCompounds := db.propositionCompounds ++ rs }
  | .compoundAtoms => plain.map fun rs => { db with compoundAtoms := db.compoundAtoms ++ rs }
  | .basisCompounds => stored.map fun rs => { db with basisCompounds := db.basisCompounds ++ rs }
  | .basisAtoms => plain.map fun rs => { db with basisAtoms := db.basisAtoms ++ rs }
  | .justifications => stored.map fun rs => { db with justifications := db.justifications ++ rs }

/-- Sets the mark of every row that agrees with `wanted`, and counts these rows. -/
def mark (db : Store) (t : TableName) (wanted : List (String × Value)) (mark : Option String) :
    Store × Nat :=
  let on {α : Type} [Cells α] (rows : Table α) (put : Table α → Store) : Store × Nat :=
    let hit : Stored α → Bool := Stored.agrees t.columns wanted
    (put (rows.map fun s => if hit s then { s with deleted := mark } else s), rows.countP hit)
  match t with
  | .users => on db.users fun rs => { db with users := rs }
  | .persorgs => on db.persorgs fun rs => { db with persorgs := rs }
  | .propositions => on db.propositions fun rs => { db with propositions := rs }
  | .statements => on db.statements fun rs => { db with statements := rs }
  | .writs => on db.writs fun rs => { db with writs := rs }
  | .writQuotes => on db.writQuotes fun rs => { db with writQuotes := rs }
  | .urls => on db.urls fun rs => { db with urls := rs }
  | .writQuoteUrls => on db.writQuoteUrls fun rs => { db with writQuoteUrls := rs }
  | .urlTargets => on db.urlTargets fun rs => { db with urlTargets := rs }
  | .anchors => on db.anchors fun rs => { db with anchors := rs }
  | .mediaExcerpts => on db.mediaExcerpts fun rs => { db with mediaExcerpts := rs }
  | .urlLocators => on db.urlLocators fun rs => { db with urlLocators := rs }
  | .sources => on db.sources fun rs => { db with sources := rs }
  | .citations => on db.citations fun rs => { db with citations := rs }
  | .paraphrases => on db.paraphrases fun rs => { db with paraphrases := rs }
  | .propositionCompounds =>
    on db.propositionCompounds fun rs => { db with propositionCompounds := rs }
  | .basisCompounds => on db.basisCompounds fun rs => { db with basisCompounds := rs }
  | .justifications => on db.justifications fun rs => { db with justifications := rs }
  | .attempts | .compoundAtoms | .basisAtoms => (db, 0)

end Store

end Rationale
