/-
  Rationale — what a store holds.

  A store is a set of tables of rows.  Rows are as stored: kinds, polarities,
  verdicts and timestamps are texts that have yet to be decoded.  Most rows are
  never removed but marked as deleted (`Stored`), and all reading goes through
  the rows that are not (`Table.live`).

  * `Table.row?` looks a live row up by its id;
  * `Store.purge` is the store without the rows marked as deleted, and
    `live_purge` says that reading does not tell the difference;
  * `Table.Keyed` says that no two rows have one id, as a schema demands.
-/
import Rationale.Vocabulary

namespace Rationale

/-! ## Rows -/

structure UserRow where
  id : Id
  longName : String
  created : String
deriving DecidableEq, Repr

structure PersorgRow where
  id : Id
  name : String
  /-- Any number but zero says yes. -/
  isOrganization : Int64
  created : String
deriving DecidableEq, Repr

structure PropositionRow where
  id : Id
  text : String
  creatorId : Id
  created : String
deriving DecidableEq, Repr

structure StatementRow where
  id : Id
  speakerId : Id
  sentenceType : String
  sentenceId : Id
  creatorId : Id
  created : String
deriving DecidableEq, Repr

structure WritRow where
  id : Id
  title : String
  creatorId : Id
  created : String
deriving DecidableEq, Repr

structure WritQuoteRow where
  id : Id
  writId : Id
  quoteText : String
  creatorId : Id
  created : String
deriving DecidableEq, Repr

structure UrlRow where
  id : Id
  url : String
  created : String
deriving DecidableEq, Repr

/-- Attaches a URL to a writ quote. -/
structure WritQuoteUrlRow where
  writQuoteId : Id
  urlId : Id
  created : String
deriving DecidableEq, Repr

structure UrlTargetRow where
  id : Id
  writQuoteId : Id
  urlId : Id
  created : String
deriving DecidableEq, Repr

structure AnchorRow where
  id : Id
  targetId : Id
  exactText : String
  prefixText : String
  suffixText : String
  startOffset : Int64
  endOffset : Int64
deriving DecidableEq, Repr

structure MediaExcerptRow where
  id : Id
  quotation : String
  creatorId : Id
  created : String
deriving DecidableEq, Repr

structure UrlLocatorRow where
  id : Id
  mediaExcerptId : Id
  urlId : Id
  created : String
deriving DecidableEq, Repr

structure AttemptRow where
  id : Id
  locatorId : Id
  completeAt : String
  verdict : String
  quotation : String
  foundQuotation : Option String
  errorMessage : Option String
deriving DecidableEq, Repr

structure SourceRow where
  id : Id
  description : String
  created : String
deriving DecidableEq, Repr

structure CitationRow where
  mediaExcerptId : Id
  sourceId : Id
  pincite : Option String
  created : String
deriving DecidableEq, Repr

structure ParaphraseRow where
  id : Id
  propositionId : Id
  excerptType : String
  excerptId : Id
  creatorId : Id
  created : String
deriving DecidableEq, Repr

/-- A compound of either kind, without its atoms. -/
structure CompoundRow where
  id : Id
  creatorId : Id
  created : String
deriving DecidableEq, Repr

structure CompoundAtomRow where
  compoundId : Id
  propositionId : Id
  orderPosition : Int64
deriving DecidableEq, Repr

structure BasisAtomRow where
  id : Id
  compoundId : Id
  entityType : String
  entityId : Id
  orderPosition : Int64
deriving DecidableEq, Repr

structure JustificationRow where
  id : Id
  rootTargetType : String
  rootTargetId : Id
  rootPolarity : String
  targetType : String
  targetId : Id
  basisType : String
  basisId : Id
  polarity : String
  creatorId : Id
  created : String
deriving DecidableEq, Repr

/-- Rows with an id of their own. -/
class HasId (α : Type) where
  id : α → Id

instance : HasId UserRow := ⟨(·.id)⟩
instance : HasId PersorgRow := ⟨(·.id)⟩
instance : HasId PropositionRow := ⟨(·.id)⟩
instance : HasId StatementRow := ⟨(·.id)⟩
instance : HasId WritRow := ⟨(·.id)⟩
instance : HasId WritQuoteRow := ⟨(·.id)⟩
instance : HasId UrlRow := ⟨(·.id)⟩
instance : HasId UrlTargetRow := ⟨(·.id)⟩
instance : HasId AnchorRow := ⟨(·.id)⟩
instance : HasId MediaExcerptRow := ⟨(·.id)⟩
instance : HasId UrlLocatorRow := ⟨(·.id)⟩
instance : HasId AttemptRow := ⟨(·.id)⟩
instance : HasId SourceRow := ⟨(·.id)⟩
instance : HasId ParaphraseRow := ⟨(·.id)⟩
instance : HasId CompoundRow := ⟨(·.id)⟩
instance : HasId BasisAtomRow := ⟨(·.id)⟩
instance : HasId JustificationRow := ⟨(·.id)⟩

/-! ## Tables -/

/-- A row that can be marked as deleted; any text is such a mark. -/
structure Stored (α : Type) where
  row : α
  deleted : Option String
deriving DecidableEq, Repr

abbrev Table (α : Type) : Type :=
  List (Stored α)

namespace Table

variable {α : Type}

/-- The rows that are not marked as deleted. -/
def live (t : Table α) : List α :=
  (t.filter (·.deleted.isNone)).map (·.row)

/-- All rows, whether or not they are marked as deleted. -/
def rows (t : Table α) : List α :=
  t.map (·.row)

/-- The live row with that id. -/
def row? [HasId α] (t : Table α) (i : Id) : Option α :=
  t.live.find? (HasId.id · = i)

/-- No two rows, live or not, have one id. -/
def Keyed [HasId α] (t : Table α) : Prop :=
  (t.rows.map HasId.id).Nodup

/-- The table without the rows marked as deleted. -/
def purge (t : Table α) : Table α :=
  t.filter (·.deleted.isNone)

theorem mem_live {t : Table α} {a : α} : a ∈ t.live ↔ (⟨a, none⟩ : Stored α) ∈ t := by
  simp only [live, List.mem_map, List.mem_filter, Option.isNone_iff_eq_none]
  constructor
  · rintro ⟨⟨b, d⟩, ⟨hm, rfl⟩, rfl⟩; exact hm
  · exact fun h => ⟨_, ⟨h, rfl⟩, rfl⟩

@[simp]
theorem live_purge (t : Table α) : t.purge.live = t.live := by
  simp [live, purge]

@[simp]
theorem row?_purge [HasId α] (t : Table α) (i : Id) : t.purge.row? i = t.row? i := by
  simp [row?]

end Table

/-! ## Stores -/

structure Store where
  users : Table UserRow := []
  persorgs : Table PersorgRow := []
  propositions : Table PropositionRow := []
  statements : Table StatementRow := []
  writs : Table WritRow := []
  writQuotes : Table WritQuoteRow := []
  urls : Table UrlRow := []
  writQuoteUrls : Table WritQuoteUrlRow := []
  urlTargets : Table UrlTargetRow := []
  anchors : Table AnchorRow := []
  mediaExcerpts : Table MediaExcerptRow := []
  urlLocators : Table UrlLocatorRow := []
  /-- The log of attempts: rows are only ever added. -/
  attempts : List AttemptRow := []
  sources : Table SourceRow := []
  citations : Table CitationRow := []
  paraphrases : Table ParaphraseRow := []
  propositionCompounds : Table CompoundRow := []
  compoundAtoms : List CompoundAtomRow := []
  basisCompounds : Table CompoundRow := []
  basisAtoms : List BasisAtomRow := []
  justifications : Table JustificationRow := []

namespace Store

/-- The store without the rows marked as deleted. -/
def purge (db : Store) : Store :=
  { db with
    users := db.users.purge
    persorgs := db.persorgs.purge
    propositions := db.propositions.purge
    statements := db.statements.purge
    writs := db.writs.purge
    writQuotes := db.writQuotes.purge
    urls := db.urls.purge
    writQuoteUrls := db.writQuoteUrls.purge
    urlTargets := db.urlTargets.purge
    anchors := db.anchors.purge
    mediaExcerpts := db.mediaExcerpts.purge
    urlLocators := db.urlLocators.purge
    sources := db.sources.purge
    citations := db.citations.purge
    paraphrases := db.paraphrases.purge
    propositionCompounds := db.propositionCompounds.purge
    basisCompounds := db.basisCompounds.purge
    justifications := db.justifications.purge }

section

variable (db : Store)

@[simp] theorem purge_users : db.purge.users = db.users.purge := rfl
@[simp] theorem purge_persorgs : db.purge.persorgs = db.persorgs.purge := rfl
@[simp] theorem purge_propositions : db.purge.propositions = db.propositions.purge := rfl
@[simp] theorem purge_statements : db.purge.statements = db.statements.purge := rfl
@[simp] theorem purge_writs : db.purge.writs = db.writs.purge := rfl
@[simp] theorem purge_urlTargets : db.purge.urlTargets = db.urlTargets.purge := rfl
@[simp] theorem purge_anchors : db.purge.anchors = db.anchors.purge := rfl
@[simp] theorem purge_mediaExcerpts : db.purge.mediaExcerpts = db.mediaExcerpts.purge := rfl
@[simp] theorem purge_sources : db.purge.sources = db.sources.purge := rfl
@[simp] theorem purge_citations : db.purge.citations = db.citations.purge := rfl
@[simp] theorem purge_justifications : db.purge.justifications = db.justifications.purge := rfl

end

/-- The keys that a schema demands are unique. -/
structure Keyed (db : Store) : Prop where
  users : db.users.Keyed
  persorgs : db.persorgs.Keyed
  propositions : db.propositions.Keyed
  statements : db.statements.Keyed
  writs : db.writs.Keyed
  writQuotes : db.writQuotes.Keyed
  urls : db.urls.Keyed
  url_texts : (db.urls.rows.map (·.url)).Nodup
  writQuoteUrls : (db.writQuoteUrls.rows.map fun r => (r.writQuoteId, r.urlId)).Nodup
  urlTargets : db.urlTargets.Keyed
  anchors : db.anchors.Keyed
  mediaExcerpts : db.mediaExcerpts.Keyed
  urlLocators : db.urlLocators.Keyed
  attempts : (db.attempts.map (·.id)).Nodup
  sources : db.sources.Keyed
  paraphrases : db.paraphrases.Keyed
  propositionCompounds : db.propositionCompounds.Keyed
  compoundAtoms : (db.compoundAtoms.map fun r => (r.compoundId, r.propositionId)).Nodup
  basisCompounds : db.basisCompounds.Keyed
  basisAtoms : (db.basisAtoms.map (·.id)).Nodup
  justifications : db.justifications.Keyed

end Store

end Rationale
