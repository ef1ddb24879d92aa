/-
  Rationale — what is read of a store without its deleted rows.

  Rows marked as deleted can be taken out of a store (`Store.purge`).  Hardly
  anything that is read of it tells the difference: joins, readers and queries
  go through live rows, and so do outlines.  Only targets are followed through
  deleted justifications (`Store.targetIds`).

  * `lookupsAt_purge`: all lookups of a read are the same;
  * `primaryRows_purge`, `counterRows_purge`, `propositionRows_purge`: so are
    the rows of its queries, but for those of the targets;
  * `Keyed.purge`: ids stay unique.
-/
import Rationale.Proofs.Reading

namespace Rationale

open Query

theorem Table.Keyed.purge {α : Type} [HasId α] {t : Table α} (h : t.Keyed) : t.purge.Keyed :=
  h.nodup_live

namespace Store

variable (db : Store)

/-! ## Joins -/

@[simp]
theorem joinedQuote?_purge : db.purge.joinedQuote? = db.joinedQuote? :=
  funext fun _ => by simp [joinedQuote?]

@[simp]
theorem joinedParaphrase_purge : db.purge.joinedParaphrase = db.joinedParaphrase :=
  funext fun _ => by simp [joinedParaphrase]

@[simp]
theorem joinedAtom_purge : db.purge.joinedAtom = db.joinedAtom :=
  funext fun _ => by simp [joinedAtom]

@[simp]
theorem joined_purge : db.purge.joined = db.joined :=
  funext fun _ => by simp [joined]

@[simp]
theorem justificationRows_purge : db.purge.justificationRows = db.justificationRows :=
  funext₂ fun _ _ => by simp [justificationRows]

/-! ## Readers -/

@[simp]
theorem statement?_purge : db.purge.statement? = db.statement? :=
  funext fun _ => by simp [statement?]

@[simp]
theorem findStatements_purge : db.purge.findStatements = db.findStatements :=
  funext fun _ => by simp [findStatements]

@[simp]
theorem findUsers_purge : db.purge.findUsers = db.findUsers :=
  funext fun _ => by simp [findUsers]

@[simp]
theorem history_purge : db.purge.history = db.history := rfl

@[simp]
theorem locatorsOf_purge : db.purge.locatorsOf = db.locatorsOf :=
  funext fun _ => by simp [locatorsOf]

@[simp]
theorem citationRows_purge : db.purge.citationRows = db.citationRows :=
  funext fun _ => by simp [citationRows]

@[simp]
theorem findMediaExcerpts_purge : db.purge.findMediaExcerpts = db.findMediaExcerpts :=
  funext fun _ => by simp [findMediaExcerpts, excerptRows]

@[simp]
theorem findUrls_purge : db.purge.findUrls = db.findUrls :=
  funext fun _ => by simp [findUrls, quoteUrlRows, purge]

@[simp]
theorem findUrlTargets_purge : db.purge.findUrlTargets = db.findUrlTargets :=
  funext fun _ => by simp [findUrlTargets, urlTargetRows]

@[simp]
theorem findWritQuoteUrls_purge : db.purge.findWritQuoteUrls = db.findWritQuoteUrls :=
  funext fun _ => by simp [findWritQuoteUrls]

theorem lookupsAt_purge : lookupsAt (fun _ => db.purge) = lookupsAt fun _ => db := by
  funext ix ps includeUrls
  simp [lookupsAt, mediaExcerptsAt_eq, writQuoteUrlsAt_eq, readStatements, readUsers]

/-! ## Queries -/

theorem primaryRows_purge (q : Evaluation) (listing : Rank) :
    db.purge.primaryRows q listing = db.primaryRows q listing := by
  simp [primaryRows, candidates_purge]

theorem counterRows_purge (q : Evaluation) : db.purge.counterRows q = db.counterRows q := by
  simp [counterRows, candidates_purge]

theorem propositionRows_purge (targets roots : Evaluation) :
    db.purge.propositionRows targets roots = db.propositionRows targets roots := by
  simp only [propositionRows, candidates_purge, purge_propositions]
  exact congrArg (List.filterMap · _) (funext fun _ => Table.row?_purge ..)

theorem listed_purge : db.purge.listed = db.listed :=
  funext₂ fun _ _ => by simp [listed]

theorem page_purge (q : Evaluation) (listing : Rank) :
    db.purge.page q listing = db.page q listing := by
  simp [page, candidates_purge, listed_purge]

theorem counters_purge (q : Evaluation) : db.purge.counters q = db.counters q := by
  simp [counters, candidates_purge, listed_purge]

/-! ## Outlines -/

@[simp]
theorem compoundOf_purge : db.purge.compoundOf = db.compoundOf :=
  funext fun _ => by simp [compoundOf, compoundPropositions]

@[simp]
theorem atomOf_purge : db.purge.atomOf = db.atomOf :=
  funext fun _ => by simp [atomOf]

@[simp]
theorem mixedOf_purge : db.purge.mixedOf = db.mixedOf :=
  funext fun _ => by simp [mixedOf, distinctAtoms]

@[simp]
theorem outline_purge : db.purge.outline = db.outline :=
  funext fun _ => by simp [outline, quoteOf?]

/-! ## Keys -/

variable {db}

theorem Keyed.purge (hk : db.Keyed) : db.purge.Keyed where
  users := hk.users.purge
  persorgs := hk.persorgs.purge
  propositions := hk.propositions.purge
  statements := hk.statements.purge
  writs := hk.writs.purge
  writQuotes := hk.writQuotes.purge
  urls := hk.urls.purge
  url_texts := hk.url_texts.sublist ((Table.live_sublist_rows _).map _)
  writQuoteUrls := hk.writQuoteUrls.sublist ((Table.live_sublist_rows _).map _)
  urlTargets := hk.urlTargets.purge
  anchors := hk.anchors.purge
  mediaExcerpts := hk.mediaExcerpts.purge
  urlLocators := hk.urlLocators.purge
  attempts := hk.attempts
  sources := hk.sources.purge
  paraphrases := hk.paraphrases.purge
  propositionCompounds := hk.propositionCompounds.purge
  compoundAtoms := hk.compoundAtoms
  basisCompounds := hk.basisCompounds.purge
  basisAtoms := hk.basisAtoms
  justifications := hk.justifications.purge

end Store

end Rationale
