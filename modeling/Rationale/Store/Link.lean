/-
  Rationale — the live rows that a row refers to.

  A reference with a type beside it (`Table.typed?`) names a row of one table
  or another.  Every link below ends at live rows only; atoms have no life of
  their own, and go with their compound.

  * `Store.basisQuote?` and its like are what a basis, an atom or a paraphrase
    refers to;
  * a link to a row with a unique id is an `Option`, and any other a list;
  * no link tells a store from its `purge`.
-/
import Rationale.Store.Row

namespace Rationale

/-- The live row with the id `i`, if the stored type is `type`. -/
def Table.typed? {α τ : Type} [HasId α] [Coded τ] (t : Table α) (type : τ) (stored : String)
    (i : Id) : Option α :=
  if stored = Coded.text type then t.row? i else none

@[simp]
theorem Table.typed?_purge {α τ : Type} [HasId α] [Coded τ] (t : Table α) (type : τ)
    (stored : String) (i : Id) : t.purge.typed? type stored i = t.typed? type stored i := by
  simp [typed?]

namespace Store

variable (db : Store)

/-! ## From a justification to its basis -/

def basisProposition? (j : JustificationRow) : Option CompoundRow :=
  db.propositionCompounds.typed? BasisType.propositionCompound j.basisType j.basisId

def basisQuote? (j : JustificationRow) : Option WritQuoteRow :=
  db.writQuotes.typed? BasisType.writQuote j.basisType j.basisId

def basisExcerpt? (j : JustificationRow) : Option MediaExcerptRow :=
  db.mediaExcerpts.typed? BasisType.mediaExcerpt j.basisType j.basisId

def basisMixed? (j : JustificationRow) : Option CompoundRow :=
  db.basisCompounds.typed? BasisType.justificationBasisCompound j.basisType j.basisId

/-! ## From a compound to its atoms -/

/-- The atoms of a proposition compound. -/
def propositionAtoms (c : CompoundRow) : List CompoundAtomRow :=
  db.compoundAtoms.filter (·.compoundId = c.id)

/-- The atoms of a mixed compound. -/
def mixedAtoms (c : CompoundRow) : List BasisAtomRow :=
  db.basisAtoms.filter (·.compoundId = c.id)

def atomProposition? (a : BasisAtomRow) : Option PropositionRow :=
  db.propositions.typed? AtomType.proposition a.entityType a.entityId

def atomParaphrase? (a : BasisAtomRow) : Option ParaphraseRow :=
  db.paraphrases.typed? AtomType.sourceExcerptParaphrase a.entityType a.entityId

/-! ## From a paraphrase to its excerpt -/

def paraphrasedQuote? (p : ParaphraseRow) : Option WritQuoteRow :=
  db.writQuotes.typed? SourceExcerptType.writQuote p.excerptType p.excerptId

def paraphrasedExcerpt? (p : ParaphraseRow) : Option MediaExcerptRow :=
  db.mediaExcerpts.typed? SourceExcerptType.mediaExcerpt p.excerptType p.excerptId

/-! ## To URLs -/

/-- The URLs attached to a writ quote. -/
def quoteUrls (quote : Id) : List UrlRow :=
  (db.writQuoteUrls.live.filter (·.writQuoteId = quote)).filterMap fun l => db.urls.row? l.urlId

/-- The locators of a media excerpt, with their URLs. -/
def locators (excerpt : Id) : List (UrlLocatorRow × UrlRow) :=
  (db.urlLocators.live.filter (·.mediaExcerptId = excerpt)).filterMap fun l =>
    (db.urls.row? l.urlId).map (l, ·)

/-! ## Links and deleted rows -/

@[simp]
theorem basisProposition?_purge : db.purge.basisProposition? = db.basisProposition? :=
  funext fun _ => Table.typed?_purge ..

@[simp]
theorem basisQuote?_purge : db.purge.basisQuote? = db.basisQuote? :=
  funext fun _ => Table.typed?_purge ..

@[simp]
theorem basisExcerpt?_purge : db.purge.basisExcerpt? = db.basisExcerpt? :=
  funext fun _ => Table.typed?_purge ..

@[simp]
theorem basisMixed?_purge : db.purge.basisMixed? = db.basisMixed? :=
  funext fun _ => Table.typed?_purge ..

@[simp]
theorem propositionAtoms_purge : db.purge.propositionAtoms = db.propositionAtoms := rfl

@[simp]
theorem mixedAtoms_purge : db.purge.mixedAtoms = db.mixedAtoms := rfl

@[simp]
theorem atomProposition?_purge : db.purge.atomProposition? = db.atomProposition? :=
  funext fun _ => Table.typed?_purge ..

@[simp]
theorem atomParaphrase?_purge : db.purge.atomParaphrase? = db.atomParaphrase? :=
  funext fun _ => Table.typed?_purge ..

@[simp]
theorem paraphrasedQuote?_purge : db.purge.paraphrasedQuote? = db.paraphrasedQuote? :=
  funext fun _ => Table.typed?_purge ..

@[simp]
theorem paraphrasedExcerpt?_purge : db.purge.paraphrasedExcerpt? = db.paraphrasedExcerpt? :=
  funext fun _ => Table.typed?_purge ..

@[simp]
theorem quoteUrls_purge : db.purge.quoteUrls = db.quoteUrls :=
  funext fun _ => by simp [quoteUrls, purge]

@[simp]
theorem locators_purge : db.purge.locators = db.locators :=
  funext fun _ => by simp [locators, purge]

end Store

end Rationale
