/-
  Rationale — the JSON forms of entities.

  An entity is a record, and is written as an object.  A relation says whether
  it holds the entity or its id.  A locator status has its tag among its parts,
  or before them if it is an array.

  * the URLs of a quote, the target of a URL, the pincite of a citation and a
    found quotation may be absent; anything else has to be there.
-/
import Rationale.Entity
import Rationale.Json

namespace Rationale

open Json JsonForm

/-! ## Relations -/

namespace Relation

variable {α : Type}

def toJsonWith (toJson : α → Json) : Relation α → Json
  | entity a => tagged "kind" "entity" (toJson a)
  | ref i => tagged "kind" "ref" (JsonForm.toJson i)

/-- A relation whose entity is read by `read`. -/
def ofJsonWith? (j : Json) (read : Within j → Option α) : Option (Relation α) := do
  match ← j.union? "kind" with
  | ("entity", v) => entity <$> read v
  | ("ref", v) => ref <$> JsonForm.ofJson? v.1
  | _ => none

instance [JsonForm α] : JsonForm (Relation α) where
  toJson := toJsonWith toJson
  ofJson? j := ofJsonWith? j fun v => ofJson? v.1

end Relation

/-! ## People -/

instance : JsonForm UserBlurb where
  toJson u := .obj [("user_id", toJson u.id), ("long_name", toJson u.longName)]
  ofJson? j := do
    let p ← j.parts? ["user_id", "long_name"]
    return ⟨← p.get? "user_id", ← p.get? "long_name"⟩

instance : JsonForm Persorg where
  toJson p :=
    .obj [("persorg_id", toJson p.id), ("name", toJson p.name),
      ("is_organization", toJson p.isOrganization)]
  ofJson? j := do
    let p ← j.parts? ["persorg_id", "name", "is_organization"]
    return ⟨← p.get? "persorg_id", ← p.get? "name", ← p.get? "is_organization"⟩

/-! ## Propositions and statements -/

instance : JsonForm Proposition where
  toJson p :=
    .obj [("proposition_id", toJson p.id), ("text", toJson p.text),
      ("creator_user_id", toJson p.creatorId), ("created", toJson p.created)]
  ofJson? j := do
    let p ← j.parts? ["proposition_id", "text", "creator_user_id", "created"]
    return ⟨← p.get? "proposition_id", ← p.get? "text", ← p.get? "creator_user_id",
      ← p.get? "created"⟩

namespace SentenceOf

variable {σ : Type}

def toJsonWith (toJson : σ → Json) : SentenceOf σ → Json
  | proposition p => tagged "type" "PROPOSITION" (JsonForm.toJson p)
  | statement s => tagged "type" "STATEMENT" (s.toJsonWith toJson)

/-- A sentence whose statement is read by `read`. -/
def ofJsonWith? (j : Json) (read : Within j → Option σ) : Option (SentenceOf σ) := do
  match ← j.union? "type" with
  | ("PROPOSITION", v) => proposition <$> JsonForm.ofJson? v.1
  | ("STATEMENT", v) => statement <$> Relation.ofJsonWith? v.1 fun s => read (v.inner s)
  | _ => none

end SentenceOf

def Statement.toJson : Statement → Json
  | ⟨id, speaker, sentence, creatorId, created⟩ =>
    .obj [("statement_id", JsonForm.toJson id), ("speaker", JsonForm.toJson speaker),
      ("sentence",
        match sentence with
        | .statement (.entity s) => tagged "type" "STATEMENT" (tagged "kind" "entity" s.toJson)
        | .statement (.ref i) =>
          tagged "type" "STATEMENT" (tagged "kind" "ref" (JsonForm.toJson i))
        | .proposition p => tagged "type" "PROPOSITION" (JsonForm.toJson p)),
      ("creator_user_id", JsonForm.toJson creatorId), ("created", JsonForm.toJson created)]

/-- The sentence is written as any sentence is. -/
theorem Statement.toJson_eq (s : Statement) :
    s.toJson =
      .obj [("statement_id", JsonForm.toJson s.id), ("speaker", JsonForm.toJson s.speaker),
        ("sentence", s.sentence.toJsonWith Statement.toJson),
        ("creator_user_id", JsonForm.toJson s.creatorId),
        ("created", JsonForm.toJson s.created)] := by
  rcases s with ⟨_, _, _ | (_ | _), _, _⟩ <;> simp only [Statement.toJson] <;> rfl

def Statement.ofJson? (j : Json) : Option Statement := do
  let p ← j.parts? ["statement_id", "speaker", "sentence", "creator_user_id", "created"]
  let s ← p.lookup "sentence"
  return {
    id := ← p.get? "statement_id"
    speaker := ← p.get? "speaker"
    sentence := ← SentenceOf.ofJsonWith? s.1 fun v => Statement.ofJson? v.1
    creatorId := ← p.get? "creator_user_id"
    created := ← p.get? "created" }
termination_by sizeOf j
decreasing_by exact (s.inner v).2

instance : JsonForm Statement := ⟨Statement.toJson, Statement.ofJson?⟩

instance : JsonForm Sentence where
  toJson := SentenceOf.toJsonWith toJson
  ofJson? j := SentenceOf.ofJsonWith? j fun v => ofJson? v.1

/-! ## Writs and URLs -/

instance : JsonForm Writ where
  toJson w := .obj [("writ_id", toJson w.id), ("title", toJson w.title)]
  ofJson? j := do
    let p ← j.parts? ["writ_id", "title"]
    return ⟨← p.get? "writ_id", ← p.get? "title"⟩

instance : JsonForm Url where
  toJson u := .obj [("url_id", toJson u.id), ("url", toJson u.url)]
  ofJson? j := do
    let p ← j.parts? ["url_id", "url"]
    return ⟨← p.get? "url_id", ← p.get? "url"⟩

instance : JsonForm UrlTargetAnchor where
  toJson a :=
    .obj [("exact_text", toJson a.exactText), ("prefix_text", toJson a.prefixText),
      ("suffix_text", toJson a.suffixText), ("start_offset", toJson a.startOffset),
      ("end_offset", toJson a.endOffset)]
  ofJson? j := do
    let p ← j.parts? ["exact_text", "prefix_text", "suffix_text", "start_offset", "end_offset"]
    return ⟨← p.get? "exact_text", ← p.get? "prefix_text", ← p.get? "suffix_text",
      ← p.get? "start_offset", ← p.get? "end_offset"⟩

instance : JsonForm UrlTarget where
  toJson t :=
    .obj [("url_target_id", toJson t.id), ("writ_quote_id", toJson t.writQuoteId),
      ("url_id", toJson t.urlId), ("anchors", toJson t.anchors)]
  ofJson? j := do
    let p ← j.parts? ["url_target_id", "writ_quote_id", "url_id", "anchors"]
    return ⟨← p.get? "url_target_id", ← p.get? "writ_quote_id", ← p.get? "url_id",
      ← p.get? "anchors"⟩

instance : JsonForm WritQuoteUrl where
  toJson u := .obj [("url", toJson u.url), ("target", toJson u.target)]
  ofJson? j := do
    let p ← j.parts? ["url", "target"]
    return ⟨← p.get? "url", ← p.optional? "target"⟩

instance : JsonForm WritQuote where
  toJson q :=
    .obj [("writ_quote_id", toJson q.id), ("quote_text", toJson q.quoteText),
      ("writ", toJson q.writ), ("creator_user_id", toJson q.creatorId),
      ("created", toJson q.created), ("urls", toJson q.urls)]
  ofJson? j := do
    let p ← j.parts? ["writ_quote_id", "quote_text", "writ", "creator_user_id", "created", "urls"]
    return ⟨← p.get? "writ_quote_id", ← p.get? "quote_text", ← p.get? "writ",
      ← p.get? "creator_user_id", ← p.get? "created", ← p.optional? "urls"⟩

/-! ## Attempts and media excerpts -/

instance : JsonForm Attempt where
  toJson a :=
    .obj [("result_id", toJson a.id), ("url_locator_id", toJson a.locatorId),
      ("complete_at", toJson a.completeAt), ("status", toJson a.verdict),
      ("quotation", toJson a.quotation), ("found_quotation", toJson a.foundQuotation),
      ("error_message", toJson a.errorMessage)]
  ofJson? j := do
    let p ← j.parts? ["result_id", "url_locator_id", "complete_at", "status", "quotation",
      "found_quotation", "error_message"]
    return ⟨← p.get? "result_id", ← p.get? "url_locator_id", ← p.get? "complete_at",
      ← p.get? "status", ← p.get? "quotation", ← p.optional? "found_quotation",
      ← p.optional? "error_message"⟩

instance : JsonForm Window where
  toJson w := .obj [("earliest", toJson w.earliest), ("latest", toJson w.latest)]
  ofJson? j := do
    let p ← j.parts? ["earliest", "latest"]
    return ⟨← p.get? "earliest", ← p.get? "latest"⟩

instance : JsonForm LocatorStatus where
  toJson
    | .neverTried => .obj [("status", .str "NEVER_TRIED")]
    | .neverFound notFound =>
      .obj [("status", .str "NEVER_FOUND"), ("not_found", toJson notFound)]
    | .found quotation found =>
      .obj [("status", .str "FOUND"), ("found_quotation", toJson quotation),
        ("found", toJson found)]
    | .previouslyFound quotation found notFound =>
      .obj [("status", .str "PREVIOUSLY_FOUND"), ("found_quotation", toJson quotation),
        ("found", toJson found), ("not_found", toJson notFound)]
  ofJson? j := do
    let (tag, j) ← match j with
      | .arr (.str tag :: rest) => some (tag, .arr rest)
      | .obj _ => (j.get? "status").map (·, j)
      | _ => none
    match (tag : String) with
    | "NEVER_TRIED" => do
      let _ ← j.parts? []
      return .neverTried
    | "NEVER_FOUND" => do
      let p ← j.parts? ["not_found"]
      return .neverFound (← p.get? "not_found")
    | "FOUND" => do
      let p ← j.parts? ["found_quotation", "found"]
      return .found (← p.optional? "found_quotation") (← p.get? "found")
    | "PREVIOUSLY_FOUND" => do
      let p ← j.parts? ["found_quotation", "found", "not_found"]
      return .previouslyFound (← p.optional? "found_quotation") (← p.get? "found")
        (← p.get? "not_found")
    | _ => none

instance : JsonForm UrlLocator where
  toJson l :=
    .obj [("url_locator_id", toJson l.id), ("url", toJson l.url),
      ("auto_confirmation_status", toJson l.status)]
  ofJson? j := do
    let p ← j.parts? ["url_locator_id", "url", "auto_confirmation_status"]
    return ⟨← p.get? "url_locator_id", ← p.get? "url", ← p.get? "auto_confirmation_status"⟩

instance : JsonForm Source where
  toJson s := .obj [("source_id", toJson s.id), ("description", toJson s.description)]
  ofJson? j := do
    let p ← j.parts? ["source_id", "description"]
    return ⟨← p.get? "source_id", ← p.get? "description"⟩

instance : JsonForm Citation where
  toJson c := .obj [("source", toJson c.source), ("pincite", toJson c.pincite)]
  ofJson? j := do
    let p ← j.parts? ["source", "pincite"]
    return ⟨← p.get? "source", ← p.optional? "pincite"⟩

instance : JsonForm MediaExcerpt where
  toJson e :=
    .obj [("media_excerpt_id", toJson e.id), ("quotation", toJson e.quotation),
      ("creator_user_id", toJson e.creatorId), ("created", toJson e.created),
      ("url_locators", toJson e.locators), ("citations", toJson e.citations)]
  ofJson? j := do
    let p ← j.parts? ["media_excerpt_id", "quotation", "creator_user_id", "created",
      "url_locators", "citations"]
    return ⟨← p.get? "media_excerpt_id", ← p.get? "quotation", ← p.get? "creator_user_id",
      ← p.get? "created", ← p.get? "url_locators", ← p.get? "citations"⟩

/-! ## Paraphrases and compounds -/

instance : JsonForm SourceExcerpt where
  toJson
    | .writQuote q => tagged "type" "WRIT_QUOTE" (toJson q)
    | .mediaExcerpt e => tagged "type" "MEDIA_EXCERPT" (toJson e)
  ofJson? j := do
    match ← j.union? "type" with
    | ("WRIT_QUOTE", v) => .writQuote <$> ofJson? v.1
    | ("MEDIA_EXCERPT", v) => .mediaExcerpt <$> ofJson? v.1
    | _ => none

instance : JsonForm SourceExcerptParaphrase where
  toJson p :=
    .obj [("source_excerpt_paraphrase_id", toJson p.id),
      ("paraphrasing_proposition", toJson p.proposition), ("source_excerpt", toJson p.excerpt)]
  ofJson? j := do
    let p ← j.parts? ["source_excerpt_paraphrase_id", "paraphrasing_proposition",
      "source_excerpt"]
    return ⟨← p.get? "source_excerpt_paraphrase_id", ← p.get? "paraphrasing_proposition",
      ← p.get? "source_excerpt"⟩

instance : JsonForm CompoundAtom where
  toJson a :=
    .obj [("proposition", toJson a.proposition), ("order_position", toJson a.orderPosition)]
  ofJson? j := do
    let p ← j.parts? ["proposition", "order_position"]
    return ⟨← p.get? "proposition", ← p.get? "order_position"⟩

instance : JsonForm PropositionCompound where
  toJson c :=
    .obj [("proposition_compound_id", toJson c.id), ("creator_user_id", toJson c.creatorId),
      ("created", toJson c.created), ("atoms", toJson c.atoms)]
  ofJson? j := do
    let p ← j.parts? ["proposition_compound_id", "creator_user_id", "created", "atoms"]
    return ⟨← p.get? "proposition_compound_id", ← p.get? "creator_user_id", ← p.get? "created",
      ← p.get? "atoms"⟩

instance : JsonForm BasisAtomEntity where
  toJson
    | .proposition p => tagged "type" "PROPOSITION" (toJson p)
    | .sourceExcerptParaphrase p => tagged "type" "SOURCE_EXCERPT_PARAPHRASE" (toJson p)
  ofJson? j := do
    match ← j.union? "type" with
    | ("PROPOSITION", v) => .proposition <$> ofJson? v.1
    | ("SOURCE_EXCERPT_PARAPHRASE", v) => .sourceExcerptParaphrase <$> ofJson? v.1
    | _ => none

instance : JsonForm BasisAtom where
  toJson a :=
    .obj [("atom_id", toJson a.id), ("entity", toJson a.entity),
      ("order_position", toJson a.orderPosition)]
  ofJson? j := do
    let p ← j.parts? ["atom_id", "entity", "order_position"]
    return ⟨← p.get? "atom_id", ← p.get? "entity", ← p.get? "order_position"⟩

instance : JsonForm BasisCompound where
  toJson c :=
    .obj [("justification_basis_compound_id", toJson c.id),
      ("creator_user_id", toJson c.creatorId), ("created", toJson c.created),
      ("atoms", toJson c.atoms)]
  ofJson? j := do
    let p ← j.parts? ["justification_basis_compound_id", "creator_user_id", "created", "atoms"]
    return ⟨← p.get? "justification_basis_compound_id", ← p.get? "creator_user_id",
      ← p.get? "created", ← p.get? "atoms"⟩

end Rationale
