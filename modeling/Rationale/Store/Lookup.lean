/-
  Rationale — finding entities by their ids.

  What is asked for is a list of ids, and what is found are the entities with
  their ids, in ascending order and each once.  It is decoded first; then an
  asked id without an entity is a fault (`complete`).

  What belongs to the entities is read for all of them at once, as one list of
  rows with their owners (`Owned`), and handed out from there.  Attempts and
  URL targets are taken out of what was read as they are handed out.

  * `findStatements`, `findMediaExcerpts` and `findUsers` have to find every id;
  * `findUrls` gives every quote a list, which may be empty;
  * `findUrlTargets` gives the newest target of each quote and URL that has one.
-/
import Rationale.Ascending
import Rationale.Reconstruction
import Rationale.Store.Log

namespace Rationale

open Time

/-- All that was found, if that is all that was asked for. -/
def complete {α : Type} (kind : EntityKind) (ids : List Id) (found : List (Id × α)) :
    Except Fault (List (Id × α)) :=
  match ids.find? fun i => (found.lookup i).isNone with
  | some i => .error (.integrity (.notFound kind i))
  | none => .ok found

theorem complete_eq_ok_iff {α : Type} {kind : EntityKind} {ids : List Id}
    {found result : List (Id × α)} :
    complete kind ids found = .ok result ↔
      result = found ∧ ∀ i ∈ ids, (found.lookup i).isSome = true := by
  unfold complete
  cases h : ids.find? fun i => (found.lookup i).isNone with
  | some i =>
    have hm := List.mem_of_find?_eq_some h
    have hn := List.find?_some h
    simp only [reduceCtorEq, false_iff, not_and]
    intro _ hall
    rw [Option.isNone_iff_eq_none] at hn
    simpa [hn] using hall i hm
  | none =>
    rw [List.find?_eq_none] at h
    constructor
    · rintro ⟨⟩
      exact ⟨rfl, fun i hi => by simpa [Option.isSome_iff_ne_none] using h i hi⟩
    · rintro ⟨rfl, _⟩
      rfl

/-! ## Rows and their owners -/

/-- Rows, each with the id of its owner. -/
abbrev Owned (α : Type) : Type :=
  List (Id × α)

namespace Owned

variable {α : Type}

/-- By owner, and of one owner by the key. -/
def inOrder (key : α → Id) (rows : Owned α) : Owned α :=
  rows.mergeSort fun a b => a.1 < b.1 || (a.1 = b.1 && key a.2 ≤ key b.2)

/-- The rows of one owner. -/
def of (rows : Owned α) (owner : Id) : List α :=
  (rows.filter (·.1 = owner)).map (·.2)

end Owned

/-! ## Media excerpts and their locators -/

/-- A media excerpt; its locators and citations are not part of it yet. -/
def MediaExcerptRow.decode (r : MediaExcerptRow) : Except Fault MediaExcerpt :=
  return {
    id := r.id
    quotation := r.quotation
    creatorId := r.creatorId
    created := ← Instant.decode r.created
    locators := []
    citations := [] }

/-- With the locators and the citations that it owns. -/
def MediaExcerpt.withOwned (locators : Owned UrlLocator) (citations : Owned Citation)
    (e : MediaExcerpt) : MediaExcerpt :=
  { e with locators := locators.of e.id, citations := citations.of e.id }

/-- A locator with its URL, and the attempts that were handed to it. -/
structure Tried where
  locator : UrlLocatorRow
  url : UrlRow
  attempts : List Attempt

/-- The locator with its status, for the media excerpt that owns it. -/
def Tried.owned (t : Tried) : Id × UrlLocator :=
  (t.locator.mediaExcerptId, ⟨t.locator.id, ⟨t.url.id, t.url.url⟩, .ofHistory t.attempts⟩)

/-- Hands each locator its attempts, and goes on with those that are left. -/
def handOut : List Attempt → List (UrlLocatorRow × UrlRow) → List Tried
  | _, [] => []
  | attempts, (l, u) :: locators =>
    let (own, left) := attempts.partition (·.locatorId = l.id)
    ⟨l, u, own⟩ :: handOut left locators

/-- Media excerpts, put together from the rows that belong to them. -/
def putTogether (ids : List Id) (rows : List MediaExcerptRow)
    (locators : List (UrlLocatorRow × UrlRow)) (attempts : List Attempt)
    (citations : Owned Citation) : Logged (List (Id × MediaExcerpt)) := do
  let bare ← Logged.ofExcept (rows.mapM MediaExcerptRow.decode)
  let tried := (handOut attempts locators).filter fun t =>
    bare.any (·.id = t.locator.mediaExcerptId)
  Logged.warn (tried.flatMap fun t => LocatorStatus.warnings t.attempts)
  let found := bare.map (.withOwned (tried.map Tried.owned) citations)
  Logged.ofExcept (complete .mediaExcerpt ids (found.map fun e => (e.id, e)))

/-! ## Targets and their anchors -/

def AnchorRow.shown (a : AnchorRow) : UrlTargetAnchor :=
  ⟨a.exactText, a.prefixText, a.suffixText, a.startOffset, a.endOffset⟩

/-- A row of a target, with one of its anchors if it has any. -/
structure TargetRow where
  target : UrlTargetRow
  anchor : Option AnchorRow

/-- The newest target first, and the anchors of one target in ascending order. -/
def TargetRow.notAfter (a b : TargetRow) : Bool :=
  b.target.id < a.target.id || (a.target.id = b.target.id &&
    match a.anchor, b.anchor with
    | none, _ => true
    | some _, none => false
    | some a, some b => a.id ≤ b.id)

/-- The quote and the URL of a target. -/
def UrlTargetRow.pair (t : UrlTargetRow) : Id × Id :=
  (t.writQuoteId, t.urlId)

namespace UrlTarget

/-- The quote and the URL of a target. -/
def pair (t : UrlTarget) : Id × Id :=
  (t.writQuoteId, t.urlId)

/-- Without its anchors. -/
def ofRow (r : UrlTargetRow) : UrlTarget :=
  ⟨r.id, r.writQuoteId, r.urlId, []⟩

/-- The anchor of a row is added if the row is of this target. -/
def add (t : UrlTarget) (r : TargetRow) : UrlTarget :=
  if t.id = r.target.id then
    { t with anchors := t.anchors ++ r.anchor.toList.map AnchorRow.shown }
  else t

/-- Of each quote and URL there is one target: that of the first row. -/
def addRow : List UrlTarget → TargetRow → List UrlTarget
  | [], r => [(ofRow r.target).add r]
  | t :: ts, r => if t.pair = r.target.pair then t.add r :: ts else t :: addRow ts r

/-- The URL of a quote with its target, which is taken out of those that are left. -/
def handTo (quote : Id) (u : Url) : StateM (List UrlTarget) WritQuoteUrl :=
  modifyGet fun ts => (⟨u, ts.find? (·.pair = (quote, u.id))⟩, ts.eraseP (·.pair = (quote, u.id)))

/-- The same for all URLs of the quote. -/
def handAllTo (urls : Id × List Url) : StateM (List UrlTarget) (Id × List WritQuoteUrl) :=
  return (urls.1, ← urls.2.mapM (handTo urls.1))

/-- Hands out the targets to the URLs of all quotes. -/
def handOut (urls : List (Id × List Url)) (targets : List UrlTarget) :
    List (Id × List WritQuoteUrl) :=
  ((urls.mapM handAllTo).run targets).run.1

end UrlTarget

/-- The pairs of a quote and a URL that it has. -/
def urlPairs (urls : List (Id × List Url)) : List (Id × Id) :=
  urls.flatMap fun (q, us) => us.map fun u => (q, u.id)

namespace Store

variable (db : Store)

/-! ## Statements -/

/-- A statement of a live speaker; of what it says only a proposition is given. -/
def statement? (i : Id) : Option (Except Fault Statement) := do
  let s ← db.statements.row? i
  let speaker ← db.persorgs.row? s.speakerId
  let proposition := db.propositions.typed? SentenceType.proposition s.sentenceType s.sentenceId
  return do
    let type ← Coded.decode s.sentenceType
    let proposition ← proposition.mapM PropositionRow.decode
    let created ← Instant.decode s.created
    return {
      id := s.id
      speaker := ⟨speaker.id, speaker.name, speaker.isOrganization ≠ 0⟩
      sentence := .resolve type s.sentenceId proposition
      creatorId := s.creatorId
      created }

def findStatements (ids : List Id) : Except Fault (List (Id × Statement)) := do
  let found ← ((ascending ids).filterMap db.statement?).mapM id
  complete .statement ids (found.map fun s => (s.id, s))

/-! ## Users -/

def findUsers (ids : List Id) : Except Fault (List (Id × UserBlurb)) :=
  let found := (ascending ids).filterMap db.users.row?
  complete .user ids (found.map fun u => (u.id, ⟨u.id, u.longName⟩))

/-! ## Media excerpts -/

/-- The citations of media excerpts, by source. -/
def citationRows (excerpts : List Id) : Owned Citation :=
  let found := (db.citations.live.filter (·.mediaExcerptId ∈ excerpts)).filterMap fun c =>
    (db.sources.row? c.sourceId).map fun s => (c.mediaExcerptId, ⟨⟨s.id, s.description⟩, c.pincite⟩)
  Owned.inOrder (·.source.id) found

/-- The locators of media excerpts in ascending order, with their URLs. -/
def locatorsOf (excerpts : List Id) : List (UrlLocatorRow × UrlRow) :=
  ((ascending excerpts).flatMap db.locators).mergeSort fun a b => a.1.id ≤ b.1.id

/-- The rows of media excerpts. -/
def excerptRows (ids : List Id) : List MediaExcerptRow :=
  (ascending ids).filterMap db.mediaExcerpts.row?

def findMediaExcerpts (ids : List Id) : Logged (List (Id × MediaExcerpt)) := do
  let locators := db.locatorsOf ids
  let attempts ← Logged.ofExcept (db.history (locators.map (·.1.id)))
  putTogether ids (db.excerptRows ids) locators attempts (db.citationRows ids)

/-! ## URLs of writ quotes -/

/-- The URLs attached to writ quotes, in ascending order. -/
def quoteUrlRows (quotes : List Id) : Owned Url :=
  let found := (db.writQuoteUrls.live.filter (·.writQuoteId ∈ quotes)).filterMap fun l =>
    (db.urls.row? l.urlId).map fun u => (l.writQuoteId, ⟨u.id, u.url⟩)
  Owned.inOrder (·.id) found

def findUrls (quotes : List Id) : List (Id × List Url) :=
  let rows := db.quoteUrlRows quotes
  (ascending quotes).map fun q => (q, rows.of q)

/-- The targets of quotes at URLs, each with its anchors one by one. -/
def urlTargetRows (pairs : List (Id × Id)) : List TargetRow :=
  let targets := db.urlTargets.live.filter (·.pair ∈ pairs)
  let rows : List TargetRow := targets.flatMap fun t =>
    (orNone (db.anchors.live.filter (·.targetId = t.id))).map fun a => ⟨t, a⟩
  rows.mergeSort TargetRow.notAfter

/-- The pairs of a quote and a URL in ascending order, each once. -/
def ascendingPairs (pairs : List (Id × Id)) : List (Id × Id) :=
  (ascending (pairs.map (·.1))).flatMap fun q =>
    (ascending ((pairs.filter (·.1 = q)).map (·.2))).map (q, ·)

def findUrlTargets (pairs : List (Id × Id)) : List ((Id × Id) × UrlTarget) :=
  let targets := (db.urlTargetRows pairs).foldl UrlTarget.addRow []
  (ascendingPairs pairs).filterMap fun p => (targets.find? (·.pair = p)).map (p, ·)

/-- The URLs of writ quotes, with the newest target at each. -/
def findWritQuoteUrls (quotes : List Id) : List (Id × List WritQuoteUrl) :=
  let urls := db.findUrls quotes
  UrlTarget.handOut urls ((db.findUrlTargets (urlPairs urls)).map (·.2))

end Store

end Rationale
