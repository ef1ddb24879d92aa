/-
  Rationale — reading pages of justifications.

  A read sends several statements: for the page, for the justifications to which
  its targets lead, for its counters and so on.  Others may write between two of
  these, so `readAt` takes a store for every step; `Store.read` is a read that
  nobody disturbs.  What statements leave open is settled by a `Chance`.

  * a page of no length is empty whatever the rest of the request says;
  * the first fault ends the read: the request is checked first, then the steps
    come in the order of `ReadStep`, and then the page is put together.
-/
import Rationale.Assembly
import Rationale.Query.Projection
import Rationale.Store.Readers

namespace Rationale

open Query

/-- What an index names, read in the steps that follow it. -/
def lookupsAt (db : ReadStep → Store) (ix : Index) (propositions : List Proposition)
    (includeUrls : Bool) : Logged Lookups := do
  let excerptIds := ascending (ix.chains.map (·.1) ++ ix.paraphrasedExcerptIds)
  Logged.warn ix.walkWarnings
  let excerpts ← mediaExcerptsAt db excerptIds
  let statements ← Logged.ofExcept ((db .statements).readStatements ix.statementIds)
  let users ← Logged.ofExcept ((db .users).readUsers ix.creatorIds)
  let urls ← Logged.ofExcept <|
    if includeUrls then some <$> writQuoteUrlsAt db ix.writQuoteIds else .ok none
  return {
    propositions := fun i => propositions.find? (·.id = i)
    statements := (statements.lookup ·)
    mediaExcerpts := (excerpts.lookup ·)
    users := (users.lookup ·)
    writQuoteUrls := urls.map fun us i => (us.lookup i).getD []
    chains := ix.chains }

/-! ## The statements about a page -/

section

variable (db : ReadStep → Store) (ch : Chance) (q : PageQuery)

def pageAt : Except Fault (List Justification) := do
  (primaryRows q.candidates q.columns).send
  reconstruct (ch.hashed .page) ((db .page).primaryRows (q.use ch .page) (ch.found .listing))

/-- The justifications to which targets lead from the page. -/
def targetsAt : Except Fault (List Justification) := do
  (targetRows q.candidates).send
  reconstruct (ch.hashed .targets) ((db .targets).targetRows (q.use ch .targets))

/-- The justifications that counter the page. -/
def countersAt : Except Fault (List Justification) := do
  (counterRows q.candidates).send
  reconstruct (ch.hashed .counters) ((db .counters).counterRows (q.use ch .counters))

/-- The propositions that are targets of the page or roots of it. -/
def propositionsAt : Except Fault (List Proposition) := do
  (propositionRows q.candidates).send
  let rows := (db .propositions).propositionRows (q.use ch .targetPropositions)
    (q.use ch .rootPropositions)
  rows.mapM PropositionRow.decode

end

/-! ## A database -/

namespace Query

/-- The columns of each index of justifications. -/
def indexes : List (List Column) :=
  [[.created], [.targetType, .targetId], [.basisType, .basisId]]

/-- How many columns at the start of an order an index has, if it is followed back. -/
def PageQuery.indexed (q : PageQuery) : Nat :=
  let descending := (q.columns.takeWhile (·.direction = .desc)).map (·.column)
  let shared (index : List Column) := ((index.zip descending).takeWhile fun (a, b) => a = b).length
  (indexes.map shared).foldl max 0

/-- An index is followed back, rather than all rows sorted.  So it is for some
    statements about all justifications from a boundary on.  The numbers are those
    of columns for which this is estimated to cost less. -/
def PageQuery.followsIndex (q : PageQuery) (u : Use) : Bool :=
  let n := q.columns.length
  q.selections matches [.every] && q.condition.continued.isSome &&
    match u with
    | .targets | .targetPropositions => q.indexed = 1 && n = 3 || q.indexed = 2 && 5 ≤ n && n ≤ 7
    | .counters => q.indexed = 2 && n = 5
    | .page | .listing | .rootPropositions => false

/-- What a database makes of a query.  Rows that tie come in the order of their
    table, or the other way round where it follows an index back. -/
def PageQuery.plan (q : PageQuery) : Chance where
  found u := if q.followsIndex u then .backwards else .asStored
  hashed _ := .asTold

/-- The same for the query of a request. -/
def Request.plan (r : Request) : Chance :=
  match r.compile with
  | .ok q => q.plan
  | .error _ => .level .asStored

end Query

/-! ## Reads -/

/-- The page of a request, where each step finds the store as it is then. -/
def readAt (db : ReadStep → Store) (ch : Chance) (r : Request) : Logged (List Justification) := do
  if r.effectiveCount = 0 then return []
  let q ← Logged.ofExcept r.compile
  let page ← Logged.ofExcept (pageAt db ch q)
  if page.isEmpty then return []
  let targets ← Logged.ofExcept (targetsAt db ch q)
  let counters ← Logged.ofExcept (countersAt db ch q)
  let propositions ← Logged.ofExcept (propositionsAt db ch q)
  let ix : Index := ⟨page, targets, counters⟩
  ix.assemble (← lookupsAt db ix propositions r.includeUrls)

namespace Store

/-- The page of a request. -/
def read (db : Store) (ch : Chance) (r : Request) : Logged (List Justification) :=
  readAt (fun _ => db) ch r

/-- The request for one justification. -/
def oneRequest (i : Id) : Request :=
  { count := 1 : Request }.withFilter .justificationId (.one (Text.ofInt64 i))

/-- The justification with that id, which has to be there. -/
def readOne (db : Store) (ch : Chance) (i : Id) : Logged Justification := do
  match ← db.read ch (oneRequest i) with
  | j :: _ => return j
  | [] => Logged.fail (.noEntity .justification i)

end Store

end Rationale
