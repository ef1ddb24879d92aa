/-
  Rationale — readers, which send statements to a store.

  A reader looks entities up by their ids.  It sends a statement, or several one
  after the other, and a database refuses a statement with too many arguments
  (`Fragment.send`) without looking at any row.

  Others may write between two statements.  So what sends more than one of them
  is given a store for each: those that a read may send are the `ReadStep`s.

  * `mediaExcerptsAt`, `writQuoteUrlsAt`: the readers with several statements;
  * `mediaExcerptsAt_eq`, `writQuoteUrlsAt_eq`: what their statements find is
    what is found in one store, which has each table as it was when it was read.
-/
import Rationale.Query.Lookup
import Rationale.Store.Lookup

namespace Rationale

open Query Sql

/-- Sends a statement, which the database may refuse. -/
def Sql.Fragment.send (f : Fragment) : Except Fault Unit :=
  if f.args.length ≤ argumentLimit then .ok () else .error (.tooManyArguments f.sql)

/-- The statements of a read, in the order in which they are sent. -/
inductive ReadStep where
  | page
  | targets
  | counters
  | propositions
  | mediaExcerpts
  | locators
  | citations
  | attempts
  | statements
  | users
  | urls
  | urlTargets
deriving DecidableEq, Repr

/-! ## Readers with one statement -/

namespace Store

variable (db : Store)

def readStatements (ids : List Id) : Except Fault (List (Id × Statement)) := do
  (statementsById ids).send
  db.findStatements ids

def readUsers (ids : List Id) : Except Fault (List (Id × UserBlurb)) := do
  (usersById ids).send
  db.findUsers ids

def readUrls (quotes : List Id) : Except Fault (List (Id × List Url)) := do
  (urlsByQuote quotes).send
  return db.findUrls quotes

def readUrlTargets (pairs : List (Id × Id)) : Except Fault (List ((Id × Id) × UrlTarget)) := do
  (urlTargetsByPair pairs).send
  return db.findUrlTargets pairs

end Store

/-! ## Readers with several statements -/

section

variable (db : ReadStep → Store)

/-- Media excerpts.  Attempts are looked up once their locators are known. -/
def mediaExcerptsAt (ids : List Id) : Logged (List (Id × MediaExcerpt)) := do
  Logged.ofExcept (mediaExcerptsById ids).send
  let rows := (db .mediaExcerpts).excerptRows ids
  Logged.ofExcept (locatorsByExcerpt ids).send
  let locators := (db .locators).locatorsOf ids
  Logged.ofExcept (citationsByExcerpt ids).send
  let citations := (db .citations).citationRows ids
  let located := locators.map (·.1.id)
  Logged.ofExcept (attemptsByLocator located).send
  let attempts ← Logged.ofExcept ((db .attempts).history located)
  putTogether ids rows locators attempts citations

/-- The URLs of writ quotes, with the newest target at each. -/
def writQuoteUrlsAt (quotes : List Id) : Except Fault (List (Id × List WritQuoteUrl)) := do
  let urls ← (db .urls).readUrls quotes
  let targets ← (db .urlTargets).readUrlTargets (urlPairs urls)
  return UrlTarget.handOut urls (targets.map (·.2))

end

namespace Store

variable (db : Store)

def readMediaExcerpts (ids : List Id) : Logged (List (Id × MediaExcerpt)) :=
  mediaExcerptsAt (fun _ => db) ids

end Store

/-! ## Tables at their steps -/

section

variable (db : ReadStep → Store)

/-- The store whose tables are as the statements about media excerpts find them. -/
def excerptTables : Store :=
  { db .mediaExcerpts with
    urlLocators := (db .locators).urlLocators
    urls := (db .locators).urls
    citations := (db .citations).citations
    sources := (db .citations).sources
    attempts := (db .attempts).attempts }

/-- The store whose tables are as the statements about URLs find them. -/
def urlTables : Store :=
  { db .urls with
    urlTargets := (db .urlTargets).urlTargets
    anchors := (db .urlTargets).anchors }

/-- In a store that does not change they are its tables. -/
@[simp]
theorem excerptTables_const (db : Store) : (excerptTables fun _ => db) = db := rfl

@[simp]
theorem urlTables_const (db : Store) : (urlTables fun _ => db) = db := rfl

theorem mediaExcerptsAt_eq (ids : List Id) :
    mediaExcerptsAt db ids = (do
      Logged.ofExcept (mediaExcerptsById ids).send
      Logged.ofExcept (locatorsByExcerpt ids).send
      Logged.ofExcept (citationsByExcerpt ids).send
      Logged.ofExcept (attemptsByLocator (((excerptTables db).locatorsOf ids).map (·.1.id))).send
      (excerptTables db).findMediaExcerpts ids) := rfl

theorem writQuoteUrlsAt_eq (quotes : List Id) :
    writQuoteUrlsAt db quotes = (do
      (urlsByQuote quotes).send
      (urlTargetsByPair (urlPairs ((urlTables db).findUrls quotes))).send
      return (urlTables db).findWritQuoteUrls quotes) := by
  simp only [writQuoteUrlsAt, Store.readUrls, Store.readUrlTargets, bind_assoc, pure_bind]
  rfl

end

end Rationale
