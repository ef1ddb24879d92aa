/-
  Rationale — the log of attempts to find quotations.

  A locator must be live to get an attempt (`Store.record`) or to be asked for
  its status (`Store.locatorStatus`).  The log only grows, and the status is
  worked out from it each time.

  * `history` are the attempts of some locators, the earliest first as stored;
  * `attempts_of_record`: what is recorded is added at the end of the log, and
    nothing else changes.
-/
import Rationale.Confirmation
import Rationale.Store.Row
import Rationale.Text.Order

namespace Rationale

open Time

/-! ## Attempts as stored -/

/-- The date is decoded before the verdict. -/
def AttemptRow.decode (r : AttemptRow) : Except Fault Attempt :=
  return {
    id := r.id
    locatorId := r.locatorId
    completeAt := ← Instant.decode r.completeAt
    verdict := ← Coded.decode r.verdict
    quotation := r.quotation
    foundQuotation := r.foundQuotation
    errorMessage := r.errorMessage }

def Attempt.row (a : Attempt) : AttemptRow where
  id := a.id
  locatorId := a.locatorId
  completeAt := a.completeAt.stored
  verdict := Coded.text a.verdict
  quotation := a.quotation
  foundQuotation := a.foundQuotation
  errorMessage := a.errorMessage

/-- The order of completion as stored, and then of entry. -/
def AttemptRow.notAfter (a b : AttemptRow) : Bool :=
  Text.lt a.completeAt b.completeAt || (a.completeAt = b.completeAt && a.id ≤ b.id)

/-- An attempt that is not in the log yet. -/
structure NewAttempt where
  locatorId : Id
  completeAt : Instant
  verdict : Verdict
  quotation : String
  foundQuotation : Option String
  errorMessage : Option String
deriving DecidableEq, Repr

namespace Store

variable (db : Store)

/-! ## Reading -/

/-- The attempts of the locators `ids`. -/
def history (ids : List Id) : Except Fault (List Attempt) :=
  ((db.attempts.filter (·.locatorId ∈ ids)).mergeSort AttemptRow.notAfter).mapM AttemptRow.decode

/-- The locator with that id, which has to be there. -/
def locator (i : Id) : Except Fault UrlLocatorRow :=
  match db.urlLocators.row? i with
  | some l => .ok l
  | none => .error (.noEntity .urlLocator i)

def locatorStatus (i : Id) : Logged LocatorStatus := do
  let _ ← Logged.ofExcept (db.locator i)
  let attempts ← Logged.ofExcept (db.history [i])
  Logged.warn (LocatorStatus.warnings attempts)
  return .ofHistory attempts

/-! ## Recording -/

/-- One more than the largest number in the log. -/
def nextAttemptId : Id :=
  match (db.attempts.map (·.id)).max? with
  | some i => i + 1
  | none => 1

/-- Adds an attempt to the log. -/
def record (new : NewAttempt) : Except Fault (Attempt × Store) := do
  let _ ← db.locator new.locatorId
  let a : Attempt := {
    id := db.nextAttemptId
    locatorId := new.locatorId
    completeAt := new.completeAt
    verdict := new.verdict
    quotation := new.quotation
    foundQuotation := new.foundQuotation
    errorMessage := new.errorMessage }
  return (a, { db with attempts := db.attempts ++ [a.row] })

theorem attempts_of_record {db db' : Store} {new : NewAttempt} {a : Attempt}
    (h : db.record new = .ok (a, db')) : db' = { db with attempts := db.attempts ++ [a.row] } := by
  unfold record at h
  cases hl : db.locator new.locatorId with
  | error e => rw [hl] at h; cases h
  | ok l =>
    rw [hl] at h
    cases h
    rfl

end Store

end Rationale
