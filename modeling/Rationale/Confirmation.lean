/-
  Rationale — attempts to find a quotation at a URL, and the status of a
  locator.

  Each attempt is recorded once.  The status of a locator is never stored: it
  is what its attempts say (`LocatorStatus.ofHistory`).  Attempts that ended in
  an error say nothing.  The others are put in the order of their completion,
  where of two at the same instant the one that found nothing comes first, and
  are scanned: the last run of equal verdicts decides, and if it found nothing,
  the run before it tells when the quotation was last there.

  * `inOrder_perm`: ordering drops the errors and nothing else;
  * `ofHistory_eq_ofLatest`: the scan says what the attempts say when they are
    read from the latest back;
  * `ofHistory_eq_neverTried_iff`: a locator counts as never tried if and only
    if every attempt ended in an error.
-/
import Rationale.Fault

namespace Rationale

open Time

/-! ## Attempts -/

/-- A completed attempt to find `quotation` at a locator. -/
structure Attempt where
  id : Id
  locatorId : Id
  completeAt : Instant
  verdict : Verdict
  quotation : String
  /-- The text that was found, if it differs from the quotation. -/
  foundQuotation : Option String
  errorMessage : Option String
deriving DecidableEq, Repr

namespace Attempt

def isFound (a : Attempt) : Bool :=
  a.verdict = .found

theorem isFound_iff {a : Attempt} : a.isFound = true ↔ a.verdict = .found :=
  decide_eq_true_iff

theorem isFound_eq_false_iff {a : Attempt} : a.isFound = false ↔ a.verdict ≠ .found :=
  decide_eq_false_iff_not

/-- The text that the attempt found, or else looked for. -/
def quoted (a : Attempt) : String :=
  a.foundQuotation.getD a.quotation

/-- The order of completion; at the same instant, a success comes last. -/
def notAfter (a b : Attempt) : Bool :=
  a.completeAt < b.completeAt || (a.completeAt = b.completeAt && (!a.isFound || b.isFound))

/-- The attempts that ended with a verdict on the quotation, as completed. -/
def inOrder (history : List Attempt) : List Attempt :=
  (history.filter (·.verdict ≠ .error)).mergeSort notAfter

theorem inOrder_perm (history : List Attempt) :
    (inOrder history).Perm (history.filter (·.verdict ≠ .error)) :=
  List.mergeSort_perm _ _

theorem mem_inOrder {history : List Attempt} {a : Attempt} :
    a ∈ inOrder history ↔ a ∈ history ∧ a.verdict ≠ .error := by
  simp [inOrder]

end Attempt

/-! ## Status -/

/-- From the first to the last attempt of a run. -/
structure Window where
  earliest : Instant
  latest : Instant
deriving DecidableEq, Repr

inductive LocatorStatus where
  | neverTried
  | neverFound (notFound : Window)
  | found (quotation : Option String) (found : Window)
  | previouslyFound (quotation : Option String) (found notFound : Window)
deriving DecidableEq, Repr

/-! ## Scanning -/

/-- A run of attempts with one verdict. -/
structure Run where
  verdict : Verdict
  window : Window
  /-- The last attempt of the run, if it found the quotation. -/
  lastFound : Option Attempt
deriving DecidableEq, Repr

namespace Run

/-- The run that starts with an attempt. -/
def start (a : Attempt) : Run :=
  ⟨a.verdict, ⟨a.completeAt, a.completeAt⟩, if a.isFound then some a else none⟩

/-- One more attempt with the verdict of the run. -/
def extend (r : Run) (a : Attempt) : Run :=
  { r with
    window := ⟨r.window.earliest, a.completeAt⟩
    lastFound := if a.isFound then some a else r.lastFound }

def quotation (r : Run) : Option String :=
  r.lastFound.map Attempt.quoted

end Run

/-- What a scan remembers of the attempts behind it. -/
structure Scan where
  /-- The run in progress. -/
  current : Option Run := none
  /-- The last run before it that found the quotation. -/
  previousFound : Option Run := none
deriving DecidableEq, Repr

namespace Scan

def add (s : Scan) (a : Attempt) : Scan :=
  match s.current with
  | none => { s with current := some (.start a) }
  | some run =>
    if run.verdict = a.verdict then { s with current := some (run.extend a) }
    else ⟨some (.start a), if run.verdict = .found then some run else s.previousFound⟩

/-- The status once all attempts have been scanned. -/
def status (s : Scan) : LocatorStatus :=
  match s.current, s.previousFound with
  | none, _ => .neverTried
  | some run, previous =>
    if run.verdict = .found then .found run.quotation run.window
    else
      match previous with
      | some found => .previouslyFound found.quotation found.window run.window
      | none => .neverFound run.window

end Scan

/-! ## From the latest back -/

/-- The window of a run that starts with the attempt `a` and goes back. -/
def Window.ofRun (a : Attempt) (run : List Attempt) : Window :=
  ⟨((a :: run).getLast (List.cons_ne_nil _ _)).completeAt, a.completeAt⟩

namespace LocatorStatus

/-- The status of a locator with that history. -/
def ofHistory (history : List Attempt) : LocatorStatus :=
  ((Attempt.inOrder history).foldl Scan.add {}).status

/-- The status that the attempts say, the latest first. -/
def ofLatest : List Attempt → LocatorStatus
  | [] => neverTried
  | a :: before =>
    if a.isFound then
      found (some a.quoted) (.ofRun a (before.takeWhile Attempt.isFound))
    else
      let notFound := Window.ofRun a (before.takeWhile (!·.isFound))
      match before.dropWhile (!·.isFound) with
      | [] => neverFound notFound
      | f :: before =>
        previouslyFound (some f.quoted) (.ofRun f (before.takeWhile Attempt.isFound)) notFound

end LocatorStatus

/-- The run with which the attempts end, the latest first. -/
def Run.ofLatest : List Attempt → Option Run
  | [] => none
  | a :: before => some {
      verdict := a.verdict
      window := .ofRun a (before.takeWhile (·.verdict = a.verdict))
      lastFound := if a.isFound then some a else none }

namespace Scan

/-- What a scan remembers of attempts, the latest first. -/
def ofLatest : List Attempt → Scan
  | [] => {}
  | a :: before => {
      current := Run.ofLatest (a :: before)
      previousFound :=
        Run.ofLatest ((before.dropWhile (·.verdict = a.verdict)).dropWhile (!·.isFound)) }

/-- What is not found goes with the rest that is not. -/
theorem dropWhile_verdict {a : Attempt} (ha : a.isFound = false) (before : List Attempt) :
    (before.dropWhile (·.verdict = a.verdict)).dropWhile (!·.isFound) =
      before.dropWhile (!·.isFound) := by
  induction before with
  | nil => rfl
  | cons b before ih =>
    by_cases hv : b.verdict = a.verdict
    · have hb : b.isFound = false := by rw [Attempt.isFound, hv, ← Attempt.isFound, ha]
      rw [List.dropWhile_cons_of_pos (by simpa using hv), ih,
        List.dropWhile_cons_of_pos (by simpa using hb)]
    · rw [List.dropWhile_cons_of_neg (by simpa using hv)]

/-- **One more attempt** is the latest of all. -/
theorem add_ofLatest (a : Attempt) (before : List Attempt) :
    (ofLatest before).add a = ofLatest (a :: before) := by
  cases before with
  | nil => rfl
  | cons b before =>
    by_cases hv : b.verdict = a.verdict
    · have hb : b.isFound = a.isFound := by rw [Attempt.isFound, Attempt.isFound, hv]
      cases ha : a.isFound <;>
        simp [add, ofLatest, Run.ofLatest, Run.extend, Window.ofRun, hv, hb, ha]
    · cases hb : b.isFound with
      | true =>
        have hfound : b.verdict = .found := Attempt.isFound_iff.1 hb
        have hne : ¬ .found = a.verdict := hfound ▸ hv
        simp [add, ofLatest, Run.ofLatest, Run.start, Window.ofRun, hfound, hb, hne]
      | false =>
        have hnot : ¬ b.verdict = .found := Attempt.isFound_eq_false_iff.1 hb
        simp only [add, ofLatest, Run.ofLatest, hv, hnot, if_false, dropWhile_verdict hb]
        simp [Run.start, Window.ofRun, hv, hb]

theorem foldl_add (as : List Attempt) : as.foldl add {} = ofLatest as.reverse := by
  rw [← List.foldr_reverse]
  induction as.reverse with
  | nil => rfl
  | cons a before ih => rw [List.foldr_cons, ih, add_ofLatest]

/-- Without errors, what does not find the quotation is not found. -/
theorem takeWhile_notFound {before : List Attempt} (h : ∀ a ∈ before, a.verdict ≠ .error) :
    before.takeWhile (·.verdict = .notFound) = before.takeWhile (!·.isFound) := by
  induction before with
  | nil => rfl
  | cons a before ih =>
    obtain ⟨ha, hbefore⟩ := List.forall_mem_cons.1 h
    have heq : decide (a.verdict = .notFound) = !a.isFound := by
      cases hv : a.verdict <;> simp_all [Attempt.isFound]
    rw [List.takeWhile_cons, List.takeWhile_cons, heq, ih hbefore]

/-- The status of attempts without errors, the latest first. -/
theorem status_ofLatest {as : List Attempt} (h : ∀ a ∈ as, a.verdict ≠ .error) :
    (ofLatest as).status = .ofLatest as := by
  cases as with
  | nil => rfl
  | cons a before =>
    obtain ⟨hne, hbefore⟩ := List.forall_mem_cons.1 h
    cases ha : a.isFound with
    | true =>
      have hfound : a.verdict = .found := Attempt.isFound_iff.1 ha
      simp [status, ofLatest, LocatorStatus.ofLatest, Run.ofLatest, Run.quotation, hfound, ha]
      rfl
    | false =>
      have hnot : a.verdict = .notFound := by cases hv : a.verdict <;> simp_all [Attempt.isFound]
      simp only [status, ofLatest, dropWhile_verdict ha]
      simp only [Run.ofLatest, LocatorStatus.ofLatest, hnot, ha, takeWhile_notFound hbefore]
      cases hdrop : before.dropWhile (!·.isFound) with
      | nil => simp
      | cons f earlier =>
        have hf : f.isFound = true := by
          have hhead :=
            List.head_dropWhile_not (l := before) (fun a => !a.isFound) (by simp [hdrop])
          simpa [hdrop] using hhead
        have hfound : f.verdict = .found := Attempt.isFound_iff.1 hf
        simp [Run.quotation, hf, hfound]
        rfl

end Scan

namespace LocatorStatus

/-- **The scan says what the attempts say** when they are read from the latest back. -/
theorem ofHistory_eq_ofLatest (history : List Attempt) :
    ofHistory history = ofLatest (Attempt.inOrder history).reverse := by
  rw [ofHistory, Scan.foldl_add]
  refine Scan.status_ofLatest fun a ha => ?_
  exact (Attempt.mem_inOrder.1 (List.mem_reverse.1 ha)).2

/-- A history of nothing but errors is reported. -/
def warnings (history : List Attempt) : List Warning :=
  match history with
  | [] => []
  | a :: _ =>
    if ofHistory history = neverTried then [.onlyErrors a.locatorId history.length] else []

theorem ofLatest_eq_neverTried_iff {attempts : List Attempt} :
    ofLatest attempts = neverTried ↔ attempts = [] := by
  cases attempts with
  | nil => simp [ofLatest]
  | cons a before =>
    simp only [ofLatest]
    split
    · simp
    · split <;> simp

theorem ofHistory_eq_neverTried_iff {history : List Attempt} :
    ofHistory history = neverTried ↔ ∀ a ∈ history, a.verdict = .error := by
  rw [ofHistory_eq_ofLatest, ofLatest_eq_neverTried_iff, List.reverse_eq_nil_iff,
    List.eq_nil_iff_forall_not_mem]
  simp only [Attempt.mem_inOrder]
  exact forall_congr' fun a => by simp

end LocatorStatus

end Rationale
