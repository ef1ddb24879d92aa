/-
  Rationale — what the status of a locator means.

  A scan of the attempts comes to what going back through them, run by run, comes
  to.  `Means history status` says what that is without any order of attempts:
  from the instants at which attempts found the quotation and at which they did
  not (`endedAt`), with one rule for each status.

  Going back, a run of successes ends at the first failure.  Since of two
  attempts at one instant the success comes later, these are the successes that
  no failure is after (`times_foundRun`), and a run of failures are those after
  the last success (`times_missedRun`).

  * `LocatorStatus.ofHistory_eq_iff`: the status of a history is the one that it
    means, and it means no other.
-/
import Mathlib.Data.List.TakeWhile
import Mathlib.Order.Bounds.Basic
import Rationale.Proofs.Histories

namespace Rationale

open Time

/-- Instants are in a linear order. -/
instance Time.Instant.instLinearOrder : LinearOrder Instant where
  le_refl := Instant.le_refl
  le_trans _ _ _ := Instant.le_trans
  lt_iff_le_not_ge a b := by
    rw [Instant.lt_def, Instant.le_def, Instant.le_def]
    omega
  le_antisymm _ _ := Instant.le_antisymm
  le_total := Instant.le_total
  toDecidableLE := inferInstance

/-! ## Instants of attempts -/

namespace Attempt

/-- When attempts ended with the verdict. -/
def endedAt (history : List Attempt) (v : Verdict) : Set Instant :=
  {t | ∃ a ∈ history, a.verdict = v ∧ a.completeAt = t}

/-- Of the attempts that found the quotation at an instant, the last one. -/
def lastFound? (history : List Attempt) (t : Instant) : Option Attempt :=
  (history.filter fun a => a.isFound ∧ a.completeAt = t).getLast?

end Attempt

namespace LocatorStatus

open Attempt

/-- What a history means. -/
inductive Means (history : List Attempt) : LocatorStatus → Prop
  | neverTried : endedAt history .found = ∅ → endedAt history .notFound = ∅ →
      Means history .neverTried
  | neverFound {w : Window} : endedAt history .found = ∅ →
      IsLeast (endedAt history .notFound) w.earliest →
      IsGreatest (endedAt history .notFound) w.latest → Means history (.neverFound w)
  | found {w : Window} : IsGreatest (endedAt history .found) w.latest →
      (∀ n ∈ endedAt history .notFound, n ≤ w.latest) →
      IsLeast {t ∈ endedAt history .found | ∀ n ∈ endedAt history .notFound, n ≤ t} w.earliest →
      Means history (.found ((lastFound? history w.latest).map quoted) w)
  | previouslyFound {f n : Window} : IsGreatest (endedAt history .found) f.latest →
      IsGreatest (endedAt history .notFound) n.latest → f.latest < n.latest →
      IsLeast {t ∈ endedAt history .found |
        ∀ m ∈ endedAt history .notFound, m ≤ f.latest → m ≤ t} f.earliest →
      IsLeast {t ∈ endedAt history .notFound | f.latest < t} n.earliest →
      Means history (.previouslyFound ((lastFound? history f.latest).map quoted) f n)

/-- A history means one status at the most. -/
theorem Means.unique {history : List Attempt} {s s' : LocatorStatus} (h : Means history s)
    (h' : Means history s') : s = s' := by
  have hempty : ∀ {S : Set Instant} {t : Instant}, S = ∅ → t ∉ S := by
    rintro S t rfl
    exact Set.notMem_empty t
  cases h with
  | neverTried hf hn =>
    cases h' with
    | neverTried => rfl
    | neverFound _ _ hn' => exact absurd hn'.1 (hempty hn)
    | found hf' => exact absurd hf'.1 (hempty hf)
    | previouslyFound hf' => exact absurd hf'.1 (hempty hf)
  | @neverFound w hf hleast hgreatest =>
    cases h' with
    | neverTried _ hn => exact absurd hgreatest.1 (hempty hn)
    | @neverFound w' _ hleast' hgreatest' =>
      cases w
      cases w'
      cases hleast.unique hleast'
      cases hgreatest.unique hgreatest'
      rfl
    | found hf' => exact absurd hf'.1 (hempty hf)
    | previouslyFound hf' => exact absurd hf'.1 (hempty hf)
  | @found w hgreatest hn hleast =>
    cases h' with
    | neverTried hf => exact absurd hgreatest.1 (hempty hf)
    | neverFound hf => exact absurd hgreatest.1 (hempty hf)
    | @found w' hgreatest' _ hleast' =>
      cases w
      cases w'
      cases hleast.unique hleast'
      cases hgreatest.unique hgreatest'
      rfl
    | previouslyFound hgreatest' hn' hlt =>
      rw [hgreatest.unique hgreatest'] at hn
      exact absurd (hn _ hn'.1) (not_le_of_gt hlt)
  | @previouslyFound f n hf hn hlt hfleast hnleast =>
    cases h' with
    | neverTried hf' => exact absurd hf.1 (hempty hf')
    | neverFound hf' => exact absurd hf.1 (hempty hf')
    | found hf' hn' =>
      rw [hf'.unique hf] at hn'
      exact absurd (hn' _ hn.1) (not_le_of_gt hlt)
    | @previouslyFound f' n' hf' hn' _ hfleast' hnleast' =>
      cases f
      cases f'
      cases n
      cases n'
      cases hf.unique hf'
      cases hn.unique hn'
      cases hfleast.unique hfleast'
      cases hnleast.unique hnleast'
      rfl

end LocatorStatus

/-! ## Going back -/

namespace Attempt

variable {history l run rest : List Attempt} {a f : Attempt} {t : Instant} {v : Verdict}

/-- Attempts that ended with a verdict, the latest first. -/
structure LatestFirst (l : List Attempt) : Prop where
  noError : ∀ a ∈ l, a.verdict ≠ .error
  pairwise : l.Pairwise fun a b => notAfter b a = true

theorem latestFirst_inOrder (history : List Attempt) : LatestFirst (inOrder history).reverse where
  noError _ ha := (mem_inOrder.1 (List.mem_reverse.1 ha)).2
  pairwise := List.pairwise_reverse.2 <|
    List.pairwise_mergeSort linear_notAfter.trans linear_notAfter.total _

theorem endedAt_inOrder (hv : v ≠ .error) :
    endedAt (inOrder history).reverse v = endedAt history v := by
  ext t
  constructor
  · rintro ⟨a, ha, rfl, ht⟩
    exact ⟨a, (mem_inOrder.1 (List.mem_reverse.1 ha)).1, rfl, ht⟩
  · rintro ⟨a, ha, rfl, ht⟩
    exact ⟨a, List.mem_reverse.2 (mem_inOrder.2 ⟨ha, hv⟩), rfl, ht⟩

/-- Sorting keeps the successes of one instant in their order, so that going back
    the last of them is met first. -/
theorem lastFound?_eq (history : List Attempt) (t : Instant) :
    lastFound? history t =
      (inOrder history).reverse.find? fun a => a.isFound ∧ a.completeAt = t := by
  have hsorted : (inOrder history).filter (fun a => a.isFound ∧ a.completeAt = t) =
      history.filter fun a => a.isFound ∧ a.completeAt = t := by
    rw [inOrder, ← Sorting.mergeSort_filter linear_notAfter, List.filter_filter,
      List.mergeSort_of_pairwise]
    · refine List.filter_congr fun a _ => ?_
      cases hv : a.verdict <;> simp [isFound, hv]
    · refine List.pairwise_of_forall_mem_list fun a ha b hb => ?_
      simp only [List.mem_filter, Bool.and_eq_true, decide_eq_true_eq] at ha hb
      refine notAfter_iff.2 ⟨?_, fun _ _ => hb.2.1.1⟩
      rw [ha.2.1.2, hb.2.1.2]
  rw [lastFound?, ← hsorted, ← List.head?_filter, List.filter_reverse, List.head?_reverse]

namespace LatestFirst

theorem of_append_right (h : LatestFirst (run ++ rest)) : LatestFirst rest where
  noError a ha := h.noError a (List.mem_append_right run ha)
  pairwise := (List.pairwise_append.1 h.pairwise).2.1

theorem of_append_left (h : LatestFirst (run ++ rest)) : LatestFirst run where
  noError a ha := h.noError a (List.mem_append_left rest ha)
  pairwise := (List.pairwise_append.1 h.pairwise).1

theorem verdict_eq (h : LatestFirst l) (ha : a ∈ l) (hfound : a.isFound = false) :
    a.verdict = .notFound := by
  have herror := h.noError a ha
  cases hv : a.verdict with
  | found => simp [isFound, hv] at hfound
  | notFound => rfl
  | error => exact absurd hv herror

theorem le_head (h : LatestFirst (a :: l)) : ∀ b ∈ a :: l, b.completeAt ≤ a.completeAt := by
  intro b hb
  rcases List.mem_cons.1 hb with rfl | hb
  · exact le_rfl
  · exact (notAfter_iff.1 ((List.pairwise_cons.1 h.pairwise).1 b hb)).1

end LatestFirst

/-! ## Runs -/

/-- When the attempts were completed. -/
def times (l : List Attempt) : Set Instant :=
  {t | ∃ a ∈ l, a.completeAt = t}

theorem isGreatest_ofRun (h : LatestFirst (a :: run)) :
    IsGreatest (times (a :: run)) (Window.ofRun a run).latest := by
  refine ⟨⟨a, List.mem_cons_self, rfl⟩, ?_⟩
  rintro _ ⟨b, hb, rfl⟩
  exact h.le_head b hb

theorem isLeast_ofRun (h : LatestFirst (a :: run)) :
    IsLeast (times (a :: run)) (Window.ofRun a run).earliest := by
  refine ⟨⟨_, List.getLast_mem _, rfl⟩, ?_⟩
  rintro _ ⟨b, hb, rfl⟩
  show ((a :: run).getLast _).completeAt ≤ b.completeAt
  rw [← List.dropLast_append_getLast (List.cons_ne_nil a run), List.mem_append,
    List.mem_singleton] at hb
  rcases hb with hb | rfl
  · have hpairs := h.pairwise
    rw [← List.dropLast_append_getLast (List.cons_ne_nil a run), List.pairwise_append] at hpairs
    exact (notAfter_iff.1 (hpairs.2.2 b hb _ (List.mem_singleton_self _))).1
  · exact le_rfl

/-- **A run of successes**, going back: those that no failure is after. -/
theorem times_foundRun (h : LatestFirst (run ++ rest)) (hrun : ∀ a ∈ run, a.isFound = true)
    (hrest : ∀ b ∈ rest.head?, b.isFound = false) :
    times run = {t ∈ endedAt (run ++ rest) .found |
      ∀ n ∈ endedAt (run ++ rest) .notFound, n ≤ t} := by
  obtain ⟨-, hpairs, hcross⟩ := List.pairwise_append.1 h.pairwise
  ext t
  constructor
  · rintro ⟨a, ha, rfl⟩
    refine ⟨⟨a, List.mem_append_left rest ha, isFound_iff.1 (hrun a ha), rfl⟩, ?_⟩
    rintro _ ⟨b, hb, hv, rfl⟩
    rcases List.mem_append.1 hb with hb | hb
    · have hfound := isFound_iff.1 (hrun b hb)
      rw [hv] at hfound
      cases hfound
    · exact (notAfter_iff.1 (hcross a ha b hb)).1
  · rintro ⟨⟨a, ha, hv, rfl⟩, hle⟩
    have hfound := isFound_iff.2 hv
    rcases List.mem_append.1 ha with ha | ha
    · exact ⟨a, ha, rfl⟩
    -- any other success is before the failure at which the run ends
    · cases rest with
      | nil => cases ha
      | cons b rest =>
        have hb : b.isFound = false := hrest b rfl
        have hmem : b ∈ run ++ b :: rest := by simp
        rcases List.mem_cons.1 ha with rfl | ha
        · rw [hfound] at hb
          cases hb
        · have hba := notAfter_iff.1 ((List.pairwise_cons.1 hpairs).1 a ha)
          rw [hba.2 (hle _ ⟨b, hmem, h.verdict_eq hmem hb, rfl⟩) hfound] at hb
          cases hb

/-- **A run of failures**, going back: those after the last success. -/
theorem times_missedRun (h : LatestFirst (run ++ f :: rest))
    (hrun : ∀ a ∈ run, a.isFound = false) (hf : f.isFound = true) :
    times run = {t ∈ endedAt (run ++ f :: rest) .notFound | f.completeAt < t} := by
  obtain ⟨-, -, hcross⟩ := List.pairwise_append.1 h.pairwise
  ext t
  constructor
  · rintro ⟨a, ha, rfl⟩
    have hmem : a ∈ run ++ f :: rest := List.mem_append_left _ ha
    refine ⟨⟨a, hmem, h.verdict_eq hmem (hrun a ha), rfl⟩, ?_⟩
    obtain ⟨hle, hfound⟩ := notAfter_iff.1 (hcross a ha f List.mem_cons_self)
    refine lt_of_le_not_ge hle fun hge => ?_
    have ha' := hrun a ha
    rw [hfound hge hf] at ha'
    cases ha'
  · rintro ⟨⟨a, ha, hv, rfl⟩, hlt⟩
    rcases List.mem_append.1 ha with ha | ha
    · exact ⟨a, ha, rfl⟩
    · exact absurd (h.of_append_right.le_head a ha) (not_le_of_gt hlt)

theorem endedAt_of_missed (h : LatestFirst run) (hrun : ∀ a ∈ run, a.isFound = false) :
    endedAt run .notFound = times run := by
  ext t
  constructor
  · rintro ⟨a, ha, -, ht⟩
    exact ⟨a, ha, ht⟩
  · rintro ⟨a, ha, ht⟩
    exact ⟨a, ha, h.verdict_eq ha (hrun a ha), ht⟩

/-- The successes are all in what comes before a run of failures. -/
theorem endedAt_found_append (hrun : ∀ a ∈ run, a.isFound = false) :
    endedAt (run ++ rest) .found = endedAt rest .found := by
  ext t
  constructor
  · rintro ⟨a, ha, hv, ht⟩
    rcases List.mem_append.1 ha with ha | ha
    · have hmissed := hrun a ha
      rw [isFound_iff.2 hv] at hmissed
      cases hmissed
    · exact ⟨a, ha, hv, ht⟩
  · rintro ⟨a, ha, hv, ht⟩
    exact ⟨a, List.mem_append_right run ha, hv, ht⟩

/-- The failures before a run of failures are those not after the last success. -/
theorem mem_endedAt_notFound_iff (h : LatestFirst (run ++ f :: rest))
    (hrun : ∀ a ∈ run, a.isFound = false) (hf : f.isFound = true) :
    t ∈ endedAt (f :: rest) .notFound ↔
      t ∈ endedAt (run ++ f :: rest) .notFound ∧ t ≤ f.completeAt := by
  constructor
  · rintro ⟨a, ha, hv, rfl⟩
    exact ⟨⟨a, List.mem_append_right run ha, hv, rfl⟩, h.of_append_right.le_head a ha⟩
  · rintro ⟨⟨a, ha, hv, rfl⟩, hle⟩
    rcases List.mem_append.1 ha with ha | ha
    · have hlate : a.completeAt ∈ times run := ⟨a, ha, rfl⟩
      rw [times_missedRun h hrun hf] at hlate
      exact absurd hle (not_le_of_gt hlate.2)
    · exact ⟨a, ha, hv, rfl⟩

theorem isGreatest_endedAt (h : LatestFirst (a :: rest)) :
    IsGreatest (endedAt (a :: rest) a.verdict) a.completeAt := by
  refine ⟨⟨a, List.mem_cons_self, rfl, rfl⟩, ?_⟩
  rintro _ ⟨b, hb, -, rfl⟩
  exact h.le_head b hb

/-- Where a run ends. -/
theorem exists_run (p : Attempt → Bool) (l : List Attempt) : ∃ run rest, l = run ++ rest ∧
    l.takeWhile p = run ∧ l.dropWhile p = rest ∧ (∀ a ∈ run, p a = true) ∧
      ∀ b ∈ rest.head?, p b = false := by
  refine ⟨_, _, List.takeWhile_append_dropWhile.symm, rfl, rfl, fun a => List.mem_takeWhile_imp, ?_⟩
  intro b hb
  rw [← List.find?_not_eq_head?_dropWhile] at hb
  simpa using List.find?_some hb

/-- The last run of successes, if the last attempt was one. -/
theorem isLeast_foundRun (h : LatestFirst (f :: rest)) (hf : f.isFound = true) :
    IsLeast {t ∈ endedAt (f :: rest) .found | ∀ n ∈ endedAt (f :: rest) .notFound, n ≤ t}
      (Window.ofRun f (rest.takeWhile isFound)).earliest ∧
    ∀ n ∈ endedAt (f :: rest) .notFound, n ≤ f.completeAt := by
  obtain ⟨run, rest, rfl, htake, -, hrun, hend⟩ := exists_run isFound rest
  have hsplit : LatestFirst (f :: run ++ rest) := h
  have htimes := times_foundRun hsplit (List.forall_mem_cons.2 ⟨hf, hrun⟩) hend
  have hfirst : f.completeAt ∈ times (f :: run) := ⟨f, List.mem_cons_self, rfl⟩
  rw [List.cons_append] at htimes
  rw [htake]
  constructor
  · rw [← htimes]
    exact isLeast_ofRun hsplit.of_append_left
  · rw [htimes] at hfirst
    exact hfirst.2

end Attempt

namespace LocatorStatus

open Attempt

variable {history before : List Attempt} {a : Attempt}

/-- The attempts, the latest first, are those of the history. -/
structure Replays (l history : List Attempt) : Prop where
  latestFirst : LatestFirst l
  endedAt : ∀ v ≠ .error, endedAt l v = endedAt history v
  lastFound? : ∀ t, lastFound? history t = l.find? fun a => a.isFound ∧ a.completeAt = t

theorem replays_inOrder (history : List Attempt) :
    Replays (inOrder history).reverse history where
  latestFirst := latestFirst_inOrder history
  endedAt _ := endedAt_inOrder
  lastFound? := lastFound?_eq history

theorem Replays.means_of_found (h : Replays (a :: before) history) (ha : a.isFound = true) :
    Means history (.found (some a.quoted) (.ofRun a (before.takeWhile isFound))) := by
  obtain ⟨hearliest, hle⟩ := isLeast_foundRun h.latestFirst ha
  have hgreatest := isGreatest_endedAt h.latestFirst
  rw [isFound_iff.1 ha] at hgreatest
  rw [h.endedAt .notFound (by decide)] at hle hearliest
  rw [h.endedAt .found (by decide)] at hgreatest hearliest
  have hquoted : (Attempt.lastFound? history a.completeAt).map quoted = some a.quoted := by
    rw [h.lastFound?, List.find?_cons_of_pos (by simp [ha])]
    rfl
  rw [← hquoted]
  exact .found hgreatest hle hearliest

theorem Replays.means_of_missed {run : List Attempt} (h : Replays (a :: run) history)
    (hrun : ∀ b ∈ a :: run, b.isFound = false) :
    Means history (.neverFound (.ofRun a run)) := by
  have htimes := endedAt_of_missed h.latestFirst hrun
  have hfound : Attempt.endedAt (a :: run ++ []) .found = Attempt.endedAt [] .found :=
    endedAt_found_append hrun
  rw [h.endedAt .notFound (by decide)] at htimes
  rw [List.append_nil, h.endedAt .found (by decide)] at hfound
  refine .neverFound ?_ ?_ ?_
  · rw [hfound]
    simp [Attempt.endedAt]
  · rw [htimes]
    exact isLeast_ofRun h.latestFirst
  · rw [htimes]
    exact isGreatest_ofRun h.latestFirst

theorem Replays.means_of_found_of_missed {run rest : List Attempt} {f : Attempt}
    (h : Replays (a :: run ++ f :: rest) history) (hrun : ∀ b ∈ a :: run, b.isFound = false)
    (hf : f.isFound = true) :
    Means history (.previouslyFound (some f.quoted) (.ofRun f (rest.takeWhile isFound))
      (.ofRun a run)) := by
  have hfirst := h.latestFirst
  have hverdict := hfirst.verdict_eq List.mem_cons_self (hrun a List.mem_cons_self)
  have hmissed := times_missedRun hfirst hrun hf
  have hfoundAt : Attempt.endedAt (a :: run ++ f :: rest) .found =
      Attempt.endedAt (f :: rest) .found := endedAt_found_append hrun
  have hmissedAt := fun t => mem_endedAt_notFound_iff (t := t) hfirst hrun hf
  rw [h.endedAt .notFound (by decide)] at hmissed hmissedAt
  rw [h.endedAt .found (by decide)] at hfoundAt
  have hlastFound := isGreatest_endedAt hfirst.of_append_right
  rw [isFound_iff.1 hf, ← hfoundAt] at hlastFound
  have hlast : IsGreatest (Attempt.endedAt (a :: run ++ f :: rest) a.verdict) a.completeAt :=
    isGreatest_endedAt hfirst
  rw [hverdict, h.endedAt .notFound (by decide)] at hlast
  have hsince := isLeast_ofRun hfirst.of_append_left
  have hafter : a.completeAt ∈ times (a :: run) := ⟨a, List.mem_cons_self, rfl⟩
  rw [hmissed] at hsince hafter
  obtain ⟨hearliest, -⟩ := isLeast_foundRun hfirst.of_append_right hf
  simp only [← hfoundAt, hmissedAt, and_imp] at hearliest
  have hquoted : (Attempt.lastFound? history f.completeAt).map quoted = some f.quoted := by
    rw [h.lastFound?, List.find?_append, List.find?_eq_none.2 fun b hb => by simp [hrun b hb],
      List.find?_cons_of_pos (by simp [hf])]
    rfl
  rw [← hquoted]
  exact .previouslyFound hlastFound hlast hafter.2 hearliest hsince

/-- **Going back through the attempts gives what they mean.** -/
theorem Replays.means_ofLatest {l : List Attempt} (h : Replays l history) :
    Means history (ofLatest l) := by
  cases l with
  | nil =>
    refine .neverTried ?_ ?_
    · rw [← h.endedAt .found (by decide)]
      simp [Attempt.endedAt]
    · rw [← h.endedAt .notFound (by decide)]
      simp [Attempt.endedAt]
  | cons a before =>
    rw [ofLatest]
    split
    · rename_i ha
      exact h.means_of_found ha
    · rename_i ha
      obtain ⟨run, rest, rfl, htake, hdrop, hrun, hend⟩ := exists_run (!·.isFound) before
      have hmissed : ∀ b ∈ a :: run, b.isFound = false := by
        simpa [ha] using hrun
      rw [htake, hdrop]
      cases rest with
      | nil =>
        rw [List.append_nil] at h
        exact h.means_of_missed hmissed
      | cons f rest => exact h.means_of_found_of_missed hmissed (by simpa using hend)

/-- **The status of a history is the one that it means**, and it means no other. -/
theorem ofHistory_eq_iff {s : LocatorStatus} : ofHistory history = s ↔ Means history s := by
  rw [ofHistory_eq_ofLatest]
  have hmeans := (replays_inOrder history).means_ofLatest
  constructor
  · rintro rfl
    exact hmeans
  · exact hmeans.unique

end LocatorStatus

end Rationale
