/-
  Rationale — runs of the log.

  Attempts on any locators are recorded in any order, whenever they were
  completed.  What a locator's status says depends on its own attempts alone,
  and on their order in the log only where they were completed at the same
  instant.

  * `Store.Holds`: the attempts that a log holds, and what is read from it;
  * `Store.recordAll_of_room`: what a run appends to the log;
  * `Store.statuses_of_recordAll`: the status of every locator after a run.
-/
import Mathlib.Algebra.Ring.Int.Defs
import Rationale.Proofs.Histories

namespace Rationale

open Time

/-! ## Logs -/

theorem exact_verdict : Coded.Exact Verdict := by decide

/-- A row that says what it was written from. -/
theorem AttemptRow.eq_row_of_decode {r : AttemptRow} {a : Attempt} (h : r.decode = .ok a)
    (hat : r.completeAt = a.completeAt.stored) : r = a.row := by
  obtain ⟨t, -, h⟩ := bind_eq_ok.1 h
  obtain ⟨v, hv, h⟩ := bind_eq_ok.1 h
  have hverdict := exact_verdict.decode_eq_ok.1 hv
  cases h
  cases r
  simp_all [Attempt.row]

namespace Store

variable {db : Store} {as own : List Attempt} {new : NewAttempt} {calls : List NewAttempt}

/-- The attempts in the log decode, and their dates are written as recording
    writes them. -/
def Legible (db : Store) : Prop :=
  ∀ r ∈ db.attempts, ∃ a, r.decode = .ok a ∧ r.completeAt = a.completeAt.stored

/-- The log holds the attempts, each in a year of four digits. -/
structure Holds (db : Store) (as : List Attempt) : Prop where
  rows : db.attempts = as.map Attempt.row
  years : ∀ a ∈ as, a.completeAt.FourDigits

theorem Legible.exists_holds (h : db.Legible) : ∃ as, db.Holds as := by
  obtain ⟨as, has⟩ := exists_mapM_eq_ok fun r hr => (h r hr).imp fun _ ha => ha.1
  have hrow : ∀ r ∈ db.attempts, ∀ a, r.decode = .ok a → a.row = r := by
    intro r hr a ha
    obtain ⟨b, hb, hat⟩ := h r hr
    cases ha.symm.trans hb
    exact (AttemptRow.eq_row_of_decode ha hat).symm
  refine ⟨as, ⟨?_, fun a ha => ?_⟩⟩
  · have hrows := mapM_map_eq_ok (g := pure) (h := Attempt.row)
      (fun r hr a ha => congrArg Except.ok (hrow r hr a ha).symm) has
    rw [List.mapM_pure, List.map_id'] at hrows
    exact Except.ok.inj hrows
  · obtain ⟨r, hr, hdecode⟩ := exists_of_mem_mapM has ha
    rw [← hrow r hr a hdecode] at hdecode
    exact (Attempt.decode_row_eq_ok.1 hdecode).2

namespace Holds

variable (h : db.Holds as)

include h

/-- What is selected from the log, in whatever order, decodes. -/
theorem mapM_decode (p : AttemptRow → Bool) (le : AttemptRow → AttemptRow → Bool) :
    ((db.attempts.filter p).mergeSort le).mapM AttemptRow.decode =
      .ok ((as.filter fun a => p a.row).mergeSort fun a b => le a.row b.row) := by
  have hsort := List.map_mergeSort (f := Attempt.row) (s := le)
    (l := as.filter fun a => p a.row) fun _ _ _ _ => rfl
  have hrows : (db.attempts.filter p).mergeSort le =
      ((as.filter fun a => p a.row).mergeSort fun a b => le a.row b.row).map Attempt.row := by
    rw [hsort, h.rows, List.filter_map]
    rfl
  rw [hrows, mapM_eq_ok, List.forall₂_map_left_iff, List.forall₂_same]
  intro a ha
  have hmem := (List.mem_filter.1 (List.mem_mergeSort.1 ha)).1
  exact Attempt.decode_row_eq_ok.2 ⟨rfl, h.years a hmem⟩

theorem history (ids : List Id) :
    db.history ids = .ok ((as.filter (·.locatorId ∈ ids)).mergeSort Attempt.listed) :=
  h.mapM_decode _ _

/-- **The status of a locator is that of its attempts in the order of entry.** -/
theorem locatorStatus {i : Id} {l : UrlLocatorRow} (hl : db.locator i = .ok l) :
    (db.locatorStatus i).result =
      .ok (.ofHistory ((as.filter (·.locatorId = i)).mergeSort Attempt.entered)) := by
  have hids : as.filter (·.locatorId ∈ [i]) = as.filter (·.locatorId = i) := by
    refine List.filter_congr fun a _ => ?_
    simp
  rw [result_locatorStatus, hl, ok_bind, h.history, hids, map_eq_ok]
  exact ⟨_, rfl, LocatorStatus.ofHistory_mergeSort _⟩

end Holds

/-! ## Room -/

/-- There are `n` more numbers after the largest in the log. -/
def HasRoom (db : Store) (n : Nat) : Prop :=
  n < 2 ^ 63 ∧ ∀ r ∈ db.attempts, r.id.toInt + n < 2 ^ 63

instance : Std.LawfulOrderLeftLeaningMax Id where
  max_eq_left a b h := by
    show (if a ≤ b then b else a) = a
    split
    · exact Int64.le_antisymm h ‹_›
    · rfl
  max_eq_right a b h := by
    show (if a ≤ b then b else a) = b
    exact if_pos (Int64.le_of_lt (Int64.not_le.1 h))

theorem toInt_succ {i : Id} (h : i.toInt + 1 < 2 ^ 63) : (i + 1).toInt = i.toInt + 1 := by
  have hlow := i.le_toInt
  rw [Int64.toInt_add]
  exact Int.bmod_eq_of_le (by simp; omega) (by simp; omega)

/-- The next number is larger than all in the log, and leaves room for one less. -/
theorem HasRoom.nextAttemptId {n : Nat} (h : db.HasRoom (n + 1)) :
    (∀ r ∈ db.attempts, r.id < db.nextAttemptId) ∧ db.nextAttemptId.toInt + n < 2 ^ 63 := by
  unfold Store.nextAttemptId
  cases hmax : (db.attempts.map (·.id)).max? with
  | none =>
    rw [List.max?_eq_none_iff, List.map_eq_nil_iff] at hmax
    have hn := h.1
    refine ⟨by simp [hmax], ?_⟩
    show (1 : Int) + n < 2 ^ 63
    omega
  | some m =>
    obtain ⟨hm, hle⟩ := List.max?_eq_some_iff.1 hmax
    obtain ⟨s, hs, rfl⟩ := List.mem_map.1 hm
    have hroom := h.2 s hs
    have hsucc : (s.id + 1).toInt = s.id.toInt + 1 := toInt_succ (by omega)
    refine ⟨fun r hr => ?_, ?_⟩
    · have hr := Int64.le_iff_toInt_le.1 (hle _ (List.mem_map_of_mem hr))
      rw [Int64.lt_iff_toInt_lt]
      dsimp only
      omega
    · dsimp only
      omega

/-! ## Runs -/

/-- Records an attempt; what fails leaves the store as it was. -/
def recordOne (db : Store) (new : NewAttempt) : Except Fault Attempt × Store :=
  match db.record new with
  | .ok (a, db') => (.ok a, db')
  | .error e => (.error e, db)

/-- Records attempts one after another: what each of them gave, and the store
    that they leave. -/
def recordAll (db : Store) : List NewAttempt → List (Except Fault Attempt) × Store
  | [] => ([], db)
  | new :: rest =>
    let one := db.recordOne new
    let others := one.2.recordAll rest
    (one.1 :: others.1, others.2)

/-- The attempts that a run records, in its order. -/
def recorded (db : Store) (calls : List NewAttempt) : List Attempt :=
  (db.recordAll calls).1.filterMap Except.toOption

/-- The locator of the call is live. -/
def accepts (db : Store) (new : NewAttempt) : Bool :=
  (db.urlLocators.row? new.locatorId).isSome

/-- The store with more attempts at the end of the log. -/
def append (db : Store) (as : List Attempt) : Store :=
  { db with attempts := db.attempts ++ as.map Attempt.row }

theorem append_append (as bs : List Attempt) : (db.append as).append bs = db.append (as ++ bs) := by
  simp [append]

theorem recordOne_of_not_accepts (h : db.accepts new = false) :
    db.recordOne new = (.error (.noEntity .urlLocator new.locatorId), db) := by
  have hnone : db.urlLocators.row? new.locatorId = none := by simpa [accepts] using h
  have hlocator : db.locator new.locatorId = .error (.noEntity .urlLocator new.locatorId) := by
    rw [locator, hnone]
  rw [recordOne, record, hlocator]
  rfl

theorem recordOne_of_accepts (h : db.accepts new = true) :
    db.recordOne new =
      (.ok (new.numbered db.nextAttemptId), db.append [new.numbered db.nextAttemptId]) := by
  obtain ⟨l, hl⟩ := Option.isSome_iff_exists.1 h
  have hlocator : db.locator new.locatorId = .ok l := by rw [locator, hl]
  rw [recordOne, record_eq_ok.2 ⟨⟨l, hlocator⟩, rfl, rfl⟩]
  rfl

theorem HasRoom.recordOne {n : Nat} (h : db.HasRoom (n + 1)) (new : NewAttempt) :
    (db.recordOne new).2.HasRoom n := by
  have hn := h.1
  cases hnew : db.accepts new with
  | false =>
    rw [recordOne_of_not_accepts hnew]
    refine ⟨by omega, fun r hr => ?_⟩
    have hr := h.2 r hr
    omega
  | true =>
    rw [recordOne_of_accepts hnew]
    refine ⟨by omega, fun r hr => ?_⟩
    rcases List.mem_append.1 hr with hr | hr
    · have hr := h.2 r hr
      omega
    · cases List.mem_singleton.1 hr
      exact h.nextAttemptId.2

theorem HasRoom.recordAll {n : Nat} (h : db.HasRoom (calls.length + n)) :
    (db.recordAll calls).2.HasRoom n := by
  induction calls generalizing db with
  | nil => simpa [Store.recordAll] using h
  | cons new calls ih =>
    have hroom : db.HasRoom (calls.length + n + 1) := by
      rwa [List.length_cons, Nat.add_right_comm] at h
    exact ih (hroom.recordOne new)

/-- The attempts `own` are what the calls ask for as far as their locators are
    live, and have numbers above those in the log, in the order of the calls. -/
structure Extends (db : Store) (calls : List NewAttempt) (own : List Attempt) : Prop where
  asked : own.map Attempt.unnumbered = calls.filter db.accepts
  ascending : own.Pairwise fun a b => a.id < b.id
  above : ∀ r ∈ db.attempts, ∀ a ∈ own, r.id < a.id

/-- **What a run appends to the log.**  Nothing else in the store changes. -/
theorem recordAll_of_room (h : db.HasRoom calls.length) :
    (db.recordAll calls).2 = db.append (db.recorded calls) ∧
      db.Extends calls (db.recorded calls) := by
  induction calls generalizing db with
  | nil => exact ⟨by simp [recorded, recordAll, append], ⟨rfl, .nil, by simp [recorded, recordAll]⟩⟩
  | cons new calls ih =>
    cases hnew : db.accepts new with
    | false =>
      have hone := recordOne_of_not_accepts hnew
      have hroom := h.recordOne new
      rw [hone] at hroom
      obtain ⟨hstore, hextends⟩ := ih hroom
      have hrecorded : db.recorded (new :: calls) = db.recorded calls := by
        rw [recorded, recordAll, hone]
        rfl
      rw [hrecorded, recordAll, hone]
      refine ⟨hstore, ⟨?_, hextends.ascending, hextends.above⟩⟩
      rw [hextends.asked, List.filter_cons_of_neg (by simp [hnew])]
    | true =>
      have hone := recordOne_of_accepts hnew
      have hroom := h.recordOne new
      rw [hone] at hroom
      obtain ⟨hstore, hextends⟩ := ih hroom
      have hrecorded : db.recorded (new :: calls) = new.numbered db.nextAttemptId ::
          (db.append [new.numbered db.nextAttemptId]).recorded calls := by
        rw [recorded, recordAll, hone]
        rfl
      have habove := h.nextAttemptId.1
      rw [hrecorded, recordAll, hone]
      refine ⟨?_, ⟨?_, ?_, ?_⟩⟩
      · show ((db.append [new.numbered db.nextAttemptId]).recordAll calls).2 = _
        rw [hstore, append_append]
        rfl
      · rw [List.map_cons, hextends.asked, List.filter_cons_of_pos hnew]
        rfl
      · refine List.pairwise_cons.2 ⟨fun a ha => ?_, hextends.ascending⟩
        exact hextends.above _ (List.mem_append_right _ List.mem_cons_self) a ha
      · intro r hr a ha
        rcases List.mem_cons.1 ha with rfl | ha
        · exact habove r hr
        · exact hextends.above r (List.mem_append_left _ hr) a ha

/-- **The status of a locator after a run** is that of its attempts in the log
    before, in the order of entry, and of its own calls in their order. -/
theorem Holds.locatorStatus_recordAll (h : db.Holds as) (hroom : db.HasRoom calls.length)
    (hyears : ∀ c ∈ calls, c.completeAt.FourDigits) {i : Id} {l : UrlLocatorRow}
    (hl : db.locator i = .ok l) :
    ((db.recordAll calls).2.locatorStatus i).result = .ok (.ofHistory
      ((as.filter (·.locatorId = i)).mergeSort Attempt.entered ++
        (db.recorded calls).filter (·.locatorId = i))) := by
  obtain ⟨hstore, hextends⟩ := recordAll_of_room hroom
  have hholds : (db.append (db.recorded calls)).Holds (as ++ db.recorded calls) := by
    refine ⟨?_, fun a ha => ?_⟩
    · show db.attempts ++ _ = _
      rw [h.rows, List.map_append]
    · rcases List.mem_append.1 ha with ha | ha
      · exact h.years a ha
      · have hasked : a.unnumbered ∈ calls.filter db.accepts := by
          rw [← hextends.asked]
          exact List.mem_map_of_mem ha
        exact hyears a.unnumbered (List.mem_filter.1 hasked).1
  have hascending : ((db.recorded calls).filter (·.locatorId = i)).Pairwise
      fun a b => Attempt.entered a b = true :=
    (hextends.ascending.filter _).imp fun hab => Attempt.entered_iff.2 (Int64.le_of_lt hab)
  have hafter : ∀ a ∈ as.filter (·.locatorId = i),
      ∀ b ∈ (db.recorded calls).filter (·.locatorId = i), Attempt.entered a b = true := by
    intro a ha b hb
    have hrow : a.row ∈ db.attempts := by
      rw [h.rows]
      exact List.mem_map_of_mem (List.mem_filter.1 ha).1
    have hlt := hextends.above a.row hrow b (List.mem_filter.1 hb).1
    exact Attempt.entered_iff.2 (Int64.le_of_lt hlt)
  rw [hstore, hholds.locatorStatus hl, List.filter_append,
    Sorting.mergeSort_append_of_le Attempt.linear_entered hascending hafter]

/-- The calls on each locator are all calls, in some other order. -/
theorem perm_of_filter_eq {calls' : List NewAttempt}
    (h : ∀ i, calls'.filter (·.locatorId = i) = calls.filter (·.locatorId = i)) :
    calls'.Perm calls := by
  rw [List.perm_iff_count]
  intro c
  have hcount := congrArg (List.count c) (h c.locatorId)
  rwa [List.count_filter (by simp), List.count_filter (by simp)] at hcount

/-- Calls that come in the same order on a locator leave it with the same status. -/
theorem Holds.locatorStatus_congr (h : db.Holds as) {calls' : List NewAttempt}
    (hroom : db.HasRoom calls.length) (hyears : ∀ c ∈ calls, c.completeAt.FourDigits)
    (hcalls : ∀ i, calls'.filter (·.locatorId = i) = calls.filter (·.locatorId = i)) (i : Id) :
    ((db.recordAll calls').2.locatorStatus i).result =
      ((db.recordAll calls).2.locatorStatus i).result := by
  have hperm := perm_of_filter_eq hcalls
  have hroom' : db.HasRoom calls'.length := by rwa [hperm.length_eq]
  have hyears' : ∀ c ∈ calls', c.completeAt.FourDigits := fun c hc => hyears c (hperm.mem_iff.1 hc)
  obtain ⟨hstore, hextends⟩ := recordAll_of_room hroom
  obtain ⟨hstore', hextends'⟩ := recordAll_of_room hroom'
  cases hl : db.locator i with
  | error e =>
    rw [result_locatorStatus, result_locatorStatus, hstore, hstore']
    show (db.locator i >>= _) = (db.locator i >>= _)
    rw [hl]
    rfl
  | ok l =>
    have hown : ∀ own : List Attempt, (own.filter (·.locatorId = i)).map Attempt.unnumbered =
        (own.map Attempt.unnumbered).filter (·.locatorId = i) := by
      intro own
      rw [List.filter_map]
      rfl
    rw [h.locatorStatus_recordAll hroom hyears hl, h.locatorStatus_recordAll hroom' hyears' hl]
    refine congrArg Except.ok (LocatorStatus.ofHistory_congr ?_)
    rw [List.map_append, List.map_append, hown, hown, hextends.asked, hextends'.asked,
      List.filter_comm, hcalls, List.filter_comm]

/-- **The log over a run.**  The log is legible and has room, and every attempt
    is completed in a year of four digits, in whatever order.  Then a call on a
    locator that is not live fails and changes nothing, and any other call adds
    one row at the end of the log, under a number above all others, which reads
    back as what the call returned.  After the run, the status of every live
    locator is that of its attempts in the log before, by number, and of those
    that its own calls returned, in their order.  So it makes no difference how
    calls on different locators are interleaved. -/
theorem statuses_of_recordAll (hlegible : db.Legible) (hroom : db.HasRoom calls.length)
    (hyears : ∀ c ∈ calls, c.completeAt.FourDigits) :
    (∀ before c after, calls = before ++ c :: after →
      let s := (db.recordAll before).2
      let a := c.numbered s.nextAttemptId
      (db.urlLocators.row? c.locatorId = none →
        s.recordOne c = (.error (.noEntity .urlLocator c.locatorId), s)) ∧
      ∀ l, db.urlLocators.row? c.locatorId = some l →
        s.recordOne c = (.ok a, { s with attempts := s.attempts ++ [a.row] }) ∧
        (∀ r ∈ s.attempts, r.id < a.id) ∧ a.row.decode = .ok a) ∧
    (∀ i l, db.urlLocators.row? i = some l → ∃ prior,
      ((db.attempts.filter (·.locatorId = i)).mergeSort fun r s => r.id ≤ s.id).mapM
        AttemptRow.decode = .ok prior ∧
      ((db.recordAll calls).2.locatorStatus i).result =
        .ok (.ofHistory (prior ++ (db.recorded calls).filter (·.locatorId = i)))) ∧
    ∀ calls', (∀ i, calls'.filter (·.locatorId = i) = calls.filter (·.locatorId = i)) → ∀ i,
      ((db.recordAll calls').2.locatorStatus i).result =
        ((db.recordAll calls).2.locatorStatus i).result := by
  obtain ⟨as, hholds⟩ := hlegible.exists_holds
  refine ⟨?_, ?_, fun calls' hcalls => hholds.locatorStatus_congr hroom hyears hcalls⟩
  · rintro before c after rfl
    dsimp only
    have hlength : (before ++ c :: after).length = before.length + (after.length + 1) := by simp
    rw [hlength] at hroom
    have hbefore : db.HasRoom before.length := by
      refine ⟨by have := hroom.1; omega, fun r hr => ?_⟩
      have := hroom.2 r hr
      omega
    have hstore := (recordAll_of_room hbefore).1
    have hlocators : (db.recordAll before).2.urlLocators = db.urlLocators := by rw [hstore]; rfl
    have hnext := hroom.recordAll.nextAttemptId.1
    refine ⟨fun hnone => recordOne_of_not_accepts ?_,
      fun l hl => ⟨recordOne_of_accepts ?_, hnext, ?_⟩⟩
    · rw [accepts, hlocators, hnone]
      rfl
    · rw [accepts, hlocators, hl]
      rfl
    · exact Attempt.decode_row_eq_ok.2 ⟨rfl, hyears c (by simp)⟩
  · intro i l hl
    have hlocator : db.locator i = .ok l := by rw [locator, hl]
    exact ⟨_, hholds.mapM_decode _ _, hholds.locatorStatus_recordAll hroom hyears hlocator⟩

end Store

theorem Time.Instant.whole_lt : 0 < 2000000000 := by decide

theorem Time.Instant.whole_leap (second : Int) (h : 1000000000 ≤ 0) : second % 60 = 59 :=
  absurd h (by decide)

/-- The first second of a day. -/
def Time.Instant.startOf (day : Int) : Instant where
  second := day * 86400
  nano := 0
  nano_lt := whole_lt
  leap_last := whole_leap _

namespace Store

/-- An attempt on the first locator. -/
def tried (i : Id) (day : Int) (v : Verdict) : Attempt :=
  (NewAttempt.sample 1 (.startOf day) v).numbered i

/-- Two locators, of which the first was tried on the second of January 2024. -/
def triedOnce : Store :=
  { twoLocators with attempts := [(tried 7 739252 .notFound).row] }

/-- The first locator is tried on the third and then, it is said, on the first;
    in between the second one is, and a third that is not there. -/
def interleaved : List NewAttempt :=
  [.sample 1 (.startOf 739253) .notFound, .sample 2 (.startOf 739253) .found,
    .sample 3 (.startOf 739253) .found, .sample 1 (.startOf 739251) .found]

/-- The same calls, locator by locator. -/
def grouped : List NewAttempt :=
  [.sample 3 (.startOf 739253) .found, .sample 2 (.startOf 739253) .found,
    .sample 1 (.startOf 739253) .notFound, .sample 1 (.startOf 739251) .found]

theorem statuses_of_recordAll_interleaved :
    triedOnce.Legible ∧ triedOnce.HasRoom interleaved.length ∧
    (∀ c ∈ interleaved, c.completeAt.FourDigits) ∧
    ((triedOnce.recordAll interleaved).2.locatorStatus 1).result =
      .ok (.previouslyFound (some "Dry.") ⟨.startOf 739251, .startOf 739251⟩
        ⟨.startOf 739252, .startOf 739253⟩) ∧
    ((triedOnce.recordAll grouped).2.locatorStatus 1).result =
      ((triedOnce.recordAll interleaved).2.locatorStatus 1).result := by
  have hlegible : triedOnce.Legible := by
    intro r hr
    cases List.mem_singleton.1 hr
    exact ⟨_, Attempt.decode_row_eq_ok.2 ⟨rfl, by decide⟩, rfl⟩
  have hroom : triedOnce.HasRoom interleaved.length := by
    refine ⟨by decide, fun r hr => ?_⟩
    cases List.mem_singleton.1 hr
    decide
  have hyears : ∀ c ∈ interleaved, c.completeAt.FourDigits := by decide
  obtain ⟨-, hstatuses, hinterleavings⟩ := statuses_of_recordAll hlegible hroom hyears
  obtain ⟨prior, hprior, hstatus⟩ := hstatuses 1 _ rfl
  refine ⟨hlegible, hroom, hyears, ?_, hinterleavings _ (fun i => ?_) 1⟩
  · have hlog : triedOnce.attempts.filter (·.locatorId = 1) =
        [(tried 7 739252 .notFound).row] := rfl
    have hown : (triedOnce.recorded interleaved).filter (·.locatorId = 1) =
        [tried 8 739253 .notFound, tried 10 739251 .found] := rfl
    rw [hlog, List.mergeSort_singleton, mapM_eq_ok] at hprior
    obtain ⟨first, _, hfirst, hrest, rfl⟩ := List.forall₂_cons_left_iff.1 hprior
    cases hrest
    obtain ⟨rfl, -⟩ := Attempt.decode_row_eq_ok.1 hfirst
    have hlast : [tried 10 739251 .found].mergeSort Attempt.notAfter =
        [tried 10 739251 .found] ++ [] := List.mergeSort_singleton _
    have hlater := Sorting.mergeSort_cons_eq Attempt.linear_notAfter
      (x := tried 8 739253 .notFound) hlast (by decide) (by decide)
    have hall := Sorting.mergeSort_cons_eq Attempt.linear_notAfter
      (x := tried 7 739252 .notFound) hlater (by decide) (by decide)
    rw [hstatus, hown, LocatorStatus.ofHistory_eq_ofLatest]
    show Except.ok (LocatorStatus.ofLatest (List.mergeSort [_, _, _] _).reverse) = _
    rw [hall]
    rfl
  · simp only [interleaved, grouped, List.filter_cons, List.filter_nil, NewAttempt.sample,
      decide_eq_true_eq]
    rcases Decidable.em (1 = i) with rfl | h₁
    · rfl
    · rcases Decidable.em (2 = i) with rfl | h₂
      · rfl
      · simp only [if_neg h₁, if_neg h₂]

end Store

end Rationale
