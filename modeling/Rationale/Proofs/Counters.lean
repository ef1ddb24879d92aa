/-
  Rationale — the counters of a justification.

  With each justification a page gives those that counter it.  They are found
  among all that are live, and not among what the request asks for: all that
  have the justification for their target, the oldest first.  A counter is shown
  with its target as an id and without counters of its own, and so is what is
  nested in a justification as its target.

  They are found for an evaluation of the query that may find other
  justifications than those of the page, where some tie.  Then a justification is
  shown as if nothing countered it.

  * `pairwise_counters`: counters are in strict order, and so come once;
  * `counters_of_read`: every justification of a page has its counters, if it was
    found again, and none if not;
  * `counter_not_attached`: a read that leaves out a live counter.
-/
import Mathlib.Data.List.Sort
import Rationale.Proofs.Consistency
import Rationale.Proofs.Nesting
import Rationale.Proofs.Showing

namespace Rationale

open Query Lookups

/-! ## The order of counters -/

/-- What was created first comes first, by the bytes of the stored text, and of
    what was created together that with the lower id. -/
def JustificationRow.Older (a b : JustificationRow) : Prop :=
  Text.bytes a.created < Text.bytes b.created ∨ a.created = b.created ∧ a.id < b.id

theorem JustificationRow.older_of_notYounger {a b : JustificationRow}
    (h : a.notYounger b = true) (hne : a.id ≠ b.id) : a.Older b := by
  simp only [notYounger, Bool.or_eq_true, Bool.and_eq_true, decide_eq_true_eq] at h
  rcases h with hlt | ⟨hcreated, hid⟩
  · exact .inl (Text.lt_iff_bytes.1 hlt)
  · exact .inr ⟨hcreated, Int64.lt_of_le_of_ne hid hne⟩

theorem JustificationRow.Older.asymm {a b : JustificationRow} (h : a.Older b) : ¬ b.Older a := by
  intro h'
  rcases h with hlt | ⟨hcreated, hid⟩ <;> rcases h' with hlt' | ⟨hcreated', hid'⟩
  · exact List.lt_asymm hlt hlt'
  · rw [hcreated'] at hlt
    exact List.lt_irrefl _ hlt
  · rw [hcreated] at hlt'
    exact List.lt_irrefl _ hlt'
  · exact Int64.lt_irrefl (Int64.lt_trans hid hid')

instance : Std.Asymm JustificationRow.Older :=
  ⟨fun _ _ => JustificationRow.Older.asymm⟩

instance (a b : JustificationRow) : Decidable (a.Older b) :=
  inferInstanceAs (Decidable (_ ∨ _))

namespace Store

variable {db : Store} {includeUrls : Bool} {known : List JustificationRow} {j : JustificationRow}
  {x : Justification} {i : Id}

/-- **Counters are in strict order.** -/
theorem pairwise_counters (hk : db.Keyed) (q : Evaluation) :
    (db.counters q).Pairwise JustificationRow.Older := by
  refine Sorting.pairwise_mergeSort_of_nodup JustificationRow.linear_notYounger
    (fun _ _ => JustificationRow.older_of_notYounger) ?_
  exact hk.justifications.nodup_live.sublist (List.filter_sublist.map _)

/-! ## What is filled in -/

/-- A justification that is a target stays an id. -/
theorem Fills.target_eq_ref (h : db.Fills includeUrls j x) (hi : j.targetId? = some i) :
    x.target = .justification (.ref i) := by
  obtain ⟨y, hjy, hyx⟩ := h.hydrated
  have hopen : Index.openTarget? y = some i := (openTarget?_of_outline hjy).1.trans hi
  have hy : y.target = .justification (.ref i) := by
    unfold Index.openTarget? at hopen
    split at hopen
    · rename_i k hk
      cases hopen
      exact hk
    · cases hopen
  obtain ⟨t, ht, _, -, _, -, _, -, rfl⟩ := hydrate_eq_ok.1 hyx
  rw [hy] at ht
  cases ht
  rfl

theorem Fills.chain (h : db.Fills includeUrls j x) : x.chain = [x] := by
  rw [Justification.chain_eq]
  split
  · rename_i t htarget
    exact absurd htarget (h.target_ne t)
  · rfl

/-- Targets are nested without counters. -/
theorem Depicts.counters (h : db.Depicts includeUrls known j x) :
    ∀ y ∈ x.chain, y.counters = [] := by
  induction h with
  | @ends j x hx _ =>
    intro y hy
    rw [hx.chain] at hy
    rw [List.mem_singleton.1 hy]
    exact hx.counters
  | @step j t x z hx _ _ _ ih =>
    intro y hy
    rw [Justification.chain_eq] at hy
    rcases List.mem_cons.1 hy with rfl | hy
    · exact hx.counters
    · exact ih y hy

end Store

/-! ## What is read -/

variable {db : Store} {ch : Chance} {r : Request} {q : PageQuery} {out : List Justification}
  {x : Justification}

/-- **A justification of a page has its counters.**  They are the live
    justifications whose target it is, each once and the oldest first, whatever
    the request was for.  Each is shown as its row, with the id for its target
    and without counters; neither has what is nested as a target any.  It has
    none if the evaluation from which counters are found does not find it. -/
theorem counters_of_read (hk : db.Keyed) (hq : r.compile = .ok q)
    (h : (db.read ch r).result = .ok out) (hx : x ∈ out) :
    (∃ cs : List JustificationRow,
      (∀ c, c ∈ cs ↔ (c ∈ db.justifications.live ∧
        c.targetType = Coded.text TargetType.justification ∧ c.targetId = x.id) ∧
          x.id ∈ (db.candidates (q.use ch .counters)).map (·.id)) ∧
      cs.Pairwise JustificationRow.Older ∧
      List.Forall₂ (fun c y => c.Shown y ∧ y.target = .justification (.ref x.id) ∧ y.counters = [])
        cs x.counters) ∧
    (∀ y ∈ x.chain.tail, y.counters = []) ∧
    (db.FindsPage ch q .counters → x.id ∈ (db.candidates (q.use ch .counters)).map (·.id)) := by
  by_cases hn : r.effectiveCount = 0
  · rw [read_of_count_eq_zero hn] at h
    cases h
    cases hx
  obtain ⟨q', hq', hpage⟩ := sketches_of_read hk hn h
  rw [hq] at hq'
  cases hq'
  obtain ⟨j, hj, hjx⟩ := exists_mem_left_of_forall₂ hpage hx
  have hid := hjx.id
  obtain ⟨z, cs, hz, hcs, rfl⟩ := hjx
  refine ⟨⟨db.countersFound (q.use ch .counters) j, fun c => ?_,
    (Store.pairwise_counters hk _).filter _, ?_⟩, fun y hy => ?_, fun hfinds => ?_⟩
  · rw [hid, Store.mem_countersFound hk, Store.mem_countersOf, JustificationRow.targetId?_eq_some]
  · have hcounters : ∀ c ∈ db.countersFound (q.use ch .counters) j, c.targetId? = some j.id :=
      fun c hc => (Store.mem_countersOf.1 ((Store.mem_countersFound hk).1 hc).1).2
    refine ((List.forall₂_and_left _ _).2 ⟨hcounters, hcs⟩).imp ?_
    rintro c y ⟨htarget, hy⟩
    rw [hid]
    exact ⟨hy.shown, hy.target_eq_ref htarget, hy.counters⟩
  · refine hz.counters y ?_
    rw [Justification.chain_eq] at hy ⊢
    exact List.mem_cons_of_mem _ hy
  · rw [hid]
    exact List.mem_map_of_mem (hfinds j ((Store.mem_page hk).1 hj))

/-- The three live counters of a justification, two of one date among them. -/
theorem counters_of_read_inquiry : Store.inquiry.Keyed ∧ ∃ q x,
    (Store.oneRequest 1).compile = .ok q ∧
    (Store.inquiry.read (.level .asStored) (Store.oneRequest 1)).result = .ok [x] ∧
      x.counters.map (·.id) = [3, 4, 2] ∧ ∀ y ∈ x.chain.tail, y.counters = [] := by
  have hk := Store.wellFormed_inquiry.keyed
  obtain ⟨q, hq⟩ := exists_compile_one 1
  obtain ⟨x, hx, hid⟩ := exists_single_of_live (i := 1) Store.wellFormed_inquiry
    Store.small_inquiry (.level .asStored) (by decide)
  obtain ⟨⟨cs, hmem, hpairwise, hcs⟩, htail, hfound⟩ :=
    counters_of_read hk hq hx (List.mem_singleton.2 rfl)
  have hids : cs.map (·.id) = [3, 4, 2] := by
    have heq : cs = [3, 4, 2].filterMap Store.inquiry.justifications.row? := by
      refine hpairwise.eq_of_mem_iff (by decide +kernel) fun c => ?_
      have hall : ∀ c ∈ Store.inquiry.justifications.live,
          (c.targetType = Coded.text TargetType.justification ∧ c.targetId = 1 ↔
            c ∈ [3, 4, 2].filterMap Store.inquiry.justifications.row?) := by decide +kernel
      have hlive : ∀ c ∈ [3, 4, 2].filterMap Store.inquiry.justifications.row?,
          c ∈ Store.inquiry.justifications.live := by decide +kernel
      rw [hmem, and_iff_left (hfound (Store.findsPage_of_found_eq rfl)), hid]
      exact ⟨fun hc => (hall c hc.1).1 hc.2, fun hc => ⟨hlive c hc, (hall c (hlive c hc)).2 hc⟩⟩
    rw [heq]
    decide +kernel
  refine ⟨hk, q, x, hq, hx, ?_, htail⟩
  rw [JustificationRow.ids_of_shown (hcs.imp fun _ _ h => h.1), hids]

/-! ## A counter that is left out -/

/-- A justification that counters another one. -/
def JustificationRow.counter (i target : Id) : JustificationRow :=
  { JustificationRow.sample i with
    rootPolarity := "NEGATIVE", targetType := "JUSTIFICATION", targetId := target,
    polarity := "NEGATIVE" }

/-- Two justifications that tie, with a counter each. -/
def Store.rivals : Store :=
  sample [⟨.sample 1, none⟩, ⟨.sample 2, none⟩, ⟨.counter 3 2, none⟩, ⟨.counter 4 1, none⟩]

theorem Store.wellFormed_rivals : rivals.WellFormed where
  keyed := by constructor <;> decide
  readable := by constructor <;> decide +kernel
  creator := by decide
  root := by decide
  target_root := by decide
  countered_root := forall_counters (by decide)
  acyclic := acyclic_of_lt (·.id) (forall_counters (by decide))
  basis_excerpt := by decide
  paraphrased_excerpt := by decide

theorem Store.small_rivals : rivals.Small := by
  constructor <;> decide

/-- One justification, where those come first whose target does. -/
def Query.Request.byTarget : Request :=
  { sorts := [⟨"targetType", some .desc, some "zz"⟩, ⟨"targetId", some .desc, some "99"⟩,
      ⟨"polarity", none, some "!"⟩, ⟨"rootPolarity", none, some "!"⟩,
      ⟨"basisType", none, some "!"⟩],
    count := 1, isContinuation := true }

section

variable (hq : Request.byTarget.compile = .ok q)

include hq

theorem Store.matching_rivals :
    (rivals.matching q.selections).filter (fun j => q.condition.holds j.sortRow) =
      [.sample 1, .sample 2, .counter 3 2, .counter 4 1] := by
  cases hq
  decide +kernel

/-- Of the two that tie, the one comes first in the table. -/
theorem Store.candidates_rivals : rivals.candidates ⟨q, .asStored⟩ = [.sample 1] := by
  have hsorted : [JustificationRow.sample 1, .sample 2, .counter 3 2, .counter 4 1].Pairwise
      fun i j => q.order .asStored i j = true := by
    cases hq
    decide +kernel
  rw [candidates_of_pairwise hsorted (matching_rivals hq), limit_of_compile hq]
  rfl

/-- The other one comes first where ids descend. -/
theorem Store.candidates_rivals_backwards : rivals.candidates ⟨q, .backwards⟩ = [.sample 2] := by
  let js : List JustificationRow := [.sample 2, .sample 1, .counter 3 2, .counter 4 1]
  have hsorted : js.Pairwise fun i j => q.order .backwards i j = true := by
    cases hq
    decide +kernel
  have hlevel : ∀ i ∈ js, ∀ j ∈ js,
      q.order .backwards i j = true → q.order .backwards j i = true → i = j := by
    cases hq
    decide +kernel
  have hperm : ((rivals.matching q.selections).filter fun j =>
      q.condition.holds j.sortRow).Perm js := by
    rw [matching_rivals hq]
    exact .swap ..
  rw [candidates_of_perm hsorted hperm hlevel, limit_of_compile hq]
  rfl

theorem found_byTarget : q.plan.found .page = .asStored ∧
    q.plan.found .rootPropositions = .asStored ∧ q.plan.found .counters = .backwards := by
  cases hq
  exact ⟨rfl, rfl, rfl⟩

end

/-- **A live counter that is left out.**  The page has the one of two that tie, and
    counters are found of the other one. -/
theorem counter_not_attached : Store.rivals.Keyed ∧ ∃ x,
    (Store.rivals.read Request.byTarget.plan .byTarget).result = .ok [x] ∧ x.counters = [] ∧
    ∃ c ∈ Store.rivals.justifications.live,
      c.targetType = Coded.text TargetType.justification ∧ c.targetId = x.id := by
  have hk := Store.wellFormed_rivals.keyed
  obtain ⟨q, hq, hfits⟩ : ∃ q, Request.byTarget.compile = .ok q ∧ q.Fits :=
    ⟨_, rfl, by decide +kernel⟩
  rw [plan_of_compile hq]
  obtain ⟨hpage, hroots, hcounters⟩ := found_byTarget hq
  have htakes : Takes (fun _ => Store.rivals) q.plan .byTarget q :=
    Store.wellFormed_rivals.takes_of_small Store.small_rivals hfits
  obtain ⟨out, hout⟩ := exists_page Store.wellFormed_rivals hq htakes
    (Store.findsPage_of_found_eq (hroots.trans hpage.symm))
  obtain ⟨q', hq', hsketches⟩ := sketches_of_read hk (by decide) hout
  rw [hq] at hq'
  cases hq'
  have hcandidates : Store.rivals.candidates (q.use q.plan .page) = [.sample 1] := by
    rw [PageQuery.use, hpage, Store.candidates_rivals hq]
  rw [Store.page_eq_singleton hk hcandidates] at hsketches
  obtain ⟨x, _, hx, hrest, rfl⟩ := List.forall₂_cons_left_iff.1 hsketches
  cases hrest
  have hid : x.id = 1 := hx.id
  obtain ⟨y, cs, -, hcs, rfl⟩ := hx
  have hnone : Store.rivals.countersFound (q.use q.plan .counters) (.sample 1) = [] := by
    refine List.eq_nil_iff_forall_not_mem.2 fun c hc => ?_
    obtain ⟨-, hfound⟩ := (Store.mem_countersFound hk).1 hc
    rw [PageQuery.use, hcounters, Store.candidates_rivals_backwards hq] at hfound
    revert hfound
    decide
  rw [hnone] at hcs
  cases hcs
  exact ⟨hk, _, hout, rfl, .counter 4 1, by decide, by decide, hid.symm⟩

end Rationale
