/-
  Rationale — how deep targets are nested.

  The chain nested in a justification of a page leads through what the read has
  found.  It is the chain of its targets in the store, link by link and whatever
  its length, if and only if all these were found.  The targets of the page are
  followed from an evaluation of its query that may find other justifications
  where some tie, and then a target can be left as an id although it is live.

  * `chains_of_read`: this, for every justification of every page;
  * `target_not_nested`: a read that leaves a live target as an id.
-/
import Rationale.Proofs.Progress

namespace Rationale

open Query Store JustificationRow

variable {db : Store} {ch : Chance} {r : Request} {q : PageQuery} {out : List Justification}
  {j : JustificationRow} {x : Justification} {target : Target} {i : Id}

/-! ## Full depth -/

/-- Targets stay ids if and only if there is nothing live with that id. -/
theorem JustificationRow.InPlace.eq_ref_iff (h : InPlace db.justifications.live target)
    (hi : target.justificationId? = some i) :
    target = .justification (.ref i) ↔ ∀ t ∈ db.justifications.live, t.id ≠ i := by
  cases h with
  | proposition p => cases hi
  | statement s => cases hi
  | @justification y t ht hid =>
    cases hi
    constructor
    · intro hy
      cases hy
    · exact fun hmissing => absurd hid (hmissing t ht)
  | missing hmissing =>
    cases hi
    exact ⟨fun _ => hmissing, fun _ => rfl⟩

/-- What is nested in `x` are the live justifications to which targets lead from
    `j`.  Every target is at hand but for justifications that are not live, and
    these are the only ones that are not. -/
structure Store.NestsAll (db : Store) (j : JustificationRow) (x : Justification) : Prop where
  chain : ∃ js, TargetChain db.justifications.live j js ∧
    List.Forall₂ (Link db.justifications.live) js x.chain
  eq_ref_iff : ∀ y ∈ x.chain, ∀ i, y.target.justificationId? = some i →
    (y.target = .justification (.ref i) ↔ ∀ t ∈ db.justifications.live, t.id ≠ i)

theorem Store.nestsAll_iff : db.NestsAll j x ↔ ∃ js, TargetChain db.justifications.live j js ∧
    List.Forall₂ (Link db.justifications.live) js x.chain := by
  refine ⟨NestsAll.chain, fun ⟨js, hchain, hlinks⟩ => ⟨⟨js, hchain, hlinks⟩, ?_⟩⟩
  intro y hy i hi
  obtain ⟨t, -, hlink⟩ := exists_mem_left_of_forall₂ hlinks hy
  exact hlink.target.eq_ref_iff hi

/-- **All targets are nested if and only if all of them are known.** -/
theorem Store.nestsAll_iff_known (hk : db.Keyed) {known js : List JustificationRow}
    (hknown : ∀ t ∈ known, t ∈ db.justifications.live) (hj : j ∈ known)
    (hchain : TargetChain known j js) (hlinks : List.Forall₂ (Link known) js x.chain) :
    db.NestsAll j x ↔ ∀ t, Relation.TransGen db.Counters j t → t ∈ known := by
  rw [nestsAll_iff]
  constructor
  · rintro ⟨ks, hall, hlinks'⟩ t hjt
    -- it is a link of the chain in the store, and both chains have the same ids
    have hids : ks.map (·.id) = js.map (·.id) := by
      rw [← ids_of_shown (hlinks'.imp fun _ _ => Link.toShown),
        ← ids_of_shown (hlinks.imp fun _ _ => Link.toShown)]
    have hmem : t.id ∈ js.map (·.id) := hids ▸ List.mem_map_of_mem (hall.mem_of_leads hk hjt)
    obtain ⟨i, hi, hit⟩ := List.mem_map.1 hmem
    have hi : i ∈ known := (hchain.mem_known i hi).elim (fun h => h ▸ hj) fun h => h
    obtain ⟨_, -, -, ht, -⟩ := Relation.TransGen.tail'_iff.1 hjt
    rwa [← hk.justifications.eq_of_id_eq (hknown i hi) ht hit]
  · exact fun hall => ⟨js, hchain.live hknown (hknown j hj) hall hlinks⟩

/-! ## What is read -/

/-- **Targets are nested to their full depth, as far as they are found.**  No
    justification comes twice in what is nested in one of the page.  All targets
    are nested in it if and only if the read has found all of them, and so they
    are if the evaluation from which targets are followed finds the page. -/
theorem chains_of_read (hk : db.Keyed) (hq : r.compile = .ok q)
    (h : (db.read ch r).result = .ok out) (hx : x ∈ out) :
    ∃ j ∈ db.justifications.live, j.id = x.id ∧ (x.chain.map (·.id)).Nodup ∧
      (db.NestsAll j x ↔
        ∀ t, Relation.TransGen db.Counters j t → t ∈ IndexOf.listed db ch q) ∧
      (db.FindsPage ch q .targets → db.NestsAll j x) := by
  by_cases hn : r.effectiveCount = 0
  · rw [read_of_count_eq_zero hn] at h
    cases h
    cases hx
  obtain ⟨q', hq', hpage⟩ := forall₂_chain_of_read hk hn h
  rw [hq] at hq'
  cases hq'
  obtain ⟨j, hj, hid, js, hnodup, hchain, hlinks⟩ := exists_mem_left_of_forall₂ hpage hx
  have hlisted : j ∈ IndexOf.listed db ch q := List.mem_append_left _ (List.mem_append_left _ hj)
  have hiff := nestsAll_iff_known hk (fun _ => IndexOf.live_of_listed) hlisted hchain hlinks
  refine ⟨j, live_of_mem_page hj, hid.symm, ?_, hiff, fun hfinds => ?_⟩
  · rw [ids_of_shown (hlinks.imp fun _ _ => Link.toShown)]
    exact hnodup
  · exact hiff.2 fun _ => listed_of_leads hk hfinds hj

/-- A justification that counters another one, which counters a deleted one. -/
def Store.countered : Store :=
  sample [
    ⟨{ JustificationRow.sample 1 with
        targetType := "JUSTIFICATION", targetId := 2, polarity := "NEGATIVE" }, none⟩,
    ⟨{ JustificationRow.sample 2 with
        rootPolarity := "NEGATIVE", targetType := "JUSTIFICATION", targetId := 3,
        polarity := "NEGATIVE" }, none⟩,
    ⟨JustificationRow.sample 3, some "2024-01-02T00:00:00+00:00"⟩]

theorem Store.keyed_countered : countered.Keyed := by
  constructor <;> decide

theorem chains_of_read_countered : countered.Keyed ∧ ∃ q x, (oneRequest 1).compile = .ok q ∧
    (countered.read (.level .asStored) (oneRequest 1)).result = .ok [x] ∧
    ∃ j ∈ countered.justifications.live, j.id = x.id ∧ countered.NestsAll j x := by
  have hids : (countered.read (.level .asStored) (oneRequest 1)).result.toOption.map
      (·.map (·.id)) = some [1] := by
    decide +kernel
  obtain ⟨x, hread, -⟩ := exists_single_of_ids hids
  obtain ⟨q, hq⟩ : ∃ q, (oneRequest 1).compile = .ok q := ⟨_, rfl⟩
  obtain ⟨j, hj, hid, -, -, hall⟩ :=
    chains_of_read keyed_countered hq hread (List.mem_singleton.2 rfl)
  exact ⟨keyed_countered, q, x, hq, hread, j, hj, hid, hall (findsPage_of_found_eq rfl)⟩

/-! ## Justifications that tie -/

/-- A justification that counters an older one. -/
def JustificationRow.opposing : JustificationRow :=
  { JustificationRow.sample 1 with
    rootPolarity := "NEGATIVE", targetType := "JUSTIFICATION", targetId := 3,
    polarity := "NEGATIVE" }

/-- One that ties with it. -/
def JustificationRow.abreast : JustificationRow :=
  { JustificationRow.sample 2 with rootPolarity := "NEGATIVE", polarity := "NEGATIVE" }

/-- The older one. -/
def JustificationRow.earlier : JustificationRow :=
  { JustificationRow.sample 3 with created := "2023-01-01T00:00:00+00:00" }

def Store.tied : Store :=
  sample [⟨.opposing, none⟩, ⟨.abreast, none⟩, ⟨.earlier, none⟩]

theorem Store.wellFormed_tied : tied.WellFormed where
  keyed := by constructor <;> decide
  readable := by constructor <;> decide +kernel
  creator := by decide
  root := by decide
  target_root := by decide
  countered_root := forall_counters (by decide)
  acyclic := acyclic_of_lt (-·.id) (forall_counters (by decide))
  basis_excerpt := by decide
  paraphrased_excerpt := by decide

theorem Store.small_tied : tied.Small := by
  constructor <;> decide

/-- The newest justification before a date. -/
def Query.Request.beforeDate : Request :=
  { sorts := [⟨"created", some .desc, some "2025-01-01T00:00:00Z"⟩, ⟨"polarity", none, some "!"⟩,
      ⟨"rootPolarity", none, some "!"⟩],
    count := 1, isContinuation := true }

section

variable (hq : Request.beforeDate.compile = .ok q)

include hq

theorem Store.matching_tied :
    (tied.matching q.selections).filter (fun j => q.condition.holds j.sortRow) =
      [.opposing, .abreast, .earlier] := by
  cases hq
  decide +kernel

/-- Of the two that tie, the one comes first in the table. -/
theorem Store.candidates_tied : tied.candidates ⟨q, .asStored⟩ = [.opposing] := by
  have hsorted : [opposing, abreast, earlier].Pairwise fun i j => q.order .asStored i j = true := by
    cases hq
    decide +kernel
  rw [candidates_of_pairwise hsorted (matching_tied hq), limit_of_compile hq]
  rfl

/-- The other one comes first where ids descend. -/
theorem Store.candidates_tied_backwards : tied.candidates ⟨q, .backwards⟩ = [.abreast] := by
  have hsorted : [abreast, opposing, earlier].Pairwise fun i j =>
      q.order .backwards i j = true := by
    cases hq
    decide +kernel
  have hlevel : ∀ i ∈ [abreast, opposing, earlier], ∀ j ∈ [abreast, opposing, earlier],
      q.order .backwards i j = true → q.order .backwards j i = true → i = j := by
    cases hq
    decide +kernel
  have hperm : ((tied.matching q.selections).filter fun j => q.condition.holds j.sortRow).Perm
      [abreast, opposing, earlier] := by
    rw [matching_tied hq]
    exact .swap ..
  rw [candidates_of_perm hsorted hperm hlevel, limit_of_compile hq]
  rfl

theorem found_beforeDate : q.plan.found .targets = .backwards ∧
    ∀ u, u ≠ .targets → u ≠ .targetPropositions → q.plan.found u = .asStored := by
  cases hq
  refine ⟨rfl, fun u htargets hpropositions => ?_⟩
  cases u <;> first | rfl | contradiction

/-- Nothing is found but what is on the page. -/
theorem listed_tied (h : j ∈ IndexOf.listed tied q.plan q) : j = .opposing := by
  obtain ⟨htargets, hstored⟩ := found_beforeDate hq
  have hk := wellFormed_tied.keyed
  rw [IndexOf.listed, List.mem_append, List.mem_append, mem_page hk, mem_counters hk, targets,
    mem_listed, PageQuery.use, PageQuery.use, PageQuery.use, htargets,
    hstored .page (by decide) (by decide), hstored .counters (by decide) (by decide),
    candidates_tied hq, candidates_tied_backwards hq] at h
  rcases h with (h | ⟨-, h⟩) | ⟨hj, i, hi, htarget⟩
  · exact List.mem_singleton.1 h
  · cases h
  · have huncountered : ∀ j ∈ tied.justifications.live, j.targetId? ≠ some opposing.id := by decide
    cases List.mem_singleton.1 hi
    exact absurd htarget (huncountered j hj)

end

/-- **A live target that is not nested.**  The page has the one of two that tie,
    and targets are followed from the other one. -/
theorem target_not_nested : tied.Keyed ∧ ∃ x,
    (tied.read Request.beforeDate.plan .beforeDate).result = .ok [x] ∧
    ∃ j ∈ tied.justifications.live, j.id = x.id ∧ ¬ tied.NestsAll j x := by
  have hk := wellFormed_tied.keyed
  obtain ⟨q, hq, hfits⟩ : ∃ q, Request.beforeDate.compile = .ok q ∧ q.Fits :=
    ⟨_, rfl, by decide +kernel⟩
  rw [plan_of_compile hq]
  have htakes : Takes (fun _ => tied) q.plan .beforeDate q :=
    wellFormed_tied.takes_of_small small_tied hfits
  obtain ⟨-, hstored⟩ := found_beforeDate hq
  have hpage : q.plan.found .page = .asStored := hstored _ (by decide) (by decide)
  have hroots : q.plan.found .rootPropositions = q.plan.found .page :=
    (hstored _ (by decide) (by decide)).trans hpage.symm
  obtain ⟨out, hout⟩ := exists_page wellFormed_tied hq htakes (findsPage_of_found_eq hroots)
  have hcandidates : tied.candidates (q.use q.plan .page) = [.opposing] := by
    rw [PageQuery.use, hpage, candidates_tied hq]
  obtain ⟨q', hq', hpage⟩ := forall₂_chain_of_read hk (by decide) hout
  rw [hq] at hq'
  cases hq'
  rw [page_eq_singleton hk hcandidates] at hpage
  obtain ⟨x, _, ⟨hid, js, -, hchain, hlinks⟩, hrest, rfl⟩ := List.forall₂_cons_left_iff.1 hpage
  cases hrest
  refine ⟨hk, x, hout, opposing, by decide, hid.symm, fun hall => ?_⟩
  have hj : opposing ∈ IndexOf.listed tied q.plan q :=
    List.mem_append_left _ (List.mem_append_left _ ((mem_page hk).2 (by simp [hcandidates])))
  have hknown := (nestsAll_iff_known hk (fun _ => IndexOf.live_of_listed) hj hchain hlinks).1 hall
    earlier (.single ⟨by decide, by decide, rfl⟩)
  exact absurd (listed_tied hq hknown) (by decide)

end Rationale
