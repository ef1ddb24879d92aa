/-
  Rationale — the justifications behind the rows of a page.

  The queries of a page return rows, which are reconstructed.  So it comes down
  to three lists of justifications, whose outlines are what is reconstructed:
  the candidates, the justifications on the way of their targets, and those
  that counter them.

  * `page_perm`, `page_rank`: the second sort keeps the candidates, and it keeps
    their order if it comes across them as the first one did;
  * `mem_targetSearch`: the search finds all to which targets lead from the
    page, which are those that the walks from its candidates pass
    (`targetRows_eq`);
  * `reconstruct_primaryRows`, `reconstruct_targetRows`,
    `reconstruct_counterRows`: what is reconstructed;
  * `mem_targets_of_target`: live targets of the candidates and of their targets
    are among the targets.
-/
import Mathlib.Data.List.Perm.Subperm
import Rationale.Proofs.KeyOrder
import Rationale.Proofs.Reconstruction
import Rationale.Proofs.Searching
import Rationale.Proofs.Walks

namespace Rationale.Store

open Query Sorting

variable {db : Store} {q : Evaluation} {listing : Rank} {j t : JustificationRow}

/-! ## Lists of justifications -/

/-- The live justifications with one of the ids, in the given order. -/
def listed (db : Store) (ids : List Id) (order : JustificationRow → JustificationRow → Bool) :
    List JustificationRow :=
  (db.justifications.live.filter (·.id ∈ ids)).mergeSort order

variable {ids : List Id} {order : JustificationRow → JustificationRow → Bool}

theorem mem_listed : j ∈ db.listed ids order ↔ j ∈ db.justifications.live ∧ j.id ∈ ids := by
  simp [listed]

theorem nodup_listed (hk : db.Keyed) (ids : List Id)
    (order : JustificationRow → JustificationRow → Bool) :
    ((db.listed ids order).map (·.id)).Nodup := by
  have hlive : (db.justifications.live.map (·.id)).Nodup := hk.justifications.nodup_live
  have hperm := (List.mergeSort_perm (db.justifications.live.filter (·.id ∈ ids)) order).map (·.id)
  exact hperm.nodup_iff.2 (hlive.sublist (List.filter_sublist.map _))

/-- **The rows of listed justifications are reconstructed to outlines.** -/
theorem reconstruct_justificationRows {η : Hashing} (hk : db.Keyed) (ho : Linear order)
    {out : List Justification} :
    reconstruct η (db.justificationRows ids order) = .ok out ↔
      (db.listed ids order).mapM db.outline = .ok out := by
  rw [← reconstruct_joined hk (nodup_listed hk ids order), allJoined, listed,
    ← mergeSort_flatMap ho fun j r hr => justification_of_mem_joined hr]
  rfl

/-! ## The page -/

theorem linear_order (q : PageQuery) (ρ : Rank) : Linear (q.order ρ) := by
  have hrank : Linear fun a b : JustificationRow => decide (ρ a.id ≤ ρ b.id) :=
    { trans := fun a b c hab hbc => by simp only [decide_eq_true_eq] at *; omega
      total := fun a b => by simp only [Bool.or_eq_true, decide_eq_true_eq]; omega }
  exact ((linear_inOrder q.columns).on JustificationRow.sortRow).thenBy hrank

theorem filter_mem_of_sublist {α : Type} [DecidableEq α] {s l : List α} (hl : l.Nodup)
    (h : s.Sublist l) : l.filter (· ∈ s) = s := by
  induction h with
  | slnil => rfl
  | @cons s l a h ih =>
    rw [List.nodup_cons] at hl
    have ha : a ∉ s := fun ha => hl.1 (h.subset ha)
    rw [List.filter_cons_of_neg (by simpa using ha), ih hl.2]
  | @cons_cons s l a h ih =>
    rw [List.nodup_cons] at hl
    rw [List.filter_cons_of_pos (by simp)]
    refine congrArg _ (Eq.trans (List.filter_congr ?_) (ih hl.2))
    intro b hb
    have hba : b ≠ a := fun hba => hl.1 (hba ▸ hb)
    simp [hba]

theorem candidates_sublist (db : Store) (q : Evaluation) :
    (db.candidates q).Sublist (db.justifications.live.mergeSort (q.order q.rank)) := by
  rw [candidates, matching, List.filter_filter]
  refine (List.take_sublist _ _).trans ?_
  rw [mergeSort_filter (linear_order q.toPageQuery q.rank)]
  exact List.filter_sublist

theorem live_of_mem_candidates (h : j ∈ db.candidates q) : j ∈ db.justifications.live :=
  (mem_matching.1 (candidates_subset h)).1

section

variable {js : List JustificationRow} (hs : js.Pairwise fun i j => q.order q.rank i j = true)

include hs

/-- Candidates that are in order in their table. -/
theorem candidates_of_pairwise
    (h : ((db.matching q.selections).filter fun j => q.condition.holds j.sortRow) = js) :
    db.candidates q = js.take q.limit := by
  rw [candidates, h, List.mergeSort_of_pairwise hs]

/-- Candidates in any order, no two of which are level. -/
theorem candidates_of_perm
    (h : ((db.matching q.selections).filter fun j => q.condition.holds j.sortRow).Perm js)
    (hlevel : ∀ i ∈ js, ∀ j ∈ js, q.order q.rank i j = true → q.order q.rank j i = true → i = j) :
    db.candidates q = js.take q.limit := by
  rw [candidates, Sorting.mergeSort_eq_of_perm (linear_order _ _) h, List.mergeSort_of_pairwise hs]
  exact fun i hi j hj => hlevel i (h.mem_iff.1 hi) j (h.mem_iff.1 hj)

end

theorem nodup_candidates (hk : db.Keyed) (q : Evaluation) :
    ((db.candidates q).map (·.id)).Nodup := by
  have hlive : (db.justifications.live.map (·.id)).Nodup := hk.justifications.nodup_live
  have hperm := (List.mergeSort_perm db.justifications.live (q.order q.rank)).map (·.id)
  exact (hperm.nodup_iff.2 hlive).sublist ((candidates_sublist db q).map _)

theorem mem_candidates_of_id (hk : db.Keyed) (hj : j ∈ db.justifications.live)
    (h : j.id ∈ (db.candidates q).map (·.id)) : j ∈ db.candidates q := by
  obtain ⟨i, hi, hij⟩ := List.mem_map.1 h
  rwa [← hk.justifications.eq_of_id_eq (live_of_mem_candidates hi) hj hij]

/-- The page: its candidates, put in order again. -/
def page (db : Store) (q : Evaluation) (listing : Rank) : List JustificationRow :=
  db.listed ((db.candidates q).map (·.id)) (q.order listing)

theorem mem_page (hk : db.Keyed) : j ∈ db.page q listing ↔ j ∈ db.candidates q := by
  rw [page, mem_listed]
  constructor
  · rintro ⟨hj, h⟩
    exact mem_candidates_of_id hk hj h
  · exact fun h => ⟨live_of_mem_candidates h, List.mem_map_of_mem h⟩

theorem live_of_mem_page (h : j ∈ db.page q listing) : j ∈ db.justifications.live :=
  (mem_listed.1 h).1

theorem nodup_page (hk : db.Keyed) (q : Evaluation) (listing : Rank) :
    ((db.page q listing).map (·.id)).Nodup :=
  nodup_listed hk _ _

theorem page_perm (hk : db.Keyed) (q : Evaluation) (listing : Rank) :
    (db.page q listing).Perm (db.candidates q) :=
  (List.perm_ext_iff_of_nodup (.of_map _ (nodup_page hk q listing))
    (.of_map _ (nodup_candidates hk q))).2 fun _ => mem_page hk

theorem page_eq_nil_iff (hk : db.Keyed) : db.page q listing = [] ↔ db.candidates q = [] := by
  have hlength := (page_perm hk q listing).length_eq
  rw [← List.length_eq_zero_iff, hlength, List.length_eq_zero_iff]

theorem page_eq_singleton (hk : db.Keyed) (h : db.candidates q = [j]) :
    db.page q listing = [j] :=
  List.perm_singleton.1 (h ▸ page_perm hk q listing)

/-- **Sorting the candidates again keeps them as they are**, if those that tie come
    as they did. -/
theorem page_rank (hk : db.Keyed) (q : Evaluation) : db.page q q.rank = db.candidates q := by
  have hlive : db.justifications.live.Nodup := List.Nodup.of_map _ hk.justifications.nodup_live
  have hmem : db.justifications.live.filter (·.id ∈ (db.candidates q).map (·.id)) =
      db.justifications.live.filter (· ∈ db.candidates q) := by
    refine List.filter_congr fun j hj => decide_eq_decide.2 ⟨?_, ?_⟩
    · exact mem_candidates_of_id hk hj
    · exact fun h => List.mem_map_of_mem h
  rw [page, listed, hmem, mergeSort_filter (linear_order q.toPageQuery q.rank)]
  exact filter_mem_of_sublist ((List.mergeSort_perm _ _).nodup_iff.2 hlive)
    (candidates_sublist db q)

theorem reconstruct_primaryRows {η : Hashing} (hk : db.Keyed) {out : List Justification} :
    reconstruct η (db.primaryRows q listing) = .ok out ↔
      (db.page q listing).mapM db.outline = .ok out :=
  reconstruct_justificationRows hk (linear_order q.toPageQuery listing)

/-! ## Where targets lead -/

/-- Some justification, deleted or not, has the first id and targets the second. -/
def Targets (db : Store) (i k : Id) : Prop :=
  ∃ j ∈ db.justifications.rows,
    j.id = i ∧ j.targetType = Coded.text TargetType.justification ∧ j.targetId = k

/-- The justification that the one with that id targets, deleted or not. -/
def nextTarget? (db : Store) (i : Id) : Option Id :=
  (db.justifications.rows.find? (·.id = i)).bind (·.targetId?)

/-- The justifications to which targets lead from `j`. -/
def targetIds (db : Store) (j : JustificationRow) : List Id :=
  match j.targetId? with
  | none => []
  | some i => (Graph.walk db.nextTarget? (db.justifications.rows.map (·.id)) i).path

variable {i k : Id}

theorem row_of_live (hj : j ∈ db.justifications.live) : j ∈ db.justifications.rows :=
  (Table.live_sublist_rows _).subset hj

theorem id_mem_rows (hj : j ∈ db.justifications.live) : j.id ∈ db.justifications.rows.map (·.id) :=
  List.mem_map_of_mem (row_of_live hj)

theorem nextTarget?_eq_some (hk : db.Keyed) : db.nextTarget? i = some k ↔ db.Targets i k := by
  rw [nextTarget?, Option.bind_eq_some_iff]
  refine exists_congr fun j => ?_
  have hfind : db.justifications.rows.find? (·.id = i) = some j ↔
      j ∈ db.justifications.rows ∧ j.id = i := Table.find?_eq_some_iff hk.justifications
  rw [hfind, and_assoc, JustificationRow.targetId?_eq_some]

theorem nextTarget?_id (hk : db.Keyed) (hj : j ∈ db.justifications.live) :
    db.nextTarget? j.id = j.targetId? := by
  have hfind : db.justifications.rows.find? (·.id = j.id) = some j :=
    (Table.find?_eq_some_iff hk.justifications).2 ⟨row_of_live hj, rfl⟩
  rw [nextTarget?, hfind, Option.bind_some]

theorem targets_id (hk : db.Keyed) (hj : j ∈ db.justifications.live) :
    db.Targets j.id k ↔ j.targetId? = some k := by
  rw [← nextTarget?_eq_some hk, nextTarget?_id hk hj]

/-- The walk from a justification passes all rows to which targets lead. -/
theorem mem_targetIds_iff (hk : db.Keyed) (hj : j ∈ db.justifications.live)
    (hrow : k ∈ db.justifications.rows.map (·.id)) :
    k ∈ db.targetIds j ↔ Relation.TransGen db.Targets j.id k := by
  -- whatever targets something is a row, so that the walk may pass it
  have hgoes : ∀ {i}, Relation.ReflTransGen db.Targets i k ↔
      i ∈ db.justifications.rows.map (·.id) ∧
        Relation.ReflTransGen (Graph.Goes db.nextTarget? (db.justifications.rows.map (·.id))) i k := by
    intro i
    constructor
    · intro h
      induction h using Relation.ReflTransGen.head_induction_on with
      | refl => exact ⟨hrow, .refl⟩
      | head htarget _ ih =>
        refine ⟨?_, .head ⟨(nextTarget?_eq_some hk).2 htarget, ih.1⟩ ih.2⟩
        obtain ⟨m, hm, rfl, -⟩ := htarget
        exact List.mem_map_of_mem hm
    · rintro ⟨-, h⟩
      exact Relation.ReflTransGen.mono (fun _ _ hgo => (nextTarget?_eq_some hk).1 hgo.1) _ _ h
  rw [Relation.TransGen.head'_iff]
  simp only [targets_id hk hj, hgoes]
  unfold targetIds
  cases j.targetId? with
  | none => simp
  | some i =>
    simp only [Option.some.injEq, exists_eq_left']
    by_cases hi : i ∈ db.justifications.rows.map (·.id)
    · rw [Graph.mem_path_iff hi, and_iff_right hi]
    · rw [Graph.walk_of_not_mem hi]
      exact iff_of_false List.not_mem_nil fun h => hi h.1

theorem edge_targetEdges : Graph.Edge db.targetEdges i k ↔ db.Targets i k := by
  rw [Graph.Edge, targetEdges, List.mem_filterMap]
  refine exists_congr fun j => and_congr_right fun _ => ?_
  rw [Option.map_eq_some_iff]
  constructor
  · rintro ⟨_, h, ⟨⟩⟩
    exact ⟨rfl, JustificationRow.targetId?_eq_some.1 h⟩
  · rintro ⟨rfl, h⟩
    exact ⟨k, JustificationRow.targetId?_eq_some.2 h, rfl⟩

/-- **The search finds all to which targets lead from the page.** -/
theorem mem_targetSearch : k ∈ ((db.targetSearch q).run db.targetEdges).found ↔
    ∃ c ∈ db.candidates q, Relation.TransGen db.Targets c.id k := by
  have hseeds : ∀ i, i ∈ (db.targetEdges.filter (·.1 ∈ (db.candidates q).map (·.id))).map (·.2) ↔
      ∃ c ∈ db.candidates q, db.Targets c.id i := by
    intro i
    simp only [List.mem_map, List.mem_filter, decide_eq_true_eq]
    constructor
    · rintro ⟨⟨_, _⟩, ⟨hedge, c, hc, rfl⟩, rfl⟩
      exact ⟨c, hc, edge_targetEdges.1 hedge⟩
    · rintro ⟨c, hc, h⟩
      exact ⟨(c.id, i), ⟨edge_targetEdges.2 h, c, hc, rfl⟩, rfl⟩
  have hedges : Graph.Edge db.targetEdges = db.Targets :=
    funext₂ fun _ _ => propext edge_targetEdges
  rw [targetSearch, Graph.Search.mem_found_run, hedges]
  simp only [hseeds, Relation.TransGen.head'_iff]
  constructor
  · rintro ⟨i, ⟨c, hc, hci⟩, hik⟩
    exact ⟨c, hc, i, hci, hik⟩
  · rintro ⟨c, hc, i, hci, hik⟩
    exact ⟨i, ⟨c, hc, hci⟩, hik⟩

/-- The target of a justification is where its targets lead first. -/
theorem mem_targetIds_self (ht : t ∈ db.justifications.live) (h : j.targetId? = some t.id) :
    t.id ∈ db.targetIds j := by
  rw [targetIds, h]
  exact Graph.head_mem_path (id_mem_rows ht)

/-- The target of where targets lead is where they lead next. -/
theorem mem_targetIds_next (hk : db.Keyed) {i : JustificationRow}
    (hi : i ∈ db.justifications.live) (hmem : i.id ∈ db.targetIds j)
    (ht : t ∈ db.justifications.live) (h : i.targetId? = some t.id) : t.id ∈ db.targetIds j := by
  unfold targetIds at hmem ⊢
  cases hj : j.targetId? with
  | none => simp [hj] at hmem
  | some k =>
    simp only [hj] at hmem ⊢
    exact Graph.mem_path_of_next hmem (by rw [nextTarget?_id hk hi, h]) (id_mem_rows ht)

/-! ## Targets and counters -/

/-- **What is found of live justifications** is what the walks pass. -/
theorem targetRows_eq (hk : db.Keyed) (q : Evaluation) :
    db.targetRows q =
      db.justificationRows ((db.candidates q).flatMap db.targetIds) fun a b => a.id ≤ b.id := by
  rw [targetRows, justificationRows, justificationRows]
  congr 2
  refine List.filter_congr fun t ht => decide_eq_decide.2 ?_
  rw [mem_targetSearch, List.mem_flatMap]
  refine exists_congr fun c => and_congr_right fun hc => ?_
  exact (mem_targetIds_iff hk (live_of_mem_candidates hc) (id_mem_rows ht)).symm

/-- The live justifications to which targets lead from the page. -/
def targets (db : Store) (q : Evaluation) : List JustificationRow :=
  db.listed ((db.candidates q).flatMap db.targetIds) fun a b => a.id ≤ b.id

theorem reconstruct_targetRows {η : Hashing} (hk : db.Keyed) {out : List Justification} :
    reconstruct η (db.targetRows q) = .ok out ↔ (db.targets q).mapM db.outline = .ok out := by
  rw [targetRows_eq hk]
  exact reconstruct_justificationRows hk (linear_byId JustificationRow.id)

/-- The live justifications that counter the page. -/
def counters (db : Store) (q : Evaluation) : List JustificationRow :=
  db.listed ((db.justifications.live.filter fun j =>
    j.targetId?.any (· ∈ (db.candidates q).map (·.id))).map (·.id)) JustificationRow.notYounger

theorem reconstruct_counterRows {η : Hashing} (hk : db.Keyed) {out : List Justification} :
    reconstruct η (db.counterRows q) = .ok out ↔ (db.counters q).mapM db.outline = .ok out :=
  reconstruct_justificationRows hk JustificationRow.linear_notYounger

theorem mem_counters (hk : db.Keyed) :
    j ∈ db.counters q ↔
      j ∈ db.justifications.live ∧ ∃ i ∈ db.candidates q, j.targetId? = some i.id := by
  rw [counters, mem_listed]
  refine and_congr_right ?_
  intro hj
  constructor
  · intro h
    obtain ⟨i, hi, hij⟩ := List.mem_map.1 h
    obtain ⟨hlive, hany⟩ := List.mem_filter.1 hi
    obtain rfl := hk.justifications.eq_of_id_eq hlive hj hij
    obtain ⟨k, hk, hmem⟩ := (Option.any_eq_true _ _).1 hany
    obtain ⟨c, hc, rfl⟩ := List.mem_map.1 (of_decide_eq_true hmem)
    exact ⟨c, hc, hk⟩
  · rintro ⟨c, hc, htarget⟩
    refine List.mem_map_of_mem (List.mem_filter.2 ⟨hj, ?_⟩)
    rw [htarget]
    simpa using ⟨c, hc, rfl⟩

/-- **Live targets of the candidates, and of these again, are among the targets.** -/
theorem mem_targets_of_target (hk : db.Keyed) (hj : j ∈ db.candidates q ∨ j ∈ db.targets q)
    (ht : t ∈ db.justifications.live) (h : j.targetId? = some t.id) : t ∈ db.targets q := by
  refine mem_listed.2 ⟨ht, ?_⟩
  rcases hj with hj | hj
  · exact List.mem_flatMap.2 ⟨j, hj, mem_targetIds_self ht h⟩
  · obtain ⟨hlive, hmem⟩ := mem_listed.1 hj
    obtain ⟨c, hc, hmem⟩ := List.mem_flatMap.1 hmem
    exact List.mem_flatMap.2 ⟨c, hc, mem_targetIds_next hk hlive hmem ht h⟩

/-! ## Evaluations of one query -/

/-- All evaluations find equally many. -/
theorem length_candidates (db : Store) (q : Evaluation) :
    (db.candidates q).length = min q.limit
      ((db.matching q.selections).filter fun j => q.condition.holds j.sortRow).length := by
  rw [candidates, List.length_take, List.length_mergeSort]

/-- The evaluation for a use finds all justifications of the page. -/
def FindsPage (db : Store) (ch : Chance) (q : PageQuery) (use : Use) : Prop :=
  ∀ j ∈ db.candidates (q.use ch .page), j ∈ db.candidates (q.use ch use)

variable {ch : Chance} {q : PageQuery} {use : Use}

/-- **It does so if it comes across what ties as that of the page does.** -/
theorem findsPage_of_found_eq (h : ch.found use = ch.found .page) : db.FindsPage ch q use := by
  unfold FindsPage PageQuery.use
  rw [h]
  exact fun _ hj => hj

/-- What finds the page finds nothing else. -/
theorem FindsPage.mem_iff (hk : db.Keyed) (h : db.FindsPage ch q use) :
    j ∈ db.candidates (q.use ch use) ↔ j ∈ db.candidates (q.use ch .page) := by
  have hsub : (db.candidates (q.use ch .page)).Subperm (db.candidates (q.use ch use)) :=
    List.Nodup.subperm (.of_map _ (nodup_candidates hk _)) h
  refine (hsub.perm_of_length_le ?_).mem_iff.symm
  rw [length_candidates, length_candidates]
  exact le_rfl

/-- If one evaluation finds nothing, none does. -/
theorem candidates_eq_nil_of_page (h : db.candidates (q.use ch .page) = []) :
    db.candidates (q.use ch use) = [] := by
  have hlength := congrArg List.length h
  rw [length_candidates] at hlength
  rw [← List.length_eq_zero_iff, length_candidates]
  exact hlength

end Rationale.Store
