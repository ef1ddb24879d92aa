/-
  Rationale — which justifications a page has.

  The candidates of a page are the first of the rows that are eligible: live
  rows that match the filters of the request, after the boundary if there is
  one, in the order of the page.

  * `mem_eligible_first`, `mem_eligible_next`: the rows from which the first
    page and a continuation are taken;
  * `candidates_eq_take`, `page_eq_take`: every evaluation finds the first of them
    if no two have the same key, and leaves nothing to chance then;
  * `page_of_read`: a first page is exactly the page that is specified.
-/
import Rationale.Proofs.ByteOrder
import Rationale.Proofs.Progress
import Rationale.Proofs.Selection

namespace Rationale

open Query Sql

variable {db : Store} {ch : Chance} {r : Request} {q : PageQuery} {cs : List SortColumn}
  {b : SortRow} {i j : JustificationRow} {out : List Justification}

/-! ## Boundaries -/

namespace Query

/-- Each column has the boundary that a row gives it. -/
def BoundedBy (cs : List SortColumn) (b : SortRow) : Prop :=
  ∀ d ∈ cs, d.boundary = .ok (b d.column)

theorem mapM_boundary (h : BoundedBy cs b) :
    cs.mapM SortColumn.boundary = .ok (cs.map fun d => b d.column) := by
  induction cs with
  | nil => rfl
  | cons d cs ih =>
    rw [List.mapM_cons, h d (by simp), ih fun e he => h e (by simp [he])]
    rfl

theorem zip_map_self {α β : Type} (f : α → β) (l : List α) :
    l.zip (l.map f) = l.map fun a => (a, f a) := by
  induction l with
  | nil => rfl
  | cons a l ih => rw [List.map_cons, List.map_cons, List.zip_cons_cons, ih]

end Query

theorem JustificationRow.all_present (j : JustificationRow) (ks : List Column) :
    (ks.all fun k => !(j.sortRow k).isNull) = true := by
  simp [Value.isNull, j.sortRow_ne_null]

/-- Without a boundary the condition holds of every row. -/
theorem JustificationRow.holds_first {c : RowCondition} (hc : rowCondition cs false = .ok c)
    (j : JustificationRow) : c.holds j.sortRow = true := by
  cases hc
  rw [RowCondition.holds, j.all_present]
  rfl

/-- With a boundary it holds after it. -/
theorem JustificationRow.holds_next {c : RowCondition} (hb : BoundedBy cs b)
    (hn : ∀ d ∈ cs, b d.column ≠ .null) (hc : rowCondition cs true = .ok c) (j : JustificationRow) :
    c.holds j.sortRow = true ↔ comesBefore cs b j.sortRow = true := by
  rw [rowCondition, if_pos rfl, mapM_boundary hb, ok_bind] at hc
  cases hc
  rw [RowCondition.holds, j.all_present, Bool.true_and, zip_map_self]
  exact holds_after_iff hn fun d _ => j.sortRow_ne_null d.column

namespace Store

/-! ## Eligible rows -/

/-- The rows of which a page has the first ones. -/
def eligible (db : Store) (q : PageQuery) : List JustificationRow :=
  ((db.matching q.selections).filter fun j => q.condition.holds j.sortRow).mergeSort
    (q.order .asStored)

theorem mem_eligible :
    j ∈ db.eligible q ↔ j ∈ db.matching q.selections ∧ q.condition.holds j.sortRow = true := by
  simp [eligible]

theorem mem_eligible_first (hk : db.Keyed) (hq : r.compile = .ok q)
    (hc : r.isContinuation = false) :
    j ∈ db.eligible q ↔ j ∈ db.justifications.live ∧ db.Matches j r.filters := by
  obtain ⟨cs, -, ss, hss, c, hcond, rfl⟩ := compile_eq_ok.1 hq
  rw [hc] at hcond
  rw [mem_eligible, mem_matching_iff hk hss]
  simp only [JustificationRow.holds_first hcond, and_true]

theorem mem_eligible_next (hk : db.Keyed) (hq : r.compile = .ok q) (hc : r.isContinuation = true)
    (hs : resolve r.sorts = .ok cs) (hb : BoundedBy cs b) (hn : ∀ d ∈ cs, b d.column ≠ .null) :
    j ∈ db.eligible q ↔ (j ∈ db.justifications.live ∧ db.Matches j r.filters) ∧
      comesBefore cs b j.sortRow = true := by
  obtain ⟨cs', hs', ss, hss, c, hcond, rfl⟩ := compile_eq_ok.1 hq
  rw [hs] at hs'
  cases hs'
  rw [hc] at hcond
  rw [mem_eligible, mem_matching_iff hk hss]
  exact and_congr_right fun _ => JustificationRow.holds_next hb hn hcond j

theorem mem_eligible_of_candidates {u : Use} (h : j ∈ db.candidates (q.use ch u)) :
    j ∈ db.eligible q := by
  have hwanted := List.mem_mergeSort.1 (List.mem_of_mem_take h)
  rw [mem_eligible]
  exact ⟨List.mem_of_mem_filter hwanted, (List.mem_filter.1 hwanted).2⟩

theorem live_of_mem_eligible (h : j ∈ db.eligible q) : j ∈ db.justifications.live :=
  (mem_matching.1 (mem_eligible.1 h).1).1

theorem nodup_eligible (hk : db.Keyed) (q : PageQuery) : ((db.eligible q).map (·.id)).Nodup := by
  have hlive : (db.justifications.live.map (·.id)).Nodup := hk.justifications.nodup_live
  have hperm := (List.mergeSort_perm
    ((db.matching q.selections).filter fun j => q.condition.holds j.sortRow)
    (q.order .asStored)).map (·.id)
  refine hperm.nodup_iff.2 (hlive.sublist (List.Sublist.map _ ?_))
  rw [matching]
  exact List.filter_sublist.trans List.filter_sublist

/-- No two of the rows have the same values in all sort columns. -/
def Unique (cs : List SortColumn) (p : JustificationRow → Prop) : Prop :=
  ∀ i j, p i → p j → SameKey cs i.sortRow j.sortRow → i = j

/-- The id tells rows apart. -/
theorem unique_of_id (hk : db.Keyed) (hid : ∃ d ∈ cs, d.column = .justificationId)
    {p : JustificationRow → Prop} (hp : ∀ j, p j → j ∈ db.justifications.live) : Unique cs p := by
  intro i j hi hj hsame
  exact hk.justifications.eq_of_id_eq (hp i hi) (hp j hj)
    (JustificationRow.id_eq_of_sameKey hid hsame)

section

variable (hk : db.Keyed) (hu : Unique q.columns (· ∈ db.eligible q))

include hu

/-- Rows with unique keys do not tie. -/
theorem order_eq_of_unique (ρ ρ' : Rank) (hi : i ∈ db.eligible q) (hj : j ∈ db.eligible q) :
    q.order ρ i j = q.order ρ' i j := by
  by_cases hij : i = j
  · subst hij
    simp [PageQuery.order]
  · have hne : ¬ SameKey q.columns i.sortRow j.sortRow := fun h => hij (hu i j hi hj h)
    cases h : inOrder q.columns i.sortRow j.sortRow with
    | false => simp [PageQuery.order, h]
    | true =>
      have hbefore := comesBefore_of_inOrder h hne
      simp [PageQuery.order, inOrder, hbefore]

include hk

/-- **They are in strict order.** -/
theorem pairwise_eligible :
    (db.eligible q).Pairwise fun i j => comesBefore q.columns i.sortRow j.sortRow = true := by
  have hlinear := linear_order q .asStored
  have hsorted : (db.eligible q).Pairwise fun i j => q.order .asStored i j = true :=
    List.pairwise_mergeSort hlinear.trans hlinear.total _
  have hne : (db.eligible q).Pairwise (· ≠ ·) := List.Nodup.of_map _ (nodup_eligible hk q)
  refine (hsorted.and hne).imp_of_mem fun {i j} hi hj hij => ?_
  exact comesBefore_of_inOrder (Bool.and_eq_true_iff.1 hij.1).1 fun hsame =>
    hij.2 (hu i j hi hj hsame)

omit hk

/-- **Every evaluation finds the first of them.** -/
theorem candidates_eq_take (ch : Chance) (u : Use) :
    db.candidates (q.use ch u) = (db.eligible q).take q.limit := by
  have hmem : ∀ i ∈ (db.matching q.selections).filter (fun j => q.condition.holds j.sortRow),
      i ∈ db.eligible q := fun i hi => List.mem_mergeSort.2 hi
  rw [eligible, Sorting.mergeSort_congr fun i hi j hj =>
    order_eq_of_unique hu _ (ch.found u) (hmem i hi) (hmem j hj)]
  rfl

include hk

/-- They are on the page in that order. -/
theorem page_eq_take (ch : Chance) (listing : Rank) :
    db.page (q.use ch .page) listing = (db.eligible q).take q.limit := by
  rw [← candidates_eq_take hu ch .page, ← page_rank hk (q.use ch .page), page, page, listed, listed]
  refine Sorting.mergeSort_congr fun i hi j hj => ?_
  have hmem : ∀ k ∈ db.justifications.live.filter
      (·.id ∈ (db.candidates (q.use ch .page)).map (·.id)), k ∈ db.eligible q := by
    intro k hk'
    obtain ⟨hlive, hid⟩ := List.mem_filter.1 hk'
    exact mem_eligible_of_candidates (mem_candidates_of_id hk hlive (of_decide_eq_true hid))
  exact order_eq_of_unique hu listing _ (hmem i hi) (hmem j hj)

omit hk

theorem findsPage_of_unique (ch : Chance) (u : Use) : db.FindsPage ch q u := fun j hj => by
  rwa [candidates_eq_take hu] at hj ⊢

end

end Store

/-! ## First pages -/

theorem ids_of_read (hk : db.Keyed) (hn : 0 < r.effectiveCount)
    (h : (db.read ch r).result = .ok out) : ∃ q, r.compile = .ok q ∧
      out.map (·.id) = (db.page (q.use ch .page) (ch.found .listing)).map (·.id) := by
  obtain ⟨q, hq, hshown⟩ := shown_of_read hk (Nat.ne_of_gt hn) h
  exact ⟨q, hq, JustificationRow.ids_of_shown hshown⟩

/-- **A page is exactly the page that is specified.**  It has the first of the
    live justifications that match the filters, in the order of the sort
    columns, if that order tells them apart. -/
theorem page_of_read (hk : db.Keyed) (hn : 1 ≤ r.effectiveCount) (hc : r.isContinuation = false)
    (hs : resolve r.sorts = .ok cs)
    (hu : Store.Unique cs fun j => j ∈ db.justifications.live ∧ db.Matches j r.filters)
    (h : (db.read ch r).result = .ok out) :
    ∃ L : List JustificationRow,
      (∀ j, j ∈ L ↔ j ∈ db.justifications.live ∧ db.Matches j r.filters) ∧
      L.Pairwise (fun i j => Precedes cs i.sortRow j.sortRow) ∧
      out.map (·.id) = (L.take (min r.count 1024)).map (·.id) ∧ (out.map (·.id)).Nodup := by
  obtain ⟨q, hq, hids⟩ := ids_of_read hk hn h
  have hmem : ∀ j, j ∈ db.eligible q ↔ j ∈ db.justifications.live ∧ db.Matches j r.filters :=
    fun j => Store.mem_eligible_first hk hq hc
  have hcols := columns_of_compile hq hs
  have hunique : Store.Unique q.columns (· ∈ db.eligible q) := by
    rw [hcols]
    intro i j hi hj hsame
    exact hu i j ((hmem i).1 hi) ((hmem j).1 hj) hsame
  refine ⟨db.eligible q, hmem, ?_, ?_, ?_⟩
  · have hstrict := Store.pairwise_eligible hk hunique
    rw [hcols] at hstrict
    exact hstrict.imp fun {i j} hij => (comesBefore_iff fun d _ => i.alike j d.column).1 hij
  · rw [hids, Store.page_eq_take hk hunique, limit_of_compile hq]
    rfl
  · rw [hids]
    exact Store.nodup_page hk _ _

/-- Two justifications, the newest first. -/
def Query.Request.newestTwo : Request :=
  { count := 2, sorts := [⟨"created", some .desc, none⟩, ⟨"id", some .desc, none⟩] }

theorem page_of_read_debate : ∃ out,
    (Store.debate.read (.level .backwards) .newestTwo).result = .ok out ∧
    ∃ L : List JustificationRow,
      (∀ j, j ∈ L ↔ j ∈ Store.debate.justifications.live ∧
        Store.debate.Matches j Request.newestTwo.filters) ∧
      L.Pairwise (fun i j => Precedes [⟨.created, .desc, none⟩, ⟨.justificationId, .desc, none⟩]
        i.sortRow j.sortRow) ∧
      out.map (·.id) = (L.take 2).map (·.id) ∧ (out.map (·.id)).Nodup := by
  obtain ⟨q, hq, hfits⟩ : ∃ q, Request.newestTwo.compile = .ok q ∧ q.Fits :=
    ⟨_, rfl, by decide +kernel⟩
  have htakes : Takes (fun _ => Store.debate) (.level .backwards) .newestTwo q :=
    Store.wellFormed_debate.takes_of_small Store.small_debate hfits
  obtain ⟨out, hout⟩ := exists_page Store.wellFormed_debate hq htakes
    (Store.findsPage_of_found_eq rfl)
  exact ⟨out, hout, page_of_read Store.wellFormed_debate.keyed (by decide) rfl rfl
    (Store.unique_of_id Store.wellFormed_debate.keyed (by decide) fun j hj => hj.1) hout⟩

end Rationale
