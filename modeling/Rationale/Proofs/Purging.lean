/-
  Rationale — reads and deleted rows.

  Targets are followed through deleted justifications as well as live ones.  So
  a read loads more than a read of the purged store: the live justifications to
  which targets lead from the page, but not through live ones alone (`Bridged`).
  They are not shown, as no walk of the assembly comes to them; but what they
  name is looked up, and has to be there (`Loads`).

  * `assemble_purge`: the same is assembled, whatever else was loaded;
  * `read_purge`: a page is read if and only if it is the page of the purged
    store, all that is bridged loads and the database takes the statements for
    it as well; and if nothing is bridged, reads of the two stores are the same,
    faults and warnings included;
  * `Store.read_of_severed`: so it is for every request if no deleted target has
    a live target.
-/
import Rationale.Proofs.LiveRows
import Rationale.Proofs.Pages
import Rationale.Proofs.Progress
import Rationale.Proofs.Supplies

namespace Rationale

open Query Store Sql

variable {db : Store} {ch : Chance} {q : PageQuery} {ix ix' : Index} {l l' : Lookups}
  {ps : List Proposition} {includeUrls : Bool} {j t : JustificationRow} {i k : Id}
  {x : Justification} {out : List Justification}

/-! ## Targets -/

namespace Store

/-- Where targets lead is a walk through the rows. -/
theorem exists_passes_targetIds (hmem : k ∈ db.targetIds j) :
    ∃ i exit, j.targetId? = some i ∧ Graph.Passes db.nextTarget? i (db.targetIds j) exit ∧
      ∀ k ∈ db.targetIds j, ∃ t ∈ db.justifications.rows, t.id = k := by
  unfold targetIds at hmem ⊢
  cases hi : j.targetId? with
  | none => simp [hi] at hmem
  | some i =>
    simp only [hi] at hmem ⊢
    have hfree : i ∈ db.justifications.rows.map (·.id) := by
      by_contra hfree
      rw [Graph.walk_of_not_mem hfree] at hmem
      cases hmem
    exact ⟨i, _, rfl, Graph.passes_walk hfree,
      fun k hk => List.mem_map.1 (Graph.mem_of_mem_path hk)⟩

/-- From a target on, the walk through live rows passes where that through all
    rows does. -/
theorem mem_targetIds_of_passes (hk : db.Keyed) {path : List Id} {exit : Option Id}
    (hp : Graph.Passes db.purge.nextTarget? i path exit)
    (hlive : ∀ k ∈ path, ∃ t ∈ db.justifications.live, t.id = k) (hi : i ∈ db.targetIds j) :
    ∀ k ∈ path, k ∈ db.targetIds j := by
  induction hp with
  | ends hn => simpa using hi
  | leaves hn => simpa using hi
  | step hn hp ih =>
    obtain ⟨t, ht, rfl⟩ := hlive _ List.mem_cons_self
    obtain ⟨rest, rfl⟩ := hp.exists_cons
    obtain ⟨u, hu, rfl⟩ := hlive _ (List.mem_cons_of_mem _ List.mem_cons_self)
    rw [nextTarget?_id hk.purge (by simpa using ht)] at hn
    rw [List.forall_mem_cons]
    exact ⟨hi, ih (fun k hk => hlive k (List.mem_cons_of_mem _ hk))
      (mem_targetIds_next hk ht hi hu hn)⟩

theorem targetIds_purge_subset (hk : db.Keyed) : db.purge.targetIds j ⊆ db.targetIds j := by
  intro k hmem
  obtain ⟨i, exit, hi, hp, hlive⟩ := exists_passes_targetIds hmem
  obtain ⟨rest, hrest⟩ := hp.exists_cons
  obtain ⟨t, ht, rfl⟩ := hlive i (by rw [hrest]; exact List.mem_cons_self)
  exact mem_targetIds_of_passes hk hp hlive (mem_targetIds_self ht hi) k hmem

section

variable {q : Evaluation}

theorem mem_targets : t ∈ db.targets q ↔
    t ∈ db.justifications.live ∧ ∃ j ∈ db.candidates q, t.id ∈ db.targetIds j := by
  rw [targets, mem_listed, List.mem_flatMap]

theorem mem_targets_of_purge (hk : db.Keyed) (h : t ∈ db.purge.targets q) : t ∈ db.targets q := by
  obtain ⟨ht, j, hj, hmem⟩ := mem_targets.1 h
  rw [candidates_purge] at hj
  exact mem_targets.2 ⟨by simpa using ht, j, hj, targetIds_purge_subset hk hmem⟩

end

end Store

/-! ## Indexes -/

namespace IndexOf

theorem listed_of_purge (hk : db.Keyed) (hj : j ∈ listed db.purge ch q) : j ∈ listed db ch q := by
  simp only [listed, List.mem_append, page_purge, counters_purge] at hj ⊢
  exact hj.imp_left (Or.imp_right (mem_targets_of_purge hk))

/-- What is listed for the store and not for the purged one is among the targets. -/
theorem mem_targets_of_listed (hj : j ∈ listed db ch q) (hnot : j ∉ listed db.purge ch q) :
    j ∈ db.targets (q.use ch .targets) ∧ j ∉ db.purge.targets (q.use ch .targets) := by
  simp only [listed, List.mem_append, page_purge, counters_purge] at hj hnot
  tauto

variable (hk : db.Keyed) (h : IndexOf db ch q ix) (h' : IndexOf db.purge ch q ix')

include hk h h'

theorem ids_purge_subset : ix'.ids ⊆ ix.ids := by
  intro i hi
  obtain ⟨j, hj, rfl⟩ := h'.mem_ids.1 hi
  exact h.mem_ids.2 ⟨j, listed_of_purge hk hj, rfl⟩

/-- What is a node of both indexes is the same in both. -/
theorem node?_purge (hi : i ∈ ix'.ids) : ix'.node? i = ix.node? i := by
  obtain ⟨j, hj, rfl⟩ := h'.mem_ids.1 hi
  obtain ⟨x, -, hjx⟩ := h'.exists_mem hj
  rw [(h'.node?_eq_some hk.purge).2 ⟨j, hj, rfl, hjx⟩]
  rw [outline_purge] at hjx
  exact ((h.node?_eq_some hk).2 ⟨j, listed_of_purge hk hj, rfl, hjx⟩).symm

theorem nodes_purge_subset : ix'.nodes ⊆ ix.nodes := by
  intro x hx
  have hx := Index.mem_nodes.1 hx
  refine Index.mem_nodes.2 ?_
  rwa [← node?_purge hk h h' (Index.node?_isSome_iff.1 (by rw [hx]; rfl))]

omit hk in
theorem indexed_page_purge : ix'.page = ix.page := by
  have hpage := h'.page
  rw [page_purge, outline_purge, h.page] at hpage
  exact (Except.ok.inj hpage).symm

omit hk in
theorem indexed_counters_purge : ix'.counters = ix.counters := by
  have hcounters := h'.counters
  rw [counters_purge, outline_purge, h.counters] at hcounters
  exact (Except.ok.inj hcounters).symm

section

variable (hfinds : ∀ u, db.FindsPage ch q u)

include hfinds

/-- Targets do not lead from the smaller index into the rest of the larger one, if
    the page is found again in all evaluations. -/
theorem mem_ids_of_next (hi : i ∈ ix'.ids) (hn : next ix i = some k) (hmem : k ∈ ix.ids) :
    k ∈ ix'.ids := by
  obtain ⟨j, hj, rfl⟩ := h'.mem_ids.1 hi
  rw [h.next_of_listed hk (listed_of_purge hk hj)] at hn
  obtain ⟨t, ht, rfl⟩ := h.mem_ids.1 hmem
  have hlive : t ∈ db.purge.justifications.live := by simpa using live_of_listed ht
  simp only [listed, List.mem_append] at hj
  rcases hj with (hj | hj) | hj
  · have hcandidate : j ∈ db.purge.candidates (q.use ch .targets) := by
      rw [page_purge, mem_page hk] at hj
      rw [candidates_purge]
      exact hfinds .targets j hj
    exact h'.mem_ids.2 ⟨t, List.mem_append_left _ (List.mem_append_right _
      (mem_targets_of_target hk.purge (.inl hcandidate) hlive hn)), rfl⟩
  · exact h'.mem_ids.2 ⟨t, List.mem_append_left _ (List.mem_append_right _
      (mem_targets_of_target hk.purge (.inr hj) hlive hn)), rfl⟩
  · -- a counter leads back to the page
    obtain ⟨-, c, hc, htarget⟩ := (mem_counters hk.purge).1 hj
    rw [hn] at htarget
    rw [candidates_purge, (hfinds .counters).mem_iff hk] at hc
    refine h'.mem_ids.2 ⟨c, List.mem_append_left _ (List.mem_append_left _ ?_),
      (Option.some.inj htarget).symm⟩
    rwa [page_purge, mem_page hk]

/-- **Walks stay within the smaller index.** -/
theorem targetWalk_purge (hi : i ∈ ix'.ids) : ix'.targetWalk i = ix.targetWalk i :=
  Graph.walk_eq_of_closed (ids_purge_subset hk h h')
    (fun x hx => by rw [node?_purge hk h h' hx])
    (fun x hx k hn hmem => mem_ids_of_next hk h h' hfinds hx hn hmem) fun _ => hi

/-- A walk is left for a node of the larger index only if for one of the smaller. -/
theorem exit_purge (hi : i ∈ ix'.ids) :
    (∀ k ∈ (ix.targetWalk i).exit, k ∉ ix'.ids) ↔ ∀ k ∈ (ix.targetWalk i).exit, k ∉ ix.ids := by
  refine forall₂_congr fun k hexit => not_congr ⟨fun hmem => ids_purge_subset hk h h' hmem, ?_⟩
  intro hmem
  have hp := passes_targetWalk (ids_purge_subset hk h h' hi)
  rw [Option.mem_def.1 hexit] at hp
  obtain ⟨y, hy, hn⟩ := hp.exists_of_exit
  rw [← targetWalk_purge hk h h' hfinds hi] at hy
  exact mem_ids_of_next hk h h' hfinds (Graph.mem_of_mem_path hy) hn hmem

end

variable (hl : (lookupsAt (fun _ => db) ix ps includeUrls).result = .ok l)
  (hl' : (lookupsAt (fun _ => db) ix' ps includeUrls).result = .ok l')

include hl hl'

theorem shell_purge (hi : i ∈ ix'.ids) : ix'.shell l' i = ix.shell l i := by
  obtain ⟨x, hx⟩ := Option.isSome_iff_exists.1 (Index.node?_isSome_iff.2 hi)
  have hmem : x ∈ ix'.nodes := Index.mem_nodes.2 (by rw [Index.id_of_node? hx, hx])
  rw [Index.shell, Index.shell, ← node?_purge hk h h' hi, hx]
  dsimp only
  rw [Lookups.hydrate_of_agree (agreeOn_of_lookups hk hl' hmem),
    Lookups.hydrate_of_agree (agreeOn_of_lookups hk hl (nodes_purge_subset hk h h' hmem))]

end IndexOf

/-! ## Assembling -/

namespace IndexOf

/-- The check of what is nested is passed in any case. -/
theorem assembleNode_eq_ok (hk : db.Keyed) (h : IndexOf db ch q ix)
    (hl : (lookupsAt (fun _ => db) ix ps includeUrls).result = .ok l) (hi : i ∈ ix.ids) :
    (ix.assembleNode l i).result = .ok x ↔ ∃ y ys,
      (ix.targetWalk i).path.mapM (ix.shell l) = .ok (y :: ys) ∧
      (∀ k ∈ (ix.targetWalk i).exit, k ∉ ix.ids) ∧ x = Lookups.nested y ys :=
  (h.outlines_of_live hk).bare.assembleNode_eq_ok (keyed_of_lookups hl)
    (Lookups.follows_of_chains (finds_of_lookups hl).chains) hi

variable (hk : db.Keyed) (h : IndexOf db ch q ix) (h' : IndexOf db.purge ch q ix')
  (hfinds : ∀ u, db.FindsPage ch q u)
  (hl : (lookupsAt (fun _ => db) ix ps includeUrls).result = .ok l)
  (hl' : (lookupsAt (fun _ => db) ix' ps includeUrls).result = .ok l')

include hk h h' hfinds hl hl'

theorem assembleNode_purge (hi : i ∈ ix'.ids) :
    (ix'.assembleNode l' i).result = .ok x ↔ (ix.assembleNode l i).result = .ok x := by
  have hl₂ : (lookupsAt (fun _ => db.purge) ix' ps includeUrls).result = .ok l' := by
    rwa [lookupsAt_purge]
  have hshell : (ix.targetWalk i).path.mapM (ix'.shell l') =
      (ix.targetWalk i).path.mapM (ix.shell l) := by
    refine mapM_congr fun k hmem => shell_purge hk h h' hl hl' ?_
    rw [← targetWalk_purge hk h h' hfinds hi] at hmem
    exact Graph.mem_of_mem_path hmem
  rw [assembleNode_eq_ok hk.purge h' hl₂ hi,
    assembleNode_eq_ok hk h hl (ids_purge_subset hk h h' hi),
    targetWalk_purge hk h h' hfinds hi, hshell, exit_purge hk h h' hfinds hi]

theorem assembleWithCounters_purge
    (hj : j ∈ db.page (q.use ch .page) (ch.found .listing)) :
    (ix'.assembleWithCounters l' j.id).result = .ok x ↔
      (ix.assembleWithCounters l j.id).result = .ok x := by
  have hi : j.id ∈ ix'.ids := h'.mem_ids.2
    ⟨j, List.mem_append_left _ (List.mem_append_left _ (by rwa [page_purge])), rfl⟩
  have hcounters := indexed_counters_purge h h'
  have hshell : (ix'.countersOf j.id).mapM (fun c => ix'.shell l' c.id) =
      (ix.countersOf j.id).mapM fun c => ix.shell l c.id := by
    rw [Index.countersOf, Index.countersOf, hcounters]
    refine mapM_congr fun c hc => shell_purge hk h h' hl hl' ?_
    rw [← hcounters] at hc
    obtain ⟨d, hd, hdc⟩ := exists_of_mem_mapM h'.counters (List.mem_filter.1 hc).1
    exact h'.mem_ids.2 ⟨d, List.mem_append_right _ hd, (id_of_outline hdc).symm⟩
  simp only [Index.assembleWithCounters_eq_ok, assembleNode_purge hk h h' hfinds hl hl' hi, hshell]

/-- **The same is assembled**, whatever else was loaded. -/
theorem assemble_purge : (ix'.assemble l').result = .ok out ↔ (ix.assemble l).result = .ok out := by
  rw [Index.assemble_eq_ok, Index.assemble_eq_ok, indexed_page_purge h h']
  have hnode : ∀ p ∈ ix.page, ∀ x, (ix'.assembleWithCounters l' p.id).result = .ok x ↔
      (ix.assembleWithCounters l p.id).result = .ok x := by
    intro p hp x
    obtain ⟨j, hj, hjp⟩ := exists_of_mem_mapM h.page hp
    rw [id_of_outline hjp]
    exact assembleWithCounters_purge hk h h' hfinds hl hl' hj
  constructor
  · intro hout
    exact ((List.forall₂_and_left ..).2 ⟨fun p hp => hp, hout⟩).imp fun p x hx =>
      (hnode p hx.1 x).1 hx.2
  · intro hout
    exact ((List.forall₂_and_left ..).2 ⟨fun p hp => hp, hout⟩).imp fun p x hx =>
      (hnode p hx.1 x).2 hx.2

end IndexOf

/-! ## Reads -/

namespace Store

/-- Targets lead from what is found to the live justification, but not through
    live justifications alone. -/
def Bridged (db : Store) (q : Evaluation) (t : JustificationRow) : Prop :=
  t ∈ db.targets q ∧ t ∉ db.purge.targets q

/-- All that is loaded with a justification is there, and can be decoded. -/
def Loads (db : Store) (t : JustificationRow) : Prop :=
  ∃ x, db.outline t = .ok x ∧ db.Supplies x

/-- What is bridged does not stop a read: all of it loads, and the database takes
    the statements that look it up with all else. -/
structure Bears (db : Store) (ch : Chance) (q : PageQuery) (includeUrls : Bool) : Prop where
  loads : ∀ t, db.Bridged (q.use ch .targets) t → db.Loads t
  fits : ∀ ix, IndexOf db ch q ix → LookupsFit (fun _ => db) ix includeUrls

/-- Fewer nodes have less to be looked up. -/
theorem lookupsFit_mono (hk : db.Keyed) (hsub : ix'.nodes ⊆ ix.nodes)
    (h : LookupsFit (fun _ => db) ix includeUrls) : LookupsFit (fun _ => db) ix' includeUrls := by
  have hexcerpts : ix'.excerptIds ⊆ ix.excerptIds := fun i hi => by
    obtain ⟨x, hx, hi⟩ := Index.mem_excerptIds.1 hi
    exact Index.mem_excerptIds.2 ⟨x, hsub hx, hi⟩
  have hlocators : db.locatorsOf ix'.excerptIds ⊆ db.locatorsOf ix.excerptIds := fun l hl => by
    obtain ⟨e, he, hl⟩ := mem_locatorsOf.1 hl
    exact mem_locatorsOf.2 ⟨e, hexcerpts he, hl⟩
  have hstatements : ix'.statementIds ⊆ ix.statementIds := fun i hi => by
    obtain ⟨x, hx, hi⟩ := Index.mem_statementIds.1 hi
    exact Index.mem_statementIds.2 ⟨x, hsub hx, hi⟩
  have hcreators : ix'.creatorIds ⊆ ix.creatorIds := fun i hi => by
    obtain ⟨x, hx, hi⟩ := Index.mem_creatorIds.1 hi
    exact Index.mem_creatorIds.2 ⟨x, hsub hx, hi⟩
  have hquotes : ix'.writQuoteIds ⊆ ix.writQuoteIds := fun i hi => by
    obtain ⟨x, hx, hi⟩ := List.mem_filterMap.1 (mem_ascending.1 hi)
    exact mem_ascending.2 (List.mem_filterMap.2 ⟨x, hsub hx, hi⟩)
  have hpairs : urlPairs (db.findUrls ix'.writQuoteIds) ⊆ urlPairs (db.findUrls ix.writQuoteIds) :=
    fun p hp => by
      obtain ⟨hq, hu⟩ := mem_urlPairs.1 hp
      exact mem_urlPairs.2 ⟨hquotes hq, hu⟩
  exact {
    excerpts := ((nodup_ascending _).subperm hexcerpts).length_le.trans h.excerpts
    locators := by
      have hnodup : (db.locatorsOf ix'.excerptIds).Nodup := .of_map _ (nodup_locatorsOf hk _)
      exact (hnodup.subperm hlocators).length_le.trans h.locators
    statements := ((nodup_ascending _).subperm hstatements).length_le.trans_lt h.statements
    users := ((nodup_ascending _).subperm hcreators).length_le.trans h.users
    quotes := fun hurls => ((nodup_ascending _).subperm hquotes).length_le.trans (h.quotes hurls)
    urls := fun hurls => by
      have hle := ((nodup_urlPairs hk ix'.writQuoteIds).subperm hpairs).length_le
      exact (Nat.mul_le_mul_left 2 hle).trans (h.urls hurls) }

theorem lookupsFit_empty : LookupsFit (fun _ => db) ⟨[], [], []⟩ includeUrls where
  excerpts := Nat.zero_le _
  locators := (List.length_mergeSort []).trans_le (Nat.zero_le _)
  statements := by decide
  users := Nat.zero_le _
  quotes _ := Nat.zero_le _
  urls _ := Nat.zero_le _

/-- Nothing is bridged from a page that is empty, and nothing is looked up. -/
theorem bears_of_empty (hk : db.Keyed) (he : db.candidates (q.use ch .page) = []) :
    db.Bears ch q includeUrls := by
  have hnone : ∀ t, t ∉ db.targets (q.use ch .targets) := fun t ht => by
    obtain ⟨-, j, hj, -⟩ := mem_targets.1 ht
    rw [candidates_eq_nil_of_page he] at hj
    cases hj
  refine ⟨fun t ht => absurd ht.1 (hnone t), fun ix h => ?_⟩
  have hids : ∀ i, i ∉ ix.ids := fun i hi => by
    obtain ⟨j, hj, rfl⟩ := h.mem_ids.1 hi
    simp only [IndexOf.listed, List.mem_append, mem_page hk, he, List.not_mem_nil, false_or] at hj
    rcases hj with hj | hj
    · exact hnone j hj
    · obtain ⟨-, c, hc, -⟩ := (mem_counters hk).1 hj
      rw [candidates_eq_nil_of_page he] at hc
      cases hc
  have hnodes : ix.nodes = [] := by
    rw [Index.nodes, List.eq_nil_iff_forall_not_mem.2 hids, List.filterMap_nil]
  exact lookupsFit_mono hk (by rw [hnodes]; exact List.nil_subset _) lookupsFit_empty

end Store

/-- What is bridged is looked up. -/
theorem bears_of_reads (hk : db.Keyed) (h : Reads db ch q includeUrls ix l out) :
    db.Bears ch q includeUrls := by
  obtain ⟨ps, -, hl⟩ := h.lookups
  obtain ⟨hfits, hsupplies⟩ := exists_lookups_iff.1 ⟨l, hl⟩
  refine ⟨fun t ht => ?_, fun ix' h' => ?_⟩
  · have hlisted : t ∈ IndexOf.listed db ch q :=
      List.mem_append_left _ (List.mem_append_right _ ht.1)
    obtain ⟨x, -, htx⟩ := h.index.exists_mem hlisted
    exact ⟨x, htx, hsupplies x (h.index.mem_nodes_of_listed hk hlisted htx)⟩
  · rwa [h'.constant.unique h.index.constant]

/-- The index of the purged store is there if that of the store is. -/
theorem exists_indexOf_purge (hk : db.Keyed) (h : IndexOf db ch q ix) :
    ∃ ix', IndexOf db.purge ch q ix' := by
  obtain ⟨targets, htargets⟩ : ∃ xs,
      (db.purge.targets (q.use ch .targets)).mapM db.outline = .ok xs := by
    refine exists_mapM_eq_ok fun t ht => ?_
    obtain ⟨x, -, hx⟩ := exists_mem_of_mapM h.targets (mem_targets_of_purge hk ht)
    exact ⟨x, hx⟩
  refine ⟨⟨ix.page, targets, ix.counters⟩, ?_, ?_, ?_⟩
  · rw [page_purge, outline_purge]
    exact h.page
  · rwa [outline_purge]
  · rw [counters_purge, outline_purge]
    exact h.counters

/-- With what is bridged, the index of the store is there as well. -/
theorem exists_indexOf_of_loads (h' : IndexOf db.purge ch q ix')
    (hloads : ∀ t, db.Bridged (q.use ch .targets) t → db.Loads t) : ∃ ix, IndexOf db ch q ix := by
  obtain ⟨page, targets', counters⟩ := ix'
  obtain ⟨hpage, htargets, hcounters⟩ := h'
  rw [page_purge, outline_purge] at hpage
  rw [outline_purge] at htargets
  rw [counters_purge, outline_purge] at hcounters
  obtain ⟨targets, htargets⟩ : ∃ xs,
      (db.targets (q.use ch .targets)).mapM db.outline = .ok xs := by
    refine exists_mapM_eq_ok fun t ht => ?_
    by_cases hlive : t ∈ db.purge.targets (q.use ch .targets)
    · obtain ⟨x, -, hx⟩ := exists_mem_of_mapM htargets hlive
      exact ⟨x, hx⟩
    · obtain ⟨x, hx, -⟩ := hloads t ⟨ht, hlive⟩
      exact ⟨x, hx⟩
  exact ⟨⟨page, targets, counters⟩, hpage, htargets, hcounters⟩

/-- A node of the larger index is a node of the smaller, or else bridged. -/
theorem supplies_of_nodes (hk : db.Keyed) (h : IndexOf db ch q ix)
    (h' : IndexOf db.purge ch q ix') (hsupplies : ∀ x ∈ ix'.nodes, db.Supplies x)
    (hloads : ∀ t, db.Bridged (q.use ch .targets) t → db.Loads t) (hx : x ∈ ix.nodes) :
    db.Supplies x := by
  obtain ⟨j, hj, -, hjx⟩ := (h.node?_eq_some hk).1 (Index.mem_nodes.1 hx)
  by_cases hlisted : j ∈ IndexOf.listed db.purge ch q
  · exact hsupplies x (h'.mem_nodes_of_listed hk.purge hlisted (by rwa [outline_purge]))
  · obtain ⟨y, hjy, hy⟩ := hloads j (IndexOf.mem_targets_of_listed hj hlisted)
    rw [hjx] at hjy
    cases hjy
    exact hy

/-- **A page is that of the purged store**, if what is bridged does not stop the
    read. -/
theorem exists_reads_purge (hk : db.Keyed) (hfinds : ∀ u, db.FindsPage ch q u) :
    (∃ ix l, Reads db ch q includeUrls ix l out) ↔
      (∃ ix' l', Reads db.purge ch q includeUrls ix' l' out) ∧ db.Bears ch q includeUrls := by
  constructor
  · rintro ⟨ix, l, h⟩
    refine ⟨?_, bears_of_reads hk h⟩
    obtain ⟨ix', h'⟩ := exists_indexOf_purge hk h.index
    obtain ⟨ps, hps, hl⟩ := h.lookups
    obtain ⟨hfits, hsupplies⟩ := exists_lookups_iff.1 ⟨l, hl⟩
    have hsub := h.index.nodes_purge_subset hk h'
    obtain ⟨l', hl'⟩ : ∃ l', (lookupsAt (fun _ => db) ix' ps includeUrls).result = .ok l' :=
      exists_lookups_iff.2 ⟨lookupsFit_mono hk hsub hfits, fun x hx => hsupplies x (hsub hx)⟩
    refine ⟨ix', l', h.taken, h', ⟨ps, ?_, ?_⟩,
      (h.index.assemble_purge hk h' hfinds hl hl').2 h.assembled⟩
    · rwa [propositionRows_purge]
    · rwa [lookupsAt_purge]
  · rintro ⟨⟨ix', l', h'⟩, hbears⟩
    obtain ⟨ix, h⟩ := exists_indexOf_of_loads h'.index hbears.loads
    obtain ⟨ps, hps, hl'⟩ := h'.lookups
    rw [lookupsAt_purge] at hl'
    rw [propositionRows_purge] at hps
    obtain ⟨-, hsupplies⟩ := exists_lookups_iff.1 ⟨l', hl'⟩
    obtain ⟨l, hl⟩ : ∃ l, (lookupsAt (fun _ => db) ix ps includeUrls).result = .ok l :=
      exists_lookups_iff.2 ⟨hbears.fits ix h, fun x =>
        supplies_of_nodes hk h h'.index hsupplies hbears.loads⟩
    exact ⟨ix, l, h'.taken, h, ⟨ps, hps, hl⟩,
      (h.assemble_purge hk h'.index hfinds hl hl').1 h'.assembled⟩

theorem read_eq_ok_iff_purge {r : Request} (hk : db.Keyed)
    (hfinds : ∀ q, r.compile = .ok q → ∀ u, db.FindsPage ch q u) :
    (db.read ch r).result = .ok out ↔ (db.purge.read ch r).result = .ok out ∧
      ∀ q, r.compile = .ok q → db.Bears ch q r.includeUrls := by
  by_cases hn : r.effectiveCount = 0
  · rw [read_of_count_eq_zero hn, read_of_count_eq_zero hn]
    exact (and_iff_left fun q hq => bears_of_empty hk (candidates_of_count_eq_zero hq hn)).symm
  · rw [read_eq_ok hk hn, read_eq_ok hk.purge hn]
    simp only [candidates_purge]
    constructor
    · rintro ⟨q, hq, ⟨hfits, he, rfl⟩ | ⟨he, hreads⟩⟩
      · refine ⟨⟨q, hq, .inl ⟨hfits, he, rfl⟩⟩, fun q' hq' => ?_⟩
        rw [hq] at hq'
        cases hq'
        exact bears_of_empty hk he
      · obtain ⟨hpurge, hbears⟩ := (exists_reads_purge hk (hfinds q hq)).1 hreads
        refine ⟨⟨q, hq, .inr ⟨he, hpurge⟩⟩, fun q' hq' => ?_⟩
        rw [hq] at hq'
        cases hq'
        exact hbears
    · rintro ⟨⟨q, hq, h | ⟨he, hreads⟩⟩, hbears⟩
      · exact ⟨q, hq, .inl h⟩
      · exact ⟨q, hq, .inr ⟨he, (exists_reads_purge hk (hfinds q hq)).2 ⟨hreads, hbears q hq⟩⟩⟩

/-! ## Stores without bridges -/

namespace Store

theorem targetRows_purge {q : Evaluation} (hk : db.Keyed) (h : ∀ t, ¬ db.Bridged q t) :
    db.purge.targetRows q = db.targetRows q := by
  have hids : db.justifications.live.filter (·.id ∈ (db.candidates q).flatMap db.purge.targetIds) =
      db.justifications.live.filter (·.id ∈ (db.candidates q).flatMap db.targetIds) := by
    refine List.filter_congr fun t ht => decide_eq_decide.2 ?_
    rw [List.mem_flatMap, List.mem_flatMap]
    constructor
    · rintro ⟨j, hj, hmem⟩
      exact ⟨j, hj, targetIds_purge_subset hk hmem⟩
    · intro hmem
      by_contra hpurge
      refine h t ⟨mem_targets.2 ⟨ht, hmem⟩, fun ht' => hpurge ?_⟩
      obtain ⟨-, j, hj, hmem⟩ := mem_targets.1 ht'
      exact ⟨j, by rwa [candidates_purge] at hj, hmem⟩
  rw [targetRows_eq hk.purge, targetRows_eq hk, justificationRows_purge, candidates_purge,
    justificationRows, justificationRows, hids]

/-- Where nothing is bridged, reads are the same, faults and warnings included. -/
theorem read_of_unbridged {r : Request} (hk : db.Keyed)
    (h : ∀ q, r.compile = .ok q → ∀ t, ¬ db.Bridged (q.use ch .targets) t) :
    db.read ch r = db.purge.read ch r := by
  rw [read, read, readAt, readAt]
  cases hq : r.compile with
  | error e => simp only [Logged.ofExcept_error_bind]
  | ok q =>
    simp only [Logged.ofExcept_ok_bind, pageAt, targetsAt, countersAt, propositionsAt,
      primaryRows_purge, targetRows_purge hk (h q hq), counterRows_purge, propositionRows_purge,
      lookupsAt_purge]

/-- No deleted justification that is itself a target has a live one as its target. -/
def Severed (db : Store) : Prop :=
  ∀ d ∈ db.justifications.rows, (∀ t ∈ db.justifications.live, t.id ≠ d.id) →
    (∃ j ∈ db.justifications.rows, j.targetId? = some d.id) →
    ∀ t ∈ db.justifications.live, d.targetId? ≠ some t.id

/-- From a target on, the walk through all rows comes to no live row after a
    deleted one. -/
theorem mem_targetIds_purge_of_passes (hk : db.Keyed) (hs : db.Severed) {path : List Id}
    {exit : Option Id} (hp : Graph.Passes db.nextTarget? i path exit)
    (htargeted : ∃ c ∈ db.justifications.rows, c.targetId? = some i)
    (hi : (∃ t ∈ db.justifications.live, t.id = i) → i ∈ db.purge.targetIds j) :
    ∀ k ∈ path, (∃ t ∈ db.justifications.live, t.id = k) → k ∈ db.purge.targetIds j := by
  induction hp with
  | ends hn => rwa [List.forall_mem_singleton]
  | leaves hn => rwa [List.forall_mem_singleton]
  | @step i k path exit hn hp ih =>
    obtain ⟨d, hd, hdk⟩ := Option.bind_eq_some_iff.1 hn
    have hdi : d.id = i := by simpa using List.find?_some hd
    have hrow := List.mem_of_find?_eq_some hd
    rw [List.forall_mem_cons]
    refine ⟨hi, ih ⟨d, hrow, hdk⟩ ?_⟩
    rintro ⟨t, ht, rfl⟩
    by_cases hlive : ∃ u ∈ db.justifications.live, u.id = i
    · have hmem := hi hlive
      obtain ⟨u, hu, rfl⟩ := hlive
      rw [nextTarget?_id hk hu] at hn
      exact mem_targetIds_next hk.purge (by simpa using hu) hmem (by simpa using ht) hn
    · -- a deleted target has no live one
      refine absurd hdk (hs d hrow (fun u hu hud => hlive ⟨u, hu, hud.trans hdi⟩) ?_ t ht)
      rwa [hdi]

theorem not_bridged_of_severed {q : Evaluation} (hk : db.Keyed) (hs : db.Severed) :
    ¬ db.Bridged q t := by
  rintro ⟨ht, hpurge⟩
  obtain ⟨ht, j, hj, hmem⟩ := mem_targets.1 ht
  refine hpurge (mem_targets.2 ⟨by simpa using ht, j, by rwa [candidates_purge], ?_⟩)
  have hrow : j ∈ db.justifications.rows :=
    (Table.live_sublist_rows _).subset (live_of_mem_candidates hj)
  obtain ⟨i, exit, hi, hp, -⟩ := exists_passes_targetIds hmem
  refine mem_targetIds_purge_of_passes hk hs hp ⟨j, hrow, hi⟩ ?_ t.id hmem ⟨t, ht, rfl⟩
  rintro ⟨u, hu, rfl⟩
  exact mem_targetIds_self (by simpa using hu) hi

/-- **Reads of a severed store** are reads of the purged store. -/
theorem read_of_severed (hk : db.Keyed) (hs : db.Severed) (ch : Chance) (r : Request) :
    db.read ch r = db.purge.read ch r :=
  read_of_unbridged hk fun _ _ _ => not_bridged_of_severed hk hs

end Store

/-! ## Deleted rows -/

/-- **Deleted rows do not change a page, but can make a read fail.**  A read gives
    the page of the purged store, if what is bridged does not stop it, and fails
    if it does.  This is so where all evaluations find the page again.  Where
    nothing is bridged, the two reads are the same in any case. -/
theorem read_purge (hk : db.Keyed) (ch : Chance) (r : Request) :
    ((∀ q, r.compile = .ok q → ∀ u, db.FindsPage ch q u) → ∀ out,
      (db.read ch r).result = .ok out ↔ (db.purge.read ch r).result = .ok out ∧
        ∀ q, r.compile = .ok q → db.Bears ch q r.includeUrls) ∧
    ((∀ q, r.compile = .ok q → ∀ t, ¬ db.Bridged (q.use ch .targets) t) →
      db.read ch r = db.purge.read ch r) :=
  ⟨fun hfinds _ => read_eq_ok_iff_purge hk hfinds, read_of_unbridged hk⟩

/-- A justification that counters a deleted one, which counters a live one by a
    user who may be deleted. -/
def Store.detour (deleted : Option String) : Store :=
  { sample [
      ⟨{ JustificationRow.sample 1 with
          targetType := "JUSTIFICATION", targetId := 2, polarity := "NEGATIVE" }, none⟩,
      ⟨{ JustificationRow.sample 2 with
          rootPolarity := "NEGATIVE", targetType := "JUSTIFICATION", targetId := 3,
          polarity := "NEGATIVE" }, some "2024-02-01T00:00:00+00:00"⟩,
      ⟨{ JustificationRow.sample 3 with creatorId := 2 }, none⟩] with
    users := [
      ⟨⟨1, "Ada", "2024-01-01T00:00:00+00:00"⟩, none⟩,
      ⟨⟨2, "Charles", "2024-01-01T00:00:00+00:00"⟩, deleted⟩] }

theorem read_purge_detour : let ch := Chance.level .asStored
    (detour none).Keyed ∧
    (∀ q, (oneRequest 1).compile = .ok q → ∀ u, (detour none).FindsPage ch q u) ∧
    ∃ x, ((detour none).read ch (oneRequest 1)).result = .ok [x] ∧
      ((detour none).purge.read ch (oneRequest 1)).result = .ok [x] := by
  intro ch
  have hk : (detour none).Keyed := by constructor <;> decide
  have hfinds : ∀ q, (oneRequest 1).compile = .ok q → ∀ u, (detour none).FindsPage ch q u :=
    fun _ _ _ => findsPage_of_found_eq rfl
  obtain ⟨x, hx, -⟩ : ∃ x, ((detour none).read ch (oneRequest 1)).result = .ok [x] ∧ x.id = 1 :=
    exists_single_of_ids (by decide +kernel)
  exact ⟨hk, hfinds, x, hx, (((read_purge hk ch (oneRequest 1)).1 hfinds [x]).1 hx).1⟩

/-- The fault of a run, if it ends with one. -/
theorem eq_error_of_map {α : Type} {x : Except Fault α} {e : Fault}
    (h : (fun _ => ()) <$> x = .error e) : x = .error e := by
  cases x with
  | error e => cases h; rfl
  | ok a => cases h

/-- A read fails for the creator of a justification behind a deleted one. -/
theorem read_detour_deleted : let db := detour (some "2024-02-01T00:00:00+00:00")
    let ch := Chance.level .asStored
    db.Keyed ∧
    (db.read ch (oneRequest 1)).result = .error (.integrity (.notFound .user 2)) ∧
    ∃ x, (db.purge.read ch (oneRequest 1)).result = .ok [x] := by
  intro db ch
  refine ⟨by constructor <;> decide, eq_error_of_map (by decide +kernel), ?_⟩
  obtain ⟨x, hx, -⟩ : ∃ x, (db.purge.read ch (oneRequest 1)).result = .ok [x] ∧ x.id = 1 :=
    exists_single_of_ids (by decide +kernel)
  exact ⟨x, hx⟩

end Rationale
