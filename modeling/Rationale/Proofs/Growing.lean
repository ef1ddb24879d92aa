/-
  Rationale — reads of a store that grows.

  While a page is read, others may add to the store: justifications, and what
  these need.  So each statement of a read finds a store of its own, which is
  well-formed and has all that earlier ones found (`Growing`).

  * `Index.Outlines`: outlines of the justifications of one store, although they
    may have been made from others;
  * `Knows.mono`: what was there is there later;
  * `Growing.exists_index`, `Growing.exists_lookups`: what a page needs is found,
    but for propositions.
-/
import Rationale.Proofs.Finding

namespace Rationale

open Query Store

variable {ch : Chance} {q : PageQuery} {ix : Index} {j : JustificationRow} {x : Justification}
  {i : Id}

/-! ## Steps -/

namespace ReadStep

/-- One step does not come after the other. -/
instance : LE ReadStep where
  le s t := s.ctorIdx ≤ t.ctorIdx

instance (s t : ReadStep) : Decidable (s ≤ t) :=
  inferInstanceAs (Decidable (s.ctorIdx ≤ t.ctorIdx))

theorem le_trans {s t u : ReadStep} (h : s ≤ t) (h' : t ≤ u) : s ≤ u :=
  Nat.le_trans h h'

end ReadStep

/-! ## Nodes -/

/-- Each node is the outline of a live justification, although it may have been
    made from another store. -/
structure Index.Outlines (ix : Index) (db : Store) : Prop where
  node : ∀ x ∈ ix.justifications, ∃ j ∈ db.justifications.live, ∃ db' : Store,
    db'.outline j = .ok x
  counter : ∀ c ∈ ix.counters, c.target.type = .justification

namespace IndexAt

variable {db : ReadStep → Store}

theorem exists_outline (h : IndexAt db ch q ix) (hx : x ∈ ix.justifications) :
    ∃ s ≤ ReadStep.counters, ∃ j ∈ (db s).justifications.live, (db s).outline j = .ok x := by
  rw [Index.justifications, List.mem_append, List.mem_append] at hx
  rcases hx with (hx | hx) | hx
  · obtain ⟨j, hj, hjx⟩ := exists_of_mem_mapM h.page hx
    exact ⟨.page, by decide, j, live_of_mem_page hj, hjx⟩
  · obtain ⟨j, hj, hjx⟩ := exists_of_mem_mapM h.targets hx
    exact ⟨.targets, by decide, j, (mem_listed.1 hj).1, hjx⟩
  · obtain ⟨j, hj, hjx⟩ := exists_of_mem_mapM h.counters hx
    exact ⟨.counters, by decide, j, (mem_listed.1 hj).1, hjx⟩

theorem ids_page (h : IndexAt db ch q ix) :
    ix.page.map (·.id) =
      ((db .page).page (q.use ch .page) (ch.found .listing)).map (·.id) :=
  map_eq_of_mapM (fun _ _ _ hjx => id_of_outline hjx) h.page

/-- The nodes, as outlines of what is there in the end. -/
theorem outlines (hk : (db .counters).Keyed) (h : IndexAt db ch q ix)
    (hlive : ∀ s ≤ ReadStep.counters,
      (db s).justifications.live ⊆ (db .counters).justifications.live) :
    ix.Outlines (db .counters) where
  node x hx := by
    obtain ⟨s, hs, j, hj, hjx⟩ := h.exists_outline hx
    exact ⟨j, hlive s hs hj, db s, hjx⟩
  counter c hc := by
    obtain ⟨j, hj, hjc⟩ := exists_of_mem_mapM h.counters hc
    obtain ⟨-, t, -, htarget⟩ := (mem_counters hk).1 hj
    obtain ⟨htype, -⟩ := target_of_outline hjc
    exact Coded.text_injective (htype.trans (JustificationRow.targetId?_eq_some.1 htarget).1)

end IndexAt

section

variable {db : Store}

theorem IndexOf.outlines_of_live (hk : db.Keyed) (h : IndexOf db ch q ix) : ix.Outlines db :=
  h.constant.outlines hk fun _ _ => List.Subset.refl _

namespace Index.Outlines

theorem of_mem_ids (h : ix.Outlines db) (hi : i ∈ ix.ids) :
    ∃ x, ix.node? i = some x ∧ ∃ j ∈ db.justifications.live, j.id = i ∧
      ∃ db' : Store, db'.outline j = .ok x := by
  obtain ⟨x, hx⟩ := Option.isSome_iff_exists.1 (Index.node?_isSome_iff.2 hi)
  obtain ⟨j, hj, db', hjx⟩ := h.node x (List.mem_of_find?_eq_some hx)
  exact ⟨x, hx, j, hj, by rw [← id_of_outline hjx, Index.id_of_node? hx], db', hjx⟩

/-- The node of a live justification. -/
theorem exists_node (hk : db.Keyed) (h : ix.Outlines db) (hj : j ∈ db.justifications.live)
    (hi : j.id ∈ ix.ids) :
    ∃ x, ix.node? j.id = some x ∧ ∃ db' : Store, db'.outline j = .ok x := by
  obtain ⟨x, hx, t, ht, htj, db', htx⟩ := h.of_mem_ids hi
  obtain rfl := hk.justifications.eq_of_id_eq ht hj htj
  exact ⟨x, hx, db', htx⟩

end Index.Outlines

end

/-! ## Stores that grow -/

/-- Nothing goes away that justifications may name.  So it is if rows are added
    and none is changed, whatever happens to the other tables. -/
structure Store.Grows (db db' : Store) : Prop where
  users : db.users.live ⊆ db'.users.live
  persorgs : db.persorgs.live ⊆ db'.persorgs.live
  statements : db.statements.live ⊆ db'.statements.live
  mediaExcerpts : db.mediaExcerpts.live ⊆ db'.mediaExcerpts.live
  justifications : db.justifications.live ⊆ db'.justifications.live

theorem Store.Grows.refl (db : Store) : db.Grows db := by
  constructor <;> exact List.Subset.refl _

/-- **What was there is there later.** -/
theorem Store.Knows.mono {db db' : Store} (hk : db'.Keyed) (hg : db.Grows db') (h : db.Knows x) :
    db'.Knows x where
  excerpts i hi := by
    obtain ⟨e, he, hei⟩ := h.excerpts i hi
    exact ⟨e, hg.mediaExcerpts he, hei⟩
  statements i hi := by
    obtain ⟨_, he⟩ := h.statements i hi
    obtain ⟨s, hs, he⟩ := Option.bind_eq_some_iff.1 he
    obtain ⟨u, hu, -⟩ := Option.bind_eq_some_iff.1 he
    have hs' : db'.statements.row? i = some s := hk.statements.row?_eq_some.2
      ⟨hg.statements (Table.mem_live_of_row? hs), Table.id_of_row? hs⟩
    have hu' : db'.persorgs.row? s.speakerId = some u := hk.persorgs.row?_eq_some.2
      ⟨hg.persorgs (Table.mem_live_of_row? hu), Table.id_of_row? hu⟩
    rw [statement?, hs', Option.bind_eq_bind, Option.bind_some, hu']
    exact ⟨_, rfl⟩
  creator := by
    obtain ⟨u, hu, hui⟩ := h.creator
    exact ⟨u, hg.users hu, hui⟩

/-- Each statement of a read finds what the statements before it found. -/
structure Growing (db : ReadStep → Store) : Prop where
  wellFormed : ∀ s, (db s).WellFormed
  grows : ∀ s t, s ≤ t → (db s).Grows (db t)

theorem Store.WellFormed.growing {db : Store} (hw : db.WellFormed) : Growing fun _ => db where
  wellFormed _ := hw
  grows _ _ _ := .refl db

namespace Growing

variable {db : ReadStep → Store} {ps : List Proposition}

variable (hg : Growing db)

include hg

theorem keyed (s : ReadStep) : (db s).Keyed :=
  (hg.wellFormed s).keyed

theorem readable (s : ReadStep) : (db s).Readable :=
  (hg.wellFormed s).readable

theorem exists_index (ch : Chance) (q : PageQuery) : ∃ ix, IndexAt db ch q ix := by
  obtain ⟨page, hpage⟩ : ∃ xs, ((db .page).page (q.use ch .page)
      (ch.found .listing)).mapM (db .page).outline = .ok xs :=
    (hg.readable .page).exists_outlines fun j hj => live_of_mem_page hj
  obtain ⟨targets, htargets⟩ : ∃ xs,
      ((db .targets).targets (q.use ch .targets)).mapM (db .targets).outline = .ok xs :=
    (hg.readable .targets).exists_outlines fun j hj => (mem_listed.1 hj).1
  obtain ⟨counters, hcounters⟩ : ∃ xs,
      ((db .counters).counters (q.use ch .counters)).mapM (db .counters).outline = .ok xs :=
    (hg.readable .counters).exists_outlines fun j hj => (mem_listed.1 hj).1
  exact ⟨⟨page, targets, counters⟩, hpage, htargets, hcounters⟩

theorem exists_propositions (targets roots : Evaluation) :
    ∃ ps, ((db .propositions).propositionRows targets roots).mapM PropositionRow.decode =
      .ok ps := by
  apply exists_mapM_eq_ok
  intro p hp
  obtain ⟨i, -, hp⟩ := List.mem_filterMap.1 hp
  exact (hg.readable .propositions).exists_decode_proposition (Table.mem_live_of_row? hp)

/-- In the end there are the justifications of all parts of the index. -/
theorem outlines (h : IndexAt db ch q ix) : ix.Outlines (db .counters) :=
  h.outlines (hg.keyed .counters) fun s hs => (hg.grows s .counters hs).justifications

/-- What the index names is there, when it is looked up. -/
theorem knows (h : IndexAt db ch q ix) (x : Justification) (hx : x ∈ ix.nodes) :
    (db .mediaExcerpts).Knows x ∧ (db .statements).Knows x ∧ (db .users).Knows x := by
  have hmem : x ∈ ix.justifications := List.mem_of_find?_eq_some (Index.mem_nodes.1 hx)
  obtain ⟨s, hs, j, hj, hjx⟩ := h.exists_outline hmem
  have hknows : ∀ t, .counters ≤ t → (db t).Knows x := fun t ht =>
    ((hg.wellFormed s).knows hj hjx).mono (hg.keyed t) (hg.grows s t (ReadStep.le_trans hs ht))
  exact ⟨hknows _ (by decide), hknows _ (by decide), hknows _ (by decide)⟩

/-- **What the index names is found**, if the database takes the statements. -/
theorem exists_lookups {includeUrls : Bool} (h : IndexAt db ch q ix)
    (hfits : LookupsFit db ix includeUrls) (ps : List Proposition) :
    ∃ l, (lookupsAt db ix ps includeUrls).result = .ok l :=
  exists_lookups_of_knows hg.readable hfits (hg.knows h) ps

end Growing

end Rationale
