/-
  Rationale — what assembling a page takes.

  A justification of the page is assembled from the nodes on the walk along its
  targets, each filled in, and from those that counter it.

  * `assembleNode_eq_ok`, `assembleWithCounters_eq_ok`, `assemble_eq_ok`: what
    has to succeed, and what then comes out;
  * `IndexOf`: an index of outlines; its nodes are `node?_eq_some` those that
    the store knows by their ids.
-/
import Rationale.Proofs.Hydration
import Rationale.Proofs.PageRows

namespace Rationale

namespace Index

variable {ix : Index} {l : Lookups} {i : Id} {x : Justification}

/-! ## One justification -/

theorem leave_eq_ok {w : Graph.Walk Id} :
    (ix.leave w).result = .ok () ↔ ∀ last k, w.path.getLast? = some last → w.exit = some k →
      k ∉ ix.ids := by
  unfold leave
  cases w.path.getLast? with
  | none => simp
  | some last =>
    cases w.exit with
    | none => simp
    | some k =>
      by_cases hk : k ∈ ix.ids
      · simp [hk]
      · simp [hk]

theorem assembleNode_eq_ok :
    (ix.assembleNode l i).result = .ok x ↔ ∃ j ts,
      (ix.targetWalk i).path.mapM (ix.shell l) = .ok (j :: ts) ∧
      (ix.leave (ix.targetWalk i)).result = .ok () ∧ x = Lookups.nested j ts ∧
      l.AllPassed j ts := by
  unfold assembleNode
  simp only [Logged.result_bind, bind_eq_ok, Logged.result_ofExcept]
  constructor
  · rintro ⟨_ | ⟨j, ts⟩, hpath, h⟩
    · cases h
    · obtain ⟨_, hleave, h⟩ := bind_eq_ok.1 (Logged.result_bind .. ▸ h)
      obtain ⟨rfl, hpassed⟩ := Lookups.nest_eq_ok.1 h
      exact ⟨j, ts, hpath, hleave, rfl, hpassed⟩
  · rintro ⟨j, ts, hpath, hleave, rfl, hpassed⟩
    refine ⟨j :: ts, hpath, ?_⟩
    rw [Logged.result_bind]
    exact bind_eq_ok.2 ⟨(), hleave, Lookups.nest_eq_ok.2 ⟨rfl, hpassed⟩⟩

theorem assembleCounter_result : (ix.assembleCounter l i).result = ix.shell l i := by
  unfold assembleCounter
  simp only [Logged.result_bind, Logged.result_ofExcept, Logged.result_warn, ok_bind,
    Logged.result_pure]
  cases ix.shell l i <;> rfl

theorem assembleWithCounters_eq_ok :
    (ix.assembleWithCounters l i).result = .ok x ↔ ∃ y cs,
      (ix.assembleNode l i).result = .ok y ∧
      (ix.countersOf i).mapM (fun c => ix.shell l c.id) = .ok cs ∧
      x = { y with counters := cs } := by
  unfold assembleWithCounters
  simp only [Logged.result_bind, bind_eq_ok, Logged.result_mapM, assembleCounter_result,
    Logged.result_pure, Except.ok.injEq, eq_comm (b := x)]
  exact exists_congr fun y => ⟨fun ⟨hy, cs, h⟩ => ⟨cs, hy, h⟩, fun ⟨cs, hy, h⟩ => ⟨hy, cs, h⟩⟩

theorem assemble_eq_ok {out : List Justification} :
    (ix.assemble l).result = .ok out ↔
      List.Forall₂ (fun p x => (ix.assembleWithCounters l p.id).result = .ok x) ix.page out := by
  rw [assemble, Logged.result_mapM, mapM_eq_ok]

section

variable {js : List JustificationRow} {j : JustificationRow}
  (hids : ix.page.map (·.id) = js.map (·.id))

include hids

/-- Nothing but the ids of the page matters. -/
theorem assemble_of_ids :
    (ix.assemble l).result = js.mapM fun j => (ix.assembleWithCounters l j.id).result := by
  let node (i : Id) : Except Fault Justification := (ix.assembleWithCounters l i).result
  calc (ix.assemble l).result
    _ = ix.page.mapM fun p => node p.id := Logged.result_mapM ..
    _ = (ix.page.map (·.id)).mapM node := by rw [List.mapM_map]; rfl
    _ = (js.map (·.id)).mapM node := by rw [hids]
    _ = js.mapM fun j => node j.id := List.mapM_map (f := JustificationRow.id)

theorem mem_ids_of_page (hj : j ∈ js) : j.id ∈ ix.ids := by
  have hmem : j.id ∈ ix.page.map (·.id) := hids ▸ List.mem_map_of_mem hj
  obtain ⟨x, hx, hxj⟩ := List.mem_map.1 hmem
  exact mem_ascending.2 (List.mem_map.2
    ⟨x, List.mem_append_left _ (List.mem_append_left _ hx), hxj⟩)

end

end Index

/-! ## Outlines -/

namespace Store

variable {db : Store} {j t : JustificationRow} {x : Justification}

theorem id_of_outline (h : db.outline j = .ok x) : x.id = j.id := by
  obtain ⟨y, hy, _, _, _, _, _, _, rfl⟩ := outline_eq_ok.1 h
  exact JustificationRow.id_of_decode (x := y) hy

/-- What a traversal of a link gives has the id of what is linked. -/
theorem id_of_mapM {α β : Type} {f : α → Except Fault β} (key : α → Id) {key' : β → Id}
    (hf : ∀ a b, f a = .ok b → key' b = key a) {o : Option α} {p : Option β} {i : Id}
    (ho : ∀ a, o = some a → key a = i) (h : o.mapM f = .ok p) : ∀ b ∈ p, key' b = i := by
  intro b hb
  rcases option_mapM_eq_ok.1 h with ⟨rfl, rfl⟩ | ⟨a, b', rfl, rfl, hab⟩
  · cases hb
  · cases hb
    rw [hf a b hab, ho a rfl]

/-- The basis is filled in under its own id. -/
theorem basis_of_outline (h : db.outline j = .ok x) :
    ∃ y, j.decode = .ok y ∧ x.basis.type = y.basis.type ∧ x.basis.id = y.basis.id ∧
      x = { y with basis := x.basis } := by
  obtain ⟨y, hy, c, hc, w, hw, m, hm, rfl⟩ := outline_eq_ok.1 h
  refine ⟨y, hy, Basis.resolve_type .., ?_, rfl⟩
  obtain ⟨-, hid⟩ := JustificationRow.basis_of_row (JustificationRow.row_of_decode hy)
  cases ht : y.basis.type with
  | propositionCompound =>
    refine Relation.ofLookup_id (id_of_mapM (·.id) (fun a b hb => ?_) (fun a ha => ?_) hc)
    · obtain ⟨_, _, hb⟩ := bind_eq_ok.1 hb
      obtain ⟨_, _, hb⟩ := bind_eq_ok.1 hb
      cases hb
      rfl
    · rw [hid]
      exact Table.id_of_typed? ha
  | writQuote =>
    refine Relation.ofLookup_id
      (id_of_mapM (·.quote.id) (fun a b => JoinedQuote.id_of_decode) (fun a ha => ?_) hw)
    rw [hid]
    exact Table.id_of_typed? (quote_of_quoteOf? ha).1
  | mediaExcerpt => rfl
  | justificationBasisCompound =>
    refine Relation.ofLookup_id (id_of_mapM (·.id) (fun a b hb => ?_) (fun a ha => ?_) hm)
    · obtain ⟨_, _, hb⟩ := bind_eq_ok.1 hb
      obtain ⟨_, _, hb⟩ := bind_eq_ok.1 hb
      cases hb
      rfl
    · rw [hid]
      exact Table.id_of_typed? ha

/-- **An outline keeps the row.** -/
theorem row_of_outline (h : db.outline j = .ok x) : x.row = j.createdAt x.created := by
  obtain ⟨y, hy, htype, hid, hx⟩ := basis_of_outline h
  rw [hx]
  have hrow := JustificationRow.row_of_decode hy
  simp only [Justification.row] at hrow ⊢
  rw [htype, hid]
  exact hrow

theorem target_of_outline (h : db.outline j = .ok x) :
    Coded.text x.target.type = j.targetType ∧ x.target.id = j.targetId :=
  JustificationRow.target_of_row (row_of_outline h)

theorem rootTarget_of_outline (h : db.outline j = .ok x) :
    Coded.text x.rootTarget.type = j.rootTargetType ∧ x.rootTarget.id = j.rootTargetId :=
  JustificationRow.rootTarget_of_row (row_of_outline h)

/-- What else an outline keeps. -/
theorem decode_of_outline (h : db.outline j = .ok x) :
    Time.Instant.read j.created = .ok x.created ∧ x.creator = .ref j.creatorId ∧
      x.counters = [] ∧ (∃ type, x.target = .resolve {} type j.targetId) ∧
      ∃ type, x.rootTarget = .resolve {} type j.rootTargetId := by
  obtain ⟨y, hy, -, -, hx⟩ := basis_of_outline h
  obtain ⟨rt, _, tt, _, _, t, _, _, _, _, _, ht, rfl⟩ := JustificationRow.decode_eq_ok.1 hy
  rw [hx]
  exact ⟨ht, rfl, rfl, ⟨tt, rfl⟩, ⟨rt, rfl⟩⟩

/-- The target of an outline is open if and only if it is a justification. -/
theorem openTarget?_of_outline (h : db.outline j = .ok x) :
    Index.openTarget? x = j.targetId? ∧ ∀ y, x.target ≠ .justification (.entity y) := by
  obtain ⟨-, -, -, ⟨type, htarget⟩, -⟩ := decode_of_outline h
  obtain ⟨htype, -⟩ := target_of_outline h
  rw [htarget, TargetOf.resolve_type] at htype
  rw [Index.openTarget?, JustificationRow.targetId?, htarget, ← htype]
  refine ⟨?_, fun y hy => ?_⟩
  · cases type <;> simp [TargetOf.resolve, Relation.ofLookup, Coded.text]
  · cases type <;> cases hy

end Store

/-! ## Indexes of outlines -/

open Query Store

/-- The index of a page, whose nodes are outlines. -/
structure IndexOf (db : Store) (ch : Chance) (q : PageQuery) (ix : Index) : Prop where
  page : (db.page (q.use ch .page) (ch.found .listing)).mapM db.outline = .ok ix.page
  targets : (db.targets (q.use ch .targets)).mapM db.outline = .ok ix.targets
  counters : (db.counters (q.use ch .counters)).mapM db.outline = .ok ix.counters

namespace IndexOf

variable {db : Store} {ch : Chance} {q : PageQuery} {ix : Index} {j : JustificationRow}
  {x : Justification} {i : Id}

/-- The justifications that the index is about. -/
def listed (db : Store) (ch : Chance) (q : PageQuery) : List JustificationRow :=
  db.page (q.use ch .page) (ch.found .listing) ++ db.targets (q.use ch .targets) ++
    db.counters (q.use ch .counters)

theorem live_of_listed (h : j ∈ listed db ch q) : j ∈ db.justifications.live := by
  simp only [listed, List.mem_append] at h
  rcases h with (h | h) | h <;> exact (mem_listed.1 h).1

/-- What the index holds, in the same order. -/
theorem outlines (h : IndexOf db ch q ix) :
    (listed db ch q).mapM db.outline = .ok ix.justifications := by
  rw [listed, List.mapM_append, List.mapM_append, h.page, h.targets, h.counters]
  rfl

theorem mem_justifications (h : IndexOf db ch q ix) :
    x ∈ ix.justifications → ∃ j, j ∈ listed db ch q ∧ db.outline j = .ok x := by
  exact fun hx => exists_of_mem_mapM h.outlines hx

theorem exists_mem (h : IndexOf db ch q ix) (hj : j ∈ listed db ch q) :
    ∃ x ∈ ix.justifications, db.outline j = .ok x := by
  exact exists_mem_of_mapM h.outlines hj

/-- **The nodes of the index.** -/
theorem node?_eq_some (hk : db.Keyed) (h : IndexOf db ch q ix) :
    ix.node? i = some x ↔ ∃ j, j ∈ listed db ch q ∧ j.id = i ∧ db.outline j = .ok x := by
  constructor
  · intro hx
    obtain ⟨j, hj, hjx⟩ := h.mem_justifications (List.mem_of_find?_eq_some hx)
    exact ⟨j, hj, by rw [← id_of_outline hjx, Index.id_of_node? hx], hjx⟩
  · rintro ⟨j, hj, rfl, hjx⟩
    cases hn : ix.node? j.id with
    | none =>
      obtain ⟨y, hy, hjy⟩ := h.exists_mem hj
      have hne := List.find?_eq_none.1 hn y hy
      simp [id_of_outline hjy] at hne
    | some y =>
      obtain ⟨k, hk', hky⟩ := h.mem_justifications (List.mem_of_find?_eq_some hn)
      have hkj : k.id = j.id := by rw [← id_of_outline hky, Index.id_of_node? hn]
      obtain rfl := hk.justifications.eq_of_id_eq (live_of_listed hk') (live_of_listed hj) hkj
      rw [hjx] at hky
      cases hky
      rfl

theorem mem_ids (h : IndexOf db ch q ix) : i ∈ ix.ids ↔ ∃ j, j ∈ listed db ch q ∧ j.id = i := by
  rw [Index.ids, mem_ascending, List.mem_map]
  constructor
  · rintro ⟨x, hx, rfl⟩
    obtain ⟨j, hj, hjx⟩ := h.mem_justifications hx
    exact ⟨j, hj, (id_of_outline hjx).symm⟩
  · rintro ⟨j, hj, rfl⟩
    obtain ⟨x, hx, hjx⟩ := h.exists_mem hj
    exact ⟨x, hx, id_of_outline hjx⟩

theorem mem_nodes_of_listed (hk : db.Keyed) (h : IndexOf db ch q ix) (hj : j ∈ listed db ch q)
    (hjx : db.outline j = .ok x) : x ∈ ix.nodes :=
  List.mem_filterMap.2 ⟨j.id, h.mem_ids.2 ⟨j, hj, rfl⟩, (h.node?_eq_some hk).2 ⟨j, hj, rfl, hjx⟩⟩

end IndexOf

end Rationale
