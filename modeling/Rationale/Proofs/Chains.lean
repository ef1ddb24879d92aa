/-
  Rationale — chains of targets, in the store and in a page.

  From a justification its targets lead through justifications that are known,
  as far as there are any (`TargetChain`).  A justification of a page has the
  chain nested in it that leads through those of its index: link by link the row
  is that of the store, and each target is in place (`InPlace`), with what it
  names at hand or, if that is not known, by its id.

  * `chain_of_passes`: what the walk of the assembly nests;
  * `chain_of_assembleNode`: the same for a justification of the index;
  * `TargetChain.live`, `TargetChain.mem_of_leads`: a chain leads through all that
    is live if and only if all of that is known.
-/
import Mathlib.Logic.Relation
import Rationale.Proofs.Assembling

namespace Rationale

open Time Lookups JustificationRow

/-! ## Among justifications -/

/-- The known justifications to which targets lead from a justification, which is
    the first of them. -/
inductive JustificationRow.TargetChain (known : List JustificationRow) :
    JustificationRow → List JustificationRow → Prop
  | ends {j} : (∀ t ∈ known, j.targetId? ≠ some t.id) → TargetChain known j [j]
  | step {j t js} : t ∈ known → j.targetId? = some t.id →
      TargetChain known t js → TargetChain known j (j :: js)

/-- A target is at hand, or else it is a justification that is not known. -/
inductive JustificationRow.InPlace (known : List JustificationRow) : Target → Prop
  | proposition p : InPlace known (.proposition (.entity p))
  | statement s : InPlace known (.statement (.entity s))
  | justification {x t} : t ∈ known → t.id = x.id → InPlace known (.justification (.entity x))
  | missing {i} : (∀ t ∈ known, t.id ≠ i) → InPlace known (.justification (.ref i))

/-- A justification as it is shown: its row is that of the store, with the
    timestamp written anew. -/
structure JustificationRow.Shown (j : JustificationRow) (x : Justification) : Prop where
  row : x.row = j.createdAt x.created
  created : Instant.read j.created = .ok x.created

theorem JustificationRow.Shown.id {j : JustificationRow} {x : Justification} (h : j.Shown x) :
    x.id = j.id :=
  JustificationRow.id_of_row h.row

theorem JustificationRow.ids_of_shown {js : List JustificationRow} {xs : List Justification}
    (h : List.Forall₂ Shown js xs) : xs.map (·.id) = js.map (·.id) := by
  induction h with
  | nil => rfl
  | @cons j x js xs hjx _ ih => rw [List.map_cons, List.map_cons, ih, hjx.id]

/-- A link of a chain, shown with its target in place. -/
structure JustificationRow.Link (known : List JustificationRow) (j : JustificationRow)
    (x : Justification) : Prop extends j.Shown x where
  target : InPlace known x.target

theorem JustificationRow.TargetChain.exists_cons {known : List JustificationRow}
    {j : JustificationRow} {js : List JustificationRow} (h : TargetChain known j js) :
    ∃ rest, js = j :: rest := by
  cases h <;> exact ⟨_, rfl⟩

namespace Justification

theorem chain_eq (x : Justification) :
    x.chain = x :: match x.target with
      | .justification (.entity t) => t.chain
      | _ => [] := by
  cases x with
  | mk id rootTarget rootPolarity target basis polarity creator created counters =>
    cases target with
    | proposition p => rw [chain]; simp
    | statement s => rw [chain]; simp
    | justification t =>
      cases t with
      | entity t => rw [chain]
      | ref i => rw [chain]; simp

theorem exists_chain_eq_cons (x : Justification) : ∃ xs, x.chain = x :: xs :=
  ⟨_, x.chain_eq⟩

variable {x t : Justification}

theorem chain_of_nested (h : x.target = .justification (.entity t)) : x.chain = x :: t.chain := by
  rw [chain_eq, h]

/-- The second justification of a chain is the target of the first. -/
theorem target_of_chain (h : x.chain[1]? = some t) : x.target = .justification (.entity t) := by
  rw [chain_eq] at h
  cases htarget : x.target with
  | proposition | statement =>
    rw [htarget] at h
    cases h
  | justification r =>
    rw [htarget] at h
    cases r with
    | entity y =>
      obtain ⟨ys, hys⟩ := y.exists_chain_eq_cons
      simp only [hys, List.getElem?_cons_succ, List.getElem?_cons_zero, Option.some.injEq] at h
      rw [h]
    | ref i => cases h

end Justification

namespace IndexOf

variable {db : Store} {ch : Chance} {q : Query.PageQuery} {ix : Index} {l : Lookups}
  {j t : JustificationRow} {x y : Justification} {i k : Id}

/-! ## In an index -/

/-- Where the walk of the assembly goes on. -/
def next (ix : Index) (i : Id) : Option Id :=
  (ix.node? i).bind Index.openTarget?

theorem passes_targetWalk (hi : i ∈ ix.ids) :
    Graph.Passes (next ix) i (ix.targetWalk i).path (ix.targetWalk i).exit :=
  Graph.passes_walk hi

/-- A walk may be left for what is not in the index. -/
theorem leave_targetWalk_eq_ok (hi : i ∈ ix.ids) :
    (ix.leave (ix.targetWalk i)).result = .ok () ↔ ∀ k ∈ (ix.targetWalk i).exit, k ∉ ix.ids := by
  obtain ⟨rest, hrest⟩ := (passes_targetWalk hi).exists_cons
  rw [Index.leave_eq_ok, hrest]
  exact ⟨fun h k => h _ k List.getLast?_cons, fun h _ k _ => h k⟩

/-- The walk goes on where the store does. -/
theorem next_of_listed (hk : db.Keyed) (h : IndexOf db ch q ix) (hj : j ∈ listed db ch q) :
    next ix j.id = j.targetId? := by
  obtain ⟨x, -, hjx⟩ := h.exists_mem hj
  rw [next, (h.node?_eq_some hk).2 ⟨j, hj, rfl, hjx⟩, Option.bind_some]
  exact (Store.openTarget?_of_outline hjx).1

theorem exists_node_of_shell (h : ix.shell l i = .ok y) :
    ∃ x, ix.node? i = some x ∧ l.hydrate x = .ok y := by
  unfold Index.shell at h
  cases hx : ix.node? i with
  | none =>
    rw [hx] at h
    cases h
  | some x =>
    rw [hx] at h
    exact ⟨x, rfl, h⟩

/-- A node filled in: either its target is, or it is still a bare id. -/
theorem shell_eq_ok (hk : db.Keyed) (hl : l.Keyed) (h : IndexOf db ch q ix)
    (hx : ix.shell l i = .ok x) : ∃ j, j ∈ listed db ch q ∧ j.id = i ∧ x.id = i ∧ j.Shown x ∧
      next ix i = j.targetId? ∧ x.counters = [] ∧
      ((∃ p, x.target = .proposition (.entity p)) ∧ j.targetId? = none ∨
        (∃ s, x.target = .statement (.entity s)) ∧ j.targetId? = none ∨
        ∃ k, x.target = .justification (.ref k) ∧ j.targetId? = some k) := by
  obtain ⟨y, hn, hy⟩ := exists_node_of_shell hx
  obtain ⟨j, hj, rfl, hjy⟩ := (h.node?_eq_some hk).1 hn
  obtain ⟨hrow, hcreated⟩ := row_of_hydrate hl hy
  obtain ⟨hread, -, hcounters, ⟨type, htarget⟩, -⟩ := Store.decode_of_outline hjy
  obtain ⟨hopen, -⟩ := Store.openTarget?_of_outline hjy
  have hid := Index.id_of_node? hn
  obtain ⟨target, ht, _, _, _, _, _, _, rfl⟩ := hydrate_eq_ok.1 hy
  refine ⟨j, hj, rfl, hid, ⟨?_, hread⟩, h.next_of_listed hk hj, hcounters, ?_⟩
  · rw [hrow, Store.row_of_outline hjy]
  · rw [← hopen, Index.openTarget?]
    rcases target_eq_ok ht with ⟨p, a, hp, -, rfl⟩ | ⟨s, a, hs, -, rfl⟩ | ⟨r, hr, rfl⟩
    · exact .inl ⟨⟨a, rfl⟩, by rw [hp]⟩
    · exact .inr (.inl ⟨⟨a, rfl⟩, by rw [hs]⟩)
    · cases type <;> rw [htarget] at hr <;> cases hr
      exact .inr (.inr ⟨_, rfl, by rw [htarget]; rfl⟩)

/-- A target that is not in the index is none of the justifications it is about. -/
theorem ne_of_not_mem (h : IndexOf db ch q ix) (hk : k ∉ ix.ids) :
    ∀ t ∈ listed db ch q, t.id ≠ k := by
  rintro t ht rfl
  exact hk (h.mem_ids.2 ⟨t, ht, rfl⟩)

/-- A node that is the last of its walk. -/
theorem chain_of_last (hk : db.Keyed) (hl : l.Keyed) (h : IndexOf db ch q ix)
    (hx : ix.shell l j.id = .ok x) (hj : j ∈ listed db ch q)
    (hout : ∀ k, next ix j.id = some k → k ∉ ix.ids) :
    TargetChain (listed db ch q) j [j] ∧ List.Forall₂ (Link (listed db ch q)) [j] x.chain := by
  obtain ⟨j', hj', hid, -, hshown, hnext, -, htarget⟩ := shell_eq_ok hk hl h hx
  obtain rfl := hk.justifications.eq_of_id_eq (live_of_listed hj') (live_of_listed hj) hid
  rw [hnext] at hout
  have hmissing : ∀ k, j'.targetId? = some k → ∀ t ∈ listed db ch q, t.id ≠ k :=
    fun k hk' => h.ne_of_not_mem (hout k hk')
  refine ⟨.ends fun t ht htid => hmissing _ htid t ht rfl, ?_⟩
  rw [Justification.chain_eq]
  rcases htarget with ⟨⟨p, hp⟩, -⟩ | ⟨⟨s, hs⟩, -⟩ | ⟨k, hk', htid⟩
  · rw [hp]
    exact .cons ⟨hshown, hp ▸ .proposition p⟩ .nil
  · rw [hs]
    exact .cons ⟨hshown, hs ▸ .statement s⟩ .nil
  · rw [hk']
    exact .cons ⟨hshown, hk' ▸ .missing (hmissing k htid)⟩ .nil

/-- A node whose target is nested in it. -/
theorem chain_of_step (hk : db.Keyed) (hl : l.Keyed) (h : IndexOf db ch q ix)
    (hx : ix.shell l j.id = .ok x) (hj : j ∈ listed db ch q) (ht : t ∈ listed db ch q)
    (htarget : j.targetId? = some t.id) (hy : y.id = t.id) {js : List JustificationRow}
    (hchain : List.Forall₂ (Link (listed db ch q)) js y.chain) :
    List.Forall₂ (Link (listed db ch q)) (j :: js)
      { x with target := .justification (.entity y) }.chain := by
  obtain ⟨j', hj', hid, -, ⟨hrow, hcreated⟩, hnext, -, hxt⟩ := shell_eq_ok hk hl h hx
  obtain rfl := hk.justifications.eq_of_id_eq (live_of_listed hj') (live_of_listed hj) hid
  obtain hxt : x.target = .justification (.ref t.id) := by
    rcases hxt with ⟨-, hnone⟩ | ⟨-, hnone⟩ | ⟨k, hxt, hsome⟩
    · rw [htarget] at hnone
      cases hnone
    · rw [htarget] at hnone
      cases hnone
    · rw [htarget] at hsome
      cases hsome
      exact hxt
  rw [Justification.chain_eq]
  refine .cons ⟨⟨?_, hcreated⟩, .justification ht hy.symm⟩ hchain
  have hsame : { x with target := .justification (.entity y) }.row = x.row := by
    simp only [Justification.row, hxt, TargetOf.type, TargetOf.id, Relation.id, hy]
  rw [hsame, hrow]

/-- **What is nested is the chain through the index.** -/
theorem chain_of_passes (hk : db.Keyed) (hl : l.Keyed) (h : IndexOf db ch q ix) {path : List Id}
    {exit : Option Id} (hp : Graph.Passes (next ix) i path exit) (hexit : ∀ k ∈ exit, k ∉ ix.ids)
    {ys : List Justification} (hys : path.mapM (ix.shell l) = .ok ys)
    (hj : j ∈ listed db ch q) (hji : j.id = i) :
    ∃ x xs js, ys = x :: xs ∧ x.id = i ∧ js.map (·.id) = path ∧
      TargetChain (listed db ch q) j js ∧
      List.Forall₂ (Link (listed db ch q)) js (nested x xs).chain := by
  subst hji
  generalize hi : j.id = i at hp
  induction hp generalizing j ys with
  | @ends i hn =>
    subst hi
    obtain ⟨x, _, hx, ⟨⟩, rfl⟩ := List.forall₂_cons_left_iff.1 (mapM_eq_ok.1 hys)
    obtain ⟨hchain, hlinks⟩ := chain_of_last hk hl h hx hj fun k hk' => by rw [hn] at hk'; cases hk'
    obtain ⟨-, -, -, hid, -⟩ := shell_eq_ok hk hl h hx
    exact ⟨x, [], [j], rfl, hid, rfl, hchain, hlinks⟩
  | @leaves i k hn =>
    subst hi
    obtain ⟨x, _, hx, ⟨⟩, rfl⟩ := List.forall₂_cons_left_iff.1 (mapM_eq_ok.1 hys)
    obtain ⟨hchain, hlinks⟩ := chain_of_last hk hl h hx hj fun k' hk' => by
      rw [hn] at hk'
      cases hk'
      exact hexit _ rfl
    obtain ⟨-, -, -, hid, -⟩ := shell_eq_ok hk hl h hx
    exact ⟨x, [], [j], rfl, hid, rfl, hchain, hlinks⟩
  | @step i k path exit hn hp ih =>
    subst hi
    obtain ⟨x, xs, hx, hxs, rfl⟩ := List.forall₂_cons_left_iff.1 (mapM_eq_ok.1 hys)
    obtain ⟨j', hj', hid, hxid, -, hnext, -⟩ := shell_eq_ok hk hl h hx
    obtain rfl := hk.justifications.eq_of_id_eq (live_of_listed hj') (live_of_listed hj) hid
    -- the successor is a node, since it was filled in
    obtain ⟨rest, rfl⟩ := hp.exists_cons
    obtain ⟨y, ys, hy, hys, rfl⟩ := List.forall₂_cons_left_iff.1 hxs
    obtain ⟨t, ht, rfl, -⟩ := shell_eq_ok hk hl h hy
    rw [hn] at hnext
    obtain ⟨z, zs, js, hzs, hzid, hids, hchain, hlinks⟩ :=
      ih hexit (mapM_eq_ok.2 hxs) ht rfl
    cases hzs
    refine ⟨x, y :: ys, j' :: js, rfl, hxid, ?_, .step ht hnext.symm hchain, ?_⟩
    · rw [List.map_cons, hids]
    · exact chain_of_step hk hl h hx hj ht hnext.symm (by rw [nested_id, hzid]) hlinks

/-- A justification of the index, without its counters. -/
theorem chain_of_assembleNode (hk : db.Keyed) (hl : l.Keyed) (h : IndexOf db ch q ix)
    (hx : (ix.assembleNode l j.id).result = .ok x) (hj : j ∈ listed db ch q) :
    x.id = j.id ∧ ∃ js, (js.map (·.id)).Nodup ∧ TargetChain (listed db ch q) j js ∧
      List.Forall₂ (Link (listed db ch q)) js x.chain := by
  obtain ⟨y, ys, hpath, hleave, rfl, -⟩ := Index.assembleNode_eq_ok.1 hx
  have hfree : j.id ∈ ix.ids := h.mem_ids.2 ⟨j, hj, rfl⟩
  have hexit := (leave_targetWalk_eq_ok hfree).1 hleave
  obtain ⟨z, zs, js, hzs, hzid, hids, hchain, hlinks⟩ :=
    chain_of_passes hk hl h (passes_targetWalk hfree) hexit hpath hj rfl
  cases hzs
  refine ⟨by rw [nested_id, hzid], js, ?_, hchain, hlinks⟩
  rw [hids]
  exact Graph.nodup_path ..

end IndexOf

/-! ## Among all that is live -/

namespace Store

variable {db : Store} {ch : Chance} {q : Query.PageQuery} {j t : JustificationRow}

/-- The justification `t` is the target of `j`, and both are live. -/
def Counters (db : Store) (j t : JustificationRow) : Prop :=
  j ∈ db.justifications.live ∧ t ∈ db.justifications.live ∧ j.targetId? = some t.id

/-- What the search for targets starts at leads to what it finds. -/
theorem mem_targets_of_leads (hk : db.Keyed) {q : Query.Evaluation} (hj : j ∈ db.candidates q)
    (h : Relation.TransGen db.Counters j t) : t ∈ db.targets q := by
  induction h with
  | single h => exact mem_targets_of_target hk (.inl hj) h.2.1 h.2.2
  | tail _ h ih => exact mem_targets_of_target hk (.inr ih) h.2.1 h.2.2

/-- **All is listed to which targets lead**, if the page is found when they are
    followed. -/
theorem listed_of_leads (hk : db.Keyed) (hfinds : db.FindsPage ch q .targets)
    (hj : j ∈ db.page (q.use ch .page) (ch.found .listing))
    (ht : Relation.TransGen db.Counters j t) : t ∈ IndexOf.listed db ch q :=
  List.mem_append_left _ <| List.mem_append_right _ <|
    mem_targets_of_leads hk (hfinds j ((mem_page hk).1 hj)) ht

end Store

namespace JustificationRow

variable {db : Store} {known js : List JustificationRow} {j t : JustificationRow}
  {x : Justification} {xs : List Justification}

/-- A chain that leads through all that is live has everything to which targets
    lead. -/
theorem TargetChain.mem_of_leads (hk : db.Keyed) (h : TargetChain db.justifications.live j js)
    (hjt : Relation.TransGen db.Counters j t) : t ∈ js := by
  induction h with
  | ends hends =>
    obtain ⟨u, ⟨-, hu, htarget⟩, -⟩ := Relation.TransGen.head'_iff.1 hjt
    exact absurd htarget (hends u hu)
  | @step j i js hi htarget h ih =>
    obtain ⟨u, ⟨-, hu, htarget'⟩, hut⟩ := Relation.TransGen.head'_iff.1 hjt
    rw [htarget] at htarget'
    obtain rfl := hk.justifications.eq_of_id_eq hi hu (Option.some.inj htarget')
    obtain ⟨rest, rfl⟩ := h.exists_cons
    rcases Relation.reflTransGen_iff_eq_or_transGen.1 hut with rfl | hut
    · simp
    · exact List.mem_cons_of_mem _ (ih hut)

/-- What is live of a chain is known, but for its start. -/
theorem TargetChain.mem_known (h : TargetChain known j js) : ∀ i ∈ js, i = j ∨ i ∈ known := by
  induction h with
  | ends => simp
  | step ht _ _ ih =>
    rintro i (_ | ⟨_, hi⟩)
    · exact .inl rfl
    · exact .inr ((ih i hi).elim (fun h => h ▸ ht) fun h => h)

variable (hknown : ∀ t ∈ known, t ∈ db.justifications.live) (hj : j ∈ db.justifications.live)

include hknown hj

/-- A target that stays an id is not live, if all targets are known that are. -/
theorem Link.live (hall : ∀ t, db.Counters j t → t ∈ known) (h : Link known j x) :
    Link db.justifications.live j x := by
  refine ⟨h.toShown, ?_⟩
  obtain ⟨htype, hid⟩ := target_of_row h.row
  have htarget := h.target
  generalize x.target = target at htype hid htarget
  cases htarget with
  | proposition p => exact .proposition p
  | statement s => exact .statement s
  | justification ht hti => exact .justification (hknown _ ht) hti
  | missing hmissing =>
    refine .missing fun t ht hti => ?_
    have hjt : j.targetId? = some t.id := targetId?_eq_some.2 ⟨htype.symm, hid.symm.trans hti.symm⟩
    exact hmissing t (hall t ⟨hj, ht, hjt⟩) hti

/-- **A chain leads through all that is live**, if all of that is known. -/
theorem TargetChain.live (hall : ∀ t, Relation.TransGen db.Counters j t → t ∈ known)
    (h : TargetChain known j js) (hlinks : List.Forall₂ (Link known) js xs) :
    TargetChain db.justifications.live j js ∧
      List.Forall₂ (Link db.justifications.live) js xs := by
  have hlive : ∀ {i x}, i ∈ db.justifications.live →
      (∀ t, Relation.TransGen db.Counters i t → t ∈ known) → Link known i x →
        Link db.justifications.live i x :=
    fun hi hall => Link.live hknown hi fun t hit => hall t (.single hit)
  induction h generalizing xs with
  | ends hends =>
    obtain ⟨x, _, hx, ⟨⟩, rfl⟩ := List.forall₂_cons_left_iff.1 hlinks
    refine ⟨.ends fun t ht htarget => ?_, .cons (hlive hj hall hx) .nil⟩
    exact hends t (hall t (.single ⟨hj, ht, htarget⟩)) htarget
  | @step j t js ht htarget _ ih =>
    obtain ⟨x, xs, hx, hxs, rfl⟩ := List.forall₂_cons_left_iff.1 hlinks
    have hjt : db.Counters j t := ⟨hj, hknown _ ht, htarget⟩
    obtain ⟨hchain, hlinks⟩ := ih (hknown _ ht) (fun u htu => hall u (.head hjt htu)) hxs
    exact ⟨.step (hknown _ ht) htarget hchain, .cons (hlive hj hall hx) hlinks⟩

end JustificationRow

end Rationale
