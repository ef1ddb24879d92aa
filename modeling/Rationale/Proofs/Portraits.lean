/-
  Rationale — what a page shows of a justification.

  `Sketches known counters j x`: `x` is what is shown of the justification `j`
  where those justifications were found.  It is made from the store, link by
  link: `j` filled in (`Fills`), with the justification nested in it that is its
  target, if that is known, and so on (`Depicts`), and the counters.  Of the page
  on which it is shown it has nothing but what was found.

  A portrait is a sketch with all that is live (`Portrays`).

  * `Portrays.unique`: there is one portrait of a justification at most;
  * `sketches_of_read`: a page has sketches of its justifications, in order;
  * `portraits_of_read`: they are portraits if the whole page is found again when
    targets are followed and when counters are found.
-/
import Rationale.Proofs.Companions

namespace Rationale

open Query Lookups Store

/-! ## Portraits -/

/-- The paraphrase `s` is an atom of the basis. -/
def Basis.HasParaphrase (b : Basis) (s : SourceExcerptParaphrase) : Prop :=
  ∃ c, b = .justificationBasisCompound (.entity c) ∧
    ∃ a ∈ c.atoms, a.entity = .sourceExcerptParaphrase (.entity s)

namespace Lookups

variable {l : Lookups} {j x : Justification} {s : SourceExcerptParaphrase}

/-- How a basis is filled in. -/
theorem basis_eq_ok {b b' : Basis} (h : l.basis b = .ok b') :
    (∃ i e, b = .mediaExcerpt (.ref i) ∧ l.mediaExcerpts i = some e ∧
        b' = .mediaExcerpt (.entity e)) ∨
      (∃ w, b = .writQuote (.entity w) ∧ b' = .writQuote (.entity (l.quote w))) ∨
      (∃ c, b = .justificationBasisCompound (.entity c) ∧
        b' = .justificationBasisCompound (.entity { c with atoms := c.atoms.map l.atom })) ∨
      b' = b ∧ (∀ i, b ≠ .mediaExcerpt (.ref i)) ∧ (∀ w, b ≠ .writQuote (.entity w)) ∧
        ∀ c, b ≠ .justificationBasisCompound (.entity c) := by
  unfold basis at h
  split at h
  · obtain ⟨e, he, rfl⟩ := map_eq_ok.1 h
    exact .inl ⟨_, e, rfl, required_eq_ok.1 he, rfl⟩
  · cases h
    exact .inr (.inl ⟨_, rfl, rfl⟩)
  · cases h
    exact .inr (.inr (.inl ⟨_, rfl, rfl⟩))
  · rename_i hexcerpt hquote hmixed
    cases h
    exact .inr (.inr (.inr ⟨rfl, hexcerpt, hquote, hmixed⟩))

/-- A mixed compound filled in is one whose atoms are. -/
theorem basis_eq_mixed_iff {b b' : Basis} (h : l.basis b = .ok b') {c' : BasisCompound} :
    b' = .justificationBasisCompound (.entity c') ↔
      ∃ c, b = .justificationBasisCompound (.entity c) ∧
        c' = { c with atoms := c.atoms.map l.atom } := by
  rcases basis_eq_ok h with ⟨i, e, rfl, -, rfl⟩ | ⟨w, rfl, rfl⟩ | ⟨c, rfl, rfl⟩ | ⟨rfl, -, -, hne⟩
  · simp
  · simp
  · simp [eq_comm (a := c')]
  · simp [hne]

theorem atom_eq_paraphrase_iff {a : BasisAtom} :
    (l.atom a).entity = .sourceExcerptParaphrase (.entity s) ↔
      ∃ p, a.entity = .sourceExcerptParaphrase (.entity p) ∧
        s = { p with excerpt := l.excerpt p.excerpt } := by
  obtain ⟨i, entity, position⟩ := a
  cases entity with
  | proposition p => simp [atom]
  | sourceExcerptParaphrase p =>
    cases p with
    | ref i => simp [atom]
    | entity p => simp [atom, eq_comm (a := s)]

theorem hasParaphrase_of_hydrate (h : l.hydrate j = .ok x) :
    x.basis.HasParaphrase s ↔
      ∃ p, j.basis.HasParaphrase p ∧ s = { p with excerpt := l.excerpt p.excerpt } := by
  obtain ⟨_, -, _, -, b, hb, _, -, rfl⟩ := hydrate_eq_ok.1 h
  constructor
  · rintro ⟨c', hc', a', ha', hs⟩
    obtain ⟨c, hc, rfl⟩ := (basis_eq_mixed_iff hb).1 hc'
    obtain ⟨a, ha, rfl⟩ := List.mem_map.1 ha'
    obtain ⟨p, hp, rfl⟩ := atom_eq_paraphrase_iff.1 hs
    exact ⟨p, ⟨c, hc, a, ha, hp⟩, rfl⟩
  · rintro ⟨p, ⟨c, hc, a, ha, hp⟩, rfl⟩
    exact ⟨_, (basis_eq_mixed_iff hb).2 ⟨c, hc, rfl⟩, _, List.mem_map_of_mem ha,
      atom_eq_paraphrase_iff.2 ⟨p, hp, rfl⟩⟩

/-- Where all excerpts are found, none is left by its id. -/
theorem excerpt_ne_ref
    (hfound : ∀ p, j.basis.HasParaphrase p → ∀ i, p.excerpt = .mediaExcerpt (.ref i) →
      ∃ e, l.mediaExcerpts i = some e)
    (h : l.hydrate j = .ok x) (hs : x.basis.HasParaphrase s) (i : Id) :
    s.excerpt ≠ .mediaExcerpt (.ref i) := by
  obtain ⟨p, hp, rfl⟩ := (hasParaphrase_of_hydrate h).1 hs
  intro hi
  cases hexcerpt : p.excerpt with
  | writQuote w => simp [hexcerpt, excerpt] at hi
  | mediaExcerpt e =>
    cases e with
    | entity e => simp [hexcerpt, excerpt] at hi
    | ref k =>
      obtain ⟨e, he⟩ := hfound p hp k hexcerpt
      simp [hexcerpt, excerpt, he, Relation.ofLookup] at hi

end Lookups

namespace Store

variable (db : Store) (includeUrls : Bool)

/-- The live justifications that counter `j`, the oldest first. -/
def countersOf (j : JustificationRow) : List JustificationRow :=
  (db.justifications.live.filter fun c => c.targetId? = some j.id).mergeSort
    JustificationRow.notYounger

/-- `x` is `j` with all filled in that it names, but for a justification that
    is its target. -/
structure Fills (j : JustificationRow) (x : Justification) : Prop where
  hydrated : ∃ y, db.outline j = .ok y ∧
    (db.lookups db.proposition? includeUrls).hydrate y = .ok x
  excerpts : ∀ s, x.basis.HasParaphrase s → ∀ i, s.excerpt ≠ .mediaExcerpt (.ref i)

/-- `x` is `j` filled in, with all nested in it to which its targets lead among
    what is known. -/
inductive Depicts (known : List JustificationRow) : JustificationRow → Justification → Prop
  | ends {j x} : db.Fills includeUrls j x → (∀ t ∈ known, j.targetId? ≠ some t.id) →
      Depicts known j x
  | step {j t x y} : db.Fills includeUrls j x → t ∈ known → j.targetId? = some t.id →
      Depicts known t y → Depicts known j { x with target := .justification (.entity y) }

/-- `x` is `j` with its targets, as far as they are known, and with those
    counters. -/
def Sketches (known counters : List JustificationRow) (j : JustificationRow)
    (x : Justification) : Prop :=
  ∃ y cs, db.Depicts includeUrls known j y ∧
    List.Forall₂ (db.Fills includeUrls) counters cs ∧ x = { y with counters := cs }

/-- `x` is a sketch of `j` with some of what is live. -/
def Sketched (j : JustificationRow) (x : Justification) : Prop :=
  ∃ known counters, (∀ t ∈ known, t ∈ db.justifications.live) ∧
    (∀ c ∈ counters, c ∈ db.countersOf j) ∧ db.Sketches includeUrls known counters j x

/-- `x` is `j` with all its targets and all its counters. -/
def Portrays (j : JustificationRow) (x : Justification) : Prop :=
  db.Sketches includeUrls db.justifications.live (db.countersOf j) j x

variable {db includeUrls} {known counters : List JustificationRow} {j t : JustificationRow}
  {x y : Justification}

theorem Fills.id (h : db.Fills includeUrls j x) : x.id = j.id := by
  obtain ⟨y, hjy, hy⟩ := h.hydrated
  rw [id_of_hydrate hy, id_of_outline hjy]

theorem Depicts.id (h : db.Depicts includeUrls known j x) : x.id = j.id := by
  cases h with
  | ends hx _ => exact hx.id
  | step hx _ _ _ => exact hx.id

theorem Sketches.id (h : db.Sketches includeUrls known counters j x) : x.id = j.id := by
  obtain ⟨y, cs, hy, -, rfl⟩ := h
  exact hy.id

theorem Sketched.id (h : db.Sketched includeUrls j x) : x.id = j.id := by
  obtain ⟨_, _, -, -, hjx⟩ := h
  exact hjx.id

theorem Portrays.id (h : db.Portrays includeUrls j x) : x.id = j.id :=
  Sketches.id h

/-- All that is live is nested, if all of it is known to which targets lead. -/
theorem Depicts.live (hknown : ∀ t ∈ known, t ∈ db.justifications.live)
    (hj : j ∈ db.justifications.live) (hall : ∀ t, Relation.TransGen db.Counters j t → t ∈ known)
    (h : db.Depicts includeUrls known j x) :
    db.Depicts includeUrls db.justifications.live j x := by
  induction h with
  | ends hx hends =>
    refine .ends hx fun t ht htarget => ?_
    exact hends t (hall t (.single ⟨hj, ht, htarget⟩)) htarget
  | @step j t x y hx ht htarget _ ih =>
    have hjt : db.Counters j t := ⟨hj, hknown t ht, htarget⟩
    exact .step hx (hknown t ht) htarget
      (ih (hknown t ht) fun u htu => hall u (.head hjt htu))

/-! ## There is one at most -/

theorem Fills.unique (hx : db.Fills includeUrls j x) (hy : db.Fills includeUrls j y) : x = y := by
  obtain ⟨z, hjz, hz⟩ := hx.hydrated
  obtain ⟨z', hjz', hz'⟩ := hy.hydrated
  rw [hjz] at hjz'
  cases hjz'
  rw [hz] at hz'
  cases hz'
  rfl

theorem Depicts.unique (hk : db.Keyed) (hx : db.Depicts includeUrls db.justifications.live j x)
    (hy : db.Depicts includeUrls db.justifications.live j y) : x = y := by
  induction hx generalizing y with
  | ends hx hends =>
    cases hy with
    | ends hy _ => exact hx.unique hy
    | step _ ht htarget _ => exact absurd htarget (hends _ ht)
  | step hx ht htarget _ ih =>
    cases hy with
    | ends _ hends => exact absurd htarget (hends _ ht)
    | step hy ht' htarget' hz =>
      rw [htarget] at htarget'
      obtain rfl := hk.justifications.eq_of_id_eq ht ht' (Option.some.inj htarget')
      rw [hx.unique hy, ih hz]

/-- **There is one portrait of a justification at most.** -/
theorem Portrays.unique (hk : db.Keyed) (hx : db.Portrays includeUrls j x)
    (hy : db.Portrays includeUrls j y) : x = y := by
  obtain ⟨z, cs, hz, hcs, rfl⟩ := hx
  obtain ⟨z', cs', hz', hcs', rfl⟩ := hy
  obtain rfl : cs = cs' :=
    List.right_unique_forall₂' (R := db.Fills includeUrls) (fun _ _ _ => Fills.unique) hcs hcs'
  rw [hz.unique hk hz']

/-! ## Counters of a page -/

/-- Those that counter a justification, of what is found for the page. -/
def countersFound (db : Store) (q : Evaluation) (j : JustificationRow) : List JustificationRow :=
  (db.counters q).filter fun c => c.targetId? = some j.id

theorem mem_countersOf {c : JustificationRow} :
    c ∈ db.countersOf j ↔ c ∈ db.justifications.live ∧ c.targetId? = some j.id := by
  simp [countersOf]

/-- Either all or none are found that counter a justification. -/
theorem mem_countersFound (hk : db.Keyed) {q : Evaluation} {c : JustificationRow} :
    c ∈ db.countersFound q j ↔
      c ∈ db.countersOf j ∧ j.id ∈ (db.candidates q).map (·.id) := by
  rw [countersFound, List.mem_filter, mem_counters hk, mem_countersOf, and_assoc, and_assoc]
  refine and_congr_right fun _ => ?_
  rw [and_comm, decide_eq_true_eq]
  refine and_congr_right fun htarget => ?_
  rw [htarget, List.mem_map]
  simp only [Option.some.injEq, eq_comm]

/-- All are found that counter a justification of the page. -/
theorem countersFound_of_mem {q : Evaluation} (hj : j ∈ db.candidates q) :
    db.countersFound q j = db.countersOf j := by
  rw [countersFound, Store.counters, listed,
    ← Sorting.mergeSort_filter JustificationRow.linear_notYounger, List.filter_filter, countersOf]
  congr 1
  refine List.filter_congr fun c hc => ?_
  simp only [Bool.and_eq_left_iff_imp, decide_eq_true_eq]
  intro htarget
  refine List.mem_map_of_mem (List.mem_filter.2 ⟨hc, ?_⟩)
  rw [htarget]
  simpa using ⟨j, hj, rfl⟩

end Store

/-! ## What is read -/

namespace Reads

open IndexOf

variable {db : Store} {ch : Chance} {q : PageQuery} {ix : Index} {includeUrls : Bool}
  {l : Lookups} {out : List Justification} {j : JustificationRow} {x : Justification} {i : Id}
  (hk : db.Keyed) (h : Reads db ch q includeUrls ix l out)

include hk h

/-- A node of the index is filled in from the store. -/
theorem fills_of_shell (hx : ix.shell l i = .ok x) :
    ∃ j ∈ listed db ch q, j.id = i ∧ db.Fills includeUrls j x := by
  obtain ⟨ps, hps, hl⟩ := h.lookups
  obtain ⟨y, hn, hy⟩ := exists_node_of_shell hx
  have hnode : y ∈ ix.nodes := Index.mem_nodes.2 (by rw [Index.id_of_node? hn, hn])
  obtain ⟨j, hj, rfl, hjy⟩ := (h.index.node?_eq_some hk).1 hn
  have hx := hydrate_of_lookups hk hps hl hnode hy
  refine ⟨j, hj, rfl, ⟨y, hjy, hx⟩, fun s hs => excerpt_ne_ref (fun p hp i hi => ?_) hx hs⟩
  obtain ⟨c, hc, a, ha, hp⟩ := hp
  have hai : a.excerptId? = some i := by
    obtain ⟨k, proposition, excerpt⟩ := p
    cases hi
    rw [BasisAtom.excerptId?, hp]
  refine exists_excerpt_of_lookups hk hl hnode ?_
  rw [Justification.excerptIds, hc]
  exact List.mem_filterMap.2 ⟨a, ha, hai⟩

theorem fills_of_live (hx : ix.shell l j.id = .ok x) (hj : j ∈ db.justifications.live) :
    db.Fills includeUrls j x := by
  obtain ⟨i, hi, hid, hx⟩ := h.fills_of_shell hk hx
  rwa [← hk.justifications.eq_of_id_eq (live_of_listed hi) hj hid]

/-- A node that is the last of its walk. -/
theorem depicts_of_last (hx : ix.shell l j.id = .ok x) (hj : j ∈ listed db ch q)
    (hout : ∀ k, next ix j.id = some k → k ∉ ix.ids) :
    db.Depicts includeUrls (listed db ch q) j x := by
  refine .ends (h.fills_of_live hk hx (live_of_listed hj)) fun t ht htarget => ?_
  rw [h.index.next_of_listed hk hj] at hout
  exact h.index.ne_of_not_mem (hout t.id htarget) t ht rfl

/-- **What is nested are the targets that are listed.** -/
theorem depicts_of_passes {path : List Id} {exit : Option Id}
    (hp : Graph.Passes (next ix) i path exit) (hexit : ∀ k ∈ exit, k ∉ ix.ids)
    {y : Justification} {ys : List Justification} (hys : path.mapM (ix.shell l) = .ok (y :: ys))
    (hj : j ∈ listed db ch q) (hji : j.id = i) :
    db.Depicts includeUrls (listed db ch q) j (nested y ys) := by
  subst hji
  generalize hi : j.id = i at hp
  induction hp generalizing j y ys with
  | @ends i hn =>
    subst hi
    obtain ⟨hy, hys⟩ := List.forall₂_cons.1 (mapM_eq_ok.1 hys)
    cases hys
    exact h.depicts_of_last hk hy hj fun k hk' => by rw [hn] at hk'; cases hk'
  | @leaves i k hn =>
    subst hi
    obtain ⟨hy, hys⟩ := List.forall₂_cons.1 (mapM_eq_ok.1 hys)
    cases hys
    refine h.depicts_of_last hk hy hj fun k' hk' => ?_
    rw [hn] at hk'
    cases hk'
    exact hexit _ rfl
  | @step i k path exit hn hp ih =>
    subst hi
    obtain ⟨hy, hys⟩ := List.forall₂_cons.1 (mapM_eq_ok.1 hys)
    -- the successor is a node, since it was filled in
    obtain ⟨rest, rfl⟩ := hp.exists_cons
    obtain ⟨z, zs, hz, -, rfl⟩ := List.forall₂_cons_left_iff.1 hys
    obtain ⟨t, ht, rfl, -⟩ := h.fills_of_shell hk hz
    rw [h.index.next_of_listed hk hj] at hn
    refine .step (h.fills_of_live hk hy (live_of_listed hj)) ht hn ?_
    exact ih hexit (mapM_eq_ok.2 hys) ht rfl

theorem depicts_of_assembleNode (hx : (ix.assembleNode l j.id).result = .ok x)
    (hj : j ∈ listed db ch q) : db.Depicts includeUrls (listed db ch q) j x := by
  obtain ⟨y, ys, hpath, hleave, rfl, -⟩ := Index.assembleNode_eq_ok.1 hx
  have hfree : j.id ∈ ix.ids := h.index.mem_ids.2 ⟨j, hj, rfl⟩
  exact h.depicts_of_passes hk (passes_targetWalk hfree) ((leave_targetWalk_eq_ok hfree).1 hleave)
    hpath hj rfl

/-- The counters that an index files under a justification. -/
theorem mapM_countersFound :
    (db.countersFound (q.use ch .counters) j).mapM db.outline = .ok (ix.countersOf j.id) := by
  refine mapM_filter_eq_ok (fun c hc x hcx => ?_) h.index.counters
  obtain ⟨-, i, -, htarget⟩ := (mem_counters hk).1 hc
  rw [(target_of_outline hcx).2, htarget, (JustificationRow.targetId?_eq_some.1 htarget).2]
  simp

theorem fills_counters {cs : List Justification}
    (hcs : (ix.countersOf j.id).mapM (fun c => ix.shell l c.id) = .ok cs) :
    List.Forall₂ (db.Fills includeUrls) (db.countersFound (q.use ch .counters) j) cs := by
  refine forall₂_comp (mapM_eq_ok.1 (h.mapM_countersFound hk)) (mapM_eq_ok.1 hcs) ?_
  intro c hc y x hcy hx
  rw [id_of_outline hcy] at hx
  exact h.fills_of_live hk hx ((mem_counters hk).1 (List.mem_filter.1 hc).1).1

/-- **A page has sketches of its justifications**, in their order. -/
theorem sketches :
    List.Forall₂ (fun j x => db.Sketches includeUrls (listed db ch q)
      (db.countersFound (q.use ch .counters) j) j x)
      (db.page (q.use ch .page) (ch.found .listing)) out := by
  refine forall₂_comp (mapM_eq_ok.1 h.index.page) (Index.assemble_eq_ok.1 h.assembled) ?_
  intro j hj p x hp hx
  rw [id_of_outline hp] at hx
  obtain ⟨y, cs, hy, hcs, rfl⟩ := Index.assembleWithCounters_eq_ok.1 hx
  exact ⟨y, cs, h.depicts_of_assembleNode hk hy
    (List.mem_append_left _ (List.mem_append_left _ hj)), h.fills_counters hk hcs, rfl⟩

end Reads

variable {db : Store} {ch : Chance} {r : Request} {q : PageQuery} {out : List Justification}
  {j : JustificationRow} {x : Justification} {includeUrls : Bool}

/-- **A page has sketches of its justifications**, whatever the request. -/
theorem sketches_of_read (hk : db.Keyed) (hn : r.effectiveCount ≠ 0)
    (h : (db.read ch r).result = .ok out) :
    ∃ q, r.compile = .ok q ∧
      List.Forall₂ (fun j x => db.Sketches r.includeUrls (IndexOf.listed db ch q)
        (db.countersFound (q.use ch .counters) j) j x)
        (db.page (q.use ch .page) (ch.found .listing)) out := by
  obtain ⟨q, hq, h⟩ := (read_eq_ok hk hn).1 h
  refine ⟨q, hq, ?_⟩
  rcases h with ⟨-, he, rfl⟩ | ⟨-, ix, l, h⟩
  · rw [(page_eq_nil_iff hk).2 he]
    exact .nil
  · exact h.sketches hk

/-- What a page shows is a sketch of a live justification, with what is live. -/
theorem exists_sketched (hk : db.Keyed) (h : (db.read ch r).result = .ok out) (hx : x ∈ out) :
    ∃ j ∈ db.justifications.live, db.Sketched r.includeUrls j x := by
  by_cases hn : r.effectiveCount = 0
  · rw [read_of_count_eq_zero hn] at h
    cases h
    cases hx
  · obtain ⟨q, -, hpage⟩ := sketches_of_read hk hn h
    obtain ⟨j, hj, hjx⟩ := exists_mem_left_of_forall₂ hpage hx
    exact ⟨j, live_of_mem_page hj, _, _, fun _ => IndexOf.live_of_listed,
      fun _ hc => ((mem_countersFound hk).1 hc).1, hjx⟩

/-! ## Where the page is found again -/

/-- **Sketches are portraits**, if the page is found again. -/
theorem Store.Sketches.portrays (hk : db.Keyed) (htargets : db.FindsPage ch q .targets)
    (hcounters : db.FindsPage ch q .counters)
    (hj : j ∈ db.page (q.use ch .page) (ch.found .listing))
    (h : db.Sketches includeUrls (IndexOf.listed db ch q)
      (db.countersFound (q.use ch .counters) j) j x) : db.Portrays includeUrls j x := by
  obtain ⟨y, cs, hy, hcs, rfl⟩ := h
  rw [countersFound_of_mem (hcounters j ((mem_page hk).1 hj))] at hcs
  exact ⟨y, cs, hy.live (fun _ => IndexOf.live_of_listed) (live_of_mem_page hj) fun _ =>
    listed_of_leads hk htargets hj, hcs, rfl⟩

/-- **A page has portraits**, if it is found when targets are followed and when
    counters are found. -/
theorem portraits_of_read (hk : db.Keyed) (hn : r.effectiveCount ≠ 0) (hq : r.compile = .ok q)
    (htargets : db.FindsPage ch q .targets) (hcounters : db.FindsPage ch q .counters)
    (h : (db.read ch r).result = .ok out) :
    List.Forall₂ (db.Portrays r.includeUrls)
      (db.page (q.use ch .page) (ch.found .listing)) out := by
  obtain ⟨q', hq', hpage⟩ := sketches_of_read hk hn h
  rw [hq] at hq'
  cases hq'
  rw [List.forall₂_iff_get] at hpage ⊢
  refine ⟨hpage.1, fun k hj hx => ?_⟩
  exact (hpage.2 k hj hx).portrays hk htargets hcounters (List.get_mem ..)

end Rationale
