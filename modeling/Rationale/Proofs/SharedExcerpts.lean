/-
  Rationale — targets reach the media excerpt that they share.

  All members of a chain are to reach one media excerpt, the one in the lookups.
  They do, whenever they can be nested at all: the walk of the assembly passes
  the nodes by which the search for the media excerpt came to it, and what it
  filled in there is the one in the lookups.  So the check of the assembly is
  passed by everything that is nested, whether the lookups have the chains of the
  index or none.

  * `Index.Bare`: nodes that rows have told of;
  * `reaches_of_leads`: what is nested reaches the media excerpt to which targets
    lead;
  * `allPassed_of_passes`: what is nested passes its check;
  * `assembleNode_eq_ok`: so a justification is assembled if its walk is in order.
-/
import Rationale.Proofs.Chains
import Rationale.Proofs.FirstExcerpts

namespace Rationale

variable {ix : Index} {l : Lookups} {x y z : Justification} {ys zs : List Justification}
  {i k e : Id} {path : List Id} {exit : Option Id}

/-- Nodes as rows tell of them: justifications that are their targets and media
    excerpts that are their bases are known by their ids. -/
structure Index.Bare (ix : Index) : Prop where
  target : ∀ x ∈ ix.justifications, ∀ t, x.target ≠ .justification (.entity t)
  basis : ∀ x ∈ ix.justifications, ∀ e, x.basis ≠ .mediaExcerpt (.entity e)

namespace Justification

theorem reachedExcerpt?_of_basis {a : MediaExcerpt} (h : x.basis = .mediaExcerpt (.entity a)) :
    x.reachedExcerpt? = some a := by
  rw [reachedExcerpt?, chain_eq, List.findSome?_cons]
  cases x
  cases h
  rfl

theorem reachedExcerpt?_of_target (hb : x.basis.type ≠ .mediaExcerpt)
    (ht : x.target = .justification (.entity y)) : x.reachedExcerpt? = y.reachedExcerpt? := by
  rw [reachedExcerpt?, chain_eq, ht, List.findSome?_cons]
  split
  · rename_i h
    split at h
    · exact absurd rfl hb
    · cases h
  · rfl

end Justification

namespace Lookups

theorem nested_basis (y : Justification) (ys : List Justification) :
    (nested y ys).basis = y.basis := by
  cases ys <;> rfl

/-- A media excerpt that is a basis, filled in. -/
theorem entity_of_hydrate (hx : x.basis = .mediaExcerpt (.ref e)) (hy : l.hydrate x = .ok y) :
    ∃ a, l.mediaExcerpts e = some a ∧ y.basis = .mediaExcerpt (.entity a) := by
  obtain ⟨_, -, _, -, b, hb, _, -, rfl⟩ := hydrate_eq_ok.1 hy
  rw [hx] at hb
  obtain ⟨a, ha, rfl⟩ := map_eq_ok.1 hb
  exact ⟨a, required_eq_ok.1 ha, rfl⟩

variable (hl : l.Keyed)

include hl

/-- A justification reaches the media excerpt that is its own basis. -/
theorem reaches_of_basis (hx : x.basis = .mediaExcerpt (.ref e)) (hy : l.hydrate x = .ok y) :
    l.reaches (nested y ys) e = true := by
  obtain ⟨a, ha, hb⟩ := entity_of_hydrate hx hy
  have hreached := Justification.reachedExcerpt?_of_basis ((nested_basis y ys).trans hb)
  rw [reaches, ha, hreached]
  simp [hl.mediaExcerpts e a ha]

/-- Otherwise it reaches what its target does. -/
theorem reaches_of_target (hy : l.hydrate x = .ok y) (htype : x.basis.type ≠ .mediaExcerpt)
    (hz : l.reaches (nested z zs) e = true) : l.reaches (nested y (z :: zs)) e = true := by
  obtain ⟨_, -, _, -, b, hb, _, -, rfl⟩ := hydrate_eq_ok.1 hy
  obtain ⟨hkeeps, -⟩ := basis_keeps hl hb
  rw [reaches, nested, Justification.reachedExcerpt?_of_target (by rw [hkeeps]; exact htype) rfl]
  exact hz

end Lookups

/-! ## The media excerpt of a chain -/

instance maxEqOrInt64 : Std.MaxEqOr Int64 where
  max_eq_or a b := by
    show (if a ≤ b then b else a) = a ∨ (if a ≤ b then b else a) = b
    split
    · exact .inr rfl
    · exact .inl rfl

namespace Lookups

/-- The media excerpt that is looked for is the one to which targets lead. -/
def Follows (l : Lookups) (ix : Index) : Prop :=
  ∀ i e, l.sharedExcerpt? i = some e → ix.Ends i (.found e)

theorem follows_of_chains (hl : l.chains = ix.chains) : l.Follows ix := by
  intro i e h
  obtain ⟨⟨e, members⟩, hmem, rfl⟩ := List.mem_map.1 (List.max?_mem h)
  obtain ⟨hchain, hi⟩ := List.mem_filter.1 hmem
  rw [hl] at hchain
  exact (Index.mem_members_iff hchain).1 (of_decide_eq_true hi)

/-- Without chains there is nothing to look for. -/
theorem follows_of_nil (hl : l.chains = []) : l.Follows ix := by
  intro i e h
  rw [sharedExcerpt?, hl] at h
  cases h

end Lookups

namespace Index.Bare

open IndexOf (next passes_targetWalk leave_targetWalk_eq_ok exists_node_of_shell)

theorem basis_eq (h : ix.Bare) (hx : ix.node? i = some x) (he : x.basis.mediaExcerptId? = some e) :
    x.basis = .mediaExcerpt (.ref e) := by
  have hne := h.basis x (List.mem_of_find?_eq_some hx)
  cases hb : x.basis with
  | mediaExcerpt r =>
    rw [hb] at he
    cases r with
    | entity a => exact absurd hb (hne a)
    | ref k =>
      cases he
      rfl
  | propositionCompound | writQuote | justificationBasisCompound =>
    rw [hb] at he
    cases he

/-- Every target that is a justification is still open. -/
theorem openTarget?_eq (h : ix.Bare) (hx : ix.node? i = some x) :
    openTarget? x = x.target.justificationId? := by
  have hne := h.target x (List.mem_of_find?_eq_some hx)
  unfold openTarget?
  cases ht : x.target with
  | proposition | statement => rfl
  | justification r =>
    cases r with
    | entity t => exact absurd ht (hne t)
    | ref k => rfl

/-- The walk of the assembly goes on to the target. -/
theorem next_eq (h : ix.Bare) (hx : ix.node? i = some x) :
    next ix i = x.target.justificationId? := by
  rw [next, hx, Option.bind_some, h.openTarget?_eq hx]

variable (h : ix.Bare) (hl : l.Keyed)

include h hl

/-- **What is nested reaches the media excerpt to which targets lead.** -/
theorem reaches_of_leads (hp : Graph.Passes (next ix) i path exit)
    (hexit : ∀ k ∈ exit, k ∉ ix.ids) (hys : path.mapM (ix.shell l) = .ok (y :: ys))
    {sought : List Id} (hs : ix.Leads i sought x) (he : x.basis.mediaExcerptId? = some e) :
    l.reaches (Lookups.nested y ys) e = true := by
  induction hs generalizing path exit y ys with
  | here hx =>
    obtain ⟨rest, rfl⟩ := hp.exists_cons
    obtain ⟨hy, -⟩ := List.forall₂_cons.1 (mapM_eq_ok.1 hys)
    obtain ⟨x', hx', hy⟩ := exists_node_of_shell hy
    rw [hx] at hx'
    cases hx'
    exact Lookups.reaches_of_basis hl (h.basis_eq hx he) hy
  | there hx htype htarget hs _ ih =>
    have hnext := (h.next_eq hx).trans htarget
    cases hp with
    | ends hn =>
      rw [hnext] at hn
      cases hn
    | leaves hn =>
      rw [hnext] at hn
      cases hn
      exact absurd hs.mem_ids (hexit _ rfl)
    | step hn hp =>
      rw [hnext] at hn
      cases hn
      obtain ⟨hy, hrest⟩ := List.forall₂_cons.1 (mapM_eq_ok.1 hys)
      obtain ⟨x', hx', hy⟩ := exists_node_of_shell hy
      rw [hx] at hx'
      cases hx'
      obtain ⟨rest, rfl⟩ := hp.exists_cons
      obtain ⟨z, zs, -, -, rfl⟩ := List.forall₂_cons_left_iff.1 hrest
      exact Lookups.reaches_of_target hl hy htype (ih hp hexit (mapM_eq_ok.2 hrest) he)

variable (hf : l.Follows ix)

include hf

theorem passed_of_passes (hp : Graph.Passes (next ix) i path exit) (hexit : ∀ k ∈ exit, k ∉ ix.ids)
    (hys : path.mapM (ix.shell l) = .ok (y :: ys)) : l.Passed (Lookups.nested y ys) := by
  intro e he
  obtain ⟨rest, rfl⟩ := hp.exists_cons
  obtain ⟨hy, -⟩ := List.forall₂_cons.1 (mapM_eq_ok.1 hys)
  obtain ⟨x, hx, hy⟩ := exists_node_of_shell hy
  rw [Lookups.nested_id, Lookups.id_of_hydrate hy, Index.id_of_node? hx] at he
  obtain ⟨sought, z, hs, ⟨he⟩⟩ := hf _ _ he
  exact h.reaches_of_leads hl hp hexit hys hs he

/-- **What is nested passes its check**, and so does all that is nested in it. -/
theorem allPassed_of_passes (hp : Graph.Passes (next ix) i path exit)
    (hexit : ∀ k ∈ exit, k ∉ ix.ids) (hys : path.mapM (ix.shell l) = .ok (y :: ys)) :
    l.AllPassed y ys := by
  have hpassed := h.passed_of_passes hl hf hp hexit hys
  induction hp generalizing y ys with
  | ends hn =>
    cases (List.forall₂_cons.1 (mapM_eq_ok.1 hys)).2
    exact hpassed
  | leaves hn =>
    cases (List.forall₂_cons.1 (mapM_eq_ok.1 hys)).2
    exact hpassed
  | step hn hp ih =>
    have hrest := (List.forall₂_cons.1 (mapM_eq_ok.1 hys)).2
    obtain ⟨rest, rfl⟩ := hp.exists_cons
    obtain ⟨z, zs, -, -, rfl⟩ := List.forall₂_cons_left_iff.1 hrest
    have hrest := mapM_eq_ok.2 hrest
    exact ⟨hpassed, ih hexit hrest (h.passed_of_passes hl hf hp hexit hrest)⟩

/-- So a node is assembled without a look at the chains. -/
theorem assembleNode_eq (hi : i ∈ ix.ids) :
    ix.assembleNode l i = (do
      match ← Logged.ofExcept ((ix.targetWalk i).path.mapM (ix.shell l)) with
      | [] => Logged.fail (.integrity (.notInIndex i))
      | y :: ys =>
        ix.leave (ix.targetWalk i)
        ⟨.ok (Lookups.nested y ys), Lookups.nestedWarnings y ys⟩) := by
  refine Logged.bind_congr fun ys hys => ?_
  cases ys with
  | nil => rfl
  | cons y ys =>
    refine Logged.bind_congr fun _ hleave => ?_
    have hexit := (leave_targetWalk_eq_ok hi).1 hleave
    exact Lookups.nest_of_allPassed
      (h.allPassed_of_passes hl hf (passes_targetWalk hi) hexit hys)

/-- Nothing has to succeed but the walk. -/
theorem assembleNode_eq_ok (hi : i ∈ ix.ids) :
    (ix.assembleNode l i).result = .ok x ↔ ∃ y ys,
      (ix.targetWalk i).path.mapM (ix.shell l) = .ok (y :: ys) ∧
      (∀ k ∈ (ix.targetWalk i).exit, k ∉ ix.ids) ∧ x = Lookups.nested y ys := by
  rw [Index.assembleNode_eq_ok]
  simp only [leave_targetWalk_eq_ok hi]
  refine exists₂_congr fun y ys => ⟨fun ⟨hys, hexit, hx, _⟩ => ⟨hys, hexit, hx⟩, ?_⟩
  rintro ⟨hys, hexit, hx⟩
  exact ⟨hys, hexit, hx, h.allPassed_of_passes hl hf (passes_targetWalk hi) hexit hys⟩

end Index.Bare

end Rationale
