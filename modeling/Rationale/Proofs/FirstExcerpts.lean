/-
  Rationale — the chains of media excerpts are a partition.

  From a node of an index targets lead on, as long as they lead to nodes, none of
  which was passed before, and no basis on the way is a media excerpt (`Leads`).
  That comes to an end in one of four ways (`SearchEnd`): at a media excerpt, at
  a proposition or a statement, at a link that is not at hand, or at a node that
  was passed before.  Each walk adds all that it passed to the chain that it
  comes to; still a chain has in it no more than the nodes that come to its media
  excerpt themselves, since from what a walk passed one comes to where it ended.

  * `exists_leads_excerptWalk`, `excerptWalk_of_leads`: what the walk to the first
    media excerpt is;
  * `ends_iff`: each node comes to one end;
  * `mem_members_iff`: who is in a chain, and `mem_chains`: which chains there are;
  * `chains_partition`: the chains, and what is logged of those in none.
-/
import Mathlib.Data.List.Perm.Subperm
import Rationale.Index
import Rationale.Proofs.Walks

namespace Rationale

theorem Basis.mediaExcerptId?_eq_none_iff {b : Basis} :
    b.mediaExcerptId? = none ↔ b.type ≠ .mediaExcerpt := by
  cases b <;> simp [mediaExcerptId?, type]

theorem Basis.type_of_mediaExcerptId? {b : Basis} {e : Id} (h : b.mediaExcerptId? = some e) :
    b.type = .mediaExcerpt := by
  cases b with
  | mediaExcerpt => rfl
  | propositionCompound | writQuote | justificationBasisCompound => cases h

theorem TargetOf.justificationId?_eq_none_iff {t : Target} :
    t.justificationId? = none ↔ t.type ≠ .justification := by
  cases t <;> simp [justificationId?, type]

/-! ## Ends -/

/-- How a search for a media excerpt along targets ends. -/
inductive SearchEnd where
  | found (excerpt : Id)
  /-- At a proposition or a statement. -/
  | settled
  | abandoned (missing : Id)
  | loops
deriving DecidableEq, Repr

/-- The warnings that tell of the end of a search from `start`. -/
def SearchEnd.warnings (start : Id) : SearchEnd → List Warning
  | found _ | settled => []
  | abandoned missing => [.walkAbandoned start missing]
  | loops => [.walkLoops start]

namespace Index

/-- From the node `i` targets lead along `path`, which does not come back to
    itself, to the node `x`; before it no basis is a media excerpt. -/
inductive Leads (ix : Index) : Id → List Id → Justification → Prop
  | here {i x} : ix.node? i = some x → Leads ix i [i] x
  | there {i k path x y} : ix.node? i = some y → y.basis.type ≠ .mediaExcerpt →
      y.target.justificationId? = some k → Leads ix k path x → i ∉ path →
      Leads ix i (i :: path) x

/-- A search that has come along `path` to the node `x` ends there. -/
inductive EndsAt (ix : Index) (path : List Id) (x : Justification) : SearchEnd → Prop
  | found {e} : x.basis.mediaExcerptId? = some e → EndsAt ix path x (.found e)
  | settled : x.basis.type ≠ .mediaExcerpt → x.target.type ≠ .justification →
      EndsAt ix path x .settled
  | abandoned {k} : x.basis.type ≠ .mediaExcerpt → x.target.justificationId? = some k →
      k ∉ ix.ids → EndsAt ix path x (.abandoned k)
  | loops {k} : x.basis.type ≠ .mediaExcerpt → x.target.justificationId? = some k → k ∈ path →
      EndsAt ix path x .loops

/-- How the search from the node `i` ends. -/
def Ends (ix : Index) (i : Id) (s : SearchEnd) : Prop :=
  ∃ path x, ix.Leads i path x ∧ ix.EndsAt path x s

variable {ix : Index} {i k e : Id} {path : List Id} {x : Justification} {s : SearchEnd}

/-! ## Nodes -/

theorem mem_nodes : x ∈ ix.nodes ↔ ix.node? x.id = some x := by
  rw [nodes, List.mem_filterMap]
  constructor
  · rintro ⟨i, -, hx⟩
    rwa [id_of_node? hx]
  · intro hx
    exact ⟨x.id, node?_isSome_iff.1 (by rw [hx]; rfl), hx⟩

theorem mem_ids_of_node? (h : ix.node? i = some x) : i ∈ ix.ids :=
  node?_isSome_iff.1 (by rw [h]; rfl)

theorem afterBasis?_eq_some_iff :
    afterBasis? x = some k ↔ x.basis.type ≠ .mediaExcerpt ∧ x.target.justificationId? = some k := by
  unfold afterBasis?
  split <;> simp_all

/-- After a media excerpt a walk does not go on. -/
theorem afterBasis?_of_excerpt (h : x.basis.type = .mediaExcerpt) : afterBasis? x = none :=
  if_pos h

/-! ## Where targets lead -/

namespace Leads

theorem mem_path (h : ix.Leads i path x) : i ∈ path := by
  cases h <;> simp

theorem nodup (h : ix.Leads i path x) : path.Nodup := by
  induction h with
  | here _ => exact List.nodup_cons.2 ⟨by simp, List.nodup_nil⟩
  | there _ _ _ _ hi ih => exact List.nodup_cons.2 ⟨hi, ih⟩

theorem subset_ids (h : ix.Leads i path x) : path ⊆ ix.ids := by
  induction h with
  | here hx => simpa using mem_ids_of_node? hx
  | there hy _ _ _ _ ih => exact List.cons_subset.2 ⟨mem_ids_of_node? hy, ih⟩

theorem mem_ids (h : ix.Leads i path x) : i ∈ ix.ids :=
  h.subset_ids h.mem_path

/-- The last node of the path. -/
theorem getLast? (h : ix.Leads i path x) : ∃ k, path.getLast? = some k ∧ ix.node? k = some x := by
  induction h with
  | here hx => exact ⟨_, rfl, hx⟩
  | @there i k path x y hy _ _ hl _ ih =>
    obtain ⟨last, hlast, hx⟩ := ih
    obtain ⟨a, rest, rfl⟩ := List.exists_cons_of_ne_nil (List.ne_nil_of_mem hl.mem_path)
    exact ⟨last, by rwa [List.getLast?_cons_cons], hx⟩

/-- **From what was passed one comes to the same node.** -/
theorem of_mem (h : ix.Leads i path x) (hk : k ∈ path) : ∃ rest, ix.Leads k rest x := by
  induction h with
  | here hx =>
    cases List.mem_singleton.1 hk
    exact ⟨_, .here hx⟩
  | there hy htype htarget hl hi ih =>
    rcases List.mem_cons.1 hk with rfl | hk
    · exact ⟨_, .there hy htype htarget hl hi⟩
    · exact ih hk

theorem passes (h : ix.Leads i path x) :
    Graph.Passes (fun k => (ix.node? k).bind afterBasis?) i path (afterBasis? x) := by
  induction h with
  | @here i x hx =>
    have hnext : (ix.node? i).bind afterBasis? = afterBasis? x := by rw [hx, Option.bind_some]
    cases hk : afterBasis? x with
    | none => exact .ends (by rw [hnext, hk])
    | some k => exact .leaves (by rw [hnext, hk])
  | there hy htype htarget _ _ ih =>
    refine .step ?_ ih
    rw [hy, Option.bind_some]
    exact afterBasis?_eq_some_iff.2 ⟨htype, htarget⟩

end Leads

theorem exists_leads_of_passes {exit : Option Id}
    (hp : Graph.Passes (fun k => (ix.node? k).bind afterBasis?) i path exit)
    (hnodup : path.Nodup) (hids : path ⊆ ix.ids) :
    ∃ x, ix.Leads i path x ∧ afterBasis? x = exit := by
  have hnode : ∀ {i}, i ∈ path → ∃ x, ix.node? i = some x := fun hi =>
    Option.isSome_iff_exists.1 (node?_isSome_iff.2 (hids hi))
  induction hp with
  | ends hn =>
    obtain ⟨x, hx⟩ := hnode (List.mem_cons_self ..)
    rw [hx] at hn
    exact ⟨x, .here hx, hn⟩
  | leaves hn =>
    obtain ⟨x, hx⟩ := hnode (List.mem_cons_self ..)
    rw [hx] at hn
    exact ⟨x, .here hx, hn⟩
  | step hn hp ih =>
    obtain ⟨y, hy⟩ := hnode (List.mem_cons_self ..)
    obtain ⟨hi, hnodup⟩ := List.nodup_cons.1 hnodup
    obtain ⟨x, hl, hx⟩ := ih hnodup (List.cons_subset.1 hids).2
      fun hk => hnode (List.mem_cons_of_mem _ hk)
    rw [hy, Option.bind_some, afterBasis?_eq_some_iff] at hn
    exact ⟨x, .there hy hn.1 hn.2 hl hi, hx⟩

/-! ## The walk to the first media excerpt -/

theorem exists_leads_excerptWalk (hi : i ∈ ix.ids) :
    ∃ x, ix.Leads i (ix.excerptWalk i).path x ∧ afterBasis? x = (ix.excerptWalk i).exit :=
  exists_leads_of_passes (Graph.passes_walk hi) (Graph.nodup_path ..)
    fun _ => Graph.mem_of_mem_path

theorem excerptWalk_of_leads (h : ix.Leads i path x)
    (hexit : ∀ k ∈ afterBasis? x, k ∉ ix.ids ∨ k ∈ path) :
    ix.excerptWalk i = ⟨path, afterBasis? x⟩ :=
  Graph.walk_eq_of_passes h.passes h.nodup h.subset_ids hexit

theorem excerptOf?_of_leads (h : ix.Leads i (ix.excerptWalk i).path x) :
    ix.excerptOf? i = x.basis.mediaExcerptId? := by
  obtain ⟨last, hlast, hx⟩ := h.getLast?
  rw [excerptOf?, hlast]
  simp [hx]

/-- Where a search ends, the walk does. -/
theorem EndsAt.stops (h : ix.EndsAt path x s) : ∀ k ∈ afterBasis? x, k ∉ ix.ids ∨ k ∈ path := by
  intro k hk
  obtain ⟨htype, htarget⟩ := afterBasis?_eq_some_iff.1 hk
  cases h with
  | found he => exact absurd (Basis.type_of_mediaExcerptId? he) htype
  | settled _ hs =>
    rw [TargetOf.justificationId?_eq_none_iff.2 hs] at htarget
    cases htarget
  | abandoned _ ht hout =>
    rw [ht] at htarget
    cases htarget
    exact .inl hout
  | loops _ ht hback =>
    rw [ht] at htarget
    cases htarget
    exact .inr hback

/-- The end of the search from `i`, as its walk shows it. -/
def searchEnd (ix : Index) (i : Id) : SearchEnd :=
  match ix.excerptOf? i, (ix.excerptWalk i).exit with
  | some e, _ => .found e
  | none, none => .settled
  | none, some k => if k ∈ ix.ids then .loops else .abandoned k

theorem EndsAt.eq_searchEnd (hl : ix.Leads i path x) (h : ix.EndsAt path x s) :
    s = ix.searchEnd i := by
  have hwalk := excerptWalk_of_leads hl h.stops
  have hexcerpt : ix.excerptOf? i = x.basis.mediaExcerptId? :=
    excerptOf?_of_leads (by rw [hwalk]; exact hl)
  rw [searchEnd, hexcerpt, hwalk]
  cases h with
  | found he => rw [he]
  | settled htype htarget =>
    have hafter : afterBasis? x = none :=
      (if_neg htype).trans (TargetOf.justificationId?_eq_none_iff.2 htarget)
    rw [Basis.mediaExcerptId?_eq_none_iff.2 htype, hafter]
  | abandoned htype htarget hout =>
    rw [Basis.mediaExcerptId?_eq_none_iff.2 htype, afterBasis?_eq_some_iff.2 ⟨htype, htarget⟩]
    exact (if_neg hout).symm
  | loops htype htarget hback =>
    rw [Basis.mediaExcerptId?_eq_none_iff.2 htype, afterBasis?_eq_some_iff.2 ⟨htype, htarget⟩]
    exact (if_pos (hl.subset_ids hback)).symm

theorem endsAt_searchEnd (hl : ix.Leads i (ix.excerptWalk i).path x)
    (hexit : afterBasis? x = (ix.excerptWalk i).exit) :
    ix.EndsAt (ix.excerptWalk i).path x (ix.searchEnd i) := by
  rw [searchEnd, excerptOf?_of_leads hl]
  cases he : x.basis.mediaExcerptId? with
  | some e => exact .found he
  | none =>
    have htype := Basis.mediaExcerptId?_eq_none_iff.1 he
    cases hk : (ix.excerptWalk i).exit with
    | none =>
      rw [hk, afterBasis?, if_neg htype] at hexit
      exact .settled htype (TargetOf.justificationId?_eq_none_iff.1 hexit)
    | some k =>
      obtain ⟨-, htarget⟩ := afterBasis?_eq_some_iff.1 (hexit.trans hk)
      dsimp only
      by_cases hmem : k ∈ ix.ids
      · rw [if_pos hmem]
        exact .loops htype htarget ((Graph.exit_not_mem hk).resolve_left fun h => h hmem)
      · rw [if_neg hmem]
        exact .abandoned htype htarget hmem

/-- **Each node comes to one end.** -/
theorem ends_iff (hi : i ∈ ix.ids) : ix.Ends i s ↔ s = ix.searchEnd i := by
  constructor
  · rintro ⟨path, x, hl, h⟩
    exact h.eq_searchEnd hl
  · rintro rfl
    obtain ⟨x, hl, hexit⟩ := exists_leads_excerptWalk hi
    exact ⟨_, x, hl, endsAt_searchEnd hl hexit⟩

theorem Ends.mem_ids (h : ix.Ends i s) : i ∈ ix.ids := by
  obtain ⟨path, x, hl, -⟩ := h
  exact hl.mem_ids

theorem walkWarningsFrom_eq (hi : i ∈ ix.ids) :
    ix.walkWarningsFrom i = (ix.searchEnd i).warnings i := by
  obtain ⟨x, hl, hexit⟩ := exists_leads_excerptWalk hi
  rw [walkWarningsFrom, searchEnd, excerptOf?_of_leads hl]
  cases he : x.basis.mediaExcerptId? with
  | some e =>
    rw [← hexit, afterBasis?_of_excerpt (Basis.type_of_mediaExcerptId? he)]
    rfl
  | none =>
    cases (ix.excerptWalk i).exit with
    | none => rfl
    | some k =>
      dsimp only
      split <;> rfl

/-! ## Chains -/

theorem excerptOf?_eq_some_iff : ix.excerptOf? i = some e ↔ ix.Ends i (.found e) := by
  by_cases hi : i ∈ ix.ids
  · rw [ends_iff hi, searchEnd]
    split
    · rename_i e' he
      simp [he, eq_comm]
    · rename_i he _
      simp [he]
    · rename_i he _
      rw [he]
      split <;> simp
  · rw [excerptOf?, excerptWalk, Graph.walk_of_not_mem hi]
    constructor
    · intro h
      cases h
    · exact fun h => absurd h.mem_ids hi

theorem keys_chains : ix.chains.map (·.1) = ascending (ix.ids.filterMap ix.excerptOf?) := by
  rw [chains, List.map_map]
  exact List.map_id _

/-- **A chain has in it the nodes that come to its media excerpt.** -/
theorem mem_members_iff {members : List Id} (h : (e, members) ∈ ix.chains) :
    i ∈ members ↔ ix.Ends i (.found e) := by
  obtain ⟨_, -, hc⟩ := List.mem_map.1 h
  cases hc
  simp only [mem_ascending, List.mem_flatMap, startsOf, List.mem_filter, decide_eq_true_eq]
  constructor
  · rintro ⟨start, ⟨hstart, he⟩, hi⟩
    obtain ⟨x, hl, -⟩ := exists_leads_excerptWalk hstart
    obtain ⟨rest, hl'⟩ := hl.of_mem hi
    exact ⟨rest, x, hl', .found (by rw [← excerptOf?_of_leads hl, he])⟩
  · intro he
    exact ⟨i, ⟨he.mem_ids, excerptOf?_eq_some_iff.2 he⟩, Graph.head_mem_path he.mem_ids⟩

/-- The chains are those of the media excerpts that are a basis. -/
theorem mem_chains :
    e ∈ ix.chains.map (·.1) ↔ ∃ x ∈ ix.nodes, x.basis.mediaExcerptId? = some e := by
  rw [keys_chains, mem_ascending, List.mem_filterMap]
  constructor
  · rintro ⟨i, -, hi⟩
    obtain ⟨path, x, hl, ⟨he⟩⟩ := excerptOf?_eq_some_iff.1 hi
    obtain ⟨k, -, hx⟩ := hl.getLast?
    exact ⟨x, mem_nodes.2 (by rw [id_of_node? hx, hx]), he⟩
  · rintro ⟨x, hx, he⟩
    -- the search ends where it starts
    have hx := mem_nodes.1 hx
    exact ⟨x.id, mem_ids_of_node? hx, excerptOf?_eq_some_iff.2 ⟨_, x, .here hx, .found he⟩⟩

/-- Chains that part the nodes of an index by the first media excerpt to which
    targets lead from them. -/
structure Partition (ix : Index) (chains : List (Id × List Id)) : Prop where
  /-- Each media excerpt has one chain, -/
  keys_ascend : (chains.map (·.1)).Pairwise (· < ·)
  /-- and each chain has each of its members once. -/
  members_ascend : ∀ c ∈ chains, c.2.Pairwise (· < ·)
  mem_iff : ∀ e i, (∃ members, (e, members) ∈ chains ∧ i ∈ members) ↔ ix.Ends i (.found e)
  mem_keys_iff : ∀ e, e ∈ chains.map (·.1) ↔ ∃ x ∈ ix.nodes, x.basis.mediaExcerptId? = some e
  disjoint : ∀ c ∈ chains, ∀ d ∈ chains, ∀ i, i ∈ c.2 → i ∈ d.2 → c = d

theorem Ends.unique {s' : SearchEnd} (h : ix.Ends i s) (h' : ix.Ends i s') : s = s' :=
  ((ends_iff h.mem_ids).1 h).trans ((ends_iff h.mem_ids).1 h').symm

theorem partition_chains (ix : Index) : ix.Partition ix.chains where
  keys_ascend := by
    rw [keys_chains]
    exact pairwise_ascending _
  members_ascend c hc := by
    obtain ⟨e, -, rfl⟩ := List.mem_map.1 hc
    exact pairwise_ascending _
  mem_iff e i := by
    constructor
    · rintro ⟨members, hc, hi⟩
      exact (mem_members_iff hc).1 hi
    · intro he
      have hkey : e ∈ ix.chains.map (·.1) := by
        rw [keys_chains, mem_ascending, List.mem_filterMap]
        exact ⟨i, he.mem_ids, excerptOf?_eq_some_iff.2 he⟩
      obtain ⟨⟨_, members⟩, hc, rfl⟩ := List.mem_map.1 hkey
      exact ⟨members, hc, (mem_members_iff hc).2 he⟩
  mem_keys_iff _ := mem_chains
  disjoint c hc d hd i hic hid := by
    have hend := ((mem_members_iff hc).1 hic).unique ((mem_members_iff hd).1 hid)
    obtain ⟨e, -, rfl⟩ := List.mem_map.1 hc
    obtain ⟨f, -, rfl⟩ := List.mem_map.1 hd
    cases hend
    rfl

/-- **The chains of an index part its nodes**, whatever its targets are.  Each
    walk passes each node once at most; each node comes to one end, and those that
    come to no media excerpt are told apart by what is logged. -/
theorem chains_partition (ix : Index) :
    ix.Partition ix.chains ∧
    (∀ i, (ix.excerptWalk i).path.length ≤ ix.ids.length) ∧
    ∃ ends : Id → SearchEnd, (∀ i ∈ ix.ids, ∀ s, ix.Ends i s ↔ s = ends i) ∧
      ix.walkWarnings = ix.ids.flatMap fun i => (ends i).warnings i := by
  refine ⟨ix.partition_chains, fun i => ?_, ix.searchEnd, fun i hi s => ends_iff hi, ?_⟩
  · have hsub : (ix.excerptWalk i).path ⊆ ix.ids := fun _ => Graph.mem_of_mem_path
    exact ((Graph.nodup_path ..).subperm hsub).length_le
  · exact List.flatMap_congr fun i hi => walkWarningsFrom_eq hi

end Index

end Rationale
