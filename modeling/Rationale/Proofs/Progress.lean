/-
  Rationale — reads of well-formed stores succeed.

  All that a page needs is found, and walks end, as targets never lead back.
  So every justification is filled in and nested.  It does not matter
  whether the outlines of an index are all of one store, as long as they are the
  outlines of justifications of one store.

  * `sameRoot_of_passes`: the root stays the same on a walk;
  * `exit_targetWalk`: a walk does not come back to itself;
  * `exists_assembleWithCounters`: a justification is assembled if its root was
    read;
  * `Growing.exists_page`: the page is read unless one of its justifications is
    `Overtaken`;
  * `read_of_wellFormed`: every read that is accepted succeeds, unless the database
    refuses one of its statements;
  * `read_manyTimes_refused`: a read of which it refuses one.
-/
import Rationale.Proofs.Limits
import Rationale.Proofs.SharedExcerpts

namespace Rationale

open Query Store

variable {db : Store} {ch : Chance} {q : PageQuery} {ix : Index} {j t : JustificationRow}
  {i k e : Id} {path : List Id} {exit : Option Id} {l : Lookups} {ps : List Proposition}

/-! ## Walks -/

namespace Index.Outlines

open IndexOf (next passes_targetWalk leave_targetWalk_eq_ok exists_node_of_shell)

/-- A walk starts at a node. -/
theorem head_mem_of_passes (hp : Graph.Passes (next ix) i path exit)
    (hids : ∀ k ∈ path, k ∈ ix.ids) : i ∈ ix.ids := by
  obtain ⟨rest, rfl⟩ := hp.exists_cons
  exact hids i (by simp)

variable (hk : db.Keyed) (h : ix.Outlines db)

include hk h

theorem counters_of_next (hj : j ∈ db.justifications.live) (hi : j.id ∈ ix.ids)
    (ht : t ∈ db.justifications.live) (hn : next ix j.id = some t.id) : db.Counters j t := by
  obtain ⟨x, hx, db', hjx⟩ := h.exists_node hk hj hi
  obtain ⟨hopen, -⟩ := openTarget?_of_outline hjx
  rw [next, hx, Option.bind_some, hopen] at hn
  exact ⟨hj, ht, hn⟩

/-- **The root stays the same on a walk.** -/
theorem sameRoot_of_passes (hw : db.WellFormed) (hp : Graph.Passes (next ix) i path exit)
    (hids : ∀ k ∈ path, k ∈ ix.ids) (hj : j ∈ db.justifications.live) (hji : j.id = i) :
    ∀ k ∈ path, ∃ t ∈ db.justifications.live, t.id = k ∧ j.SameRoot t := by
  induction hp generalizing j with
  | ends hn =>
    intro k hk
    cases List.mem_singleton.1 hk
    exact ⟨j, hj, hji, rfl, rfl⟩
  | leaves hn =>
    intro k hk
    cases List.mem_singleton.1 hk
    exact ⟨j, hj, hji, rfl, rfl⟩
  | step hn hp ih =>
    intro k hmem
    rcases List.mem_cons.1 hmem with rfl | hmem
    · exact ⟨j, hj, hji, rfl, rfl⟩
    · have hids' := fun k hk => hids k (List.mem_cons_of_mem _ hk)
      obtain ⟨-, -, t, ht, rfl, -⟩ := h.of_mem_ids (head_mem_of_passes hp hids')
      have hi : j.id ∈ ix.ids := hji ▸ hids _ (List.mem_cons_self ..)
      have hjt := h.counters_of_next hk hj hi ht (by rw [hji, hn])
      obtain ⟨u, hu, huk, hroot⟩ := ih hids' ht rfl k hmem
      have hjt : j.SameRoot t := hw.countered_root j t hjt
      exact ⟨u, hu, huk, hjt.trans hroot⟩

/-- Targets lead from every justification on a walk to where it is left. -/
theorem transGen_of_passes (hp : Graph.Passes (next ix) i path exit)
    (hids : ∀ k ∈ path, k ∈ ix.ids) (ht : t ∈ db.justifications.live) (hexit : exit = some t.id)
    (hj : j ∈ db.justifications.live) (hmem : j.id ∈ path) :
    Relation.TransGen db.Counters j t := by
  induction hp generalizing j with
  | ends hn => cases hexit
  | leaves hn =>
    cases hexit
    have hji := List.mem_singleton.1 hmem
    exact .single (h.counters_of_next hk hj (hids _ hmem) ht (by rw [hji, hn]))
  | step hn hp ih =>
    have hids' := fun k hk => hids k (List.mem_cons_of_mem _ hk)
    have hi := hids _ hmem
    rcases List.mem_cons.1 hmem with hji | hmem
    · obtain ⟨-, -, u, hu, rfl, -⟩ := h.of_mem_ids (head_mem_of_passes hp hids')
      obtain ⟨rest, rfl⟩ := hp.exists_cons
      have hju := h.counters_of_next hk hj hi hu (by rw [hji, hn])
      exact .head hju (ih hids' hexit hu (by simp))
    · exact ih hids' hexit hj hmem

/-- **A walk does not come back to itself**: it is left for good. -/
theorem exit_targetWalk (hw : db.WellFormed) (hi : i ∈ ix.ids) :
    ∀ k ∈ (ix.targetWalk i).exit, k ∉ ix.ids := by
  intro k hexit hout
  obtain ⟨-, -, t, ht, rfl, -⟩ := h.of_mem_ids hout
  rcases Graph.exit_not_mem hexit with hfree | hback
  · exact hfree hout
  · exact hw.acyclic t (h.transGen_of_passes hk (Graph.passes_walk hi)
      (fun k hk => Graph.mem_of_mem_path hk) ht hexit ht hback)

end Index.Outlines

/-! ## Assembling -/

/-- Outlines name justifications and media excerpts by their ids. -/
theorem Index.Outlines.bare (h : ix.Outlines db) : ix.Bare where
  target x hx := by
    obtain ⟨j, -, db', hjx⟩ := h.node x hx
    exact (openTarget?_of_outline hjx).2
  basis x hx e he := by
    obtain ⟨j, -, db', hjx⟩ := h.node x hx
    obtain ⟨y, -, _, -, _, -, _, -, rfl⟩ := outline_eq_ok.1 hjx
    revert he
    cases y.basis.type <;> simp [Basis.resolve, Relation.ofLookup]

namespace Index.Outlines

variable (hw : db.WellFormed) (h : ix.Outlines db) (hl : l.Keyed) (hf : l.Finds ix ps)
  (hj : j ∈ db.justifications.live) (hroot : l.HasRoot j)

section

include hw h hf hj hroot

theorem exists_shell (hi : j.id ∈ ix.ids) : ∃ y, ix.shell l j.id = .ok y := by
  obtain ⟨x, hx, db', hjx⟩ := h.exists_node hw.keyed hj hi
  have hmem : x ∈ ix.nodes := Index.mem_nodes.2 (by rw [Index.id_of_node? hx, hx])
  obtain ⟨y, hy⟩ := hf.exists_hydrate hmem (hroot.propositions hw hj hjx)
  rw [Index.shell, hx]
  exact ⟨y, hy⟩

end

include hw h hl hf hj hroot

variable (hi : j.id ∈ ix.ids)

include hi

theorem exists_assembleNode : ∃ x, (ix.assembleNode l j.id).result = .ok x := by
  have hp := IndexOf.passes_targetWalk hi
  have hids : ∀ k ∈ (ix.targetWalk j.id).path, k ∈ ix.ids := fun k hk => Graph.mem_of_mem_path hk
  have hexit := h.exit_targetWalk hw.keyed hw hi
  obtain ⟨zs, hzs⟩ : ∃ zs, (ix.targetWalk j.id).path.mapM (ix.shell l) = .ok zs := by
    apply exists_mapM_eq_ok
    intro k hk
    obtain ⟨t, ht, rfl, hjt⟩ := h.sameRoot_of_passes hw.keyed hw hp hids hj rfl k hk
    exact h.exists_shell hw hf ht (hroot.congr hjt.symm) (hids _ hk)
  obtain ⟨y, ys, rfl⟩ : ∃ y ys, zs = y :: ys := by
    obtain ⟨rest, hrest⟩ := hp.exists_cons
    rw [hrest] at hzs
    obtain ⟨y, ys, -, -, rfl⟩ := List.forall₂_cons_left_iff.1 (mapM_eq_ok.1 hzs)
    exact ⟨y, ys, rfl⟩
  have hfollows := Lookups.follows_of_chains hf.chains
  exact ⟨_, (h.bare.assembleNode_eq_ok hl hfollows hi).2 ⟨y, ys, hzs, hexit, rfl⟩⟩

/-- **A justification is assembled if its root was read.** -/
theorem exists_assembleWithCounters : ∃ x, (ix.assembleWithCounters l j.id).result = .ok x := by
  obtain ⟨y, hy⟩ := h.exists_assembleNode hw hl hf hj hroot hi
  obtain ⟨cs, hcs⟩ : ∃ cs, (ix.countersOf j.id).mapM (fun c => ix.shell l c.id) = .ok cs := by
    apply exists_mapM_eq_ok
    intro c hc
    obtain ⟨hc, hcj⟩ := List.mem_filter.1 hc
    have hmem : c ∈ ix.justifications := List.mem_append_right _ hc
    obtain ⟨t, ht, db', htc⟩ := h.node c hmem
    obtain ⟨htype, hid⟩ := target_of_outline htc
    rw [h.counter c hc] at htype
    rw [of_decide_eq_true hcj] at hid
    -- what counters a justification has the same root
    have htj : t.SameRoot j := hw.countered_root t j
      ⟨ht, hj, by rw [JustificationRow.targetId?, if_pos htype.symm, ← hid]⟩
    have hti : t.id ∈ ix.ids := by
      rw [← id_of_outline htc]
      exact mem_ascending.2 (List.mem_map_of_mem hmem)
    rw [id_of_outline htc]
    exact h.exists_shell hw hf ht (hroot.congr htj) hti
  exact ⟨_, Index.assembleWithCounters_eq_ok.2 ⟨y, cs, hy, hcs, rfl⟩⟩

omit hj hroot hi

theorem exists_assemble {js : List JustificationRow}
    (hids : ix.page.map (·.id) = js.map (·.id)) (hjs : ∀ j ∈ js, j ∈ db.justifications.live)
    (hroots : ∀ j ∈ js, l.HasRoot j) : ∃ out, (ix.assemble l).result = .ok out := by
  rw [Index.assemble_of_ids hids]
  apply exists_mapM_eq_ok
  intro j hj
  exact h.exists_assembleWithCounters hw hl hf (hjs j hj) (hroots j hj)
    (Index.mem_ids_of_page hids hj)

end Index.Outlines

/-! ## Justifications that are overtaken -/

/-- The root is a proposition, and none of those that are read has it. -/
def Overtaken (db : Store) (ch : Chance) (q : PageQuery) (j : JustificationRow) : Prop :=
  j.rootTargetType = Coded.text RootTargetType.proposition ∧ ¬ Covered db ch q j

instance (db : Store) (ch : Chance) (q : PageQuery) (j : JustificationRow) :
    Decidable (Overtaken db ch q j) :=
  inferInstanceAs (Decidable (_ ∧ _))

/-- The first justification of the page that has been overtaken when the
    propositions are read. -/
def firstOvertaken (db : ReadStep → Store) (ch : Chance) (q : PageQuery) :
    Option JustificationRow :=
  ((db .page).page (q.use ch .page) (ch.found .listing)).find? fun j =>
    Overtaken (db .propositions) ch q j

/-- None has been, where all of them are found again. -/
theorem firstOvertaken_eq_none (hk : db.Keyed) (h : db.FindsPage ch q .rootPropositions) :
    firstOvertaken (fun _ => db) ch q = none :=
  List.find?_eq_none.2 fun _ hj hover =>
    (of_decide_eq_true hover).2 (covered_of_findsPage h ((mem_page hk).1 hj))

/-! ## What is found -/

/-- What a read has found when it comes to assemble the page. -/
structure Loaded (db : ReadStep → Store) (ch : Chance) (q : PageQuery) (ix : Index)
    (l : Lookups) : Prop where
  outlines : ix.Outlines (db .counters)
  page : ix.page.map (·.id) =
    ((db .page).page (q.use ch .page) (ch.found .listing)).map (·.id)
  keyed : l.Keyed
  finds : ∃ ps, l.Finds ix ps
  hasRoot : ∀ j ∈ (db .propositions).justifications.live,
    (l.HasRoot j ↔ ¬ Overtaken (db .propositions) ch q j)

theorem Index.id_of_assembleWithCounters {x : Justification} (hi : i ∈ ix.ids)
    (h : (ix.assembleWithCounters l i).result = .ok x) : x.id = i := by
  obtain ⟨y, cs, hy, -, rfl⟩ := assembleWithCounters_eq_ok.1 h
  obtain ⟨z, zs, hzs, -, rfl, -⟩ := assembleNode_eq_ok.1 hy
  obtain ⟨rest, hrest⟩ := (IndexOf.passes_targetWalk hi).exists_cons
  rw [hrest] at hzs
  obtain ⟨hz, -⟩ := List.forall₂_cons.1 (mapM_eq_ok.1 hzs)
  obtain ⟨w, hw, hz⟩ := IndexOf.exists_node_of_shell hz
  show (Lookups.nested z zs).id = i
  rw [Lookups.nested_id, Lookups.id_of_hydrate hz, id_of_node? hw]

namespace Growing

variable {db : ReadStep → Store} {r : Request}

variable (hg : Growing db)

include hg

/-- All is found that the page needs, but for the roots of what is overtaken. -/
theorem exists_loaded (hq : r.compile = .ok q) (htakes : Takes db ch r q)
    (he : (db .page).candidates (q.use ch .page) ≠ []) :
    ∃ ix l, Loaded db ch q ix l ∧ (readAt db ch r).result = (ix.assemble l).result := by
  have hn : r.effectiveCount ≠ 0 := fun hn => he (candidates_of_count_eq_zero hq hn)
  obtain ⟨ix, h⟩ := hg.exists_index ch q
  obtain ⟨ps, hps⟩ := hg.exists_propositions (q.use ch .targetPropositions)
    (q.use ch .rootPropositions)
  obtain ⟨l, hl⟩ := hg.exists_lookups h (htakes.lookups he ix h) ps
  have hf := finds_of_lookups hl
  refine ⟨ix, l, ⟨hg.outlines h, h.ids_page, keyed_of_lookups hl, ⟨ps, hf⟩, fun j hj => ?_⟩,
    readAt_of_index hg.keyed hq hn (htakes.about he) he h hps hl⟩
  rw [hasRoot_iff (hg.wellFormed .propositions) hps hf hj, Overtaken, not_and_not_right]

theorem live_of_page {s : ReadStep}
    (hj : j ∈ (db .page).page (q.use ch .page) (ch.found .listing)) :
    j ∈ (db s).justifications.live :=
  (hg.grows .page s (Nat.zero_le _)).justifications (live_of_mem_page hj)

theorem exists_assemble (h : Loaded db ch q ix l) (hnone : firstOvertaken db ch q = none) :
    ∃ out, (ix.assemble l).result = .ok out ∧ out.map (·.id) =
      ((db .page).page (q.use ch .page) (ch.found .listing)).map (·.id) := by
  have hroots : ∀ j ∈ (db .page).page (q.use ch .page) (ch.found .listing), l.HasRoot j := by
    intro j hj
    have hkept := List.find?_eq_none.1 hnone j hj
    exact (h.hasRoot j (hg.live_of_page hj)).2 (by simpa using hkept)
  obtain ⟨ps, hf⟩ := h.finds
  obtain ⟨out, hout⟩ := h.outlines.exists_assemble (hg.wellFormed .counters) h.keyed hf
    h.page (fun j hj => hg.live_of_page hj) hroots
  refine ⟨out, hout, ?_⟩
  rw [Index.assemble_of_ids h.page] at hout
  exact map_eq_of_mapM (fun j hj x hx =>
    Index.id_of_assembleWithCounters (Index.mem_ids_of_page h.page hj) hx) hout

/-- **The page is read** if none of its justifications is overtaken. -/
theorem exists_page (hq : r.compile = .ok q) (htakes : Takes db ch r q)
    (hnone : firstOvertaken db ch q = none) :
    ∃ out, (readAt db ch r).result = .ok out ∧ out.map (·.id) =
      ((db .page).page (q.use ch .page) (ch.found .listing)).map (·.id) := by
  by_cases he : (db .page).candidates (q.use ch .page) = []
  · rw [(page_eq_nil_iff (hg.keyed .page)).2 he]
    by_cases hn : r.effectiveCount = 0
    · exact ⟨[], readAt_of_count_eq_zero hn, rfl⟩
    · exact ⟨[], readAt_of_empty hg.keyed hq (htakes.page hn) he, rfl⟩
  · obtain ⟨ix, l, h, hread⟩ := hg.exists_loaded hq htakes he
    rw [hread]
    exact hg.exists_assemble h hnone

end Growing

/-! ## Reads -/

variable {r : Request}

/-- A page is read from a well-formed store. -/
theorem exists_page (hw : db.WellFormed) (hq : r.compile = .ok q)
    (htakes : Takes (fun _ => db) ch r q) (hfinds : db.FindsPage ch q .rootPropositions) :
    ∃ out, (db.read ch r).result = .ok out := by
  obtain ⟨out, hout, -⟩ := hw.growing.exists_page hq htakes (firstOvertaken_eq_none hw.keyed hfinds)
  exact ⟨out, hout⟩

/-- What a database makes of the query of a request. -/
theorem plan_of_compile (hq : r.compile = .ok q) : r.plan = q.plan := by
  rw [Request.plan, hq]

/-- As a database plans it, the evaluation for roots comes across rows as that of
    the page does. -/
theorem found_rootPropositions_of_plan (q : PageQuery) :
    q.plan.found .rootPropositions = q.plan.found .page := by
  simp only [PageQuery.plan, PageQuery.followsIndex, Bool.and_false]

/-- Where all targets are less in some measure, none leads back to itself. -/
theorem acyclic_of_lt (measure : JustificationRow → Int64)
    (h : ∀ j t, db.Counters j t → measure t < measure j) (j : JustificationRow) :
    ¬ Relation.TransGen db.Counters j j := by
  have hlt : ∀ {j t}, Relation.TransGen db.Counters j t → measure t < measure j := by
    intro j t hjt
    induction hjt with
    | single hjt => exact h _ _ hjt
    | tail _ htu ih => exact Int64.lt_trans (h _ _ htu) ih
  exact fun hjj => Int64.lt_irrefl (hlt hjj)

/-- A justification of a proposition, one that counters it with a media excerpt,
    and one of a statement. -/
def Store.debate : Store :=
  { sample [
      ⟨.sample 1, none⟩,
      ⟨{ JustificationRow.sample 2 with
          rootPolarity := "NEGATIVE", targetType := "JUSTIFICATION", targetId := 1,
          basisType := "MEDIA_EXCERPT", polarity := "NEGATIVE" }, none⟩,
      ⟨{ JustificationRow.sample 3 with
          rootTargetType := "STATEMENT", targetType := "STATEMENT" }, none⟩] with
    persorgs := [⟨⟨1, "Weather Office", 1, "2024-01-01T00:00:00+00:00"⟩, none⟩]
    statements := [⟨⟨1, 1, "PROPOSITION", 1, 1, "2024-01-01T00:00:00+00:00"⟩, none⟩]
    mediaExcerpts := [⟨⟨1, "Dry.", 1, "2024-01-01T00:00:00+00:00"⟩, none⟩] }

theorem Store.wellFormed_debate : debate.WellFormed where
  keyed := by constructor <;> decide
  readable := by constructor <;> decide +kernel
  creator := by decide
  root := by decide
  target_root := by decide
  countered_root := forall_counters (by decide)
  acyclic := acyclic_of_lt (·.id) (forall_counters (by decide))
  basis_excerpt := by decide
  paraphrased_excerpt := by decide

theorem Store.small_debate : debate.Small := by
  constructor <;> decide

/-- One justification, which has a quote for its basis. -/
theorem Store.wellFormed_sample : (sample [⟨.sample 1, none⟩]).WellFormed where
  keyed := by constructor <;> decide
  readable := by constructor <;> decide +kernel
  creator := by decide
  root j hj := by
    cases List.mem_singleton.1 hj
    exact .proposition rfl (List.mem_singleton.2 rfl) rfl
  target_root := by decide
  countered_root := forall_counters (by decide)
  acyclic := acyclic_of_lt (·.id) (forall_counters (by decide))
  basis_excerpt := by decide
  paraphrased_excerpt := by decide

/-- That justification, asked for again and again. -/
def Query.Request.manyTimes : Request :=
  { filters := Filters.only .justificationId (.many (List.replicate 16384 "1")), count := 1 }

/-- A justification of a statement, three that counter it, and one that counters
    one of these, on bases of every type.  Parts of them have been deleted: a
    proposition that is an atom, is paraphrased and is what the statement says,
    a writ, and a counter.  One proposition is an atom of the mixed basis twice. -/
def Store.inquiry : Store where
  users := [⟨⟨1, "Ada", "2024-01-01T00:00:00+00:00"⟩, none⟩]
  persorgs := [⟨⟨1, "Weather Office", 1, "2024-01-01T00:00:00+00:00"⟩, none⟩]
  propositions := [
    ⟨⟨1, "It rains.", 1, "2024-01-01T00:00:00+00:00"⟩, none⟩,
    ⟨⟨2, "It is wet.", 1, "2024-01-01T00:00:00+00:00"⟩, none⟩,
    ⟨⟨3, "Clouds gather.", 1, "2024-01-01T00:00:00+00:00"⟩, some "2024-02-01T00:00:00+00:00"⟩]
  statements := [⟨⟨1, 1, "PROPOSITION", 3, 1, "2024-01-01T00:00:00+00:00"⟩, none⟩]
  writs := [
    ⟨⟨1, "Almanac", 1, "2024-01-01T00:00:00+00:00"⟩, none⟩,
    ⟨⟨2, "Diary", 1, "2024-01-01T00:00:00+00:00"⟩, some "2024-02-01T00:00:00+00:00"⟩]
  writQuotes := [
    ⟨⟨1, 1, "Rain.", 1, "2024-01-01T00:00:00+00:00"⟩, none⟩,
    ⟨⟨2, 2, "No rain.", 1, "2024-01-01T00:00:00+00:00"⟩, none⟩]
  mediaExcerpts := [⟨⟨1, "Dry.", 1, "2024-01-01T00:00:00+00:00"⟩, none⟩]
  paraphrases := [
    ⟨⟨1, 3, "WRIT_QUOTE", 1, 1, "2024-01-01T00:00:00+00:00"⟩, none⟩,
    ⟨⟨2, 2, "MEDIA_EXCERPT", 1, 1, "2024-01-01T00:00:00+00:00"⟩, none⟩]
  propositionCompounds := [⟨⟨1, 1, "2024-01-01T00:00:00+00:00"⟩, none⟩]
  compoundAtoms := [⟨1, 2, 1⟩, ⟨1, 3, 0⟩, ⟨1, 1, 1⟩]
  basisCompounds := [⟨⟨1, 1, "2024-01-01T00:00:00+00:00"⟩, none⟩]
  basisAtoms := [⟨1, 1, "PROPOSITION", 1, 2⟩, ⟨2, 1, "SOURCE_EXCERPT_PARAPHRASE", 2, 1⟩,
    ⟨3, 1, "SOURCE_EXCERPT_PARAPHRASE", 1, 1⟩, ⟨4, 1, "PROPOSITION", 3, 0⟩,
    ⟨5, 1, "PROPOSITION", 1, 0⟩]
  justifications := [
    ⟨⟨1, "STATEMENT", 1, "POSITIVE", "STATEMENT", 1, "PROPOSITION_COMPOUND", 1, "POSITIVE", 1,
      "2024-01-01T00:00:00+00:00"⟩, none⟩,
    ⟨⟨2, "STATEMENT", 1, "NEGATIVE", "JUSTIFICATION", 1, "JUSTIFICATION_BASIS_COMPOUND", 1,
      "NEGATIVE", 1, "2024-01-03T00:00:00+00:00"⟩, none⟩,
    ⟨⟨3, "STATEMENT", 1, "NEGATIVE", "JUSTIFICATION", 1, "WRIT_QUOTE", 2, "NEGATIVE", 1,
      "2024-01-02T00:00:00+00:00"⟩, none⟩,
    ⟨⟨4, "STATEMENT", 1, "NEGATIVE", "JUSTIFICATION", 1, "MEDIA_EXCERPT", 1, "NEGATIVE", 1,
      "2024-01-02T00:00:00+00:00"⟩, none⟩,
    ⟨⟨5, "STATEMENT", 1, "NEGATIVE", "JUSTIFICATION", 1, "MEDIA_EXCERPT", 1, "NEGATIVE", 1,
      "2024-01-02T00:00:00+00:00"⟩, some "2024-02-01T00:00:00+00:00"⟩,
    ⟨⟨6, "STATEMENT", 1, "POSITIVE", "JUSTIFICATION", 2, "WRIT_QUOTE", 1, "NEGATIVE", 1,
      "2024-01-04T00:00:00+00:00"⟩, none⟩]

theorem Store.wellFormed_inquiry : inquiry.WellFormed where
  keyed := by constructor <;> decide
  readable := by constructor <;> decide +kernel
  creator := by decide
  root := by decide
  target_root := by decide
  countered_root := forall_counters (by decide)
  acyclic := acyclic_of_lt (·.id) (forall_counters (by decide))
  basis_excerpt := by decide
  paraphrased_excerpt := by decide

theorem Store.small_inquiry : inquiry.Small := by
  constructor <;> decide

end Rationale
