/-
  Rationale — when a page is refused.

  Two things keep a justification of a page from being assembled: targets lead
  round in a circle, or something was not looked up that is named on the way, by
  the justification, by those to which its targets lead, or by what counters it.
  Nothing else does.  All that is nested passes its check, so the chains have no
  say in what comes out.

  * `Lookups.Lacks`: what cannot be filled in;
  * `Index.Circles`, `Index.Involves`: where targets lead, and who has a part in
    a justification of the page;
  * `exists_assembleNode_error_iff`, `exists_assembleWithCounters_error_iff`:
    when one justification is refused;
  * `assemble_of_reconstructed`: when a page is refused, and with which faults.
-/
import Rationale.Proofs.Gathering
import Rationale.Proofs.Reading
import Rationale.Proofs.SharedExcerpts

namespace Rationale

variable {ix : Index} {l : Lookups} {x y : Justification} {i k p : Id} {f : Fault}

/-- The faults with which a page is refused: targets lead round in a circle, or
    something was not looked up. -/
inductive Refusal : Fault → Prop
  | circle i path : Refusal (.integrity (.targetCycle i path))
  | missing kind i : Refusal (.integrity (.notLoaded kind i))

/-! ## Filling in -/

namespace Lookups

/-- The justification names something that was not looked up. -/
inductive Lacks (l : Lookups) (x : Justification) : Prop
  | propositionTarget {p : Relation Proposition} : x.target = .proposition p →
      l.propositions (p.id (·.id)) = none → Lacks l x
  | statementTarget {s} : x.target = .statement s → l.statements (s.id (·.id)) = none → Lacks l x
  | propositionRoot {p : Relation Proposition} : x.rootTarget = .proposition p →
      l.propositions (p.id (·.id)) = none → Lacks l x
  | statementRoot {s} : x.rootTarget = .statement s → l.statements (s.id (·.id)) = none →
      Lacks l x
  | mediaExcerpt {e} : x.basis.mediaExcerptId? = some e → l.mediaExcerpts e = none → Lacks l x
  | creator : l.users (x.creator.id (·.id)) = none → Lacks l x

theorem required_eq_error {α : Type} {kind : EntityKind} {o : Option α} :
    required kind i o = .error f ↔ o = none ∧ f = .integrity (.notLoaded kind i) := by
  cases o <;> simp [required, eq_comm]

theorem refusal_of_required {α : Type} {kind : EntityKind} {o : Option α}
    (h : required kind i o = .error f) : o = none ∧ Refusal f := by
  obtain ⟨ho, rfl⟩ := required_eq_error.1 h
  exact ⟨ho, .missing kind i⟩

theorem lacks_of_target (h : l.target x.target = .error f) : l.Lacks x ∧ Refusal f := by
  cases ht : x.target with
  | proposition p =>
    rw [ht] at h
    obtain ⟨hnone, hf⟩ := refusal_of_required (map_eq_error.1 (map_eq_error.1 h))
    exact ⟨.propositionTarget ht hnone, hf⟩
  | statement s =>
    rw [ht] at h
    obtain ⟨hnone, hf⟩ := refusal_of_required (map_eq_error.1 (map_eq_error.1 h))
    exact ⟨.statementTarget ht hnone, hf⟩
  | justification j =>
    rw [ht] at h
    cases h

theorem lacks_of_rootTarget (h : l.rootTarget x.rootTarget = .error f) :
    l.Lacks x ∧ Refusal f := by
  cases ht : x.rootTarget with
  | proposition p =>
    rw [ht] at h
    obtain ⟨hnone, hf⟩ := refusal_of_required (map_eq_error.1 (map_eq_error.1 h))
    exact ⟨.propositionRoot ht hnone, hf⟩
  | statement s =>
    rw [ht] at h
    obtain ⟨hnone, hf⟩ := refusal_of_required (map_eq_error.1 (map_eq_error.1 h))
    exact ⟨.statementRoot ht hnone, hf⟩

theorem lacks_of_basis (h : l.basis x.basis = .error f) : l.Lacks x ∧ Refusal f := by
  unfold basis at h
  split at h
  · rename_i e hb
    obtain ⟨hnone, hf⟩ := refusal_of_required (map_eq_error.1 h)
    exact ⟨.mediaExcerpt (e := e) (by rw [hb]; rfl) hnone, hf⟩
  · cases h
  · cases h
  · cases h

/-- What is not filled in names something that was not looked up. -/
theorem lacks_of_hydrate (h : l.hydrate x = .error f) : l.Lacks x ∧ Refusal f := by
  rcases bind_eq_error.1 h with ht | ⟨_, -, h⟩
  · exact lacks_of_target ht
  rcases bind_eq_error.1 h with hr | ⟨_, -, h⟩
  · exact lacks_of_rootTarget hr
  rcases bind_eq_error.1 h with hb | ⟨_, -, h⟩
  · exact lacks_of_basis hb
  rcases bind_eq_error.1 h with hc | ⟨_, -, h⟩
  · obtain ⟨hnone, hf⟩ := refusal_of_required (map_eq_error.1 hc)
    exact ⟨.creator hnone, hf⟩
  · cases h

/-- A media excerpt that is known by its id has to be found. -/
theorem not_lacks_of_hydrate (hb : ∀ e, x.basis ≠ .mediaExcerpt (.entity e))
    (h : l.hydrate x = .ok y) : ¬ l.Lacks x := by
  obtain ⟨t, ht, r, hr, -, -, c, hc, -⟩ := hydrate_eq_ok.1 h
  rintro (⟨hx, hnone⟩ | ⟨hx, hnone⟩ | ⟨hx, hnone⟩ | ⟨hx, hnone⟩ | ⟨hx, hnone⟩ | hnone)
  · rw [hx, target, proposition, hnone] at ht
    cases ht
  · rw [hx, target, statement, hnone] at ht
    cases ht
  · rw [hx, rootTarget, proposition, hnone] at hr
    cases hr
  · rw [hx, rootTarget, statement, hnone] at hr
    cases hr
  · cases hbx : x.basis with
    | mediaExcerpt e =>
      cases e with
      | entity e => exact hb e hbx
      | ref e =>
        rw [hbx] at hx
        cases hx
        obtain ⟨a, ha, -⟩ := entity_of_hydrate hbx h
        cases hnone.symm.trans ha
    | propositionCompound | writQuote | justificationBasisCompound =>
      rw [hbx] at hx
      cases hx
  · rw [creator, hnone] at hc
    cases hc

theorem exists_hydrate_error_iff (hb : ∀ e, x.basis ≠ .mediaExcerpt (.entity e)) :
    (∃ f, l.hydrate x = .error f) ↔ l.Lacks x := by
  constructor
  · rintro ⟨f, h⟩
    exact (lacks_of_hydrate h).1
  · exact fun h => exists_error_iff.2 fun ⟨y, hy⟩ => not_lacks_of_hydrate hb hy h

end Lookups

/-! ## Where targets lead -/

namespace Index

/-- The target of the node `i` is the node `k`. -/
def Targets (ix : Index) (i k : Id) : Prop :=
  ∃ x, ix.node? i = some x ∧ x.target.justificationId? = some k ∧ k ∈ ix.ids

/-- From the node `i` targets lead to one to which they come back. -/
def Circles (ix : Index) (i : Id) : Prop :=
  ∃ k, Relation.ReflTransGen ix.Targets i k ∧ Relation.TransGen ix.Targets k k

/-- Who has a part in the justification `p` of the page: those to which its
    targets lead, itself among them, and what counters it. -/
inductive Involves (ix : Index) (p : Id) : Id → Prop
  | target {i : Id} : Relation.ReflTransGen ix.Targets p i → Involves ix p i
  | counter {c} : c ∈ ix.counters → c.target.id = p → Involves ix p c.id

theorem mem_ids_of_counter {c : Justification} (h : c ∈ ix.counters) : c.id ∈ ix.ids :=
  mem_ascending.2 (List.mem_map_of_mem (List.mem_append_right _ h))

theorem mem_ids_of_mem_page {c : Justification} (h : c ∈ ix.page) : c.id ∈ ix.ids :=
  mem_ascending.2 (List.mem_map_of_mem (List.mem_append_left _ (List.mem_append_left _ h)))

theorem shell_eq_error (hi : i ∈ ix.ids) :
    ix.shell l i = .error f ↔ ∃ x, ix.node? i = some x ∧ l.hydrate x = .error f := by
  obtain ⟨x, hx⟩ := Option.isSome_iff_exists.1 (node?_isSome_iff.2 hi)
  simp [shell, hx]

theorem refusal_of_shell (hi : i ∈ ix.ids) (h : ix.shell l i = .error f) : Refusal f := by
  obtain ⟨x, -, hx⟩ := (shell_eq_error hi).1 h
  exact (Lookups.lacks_of_hydrate hx).2

theorem refusal_of_leave {w : Graph.Walk Id} (h : (ix.leave w).result = .error f) :
    Refusal f := by
  unfold leave at h
  split at h
  · split at h
    · cases h
      exact .circle ..
    · cases h
  · cases h

end Index

namespace Index.Bare

open IndexOf (next passes_targetWalk leave_targetWalk_eq_ok)

variable (h : ix.Bare)

include h

theorem goes_iff : Graph.Goes (next ix) ix.ids i k ↔ ix.Targets i k := by
  constructor
  · rintro ⟨hn, hk⟩
    obtain ⟨x, hx, hxk⟩ := Option.bind_eq_some_iff.1 hn
    exact ⟨x, hx, h.openTarget?_eq hx ▸ hxk, hk⟩
  · rintro ⟨x, hx, hxk, hk⟩
    exact ⟨(h.next_eq hx).trans hxk, hk⟩

theorem goes_eq : Graph.Goes (next ix) ix.ids = ix.Targets :=
  funext₂ fun _ _ => propext h.goes_iff

/-- The walk of the assembly passes all to which targets lead. -/
theorem mem_targetWalk_iff (hi : i ∈ ix.ids) :
    k ∈ (ix.targetWalk i).path ↔ Relation.ReflTransGen ix.Targets i k := by
  rw [← h.goes_eq]
  exact Graph.mem_path_iff hi

/-- It comes back to itself if targets lead round in a circle. -/
theorem circles_iff (hi : i ∈ ix.ids) :
    ix.Circles i ↔ ∃ k ∈ (ix.targetWalk i).exit, k ∈ ix.ids := by
  rw [Circles, ← h.goes_eq]
  exact (Graph.exit_mem_iff hi).symm

theorem exists_shell_error_iff (hi : i ∈ ix.ids) :
    (∃ f, ix.shell l i = .error f) ↔ ∃ x, ix.node? i = some x ∧ l.Lacks x := by
  simp only [shell_eq_error hi]
  rw [exists_comm]
  refine exists_congr fun x => ?_
  rw [exists_and_left]
  refine and_congr_right fun hx => ?_
  exact Lookups.exists_hydrate_error_iff (h.basis x (List.mem_of_find?_eq_some hx))

/-! ## One justification -/

variable (hl : l.Keyed) (hf : l.Follows ix) (hi : i ∈ ix.ids)

include hl hf hi

/-- **A node is refused** if targets lead from it round in a circle, or to
    something that cannot be filled in. -/
theorem exists_assembleNode_error_iff :
    (∃ f, (ix.assembleNode l i).result = .error f) ↔
      ix.Circles i ∨ ∃ k ∈ (ix.targetWalk i).path, ∃ f, ix.shell l k = .error f := by
  rw [exists_error_iff, h.circles_iff hi, ← exists_mapM_eq_error_iff]
  simp only [h.assembleNode_eq_ok hl hf hi]
  constructor
  · intro hnone
    cases hpath : (ix.targetWalk i).path.mapM (ix.shell l) with
    | error f => exact .inr ⟨f, rfl⟩
    | ok ys =>
      refine .inl (Classical.byContradiction fun hgood => hnone ?_)
      obtain ⟨rest, hrest⟩ := (passes_targetWalk hi).exists_cons
      obtain ⟨z, zs, -, -, rfl⟩ := List.forall₂_cons_left_iff.1 (hrest ▸ mapM_eq_ok.1 hpath)
      exact ⟨_, z, zs, hpath, fun k hk hfree => hgood ⟨k, hk, hfree⟩, rfl⟩
  · rintro (⟨k, hk, hfree⟩ | ⟨f, hf⟩) ⟨_, z, zs, hpath, hexit, -⟩
    · exact hexit k hk hfree
    · rw [hf] at hpath
      cases hpath

/-- The same with what counters it. -/
theorem exists_assembleWithCounters_error_iff :
    (∃ f, (ix.assembleWithCounters l i).result = .error f) ↔
      ix.Circles i ∨ ∃ k, ix.Involves i k ∧ ∃ x, ix.node? k = some x ∧ l.Lacks x := by
  have hok : (∃ x, (ix.assembleWithCounters l i).result = .ok x) ↔
      (∃ x, (ix.assembleNode l i).result = .ok x) ∧
        ∃ cs, (ix.countersOf i).mapM (fun c => ix.shell l c.id) = .ok cs := by
    simp only [assembleWithCounters_eq_ok]
    constructor
    · rintro ⟨_, y, cs, hy, hcs, -⟩
      exact ⟨⟨y, hy⟩, cs, hcs⟩
    · rintro ⟨⟨y, hy⟩, cs, hcs⟩
      exact ⟨_, y, cs, hy, hcs, rfl⟩
  rw [exists_error_iff, hok, not_and_or, ← exists_error_iff, ← exists_error_iff,
    h.exists_assembleNode_error_iff hl hf hi, exists_mapM_eq_error_iff, or_assoc]
  refine or_congr_right ?_
  constructor
  · rintro (⟨k, hk, hfault⟩ | ⟨c, hc, hfault⟩)
    · exact ⟨k, .target ((h.mem_targetWalk_iff hi).1 hk),
        (h.exists_shell_error_iff (Graph.mem_of_mem_path hk)).1 hfault⟩
    · obtain ⟨hc, hci⟩ := List.mem_filter.1 hc
      exact ⟨c.id, .counter hc (of_decide_eq_true hci),
        (h.exists_shell_error_iff (mem_ids_of_counter hc)).1 hfault⟩
  · rintro ⟨k, hk | ⟨hc, hci⟩, hx⟩
    · have hk := (h.mem_targetWalk_iff hi).2 hk
      exact .inl ⟨k, hk, (h.exists_shell_error_iff (Graph.mem_of_mem_path hk)).2 hx⟩
    · exact .inr ⟨_, List.mem_filter.2 ⟨hc, decide_eq_true hci⟩,
        (h.exists_shell_error_iff (mem_ids_of_counter hc)).2 hx⟩

/-! ## Faults -/

theorem refusal_of_assembleNode (herror : (ix.assembleNode l i).result = .error f) : Refusal f := by
  rw [h.assembleNode_eq hl hf hi, Logged.result_bind, Logged.result_ofExcept] at herror
  rcases bind_eq_error.1 herror with hpath | ⟨ys, hys, herror⟩
  · obtain ⟨k, hk, hshell⟩ := exists_of_mapM_eq_error hpath
    exact refusal_of_shell (Graph.mem_of_mem_path hk) hshell
  · obtain ⟨rest, hrest⟩ := (passes_targetWalk hi).exists_cons
    obtain ⟨y, ys, -, -, rfl⟩ := List.forall₂_cons_left_iff.1 (hrest ▸ mapM_eq_ok.1 hys)
    rw [Logged.result_bind] at herror
    rcases bind_eq_error.1 herror with hleave | ⟨_, -, hnested⟩
    · exact refusal_of_leave hleave
    · cases hnested

theorem refusal_of_assembleWithCounters
    (herror : (ix.assembleWithCounters l i).result = .error f) : Refusal f := by
  rw [assembleWithCounters, Logged.result_bind] at herror
  rcases bind_eq_error.1 herror with hnode | ⟨y, -, herror⟩
  · exact h.refusal_of_assembleNode hl hf hi hnode
  rw [Logged.result_bind, Logged.result_mapM] at herror
  rcases bind_eq_error.1 herror with hcounters | ⟨cs, -, hcs⟩
  · obtain ⟨c, hc, hshell⟩ := exists_of_mapM_eq_error hcounters
    rw [assembleCounter_result] at hshell
    exact refusal_of_shell (mem_ids_of_counter (List.mem_filter.1 hc).1) hshell
  · cases hcs

omit hf hi

/-- Chains have no say. -/
theorem assemble_withChains {chains chains' : List (Id × List Id)}
    (hf : Lookups.Follows { l with chains } ix)
    (hf' : Lookups.Follows { l with chains := chains' } ix) :
    ix.assemble { l with chains } = ix.assemble { l with chains := chains' } := by
  have hkeyed : ∀ chains, Lookups.Keyed { l with chains } := fun _ =>
    ⟨hl.propositions, hl.statements, hl.mediaExcerpts, hl.users⟩
  refine mapM_congr fun p hp => ?_
  have hi := mem_ids_of_mem_page hp
  rw [assembleWithCounters, assembleWithCounters, h.assembleNode_eq (hkeyed _) hf hi,
    h.assembleNode_eq (hkeyed _) hf' hi]
  rfl

end Index.Bare

/-! ## Pages -/

namespace Index

/-- The index is made of what rows tell of a page, of targets and of counters. -/
structure Reconstructed (ix : Index) (page targets counters : List JoinedRow) : Prop where
  page : ∃ η, reconstruct η page = .ok ix.page
  targets : ∃ η, reconstruct η targets = .ok ix.targets
  counters : ∃ η, reconstruct η counters = .ok ix.counters

variable {page targets counters : List JoinedRow}

theorem Reconstructed.exists_rows (h : ix.Reconstructed page targets counters)
    (hx : x ∈ ix.justifications) : ∃ rows η xs, reconstruct η rows = .ok xs ∧ x ∈ xs := by
  rw [justifications, List.mem_append, List.mem_append] at hx
  rcases hx with (hx | hx) | hx
  · obtain ⟨η, hη⟩ := h.page
    exact ⟨_, η, _, hη, hx⟩
  · obtain ⟨η, hη⟩ := h.targets
    exact ⟨_, η, _, hη, hx⟩
  · obtain ⟨η, hη⟩ := h.counters
    exact ⟨_, η, _, hη, hx⟩

/-- Rows name justifications and media excerpts by their ids. -/
theorem Reconstructed.bare (h : ix.Reconstructed page targets counters) : ix.Bare where
  target x hx t := by
    obtain ⟨rows, η, xs, hrows, hx⟩ := h.exists_rows hx
    obtain ⟨r, -, y, hy, b, -, rfl⟩ := exists_of_mem_reconstruct hrows hx
    obtain ⟨_, _, type, _, _, _, -, -, -, -, -, -, rfl⟩ := JustificationRow.decode_eq_ok.1 hy
    cases type <;> simp [TargetOf.resolve, Relation.ofLookup]
  basis x hx e := by
    obtain ⟨rows, η, xs, hrows, hx⟩ := h.exists_rows hx
    obtain ⟨r, -, y, -, b, hb, rfl⟩ := exists_of_mem_reconstruct hrows hx
    cases y.basis.type <;> simp [Basis.resolve, Relation.ofLookup, hb]

/-- **When a page is refused.**  It is if targets lead from a justification of the
    page round in a circle, or if one that is involved in it names something that
    was not looked up; there are no other faults.  The chains of media excerpts
    make no difference to what comes out and what is logged. -/
theorem assemble_of_reconstructed (h : ix.Reconstructed page targets counters) (hl : l.Keyed)
    (hchains : l.chains = ix.chains ∨ l.chains = []) :
    ((∃ f, (ix.assemble l).result = .error f) ↔ ∃ p ∈ ix.page, ix.Circles p.id ∨
      ∃ i, ix.Involves p.id i ∧ ∃ x, ix.node? i = some x ∧ l.Lacks x) ∧
    (∀ f, (ix.assemble l).result = .error f → Refusal f) ∧
    ix.assemble { l with chains := ix.chains } = ix.assemble { l with chains := [] } := by
  have hf : l.Follows ix := hchains.elim Lookups.follows_of_chains Lookups.follows_of_nil
  have hid : ∀ {p}, p ∈ ix.page → p.id ∈ ix.ids := mem_ids_of_mem_page
  refine ⟨?_, fun f herror => ?_, ?_⟩
  · rw [assemble, Logged.result_mapM, exists_mapM_eq_error_iff]
    refine exists_congr fun p => and_congr_right fun hp => ?_
    exact h.bare.exists_assembleWithCounters_error_iff hl hf (hid hp)
  · rw [assemble, Logged.result_mapM] at herror
    obtain ⟨p, hp, herror⟩ := exists_of_mapM_eq_error herror
    exact h.bare.refusal_of_assembleWithCounters hl hf (hid hp) herror
  · exact h.bare.assemble_withChains hl (Lookups.follows_of_chains rfl)
      (Lookups.follows_of_nil rfl)

end Index

/-- The row of a justification of the sample proposition, or of one that counters
    `target?`. -/
def JoinedRow.sample (i : Id) (target? : Option Id) : JoinedRow :=
  let j := JustificationRow.sample i
  { justification := match target? with
      | none => j
      | some t => { j with targetType := "JUSTIFICATION", targetId := t, polarity := "NEGATIVE" }
    compound := none
    compoundAtom := none
    quote := none
    mixed := none
    mixedAtom := none }

/-- What those rows name. -/
def Lookups.sample : Lookups where
  propositions i := [⟨1, "It rains.", 1, .newYear⟩].find? (·.id = i)
  statements _ := none
  mediaExcerpts _ := none
  users i := [⟨1, "Ada"⟩].find? (·.id = i)
  writQuoteUrls := none
  chains := []

theorem Lookups.keyed_sample : sample.Keyed where
  propositions i p h := by
    dsimp only [sample] at h
    simpa using List.find?_some h
  statements _ _ h := by cases h
  mediaExcerpts _ _ h := by cases h
  users i u h := by
    dsimp only [sample] at h
    simpa using List.find?_some h

/-- Two justifications that counter each other. -/
theorem Index.assemble_of_reconstructed_ring : ∃ ix : Index,
    ix.Reconstructed [.sample 1 (some 2)] [.sample 2 (some 1)] [.sample 2 (some 1)] ∧
    Lookups.sample.Keyed ∧ Lookups.sample.chains = [] ∧
    ((∃ f, (ix.assemble .sample).result = .error f) ↔ ∃ p ∈ ix.page, ix.Circles p.id ∨
      ∃ i, ix.Involves p.id i ∧ ∃ x, ix.node? i = some x ∧ Lookups.sample.Lacks x) ∧
    (∀ f, (ix.assemble .sample).result = .error f → Refusal f) ∧
    ix.assemble { Lookups.sample with chains := ix.chains } =
      ix.assemble { Lookups.sample with chains := [] } := by
  obtain ⟨page, hpage⟩ : ∃ xs, reconstruct .asTold [.sample 1 (some 2)] = .ok xs :=
    exists_ok_iff_isOk.2 (by decide +kernel)
  obtain ⟨others, hothers⟩ : ∃ xs, reconstruct .asTold [.sample 2 (some 1)] = .ok xs :=
    exists_ok_iff_isOk.2 (by decide +kernel)
  have h : Reconstructed ⟨page, others, others⟩ _ _ _ := ⟨⟨_, hpage⟩, ⟨_, hothers⟩, ⟨_, hothers⟩⟩
  exact ⟨_, h, Lookups.keyed_sample, rfl,
    assemble_of_reconstructed h Lookups.keyed_sample (.inr rfl)⟩

end Rationale
