/-
  Rationale — what the nodes of an index name.

  An index names what its nodes name: the statements that are their targets and
  roots, the media excerpts of their bases, and their creators.  A media excerpt
  may be looked up for its chain or for a paraphrase; in either case there is a
  node whose basis has it.  How a node is filled in depends on what it names.

  * `Index.mem_statementIds`, `Index.mem_excerptIds`, `Index.mem_creatorIds`:
    what is looked up is what some node names;
  * `hydrate_of_agree`: lookups that agree on what a justification names fill it
    in alike.
-/
import Rationale.Proofs.FirstExcerpts
import Rationale.Proofs.Reading

namespace Rationale

namespace Justification

/-- The statements that are the target or the root. -/
def statementIds (x : Justification) : List Id :=
  (if x.target.type = .statement then [x.target.id] else []) ++
    if x.rootTarget.type = .statement then [x.rootTarget.id] else []

/-- The media excerpts that the basis is or restates. -/
def excerptIds (x : Justification) : List Id :=
  match x.basis with
  | .mediaExcerpt e => [e.id (·.id)]
  | .justificationBasisCompound (.entity c) => c.atoms.filterMap (·.excerptId?)
  | _ => []

theorem mem_excerptIds_of_basis {x : Justification} {i : Id}
    (h : x.basis.mediaExcerptId? = some i) :
    i ∈ x.excerptIds := by
  unfold excerptIds
  cases hb : x.basis with
  | mediaExcerpt e =>
    rw [hb] at h
    cases h
    exact List.mem_singleton.2 rfl
  | propositionCompound | writQuote | justificationBasisCompound =>
    rw [hb] at h
    cases h

end Justification

namespace Index

variable {ix : Index} {x : Justification} {i : Id}

theorem mem_creatorIds : i ∈ ix.creatorIds ↔ ∃ x ∈ ix.nodes, x.creator.id (·.id) = i := by
  rw [creatorIds, mem_ascending, List.mem_map]

theorem mem_statementIds : i ∈ ix.statementIds ↔ ∃ x ∈ ix.nodes, i ∈ x.statementIds := by
  rw [statementIds, mem_ascending, List.mem_flatMap]
  rfl

theorem mem_excerptIds : i ∈ ix.excerptIds ↔ ∃ x ∈ ix.nodes, i ∈ x.excerptIds := by
  rw [excerptIds, mem_ascending, List.mem_append, mem_chains, paraphrasedExcerptIds, mem_ascending,
    List.mem_flatMap]
  constructor
  · rintro (⟨x, hx, hi⟩ | ⟨x, hx, hi⟩)
    · exact ⟨x, hx, Justification.mem_excerptIds_of_basis hi⟩
    · refine ⟨x, hx, ?_⟩
      split at hi
      · rename_i c hc
        rwa [Justification.excerptIds, hc]
      · cases hi
  · rintro ⟨x, hx, hi⟩
    unfold Justification.excerptIds at hi
    split at hi
    · rename_i e he
      cases List.mem_singleton.1 hi
      exact .inl ⟨x, hx, by rw [he]; rfl⟩
    · rename_i c hc
      exact .inr ⟨x, hx, by rwa [hc]⟩
    · cases hi

end Index

/-! ## Filling in -/

/-- Lookups that agree on what a justification names. -/
structure Lookups.AgreeOn (l m : Lookups) (x : Justification) : Prop where
  propositions : l.propositions = m.propositions
  statements : ∀ i ∈ x.statementIds, l.statements i = m.statements i
  mediaExcerpts : ∀ i ∈ x.excerptIds, l.mediaExcerpts i = m.mediaExcerpts i
  user : l.users (x.creator.id (·.id)) = m.users (x.creator.id (·.id))
  quote : ∀ w, x.basis = .writQuote (.entity w) → l.quote w = m.quote w

namespace Lookups

variable {l m : Lookups} {x : Justification}

theorem target_of_agree (h : l.AgreeOn m x) : l.target x.target = m.target x.target := by
  cases ht : x.target with
  | proposition p => rw [target, target, proposition, proposition, h.propositions]
  | statement s =>
    have hmem : s.id (·.id) ∈ x.statementIds :=
      List.mem_append_left _ (by simp [ht, TargetOf.type, TargetOf.id])
    rw [target, target, statement, statement, h.statements _ hmem]
  | justification t => rfl

theorem rootTarget_of_agree (h : l.AgreeOn m x) :
    l.rootTarget x.rootTarget = m.rootTarget x.rootTarget := by
  cases hr : x.rootTarget with
  | proposition p => rw [rootTarget, rootTarget, proposition, proposition, h.propositions]
  | statement s =>
    have hmem : s.id (·.id) ∈ x.statementIds :=
      List.mem_append_right _ (by simp [hr, RootTarget.type, RootTarget.id])
    rw [rootTarget, rootTarget, statement, statement, h.statements _ hmem]

theorem atom_of_agree {a : BasisAtom}
    (h : ∀ i, a.excerptId? = some i → l.mediaExcerpts i = m.mediaExcerpts i) :
    l.atom a = m.atom a := by
  obtain ⟨i, entity, position⟩ := a
  cases entity with
  | proposition p => rfl
  | sourceExcerptParaphrase p =>
    cases p with
    | ref i => rfl
    | entity p =>
      obtain ⟨i, proposition, excerpt⟩ := p
      cases excerpt with
      | writQuote w => rfl
      | mediaExcerpt e =>
        cases e with
        | entity e => rfl
        | ref k => simp only [atom, Lookups.excerpt, h k rfl]

theorem basis_of_agree (h : l.AgreeOn m x) : l.basis x.basis = m.basis x.basis := by
  cases hb : x.basis with
  | propositionCompound c => rfl
  | writQuote w =>
    cases w with
    | ref i => rfl
    | entity w => rw [basis, basis, h.quote w hb]
  | mediaExcerpt e =>
    cases e with
    | entity e => rfl
    | ref i =>
      have hmem : i ∈ x.excerptIds := Justification.mem_excerptIds_of_basis (by rw [hb]; rfl)
      rw [basis, basis, h.mediaExcerpts i hmem]
  | justificationBasisCompound c =>
    cases c with
    | ref i => rfl
    | entity c =>
      have hatoms : c.atoms.map l.atom = c.atoms.map m.atom := by
        refine List.map_congr_left fun a ha => atom_of_agree fun i hi => h.mediaExcerpts i ?_
        rw [Justification.excerptIds, hb]
        exact List.mem_filterMap.2 ⟨a, ha, hi⟩
      rw [basis, basis, hatoms]

/-- **Lookups that agree on what a justification names** fill it in alike. -/
theorem hydrate_of_agree (h : l.AgreeOn m x) : l.hydrate x = m.hydrate x := by
  simp only [hydrate, target_of_agree h, rootTarget_of_agree h, basis_of_agree h, creator, h.user]

end Lookups

end Rationale
