/-
  Rationale — in a well-formed store all that a page needs is found.

  What a live justification names is live as well, but for propositions
  (`Store.Knows`), and so it is found when it is looked up.  Propositions are read
  for the page alone, as far as it is found again, and these are the propositions
  of all that has a root of the page (`Covered`): the justifications to which its
  targets lead, and those that counter it.

  * `WellFormed.knows`: what a live justification names is live;
  * `exists_lookups_of_knows`: what the nodes of an index name is found;
  * `hasRoot_iff`: so is a root that is covered;
  * `Finds.exists_hydrate`: a node whose propositions were read can be filled in.
-/
import Rationale.Proofs.Naming
import Rationale.Proofs.WellFormed

namespace Rationale

open Query Store

variable {db : Store} {ch : Chance} {q : PageQuery} {ix : Index} {j t : JustificationRow}
  {x : Justification} {i : Id} {l : Lookups} {ps : List Proposition} {includeUrls : Bool}

/-! ## What a justification names -/

namespace Store

/-- What a justification names is there, but for propositions. -/
structure Knows (db : Store) (x : Justification) : Prop where
  excerpts : ∀ i ∈ x.excerptIds, ∃ e ∈ db.mediaExcerpts.live, e.id = i
  statements : ∀ i ∈ x.statementIds, ∃ e, db.statement? i = some e
  creator : ∃ u ∈ db.users.live, u.id = x.creator.id (·.id)

/-- A basis that is a media excerpt. -/
theorem excerpt_of_basis (hjx : db.outline j = .ok x) (hi : x.basis.mediaExcerptId? = some i) :
    j.basisType = Coded.text BasisType.mediaExcerpt ∧ j.basisId = i := by
  obtain ⟨htype, hid⟩ := JustificationRow.basis_of_row (row_of_outline hjx)
  cases hb : x.basis with
  | mediaExcerpt e =>
    rw [hb] at htype hid hi
    cases hi
    exact ⟨htype.symm, hid.symm⟩
  | propositionCompound | writQuote | justificationBasisCompound =>
    rw [hb] at hi
    cases hi

/-- The excerpt of an atom that is known by its id is that of a live paraphrase. -/
theorem paraphrase_of_atom {a : BasisAtomRow} {b : BasisAtom} (ha : db.atomOf a = .ok (some b))
    (hi : b.excerptId? = some i) : ∃ s ∈ db.paraphrases.live,
      s.excerptType = Coded.text SourceExcerptType.mediaExcerpt ∧ s.excerptId = i := by
  obtain ⟨type, -, ha⟩ := bind_eq_ok.1 ha
  cases type with
  | proposition =>
    rcases option_mapM_eq_ok.1 ha with ⟨-, ha⟩ | ⟨p, b', -, hb, hdecode⟩
    · cases ha
    · cases hb
      obtain ⟨x, -, hx⟩ := bind_eq_ok.1 hdecode
      cases hx
      cases hi
  | sourceExcerptParaphrase =>
    rcases option_mapM_eq_ok.1 ha with ⟨-, ha⟩ | ⟨p, b', hp, hb, hdecode⟩
    · cases ha
    · cases hb
      obtain ⟨x, hx, hdecode⟩ := bind_eq_ok.1 hdecode
      cases hdecode
      obtain ⟨s, hs, rfl⟩ := Option.map_eq_some_iff.1 hp
      obtain ⟨proposition, -, hx⟩ := bind_eq_ok.1 hx
      obtain ⟨type, htype, hx⟩ := bind_eq_ok.1 hx
      obtain ⟨quote, -, hx⟩ := bind_eq_ok.1 hx
      cases hx
      refine ⟨s, Table.mem_live_of_typed? hs, ?_⟩
      cases type with
      | writQuote =>
        exfalso
        revert hi
        simp [BasisAtom.excerptId?, SourceExcerpt.resolve]
      | mediaExcerpt =>
        cases hi
        exact ⟨exact_sourceExcerptType.decode_eq_ok.1 htype, rfl⟩

/-- An atom of a mixed compound that is a basis. -/
theorem atom_of_basis {c : BasisCompound} {b : BasisAtom} (hjx : db.outline j = .ok x)
    (hc : x.basis = .justificationBasisCompound (.entity c)) (hb : b ∈ c.atoms) :
    ∃ a, db.atomOf a = .ok (some b) := by
  obtain ⟨y, -, _, -, _, -, mixed, hmixed, rfl⟩ := outline_eq_ok.1 hjx
  obtain ⟨m, rfl, rfl⟩ : ∃ m, mixed = some m ∧ m = c := by
    revert hc
    cases y.basis.type <;> cases mixed <;> simp [Basis.resolve, Relation.ofLookup]
  rcases option_mapM_eq_ok.1 hmixed with ⟨-, hm⟩ | ⟨row, m', -, hm, hrow⟩
  · cases hm
  · cases hm
    obtain ⟨atoms, hatoms, hrow⟩ := bind_eq_ok.1 hrow
    obtain ⟨created, -, hrow⟩ := bind_eq_ok.1 hrow
    cases hrow
    rw [List.mem_mergeSort, List.reduceOption_mem_iff] at hb
    obtain ⟨a, -, ha⟩ := exists_of_mem_mapM hatoms hb
    exact ⟨a, ha⟩

namespace WellFormed

variable (hw : db.WellFormed) (hj : j ∈ db.justifications.live)

include hw hj

theorem exists_statement? (htype : j.rootTargetType = Coded.text RootTargetType.statement) :
    ∃ e, db.statement? j.rootTargetId = some e := by
  cases hw.root j hj with
  | proposition hp =>
    rw [htype] at hp
    exact nomatch Coded.text_injective hp
  | @statement s u _ hs hid hu hspeaker =>
    have hs' : db.statements.row? s.id = some s := hw.keyed.statements.row?_id hs
    have hu' : db.persorgs.row? u.id = some u := hw.keyed.persorgs.row?_id hu
    rw [hspeaker] at hu'
    rw [← hid, statement?, hs', Option.bind_eq_bind, Option.bind_some, hu']
    exact ⟨_, rfl⟩

/-- A target that is a proposition or a statement is the root, also in an outline
    made from another store. -/
theorem target_eq_root {db' : Store} (hjx : db'.outline j = .ok x)
    (hne : x.target.type ≠ .justification) :
    Coded.text x.target.type = j.rootTargetType ∧ x.target.id = j.rootTargetId := by
  obtain ⟨htype, hid⟩ := target_of_outline hjx
  have hother : j.targetType ≠ Coded.text TargetType.justification := by
    rw [← htype]
    exact fun heq => hne (Coded.text_injective heq)
  obtain ⟨hroot, hrootId⟩ := hw.target_root j hj hother
  exact ⟨htype.trans hroot, hid.trans hrootId⟩

/-- **What a live justification names is there**, but for propositions. -/
theorem knows (hjx : db.outline j = .ok x) : db.Knows x where
  excerpts i hi := by
    unfold Justification.excerptIds at hi
    split at hi
    · rename_i e he
      cases List.mem_singleton.1 hi
      obtain ⟨htype, hid⟩ := excerpt_of_basis hjx (by rw [he]; rfl)
      rw [← hid]
      exact hw.basis_excerpt j hj htype
    · rename_i c hc
      obtain ⟨b, hb, hi⟩ := List.mem_filterMap.1 hi
      obtain ⟨a, ha⟩ := atom_of_basis hjx hc hb
      obtain ⟨s, hs, htype, rfl⟩ := paraphrase_of_atom ha hi
      exact hw.paraphrased_excerpt s hs htype
    · cases hi
  statements i hi := by
    rcases List.mem_append.1 hi with hi | hi
    · split at hi
      · rename_i htype
        cases List.mem_singleton.1 hi
        obtain ⟨hroot, hid⟩ := hw.target_eq_root hj hjx (by rw [htype]; exact fun h => nomatch h)
        rw [hid]
        exact hw.exists_statement? hj (by rw [← hroot, htype]; rfl)
      · cases hi
    · split at hi
      · rename_i htype
        cases List.mem_singleton.1 hi
        obtain ⟨hroot, hid⟩ := rootTarget_of_outline hjx
        rw [hid]
        exact hw.exists_statement? hj (by rw [← hroot, htype])
      · cases hi
  creator := by
    obtain ⟨-, hcreator, -⟩ := decode_of_outline hjx
    rw [hcreator]
    exact hw.creator j hj

end WellFormed

end Store

/-! ## What an index names -/

/-- What can be decoded in every step can be decoded in the tables as they are then. -/
theorem readable_excerptTables {db : ReadStep → Store} (hr : ∀ s, (db s).Readable) :
    (excerptTables db).Readable :=
  { hr .mediaExcerpts with attempts := (hr .attempts).attempts }

section

variable {db : ReadStep → Store} (hr : ∀ s, (db s).Readable)

include hr

theorem exists_findMediaExcerpts_of_knows (hk : ∀ x ∈ ix.nodes, (db .mediaExcerpts).Knows x) :
    ∃ es, ((excerptTables db).findMediaExcerpts ix.excerptIds).result = .ok es := by
  refine (readable_excerptTables hr).exists_findMediaExcerpts fun i hi => ?_
  obtain ⟨x, hx, hi⟩ := Index.mem_excerptIds.1 hi
  exact (hk x hx).excerpts i hi

theorem exists_findStatements_of_knows (hk : ∀ x ∈ ix.nodes, (db .statements).Knows x) :
    ∃ ss, (db .statements).findStatements ix.statementIds = .ok ss := by
  refine (hr .statements).exists_findStatements fun i hi => ?_
  obtain ⟨x, hx, hi⟩ := Index.mem_statementIds.1 hi
  exact (hk x hx).statements i hi

omit hr in
theorem exists_findUsers_of_knows (hk : ∀ x ∈ ix.nodes, (db .users).Knows x) :
    ∃ us, (db .users).findUsers ix.creatorIds = .ok us := by
  refine exists_findUsers fun i hi => ?_
  obtain ⟨x, hx, rfl⟩ := Index.mem_creatorIds.1 hi
  exact (hk x hx).creator

/-- **What the nodes of an index name is found**, where it is looked up. -/
theorem exists_lookups_of_knows (hfits : LookupsFit db ix includeUrls)
    (hk : ∀ x ∈ ix.nodes, (db .mediaExcerpts).Knows x ∧ (db .statements).Knows x ∧
      (db .users).Knows x) (ps : List Proposition) :
    ∃ l, (lookupsAt db ix ps includeUrls).result = .ok l := by
  obtain ⟨es, hes⟩ := exists_findMediaExcerpts_of_knows hr fun x hx => (hk x hx).1
  obtain ⟨ss, hss⟩ := exists_findStatements_of_knows hr fun x hx => (hk x hx).2.1
  obtain ⟨us, hus⟩ := exists_findUsers_of_knows fun x hx => (hk x hx).2.2
  exact ⟨_, lookupsAt_eq_ok.2 ⟨hfits, es, hes, ss, hss, us, hus, rfl⟩⟩

end

/-! ## Filling in -/

/-- What was looked up is found. -/
structure Lookups.Finds (l : Lookups) (ix : Index) (ps : List Proposition) : Prop where
  propositions : ∀ i, l.propositions i = ps.find? (·.id = i)
  statements : ∀ i ∈ ix.statementIds, ∃ s, l.statements i = some s
  mediaExcerpts : ∀ i ∈ ix.excerptIds, ∃ e, l.mediaExcerpts i = some e
  users : ∀ i ∈ ix.creatorIds, ∃ u, l.users i = some u
  chains : l.chains = ix.chains

theorem finds_of_lookups {db : ReadStep → Store}
    (hl : (lookupsAt db ix ps includeUrls).result = .ok l) : l.Finds ix ps := by
  obtain ⟨-, es, hes, ss, hss, us, hus, rfl⟩ := lookupsAt_eq_ok.1 hl
  obtain ⟨_, -, _, -, hes⟩ := findMediaExcerpts_handedOut.1 hes
  obtain ⟨_, -, hss⟩ := bind_eq_ok.1 hss
  obtain ⟨rfl, hfoundExcerpts⟩ := complete_eq_ok_iff.1 hes
  obtain ⟨rfl, hfoundStatements⟩ := complete_eq_ok_iff.1 hss
  obtain ⟨rfl, hfoundUsers⟩ := complete_eq_ok_iff.1 hus
  exact {
    propositions := fun i => rfl
    statements := fun i hi => Option.isSome_iff_exists.1 (hfoundStatements i hi)
    mediaExcerpts := fun i hi => Option.isSome_iff_exists.1 (hfoundExcerpts i hi)
    users := fun i hi => Option.isSome_iff_exists.1 (hfoundUsers i hi)
    chains := rfl }

/-- The propositions that are the target or the root. -/
def Justification.propositionIds (x : Justification) : List Id :=
  (if x.target.type = .proposition then [x.target.id] else []) ++
    if x.rootTarget.type = .proposition then [x.rootTarget.id] else []

namespace Lookups.Finds

variable (hf : l.Finds ix ps) (hx : x ∈ ix.nodes)
  (hps : ∀ i ∈ x.propositionIds, ∃ p, l.propositions i = some p)

include hf hx

theorem exists_basis : ∃ b, l.basis x.basis = .ok b := by
  cases hb : x.basis with
  | propositionCompound c => exact ⟨_, rfl⟩
  | writQuote c => cases c <;> exact ⟨_, rfl⟩
  | justificationBasisCompound c => cases c <;> exact ⟨_, rfl⟩
  | mediaExcerpt e =>
    cases e with
    | entity e => exact ⟨_, rfl⟩
    | ref i =>
      have hmem : i ∈ ix.excerptIds := Index.mem_excerptIds.2
        ⟨x, hx, Justification.mem_excerptIds_of_basis (by rw [hb]; rfl)⟩
      obtain ⟨a, ha⟩ := hf.mediaExcerpts i hmem
      exact ⟨_, map_eq_ok.2 ⟨a, required_eq_ok.2 ha, rfl⟩⟩

theorem exists_creator : ∃ u, l.creator x.creator = .ok u := by
  have hmem : x.creator.id (·.id) ∈ ix.creatorIds := Index.mem_creatorIds.2 ⟨x, hx, rfl⟩
  obtain ⟨a, ha⟩ := hf.users _ hmem
  exact ⟨_, creator_eq_ok.2 ⟨a, ha, rfl⟩⟩

include hps

theorem exists_target : ∃ t, l.target x.target = .ok t := by
  cases ht : x.target with
  | proposition p =>
    obtain ⟨a, ha⟩ := hps (p.id (·.id))
      (List.mem_append_left _ (by simp [ht, TargetOf.type, TargetOf.id]))
    exact ⟨_, map_eq_ok.2 ⟨_, proposition_eq_ok.2 ⟨a, ha, rfl⟩, rfl⟩⟩
  | statement s =>
    have hmem : s.id (·.id) ∈ ix.statementIds := Index.mem_statementIds.2
      ⟨x, hx, List.mem_append_left _ (by simp [ht, TargetOf.type, TargetOf.id])⟩
    obtain ⟨a, ha⟩ := hf.statements _ hmem
    exact ⟨_, map_eq_ok.2 ⟨_, statement_eq_ok.2 ⟨a, ha, rfl⟩, rfl⟩⟩
  | justification t => exact ⟨_, rfl⟩

theorem exists_rootTarget : ∃ r, l.rootTarget x.rootTarget = .ok r := by
  cases hr : x.rootTarget with
  | proposition p =>
    obtain ⟨a, ha⟩ := hps (p.id (·.id))
      (List.mem_append_right _ (by simp [hr, RootTarget.type, RootTarget.id]))
    exact ⟨_, map_eq_ok.2 ⟨_, proposition_eq_ok.2 ⟨a, ha, rfl⟩, rfl⟩⟩
  | statement s =>
    have hmem : s.id (·.id) ∈ ix.statementIds := Index.mem_statementIds.2
      ⟨x, hx, List.mem_append_right _ (by simp [hr, RootTarget.type, RootTarget.id])⟩
    obtain ⟨a, ha⟩ := hf.statements _ hmem
    exact ⟨_, map_eq_ok.2 ⟨_, statement_eq_ok.2 ⟨a, ha, rfl⟩, rfl⟩⟩

/-- **A node whose propositions were read can be filled in.** -/
theorem exists_hydrate : ∃ y, l.hydrate x = .ok y := by
  obtain ⟨t, ht⟩ := hf.exists_target hx hps
  obtain ⟨r, hr⟩ := hf.exists_rootTarget hx hps
  obtain ⟨b, hb⟩ := hf.exists_basis hx
  obtain ⟨u, hu⟩ := hf.exists_creator hx
  exact ⟨_, hydrate_eq_ok.2 ⟨t, ht, r, hr, b, hb, u, hu, rfl⟩⟩

end Lookups.Finds

/-! ## Roots -/

/-- The justifications have one root. -/
def JustificationRow.SameRoot (j t : JustificationRow) : Prop :=
  j.rootTargetType = t.rootTargetType ∧ j.rootTargetId = t.rootTargetId

theorem JustificationRow.SameRoot.symm (h : j.SameRoot t) : t.SameRoot j :=
  ⟨h.1.symm, h.2.symm⟩

theorem JustificationRow.SameRoot.trans {u : JustificationRow} (h : j.SameRoot t)
    (h' : t.SameRoot u) : j.SameRoot u :=
  ⟨h.1.trans h'.1, h.2.trans h'.2⟩

instance (j t : JustificationRow) : Decidable (j.SameRoot t) :=
  inferInstanceAs (Decidable (_ ∧ _))

/-- The root was read, if it is a proposition. -/
def Lookups.HasRoot (l : Lookups) (j : JustificationRow) : Prop :=
  j.rootTargetType = Coded.text RootTargetType.proposition →
    ∃ p, l.propositions j.rootTargetId = some p

theorem Lookups.HasRoot.congr (h : l.HasRoot t) (hroot : j.SameRoot t) : l.HasRoot j := by
  intro htype
  rw [hroot.2]
  exact h (hroot.1.symm.trans htype)

/-- The propositions that are the target or the root. -/
def JustificationRow.propositionIds (j : JustificationRow) : List Id :=
  j.targetPropositionId?.toList ++ j.rootPropositionId?.toList

theorem JustificationRow.targetPropositionId?_eq_some : j.targetPropositionId? = some i ↔
    j.targetType = Coded.text TargetType.proposition ∧ j.targetId = i := by
  unfold targetPropositionId?
  split <;> simp_all

theorem JustificationRow.rootPropositionId?_eq_some : j.rootPropositionId? = some i ↔
    j.rootTargetType = Coded.text RootTargetType.proposition ∧ j.rootTargetId = i := by
  unfold rootPropositionId?
  split <;> simp_all

/-- A target that is a proposition is the root. -/
theorem Store.WellFormed.rootPropositionId?_of_target (hw : db.WellFormed)
    (hj : j ∈ db.justifications.live) (h : j.targetPropositionId? = some i) :
    j.rootPropositionId? = some i := by
  obtain ⟨htype, rfl⟩ := JustificationRow.targetPropositionId?_eq_some.1 h
  obtain ⟨hroot, hid⟩ := hw.target_root j hj (by rw [htype]; decide)
  exact JustificationRow.rootPropositionId?_eq_some.2 ⟨hroot.symm.trans htype, hid.symm⟩

/-- No other proposition than the root is named. -/
theorem Store.WellFormed.mem_propositionIds (hw : db.WellFormed)
    (hj : j ∈ db.justifications.live) :
    i ∈ j.propositionIds ↔ j.rootPropositionId? = some i := by
  rw [JustificationRow.propositionIds, List.mem_append, Option.mem_toList, Option.mem_toList]
  exact or_iff_right_of_imp (hw.rootPropositionId?_of_target hj)

theorem propositionIds_of_outline (hjx : db.outline j = .ok x) :
    x.propositionIds = j.propositionIds := by
  obtain ⟨htype, hid⟩ := target_of_outline hjx
  obtain ⟨hroot, hrootId⟩ := rootTarget_of_outline hjx
  have htarget : x.target.type = .proposition ↔
      j.targetType = Coded.text TargetType.proposition := by
    rw [← htype]
    exact ⟨congrArg Coded.text, Coded.text_injective⟩
  have hrootTarget : x.rootTarget.type = .proposition ↔
      j.rootTargetType = Coded.text RootTargetType.proposition := by
    rw [← hroot]
    exact ⟨congrArg Coded.text, Coded.text_injective⟩
  simp only [Justification.propositionIds, JustificationRow.propositionIds,
    JustificationRow.targetPropositionId?, JustificationRow.rootPropositionId?, htarget,
    hrootTarget, hid, hrootId]
  congr 1 <;> split <;> rfl

theorem Lookups.HasRoot.propositions (h : l.HasRoot j) (hw : db.WellFormed)
    (hj : j ∈ db.justifications.live) {db' : Store} (hjx : db'.outline j = .ok x) :
    ∀ i ∈ x.propositionIds, ∃ p, l.propositions i = some p := by
  intro i hi
  rw [propositionIds_of_outline hjx] at hi
  obtain ⟨htype, rfl⟩ := JustificationRow.rootPropositionId?_eq_some.1
    ((hw.mem_propositionIds hj).1 hi)
  exact h htype

/-- The justification has the root of one for which propositions are read: of one
    that is found for its root, or of one that is found for its target and is
    about a proposition. -/
def Covered (db : Store) (ch : Chance) (q : PageQuery) (j : JustificationRow) : Prop :=
  (∃ c ∈ db.candidates (q.use ch .rootPropositions), j.SameRoot c) ∨
    ∃ c ∈ db.candidates (q.use ch .targetPropositions),
      c.targetPropositionId?.isSome ∧ j.SameRoot c

instance (db : Store) (ch : Chance) (q : PageQuery) (j : JustificationRow) :
    Decidable (Covered db ch q j) :=
  inferInstanceAs (Decidable ((∃ c ∈ _, _) ∨ ∃ c ∈ _, _))

/-- The page is covered, where it is found again. -/
theorem covered_of_findsPage (hfinds : db.FindsPage ch q .rootPropositions)
    (hj : j ∈ db.candidates (q.use ch .page)) : Covered db ch q j :=
  .inl ⟨j, hfinds j hj, rfl, rfl⟩

section

variable (hw : db.WellFormed)
  (hps : (db.propositionRows (q.use ch .targetPropositions)
    (q.use ch .rootPropositions)).mapM PropositionRow.decode = .ok ps)

include hw

/-- The propositions that are read are roots of what is covered. -/
theorem covered_iff_mem (htype : j.rootTargetType = Coded.text RootTargetType.proposition) :
    Covered db ch q j ↔ j.rootTargetId ∈
      (db.candidates (q.use ch .targetPropositions)).filterMap (·.targetPropositionId?) ++
        (db.candidates (q.use ch .rootPropositions)).filterMap (·.rootPropositionId?) := by
  have hroot : ∀ c, j.SameRoot c ↔ c.rootPropositionId? = some j.rootTargetId := fun c => by
    rw [JustificationRow.rootPropositionId?_eq_some]
    exact ⟨fun h => ⟨h.1.symm.trans htype, h.2.symm⟩, fun h => ⟨htype.trans h.1.symm, h.2.symm⟩⟩
  rw [Covered, List.mem_append, List.mem_filterMap, List.mem_filterMap, or_comm]
  refine or_congr ?_ (exists_congr fun c => and_congr_right fun _ => hroot c)
  refine exists_congr fun c => and_congr_right fun hc => ?_
  have hlive := live_of_mem_candidates hc
  constructor
  · rintro ⟨hsome, hjc⟩
    obtain ⟨i, hi⟩ := Option.isSome_iff_exists.1 hsome
    have hci := hw.rootPropositionId?_of_target hlive hi
    rw [(hroot c).1 hjc] at hci
    rw [hi, hci]
  · intro hi
    exact ⟨by rw [hi]; rfl, (hroot c).2 (hw.rootPropositionId?_of_target hlive hi)⟩

include hps

/-- **The propositions of a page are those of all that is covered.** -/
theorem covered_iff (hj : j ∈ db.justifications.live)
    (htype : j.rootTargetType = Coded.text RootTargetType.proposition) :
    Covered db ch q j ↔ ∃ p, ps.find? (·.id = j.rootTargetId) = some p := by
  rw [covered_iff_mem hw htype, ← Option.isSome_iff_exists, List.find?_isSome]
  constructor
  · intro hmem
    cases hw.root j hj with
    | statement hst =>
      rw [htype] at hst
      exact nomatch Coded.text_injective hst
    | @proposition p _ hp hpid =>
      have hmem : p ∈ db.propositionRows (q.use ch .targetPropositions)
          (q.use ch .rootPropositions) :=
        List.mem_filterMap.2 ⟨p.id, mem_ascending.2 (hpid ▸ hmem),
          hw.keyed.propositions.row?_id hp⟩
      obtain ⟨x, hx, hpx⟩ := exists_mem_of_mapM hps hmem
      exact ⟨x, hx, by rw [PropositionRow.id_of_decode hpx, hpid]; simp⟩
  · rintro ⟨x, hx, hid⟩
    obtain ⟨p, hp, hpx⟩ := exists_of_mem_mapM hps hx
    obtain ⟨i, hi, hp⟩ := List.mem_filterMap.1 hp
    have hpi : p.id = i := Table.id_of_row? hp
    rwa [← of_decide_eq_true hid, PropositionRow.id_of_decode hpx, hpi, ← mem_ascending]

theorem hasRoot_iff (hf : l.Finds ix ps) (hj : j ∈ db.justifications.live) :
    l.HasRoot j ↔
      (j.rootTargetType = Coded.text RootTargetType.proposition → Covered db ch q j) := by
  refine forall_congr' fun htype => ?_
  rw [hf.propositions, covered_iff hw hps hj htype]

end

end Rationale
