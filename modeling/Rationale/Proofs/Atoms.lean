/-
  Rationale — the atoms of a compound.

  Atoms come as rows of a join, in no order and mixed with those of other
  compounds, and are gathered by their keys.  What is listed in the end are the
  atoms of the compound and no others: each proposition that is live once, and
  of a mixed compound each entity that is live once, in the order of positions.

  * `Store.ListsPropositions`, `Store.ListsAtoms`: what a list of atoms has to
    be for a compound of either kind;
  * `compounds_of_read`: so they are in all that a page includes, at any depth.
-/
import Mathlib.Data.List.Sort
import Rationale.Proofs.References

namespace Rationale

open Query Lookups Store Time

/-! ## Lists of atoms -/

/-- Positions with ids: the lower position comes first, and of two at one
    position the lower id. -/
def PlacedBefore (a b : Int64 × Id) : Prop :=
  a.1 < b.1 ∨ a.1 = b.1 ∧ a.2 < b.2

instance (a b : Int64 × Id) : Decidable (PlacedBefore a b) :=
  inferInstanceAs (Decidable (_ ∨ _))

theorem PlacedBefore.asymm {a b : Int64 × Id} (h : PlacedBefore a b) : ¬ PlacedBefore b a := by
  rintro (hba | ⟨hba, hid'⟩) <;> rcases h with hab | ⟨hab, hid⟩
  · exact Int64.lt_irrefl (Int64.lt_trans hab hba)
  · exact Int64.lt_irrefl (hab ▸ hba)
  · exact Int64.lt_irrefl (hba ▸ hab)
  · exact Int64.lt_irrefl (Int64.lt_trans hid hid')

instance : Std.Asymm PlacedBefore :=
  ⟨fun _ _ => PlacedBefore.asymm⟩

namespace BasisAtomEntity

def type : BasisAtomEntity → AtomType
  | proposition _ => .proposition
  | sourceExcerptParaphrase _ => .sourceExcerptParaphrase

def id : BasisAtomEntity → Id
  | proposition p => p.id (·.id)
  | sourceExcerptParaphrase p => p.id (·.id)

end BasisAtomEntity

namespace Store

variable (db : Store)

/-- The entity of the atom is live. -/
inductive HasEntity (row : BasisAtomRow) : Prop
  | proposition {p} : row.entityType = Coded.text AtomType.proposition →
      p ∈ db.propositions.live → p.id = row.entityId → HasEntity row
  | paraphrase {s} : row.entityType = Coded.text AtomType.sourceExcerptParaphrase →
      s ∈ db.paraphrases.live → s.id = row.entityId → HasEntity row

/-- The live propositions of the compound, each once and in order. -/
structure ListsPropositions (c : PropositionCompound) : Prop where
  sound : ∀ a ∈ c.atoms, ∃ row ∈ db.compoundAtoms,
    row.compoundId = c.id ∧ row.orderPosition = a.orderPosition ∧
      ∃ p ∈ db.propositions.live, p.id = row.propositionId ∧ p.Says a.proposition
  complete : ∀ row ∈ db.compoundAtoms, row.compoundId = c.id →
    ∀ p ∈ db.propositions.live, p.id = row.propositionId →
      ∃ a ∈ c.atoms, a.proposition.id = p.id ∧ a.orderPosition = row.orderPosition
  once : (c.atoms.map (·.proposition.id)).Nodup
  ordered : (c.atoms.map fun a => (a.orderPosition, a.proposition.id)).Pairwise PlacedBefore

/-- The live entities of the mixed compound, each once and in order.  Each atom
    is that of a row, with the excerpt of its own paraphrase. -/
structure ListsAtoms (c : BasisCompound) : Prop where
  sound : ∀ a ∈ c.atoms, ∃ row ∈ db.basisAtoms,
    row.compoundId = c.id ∧ row.id = a.id ∧ row.orderPosition = a.orderPosition ∧
      db.NamesAtom row a.entity
  complete : ∀ row ∈ db.basisAtoms, row.compoundId = c.id → db.HasEntity row →
    ∃ a ∈ c.atoms, Coded.text a.entity.type = row.entityType ∧ a.entity.id = row.entityId
  once : (c.atoms.map fun a => (a.entity.type, a.entity.id)).Nodup
  ordered : (c.atoms.map fun a => (a.orderPosition, a.id)).Pairwise PlacedBefore

variable {db}

/-- Atoms with distinct ids, as they are sorted. -/
theorem pairwise_placed {α : Type} {position : α → Int64} {id : α → Id} {as : List α}
    (h : (as.map id).Nodup) :
    ((as.mergeSort fun a b =>
      position a < position b || (position a = position b && id a ≤ id b)).map
        fun a => (position a, id a)).Pairwise PlacedBefore := by
  rw [List.pairwise_map]
  refine Sorting.pairwise_mergeSort_of_nodup (Sorting.linear_placed position id)
    (fun a b hab hne => ?_) h
  simp only [Bool.or_eq_true, Bool.and_eq_true, decide_eq_true_eq] at hab
  exact hab.imp_right fun hab => ⟨hab.1, Int64.lt_of_le_of_ne hab.2 hne⟩

/-! ## Propositions -/

variable {includeUrls : Bool} {j : JustificationRow} {x : Justification} {r : CompoundRow}

theorem listsPropositions (hk : db.Keyed) {c : PropositionCompound} (h : db.compoundOf r = .ok c) :
    db.ListsPropositions c := by
  have hnames := namesCompound h
  have hid := hnames.id
  obtain ⟨as, has, h⟩ := bind_eq_ok.1 h
  obtain ⟨t, -, h⟩ := bind_eq_ok.1 h
  have hatoms : c.atoms = as.mergeSort Gathered.atomOrder := by
    cases h
    rfl
  have hids : as.map (·.proposition.id) = (db.compoundPropositions r).map (·.2.id) := by
    refine map_eq_of_mapM (fun a _ b hb => ?_) has
    obtain ⟨p, hp, rfl⟩ := map_eq_ok.1 hb
    exact PropositionRow.id_of_decode hp
  have honce : (as.map (·.proposition.id)).Nodup := hids ▸ nodup_compoundPropositions hk r
  refine ⟨?_, fun row hrow hcompound p hp hpid => ?_, ?_, ?_⟩
  · rw [hid]
    exact hnames.atoms
  · have hmem : (row.orderPosition, p) ∈ db.compoundPropositions r := by
      refine List.mem_filterMap.2 ⟨row, List.mem_filter.2 ⟨hrow, ?_⟩, ?_⟩
      · exact decide_eq_true (hcompound.trans hid)
      · rw [hk.propositions.row?_eq_some.2 ⟨hp, hpid⟩]
        rfl
    obtain ⟨a, ha, hpa⟩ := exists_mem_of_mapM has hmem
    obtain ⟨q, hq, rfl⟩ := map_eq_ok.1 hpa
    refine ⟨⟨q, row.orderPosition⟩, ?_, PropositionRow.id_of_decode hq, rfl⟩
    rwa [hatoms, List.mem_mergeSort]
  · rw [hatoms]
    exact ((List.mergeSort_perm _ _).map _).nodup_iff.2 honce
  · rw [hatoms]
    exact pairwise_placed honce

theorem ListsPropositions.mem_iff {c : PropositionCompound} (h : db.ListsPropositions c)
    {k : Int64 × Id} : k ∈ c.atoms.map (fun a => (a.orderPosition, a.proposition.id)) ↔
      ∃ row ∈ db.compoundAtoms, row.compoundId = c.id ∧
        (∃ p ∈ db.propositions.live, p.id = row.propositionId) ∧
          (row.orderPosition, row.propositionId) = k := by
  rw [List.mem_map]
  constructor
  · rintro ⟨a, ha, rfl⟩
    obtain ⟨row, hrow, hcompound, hposition, p, hp, hid, hsays⟩ := h.sound a ha
    refine ⟨row, hrow, hcompound, ⟨p, hp, hid⟩, ?_⟩
    rw [hposition, ← hid, PropositionRow.id_of_decode hsays]
  · rintro ⟨row, hrow, hcompound, ⟨p, hp, hid⟩, rfl⟩
    obtain ⟨a, ha, haid, hposition⟩ := h.complete row hrow hcompound p hp hid
    exact ⟨a, ha, by rw [hposition, haid, hid]⟩

/-! ## Entities of both kinds -/

/-- An atom stands for the entity that its row has the type and the id of. -/
theorem entity_of_atomOf (hk : db.Keyed) {row : BasisAtomRow} {a : BasisAtom}
    (h : db.atomOf row = .ok (some a)) :
    a.id = row.id ∧ Coded.text a.entity.type = row.entityType ∧ a.entity.id = row.entityId := by
  rcases link_of_atomOf h with ⟨p, hp⟩ | ⟨s, hs⟩
  · rw [atomOf_of_proposition hk hp] at h
    obtain ⟨b, hb, ha⟩ := map_eq_ok.1 h
    cases ha
    obtain ⟨-, htype, hid⟩ := hk.propositions.typed?_eq_some.1 hp
    exact ⟨rfl, htype.symm, (PropositionRow.id_of_decode hb).trans hid⟩
  · rw [atomOf_of_paraphrase hk hs] at h
    obtain ⟨b, hb, ha⟩ := map_eq_ok.1 h
    cases ha
    obtain ⟨-, htype, hid⟩ := hk.paraphrases.typed?_eq_some.1 hs
    exact ⟨rfl, htype.symm, (id_of_paraphrase hb).trans hid⟩

/-- There is an atom of what is live. -/
theorem exists_eq_some_of_atomOf (hk : db.Keyed) {row : BasisAtomRow} {o : Option BasisAtom}
    (hrow : db.HasEntity row) (h : db.atomOf row = .ok o) : ∃ a, o = some a := by
  cases hrow with
  | proposition htype hp hid =>
    rw [atomOf_of_proposition hk (hk.propositions.typed?_eq_some.2 ⟨hp, htype, hid⟩)] at h
    obtain ⟨_, -, rfl⟩ := map_eq_ok.1 h
    exact ⟨_, rfl⟩
  | paraphrase htype hs hid =>
    rw [atomOf_of_paraphrase hk (hk.paraphrases.typed?_eq_some.2 ⟨hs, htype, hid⟩)] at h
    obtain ⟨_, -, rfl⟩ := map_eq_ok.1 h
    exact ⟨_, rfl⟩

theorem HasEntity.congr {row row' : BasisAtomRow} (h : db.HasEntity row)
    (htype : row'.entityType = row.entityType) (hid : row'.entityId = row.entityId) :
    db.HasEntity row' := by
  cases h with
  | proposition ht hp hi => exact .proposition (htype.trans ht) hp (hi.trans hid.symm)
  | paraphrase ht hs hi => exact .paraphrase (htype.trans ht) hs (hi.trans hid.symm)

section

variable (hk : db.Keyed) {c : BasisCompound} (h : db.mixedOf r = .ok c)

include hk h

theorem exists_atom_of_mixedOf {row : BasisAtomRow} (hmem : row ∈ db.mixedAtoms r)
    (hrow : db.HasEntity row) :
    ∃ a ∈ c.atoms, Coded.text a.entity.type = row.entityType ∧ a.entity.id = row.entityId := by
  obtain ⟨os, hos, -⟩ := bind_eq_ok.1 h
  obtain ⟨row', hfirst, hkey⟩ :=
    Gather.exists_mem_firsts (fun a => (a.entityType, a.entityId)) hmem
  obtain ⟨htype, hid⟩ := Prod.mk.inj hkey
  obtain ⟨o, -, ho⟩ := exists_mem_of_mapM hos hfirst
  obtain ⟨a, rfl⟩ := exists_eq_some_of_atomOf hk (hrow.congr htype hid) ho
  obtain ⟨-, hatype, haid⟩ := entity_of_atomOf hk ho
  exact ⟨a, (mem_mixedOf h).2 ⟨row', hfirst, ho⟩, hatype.trans htype, haid.trans hid⟩

/-- The atoms of a mixed compound are sorted, and keep the keys that rows have. -/
theorem atoms_of_mixedOf : ∃ as : List BasisAtom,
    c.atoms = as.mergeSort Gathered.mixedAtomOrder ∧
      (as.map (·.id)).Nodup ∧ (as.map fun a => (a.entity.type, a.entity.id)).Nodup := by
  obtain ⟨os, hos, h⟩ := bind_eq_ok.1 h
  obtain ⟨t, -, h⟩ := bind_eq_ok.1 h
  cases h
  refine ⟨os.reduceOption, rfl, ?_, ?_⟩
  · have hrows : ((db.distinctAtoms r).map (·.id)).Nodup :=
      hk.basisAtoms.sublist (((Gather.firsts_sublist _).trans List.filter_sublist).map _)
    exact hrows.sublist
      (sublist_of_mapM_reduceOption (fun row _ a ha => (entity_of_atomOf hk ha).1) hos)
  · have hkeys : (os.reduceOption.map fun a => (Coded.text a.entity.type, a.entity.id)).Sublist
        ((db.distinctAtoms r).map fun row => (row.entityType, row.entityId)) := by
      refine sublist_of_mapM_reduceOption (fun row _ a ha => ?_) hos
      obtain ⟨-, htype, hid⟩ := entity_of_atomOf hk ha
      rw [htype, hid]
    have htexts := (Gather.nodup_firsts (db.mixedAtoms r)).sublist hkeys
    refine List.Nodup.of_map (fun k : AtomType × Id => (Coded.text k.1, k.2)) ?_
    rwa [List.map_map]

end

/-! ## What is filled in -/

/-- Filling an atom in keeps all that it is listed by. -/
theorem atom_keeps (l : Lookups) (a : BasisAtom) :
    (l.atom a).id = a.id ∧ (l.atom a).orderPosition = a.orderPosition ∧
      (l.atom a).entity.type = a.entity.type ∧ (l.atom a).entity.id = a.entity.id := by
  obtain ⟨i, entity, position⟩ := a
  cases entity with
  | proposition p => exact ⟨rfl, rfl, rfl, rfl⟩
  | sourceExcerptParaphrase s => cases s <;> exact ⟨rfl, rfl, rfl, rfl⟩

theorem listsAtoms (hk : db.Keyed) (l : Lookups) {c : BasisCompound} (h : db.mixedOf r = .ok c)
    (hnames : db.NamesMixed r { c with atoms := c.atoms.map l.atom }) :
    db.ListsAtoms { c with atoms := c.atoms.map l.atom } := by
  have hid : c.id = r.id := hnames.id
  obtain ⟨as, hatoms, hids, hkeys⟩ := atoms_of_mixedOf hk h
  refine ⟨?_, fun row hmem hcompound hrow => ?_, ?_, ?_⟩
  · rw [hid]
    exact hnames.atoms
  · have hmem : row ∈ db.mixedAtoms r :=
      List.mem_filter.2 ⟨hmem, decide_eq_true (hcompound.trans hid)⟩
    obtain ⟨a, ha, htype, haid⟩ := exists_atom_of_mixedOf hk h hmem hrow
    obtain ⟨-, -, htype', haid'⟩ := atom_keeps l a
    exact ⟨l.atom a, List.mem_map_of_mem ha, by rw [htype', htype], by rw [haid', haid]⟩
  · simp only [List.map_map, Function.comp_def, atom_keeps]
    rw [hatoms]
    exact ((List.mergeSort_perm _ _).map _).nodup_iff.2 hkeys
  · simp only [List.map_map, Function.comp_def, atom_keeps]
    rw [hatoms]
    exact pairwise_placed hids

theorem Fills.listsPropositions (hk : db.Keyed) (h : db.Fills includeUrls j x)
    {c : PropositionCompound} (hc : x.basis = .propositionCompound (.entity c)) :
    c.id = j.basisId ∧ db.ListsPropositions c := by
  obtain ⟨y, hjy, hyx⟩ := h.hydrated
  obtain ⟨_, -, _, -, b, hb, _, -, rfl⟩ := hydrate_eq_ok.1 hyx
  obtain ⟨r, hr, hrc⟩ := (compound_of_outline_iff hjy).1 ((basis_eq_compound_iff hb).1 hc)
  refine ⟨?_, Store.listsPropositions hk hrc⟩
  rw [id_of_compoundOf hrc]
  exact Table.id_of_typed? hr

theorem Fills.listsAtoms (hk : db.Keyed) (h : db.Fills includeUrls j x) {c : BasisCompound}
    (hc : x.basis = .justificationBasisCompound (.entity c)) :
    c.id = j.basisId ∧ db.ListsAtoms c := by
  have hnames := h.namesBasis hk
  rw [hc] at hnames
  obtain ⟨y, hjy, hyx⟩ := h.hydrated
  obtain ⟨_, -, _, -, b, hb, _, -, rfl⟩ := hydrate_eq_ok.1 hyx
  obtain ⟨c, hy, rfl⟩ := (basis_eq_mixed_iff hb).1 hc
  obtain ⟨r, hr, hrc⟩ := (mixed_of_outline_iff hjy).1 hy
  cases hnames with
  | mixed _ hstands =>
    obtain ⟨row, hrow, hid, hnames⟩ := hstands.entity _ rfl
    obtain ⟨hlive, -, hid'⟩ := hk.basisCompounds.typed?_eq_some.1 hr
    obtain rfl := hk.basisCompounds.eq_of_id_eq hrow hlive (hid.trans hid'.symm)
    exact ⟨hnames.id.trans hid, Store.listsAtoms hk _ hrc hnames⟩

end Store

/-! ## What is read -/

variable {db : Store} {ch : Chance} {r : Request} {out : List Justification} {x y : Justification}

/-- **Compounds are complete and in order.**  Whatever a page includes on a
    compound, at any depth, has the atoms of that compound and no others: its
    live propositions, each once, or of a mixed compound its live entities. -/
theorem compounds_of_read (hk : db.Keyed) (h : (db.read ch r).result = .ok out) (hx : x ∈ out)
    (hy : x.Includes y) : ∃ j ∈ db.justifications.live, j.id = y.id ∧
      (∀ c, y.basis = .propositionCompound (.entity c) →
        c.id = j.basisId ∧ db.ListsPropositions c) ∧
      ∀ c, y.basis = .justificationBasisCompound (.entity c) →
        c.id = j.basisId ∧ db.ListsAtoms c := by
  obtain ⟨j, hj, hjx⟩ := exists_sketched hk h hx
  obtain ⟨k, hk', hky⟩ := hjx.exists_presents hj hy
  have hid := hky.id
  obtain ⟨z, hz, hyz, -⟩ := hky
  have hbasis : y.basis = z.basis := by rw [hyz]
  rw [hbasis]
  exact ⟨k, hk', hid.symm, fun c => hz.listsPropositions hk, fun c => hz.listsAtoms hk⟩

/-- A compound of two live propositions at one position, and one that is not. -/
theorem compounds_of_read_inquiry : Store.inquiry.Keyed ∧
    ∃ x, (Store.inquiry.read (.level .backwards) (oneRequest 1)).result = .ok [x] ∧ x.Includes x ∧
      ∃ c, x.basis = .propositionCompound (.entity c) ∧
        c.atoms.map (fun a => (a.orderPosition, a.proposition.id)) = [(1, 1), (1, 2)] := by
  have hk := Store.wellFormed_inquiry.keyed
  obtain ⟨x, hx, hid⟩ := exists_single_of_live (i := 1) Store.wellFormed_inquiry
    Store.small_inquiry (.level .backwards) (by decide)
  have hmem : x ∈ [x] := List.mem_singleton.2 rfl
  obtain ⟨c, hc⟩ : ∃ c, x.basis = .propositionCompound (.entity c) := by
    obtain ⟨j, hj, hjx⟩ := exists_sketched hk hx hmem
    obtain ⟨k, hk', hkx⟩ := hjx.exists_presents hj (.self x)
    obtain ⟨htype, hbasisId⟩ := (by decide : ∀ j ∈ Store.inquiry.justifications.live,
      j.id = 1 → j.basisType = "PROPOSITION_COMPOUND" ∧ j.basisId = 1) k hk' (hkx.id.symm.trans hid)
    have hbasis := (hkx.names hk).basis
    generalize x.basis = b at hbasis
    cases hbasis with
    | propositionCompound _ hc =>
      obtain ⟨c, rfl⟩ := hc.exists_entity (by rw [hbasisId]; decide)
      exact ⟨c, rfl⟩
    | writQuote htype' | mediaExcerpt htype' | mixed htype' =>
      exact absurd (htype.symm.trans htype') (by decide)
  obtain ⟨j, hj, hji, hlists, -⟩ := compounds_of_read hk hx hmem (.self x)
  obtain ⟨hcid, hlist⟩ := hlists c hc
  rw [(by decide : ∀ j ∈ Store.inquiry.justifications.live, j.id = 1 → j.basisId = 1) j hj
    (hji.trans hid)] at hcid
  refine ⟨hk, x, hx, .self x, c, hc, hlist.ordered.eq_of_mem_iff (by decide) fun k => ?_⟩
  rw [hlist.mem_iff, hcid]
  constructor
  · rintro ⟨row, hrow, hcompound, hp, rfl⟩
    exact (by decide : ∀ row ∈ Store.inquiry.compoundAtoms, row.compoundId = 1 →
      (∃ p ∈ Store.inquiry.propositions.live, p.id = row.propositionId) →
        (row.orderPosition, row.propositionId) ∈ [((1 : Int64), (1 : Id)), (1, 2)])
          row hrow hcompound hp
  · intro hk
    rcases List.mem_pair.1 hk with rfl | rfl
    · decide
    · decide

end Rationale
