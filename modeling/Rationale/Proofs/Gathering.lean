/-
  Rationale — what rows tell, part by part.

  A row tells of up to six things, and each of them is gathered on its own: no
  part of `Gathered` has a say in what is kept in another.  So adding rows is
  six gatherings side by side, each over what the rows tell of its own part.

  * `add_eq`, `foldlM_add`: the same for one row, and for all of them;
  * `finish_eq_ok`: it does not matter to what comes out in which order compounds
    are hashed;
  * `reconstruct_eq_ok`: what it takes that rows are reconstructed;
  * `exists_of_mem_reconstruct`: what comes out is a decoded row, on a basis that
    rows told of.
-/
import Rationale.Proofs.Decoding
import Rationale.Proofs.Firsts
import Rationale.Proofs.Keys
import Rationale.Reconstruction

namespace Rationale

open Gather Time

/-! ## What one row tells -/

namespace JoinedRow

/-- The atom of the proposition compound, with the id of that. -/
def compoundAtom? (r : JoinedRow) : Option (Id × Int64 × PropositionRow) :=
  r.compound.bind fun c => r.compoundAtom.map (c.id, ·)

/-- The atom of the mixed compound, with the id of that. -/
def mixedAtom? (r : JoinedRow) : Option (Id × JoinedAtom) :=
  r.mixed.bind fun c => r.mixedAtom.map (c.id, ·)

end JoinedRow

/-! ## Keeping one thing -/

namespace Gathered

def keepJustification : List Justification → JustificationRow → Except Fault (List Justification) :=
  gather (·.id) (·.id) fun r => some <$> r.decode

/-- Compounds of either kind. -/
def keepCompound : List CompoundRow → CompoundRow → Except Fault (List CompoundRow) :=
  gather (·.id) (·.id) fun c => some <$> Except.ok c

def decodeCompoundAtom (a : Id × Int64 × PropositionRow) : Except Fault (Id × CompoundAtom) :=
  (fun p => (a.1, ⟨p, a.2.1⟩)) <$> a.2.2.decode

def keepCompoundAtom : List (Id × CompoundAtom) → Id × Int64 × PropositionRow →
    Except Fault (List (Id × CompoundAtom)) :=
  gather (fun a => (a.1, a.2.2.id)) (fun b => (b.1, b.2.proposition.id)) fun a =>
    some <$> decodeCompoundAtom a

def keepQuote : List WritQuote → JoinedQuote → Except Fault (List WritQuote) :=
  gather (·.quote.id) (·.id) fun q => some <$> q.decode

/-- Nothing, if the entity of the atom is not live. -/
def decodeMixedAtom (a : Id × JoinedAtom) : Except Fault (Option GatheredAtom) := do
  let type ← Coded.decode a.2.entityType
  (Option.map fun atom => ⟨a.1, type, a.2.entityId, atom⟩) <$> a.2.decode type

/-- The compound of an atom, and the entity that it stands for. -/
def atomKey (a : Id × JoinedAtom) : Id × String × Id :=
  (a.1, a.2.entityType, a.2.entityId)

def keepMixedAtom : List GatheredAtom → Id × JoinedAtom → Except Fault (List GatheredAtom) :=
  gather atomKey (fun m => (m.compoundId, Coded.text m.type, m.entityId)) decodeMixedAtom

/-! ## Each step keeps one thing -/

variable (g : Gathered)

theorem addJustification_eq (r : JustificationRow) :
    g.addJustification r =
      (fun js => { g with justifications := js }) <$> keepJustification g.justifications r := by
  unfold addJustification keepJustification gather
  split
  · rfl
  · dsimp only
    cases r.decode <;> rfl

theorem addCompound_eq (c : CompoundRow) :
    Except.ok (g.addCompound c) =
      (fun cs => { g with compounds := cs }) <$> keepCompound g.compounds c := by
  unfold addCompound keepCompound gather
  split <;> rfl

theorem addCompoundAtom_eq (c position : Int64) (p : PropositionRow) :
    g.addCompoundAtom c position p =
      (fun as => { g with compoundAtoms := as }) <$>
        keepCompoundAtom g.compoundAtoms (c, position, p) := by
  have hkey : (g.compoundAtoms.any fun b => b.1 = c && b.2.proposition.id = p.id) =
      g.compoundAtoms.any fun b => (b.1, b.2.proposition.id) = (c, p.id) := by
    simp only [Prod.mk.injEq, Bool.decide_and]
  unfold addCompoundAtom keepCompoundAtom gather decodeCompoundAtom
  rw [← hkey]
  split
  · rfl
  · dsimp only
    cases p.decode <;> rfl

theorem addQuote_eq (q : JoinedQuote) :
    g.addQuote q = (fun qs => { g with quotes := qs }) <$> keepQuote g.quotes q := by
  unfold addQuote keepQuote gather
  split
  · rfl
  · dsimp only
    cases q.decode <;> rfl

theorem addMixed_eq (c : CompoundRow) :
    Except.ok (g.addMixed c) = (fun cs => { g with mixed := cs }) <$> keepCompound g.mixed c := by
  unfold addMixed keepCompound gather
  split <;> rfl

theorem addMixedAtom_eq (c : Id) (a : JoinedAtom) :
    g.addMixedAtom c a =
      (fun as => { g with mixedAtoms := as }) <$> keepMixedAtom g.mixedAtoms (c, a) := by
  unfold addMixedAtom keepMixedAtom gather decodeMixedAtom atomKey
  cases hd : (Coded.decode a.entityType : Except Fault AtomType) with
  | error e =>
    -- a text that names no type is not the text of a type that was kept
    rw [if_neg]
    · rfl
    · intro hany
      obtain ⟨m, -, hm⟩ := List.any_eq_true.1 hany
      simp only [Prod.mk.injEq, decide_eq_true_eq] at hm
      rw [← hm.2.1, Coded.decode_text] at hd
      cases hd
  | ok type =>
    have hkey : (g.mixedAtoms.any fun m =>
          m.compoundId = c && m.type = type && m.entityId = a.entityId) =
        g.mixedAtoms.any fun m =>
          (m.compoundId, Coded.text m.type, m.entityId) = (c, a.entityType, a.entityId) := by
      rw [exact_atomType.decode_eq_ok] at hd
      have htype : ∀ t : AtomType, t = type ↔ Coded.text t = a.entityType := by
        intro t
        rw [hd]
        exact ⟨congrArg _, Coded.text_injective⟩
      simp only [Prod.mk.injEq, Bool.decide_and, htype, Bool.and_assoc]
    rw [ok_bind, hkey]
    split
    · rfl
    · rw [ok_bind]
      cases a.decode type with
      | error e => rfl
      | ok o =>
        cases o with
        | none =>
          show Except.ok g = Except.ok { g with mixedAtoms := g.mixedAtoms ++ [] }
          rw [List.append_nil]
        | some atom => rfl

/-! ## Each row tells of six things -/

/-- `g'` is `g` with what some rows tell, given part by part. -/
structure Told (justifications : List JustificationRow) (compounds : List CompoundRow)
    (compoundAtoms : List (Id × Int64 × PropositionRow)) (quotes : List JoinedQuote)
    (mixed : List CompoundRow) (mixedAtoms : List (Id × JoinedAtom)) (g g' : Gathered) :
    Prop where
  justifications : justifications.foldlM keepJustification g.justifications = .ok g'.justifications
  compounds : compounds.foldlM keepCompound g.compounds = .ok g'.compounds
  compoundAtoms : compoundAtoms.foldlM keepCompoundAtom g.compoundAtoms = .ok g'.compoundAtoms
  quotes : quotes.foldlM keepQuote g.quotes = .ok g'.quotes
  mixed : mixed.foldlM keepCompound g.mixed = .ok g'.mixed
  mixedAtoms : mixedAtoms.foldlM keepMixedAtom g.mixedAtoms = .ok g'.mixedAtoms

/-- What is told by rows. -/
def ToldBy (rows : List JoinedRow) : Gathered → Gathered → Prop :=
  Told (rows.map (·.justification)) (rows.flatMap (·.compound.toList))
    (rows.flatMap (·.compoundAtom?.toList)) (rows.flatMap (·.quote.toList))
    (rows.flatMap (·.mixed.toList)) (rows.flatMap (·.mixedAtom?.toList))

/-- Nothing or one thing to add. -/
theorem foldlM_some {σ α : Type} (f : σ → α → Except Fault σ) (s : σ) (a : α) :
    (some a).toList.foldlM f s = f s a := by
  rw [Option.toList_some, List.foldlM_cons]
  cases f s a <;> rfl

theorem addCompoundOf_eq (r : JoinedRow) :
    g.addCompoundOf r = do
      let cs ← r.compound.toList.foldlM keepCompound g.compounds
      let as ← r.compoundAtom?.toList.foldlM keepCompoundAtom g.compoundAtoms
      return { g with compounds := cs, compoundAtoms := as } := by
  unfold addCompoundOf JoinedRow.compoundAtom?
  cases r.compound with
  | none => rfl
  | some c =>
    obtain ⟨cs, hcs, hg⟩ := map_eq_ok.1 (g.addCompound_eq c).symm
    rw [foldlM_some, hcs, ok_bind]
    cases r.compoundAtom with
    | none =>
      show pure (g.addCompound c) = _
      rw [← hg]
      rfl
    | some a =>
      rw [Option.bind_some, Option.map_some, foldlM_some]
      dsimp only
      rw [addCompoundAtom_eq, ← hg]
      dsimp only
      cases keepCompoundAtom g.compoundAtoms (c.id, a) <;> rfl

theorem addMixedOf_eq (r : JoinedRow) :
    g.addMixedOf r = do
      let cs ← r.mixed.toList.foldlM keepCompound g.mixed
      let as ← r.mixedAtom?.toList.foldlM keepMixedAtom g.mixedAtoms
      return { g with mixed := cs, mixedAtoms := as } := by
  unfold addMixedOf JoinedRow.mixedAtom?
  cases r.mixed with
  | none => rfl
  | some c =>
    obtain ⟨cs, hcs, hg⟩ := map_eq_ok.1 (g.addMixed_eq c).symm
    rw [foldlM_some, hcs, ok_bind]
    cases r.mixedAtom with
    | none =>
      show pure (g.addMixed c) = _
      rw [← hg]
      rfl
    | some a =>
      rw [Option.bind_some, Option.map_some, foldlM_some]
      dsimp only
      rw [addMixedAtom_eq, ← hg]
      dsimp only
      cases keepMixedAtom g.mixedAtoms (c.id, a) <;> rfl

theorem add_eq (r : JoinedRow) :
    g.add r = do
      let js ← keepJustification g.justifications r.justification
      let cs ← r.compound.toList.foldlM keepCompound g.compounds
      let as ← r.compoundAtom?.toList.foldlM keepCompoundAtom g.compoundAtoms
      let qs ← r.quote.toList.foldlM keepQuote g.quotes
      let ms ← r.mixed.toList.foldlM keepCompound g.mixed
      let mas ← r.mixedAtom?.toList.foldlM keepMixedAtom g.mixedAtoms
      return ⟨js, cs, as, qs, ms, mas⟩ := by
  unfold add
  cases r.quote with
  | none =>
    simp only [addJustification_eq, addCompoundOf_eq, addMixedOf_eq, map_eq_pure_bind, bind_assoc,
      pure_bind, Option.toList_none, List.foldlM_nil]
  | some q =>
    simp only [addJustification_eq, addCompoundOf_eq, addMixedOf_eq, addQuote_eq, foldlM_some,
      map_eq_pure_bind, bind_assoc, pure_bind]

theorem toldBy_cons {r : JoinedRow} {rows : List JoinedRow} {g g' : Gathered} :
    ToldBy (r :: rows) g g' ↔ ∃ g₁, g.add r = .ok g₁ ∧ ToldBy rows g₁ g' := by
  simp only [ToldBy, List.map_cons, List.flatMap_cons, add_eq, bind_eq_ok, pure_eq_ok]
  constructor
  · rintro ⟨hj, hc, hca, hq, hm, hma⟩
    simp only [List.foldlM_cons, List.foldlM_append, bind_eq_ok] at hj hc hca hq hm hma
    obtain ⟨js, hj, hj'⟩ := hj
    obtain ⟨cs, hc, hc'⟩ := hc
    obtain ⟨as, hca, hca'⟩ := hca
    obtain ⟨qs, hq, hq'⟩ := hq
    obtain ⟨ms, hm, hm'⟩ := hm
    obtain ⟨mas, hma, hma'⟩ := hma
    exact ⟨⟨js, cs, as, qs, ms, mas⟩, ⟨js, hj, cs, hc, as, hca, qs, hq, ms, hm, mas, hma, rfl⟩,
      hj', hc', hca', hq', hm', hma'⟩
  · rintro ⟨g₁, ⟨js, hj, cs, hc, as, hca, qs, hq, ms, hm, mas, hma, rfl⟩,
      hj', hc', hca', hq', hm', hma'⟩
    constructor
    all_goals simp only [List.foldlM_cons, List.foldlM_append, bind_eq_ok]
    · exact ⟨js, hj, hj'⟩
    · exact ⟨cs, hc, hc'⟩
    · exact ⟨as, hca, hca'⟩
    · exact ⟨qs, hq, hq'⟩
    · exact ⟨ms, hm, hm'⟩
    · exact ⟨mas, hma, hma'⟩

/-- **Rows are added part by part.** -/
theorem foldlM_add {rows : List JoinedRow} {g g' : Gathered} :
    rows.foldlM add g = .ok g' ↔ ToldBy rows g g' := by
  induction rows generalizing g with
  | nil =>
    constructor
    · intro h
      cases h
      exact ⟨rfl, rfl, rfl, rfl, rfl, rfl⟩
    · rintro ⟨hj, hc, hca, hq, hm, hma⟩
      cases g
      cases g'
      cases hj
      cases hc
      cases hca
      cases hq
      cases hm
      cases hma
      rfl
  | cons r rows ih =>
    rw [List.foldlM_cons, bind_eq_ok, toldBy_cons]
    exact exists_congr fun g₁ => and_congr_right fun _ => ih

/-! ## Gathering from nothing -/

theorem foldlM_keepJustification (rs : List JustificationRow) :
    rs.foldlM keepJustification [] = (firsts (·.id) rs).mapM JustificationRow.decode :=
  foldlM_gather_some (fun _ _ => JustificationRow.id_of_decode) rs

theorem keepCompound_eq_ok {cs kept : List CompoundRow} :
    cs.foldlM keepCompound [] = .ok kept ↔ kept = firsts (·.id) cs := by
  have hall : ∀ l : List CompoundRow, l.mapM (Except.ok : _ → Except Fault _) = .ok l := by
    intro l
    exact mapM_eq_ok.2 (List.forall₂_same.2 fun _ _ => rfl)
  rw [keepCompound, foldlM_gather_some fun a b h => by rw [Except.ok.inj h], hall]
  exact ⟨fun h => (Except.ok.inj h).symm, fun h => by rw [h]⟩

theorem id_of_decodeCompoundAtom {a : Id × Int64 × PropositionRow} {b : Id × CompoundAtom}
    (h : decodeCompoundAtom a = .ok b) : (b.1, b.2.proposition.id) = (a.1, a.2.2.id) := by
  obtain ⟨p, hp, rfl⟩ := map_eq_ok.1 h
  rw [PropositionRow.id_of_decode hp]

theorem foldlM_keepCompoundAtom (l : List (Id × Int64 × PropositionRow)) :
    l.foldlM keepCompoundAtom [] =
      (firsts (fun a => (a.1, a.2.2.id)) l).mapM decodeCompoundAtom :=
  foldlM_gather_some (fun _ _ => id_of_decodeCompoundAtom) l

theorem foldlM_keepQuote (qs : List JoinedQuote) :
    qs.foldlM keepQuote [] = (firsts (·.quote.id) qs).mapM JoinedQuote.decode :=
  foldlM_gather_some (fun _ _ => JoinedQuote.id_of_decode) qs

theorem decodeMixedAtom_eq_ok {a : Id × JoinedAtom} {o : Option GatheredAtom} :
    decodeMixedAtom a = .ok o ↔ ∃ type : AtomType, a.2.entityType = Coded.text type ∧
      ∃ atom, a.2.decode type = .ok atom ∧
        o = atom.map fun b => ⟨a.1, type, a.2.entityId, b⟩ := by
  simp only [decodeMixedAtom, bind_eq_ok, map_eq_ok, exact_atomType.decode_eq_ok,
    eq_comm (a := o)]

theorem key_of_decodeMixedAtom {a : Id × JoinedAtom} {m : GatheredAtom}
    (h : decodeMixedAtom a = .ok (some m)) :
    (m.compoundId, Coded.text m.type, m.entityId) = atomKey a := by
  obtain ⟨type, htype, b, -, hb⟩ := decodeMixedAtom_eq_ok.1 h
  obtain ⟨b, rfl, rfl⟩ := Option.map_eq_some_iff.1 hb.symm
  rw [atomKey, htype]

/-- Atoms of one entity have to be missing it alike. -/
theorem foldlM_keepMixedAtom {l : List (Id × JoinedAtom)}
    (hnone : ∀ a ∈ l, ∀ b ∈ l, atomKey a = atomKey b → decodeMixedAtom a = .ok none →
      decodeMixedAtom b = .ok none) :
    l.foldlM keepMixedAtom [] = List.reduceOption <$> (firsts atomKey l).mapM decodeMixedAtom :=
  foldlM_gather (fun _ _ => key_of_decodeMixedAtom) hnone

/-! ## Finishing -/

theorem id_of_compound {g : Gathered} {c : CompoundRow} {x : PropositionCompound}
    (hx : g.compound c = .ok x) : x.id = c.id := by
  obtain ⟨_, -, hx⟩ := bind_eq_ok.1 hx
  cases hx
  rfl

theorem id_of_mixedCompound {g : Gathered} {c : CompoundRow} {x : BasisCompound}
    (hx : g.mixedCompound c = .ok x) : x.id = c.id := by
  obtain ⟨_, -, hx⟩ := bind_eq_ok.1 hx
  cases hx
  rfl

/-- The bases that are at hand. -/
def bases (g : Gathered) (compounds : List PropositionCompound) (mixed : List BasisCompound) :
    BasisLookups where
  propositionCompounds i := compounds.find? (·.id = i)
  writQuotes i := g.quotes.find? (·.id = i)
  basisCompounds i := mixed.find? (·.id = i)

/-- Rows tell of each compound once. -/
structure Once (g : Gathered) : Prop where
  compounds : (g.compounds.map (·.id)).Nodup
  mixed : (g.mixed.map (·.id)).Nodup

theorem once_of_toldBy {rows : List JoinedRow} {g : Gathered} (hg : ToldBy rows {} g) : g.Once where
  compounds := keepCompound_eq_ok.1 hg.compounds ▸ nodup_firsts _
  mixed := keepCompound_eq_ok.1 hg.mixed ▸ nodup_firsts _

theorem hashed_perm (ρ : Rank) (cs : List CompoundRow) : (hashed ρ cs).Perm cs :=
  List.mergeSort_perm _ _

/-- Bases are found by their ids, in whatever order they are. -/
theorem bases_congr {g : Gathered} (ho : g.Once) {cs cs' : List PropositionCompound}
    {ms ms' : List BasisCompound} (hcs : g.compounds.mapM g.compound = .ok cs)
    (hms : g.mixed.mapM g.mixedCompound = .ok ms) (hc : cs.Perm cs') (hm : ms.Perm ms') :
    g.bases cs ms = g.bases cs' ms' := by
  have hcids : cs.map (·.id) = g.compounds.map (·.id) :=
    map_eq_of_mapM (fun _ _ _ => id_of_compound) hcs
  have hmids : ms.map (·.id) = g.mixed.map (·.id) :=
    map_eq_of_mapM (fun _ _ _ => id_of_mixedCompound) hms
  simp only [bases, Table.find?_eq_of_perm hc (hcids ▸ ho.compounds),
    Table.find?_eq_of_perm hm (hmids ▸ ho.mixed)]

/-- **The order in which compounds are hashed makes no difference** to what comes out. -/
theorem finish_eq_ok {η : Hashing} {g : Gathered} (ho : g.Once) {xs : List Justification} :
    g.finish η = .ok xs ↔ ∃ compounds, g.compounds.mapM g.compound = .ok compounds ∧
      ∃ mixed, g.mixed.mapM g.mixedCompound = .ok mixed ∧
        xs = g.justifications.map fun j =>
          { j with basis := .resolve (g.bases compounds mixed) j.basis.type j.basis.id } := by
  have hfinish : g.finish η = .ok xs ↔ ∃ cs, (hashed η.compounds g.compounds).mapM g.compound = .ok cs ∧
      ∃ ms, (hashed η.mixed g.mixed).mapM g.mixedCompound = .ok ms ∧
        xs = g.justifications.map fun j =>
          { j with basis := .resolve (g.bases cs ms) j.basis.type j.basis.id } := by
    simp only [finish, bind_eq_ok, pure_eq_ok, eq_comm (b := xs)]
    rfl
  rw [hfinish]
  constructor
  · rintro ⟨cs, hcs, ms, hms, rfl⟩
    obtain ⟨cs', hcs', hc⟩ := exists_mapM_perm (hashed_perm _ _) hcs
    obtain ⟨ms', hms', hm⟩ := exists_mapM_perm (hashed_perm _ _) hms
    exact ⟨cs', hcs', ms', hms', by rw [bases_congr ho hcs' hms' hc.symm hm.symm]⟩
  · rintro ⟨cs, hcs, ms, hms, rfl⟩
    obtain ⟨cs', hcs', hc⟩ := exists_mapM_perm (hashed_perm η.compounds _).symm hcs
    obtain ⟨ms', hms', hm⟩ := exists_mapM_perm (hashed_perm η.mixed _).symm hms
    exact ⟨cs', hcs', ms', hms', by rw [bases_congr ho hcs hms hc hm]⟩

end Gathered

open Gathered

variable {η : Hashing} {rows : List JoinedRow} {xs : List Justification} {x : Justification}

theorem reconstruct_eq_ok :
    reconstruct η rows = .ok xs ↔ ∃ g, ToldBy rows {} g ∧ g.finish η = .ok xs := by
  simp only [reconstruct, bind_eq_ok, foldlM_add]

/-- **What is reconstructed is a row**, decoded, and with its basis filled in as
    far as that is not a media excerpt. -/
theorem exists_of_mem_reconstruct (h : reconstruct η rows = .ok xs) (hx : x ∈ xs) :
    ∃ r ∈ rows, ∃ y, r.justification.decode = .ok y ∧
      ∃ l : BasisLookups, (∀ i, l.mediaExcerpts i = none) ∧
        x = { y with basis := .resolve l y.basis.type y.basis.id } := by
  obtain ⟨g, hg, hfinish⟩ := reconstruct_eq_ok.1 h
  obtain ⟨compounds, -, mixed, -, rfl⟩ := (finish_eq_ok (once_of_toldBy hg)).1 hfinish
  obtain ⟨y, hy, rfl⟩ := List.mem_map.1 hx
  obtain ⟨j, hj, hjy⟩ := exists_of_mem_mapM (foldlM_keepJustification _ ▸ hg.justifications) hy
  obtain ⟨r, hr, rfl⟩ := List.mem_map.1 (mem_of_mem_firsts hj)
  exact ⟨r, hr, y, hjy, g.bases compounds mixed, fun _ => rfl, rfl⟩

end Rationale
