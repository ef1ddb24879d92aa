/-
  Rationale — the order of rows makes no difference to what they tell.

  Rows may come in any order and any number of times.  As long as they do not
  contradict each other it does not matter which of them comes first, and so
  `Gathered` holds the same things, in one order or another.  What hides that order
  is that things are looked up by their ids, and that atoms are sorted: no two atoms
  of a compound are level, as those of a proposition compound differ in their
  propositions, and those of a mixed compound in their own ids.

  * `Coherent`: rows that do not contradict each other;
  * `Same`, `Distinct`: what is gathered from them;
  * `exists_same_of_toldBy`, `exists_perm_of_finish`: rows in another order tell the
    same, and what is made of it is the same;
  * `reconstruct_of_sameRows`: so it depends on the rows alone what is
    reconstructed, and justifications are in the order of their first rows.
-/
import Rationale.Proofs.Gathering
import Rationale.Proofs.KeyOrder
import Rationale.Proofs.Keys

namespace Rationale

open Gather Gathered

/-! ## Rows -/

/-- Rows that do not contradict each other: what they tell of one thing is the
    same, and two atoms of a mixed compound have two ids. -/
structure Coherent (rows : List JoinedRow) : Prop where
  justifications : Agree (·.id) (rows.map (·.justification))
  compounds : Agree (·.id) (rows.flatMap (·.compound.toList))
  compoundAtoms : Agree (fun a => (a.1, a.2.2.id)) (rows.flatMap (·.compoundAtom?.toList))
  quotes : Agree (·.quote.id) (rows.flatMap (·.quote.toList))
  mixed : Agree (·.id) (rows.flatMap (·.mixed.toList))
  mixedAtoms : Agree atomKey (rows.flatMap (·.mixedAtom?.toList))
  atomIds : ∀ a ∈ rows.flatMap (·.mixedAtom?.toList), ∀ b ∈ rows.flatMap (·.mixedAtom?.toList),
    a.1 = b.1 → a.2.id = b.2.id → atomKey a = atomKey b

/-- The same rows, however often and in whatever order. -/
def SameRows (rows rows' : List JoinedRow) : Prop :=
  ∀ r, r ∈ rows ↔ r ∈ rows'

variable {η η' : Hashing} {rows rows' : List JoinedRow} {α : Type} {g g' : Gathered}
  {xs : List Justification}

theorem SameRows.mem_map (h : SameRows rows rows') (part : JoinedRow → α) (a : α) :
    a ∈ rows.map part ↔ a ∈ rows'.map part := by
  simp only [List.mem_map, h _]

theorem SameRows.mem_flatMap (h : SameRows rows rows') (part : JoinedRow → Option α) (a : α) :
    a ∈ rows.flatMap (fun r => (part r).toList) ↔ a ∈ rows'.flatMap fun r => (part r).toList := by
  simp only [List.mem_flatMap, h _]

theorem Coherent.of_sameRows (hc : Coherent rows) (h : SameRows rows rows') : Coherent rows' where
  justifications := hc.justifications.of_mem (h.mem_map _)
  compounds := hc.compounds.of_mem (h.mem_flatMap _)
  compoundAtoms := hc.compoundAtoms.of_mem (h.mem_flatMap _)
  quotes := hc.quotes.of_mem (h.mem_flatMap _)
  mixed := hc.mixed.of_mem (h.mem_flatMap _)
  mixedAtoms := hc.mixedAtoms.of_mem (h.mem_flatMap _)
  atomIds a ha b hb :=
    hc.atomIds a ((h.mem_flatMap _ a).2 ha) b ((h.mem_flatMap _ b).2 hb)

theorem JoinedAtom.id_of_decode {a : JoinedAtom} {type : AtomType} {b : BasisAtom}
    (h : a.decode type = .ok (some b)) : b.id = a.id := by
  cases type with
  | proposition =>
    obtain ⟨-, h⟩ | ⟨p, b, -, hb, h⟩ := option_mapM_eq_ok.1 h
    · cases h
    · cases hb
      obtain ⟨_, -, h⟩ := bind_eq_ok.1 h
      cases h
      rfl
  | sourceExcerptParaphrase =>
    obtain ⟨-, h⟩ | ⟨p, b, -, hb, h⟩ := option_mapM_eq_ok.1 h
    · cases h
    · cases hb
      obtain ⟨_, -, h⟩ := bind_eq_ok.1 h
      cases h
      rfl

namespace Gathered

theorem id_of_decodeMixedAtom {a : Id × JoinedAtom} {m : GatheredAtom}
    (h : decodeMixedAtom a = .ok (some m)) : (m.compoundId, m.atom.id) = (a.1, a.2.id) := by
  obtain ⟨type, -, b, hb, hm⟩ := decodeMixedAtom_eq_ok.1 h
  obtain ⟨b, rfl, rfl⟩ := Option.map_eq_some_iff.1 hm.symm
  rw [JoinedAtom.id_of_decode hb]

/-! ## What is gathered -/

/-- The same things, in one order or another. -/
structure Same (g g' : Gathered) : Prop where
  justifications : g.justifications.Perm g'.justifications
  compounds : g.compounds.Perm g'.compounds
  compoundAtoms : g.compoundAtoms.Perm g'.compoundAtoms
  quotes : g.quotes.Perm g'.quotes
  mixed : g.mixed.Perm g'.mixed
  mixedAtoms : g.mixedAtoms.Perm g'.mixedAtoms

/-- There is nothing twice. -/
structure Distinct (g : Gathered) : Prop where
  justifications : (g.justifications.map (·.id)).Nodup
  compounds : (g.compounds.map (·.id)).Nodup
  compoundAtoms : (g.compoundAtoms.map fun a => (a.1, a.2.proposition.id)).Nodup
  quotes : (g.quotes.map (·.id)).Nodup
  mixed : (g.mixed.map (·.id)).Nodup
  mixedAtoms : (g.mixedAtoms.map fun m => (m.compoundId, m.atom.id)).Nodup

theorem id_of_keepCompound {c d : CompoundRow} (h : (Except.ok c : Except Fault _) = .ok d) :
    d.id = c.id :=
  congrArg CompoundRow.id (Except.ok.inj h).symm

/-- **Rows in another order tell the same.** -/
theorem exists_same_of_toldBy (hc : Coherent rows) (h : SameRows rows rows')
    (hg : ToldBy rows {} g) : ∃ g', ToldBy rows' {} g' ∧ g.Same g' := by
  obtain ⟨js, hjs, hjperm⟩ := exists_gather_perm
    (key_of_some fun _ _ => JustificationRow.id_of_decode) hc.justifications (h.mem_map _)
    hg.justifications
  obtain ⟨cs, hcs, hcperm⟩ := exists_gather_perm (key_of_some fun _ _ => id_of_keepCompound)
    hc.compounds (h.mem_flatMap _) hg.compounds
  obtain ⟨as, has, haperm⟩ := exists_gather_perm (key_of_some fun _ _ => id_of_decodeCompoundAtom)
    hc.compoundAtoms (h.mem_flatMap _) hg.compoundAtoms
  obtain ⟨qs, hqs, hqperm⟩ := exists_gather_perm
    (key_of_some fun _ _ => JoinedQuote.id_of_decode) hc.quotes (h.mem_flatMap _) hg.quotes
  obtain ⟨ms, hms, hmperm⟩ := exists_gather_perm (key_of_some fun _ _ => id_of_keepCompound)
    hc.mixed (h.mem_flatMap _) hg.mixed
  obtain ⟨mas, hmas, hmaperm⟩ := exists_gather_perm (fun _ _ => key_of_decodeMixedAtom)
    hc.mixedAtoms (h.mem_flatMap _) hg.mixedAtoms
  exact ⟨⟨js, cs, as, qs, ms, mas⟩, ⟨hjs, hcs, has, hqs, hms, hmas⟩,
    ⟨hjperm, hcperm, haperm, hqperm, hmperm, hmaperm⟩⟩

theorem distinct_of_toldBy (hc : Coherent rows) (hg : ToldBy rows {} g) : g.Distinct where
  justifications := nodup_gather_key (key_of_some fun _ _ => JustificationRow.id_of_decode)
    hc.justifications hg.justifications
  compounds := nodup_gather_key (key_of_some fun _ _ => id_of_keepCompound) hc.compounds hg.compounds
  compoundAtoms := nodup_gather_key (key_of_some fun _ _ => id_of_decodeCompoundAtom)
    hc.compoundAtoms hg.compoundAtoms
  quotes := nodup_gather_key (key_of_some fun _ _ => JoinedQuote.id_of_decode) hc.quotes hg.quotes
  mixed := nodup_gather_key (key_of_some fun _ _ => id_of_keepCompound) hc.mixed hg.mixed
  mixedAtoms := by
    -- atoms with one id in one compound are one atom
    refine nodup_gather (fun _ _ => key_of_decodeMixedAtom) hc.mixedAtoms
      (fun _ _ => id_of_decodeMixedAtom) (fun a ha b hb hab => ?_) hg.mixedAtoms
    obtain ⟨hcompound, hid⟩ := Prod.mk.inj hab
    exact hc.mixedAtoms a ha b hb (hc.atomIds a ha b hb hcompound hid)

/-! ## What is made of it -/

section

variable (hd : g.Distinct) (h : g.Same g')

include hd h

/-- **Sorting hides the order** in which the atoms of a compound came. -/
theorem compound_congr (c : CompoundRow) : g.compound c = g'.compound c := by
  have hatoms : ((g.compoundAtoms.filter (·.1 = c.id)).map (·.2)).mergeSort atomOrder =
      ((g'.compoundAtoms.filter (·.1 = c.id)).map (·.2)).mergeSort atomOrder := by
    refine Sorting.mergeSort_eq_of_perm
      (Sorting.linear_placed CompoundAtom.orderPosition (·.proposition.id))
      ((h.compoundAtoms.filter _).map _) fun a ha b hb hab hba => ?_
    obtain ⟨⟨i, a⟩, hi, rfl⟩ := List.mem_map.1 ha
    obtain ⟨⟨k, b⟩, hk, rfl⟩ := List.mem_map.1 hb
    obtain ⟨hi, hic⟩ := List.mem_filter.1 hi
    obtain ⟨hk, hkc⟩ := List.mem_filter.1 hk
    have hids := Sorting.id_eq_of_placed CompoundAtom.orderPosition (·.proposition.id) hab hba
    have heq := List.inj_on_of_nodup_map hd.compoundAtoms hi hk
      (Prod.ext ((of_decide_eq_true hic).trans (of_decide_eq_true hkc).symm) hids)
    exact (Prod.mk.inj heq).2
  rw [compound, compound, hatoms]

theorem mixedCompound_congr (c : CompoundRow) : g.mixedCompound c = g'.mixedCompound c := by
  have hatoms : ((g.mixedAtoms.filter (·.compoundId = c.id)).map (·.atom)).mergeSort mixedAtomOrder =
      ((g'.mixedAtoms.filter (·.compoundId = c.id)).map (·.atom)).mergeSort mixedAtomOrder := by
    refine Sorting.mergeSort_eq_of_perm (Sorting.linear_placed BasisAtom.orderPosition BasisAtom.id)
      ((h.mixedAtoms.filter _).map _) fun a ha b hb hab hba => ?_
    obtain ⟨m, hm, rfl⟩ := List.mem_map.1 ha
    obtain ⟨n, hn, rfl⟩ := List.mem_map.1 hb
    obtain ⟨hm, hmc⟩ := List.mem_filter.1 hm
    obtain ⟨hn, hnc⟩ := List.mem_filter.1 hn
    have hids := Sorting.id_eq_of_placed BasisAtom.orderPosition BasisAtom.id hab hba
    have heq := List.inj_on_of_nodup_map hd.mixedAtoms hm hn
      (Prod.ext ((of_decide_eq_true hmc).trans (of_decide_eq_true hnc).symm) hids)
    rw [heq]
  rw [mixedCompound, mixedCompound, hatoms]

/-- **What is made of the same things is the same.** -/
theorem exists_perm_of_finish (hx : g.finish η = .ok xs) :
    ∃ ys, g'.finish η' = .ok ys ∧ xs.Perm ys := by
  obtain ⟨cs, hcs, ms, hms, rfl⟩ := (finish_eq_ok ⟨hd.compounds, hd.mixed⟩).1 hx
  have ho : g'.Once :=
    ⟨(h.compounds.map _).nodup_iff.1 hd.compounds, (h.mixed.map _).nodup_iff.1 hd.mixed⟩
  obtain ⟨cs', hcs', hcperm⟩ := exists_mapM_perm h.compounds hcs
  obtain ⟨ms', hms', hmperm⟩ := exists_mapM_perm h.mixed hms
  have hcids : cs.map (·.id) = g.compounds.map (·.id) :=
    map_eq_of_mapM (fun _ _ _ => id_of_compound) hcs
  have hmids : ms.map (·.id) = g.mixed.map (·.id) :=
    map_eq_of_mapM (fun _ _ _ => id_of_mixedCompound) hms
  have hbases : g.bases cs ms = g'.bases cs' ms' := by
    simp only [bases, Table.find?_eq_of_perm hcperm (hcids ▸ hd.compounds),
      Table.find?_eq_of_perm hmperm (hmids ▸ hd.mixed), Table.find?_eq_of_perm h.quotes hd.quotes]
  refine ⟨_, (finish_eq_ok ho).2 ⟨cs', ?_, ms', ?_, rfl⟩, ?_⟩
  · rw [← funext (compound_congr hd h), hcs']
  · rw [← funext (mixedCompound_congr hd h), hms']
  · rw [hbases]
    exact h.justifications.map _

end

end Gathered

/-! ## Reconstruction -/

/-- What there is under an id. -/
def Justification.byId (xs : List Justification) (i : Id) : Option Justification :=
  xs.find? (·.id = i)

/-- Justifications are listed in the order in which rows first tell of them, each
    once, and these are those that are found by their ids. -/
structure ListsFirsts (rows : List JoinedRow) (xs : List Justification) : Prop where
  order : xs.map (·.id) = (rows.map (·.justification.id)).eraseDups
  once : (xs.map (·.id)).Nodup
  found : ∀ i, i ∈ xs.map (·.id) ↔ (Justification.byId xs i).isSome = true

theorem ids_of_reconstruct (h : reconstruct η rows = .ok xs) :
    xs.map (·.id) = firsts id (rows.map (·.justification.id)) := by
  obtain ⟨g, hg, hfinish⟩ := reconstruct_eq_ok.1 h
  obtain ⟨_, -, _, -, rfl⟩ := (finish_eq_ok (once_of_toldBy hg)).1 hfinish
  have hjs := foldlM_keepJustification _ ▸ hg.justifications
  rw [List.map_map]
  calc g.justifications.map (·.id)
    _ = (firsts (·.id) (rows.map (·.justification))).map (·.id) :=
      map_eq_of_mapM (fun _ _ _ => JustificationRow.id_of_decode) hjs
    _ = firsts id ((rows.map (·.justification)).map (·.id)) :=
      (firsts_map id JustificationRow.id _).symm
    _ = firsts id (rows.map (·.justification.id)) := by rw [List.map_map]; rfl

theorem listsFirsts_of_reconstruct (h : reconstruct η rows = .ok xs) : ListsFirsts rows xs where
  order := (ids_of_reconstruct h).trans (firsts_id _)
  once := by
    rw [ids_of_reconstruct h, ← List.map_id (firsts id _)]
    exact nodup_firsts _
  found i := by simp [Justification.byId]

/-- Rows in another order are reconstructed as the same. -/
theorem exists_perm_of_reconstruct (hc : Coherent rows) (h : SameRows rows rows')
    (hx : reconstruct η rows = .ok xs) : ∃ ys, reconstruct η' rows' = .ok ys ∧ xs.Perm ys := by
  obtain ⟨g, hg, hfinish⟩ := reconstruct_eq_ok.1 hx
  obtain ⟨g', hg', hsame⟩ := exists_same_of_toldBy hc h hg
  obtain ⟨ys, hys, hperm⟩ := exists_perm_of_finish (distinct_of_toldBy hc hg) hsame hfinish
  exact ⟨ys, reconstruct_eq_ok.2 ⟨g', hg', hys⟩, hperm⟩

/-- **Reconstruction depends on the rows alone**, and not on their order or on how
    often they come, nor on how compounds are hashed.  All that their order decides is in which order justifications
    are listed. -/
theorem reconstruct_of_sameRows (hc : Coherent rows) (h : SameRows rows rows') :
    ((∃ xs, reconstruct η rows = .ok xs) ↔ ∃ ys, reconstruct η' rows' = .ok ys) ∧
    ∀ xs ys, reconstruct η rows = .ok xs → reconstruct η' rows' = .ok ys →
      Justification.byId xs = Justification.byId ys ∧ ListsFirsts rows xs ∧
        ListsFirsts rows' ys := by
  refine ⟨⟨fun ⟨xs, hx⟩ => ?_, fun ⟨ys, hy⟩ => ?_⟩, fun xs ys hx hy => ?_⟩
  · obtain ⟨ys, hy, -⟩ := exists_perm_of_reconstruct hc h hx
    exact ⟨ys, hy⟩
  · obtain ⟨xs, hx, -⟩ := exists_perm_of_reconstruct (hc.of_sameRows h) (fun r => (h r).symm) hy
    exact ⟨xs, hx⟩
  · obtain ⟨zs, hz, hperm⟩ := exists_perm_of_reconstruct hc h hx
    rw [hy] at hz
    cases hz
    have hlists := listsFirsts_of_reconstruct hx
    exact ⟨funext (Table.find?_eq_of_perm hperm hlists.once), hlists,
      listsFirsts_of_reconstruct hy⟩

/-- A row of a justification on a mixed compound, with a proposition that is an
    atom of that. -/
def JoinedRow.sampleAtom (atom proposition : Id) : JoinedRow where
  justification := ⟨1, "PROPOSITION", 1, "POSITIVE", "PROPOSITION", 1,
    "JUSTIFICATION_BASIS_COMPOUND", 1, "POSITIVE", 1, "2024-01-01T00:00:00+00:00"⟩
  compound := none
  compoundAtom := none
  quote := none
  mixed := some ⟨1, 1, "2024-01-01T00:00:00+00:00"⟩
  mixedAtom := some {
    id := atom
    entityType := "PROPOSITION"
    entityId := proposition
    orderPosition := 0
    proposition := some ⟨proposition, "It rains.", 1, "2024-01-01T00:00:00+00:00"⟩
    paraphrase := none }

/-- Two atoms at one position, in either order. -/
theorem reconstruct_of_sameRows_atoms :
    let rows := [JoinedRow.sampleAtom 1 2, .sampleAtom 2 1]
    let rows' := [JoinedRow.sampleAtom 2 1, .sampleAtom 1 2, .sampleAtom 2 1]
    let η := Hashing.asTold
    let η' : Hashing := ⟨.backwards, .backwards⟩
    Coherent rows ∧ SameRows rows rows' ∧ (∃ xs, reconstruct η rows = .ok xs) ∧
    ((∃ xs, reconstruct η rows = .ok xs) ↔ ∃ ys, reconstruct η' rows' = .ok ys) ∧
    ∀ xs ys, reconstruct η rows = .ok xs → reconstruct η' rows' = .ok ys →
      Justification.byId xs = Justification.byId ys ∧ ListsFirsts rows xs ∧
        ListsFirsts rows' ys := by
  intro rows rows' η η'
  have hc : Coherent rows := by constructor <;> decide
  have h : SameRows rows rows' := fun r => by
    simp only [rows, rows', List.mem_cons, List.not_mem_nil]
    grind
  exact ⟨hc, h, exists_ok_iff_isOk.2 (by decide +kernel), reconstruct_of_sameRows hc h⟩

end Rationale
