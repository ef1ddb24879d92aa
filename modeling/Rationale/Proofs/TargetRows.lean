/-
  Rationale — the rows of the targets.

  Targets may lead round in circles, to ids without a justification, and
  through deleted justifications.  The search along them ends all the same, and
  it finds what they lead to in one or more steps.  Of that the live
  justifications have rows, in the order of their ids: each a row for every
  atom of its compound, whether or not the entity of the atom is live, and one
  row if it has no atoms.

  * `rowsOf_joined`: the rows of one justification;
  * `rows_of_justification`: sorting keeps the rows of a justification together;
  * `targetRows_of_search`: the rows of the targets, and how the search ends.
-/
import Rationale.Proofs.Consistency

namespace Rationale.Store

open Query Sorting

variable {db : Store} {q : Evaluation} {j : JustificationRow} {c : CompoundRow} {r : JoinedRow}
  {ids : List Id}

/-! ## The rows of a justification -/

/-- The justification is based on that live proposition compound. -/
def OnCompound (db : Store) (j : JustificationRow) (c : CompoundRow) : Prop :=
  c ∈ db.propositionCompounds.live ∧ j.basisType = Coded.text BasisType.propositionCompound ∧
    c.id = j.basisId

/-- The justification is based on that live mixed compound. -/
def OnMixed (db : Store) (j : JustificationRow) (c : CompoundRow) : Prop :=
  c ∈ db.basisCompounds.live ∧ j.basisType = Coded.text BasisType.justificationBasisCompound ∧
    c.id = j.basisId

/-- A row of the justification for an atom of its proposition compound, with the
    proposition of the atom if it is live. -/
structure RowOfAtom (db : Store) (j : JustificationRow) (c : CompoundRow) (a : CompoundAtomRow)
    (r : JoinedRow) : Prop where
  justification : r.justification = j
  compound : r.compound = some c
  atom : r.compoundAtom = (db.propositions.row? a.propositionId).map (a.orderPosition, ·)
  mixedAtom : r.mixedAtom = none

/-- A row of the justification for an atom of its mixed compound. -/
structure RowOfMixedAtom (db : Store) (j : JustificationRow) (c : CompoundRow) (a : BasisAtomRow)
    (r : JoinedRow) : Prop where
  justification : r.justification = j
  compound : r.mixed = some c
  atom : r.mixedAtom = some (db.joinedAtom a)
  compoundAtom : r.compoundAtom = none

/-- All rows of a justification. -/
inductive RowsOf (db : Store) (j : JustificationRow) : List JoinedRow → Prop
  | compound {c : CompoundRow} {rows : List JoinedRow} :
      db.OnCompound j c → db.propositionAtoms c ≠ [] →
      List.Forall₂ (db.RowOfAtom j c) (db.propositionAtoms c) rows → RowsOf db j rows
  | mixed {c : CompoundRow} {rows : List JoinedRow} :
      db.OnMixed j c → db.mixedAtoms c ≠ [] →
      List.Forall₂ (db.RowOfMixedAtom j c) (db.mixedAtoms c) rows → RowsOf db j rows
  | single {r : JoinedRow} :
      (∀ c, db.OnCompound j c → db.propositionAtoms c = []) →
      (∀ c, db.OnMixed j c → db.mixedAtoms c = []) →
      r.justification = j → r.compoundAtom = none → r.mixedAtom = none → RowsOf db j [r]

theorem onCompound_iff (hk : db.Keyed) : db.OnCompound j c ↔ db.basisProposition? j = some c :=
  hk.propositionCompounds.typed?_eq_some.symm

theorem onMixed_iff (hk : db.Keyed) : db.OnMixed j c ↔ db.basisMixed? j = some c :=
  hk.basisCompounds.typed?_eq_some.symm

theorem orNone_of_ne_nil {α : Type} {as : List α} (h : as ≠ []) : orNone as = as.map some := by
  cases as with
  | nil => exact absurd rfl h
  | cons a as => rfl

theorem eq_nil_of_not_exists {α β : Type} {o : Option α} {f : α → List β}
    (h : ¬ ∃ a, o = some a ∧ f a ≠ []) : ∀ a, o = some a → f a = [] := fun a ha =>
  Classical.byContradiction fun hne => h ⟨a, ha, hne⟩

theorem elim_eq_nil {α β : Type} {o : Option α} {f : α → List β}
    (h : ∀ a, o = some a → f a = []) : o.elim [] f = [] := by
  cases ho : o with
  | none => rfl
  | some a => exact h a ho

/-- **A justification has a row for each atom of its compound**, or one row. -/
theorem rowsOf_joined (hk : db.Keyed) (j : JustificationRow) : db.RowsOf j (db.joined j) := by
  by_cases hc : ∃ c, db.basisProposition? j = some c ∧ db.propositionAtoms c ≠ []
  · obtain ⟨c, hc, hatoms⟩ := hc
    have hm := basisMixed?_eq_none hc
    refine .compound ((onCompound_iff hk).2 hc) hatoms ?_
    simp only [joined, hc, hm, Option.elim_some, Option.elim_none, orNone_nil,
      orNone_of_ne_nil hatoms, List.map_cons, List.map_nil, List.flatMap_map]
    rw [← List.map_eq_flatMap, List.forall₂_map_right_iff]
    exact List.forall₂_same.2 fun a _ => ⟨rfl, rfl, rfl, rfl⟩
  by_cases hm : ∃ c, db.basisMixed? j = some c ∧ db.mixedAtoms c ≠ []
  · obtain ⟨c, hm, hatoms⟩ := hm
    have hp := basisProposition?_eq_none hm
    refine .mixed ((onMixed_iff hk).2 hm) hatoms ?_
    simp only [joined, hp, hm, Option.elim_some, Option.elim_none, orNone_nil,
      orNone_of_ne_nil hatoms, List.flatMap_cons, List.flatMap_nil, List.append_nil, List.map_map]
    rw [List.forall₂_map_right_iff]
    exact List.forall₂_same.2 fun a _ => ⟨rfl, rfl, rfl, rfl⟩
  · have hatoms := eq_nil_of_not_exists hc
    have hmixed := eq_nil_of_not_exists hm
    rw [joined, elim_eq_nil hatoms, elim_eq_nil hmixed]
    exact .single (fun c h => hatoms c ((onCompound_iff hk).1 h))
      (fun c h => hmixed c ((onMixed_iff hk).1 h)) rfl rfl rfl

/-! ## The rows of many justifications -/

theorem exists_row_iff {order : JustificationRow → JustificationRow → Bool} :
    (∃ r ∈ db.justificationRows ids order, r.justification = j) ↔
      j ∈ db.justifications.live ∧ j.id ∈ ids := by
  constructor
  · rintro ⟨r, hr, rfl⟩
    exact (mem_justificationRows.1 hr).1
  · intro hj
    obtain ⟨r, hr⟩ := List.exists_mem_of_ne_nil _ (joined_ne_nil db j)
    obtain rfl := justification_of_mem_joined hr
    exact ⟨r, mem_justificationRows.2 ⟨hj, hr⟩, rfl⟩

/-- **The rows of a justification are those that it has alone.** -/
theorem rows_of_justification (hk : db.Keyed) {order : JustificationRow → JustificationRow → Bool}
    (ho : Linear order) (hj : j ∈ db.justifications.live) (hi : j.id ∈ ids) :
    (db.justificationRows ids order).filter (·.justification = j) = db.joined j := by
  have hlive : (db.justifications.live.filter (·.id ∈ ids)).Nodup :=
    (List.Nodup.of_map _ hk.justifications.nodup_live).sublist List.filter_sublist
  have hmem : j ∈ db.justifications.live.filter (·.id ∈ ids) :=
    List.mem_filter.2 ⟨hj, decide_eq_true hi⟩
  rw [justificationRows, ← mergeSort_filter (ho.on JoinedRow.justification),
    filter_flatMap_eq (fun _ _ h => justification_of_mem_joined h) hlive hmem]
  refine List.mergeSort_of_pairwise (List.pairwise_of_forall_mem_list fun r hr s hs => ?_)
  rw [justification_of_mem_joined hr, justification_of_mem_joined hs]
  exact ho.refl j

/-! ## Targets -/

/-- **The search along targets ends.**  Where it ends, it has found just what
    targets lead to, of which the live justifications have their rows. -/
theorem targetRows_of_search (hk : db.Keyed) (q : Evaluation) :
    (∃ n ≤ db.justifications.length, ∃ s,
      Graph.Search.Steps db.targetEdges n (db.targetSearch q) s ∧ s.queue = [] ∧
      db.targetRows q = db.justificationRows s.found fun a b => a.id ≤ b.id) ∧
    (∀ j, (∃ r ∈ db.targetRows q, r.justification = j) ↔
      j ∈ db.justifications.live ∧
        ∃ c ∈ db.candidates q, Relation.TransGen db.Targets c.id j.id) ∧
    ((db.targetRows q).Pairwise fun r s => r.justification.id ≤ s.justification.id) ∧
    ∀ r ∈ db.targetRows q, db.RowsOf r.justification
      ((db.targetRows q).filter (·.justification = r.justification)) := by
  refine ⟨?_, fun j => ?_, ?_, fun r hr => ?_⟩
  · obtain ⟨n, hn, hsteps, hend⟩ := Graph.Search.steps_run db.targetEdges (db.targetSearch q)
    have hseeds : (db.targetSearch q).todo db.targetEdges ≤ db.targetEdges.length :=
      Graph.Search.todo_start fun i hi => (List.filter_sublist.map _).subset hi
    have hedges : db.targetEdges.length ≤ db.justifications.length := by
      have hrows : db.justifications.rows.length = db.justifications.length := List.length_map _
      rw [← hrows]
      exact List.length_filterMap_le _ _
    exact ⟨n, by omega, _, hsteps, hend, rfl⟩
  · rw [targetRows, exists_row_iff, mem_targetSearch]
  · exact pairwise_le_byId (fun r : JoinedRow => r.justification.id) _
  · obtain ⟨⟨hj, hi⟩, -⟩ := mem_justificationRows.1 hr
    rw [targetRows, rows_of_justification hk (linear_byId JustificationRow.id) hj hi]
    exact rowsOf_joined hk _

/-- Targets lead from the first justification through the second, which is
    deleted, to the third, and from there back to the first. -/
def roundabout : Store :=
  sample [
    ⟨{ JustificationRow.sample 1 with targetType := "JUSTIFICATION", targetId := 2 }, none⟩,
    ⟨{ JustificationRow.sample 2 with targetType := "JUSTIFICATION", targetId := 3 },
      some "2024-02-01T00:00:00+00:00"⟩,
    ⟨{ JustificationRow.sample 3 with targetType := "JUSTIFICATION", targetId := 1 }, none⟩]

theorem targetRows_of_search_roundabout : let ch := Chance.level .asStored
    roundabout.Keyed ∧ ∃ q, (oneRequest 1).compile = .ok q ∧
      ∀ i, (∃ r ∈ roundabout.targetRows (q.use ch .targets), r.justification.id = i) ↔
        i = 1 ∨ i = 3 := by
  intro ch
  have hk : roundabout.Keyed := by constructor <;> decide
  obtain ⟨q, hq⟩ := exists_compile_one 1
  have hrows := (targetRows_of_search hk (q.use ch .targets)).2.1
  have hc : roundabout.candidates (q.use ch .targets) =
      [{ JustificationRow.sample 1 with targetType := "JUSTIFICATION", targetId := 2 }] :=
    candidates_one hk hq ch .targets
  rw [hc] at hrows
  simp only [List.mem_singleton, exists_eq_left] at hrows
  have hthree : Relation.TransGen roundabout.Targets 1 3 :=
    .tail (b := 2) (.single (by unfold Targets; decide)) (by unfold Targets; decide)
  have hone : Relation.TransGen roundabout.Targets 1 1 := hthree.tail (by unfold Targets; decide)
  have hids : ∀ j ∈ roundabout.justifications.live, j.id = 1 ∨ j.id = 3 := by decide
  refine ⟨hk, q, hq, fun i => ⟨?_, fun hi => ?_⟩⟩
  · rintro ⟨r, hr, rfl⟩
    exact hids _ ((hrows r.justification).1 ⟨r, hr, rfl⟩).1
  · obtain ⟨j, hj, rfl⟩ : ∃ j ∈ roundabout.justifications.live, j.id = i := by
      rcases hi with rfl | rfl <;> decide
    have hreached : Relation.TransGen roundabout.Targets 1 j.id := by
      rcases hi with hi | hi <;> rwa [hi]
    obtain ⟨r, hr, rfl⟩ := (hrows j).2 ⟨hj, hreached⟩
    exact ⟨r, hr, rfl⟩

end Rationale.Store
