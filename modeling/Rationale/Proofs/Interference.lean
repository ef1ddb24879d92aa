/-
  Rationale — reads while others add justifications.

  No transaction wraps the steps of a read, and the candidates are looked for
  anew in several of them.  A justification that is added in between can itself
  be a candidate, and then another that is on the page is none any more.  So the
  propositions that are read may not be those of the page: a justification of
  the page is `Overtaken` if none of what is found by then has its root.  This is
  all that can go wrong, but for statements that the database refuses.

  * `hydrate_of_missing`: a justification that lacks its root is refused;
  * `Growing.readAt_eq_error`: the first that is overtaken ends the read;
  * `readAt_of_growing`: the page is read, unless a justification is overtaken or
    a statement refused.
-/
import Rationale.Proofs.Pages

namespace Rationale

open Query Store

variable {db : ReadStep → Store} {ch : Chance} {r : Request} {q : PageQuery} {ix : Index}
  {l : Lookups} {ps : List Proposition} {j : JustificationRow} {x : Justification} {i : Id}
  {f : Fault}

/-! ## What is missing -/

theorem Lookups.proposition_of_missing {p : Relation Proposition}
    (h : l.propositions (p.id (·.id)) = none) :
    l.proposition p = .error (.integrity (.notLoaded .proposition (p.id (·.id)))) := by
  rw [proposition, h]
  rfl

/-- **A justification that lacks its root is refused**, whatever else it has. -/
theorem Lookups.hydrate_of_missing {db db' : Store} (hw : db.WellFormed)
    (hj : j ∈ db.justifications.live) (hjx : db'.outline j = .ok x)
    (htype : j.rootTargetType = Coded.text RootTargetType.proposition)
    (hmissing : l.propositions j.rootTargetId = none) :
    l.hydrate x = .error (.integrity (.notLoaded .proposition j.rootTargetId)) := by
  have hrefused : ∀ p : Relation Proposition, p.id (·.id) = j.rootTargetId →
      l.proposition p = .error (.integrity (.notLoaded .proposition j.rootTargetId)) := by
    intro p hp
    rw [← hp] at hmissing ⊢
    exact proposition_of_missing hmissing
  have hroot : l.rootTarget x.rootTarget =
      .error (.integrity (.notLoaded .proposition j.rootTargetId)) := by
    obtain ⟨hroot, hid⟩ := rootTarget_of_outline hjx
    cases hr : x.rootTarget with
    | proposition p =>
      rw [hr] at hid
      rw [rootTarget, hrefused p hid]
      rfl
    | statement s =>
      rw [hr, htype] at hroot
      cases Coded.text_injective hroot
  -- the target comes first, but there the root is missing as well
  cases ht : x.target with
  | proposition p =>
    obtain ⟨-, hid⟩ := hw.target_eq_root hj hjx (by simp [ht, TargetOf.type])
    rw [ht] at hid
    rw [hydrate, ht, target, hrefused p hid]
    rfl
  | statement s =>
    obtain ⟨hstatement, -⟩ := hw.target_eq_root hj hjx (by simp [ht, TargetOf.type])
    rw [ht, htype] at hstatement
    have hne : Coded.text TargetType.statement ≠ Coded.text RootTargetType.proposition := by decide
    exact absurd hstatement hne
  | justification t =>
    rw [hydrate, ht, target, hroot]
    rfl

namespace Index

theorem assembleNode_eq_error (hi : i ∈ ix.ids) (h : ix.shell l i = .error f) :
    (ix.assembleNode l i).result = .error f := by
  obtain ⟨rest, hrest⟩ := (IndexOf.passes_targetWalk hi).exists_cons
  have hpath : (ix.targetWalk i).path.mapM (ix.shell l) = .error f := by
    rw [hrest, List.mapM_cons, h]
    rfl
  rw [assembleNode, Logged.result_bind, Logged.result_ofExcept, hpath]
  rfl

theorem assembleWithCounters_eq_error (hi : i ∈ ix.ids) (h : ix.shell l i = .error f) :
    (ix.assembleWithCounters l i).result = .error f := by
  rw [assembleWithCounters, Logged.result_bind, assembleNode_eq_error hi h]
  rfl

end Index

namespace Growing

variable (hg : Growing db)

include hg

theorem assemble_eq_error (h : Loaded db ch q ix l) (hj : firstOvertaken db ch q = some j) :
    (ix.assemble l).result = .error (.integrity (.notLoaded .proposition j.rootTargetId)) := by
  have hw := hg.wellFormed .counters
  obtain ⟨ps, hf⟩ := h.finds
  rw [Index.assemble_of_ids h.page]
  refine mapM_eq_error_of_find? (fun t ht hkept => ?_) hj ?_
  · exact h.outlines.exists_assembleWithCounters hw h.keyed hf (hg.live_of_page ht)
      ((h.hasRoot t (hg.live_of_page ht)).2 (of_decide_eq_false hkept))
      (Index.mem_ids_of_page h.page ht)
  · have hmem := List.mem_of_find?_eq_some hj
    have hover : Overtaken (db .propositions) ch q j := by simpa using List.find?_some hj
    have hmissing : l.propositions j.rootTargetId = none := by
      rw [Option.eq_none_iff_forall_ne_some]
      exact fun p hp => (h.hasRoot j (hg.live_of_page hmem)).1 (fun _ => ⟨p, hp⟩) hover
    have hlive : j ∈ (db .counters).justifications.live := hg.live_of_page hmem
    have hi := Index.mem_ids_of_page h.page hmem
    obtain ⟨x, hx, db', hjx⟩ := h.outlines.exists_node hw.keyed hlive hi
    refine Index.assembleWithCounters_eq_error hi ?_
    rw [Index.shell, hx]
    exact Lookups.hydrate_of_missing hw hlive hjx hover.1 hmissing

/-! ## Reads -/

/-- **The first that is overtaken lacks its root.** -/
theorem readAt_eq_error (hq : r.compile = .ok q) (htakes : Takes db ch r q)
    (hj : firstOvertaken db ch q = some j) :
    (readAt db ch r).result = .error (.integrity (.notLoaded .proposition j.rootTargetId)) := by
  have hpage := (mem_page (hg.keyed .page)).1 (List.mem_of_find?_eq_some hj)
  obtain ⟨ix, l, h, hread⟩ := hg.exists_loaded hq htakes (List.ne_nil_of_mem hpage)
  rw [hread]
  exact hg.assemble_eq_error h hj

end Growing

/-- **Others cannot make a read fail, but by overtaking.**  If the database takes
    its statements, the page that its first step found is read, unless the root
    of one of its justifications is a proposition that nothing has that is found
    by the time propositions are read.  The first such justification is what the
    fault is about.  If it does not take them, it says so. -/
theorem readAt_of_growing (hg : Growing db) (hq : r.compile = .ok q) :
    (Takes db ch r q →
      (firstOvertaken db ch q = none → ∃ out, (readAt db ch r).result = .ok out ∧
        out.map (·.id) =
          ((db .page).page (q.use ch .page) (ch.found .listing)).map (·.id)) ∧
      ∀ j, firstOvertaken db ch q = some j →
        (readAt db ch r).result = .error (.integrity (.notLoaded .proposition j.rootTargetId))) ∧
      (¬ Takes db ch r q → ∃ sql, (readAt db ch r).result = .error (.tooManyArguments sql)) :=
  ⟨fun htakes => ⟨hg.exists_page hq htakes, fun _ => hg.readAt_eq_error hq htakes⟩,
    hg.readAt_of_not_takes hq⟩

/-! ## A justification that is added -/

/-- A justification of the proposition `p`. -/
def JustificationRow.newer (p : Id) : JustificationRow :=
  { JustificationRow.sample 2 with rootTargetId := p, targetId := p }

/-- The justification `1`, and a newer one of the proposition `p`. -/
def Store.joinedBy (p : Id) : Store :=
  { sample [⟨.newer p, none⟩, ⟨.sample 1, none⟩] with
    propositions := [
      ⟨⟨1, "It rains.", 1, "2024-01-01T00:00:00+00:00"⟩, none⟩,
      ⟨⟨2, "It snows.", 1, "2024-01-01T00:00:00+00:00"⟩, none⟩] }

/-- It is added once the page has been found. -/
def joining (p : Id) (s : ReadStep) : Store :=
  if s = .page then .sample [⟨.sample 1, none⟩] else .joinedBy p

/-- The newest justification. -/
def Query.Request.newestOne : Request :=
  { count := 1, sorts := [⟨"id", some .desc, none⟩] }

theorem Store.not_counters {db : Store} (h : ∀ j ∈ db.justifications.live, j.targetId? = none)
    {j t : JustificationRow} : ¬ db.Counters j t := by
  rintro ⟨hj, -, htarget⟩
  rw [h j hj] at htarget
  cases htarget

theorem Store.wellFormed_joinedBy {p : Id} (hp : p = 1 ∨ p = 2) : (joinedBy p).WellFormed where
  keyed := by constructor <;> rcases hp with rfl | rfl <;> decide
  readable := by constructor <;> rcases hp with rfl | rfl <;> decide +kernel
  creator := by rcases hp with rfl | rfl <;> decide
  root j hj := by
    have hj : j ∈ [_, _] := hj
    simp only [List.mem_cons, List.not_mem_nil, or_false] at hj
    rcases hj with rfl | rfl
    · rcases hp with rfl | rfl
      · exact .proposition rfl (List.mem_cons_self ..) rfl
      · exact .proposition rfl (List.mem_cons_of_mem _ (List.mem_cons_self ..)) rfl
    · exact .proposition rfl (List.mem_cons_self ..) rfl
  target_root := by rcases hp with rfl | rfl <;> decide
  countered_root _ _ h := absurd h (not_counters (by rcases hp with rfl | rfl <;> decide))
  acyclic := acyclic_of_lt (·.id) fun _ _ h =>
    absurd h (not_counters (by rcases hp with rfl | rfl <;> decide))
  basis_excerpt := by rcases hp with rfl | rfl <;> decide
  paraphrased_excerpt := by rcases hp with rfl | rfl <;> decide

theorem Store.grows_joinedBy (p : Id) : (sample [⟨.sample 1, none⟩]).Grows (joinedBy p) where
  users := List.Subset.refl _
  persorgs := List.Subset.refl _
  statements := List.Subset.refl _
  mediaExcerpts := List.Subset.refl _
  justifications := List.subset_cons_self ..

theorem wellFormed_joining {p : Id} (hp : p = 1 ∨ p = 2) (s : ReadStep) :
    (joining p s).WellFormed := by
  unfold joining
  split
  · exact Store.wellFormed_sample
  · exact Store.wellFormed_joinedBy hp

theorem small_joining (p : Id) (s : ReadStep) : (joining p s).Small := by
  unfold joining
  split <;> constructor <;> exact of_decide_eq_true rfl

theorem growing_joining {p : Id} (hp : p = 1 ∨ p = 2) : Growing (joining p) := by
  refine ⟨wellFormed_joining hp, fun s t hst => ?_⟩
  unfold joining
  by_cases ht : t = .page
  · have hs : s = .page := by
      subst ht
      revert hst
      cases s <;> decide
    rw [if_pos hs, if_pos ht]
    exact .refl _
  · rw [if_neg ht]
    split
    · exact Store.grows_joinedBy p
    · exact .refl _

section

variable (hq : Request.newestOne.compile = .ok q)

include hq

theorem Store.candidates_sample (ρ : Rank) :
    (sample [⟨.sample 1, none⟩]).candidates ⟨q, ρ⟩ = [.sample 1] := by
  have hsorted : [JustificationRow.sample 1].Pairwise fun i j => q.order ρ i j = true :=
    List.pairwise_singleton ..
  cases hq
  exact candidates_of_pairwise hsorted rfl

/-- The newer one takes the only place. -/
theorem Store.candidates_joinedBy (p : Id) (ρ : Rank) :
    (joinedBy p).candidates ⟨q, ρ⟩ = [.newer p] := by
  have hsorted : [JustificationRow.newer p, .sample 1].Pairwise fun i j =>
      q.order ρ i j = true := by
    cases hq
    exact List.pairwise_pair.2 rfl
  cases hq
  exact candidates_of_pairwise hsorted rfl

theorem overtaken_joinedBy {p : Id} :
    Overtaken (.joinedBy p) ch q (.sample 1) ↔ p ≠ 1 := by
  have htype : (JustificationRow.sample 1).rootTargetType =
      Coded.text RootTargetType.proposition := rfl
  have hroot : (JustificationRow.sample 1).SameRoot (.newer p) ↔ p = 1 :=
    ⟨fun h => h.2.symm, fun h => ⟨rfl, h.symm⟩⟩
  simp +contextual [Overtaken, Covered, PageQuery.use, Store.candidates_joinedBy hq, htype, hroot]

theorem page_joining (p : Id) :
    (joining p .page).page (q.use ch .page) (ch.found .listing) = [.sample 1] :=
  Store.page_eq_singleton Store.wellFormed_sample.keyed (Store.candidates_sample hq _)

theorem firstOvertaken_joining (p : Id) :
    firstOvertaken (joining p) ch q = if p = 1 then none else some (.sample 1) := by
  have hpropositions : joining p .propositions = .joinedBy p := rfl
  rw [firstOvertaken, page_joining hq, hpropositions]
  by_cases hp : p = 1
  · simp [overtaken_joinedBy hq, hp]
  · simp [overtaken_joinedBy hq, hp]

theorem takes_joining {p : Id} (hp : p = 1 ∨ p = 2) :
    Takes (joining p) ch .newestOne q := by
  refine (growing_joining hp).takes_of_small (small_joining p) ?_
  cases hq
  decide +kernel

end

/-- A newer justification of the same proposition does no harm. -/
theorem readAt_of_growing_joining : Growing (joining 1) ∧
    ∃ q, Request.newestOne.compile = .ok q ∧
      Takes (joining 1) (.level .asStored) .newestOne q ∧
      firstOvertaken (joining 1) (.level .asStored) q = none ∧
      ∃ out, (readAt (joining 1) (.level .asStored) .newestOne).result = .ok out ∧
        out.map (·.id) = [1] := by
  have hg : Growing (joining 1) := growing_joining (.inl rfl)
  obtain ⟨q, hq⟩ : ∃ q, Request.newestOne.compile = .ok q := ⟨_, rfl⟩
  have htakes : Takes (joining 1) (.level .asStored) .newestOne q := takes_joining hq (.inl rfl)
  have hnone : firstOvertaken (joining 1) (.level .asStored) q = none :=
    firstOvertaken_joining hq 1
  obtain ⟨out, hout, hids⟩ := ((readAt_of_growing hg hq).1 htakes).1 hnone
  rw [page_joining hq] at hids
  exact ⟨hg, q, hq, htakes, hnone, out, hout, hids⟩

/-- One of another proposition is read in place of what is on the page: a read
    fails, although nothing but a justification with its proposition was added
    to a well-formed store, which stays well-formed. -/
theorem readAt_joining_refused : (∀ s, (joining 2 s).WellFormed) ∧ Growing (joining 2) ∧
    (∃ q, Request.newestOne.compile = .ok q) ∧
    ∀ ch, (readAt (joining 2) ch .newestOne).result =
      .error (.integrity (.notLoaded .proposition 1)) := by
  have hg : Growing (joining 2) := growing_joining (.inr rfl)
  obtain ⟨q, hq⟩ : ∃ q, Request.newestOne.compile = .ok q := ⟨_, rfl⟩
  exact ⟨wellFormed_joining (.inr rfl), hg, ⟨q, hq⟩, fun ch =>
    hg.readAt_eq_error hq (takes_joining hq (.inr rfl)) (firstOvertaken_joining hq 2)⟩

end Rationale
