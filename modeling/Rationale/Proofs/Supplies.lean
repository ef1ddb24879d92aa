/-
  Rationale — what a store has to supply.

  A store supplies a justification if it has all that is named by it, but for
  propositions, which are read with the page.  Readers go by ids, and so what is
  looked up together is found if and only if each part of it is.

  * `exists_findStatements_iff`, `exists_findUsers_iff`,
    `exists_findMediaExcerpts_iff`: what it takes that a reader succeeds;
  * `exists_lookups_iff`: lookups succeed if and only if the database takes them
    and the store supplies every node of the index.
-/
import Rationale.Proofs.Companions

namespace Rationale

open Query Store

namespace Store

variable (db : Store)

/-- All that a justification names is there, but for propositions. -/
structure Supplies (x : Justification) : Prop where
  statements : ∀ i ∈ x.statementIds, ∃ s, db.statement? i = some (.ok s)
  excerpts : ∀ i ∈ x.excerptIds, ∃ r e, db.mediaExcerpts.row? i = some r ∧ db.excerptOf r = .ok e
  creator : ∃ u, db.users.row? (x.creator.id (·.id)) = some u

variable {db} {ids : List Id} {i : Id}

theorem exists_findStatements_iff :
    (∃ found, db.findStatements ids = .ok found) ↔
      ∀ i ∈ ids, ∃ s, db.statement? i = some (.ok s) := by
  refine ⟨fun ⟨found, h⟩ i hi => ?_, exists_findStatements⟩
  obtain ⟨_, -, hcomplete⟩ := bind_eq_ok.1 h
  obtain ⟨rfl, hall⟩ := complete_eq_ok_iff.1 hcomplete
  obtain ⟨s, hs⟩ := Option.isSome_iff_exists.1 (hall i hi)
  obtain ⟨e, he, hs⟩ := Option.bind_eq_some_iff.1 (statement?_of_findStatements h hs)
  cases e with
  | error e => cases hs
  | ok s => exact ⟨s, he⟩

theorem exists_findUsers_iff :
    (∃ found, db.findUsers ids = .ok found) ↔ ∀ i ∈ ids, ∃ u, db.users.row? i = some u := by
  constructor
  · rintro ⟨found, h⟩ i hi
    obtain ⟨rfl, hall⟩ := complete_eq_ok_iff.1 h
    obtain ⟨u, hu⟩ := Option.isSome_iff_exists.1 (hall i hi)
    obtain ⟨r, hr, -⟩ := Option.map_eq_some_iff.1 (row?_of_findUsers h hu)
    exact ⟨r, hr⟩
  · refine fun h => exists_findUsers fun i hi => ?_
    obtain ⟨u, hu⟩ := h i hi
    exact ⟨u, Table.mem_live_of_row? hu, Table.id_of_row? hu⟩

/-- The histories of some media excerpts can be read together if each can. -/
theorem exists_history_locators
    (h : ∀ i ∈ ids, ∃ as, db.history ((db.locatorsOf [i]).map (·.1.id)) = .ok as) :
    ∃ as, db.history ((db.locatorsOf ids).map (·.1.id)) = .ok as := by
  apply exists_mapM_eq_ok
  intro a ha
  rw [List.mem_mergeSort, List.mem_filter, decide_eq_true_eq, List.mem_map] at ha
  obtain ⟨ha, l, hl, hla⟩ := ha
  obtain ⟨i, hi, hl⟩ := mem_locatorsOf.1 hl
  obtain ⟨as, has⟩ := h i hi
  have hmem : a.locatorId ∈ (db.locatorsOf [i]).map (·.1.id) :=
    List.mem_map.2 ⟨l, mem_locatorsOf.2 ⟨i, by simp, hl⟩, hla⟩
  obtain ⟨b, -, hb⟩ := exists_mem_of_mapM has
    (List.mem_mergeSort.2 (List.mem_filter.2 ⟨ha, by simpa using hmem⟩))
  exact ⟨b, hb⟩

theorem exists_findMediaExcerpts_iff :
    (∃ found, (db.findMediaExcerpts ids).result = .ok found) ↔
      ∀ i ∈ ids, ∃ r e, db.mediaExcerpts.row? i = some r ∧ db.excerptOf r = .ok e := by
  constructor
  · rintro ⟨found, h⟩ i hi
    obtain ⟨as, has, bare, hbare, hcomplete⟩ := findMediaExcerpts_handedOut.1 h
    obtain ⟨rfl, hall⟩ := complete_eq_ok_iff.1 hcomplete
    obtain ⟨e, he⟩ := Option.isSome_iff_exists.1 (hall i hi)
    obtain ⟨_, hmem, hid, -⟩ := lookup_map_eq_some he
    obtain ⟨b, hb, rfl⟩ := List.mem_map.1 hmem
    obtain ⟨r, hr, hrb⟩ := exists_of_mem_mapM hbare hb
    obtain ⟨k, -, hr⟩ := List.mem_filterMap.1 hr
    have hrk : r.id = k := Table.id_of_row? hr
    have hri : r.id = i := (MediaExcerptRow.id_of_decode hrb).symm.trans hid
    obtain ⟨e, he⟩ := exists_mediaExcerpt_iff.2 ((exists_dated_iff _).1 ⟨b, hrb⟩)
    refine ⟨r, e, by rw [← hri, hrk, hr], ?_⟩
    rw [excerptOf_of_history has (hri ▸ hi), he]
  · intro h
    refine exists_findMediaExcerpts (exists_history_locators fun i hi => ?_) fun i hi => ?_
    · obtain ⟨r, e, hr, he⟩ := h i hi
      obtain ⟨as, has, -⟩ := bind_eq_ok.1 he
      rw [show r.id = i from Table.id_of_row? hr] at has
      exact ⟨as, has⟩
    · obtain ⟨r, e, hr, he⟩ := h i hi
      obtain ⟨as, -, he⟩ := bind_eq_ok.1 he
      exact ⟨r, hr, exists_mediaExcerpt_iff.1 ⟨e, he⟩⟩

/-- **Lookups succeed if and only if the store supplies every node**, and the
    database takes the statements. -/
theorem exists_lookups_iff {ix : Index} {ps : List Proposition} {includeUrls : Bool} :
    (∃ l, (lookupsAt (fun _ => db) ix ps includeUrls).result = .ok l) ↔
      LookupsFit (fun _ => db) ix includeUrls ∧ ∀ x ∈ ix.nodes, db.Supplies x := by
  constructor
  · rintro ⟨l, hl⟩
    obtain ⟨hfits, es, hes, ss, hss, us, hus, -⟩ := lookupsAt_eq_ok.1 hl
    refine ⟨hfits, fun x hx => ?_⟩
    exact {
      statements := fun i hi =>
        exists_findStatements_iff.1 ⟨ss, hss⟩ i (Index.mem_statementIds.2 ⟨x, hx, hi⟩)
      excerpts := fun i hi =>
        exists_findMediaExcerpts_iff.1 ⟨es, hes⟩ i (Index.mem_excerptIds.2 ⟨x, hx, hi⟩)
      creator := exists_findUsers_iff.1 ⟨us, hus⟩ _ (Index.mem_creatorIds.2 ⟨x, hx, rfl⟩) }
  · rintro ⟨hfits, h⟩
    obtain ⟨es, hes⟩ : ∃ es, (db.findMediaExcerpts ix.excerptIds).result = .ok es := by
      refine exists_findMediaExcerpts_iff.2 fun i hi => ?_
      obtain ⟨x, hx, hi⟩ := Index.mem_excerptIds.1 hi
      exact (h x hx).excerpts i hi
    obtain ⟨ss, hss⟩ : ∃ ss, db.findStatements ix.statementIds = .ok ss := by
      refine exists_findStatements_iff.2 fun i hi => ?_
      obtain ⟨x, hx, hi⟩ := Index.mem_statementIds.1 hi
      exact (h x hx).statements i hi
    obtain ⟨us, hus⟩ : ∃ us, db.findUsers ix.creatorIds = .ok us := by
      refine exists_findUsers_iff.2 fun i hi => ?_
      obtain ⟨x, hx, rfl⟩ := Index.mem_creatorIds.1 hi
      exact (h x hx).creator
    exact ⟨_, lookupsAt_eq_ok.2 ⟨hfits, es, hes, ss, hss, us, hus, rfl⟩⟩

end Store

end Rationale
