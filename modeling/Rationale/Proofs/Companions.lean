/-
  Rationale — what is looked up does not depend on what else is.

  A read looks everything up at once that its index names.  What it finds under
  an id is what it would find had it asked for that id alone (`Store.lookups`),
  as the readers go by ids and the histories of locators are kept apart.  So a
  node of an index is filled in from the store, whatever the other nodes are.

  * `excerptOf_of_history`: the history of other locators has no part in a
    media excerpt;
  * `agreeOn_of_lookups`: what lookups find of what a node names is what the
    store has, but that propositions are those that were read with the page;
  * `hydrate_of_lookups`: a node of an index is filled in from the store.
-/
import Rationale.Proofs.Finding
import Rationale.Proofs.UrlTargets

namespace Rationale

open Query Store

namespace Store

variable (db : Store)

/-! ## Under one id -/

/-- The proposition under that id. -/
def proposition? (i : Id) : Option Proposition :=
  (db.propositions.row? i).bind (·.decode.toOption)

/-- The media excerpt with the histories of its own locators. -/
def excerptOf (r : MediaExcerptRow) : Except Fault MediaExcerpt := do
  db.mediaExcerpt (← db.history ((db.locatorsOf [r.id]).map (·.1.id))) r

/-- What the store has under each id, where propositions are found in their own
    way. -/
def lookups (propositions : Id → Option Proposition) (includeUrls : Bool) : Lookups where
  propositions
  statements i := (db.statement? i).bind (·.toOption)
  mediaExcerpts i := (db.mediaExcerpts.row? i).bind (db.excerptOf · |>.toOption)
  users i := (db.users.row? i).map fun u => ⟨u.id, u.longName⟩
  writQuoteUrls := if includeUrls then some db.writQuoteUrlsOf else none
  chains := []

variable {db : Store} {ids ids' : List Id} {i : Id}

/-! ## Histories -/

theorem linear_notAfter : Sorting.Linear AttemptRow.notAfter :=
  Sorting.linear_dated AttemptRow.completeAt AttemptRow.id

theorem locatorId_of_decode {r : AttemptRow} {a : Attempt} (h : r.decode = .ok a) :
    a.locatorId = r.locatorId := by
  obtain ⟨_, -, h⟩ := bind_eq_ok.1 h
  obtain ⟨_, -, h⟩ := bind_eq_ok.1 h
  cases h
  rfl

/-- The history of some locators is part of that of more. -/
theorem history_of_subset {as : List Attempt} (h : db.history ids = .ok as) (hsub : ids' ⊆ ids) :
    db.history ids' = .ok (as.filter (·.locatorId ∈ ids')) := by
  have hrows : (db.attempts.filter (·.locatorId ∈ ids')).mergeSort AttemptRow.notAfter =
      ((db.attempts.filter (·.locatorId ∈ ids)).mergeSort AttemptRow.notAfter).filter
        (·.locatorId ∈ ids') := by
    rw [← Sorting.mergeSort_filter linear_notAfter, List.filter_filter]
    congr 1
    refine List.filter_congr fun a _ => ?_
    rw [Bool.eq_iff_iff]
    simpa using fun ha => hsub ha
  rw [history, hrows]
  exact mapM_filter_eq_ok (fun r _ a ha => by rw [locatorId_of_decode ha]) h

theorem mem_locatorsOf {l : UrlLocatorRow × UrlRow} :
    l ∈ db.locatorsOf ids ↔ ∃ e ∈ ids, l ∈ db.locators e := by
  simp [locatorsOf]

/-- A media excerpt depends on the attempts at its own locators alone. -/
theorem mediaExcerpt_congr {as bs : List Attempt} {r : MediaExcerptRow}
    (h : ∀ l ∈ db.locatorsOf [r.id],
      as.filter (·.locatorId = l.1.id) = bs.filter (·.locatorId = l.1.id)) :
    db.mediaExcerpt as r = db.mediaExcerpt bs r := by
  have hlocators : (db.locatorsOf [r.id]).map (locatorOf as) =
      (db.locatorsOf [r.id]).map (locatorOf bs) :=
    List.map_congr_left fun l hl => by rw [locatorOf, locatorOf, h l hl]
  rw [mediaExcerpt_eq, mediaExcerpt_eq, hlocators]

/-- **Other locators have no part in a media excerpt.** -/
theorem excerptOf_of_history {as : List Attempt} {r : MediaExcerptRow}
    (h : db.history ((db.locatorsOf ids).map (·.1.id)) = .ok as) (hr : r.id ∈ ids) :
    db.excerptOf r = db.mediaExcerpt as r := by
  have hsub : (db.locatorsOf [r.id]).map (·.1.id) ⊆ (db.locatorsOf ids).map (·.1.id) := by
    refine List.map_subset _ fun l hl => ?_
    obtain ⟨e, he, hl⟩ := mem_locatorsOf.1 hl
    cases List.mem_singleton.1 he
    exact mem_locatorsOf.2 ⟨r.id, hr, hl⟩
  rw [excerptOf, history_of_subset h hsub, ok_bind]
  refine mediaExcerpt_congr fun l hl => ?_
  rw [List.filter_filter]
  refine List.filter_congr fun a _ => ?_
  rw [Bool.eq_iff_iff]
  simp only [Bool.and_eq_true, decide_eq_true_eq, and_iff_left_iff_imp]
  rintro hal
  rw [hal]
  exact List.mem_map_of_mem hl

/-! ## What is found -/

/-- What is found under an id comes from what there is under that id. -/
theorem exists_find_of_lookup {α β : Type} {find : Id → Option α} {f : α → Except Fault β}
    {key : β → Id} {bs : List β} {b : β}
    (hkey : ∀ i a b, find i = some a → f a = .ok b → key b = i)
    (h : (ids.filterMap find).mapM f = .ok bs)
    (hb : (bs.map fun b => (key b, b)).lookup i = some b) :
    i ∈ ids ∧ ∃ a, find i = some a ∧ f a = .ok b := by
  obtain ⟨b, hmem, rfl, rfl⟩ := lookup_map_eq_some hb
  obtain ⟨a, ha, hab⟩ := exists_of_mem_mapM h hmem
  obtain ⟨i, hi, ha⟩ := List.mem_filterMap.1 ha
  rw [hkey i a b ha hab]
  exact ⟨hi, a, ha, hab⟩

theorem proposition?_of_find? {targets roots : Evaluation} {ps : List Proposition}
    {p : Proposition} (h : (db.propositionRows targets roots).mapM PropositionRow.decode = .ok ps)
    (hp : ps.find? (·.id = i) = some p) : db.proposition? i = some p := by
  obtain ⟨r, hr, hrp⟩ := exists_of_mem_mapM h (List.mem_of_find?_eq_some hp)
  obtain ⟨k, -, hk⟩ := List.mem_filterMap.1 hr
  have hki : k = i := by
    rw [← show r.id = k from Table.id_of_row? hk, ← PropositionRow.id_of_decode hrp]
    simpa using List.find?_some hp
  rw [proposition?, ← hki, hk, Option.bind_some, hrp]
  rfl

theorem statement?_of_findStatements {found : List (Id × Statement)} {s : Statement}
    (h : db.findStatements ids = .ok found) (hs : found.lookup i = some s) :
    (db.statement? i).bind (·.toOption) = some s := by
  obtain ⟨ss, hss, h⟩ := bind_eq_ok.1 h
  obtain ⟨rfl, -⟩ := complete_eq_ok_iff.1 h
  obtain ⟨-, e, he, rfl⟩ := exists_find_of_lookup (fun _ _ _ => id_of_statement?) hss hs
  rw [he, Option.bind_some]
  rfl

theorem excerptOf_of_findMediaExcerpts (hk : db.Keyed) {found : List (Id × MediaExcerpt)}
    {e : MediaExcerpt} (h : (db.findMediaExcerpts ids).result = .ok found)
    (he : found.lookup i = some e) :
    (db.mediaExcerpts.row? i).bind (db.excerptOf · |>.toOption) = some e := by
  obtain ⟨as, has, es, hes, h⟩ := (findMediaExcerpts_eq_ok hk).1 h
  obtain ⟨rfl, -⟩ := complete_eq_ok_iff.1 h
  have hkey : ∀ i r e, db.mediaExcerpts.row? i = some r → db.mediaExcerpt as r = .ok e → e.id = i :=
    fun i r e hr he => (id_of_mediaExcerpt he).trans (Table.id_of_row? hr)
  obtain ⟨hi, r, hr, hre⟩ := exists_find_of_lookup hkey hes he
  have hri : r.id ∈ ids := by
    rw [show r.id = i from Table.id_of_row? hr]
    exact mem_ascending.1 hi
  rw [hr, Option.bind_some, excerptOf_of_history has hri, hre]
  rfl

theorem row?_of_findUsers {found : List (Id × UserBlurb)} {u : UserBlurb}
    (h : db.findUsers ids = .ok found) (hu : found.lookup i = some u) :
    (db.users.row? i).map (fun r => ⟨r.id, r.longName⟩) = some u := by
  obtain ⟨rfl, -⟩ := complete_eq_ok_iff.1 h
  obtain ⟨r, hr, rfl, rfl⟩ := lookup_map_eq_some hu
  obtain ⟨k, -, hk⟩ := List.mem_filterMap.1 hr
  rw [show r.id = k from Table.id_of_row? hk, hk]
  simp [show r.id = k from Table.id_of_row? hk]

theorem lookup_findWritQuoteUrls (hk : db.Keyed) (hi : i ∈ ids) :
    (db.findWritQuoteUrls ids).lookup i = some (db.writQuoteUrlsOf i) := by
  rw [findWritQuoteUrls_eq hk]
  exact List.lookup_graph db.writQuoteUrlsOf (mem_ascending.2 hi)

end Store

variable {db : Store} {targets roots : Evaluation} {ix : Index} {ps : List Proposition}
  {includeUrls : Bool}
  {l : Lookups} {i : Id} {f : Id → Option Proposition} {x y : Justification}

/-! ## Nodes -/

/-- **Lookups agree with the store** on what a node names. -/
theorem agreeOn_of_lookups (hk : db.Keyed)
    (hl : (lookupsAt (fun _ => db) ix ps includeUrls).result = .ok l) (hx : x ∈ ix.nodes) :
    l.AgreeOn (db.lookups (fun i => ps.find? (·.id = i)) includeUrls) x := by
  have hfinds := finds_of_lookups hl
  obtain ⟨-, es, hes, ss, hss, us, hus, rfl⟩ := lookupsAt_eq_ok.1 hl
  refine { propositions := rfl, statements := ?_, mediaExcerpts := ?_, user := ?_, quote := ?_ }
  · intro i hi
    obtain ⟨s, hs⟩ := hfinds.statements i (Index.mem_statementIds.2 ⟨x, hx, hi⟩)
    exact hs.trans (statement?_of_findStatements hss hs).symm
  · intro i hi
    obtain ⟨e, he⟩ := hfinds.mediaExcerpts i (Index.mem_excerptIds.2 ⟨x, hx, hi⟩)
    exact he.trans (excerptOf_of_findMediaExcerpts hk hes he).symm
  · obtain ⟨u, hu⟩ := hfinds.users _ (Index.mem_creatorIds.2 ⟨x, hx, rfl⟩)
    exact hu.trans (row?_of_findUsers hus hu).symm
  · intro w hw
    have hmem : w.id ∈ ix.writQuoteIds := by
      rw [Index.writQuoteIds, mem_ascending, List.mem_filterMap]
      exact ⟨x, hx, by rw [hw]⟩
    cases includeUrls with
    | false => rfl
    | true => simp [Lookups.quote, lookups, lookup_findWritQuoteUrls hk hmem]

/-- The excerpts that a node names are there. -/
theorem exists_excerpt_of_lookups (hk : db.Keyed)
    (hl : (lookupsAt (fun _ => db) ix ps includeUrls).result = .ok l) (hx : x ∈ ix.nodes)
    (hi : i ∈ x.excerptIds) : ∃ e, (db.lookups f includeUrls).mediaExcerpts i = some e := by
  obtain ⟨e, he⟩ := (finds_of_lookups hl).mediaExcerpts i (Index.mem_excerptIds.2 ⟨x, hx, hi⟩)
  exact ⟨e, by rw [← he, (agreeOn_of_lookups hk hl hx).mediaExcerpts i hi]; rfl⟩

/-- A justification is filled in as before where more propositions are found. -/
theorem hydrate_of_propositions {g : Id → Option Proposition}
    (h : ∀ i p, f i = some p → g i = some p) (hy : (db.lookups f includeUrls).hydrate x = .ok y) :
    (db.lookups g includeUrls).hydrate x = .ok y := by
  have hproposition : ∀ p p', (db.lookups f includeUrls).proposition p = .ok p' →
      (db.lookups g includeUrls).proposition p = .ok p' := by
    intro p p' hp
    obtain ⟨a, ha, rfl⟩ := Lookups.proposition_eq_ok.1 hp
    exact Lookups.proposition_eq_ok.2 ⟨a, h _ a ha, rfl⟩
  obtain ⟨t, ht, r, hr, b, hb, u, hu, rfl⟩ := Lookups.hydrate_eq_ok.1 hy
  refine Lookups.hydrate_eq_ok.2 ⟨t, ?_, r, ?_, b, hb, u, hu, rfl⟩
  · cases htarget : x.target with
    | proposition p =>
      rw [htarget] at ht
      obtain ⟨p', hp, rfl⟩ := map_eq_ok.1 ht
      exact map_eq_ok.2 ⟨p', hproposition p p' hp, rfl⟩
    | statement s => rwa [htarget] at ht
    | justification t => rwa [htarget] at ht
  · cases hroot : x.rootTarget with
    | proposition p =>
      rw [hroot] at hr
      obtain ⟨p', hp, rfl⟩ := map_eq_ok.1 hr
      exact map_eq_ok.2 ⟨p', hproposition p p' hp, rfl⟩
    | statement s => rwa [hroot] at hr

/-- **A node is filled in from the store**, whatever else is looked up. -/
theorem hydrate_of_lookups (hk : db.Keyed)
    (hps : (db.propositionRows targets roots).mapM PropositionRow.decode = .ok ps)
    (hl : (lookupsAt (fun _ => db) ix ps includeUrls).result = .ok l) (hx : x ∈ ix.nodes)
    (hy : l.hydrate x = .ok y) : (db.lookups db.proposition? includeUrls).hydrate x = .ok y := by
  rw [Lookups.hydrate_of_agree (agreeOn_of_lookups hk hl hx)] at hy
  exact hydrate_of_propositions (fun i p => proposition?_of_find? hps) hy

end Rationale
