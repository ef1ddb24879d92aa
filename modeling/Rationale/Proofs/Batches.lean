/-
  Rationale — what is read for many at once.

  The readers of media excerpts and of URLs read the rows of all owners as one
  list and hand them out.  What an owner gets is what the store has under its
  id (`locatorsOf`, `citationsOf`, `urlsOf`), in the order in which it would
  come alone, and the attempts that a locator gets are all attempts at it.

  * `Owned.of_inOrder`: rows are put in order as if each owner were alone;
  * `handOut_eq`: nothing was taken away that a locator should get;
  * `findMediaExcerpts_eq_ok`: what a reader of media excerpts finds;
  * `findUrls_eq`: what a reader of URLs finds.
-/
import Mathlib.Data.List.Nodup
import Rationale.Proofs.KeyOrder
import Rationale.Proofs.Keys
import Rationale.Proofs.Outcome
import Rationale.Store.Read

namespace Rationale

open Time Query Sorting

/-! ## Rows and their owners -/

theorem nodup_ascending (ids : List Id) : (ascending ids).Nodup :=
  (pairwise_ascending ids).imp fun h => Int64.ne_of_lt h

namespace Owned

variable {α β γ : Type} {i : Id} {ids : List Id}

/-- **Rows are put in order as if each owner were alone.** -/
theorem of_inOrder (key : α → Id) (rows : Owned α) (i : Id) :
    (rows.inOrder key).of i = (rows.of i).mergeSort fun a b => key a ≤ key b := by
  rw [of, inOrder, ← mergeSort_filter (linear_placed Prod.fst fun r => key r.2), of]
  refine List.map_mergeSort fun a ha b hb => ?_
  rw [of_decide_eq_true (List.mem_filter.1 ha).2, of_decide_eq_true (List.mem_filter.1 hb).2]
  simp

/-- Of rows that link owners to something, those of one owner. -/
theorem of_links (hi : i ∈ ids) (l : List β) (owner : β → Id) (f : β → Option γ)
    (g : β → γ → α) :
    of ((l.filter (owner · ∈ ids)).filterMap fun b => (f b).map fun c => (owner b, g b c)) i =
      (l.filter (owner · = i)).filterMap fun b => (f b).map (g b) := by
  induction l with
  | nil => rfl
  | cons b l ih =>
    by_cases hb : owner b = i
    · rw [List.filter_cons_of_pos (by simpa [hb]), List.filter_cons_of_pos (by simpa using hb),
        List.filterMap_cons, List.filterMap_cons, ← ih]
      cases f b with
      | none => rfl
      | some c => simp [of, hb]
    · have hleft : (b :: l).filter (owner · = i) = l.filter (owner · = i) :=
        List.filter_cons_of_neg (by simpa using hb)
      rw [hleft, ← ih]
      by_cases hids : owner b ∈ ids
      · rw [List.filter_cons_of_pos (by simpa using hids), List.filterMap_cons]
        cases f b with
        | none => rfl
        | some c => simp [of, hb]
      · rw [List.filter_cons_of_neg (by simpa using hids)]

end Owned

/-- What is found for rows is found under their keys, in order. -/
theorem sublist_keys_of_filterMap {α β κ : Type} {f : α → Option β} {key : β → κ} {key' : α → κ}
    (h : ∀ a b, f a = some b → key b = key' a) {l : List α} :
    ((l.filterMap f).map key).Sublist (l.map key') := by
  induction l with
  | nil => exact List.Sublist.slnil
  | cons a l ih =>
    rw [List.filterMap_cons]
    cases hf : f a with
    | none => exact ih.cons _
    | some b =>
      rw [List.map_cons, List.map_cons, h a b hf]
      exact ih.cons_cons _

/-! ## Handing out attempts -/

/-- **Each locator gets all attempts at it**, where no locator comes twice. -/
theorem handOut_eq {locators : List (UrlLocatorRow × UrlRow)}
    (h : (locators.map (·.1.id)).Nodup) (attempts : List Attempt) :
    handOut attempts locators =
      locators.map fun l => ⟨l.1, l.2, attempts.filter (·.locatorId = l.1.id)⟩ := by
  induction locators generalizing attempts with
  | nil => rfl
  | cons l locators ih =>
    obtain ⟨hl, h⟩ := List.nodup_cons.1 h
    rw [handOut, List.partition_eq_filter_filter]
    simp only [ih h, List.map_cons, List.cons.injEq, true_and]
    refine List.map_congr_left fun k hk => ?_
    -- what was taken away was tried at another locator
    have hne : k.1.id ≠ l.1.id := fun hkl => hl (List.mem_map.2 ⟨k, hk, hkl⟩)
    rw [List.filter_filter]
    congr 1
    refine List.filter_congr fun a _ => ?_
    by_cases ha : a.locatorId = k.1.id
    · simp [ha, hne]
    · simp [ha]

theorem MediaExcerptRow.id_of_decode {r : MediaExcerptRow} {e : MediaExcerpt}
    (h : r.decode = .ok e) : e.id = r.id := by
  obtain ⟨_, -, h⟩ := bind_eq_ok.1 h
  cases h
  rfl

namespace Store

variable (db : Store)

/-! ## Under one id -/

/-- The citations of a media excerpt, by source. -/
def citationsOf (excerpt : Id) : List Citation :=
  let found := (db.citations.live.filter (·.mediaExcerptId = excerpt)).filterMap fun c =>
    (db.sources.row? c.sourceId).map fun s => (⟨⟨s.id, s.description⟩, c.pincite⟩ : Citation)
  found.mergeSort fun a b => a.source.id ≤ b.source.id

/-- A media excerpt with its locators, whose attempts are among `attempts`. -/
def mediaExcerpt (attempts : List Attempt) (r : MediaExcerptRow) : Except Fault MediaExcerpt :=
  return {
    id := r.id
    quotation := r.quotation
    creatorId := r.creatorId
    created := ← Instant.decode r.created
    locators := (db.locatorsOf [r.id]).map fun (l, u) =>
      ⟨l.id, ⟨u.id, u.url⟩, .ofHistory (attempts.filter (·.locatorId = l.id))⟩
    citations := db.citationsOf r.id }

/-- The URLs attached to a writ quote, in ascending order. -/
def urlsOf (quote : Id) : List Url :=
  ((db.quoteUrls quote).mergeSort fun a b => a.id ≤ b.id).map fun u => ⟨u.id, u.url⟩

variable {db : Store} {ids : List Id} {i : Id}

theorem citationRows_of (hi : i ∈ ids) : (db.citationRows ids).of i = db.citationsOf i := by
  rw [citationRows, Owned.of_inOrder, Owned.of_links hi]
  rfl

theorem quoteUrlRows_of (hi : i ∈ ids) : (db.quoteUrlRows ids).of i = db.urlsOf i := by
  rw [quoteUrlRows, Owned.of_inOrder, Owned.of_links hi, urlsOf, quoteUrls,
    List.map_mergeSort (s := fun a b : Url => a.id ≤ b.id) (fun _ _ _ _ => rfl),
    List.map_filterMap]

theorem findUrls_eq (quotes : List Id) :
    db.findUrls quotes = (ascending quotes).map fun q => (q, db.urlsOf q) :=
  List.map_congr_left fun q hq => by rw [quoteUrlRows_of (mem_ascending.1 hq)]

/-! ## Locators -/

theorem excerpt_of_mem_locators {l : UrlLocatorRow × UrlRow} (h : l ∈ db.locators i) :
    l.1 ∈ db.urlLocators.live ∧ l.1.mediaExcerptId = i ∧ db.urls.row? l.1.urlId = some l.2 := by
  obtain ⟨r, hr, h⟩ := List.mem_filterMap.1 h
  obtain ⟨u, hu, rfl⟩ := Option.map_eq_some_iff.1 h
  obtain ⟨hr, hi⟩ := List.mem_filter.1 hr
  exact ⟨hr, of_decide_eq_true hi, hu⟩

theorem filter_locatorsOf (hi : i ∈ ids) :
    (db.locatorsOf ids).filter (·.1.mediaExcerptId = i) = db.locatorsOf [i] := by
  have howner : ∀ k, ∀ l ∈ db.locators k, l.1.mediaExcerptId = k := fun k l hl =>
    (excerpt_of_mem_locators hl).2.1
  rw [locatorsOf, ← mergeSort_filter (linear_byId fun l : UrlLocatorRow × UrlRow => l.1.id),
    filter_flatMap_eq howner (nodup_ascending ids) (mem_ascending.2 hi)]
  simp [locatorsOf, ascending, insertAscending]

theorem nodup_locatorsOf (hk : db.Keyed) (ids : List Id) :
    ((db.locatorsOf ids).map (·.1.id)).Nodup := by
  have hperm := (List.mergeSort_perm ((ascending ids).flatMap db.locators)
    fun a b => a.1.id ≤ b.1.id).map (·.1.id)
  rw [locatorsOf, hperm.nodup_iff, List.map_flatMap, List.nodup_flatMap]
  constructor
  · intro i _
    have hlive : (db.urlLocators.live.map (·.id)).Nodup := hk.urlLocators.nodup_live
    refine (hlive.sublist (List.filter_sublist.map _)).sublist (sublist_keys_of_filterMap ?_)
    intro l r hr
    obtain ⟨u, -, rfl⟩ := Option.map_eq_some_iff.1 hr
    rfl
  · refine (nodup_ascending ids).imp ?_
    rintro i k hik _ hi hm
    obtain ⟨l, hl, rfl⟩ := List.mem_map.1 hi
    obtain ⟨m, hm, hml⟩ := List.mem_map.1 hm
    obtain ⟨hl, hli, -⟩ := excerpt_of_mem_locators hl
    obtain ⟨hm, hmk, -⟩ := excerpt_of_mem_locators hm
    rw [hk.urlLocators.eq_of_id_eq hm hl hml] at hmk
    exact hik (hli.symm.trans hmk)

/-! ## Media excerpts -/

/-- The media excerpts with what is handed out to them. -/
def handedOut (db : Store) (ids : List Id) (attempts : List Attempt) (bare : List MediaExcerpt) :
    List MediaExcerpt :=
  let tried := (handOut attempts (db.locatorsOf ids)).filter fun t =>
    bare.any (·.id = t.locator.mediaExcerptId)
  bare.map (.withOwned (tried.map Tried.owned) (db.citationRows ids))

theorem findMediaExcerpts_handedOut {found : List (Id × MediaExcerpt)} :
    (db.findMediaExcerpts ids).result = .ok found ↔ ∃ attempts,
      db.history ((db.locatorsOf ids).map (·.1.id)) = .ok attempts ∧ ∃ bare,
      ((ascending ids).filterMap db.mediaExcerpts.row?).mapM MediaExcerptRow.decode = .ok bare ∧
      complete .mediaExcerpt ids ((db.handedOut ids attempts bare).map fun e => (e.id, e)) =
        .ok found := by
  simp only [findMediaExcerpts, putTogether, Logged.result_bind, bind_eq_ok, Logged.result_ofExcept,
    Logged.result_warn, exists_const, true_and]
  rfl

/-- A locator, with those of the attempts that are its own. -/
def locatorOf (attempts : List Attempt) (l : UrlLocatorRow × UrlRow) : UrlLocator :=
  ⟨l.1.id, ⟨l.2.id, l.2.url⟩, .ofHistory (attempts.filter (·.locatorId = l.1.id))⟩

theorem mediaExcerpt_eq (attempts : List Attempt) (r : MediaExcerptRow) :
    db.mediaExcerpt attempts r = do
      return {
        id := r.id
        quotation := r.quotation
        creatorId := r.creatorId
        created := ← Instant.decode r.created
        locators := (db.locatorsOf [r.id]).map (locatorOf attempts)
        citations := db.citationsOf r.id } := rfl

/-- The locators that are handed out to a media excerpt that was found. -/
theorem located_of (hk : db.Keyed) {bare : List MediaExcerpt} {e : MediaExcerpt} (he : e ∈ bare)
    (hi : e.id ∈ ids) (attempts : List Attempt) :
    Owned.of (((handOut attempts (db.locatorsOf ids)).filter fun t =>
      bare.any (·.id = t.locator.mediaExcerptId)).map Tried.owned) e.id =
        (db.locatorsOf [e.id]).map (locatorOf attempts) := by
  rw [handOut_eq (nodup_locatorsOf hk ids), Owned.of, List.filter_map, List.filter_map,
    List.filter_map, List.filter_filter, List.map_map, List.map_map, ← filter_locatorsOf hi]
  refine congrArg _ (List.filter_congr fun l _ => ?_)
  by_cases hl : l.1.mediaExcerptId = e.id
  · simpa [Tried.owned, hl] using ⟨e, he, rfl⟩
  · simp [Tried.owned, hl]

/-- **A media excerpt is handed out what it would get alone.** -/
theorem mapM_mediaExcerpt (hk : db.Keyed) {rows : List MediaExcerptRow} {bare : List MediaExcerpt}
    (hrows : ∀ r ∈ rows, r.id ∈ ids) (h : rows.mapM MediaExcerptRow.decode = .ok bare)
    (attempts : List Attempt) :
    rows.mapM (db.mediaExcerpt attempts) = .ok (db.handedOut ids attempts bare) := by
  have hbare : ∀ r ∈ rows, ∀ e, r.decode = .ok e → e ∈ bare := by
    intro r hr e he
    obtain ⟨e', he', hre⟩ := exists_mem_of_mapM h hr
    rw [he] at hre
    cases hre
    exact he'
  refine mapM_map_eq_ok (fun r hr e he => ?_) h
  have hmem := hbare r hr e he
  obtain ⟨t, ht, hre⟩ := bind_eq_ok.1 he
  cases hre
  rw [mediaExcerpt_eq, ht, ok_bind, MediaExcerpt.withOwned, located_of hk hmem (hrows r hr),
    citationRows_of (hrows r hr)]
  rfl

/-- **Media excerpts are found together as they are found alone.** -/
theorem findMediaExcerpts_eq_ok (hk : db.Keyed) {found : List (Id × MediaExcerpt)} :
    (db.findMediaExcerpts ids).result = .ok found ↔ ∃ attempts,
      db.history ((db.locatorsOf ids).map (·.1.id)) = .ok attempts ∧
      ∃ es, ((ascending ids).filterMap db.mediaExcerpts.row?).mapM (db.mediaExcerpt attempts) = .ok es ∧
      complete .mediaExcerpt ids (es.map fun e => (e.id, e)) = .ok found := by
  have hrows : ∀ r ∈ (ascending ids).filterMap db.mediaExcerpts.row?, r.id ∈ ids := by
    intro r hr
    obtain ⟨i, hi, hr⟩ := List.mem_filterMap.1 hr
    rw [show r.id = i from Table.id_of_row? hr]
    exact mem_ascending.1 hi
  rw [findMediaExcerpts_handedOut]
  refine exists_congr fun attempts => and_congr_right fun _ => ?_
  constructor
  · rintro ⟨bare, hbare, h⟩
    exact ⟨_, mapM_mediaExcerpt hk hrows hbare attempts, h⟩
  · rintro ⟨es, hes, h⟩
    obtain ⟨bare, hbare⟩ : ∃ bare, ((ascending ids).filterMap db.mediaExcerpts.row?).mapM
        MediaExcerptRow.decode = .ok bare := by
      refine exists_mapM_eq_ok fun r hr => ?_
      obtain ⟨e, -, he⟩ := exists_mem_of_mapM hes hr
      obtain ⟨t, ht, -⟩ := bind_eq_ok.1 he
      exact ⟨_, by rw [MediaExcerptRow.decode, ht]; rfl⟩
    rw [mapM_mediaExcerpt hk hrows hbare attempts] at hes
    cases hes
    exact ⟨bare, hbare, h⟩

end Store

end Rationale
