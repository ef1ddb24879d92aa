/-
  Rationale — reading many is reading each.

  A reader that is asked for many ids gives what it gives when it is asked for
  each of them alone, and fails if and only if it fails for one of them, as long
  as a database takes its statements (`OneByOne`).  If it does not, the reader
  fails whatever there is under the ids.  The faults need not be the same, as
  decoding comes first.

  * `gathered_iff`: a batch is complete if there is something for every id;
  * `findStatements_iff`, `findMediaExcerpts_iff`, `findUsers_iff`,
    `findUrls_iff`: what the readers find, id by id;
  * `locatorStatus_of_excerptOf`: no locator gets the history of another;
  * `oneByOne_readers`: so reading many is reading each, and the locators of
    media excerpts have the status that they have alone.
-/
import Rationale.Proofs.Histories
import Rationale.Proofs.Limits
import Rationale.Proofs.Supplies

namespace Rationale

open Query Store Sql

variable {α ρ : Type} {ids : List Id} {i : Id}

/-! ## Batches -/

/-- Reading the ids together is reading them one by one, and is refused where they
    are too many. -/
structure OneByOne (fits : List Id → Prop) (read : List Id → Except Fault (List (Id × α)))
    (ids : List Id) : Prop where
  succeeds : (∃ found, read ids = .ok found) ↔
    fits ids ∧ ∀ i ∈ ids, ∃ found, read [i] = .ok found
  refused : ¬ fits ids → ∃ sql, read ids = .error (.tooManyArguments sql)
  keys : ∀ found, read ids = .ok found → found.map (·.1) = ascending ids
  entries : ∀ found, read ids = .ok found → ∀ i ∈ ids,
    ∃ a, found.lookup i = some a ∧ read [i] = .ok [(i, a)]

/-- There is an entry for each id, and it is what there is under that id. -/
def Entries (has : Id → α → Prop) (ids : List Id) (found : List (Id × α)) : Prop :=
  List.Forall₂ (fun i e => e.1 = i ∧ has i e.2) ids found

theorem Entries.keys {has : Id → α → Prop} {found : List (Id × α)} (h : Entries has ids found) :
    found.map (·.1) = ids := by
  induction h with
  | nil => rfl
  | cons he _ ih => rw [List.map_cons, he.1, ih]

theorem Entries.exists_lookup {has : Id → α → Prop} {found : List (Id × α)}
    (h : Entries has ids found) (hi : i ∈ ids) : ∃ a, found.lookup i = some a ∧ has i a := by
  induction h with
  | nil => cases hi
  | @cons _ e _ _ he _ ih =>
    obtain ⟨k, a⟩ := e
    obtain ⟨rfl, ha⟩ := he
    by_cases hik : i = k
    · exact ⟨a, by simp [hik], hik ▸ ha⟩
    · obtain ⟨b, hb, hib⟩ := ih ((List.mem_cons.1 hi).resolve_left hik)
      exact ⟨b, by rw [List.lookup_cons, beq_false_of_ne hik, hb], hib⟩

theorem exists_entries {has : Id → α → Prop} (h : ∀ i ∈ ids, ∃ a, has i a) :
    ∃ found, Entries has ids found := by
  induction ids with
  | nil => exact ⟨[], .nil⟩
  | cons i ids ih =>
    obtain ⟨a, ha⟩ := h i (by simp)
    obtain ⟨found, hfound⟩ := ih fun k hk => h k (List.mem_cons_of_mem i hk)
    exact ⟨(i, a) :: found, .cons ⟨rfl, ha⟩ hfound⟩

/-- **A reader that finds what there is under each id reads one by one.** -/
theorem oneByOne_of_entries {fits : List Id → Prop}
    {read : List Id → Except Fault (List (Id × α))} {has : Id → α → Prop}
    (h : ∀ ids found, read ids = .ok found ↔ fits ids ∧ Entries has (ascending ids) found)
    (hone : ∀ ids, fits ids → ∀ i ∈ ids, fits [i]) (hrefused : ¬ fits ids → Refused (read ids)) :
    OneByOne fits read ids := by
  have hsingle : ∀ {i a}, fits [i] → has i a → read [i] = .ok [(i, a)] := fun hi ha =>
    (h _ _).2 ⟨hi, .cons ⟨rfl, ha⟩ .nil⟩
  refine ⟨⟨?_, fun ⟨hfits, hall⟩ => ?_⟩, hrefused,
    fun found hfound => ((h _ _).1 hfound).2.keys, ?_⟩
  · rintro ⟨found, hfound⟩
    obtain ⟨hfits, hentries⟩ := (h _ _).1 hfound
    refine ⟨hfits, fun i hi => ?_⟩
    obtain ⟨a, -, ha⟩ := hentries.exists_lookup (mem_ascending.2 hi)
    exact ⟨_, hsingle (hone ids hfits i hi) ha⟩
  · obtain ⟨found, hfound⟩ : ∃ found, Entries has (ascending ids) found := by
      refine exists_entries fun i hi => ?_
      obtain ⟨found, hfound⟩ := hall i (mem_ascending.1 hi)
      obtain ⟨a, -, ha⟩ := ((h _ _).1 hfound).2.exists_lookup
        (mem_ascending.2 (List.mem_singleton_self i))
      exact ⟨a, ha⟩
    exact ⟨found, (h _ _).2 ⟨hfits, hfound⟩⟩
  · intro found hfound i hi
    obtain ⟨hfits, hentries⟩ := (h _ _).1 hfound
    obtain ⟨a, hlookup, ha⟩ := hentries.exists_lookup (mem_ascending.2 hi)
    exact ⟨a, hlookup, hsingle (hone ids hfits i hi) ha⟩

/-- What is read of the rows of some ids, where each has a row. -/
theorem entries_iff_of_rows {get : Id → Option ρ} {f : ρ → Except Fault α} {key : α → Id}
    (hkey : ∀ i r a, get i = some r → f r = .ok a → key a = i)
    (hrows : ∀ i ∈ ids, ∃ r, get i = some r) {found : List (Id × α)} :
    (∃ as, (ids.filterMap get).mapM f = .ok as ∧ found = as.map fun a => (key a, a)) ↔
      Entries (fun i a => ∃ r, get i = some r ∧ f r = .ok a) ids found := by
  induction ids generalizing found with
  | nil =>
    constructor
    · rintro ⟨as, h, rfl⟩
      cases h
      exact .nil
    · rintro ⟨⟩
      exact ⟨[], rfl, rfl⟩
  | cons i ids ih =>
    have ih := @ih fun k hk => hrows k (List.mem_cons_of_mem i hk)
    obtain ⟨r, hr⟩ := hrows i (by simp)
    rw [List.filterMap_cons_some hr]
    constructor
    · rintro ⟨as, h, rfl⟩
      rw [mapM_eq_ok] at h
      cases h with
      | @cons _ a _ as ha h =>
        refine .cons ⟨hkey i r a hr ha, r, hr, ha⟩ ?_
        exact ih.1 ⟨as, mapM_eq_ok.2 h, rfl⟩
    · rintro (_ | ⟨⟨rfl, r', hr', ha⟩, h⟩)
      rw [hr] at hr'
      cases hr'
      obtain ⟨as, has, rfl⟩ := ih.2 h
      refine ⟨_ :: as, mapM_eq_ok.2 (.cons ha (mapM_eq_ok.1 has)), ?_⟩
      rw [List.map_cons, hkey _ r _ hr ha]

/-- **A batch is complete if there is something for every id.** -/
theorem gathered_iff {get : Id → Option ρ} {f : ρ → Except Fault α} {key : α → Id}
    {kind : EntityKind} (hkey : ∀ i r a, get i = some r → f r = .ok a → key a = i)
    {found : List (Id × α)} :
    (∃ as, ((ascending ids).filterMap get).mapM f = .ok as ∧
      complete kind ids (as.map fun a => (key a, a)) = .ok found) ↔
      Entries (fun i a => ∃ r, get i = some r ∧ f r = .ok a) (ascending ids) found := by
  constructor
  · rintro ⟨as, has, h⟩
    obtain ⟨rfl, hall⟩ := complete_eq_ok_iff.1 h
    refine (entries_iff_of_rows hkey fun i hi => ?_).1 ⟨as, has, rfl⟩
    obtain ⟨a, ha⟩ := Option.isSome_iff_exists.1 (hall i (mem_ascending.1 hi))
    obtain ⟨-, r, hr, -⟩ := exists_find_of_lookup hkey has ha
    exact ⟨r, hr⟩
  · intro h
    have hrows : ∀ i ∈ ascending ids, ∃ r, get i = some r := by
      intro i hi
      obtain ⟨a, -, r, hr, -⟩ := h.exists_lookup hi
      exact ⟨r, hr⟩
    obtain ⟨as, has, rfl⟩ := (entries_iff_of_rows hkey hrows).2 h
    refine ⟨as, has, complete_of_mem fun i hi => ?_⟩
    obtain ⟨a, hlookup, -⟩ := h.exists_lookup (mem_ascending.2 hi)
    obtain ⟨a, ha, hai, -⟩ := lookup_map_eq_some hlookup
    exact ⟨a, ha, hai⟩

theorem Entries.congr {has has' : Id → α → Prop} {found : List (Id × α)}
    (h : ∀ i ∈ ids, ∀ a, has i a ↔ has' i a) : Entries has ids found ↔ Entries has' ids found := by
  have himp : ∀ {has has' : Id → α → Prop}, (∀ i ∈ ids, ∀ a, has i a → has' i a) →
      Entries has ids found → Entries has' ids found := by
    intro has has' hi hfound
    refine forall₂_comp (R := Eq) (List.forall₂_same.2 fun _ _ => rfl) hfound ?_
    rintro i hmem _ e rfl ⟨hei, ha⟩
    exact ⟨hei, hi i hmem _ ha⟩
  exact ⟨himp fun i hi a => (h i hi a).1, himp fun i hi a => (h i hi a).2⟩

namespace Store

variable {db : Store}

/-! ## Readers -/

theorem findStatements_iff {found : List (Id × Statement)} :
    db.findStatements ids = .ok found ↔
      Entries (fun i s => db.statement? i = some (.ok s)) (ascending ids) found := by
  rw [findStatements, bind_eq_ok, gathered_iff (f := id) fun _ _ _ => id_of_statement?]
  refine Entries.congr fun i _ s => ?_
  exact ⟨fun ⟨e, he, hs⟩ => hs ▸ he, fun hs => ⟨_, hs, rfl⟩⟩

/-- What is shown of a user. -/
def blurb (u : UserRow) : Except Fault UserBlurb :=
  .ok ⟨u.id, u.longName⟩

theorem findUsers_iff {found : List (Id × UserBlurb)} :
    db.findUsers ids = .ok found ↔
      Entries (fun i b => ∃ u, db.users.row? i = some u ∧ blurb u = .ok b) (ascending ids) found := by
  have hkey : ∀ i u b, db.users.row? i = some u → blurb u = .ok b → b.id = i := by
    rintro i u _ hu ⟨⟩
    exact Table.id_of_row? hu
  -- nothing of a user can fail to be decoded
  have hmapM : ((ascending ids).filterMap db.users.row?).mapM blurb =
      .ok (((ascending ids).filterMap db.users.row?).map fun u => ⟨u.id, u.longName⟩) :=
    List.mapM_pure
  rw [← gathered_iff hkey, hmapM]
  simp only [Except.ok.injEq, exists_eq_left', List.map_map]
  rfl

/-- **Media excerpts are found with their own histories.** -/
theorem findMediaExcerpts_iff (hk : db.Keyed) {found : List (Id × MediaExcerpt)} :
    (db.findMediaExcerpts ids).result = .ok found ↔
      Entries (fun i e => ∃ r, db.mediaExcerpts.row? i = some r ∧ db.excerptOf r = .ok e)
        (ascending ids) found := by
  have hgathered : ∀ as, db.history ((db.locatorsOf ids).map (·.1.id)) = .ok as →
      ((∃ es, ((ascending ids).filterMap db.mediaExcerpts.row?).mapM (db.mediaExcerpt as) = .ok es ∧
          complete .mediaExcerpt ids (es.map fun e => (e.id, e)) = .ok found) ↔
        Entries (fun i e => ∃ r, db.mediaExcerpts.row? i = some r ∧ db.excerptOf r = .ok e)
          (ascending ids) found) := by
    intro as has
    rw [gathered_iff fun i r e hr he => (id_of_mediaExcerpt he).trans (Table.id_of_row? hr)]
    refine Entries.congr fun i hi e => exists_congr fun r => and_congr_right fun hr => ?_
    have hmem : r.id ∈ ids := by
      rw [show r.id = i from Table.id_of_row? hr]
      exact mem_ascending.1 hi
    rw [excerptOf_of_history has hmem]
  rw [findMediaExcerpts_eq_ok hk]
  constructor
  · rintro ⟨as, has, h⟩
    exact (hgathered as has).1 h
  · intro h
    obtain ⟨as, has⟩ : ∃ as, db.history ((db.locatorsOf ids).map (·.1.id)) = .ok as := by
      refine exists_history_locators fun i hi => ?_
      obtain ⟨e, -, r, hr, he⟩ := h.exists_lookup (mem_ascending.2 hi)
      obtain ⟨as, has, -⟩ := bind_eq_ok.1 he
      rw [show r.id = i from Table.id_of_row? hr] at has
      exact ⟨as, has⟩
    exact ⟨as, has, (hgathered as has).2 h⟩

theorem findUrls_iff {found : List (Id × List Url)} :
    (.ok (db.findUrls ids) : Except Fault _) = .ok found ↔
      Entries (fun i us => db.urlsOf i = us) (ascending ids) found := by
  rw [findUrls_eq, Except.ok.injEq, Entries]
  generalize ascending ids = is
  constructor
  · rintro rfl
    rw [List.forall₂_map_right_iff]
    exact List.forall₂_same.2 fun i _ => ⟨rfl, rfl⟩
  · intro h
    induction h with
    | nil => rfl
    | cons he _ ih => rw [List.map_cons, ih, he.2, ← he.1]

/-- **A locator of a media excerpt has the status that it has alone.** -/
theorem locatorStatus_of_excerptOf (hk : db.Keyed) {r : MediaExcerptRow} {e : MediaExcerpt}
    (he : db.excerptOf r = .ok e) {l : UrlLocator} (hl : l ∈ e.locators) :
    (db.locatorStatus l.id).result = .ok l.status := by
  obtain ⟨as, has, he⟩ := bind_eq_ok.1 he
  rw [mediaExcerpt_eq] at he
  obtain ⟨t, -, he⟩ := bind_eq_ok.1 he
  cases he
  obtain ⟨k, hmem, rfl⟩ := List.mem_map.1 hl
  obtain ⟨_, -, hlocator⟩ := mem_locatorsOf.1 hmem
  have hrow : db.urlLocators.row? k.1.id = some k.1 :=
    hk.urlLocators.row?_id (excerpt_of_mem_locators hlocator).1
  have hmem' : [k.1.id] ⊆ (db.locatorsOf [r.id]).map (·.1.id) :=
    List.cons_subset.2 ⟨List.mem_map_of_mem hmem, List.nil_subset _⟩
  have hhistory := history_of_subset has hmem'
  rw [result_locatorStatus, show (locatorOf as k).id = k.1.id from rfl, locator, hrow, hhistory]
  simp only [List.mem_singleton]
  rfl

/-! ## What a database takes -/

/-- Not too many media excerpts, and not too many locators of them. -/
def ExcerptsFit (db : Store) (ids : List Id) : Prop :=
  ids.length ≤ argumentLimit ∧ (db.locatorsOf ids).length ≤ argumentLimit

theorem ExcerptsFit.single (h : db.ExcerptsFit ids) (hi : i ∈ ids) : db.ExcerptsFit [i] := by
  refine ⟨of_decide_eq_true rfl, le_trans ?_ h.2⟩
  rw [← filter_locatorsOf hi]
  exact List.length_filter_le ..

theorem oneByOne_statements (ids : List Id) :
    OneByOne (fun ids => ids.length < argumentLimit) db.readStatements ids :=
  oneByOne_of_entries
    (fun _ _ => readStatements_eq_ok.trans (and_congr_right' findStatements_iff))
    (fun _ _ _ _ => of_decide_eq_true rfl)
    fun h => (refused_send (mt fits_statementsById.1 h)).bind _

theorem oneByOne_users (ids : List Id) :
    OneByOne (fun ids => ids.length ≤ argumentLimit) db.readUsers ids :=
  oneByOne_of_entries
    (fun _ _ => readUsers_eq_ok.trans (and_congr_right' findUsers_iff))
    (fun _ _ _ _ => of_decide_eq_true rfl)
    fun h => (refused_send (mt fits_byIds.1 h)).bind _

theorem oneByOne_urls (ids : List Id) :
    OneByOne (fun ids => ids.length ≤ argumentLimit) db.readUrls ids := by
  have hfind : ∀ ids found, db.readUrls ids = .ok found ↔ ids.length ≤ argumentLimit ∧
      Entries (fun i us => db.urlsOf i = us) (ascending ids) found := by
    intro ids found
    rw [readUrls_eq_ok, ← findUrls_iff, Except.ok.injEq, eq_comm (b := found)]
  exact oneByOne_of_entries hfind (fun _ _ _ _ => of_decide_eq_true rfl)
    fun h => (refused_send (mt fits_byIds.1 h)).bind _

theorem readMediaExcerpts_iff (hk : db.Keyed) {found : List (Id × MediaExcerpt)} :
    (db.readMediaExcerpts ids).result = .ok found ↔ db.ExcerptsFit ids ∧
      Entries (fun i e => ∃ r, db.mediaExcerpts.row? i = some r ∧ db.excerptOf r = .ok e)
        (ascending ids) found := by
  rw [readMediaExcerpts, mediaExcerptsAt_eq_ok, excerptTables_const, ← findMediaExcerpts_iff hk,
    ExcerptsFit, and_assoc]

/-- All statements are sent before any row is decoded. -/
theorem refused_readMediaExcerpts (h : ¬ db.ExcerptsFit ids) :
    Refused (db.readMediaExcerpts ids).result := by
  rw [readMediaExcerpts, mediaExcerptsAt_eq]
  simp only [Logged.result_bind, Logged.result_ofExcept]
  by_cases hids : ids.length ≤ argumentLimit
  · have hlocators : ¬ ((db.locatorsOf ids).map (·.1.id)).length ≤ argumentLimit := by
      rw [List.length_map]
      exact fun hl => h ⟨hids, hl⟩
    exact Refused.sent (Refused.sent (Refused.sent
      ((refused_send (mt fits_byIds.1 hlocators)).bind _)))
  · exact (refused_send (mt fits_byIds.1 hids)).bind _

theorem oneByOne_mediaExcerpts (hk : db.Keyed) (ids : List Id) :
    OneByOne db.ExcerptsFit (fun ids => (db.readMediaExcerpts ids).result) ids :=
  oneByOne_of_entries (fun _ _ => readMediaExcerpts_iff hk) (fun _ h _ => h.single)
    refused_readMediaExcerpts

/-- Two media excerpts with a locator each, the first of which was tried. -/
def quotedTwice : Store where
  urls := [⟨⟨1, "https://rain.example", "2024-01-01T00:00:00+00:00"⟩, none⟩]
  mediaExcerpts := [
    ⟨⟨1, "Dry.", 1, "2024-01-01T00:00:00+00:00"⟩, none⟩,
    ⟨⟨2, "Wet.", 1, "2024-01-01T00:00:00+00:00"⟩, none⟩]
  urlLocators := [
    ⟨⟨1, 2, 1, "2024-01-01T00:00:00+00:00"⟩, none⟩,
    ⟨⟨2, 1, 1, "2024-01-01T00:00:00+00:00"⟩, none⟩]
  attempts := [⟨1, 1, "2024-01-02T00:00:00+00:00", "FOUND", "Wet.", none, none⟩]

end Store

end Rationale
