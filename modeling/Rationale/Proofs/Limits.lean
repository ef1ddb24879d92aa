/-
  Rationale — reads that are too large for a database.

  A read of well-formed stores comes to its end or to a statement that the
  database refuses.  It is known beforehand which: a statement about the page has
  as many arguments as the request has values, and a lookup has as many as there
  is to be looked up (`Takes`).

  * `Growing.sound_pageAt` and its like: each statement is refused, or it finds
    what there is;
  * `Growing.readAt_of_not_takes`: the first that is refused ends the read;
  * `Growing.takes_of_small`: no lookup is refused if no table has more rows than
    a statement may have arguments.
-/
import Rationale.Proofs.Companions
import Rationale.Proofs.Growing
import Rationale.Proofs.Selection

namespace Rationale

open Query Store Sql

variable {α β : Type}

/-! ## Refused statements -/

/-- The run ends at a statement that the database does not take. -/
def Refused (x : Except Fault α) : Prop :=
  ∃ sql, x = .error (.tooManyArguments sql)

/-- The run comes to its end unless a statement is refused. -/
def Sound (x : Except Fault α) : Prop :=
  (∃ a, x = .ok a) ∨ Refused x

section

variable {x : Except Fault α} {f : α → Except Fault β} {s : Fragment}

theorem Refused.bind (h : Refused x) (f : α → Except Fault β) : Refused (x >>= f) := by
  obtain ⟨sql, rfl⟩ := h
  exact ⟨sql, rfl⟩

theorem refused_send (h : ¬ s.Fits) : Refused s.send :=
  ⟨s.sql, Fragment.send_of_not_fits h⟩

theorem sound_ok (a : α) : Sound (.ok a : Except Fault α) :=
  .inl ⟨a, rfl⟩

theorem Sound.bind (hx : Sound x) (hf : ∀ a, x = .ok a → Sound (f a)) : Sound (x >>= f) := by
  rcases hx with ⟨a, rfl⟩ | hx
  · exact hf a rfl
  · exact .inr (hx.bind f)

/-- What is refused is refused at last, whatever was sent before. -/
theorem Refused.sent (hx : Refused x) : Refused (s.send >>= fun _ => x) := by
  by_cases hs : s.Fits
  · rwa [Fragment.send_of_fits hs, ok_bind]
  · exact (refused_send hs).bind _

/-- What is sound is sound once a statement was sent. -/
theorem Sound.sent (hx : Sound x) : Sound (s.send >>= fun _ => x) := by
  by_cases hs : s.Fits
  · rwa [Fragment.send_of_fits hs, ok_bind]
  · exact .inr ((refused_send hs).bind _)

theorem Sound.map {g : α → β} (hx : Sound x) : Sound (g <$> x) := by
  rcases hx with ⟨a, rfl⟩ | ⟨sql, rfl⟩
  · exact sound_ok (g a)
  · exact .inr ⟨sql, rfl⟩

end

/-! ## Statements of a read -/

/-- The database takes all statements of a read: that of the page and, if this
    finds something, those about the page and those that look up what it names. -/
structure Takes (db : ReadStep → Store) (ch : Chance) (r : Request) (q : PageQuery) : Prop where
  page : r.effectiveCount ≠ 0 → (primaryRows q.candidates q.columns).Fits
  about : (db .page).candidates (q.use ch .page) ≠ [] → q.Fits
  lookups : (db .page).candidates (q.use ch .page) ≠ [] →
    ∀ ix, IndexAt db ch q ix → LookupsFit db ix r.includeUrls

theorem IndexAt.unique {db : ReadStep → Store} {ch : Chance} {q : PageQuery} {ix ix' : Index}
    (h : IndexAt db ch q ix) (h' : IndexAt db ch q ix') : ix = ix' := by
  have hpage := h.page.symm.trans h'.page
  have htargets := h.targets.symm.trans h'.targets
  have hcounters := h.counters.symm.trans h'.counters
  cases ix
  cases ix'
  simp_all

/-- A page that has no room finds nothing. -/
theorem candidates_of_count_eq_zero {db : Store} {ch : Chance} {r : Request} {q : PageQuery}
    (hq : r.compile = .ok q) (hn : r.effectiveCount = 0) : db.candidates (q.use ch .page) = [] := by
  obtain ⟨cs, -, ss, -, c, -, rfl⟩ := compile_eq_ok.1 hq
  rw [candidates, PageQuery.use, hn, List.take_zero]

namespace Growing

variable {db : ReadStep → Store} {ch : Chance} {r : Request} {q : PageQuery} {ix : Index}

variable (hg : Growing db)

include hg

theorem sound_pageAt (ch : Chance) (q : PageQuery) : Sound (pageAt db ch q) := by
  obtain ⟨ix, h⟩ := hg.exists_index ch q
  exact Sound.sent (.inl ⟨_, (reconstruct_primaryRows (hg.keyed .page)).2 h.page⟩)

theorem sound_targetsAt (ch : Chance) (q : PageQuery) : Sound (targetsAt db ch q) := by
  obtain ⟨ix, h⟩ := hg.exists_index ch q
  exact Sound.sent (.inl ⟨_, (reconstruct_targetRows (hg.keyed .targets)).2 h.targets⟩)

theorem sound_countersAt (ch : Chance) (q : PageQuery) : Sound (countersAt db ch q) := by
  obtain ⟨ix, h⟩ := hg.exists_index ch q
  exact Sound.sent (.inl ⟨_, (reconstruct_counterRows (hg.keyed .counters)).2 h.counters⟩)

theorem sound_propositionsAt (ch : Chance) (q : PageQuery) : Sound (propositionsAt db ch q) :=
  Sound.sent (.inl (hg.exists_propositions ..))

/-- What an index names is found, as far as statements are taken. -/
theorem sound_lookupsAt (h : IndexAt db ch q ix) (ps : List Proposition) (includeUrls : Bool) :
    Sound (lookupsAt db ix ps includeUrls).result := by
  have hknows := hg.knows h
  have hexcerpts := exists_findMediaExcerpts_of_knows hg.readable fun x hx => (hknows x hx).1
  have hstatements := exists_findStatements_of_knows hg.readable fun x hx => (hknows x hx).2.1
  have husers := exists_findUsers_of_knows fun x hx => (hknows x hx).2.2
  simp only [lookupsAt, mediaExcerptsAt_eq, readStatements, readUsers, writQuoteUrlsAt_eq,
    Logged.result_bind, Logged.result_ofExcept, Logged.result_warn, ok_bind]
  refine Sound.bind ?_ fun _ _ => Sound.bind ?_ fun _ _ => Sound.bind ?_ fun _ _ =>
    Sound.bind ?_ fun _ _ => sound_ok _
  · exact Sound.sent (Sound.sent (Sound.sent (Sound.sent (.inl hexcerpts))))
  · exact Sound.sent (.inl hstatements)
  · exact Sound.sent (.inl husers)
  · split
    · exact (Sound.sent (Sound.sent (sound_ok _))).map
    · exact sound_ok none

/-- **A statement that is refused ends the read**, unless an earlier one does. -/
theorem readAt_of_not_takes (hq : r.compile = .ok q) (h : ¬ Takes db ch r q) :
    Refused (readAt db ch r).result := by
  have hn : r.effectiveCount ≠ 0 := fun hn => by
    have he : (db .page).candidates (q.use ch .page) = [] := candidates_of_count_eq_zero hq hn
    exact h ⟨fun hn' => absurd hn hn', absurd he, absurd he⟩
  rw [readAt, if_neg hn]
  simp only [Logged.result_bind, Logged.result_ofExcept, hq, ok_bind]
  rcases hg.sound_pageAt ch q with ⟨page, hpage⟩ | hpage
  swap
  · exact hpage.bind _
  rw [hpage, ok_bind]
  obtain ⟨hfits, hpage⟩ := (pageAt_eq_ok (hg.keyed .page)).1 hpage
  by_cases he : (db .page).candidates (q.use ch .page) = []
  · exact absurd ⟨fun _ => hfits, absurd he, absurd he⟩ h
  rw [isEmpty_of_outlines (mt (page_eq_nil_iff (hg.keyed .page)).1 he) hpage]
  simp only [Bool.false_eq_true, if_false, Logged.result_bind, Logged.result_ofExcept]
  rcases hg.sound_targetsAt ch q with ⟨targets, htargets⟩ | htargets
  swap
  · exact htargets.bind _
  rw [htargets, ok_bind]
  rcases hg.sound_countersAt ch q with ⟨counters, hcounters⟩ | hcounters
  swap
  · exact hcounters.bind _
  rw [hcounters, ok_bind]
  rcases hg.sound_propositionsAt ch q with ⟨ps, hps⟩ | hps
  swap
  · exact hps.bind _
  rw [hps, ok_bind]
  have hindex : IndexAt db ch q ⟨page, targets, counters⟩ :=
    ⟨hpage, ((targetsAt_eq_ok (hg.keyed .targets)).1 htargets).2,
      ((countersAt_eq_ok (hg.keyed .counters)).1 hcounters).2⟩
  rcases hg.sound_lookupsAt hindex ps r.includeUrls with ⟨l, hl⟩ | hl
  swap
  · exact hl.bind _
  have hlookups := (lookupsAt_eq_ok.1 hl).1
  exact absurd ⟨fun _ => hfits, fun _ => (propositionsAt_eq_ok.1 hps).1,
    fun _ ix' h' => h'.unique hindex ▸ hlookups⟩ h

end Growing

/-! ## Small stores -/

namespace Store

variable {db : Store} {ch : Chance} {r : Request} {q : PageQuery} {ix : Index} {ids : List Id}

/-- No table has more rows than a statement about them has arguments. -/
structure Small (db : Store) : Prop where
  justifications : db.justifications.rows.length ≤ argumentLimit
  statements : db.statements.rows.length < argumentLimit
  users : db.users.rows.length ≤ argumentLimit
  mediaExcerpts : db.mediaExcerpts.rows.length ≤ argumentLimit
  urlLocators : db.urlLocators.rows.length ≤ argumentLimit
  writQuoteUrls : 2 * db.writQuoteUrls.rows.length ≤ argumentLimit

/-- There are no more ids than rows that have them. -/
theorem length_le_of_live {α : Type} [HasId α] {t : Table α} (hids : ids.Nodup)
    (h : ∀ i ∈ ids, ∃ a ∈ t.live, HasId.id a = i) : ids.length ≤ t.rows.length := by
  have hsub : ids ⊆ t.rows.map HasId.id := fun i hi => by
    obtain ⟨a, ha, rfl⟩ := h i hi
    exact List.mem_map_of_mem ((Table.live_sublist_rows t).subset ha)
  have hle := (hids.subperm hsub).length_le
  rwa [List.length_map] at hle

theorem length_locatorsOf_le (hk : db.Keyed) (ids : List Id) :
    (db.locatorsOf ids).length ≤ db.urlLocators.rows.length := by
  rw [← List.length_map (f := fun l : UrlLocatorRow × UrlRow => l.1.id)]
  refine length_le_of_live (nodup_locatorsOf hk ids) fun i hi => ?_
  obtain ⟨l, hl, rfl⟩ := List.mem_map.1 hi
  obtain ⟨e, -, hl⟩ := mem_locatorsOf.1 hl
  exact ⟨l.1, (excerpt_of_mem_locators hl).1, rfl⟩

theorem nodup_urlPairs (hk : db.Keyed) (quotes : List Id) :
    (urlPairs (db.findUrls quotes)).Nodup := by
  rw [findUrls_eq, urlPairs, List.flatMap_map, List.nodup_flatMap]
  constructor
  · intro q _
    have hids := (nodup_urlsOf hk q).map (f := fun i => (q, i)) fun _ _ h => (Prod.mk.inj h).2
    rwa [List.map_map] at hids
  · refine (nodup_ascending quotes).imp fun {q q'} hne p hp hp' => ?_
    obtain ⟨u, -, rfl⟩ := List.mem_map.1 hp
    obtain ⟨u', -, heq⟩ := List.mem_map.1 hp'
    exact hne (Prod.mk.inj heq).1.symm

theorem mem_urlPairs {quotes : List Id} {p : Id × Id} :
    p ∈ urlPairs (db.findUrls quotes) ↔ p.1 ∈ quotes ∧ ∃ u ∈ db.urlsOf p.1, u.id = p.2 := by
  rw [findUrls_eq, urlPairs, List.flatMap_map, List.mem_flatMap]
  constructor
  · rintro ⟨q, hq, hp⟩
    obtain ⟨u, hu, rfl⟩ := List.mem_map.1 hp
    exact ⟨mem_ascending.1 hq, u, hu, rfl⟩
  · rintro ⟨hq, u, hu, hup⟩
    exact ⟨p.1, mem_ascending.2 hq, List.mem_map.2 ⟨u, hu, by rw [hup]⟩⟩

theorem length_urlPairs_le (hk : db.Keyed) (quotes : List Id) :
    (urlPairs (db.findUrls quotes)).length ≤ db.writQuoteUrls.rows.length := by
  have hsub : urlPairs (db.findUrls quotes) ⊆
      db.writQuoteUrls.rows.map fun l => (l.writQuoteId, l.urlId) := by
    intro p hp
    obtain ⟨-, u, hu, hup⟩ := mem_urlPairs.1 hp
    obtain ⟨r, hr, rfl⟩ := List.mem_map.1 hu
    obtain ⟨l, hl, hlr⟩ := List.mem_filterMap.1 (List.mem_mergeSort.1 hr)
    obtain ⟨hl, hlq⟩ := List.mem_filter.1 hl
    refine List.mem_map.2 ⟨l, (Table.live_sublist_rows _).subset hl, ?_⟩
    have hrl : r.id = l.urlId := Table.id_of_row? hlr
    exact Prod.ext (of_decide_eq_true hlq) (hrl.symm.trans hup)
  have hle := ((nodup_urlPairs hk quotes).subperm hsub).length_le
  rwa [List.length_map] at hle

theorem length_writQuoteIds_le (h : ix.Outlines db) :
    ix.writQuoteIds.length ≤ db.justifications.rows.length := by
  have hids : ix.ids.length ≤ db.justifications.rows.length :=
    length_le_of_live (nodup_ascending _) fun i hi => by
      obtain ⟨-, -, j, hj, hji, -⟩ := h.of_mem_ids hi
      exact ⟨j, hj, hji⟩
  refine le_trans ?_ hids
  have hsub : ix.writQuoteIds ⊆ _ := fun i hi => mem_ascending.1 hi
  exact (((nodup_ascending _).subperm hsub).length_le.trans (List.length_filterMap_le ..)).trans
    (List.length_filterMap_le ..)

end Store

namespace Growing

variable {db : ReadStep → Store} {ch : Chance} {r : Request} {q : PageQuery} {ix : Index}

variable (hg : Growing db) (hs : ∀ s, (db s).Small)

include hg hs

/-- **No lookup is refused in small stores.** -/
theorem lookupsFit_of_small (h : IndexAt db ch q ix) (includeUrls : Bool) :
    LookupsFit db ix includeUrls where
  excerpts := by
    refine le_trans (length_le_of_live (nodup_ascending _) fun i hi => ?_)
      (hs .mediaExcerpts).mediaExcerpts
    obtain ⟨x, hx, hi⟩ := Index.mem_excerptIds.1 hi
    exact (hg.knows h x hx).1.excerpts i hi
  locators := le_trans (length_locatorsOf_le (hg.keyed .locators) _) (hs .locators).urlLocators
  statements := by
    refine lt_of_le_of_lt (length_le_of_live (nodup_ascending _) fun i hi => ?_)
      (hs .statements).statements
    obtain ⟨x, hx, hi⟩ := Index.mem_statementIds.1 hi
    obtain ⟨e, he⟩ := (hg.knows h x hx).2.1.statements i hi
    obtain ⟨s, hs, -⟩ := Option.bind_eq_some_iff.1 he
    exact ⟨s, Table.mem_live_of_row? hs, Table.id_of_row? hs⟩
  users := by
    refine le_trans (length_le_of_live (nodup_ascending _) fun i hi => ?_) (hs .users).users
    obtain ⟨x, hx, rfl⟩ := Index.mem_creatorIds.1 hi
    exact (hg.knows h x hx).2.2.creator
  quotes _ := le_trans (length_writQuoteIds_le (hg.outlines h)) (hs .counters).justifications
  urls _ := le_trans (Nat.mul_le_mul_left 2 (length_urlPairs_le (hg.keyed .urls) _))
    (hs .urls).writQuoteUrls

/-- A database takes all statements of a read from small stores, if it takes those
    about the page. -/
theorem takes_of_small (hfits : q.Fits) : Takes db ch r q where
  page _ := hfits.primaryRows
  about _ := hfits
  lookups _ _ h := hg.lookupsFit_of_small hs h _

end Growing

theorem Store.WellFormed.takes_of_small {db : Store} {ch : Chance} {r : Request} {q : PageQuery}
    (hw : db.WellFormed) (hs : db.Small) (hfits : q.Fits) : Takes (fun _ => db) ch r q :=
  hw.growing.takes_of_small (fun _ => hs) hfits

end Rationale
