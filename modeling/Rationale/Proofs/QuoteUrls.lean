/-
  Rationale — the URLs of a quote.

  Where URLs are asked for, a quote that is a basis has with it the live URLs
  to which a live link attaches it, each once and in ascending order.  A URL
  has the newest live target of the quote there, and a target has its own live
  anchors, in ascending order (`Attached`).  Targets that are not the newest
  leave nothing behind, whether or not the newest has an anchor.

  * `newest_of_urlTarget?`, `urlTarget?_eq_none_iff`: what is found at a URL;
  * `Attached.unique`: there is no other list of such URLs;
  * `attached_of_read`: all quotes that are bases have their URLs.
-/
import Rationale.Proofs.References

namespace Rationale

open Query Sorting

namespace Store

variable (db : Store)

/-- The row is a live target of the quote at the URL. -/
def IsTarget (quote url : Id) (r : UrlTargetRow) : Prop :=
  r ∈ db.urlTargets.live ∧ r.writQuoteId = quote ∧ r.urlId = url

/-- `anchors` are the live anchors of a target, in ascending order. -/
def Anchored (target : Id) (anchors : List UrlTargetAnchor) : Prop :=
  ∃ rows : List AnchorRow, rows.Pairwise (fun a b => a.id < b.id) ∧
    (∀ a, a ∈ rows ↔ a ∈ db.anchors.live ∧ a.targetId = target) ∧
    anchors = rows.map AnchorRow.shown

/-- `t` is the newest live target of the quote at the URL, with its anchors. -/
structure Newest (quote url : Id) (t : UrlTarget) : Prop where
  live : ∃ r, db.IsTarget quote url r ∧ r.id = t.id
  newest : ∀ r, db.IsTarget quote url r → r.id ≤ t.id
  pair : t.pair = (quote, url)
  anchors : db.Anchored t.id t.anchors

/-- A live link attaches the URL, which is live, to the quote. -/
def Links (quote : Id) (u : Url) : Prop :=
  ∃ l ∈ db.writQuoteUrls.live, l.writQuoteId = quote ∧
    ∃ r ∈ db.urls.live, r.id = l.urlId ∧ u = ⟨r.id, r.url⟩

/-- `us` are the URLs of a quote, in ascending order, with the newest target at
    each that has one. -/
structure Attached (quote : Id) (us : List WritQuoteUrl) : Prop where
  ascending : us.Pairwise fun a b => a.url.id < b.url.id
  mem_iff : ∀ u, u ∈ us.map (·.url) ↔ db.Links quote u
  target : ∀ u ∈ us, ∀ t, u.target = some t → db.Newest quote u.url.id t
  no_target : ∀ u ∈ us, u.target = none → ∀ r, ¬ db.IsTarget quote u.url.id r

variable {db} {quote url : Id} {t : UrlTarget}

/-! ## There is no other -/

theorem Anchored.unique {target : Id} {as bs : List UrlTargetAnchor} (ha : db.Anchored target as)
    (hb : db.Anchored target bs) : as = bs := by
  obtain ⟨rows, hrows, hmem, rfl⟩ := ha
  obtain ⟨rows', hrows', hmem', rfl⟩ := hb
  rw [eq_of_pairwise_byId hrows hrows' fun a => (hmem a).trans (hmem' a).symm]

theorem Newest.unique {t' : UrlTarget} (h : db.Newest quote url t) (h' : db.Newest quote url t') :
    t = t' := by
  obtain ⟨r, hr, hrt⟩ := h.live
  obtain ⟨r', hr', hrt'⟩ := h'.live
  have hid : t.id = t'.id :=
    Int64.le_antisymm (hrt ▸ h'.newest r hr) (hrt' ▸ h.newest r' hr')
  obtain ⟨hquote, hurl⟩ := Prod.mk.inj (h.pair.trans h'.pair.symm)
  have hanchors := h.anchors
  rw [hid] at hanchors
  have heq := hanchors.unique h'.anchors
  cases t
  cases t'
  rw [UrlTarget.mk.injEq]
  exact ⟨hid, hquote, hurl, heq⟩

/-- **There is no other list of the URLs of a quote.** -/
theorem Attached.unique {us us' : List WritQuoteUrl} (h : db.Attached quote us)
    (h' : db.Attached quote us') : us = us' := by
  have hsub : ∀ {us us'}, db.Attached quote us → db.Attached quote us' → us ⊆ us' := by
    intro us us' h h' u hu
    obtain ⟨v, hv, hvu⟩ : ∃ v ∈ us', v.url = u.url :=
      List.mem_map.1 ((h'.mem_iff u.url).2 ((h.mem_iff u.url).1 (List.mem_map_of_mem hu)))
    suffices htarget : u.target = v.target by
      obtain ⟨url, target⟩ := u
      obtain ⟨_, _⟩ := v
      cases hvu
      cases htarget
      exact hv
    cases ht : u.target with
    | none =>
      cases hs : v.target with
      | none => rfl
      | some s =>
        obtain ⟨r, hr, -⟩ := (h'.target v hv s hs).live
        exact absurd (hvu ▸ hr) (h.no_target u hu ht r)
    | some t =>
      have hnewest := h.target u hu t ht
      cases hs : v.target with
      | none =>
        obtain ⟨r, hr, -⟩ := hnewest.live
        exact absurd (hvu ▸ hr) (h'.no_target v hv hs r)
      | some s => rw [hnewest.unique (hvu ▸ h'.target v hv s hs)]
  exact eq_of_pairwise_byId h.ascending h'.ascending fun u => ⟨(hsub h h' ·), (hsub h' h ·)⟩

/-! ## Targets -/

theorem anchored_anchorsOf (hk : db.Keyed) (target : Id) :
    db.Anchored target (db.anchorsOf target) := by
  have hids := hk.anchors.nodup_filter (·.targetId = target)
  refine ⟨db.anchorRowsOf target, pairwise_byId hids, fun a => ?_, rfl⟩
  rw [anchorRowsOf, List.mem_mergeSort, List.mem_filter, decide_eq_true_eq]

theorem isTarget_iff {r : UrlTargetRow} : db.IsTarget quote url r ↔
    r ∈ (db.urlTargets.live.filter fun t => t.writQuoteId = quote && t.urlId = url).mergeSort
      fun a b => b.id ≤ a.id := by
  simp [IsTarget]

theorem urlTarget?_eq_none_iff :
    db.urlTarget? quote url = none ↔ ∀ r, ¬ db.IsTarget quote url r := by
  simp only [isTarget_iff]
  rw [urlTarget?, Option.map_eq_none_iff, List.head?_eq_none_iff, List.eq_nil_iff_forall_not_mem]

/-- **What is found is the newest target**, with its anchors. -/
theorem newest_of_urlTarget? (hk : db.Keyed) (h : db.urlTarget? quote url = some t) :
    db.Newest quote url t := by
  have hsorted := pairwise_newest (hk.urlTargets.nodup_filter fun t =>
    t.writQuoteId = quote && t.urlId = url)
  have hpair := pair_of_urlTarget? (p := (quote, url)) h
  obtain ⟨r, hr, rfl⟩ := Option.map_eq_some_iff.1 h
  obtain ⟨rs, hrs⟩ := List.head?_eq_some_iff.1 hr
  rw [hrs] at hsorted
  refine ⟨⟨r, isTarget_iff.2 (List.mem_of_mem_head? hr), rfl⟩, fun s hs => ?_, hpair,
    anchored_anchorsOf hk r.id⟩
  rw [isTarget_iff, hrs] at hs
  rcases List.mem_cons.1 hs with rfl | hs
  · exact Int64.le_refl _
  · exact Int64.le_of_lt ((List.pairwise_cons.1 hsorted).1 s hs)

/-! ## URLs -/

theorem mem_urlsOf (hk : db.Keyed) {u : Url} : u ∈ db.urlsOf quote ↔ db.Links quote u := by
  simp only [urlsOf, quoteUrls, List.mem_map, List.mem_mergeSort, List.mem_filterMap,
    List.mem_filter, decide_eq_true_eq, hk.urls.row?_eq_some]
  constructor
  · rintro ⟨r, ⟨l, ⟨hl, hquote⟩, hr, hid⟩, rfl⟩
    exact ⟨l, hl, hquote, r, hr, hid, rfl⟩
  · rintro ⟨l, hl, hquote, r, hr, hid, rfl⟩
    exact ⟨r, ⟨l, ⟨hl, hquote⟩, hr, hid⟩, rfl⟩

theorem pairwise_urlsOf (hk : db.Keyed) (quote : Id) :
    (db.urlsOf quote).Pairwise fun a b => a.id < b.id := by
  have hids : ((db.quoteUrls quote).map (·.id)).Nodup := by
    have hperm := (List.mergeSort_perm (db.quoteUrls quote) fun a b => a.id ≤ b.id).map (·.id)
    have hnodup := nodup_urlsOf hk quote
    rw [urlsOf, List.map_map] at hnodup
    exact hperm.nodup_iff.1 hnodup
  exact List.pairwise_map.2 (pairwise_byId hids)

/-- **The URLs under the id of a quote are its URLs.** -/
theorem attached_writQuoteUrlsOf (hk : db.Keyed) (quote : Id) :
    db.Attached quote (db.writQuoteUrlsOf quote) where
  ascending := List.pairwise_map.2 (pairwise_urlsOf hk quote)
  mem_iff u := by
    rw [writQuoteUrlsOf, List.map_map, ← mem_urlsOf hk]
    simp
  target u hu t ht := by
    obtain ⟨v, -, rfl⟩ := List.mem_map.1 hu
    exact newest_of_urlTarget? hk ht
  no_target u hu ht := by
    obtain ⟨v, -, rfl⟩ := List.mem_map.1 hu
    exact urlTarget?_eq_none_iff.1 ht

/-! ## Bases -/

/-- A quote that is a basis has the URLs under its id, if they were asked for. -/
theorem Presents.urls_of_quote {j : JustificationRow} {x : Justification} {w : WritQuote}
    (h : db.Presents true j x) (hw : x.basis = .writQuote (.entity w)) :
    w.urls = some (db.writQuoteUrlsOf w.id) := by
  obtain ⟨y, hy, hxy, -⟩ := h
  obtain ⟨z, -, hz⟩ := hy.hydrated
  obtain ⟨_, -, _, -, b, hb, _, -, rfl⟩ := Lookups.hydrate_eq_ok.1 hz
  have hbw : b = .writQuote (.entity w) := by
    rw [← hw, hxy]
  rcases Lookups.basis_eq_ok hb with ⟨_, _, -, -, rfl⟩ | ⟨v, -, rfl⟩ | ⟨_, -, rfl⟩ | ⟨rfl, -, hne, -⟩
  · cases hbw
  · cases hbw
    rfl
  · cases hbw
  · exact absurd hbw (hne w)

end Store

variable {db : Store} {ch : Chance} {r : Request} {out : List Justification} {x y : Justification}
  {w : WritQuote}

/-- **All quotes that are bases have their URLs**, where URLs were asked for.  They
    have the live URLs of their live links, once each and in ascending order, and
    at each the newest live target with its live anchors, if there is a target. -/
theorem attached_of_read (hk : db.Keyed) (hr : r.includeUrls = true)
    (h : (db.read ch r).result = .ok out) (hx : x ∈ out) (hy : x.Includes y)
    (hw : y.basis = .writQuote (.entity w)) :
    ∃ us, w.urls = some us ∧ db.Attached w.id us := by
  obtain ⟨j, hj, hjx⟩ := exists_sketched hk h hx
  obtain ⟨k, -, hky⟩ := hjx.exists_presents hj hy
  rw [hr] at hky
  exact ⟨_, hky.urls_of_quote hw, Store.attached_writQuoteUrlsOf hk w.id⟩

/-- A quote at two URLs.  At the first it has three targets, of which the newest
    has been deleted and the one before it has no anchor. -/
def Store.annotated : Store :=
  { sample [⟨.sample 1, none⟩] with
    urls := [
      ⟨⟨1, "https://rain.example/1", "2024-01-01T00:00:00+00:00"⟩, none⟩,
      ⟨⟨2, "https://rain.example/2", "2024-01-01T00:00:00+00:00"⟩, none⟩]
    writQuoteUrls := [
      ⟨⟨1, 2, "2024-01-01T00:00:00+00:00"⟩, none⟩,
      ⟨⟨1, 1, "2024-01-01T00:00:00+00:00"⟩, none⟩]
    urlTargets := [
      ⟨⟨1, 1, 1, "2024-01-01T00:00:00+00:00"⟩, none⟩,
      ⟨⟨2, 1, 1, "2024-01-01T00:00:00+00:00"⟩, none⟩,
      ⟨⟨3, 1, 1, "2024-01-01T00:00:00+00:00"⟩, some "2024-02-01T00:00:00+00:00"⟩]
    anchors := [⟨⟨1, 1, "Rain.", "", "", 0, 5⟩, none⟩] }

theorem Store.wellFormed_annotated : annotated.WellFormed where
  keyed := by constructor <;> decide
  readable := by constructor <;> decide +kernel
  creator := by decide
  root := by decide
  target_root := by decide
  countered_root := forall_counters (by decide)
  acyclic := acyclic_of_lt (·.id) (forall_counters (by decide))
  basis_excerpt := by decide
  paraphrased_excerpt := by decide

theorem Store.small_annotated : annotated.Small := by
  constructor <;> decide

theorem Store.attached_annotated : annotated.Attached 1
    [⟨⟨1, "https://rain.example/1"⟩, some ⟨2, 1, 1, []⟩⟩,
      ⟨⟨2, "https://rain.example/2"⟩, none⟩] where
  ascending := by decide
  mem_iff u := by
    constructor
    · intro hu
      rcases List.mem_pair.1 hu with rfl | rfl <;> unfold Links <;> decide
    · rintro ⟨l, hl, hquote, r, hr, hid, rfl⟩
      revert l r
      decide
  target u hu t ht := by
    rcases List.mem_pair.1 hu with rfl | rfl
    · cases ht
      have hlast : ∀ r ∈ annotated.urlTargets.live, r.id ≤ 2 := by decide
      have hbare : ∀ a ∈ annotated.anchors.live, a.targetId ≠ 2 := by decide
      exact {
        live := ⟨⟨2, 1, 1, "2024-01-01T00:00:00+00:00"⟩, ⟨by decide, rfl, rfl⟩, rfl⟩
        newest := fun r hr => hlast r hr.1
        pair := rfl
        anchors := ⟨[], .nil, fun a =>
          ⟨(nomatch ·), fun ha => absurd ha.2 (hbare a ha.1)⟩, rfl⟩ }
    · cases ht
  no_target u hu ht r hr := by
    rcases List.mem_pair.1 hu with rfl | rfl
    · cases ht
    · obtain ⟨hlive, -, hurl⟩ := hr
      revert r
      decide

/-- What is asked for is one justification with its URLs. -/
def Query.oneWithUrls (i : Id) : Request :=
  { Store.oneRequest i with includeUrls := true }

theorem attached_of_read_annotated : Store.annotated.Keyed ∧ ∃ x w,
    (Store.annotated.read (.level .asStored) (oneWithUrls 1)).result = .ok [x] ∧
      x.basis = .writQuote (.entity w) ∧ ∃ us, w.urls = some us ∧
        us.map (fun u => (u.url.id, u.target.map (·.id))) = [(1, some 2), (2, none)] := by
  have hk := Store.wellFormed_annotated.keyed
  obtain ⟨q, hq⟩ : ∃ q, (oneWithUrls 1).compile = .ok q := exists_compile_one 1
  have htakes : Takes (fun _ => Store.annotated) (.level .asStored) (oneWithUrls 1) q :=
    Store.wellFormed_annotated.takes_of_small Store.small_annotated (fits_one hq)
  obtain ⟨out, hout⟩ := exists_page Store.wellFormed_annotated hq htakes
    (Store.findsPage_of_found_eq rfl)
  obtain ⟨q', hq', hpage⟩ := shown_of_read hk (by decide) hout
  rw [page_one hk hq'] at hpage
  obtain ⟨x, _, -, hrest, rfl⟩ := List.forall₂_cons_left_iff.1 hpage
  cases hrest
  have hmem : x ∈ [x] := List.mem_singleton.2 rfl
  obtain ⟨j, hj, hjx⟩ := exists_sketched hk hout hmem
  obtain ⟨k, hk', hkx⟩ := hjx.exists_presents hj (.self x)
  obtain rfl := List.mem_singleton.1 hk'
  obtain ⟨w, hw, hid⟩ : ∃ w, x.basis = .writQuote (.entity w) ∧ w.id = 1 := by
    have hbasis := (hkx.names hk).basis
    generalize x.basis = b at hbasis
    cases hbasis with
    | writQuote _ hw =>
      obtain ⟨w, rfl⟩ := hw.exists_entity (by decide +kernel)
      obtain ⟨row, -, hrow, hquote⟩ := hw.entity w rfl
      exact ⟨w, rfl, hquote.id.trans hrow⟩
    | propositionCompound htype | mediaExcerpt htype | mixed htype =>
      exact absurd htype (by decide)
  obtain ⟨us, hus, hattached⟩ := attached_of_read hk rfl hout hmem (.self x) hw
  rw [hid] at hattached
  refine ⟨hk, x, w, hout, hw, us, hus, ?_⟩
  rw [hattached.unique Store.attached_annotated]
  rfl

end Rationale
