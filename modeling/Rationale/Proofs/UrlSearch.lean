/-
  Rationale — searching by URL.

  A URL finds what rests on a writ quote that a live link attaches to it, whether
  the quote is the basis or is restated by a paraphrase in it.  It also finds what
  rests on a media excerpt with a live locator at it, but only an excerpt that is
  the basis itself: the filter by excerpt goes through paraphrases, the filter by
  URL does not.

  On the command line the text of a filter is a list, and there is no way to write
  a comma that does not end a value.  So a URL can be searched if and only if it
  has none; of one that has, the parts are searched.

  * `found_by_url_iff`: what a URL finds, in terms of the other filters;
  * `not_found_through_paraphrase`: what it does not find;
  * `found_by_argument`: what the text of a URL finds on the command line;
  * `not_found_with_comma`: a URL that finds nothing there.
-/
import Rationale.Proofs.Acceptance
import Rationale.Proofs.Arguments
import Rationale.Proofs.Widening

namespace Rationale

open Query Sql

variable {db : Store} {j : JustificationRow} {name : FilterName} {raw t : String} {v : Value}
  {i : Id}

/-! ## What one value finds -/

namespace Store

/-- The filter with this value alone selects the justification. -/
def Finds (db : Store) (j : JustificationRow) (name : FilterName) (raw : String) : Prop :=
  ∃ ss, selections (Filters.only name (.one raw)) = .ok ss ∧ j ∈ db.matching ss

theorem finds_iff_leads (hv : filterValue name raw = .ok v) :
    db.Finds j name raw ↔ j ∈ db.justifications.live ∧ db.Leads j name v := by
  unfold Finds
  simp only [selections_only hv, Except.ok.injEq, exists_eq_left', mem_matching,
    List.mem_map, exists_exists_and_eq_and, selects_reaching, List.mem_singleton]
  rfl

theorem finds_iff_rests (hk : db.Keyed) (hv : filterValue name raw = .ok v) :
    db.Finds j name raw ↔ j ∈ db.justifications.live ∧ db.Rests j name v := by
  rw [finds_iff_leads hv, rests_iff hk]

theorem filterValue_url (t : String) : filterValue .url t = .ok (.text t) := rfl

/-! ## What a URL finds -/

/-- No basis is two things at once. -/
theorem not_hasParaphrase (hj : j.BasedOn .mediaExcerpt i) (s : ParaphraseRow) :
    ¬ db.HasParaphrase j s := by
  rintro ⟨-, hatom⟩
  cases hatom with
  | mk _ hbasis =>
    have htype := hj.1.symm.trans hbasis.1
    revert htype
    decide

theorem rests_quote_iff : db.Rests j .writQuoteId (.integer i) ↔
    ∃ q, db.HasQuote j q ∧ q.id = i := by
  constructor
  · intro h
    cases h with
    | quote hq => exact ⟨_, hq, rfl⟩
  · rintro ⟨q, hq, rfl⟩
    exact .quote hq

/-- An excerpt that is the basis. -/
theorem rests_excerpt_iff (hj : j.BasedOn .mediaExcerpt i) :
    db.Rests j .mediaExcerptId (.integer i) ↔ ∃ e, db.HasExcerpt j e ∧ e.id = i := by
  constructor
  · intro h
    cases h with
    | excerpt he => exact ⟨_, he, rfl⟩
    | paraphrasedExcerpt hs => exact absurd hs (not_hasParaphrase hj _)
  · rintro ⟨e, he, rfl⟩
    exact .excerpt he

/-- **What a URL finds.**  It is what is found by a writ quote that has the URL, and
    what is found by a media excerpt that has it and is the basis. -/
theorem found_by_url_iff (hk : db.Keyed) : db.Finds j .url t ↔ ∃ u ∈ db.urls.live, u.url = t ∧
    ((∃ l ∈ db.writQuoteUrls.live, l.urlId = u.id ∧
        db.Finds j .writQuoteId (Text.ofInt64 l.writQuoteId)) ∨
      ∃ l ∈ db.urlLocators.live, l.urlId = u.id ∧ j.BasedOn .mediaExcerpt l.mediaExcerptId ∧
        db.Finds j .mediaExcerptId (Text.ofInt64 l.mediaExcerptId)) := by
  have hquotes : FilterName.writQuoteId.takesIds = true := rfl
  have hexcerpts : FilterName.mediaExcerptId.takesIds = true := rfl
  simp only [finds_iff_rests hk (filterValue_url t),
    finds_iff_rests hk (filterValue_ofInt64 hquotes _),
    finds_iff_rests hk (filterValue_ofInt64 hexcerpts _), rests_quote_iff]
  constructor
  · rintro ⟨hj, h⟩
    cases h with
    | quoteUrl hq hl hlq hu hlu =>
      exact ⟨_, hu, rfl, .inl ⟨_, hl, hlu, hj, _, hq, hlq.symm⟩⟩
    | @excerptUrl e l u he hl hle hu hlu =>
      have hbasis : j.BasedOn .mediaExcerpt l.mediaExcerptId := hle ▸ he.2
      exact ⟨_, hu, rfl, .inr ⟨l, hl, hlu, hbasis, hj,
        (rests_excerpt_iff hbasis).2 ⟨e, he, hle.symm⟩⟩⟩
  · rintro ⟨u, hu, rfl, ⟨l, hl, hlu, hj, q, hq, hql⟩ | ⟨l, hl, hlu, hbasis, hj, h⟩⟩
    · exact ⟨hj, .quoteUrl hq hl hql.symm hu hlu⟩
    · obtain ⟨e, he, hel⟩ := (rests_excerpt_iff hbasis).1 h
      exact ⟨hj, .excerptUrl he hl hel.symm hu hlu⟩

/-! ## Excerpts that are restated -/

/-- Two justifications on one media excerpt with a URL: on a paraphrase that
    restates it, and on the excerpt itself. -/
def restated : Store :=
  { sample [
      ⟨{ JustificationRow.sample 1 with basisType := "JUSTIFICATION_BASIS_COMPOUND" }, none⟩,
      ⟨{ JustificationRow.sample 2 with basisType := "MEDIA_EXCERPT" }, none⟩] with
    mediaExcerpts := [⟨⟨1, "Rain is likely.", 1, "2024-01-01T00:00:00+00:00"⟩, none⟩]
    urls := [⟨⟨1, "http://a.test", "2024-01-01T00:00:00+00:00"⟩, none⟩]
    urlLocators := [⟨⟨1, 1, 1, "2024-01-01T00:00:00+00:00"⟩, none⟩]
    paraphrases := [⟨⟨1, 1, "MEDIA_EXCERPT", 1, 1, "2024-01-01T00:00:00+00:00"⟩, none⟩]
    basisCompounds := [⟨⟨1, 1, "2024-01-01T00:00:00+00:00"⟩, none⟩]
    basisAtoms := [⟨1, 1, "SOURCE_EXCERPT_PARAPHRASE", 1, 0⟩] }

theorem keyed_restated : restated.Keyed := by
  constructor <;> decide

/-- An excerpt with that URL finds it, and the URL does not. -/
theorem not_found_through_paraphrase :
    ∃ j ∈ restated.justifications.live, ∃ u ∈ restated.urls.live,
      ∃ l ∈ restated.urlLocators.live, l.urlId = u.id ∧
        restated.Finds j .mediaExcerptId (Text.ofInt64 l.mediaExcerptId) ∧
        ¬ restated.Finds j .url u.url := by
  refine ⟨{ JustificationRow.sample 1 with basisType := "JUSTIFICATION_BASIS_COMPOUND" },
    by decide, _, List.mem_singleton.2 rfl, _, List.mem_singleton.2 rfl, rfl,
    ⟨_, selections_only (filterValue_ofInt64 rfl _), by decide +kernel⟩, ?_⟩
  rintro ⟨ss, hss, hmem⟩
  rw [selections_only (filterValue_url _)] at hss
  cases hss
  revert hmem
  decide +kernel

theorem found_by_url_iff_restated : restated.Keyed ∧
    ∃ j ∈ restated.justifications.live, j.id = 2 ∧ restated.Finds j .url "http://a.test" := by
  have hbasis : JustificationRow.BasedOn
      { JustificationRow.sample 2 with basisType := "MEDIA_EXCERPT" } .mediaExcerpt 1 := ⟨rfl, rfl⟩
  have hfound : restated.Finds { JustificationRow.sample 2 with basisType := "MEDIA_EXCERPT" }
      .mediaExcerptId (Text.ofInt64 1) :=
    ⟨_, selections_only (filterValue_ofInt64 rfl _), by decide +kernel⟩
  exact ⟨keyed_restated, _, by decide, rfl, (found_by_url_iff keyed_restated).2
    ⟨_, List.mem_singleton.2 rfl, rfl, .inr ⟨_, List.mem_singleton.2 rfl, rfl, hbasis, hfound⟩⟩⟩

/-! ## A store with one URL -/

/-- A justification on a writ quote that has the URL. -/
def linked (url : String) : Store :=
  { sample [⟨.sample 1, none⟩] with
    urls := [⟨⟨1, url, "2024-01-01T00:00:00+00:00"⟩, none⟩]
    writQuoteUrls := [⟨⟨1, 1, "2024-01-01T00:00:00+00:00"⟩, none⟩] }

theorem keyed_linked (url : String) : (linked url).Keyed := by
  -- no table has more than one row
  constructor <;> first | exact List.nodup_nil | exact List.nodup_singleton _

/-- It is found by this URL only. -/
theorem found_in_linked_iff (url : String) : (linked url).Finds (.sample 1) .url t ↔ t = url := by
  rw [finds_iff_rests (keyed_linked url) (filterValue_url t)]
  have hurl : ∀ u ∈ (linked url).urls.live, u.url = url := by
    intro u hu
    obtain rfl := List.mem_singleton.1 hu
    rfl
  constructor
  · rintro ⟨-, h⟩
    cases h with
    | quoteUrl _ _ _ hu => exact hurl _ hu
    | excerptUrl _ _ _ hu => exact hurl _ hu
  · rintro rfl
    have hquote : (linked t).HasQuote (.sample 1) ⟨1, 1, "Rain.", 1, "2024-01-01T00:00:00+00:00"⟩ :=
      .basis (List.mem_singleton.2 rfl) ⟨rfl, rfl⟩
    exact ⟨List.mem_singleton.2 rfl, .quoteUrl hquote (List.mem_singleton.2 rfl) rfl
      (List.mem_singleton.2 rfl) rfl⟩

end Store

/-! ## URLs on the command line -/

namespace Query

theorem not_mem_of_mem_splitOn {sep : Char} {cs part : List Char} (h : part ∈ cs.splitOn sep) :
    sep ∉ part := by
  induction cs generalizing part with
  | nil =>
    obtain rfl := List.mem_singleton.1 h
    exact List.not_mem_nil
  | cons c cs ih =>
    rw [List.splitOn_cons_eq_if_modifyHead] at h
    split at h
    · rcases List.mem_cons.1 h with rfl | h
      · exact List.not_mem_nil
      · exact ih h
    · rename_i hc
      cases hparts : cs.splitOn sep with
      | nil => exact absurd hparts (List.splitOn_ne_nil sep cs)
      | cons first rest =>
        rw [hparts, List.modifyHead_cons] at h
        rw [hparts] at ih
        rcases List.mem_cons.1 h with rfl | h
        · rw [List.mem_cons, not_or]
          exact ⟨fun heq => hc (by rw [heq, beq_self_eq_true]), ih (by simp)⟩
        · exact ih (by simp [h])

theorem comma_not_mem_listedValues {part : String} (h : part ∈ listedValues t) :
    ',' ∉ part.toList := by
  obtain ⟨cs, hcs, rfl⟩ := List.mem_map.1 h
  rw [String.toList_ofList]
  exact not_mem_of_mem_splitOn hcs

theorem listedValues_eq_singleton (h : ',' ∉ t.toList) : listedValues t = [t] := by
  rw [listedValues, List.splitOn_eq_singleton h, List.map_singleton, String.ofList_toList]

theorem listedValues_ne_nil (t : String) : listedValues t ≠ [] := by
  rw [listedValues, ne_eq, List.map_eq_nil_iff]
  exact List.splitOn_ne_nil _ _

theorem parseFilter_url (t : String) :
    parseFilter ("url=" ++ t) = .ok (.url, .ofValues (listedValues t)) :=
  parseFilter_text .url t

end Query

/-- The request of one filter. -/
theorem PageOptions.request_filter (s : Settings) {value : FilterValue}
    (h : parseFilter t = .ok (name, value)) :
    PageOptions.request { filters := [t] } s = .ok {
      filters := Filters.only name value
      count := s.defaultCount
      includeUrls := s.includeUrls } := by
  refine request_eq_ok.2 ⟨_, addArgs_filter_cons.2 ⟨name, value, h, rfl⟩, _, rfl, ?_⟩
  rw [Bool.false_or]
  rfl

/-- A request for URLs has a query, and selects what one of the URLs finds. -/
theorem matching_of_urls {r : Request} {vs : List String}
    (hfilters : r.filters = Filters.only .url (.ofValues vs)) (hsorts : r.sorts = [])
    (hfirst : r.isContinuation = false) (hne : vs ≠ []) : ∃ q, r.compile = .ok q ∧
      ∀ db j, j ∈ Store.matching db q.selections ↔ ∃ t ∈ vs, Store.Finds db j .url t := by
  have hvalue : ∀ name value, r.filters name = some value ↔
      name = .url ∧ value = .ofValues vs := by
    intro name value
    rw [hfilters]
    exact Filters.only_eq_some_iff
  have hmeaningful : r.Meaningful := by
    refine ⟨by simp [hsorts], by simp [hsorts], fun name value h => ?_, fun name value h => ?_,
      fun h => absurd h (by simp [hfirst])⟩
    · obtain ⟨-, rfl⟩ := (hvalue name value).1 h
      rwa [FilterValue.values_ofValues]
    · obtain ⟨rfl, -⟩ := (hvalue name value).1 h
      exact fun hids => nomatch hids
  obtain ⟨q, hq⟩ := (exists_compile_iff r).2 hmeaningful
  refine ⟨q, hq, fun db j => ?_⟩
  obtain ⟨cs, -, ss, hss, c, -, rfl⟩ := compile_eq_ok.1 hq
  rw [selections_of_some ((hvalue _ _).2 ⟨rfl, rfl⟩)] at hss
  simp only [Store.mem_matching, Store.exists_selects_iff hss, hvalue,
    Store.finds_iff_leads (Store.filterValue_url _)]
  constructor
  · rintro ⟨hj, name, value, ⟨rfl, rfl⟩, t, ht, v, hv, hleads⟩
    rw [FilterValue.values_ofValues] at ht
    cases hv
    exact ⟨t, ht, hj, hleads⟩
  · rintro ⟨t, ht, hj, hleads⟩
    refine ⟨hj, .url, .ofValues vs, ⟨rfl, rfl⟩, t, ?_, .text t, rfl, hleads⟩
    rwa [FilterValue.values_ofValues]

/-- **What the text of a URL finds on the command line.**  It gives a request that
    is accepted, which selects what is found by a part of the text between commas;
    and in every store this is what the URL finds if and only if it has no comma. -/
theorem found_by_argument (t : String) (s : Settings) : ∃ o r q,
    Invocation.parse ["justifications", "--filter", "url=" ++ t] =
      .ok ⟨"warrant.toml", .justifications o⟩ ∧ o.request s = .ok r ∧ r.compile = .ok q ∧
    (∀ db j, j ∈ Store.matching db q.selections ↔
      ∃ part ∈ listedValues t, db.Finds j .url part) ∧
    ((∀ db j, j ∈ Store.matching db q.selections ↔ db.Finds j .url t) ↔ ',' ∉ t.toList) := by
  have hparse := Invocation.parse_filterFlags ["url=" ++ t] fun text htext => by
    obtain rfl := List.mem_singleton.1 htext
    exact ⟨_, _, parseFilter_url t⟩
  have hrequest := PageOptions.request_filter s (parseFilter_url t)
  obtain ⟨q, hq, hmatching⟩ := matching_of_urls (r := {
    filters := Filters.only .url (.ofValues (listedValues t))
    count := s.defaultCount
    includeUrls := s.includeUrls }) rfl rfl rfl (listedValues_ne_nil t)
  refine ⟨_, _, q, hparse, hrequest, hq, hmatching, ?_⟩
  constructor
  · intro h hcomma
    have hfound := (Store.found_in_linked_iff t).2 (rfl : t = t)
    obtain ⟨part, hpart, hfinds⟩ := (hmatching _ _).1 ((h _ _).2 hfound)
    obtain rfl := (Store.found_in_linked_iff t).1 hfinds
    exact comma_not_mem_listedValues hpart hcomma
  · intro hcomma db j
    rw [hmatching, listedValues_eq_singleton hcomma]
    simp

theorem not_found_with_comma : ∃ o r q,
    Invocation.parse ["justifications", "--filter", "url=http://a.test/x,y"] =
      .ok ⟨"warrant.toml", .justifications o⟩ ∧ o.request {} = .ok r ∧ r.compile = .ok q ∧
    (Store.linked "http://a.test/x,y").Finds (.sample 1) .url "http://a.test/x,y" ∧
      Store.matching (Store.linked "http://a.test/x,y") q.selections = [] := by
  have hparse := Invocation.parse_filterFlags ["url=http://a.test/x,y"] fun text htext => by
    obtain rfl := List.mem_singleton.1 htext
    exact ⟨_, _, parseFilter_url "http://a.test/x,y"⟩
  exact ⟨_, _, _, hparse, rfl, rfl, (Store.found_in_linked_iff _).2 rfl, by decide +kernel⟩

end Rationale
