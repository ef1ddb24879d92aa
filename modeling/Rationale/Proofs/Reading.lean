/-
  Rationale — how a page is read.

  A read succeeds if and only if each of its steps does: the request is
  accepted, the database takes all statements, the rows have outlines, what they
  name is found, and the page can be assembled from it (`Reads`).

  * `LookupsFit`: the database takes the statements about what an index names;
  * `read_eq_ok`: the steps of a successful read;
  * `keyed_of_lookups`: lookups find everything under its own id;
  * `shown_of_read`: a page shows its candidates, one by one and in order;
  * `forall₂_chain_of_read`: targets are nested as far as the read comes to them.
-/
import Rationale.Proofs.Batches
import Rationale.Proofs.Chains
import Rationale.Proofs.Sending

namespace Rationale

open Time Query Store JustificationRow Sql

/-! ## Lookups -/

namespace Store

variable {db : Store} {ids : List Id} {i : Id}

/-- What is found in a list of things with their keys. -/
theorem lookup_map_eq_some {α β : Type} {key : α → Id} {value : α → β} {l : List α} {b : β}
    (h : (l.map fun a => (key a, value a)).lookup i = some b) :
    ∃ a ∈ l, key a = i ∧ value a = b := by
  obtain ⟨l₁, l₂, hl, -⟩ := List.lookup_eq_some_iff.1 h
  have hmem : (i, b) ∈ l.map fun a => (key a, value a) := by
    rw [hl]
    simp
  obtain ⟨a, ha, hab⟩ := List.mem_map.1 hmem
  exact ⟨a, ha, (Prod.mk.inj hab).1, (Prod.mk.inj hab).2⟩

theorem id_of_statement? {e : Except Fault Statement} {s : Statement}
    (he : db.statement? i = some e) (hs : e = .ok s) : s.id = i := by
  obtain ⟨r, hr, he⟩ := Option.bind_eq_some_iff.1 he
  obtain ⟨speaker, -, he⟩ := Option.bind_eq_some_iff.1 he
  cases he
  obtain ⟨_, -, hs⟩ := bind_eq_ok.1 hs
  obtain ⟨_, -, hs⟩ := bind_eq_ok.1 hs
  obtain ⟨_, -, hs⟩ := bind_eq_ok.1 hs
  cases hs
  exact Table.id_of_row? hr

theorem id_of_mediaExcerpt {as : List Attempt} {r : MediaExcerptRow} {e : MediaExcerpt}
    (h : db.mediaExcerpt as r = .ok e) : e.id = r.id := by
  obtain ⟨_, -, h⟩ := bind_eq_ok.1 h
  cases h
  rfl

theorem id_of_findStatements {found : List (Id × Statement)} (h : db.findStatements ids = .ok found)
    {s : Statement} (hs : found.lookup i = some s) : s.id = i := by
  obtain ⟨ss, -, h⟩ := bind_eq_ok.1 h
  obtain ⟨rfl, -⟩ := complete_eq_ok_iff.1 h
  obtain ⟨a, -, rfl, rfl⟩ := lookup_map_eq_some hs
  rfl

theorem id_of_findUsers {found : List (Id × UserBlurb)} (h : db.findUsers ids = .ok found)
    {u : UserBlurb} (hu : found.lookup i = some u) : u.id = i := by
  obtain ⟨rfl, -⟩ := complete_eq_ok_iff.1 h
  obtain ⟨a, -, rfl, rfl⟩ := lookup_map_eq_some hu
  rfl

theorem id_of_findMediaExcerpts {found : List (Id × MediaExcerpt)}
    (h : (db.findMediaExcerpts ids).result = .ok found) {e : MediaExcerpt}
    (he : found.lookup i = some e) : e.id = i := by
  obtain ⟨_, -, _, -, h⟩ := findMediaExcerpts_handedOut.1 h
  obtain ⟨rfl, -⟩ := complete_eq_ok_iff.1 h
  obtain ⟨a, -, rfl, rfl⟩ := lookup_map_eq_some he
  rfl

end Store

/-- The media excerpts that an index names. -/
def Index.excerptIds (ix : Index) : List Id :=
  ascending (ix.chains.map (·.1) ++ ix.paraphrasedExcerptIds)

/-- The database takes all statements that look up what an index names. -/
structure LookupsFit (db : ReadStep → Store) (ix : Index) (includeUrls : Bool) : Prop where
  excerpts : ix.excerptIds.length ≤ argumentLimit
  locators : ((excerptTables db).locatorsOf ix.excerptIds).length ≤ argumentLimit
  statements : ix.statementIds.length < argumentLimit
  users : ix.creatorIds.length ≤ argumentLimit
  quotes : includeUrls = true → ix.writQuoteIds.length ≤ argumentLimit
  urls : includeUrls = true →
    2 * (urlPairs ((urlTables db).findUrls ix.writQuoteIds)).length ≤ argumentLimit

section

variable {db : ReadStep → Store} {ix : Index} {ps : List Proposition} {includeUrls : Bool}
  {l : Lookups}

/-- URLs are only read if they are asked for. -/
theorem urlsAt_eq_ok {urls : Option (List (Id × List WritQuoteUrl))} :
    (if includeUrls then some <$> writQuoteUrlsAt db ix.writQuoteIds else .ok none) = .ok urls ↔
      (includeUrls = true → ix.writQuoteIds.length ≤ argumentLimit) ∧
      (includeUrls = true →
        2 * (urlPairs ((urlTables db).findUrls ix.writQuoteIds)).length ≤ argumentLimit) ∧
      urls = if includeUrls then some ((urlTables db).findWritQuoteUrls ix.writQuoteIds)
        else none := by
  cases includeUrls with
  | false => simp [eq_comm]
  | true =>
    simp only [if_true, map_eq_ok, writQuoteUrlsAt_eq_ok, forall_const]
    constructor
    · rintro ⟨us, ⟨hquotes, hpairs, rfl⟩, rfl⟩
      exact ⟨hquotes, hpairs, rfl⟩
    · rintro ⟨hquotes, hpairs, rfl⟩
      exact ⟨_, ⟨hquotes, hpairs, rfl⟩, rfl⟩

/-- **What lookups come to.** -/
theorem lookupsAt_eq_ok :
    (lookupsAt db ix ps includeUrls).result = .ok l ↔ LookupsFit db ix includeUrls ∧
      ∃ es, ((excerptTables db).findMediaExcerpts ix.excerptIds).result = .ok es ∧
      ∃ ss, (db .statements).findStatements ix.statementIds = .ok ss ∧
      ∃ us, (db .users).findUsers ix.creatorIds = .ok us ∧
      l = {
        propositions := fun i => ps.find? (·.id = i)
        statements := (ss.lookup ·)
        mediaExcerpts := (es.lookup ·)
        users := (us.lookup ·)
        writQuoteUrls := if includeUrls then
          some fun i => (((urlTables db).findWritQuoteUrls ix.writQuoteIds).lookup i).getD []
          else none
        chains := ix.chains } := by
  simp only [lookupsAt, Logged.result_bind, bind_eq_ok, Logged.result_ofExcept,
    Logged.result_warn, exists_const, true_and, Logged.result_pure, Except.ok.injEq,
    readStatements_eq_ok, readUsers_eq_ok, urlsAt_eq_ok]
  constructor
  · rintro ⟨es, hes, ss, ⟨hstatements, hss⟩, us, ⟨husers, hus⟩, urls, ⟨hquotes, hurls, rfl⟩, rfl⟩
    obtain ⟨hexcerpts, hlocators, hes⟩ := mediaExcerptsAt_eq_ok.1 hes
    refine ⟨⟨hexcerpts, hlocators, hstatements, husers, hquotes, hurls⟩,
      es, hes, ss, hss, us, hus, ?_⟩
    cases includeUrls <;> rfl
  · rintro ⟨h, es, hes, ss, hss, us, hus, rfl⟩
    refine ⟨es, mediaExcerptsAt_eq_ok.2 ⟨h.excerpts, h.locators, hes⟩, ss, ⟨h.statements, hss⟩,
      us, ⟨h.users, hus⟩, _, ⟨h.quotes, h.urls, rfl⟩, ?_⟩
    cases includeUrls <;> rfl

/-- **Lookups find everything under its own id.** -/
theorem keyed_of_lookups (h : (lookupsAt db ix ps includeUrls).result = .ok l) : l.Keyed := by
  obtain ⟨-, es, hes, ss, hss, us, hus, rfl⟩ := lookupsAt_eq_ok.1 h
  exact {
    propositions := fun i p hp => by simpa using List.find?_some hp
    statements := fun i s hs => Store.id_of_findStatements hss hs
    mediaExcerpts := fun i e he => Store.id_of_findMediaExcerpts hes he
    users := fun i u hu => Store.id_of_findUsers hus hu }

end

variable {db : Store} {ix : Index} {ps : List Proposition} {includeUrls : Bool} {l : Lookups}

/-! ## Pages -/

section

variable {db : ReadStep → Store} {ch : Chance} {q : PageQuery} {out : List Justification}

theorem pageAt_eq_ok (hk : (db .page).Keyed) :
    pageAt db ch q = .ok out ↔ (primaryRows q.candidates q.columns).Fits ∧
      ((db .page).page (q.use ch .page) (ch.found .listing)).mapM (db .page).outline = .ok out :=
  Fragment.send_bind_eq_ok.trans (and_congr_right' (reconstruct_primaryRows hk))

theorem targetsAt_eq_ok (hk : (db .targets).Keyed) :
    targetsAt db ch q = .ok out ↔ (targetRows q.candidates).Fits ∧
      ((db .targets).targets (q.use ch .targets)).mapM (db .targets).outline = .ok out :=
  Fragment.send_bind_eq_ok.trans (and_congr_right' (reconstruct_targetRows hk))

theorem countersAt_eq_ok (hk : (db .counters).Keyed) :
    countersAt db ch q = .ok out ↔ (counterRows q.candidates).Fits ∧
      ((db .counters).counters (q.use ch .counters)).mapM (db .counters).outline = .ok out :=
  Fragment.send_bind_eq_ok.trans (and_congr_right' (reconstruct_counterRows hk))

theorem propositionsAt_eq_ok {ps : List Proposition} :
    propositionsAt db ch q = .ok ps ↔ q.Fits ∧
      ((db .propositions).propositionRows (q.use ch .targetPropositions)
        (q.use ch .rootPropositions)).mapM PropositionRow.decode = .ok ps :=
  Fragment.send_bind_eq_ok

end

/-! ## Reads -/

/-- The steps of a read that finds something. -/
structure Reads (db : Store) (ch : Chance) (q : PageQuery) (includeUrls : Bool) (ix : Index)
    (l : Lookups) (out : List Justification) : Prop where
  taken : q.Fits
  index : IndexOf db ch q ix
  lookups : ∃ ps, (db.propositionRows (q.use ch .targetPropositions)
      (q.use ch .rootPropositions)).mapM PropositionRow.decode = .ok ps ∧
    (lookupsAt (fun _ => db) ix ps includeUrls).result = .ok l
  assembled : (ix.assemble l).result = .ok out

variable {ch : Chance} {r : Request} {q : PageQuery} {out : List Justification}
  {j : JustificationRow} {x : Justification}

theorem readAt_of_count_eq_zero {db : ReadStep → Store} (h : r.effectiveCount = 0) :
    (readAt db ch r).result = .ok [] := by
  rw [readAt, if_pos h]
  rfl

theorem read_of_count_eq_zero (h : r.effectiveCount = 0) : (db.read ch r).result = .ok [] :=
  readAt_of_count_eq_zero h

theorem isEmpty_of_outlines {js : List JustificationRow} (he : js ≠ [])
    (h : js.mapM db.outline = .ok out) : out.isEmpty = false := by
  cases out with
  | nil => exact absurd (List.forall₂_nil_right_iff.1 (mapM_eq_ok.1 h)) he
  | cons x xs => rfl

/-- The index of a page, each part of which comes from a store of its own. -/
structure IndexAt (db : ReadStep → Store) (ch : Chance) (q : PageQuery) (ix : Index) : Prop where
  page : ((db .page).page (q.use ch .page) (ch.found .listing)).mapM (db .page).outline =
    .ok ix.page
  targets : ((db .targets).targets (q.use ch .targets)).mapM (db .targets).outline = .ok ix.targets
  counters : ((db .counters).counters (q.use ch .counters)).mapM (db .counters).outline =
    .ok ix.counters

theorem IndexOf.constant (h : IndexOf db ch q ix) : IndexAt (fun _ => db) ch q ix :=
  ⟨h.page, h.targets, h.counters⟩

section

variable {db : ReadStep → Store} (hk : ∀ s, (db s).Keyed) (hq : r.compile = .ok q)

include hk hq

theorem readAt_of_empty (hfits : (primaryRows q.candidates q.columns).Fits)
    (he : (db .page).candidates (q.use ch .page) = []) : (readAt db ch r).result = .ok [] := by
  by_cases hn : r.effectiveCount = 0
  · exact readAt_of_count_eq_zero hn
  · have hpage : pageAt db ch q = .ok [] := by
      rw [pageAt_eq_ok (hk .page), (page_eq_nil_iff (hk .page)).2 he]
      exact ⟨hfits, rfl⟩
    rw [readAt, if_neg hn]
    simp only [Logged.result_bind, Logged.result_ofExcept, hq, ok_bind, hpage]
    rfl

/-- **A read comes to what is assembled**, once its steps have found something. -/
theorem readAt_of_index (hn : r.effectiveCount ≠ 0) (hfits : q.Fits)
    (he : (db .page).candidates (q.use ch .page) ≠ []) (h : IndexAt db ch q ix)
    (hps : ((db .propositions).propositionRows (q.use ch .targetPropositions)
      (q.use ch .rootPropositions)).mapM PropositionRow.decode = .ok ps)
    (hl : (lookupsAt db ix ps r.includeUrls).result = .ok l) :
    (readAt db ch r).result = (ix.assemble l).result := by
  have hpage := (pageAt_eq_ok (hk .page)).2 ⟨hfits.primaryRows, h.page⟩
  have htargets := (targetsAt_eq_ok (hk .targets)).2 ⟨hfits.targetRows, h.targets⟩
  have hcounters := (countersAt_eq_ok (hk .counters)).2 ⟨hfits.counterRows, h.counters⟩
  have hpropositions := propositionsAt_eq_ok.2 ⟨hfits, hps⟩
  have hsome : ix.page.isEmpty = false :=
    isEmpty_of_outlines (mt (page_eq_nil_iff (hk .page)).1 he) h.page
  rw [readAt, if_neg hn]
  simp only [Logged.result_bind, Logged.result_ofExcept, hq, ok_bind, hpage, hsome,
    Bool.false_eq_true, if_false, htargets, hcounters, hpropositions, hl]

end

/-- **The steps of a successful read.** -/
theorem read_eq_ok (hk : db.Keyed) (hn : r.effectiveCount ≠ 0) :
    (db.read ch r).result = .ok out ↔ ∃ q, r.compile = .ok q ∧
      ((primaryRows q.candidates q.columns).Fits ∧
          db.candidates (q.use ch .page) = [] ∧ out = [] ∨
        db.candidates (q.use ch .page) ≠ [] ∧ ∃ ix l, Reads db ch q r.includeUrls ix l out) := by
  constructor
  · intro h
    rw [Store.read, readAt, if_neg hn] at h
    simp only [Logged.result_bind, bind_eq_ok, Logged.result_ofExcept,
      @pageAt_eq_ok (fun _ => db) ch _ _ hk] at h
    obtain ⟨q, hq, page, ⟨hfits, hpage⟩, h⟩ := h
    refine ⟨q, hq, ?_⟩
    by_cases he : db.candidates (q.use ch .page) = []
    · rw [(page_eq_nil_iff hk).2 he] at hpage
      cases hpage
      cases h
      exact .inl ⟨hfits, he, rfl⟩
    · refine .inr ⟨he, ?_⟩
      rw [isEmpty_of_outlines (mt (page_eq_nil_iff hk).1 he) hpage] at h
      simp only [Bool.false_eq_true, if_false, Logged.result_bind, bind_eq_ok,
        Logged.result_ofExcept, @targetsAt_eq_ok (fun _ => db) ch _ _ hk,
        @countersAt_eq_ok (fun _ => db) ch _ _ hk, propositionsAt_eq_ok] at h
      obtain ⟨targets, ⟨-, htargets⟩, counters, ⟨-, hcounters⟩, ps, ⟨htaken, hps⟩, l, hl, h⟩ := h
      exact ⟨⟨page, targets, counters⟩, l, htaken, ⟨hpage, htargets, hcounters⟩, ⟨ps, hps, hl⟩, h⟩
  · rintro ⟨q, hq, ⟨hfits, he, rfl⟩ | ⟨he, ix, l, htaken, h, ⟨ps, hps, hl⟩, hassembled⟩⟩
    · exact readAt_of_empty (fun _ => hk) hq hfits he
    · exact (readAt_of_index (fun _ => hk) hq hn htaken he h.constant hps hl).trans hassembled

/-! ## What is read -/

namespace Reads

/-- The chains of a justification of a page and the counters that it has. -/
theorem chain_of_assembled (hk : db.Keyed) (h : Reads db ch q includeUrls ix l out)
    (hj : j ∈ IndexOf.listed db ch q) (hx : (ix.assembleWithCounters l j.id).result = .ok x) :
    x.id = j.id ∧ ∃ js, (js.map (·.id)).Nodup ∧ TargetChain (IndexOf.listed db ch q) j js ∧
      List.Forall₂ (Link (IndexOf.listed db ch q)) js x.chain := by
  obtain ⟨ps, -, hl⟩ := h.lookups
  obtain ⟨y, cs, hy, -, rfl⟩ := Index.assembleWithCounters_eq_ok.1 hx
  obtain ⟨hid, js, hnodup, hchain, hlinks⟩ :=
    IndexOf.chain_of_assembleNode hk (keyed_of_lookups hl) h.index hy hj
  refine ⟨hid, js, hnodup, hchain, ?_⟩
  -- counters are in no way part of a chain
  rw [Justification.chain_eq] at hlinks ⊢
  obtain ⟨i, is, ⟨⟨hrow, hcreated⟩, htarget⟩, his, rfl⟩ := List.forall₂_cons_right_iff.1 hlinks
  exact .cons ⟨⟨hrow, hcreated⟩, htarget⟩ his

/-- A page and the justifications it comes from, one by one and in order. -/
theorem forall₂_chain (hk : db.Keyed) (h : Reads db ch q includeUrls ix l out) :
    List.Forall₂ (fun j x => x.id = j.id ∧ ∃ js, (js.map (·.id)).Nodup ∧
      TargetChain (IndexOf.listed db ch q) j js ∧
      List.Forall₂ (Link (IndexOf.listed db ch q)) js x.chain)
      (db.page (q.use ch .page) (ch.found .listing)) out := by
  refine forall₂_comp (mapM_eq_ok.1 h.index.page) (Index.assemble_eq_ok.1 h.assembled) ?_
  intro j hj p x hp hx
  rw [id_of_outline hp] at hx
  exact h.chain_of_assembled hk (List.mem_append_left _ (List.mem_append_left _ hj)) hx

end Reads

/-- **Targets are nested as far as the read comes to them**, in every
    justification of a page. -/
theorem forall₂_chain_of_read (hk : db.Keyed) (hn : r.effectiveCount ≠ 0)
    (h : (db.read ch r).result = .ok out) : ∃ q, r.compile = .ok q ∧
      List.Forall₂ (fun j x => x.id = j.id ∧ ∃ js, (js.map (·.id)).Nodup ∧
        TargetChain (IndexOf.listed db ch q) j js ∧
        List.Forall₂ (Link (IndexOf.listed db ch q)) js x.chain)
        (db.page (q.use ch .page) (ch.found .listing)) out := by
  obtain ⟨q, hq, h⟩ := (read_eq_ok hk hn).1 h
  refine ⟨q, hq, ?_⟩
  rcases h with ⟨-, he, rfl⟩ | ⟨-, ix, l, h⟩
  · rw [(page_eq_nil_iff hk).2 he]
    exact .nil
  · exact h.forall₂_chain hk

/-- A page shows the justifications that it comes from. -/
theorem shown_of_read (hk : db.Keyed) (hn : r.effectiveCount ≠ 0)
    (h : (db.read ch r).result = .ok out) : ∃ q, r.compile = .ok q ∧
      List.Forall₂ JustificationRow.Shown (db.page (q.use ch .page) (ch.found .listing)) out := by
  obtain ⟨q, hq, h⟩ := forall₂_chain_of_read hk hn h
  refine ⟨q, hq, h.imp ?_⟩
  intro j x hx
  obtain ⟨-, js, -, hchain, hlinks⟩ := hx
  obtain ⟨rest, rfl⟩ := hchain.exists_cons
  rw [Justification.chain_eq] at hlinks
  exact (List.forall₂_cons.1 hlinks).1.toShown

/-- A page of one justification, known by its id. -/
theorem exists_single_of_ids {i : Id}
    (h : (db.read ch r).result.toOption.map (·.map (·.id)) = some [i]) :
    ∃ x, (db.read ch r).result = .ok [x] ∧ x.id = i := by
  obtain ⟨out, hout, hids⟩ := Option.map_eq_some_iff.1 h
  obtain ⟨x, xs, rfl, hx, hxs⟩ := List.map_eq_cons_iff.1 hids
  cases List.map_eq_nil_iff.1 hxs
  refine ⟨x, ?_, hx⟩
  cases hr : (db.read ch r).result with
  | error e =>
    rw [hr] at hout
    cases hout
  | ok out =>
    rw [hr] at hout
    cases hout
    rfl

/-- Justifications that may rest on one quote and be about one proposition. -/
def Store.sample (justifications : Table JustificationRow) : Store where
  users := [⟨⟨1, "Ada", "2024-01-01T00:00:00+00:00"⟩, none⟩]
  propositions := [⟨⟨1, "It rains.", 1, "2024-01-01T00:00:00+00:00"⟩, none⟩]
  writs := [⟨⟨1, "Almanac", 1, "2024-01-01T00:00:00+00:00"⟩, none⟩]
  writQuotes := [⟨⟨1, 1, "Rain.", 1, "2024-01-01T00:00:00+00:00"⟩, none⟩]
  justifications

/-- A justification of that proposition by that quote. -/
def JustificationRow.sample (i : Id) : JustificationRow :=
  ⟨i, "PROPOSITION", 1, "POSITIVE", "PROPOSITION", 1, "WRIT_QUOTE", 1, "POSITIVE", 1,
    "2024-01-01T00:00:00+00:00"⟩

/-- When it was created. -/
def Time.Instant.newYear : Instant :=
  ⟨63871286400, 0, by decide, by decide⟩

end Rationale
