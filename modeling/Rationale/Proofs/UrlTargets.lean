/-
  Rationale — the newest target of a quote at a URL.

  The targets of all quotes at all URLs come as one list of rows, a row for
  each anchor, the newest target first.  Of each quote and URL the first row
  makes the target, and then only rows of this target add to it.  So what is
  found is the newest target with all of its anchors (`urlTarget?`).

  * `UrlTarget.find?_foldl_addRow`: rows of other quotes and URLs do nothing to
    a target;
  * `urlTargetRows_eq`: the rows are those of the targets in order, and of each
    target in the order of its anchors;
  * `findUrlTargets_eq`, `findWritQuoteUrls_eq`: what the readers find.
-/
import Rationale.Proofs.Batches

namespace Rationale

open Sorting

/-! ## Adding rows -/

namespace UrlTarget

variable {ts : List UrlTarget} {t : UrlTarget} {r : TargetRow} {rows : List TargetRow}
  {p : Id × Id}

@[simp]
theorem pair_add (t : UrlTarget) (r : TargetRow) : (t.add r).pair = t.pair := by
  unfold add
  split <;> rfl

@[simp]
theorem pair_ofRow (r : UrlTargetRow) : (ofRow r).pair = r.pair := rfl

/-- What a row makes of the target of its quote and URL. -/
def joining (o : Option UrlTarget) (r : TargetRow) : Option UrlTarget :=
  some ((o.getD (ofRow r.target)).add r)

theorem find?_addRow : (addRow ts r).find? (·.pair = p) =
    if r.target.pair = p then joining (ts.find? (·.pair = p)) r else ts.find? (·.pair = p) := by
  induction ts with
  | nil =>
    rw [addRow]
    split
    · rename_i hp
      simp [hp, joining]
    · rename_i hp
      simp [hp]
  | cons t ts ih =>
    rw [addRow]
    by_cases hr : t.pair = r.target.pair
    · rw [if_pos hr]
      by_cases hp : r.target.pair = p
      · simp [hp, hr, joining]
      · simp [hp, hr]
    · rw [if_neg hr, List.find?_cons, List.find?_cons, ih]
      by_cases hp : t.pair = p
      · have hne : r.target.pair ≠ p := fun h => hr (hp.trans h.symm)
        simp [hp, hne]
      · simp [hp]

/-- **A target is made of the rows of its quote and URL alone.** -/
theorem find?_foldl_addRow : (rows.foldl addRow ts).find? (·.pair = p) =
    (rows.filter (·.target.pair = p)).foldl joining (ts.find? (·.pair = p)) := by
  induction rows generalizing ts with
  | nil => rfl
  | cons r rows ih =>
    rw [List.foldl_cons, ih, find?_addRow]
    by_cases hp : r.target.pair = p
    · rw [if_pos hp, List.filter_cons_of_pos (by simpa using hp), List.foldl_cons]
    · rw [if_neg hp, List.filter_cons_of_neg (by simpa using hp)]

/-- Rows of other targets do not add to a target. -/
theorem foldl_joining_of_other (h : ∀ r ∈ rows, r.target.id ≠ t.id) :
    rows.foldl joining (some t) = some t := by
  induction rows with
  | nil => rfl
  | cons r rows ih =>
    have hadd : t.add r = t := if_neg (Ne.symm (h r (by simp)))
    rw [List.foldl_cons, joining, Option.getD_some, hadd]
    exact ih fun r hr => h r (List.mem_cons_of_mem _ hr)

end UrlTarget

/-- The rows of a target with these anchors. -/
def UrlTargetRow.rows (t : UrlTargetRow) (anchors : List AnchorRow) : List TargetRow :=
  (orNone anchors).map fun a => ⟨t, a⟩

theorem target_of_mem_rows {t : UrlTargetRow} {anchors : List AnchorRow} {r : TargetRow}
    (h : r ∈ t.rows anchors) : r.target = t := by
  obtain ⟨a, -, rfl⟩ := List.mem_map.1 h
  rfl

/-- A target with these anchors. -/
def UrlTargetRow.shown (t : UrlTargetRow) (anchors : List AnchorRow) : UrlTarget :=
  ⟨t.id, t.writQuoteId, t.urlId, anchors.map AnchorRow.shown⟩

namespace UrlTarget

theorem add_own (t : UrlTargetRow) (as : List AnchorRow) (a : Option AnchorRow) :
    (t.shown as).add ⟨t, a⟩ = t.shown (as ++ a.toList) := by
  simp [add, UrlTargetRow.shown]

/-- The rows of a target put it together. -/
theorem foldl_joining_rows (t : UrlTargetRow) (as : List AnchorRow) :
    (t.rows as).foldl joining none = some (t.shown as) := by
  have hown : ∀ (as bs : List AnchorRow), (as.map fun a => (⟨t, some a⟩ : TargetRow)).foldl joining
      (some (t.shown bs)) = some (t.shown (bs ++ as)) := by
    intro as
    induction as with
    | nil => simp
    | cons a as ih =>
      intro bs
      rw [List.map_cons, List.foldl_cons, joining, Option.getD_some, add_own, ih]
      simp
  have hfirst : ∀ a, joining none ⟨t, a⟩ = some (t.shown a.toList) := fun a =>
    congrArg some (add_own t [] a)
  cases as with
  | nil => exact hfirst none
  | cons a as =>
    simp only [UrlTargetRow.rows, orNone, List.map_cons, List.map_map, List.foldl_cons, hfirst]
    exact hown as [a]

end UrlTarget

/-! ## Rows in order -/

theorem TargetRow.linear_notAfter : Linear TargetRow.notAfter where
  trans a b c hab hbc := by
    simp only [TargetRow.notAfter, Bool.or_eq_true, Bool.and_eq_true, decide_eq_true_eq] at *
    rcases hab with hab | ⟨hab, hab'⟩
    · rcases hbc with hbc | ⟨hbc, -⟩
      · exact .inl (Int64.lt_trans hbc hab)
      · exact .inl (hbc ▸ hab)
    · rcases hbc with hbc | ⟨hbc, hbc'⟩
      · exact .inl (hab ▸ hbc)
      · refine .inr ⟨hab.trans hbc, ?_⟩
        cases ha : a.anchor <;> cases hb : b.anchor <;> cases hc : c.anchor <;>
          simp only [ha, hb, hc, decide_eq_true_eq, Bool.false_eq_true] at *
        exact Int64.le_trans hab' hbc'
  total a b := by
    simp only [TargetRow.notAfter, Bool.or_eq_true, Bool.and_eq_true, decide_eq_true_eq]
    by_cases hid : a.target.id = b.target.id
    · rw [hid]
      cases ha : a.anchor <;> cases hb : b.anchor <;> simp [Int64.le_total]
    · exact (Int64.le_total b.target.id a.target.id).imp
        (fun h => .inl (Int64.lt_of_le_of_ne h (Ne.symm hid)))
        fun h => .inl (Int64.lt_of_le_of_ne h hid)

/-- Rows that are level are of one target and have one anchor, or none. -/
theorem TargetRow.id_eq_of_level {a b : TargetRow} (hab : a.notAfter b = true)
    (hba : b.notAfter a = true) :
    a.target.id = b.target.id ∧ a.anchor.map (·.id) = b.anchor.map (·.id) := by
  simp only [notAfter, Bool.or_eq_true, Bool.and_eq_true, decide_eq_true_eq] at hab hba
  rcases hab with hab | ⟨hid, hab⟩
  · rcases hba with hba | ⟨hid, -⟩
    · exact absurd (Int64.lt_trans hab hba) Int64.lt_irrefl
    · exact absurd (hid ▸ hab) Int64.lt_irrefl
  · rcases hba with hba | ⟨-, hba⟩
    · exact absurd (hid ▸ hba) Int64.lt_irrefl
    · refine ⟨hid, ?_⟩
      cases ha : a.anchor <;> cases hb : b.anchor <;>
        simp only [ha, hb, decide_eq_true_eq, Bool.false_eq_true] at hab hba
      · rfl
      · exact congrArg some (Int64.le_antisymm hab hba)

/-- The newest target first. -/
theorem linear_newest : Linear fun a b : UrlTargetRow => b.id ≤ a.id :=
  (linear_byId UrlTargetRow.id).flip

theorem perm_orNone {α : Type} {as bs : List α} (h : as.Perm bs) : (orNone as).Perm (orNone bs) := by
  cases as with
  | nil => rw [h.nil_eq]
  | cons a as =>
    cases bs with
    | nil => exact absurd h.eq_nil (List.cons_ne_nil a as)
    | cons b bs => exact h.map some

theorem mem_orNone {α : Type} {a : α} {as : List α} (h : some a ∈ orNone as) : a ∈ as := by
  cases as with
  | nil => simp [orNone] at h
  | cons b as => simpa [orNone] using h

theorem pairwise_rows (t : UrlTargetRow) {as : List AnchorRow}
    (h : as.Pairwise fun a b => a.id ≤ b.id) :
    (t.rows as).Pairwise fun a b => a.notAfter b = true := by
  cases as with
  | nil => exact List.pairwise_singleton _ _
  | cons a as =>
    simp only [UrlTargetRow.rows, orNone, List.pairwise_map]
    exact h.imp fun hab => by simpa [TargetRow.notAfter] using hab

namespace Store

variable (db : Store)

/-! ## Under one id -/

/-- The anchors of a target, in ascending order. -/
def anchorsOf (target : Id) : List UrlTargetAnchor :=
  ((db.anchors.live.filter (·.targetId = target)).mergeSort fun a b => a.id ≤ b.id).map fun a =>
    ⟨a.exactText, a.prefixText, a.suffixText, a.startOffset, a.endOffset⟩

/-- The newest target of a quote at a URL. -/
def urlTarget? (quote url : Id) : Option UrlTarget :=
  let targets := db.urlTargets.live.filter fun t => t.writQuoteId = quote && t.urlId = url
  (targets.mergeSort fun a b => b.id ≤ a.id).head?.map fun t =>
    ⟨t.id, t.writQuoteId, t.urlId, db.anchorsOf t.id⟩

/-- The URLs of a writ quote, with the newest target at each. -/
def writQuoteUrlsOf (quote : Id) : List WritQuoteUrl :=
  (db.urlsOf quote).map fun u => ⟨u, db.urlTarget? quote u.id⟩

variable {db : Store} {pairs : List (Id × Id)} {p : Id × Id} {quotes : List Id}

/-- The anchors of a target as stored, in ascending order. -/
def anchorRowsOf (db : Store) (target : Id) : List AnchorRow :=
  (db.anchors.live.filter (·.targetId = target)).mergeSort fun a b => a.id ≤ b.id

theorem pairwise_newest {targets : List UrlTargetRow} (h : (targets.map (·.id)).Nodup) :
    (targets.mergeSort fun a b => b.id ≤ a.id).Pairwise fun a b => b.id < a.id :=
  pairwise_mergeSort_of_nodup linear_newest (fun _ _ hab hne =>
    Int64.lt_of_le_of_ne (of_decide_eq_true hab) (Ne.symm hne)) h

/-- A row is of a live target, and its anchor is live if it has one. -/
def LiveRow (db : Store) (r : TargetRow) : Prop :=
  r.target ∈ db.urlTargets.live ∧ ∀ a ∈ r.anchor, a ∈ db.anchors.live

theorem liveRow_of_mem {targets : List UrlTargetRow} (hlive : targets ⊆ db.urlTargets.live)
    {r : TargetRow}
    (hr : r ∈ targets.flatMap fun t => t.rows (db.anchors.live.filter (·.targetId = t.id))) :
    db.LiveRow r := by
  obtain ⟨t, ht, hr⟩ := List.mem_flatMap.1 hr
  obtain ⟨a, ha, rfl⟩ := List.mem_map.1 hr
  refine ⟨hlive ht, fun b hb => ?_⟩
  obtain rfl : a = some b := hb
  exact (List.mem_filter.1 (mem_orNone ha)).1

/-- Live rows that are level are one row, as keys are unique. -/
theorem LiveRow.eq_of_level (hk : db.Keyed) {r s : TargetRow} (hr : db.LiveRow r)
    (hs : db.LiveRow s) (hrs : r.notAfter s = true) (hsr : s.notAfter r = true) : r = s := by
  obtain ⟨t, a⟩ := r
  obtain ⟨u, b⟩ := s
  obtain ⟨hid, hanchor⟩ := TargetRow.id_eq_of_level hrs hsr
  obtain rfl := hk.urlTargets.eq_of_id_eq hr.1 hs.1 hid
  cases a with
  | none =>
    cases b with
    | none => rfl
    | some b => cases hanchor
  | some a =>
    cases b with
    | none => cases hanchor
    | some b => rw [hk.anchors.eq_of_id_eq (hr.2 a rfl) (hs.2 b rfl) (Option.some.inj hanchor)]

/-- Target by target and anchor by anchor, the rows are in order. -/
theorem pairwise_targetRows {targets : List UrlTargetRow} (h : (targets.map (·.id)).Nodup) :
    ((targets.mergeSort fun a b => b.id ≤ a.id).flatMap
      fun t => t.rows (db.anchorRowsOf t.id)).Pairwise fun a b => a.notAfter b = true := by
  rw [List.pairwise_flatMap]
  constructor
  · exact fun t _ => pairwise_rows t (pairwise_le_byId AnchorRow.id _)
  · refine (pairwise_newest h).imp fun {t u} htu a ha b hb => ?_
    rw [TargetRow.notAfter, target_of_mem_rows ha, target_of_mem_rows hb, decide_eq_true htu,
      Bool.true_or]

/-- **The rows are those of the targets in order**, each with its anchors. -/
theorem urlTargetRows_eq (hk : db.Keyed) (pairs : List (Id × Id)) :
    db.urlTargetRows pairs =
      ((db.urlTargets.live.filter (·.pair ∈ pairs)).mergeSort fun a b => b.id ≤ a.id).flatMap
        fun t => t.rows (db.anchorRowsOf t.id) := by
  have hsub : (db.urlTargets.live.filter (·.pair ∈ pairs)).Sublist db.urlTargets.live :=
    List.filter_sublist
  have hids := hk.urlTargets.nodup_live.sublist (hsub.map (·.id))
  rw [urlTargetRows]
  generalize db.urlTargets.live.filter (·.pair ∈ pairs) = targets at hsub hids
  have hperm : (targets.flatMap fun t => t.rows (db.anchors.live.filter (·.targetId = t.id))).Perm
      ((targets.mergeSort fun a b => b.id ≤ a.id).flatMap fun t =>
        t.rows (db.anchorRowsOf t.id)) := by
    have hperm := List.mergeSort_perm targets fun a b => b.id ≤ a.id
    refine (List.Perm.flatMap_right _ hperm.symm).trans ?_
    refine List.Perm.flatMap_left _ fun t _ => (perm_orNone ?_).map _
    exact (List.mergeSort_perm _ _).symm
  have hlevel := fun r hr s hs => LiveRow.eq_of_level hk (r := r) (s := s)
    (liveRow_of_mem hsub.subset hr) (liveRow_of_mem hsub.subset hs)
  exact (mergeSort_eq_of_perm TargetRow.linear_notAfter hperm hlevel).trans
    (List.mergeSort_of_pairwise (pairwise_targetRows hids))

/-- The targets of one quote and URL are in the order in which they would come alone. -/
theorem filter_pair_newest (hp : p ∈ pairs) :
    ((db.urlTargets.live.filter (·.pair ∈ pairs)).mergeSort
      fun a b => b.id ≤ a.id).filter (·.pair = p) =
        (db.urlTargets.live.filter fun t => t.writQuoteId = p.1 && t.urlId = p.2).mergeSort
          fun a b => b.id ≤ a.id := by
  rw [← mergeSort_filter linear_newest, List.filter_filter]
  congr 1
  refine List.filter_congr fun t _ => ?_
  have hpair : t.pair = p ↔ t.writQuoteId = p.1 ∧ t.urlId = p.2 := Prod.ext_iff
  rw [Bool.eq_iff_iff]
  simp only [Bool.and_eq_true, decide_eq_true_eq, ← hpair, and_iff_left_iff_imp]
  exact fun h => h ▸ hp

/-- **Of each quote and URL the newest target is found**, with all of its anchors. -/
theorem find?_urlTargetRows (hk : db.Keyed) (hp : p ∈ pairs) :
    ((db.urlTargetRows pairs).foldl UrlTarget.addRow []).find? (·.pair = p) =
      db.urlTarget? p.1 p.2 := by
  have hrows : (db.urlTargetRows pairs).filter (·.target.pair = p) =
      ((db.urlTargets.live.filter fun t => t.writQuoteId = p.1 && t.urlId = p.2).mergeSort
        fun a b => b.id ≤ a.id).flatMap fun t => t.rows (db.anchorRowsOf t.id) := by
    have hpair : ∀ t : UrlTargetRow, ∀ r ∈ t.rows (db.anchorRowsOf t.id), r.target.pair = t.pair :=
      fun t r hr => by rw [target_of_mem_rows hr]
    rw [urlTargetRows_eq hk, filter_flatMap hpair (fun k => k = p), filter_pair_newest hp]
  have hnewest := pairwise_newest (hk.urlTargets.nodup_filter fun t =>
    t.writQuoteId = p.1 && t.urlId = p.2)
  rw [UrlTarget.find?_foldl_addRow, hrows, urlTarget?]
  generalize List.mergeSort _ _ = targets at hnewest ⊢
  cases targets with
  | nil => rfl
  | cons t targets =>
    rw [List.flatMap_cons, List.foldl_append, List.find?_nil, UrlTarget.foldl_joining_rows,
      UrlTarget.foldl_joining_of_other]
    · rfl
    · intro r hr
      obtain ⟨u, hu, hr⟩ := List.mem_flatMap.1 hr
      rw [target_of_mem_rows hr]
      exact Int64.ne_of_lt ((List.pairwise_cons.1 hnewest).1 u hu)

theorem mem_ascendingPairs : p ∈ ascendingPairs pairs ↔ p ∈ pairs := by
  obtain ⟨q, u⟩ := p
  simp only [ascendingPairs, List.mem_flatMap, List.mem_map, mem_ascending, List.mem_filter,
    decide_eq_true_eq, Prod.mk.injEq]
  constructor
  · rintro ⟨_, -, _, ⟨⟨_, _⟩, ⟨h, rfl⟩, rfl⟩, rfl, rfl⟩
    exact h
  · exact fun h => ⟨q, ⟨(q, u), h, rfl⟩, u, ⟨(q, u), ⟨h, rfl⟩, rfl⟩, rfl, rfl⟩

theorem findUrlTargets_eq (hk : db.Keyed) (pairs : List (Id × Id)) :
    db.findUrlTargets pairs =
      (ascendingPairs pairs).filterMap fun p => (db.urlTarget? p.1 p.2).map (p, ·) := by
  refine List.filterMap_congr fun p hp => ?_
  rw [find?_urlTargetRows hk (mem_ascendingPairs.1 hp)]

theorem pair_of_urlTarget? {t : UrlTarget} (h : db.urlTarget? p.1 p.2 = some t) : t.pair = p := by
  obtain ⟨r, hr, rfl⟩ := Option.map_eq_some_iff.1 h
  have hr := (List.mem_filter.1 (List.mem_mergeSort.1 (List.mem_of_mem_head? hr))).2
  simp only [Bool.and_eq_true, decide_eq_true_eq] at hr
  exact Prod.ext hr.1 hr.2

theorem find?_findUrlTargets (hk : db.Keyed) (hp : p ∈ pairs) :
    ((db.findUrlTargets pairs).map (·.2)).find? (·.pair = p) = db.urlTarget? p.1 p.2 := by
  have hmem : ∀ t, t ∈ (db.findUrlTargets pairs).map (·.2) ↔
      ∃ p ∈ pairs, db.urlTarget? p.1 p.2 = some t := by
    intro t
    rw [findUrlTargets_eq hk]
    simp only [List.mem_map, List.mem_filterMap, mem_ascendingPairs, Option.map_eq_some_iff]
    constructor
    · rintro ⟨_, ⟨p, hp, t, ht, rfl⟩, rfl⟩
      exact ⟨p, hp, ht⟩
    · rintro ⟨p, hp, ht⟩
      exact ⟨_, ⟨p, hp, t, ht, rfl⟩, rfl⟩
  refine Table.find?_eq_of_forall (f := fun p => db.urlTarget? p.1 p.2) (fun t ht => ?_)
    fun t ht => ⟨(hmem t).2 ⟨p, hp, ht⟩, pair_of_urlTarget? ht⟩
  obtain ⟨k, -, hk⟩ := (hmem t).1 ht
  rwa [pair_of_urlTarget? hk]

/-! ## Handing out targets -/

/-- What is taken out for one quote and URL is not missed at another. -/
theorem find?_eraseP {k : Id × Id} (h : p ≠ k) (ts : List UrlTarget) :
    (ts.eraseP (·.pair = k)).find? (·.pair = p) = ts.find? (·.pair = p) := by
  induction ts with
  | nil => rfl
  | cons t ts ih =>
    by_cases hk : t.pair = k
    · have hp : t.pair ≠ p := fun htp => h (htp.symm.trans hk)
      rw [List.eraseP_cons_of_pos (by simpa using hk), List.find?_cons_of_neg (by simpa using hp)]
    · rw [List.eraseP_cons_of_neg (by simpa using hk), List.find?_cons, List.find?_cons, ih]

/-- **Each URL of a quote gets its target**, where no URL comes twice. -/
theorem run_mapM_handTo (quote : Id) {us : List Url} (h : (us.map (·.id)).Nodup)
    (ts : List UrlTarget) :
    ∃ left, ((us.mapM (UrlTarget.handTo quote)).run ts).run =
        (us.map fun u => ⟨u, ts.find? (·.pair = (quote, u.id))⟩, left) ∧
      ∀ p, (∀ u ∈ us, p ≠ (quote, u.id)) → left.find? (·.pair = p) = ts.find? (·.pair = p) := by
  induction us generalizing ts with
  | nil => exact ⟨ts, rfl, fun _ _ => rfl⟩
  | cons u us ih =>
    obtain ⟨hu, h⟩ := List.nodup_cons.1 h
    obtain ⟨left, hrun, hleft⟩ := ih h (ts.eraseP (·.pair = (quote, u.id)))
    refine ⟨left, ?_, fun p hp => ?_⟩
    · have hrest : us.map (fun v => (⟨v, (ts.eraseP (·.pair = (quote, u.id))).find?
          (·.pair = (quote, v.id))⟩ : WritQuoteUrl)) =
            us.map fun v => ⟨v, ts.find? (·.pair = (quote, v.id))⟩ := by
        refine List.map_congr_left fun v hv => ?_
        rw [find?_eraseP]
        exact fun hvu => hu (List.mem_map.2 ⟨v, hv, congrArg Prod.snd hvu⟩)
      rw [List.mapM_cons, List.map_cons, ← hrest]
      exact congrArg (fun r : List WritQuoteUrl × List UrlTarget =>
        (⟨u, ts.find? (·.pair = (quote, u.id))⟩ :: r.1, r.2)) hrun
    · rw [hleft p fun v hv => hp v (List.mem_cons_of_mem u hv), find?_eraseP (hp u (by simp))]

/-- The same for many quotes, where none comes twice. -/
theorem run_mapM_handAllTo {urls : List (Id × List Url)} (hq : (urls.map (·.1)).Nodup)
    (hu : ∀ r ∈ urls, (r.2.map (·.id)).Nodup) (ts : List UrlTarget) :
    ((urls.mapM UrlTarget.handAllTo).run ts).run.1 = urls.map fun r =>
      (r.1, r.2.map fun u => ⟨u, ts.find? (·.pair = (r.1, u.id))⟩) := by
  induction urls generalizing ts with
  | nil => rfl
  | cons r urls ih =>
    obtain ⟨hnew, hq⟩ := List.nodup_cons.1 hq
    obtain ⟨left, hrun, hleft⟩ := run_mapM_handTo r.1 (hu r (by simp)) ts
    have hrest : urls.map (fun s => (s.1, s.2.map fun u =>
        (⟨u, left.find? (·.pair = (s.1, u.id))⟩ : WritQuoteUrl))) =
          urls.map fun s => (s.1, s.2.map fun u => ⟨u, ts.find? (·.pair = (s.1, u.id))⟩) := by
      refine List.map_congr_left fun s hs => congrArg _ (List.map_congr_left fun u _ => ?_)
      rw [hleft]
      exact fun v _ hsr => hnew (List.mem_map.2 ⟨s, hs, (Prod.mk.inj hsr).1⟩)
    rw [List.mapM_cons, List.map_cons, ← hrest,
      ← ih hq (fun s hs => hu s (List.mem_cons_of_mem r hs)) left]
    exact congrArg (fun p : List WritQuoteUrl × List UrlTarget =>
      (r.1, p.1) :: ((urls.mapM UrlTarget.handAllTo).run p.2).run.1) hrun

/-- No URL comes twice at a quote. -/
theorem nodup_urlsOf (hk : db.Keyed) (quote : Id) : ((db.urlsOf quote).map (·.id)).Nodup := by
  have hlinks : ((db.writQuoteUrls.live.filter (·.writQuoteId = quote)).map (·.urlId)).Nodup := by
    have hpairs := hk.writQuoteUrls.sublist ((Table.live_sublist_rows _).map _)
    refine List.nodup_map_iff_inj_on ?_ |>.2 fun a ha b hb hab => ?_
    · exact (List.Nodup.of_map _ hpairs).sublist List.filter_sublist
    · obtain ⟨ha, haq⟩ := List.mem_filter.1 ha
      obtain ⟨hb, hbq⟩ := List.mem_filter.1 hb
      refine List.inj_on_of_nodup_map hpairs ha hb (Prod.ext ?_ hab)
      exact (of_decide_eq_true haq).trans (of_decide_eq_true hbq).symm
  have hperm := (List.mergeSort_perm (db.quoteUrls quote) fun a b => a.id ≤ b.id).map (·.id)
  have hsub : ((db.quoteUrls quote).map (·.id)).Sublist
      ((db.writQuoteUrls.live.filter (·.writQuoteId = quote)).map (·.urlId)) :=
    sublist_keys_of_filterMap fun l u hu => Table.id_of_row? hu
  simpa [urlsOf, List.map_map, Function.comp_def] using hperm.nodup_iff.2 (hlinks.sublist hsub)

/-- **The URLs of writ quotes are found together as they are found alone.** -/
theorem findWritQuoteUrls_eq (hk : db.Keyed) (quotes : List Id) :
    db.findWritQuoteUrls quotes = (ascending quotes).map fun q => (q, db.writQuoteUrlsOf q) := by
  rw [findWritQuoteUrls, findUrls_eq, UrlTarget.handOut, run_mapM_handAllTo]
  · rw [List.map_map]
    refine List.map_congr_left fun q hq => congrArg _ (List.map_congr_left fun u hu => ?_)
    rw [find?_findUrlTargets hk]
    exact List.mem_flatMap.2 ⟨_, List.mem_map_of_mem hq, List.mem_map_of_mem hu⟩
  · simpa [List.map_map, Function.comp_def] using nodup_ascending quotes
  · intro r hr
    obtain ⟨q, -, rfl⟩ := List.mem_map.1 hr
    exact nodup_urlsOf hk q

end Store

end Rationale
