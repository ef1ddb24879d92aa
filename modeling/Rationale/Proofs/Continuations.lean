/-
  Rationale — going through all pages while the store changes.

  A walk reads a first page and then continues each page after its last
  justification, every time from the store as it is then (`Walk`).  Rows may
  come and go in between, as long as what stays keeps its sort columns
  (`Steady`).

  * `page_of_first`, `page_of_next`: what each page is (`PageOf`);
  * `Walk.pairwise_rows`: page after page the order goes on;
  * `Walk.met_or_full_of_always`: a row that is always there is met, or else the
    pages are full of rows before it;
  * `pages_of_walk`: nothing comes twice, and when a page is short nothing that
    was there all the time has been missed.
-/
import Mathlib.Data.List.Sort
import Mathlib.Tactic.IntervalCases
import Rationale.Proofs.Pages
import Rationale.Proofs.Timestamps

namespace Rationale

open Query Sql Time

/-! ## Boundaries -/

/-- The text gives the value that the justification has in the column. -/
def Justification.Gives (x : Justification) (k : Column) (v : String) : Prop :=
  match k.kind with
  | .integer => ∃ n, Text.int64? v = some n ∧ x.row.sortRow k = .integer n
  | .text => x.row.sortRow k = .text v
  | .timestamp => Instant.read v = .ok x.created

namespace Justification

variable {x : Justification} {k : Column} {v : String}

/-- Numbers can be given as they are written. -/
theorem gives_integer {n : Int64} (hk : k.kind = .integer) (h : x.row.sortRow k = .integer n) :
    x.Gives k (Text.ofInt64 n) := by
  rw [Gives, hk]
  exact ⟨n, Text.int64?_text n, h⟩

/-- A timestamp can be given as it is shown. -/
theorem gives_json (h0 : 0 ≤ x.created.year) (h9 : x.created.year ≤ 9999) :
    x.Gives .created x.created.json :=
  Instant.read_json h0 h9

/-- The boundary is the value as stored, however it is given. -/
theorem boundary_of_gives {d : SortColumn} (hv : d.value = some v) (h : x.Gives d.column v) :
    d.boundary = .ok (x.row.sortRow d.column) := by
  unfold Gives at h
  rw [SortColumn.boundary, hv]
  cases hk : d.column.kind with
  | integer =>
    rw [hk] at h
    obtain ⟨n, hn, h⟩ := h
    simp only [hn, h]
  | text =>
    rw [hk] at h
    simp only [h]
  | timestamp =>
    rw [hk] at h
    have hcol : d.column = .created := by
      cases hc : d.column <;> rw [hc] at hk <;> cases hk
    simp only [h, hcol, JustificationRow.sortRow, row]

end Justification

/-- The request continues `r`, whose columns are `cs`, after the justification. -/
structure Query.Request.Continues (r' r : Request) (cs : List SortColumn) (last : Justification) :
    Prop where
  filters : r'.filters = r.filters
  count : r'.count = r.count
  isContinuation : r'.isContinuation = true
  sorts : ∃ cs', resolve r'.sorts = .ok cs' ∧
    cs'.map (fun d => (d.column, d.direction)) = cs.map (fun d => (d.column, d.direction)) ∧
    ∀ d ∈ cs', ∃ v, d.value = some v ∧ last.Gives d.column v

/-! ## Rows of pages -/

variable {db : Store} {ch : Chance} {r r' : Request} {cs : List SortColumn}
  {out : List Justification} {last : Justification} {i j : JustificationRow}

/-- Timestamps are in the form in which the store writes them. -/
def Store.Stamped (db : Store) : Prop :=
  ∀ j ∈ db.justifications.live, ∃ t : Instant, j.created = t.stored

theorem JustificationRow.Shown.row_eq {x : Justification} (h : j.Shown x)
    (hj : ∃ t : Instant, j.created = t.stored) : x.row = j := by
  obtain ⟨t, ht⟩ := hj
  have hx := h.created
  rw [ht] at hx
  rw [h.row, Instant.eq_of_read_stored hx, createdAt, ← ht]

theorem JustificationRow.rows_of_shown {js : List JustificationRow} {xs : List Justification}
    (h : List.Forall₂ Shown js xs) (hjs : ∀ j ∈ js, ∃ t : Instant, j.created = t.stored) :
    xs.map (·.row) = js := by
  induction h with
  | nil => rfl
  | @cons j x js xs hjx _ ih =>
    rw [List.map_cons, hjx.row_eq (hjs j (by simp)), ih fun i hi => hjs i (by simp [hi])]

/-- What is returned is the page as it is stored. -/
theorem rows_of_read (hk : db.Keyed) (ht : db.Stamped) (hn : 0 < r.effectiveCount)
    (h : (db.read ch r).result = .ok out) :
    ∃ q, r.compile = .ok q ∧
      out.map (·.row) = db.page (q.use ch .page) (ch.found .listing) := by
  obtain ⟨q, hq, hshown⟩ := shown_of_read hk (Nat.ne_of_gt hn) h
  exact ⟨q, hq, JustificationRow.rows_of_shown hshown
    fun j hj => ht j (Store.live_of_mem_page hj)⟩

namespace JustificationRow

/-- The order of the columns. -/
def Before (cs : List SortColumn) (i j : JustificationRow) : Prop :=
  comesBefore cs i.sortRow j.sortRow = true

theorem Before.trans {k : JustificationRow} (hij : Before cs i j) (hjk : Before cs j k) :
    Before cs i k :=
  comesBefore_trans hij hjk

end JustificationRow

open JustificationRow (Before)

/-- The rows are the first `n` of the matching rows that are `after` something. -/
structure PageOf (db : Store) (r : Request) (cs : List SortColumn) (after : JustificationRow → Prop)
    (rows : List JustificationRow) : Prop where
  sorted : rows.Pairwise (Before cs)
  mem : ∀ j ∈ rows, j ∈ db.justifications.live ∧ db.Matches j r.filters ∧ after j
  full : ∀ j ∈ db.justifications.live, db.Matches j r.filters → after j →
    j ∈ rows ∨ rows.length = r.effectiveCount ∧ ∀ i ∈ rows, Before cs i j

/-- An element of a list in order is among the first `n`, or these are `n` and before it. -/
theorem mem_take_or {α : Type} {R : α → α → Prop} {l : List α} (h : l.Pairwise R) (n : ℕ) {a : α}
    (ha : a ∈ l) : a ∈ l.take n ∨ (l.take n).length = n ∧ ∀ b ∈ l.take n, R b a := by
  by_cases hn : a ∈ l.take n
  · exact .inl hn
  rw [← List.take_append_drop n l] at ha h
  have hd : a ∈ l.drop n := (List.mem_append.1 ha).resolve_left hn
  refine .inr ⟨?_, fun b hb => (List.pairwise_append.1 h).2.2 b hb a hd⟩
  have hlong : n < l.length := by
    rw [← Nat.not_le]
    intro hle
    rw [List.drop_eq_nil_of_le hle] at hd
    cases hd
  rw [List.length_take, Nat.min_eq_left (Nat.le_of_lt hlong)]

/-- The first of the eligible rows are a page of them. -/
theorem pageOf_of_eligible {q : PageQuery} {after : JustificationRow → Prop} (hk : db.Keyed)
    (hid : ∃ d ∈ q.columns, d.column = .justificationId)
    (hcs : ∀ a b, comesBefore q.columns a b = comesBefore cs a b)
    (hmem : ∀ j, j ∈ db.eligible q ↔
      (j ∈ db.justifications.live ∧ db.Matches j r.filters) ∧ after j)
    (hlimit : q.limit = r.effectiveCount) :
    PageOf db r cs after (db.page (q.use ch .page) (ch.found .listing)) := by
  have hunique : Store.Unique q.columns (· ∈ db.eligible q) :=
    Store.unique_of_id hk hid fun j => Store.live_of_mem_eligible
  have hstrict : (db.eligible q).Pairwise (Before cs) :=
    (Store.pairwise_eligible hk hunique).imp fun {i j} hij => by rwa [hcs] at hij
  rw [Store.page_eq_take hk hunique, hlimit]
  refine ⟨hstrict.take, ?_, ?_⟩
  · intro j hj
    obtain ⟨⟨hlive, hmatch⟩, hafter⟩ := (hmem j).1 (List.mem_of_mem_take hj)
    exact ⟨hlive, hmatch, hafter⟩
  · intro j hj hmatch hafter
    exact mem_take_or hstrict _ ((hmem j).2 ⟨⟨hj, hmatch⟩, hafter⟩)

/-- **A first page.** -/
theorem page_of_first (hk : db.Keyed) (ht : db.Stamped) (hn : 0 < r.effectiveCount)
    (hc : r.isContinuation = false) (hs : resolve r.sorts = .ok cs)
    (hid : ∃ d ∈ cs, d.column = .justificationId) (h : (db.read ch r).result = .ok out) :
    PageOf db r cs (fun _ => True) (out.map (·.row)) := by
  obtain ⟨q, hq, hrows⟩ := rows_of_read hk ht hn h
  have hcols := columns_of_compile hq hs
  rw [hrows]
  refine pageOf_of_eligible hk (by rwa [hcols]) (fun a b => by rw [hcols]) (fun j => ?_)
    (limit_of_compile hq)
  rw [Store.mem_eligible_first hk hq hc, and_true]

/-- **A page that continues another one.** -/
theorem page_of_next (hk : db.Keyed) (ht : db.Stamped) (hn : 0 < r.effectiveCount)
    (hid : ∃ d ∈ cs, d.column = .justificationId) (hr : r'.Continues r cs last)
    (h : (db.read ch r').result = .ok out) :
    PageOf db r cs (Before cs last.row) (out.map (·.row)) := by
  obtain ⟨cs', hs, hcols, hgives⟩ := hr.sorts
  have heff : r'.effectiveCount = r.effectiveCount := by
    rw [Request.effectiveCount, hr.count, Request.effectiveCount]
  obtain ⟨q, hq, hrows⟩ := rows_of_read hk ht (by rwa [heff]) h
  have hqcols := columns_of_compile hq hs
  have hbounded : BoundedBy cs' last.row.sortRow := by
    intro d hd
    obtain ⟨v, hv, hgive⟩ := hgives d hd
    exact Justification.boundary_of_gives hv hgive
  rw [hrows]
  refine pageOf_of_eligible hk ?_ (fun a b => ?_) (fun j => ?_) (by rw [limit_of_compile hq, heff])
  · obtain ⟨d, hd, hdid⟩ := hid
    have hmem : (d.column, d.direction) ∈ cs'.map fun d => (d.column, d.direction) := by
      rw [hcols]
      exact List.mem_map_of_mem hd
    obtain ⟨d', hd', hdd⟩ := List.mem_map.1 hmem
    rw [hqcols]
    exact ⟨d', hd', by rw [(Prod.mk.inj hdd).1, hdid]⟩
  · rw [hqcols]
    exact comesBefore_eq_of_map hcols a b
  · rw [Store.mem_eligible_next hk hq hr.isContinuation hs hbounded
      (fun d _ => last.row.sortRow_ne_null d.column), hr.filters, comesBefore_eq_of_map hcols]
    rfl

/-! ## Walks -/

/-- The pages `P` are read one after the other from the stores `D`, the first
    for the request `r` and the others after the last justification before.  What
    each of the reads leaves to chance is `C`. -/
structure Walk (cs : List SortColumn) (r : Request) (D : ℕ → Store) (C : ℕ → Chance)
    (R : ℕ → Request) (P : ℕ → List Justification) (K : ℕ) : Prop where
  columns : resolve r.sorts = .ok cs
  start : r.isContinuation = false
  first : R 0 = r
  next : ∀ k < K, ∃ last, (P k).getLast? = some last ∧ (R (k + 1)).Continues r cs last
  read : ∀ k ≤ K, ((D k).read (C k) (R k)).result = .ok (P k)

/-- What may change from store to store: a live row keeps its sort columns. -/
structure Steady (cs : List SortColumn) (D : ℕ → Store) (K : ℕ) : Prop where
  keyed : ∀ k ≤ K, (D k).Keyed
  stamped : ∀ k ≤ K, (D k).Stamped
  same : ∀ k ≤ K, ∀ l ≤ K, ∀ i ∈ (D k).justifications.live, ∀ j ∈ (D l).justifications.live,
    i.id = j.id → SameKey cs i.sortRow j.sortRow

/-- What has been returned up to the page `k`. -/
def returned (P : ℕ → List Justification) (k : ℕ) : List Justification :=
  (List.range (k + 1)).flatMap P

/-- A row comes after all pages before the page `k`. -/
def AfterPage (cs : List SortColumn) (P : ℕ → List Justification) :
    ℕ → JustificationRow → Prop
  | 0, _ => True
  | k + 1, j => ∀ last, (P k).getLast? = some last → Before cs last.row j

section

variable {D : ℕ → Store} {C : ℕ → Chance} {R : ℕ → Request} {P : ℕ → List Justification} {K k : ℕ}
  {x : Justification}

theorem returned_zero (P : ℕ → List Justification) : returned P 0 = P 0 := by
  simp [returned]

theorem returned_succ (P : ℕ → List Justification) (k : ℕ) :
    returned P (k + 1) = returned P k ++ P (k + 1) := by
  rw [returned, List.range_succ, List.flatMap_append, ← returned, List.flatMap_singleton]

theorem mem_returned : x ∈ returned P k ↔ ∃ l ≤ k, x ∈ P l := by
  simp only [returned, List.mem_flatMap, List.mem_range, Nat.lt_succ_iff]

theorem getLast?_returned (h : (P k).getLast? = some x) : (returned P k).getLast? = some x := by
  cases k with
  | zero => rwa [returned_zero]
  | succ k => rw [returned_succ, List.getLast?_append, h, Option.some_or]

theorem eq_or_before_of_getLast? {α : Type} {S : α → α → Prop} {l : List α} {a b : α}
    (h : l.Pairwise S) (hl : l.getLast? = some a) (hb : b ∈ l) : b = a ∨ S b a := by
  obtain ⟨ys, rfl⟩ := List.getLast?_eq_some_iff.1 hl
  rcases List.mem_append.1 hb with hb | hb
  · exact .inr ((List.pairwise_append.1 h).2.2 b hb a (by simp))
  · exact .inl (List.mem_singleton.1 hb)

namespace Walk

variable (hw : Walk cs r D C R P K) (hd : Steady cs D K) (hn : 0 < r.effectiveCount)
  (hid : ∃ d ∈ cs, d.column = .justificationId)

include hw hd hn hid

/-- **Each page of a walk.** -/
theorem page (hk : k ≤ K) : PageOf (D k) r cs (AfterPage cs P k) ((P k).map (·.row)) := by
  cases k with
  | zero =>
    have h := hw.read 0 hk
    rw [hw.first] at h
    exact page_of_first (hd.keyed 0 hk) (hd.stamped 0 hk) hn hw.start hw.columns hid h
  | succ k =>
    obtain ⟨last, hlast, hr⟩ := hw.next k hk
    have hafter : AfterPage cs P (k + 1) = Before cs last.row := by
      funext j
      simp [AfterPage, hlast]
    rw [hafter]
    exact page_of_next (hd.keyed _ hk) (hd.stamped _ hk) hn hid hr (hw.read _ hk)

/-- **Page after page the order goes on.** -/
theorem pairwise_rows (hk : k ≤ K) : ((returned P k).map (·.row)).Pairwise (Before cs) := by
  induction k with
  | zero =>
    rw [returned_zero]
    exact (hw.page hd hn hid hk).sorted
  | succ k ih =>
    have hsorted := ih (Nat.le_of_succ_le hk)
    have hpage := hw.page hd hn hid hk
    obtain ⟨last, hlast, -⟩ := hw.next k hk
    rw [returned_succ, List.map_append, List.pairwise_append]
    refine ⟨hsorted, hpage.sorted, ?_⟩
    intro i hi j hj
    have hj' : Before cs last.row j := (hpage.mem j hj).2.2 last hlast
    have hlast' : ((returned P k).map (·.row)).getLast? = some last.row := by
      rw [List.getLast?_map, getLast?_returned hlast, Option.map_some]
    rcases eq_or_before_of_getLast? hsorted hlast' hi with rfl | hi
    · exact hj'
    · exact hi.trans hj'

/-- What is returned was there. -/
theorem live_of_mem_returned (hk : k ≤ K) {j : JustificationRow}
    (hj : j ∈ (returned P k).map (·.row)) :
    ∃ l ≤ k, j ∈ (D l).justifications.live ∧ (D l).Matches j r.filters := by
  obtain ⟨x, hx, rfl⟩ := List.mem_map.1 hj
  obtain ⟨l, hl, hx⟩ := mem_returned.1 hx
  obtain ⟨hlive, hmatch, -⟩ :=
    (hw.page hd hn hid (Nat.le_trans hl hk)).mem _ (List.mem_map_of_mem hx)
  exact ⟨l, hl, hlive, hmatch⟩

theorem nodup_ids (hk : k ≤ K) : ((returned P k).map (·.id)).Nodup := by
  have hrows : ((returned P k).map (·.id)) = ((returned P k).map (·.row)).map (·.id) := by
    rw [List.map_map]
    rfl
  rw [hrows, List.Nodup, List.pairwise_map]
  refine (hw.pairwise_rows hd hn hid hk).imp_of_mem fun {i j} hi hj hij heq => ?_
  obtain ⟨l, hl, hi, -⟩ := hw.live_of_mem_returned hd hn hid hk hi
  obtain ⟨m, hm, hj, -⟩ := hw.live_of_mem_returned hd hn hid hk hj
  have hsame := hd.same l (Nat.le_trans hl hk) m (Nat.le_trans hm hk) i hi j hj heq
  rw [Before, not_comesBefore_of_sameKey hsame] at hij
  cases hij

/-- A row that comes after the pages before is on this page, if there is room. -/
theorem met_or_full {i : JustificationRow} (hk : k ≤ K) (hi : i ∈ (D k).justifications.live)
    (hmatch : (D k).Matches i r.filters) (hafter : AfterPage cs P k i) :
    i.id ∈ (returned P k).map (·.id) ∨
      (P k).length = r.effectiveCount ∧ ∀ x ∈ P k, Before cs x.row i := by
  rcases (hw.page hd hn hid hk).full i hi hmatch hafter with hmem | ⟨hlen, hbefore⟩
  · obtain ⟨x, hx, rfl⟩ := List.mem_map.1 hmem
    exact .inl (List.mem_map_of_mem (f := (·.id)) (mem_returned.2 ⟨k, Nat.le_refl k, hx⟩))
  · rw [List.length_map] at hlen
    exact .inr ⟨hlen, fun x hx => hbefore _ (List.mem_map_of_mem hx)⟩

/-- **A row that is always there is met**, or else the pages are full of rows
    before it. -/
theorem met_or_full_of_always {i : Id} {j : ℕ → JustificationRow}
    (hlive : ∀ k ≤ K, j k ∈ (D k).justifications.live) (hi : ∀ k ≤ K, (j k).id = i)
    (hmatch : ∀ k ≤ K, (D k).Matches (j k) r.filters) (hk : k ≤ K) :
    i ∈ (returned P k).map (·.id) ∨
      (P k).length = r.effectiveCount ∧ ∀ x ∈ P k, Before cs x.row (j k) := by
  induction k with
  | zero =>
    rw [← hi 0 hk]
    exact hw.met_or_full hd hn hid hk (hlive 0 hk) (hmatch 0 hk) trivial
  | succ k ih =>
    have hk' : k ≤ K := Nat.le_of_succ_le hk
    rcases ih hk' with hmem | ⟨-, hbefore⟩
    · rw [returned_succ, List.map_append, List.mem_append]
      exact .inl (.inl hmem)
    · rw [← hi _ hk]
      refine hw.met_or_full hd hn hid hk (hlive _ hk) (hmatch _ hk) ?_
      intro last hlast
      -- the row may have been written anew, but its key is what it was
      have hsame : SameKey cs (j k).sortRow (j (k + 1)).sortRow :=
        hd.same k hk' (k + 1) hk _ (hlive k hk') _ (hlive _ hk) (by rw [hi k hk', hi _ hk])
      have hlast' := hbefore last (List.mem_of_getLast? hlast)
      rw [Before, comesBefore_congr (fun _ _ => rfl) hsame] at hlast'
      exact hlast'

end Walk

instance : Std.Irrefl (Before cs) where
  irrefl i h := by
    rw [Before, comesBefore_irrefl] at h
    cases h

instance : Std.Antisymm (Before cs) where
  antisymm i j hij hji := by
    rw [Before, comesBefore_asymm hij] at hji
    cases hji

namespace Walk

variable (hw : Walk cs r D C R P K) (hd : Steady cs D K) (hn : 0 < r.effectiveCount)
  (hid : ∃ d ∈ cs, d.column = .justificationId) (hshort : (P K).length < r.effectiveCount)

include hw hd hn hid hshort

/-- **Nothing that was there all the time is missed.** -/
theorem mem_returned_of_always {i : Id}
    (hi : ∀ k ≤ K, ∃ j ∈ (D k).justifications.live, j.id = i ∧ (D k).Matches j r.filters) :
    i ∈ (returned P K).map (·.id) := by
  obtain ⟨j₀, -⟩ := hi 0 (Nat.zero_le K)
  have hne : Nonempty JustificationRow := ⟨j₀⟩
  choose! j hlive hid' hmatch using hi
  rcases hw.met_or_full_of_always hd hn hid hlive hid' hmatch (Nat.le_refl K) with hmem | ⟨hfull, -⟩
  · exact hmem
  · omega

/-- From a store that does not change everything is returned as it is there. -/
theorem rows_of_constant (hconst : ∀ k ≤ K, D k = D 0) {L : List JustificationRow}
    (hL : ∀ j, j ∈ L ↔ j ∈ (D 0).justifications.live ∧ (D 0).Matches j r.filters)
    (hsorted : L.Pairwise (Before cs)) : (returned P K).map (·.row) = L := by
  have hrows := hw.pairwise_rows hd hn hid (Nat.le_refl K)
  have hmem : ∀ j ∈ (returned P K).map (·.row),
      j ∈ (D 0).justifications.live ∧ (D 0).Matches j r.filters := by
    intro j hj
    obtain ⟨l, hl, hlive⟩ := hw.live_of_mem_returned hd hn hid (Nat.le_refl K) hj
    rwa [hconst l hl] at hlive
  refine hrows.eq_of_mem_iff hsorted ?_
  intro j
  refine ⟨fun hj => (hL j).2 (hmem j hj), ?_⟩
  intro hj
  obtain ⟨hlive, hmatch⟩ := (hL j).1 hj
  have hreturned : j.id ∈ (returned P K).map (·.id) := by
    refine hw.mem_returned_of_always hd hn hid hshort ?_
    intro k hk
    rw [hconst k hk]
    exact ⟨j, hlive, rfl, hmatch⟩
  obtain ⟨x, hx, hxj⟩ := List.mem_map.1 hreturned
  have hrow : x.row ∈ (returned P K).map (·.row) := List.mem_map_of_mem hx
  rwa [← (hd.keyed 0 (Nat.zero_le K)).justifications.eq_of_id_eq (hmem _ hrow).1 hlive hxj]

end Walk

/-- **Pages that continue each other go through a changing store.**  Nothing is
    returned twice, and page after page in the order of the columns.  Once a
    page is short, everything that was there all the time has been returned,
    and if the store has not changed, this is the list of all that matches. -/
theorem pages_of_walk (hw : Walk cs r D C R P K) (hd : Steady cs D K) (hn : 1 ≤ r.count)
    (hid : ∃ d ∈ cs, d.column = .justificationId) :
    ((returned P K).map (·.id)).Nodup ∧
      (returned P K).Pairwise (fun x y => Precedes cs x.row.sortRow y.row.sortRow) ∧
      ((P K).length < min r.count 1024 →
        (∀ i, (∀ k ≤ K, ∃ j ∈ (D k).justifications.live,
            j.id = i ∧ (D k).Matches j r.filters) →
          ((returned P K).map (·.id)).count i = 1) ∧
        ((∀ k ≤ K, D k = D 0) → ∀ L : List JustificationRow,
          (∀ j, j ∈ L ↔ j ∈ (D 0).justifications.live ∧ (D 0).Matches j r.filters) →
          L.Pairwise (fun i j => Precedes cs i.sortRow j.sortRow) →
          (returned P K).map (·.row) = L)) := by
  have heff : 0 < r.effectiveCount := Nat.lt_min.2 ⟨hn, by decide⟩
  have hprecedes : ∀ i j : JustificationRow,
      Before cs i j ↔ Precedes cs i.sortRow j.sortRow :=
    fun i j => comesBefore_iff fun d _ => i.alike j d.column
  have hnodup := hw.nodup_ids hd heff hid (Nat.le_refl K)
  refine ⟨hnodup, ?_, fun hshort => ⟨?_, ?_⟩⟩
  · have hrows := List.pairwise_map.1 (hw.pairwise_rows hd heff hid (Nat.le_refl K))
    exact hrows.imp fun {x y} hxy => (hprecedes x.row y.row).1 hxy
  · intro i hi
    exact List.count_eq_one_of_mem hnodup (hw.mem_returned_of_always hd heff hid hshort hi)
  · intro hconst L hL hsorted
    have hbefore : L.Pairwise (Before cs) := hsorted.imp fun {i j} hij => (hprecedes i j).2 hij
    exact hw.rows_of_constant hd heff hid hshort hconst hL hbefore

end

/-! ## A walk -/

/-- A second justification is added after the first page and deleted after the
    second. -/
def Store.changing : ℕ → Store
  | 0 => sample [⟨.sample 1, none⟩]
  | 1 => sample [⟨.sample 1, none⟩, ⟨.sample 2, none⟩]
  | _ + 2 => sample [⟨.sample 1, none⟩, ⟨.sample 2, some "2024-01-02T00:00:00+00:00"⟩]

/-- One justification at a time, the newest first. -/
def Query.Request.newest : ℕ → Request
  | 0 => { count := 1, sorts := [⟨"created", some .desc, none⟩, ⟨"id", none, none⟩] }
  | k + 1 => {
      count := 1
      isContinuation := true
      sorts := [⟨"created", some .desc, some "2024-01-01T00:00:00Z"⟩,
        ⟨"id", none, some (Text.ofInt64 (.ofNat (k + 1)))⟩] }

/-- What ties comes across in one order and the other by turns. -/
def Chance.alternating (k : ℕ) : Chance :=
  .level (if k % 2 = 0 then .asStored else .backwards)

def Store.changingPage (k : ℕ) : List Justification :=
  ((changing k).read (.alternating k) (.newest k)).result.toOption.getD []

theorem Store.eq_sample_of_changing {k : ℕ} {j : JustificationRow} (hk : k ≤ 2)
    (h : j ∈ (changing k).justifications.live) : j = .sample j.id := by
  have hall : ∀ i ∈ (changing k).justifications.live, i = .sample i.id := by
    interval_cases k <;> decide
  exact hall j h

theorem Store.keyed_changing {k : ℕ} (hk : k ≤ 2) : (changing k).Keyed := by
  interval_cases k <;> constructor <;> decide

theorem Store.steady_changing (cs : List SortColumn) : Steady cs changing 2 where
  keyed k hk := keyed_changing hk
  stamped k hk j hj := by
    have hstored : "2024-01-01T00:00:00+00:00" = Instant.newYear.stored := by decide +kernel
    rw [eq_sample_of_changing hk hj]
    exact ⟨_, hstored⟩
  same k hk l hl i hi j hj hij := by
    rw [eq_sample_of_changing hk hi, eq_sample_of_changing hl hj, hij]
    exact fun d _ => rfl

theorem Store.exists_changingPage {k : ℕ} (hk : k < 2) : ∃ x, changingPage k = [x] ∧
    x.id = .ofNat (k + 1) ∧ x.created = .newYear := by
  have h : (changingPage k).map (fun x => (x.id, x.created)) = [(.ofNat (k + 1), .newYear)] := by
    interval_cases k <;> decide +kernel
  obtain ⟨x, xs, hpage, hx, hxs⟩ := List.map_eq_cons_iff.1 h
  cases List.map_eq_nil_iff.1 hxs
  exact ⟨x, hpage, (Prod.mk.inj hx).1, (Prod.mk.inj hx).2⟩

/-- The columns by which these pages are sorted. -/
def Query.newestColumns : List SortColumn :=
  [⟨.created, .desc, none⟩, ⟨.justificationId, .asc, none⟩]

theorem continues_newest {x : Justification} {k : ℕ} (hid : x.id = .ofNat (k + 1))
    (hcreated : x.created = .newYear) :
    (Request.newest (k + 1)).Continues (.newest 0) newestColumns x where
  filters := rfl
  count := rfl
  isContinuation := rfl
  sorts := by
    refine ⟨[⟨.created, .desc, some "2024-01-01T00:00:00Z"⟩,
      ⟨.justificationId, .asc, some (Text.ofInt64 (.ofNat (k + 1)))⟩], ?_, rfl, ?_⟩
    · rfl
    · have hjson : Instant.newYear.json = "2024-01-01T00:00:00Z" := by decide +kernel
      have hyear : 0 ≤ Instant.newYear.year ∧ Instant.newYear.year ≤ 9999 := by decide +kernel
      intro d hd
      simp only [List.mem_cons, List.not_mem_nil, or_false] at hd
      rcases hd with rfl | rfl
      · refine ⟨_, rfl, ?_⟩
        rw [← hjson, ← hcreated]
        rw [← hcreated] at hyear
        exact Justification.gives_json hyear.1 hyear.2
      · refine ⟨_, rfl, ?_⟩
        rw [← hid]
        exact Justification.gives_integer rfl rfl

theorem walk_changing :
    Walk newestColumns (.newest 0) Store.changing .alternating .newest Store.changingPage 2 where
  columns := by decide +kernel
  start := rfl
  first := rfl
  next k hk := by
    obtain ⟨x, hx, hid, hcreated⟩ := Store.exists_changingPage hk
    exact ⟨x, by rw [hx]; rfl, continues_newest hid hcreated⟩
  read k hk := by
    have hok : ((Store.changing k).read (.alternating k) (.newest k)).result.isOk = true := by
      interval_cases k <;> decide +kernel
    rw [Store.changingPage]
    cases h : ((Store.changing k).read (.alternating k) (.newest k)).result with
    | error e =>
      rw [h] at hok
      cases hok
    | ok out => rfl

theorem pages_of_walk_changing :
    Walk newestColumns (.newest 0) Store.changing .alternating .newest Store.changingPage 2 ∧
      ((returned Store.changingPage 2).map (·.id)).Nodup ∧
      ∀ i, (∀ k ≤ 2, ∃ j ∈ (Store.changing k).justifications.live,
          j.id = i ∧ (Store.changing k).Matches j (Request.newest 0).filters) →
        ((returned Store.changingPage 2).map (·.id)).count i = 1 := by
  have h := pages_of_walk walk_changing (Store.steady_changing _) (by decide) (by decide)
  exact ⟨walk_changing, h.1, (h.2.2 (by decide +kernel)).1⟩

end Rationale
