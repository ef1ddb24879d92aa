/-
  Rationale — the order of sort columns, and where it continues.

  Two rows with the same values in all sort columns have one place in the
  order (`SameKey`), and of two others one comes before the other.

  * `comesBefore_trichotomy` and `comesBefore_trans`: up to `SameKey` the order
    is strict and linear, and so a page can be sorted by it (`linear_inOrder`);
  * `holds_after_iff`: the condition of a continuation holds of the rows that
    come after the boundary, and of no other.
-/
import Mathlib.Data.List.Sort
import Rationale.Proofs.Sorting
import Rationale.Query.Sort
import Rationale.Store.Joined

namespace Rationale.Query

open Sql Sorting

variable {cs : List SortColumn} {a b c : SortRow}

/-- The rows have the same values in all sort columns. -/
def SameKey (cs : List SortColumn) (a b : SortRow) : Prop :=
  ∀ c ∈ cs, a c.column = b c.column

theorem sameKey_cons {d : SortColumn} :
    SameKey (d :: cs) a b ↔ a d.column = b d.column ∧ SameKey cs a b := by
  simp [SameKey]

/-! ## One column -/

namespace SortColumn

theorem before_irrefl (d : SortColumn) (v : Value) : d.before v v = false := by
  cases h : d.direction <;> simp [before, h, Value.lt_irrefl]

theorem before_trans {d : SortColumn} {u v w : Value} (huv : d.before u v = true)
    (hvw : d.before v w = true) : d.before u w = true := by
  cases h : d.direction with
  | asc =>
    simp only [before, h] at huv hvw ⊢
    exact Value.lt_trans huv hvw
  | desc =>
    simp only [before, h] at huv hvw ⊢
    exact Value.lt_trans hvw huv

theorem before_trichotomy (d : SortColumn) (u v : Value) :
    d.before u v = true ∨ u = v ∨ d.before v u = true := by
  cases h : d.direction with
  | asc =>
    simp only [before, h]
    exact Value.lt_trichotomy u v
  | desc =>
    simp only [before, h]
    rcases Value.lt_trichotomy u v with huv | huv | huv
    · exact .inr (.inr huv)
    · exact .inr (.inl huv)
    · exact .inl huv

end SortColumn

/-! ## All columns -/

theorem comesBefore_cons {d : SortColumn} :
    comesBefore (d :: cs) a b = true ↔
      d.before (a d.column) (b d.column) = true ∨
        a d.column = b d.column ∧ comesBefore cs a b = true := by
  simp [comesBefore]

theorem comesBefore_irrefl (cs : List SortColumn) (a : SortRow) : comesBefore cs a a = false := by
  induction cs with
  | nil => rfl
  | cons d cs ih => simp [comesBefore, SortColumn.before_irrefl, ih]

theorem comesBefore_trans (hab : comesBefore cs a b = true) (hbc : comesBefore cs b c = true) :
    comesBefore cs a c = true := by
  induction cs with
  | nil => simp [comesBefore] at hab
  | cons d cs ih =>
    rw [comesBefore_cons] at hab hbc ⊢
    rcases hab with hab | ⟨hab, hab'⟩
    · rcases hbc with hbc | ⟨hbc, -⟩
      · exact .inl (SortColumn.before_trans hab hbc)
      · exact .inl (hbc ▸ hab)
    · rcases hbc with hbc | ⟨hbc, hbc'⟩
      · exact .inl (hab ▸ hbc)
      · exact .inr ⟨hab.trans hbc, ih hab' hbc'⟩

theorem comesBefore_trichotomy (cs : List SortColumn) (a b : SortRow) :
    comesBefore cs a b = true ∨ SameKey cs a b ∨ comesBefore cs b a = true := by
  induction cs with
  | nil => exact .inr (.inl fun d hd => by simp at hd)
  | cons d cs ih =>
    simp only [comesBefore_cons, sameKey_cons]
    rcases d.before_trichotomy (a d.column) (b d.column) with h | h | h
    · exact .inl (.inl h)
    · rcases ih with ih | ih | ih
      · exact .inl (.inr ⟨h, ih⟩)
      · exact .inr (.inl ⟨h, ih⟩)
      · exact .inr (.inr (.inr ⟨h.symm, ih⟩))
    · exact .inr (.inr (.inl h))

/-- Only the values of the sort columns count. -/
theorem comesBefore_congr {a' b' : SortRow} (ha : SameKey cs a a') (hb : SameKey cs b b') :
    comesBefore cs a b = comesBefore cs a' b' := by
  induction cs with
  | nil => rfl
  | cons d cs ih =>
    rw [sameKey_cons] at ha hb
    simp only [comesBefore, ha.1, hb.1, ih ha.2 hb.2]

theorem not_comesBefore_of_sameKey (h : SameKey cs a b) : comesBefore cs a b = false := by
  rw [comesBefore_congr h fun _ _ => rfl]
  exact comesBefore_irrefl cs b

theorem comesBefore_asymm (h : comesBefore cs a b = true) : comesBefore cs b a = false := by
  rw [Bool.eq_false_iff]
  intro hba
  have haa := comesBefore_trans h hba
  rw [comesBefore_irrefl] at haa
  cases haa

/-- Values that are given with the columns do not count. -/
theorem comesBefore_eq_of_map {cs cs' : List SortColumn}
    (h : cs.map (fun d => (d.column, d.direction)) = cs'.map fun d => (d.column, d.direction))
    (a b : SortRow) : comesBefore cs a b = comesBefore cs' a b := by
  induction cs generalizing cs' with
  | nil =>
    cases cs' with
    | nil => rfl
    | cons => simp at h
  | cons d cs ih =>
    cases cs' with
    | nil => simp at h
    | cons d' cs' =>
      simp only [List.map_cons, List.cons.injEq, Prod.mk.injEq] at h
      simp only [comesBefore, SortColumn.before, h.1.1, h.1.2, ih h.2]

/-! ## Orders of rows -/

theorem linear_inOrder (cs : List SortColumn) : Linear fun a b : SortRow => inOrder cs a b where
  trans a b c hab hbc := by
    simp only [inOrder, Bool.not_eq_true'] at hab hbc ⊢
    rw [Bool.eq_false_iff]
    intro hca
    rcases comesBefore_trichotomy cs a b with h | h | h
    · rw [comesBefore_trans hca h] at hbc
      cases hbc
    · rw [comesBefore_congr (fun _ _ => rfl) h] at hca
      rw [hca] at hbc
      cases hbc
    · rw [h] at hab
      cases hab
  total a b := by
    by_cases h : comesBefore cs a b = true
    · simp [inOrder, comesBefore_asymm h]
    · simp [inOrder, h]

/-- Rows in order that differ in a sort column come before each other. -/
theorem comesBefore_of_inOrder (h : inOrder cs a b = true) (hne : ¬ SameKey cs a b) :
    comesBefore cs a b = true := by
  rcases comesBefore_trichotomy cs a b with hab | hab | hab
  · exact hab
  · exact absurd hab hne
  · simp [inOrder, hab] at h

/-! ## Where the order continues -/

theorem holds_equal {k : Column} {v : Value} {row : SortRow} (hrow : row k ≠ .null)
    (hv : v ≠ .null) : Test.holds ⟨k, .equal, v⟩ row = true ↔ v = row k := by
  simp [Test.holds, Value.compares, Value.isNull, hrow, hv, eq_comm]

theorem holds_comparison {d : SortColumn} {v : Value} {row : SortRow}
    (hrow : row d.column ≠ .null) (hv : v ≠ .null) :
    Test.holds ⟨d.column, d.comparison, v⟩ row = d.before v (row d.column) := by
  cases h : d.direction <;>
    simp [Test.holds, Value.compares, Value.isNull, hrow, hv, SortColumn.comparison,
      SortColumn.before, h]

/-- **The condition of a continuation holds after the boundary**, and not at it
    or before it. -/
theorem holds_after_iff {boundary row : SortRow} (hb : ∀ d ∈ cs, boundary d.column ≠ .null)
    (hrow : ∀ d ∈ cs, row d.column ≠ .null) :
    ((after (cs.map fun d => (d, boundary d.column))).any fun ts => ts.all (·.holds row)) = true ↔
      comesBefore cs boundary row = true := by
  induction cs with
  | nil => simp [after, comesBefore]
  | cons d cs ih =>
    have hb' := hb d (by simp)
    have hrow' := hrow d (by simp)
    rw [comesBefore_cons, ← ih (fun e he => hb e (by simp [he])) fun e he => hrow e (by simp [he]),
      ← holds_comparison hrow' hb', ← holds_equal hrow' hb']
    simp only [List.map_cons, after, List.any_cons, List.all_cons, List.all_nil, Bool.and_true,
      Bool.or_eq_true, List.any_map, Function.comp_def]
    refine or_congr_right ?_
    constructor
    · intro h
      obtain ⟨ts, hts, hall⟩ := List.any_eq_true.1 h
      obtain ⟨heq, hall⟩ := Bool.and_eq_true_iff.1 hall
      exact ⟨heq, List.any_eq_true.2 ⟨ts, hts, hall⟩⟩
    · rintro ⟨heq, h⟩
      obtain ⟨ts, hts, hall⟩ := List.any_eq_true.1 h
      exact List.any_eq_true.2 ⟨ts, hts, Bool.and_eq_true_iff.2 ⟨heq, hall⟩⟩

end Rationale.Query

/-! ## The orders of rows -/

namespace Rationale.Sorting

/-- The order by a key and then by an id. -/
theorem linear_keyed {α κ : Type} [DecidableEq κ] (lt : κ → κ → Bool)
    (htrans : ∀ a b c, lt a b = true → lt b c = true → lt a c = true)
    (htrichotomy : ∀ a b, lt a b = true ∨ a = b ∨ lt b a = true) (key : α → κ) (id : α → Id) :
    Linear fun a b => lt (key a) (key b) || (key a = key b && id a ≤ id b) where
  trans a b c hab hbc := by
    simp only [Bool.or_eq_true, Bool.and_eq_true, decide_eq_true_eq] at *
    rcases hab with hab | ⟨hab, hab'⟩
    · rcases hbc with hbc | ⟨hbc, -⟩
      · exact .inl (htrans _ _ _ hab hbc)
      · exact .inl (hbc ▸ hab)
    · rcases hbc with hbc | ⟨hbc, hbc'⟩
      · exact .inl (hab ▸ hbc)
      · exact .inr ⟨hab.trans hbc, Int64.le_trans hab' hbc'⟩
  total a b := by
    simp only [Bool.or_eq_true, Bool.and_eq_true, decide_eq_true_eq]
    rcases htrichotomy (key a) (key b) with h | h | h
    · exact .inl (.inl h)
    · rcases Int64.le_total (id a) (id b) with hid | hid
      · exact .inl (.inr ⟨h, hid⟩)
      · exact .inr (.inr ⟨h.symm, hid⟩)
    · exact .inr (.inl h)

/-- The order by an id. -/
theorem linear_byId {α : Type} (id : α → Id) : Linear fun a b => id a ≤ id b where
  trans a b c hab hbc := by
    simp only [decide_eq_true_eq] at *
    exact Int64.le_trans hab hbc
  total a b := by
    simpa using Int64.le_total (id a) (id b)

theorem pairwise_le_byId {α : Type} (id : α → Id) (l : List α) :
    (l.mergeSort fun a b => id a ≤ id b).Pairwise fun a b => id a ≤ id b :=
  (List.pairwise_mergeSort (linear_byId id).trans (linear_byId id).total l).imp of_decide_eq_true

/-- Where no id comes twice, that order is strict. -/
theorem pairwise_byId {α : Type} {id : α → Id} {l : List α} (h : (l.map id).Nodup) :
    (l.mergeSort fun a b => id a ≤ id b).Pairwise fun a b => id a < id b :=
  pairwise_mergeSort_of_nodup (linear_byId id)
    (fun _ _ hab => Int64.lt_of_le_of_ne (of_decide_eq_true hab)) h

/-- In that order a list is known by what is in it. -/
theorem eq_of_pairwise_byId {α : Type} {id : α → Id} {l l' : List α}
    (h : l.Pairwise fun a b => id a < id b) (h' : l'.Pairwise fun a b => id a < id b)
    (hmem : ∀ a, a ∈ l ↔ a ∈ l') : l = l' :=
  have : Std.Asymm fun a b => id a < id b := ⟨fun _ _ => Int64.lt_asymm⟩
  h.eq_of_mem_iff h' hmem

/-- The order by a text and then by an id. -/
theorem linear_dated {α : Type} (date : α → String) (id : α → Id) :
    Linear fun a b => Text.lt (date a) (date b) || (date a = date b && id a ≤ id b) :=
  linear_keyed Text.lt (fun _ _ _ => Text.lt_trans) Text.lt_trichotomy date id

/-- The order by a position and then by an id. -/
theorem linear_placed {α : Type} (position : α → Int64) (id : α → Id) :
    Linear fun a b => position a < position b || (position a = position b && id a ≤ id b) := by
  refine linear_keyed (fun a b => a < b) (fun a b c hab hbc => ?_) (fun a b => ?_) position id
  · exact decide_eq_true (Int64.lt_trans (of_decide_eq_true hab) (of_decide_eq_true hbc))
  · simp only [decide_eq_true_eq]
    by_cases hab : a = b
    · exact .inr (.inl hab)
    · exact (Int64.le_total a b).imp (Int64.lt_of_le_of_ne · hab)
        fun hba => .inr (Int64.lt_of_le_of_ne hba (Ne.symm hab))

/-- What is level in that order has the same id. -/
theorem id_eq_of_placed {α : Type} (position : α → Int64) (id : α → Id) {a b : α}
    (hab : (position a < position b || (position a = position b && id a ≤ id b)) = true)
    (hba : (position b < position a || (position b = position a && id b ≤ id a)) = true) :
    id a = id b := by
  simp only [Bool.or_eq_true, Bool.and_eq_true, decide_eq_true_eq] at hab hba
  rcases hab with hab | ⟨hpos, hab⟩ <;> rcases hba with hba | ⟨hpos', hba⟩
  · exact absurd (Int64.lt_trans hab hba) Int64.lt_irrefl
  · exact absurd (hpos' ▸ hab) Int64.lt_irrefl
  · exact absurd (hpos ▸ hba) Int64.lt_irrefl
  · exact Int64.le_antisymm hab hba

end Rationale.Sorting

namespace Rationale.JustificationRow

open Query Sorting

theorem sortRow_ne_null (j : JustificationRow) (k : Column) : j.sortRow k ≠ .null := by
  cases k <;> simp [sortRow]

theorem id_eq_of_sameKey {cs : List SortColumn} {i j : JustificationRow}
    (hid : ∃ d ∈ cs, d.column = .justificationId) (h : SameKey cs i.sortRow j.sortRow) :
    i.id = j.id := by
  obtain ⟨d, hd, hk⟩ := hid
  have hij := h d hd
  rw [hk] at hij
  simpa [sortRow] using hij

theorem linear_notYounger : Linear notYounger :=
  linear_dated JustificationRow.created JustificationRow.id

end Rationale.JustificationRow
