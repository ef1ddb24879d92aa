/-
  Rationale — where a boundary cuts the order.

  The boundary of a continuation is a key, one value for each sort column, and
  no row needs to have it.  Keys are in the lexicographic order of the columns,
  each in its direction (`Follows`), and the condition of a continuation is
  nothing but this order: it holds of the rows whose key follows the boundary.

  A resolved specification names no column twice, and so for each key there is
  a row that has it (`exists_row`); through this row the condition becomes the
  order by which a page is sorted.

  * `comesBefore_iff_follows`: a page is sorted in the order of keys;
  * `holds_continuing_iff`: what the condition of a continuation means;
  * `continues_iff`: for a boundary that is given with a specification, and that a
    row is after it, at it, or before it.
-/
import Rationale.Proofs.Pages

namespace Rationale.Query

open Sql

variable {cs : List SortColumn} {a b row : SortRow} {u v : Value} {us vs values : List Value}
  {sorts : List SortDescription} {used : List Column}

/-! ## Keys -/

/-- Integers come in their order, texts in that of their bytes, and integers
    before texts. -/
inductive SortsBefore : Value → Value → Prop
  | below {u v : Value} : Below u v → SortsBefore u v
  | integerText {n : Int64} {s : String} : SortsBefore (.integer n) (.text s)

/-- In the direction of the column, `v` comes after `u`. -/
def SortColumn.Follows (d : SortColumn) (u v : Value) : Prop :=
  match d.direction with
  | .asc => SortsBefore u v
  | .desc => SortsBefore v u

/-- A key comes after another one in the lexicographic order of the columns. -/
inductive Follows : List SortColumn → List Value → List Value → Prop
  | here {d cs u us v vs} : d.Follows u v → Follows (d :: cs) (u :: us) (v :: vs)
  | later {d cs u us vs} : Follows cs us vs → Follows (d :: cs) (u :: us) (u :: vs)

theorem follows_cons {d : SortColumn} : Follows (d :: cs) (u :: us) (v :: vs) ↔
    d.Follows u v ∨ u = v ∧ Follows cs us vs := by
  constructor
  · intro h
    cases h with
    | here h => exact .inl h
    | later h => exact .inr ⟨rfl, h⟩
  · rintro (h | ⟨rfl, h⟩)
    · exact .here h
    · exact .later h

/-- The key of a row. -/
def key (cs : List SortColumn) (row : SortRow) : List Value :=
  cs.map fun d => row d.column

@[simp]
theorem key_cons {d : SortColumn} : key (d :: cs) row = row d.column :: key cs row := rfl

theorem zip_key : cs.zip (key cs b) = cs.map fun d => (d, b d.column) :=
  zip_map_self _ _

/-- No sort column of the row is absent. -/
def Present (cs : List SortColumn) (row : SortRow) : Prop :=
  ∀ d ∈ cs, row d.column ≠ .null

theorem sameKey_iff : SameKey cs a b ↔ key cs a = key cs b :=
  List.map_inj_left.symm

theorem present_congr (h : key cs a = key cs b) : Present cs a ↔ Present cs b :=
  forall₂_congr fun d hd => by rw [sameKey_iff.2 h d hd]

theorem lt_iff_sortsBefore (hu : u ≠ .null) (hv : v ≠ .null) :
    u.lt v = true ↔ SortsBefore u v := by
  have halike : ∀ {u v : Value}, Alike u v → (u.lt v = true ↔ SortsBefore u v) := by
    intro u v h
    rw [h.lt_iff]
    refine ⟨.below, fun hlt => ?_⟩
    cases hlt with
    | below hlt => exact hlt
    | integerText => cases h
  cases u with
  | null => exact absurd rfl hu
  | integer m =>
    cases v with
    | null => exact absurd rfl hv
    | integer n => exact halike .integer
    | text s => exact ⟨fun _ => .integerText, fun _ => rfl⟩
  | text s =>
    cases v with
    | null => exact absurd rfl hv
    | integer n =>
      refine ⟨(fun h => nomatch h), fun h => ?_⟩
      cases h with
      | below h => cases h
    | text t => exact halike .text

theorem SortColumn.before_iff_follows (d : SortColumn) (hu : u ≠ .null) (hv : v ≠ .null) :
    d.before u v = true ↔ d.Follows u v := by
  unfold before SortColumn.Follows
  cases d.direction with
  | asc => exact lt_iff_sortsBefore hu hv
  | desc => exact lt_iff_sortsBefore hv hu

/-- **A page is sorted in the order of keys.** -/
theorem comesBefore_iff_follows (ha : Present cs a) (hb : Present cs b) :
    comesBefore cs a b = true ↔ Follows cs (key cs a) (key cs b) := by
  induction cs with
  | nil =>
    refine ⟨(fun h => nomatch h), fun h => ?_⟩
    cases h
  | cons d cs ih =>
    obtain ⟨had, ha⟩ := List.forall_mem_cons.1 ha
    obtain ⟨hbd, hb⟩ := List.forall_mem_cons.1 hb
    rw [comesBefore_cons, d.before_iff_follows had hbd, ih ha hb, key_cons, key_cons,
      follows_cons]

/-! ## Boundaries -/

theorem nodup_of_resolveAfter (h : resolveAfter used sorts = .ok cs) :
    (cs.map (·.column)).Nodup ∧ ∀ d ∈ cs, d.column ∉ used := by
  induction sorts generalizing used cs with
  | nil =>
    cases h
    simp
  | cons s sorts ih =>
    rw [resolveAfter] at h
    split at h
    · cases h
    · rename_i c _
      split at h
      · cases h
      · rename_i hc
        obtain ⟨rest, hrest, h⟩ := bind_eq_ok.1 h
        cases h
        obtain ⟨hnodup, hused⟩ := ih hrest
        have hnew : ∀ d ∈ rest, d.column ∉ used ∧ d.column ≠ c := by
          intro d hd
          have hnot := hused d hd
          simp only [List.mem_cons, not_or] at hnot
          exact ⟨hnot.2, hnot.1⟩
        constructor
        · rw [List.map_cons, List.nodup_cons, List.mem_map]
          refine ⟨?_, hnodup⟩
          rintro ⟨d, hd, hdc⟩
          exact (hnew d hd).2 hdc
        · exact List.forall_mem_cons.2 ⟨hc, fun d hd => (hnew d hd).1⟩

/-- A resolved specification names no column twice. -/
theorem nodup_of_resolve (h : resolve sorts = .ok cs) : (cs.map (·.column)).Nodup := by
  unfold resolve at h
  split at h
  · cases h
    decide
  · exact (nodup_of_resolveAfter h).1

/-- For each key there is a row that has it. -/
theorem exists_row (hcs : (cs.map (·.column)).Nodup) (hlen : values.length = cs.length) :
    ∃ b, key cs b = values := by
  induction cs generalizing values with
  | nil => exact ⟨fun _ => .null, (List.eq_nil_of_length_eq_zero hlen).symm⟩
  | cons d cs ih =>
    cases values with
    | nil => cases hlen
    | cons v values =>
      rw [List.map_cons, List.nodup_cons] at hcs
      obtain ⟨b, hb⟩ := ih hcs.2 (Nat.succ.inj hlen)
      refine ⟨fun k => if k = d.column then v else b k, ?_⟩
      have hrest : key cs (fun k => if k = d.column then v else b k) = key cs b := by
        refine sameKey_iff.1 fun e he => if_neg fun hed => hcs.1 ?_
        exact List.mem_map.2 ⟨e, he, hed⟩
      rw [key_cons, if_pos rfl]
      exact congrArg (v :: ·) (hrest.trans hb)

theorem boundary_ne_null {d : SortColumn} (h : d.boundary = .ok v) : v ≠ .null := by
  rintro rfl
  unfold SortColumn.boundary at h
  split at h
  · cases h
  · split at h
    · cases h
    · split at h <;> cases h
    · split at h <;> cases h

/-- The condition of a continuation after that key. -/
def continuing (cs : List SortColumn) (values : List Value) : RowCondition :=
  ⟨cs.map (·.column), some (after (cs.zip values))⟩

/-- **The condition of a continuation is the order of keys.** -/
theorem holds_continuing_iff (hb : Present cs b) : (continuing cs (key cs b)).holds row = true ↔
    Present cs row ∧ Follows cs (key cs b) (key cs row) := by
  have hpresent : ((cs.map (·.column)).all fun k => !(row k).isNull) = true ↔ Present cs row := by
    simp [Present, Value.isNull]
  rw [RowCondition.holds, continuing, zip_key, Bool.and_eq_true, hpresent]
  refine and_congr_right fun hrow => ?_
  rw [← comesBefore_iff_follows hb hrow]
  exact holds_after_iff hb hrow

/-- The boundary that is given with a specification is a key. -/
theorem exists_boundary (hcs : resolve sorts = .ok cs)
    (hvalues : cs.mapM SortColumn.boundary = .ok values) :
    ∃ b, key cs b = values ∧ Present cs b := by
  have hall := mapM_eq_ok.1 hvalues
  obtain ⟨b, rfl⟩ := exists_row (nodup_of_resolve hcs) hall.length_eq.symm
  refine ⟨b, rfl, fun d hd => ?_⟩
  have hmem : b d.column ∈ key cs b := List.mem_map.2 ⟨d, hd, rfl⟩
  obtain ⟨e, -, hbound⟩ := exists_of_mem_mapM hvalues hmem
  exact boundary_ne_null hbound

/-- The boundary continues a row that comes after it, in the sense of keys. -/
theorem forall_continuing_iff (hb : Present cs b) (hrow : Present cs row) :
    (∀ b', key cs b' = key cs b → (continuing cs (key cs row)).holds b' = true) ↔
      comesBefore cs row b = true := by
  rw [comesBefore_iff_follows hrow hb]
  constructor
  · intro h
    exact ((holds_continuing_iff hrow).1 (h b rfl)).2
  · intro h b' hb'
    rw [holds_continuing_iff hrow, present_congr hb', hb']
    exact ⟨hb, h⟩

/-- One of the three holds, and no two of them. -/
def ExactlyOne (p q r : Prop) : Prop :=
  (p ∨ q ∨ r) ∧ ¬ (p ∧ q) ∧ ¬ (p ∧ r) ∧ ¬ (q ∧ r)

theorem exactlyOne_comesBefore (cs : List SortColumn) (a b : SortRow) :
    ExactlyOne (comesBefore cs b a = true) (SameKey cs a b) (comesBefore cs a b = true) := by
  refine ⟨?_, ?_, ?_, ?_⟩
  · rcases comesBefore_trichotomy cs b a with h | h | h
    · exact .inl h
    · exact .inr (.inl fun d hd => (h d hd).symm)
    · exact .inr (.inr h)
  · rintro ⟨h, hsame⟩
    rw [not_comesBefore_of_sameKey fun d hd => (hsame d hd).symm] at h
    cases h
  · rintro ⟨h, h'⟩
    rw [comesBefore_asymm h] at h'
    cases h'
  · rintro ⟨hsame, h⟩
    rw [not_comesBefore_of_sameKey hsame] at h
    cases h

/-- **A continuation is the strict order of the page.**  Its condition holds of a
    row if no sort column of the row is absent and the key of the row follows the
    boundary, in the order by which the page is sorted.  And a row without absent
    columns continues the boundary, or has it for its key, or whatever has the
    boundary for its key continues the row, and no two of these. -/
theorem continues_iff (hcs : resolve sorts = .ok cs)
    (hvalues : cs.mapM SortColumn.boundary = .ok values) :
    ∃ condition, rowCondition cs true = .ok condition ∧
      (∀ row, condition.holds row = true ↔ Present cs row ∧ Follows cs values (key cs row)) ∧
      (∀ row row', Present cs row → Present cs row' →
        (inOrder cs row row' = true ↔ ¬ Follows cs (key cs row') (key cs row))) ∧
      ∀ row, Present cs row →
        ExactlyOne (condition.holds row = true) (key cs row = values)
          (∀ b, key cs b = values → (continuing cs (key cs row)).holds b = true) := by
  obtain ⟨b, rfl, hb⟩ := exists_boundary hcs hvalues
  refine ⟨continuing cs (key cs b), ?_, fun row => holds_continuing_iff hb, ?_, ?_⟩
  · rw [rowCondition, if_pos rfl, hvalues]
    rfl
  · intro row row' hrow hrow'
    rw [← comesBefore_iff_follows hrow' hrow, inOrder, Bool.not_eq_true', Bool.not_eq_true]
  · intro row hrow
    rw [holds_continuing_iff hb, and_iff_right hrow, ← comesBefore_iff_follows hb hrow,
      forall_continuing_iff hb hrow, ← sameKey_iff]
    exact exactlyOne_comesBefore cs row b

/-- The boundary is id 7 at noon, given as one o'clock an hour ahead.  At noon the
    ids go on, and a row without a date continues nothing. -/
theorem continues_iff_noon : ∃ cs condition,
    resolve [⟨"created", some .desc, some "2024-03-01T13:00:00+01:00"⟩, ⟨"id", none, some "7"⟩] =
      .ok cs ∧
    cs.mapM SortColumn.boundary = .ok [.text "2024-03-01T12:00:00+00:00", .integer 7] ∧
    rowCondition cs true = .ok condition ∧
    (∀ row : SortRow, row .created = .text "2024-03-01T12:00:00+00:00" →
      row .justificationId = .integer 8 → condition.holds row = true) ∧
    ∀ row : SortRow, row .created = .null → condition.holds row = false := by
  have hcs : resolve
      [⟨"created", some .desc, some "2024-03-01T13:00:00+01:00"⟩, ⟨"id", none, some "7"⟩] =
      .ok [⟨.created, .desc, some "2024-03-01T13:00:00+01:00"⟩,
        ⟨.justificationId, .asc, some "7"⟩] := rfl
  obtain ⟨condition, hcondition, hholds, -, -⟩ := continues_iff hcs rfl
  refine ⟨_, condition, hcs, rfl, hcondition, fun row hcreated hid => ?_, fun row hcreated => ?_⟩
  · refine (hholds row).2 ⟨by simp [Present, hcreated, hid], ?_⟩
    simp only [key_cons, hcreated, hid]
    exact .later (.here (.below (.integer (by decide))))
  · rw [Bool.eq_false_iff]
    intro h
    exact ((hholds row).1 h).1 _ List.mem_cons_self hcreated

end Rationale.Query
