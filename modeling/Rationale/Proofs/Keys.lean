/-
  Rationale — tables with unique ids.

  In such a table looking a row up by its id finds the live row that has the
  id, and there is no other.

  * `Table.Keyed.row?_eq_some`, `Table.Keyed.typed?_eq_some`: what a lookup
    finds;
  * `Table.Keyed.eq_of_id_eq`: an id names at most one live row.
-/
import Mathlib.Data.List.Nodup
import Rationale.Store.Link

namespace Rationale.Table

section

variable {α κ : Type} [DecidableEq κ] {key : α → κ} {l l' : List α} {k : κ}

theorem find?_eq_some_iff (h : (l.map key).Nodup) {a : α} :
    l.find? (key · = k) = some a ↔ a ∈ l ∧ key a = k := by
  constructor
  · exact fun hf => ⟨List.mem_of_find?_eq_some hf, by simpa using List.find?_some hf⟩
  · rintro ⟨ha, rfl⟩
    cases hf : l.find? (key · = key a) with
    | none => exact absurd (by simp) (List.find?_eq_none.1 hf a ha)
    | some b =>
      have hba : key b = key a := by simpa using List.find?_some hf
      rw [List.inj_on_of_nodup_map h (List.mem_of_find?_eq_some hf) ha hba]

/-- Where a key is found once, the order of the list makes no difference. -/
theorem find?_eq_of_perm (hp : l.Perm l') (h : (l.map key).Nodup) (k : κ) :
    l.find? (key · = k) = l'.find? (key · = k) := by
  have h' : (l'.map key).Nodup := (hp.map key).nodup_iff.1 h
  ext a
  rw [find?_eq_some_iff h, find?_eq_some_iff h', hp.mem_iff]

end

/-- Looking up in a list of what `f` finds, where that can be found. -/
theorem find?_eq_of_forall {α κ : Type} [DecidableEq κ] {key : α → κ} {f : κ → Option α}
    {l : List α} {i : κ} (hl : ∀ a ∈ l, f (key a) = some a)
    (hi : ∀ a, f i = some a → a ∈ l ∧ key a = i) : l.find? (key · = i) = f i := by
  cases hf : f i with
  | none =>
    rw [List.find?_eq_none]
    intro a ha hai
    simp only [decide_eq_true_eq] at hai
    rw [← hai, hl a ha] at hf
    cases hf
  | some a =>
    obtain ⟨ha, hai⟩ := hi a hf
    cases hb : l.find? (key · = i) with
    | none => exact absurd (by simpa using hai) (List.find?_eq_none.1 hb a ha)
    | some b =>
      have hbi : key b = i := by simpa using List.find?_some hb
      rw [← hl b (List.mem_of_find?_eq_some hb), hbi, hf]

theorem live_sublist_rows {α : Type} (t : Table α) : t.live.Sublist t.rows :=
  List.filter_sublist.map _

variable {α τ : Type} [HasId α] [Coded τ] {t : Table α} {a b : α} {i : Id}

instance : Decidable t.Keyed :=
  inferInstanceAs (Decidable (List.Nodup _))

theorem mem_live_of_row? (h : t.row? i = some a) : a ∈ t.live :=
  List.mem_of_find?_eq_some h

theorem id_of_row? (h : t.row? i = some a) : HasId.id a = i := by
  simpa using List.find?_some h

theorem row?_isSome_iff : (t.row? i).isSome = true ↔ ∃ a ∈ t.live, HasId.id a = i := by
  simp [row?]

theorem row?_eq_none_iff : t.row? i = none ↔ ∀ a ∈ t.live, HasId.id a ≠ i := by
  simp [row?]

theorem row?_of_typed? {type : τ} {stored : String} (h : t.typed? type stored i = some a) :
    t.row? i = some a := by
  rw [typed?] at h
  split at h
  · exact h
  · cases h

theorem mem_live_of_typed? {type : τ} {stored : String} (h : t.typed? type stored i = some a) :
    a ∈ t.live :=
  mem_live_of_row? (row?_of_typed? h)

theorem id_of_typed? {type : τ} {stored : String} (h : t.typed? type stored i = some a) :
    HasId.id a = i :=
  id_of_row? (row?_of_typed? h)

theorem typed?_eq_none {type type' : τ} {stored : String} (hs : stored = Coded.text type')
    (h : type' ≠ type) : t.typed? type stored i = none := by
  rw [typed?, if_neg]
  rw [hs]
  exact fun ht => h (Coded.text_injective ht)

namespace Keyed

theorem nodup_live (h : t.Keyed) : (t.live.map HasId.id).Nodup :=
  h.sublist ((live_sublist_rows t).map _)

theorem nodup_filter (h : t.Keyed) (p : α → Bool) : ((t.live.filter p).map HasId.id).Nodup :=
  h.nodup_live.sublist (List.filter_sublist.map _)

theorem eq_of_id_eq (h : t.Keyed) (ha : a ∈ t.live) (hb : b ∈ t.live)
    (hab : HasId.id a = HasId.id b) : a = b :=
  List.inj_on_of_nodup_map h.nodup_live ha hb hab

theorem row?_eq_some (h : t.Keyed) : t.row? i = some a ↔ a ∈ t.live ∧ HasId.id a = i :=
  find?_eq_some_iff h.nodup_live

theorem row?_id (h : t.Keyed) (ha : a ∈ t.live) : t.row? (HasId.id a) = some a :=
  h.row?_eq_some.2 ⟨ha, rfl⟩

theorem typed?_eq_some (h : t.Keyed) {type : τ} {stored : String} :
    t.typed? type stored i = some a ↔
      a ∈ t.live ∧ stored = Coded.text type ∧ HasId.id a = i := by
  rw [typed?]
  split
  · rename_i hs
    rw [h.row?_eq_some]
    simp [hs]
  · rename_i hs
    simp [hs]

end Keyed

end Rationale.Table
