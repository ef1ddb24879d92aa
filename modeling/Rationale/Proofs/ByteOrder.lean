/-
  Rationale — the order of texts is that of their bytes.

  In UTF-8 a higher code point has bytes that come later: either it has the
  longer encoding, and then a higher first byte, or the encodings are as long
  and hold the digits of the code points to the base 64, the highest first.

  * `lt_iff_bytes`: so texts are ordered as their bytes are;
  * `Precedes`: the order of a page in these terms, and `comesBefore_iff` that
    it is the one of the query.
-/
import Mathlib.Tactic.SplitIfs
import Rationale.Proofs.KeyOrder

namespace Rationale

/-! ## Texts -/

namespace Text

variable {a b : Char} {as bs : List Char} {s t : String}

/-- The bytes of a text in UTF-8. -/
def bytes (s : String) : List UInt8 :=
  s.toUTF8.data.toList

theorem bytes_eq (s : String) : bytes s = s.toList.flatMap String.utf8EncodeChar := by
  have h : s.toUTF8 = s.toList.utf8Encode := by
    rw [String.toUTF8_eq_toByteArray, ← String.toByteArray_ofList, String.ofList_toList]
  rw [bytes, h, List.utf8Encode, List.toList_data_toByteArray]

/-- Of two numbers the lower one has the lower quotient, or else the lower remainder. -/
theorem div_lt_or_mod_lt {m n : Nat} (h : m < n) (k : Nat) :
    m / k < n / k ∨ m / k = n / k ∧ m % k < n % k := by
  rcases Nat.lt_or_eq_of_le (Nat.div_le_div_right (c := k) (Nat.le_of_lt h)) with hk | hk
  · exact .inl hk
  · refine .inr ⟨hk, ?_⟩
    have hm := Nat.div_add_mod m k
    have hn := Nat.div_add_mod n k
    rw [hk] at hm
    omega

/-- **The bytes of the lower code point come first**, whatever follows them. -/
theorem encode_lt_encode (h : a.toNat < b.toNat) (x y : List UInt8) :
    String.utf8EncodeChar a ++ x < String.utf8EncodeChar b ++ y := by
  have hb : b.val.toNat < 1114112 := by
    have hvalid := b.valid
    simp only [UInt32.isValidChar, Nat.isValidChar] at hvalid
    omega
  rw [Char.toNat, Char.toNat] at h
  have h₁ := div_lt_or_mod_lt h 64
  have h₂ := div_lt_or_mod_lt h (64 * 64)
  have h₃ := div_lt_or_mod_lt h (64 * 64 * 64)
  simp only [String.utf8EncodeChar]
  split_ifs
  all_goals
    simp only [List.cons_append, List.nil_append, List.cons_lt_cons_iff, UInt8.lt_iff_toNat_lt,
      ← UInt8.toNat_inj, UInt8.toNat_ofNat']
    simp (disch := omega) only [Nat.mod_eq_of_lt]
    omega

theorem flatMap_encode_lt (h : charsLt as bs = true) :
    as.flatMap String.utf8EncodeChar < bs.flatMap String.utf8EncodeChar := by
  induction as generalizing bs with
  | nil =>
    cases bs with
    | nil => simp [charsLt] at h
    | cons b bs =>
      rw [List.flatMap_nil, List.flatMap_cons]
      cases hb : String.utf8EncodeChar b with
      | nil => exact absurd hb String.utf8EncodeChar_ne_nil
      | cons => exact List.nil_lt_cons _ _
  | cons a as ih =>
    cases bs with
    | nil => simp [charsLt] at h
    | cons b bs =>
      simp only [charsLt, Bool.or_eq_true, decide_eq_true_eq, Bool.and_eq_true] at h
      rw [List.flatMap_cons, List.flatMap_cons]
      rcases h with h | ⟨rfl, h⟩
      · exact encode_lt_encode h _ _
      · exact List.append_left_lt (ih h)

/-- **Texts are ordered as their bytes are.** -/
theorem lt_iff_bytes : lt s t = true ↔ bytes s < bytes t := by
  rw [bytes_eq, bytes_eq]
  constructor
  · exact flatMap_encode_lt
  · intro h
    rcases lt_trichotomy s t with hst | rfl | hts
    · exact hst
    · exact absurd h (List.lt_irrefl _)
    · exact absurd h (List.lt_asymm (flatMap_encode_lt hts))

end Text

/-! ## Rows -/

namespace Query

open Sql

variable {cs : List SortColumn} {a b : SortRow} {u v : Value}

/-- Integers come in their order and texts in that of their bytes. -/
inductive Below : Value → Value → Prop
  | integer {m n : Int64} : m.toInt < n.toInt → Below (.integer m) (.integer n)
  | text {s t : String} : Text.bytes s < Text.bytes t → Below (.text s) (.text t)

/-- The values come in the direction of the column. -/
def SortColumn.Directed (d : SortColumn) (u v : Value) : Prop :=
  match d.direction with
  | .asc => Below u v
  | .desc => Below v u

/-- In the first sort column in which the rows differ, their values come in its
    direction. -/
def Precedes (cs : List SortColumn) (a b : SortRow) : Prop :=
  ∃ l d l', cs = l ++ d :: l' ∧ SameKey l a b ∧ d.Directed (a d.column) (b d.column)

/-- Two values that are of one kind and present. -/
inductive Alike : Value → Value → Prop
  | integer {m n : Int64} : Alike (.integer m) (.integer n)
  | text {s t : String} : Alike (.text s) (.text t)

theorem Alike.symm (h : Alike u v) : Alike v u := by
  cases h <;> constructor

theorem Alike.lt_iff (h : Alike u v) : u.lt v = true ↔ Below u v := by
  cases h with
  | @integer m n =>
    simp only [Value.lt, decide_eq_true_eq, Int64.lt_iff_toInt_lt]
    exact ⟨.integer, fun h => by cases h; assumption⟩
  | @text s t =>
    rw [Value.lt, Text.lt_iff_bytes]
    exact ⟨.text, fun h => by cases h; assumption⟩

theorem SortColumn.before_iff (d : SortColumn) (h : Alike u v) :
    d.before u v = true ↔ d.Directed u v := by
  unfold before Directed
  cases d.direction with
  | asc => exact h.lt_iff
  | desc => exact h.symm.lt_iff

/-- **The order of a page, column by column.** -/
theorem comesBefore_iff (h : ∀ d ∈ cs, Alike (a d.column) (b d.column)) :
    comesBefore cs a b = true ↔ Precedes cs a b := by
  induction cs with
  | nil => simp [comesBefore, Precedes]
  | cons d cs ih =>
    rw [comesBefore_cons, d.before_iff (h d (by simp)), ih fun e he => h e (by simp [he])]
    constructor
    · rintro (hd | ⟨hd, l, e, l', rfl, hl, he⟩)
      · exact ⟨[], d, cs, rfl, fun e he => by simp at he, hd⟩
      · exact ⟨d :: l, e, l', rfl, sameKey_cons.2 ⟨hd, hl⟩, he⟩
    · rintro ⟨_ | ⟨d', l⟩, e, l', hcs, hl, he⟩
      · cases hcs
        exact .inl he
      · cases hcs
        obtain ⟨hd, hl⟩ := sameKey_cons.1 hl
        exact .inr ⟨hd, l, e, l', rfl, hl, he⟩

end Query

theorem JustificationRow.alike (i j : JustificationRow) (k : Query.Column) :
    Query.Alike (i.sortRow k) (j.sortRow k) := by
  cases k <;> constructor

end Rationale
