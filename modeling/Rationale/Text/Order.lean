/-
  Rationale — the order of texts.

  Texts are ordered as their bytes in UTF-8 are, which is the order of their
  code points: at the first place where two texts differ the lower code point
  comes first, and a text comes before every longer one that it begins.

  * `lt_irrefl`, `lt_trans`, `lt_trichotomy`: the order is strict and linear.
-/

namespace Rationale.Text

/-- The order of lists of characters. -/
def charsLt : List Char → List Char → Bool
  | _, [] => false
  | [], _ :: _ => true
  | a :: as, b :: bs => a.toNat < b.toNat || (a = b && charsLt as bs)

/-- The order of texts. -/
def lt (s t : String) : Bool :=
  charsLt s.toList t.toList

theorem charsLt_irrefl (as : List Char) : charsLt as as = false := by
  induction as with
  | nil => rfl
  | cons a as ih => simp [charsLt, ih]

theorem charsLt_trans {as bs cs : List Char} (h₁ : charsLt as bs = true)
    (h₂ : charsLt bs cs = true) : charsLt as cs = true := by
  induction as generalizing bs cs with
  | nil =>
    cases cs with
    | nil => cases bs <;> simp [charsLt] at h₂
    | cons => rfl
  | cons a as ih =>
    cases bs with
    | nil => simp [charsLt] at h₁
    | cons b bs =>
      cases cs with
      | nil => simp [charsLt] at h₂
      | cons c cs =>
        simp only [charsLt, Bool.or_eq_true, decide_eq_true_eq, Bool.and_eq_true] at *
        rcases h₁ with h₁ | ⟨rfl, h₁⟩
        · rcases h₂ with h₂ | ⟨rfl, _⟩
          · exact .inl (Nat.lt_trans h₁ h₂)
          · exact .inl h₁
        · rcases h₂ with h₂ | ⟨rfl, h₂⟩
          · exact .inl h₂
          · exact .inr ⟨rfl, ih h₁ h₂⟩

theorem charsLt_trichotomy (as bs : List Char) :
    charsLt as bs = true ∨ as = bs ∨ charsLt bs as = true := by
  induction as generalizing bs with
  | nil => cases bs <;> simp [charsLt]
  | cons a as ih =>
    cases bs with
    | nil => simp [charsLt]
    | cons b bs =>
      simp only [charsLt, Bool.or_eq_true, decide_eq_true_eq, Bool.and_eq_true, List.cons.injEq]
      rcases Nat.lt_trichotomy a.toNat b.toNat with h | h | h
      · exact .inl (.inl h)
      · obtain rfl : a = b := Char.toNat_inj.1 h
        rcases ih bs with h | h | h
        · exact .inl (.inr ⟨rfl, h⟩)
        · exact .inr (.inl ⟨rfl, h⟩)
        · exact .inr (.inr (.inr ⟨rfl, h⟩))
      · exact .inr (.inr (.inl h))

theorem lt_irrefl (s : String) : lt s s = false :=
  charsLt_irrefl _

theorem lt_trans {s t u : String} (h₁ : lt s t = true) (h₂ : lt t u = true) : lt s u = true :=
  charsLt_trans h₁ h₂

theorem lt_trichotomy (s t : String) : lt s t = true ∨ s = t ∨ lt t s = true := by
  rw [← String.toList_inj]
  exact charsLt_trichotomy _ _

end Rationale.Text
