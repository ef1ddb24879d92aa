/-
  Rationale — instants.

  An instant is a second, counted from the start of the year 0, and a
  nanosecond in it.  A leap second is the last second of a minute held for
  another thousand million nanoseconds: it comes after every other part of
  that second and before the next one.

  Instants are ordered by second, then by nanosecond; `lt_iff_not_ge` and
  `le_total` say that the order is linear.
-/
import Rationale.Time.Calendar

namespace Rationale.Time

structure Instant where
  second : Int
  nano : Nat
  nano_lt : nano < 2000000000
  /-- Only the last second of a minute can be held. -/
  leap_last : 1000000000 ≤ nano → second % 60 = 59
deriving DecidableEq, Repr

namespace Instant

/-- The instant lies in a leap second. -/
def isLeap (t : Instant) : Bool :=
  1000000000 ≤ t.nano

instance : LT Instant :=
  ⟨fun a b => a.second < b.second ∨ a.second = b.second ∧ a.nano < b.nano⟩

instance : LE Instant :=
  ⟨fun a b => a.second < b.second ∨ a.second = b.second ∧ a.nano ≤ b.nano⟩

instance (a b : Instant) : Decidable (a < b) :=
  inferInstanceAs (Decidable (_ ∨ _))

instance (a b : Instant) : Decidable (a ≤ b) :=
  inferInstanceAs (Decidable (_ ∨ _))

theorem lt_def {a b : Instant} :
    a < b ↔ a.second < b.second ∨ a.second = b.second ∧ a.nano < b.nano :=
  Iff.rfl

theorem le_def {a b : Instant} :
    a ≤ b ↔ a.second < b.second ∨ a.second = b.second ∧ a.nano ≤ b.nano :=
  Iff.rfl

theorem ext {a b : Instant} (hs : a.second = b.second) (hn : a.nano = b.nano) : a = b := by
  cases a; cases b; simp_all

theorem le_refl (a : Instant) : a ≤ a := by
  rw [le_def]; omega

theorem le_trans {a b c : Instant} (h₁ : a ≤ b) (h₂ : b ≤ c) : a ≤ c := by
  rw [le_def] at *; omega

theorem le_total (a b : Instant) : a ≤ b ∨ b ≤ a := by
  simp only [le_def]; omega

theorem le_antisymm {a b : Instant} (h₁ : a ≤ b) (h₂ : b ≤ a) : a = b := by
  rw [le_def] at h₁ h₂
  exact ext (by omega) (by omega)

theorem lt_iff_not_ge {a b : Instant} : a < b ↔ ¬ b ≤ a := by
  rw [lt_def, le_def]; omega

/-- The second `second`, held if `leap`, at `nano`. -/
def ofParts (second : Int) (nano : Nat) (h : nano < 1000000000) (leap : Bool)
    (hl : leap = true → second % 60 = 59) : Instant :=
  if hleap : leap = true then
    ⟨second, 1000000000 + nano, by omega, fun _ => hl hleap⟩
  else
    ⟨second, nano, by omega, fun h' => absurd h' (by omega)⟩

end Instant

end Rationale.Time
