/-
  Rationale — decoded rows.

  Decoding keeps what a row says.  `Justification.row` is the row that a
  justification comes from, whatever of it has been filled in since, but for
  the spelling of its timestamp: that is as the store writes it.

  * `row_of_decode`: a decoded row is the row;
  * `exists_decode_iff`: what has to be readable for a row to be decoded.
-/
import Rationale.Proofs.Outcome
import Rationale.Reconstruction

namespace Rationale

open Time

/-! ## Rows of justifications -/

/-- The row of a justification, with its timestamp written anew. -/
def Justification.row (x : Justification) : JustificationRow where
  id := x.id
  rootTargetType := Coded.text x.rootTarget.type
  rootTargetId := x.rootTarget.id
  rootPolarity := Coded.text x.rootPolarity
  targetType := Coded.text x.target.type
  targetId := x.target.id
  basisType := Coded.text x.basis.type
  basisId := x.basis.id
  polarity := Coded.text x.polarity
  creatorId := x.creator.id (·.id)
  created := x.created.stored

namespace JustificationRow

/-- The row with another timestamp. -/
def createdAt (r : JustificationRow) (t : Instant) : JustificationRow :=
  { r with created := t.stored }

variable {r : JustificationRow} {x : Justification}

/-- The texts of a row are texts of their kinds. -/
structure Readable (r : JustificationRow) : Prop where
  rootTargetType : ∃ t : RootTargetType, r.rootTargetType = Coded.text t
  rootPolarity : ∃ p : Polarity, r.rootPolarity = Coded.text p
  targetType : ∃ t : TargetType, r.targetType = Coded.text t
  basisType : ∃ t : BasisType, r.basisType = Coded.text t
  polarity : ∃ p : Polarity, r.polarity = Coded.text p
  created : ∃ t, Instant.read r.created = .ok t

theorem decode_eq_ok :
    r.decode = .ok x ↔ ∃ rootTargetType rootPolarity targetType basisType polarity created,
      r.rootTargetType = Coded.text rootTargetType ∧ r.rootPolarity = Coded.text rootPolarity ∧
      r.targetType = Coded.text targetType ∧ r.basisType = Coded.text basisType ∧
      r.polarity = Coded.text polarity ∧ Instant.read r.created = .ok created ∧
      x = {
        id := r.id
        rootTarget := .resolve {} rootTargetType r.rootTargetId
        rootPolarity
        target := .resolve {} targetType r.targetId
        basis := .resolve {} basisType r.basisId
        polarity
        creator := .ref r.creatorId
        created
        counters := [] } := by
  simp only [decode, bind_eq_ok, pure_eq_ok, exact_rootTargetType.decode_eq_ok,
    exact_polarity.decode_eq_ok, exact_targetType.decode_eq_ok, exact_basisType.decode_eq_ok,
    Instant.decode_eq_ok]
  constructor
  · rintro ⟨rt, hrt, rp, hrp, tt, htt, bt, hbt, p, hp, t, ht, rfl⟩
    exact ⟨rt, rp, tt, bt, p, t, hrt, hrp, htt, hbt, hp, ht, rfl⟩
  · rintro ⟨rt, rp, tt, bt, p, t, hrt, hrp, htt, hbt, hp, ht, rfl⟩
    exact ⟨rt, hrt, rp, hrp, tt, htt, bt, hbt, p, hp, t, ht, rfl⟩

theorem exists_decode_iff : (∃ x, r.decode = .ok x) ↔ r.Readable := by
  simp only [decode_eq_ok]
  constructor
  · rintro ⟨x, rt, rp, tt, bt, p, t, hrt, hrp, htt, hbt, hp, ht, -⟩
    exact ⟨⟨rt, hrt⟩, ⟨rp, hrp⟩, ⟨tt, htt⟩, ⟨bt, hbt⟩, ⟨p, hp⟩, ⟨t, ht⟩⟩
  · rintro ⟨⟨rt, hrt⟩, ⟨rp, hrp⟩, ⟨tt, htt⟩, ⟨bt, hbt⟩, ⟨p, hp⟩, ⟨t, ht⟩⟩
    exact ⟨_, rt, rp, tt, bt, p, t, hrt, hrp, htt, hbt, hp, ht, rfl⟩

/-- **Decoding keeps the row.** -/
theorem row_of_decode (h : r.decode = .ok x) : x.row = r.createdAt x.created := by
  obtain ⟨rt, rp, tt, bt, p, t, hrt, hrp, htt, hbt, hp, -, rfl⟩ := decode_eq_ok.1 h
  simp only [Justification.row, createdAt, RootTarget.resolve_type, TargetOf.resolve_type,
    Basis.resolve_type, hrt, hrp, htt, hbt, hp]
  cases rt <;> cases tt <;> cases bt <;> rfl

theorem id_of_decode (h : r.decode = .ok x) : x.id = r.id := by
  obtain ⟨_, _, _, _, _, _, _, _, _, _, _, _, rfl⟩ := decode_eq_ok.1 h
  rfl

section

variable {t : Instant} (h : x.row = r.createdAt t)

include h

theorem id_of_row : x.id = r.id := by
  simp only [Justification.row, createdAt, mk.injEq] at h
  exact h.1

theorem rootTarget_of_row :
    Coded.text x.rootTarget.type = r.rootTargetType ∧ x.rootTarget.id = r.rootTargetId := by
  simp only [Justification.row, createdAt, mk.injEq] at h
  obtain ⟨-, htype, hid, -⟩ := h
  exact ⟨htype, hid⟩

theorem target_of_row : Coded.text x.target.type = r.targetType ∧ x.target.id = r.targetId := by
  simp only [Justification.row, createdAt, mk.injEq] at h
  obtain ⟨-, -, -, -, htype, hid, -⟩ := h
  exact ⟨htype, hid⟩

theorem basis_of_row : Coded.text x.basis.type = r.basisType ∧ x.basis.id = r.basisId := by
  simp only [Justification.row, createdAt, mk.injEq] at h
  obtain ⟨-, -, -, -, -, -, htype, hid, -⟩ := h
  exact ⟨htype, hid⟩

end

end JustificationRow

/-! ## Other rows -/

theorem PropositionRow.decode_eq_ok {r : PropositionRow} {p : Proposition} :
    r.decode = .ok p ↔
      ∃ t, Instant.read r.created = .ok t ∧ p = ⟨r.id, r.text, r.creatorId, t⟩ := by
  simp only [PropositionRow.decode, bind_eq_ok, pure_eq_ok, Instant.decode_eq_ok, eq_comm (a := p)]

theorem PropositionRow.id_of_decode {r : PropositionRow} {p : Proposition} (h : r.decode = .ok p) :
    p.id = r.id := by
  obtain ⟨_, _, rfl⟩ := PropositionRow.decode_eq_ok.1 h
  rfl

theorem JoinedQuote.decode_eq_ok {q : JoinedQuote} {w : WritQuote} :
    q.decode = .ok w ↔ ∃ t, Instant.read q.quote.created = .ok t ∧
      w = ⟨q.quote.id, q.quote.quoteText, ⟨q.quote.writId, q.writTitle⟩, q.quote.creatorId, t,
        none⟩ := by
  simp only [JoinedQuote.decode, bind_eq_ok, pure_eq_ok, Instant.decode_eq_ok, eq_comm (a := w)]

theorem JoinedQuote.id_of_decode {q : JoinedQuote} {w : WritQuote} (h : q.decode = .ok w) :
    w.id = q.quote.id := by
  obtain ⟨_, _, rfl⟩ := JoinedQuote.decode_eq_ok.1 h
  rfl

end Rationale
