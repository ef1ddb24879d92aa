/-
  Rationale — a stable sort goes with selecting and joining.

  An order may leave rows equal, and a stable sort then keeps them as they
  came.  So it makes no difference whether rows are selected before or after
  they are sorted (`mergeSort_filter`), nor whether each of them is replaced by
  a block of rows of its own (`mergeSort_flatMap`).  Nor does it make one whether
  rows are selected before or after they are replaced (`filter_flatMap`).

  For the same reason sorting twice is sorting once, by the second order and
  then by the first (`mergeSort_mergeSort`): a sorted list is known by which
  rows come first among those that are level (`eq_of_level`).
-/

namespace Rationale.Sorting

variable {α β : Type} {le : α → α → Bool}

/-- The order is transitive, and of any two one is not after the other. -/
structure Linear (le : α → α → Bool) : Prop where
  trans : ∀ a b c, le a b = true → le b c = true → le a c = true
  total : ∀ a b, (le a b || le b a) = true

theorem Linear.refl (h : Linear le) (a : α) : le a a = true := by
  simpa using h.total a a

theorem Linear.on (h : Linear le) (key : β → α) : Linear fun b c => le (key b) (key c) where
  trans _ _ _ := h.trans _ _ _
  total _ _ := h.total _ _

theorem Linear.flip (h : Linear le) : Linear fun a b => le b a where
  trans _ _ _ hab hbc := h.trans _ _ _ hbc hab
  total a b := h.total b a

/-- Rows with distinct keys are in strict order. -/
theorem pairwise_mergeSort_of_nodup {κ : Type} {key : α → κ} {R : α → α → Prop} (h : Linear le)
    (hR : ∀ a b, le a b = true → key a ≠ key b → R a b) {l : List α} (hl : (l.map key).Nodup) :
    (l.mergeSort le).Pairwise R := by
  have hsorted := List.pairwise_mergeSort h.trans h.total l
  have hkeys : (l.mergeSort le).Pairwise fun a b => key a ≠ key b :=
    List.pairwise_map.1 (((List.mergeSort_perm l le).map key).nodup_iff.2 hl)
  exact (hsorted.and hkeys).imp fun hab => hR _ _ hab.1 hab.2

/-- **How rows came makes no difference** if no two of them are level. -/
theorem mergeSort_eq_of_perm (h : Linear le) {l l' : List α} (hp : l.Perm l')
    (hlevel : ∀ a ∈ l, ∀ b ∈ l, le a b = true → le b a = true → a = b) :
    l.mergeSort le = l'.mergeSort le := by
  refine List.Perm.eq_of_pairwise (fun a b ha hb => ?_) (List.pairwise_mergeSort h.trans h.total l)
    (List.pairwise_mergeSort h.trans h.total l') ?_
  · rw [List.mem_mergeSort] at ha hb
    exact hlevel a ha b (hp.mem_iff.2 hb)
  · exact ((List.mergeSort_perm l le).trans hp).trans (List.mergeSort_perm l' le).symm

/-- The place of a row in a sorted list. -/
theorem exists_mergeSort_cons (h : Linear le) (x : α) (l : List α) :
    ∃ as bs, (x :: l).mergeSort le = as ++ x :: bs ∧ l.mergeSort le = as ++ bs ∧
      (∀ a ∈ as, le x a = false) ∧ ∀ b ∈ bs, le x b = true := by
  obtain ⟨as, bs, h₁, h₂, has⟩ := List.mergeSort_cons h.trans h.total x l
  refine ⟨as, bs, h₁, h₂, fun a ha => by simpa using has a ha, ?_⟩
  have hs := List.pairwise_mergeSort h.trans h.total (x :: l)
  rw [h₁, List.pairwise_append, List.pairwise_cons] at hs
  exact hs.2.1.1

/-- A row goes behind those that come before it and in front of all others. -/
theorem mergeSort_cons_eq (h : Linear le) {x : α} {l as bs : List α}
    (hl : l.mergeSort le = as ++ bs) (has : ∀ a ∈ as, le x a = false)
    (hbs : ∀ b ∈ bs, le x b = true) : (x :: l).mergeSort le = as ++ x :: bs := by
  obtain ⟨as', bs', h₁, h₂, has', hbs'⟩ := exists_mergeSort_cons h x l
  rw [hl] at h₂
  -- both cuts are where the rows that come before `x` end
  rcases List.append_eq_append_iff.1 h₂ with ⟨c, rfl, rfl⟩ | ⟨c, rfl, rfl⟩
  · cases c with
    | nil => rw [h₁, List.append_nil, List.nil_append]
    | cons y c =>
      have h₃ := has' y (by simp)
      rw [hbs y (by simp)] at h₃
      cases h₃
  · cases c with
    | nil => rw [h₁, List.append_nil, List.nil_append]
    | cons y c =>
      have h₃ := has y (by simp)
      rw [hbs' y (by simp)] at h₃
      cases h₃

/-- **Selecting and sorting commute.** -/
theorem mergeSort_filter (h : Linear le) (p : α → Bool) (l : List α) :
    (l.filter p).mergeSort le = (l.mergeSort le).filter p := by
  induction l with
  | nil => simp
  | cons x l ih =>
    obtain ⟨as, bs, h₁, h₂, has, hbs⟩ := exists_mergeSort_cons h x l
    rw [h₂, List.filter_append] at ih
    rw [h₁, List.filter_append]
    by_cases hx : p x = true
    · rw [List.filter_cons_of_pos hx, List.filter_cons_of_pos hx]
      exact mergeSort_cons_eq h ih (fun a ha => has a (List.mem_filter.1 ha).1)
        fun b hb => hbs b (List.mem_filter.1 hb).1
    · rw [List.filter_cons_of_neg hx, List.filter_cons_of_neg hx, ih]

/-- A block of rows with one key stays together. -/
theorem mergeSort_append_block (h : Linear le) {x : α} {block l as bs : List α}
    (hblock : ∀ y ∈ block, ∀ z, le y z = le x z) (hl : l.mergeSort le = as ++ bs)
    (has : ∀ a ∈ as, le x a = false) (hbs : ∀ b ∈ bs, le x b = true)
    (hx : ∀ y ∈ block, le x y = true) : (block ++ l).mergeSort le = as ++ block ++ bs := by
  induction block with
  | nil => simpa using hl
  | cons y block ih =>
    have hy : ∀ z, le y z = le x z := hblock y (by simp)
    have hrest : (block ++ l).mergeSort le = as ++ (block ++ bs) := by
      rw [ih (fun z hz => hblock z (by simp [hz])) fun z hz => hx z (by simp [hz]),
        List.append_assoc]
    rw [List.cons_append, mergeSort_cons_eq h hrest]
    · simp
    · intro a ha
      rw [hy, has a ha]
    · intro b hb
      rw [hy]
      rcases List.mem_append.1 hb with hb | hb
      · exact hx b (by simp [hb])
      · exact hbs b hb

/-- **Joining and sorting commute**, if what is joined to a row keeps its key. -/
theorem mergeSort_flatMap (h : Linear le) {key : β → α} {rows : α → List β}
    (hkey : ∀ a, ∀ r ∈ rows a, key r = a) (l : List α) :
    (l.flatMap rows).mergeSort (fun r s => le (key r) (key s)) = (l.mergeSort le).flatMap rows := by
  induction l with
  | nil => simp
  | cons x l ih =>
    obtain ⟨as, bs, h₁, h₂, has, hbs⟩ := exists_mergeSort_cons h x l
    rw [h₂, List.flatMap_append] at ih
    rw [h₁, List.flatMap_append, List.flatMap_cons, List.flatMap_cons, ← List.append_assoc]
    cases hr : rows x with
    | nil => simpa using ih
    | cons r block =>
      have hx : ∀ s ∈ r :: block, key s = x := hr ▸ hkey x
      have hrow : ∀ {l : List α} {b : Bool}, (∀ a ∈ l, le x a = b) →
          ∀ s ∈ l.flatMap rows, le (key r) (key s) = b := by
        intro l b hl s hs
        obtain ⟨a, ha, hs⟩ := List.mem_flatMap.1 hs
        rw [hkey a s hs, hx r (by simp), hl a ha]
      refine mergeSort_append_block (x := r) (h.on key) (fun s hs t => ?_) ih (hrow has)
        (hrow hbs) fun s hs => ?_
      · rw [hx s hs, hx r (by simp)]
      · rw [hx s hs, hx r (by simp)]
        exact h.refl x

/-- **Joining and selecting commute**, if what is joined to a row keeps its key. -/
theorem filter_flatMap {κ : Type} {key : β → κ} {key' : α → κ} {rows : α → List β}
    (hkey : ∀ a, ∀ r ∈ rows a, key r = key' a) (p : κ → Bool) (l : List α) :
    (l.flatMap rows).filter (fun r => p (key r)) =
      (l.filter fun a => p (key' a)).flatMap rows := by
  induction l with
  | nil => rfl
  | cons a l ih =>
    rw [List.flatMap_cons, List.filter_append, ih]
    by_cases ha : p (key' a) = true
    · rw [List.filter_cons_of_pos (by simpa using ha), List.flatMap_cons, List.filter_eq_self.2]
      exact fun r hr => by rw [hkey a r hr, ha]
    · rw [List.filter_cons_of_neg (by simpa using ha), List.filter_eq_nil_iff.2, List.nil_append]
      exact fun r hr => by rwa [hkey a r hr]

theorem filter_eq_singleton [DecidableEq α] {l : List α} {a : α} (hl : l.Nodup) (ha : a ∈ l) :
    l.filter (· = a) = [a] := by
  induction l with
  | nil => cases ha
  | cons b l ih =>
    obtain ⟨hb, hl⟩ := List.nodup_cons.1 hl
    by_cases hba : b = a
    · rw [List.filter_cons_of_pos (by simpa using hba), List.filter_eq_nil_iff.2, hba]
      exact fun c hc hca => hb (by rwa [hba, ← of_decide_eq_true hca])
    · rw [List.filter_cons_of_neg (by simpa using hba)]
      exact ih hl ((List.mem_cons.1 ha).resolve_left (Ne.symm hba))

/-- What was joined to one of the rows. -/
theorem filter_flatMap_eq [DecidableEq α] {key : β → α} {rows : α → List β}
    (hkey : ∀ a, ∀ r ∈ rows a, key r = a) {l : List α} (hl : l.Nodup) {a : α} (ha : a ∈ l) :
    (l.flatMap rows).filter (key · = a) = rows a := by
  rw [filter_flatMap hkey (fun k => k = a), filter_eq_singleton hl ha, List.flatMap_singleton]

/-! ## Sorting twice -/

theorem mergeSort_congr {le' : α → α → Bool} {l : List α}
    (h : ∀ a ∈ l, ∀ b ∈ l, le a b = le' a b) : l.mergeSort le = l.mergeSort le' := by
  have hmap := List.map_mergeSort (f := id) h
  rwa [List.map_id, List.map_id] at hmap

/-- Rows that come after all others and are in order stay where they are. -/
theorem mergeSort_append_of_le (h : Linear le) {l t : List α}
    (ht : t.Pairwise fun a b => le a b = true) (hle : ∀ a ∈ l, ∀ b ∈ t, le a b = true) :
    (l ++ t).mergeSort le = l.mergeSort le ++ t := by
  induction l with
  | nil => simpa using List.mergeSort_of_pairwise ht
  | cons x l ih =>
    obtain ⟨as, bs, h₁, h₂, has, hbs⟩ := exists_mergeSort_cons h x l
    have hrest : (l ++ t).mergeSort le = as ++ (bs ++ t) := by
      rw [ih fun a ha => hle a (List.mem_cons_of_mem x ha), h₂, List.append_assoc]
    rw [h₁, List.cons_append, mergeSort_cons_eq h hrest has]
    · simp
    · intro b hb
      rcases List.mem_append.1 hb with hb | hb
      · exact hbs b hb
      · exact hle x List.mem_cons_self b hb

/-- Neither row has to come before the other. -/
def level (le : α → α → Bool) (a b : α) : Bool :=
  le a b && le b a

/-- The order `le`, and `le'` among rows that it leaves level. -/
def thenBy (le le' : α → α → Bool) (a b : α) : Bool :=
  le a b && (!le b a || le' a b)

theorem Linear.thenBy (h : Linear le) {le' : α → α → Bool} (h' : Linear le') :
    Linear (thenBy le le') where
  trans a b c hab hbc := by
    simp only [Sorting.thenBy, Bool.and_eq_true, Bool.or_eq_true, Bool.not_eq_true'] at *
    refine ⟨h.trans a b c hab.1 hbc.1, ?_⟩
    by_cases hca : le c a = true
    · -- then all three are level
      have hba := h.trans b c a hbc.1 hca
      have hcb := h.trans c a b hca hab.1
      rw [hba] at hab
      rw [hcb] at hbc
      exact .inr (h'.trans a b c (by simpa using hab.2) (by simpa using hbc.2))
    · exact .inl (by simpa using hca)
  total a b := by
    have hle := h.total a b
    have hle' := h'.total a b
    simp only [Sorting.thenBy, Bool.or_eq_true, Bool.and_eq_true, Bool.not_eq_true'] at *
    cases hab : le a b <;> cases hba : le b a <;> simp_all

/-- **A sorted list is known by the rows at each level.** -/
theorem eq_of_level (h : Linear le) {l l' : List α} (hl : l.Pairwise fun a b => le a b = true)
    (hl' : l'.Pairwise fun a b => le a b = true)
    (hlevel : ∀ x, l.filter (level le x) = l'.filter (level le x)) : l = l' := by
  have hrefl : ∀ a, level le a a = true := fun a => by simp [level, h.refl a]
  induction l generalizing l' with
  | nil =>
    cases l' with
    | nil => rfl
    | cons b l' =>
      have hb := hlevel b
      rw [List.filter_nil, List.filter_cons_of_pos (hrefl b)] at hb
      cases hb
  | cons a l ih =>
    cases l' with
    | nil =>
      have ha := hlevel a
      rw [List.filter_nil, List.filter_cons_of_pos (hrefl a)] at ha
      cases ha
    | cons b l' =>
      rw [List.pairwise_cons] at hl hl'
      -- each of the two is somewhere in the other list, so they are level
      have hmem : ∀ x, x ∈ a :: l ↔ x ∈ b :: l' := by
        intro x
        have hx := congrArg (x ∈ ·) (hlevel x)
        simpa only [List.mem_filter, hrefl x, and_true, eq_iff_iff] using hx
      have hab : le a b = true := by
        rcases List.mem_cons.1 ((hmem b).2 List.mem_cons_self) with rfl | hb
        · exact h.refl b
        · exact hl.1 b hb
      have hba : le b a = true := by
        rcases List.mem_cons.1 ((hmem a).1 List.mem_cons_self) with rfl | ha
        · exact h.refl a
        · exact hl'.1 a ha
      have hhead := hlevel a
      rw [List.filter_cons_of_pos (hrefl a), List.filter_cons_of_pos (by simp [level, hab, hba])]
        at hhead
      obtain ⟨rfl, -⟩ := List.cons.inj hhead
      have htails : ∀ x, l.filter (level le x) = l'.filter (level le x) := by
        intro x
        have hx := hlevel x
        by_cases hxa : level le x a = true
        · rw [List.filter_cons_of_pos hxa, List.filter_cons_of_pos hxa] at hx
          exact (List.cons.inj hx).2
        · rwa [List.filter_cons_of_neg hxa, List.filter_cons_of_neg hxa] at hx
      rw [ih hl.2 hl'.2 htails]

/-- **Sorting twice is sorting once**, by the second order and then by the first. -/
theorem mergeSort_mergeSort (h : Linear le) {le' : α → α → Bool} (h' : Linear le') (l : List α) :
    (l.mergeSort le').mergeSort le = l.mergeSort (thenBy le le') := by
  have hthen := h.thenBy h'
  refine eq_of_level h (List.pairwise_mergeSort h.trans h.total _) ?_ fun x => ?_
  · refine (List.pairwise_mergeSort hthen.trans hthen.total l).imp ?_
    intro a b hab
    exact (Bool.and_eq_true_iff.1 hab).1
  -- among rows that are level, only the first sorting does anything
  · have hlevel : ∀ a ∈ l.filter (level le x), ∀ b ∈ l.filter (level le x), le a b = true := by
      intro a ha b hb
      have ha := Bool.and_eq_true_iff.1 (List.mem_filter.1 ha).2
      have hb := Bool.and_eq_true_iff.1 (List.mem_filter.1 hb).2
      exact h.trans a x b ha.2 hb.1
    rw [← mergeSort_filter h, ← mergeSort_filter h', ← mergeSort_filter hthen]
    calc ((l.filter (level le x)).mergeSort le').mergeSort le
        = (l.filter (level le x)).mergeSort le' := by
          refine List.mergeSort_of_pairwise (List.pairwise_of_forall_mem_list ?_)
          intro a ha b hb
          exact hlevel a (List.mem_mergeSort.1 ha) b (List.mem_mergeSort.1 hb)
      _ = (l.filter (level le x)).mergeSort (thenBy le le') := by
          refine mergeSort_congr fun a ha b hb => ?_
          simp [thenBy, hlevel a ha b hb, hlevel b hb a ha]

end Rationale.Sorting
