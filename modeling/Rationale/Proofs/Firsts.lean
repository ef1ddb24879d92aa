/-
  Rationale — the first of each key.

  Rows repeat what they tell, and of everything that has a key only what was
  told first is kept: `firsts` is what is left of a list.  Keeping goes row by
  row (`gather`): a row whose key is there is skipped without a look at it, and
  any other is decoded, which may fail or show that there is nothing to keep.

  * `find?_firsts`: looking a key up does not tell the difference;
  * `foldlM_gather`: gathering rows is decoding the firsts of them.
-/
import Mathlib.Data.List.Nodup
import Rationale.Proofs.Outcome

namespace Rationale.Gather

variable {ε α β κ ι : Type} [DecidableEq κ]

/-! ## The first of each key -/

/-- What is left of a list when only the first of each key is kept. -/
def firsts (key : α → κ) : List α → List α
  | [] => []
  | a :: l => a :: (firsts key l).filter fun b => key b ≠ key a

variable {key : α → κ}

theorem mem_of_mem_firsts {a : α} {l : List α} (h : a ∈ firsts key l) : a ∈ l := by
  induction l with
  | nil => exact h
  | cons b l ih =>
    rcases List.mem_cons.1 h with rfl | h
    · simp
    · exact List.mem_cons_of_mem _ (ih (List.mem_filter.1 h).1)

variable (key) in
theorem exists_mem_firsts {a : α} {l : List α} (h : a ∈ l) : ∃ b ∈ firsts key l, key b = key a := by
  induction l with
  | nil => cases h
  | cons c l ih =>
    by_cases hac : key a = key c
    · exact ⟨c, by simp [firsts], hac.symm⟩
    · obtain ⟨b, hb, hba⟩ := ih ((List.mem_cons.1 h).resolve_left fun hac' => hac (by rw [hac']))
      exact ⟨b, List.mem_cons_of_mem _ (List.mem_filter.2 ⟨hb, by simpa [hba] using hac⟩), hba⟩

theorem firsts_sublist (l : List α) : (firsts key l).Sublist l := by
  induction l with
  | nil => exact .slnil
  | cons a l ih => exact (List.filter_sublist.trans ih).cons_cons a

theorem nodup_firsts (l : List α) : ((firsts key l).map key).Nodup := by
  induction l with
  | nil => exact List.nodup_nil
  | cons a l ih =>
    rw [firsts, List.map_cons, List.nodup_cons]
    refine ⟨fun ha => ?_, ih.sublist (List.filter_sublist.map key)⟩
    obtain ⟨b, hb, hba⟩ := List.mem_map.1 ha
    exact absurd hba (by simpa using (List.mem_filter.1 hb).2)

theorem find?_firsts (key : α → κ) (k : κ) (l : List α) :
    (firsts key l).find? (key · = k) = l.find? (key · = k) := by
  induction l with
  | nil => rfl
  | cons a l ih =>
    rw [firsts, List.find?_cons, List.find?_cons]
    by_cases h : key a = k
    · simp [h]
    · simp only [h, decide_false]
      rw [List.find?_filter, ← ih]
      congr 1
      funext b
      by_cases hb : key b = k
      · simp [hb, Ne.symm h]
      · simp [hb]

theorem firsts_append (l l' : List α) :
    firsts key (l ++ l') = firsts key l ++ (firsts key l').filter fun b => key b ∉ l.map key := by
  induction l with
  | nil =>
    rw [List.nil_append, firsts, List.nil_append, List.filter_eq_self.2]
    simp
  | cons a l ih =>
    rw [List.cons_append, firsts, firsts, ih, List.filter_append, List.filter_filter,
      List.cons_append]
    simp

theorem firsts_eq_self {l : List α} (h : (l.map key).Nodup) : firsts key l = l := by
  induction l with
  | nil => rfl
  | cons a l ih =>
    rw [List.map_cons, List.nodup_cons] at h
    rw [firsts, ih h.2, List.filter_eq_self.2]
    intro b hb
    have hba : key b ≠ key a := fun hba => h.1 (hba ▸ List.mem_map_of_mem hb)
    simpa using hba

theorem filter_firsts {p : α → Bool} (hp : ∀ a b, key a = key b → p a = p b) (l : List α) :
    (firsts key l).filter p = firsts key (l.filter p) := by
  induction l with
  | nil => rfl
  | cons a l ih =>
    rw [firsts]
    by_cases ha : p a = true
    · rw [List.filter_cons_of_pos ha, List.filter_cons_of_pos ha, firsts, ← ih, List.filter_filter,
        List.filter_filter]
      simp only [Bool.and_comm]
    · rw [List.filter_cons_of_neg ha, List.filter_cons_of_neg ha, ← ih, List.filter_filter]
      refine List.filter_congr ?_
      intro b _
      by_cases hb : p b = true
      · have hba : key b ≠ key a := fun hba => ha (hp b a hba ▸ hb)
        simp [hba]
      · simp [hb]

theorem firsts_map (key : β → κ) (f : α → β) (l : List α) :
    firsts key (l.map f) = (firsts (fun a => key (f a)) l).map f := by
  induction l with
  | nil => rfl
  | cons a l ih =>
    rw [List.map_cons, firsts, firsts, ih, List.filter_map, List.map_cons]
    rfl

/-- All that counts of keys is which of them are equal. -/
theorem firsts_congr {κ' : Type} [DecidableEq κ'] {key' : α → κ'}
    (h : ∀ a b, key a = key b ↔ key' a = key' b) (l : List α) : firsts key l = firsts key' l := by
  induction l with
  | nil => rfl
  | cons a l ih =>
    rw [firsts, firsts, ih]
    simp only [ne_eq, h]

/-- Elements that have the same key are the same. -/
def Agree (key : α → κ) (l : List α) : Prop :=
  ∀ a ∈ l, ∀ b ∈ l, key a = key b → a = b

instance [DecidableEq α] (key : α → κ) (l : List α) : Decidable (Agree key l) :=
  inferInstanceAs (Decidable (∀ a ∈ l, ∀ b ∈ l, key a = key b → a = b))

omit [DecidableEq κ] in
theorem Agree.of_mem {l l' : List α} (h : Agree key l) (hmem : ∀ a, a ∈ l ↔ a ∈ l') :
    Agree key l' :=
  fun a ha b hb => h a ((hmem a).2 ha) b ((hmem b).2 hb)

theorem mem_firsts_iff {l : List α} (h : Agree key l) {a : α} : a ∈ firsts key l ↔ a ∈ l := by
  refine ⟨mem_of_mem_firsts, fun ha => ?_⟩
  obtain ⟨b, hb, hba⟩ := exists_mem_firsts key ha
  exact h b (mem_of_mem_firsts hb) a ha hba ▸ hb

/-- **Which comes first makes no difference** if elements with the same key are
    the same. -/
theorem perm_firsts {l l' : List α} (h : Agree key l) (hmem : ∀ a, a ∈ l ↔ a ∈ l') :
    (firsts key l).Perm (firsts key l') := by
  have hnodup : ∀ l : List α, (firsts key l).Nodup := fun l =>
    List.Nodup.of_map key (nodup_firsts l)
  refine (List.perm_ext_iff_of_nodup (hnodup l) (hnodup l')).2 fun a => ?_
  rw [mem_firsts_iff h, mem_firsts_iff (h.of_mem hmem), hmem a]

/-- Where each element is its own key, repetitions are left out. -/
theorem firsts_id : (l : List κ) → firsts id l = l.eraseDups
  | [] => rfl
  | a :: l => by
    have hlt : (l.filter fun b => !b == a).length < (a :: l).length :=
      Nat.lt_succ_of_le (List.length_filter_le ..)
    have hkey : ∀ b c : κ, id b = id c → (!b == a) = !c == a := fun b c h => by
      rw [show b = c from h]
    rw [firsts, List.eraseDups_cons, ← firsts_id (l.filter fun b => !b == a), ← filter_firsts hkey]
    congr 2
    funext b
    simp [Bool.beq_eq_decide_eq]
termination_by l => l.length
decreasing_by exact hlt

/-- Blocks that repeat one element each. -/
theorem firsts_flatMap_of_const {js : List ι} {block : ι → List α} {x : ι → α}
    (hne : ∀ j ∈ js, block j ≠ []) (hx : ∀ j ∈ js, ∀ a ∈ block j, a = x j)
    (h : (js.map fun j => key (x j)).Nodup) : firsts key (js.flatMap block) = js.map x := by
  induction js with
  | nil => rfl
  | cons j js ih =>
    rw [List.map_cons, List.nodup_cons] at h
    have hj : firsts key (block j) = [x j] := by
      cases hb : block j with
      | nil => exact absurd hb (hne j (by simp))
      | cons a l =>
        have hall : ∀ b ∈ a :: l, b = x j := hb ▸ hx j (by simp)
        rw [firsts, hall a (by simp), List.filter_eq_nil_iff.2]
        intro b hb
        rw [hall b (by simp [mem_of_mem_firsts hb])]
        simp
    rw [List.flatMap_cons, firsts_append, hj,
      ih (fun i hi => hne i (by simp [hi])) (fun i hi => hx i (by simp [hi])) h.2,
      List.filter_eq_self.2, List.map_cons, List.singleton_append]
    intro b hb
    obtain ⟨i, hi, rfl⟩ := List.mem_map.1 hb
    have hk : ∀ a ∈ block j, key a ≠ key (x i) := by
      intro a ha hai
      rw [hx j (by simp) a ha] at hai
      exact h.1 (hai ▸ List.mem_map_of_mem hi)
    simpa using hk

/-- Blocks that are all the same, where there are any. -/
theorem firsts_flatMap_of_same {js : List ι} {block : ι → List α} {b : List α}
    (h : ∀ j ∈ js, block j = b ∨ block j = []) (hb : ∃ j ∈ js, block j = b) :
    firsts key (js.flatMap block) = firsts key b := by
  have hrest : ∀ {js : List ι}, (∀ j ∈ js, block j = b ∨ block j = []) →
      (firsts key (js.flatMap block)).filter (fun a => key a ∉ b.map key) = [] := by
    intro js h
    rw [List.filter_eq_nil_iff]
    intro a ha
    obtain ⟨j, hj, haj⟩ := List.mem_flatMap.1 (mem_of_mem_firsts ha)
    rcases h j hj with hj | hj
    · rw [hj] at haj
      simpa using ⟨a, haj, rfl⟩
    · simp [hj] at haj
  induction js with
  | nil => simp at hb
  | cons j js ih =>
    have hjs : ∀ i ∈ js, block i = b ∨ block i = [] := fun i hi => h i (by simp [hi])
    rw [List.flatMap_cons, firsts_append]
    rcases h j (by simp) with hj | hj
    · rw [hj, hrest hjs, List.append_nil]
    · obtain ⟨i, hi, hib⟩ := hb
      rcases List.mem_cons.1 hi with rfl | hi
      · rw [hib, hrest hjs, List.append_nil]
      · rw [hj, ih hjs ⟨i, hi, hib⟩]
        simp [firsts]

/-- What `c` owns, of blocks that are owned by an element each. -/
theorem filter_firsts_flatMap {γ κ' : Type} [DecidableEq κ'] {js : List ι} {owner : ι → Option γ}
    {block : γ → List α} (own : α → κ') (name : γ → κ')
    (hown : ∀ c, ∀ a ∈ block c, own a = name c) (hkey : ∀ a b, key a = key b → own a = own b)
    {j : ι} (hj : j ∈ js) {c : γ} (hc : owner j = some c)
    (hname : ∀ i ∈ js, ∀ d, owner i = some d → name d = name c → d = c) :
    (firsts key (js.flatMap fun j => (owner j).elim [] block)).filter (fun a => own a = name c) =
      firsts key (block c) := by
  have hblock : (block c).filter (fun a => own a = name c) = block c :=
    List.filter_eq_self.2 fun a ha => by simpa using hown c a ha
  rw [filter_firsts fun a b hab => by rw [hkey a b hab], List.filter_flatMap]
  refine firsts_flatMap_of_same (fun i hi => ?_) ⟨j, hj, ?_⟩
  · cases hd : owner i with
    | none => exact .inr rfl
    | some d =>
      by_cases hdc : name d = name c
      · obtain rfl := hname i hi d hd hdc
        exact .inl hblock
      · refine .inr (List.filter_eq_nil_iff.2 ?_)
        intro a ha
        have had := hown d a ha
        simpa [had] using hdc
  · rw [hc]
    exact hblock

/-- What of `b :: l` is new beside the keys `ks`, if the key of `b` is not new. -/
theorem filter_firsts_cons_of_mem {b : α} {ks : List κ} (h : key b ∈ ks) (l : List α) :
    (firsts key (b :: l)).filter (key · ∉ ks) = (firsts key l).filter (key · ∉ ks) := by
  rw [firsts, List.filter_cons_of_neg (by simpa using h), List.filter_filter]
  refine List.filter_congr ?_
  intro c _
  by_cases hc : key c = key b
  · simp [hc, h]
  · simp [hc]

/-- The same, if the key of `b` is new. -/
theorem filter_firsts_cons_of_not_mem {b : α} {ks : List κ} (h : key b ∉ ks) (l : List α) :
    (firsts key (b :: l)).filter (key · ∉ ks) =
      b :: (firsts key l).filter (key · ∉ ks ++ [key b]) := by
  rw [firsts, List.filter_cons_of_pos (by simpa using h), List.filter_filter]
  simp [Bool.decide_and]

/-! ## Gathering row by row -/

variable {key : α → κ} {outKey : β → κ} {decode : α → Except ε (Option β)}

/-- Keeps what is decoded from `a`, unless its key is there. -/
def gather (key : α → κ) (outKey : β → κ) (decode : α → Except ε (Option β)) (kept : List β)
    (a : α) : Except ε (List β) :=
  if kept.any fun b => outKey b = key a then .ok kept
  else (fun o => kept ++ o.toList) <$> decode a

theorem gather_of_mem {kept : List β} {a : α} (h : key a ∈ kept.map outKey) :
    gather key outKey decode kept a = .ok kept := by
  rw [gather, if_pos]
  obtain ⟨b, hb, hba⟩ := List.mem_map.1 h
  exact List.any_eq_true.2 ⟨b, hb, by simpa using hba⟩

theorem gather_of_not_mem {kept : List β} {a : α} (h : key a ∉ kept.map outKey) :
    gather key outKey decode kept a = (fun o => kept ++ o.toList) <$> decode a := by
  rw [gather, if_neg]
  intro hany
  obtain ⟨b, hb, hba⟩ := List.any_eq_true.1 hany
  exact h (List.mem_map.2 ⟨b, hb, by simpa using hba⟩)

/-- What is gathered was kept before, or is decoded from an element. -/
theorem exists_of_mem_gather {kept kept' : List β} {l : List α} {b : β}
    (h : l.foldlM (gather key outKey decode) kept = .ok kept') (hb : b ∈ kept') :
    b ∈ kept ∨ ∃ a ∈ l, decode a = .ok (some b) := by
  induction l generalizing kept with
  | nil =>
    cases h
    exact .inl hb
  | cons a l ih =>
    rw [List.foldlM_cons, bind_eq_ok] at h
    obtain ⟨kept₁, hkept, h⟩ := h
    rcases ih h with hb | ⟨c, hc, hcb⟩
    · unfold gather at hkept
      split at hkept
      · cases hkept
        exact .inl hb
      · obtain ⟨o, ho, rfl⟩ := map_eq_ok.1 hkept
        rcases List.mem_append.1 hb with hb | hb
        · exact .inl hb
        · exact .inr ⟨a, by simp, by rw [ho, Option.mem_toList.1 hb]⟩
    · exact .inr ⟨c, List.mem_cons_of_mem a hc, hcb⟩

/-- Elements of which there is nothing to keep may be left out. -/
theorem reduceOption_mapM_filter (decode : α → Except ε (Option β)) {l : List α} {p : α → Bool}
    (h : ∀ a ∈ l, p a = false → decode a = .ok none) :
    List.reduceOption <$> (l.filter p).mapM decode = List.reduceOption <$> l.mapM decode := by
  induction l with
  | nil => rfl
  | cons a l ih =>
    have ih := ih fun b hb => h b (by simp [hb])
    rw [List.mapM_cons]
    by_cases ha : p a = true
    · rw [List.filter_cons_of_pos ha, List.mapM_cons]
      cases decode a with
      | error e => rfl
      | ok o =>
        have hcons : ∀ r : Except ε (List (Option β)),
            List.reduceOption <$> (r >>= fun os => pure (o :: os)) =
              (fun bs => o.toList ++ bs) <$> List.reduceOption <$> r := by
          intro r
          cases r with
          | error e => rfl
          | ok os => cases o <;> rfl
        rw [ok_bind, ok_bind, hcons, hcons, ih]
    · rw [List.filter_cons_of_neg ha, h a (by simp) (by simpa using ha), ih, ok_bind]
      cases l.mapM decode <;> rfl

/-- **Gathering decodes the first of each key.**  An element of which there is
    nothing to keep must not hide another one of its key. -/
theorem foldlM_gather_append (hkey : ∀ a b, decode a = .ok (some b) → outKey b = key a)
    {l : List α} (hnone : ∀ a ∈ l, ∀ b ∈ l, key a = key b → decode a = .ok none →
      decode b = .ok none) (kept : List β) :
    l.foldlM (gather key outKey decode) kept =
      (fun os => kept ++ List.reduceOption os) <$>
        ((firsts key l).filter fun a => key a ∉ kept.map outKey).mapM decode := by
  induction l generalizing kept with
  | nil =>
    show Except.ok kept = Except.ok (kept ++ [])
    rw [List.append_nil]
  | cons a l ih =>
    have ih := ih fun b hb c hc => hnone b (by simp [hb]) c (by simp [hc])
    rw [List.foldlM_cons]
    by_cases ha : key a ∈ kept.map outKey
    · rw [gather_of_mem ha, ok_bind, ih, filter_firsts_cons_of_mem ha]
    · rw [gather_of_not_mem ha, filter_firsts_cons_of_not_mem ha, List.mapM_cons]
      cases hd : decode a with
      | error e => rfl
      | ok o =>
        show l.foldlM (gather key outKey decode) (kept ++ o.toList) = _
        rw [ih, ok_bind]
        cases o with
        | some b =>
          rw [Option.toList_some, List.map_append, List.map_singleton, hkey a b hd]
          cases ((firsts key l).filter _).mapM decode with
          | error e => rfl
          | ok os =>
            simp [Functor.map, Except.map, ok_bind, pure, Except.pure, List.reduceOption]
        | none =>
          -- what is still to come of the key of `a` gives nothing either
          have hrest : ((firsts key l).filter fun b => key b ∉ kept.map outKey ++ [key a]) =
              ((firsts key l).filter fun b => key b ∉ kept.map outKey).filter
                fun b => key b ≠ key a := by
            rw [List.filter_filter]
            refine List.filter_congr ?_
            intro b _
            simp [Bool.and_comm]
          have hdrop : ∀ b ∈ (firsts key l).filter (fun b => key b ∉ kept.map outKey),
              decide (key b ≠ key a) = false → decode b = .ok none := by
            intro b hb hba
            have hbl := mem_of_mem_firsts (List.mem_filter.1 hb).1
            have hab : key b = key a := by simpa using hba
            exact hnone a (by simp) b (by simp [hbl]) hab.symm hd
          have hsame := reduceOption_mapM_filter decode hdrop
          rw [hrest, Option.toList_none, List.append_nil]
          generalize (firsts key l).filter (fun b => key b ∉ kept.map outKey) = rest at hsame
          have happend : ∀ r : Except ε (List (Option β)),
              (fun os => kept ++ List.reduceOption os) <$> r =
                (kept ++ ·) <$> List.reduceOption <$> r := by
            intro r
            cases r <;> rfl
          rw [happend, ← hsame]
          cases (rest.filter _).mapM decode <;> rfl

/-- Gathering from nothing. -/
theorem foldlM_gather (hkey : ∀ a b, decode a = .ok (some b) → outKey b = key a) {l : List α}
    (hnone : ∀ a ∈ l, ∀ b ∈ l, key a = key b → decode a = .ok none → decode b = .ok none) :
    l.foldlM (gather key outKey decode) [] = List.reduceOption <$> (firsts key l).mapM decode := by
  rw [foldlM_gather_append hkey hnone, List.filter_eq_self.2 (by simp)]
  rfl

omit [DecidableEq κ] in
/-- Where there is always something to keep. -/
theorem key_of_some {f : α → Except ε β} (hkey : ∀ a b, f a = .ok b → outKey b = key a) (a : α)
    (b : β) (h : some <$> f a = .ok (some b)) : outKey b = key a := by
  obtain ⟨_, hb, hsome⟩ := map_eq_ok.1 h
  cases hsome
  exact hkey a b hb

/-- Gathering what there is always something to keep of. -/
theorem foldlM_gather_some {f : α → Except ε β} (hkey : ∀ a b, f a = .ok b → outKey b = key a)
    (l : List α) :
    l.foldlM (gather key outKey fun a => some <$> f a) [] = (firsts key l).mapM f := by
  rw [foldlM_gather]
  · generalize firsts key l = l
    induction l with
    | nil => rfl
    | cons a l ih =>
      rw [List.mapM_cons, List.mapM_cons, ← ih]
      cases f a with
      | error e => rfl
      | ok b => cases l.mapM (fun a => some <$> f a) <;> rfl
  · exact key_of_some hkey
  · intro a _ b _ _ h
    obtain ⟨b', hb, hsome⟩ := map_eq_ok.1 h
    cases hsome

/-! ## Gathering in another order -/

section

variable {l l' : List α} {kept : List β} (hkey : ∀ a b, decode a = .ok (some b) → outKey b = key a)
  (hagree : Agree key l)

include hkey hagree

/-- Of elements that are the same there is nothing to keep alike. -/
theorem foldlM_gather_of_agree :
    l.foldlM (gather key outKey decode) [] = List.reduceOption <$> (firsts key l).mapM decode :=
  foldlM_gather hkey fun a ha b hb hab => hagree a ha b hb hab ▸ id

/-- **Gathering in another order** keeps the same in another order. -/
theorem exists_gather_perm (hmem : ∀ a, a ∈ l ↔ a ∈ l')
    (h : l.foldlM (gather key outKey decode) [] = .ok kept) :
    ∃ kept', l'.foldlM (gather key outKey decode) [] = .ok kept' ∧ kept.Perm kept' := by
  rw [foldlM_gather_of_agree hkey hagree] at h
  obtain ⟨os, hos, rfl⟩ := map_eq_ok.1 h
  obtain ⟨os', hos', hperm⟩ := exists_mapM_perm (perm_firsts hagree hmem) hos
  refine ⟨os'.reduceOption, ?_, hperm.filterMap id⟩
  rw [foldlM_gather_of_agree hkey (hagree.of_mem hmem), hos']
  rfl

/-- What is gathered is told apart by whatever tells the elements apart. -/
theorem nodup_gather {κ' : Type} {key' : α → κ'} {outKey' : β → κ'}
    (hkey' : ∀ a b, decode a = .ok (some b) → outKey' b = key' a) (hagree' : Agree key' l)
    (h : l.foldlM (gather key outKey decode) [] = .ok kept) : (kept.map outKey').Nodup := by
  rw [foldlM_gather_of_agree hkey hagree] at h
  obtain ⟨os, hos, rfl⟩ := map_eq_ok.1 h
  refine List.Nodup.sublist (sublist_of_mapM_reduceOption (fun a _ b hb => hkey' a b hb) hos) ?_
  refine List.Nodup.map_on (fun a ha b hb hab => ?_) (List.Nodup.of_map key (nodup_firsts l))
  exact hagree' a (mem_of_mem_firsts ha) b (mem_of_mem_firsts hb) hab

/-- Each key is kept once. -/
theorem nodup_gather_key (h : l.foldlM (gather key outKey decode) [] = .ok kept) :
    (kept.map outKey).Nodup :=
  nodup_gather hkey hagree hkey hagree h

end

end Rationale.Gather
