/-
  Rationale — results that may be faults.

  A run of steps succeeds if and only if each of its steps does, and a fault of
  one of them is a fault of the run.  The warnings of a `Logged` run have no
  part in whether it succeeds, so its result is that of a run without warnings.

  * `mapM_eq_ok`: a traversal succeeds if and only if it does at every element;
  * `result_mapM`: the result of a traversal that gives warnings.
-/
import Mathlib.Data.List.Forall2
import Mathlib.Data.List.Perm.Basic
import Mathlib.Data.List.ReduceOption
import Rationale.Fault

namespace Rationale

variable {ε α β γ : Type}

/-! ## Steps -/

theorem ok_bind (a : α) (f : α → Except ε β) : (Except.ok a >>= f) = f a := rfl

theorem bind_eq_ok {x : Except ε α} {f : α → Except ε β} {b : β} :
    x >>= f = .ok b ↔ ∃ a, x = .ok a ∧ f a = .ok b := by
  cases x with
  | error e => simp [bind, Except.bind]
  | ok a => simp [bind, Except.bind]

theorem map_eq_ok {x : Except ε α} {f : α → β} {b : β} :
    f <$> x = .ok b ↔ ∃ a, x = .ok a ∧ f a = b := by
  cases x with
  | error e => simp [Functor.map, Except.map]
  | ok a => simp [Functor.map, Except.map]

theorem bind_eq_error {x : Except ε α} {f : α → Except ε β} {e : ε} :
    x >>= f = .error e ↔ x = .error e ∨ ∃ a, x = .ok a ∧ f a = .error e := by
  cases x with
  | error e => simp [bind, Except.bind]
  | ok a => simp [bind, Except.bind]

theorem map_eq_error {x : Except ε α} {f : α → β} {e : ε} : f <$> x = .error e ↔ x = .error e := by
  cases x with
  | error e => simp [Functor.map, Except.map]
  | ok a => simp [Functor.map, Except.map]

theorem exists_ok_iff_isOk {x : Except ε α} : (∃ a, x = .ok a) ↔ x.isOk = true := by
  cases x <;> simp [Except.isOk, Except.toBool]

/-- A run fails if it does not succeed. -/
theorem exists_error_iff {x : Except ε α} : (∃ e, x = .error e) ↔ ¬ ∃ a, x = .ok a := by
  cases x <;> simp

@[simp]
theorem pure_eq_ok {a b : α} : (pure a : Except ε α) = .ok b ↔ a = b := by
  simp [pure, Except.pure]

@[simp]
theorem toOption_eq_some {x : Except ε α} {a : α} : x.toOption = some a ↔ x = .ok a := by
  cases x <;> simp [Except.toOption]

/-- A traversal of at most one element. -/
theorem option_mapM_eq_ok {f : α → Except ε β} {o : Option α} {p : Option β} :
    o.mapM f = .ok p ↔
      o = none ∧ p = none ∨ ∃ a b, o = some a ∧ p = some b ∧ f a = .ok b := by
  cases o with
  | none => simp [eq_comm (a := none)]
  | some a =>
    rw [Option.mapM_some, map_eq_ok]
    simp [and_comm, eq_comm (b := p)]

theorem exists_option_mapM_eq_ok {f : α → Except ε β} {o : Option α}
    (h : ∀ a, o = some a → ∃ b, f a = .ok b) : ∃ p, o.mapM f = .ok p := by
  cases o with
  | none => exact ⟨none, rfl⟩
  | some a =>
    obtain ⟨b, hb⟩ := h a rfl
    exact ⟨some b, option_mapM_eq_ok.2 (.inr ⟨a, b, rfl, rfl, hb⟩)⟩

/-! ## Traversals -/

theorem exists_mem_left_of_forall₂ {R : α → β → Prop} {l : List α} {l' : List β}
    (h : List.Forall₂ R l l') {b : β} (hb : b ∈ l') : ∃ a ∈ l, R a b := by
  induction h with
  | nil => simp at hb
  | cons hab _ ih =>
    rcases List.mem_cons.1 hb with rfl | hb
    · exact ⟨_, by simp, hab⟩
    · obtain ⟨a, ha, hr⟩ := ih hb
      exact ⟨a, by simp [ha], hr⟩

theorem exists_mem_right_of_forall₂ {R : α → β → Prop} {l : List α} {l' : List β}
    (h : List.Forall₂ R l l') {a : α} (ha : a ∈ l) : ∃ b ∈ l', R a b := by
  obtain ⟨b, hb, hr⟩ := exists_mem_left_of_forall₂ (R := flip R) h.flip ha
  exact ⟨b, hb, hr⟩

/-- Two lists in step with a third one. -/
theorem forall₂_comp {R : α → β → Prop} {S : β → γ → Prop} {T : α → γ → Prop} {l : List α}
    {l' : List β} {l'' : List γ} (hR : List.Forall₂ R l l') (hS : List.Forall₂ S l' l'')
    (h : ∀ a ∈ l, ∀ b c, R a b → S b c → T a c) : List.Forall₂ T l l'' := by
  induction hR generalizing l'' with
  | nil =>
    cases hS
    exact .nil
  | @cons a b l l' hab _ ih =>
    cases hS with
    | cons hbc hS => exact .cons (h a (by simp) _ _ hab hbc) (ih hS fun c hc => h c (by simp [hc]))

/-- **A traversal succeeds if it does at every element.** -/
theorem mapM_eq_ok {f : α → Except ε β} {l : List α} {l' : List β} :
    l.mapM f = .ok l' ↔ List.Forall₂ (fun a b => f a = .ok b) l l' := by
  induction l generalizing l' with
  | nil => simp [eq_comm (a := [])]
  | cons a l ih =>
    rw [List.mapM_cons, bind_eq_ok]
    constructor
    · rintro ⟨b, hb, h⟩
      obtain ⟨bs, hbs, h⟩ := bind_eq_ok.1 h
      cases h
      exact .cons hb (ih.1 hbs)
    · rintro (_ | ⟨hb, hbs⟩)
      exact ⟨_, hb, bind_eq_ok.2 ⟨_, ih.2 hbs, rfl⟩⟩

theorem mapM_congr {m : Type → Type} [Monad m] [LawfulMonad m] {f g : α → m β} {l : List α}
    (h : ∀ a ∈ l, f a = g a) : l.mapM f = l.mapM g := by
  induction l with
  | nil => rfl
  | cons a l ih =>
    rw [List.mapM_cons, List.mapM_cons, h a (by simp), ih fun b hb => h b (by simp [hb])]

/-- What comes of each element may be replaced at the end. -/
theorem mapM_map_eq {m : Type → Type} [Monad m] [LawfulMonad m] {f : α → m β} {f' : α → m γ}
    {g : β → γ} {l : List α} (h : ∀ a ∈ l, f' a = g <$> f a) :
    l.mapM f' = List.map g <$> l.mapM f := by
  induction l with
  | nil => simp
  | cons a l ih =>
    rw [List.mapM_cons, List.mapM_cons, h a (by simp), ih fun b hb => h b (by simp [hb])]
    simp only [bind_map_left, map_bind, map_pure, List.map_cons]

theorem exists_mapM_eq_ok {f : α → Except ε β} {l : List α} (h : ∀ a ∈ l, ∃ b, f a = .ok b) :
    ∃ l', l.mapM f = .ok l' := by
  induction l with
  | nil => exact ⟨[], rfl⟩
  | cons a l ih =>
    obtain ⟨b, hb⟩ := h a (by simp)
    obtain ⟨bs, hbs⟩ := ih fun c hc => h c (by simp [hc])
    exact ⟨b :: bs, mapM_eq_ok.2 (.cons hb (mapM_eq_ok.1 hbs))⟩

/-- A fault of a traversal is one of an element. -/
theorem exists_of_mapM_eq_error {f : α → Except ε β} {l : List α} {e : ε}
    (h : l.mapM f = .error e) : ∃ a ∈ l, f a = .error e := by
  induction l with
  | nil => cases h
  | cons a l ih =>
    rw [List.mapM_cons, bind_eq_error] at h
    rcases h with ha | ⟨b, -, h⟩
    · exact ⟨a, by simp, ha⟩
    · rcases bind_eq_error.1 h with hl | ⟨bs, -, h⟩
      · obtain ⟨c, hc, hce⟩ := ih hl
        exact ⟨c, by simp [hc], hce⟩
      · cases h

theorem exists_mapM_eq_error_iff {f : α → Except ε β} {l : List α} :
    (∃ e, l.mapM f = .error e) ↔ ∃ a ∈ l, ∃ e, f a = .error e := by
  constructor
  · rintro ⟨e, h⟩
    obtain ⟨a, ha, hae⟩ := exists_of_mapM_eq_error h
    exact ⟨a, ha, e, hae⟩
  · rintro ⟨a, ha, hae⟩
    refine exists_error_iff.2 fun ⟨l', hl⟩ => exists_error_iff.1 hae ?_
    obtain ⟨b, -, hb⟩ := exists_mem_right_of_forall₂ (mapM_eq_ok.1 hl) ha
    exact ⟨b, hb⟩

/-- What a traversal gives comes from an element. -/
theorem exists_of_mem_mapM {f : α → Except ε β} {l : List α} {l' : List β} (h : l.mapM f = .ok l')
    {b : β} (hb : b ∈ l') : ∃ a ∈ l, f a = .ok b :=
  exists_mem_left_of_forall₂ (mapM_eq_ok.1 h) hb

/-- Every element gives something. -/
theorem exists_mem_of_mapM {f : α → Except ε β} {l : List α} {l' : List β} (h : l.mapM f = .ok l')
    {a : α} (ha : a ∈ l) : ∃ b ∈ l', f a = .ok b :=
  exists_mem_right_of_forall₂ (mapM_eq_ok.1 h) ha

/-- What is done to each result of a traversal can be done along with it. -/
theorem mapM_map_eq_ok {f : α → Except ε β} {g : α → Except ε γ} {h : β → γ} {l : List α}
    {l' : List β} (hfg : ∀ a ∈ l, ∀ b, f a = .ok b → g a = .ok (h b)) (hl : l.mapM f = .ok l') :
    l.mapM g = .ok (l'.map h) := by
  rw [mapM_eq_ok] at hl ⊢
  induction hl with
  | nil => exact .nil
  | @cons a b l l' hab _ ih =>
    exact .cons (hfg a (by simp) b hab) (ih fun c hc => hfg c (by simp [hc]))

/-- A traversal keeps the keys that each step keeps. -/
theorem map_eq_of_mapM {f : α → Except ε β} {key : α → γ} {key' : β → γ} {l : List α} {l' : List β}
    (hkey : ∀ a ∈ l, ∀ b, f a = .ok b → key' b = key a) (hl : l.mapM f = .ok l') :
    l'.map key' = l.map key := by
  rw [mapM_eq_ok] at hl
  induction hl with
  | nil => rfl
  | @cons a b l l' hab _ ih =>
    rw [List.map_cons, List.map_cons, hkey a (by simp) b hab, ih fun c hc => hkey c (by simp [hc])]

/-- A traversal in another order gives the same in another order. -/
theorem exists_mapM_perm {f : α → Except ε β} {l l' : List α} {bs : List β} (h : l.Perm l')
    (hl : l.mapM f = .ok bs) : ∃ bs', l'.mapM f = .ok bs' ∧ bs.Perm bs' := by
  obtain ⟨bs', hbs', hperm⟩ := List.perm_comp_forall₂ h.symm (mapM_eq_ok.1 hl)
  exact ⟨bs', mapM_eq_ok.2 hbs', hperm.symm⟩

/-- The first element that is refused decides. -/
theorem mapM_eq_error_of_find? {f : α → Except ε β} {p : α → Bool} {l : List α} {a : α} {e : ε}
    (hok : ∀ b ∈ l, p b = false → ∃ c, f b = .ok c) (hl : l.find? p = some a)
    (ha : f a = .error e) : l.mapM f = .error e := by
  induction l with
  | nil => cases hl
  | cons b l ih =>
    rw [List.mapM_cons]
    cases hp : p b with
    | true =>
      rw [List.find?_cons_of_pos hp] at hl
      cases hl
      rw [ha]
      rfl
    | false =>
      rw [List.find?_cons_of_neg (by simp [hp])] at hl
      obtain ⟨c, hc⟩ := hok b (by simp) hp
      rw [hc, ok_bind, ih (fun d hd => hok d (by simp [hd])) hl]
      rfl

/-- A traversal goes with selecting, if the same is selected afterwards. -/
theorem mapM_filter_eq_ok {f : α → Except ε β} {p : α → Bool} {q : β → Bool} {l : List α}
    {l' : List β} (hpq : ∀ a ∈ l, ∀ b, f a = .ok b → q b = p a) (h : l.mapM f = .ok l') :
    (l.filter p).mapM f = .ok (l'.filter q) := by
  rw [mapM_eq_ok] at h ⊢
  induction h with
  | nil => simp
  | @cons a b l l' hab _ ih =>
    have hqp := hpq a (by simp) b hab
    have ih := ih fun c hc => hpq c (by simp [hc])
    by_cases hp : p a = true
    · rw [List.filter_cons_of_pos hp, List.filter_cons_of_pos (by rw [hqp, hp])]
      exact .cons hab ih
    · rw [List.filter_cons_of_neg hp, List.filter_cons_of_neg (by rw [hqp]; exact hp)]
      exact ih

/-- The same, where some elements give nothing. -/
theorem exists_mapM_filter {f : α → Except ε (Option β)} {p : α → Bool} {q : β → Bool} {l : List α}
    {os : List (Option β)} (hpq : ∀ a b, f a = .ok (some b) → q b = p a) (h : l.mapM f = .ok os) :
    ∃ os', (l.filter p).mapM f = .ok os' ∧ os'.reduceOption = os.reduceOption.filter q := by
  rw [mapM_eq_ok] at h
  induction h with
  | nil => exact ⟨[], rfl, rfl⟩
  | @cons a o l os hao _ ih =>
    obtain ⟨os', hos', heq⟩ := ih
    by_cases hp : p a = true
    · refine ⟨o :: os', ?_, ?_⟩
      · rw [List.filter_cons_of_pos hp]
        exact mapM_eq_ok.2 (.cons hao (mapM_eq_ok.1 hos'))
      · cases o with
        | none => exact heq
        | some b =>
          rw [List.reduceOption_cons_of_some, List.reduceOption_cons_of_some,
            List.filter_cons_of_pos (by rw [hpq a b hao, hp]), heq]
    · refine ⟨os', by rw [List.filter_cons_of_neg hp, hos'], ?_⟩
      cases o with
      | none => exact heq
      | some b =>
        rw [List.reduceOption_cons_of_some, List.filter_cons_of_neg (by rw [hpq a b hao]; exact hp),
          heq]

/-- What is kept of a traversal has the keys of the elements that gave something. -/
theorem sublist_of_mapM_reduceOption {f : α → Except ε (Option β)} {key : α → γ} {key' : β → γ}
    {l : List α} {os : List (Option β)}
    (hkey : ∀ a ∈ l, ∀ b, f a = .ok (some b) → key' b = key a) (h : l.mapM f = .ok os) :
    (os.reduceOption.map key').Sublist (l.map key) := by
  rw [mapM_eq_ok] at h
  induction h with
  | nil => exact .slnil
  | @cons a o l os hao _ ih =>
    have ih := ih fun b hb => hkey b (by simp [hb])
    cases o with
    | none => exact ih.cons _
    | some b =>
      rw [List.reduceOption_cons_of_some, List.map_cons, List.map_cons, hkey a (by simp) b hao]
      exact ih.cons_cons _

/-- A traversal goes with looking up. -/
theorem mapM_find?_eq_ok {f : α → Except ε β} {p : α → Bool} {q : β → Bool} {l : List α}
    {l' : List β} (hpq : ∀ a b, f a = .ok b → q b = p a) (h : l.mapM f = .ok l') :
    (l.find? p).mapM f = .ok (l'.find? q) := by
  rw [mapM_eq_ok] at h
  induction h with
  | nil => rfl
  | @cons a b l l' hab _ ih =>
    rw [List.find?_cons, List.find?_cons, hpq a b hab]
    cases p a with
    | true => exact option_mapM_eq_ok.2 (.inr ⟨a, b, rfl, rfl, hab⟩)
    | false => exact ih

/-! ## Decoded texts -/

theorem Coded.decode_eq_ok [Coded α] {s : String} {a : α} :
    Coded.decode s = .ok a ↔ Coded.read? s = some a := by
  unfold Coded.decode
  cases Coded.read? (α := α) s <;> simp

/-- Each value has one spelling only. -/
def Coded.Exact (α : Type) [Coded α] : Prop :=
  ∀ p ∈ (spellings : List (String × α)), text p.2 = p.1

instance [Coded α] : Decidable (Coded.Exact α) :=
  inferInstanceAs (Decidable (∀ p ∈ (Coded.spellings : List (String × α)), Coded.text p.2 = p.1))

theorem Coded.Exact.decode_eq_ok [Coded α] (h : Exact α) {s : String} {a : α} :
    Coded.decode s = .ok a ↔ s = text a := by
  constructor
  · intro hs
    obtain ⟨l, l', hl, -⟩ := List.lookup_eq_some_iff.1 (Coded.decode_eq_ok.1 hs)
    exact (h (s, a) (by rw [hl]; simp)).symm
  · rintro rfl
    exact decode_text a

theorem exact_polarity : Coded.Exact Polarity := by decide

theorem exact_basisType : Coded.Exact BasisType := by decide

theorem exact_targetType : Coded.Exact TargetType := by decide

theorem exact_rootTargetType : Coded.Exact RootTargetType := by decide

theorem exact_atomType : Coded.Exact AtomType := by decide

theorem exact_sourceExcerptType : Coded.Exact SourceExcerptType := by decide

theorem exact_sentenceType : Coded.Exact SentenceType := by decide

theorem Time.Instant.decode_eq_ok {s : String} {t : Time.Instant} :
    Time.Instant.decode s = .ok t ↔ Time.Instant.read s = .ok t := by
  unfold Time.Instant.decode
  cases Time.Instant.read s <;> simp

/-! ## Runs with warnings -/

namespace Logged

@[simp] theorem result_ofExcept (r : Except Fault α) : (ofExcept r).result = r := rfl

@[simp] theorem result_fail (e : Fault) : (fail e : Logged α).result = .error e := rfl

@[simp] theorem result_warn (ws : List Warning) : (warn ws).result = .ok () := rfl

theorem ofExcept_ok_bind (a : α) (f : α → Logged β) : (ofExcept (.ok a) >>= f) = f a :=
  pure_bind a f

theorem ofExcept_error_bind (e : Fault) (f : α → Logged β) :
    (ofExcept (.error e) >>= f) = fail e := rfl

theorem bind_congr {x : Logged α} {f g : α → Logged β}
    (h : ∀ a, x.result = .ok a → f a = g a) : (x >>= f) = (x >>= g) := by
  show Logged.bind x f = Logged.bind x g
  unfold Logged.bind
  cases hx : x.result with
  | error e => rfl
  | ok a =>
    dsimp only
    rw [h a hx]

theorem ofExcept_map (f : α → β) (r : Except Fault α) : ofExcept (f <$> r) = f <$> ofExcept r := by
  cases r <;> rfl

theorem result_map (f : α → β) (x : Logged α) : (f <$> x).result = f <$> x.result := by
  rcases x with ⟨_ | _, _⟩ <;> rfl

theorem warnings_map (f : α → β) (x : Logged α) : (f <$> x).warnings = x.warnings := by
  rw [map_eq_pure_bind]
  rcases x with ⟨_ | _, ws⟩
  · rfl
  · exact List.append_nil ws

theorem result_mapM (f : α → Logged β) (l : List α) :
    (l.mapM f).result = l.mapM fun a => (f a).result := by
  induction l with
  | nil => rfl
  | cons a l ih =>
    rw [List.mapM_cons, List.mapM_cons, result_bind]
    refine congrArg _ (funext ?_)
    intro b
    rw [result_bind, ih]
    rfl

end Logged

end Rationale
