/-
  Rationale — composing in two styles at once.

  A query is sent with placeholders, and it means what it is with the arguments
  in their places.  `Agrees` relates a construction that is run in the one style
  with one that is run in the other: both bind the same arguments, and what
  they return is related.  There is one rule for each way to build a
  construction, so a query is gone through once for both styles.

  * `Ordered`: arguments show one after the other, in the order in which they
    are bound, and each of them once;
  * `Ordered.shows`: what such a construction returns;
  * `Ordered.splice`, `Ordered.mapM`: constructions made of ordered ones.
-/
import Rationale.Proofs.Placeholders

namespace Rationale.Sql

open Composing

/-- Behind the arguments `args`, `c` binds `as` with placeholders.  What it
    returns and what `d` returns with arguments in place are related, where
    these arguments are among `all`. -/
structure Agrees {α : Type} (ρ : Value → String) (all args as : List Value) (c d : Composing α)
    (R : α → α → Prop) : Prop where
  bound : ((c.run .numbered).run args).2 = args ++ as
  related : args ++ as <+: all → all.length < 2 ^ 64 → ∀ args',
    R ((c.run .numbered).run args).1 ((d.run (.inPlace ρ)).run args').1

namespace Agrees

variable {α β : Type} {ρ : Value → String} {all args as as' : List Value} {c d : Composing α}
  {f g : α → Composing β} {R : β → β → Prop} {S : α → α → Prop}

theorem pure {a b : β} (h : R a b) : Agrees ρ all args [] (pure a) (pure b) R where
  bound := (List.append_nil args).symm
  related _ _ _ := h

/-- **One step and then others**, which may make use of what it returns. -/
theorem bind (hc : Agrees ρ all args as c d S)
    (hf : ∀ a b, Agrees ρ all (args ++ as) as' (f a) (g b) fun x y => S a b → R x y) :
    Agrees ρ all args (as ++ as') (c >>= f) (d >>= g) R where
  bound := by
    show ((f _).run .numbered |>.run ((c.run .numbered).run args).2).2 = _
    rw [hc.bound, ← List.append_assoc]
    exact (hf _ ((d.run (.inPlace ρ)).run []).1).bound
  related hall hfits args' := by
    rw [← List.append_assoc] at hall
    have hS := hc.related ((List.prefix_append _ _).trans hall) hfits args'
    have hR := (hf _ _).related hall hfits ((d.run (.inPlace ρ)).run args').2 hS
    rw [← hc.bound] at hR
    exact hR

/-- One step, and what is made of what it returns. -/
theorem map {f g : α → β} (hc : Agrees ρ all args as c d S) (h : ∀ a b, S a b → R (f a) (g b)) :
    Agrees ρ all args as (c >>= fun a => Pure.pure (f a)) (d >>= fun b => Pure.pure (g b)) R := by
  have hbind := hc.bind fun a b => .pure (h a b)
  rwa [List.append_nil] at hbind

theorem mono {S : β → β → Prop} {c d : Composing β} (h : Agrees ρ all args as c d S)
    (hSR : ∀ a b, S a b → R a b) : Agrees ρ all args as c d R where
  bound := h.bound
  related hall hfits args' := hSR _ _ (h.related hall hfits args')

/-- An argument has the next placeholder. -/
theorem argument (v : Value) :
    Agrees ρ all args [v] (Composing.bind v) (Composing.bind v)
      (Shows ρ all [args.length + 1]) where
  bound := rfl
  related hall hfits _ := by
    refine Shows.argument ?_ hfits
    have hv := getElem?_behind hall (show 0 < [v].length from Nat.one_pos)
    rwa [Nat.zero_add] at hv

/-- A fragment has its placeholders behind those of other arguments. -/
theorem splice {F : Fragment} {ns : List Nat}
    (h : F.args.length < 2 ^ 64 → Shows ρ F.args ns F.sql (F.inPlace ρ)) :
    Agrees ρ all args F.args (Composing.splice F) (Composing.splice F)
      (Shows ρ all (ns.map (· + args.length))) where
  bound := rfl
  related hall hfits _ := by
    have hlength := hall.length_le
    rw [List.length_append] at hlength
    exact (h (by omega)).splice hall hfits

end Agrees

/-- The arguments of constructions one after the other. -/
theorem args_mapM {α β : Type} {f : α → Composing β} {bound : α → List Value} {style : Style}
    (h : ∀ a args, (((f a).run style).run args).2 = args ++ bound a) (l : List α)
    (args : List Value) : (((l.mapM f).run style).run args).2 = args ++ l.flatMap bound := by
  induction l generalizing args with
  | nil => exact (List.append_nil args).symm
  | cons a l ih =>
    rw [List.mapM_cons, List.flatMap_cons, ← List.append_assoc, ← h a args]
    exact ih _

/-- The arguments of fragments that are embedded one after the other. -/
theorem args_mapM_splice {α : Type} (f : α → Fragment) (l : List α) (style : Style)
    (args : List Value) : (((l.mapM fun a => splice (f a)).run style).run args).2 =
      args ++ l.flatMap fun a => (f a).args :=
  args_mapM (fun _ _ => rfl) l args

/-- **What a construction returns**, in either style. -/
theorem shows_of_agrees {ρ : Value → String} {as : List Value} {ns : List Nat}
    {c : Composing String} (h : ∀ all, Agrees ρ all [] as c c (Shows ρ all ns))
    (hfits : (fragment c).args.length < 2 ^ 64) :
    Shows ρ (fragment c).args ns (fragment c).sql (c.inPlace ρ) := by
  have hargs : (fragment c).args = as := (h []).bound
  rw [hargs] at hfits ⊢
  exact (h as).related (List.prefix_refl as) hfits []

/-! ## Arguments in order -/

/-- Arguments show once each, in the order in which they are bound. -/
def Ordered (c : Composing String) : Prop :=
  ∃ as, ∀ ρ all args, Agrees ρ all args as c c
    (Shows ρ all (List.range' (args.length + 1) as.length))

/-- The same for texts one after the other. -/
def OrderedAll (c : Composing (List String)) : Prop :=
  ∃ as, ∀ ρ all args, Agrees ρ all args as c c
    (ShowsAll ρ all (List.range' (args.length + 1) as.length))

/-- The placeholders of arguments that are bound one after the other. -/
theorem range'_append (args as as' : List Value) :
    List.range' (args.length + 1) as.length ++ List.range' ((args ++ as).length + 1) as'.length =
      List.range' (args.length + 1) (as ++ as').length := by
  rw [List.length_append, List.length_append, Nat.add_right_comm, List.range'_append_1]

namespace Ordered

variable {α : Type} {c d : Composing String}

theorem pure {t : String} (h : ∀ ρ all, Shows ρ all [] t t) : Ordered (pure t) :=
  ⟨[], fun ρ all _ => .pure (h ρ all)⟩

theorem argument (v : Value) : Ordered (Composing.bind v) :=
  ⟨[v], fun _ _ _ => .argument v⟩

/-- What an ordered construction returns. -/
theorem shows (h : Ordered c) (hfits : (fragment c).args.length < 2 ^ 64) (ρ : Value → String) :
    Shows ρ (fragment c).args (List.range' 1 (fragment c).args.length) (fragment c).sql
      (c.inPlace ρ) := by
  obtain ⟨as, h⟩ := h
  have hargs : (fragment c).args = as := (h ρ [] []).bound
  have hshows := shows_of_agrees (h ρ · []) hfits
  rwa [← hargs] at hshows

/-- **An ordered construction is embedded as an ordered one.** -/
theorem splice (h : Ordered c) : Ordered (Composing.splice (fragment c)) := by
  refine ⟨(fragment c).args, fun ρ all args => ?_⟩
  have hshows (hfits : (fragment c).args.length < 2 ^ 64) :
      Shows ρ (fragment c).args (List.range' 1 (fragment c).args.length) (fragment c).sql
        ((fragment c).inPlace ρ) := by
    have hc := h.shows hfits ρ
    rwa [hc.inPlace_eq]
  refine (Agrees.splice hshows).mono fun t u htu => htu.congr ?_
  simp only [Nat.add_comm _ args.length, List.map_add_range']

/-- Text is added to what an ordered construction returns. -/
theorem next {f : String → String} (hc : Ordered c)
    (hf : ∀ ρ all ns t u, Shows ρ all ns t u → Shows ρ all ns (f t) (f u)) :
    Ordered (c >>= fun t => Pure.pure (f t)) := by
  obtain ⟨as, hc⟩ := hc
  exact ⟨as, fun ρ all args => (hc ρ all args).map fun t u htu => hf _ _ _ _ _ htu⟩

/-- Two ordered constructions are put together in their order. -/
theorem next₂ {f : String → String → String} (hc : Ordered c) (hd : Ordered d)
    (hf : ∀ ρ all ns ns' t t' u u', Shows ρ all ns t u → Shows ρ all ns' t' u' →
      Shows ρ all (ns ++ ns') (f t t') (f u u')) :
    Ordered (c >>= fun t => d >>= fun t' => Pure.pure (f t t')) := by
  obtain ⟨as, hc⟩ := hc
  obtain ⟨as', hd⟩ := hd
  refine ⟨as ++ as', fun ρ all args => .bind (hc ρ all args) fun t u =>
    .map (hd ρ all (args ++ as)) fun t' u' htu' htu => ?_⟩
  rw [← range'_append]
  exact hf _ _ _ _ _ _ _ _ htu htu'

theorem mapM {l : List α} {f : α → Composing String} (h : ∀ a ∈ l, Ordered (f a)) :
    OrderedAll (l.mapM f) := by
  induction l with
  | nil => exact ⟨[], fun _ _ _ => .pure .nil⟩
  | cons a l ih =>
    obtain ⟨as, ha⟩ := h a List.mem_cons_self
    obtain ⟨as', hl⟩ := ih fun b hb => h b (List.mem_cons_of_mem a hb)
    rw [List.mapM_cons]
    refine ⟨as ++ as', fun ρ all args => .bind (ha ρ all args) fun t u =>
      .map (hl ρ all (args ++ as)) fun ts us hts ht => ?_⟩
    rw [← range'_append]
    exact .cons ht hts

end Ordered

/-- A list of texts is made one text. -/
theorem OrderedAll.next {c : Composing (List String)} {f : List String → String}
    (hc : OrderedAll c)
    (hf : ∀ ρ all ns ts us, ShowsAll ρ all ns ts us → Shows ρ all ns (f ts) (f us)) :
    Ordered (c >>= fun ts => pure (f ts)) := by
  obtain ⟨as, hc⟩ := hc
  exact ⟨as, fun ρ all args => (hc ρ all args).map fun ts us htu => hf _ _ _ _ _ htu⟩

/-! ## Closed queries -/

/-- The fragment has placeholders for all of its arguments and for nothing else,
    and with the arguments in their places it is what is composed. -/
structure Fragment.StandsFor (f : Fragment) (c : Composing String) : Prop where
  bare : .bare ∉ pieces f.sql
  placeholders : ∀ n, n ∈ f.placeholders ↔ 0 < n ∧ n ≤ f.args.length
  inPlace : ∀ ρ, f.inPlace ρ = c.inPlace ρ

/-- The fragment of a construction stands for it, wherever it is embedded. -/
def Covered (c : Composing String) : Prop :=
  ∃ ns, (∀ n, n ∈ ns ↔ 0 < n ∧ n ≤ (fragment c).args.length) ∧
    ∀ ρ, Shows ρ (fragment c).args ns (fragment c).sql (c.inPlace ρ)

variable {c : Composing String}

theorem Covered.standsFor (h : Covered c) : (fragment c).StandsFor c := by
  obtain ⟨ns, hns, hshows⟩ := h
  obtain ⟨hplaceholders, hbare⟩ := (hshows fun _ => "").placeholders_eq
  refine ⟨hbare, fun n => ?_, fun ρ => (hshows ρ).inPlace_eq⟩
  rw [hplaceholders, hns]

theorem Ordered.covered (h : Ordered c) (hfits : (fragment c).args.length < 2 ^ 64) :
    Covered c := by
  refine ⟨_, fun n => ?_, h.shows hfits⟩
  rw [List.mem_range'_1]
  omega

/-- The placeholders of all of `m` arguments, behind `k` others. -/
theorem mem_map_add_iff {ns : List Nat} {m : Nat} (h : ∀ n, n ∈ ns ↔ 0 < n ∧ n ≤ m) (k n : Nat) :
    n ∈ ns.map (· + k) ↔ k < n ∧ n ≤ m + k := by
  rw [List.mem_map]
  constructor
  · rintro ⟨i, hi, rfl⟩
    have hi := (h i).1 hi
    omega
  · intro hn
    exact ⟨n - k, (h _).2 (by omega), by omega⟩

/-- What is embedded in another construction. -/
theorem Covered.exists_splice (h : Covered c) : ∃ ns : List Nat,
    (∀ n, n ∈ ns ↔ 0 < n ∧ n ≤ (fragment c).args.length) ∧
    ∀ ρ all args, Agrees ρ all args (fragment c).args (splice (fragment c)) (splice (fragment c))
      (Shows ρ all (ns.map (· + args.length))) := by
  obtain ⟨ns, hns, hshows⟩ := h
  refine ⟨ns, hns, fun ρ all args => .splice fun _ => ?_⟩
  rw [(hshows ρ).inPlace_eq]
  exact hshows ρ

/-- A construction that shows its arguments in some order. -/
theorem covered_of_agrees {as : List Value} {ns : List Nat}
    (h : ∀ ρ all, Agrees ρ all [] as c c (Shows ρ all ns))
    (hns : ∀ n, n ∈ ns ↔ 0 < n ∧ n ≤ as.length) (hfits : as.length < 2 ^ 64) : Covered c := by
  have hargs : (fragment c).args = as := (h (fun _ => "") []).bound
  rw [← hargs] at hns hfits
  exact ⟨ns, hns, fun ρ => shows_of_agrees (h ρ) hfits⟩

end Rationale.Sql
