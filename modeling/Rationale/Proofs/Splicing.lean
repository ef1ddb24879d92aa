/-
  Rationale — what is bound and embedded keeps its meaning.

  `Substituted` says, without reading pieces, what a text is with arguments in
  the places of their placeholders: literals and all other characters stay, and
  each placeholder gives way to its argument.  Texts that have such a form are
  the `Closed` ones.  Each step of a construction returns a closed text, and with
  all arguments that are bound in the end it is what was bound or embedded.

  * `substituted_iff`: the closed texts, and what they are with their arguments;
  * `Closed.renumber`, `inPlace_renumber`: a fragment behind other arguments;
  * `Step.means_run`: what one step returns;
  * `means_mapM_run`: what steps return one after the other;
  * `meanings_of_runSteps`: the same with whatever steps come later.
-/
import Rationale.Proofs.Composition
import Rationale.Proofs.Numerals

namespace Rationale.Sql

open Composing

/-! ## Texts with arguments in their places -/

/-- The text has placeholders of the arguments only, no question mark without a
    number, and an end for each literal. -/
@[mk_iff]
structure Closed (args : List Value) (cs : List Char) : Prop where
  bare : .bare ∉ piecesFrom .plain cs
  bound : ∀ n, .placeholder n ∈ piecesFrom .plain cs → 0 < n ∧ n ≤ args.length
  quotes : cs.count '\x27' % 2 = 0

/-- The text `us` is the text `cs` with arguments in the places of their
    placeholders, as `ρ` writes them. -/
inductive Substituted (ρ : Value → String) (args : List Value) : List Char → List Char → Prop
  | nil : Substituted ρ args [] []
  | char {c cs us} : c ≠ '?' → c ≠ '\x27' → Substituted ρ args cs us →
      Substituted ρ args (c :: cs) (c :: us)
  | literal {body cs us} : '\x27' ∉ body → Substituted ρ args cs us →
      Substituted ρ args ('\x27' :: body ++ '\x27' :: cs) ('\x27' :: body ++ '\x27' :: us)
  | placeholder {ds n v cs us} : Text.natOfChars? ds = some (n + 1) → args[n]? = some v →
      NoDigit cs → Substituted ρ args cs us →
      Substituted ρ args ('?' :: ds ++ cs) ((ρ v).toList ++ us)

variable {ρ : Value → String} {args all : List Value} {c : Char} {body ds cs us : List Char}
  {m : Nat}

theorem piecesFrom_char (hmark : c ≠ '?') (hquote : c ≠ '\x27') :
    piecesFrom .plain (c :: cs) = .char c :: piecesFrom .plain cs := by
  rw [piecesFrom, if_neg hmark, if_neg hquote]

theorem piecesFrom_literal (hbody : '\x27' ∉ body) :
    piecesFrom .plain ('\x27' :: body ++ '\x27' :: cs) =
      ('\x27' :: body ++ ['\x27']).map .char ++ piecesFrom .plain cs := by
  have hinside : piecesFrom .literal (body ++ '\x27' :: cs) =
      (body ++ ['\x27']).map .char ++ piecesFrom .plain cs := by
    induction body with
    | nil => rfl
    | cons c body ih =>
      rw [List.mem_cons, not_or] at hbody
      rw [List.cons_append, piecesFrom, if_neg (Ne.symm hbody.1), ih hbody.2]
      rfl
  rw [List.cons_append, piecesFrom, if_neg (by decide), if_pos rfl, hinside]
  rfl

theorem piecesFrom_placeholder (hds : ds.all Char.isDigit = true) (hcs : NoDigit cs) :
    piecesFrom .plain ('?' :: ds ++ cs) = .ofDigits ds :: piecesFrom .plain cs := by
  rw [List.cons_append, piecesFrom, if_pos rfl, piecesFrom_digits hds hcs, List.nil_append]

theorem closed_char (hmark : c ≠ '?') (hquote : c ≠ '\x27') :
    Closed args (c :: cs) ↔ Closed args cs := by
  simp [closed_iff, piecesFrom_char hmark hquote, hquote]

theorem closed_literal (hbody : '\x27' ∉ body) :
    Closed args ('\x27' :: body ++ '\x27' :: cs) ↔ Closed args cs := by
  have hcount : ('\x27' :: body ++ '\x27' :: cs).count '\x27' = cs.count '\x27' + 2 := by
    simp [List.count_eq_zero_of_not_mem hbody]
  rw [closed_iff, closed_iff, piecesFrom_literal hbody, hcount, Nat.add_mod_right]
  simp

theorem closed_placeholder (hds : Text.natOfChars? ds = some m) (hcs : NoDigit cs)
    (hfits : args.length < 2 ^ 64) :
    Closed args ('?' :: ds ++ cs) ↔ (0 < m ∧ m ≤ args.length) ∧ Closed args cs := by
  obtain ⟨-, hall, -⟩ := Text.natOfChars?_eq_some.1 hds
  have hquote : '\x27' ∉ ds := fun hmem =>
    absurd (List.all_eq_true.1 hall _ hmem) (by decide)
  have hcount : ('?' :: ds ++ cs).count '\x27' = cs.count '\x27' := by
    simp [List.count_eq_zero_of_not_mem hquote]
  rw [closed_iff, closed_iff, piecesFrom_placeholder hall hcs, hcount]
  rcases ofDigits_cases ds with hbare | ⟨n, -, hn⟩
  · -- the number does not fit a word, so it is none of an argument
    have hm : ¬ m < 2 ^ 64 := fun hm => by
      rw [ofDigits_eq_placeholder_iff.2 ⟨hds, hm⟩] at hbare
      cases hbare
    rw [hbare]
    constructor
    · rintro ⟨hnot, -⟩
      exact absurd List.mem_cons_self hnot
    · rintro ⟨⟨-, hle⟩, -⟩
      omega
  · have hnm := (ofDigits_eq_placeholder_iff.1 hn).1
    rw [hds, Option.some.injEq] at hnm
    subst hnm
    simp only [hn, List.mem_cons, reduceCtorEq, false_or, Piece.placeholder.injEq,
      forall_eq_or_imp]
    tauto

/-- **Only closed texts** have their arguments put in place, and what this gives is
    composed of their pieces. -/
theorem Substituted.closed (h : Substituted ρ args cs us) (hfits : args.length < 2 ^ 64) :
    Closed args cs ∧ (piecesFrom .plain cs).flatMap (Piece.inPlace ρ args) = us := by
  induction h with
  | nil => exact ⟨⟨by simp [piecesFrom], by simp [piecesFrom], rfl⟩, rfl⟩
  | char hmark hquote _ ih =>
    refine ⟨(closed_char hmark hquote).2 ih.1, ?_⟩
    rw [piecesFrom_char hmark hquote, List.flatMap_cons, ih.2]
    rfl
  | literal hbody _ ih =>
    refine ⟨(closed_literal hbody).2 ih.1, ?_⟩
    rw [piecesFrom_literal hbody, List.flatMap_append, ih.2]
    simp [List.flatMap_map, Piece.inPlace, Piece.write]
  | @placeholder ds n v cs us hds hv hcs _ ih =>
    obtain ⟨hn, -⟩ := List.getElem?_eq_some_iff.1 hv
    refine ⟨(closed_placeholder hds hcs hfits).2 ⟨⟨Nat.succ_pos n, hn⟩, ih.1⟩, ?_⟩
    obtain ⟨-, hall, -⟩ := Text.natOfChars?_eq_some.1 hds
    rw [piecesFrom_placeholder hall hcs, ofDigits_eq_placeholder_iff.2 ⟨hds, by omega⟩,
      List.flatMap_cons, ih.2, Piece.inPlace, hv]

/-- The digits that a text starts with. -/
theorem exists_digits (cs : List Char) :
    ∃ ds rest, cs = ds ++ rest ∧ ds.all Char.isDigit = true ∧ NoDigit rest := by
  induction cs with
  | nil => exact ⟨[], [], rfl, rfl, by simp [NoDigit]⟩
  | cons c cs ih =>
    by_cases hc : c.isDigit = true
    · obtain ⟨ds, rest, rfl, hds, hrest⟩ := ih
      exact ⟨c :: ds, rest, rfl, by simp [hc, hds], hrest⟩
    · exact ⟨[], c :: cs, rfl, rfl, by simpa [NoDigit] using hc⟩

/-- **Every closed text** has its arguments put in place. -/
theorem Closed.substituted (h : Closed args cs) (hfits : args.length < 2 ^ 64) :
    Substituted ρ args cs ((piecesFrom .plain cs).flatMap (Piece.inPlace ρ args)) := by
  -- a literal and a number are read as a whole, so the induction is on the length
  induction hlength : cs.length using Nat.strong_induction_on generalizing cs with
  | _ k ih =>
    subst hlength
    cases cs with
    | nil => exact .nil
    | cons c cs =>
      by_cases hmark : c = '?'
      · subst hmark
        obtain ⟨ds, rest, rfl, hds, hrest⟩ := exists_digits cs
        rw [← List.cons_append] at h ⊢
        have hpieces := piecesFrom_placeholder hds hrest
        rcases ofDigits_cases ds with hbare | ⟨m, hm, hplaceholder⟩
        · refine absurd ?_ h.bare
          rw [hpieces, hbare]
          exact List.mem_cons_self
        · obtain ⟨hm, -⟩ := ofDigits_eq_placeholder_iff.1 hplaceholder
          obtain ⟨⟨hpos, hle⟩, hclosed⟩ := (closed_placeholder hm hrest hfits).1 h
          obtain ⟨n, rfl⟩ := Nat.exists_eq_succ_of_ne_zero (Nat.pos_iff_ne_zero.1 hpos)
          have hv : args[n]? = some args[n] := List.getElem?_eq_getElem hle
          have hlength : rest.length < ('?' :: ds ++ rest).length := by
            rw [List.length_append, List.length_cons]
            omega
          rw [hpieces, hplaceholder, List.flatMap_cons, Piece.inPlace, hv]
          exact .placeholder hm hv hrest (ih _ hlength hclosed rfl)
      by_cases hquote : c = '\x27'
      · subst hquote
        have hmem : '\x27' ∈ cs := by
          have hquotes := h.quotes
          rw [List.count_cons_self] at hquotes
          exact List.count_pos_iff.1 (by omega)
        obtain ⟨body, rest, rfl, hbody⟩ := List.eq_append_cons_of_mem hmem
        have hlength : rest.length < ('\x27' :: (body ++ '\x27' :: rest)).length := by
          rw [List.length_cons, List.length_append, List.length_cons]
          omega
        have hrest := ih _ hlength ((closed_literal hbody).1 h) rfl
        rw [← List.cons_append, piecesFrom_literal hbody, List.flatMap_append]
        simpa [List.flatMap_map, Piece.inPlace, Piece.write] using Substituted.literal hbody hrest
      · rw [piecesFrom_char hmark hquote, List.flatMap_cons]
        exact .char hmark hquote
          (ih _ (Nat.lt_succ_self cs.length) ((closed_char hmark hquote).1 h) rfl)

/-- **What closed texts stand for.** -/
theorem substituted_iff (hfits : args.length < 2 ^ 64) :
    Substituted ρ args cs us ↔
      Closed args cs ∧ (piecesFrom .plain cs).flatMap (Piece.inPlace ρ args) = us := by
  constructor
  · exact fun h => h.closed hfits
  · rintro ⟨h, rfl⟩
    exact h.substituted hfits

/-- With the arguments in their places the text `t` is `u`, and nothing else. -/
def ReadsAs (ρ : Value → String) (args : List Value) (t u : String) : Prop :=
  ∀ us, Substituted ρ args t.toList us ↔ us = u.toList

variable {bs : List Value} {ns : List Nat} {s t u : String}

theorem Closed.readsAs (h : Closed args t.toList) (hfits : args.length < 2 ^ 64) :
    ReadsAs ρ args t (Fragment.inPlace ρ ⟨t, args⟩) := by
  intro us
  rw [substituted_iff hfits, Fragment.inPlace, String.toList_ofList, eq_comm (a := us)]
  exact and_iff_right h

/-! ## Texts that were bound -/

theorem mem_numbers_iff {ps : List Piece} {n : Nat} :
    n ∈ ps.filterMap Piece.number? ↔ .placeholder n ∈ ps := by
  rw [List.mem_filterMap]
  constructor
  · rintro ⟨p, hp, hn⟩
    cases p <;> cases hn
    exact hp
  · exact fun hn => ⟨_, hn, rfl⟩

theorem Clean.quote_not_mem {ps : List Piece} (h : Clean ps) : .char '\x27' ∉ ps := by
  induction h with
  | nil => simp
  | char _ hquote _ ih => simpa [Ne.symm hquote] using ih
  | placeholder _ _ _ ih => simpa using ih

theorem Shows.closed (h : Shows ρ args ns t u) : Closed args t.toList := by
  obtain ⟨ps, hps⟩ := h
  have hpieces : piecesFrom .plain t.toList = ps := by
    rw [← hps.text]
    exact hps.clean.pieces_write
  refine ⟨?_, fun n hn => ?_, ?_⟩
  · rw [hpieces]
    exact hps.clean.bare_not_mem
  · rw [hpieces, ← mem_numbers_iff, hps.numbers] at hn
    exact hps.bound n hn
  · rw [← count_quote_piecesFrom .plain, hpieces,
      List.count_eq_zero_of_not_mem hps.clean.quote_not_mem]

theorem Shows.readsAs (h : Shows ρ args ns t u) (hfits : args.length < 2 ^ 64) :
    ReadsAs ρ args t u := by
  have hreads := h.closed.readsAs (ρ := ρ) hfits
  rwa [Shows.inPlace_eq (f := ⟨t, args⟩) h] at hreads

/-! ## Fragments behind other arguments -/

/-- The numbers of a closed text fit behind other arguments. -/
theorem Closed.pieces_renumber (h : Closed bs s.toList) (hall : args ++ bs <+: all)
    (hfits : all.length < 2 ^ 64) :
    pieces (renumber s args.length) = (pieces s).map (.shift args.length) := by
  refine Sql.pieces_renumber fun n hn => ?_
  have hn := h.bound n hn
  have hlength := hall.length_le
  rw [List.length_append] at hlength
  omega

/-- **A closed text is closed behind other arguments.** -/
theorem Closed.renumber (h : Closed bs s.toList) (hall : args ++ bs <+: all)
    (hfits : all.length < 2 ^ 64) : Closed all (renumber s args.length).toList := by
  rw [closed_iff, ← pieces, h.pieces_renumber hall hfits, count_quote_renumber]
  refine ⟨fun hbare => ?_, fun n hn => ?_, h.quotes⟩
  · obtain ⟨p, hp, hshift⟩ := List.mem_map.1 hbare
    cases p <;> cases hshift
    exact h.bare hp
  · obtain ⟨p, hp, hshift⟩ := List.mem_map.1 hn
    cases p <;> cases hshift
    have hn := h.bound _ hp
    have hlength := hall.length_le
    rw [List.length_append] at hlength
    omega

/-- **A fragment means the same behind other arguments.** -/
theorem inPlace_renumber (h : Closed bs s.toList) (hall : args ++ bs <+: all)
    (hfits : all.length < 2 ^ 64) :
    Fragment.inPlace ρ ⟨renumber s args.length, all⟩ = Fragment.inPlace ρ ⟨s, bs⟩ := by
  rw [Fragment.inPlace, h.pieces_renumber hall hfits, List.flatMap_map]
  refine congrArg String.ofList (List.flatMap_congr fun p hp => ?_)
  refine Piece.inPlace_shift hall fun n hn => h.bound n ?_
  cases p <;> cases hn
  exact hp

/-! ## Steps -/

namespace Step

/-- The arguments that a step binds. -/
def bound : Step → List Value
  | bind v => [v]
  | bindAll vs => vs
  | splice f => f.args

/-- The text `u` is what a step binds or embeds. -/
def Means (ρ : Value → String) : Step → String → Prop
  | bind v, u => u = ρ v
  | bindAll vs, u => u = ", ".intercalate (vs.map ρ)
  | splice f, u => ReadsAs ρ f.args f.sql u

end Step

section

variable {α β : Type} (f : α → Composing β) (a : α) (l l' : List α) (style : Style)

theorem mapM_cons_run (args : List Value) : (((a :: l).mapM f).run style).run args =
    let one := ((f a).run style).run args
    let rest := ((l.mapM f).run style).run one.2
    (one.1 :: rest.1, rest.2) := by
  rw [List.mapM_cons]
  rfl

theorem mapM_append_run (args : List Value) : (((l ++ l').mapM f).run style).run args =
    let first := ((l.mapM f).run style).run args
    let rest := ((l'.mapM f).run style).run first.2
    (first.1 ++ rest.1, rest.2) := by
  rw [List.mapM_append]
  rfl

end

/-- Arguments that are bound one after the other. -/
theorem showsAll_mapM_bind {vs : List Value} (hall : args ++ vs <+: all)
    (hfits : all.length < 2 ^ 64) :
    ∃ ns, ShowsAll ρ all ns (((vs.mapM bind).run .numbered).run args).1 (vs.map ρ) := by
  induction vs generalizing args with
  | nil => exact ⟨[], .nil⟩
  | cons v vs ih =>
    have hv := getElem?_behind hall (show 0 < (v :: vs).length from Nat.succ_pos _)
    rw [Nat.zero_add] at hv
    rw [List.append_cons] at hall
    obtain ⟨ns, hshows⟩ := ih hall
    rw [mapM_cons_run]
    exact ⟨_, .cons (.argument hv hfits) hshows⟩

theorem Step.bound_run (step : Step) (args : List Value) :
    ((step.run.run .numbered).run args).2 = args ++ step.bound := by
  cases step with
  | bind v => rfl
  | bindAll vs =>
    have hone (v : Value) (args : List Value) :
        (((Composing.bind v).run .numbered).run args).2 = args ++ [v] := rfl
    have hargs := args_mapM hone vs args
    rwa [List.flatMap_singleton'] at hargs
  | splice f => rfl

/-- **What one step returns** means what it binds or embeds, with all arguments
    that are bound up to then or later. -/
theorem Step.means_run {step : Step} (hclosed : ∀ f, step = .splice f → Closed f.args f.sql.toList)
    (hall : args ++ step.bound <+: all) (hfits : all.length < 2 ^ 64) :
    ∃ u, step.Means ρ u ∧ ReadsAs ρ all ((step.run.run .numbered).run args).1 u := by
  cases step with
  | bind v =>
    have hv := getElem?_behind hall (show 0 < [v].length from Nat.one_pos)
    rw [Nat.zero_add] at hv
    exact ⟨ρ v, rfl, (Shows.argument hv hfits).readsAs hfits⟩
  | bindAll vs =>
    obtain ⟨ns, hshows⟩ := showsAll_mapM_bind (ρ := ρ) hall hfits
    have hlist := hshows.intercalate (s := ", ") (.literal rfl rfl)
    exact ⟨_, rfl, hlist.readsAs hfits⟩
  | splice f =>
    have hf := hclosed f rfl
    have hlength : f.args.length < 2 ^ 64 := by
      have hlength := hall.length_le
      rw [List.length_append, bound] at hlength
      omega
    refine ⟨f.inPlace ρ, hf.readsAs hlength, ?_⟩
    rw [← inPlace_renumber hf hall hfits]
    exact (hf.renumber hall hfits).readsAs hfits

theorem prefix_mapM_run (steps : List Step) (args : List Value) :
    args <+: (((steps.mapM Step.run).run .numbered).run args).2 := by
  rw [args_mapM Step.bound_run]
  exact List.prefix_append args _

/-- **What steps return** one after the other, with all arguments that are bound up
    to then or later. -/
theorem means_mapM_run {steps : List Step}
    (hclosed : ∀ f, .splice f ∈ steps → Closed f.args f.sql.toList)
    (hall : (((steps.mapM Step.run).run .numbered).run args).2 <+: all)
    (hfits : all.length < 2 ^ 64) :
    List.Forall₂ (fun step t => ∃ u, step.Means ρ u ∧ ReadsAs ρ all t u) steps
      (((steps.mapM Step.run).run .numbered).run args).1 := by
  induction steps generalizing args with
  | nil => exact .nil
  | cons step steps ih =>
    rw [mapM_cons_run] at hall ⊢
    have hstep : args ++ step.bound <+: all := by
      rw [← step.bound_run]
      exact (prefix_mapM_run steps _).trans hall
    exact .cons (Step.means_run (fun f hf => hclosed f (hf ▸ List.mem_cons_self)) hstep hfits)
      (ih (fun f hf => hclosed f (List.mem_cons_of_mem step hf)) hall)

/-- **Binding and embedding keep the meaning.**  Take any steps that embed closed
    fragments, and any that come later.  What the earlier ones return is not changed
    by the later ones, and with all arguments in their places it is the value, the
    values or the fragment with its own arguments that the step was given.  And
    placeholders that are moved twice are moved by the sum, whatever the text.  The
    arguments have to be as many as memory can hold, and the numbers such that they
    fit a word. -/
theorem meanings_of_runSteps (ρ : Value → String) {steps : List Step}
    (hclosed : ∀ f, .splice f ∈ steps → Closed f.args f.sql.toList) (later : List Step)
    (hfits : (runSteps (steps ++ later)).2.length < 2 ^ 64) :
    (runSteps steps).1 <+: (runSteps (steps ++ later)).1 ∧
    List.Forall₂ (fun step t => ∃ u, step.Means ρ u ∧ ReadsAs ρ (runSteps (steps ++ later)).2 t u)
      steps (runSteps steps).1 ∧
    ∀ s a b, (∀ n, .placeholder n ∈ pieces s → n + (a + b) < 2 ^ 64) →
      renumber (renumber s a) b = renumber s (a + b) := by
  have hrun := mapM_append_run Step.run steps later .numbered []
  have htexts : (runSteps steps).1 <+: (runSteps (steps ++ later)).1 := by
    rw [runSteps, runSteps, hrun]
    exact List.prefix_append _ _
  have hargs : (runSteps steps).2 <+: (runSteps (steps ++ later)).2 := by
    rw [runSteps, runSteps, hrun]
    exact prefix_mapM_run later _
  exact ⟨htexts, means_mapM_run hclosed hargs hfits, fun s a b h => renumber_renumber h⟩

/-- A value, and a fragment with a quotation in it. -/
def Step.quoting : List Step :=
  [.bind (.text "lead"),
    .splice ⟨"a = ?2 AND b = \x27it\x27\x27s ?1\x27 AND c = ?01", [.integer 1, .text "b"]⟩]

theorem Step.closed_quoting : ∀ f, .splice f ∈ quoting → Closed f.args f.sql.toList := by
  intro f hf
  simp only [quoting, List.mem_cons, reduceCtorEq, Step.splice.injEq, List.not_mem_nil, or_false,
    false_or] at hf
  subst hf
  refine ⟨by decide +kernel, fun n hn => ?_, by decide +kernel⟩
  rw [← mem_numbers_iff] at hn
  revert n
  decide +kernel

theorem meanings_of_runSteps_quoting :
    (∀ f, .splice f ∈ Step.quoting → Closed f.args f.sql.toList) ∧
    (runSteps (Step.quoting ++ [.bindAll [.null, .integer 4]])).2.length < 2 ^ 64 ∧
    (runSteps Step.quoting).1 = ["?1", "a = ?3 AND b = \x27it\x27\x27s ?1\x27 AND c = ?2"] ∧
    (∀ ρ, List.Forall₂ (fun step t => ∃ u, step.Means ρ u ∧
        ReadsAs ρ (runSteps (Step.quoting ++ [.bindAll [.null, .integer 4]])).2 t u)
      Step.quoting (runSteps Step.quoting).1) ∧
    (∀ n, .placeholder n ∈ pieces "?7?07 \x27?7\x27 ?99999999999999999999 ?" →
      n + (2 + 3) < 2 ^ 64) ∧
    renumber (renumber "?7?07 \x27?7\x27 ?99999999999999999999 ?" 2) 3 =
      renumber "?7?07 \x27?7\x27 ?99999999999999999999 ?" (2 + 3) := by
  have hfits : (runSteps (Step.quoting ++ [.bindAll [.null, .integer 4]])).2.length < 2 ^ 64 := by
    decide +kernel
  have hmeanings := fun ρ => meanings_of_runSteps ρ Step.closed_quoting _ hfits
  have hnumbers : ∀ n, .placeholder n ∈ pieces "?7?07 \x27?7\x27 ?99999999999999999999 ?" →
      n + (2 + 3) < 2 ^ 64 := by
    intro n hn
    rw [← mem_numbers_iff] at hn
    revert n
    decide +kernel
  exact ⟨Step.closed_quoting, hfits, by decide +kernel, fun ρ => (hmeanings ρ).2.1, hnumbers,
    (hmeanings fun _ => "").2.2 _ _ _ hnumbers⟩

end Rationale.Sql
