import ClosureML.Proofs.Names.Renaming
import ClosureML.Proofs.Semantics.Simulation

/-!
# Resolution of names keeps what a program does

A tree with its names resolved, and with what inference writes into it, does what the tree does that
was read. The names in scope carry it: behind every name in scope stand values that belong together.

* `Naming.ValuesMatch` and `Naming.EnvironmentsMatch`: what belongs together;
* `Naming.MatchingsMatch`: patterns that belong together make the same of it.

Main statements: `Renames.simulates`, `Naming.calls_simulate` and `RenamesProgram.simulates`.
-/

namespace ClosureML

open Names ClosureML.Computation Node

namespace Naming

/-! ## 1. Values that belong together -/

mutual

/-- A value of the program with its names resolved, and the value of the program that was read. -/
inductive ValuesMatch (tags : List (String × Nat)) : Value → Value → Prop where
  | word {n : Int} : ValuesMatch tags (.word n) (.word n)
  | builtin {b : Builtin} : ValuesMatch tags (.builtin b) (.builtin b)
  | closure {scope : NameScope} {env env' : Environment} {x x' : String} {body body' named : Node}
      (henv : EnvironmentsMatch tags scope.toList env' env) (hx : Fresh scope x')
      (hbody : Renames tags (scope.extend (.binder x x')) body named)
      (hplain : body'.plain = named.plain) :
      ValuesMatch tags (.closure env' x' body') (.closure env x body)
  | member {scope : NameScope} {env env' : Environment} {functions functions' named : List Node}
      {pairs : List (String × String)} {i : Nat}
      (henv : EnvironmentsMatch tags scope.toList env' env) (hpairs : FreshBinders scope pairs)
      (hfunctions : RenamesGroup tags (extendBinders scope pairs) pairs functions named)
      (hplain : plainAll functions' = plainAll named) :
      ValuesMatch tags (.member env' functions' i) (.member env functions i)
  | tuple {vs vs' : List Value} (hvs : List.Forall₂ (ValuesMatch tags) vs' vs) :
      ValuesMatch tags (.tuple vs') (.tuple vs)
  | data {c : String} {vs vs' : List Value} (hvs : List.Forall₂ (ValuesMatch tags) vs' vs) :
      ValuesMatch tags (.data c vs') (.data c vs)
  | constructor {c : String} {missing : Nat} {vs vs' : List Value}
      (hvs : List.Forall₂ (ValuesMatch tags) vs' vs) :
      ValuesMatch tags (.constructor c missing vs') (.constructor c missing vs)

/-- The environments of a scope: they bind the new names and the old ones. -/
inductive EnvironmentsMatch (tags : List (String × Nat)) :
    List NameBinding → Environment → Environment → Prop where
  | nil : EnvironmentsMatch tags [] [] []
  | binder {bindings : List NameBinding} {env env' : Environment} {x x' : String} {v v' : Value}
      (hx : Fresh ⟨bindings⟩ x') (hv : ValuesMatch tags v' v)
      (henv : EnvironmentsMatch tags bindings env' env) :
      EnvironmentsMatch tags (.binder x x' :: bindings) ((x', v') :: env') ((x, v) :: env)
  | constructor {bindings : List NameBinding} {env env' : Environment} {c : String} {tag : Nat}
      {v v' : Value} (hc : Fresh ⟨bindings⟩ c) (hv : ValuesMatch tags v' v)
      (henv : EnvironmentsMatch tags bindings env' env) :
      EnvironmentsMatch tags (.constructor c tag :: bindings) ((c, v') :: env') ((c, v) :: env)
  | dataType {bindings : List NameBinding} {env env' : Environment} {d : String}
      (henv : EnvironmentsMatch tags bindings env' env) :
      EnvironmentsMatch tags (.dataType d :: bindings) env' env

end

variable {tags : List (String × Nat)}

theorem ValuesMatch.word?_eq {v v' : Value} (h : ValuesMatch tags v' v) : v'.word? = v.word? := by
  cases h <;> rfl

theorem ValuesMatch.construct {c : String} {missing : Nat} {vs vs' : List Value}
    (h : List.Forall₂ (ValuesMatch tags) vs' vs) :
    ValuesMatch tags (.construct c missing vs') (.construct c missing vs) := by
  unfold Value.construct
  split
  · exact .data h
  · exact .constructor h

theorem ValuesMatch.component? {v v' w : Value} {index : Nat} {arity : Option Nat}
    (h : ValuesMatch tags v' v) (hw : v'.component? index arity = some w) :
    ∃ u, v.component? index none = some u ∧ ValuesMatch tags w u := by
  cases h with
  | tuple hvs =>
    rw [Value.component?] at hw
    split at hw
    · obtain ⟨u, hu, hwu⟩ := forall₂_getElem? hvs hw
      exact ⟨u, Value.component?_tuple hu fun _ hn => (nomatch hn), hwu⟩
    · cases hw
  | _ => cases hw

/-- What is looked up in a scope has a new name that is bound there. -/
theorem exists_newName_of_lookup? {bindings : List NameBinding} {x x' : String}
    (h : lookup? ⟨bindings⟩ x = some x') : ∃ b ∈ bindings, b.newName? = some x' := by
  obtain ⟨b, hb, hvalue⟩ := List.exists_of_findSome?_eq_some h
  refine ⟨b, hb, ?_⟩
  cases b with
  | binder y y' =>
    simp only [NameBinding.value?] at hvalue
    split at hvalue
    · exact hvalue
    · cases hvalue
  | constructor c tag =>
    simp only [NameBinding.value?] at hvalue
    split at hvalue
    · exact hvalue
    · cases hvalue
  | dataType d => cases hvalue

/-- **Behind a name in scope stand values that belong together.** -/
theorem EnvironmentsMatch.lookup {bindings : List NameBinding} {env env' : Environment}
    {x x' : String} (h : EnvironmentsMatch tags bindings env' env)
    (hx : lookup? ⟨bindings⟩ x = some x') :
    ∃ v' v, env'.lookup x' = some v' ∧ env.lookup x = some v ∧ ValuesMatch tags v' v := by
  induction bindings generalizing env env' with
  | nil => cases hx
  | cons b bindings ih =>
    have hextend : lookup? ⟨b :: bindings⟩ x = (b.value? x).or (lookup? ⟨bindings⟩ x) :=
      lookup?_extend ⟨bindings⟩ b x
    rw [hextend] at hx
    cases h with
    | @binder _ env env' y y' v v' hfresh hv henv =>
      by_cases hxy : y = x
      · have hvalue : (NameBinding.binder y y').value? x = some y' := if_pos hxy
        rw [hvalue] at hx
        cases hx
        subst hxy
        exact ⟨v', v, List.lookup_cons_self, List.lookup_cons_self, hv⟩
      · have hvalue : (NameBinding.binder y y').value? x = none := if_neg hxy
        rw [hvalue, Option.none_or] at hx
        obtain ⟨b, hb, hname⟩ := exists_newName_of_lookup? hx
        have hne : x' ≠ y' := fun he => hfresh b hb (he ▸ hname)
        rw [lookup_cons_of_ne hne, lookup_cons_of_ne (Ne.symm hxy)]
        exact ih henv hx
    | @constructor _ env env' c tag v v' hfresh hv henv =>
      by_cases hxc : c = x
      · have hvalue : (NameBinding.constructor c tag).value? x = some c := if_pos hxc
        rw [hvalue] at hx
        cases hx
        subst hxc
        exact ⟨v', v, List.lookup_cons_self, List.lookup_cons_self, hv⟩
      · have hvalue : (NameBinding.constructor c tag).value? x = none := if_neg hxc
        rw [hvalue, Option.none_or] at hx
        obtain ⟨b, hb, hname⟩ := exists_newName_of_lookup? hx
        have hne : x' ≠ c := fun he => hfresh b hb (he ▸ hname)
        rw [lookup_cons_of_ne hne, lookup_cons_of_ne (Ne.symm hxc)]
        exact ih henv hx
    | dataType henv => exact ih henv hx

/-! ## 2. Groups, constructors and patterns -/

/-- Lists of trees of which the first one is as another list but for what inference writes. -/
theorem plainAll_eq_cons {ns ms : List Node} {n : Node} (h : plainAll ms = plainAll (n :: ns)) :
    ∃ m rest, ms = m :: rest ∧ m.plain = n.plain ∧ plainAll rest = plainAll ns := by
  cases ms with
  | nil => nomatch h
  | cons m rest =>
    rw [plainAll_cons, plainAll_cons, List.cons.injEq] at h
    exact ⟨m, rest, rfl, h⟩

theorem plainAll_eq_nil {ms : List Node} (h : plainAll ms = plainAll []) : ms = [] := by
  cases ms with
  | nil => rfl
  | cons m rest => nomatch h

theorem letRecArm_of_plain {n : Node} {m : Mark} {f x : String} {pa ra : Option TypeExpr}
    {body : Node} (h : n.plain = (letRecArm m f x pa ra body).plain) :
    ∃ m' body', n = letRecArm m' f x pa ra body' ∧ body'.plain = body.plain := by
  cases n with
  | letRecArm m' f' x' pa' ra' body' =>
    rw [plain_letRecArm, plain_letRecArm, letRecArm.injEq] at h
    obtain ⟨-, rfl, rfl, rfl, rfl, hbody⟩ := h
    exact ⟨m', body', rfl, hbody⟩
  | _ => nomatch h

/-- The environments inside a group. -/
theorem bindMembers_match {outer outer' env env' : Environment} {functions functions' rest rest'
    named : List Node} {scope inner : NameScope} {pairs : List (String × String)} {i : Nat}
    (hrest : RenamesGroup tags inner pairs rest named) (hplain : plainAll rest' = plainAll named)
    (hpairs : FreshBinders scope pairs)
    (hmember : ∀ j, ValuesMatch tags (.member outer' functions' j) (.member outer functions j))
    (henv : EnvironmentsMatch tags scope.toList env' env) :
    EnvironmentsMatch tags (extendBinders scope pairs).toList
      (bindMembers outer' functions' i rest' env') (bindMembers outer functions i rest env) := by
  induction pairs generalizing i rest rest' named env env' scope with
  | nil =>
    cases hrest
    rw [plainAll_eq_nil hplain]
    exact henv
  | cons pair pairs ih =>
    cases hrest with
    | cons hx hbody hrest =>
      obtain ⟨n, others, rfl, hn, hothers⟩ := plainAll_eq_cons hplain
      obtain ⟨m', body', rfl, -⟩ := letRecArm_of_plain hn
      exact ih (i := i + 1) hrest hothers hpairs.2 (.binder hpairs.1 (hmember i) henv)

/-- The environments inside a group, and what belongs together there. -/
theorem bindGroup_match {env env' : Environment} {functions functions' named : List Node}
    {scope : NameScope} {pairs : List (String × String)}
    (henv : EnvironmentsMatch tags scope.toList env' env) (hpairs : FreshBinders scope pairs)
    (hfunctions : RenamesGroup tags (extendBinders scope pairs) pairs functions named)
    (hplain : plainAll functions' = plainAll named) :
    EnvironmentsMatch tags (extendBinders scope pairs).toList (bindGroup env' functions')
      (bindGroup env functions) :=
  bindMembers_match hfunctions hplain hpairs (fun _ => .member henv hpairs hfunctions hplain) henv

theorem dataConstructor_of_plain {n : Node} {m : Mark} {c : String} {ts : List TypeExpr}
    {tag : Option Nat} (h : n.plain = (dataConstructor m c ts tag).plain) :
    ∃ m', n = dataConstructor m' c ts tag := by
  cases n with
  | dataConstructor m' c' ts' tag' =>
    rw [plain_dataConstructor, plain_dataConstructor, dataConstructor.injEq] at h
    obtain ⟨-, rfl, rfl, rfl⟩ := h
    exact ⟨m', rfl⟩
  | _ => nomatch h

/-- The environments inside a declaration of a data type. -/
theorem bindConstructors_match {cs cs' named : List Node} {new : List (String × Nat)}
    {scope : NameScope} {env env' : Environment} (hcs : TagsConstructors cs named new)
    (hplain : plainAll cs' = plainAll named) (hfresh : FreshConstructors scope new)
    (henv : EnvironmentsMatch tags scope.toList env' env) :
    EnvironmentsMatch tags (extendConstructors scope new).toList (bindConstructors cs' env')
      (bindConstructors cs env) := by
  induction hcs generalizing cs' scope env env' with
  | nil =>
    rw [plainAll_eq_nil hplain]
    exact henv
  | cons hcs ih =>
    obtain ⟨n, rest, rfl, hn, hrest⟩ := plainAll_eq_cons hplain
    obtain ⟨m', rfl⟩ := dataConstructor_of_plain hn
    rw [bindConstructors, bindConstructors]
    exact ih hrest hfresh.2 (.constructor hfresh.1 (.construct .nil) henv)

/-- What patterns that belong together make of values that belong together. -/
inductive MatchingsMatch (tags : List (String × Nat)) (bindings : List NameBinding) :
    Matching → Matching → Prop where
  | binds {env env' : Environment} (henv : EnvironmentsMatch tags bindings env' env) :
      MatchingsMatch tags bindings (.binds env') (.binds env)
  | fails : MatchingsMatch tags bindings .fails .fails
  | misfit {matching : Matching} : MatchingsMatch tags bindings .misfit matching

end Naming

open Naming

variable {tags : List (String × Nat)}

theorem Naming.length_eq_of_plainAll {ns ms : List Node} (h : plainAll ms = plainAll ns) :
    ms.length = ns.length := by
  induction ns generalizing ms with
  | nil => rw [plainAll_eq_nil h]
  | cons n ns ih =>
    obtain ⟨m, rest, rfl, -, hrest⟩ := plainAll_eq_cons h
    rw [List.length_cons, List.length_cons, ih hrest]

mutual

/-- **Patterns that belong together** make the same of values that belong together. -/
theorem RenamesPattern.matches : ∀ {p named : Node} {pairs : List (String × String)},
    RenamesPattern tags p named pairs → ∀ {p' : Node} {scope : NameScope} {env env' : Environment}
      {v v' : Value}, p'.plain = named.plain → FreshBinders scope pairs → ValuesMatch tags v' v →
        EnvironmentsMatch tags scope.toList env' env →
          MatchingsMatch tags (extendBinders scope pairs).toList (matchPattern env' p' v')
            (matchPattern env p v)
  | _, _, _, .binder, p', scope, env, env', v, v', hplain, hpairs, hv, henv => by
    cases p' with
    | patternBinder m' x' =>
      rw [plain_patternBinder, plain_patternBinder, patternBinder.injEq] at hplain
      obtain ⟨-, rfl⟩ := hplain
      exact .binds (.binder hpairs.1 hv henv)
    | _ => nomatch hplain
  | _, _, _, .literal, p', scope, env, env', v, v', hplain, hpairs, hv, henv => by
    cases p' with
    | patternLiteral m' l' =>
      rw [plain_patternLiteral, plain_patternLiteral, patternLiteral.injEq] at hplain
      obtain ⟨-, rfl⟩ := hplain
      cases hv with
      | word =>
        unfold matchPattern
        split
        · exact .binds henv
        · exact .fails
      | _ => exact .misfit
    | _ => nomatch hplain
  | _, _, _, .tuple _ hps, p', scope, env, env', v, v', hplain, hpairs, hv, henv => by
    cases p' with
    | patternTuple m' ps' =>
      rw [plain_patternTuple, plain_patternTuple, patternTuple.injEq] at hplain
      cases hv with
      | tuple hvs =>
        unfold matchPattern
        rw [length_eq_of_plainAll hplain.2, ← hps.length_eq, hvs.length_eq]
        split
        · exact hps.matches hplain.2 hpairs hvs henv
        · exact .misfit
      | _ => exact .misfit
    | _ => nomatch hplain
  | _, _, _, .constructor _ hps, p', scope, env, env', v, v', hplain, hpairs, hv, henv => by
    cases p' with
    | patternConstructor m' c' ps' tag' =>
      rw [plain_patternConstructor, plain_patternConstructor, patternConstructor.injEq] at hplain
      obtain ⟨-, rfl, hplain, -⟩ := hplain
      cases hv with
      | data hvs =>
        unfold matchPattern
        rw [length_eq_of_plainAll hplain, ← hps.length_eq, hvs.length_eq]
        split
        · split
          · exact hps.matches hplain hpairs hvs henv
          · exact .misfit
        · exact .fails
      | _ => exact .misfit
    | _ => nomatch hplain

theorem RenamesPatterns.matches : ∀ {ps named : List Node} {pairs : List (String × String)},
    RenamesPatterns tags ps named pairs → ∀ {ps' : List Node} {scope : NameScope}
      {env env' : Environment} {vs vs' : List Value}, plainAll ps' = plainAll named →
        FreshBinders scope pairs → List.Forall₂ (ValuesMatch tags) vs' vs →
          EnvironmentsMatch tags scope.toList env' env →
            MatchingsMatch tags (extendBinders scope pairs).toList (matchPatterns env' ps' vs')
              (matchPatterns env ps vs)
  | _, _, _, .nil, ps', scope, env, env', vs, vs', hplain, hpairs, hvs, henv => by
    rw [plainAll_eq_nil hplain]
    cases hvs with
    | nil => exact .binds henv
    | cons => exact .misfit
  | _, _, _, .cons hp hps, ps', scope, env, env', vs, vs', hplain, hpairs, hvs, henv => by
    obtain ⟨p', rest, rfl, hp', hplain⟩ := plainAll_eq_cons hplain
    rw [freshBinders_append] at hpairs
    rw [extendBinders_append]
    cases hvs with
    | nil => exact .misfit
    | cons hv hvs =>
      have hfirst := hp.matches hp' hpairs.1 hv henv
      unfold matchPatterns
      generalize matchPattern env' p' _ = matching', matchPattern env _ _ = matching at hfirst
      cases hfirst with
      | binds henv => exact hps.matches hplain hpairs.2 hvs henv
      | fails => exact .fails
      | misfit => exact .misfit

end

/-! ## 3. Trees -/

/-- A function of a group with its name resolved is where the function that was read is. -/
theorem RenamesGroup.get {scope : NameScope} {pairs : List (String × String)}
    {functions functions' named : List Node} {i : Nat} {n : Node}
    (h : RenamesGroup tags scope pairs functions named)
    (hplain : plainAll functions' = plainAll named) (hn : functions'[i]? = some n) :
    ∃ m m' f f' x x' pa ra body body' named, n = .letRecArm m' f' x' pa ra body' ∧
      functions[i]? = some (.letRecArm m f x pa ra body) ∧ Fresh scope x' ∧
      Renames tags (scope.extend (.binder x x')) body named ∧ body'.plain = named.plain := by
  induction i generalizing pairs functions functions' named with
  | zero =>
    cases h with
    | nil =>
      rw [plainAll_eq_nil hplain] at hn
      cases hn
    | cons hx hbody hrest =>
      obtain ⟨n', rest, rfl, hn', -⟩ := plainAll_eq_cons hplain
      obtain ⟨m', body', rfl, hbody'⟩ := letRecArm_of_plain hn'
      cases hn
      exact ⟨_, _, _, _, _, _, _, _, _, _, _, rfl, rfl, hx, hbody, hbody'⟩
  | succ i ih =>
    cases h with
    | nil =>
      rw [plainAll_eq_nil hplain] at hn
      cases hn
    | cons hx hbody hrest =>
      obtain ⟨n', rest, rfl, -, hrest'⟩ := plainAll_eq_cons hplain
      exact ih hrest hrest' hn

section Trees

variable {K : Nat}

mutual

/-- **Trees that belong together** do the same, when the tree with its names resolved does not go
    wrong. -/
theorem Renames.simulates (hcalls : CallsSimulate (ValuesMatch tags) K) :
    ∀ {scope : NameScope} {n named : Node}, Renames tags scope n named →
      ∀ {n' : Node} {env env' : Environment}, n'.plain = named.plain →
        EnvironmentsMatch tags scope.toList env' env →
          Simulates K (ValuesMatch tags) (n'.evaluate env') (n.evaluate env)
  | _, _, _, .literal, n', env, env', hplain, henv => by
    -- `n'` is the named tree with other marks, so that it has the same root
    cases n' with
    | literal m' l' =>
      rw [plain_literal, plain_literal, literal.injEq] at hplain
      obtain ⟨-, rfl⟩ := hplain
      exact .pure .word
    | _ => nomatch hplain
  | _, _, _, .reference hx _, n', env, env', hplain, henv => by
    cases n' with
    | reference m' x' =>
      rw [plain_reference, plain_reference, reference.injEq] at hplain
      obtain ⟨-, rfl⟩ := hplain
      obtain ⟨v', v, hlookup', hlookup, hv⟩ := henv.lookup hx
      rw [evaluate_reference, evaluate_reference, hlookup', hlookup]
      exact .pure hv
    | _ => nomatch hplain
  | _, _, _, .builtin, n', env, env', hplain, henv => by
    cases n' with
    | builtin m' b' =>
      rw [plain_builtin, plain_builtin, builtin.injEq] at hplain
      obtain ⟨-, rfl⟩ := hplain
      exact .pure .builtin
    | _ => nomatch hplain
  | _, _, _, .lambda hx hbody, n', env, env', hplain, henv => by
    cases n' with
    | lambda m' x' a' body' =>
      rw [plain_lambda, plain_lambda, lambda.injEq] at hplain
      obtain ⟨-, rfl, -, hplain⟩ := hplain
      exact .pure (.closure henv hx hbody hplain)
    | _ => nomatch hplain
  | _, _, _, .application hf ha, n', env, env', hplain, henv => by
    cases n' with
    | application m' f' a' =>
      rw [plain_application, plain_application, application.injEq] at hplain
      rw [evaluate_application, evaluate_application]
      refine (hf.simulates hcalls hplain.2.1 henv).bind fun f' f hff => ?_
      refine (ha.simulates hcalls hplain.2.2 henv).bind fun v' v hvv => ?_
      -- the body of a function is no part of this tree: calls are the matter of the bound
      exact hcalls f' f v' v hff hvv
    | _ => nomatch hplain
  | _, _, _, .letIn hvalue hx hbody, n', env, env', hplain, henv => by
    cases n' with
    | letIn m' x' a' value' body' =>
      rw [plain_letIn, plain_letIn, letIn.injEq] at hplain
      obtain ⟨-, hname, -, hvalue', hbody'⟩ := hplain
      obtain rfl := hname.symm
      rw [evaluate_letIn, evaluate_letIn]
      refine (hvalue.simulates hcalls hvalue' henv).bind fun v' v hv => ?_
      exact hbody.simulates hcalls hbody' (.binder hx hv henv)
    | _ => nomatch hplain
  | _, _, _, .letRec _ hpairs harms hbody, n', env, env', hplain, henv => by
    cases n' with
    | letRec m' arms' body' =>
      rw [plain_letRec, plain_letRec, letRec.injEq] at hplain
      rw [evaluate_letRec, evaluate_letRec]
      exact hbody.simulates hcalls hplain.2.2 (bindGroup_match henv hpairs harms hplain.2.1)
    | _ => nomatch hplain
  | _, _, _, .conditional hc ht he, n', env, env', hplain, henv => by
    cases n' with
    | conditional m' c' t' e' =>
      rw [plain_conditional, plain_conditional, conditional.injEq] at hplain
      obtain ⟨-, hc', ht', he'⟩ := hplain
      rw [evaluate_conditional, evaluate_conditional]
      exact .branch (fun _ _ h => h.word?_eq) (hc.simulates hcalls hc' henv)
        (ht.simulates hcalls ht' henv) (he.simulates hcalls he' henv)
    | _ => nomatch hplain
  | _, _, _, .binary hl hr, n', env, env', hplain, henv => by
    cases n' with
    | binary m' o' l' r' =>
      rw [plain_binary, plain_binary, binary.injEq] at hplain
      obtain ⟨-, rfl, hl', hr'⟩ := hplain
      rw [evaluate_binary, evaluate_binary]
      exact .operate₂ (fun _ _ h => h.word?_eq) (fun _ => .word) _ (hl.simulates hcalls hl' henv)
        (hr.simulates hcalls hr' henv)
    | _ => nomatch hplain
  | _, _, _, .unary he, n', env, env', hplain, henv => by
    cases n' with
    | unary m' o' e' =>
      rw [plain_unary, plain_unary, unary.injEq] at hplain
      obtain ⟨-, rfl, he'⟩ := hplain
      rw [evaluate_unary, evaluate_unary]
      exact .operate₁ (fun _ _ h => h.word?_eq) (fun _ => .word) _ (he.simulates hcalls he' henv)
    | _ => nomatch hplain
  | _, _, _, .sequence _ hes, n', env, env', hplain, henv => by
    cases n' with
    | sequence m' es' =>
      rw [plain_sequence, plain_sequence, sequence.injEq] at hplain
      rw [evaluate_sequence, evaluate_sequence]
      refine (hes.simulates hcalls hplain.2 henv).bind fun vs' vs hvs => ?_
      exact .pure (forall₂_getLastD hvs .word)
    | _ => nomatch hplain
  | _, _, _, .tuple _ hes, n', env, env', hplain, henv => by
    cases n' with
    | tuple m' es' =>
      rw [plain_tuple, plain_tuple, tuple.injEq] at hplain
      rw [evaluate_tuple, evaluate_tuple]
      exact (hes.simulates hcalls hplain.2 henv).bind fun vs' vs hvs => .pure (.tuple hvs)
    | _ => nomatch hplain
  | _, _, _, .projection he, n', env, env', hplain, henv => by
    cases n' with
    | projection m' index' arity' e' =>
      rw [plain_projection, plain_projection, projection.injEq] at hplain
      obtain ⟨-, rfl, -, he'⟩ := hplain
      rw [evaluate_projection, evaluate_projection]
      refine (he.simulates hcalls he' henv).bind fun v' v hv => .orWrong fun w hw => ?_
      exact hv.component? hw
    | _ => nomatch hplain
  | _, _, _, .dataType hcs _ hfresh hbody, n', env, env', hplain, henv => by
    cases n' with
    | dataType m' d' cs' body' =>
      rw [plain_dataType, plain_dataType, dataType.injEq] at hplain
      obtain ⟨-, hname, hcs', hbody'⟩ := hplain
      obtain rfl := hname.symm
      rw [evaluate_dataType, evaluate_dataType]
      -- constructors are values of the environment, bound on both sides before the body
      exact hbody.simulates hcalls hbody' (bindConstructors_match hcs hcs' hfresh (.dataType henv))
    | _ => nomatch hplain
  | _, _, _, .matchWith he harms, n', env, env', hplain, henv => by
    cases n' with
    | matchWith m' e' arms' =>
      rw [plain_matchWith, plain_matchWith, matchWith.injEq] at hplain
      rw [evaluate_matchWith, evaluate_matchWith]
      refine (he.simulates hcalls hplain.2.1 henv).bind fun v' v hv => ?_
      exact harms.simulates hcalls hplain.2.2 henv hv
    | _ => nomatch hplain
termination_by structural _ _ _ h => h

theorem RenamesAll.simulates (hcalls : CallsSimulate (ValuesMatch tags) K) :
    ∀ {scope : NameScope} {ns named : List Node}, RenamesAll tags scope ns named →
      ∀ {ns' : List Node} {env env' : Environment}, plainAll ns' = plainAll named →
        EnvironmentsMatch tags scope.toList env' env →
          Simulates K (List.Forall₂ (ValuesMatch tags)) (evaluateAll ns' env')
            (evaluateAll ns env)
  | _, _, _, .nil, ns', env, env', hplain, henv => by
    rw [plainAll_eq_nil hplain]
    exact .pure .nil
  | _, _, _, .cons hn hns, ns', env, env', hplain, henv => by
    obtain ⟨n', rest, rfl, hn', hrest⟩ := plainAll_eq_cons hplain
    rw [evaluateAll_cons, evaluateAll_cons]
    refine (hn.simulates hcalls hn' henv).bind fun v' v hv => ?_
    exact (hns.simulates hcalls hrest henv).bind fun vs' vs hvs => .pure (.cons hv hvs)
termination_by structural _ _ _ h => h

theorem RenamesArms.simulates (hcalls : CallsSimulate (ValuesMatch tags) K) :
    ∀ {scope : NameScope} {arms named : List Node}, RenamesArms tags scope arms named →
      ∀ {arms' : List Node} {env env' : Environment} {v v' : Value},
        plainAll arms' = plainAll named → EnvironmentsMatch tags scope.toList env' env →
          ValuesMatch tags v' v →
            Simulates K (ValuesMatch tags) (evaluateArms arms' env' v') (evaluateArms arms env v)
  | _, _, _, .nil, arms', env, env', v, v', hplain, henv, hv => by
    rw [plainAll_eq_nil hplain]
    exact .stop Stop.noConfusion
  | _, _, _, .cons (p := p) hp _ hpairs hbody hrest, arms', env, env', v, v', hplain, henv, hv => by
    obtain ⟨arm', rest, rfl, harm, hrest'⟩ := plainAll_eq_cons hplain
    cases arm' with
    | matchArm m' p' body' =>
      rw [plain_matchArm, plain_matchArm, matchArm.injEq] at harm
      obtain ⟨-, hp', hbody'⟩ := harm
      have hmatches := hp.matches hp' hpairs hv henv
      cases hmatch' : matchPattern env' p' v' with
      | misfit =>
        rw [evaluateArms_misfit hmatch']
        exact .wrong
      | binds inner' =>
        rw [hmatch'] at hmatches
        cases hmatch : matchPattern env p v with
        | binds inner =>
          rw [hmatch] at hmatches
          rw [evaluateArms_binds hmatch', evaluateArms_binds hmatch]
          cases hmatches with
          | binds henv => exact hbody.simulates hcalls hbody' henv
        | _ =>
          rw [hmatch] at hmatches
          cases hmatches
      | fails =>
        rw [hmatch'] at hmatches
        cases hmatch : matchPattern env p v with
        | fails =>
          rw [evaluateArms_fails hmatch', evaluateArms_fails hmatch]
          exact hrest.simulates hcalls hrest' henv hv
        | _ =>
          rw [hmatch] at hmatches
          cases hmatches
    | _ => nomatch harm
termination_by structural _ _ _ h => h

end

end Trees

/-- **Calls of functions that belong together** simulate each other. -/
theorem Naming.calls_simulate : ∀ K, CallsSimulate (ValuesMatch tags) K := by
  intro K
  induction K using Nat.strongRecOn with
  | _ K ih =>
    intro f' f v' v hf hv
    cases hf with
    | word =>
      rw [call_word]
      exact .wrong
    | builtin =>
      rw [call_builtin, call_builtin, hv.word?_eq]
      exact .perform .word _
    | closure henv hx hbody hplain =>
      rw [call_closure, call_closure]
      exact .later fun J hJ => hbody.simulates (ih J hJ) hplain (.binder hx hv henv)
    | @member scope env env' functions functions' named pairs i henv hpairs hfunctions hplain =>
      cases hn : functions'[i]? with
      | none =>
        rw [call_member_none hn]
        exact .wrong
      | some n =>
        obtain ⟨m, m', g, g', x, x', pa, ra, body, body', named', rfl, hfunction, hx, hbody,
          hplain'⟩ := hfunctions.get hplain hn
        rw [call_member hn, call_member hfunction]
        refine .later fun J hJ => hbody.simulates (ih J hJ) hplain' (.binder hx hv ?_)
        exact bindGroup_match henv hpairs hfunctions hplain
    | tuple hvs =>
      rw [call_tuple]
      exact .wrong
    | data hvs =>
      rw [call_data]
      exact .wrong
    | constructor hvs =>
      rw [call_constructor, call_constructor]
      exact .pure (.construct (List.rel_append hvs (.cons hv .nil)))

/-- **Programs that belong together** do the same. -/
theorem RenamesProgram.simulates {n named n' : Node} (h : RenamesProgram tags n named)
    (hplain : n'.plain = named.plain) (K : Nat) :
    Simulates K (ValuesMatch tags) (n'.evaluate []) (n.evaluate []) := by
  cases h with
  | mk he =>
    cases n' with
    | top m' e' =>
      rw [plain_top, plain_top, top.injEq] at hplain
      rw [evaluate_top, evaluate_top]
      exact he.simulates (Naming.calls_simulate K) hplain.2 .nil
    | _ => nomatch hplain

end ClosureML
