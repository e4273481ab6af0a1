import ClosureML.Proofs.Names.ResolutionRun
import ClosureML.Proofs.Syntax.ParserShape
import ClosureML.Proofs.Types.InferenceSound
import Mathlib

/-!
# Accepted programs have types

What inference gives a whole program, and what unification makes of it, said by the typing rules.

* `Node.inferredApart`: the program with its types, when names are generalised apart from everything
  that was fixed before;
* `Node.TypedApart`: the type of a program is one that this gives as well.

Main statements: `Node.hasType_of_inferredApart` and `hasType_of_typedApart` (an accepted program
has a typing derivation, at the type of its root, when it is typed apart).

Runs of inference and unification are evaluated here with equations of library functions that no
few files of the library have, so that this module imports all of it.
-/

namespace ClosureML

open ClosureML.Types

/-! ## 1. Whole programs -/

/-- A run on a whole program has noted down the signatures of its declarations. -/
theorem Infers.declared {g : Generalizer} {Γ : TypeEnvironment} {n n' : Node} {t : Ty}
    {s' : InferState} (h : Infers g Γ n .empty n' t s') : Declared n.declarations s' := by
  intro entry hentry
  rw [h.follows.signatures] at hentry
  rcases List.mem_append.1 hentry with hentry | hentry
  · obtain ⟨d, hd, rfl⟩ := List.mem_map.1 (List.mem_reverse.1 hentry)
    exact ⟨d, hd, rfl⟩
  · cases hentry

/-- The tree has the type at its root. -/
theorem Infers.mark_ty {g : Generalizer} {Γ : TypeEnvironment} {n n' : Node} {t : Ty}
    {s s' : InferState} (h : Infers g Γ n s n' t s') : n'.mark.ty = some t := by
  cases h <;> rfl

theorem Node.mark_mapMarks (f : Mark → Mark) (n : Node) : (n.mapMarks f).mark = f n.mark := by
  cases n <;> rfl

theorem Node.mark_applyTypes {σ : Substitution} {n : Node} {t : Ty} (h : n.mark.ty = some t) :
    (n.applyTypes σ).mark.ty = some (σ.apply t) := by
  rw [applyTypes, mark_mapMarks]
  exact congrArg (Option.map σ.apply) h

/-! ## 2. Names generalised apart -/

/-- The program with its types, when names are generalised apart from everything that was fixed
    before. -/
def Node.inferredApart (n : Node) : Except CompileError Node := do
  (← n.inferTypesBy generalizeApart).unify

/-- **A program that is typed apart has a typing derivation**, with the numbers of elements that
    inference records, and at every type that its root type stands for. -/
theorem Node.hasType_of_inferredApart {n tree : Node} (h : n.inferredApart = .ok tree) :
    ∃ t, tree.mark.ty = some t ∧
      ∀ θ : TypeVar → SimpleType, HasType n.declarations [] tree (t.interpret θ) := by
  obtain ⟨typing, htyping, hunify⟩ := bind_ok_iff.1 h
  obtain ⟨s', hinfers, hcs⟩ := n.infers_of_inferTypesBy htyping
  obtain ⟨σ, hsolve, rfl⟩ := Typing.unify_ok_iff.1 hunify
  refine ⟨σ.apply typing.type, mark_applyTypes hinfers.mark_ty, fun θ => ?_⟩
  have hθ := hcs ▸ solves_of_solve hsolve θ
  have htype := hinfers.sound InferState.sound_empty hinfers.declared .nil hθ
  rw [Substitution.apply, Ty.interpret_substitute]
  exact htype.congr _ (bare_mapMarks _ _)

/-- What the passes up to unification make of a source that they accept. -/
structure Source.IsTyped (s : Source) (parsed named : Node) (typing : Typing) (tree : Node) :
    Prop where
  parse : s.parse = .ok parsed
  resolveNames : parsed.resolveNames = .ok named
  inferTypes : named.inferTypes = .ok typing
  unify : typing.unify = .ok tree

/-- The type of the program is one that generalising apart gives it as well. -/
def Node.TypedApart (named tree : Node) : Prop :=
  ∃ tree' t' σ, named.inferredApart = .ok tree' ∧ tree'.mark.ty = some t' ∧
    tree.mark.ty = some (t'.substitute σ)

theorem Node.inferredApart_plain {n tree : Node} (h : n.inferredApart = .ok tree) :
    tree.plain = n.plain := by
  obtain ⟨typing, htyping, hunify⟩ := bind_ok_iff.1 h
  obtain ⟨s', hinfers, -⟩ := n.infers_of_inferTypesBy htyping
  obtain ⟨σ, -, rfl⟩ := Typing.unify_ok_iff.1 hunify
  rw [applyTypes, plain_mapMarks, hinfers.plain_eq]

/-- **An accepted program that is typed apart has a typing derivation**, at the type that is written
    into its root. -/
theorem Source.hasType_of_typedApart {s : Source} {parsed named tree : Node} {typing : Typing}
    (h : s.IsTyped parsed named typing tree) (hapart : named.TypedApart tree) :
    ∃ t, tree.mark.ty = some t ∧ HasType named.declarations [] named t.lift := by
  obtain ⟨tree', t', σ, htree', ht', ht⟩ := hapart
  obtain ⟨t, hroot, htype⟩ := named.hasType_of_inferredApart htree'
  obtain rfl : t = t' := Option.some.inj (hroot.symm.trans ht')
  obtain ⟨tags, -, -, hrenames, -⟩ := (s.isProgram_of_parse h.parse).resolveNames_ok h.resolveNames
  refine ⟨_, ht, ?_⟩
  rw [Ty.lift, Ty.interpret_substitute]
  exact (htype _).of_plain (named.inferredApart_plain htree') hrenames.plain_eq

/-- A name is used at two types, and components are taken out of its results. -/
def generalised : Source :=
  .ofText "let pair = \\x -> (x, x) in ((pair 1).0, (pair true).1)"

set_option maxRecDepth 100000 in
theorem generalised_hasType : ∃ named, (do (← generalised.parse).resolveNames) = .ok named ∧
    HasType named.declarations [] named (.tuple [.int, .bool]) := by
  have h : (do
      let named ← (← generalised.parse).resolveNames
      let tree ← (← named.inferTypes).unify
      return (tree.mark.ty, (← named.inferredApart).mark.ty)) =
      .ok (some (.tuple [.int, .bool]), some (.tuple [.int, .bool])) := by cbv
  obtain ⟨parsed, hparsed, h⟩ := bind_ok_iff.1 h
  obtain ⟨named, hnamed, h⟩ := bind_ok_iff.1 h
  obtain ⟨typing, htyping, h⟩ := bind_ok_iff.1 h
  obtain ⟨tree, htree, h⟩ := bind_ok_iff.1 h
  obtain ⟨tree', htree', h⟩ := bind_ok_iff.1 h
  obtain ⟨ht, ht'⟩ := Prod.mk.inj (Except.ok.inj h)
  have hapart : named.TypedApart tree := ⟨tree', _, fun _ => none, htree', ht', ht⟩
  obtain ⟨t, hroot, htype⟩ :=
    Source.hasType_of_typedApart ⟨hparsed, hnamed, htyping, htree⟩ hapart
  obtain rfl : Ty.tuple [.int, .bool] = t := Option.some.inj (ht.symm.trans hroot)
  exact ⟨named, by rw [hparsed]; exact hnamed, htype⟩

/-! ## 3. A name that is generalised too far -/

/-- A scheme whose quantified variables do not occur in its type has one instance. -/
theorem Scheme.Instance.eq {quantified : List Nat} {t u : SimpleType}
    (h : (Scheme.mk quantified u).Instance t) (hapart : ∀ n ∈ quantified, n ∉ u.vars) : t = u := by
  obtain ⟨ρ, hρ, rfl⟩ := h
  rw [SimpleType.subst_congr u fun n hn => hρ n fun hq => hapart n hq hn, u.subst_var]

/-- A component of a parameter is bound by a `let`, and used as a truth value and as a number. -/
def misgeneralised : Source :=
  .ofText "\\p -> match p \x7b (a, b) -> 0 \x7d; let y = p.0 in if y then y else 0"

/-- The tree of this program with its names resolved, without marks. -/
def misgeneralisedTree : Node :=
  .top default <| .lambda default "p#0" none <| .sequence default
    [.matchWith default (.reference default "p#0")
      [.matchArm default
        (.patternTuple default [.patternBinder default "a#0", .patternBinder default "b#0"])
        (.literal default (.integer 0))],
    .letIn default "y#0" none (.projection default 0 none (.reference default "p#0"))
      (.conditional default (.reference default "y#0") (.reference default "y#0")
        (.literal default (.integer 0)))]

theorem SimpleType.mem_varsAll {t : SimpleType} {n : Nat} (hn : n ∈ t.vars) :
    ∀ {ts : List SimpleType}, t ∈ ts → n ∈ varsAll ts
  | _ :: _, .head _ => List.mem_append_left _ hn
  | _ :: _, .tail _ ht => List.mem_append_right _ (mem_varsAll hn ht)

/-- No derivation: the parameter has one type, so its component has, and this is not both. -/
theorem not_hasType_misgeneralisedTree {Δ : List Declaration} {t : SimpleType} :
    ¬ HasType Δ [] misgeneralisedTree t := by
  intro h
  obtain ⟨p, r, rfl, -, h⟩ := hasType_lambda.1 (hasType_top.1 h)
  obtain ⟨ts, -, h⟩ := hasType_sequence.1 h
  obtain ⟨-, us, -, -, h⟩ := haveTypes_cons.1 h
  obtain ⟨v, -, -, h, -⟩ := haveTypes_cons.1 h
  obtain ⟨u, quantified, -, hprojection, hfree, h⟩ := hasType_letIn.1 h
  obtain ⟨es, hparameter, hcomponent, -⟩ := hasType_projection.1 hprojection
  obtain ⟨σ, hp, htuple⟩ := hasType_reference.1 hparameter
  cases hp
  have hapart : ∀ n ∈ quantified, n ∉ u.vars := fun n hq hu => by
    refine hfree n hq ⟨("p#0", .mono p), List.mem_cons_self, ?_, List.not_mem_nil⟩
    rw [Scheme.mono, ← Scheme.mono_instance.1 htuple]
    exact SimpleType.mem_varsAll hu (List.mem_of_getElem? hcomponent)
  obtain ⟨hbool, hint, hzero⟩ := hasType_conditional.1 h
  obtain ⟨τ, hτ, hbool⟩ := hasType_reference.1 hbool
  cases hτ
  obtain ⟨τ, hτ, hint⟩ := hasType_reference.1 hint
  cases hτ
  have hv : v = .int := hasType_literal.1 hzero
  cases (hbool.eq hapart).trans (hv ▸ hint.eq hapart).symm

set_option maxRecDepth 100000 in
/-- **A program is accepted that has no typing derivation.** -/
theorem misgeneralised_isTyped : ∃ parsed named typing tree,
    misgeneralised.IsTyped parsed named typing tree ∧
      ∀ t, ¬ HasType named.declarations [] named t := by
  have h : (do
      let named ← (← misgeneralised.parse).resolveNames
      let _ ← (← named.inferTypes).unify
      return named.bare) = .ok misgeneralisedTree := by cbv
  obtain ⟨parsed, hparsed, h⟩ := bind_ok_iff.1 h
  obtain ⟨named, hnamed, h⟩ := bind_ok_iff.1 h
  obtain ⟨typing, htyping, h⟩ := bind_ok_iff.1 h
  obtain ⟨tree, htree, h⟩ := bind_ok_iff.1 h
  refine ⟨parsed, named, typing, tree, ⟨hparsed, hnamed, htyping, htree⟩, fun t ht => ?_⟩
  have hbare : misgeneralisedTree.bare = named.bare := by
    rw [← Except.ok.inj h]
    exact Node.bare_mapMarks _ _
  exact not_hasType_misgeneralisedTree (ht.congr _ hbare)

end ClosureML
