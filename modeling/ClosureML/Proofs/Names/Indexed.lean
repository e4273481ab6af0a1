import ClosureML.Names.Indexing
import ClosureML.Proofs.Runs
import ClosureML.Proofs.Syntax.Core

/-!
# Trees whose references are places

Once names have places, a tree has core constructs only, and its references are places in the
environment. A tree of the core level becomes such a tree when all its names have places.

* `IsIndexed n`: an expression of core constructs whose references are places;
* `HaveSlots slots names`: the names have places in the slots.

Main statements: `IsTree.index_ok` and `IsRoot.resolveIndices_ok`.
-/

namespace ClosureML

open Node

/-! ## 1. Expressions -/

mutual

/-- An expression of core constructs whose references are places in the environment. -/
inductive IsIndexed : Node → Prop where
  | literal {m : Mark} {l : Literal} : IsIndexed (.literal m l)
  | indexed {m : Mark} {depth : Nat} {sibling : Option Nat} : IsIndexed (.indexed m depth sibling)
  | builtin {m : Mark} {b : Builtin} : IsIndexed (.builtin m b)
  | lambda {m : Mark} {x : String} {a : Option TypeExpr} {body : Node} (hbody : IsIndexed body) :
      IsIndexed (.lambda m x a body)
  | application {m : Mark} {f a : Node} (hf : IsIndexed f) (ha : IsIndexed a) :
      IsIndexed (.application m f a)
  | letIn {m : Mark} {x : String} {a : Option TypeExpr} {value body : Node}
      (hvalue : IsIndexed value) (hbody : IsIndexed body) : IsIndexed (.letIn m x a value body)
  | letRec {m : Mark} {arms : List Node} {body : Node} (harms : AreIndexedFunctions arms)
      (hbody : IsIndexed body) : IsIndexed (.letRec m arms body)
  | conditional {m : Mark} {c t e : Node} (hc : IsIndexed c) (ht : IsIndexed t)
      (he : IsIndexed e) : IsIndexed (.conditional m c t e)
  | binary {m : Mark} {o : BinaryOperator} {l r : Node} (hl : IsIndexed l) (hr : IsIndexed r) :
      IsIndexed (.binary m o l r)
  | unary {m : Mark} {o : UnaryOperator} {e : Node} (he : IsIndexed e) : IsIndexed (.unary m o e)
  | sequence {m : Mark} {es : List Node} (hne : es ≠ []) (hes : AreIndexed es) :
      IsIndexed (.sequence m es)

/-- Expressions of core constructs whose references are places. -/
inductive AreIndexed : List Node → Prop where
  | nil : AreIndexed []
  | cons {n : Node} {ns : List Node} (hn : IsIndexed n) (hns : AreIndexed ns) : AreIndexed (n :: ns)

/-- The functions of a group, the bodies of which are such expressions. -/
inductive AreIndexedFunctions : List Node → Prop where
  | nil : AreIndexedFunctions []
  | cons {m : Mark} {f x : String} {pa ra : Option TypeExpr} {body : Node} {rest : List Node}
      (hbody : IsIndexed body) (hrest : AreIndexedFunctions rest) :
      AreIndexedFunctions (.letRecArm m f x pa ra body :: rest)

end

/-! ## 2. Slots -/

/-- Every name has a place in the slots. -/
def HaveSlots (slots : List Slot) (names : List String) : Prop :=
  ∀ x ∈ names, ∃ place, Slot.place? x slots = some place

namespace HaveSlots

variable {slots : List Slot} {names : List String}

theorem nil : HaveSlots [] [] := fun _ h => nomatch h

/-- A name that a slot does not hold lies further out. -/
theorem outward {slot : Slot} {x : String} (h : ∃ place, Slot.place? x slots = some place) :
    ∃ place, Slot.place? x (slot :: slots) = some place := by
  obtain ⟨place, hplace⟩ := h
  rw [Slot.place?]
  cases slot.member? x with
  | some sibling => exact ⟨_, rfl⟩
  | none => exact ⟨_, by rw [hplace]; rfl⟩

theorem single (h : HaveSlots slots names) (x : String) :
    HaveSlots (.single x :: slots) (x :: names) := by
  intro y hy
  rcases List.mem_cons.1 hy with rfl | hy
  · refine ⟨(1, none), ?_⟩
    rw [Slot.place?, Slot.member?, if_pos rfl]
  · exact outward (h y hy)

theorem group (h : HaveSlots slots names) (group : List String) :
    HaveSlots (.group group :: slots) (group ++ names) := by
  intro y hy
  rcases List.mem_append.1 hy with hy | hy
  · have hsome : (group.findIdx? fun bound => bound = y).isSome = true := by
      rw [List.findIdx?_isSome, List.any_eq_true]
      exact ⟨y, hy, decide_eq_true rfl⟩
    obtain ⟨i, hi⟩ := Option.isSome_iff_exists.1 hsome
    refine ⟨(1, some (i + 1)), ?_⟩
    rw [Slot.place?, Slot.member?, hi]
    rfl
  · exact outward (h y hy)

end HaveSlots

/-! ## 3. The placing of names -/

section Trees

variable {tags : List (String × Nat)} {P : String → Prop}

theorem AreCoreFunctions.groupNames_eq {arms : List Node} (h : AreCoreFunctions arms) :
    Indexing.groupNames arms = .ok (functionNames arms) := by
  induction arms with
  | nil => rfl
  | cons arm rest ih =>
    cases h with
    | cons _ hrest =>
      rw [Indexing.groupNames, ih hrest]
      rfl

mutual

/-- **The names of a tree of the core level get their places**, when they are among the slots. -/
theorem IsTree.index_ok : ∀ {names : List String} {n : Node} {slots : List Slot},
    IsTree tags P .core names n → HaveSlots slots names →
      ∃ n', n.index ⟨slots⟩ = .ok n' ∧ IsIndexed n'
  | _, _, _, .literal, _ => ⟨_, rfl, .literal⟩
  | _, _, slots, .reference (m := m) hx _, h => by
    obtain ⟨⟨depth, sibling⟩, hplace⟩ := h _ hx
    refine ⟨.indexed m depth sibling, ?_, .indexed⟩
    rw [index]
    simp only [Scope.toList, hplace]
    rfl
  | _, _, _, .builtin, _ => ⟨_, rfl, .builtin⟩
  | _, _, _, .lambda (m := m) (x := x) (a := a) hbody, h => by
    obtain ⟨body', hbody', hindexed⟩ := hbody.index_ok (h.single _)
    refine ⟨.lambda m x a body', ?_, .lambda hindexed⟩
    rw [index]
    exact bind_ok_iff.2 ⟨_, hbody', rfl⟩
  | _, _, _, .application (m := m) hf ha, h => by
    obtain ⟨f', hf', hf⟩ := hf.index_ok h
    obtain ⟨a', ha', ha⟩ := ha.index_ok h
    refine ⟨.application m f' a', ?_, .application hf ha⟩
    rw [index]
    exact bind_ok_iff.2 ⟨_, hf', bind_ok_iff.2 ⟨_, ha', rfl⟩⟩
  | _, _, _, .letIn (m := m) (x := x) (a := a) hvalue hbody, h => by
    obtain ⟨value', hvalue', hvalue⟩ := hvalue.index_ok h
    obtain ⟨body', hbody', hbody⟩ := hbody.index_ok (h.single _)
    refine ⟨.letIn m x a value' body', ?_, .letIn hvalue hbody⟩
    rw [index]
    exact bind_ok_iff.2 ⟨_, hvalue', bind_ok_iff.2 ⟨_, hbody', rfl⟩⟩
  | _, _, _, .letRec (m := m) _ harms hbody, h => by
    have hnames := harms.areCore.groupNames_eq
    obtain ⟨arms', harms', harms⟩ := harms.indexGroup_ok (h.group _)
    obtain ⟨body', hbody', hbody⟩ := hbody.index_ok (h.group _)
    refine ⟨.letRec m arms' body', ?_, .letRec harms hbody⟩
    rw [index]
    exact bind_ok_iff.2 ⟨_, hnames, bind_ok_iff.2 ⟨_, harms', bind_ok_iff.2 ⟨_, hbody', rfl⟩⟩⟩
  | _, _, _, .conditional (m := m) hc ht he, h => by
    obtain ⟨c', hc', hc⟩ := hc.index_ok h
    obtain ⟨t', ht', ht⟩ := ht.index_ok h
    obtain ⟨e', he', he⟩ := he.index_ok h
    refine ⟨.conditional m c' t' e', ?_, .conditional hc ht he⟩
    rw [index]
    exact bind_ok_iff.2 ⟨_, hc', bind_ok_iff.2 ⟨_, ht', bind_ok_iff.2 ⟨_, he', rfl⟩⟩⟩
  | _, _, _, .binary (m := m) (o := o) hl hr, h => by
    obtain ⟨l', hl', hl⟩ := hl.index_ok h
    obtain ⟨r', hr', hr⟩ := hr.index_ok h
    refine ⟨.binary m o l' r', ?_, .binary hl hr⟩
    rw [index]
    exact bind_ok_iff.2 ⟨_, hl', bind_ok_iff.2 ⟨_, hr', rfl⟩⟩
  | _, _, _, .unary (m := m) (o := o) he, h => by
    obtain ⟨e', he', he⟩ := he.index_ok h
    refine ⟨.unary m o e', ?_, .unary he⟩
    rw [index]
    exact bind_ok_iff.2 ⟨_, he', rfl⟩
  | _, _, _, .sequence (m := m) hne hes, h => by
    obtain ⟨es', hes', hes, hne'⟩ := hes.indexAll_ok h
    refine ⟨.sequence m es', ?_, .sequence (hne' hne) hes⟩
    rw [index]
    exact bind_ok_iff.2 ⟨_, hes', rfl⟩
  | _, _, _, .tuple hL _ _, _ => absurd rfl hL
  | _, _, _, .projection hL _ _, _ => absurd rfl hL
  | _, _, _, .dataType hL _ _, _ => nomatch hL
  | _, _, _, .matchWith hL _ _, _ => nomatch hL

theorem AreTrees.indexAll_ok : ∀ {names : List String} {ns : List Node} {slots : List Slot},
    AreTrees tags P .core names ns → HaveSlots slots names →
      ∃ ns', indexAll ⟨slots⟩ ns = .ok ns' ∧ AreIndexed ns' ∧ (ns ≠ [] → ns' ≠ [])
  | _, _, _, .nil, _ => ⟨[], rfl, .nil, id⟩
  | _, _, _, .cons hn hns, h => by
    obtain ⟨n', hn', hn⟩ := hn.index_ok h
    obtain ⟨ns', hns', hns, -⟩ := hns.indexAll_ok h
    refine ⟨n' :: ns', ?_, .cons hn hns, fun _ => List.cons_ne_nil _ _⟩
    rw [indexAll]
    exact bind_ok_iff.2 ⟨_, hn', bind_ok_iff.2 ⟨_, hns', rfl⟩⟩

theorem AreFunctions.indexGroup_ok : ∀ {names : List String} {arms : List Node} {slots : List Slot},
    AreFunctions tags P .core names arms → HaveSlots slots names →
      ∃ arms', indexGroup ⟨slots⟩ arms = .ok arms' ∧ AreIndexedFunctions arms'
  | _, _, _, .nil, _ => ⟨[], rfl, .nil⟩
  | _, _, _, @AreFunctions.cons _ _ _ _ m f x pa ra _ _ hbody hrest, h => by
    obtain ⟨body', hbody', hbody⟩ := hbody.index_ok (h.single _)
    obtain ⟨rest', hrest', hrest⟩ := hrest.indexGroup_ok h
    refine ⟨.letRecArm m f x pa ra body' :: rest', ?_, .cons hbody hrest⟩
    rw [indexGroup]
    exact bind_ok_iff.2 ⟨_, hbody', bind_ok_iff.2 ⟨_, hrest', rfl⟩⟩

end

/-- **The names of a program of the core level get their places.** -/
theorem IsRoot.resolveIndices_ok {n : Node} (h : IsRoot tags P .core n) :
    ∃ m e, n.resolveIndices = .ok (.top m e) ∧ IsIndexed e := by
  cases h with
  | @mk m e he =>
    obtain ⟨e', hindex, hindexed⟩ := he.index_ok .nil
    refine ⟨m, e', ?_, hindexed⟩
    rw [resolveIndices, index]
    exact bind_ok_iff.2 ⟨_, hindex, rfl⟩

end Trees

end ClosureML
