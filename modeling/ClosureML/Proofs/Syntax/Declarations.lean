import ClosureML.Proofs.Syntax.Bare

/-!
# What the nodes of a tree hold

* `Node.Everywhere`: a property holds of every node of a tree;
* `Declaration`: a constructor as it was declared;
* `Node.declarations`: the declarations of a tree, in the order in which they stand.

Main statement: `Node.declarations_eq`. Marks and recorded numbers of elements do not matter
(`declared_congr`, `declared_unsizedAll`).
-/

namespace ClosureML

/-! ## 1. Every node of a tree -/

/-- The property holds of every node of the tree. -/
inductive Node.Everywhere (p : Node → Prop) : Node → Prop where
  | mk {n : Node} (h : p n) (hchildren : ∀ c ∈ n.children, Everywhere p c) : Everywhere p n

namespace Node.Everywhere

variable {p q : Node → Prop} {n : Node}

theorem here (h : n.Everywhere p) : p n := by
  cases h with
  | mk h _ => exact h

theorem child (h : n.Everywhere p) {c : Node} (hc : c ∈ n.children) : c.Everywhere p := by
  cases h with
  | mk _ hchildren => exact hchildren c hc

theorem imp (h : n.Everywhere p) (hpq : ∀ n, p n → q n) : n.Everywhere q := by
  induction h with
  | mk h _ ih => exact .mk (hpq _ h) ih

theorem and (h : n.Everywhere p) (h' : n.Everywhere q) : n.Everywhere fun n => p n ∧ q n := by
  induction h with
  | mk h _ ih => exact .mk ⟨h, h'.here⟩ fun c hc => ih c hc (h'.child hc)

end Node.Everywhere

/-- A child is smaller than its parent. -/
theorem Node.sizeOf_lt_of_mem_children {n c : Node} (hc : c ∈ n.children) :
    sizeOf c < sizeOf n := by
  have hlist : ∀ {ns : List Node}, c ∈ ns → sizeOf c < sizeOf ns := List.sizeOf_lt_of_mem
  cases n <;>
    simp only [children, List.mem_append, List.mem_cons, List.not_mem_nil, or_false] at hc <;>
    grind

/-- **Induction over the children of nodes.** -/
theorem Node.induction {P : Node → Prop} (h : ∀ n, (∀ c ∈ n.children, P c) → P n)
    (n : Node) : P n :=
  h n fun c hc =>
    have := sizeOf_lt_of_mem_children hc
    induction h c
termination_by n

/-- Whether a property holds of every node is found out from the leaves upward. -/
theorem Node.everywhere_iff {p : Node → Bool} (n : Node) :
    n.Everywhere (p · = true) ↔ n.fold (fun node inner => p node && inner.all id) = true := by
  induction n using Node.induction with | h n ih => ?_
  rw [fold_eq, Bool.and_eq_true, List.all_map, List.all_eq_true]
  constructor
  · exact fun h => ⟨h.here, fun c hc => (ih c hc).1 (h.child hc)⟩
  · exact fun ⟨h, hchildren⟩ => .mk h fun c hc => (ih c hc).2 (hchildren c hc)

instance Node.decidableEverywhere {p : Node → Prop} [DecidablePred p] (n : Node) :
    Decidable (n.Everywhere p) :=
  decidable_of_iff (n.fold (fun node inner => decide (p node) && inner.all id) = true) <|
    (everywhere_iff n).symm.trans
      ⟨fun h => h.imp fun _ => of_decide_eq_true, fun h => h.imp fun _ => decide_eq_true⟩

/-! ## 2. Declarations of constructors -/

open Node (bareAll mapAllMarks unsizedAll)

/-- A constructor with the types of its parameters and the data type that it makes. -/
structure Declaration where
  name : String
  parameters : List TypeExpr
  dataType : String

namespace Node

/-- The declaration that a constructor of a data type is. -/
def declaration? (dataType : String) : Node → Option Declaration
  | dataConstructor _ c parameters _ => some ⟨c, parameters, dataType⟩
  | _ => none

/-- The declarations that the constructors of a data type are. -/
def declared (dataType : String) (constructors : List Node) : List Declaration :=
  constructors.filterMap (declaration? dataType)

/-- The declarations that a node itself makes. -/
def declaredHere : Node → List Declaration
  | dataType _ d constructors _ => declared d constructors
  | _ => []

/-- The declarations in a tree, in the order in which they stand. -/
def declarations (n : Node) : List Declaration :=
  n.fold fun node inner => node.declaredHere ++ inner.flatten

/-- The declarations in several trees. -/
def declarationsAll (ns : List Node) : List Declaration := ns.flatMap declarations

/-- The declarations of a node are its own and those of its children. -/
theorem declarations_eq (n : Node) :
    n.declarations = n.declaredHere ++ declarationsAll n.children := by
  rw [declarations, fold_eq, declarationsAll, List.flatMap_def]
  rfl

/-- Every declaration of a tree is one of a node. -/
theorem everywhere_declaredHere {Δ : List Declaration} (n : Node) :
    (∀ d ∈ n.declarations, d ∈ Δ) → n.Everywhere fun m => ∀ d ∈ m.declaredHere, d ∈ Δ := by
  induction n using Node.induction with | h n ih => ?_
  intro h
  rw [declarations_eq] at h
  refine .mk (fun d hd => h d (List.mem_append_left _ hd)) fun c hc => ih c hc fun d hd => ?_
  exact h d (List.mem_append_right _ (List.mem_flatMap.2 ⟨c, hc, hd⟩))

theorem Everywhere.mem_of_mem_declarations {Δ : List Declaration} {n : Node}
    (h : n.Everywhere fun m => ∀ d ∈ m.declaredHere, d ∈ Δ) : ∀ d ∈ n.declarations, d ∈ Δ := by
  induction h with
  | mk h _ ih =>
    intro d hd
    rw [declarations_eq] at hd
    rcases List.mem_append.1 hd with hd | hd
    · exact h d hd
    · obtain ⟨c, hc, hd⟩ := List.mem_flatMap.1 hd
      exact ih c hc d hd

end Node

theorem declaration?_bare (d : String) (n : Node) :
    n.bare.declaration? d = n.declaration? d := by
  cases n <;> rfl

theorem declared_bareAll (d : String) (cs : List Node) :
    Node.declared d (bareAll cs) = Node.declared d cs := by
  induction cs with
  | nil => rfl
  | cons c cs ih =>
    rw [Node.declared, Node.declared, bareAll, mapAllMarks, List.filterMap_cons,
      List.filterMap_cons, show Node.declaration? d (c.mapMarks _) = _ from declaration?_bare d c]
    cases c.declaration? d with
    | none => exact ih
    | some declaration => exact congrArg _ ih

theorem declared_congr {d : String} {cs cs' : List Node} (h : bareAll cs' = bareAll cs) :
    Node.declared d cs' = Node.declared d cs := by
  rw [← declared_bareAll, h, declared_bareAll]

theorem declared_unsizedAll (d : String) (cs : List Node) :
    Node.declared d (unsizedAll cs) = Node.declared d cs := by
  have hnode : ∀ c : Node, c.unsized.declaration? d = c.declaration? d := fun c => by
    cases c <;> rfl
  rw [Node.declared, Node.declared, unsizedAll, Node.mapAll_eq_map, List.filterMap_map]
  exact congrArg (List.filterMap · cs) (funext hnode)

end ClosureML
