import ClosureML.Proofs.Syntax.Levels

/-!
# Trees of core constructs

What is left of a program when data types, matches and tuples are lowered, whether its names are in
scope or not. Only a group of functions is put under a condition: its names are different.

* `IsCore n`: a tree of core constructs; `AreCore` and `AreCoreFunctions` for lists of them and for
  the functions of a group.

Main statement: `IsTree.isCore` (the trees of the core level are of this kind).
-/

namespace ClosureML

open Node

/-! ## 1. Trees -/

mutual

/-- A tree of core constructs, with references by name, in which no group of functions has a name
    twice. -/
inductive IsCore : Node → Prop where
  | top {m : Mark} {e : Node} (he : IsCore e) : IsCore (.top m e)
  | literal {m : Mark} {l : Literal} : IsCore (.literal m l)
  | reference {m : Mark} {x : String} : IsCore (.reference m x)
  | builtin {m : Mark} {b : Builtin} : IsCore (.builtin m b)
  | lambda {m : Mark} {x : String} {a : Option TypeExpr} {body : Node} (hbody : IsCore body) :
      IsCore (.lambda m x a body)
  | application {m : Mark} {f a : Node} (hf : IsCore f) (ha : IsCore a) :
      IsCore (.application m f a)
  | letIn {m : Mark} {x : String} {a : Option TypeExpr} {value body : Node}
      (hvalue : IsCore value) (hbody : IsCore body) : IsCore (.letIn m x a value body)
  | letRec {m : Mark} {arms : List Node} {body : Node} (hdistinct : (functionNames arms).Nodup)
      (harms : AreCoreFunctions arms) (hbody : IsCore body) : IsCore (.letRec m arms body)
  | conditional {m : Mark} {c t e : Node} (hc : IsCore c) (ht : IsCore t) (he : IsCore e) :
      IsCore (.conditional m c t e)
  | binary {m : Mark} {o : BinaryOperator} {l r : Node} (hl : IsCore l) (hr : IsCore r) :
      IsCore (.binary m o l r)
  | unary {m : Mark} {o : UnaryOperator} {e : Node} (he : IsCore e) : IsCore (.unary m o e)
  | sequence {m : Mark} {es : List Node} (hes : AreCore es) : IsCore (.sequence m es)

/-- Trees of core constructs. -/
inductive AreCore : List Node → Prop where
  | nil : AreCore []
  | cons {n : Node} {ns : List Node} (hn : IsCore n) (hns : AreCore ns) : AreCore (n :: ns)

/-- Functions of a group, the bodies of which are trees of core constructs. -/
inductive AreCoreFunctions : List Node → Prop where
  | nil : AreCoreFunctions []
  | cons {m : Mark} {f x : String} {pa ra : Option TypeExpr} {body : Node} {rest : List Node}
      (hbody : IsCore body) (hrest : AreCoreFunctions rest) :
      AreCoreFunctions (.letRecArm m f x pa ra body :: rest)

end

theorem AreCoreFunctions.length_functionNames {arms : List Node} (h : AreCoreFunctions arms) :
    (functionNames arms).length = arms.length := by
  induction arms with
  | nil => rfl
  | cons arm rest ih =>
    cases h with
    | cons _ hrest => exact congrArg (· + 1) (ih hrest)

/-! ## 2. The trees of the core level -/

section Levels

variable {tags : List (String × Nat)} {P : String → Prop}

mutual

/-- **The trees of the core level** are trees of core constructs. -/
theorem IsTree.isCore : ∀ {names : List String} {n : Node}, IsTree tags P .core names n → IsCore n
  | _, _, .literal => .literal
  | _, _, .reference _ _ => .reference
  | _, _, .builtin => .builtin
  | _, _, .lambda hbody => .lambda hbody.isCore
  | _, _, .application hf ha => .application hf.isCore ha.isCore
  | _, _, .letIn hvalue hbody => .letIn hvalue.isCore hbody.isCore
  | _, _, .letRec hdistinct harms hbody => .letRec hdistinct harms.areCore hbody.isCore
  | _, _, .conditional hc ht he => .conditional hc.isCore ht.isCore he.isCore
  | _, _, .binary hl hr => .binary hl.isCore hr.isCore
  | _, _, .unary he => .unary he.isCore
  | _, _, .sequence _ hes => .sequence hes.areCore
  | _, _, .tuple hL _ _ => absurd rfl hL
  | _, _, .projection hL _ _ => absurd rfl hL
  | _, _, .dataType hL _ _ => nomatch hL
  | _, _, .matchWith hL _ _ => nomatch hL

theorem AreTrees.areCore : ∀ {names : List String} {ns : List Node},
    AreTrees tags P .core names ns → AreCore ns
  | _, _, .nil => .nil
  | _, _, .cons hn hns => .cons hn.isCore hns.areCore

theorem AreFunctions.areCore : ∀ {names : List String} {arms : List Node},
    AreFunctions tags P .core names arms → AreCoreFunctions arms
  | _, _, .nil => .nil
  | _, _, .cons hbody hrest => .cons hbody.isCore hrest.areCore

end

end Levels

end ClosureML
