import ClosureML.Proofs.Syntax.Bare
import ClosureML.Proofs.Syntax.Declarations
import Mathlib.Data.List.Basic

/-!
# What the names in a tree refer to

Which places every reference in a tree can see, by the scoping of the language: the value of a `let`
does not see its name, the functions of a group see each other, and binders of a pattern are seen in
their arm only, where a later one hides an earlier one of the same name.

* `Referent` is where a name comes from, `Visible` are the names that can be seen at some place, the
  innermost first;
* `Node.uses` are the references in a tree, with what can be seen there;
* `Node.binders`, `Node.allConstructors`, `Node.constructorTags`, `Node.patternTags`: the names
  that are bound in a tree, its constructors, their numbers, and those in patterns;
* `Node.nameless` is the tree without the names of binders and references, and without numbers.

Main statements: `Node.collect_eq` and `Node.collect_nameless`.
-/

namespace ClosureML

/-! ## 1. Places -/

/-- The way to a node: the numbers of the children that lead there, the last one first. -/
abbrev Path := List Nat

/-- Where a name comes from: a node that binds it, which may bind several names, or the declaration
    of a constructor. -/
inductive Referent where
  | binder (node : Path) (number : Nat)
  | constructor (node : Path)
  deriving DecidableEq, Repr

/-- The names that can be seen at some place, the innermost first. -/
abbrev Visible := List (String × Referent)

/-- A reference: the node, the name that stands there, and what can be seen there. -/
structure Use where
  node : Path
  name : String
  visible : Visible

namespace Node

/-! ## 2. Scopes -/

mutual

/-- What can be seen behind a pattern: what could be seen before it, and its binders. -/
def visibleBehind (visible : Visible) (path : Path) : Node → Visible
  | patternBinder _ x => (x, .binder path 0) :: visible
  | patternTuple _ ps => visibleBehindAll visible path 0 ps
  | patternConstructor _ _ ps _ => visibleBehindAll visible path 0 ps
  | _ => visible

/-- What can be seen behind patterns that stand below a node, from child number `i` on. -/
def visibleBehindAll (visible : Visible) (path : Path) (i : Nat) : List Node → Visible
  | [] => visible
  | p :: ps => visibleBehindAll (p.visibleBehind visible (i :: path)) path (i + 1) ps

end

/-- What can be seen inside a group of functions, which stand below a node from child number `i`
    on. -/
def visibleInGroup (visible : Visible) (path : Path) (i : Nat) : List Node → Visible
  | letRecArm _ f _ _ _ _ :: rest =>
    visibleInGroup ((f, .binder (i :: path) 0) :: visible) path (i + 1) rest
  | _ :: rest => visibleInGroup visible path (i + 1) rest
  | [] => visible

/-- What can be seen behind the constructors of a data type, which stand below a node from child
    number `i` on. -/
def visibleBehindConstructors (visible : Visible) (path : Path) (i : Nat) : List Node → Visible
  | dataConstructor _ c _ _ :: rest =>
    visibleBehindConstructors ((c, .constructor (i :: path)) :: visible) path (i + 1) rest
  | _ :: rest => visibleBehindConstructors visible path (i + 1) rest
  | [] => visible

mutual

/-- **The references in a tree** that stands at a path, from left to right. -/
def uses (visible : Visible) (path : Path) : Node → List Use
  | reference _ x => [⟨path, x, visible⟩]
  | lambda _ x _ body => body.uses ((x, .binder path 0) :: visible) (0 :: path)
  | letIn _ x _ value body =>
    value.uses visible (0 :: path) ++ body.uses ((x, .binder path 0) :: visible) (1 :: path)
  | letRec _ arms body =>
    usesAll (visibleInGroup visible path 0 arms) path 0 arms ++
      body.uses (visibleInGroup visible path 0 arms) (arms.length :: path)
  | letRecArm _ _ x _ _ body => body.uses ((x, .binder path 1) :: visible) (0 :: path)
  | matchArm _ p body => body.uses (p.visibleBehind visible (0 :: path)) (1 :: path)
  | dataType _ _ cs body =>
    body.uses (visibleBehindConstructors visible path 0 cs) (cs.length :: path)
  | top _ e => e.uses visible (0 :: path)
  | application _ f a => f.uses visible (0 :: path) ++ a.uses visible (1 :: path)
  | conditional _ c t e =>
    c.uses visible (0 :: path) ++ t.uses visible (1 :: path) ++ e.uses visible (2 :: path)
  | binary _ _ l r => l.uses visible (0 :: path) ++ r.uses visible (1 :: path)
  | unary _ _ e => e.uses visible (0 :: path)
  | sequence _ es => usesAll visible path 0 es
  | tuple _ es => usesAll visible path 0 es
  | projection _ _ _ e => e.uses visible (0 :: path)
  | matchWith _ e arms => e.uses visible (0 :: path) ++ usesAll visible path 1 arms
  | literal .. | builtin .. | dataConstructor .. | patternBinder .. | patternTuple ..
  | patternLiteral .. | patternConstructor .. | indexed .. => []

/-- The references in trees that stand below a node, from child number `i` on. -/
def usesAll (visible : Visible) (path : Path) (i : Nat) : List Node → List Use
  | [] => []
  | n :: ns => n.uses visible (i :: path) ++ usesAll visible path (i + 1) ns

end

/-! ## 3. What stands in a tree -/

section Collect

variable {α : Type}

/-- What `f` finds at the nodes of a tree, from left to right. -/
def collect (f : Node → List α) (n : Node) : List α :=
  n.fold fun node inner => f node ++ inner.flatten

/-- What is found in a tree is found at its root or in its children. -/
theorem collect_eq (f : Node → List α) (n : Node) :
    n.collect f = f n ++ n.children.flatMap (collect f) := by
  rw [collect, fold_eq, List.flatMap_def]
  rfl

end Collect

/-- The names that a node itself binds. -/
def bound : Node → List String
  | lambda _ x _ _ => [x]
  | letIn _ x _ _ _ => [x]
  | letRecArm _ f x _ _ _ => [f, x]
  | patternBinder _ x => [x]
  | _ => []

/-- The constructor that a node declares. -/
def declaredName : Node → List String
  | dataConstructor _ c _ _ => [c]
  | _ => []

/-- The constructor that a node declares with a number. -/
def declaredTag : Node → List (String × Nat)
  | dataConstructor _ c _ (some tag) => [(c, tag)]
  | _ => []

/-- The constructor that a pattern names, with its number. -/
def patternTag : Node → List (String × Option Nat)
  | patternConstructor _ c _ tag => [(c, tag)]
  | _ => []

/-- The names that are bound in a tree. -/
def binders (n : Node) : List String := n.collect bound

/-- The constructors that are declared in a tree. -/
def allConstructors (n : Node) : List String := n.collect declaredName

/-- The constructors that are declared with a number. -/
def constructorTags (n : Node) : List (String × Nat) := n.collect declaredTag

/-- The constructors in patterns, with their numbers. -/
def patternTags (n : Node) : List (String × Option Nat) := n.collect patternTag

/-! ## 4. Trees without names -/

/-- A node without the names that it binds or refers to, and without the number of a constructor. -/
def unnamed : Node → Node
  | reference m _ => reference m ""
  | lambda m _ a body => lambda m "" a body
  | letIn m _ a value body => letIn m "" a value body
  | letRecArm m _ _ pa ra body => letRecArm m "" "" pa ra body
  | patternBinder m _ => patternBinder m ""
  | dataConstructor m c parameters _ => dataConstructor m c parameters none
  | patternConstructor m c arguments _ => patternConstructor m c arguments none
  | n => n

/-- The tree without the names of binders and references, and without numbers of constructors. -/
def nameless (n : Node) : Node := n.map unnamed

/-- The trees without these names and numbers. -/
def namelessAll (ns : List Node) : List Node := mapAll unnamed ns

theorem children_nameless (n : Node) : n.nameless.children = n.children.map nameless := by
  have hall (ns : List Node) : mapAll unnamed ns = ns.map nameless := mapAll_eq_map unnamed ns
  cases n
  case letRec m arms body =>
    exact congrArg (· ++ [body.nameless]) (hall arms) |>.trans (by simp [children])
  case dataType m d cs body =>
    exact congrArg (· ++ [body.nameless]) (hall cs) |>.trans (by simp [children])
  case matchWith m e arms => exact congrArg (e.nameless :: ·) (hall arms)
  all_goals first | rfl | exact hall _

/-- Names of binders and references, and numbers of constructors, do not show in what is found
    without them. -/
theorem collect_nameless {α : Type} {f : Node → List α} (hf : ∀ n, f n.nameless = f n) (n : Node) :
    n.nameless.collect f = n.collect f := by
  induction n using Node.induction with | h n ih => ?_
  rw [collect_eq, collect_eq, hf, children_nameless, List.flatMap_map]
  exact congrArg (f n ++ ·) (List.flatMap_congr ih)

theorem allConstructors_nameless (n : Node) : n.nameless.allConstructors = n.allConstructors :=
  collect_nameless (fun n => by cases n <;> rfl) n

end Node

end ClosureML
