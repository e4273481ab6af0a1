import ClosureML.Lowering.Match

/-!
# Erasure of tuples

A tuple becomes a function that hands its elements, one after the other, to a selector; a
projection applies the tuple to the selector that gives back one of its arguments. The tuple
without elements becomes the unit value.

* `eraseTuple` and `eraseProjection` erase one node over erased children;
* `Node.eraseTuples` erases the tuples of a tree;
* `Node.lower` lowers matches and then erases tuples, with names from one supply.
-/

namespace ClosureML

namespace Lowering

/-- A tuple with erased elements, erased: its elements are computed from left to right, and then
    handed to a selector. -/
def eraseTuple (p : Position) (elements : List Node) : Lower Node := do
  if elements.isEmpty then return .literal (.at p) .unit
  else
    let ts ← freshNames "t" elements.length
    let s ← freshName "s"
    let handedOver := ts.foldl (fun f t => apply p f (reference p t)) (reference p s)
    return (ts.zip elements).foldr (fun (t, element) body => bind p t element body)
      (function p s handedOver)

/-- The function of `arity` arguments, one after the other, that gives back the argument number
    `index`. -/
def selector (p : Position) (index arity : Nat) : Lower Node := do
  let xs ← freshNames "x" arity
  match xs[index]? with
  | some x => return functions p xs (reference p x)
  | none => throw .defect

/-- A projection of an erased tuple, erased. -/
def eraseProjection (p : Position) (index : Nat) (arity : Option Nat) (target : Node) :
    Lower Node := do
  match arity with
  | none => fail (.unknownArity index) p
  | some arity => return apply p target (← selector p index arity)

/-- A node with erased parts, erased. -/
def eraseNode : Node → Lower Node
  | .tuple m elements => eraseTuple m.position elements
  | .projection m index arity target => eraseProjection m.position index arity target
  | other => return other

end Lowering

open Lowering

/-- The tree with every tuple and every projection erased. -/
def Node.eraseTuples (n : Node) : Lower Node := n.rebuild eraseNode

/-- The tree with every data type, `match`, tuple and projection lowered. -/
def Node.lower (n : Node) : Except Failure Node :=
  let lowered : Lower Node := do
    let n ← n.lowerMatches
    n.eraseTuples
  match lowered.run .empty with
  | .ok n _ => .ok n
  | .error e _ => .error e

end ClosureML
