import ClosureML.Lowering.Basic

/-!
# Lowering of data types and matches

A pattern becomes a function from what it is matched with to a pair: the number `successTag` and
the result of the arm, or the number `failureTag` and a number without meaning. A `match` tries
its arms in order and takes the first that succeeds; when none does, it ends the program with the
exit code `inexhaustiveMatchExitCode`. A constructor becomes a function of its parameters that
makes a pair of its number and the tuple of its arguments.

* `patternFunction` is the function of a pattern, `tupleFunction` that of several;
* `lowerMatch` and `lowerDataType` lower one node over lowered children;
* `Node.lowerMatches` lowers a tree.
-/

namespace ClosureML

namespace Lowering

/-! ## 1. Outcomes of a pattern -/

/-- The first component of the pair of a pattern that matched. -/
def successTag : Int := 11

/-- The first component of the pair of a pattern that did not match. -/
def failureTag : Int := 22

/-- The exit code of a match none of whose arms applied. -/
def inexhaustiveMatchExitCode : Int := 101

/-- The pair of a pattern that matched. -/
def success (p : Position) (result : Node) : Node := pair p (integer p successTag) result

/-- The pair of a pattern that did not match. -/
def failure (p : Position) : Node := pair p (integer p failureTag) (integer p 0)

/-! ## 2. Patterns -/

/-- Applies the function of the first pattern to the first element of the tuple that the variable
    `argument` holds, then the function that this gives to the next element, and so on. When an
    element does not match, the whole does not. `names` are names for the outcomes, one for each
    element from number `step` on. -/
def applyInTurn (p : Position) (argument : String) (arity : Nat) :
    (function : Node) → (step : Nat) → (names : List String) → Node
  | function, _, [] => function
  | function, step, [_] => apply p function (component p argument step arity)
  | function, step, r :: rest =>
    bind p r (apply p function (component p argument step arity))
      (choose p (equals p (component p r 0 2) (integer p failureTag)) (failure p)
        (applyInTurn p argument arity (component p r 1 2) (step + 1) rest))

mutual

/-- The function that matches its argument with a pattern, and gives `result`, in which the names
    of the pattern are bound, when it matches. The nodes that are made stand at `p`. -/
def patternFunction (p : Position) (result : Node) : Node → Lower Node
  | .patternBinder _ x => return function p x (success p result)
  | .patternLiteral _ v => do
    let x ← freshName "x"
    let test := equals p (reference p x) (.literal (.at p) v)
    return function p x (choose p test (success p result) (failure p))
  | .patternTuple _ elements => tupleFunction p result elements
  | .patternConstructor m c arguments tag => do
    match tag with
    | none => fail (.untaggedPattern c) m.position
    | some tag =>
      let x ← freshName "x"
      let payload ← tupleFunction p result arguments
      let test := equals p (component p x 0 2) (integer p tag)
      return function p x (choose p test (apply p payload (component p x 1 2)) (failure p))
  | other => fail (.notAPattern other.kind) other.position

/-- The function that matches the elements of its argument, a tuple, with patterns. -/
def tupleFunction (p : Position) (result : Node) (elements : List Node) : Lower Node := do
  let x ← freshName "x"
  if elements.isEmpty then return function p x (success p result)
  else
    let chained ← chainedFunction p result elements
    let chain ← freshName "ptnlam"
    let steps ← freshNames "r" elements.length
    return function p x
      (bind p chain chained (applyInTurn p x elements.length (reference p chain) 0 steps))

/-- The function of the first pattern, whose result is the function of the next one, and so on;
    the last result is `result`. The last function is made first. -/
def chainedFunction (p : Position) (result : Node) : List Node → Lower Node
  | [] => return result
  | element :: rest => do
    let inner ← chainedFunction p result rest
    patternFunction p inner element

end

/-! ## 3. Matches -/

/-- For each arm a name for its outcome, and the expression that tries it on the variable
    `scrutinee`. -/
def attempts (p : Position) (scrutinee : String) : List Node → Lower (List (String × Node))
  | [] => return []
  | .matchArm _ pattern body :: rest => do
    let result ← freshName "v"
    let matcher ← freshName "pl"
    let f ← patternFunction p body pattern
    let attempt := bind p matcher f (apply p (reference p matcher) (reference p scrutinee))
    return (result, attempt) :: (← attempts p scrutinee rest)
  | other :: _ => fail .notAnArm other.position

/-- The outcome of the first attempt that succeeds. -/
def firstSuccess (p : Position) : List (String × Node) → Node
  | [] => apply p (.builtin (.at p) .panic) (integer p inexhaustiveMatchExitCode)
  | (v, attempt) :: rest =>
    bind p v attempt
      (choose p (equals p (component p v 0 2) (integer p successTag)) (component p v 1 2)
        (firstSuccess p rest))

/-- A `match` with lowered parts, lowered. -/
def lowerMatch (p : Position) (scrutinee : Node) (arms : List Node) : Lower Node := do
  let e ← freshName "e"
  let tried ← attempts p e arms
  return bind p e scrutinee (firstSuccess p tried)

/-! ## 4. Data types -/

/-- The value of a constructor: a pair of its number and its arguments, as a function of them. -/
def constructorValue (p : Position) (tag : Nat) (parameters : List TypeExpr) : Lower Node := do
  if parameters.isEmpty then return pair p (integer p tag) (.literal (.at p) .unit)
  else
    let arguments ← freshNames "a" parameters.length
    return functions p arguments
      (pair p (integer p tag) (.tuple (.at p) (arguments.map (reference p))))

/-- The constructors of a data type with their values. -/
def constructorValues (p : Position) : List Node → Lower (List (String × Node))
  | [] => return []
  | .dataConstructor m c parameters tag :: rest => do
    match tag with
    | none => fail (.untaggedConstructor c) m.position
    | some tag =>
      let value ← constructorValue p tag parameters
      return (c, value) :: (← constructorValues p rest)
  | other :: _ => fail .notAConstructor other.position

/-- The declaration of a data type with lowered parts, lowered. -/
def lowerDataType (p : Position) (constructors : List Node) (body : Node) : Lower Node := do
  let values ← constructorValues p constructors
  return values.foldr (fun (c, value) body => bind p c value body) body

/-- A node with lowered parts, lowered. -/
def lowerMatchNode : Node → Lower Node
  | .dataType m _ constructors body => lowerDataType m.position constructors body
  | .matchWith m scrutinee arms => lowerMatch m.position scrutinee arms
  | other => return other

end Lowering

/-- The tree with every data type and every `match` lowered. Tuples stay. -/
def Node.lowerMatches (n : Node) : Lowering.Lower Node := n.rebuild Lowering.lowerMatchNode

end ClosureML
