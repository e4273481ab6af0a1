import ClosureML.Syntax.Node

/-!
# Nodes as lists of named fields

A node can be taken apart into its named fields, and be put together from them. Putting together
checks the fields against the schema of the kind: first their number, then field by field the name
and the shape, and last field by field the kind of the leaf values.

Main statements: `Node.fields_names` (the names are those of the schema) and
`Node.ofFields_fields` (putting the fields of a node together gives the node without its type).
-/

namespace ClosureML

/-! ## 1. Field values -/

/-- The value of a field that is no subtree. -/
inductive Leaf where
  | name (name : String)
  | literal (value : Literal)
  | builtin (builtin : Builtin)
  | binaryOperator (operator : BinaryOperator)
  | unaryOperator (operator : UnaryOperator)
  | ascription (ascription : Option TypeExpr)
  | ascriptions (types : List TypeExpr)
  | count (count : Nat)
  | optionalCount (count : Option Nat)
  | tag (tag : Option Nat)
  deriving Repr, Inhabited

/-- The written form of a number that may be missing. -/
def optionalText : Option Nat → String
  | some n => toString n
  | none => "_"

/-- The written form of a leaf; what is missing is written `_`. -/
def Leaf.text : Leaf → String
  | name x => x
  | literal v => v.text
  | builtin b => b.text
  | binaryOperator o => o.text
  | unaryOperator o => o.text
  | ascription (some t) => t.text
  | ascription none => "_"
  | ascriptions ts => "[" ++ ", ".intercalate (ts.map TypeExpr.text) ++ "]"
  | count n => toString n
  | optionalCount n => optionalText n
  | tag n => optionalText n

/-- The value of a field. -/
inductive Field where
  | single (node : Node)
  | bunched (nodes : List Node)
  | leaf (value : Leaf)
  deriving Repr, Inhabited

/-- How a field holds its value. -/
def Field.shape : Field → Shape
  | single _ => .single
  | bunched _ => .bunched
  | leaf _ => .leaf

/-! ## 2. Taking a node apart -/

namespace Node

/-- The values of the fields, in schema order. -/
def contents : Node → List Field
  | top _ e => [.single e]
  | literal _ v => [.leaf (.literal v)]
  | reference _ x => [.leaf (.name x)]
  | builtin _ b => [.leaf (.builtin b)]
  | lambda _ x a body => [.leaf (.name x), .leaf (.ascription a), .single body]
  | application _ function argument => [.single function, .single argument]
  | letIn _ x a value body =>
    [.leaf (.name x), .leaf (.ascription a), .single value, .single body]
  | letRec _ arms body => [.bunched arms, .single body]
  | letRecArm _ x p pa ra body =>
    [.leaf (.name x), .leaf (.name p), .leaf (.ascription pa), .leaf (.ascription ra),
      .single body]
  | conditional _ c t e => [.single c, .single t, .single e]
  | binary _ o l r => [.leaf (.binaryOperator o), .single l, .single r]
  | unary _ o e => [.leaf (.unaryOperator o), .single e]
  | sequence _ es => [.bunched es]
  | tuple _ es => [.bunched es]
  | projection _ i n e => [.leaf (.count i), .leaf (.optionalCount n), .single e]
  | matchWith _ e arms => [.single e, .bunched arms]
  | matchArm _ p body => [.single p, .single body]
  | dataType _ d cs body => [.leaf (.name d), .bunched cs, .single body]
  | dataConstructor _ c ts tag => [.leaf (.name c), .leaf (.ascriptions ts), .leaf (.tag tag)]
  | patternBinder _ x => [.leaf (.name x)]
  | patternTuple _ ps => [.bunched ps]
  | patternLiteral _ v => [.leaf (.literal v)]
  | patternConstructor _ c ps tag => [.leaf (.name c), .bunched ps, .leaf (.tag tag)]
  | indexed _ d s => [.leaf (.count d), .leaf (.optionalCount s)]

/-- The fields with their names, in schema order. -/
def fields (n : Node) : List (String × Field) :=
  (n.kind.schema.map FieldSpec.name).zip n.contents

/-- The names of a node's fields are those of its kind's schema. -/
theorem fields_names (n : Node) : n.fields.map Prod.fst = n.kind.schema.map FieldSpec.name := by
  cases n <;> rfl

end Node

/-! ## 3. Putting a node together -/

/-- Why a list of fields is not that of a node of some kind. -/
inductive SchemaError where
  | fieldCount (kind : Kind) (expected found : Nat)
  | unexpectedField (kind : Kind) (index : Nat) (expected found : String)
  | wrongShape (kind : Kind) (field : String) (expected : Shape)
  | wrongLeaf (kind : Kind) (field : String)
  deriving DecidableEq, Repr

/-- The wording of the error. -/
def SchemaError.message : SchemaError → String
  | fieldCount kind expected found =>
    s!"`{kind.text}` expects {expected} fields but {found} were given"
  | unexpectedField kind index expected found =>
    s!"`{kind.text}` has no field `{found}` at position {index} (expected `{expected}`)"
  | wrongShape kind field expected =>
    s!"field `{field}` of `{kind.text}` has the wrong shape (expected {expected.text})"
  | wrongLeaf kind field => s!"field `{field}` of `{kind.text}` holds the wrong kind of leaf value"

namespace Node

/-- The names and the shapes of the fields from number `index` on fit what the schema asks. -/
def checkFields (kind : Kind) : Nat → List FieldSpec → List (String × Field) →
    Except SchemaError Unit
  | index, spec :: specs, (name, field) :: fields =>
    if spec.name ≠ name then .error (.unexpectedField kind index spec.name name)
    else if spec.shape ≠ field.shape then .error (.wrongShape kind spec.name spec.shape)
    else checkFields kind (index + 1) specs fields
  | _, _, _ => .ok ()

/-- The child that a field holds. -/
def readNode (kind : Kind) : String × Field → Except SchemaError Node
  | (_, .single n) => .ok n
  | (name, _) => .error (.wrongShape kind name .single)

/-- The children that a field holds. -/
def readNodes (kind : Kind) : String × Field → Except SchemaError (List Node)
  | (_, .bunched ns) => .ok ns
  | (name, _) => .error (.wrongShape kind name .bunched)

/-- The leaf that a field holds, read by `select`. -/
def readLeaf {α : Type} (kind : Kind) (select : Leaf → Option α) :
    String × Field → Except SchemaError α
  | (name, .leaf v) =>
    match select v with
    | some a => .ok a
    | none => .error (.wrongLeaf kind name)
  | (name, _) => .error (.wrongShape kind name .leaf)

end Node

namespace Leaf

/-- The name in a leaf. -/
def name? : Leaf → Option String
  | name x => some x
  | _ => none

/-- The literal in a leaf. -/
def literal? : Leaf → Option Literal
  | literal v => some v
  | _ => none

/-- The builtin in a leaf. -/
def builtin? : Leaf → Option Builtin
  | builtin b => some b
  | _ => none

/-- The binary operator in a leaf. -/
def binaryOperator? : Leaf → Option BinaryOperator
  | binaryOperator o => some o
  | _ => none

/-- The unary operator in a leaf. -/
def unaryOperator? : Leaf → Option UnaryOperator
  | unaryOperator o => some o
  | _ => none

/-- The ascription in a leaf. -/
def ascription? : Leaf → Option (Option TypeExpr)
  | ascription a => some a
  | _ => none

/-- The ascriptions in a leaf. -/
def ascriptions? : Leaf → Option (List TypeExpr)
  | ascriptions ts => some ts
  | _ => none

/-- The number in a leaf. -/
def count? : Leaf → Option Nat
  | count n => some n
  | _ => none

/-- The number, which may be missing, in a leaf. -/
def optionalCount? : Leaf → Option (Option Nat)
  | optionalCount n => some n
  | _ => none

/-- The tag in a leaf. -/
def tag? : Leaf → Option (Option Nat)
  | tag n => some n
  | _ => none

end Leaf

namespace Node

open Leaf (name? literal? builtin? binaryOperator? unaryOperator? ascription? ascriptions? count?
  optionalCount? tag?) in
/-- The node of a kind with the given fields, whose names and shapes are taken for granted. -/
def assemble (kind : Kind) (position : Position) (fields : List (String × Field)) :
    Except SchemaError Node :=
  let m := Mark.at position
  let leaf {α : Type} (select : Leaf → Option α) := readLeaf kind select
  let node := readNode kind
  let nodes := readNodes kind
  match kind, fields with
  | .top, [e] => do return top m (← node e)
  | .literal, [v] => do return literal m (← leaf literal? v)
  | .reference, [x] => do return reference m (← leaf name? x)
  | .builtin, [b] => do return builtin m (← leaf builtin? b)
  | .lambda, [x, a, body] => do
    return lambda m (← leaf name? x) (← leaf ascription? a) (← node body)
  | .application, [g, e] => do return application m (← node g) (← node e)
  | .letIn, [x, a, value, body] => do
    return letIn m (← leaf name? x) (← leaf ascription? a) (← node value) (← node body)
  | .letRec, [arms, body] => do return letRec m (← nodes arms) (← node body)
  | .letRecArm, [x, p, pa, ra, body] => do
    return letRecArm m (← leaf name? x) (← leaf name? p) (← leaf ascription? pa)
      (← leaf ascription? ra) (← node body)
  | .conditional, [c, t, e] => do return conditional m (← node c) (← node t) (← node e)
  | .binary, [o, l, r] => do
    return binary m (← leaf binaryOperator? o) (← node l) (← node r)
  | .unary, [o, e] => do return unary m (← leaf unaryOperator? o) (← node e)
  | .sequence, [es] => do return sequence m (← nodes es)
  | .tuple, [es] => do return tuple m (← nodes es)
  | .projection, [i, n, e] => do
    return projection m (← leaf count? i) (← leaf optionalCount? n) (← node e)
  | .matchWith, [e, arms] => do return matchWith m (← node e) (← nodes arms)
  | .matchArm, [p, body] => do return matchArm m (← node p) (← node body)
  | .dataType, [d, cs, body] => do
    return dataType m (← leaf name? d) (← nodes cs) (← node body)
  | .dataConstructor, [c, ts, tag] => do
    return dataConstructor m (← leaf name? c) (← leaf ascriptions? ts) (← leaf tag? tag)
  | .patternBinder, [x] => do return patternBinder m (← leaf name? x)
  | .patternTuple, [ps] => do return patternTuple m (← nodes ps)
  | .patternLiteral, [v] => do return patternLiteral m (← leaf literal? v)
  | .patternConstructor, [c, ps, tag] => do
    return patternConstructor m (← leaf name? c) (← nodes ps) (← leaf tag? tag)
  | .indexed, [d, s] => do return indexed m (← leaf count? d) (← leaf optionalCount? s)
  | _, _ => .error (.fieldCount kind kind.schema.length fields.length)

/-- The node of a kind with the given named fields, without a type. -/
def ofFields (kind : Kind) (position : Position) (fields : List (String × Field)) :
    Except SchemaError Node := do
  if fields.length ≠ kind.schema.length then
    throw (.fieldCount kind kind.schema.length fields.length)
  checkFields kind 0 kind.schema fields
  assemble kind position fields

/-- The node without its type. -/
def withoutType (n : Node) : Node := n.withMark (.at n.position)

/-- **Taking apart and putting together** gives the node back, without its type. -/
theorem ofFields_fields (n : Node) : ofFields n.kind n.position n.fields = .ok n.withoutType := by
  have check : checkFields n.kind 0 n.kind.schema n.fields = .ok () := by
    cases n <;> simp [checkFields, fields, contents, kind, Kind.schema, Field.shape]
  have count : n.fields.length = n.kind.schema.length := by cases n <;> rfl
  rw [ofFields, if_neg (by simp [count]), check]
  cases n <;> rfl

end Node

end ClosureML
