/-!
# Kinds of nodes and their fields

Every node of a syntax tree has one of a fixed set of kinds, and every kind has a schema: the
named fields of its nodes, in order, each with its shape.

Main statements: `Kind.ofText?_text` (the name determines the kind) and `Kind.schema_ne_nil`
(no node is without fields).
-/

namespace ClosureML

/-! ## 1. Kinds -/

/-- The kinds of nodes. The first ones are expressions, from `matchArm` on stand the parts of a
    `match` and of a data declaration, then patterns, and last what names become once they are
    resolved to places in the environment. -/
inductive Kind where
  | top
  | literal
  | reference
  | builtin
  | lambda
  | application
  | letIn
  | letRec
  | letRecArm
  | conditional
  | binary
  | unary
  | sequence
  | tuple
  | projection
  | matchWith
  | matchArm
  | dataType
  | dataConstructor
  | patternBinder
  | patternTuple
  | patternLiteral
  | patternConstructor
  | indexed
  deriving DecidableEq, Repr

namespace Kind

/-- The name of a kind in printed trees and diagnostics. -/
def text : Kind → String
  | top => "Top"
  | literal => "Literal"
  | reference => "VariableReference"
  | builtin => "Builtin"
  | lambda => "Lambda"
  | application => "Application"
  | letIn => "Let"
  | letRec => "LetRec"
  | letRecArm => "LetRecArm"
  | conditional => "Conditional"
  | binary => "BinaryOp"
  | unary => "UnaryOp"
  | sequence => "Sequence"
  | tuple => "Tuple"
  | projection => "Projection"
  | matchWith => "Match"
  | matchArm => "MatchArm"
  | dataType => "DataType"
  | dataConstructor => "DataConstructor"
  | patternBinder => "PatternBinder"
  | patternTuple => "PatternTuple"
  | patternLiteral => "PatternLiteral"
  | patternConstructor => "PatternConstructor"
  | indexed => "IndexedVariable"

/-- Every kind. -/
def all : List Kind :=
  [top, literal, reference, builtin, lambda, application, letIn, letRec, letRecArm, conditional,
    binary, unary, sequence, tuple, projection, matchWith, matchArm, dataType, dataConstructor,
    patternBinder, patternTuple, patternLiteral, patternConstructor, indexed]

/-- The kind with the given name. -/
def ofText? (name : String) : Option Kind := all.find? fun k => k.text = name

theorem ofText?_text (k : Kind) : ofText? k.text = some k := by cases k <;> decide

end Kind

/-! ## 2. Schemas -/

/-- How a field holds its value: one child, an ordered list of children, or a leaf. -/
inductive Shape where
  | single
  | bunched
  | leaf
  deriving DecidableEq, Repr

/-- The name of a shape in diagnostics. -/
def Shape.text : Shape → String
  | single => "Single"
  | bunched => "Bunched"
  | leaf => "Leaf"

/-- The name and the shape of a field. -/
structure FieldSpec where
  name : String
  shape : Shape
  deriving DecidableEq, Repr

namespace Kind

/-- The fields of the nodes of a kind, in order. -/
def schema : Kind → List FieldSpec
  | top => [⟨"expression", .single⟩]
  | literal => [⟨"value", .leaf⟩]
  | reference => [⟨"name", .leaf⟩]
  | builtin => [⟨"builtin", .leaf⟩]
  | lambda => [⟨"parameter", .leaf⟩, ⟨"annotation", .leaf⟩, ⟨"body", .single⟩]
  | application => [⟨"function", .single⟩, ⟨"argument", .single⟩]
  | letIn => [⟨"name", .leaf⟩, ⟨"annotation", .leaf⟩, ⟨"value", .single⟩, ⟨"body", .single⟩]
  | letRec => [⟨"arms", .bunched⟩, ⟨"body", .single⟩]
  | letRecArm =>
    [⟨"name", .leaf⟩, ⟨"parameter", .leaf⟩, ⟨"parameter_annotation", .leaf⟩,
      ⟨"result_annotation", .leaf⟩, ⟨"body", .single⟩]
  | conditional =>
    [⟨"condition", .single⟩, ⟨"then_branch", .single⟩, ⟨"else_branch", .single⟩]
  | binary => [⟨"operator", .leaf⟩, ⟨"lhs", .single⟩, ⟨"rhs", .single⟩]
  | unary => [⟨"operator", .leaf⟩, ⟨"operand", .single⟩]
  | sequence => [⟨"statements", .bunched⟩]
  | tuple => [⟨"elements", .bunched⟩]
  | projection => [⟨"index", .leaf⟩, ⟨"arity", .leaf⟩, ⟨"target", .single⟩]
  | matchWith => [⟨"scrutinee", .single⟩, ⟨"arms", .bunched⟩]
  | matchArm => [⟨"pattern", .single⟩, ⟨"body", .single⟩]
  | dataType => [⟨"name", .leaf⟩, ⟨"constructors", .bunched⟩, ⟨"body", .single⟩]
  | dataConstructor => [⟨"name", .leaf⟩, ⟨"parameters", .leaf⟩, ⟨"tag", .leaf⟩]
  | patternBinder => [⟨"name", .leaf⟩]
  | patternTuple => [⟨"elements", .bunched⟩]
  | patternLiteral => [⟨"value", .leaf⟩]
  | patternConstructor => [⟨"name", .leaf⟩, ⟨"arguments", .bunched⟩, ⟨"tag", .leaf⟩]
  | indexed => [⟨"depth", .leaf⟩, ⟨"sibling", .leaf⟩]

theorem schema_ne_nil (k : Kind) : k.schema ≠ [] := by cases k <;> simp [schema]

end Kind

end ClosureML
