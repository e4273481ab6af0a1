import ClosureML.Proofs.Syntax.Declarations
import ClosureML.Proofs.Syntax.Grammar
import Mathlib.Algebra.Group.Int.Defs
import Mathlib.Algebra.GroupWithZero.Nat

/-!
# Trees that can be written down

The trees of the grammar hold more than a text can say: a negative number where an expression
stands, a sequence of one statement, a name that is a keyword. What can be written down is a tree of
the grammar whose nodes hold what a text can say.

* `IsIdentifier` and `IsCapitalised`: the two sorts of names;
* `TypeExpr.IsWritable` and `Node.IsWritable`: a type and a node that can be written down;
* `Node.IsSurface`: a program that can be written down.
-/

namespace ClosureML

/-! ## 1. Names -/

/-- A word of a kind. -/
structure IsName (kind : TokenKind) (name : String) : Prop where
  word : IsWord name
  start : name.toList.head?.any startsWord = true
  kind_eq : wordKind name.toList = kind

instance (kind : TokenKind) (name : String) : Decidable (IsName kind name) :=
  decidable_of_iff (IsWord name ∧ name.toList.head?.any startsWord = true ∧
      wordKind name.toList = kind)
    ⟨fun ⟨h, h', h''⟩ => ⟨h, h', h''⟩, fun ⟨h, h', h''⟩ => ⟨h, h', h''⟩⟩

/-- A name that begins with a small letter or an underscore, and is no keyword and no truth
    value. -/
def IsIdentifier (name : String) : Prop := IsName .identifier name

/-- A name that begins with a capital. -/
def IsCapitalised (name : String) : Prop := IsName .constructorIdentifier name

/-! ## 2. Types -/

/-- A type that can be written down. -/
inductive TypeExpr.IsWritable : TypeExpr → Prop where
  | base {b : BaseType} : IsWritable (.base b)
  | named {name : String} (h : IsCapitalised name) : IsWritable (.named name)
  | function {a b : TypeExpr} (ha : IsWritable a) (hb : IsWritable b) : IsWritable (.function a b)
  | tuple {ts : List TypeExpr} (hlength : 2 ≤ ts.length) (hts : ∀ t ∈ ts, IsWritable t) :
      IsWritable (.tuple ts)

/-! ## 3. Nodes -/

/-- An integer of 64 bits; not a negative one, unless it stands in a pattern. -/
def Literal.IsWritable (inPattern : Bool) : Literal → Prop
  | integer n => (if inPattern then -2 ^ 63 else 0) ≤ n ∧ n < 2 ^ 63
  | _ => True

/-- What a node that can be written down holds, apart from its mark and its children. -/
def Node.HoldsText : Node → Prop
  | literal _ v => v.IsWritable false
  | reference _ x => IsIdentifier x ∧ Builtin.ofText? x = none ∨ IsCapitalised x
  | lambda _ x a _ | letIn _ x a _ _ => IsIdentifier x ∧ ∀ t ∈ a, t.IsWritable
  | letRec _ arms _ | matchWith _ _ arms => arms ≠ []
  | letRecArm _ f x pa ra _ =>
    IsIdentifier f ∧ IsIdentifier x ∧ (∀ t ∈ pa, t.IsWritable) ∧ ∀ t ∈ ra, t.IsWritable
  | sequence _ ns | tuple _ ns | patternTuple _ ns => 2 ≤ ns.length
  | projection _ i _ _ => i < 2 ^ 64
  | dataType _ d cs _ => IsCapitalised d ∧ cs ≠ []
  | dataConstructor _ c ts _ => IsCapitalised c ∧ ∀ t ∈ ts, t.IsWritable
  | patternBinder _ x => IsIdentifier x
  | patternLiteral _ v => v.IsWritable true
  | patternConstructor _ c _ _ => IsCapitalised c
  | _ => True

/-- A node that can be written down; it has no type yet. -/
structure Node.IsWritable (n : Node) : Prop where
  untyped : n.mark.ty = none
  holds : n.HoldsText

/-- A program that can be written down. -/
structure Node.IsSurface (n : Node) : Prop where
  program : IsProgram n
  writable : n.Everywhere Node.IsWritable

end ClosureML
