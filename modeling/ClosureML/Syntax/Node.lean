import ClosureML.Source
import ClosureML.Syntax.Kind
import ClosureML.Types.Ty

/-!
# Syntax trees

One type of tree serves every pass. A node carries a mark: where it comes from, and its type once
inference has run. The type is open: an expression may stand where a pattern belongs, and it is
each pass that says which kinds it accepts where.

* `Node.children` lists the subtrees in schema order;
* `Node.mapMarks` changes every mark of a tree, `Node.rebuild` rebuilds a tree from its leaves
  upward, `Node.fold` computes a value from the leaves upward.

Main statements: `Node.rebuild_pure` (a rebuilding that changes no node changes no tree) and
`Node.fold_eq` (the value of a node is made from those of its children).
-/

namespace ClosureML

/-! ## 1. Nodes -/

/-- What every node carries beside its contents. -/
structure Mark where
  position : Position
  ty : Option Ty
  deriving DecidableEq, Repr, Inhabited

/-- The mark of a node that has no type yet. -/
def Mark.at (position : Position) : Mark := ⟨position, none⟩

/-- A syntax tree.

    `reference` is the use of a variable or constructor; `letRecArm` a function of a `letRec`
    group; `projection` takes component `index` (from 0) out of a tuple of `arity` elements, which
    inference fills in; the `tag` of a constructor is given by name resolution; `indexed` is a
    reference by its place in the environment, where `depth` counts entries and `sibling` the
    members of a group, both from 1. -/
inductive Node where
  | top (mark : Mark) (expression : Node)
  | literal (mark : Mark) (value : Literal)
  | reference (mark : Mark) (name : String)
  | builtin (mark : Mark) (builtin : Builtin)
  | lambda (mark : Mark) (parameter : String) (ascription : Option TypeExpr) (body : Node)
  | application (mark : Mark) (function argument : Node)
  | letIn (mark : Mark) (name : String) (ascription : Option TypeExpr) (value body : Node)
  | letRec (mark : Mark) (arms : List Node) (body : Node)
  | letRecArm (mark : Mark) (name parameter : String)
      (parameterAscription resultAscription : Option TypeExpr) (body : Node)
  | conditional (mark : Mark) (condition thenBranch elseBranch : Node)
  | binary (mark : Mark) (operator : BinaryOperator) (lhs rhs : Node)
  | unary (mark : Mark) (operator : UnaryOperator) (operand : Node)
  | sequence (mark : Mark) (statements : List Node)
  | tuple (mark : Mark) (elements : List Node)
  | projection (mark : Mark) (index : Nat) (arity : Option Nat) (target : Node)
  | matchWith (mark : Mark) (scrutinee : Node) (arms : List Node)
  | matchArm (mark : Mark) (pattern body : Node)
  | dataType (mark : Mark) (name : String) (constructors : List Node) (body : Node)
  | dataConstructor (mark : Mark) (name : String) (parameters : List TypeExpr) (tag : Option Nat)
  | patternBinder (mark : Mark) (name : String)
  | patternTuple (mark : Mark) (elements : List Node)
  | patternLiteral (mark : Mark) (value : Literal)
  | patternConstructor (mark : Mark) (name : String) (arguments : List Node) (tag : Option Nat)
  | indexed (mark : Mark) (depth : Nat) (sibling : Option Nat)
  deriving Repr, Inhabited

namespace Node

/-- The mark of a node. -/
def mark : Node → Mark
  | top m .. | literal m .. | reference m .. | builtin m .. | lambda m .. | application m ..
  | letIn m .. | letRec m .. | letRecArm m .. | conditional m .. | binary m .. | unary m ..
  | sequence m .. | tuple m .. | projection m .. | matchWith m .. | matchArm m .. | dataType m ..
  | dataConstructor m .. | patternBinder m .. | patternTuple m .. | patternLiteral m ..
  | patternConstructor m .. | indexed m .. => m

/-- The node with another mark. -/
def withMark (m : Mark) : Node → Node
  | top _ e => top m e
  | literal _ v => literal m v
  | reference _ x => reference m x
  | builtin _ b => builtin m b
  | lambda _ x a body => lambda m x a body
  | application _ g e => application m g e
  | letIn _ x a value body => letIn m x a value body
  | letRec _ arms body => letRec m arms body
  | letRecArm _ x p pa ra body => letRecArm m x p pa ra body
  | conditional _ c t e => conditional m c t e
  | binary _ o l r => binary m o l r
  | unary _ o e => unary m o e
  | sequence _ es => sequence m es
  | tuple _ es => tuple m es
  | projection _ i n e => projection m i n e
  | matchWith _ e arms => matchWith m e arms
  | matchArm _ p body => matchArm m p body
  | dataType _ d cs body => dataType m d cs body
  | dataConstructor _ c ts tag => dataConstructor m c ts tag
  | patternBinder _ x => patternBinder m x
  | patternTuple _ ps => patternTuple m ps
  | patternLiteral _ v => patternLiteral m v
  | patternConstructor _ c ps tag => patternConstructor m c ps tag
  | indexed _ d s => indexed m d s

/-- Where a node comes from. -/
def position (n : Node) : Position := n.mark.position

/-- The kind of a node. -/
def kind : Node → Kind
  | top .. => .top
  | literal .. => .literal
  | reference .. => .reference
  | builtin .. => .builtin
  | lambda .. => .lambda
  | application .. => .application
  | letIn .. => .letIn
  | letRec .. => .letRec
  | letRecArm .. => .letRecArm
  | conditional .. => .conditional
  | binary .. => .binary
  | unary .. => .unary
  | sequence .. => .sequence
  | tuple .. => .tuple
  | projection .. => .projection
  | matchWith .. => .matchWith
  | matchArm .. => .matchArm
  | dataType .. => .dataType
  | dataConstructor .. => .dataConstructor
  | patternBinder .. => .patternBinder
  | patternTuple .. => .patternTuple
  | patternLiteral .. => .patternLiteral
  | patternConstructor .. => .patternConstructor
  | indexed .. => .indexed

/-- The subtrees of a node, in schema order. -/
def children : Node → List Node
  | top _ e => [e]
  | literal .. | reference .. | builtin .. => []
  | lambda _ _ _ body => [body]
  | application _ function argument => [function, argument]
  | letIn _ _ _ value body => [value, body]
  | letRec _ arms body => arms ++ [body]
  | letRecArm _ _ _ _ _ body => [body]
  | conditional _ condition thenBranch elseBranch => [condition, thenBranch, elseBranch]
  | binary _ _ lhs rhs => [lhs, rhs]
  | unary _ _ operand => [operand]
  | sequence _ statements => statements
  | tuple _ elements => elements
  | projection _ _ _ target => [target]
  | matchWith _ scrutinee arms => scrutinee :: arms
  | matchArm _ pattern body => [pattern, body]
  | dataType _ _ constructors body => constructors ++ [body]
  | dataConstructor .. | patternBinder .. => []
  | patternTuple _ elements => elements
  | patternLiteral .. => []
  | patternConstructor _ _ arguments _ => arguments
  | indexed .. => []

/-- The root of a program, at the position of its expression. -/
def ofProgram (expression : Node) : Node := top (.at expression.position) expression

/-! ## 2. Changing every mark -/

mutual

/-- The tree in which every mark is changed by `f`. -/
def mapMarks (f : Mark → Mark) : Node → Node
  | top m e => top (f m) (e.mapMarks f)
  | literal m v => literal (f m) v
  | reference m x => reference (f m) x
  | builtin m b => builtin (f m) b
  | lambda m x a body => lambda (f m) x a (body.mapMarks f)
  | application m g e => application (f m) (g.mapMarks f) (e.mapMarks f)
  | letIn m x a value body => letIn (f m) x a (value.mapMarks f) (body.mapMarks f)
  | letRec m arms body => letRec (f m) (mapAllMarks f arms) (body.mapMarks f)
  | letRecArm m x p pa ra body => letRecArm (f m) x p pa ra (body.mapMarks f)
  | conditional m c t e => conditional (f m) (c.mapMarks f) (t.mapMarks f) (e.mapMarks f)
  | binary m o l r => binary (f m) o (l.mapMarks f) (r.mapMarks f)
  | unary m o e => unary (f m) o (e.mapMarks f)
  | sequence m es => sequence (f m) (mapAllMarks f es)
  | tuple m es => tuple (f m) (mapAllMarks f es)
  | projection m i n e => projection (f m) i n (e.mapMarks f)
  | matchWith m e arms => matchWith (f m) (e.mapMarks f) (mapAllMarks f arms)
  | matchArm m p body => matchArm (f m) (p.mapMarks f) (body.mapMarks f)
  | dataType m d cs body => dataType (f m) d (mapAllMarks f cs) (body.mapMarks f)
  | dataConstructor m c ts tag => dataConstructor (f m) c ts tag
  | patternBinder m x => patternBinder (f m) x
  | patternTuple m ps => patternTuple (f m) (mapAllMarks f ps)
  | patternLiteral m v => patternLiteral (f m) v
  | patternConstructor m c ps tag => patternConstructor (f m) c (mapAllMarks f ps) tag
  | indexed m d s => indexed (f m) d s

/-- The trees in which every mark is changed by `f`. -/
def mapAllMarks (f : Mark → Mark) : List Node → List Node
  | [] => []
  | n :: ns => n.mapMarks f :: mapAllMarks f ns

end

/-! ## 3. Rebuilding a tree from its leaves upward -/

mutual

/-- The tree rebuilt from its leaves upward: the children of a node are rebuilt in schema order,
    then `f` is given the node over its new children. -/
def rebuild {m : Type → Type} [Monad m] (f : Node → m Node) : Node → m Node
  | top k e => do f (top k (← e.rebuild f))
  | literal k v => f (literal k v)
  | reference k x => f (reference k x)
  | builtin k b => f (builtin k b)
  | lambda k x a body => do f (lambda k x a (← body.rebuild f))
  | application k g e => do
    let g ← g.rebuild f
    let e ← e.rebuild f
    f (application k g e)
  | letIn k x a value body => do
    let value ← value.rebuild f
    let body ← body.rebuild f
    f (letIn k x a value body)
  | letRec k arms body => do
    let arms ← rebuildAll f arms
    let body ← body.rebuild f
    f (letRec k arms body)
  | letRecArm k x p pa ra body => do f (letRecArm k x p pa ra (← body.rebuild f))
  | conditional k c t e => do
    let c ← c.rebuild f
    let t ← t.rebuild f
    let e ← e.rebuild f
    f (conditional k c t e)
  | binary k o l r => do
    let l ← l.rebuild f
    let r ← r.rebuild f
    f (binary k o l r)
  | unary k o e => do f (unary k o (← e.rebuild f))
  | sequence k es => do f (sequence k (← rebuildAll f es))
  | tuple k es => do f (tuple k (← rebuildAll f es))
  | projection k i n e => do f (projection k i n (← e.rebuild f))
  | matchWith k e arms => do
    let e ← e.rebuild f
    let arms ← rebuildAll f arms
    f (matchWith k e arms)
  | matchArm k p body => do
    let p ← p.rebuild f
    let body ← body.rebuild f
    f (matchArm k p body)
  | dataType k d cs body => do
    let cs ← rebuildAll f cs
    let body ← body.rebuild f
    f (dataType k d cs body)
  | dataConstructor k c ts tag => f (dataConstructor k c ts tag)
  | patternBinder k x => f (patternBinder k x)
  | patternTuple k ps => do f (patternTuple k (← rebuildAll f ps))
  | patternLiteral k v => f (patternLiteral k v)
  | patternConstructor k c ps tag => do f (patternConstructor k c (← rebuildAll f ps) tag)
  | indexed k d s => f (indexed k d s)

/-- The trees rebuilt one after the other. -/
def rebuildAll {m : Type → Type} [Monad m] (f : Node → m Node) : List Node → m (List Node)
  | [] => pure []
  | n :: ns => do
    let n ← n.rebuild f
    let ns ← rebuildAll f ns
    pure (n :: ns)

end

mutual

/-- Rebuilding with a function that changes nothing gives the tree back. -/
theorem rebuild_pure {m : Type → Type} [Monad m] [LawfulMonad m] :
    ∀ n : Node, n.rebuild (pure : Node → m Node) = pure n
  | top _ e => by simp [rebuild, rebuild_pure e]
  | literal .. | reference .. | builtin .. | dataConstructor .. | patternBinder ..
  | patternLiteral .. | indexed .. => by simp [rebuild]
  | lambda _ _ _ body => by simp [rebuild, rebuild_pure body]
  | application _ g e => by simp [rebuild, rebuild_pure g, rebuild_pure e]
  | letIn _ _ _ value body => by simp [rebuild, rebuild_pure value, rebuild_pure body]
  | letRec _ arms body => by simp [rebuild, rebuildAll_pure arms, rebuild_pure body]
  | letRecArm _ _ _ _ _ body => by simp [rebuild, rebuild_pure body]
  | conditional _ c t e => by simp [rebuild, rebuild_pure c, rebuild_pure t, rebuild_pure e]
  | binary _ _ l r => by simp [rebuild, rebuild_pure l, rebuild_pure r]
  | unary _ _ e => by simp [rebuild, rebuild_pure e]
  | sequence _ es => by simp [rebuild, rebuildAll_pure es]
  | tuple _ es => by simp [rebuild, rebuildAll_pure es]
  | projection _ _ _ e => by simp [rebuild, rebuild_pure e]
  | matchWith _ e arms => by simp [rebuild, rebuild_pure e, rebuildAll_pure arms]
  | matchArm _ p body => by simp [rebuild, rebuild_pure p, rebuild_pure body]
  | dataType _ _ cs body => by simp [rebuild, rebuildAll_pure cs, rebuild_pure body]
  | patternTuple _ ps => by simp [rebuild, rebuildAll_pure ps]
  | patternConstructor _ _ ps _ => by simp [rebuild, rebuildAll_pure ps]

theorem rebuildAll_pure {m : Type → Type} [Monad m] [LawfulMonad m] :
    ∀ ns : List Node, rebuildAll (pure : Node → m Node) ns = pure ns
  | [] => by simp [rebuildAll]
  | n :: ns => by simp [rebuildAll, rebuild_pure n, rebuildAll_pure ns]

end

/-! ## 4. Computing a value from the leaves upward -/

mutual

/-- The value that `f` gives for a node and the values of its children, in schema order. -/
def fold {α : Type} (f : Node → List α → α) : Node → α
  | top k e => f (top k e) [e.fold f]
  | literal k v => f (literal k v) []
  | reference k x => f (reference k x) []
  | builtin k b => f (builtin k b) []
  | lambda k x a body => f (lambda k x a body) [body.fold f]
  | application k g e => f (application k g e) [g.fold f, e.fold f]
  | letIn k x a value body => f (letIn k x a value body) [value.fold f, body.fold f]
  | letRec k arms body => f (letRec k arms body) (foldAll f arms ++ [body.fold f])
  | letRecArm k x p pa ra body => f (letRecArm k x p pa ra body) [body.fold f]
  | conditional k c t e => f (conditional k c t e) [c.fold f, t.fold f, e.fold f]
  | binary k o l r => f (binary k o l r) [l.fold f, r.fold f]
  | unary k o e => f (unary k o e) [e.fold f]
  | sequence k es => f (sequence k es) (foldAll f es)
  | tuple k es => f (tuple k es) (foldAll f es)
  | projection k i n e => f (projection k i n e) [e.fold f]
  | matchWith k e arms => f (matchWith k e arms) (e.fold f :: foldAll f arms)
  | matchArm k p body => f (matchArm k p body) [p.fold f, body.fold f]
  | dataType k d cs body => f (dataType k d cs body) (foldAll f cs ++ [body.fold f])
  | dataConstructor k c ts tag => f (dataConstructor k c ts tag) []
  | patternBinder k x => f (patternBinder k x) []
  | patternTuple k ps => f (patternTuple k ps) (foldAll f ps)
  | patternLiteral k v => f (patternLiteral k v) []
  | patternConstructor k c ps tag => f (patternConstructor k c ps tag) (foldAll f ps)
  | indexed k d s => f (indexed k d s) []

/-- The values of several trees. -/
def foldAll {α : Type} (f : Node → List α → α) : List Node → List α
  | [] => []
  | n :: ns => n.fold f :: foldAll f ns

end

/-- The values of several trees are the values of each. -/
theorem foldAll_eq_map {α : Type} (f : Node → List α → α) (ns : List Node) :
    foldAll f ns = ns.map (fold f) := by
  induction ns with
  | nil => simp [foldAll]
  | cons n ns ih => simp [foldAll, ih]

/-- **The one equation of `fold`**: the value of a node is made from those of its children. -/
theorem fold_eq {α : Type} (f : Node → List α → α) (n : Node) :
    n.fold f = f n (n.children.map (fold f)) := by
  cases n <;> simp [fold, children, foldAll_eq_map]

end Node

end ClosureML
