import ClosureML.Proofs.Syntax.Surface
import ClosureML.Proofs.Syntax.Words

/-!
# Writing trees down

The words that a tree is written with. Parentheses stand where a phrase would not be read as a part
of what stands around it, and around every sequence and every statement that reads on to the end of
the brackets around it, unless it stands alone between brackets.

How tightly a phrase holds together is a number:

    0   a sequence, a `let`, `letrec`, `data` or lambda
    1   a `match`, a conditional
    2   a comparison
    3   a sum
    4   a product
    5   a negation
    6   an application
    7   a projection
    8   whatever else

A part is in parentheses when it holds together less tightly than its place asks for. A conditional
has no sign at its end either; with `fenced` it is put in parentheses like a `let`.

* `TypeExpr.words`, `Node.words`: the words of a type and of a tree;
* `Node.enclose`: the parentheses of a part;
* `Node.text`: the text of a tree.
-/

namespace ClosureML

/-! ## 1. Parts -/

/-- Words in parentheses. -/
def parenthesised (ws : List Word) : List Word :=
  .sign .openParen :: (ws ++ [.sign .closeParen])

/-- Phrases with a word between each two. -/
def separated (w : Word) (wss : List (List Word)) : List Word := [w].intercalate wss

/-- What stands behind a constructor: nothing, or phrases with commas between them in
    parentheses. -/
def argumentWords : List (List Word) → List Word
  | [] => []
  | wss => parenthesised (separated (.sign .comma) wss)

/-! ## 2. Types -/

/-- A function type is in parentheses where an atom belongs. -/
def TypeExpr.enclose (ws : List Word) : TypeExpr → List Word
  | function .. => parenthesised ws
  | _ => ws

mutual

/-- The words of a type. -/
def TypeExpr.words : TypeExpr → List Word
  | base b => [.name b.text]
  | named d => [.name d]
  | function a b => a.enclose a.words ++ .sign .arrow :: b.words
  | tuple ts => parenthesised (separated (.sign .comma) (wordsEach ts))

/-- The words of several types. -/
def TypeExpr.wordsEach : List TypeExpr → List (List Word)
  | [] => []
  | t :: ts => t.words :: wordsEach ts

end

/-- The words of a type where an atom belongs. -/
def TypeExpr.atomWords (t : TypeExpr) : List Word := t.enclose t.words

/-- What stands behind a name: nothing, or a type behind a colon. -/
def ascriptionWords (f : TypeExpr → List Word) : Option TypeExpr → List Word
  | none => []
  | some t => .sign .colon :: f t

/-- The words of the parameter of a function of a group. -/
def parameterWords (x : String) : Option TypeExpr → List Word
  | none => [.name x]
  | some t => parenthesised (.name x :: .sign .colon :: t.words)

/-! ## 3. Trees -/

/-- The words of a constant. -/
def Literal.words : Literal → List Word
  | integer (.ofNat n) => [.number n]
  | integer (.negSucc n) => [.sign .minus, .number (n + 1)]
  | boolean true => [.name "true"]
  | boolean false => [.name "false"]
  | unit => [.sign .openParen, .sign .closeParen]

/-- How tightly an operator holds its operands together. -/
def BinaryOperator.strength : BinaryOperator → Nat
  | multiply | divide | modulus => 4
  | add | subtract => 3
  | greaterThan | lessThan | greaterOrEqual | lessOrEqual | equals | notEquals => 2

/-- How tightly a tree holds together. -/
def Node.strength (fenced : Bool) : Node → Nat
  | sequence .. | letIn .. | letRec .. | dataType .. | lambda .. => 0
  | conditional .. => if fenced then 0 else 1
  | matchWith .. => 1
  | binary _ o _ _ => o.strength
  | unary .. => 5
  | application .. => 6
  | projection .. => 7
  | _ => 8

/-- A tree is in parentheses where its place asks for more strength than it has. -/
def Node.enclose (fenced : Bool) (level : Nat) (n : Node) (ws : List Word) : List Word :=
  if level ≤ n.strength fenced then ws else parenthesised ws

mutual

/-- The words of a tree. -/
@[simp] def Node.words (fenced : Bool) : Node → List Word
  | top _ e => e.words fenced
  | literal _ v | patternLiteral _ v => v.words
  | reference _ x | patternBinder _ x => [.name x]
  | builtin _ b => [.name b.text]
  | lambda _ x a body =>
    .sign .backslash :: .name x :: (ascriptionWords TypeExpr.atomWords a ++
      .sign .arrow :: body.enclose fenced 1 (body.words fenced))
  | application _ f a =>
    f.enclose fenced 6 (f.words fenced) ++ a.enclose fenced 7 (a.words fenced)
  | letIn _ x a value body =>
    .keyword .letIn :: .name x :: (ascriptionWords TypeExpr.words a ++
      .sign .equals :: (value.enclose fenced 1 (value.words fenced) ++
        .keyword .inBody :: body.enclose fenced 1 (body.words fenced)))
  | letRec _ arms body =>
    .keyword .letRec :: (separated (.keyword .and) (wordsEach fenced 1 arms) ++
      .keyword .inBody :: body.enclose fenced 1 (body.words fenced))
  | letRecArm _ f x pa ra body =>
    .name f :: (parameterWords x pa ++ (ascriptionWords TypeExpr.words ra ++
      .sign .equals :: body.enclose fenced 1 (body.words fenced)))
  | conditional _ c t e =>
    .keyword .ifThen :: (c.enclose fenced 1 (c.words fenced) ++
      .keyword .thenBranch :: (t.enclose fenced 1 (t.words fenced) ++
        .keyword .elseBranch :: e.enclose fenced 1 (e.words fenced)))
  -- comparisons do not associate; the other operators associate to the left
  | binary _ o l r =>
    l.enclose fenced (max 3 o.strength) (l.words fenced) ++
      .sign o.sign :: r.enclose fenced (o.strength + 1) (r.words fenced)
  | unary _ _ e => .sign .minus :: e.enclose fenced 5 (e.words fenced)
  | sequence _ es => separated (.sign .semicolon) (wordsEach fenced 1 es)
  | tuple _ es | patternTuple _ es =>
    parenthesised (separated (.sign .comma) (wordsEach fenced 1 es))
  | projection _ i _ e => e.enclose fenced 7 (e.words fenced) ++ [.sign .dot, .number i]
  | matchWith _ e arms =>
    .keyword .matchWith :: (e.enclose fenced 1 (e.words fenced) ++
      .sign .openBrace :: (separated (.sign .semicolon) (wordsEach fenced 1 arms) ++
        [.sign .closeBrace]))
  | matchArm _ p body =>
    p.words fenced ++ .sign .arrow :: body.enclose fenced 1 (body.words fenced)
  | dataType _ d cs body =>
    .keyword .data :: .name d :: .sign .equals ::
      (separated (.sign .pipe) (wordsEach fenced 1 cs) ++
        .keyword .inBody :: body.enclose fenced 1 (body.words fenced))
  | dataConstructor _ c ts _ => .name c :: argumentWords (TypeExpr.wordsEach ts)
  | patternConstructor _ c ps _ => .name c :: argumentWords (wordsEach fenced 1 ps)
  | indexed .. => []

/-- The words of several trees. -/
@[simp] def Node.wordsEach (fenced : Bool) (level : Nat) : List Node → List (List Word)
  | [] => []
  | n :: ns => n.enclose fenced level (n.words fenced) :: wordsEach fenced level ns

end

/-- The text of a tree. -/
def Node.text (fenced : Bool) (n : Node) : String := wordsText (n.words fenced)

end ClosureML
