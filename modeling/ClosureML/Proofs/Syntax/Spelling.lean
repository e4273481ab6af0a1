import ClosureML.Proofs.Syntax.Grammar
import ClosureML.Syntax.Parser

/-!
# Which tokens spell which tree

A phrase and the tokens that it is written with, one relation for each form of the grammar.
Positions are left open, and so are parentheses: what stands in them is spelled with them and
without. Types are not written into the marks.

The grammar does not say to which statement a semicolon belongs when several of them could end
there. Here it does: a `let`, `letrec`, `data` or lambda takes in all statements behind it, so that
only a `SpellsClosed` statement stands before a semicolon.

* `SpellsType`, `SpellsPattern`, `SpellsExpression`: the tokens spell the phrase.
-/

namespace ClosureML

open ClosureML.Parser (integerLiteral tupleIndex)

/-! ## 1. Types -/

mutual

/-- Type atoms with arrows between them. -/
inductive SpellsType : List Token → TypeExpr → Prop where
  | atom {ts : List Token} {t : TypeExpr} (h : SpellsTypeAtom ts t) : SpellsType ts t
  | function {ts us : List Token} {arrow : Token} {a b : TypeExpr} (ha : SpellsTypeAtom ts a)
      (harrow : arrow.kind = .arrow) (hb : SpellsType us b) :
      SpellsType (ts ++ arrow :: us) (.function a b)

/-- A type without an arrow outside parentheses. -/
inductive SpellsTypeAtom : List Token → TypeExpr → Prop where
  | base {t : Token} {b : BaseType} (hk : t.kind = .identifier)
      (hb : BaseType.ofText? t.text = some b) : SpellsTypeAtom [t] (.base b)
  | named {t : Token} (hk : t.kind = .constructorIdentifier) : SpellsTypeAtom [t] (.named t.text)
  | unit {l r : Token} (hl : l.kind = .openParen) (hr : r.kind = .closeParen) :
      SpellsTypeAtom [l, r] (.base .unit)
  | parentheses {l r : Token} {ts : List Token} {t : TypeExpr} (hl : l.kind = .openParen)
      (h : SpellsTypes ts [t]) (hr : r.kind = .closeParen) : SpellsTypeAtom (l :: (ts ++ [r])) t
  | tuple {l r : Token} {ts : List Token} {t t' : TypeExpr} {more : List TypeExpr}
      (hl : l.kind = .openParen) (h : SpellsTypes ts (t :: t' :: more))
      (hr : r.kind = .closeParen) : SpellsTypeAtom (l :: (ts ++ [r])) (.tuple (t :: t' :: more))

/-- Types with commas between them. -/
inductive SpellsTypes : List Token → List TypeExpr → Prop where
  | one {ts : List Token} {t : TypeExpr} (h : SpellsType ts t) : SpellsTypes ts [t]
  | more {ts us : List Token} {comma : Token} {t : TypeExpr} {more : List TypeExpr}
      (h : SpellsType ts t) (hcomma : comma.kind = .comma) (hmore : SpellsTypes us more) :
      SpellsTypes (ts ++ comma :: us) (t :: more)

end

/-- A type behind a colon, or nothing. -/
inductive SpellsAscription (S : List Token → TypeExpr → Prop) :
    List Token → Option TypeExpr → Prop where
  | absent : SpellsAscription S [] none
  | present {colon : Token} {ts : List Token} {t : TypeExpr} (hcolon : colon.kind = .colon)
      (h : S ts t) : SpellsAscription S (colon :: ts) (some t)

/-! ## 2. Patterns -/

mutual

/-- A pattern. -/
inductive SpellsPattern : List Token → Node → Prop where
  | binder {q : Position} {t : Token} (hk : t.kind = .identifier) :
      SpellsPattern [t] (.patternBinder (.at q) t.text)
  | integer {q : Position} {t : Token} {v : Literal} (hk : t.kind = .integerLiteral)
      (hv : integerLiteral t false = .ok v) : SpellsPattern [t] (.patternLiteral (.at q) v)
  | negative {q : Position} {minus t : Token} {v : Literal} (hminus : minus.kind = .minus)
      (hk : t.kind = .integerLiteral) (hv : integerLiteral t true = .ok v) :
      SpellsPattern [minus, t] (.patternLiteral (.at q) v)
  | boolean {q : Position} {t : Token} (hk : t.kind = .booleanLiteral) :
      SpellsPattern [t] (.patternLiteral (.at q) (.boolean (t.text = "true")))
  | constant {q : Position} {t : Token} (hk : t.kind = .constructorIdentifier) :
      SpellsPattern [t] (.patternConstructor (.at q) t.text [] none)
  | constructor {q : Position} {t l r : Token} {ts : List Token} {ps : List Node}
      (hk : t.kind = .constructorIdentifier) (hl : l.kind = .openParen) (h : SpellsPatterns ts ps)
      (hr : r.kind = .closeParen) :
      SpellsPattern (t :: l :: (ts ++ [r])) (.patternConstructor (.at q) t.text ps none)
  | unit {q : Position} {l r : Token} (hl : l.kind = .openParen) (hr : r.kind = .closeParen) :
      SpellsPattern [l, r] (.patternLiteral (.at q) .unit)
  | parentheses {l r : Token} {ts : List Token} {p : Node} (hl : l.kind = .openParen)
      (h : SpellsPatterns ts [p]) (hr : r.kind = .closeParen) :
      SpellsPattern (l :: (ts ++ [r])) p
  | tuple {q : Position} {l r : Token} {ts : List Token} {p p' : Node} {more : List Node}
      (hl : l.kind = .openParen) (h : SpellsPatterns ts (p :: p' :: more))
      (hr : r.kind = .closeParen) :
      SpellsPattern (l :: (ts ++ [r])) (.patternTuple (.at q) (p :: p' :: more))

/-- Patterns with commas between them. -/
inductive SpellsPatterns : List Token → List Node → Prop where
  | one {ts : List Token} {p : Node} (h : SpellsPattern ts p) : SpellsPatterns ts [p]
  | more {ts us : List Token} {comma : Token} {p : Node} {more : List Node}
      (h : SpellsPattern ts p) (hcomma : comma.kind = .comma) (hmore : SpellsPatterns us more) :
      SpellsPatterns (ts ++ comma :: us) (p :: more)

end

/-! ## 3. Parts of declarations -/

/-- A constructor and the types of its parameters. -/
inductive SpellsConstructor : List Token → Node → Prop where
  | constant {q : Position} {t : Token} (hk : t.kind = .constructorIdentifier) :
      SpellsConstructor [t] (.dataConstructor (.at q) t.text [] none)
  | parameters {q : Position} {t l r : Token} {ts : List Token} {parameters : List TypeExpr}
      (hk : t.kind = .constructorIdentifier) (hl : l.kind = .openParen)
      (h : SpellsTypes ts parameters) (hr : r.kind = .closeParen) :
      SpellsConstructor (t :: l :: (ts ++ [r])) (.dataConstructor (.at q) t.text parameters none)

/-- Constructors with bars between them. -/
inductive SpellsConstructors : List Token → List Node → Prop where
  | one {ts : List Token} {c : Node} (h : SpellsConstructor ts c) : SpellsConstructors ts [c]
  | more {ts us : List Token} {bar : Token} {c : Node} {more : List Node}
      (h : SpellsConstructor ts c) (hbar : bar.kind = .pipe)
      (hmore : SpellsConstructors us more) : SpellsConstructors (ts ++ bar :: us) (c :: more)

/-- The parameter of a function of a group. -/
inductive SpellsParameter : List Token → String × Option TypeExpr → Prop where
  | name {x : Token} (hx : x.kind = .identifier) : SpellsParameter [x] (x.text, none)
  | typed {l x colon r : Token} {ts : List Token} {t : TypeExpr} (hl : l.kind = .openParen)
      (hx : x.kind = .identifier) (hcolon : colon.kind = .colon) (h : SpellsType ts t)
      (hr : r.kind = .closeParen) :
      SpellsParameter (l :: x :: colon :: (ts ++ [r])) (x.text, some t)

/-! ## 4. Expressions -/

mutual

/-- Statements with semicolons between them; one alone is itself. -/
inductive SpellsExpression : List Token → Node → Prop where
  | statement {ts : List Token} {n : Node} (h : SpellsStatements ts [n]) : SpellsExpression ts n
  | sequence {q : Position} {ts : List Token} {n n' : Node} {more : List Node}
      (h : SpellsStatements ts (n :: n' :: more)) :
      SpellsExpression ts (.sequence (.at q) (n :: n' :: more))

/-- Statements with semicolons between them, all but the last of them closed. -/
inductive SpellsStatements : List Token → List Node → Prop where
  | one {ts : List Token} {n : Node} (h : SpellsStatement ts n) : SpellsStatements ts [n]
  | more {ts us : List Token} {semicolon : Token} {n : Node} {more : List Node}
      (h : SpellsClosed ts n) (hsemicolon : semicolon.kind = .semicolon)
      (hmore : SpellsStatements us more) : SpellsStatements (ts ++ semicolon :: us) (n :: more)

/-- A statement. -/
inductive SpellsStatement : List Token → Node → Prop where
  | letIn {q : Position} {start x equals inBody : Token} {ts us vs : List Token}
      {a : Option TypeExpr} {value body : Node} (hstart : start.kind = .keyword .letIn)
      (hx : x.kind = .identifier) (ha : SpellsAscription SpellsType ts a)
      (hequals : equals.kind = .equals) (hvalue : SpellsExpression us value)
      (hinBody : inBody.kind = .keyword .inBody) (hbody : SpellsExpression vs body) :
      SpellsStatement (start :: x :: (ts ++ equals :: (us ++ inBody :: vs)))
        (.letIn (.at q) x.text a value body)
  | letRec {q : Position} {start inBody : Token} {ts us : List Token} {fs : List Node} {body : Node}
      (hstart : start.kind = .keyword .letRec) (hfs : SpellsFunctions ts fs)
      (hinBody : inBody.kind = .keyword .inBody) (hbody : SpellsExpression us body) :
      SpellsStatement (start :: (ts ++ inBody :: us)) (.letRec (.at q) fs body)
  | lambda {q : Position} {start x arrow : Token} {ts us : List Token} {a : Option TypeExpr}
      {body : Node} (hstart : start.kind = .backslash) (hx : x.kind = .identifier)
      (ha : SpellsAscription SpellsTypeAtom ts a) (harrow : arrow.kind = .arrow)
      (hbody : SpellsExpression us body) :
      SpellsStatement (start :: x :: (ts ++ arrow :: us)) (.lambda (.at q) x.text a body)
  | dataType {q : Position} {start d equals inBody : Token} {ts us : List Token} {cs : List Node}
      {body : Node} (hstart : start.kind = .keyword .data) (hd : d.kind = .constructorIdentifier)
      (hequals : equals.kind = .equals) (hcs : SpellsConstructors ts cs)
      (hinBody : inBody.kind = .keyword .inBody) (hbody : SpellsExpression us body) :
      SpellsStatement (start :: d :: equals :: (ts ++ inBody :: us))
        (.dataType (.at q) d.text cs body)
  | conditional {q : Position} {start thenBranch elseBranch : Token} {ts us vs : List Token}
      {c t e : Node} (hstart : start.kind = .keyword .ifThen) (hc : SpellsExpression ts c)
      (hthen : thenBranch.kind = .keyword .thenBranch) (ht : SpellsExpression us t)
      (helse : elseBranch.kind = .keyword .elseBranch) (he : SpellsStatement vs e) :
      SpellsStatement (start :: (ts ++ thenBranch :: (us ++ elseBranch :: vs)))
        (.conditional (.at q) c t e)
  | closed {ts : List Token} {n : Node} (h : SpellsClosed ts n) : SpellsStatement ts n

/-- A statement that a semicolon behind it ends. -/
inductive SpellsClosed : List Token → Node → Prop where
  | conditional {q : Position} {start thenBranch elseBranch : Token} {ts us vs : List Token}
      {c t e : Node} (hstart : start.kind = .keyword .ifThen) (hc : SpellsExpression ts c)
      (hthen : thenBranch.kind = .keyword .thenBranch) (ht : SpellsExpression us t)
      (helse : elseBranch.kind = .keyword .elseBranch) (he : SpellsClosed vs e) :
      SpellsClosed (start :: (ts ++ thenBranch :: (us ++ elseBranch :: vs)))
        (.conditional (.at q) c t e)
  | matchWith {q : Position} {start l r : Token} {ts us : List Token} {e : Node} {arms : List Node}
      (hstart : start.kind = .keyword .matchWith) (he : SpellsExpression ts e)
      (hl : l.kind = .openBrace) (harms : SpellsArms us arms) (hr : r.kind = .closeBrace) :
      SpellsClosed (start :: (ts ++ l :: (us ++ [r]))) (.matchWith (.at q) e arms)
  | relation {ts : List Token} {n : Node} (h : SpellsRelation ts n) : SpellsClosed ts n

/-- A function of a group. -/
inductive SpellsFunction : List Token → Node → Prop where
  | mk {q : Position} {f equals : Token} {ts us vs : List Token} {x : String}
      {pa ra : Option TypeExpr} {body : Node} (hf : f.kind = .identifier)
      (hx : SpellsParameter ts (x, pa)) (ha : SpellsAscription SpellsType us ra)
      (hequals : equals.kind = .equals) (hbody : SpellsExpression vs body) :
      SpellsFunction (f :: (ts ++ (us ++ equals :: vs))) (.letRecArm (.at q) f.text x pa ra body)

/-- Functions with `and` between them. -/
inductive SpellsFunctions : List Token → List Node → Prop where
  | one {ts : List Token} {f : Node} (h : SpellsFunction ts f) : SpellsFunctions ts [f]
  | more {ts us : List Token} {and : Token} {f : Node} {more : List Node}
      (h : SpellsFunction ts f) (hand : and.kind = .keyword .and)
      (hmore : SpellsFunctions us more) : SpellsFunctions (ts ++ and :: us) (f :: more)

/-- The arms of a `match`: before a semicolon, the body of an arm is closed. -/
inductive SpellsArms : List Token → List Node → Prop where
  | one {q : Position} {ts us : List Token} {arrow : Token} {p body : Node}
      (hp : SpellsPattern ts p) (harrow : arrow.kind = .arrow) (hbody : SpellsStatement us body) :
      SpellsArms (ts ++ arrow :: us) [.matchArm (.at q) p body]
  | trailing {q : Position} {ts us : List Token} {arrow semicolon : Token} {p body : Node}
      (hp : SpellsPattern ts p) (harrow : arrow.kind = .arrow) (hbody : SpellsClosed us body)
      (hsemicolon : semicolon.kind = .semicolon) :
      SpellsArms (ts ++ arrow :: (us ++ [semicolon])) [.matchArm (.at q) p body]
  | more {q : Position} {ts us vs : List Token} {arrow semicolon : Token} {p body : Node}
      {more : List Node} (hp : SpellsPattern ts p) (harrow : arrow.kind = .arrow)
      (hbody : SpellsClosed us body) (hsemicolon : semicolon.kind = .semicolon)
      (hmore : SpellsArms vs more) :
      SpellsArms (ts ++ arrow :: (us ++ semicolon :: vs)) (.matchArm (.at q) p body :: more)

/-- A sum, or two with a comparison between them. -/
inductive SpellsRelation : List Token → Node → Prop where
  | sum {ts : List Token} {n : Node} (h : SpellsSum ts n) : SpellsRelation ts n
  | comparison {q : Position} {ts us : List Token} {sign : Token} {o : BinaryOperator} {l r : Node}
      (hl : SpellsSum ts l) (ho : sign.kind.comparison? = some o) (hr : SpellsSum us r) :
      SpellsRelation (ts ++ sign :: us) (.binary (.at q) o l r)

/-- Products with `+` and `-` between them, from the left. -/
inductive SpellsSum : List Token → Node → Prop where
  | product {ts : List Token} {n : Node} (h : SpellsProduct ts n) : SpellsSum ts n
  | term {q : Position} {ts us : List Token} {sign : Token} {o : BinaryOperator} {l r : Node}
      (hl : SpellsSum ts l) (ho : sign.kind.termOperator? = some o) (hr : SpellsProduct us r) :
      SpellsSum (ts ++ sign :: us) (.binary (.at q) o l r)

/-- Negations with `*`, `/` and `%` between them, from the left. -/
inductive SpellsProduct : List Token → Node → Prop where
  | negation {ts : List Token} {n : Node} (h : SpellsNegation ts n) : SpellsProduct ts n
  | factor {q : Position} {ts us : List Token} {sign : Token} {o : BinaryOperator} {l r : Node}
      (hl : SpellsProduct ts l) (ho : sign.kind.factorOperator? = some o)
      (hr : SpellsNegation us r) : SpellsProduct (ts ++ sign :: us) (.binary (.at q) o l r)

/-- An application with any number of minus signs before it. -/
inductive SpellsNegation : List Token → Node → Prop where
  | application {ts : List Token} {n : Node} (h : SpellsApplication ts n) : SpellsNegation ts n
  | negate {q : Position} {minus : Token} {ts : List Token} {n : Node}
      (hminus : minus.kind = .minus) (h : SpellsNegation ts n) :
      SpellsNegation (minus :: ts) (.unary (.at q) .negate n)

/-- A function and its arguments side by side, from the left. -/
inductive SpellsApplication : List Token → Node → Prop where
  | selection {ts : List Token} {n : Node} (h : SpellsSelection ts n) : SpellsApplication ts n
  | argument {q : Position} {ts us : List Token} {f a : Node} (hf : SpellsApplication ts f)
      (ha : SpellsSelection us a) : SpellsApplication (ts ++ us) (.application (.at q) f a)

/-- An atom with projections behind it. -/
inductive SpellsSelection : List Token → Node → Prop where
  | atom {ts : List Token} {n : Node} (h : SpellsAtom ts n) : SpellsSelection ts n
  | projection {q : Position} {ts : List Token} {dot index : Token} {i : Nat} {n : Node}
      (h : SpellsSelection ts n) (hdot : dot.kind = .dot) (hindex : index.kind = .integerLiteral)
      (hi : tupleIndex index = .ok i) :
      SpellsSelection (ts ++ [dot, index]) (.projection (.at q) i none n)

/-- A literal, a name, or an expression or a tuple in parentheses. -/
inductive SpellsAtom : List Token → Node → Prop where
  | integer {q : Position} {t : Token} {v : Literal} (hk : t.kind = .integerLiteral)
      (hv : integerLiteral t false = .ok v) : SpellsAtom [t] (.literal (.at q) v)
  | boolean {q : Position} {t : Token} (hk : t.kind = .booleanLiteral) :
      SpellsAtom [t] (.literal (.at q) (.boolean (t.text = "true")))
  | builtin {q : Position} {t : Token} {b : Builtin} (hk : t.kind = .identifier)
      (hb : Builtin.ofText? t.text = some b) : SpellsAtom [t] (.builtin (.at q) b)
  | reference {q : Position} {t : Token} (hk : t.kind = .identifier)
      (hb : Builtin.ofText? t.text = none) : SpellsAtom [t] (.reference (.at q) t.text)
  | constructor {q : Position} {t : Token} (hk : t.kind = .constructorIdentifier) :
      SpellsAtom [t] (.reference (.at q) t.text)
  | unit {q : Position} {l r : Token} (hl : l.kind = .openParen) (hr : r.kind = .closeParen) :
      SpellsAtom [l, r] (.literal (.at q) .unit)
  | parentheses {l r : Token} {ts : List Token} {n : Node} (hl : l.kind = .openParen)
      (h : SpellsExpressions ts [n]) (hr : r.kind = .closeParen) : SpellsAtom (l :: (ts ++ [r])) n
  | tuple {q : Position} {l r : Token} {ts : List Token} {n n' : Node} {more : List Node}
      (hl : l.kind = .openParen) (h : SpellsExpressions ts (n :: n' :: more))
      (hr : r.kind = .closeParen) : SpellsAtom (l :: (ts ++ [r])) (.tuple (.at q) (n :: n' :: more))

/-- Expressions with commas between them. -/
inductive SpellsExpressions : List Token → List Node → Prop where
  | one {ts : List Token} {n : Node} (h : SpellsExpression ts n) : SpellsExpressions ts [n]
  | more {ts us : List Token} {comma : Token} {n : Node} {more : List Node}
      (h : SpellsExpression ts n) (hcomma : comma.kind = .comma)
      (hmore : SpellsExpressions us more) : SpellsExpressions (ts ++ comma :: us) (n :: more)

end

end ClosureML
