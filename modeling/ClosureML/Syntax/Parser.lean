import ClosureML.Syntax.Node
import ClosureML.Token.Lexer

/-!
# Reading programs

A program is read from its tokens by recursive descent, one function for each form of the grammar:

    expression   statement (";" statement)*
    statement    "let" | "letrec" | "data" | "if" | "match" | "\" forms, or a relation
    relation     sum (comparison sum)?
    sum          product (("+" | "-") product)*
    product      negation (("*" | "/" | "%") negation)*
    negation     "-" negation | application
    application  selection selection*
    selection    atom ("." INTEGER)*

Each function is given the position of the end of the text, for the error that it ended too early,
and the tokens that are left. What it gives holds a proof that it has taken a token (`Parsed`) or
has not put one back (`Trailing`), and on this the recursion rests.

* `Parser.type`, `Parser.pattern`, `Parser.expression` read the three sorts of phrases;
* `Source.parse` reads a whole program.
-/

namespace ClosureML

namespace Parser

/-! ## 1. Results -/

/-- A phrase that was read from the front of `tokens`, and the tokens behind it. -/
structure Parsed (α : Type) (tokens : List Token) where
  value : α
  rest : List Token
  shorter : rest.length < tokens.length

/-- Phrases, perhaps none, that were read from the front of `tokens`, and the tokens behind. -/
structure Trailing (α : Type) (tokens : List Token) where
  value : α
  rest : List Token
  notLonger : rest.length ≤ tokens.length

/-- The result of reading a phrase. -/
abbrev Reads (α : Type) (tokens : List Token) := Except CompileError (Parsed α tokens)

/-- The result of reading what may follow a phrase. -/
abbrev Continues (α : Type) (tokens : List Token) := Except CompileError (Trailing α tokens)

/-- Nothing is read. -/
def Trailing.nothing {α : Type} (value : α) (tokens : List Token) : Trailing α tokens :=
  ⟨value, tokens, Nat.le_refl _⟩

/-! ## 2. Single tokens -/

/-- A token stands where something else was expected. -/
def unexpected {α : Type} (t : Token) (expected : Expected) : Except CompileError α :=
  .error ⟨.unexpectedToken expected t.text, t.position⟩

/-- The next token, whatever it is. -/
def next (stop : Position) (expected : Expected) : (tokens : List Token) → Reads Token tokens
  | [] => .error ⟨.unexpectedEnd expected, stop⟩
  | t :: rest => .ok ⟨t, rest, Nat.lt_succ_self _⟩

/-- The next token, which is to be of a kind. -/
def expect (stop : Position) (kind : TokenKind) (expected : Expected) :
    (tokens : List Token) → Reads Token tokens
  | [] => .error ⟨.unexpectedEnd expected, stop⟩
  | t :: rest =>
    if t.kind = kind then .ok ⟨t, rest, Nat.lt_succ_self _⟩ else unexpected t expected

/-- The tokens behind the next one, if it is of a kind. -/
def skip? (kind : TokenKind) :
    (tokens : List Token) → Option { rest : List Token // rest.length < tokens.length }
  | [] => none
  | t :: rest => if t.kind = kind then some ⟨rest, Nat.lt_succ_self _⟩ else none

/-- The next token and those behind it, if `select` takes its kind. -/
def select? {α : Type} (select : TokenKind → Option α) :
    (tokens : List Token) → Option (Parsed (α × Position) tokens)
  | [] => none
  | t :: rest => (select t.kind).map fun a => ⟨(a, t.position), rest, Nat.lt_succ_self _⟩

/-- A keyword. -/
def keyword (stop : Position) (k : Keyword) (tokens : List Token) : Reads Token tokens :=
  expect stop (.keyword k) (.keyword k) tokens

/-- A name that begins with a small letter. -/
def identifier (stop : Position) (tokens : List Token) : Reads Token tokens :=
  expect stop .identifier .identifier tokens

/-- A name that begins with a capital. -/
def capitalisedName (stop : Position) (tokens : List Token) : Reads Token tokens :=
  expect stop .constructorIdentifier .capitalisedName tokens

/-! ## 3. Numbers -/

/-- The number that digits stand for. -/
def decimal (digits : List Char) : Nat :=
  digits.foldl (fun n c => 10 * n + (c.toNat - '0'.toNat)) 0

/-- The literal that an integer token stands for, with a minus sign before it if `negative`.
    Integers have 64 bits. -/
def integerLiteral (t : Token) (negative : Bool) : Except CompileError Literal :=
  let n := decimal t.text.toList
  if negative then
    if n ≤ UInt64.size / 2 then .ok (.integer (-n))
    else .error ⟨.integerTooWide ("-" ++ t.text), t.position⟩
  else
    if n < UInt64.size / 2 then .ok (.integer n) else .error ⟨.integerTooWide t.text, t.position⟩

/-- The number that an integer token stands for behind a dot. -/
def tupleIndex (t : Token) : Except CompileError Nat :=
  let n := decimal t.text.toList
  if n < UInt64.size then .ok n else .error ⟨.tupleIndexTooLarge t.text, t.position⟩

/-! ## 4. Types -/

mutual

/-- A type: atoms with arrows between them, which associate to the right. -/
def type (stop : Position) (tokens : List Token) : Reads TypeExpr tokens := do
  let ⟨parameter, rest₁, h₁⟩ ← typeAtom stop tokens
  match skip? .arrow rest₁ with
  | none => return ⟨parameter, rest₁, h₁⟩
  | some ⟨rest₂, h₂⟩ =>
    let ⟨result, rest₃, h₃⟩ ← type stop rest₂
    return ⟨.function parameter result, rest₃, by omega⟩
termination_by 2 * tokens.length + 1

/-- A type without an arrow outside parentheses. -/
def typeAtom (stop : Position) (tokens : List Token) : Reads TypeExpr tokens := do
  let ⟨t, rest₁, h₁⟩ ← next stop .type tokens
  match t.kind with
  | .identifier =>
    match BaseType.ofText? t.text with
    | some b => return ⟨.base b, rest₁, h₁⟩
    | none => throw ⟨.unknownType t.text, t.position⟩
  | .constructorIdentifier => return ⟨.named t.text, rest₁, h₁⟩
  | .openParen =>
    match skip? .closeParen rest₁ with
    | some ⟨rest₂, h₂⟩ => return ⟨.base .unit, rest₂, by omega⟩
    | none =>
      let ⟨first, rest₂, h₂⟩ ← type stop rest₁
      let ⟨more, rest₃, h₃⟩ ← typesAfter stop rest₂
      if more.isEmpty then
        let ⟨_, rest₄, h₄⟩ ← expect stop .closeParen .closeParen rest₃
        return ⟨first, rest₄, by omega⟩
      else
        let ⟨_, rest₄, h₄⟩ ← expect stop .closeParen .closeParenOrComma rest₃
        return ⟨.tuple (first :: more), rest₄, by omega⟩
  | _ => unexpected t .type
termination_by 2 * tokens.length

/-- Types that follow a type, each behind a comma. -/
def typesAfter (stop : Position) (tokens : List Token) : Continues (List TypeExpr) tokens :=
  match skip? .comma tokens with
  | none => return .nothing [] tokens
  | some ⟨rest₁, h₁⟩ => do
    let ⟨t, rest₂, h₂⟩ ← type stop rest₁
    let ⟨more, rest₃, h₃⟩ ← typesAfter stop rest₂
    return ⟨t :: more, rest₃, by omega⟩
termination_by 2 * tokens.length

end

/-- A type behind a colon, if a colon is next. -/
def optionalAscription (stop : Position) (tokens : List Token) :
    Continues (Option TypeExpr) tokens :=
  match skip? .colon tokens with
  | none => return .nothing none tokens
  | some ⟨rest₁, h₁⟩ => do
    let ⟨t, rest₂, h₂⟩ ← type stop rest₁
    return ⟨some t, rest₂, by omega⟩

/-! ## 5. Patterns -/

mutual

/-- A pattern. -/
def pattern (stop : Position) (tokens : List Token) : Reads Node tokens := do
  let ⟨t, rest₁, h₁⟩ ← next stop .pattern tokens
  let m := Mark.at t.position
  match t.kind with
  | .identifier => return ⟨.patternBinder m t.text, rest₁, h₁⟩
  | .integerLiteral => return ⟨.patternLiteral m (← integerLiteral t false), rest₁, h₁⟩
  | .minus =>
    let ⟨digits, rest₂, h₂⟩ ← expect stop .integerLiteral .integer rest₁
    return ⟨.patternLiteral m (← integerLiteral digits true), rest₂, by omega⟩
  | .booleanLiteral => return ⟨.patternLiteral m (.boolean (t.text = "true")), rest₁, h₁⟩
  | .constructorIdentifier =>
    match skip? .openParen rest₁ with
    | none => return ⟨.patternConstructor m t.text [] none, rest₁, h₁⟩
    | some ⟨rest₂, h₂⟩ =>
      let ⟨first, rest₃, h₃⟩ ← pattern stop rest₂
      let ⟨more, rest₄, h₄⟩ ← patternsAfter stop rest₃
      let ⟨_, rest₅, h₅⟩ ← expect stop .closeParen .closeParenOrComma rest₄
      return ⟨.patternConstructor m t.text (first :: more) none, rest₅, by omega⟩
  | .openParen =>
    match skip? .closeParen rest₁ with
    | some ⟨rest₂, h₂⟩ => return ⟨.patternLiteral m .unit, rest₂, by omega⟩
    | none =>
      let ⟨first, rest₂, h₂⟩ ← pattern stop rest₁
      let ⟨more, rest₃, h₃⟩ ← patternsAfter stop rest₂
      if more.isEmpty then
        let ⟨_, rest₄, h₄⟩ ← expect stop .closeParen .closeParen rest₃
        return ⟨first, rest₄, by omega⟩
      else
        let ⟨_, rest₄, h₄⟩ ← expect stop .closeParen .closeParenOrComma rest₃
        return ⟨.patternTuple m (first :: more), rest₄, by omega⟩
  | _ => unexpected t .pattern
termination_by tokens.length

/-- Patterns that follow a pattern, each behind a comma. -/
def patternsAfter (stop : Position) (tokens : List Token) : Continues (List Node) tokens :=
  match skip? .comma tokens with
  | none => return .nothing [] tokens
  | some ⟨rest₁, h₁⟩ => do
    let ⟨p, rest₂, h₂⟩ ← pattern stop rest₁
    let ⟨more, rest₃, h₃⟩ ← patternsAfter stop rest₂
    return ⟨p :: more, rest₃, by omega⟩
termination_by tokens.length

end

/-! ## 6. Parts of declarations -/

/-- A constructor and the types of its parameters. -/
def dataConstructor (stop : Position) (tokens : List Token) : Reads Node tokens := do
  let ⟨t, rest₁, h₁⟩ ← capitalisedName stop tokens
  let m := Mark.at t.position
  match skip? .openParen rest₁ with
  | none => return ⟨.dataConstructor m t.text [] none, rest₁, h₁⟩
  | some ⟨rest₂, h₂⟩ =>
    let ⟨first, rest₃, h₃⟩ ← type stop rest₂
    let ⟨more, rest₄, h₄⟩ ← typesAfter stop rest₃
    let ⟨_, rest₅, h₅⟩ ← expect stop .closeParen .closeParenOrComma rest₄
    return ⟨.dataConstructor m t.text (first :: more) none, rest₅, by omega⟩

/-- Constructors that follow a constructor, each behind a bar. -/
def dataConstructorsAfter (stop : Position) (tokens : List Token) :
    Continues (List Node) tokens :=
  match skip? .pipe tokens with
  | none => return .nothing [] tokens
  | some ⟨rest₁, h₁⟩ => do
    let ⟨c, rest₂, h₂⟩ ← dataConstructor stop rest₁
    let ⟨more, rest₃, h₃⟩ ← dataConstructorsAfter stop rest₂
    return ⟨c :: more, rest₃, by omega⟩
termination_by tokens.length

/-- The parameter of a function of a group: a name, or a name with its type in parentheses. -/
def groupParameter (stop : Position) (tokens : List Token) :
    Reads (String × Option TypeExpr) tokens :=
  match skip? .openParen tokens with
  | none => do
    let ⟨x, rest₁, h₁⟩ ← identifier stop tokens
    return ⟨(x.text, none), rest₁, h₁⟩
  | some ⟨rest₁, h₁⟩ => do
    let ⟨x, rest₂, h₂⟩ ← identifier stop rest₁
    let ⟨_, rest₃, h₃⟩ ← expect stop .colon .colon rest₂
    let ⟨t, rest₄, h₄⟩ ← type stop rest₃
    let ⟨_, rest₅, h₅⟩ ← expect stop .closeParen .closeParen rest₄
    return ⟨(x.text, some t), rest₅, by omega⟩

/-- The type of a lambda's parameter, an atom behind a colon, if a colon is next. -/
def lambdaAscription (stop : Position) (tokens : List Token) :
    Continues (Option TypeExpr) tokens :=
  match skip? .colon tokens with
  | none => return .nothing none tokens
  | some ⟨rest₁, h₁⟩ => do
    let ⟨t, rest₂, h₂⟩ ← typeAtom stop rest₁
    return ⟨some t, rest₂, by omega⟩

/-- Projections that follow an expression, each a dot and an index. -/
def projectionsAfter (stop : Position) (target : Node) (tokens : List Token) :
    Continues Node tokens :=
  match select? (fun k => if k = .dot then some () else none) tokens with
  | none => return .nothing target tokens
  | some ⟨((), dot), rest₁, h₁⟩ => do
    let ⟨t, rest₂, h₂⟩ ← expect stop .integerLiteral .tupleIndex rest₁
    let index ← tupleIndex t
    let ⟨result, rest₃, h₃⟩ ←
      projectionsAfter stop (.projection (.at dot) index none target) rest₂
    return ⟨result, rest₃, by omega⟩
termination_by tokens.length

/-! ## 7. Expressions -/

/-- The kind of the next token. -/
def nextKind? (tokens : List Token) : Option TokenKind := tokens.head?.map Token.kind

mutual

/-- Statements with semicolons between them; one alone is itself. -/
def expression (stop : Position) (tokens : List Token) : Reads Node tokens := do
  let ⟨first, rest₁, h₁⟩ ← statement stop tokens
  let ⟨more, rest₂, h₂⟩ ← statementsAfter stop rest₁
  if more.isEmpty then
    return ⟨first, rest₂, by omega⟩
  else
    return ⟨.sequence (.at first.position) (first :: more), rest₂, by omega⟩
termination_by 10 * tokens.length + 9

/-- Statements that follow a statement, each behind a semicolon. -/
def statementsAfter (stop : Position) (tokens : List Token) : Continues (List Node) tokens :=
  match skip? .semicolon tokens with
  | none => return .nothing [] tokens
  | some ⟨rest₁, h₁⟩ => do
    let ⟨s, rest₂, h₂⟩ ← statement stop rest₁
    let ⟨more, rest₃, h₃⟩ ← statementsAfter stop rest₂
    return ⟨s :: more, rest₃, by omega⟩
termination_by 10 * tokens.length

/-- One of the forms that a word begins, or a relation. -/
def statement (stop : Position) (tokens : List Token) : Reads Node tokens :=
  match nextKind? tokens with
  | some (.keyword .letIn) => letStatement stop tokens
  | some (.keyword .letRec) => letRecStatement stop tokens
  | some (.keyword .data) => dataStatement stop tokens
  | some (.keyword .ifThen) => conditional stop tokens
  | some (.keyword .matchWith) => matchStatement stop tokens
  | some .backslash => lambda stop tokens
  | _ => relation stop tokens
termination_by 10 * tokens.length + 8

/-- A `let`. -/
def letStatement (stop : Position) (tokens : List Token) : Reads Node tokens := do
  let ⟨start, rest₁, h₁⟩ ← keyword stop .letIn tokens
  let ⟨x, rest₂, h₂⟩ ← identifier stop rest₁
  let ⟨ascription, rest₃, h₃⟩ ← optionalAscription stop rest₂
  let ⟨_, rest₄, h₄⟩ ← expect stop .equals .equals rest₃
  let ⟨value, rest₅, h₅⟩ ← expression stop rest₄
  let ⟨_, rest₆, h₆⟩ ← keyword stop .inBody rest₅
  let ⟨body, rest₇, h₇⟩ ← expression stop rest₆
  return ⟨.letIn (.at start.position) x.text ascription value body, rest₇, by omega⟩
termination_by 10 * tokens.length

/-- A `letrec`: functions with `and` between them, and the body. -/
def letRecStatement (stop : Position) (tokens : List Token) : Reads Node tokens := do
  let ⟨start, rest₁, h₁⟩ ← keyword stop .letRec tokens
  let ⟨first, rest₂, h₂⟩ ← groupFunction stop rest₁
  let ⟨more, rest₃, h₃⟩ ← groupFunctionsAfter stop rest₂
  let ⟨_, rest₄, h₄⟩ ← keyword stop .inBody rest₃
  let ⟨body, rest₅, h₅⟩ ← expression stop rest₄
  return ⟨.letRec (.at start.position) (first :: more) body, rest₅, by omega⟩
termination_by 10 * tokens.length

/-- A function of a group. -/
def groupFunction (stop : Position) (tokens : List Token) : Reads Node tokens := do
  let ⟨f, rest₁, h₁⟩ ← identifier stop tokens
  let ⟨(x, parameterAscription), rest₂, h₂⟩ ← groupParameter stop rest₁
  let ⟨resultAscription, rest₃, h₃⟩ ← optionalAscription stop rest₂
  let ⟨_, rest₄, h₄⟩ ← expect stop .equals .equals rest₃
  let ⟨body, rest₅, h₅⟩ ← expression stop rest₄
  return ⟨.letRecArm (.at f.position) f.text x parameterAscription resultAscription body, rest₅,
    by omega⟩
termination_by 10 * tokens.length

/-- Functions that follow a function of a group, each behind `and`. -/
def groupFunctionsAfter (stop : Position) (tokens : List Token) :
    Continues (List Node) tokens :=
  match skip? (.keyword .and) tokens with
  | none => return .nothing [] tokens
  | some ⟨rest₁, h₁⟩ => do
    let ⟨f, rest₂, h₂⟩ ← groupFunction stop rest₁
    let ⟨more, rest₃, h₃⟩ ← groupFunctionsAfter stop rest₂
    return ⟨f :: more, rest₃, by omega⟩
termination_by 10 * tokens.length

/-- A lambda. The type of its parameter is an atom, so that the arrow is the lambda's own. -/
def lambda (stop : Position) (tokens : List Token) : Reads Node tokens := do
  let ⟨start, rest₁, h₁⟩ ← expect stop .backslash .backslash tokens
  let ⟨x, rest₂, h₂⟩ ← identifier stop rest₁
  let ⟨ascription, rest₃, h₃⟩ ← lambdaAscription stop rest₂
  let ⟨_, rest₄, h₄⟩ ← expect stop .arrow .arrow rest₃
  let ⟨body, rest₅, h₅⟩ ← expression stop rest₄
  return ⟨.lambda (.at start.position) x.text ascription body, rest₅, by omega⟩
termination_by 10 * tokens.length

/-- The declaration of a data type, and the body. -/
def dataStatement (stop : Position) (tokens : List Token) : Reads Node tokens := do
  let ⟨start, rest₁, h₁⟩ ← keyword stop .data tokens
  let ⟨d, rest₂, h₂⟩ ← capitalisedName stop rest₁
  let ⟨_, rest₃, h₃⟩ ← expect stop .equals .equals rest₂
  let ⟨first, rest₄, h₄⟩ ← dataConstructor stop rest₃
  let ⟨more, rest₅, h₅⟩ ← dataConstructorsAfter stop rest₄
  let ⟨_, rest₆, h₆⟩ ← keyword stop .inBody rest₅
  let ⟨body, rest₇, h₇⟩ ← expression stop rest₆
  return ⟨.dataType (.at start.position) d.text (first :: more) body, rest₇, by omega⟩
termination_by 10 * tokens.length

/-- A conditional; its last branch is a single statement. -/
def conditional (stop : Position) (tokens : List Token) : Reads Node tokens := do
  let ⟨start, rest₁, h₁⟩ ← keyword stop .ifThen tokens
  let ⟨condition, rest₂, h₂⟩ ← expression stop rest₁
  let ⟨_, rest₃, h₃⟩ ← keyword stop .thenBranch rest₂
  let ⟨thenBranch, rest₄, h₄⟩ ← expression stop rest₃
  let ⟨_, rest₅, h₅⟩ ← keyword stop .elseBranch rest₄
  let ⟨elseBranch, rest₆, h₆⟩ ← statement stop rest₅
  return ⟨.conditional (.at start.position) condition thenBranch elseBranch, rest₆, by omega⟩
termination_by 10 * tokens.length

/-- A `match` with its arms in braces. -/
def matchStatement (stop : Position) (tokens : List Token) : Reads Node tokens := do
  let ⟨start, rest₁, h₁⟩ ← keyword stop .matchWith tokens
  let ⟨scrutinee, rest₂, h₂⟩ ← expression stop rest₁
  let ⟨_, rest₃, h₃⟩ ← expect stop .openBrace .openBrace rest₂
  let ⟨arms, rest₄, h₄⟩ ← matchArms stop rest₃
  return ⟨.matchWith (.at start.position) scrutinee arms, rest₄, by omega⟩
termination_by 10 * tokens.length

/-- The arms of a `match` up to the closing brace. A semicolon stands between two arms, and may
    stand behind the last. -/
def matchArms (stop : Position) (tokens : List Token) : Reads (List Node) tokens := do
  let ⟨arm, rest₁, h₁⟩ ← matchArm stop tokens
  match skip? .semicolon rest₁ with
  | none =>
    let ⟨_, rest₂, h₂⟩ ← expect stop .closeBrace .semicolonOrCloseBrace rest₁
    return ⟨[arm], rest₂, by omega⟩
  | some ⟨rest₂, h₂⟩ =>
    match skip? .closeBrace rest₂ with
    | some ⟨rest₃, h₃⟩ => return ⟨[arm], rest₃, by omega⟩
    | none =>
      let ⟨more, rest₃, h₃⟩ ← matchArms stop rest₂
      return ⟨arm :: more, rest₃, by omega⟩
termination_by 10 * tokens.length + 1

/-- An arm of a `match`; its body is a single statement. -/
def matchArm (stop : Position) (tokens : List Token) : Reads Node tokens := do
  let ⟨p, rest₁, h₁⟩ ← pattern stop tokens
  let ⟨_, rest₂, h₂⟩ ← expect stop .arrow .arrow rest₁
  let ⟨body, rest₃, h₃⟩ ← statement stop rest₂
  return ⟨.matchArm (.at p.position) p body, rest₃, by omega⟩
termination_by 10 * tokens.length

/-- A sum, or two with a comparison between them. -/
def relation (stop : Position) (tokens : List Token) : Reads Node tokens := do
  let ⟨lhs, rest₁, h₁⟩ ← sum stop tokens
  match select? TokenKind.comparison? rest₁ with
  | none => return ⟨lhs, rest₁, h₁⟩
  | some ⟨(operator, p), rest₂, h₂⟩ =>
    let ⟨rhs, rest₃, h₃⟩ ← sum stop rest₂
    return ⟨.binary (.at p) operator lhs rhs, rest₃, by omega⟩
termination_by 10 * tokens.length + 7

/-- Products with `+` and `-` between them. -/
def sum (stop : Position) (tokens : List Token) : Reads Node tokens := do
  let ⟨lhs, rest₁, h₁⟩ ← product stop tokens
  let ⟨result, rest₂, h₂⟩ ← termsAfter stop lhs rest₁
  return ⟨result, rest₂, by omega⟩
termination_by 10 * tokens.length + 6

/-- Terms that follow `lhs`, from the left. -/
def termsAfter (stop : Position) (lhs : Node) (tokens : List Token) : Continues Node tokens :=
  match select? TokenKind.termOperator? tokens with
  | none => return .nothing lhs tokens
  | some ⟨(operator, p), rest₁, h₁⟩ => do
    let ⟨rhs, rest₂, h₂⟩ ← product stop rest₁
    let ⟨result, rest₃, h₃⟩ ← termsAfter stop (.binary (.at p) operator lhs rhs) rest₂
    return ⟨result, rest₃, by omega⟩
termination_by 10 * tokens.length

/-- Negations with `*`, `/` and `%` between them. -/
def product (stop : Position) (tokens : List Token) : Reads Node tokens := do
  let ⟨lhs, rest₁, h₁⟩ ← negation stop tokens
  let ⟨result, rest₂, h₂⟩ ← factorsAfter stop lhs rest₁
  return ⟨result, rest₂, by omega⟩
termination_by 10 * tokens.length + 5

/-- Factors that follow `lhs`, from the left. -/
def factorsAfter (stop : Position) (lhs : Node) (tokens : List Token) : Continues Node tokens :=
  match select? TokenKind.factorOperator? tokens with
  | none => return .nothing lhs tokens
  | some ⟨(operator, p), rest₁, h₁⟩ => do
    let ⟨rhs, rest₂, h₂⟩ ← negation stop rest₁
    let ⟨result, rest₃, h₃⟩ ← factorsAfter stop (.binary (.at p) operator lhs rhs) rest₂
    return ⟨result, rest₃, by omega⟩
termination_by 10 * tokens.length

/-- An application with any number of minus signs before it. -/
def negation (stop : Position) (tokens : List Token) : Reads Node tokens :=
  match select? (fun k => if k = .minus then some UnaryOperator.negate else none) tokens with
  | none => application stop tokens
  | some ⟨(operator, p), rest₁, h₁⟩ => do
    let ⟨operand, rest₂, h₂⟩ ← negation stop rest₁
    return ⟨.unary (.at p) operator operand, rest₂, by omega⟩
termination_by 10 * tokens.length + 4

/-- A function and its arguments side by side. -/
def application (stop : Position) (tokens : List Token) : Reads Node tokens := do
  let ⟨function, rest₁, h₁⟩ ← selection stop tokens
  let ⟨result, rest₂, h₂⟩ ← argumentsAfter stop function rest₁
  return ⟨result, rest₂, by omega⟩
termination_by 10 * tokens.length + 3

/-- Arguments that follow a function, from the left. -/
def argumentsAfter (stop : Position) (function : Node) (tokens : List Token) :
    Continues Node tokens :=
  if (nextKind? tokens).any TokenKind.startsAtom then do
    let ⟨argument, rest₁, h₁⟩ ← selection stop tokens
    let ⟨result, rest₂, h₂⟩ ←
      argumentsAfter stop (.application (.at function.position) function argument) rest₁
    return ⟨result, rest₂, by omega⟩
  else
    return .nothing function tokens
termination_by 10 * tokens.length + 3

/-- An atom with projections behind it. -/
def selection (stop : Position) (tokens : List Token) : Reads Node tokens := do
  let ⟨target, rest₁, h₁⟩ ← atom stop tokens
  let ⟨result, rest₂, h₂⟩ ← projectionsAfter stop target rest₁
  return ⟨result, rest₂, by omega⟩
termination_by 10 * tokens.length + 2

/-- A literal, a name, or an expression or a tuple in parentheses. -/
def atom (stop : Position) (tokens : List Token) : Reads Node tokens := do
  let ⟨t, rest₁, h₁⟩ ← next stop .expression tokens
  let m := Mark.at t.position
  match t.kind with
  | .integerLiteral => return ⟨.literal m (← integerLiteral t false), rest₁, h₁⟩
  | .booleanLiteral => return ⟨.literal m (.boolean (t.text = "true")), rest₁, h₁⟩
  | .identifier =>
    match Builtin.ofText? t.text with
    | some b => return ⟨.builtin m b, rest₁, h₁⟩
    | none => return ⟨.reference m t.text, rest₁, h₁⟩
  | .constructorIdentifier => return ⟨.reference m t.text, rest₁, h₁⟩
  | .openParen =>
    match skip? .closeParen rest₁ with
    | some ⟨rest₂, h₂⟩ => return ⟨.literal m .unit, rest₂, by omega⟩
    | none =>
      let ⟨first, rest₂, h₂⟩ ← expression stop rest₁
      let ⟨more, rest₃, h₃⟩ ← expressionsAfter stop rest₂
      if more.isEmpty then
        let ⟨_, rest₄, h₄⟩ ← expect stop .closeParen .closeParen rest₃
        return ⟨first, rest₄, by omega⟩
      else
        let ⟨_, rest₄, h₄⟩ ← expect stop .closeParen .closeParenOrComma rest₃
        return ⟨.tuple m (first :: more), rest₄, by omega⟩
  | _ => unexpected t .expression
termination_by 10 * tokens.length + 1

/-- Expressions that follow an expression, each behind a comma. -/
def expressionsAfter (stop : Position) (tokens : List Token) : Continues (List Node) tokens :=
  match skip? .comma tokens with
  | none => return .nothing [] tokens
  | some ⟨rest₁, h₁⟩ => do
    let ⟨e, rest₂, h₂⟩ ← expression stop rest₁
    let ⟨more, rest₃, h₃⟩ ← expressionsAfter stop rest₂
    return ⟨e :: more, rest₃, by omega⟩
termination_by 10 * tokens.length

end

/-- A program: an expression behind which nothing follows. -/
def program (stop : Position) (tokens : List Token) : Except CompileError Node := do
  let ⟨e, rest, _⟩ ← expression stop tokens
  match rest with
  | [] => return .ofProgram e
  | t :: _ => unexpected t .endOfInput

end Parser

/-- The tree of a source. -/
def Source.parse (s : Source) : Except CompileError Node := do
  Parser.program s.endPosition (← s.tokens)

end ClosureML
