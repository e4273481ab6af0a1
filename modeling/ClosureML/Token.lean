import ClosureML.Source
import ClosureML.Syntax.Primitive

/-!
# Tokens

The words, numbers and signs that a source text is made of.

* `TokenKind` is what sort of token it is; `TokenKind.comparison?`, `TokenKind.termOperator?` and
  `TokenKind.factorOperator?` are the operators among them;
* `Token` is one with its text, its place and its position.
-/

namespace ClosureML

/-! ## 1. Keywords -/

/-- The reserved words. -/
inductive Keyword where
  | letIn
  | letRec
  | and
  | inBody
  | ifThen
  | thenBranch
  | elseBranch
  | matchWith
  | data
  deriving DecidableEq, Repr

namespace Keyword

/-- The written form. -/
def text : Keyword → String
  | letIn => "let"
  | letRec => "letrec"
  | and => "and"
  | inBody => "in"
  | ifThen => "if"
  | thenBranch => "then"
  | elseBranch => "else"
  | matchWith => "match"
  | data => "data"

/-- The name of a keyword in a list of tokens: its written form, capitalised. -/
def name : Keyword → String
  | letIn => "Let"
  | letRec => "Letrec"
  | and => "And"
  | inBody => "In"
  | ifThen => "If"
  | thenBranch => "Then"
  | elseBranch => "Else"
  | matchWith => "Match"
  | data => "Data"

/-- Every keyword. -/
def all : List Keyword :=
  [letIn, letRec, and, inBody, ifThen, thenBranch, elseBranch, matchWith, data]

/-- The keyword with the given written form. -/
def ofText? (word : String) : Option Keyword := all.find? fun k => k.text = word

theorem ofText?_text (k : Keyword) : ofText? k.text = some k := by cases k <;> decide

end Keyword

/-! ## 2. Kinds of tokens -/

/-- The kinds of tokens. An `identifier` begins with a small letter or an underscore, a
    `constructorIdentifier` with a capital. -/
inductive TokenKind where
  | keyword (keyword : Keyword)
  | identifier
  | constructorIdentifier
  | booleanLiteral
  | integerLiteral
  | openParen
  | closeParen
  | openBrace
  | closeBrace
  | semicolon
  | comma
  | colon
  | arrow
  | backslash
  | dot
  | pipe
  | equals
  | minus
  | plus
  | asterisk
  | slash
  | percent
  | doubleEquals
  | notEquals
  | lessThan
  | lessOrEqual
  | greaterThan
  | greaterOrEqual
  deriving DecidableEq, Repr

namespace TokenKind

/-- The name of a kind in a list of tokens. -/
def name : TokenKind → String
  | keyword k => "Keyword(" ++ k.name ++ ")"
  | identifier => "Identifier"
  | constructorIdentifier => "ConstructorIdentifier"
  | booleanLiteral => "BooleanLiteral"
  | integerLiteral => "IntegerLiteral"
  | openParen => "OpenParen"
  | closeParen => "CloseParen"
  | openBrace => "OpenBrace"
  | closeBrace => "CloseBrace"
  | semicolon => "Semicolon"
  | comma => "Comma"
  | colon => "Colon"
  | arrow => "Arrow"
  | backslash => "Backslash"
  | dot => "Dot"
  | pipe => "Pipe"
  | equals => "Equals"
  | minus => "Minus"
  | plus => "Plus"
  | asterisk => "Asterisk"
  | slash => "Divide"
  | percent => "Modulus"
  | doubleEquals => "DoubleEquals"
  | notEquals => "NotEquals"
  | lessThan => "LessThan"
  | lessOrEqual => "LessThanOrEqualTo"
  | greaterThan => "GreaterThan"
  | greaterOrEqual => "GreaterThanOrEqualTo"

/-- The comparison that a token stands for. -/
def comparison? : TokenKind → Option BinaryOperator
  | doubleEquals => some .equals
  | notEquals => some .notEquals
  | lessThan => some .lessThan
  | lessOrEqual => some .lessOrEqual
  | greaterThan => some .greaterThan
  | greaterOrEqual => some .greaterOrEqual
  | _ => none

/-- The operator between the terms of a sum that a token stands for. -/
def termOperator? : TokenKind → Option BinaryOperator
  | plus => some .add
  | minus => some .subtract
  | _ => none

/-- The operator between the factors of a product that a token stands for. -/
def factorOperator? : TokenKind → Option BinaryOperator
  | asterisk => some .multiply
  | slash => some .divide
  | percent => some .modulus
  | _ => none

/-- Can the token begin an argument of a function? -/
def startsAtom : TokenKind → Bool
  | identifier | constructorIdentifier | integerLiteral | booleanLiteral | openParen => true
  | _ => false

/-- The letters of the classes that the kind belongs to: `c` comparisons, `t` operators between
    terms, `f` operators between factors, `a` starts of atoms. -/
def classLetters (k : TokenKind) : String :=
  (if k.comparison?.isSome then "c" else "") ++ (if k.termOperator?.isSome then "t" else "")
    ++ (if k.factorOperator?.isSome then "f" else "") ++ (if k.startsAtom then "a" else "")

end TokenKind

/-! ## 3. Tokens -/

/-- A token: its characters, the cursor before them and the offset behind them. -/
structure Token where
  kind : TokenKind
  text : String
  start : Nat
  stop : Nat
  position : Position
  deriving DecidableEq, Repr

end ClosureML
