import ClosureML.Syntax.Kind
import ClosureML.Token
import ClosureML.Types.Ty

/-!
# Causes of errors

What can be wrong with a program. Every cause belongs to one of five kinds of errors and has a
wording; the pass that finds it adds the position.

* `ErrorKind` are the kinds, one for each concern of the compiler;
* `Expected` names what the parser was looking for;
* `Cause` are the causes, `Cause.kind` and `Cause.message` their kind and their wording.
-/

namespace ClosureML

/-! ## 1. Kinds of errors -/

/-- The kinds of errors: malformed text; names that are unbound, undeclared or declared twice;
    local rules of typing; types that cannot be made equal; and references that have no place in
    the environment. -/
inductive ErrorKind where
  | syntaxError
  | nameError
  | typeError
  | unifyError
  | unboundNameError
  deriving DecidableEq, Repr

/-- The name of a kind of error. -/
def ErrorKind.text : ErrorKind → String
  | syntaxError => "SyntaxError"
  | nameError => "NameError"
  | typeError => "TypeError"
  | unifyError => "UnifyError"
  | unboundNameError => "UnboundNameError"

/-! ## 2. What a parser expects -/

/-- What the parser was looking for. -/
inductive Expected where
  | expression
  | pattern
  | type
  | identifier
  | capitalisedName
  | integer
  | tupleIndex
  | endOfInput
  | keyword (keyword : Keyword)
  | equals
  | colon
  | arrow
  | backslash
  | openBrace
  | closeParen
  | closeParenOrComma
  | semicolonOrCloseBrace
  deriving DecidableEq, Repr

/-- The wording of an expectation. -/
def Expected.text : Expected → String
  | expression => "an expression"
  | pattern => "a pattern"
  | type => "a type"
  | identifier => "an identifier"
  | capitalisedName => "a capitalized constructor or type name"
  | integer => "an integer"
  | tupleIndex => "a tuple index"
  | endOfInput => "end of input"
  | keyword k => "`" ++ k.text ++ "`"
  | equals => "`=`"
  | colon => "`:`"
  | arrow => "`->`"
  | backslash => "`\\`"
  | openBrace => "`\x7b`"
  | closeParen => "`)`"
  | closeParenOrComma => "`)` or `,`"
  | semicolonOrCloseBrace => "`;` or `\x7d`"

/-! ## 3. Causes -/

/-- What is wrong. The causes stand in the order of the passes that find them: reading the text,
    resolving names, inferring types, unifying them, lowering matches and tuples, placing names in
    the environment, generating code. -/
inductive Cause where
  | strayCharacter (c : Char)
  | nonAsciiCharacter (c : Char)
  | unexpectedToken (expected : Expected) (found : String)
  | unexpectedEnd (expected : Expected)
  | integerTooWide (text : String)
  | tupleIndexTooLarge (text : String)
  | unknownType (name : String)
  | unboundVariable (name : String)
  | undeclaredConstructor (name : String)
  | undeclaredDataType (name : String)
  | repeatedBinder (name : String)
  | repeatedFunction (name : String)
  | repeatedDataType (name : String)
  | repeatedConstructor (name : String)
  | notAPattern (kind : Kind)
  | notAConstructorOf (dataType : String)
  | untypedVariable (name : String)
  | untypedConstructor (name : String)
  | constructorArity (name : String) (declared given : Nat)
  | projectionOfNonTuple (index : Nat) (type : Ty)
  | projectionOutOfRange (index : Nat) (type : Ty)
  | outOfPlace (kind : Kind)
  | notAFunctionDefinition
  | notAnArm
  | untypedIndex
  | mismatch (left right : Ty)
  | tupleLengths (left right : Ty) (leftLength rightLength : Nat)
  | infiniteType (v : TypeVar) (type : Ty)
  | notAConstructor
  | untaggedConstructor (name : String)
  | untaggedPattern (name : String)
  | unknownArity (index : Nat)
  | notInEnvironment (name : String)
  | unresolvedVariable (name : String)
  | notLowered (kind : Kind)
  deriving DecidableEq, Repr

namespace Cause

/-- The kind of error that a cause is. -/
def kind : Cause → ErrorKind
  | strayCharacter _ | nonAsciiCharacter _ | unexpectedToken .. | unexpectedEnd _
  | integerTooWide _ | tupleIndexTooLarge _ | unknownType _ | notAPattern _ | notAConstructorOf _
  | outOfPlace _ | notAFunctionDefinition | notAnArm | untypedIndex | notAConstructor
  | notLowered _ => .syntaxError
  | unboundVariable _ | undeclaredConstructor _ | undeclaredDataType _ | repeatedBinder _
  | repeatedFunction _ | repeatedDataType _ | repeatedConstructor _ | untaggedConstructor _
  | untaggedPattern _ => .nameError
  | untypedVariable _ | untypedConstructor _ | constructorArity .. | projectionOfNonTuple ..
  | projectionOutOfRange .. | unknownArity _ => .typeError
  | mismatch .. | tupleLengths .. | infiniteType .. => .unifyError
  | notInEnvironment _ | unresolvedVariable _ => .unboundNameError

/-- The wording of a cause. -/
def message : Cause → String
  | strayCharacter c => s!"unexpected character in stream: `{c}`"
  | nonAsciiCharacter c => s!"unexpected non-ascii character in stream: `{c}`"
  | unexpectedToken expected found => s!"expected {expected.text} but found `{found}`"
  | unexpectedEnd expected => s!"expected {expected.text} but reached end of file"
  | integerTooWide text => s!"integer literal `{text}` does not fit in 64 bits"
  | tupleIndexTooLarge text => s!"tuple index `{text}` is out of range"
  | unknownType name => s!"unknown type `{name}`"
  | unboundVariable name => s!"unbound variable `{name}`"
  | undeclaredConstructor name => s!"undeclared constructor `{name}`"
  | undeclaredDataType name => s!"undeclared data type `{name}`"
  | repeatedBinder name => s!"`{name}` is bound more than once in the same pattern"
  | repeatedFunction name => s!"`{name}` is defined more than once in the same letrec group"
  | repeatedDataType name => s!"data type `{name}` is declared more than once"
  | repeatedConstructor name => s!"constructor `{name}` is declared more than once"
  | notAPattern kind => s!"{kind.text} is not a pattern"
  | notAConstructorOf dataType => s!"data type `{dataType}` may only contain constructors"
  | untypedVariable name => s!"`{name}` has no type in this scope"
  | untypedConstructor name => s!"constructor `{name}` has no type in this scope"
  | constructorArity name declared given =>
    s!"constructor `{name}` takes {declared} arguments but the pattern gives {given}"
  | projectionOfNonTuple index type =>
    s!"cannot project `.{index}` out of `{type.text}`, which is not known to be a tuple here"
  | projectionOutOfRange index type => s!"tuple index {index} is out of range for `{type.text}`"
  | outOfPlace kind => s!"{kind.text} cannot appear outside its enclosing construct"
  | notAFunctionDefinition => "letrec groups may only contain function definitions"
  | notAnArm => "match expressions may only contain arms"
  | untypedIndex => "environment indices cannot be typed"
  | mismatch left right => s!"cannot unify `{left.text}` with `{right.text}`"
  | tupleLengths left right m n =>
    s!"cannot unify `{left.text}` with `{right.text}`: tuples have {m} and {n} components"
  | infiniteType v type => s!"infinite type: `{v.text}` occurs in `{type.text}`"
  | notAConstructor => "data types may only contain constructors"
  | untaggedConstructor name => s!"constructor `{name}` was never tagged"
  | untaggedPattern name => s!"constructor pattern `{name}` was never tagged"
  | unknownArity index => s!"projection `.{index}` has no known tuple arity"
  | notInEnvironment name => s!"`{name}` is not bound in the environment"
  | unresolvedVariable name => s!"`{name}` was never resolved to an environment index"
  | notLowered kind => s!"{kind.text} should have been lowered before code generation"

end Cause

end ClosureML
