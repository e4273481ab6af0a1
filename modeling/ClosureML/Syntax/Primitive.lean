/-!
# Literals, builtins, operators and base types

The fixed vocabulary of the language. Each finite type has its written form (`text`), a list of
all its members (`all`), and the member with a given written form (`ofText?`).

Main statements: `ofText?_text` for each of them -- the written form determines the member.
-/

namespace ClosureML

/-! ## 1. Literals -/

/-- A constant of the source language. -/
inductive Literal where
  | integer (value : Int)
  | boolean (value : Bool)
  | unit
  deriving DecidableEq, Repr, Inhabited

namespace Literal

/-- The written form. -/
def text : Literal → String
  | integer value => toString value
  | boolean true => "true"
  | boolean false => "false"
  | unit => "()"

/-- The machine word that stands for a literal at run time. -/
def word : Literal → Int
  | integer value => value
  | boolean true => 1
  | boolean false => 0
  | unit => 0

end Literal

/-! ## 2. Builtins -/

/-- The functions that every program can call. -/
inductive Builtin where
  | println
  | print
  | panic
  deriving DecidableEq, Repr

namespace Builtin

/-- The written form. -/
def text : Builtin → String
  | println => "println"
  | print => "print"
  | panic => "panic"

/-- Every builtin. -/
def all : List Builtin := [println, print, panic]

/-- The builtin with the given name. -/
def ofText? (name : String) : Option Builtin := all.find? fun b => b.text = name

theorem ofText?_text (b : Builtin) : ofText? b.text = some b := by cases b <;> decide

end Builtin

/-! ## 3. Operators -/

/-- The operators between two operands. -/
inductive BinaryOperator where
  | multiply
  | divide
  | modulus
  | add
  | subtract
  | greaterThan
  | lessThan
  | greaterOrEqual
  | lessOrEqual
  | equals
  | notEquals
  deriving DecidableEq, Repr

/-- What an operator asks of its operands' types and gives as its result's: `arithmetic` takes
    integers to an integer, `relational` takes integers to a truth value, `equality` takes any two
    of one type to a truth value. -/
inductive OperatorClass where
  | arithmetic
  | relational
  | equality
  deriving DecidableEq, Repr

/-- The name of a class. -/
def OperatorClass.text : OperatorClass → String
  | arithmetic => "Arithmetic"
  | relational => "Relational"
  | equality => "Equality"

namespace BinaryOperator

/-- The written form. -/
def text : BinaryOperator → String
  | multiply => "*"
  | divide => "/"
  | modulus => "%"
  | add => "+"
  | subtract => "-"
  | greaterThan => ">"
  | lessThan => "<"
  | greaterOrEqual => ">="
  | lessOrEqual => "<="
  | equals => "=="
  | notEquals => "!="

/-- The name of the machine operation in a listing. -/
def mnemonic : BinaryOperator → String
  | multiply => "mul"
  | divide => "div"
  | modulus => "mod"
  | add => "add"
  | subtract => "sub"
  | greaterThan => "gt"
  | lessThan => "lt"
  | greaterOrEqual => "ge"
  | lessOrEqual => "le"
  | equals => "eq"
  | notEquals => "ne"

/-- The class an operator belongs to. -/
def operatorClass : BinaryOperator → OperatorClass
  | multiply | divide | modulus | add | subtract => .arithmetic
  | greaterThan | lessThan | greaterOrEqual | lessOrEqual => .relational
  | equals | notEquals => .equality

/-- Every binary operator. -/
def all : List BinaryOperator :=
  [multiply, divide, modulus, add, subtract, greaterThan, lessThan, greaterOrEqual, lessOrEqual,
    equals, notEquals]

/-- The operator with the given written form. -/
def ofText? (symbol : String) : Option BinaryOperator := all.find? fun o => o.text = symbol

theorem ofText?_text (o : BinaryOperator) : ofText? o.text = some o := by cases o <;> decide

end BinaryOperator

/-- The operators before one operand. -/
inductive UnaryOperator where
  | negate
  deriving DecidableEq, Repr

namespace UnaryOperator

/-- The written form. -/
def text : UnaryOperator → String
  | negate => "-"

/-- The name of the machine operation in a listing. -/
def mnemonic : UnaryOperator → String
  | negate => "neg"

/-- Every unary operator. -/
def all : List UnaryOperator := [negate]

/-- The operator with the given written form. -/
def ofText? (symbol : String) : Option UnaryOperator := all.find? fun o => o.text = symbol

theorem ofText?_text (o : UnaryOperator) : ofText? o.text = some o := by cases o; decide

end UnaryOperator

/-! ## 4. Base types -/

/-- The types without parts. -/
inductive BaseType where
  | int
  | bool
  | unit
  deriving DecidableEq, Repr, Inhabited

namespace BaseType

/-- The written form. -/
def text : BaseType → String
  | int => "int"
  | bool => "bool"
  | unit => "unit"

/-- Every base type. -/
def all : List BaseType := [int, bool, unit]

/-- The base type with the given name. -/
def ofText? (name : String) : Option BaseType := all.find? fun b => b.text = name

theorem ofText?_text (b : BaseType) : ofText? b.text = some b := by cases b <;> decide

end BaseType

/-- The base type of a literal. -/
def Literal.baseType : Literal → BaseType
  | .integer _ => .int
  | .boolean _ => .bool
  | .unit => .unit

end ClosureML
