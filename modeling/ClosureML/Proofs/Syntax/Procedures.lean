import ClosureML.Syntax.Parser

/-!
# The parser as procedures with a cursor

The functions of the parser hand the tokens that are left from one to the next, and what each of
them gives holds a proof that tokens were taken; on these proofs their recursion rests. Here the
same phrases are read without any such proof. The tokens stand in one list, a cursor counts those
that were taken, procedures call each other and themselves as they like, and what repeats is a loop
that turns until it is left. Nothing says that a call ever returns: `perform` follows calls down to
a depth, and work that goes deeper is cut off.

* `Work`: work at a cursor;
* `Loop`, `Loop.turn`: the loops, and what one turn of a loop does;
* `Procedure`, `Procedure.body`: the procedures, and what each of them does with calls of others;
* `perform`: a procedure with all the calls below it, down to a depth.
-/

namespace ClosureML

namespace Parser

/-! ## 1. Work at a cursor -/

/-- Work at a cursor: it is cut off, or ends with an error, or gives something and leaves the cursor
    somewhere. -/
abbrev Work := StateT Nat (ExceptT CompileError Option)

/-- What becomes of work that begins at a place. -/
def Work.at {α : Type} (m : Work α) (k : Nat) : Option (Except CompileError (α × Nat)) :=
  (m.run k).run

/-- Work that is cut off. -/
def Work.cutOff {α : Type} : Work α := fun _ => ExceptT.mk none

/-- A check that takes no token. -/
def Work.check {α : Type} (x : Except CompileError α) : Work α := liftM x

section Tokens

variable (stop : Position) (tokens : List Token)

/-- The token at the cursor. -/
def peek : Work (Option Token) := do return tokens[← get]?

/-- The cursor goes on by one. -/
def advance : Work Unit := modify (· + 1)

/-- Takes the token at the cursor if it is of a kind, and says whether it did. -/
def eat (kind : TokenKind) : Work Bool := do
  if (← peek tokens).any (·.kind = kind) then
    advance
    return true
  else
    return false

/-- Takes the token at the cursor if `select` takes its kind. -/
def eatSome {α : Type} (select : TokenKind → Option α) : Work (Option (α × Position)) := do
  match ← peek tokens with
  | none => return none
  | some t =>
    match select t.kind with
    | none => return none
    | some a =>
      advance
      return some (a, t.position)

/-- Takes the token at the cursor, whatever it is. -/
def take (expected : Expected) : Work Token := do
  match ← peek tokens with
  | none => throw ⟨.unexpectedEnd expected, stop⟩
  | some t =>
    advance
    return t

/-- Takes the token at the cursor, which is to be of a kind. -/
def takeKind (kind : TokenKind) (expected : Expected) : Work Token := do
  let t ← take stop tokens expected
  if t.kind = kind then return t else .check (unexpected t expected)

/-- Takes a keyword. -/
def takeKeyword (k : Keyword) : Work Token := takeKind stop tokens (.keyword k) (.keyword k)

/-- Takes a name that begins with a small letter. -/
def takeIdentifier : Work Token := takeKind stop tokens .identifier .identifier

/-- Takes a name that begins with a capital. -/
def takeCapitalised : Work Token := takeKind stop tokens .constructorIdentifier .capitalisedName

end Tokens

/-! ## 2. Loops and procedures -/

/-- The loops, with what each of them has gathered when it is left. -/
inductive Loop : Type → Type where
  | types : Loop (List TypeExpr)
  | patterns : Loop (List Node)
  | constructors : Loop (List Node)
  | statements : Loop (List Node)
  | functions : Loop (List Node)
  | arms : Loop (List Node)
  | expressions : Loop (List Node)
  | terms : Loop Node
  | factors : Loop Node
  | arguments : Loop Node
  | projections : Loop Node

/-- The procedures, with what each of them gives. A loop is entered, and turned again, with what was
    gathered so far. -/
inductive Procedure : Type → Type 1 where
  | type : Procedure TypeExpr
  | typeAtom : Procedure TypeExpr
  | ascription : Procedure (Option TypeExpr)
  | lambdaAscription : Procedure (Option TypeExpr)
  | pattern : Procedure Node
  | constructor : Procedure Node
  | parameter : Procedure (String × Option TypeExpr)
  | expression : Procedure Node
  | statement : Procedure Node
  | letIn : Procedure Node
  | letRec : Procedure Node
  | function : Procedure Node
  | lambda : Procedure Node
  | dataType : Procedure Node
  | conditional : Procedure Node
  | matchWith : Procedure Node
  | arm : Procedure Node
  | relation : Procedure Node
  | sum : Procedure Node
  | product : Procedure Node
  | negation : Procedure Node
  | application : Procedure Node
  | selection : Procedure Node
  | atom : Procedure Node
  | loop {α : Type} (l : Loop α) (gathered : α) : Procedure α
  | program : Procedure Node

/-- How a turn of a loop ends: the loop turns again, or is left. -/
inductive Turn (α : Type) where
  | again (gathered : α)
  | leave (gathered : α)

/-- What is done behind a turn. -/
def Turn.goOn {α : Type} (again : α → Work α) : Turn α → Work α
  | .again gathered => again gathered
  | .leave gathered => return gathered

section Bodies

variable (stop : Position) (tokens : List Token)

/-- A turn of a loop over phrases with a sign between them. -/
def nextItem {α : Type} (sign : TokenKind) (item : Work α) (items : List α) :
    Work (Turn (List α)) := do
  if ← eat tokens sign then return .again (items ++ [← item]) else return .leave items

/-- A turn of a loop over operands with operators between them. -/
def nextOperand (select : TokenKind → Option BinaryOperator) (operand : Work Node) (lhs : Node) :
    Work (Turn Node) := do
  match ← eatSome tokens select with
  | none => return .leave lhs
  | some (operator, p) => return .again (.binary (.at p) operator lhs (← operand))

/-- The phrases in parentheses, of which the first was read, and the closing parenthesis. -/
def closeList {α : Type} (loop : List α → Work (List α)) (first : α) : Work (List α) := do
  let all ← loop [first]
  let _ ← takeKind stop tokens .closeParen
    (if all.length = 1 then .closeParen else .closeParenOrComma)
  return all

variable (call : {α : Type} → Procedure α → Work α)

/-- **What one turn of a loop does.** -/
@[simp] def Loop.turn : {α : Type} → Loop α → α → Work (Turn α)
  | _, .types => nextItem tokens .comma (call .type)
  | _, .patterns => nextItem tokens .comma (call .pattern)
  | _, .constructors => nextItem tokens .pipe (call .constructor)
  | _, .statements => nextItem tokens .semicolon (call .statement)
  | _, .functions => nextItem tokens (.keyword .and) (call .function)
  | _, .expressions => nextItem tokens .comma (call .expression)
  | _, .terms => nextOperand tokens TokenKind.termOperator? (call .product)
  | _, .factors => nextOperand tokens TokenKind.factorOperator? (call .negation)
  | _, .arguments => fun function => do
    if (← peek tokens).any (·.kind.startsAtom) then
      return .again (.application (.at function.position) function (← call .selection))
    else
      return .leave function
  | _, .projections => fun target => do
    match ← eatSome tokens (fun k => if k = .dot then some () else none) with
    | none => return .leave target
    | some ((), dot) =>
      let t ← takeKind stop tokens .integerLiteral .tupleIndex
      let index ← .check (tupleIndex t)
      return .again (.projection (.at dot) index none target)
  | _, .arms => fun arms => do
    let arm ← call .arm
    if ← eat tokens .semicolon then
      if ← eat tokens .closeBrace then return .leave (arms ++ [arm])
      else return .again (arms ++ [arm])
    else
      let _ ← takeKind stop tokens .closeBrace .semicolonOrCloseBrace
      return .leave (arms ++ [arm])

/-- **What a procedure does**, with calls of other procedures. -/
@[simp] def Procedure.body : {α : Type} → Procedure α → Work α
  | _, .type => do
    let parameter ← call .typeAtom
    if ← eat tokens .arrow then return .function parameter (← call .type) else return parameter
  | _, .typeAtom => do
    let t ← take stop tokens .type
    match t.kind with
    | .identifier =>
      match BaseType.ofText? t.text with
      | some b => return .base b
      | none => throw ⟨.unknownType t.text, t.position⟩
    | .constructorIdentifier => return .named t.text
    | .openParen =>
      if ← eat tokens .closeParen then return .base .unit
      else
        match ← closeList stop tokens (fun ts => call (.loop .types ts)) (← call .type) with
        | [t] => return t
        | ts => return .tuple ts
    | _ => .check (unexpected t .type)
  | _, .ascription => do
    if ← eat tokens .colon then return some (← call .type) else return none
  | _, .lambdaAscription => do
    if ← eat tokens .colon then return some (← call .typeAtom) else return none
  | _, .pattern => do
    let t ← take stop tokens .pattern
    let m := Mark.at t.position
    match t.kind with
    | .identifier => return .patternBinder m t.text
    | .integerLiteral => return .patternLiteral m (← .check (integerLiteral t false))
    | .minus =>
      let digits ← takeKind stop tokens .integerLiteral .integer
      return .patternLiteral m (← .check (integerLiteral digits true))
    | .booleanLiteral => return .patternLiteral m (.boolean (t.text = "true"))
    | .constructorIdentifier =>
      if ← eat tokens .openParen then
        let arguments ← call (.loop .patterns [← call .pattern])
        let _ ← takeKind stop tokens .closeParen .closeParenOrComma
        return .patternConstructor m t.text arguments none
      else
        return .patternConstructor m t.text [] none
    | .openParen =>
      if ← eat tokens .closeParen then return .patternLiteral m .unit
      else
        match ← closeList stop tokens (fun ps => call (.loop .patterns ps)) (← call .pattern) with
        | [p] => return p
        | ps => return .patternTuple m ps
    | _ => .check (unexpected t .pattern)
  | _, .constructor => do
    let t ← takeCapitalised stop tokens
    let m := Mark.at t.position
    if ← eat tokens .openParen then
      let parameters ← call (.loop .types [← call .type])
      let _ ← takeKind stop tokens .closeParen .closeParenOrComma
      return .dataConstructor m t.text parameters none
    else
      return .dataConstructor m t.text [] none
  | _, .parameter => do
    if ← eat tokens .openParen then
      let x ← takeIdentifier stop tokens
      let _ ← takeKind stop tokens .colon .colon
      let t ← call .type
      let _ ← takeKind stop tokens .closeParen .closeParen
      return (x.text, some t)
    else
      return ((← takeIdentifier stop tokens).text, none)
  | _, .expression => do
    let first ← call .statement
    match ← call (.loop .statements [first]) with
    | [n] => return n
    | ns => return .sequence (.at first.position) ns
  | _, .statement => do
    match (← peek tokens).map Token.kind with
    | some (.keyword .letIn) => call .letIn
    | some (.keyword .letRec) => call .letRec
    | some (.keyword .data) => call .dataType
    | some (.keyword .ifThen) => call .conditional
    | some (.keyword .matchWith) => call .matchWith
    | some .backslash => call .lambda
    | _ => call .relation
  | _, .letIn => do
    let start ← takeKeyword stop tokens .letIn
    let x ← takeIdentifier stop tokens
    let ascription ← call .ascription
    let _ ← takeKind stop tokens .equals .equals
    let value ← call .expression
    let _ ← takeKeyword stop tokens .inBody
    let body ← call .expression
    return .letIn (.at start.position) x.text ascription value body
  | _, .letRec => do
    let start ← takeKeyword stop tokens .letRec
    let functions ← call (.loop .functions [← call .function])
    let _ ← takeKeyword stop tokens .inBody
    let body ← call .expression
    return .letRec (.at start.position) functions body
  | _, .function => do
    let f ← takeIdentifier stop tokens
    let (x, parameterAscription) ← call .parameter
    let resultAscription ← call .ascription
    let _ ← takeKind stop tokens .equals .equals
    let body ← call .expression
    return .letRecArm (.at f.position) f.text x parameterAscription resultAscription body
  | _, .lambda => do
    let start ← takeKind stop tokens .backslash .backslash
    let x ← takeIdentifier stop tokens
    let ascription ← call .lambdaAscription
    let _ ← takeKind stop tokens .arrow .arrow
    let body ← call .expression
    return .lambda (.at start.position) x.text ascription body
  | _, .dataType => do
    let start ← takeKeyword stop tokens .data
    let d ← takeCapitalised stop tokens
    let _ ← takeKind stop tokens .equals .equals
    let constructors ← call (.loop .constructors [← call .constructor])
    let _ ← takeKeyword stop tokens .inBody
    let body ← call .expression
    return .dataType (.at start.position) d.text constructors body
  | _, .conditional => do
    let start ← takeKeyword stop tokens .ifThen
    let condition ← call .expression
    let _ ← takeKeyword stop tokens .thenBranch
    let thenBranch ← call .expression
    let _ ← takeKeyword stop tokens .elseBranch
    let elseBranch ← call .statement
    return .conditional (.at start.position) condition thenBranch elseBranch
  | _, .matchWith => do
    let start ← takeKeyword stop tokens .matchWith
    let scrutinee ← call .expression
    let _ ← takeKind stop tokens .openBrace .openBrace
    let arms ← call (.loop .arms [])
    return .matchWith (.at start.position) scrutinee arms
  | _, .arm => do
    let p ← call .pattern
    let _ ← takeKind stop tokens .arrow .arrow
    let body ← call .statement
    return .matchArm (.at p.position) p body
  | _, .relation => do
    let lhs ← call .sum
    match ← eatSome tokens TokenKind.comparison? with
    | none => return lhs
    | some (operator, p) => return .binary (.at p) operator lhs (← call .sum)
  | _, .sum => do call (.loop .terms (← call .product))
  | _, .product => do call (.loop .factors (← call .negation))
  | _, .negation => do
    match ← eatSome tokens (fun k => if k = .minus then some UnaryOperator.negate else none) with
    | none => call .application
    | some (operator, p) => return .unary (.at p) operator (← call .negation)
  | _, .application => do call (.loop .arguments (← call .selection))
  | _, .selection => do call (.loop .projections (← call .atom))
  | _, .atom => do
    let t ← take stop tokens .expression
    let m := Mark.at t.position
    match t.kind with
    | .integerLiteral => return .literal m (← .check (integerLiteral t false))
    | .booleanLiteral => return .literal m (.boolean (t.text = "true"))
    | .identifier =>
      match Builtin.ofText? t.text with
      | some b => return .builtin m b
      | none => return .reference m t.text
    | .constructorIdentifier => return .reference m t.text
    | .openParen =>
      if ← eat tokens .closeParen then return .literal m .unit
      else
        let first ← call .expression
        match ← closeList stop tokens (fun es => call (.loop .expressions es)) first with
        | [e] => return e
        | es => return .tuple m es
    | _ => .check (unexpected t .expression)
  | _, .loop l gathered => do
    (← l.turn stop tokens call gathered).goOn fun gathered => call (.loop l gathered)
  | _, .program => do
    let e ← call .expression
    match ← peek tokens with
    | none => return .ofProgram e
    | some t => .check (unexpected t .endOfInput)

end Bodies

/-! ## 3. Calls down to a depth -/

/-- **A procedure with all the calls below it**, down to a depth. -/
def perform (stop : Position) (tokens : List Token) : Nat → {α : Type} → Procedure α → Work α
  | 0, _, _ => .cutOff
  | depth + 1, _, p => p.body stop tokens (perform stop tokens depth)

end Parser

end ClosureML
