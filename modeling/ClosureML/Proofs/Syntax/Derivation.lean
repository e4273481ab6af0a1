import ClosureML.Proofs.Syntax.Spelling
import Mathlib.Algebra.GroupWithZero.Nat

/-!
# The grammar of programs

The rules, each of which replaces a form by symbols. They leave open to which statement a semicolon
belongs. The parser does not look ahead: a `let`, `letrec`, `data` or lambda takes in every
statement behind it. In a sequence this changes the tree only. In a `match` it does more, since
there a semicolon stands between arms too: an arm whose body is such a statement must be the last
one, with no semicolon behind it.

* `Rule`, `Derives`, `Generates`: the grammar, with a parameter for the form that the body of an arm
  has before a semicolon: any `statement` in the grammar that is documented, a `closed` one in what
  the parser accepts.

Main statements: `Generates.weaken` and `SpellsExpression.generates`.
-/

namespace ClosureML

open ClosureML.Parser (integerLiteral tupleIndex decimal)

/-! ## 1. The grammar -/

/-- The forms of the grammar. A `closed` statement is one that a semicolon behind it ends. -/
inductive Form where
  | expression
  | statement
  | closed
  | function
  | functions
  | parameter
  | constructor
  | constructors
  | earlierArm
  | arm
  | arms
  | relation
  | sum
  | product
  | negation
  | application
  | selection
  | atom
  | expressions
  | pattern
  | patterns
  | ascription
  | atomicAscription
  | type
  | typeAtom
  | types

/-- A symbol of a rule: a token with a property, or a form. -/
inductive Symbol where
  | token (p : Token → Prop)
  | form (f : Form)

namespace Symbol

/-- A token of a kind. -/
def kind (k : TokenKind) : Symbol := .token fun t => t.kind = k

/-- A keyword. -/
def keyword (k : Keyword) : Symbol := .kind (.keyword k)

/-- A non-negative integer of 64 bits. -/
def integer : Symbol :=
  .token fun t => t.kind = .integerLiteral ∧ decimal t.text.toList < 2 ^ 63

/-- The digits of an integer of 64 bits behind a minus sign. -/
def negated : Symbol :=
  .token fun t => t.kind = .integerLiteral ∧ decimal t.text.toList ≤ 2 ^ 63

/-- The number of a component. -/
def index : Symbol :=
  .token fun t => t.kind = .integerLiteral ∧ decimal t.text.toList < 2 ^ 64

/-- The name of a type that is not declared. -/
def baseType : Symbol :=
  .token fun t => t.kind = .identifier ∧ (BaseType.ofText? t.text).isSome = true

/-- A comparison. -/
def comparison : Symbol := .token fun t => t.kind.comparison?.isSome = true

/-- An operator between terms. -/
def termOperator : Symbol := .token fun t => t.kind.termOperator?.isSome = true

/-- An operator between factors. -/
def factorOperator : Symbol := .token fun t => t.kind.factorOperator?.isSome = true

end Symbol

open ClosureML.Symbol in
/-- The rules of the grammar. The body of an arm with a semicolon behind it has the form
    `before`. -/
inductive Rule (before : Form) : Form → List Symbol → Prop where
  | expressionLast : Rule before .expression [form .statement]
  | expressionMore : Rule before .expression [form .statement, kind .semicolon, form .expression]
  | letIn : Rule before .statement [keyword .letIn, kind .identifier, form .ascription,
      kind .equals, form .expression, keyword .inBody, form .expression]
  | letRec : Rule before .statement
      [keyword .letRec, form .functions, keyword .inBody, form .expression]
  | lambda : Rule before .statement
      [kind .backslash, kind .identifier, form .atomicAscription, kind .arrow, form .expression]
  | dataType : Rule before .statement [keyword .data, kind .constructorIdentifier, kind .equals,
      form .constructors, keyword .inBody, form .expression]
  | conditional : Rule before .statement [keyword .ifThen, form .expression, keyword .thenBranch,
      form .expression, keyword .elseBranch, form .statement]
  | matchWith : Rule before .statement
      [keyword .matchWith, form .expression, kind .openBrace, form .arms, kind .closeBrace]
  | statementRelation : Rule before .statement [form .relation]
  | closedConditional : Rule before .closed [keyword .ifThen, form .expression,
      keyword .thenBranch, form .expression, keyword .elseBranch, form .closed]
  | closedMatchWith : Rule before .closed
      [keyword .matchWith, form .expression, kind .openBrace, form .arms, kind .closeBrace]
  | closedRelation : Rule before .closed [form .relation]
  | function : Rule before .function
      [kind .identifier, form .parameter, form .ascription, kind .equals, form .expression]
  | functionsLast : Rule before .functions [form .function]
  | functionsMore : Rule before .functions [form .function, keyword .and, form .functions]
  | parameterName : Rule before .parameter [kind .identifier]
  | parameterTyped : Rule before .parameter
      [kind .openParen, kind .identifier, kind .colon, form .type, kind .closeParen]
  | constant : Rule before .constructor [kind .constructorIdentifier]
  | constructor : Rule before .constructor
      [kind .constructorIdentifier, kind .openParen, form .types, kind .closeParen]
  | constructorsLast : Rule before .constructors [form .constructor]
  | constructorsMore : Rule before .constructors
      [form .constructor, kind .pipe, form .constructors]
  | earlierArm : Rule before .earlierArm [form .pattern, kind .arrow, form before]
  | arm : Rule before .arm [form .pattern, kind .arrow, form .statement]
  | armsLast : Rule before .arms [form .arm]
  | armsTrailing : Rule before .arms [form .earlierArm, kind .semicolon]
  | armsMore : Rule before .arms [form .earlierArm, kind .semicolon, form .arms]
  | relationSum : Rule before .relation [form .sum]
  | comparison : Rule before .relation [form .sum, Symbol.comparison, form .sum]
  | sumProduct : Rule before .sum [form .product]
  | term : Rule before .sum [form .sum, termOperator, form .product]
  | productNegation : Rule before .product [form .negation]
  | factor : Rule before .product [form .product, factorOperator, form .negation]
  | negationApplication : Rule before .negation [form .application]
  | negate : Rule before .negation [kind .minus, form .negation]
  | applicationSelection : Rule before .application [form .selection]
  | argument : Rule before .application [form .application, form .selection]
  | selectionAtom : Rule before .selection [form .atom]
  | projection : Rule before .selection [form .selection, kind .dot, index]
  | integer : Rule before .atom [Symbol.integer]
  | boolean : Rule before .atom [kind .booleanLiteral]
  | unit : Rule before .atom [kind .openParen, kind .closeParen]
  | name : Rule before .atom [kind .identifier]
  | capitalisedName : Rule before .atom [kind .constructorIdentifier]
  | parentheses : Rule before .atom [kind .openParen, form .expressions, kind .closeParen]
  | expressionsLast : Rule before .expressions [form .expression]
  | expressionsMore : Rule before .expressions [form .expression, kind .comma, form .expressions]
  | patternBinder : Rule before .pattern [kind .identifier]
  | patternInteger : Rule before .pattern [Symbol.integer]
  | patternNegative : Rule before .pattern [kind .minus, negated]
  | patternBoolean : Rule before .pattern [kind .booleanLiteral]
  | patternUnit : Rule before .pattern [kind .openParen, kind .closeParen]
  | patternConstant : Rule before .pattern [kind .constructorIdentifier]
  | patternConstructor : Rule before .pattern
      [kind .constructorIdentifier, kind .openParen, form .patterns, kind .closeParen]
  | patternParentheses : Rule before .pattern [kind .openParen, form .patterns, kind .closeParen]
  | patternsLast : Rule before .patterns [form .pattern]
  | patternsMore : Rule before .patterns [form .pattern, kind .comma, form .patterns]
  | noAscription : Rule before .ascription []
  | ascription : Rule before .ascription [kind .colon, form .type]
  | noAtomicAscription : Rule before .atomicAscription []
  | atomicAscription : Rule before .atomicAscription [kind .colon, form .typeAtom]
  | typeAtom : Rule before .type [form .typeAtom]
  | functionType : Rule before .type [form .typeAtom, kind .arrow, form .type]
  | baseType : Rule before .typeAtom [Symbol.baseType]
  | unitType : Rule before .typeAtom [kind .openParen, kind .closeParen]
  | namedType : Rule before .typeAtom [kind .constructorIdentifier]
  | typeParentheses : Rule before .typeAtom [kind .openParen, form .types, kind .closeParen]
  | typesLast : Rule before .types [form .type]
  | typesMore : Rule before .types [form .type, kind .comma, form .types]

/-- The tokens are derived from the symbols. -/
inductive Derives (before : Form) : List Symbol → List Token → Prop where
  | nil : Derives before [] []
  | token {p : Token → Prop} {t : Token} {ss : List Symbol} {ts : List Token} (ht : p t)
      (h : Derives before ss ts) : Derives before (.token p :: ss) (t :: ts)
  | form {f : Form} {rule ss : List Symbol} {ts us : List Token} (hf : Rule before f rule)
      (hts : Derives before rule ts) (h : Derives before ss us) :
      Derives before (.form f :: ss) (ts ++ us)

/-- The tokens are derived from the form. -/
def Generates (before f : Form) (ts : List Token) : Prop := Derives before [.form f] ts

section

variable {before f : Form} {ts us : List Token} {ss : List Symbol}

theorem Generates.mk {rule : List Symbol} (hf : Rule before f rule) (h : Derives before rule ts) :
    Generates before f ts := List.append_nil ts ▸ .form hf h .nil

theorem Generates.rule (h : Generates before f ts) :
    ∃ rule, Rule before f rule ∧ Derives before rule ts := by
  cases h with
  | form hf hts h =>
    cases h
    exact ⟨_, hf, (List.append_nil _).symm ▸ hts⟩

/-- A form is derived, and then the symbols behind it. -/
theorem Generates.append (h : Generates before f ts) (hs : Derives before ss us) :
    Derives before (.form f :: ss) (ts ++ us) := by
  obtain ⟨rule, hf, hts⟩ := h.rule
  exact .form hf hts hs

/-- The last token is derived. -/
theorem Derives.last {p : Token → Prop} {t : Token} (h : p t) : Derives before [.token p] [t] :=
  .token h .nil

end

/-! ## 2. What the parser accepts is documented -/

/-- A closed statement is a statement. -/
def Form.weaken : Form → Form
  | .closed => .statement
  | f => f

/-- A symbol with statements in the place of closed ones. -/
def Symbol.weaken : Symbol → Symbol
  | .form f => .form f.weaken
  | s => s

theorem Rule.weaken {f : Form} {rule : List Symbol} (h : Rule .closed f rule) :
    Rule .statement f.weaken (rule.map Symbol.weaken) := by
  cases h <;> constructor

theorem Derives.weaken {ss : List Symbol} {ts : List Token} (h : Derives .closed ss ts) :
    Derives .statement (ss.map Symbol.weaken) ts := by
  induction h with
  | nil => exact .nil
  | token ht _ ih => exact .token ht ih
  | form hf _ _ ihts ih => exact .form hf.weaken ihts ih

theorem Generates.weaken {f : Form} {ts : List Token} (h : Generates .closed f ts) :
    Generates .statement f.weaken ts := Derives.weaken h

/-! ## 3. What is spelled is derived -/

theorem integerLiteral_ok_iff {t : Token} :
    (∃ v, integerLiteral t false = .ok v) ↔ decimal t.text.toList < 2 ^ 63 := by
  rw [integerLiteral, if_neg Bool.false_ne_true]
  split
  · next h => exact ⟨fun _ => h, fun _ => ⟨_, rfl⟩⟩
  · next h => exact ⟨nofun, fun hlt => absurd hlt h⟩

theorem negativeLiteral_ok_iff {t : Token} :
    (∃ v, integerLiteral t true = .ok v) ↔ decimal t.text.toList ≤ 2 ^ 63 := by
  rw [integerLiteral, if_pos rfl]
  split
  · next h => exact ⟨fun _ => h, fun _ => ⟨_, rfl⟩⟩
  · next h => exact ⟨nofun, fun hle => absurd hle h⟩

theorem tupleIndex_ok_iff {t : Token} :
    (∃ i, tupleIndex t = .ok i) ↔ decimal t.text.toList < 2 ^ 64 := by
  rw [tupleIndex]
  split
  · next h => exact ⟨fun _ => h, fun _ => ⟨_, rfl⟩⟩
  · next h => exact ⟨nofun, fun hlt => absurd hlt h⟩

theorem SpellsAtom.closed {ts : List Token} {n : Node} (h : SpellsAtom ts n) : SpellsClosed ts n :=
  .relation (.sum (.product (.negation (.application (.selection (.atom h))))))

theorem SpellsAtom.expression {ts : List Token} {n : Node} (h : SpellsAtom ts n) :
    SpellsExpression ts n := .statement (.one (.closed h.closed))

mutual

theorem SpellsType.generates : ∀ {ts : List Token} {t : TypeExpr}, SpellsType ts t →
    Generates .closed .type ts
  | _, _, .atom h => .mk .typeAtom h.generates
  | _, _, .function ha harrow hb =>
    .mk .functionType (ha.generates.append (.token harrow hb.generates))

theorem SpellsTypeAtom.generates : ∀ {ts : List Token} {t : TypeExpr}, SpellsTypeAtom ts t →
    Generates .closed .typeAtom ts
  | _, _, .base hk hb => .mk .baseType (.last ⟨hk, hb ▸ rfl⟩)
  | _, _, .named hk => .mk .namedType (.last hk)
  | _, _, .unit hl hr => .mk .unitType (.token hl (.last hr))
  | _, _, .parentheses hl h hr => .mk .typeParentheses (.token hl (h.generates.append (.last hr)))
  | _, _, .tuple hl h hr => .mk .typeParentheses (.token hl (h.generates.append (.last hr)))

theorem SpellsTypes.generates : ∀ {ts : List Token} {as : List TypeExpr}, SpellsTypes ts as →
    Generates .closed .types ts
  | _, _, .one h => .mk .typesLast h.generates
  | _, _, .more h hcomma hmore =>
    .mk .typesMore (h.generates.append (.token hcomma hmore.generates))

end

theorem SpellsAscription.generates {ts : List Token} {a : Option TypeExpr}
    (h : SpellsAscription SpellsType ts a) : Generates .closed .ascription ts := by
  cases h with
  | absent => exact .mk .noAscription .nil
  | present hcolon h => exact .mk .ascription (.token hcolon h.generates)

theorem SpellsAscription.generates_atomic {ts : List Token} {a : Option TypeExpr}
    (h : SpellsAscription SpellsTypeAtom ts a) : Generates .closed .atomicAscription ts := by
  cases h with
  | absent => exact .mk .noAtomicAscription .nil
  | present hcolon h => exact .mk .atomicAscription (.token hcolon h.generates)

mutual

theorem SpellsPattern.generates : ∀ {ts : List Token} {p : Node}, SpellsPattern ts p →
    Generates .closed .pattern ts
  | _, _, .binder hk => .mk .patternBinder (.last hk)
  | _, _, .integer hk hv => .mk .patternInteger (.last ⟨hk, integerLiteral_ok_iff.1 ⟨_, hv⟩⟩)
  | _, _, .negative hminus hk hv =>
    .mk .patternNegative (.token hminus (.last ⟨hk, negativeLiteral_ok_iff.1 ⟨_, hv⟩⟩))
  | _, _, .boolean hk => .mk .patternBoolean (.last hk)
  | _, _, .constant hk => .mk .patternConstant (.last hk)
  | _, _, .constructor hk hl h hr =>
    .mk .patternConstructor (.token hk (.token hl (h.generates.append (.last hr))))
  | _, _, .unit hl hr => .mk .patternUnit (.token hl (.last hr))
  | _, _, .parentheses hl h hr =>
    .mk .patternParentheses (.token hl (h.generates.append (.last hr)))
  | _, _, .tuple hl h hr => .mk .patternParentheses (.token hl (h.generates.append (.last hr)))

theorem SpellsPatterns.generates : ∀ {ts : List Token} {ps : List Node}, SpellsPatterns ts ps →
    Generates .closed .patterns ts
  | _, _, .one h => .mk .patternsLast h.generates
  | _, _, .more h hcomma hmore =>
    .mk .patternsMore (h.generates.append (.token hcomma hmore.generates))

end

theorem SpellsConstructor.generates {ts : List Token} {c : Node} (h : SpellsConstructor ts c) :
    Generates .closed .constructor ts := by
  cases h with
  | constant hk => exact .mk .constant (.last hk)
  | parameters hk hl h hr =>
    exact .mk .constructor (.token hk (.token hl (h.generates.append (.last hr))))

theorem SpellsConstructors.generates {ts : List Token} {cs : List Node}
    (h : SpellsConstructors ts cs) : Generates .closed .constructors ts := by
  induction h with
  | one h => exact .mk .constructorsLast h.generates
  | more h hbar _ ih => exact .mk .constructorsMore (h.generates.append (.token hbar ih))

theorem SpellsParameter.generates {ts : List Token} {x : String × Option TypeExpr}
    (h : SpellsParameter ts x) : Generates .closed .parameter ts := by
  cases h with
  | name hx => exact .mk .parameterName (.last hx)
  | typed hl hx hcolon h hr =>
    exact .mk .parameterTyped
      (.token hl (.token hx (.token hcolon (h.generates.append (.last hr)))))

mutual

theorem SpellsExpression.generates : ∀ {ts : List Token} {n : Node}, SpellsExpression ts n →
    Generates .closed .expression ts
  | _, _, .statement h => h.generates
  | _, _, .sequence h => h.generates

theorem SpellsStatements.generates : ∀ {ts : List Token} {ns : List Node}, SpellsStatements ts ns →
    Generates .closed .expression ts
  | _, _, .one h => .mk .expressionLast h.generates
  | _, _, .more h hsemicolon hmore =>
    .mk .expressionMore (h.generates.2.append (.token hsemicolon hmore.generates))

theorem SpellsStatement.generates : ∀ {ts : List Token} {n : Node}, SpellsStatement ts n →
    Generates .closed .statement ts
  | _, _, .letIn hstart hx ha hequals hvalue hinBody hbody =>
    .mk .letIn (.token hstart (.token hx (ha.generates.append (.token hequals
      (hvalue.generates.append (.token hinBody hbody.generates))))))
  | _, _, .letRec hstart hfs hinBody hbody =>
    .mk .letRec (.token hstart (hfs.generates.append (.token hinBody hbody.generates)))
  | _, _, .lambda hstart hx ha harrow hbody =>
    .mk .lambda (.token hstart (.token hx (ha.generates_atomic.append
      (.token harrow hbody.generates))))
  | _, _, .dataType hstart hd hequals hcs hinBody hbody =>
    .mk .dataType (.token hstart (.token hd (.token hequals (hcs.generates.append
      (.token hinBody hbody.generates)))))
  | _, _, .conditional hstart hc hthen ht helse he =>
    .mk .conditional (.token hstart (hc.generates.append (.token hthen
      (ht.generates.append (.token helse he.generates)))))
  | _, _, .closed h => h.generates.2

/-- A closed statement is derived as one, and as a statement. -/
theorem SpellsClosed.generates : ∀ {ts : List Token} {n : Node}, SpellsClosed ts n →
    Generates .closed .closed ts ∧ Generates .closed .statement ts
  | _, _, .conditional hstart hc hthen ht helse he =>
    have h {s : Form} (he : Generates .closed s _) : Derives .closed _ _ :=
      .token hstart (hc.generates.append (.token hthen (ht.generates.append (.token helse he))))
    ⟨.mk .closedConditional (h he.generates.1), .mk .conditional (h he.generates.2)⟩
  | _, _, .matchWith hstart he hl harms hr =>
    have h : Derives .closed _ _ :=
      .token hstart (he.generates.append (.token hl (harms.generates.append (.last hr))))
    ⟨.mk .closedMatchWith h, .mk .matchWith h⟩
  | _, _, .relation h =>
    ⟨.mk .closedRelation h.generates, .mk .statementRelation h.generates⟩

theorem SpellsFunction.generates : ∀ {ts : List Token} {f : Node}, SpellsFunction ts f →
    Generates .closed .function ts
  | _, _, .mk hf hx ha hequals hbody =>
    .mk .function (.token hf (hx.generates.append (ha.generates.append
      (.token hequals hbody.generates))))

theorem SpellsFunctions.generates : ∀ {ts : List Token} {fs : List Node}, SpellsFunctions ts fs →
    Generates .closed .functions ts
  | _, _, .one h => .mk .functionsLast h.generates
  | _, _, .more h hand hmore =>
    .mk .functionsMore (h.generates.append (.token hand hmore.generates))

theorem SpellsArms.generates : ∀ {ts : List Token} {arms : List Node}, SpellsArms ts arms →
    Generates .closed .arms ts
  | _, _, .one hp harrow hbody =>
    Generates.mk .armsLast (Generates.mk .arm (hp.generates.append (.token harrow hbody.generates)))
  | _, _, .trailing hp harrow hbody hsemicolon => by
    have harm := Generates.mk .earlierArm
      (hp.generates.append (.token harrow hbody.generates.1))
    have h := Generates.mk .armsTrailing (harm.append (.last hsemicolon))
    rwa [List.append_assoc] at h
  | _, _, .more hp harrow hbody hsemicolon hmore => by
    have harm := Generates.mk .earlierArm
      (hp.generates.append (.token harrow hbody.generates.1))
    have h := Generates.mk .armsMore (harm.append (.token hsemicolon hmore.generates))
    rwa [List.append_assoc] at h

theorem SpellsRelation.generates : ∀ {ts : List Token} {n : Node}, SpellsRelation ts n →
    Generates .closed .relation ts
  | _, _, .sum h => .mk .relationSum h.generates
  | _, _, .comparison hl ho hr =>
    .mk .comparison (hl.generates.append (.token (ho ▸ rfl) hr.generates))

theorem SpellsSum.generates : ∀ {ts : List Token} {n : Node}, SpellsSum ts n →
    Generates .closed .sum ts
  | _, _, .product h => .mk .sumProduct h.generates
  | _, _, .term hl ho hr => .mk .term (hl.generates.append (.token (ho ▸ rfl) hr.generates))

theorem SpellsProduct.generates : ∀ {ts : List Token} {n : Node}, SpellsProduct ts n →
    Generates .closed .product ts
  | _, _, .negation h => .mk .productNegation h.generates
  | _, _, .factor hl ho hr => .mk .factor (hl.generates.append (.token (ho ▸ rfl) hr.generates))

theorem SpellsNegation.generates : ∀ {ts : List Token} {n : Node}, SpellsNegation ts n →
    Generates .closed .negation ts
  | _, _, .application h => .mk .negationApplication h.generates
  | _, _, .negate hminus h => .mk .negate (.token hminus h.generates)

theorem SpellsApplication.generates : ∀ {ts : List Token} {n : Node}, SpellsApplication ts n →
    Generates .closed .application ts
  | _, _, .selection h => .mk .applicationSelection h.generates
  | _, _, .argument hf ha => .mk .argument (hf.generates.append ha.generates)

theorem SpellsSelection.generates : ∀ {ts : List Token} {n : Node}, SpellsSelection ts n →
    Generates .closed .selection ts
  | _, _, .atom h => .mk .selectionAtom h.generates
  | _, _, .projection h hdot hindex hi =>
    .mk .projection (h.generates.append (.token hdot
      (.last ⟨hindex, tupleIndex_ok_iff.1 ⟨_, hi⟩⟩)))

theorem SpellsAtom.generates : ∀ {ts : List Token} {n : Node}, SpellsAtom ts n →
    Generates .closed .atom ts
  | _, _, .integer hk hv => .mk .integer (.last ⟨hk, integerLiteral_ok_iff.1 ⟨_, hv⟩⟩)
  | _, _, .boolean hk => .mk .boolean (.last hk)
  | _, _, .builtin hk _ => .mk .name (.last hk)
  | _, _, .reference hk _ => .mk .name (.last hk)
  | _, _, .constructor hk => .mk .capitalisedName (.last hk)
  | _, _, .unit hl hr => .mk .unit (.token hl (.last hr))
  | _, _, .parentheses hl h hr => .mk .parentheses (.token hl (h.generates.append (.last hr)))
  | _, _, .tuple hl h hr => .mk .parentheses (.token hl (h.generates.append (.last hr)))

theorem SpellsExpressions.generates : ∀ {ts : List Token} {ns : List Node},
    SpellsExpressions ts ns → Generates .closed .expressions ts
  | _, _, .one h => .mk .expressionsLast h.generates
  | _, _, .more h hcomma hmore =>
    .mk .expressionsMore (h.generates.append (.token hcomma hmore.generates))

end

end ClosureML
