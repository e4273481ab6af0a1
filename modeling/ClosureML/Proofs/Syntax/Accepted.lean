import ClosureML.Proofs.Syntax.Derivation
import ClosureML.Proofs.Syntax.ParserComplete

/-!
# What the parser accepts

The parser accepts what the grammar derives, with one restriction: the body of an arm with a
semicolon behind it is a statement that the semicolon ends.

* `Form.Spelled`: the tokens spell some phrase of a form.

Main statement: `Parser.program_succeeds_iff`.
-/

namespace ClosureML

/-! ## 1. Semicolons

Where a sequence begins with a statement that is not closed, the statements behind it belong to the
body of that statement. -/

theorem SpellsStatements.expression {ts : List Token} {ns : List Node}
    (h : SpellsStatements ts ns) : ∃ n, SpellsExpression ts n := by
  cases ns with
  | nil => cases h
  | cons n more =>
    cases more with
    | nil => exact ⟨n, .statement h⟩
    | cons n' more => exact ⟨.sequence (.at default) (n :: n' :: more), .sequence h⟩

section

variable {us : List Token} {semicolon : Token} {more : List Node}

mutual

/-- A statement is closed, or takes in the statements behind it. -/
theorem SpellsStatement.extends (hsemicolon : semicolon.kind = .semicolon)
    (hmore : SpellsStatements us more) : ∀ {ts : List Token} {n : Node}, SpellsStatement ts n →
      (∃ c, SpellsClosed ts c) ∨ ∃ n', SpellsStatement (ts ++ semicolon :: us) n'
  | _, _, .letIn (q := q) hstart hx ha hequals hvalue hinBody hbody => by
    obtain ⟨body', hbody'⟩ := SpellsExpression.extends hsemicolon hmore hbody
    have h := SpellsStatement.letIn (q := q) hstart hx ha hequals hvalue hinBody hbody'
    exact .inr ⟨_, by simpa using h⟩
  | _, _, .letRec (q := q) hstart hfs hinBody hbody => by
    obtain ⟨body', hbody'⟩ := SpellsExpression.extends hsemicolon hmore hbody
    have h := SpellsStatement.letRec (q := q) hstart hfs hinBody hbody'
    exact .inr ⟨_, by simpa using h⟩
  | _, _, .lambda (q := q) hstart hx ha harrow hbody => by
    obtain ⟨body', hbody'⟩ := SpellsExpression.extends hsemicolon hmore hbody
    have h := SpellsStatement.lambda (q := q) hstart hx ha harrow hbody'
    exact .inr ⟨_, by simpa using h⟩
  | _, _, .dataType (q := q) hstart hd hequals hcs hinBody hbody => by
    obtain ⟨body', hbody'⟩ := SpellsExpression.extends hsemicolon hmore hbody
    have h := SpellsStatement.dataType (q := q) hstart hd hequals hcs hinBody hbody'
    exact .inr ⟨_, by simpa using h⟩
  | _, _, .conditional (q := q) hstart hc hthen ht helse he => by
    rcases SpellsStatement.extends hsemicolon hmore he with ⟨e', he'⟩ | ⟨e', he'⟩
    · exact .inl ⟨_, .conditional (q := q) hstart hc hthen ht helse he'⟩
    · have h := SpellsStatement.conditional (q := q) hstart hc hthen ht helse he'
      exact .inr ⟨_, by simpa using h⟩
  | _, n, .closed h => .inl ⟨n, h⟩

theorem SpellsExpression.extends (hsemicolon : semicolon.kind = .semicolon)
    (hmore : SpellsStatements us more) : ∀ {ts : List Token} {n : Node}, SpellsExpression ts n →
      ∃ n', SpellsExpression (ts ++ semicolon :: us) n'
  | _, _, .statement h => by
    obtain ⟨ns, hns⟩ := SpellsStatements.extends hsemicolon hmore h
    exact hns.expression
  | _, _, .sequence h => by
    obtain ⟨ns, hns⟩ := SpellsStatements.extends hsemicolon hmore h
    exact hns.expression

theorem SpellsStatements.extends (hsemicolon : semicolon.kind = .semicolon)
    (hmore : SpellsStatements us more) : ∀ {ts : List Token} {ns : List Node},
      SpellsStatements ts ns → ∃ ns', SpellsStatements (ts ++ semicolon :: us) ns'
  | _, _, .one h => by
    rcases SpellsStatement.extends hsemicolon hmore h with ⟨c, hc⟩ | ⟨n', hn'⟩
    · exact ⟨c :: more, .more hc hsemicolon hmore⟩
    · exact ⟨[n'], .one hn'⟩
  | _, _, .more h hfirst hrest => by
    obtain ⟨ns', hns'⟩ := SpellsStatements.extends hsemicolon hmore hrest
    exact ⟨_, by simpa using SpellsStatements.more h hfirst hns'⟩

end

end

/-! ## 2. What is derived is spelled -/

/-- The tokens spell some phrase of the form. -/
def Form.Spelled : Form → List Token → Prop
  | expression, ts => ∃ ns, SpellsStatements ts ns
  | statement, ts => ∃ n, SpellsStatement ts n
  | closed, ts => ∃ n, SpellsClosed ts n
  | function, ts => ∃ f, SpellsFunction ts f
  | functions, ts => ∃ fs, SpellsFunctions ts fs
  | parameter, ts => ∃ x pa, SpellsParameter ts (x, pa)
  | constructor, ts => ∃ c, SpellsConstructor ts c
  | constructors, ts => ∃ cs, SpellsConstructors ts cs
  | earlierArm, ts => ∃ us arrow vs p body, ts = us ++ arrow :: vs ∧ SpellsPattern us p ∧
      arrow.kind = .arrow ∧ SpellsClosed vs body
  | arm, ts => ∃ us arrow vs p body, ts = us ++ arrow :: vs ∧ SpellsPattern us p ∧
      arrow.kind = .arrow ∧ SpellsStatement vs body
  | arms, ts => ∃ arms, SpellsArms ts arms
  | relation, ts => ∃ n, SpellsRelation ts n
  | sum, ts => ∃ n, SpellsSum ts n
  | product, ts => ∃ n, SpellsProduct ts n
  | negation, ts => ∃ n, SpellsNegation ts n
  | application, ts => ∃ n, SpellsApplication ts n
  | selection, ts => ∃ n, SpellsSelection ts n
  | atom, ts => ∃ n, SpellsAtom ts n
  | expressions, ts => ∃ ns, SpellsExpressions ts ns
  | pattern, ts => ∃ p, SpellsPattern ts p
  | patterns, ts => ∃ ps, SpellsPatterns ts ps
  | ascription, ts => ∃ a, SpellsAscription SpellsType ts a
  | atomicAscription, ts => ∃ a, SpellsAscription SpellsTypeAtom ts a
  | type, ts => ∃ t, SpellsType ts t
  | typeAtom, ts => ∃ t, SpellsTypeAtom ts t
  | types, ts => ∃ as, SpellsTypes ts as

/-- The tokens are made of tokens and phrases, as the symbols say. -/
def SpelledAs : List Symbol → List Token → Prop
  | [], ts => ts = []
  | .token p :: ss, ts => ∃ t us, ts = t :: us ∧ p t ∧ SpelledAs ss us
  | .form f :: ss, ts => ∃ us vs, ts = us ++ vs ∧ f.Spelled us ∧ SpelledAs ss vs

theorem spelledAs_form {f : Form} {ts : List Token} : SpelledAs [.form f] ts ↔ f.Spelled ts := by
  constructor
  · rintro ⟨us, _, rfl, h, rfl⟩
    rwa [List.append_nil]
  · exact fun h => ⟨ts, [], (List.append_nil ts).symm, h, rfl⟩

theorem spelledAs_token {p : Token → Prop} {ts : List Token} :
    SpelledAs [.token p] ts ↔ ∃ t, ts = [t] ∧ p t := by
  constructor
  · rintro ⟨t, _, rfl, h, rfl⟩
    exact ⟨t, rfl, h⟩
  · rintro ⟨t, rfl, h⟩
    exact ⟨t, [], rfl, h, rfl⟩

section

variable {rule : List Symbol} {ts : List Token}

theorem type_spelled (hrule : Rule .closed .type rule) (h : SpelledAs rule ts) :
    Form.type.Spelled ts := by
  cases hrule with
  | typeAtom =>
    obtain ⟨t, ht⟩ := spelledAs_form.1 h
    exact ⟨t, .atom ht⟩
  | functionType =>
    obtain ⟨us, _, rfl, ⟨a, ha⟩, arrow, vs, rfl, harrow, h⟩ := h
    obtain ⟨b, hb⟩ := spelledAs_form.1 h
    exact ⟨_, .function ha harrow hb⟩

theorem typeAtom_spelled (hrule : Rule .closed .typeAtom rule) (h : SpelledAs rule ts) :
    Form.typeAtom.Spelled ts := by
  cases hrule with
  | baseType =>
    obtain ⟨t, rfl, hk, hb⟩ := spelledAs_token.1 h
    obtain ⟨b, hb⟩ := Option.isSome_iff_exists.1 hb
    exact ⟨_, .base hk hb⟩
  | unitType =>
    obtain ⟨l, _, rfl, hl, r, _, rfl, hr, rfl⟩ := h
    exact ⟨_, .unit hl hr⟩
  | namedType =>
    obtain ⟨t, rfl, hk⟩ := spelledAs_token.1 h
    exact ⟨_, .named hk⟩
  | typeParentheses =>
    obtain ⟨l, _, rfl, hl, us, _, rfl, ⟨as, has⟩, r, _, rfl, hr, rfl⟩ := h
    match as, has with
    | [t], has => exact ⟨t, .parentheses hl has hr⟩
    | t :: t' :: more, has => exact ⟨_, .tuple hl has hr⟩

theorem types_spelled (hrule : Rule .closed .types rule) (h : SpelledAs rule ts) :
    Form.types.Spelled ts := by
  cases hrule with
  | typesLast =>
    obtain ⟨t, ht⟩ := spelledAs_form.1 h
    exact ⟨_, .one ht⟩
  | typesMore =>
    obtain ⟨us, _, rfl, ⟨t, ht⟩, comma, vs, rfl, hcomma, h⟩ := h
    obtain ⟨more, hmore⟩ := spelledAs_form.1 h
    exact ⟨_, .more ht hcomma hmore⟩

theorem ascription_spelled (hrule : Rule .closed .ascription rule) (h : SpelledAs rule ts) :
    Form.ascription.Spelled ts := by
  cases hrule with
  | noAscription =>
    cases h
    exact ⟨_, .absent⟩
  | ascription =>
    obtain ⟨colon, us, rfl, hcolon, h⟩ := h
    obtain ⟨t, ht⟩ := spelledAs_form.1 h
    exact ⟨_, .present hcolon ht⟩

theorem atomicAscription_spelled (hrule : Rule .closed .atomicAscription rule)
    (h : SpelledAs rule ts) : Form.atomicAscription.Spelled ts := by
  cases hrule with
  | noAtomicAscription =>
    cases h
    exact ⟨_, .absent⟩
  | atomicAscription =>
    obtain ⟨colon, us, rfl, hcolon, h⟩ := h
    obtain ⟨t, ht⟩ := spelledAs_form.1 h
    exact ⟨_, .present hcolon ht⟩

theorem pattern_spelled (hrule : Rule .closed .pattern rule) (h : SpelledAs rule ts) :
    Form.pattern.Spelled ts := by
  cases hrule with
  | patternBinder =>
    obtain ⟨t, rfl, hk⟩ := spelledAs_token.1 h
    exact ⟨_, .binder (q := default) hk⟩
  | patternInteger =>
    obtain ⟨t, rfl, hk, hlt⟩ := spelledAs_token.1 h
    obtain ⟨v, hv⟩ := integerLiteral_ok_iff.2 hlt
    exact ⟨_, .integer (q := default) hk hv⟩
  | patternNegative =>
    obtain ⟨minus, us, rfl, hminus, h⟩ := h
    obtain ⟨t, rfl, hk, hle⟩ := spelledAs_token.1 h
    obtain ⟨v, hv⟩ := negativeLiteral_ok_iff.2 hle
    exact ⟨_, .negative (q := default) hminus hk hv⟩
  | patternBoolean =>
    obtain ⟨t, rfl, hk⟩ := spelledAs_token.1 h
    exact ⟨_, .boolean (q := default) hk⟩
  | patternUnit =>
    obtain ⟨l, _, rfl, hl, r, _, rfl, hr, rfl⟩ := h
    exact ⟨_, .unit (q := default) hl hr⟩
  | patternConstant =>
    obtain ⟨t, rfl, hk⟩ := spelledAs_token.1 h
    exact ⟨_, .constant (q := default) hk⟩
  | patternConstructor =>
    obtain ⟨t, _, rfl, hk, l, _, rfl, hl, us, _, rfl, ⟨ps, hps⟩, r, _, rfl, hr, rfl⟩ := h
    exact ⟨_, .constructor (q := default) hk hl hps hr⟩
  | patternParentheses =>
    obtain ⟨l, _, rfl, hl, us, _, rfl, ⟨ps, hps⟩, r, _, rfl, hr, rfl⟩ := h
    match ps, hps with
    | [p], hps => exact ⟨p, .parentheses hl hps hr⟩
    | p :: p' :: more, hps => exact ⟨_, .tuple (q := default) hl hps hr⟩

theorem patterns_spelled (hrule : Rule .closed .patterns rule) (h : SpelledAs rule ts) :
    Form.patterns.Spelled ts := by
  cases hrule with
  | patternsLast =>
    obtain ⟨p, hp⟩ := spelledAs_form.1 h
    exact ⟨_, .one hp⟩
  | patternsMore =>
    obtain ⟨us, _, rfl, ⟨p, hp⟩, comma, vs, rfl, hcomma, h⟩ := h
    obtain ⟨more, hmore⟩ := spelledAs_form.1 h
    exact ⟨_, .more hp hcomma hmore⟩

theorem constructor_spelled (hrule : Rule .closed .constructor rule) (h : SpelledAs rule ts) :
    Form.constructor.Spelled ts := by
  cases hrule with
  | constant =>
    obtain ⟨t, rfl, hk⟩ := spelledAs_token.1 h
    exact ⟨_, .constant (q := default) hk⟩
  | constructor =>
    obtain ⟨t, _, rfl, hk, l, _, rfl, hl, us, _, rfl, ⟨as, has⟩, r, _, rfl, hr, rfl⟩ := h
    exact ⟨_, .parameters (q := default) hk hl has hr⟩

theorem constructors_spelled (hrule : Rule .closed .constructors rule) (h : SpelledAs rule ts) :
    Form.constructors.Spelled ts := by
  cases hrule with
  | constructorsLast =>
    obtain ⟨c, hc⟩ := spelledAs_form.1 h
    exact ⟨_, .one hc⟩
  | constructorsMore =>
    obtain ⟨us, _, rfl, ⟨c, hc⟩, bar, vs, rfl, hbar, h⟩ := h
    obtain ⟨more, hmore⟩ := spelledAs_form.1 h
    exact ⟨_, .more hc hbar hmore⟩

theorem parameter_spelled (hrule : Rule .closed .parameter rule) (h : SpelledAs rule ts) :
    Form.parameter.Spelled ts := by
  cases hrule with
  | parameterName =>
    obtain ⟨x, rfl, hx⟩ := spelledAs_token.1 h
    exact ⟨_, _, .name hx⟩
  | parameterTyped =>
    obtain ⟨l, _, rfl, hl, x, _, rfl, hx, colon, _, rfl, hcolon, us, _, rfl, ⟨t, ht⟩, r, _, rfl, hr,
      rfl⟩ := h
    exact ⟨_, _, .typed hl hx hcolon ht hr⟩

/-- A semicolon stands behind a statement that it ends, or within the body of the first one. -/
theorem expression_spelled (hrule : Rule .closed .expression rule) (h : SpelledAs rule ts) :
    Form.expression.Spelled ts := by
  cases hrule with
  | expressionLast =>
    obtain ⟨n, hn⟩ := spelledAs_form.1 h
    exact ⟨_, .one hn⟩
  | expressionMore =>
    obtain ⟨us, _, rfl, ⟨n, hn⟩, semicolon, vs, rfl, hsemicolon, h⟩ := h
    obtain ⟨more, hmore⟩ := spelledAs_form.1 h
    exact SpellsStatements.extends hsemicolon hmore (.one hn)

theorem statement_spelled (hrule : Rule .closed .statement rule) (h : SpelledAs rule ts) :
    Form.statement.Spelled ts := by
  cases hrule with
  | letIn =>
    obtain ⟨start, _, rfl, hstart, x, _, rfl, hx, us, _, rfl, ⟨a, ha⟩, equals, _, rfl, hequals, vs,
      _, rfl, ⟨ns, hns⟩, inBody, _, rfl, hinBody, h⟩ := h
    obtain ⟨value, hvalue⟩ := hns.expression
    obtain ⟨ms, hms⟩ := spelledAs_form.1 h
    obtain ⟨body, hbody⟩ := hms.expression
    exact ⟨_, .letIn (q := default) hstart hx ha hequals hvalue hinBody hbody⟩
  | letRec =>
    obtain ⟨start, _, rfl, hstart, us, _, rfl, ⟨fs, hfs⟩, inBody, _, rfl, hinBody, h⟩ := h
    obtain ⟨ns, hns⟩ := spelledAs_form.1 h
    obtain ⟨body, hbody⟩ := hns.expression
    exact ⟨_, .letRec (q := default) hstart hfs hinBody hbody⟩
  | lambda =>
    obtain ⟨start, _, rfl, hstart, x, _, rfl, hx, us, _, rfl, ⟨a, ha⟩, arrow, _, rfl, harrow,
      h⟩ := h
    obtain ⟨ns, hns⟩ := spelledAs_form.1 h
    obtain ⟨body, hbody⟩ := hns.expression
    exact ⟨_, .lambda (q := default) hstart hx ha harrow hbody⟩
  | dataType =>
    obtain ⟨start, _, rfl, hstart, d, _, rfl, hd, equals, _, rfl, hequals, us, _, rfl, ⟨cs, hcs⟩,
      inBody, _, rfl, hinBody, h⟩ := h
    obtain ⟨ns, hns⟩ := spelledAs_form.1 h
    obtain ⟨body, hbody⟩ := hns.expression
    exact ⟨_, .dataType (q := default) hstart hd hequals hcs hinBody hbody⟩
  | conditional =>
    obtain ⟨start, _, rfl, hstart, us, _, rfl, ⟨cs, hcs⟩, thenSign, _, rfl, hthen, vs, _, rfl,
      ⟨ns, hns⟩, elseSign, _, rfl, helse, h⟩ := h
    obtain ⟨c, hc⟩ := hcs.expression
    obtain ⟨t, ht⟩ := hns.expression
    obtain ⟨e, he⟩ := spelledAs_form.1 h
    exact ⟨_, .conditional (q := default) hstart hc hthen ht helse he⟩
  | matchWith =>
    obtain ⟨start, _, rfl, hstart, us, _, rfl, ⟨ns, hns⟩, l, _, rfl, hl, vs, _, rfl, ⟨arms, harms⟩,
      r, _, rfl, hr, rfl⟩ := h
    obtain ⟨e, he⟩ := hns.expression
    exact ⟨_, .closed (.matchWith (q := default) hstart he hl harms hr)⟩
  | statementRelation =>
    obtain ⟨n, hn⟩ := spelledAs_form.1 h
    exact ⟨n, .closed (.relation hn)⟩

theorem closed_spelled (hrule : Rule .closed .closed rule) (h : SpelledAs rule ts) :
    Form.closed.Spelled ts := by
  cases hrule with
  | closedConditional =>
    obtain ⟨start, _, rfl, hstart, us, _, rfl, ⟨cs, hcs⟩, thenSign, _, rfl, hthen, vs, _, rfl,
      ⟨ns, hns⟩, elseSign, _, rfl, helse, h⟩ := h
    obtain ⟨c, hc⟩ := hcs.expression
    obtain ⟨t, ht⟩ := hns.expression
    obtain ⟨e, he⟩ := spelledAs_form.1 h
    exact ⟨_, .conditional (q := default) hstart hc hthen ht helse he⟩
  | closedMatchWith =>
    obtain ⟨start, _, rfl, hstart, us, _, rfl, ⟨ns, hns⟩, l, _, rfl, hl, vs, _, rfl, ⟨arms, harms⟩,
      r, _, rfl, hr, rfl⟩ := h
    obtain ⟨e, he⟩ := hns.expression
    exact ⟨_, .matchWith (q := default) hstart he hl harms hr⟩
  | closedRelation =>
    obtain ⟨n, hn⟩ := spelledAs_form.1 h
    exact ⟨n, .relation hn⟩

theorem function_spelled (hrule : Rule .closed .function rule) (h : SpelledAs rule ts) :
    Form.function.Spelled ts := by
  cases hrule with
  | function =>
    obtain ⟨f, _, rfl, hf, us, _, rfl, ⟨x, pa, hx⟩, vs, _, rfl, ⟨ra, ha⟩, equals, _, rfl, hequals,
      h⟩ := h
    obtain ⟨ns, hns⟩ := spelledAs_form.1 h
    obtain ⟨body, hbody⟩ := hns.expression
    exact ⟨_, .mk (q := default) hf hx ha hequals hbody⟩

theorem functions_spelled (hrule : Rule .closed .functions rule) (h : SpelledAs rule ts) :
    Form.functions.Spelled ts := by
  cases hrule with
  | functionsLast =>
    obtain ⟨f, hf⟩ := spelledAs_form.1 h
    exact ⟨_, .one hf⟩
  | functionsMore =>
    obtain ⟨us, _, rfl, ⟨f, hf⟩, and, vs, rfl, hand, h⟩ := h
    obtain ⟨more, hmore⟩ := spelledAs_form.1 h
    exact ⟨_, .more hf hand hmore⟩

theorem earlierArm_spelled (hrule : Rule .closed .earlierArm rule) (h : SpelledAs rule ts) :
    Form.earlierArm.Spelled ts := by
  cases hrule with
  | earlierArm =>
    obtain ⟨us, _, rfl, ⟨p, hp⟩, arrow, vs, rfl, harrow, h⟩ := h
    obtain ⟨body, hbody⟩ := spelledAs_form.1 h
    exact ⟨us, arrow, vs, p, body, rfl, hp, harrow, hbody⟩

theorem arm_spelled (hrule : Rule .closed .arm rule) (h : SpelledAs rule ts) :
    Form.arm.Spelled ts := by
  cases hrule with
  | arm =>
    obtain ⟨us, _, rfl, ⟨p, hp⟩, arrow, vs, rfl, harrow, h⟩ := h
    obtain ⟨body, hbody⟩ := spelledAs_form.1 h
    exact ⟨us, arrow, vs, p, body, rfl, hp, harrow, hbody⟩

theorem arms_spelled (hrule : Rule .closed .arms rule) (h : SpelledAs rule ts) :
    Form.arms.Spelled ts := by
  cases hrule with
  | armsLast =>
    obtain ⟨us, arrow, vs, p, body, rfl, hp, harrow, hbody⟩ := spelledAs_form.1 h
    exact ⟨_, .one (q := default) hp harrow hbody⟩
  | armsTrailing =>
    obtain ⟨_, _, rfl, ⟨us, arrow, vs, p, body, rfl, hp, harrow, hbody⟩, h⟩ := h
    obtain ⟨semicolon, rfl, hsemicolon⟩ := spelledAs_token.1 h
    exact ⟨_, by simpa using SpellsArms.trailing (q := default) hp harrow hbody hsemicolon⟩
  | armsMore =>
    obtain ⟨_, _, rfl, ⟨us, arrow, vs, p, body, rfl, hp, harrow, hbody⟩, semicolon, ws, rfl,
      hsemicolon, h⟩ := h
    obtain ⟨more, hmore⟩ := spelledAs_form.1 h
    exact ⟨_, by simpa using SpellsArms.more (q := default) hp harrow hbody hsemicolon hmore⟩

theorem relation_spelled (hrule : Rule .closed .relation rule) (h : SpelledAs rule ts) :
    Form.relation.Spelled ts := by
  cases hrule with
  | relationSum =>
    obtain ⟨n, hn⟩ := spelledAs_form.1 h
    exact ⟨n, .sum hn⟩
  | comparison =>
    obtain ⟨us, _, rfl, ⟨l, hl⟩, sign, vs, rfl, ho, h⟩ := h
    obtain ⟨o, ho⟩ := Option.isSome_iff_exists.1 ho
    obtain ⟨r, hr⟩ := spelledAs_form.1 h
    exact ⟨_, .comparison (q := default) hl ho hr⟩

theorem sum_spelled (hrule : Rule .closed .sum rule) (h : SpelledAs rule ts) :
    Form.sum.Spelled ts := by
  cases hrule with
  | sumProduct =>
    obtain ⟨n, hn⟩ := spelledAs_form.1 h
    exact ⟨n, .product hn⟩
  | term =>
    obtain ⟨us, _, rfl, ⟨l, hl⟩, sign, vs, rfl, ho, h⟩ := h
    obtain ⟨o, ho⟩ := Option.isSome_iff_exists.1 ho
    obtain ⟨r, hr⟩ := spelledAs_form.1 h
    exact ⟨_, .term (q := default) hl ho hr⟩

theorem product_spelled (hrule : Rule .closed .product rule) (h : SpelledAs rule ts) :
    Form.product.Spelled ts := by
  cases hrule with
  | productNegation =>
    obtain ⟨n, hn⟩ := spelledAs_form.1 h
    exact ⟨n, .negation hn⟩
  | factor =>
    obtain ⟨us, _, rfl, ⟨l, hl⟩, sign, vs, rfl, ho, h⟩ := h
    obtain ⟨o, ho⟩ := Option.isSome_iff_exists.1 ho
    obtain ⟨r, hr⟩ := spelledAs_form.1 h
    exact ⟨_, .factor (q := default) hl ho hr⟩

theorem negation_spelled (hrule : Rule .closed .negation rule) (h : SpelledAs rule ts) :
    Form.negation.Spelled ts := by
  cases hrule with
  | negationApplication =>
    obtain ⟨n, hn⟩ := spelledAs_form.1 h
    exact ⟨n, .application hn⟩
  | negate =>
    obtain ⟨minus, us, rfl, hminus, h⟩ := h
    obtain ⟨n, hn⟩ := spelledAs_form.1 h
    exact ⟨_, .negate (q := default) hminus hn⟩

theorem application_spelled (hrule : Rule .closed .application rule) (h : SpelledAs rule ts) :
    Form.application.Spelled ts := by
  cases hrule with
  | applicationSelection =>
    obtain ⟨n, hn⟩ := spelledAs_form.1 h
    exact ⟨n, .selection hn⟩
  | argument =>
    obtain ⟨us, vs, rfl, ⟨f, hf⟩, h⟩ := h
    obtain ⟨a, ha⟩ := spelledAs_form.1 h
    exact ⟨_, .argument (q := default) hf ha⟩

theorem selection_spelled (hrule : Rule .closed .selection rule) (h : SpelledAs rule ts) :
    Form.selection.Spelled ts := by
  cases hrule with
  | selectionAtom =>
    obtain ⟨n, hn⟩ := spelledAs_form.1 h
    exact ⟨n, .atom hn⟩
  | projection =>
    obtain ⟨us, _, rfl, ⟨n, hn⟩, dot, _, rfl, hdot, index, _, rfl, ⟨hindex, hlt⟩, rfl⟩ := h
    obtain ⟨i, hi⟩ := tupleIndex_ok_iff.2 hlt
    exact ⟨_, .projection (q := default) hn hdot hindex hi⟩

theorem atom_spelled (hrule : Rule .closed .atom rule) (h : SpelledAs rule ts) :
    Form.atom.Spelled ts := by
  cases hrule with
  | integer =>
    obtain ⟨t, rfl, hk, hlt⟩ := spelledAs_token.1 h
    obtain ⟨v, hv⟩ := integerLiteral_ok_iff.2 hlt
    exact ⟨_, .integer (q := default) hk hv⟩
  | boolean =>
    obtain ⟨t, rfl, hk⟩ := spelledAs_token.1 h
    exact ⟨_, .boolean (q := default) hk⟩
  | unit =>
    obtain ⟨l, _, rfl, hl, r, _, rfl, hr, rfl⟩ := h
    exact ⟨_, .unit (q := default) hl hr⟩
  | name =>
    obtain ⟨t, rfl, hk⟩ := spelledAs_token.1 h
    cases hb : Builtin.ofText? t.text with
    | none => exact ⟨_, .reference (q := default) hk hb⟩
    | some b => exact ⟨_, .builtin (q := default) hk hb⟩
  | capitalisedName =>
    obtain ⟨t, rfl, hk⟩ := spelledAs_token.1 h
    exact ⟨_, .constructor (q := default) hk⟩
  | parentheses =>
    obtain ⟨l, _, rfl, hl, us, _, rfl, ⟨ns, hns⟩, r, _, rfl, hr, rfl⟩ := h
    match ns, hns with
    | [n], hns => exact ⟨n, .parentheses hl hns hr⟩
    | n :: n' :: more, hns => exact ⟨_, .tuple (q := default) hl hns hr⟩

theorem expressions_spelled (hrule : Rule .closed .expressions rule) (h : SpelledAs rule ts) :
    Form.expressions.Spelled ts := by
  cases hrule with
  | expressionsLast =>
    obtain ⟨ns, hns⟩ := spelledAs_form.1 h
    obtain ⟨n, hn⟩ := hns.expression
    exact ⟨_, .one hn⟩
  | expressionsMore =>
    obtain ⟨us, _, rfl, ⟨ns, hns⟩, comma, vs, rfl, hcomma, h⟩ := h
    obtain ⟨n, hn⟩ := hns.expression
    obtain ⟨more, hmore⟩ := spelledAs_form.1 h
    exact ⟨_, .more hn hcomma hmore⟩

/-- What a rule makes of phrases is a phrase. -/
theorem Rule.spelled : ∀ {f : Form}, Rule .closed f rule → SpelledAs rule ts → f.Spelled ts
  | .expression => expression_spelled
  | .statement => statement_spelled
  | .closed => closed_spelled
  | .function => function_spelled
  | .functions => functions_spelled
  | .parameter => parameter_spelled
  | .constructor => constructor_spelled
  | .constructors => constructors_spelled
  | .earlierArm => earlierArm_spelled
  | .arm => arm_spelled
  | .arms => arms_spelled
  | .relation => relation_spelled
  | .sum => sum_spelled
  | .product => product_spelled
  | .negation => negation_spelled
  | .application => application_spelled
  | .selection => selection_spelled
  | .atom => atom_spelled
  | .expressions => expressions_spelled
  | .pattern => pattern_spelled
  | .patterns => patterns_spelled
  | .ascription => ascription_spelled
  | .atomicAscription => atomicAscription_spelled
  | .type => type_spelled
  | .typeAtom => typeAtom_spelled
  | .types => types_spelled

end

theorem Derives.spelled {ss : List Symbol} {ts : List Token} (h : Derives .closed ss ts) :
    SpelledAs ss ts := by
  induction h with
  | nil => rfl
  | token ht _ ih => exact ⟨_, _, rfl, ht, ih⟩
  | form hf _ _ ihts ih => exact ⟨_, _, rfl, hf.spelled ihts, ih⟩

/-! ## 3. The parser -/

/-- **The parser accepts what the grammar derives with closed bodies before the semicolons of a
    `match`**, and that is part of what the documented grammar derives. -/
theorem Parser.program_succeeds_iff (stop : Position) (tokens : List Token) :
    ((∃ tree, program stop tokens = .ok tree) ↔ Generates .closed .expression tokens) ∧
      (Generates .closed .expression tokens → Generates .statement .expression tokens) := by
  refine ⟨⟨?_, ?_⟩, Generates.weaken⟩
  · rintro ⟨tree, h⟩
    have hspelled : Gives _ (program stop tokens) := program_spelled tokens
    rw [h] at hspelled
    obtain ⟨e, -, he⟩ := hspelled
    exact he.generates
  · intro h
    obtain ⟨ns, hns⟩ := spelledAs_form.1 h.spelled
    obtain ⟨n, hn⟩ := hns.expression
    obtain ⟨tree, htree, -⟩ : Yields _ (program stop tokens) := reads_program hn
    exact ⟨tree, htree⟩

/-- A `let` is the body of an arm, and another arm follows. -/
def armAfterLet : Source := .ofText "match 0 \x7b 0 -> let x = 1 in x; _ -> 2 \x7d"

/-- Its tokens. -/
def armAfterLetTokens : List Token :=
  [⟨.keyword .matchWith, "match", 0, 5, ⟨1, 1⟩⟩, ⟨.integerLiteral, "0", 6, 7, ⟨1, 7⟩⟩,
    ⟨.openBrace, "\x7b", 8, 9, ⟨1, 9⟩⟩, ⟨.integerLiteral, "0", 10, 11, ⟨1, 11⟩⟩,
    ⟨.arrow, "->", 12, 14, ⟨1, 13⟩⟩, ⟨.keyword .letIn, "let", 15, 18, ⟨1, 16⟩⟩,
    ⟨.identifier, "x", 19, 20, ⟨1, 20⟩⟩, ⟨.equals, "=", 21, 22, ⟨1, 22⟩⟩,
    ⟨.integerLiteral, "1", 23, 24, ⟨1, 24⟩⟩, ⟨.keyword .inBody, "in", 25, 27, ⟨1, 26⟩⟩,
    ⟨.identifier, "x", 28, 29, ⟨1, 29⟩⟩, ⟨.semicolon, ";", 29, 30, ⟨1, 30⟩⟩,
    ⟨.identifier, "_", 31, 32, ⟨1, 32⟩⟩, ⟨.arrow, "->", 33, 35, ⟨1, 34⟩⟩,
    ⟨.integerLiteral, "2", 36, 37, ⟨1, 37⟩⟩, ⟨.closeBrace, "\x7d", 38, 39, ⟨1, 39⟩⟩]

set_option maxRecDepth 100000 in
/-- **The parser rejects a program of the documented grammar**: it reads the next arm as a statement
    of the body of the `let`. -/
theorem armAfterLet_rejected : armAfterLet.tokens = .ok armAfterLetTokens ∧
    Generates .statement .expression armAfterLetTokens ∧
      ∃ e, armAfterLet.parse = .error e := by
  have htokens : armAfterLet.tokens = .ok armAfterLetTokens := by decide +kernel
  have hkind : armAfterLet.parse.map Node.kind =
      .error ⟨.unexpectedToken .semicolonOrCloseBrace "->", ⟨1, 34⟩⟩ := by decide +kernel
  obtain ⟨e, hparse⟩ : ∃ e, armAfterLet.parse = .error e := by
    cases hread : armAfterLet.parse with
    | ok tree =>
      rw [hread] at hkind
      cases hkind
    | error e => exact ⟨e, rfl⟩
  refine ⟨htokens, ?_, e, hparse⟩
  -- the parts are spelled, and a `let` with a semicolon behind it is the body of an arm
  have hscrutinee : SpellsAtom [⟨.integerLiteral, "0", 6, 7, ⟨1, 7⟩⟩]
      (.literal (.at default) (.integer 0)) := .integer rfl (by decide)
  have hzero : SpellsPattern [⟨.integerLiteral, "0", 10, 11, ⟨1, 11⟩⟩]
      (.patternLiteral (.at default) (.integer 0)) := .integer rfl (by decide)
  have hone : SpellsAtom [⟨.integerLiteral, "1", 23, 24, ⟨1, 24⟩⟩]
      (.literal (.at default) (.integer 1)) := .integer rfl (by decide)
  have hx : SpellsAtom [⟨.identifier, "x", 28, 29, ⟨1, 29⟩⟩] (.reference (.at default) "x") :=
    .reference rfl (by decide)
  have htwo : SpellsAtom [⟨.integerLiteral, "2", 36, 37, ⟨1, 37⟩⟩]
      (.literal (.at default) (.integer 2)) := .integer rfl (by decide)
  have hlet := @SpellsStatement.letIn default ⟨.keyword .letIn, "let", 15, 18, ⟨1, 16⟩⟩
    ⟨.identifier, "x", 19, 20, ⟨1, 20⟩⟩ ⟨.equals, "=", 21, 22, ⟨1, 22⟩⟩
    ⟨.keyword .inBody, "in", 25, 27, ⟨1, 26⟩⟩ _ _ _ _ _ _ rfl rfl .absent rfl hone.expression rfl
    hx.expression
  have harm := Generates.mk .earlierArm (hzero.generates.weaken.append
    (.token (t := ⟨.arrow, "->", 12, 14, ⟨1, 13⟩⟩) rfl hlet.generates.weaken))
  have hwildcard : SpellsPattern [⟨.identifier, "_", 31, 32, ⟨1, 32⟩⟩]
      (.patternBinder (.at default) "_") := .binder rfl
  have hlast := @SpellsArms.one default _ _ ⟨.arrow, "->", 33, 35, ⟨1, 34⟩⟩ _ _ hwildcard rfl
    (.closed htwo.closed)
  have harms := Generates.mk .armsMore (harm.append
    (.token (t := ⟨.semicolon, ";", 29, 30, ⟨1, 30⟩⟩) rfl hlast.generates.weaken))
  exact .mk .expressionLast (Generates.mk .matchWith (.token rfl
    (hscrutinee.expression.generates.weaken.append (.token rfl (harms.append (.last rfl))))))

end ClosureML
