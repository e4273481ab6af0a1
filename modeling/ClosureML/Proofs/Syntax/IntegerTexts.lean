import ClosureML.Proofs.Syntax.ParserComplete
import ClosureML.Proofs.Syntax.WordsSpelled

/-!
# How the texts of integers are read

The text of an integer are its digits, behind a minus sign when the integer is negative; zeros may
stand in front of the digits. In a pattern the sign belongs to the constant, so that all integers of
64 bits can be written. In an expression it is an operator, and the digits behind it are a constant
of their own, which `2 ^ 63` is too wide for: the least integer cannot be written there.

* `integerText` is the text of an integer, `integerWords` the words that it is cut into;
* `integerNode` is the tree of the text as an expression.

Main statements: `Parser.pattern_integer` and `Parser.pattern_tooWide` (where a pattern is read, it
is the integer if that has 64 bits, and the text is rejected otherwise), `spellsNegation_integer`
and `Parser.expression_tooWide` (the same for expressions, where the digits alone must not be too
wide).
-/

namespace ClosureML

/-! ## 1. Texts -/

/-- The integer has 64 bits. -/
def IsWord64 (n : Int) : Prop := -2 ^ 63 ≤ n ∧ n < 2 ^ 63

instance (n : Int) : Decidable (IsWord64 n) := inferInstanceAs (Decidable (_ ∧ _))

/-- **The text of an integer**, with zeros in front of its digits. -/
def integerText (zeros : Nat) (n : Int) : String :=
  (if n < 0 then "-" else "") ++ digitsText zeros n.natAbs

/-- The words that the text of an integer is cut into. -/
def integerWords (zeros : Nat) (n : Int) : List Word :=
  (if n < 0 then [.sign .minus] else []) ++ [digitsWord zeros n.natAbs]

/-- The text of an integer as a phrase. -/
def integerPhrase (zeros : Nat) (n : Int) : Phrase := ⟨integerText zeros n, integerWords zeros n⟩

/-- A minus sign in front of a digit is cut off. -/
theorem Phrase.IsCut.minus {p : Phrase} {c : Char} {cs : List Char} (h : p.IsCut)
    (htext : p.text.toList = c :: cs) (hc : isDigit c = true) :
    Phrase.IsCut ⟨"-" ++ p.text, .sign .minus :: p.words⟩ := by
  intro k rest hrest
  obtain ⟨k', htokens, hstop⟩ := h (k.step '-') rest hrest
  have hpair : pairSign? '-' c = none := by
    have hne : c ≠ '>' := by
      rintro rfl
      exact absurd hc (by decide)
    simp [pairSign?, hne]
  have hlexeme : lexeme? '-' (p.text.toList ++ rest) = some (.minus, 0) := by
    rw [htext, List.cons_append, lexeme?, if_neg (by decide), if_neg (by decide), List.head?_cons,
      Option.bind_some, hpair]
    rfl
  have hcomment : startsComment '-' (p.text.toList ++ rest) = false := rfl
  have hscan : scan k (("-" ++ p.text).toList ++ rest) =
      ⟨.over k .minus ['-'] :: (scan (k.step '-') (p.text.toList ++ rest)).tokens,
        (scan (k.step '-') (p.text.toList ++ rest)).stop⟩ := by
    have hcons : ("-" ++ p.text).toList ++ rest = '-' :: (p.text.toList ++ rest) := by
      rw [String.toList_append]
      rfl
    rw [hcons, scan_cons, if_neg (by decide), if_neg (by rw [hcomment]; exact Bool.false_ne_true),
      if_neg (by decide), hlexeme]
    rfl
  refine ⟨k', ?_, by rw [hscan, hstop]⟩
  rw [hscan, List.map_cons, htokens]
  rfl

/-- **The text of an integer is cut into a minus sign and digits.** -/
theorem isCut_integerPhrase (zeros : Nat) (n : Int) : (integerPhrase zeros n).IsCut := by
  have hdigits := (isCut_digitsWord zeros n.natAbs).phrase
  rw [integerPhrase, integerText, integerWords]
  split
  · obtain ⟨c, cs, hcs, hc, -⟩ := exists_digitsText zeros n.natAbs
    exact hdigits.minus hcs hc
  · rw [String.empty_append, List.nil_append]
    exact hdigits

/-! ## 2. Integers in patterns -/

/-- The tokens of the text of an integer. -/
theorem tokens_of_integerWords {zeros : Nat} {n : Int} {ts : List Token}
    (h : ts.map Token.word = integerWords zeros n) :
    ∃ t, t.kind = .integerLiteral ∧ t.text = digitsText zeros n.natAbs ∧
      (0 ≤ n ∧ ts = [t] ∨ n < 0 ∧ ∃ minus, minus.kind = .minus ∧ ts = [minus, t]) := by
  rw [integerWords] at h
  split at h
  · next hn =>
    obtain ⟨minus, us, rfl, hminus, hus⟩ := List.map_eq_cons_iff.1 h
    obtain ⟨t, vs, rfl, ht, hvs⟩ := List.map_eq_cons_iff.1 hus
    obtain rfl := List.map_eq_nil_iff.1 hvs
    exact ⟨t, congrArg Word.kind ht, congrArg Word.text ht,
      .inr ⟨hn, minus, congrArg Word.kind hminus, rfl⟩⟩
  · next hn =>
    obtain ⟨t, us, rfl, ht, hus⟩ := List.map_eq_cons_iff.1 h
    obtain rfl := List.map_eq_nil_iff.1 hus
    exact ⟨t, congrArg Word.kind ht, congrArg Word.text ht, .inl ⟨Int.not_lt.1 hn, rfl⟩⟩

/-- Digits with their sign are a constant exactly for an integer of 64 bits. -/
theorem integerLiteral_signed {zeros : Nat} {n : Int} {t : Token}
    (ht : t.text = digitsText zeros n.natAbs) :
    Parser.integerLiteral t (decide (n < 0)) =
      if IsWord64 n then .ok (.integer n)
      else .error ⟨.integerTooWide (integerText zeros n), t.position⟩ := by
  have hhalf : UInt64.size / 2 = 2 ^ 63 := rfl
  rw [Parser.integerLiteral, ht, decimal_digitsText, hhalf, integerText]
  by_cases hn : n < 0
  · have hvalue : -(n.natAbs : Int) = n := by omega
    have hfits : n.natAbs ≤ 2 ^ 63 ↔ IsWord64 n := by
      unfold IsWord64
      omega
    simp only [hn, decide_true, if_true, hvalue, hfits]
  · have hvalue : (n.natAbs : Int) = n := by omega
    have hfits : n.natAbs < 2 ^ 63 ↔ IsWord64 n := by
      unfold IsWord64
      omega
    simp only [hn, decide_false, Bool.false_eq_true, if_false, hvalue, hfits, String.empty_append]

namespace Parser

variable {zeros : Nat} {n : Int} {ts : List Token}

/-- Where a pattern is read, the sign and the digits of an integer are read as its constant, if they
    are one. -/
theorem pattern_integerWords (h : ts.map Token.word = integerWords zeros n) (stop : Position)
    (rest : List Token) :
    ∃ t p hrest, t.text = digitsText zeros n.natAbs ∧ pattern stop (ts ++ rest) =
      (integerLiteral t (decide (n < 0))).bind fun v =>
        .ok ⟨.patternLiteral (.at p) v, rest, hrest⟩ := by
  obtain ⟨t, hkind, htext, ⟨hn, rfl⟩ | ⟨hn, minus, hminus, rfl⟩⟩ := tokens_of_integerWords h
  · refine ⟨t, t.position, Nat.lt_succ_self _, htext, ?_⟩
    rw [decide_eq_false (Int.not_lt.2 hn)]
    show pattern stop (t :: rest) = _
    rw [pattern, next]
    simp only [bind, Except.bind, hkind]
    rfl
  · refine ⟨t, minus.position, Nat.lt_succ_of_lt (Nat.lt_succ_self _), htext, ?_⟩
    rw [decide_eq_true hn]
    show pattern stop (minus :: t :: rest) = _
    rw [pattern, next]
    simp only [bind, Except.bind, hminus, expect, hkind, if_true]
    rfl

/-- **Where a pattern is read, an integer of 64 bits is**, whatever stands behind its text. -/
theorem pattern_integer (h : ts.map Token.word = integerWords zeros n) (hn : IsWord64 n)
    (stop : Position) (rest : List Token) :
    Yields (fun r => ∃ p, r.value = .patternLiteral (.at p) (.integer n) ∧ r.rest = rest)
      (pattern stop (ts ++ rest)) := by
  obtain ⟨t, p, hrest, htext, hpattern⟩ := pattern_integerWords h stop rest
  rw [hpattern, integerLiteral_signed htext, if_pos hn]
  exact .ok ⟨p, rfl, rfl⟩

/-- **Where a pattern is read, an integer of more than 64 bits is rejected**. -/
theorem pattern_tooWide (h : ts.map Token.word = integerWords zeros n) (hn : ¬ IsWord64 n)
    (stop : Position) (rest : List Token) :
    ∃ p, pattern stop (ts ++ rest) = .error ⟨.integerTooWide (integerText zeros n), p⟩ := by
  obtain ⟨t, p, hrest, htext, hpattern⟩ := pattern_integerWords h stop rest
  rw [hpattern, integerLiteral_signed htext, if_neg hn]
  exact ⟨t.position, rfl⟩

end Parser

/-- The text of an integer of 64 bits spells its constant as a pattern. -/
theorem spellsPattern_integer {zeros : Nat} {n : Int} {ts : List Token} {q : Position}
    (h : ts.map Token.word = integerWords zeros n) (hn : IsWord64 n) :
    SpellsPattern ts (.patternLiteral (.at q) (.integer n)) := by
  obtain ⟨t, hkind, htext, ⟨hsign, rfl⟩ | ⟨hsign, minus, hminus, rfl⟩⟩ := tokens_of_integerWords h
  · have hliteral := integerLiteral_signed htext
    rw [decide_eq_false (Int.not_lt.2 hsign), if_pos hn] at hliteral
    exact .integer hkind hliteral
  · have hliteral := integerLiteral_signed htext
    rw [decide_eq_true hsign, if_pos hn] at hliteral
    exact .negative hminus hkind hliteral

/-! ## 3. Integers in expressions -/

/-- The tree of the text of an integer as an expression: the sign is an operator. -/
def integerNode (n : Int) : Node :=
  if n < 0 then .unary (.at default) .negate (.literal (.at default) (.integer n.natAbs))
  else .literal (.at default) (.integer n.natAbs)

/-- **The text of an integer spells an expression** when its digits alone have less than 64 bits. -/
theorem spellsNegation_integer {zeros : Nat} {n : Int} {ts : List Token}
    (h : ts.map Token.word = integerWords zeros n) (hn : n.natAbs < 2 ^ 63) :
    SpellsNegation ts (integerNode n) := by
  obtain ⟨t, hkind, htext, hsign⟩ := tokens_of_integerWords h
  have hdecimal : Parser.decimal t.text.toList = n.natAbs := by rw [htext, decimal_digitsText]
  have hliteral := integerLiteral_nonneg hdecimal ⟨Int.natCast_nonneg _, by omega⟩
  have hatom : SpellsNegation [t] (.literal (.at default) (.integer n.natAbs)) :=
    .application (.selection (.atom (.integer hkind hliteral)))
  rw [integerNode]
  rcases hsign with ⟨hsign, rfl⟩ | ⟨hsign, minus, hminus, rfl⟩
  · rw [if_neg (Int.not_lt.2 hsign)]
    exact hatom
  · rw [if_pos hsign]
    exact .negate hminus hatom

namespace Parser

variable {zeros : Nat} {n : Int} {ts : List Token} {stop : Position} {e : CompileError}

/-- An error at an atom is one of the negation that the atom begins. -/
theorem negation_error (h : atom stop ts = .error e) (hts : BeginsAtom ts) :
    negation stop ts = .error e := by
  have hselection : selection stop ts = .error e := by
    rw [selection, h]
    rfl
  have happlication : application stop ts = .error e := by
    rw [application, hselection]
    rfl
  obtain ⟨t, us, rfl, ht⟩ := hts
  have hsign : (if t.kind = .minus then some UnaryOperator.negate else none) = none :=
    if_neg fun hk => by rw [hk] at ht; cases ht
  rw [negation, select?, hsign]
  exact happlication

/-- An error at the negation that a relation begins with is one of the expression. -/
theorem expression_error (h : negation stop ts = .error e) (hts : BeginsRelation ts) :
    expression stop ts = .error e := by
  have hproduct : product stop ts = .error e := by
    rw [product, h]
    rfl
  have hsum : sum stop ts = .error e := by
    rw [sum, hproduct]
    rfl
  have hrelation : relation stop ts = .error e := by
    rw [relation, hsum]
    rfl
  have hstatement : statement stop ts = .error e := by rw [statement_eq_relation hts, hrelation]
  rw [expression, hstatement]
  rfl

/-- **The text of an integer is rejected as an expression** when its digits alone are too wide. -/
theorem expression_tooWide (h : ts.map Token.word = integerWords zeros n) (hn : 2 ^ 63 ≤ n.natAbs)
    (stop : Position) (rest : List Token) :
    ∃ p, expression stop (ts ++ rest) =
      .error ⟨.integerTooWide (digitsText zeros n.natAbs), p⟩ := by
  obtain ⟨t, hkind, htext, hsign⟩ := tokens_of_integerWords h
  have hhalf : UInt64.size / 2 = 2 ^ 63 := rfl
  have hliteral : integerLiteral t false =
      .error ⟨.integerTooWide (digitsText zeros n.natAbs), t.position⟩ := by
    rw [integerLiteral, htext, decimal_digitsText, hhalf, if_neg Bool.false_ne_true,
      if_neg (Nat.not_lt.2 hn)]
  have hatom : atom stop (t :: rest) =
      .error ⟨.integerTooWide (digitsText zeros n.natAbs), t.position⟩ := by
    rw [atom, next]
    simp only [bind, Except.bind, hkind, hliteral]
  have hbegins : BeginsAtom (t :: rest) := .cons hkind rfl
  have hnegation := negation_error hatom hbegins
  refine ⟨t.position, ?_⟩
  rcases hsign with ⟨hsign, rfl⟩ | ⟨hsign, minus, hminus, rfl⟩
  · exact expression_error hnegation hbegins.relation
  · refine expression_error ?_ ⟨minus, t :: rest, rfl, .inr hminus⟩
    show negation stop (minus :: t :: rest) = _
    rw [negation, select?_cons (by rw [hminus]; rfl)]
    simp only [hnegation]
    rfl

/-- An error at the pattern of the first arm is one of the arms. -/
theorem matchArms_error (h : pattern stop ts = .error e) : matchArms stop ts = .error e := by
  have harm : matchArm stop ts = .error e := by
    rw [matchArm, h]
    rfl
  rw [matchArms, harm]
  rfl

/-- **An error at the first pattern of a `match` is one of the program.** -/
theorem program_error_of_pattern {start l : Token} {us vs : List Token} {scrutinee : Node}
    (hstart : start.kind = .keyword .matchWith) (hscrutinee : SpellsExpression us scrutinee)
    (hl : l.kind = .openBrace) (h : pattern stop vs = .error e) :
    program stop (start :: (us ++ l :: vs)) = .error e := by
  have hstops : Stops TokenKind.continuesExpression (l :: vs) := stops_cons.2 (by rw [hl]; rfl)
  obtain ⟨⟨tree, rest, hshorter⟩, hread, -, rfl⟩ : Yields _ (expression stop (us ++ l :: vs)) :=
    reads_expression hscrutinee hstops
  have hmatch : matchStatement stop (start :: (us ++ l :: vs)) = .error e := by
    rw [matchStatement]
    simp only [bind, Except.bind, keyword, expect, hstart, if_true, hread, hl, matchArms_error h]
  have hstatement : statement stop (start :: (us ++ l :: vs)) = .error e := by
    have hnext : nextKind? (start :: (us ++ l :: vs)) = some (.keyword .matchWith) :=
      congrArg some hstart
    rw [statement, hnext]
    exact hmatch
  rw [program, expression, hstatement]
  rfl

end Parser

end ClosureML
