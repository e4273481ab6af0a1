import ClosureML.Proofs.Syntax.Mirrors
import ClosureML.Syntax.Parser

/-!
# Parsing texts whose tokens mirror each other

Two lists of tokens mirror each other when they are the same up to places in the text. The parser
looks at kinds and texts of tokens only, and hands positions on: so it makes trees that mirror each
other, or meets the same error at tokens that do, or in both texts at the end.

* `Token.Mirrors`: tokens that mirror each other;
* `Parser.ErrorsMirror`: errors of the parser that do.

Main statement: `Parser.program_mirrors`.
-/

namespace ClosureML

/-! ## 1. Tokens and errors -/

/-- Tokens that mirror each other: kind and text are the same, and `R` relates their positions. -/
structure Token.Mirrors (R : Position → Position → Prop) (t t' : Token) : Prop where
  kind : t.kind = t'.kind
  text : t.text = t'.text
  position : R t.position t'.position

namespace Parser

open Node (Mirrors MirrorsAll)

variable {R : Position → Position → Prop} {stop stop' : Position} {α α' : Type}
  {tokens tokens' : List Token}

/-- Lists of tokens that mirror each other. -/
abbrev TokensMirror (R : Position → Position → Prop) : List Token → List Token → Prop :=
  List.Forall₂ (Token.Mirrors R)

/-- Errors of the parser that mirror each other: they have one cause, and `R` relates their
    positions, or the texts have ended too early. -/
structure ErrorsMirror (R : Position → Position → Prop) (stop stop' : Position)
    (e e' : CompileError) : Prop where
  cause : e.cause = e'.cause
  position : R e.position e'.position ∨
    (∃ expected, e.cause = .unexpectedEnd expected) ∧ e.position = stop ∧ e'.position = stop'

theorem ErrorsMirror.here {cause : Cause} {p p' : Position} (h : R p p') :
    ErrorsMirror R stop stop' ⟨cause, p⟩ ⟨cause, p'⟩ := ⟨rfl, .inl h⟩

theorem ErrorsMirror.atEnd {expected : Expected} :
    ErrorsMirror R stop stop' ⟨.unexpectedEnd expected, stop⟩ ⟨.unexpectedEnd expected, stop'⟩ :=
  ⟨rfl, .inr ⟨⟨expected, rfl⟩, rfl, rfl⟩⟩

/-- Phrases that were read alike, and behind which the tokens mirror each other. -/
def Parsed.Mirrors (R : Position → Position → Prop) (V : α → α → Prop) :
    Parsed α tokens → Parsed α tokens' → Prop
  | ⟨a, rest, _⟩, ⟨a', rest', _⟩ => V a a' ∧ TokensMirror R rest rest'

/-- Phrases that follow and were read alike, and behind which the tokens mirror each other. -/
def Trailing.Mirrors (R : Position → Position → Prop) (V : α → α → Prop) :
    Trailing α tokens → Trailing α tokens' → Prop
  | ⟨a, rest, _⟩, ⟨a', rest', _⟩ => V a a' ∧ TokensMirror R rest rest'

/-- Both texts have a phrase in front that is read alike, or both have none. -/
abbrev ReadsAlike (R : Position → Position → Prop) (stop stop' : Position) (V : α → α → Prop)
    (x : Reads α tokens) (x' : Reads α tokens') : Prop :=
  Together (Parsed.Mirrors R V) (ErrorsMirror R stop stop') x x'

/-- What follows is read alike in both texts, or not at all. -/
abbrev ContinuesAlike (R : Position → Position → Prop) (stop stop' : Position) (V : α → α → Prop)
    (x : Continues α tokens) (x' : Continues α tokens') : Prop :=
  Together (Trailing.Mirrors R V) (ErrorsMirror R stop stop') x x'

theorem unexpected_mirrors {V : α → α' → Prop} {t t' : Token} {expected : Expected}
    (h : t.Mirrors R t') :
    Together V (ErrorsMirror R stop stop') (unexpected t expected) (unexpected t' expected) := by
  rw [unexpected, unexpected, h.text]
  exact .error (.here h.position)

theorem next_mirrors {expected : Expected} (h : TokensMirror R tokens tokens') :
    ReadsAlike R stop stop' (Token.Mirrors R) (next stop expected tokens)
      (next stop' expected tokens') := by
  cases h with
  | nil => exact .error .atEnd
  | cons ht hrest => exact .ok ⟨ht, hrest⟩

theorem expect_mirrors {kind : TokenKind} {expected : Expected}
    (h : TokensMirror R tokens tokens') :
    ReadsAlike R stop stop' (Token.Mirrors R) (expect stop kind expected tokens)
      (expect stop' kind expected tokens') := by
  cases h with
  | nil => exact .error .atEnd
  | cons ht hrest =>
    rw [expect, expect, ht.kind]
    split
    · exact .ok ⟨ht, hrest⟩
    · exact unexpected_mirrors ht

theorem skip?_mirrors (kind : TokenKind) (h : TokensMirror R tokens tokens') :
    (skip? kind tokens = none ∧ skip? kind tokens' = none) ∨
      ∃ (rest rest' : List Token) (h : rest.length < tokens.length)
        (h' : rest'.length < tokens'.length), skip? kind tokens = some ⟨rest, h⟩ ∧
          skip? kind tokens' = some ⟨rest', h'⟩ ∧ TokensMirror R rest rest' := by
  cases h with
  | nil => exact .inl ⟨rfl, rfl⟩
  | @cons t t' rest rest' ht hrest =>
    rw [skip?, skip?, ht.kind]
    split
    · exact .inr ⟨rest, rest', Nat.lt_succ_self _, Nat.lt_succ_self _, rfl, rfl, hrest⟩
    · exact .inl ⟨rfl, rfl⟩

theorem select?_mirrors (f : TokenKind → Option α) (h : TokensMirror R tokens tokens') :
    (select? f tokens = none ∧ select? f tokens' = none) ∨
      ∃ (a : α) (p p' : Position) (rest rest' : List Token) (h : rest.length < tokens.length)
        (h' : rest'.length < tokens'.length), select? f tokens = some ⟨(a, p), rest, h⟩ ∧
          select? f tokens' = some ⟨(a, p'), rest', h'⟩ ∧ R p p' ∧ TokensMirror R rest rest' := by
  cases h with
  | nil => exact .inl ⟨rfl, rfl⟩
  | @cons t t' rest rest' ht hrest =>
    rw [select?, select?, ht.kind]
    cases f t'.kind with
    | none => exact .inl ⟨rfl, rfl⟩
    | some a =>
      exact .inr ⟨a, _, _, rest, rest', Nat.lt_succ_self _, Nat.lt_succ_self _, rfl, rfl,
        ht.position, hrest⟩

theorem integerLiteral_mirrors {t t' : Token} {negative : Bool} (h : t.Mirrors R t') :
    Together Eq (ErrorsMirror R stop stop') (integerLiteral t negative)
      (integerLiteral t' negative) := by
  unfold integerLiteral
  rw [h.text]
  dsimp only
  split <;> split
  · exact .ok rfl
  · exact .error (.here h.position)
  · exact .ok rfl
  · exact .error (.here h.position)

theorem tupleIndex_mirrors {t t' : Token} (h : t.Mirrors R t') :
    Together Eq (ErrorsMirror R stop stop') (tupleIndex t) (tupleIndex t') := by
  unfold tupleIndex
  rw [h.text]
  dsimp only
  split
  · exact .ok rfl
  · exact .error (.here h.position)

theorem nextKind?_eq (h : TokensMirror R tokens tokens') :
    nextKind? tokens = nextKind? tokens' := by
  cases h with
  | nil => rfl
  | cons ht _ => exact congrArg some ht.kind

/-! ## 2. Types -/

mutual

theorem type_mirrors {tokens tokens' : List Token} (h : TokensMirror R tokens tokens') :
    ReadsAlike R stop stop' Eq (type stop tokens) (type stop' tokens') := by
  rw [type, type]
  refine (typeAtom_mirrors h).bind ?_
  rintro ⟨parameter, rest₁, h₁⟩ ⟨_, rest₁', h₁'⟩ ⟨rfl, hrest₁⟩
  dsimp only
  rcases skip?_mirrors .arrow hrest₁ with ⟨e, e'⟩ | ⟨rest₂, rest₂', h₂, h₂', e, e', hrest₂⟩
  · rw [e, e']
    exact .pure ⟨rfl, hrest₁⟩
  · rw [e, e']
    refine (type_mirrors hrest₂).bind ?_
    rintro ⟨result, rest₃, h₃⟩ ⟨_, rest₃', h₃'⟩ ⟨rfl, hrest₃⟩
    exact .pure ⟨rfl, hrest₃⟩
termination_by 2 * tokens.length + 1

theorem typeAtom_mirrors {tokens tokens' : List Token} (h : TokensMirror R tokens tokens') :
    ReadsAlike R stop stop' Eq (typeAtom stop tokens) (typeAtom stop' tokens') := by
  rw [typeAtom, typeAtom]
  refine (next_mirrors h).bind ?_
  rintro ⟨t, rest₁, h₁⟩ ⟨t', rest₁', h₁'⟩ ⟨ht, hrest₁⟩
  dsimp only
  rw [← ht.kind, ← ht.text]
  split
  · cases BaseType.ofText? t.text with
    | some b => exact .pure ⟨rfl, hrest₁⟩
    | none => exact .error (.here ht.position)
  · exact .pure ⟨rfl, hrest₁⟩
  · rcases skip?_mirrors .closeParen hrest₁ with ⟨e, e'⟩ | ⟨rest₂, rest₂', h₂, h₂', e, e', hrest₂⟩
    · rw [e, e']
      refine (type_mirrors hrest₁).bind ?_
      rintro ⟨first, rest₂, h₂⟩ ⟨_, rest₂', h₂'⟩ ⟨rfl, hrest₂⟩
      refine (typesAfter_mirrors hrest₂).bind ?_
      rintro ⟨more, rest₃, h₃⟩ ⟨_, rest₃', h₃'⟩ ⟨rfl, hrest₃⟩
      dsimp only
      split
      all_goals
        refine (expect_mirrors hrest₃).bind ?_
        rintro ⟨_, rest₄, _⟩ ⟨_, rest₄', _⟩ ⟨-, hrest₄⟩
        exact .pure ⟨rfl, hrest₄⟩
    · rw [e, e']
      exact .pure ⟨rfl, hrest₂⟩
  · exact unexpected_mirrors ht
termination_by 2 * tokens.length

theorem typesAfter_mirrors {tokens tokens' : List Token} (h : TokensMirror R tokens tokens') :
    ContinuesAlike R stop stop' Eq (typesAfter stop tokens) (typesAfter stop' tokens') := by
  rw [typesAfter, typesAfter]
  rcases skip?_mirrors .comma h with ⟨e, e'⟩ | ⟨rest₁, rest₁', h₁, h₁', e, e', hrest₁⟩
  · rw [e, e']
    exact .pure ⟨rfl, h⟩
  · rw [e, e']
    refine (type_mirrors hrest₁).bind ?_
    rintro ⟨t, rest₂, h₂⟩ ⟨_, rest₂', h₂'⟩ ⟨rfl, hrest₂⟩
    refine (typesAfter_mirrors hrest₂).bind ?_
    rintro ⟨more, rest₃, h₃⟩ ⟨_, rest₃', h₃'⟩ ⟨rfl, hrest₃⟩
    exact .pure ⟨rfl, hrest₃⟩
termination_by 2 * tokens.length

end

theorem optionalAscription_mirrors {tokens tokens' : List Token}
    (h : TokensMirror R tokens tokens') :
    ContinuesAlike R stop stop' Eq (optionalAscription stop tokens)
      (optionalAscription stop' tokens') := by
  rw [optionalAscription, optionalAscription]
  rcases skip?_mirrors .colon h with ⟨e, e'⟩ | ⟨rest₁, rest₁', h₁, h₁', e, e', hrest₁⟩
  · rw [e, e']
    exact .pure ⟨rfl, h⟩
  · rw [e, e']
    refine (type_mirrors hrest₁).bind ?_
    rintro ⟨t, rest₂, h₂⟩ ⟨_, rest₂', h₂'⟩ ⟨rfl, hrest₂⟩
    exact .pure ⟨rfl, hrest₂⟩

theorem lambdaAscription_mirrors {tokens tokens' : List Token}
    (h : TokensMirror R tokens tokens') :
    ContinuesAlike R stop stop' Eq (lambdaAscription stop tokens)
      (lambdaAscription stop' tokens') := by
  rw [lambdaAscription, lambdaAscription]
  rcases skip?_mirrors .colon h with ⟨e, e'⟩ | ⟨rest₁, rest₁', h₁, h₁', e, e', hrest₁⟩
  · rw [e, e']
    exact .pure ⟨rfl, h⟩
  · rw [e, e']
    refine (typeAtom_mirrors hrest₁).bind ?_
    rintro ⟨t, rest₂, h₂⟩ ⟨_, rest₂', h₂'⟩ ⟨rfl, hrest₂⟩
    exact .pure ⟨rfl, hrest₂⟩

/-! ## 3. Patterns -/

mutual

theorem pattern_mirrors {tokens tokens' : List Token} (h : TokensMirror R tokens tokens') :
    ReadsAlike R stop stop' (Mirrors Eq R) (pattern stop tokens) (pattern stop' tokens') := by
  rw [pattern, pattern]
  refine (next_mirrors h).bind ?_
  rintro ⟨t, rest₁, h₁⟩ ⟨t', rest₁', h₁'⟩ ⟨ht, hrest₁⟩
  have hm := Mark.mirrors_at ht.position
  dsimp only
  rw [← ht.kind, ← ht.text]
  split
  · exact .pure ⟨.patternBinder hm rfl, hrest₁⟩
  · refine (integerLiteral_mirrors ht).bind ?_
    rintro v _ rfl
    exact .pure ⟨.patternLiteral hm, hrest₁⟩
  · refine (expect_mirrors hrest₁).bind ?_
    rintro ⟨digits, rest₂, h₂⟩ ⟨digits', rest₂', h₂'⟩ ⟨hdigits, hrest₂⟩
    refine (integerLiteral_mirrors hdigits).bind ?_
    rintro v _ rfl
    exact .pure ⟨.patternLiteral hm, hrest₂⟩
  · exact .pure ⟨.patternLiteral hm, hrest₁⟩
  · rcases skip?_mirrors .openParen hrest₁ with ⟨e, e'⟩ | ⟨rest₂, rest₂', h₂, h₂', e, e', hrest₂⟩
    · rw [e, e']
      exact .pure ⟨.patternConstructor hm .nil, hrest₁⟩
    · rw [e, e']
      refine (pattern_mirrors hrest₂).bind ?_
      rintro ⟨first, rest₃, h₃⟩ ⟨first', rest₃', h₃'⟩ ⟨hfirst, hrest₃⟩
      refine (patternsAfter_mirrors hrest₃).bind ?_
      rintro ⟨more, rest₄, h₄⟩ ⟨more', rest₄', h₄'⟩ ⟨hmore, hrest₄⟩
      refine (expect_mirrors hrest₄).bind ?_
      rintro ⟨_, rest₅, h₅⟩ ⟨_, rest₅', h₅'⟩ ⟨-, hrest₅⟩
      exact .pure ⟨.patternConstructor hm (.cons hfirst hmore), hrest₅⟩
  · rcases skip?_mirrors .closeParen hrest₁ with ⟨e, e'⟩ | ⟨rest₂, rest₂', h₂, h₂', e, e', hrest₂⟩
    · rw [e, e']
      refine (pattern_mirrors hrest₁).bind ?_
      rintro ⟨first, rest₂, h₂⟩ ⟨first', rest₂', h₂'⟩ ⟨hfirst, hrest₂⟩
      refine (patternsAfter_mirrors hrest₂).bind ?_
      rintro ⟨more, rest₃, h₃⟩ ⟨more', rest₃', h₃'⟩ ⟨hmore, hrest₃⟩
      dsimp only
      rw [hmore.isEmpty_eq]
      split
      · refine (expect_mirrors hrest₃).bind ?_
        rintro ⟨_, rest₄, h₄⟩ ⟨_, rest₄', h₄'⟩ ⟨-, hrest₄⟩
        exact .pure ⟨hfirst, hrest₄⟩
      · refine (expect_mirrors hrest₃).bind ?_
        rintro ⟨_, rest₄, h₄⟩ ⟨_, rest₄', h₄'⟩ ⟨-, hrest₄⟩
        exact .pure ⟨.patternTuple hm (.cons hfirst hmore), hrest₄⟩
    · rw [e, e']
      exact .pure ⟨.patternLiteral hm, hrest₂⟩
  · exact unexpected_mirrors ht
termination_by tokens.length

theorem patternsAfter_mirrors {tokens tokens' : List Token}
    (h : TokensMirror R tokens tokens') :
    ContinuesAlike R stop stop' (MirrorsAll Eq R) (patternsAfter stop tokens)
      (patternsAfter stop' tokens') := by
  rw [patternsAfter, patternsAfter]
  rcases skip?_mirrors .comma h with ⟨e, e'⟩ | ⟨rest₁, rest₁', h₁, h₁', e, e', hrest₁⟩
  · rw [e, e']
    exact .pure ⟨.nil, h⟩
  · rw [e, e']
    refine (pattern_mirrors hrest₁).bind ?_
    rintro ⟨p, rest₂, h₂⟩ ⟨p', rest₂', h₂'⟩ ⟨hp, hrest₂⟩
    refine (patternsAfter_mirrors hrest₂).bind ?_
    rintro ⟨more, rest₃, h₃⟩ ⟨more', rest₃', h₃'⟩ ⟨hmore, hrest₃⟩
    exact .pure ⟨.cons hp hmore, hrest₃⟩
termination_by tokens.length

end

/-! ## 4. Parts of declarations -/

theorem dataConstructor_mirrors {tokens tokens' : List Token}
    (h : TokensMirror R tokens tokens') :
    ReadsAlike R stop stop' (Mirrors Eq R) (dataConstructor stop tokens)
      (dataConstructor stop' tokens') := by
  rw [dataConstructor, dataConstructor]
  refine (expect_mirrors h).bind ?_
  rintro ⟨t, rest₁, h₁⟩ ⟨t', rest₁', h₁'⟩ ⟨ht, hrest₁⟩
  have hm := Mark.mirrors_at ht.position
  dsimp only
  rw [← ht.text]
  rcases skip?_mirrors .openParen hrest₁ with ⟨e, e'⟩ | ⟨rest₂, rest₂', h₂, h₂', e, e', hrest₂⟩
  · rw [e, e']
    exact .pure ⟨.dataConstructor hm rfl, hrest₁⟩
  · rw [e, e']
    refine (type_mirrors hrest₂).bind ?_
    rintro ⟨first, rest₃, h₃⟩ ⟨_, rest₃', h₃'⟩ ⟨rfl, hrest₃⟩
    refine (typesAfter_mirrors hrest₃).bind ?_
    rintro ⟨more, rest₄, h₄⟩ ⟨_, rest₄', h₄'⟩ ⟨rfl, hrest₄⟩
    refine (expect_mirrors hrest₄).bind ?_
    rintro ⟨_, rest₅, h₅⟩ ⟨_, rest₅', h₅'⟩ ⟨-, hrest₅⟩
    exact .pure ⟨.dataConstructor hm rfl, hrest₅⟩

theorem dataConstructorsAfter_mirrors {tokens tokens' : List Token}
    (h : TokensMirror R tokens tokens') :
    ContinuesAlike R stop stop' (MirrorsAll Eq R) (dataConstructorsAfter stop tokens)
      (dataConstructorsAfter stop' tokens') := by
  rw [dataConstructorsAfter, dataConstructorsAfter]
  rcases skip?_mirrors .pipe h with ⟨e, e'⟩ | ⟨rest₁, rest₁', h₁, h₁', e, e', hrest₁⟩
  · rw [e, e']
    exact .pure ⟨.nil, h⟩
  · rw [e, e']
    refine (dataConstructor_mirrors hrest₁).bind ?_
    rintro ⟨c, rest₂, h₂⟩ ⟨c', rest₂', h₂'⟩ ⟨hc, hrest₂⟩
    refine (dataConstructorsAfter_mirrors hrest₂).bind ?_
    rintro ⟨more, rest₃, h₃⟩ ⟨more', rest₃', h₃'⟩ ⟨hmore, hrest₃⟩
    exact .pure ⟨.cons hc hmore, hrest₃⟩
termination_by tokens.length

theorem groupParameter_mirrors {tokens tokens' : List Token} (h : TokensMirror R tokens tokens') :
    ReadsAlike R stop stop' Eq (groupParameter stop tokens) (groupParameter stop' tokens') := by
  rw [groupParameter, groupParameter]
  rcases skip?_mirrors .openParen h with ⟨e, e'⟩ | ⟨rest₁, rest₁', h₁, h₁', e, e', hrest₁⟩
  · rw [e, e']
    refine (expect_mirrors h).bind ?_
    rintro ⟨x, rest₁, h₁⟩ ⟨x', rest₁', h₁'⟩ ⟨hx, hrest₁⟩
    exact .pure ⟨congrArg (·, none) hx.text, hrest₁⟩
  · rw [e, e']
    refine (expect_mirrors hrest₁).bind ?_
    rintro ⟨x, rest₂, h₂⟩ ⟨x', rest₂', h₂'⟩ ⟨hx, hrest₂⟩
    refine (expect_mirrors hrest₂).bind ?_
    rintro ⟨_, rest₃, h₃⟩ ⟨_, rest₃', h₃'⟩ ⟨-, hrest₃⟩
    refine (type_mirrors hrest₃).bind ?_
    rintro ⟨t, rest₄, h₄⟩ ⟨_, rest₄', h₄'⟩ ⟨rfl, hrest₄⟩
    refine (expect_mirrors hrest₄).bind ?_
    rintro ⟨_, rest₅, h₅⟩ ⟨_, rest₅', h₅'⟩ ⟨-, hrest₅⟩
    exact .pure ⟨congrArg (·, some t) hx.text, hrest₅⟩

theorem projectionsAfter_mirrors {tokens tokens' : List Token} {target target' : Node}
    (htarget : Mirrors Eq R target target')
    (h : TokensMirror R tokens tokens') :
    ContinuesAlike R stop stop' (Mirrors Eq R) (projectionsAfter stop target tokens)
      (projectionsAfter stop' target' tokens') := by
  rw [projectionsAfter, projectionsAfter]
  rcases select?_mirrors _ h with ⟨e, e'⟩ | ⟨_, p, p', rest₁, rest₁', h₁, h₁', e, e', hp, hrest₁⟩
  · rw [e, e']
    exact .pure ⟨htarget, h⟩
  · rw [e, e']
    refine (expect_mirrors hrest₁).bind ?_
    rintro ⟨t, rest₂, h₂⟩ ⟨t', rest₂', h₂'⟩ ⟨ht, hrest₂⟩
    refine (tupleIndex_mirrors ht).bind ?_
    rintro index _ rfl
    refine (projectionsAfter_mirrors (.projection (Mark.mirrors_at hp) htarget) hrest₂).bind ?_
    rintro ⟨result, rest₃, h₃⟩ ⟨result', rest₃', h₃'⟩ ⟨hresult, hrest₃⟩
    exact .pure ⟨hresult, hrest₃⟩
termination_by tokens.length

/-! ## 5. Expressions -/

mutual

theorem expression_mirrors {tokens tokens' : List Token} (h : TokensMirror R tokens tokens') :
    ReadsAlike R stop stop' (Mirrors Eq R) (expression stop tokens) (expression stop' tokens') := by
  rw [expression, expression]
  refine (statement_mirrors h).bind ?_
  rintro ⟨first, rest₁, h₁⟩ ⟨first', rest₁', h₁'⟩ ⟨hfirst, hrest₁⟩
  refine (statementsAfter_mirrors hrest₁).bind ?_
  rintro ⟨more, rest₂, h₂⟩ ⟨more', rest₂', h₂'⟩ ⟨hmore, hrest₂⟩
  dsimp only
  rw [hmore.isEmpty_eq]
  split
  · exact .pure ⟨hfirst, hrest₂⟩
  · exact .pure ⟨.sequence (Mark.mirrors_at hfirst.position) (.cons hfirst hmore), hrest₂⟩
termination_by 10 * tokens.length + 9
decreasing_by all_goals omega

theorem statementsAfter_mirrors {tokens tokens' : List Token}
    (h : TokensMirror R tokens tokens') :
    ContinuesAlike R stop stop' (MirrorsAll Eq R) (statementsAfter stop tokens)
      (statementsAfter stop' tokens') := by
  rw [statementsAfter, statementsAfter]
  rcases skip?_mirrors .semicolon h with ⟨e, e'⟩ | ⟨rest₁, rest₁', h₁, h₁', e, e', hrest₁⟩
  · rw [e, e']
    exact .pure ⟨.nil, h⟩
  · rw [e, e']
    refine (statement_mirrors hrest₁).bind ?_
    rintro ⟨s, rest₂, h₂⟩ ⟨s', rest₂', h₂'⟩ ⟨hs, hrest₂⟩
    refine (statementsAfter_mirrors hrest₂).bind ?_
    rintro ⟨more, rest₃, h₃⟩ ⟨more', rest₃', h₃'⟩ ⟨hmore, hrest₃⟩
    exact .pure ⟨.cons hs hmore, hrest₃⟩
termination_by 10 * tokens.length
decreasing_by all_goals omega

theorem statement_mirrors {tokens tokens' : List Token} (h : TokensMirror R tokens tokens') :
    ReadsAlike R stop stop' (Mirrors Eq R) (statement stop tokens) (statement stop' tokens') := by
  rw [statement, statement, nextKind?_eq h]
  split
  · exact letStatement_mirrors h
  · exact letRecStatement_mirrors h
  · exact dataStatement_mirrors h
  · exact conditional_mirrors h
  · exact matchStatement_mirrors h
  · exact lambda_mirrors h
  · exact relation_mirrors h
termination_by 10 * tokens.length + 8
decreasing_by all_goals omega

theorem letStatement_mirrors {tokens tokens' : List Token}
    (h : TokensMirror R tokens tokens') :
    ReadsAlike R stop stop' (Mirrors Eq R) (letStatement stop tokens)
      (letStatement stop' tokens') := by
  rw [letStatement, letStatement]
  refine (expect_mirrors h).bind ?_
  rintro ⟨start, rest₁, h₁⟩ ⟨start', rest₁', h₁'⟩ ⟨hstart, hrest₁⟩
  refine (expect_mirrors hrest₁).bind ?_
  rintro ⟨x, rest₂, h₂⟩ ⟨x', rest₂', h₂'⟩ ⟨hx, hrest₂⟩
  refine (optionalAscription_mirrors hrest₂).bind ?_
  rintro ⟨ascription, rest₃, h₃⟩ ⟨_, rest₃', h₃'⟩ ⟨rfl, hrest₃⟩
  refine (expect_mirrors hrest₃).bind ?_
  rintro ⟨_, rest₄, h₄⟩ ⟨_, rest₄', h₄'⟩ ⟨-, hrest₄⟩
  refine (expression_mirrors hrest₄).bind ?_
  rintro ⟨value, rest₅, h₅⟩ ⟨value', rest₅', h₅'⟩ ⟨hvalue, hrest₅⟩
  refine (expect_mirrors hrest₅).bind ?_
  rintro ⟨_, rest₆, h₆⟩ ⟨_, rest₆', h₆'⟩ ⟨-, hrest₆⟩
  refine (expression_mirrors hrest₆).bind ?_
  rintro ⟨body, rest₇, h₇⟩ ⟨body', rest₇', h₇'⟩ ⟨hbody, hrest₇⟩
  rw [hx.text]
  exact .pure ⟨.letIn (Mark.mirrors_at hstart.position) rfl hvalue hbody, hrest₇⟩
termination_by 10 * tokens.length
decreasing_by all_goals omega

theorem letRecStatement_mirrors {tokens tokens' : List Token}
    (h : TokensMirror R tokens tokens') :
    ReadsAlike R stop stop' (Mirrors Eq R) (letRecStatement stop tokens)
      (letRecStatement stop' tokens') := by
  rw [letRecStatement, letRecStatement]
  refine (expect_mirrors h).bind ?_
  rintro ⟨start, rest₁, h₁⟩ ⟨start', rest₁', h₁'⟩ ⟨hstart, hrest₁⟩
  refine (groupFunction_mirrors hrest₁).bind ?_
  rintro ⟨first, rest₂, h₂⟩ ⟨first', rest₂', h₂'⟩ ⟨hfirst, hrest₂⟩
  refine (groupFunctionsAfter_mirrors hrest₂).bind ?_
  rintro ⟨more, rest₃, h₃⟩ ⟨more', rest₃', h₃'⟩ ⟨hmore, hrest₃⟩
  refine (expect_mirrors hrest₃).bind ?_
  rintro ⟨_, rest₄, h₄⟩ ⟨_, rest₄', h₄'⟩ ⟨-, hrest₄⟩
  refine (expression_mirrors hrest₄).bind ?_
  rintro ⟨body, rest₅, h₅⟩ ⟨body', rest₅', h₅'⟩ ⟨hbody, hrest₅⟩
  exact .pure ⟨.letRec (Mark.mirrors_at hstart.position) (.cons hfirst hmore) hbody, hrest₅⟩
termination_by 10 * tokens.length
decreasing_by all_goals omega

theorem groupFunction_mirrors {tokens tokens' : List Token}
    (h : TokensMirror R tokens tokens') :
    ReadsAlike R stop stop' (Mirrors Eq R) (groupFunction stop tokens)
      (groupFunction stop' tokens') := by
  rw [groupFunction, groupFunction]
  refine (expect_mirrors h).bind ?_
  rintro ⟨f, rest₁, h₁⟩ ⟨f', rest₁', h₁'⟩ ⟨hf, hrest₁⟩
  refine (groupParameter_mirrors hrest₁).bind ?_
  rintro ⟨⟨x, parameterAscription⟩, rest₂, h₂⟩ ⟨_, rest₂', h₂'⟩ ⟨rfl, hrest₂⟩
  refine (optionalAscription_mirrors hrest₂).bind ?_
  rintro ⟨resultAscription, rest₃, h₃⟩ ⟨_, rest₃', h₃'⟩ ⟨rfl, hrest₃⟩
  refine (expect_mirrors hrest₃).bind ?_
  rintro ⟨_, rest₄, h₄⟩ ⟨_, rest₄', h₄'⟩ ⟨-, hrest₄⟩
  refine (expression_mirrors hrest₄).bind ?_
  rintro ⟨body, rest₅, h₅⟩ ⟨body', rest₅', h₅'⟩ ⟨hbody, hrest₅⟩
  rw [hf.text]
  exact .pure ⟨.letRecArm (Mark.mirrors_at hf.position) rfl rfl hbody, hrest₅⟩
termination_by 10 * tokens.length
decreasing_by all_goals omega

theorem groupFunctionsAfter_mirrors {tokens tokens' : List Token}
    (h : TokensMirror R tokens tokens') :
    ContinuesAlike R stop stop' (MirrorsAll Eq R) (groupFunctionsAfter stop tokens)
      (groupFunctionsAfter stop' tokens') := by
  rw [groupFunctionsAfter, groupFunctionsAfter]
  rcases skip?_mirrors (.keyword .and) h with ⟨e, e'⟩ | ⟨rest₁, rest₁', h₁, h₁', e, e', hrest₁⟩
  · rw [e, e']
    exact .pure ⟨.nil, h⟩
  · rw [e, e']
    refine (groupFunction_mirrors hrest₁).bind ?_
    rintro ⟨f, rest₂, h₂⟩ ⟨f', rest₂', h₂'⟩ ⟨hf, hrest₂⟩
    refine (groupFunctionsAfter_mirrors hrest₂).bind ?_
    rintro ⟨more, rest₃, h₃⟩ ⟨more', rest₃', h₃'⟩ ⟨hmore, hrest₃⟩
    exact .pure ⟨.cons hf hmore, hrest₃⟩
termination_by 10 * tokens.length
decreasing_by all_goals omega

theorem lambda_mirrors {tokens tokens' : List Token} (h : TokensMirror R tokens tokens') :
    ReadsAlike R stop stop' (Mirrors Eq R) (lambda stop tokens) (lambda stop' tokens') := by
  rw [lambda, lambda]
  refine (expect_mirrors h).bind ?_
  rintro ⟨start, rest₁, h₁⟩ ⟨start', rest₁', h₁'⟩ ⟨hstart, hrest₁⟩
  refine (expect_mirrors hrest₁).bind ?_
  rintro ⟨x, rest₂, h₂⟩ ⟨x', rest₂', h₂'⟩ ⟨hx, hrest₂⟩
  refine (lambdaAscription_mirrors hrest₂).bind ?_
  rintro ⟨ascription, rest₃, h₃⟩ ⟨_, rest₃', h₃'⟩ ⟨rfl, hrest₃⟩
  refine (expect_mirrors hrest₃).bind ?_
  rintro ⟨_, rest₄, h₄⟩ ⟨_, rest₄', h₄'⟩ ⟨-, hrest₄⟩
  refine (expression_mirrors hrest₄).bind ?_
  rintro ⟨body, rest₅, h₅⟩ ⟨body', rest₅', h₅'⟩ ⟨hbody, hrest₅⟩
  rw [hx.text]
  exact .pure ⟨.lambda (Mark.mirrors_at hstart.position) rfl hbody, hrest₅⟩
termination_by 10 * tokens.length
decreasing_by all_goals omega

theorem dataStatement_mirrors {tokens tokens' : List Token}
    (h : TokensMirror R tokens tokens') :
    ReadsAlike R stop stop' (Mirrors Eq R) (dataStatement stop tokens)
      (dataStatement stop' tokens') := by
  rw [dataStatement, dataStatement]
  refine (expect_mirrors h).bind ?_
  rintro ⟨start, rest₁, h₁⟩ ⟨start', rest₁', h₁'⟩ ⟨hstart, hrest₁⟩
  refine (expect_mirrors hrest₁).bind ?_
  rintro ⟨d, rest₂, h₂⟩ ⟨d', rest₂', h₂'⟩ ⟨hd, hrest₂⟩
  refine (expect_mirrors hrest₂).bind ?_
  rintro ⟨_, rest₃, h₃⟩ ⟨_, rest₃', h₃'⟩ ⟨-, hrest₃⟩
  refine (dataConstructor_mirrors hrest₃).bind ?_
  rintro ⟨first, rest₄, h₄⟩ ⟨first', rest₄', h₄'⟩ ⟨hfirst, hrest₄⟩
  refine (dataConstructorsAfter_mirrors hrest₄).bind ?_
  rintro ⟨more, rest₅, h₅⟩ ⟨more', rest₅', h₅'⟩ ⟨hmore, hrest₅⟩
  refine (expect_mirrors hrest₅).bind ?_
  rintro ⟨_, rest₆, h₆⟩ ⟨_, rest₆', h₆'⟩ ⟨-, hrest₆⟩
  refine (expression_mirrors hrest₆).bind ?_
  rintro ⟨body, rest₇, h₇⟩ ⟨body', rest₇', h₇'⟩ ⟨hbody, hrest₇⟩
  rw [hd.text]
  exact .pure ⟨.dataType (Mark.mirrors_at hstart.position) (.cons hfirst hmore) hbody, hrest₇⟩
termination_by 10 * tokens.length
decreasing_by all_goals omega

theorem conditional_mirrors {tokens tokens' : List Token}
    (h : TokensMirror R tokens tokens') :
    ReadsAlike R stop stop' (Mirrors Eq R) (conditional stop tokens)
      (conditional stop' tokens') := by
  rw [conditional, conditional]
  refine (expect_mirrors h).bind ?_
  rintro ⟨start, rest₁, h₁⟩ ⟨start', rest₁', h₁'⟩ ⟨hstart, hrest₁⟩
  refine (expression_mirrors hrest₁).bind ?_
  rintro ⟨condition, rest₂, h₂⟩ ⟨condition', rest₂', h₂'⟩ ⟨hcondition, hrest₂⟩
  refine (expect_mirrors hrest₂).bind ?_
  rintro ⟨_, rest₃, h₃⟩ ⟨_, rest₃', h₃'⟩ ⟨-, hrest₃⟩
  refine (expression_mirrors hrest₃).bind ?_
  rintro ⟨thenBranch, rest₄, h₄⟩ ⟨thenBranch', rest₄', h₄'⟩ ⟨hthen, hrest₄⟩
  refine (expect_mirrors hrest₄).bind ?_
  rintro ⟨_, rest₅, h₅⟩ ⟨_, rest₅', h₅'⟩ ⟨-, hrest₅⟩
  refine (statement_mirrors hrest₅).bind ?_
  rintro ⟨elseBranch, rest₆, h₆⟩ ⟨elseBranch', rest₆', h₆'⟩ ⟨helse, hrest₆⟩
  exact .pure ⟨.conditional (Mark.mirrors_at hstart.position) hcondition hthen helse, hrest₆⟩
termination_by 10 * tokens.length
decreasing_by all_goals omega

theorem matchStatement_mirrors {tokens tokens' : List Token}
    (h : TokensMirror R tokens tokens') :
    ReadsAlike R stop stop' (Mirrors Eq R) (matchStatement stop tokens)
      (matchStatement stop' tokens') := by
  rw [matchStatement, matchStatement]
  refine (expect_mirrors h).bind ?_
  rintro ⟨start, rest₁, h₁⟩ ⟨start', rest₁', h₁'⟩ ⟨hstart, hrest₁⟩
  refine (expression_mirrors hrest₁).bind ?_
  rintro ⟨scrutinee, rest₂, h₂⟩ ⟨scrutinee', rest₂', h₂'⟩ ⟨hscrutinee, hrest₂⟩
  refine (expect_mirrors hrest₂).bind ?_
  rintro ⟨_, rest₃, h₃⟩ ⟨_, rest₃', h₃'⟩ ⟨-, hrest₃⟩
  refine (matchArms_mirrors hrest₃).bind ?_
  rintro ⟨arms, rest₄, h₄⟩ ⟨arms', rest₄', h₄'⟩ ⟨harms, hrest₄⟩
  exact .pure ⟨.matchWith (Mark.mirrors_at hstart.position) hscrutinee harms, hrest₄⟩
termination_by 10 * tokens.length
decreasing_by all_goals omega

theorem matchArms_mirrors {tokens tokens' : List Token}
    (h : TokensMirror R tokens tokens') :
    ReadsAlike R stop stop' (MirrorsAll Eq R) (matchArms stop tokens)
      (matchArms stop' tokens') := by
  rw [matchArms, matchArms]
  refine (matchArm_mirrors h).bind ?_
  rintro ⟨arm, rest₁, h₁⟩ ⟨arm', rest₁', h₁'⟩ ⟨harm, hrest₁⟩
  dsimp only
  rcases skip?_mirrors .semicolon hrest₁ with ⟨e, e'⟩ | ⟨rest₂, rest₂', h₂, h₂', e, e', hrest₂⟩
  · rw [e, e']
    refine (expect_mirrors hrest₁).bind ?_
    rintro ⟨_, rest₂, h₂⟩ ⟨_, rest₂', h₂'⟩ ⟨-, hrest₂⟩
    exact .pure ⟨.cons harm .nil, hrest₂⟩
  · rw [e, e']
    dsimp only
    rcases skip?_mirrors .closeBrace hrest₂ with ⟨e, e'⟩ | ⟨rest₃, rest₃', h₃, h₃', e, e', hrest₃⟩
    · rw [e, e']
      refine (matchArms_mirrors hrest₂).bind ?_
      rintro ⟨more, rest₃, h₃⟩ ⟨more', rest₃', h₃'⟩ ⟨hmore, hrest₃⟩
      exact .pure ⟨.cons harm hmore, hrest₃⟩
    · rw [e, e']
      exact .pure ⟨.cons harm .nil, hrest₃⟩
termination_by 10 * tokens.length + 1
decreasing_by all_goals omega

theorem matchArm_mirrors {tokens tokens' : List Token} (h : TokensMirror R tokens tokens') :
    ReadsAlike R stop stop' (Mirrors Eq R) (matchArm stop tokens) (matchArm stop' tokens') := by
  rw [matchArm, matchArm]
  refine (pattern_mirrors h).bind ?_
  rintro ⟨p, rest₁, h₁⟩ ⟨p', rest₁', h₁'⟩ ⟨hp, hrest₁⟩
  refine (expect_mirrors hrest₁).bind ?_
  rintro ⟨_, rest₂, h₂⟩ ⟨_, rest₂', h₂'⟩ ⟨-, hrest₂⟩
  refine (statement_mirrors hrest₂).bind ?_
  rintro ⟨body, rest₃, h₃⟩ ⟨body', rest₃', h₃'⟩ ⟨hbody, hrest₃⟩
  exact .pure ⟨.matchArm (Mark.mirrors_at hp.position) hp hbody, hrest₃⟩
termination_by 10 * tokens.length
decreasing_by all_goals omega

theorem relation_mirrors {tokens tokens' : List Token} (h : TokensMirror R tokens tokens') :
    ReadsAlike R stop stop' (Mirrors Eq R) (relation stop tokens) (relation stop' tokens') := by
  rw [relation, relation]
  refine (sum_mirrors h).bind ?_
  rintro ⟨lhs, rest₁, h₁⟩ ⟨lhs', rest₁', h₁'⟩ ⟨hlhs, hrest₁⟩
  dsimp only
  rcases select?_mirrors TokenKind.comparison? hrest₁ with
    ⟨e, e'⟩ | ⟨operator, p, p', rest₂, rest₂', h₂, h₂', e, e', hp, hrest₂⟩
  · rw [e, e']
    exact .pure ⟨hlhs, hrest₁⟩
  · rw [e, e']
    refine (sum_mirrors hrest₂).bind ?_
    rintro ⟨rhs, rest₃, h₃⟩ ⟨rhs', rest₃', h₃'⟩ ⟨hrhs, hrest₃⟩
    exact .pure ⟨.binary (Mark.mirrors_at hp) hlhs hrhs, hrest₃⟩
termination_by 10 * tokens.length + 7
decreasing_by all_goals omega

theorem sum_mirrors {tokens tokens' : List Token} (h : TokensMirror R tokens tokens') :
    ReadsAlike R stop stop' (Mirrors Eq R) (sum stop tokens) (sum stop' tokens') := by
  rw [sum, sum]
  refine (product_mirrors h).bind ?_
  rintro ⟨lhs, rest₁, h₁⟩ ⟨lhs', rest₁', h₁'⟩ ⟨hlhs, hrest₁⟩
  refine (termsAfter_mirrors hlhs hrest₁).bind ?_
  rintro ⟨result, rest₂, h₂⟩ ⟨result', rest₂', h₂'⟩ ⟨hresult, hrest₂⟩
  exact .pure ⟨hresult, hrest₂⟩
termination_by 10 * tokens.length + 6
decreasing_by all_goals omega

theorem termsAfter_mirrors {tokens tokens' : List Token} {lhs lhs' : Node}
    (hlhs : Mirrors Eq R lhs lhs') (h : TokensMirror R tokens tokens') :
    ContinuesAlike R stop stop' (Mirrors Eq R) (termsAfter stop lhs tokens)
      (termsAfter stop' lhs' tokens') := by
  rw [termsAfter, termsAfter]
  rcases select?_mirrors TokenKind.termOperator? h with
    ⟨e, e'⟩ | ⟨operator, p, p', rest₁, rest₁', h₁, h₁', e, e', hp, hrest₁⟩
  · rw [e, e']
    exact .pure ⟨hlhs, h⟩
  · rw [e, e']
    refine (product_mirrors hrest₁).bind ?_
    rintro ⟨rhs, rest₂, h₂⟩ ⟨rhs', rest₂', h₂'⟩ ⟨hrhs, hrest₂⟩
    refine (termsAfter_mirrors (.binary (Mark.mirrors_at hp) hlhs hrhs) hrest₂).bind ?_
    rintro ⟨result, rest₃, h₃⟩ ⟨result', rest₃', h₃'⟩ ⟨hresult, hrest₃⟩
    exact .pure ⟨hresult, hrest₃⟩
termination_by 10 * tokens.length
decreasing_by all_goals omega

theorem product_mirrors {tokens tokens' : List Token} (h : TokensMirror R tokens tokens') :
    ReadsAlike R stop stop' (Mirrors Eq R) (product stop tokens) (product stop' tokens') := by
  rw [product, product]
  refine (negation_mirrors h).bind ?_
  rintro ⟨lhs, rest₁, h₁⟩ ⟨lhs', rest₁', h₁'⟩ ⟨hlhs, hrest₁⟩
  refine (factorsAfter_mirrors hlhs hrest₁).bind ?_
  rintro ⟨result, rest₂, h₂⟩ ⟨result', rest₂', h₂'⟩ ⟨hresult, hrest₂⟩
  exact .pure ⟨hresult, hrest₂⟩
termination_by 10 * tokens.length + 5
decreasing_by all_goals omega

theorem factorsAfter_mirrors {tokens tokens' : List Token} {lhs lhs' : Node}
    (hlhs : Mirrors Eq R lhs lhs') (h : TokensMirror R tokens tokens') :
    ContinuesAlike R stop stop' (Mirrors Eq R) (factorsAfter stop lhs tokens)
      (factorsAfter stop' lhs' tokens') := by
  rw [factorsAfter, factorsAfter]
  rcases select?_mirrors TokenKind.factorOperator? h with
    ⟨e, e'⟩ | ⟨operator, p, p', rest₁, rest₁', h₁, h₁', e, e', hp, hrest₁⟩
  · rw [e, e']
    exact .pure ⟨hlhs, h⟩
  · rw [e, e']
    refine (negation_mirrors hrest₁).bind ?_
    rintro ⟨rhs, rest₂, h₂⟩ ⟨rhs', rest₂', h₂'⟩ ⟨hrhs, hrest₂⟩
    refine (factorsAfter_mirrors (.binary (Mark.mirrors_at hp) hlhs hrhs) hrest₂).bind ?_
    rintro ⟨result, rest₃, h₃⟩ ⟨result', rest₃', h₃'⟩ ⟨hresult, hrest₃⟩
    exact .pure ⟨hresult, hrest₃⟩
termination_by 10 * tokens.length
decreasing_by all_goals omega

theorem negation_mirrors {tokens tokens' : List Token} (h : TokensMirror R tokens tokens') :
    ReadsAlike R stop stop' (Mirrors Eq R) (negation stop tokens) (negation stop' tokens') := by
  rw [negation, negation]
  rcases select?_mirrors _ h with
    ⟨e, e'⟩ | ⟨operator, p, p', rest₁, rest₁', h₁, h₁', e, e', hp, hrest₁⟩
  · rw [e, e']
    exact application_mirrors h
  · rw [e, e']
    refine (negation_mirrors hrest₁).bind ?_
    rintro ⟨operand, rest₂, h₂⟩ ⟨operand', rest₂', h₂'⟩ ⟨hoperand, hrest₂⟩
    exact .pure ⟨.unary (Mark.mirrors_at hp) hoperand, hrest₂⟩
termination_by 10 * tokens.length + 4
decreasing_by all_goals omega

theorem application_mirrors {tokens tokens' : List Token}
    (h : TokensMirror R tokens tokens') :
    ReadsAlike R stop stop' (Mirrors Eq R) (application stop tokens)
      (application stop' tokens') := by
  rw [application, application]
  refine (selection_mirrors h).bind ?_
  rintro ⟨function, rest₁, h₁⟩ ⟨function', rest₁', h₁'⟩ ⟨hfunction, hrest₁⟩
  refine (argumentsAfter_mirrors hfunction hrest₁).bind ?_
  rintro ⟨result, rest₂, h₂⟩ ⟨result', rest₂', h₂'⟩ ⟨hresult, hrest₂⟩
  exact .pure ⟨hresult, hrest₂⟩
termination_by 10 * tokens.length + 3
decreasing_by all_goals omega

theorem argumentsAfter_mirrors {tokens tokens' : List Token} {function function' : Node}
    (hfunction : Mirrors Eq R function function')
    (h : TokensMirror R tokens tokens') :
    ContinuesAlike R stop stop' (Mirrors Eq R) (argumentsAfter stop function tokens)
      (argumentsAfter stop' function' tokens') := by
  rw [argumentsAfter, argumentsAfter, nextKind?_eq h]
  split
  · refine (selection_mirrors h).bind ?_
    rintro ⟨argument, rest₁, h₁⟩ ⟨argument', rest₁', h₁'⟩ ⟨hargument, hrest₁⟩
    refine (argumentsAfter_mirrors
      (.application (Mark.mirrors_at hfunction.position) hfunction hargument) hrest₁).bind ?_
    rintro ⟨result, rest₂, h₂⟩ ⟨result', rest₂', h₂'⟩ ⟨hresult, hrest₂⟩
    exact .pure ⟨hresult, hrest₂⟩
  · exact .pure ⟨hfunction, h⟩
termination_by 10 * tokens.length + 3
decreasing_by all_goals omega

theorem selection_mirrors {tokens tokens' : List Token} (h : TokensMirror R tokens tokens') :
    ReadsAlike R stop stop' (Mirrors Eq R) (selection stop tokens) (selection stop' tokens') := by
  rw [selection, selection]
  refine (atom_mirrors h).bind ?_
  rintro ⟨target, rest₁, h₁⟩ ⟨target', rest₁', h₁'⟩ ⟨htarget, hrest₁⟩
  refine (projectionsAfter_mirrors htarget hrest₁).bind ?_
  rintro ⟨result, rest₂, h₂⟩ ⟨result', rest₂', h₂'⟩ ⟨hresult, hrest₂⟩
  exact .pure ⟨hresult, hrest₂⟩
termination_by 10 * tokens.length + 2
decreasing_by all_goals omega

theorem atom_mirrors {tokens tokens' : List Token} (h : TokensMirror R tokens tokens') :
    ReadsAlike R stop stop' (Mirrors Eq R) (atom stop tokens) (atom stop' tokens') := by
  rw [atom, atom]
  refine (next_mirrors h).bind ?_
  rintro ⟨t, rest₁, h₁⟩ ⟨t', rest₁', h₁'⟩ ⟨ht, hrest₁⟩
  have hm := Mark.mirrors_at ht.position
  dsimp only
  rw [← ht.kind, ← ht.text]
  split
  · refine (integerLiteral_mirrors ht).bind ?_
    rintro v _ rfl
    exact .pure ⟨.literal hm, hrest₁⟩
  · exact .pure ⟨.literal hm, hrest₁⟩
  · cases Builtin.ofText? t.text with
    | some b => exact .pure ⟨.builtin hm, hrest₁⟩
    | none => exact .pure ⟨.reference hm rfl, hrest₁⟩
  · exact .pure ⟨.reference hm rfl, hrest₁⟩
  · rcases skip?_mirrors .closeParen hrest₁ with ⟨e, e'⟩ | ⟨rest₂, rest₂', h₂, h₂', e, e', hrest₂⟩
    · rw [e, e']
      refine (expression_mirrors hrest₁).bind ?_
      rintro ⟨first, rest₂, h₂⟩ ⟨first', rest₂', h₂'⟩ ⟨hfirst, hrest₂⟩
      refine (expressionsAfter_mirrors hrest₂).bind ?_
      rintro ⟨more, rest₃, h₃⟩ ⟨more', rest₃', h₃'⟩ ⟨hmore, hrest₃⟩
      dsimp only
      rw [hmore.isEmpty_eq]
      split
      · refine (expect_mirrors hrest₃).bind ?_
        rintro ⟨_, rest₄, h₄⟩ ⟨_, rest₄', h₄'⟩ ⟨-, hrest₄⟩
        exact .pure ⟨hfirst, hrest₄⟩
      · refine (expect_mirrors hrest₃).bind ?_
        rintro ⟨_, rest₄, h₄⟩ ⟨_, rest₄', h₄'⟩ ⟨-, hrest₄⟩
        exact .pure ⟨.tuple hm (.cons hfirst hmore), hrest₄⟩
    · rw [e, e']
      exact .pure ⟨.literal hm, hrest₂⟩
  · exact unexpected_mirrors ht
termination_by 10 * tokens.length + 1
decreasing_by all_goals omega

theorem expressionsAfter_mirrors {tokens tokens' : List Token}
    (h : TokensMirror R tokens tokens') :
    ContinuesAlike R stop stop' (MirrorsAll Eq R) (expressionsAfter stop tokens)
      (expressionsAfter stop' tokens') := by
  rw [expressionsAfter, expressionsAfter]
  rcases skip?_mirrors .comma h with ⟨e, e'⟩ | ⟨rest₁, rest₁', h₁, h₁', e, e', hrest₁⟩
  · rw [e, e']
    exact .pure ⟨.nil, h⟩
  · rw [e, e']
    refine (expression_mirrors hrest₁).bind ?_
    rintro ⟨n, rest₂, h₂⟩ ⟨n', rest₂', h₂'⟩ ⟨hn, hrest₂⟩
    refine (expressionsAfter_mirrors hrest₂).bind ?_
    rintro ⟨more, rest₃, h₃⟩ ⟨more', rest₃', h₃'⟩ ⟨hmore, hrest₃⟩
    exact .pure ⟨.cons hn hmore, hrest₃⟩
termination_by 10 * tokens.length
decreasing_by all_goals omega

end

/-- **Texts whose tokens mirror each other give trees that do**, or end with errors that do. -/
theorem program_mirrors (h : TokensMirror R tokens tokens') :
    Together (Mirrors Eq R) (ErrorsMirror R stop stop') (program stop tokens)
      (program stop' tokens') := by
  rw [program, program]
  refine (expression_mirrors h).bind ?_
  rintro ⟨e, rest, h₁⟩ ⟨e', rest', h₁'⟩ ⟨he, hrest⟩
  cases hrest with
  | nil => exact .pure (.top (Mark.mirrors_at he.position) he)
  | cons ht _ => exact unexpected_mirrors ht

end Parser

end ClosureML
