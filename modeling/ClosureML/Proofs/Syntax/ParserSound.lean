import ClosureML.Proofs.Syntax.Spelling

/-!
# What the parser reads is spelled

Every phrase that the parser gives is spelled by the tokens that it has taken, and what stops the
parser is an error of syntax.

* `Gives`: what was read has a property, and what could not be read is an error of syntax;
* `Parsed.Spelled`, `Trailing.Spelled`: the tokens that were taken spell what was read;
* `Trailing.Extends`: the phrases that follow make a list with the phrase before them.

Main statement: `Parser.program_spelled`.
-/

namespace ClosureML

namespace Parser

/-! ## 1. Phrases and the tokens in front of the rest -/

section

variable {α β : Type} {tokens rest : List Token}

/-- A computation gives something with a property, or ends with an error of syntax. -/
def Gives (p : α → Prop) : Except CompileError α → Prop
  | .ok a => p a
  | .error e => e.cause.kind = .syntaxError

theorem Gives.ok {p : α → Prop} {a : α} (h : p a) : Gives p (.ok a) := h

theorem Gives.pure {p : α → Prop} {a : α} (h : p a) : Gives p (pure a) := h

theorem Gives.error {p : α → Prop} {e : CompileError} (h : e.cause.kind = .syntaxError) :
    Gives p (.error e) := h

theorem Gives.imp {p q : α → Prop} {x : Except CompileError α} (hx : Gives p x)
    (hpq : ∀ a, p a → q a) : Gives q x := by
  cases x with
  | ok a => exact hpq a hx
  | error e => exact hx

theorem Gives.bind {p : α → Prop} {q : β → Prop} {x : Except CompileError α}
    {f : α → Except CompileError β} (hx : Gives p x) (hf : ∀ a, p a → Gives q (f a)) :
    Gives q (x >>= f) := by
  cases x with
  | ok a => exact hf a hx
  | error e => exact hx

/-- The tokens in front of the rest spell the phrase. -/
def Parsed.Spelled (S : List Token → α → Prop) (r : Parsed α tokens) : Prop :=
  ∃ ts, tokens = ts ++ r.rest ∧ S ts r.value

/-- The tokens in front of the rest spell what follows a phrase. -/
def Trailing.Spelled (S : List Token → α → Prop) (r : Trailing α tokens) : Prop :=
  ∃ ts, tokens = ts ++ r.rest ∧ S ts r.value

/-- With a phrase before them, the tokens in front of the rest spell a list of phrases. -/
def Trailing.Extends (one : List Token → α → Prop) (all : List Token → List α → Prop)
    (r : Trailing (List α) tokens) : Prop :=
  r.Spelled fun us more => ∀ {ts a}, one ts a → all (ts ++ us) (a :: more)

theorem Trailing.nothing_spelled {S : List Token → α → Prop} {a : α} (h : S [] a) :
    (Trailing.nothing a tokens).Spelled S := ⟨[], rfl, h⟩

theorem Trailing.nothing_extends {one : List Token → α → Prop} {all : List Token → List α → Prop}
    (h : ∀ {ts a}, one ts a → all ts [a]) : (Trailing.nothing [] tokens).Extends one all :=
  Trailing.nothing_spelled fun hone => (List.append_nil _).symm ▸ h hone

theorem skip?_eq_some {kind : TokenKind}
    {r : { rest : List Token // rest.length < tokens.length }} (h : skip? kind tokens = some r) :
    ∃ t, tokens = t :: r.1 ∧ t.kind = kind := by
  cases tokens with
  | nil => cases h
  | cons t rest =>
    rw [skip?] at h
    split at h
    · next hk =>
      cases h
      exact ⟨t, rfl, hk⟩
    · cases h

theorem select?_eq_some {f : TokenKind → Option α} {r : Parsed (α × Position) tokens}
    (h : select? f tokens = some r) : ∃ t, tokens = t :: r.rest ∧ f t.kind = some r.value.1 := by
  cases tokens with
  | nil => cases h
  | cons t rest =>
    obtain ⟨a, ha, rfl⟩ := Option.map_eq_some_iff.1 h
    exact ⟨t, rfl, ha⟩

theorem next_gives {stop : Position} {expected : Expected} :
    Gives (fun r => tokens = r.value :: r.rest) (next stop expected tokens) := by
  cases tokens with
  | nil => exact .error rfl
  | cons t rest => exact .ok rfl

theorem expect_gives {stop : Position} {kind : TokenKind} {expected : Expected} :
    Gives (fun r => tokens = r.value :: r.rest ∧ r.value.kind = kind)
      (expect stop kind expected tokens) := by
  cases tokens with
  | nil => exact .error rfl
  | cons t rest =>
    rw [expect]
    split
    · next h => exact .ok ⟨rfl, h⟩
    · exact .error rfl

theorem integerLiteral_gives {t : Token} {negative : Bool} :
    Gives (fun v => integerLiteral t negative = .ok v) (integerLiteral t negative) := by
  cases h : integerLiteral t negative with
  | ok v => exact .ok rfl
  | error e =>
    unfold integerLiteral at h
    dsimp only at h
    split at h <;> split at h <;> cases h <;> exact .error rfl

theorem tupleIndex_gives {t : Token} :
    Gives (fun i => tupleIndex t = .ok i) (tupleIndex t) := by
  cases h : tupleIndex t with
  | ok i => exact .ok rfl
  | error e =>
    unfold tupleIndex at h
    dsimp only at h
    split at h <;> cases h
    exact .error rfl

end

variable {stop : Position}

/-! ## 2. Types -/

mutual

theorem type_gives (tokens : List Token) :
    Gives (Parsed.Spelled SpellsType) (type stop tokens) := by
  rw [type]
  refine (typeAtom_gives tokens).bind ?_
  rintro ⟨parameter, rest₁, h₁⟩ ⟨ts, e₁, hparameter⟩
  dsimp only
  split
  · exact .pure ⟨ts, e₁, .atom hparameter⟩
  · next rest₂ h₂ hskip =>
    obtain ⟨arrow, e₂, harrow⟩ := skip?_eq_some hskip
    refine (type_gives rest₂).bind ?_
    rintro ⟨result, rest₃, h₃⟩ ⟨us, e₃, hresult⟩
    exact .pure ⟨_, by simp [e₁, e₂, e₃], .function hparameter harrow hresult⟩
termination_by 2 * tokens.length + 1

theorem typeAtom_gives (tokens : List Token) :
    Gives (Parsed.Spelled SpellsTypeAtom) (typeAtom stop tokens) := by
  rw [typeAtom]
  refine next_gives.bind ?_
  rintro ⟨t, rest₁, h₁⟩ e₁
  dsimp only
  split
  · next hk =>
    split
    · next b hb => exact .pure ⟨[t], e₁, .base hk hb⟩
    · exact .error rfl
  · next hk => exact .pure ⟨[t], e₁, .named hk⟩
  · next hk =>
    split
    · next rest₂ h₂ hskip =>
      obtain ⟨r, e₂, hr⟩ := skip?_eq_some hskip
      exact .pure ⟨[t, r], by simp [e₁, e₂], .unit hk hr⟩
    · refine (type_gives rest₁).bind ?_
      rintro ⟨first, rest₂, h₂⟩ ⟨ts, e₂, hfirst⟩
      refine (typesAfter_gives rest₂).bind ?_
      rintro ⟨more, rest₃, h₃⟩ ⟨us, e₃, hmore⟩
      dsimp only
      split
      · next hempty =>
        refine expect_gives.bind ?_
        rintro ⟨r, rest₄, h₄⟩ ⟨e₄, hr⟩
        cases List.isEmpty_iff.1 hempty
        exact .pure ⟨_, by simp [e₁, e₂, e₃, e₄], .parentheses hk (hmore hfirst) hr⟩
      · next hempty =>
        refine expect_gives.bind ?_
        rintro ⟨r, rest₄, h₄⟩ ⟨e₄, hr⟩
        obtain ⟨second, more, rfl⟩ := List.ne_nil_iff_exists_cons.1 (mt List.isEmpty_iff.2 hempty)
        exact .pure ⟨_, by simp [e₁, e₂, e₃, e₄], .tuple hk (hmore hfirst) hr⟩
  · exact .error rfl
termination_by 2 * tokens.length

theorem typesAfter_gives (tokens : List Token) :
    Gives (Trailing.Extends SpellsType SpellsTypes) (typesAfter stop tokens) := by
  rw [typesAfter]
  split
  · exact .pure (Trailing.nothing_extends .one)
  · next rest₁ h₁ hskip =>
    obtain ⟨comma, e₁, hcomma⟩ := skip?_eq_some hskip
    refine (type_gives rest₁).bind ?_
    rintro ⟨t, rest₂, h₂⟩ ⟨ts, e₂, ht⟩
    refine (typesAfter_gives rest₂).bind ?_
    rintro ⟨more, rest₃, h₃⟩ ⟨us, e₃, hmore⟩
    exact .pure ⟨comma :: (ts ++ us), by simp [e₁, e₂, e₃],
      fun hfirst => .more hfirst hcomma (hmore ht)⟩
termination_by 2 * tokens.length

end

/-- What is left behind two phrases is not longer than what was there before them. -/
theorem length_le_of_lt_of_lt {ts us vs : List Token} (h : us.length < ts.length)
    (h' : vs.length < us.length) : vs.length ≤ ts.length := by
  omega

theorem ascription_gives {S : List Token → TypeExpr → Prop}
    {read : (tokens : List Token) → Reads TypeExpr tokens}
    (hread : ∀ tokens, Gives (Parsed.Spelled S) (read tokens)) (tokens : List Token) :
    Gives (Trailing.Spelled (SpellsAscription S)) (match skip? .colon tokens with
      | none => return .nothing none tokens
      | some ⟨rest₁, h₁⟩ => do
        let ⟨t, rest₂, h₂⟩ ← read rest₁
        return ⟨some t, rest₂, length_le_of_lt_of_lt h₁ h₂⟩) := by
  split
  · exact .pure (Trailing.nothing_spelled .absent)
  · next rest₁ h₁ hskip =>
    obtain ⟨colon, e₁, hcolon⟩ := skip?_eq_some hskip
    refine (hread rest₁).bind ?_
    rintro ⟨t, rest₂, h₂⟩ ⟨ts, e₂, ht⟩
    exact .pure ⟨colon :: ts, by simp [e₁, e₂], .present hcolon ht⟩

theorem optionalAscription_gives (tokens : List Token) :
    Gives (Trailing.Spelled (SpellsAscription SpellsType)) (optionalAscription stop tokens) :=
  ascription_gives type_gives tokens

theorem lambdaAscription_gives (tokens : List Token) :
    Gives (Trailing.Spelled (SpellsAscription SpellsTypeAtom)) (lambdaAscription stop tokens) :=
  ascription_gives typeAtom_gives tokens

/-! ## 3. Patterns -/

mutual

theorem pattern_gives (tokens : List Token) :
    Gives (Parsed.Spelled SpellsPattern) (pattern stop tokens) := by
  rw [pattern]
  refine next_gives.bind ?_
  rintro ⟨t, rest₁, h₁⟩ e₁
  dsimp only
  split
  · next hk => exact .pure ⟨[t], e₁, .binder hk⟩
  · next hk =>
    refine integerLiteral_gives.bind fun v hv => ?_
    exact .pure ⟨[t], e₁, .integer hk hv⟩
  · next hk =>
    refine expect_gives.bind ?_
    rintro ⟨digits, rest₂, h₂⟩ ⟨e₂, hdigits⟩
    refine integerLiteral_gives.bind fun v hv => ?_
    exact .pure ⟨[t, digits], by simp [e₁, e₂], .negative hk hdigits hv⟩
  · next hk => exact .pure ⟨[t], e₁, .boolean hk⟩
  · next hk =>
    split
    · exact .pure ⟨[t], e₁, .constant hk⟩
    · next rest₂ h₂ hskip =>
      obtain ⟨l, e₂, hl⟩ := skip?_eq_some hskip
      refine (pattern_gives rest₂).bind ?_
      rintro ⟨first, rest₃, h₃⟩ ⟨ts, e₃, hfirst⟩
      refine (patternsAfter_gives rest₃).bind ?_
      rintro ⟨more, rest₄, h₄⟩ ⟨us, e₄, hmore⟩
      refine expect_gives.bind ?_
      rintro ⟨r, rest₅, h₅⟩ ⟨(e₅ : rest₄ = r :: rest₅), hr⟩
      exact .pure ⟨_, by simp [e₁, e₂, e₃, e₄, e₅], .constructor hk hl (hmore hfirst) hr⟩
  · next hk =>
    split
    · next rest₂ h₂ hskip =>
      obtain ⟨r, e₂, hr⟩ := skip?_eq_some hskip
      exact .pure ⟨[t, r], by simp [e₁, e₂], .unit hk hr⟩
    · refine (pattern_gives rest₁).bind ?_
      rintro ⟨first, rest₂, h₂⟩ ⟨ts, e₂, hfirst⟩
      refine (patternsAfter_gives rest₂).bind ?_
      rintro ⟨more, rest₃, h₃⟩ ⟨us, e₃, hmore⟩
      dsimp only
      split
      · next hempty =>
        refine expect_gives.bind ?_
        rintro ⟨r, rest₄, h₄⟩ ⟨e₄, hr⟩
        cases List.isEmpty_iff.1 hempty
        exact .pure ⟨_, by simp [e₁, e₂, e₃, e₄], .parentheses hk (hmore hfirst) hr⟩
      · next hempty =>
        refine expect_gives.bind ?_
        rintro ⟨r, rest₄, h₄⟩ ⟨e₄, hr⟩
        obtain ⟨second, more, rfl⟩ := List.ne_nil_iff_exists_cons.1 (mt List.isEmpty_iff.2 hempty)
        exact .pure ⟨_, by simp [e₁, e₂, e₃, e₄], .tuple hk (hmore hfirst) hr⟩
  · exact .error rfl
termination_by tokens.length

theorem patternsAfter_gives (tokens : List Token) :
    Gives (Trailing.Extends SpellsPattern SpellsPatterns) (patternsAfter stop tokens) := by
  rw [patternsAfter]
  split
  · exact .pure (Trailing.nothing_extends .one)
  · next rest₁ h₁ hskip =>
    obtain ⟨comma, e₁, hcomma⟩ := skip?_eq_some hskip
    refine (pattern_gives rest₁).bind ?_
    rintro ⟨p, rest₂, h₂⟩ ⟨ts, e₂, hp⟩
    refine (patternsAfter_gives rest₂).bind ?_
    rintro ⟨more, rest₃, h₃⟩ ⟨us, e₃, hmore⟩
    exact .pure ⟨comma :: (ts ++ us), by simp [e₁, e₂, e₃],
      fun hfirst => .more hfirst hcomma (hmore hp)⟩
termination_by tokens.length

end

/-! ## 4. Parts of declarations -/

theorem dataConstructor_gives (tokens : List Token) :
    Gives (Parsed.Spelled SpellsConstructor) (dataConstructor stop tokens) := by
  rw [dataConstructor]
  refine expect_gives.bind ?_
  rintro ⟨t, rest₁, h₁⟩ ⟨e₁, hk⟩
  dsimp only
  split
  · exact .pure ⟨[t], e₁, .constant hk⟩
  · next rest₂ h₂ hskip =>
    obtain ⟨l, e₂, hl⟩ := skip?_eq_some hskip
    refine (type_gives rest₂).bind ?_
    rintro ⟨first, rest₃, h₃⟩ ⟨ts, e₃, hfirst⟩
    refine (typesAfter_gives rest₃).bind ?_
    rintro ⟨more, rest₄, h₄⟩ ⟨us, e₄, hmore⟩
    refine expect_gives.bind ?_
    rintro ⟨r, rest₅, h₅⟩ ⟨(e₅ : rest₄ = r :: rest₅), hr⟩
    exact .pure ⟨_, by simp [e₁, e₂, e₃, e₄, e₅], .parameters hk hl (hmore hfirst) hr⟩

theorem dataConstructorsAfter_gives (tokens : List Token) :
    Gives (Trailing.Extends SpellsConstructor SpellsConstructors)
      (dataConstructorsAfter stop tokens) := by
  rw [dataConstructorsAfter]
  split
  · exact .pure (Trailing.nothing_extends .one)
  · next rest₁ h₁ hskip =>
    obtain ⟨bar, e₁, hbar⟩ := skip?_eq_some hskip
    refine (dataConstructor_gives rest₁).bind ?_
    rintro ⟨c, rest₂, h₂⟩ ⟨ts, e₂, hc⟩
    refine (dataConstructorsAfter_gives rest₂).bind ?_
    rintro ⟨more, rest₃, h₃⟩ ⟨us, e₃, hmore⟩
    exact .pure ⟨bar :: (ts ++ us), by simp [e₁, e₂, e₃],
      fun hfirst => .more hfirst hbar (hmore hc)⟩
termination_by tokens.length

theorem groupParameter_gives (tokens : List Token) :
    Gives (Parsed.Spelled SpellsParameter) (groupParameter stop tokens) := by
  rw [groupParameter]
  split
  · refine expect_gives.bind ?_
    rintro ⟨x, rest₁, h₁⟩ ⟨e₁, hx⟩
    exact .pure ⟨[x], e₁, .name hx⟩
  · next rest₁ h₁ hskip =>
    obtain ⟨l, e₁, hl⟩ := skip?_eq_some hskip
    refine expect_gives.bind ?_
    rintro ⟨x, rest₂, h₂⟩ ⟨e₂, hx⟩
    refine expect_gives.bind ?_
    rintro ⟨colon, rest₃, h₃⟩ ⟨e₃, hcolon⟩
    refine (type_gives rest₃).bind ?_
    rintro ⟨t, rest₄, h₄⟩ ⟨ts, e₄, ht⟩
    refine expect_gives.bind ?_
    rintro ⟨r, rest₅, h₅⟩ ⟨e₅, hr⟩
    exact .pure ⟨_, by simp [e₁, e₂, e₃, e₄, e₅], .typed hl hx hcolon ht hr⟩

theorem projectionsAfter_gives {target : Node} {us : List Token} (tokens : List Token)
    (h : SpellsSelection us target) :
    Gives (Trailing.Spelled fun ts n => SpellsSelection (us ++ ts) n)
      (projectionsAfter stop target tokens) := by
  rw [projectionsAfter]
  split
  · exact .pure (Trailing.nothing_spelled (by rwa [List.append_nil]))
  · next p rest₁ h₁ hselect =>
    obtain ⟨dot, e₁, hdot⟩ := select?_eq_some hselect
    have hdot : dot.kind = .dot := by simpa using hdot
    refine expect_gives.bind ?_
    rintro ⟨index, rest₂, h₂⟩ ⟨e₂, hindex⟩
    refine tupleIndex_gives.bind fun i hi => ?_
    refine (projectionsAfter_gives rest₂ (.projection h hdot hindex hi)).bind ?_
    rintro ⟨result, rest₃, h₃⟩ ⟨ts, e₃, hresult⟩
    exact .pure ⟨dot :: index :: ts, by simp [e₁, e₂, e₃], by simpa using hresult⟩
termination_by tokens.length

/-! ## 5. Expressions

A statement that is not closed has taken in all statements behind it, so no semicolon follows it. -/

/-- The tokens in front of the rest spell a statement, and a closed one if a semicolon is next. -/
def Parsed.SpelledStatement {tokens : List Token} (r : Parsed Node tokens) : Prop :=
  r.Spelled fun ts n =>
    SpellsClosed ts n ∨ SpellsStatement ts n ∧ skip? .semicolon r.rest = none

theorem Parsed.SpelledStatement.statement {ts rest : List Token} {n : Node}
    (h : SpellsClosed ts n ∨ SpellsStatement ts n ∧ skip? .semicolon rest = none) :
    SpellsStatement ts n := h.elim .closed And.left

/-- The tokens in front of the rest spell an arm, with a closed body if a semicolon is next. -/
def Parsed.SpelledArm {tokens : List Token} (r : Parsed Node tokens) : Prop :=
  r.Spelled fun ts arm => ∃ q p body us arrow vs, arm = .matchArm (.at q) p body ∧
    ts = us ++ arrow :: vs ∧ SpellsPattern us p ∧ arrow.kind = .arrow ∧
      (SpellsClosed vs body ∨ SpellsStatement vs body ∧ skip? .semicolon r.rest = none)

mutual

theorem expression_gives (tokens : List Token) :
    Gives (fun r => r.Spelled SpellsExpression ∧ skip? .semicolon r.rest = none)
      (expression stop tokens) := by
  rw [expression]
  refine (statement_gives tokens).bind ?_
  rintro ⟨first, rest₁, h₁⟩ ⟨ts, e₁, hfirst⟩
  refine (statementsAfter_gives rest₁).bind ?_
  rintro ⟨more, rest₂, h₂⟩ ⟨⟨us, e₂, hmore⟩, hend⟩
  have hall : SpellsStatements (ts ++ us) (first :: more) := hmore hfirst
  dsimp only
  split
  · next hempty =>
    cases List.isEmpty_iff.1 hempty
    exact .pure ⟨⟨_, by simp [e₁, e₂], .statement hall⟩, hend⟩
  · next hempty =>
    obtain ⟨second, more, rfl⟩ := List.ne_nil_iff_exists_cons.1 (mt List.isEmpty_iff.2 hempty)
    exact .pure ⟨⟨_, by simp [e₁, e₂], .sequence hall⟩, hend⟩
termination_by 10 * tokens.length + 9

theorem statementsAfter_gives (tokens : List Token) :
    Gives (fun r => r.Extends (fun ts n => SpellsClosed ts n ∨
        SpellsStatement ts n ∧ skip? .semicolon tokens = none) SpellsStatements ∧
      skip? .semicolon r.rest = none) (statementsAfter stop tokens) := by
  rw [statementsAfter]
  split
  · next hskip =>
    exact .pure ⟨Trailing.nothing_extends fun h => .one (Parsed.SpelledStatement.statement h),
      hskip⟩
  · next rest₁ h₁ hskip =>
    obtain ⟨semicolon, e₁, hsemicolon⟩ := skip?_eq_some hskip
    refine (statement_gives rest₁).bind ?_
    rintro ⟨s, rest₂, h₂⟩ ⟨ts, e₂, hs⟩
    refine (statementsAfter_gives rest₂).bind ?_
    rintro ⟨more, rest₃, h₃⟩ ⟨⟨us, e₃, hmore⟩, hend⟩
    refine .pure ⟨⟨semicolon :: (ts ++ us), by simp [e₁, e₂, e₃], ?_⟩, hend⟩
    rintro vs n (hn | ⟨-, hnone⟩)
    · exact .more hn hsemicolon (hmore hs)
    · cases hskip.symm.trans hnone
termination_by 10 * tokens.length

theorem statement_gives (tokens : List Token) :
    Gives Parsed.SpelledStatement (statement stop tokens) := by
  rw [statement]
  split
  · exact letStatement_gives tokens
  · exact letRecStatement_gives tokens
  · exact dataStatement_gives tokens
  · exact conditional_gives tokens
  · exact (matchStatement_gives tokens).imp fun r ⟨ts, e, h⟩ => ⟨ts, e, .inl h⟩
  · exact lambda_gives tokens
  · exact (relation_gives tokens).imp fun r ⟨ts, e, h⟩ => ⟨ts, e, .inl (.relation h)⟩
termination_by 10 * tokens.length + 8

theorem letStatement_gives (tokens : List Token) :
    Gives Parsed.SpelledStatement (letStatement stop tokens) := by
  rw [letStatement]
  refine expect_gives.bind ?_
  rintro ⟨start, rest₁, h₁⟩ ⟨e₁, hstart⟩
  refine expect_gives.bind ?_
  rintro ⟨x, rest₂, h₂⟩ ⟨e₂, hx⟩
  refine (optionalAscription_gives rest₂).bind ?_
  rintro ⟨ascription, rest₃, h₃⟩ ⟨ts, e₃, hascription⟩
  refine expect_gives.bind ?_
  rintro ⟨equals, rest₄, h₄⟩ ⟨e₄, hequals⟩
  refine (expression_gives rest₄).bind ?_
  rintro ⟨value, rest₅, h₅⟩ ⟨⟨us, e₅, hvalue⟩, -⟩
  refine expect_gives.bind ?_
  rintro ⟨inBody, rest₆, h₆⟩ ⟨e₆, hinBody⟩
  refine (expression_gives rest₆).bind ?_
  rintro ⟨body, rest₇, h₇⟩ ⟨⟨vs, e₇, hbody⟩, hend⟩
  exact .pure ⟨_, by simp [e₁, e₂, e₃, e₄, e₅, e₆, e₇],
    .inr ⟨.letIn hstart hx hascription hequals hvalue hinBody hbody, hend⟩⟩
termination_by 10 * tokens.length

theorem letRecStatement_gives (tokens : List Token) :
    Gives Parsed.SpelledStatement (letRecStatement stop tokens) := by
  rw [letRecStatement]
  refine expect_gives.bind ?_
  rintro ⟨start, rest₁, h₁⟩ ⟨e₁, hstart⟩
  refine (groupFunction_gives rest₁).bind ?_
  rintro ⟨first, rest₂, h₂⟩ ⟨ts, e₂, hfirst⟩
  refine (groupFunctionsAfter_gives rest₂).bind ?_
  rintro ⟨more, rest₃, h₃⟩ ⟨us, e₃, hmore⟩
  refine expect_gives.bind ?_
  rintro ⟨inBody, rest₄, h₄⟩ ⟨e₄, hinBody⟩
  refine (expression_gives rest₄).bind ?_
  rintro ⟨body, rest₅, h₅⟩ ⟨⟨vs, e₅, hbody⟩, hend⟩
  exact .pure ⟨_, by simp [e₁, e₂, e₃, e₄, e₅],
    .inr ⟨.letRec hstart (hmore hfirst) hinBody hbody, hend⟩⟩
termination_by 10 * tokens.length

theorem groupFunction_gives (tokens : List Token) :
    Gives (Parsed.Spelled SpellsFunction) (groupFunction stop tokens) := by
  rw [groupFunction]
  refine expect_gives.bind ?_
  rintro ⟨f, rest₁, h₁⟩ ⟨e₁, hf⟩
  refine (groupParameter_gives rest₁).bind ?_
  rintro ⟨⟨x, parameterAscription⟩, rest₂, h₂⟩ ⟨ts, e₂, hx⟩
  refine (optionalAscription_gives rest₂).bind ?_
  rintro ⟨resultAscription, rest₃, h₃⟩ ⟨us, e₃, hresult⟩
  refine expect_gives.bind ?_
  rintro ⟨equals, rest₄, h₄⟩ ⟨e₄, hequals⟩
  refine (expression_gives rest₄).bind ?_
  rintro ⟨body, rest₅, h₅⟩ ⟨⟨vs, e₅, hbody⟩, -⟩
  exact .pure ⟨_, by simp [e₁, e₂, e₃, e₄, e₅], .mk hf hx hresult hequals hbody⟩
termination_by 10 * tokens.length

theorem groupFunctionsAfter_gives (tokens : List Token) :
    Gives (Trailing.Extends SpellsFunction SpellsFunctions) (groupFunctionsAfter stop tokens) := by
  rw [groupFunctionsAfter]
  split
  · exact .pure (Trailing.nothing_extends .one)
  · next rest₁ h₁ hskip =>
    obtain ⟨and, e₁, hand⟩ := skip?_eq_some hskip
    refine (groupFunction_gives rest₁).bind ?_
    rintro ⟨f, rest₂, h₂⟩ ⟨ts, e₂, hf⟩
    refine (groupFunctionsAfter_gives rest₂).bind ?_
    rintro ⟨more, rest₃, h₃⟩ ⟨us, e₃, hmore⟩
    exact .pure ⟨and :: (ts ++ us), by simp [e₁, e₂, e₃],
      fun hfirst => .more hfirst hand (hmore hf)⟩
termination_by 10 * tokens.length

theorem lambda_gives (tokens : List Token) :
    Gives Parsed.SpelledStatement (lambda stop tokens) := by
  rw [lambda]
  refine expect_gives.bind ?_
  rintro ⟨start, rest₁, h₁⟩ ⟨e₁, hstart⟩
  refine expect_gives.bind ?_
  rintro ⟨x, rest₂, h₂⟩ ⟨e₂, hx⟩
  refine (lambdaAscription_gives rest₂).bind ?_
  rintro ⟨ascription, rest₃, h₃⟩ ⟨ts, e₃, hascription⟩
  refine expect_gives.bind ?_
  rintro ⟨arrow, rest₄, h₄⟩ ⟨e₄, harrow⟩
  refine (expression_gives rest₄).bind ?_
  rintro ⟨body, rest₅, h₅⟩ ⟨⟨us, e₅, hbody⟩, hend⟩
  exact .pure ⟨_, by simp [e₁, e₂, e₃, e₄, e₅],
    .inr ⟨.lambda hstart hx hascription harrow hbody, hend⟩⟩
termination_by 10 * tokens.length

theorem dataStatement_gives (tokens : List Token) :
    Gives Parsed.SpelledStatement (dataStatement stop tokens) := by
  rw [dataStatement]
  refine expect_gives.bind ?_
  rintro ⟨start, rest₁, h₁⟩ ⟨e₁, hstart⟩
  refine expect_gives.bind ?_
  rintro ⟨d, rest₂, h₂⟩ ⟨e₂, hd⟩
  refine expect_gives.bind ?_
  rintro ⟨equals, rest₃, h₃⟩ ⟨e₃, hequals⟩
  refine (dataConstructor_gives rest₃).bind ?_
  rintro ⟨first, rest₄, h₄⟩ ⟨ts, e₄, hfirst⟩
  refine (dataConstructorsAfter_gives rest₄).bind ?_
  rintro ⟨more, rest₅, h₅⟩ ⟨us, e₅, hmore⟩
  refine expect_gives.bind ?_
  rintro ⟨inBody, rest₆, h₆⟩ ⟨e₆, hinBody⟩
  refine (expression_gives rest₆).bind ?_
  rintro ⟨body, rest₇, h₇⟩ ⟨⟨vs, e₇, hbody⟩, hend⟩
  exact .pure ⟨_, by simp [e₁, e₂, e₃, e₄, e₅, e₆, e₇],
    .inr ⟨.dataType hstart hd hequals (hmore hfirst) hinBody hbody, hend⟩⟩
termination_by 10 * tokens.length

theorem conditional_gives (tokens : List Token) :
    Gives Parsed.SpelledStatement (conditional stop tokens) := by
  rw [conditional]
  refine expect_gives.bind ?_
  rintro ⟨start, rest₁, h₁⟩ ⟨e₁, hstart⟩
  refine (expression_gives rest₁).bind ?_
  rintro ⟨condition, rest₂, h₂⟩ ⟨⟨ts, e₂, hcondition⟩, -⟩
  refine expect_gives.bind ?_
  rintro ⟨thenSign, rest₃, h₃⟩ ⟨e₃, hthenSign⟩
  refine (expression_gives rest₃).bind ?_
  rintro ⟨thenBranch, rest₄, h₄⟩ ⟨⟨us, e₄, hthen⟩, -⟩
  refine expect_gives.bind ?_
  rintro ⟨elseSign, rest₅, h₅⟩ ⟨e₅, helseSign⟩
  refine (statement_gives rest₅).bind ?_
  rintro ⟨elseBranch, rest₆, h₆⟩ ⟨vs, e₆, helse⟩
  refine .pure ⟨start :: (ts ++ thenSign :: (us ++ elseSign :: vs)),
    by simp [e₁, e₂, e₃, e₄, e₅, e₆], ?_⟩
  -- a conditional is closed if its last branch is
  exact helse.imp (.conditional hstart hcondition hthenSign hthen helseSign)
    (And.imp_left (.conditional hstart hcondition hthenSign hthen helseSign))
termination_by 10 * tokens.length

theorem matchStatement_gives (tokens : List Token) :
    Gives (Parsed.Spelled SpellsClosed) (matchStatement stop tokens) := by
  rw [matchStatement]
  refine expect_gives.bind ?_
  rintro ⟨start, rest₁, h₁⟩ ⟨e₁, hstart⟩
  refine (expression_gives rest₁).bind ?_
  rintro ⟨scrutinee, rest₂, h₂⟩ ⟨⟨ts, e₂, hscrutinee⟩, -⟩
  refine expect_gives.bind ?_
  rintro ⟨l, rest₃, h₃⟩ ⟨e₃, hl⟩
  refine (matchArms_gives rest₃).bind ?_
  rintro ⟨arms, rest₄, h₄⟩ ⟨_, e₄, us, r, rfl, harms, hr⟩
  exact .pure ⟨_, by simp [e₁, e₂, e₃, e₄], .matchWith hstart hscrutinee hl harms hr⟩
termination_by 10 * tokens.length

theorem matchArms_gives (tokens : List Token) :
    Gives (Parsed.Spelled fun ts arms =>
        ∃ us r, ts = us ++ [r] ∧ SpellsArms us arms ∧ r.kind = .closeBrace)
      (matchArms stop tokens) := by
  rw [matchArms]
  refine (matchArm_gives tokens).bind ?_
  rintro ⟨_, rest₁, h₁⟩ ⟨_, e₁, q, p, body, ts, arrow, us, rfl, rfl, hp, harrow, hbody⟩
  dsimp only
  split
  · refine expect_gives.bind ?_
    rintro ⟨r, rest₂, h₂⟩ ⟨e₂, hr⟩
    exact .pure ⟨_, by simp [e₁, e₂], _, r, rfl,
      .one hp harrow (Parsed.SpelledStatement.statement hbody), hr⟩
  · next rest₂ h₂ hskip =>
    obtain ⟨semicolon, e₂, hsemicolon⟩ := skip?_eq_some hskip
    obtain hbody | ⟨-, hnone⟩ := hbody
    · split
      · next rest₃ h₃ hskip' =>
        obtain ⟨r, e₃, hr⟩ := skip?_eq_some hskip'
        exact .pure ⟨_, by simp [e₁, e₂, e₃], _, r, rfl, .trailing hp harrow hbody hsemicolon, hr⟩
      · refine (matchArms_gives rest₂).bind ?_
        rintro ⟨more, rest₃, h₃⟩ ⟨_, e₃, vs, r, rfl, hmore, hr⟩
        exact .pure ⟨_, by simp [e₁, e₂, e₃], _, r, rfl,
          .more hp harrow hbody hsemicolon hmore, hr⟩
    · cases hskip.symm.trans hnone
termination_by 10 * tokens.length + 1

theorem matchArm_gives (tokens : List Token) :
    Gives Parsed.SpelledArm (matchArm stop tokens) := by
  rw [matchArm]
  refine (pattern_gives tokens).bind ?_
  rintro ⟨p, rest₁, h₁⟩ ⟨ts, e₁, hp⟩
  refine expect_gives.bind ?_
  rintro ⟨arrow, rest₂, h₂⟩ ⟨e₂, harrow⟩
  refine (statement_gives rest₂).bind ?_
  rintro ⟨body, rest₃, h₃⟩ ⟨us, e₃, hbody⟩
  exact .pure ⟨_, by simp [e₁, e₂, e₃], _, p, body, ts, arrow, us, rfl, rfl, hp, harrow, hbody⟩
termination_by 10 * tokens.length

theorem relation_gives (tokens : List Token) :
    Gives (Parsed.Spelled SpellsRelation) (relation stop tokens) := by
  rw [relation]
  refine (sum_gives tokens).bind ?_
  rintro ⟨lhs, rest₁, h₁⟩ ⟨ts, e₁, hlhs⟩
  dsimp only
  split
  · exact .pure ⟨ts, e₁, .sum hlhs⟩
  · next operator p rest₂ h₂ hselect =>
    obtain ⟨sign, e₂, hoperator⟩ := select?_eq_some hselect
    refine (sum_gives rest₂).bind ?_
    rintro ⟨rhs, rest₃, h₃⟩ ⟨us, e₃, hrhs⟩
    exact .pure ⟨_, by simp [e₁, e₂, e₃], .comparison hlhs hoperator hrhs⟩
termination_by 10 * tokens.length + 7

theorem sum_gives (tokens : List Token) :
    Gives (Parsed.Spelled SpellsSum) (sum stop tokens) := by
  rw [sum]
  refine (product_gives tokens).bind ?_
  rintro ⟨lhs, rest₁, h₁⟩ ⟨ts, e₁, hlhs⟩
  refine (termsAfter_gives rest₁ (.product hlhs)).bind ?_
  rintro ⟨result, rest₂, h₂⟩ ⟨us, e₂, hresult⟩
  exact .pure ⟨_, by simp [e₁, e₂], hresult⟩
termination_by 10 * tokens.length + 6

theorem termsAfter_gives {lhs : Node} {us : List Token} (tokens : List Token)
    (hlhs : SpellsSum us lhs) :
    Gives (Trailing.Spelled fun ts n => SpellsSum (us ++ ts) n) (termsAfter stop lhs tokens) := by
  rw [termsAfter]
  split
  · exact .pure (Trailing.nothing_spelled (by rwa [List.append_nil]))
  · next operator p rest₁ h₁ hselect =>
    obtain ⟨sign, e₁, hoperator⟩ := select?_eq_some hselect
    refine (product_gives rest₁).bind ?_
    rintro ⟨rhs, rest₂, h₂⟩ ⟨ts, e₂, hrhs⟩
    refine (termsAfter_gives rest₂ (.term hlhs hoperator hrhs)).bind ?_
    rintro ⟨result, rest₃, h₃⟩ ⟨vs, e₃, hresult⟩
    exact .pure ⟨sign :: (ts ++ vs), by simp [e₁, e₂, e₃], by simpa using hresult⟩
termination_by 10 * tokens.length

theorem product_gives (tokens : List Token) :
    Gives (Parsed.Spelled SpellsProduct) (product stop tokens) := by
  rw [product]
  refine (negation_gives tokens).bind ?_
  rintro ⟨lhs, rest₁, h₁⟩ ⟨ts, e₁, hlhs⟩
  refine (factorsAfter_gives rest₁ (.negation hlhs)).bind ?_
  rintro ⟨result, rest₂, h₂⟩ ⟨us, e₂, hresult⟩
  exact .pure ⟨_, by simp [e₁, e₂], hresult⟩
termination_by 10 * tokens.length + 5

theorem factorsAfter_gives {lhs : Node} {us : List Token} (tokens : List Token)
    (hlhs : SpellsProduct us lhs) :
    Gives (Trailing.Spelled fun ts n => SpellsProduct (us ++ ts) n)
      (factorsAfter stop lhs tokens) := by
  rw [factorsAfter]
  split
  · exact .pure (Trailing.nothing_spelled (by rwa [List.append_nil]))
  · next operator p rest₁ h₁ hselect =>
    obtain ⟨sign, e₁, hoperator⟩ := select?_eq_some hselect
    refine (negation_gives rest₁).bind ?_
    rintro ⟨rhs, rest₂, h₂⟩ ⟨ts, e₂, hrhs⟩
    refine (factorsAfter_gives rest₂ (.factor hlhs hoperator hrhs)).bind ?_
    rintro ⟨result, rest₃, h₃⟩ ⟨vs, e₃, hresult⟩
    exact .pure ⟨sign :: (ts ++ vs), by simp [e₁, e₂, e₃], by simpa using hresult⟩
termination_by 10 * tokens.length

theorem negation_gives (tokens : List Token) :
    Gives (Parsed.Spelled SpellsNegation) (negation stop tokens) := by
  rw [negation]
  split
  · exact (application_gives tokens).imp fun r ⟨ts, e, h⟩ => ⟨ts, e, .application h⟩
  · next operator p rest₁ h₁ hselect =>
    obtain ⟨minus, e₁, hoperator⟩ := select?_eq_some hselect
    obtain ⟨hminus, rfl⟩ : minus.kind = .minus ∧ .negate = operator := by simpa using hoperator
    refine (negation_gives rest₁).bind ?_
    rintro ⟨operand, rest₂, h₂⟩ ⟨ts, e₂, hoperand⟩
    exact .pure ⟨minus :: ts, by simp [e₁, e₂], .negate hminus hoperand⟩
termination_by 10 * tokens.length + 4

theorem application_gives (tokens : List Token) :
    Gives (Parsed.Spelled SpellsApplication) (application stop tokens) := by
  rw [application]
  refine (selection_gives tokens).bind ?_
  rintro ⟨function, rest₁, h₁⟩ ⟨ts, e₁, hfunction⟩
  refine (argumentsAfter_gives rest₁ (.selection hfunction)).bind ?_
  rintro ⟨result, rest₂, h₂⟩ ⟨us, e₂, hresult⟩
  exact .pure ⟨_, by simp [e₁, e₂], hresult⟩
termination_by 10 * tokens.length + 3

theorem argumentsAfter_gives {function : Node} {us : List Token} (tokens : List Token)
    (hfunction : SpellsApplication us function) :
    Gives (Trailing.Spelled fun ts n => SpellsApplication (us ++ ts) n)
      (argumentsAfter stop function tokens) := by
  rw [argumentsAfter]
  split
  · refine (selection_gives tokens).bind ?_
    rintro ⟨argument, rest₁, h₁⟩ ⟨ts, e₁, hargument⟩
    refine (argumentsAfter_gives rest₁ (.argument hfunction hargument)).bind ?_
    rintro ⟨result, rest₂, h₂⟩ ⟨vs, e₂, hresult⟩
    exact .pure ⟨ts ++ vs, by simp [e₁, e₂], by simpa using hresult⟩
  · exact .pure (Trailing.nothing_spelled (by rwa [List.append_nil]))
termination_by 10 * tokens.length + 3

theorem selection_gives (tokens : List Token) :
    Gives (Parsed.Spelled SpellsSelection) (selection stop tokens) := by
  rw [selection]
  refine (atom_gives tokens).bind ?_
  rintro ⟨target, rest₁, h₁⟩ ⟨ts, e₁, htarget⟩
  refine (projectionsAfter_gives rest₁ (.atom htarget)).bind ?_
  rintro ⟨result, rest₂, h₂⟩ ⟨us, e₂, hresult⟩
  exact .pure ⟨_, by simp [e₁, e₂], hresult⟩
termination_by 10 * tokens.length + 2

theorem atom_gives (tokens : List Token) :
    Gives (Parsed.Spelled SpellsAtom) (atom stop tokens) := by
  rw [atom]
  refine next_gives.bind ?_
  rintro ⟨t, rest₁, h₁⟩ e₁
  dsimp only
  split
  · next hk =>
    refine integerLiteral_gives.bind fun v hv => ?_
    exact .pure ⟨[t], e₁, .integer hk hv⟩
  · next hk => exact .pure ⟨[t], e₁, .boolean hk⟩
  · next hk =>
    split
    · next b hb => exact .pure ⟨[t], e₁, .builtin hk hb⟩
    · next hb => exact .pure ⟨[t], e₁, .reference hk hb⟩
  · next hk => exact .pure ⟨[t], e₁, .constructor hk⟩
  · next hk =>
    split
    · next rest₂ h₂ hskip =>
      obtain ⟨r, e₂, hr⟩ := skip?_eq_some hskip
      exact .pure ⟨[t, r], by simp [e₁, e₂], .unit hk hr⟩
    · refine (expression_gives rest₁).bind ?_
      rintro ⟨first, rest₂, h₂⟩ ⟨⟨ts, e₂, hfirst⟩, -⟩
      refine (expressionsAfter_gives rest₂).bind ?_
      rintro ⟨more, rest₃, h₃⟩ ⟨us, e₃, hmore⟩
      dsimp only
      split
      · next hempty =>
        refine expect_gives.bind ?_
        rintro ⟨r, rest₄, h₄⟩ ⟨e₄, hr⟩
        cases List.isEmpty_iff.1 hempty
        exact .pure ⟨_, by simp [e₁, e₂, e₃, e₄], .parentheses hk (hmore hfirst) hr⟩
      · next hempty =>
        refine expect_gives.bind ?_
        rintro ⟨r, rest₄, h₄⟩ ⟨e₄, hr⟩
        obtain ⟨second, more, rfl⟩ := List.ne_nil_iff_exists_cons.1 (mt List.isEmpty_iff.2 hempty)
        exact .pure ⟨_, by simp [e₁, e₂, e₃, e₄], .tuple hk (hmore hfirst) hr⟩
  · exact .error rfl
termination_by 10 * tokens.length + 1

theorem expressionsAfter_gives (tokens : List Token) :
    Gives (Trailing.Extends SpellsExpression SpellsExpressions) (expressionsAfter stop tokens) := by
  rw [expressionsAfter]
  split
  · exact .pure (Trailing.nothing_extends .one)
  · next rest₁ h₁ hskip =>
    obtain ⟨comma, e₁, hcomma⟩ := skip?_eq_some hskip
    refine (expression_gives rest₁).bind ?_
    rintro ⟨e, rest₂, h₂⟩ ⟨⟨ts, e₂, he⟩, -⟩
    refine (expressionsAfter_gives rest₂).bind ?_
    rintro ⟨more, rest₃, h₃⟩ ⟨us, e₃, hmore⟩
    exact .pure ⟨comma :: (ts ++ us), by simp [e₁, e₂, e₃],
      fun hfirst => .more hfirst hcomma (hmore he)⟩
termination_by 10 * tokens.length

end

/-- **A program that was read is spelled by its tokens**, and what cannot be read is an error of
    syntax. -/
theorem program_spelled (tokens : List Token) :
    Gives (fun n => ∃ e, n = .ofProgram e ∧ SpellsExpression tokens e) (program stop tokens) := by
  rw [program]
  refine (expression_gives tokens).bind ?_
  rintro ⟨e, rest, h⟩ ⟨⟨ts, e₁, he⟩, -⟩
  dsimp only
  split
  · rw [List.append_nil] at e₁
    exact .pure ⟨e, rfl, e₁ ▸ he⟩
  · exact .error rfl

end Parser

end ClosureML
