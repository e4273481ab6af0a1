import ClosureML.Proofs.Syntax.ParserSound
import Mathlib.Data.List.Forall2

/-!
# Reading what is spelled

Tokens that spell a phrase are read as that phrase, up to the marks, if what stands behind them
cannot go on with it. Here for types, patterns and the parts of declarations.

* `Stops`: the next token cannot go on with a phrase;
* `Yields`: something with a property is given; `Parsed.Is`, `Trailing.Is`: what was read, up to a
  relation between phrases, and what is left;
* `ReadsList`: the phrases of a list are read, with a sign between each two.

Main statements: `Parser.reads_type`, `Parser.reads_pattern` and `Parser.reads_constructors`.
-/

namespace ClosureML

/-- Two trees differ in their marks only. -/
def Node.Alike (n n' : Node) : Prop := n.bare = n'.bare

theorem Node.bareAll_eq_of_alike {ns ns' : List Node} (h : List.Forall₂ Alike ns ns') :
    bareAll ns = bareAll ns' := by
  induction h with
  | nil => rfl
  | cons h hs ih => exact congrArg₂ List.cons h ih

/-! ## 1. What goes on with a phrase -/

namespace TokenKind

/-- Can the token go on with an atom and its projections? -/
def continuesSelection (k : TokenKind) : Bool := k = .dot

/-- Can the token go on with an application? -/
def continuesApplication (k : TokenKind) : Bool := k.continuesSelection || k.startsAtom

/-- Can the token go on with a product? -/
def continuesProduct (k : TokenKind) : Bool := k.continuesApplication || k.factorOperator?.isSome

/-- Can the token go on with a sum? -/
def continuesSum (k : TokenKind) : Bool := k.continuesProduct || k.termOperator?.isSome

/-- Can the token go on with a relation? -/
def continuesRelation (k : TokenKind) : Bool := k.continuesSum || k.comparison?.isSome

/-- Can the token go on with an expression? -/
def continuesExpression (k : TokenKind) : Bool := k.continuesRelation || k = .semicolon

theorem continuesSum_of_comparison? {k : TokenKind} {o : BinaryOperator}
    (h : k.comparison? = some o) : k.continuesSum = false := by
  cases k <;> first | rfl | cases h

theorem continuesProduct_of_termOperator? {k : TokenKind} {o : BinaryOperator}
    (h : k.termOperator? = some o) : k.continuesProduct = false := by
  cases k <;> first | rfl | cases h

theorem continuesApplication_of_factorOperator? {k : TokenKind} {o : BinaryOperator}
    (h : k.factorOperator? = some o) : k.continuesApplication = false := by
  cases k <;> first | rfl | cases h

end TokenKind

namespace Parser

section

variable {α : Type} {tokens rest : List Token} {stop : Position}

/-- The next token is none that goes on with a phrase. -/
def Stops (continues : TokenKind → Bool) (rest : List Token) : Prop :=
  (nextKind? rest).any continues = false

theorem stops_nil {continues : TokenKind → Bool} : Stops continues [] := rfl

theorem stops_cons {continues : TokenKind → Bool} {t : Token} :
    Stops continues (t :: rest) ↔ continues t.kind = false := .rfl

theorem Stops.imp {p q : TokenKind → Bool} (h : Stops p rest) (hpq : ∀ k, q k = true → p k = true) :
    Stops q rest := by
  cases rest with
  | nil => rfl
  | cons t rest =>
    rw [stops_cons, Bool.eq_false_iff] at h ⊢
    exact mt (hpq _) h

theorem Stops.relation (h : Stops TokenKind.continuesExpression rest) :
    Stops TokenKind.continuesRelation rest :=
  h.imp fun k hk => by rw [TokenKind.continuesExpression, hk, Bool.true_or]

theorem Stops.sum (h : Stops TokenKind.continuesRelation rest) :
    Stops TokenKind.continuesSum rest :=
  h.imp fun k hk => by rw [TokenKind.continuesRelation, hk, Bool.true_or]

theorem Stops.product (h : Stops TokenKind.continuesSum rest) :
    Stops TokenKind.continuesProduct rest :=
  h.imp fun k hk => by rw [TokenKind.continuesSum, hk, Bool.true_or]

theorem Stops.application (h : Stops TokenKind.continuesProduct rest) :
    Stops TokenKind.continuesApplication rest :=
  h.imp fun k hk => by rw [TokenKind.continuesProduct, hk, Bool.true_or]

theorem Stops.selection (h : Stops TokenKind.continuesApplication rest) :
    Stops TokenKind.continuesSelection rest :=
  h.imp fun k hk => by rw [TokenKind.continuesApplication, hk, Bool.true_or]

theorem skip?_cons {kind : TokenKind} {t : Token} (h : t.kind = kind) :
    skip? kind (t :: rest) = some ⟨rest, Nat.lt_succ_self _⟩ := if_pos h

theorem skip?_eq_none {kind : TokenKind} (h : nextKind? rest ≠ some kind) :
    skip? kind rest = none := by
  cases rest with
  | nil => rfl
  | cons t rest => exact if_neg fun hk => h (congrArg some hk)

theorem Stops.skip?_eq_none {continues : TokenKind → Bool} {kind : TokenKind}
    (h : Stops continues rest) (hkind : continues kind = true) : skip? kind rest = none := by
  refine Parser.skip?_eq_none fun hnext => ?_
  rw [Stops, hnext, Option.any_some, hkind] at h
  cases h

theorem select?_cons {f : TokenKind → Option α} {t : Token} {a : α} (h : f t.kind = some a) :
    select? f (t :: rest) = some ⟨(a, t.position), rest, Nat.lt_succ_self _⟩ := by
  rw [select?, h, Option.map_some]

theorem Stops.select?_eq_none {continues : TokenKind → Bool} {f : TokenKind → Option α}
    (h : Stops continues rest) (hf : ∀ k, (f k).isSome = true → continues k = true) :
    select? f rest = none := by
  cases rest with
  | nil => rfl
  | cons t rest =>
    rw [stops_cons, Bool.eq_false_iff] at h
    rw [select?, Option.not_isSome_iff_eq_none.1 (mt (hf _) h), Option.map_none]

/-! ## 2. Reading a phrase -/

/-- A computation gives something with a property. -/
def Yields {α : Type} (p : α → Prop) (x : Except CompileError α) : Prop := ∃ a, x = .ok a ∧ p a

theorem Yields.ok {p : α → Prop} {a : α} (h : p a) : Yields p (.ok a) := ⟨a, rfl, h⟩

theorem Yields.bind {β : Type} {p : α → Prop} {q : β → Prop} {x : Except CompileError α}
    {f : α → Except CompileError β} (hx : Yields p x) (hf : ∀ a, p a → Yields q (f a)) :
    Yields q (x >>= f) := by
  obtain ⟨a, rfl, ha⟩ := hx
  exact hf a ha

/-- A phrase was read, up to a relation between phrases, and what is left. -/
def Parsed.Is (R : α → α → Prop) (a : α) (rest : List Token) (r : Parsed α tokens) : Prop :=
  R a r.value ∧ rest = r.rest

/-- What follows a phrase was read, up to a relation between phrases, and what is left. -/
def Trailing.Is (R : α → α → Prop) (a : α) (rest : List Token) (r : Trailing α tokens) : Prop :=
  R a r.value ∧ rest = r.rest

theorem next_yields {expected : Expected} {t : Token} :
    Yields (Parsed.Is Eq t rest) (next stop expected (t :: rest)) := .ok ⟨rfl, rfl⟩

theorem expect_yields {kind : TokenKind} {expected : Expected} {t : Token} (h : t.kind = kind) :
    Yields (Parsed.Is Eq t rest) (expect stop kind expected (t :: rest)) := by
  rw [expect, if_pos h]
  exact .ok ⟨rfl, rfl⟩

/-- The phrases of a list are read: the first, and those that follow it. -/
def ReadsList (R : α → α → Prop) (one : (tokens : List Token) → Reads α tokens)
    (after : (tokens : List Token) → Continues (List α) tokens)
    (tokens : List Token) (as : List α) (rest : List Token) : Prop :=
  ∃ a more us, as = a :: more ∧ Yields (Parsed.Is R a us) (one tokens) ∧
    Yields (Trailing.Is (List.Forall₂ R) more rest) (after us)

variable {R : α → α → Prop} {one : (tokens : List Token) → Reads α tokens}
  {after : (tokens : List Token) → Continues (List α) tokens} {a : α} {as : List α}

theorem ReadsList.last (h : Yields (Parsed.Is R a rest) (one tokens))
    (hafter : after rest = .ok (.nothing [] rest)) : ReadsList R one after tokens [a] rest :=
  ⟨a, [], rest, rfl, h, hafter ▸ .ok ⟨.nil, rfl⟩⟩

/-- Behind a phrase and the sign that separates, a list is read. -/
theorem ReadsList.cons {sign : Token} {us : List Token}
    (h : Yields (Parsed.Is R a (sign :: us)) (one tokens))
    (hafter : after (sign :: us) = (do
      let ⟨a, rest₂, h₂⟩ ← one us
      let ⟨more, rest₃, h₃⟩ ← after rest₂
      return ⟨a :: more, rest₃, Nat.le_succ_of_le (Nat.le_trans h₃ (Nat.le_of_lt h₂))⟩))
    (hmore : ReadsList R one after us as rest) :
    ReadsList R one after tokens (a :: as) rest := by
  refine ⟨a, as, sign :: us, rfl, h, ?_⟩
  obtain ⟨a, more, vs, rfl, hfirst, hrest⟩ := hmore
  rw [hafter]
  refine hfirst.bind ?_
  rintro ⟨_, _, _⟩ ⟨hfirst, rfl⟩
  refine hrest.bind ?_
  rintro ⟨_, _, _⟩ ⟨hrest, rfl⟩
  exact .ok ⟨.cons hfirst hrest, rfl⟩

/-- **Between parentheses** a phrase stands alone, or several phrases make a tuple. -/
theorem ReadsList.enclosed {outer : List Token} {close : Token} {x : α} {tuple : List α → α}
    (h : ReadsList R one after tokens as (close :: rest)) (hclose : close.kind = .closeParen)
    (hshorter : tokens.length < outer.length)
    (hx : ∀ a more, List.Forall₂ R as (a :: more) →
      R x (if more.isEmpty then a else tuple (a :: more))) :
    Yields (Parsed.Is R x rest) (do
      let ⟨first, rest₂, h₂⟩ ← one tokens
      let ⟨more, rest₃, h₃⟩ ← after rest₂
      have hclosed : rest₃.length ≤ outer.length :=
        Nat.le_trans h₃ (Nat.le_of_lt (Nat.lt_trans h₂ hshorter))
      if more.isEmpty then
        let ⟨_, rest₄, h₄⟩ ← expect stop .closeParen .closeParen rest₃
        return ⟨first, rest₄, Nat.lt_of_lt_of_le h₄ hclosed⟩
      else
        let ⟨_, rest₄, h₄⟩ ← expect stop .closeParen .closeParenOrComma rest₃
        return ⟨tuple (first :: more), rest₄, Nat.lt_of_lt_of_le h₄ hclosed⟩ : Reads α outer) := by
  obtain ⟨a, more, us, rfl, hfirst, hmore⟩ := h
  refine hfirst.bind ?_
  rintro ⟨a', _, _⟩ ⟨ha, rfl⟩
  refine hmore.bind ?_
  rintro ⟨more', _, _⟩ ⟨hmore, rfl⟩
  have hvalue := hx a' more' (.cons ha hmore)
  dsimp only
  split
  · next hempty =>
    rw [if_pos hempty] at hvalue
    refine (expect_yields hclose).bind ?_
    rintro ⟨_, _, _⟩ ⟨rfl, rfl⟩
    exact .ok ⟨hvalue, rfl⟩
  · next hempty =>
    rw [if_neg hempty] at hvalue
    refine (expect_yields hclose).bind ?_
    rintro ⟨_, _, _⟩ ⟨rfl, rfl⟩
    exact .ok ⟨hvalue, rfl⟩

/-- The tokens begin with one that closes no bracket. -/
def Begins (ts : List Token) : Prop :=
  ∃ t us, ts = t :: us ∧ t.kind ≠ .closeParen ∧ t.kind ≠ .closeBrace

theorem Begins.cons {t : Token} {ts : List Token} {kind : TokenKind} (h : t.kind = kind)
    (hparen : kind ≠ .closeParen) (hbrace : kind ≠ .closeBrace) : Begins (t :: ts) :=
  ⟨t, ts, rfl, h ▸ hparen, h ▸ hbrace⟩

theorem Begins.append {ts us : List Token} (h : Begins ts) : Begins (ts ++ us) := by
  obtain ⟨t, vs, rfl, h⟩ := h
  exact ⟨t, vs ++ us, rfl, h⟩

theorem Begins.skip?_closeParen {ts : List Token} (h : Begins ts) :
    skip? .closeParen ts = none := by
  obtain ⟨t, us, rfl, h, -⟩ := h
  exact if_neg h

theorem Begins.skip?_closeBrace {ts : List Token} (h : Begins ts) :
    skip? .closeBrace ts = none := by
  obtain ⟨t, us, rfl, -, h⟩ := h
  exact if_neg h

end

variable {stop : Position} {rest : List Token}

/-! ## 3. Types -/

theorem begins_typeAtom {ts : List Token} {t : TypeExpr} (h : SpellsTypeAtom ts t) : Begins ts := by
  cases h with
  | base hk | named hk => exact .cons hk nofun nofun
  | unit hl | parentheses hl | tuple hl => exact .cons hl nofun nofun

theorem begins_types {ts : List Token} {as : List TypeExpr} (h : SpellsTypes ts as) :
    Begins ts := by
  have htype : ∀ {ts t}, SpellsType ts t → Begins ts := by
    intro ts t h
    cases h with
    | atom h => exact begins_typeAtom h
    | function h => exact (begins_typeAtom h).append
  cases h with
  | one h => exact htype h
  | more h => exact (htype h).append

/-- Can the token go on with types between commas? -/
def continuesTypes (k : TokenKind) : Bool := k = .arrow || k = .comma

mutual

theorem reads_type : ∀ {ts rest : List Token} {t : TypeExpr}, SpellsType ts t →
    Stops (· = .arrow) rest → Yields (Parsed.Is Eq t rest) (type stop (ts ++ rest))
  | ts, rest, t, .atom h, hrest => by
    rw [type]
    refine (reads_typeAtom h).bind ?_
    rintro ⟨_, _, _⟩ ⟨rfl, rfl⟩
    dsimp only
    rw [hrest.skip?_eq_none (decide_eq_true rfl)]
    exact .ok ⟨rfl, rfl⟩
  | _, rest, _, @SpellsType.function ts us arrow _ _ ha harrow hb, hrest => by
    have e : ts ++ arrow :: us ++ rest = ts ++ arrow :: (us ++ rest) := by simp
    rw [e, type]
    refine (reads_typeAtom ha).bind ?_
    rintro ⟨_, _, _⟩ ⟨rfl, rfl⟩
    dsimp only
    rw [skip?_cons harrow]
    refine (reads_type hb hrest).bind ?_
    rintro ⟨_, _, _⟩ ⟨rfl, rfl⟩
    exact .ok ⟨rfl, rfl⟩

theorem reads_typeAtom : ∀ {ts rest : List Token} {t : TypeExpr}, SpellsTypeAtom ts t →
    Yields (Parsed.Is Eq t rest) (typeAtom stop (ts ++ rest))
  | _, rest, _, .base (t := t) hk hb => by
    rw [List.singleton_append, typeAtom]
    refine next_yields.bind ?_
    rintro ⟨_, _, _⟩ ⟨rfl, rfl⟩
    dsimp only
    rw [hk]
    dsimp only
    rw [hb]
    exact .ok ⟨rfl, rfl⟩
  | _, rest, _, .named hk => by
    rw [List.singleton_append, typeAtom]
    refine next_yields.bind ?_
    rintro ⟨_, _, _⟩ ⟨rfl, rfl⟩
    dsimp only
    rw [hk]
    exact .ok ⟨rfl, rfl⟩
  | _, rest, _, .unit (l := l) (r := r) hl hr => by
    have e : [l, r] ++ rest = l :: r :: rest := rfl
    rw [e, typeAtom]
    refine next_yields.bind ?_
    rintro ⟨_, _, _⟩ ⟨rfl, rfl⟩
    dsimp only
    rw [hl]
    dsimp only
    rw [skip?_cons hr]
    exact .ok ⟨rfl, rfl⟩
  | _, rest, _, @SpellsTypeAtom.parentheses l r ts _ hl h hr => by
    have e : l :: (ts ++ [r]) ++ rest = l :: (ts ++ r :: rest) := by simp
    rw [e, typeAtom]
    refine next_yields.bind ?_
    rintro ⟨_, _, _⟩ ⟨rfl, rfl⟩
    dsimp only
    rw [hl]
    dsimp only
    rw [(begins_types h).append.skip?_closeParen]
    have hlist := reads_types h (stops_cons.2 (by rw [hr]; rfl) : Stops continuesTypes (r :: rest))
    refine hlist.enclosed hr (Nat.lt_succ_self _) fun a more hsame => ?_
    rw [List.forall₂_eq_eq_eq] at hsame
    cases hsame
    rfl
  | _, rest, _, @SpellsTypeAtom.tuple l r ts _ _ _ hl h hr => by
    have e : l :: (ts ++ [r]) ++ rest = l :: (ts ++ r :: rest) := by simp
    rw [e, typeAtom]
    refine next_yields.bind ?_
    rintro ⟨_, _, _⟩ ⟨rfl, rfl⟩
    dsimp only
    rw [hl]
    dsimp only
    rw [(begins_types h).append.skip?_closeParen]
    have hlist := reads_types h (stops_cons.2 (by rw [hr]; rfl) : Stops continuesTypes (r :: rest))
    refine hlist.enclosed hr (Nat.lt_succ_self _) fun a more hsame => ?_
    rw [List.forall₂_eq_eq_eq] at hsame
    cases hsame
    rfl

theorem reads_types : ∀ {ts rest : List Token} {as : List TypeExpr}, SpellsTypes ts as →
    Stops continuesTypes rest → ReadsList Eq (type stop) (typesAfter stop) (ts ++ rest) as rest
  | ts, rest, _, .one h, hrest => by
    refine .last (reads_type h (hrest.imp fun k hk => by simp_all [continuesTypes])) ?_
    rw [typesAfter, hrest.skip?_eq_none rfl]
    rfl
  | _, rest, _, @SpellsTypes.more ts us comma _ _ h hcomma hmore, hrest => by
    have e : ts ++ comma :: us ++ rest = ts ++ comma :: (us ++ rest) := by simp
    rw [e]
    refine .cons (reads_type h (stops_cons.2 (by rw [hcomma]; rfl))) ?_ (reads_types hmore hrest)
    rw [typesAfter, skip?_cons hcomma]

end

theorem reads_ascription {S : List Token → TypeExpr → Prop} {continues : TokenKind → Bool}
    {read : (tokens : List Token) → Reads TypeExpr tokens}
    (hread : ∀ {ts rest : List Token} {t : TypeExpr}, S ts t → Stops continues rest →
      Yields (Parsed.Is Eq t rest) (read (ts ++ rest)))
    {tokens ts : List Token} {a : Option TypeExpr} (h : SpellsAscription S ts a)
    (e : tokens = ts ++ rest) (hcolon : Stops (· = .colon) rest) (hrest : Stops continues rest) :
    Yields (Trailing.Is Eq a rest) (match skip? .colon tokens with
      | none => return .nothing none tokens
      | some ⟨rest₁, h₁⟩ => do
        let ⟨t, rest₂, h₂⟩ ← read rest₁
        return ⟨some t, rest₂, length_le_of_lt_of_lt h₁ h₂⟩) := by
  cases h with
  | absent =>
    obtain rfl : tokens = rest := e
    rw [hcolon.skip?_eq_none (decide_eq_true rfl)]
    exact .ok ⟨rfl, rfl⟩
  | @present colon ts t hc h =>
    obtain rfl : tokens = colon :: (ts ++ rest) := e
    rw [skip?_cons hc]
    refine (hread h hrest).bind ?_
    rintro ⟨_, _, _⟩ ⟨rfl, rfl⟩
    exact .ok ⟨rfl, rfl⟩

theorem reads_optionalAscription {ts : List Token} {a : Option TypeExpr}
    (h : SpellsAscription SpellsType ts a) (hcolon : Stops (· = .colon) rest)
    (hrest : Stops (· = .arrow) rest) :
    Yields (Trailing.Is Eq a rest) (optionalAscription stop (ts ++ rest)) :=
  reads_ascription reads_type h rfl hcolon hrest

theorem reads_lambdaAscription {ts : List Token} {a : Option TypeExpr}
    (h : SpellsAscription SpellsTypeAtom ts a) (hcolon : Stops (· = .colon) rest) :
    Yields (Trailing.Is Eq a rest) (lambdaAscription stop (ts ++ rest)) :=
  reads_ascription (fun h _ => reads_typeAtom h) h rfl hcolon hcolon

/-! ## 4. Patterns -/

theorem begins_pattern {ts : List Token} {p : Node} (h : SpellsPattern ts p) : Begins ts := by
  cases h with
  | binder hk | integer hk | boolean hk | constant hk | constructor hk =>
    exact .cons hk nofun nofun
  | negative hminus => exact .cons hminus nofun nofun
  | unit hl | parentheses hl | tuple hl => exact .cons hl nofun nofun

theorem begins_patterns {ts : List Token} {ps : List Node} (h : SpellsPatterns ts ps) :
    Begins ts := by
  cases h with
  | one h => exact begins_pattern h
  | more h => exact (begins_pattern h).append

/-- Can the token go on with patterns between commas? -/
def continuesPatterns (k : TokenKind) : Bool := k = .openParen || k = .comma

mutual

theorem reads_pattern : ∀ {ts rest : List Token} {p : Node}, SpellsPattern ts p →
    Stops (· = .openParen) rest → Yields (Parsed.Is Node.Alike p rest) (pattern stop (ts ++ rest))
  | _, rest, _, .binder hk, hrest => by
    rw [List.singleton_append, pattern]
    refine next_yields.bind ?_
    rintro ⟨_, _, _⟩ ⟨rfl, rfl⟩
    dsimp only
    rw [hk]
    exact .ok ⟨rfl, rfl⟩
  | _, rest, _, .integer hk hv, hrest => by
    rw [List.singleton_append, pattern]
    refine next_yields.bind ?_
    rintro ⟨_, _, _⟩ ⟨rfl, rfl⟩
    dsimp only
    rw [hk]
    dsimp only
    rw [hv]
    exact .ok ⟨rfl, rfl⟩
  | _, rest, _, @SpellsPattern.negative _ minus t _ hminus hk hv, hrest => by
    have e : [minus, t] ++ rest = minus :: t :: rest := rfl
    rw [e, pattern]
    refine next_yields.bind ?_
    rintro ⟨_, _, _⟩ ⟨rfl, rfl⟩
    dsimp only
    rw [hminus]
    refine (expect_yields hk).bind ?_
    rintro ⟨_, _, _⟩ ⟨rfl, rfl⟩
    dsimp only
    rw [hv]
    exact .ok ⟨rfl, rfl⟩
  | _, rest, _, .boolean hk, hrest => by
    rw [List.singleton_append, pattern]
    refine next_yields.bind ?_
    rintro ⟨_, _, _⟩ ⟨rfl, rfl⟩
    dsimp only
    rw [hk]
    exact .ok ⟨rfl, rfl⟩
  | _, rest, _, .constant hk, hrest => by
    rw [List.singleton_append, pattern]
    refine next_yields.bind ?_
    rintro ⟨_, _, _⟩ ⟨rfl, rfl⟩
    dsimp only
    rw [hk]
    dsimp only
    -- no parenthesis follows, so that the constructor stands alone
    rw [hrest.skip?_eq_none (decide_eq_true rfl)]
    exact .ok ⟨rfl, rfl⟩
  | _, rest, _, @SpellsPattern.constructor _ t l r ts _ hk hl h hr, hrest => by
    have e : t :: l :: (ts ++ [r]) ++ rest = t :: l :: (ts ++ r :: rest) := by simp
    rw [e, pattern]
    refine next_yields.bind ?_
    rintro ⟨_, _, _⟩ ⟨rfl, rfl⟩
    dsimp only
    rw [hk]
    dsimp only
    rw [skip?_cons hl]
    obtain ⟨first, more, us, rfl, hfirst, hmore⟩ :=
      reads_patterns h (stops_cons.2 (by rw [hr]; rfl) : Stops continuesPatterns (r :: rest))
    refine hfirst.bind ?_
    rintro ⟨_, _, _⟩ ⟨hfirst, rfl⟩
    refine hmore.bind ?_
    rintro ⟨_, _, _⟩ ⟨hmore, rfl⟩
    refine (expect_yields hr).bind ?_
    rintro ⟨_, _, _⟩ ⟨rfl, rfl⟩
    exact .ok ⟨congrArg (Node.patternConstructor default t.text · none)
      (Node.bareAll_eq_of_alike (.cons hfirst hmore)), rfl⟩
  | _, rest, _, .unit (l := l) (r := r) hl hr, hrest => by
    have e : [l, r] ++ rest = l :: r :: rest := rfl
    rw [e, pattern]
    refine next_yields.bind ?_
    rintro ⟨_, _, _⟩ ⟨rfl, rfl⟩
    dsimp only
    rw [hl]
    dsimp only
    rw [skip?_cons hr]
    exact .ok ⟨rfl, rfl⟩
  | _, rest, _, @SpellsPattern.parentheses l r ts _ hl h hr, hrest => by
    have e : l :: (ts ++ [r]) ++ rest = l :: (ts ++ r :: rest) := by simp
    rw [e, pattern]
    refine next_yields.bind ?_
    rintro ⟨_, _, _⟩ ⟨rfl, rfl⟩
    dsimp only
    rw [hl]
    dsimp only
    rw [(begins_patterns h).append.skip?_closeParen]
    have hlist :=
      reads_patterns h (stops_cons.2 (by rw [hr]; rfl) : Stops continuesPatterns (r :: rest))
    refine hlist.enclosed hr (Nat.lt_succ_self _) fun p more hall => ?_
    cases hall with | cons hp hnil => ?_
    cases hnil
    exact hp
  | _, rest, _, @SpellsPattern.tuple _ l r ts _ _ _ hl h hr, hrest => by
    have e : l :: (ts ++ [r]) ++ rest = l :: (ts ++ r :: rest) := by simp
    rw [e, pattern]
    refine next_yields.bind ?_
    rintro ⟨_, _, _⟩ ⟨rfl, rfl⟩
    dsimp only
    rw [hl]
    dsimp only
    rw [(begins_patterns h).append.skip?_closeParen]
    have hlist :=
      reads_patterns h (stops_cons.2 (by rw [hr]; rfl) : Stops continuesPatterns (r :: rest))
    refine hlist.enclosed hr (Nat.lt_succ_self _) fun p more hall => ?_
    have hbare := Node.bareAll_eq_of_alike hall
    cases hall with | cons _ hmore => ?_
    cases hmore
    exact congrArg (Node.patternTuple default) hbare

theorem reads_patterns : ∀ {ts rest : List Token} {ps : List Node}, SpellsPatterns ts ps →
    Stops continuesPatterns rest →
      ReadsList Node.Alike (pattern stop) (patternsAfter stop) (ts ++ rest) ps rest
  | ts, rest, _, .one h, hrest => by
    refine .last (reads_pattern h (hrest.imp fun k hk => by simp_all [continuesPatterns])) ?_
    rw [patternsAfter, hrest.skip?_eq_none rfl]
    rfl
  | _, rest, _, @SpellsPatterns.more ts us comma _ _ h hcomma hmore, hrest => by
    have e : ts ++ comma :: us ++ rest = ts ++ comma :: (us ++ rest) := by simp
    rw [e]
    refine .cons (reads_pattern h (stops_cons.2 (by rw [hcomma]; rfl))) ?_
      (reads_patterns hmore hrest)
    rw [patternsAfter, skip?_cons hcomma]

end

/-! ## 5. Parts of declarations -/

theorem reads_constructor {ts : List Token} {c : Node} (h : SpellsConstructor ts c)
    (hrest : Stops (· = .openParen) rest) :
    Yields (Parsed.Is Node.Alike c rest) (dataConstructor stop (ts ++ rest)) := by
  cases h with
  | constant hk =>
    rw [List.singleton_append, dataConstructor]
    refine (expect_yields hk).bind ?_
    rintro ⟨_, _, _⟩ ⟨rfl, rfl⟩
    dsimp only
    rw [hrest.skip?_eq_none (decide_eq_true rfl)]
    exact .ok ⟨rfl, rfl⟩
  | @parameters m t l r ts as hk hl h hr =>
    have e : t :: l :: (ts ++ [r]) ++ rest = t :: l :: (ts ++ r :: rest) := by simp
    rw [e, dataConstructor]
    refine (expect_yields hk).bind ?_
    rintro ⟨_, _, _⟩ ⟨rfl, rfl⟩
    dsimp only
    rw [skip?_cons hl]
    obtain ⟨first, more, us, rfl, hfirst, hmore⟩ :=
      reads_types h (stops_cons.2 (by rw [hr]; rfl) : Stops continuesTypes (r :: rest))
    refine hfirst.bind ?_
    rintro ⟨_, _, _⟩ ⟨rfl, rfl⟩
    refine hmore.bind ?_
    rintro ⟨_, _, _⟩ ⟨hsame, rfl⟩
    rw [List.forall₂_eq_eq_eq] at hsame
    subst hsame
    refine (expect_yields hr).bind ?_
    rintro ⟨_, _, _⟩ ⟨rfl, rfl⟩
    exact .ok ⟨rfl, rfl⟩

/-- Can the token go on with constructors between bars? -/
def continuesConstructors (k : TokenKind) : Bool := k = .openParen || k = .pipe

theorem reads_constructors {ts : List Token} {cs : List Node} (h : SpellsConstructors ts cs)
    (hrest : Stops continuesConstructors rest) :
    ReadsList Node.Alike (dataConstructor stop) (dataConstructorsAfter stop) (ts ++ rest) cs
      rest := by
  induction h with
  | one h =>
    refine .last (reads_constructor h (hrest.imp fun k hk => by
      simp_all [continuesConstructors])) ?_
    rw [dataConstructorsAfter, hrest.skip?_eq_none rfl]
    rfl
  | @more ts us bar c more h hbar hmore ih =>
    have e : ts ++ bar :: us ++ rest = ts ++ bar :: (us ++ rest) := by simp
    rw [e]
    refine .cons (reads_constructor h (stops_cons.2 (by rw [hbar]; rfl))) ?_ ih
    rw [dataConstructorsAfter, skip?_cons hbar]

theorem reads_parameter {ts : List Token} {x : String × Option TypeExpr}
    (h : SpellsParameter ts x) :
    Yields (Parsed.Is Eq x rest) (groupParameter stop (ts ++ rest)) := by
  cases h with
  | name hx =>
    rw [List.singleton_append, groupParameter, skip?, if_neg (by rw [hx]; decide)]
    refine (expect_yields hx).bind ?_
    rintro ⟨_, _, _⟩ ⟨rfl, rfl⟩
    exact .ok ⟨rfl, rfl⟩
  | @typed l x colon r ts t hl hx hcolon h hr =>
    have e : l :: x :: colon :: (ts ++ [r]) ++ rest = l :: x :: colon :: (ts ++ r :: rest) := by
      simp
    rw [e, groupParameter, skip?_cons hl]
    refine (expect_yields hx).bind ?_
    rintro ⟨_, _, _⟩ ⟨rfl, rfl⟩
    refine (expect_yields hcolon).bind ?_
    rintro ⟨_, _, _⟩ ⟨rfl, rfl⟩
    refine (reads_type h (stops_cons.2 (by rw [hr]; rfl))).bind ?_
    rintro ⟨_, _, _⟩ ⟨rfl, rfl⟩
    refine (expect_yields hr).bind ?_
    rintro ⟨_, _, _⟩ ⟨rfl, rfl⟩
    exact .ok ⟨rfl, rfl⟩

end Parser

end ClosureML
