import ClosureML.Proofs.Syntax.Procedures
import ClosureML.Proofs.Syntax.Reading

/-!
# Procedures and functions of the parser agree

A procedure that begins at a place does what the function of the parser does on the tokens that
are left there: it gives the same and stops where the same tokens are left, or ends with the same
error. A call is followed as long as its depth allows, and each call that is made before a token is
taken has a lower rank than the one that makes it.

* `IsLeft`: what is left of the tokens at a place;
* `Agrees`, `Reached`: what a function gives and what becomes of work agree;
* `Procedure.read`: the function that a procedure agrees with;
* `Procedure.rank`: how many calls it can make before a token is taken;
* `CallsAgree`: calls agree that begin with few enough tokens left.

Main statements: `body_agrees` and `perform_agrees`.
-/

namespace ClosureML

namespace Parser

variable {α β γ δ : Type} {stop : Position} {tokens us rest : List Token} {k k' : Nat}

/-! ## 1. Work at a cursor -/

section Work

variable {m : Work α} {f : α → Work β}

/-- Work in a row, the first part of which gives something. -/
theorem Work.at_bind_of_ok {a : α} (h : m.at k = some (.ok (a, k'))) :
    (m >>= f).at k = (f a).at k' := by
  rw [Work.at] at h
  rw [Work.at, StateT.run_bind, ExceptT.run_bind, h]
  rfl

/-- Work in a row, the first part of which ends with an error. -/
theorem Work.at_bind_of_error {e : CompileError} (h : m.at k = some (.error e)) :
    (m >>= f).at k = some (.error e) := by
  rw [Work.at] at h
  rw [Work.at, StateT.run_bind, ExceptT.run_bind, h]
  rfl

theorem advance_at (k : Nat) : advance.at k = some (.ok ((), k + 1)) := rfl

end Work

/-! ## 2. What is left at a place -/

/-- What is left of the tokens at a place. -/
structure IsLeft (tokens : List Token) (k : Nat) (rest : List Token) : Prop where
  drop : tokens.drop k = rest
  le : k ≤ tokens.length

theorem IsLeft.length (h : IsLeft tokens k rest) : rest.length + k = tokens.length := by
  rw [← h.drop, List.length_drop]
  exact Nat.sub_add_cancel h.le

theorem IsLeft.getElem? (h : IsLeft tokens k rest) : tokens[k]? = rest.head? := by
  rw [← h.drop, List.head?_drop]

theorem IsLeft.tail {t : Token} (h : IsLeft tokens k (t :: rest)) : IsLeft tokens (k + 1) rest where
  drop := by rw [← List.tail_drop, h.drop, List.tail_cons]
  le := by
    have := h.length
    rw [List.length_cons] at this
    omega

/-- The token at the cursor is the first of those that are left. -/
theorem IsLeft.peek (h : IsLeft tokens k rest) :
    (peek tokens).at k = some (.ok (rest.head?, k)) := by
  rw [← h.getElem?]
  rfl

theorem IsLeft.eat (h : IsLeft tokens k us) (kind : TokenKind) :
    (skip? kind us = none ∧ (eat tokens kind).at k = some (.ok (false, k))) ∨
      ∃ (rest : List Token) (hlt : rest.length < us.length), skip? kind us = some ⟨rest, hlt⟩ ∧
        (Parser.eat tokens kind).at k = some (.ok (true, k + 1)) ∧ IsLeft tokens (k + 1) rest := by
  rw [Parser.eat, Work.at_bind_of_ok h.peek]
  cases us with
  | nil => exact .inl ⟨rfl, rfl⟩
  | cons t rest =>
    by_cases hk : t.kind = kind
    · rw [skip?_cons hk, if_pos (by simpa using hk)]
      exact .inr ⟨rest, _, rfl, rfl, h.tail⟩
    · have hnext : nextKind? (t :: rest) ≠ some kind := mt Option.some.inj hk
      rw [skip?_eq_none hnext, if_neg (by simpa using hk)]
      exact .inl ⟨rfl, rfl⟩

theorem IsLeft.eatSome (h : IsLeft tokens k us) (select : TokenKind → Option α) :
    (select? select us = none ∧ (eatSome tokens select).at k = some (.ok (none, k))) ∨
      ∃ (a : α × Position) (rest : List Token) (hlt : rest.length < us.length),
        select? select us = some ⟨a, rest, hlt⟩ ∧
          (Parser.eatSome tokens select).at k = some (.ok (some a, k + 1)) ∧
            IsLeft tokens (k + 1) rest := by
  rw [Parser.eatSome, Work.at_bind_of_ok h.peek]
  cases us with
  | nil => exact .inl ⟨rfl, rfl⟩
  | cons t rest =>
    dsimp only [List.head?_cons]
    rw [select?]
    cases select t.kind with
    | none => exact .inl ⟨rfl, rfl⟩
    | some a => exact .inr ⟨_, rest, _, rfl, rfl, h.tail⟩

/-! ## 3. Agreement -/

/-- A result and what becomes of work agree: both give something, and `V` relates what they give and
    the place that is reached, or both end with the same error. -/
inductive Agrees (V : γ → α → Nat → Prop) :
    Except CompileError γ → Option (Except CompileError (α × Nat)) → Prop where
  | ok {c : γ} {a : α} {k : Nat} (h : V c a k) : Agrees V (.ok c) (some (.ok (a, k)))
  | error {e : CompileError} : Agrees V (.error e) (some (.error e))

/-- What was read is the same, and the tokens behind it are left. -/
def Reached (tokens : List Token) (r : α × List Token) (a : α) (k : Nat) : Prop :=
  r.1 = a ∧ IsLeft tokens k r.2

/-- A phrase and the tokens behind it. -/
def Parsed.plain (r : Parsed α us) : α × List Token := (r.value, r.rest)

/-- What follows a phrase and the tokens behind it. -/
def Trailing.plain (r : Trailing α us) : α × List Token := (r.value, r.rest)

section Agrees

variable {V : γ → α → Nat → Prop} {x : Except CompileError γ} {m : Work α} {f : α → Work β}
  {U : δ → β → Nat → Prop} {g : γ → Except CompileError δ}

theorem Agrees.pure {c : γ} {a : α} (h : V c a k) :
    Agrees V (pure c) ((pure a : Work α).at k) := .ok h

theorem Agrees.throw {e : CompileError} :
    Agrees V (throw e : Except CompileError γ) ((throw e : Work α).at k) := .error

theorem Agrees.check {x : Except CompileError α} :
    Agrees (fun c a k' => c = a ∧ k' = k) x ((Work.check x).at k) := by
  cases x with
  | ok a => exact .ok ⟨rfl, rfl⟩
  | error e => exact .error

theorem Agrees.bind (hx : Agrees V x (m.at k))
    (hf : ∀ c a k', V c a k' → Agrees U (g c) ((f a).at k')) :
    Agrees U (x >>= g) ((m >>= f).at k) := by
  generalize hm : m.at k = y at hx
  cases hx with
  | ok h =>
    rw [Work.at_bind_of_ok hm]
    exact hf _ _ _ h
  | error =>
    rw [Work.at_bind_of_error hm]
    exact .error

theorem Agrees.map {β : Type} {V : β → α → Nat → Prop} {f : γ → β}
    {y : Option (Except CompileError (α × Nat))} (h : Agrees (fun c => V (f c)) x y) :
    Agrees V (f <$> x) y := by
  cases h with
  | ok h => exact .ok h
  | error => exact .error

/-- Behind a phrase, what it was read as and the tokens that are left are known. -/
theorem Agrees.behind {view : γ → α × List Token}
    (hx : Agrees (Reached tokens) (view <$> x) (m.at k))
    (hf : ∀ c k', IsLeft tokens k' (view c).2 → Agrees U (g c) ((f (view c).1).at k')) :
    Agrees U (x >>= g) ((m >>= f).at k) := by
  refine Agrees.bind (V := fun c a k => Reached tokens (view c) a k) ?_ ?_
  · generalize m.at k = y at hx ⊢
    cases x with
    | ok c =>
      cases hx with
      | ok h => exact .ok h
    | error e =>
      cases hx
      exact .error
  · rintro c _ k' ⟨rfl, h⟩
    exact hf c k' h

/-- Behind a phrase that takes tokens. -/
theorem Agrees.next {x : Reads α us} {g : Parsed α us → Except CompileError δ}
    (hx : Agrees (Reached tokens) (Parsed.plain <$> x) (m.at k))
    (hf : ∀ (a : α) (rest : List Token) (hlt : rest.length < us.length) (k' : Nat),
      IsLeft tokens k' rest → Agrees U (g ⟨a, rest, hlt⟩) ((f a).at k')) :
    Agrees U (x >>= g) ((m >>= f).at k) :=
  hx.behind fun c k' h => hf c.value c.rest c.shorter k' h

/-- Behind what may follow a phrase. -/
theorem Agrees.maybe {x : Continues α us} {g : Trailing α us → Except CompileError δ}
    (hx : Agrees (Reached tokens) (Trailing.plain <$> x) (m.at k))
    (hf : ∀ (a : α) (rest : List Token) (hle : rest.length ≤ us.length) (k' : Nat),
      IsLeft tokens k' rest → Agrees U (g ⟨a, rest, hle⟩) ((f a).at k')) :
    Agrees U (x >>= g) ((m >>= f).at k) :=
  hx.behind fun c k' h => hf c.value c.rest c.notLonger k' h

/-- Behind a loop that gathers what follows a list of phrases. -/
theorem Agrees.gathered {as : List α} {m : Work (List α)} {f : List α → Work β}
    {x : Continues (List α) us} {g : Trailing (List α) us → Except CompileError δ}
    (hx : Agrees (Reached tokens) ((fun r => (as ++ r.value, r.rest)) <$> x) (m.at k))
    (hf : ∀ (more : List α) (rest : List Token) (hle : rest.length ≤ us.length) (k' : Nat),
      IsLeft tokens k' rest → Agrees U (g ⟨more, rest, hle⟩) ((f (as ++ more)).at k')) :
    Agrees U (x >>= g) ((m >>= f).at k) :=
  hx.behind fun c k' h => hf c.value c.rest c.notLonger k' h

/-- A check that takes no token. -/
theorem Agrees.checked {x : Except CompileError α} {g : α → Except CompileError δ}
    (hf : ∀ a, Agrees U (g a) ((f a).at k)) : Agrees U (x >>= g) ((Work.check x >>= f).at k) :=
  Agrees.check.bind fun _ _ _ h => h.1 ▸ h.2 ▸ hf _

/-- Where the last call of a procedure gives what the procedure gives, the function may still put
    together what it has. -/
theorem Agrees.last {view : γ → α × List Token} {view' : δ → α × List Token}
    {y : Option (Except CompileError (α × Nat))} (hx : Agrees (Reached tokens) (view <$> x) y)
    (hg : ∀ c, ∃ d, g c = .ok d ∧ view' d = view c) :
    Agrees (fun d => Reached tokens (view' d)) (x >>= g) y := by
  cases x with
  | error e =>
    cases hx
    exact .error
  | ok c =>
    obtain ⟨d, e, hd⟩ := hg c
    cases hx with
    | ok h =>
      show Agrees _ (g c) _
      rw [e]
      exact .ok (hd.symm ▸ h)

end Agrees

/-- The next token is taken alike. -/
theorem take_agrees (h : IsLeft tokens k us) (expected : Expected) :
    Agrees (Reached tokens) (Parsed.plain <$> next stop expected us)
      ((take stop tokens expected).at k) := by
  rw [take, Work.at_bind_of_ok h.peek]
  cases us with
  | nil => exact .error
  | cons t rest => exact .ok ⟨rfl, h.tail⟩

/-- The next token is taken alike when it is to be of a kind. -/
theorem takeKind_agrees (h : IsLeft tokens k us) (kind : TokenKind) (expected : Expected) :
    Agrees (Reached tokens) (Parsed.plain <$> expect stop kind expected us)
      ((takeKind stop tokens kind expected).at k) := by
  rw [takeKind, take]
  simp only [bind_assoc]
  rw [Work.at_bind_of_ok h.peek]
  cases us with
  | nil => exact .error
  | cons t rest =>
    dsimp only [List.head?_cons]
    rw [bind_assoc, Work.at_bind_of_ok (advance_at k), pure_bind, expect]
    split
    · exact .ok ⟨rfl, h.tail⟩
    · exact .error

/-! ## 4. Functions and ranks of procedures -/

/-- The function of the parser that a loop agrees with. -/
@[simp] def Loop.read (stop : Position) : {α : Type} → Loop α → α → List Token →
    Except CompileError (α × List Token)
  | _, .types, ts, us => (fun r => (ts ++ r.value, r.rest)) <$> Parser.typesAfter stop us
  | _, .patterns, ps, us => (fun r => (ps ++ r.value, r.rest)) <$> Parser.patternsAfter stop us
  | _, .constructors, cs, us =>
    (fun r => (cs ++ r.value, r.rest)) <$> Parser.dataConstructorsAfter stop us
  | _, .statements, ns, us => (fun r => (ns ++ r.value, r.rest)) <$> Parser.statementsAfter stop us
  | _, .functions, fs, us =>
    (fun r => (fs ++ r.value, r.rest)) <$> Parser.groupFunctionsAfter stop us
  | _, .arms, ns, us => (fun r => (ns ++ r.value, r.rest)) <$> Parser.matchArms stop us
  | _, .expressions, es, us =>
    (fun r => (es ++ r.value, r.rest)) <$> Parser.expressionsAfter stop us
  | _, .terms, lhs, us => Trailing.plain <$> Parser.termsAfter stop lhs us
  | _, .factors, lhs, us => Trailing.plain <$> Parser.factorsAfter stop lhs us
  | _, .arguments, function, us => Trailing.plain <$> Parser.argumentsAfter stop function us
  | _, .projections, target, us => Trailing.plain <$> Parser.projectionsAfter stop target us

/-- The function of the parser that a procedure agrees with. -/
@[simp] def Procedure.read (stop : Position) : {α : Type} → Procedure α → List Token →
    Except CompileError (α × List Token)
  | _, .type, us => Parsed.plain <$> Parser.type stop us
  | _, .typeAtom, us => Parsed.plain <$> Parser.typeAtom stop us
  | _, .ascription, us => Trailing.plain <$> Parser.optionalAscription stop us
  | _, .lambdaAscription, us => Trailing.plain <$> Parser.lambdaAscription stop us
  | _, .pattern, us => Parsed.plain <$> Parser.pattern stop us
  | _, .constructor, us => Parsed.plain <$> Parser.dataConstructor stop us
  | _, .parameter, us => Parsed.plain <$> Parser.groupParameter stop us
  | _, .expression, us => Parsed.plain <$> Parser.expression stop us
  | _, .statement, us => Parsed.plain <$> Parser.statement stop us
  | _, .letIn, us => Parsed.plain <$> Parser.letStatement stop us
  | _, .letRec, us => Parsed.plain <$> Parser.letRecStatement stop us
  | _, .function, us => Parsed.plain <$> Parser.groupFunction stop us
  | _, .lambda, us => Parsed.plain <$> Parser.lambda stop us
  | _, .dataType, us => Parsed.plain <$> Parser.dataStatement stop us
  | _, .conditional, us => Parsed.plain <$> Parser.conditional stop us
  | _, .matchWith, us => Parsed.plain <$> Parser.matchStatement stop us
  | _, .arm, us => Parsed.plain <$> Parser.matchArm stop us
  | _, .relation, us => Parsed.plain <$> Parser.relation stop us
  | _, .sum, us => Parsed.plain <$> Parser.sum stop us
  | _, .product, us => Parsed.plain <$> Parser.product stop us
  | _, .negation, us => Parsed.plain <$> Parser.negation stop us
  | _, .application, us => Parsed.plain <$> Parser.application stop us
  | _, .selection, us => Parsed.plain <$> Parser.selection stop us
  | _, .atom, us => Parsed.plain <$> Parser.atom stop us
  | _, .loop l gathered, us => l.read stop gathered us
  | _, .program, us => (·, []) <$> Parser.program stop us

/-- How many calls a loop can make one inside the other while no token is taken. -/
def Loop.rank : {α : Type} → Loop α → Nat
  | _, .arguments => 3
  | _, .arms => 2
  | _, _ => 0

/-- How many calls a procedure can make one inside the other while no token is taken. -/
def Procedure.rank : {α : Type} → Procedure α → Nat
  | _, .program => 10
  | _, .expression => 9
  | _, .statement => 8
  | _, .relation => 7
  | _, .sum => 6
  | _, .product => 5
  | _, .negation => 4
  | _, .application => 3
  | _, .selection => 2
  | _, .atom | _, .arm | _, .type => 1
  | _, .loop l _ => l.rank
  | _, _ => 0

theorem Loop.rank_le (l : Loop α) : l.rank ≤ 3 := by
  cases l <;> decide

theorem Procedure.rank_le (p : Procedure α) : p.rank ≤ 10 := by
  cases p with
  | loop l => exact Nat.le_trans l.rank_le (by decide)
  | _ => exact Nat.le_of_ble_eq_true rfl

/-- Calls agree with the functions of the parser if few enough tokens are left where they begin. A
    rank is at most ten, so that a token weighs more than any rank. -/
def CallsAgree (stop : Position) (tokens : List Token) (bound : Nat)
    (call : {α : Type} → Procedure α → Work α) : Prop :=
  ∀ {α : Type} (p : Procedure α) {k : Nat} {us : List Token}, IsLeft tokens k us →
    11 * us.length + p.rank < bound → Agrees (Reached tokens) (p.read stop us) ((call p).at k)

section Bodies

variable {bound : Nat} {call : {α : Type} → Procedure α → Work α}

/-- Behind a token, every call agrees. -/
theorem CallsAgree.later (hcall : CallsAgree stop tokens bound call) (p : Procedure α)
    (h : IsLeft tokens k rest) (hlt : rest.length < us.length) (hbound : 11 * us.length ≤ bound) :
    Agrees (Reached tokens) (p.read stop rest) ((call p).at k) :=
  hcall p h (by have := p.rank_le; omega)

/-! ## 5. Types -/

theorem type_agrees (hcall : CallsAgree stop tokens bound call) (h : IsLeft tokens k us)
    (hbound : 11 * us.length + 1 ≤ bound) :
    Agrees (Reached tokens) (Procedure.read stop .type us)
      ((Procedure.body stop tokens call .type).at k) := by
  rw [Procedure.read, Procedure.body, type]
  refine .map ?_
  refine (hcall .typeAtom h hbound).next fun parameter rest₁ h₁ k₁ hl₁ => ?_
  dsimp only
  rcases hl₁.eat .arrow with ⟨e, e'⟩ | ⟨rest₂, h₂, e, e', hl₂⟩
  · rw [e, Work.at_bind_of_ok e']
    exact .pure ⟨rfl, hl₁⟩
  · rw [e, Work.at_bind_of_ok e']
    refine (hcall.later .type hl₂ (Nat.lt_trans h₂ h₁) (Nat.le_of_succ_le hbound)).next
      fun result rest₃ h₃ k₃ hl₃ => ?_
    exact .pure ⟨rfl, hl₃⟩

/-- Phrases in parentheses: one alone stands for itself. -/
theorem closeList_agrees {first : α} {loop : List α → Work (List α)} {after : Continues (List α) us}
    {U : δ → β → Nat → Prop} {f : List α → Work β}
    {g g' : (r : Trailing (List α) us) → Parsed Token r.rest → Except CompileError δ}
    (hloop : Agrees (Reached tokens) ((fun r => ([first] ++ r.value, r.rest)) <$> after)
      ((loop [first]).at k))
    (hone : ∀ r t k', IsLeft tokens k' t.rest → Agrees U (g r t) ((f [first]).at k'))
    (hmore : ∀ r t k' a as, r.value = a :: as → IsLeft tokens k' t.rest →
      Agrees U (g' r t) ((f (first :: a :: as)).at k')) :
    Agrees U (after >>= fun r =>
        if r.value.isEmpty = true then expect stop .closeParen .closeParen r.rest >>= g r
        else expect stop .closeParen .closeParenOrComma r.rest >>= g' r)
      ((closeList stop tokens loop first >>= f).at k) := by
  rw [closeList]
  simp only [bind_assoc, pure_bind]
  refine hloop.gathered fun more rest _ k' h => ?_
  cases more with
  | nil => exact (takeKind_agrees h _ _).next fun _ _ _ k'' h' => hone _ _ k'' h'
  | cons a as => exact (takeKind_agrees h _ _).next fun _ _ _ k'' h' => hmore _ _ k'' a as rfl h'

theorem typeAtom_agrees (hcall : CallsAgree stop tokens bound call) (h : IsLeft tokens k us)
    (hbound : 11 * us.length ≤ bound) :
    Agrees (Reached tokens) (Procedure.read stop .typeAtom us)
      ((Procedure.body stop tokens call .typeAtom).at k) := by
  rw [Procedure.read, Procedure.body, typeAtom]
  refine .map ?_
  refine (take_agrees h .type).next fun t rest₁ h₁ k₁ hl₁ => ?_
  dsimp only
  cases t.kind with
  | identifier =>
    cases BaseType.ofText? t.text with
    | some b => exact .pure ⟨rfl, hl₁⟩
    | none => exact .throw
  | constructorIdentifier => exact .pure ⟨rfl, hl₁⟩
  | openParen =>
    rcases hl₁.eat .closeParen with ⟨e, e'⟩ | ⟨rest₂, h₂, e, e', hl₂⟩
    · simp only [e, Work.at_bind_of_ok e']
      refine (hcall.later .type hl₁ h₁ hbound).next fun first rest₂ h₂ k₂ hl₂ => ?_
      have hloop := hcall.later (.loop .types [first]) hl₂ (Nat.lt_trans h₂ h₁) hbound
      refine closeList_agrees hloop (fun _ _ _ h' => .pure ⟨rfl, h'⟩) fun _ _ _ a as hr h' => ?_
      exact .pure ⟨hr ▸ rfl, h'⟩
    · simp only [e, Work.at_bind_of_ok e']
      exact .pure ⟨rfl, hl₂⟩
  | _ => exact .error

/-- A type behind a colon, if a colon is next. -/
theorem optionalAscription_agrees (hcall : CallsAgree stop tokens bound call)
    (h : IsLeft tokens k us) (hbound : 11 * us.length ≤ bound) :
    Agrees (Reached tokens) (Procedure.read stop .ascription us)
      ((Procedure.body stop tokens call .ascription).at k) := by
  rw [Procedure.read, Procedure.body, optionalAscription]
  refine .map ?_
  rcases h.eat .colon with ⟨e, e'⟩ | ⟨rest₁, h₁, e, e', hl₁⟩
  · rw [e, Work.at_bind_of_ok e']
    exact .pure ⟨rfl, h⟩
  · rw [e, Work.at_bind_of_ok e']
    exact (hcall.later .type hl₁ h₁ hbound).next fun t rest₂ h₂ k₂ hl₂ => .pure ⟨rfl, hl₂⟩

theorem lambdaAscription_agrees (hcall : CallsAgree stop tokens bound call)
    (h : IsLeft tokens k us) (hbound : 11 * us.length ≤ bound) :
    Agrees (Reached tokens) (Procedure.read stop .lambdaAscription us)
      ((Procedure.body stop tokens call .lambdaAscription).at k) := by
  rw [Procedure.read, Procedure.body, lambdaAscription]
  refine .map ?_
  rcases h.eat .colon with ⟨e, e'⟩ | ⟨rest₁, h₁, e, e', hl₁⟩
  · rw [e, Work.at_bind_of_ok e']
    exact .pure ⟨rfl, h⟩
  · rw [e, Work.at_bind_of_ok e']
    exact (hcall.later .typeAtom hl₁ h₁ hbound).next fun t rest₂ h₂ k₂ hl₂ => .pure ⟨rfl, hl₂⟩

/-! ## 6. Patterns and parts of declarations -/

theorem pattern_agrees (hcall : CallsAgree stop tokens bound call) (h : IsLeft tokens k us)
    (hbound : 11 * us.length ≤ bound) :
    Agrees (Reached tokens) (Procedure.read stop .pattern us)
      ((Procedure.body stop tokens call .pattern).at k) := by
  rw [Procedure.read, Procedure.body, pattern]
  refine .map ?_
  refine (take_agrees h .pattern).next fun t rest₁ h₁ k₁ hl₁ => ?_
  dsimp only
  cases t.kind with
  | identifier => exact .pure ⟨rfl, hl₁⟩
  | integerLiteral => exact .checked fun v => .pure ⟨rfl, hl₁⟩
  | minus =>
    refine (takeKind_agrees hl₁ .integerLiteral .integer).next fun digits rest₂ h₂ k₂ hl₂ => ?_
    exact .checked fun v => .pure ⟨rfl, hl₂⟩
  | booleanLiteral => exact .pure ⟨rfl, hl₁⟩
  | constructorIdentifier =>
    rcases hl₁.eat .openParen with ⟨e, e'⟩ | ⟨rest₂, h₂, e, e', hl₂⟩
    · simp only [e, Work.at_bind_of_ok e']
      exact .pure ⟨rfl, hl₁⟩
    · simp only [e, Work.at_bind_of_ok e']
      have hlt₂ := Nat.lt_trans h₂ h₁
      refine (hcall.later .pattern hl₂ hlt₂ hbound).next fun first rest₃ h₃ k₃ hl₃ => ?_
      refine (hcall.later (.loop .patterns [first]) hl₃ (Nat.lt_trans h₃ hlt₂) hbound).gathered
        fun more rest₄ h₄ k₄ hl₄ => ?_
      exact (takeKind_agrees hl₄ _ _).next fun _ rest₅ h₅ k₅ hl₅ => .pure ⟨rfl, hl₅⟩
  | openParen =>
    rcases hl₁.eat .closeParen with ⟨e, e'⟩ | ⟨rest₂, h₂, e, e', hl₂⟩
    · simp only [e, Work.at_bind_of_ok e']
      refine (hcall.later .pattern hl₁ h₁ hbound).next fun first rest₂ h₂ k₂ hl₂ => ?_
      have hloop := hcall.later (.loop .patterns [first]) hl₂ (Nat.lt_trans h₂ h₁) hbound
      refine closeList_agrees hloop (fun _ _ _ h' => .pure ⟨rfl, h'⟩) fun _ _ _ a as hr h' => ?_
      exact .pure ⟨hr ▸ rfl, h'⟩
    · simp only [e, Work.at_bind_of_ok e']
      exact .pure ⟨rfl, hl₂⟩
  | _ => exact .error

theorem constructor_agrees (hcall : CallsAgree stop tokens bound call) (h : IsLeft tokens k us)
    (hbound : 11 * us.length ≤ bound) :
    Agrees (Reached tokens) (Procedure.read stop .constructor us)
      ((Procedure.body stop tokens call .constructor).at k) := by
  rw [Procedure.read, Procedure.body, dataConstructor]
  refine .map ?_
  refine (takeKind_agrees h _ _).next fun t rest₁ h₁ k₁ hl₁ => ?_
  dsimp only
  rcases hl₁.eat .openParen with ⟨e, e'⟩ | ⟨rest₂, h₂, e, e', hl₂⟩
  · rw [e, Work.at_bind_of_ok e']
    exact .pure ⟨rfl, hl₁⟩
  · rw [e, Work.at_bind_of_ok e']
    have hlt₂ := Nat.lt_trans h₂ h₁
    refine (hcall.later .type hl₂ hlt₂ hbound).next fun first rest₃ h₃ k₃ hl₃ => ?_
    refine (hcall.later (.loop .types [first]) hl₃ (Nat.lt_trans h₃ hlt₂) hbound).gathered
      fun more rest₄ h₄ k₄ hl₄ => ?_
    exact (takeKind_agrees hl₄ _ _).next fun _ rest₅ h₅ k₅ hl₅ => .pure ⟨rfl, hl₅⟩

theorem parameter_agrees (hcall : CallsAgree stop tokens bound call) (h : IsLeft tokens k us)
    (hbound : 11 * us.length ≤ bound) :
    Agrees (Reached tokens) (Procedure.read stop .parameter us)
      ((Procedure.body stop tokens call .parameter).at k) := by
  rw [Procedure.read, Procedure.body, groupParameter]
  refine .map ?_
  rcases h.eat .openParen with ⟨e, e'⟩ | ⟨rest₁, h₁, e, e', hl₁⟩
  · rw [e, Work.at_bind_of_ok e']
    exact (takeKind_agrees h _ _).next fun x rest₁ h₁ k₁ hl₁ => .pure ⟨rfl, hl₁⟩
  · rw [e, Work.at_bind_of_ok e']
    refine (takeKind_agrees hl₁ _ _).next fun x rest₂ h₂ k₂ hl₂ => ?_
    refine (takeKind_agrees hl₂ _ _).next fun _ rest₃ h₃ k₃ hl₃ => ?_
    refine (hcall.later .type hl₃ (by omega) hbound).next fun t rest₄ h₄ k₄ hl₄ => ?_
    exact (takeKind_agrees hl₄ _ _).next fun _ rest₅ h₅ k₅ hl₅ => .pure ⟨rfl, hl₅⟩

/-! ## 7. Statements -/

theorem expression_agrees (hcall : CallsAgree stop tokens bound call) (h : IsLeft tokens k us)
    (hbound : 11 * us.length + 9 ≤ bound) :
    Agrees (Reached tokens) (Procedure.read stop .expression us)
      ((Procedure.body stop tokens call .expression).at k) := by
  rw [Procedure.read, Procedure.body, expression]
  refine .map ?_
  refine (hcall .statement h hbound).next fun first rest₁ h₁ k₁ hl₁ => ?_
  refine (hcall.later (.loop .statements [first]) hl₁ h₁ (by omega)).gathered
    fun more rest₂ h₂ k₂ hl₂ => ?_
  cases more with
  | nil => exact .pure ⟨rfl, hl₂⟩
  | cons n ns => exact .pure ⟨rfl, hl₂⟩

/-- The next token says which form a statement has. -/
theorem statement_agrees (hcall : CallsAgree stop tokens bound call) (h : IsLeft tokens k us)
    (hbound : 11 * us.length + 8 ≤ bound) :
    Agrees (Reached tokens) (Procedure.read stop .statement us)
      ((Procedure.body stop tokens call .statement).at k) := by
  have hform : ∀ p : Procedure Node, p.rank < 8 →
      Agrees (Reached tokens) (p.read stop us) ((call p).at k) :=
    fun p hp => hcall p h (by omega)
  rw [Procedure.read, Procedure.body, statement, nextKind?, Work.at_bind_of_ok h.peek]
  cases us.head?.map Token.kind with
  | none => exact hform .relation (by decide)
  | some kind =>
    cases kind with
    | keyword w =>
      cases w with
      | letIn => exact hform .letIn (by decide)
      | letRec => exact hform .letRec (by decide)
      | data => exact hform .dataType (by decide)
      | ifThen => exact hform .conditional (by decide)
      | matchWith => exact hform .matchWith (by decide)
      | _ => exact hform .relation (by decide)
    | backslash => exact hform .lambda (by decide)
    | _ => exact hform .relation (by decide)

theorem letIn_agrees (hcall : CallsAgree stop tokens bound call) (h : IsLeft tokens k us)
    (hbound : 11 * us.length ≤ bound) :
    Agrees (Reached tokens) (Procedure.read stop .letIn us)
      ((Procedure.body stop tokens call .letIn).at k) := by
  rw [Procedure.read, Procedure.body, letStatement]
  refine .map ?_
  refine (takeKind_agrees h _ _).next fun start rest₁ h₁ k₁ hl₁ => ?_
  refine (takeKind_agrees hl₁ _ _).next fun x rest₂ h₂ k₂ hl₂ => ?_
  refine (hcall.later .ascription hl₂ (by omega) hbound).maybe
    fun ascription rest₃ h₃ k₃ hl₃ => ?_
  refine (takeKind_agrees hl₃ _ _).next fun _ rest₄ h₄ k₄ hl₄ => ?_
  refine (hcall.later .expression hl₄ (by omega) hbound).next
    fun value rest₅ h₅ k₅ hl₅ => ?_
  refine (takeKind_agrees hl₅ _ _).next fun _ rest₆ h₆ k₆ hl₆ => ?_
  refine (hcall.later .expression hl₆ (by omega) hbound).next
    fun body rest₇ h₇ k₇ hl₇ => ?_
  exact .pure ⟨rfl, hl₇⟩

theorem letRec_agrees (hcall : CallsAgree stop tokens bound call) (h : IsLeft tokens k us)
    (hbound : 11 * us.length ≤ bound) :
    Agrees (Reached tokens) (Procedure.read stop .letRec us)
      ((Procedure.body stop tokens call .letRec).at k) := by
  rw [Procedure.read, Procedure.body, letRecStatement]
  refine .map ?_
  refine (takeKind_agrees h _ _).next fun start rest₁ h₁ k₁ hl₁ => ?_
  refine (hcall.later .function hl₁ h₁ hbound).next fun first rest₂ h₂ k₂ hl₂ => ?_
  refine (hcall.later (.loop .functions [first]) hl₂ (by omega) hbound).gathered
    fun more rest₃ h₃ k₃ hl₃ => ?_
  refine (takeKind_agrees hl₃ _ _).next fun _ rest₄ h₄ k₄ hl₄ => ?_
  refine (hcall.later .expression hl₄ (by omega) hbound).next
    fun body rest₅ h₅ k₅ hl₅ => ?_
  exact .pure ⟨rfl, hl₅⟩

theorem function_agrees (hcall : CallsAgree stop tokens bound call) (h : IsLeft tokens k us)
    (hbound : 11 * us.length ≤ bound) :
    Agrees (Reached tokens) (Procedure.read stop .function us)
      ((Procedure.body stop tokens call .function).at k) := by
  rw [Procedure.read, Procedure.body, groupFunction]
  refine .map ?_
  refine (takeKind_agrees h _ _).next fun f rest₁ h₁ k₁ hl₁ => ?_
  refine (hcall.later .parameter hl₁ h₁ hbound).next fun x rest₂ h₂ k₂ hl₂ => ?_
  refine (hcall.later .ascription hl₂ (by omega) hbound).maybe
    fun ascription rest₃ h₃ k₃ hl₃ => ?_
  refine (takeKind_agrees hl₃ _ _).next fun _ rest₄ h₄ k₄ hl₄ => ?_
  refine (hcall.later .expression hl₄ (by omega) hbound).next
    fun body rest₅ h₅ k₅ hl₅ => ?_
  exact .pure ⟨rfl, hl₅⟩

theorem lambda_agrees (hcall : CallsAgree stop tokens bound call) (h : IsLeft tokens k us)
    (hbound : 11 * us.length ≤ bound) :
    Agrees (Reached tokens) (Procedure.read stop .lambda us)
      ((Procedure.body stop tokens call .lambda).at k) := by
  rw [Procedure.read, Procedure.body, lambda]
  refine .map ?_
  refine (takeKind_agrees h _ _).next fun start rest₁ h₁ k₁ hl₁ => ?_
  refine (takeKind_agrees hl₁ _ _).next fun x rest₂ h₂ k₂ hl₂ => ?_
  refine (hcall.later .lambdaAscription hl₂ (by omega) hbound).maybe
    fun ascription rest₃ h₃ k₃ hl₃ => ?_
  refine (takeKind_agrees hl₃ _ _).next fun _ rest₄ h₄ k₄ hl₄ => ?_
  refine (hcall.later .expression hl₄ (by omega) hbound).next
    fun body rest₅ h₅ k₅ hl₅ => ?_
  exact .pure ⟨rfl, hl₅⟩

theorem dataType_agrees (hcall : CallsAgree stop tokens bound call) (h : IsLeft tokens k us)
    (hbound : 11 * us.length ≤ bound) :
    Agrees (Reached tokens) (Procedure.read stop .dataType us)
      ((Procedure.body stop tokens call .dataType).at k) := by
  rw [Procedure.read, Procedure.body, dataStatement]
  refine .map ?_
  refine (takeKind_agrees h _ _).next fun start rest₁ h₁ k₁ hl₁ => ?_
  refine (takeKind_agrees hl₁ _ _).next fun d rest₂ h₂ k₂ hl₂ => ?_
  refine (takeKind_agrees hl₂ _ _).next fun _ rest₃ h₃ k₃ hl₃ => ?_
  refine (hcall.later .constructor hl₃ (by omega) hbound).next
    fun first rest₄ h₄ k₄ hl₄ => ?_
  refine (hcall.later (.loop .constructors [first]) hl₄ (by omega) hbound).gathered
    fun more rest₅ h₅ k₅ hl₅ => ?_
  refine (takeKind_agrees hl₅ _ _).next fun _ rest₆ h₆ k₆ hl₆ => ?_
  refine (hcall.later .expression hl₆ (by omega) hbound).next
    fun body rest₇ h₇ k₇ hl₇ => ?_
  exact .pure ⟨rfl, hl₇⟩

theorem conditional_agrees (hcall : CallsAgree stop tokens bound call) (h : IsLeft tokens k us)
    (hbound : 11 * us.length ≤ bound) :
    Agrees (Reached tokens) (Procedure.read stop .conditional us)
      ((Procedure.body stop tokens call .conditional).at k) := by
  rw [Procedure.read, Procedure.body, conditional]
  refine .map ?_
  refine (takeKind_agrees h _ _).next fun start rest₁ h₁ k₁ hl₁ => ?_
  refine (hcall.later .expression hl₁ h₁ hbound).next fun condition rest₂ h₂ k₂ hl₂ => ?_
  refine (takeKind_agrees hl₂ _ _).next fun _ rest₃ h₃ k₃ hl₃ => ?_
  refine (hcall.later .expression hl₃ (by omega) hbound).next
    fun thenBranch rest₄ h₄ k₄ hl₄ => ?_
  refine (takeKind_agrees hl₄ _ _).next fun _ rest₅ h₅ k₅ hl₅ => ?_
  refine (hcall.later .statement hl₅ (by omega) hbound).next
    fun elseBranch rest₆ h₆ k₆ hl₆ => ?_
  exact .pure ⟨rfl, hl₆⟩

theorem matchWith_agrees (hcall : CallsAgree stop tokens bound call) (h : IsLeft tokens k us)
    (hbound : 11 * us.length ≤ bound) :
    Agrees (Reached tokens) (Procedure.read stop .matchWith us)
      ((Procedure.body stop tokens call .matchWith).at k) := by
  rw [Procedure.read, Procedure.body, matchStatement]
  refine .map ?_
  refine (takeKind_agrees h _ _).next fun start rest₁ h₁ k₁ hl₁ => ?_
  refine (hcall.later .expression hl₁ h₁ hbound).next fun scrutinee rest₂ h₂ k₂ hl₂ => ?_
  refine (takeKind_agrees hl₂ _ _).next fun _ rest₃ h₃ k₃ hl₃ => ?_
  refine (hcall.later (.loop .arms []) hl₃ (by omega) hbound).behind
    fun arms k₄ hl₄ => ?_
  exact .pure ⟨rfl, hl₄⟩

theorem arm_agrees (hcall : CallsAgree stop tokens bound call) (h : IsLeft tokens k us)
    (hbound : 11 * us.length + 1 ≤ bound) :
    Agrees (Reached tokens) (Procedure.read stop .arm us)
      ((Procedure.body stop tokens call .arm).at k) := by
  rw [Procedure.read, Procedure.body, matchArm]
  refine .map ?_
  refine (hcall .pattern h hbound).next fun p rest₁ h₁ k₁ hl₁ => ?_
  refine (takeKind_agrees hl₁ _ _).next fun _ rest₂ h₂ k₂ hl₂ => ?_
  refine (hcall.later .statement hl₂ (by omega) (by omega)).next
    fun body rest₃ h₃ k₃ hl₃ => ?_
  exact .pure ⟨rfl, hl₃⟩

/-! ## 8. Operators and atoms -/

theorem relation_agrees (hcall : CallsAgree stop tokens bound call) (h : IsLeft tokens k us)
    (hbound : 11 * us.length + 7 ≤ bound) :
    Agrees (Reached tokens) (Procedure.read stop .relation us)
      ((Procedure.body stop tokens call .relation).at k) := by
  rw [Procedure.read, Procedure.body, relation]
  refine .map ?_
  refine (hcall .sum h hbound).next fun lhs rest₁ h₁ k₁ hl₁ => ?_
  dsimp only
  rcases hl₁.eatSome TokenKind.comparison? with ⟨e, e'⟩ | ⟨⟨operator, p⟩, rest₂, h₂, e, e', hl₂⟩
  · rw [e, Work.at_bind_of_ok e']
    exact .pure ⟨rfl, hl₁⟩
  · rw [e, Work.at_bind_of_ok e']
    refine (hcall.later .sum hl₂ (by omega) (by omega)).next
      fun rhs rest₃ h₃ k₃ hl₃ => ?_
    exact .pure ⟨rfl, hl₃⟩

theorem sum_agrees (hcall : CallsAgree stop tokens bound call) (h : IsLeft tokens k us)
    (hbound : 11 * us.length + 6 ≤ bound) :
    Agrees (Reached tokens) (Procedure.read stop .sum us)
      ((Procedure.body stop tokens call .sum).at k) := by
  rw [Procedure.read, Procedure.body, sum]
  refine .map ?_
  refine (hcall .product h hbound).next fun lhs rest₁ h₁ k₁ hl₁ => ?_
  exact (hcall.later (.loop .terms lhs) hl₁ h₁ (by omega)).last fun c => ⟨_, rfl, rfl⟩

theorem product_agrees (hcall : CallsAgree stop tokens bound call) (h : IsLeft tokens k us)
    (hbound : 11 * us.length + 5 ≤ bound) :
    Agrees (Reached tokens) (Procedure.read stop .product us)
      ((Procedure.body stop tokens call .product).at k) := by
  rw [Procedure.read, Procedure.body, product]
  refine .map ?_
  refine (hcall .negation h hbound).next fun lhs rest₁ h₁ k₁ hl₁ => ?_
  exact (hcall.later (.loop .factors lhs) hl₁ h₁ (by omega)).last fun c => ⟨_, rfl, rfl⟩

theorem negation_agrees (hcall : CallsAgree stop tokens bound call) (h : IsLeft tokens k us)
    (hbound : 11 * us.length + 4 ≤ bound) :
    Agrees (Reached tokens) (Procedure.read stop .negation us)
      ((Procedure.body stop tokens call .negation).at k) := by
  rw [Procedure.read, Procedure.body, negation]
  rcases h.eatSome (fun k => if k = .minus then some UnaryOperator.negate else none) with
    ⟨e, e'⟩ | ⟨⟨operator, p⟩, rest₁, h₁, e, e', hl₁⟩
  · rw [e, Work.at_bind_of_ok e']
    exact hcall .application h hbound
  · rw [e, Work.at_bind_of_ok e']
    refine .map ?_
    refine (hcall.later .negation hl₁ h₁ (by omega)).next fun operand rest₂ h₂ k₂ hl₂ => ?_
    exact .pure ⟨rfl, hl₂⟩

theorem application_agrees (hcall : CallsAgree stop tokens bound call) (h : IsLeft tokens k us)
    (hbound : 11 * us.length + 3 ≤ bound) :
    Agrees (Reached tokens) (Procedure.read stop .application us)
      ((Procedure.body stop tokens call .application).at k) := by
  rw [Procedure.read, Procedure.body, application]
  refine .map ?_
  refine (hcall .selection h hbound).next fun function rest₁ h₁ k₁ hl₁ => ?_
  exact (hcall.later (.loop .arguments function) hl₁ h₁ (by omega)).last fun c => ⟨_, rfl, rfl⟩

theorem selection_agrees (hcall : CallsAgree stop tokens bound call) (h : IsLeft tokens k us)
    (hbound : 11 * us.length + 2 ≤ bound) :
    Agrees (Reached tokens) (Procedure.read stop .selection us)
      ((Procedure.body stop tokens call .selection).at k) := by
  rw [Procedure.read, Procedure.body, selection]
  refine .map ?_
  refine (hcall .atom h hbound).next fun target rest₁ h₁ k₁ hl₁ => ?_
  exact (hcall.later (.loop .projections target) hl₁ h₁ (by omega)).last fun c => ⟨_, rfl, rfl⟩

theorem atom_agrees (hcall : CallsAgree stop tokens bound call) (h : IsLeft tokens k us)
    (hbound : 11 * us.length ≤ bound) :
    Agrees (Reached tokens) (Procedure.read stop .atom us)
      ((Procedure.body stop tokens call .atom).at k) := by
  rw [Procedure.read, Procedure.body, atom]
  refine .map ?_
  refine (take_agrees h .expression).next fun t rest₁ h₁ k₁ hl₁ => ?_
  dsimp only
  cases t.kind with
  | integerLiteral => exact .checked fun v => .pure ⟨rfl, hl₁⟩
  | booleanLiteral => exact .pure ⟨rfl, hl₁⟩
  | identifier =>
    cases Builtin.ofText? t.text with
    | some b => exact .pure ⟨rfl, hl₁⟩
    | none => exact .pure ⟨rfl, hl₁⟩
  | constructorIdentifier => exact .pure ⟨rfl, hl₁⟩
  | openParen =>
    rcases hl₁.eat .closeParen with ⟨e, e'⟩ | ⟨rest₂, h₂, e, e', hl₂⟩
    · simp only [e, Work.at_bind_of_ok e']
      refine (hcall.later .expression hl₁ h₁ hbound).next fun first rest₂ h₂ k₂ hl₂ => ?_
      have hloop := hcall.later (.loop .expressions [first]) hl₂ (Nat.lt_trans h₂ h₁) hbound
      refine closeList_agrees hloop (fun _ _ _ h' => .pure ⟨rfl, h'⟩) fun _ _ _ a as hr h' => ?_
      exact .pure ⟨hr ▸ rfl, h'⟩
    · simp only [e, Work.at_bind_of_ok e']
      exact .pure ⟨rfl, hl₂⟩
  | _ => exact .error

/-- Behind the expression of a program nothing is left. -/
theorem program_agrees (hcall : CallsAgree stop tokens bound call) (h : IsLeft tokens k us)
    (hbound : 11 * us.length + 10 ≤ bound) :
    Agrees (Reached tokens) (Procedure.read stop .program us)
      ((Procedure.body stop tokens call .program).at k) := by
  rw [Procedure.read, Procedure.body, program]
  refine .map ?_
  refine (hcall .expression h hbound).next fun e rest₁ h₁ k₁ hl₁ => ?_
  rw [Work.at_bind_of_ok hl₁.peek]
  cases rest₁ with
  | nil => exact .pure ⟨rfl, hl₁⟩
  | cons t rest => exact .error

/-! ## 9. Loops -/

/-- A function reads phrases as long as a sign stands before them. -/
structure ReadsItems (sign : TokenKind) (item : (ts : List Token) → Reads α ts)
    (after : (ts : List Token) → Continues (List α) ts) : Prop where
  none {ts : List Token} (e : skip? sign ts = none) : after ts = .ok (.nothing [] ts)
  some {ts rest : List Token} {h : rest.length < ts.length} (e : skip? sign ts = some ⟨rest, h⟩) :
    after ts = item rest >>= fun a => after a.rest >>= fun more =>
      .ok ⟨a.value :: more.value, more.rest,
        Nat.le_trans more.notLonger (Nat.le_of_lt (Nat.lt_trans a.shorter h))⟩

/-- A function reads operands as long as an operator stands before them, from the left. -/
structure ReadsOperands (select : TokenKind → Option BinaryOperator)
    (operand : (ts : List Token) → Reads Node ts)
    (after : Node → (ts : List Token) → Continues Node ts) : Prop where
  none {lhs : Node} {ts : List Token} (e : select? select ts = none) :
    after lhs ts = .ok (.nothing lhs ts)
  some {lhs : Node} {ts rest : List Token} {operator : BinaryOperator} {p : Position}
    {h : rest.length < ts.length} (e : select? select ts = some ⟨(operator, p), rest, h⟩) :
    after lhs ts = operand rest >>= fun rhs =>
      after (.binary (.at p) operator lhs rhs.value) rhs.rest >>= fun result =>
        .ok ⟨result.value, result.rest,
          Nat.le_trans result.notLonger (Nat.le_of_lt (Nat.lt_trans rhs.shorter h))⟩

theorem typesAfter_readsItems : ReadsItems .comma (Parser.type stop) (typesAfter stop) where
  none e := by rw [typesAfter, e]; rfl
  some e := by rw [typesAfter, e]; rfl

theorem patternsAfter_readsItems :
    ReadsItems .comma (Parser.pattern stop) (patternsAfter stop) where
  none e := by rw [patternsAfter, e]; rfl
  some e := by rw [patternsAfter, e]; rfl

theorem dataConstructorsAfter_readsItems :
    ReadsItems .pipe (dataConstructor stop) (dataConstructorsAfter stop) where
  none e := by rw [dataConstructorsAfter, e]; rfl
  some e := by rw [dataConstructorsAfter, e]; rfl

theorem statementsAfter_readsItems :
    ReadsItems .semicolon (Parser.statement stop) (statementsAfter stop) where
  none e := by rw [statementsAfter, e]; rfl
  some e := by rw [statementsAfter, e]; rfl

theorem groupFunctionsAfter_readsItems :
    ReadsItems (.keyword .and) (groupFunction stop) (groupFunctionsAfter stop) where
  none e := by rw [groupFunctionsAfter, e]; rfl
  some e := by rw [groupFunctionsAfter, e]; rfl

theorem expressionsAfter_readsItems :
    ReadsItems .comma (Parser.expression stop) (expressionsAfter stop) where
  none e := by rw [expressionsAfter, e]; rfl
  some e := by rw [expressionsAfter, e]; rfl

theorem termsAfter_readsOperands :
    ReadsOperands TokenKind.termOperator? (Parser.product stop) (termsAfter stop) where
  none e := by rw [termsAfter, e]; rfl
  some e := by rw [termsAfter, e]; rfl

theorem factorsAfter_readsOperands :
    ReadsOperands TokenKind.factorOperator? (Parser.negation stop) (factorsAfter stop) where
  none e := by rw [factorsAfter, e]; rfl
  some e := by rw [factorsAfter, e]; rfl

/-- The rest of a list with signs between its phrases. -/
theorem items_agree {sign : TokenKind} {item : (ts : List Token) → Reads α ts}
    {after : (ts : List Token) → Continues (List α) ts} (hafter : ReadsItems sign item after)
    (p : Procedure α) (l : Loop (List α)) {items : List α}
    (hp : ∀ ts, p.read stop ts = Parsed.plain <$> item ts)
    (hl : ∀ items ts, l.read stop items ts = (fun r => (items ++ r.value, r.rest)) <$> after ts)
    (hcall : CallsAgree stop tokens bound call) (h : IsLeft tokens k us)
    (hbound : 11 * us.length ≤ bound) :
    Agrees (Reached tokens) (l.read stop items us)
      ((nextItem tokens sign (call p) items >>=
        Turn.goOn fun items => call (.loop l items)).at k) := by
  rw [hl, nextItem, bind_assoc]
  refine .map ?_
  rcases h.eat sign with ⟨e, e'⟩ | ⟨rest₁, h₁, e, e', hl₁⟩
  · rw [hafter.none e, Work.at_bind_of_ok e']
    exact .pure ⟨List.append_nil items, h⟩
  · rw [hafter.some e, Work.at_bind_of_ok e', if_pos rfl, bind_assoc]
    have hitem := hcall.later p hl₁ h₁ hbound
    rw [hp] at hitem
    refine hitem.next fun a rest₂ h₂ k₂ hl₂ => ?_
    have hloop := hcall.later (.loop l (items ++ [a])) hl₂ (Nat.lt_trans h₂ h₁) hbound
    rw [Procedure.read, hl] at hloop
    -- the loop has the phrase among those that it gathered, the function puts it before the others
    refine hloop.last fun c => ⟨_, rfl, ?_⟩
    rw [List.append_cons]

/-- The rest of a row of operands with operators between them. -/
theorem operands_agree {select : TokenKind → Option BinaryOperator}
    {operand : (ts : List Token) → Reads Node ts}
    {after : Node → (ts : List Token) → Continues Node ts}
    (hafter : ReadsOperands select operand after) (p : Procedure Node) (l : Loop Node) {lhs : Node}
    (hp : ∀ ts, p.read stop ts = Parsed.plain <$> operand ts)
    (hl : ∀ lhs ts, l.read stop lhs ts = Trailing.plain <$> after lhs ts)
    (hcall : CallsAgree stop tokens bound call) (h : IsLeft tokens k us)
    (hbound : 11 * us.length ≤ bound) :
    Agrees (Reached tokens) (l.read stop lhs us)
      ((nextOperand tokens select (call p) lhs >>=
        Turn.goOn fun lhs => call (.loop l lhs)).at k) := by
  rw [hl, nextOperand, bind_assoc]
  refine .map ?_
  rcases h.eatSome select with ⟨e, e'⟩ | ⟨⟨operator, q⟩, rest₁, h₁, e, e', hl₁⟩
  · rw [hafter.none e, Work.at_bind_of_ok e']
    exact .pure ⟨rfl, h⟩
  · rw [hafter.some e, Work.at_bind_of_ok e']
    dsimp only
    rw [bind_assoc]
    have hoperand := hcall.later p hl₁ h₁ hbound
    rw [hp] at hoperand
    refine hoperand.next fun rhs rest₂ h₂ k₂ hl₂ => ?_
    have hloop := hcall.later (.loop l (.binary (.at q) operator lhs rhs)) hl₂
      (Nat.lt_trans h₂ h₁) hbound
    rw [Procedure.read, hl] at hloop
    exact hloop.last fun c => ⟨_, rfl, rfl⟩

theorem arguments_agree {function : Node} (hcall : CallsAgree stop tokens bound call)
    (h : IsLeft tokens k us) (hbound : 11 * us.length + 3 ≤ bound) :
    Agrees (Reached tokens) (Loop.read stop .arguments function us)
      ((Procedure.body stop tokens call (.loop .arguments function)).at k) := by
  rw [Loop.read, Procedure.body, Loop.turn, argumentsAfter, nextKind?]
  simp only [bind_assoc, Option.any_map]
  rw [Work.at_bind_of_ok h.peek]
  refine .map ?_
  split
  · rw [bind_assoc]
    refine (hcall .selection h hbound).next fun argument rest₁ h₁ k₁ hl₁ => ?_
    have hloop := hcall.later
      (.loop .arguments (.application (.at function.position) function argument)) hl₁ h₁ (by omega)
    exact hloop.last fun c => ⟨_, rfl, rfl⟩
  · exact .pure ⟨rfl, h⟩

theorem projections_agree {target : Node} (hcall : CallsAgree stop tokens bound call)
    (h : IsLeft tokens k us) (hbound : 11 * us.length ≤ bound) :
    Agrees (Reached tokens) (Loop.read stop .projections target us)
      ((Procedure.body stop tokens call (.loop .projections target)).at k) := by
  rw [Loop.read, Procedure.body, Loop.turn, projectionsAfter]
  simp only [bind_assoc]
  refine .map ?_
  rcases h.eatSome (fun k => if k = .dot then some () else none) with
    ⟨e, e'⟩ | ⟨⟨⟨⟩, dot⟩, rest₁, h₁, e, e', hl₁⟩
  · rw [e, Work.at_bind_of_ok e']
    exact .pure ⟨rfl, h⟩
  · rw [e, Work.at_bind_of_ok e']
    dsimp only
    simp only [bind_assoc, pure_bind]
    refine (takeKind_agrees hl₁ _ _).next fun t rest₂ h₂ k₂ hl₂ => ?_
    refine .checked fun index => ?_
    have hloop := hcall.later (.loop .projections (.projection (.at dot) index none target)) hl₂
      (Nat.lt_trans h₂ h₁) hbound
    exact hloop.last fun c => ⟨_, rfl, rfl⟩

theorem arms_agree {arms : List Node} (hcall : CallsAgree stop tokens bound call)
    (h : IsLeft tokens k us) (hbound : 11 * us.length + 2 ≤ bound) :
    Agrees (Reached tokens) (Loop.read stop .arms arms us)
      ((Procedure.body stop tokens call (.loop .arms arms)).at k) := by
  rw [Loop.read, Procedure.body, Loop.turn, matchArms]
  simp only [bind_assoc]
  refine .map ?_
  refine (hcall .arm h hbound).next fun arm rest₁ h₁ k₁ hl₁ => ?_
  dsimp only
  rcases hl₁.eat .semicolon with ⟨e, e'⟩ | ⟨rest₂, h₂, e, e', hl₂⟩
  · rw [e, Work.at_bind_of_ok e', if_neg Bool.false_ne_true, bind_assoc]
    refine (takeKind_agrees hl₁ _ _).next fun _ rest₂ h₂ k₂ hl₂ => ?_
    exact .pure ⟨rfl, hl₂⟩
  · rw [e, Work.at_bind_of_ok e', if_pos rfl, bind_assoc]
    dsimp only
    -- behind a semicolon either another arm begins or the brace is closed
    rcases hl₂.eat .closeBrace with ⟨e, e'⟩ | ⟨rest₃, h₃, e, e', hl₃⟩
    · rw [e, Work.at_bind_of_ok e']
      refine (hcall.later (.loop .arms (arms ++ [arm])) hl₂ (by omega) (by omega)).last
        fun c => ⟨_, rfl, ?_⟩
      rw [List.append_cons]
    · rw [e, Work.at_bind_of_ok e']
      exact .pure ⟨rfl, hl₃⟩

theorem loop_agrees (l : Loop α) {gathered : α} (hcall : CallsAgree stop tokens bound call)
    (h : IsLeft tokens k us) (hbound : 11 * us.length + l.rank ≤ bound) :
    Agrees (Reached tokens) (l.read stop gathered us)
      ((Procedure.body stop tokens call (.loop l gathered)).at k) := by
  cases l with
  | types =>
    exact items_agree typesAfter_readsItems .type .types
      (fun _ => rfl) (fun _ _ => rfl) hcall h hbound
  | patterns =>
    exact items_agree patternsAfter_readsItems .pattern .patterns
      (fun _ => rfl) (fun _ _ => rfl) hcall h hbound
  | constructors =>
    exact items_agree dataConstructorsAfter_readsItems .constructor .constructors
      (fun _ => rfl) (fun _ _ => rfl) hcall h hbound
  | statements =>
    exact items_agree statementsAfter_readsItems .statement .statements
      (fun _ => rfl) (fun _ _ => rfl) hcall h hbound
  | functions =>
    exact items_agree groupFunctionsAfter_readsItems .function .functions
      (fun _ => rfl) (fun _ _ => rfl) hcall h hbound
  | expressions =>
    exact items_agree expressionsAfter_readsItems .expression .expressions
      (fun _ => rfl) (fun _ _ => rfl) hcall h hbound
  | terms =>
    exact operands_agree termsAfter_readsOperands .product .terms
      (fun _ => rfl) (fun _ _ => rfl) hcall h hbound
  | factors =>
    exact operands_agree factorsAfter_readsOperands .negation .factors
      (fun _ => rfl) (fun _ _ => rfl) hcall h hbound
  | arguments => exact arguments_agree hcall h hbound
  | projections => exact projections_agree hcall h hbound
  | arms => exact arms_agree hcall h hbound

/-! ## 10. Procedures -/

/-- **A procedure agrees with its function** as long as the calls it makes agree with theirs. -/
theorem body_agrees (hcall : CallsAgree stop tokens bound call) (p : Procedure α)
    (h : IsLeft tokens k us) (hbound : 11 * us.length + p.rank ≤ bound) :
    Agrees (Reached tokens) (p.read stop us) ((p.body stop tokens call).at k) := by
  cases p with
  | type => exact type_agrees hcall h hbound
  | typeAtom => exact typeAtom_agrees hcall h hbound
  | ascription => exact optionalAscription_agrees hcall h hbound
  | lambdaAscription => exact lambdaAscription_agrees hcall h hbound
  | pattern => exact pattern_agrees hcall h hbound
  | constructor => exact constructor_agrees hcall h hbound
  | parameter => exact parameter_agrees hcall h hbound
  | expression => exact expression_agrees hcall h hbound
  | statement => exact statement_agrees hcall h hbound
  | letIn => exact letIn_agrees hcall h hbound
  | letRec => exact letRec_agrees hcall h hbound
  | function => exact function_agrees hcall h hbound
  | lambda => exact lambda_agrees hcall h hbound
  | dataType => exact dataType_agrees hcall h hbound
  | conditional => exact conditional_agrees hcall h hbound
  | matchWith => exact matchWith_agrees hcall h hbound
  | arm => exact arm_agrees hcall h hbound
  | relation => exact relation_agrees hcall h hbound
  | sum => exact sum_agrees hcall h hbound
  | product => exact product_agrees hcall h hbound
  | negation => exact negation_agrees hcall h hbound
  | application => exact application_agrees hcall h hbound
  | selection => exact selection_agrees hcall h hbound
  | atom => exact atom_agrees hcall h (Nat.le_of_succ_le hbound)
  | program => exact program_agrees hcall h hbound
  | loop l gathered => exact loop_agrees l hcall h hbound

end Bodies

/-- **Down to a depth, every call agrees** that begins with few enough tokens left for it. -/
theorem perform_agrees (stop : Position) (tokens : List Token) (depth : Nat) :
    CallsAgree stop tokens depth (perform stop tokens depth) := by
  -- what a procedure calls has one level less, which its rank or the tokens it has taken make up
  -- for
  induction depth with
  | zero => exact fun _ _ _ _ hbound => absurd hbound (Nat.not_lt_zero _)
  | succ depth ih => exact fun p _ _ h hbound => body_agrees ih p h (Nat.lt_succ_iff.1 hbound)

end Parser

end ClosureML
