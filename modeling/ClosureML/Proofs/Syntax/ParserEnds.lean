import ClosureML.Proofs.Syntax.ProceduresAgree

/-!
# The parser makes progress and ends

Nothing in the procedures of the parser says that a call returns: they call each other without
having taken a token, and their loops turn until they are left. They end all the same. From an
expression down to an atom no procedure comes back to itself before a token is taken, and what was
taken is never put back; so the number of tokens that are left, and behind it the rank of a
procedure, bound how deep calls can go.

* `Procedure.answer`: what a procedure gives at a place;
* `Procedure.IsPhrase`, `Loop.IsIteration`: the procedures that take a token whenever they give
  something, and the turns of a loop that do;
* `Ends`: work ends, and a statement holds of what it gives and of the place that it reaches.

Main statement: `procedures_end`.
-/

namespace ClosureML

namespace Parser

variable {α β γ : Type} {stop : Position} {tokens us rest : List Token} {k k' : Nat}

/-! ## 1. What procedures give -/

/-- What a procedure gives at a place: what the function of the parser gives on the tokens that are
    left there, and the place behind the tokens that it took. -/
def Procedure.answer (stop : Position) (tokens : List Token) (p : Procedure α) (k : Nat) :
    Except CompileError (α × Nat) :=
  (fun r => (r.1, tokens.length - r.2.length)) <$> p.read stop (tokens.drop k)

/-- A procedure that takes a token whenever it gives something: all but the types that may be left
    out, and the loops, which may be left at once. -/
def Procedure.IsPhrase : {α : Type} → Procedure α → Prop
  | _, .ascription | _, .lambdaAscription | _, .loop _ _ => False
  | _, _ => True

/-- A turn that is an iteration of its loop. Most loops are left before anything is done; the one
    over the arms of a `match` is left behind an arm. -/
def Loop.IsIteration : {α : Type} → Loop α → Turn α → Prop
  | _, .arms, _ => True
  | _, _, .again _ => True
  | _, _, .leave _ => False

/-- What agrees is the same, with the tokens that are left counted. -/
theorem Agrees.eq_counted {x : Except CompileError (α × List Token)}
    {y : Option (Except CompileError (α × Nat))} (h : Agrees (Reached tokens) x y) :
    y = some ((fun r => (r.1, tokens.length - r.2.length)) <$> x) := by
  cases h with
  | error => rfl
  | @ok r a k h =>
    obtain ⟨rfl, hl⟩ := h
    have hk : k = tokens.length - r.2.length := Nat.eq_sub_of_add_eq' hl.length
    rw [hk]
    rfl

/-- What a map gives comes from what was mapped. -/
theorem ok_of_map {f : β → γ} {x : Except CompileError β} {c : γ} (h : f <$> x = .ok c) :
    ∃ b, x = .ok b ∧ f b = c := by
  cases x with
  | error e => cases h
  | ok b => exact ⟨b, rfl, Except.ok.inj h⟩

theorem Loop.read_length_le (l : Loop α) {gathered : α} {r : α × List Token}
    (h : l.read stop gathered us = .ok r) : r.2.length ≤ us.length := by
  cases l with
  | arms =>
    obtain ⟨c, -, rfl⟩ := ok_of_map h
    exact Nat.le_of_lt c.shorter
  | _ =>
    obtain ⟨c, -, rfl⟩ := ok_of_map h
    exact c.notLonger

/-- A phrase has a token at least. -/
theorem Procedure.read_length_lt {p : Procedure α} {r : α × List Token}
    (h : p.read stop us = .ok r) (hp : p.IsPhrase) : r.2.length < us.length := by
  cases p with
  | ascription => exact hp.elim
  | lambdaAscription => exact hp.elim
  | loop l gathered => exact hp.elim
  | program =>
    obtain ⟨n, hn, rfl⟩ := ok_of_map h
    rw [Parser.program] at hn
    -- a program ends with the last token, and the expression in it has taken one
    cases he : Parser.expression stop us with
    | error e =>
      rw [he] at hn
      cases hn
    | ok c => exact Nat.zero_lt_of_lt c.shorter
  | _ =>
    obtain ⟨c, -, rfl⟩ := ok_of_map h
    exact c.shorter

/-- No procedure puts a token back. -/
theorem Procedure.read_length_le (p : Procedure α) {r : α × List Token}
    (h : p.read stop us = .ok r) : r.2.length ≤ us.length := by
  cases p with
  | ascription =>
    obtain ⟨c, -, rfl⟩ := ok_of_map h
    exact c.notLonger
  | lambdaAscription =>
    obtain ⟨c, -, rfl⟩ := ok_of_map h
    exact c.notLonger
  | loop l gathered => exact l.read_length_le h
  | _ => exact Nat.le_of_lt (Procedure.read_length_lt h trivial)

/-! ## 2. Work that ends -/

/-- Work ends, with an error or with something that a statement holds of. -/
def Ends (P : α → Nat → Prop) (y : Option (Except CompileError (α × Nat))) : Prop :=
  ∃ r, y = some r ∧ ∀ a k, r = .ok (a, k) → P a k

/-- At a place that is reached, some of the tokens are left that were left before; not all of them
    if `s`. -/
def Taken (tokens us : List Token) (s : Prop) (k : Nat) : Prop :=
  ∃ rest, IsLeft tokens k rest ∧ rest.length ≤ us.length ∧ (s → rest.length < us.length)

section Ends

variable {P : α → Nat → Prop} {Q : β → Nat → Prop} {m : Work α} {f : α → Work β} {s : Prop}

theorem Taken.some (h : IsLeft tokens k rest) (hlt : rest.length < us.length) :
    Taken tokens us s k := ⟨rest, h, Nat.le_of_lt hlt, fun _ => hlt⟩

theorem Taken.none (h : IsLeft tokens k us) (hs : ¬ s) : Taken tokens us s k :=
  ⟨us, h, Nat.le_refl _, fun h' => absurd h' hs⟩

/-- Tokens that were taken stand between two places. -/
theorem Taken.between (h : IsLeft tokens k us) (ht : Taken tokens us s k') :
    k ≤ k' ∧ k' ≤ tokens.length ∧ (s → k < k') := by
  obtain ⟨rest, hrest, hle, hlt⟩ := ht
  have hk := h.length
  have hk' := hrest.length
  exact ⟨by omega, hrest.le, fun hs => by have := hlt hs; omega⟩

theorem Ends.pure {a : α} (h : P a k) : Ends P ((pure a : Work α).at k) :=
  ⟨_, rfl, fun _ _ e => by cases e; exact h⟩

/-- Behind what agrees with a function, the tokens that it leaves are left. -/
theorem Ends.behind {x : Except CompileError (α × List Token)}
    (hx : Agrees (Reached tokens) x (m.at k))
    (hf : ∀ r k', x = .ok r → IsLeft tokens k' r.2 → Ends Q ((f r.1).at k')) :
    Ends Q ((m >>= f).at k) := by
  generalize hm : m.at k = y at hx
  cases hx with
  | ok h =>
    obtain ⟨rfl, hl⟩ := h
    rw [Work.at_bind_of_ok hm]
    exact hf _ _ rfl hl
  | error =>
    rw [Work.at_bind_of_error hm]
    exact ⟨_, rfl, fun _ _ e => by cases e⟩

theorem Ends.checked {x : Except CompileError α} (hf : ∀ a, Ends Q ((f a).at k)) :
    Ends Q ((Work.check x >>= f).at k) := by
  cases x with
  | ok a => exact hf a
  | error e => exact ⟨.error e, rfl, fun _ _ h => by cases h⟩

end Ends

/-! ## 3. Turns of loops -/

section Turns

variable {bound : Nat} {call : {α : Type} → Procedure α → Work α}

/-- A turn over phrases with a sign between them takes the sign and a phrase, or nothing. -/
theorem nextItem_ends {sign : TokenKind} {items : List α} (l : Loop (List α)) (p : Procedure α)
    (hl : ¬ l.IsIteration (.leave items)) (hp : p.IsPhrase)
    (hcall : CallsAgree stop tokens bound call) (h : IsLeft tokens k us)
    (hbound : 11 * us.length ≤ bound) :
    Ends (fun t => Taken tokens us (l.IsIteration t))
      ((nextItem tokens sign (call p) items).at k) := by
  rw [nextItem]
  rcases h.eat sign with ⟨-, e⟩ | ⟨rest₁, h₁, -, e, hl₁⟩
  · rw [Work.at_bind_of_ok e]
    exact .pure (.none h hl)
  · rw [Work.at_bind_of_ok e]
    refine .behind (hcall.later p hl₁ h₁ hbound) fun r k₂ hr hl₂ => ?_
    exact .pure (.some hl₂ (Nat.lt_trans (Procedure.read_length_lt hr hp) h₁))

theorem nextOperand_ends {select : TokenKind → Option BinaryOperator} {lhs : Node} (l : Loop Node)
    (p : Procedure Node) (hl : ¬ l.IsIteration (.leave lhs)) (hp : p.IsPhrase)
    (hcall : CallsAgree stop tokens bound call) (h : IsLeft tokens k us)
    (hbound : 11 * us.length ≤ bound) :
    Ends (fun t => Taken tokens us (l.IsIteration t))
      ((nextOperand tokens select (call p) lhs).at k) := by
  rw [nextOperand]
  rcases h.eatSome select with ⟨-, e⟩ | ⟨⟨operator, q⟩, rest₁, h₁, -, e, hl₁⟩
  · rw [Work.at_bind_of_ok e]
    exact .pure (.none h hl)
  · rw [Work.at_bind_of_ok e]
    refine .behind (hcall.later p hl₁ h₁ hbound) fun r k₂ hr hl₂ => ?_
    exact .pure (.some hl₂ (Nat.lt_trans (Procedure.read_length_lt hr hp) h₁))

/-- An argument begins with the token that says that there is one. -/
theorem nextArgument_ends {function : Node} (hcall : CallsAgree stop tokens bound call)
    (h : IsLeft tokens k us) (hbound : 11 * us.length + 3 ≤ bound) :
    Ends (fun t => Taken tokens us (Loop.arguments.IsIteration t))
      ((Loop.turn stop tokens call .arguments function).at k) := by
  rw [Loop.turn, Work.at_bind_of_ok h.peek]
  split
  · refine .behind (hcall .selection h hbound) fun r k₁ hr hl₁ => ?_
    exact .pure (.some hl₁ (Procedure.read_length_lt hr trivial))
  · exact .pure (.none h id)

theorem nextProjection_ends {target : Node} (h : IsLeft tokens k us) :
    Ends (fun t => Taken tokens us (Loop.projections.IsIteration t))
      ((Loop.turn stop tokens call .projections target).at k) := by
  rw [Loop.turn]
  rcases h.eatSome (fun k => if k = .dot then some () else none) with
    ⟨-, e⟩ | ⟨⟨⟨⟩, dot⟩, rest₁, h₁, -, e, hl₁⟩
  · rw [Work.at_bind_of_ok e]
    exact .pure (.none h id)
  · rw [Work.at_bind_of_ok e]
    refine .behind (takeKind_agrees hl₁ _ _) fun r k₂ hr hl₂ => .checked fun index => ?_
    obtain ⟨c, -, rfl⟩ := ok_of_map hr
    exact .pure (.some hl₂ (Nat.lt_trans c.shorter h₁))

/-- An arm takes tokens, and what stands behind it never puts one back. -/
theorem nextArm_ends {arms : List Node} (hcall : CallsAgree stop tokens bound call)
    (h : IsLeft tokens k us) (hbound : 11 * us.length + 2 ≤ bound) :
    Ends (fun t => Taken tokens us (Loop.arms.IsIteration t))
      ((Loop.turn stop tokens call .arms arms).at k) := by
  rw [Loop.turn]
  refine .behind (hcall .arm h hbound) fun r k₁ hr hl₁ => ?_
  -- the arm has taken tokens, so that every way on takes some
  have h₁ := Procedure.read_length_lt hr trivial
  rcases hl₁.eat .semicolon with ⟨-, e⟩ | ⟨rest₂, h₂, -, e, hl₂⟩
  · rw [Work.at_bind_of_ok e]
    refine .behind (takeKind_agrees hl₁ _ _) fun r' k₂ hr' hl₂ => ?_
    obtain ⟨c, -, rfl⟩ := ok_of_map hr'
    exact .pure (.some hl₂ (Nat.lt_trans c.shorter h₁))
  · rw [Work.at_bind_of_ok e, if_pos rfl]
    have h₂ := Nat.lt_trans h₂ h₁
    rcases hl₂.eat .closeBrace with ⟨-, e⟩ | ⟨rest₃, h₃, -, e, hl₃⟩
    · rw [Work.at_bind_of_ok e]
      exact .pure (.some hl₂ h₂)
    · rw [Work.at_bind_of_ok e]
      exact .pure (.some hl₃ (Nat.lt_trans h₃ h₂))

/-- **Every turn of a loop ends**, and takes tokens if it is an iteration. -/
theorem turn_ends (l : Loop α) {gathered : α} (hcall : CallsAgree stop tokens bound call)
    (h : IsLeft tokens k us) (hbound : 11 * us.length + l.rank ≤ bound) :
    Ends (fun t => Taken tokens us (l.IsIteration t))
      ((l.turn stop tokens call gathered).at k) := by
  cases l with
  | types => exact nextItem_ends .types .type id trivial hcall h hbound
  | patterns => exact nextItem_ends .patterns .pattern id trivial hcall h hbound
  | constructors => exact nextItem_ends .constructors .constructor id trivial hcall h hbound
  | statements => exact nextItem_ends .statements .statement id trivial hcall h hbound
  | functions => exact nextItem_ends .functions .function id trivial hcall h hbound
  | expressions => exact nextItem_ends .expressions .expression id trivial hcall h hbound
  | terms => exact nextOperand_ends .terms .product id trivial hcall h hbound
  | factors => exact nextOperand_ends .factors .negation id trivial hcall h hbound
  | arguments => exact nextArgument_ends hcall h hbound
  | projections => exact nextProjection_ends h
  | arms => exact nextArm_ends hcall h hbound

end Turns

/-! ## 4. The parser ends -/

/-- **The parser makes progress and ends**, whatever the tokens are. At a depth that their number
    gives, reading a program is not cut off and gives what the parser gives. So it is with every
    procedure, wherever it begins: it comes to a place that is neither before that one nor beyond
    the last token, and that is behind it if it reads a phrase. Every turn of a loop ends as well,
    and an iteration takes a token. -/
theorem procedures_end (stop : Position) (tokens : List Token) :
    (∀ depth, 11 * tokens.length + 10 < depth →
      (perform stop tokens depth .program).at 0 =
        some ((·, tokens.length) <$> program stop tokens)) ∧
    (∀ {α : Type} (p : Procedure α) (k : Nat), k ≤ tokens.length →
      (∀ depth, 11 * (tokens.length - k) + p.rank < depth →
        (perform stop tokens depth p).at k = some (p.answer stop tokens k)) ∧
      ∀ a k', p.answer stop tokens k = .ok (a, k') →
        k ≤ k' ∧ k' ≤ tokens.length ∧ (p.IsPhrase → k < k')) ∧
    ∀ {α : Type} (l : Loop α) (gathered : α) (k depth : Nat), k ≤ tokens.length →
      11 * (tokens.length - k) + l.rank ≤ depth →
      ∃ r, (l.turn stop tokens (perform stop tokens depth) gathered).at k = some r ∧
        ∀ t k', r = .ok (t, k') → k ≤ k' ∧ k' ≤ tokens.length ∧ (l.IsIteration t → k < k') := by
  have hleft : ∀ k ≤ tokens.length, IsLeft tokens k (tokens.drop k) := fun k hk => ⟨rfl, hk⟩
  refine ⟨fun depth hdepth => ?_, fun p k hk => ⟨fun depth hdepth => ?_, fun a k' ha => ?_⟩,
    fun l gathered k depth hk hdepth => ?_⟩
  · have h := perform_agrees stop tokens depth .program (hleft 0 (Nat.zero_le _)) hdepth
    rw [h.eq_counted, Procedure.read, List.drop_zero]
    cases program stop tokens with
    | ok n => rfl
    | error e => rfl
  · rw [← List.length_drop] at hdepth
    exact (perform_agrees stop tokens depth p (hleft k hk) hdepth).eq_counted
  · obtain ⟨r, hr, he⟩ := ok_of_map ha
    obtain ⟨rfl, rfl⟩ := Prod.mk.inj he
    have hle := p.read_length_le hr
    have hlt := Procedure.read_length_lt hr
    rw [List.length_drop] at hle hlt
    exact ⟨by omega, Nat.sub_le _ _, fun hp => by have := hlt hp; omega⟩
  · rw [← List.length_drop] at hdepth
    obtain ⟨r, hr, ht⟩ := turn_ends l (perform_agrees stop tokens depth) (hleft k hk) hdepth
    exact ⟨r, hr, fun t k' e => (ht t k' e).between (hleft k hk)⟩

/-- The tokens of `f x )`, which are not those of a program. -/
def strayParenthesis : List Token :=
  [⟨.identifier, "f", 0, 1, ⟨1, 1⟩⟩, ⟨.identifier, "x", 2, 3, ⟨1, 3⟩⟩,
    ⟨.closeParen, ")", 4, 5, ⟨1, 5⟩⟩]

/-- The tree of `f x`. -/
def callOfF : Node :=
  .application (.at ⟨1, 1⟩) (.reference (.at ⟨1, 1⟩) "f") (.reference (.at ⟨1, 3⟩) "x")

theorem procedures_end_strayParenthesis :
    program ⟨1, 6⟩ strayParenthesis = .error ⟨.unexpectedToken .endOfInput ")", ⟨1, 5⟩⟩ ∧
      (0 ≤ strayParenthesis.length ∧
        Procedure.answer ⟨1, 6⟩ strayParenthesis .expression 0 = .ok (callOfF, 2) ∧
        2 ≤ strayParenthesis.length ∧ Procedure.expression.IsPhrase ∧ 0 < 2) ∧
      (1 ≤ strayParenthesis.length ∧
        (Loop.turn ⟨1, 6⟩ strayParenthesis (perform ⟨1, 6⟩ strayParenthesis 44) .arguments
          (.reference (.at ⟨1, 1⟩) "f")).at 1 = some (.ok (.again callOfF, 2)) ∧
        Loop.arguments.IsIteration (.again callOfF) ∧ 1 < 2) := by
  obtain ⟨hprogram, hprocedure, hloop⟩ := procedures_end ⟨1, 6⟩ strayParenthesis
  have hdepth : 11 * strayParenthesis.length + 10 < 44 := by decide
  refine ⟨?_, ⟨Nat.zero_le _, ?_⟩, ⟨by decide, ?_⟩⟩
  · have hrun : (perform ⟨1, 6⟩ strayParenthesis 44 .program).at 0 =
        some (.error ⟨.unexpectedToken .endOfInput ")", ⟨1, 5⟩⟩) := rfl
    have h := Option.some.inj ((hprogram 44 hdepth).symm.trans hrun)
    cases hp : program ⟨1, 6⟩ strayParenthesis with
    | ok n =>
      rw [hp] at h
      cases h
    | error e =>
      rw [hp] at h
      cases h
      rfl
  · obtain ⟨hends, htaken⟩ := hprocedure .expression 0 (Nat.zero_le _)
    have hrun : (perform ⟨1, 6⟩ strayParenthesis 44 .expression).at 0 =
        some (.ok (callOfF, 2)) := rfl
    have h := Option.some.inj ((hends 44 (by decide)).symm.trans hrun)
    obtain ⟨-, hle, hlt⟩ := htaken callOfF 2 h
    exact ⟨h, hle, trivial, hlt trivial⟩
  · obtain ⟨r, h, htaken⟩ := hloop .arguments (.reference (.at ⟨1, 1⟩) "f") 1 44 (by decide)
      (by decide)
    have hrun : (Loop.turn ⟨1, 6⟩ strayParenthesis (perform ⟨1, 6⟩ strayParenthesis 44) .arguments
        (.reference (.at ⟨1, 1⟩) "f")).at 1 = some (.ok (.again callOfF, 2)) := rfl
    obtain ⟨-, -, hlt⟩ := htaken (.again callOfF) 2 (Option.some.inj (h.symm.trans hrun))
    exact ⟨hrun, trivial, hlt trivial⟩

end Parser

end ClosureML
