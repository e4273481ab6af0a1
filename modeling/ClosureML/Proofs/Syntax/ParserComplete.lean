import ClosureML.Proofs.Syntax.Reading

/-!
# What is spelled is read

Tokens that spell an expression are read as that expression, up to the marks. A statement that no
semicolon ends reads on to the end of the brackets around it; sums, products, applications and
projections are read from the left.

* `BeginsAtom`, `BeginsRelation`: what the first token of a phrase can be;
* `ReadsInto`: a phrase is read, and what follows it is read into it.

Main statement: `Parser.reads_program`.
-/

namespace ClosureML

namespace Parser

variable {stop : Position} {rest : List Token}

/-! ## 1. Where expressions begin -/

/-- The tokens begin with one that an atom can begin with. -/
def BeginsAtom (ts : List Token) : Prop := ∃ t us, ts = t :: us ∧ t.kind.startsAtom = true

/-- The tokens begin with one that a relation can begin with. -/
def BeginsRelation (ts : List Token) : Prop :=
  ∃ t us, ts = t :: us ∧ (t.kind.startsAtom = true ∨ t.kind = .minus)

theorem BeginsAtom.cons {t : Token} {ts : List Token} {kind : TokenKind} (h : t.kind = kind)
    (hkind : kind.startsAtom = true) : BeginsAtom (t :: ts) := ⟨t, ts, rfl, h ▸ hkind⟩

theorem BeginsAtom.append {ts us : List Token} (h : BeginsAtom ts) : BeginsAtom (ts ++ us) := by
  obtain ⟨t, vs, rfl, h⟩ := h
  exact ⟨t, vs ++ us, rfl, h⟩

theorem BeginsAtom.relation {ts : List Token} (h : BeginsAtom ts) : BeginsRelation ts := by
  obtain ⟨t, us, rfl, h⟩ := h
  exact ⟨t, us, rfl, .inl h⟩

theorem BeginsRelation.append {ts us : List Token} (h : BeginsRelation ts) :
    BeginsRelation (ts ++ us) := by
  obtain ⟨t, vs, rfl, h⟩ := h
  exact ⟨t, vs ++ us, rfl, h⟩

theorem BeginsRelation.begins {ts : List Token} (h : BeginsRelation ts) : Begins ts := by
  obtain ⟨t, us, rfl, h | h⟩ := h
  · refine ⟨t, us, rfl, fun hk => ?_, fun hk => ?_⟩
    · rw [hk] at h
      cases h
    · rw [hk] at h
      cases h
  · exact .cons h nofun nofun

theorem beginsAtom_atom {ts : List Token} {n : Node} (h : SpellsAtom ts n) : BeginsAtom ts := by
  cases h with
  | integer hk | boolean hk | builtin hk | reference hk | constructor hk => exact .cons hk rfl
  | unit hl | parentheses hl | tuple hl => exact .cons hl rfl

theorem beginsAtom_selection {ts : List Token} {n : Node} (h : SpellsSelection ts n) :
    BeginsAtom ts := by
  cases h with
  | atom h => exact beginsAtom_atom h
  | projection h => exact (beginsAtom_selection h).append

theorem beginsAtom_application {ts : List Token} {n : Node} (h : SpellsApplication ts n) :
    BeginsAtom ts := by
  cases h with
  | selection h => exact beginsAtom_selection h
  | argument hf => exact (beginsAtom_application hf).append

theorem begins_negation {ts : List Token} {n : Node} (h : SpellsNegation ts n) :
    BeginsRelation ts := by
  cases h with
  | application h => exact (beginsAtom_application h).relation
  | negate hminus => exact ⟨_, _, rfl, .inr hminus⟩

theorem begins_product {ts : List Token} {n : Node} (h : SpellsProduct ts n) :
    BeginsRelation ts := by
  cases h with
  | negation h => exact begins_negation h
  | factor hl => exact (begins_product hl).append

theorem begins_sum {ts : List Token} {n : Node} (h : SpellsSum ts n) : BeginsRelation ts := by
  cases h with
  | product h => exact begins_product h
  | term hl => exact (begins_sum hl).append

theorem begins_relation {ts : List Token} {n : Node} (h : SpellsRelation ts n) :
    BeginsRelation ts := by
  cases h with
  | sum h => exact begins_sum h
  | comparison hl => exact (begins_sum hl).append

theorem begins_closed {ts : List Token} {n : Node} (h : SpellsClosed ts n) : Begins ts := by
  cases h with
  | conditional hstart | matchWith hstart => exact .cons hstart nofun nofun
  | relation h => exact (begins_relation h).begins

theorem begins_statement {ts : List Token} {n : Node} (h : SpellsStatement ts n) : Begins ts := by
  cases h with
  | letIn hstart | letRec hstart | lambda hstart | dataType hstart | conditional hstart =>
    exact .cons hstart nofun nofun
  | closed h => exact begins_closed h

theorem begins_statements {ts : List Token} {ns : List Node} (h : SpellsStatements ts ns) :
    Begins ts := by
  cases h with
  | one h => exact begins_statement h
  | more h => exact (begins_closed h).append

theorem begins_expression {ts : List Token} {n : Node} (h : SpellsExpression ts n) :
    Begins ts := by
  cases h with
  | statement h | sequence h => exact begins_statements h

theorem begins_expressions {ts : List Token} {ns : List Node} (h : SpellsExpressions ts ns) :
    Begins ts := by
  cases h with
  | one h => exact begins_expression h
  | more h => exact (begins_expression h).append

theorem begins_arms {ts : List Token} {arms : List Node} (h : SpellsArms ts arms) : Begins ts := by
  cases h with
  | one hp | trailing hp | more hp => exact (begins_pattern hp).append

/-- What no word begins is read as a relation. -/
theorem statement_eq_relation {ts : List Token} (h : BeginsRelation ts) :
    statement stop ts = relation stop ts := by
  obtain ⟨t, us, rfl, h⟩ := h
  rw [statement]
  have hnext : nextKind? (t :: us) = some t.kind := rfl
  rw [hnext]
  split <;> first
    | rfl
    | next hk =>
      rw [Option.some.inj hk] at h
      rcases h with h | h <;> cases h

/-! ## 2. Phrases that begin with a phrase

Sums, products, applications and projections are read from the left: a first phrase, and what
follows it. -/

section

variable {tokens : List Token} {read : Reads Node tokens} {l r n : Node}
  {after : Node → (tokens : List Token) → Continues Node tokens}

/-- What is read is what `after` makes of a phrase alike `n` and of the rest. -/
def ReadsInto (read : Reads Node tokens)
    (after : Node → (tokens : List Token) → Continues Node tokens) (n : Node)
    (rest : List Token) : Prop :=
  ∃ n', n.Alike n' ∧ ∀ {m rest'}, Yields (Trailing.Is Node.Alike m rest') (after n' rest) →
    Yields (Parsed.Is Node.Alike m rest') read

/-- Nothing follows any more. -/
theorem ReadsInto.finish (h : ReadsInto read after n rest)
    (hafter : ∀ n', after n' rest = .ok (.nothing n' rest)) :
    Yields (Parsed.Is Node.Alike n rest) read := by
  obtain ⟨n', hn, h⟩ := h
  exact h (hafter n' ▸ .ok ⟨hn, rfl⟩)

/-- No term follows a sum any more. -/
theorem ReadsInto.sum (h : ReadsInto read (termsAfter stop) n rest)
    (hrest : Stops TokenKind.continuesSum rest) : Yields (Parsed.Is Node.Alike n rest) read := by
  refine h.finish fun n' => ?_
  rw [termsAfter,
    hrest.select?_eq_none fun k hk => by rw [TokenKind.continuesSum, hk, Bool.or_true]]
  rfl

/-- No factor follows a product any more. -/
theorem ReadsInto.product (h : ReadsInto read (factorsAfter stop) n rest)
    (hrest : Stops TokenKind.continuesProduct rest) :
    Yields (Parsed.Is Node.Alike n rest) read := by
  refine h.finish fun n' => ?_
  rw [factorsAfter,
    hrest.select?_eq_none fun k hk => by rw [TokenKind.continuesProduct, hk, Bool.or_true]]
  rfl

/-- No argument follows an application any more. -/
theorem ReadsInto.application (h : ReadsInto read (argumentsAfter stop) n rest)
    (hrest : Stops TokenKind.continuesApplication rest) :
    Yields (Parsed.Is Node.Alike n rest) read := by
  refine h.finish fun n' => ?_
  have hatom : (nextKind? rest).any TokenKind.startsAtom = false :=
    hrest.imp fun k hk => by rw [TokenKind.continuesApplication, hk, Bool.or_true]
  rw [argumentsAfter, hatom, if_neg Bool.false_ne_true]
  rfl

/-- No projection follows an atom any more. -/
theorem ReadsInto.selection (h : ReadsInto read (projectionsAfter stop) n rest)
    (hrest : Stops TokenKind.continuesSelection rest) :
    Yields (Parsed.Is Node.Alike n rest) read := by
  refine h.finish fun n' => ?_
  rw [projectionsAfter, hrest.select?_eq_none fun k hk => by
    by_contra hdot
    simp_all [TokenKind.continuesSelection]]
  rfl

theorem ReadsInto.start {one : Reads Node tokens} (h : Yields (Parsed.Is Node.Alike n rest) one)
    (hread : read = (do
      let ⟨lhs, rest₁, h₁⟩ ← one
      let ⟨result, rest₂, h₂⟩ ← after lhs rest₁
      return ⟨result, rest₂, Nat.lt_of_le_of_lt h₂ h₁⟩)) : ReadsInto read after n rest := by
  obtain ⟨⟨n', _, h₁⟩, hone, hn, rfl⟩ := h
  refine ⟨n', hn, fun hafter => ?_⟩
  rw [hread, hone]
  obtain ⟨⟨m', _, h₂⟩, hafter, hm, rfl⟩ := hafter
  change Yields _ (after n' rest >>= _)
  rw [hafter]
  exact .ok ⟨hm, rfl⟩

/-- One more phrase follows, and a phrase is made of it and of what was read before. -/
theorem ReadsInto.operand {tokens' us : List Token} {one : Reads Node us}
    (make : Node → Node → Node) (h : ReadsInto read after l tokens')
    (hr : Yields (Parsed.Is Node.Alike r rest) one)
    (hmake : ∀ {l' r'}, l.Alike l' → r.Alike r' → n.Alike (make l' r'))
    (hle : us.length ≤ tokens'.length)
    (hafter : ∀ l', after l' tokens' = (do
      let ⟨rhs, rest₂, h₂⟩ ← one
      let ⟨result, rest₃, h₃⟩ ← after (make l' rhs) rest₂
      return ⟨result, rest₃, Nat.le_trans (Nat.le_trans h₃ (Nat.le_of_lt h₂)) hle⟩)) :
    ReadsInto read after n rest := by
  obtain ⟨l', hl, h⟩ := h
  obtain ⟨⟨r', _, h₂⟩, hone, hr, rfl⟩ := hr
  refine ⟨make l' r', hmake hl hr, fun hm => h ?_⟩
  obtain ⟨⟨m', _, h₃⟩, hm, halike, rfl⟩ := hm
  rw [hafter, hone]
  change Yields _ (after (make l' r') rest >>= _)
  rw [hm]
  exact .ok ⟨halike, rfl⟩

end

/-- An arm is read, whatever its body is. -/
theorem reads_matchArm {ts tokens : List Token} {arrow : Token} {q : Position} {p body : Node}
    (hp : SpellsPattern ts p) (harrow : arrow.kind = .arrow)
    (hbody : Yields (Parsed.Is Node.Alike body rest) (statement stop tokens)) :
    Yields (Parsed.Is Node.Alike (.matchArm (.at q) p body) rest)
      (matchArm stop (ts ++ arrow :: tokens)) := by
  rw [matchArm]
  refine (reads_pattern hp (stops_cons.2 (by rw [harrow]; rfl))).bind ?_
  rintro ⟨_, _, _⟩ ⟨hp, rfl⟩
  refine (expect_yields harrow).bind ?_
  rintro ⟨_, _, _⟩ ⟨rfl, rfl⟩
  refine hbody.bind ?_
  rintro ⟨_, _, _⟩ ⟨hbody, rfl⟩
  exact .ok ⟨congrArg₂ (Node.matchArm default) hp hbody, rfl⟩

/-- A conditional is read, whatever its branches are. -/
theorem reads_conditional {start thenSign elseSign : Token} {ts us vs : List Token} {q : Position}
    {c t e : Node} (hstart : start.kind = .keyword .ifThen)
    (hthenSign : thenSign.kind = .keyword .thenBranch)
    (helseSign : elseSign.kind = .keyword .elseBranch)
    (hc : Yields (Parsed.Is Node.Alike c (thenSign :: us)) (expression stop ts))
    (ht : Yields (Parsed.Is Node.Alike t (elseSign :: vs)) (expression stop us))
    (he : Yields (Parsed.Is Node.Alike e rest) (statement stop vs)) :
    Yields (Parsed.Is Node.Alike (.conditional (.at q) c t e) rest)
      (statement stop (start :: ts)) := by
  have hnext : nextKind? (start :: ts) = some (.keyword .ifThen) := congrArg some hstart
  rw [statement, hnext]
  dsimp only
  rw [conditional]
  refine (expect_yields hstart).bind ?_
  rintro ⟨_, _, _⟩ ⟨rfl, rfl⟩
  refine hc.bind ?_
  rintro ⟨_, _, _⟩ ⟨hc, rfl⟩
  refine (expect_yields hthenSign).bind ?_
  rintro ⟨_, _, _⟩ ⟨rfl, rfl⟩
  refine ht.bind ?_
  rintro ⟨_, _, _⟩ ⟨ht, rfl⟩
  refine (expect_yields helseSign).bind ?_
  rintro ⟨_, _, _⟩ ⟨rfl, rfl⟩
  refine he.bind ?_
  rintro ⟨_, _, _⟩ ⟨he, rfl⟩
  have hall := congr (congrArg₂ (Node.conditional default) hc ht) he
  exact .ok ⟨hall, rfl⟩

/-! ## 3. Expressions -/

mutual

theorem reads_expression : ∀ {ts rest : List Token} {n : Node}, SpellsExpression ts n →
    Stops TokenKind.continuesExpression rest →
      Yields (Parsed.Is Node.Alike n rest) (expression stop (ts ++ rest))
  | ts, rest, n, .statement h, hrest => by
    rw [expression]
    obtain ⟨first, more, us, hlist, hfirst, hmore⟩ := reads_statements h hrest
    cases hlist
    refine hfirst.bind ?_
    rintro ⟨_, _, _⟩ ⟨hfirst, rfl⟩
    refine hmore.bind ?_
    rintro ⟨_, _, _⟩ ⟨hnil, rfl⟩
    cases hnil
    exact .ok ⟨hfirst, rfl⟩
  | ts, rest, _, .sequence h, hrest => by
    rw [expression]
    obtain ⟨first, more, us, hlist, hfirst, hmore⟩ := reads_statements h hrest
    cases hlist
    refine hfirst.bind ?_
    rintro ⟨_, _, _⟩ ⟨hfirst, rfl⟩
    refine hmore.bind ?_
    rintro ⟨_, _, _⟩ ⟨hmore, rfl⟩
    have hall := Node.bareAll_eq_of_alike (.cons hfirst hmore)
    cases hmore
    exact .ok ⟨congrArg (Node.sequence default) hall, rfl⟩

theorem reads_statements : ∀ {ts rest : List Token} {ns : List Node}, SpellsStatements ts ns →
    Stops TokenKind.continuesExpression rest →
      ReadsList Node.Alike (statement stop) (statementsAfter stop) (ts ++ rest) ns rest
  | ts, rest, _, .one h, hrest => by
    refine .last (reads_statement h hrest) ?_
    rw [statementsAfter, hrest.skip?_eq_none rfl]
    rfl
  | _, rest, _, @SpellsStatements.more ts us semicolon _ _ h hsemicolon hmore,
      hrest => by
    have e : ts ++ semicolon :: us ++ rest = ts ++ semicolon :: (us ++ rest) := by simp
    rw [e]
    refine .cons (reads_closed h (stops_cons.2 (by rw [hsemicolon]; rfl))) ?_
      (reads_statements hmore hrest)
    rw [statementsAfter, skip?_cons hsemicolon]

theorem reads_statement : ∀ {ts rest : List Token} {n : Node}, SpellsStatement ts n →
    Stops TokenKind.continuesExpression rest →
      Yields (Parsed.Is Node.Alike n rest) (statement stop (ts ++ rest))
  | _, rest, _, @SpellsStatement.letIn _ start x equals inBody ts us vs a _ _ hstart hx ha hequals
      hvalue hinBody hbody, hrest => by
    have e : start :: x :: (ts ++ equals :: (us ++ inBody :: vs)) ++ rest =
        start :: x :: (ts ++ equals :: (us ++ inBody :: (vs ++ rest))) := by simp
    -- the first token says which statement is read
    have hnext : ∀ us, nextKind? (start :: us) = some (.keyword .letIn) :=
      fun _ => congrArg some hstart
    rw [e, statement, hnext]
    dsimp only
    rw [letStatement]
    refine (expect_yields hstart).bind ?_
    rintro ⟨_, _, _⟩ ⟨rfl, rfl⟩
    refine (expect_yields hx).bind ?_
    rintro ⟨_, _, _⟩ ⟨rfl, rfl⟩
    refine (reads_optionalAscription ha (stops_cons.2 (by rw [hequals]; rfl))
      (stops_cons.2 (by rw [hequals]; rfl))).bind ?_
    rintro ⟨_, _, _⟩ ⟨rfl, rfl⟩
    refine (expect_yields hequals).bind ?_
    rintro ⟨_, _, _⟩ ⟨rfl, rfl⟩
    refine (reads_expression hvalue (stops_cons.2 (by rw [hinBody]; rfl))).bind ?_
    rintro ⟨_, _, _⟩ ⟨hvalue, rfl⟩
    refine (expect_yields hinBody).bind ?_
    rintro ⟨_, _, _⟩ ⟨rfl, rfl⟩
    refine (reads_expression hbody hrest).bind ?_
    rintro ⟨_, _, _⟩ ⟨hbody, rfl⟩
    exact .ok ⟨congrArg₂ (Node.letIn default x.text a) hvalue hbody, rfl⟩
  | _, rest, _, @SpellsStatement.letRec _ start inBody ts us _ _ hstart hfs hinBody
      hbody, hrest => by
    have e : start :: (ts ++ inBody :: us) ++ rest = start :: (ts ++ inBody :: (us ++ rest)) := by
      simp
    have hnext : ∀ us, nextKind? (start :: us) = some (.keyword .letRec) :=
      fun _ => congrArg some hstart
    rw [e, statement, hnext]
    dsimp only
    rw [letRecStatement]
    refine (expect_yields hstart).bind ?_
    rintro ⟨_, _, _⟩ ⟨rfl, rfl⟩
    obtain ⟨first, more, vs, rfl, hfirst, hmore⟩ :=
      reads_functions hfs (stops_cons.2 (by rw [hinBody]; rfl) : Stops _ (inBody :: (us ++ rest)))
    refine hfirst.bind ?_
    rintro ⟨_, _, _⟩ ⟨hfirst, rfl⟩
    refine hmore.bind ?_
    rintro ⟨_, _, _⟩ ⟨hmore, rfl⟩
    refine (expect_yields hinBody).bind ?_
    rintro ⟨_, _, _⟩ ⟨rfl, rfl⟩
    refine (reads_expression hbody hrest).bind ?_
    rintro ⟨_, _, _⟩ ⟨hbody, rfl⟩
    exact .ok ⟨congrArg₂ (Node.letRec default)
      (Node.bareAll_eq_of_alike (.cons hfirst hmore)) hbody, rfl⟩
  | _, rest, _, @SpellsStatement.lambda _ start x arrow ts us a _
      hstart hx ha harrow hbody, hrest => by
    have e : start :: x :: (ts ++ arrow :: us) ++ rest =
        start :: x :: (ts ++ arrow :: (us ++ rest)) := by simp
    have hnext : ∀ us, nextKind? (start :: us) = some .backslash := fun _ => congrArg some hstart
    rw [e, statement, hnext]
    dsimp only
    rw [lambda]
    refine (expect_yields hstart).bind ?_
    rintro ⟨_, _, _⟩ ⟨rfl, rfl⟩
    refine (expect_yields hx).bind ?_
    rintro ⟨_, _, _⟩ ⟨rfl, rfl⟩
    refine (reads_lambdaAscription ha (stops_cons.2 (by rw [harrow]; rfl))).bind ?_
    rintro ⟨_, _, _⟩ ⟨rfl, rfl⟩
    refine (expect_yields harrow).bind ?_
    rintro ⟨_, _, _⟩ ⟨rfl, rfl⟩
    refine (reads_expression hbody hrest).bind ?_
    rintro ⟨_, _, _⟩ ⟨hbody, rfl⟩
    exact .ok ⟨congrArg (Node.lambda default x.text a) hbody, rfl⟩
  | _, rest, _, @SpellsStatement.dataType _ start d equals inBody ts us _ _ hstart hd hequals hcs
      hinBody hbody, hrest => by
    have e : start :: d :: equals :: (ts ++ inBody :: us) ++ rest =
        start :: d :: equals :: (ts ++ inBody :: (us ++ rest)) := by simp
    have hnext : ∀ us, nextKind? (start :: us) = some (.keyword .data) :=
      fun _ => congrArg some hstart
    rw [e, statement, hnext]
    dsimp only
    rw [dataStatement]
    refine (expect_yields hstart).bind ?_
    rintro ⟨_, _, _⟩ ⟨rfl, rfl⟩
    refine (expect_yields hd).bind ?_
    rintro ⟨_, _, _⟩ ⟨rfl, rfl⟩
    refine (expect_yields hequals).bind ?_
    rintro ⟨_, _, _⟩ ⟨rfl, rfl⟩
    obtain ⟨first, more, vs, rfl, hfirst, hmore⟩ :=
      reads_constructors hcs
        (stops_cons.2 (by rw [hinBody]; rfl) : Stops _ (inBody :: (us ++ rest)))
    refine hfirst.bind ?_
    rintro ⟨_, _, _⟩ ⟨hfirst, rfl⟩
    refine hmore.bind ?_
    rintro ⟨_, _, _⟩ ⟨hmore, rfl⟩
    refine (expect_yields hinBody).bind ?_
    rintro ⟨_, _, _⟩ ⟨rfl, rfl⟩
    refine (reads_expression hbody hrest).bind ?_
    rintro ⟨_, _, _⟩ ⟨hbody, rfl⟩
    exact .ok ⟨congrArg₂ (Node.dataType default d.text)
      (Node.bareAll_eq_of_alike (.cons hfirst hmore)) hbody, rfl⟩
  | _, rest, _, @SpellsStatement.conditional _ start thenSign elseSign ts us vs _ _ _ hstart hc
      hthen ht helse he, hrest => by
    have e : start :: (ts ++ thenSign :: (us ++ elseSign :: vs)) ++ rest =
        start :: (ts ++ thenSign :: (us ++ elseSign :: (vs ++ rest))) := by simp
    rw [e]
    exact reads_conditional hstart hthen helse
      (reads_expression hc (stops_cons.2 (by rw [hthen]; rfl)))
      (reads_expression ht (stops_cons.2 (by rw [helse]; rfl))) (reads_statement he hrest)
  | ts, rest, n, .closed h, hrest =>
    reads_closed h hrest.relation

theorem reads_closed : ∀ {ts rest : List Token} {n : Node}, SpellsClosed ts n →
    Stops TokenKind.continuesRelation rest →
      Yields (Parsed.Is Node.Alike n rest) (statement stop (ts ++ rest))
  | _, rest, _, @SpellsClosed.conditional _ start thenSign elseSign ts us vs _ _ _ hstart hc hthen
      ht helse he, hrest => by
    have e : start :: (ts ++ thenSign :: (us ++ elseSign :: vs)) ++ rest =
        start :: (ts ++ thenSign :: (us ++ elseSign :: (vs ++ rest))) := by simp
    rw [e]
    exact reads_conditional hstart hthen helse
      (reads_expression hc (stops_cons.2 (by rw [hthen]; rfl)))
      (reads_expression ht (stops_cons.2 (by rw [helse]; rfl))) (reads_closed he hrest)
  | _, rest, _, @SpellsClosed.matchWith _ start l r ts us _ _ hstart he hl
      harms hr, hrest => by
    have e : start :: (ts ++ l :: (us ++ [r])) ++ rest =
        start :: (ts ++ l :: (us ++ r :: rest)) := by simp
    have hnext : ∀ us, nextKind? (start :: us) = some (.keyword .matchWith) :=
      fun _ => congrArg some hstart
    rw [e, statement, hnext]
    dsimp only
    rw [matchStatement]
    refine (expect_yields hstart).bind ?_
    rintro ⟨_, _, _⟩ ⟨rfl, rfl⟩
    refine (reads_expression he (stops_cons.2 (by rw [hl]; rfl))).bind ?_
    rintro ⟨_, _, _⟩ ⟨he, rfl⟩
    refine (expect_yields hl).bind ?_
    rintro ⟨_, _, _⟩ ⟨rfl, rfl⟩
    refine (reads_arms harms hr).bind ?_
    rintro ⟨_, _, _⟩ ⟨harms, rfl⟩
    exact .ok ⟨congrArg₂ (Node.matchWith default) he (Node.bareAll_eq_of_alike harms), rfl⟩
  | ts, rest, n, .relation h, hrest => by
    rw [statement_eq_relation (begins_relation h).append]
    exact reads_relation h hrest

theorem reads_function : ∀ {ts rest : List Token} {f : Node}, SpellsFunction ts f →
    Stops TokenKind.continuesExpression rest →
      Yields (Parsed.Is Node.Alike f rest) (groupFunction stop (ts ++ rest))
  | _, rest, _, @SpellsFunction.mk _ f equals ts us vs x pa ra _ hf hx ha hequals hbody, hrest => by
    have e : f :: (ts ++ (us ++ equals :: vs)) ++ rest =
        f :: (ts ++ (us ++ equals :: (vs ++ rest))) := by simp
    rw [e, groupFunction]
    refine (expect_yields hf).bind ?_
    rintro ⟨_, _, _⟩ ⟨rfl, rfl⟩
    refine (reads_parameter hx).bind ?_
    rintro ⟨_, _, _⟩ ⟨rfl, rfl⟩
    refine (reads_optionalAscription ha (stops_cons.2 (by rw [hequals]; rfl))
      (stops_cons.2 (by rw [hequals]; rfl))).bind ?_
    rintro ⟨_, _, _⟩ ⟨rfl, rfl⟩
    refine (expect_yields hequals).bind ?_
    rintro ⟨_, _, _⟩ ⟨rfl, rfl⟩
    refine (reads_expression hbody hrest).bind ?_
    rintro ⟨_, _, _⟩ ⟨hbody, rfl⟩
    exact .ok ⟨congrArg (Node.letRecArm default f.text x pa ra) hbody, rfl⟩

theorem reads_functions : ∀ {ts rest : List Token} {fs : List Node}, SpellsFunctions ts fs →
    Stops (fun k => k.continuesExpression || k = .keyword .and) rest →
      ReadsList Node.Alike (groupFunction stop) (groupFunctionsAfter stop) (ts ++ rest) fs rest
  | ts, rest, _, .one h, hrest => by
    refine .last (reads_function h (hrest.imp fun k hk => by rw [hk, Bool.true_or])) ?_
    rw [groupFunctionsAfter, hrest.skip?_eq_none rfl]
    rfl
  | _, rest, _, @SpellsFunctions.more ts us and _ _ h hand hmore, hrest => by
    have e : ts ++ and :: us ++ rest = ts ++ and :: (us ++ rest) := by simp
    rw [e]
    refine .cons (reads_function h (stops_cons.2 (by rw [hand]; rfl))) ?_
      (reads_functions hmore hrest)
    rw [groupFunctionsAfter, skip?_cons hand]

theorem reads_arms : ∀ {ts rest : List Token} {arms : List Node} {r : Token},
    SpellsArms ts arms → r.kind = .closeBrace →
      Yields (Parsed.Is (List.Forall₂ Node.Alike) arms rest) (matchArms stop (ts ++ r :: rest))
  | _, rest, _, r, @SpellsArms.one q ts us arrow _ _ hp harrow hbody, hr => by
    have e : ts ++ arrow :: us ++ r :: rest = ts ++ arrow :: (us ++ r :: rest) := by simp
    rw [e, matchArms]
    refine (reads_matchArm (q := q) hp harrow
      (reads_statement hbody (stops_cons.2 (by rw [hr]; rfl)))).bind ?_
    rintro ⟨_, _, _⟩ ⟨harm, rfl⟩
    dsimp only
    rw [skip?, if_neg (by rw [hr]; nofun)]
    refine (expect_yields hr).bind ?_
    rintro ⟨_, _, _⟩ ⟨rfl, rfl⟩
    exact .ok ⟨.cons harm .nil, rfl⟩
  | _, rest, _, r, @SpellsArms.trailing q ts us arrow semicolon _ _ hp harrow hbody hsemicolon, hr
      => by
    have e : ts ++ arrow :: (us ++ [semicolon]) ++ r :: rest =
        ts ++ arrow :: (us ++ semicolon :: r :: rest) := by simp
    rw [e, matchArms]
    refine (reads_matchArm (q := q) hp harrow
      (reads_closed hbody (stops_cons.2 (by rw [hsemicolon]; rfl)))).bind ?_
    rintro ⟨_, _, _⟩ ⟨harm, rfl⟩
    dsimp only
    rw [skip?_cons hsemicolon]
    dsimp only
    rw [skip?_cons hr]
    exact .ok ⟨.cons harm .nil, rfl⟩
  | _, rest, _, r, @SpellsArms.more q ts us vs arrow semicolon _ _ _ hp harrow hbody hsemicolon
      hmore, hr => by
    have e : ts ++ arrow :: (us ++ semicolon :: vs) ++ r :: rest =
        ts ++ arrow :: (us ++ semicolon :: (vs ++ r :: rest)) := by simp
    rw [e, matchArms]
    refine (reads_matchArm (q := q) hp harrow
      (reads_closed hbody (stops_cons.2 (by rw [hsemicolon]; rfl)))).bind ?_
    rintro ⟨_, _, _⟩ ⟨harm, rfl⟩
    dsimp only
    rw [skip?_cons hsemicolon]
    dsimp only
    rw [(begins_arms hmore).append.skip?_closeBrace]
    refine (reads_arms hmore hr).bind ?_
    rintro ⟨_, _, _⟩ ⟨hmore, rfl⟩
    exact .ok ⟨.cons harm hmore, rfl⟩

theorem reads_relation : ∀ {ts rest : List Token} {n : Node}, SpellsRelation ts n →
    Stops TokenKind.continuesRelation rest →
      Yields (Parsed.Is Node.Alike n rest) (relation stop (ts ++ rest))
  | ts, rest, n, .sum h, hrest => by
    rw [relation]
    refine ((readsInto_sum h hrest.sum.product).sum hrest.sum).bind ?_
    rintro ⟨_, _, _⟩ ⟨hn, rfl⟩
    dsimp only
    rw [hrest.select?_eq_none fun k hk => by rw [TokenKind.continuesRelation, hk, Bool.or_true]]
    exact .ok ⟨hn, rfl⟩
  | _, rest, _, @SpellsRelation.comparison _ ts us sign o _ _ hl ho hr, hrest => by
    have e : ts ++ sign :: us ++ rest = ts ++ sign :: (us ++ rest) := by simp
    rw [e, relation]
    have hsign : Stops TokenKind.continuesSum (sign :: (us ++ rest)) :=
      stops_cons.2 (TokenKind.continuesSum_of_comparison? ho)
    refine ((readsInto_sum hl hsign.product).sum hsign).bind ?_
    rintro ⟨_, _, _⟩ ⟨hl, rfl⟩
    dsimp only
    rw [select?_cons ho]
    refine ((readsInto_sum hr hrest.sum.product).sum hrest.sum).bind ?_
    rintro ⟨_, _, _⟩ ⟨hr, rfl⟩
    exact .ok ⟨congrArg₂ (Node.binary default o) hl hr, rfl⟩

theorem readsInto_sum : ∀ {ts rest : List Token} {n : Node}, SpellsSum ts n →
    Stops TokenKind.continuesProduct rest →
      ReadsInto (sum stop (ts ++ rest)) (termsAfter stop) n rest
  | ts, rest, n, .product h, hrest => by
    refine .start ((readsInto_product h hrest.application).product hrest) ?_
    rw [sum]
  | _, rest, _, @SpellsSum.term _ ts us sign o _ _ hl ho hr, hrest => by
    have e : ts ++ sign :: us ++ rest = ts ++ sign :: (us ++ rest) := by simp
    rw [e]
    refine (readsInto_sum hl
      (stops_cons.2 (TokenKind.continuesProduct_of_termOperator? ho))).operand
      (.binary (.at sign.position) o)
      ((readsInto_product hr hrest.application).product hrest)
      (fun hl hr => congrArg₂ (Node.binary default o) hl hr) (Nat.le_succ _) fun l' => ?_
    rw [termsAfter, select?_cons ho]

theorem readsInto_product : ∀ {ts rest : List Token} {n : Node}, SpellsProduct ts n →
    Stops TokenKind.continuesApplication rest →
      ReadsInto (product stop (ts ++ rest)) (factorsAfter stop) n rest
  | ts, rest, n, .negation h, hrest => by
    refine .start (reads_negation h hrest) ?_
    rw [product]
  | _, rest, _, @SpellsProduct.factor _ ts us sign o _ _ hl ho hr, hrest => by
    have e : ts ++ sign :: us ++ rest = ts ++ sign :: (us ++ rest) := by simp
    rw [e]
    refine (readsInto_product hl
      (stops_cons.2 (TokenKind.continuesApplication_of_factorOperator? ho))).operand
      (.binary (.at sign.position) o) (reads_negation hr hrest)
      (fun hl hr => congrArg₂ (Node.binary default o) hl hr) (Nat.le_succ _) fun l' => ?_
    rw [factorsAfter, select?_cons ho]

theorem reads_negation : ∀ {ts rest : List Token} {n : Node}, SpellsNegation ts n →
    Stops TokenKind.continuesApplication rest →
      Yields (Parsed.Is Node.Alike n rest) (negation stop (ts ++ rest))
  | ts, rest, n, .application h, hrest => by
    rw [negation]
    have hnone : select? (fun k => if k = .minus then some UnaryOperator.negate else none)
        (ts ++ rest) = none := by
      obtain ⟨t, us, rfl, ht⟩ := beginsAtom_application h
      have hminus : t.kind ≠ .minus := fun hk => by rw [hk] at ht; cases ht
      rw [List.cons_append, select?, if_neg hminus, Option.map_none]
    rw [hnone]
    exact (readsInto_application h hrest.selection).application hrest
  | _, rest, _, @SpellsNegation.negate _ minus ts _ hminus h, hrest => by
    rw [List.cons_append, negation, select?_cons (a := .negate) (if_pos hminus)]
    refine (reads_negation h hrest).bind ?_
    rintro ⟨_, _, _⟩ ⟨hn, rfl⟩
    exact .ok ⟨congrArg (Node.unary default .negate) hn, rfl⟩

theorem readsInto_application : ∀ {ts rest : List Token} {n : Node}, SpellsApplication ts n →
    Stops TokenKind.continuesSelection rest →
      ReadsInto (application stop (ts ++ rest)) (argumentsAfter stop) n rest
  | ts, rest, n, .selection h, hrest => by
    refine .start ((readsInto_selection h).selection hrest) ?_
    rw [application]
  | _, rest, _, @SpellsApplication.argument _ ts us f _ hf ha, hrest => by
    obtain ⟨t, vs, hus, ht⟩ := beginsAtom_selection ha
    have hdot : Stops TokenKind.continuesSelection (us ++ rest) := by
      rw [hus]
      refine stops_cons.2 (decide_eq_false fun hk => ?_)
      rw [hk] at ht
      cases ht
    rw [List.append_assoc]
    refine (readsInto_application hf hdot).operand
      (fun g a => .application (.at g.position) g a) ((readsInto_selection ha).selection hrest)
      (fun hf ha => congrArg₂ (Node.application default) hf ha) (Nat.le_refl _) fun g => ?_
    rw [argumentsAfter, if_pos (by rw [hus]; exact ht)]

theorem readsInto_selection : ∀ {ts rest : List Token} {n : Node}, SpellsSelection ts n →
    ReadsInto (selection stop (ts ++ rest)) (projectionsAfter stop) n rest
  | ts, rest, n, .atom h => by
    refine .start (reads_atom h) ?_
    rw [selection]
  | _, rest, _, @SpellsSelection.projection _ ts dot index i _ h hdot hindex hi => by
    have e : ts ++ [dot, index] ++ rest = ts ++ dot :: index :: rest := by simp
    rw [e]
    obtain ⟨n', hn, hread⟩ :
        ReadsInto (selection stop (ts ++ dot :: index :: rest)) (projectionsAfter stop) _
          (dot :: index :: rest) := readsInto_selection h
    refine ⟨.projection (.at dot.position) i none n', congrArg (Node.projection default i none) hn,
      fun hafter => hread ?_⟩
    rw [projectionsAfter, select?_cons (a := ()) (if_pos hdot)]
    refine (expect_yields hindex).bind ?_
    rintro ⟨_, _, _⟩ ⟨rfl, rfl⟩
    dsimp only
    rw [hi]
    refine hafter.bind ?_
    rintro ⟨_, _, _⟩ ⟨hm, rfl⟩
    exact .ok ⟨hm, rfl⟩

theorem reads_atom : ∀ {ts rest : List Token} {n : Node}, SpellsAtom ts n →
    Yields (Parsed.Is Node.Alike n rest) (atom stop (ts ++ rest))
  | _, rest, _, .integer hk hv => by
    rw [List.singleton_append, atom]
    refine next_yields.bind ?_
    rintro ⟨_, _, _⟩ ⟨rfl, rfl⟩
    dsimp only
    rw [hk]
    dsimp only
    rw [hv]
    exact .ok ⟨rfl, rfl⟩
  | _, rest, _, .boolean hk => by
    rw [List.singleton_append, atom]
    refine next_yields.bind ?_
    rintro ⟨_, _, _⟩ ⟨rfl, rfl⟩
    dsimp only
    rw [hk]
    exact .ok ⟨rfl, rfl⟩
  | _, rest, _, .builtin hk hb => by
    rw [List.singleton_append, atom]
    refine next_yields.bind ?_
    rintro ⟨_, _, _⟩ ⟨rfl, rfl⟩
    dsimp only
    rw [hk]
    dsimp only
    rw [hb]
    exact .ok ⟨rfl, rfl⟩
  | _, rest, _, .reference hk hb => by
    rw [List.singleton_append, atom]
    refine next_yields.bind ?_
    rintro ⟨_, _, _⟩ ⟨rfl, rfl⟩
    dsimp only
    rw [hk]
    dsimp only
    rw [hb]
    exact .ok ⟨rfl, rfl⟩
  | _, rest, _, .constructor hk => by
    rw [List.singleton_append, atom]
    refine next_yields.bind ?_
    rintro ⟨_, _, _⟩ ⟨rfl, rfl⟩
    dsimp only
    rw [hk]
    exact .ok ⟨rfl, rfl⟩
  | _, rest, _, .unit (l := l) (r := r) hl hr => by
    have e : [l, r] ++ rest = l :: r :: rest := rfl
    rw [e, atom]
    refine next_yields.bind ?_
    rintro ⟨_, _, _⟩ ⟨rfl, rfl⟩
    dsimp only
    rw [hl]
    dsimp only
    rw [skip?_cons hr]
    exact .ok ⟨rfl, rfl⟩
  | _, rest, _, @SpellsAtom.parentheses l r ts _ hl h hr => by
    have e : l :: (ts ++ [r]) ++ rest = l :: (ts ++ r :: rest) := by simp
    rw [e, atom]
    refine next_yields.bind ?_
    rintro ⟨_, _, _⟩ ⟨rfl, rfl⟩
    dsimp only
    rw [hl]
    dsimp only
    rw [(begins_expressions h).append.skip?_closeParen]
    have hlist := reads_expressions h (stops_cons.2 (by rw [hr]; rfl) : Stops _ (r :: rest))
    refine hlist.enclosed hr (Nat.lt_succ_self _) fun n more hall => ?_
    cases hall with | cons hn hnil => ?_
    cases hnil
    exact hn
  | _, rest, _, @SpellsAtom.tuple _ l r ts _ _ _ hl h hr => by
    have e : l :: (ts ++ [r]) ++ rest = l :: (ts ++ r :: rest) := by simp
    rw [e, atom]
    refine next_yields.bind ?_
    rintro ⟨_, _, _⟩ ⟨rfl, rfl⟩
    dsimp only
    rw [hl]
    dsimp only
    rw [(begins_expressions h).append.skip?_closeParen]
    have hlist := reads_expressions h (stops_cons.2 (by rw [hr]; rfl) : Stops _ (r :: rest))
    refine hlist.enclosed hr (Nat.lt_succ_self _) fun n more hall => ?_
    have hbare := Node.bareAll_eq_of_alike hall
    cases hall with | cons _ hmore => ?_
    cases hmore
    exact congrArg (Node.tuple default) hbare

theorem reads_expressions : ∀ {ts rest : List Token} {ns : List Node}, SpellsExpressions ts ns →
    Stops (fun k => k.continuesExpression || k = .comma) rest →
      ReadsList Node.Alike (expression stop) (expressionsAfter stop) (ts ++ rest) ns rest
  | ts, rest, _, .one h, hrest => by
    refine .last (reads_expression h (hrest.imp fun k hk => by rw [hk, Bool.true_or])) ?_
    rw [expressionsAfter, hrest.skip?_eq_none rfl]
    rfl
  | _, rest, _, @SpellsExpressions.more ts us comma _ _ h hcomma hmore, hrest => by
    have e : ts ++ comma :: us ++ rest = ts ++ comma :: (us ++ rest) := by simp
    rw [e]
    refine .cons (reads_expression h (stops_cons.2 (by rw [hcomma]; rfl))) ?_
      (reads_expressions hmore hrest)
    rw [expressionsAfter, skip?_cons hcomma]

end

/-- **Tokens that spell a program are read as that program**, up to the marks. -/
theorem reads_program {tokens : List Token} {n : Node} (h : SpellsExpression tokens n) :
    Yields (fun tree => (Node.ofProgram n).Alike tree) (program stop tokens) := by
  rw [program]
  have hread : Yields (Parsed.Is Node.Alike n []) (expression stop (tokens ++ [])) :=
    reads_expression h stops_nil
  rw [List.append_nil] at hread
  refine hread.bind ?_
  rintro ⟨_, _, _⟩ ⟨hn, rfl⟩
  exact .ok (congrArg (Node.top default) hn)

end Parser

end ClosureML
