import ClosureML.Proofs.Syntax.ParserComplete
import ClosureML.Proofs.Syntax.ParserShape
import ClosureML.Proofs.Syntax.WordsSpelled

/-!
# What is written down is read back

The words of a tree spell the tree, and what tokens spell is what they are read as. So the text of a
tree that can be written down is read as that tree, and what is read can be written down.

* `SpellsAt`: the tokens spell a phrase that holds together as tightly as a number says;
* `Node.WordsFit`: the words of a tree at a place that asks for a strength spell it at that
  strength.

Main statement: `Node.parse_text`.
-/

namespace ClosureML

variable {fenced : Bool}

/-! ## 1. Strength -/

/-- The tokens spell a phrase that holds together as tightly as the number says. -/
def SpellsAt : Nat → List Token → Node → Prop
  | 0 => SpellsExpression
  | 1 => SpellsClosed
  | 2 => SpellsRelation
  | 3 => SpellsSum
  | 4 => SpellsProduct
  | 5 => SpellsNegation
  | 6 => SpellsApplication
  | 7 => SpellsSelection
  | _ => SpellsAtom

theorem SpellsClosed.expression {ts : List Token} {n : Node} (h : SpellsClosed ts n) :
    SpellsExpression ts n := .statement (.one (.closed h))

/-- A phrase can stand where less strength is asked for. -/
theorem SpellsAt.of_le {k l : Nat} {ts : List Token} {n : Node} (hle : k ≤ l)
    (h : SpellsAt l ts n) : SpellsAt k ts n := by
  induction hle with
  | refl => exact h
  | @step l _ ih =>
    refine ih ?_
    match l, h with
    | 0, h => exact SpellsClosed.expression h
    | 1, h => exact SpellsClosed.relation h
    | 2, h => exact SpellsRelation.sum h
    | 3, h => exact SpellsSum.product h
    | 4, h => exact SpellsProduct.negation h
    | 5, h => exact SpellsNegation.application h
    | 6, h => exact SpellsApplication.selection h
    | 7, h => exact SpellsSelection.atom h
    | _ + 8, h => exact h

/-- A phrase in parentheses can stand everywhere. -/
theorem SpellsAt.parentheses {k : Nat} {ts : List Token} {l r : Token} {n : Node}
    (hl : l.kind = .openParen) (h : SpellsExpression ts n) (hr : r.kind = .closeParen) :
    SpellsAt k (l :: (ts ++ [r])) n :=
  have hatom : SpellsAt (k + 8) (l :: (ts ++ [r])) n := SpellsAtom.parentheses hl (.one h) hr
  .of_le (Nat.le_add_right k 8) hatom

/-- The words of a tree at a place that asks for a strength spell the tree at that strength. -/
def Node.WordsFit (fenced : Bool) (level : Nat) (n : Node) : Prop :=
  WordsSpell (SpellsAt level · n.bare) (n.enclose fenced level (n.words fenced))

/-- **A tree fits wherever it is put, with parentheses if need be.** -/
theorem Node.wordsFit {n : Node}
    (h : WordsSpell (SpellsAt (n.strength fenced) · n.bare) (n.words fenced)) (level : Nat) :
    n.WordsFit fenced level := by
  rw [WordsFit, enclose]
  split
  · next hle => exact h.imp fun _ => .of_le hle
  · refine h.parenthesised.imp ?_
    rintro _ ⟨l, us, r, rfl, hl, hus, hr⟩
    exact .parentheses hl (SpellsAt.of_le (Nat.zero_le _) hus) hr

/-! ## 2. Expressions -/

section

variable {m : Mark} {x : String} {a : Option TypeExpr} {e f l r c t value body : Node}
  {ns : List Node}

theorem lambda_words (hx : IsIdentifier x) (ha : ∀ t ∈ a, t.IsWritable)
    (hbody : body.WordsFit fenced 1) :
    WordsSpell (SpellsAt 0 · (Node.lambda m x a body).bare)
      ((Node.lambda m x a body).words fenced) := by
  rw [Node.words]
  refine (WordsSpell.sign (k := .backslash) (by decide) (.name hx
    ((ascriptionWords_spell fun t ht => (ha t ht).words_spell.2).append
      (.sign (k := .arrow) (by decide) hbody)))).imp ?_
  rintro _ ⟨start, _, rfl, hstart, x, _, rfl, ⟨hk, rfl⟩, us, _, rfl, ha, arrow, vs, rfl, harrow,
    hbody⟩
  exact .statement (.one (.lambda hstart hk ha harrow (SpellsClosed.expression hbody)))

theorem letIn_words (hx : IsIdentifier x) (ha : ∀ t ∈ a, t.IsWritable)
    (hvalue : value.WordsFit fenced 1) (hbody : body.WordsFit fenced 1) :
    WordsSpell (SpellsAt 0 · (Node.letIn m x a value body).bare)
      ((Node.letIn m x a value body).words fenced) := by
  rw [Node.words]
  refine (WordsSpell.keyword .letIn (.name hx
    ((ascriptionWords_spell fun t ht => (ha t ht).words_spell.1).append
      (.sign (k := .equals) (by decide) (hvalue.append (.keyword .inBody hbody)))))).imp ?_
  rintro _ ⟨start, _, rfl, hstart, x, _, rfl, ⟨hk, rfl⟩, us, _, rfl, ha, equals, _, rfl, hequals,
    vs, _, rfl, hvalue, inBody, ws, rfl, hinBody, hbody⟩
  exact .statement (.one (.letIn hstart hk ha hequals (SpellsClosed.expression hvalue) hinBody
    (SpellsClosed.expression hbody)))

theorem letRec_words (hne : ns ≠ [])
    (hns : ∀ f ∈ ns, WordsSpell (SpellsFunction · f.bare) (f.enclose fenced 1 (f.words fenced)))
    (hbody : body.WordsFit fenced 1) :
    WordsSpell (SpellsAt 0 · (Node.letRec m ns body).bare)
      ((Node.letRec m ns body).words fenced) := by
  rw [Node.words]
  have hall : WordsSpell (SpellsFunctions · (Node.bareAll ns))
      (separated (.keyword .and) (Node.wordsEach fenced 1 ns)) :=
    .separated (Word.isCut_keyword .and) (fun _ _ => .one)
      (fun _ _ _ _ _ h hand hmore => .more h hand hmore) (Node.bareAll_ne_nil hne)
      (Node.wordsEach_spell hns)
  refine (WordsSpell.keyword .letRec (hall.append (.keyword .inBody hbody))).imp ?_
  rintro _ ⟨start, _, rfl, hstart, us, _, rfl, hfs, inBody, vs, rfl, hinBody, hbody⟩
  exact .statement (.one (.letRec hstart hfs hinBody (SpellsClosed.expression hbody)))

theorem function_words {g : String} {pa ra : Option TypeExpr} (hg : IsIdentifier g)
    (hx : IsIdentifier x) (hpa : ∀ t ∈ pa, t.IsWritable) (hra : ∀ t ∈ ra, t.IsWritable)
    (hbody : body.WordsFit fenced 1) :
    WordsSpell (SpellsFunction · (Node.letRecArm m g x pa ra body).bare)
      ((Node.letRecArm m g x pa ra body).words fenced) := by
  rw [Node.words]
  refine (WordsSpell.name hg ((parameterWords_spell hx hpa).append
    ((ascriptionWords_spell fun t ht => (hra t ht).words_spell.1).append
      (.sign (k := .equals) (by decide) hbody)))).imp ?_
  rintro _ ⟨g, _, rfl, ⟨hk, rfl⟩, us, _, rfl, hx, vs, _, rfl, ha, equals, ws, rfl, hequals, hbody⟩
  exact .mk hk hx ha hequals (SpellsClosed.expression hbody)

theorem dataType_words {d : String} (hd : IsCapitalised d) (hne : ns ≠ [])
    (hns : ∀ c ∈ ns, WordsSpell (SpellsConstructor · c.bare)
      (c.enclose fenced 1 (c.words fenced))) (hbody : body.WordsFit fenced 1) :
    WordsSpell (SpellsAt 0 · (Node.dataType m d ns body).bare)
      ((Node.dataType m d ns body).words fenced) := by
  rw [Node.words]
  have hall : WordsSpell (SpellsConstructors · (Node.bareAll ns))
      (separated (.sign .pipe) (Node.wordsEach fenced 1 ns)) :=
    .separated (Word.isCut_sign (by decide)) (fun _ _ => .one)
      (fun _ _ _ _ _ h hbar hmore => .more h hbar hmore) (Node.bareAll_ne_nil hne)
      (Node.wordsEach_spell hns)
  refine (WordsSpell.keyword .data (.name hd (.sign (k := .equals) (by decide)
    (hall.append (.keyword .inBody hbody))))).imp ?_
  rintro _ ⟨start, _, rfl, hstart, d, _, rfl, ⟨hk, rfl⟩, equals, _, rfl, hequals, us, _, rfl, hcs,
    inBody, vs, rfl, hinBody, hbody⟩
  exact .statement (.one (.dataType hstart hk hequals hcs hinBody
    (SpellsClosed.expression hbody)))

/-- A conditional is a closed statement, and put in parentheses it is one too. -/
theorem conditional_words (hc : c.WordsFit fenced 1) (ht : t.WordsFit fenced 1)
    (he : e.WordsFit fenced 1) :
    WordsSpell (SpellsAt ((Node.conditional m c t e).strength fenced) ·
        (Node.conditional m c t e).bare) ((Node.conditional m c t e).words fenced) := by
  rw [Node.words]
  refine (WordsSpell.keyword .ifThen (hc.append (.keyword .thenBranch
    (ht.append (.keyword .elseBranch he))))).imp ?_
  rintro _ ⟨start, _, rfl, hstart, us, _, rfl, hc, thenSign, _, rfl, hthen, vs, _, rfl, ht,
    elseSign, ws, rfl, helse, he⟩
  have hle : (Node.conditional m c t e).strength fenced ≤ 1 := by
    cases fenced with
    | false => exact Nat.le_refl 1
    | true => exact Nat.zero_le 1
  have hclosed : SpellsAt 1 _ (Node.conditional m c t e).bare :=
    SpellsClosed.conditional hstart (SpellsClosed.expression hc) hthen
      (SpellsClosed.expression ht) helse he
  exact .of_le hle hclosed

/-- An arm with a closed body. -/
def SpellsArm (ts : List Token) (arm : Node) : Prop :=
  ∃ us arrow vs p body, ts = us ++ arrow :: vs ∧ arm = .matchArm (.at default) p body ∧
    SpellsPattern us p ∧ arrow.kind = .arrow ∧ SpellsClosed vs body

theorem matchArm_words {p : Node} (hp : WordsSpell (SpellsPattern · p.bare) (p.words fenced))
    (hbody : body.WordsFit fenced 1) :
    WordsSpell (SpellsArm · (Node.matchArm m p body).bare)
      ((Node.matchArm m p body).words fenced) := by
  rw [Node.words]
  refine (hp.append (.sign (k := .arrow) (by decide) hbody)).imp ?_
  rintro _ ⟨us, _, rfl, hus, arrow, vs, rfl, harrow, hvs⟩
  exact ⟨us, arrow, vs, p.bare, body.bare, rfl, rfl, hus, harrow, hvs⟩

theorem SpellsArm.arms {ts : List Token} {arm : Node} (h : SpellsArm ts arm) :
    SpellsArms ts [arm] := by
  obtain ⟨us, arrow, vs, p, body, rfl, rfl, hus, harrow, hvs⟩ := h
  exact .one hus harrow (.closed hvs)

theorem SpellsArms.more_arms {ts us : List Token} {semicolon : Token} {arm : Node}
    {arms : List Node} (h : SpellsArm ts arm) (hsemicolon : semicolon.kind = .semicolon)
    (hmore : SpellsArms us arms) : SpellsArms (ts ++ semicolon :: us) (arm :: arms) := by
  obtain ⟨us', arrow, vs, p, body, rfl, rfl, hus, harrow, hvs⟩ := h
  simpa using SpellsArms.more (q := default) hus harrow hvs hsemicolon hmore

theorem matchWith_words (he : e.WordsFit fenced 1) (hne : ns ≠ [])
    (hns : ∀ arm ∈ ns, WordsSpell (SpellsArm · arm.bare)
      (arm.enclose fenced 1 (arm.words fenced))) :
    WordsSpell (SpellsAt 1 · (Node.matchWith m e ns).bare)
      ((Node.matchWith m e ns).words fenced) := by
  rw [Node.words]
  have hall : WordsSpell (SpellsArms · (Node.bareAll ns))
      (separated (.sign .semicolon) (Node.wordsEach fenced 1 ns)) :=
    .separated (Word.isCut_sign (by decide)) (fun ts arm (h : SpellsArm ts arm) => h.arms)
      (fun _ _ _ _ _ h hsemicolon hmore => SpellsArms.more_arms h hsemicolon hmore)
      (Node.bareAll_ne_nil hne) (Node.wordsEach_spell hns)
  refine (WordsSpell.keyword .matchWith (he.append (.sign (k := .openBrace) (by decide)
    (hall.append (.sign (k := .closeBrace) (by decide) .nil))))).imp ?_
  rintro _ ⟨start, _, rfl, hstart, us, _, rfl, he, l, _, rfl, hl, vs, _, rfl, harms, r, _, rfl, hr,
    rfl⟩
  exact SpellsClosed.matchWith hstart (SpellsClosed.expression he) hl harms hr

theorem sequence_words (hlength : 2 ≤ ns.length) (hns : ∀ n ∈ ns, n.WordsFit fenced 1) :
    WordsSpell (SpellsAt 0 · (Node.sequence m ns).bare)
      ((Node.sequence m ns).words fenced) := by
  rw [Node.words]
  match ns, hlength with
  | n :: n' :: more, _ =>
    have hall : WordsSpell (SpellsStatements · (Node.bareAll (n :: n' :: more)))
        (separated (.sign .semicolon) (Node.wordsEach fenced 1 (n :: n' :: more))) :=
      .separated (Word.isCut_sign (by decide)) (fun _ _ h => .one (.closed h))
        (fun _ _ _ _ _ h hsemicolon hmore => .more h hsemicolon hmore)
        (Node.bareAll_ne_nil (List.cons_ne_nil n _)) (Node.wordsEach_spell hns)
    exact hall.imp fun _ => SpellsExpression.sequence

theorem tuple_words (hlength : 2 ≤ ns.length) (hns : ∀ n ∈ ns, n.WordsFit fenced 1) :
    WordsSpell (SpellsAt 8 · (Node.tuple m ns).bare) ((Node.tuple m ns).words fenced) := by
  rw [Node.words]
  match ns, hlength with
  | n :: n' :: more, _ =>
    have hall : WordsSpell (SpellsExpressions · (Node.bareAll (n :: n' :: more)))
        (separated (.sign .comma) (Node.wordsEach fenced 1 (n :: n' :: more))) :=
      .separated (Word.isCut_sign (by decide)) (fun _ _ h => .one (SpellsClosed.expression h))
        (fun _ _ _ _ _ h hcomma hmore => .more (SpellsClosed.expression h) hcomma hmore)
        (Node.bareAll_ne_nil (List.cons_ne_nil n _)) (Node.wordsEach_spell hns)
    refine hall.parenthesised.imp ?_
    rintro _ ⟨l, us, r, rfl, hl, hus, hr⟩
    exact SpellsAtom.tuple hl hus hr

/-- An operator between operands. -/
theorem binary_words {o : BinaryOperator} (hl : l.WordsFit fenced (max 3 o.strength))
    (hr : r.WordsFit fenced (o.strength + 1)) :
    WordsSpell (SpellsAt o.strength · (Node.binary m o l r).bare)
      ((Node.binary m o l r).words fenced) := by
  rw [Node.words]
  refine (hl.append (.sign (k := o.sign) (by cases o <;> decide) hr)).imp ?_
  rintro _ ⟨us, _, rfl, hl, sign, vs, rfl, hsign, hr⟩
  cases o with
  | multiply | divide | modulus => exact SpellsProduct.factor hl (hsign ▸ rfl) hr
  | add | subtract => exact SpellsSum.term hl (hsign ▸ rfl) hr
  | greaterThan | lessThan | greaterOrEqual | lessOrEqual | equals | notEquals =>
    exact SpellsRelation.comparison hl (hsign ▸ rfl) hr

theorem unary_words {o : UnaryOperator} (he : e.WordsFit fenced 5) :
    WordsSpell (SpellsAt 5 · (Node.unary m o e).bare) ((Node.unary m o e).words fenced) := by
  rw [Node.words]
  refine (WordsSpell.sign (k := .minus) (by decide) he).imp ?_
  rintro _ ⟨minus, us, rfl, hminus, he⟩
  cases o with
  | negate => exact SpellsNegation.negate hminus he

theorem application_words (hf : f.WordsFit fenced 6) (he : e.WordsFit fenced 7) :
    WordsSpell (SpellsAt 6 · (Node.application m f e).bare)
      ((Node.application m f e).words fenced) := by
  rw [Node.words]
  refine (hf.append he).imp ?_
  rintro _ ⟨us, vs, rfl, hf, he⟩
  exact SpellsApplication.argument hf he

theorem projection_words {i : Nat} (hi : i < 2 ^ 64) (he : e.WordsFit fenced 7) :
    WordsSpell (SpellsAt 7 · (Node.projection m i none e).bare)
      ((Node.projection m i none e).words fenced) := by
  rw [Node.words]
  refine (he.append (.sign (k := .dot) (by decide) (.number i .nil))).imp ?_
  rintro _ ⟨us, _, rfl, he, dot, _, rfl, hdot, index, _, rfl, ⟨hindex, hi'⟩, rfl⟩
  refine SpellsSelection.projection he hdot hindex ?_
  have hlt : i < UInt64.size := hi
  rw [Parser.tupleIndex, hi', if_pos hlt]

theorem reference_words (hx : IsIdentifier x ∧ Builtin.ofText? x = none ∨ IsCapitalised x) :
    WordsSpell (SpellsAt 8 · (Node.reference m x).bare) ((Node.reference m x).words fenced) := by
  rw [Node.words]
  rcases hx with ⟨hx, hb⟩ | hx
  · refine (WordsSpell.name hx .nil).imp ?_
    rintro _ ⟨t, _, rfl, ⟨hk, rfl⟩, rfl⟩
    exact SpellsAtom.reference hk hb
  · refine (WordsSpell.name hx .nil).imp ?_
    rintro _ ⟨t, _, rfl, ⟨hk, rfl⟩, rfl⟩
    exact SpellsAtom.constructor hk

theorem builtin_words {b : Builtin} :
    WordsSpell (SpellsAt 8 · (Node.builtin m b).bare) ((Node.builtin m b).words fenced) := by
  rw [Node.words]
  have hname : IsIdentifier b.text := by cases b <;> exact ⟨by decide, by decide, by decide⟩
  refine (WordsSpell.name hname .nil).imp ?_
  rintro _ ⟨t, _, rfl, ⟨hk, hx⟩, rfl⟩
  exact SpellsAtom.builtin hk (hx ▸ Builtin.ofText?_text b)

end

mutual

/-- **The words of an expression spell the expression**, as tightly as it holds together. -/
theorem IsExpression.words_spell : ∀ {n : Node}, IsExpression n → n.Everywhere Node.IsWritable →
    WordsSpell (SpellsAt (n.strength fenced) · n.bare) (n.words fenced)
  | _, .literal, h => by
    rw [Node.words]
    exact literal_spell h.here.holds
  | _, .reference _, h => reference_words h.here.holds
  | _, .builtin, _ => builtin_words
  | _, .lambda _ hbody, h =>
    lambda_words h.here.holds.1 h.here.holds.2
      (Node.wordsFit (hbody.words_spell (h.child List.mem_cons_self)) 1)
  | _, .application hf ha, h =>
    application_words (Node.wordsFit (hf.words_spell (h.child List.mem_cons_self)) 6)
      (Node.wordsFit (ha.words_spell (h.child (List.mem_cons_of_mem _ List.mem_cons_self))) 7)
  | _, .letIn _ hvalue hbody, h =>
    letIn_words h.here.holds.1 h.here.holds.2
      (Node.wordsFit (hvalue.words_spell (h.child List.mem_cons_self)) 1)
      (Node.wordsFit (hbody.words_spell (h.child (List.mem_cons_of_mem _ List.mem_cons_self))) 1)
  | _, .letRec harms hbody, h =>
    letRec_words h.here.holds
      (fun f hf => (harms f hf).words_spell (h.child (List.mem_append_left _ hf)))
      (Node.wordsFit (hbody.words_spell (h.child (List.mem_append_right _ List.mem_cons_self))) 1)
  | _, .conditional hc ht he, h =>
    conditional_words (Node.wordsFit (hc.words_spell (h.child List.mem_cons_self)) 1)
      (Node.wordsFit (ht.words_spell (h.child (List.mem_cons_of_mem _ List.mem_cons_self))) 1)
      (Node.wordsFit (he.words_spell
        (h.child (List.mem_cons_of_mem _ (List.mem_cons_of_mem _ List.mem_cons_self)))) 1)
  | _, .binary hl hr, h =>
    binary_words (Node.wordsFit (hl.words_spell (h.child List.mem_cons_self)) _)
      (Node.wordsFit (hr.words_spell (h.child (List.mem_cons_of_mem _ List.mem_cons_self))) _)
  | _, .unary he, h => unary_words (Node.wordsFit (he.words_spell (h.child List.mem_cons_self)) 5)
  | _, .sequence _ hes, h =>
    sequence_words h.here.holds fun e he => Node.wordsFit ((hes e he).words_spell (h.child he)) 1
  | _, .tuple _ hes, h =>
    tuple_words h.here.holds fun e he => Node.wordsFit ((hes e he).words_spell (h.child he)) 1
  | _, .projection he, h =>
    projection_words h.here.holds
      (Node.wordsFit (he.words_spell (h.child List.mem_cons_self)) 7)
  | _, .dataType hcs hbody, h =>
    dataType_words h.here.holds.1 h.here.holds.2
      (fun c hc => (hcs c hc).words_spell (h.child (List.mem_append_left _ hc)))
      (Node.wordsFit (hbody.words_spell (h.child (List.mem_append_right _ List.mem_cons_self))) 1)
  | _, .matchWith he harms, h =>
    matchWith_words (Node.wordsFit (he.words_spell (h.child List.mem_cons_self)) 1) h.here.holds
      fun arm harm => (harms arm harm).words_spell (h.child (List.mem_cons_of_mem _ harm))

theorem IsFunction.words_spell : ∀ {f : Node}, IsFunction f → f.Everywhere Node.IsWritable →
    WordsSpell (SpellsFunction · f.bare) (f.enclose fenced 1 (f.words fenced))
  | _, .mk _ _ hbody, h => by
    obtain ⟨hf, hx, hpa, hra⟩ := h.here.holds
    rw [Node.enclose_of_le (Nat.le_add_left 1 7)]
    exact function_words hf hx hpa hra
      (Node.wordsFit (hbody.words_spell (h.child List.mem_cons_self)) 1)

theorem IsArm.words_spell : ∀ {arm : Node}, IsArm arm → arm.Everywhere Node.IsWritable →
    WordsSpell (SpellsArm · arm.bare) (arm.enclose fenced 1 (arm.words fenced))
  | _, .mk hp hbody, h => by
    rw [Node.enclose_of_le (Nat.le_add_left 1 7)]
    exact matchArm_words (hp.words_spell (h.child List.mem_cons_self))
      (Node.wordsFit (hbody.words_spell (h.child (List.mem_cons_of_mem _ List.mem_cons_self))) 1)

end

/-! ## 3. Positions -/

/-- The tree without positions. -/
def Node.unplaced (n : Node) : Node := n.mapMarks fun m => ⟨default, m.ty⟩

/-- Changes of the marks that agree on the marks of a tree change the tree alike. -/
theorem Node.mapMarks_congr {f g : Mark → Mark} {n : Node}
    (h : n.Everywhere fun n => f n.mark = g n.mark) : n.mapMarks f = n.mapMarks g := by
  have hall : ∀ {ns : List Node}, (∀ n ∈ ns, n.mapMarks f = n.mapMarks g) →
      mapAllMarks f ns = mapAllMarks g ns := by
    intro ns hns
    induction ns with
    | nil => rfl
    | cons n ns ih =>
      obtain ⟨hn, hns⟩ := List.forall_mem_cons.1 hns
      rw [mapAllMarks, mapAllMarks, hn, ih hns]
  induction h with
  | @mk n hn _ ih =>
    cases n <;> simp_all [mapMarks, mark, children]

/-- What has no types is without marks when it is without positions. -/
theorem Node.unplaced_eq_bare {n : Node} (h : n.Everywhere Node.IsWritable) :
    n.unplaced = n.bare :=
  mapMarks_congr (h.imp fun _ hn => congrArg (Mark.mk default) hn.untyped)

/-! ## 4. Programs -/

/-- The words of a program spell its expression. -/
theorem Node.IsSurface.words_spell {n : Node} (h : n.IsSurface) (fenced : Bool) :
    WordsSpell (fun ts => ∃ e, SpellsExpression ts e ∧ n.bare = (Node.ofProgram e).bare)
      (n.words fenced) := by
  obtain ⟨⟨he⟩, hwritable⟩ := h
  rw [Node.words]
  refine (he.words_spell (hwritable.child List.mem_cons_self)).imp fun ts hts => ?_
  exact ⟨_, SpellsAt.of_le (Nat.zero_le _) hts,
    congrArg (Node.top default) (Node.bare_mapMarks _ _).symm⟩

/-- **Reading inverts writing.** The text of a tree that can be written down is read as that tree,
    up to positions, whether conditionals are put in parentheses or not; and every tree that was
    read can be written down. -/
theorem Node.parse_text :
    (∀ (fenced : Bool) (tree : Node), tree.IsSurface →
        ∃ tree', (Source.ofText (tree.text fenced)).parse = .ok tree' ∧
          tree'.unplaced = tree.unplaced) ∧
      ∀ (s : Source) (tree : Node), s.parse = .ok tree → tree.IsSurface := by
  refine ⟨fun fenced tree h => ?_, fun s tree => Source.isSurface_of_parse⟩
  obtain ⟨hcut, hspells⟩ := h.words_spell fenced
  obtain ⟨tokens, htokens, hwords⟩ := Source.tokens_wordsText hcut
  obtain ⟨e, he, hbare⟩ := hspells tokens hwords
  obtain ⟨tree', hread, halike⟩ : Parser.Yields _
      (Parser.program (Source.ofText (tree.text fenced)).endPosition tokens) :=
    Parser.reads_program he
  have hparse : (Source.ofText (tree.text fenced)).parse = .ok tree' := by
    rw [Source.parse, Node.text, htokens]
    exact hread
  refine ⟨tree', hparse, ?_⟩
  rw [unplaced_eq_bare (Source.isSurface_of_parse hparse).writable, unplaced_eq_bare h.writable,
    hbare]
  exact halike.symm

/-- A product whose first factor is a negated sum in parentheses. -/
def negatedSum : Source := .ofText "-(1 + 2) * p.0"

/-- The tree of `negatedSum`. -/
def negatedSumTree : Node :=
  .top (.at ⟨1, 10⟩) (.binary (.at ⟨1, 10⟩) .multiply
    (.unary (.at ⟨1, 1⟩) .negate (.binary (.at ⟨1, 5⟩) .add
      (.literal (.at ⟨1, 3⟩) (.integer 1)) (.literal (.at ⟨1, 7⟩) (.integer 2))))
    (.projection (.at ⟨1, 13⟩) 0 none (.reference (.at ⟨1, 12⟩) "p")))

set_option maxRecDepth 100000 in
theorem parse_text_negatedSum : negatedSum.parse = .ok negatedSumTree ∧ negatedSumTree.IsSurface ∧
    negatedSumTree.text false = "- ( 1 + 2 ) * p . 0" ∧
      ∃ tree', (Source.ofText (negatedSumTree.text false)).parse = .ok tree' ∧
        tree'.unplaced = negatedSumTree.unplaced := by
  have hparse : negatedSum.parse = .ok negatedSumTree := by with_unfolding_all rfl
  have hsurface : negatedSumTree.IsSurface := Node.parse_text.2 _ _ hparse
  exact ⟨hparse, hsurface, by decide +kernel, Node.parse_text.1 false _ hsurface⟩

end ClosureML
