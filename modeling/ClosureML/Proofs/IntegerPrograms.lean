import ClosureML.Proofs.Behaviour
import ClosureML.Proofs.Syntax.IntegerTexts
import ClosureML.Proofs.Types.Principal

/-!
# The texts of integers denote their values

The program that is the text of an integer ends with the integer, and as a pattern the text matches
this word and no other. So it is for all integers of 64 bits, except that the least of them cannot
stand as an expression; the texts of all other integers are rejected.

* `Source.EndsWith`: the source is compiled, and its program ends with a word;
* `Source.IsRejected`: the text of the source is no program;
* `IsInteger`, `IsComparison`: trees that are an integer, and trees that compare one with a pattern;
* `comparisonText` is the text of such a comparison.

Main statements: `Source.build_of_hasType` (a tree with a derivation is compiled, and its program
behaves as it does) and `Source.integerText_denotes`.
-/

namespace ClosureML

open ClosureML.Computation

/-! ## 1. Programs with a derivation -/

/-- **A program with a derivation is compiled, and its program behaves as it does**, when nothing is
    projected and inference does not run out of variables. -/
theorem Source.build_of_hasType {s : Source} {parsed named : Node} {u : SimpleType}
    (hparse : s.parse = .ok parsed) (hresolve : parsed.resolveNames = .ok named)
    (hprojection : named.NoProjection) (hcount : named.variableCount < 2 ^ 32)
    (htype : HasType named.declarations [] named u) :
    ∃ p, s.build = .ok p ∧ ∀ o out, p.Ends o out ↔ parsed.Ends o out := by
  obtain ⟨tags, htags, -, hrenames, hnames⟩ :=
    (s.isProgram_of_parse hparse).resolveNames_ok hresolve
  have hnodup : (named.declarations.map Declaration.name).Nodup := hnames ▸ htags
  obtain ⟨typing, htyping⟩ := hrenames.inferTypes_ok hnodup hprojection htype
  obtain ⟨s', hinfers, hconstraints, hvariables⟩ := named.infers_of_inferTypes htyping
  have hbounded : s'.Bounded named.declarations :=
    ⟨hvariables ▸ Nat.le_of_lt hcount, hinfers.declared, hnodup⟩
  obtain ⟨θ, hθ, -⟩ := (hinfers.hasType_iff hprojection hbounded hrenames.plain_eq).1 htype
  obtain ⟨σ, hsolve⟩ := solve_of_solves (hconstraints ▸ hθ)
  have hunify : typing.unify = .ok (typing.tree.applyTypes σ) :=
    Typing.unify_ok_iff.2 ⟨σ, hsolve, rfl⟩
  have htyped : s.IsTyped parsed named typing (typing.tree.applyTypes σ) :=
    ⟨hparse, hresolve, htyping, hunify⟩
  have htree := (hinfers.apart hprojection hbounded .empty).sound Types.InferState.sound_empty
    hbounded.declared .nil hθ
  have hwell : s.IsWellTyped :=
    ⟨parsed, named, typing, _, _, htyped, htree.congr _ (Node.bare_mapMarks _ _)⟩
  obtain ⟨p, -, -, -, hbuild, -⟩ := htyped.build_ok
  obtain ⟨parsed', named', typing', tree', hbuilds⟩ := builds_of_build hbuild
  obtain rfl := Except.ok.inj (hparse.symm.trans hbuilds.parse)
  obtain ⟨-, hends⟩ := hbuilds.ends_iff hwell
  exact ⟨p, hbuild, fun o out => (hends o out).1.trans (hends o out).2.symm⟩

/-- The source is compiled, and its program ends with the word and prints nothing. -/
def Source.EndsWith (s : Source) (n : Int) : Prop := ∃ p, s.build = .ok p ∧ p.Ends (.word n) ""

/-- A program with a derivation that is evaluated to a word ends with it. -/
theorem Source.endsWith_of_evaluate {s : Source} {parsed named : Node} {u : SimpleType} {n : Int}
    (hparse : s.parse = .ok parsed) (hresolve : parsed.resolveNames = .ok named)
    (hprojection : named.NoProjection) (hcount : named.variableCount < 2 ^ 32)
    (htype : HasType named.declarations [] named u)
    (hevaluate : parsed.evaluate [] = pure (.word n)) : s.EndsWith n := by
  obtain ⟨p, hbuild, hends⟩ := build_of_hasType hparse hresolve hprojection hcount htype
  refine ⟨p, hbuild, (hends _ _).2 ⟨0, ?_⟩⟩
  rw [hevaluate]
  rfl

/-- The text of the source is rejected. -/
def Source.IsRejected (s : Source) : Prop :=
  ∃ e : CompileError, s.build = .error (.error e) ∧ e.cause.kind = .syntaxError

theorem Source.isRejected_of_parse {s : Source} {e : CompileError} (h : s.parse = .error e) :
    s.IsRejected := by
  refine ⟨e, ?_, s.kind_of_parse_error h⟩
  rw [build, read, h]
  rfl

/-! ## 2. Integers in expressions -/

/-- A word does not change when it is cut down to one. -/
theorem wrap_eq {n : Int} (h : IsWord64 n) : wrap n = n := Int.bmod_eq_of_le h.1 h.2

/-- The tree is a constant or a negated one, and is the integer. -/
inductive IsInteger : Node → Int → Prop where
  | literal {m : Mark} {n : Nat} : IsInteger (.literal m (.integer n)) n
  | negated {m m' : Mark} {n : Nat} :
      IsInteger (.unary m .negate (.literal m' (.integer n))) (-n)

theorem literal_of_alike {m : Mark} {v : Literal} {e : Node} (h : (Node.literal m v).Alike e) :
    ∃ m', e = .literal m' v := by
  cases e with
  | literal m' v' => exact ⟨m', congrArg _ (Node.literal.inj h).2.symm⟩
  | _ => cases h

theorem isInteger_of_alike {n : Int} {e : Node} (h : (integerNode n).Alike e) : IsInteger e n := by
  rw [integerNode] at h
  split at h
  · cases e with
    | unary m o e =>
      obtain ⟨-, rfl, he⟩ := Node.unary.inj h
      obtain ⟨m', rfl⟩ := literal_of_alike he
      have hnode : IsInteger (.unary m .negate (.literal m' (.integer n.natAbs))) (-n.natAbs) :=
        .negated
      have hvalue : -(n.natAbs : Int) = n := by omega
      rwa [hvalue] at hnode
    | _ => cases h
  · obtain ⟨m, rfl⟩ := literal_of_alike h
    have hvalue : (n.natAbs : Int) = n := by omega
    exact hvalue ▸ .literal

namespace IsInteger

variable {e : Node} {n : Int}

theorem hasType {Δ : List Declaration} {Γ : Context} (h : IsInteger e n) : HasType Δ Γ e .int := by
  cases h with
  | literal => exact .literal
  | negated => exact .unary .literal

theorem evaluate (h : IsInteger e n) (hn : IsWord64 n) (env : Environment) :
    e.evaluate env = pure (.word n) := by
  cases h with
  | literal => rfl
  | @negated m m' k =>
    show (pure (.word (wrap (-k))) : Computation Value) = _
    rw [wrap_eq hn]

/-- **A program that is an integer ends with it.** -/
theorem endsWith {s : Source} {m : Mark} (h : IsInteger e n) (hn : IsWord64 n)
    (hparse : s.parse = .ok (.top m e)) : s.EndsWith n := by
  have hresolve : (Node.top m e).resolveNames = .ok (.top m e) := by cases h <;> rfl
  have hprojection : (Node.top m e).NoProjection := by cases h <;> exact of_decide_eq_true rfl
  have hcount : (Node.top m e).variableCount = 0 := by cases h <;> rfl
  exact Source.endsWith_of_evaluate hparse hresolve hprojection (by rw [hcount]; decide)
    (.top h.hasType) (h.evaluate hn [])

end IsInteger

/-! ## 3. Comparisons with a pattern -/

/-- The integer as a pattern matches itself and no other word. -/
theorem matchPattern_integer (env : Environment) (m : Mark) (n k : Int) :
    matchPattern env (.patternLiteral m (.integer n)) (.word k) =
      if k = n then .binds env else .fails := rfl

/-- The tree tells whether the difference of two integers is the one that stands as a pattern; the
    name `x` stands as the other pattern. -/
inductive IsComparison (x : String) (a b n : Int) : Node → Prop where
  | mk {m m' m₁ m₂ m₃ m₄ m₅ m₆ m₇ : Mark} {l r : Node} (hl : IsInteger l a) (hr : IsInteger r b) :
      IsComparison x a b n (.top m (.matchWith m' (.binary m₁ .subtract l r)
        [.matchArm m₂ (.patternLiteral m₃ (.integer n)) (.literal m₄ (.integer 1)),
          .matchArm m₅ (.patternBinder m₆ x) (.literal m₇ (.integer 0))]))

namespace IsComparison

variable {x : String} {a b n : Int} {t : Node}

theorem hasType {Δ : List Declaration} (h : IsComparison x a b n t) : HasType Δ [] t .int := by
  cases h with
  | mk hl hr =>
    exact .top (.matchWith (.arithmetic rfl hl.hasType hr.hasType)
      (.cons .literal .literal (.cons .binder .literal .nil)))

theorem resolveNames (h : IsComparison "_" a b n t) :
    ∃ x t', t.resolveNames = .ok t' ∧ IsComparison x a b n t' := by
  cases h with
  | @mk m m' m₁ m₂ m₃ m₄ m₅ m₆ m₇ l r hl hr =>
    refine ⟨"_#0", _, ?_, @mk "_#0" a b n m m' m₁ m₂ m₃ m₄ m₅ m₆ m₇ l r hl hr⟩
    cases hl <;> cases hr <;> rfl

theorem evaluate (h : IsComparison x a b n t) (ha : IsWord64 a) (hb : IsWord64 b) :
    t.evaluate [] = pure (.word (if wrap (a - b) = n then 1 else 0)) := by
  cases h with
  | mk hl hr =>
    rw [evaluate_top, evaluate_matchWith, evaluate_binary, hl.evaluate ha, hr.evaluate hb]
    show Node.evaluateArms _ [] (.word (wrap (a - b))) = _
    split
    · next heq =>
      exact evaluateArms_binds ((matchPattern_integer [] _ n _).trans (if_pos heq))
    · next hne =>
      rw [evaluateArms_fails ((matchPattern_integer [] _ n _).trans (if_neg hne))]
      exact evaluateArms_binds rfl

/-- **The comparison tells whether the difference is the integer that stands as the pattern.** -/
theorem endsWith {s : Source} (h : IsComparison "_" a b n t) (ha : IsWord64 a) (hb : IsWord64 b)
    (hparse : s.parse = .ok t) : s.EndsWith (if wrap (a - b) = n then 1 else 0) := by
  obtain ⟨x, t', hresolve, h'⟩ := h.resolveNames
  have hprojection : t'.NoProjection := by
    cases h' with | mk hl hr => cases hl <;> cases hr <;> exact of_decide_eq_true rfl
  have hcount : t'.variableCount = 2 := by
    cases h' with | mk hl hr => cases hl <;> cases hr <;> rfl
  exact Source.endsWith_of_evaluate hparse hresolve hprojection (by rw [hcount]; decide)
    h'.hasType (h.evaluate ha hb)

end IsComparison

/-- The tree of the comparison, without marks. -/
def comparisonNode (a b n : Int) : Node :=
  .matchWith (.at default) (.binary (.at default) .subtract (integerNode a) (integerNode b))
    [.matchArm (.at default) (.patternLiteral (.at default) (.integer n))
        (.literal (.at default) (.integer 1)),
      .matchArm (.at default) (.patternBinder (.at default) "_")
        (.literal (.at default) (.integer 0))]

theorem matchArm_of_alike {m : Mark} {p body arm : Node}
    (h : (Node.matchArm m p body).Alike arm) :
    ∃ m' p' body', arm = .matchArm m' p' body' ∧ p.Alike p' ∧ body.Alike body' := by
  cases arm with
  | matchArm m' p' body' => exact ⟨m', p', body', rfl, (Node.matchArm.inj h).2⟩
  | _ => cases h

theorem isComparison_of_alike {a b n : Int} {t : Node}
    (h : (Node.ofProgram (comparisonNode a b n)).Alike t) : IsComparison "_" a b n t := by
  cases t with
  | top m e =>
    obtain ⟨-, he⟩ := Node.top.inj h
    cases e with
    | matchWith m' e arms =>
      obtain ⟨-, he, harms⟩ := Node.matchWith.inj he
      cases e with
      | binary m₁ o l r =>
        obtain ⟨-, rfl, hl, hr⟩ := Node.binary.inj he
        have hlength : arms.length = 2 := by
          rw [← length_mapAllMarks, ← harms]
          rfl
        obtain ⟨arm, arm', rfl⟩ := List.length_eq_two.1 hlength
        obtain ⟨harm, hrest⟩ := List.cons.inj harms
        obtain ⟨m₂, p, body, rfl, hp, hbody⟩ := matchArm_of_alike harm
        obtain ⟨m₅, p', body', rfl, hp', hbody'⟩ := matchArm_of_alike (List.cons.inj hrest).1
        obtain ⟨m₄, rfl⟩ := literal_of_alike hbody
        obtain ⟨m₇, rfl⟩ := literal_of_alike hbody'
        cases p <;> cases hp
        cases p' <;> cases hp'
        exact .mk (isInteger_of_alike hl) (isInteger_of_alike hr)
      | _ => cases he
    | _ => cases he
  | _ => cases h

/-! ## 4. Texts -/

/-- The program that tells whether the difference of two integers is the one that stands as a
    pattern, which may have zeros in front. -/
def comparisonText (a b : Int) (zeros : Nat) (n : Int) : String :=
  " ".intercalate ["match", integerText 0 a, "-", integerText 0 b, "\x7b", integerText zeros n,
    "->", "1", ";", "_", "->", "0", "\x7d"]

/-- The words behind the pattern. -/
def wordsBehindPattern : List Word :=
  [.sign .arrow, .number 1, .sign .semicolon, .name "_", .sign .arrow, .number 0, .sign .closeBrace]

/-- The words of the comparison. -/
def comparisonWords (a b : Int) (zeros : Nat) (n : Int) : List Word :=
  .keyword .matchWith :: (integerWords 0 a ++ .sign .minus :: (integerWords 0 b ++
    .sign .openBrace :: (integerWords zeros n ++ wordsBehindPattern)))

theorem tokens_integerText (zeros : Nat) (n : Int) :
    ∃ ts, (Source.ofText (integerText zeros n)).tokens = .ok ts ∧
      ts.map Token.word = integerWords zeros n := by
  have htokens :=
    Source.tokens_phrasesText (List.forall_mem_singleton.2 (isCut_integerPhrase zeros n))
  have htext : phrasesText [integerPhrase zeros n] = integerText zeros n :=
    String.intercalate_singleton
  rwa [htext, List.flatMap_singleton] at htokens

/-- The comparison as phrases. -/
def comparisonPhrases (a b : Int) (zeros : Nat) (n : Int) : List Phrase :=
  [(Word.keyword .matchWith).phrase, integerPhrase 0 a, (Word.sign .minus).phrase,
    integerPhrase 0 b, (Word.sign .openBrace).phrase, integerPhrase zeros n]
    ++ wordsBehindPattern.map Word.phrase

/-- Behind a first pattern, the words spell the rest of the arms. -/
theorem wordsBehindPattern_spell :
    WordsSpell (fun ts => ∃ us r, ts = us ++ [r] ∧ r.kind = .closeBrace ∧
      ∀ {ws p}, SpellsPattern ws p → SpellsArms (ws ++ us)
        [.matchArm (.at default) p (.literal (.at default) (.integer 1)),
          .matchArm (.at default) (.patternBinder (.at default) "_")
            (.literal (.at default) (.integer 0))]) wordsBehindPattern := by
  have hname : IsIdentifier "_" := ⟨by decide, by decide, by decide⟩
  refine (WordsSpell.sign (k := .arrow) (by decide) (.number 1 (.sign (k := .semicolon) (by decide)
    (.name hname (.sign (k := .arrow) (by decide) (.number 0
      (.sign (k := .closeBrace) (by decide) .nil))))))).imp ?_
  rintro _ ⟨arrow, _, rfl, harrow, one, _, rfl, hone, semicolon, _, rfl, hsemicolon, x, _, rfl,
    hx, arrow', _, rfl, harrow', zero, _, rfl, hzero, r, _, rfl, hr, rfl⟩
  refine ⟨[arrow, one, semicolon, x, arrow', zero], r, rfl, hr, fun hp => ?_⟩
  have hliteral : ∀ {t : Token} {k : Nat}, t.kind = .integerLiteral ∧
      Parser.decimal t.text.toList = k → k < 2 ^ 63 →
        SpellsClosed [t] (.literal (.at default) (.integer k)) := by
    intro t k ht hk
    exact .relation (.sum (.product (.negation (.application (.selection (.atom
      (.integer ht.1 (integerLiteral_nonneg ht.2 ⟨Int.natCast_nonneg _, by omega⟩))))))))
  have hbinder : SpellsPattern [x] (.patternBinder (.at default) "_") := hx.2 ▸ .binder hx.1
  exact .more hp harrow (hliteral hone (by decide)) hsemicolon
    (.one hbinder harrow' (.closed (hliteral hzero (by decide))))

theorem isCut_of_mem_comparisonPhrases {a b : Int} {zeros : Nat} {n : Int} {p : Phrase}
    (h : p ∈ comparisonPhrases a b zeros n) : p.IsCut := by
  simp only [comparisonPhrases, List.mem_append, List.mem_cons, List.not_mem_nil, or_false,
    List.mem_map] at h
  rcases h with (rfl | rfl | rfl | rfl | rfl | rfl) | ⟨w, hw, rfl⟩
  · exact (Word.isCut_keyword .matchWith).phrase
  · exact isCut_integerPhrase 0 a
  · exact (Word.isCut_sign (by decide)).phrase
  · exact isCut_integerPhrase 0 b
  · exact (Word.isCut_sign (by decide)).phrase
  · exact isCut_integerPhrase zeros n
  · exact (wordsBehindPattern_spell.cut w hw).phrase

theorem tokens_comparisonText (a b : Int) (zeros : Nat) (n : Int) :
    ∃ ts, (Source.ofText (comparisonText a b zeros n)).tokens = .ok ts ∧
      ts.map Token.word = comparisonWords a b zeros n := by
  have hcut : ∀ p ∈ comparisonPhrases a b zeros n, p.IsCut := fun _ =>
    isCut_of_mem_comparisonPhrases
  have htexts : (wordsBehindPattern.map Word.phrase).map Phrase.text =
      ["->", "1", ";", "_", "->", "0", "\x7d"] := by decide
  have htext : phrasesText (comparisonPhrases a b zeros n) = comparisonText a b zeros n := by
    rw [phrasesText, comparisonPhrases, List.map_append, htexts]
    rfl
  have hwords : (comparisonPhrases a b zeros n).flatMap Phrase.words =
      comparisonWords a b zeros n := by
    have hend : (wordsBehindPattern.map Word.phrase).flatMap Phrase.words = wordsBehindPattern := by
      decide
    rw [comparisonPhrases, List.flatMap_append, hend]
    simp only [List.flatMap_cons, List.flatMap_nil, List.append_nil, List.append_assoc]
    rfl
  have htokens := Source.tokens_phrasesText hcut
  rwa [htext, hwords] at htokens

/-- The tokens of the comparison, cut at the two operands and the pattern. -/
theorem tokens_of_comparisonWords {a b : Int} {zeros : Nat} {n : Int} {ts : List Token}
    (h : ts.map Token.word = comparisonWords a b zeros n) :
    ∃ start us minus vs l ws more, ts = start :: ((us ++ minus :: vs) ++ l :: (ws ++ more)) ∧
      start.kind = .keyword .matchWith ∧ us.map Token.word = integerWords 0 a ∧
      minus.kind = .minus ∧ vs.map Token.word = integerWords 0 b ∧ l.kind = .openBrace ∧
      ws.map Token.word = integerWords zeros n ∧ more.map Token.word = wordsBehindPattern := by
  obtain ⟨start, _, rfl, hstart, h⟩ := List.map_eq_cons_iff.1 h
  obtain ⟨us, _, rfl, hus, h⟩ := List.map_eq_append_iff.1 h
  obtain ⟨minus, _, rfl, hminus, h⟩ := List.map_eq_cons_iff.1 h
  obtain ⟨vs, _, rfl, hvs, h⟩ := List.map_eq_append_iff.1 h
  obtain ⟨l, _, rfl, hl, h⟩ := List.map_eq_cons_iff.1 h
  obtain ⟨ws, more, rfl, hws, hmore⟩ := List.map_eq_append_iff.1 h
  exact ⟨start, us, minus, vs, l, ws, more, by simp, congrArg Word.kind hstart, hus,
    congrArg Word.kind hminus, hvs, congrArg Word.kind hl, hws, hmore⟩

section Reading

variable {a b n : Int} {zeros : Nat} {ts us vs : List Token}

/-- The difference of two integers is spelled by their texts with a minus sign between them. -/
theorem spells_difference {minus : Token} (hus : us.map Token.word = integerWords 0 a)
    (hvs : vs.map Token.word = integerWords 0 b) (hminus : minus.kind = .minus)
    (ha : a.natAbs < 2 ^ 63) (hb : b.natAbs < 2 ^ 63) :
    SpellsExpression (us ++ minus :: vs)
      (.binary (.at default) .subtract (integerNode a) (integerNode b)) :=
  .statement (.one (.closed (.relation (.sum (.term
    (.product (.negation (spellsNegation_integer hus ha))) (by rw [hminus]; rfl)
    (.negation (spellsNegation_integer hvs hb)))))))

/-- **The comparison with an integer of 64 bits is spelled by its words.** -/
theorem spells_comparison (h : ts.map Token.word = comparisonWords a b zeros n)
    (ha : a.natAbs < 2 ^ 63) (hb : b.natAbs < 2 ^ 63) (hn : IsWord64 n) :
    SpellsExpression ts (comparisonNode a b n) := by
  obtain ⟨start, us, minus, vs, l, ws, more, rfl, hstart, hus, hminus, hvs, hl, hws, hmore⟩ :=
    tokens_of_comparisonWords h
  obtain ⟨arms, r, rfl, hr, harms⟩ := wordsBehindPattern_spell.spells more hmore
  have hscrutinee := spells_difference hus hvs hminus ha hb
  have hmatch := SpellsClosed.matchWith (q := default) hstart hscrutinee hl
    (harms (spellsPattern_integer (q := default) hws hn)) hr
  rw [List.append_assoc ws] at hmatch
  exact .statement (.one (.closed hmatch))

/-- **A comparison with an integer of more than 64 bits is rejected at the pattern.** -/
theorem program_comparison_tooWide {stop : Position}
    (h : ts.map Token.word = comparisonWords a b zeros n) (ha : a.natAbs < 2 ^ 63)
    (hb : b.natAbs < 2 ^ 63) (hn : ¬ IsWord64 n) :
    ∃ p, Parser.program stop ts = .error ⟨.integerTooWide (integerText zeros n), p⟩ := by
  obtain ⟨start, us, minus, vs, l, ws, more, rfl, hstart, hus, hminus, hvs, hl, hws, -⟩ :=
    tokens_of_comparisonWords h
  obtain ⟨p, hp⟩ := Parser.pattern_tooWide hws hn stop more
  exact ⟨p, Parser.program_error_of_pattern hstart (spells_difference hus hvs hminus ha hb) hl hp⟩

end Reading

/-! ## 5. What the texts denote -/

namespace Source

variable {zeros : Nat} {n a b : Int}

theorem parse_eq_of_tokens {s : Source} {ts : List Token} (h : s.tokens = .ok ts) :
    s.parse = Parser.program s.endPosition ts := by
  rw [parse, h]
  rfl

theorem endsWith_integerText (hn : n.natAbs < 2 ^ 63) :
    (Source.ofText (integerText zeros n)).EndsWith n := by
  obtain ⟨ts, htokens, hts⟩ := tokens_integerText zeros n
  obtain ⟨t, hprogram, halike⟩ : Parser.Yields _ (Parser.program _ ts) :=
    Parser.reads_program (.statement (.one (.closed (.relation (.sum (.product
      (.negation (spellsNegation_integer hts hn))))))))
  have hparse := (parse_eq_of_tokens htokens).trans hprogram
  cases t with
  | top m e =>
    have he := isInteger_of_alike (Node.top.inj halike).2
    exact he.endsWith (by unfold IsWord64; omega) hparse
  | _ => cases halike

theorem isRejected_integerText (hn : 2 ^ 63 ≤ n.natAbs) :
    (Source.ofText (integerText zeros n)).IsRejected := by
  obtain ⟨ts, htokens, hts⟩ := tokens_integerText zeros n
  obtain ⟨p, hp⟩ := Parser.expression_tooWide hts hn (ofText (integerText zeros n)).endPosition []
  rw [List.append_nil] at hp
  have hprogram : Parser.program (ofText (integerText zeros n)).endPosition ts =
      .error ⟨.integerTooWide (digitsText zeros n.natAbs), p⟩ := by
    rw [Parser.program, hp]
    rfl
  exact isRejected_of_parse ((parse_eq_of_tokens htokens).trans hprogram)

theorem endsWith_comparisonText (ha : a.natAbs < 2 ^ 63) (hb : b.natAbs < 2 ^ 63)
    (hn : IsWord64 n) :
    (Source.ofText (comparisonText a b zeros n)).EndsWith (if wrap (a - b) = n then 1 else 0) := by
  obtain ⟨ts, htokens, hts⟩ := tokens_comparisonText a b zeros n
  obtain ⟨t, hprogram, halike⟩ : Parser.Yields _ (Parser.program _ ts) :=
    Parser.reads_program (spells_comparison hts ha hb hn)
  have hparse := (parse_eq_of_tokens htokens).trans hprogram
  exact (isComparison_of_alike halike).endsWith (by unfold IsWord64; omega)
    (by unfold IsWord64; omega) hparse

theorem isRejected_comparisonText (ha : a.natAbs < 2 ^ 63) (hb : b.natAbs < 2 ^ 63)
    (hn : ¬ IsWord64 n) : (Source.ofText (comparisonText a b zeros n)).IsRejected := by
  obtain ⟨ts, htokens, hts⟩ := tokens_comparisonText a b zeros n
  obtain ⟨p, hp⟩ := program_comparison_tooWide hts ha hb hn
  exact isRejected_of_parse ((parse_eq_of_tokens htokens).trans hp)

end Source

/-- **The text of an integer denotes it.** For an integer of 64 bits, the program that is its text
    ends with it, except for the least one; where a pattern is read, its text is read as a pattern
    that matches this word and no other. For an integer of more than 64 bits, both are rejected. -/
theorem Source.integerText_denotes (zeros : Nat) (n : Int) :
    (∃ ts, (Source.ofText (integerText zeros n)).tokens = .ok ts ∧
      ts.map Token.word = integerWords zeros n) ∧
    (IsWord64 n →
      (n ≠ -2 ^ 63 → (Source.ofText (integerText zeros n)).EndsWith n) ∧
      (∀ a b : Int, a.natAbs < 2 ^ 63 → b.natAbs < 2 ^ 63 →
        (Source.ofText (comparisonText a b zeros n)).EndsWith (if wrap (a - b) = n then 1 else 0)) ∧
      ∀ ts stop rest, ts.map Token.word = integerWords zeros n →
        Parser.Yields (fun r => r.rest = rest ∧ ∀ env k, matchPattern env r.value (.word k) =
            if k = n then .binds env else .fails)
          (Parser.pattern stop (ts ++ rest))) ∧
    (¬ IsWord64 n →
      (Source.ofText (integerText zeros n)).IsRejected ∧
      (∀ a b : Int, a.natAbs < 2 ^ 63 → b.natAbs < 2 ^ 63 →
        (Source.ofText (comparisonText a b zeros n)).IsRejected) ∧
      ∀ ts stop rest, ts.map Token.word = integerWords zeros n →
        (∃ p, Parser.expression stop (ts ++ rest) =
          .error ⟨.integerTooWide (digitsText zeros n.natAbs), p⟩) ∧
        ∃ p, Parser.pattern stop (ts ++ rest) =
          .error ⟨.integerTooWide (integerText zeros n), p⟩) := by
  refine ⟨tokens_integerText zeros n,
    fun hn => ⟨fun hleast => ?_, fun a b ha hb => ?_, fun ts stop rest hts => ?_⟩,
    fun hn => ⟨?_, fun a b ha hb => ?_, fun ts stop rest hts => ⟨?_, ?_⟩⟩⟩
  · unfold IsWord64 at hn
    exact endsWith_integerText (by omega)
  · exact endsWith_comparisonText ha hb hn
  · obtain ⟨r, hr, p, hvalue, hrest⟩ := Parser.pattern_integer hts hn stop rest
    exact ⟨r, hr, hrest, fun env k => hvalue ▸ matchPattern_integer env _ n k⟩
  · unfold IsWord64 at hn
    exact isRejected_integerText (by omega)
  · exact isRejected_comparisonText ha hb hn
  · unfold IsWord64 at hn
    exact Parser.expression_tooWide hts (by omega) stop rest
  · exact Parser.pattern_tooWide hts hn stop rest

/-- A negative number with zeros in front, a number that is too wide, and the least integer as a
    pattern. -/
theorem integerText_denotes_leastInteger :
    (Source.ofText "-005").EndsWith (-5) ∧
    (Source.ofText "9223372036854775808").IsRejected ∧
    (Source.ofText
      "match -9223372036854775807 - 1 \x7b -9223372036854775808 -> 1 ; _ -> 0 \x7d").EndsWith 1 ∧
    (Source.ofText "match 0 - 1 \x7b -9223372036854775809 -> 1 ; _ -> 0 \x7d").IsRejected := by
  refine ⟨?_, ?_, ?_, ?_⟩
  · have htext : integerText 2 (-5) = "-005" := by decide
    exact htext ▸ ((Source.integerText_denotes 2 (-5)).2.1 (by decide)).1 (by decide)
  · have htext : integerText 0 9223372036854775808 = "9223372036854775808" := by decide
    exact htext ▸ ((Source.integerText_denotes 0 9223372036854775808).2.2 (by decide)).1
  · have htext : comparisonText (-9223372036854775807) 1 0 (-9223372036854775808) =
        "match -9223372036854775807 - 1 \x7b -9223372036854775808 -> 1 ; _ -> 0 \x7d" := by decide
    have hends := ((Source.integerText_denotes 0 (-9223372036854775808)).2.1 (by decide)).2.1
      (-9223372036854775807) 1 (by decide) (by decide)
    exact htext ▸ hends
  · have htext : comparisonText 0 1 0 (-9223372036854775809) =
        "match 0 - 1 \x7b -9223372036854775809 -> 1 ; _ -> 0 \x7d" := by decide
    exact htext ▸ ((Source.integerText_denotes 0 (-9223372036854775809)).2.2 (by decide)).2.1 0 1
      (by decide) (by decide)

/-- The least integer has 64 bits, but its text is no program: the digits behind the sign are a
    constant of their own, and as such too wide. -/
theorem leastInteger_isRejected :
    IsWord64 (-2 ^ 63) ∧ (Source.ofText "-9223372036854775808").IsRejected ∧
      ¬ (Source.ofText "-9223372036854775808").EndsWith (-2 ^ 63) := by
  have htext : integerText 0 (-2 ^ 63) = "-9223372036854775808" := by decide
  have hrejected : (Source.ofText "-9223372036854775808").IsRejected :=
    htext ▸ Source.isRejected_integerText (by decide)
  refine ⟨by decide, hrejected, ?_⟩
  rintro ⟨p, hbuild, -⟩
  obtain ⟨e, herror, -⟩ := hrejected
  rw [hbuild] at herror
  cases herror

end ClosureML
