import ClosureML.Proofs.Syntax.ParserSound
import ClosureML.Proofs.Syntax.Surface

/-!
# What the parser makes

The trees that the parser makes are those that can be written down: trees of the grammar, whose
names are words of the text.

* `Lexed`: the tokens that names are read from hold names.

Main statements: `Source.isSurface_of_parse`, `Source.isProgram_of_parse` and
`Source.kind_of_parse_error`.
-/

namespace ClosureML

open ClosureML.Parser (integerLiteral tupleIndex)

/-! ## 1. Names of a text -/

/-- The tokens that names are read from hold names. -/
def Lexed (tokens : List Token) : Prop :=
  ∀ t ∈ tokens, t.kind = .identifier ∨ t.kind = .constructorIdentifier → IsName t.kind t.text

theorem Lexed.identifier {t : Token} {tokens : List Token} (h : Lexed (t :: tokens))
    (hk : t.kind = .identifier) : IsIdentifier t.text :=
  show IsName .identifier t.text from hk ▸ h t List.mem_cons_self (.inl hk)

theorem Lexed.capitalised {t : Token} {tokens : List Token} (h : Lexed (t :: tokens))
    (hk : t.kind = .constructorIdentifier) : IsCapitalised t.text :=
  show IsName .constructorIdentifier t.text from hk ▸ h t List.mem_cons_self (.inr hk)

theorem Lexed.tail {t : Token} {tokens : List Token} (h : Lexed (t :: tokens)) : Lexed tokens :=
  fun u hu => h u (List.mem_cons_of_mem _ hu)

theorem Lexed.left {ts us : List Token} (h : Lexed (ts ++ us)) : Lexed ts :=
  fun t ht => h t (List.mem_append_left _ ht)

theorem Lexed.right {ts us : List Token} (h : Lexed (ts ++ us)) : Lexed us :=
  fun t ht => h t (List.mem_append_right _ ht)

theorem take_length_takeWhile {α : Type} (p : α → Bool) (cs : List α) :
    cs.take (cs.takeWhile p).length = cs.takeWhile p :=
  List.prefix_iff_eq_take.1 (List.takeWhile_prefix p) |>.symm

theorem pairSign?_ne {c d : Char} {kind : TokenKind} (h : pairSign? c d = some kind) :
    ¬ (kind = .identifier ∨ kind = .constructorIdentifier) := by
  unfold pairSign? at h
  split at h <;> cases h <;> rintro (h | h) <;> cases h

theorem sign?_ne {c : Char} {kind : TokenKind} (h : sign? c = some kind) :
    ¬ (kind = .identifier ∨ kind = .constructorIdentifier) := by
  unfold sign? at h
  split at h <;> cases h <;> rintro (h | h) <;> cases h

/-- The token that begins with a character, when a name is read from it, is a name of its kind. -/
theorem isName_of_lexeme? {c : Char} {rest : List Char} {kind : TokenKind} {n : Nat}
    (h : lexeme? c rest = some (kind, n))
    (hkind : kind = .identifier ∨ kind = .constructorIdentifier) :
    IsName kind (String.ofList (c :: rest.take n)) := by
  unfold lexeme? at h
  split at h
  · cases h
    rcases hkind with hkind | hkind <;> cases hkind
  · split at h
    · next hstart =>
      cases h
      rw [take_length_takeWhile]
      refine ⟨?_, ?_, ?_⟩
      · rw [IsWord, String.toList_ofList]
        intro d hd
        rcases List.mem_cons.1 hd with rfl | hd
        · rw [isWordCharacter, hstart, Bool.true_or]
        · exact List.all_eq_true.1 List.all_takeWhile d hd
      · rw [String.toList_ofList]
        exact hstart
      · rw [String.toList_ofList]
    · split at h
      · next hpair =>
        cases h
        obtain ⟨d, -, hd⟩ := Option.bind_eq_some_iff.1 hpair
        exact absurd hkind (pairSign?_ne hd)
      · obtain ⟨kind', hsign, heq⟩ := Option.map_eq_some_iff.1 h
        cases heq
        exact absurd hkind (sign?_ne hsign)

/-- **Induction along the cut of a text**: spacing and comments are passed over, tokens are taken,
    and the cut ends with the text, at a character that is not ASCII, or at one that begins no
    token. -/
theorem scan_induction {motive : Cursor → List Char → Scan → Prop}
    (nil : ∀ k, motive k [] ⟨[], none⟩)
    (spacing : ∀ k c rest r, isSpacing c = true → motive (k.step c) rest r → motive k (c :: rest) r)
    (comment : ∀ k c rest r, startsComment c rest = true →
      motive ((k.step c).run (rest.takeWhile (· ≠ '\n')))
        (rest.drop (rest.takeWhile (· ≠ '\n')).length) r → motive k (c :: rest) r)
    (foreign : ∀ k c rest, isSpacing c = false → startsComment c rest = false → isAscii c = false →
      motive k (c :: rest) ⟨[], some ⟨.nonAsciiCharacter c, k.position⟩⟩)
    (stray : ∀ k c rest, isSpacing c = false → startsComment c rest = false →
      lexeme? c rest = none → motive k (c :: rest) ⟨[], some ⟨.strayCharacter c, k.position⟩⟩)
    (token : ∀ k c rest kind n r, isSpacing c = false → isAscii c = true →
      lexeme? c rest = some (kind, n) → motive ((k.step c).run (rest.take n)) (rest.drop n) r →
        motive k (c :: rest) ⟨Token.over k kind (c :: rest.take n) :: r.tokens, r.stop⟩)
    (k : Cursor) (cs : List Char) : motive k cs (scan k cs) := by
  induction k, cs using scan.induct with
  | case1 k =>
    rw [scan_nil]
    exact nil k
  | case2 k c rest hspacing ih =>
    rw [scan_cons, if_pos hspacing]
    exact spacing k c rest _ hspacing ih
  | case3 k c rest hspacing hcomment _ ih =>
    rw [scan_cons, if_neg hspacing, if_pos hcomment]
    exact comment k c rest _ hcomment ih
  | case4 k c rest hspacing hcomment hascii =>
    rw [scan_cons, if_neg hspacing, if_neg hcomment, if_pos hascii]
    exact foreign k c rest (Bool.eq_false_iff.2 hspacing) (Bool.eq_false_iff.2 hcomment)
      (by simpa using hascii)
  | case5 k c rest hspacing hcomment hascii hnone =>
    rw [scan_cons, if_neg hspacing, if_neg hcomment, if_neg hascii, hnone]
    exact stray k c rest (Bool.eq_false_iff.2 hspacing) (Bool.eq_false_iff.2 hcomment) hnone
  | case6 k c rest hspacing hcomment hascii kind n hsome ih =>
    rw [scan_cons, if_neg hspacing, if_neg hcomment, if_neg hascii, hsome]
    exact token k c rest kind n _ (Bool.eq_false_iff.2 hspacing) (by simpa using hascii) hsome ih

/-- **Names of a text are names of their kinds.** -/
theorem lexed_scan (k : Cursor) (cs : List Char) : Lexed (scan k cs).tokens := by
  refine scan_induction (motive := fun _ _ r => Lexed r.tokens) ?nil ?spacing ?comment ?foreign
    ?stray ?token k cs
  case nil => exact fun _ _ ht => absurd ht List.not_mem_nil
  case spacing | comment => exact fun _ _ _ _ _ ih => ih
  case foreign | stray => exact fun _ _ _ _ _ _ _ ht => absurd ht List.not_mem_nil
  case token =>
    intro k c rest kind n r _ _ hsome ih t ht hkind
    rcases List.mem_cons.1 ht with rfl | ht
    · exact isName_of_lexeme? hsome hkind
    · exact ih t ht hkind

theorem Source.lexed_tokens {s : Source} {tokens : List Token} (h : s.tokens = .ok tokens) :
    Lexed tokens := by
  rw [Source.tokens] at h
  split at h
  · cases h
    exact lexed_scan _ _
  · cases h

/-! ## 2. Numbers of a text -/

theorem integerLiteral_isWritable {t : Token} {v : Literal} {negative : Bool}
    (h : integerLiteral t negative = .ok v) : v.IsWritable negative ∧ v.IsWritable true := by
  have hsize : UInt64.size = 2 ^ 64 := rfl
  rw [integerLiteral] at h
  cases negative with
  | true =>
    split at h
    · split at h
      · cases h
        simp only [Literal.IsWritable, if_true]
        omega
      · cases h
    · next hfalse => exact absurd rfl hfalse
  | false =>
    split at h
    · next hfalse => exact absurd hfalse Bool.false_ne_true
    · split at h
      · cases h
        simp only [Literal.IsWritable, if_true, Bool.false_eq_true, if_false]
        omega
      · cases h

theorem tupleIndex_lt {t : Token} {i : Nat} (h : tupleIndex t = .ok i) : i < 2 ^ 64 := by
  rw [tupleIndex] at h
  split at h
  · next hlt =>
    cases h
    exact hlt
  · cases h

/-! ## 3. Types and patterns -/

mutual

theorem SpellsType.isWritable : ∀ {ts : List Token} {t : TypeExpr}, SpellsType ts t → Lexed ts →
    t.IsWritable
  | _, _, .atom h, hw => h.isWritable hw
  | _, _, .function ha _ hb, hw => .function (ha.isWritable hw.left) (hb.isWritable hw.right.tail)

theorem SpellsTypeAtom.isWritable : ∀ {ts : List Token} {t : TypeExpr}, SpellsTypeAtom ts t →
    Lexed ts → t.IsWritable
  | _, _, .base _ _, _ => .base
  | _, _, .named hk, hw => .named (hw.capitalised hk)
  | _, _, .unit _ _, _ => .base
  | _, _, .parentheses _ h _, hw => h.isWritable hw.tail.left _ List.mem_cons_self
  | _, _, .tuple _ h _, hw =>
    .tuple (Nat.le_add_left 2 _) (h.isWritable hw.tail.left)

theorem SpellsTypes.isWritable : ∀ {ts : List Token} {as : List TypeExpr}, SpellsTypes ts as →
    Lexed ts → ∀ a ∈ as, a.IsWritable
  | _, _, .one h, hw => List.forall_mem_singleton.2 (h.isWritable hw)
  | _, _, .more h _ hmore, hw =>
    List.forall_mem_cons.2 ⟨h.isWritable hw.left, hmore.isWritable hw.right.tail⟩

end

theorem SpellsAscription.isWritable {S : List Token → TypeExpr → Prop} {ts : List Token}
    {a : Option TypeExpr} (hS : ∀ {ts t}, S ts t → Lexed ts → t.IsWritable)
    (h : SpellsAscription S ts a) (hw : Lexed ts) : ∀ t ∈ a, t.IsWritable := by
  cases h with
  | absent => exact nofun
  | present _ h => exact fun t ht => Option.some.inj ht ▸ hS h hw.tail

/-- A tree has its place in the grammar and can be written down. -/
def IsWrittenAs (P : Node → Prop) (n : Node) : Prop := P n ∧ n.Everywhere Node.IsWritable

theorem IsWrittenAs.mk {P : Node → Prop} {n : Node} (h : P n) (hn : n.HoldsText)
    (hchildren : ∀ c ∈ n.children, c.Everywhere Node.IsWritable)
    (untyped : n.mark.ty = none := by rfl) : IsWrittenAs P n :=
  ⟨h, .mk ⟨untyped, hn⟩ hchildren⟩

mutual

theorem SpellsPattern.isWritten : ∀ {ts : List Token} {p : Node}, SpellsPattern ts p → Lexed ts →
    IsWrittenAs IsPattern p
  | _, _, .binder hk, hw => .mk (.binder (hw.identifier hk).word) (hw.identifier hk) nofun
  | _, _, .integer _ hv, _ => .mk .literal (integerLiteral_isWritable hv).2 nofun
  | _, _, .negative _ _ hv, _ => .mk .literal (integerLiteral_isWritable hv).2 nofun
  | _, _, .boolean _, _ => .mk .literal trivial nofun
  | _, _, .constant hk, hw =>
    .mk (.constructor (hw.capitalised hk).word nofun) (hw.capitalised hk) nofun
  | _, _, .constructor hk _ h _, hw =>
    have hps := h.isWritten hw.tail.tail.left
    .mk (.constructor (hw.capitalised hk).word fun p hp => (hps p hp).1) (hw.capitalised hk)
      fun p hp => (hps p hp).2
  | _, _, .unit _ _, _ => .mk .literal trivial nofun
  | _, _, .parentheses _ h _, hw => h.isWritten hw.tail.left _ List.mem_cons_self
  | _, _, .tuple _ h _, hw =>
    have hps := h.isWritten hw.tail.left
    .mk (.tuple (List.cons_ne_nil _ _) fun p hp => (hps p hp).1) (Nat.le_add_left 2 _)
      fun p hp => (hps p hp).2

theorem SpellsPatterns.isWritten : ∀ {ts : List Token} {ps : List Node}, SpellsPatterns ts ps →
    Lexed ts → ∀ p ∈ ps, IsWrittenAs IsPattern p
  | _, _, .one h, hw => List.forall_mem_singleton.2 (h.isWritten hw)
  | _, _, .more h _ hmore, hw =>
    List.forall_mem_cons.2 ⟨h.isWritten hw.left, hmore.isWritten hw.right.tail⟩

end

theorem SpellsConstructor.isWritten {ts : List Token} {c : Node} (h : SpellsConstructor ts c)
    (hw : Lexed ts) : IsWrittenAs IsConstructor c := by
  cases h with
  | constant hk =>
    exact .mk (.mk (hw.capitalised hk).word) ⟨hw.capitalised hk, nofun⟩ nofun
  | parameters hk _ h =>
    exact .mk (.mk (hw.capitalised hk).word) ⟨hw.capitalised hk, h.isWritable hw.tail.tail.left⟩
      nofun

theorem SpellsConstructors.isWritten {ts : List Token} {cs : List Node}
    (h : SpellsConstructors ts cs) (hw : Lexed ts) :
    cs ≠ [] ∧ ∀ c ∈ cs, IsWrittenAs IsConstructor c := by
  induction h with
  | one h => exact ⟨List.cons_ne_nil _ _, List.forall_mem_singleton.2 (h.isWritten hw)⟩
  | more h _ _ ih =>
    exact ⟨List.cons_ne_nil _ _,
      List.forall_mem_cons.2 ⟨h.isWritten hw.left, (ih hw.right.tail).2⟩⟩

theorem SpellsParameter.isWritten {ts : List Token} {x : String × Option TypeExpr}
    (h : SpellsParameter ts x) (hw : Lexed ts) :
    IsIdentifier x.1 ∧ ∀ t ∈ x.2, t.IsWritable := by
  cases h with
  | name hx => exact ⟨hw.identifier hx, nofun⟩
  | typed _ hx _ h =>
    exact ⟨hw.tail.identifier hx,
      fun t ht => Option.some.inj ht ▸ h.isWritable hw.tail.tail.tail.left⟩

/-! ## 4. Expressions -/

mutual

theorem SpellsExpression.isWritten : ∀ {ts : List Token} {n : Node}, SpellsExpression ts n →
    Lexed ts → IsWrittenAs IsExpression n
  | _, _, .statement h, hw => h.isWritten hw _ List.mem_cons_self
  | _, _, .sequence h, hw =>
    have hns := h.isWritten hw
    .mk (.sequence (List.cons_ne_nil _ _) fun n hn => (hns n hn).1) (Nat.le_add_left 2 _)
      fun n hn => (hns n hn).2

theorem SpellsStatements.isWritten : ∀ {ts : List Token} {ns : List Node}, SpellsStatements ts ns →
    Lexed ts → ∀ n ∈ ns, IsWrittenAs IsExpression n
  | _, _, .one h, hw => List.forall_mem_singleton.2 (h.isWritten hw)
  | _, _, .more h _ hmore, hw =>
    List.forall_mem_cons.2 ⟨h.isWritten hw.left, hmore.isWritten hw.right.tail⟩

theorem SpellsStatement.isWritten : ∀ {ts : List Token} {n : Node}, SpellsStatement ts n →
    Lexed ts → IsWrittenAs IsExpression n
  | _, _, .letIn _ hx ha _ hvalue _ hbody, hw =>
    have hx := hw.tail.identifier hx
    have ha := ha.isWritable SpellsType.isWritable hw.tail.tail.left
    have hvalue := hvalue.isWritten hw.tail.tail.right.tail.left
    have hbody := hbody.isWritten hw.tail.tail.right.tail.right.tail
    .mk (.letIn hx.word hvalue.1 hbody.1) ⟨hx, ha⟩
      (List.forall_mem_cons.2 ⟨hvalue.2, List.forall_mem_singleton.2 hbody.2⟩)
  | _, _, .letRec _ hfs _ hbody, hw =>
    have hfs := hfs.isWritten hw.tail.left
    have hbody := hbody.isWritten hw.tail.right.tail
    .mk (.letRec (fun f hf => (hfs.2 f hf).1) hbody.1) hfs.1
      (List.forall_mem_append.2 ⟨fun f hf => (hfs.2 f hf).2, List.forall_mem_singleton.2 hbody.2⟩)
  | _, _, .lambda _ hx ha _ hbody, hw =>
    have hx := hw.tail.identifier hx
    have ha := ha.isWritable SpellsTypeAtom.isWritable hw.tail.tail.left
    have hbody := hbody.isWritten hw.tail.tail.right.tail
    .mk (.lambda hx.word hbody.1) ⟨hx, ha⟩ (List.forall_mem_singleton.2 hbody.2)
  | _, _, .dataType _ hd _ hcs _ hbody, hw =>
    have hcs := hcs.isWritten hw.tail.tail.tail.left
    have hbody := hbody.isWritten hw.tail.tail.tail.right.tail
    .mk (.dataType (fun c hc => (hcs.2 c hc).1) hbody.1) ⟨hw.tail.capitalised hd, hcs.1⟩
      (List.forall_mem_append.2 ⟨fun c hc => (hcs.2 c hc).2, List.forall_mem_singleton.2 hbody.2⟩)
  | _, _, .conditional _ hc _ ht _ he, hw =>
    have hc := hc.isWritten hw.tail.left
    have ht := ht.isWritten hw.tail.right.tail.left
    have he := he.isWritten hw.tail.right.tail.right.tail
    .mk (.conditional hc.1 ht.1 he.1) trivial
      (List.forall_mem_cons.2
        ⟨hc.2, List.forall_mem_cons.2 ⟨ht.2, List.forall_mem_singleton.2 he.2⟩⟩)
  | _, _, .closed h, hw => h.isWritten hw

theorem SpellsClosed.isWritten : ∀ {ts : List Token} {n : Node}, SpellsClosed ts n →
    Lexed ts → IsWrittenAs IsExpression n
  | _, _, .conditional _ hc _ ht _ he, hw =>
    have hc := hc.isWritten hw.tail.left
    have ht := ht.isWritten hw.tail.right.tail.left
    have he := he.isWritten hw.tail.right.tail.right.tail
    .mk (.conditional hc.1 ht.1 he.1) trivial
      (List.forall_mem_cons.2
        ⟨hc.2, List.forall_mem_cons.2 ⟨ht.2, List.forall_mem_singleton.2 he.2⟩⟩)
  | _, _, .matchWith _ he _ harms _, hw =>
    have he := he.isWritten hw.tail.left
    have harms := harms.isWritten hw.tail.right.tail.left
    .mk (.matchWith he.1 fun arm harm => (harms.2 arm harm).1) harms.1
      (List.forall_mem_cons.2 ⟨he.2, fun arm harm => (harms.2 arm harm).2⟩)
  | _, _, .relation h, hw => h.isWritten hw

theorem SpellsFunction.isWritten : ∀ {ts : List Token} {f : Node}, SpellsFunction ts f →
    Lexed ts → IsWrittenAs IsFunction f
  | _, _, .mk hf hx ha _ hbody, hw =>
    have hf := hw.identifier hf
    have hx := hx.isWritten hw.tail.left
    have ha := ha.isWritable SpellsType.isWritable hw.tail.right.left
    have hbody := hbody.isWritten hw.tail.right.right.tail
    .mk (.mk hf.word hx.1.word hbody.1) ⟨hf, hx.1, hx.2, ha⟩ (List.forall_mem_singleton.2 hbody.2)

theorem SpellsFunctions.isWritten : ∀ {ts : List Token} {fs : List Node}, SpellsFunctions ts fs →
    Lexed ts → fs ≠ [] ∧ ∀ f ∈ fs, IsWrittenAs IsFunction f
  | _, _, .one h, hw => ⟨List.cons_ne_nil _ _, List.forall_mem_singleton.2 (h.isWritten hw)⟩
  | _, _, .more h _ hmore, hw =>
    ⟨List.cons_ne_nil _ _,
      List.forall_mem_cons.2 ⟨h.isWritten hw.left, (hmore.isWritten hw.right.tail).2⟩⟩

theorem SpellsArms.isWritten : ∀ {ts : List Token} {arms : List Node}, SpellsArms ts arms →
    Lexed ts → arms ≠ [] ∧ ∀ arm ∈ arms, IsWrittenAs IsArm arm
  | _, _, .one hp _ hbody, hw =>
    have hp := hp.isWritten hw.left
    have hbody := hbody.isWritten hw.right.tail
    ⟨List.cons_ne_nil _ _, List.forall_mem_singleton.2 (.mk (.mk hp.1 hbody.1) trivial
      (List.forall_mem_cons.2 ⟨hp.2, List.forall_mem_singleton.2 hbody.2⟩))⟩
  | _, _, .trailing hp _ hbody _, hw =>
    have hp := hp.isWritten hw.left
    have hbody := hbody.isWritten hw.right.tail.left
    ⟨List.cons_ne_nil _ _, List.forall_mem_singleton.2 (.mk (.mk hp.1 hbody.1) trivial
      (List.forall_mem_cons.2 ⟨hp.2, List.forall_mem_singleton.2 hbody.2⟩))⟩
  | _, _, .more hp _ hbody _ hmore, hw =>
    have hp := hp.isWritten hw.left
    have hbody := hbody.isWritten hw.right.tail.left
    ⟨List.cons_ne_nil _ _, List.forall_mem_cons.2 ⟨.mk (.mk hp.1 hbody.1) trivial
      (List.forall_mem_cons.2 ⟨hp.2, List.forall_mem_singleton.2 hbody.2⟩),
        (hmore.isWritten hw.right.tail.right.tail).2⟩⟩

theorem SpellsRelation.isWritten : ∀ {ts : List Token} {n : Node}, SpellsRelation ts n →
    Lexed ts → IsWrittenAs IsExpression n
  | _, _, .sum h, hw => h.isWritten hw
  | _, _, .comparison hl _ hr, hw =>
    have hl := hl.isWritten hw.left
    have hr := hr.isWritten hw.right.tail
    .mk (.binary hl.1 hr.1) trivial
      (List.forall_mem_cons.2 ⟨hl.2, List.forall_mem_singleton.2 hr.2⟩)

theorem SpellsSum.isWritten : ∀ {ts : List Token} {n : Node}, SpellsSum ts n →
    Lexed ts → IsWrittenAs IsExpression n
  | _, _, .product h, hw => h.isWritten hw
  | _, _, .term hl _ hr, hw =>
    have hl := hl.isWritten hw.left
    have hr := hr.isWritten hw.right.tail
    .mk (.binary hl.1 hr.1) trivial
      (List.forall_mem_cons.2 ⟨hl.2, List.forall_mem_singleton.2 hr.2⟩)

theorem SpellsProduct.isWritten : ∀ {ts : List Token} {n : Node}, SpellsProduct ts n →
    Lexed ts → IsWrittenAs IsExpression n
  | _, _, .negation h, hw => h.isWritten hw
  | _, _, .factor hl _ hr, hw =>
    have hl := hl.isWritten hw.left
    have hr := hr.isWritten hw.right.tail
    .mk (.binary hl.1 hr.1) trivial
      (List.forall_mem_cons.2 ⟨hl.2, List.forall_mem_singleton.2 hr.2⟩)

theorem SpellsNegation.isWritten : ∀ {ts : List Token} {n : Node}, SpellsNegation ts n →
    Lexed ts → IsWrittenAs IsExpression n
  | _, _, .application h, hw => h.isWritten hw
  | _, _, .negate _ h, hw =>
    have hn := h.isWritten hw.tail
    .mk (.unary hn.1) trivial (List.forall_mem_singleton.2 hn.2)

theorem SpellsApplication.isWritten : ∀ {ts : List Token} {n : Node}, SpellsApplication ts n →
    Lexed ts → IsWrittenAs IsExpression n
  | _, _, .selection h, hw => h.isWritten hw
  | _, _, .argument hf ha, hw =>
    have hf := hf.isWritten hw.left
    have ha := ha.isWritten hw.right
    .mk (.application hf.1 ha.1) trivial
      (List.forall_mem_cons.2 ⟨hf.2, List.forall_mem_singleton.2 ha.2⟩)

theorem SpellsSelection.isWritten : ∀ {ts : List Token} {n : Node}, SpellsSelection ts n →
    Lexed ts → IsWrittenAs IsExpression n
  | _, _, .atom h, hw => h.isWritten hw
  | _, _, .projection h _ _ hi, hw =>
    have hn := h.isWritten hw.left
    .mk (.projection hn.1) (tupleIndex_lt hi) (List.forall_mem_singleton.2 hn.2)

theorem SpellsAtom.isWritten : ∀ {ts : List Token} {n : Node}, SpellsAtom ts n →
    Lexed ts → IsWrittenAs IsExpression n
  | _, _, .integer _ hv, _ => .mk .literal (integerLiteral_isWritable hv).1 nofun
  | _, _, .boolean _, _ => .mk .literal trivial nofun
  | _, _, .builtin _ _, _ => .mk .builtin trivial nofun
  | _, _, .reference hk hb, hw =>
    have hx := hw.identifier hk
    .mk (.reference hx.word) (.inl ⟨hx, hb⟩) nofun
  | _, _, .constructor hk, hw =>
    have hx := hw.capitalised hk
    .mk (.reference hx.word) (.inr hx) nofun
  | _, _, .unit _ _, _ => .mk .literal trivial nofun
  | _, _, .parentheses _ h _, hw => h.isWritten hw.tail.left _ List.mem_cons_self
  | _, _, .tuple _ h _, hw =>
    have hns := h.isWritten hw.tail.left
    .mk (.tuple (List.cons_ne_nil _ _) fun n hn => (hns n hn).1) (Nat.le_add_left 2 _)
      fun n hn => (hns n hn).2

theorem SpellsExpressions.isWritten : ∀ {ts : List Token} {ns : List Node},
    SpellsExpressions ts ns → Lexed ts → ∀ n ∈ ns, IsWrittenAs IsExpression n
  | _, _, .one h, hw => List.forall_mem_singleton.2 (h.isWritten hw)
  | _, _, .more h _ hmore, hw =>
    List.forall_mem_cons.2 ⟨h.isWritten hw.left, hmore.isWritten hw.right.tail⟩

end

/-! ## 5. Programs -/

/-- What stops the cut of a text is an error of syntax. -/
theorem kind_of_scan_stop (k : Cursor) (cs : List Char) {e : CompileError}
    (h : (scan k cs).stop = some e) : e.cause.kind = .syntaxError := by
  refine scan_induction (motive := fun _ _ r => r.stop = some e → e.cause.kind = .syntaxError) ?nil
    ?spacing ?comment ?foreign ?stray ?token k cs h
  case nil => exact nofun
  case spacing | comment => exact fun _ _ _ _ _ ih => ih
  case foreign | stray => exact fun _ _ _ _ _ _ h => Option.some.inj h ▸ rfl
  case token => exact fun _ _ _ _ _ _ _ _ _ ih => ih

/-- Reading gives a program that can be written down, or ends with an error of syntax. -/
theorem Source.parse_gives (s : Source) : Parser.Gives Node.IsSurface s.parse := by
  rw [Source.parse]
  cases htokens : s.tokens with
  | error e =>
    rw [Source.tokens] at htokens
    split at htokens
    · cases htokens
    · next hstop => exact .error (Except.error.inj htokens ▸ kind_of_scan_stop _ _ hstop)
  | ok tokens =>
    refine (Parser.program_spelled tokens).imp ?_
    rintro _ ⟨e, rfl, he⟩
    obtain ⟨he, hwritable⟩ := he.isWritten (Source.lexed_tokens htokens)
    exact ⟨.mk he, .mk ⟨rfl, trivial⟩ (List.forall_mem_singleton.2 hwritable)⟩

/-- A program that was read can be written down. -/
theorem Source.isSurface_of_parse {s : Source} {tree : Node} (h : s.parse = .ok tree) :
    tree.IsSurface := by
  have hgives := s.parse_gives
  rwa [h] at hgives

/-- **A program that was read is one that the grammar describes.** -/
theorem Source.isProgram_of_parse {s : Source} {tree : Node} (h : s.parse = .ok tree) :
    IsProgram tree := (Source.isSurface_of_parse h).program

/-- **A text that cannot be read has an error of syntax.** -/
theorem Source.kind_of_parse_error {s : Source} {e : CompileError} (h : s.parse = .error e) :
    e.cause.kind = .syntaxError := by
  have hgives := s.parse_gives
  rwa [h] at hgives

end ClosureML
