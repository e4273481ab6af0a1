import ClosureML.Proofs.Syntax.Spelling
import ClosureML.Proofs.Syntax.Written
import Mathlib.Data.List.Forall2

/-!
# What words spell

The words of a type, a pattern and a constructor spell what they are the words of.

* `WordsSpell`: the words can be cut out of a text, and tokens that are these words have a property;
* `WordsSpell.separated`: phrases with a word between each two spell a list.

Main statements: `TypeExpr.IsWritable.words_spell`, `IsPattern.words_spell` and
`IsConstructor.words_spell`.
-/

namespace ClosureML

/-! ## 1. Words that spell something -/

/-- The words can be cut out of a text, and tokens that are these words have the property. -/
structure WordsSpell (S : List Token → Prop) (ws : List Word) : Prop where
  cut : ∀ w ∈ ws, w.IsCut
  spells : ∀ ts : List Token, ts.map Token.word = ws → S ts

namespace WordsSpell

variable {S S' : List Token → Prop} {ws ws' : List Word}

theorem imp (h : WordsSpell S ws) (hS : ∀ ts, S ts → S' ts) : WordsSpell S' ws :=
  ⟨h.cut, fun ts hts => hS ts (h.spells ts hts)⟩

theorem nil : WordsSpell (· = []) [] := ⟨nofun, fun _ => List.map_eq_nil_iff.1⟩

theorem append (h : WordsSpell S ws) (h' : WordsSpell S' ws') :
    WordsSpell (fun ts => ∃ us vs, ts = us ++ vs ∧ S us ∧ S' vs) (ws ++ ws') := by
  refine ⟨List.forall_mem_append.2 ⟨h.cut, h'.cut⟩, fun ts hts => ?_⟩
  obtain ⟨us, vs, rfl, hus, hvs⟩ := List.map_eq_append_iff.1 hts
  exact ⟨us, vs, rfl, h.spells us hus, h'.spells vs hvs⟩

theorem cons {p : Token → Prop} {w : Word} (hcut : w.IsCut) (hp : ∀ t : Token, t.word = w → p t)
    (h : WordsSpell S ws) :
    WordsSpell (fun ts => ∃ t us, ts = t :: us ∧ p t ∧ S us) (w :: ws) := by
  refine ⟨List.forall_mem_cons.2 ⟨hcut, h.cut⟩, fun ts hts => ?_⟩
  obtain ⟨t, us, rfl, ht, hus⟩ := List.map_eq_cons_iff.1 hts
  exact ⟨t, us, rfl, hp t ht, h.spells us hus⟩

theorem keyword (k : Keyword) (h : WordsSpell S ws) :
    WordsSpell (fun ts => ∃ t us, ts = t :: us ∧ t.kind = .keyword k ∧ S us)
      (.keyword k :: ws) :=
  .cons (Word.isCut_keyword k) (fun _ ht => congrArg Word.kind ht) h

theorem sign {k : TokenKind} (hk : k.signText ≠ "") (h : WordsSpell S ws) :
    WordsSpell (fun ts => ∃ t us, ts = t :: us ∧ t.kind = k ∧ S us) (.sign k :: ws) :=
  .cons (Word.isCut_sign hk) (fun _ ht => congrArg Word.kind ht) h

theorem number (n : Nat) (h : WordsSpell S ws) :
    WordsSpell (fun ts => ∃ t us, ts = t :: us ∧
        (t.kind = .integerLiteral ∧ Parser.decimal t.text.toList = n) ∧ S us)
      (.number n :: ws) := by
  refine .cons (Word.isCut_number n) (fun t ht => ?_) h
  have htext : t.text = (Word.number n).text := congrArg Word.text ht
  exact ⟨congrArg Word.kind ht, by rw [htext, decimal_number]⟩

theorem name {kind : TokenKind} {x : String} (hx : IsName kind x) (h : WordsSpell S ws) :
    WordsSpell (fun ts => ∃ t us, ts = t :: us ∧ (t.kind = kind ∧ t.text = x) ∧ S us)
      (.name x :: ws) :=
  .cons (Word.isCut_name hx.word hx.start)
    (fun _ ht => ⟨(congrArg Word.kind ht).trans hx.kind_eq, congrArg Word.text ht⟩) h

/-- A phrase in parentheses. -/
theorem parenthesised (h : WordsSpell S ws) :
    WordsSpell (fun ts => ∃ l us r, ts = l :: (us ++ [r]) ∧ l.kind = .openParen ∧ S us ∧
      r.kind = .closeParen) (parenthesised ws) := by
  refine (sign (k := .openParen) (by decide) (h.append (sign (k := .closeParen) (by decide)
    nil))).imp ?_
  rintro _ ⟨l, _, rfl, hl, us, _, rfl, hus, r, _, rfl, hr, rfl⟩
  exact ⟨l, us, r, rfl, hl, hus, hr⟩

/-- Phrases with a word between each two spell a list. -/
theorem separated {α : Type} {one : List Token → α → Prop} {many : List Token → List α → Prop}
    {w : Word} (hw : w.IsCut) (hone : ∀ ts a, one ts a → many ts [a])
    (hmore : ∀ ts us t a as, one ts a → t.kind = w.kind → many us as →
      many (ts ++ t :: us) (a :: as))
    {wss : List (List Word)} {as : List α} (hne : as ≠ [])
    (h : List.Forall₂ (fun ws a => WordsSpell (one · a) ws) wss as) :
    WordsSpell (many · as) (separated w wss) := by
  induction h with
  | nil => exact absurd rfl hne
  | @cons ws a wss as h hrest ih =>
    cases hrest with
    | nil =>
      rw [ClosureML.separated, List.intercalate_singleton]
      exact h.imp fun ts => hone ts a
    | @cons ws' a' wss as h' hrest =>
      rw [ClosureML.separated, List.intercalate_cons_cons, List.append_assoc]
      have hsign := cons (p := fun t => t.kind = w.kind) hw (fun _ ht => congrArg Word.kind ht)
        (ih (List.cons_ne_nil _ _))
      refine (h.append hsign).imp ?_
      rintro _ ⟨ts, _, rfl, hts, t, us, rfl, ht, hus⟩
      exact hmore ts us t a _ hts ht hus

end WordsSpell

/-! ## 2. Types -/

theorem isIdentifier_base (b : BaseType) : IsIdentifier b.text := by
  cases b <;> exact ⟨by decide, by decide, by decide⟩

theorem TypeExpr.wordsEach_spell {S : List Token → TypeExpr → Prop} :
    ∀ {ts : List TypeExpr}, (∀ t ∈ ts, WordsSpell (S · t) t.words) →
      List.Forall₂ (fun ws t => WordsSpell (S · t) ws) (wordsEach ts) ts
  | [], _ => .nil
  | _ :: _, h =>
    have ⟨ht, hts⟩ := List.forall_mem_cons.1 h
    .cons ht (wordsEach_spell hts)

/-- Types with commas between them. -/
theorem TypeExpr.separated_spell {ts : List TypeExpr} (hne : ts ≠ [])
    (h : ∀ t ∈ ts, WordsSpell (SpellsType · t) t.words) :
    WordsSpell (SpellsTypes · ts) (separated (.sign .comma) (wordsEach ts)) :=
  .separated (Word.isCut_sign (by decide)) (fun _ _ => .one)
    (fun _ _ _ _ _ h hcomma hmore => .more h hcomma hmore) hne (wordsEach_spell h)

/-- **The words of a type spell the type**, and with parentheses where an atom belongs. -/
theorem TypeExpr.IsWritable.words_spell {t : TypeExpr} (h : t.IsWritable) :
    WordsSpell (SpellsType · t) t.words ∧ WordsSpell (SpellsTypeAtom · t) t.atomWords := by
  have hatom : ∀ {t : TypeExpr}, WordsSpell (SpellsTypeAtom · t) t.words →
      t.atomWords = t.words →
      WordsSpell (SpellsType · t) t.words ∧ WordsSpell (SpellsTypeAtom · t) t.atomWords :=
    fun h e => ⟨h.imp fun _ => .atom, e ▸ h⟩
  induction h with
  | @base b =>
    refine hatom ?_ rfl
    rw [words]
    refine (WordsSpell.name (isIdentifier_base b) .nil).imp ?_
    rintro _ ⟨t, _, rfl, ⟨hk, hx⟩, rfl⟩
    exact .base hk (hx ▸ BaseType.ofText?_text b)
  | @named d hd =>
    refine hatom ?_ rfl
    rw [words]
    refine (WordsSpell.name hd .nil).imp ?_
    rintro _ ⟨t, _, rfl, ⟨hk, rfl⟩, rfl⟩
    exact .named hk
  | @function a b _ _ iha ihb =>
    have h : WordsSpell (SpellsType · (.function a b)) (TypeExpr.function a b).words := by
      rw [words]
      refine (iha.2.append (.sign (k := .arrow) (by decide) ihb.1)).imp ?_
      rintro _ ⟨us, _, rfl, hus, arrow, vs, rfl, harrow, hvs⟩
      exact .function hus harrow hvs
    refine ⟨h, h.parenthesised.imp ?_⟩
    rintro _ ⟨l, us, r, rfl, hl, hus, hr⟩
    exact .parentheses hl (.one hus) hr
  | @tuple ts hlength _ ih =>
    refine hatom ?_ rfl
    rw [words]
    match ts, hlength with
    | t :: t' :: more, _ =>
      refine (separated_spell (List.cons_ne_nil _ _) fun t ht => (ih t ht).1).parenthesised.imp ?_
      rintro _ ⟨l, us, r, rfl, hl, hus, hr⟩
      exact .tuple hl hus hr

theorem ascriptionWords_spell {S : List Token → TypeExpr → Prop} {f : TypeExpr → List Word}
    {a : Option TypeExpr} (h : ∀ t ∈ a, WordsSpell (S · t) (f t)) :
    WordsSpell (SpellsAscription S · a) (ascriptionWords f a) := by
  cases a with
  | none => exact WordsSpell.nil.imp fun _ h => h ▸ .absent
  | some t =>
    refine (WordsSpell.sign (k := .colon) (by decide) (h t rfl)).imp ?_
    rintro _ ⟨colon, us, rfl, hcolon, hus⟩
    exact .present hcolon hus

theorem parameterWords_spell {x : String} {a : Option TypeExpr} (hx : IsIdentifier x)
    (ha : ∀ t ∈ a, t.IsWritable) :
    WordsSpell (SpellsParameter · (x, a)) (parameterWords x a) := by
  cases a with
  | none =>
    refine (WordsSpell.name hx .nil).imp ?_
    rintro _ ⟨t, _, rfl, ⟨hk, rfl⟩, rfl⟩
    exact .name hk
  | some t =>
    refine (WordsSpell.name hx (.sign (k := .colon) (by decide)
      (ha t rfl).words_spell.1)).parenthesised.imp ?_
    rintro _ ⟨l, _, r, rfl, hl, ⟨x, _, rfl, ⟨hk, rfl⟩, colon, us, rfl, hcolon, hus⟩, hr⟩
    exact .typed hl hk hcolon hus hr

/-! ## 3. Constants and patterns -/

theorem integerLiteral_nonneg {t : Token} {n : Nat} (ht : Parser.decimal t.text.toList = n)
    (h : (Literal.integer n).IsWritable false) :
    Parser.integerLiteral t false = .ok (.integer n) := by
  have hlt : n < UInt64.size / 2 := by
    have hlt : (n : Int) < 2 ^ 63 := h.2
    simp only [UInt64.size]
    omega
  rw [Parser.integerLiteral, if_neg Bool.false_ne_true, ht, if_pos hlt]

theorem integerLiteral_negative {t : Token} {n : Nat} (ht : Parser.decimal t.text.toList = n + 1)
    (h : (Literal.integer (.negSucc n)).IsWritable true) :
    Parser.integerLiteral t true = .ok (.integer (.negSucc n)) := by
  have hle : n + 1 ≤ UInt64.size / 2 := by
    have hle : (-2 ^ 63 : Int) ≤ .negSucc n := h.1
    simp only [UInt64.size]
    omega
  rw [Parser.integerLiteral, if_pos rfl, ht, if_pos hle]
  rfl

/-- The truth values are words of their own kind. -/
theorem booleanName_spell {S : List Token → Prop} {b : Bool} {ws : List Word}
    (h : WordsSpell S ws) :
    WordsSpell (fun ts => ∃ t us, ts = t :: us ∧
        (t.kind = .booleanLiteral ∧ decide (t.text = "true") = b) ∧ S us)
      ((Literal.boolean b).words ++ ws) := by
  cases b with
  | true =>
    refine .cons (Word.isCut_name (by decide) (by decide)) (fun t ht => ?_) h
    exact ⟨congrArg Word.kind ht, decide_eq_true (congrArg Word.text ht)⟩
  | false =>
    refine .cons (Word.isCut_name (by decide) (by decide)) (fun t ht => ?_) h
    have htext : t.text = "false" := congrArg Word.text ht
    exact ⟨congrArg Word.kind ht, by rw [htext]; decide⟩

theorem literal_spell {m : Mark} {v : Literal} (h : v.IsWritable false) :
    WordsSpell (SpellsAtom · (Node.literal m v).bare) v.words := by
  match v, h with
  | .integer (.ofNat n), h =>
    refine (WordsSpell.number n .nil).imp ?_
    rintro _ ⟨t, _, rfl, ⟨hk, ht⟩, rfl⟩
    exact .integer hk (integerLiteral_nonneg ht h)
  | .integer (.negSucc n), h =>
    have hle : (0 : Int) ≤ .negSucc n := h.1
    omega
  | .boolean b, _ =>
    refine List.append_nil (Literal.boolean b).words ▸ (booleanName_spell .nil).imp ?_
    rintro _ ⟨t, _, rfl, ⟨hk, rfl⟩, rfl⟩
    exact .boolean hk
  | .unit, _ =>
    refine (WordsSpell.sign (k := .openParen) (by decide)
      (.sign (k := .closeParen) (by decide) .nil)).imp ?_
    rintro _ ⟨l, _, rfl, hl, r, _, rfl, hr, rfl⟩
    exact .unit hl hr

theorem patternLiteral_spell {m : Mark} {v : Literal} (h : v.IsWritable true) :
    WordsSpell (SpellsPattern · (Node.patternLiteral m v).bare) v.words := by
  match v, h with
  | .integer (.ofNat n), h =>
    refine (WordsSpell.number n .nil).imp ?_
    rintro _ ⟨t, _, rfl, ⟨hk, ht⟩, rfl⟩
    exact .integer hk (integerLiteral_nonneg ht ⟨Int.natCast_nonneg n, h.2⟩)
  | .integer (.negSucc n), h =>
    refine (WordsSpell.sign (k := .minus) (by decide) (.number (n + 1) .nil)).imp ?_
    rintro _ ⟨minus, _, rfl, hminus, t, _, rfl, ⟨hk, ht⟩, rfl⟩
    exact .negative hminus hk (integerLiteral_negative ht h)
  | .boolean b, _ =>
    refine List.append_nil (Literal.boolean b).words ▸ (booleanName_spell .nil).imp ?_
    rintro _ ⟨t, _, rfl, ⟨hk, rfl⟩, rfl⟩
    exact .boolean hk
  | .unit, _ =>
    refine (WordsSpell.sign (k := .openParen) (by decide)
      (.sign (k := .closeParen) (by decide) .nil)).imp ?_
    rintro _ ⟨l, _, rfl, hl, r, _, rfl, hr, rfl⟩
    exact .unit hl hr

variable {fenced : Bool}

/-- What is as strong as a phrase can be is never put in parentheses. -/
theorem Node.enclose_of_le {level : Nat} {n : Node} {ws : List Word}
    (h : level ≤ n.strength fenced) : n.enclose fenced level ws = ws := if_pos h

theorem Node.wordsEach_spell {S : List Token → Node → Prop} {level : Nat} :
    ∀ {ns : List Node},
      (∀ n ∈ ns, WordsSpell (S · n.bare) (n.enclose fenced level (n.words fenced))) →
        List.Forall₂ (fun ws n => WordsSpell (S · n) ws) (wordsEach fenced level ns) (bareAll ns)
  | [], _ => .nil
  | _ :: _, h =>
    have ⟨hn, hns⟩ := List.forall_mem_cons.1 h
    .cons hn (wordsEach_spell hns)

theorem Node.bareAll_ne_nil {ns : List Node} (h : ns ≠ []) : bareAll ns ≠ [] := by
  cases ns with
  | nil => exact absurd rfl h
  | cons n ns => exact List.cons_ne_nil _ _

/-- Patterns with commas between them. -/
theorem patterns_spell {ps : List Node} (hne : ps ≠ [])
    (h : ∀ p ∈ ps, WordsSpell (SpellsPattern · p.bare) (p.enclose fenced 1 (p.words fenced))) :
    WordsSpell (SpellsPatterns · (Node.bareAll ps))
      (separated (.sign .comma) (Node.wordsEach fenced 1 ps)) :=
  .separated (Word.isCut_sign (by decide)) (fun _ _ => .one)
    (fun _ _ _ _ _ h hcomma hmore => .more h hcomma hmore) (Node.bareAll_ne_nil hne)
    (Node.wordsEach_spell h)

/-- **The words of a pattern spell the pattern.** -/
theorem IsPattern.words_spell {p : Node} (h : IsPattern p)
    (hp : p.Everywhere Node.IsWritable) :
    WordsSpell (SpellsPattern · p.bare) (p.words fenced) := by
  have henclose : ∀ {p : Node}, IsPattern p →
      p.enclose fenced 1 (p.words fenced) = p.words fenced := fun h => by
    cases h <;> exact Node.enclose_of_le (Nat.le_add_left 1 7)
  induction h with
  | @binder m x _ =>
    rw [Node.words]
    refine (WordsSpell.name hp.here.holds .nil).imp ?_
    rintro _ ⟨t, _, rfl, ⟨hk, rfl⟩, rfl⟩
    exact .binder hk
  | @literal m v =>
    rw [Node.words]
    exact patternLiteral_spell hp.here.holds
  | @tuple m ps hne hps ih =>
    rw [Node.words]
    have hlength : 2 ≤ ps.length := hp.here.holds
    have hall : WordsSpell (SpellsPatterns · (Node.bareAll ps))
        (separated (.sign .comma) (Node.wordsEach fenced 1 ps)) :=
      patterns_spell hne fun p hmem => by
        rw [henclose (hps p hmem)]
        exact ih p hmem (hp.child hmem)
    match ps, hlength with
    | p :: p' :: more, _ =>
      refine hall.parenthesised.imp ?_
      rintro _ ⟨l, us, r, rfl, hl, hus, hr⟩
      exact .tuple hl hus hr
  | @constructor m c ps _ hps ih =>
    rw [Node.words]
    cases ps with
    | nil =>
      refine (WordsSpell.name hp.here.holds .nil).imp ?_
      rintro _ ⟨t, _, rfl, ⟨hk, rfl⟩, rfl⟩
      exact .constant hk
    | cons p more =>
      have hall : WordsSpell (SpellsPatterns · (Node.bareAll (p :: more)))
          (separated (.sign .comma) (Node.wordsEach fenced 1 (p :: more))) :=
        patterns_spell (List.cons_ne_nil p more) fun p hmem => by
          rw [henclose (hps p hmem)]
          exact ih p hmem (hp.child hmem)
      refine (WordsSpell.name hp.here.holds hall.parenthesised).imp ?_
      rintro _ ⟨t, _, rfl, ⟨hk, rfl⟩, l, us, r, rfl, hl, hus, hr⟩
      exact .constructor hk hl hus hr

/-! ## 4. Constructors -/

theorem IsConstructor.words_spell {c : Node} (h : IsConstructor c)
    (hc : c.Everywhere Node.IsWritable) :
    WordsSpell (SpellsConstructor · c.bare) (c.enclose fenced 1 (c.words fenced)) := by
  cases h with
  | @mk m name ts _ =>
    obtain ⟨hname, hts⟩ := hc.here.holds
    rw [Node.enclose_of_le (Nat.le_add_left 1 7), Node.words]
    cases ts with
    | nil =>
      refine (WordsSpell.name hname .nil).imp ?_
      rintro _ ⟨t, _, rfl, ⟨hk, rfl⟩, rfl⟩
      exact .constant hk
    | cons t more =>
      have hall := TypeExpr.separated_spell (List.cons_ne_nil t more) fun t ht =>
        (hts t ht).words_spell.1
      refine (WordsSpell.name hname hall.parenthesised).imp ?_
      rintro _ ⟨t, _, rfl, ⟨hk, rfl⟩, l, us, r, rfl, hl, hus, hr⟩
      exact .parameters hk hl hus hr

end ClosureML
