import ClosureML.Proofs.Syntax.Reading
import ClosureML.Proofs.Types.WrittenTypes

/-!
# Written types are read back

A type expression is written without blanks where words end by themselves. In front of anything that
does not go on with its last word, its text is cut into the words of the type, and where a type is
expected these are read as the type, up to the token behind them, if that is no arrow.

* `Lexes`: in front of what may stand behind, characters are cut into words;
* `Parser.ReadsBack`: tokens are read as the type wherever one is expected.

Main statements: `TypeExpr.text_toTy` (the type that a type expression stands for is written the
same), `TypeExpr.IsWritable.lexes` and `TypeExpr.IsWritable.text_reads`.
-/

namespace ClosureML

/-! ## 1. Characters that are cut into words -/

/-- In front of what `P` admits behind them, the characters are cut into the words, and the cut goes
    on behind them. -/
def Lexes (P : List Char → Prop) (cs : List Char) (ws : List Word) : Prop :=
  ∀ (k : Cursor) (rest : List Char), P rest → ∃ tokens : List Token, tokens.map Token.word = ws ∧
    scan k (cs ++ rest) =
      ⟨tokens ++ (scan (k.run cs) rest).tokens, (scan (k.run cs) rest).stop⟩

namespace Lexes

variable {P Q : List Char → Prop} {cs ds : List Char} {ws vs : List Word} {c : Char}
  {kind : TokenKind}

/-- **One text behind the other** is cut into the words of both. -/
theorem append (h : Lexes P cs ws) (h' : Lexes Q ds vs)
    (hbehind : ∀ rest, Q rest → P (ds ++ rest)) :
    Lexes Q (cs ++ ds) (ws ++ vs) := by
  intro k rest hrest
  obtain ⟨tokens, htokens, hscan⟩ := h k (ds ++ rest) (hbehind rest hrest)
  obtain ⟨more, hmore, hscan'⟩ := h' (k.run cs) rest hrest
  refine ⟨tokens ++ more, by rw [List.map_append, htokens, hmore], ?_⟩
  rw [List.append_assoc, hscan, hscan', Cursor.run_append, List.append_assoc]

theorem nil : Lexes P [] [] := fun _ _ _ => ⟨[], rfl, rfl⟩

/-- A blank belongs to no word. -/
theorem blank (h : Lexes P cs ws) : Lexes P (' ' :: cs) ws := by
  intro k rest hrest
  obtain ⟨tokens, htokens, hscan⟩ := h (k.step ' ') rest hrest
  refine ⟨tokens, htokens, ?_⟩
  rw [List.cons_append, scan_cons, if_pos (by decide), hscan, Cursor.run_cons]

/-- The characters of one token are cut off as a word. -/
theorem token (hspacing : isSpacing c = false) (hascii : isAscii c = true)
    (hcut : ∀ rest, P rest → startsComment c (cs ++ rest) = false ∧
      lexeme? c (cs ++ rest) = some (kind, cs.length)) :
    Lexes P (c :: cs) [⟨kind, String.ofList (c :: cs)⟩] := by
  intro k rest hrest
  obtain ⟨hcomment, hlexeme⟩ := hcut rest hrest
  refine ⟨[Token.over k kind (c :: cs)], rfl, ?_⟩
  rw [List.cons_append, scan_cons, if_neg (by rw [hspacing]; nofun),
    if_neg (by rw [hcomment]; nofun), if_neg (by rw [hascii]; nofun), hlexeme]
  dsimp only
  rw [List.take_left, List.drop_left]
  rfl

/-- **A name** is cut off up to what does not continue it. -/
theorem name {x : String} (hx : IsName kind x) : Lexes EndsName x.toList [.name x] := by
  have hstart := hx.start
  have hword := hx.word
  rw [IsWord] at hword
  cases htext : x.toList with
  | nil => rw [htext] at hstart; cases hstart
  | cons c cs =>
    rw [htext] at hstart hword
    have hc : startsWord c = true := hstart
    have hle := startsWord_le hc
    obtain ⟨hspacing, hascii, hcomment⟩ := plain_of_le (Nat.le_trans (by decide) hle.1) hle.2
    have hdigit : ¬ isDigit c = true := fun h => by
      have := isDigit_le h
      omega
    have hx : Word.name x = ⟨wordKind (c :: cs), String.ofList (c :: cs)⟩ := by
      rw [Word.name, htext, ← htext, String.ofList_toList]
    rw [hx]
    refine token hspacing hascii fun rest hrest => ⟨hcomment _, ?_⟩
    rw [lexeme?, if_neg hdigit, if_pos hc, takeWhile_class (List.forall_mem_cons.1 hword).2 hrest]

/-- A sign of one character that goes on with none is cut off whatever stands behind it. -/
theorem sign (hspacing : isSpacing c = false) (hascii : isAscii c = true)
    (hcomment : ∀ rest, startsComment c rest = false)
    (hlexeme : ∀ rest, lexeme? c rest = some (kind, 0)) (hkind : kind.signText = String.ofList [c])
    (h : Lexes P cs ws) : Lexes P (c :: cs) (.sign kind :: ws) := by
  have hsign : Lexes (fun _ => True) [c] [.sign kind] := by
    rw [Word.sign, hkind]
    exact token hspacing hascii fun rest _ => ⟨hcomment rest, hlexeme rest⟩
  exact hsign.append h fun _ _ => trivial

theorem openParen (h : Lexes P cs ws) : Lexes P ('(' :: cs) (.sign .openParen :: ws) :=
  h.sign rfl rfl (fun _ => rfl) (fun rest => by cases rest <;> rfl) rfl

theorem closeParen : Lexes P [')'] [.sign .closeParen] :=
  nil.sign rfl rfl (fun _ => rfl) (fun rest => by cases rest <;> rfl) rfl

theorem comma (h : Lexes P cs ws) : Lexes P (',' :: cs) (.sign .comma :: ws) :=
  h.sign rfl rfl (fun _ => rfl) (fun rest => by cases rest <;> rfl) rfl

theorem arrow (h : Lexes P cs ws) : Lexes P ('-' :: '>' :: cs) (.sign .arrow :: ws) := by
  have hsign : Lexes (fun _ => True) ['-', '>'] [.sign .arrow] :=
    token rfl rfl fun _ _ => ⟨rfl, rfl⟩
  exact hsign.append h fun _ _ => trivial

end Lexes

/-! ## 2. The words of a type -/

namespace TypeExpr

theorem isFunction_toTy (t : TypeExpr) : t.toTy.isFunction = t.isFunction := by
  cases t <;> rfl

mutual

/-- **The type that a type expression stands for** is written the same, whatever variables are
    called. -/
theorem render_toTy (name : TypeVar → String) : ∀ t : TypeExpr, t.toTy.render name = t.text
  | base _ => rfl
  | named _ => rfl
  | function p r => by
    rw [toTy, Ty.render, text, isFunction_toTy, render_toTy name p, render_toTy name r]
  | tuple ts => by rw [toTy, Ty.render, text, renderAll_toTys name ts]

theorem renderAll_toTys (name : TypeVar → String) : ∀ ts : List TypeExpr,
    Ty.renderAll name (toTys ts) = texts ts
  | [] => rfl
  | t :: ts => by rw [toTys, Ty.renderAll, texts, render_toTy name t, renderAll_toTys name ts]

end

/-- **A type expression and the type that it stands for** have the same text. -/
theorem text_toTy (t : TypeExpr) : t.toTy.text = t.text := render_toTy _ t

/-- The characters of a type expression. -/
abbrev chars (t : TypeExpr) : List Char := t.toTy.chars TypeVar.text

theorem toList_text (t : TypeExpr) : t.text.toList = t.chars := by
  rw [chars, Ty.chars, render_toTy]

/-- What can be read as a type and as a parameter. -/
theorem lexes_atomWords {t : TypeExpr} (h : Lexes EndsName t.chars t.words) :
    Lexes EndsName (t.toTy.parameterChars TypeVar.text) t.atomWords := by
  cases t with
  | function a b =>
    refine (h.append .closeParen fun rest _ => ?_).openParen
    exact fun c hc => Option.some.inj hc ▸ rfl
  | _ => exact h

/-- The elements of a tuple and the parenthesis behind them. -/
theorem lexes_elements : ∀ {t : TypeExpr} {ts : List TypeExpr},
    (∀ u ∈ t :: ts, Lexes EndsName u.chars u.words) →
    Lexes EndsName (Ty.elementsChars TypeVar.text ')' (toTys (t :: ts)))
      (separated (.sign .comma) (wordsEach (t :: ts)) ++ [.sign .closeParen])
  | t, [], h => by
    rw [wordsEach, wordsEach, separated, List.intercalate_singleton]
    exact (h t List.mem_cons_self).append .closeParen fun _ _ c hc => Option.some.inj hc ▸ rfl
  | t, u :: ts, h => by
    obtain ⟨ht, hmore⟩ := List.forall_mem_cons.1 h
    have more := (lexes_elements hmore).blank.comma
    rw [wordsEach, wordsEach, separated, List.intercalate_cons_cons, List.append_assoc]
    rw [wordsEach, separated] at more
    rw [List.append_assoc]
    exact ht.append more fun _ _ c hc => Option.some.inj hc ▸ rfl

/-- **A written type is cut into its words** in front of what does not go on with the last of
    them. -/
theorem IsWritable.lexes {t : TypeExpr} (h : t.IsWritable) : Lexes EndsName t.chars t.words := by
  induction h with
  | @base b => exact .name (isIdentifier_base b)
  | named hd => exact .name hd
  | @function a b _ _ iha ihb =>
    have result := ihb.blank.arrow.blank
    have whole := (lexes_atomWords iha).append result fun _ _ c hc => Option.some.inj hc ▸ rfl
    have e := Ty.chars_function TypeVar.text a.toTy b.toTy []
    rw [List.append_nil, List.append_nil] at e
    rw [chars, toTy, e]
    exact whole
  | @tuple ts hlength _ ih =>
    match ts, hlength with
    | t :: t' :: more, _ =>
      rw [chars, toTy, Ty.chars_tuple]
      exact (lexes_elements ih).openParen

end TypeExpr

/-! ## 3. Where a type is expected -/

namespace Parser

/-- Tokens are read as the type wherever one is expected, exactly they, unless an arrow stands
    behind: as a type, behind the colon of an ascription, and as the type of the parameter of a
    function of a group. -/
structure ReadsBack (t : TypeExpr) (tokens : List Token) : Prop where
  type : ∀ (stop : Position) {more : List Token}, Stops (· = .arrow) more →
    ∃ h, Parser.type stop (tokens ++ more) = .ok ⟨t, more, h⟩
  ascription : ∀ (stop : Position) {colon : Token} {more : List Token}, colon.kind = .colon →
    Stops (· = .arrow) more →
    ∃ h, optionalAscription stop (colon :: (tokens ++ more)) = .ok ⟨some t, more, h⟩
  parameter : ∀ (stop : Position) {l x colon r : Token} {more : List Token},
    l.kind = .openParen → x.kind = .identifier → colon.kind = .colon → r.kind = .closeParen →
    ∃ h, groupParameter stop (l :: x :: colon :: (tokens ++ r :: more)) =
      .ok ⟨(x.text, some t), more, h⟩

/-- Tokens that spell a type are read as it. -/
theorem readsBack_of_spells {t : TypeExpr} {tokens : List Token} (h : SpellsType tokens t) :
    ReadsBack t tokens := by
  have htype : ∀ (stop : Position) {more : List Token}, Stops (· = .arrow) more →
      ∃ h, Parser.type stop (tokens ++ more) = .ok ⟨t, more, h⟩ := by
    intro stop more hmore
    obtain ⟨⟨_, _, hlt⟩, hread, rfl, rfl⟩ :
        Yields (Parsed.Is Eq t more) (Parser.type stop (tokens ++ more)) := reads_type h hmore
    exact ⟨hlt, hread⟩
  refine ⟨htype, fun stop colon more hcolon hmore => ?_,
    fun stop l x colon r more hl hx hcolon hr => ?_⟩
  · obtain ⟨hlt, hread⟩ := htype stop hmore
    rw [optionalAscription, skip?_cons hcolon]
    dsimp only
    rw [hread]
    exact ⟨_, rfl⟩
  · have e : l :: x :: colon :: (tokens ++ r :: more) =
        l :: x :: colon :: (tokens ++ [r]) ++ more := by simp
    obtain ⟨⟨_, _, hlt⟩, hread, rfl, rfl⟩ : Yields (Parsed.Is Eq (x.text, some t) more)
        (groupParameter stop (l :: x :: colon :: (tokens ++ [r]) ++ more)) :=
      reads_parameter (.typed hl hx hcolon h hr)
    rw [e]
    exact ⟨hlt, hread⟩

end Parser

namespace TypeExpr

/-- **Written types are read back.** The type that a type expression stands for has the same text;
    this text alone, and in front of anything that does not continue a name, is cut into tokens
    that are read as the type expression wherever one is expected. -/
theorem IsWritable.text_reads {t : TypeExpr} (h : t.IsWritable) :
    t.toTy.text = t.text ∧
    (∃ tokens, (Source.ofText t.text).tokens = .ok tokens ∧ Parser.ReadsBack t tokens) ∧
    ∀ (k : Cursor) (rest : List Char), EndsName rest → ∃ tokens,
      scan k (t.text.toList ++ rest) = ⟨tokens ++ (scan (k.run t.text.toList) rest).tokens,
        (scan (k.run t.text.toList) rest).stop⟩ ∧ Parser.ReadsBack t tokens := by
  have anywhere : ∀ (k : Cursor) (rest : List Char), EndsName rest → ∃ tokens,
      scan k (t.text.toList ++ rest) = ⟨tokens ++ (scan (k.run t.text.toList) rest).tokens,
        (scan (k.run t.text.toList) rest).stop⟩ ∧ Parser.ReadsBack t tokens := by
    intro k rest hrest
    rw [toList_text]
    obtain ⟨tokens, hwords, hscan⟩ := h.lexes k rest hrest
    exact ⟨tokens, hscan, Parser.readsBack_of_spells (h.words_spell.1.spells tokens hwords)⟩
  refine ⟨t.text_toTy, ?_, anywhere⟩
  -- alone, the text has the end of the source behind it
  obtain ⟨tokens, hscan, hread⟩ := anywhere .start [] nofun
  rw [List.append_nil, scan_nil, List.append_nil] at hscan
  have hsource : (Source.ofText t.text).scan = ⟨tokens, none⟩ := hscan
  exact ⟨tokens, by rw [Source.tokens, hsource], hread⟩

/-- A function that takes a function, in front of a pair that holds a function. -/
def sampleType : TypeExpr :=
  .function (.function (.base .int) (.named "List"))
    (.tuple [.base .unit, .function (.base .int) (.base .bool)])

theorem sampleType_isWritable : sampleType.IsWritable := by
  refine .function (.function .base (.named ⟨by decide, by decide, by decide⟩))
    (.tuple (by decide) fun t ht => ?_)
  rcases List.mem_cons.1 ht with rfl | ht
  · exact .base
  · rw [List.mem_singleton.1 ht]
    exact .function .base .base

/-- Parentheses stand around the function that is a parameter, and around the pair. -/
theorem text_reads_sampleType :
    sampleType.toTy.text = "(int -> List) -> (unit, int -> bool)" ∧
      ∃ tokens, (Source.ofText "(int -> List) -> (unit, int -> bool)").tokens = .ok tokens ∧
        Parser.ReadsBack sampleType tokens := by
  have htext : sampleType.text = "(int -> List) -> (unit, int -> bool)" := by decide +kernel
  have hreads := sampleType_isWritable.text_reads
  rw [htext] at hreads
  exact ⟨hreads.1, hreads.2.1⟩

end TypeExpr

end ClosureML
