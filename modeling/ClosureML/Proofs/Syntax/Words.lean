import ClosureML.Proofs.Syntax.Grammar
import ClosureML.Syntax.Parser

/-!
# Texts that are made of words

A token without its place is a word. Words with a blank between each two make a text, and cutting
the text gives the words back.

* `Word`: a kind of token and its characters; `Word.name`, `Word.keyword`, `Word.number` and
  `Word.sign` are the words there are;
* `digitsText` are the digits of a number, with zeros in front;
* `Word.IsCut`: a blank, or the end of the text, ends the word and nothing before does;
* `Phrase`: characters and the words that they are cut into, which is one word or several without
  blanks between them;
* `phrasesText` and `wordsText`: phrases, or words, with blanks between them.

Main statements: `Source.tokens_phrasesText` and `Source.tokens_wordsText`.
-/

namespace ClosureML

/-! ## 1. Words -/

/-- A token without its place. -/
structure Word where
  kind : TokenKind
  text : String
  deriving DecidableEq

/-- The word that a token is. -/
def Token.word (t : Token) : Word := ⟨t.kind, t.text⟩

/-- The characters of a sign. -/
def TokenKind.signText : TokenKind → String
  | openParen => "("
  | closeParen => ")"
  | openBrace => "\x7b"
  | closeBrace => "\x7d"
  | semicolon => ";"
  | comma => ","
  | colon => ":"
  | arrow => "->"
  | backslash => "\\"
  | dot => "."
  | pipe => "|"
  | equals => "="
  | minus => "-"
  | plus => "+"
  | asterisk => "*"
  | slash => "/"
  | percent => "%"
  | doubleEquals => "=="
  | notEquals => "!="
  | lessThan => "<"
  | lessOrEqual => "<="
  | greaterThan => ">"
  | greaterOrEqual => ">="
  | keyword _ | identifier | constructorIdentifier | booleanLiteral | integerLiteral => ""

/-- The sign of an operator. -/
def BinaryOperator.sign : BinaryOperator → TokenKind
  | multiply => .asterisk
  | divide => .slash
  | modulus => .percent
  | add => .plus
  | subtract => .minus
  | greaterThan => .greaterThan
  | lessThan => .lessThan
  | greaterOrEqual => .greaterOrEqual
  | lessOrEqual => .lessOrEqual
  | equals => .doubleEquals
  | notEquals => .notEquals

namespace Word

/-- A name or a truth value. -/
def name (x : String) : Word := ⟨wordKind x.toList, x⟩

/-- A keyword. -/
def keyword (k : Keyword) : Word := ⟨.keyword k, k.text⟩

/-- A number in decimal digits. -/
def number (n : Nat) : Word := ⟨.integerLiteral, toString n⟩

/-- A sign. -/
def sign (k : TokenKind) : Word := ⟨k, k.signText⟩

end Word

/-! ## 2. Where words end -/

/-- The text is at its end, or a blank is next. -/
def BlankNext (rest : List Char) : Prop := ∀ c ∈ rest.head?, c = ' '

theorem blankNext_nil : BlankNext [] := nofun

theorem blankNext_cons (rest : List Char) : BlankNext (' ' :: rest) := fun _ h =>
  (Option.some.inj h).symm

/-- Characters of a class are cut off up to a blank. -/
theorem BlankNext.takeWhile {p : Char → Bool} {cs rest : List Char} (h : BlankNext rest)
    (hblank : p ' ' = false) (hcs : ∀ c ∈ cs, p c = true) :
    (cs ++ rest).takeWhile p = cs := by
  rw [List.takeWhile_append_of_pos hcs]
  cases rest with
  | nil => exact List.append_nil cs
  | cons c rest =>
    rw [h c rfl, List.takeWhile_cons_of_neg (by rw [hblank]; exact Bool.false_ne_true),
      List.append_nil]

/-- The word is cut off in front of a blank and of the end of a text. -/
def Word.IsCut (w : Word) : Prop :=
  ∃ c cs, w.text.toList = c :: cs ∧ isSpacing c = false ∧ isAscii c = true ∧
    ∀ rest, BlankNext rest → startsComment c (cs ++ rest) = false ∧
      lexeme? c (cs ++ rest) = some (w.kind, cs.length)

theorem startsWord_le {c : Char} (h : startsWord c = true) :
    65 ≤ c.toNat ∧ c.toNat ≤ 122 := by
  simp only [startsWord, isCapital, Bool.or_eq_true, Bool.and_eq_true, decide_eq_true_eq,
    Char.le_def, UInt32.le_iff_toNat_le] at h
  rcases h with (⟨h, h'⟩ | ⟨h, h'⟩) | rfl
  · exact ⟨Nat.le_trans (by decide) h, h'⟩
  · exact ⟨h, Nat.le_trans h' (by decide)⟩
  · decide

theorem isDigit_le {c : Char} (h : isDigit c = true) : 48 ≤ c.toNat ∧ c.toNat ≤ 57 := by
  simp only [isDigit, Bool.and_eq_true, decide_eq_true_eq, Char.le_def,
    UInt32.le_iff_toNat_le] at h
  exact h

/-- A character with a number among those of digits and letters is no spacing, begins no comment
    and is ASCII. -/
theorem plain_of_le {c : Char} (h : 48 ≤ c.toNat) (h' : c.toNat ≤ 122) :
    isSpacing c = false ∧ isAscii c = true ∧ ∀ rest, startsComment c rest = false := by
  have hne : ∀ d : Char, d.toNat < 48 → c ≠ d := by
    rintro d hd rfl
    omega
  refine ⟨?_, decide_eq_true (by omega), fun rest => ?_⟩
  · simp [isSpacing, hne ' ' (by decide), hne '\t' (by decide), hne '\n' (by decide),
      hne '\x0c' (by decide), hne '\r' (by decide)]
  · simp [startsComment, hne '/' (by decide)]

/-- Letters, digits and underscores with a letter or underscore in front are a word. -/
theorem Word.isCut_name {x : String} (hx : IsWord x)
    (hstart : x.toList.head?.any startsWord = true) : (Word.name x).IsCut := by
  match htext : x.toList, hstart with
  | c :: cs, hstart =>
    rw [IsWord, htext, List.forall_mem_cons] at hx
    have hc : startsWord c = true := hstart
    have hle := startsWord_le hc
    obtain ⟨hspacing, hascii, hcomment⟩ := plain_of_le (Nat.le_trans (by decide) hle.1) hle.2
    refine ⟨c, cs, htext, hspacing, hascii, fun rest hrest => ⟨hcomment _, ?_⟩⟩
    have hdigit : ¬ isDigit c = true := fun h => by
      have := isDigit_le h
      omega
    rw [lexeme?, if_neg hdigit, if_pos hc, hrest.takeWhile (by decide) hx.2, name, htext]

theorem Word.isCut_keyword (k : Keyword) : (keyword k).IsCut := by
  have hkind : keyword k = name k.text := by cases k <;> decide
  rw [hkind]
  cases k <;> exact isCut_name (by decide) (by decide)

/-- The digits of a number, with zeros in front. -/
def digitsText (zeros n : Nat) : String := String.ofList (List.replicate zeros '0') ++ toString n

/-- The word that digits are. -/
def digitsWord (zeros n : Nat) : Word := ⟨.integerLiteral, digitsText zeros n⟩

theorem number_eq_digitsWord (n : Nat) : Word.number n = digitsWord 0 n := by
  rw [Word.number, digitsWord, digitsText]
  exact congrArg _ String.empty_append.symm

theorem toList_digitsText (zeros n : Nat) :
    (digitsText zeros n).toList = List.replicate zeros '0' ++ Nat.toDigits 10 n := by
  rw [digitsText, String.toList_append, String.toList_ofList, Nat.toString_eq_ofList_toDigits,
    String.toList_ofList]

theorem exists_digitsText (zeros n : Nat) :
    ∃ c cs, (digitsText zeros n).toList = c :: cs ∧ isDigit c = true ∧
      ∀ d ∈ cs, isDigit d = true := by
  have hdigits : ∀ d ∈ (digitsText zeros n).toList, isDigit d = true := by
    intro d hd
    rw [toList_digitsText] at hd
    rcases List.mem_append.1 hd with hd | hd
    · rw [List.eq_of_mem_replicate hd]
      decide
    · have h := Nat.isDigit_of_mem_toDigits (by decide) (by decide) hd
      rwa [Char.isDigit] at h
  have hne : (digitsText zeros n).toList ≠ [] := by
    rw [toList_digitsText]
    exact List.append_ne_nil_of_right_ne_nil _ Nat.toDigits_ne_nil
  obtain ⟨c, cs, hcs⟩ := List.exists_cons_of_ne_nil hne
  rw [hcs] at hdigits
  exact ⟨c, cs, hcs, List.forall_mem_cons.1 hdigits⟩

/-- Digits are a word, whatever zeros stand in front. -/
theorem isCut_digitsWord (zeros n : Nat) : (digitsWord zeros n).IsCut := by
  obtain ⟨c, cs, htext, hc, hcs⟩ := exists_digitsText zeros n
  have hle := isDigit_le hc
  obtain ⟨hspacing, hascii, hcomment⟩ := plain_of_le hle.1 (Nat.le_trans hle.2 (by decide))
  refine ⟨c, cs, htext, hspacing, hascii, fun rest hrest => ⟨hcomment _, ?_⟩⟩
  rw [lexeme?, if_pos hc, hrest.takeWhile (by decide) hcs, digitsWord]

/-- A number is a word. -/
theorem Word.isCut_number (n : Nat) : (number n).IsCut :=
  number_eq_digitsWord n ▸ isCut_digitsWord 0 n

/-- A sign is a word. -/
theorem Word.isCut_sign {k : TokenKind} (h : k.signText ≠ "") : (sign k).IsCut := by
  have hcut : ∀ {c : Char} {cs : List Char}, k.signText.toList = c :: cs →
      isSpacing c = false → isAscii c = true →
      (startsComment c cs = false ∧ lexeme? c cs = some (k, cs.length)) →
      (∀ more, startsComment c (cs ++ ' ' :: more) = false ∧
        lexeme? c (cs ++ ' ' :: more) = some (k, cs.length)) → (sign k).IsCut := by
    intro c cs htext hspacing hascii hend hblank
    refine ⟨c, cs, htext, hspacing, hascii, fun rest hrest => ?_⟩
    cases rest with
    | nil => rwa [List.append_nil]
    | cons d rest => exact hrest d rfl ▸ hblank rest
  cases k <;> first
    | exact absurd rfl h
    | exact hcut rfl rfl rfl ⟨rfl, rfl⟩ fun _ => ⟨rfl, rfl⟩

/-- Zeros in front of a number do not change it. -/
theorem decimal_digitsText (zeros n : Nat) : Parser.decimal (digitsText zeros n).toList = n := by
  have hzeros : ∀ m : Nat, (List.replicate m '0').foldl
      (fun n c => 10 * n + (c.toNat - '0'.toNat)) 0 = 0 := by
    intro m
    induction m with
    | zero => rfl
    | succ m ih =>
      rw [List.replicate_succ, List.foldl_cons]
      exact ih
  rw [toList_digitsText, Parser.decimal, List.foldl_append, hzeros]
  exact Nat.ofDigitChars_toDigits (by decide) (by decide)

/-- The number that the digits of a number stand for. -/
theorem decimal_number (n : Nat) : Parser.decimal (Word.number n).text.toList = n := by
  rw [number_eq_digitsWord]
  exact decimal_digitsText 0 n

/-! ## 3. Phrases with blanks between them -/

/-- Characters, and the words that they are cut into. -/
structure Phrase where
  text : String
  words : List Word

/-- In front of a blank and of the end of a text, the phrase is cut into its words. -/
def Phrase.IsCut (p : Phrase) : Prop :=
  ∀ k rest, BlankNext rest → ∃ k',
    (scan k (p.text.toList ++ rest)).tokens.map Token.word =
        p.words ++ (scan k' rest).tokens.map Token.word ∧
      (scan k (p.text.toList ++ rest)).stop = (scan k' rest).stop

/-- The word as a phrase. -/
def Word.phrase (w : Word) : Phrase := ⟨w.text, [w]⟩

/-- A word that is cut off is a phrase that is. -/
theorem Word.IsCut.phrase {w : Word} (h : w.IsCut) : w.phrase.IsCut := by
  intro k rest hrest
  obtain ⟨c, cs, htext, hspacing, hascii, hcut⟩ := h
  obtain ⟨hcomment, hlexeme⟩ := hcut rest hrest
  have hscan : scan k (w.text.toList ++ rest) =
      ⟨.over k w.kind (c :: cs) :: (scan ((k.step c).run cs) rest).tokens,
        (scan ((k.step c).run cs) rest).stop⟩ := by
    rw [htext, List.cons_append, scan_cons, if_neg (by rw [hspacing]; nofun),
      if_neg (by rw [hcomment]; nofun), if_neg (by rw [hascii]; nofun), hlexeme]
    dsimp only
    rw [List.take_left, List.drop_left]
  have hword : (Token.over k w.kind (c :: cs)).word = w := by
    rw [Token.over, Token.word, ← htext, String.ofList_toList]
  refine ⟨(k.step c).run cs, ?_, by rw [Word.phrase, hscan]⟩
  rw [Word.phrase, hscan, List.map_cons, hword, List.singleton_append]

/-- Phrases with blanks between them. -/
def phrasesText (ps : List Phrase) : String := " ".intercalate (ps.map Phrase.text)

/-- Behind the first phrase stands nothing, or a blank, which the cut passes over. -/
theorem toList_phrasesText_cons (p : Phrase) (ps : List Phrase) :
    ∃ rest, (phrasesText (p :: ps)).toList = p.text.toList ++ rest ∧ BlankNext rest ∧
      ∀ k, ∃ k', scan k rest = scan k' (phrasesText ps).toList := by
  cases ps with
  | nil =>
    refine ⟨[], ?_, blankNext_nil, fun k => ⟨k, rfl⟩⟩
    simp [phrasesText]
  | cons p' ps =>
    refine ⟨' ' :: (phrasesText (p' :: ps)).toList, ?_, blankNext_cons _, fun k => ⟨k.step ' ', ?_⟩⟩
    · simp [phrasesText, String.toList_intercalate]
    · rw [scan_cons, if_pos (by decide)]

/-- **Cutting a text that is made of phrases gives their words.** -/
theorem scan_phrasesText {ps : List Phrase} (h : ∀ p ∈ ps, p.IsCut) (k : Cursor) :
    (scan k (phrasesText ps).toList).tokens.map Token.word = ps.flatMap Phrase.words ∧
      (scan k (phrasesText ps).toList).stop = none := by
  induction ps generalizing k with
  | nil =>
    have htext : (phrasesText []).toList = [] := rfl
    rw [htext, scan_nil]
    exact ⟨rfl, rfl⟩
  | cons p ps ih =>
    obtain ⟨hp, hps⟩ := List.forall_mem_cons.1 h
    obtain ⟨rest, htext, hrest, hblank⟩ := toList_phrasesText_cons p ps
    obtain ⟨k₁, htokens, hstop⟩ := hp k rest hrest
    obtain ⟨k₂, hscan⟩ := hblank k₁
    obtain ⟨hmore, hnone⟩ := ih hps k₂
    rw [htext, htokens, hstop, hscan]
    exact ⟨by rw [hmore, List.flatMap_cons], hnone⟩

/-- **The tokens of a text that is made of phrases are their words.** -/
theorem Source.tokens_phrasesText {ps : List Phrase} (h : ∀ p ∈ ps, p.IsCut) :
    ∃ tokens, (Source.ofText (phrasesText ps)).tokens = .ok tokens ∧
      tokens.map Token.word = ps.flatMap Phrase.words := by
  obtain ⟨htokens, hstop⟩ := scan_phrasesText h .start
  refine ⟨_, ?_, htokens⟩
  rw [Source.tokens]
  have hscan : (Source.ofText (phrasesText ps)).scan =
      ClosureML.scan .start (phrasesText ps).toList := rfl
  rw [hscan, hstop]

/-- Words with blanks between them. -/
def wordsText (ws : List Word) : String := " ".intercalate (ws.map Word.text)

/-- **The tokens of a text that is made of words are the words.** -/
theorem Source.tokens_wordsText {ws : List Word} (h : ∀ w ∈ ws, w.IsCut) :
    ∃ tokens, (Source.ofText (wordsText ws)).tokens = .ok tokens ∧ tokens.map Token.word = ws := by
  have htext : phrasesText (ws.map Word.phrase) = wordsText ws := by
    rw [phrasesText, List.map_map]
    rfl
  have hwords : (ws.map Word.phrase).flatMap Phrase.words = ws := by
    rw [List.flatMap_map]
    exact List.flatMap_singleton' ws
  have htokens := tokens_phrasesText (List.forall_mem_map.2 fun w hw => (h w hw).phrase)
  rwa [htext, hwords] at htokens

end ClosureML
