import ClosureML.Proofs.Syntax.ParserShape
import ClosureML.Proofs.Syntax.Words

/-!
# The tokens of the language

Which characters make a token, and of what kind, is said without a text around them: keywords and
truth values are listed, names and numbers are made of characters of a class, and signs are listed.
The token that is taken from the front of a text is the longest one there.

* `IsReserved`: the words that are no names;
* `IsLexeme`: characters are a token of a kind;
* `IsLongest`: a token in front of a text, than which no longer one stands there.

Main statements: `IsLexeme.kind_unique`, and `lexeme?_eq_some_iff` and `lexeme?_eq_none_iff` (a
token is taken if and only if it is the longest one there, and none only where none stands).
-/

namespace ClosureML

/-! ## 1. Tokens -/

/-- A word that is no name: a keyword or a truth value. -/
def IsReserved (cs : List Char) : Prop :=
  (∃ k : Keyword, cs = k.text.toList) ∨ cs = "true".toList ∨ cs = "false".toList

/-- The characters are a token of the kind. -/
inductive IsLexeme : TokenKind → List Char → Prop where
  | keyword (k : Keyword) : IsLexeme (.keyword k) k.text.toList
  | truthValue {cs : List Char} (h : cs = "true".toList ∨ cs = "false".toList) :
      IsLexeme .booleanLiteral cs
  | identifier {c : Char} {cs : List Char} (hc : startsWord c = true) (hsmall : isCapital c = false)
      (hcs : ∀ d ∈ cs, isWordCharacter d = true) (hname : ¬ IsReserved (c :: cs)) :
      IsLexeme .identifier (c :: cs)
  | constructorIdentifier {c : Char} {cs : List Char} (hc : isCapital c = true)
      (hcs : ∀ d ∈ cs, isWordCharacter d = true) : IsLexeme .constructorIdentifier (c :: cs)
  | integer {cs : List Char} (hne : cs ≠ []) (hcs : ∀ d ∈ cs, isDigit d = true) :
      IsLexeme .integerLiteral cs
  | sign {kind : TokenKind} (h : kind.signText ≠ "") : IsLexeme kind kind.signText.toList

/-! ## 2. Words, numbers and signs -/

section Forms

variable {c d : Char} {cs : List Char} {kind : TokenKind}

theorem startsWord_of_isCapital (h : isCapital c = true) : startsWord c = true := by
  rw [startsWord, h, Bool.or_true, Bool.true_or]

theorem isWordCharacter_of_startsWord (h : startsWord c = true) : isWordCharacter c = true := by
  rw [isWordCharacter, h, Bool.true_or]

/-- What begins a word is no digit. -/
theorem isDigit_of_startsWord (h : startsWord c = true) : isDigit c = false := by
  cases hdigit : isDigit c with
  | false => rfl
  | true =>
    have := startsWord_le h
    have := isDigit_le hdigit
    omega

theorem Keyword.text_of_ofText? {word : String} {k : Keyword} (h : Keyword.ofText? word = some k) :
    word = k.text := by
  rw [ofText?] at h
  have htext := List.find?_some h
  exact (of_decide_eq_true htext).symm

/-- A reserved word begins with a small letter. -/
theorem IsReserved.not_isCapital (h : IsReserved (c :: cs)) : isCapital c = false := by
  have hhead : (c :: cs).head?.all (fun c => !isCapital c) = true := by
    rcases h with ⟨k, h⟩ | h | h
    · rw [h]
      cases k <;> decide
    · rw [h]
      decide
    · rw [h]
      decide
  simpa using hhead

theorem wordKind_keyword (k : Keyword) : wordKind k.text.toList = .keyword k := by
  rw [wordKind, String.ofList_toList, Keyword.ofText?_text]

/-- What is no keyword is told apart by its characters. -/
theorem wordKind_of_ne (h : ∀ k : Keyword, c :: cs ≠ k.text.toList) :
    wordKind (c :: cs) =
      if c :: cs = "true".toList ∨ c :: cs = "false".toList then .booleanLiteral
      else if isCapital c then .constructorIdentifier else .identifier := by
  have hnone : Keyword.ofText? (String.ofList (c :: cs)) = none := by
    cases hk : Keyword.ofText? (String.ofList (c :: cs)) with
    | none => rfl
    | some k =>
      refine absurd ?_ (h k)
      rw [← Keyword.text_of_ofText? hk, String.toList_ofList]
  have htext : ∀ word : String, String.ofList (c :: cs) = word ↔ c :: cs = word.toList :=
    fun word =>
    ⟨fun h => by rw [← h, String.toList_ofList], fun h => by rw [h, String.ofList_toList]⟩
  simp only [wordKind, hnone, htext, List.head?_cons, Option.any_some]
  congr

/-- **A word is a token** of the kind that is found for it. -/
theorem isLexeme_wordKind (hc : startsWord c = true) (hcs : ∀ d ∈ cs, isWordCharacter d = true) :
    IsLexeme (wordKind (c :: cs)) (c :: cs) := by
  by_cases hkeyword : ∃ k : Keyword, c :: cs = k.text.toList
  · obtain ⟨k, hk⟩ := hkeyword
    rw [hk, wordKind_keyword]
    exact .keyword k
  rw [wordKind_of_ne fun k hk => hkeyword ⟨k, hk⟩]
  split
  · next htruth => exact .truthValue htruth
  · next htruth =>
    split
    · next hcapital => exact .constructorIdentifier hcapital hcs
    · next hcapital =>
      refine .identifier hc (by simpa using hcapital) hcs ?_
      exact fun h => h.elim hkeyword htruth

/-- A token is a word, a number or a sign. -/
inductive LexemeForm (kind : TokenKind) : List Char → Prop where
  | word {c : Char} {cs : List Char} (hc : startsWord c = true)
      (hcs : ∀ d ∈ cs, isWordCharacter d = true) (hkind : kind = wordKind (c :: cs)) :
      LexemeForm kind (c :: cs)
  | number {c : Char} {cs : List Char} (hc : isDigit c = true) (hcs : ∀ d ∈ cs, isDigit d = true)
      (hkind : kind = .integerLiteral) : LexemeForm kind (c :: cs)
  | sign {cs : List Char} (hne : cs ≠ []) (hsign : cs = kind.signText.toList) : LexemeForm kind cs

/-- Letters, that of a reserved word. -/
theorem LexemeForm.reserved {word : String} (hkind : kind = wordKind word.toList)
    (hstart : word.toList.head?.any startsWord = true)
    (hall : word.toList.all isWordCharacter = true) : LexemeForm kind word.toList := by
  cases hword : word.toList with
  | nil =>
    rw [hword] at hstart
    cases hstart
  | cons c cs =>
    rw [hword] at hkind hstart hall
    rw [List.all_cons, Bool.and_eq_true] at hall
    exact .word hstart (List.all_eq_true.1 hall.2) hkind

theorem IsLexeme.form (h : IsLexeme kind cs) : LexemeForm kind cs := by
  cases h with
  | keyword k =>
    refine .reserved (wordKind_keyword k).symm ?_ ?_
    · cases k <;> decide
    · cases k <;> decide
  | truthValue h => rcases h with rfl | rfl <;> exact .reserved (by decide) (by decide) (by decide)
  | @identifier c cs hc hsmall hcs hname =>
    refine .word hc hcs ?_
    rw [wordKind_of_ne fun k hk => hname (.inl ⟨k, hk⟩), if_neg fun h => hname (.inr h), hsmall]
    rfl
  | @constructorIdentifier c cs hc hcs =>
    have hname : ¬ IsReserved (c :: cs) := fun h => by
      rw [h.not_isCapital] at hc
      cases hc
    refine .word (startsWord_of_isCapital hc) hcs ?_
    rw [wordKind_of_ne fun k hk => hname (.inl ⟨k, hk⟩), if_neg fun h => hname (.inr h), if_pos hc]
  | integer hne hcs =>
    cases cs with
    | nil => exact absurd rfl hne
    | cons c cs =>
      obtain ⟨hc, hcs⟩ := List.forall_mem_cons.1 hcs
      exact .number hc hcs rfl
  | sign h => exact .sign (fun hnil => h (String.toList_eq_nil_iff.1 hnil)) rfl

/-- A sign is one character or two. -/
theorem signText_cases (h : c :: cs = kind.signText.toList) :
    (cs = [] ∧ sign? c = some kind) ∨ ∃ d, cs = [d] ∧ pairSign? c d = some kind := by
  cases kind with
  | keyword | identifier | constructorIdentifier | booleanLiteral | integerLiteral => cases h
  | arrow | doubleEquals | notEquals | lessOrEqual | greaterOrEqual =>
    cases h
    exact .inr ⟨_, rfl, rfl⟩
  | _ =>
    cases h
    exact .inl ⟨rfl, rfl⟩

theorem signText_of_sign? (h : sign? c = some kind) : kind.signText.toList = [c] := by
  unfold sign? at h
  split at h <;> cases h <;> rfl

theorem signText_of_pairSign? (h : pairSign? c d = some kind) : kind.signText.toList = [c, d] := by
  unfold pairSign? at h
  split at h <;> cases h <;> rfl

/-- No letter, underscore or digit begins a sign. -/
theorem not_word_of_signText (h : c :: cs = kind.signText.toList) :
    isDigit c = false ∧ startsWord c = false := by
  cases kind <;> cases h <;> exact ⟨rfl, rfl⟩

theorem signText_inj {kind' : TokenKind} (hne : kind.signText.toList ≠ [])
    (h : kind.signText.toList = kind'.signText.toList) : kind = kind' := by
  obtain ⟨c, cs, hcs⟩ := List.exists_cons_of_ne_nil hne
  rcases signText_cases hcs.symm with ⟨rfl, hsign⟩ | ⟨d, rfl, hsign⟩
  · rcases signText_cases (hcs.symm.trans h) with ⟨-, hsign'⟩ | ⟨d, hd, -⟩
    · exact Option.some.inj (hsign.symm.trans hsign')
    · cases hd
  · rcases signText_cases (hcs.symm.trans h) with ⟨hnil, -⟩ | ⟨d', hd, hsign'⟩
    · cases hnil
    · cases hd
      exact Option.some.inj (hsign.symm.trans hsign')

theorem IsLexeme.ne_nil (h : IsLexeme kind cs) : cs ≠ [] := by
  cases h.form with
  | word => exact List.cons_ne_nil _ _
  | number => exact List.cons_ne_nil _ _
  | sign hne => exact hne

/-- A token that begins with a digit is made of digits. -/
theorem IsLexeme.of_digit (h : IsLexeme kind (c :: cs)) (hc : isDigit c = true) :
    kind = .integerLiteral ∧ ∀ d ∈ cs, isDigit d = true := by
  cases h.form with
  | word hstart =>
    rw [isDigit_of_startsWord hstart] at hc
    cases hc
  | number _ hcs hkind => exact ⟨hkind, hcs⟩
  | sign _ hsign =>
    rw [(not_word_of_signText hsign).1] at hc
    cases hc

/-- A token that begins like a word is a word. -/
theorem IsLexeme.of_startsWord (h : IsLexeme kind (c :: cs)) (hc : startsWord c = true) :
    kind = wordKind (c :: cs) ∧ ∀ d ∈ cs, isWordCharacter d = true := by
  cases h.form with
  | word _ hcs hkind => exact ⟨hkind, hcs⟩
  | number hdigit =>
    rw [isDigit_of_startsWord hc] at hdigit
    cases hdigit
  | sign _ hsign =>
    rw [(not_word_of_signText hsign).2] at hc
    cases hc

/-- Any other token is a sign. -/
theorem IsLexeme.of_other (h : IsLexeme kind (c :: cs)) (hdigit : isDigit c = false)
    (hstart : startsWord c = false) : c :: cs = kind.signText.toList := by
  cases h.form with
  | word hc =>
    rw [hc] at hstart
    cases hstart
  | number hc =>
    rw [hc] at hdigit
    cases hdigit
  | sign _ hsign => exact hsign

/-- **Characters are a token of one kind only.** -/
theorem IsLexeme.kind_unique {kind' : TokenKind} (h : IsLexeme kind cs) (h' : IsLexeme kind' cs) :
    kind = kind' := by
  cases h.form with
  | word hc _ hkind => rw [hkind, (h'.of_startsWord hc).1]
  | number hc _ hkind => rw [hkind, (h'.of_digit hc).1]
  | sign hne hsign =>
    obtain ⟨c, cs, rfl⟩ := List.exists_cons_of_ne_nil hne
    obtain ⟨hdigit, hstart⟩ := not_word_of_signText hsign
    have hsign' := h'.of_other hdigit hstart
    exact signText_inj (hsign ▸ hne) (hsign.symm.trans hsign')

/-- Tokens are made of ASCII characters, and hold no spacing. -/
theorem IsLexeme.plain (h : IsLexeme kind cs) :
    ∀ d ∈ cs, isAscii d = true ∧ isSpacing d = false := by
  have hplain : ∀ {d}, isWordCharacter d = true → isAscii d = true ∧ isSpacing d = false := by
    intro d hd
    have hle : 48 ≤ d.toNat ∧ d.toNat ≤ 122 := by
      rcases Bool.or_eq_true_iff.1 hd with hd | hd
      · have := startsWord_le hd
        omega
      · have := isDigit_le hd
        omega
    obtain ⟨hspacing, hascii, -⟩ := plain_of_le hle.1 hle.2
    exact ⟨hascii, hspacing⟩
  cases h.form with
  | word hc hcs =>
    exact List.forall_mem_cons.2 ⟨hplain (isWordCharacter_of_startsWord hc),
      fun d hd => hplain (hcs d hd)⟩
  | number hc hcs =>
    have hdigit : ∀ {d}, isDigit d = true → isWordCharacter d = true := fun {d} hd => by
      rw [isWordCharacter, hd, Bool.or_true]
    exact List.forall_mem_cons.2 ⟨hplain (hdigit hc), fun d hd => hplain (hdigit (hcs d hd))⟩
  | sign _ hsign =>
    have hall : kind.signText.toList.all (fun d => isAscii d && !isSpacing d) = true := by
      cases kind with
      | keyword => rfl
      | _ => decide
    intro d hd
    rw [hsign] at hd
    simpa using List.all_eq_true.1 hall d hd

end Forms

/-! ## 3. The longest token -/

/-- The characters are a token of the kind, and followed by `rest` they are not the front of a
    longer token. -/
structure IsLongest (kind : TokenKind) (cs rest : List Char) : Prop where
  lexeme : IsLexeme kind cs
  longest : ∀ kind' more, more ≠ [] → more <+: rest → ¬ IsLexeme kind' (cs ++ more)

section Longest

variable {c : Char} {cs cs' rest rest' : List Char} {kind kind' : TokenKind}

/-- **In front of a text stands one longest token** at most. -/
theorem IsLongest.unique (h : IsLongest kind cs rest) (h' : IsLongest kind' cs' rest')
    (heq : cs ++ rest = cs' ++ rest') : kind = kind' ∧ cs = cs' ∧ rest = rest' := by
  have hnil : ∀ {kind kind' : TokenKind} {cs more rest : List Char},
    IsLongest kind cs (more ++ rest) → IsLexeme kind' (cs ++ more) → more = [] := by
    intro kind kind' cs more rest h hlexeme
    cases more with
    | nil => rfl
    | cons d more =>
      exact absurd hlexeme (h.longest _ _ (List.cons_ne_nil d more) (List.prefix_append _ _))
  rcases List.append_eq_append_iff.1 heq with ⟨more, rfl, rfl⟩ | ⟨more, rfl, rfl⟩
  · obtain rfl := hnil h h'.lexeme
    rw [List.append_nil] at h' ⊢
    exact ⟨h.lexeme.kind_unique h'.lexeme, rfl, rfl⟩
  · obtain rfl := hnil h' h.lexeme
    rw [List.append_nil] at h ⊢
    exact ⟨h.lexeme.kind_unique h'.lexeme, rfl, rfl⟩

/-- What follows the characters of a class begins with one that is not of the class. -/
theorem exists_of_prefix_dropWhile {p : Char → Bool} {more : List Char} (hne : more ≠ [])
    (h : more <+: rest.dropWhile p) : ∃ d more', more = d :: more' ∧ p d = false := by
  obtain ⟨d, more, rfl⟩ := List.exists_cons_of_ne_nil hne
  obtain ⟨after, hafter⟩ := h
  have hhead := List.head?_dropWhile_not p rest
  rw [← hafter] at hhead
  exact ⟨d, more, rfl, by simpa using hhead⟩

/-- What is taken from the front of a text is the longest token there. -/
theorem exists_of_lexeme? {text : List Char} {n : Nat} (h : lexeme? c text = some (kind, n)) :
    ∃ cs rest, text = cs ++ rest ∧ cs.length = n ∧ IsLongest kind (c :: cs) rest := by
  rw [lexeme?] at h
  split at h
  · next hc =>
    cases h
    refine ⟨_, _, List.takeWhile_append_dropWhile.symm, rfl, ?_, ?_⟩
    · exact .integer (List.cons_ne_nil _ _)
        (List.forall_mem_cons.2 ⟨hc, List.all_eq_true.1 List.all_takeWhile⟩)
    · intro kind' more hne hmore hlexeme
      obtain ⟨d, more, rfl, hd⟩ := exists_of_prefix_dropWhile hne hmore
      have hdigit := (hlexeme.of_digit hc).2 d (by simp)
      rw [hd] at hdigit
      cases hdigit
  · next hdigit =>
    split at h
    · next hc =>
      cases h
      refine ⟨_, _, List.takeWhile_append_dropWhile.symm, rfl, ?_, ?_⟩
      · exact isLexeme_wordKind hc (List.all_eq_true.1 List.all_takeWhile)
      · intro kind' more hne hmore hlexeme
        obtain ⟨d, more, rfl, hd⟩ := exists_of_prefix_dropWhile hne hmore
        have hword := (hlexeme.of_startsWord hc).2 d (by simp)
        rw [hd] at hword
        cases hword
    · next hstart =>
      have hform : ∀ {kind' ds}, IsLexeme kind' (c :: ds) → c :: ds = kind'.signText.toList :=
        fun h => h.of_other (by simpa using hdigit) (by simpa using hstart)
      split at h
      · next hpair =>
        cases h
        obtain ⟨d, hd, hsign⟩ := Option.bind_eq_some_iff.1 hpair
        obtain ⟨rest, rfl⟩ := List.head?_eq_some_iff.1 hd
        have htext := signText_of_pairSign? hsign
        refine ⟨[d], rest, rfl, rfl, htext ▸ .sign fun hnil => ?_, ?_⟩
        · rw [hnil] at htext
          cases htext
        · intro kind' more hne _ hlexeme
          rcases signText_cases (hform hlexeme) with ⟨hnil, -⟩ | ⟨d', hd', -⟩
          · cases hnil
          · exact hne (List.cons.inj hd').2
      · next hpair =>
        obtain ⟨kind', hsign, heq⟩ := Option.map_eq_some_iff.1 h
        cases heq
        have htext := signText_of_sign? hsign
        refine ⟨[], text, rfl, rfl, htext ▸ .sign fun hnil => ?_, ?_⟩
        · rw [hnil] at htext
          cases htext
        · intro kind' more hne hmore hlexeme
          rcases signText_cases (hform hlexeme) with ⟨hnil, -⟩ | ⟨d, rfl, htwo⟩
          · exact hne hnil
          · obtain ⟨after, rfl⟩ := hmore
            have hnone : pairSign? c d = none := hpair
            rw [hnone] at htwo
            cases htwo

/-- **No token is taken** if and only if none stands in front of the text. -/
theorem lexeme?_eq_none_iff :
    lexeme? c rest = none ↔ ∀ kind cs, cs <+: rest → ¬ IsLexeme kind (c :: cs) := by
  constructor
  · intro h kind cs hcs hlexeme
    rw [lexeme?] at h
    split at h
    · cases h
    · next hdigit =>
      split at h
      · cases h
      · next hstart =>
        have hsign := hlexeme.of_other (by simpa using hdigit) (by simpa using hstart)
        split at h
        · cases h
        · next hpair =>
          rcases signText_cases hsign with ⟨-, hone⟩ | ⟨d, rfl, htwo⟩
          · rw [hone] at h
            cases h
          · obtain ⟨after, rfl⟩ := hcs
            have hnone : pairSign? c d = none := hpair
            rw [hnone] at htwo
            cases htwo
  · intro h
    cases hlexeme : lexeme? c rest with
    | none => rfl
    | some found =>
      obtain ⟨cs, rest, rfl, -, hlongest⟩ := exists_of_lexeme? hlexeme
      exact absurd hlongest.lexeme (h _ cs (List.prefix_append _ _))

/-- **A token is taken** if and only if it is the longest one in front of the text. -/
theorem lexeme?_eq_some_iff :
    lexeme? c (cs ++ rest) = some (kind, cs.length) ↔ IsLongest kind (c :: cs) rest := by
  constructor
  · intro h
    obtain ⟨cs', rest', htext, hlength, hlongest⟩ := exists_of_lexeme? h
    obtain ⟨rfl, rfl⟩ := List.append_inj htext hlength.symm
    exact hlongest
  · intro h
    match hlexeme : lexeme? c (cs ++ rest) with
    | none =>
      exact absurd h.lexeme (lexeme?_eq_none_iff.1 hlexeme _ cs (List.prefix_append _ _))
    | some (kind', n) =>
      obtain ⟨cs', rest', htext, rfl, hlongest⟩ := exists_of_lexeme? hlexeme
      obtain ⟨rfl, hcs, -⟩ := h.unique hlongest (congrArg (c :: ·) htext)
      rw [(List.cons.inj hcs).2]

end Longest

end ClosureML
