import ClosureML.Diagnostic.Report

/-!
# Reading tokens

A text is cut into tokens from the left; each token is as long as it can be. Blanks (space, tab,
line feed, form feed, carriage return) and comments, which run from `//` to the end of the line,
stand between tokens. Outside comments a text holds ASCII characters only.

* `lexeme?` says which token begins with a character and how far it reaches;
* `scan` cuts a text, up to the first character that begins no token;
* `Source.tokens` are the tokens of a source, or the error.

Main statement: `scan_nil` and `scan_cons`, the equations of the cut.
-/

namespace ClosureML

/-! ## 1. Classes of characters -/

/-- The characters that may stand between tokens. -/
def isSpacing (c : Char) : Bool :=
  c = ' ' || c = '\t' || c = '\n' || c = '\x0c' || c = '\r'

/-- The capital letters. -/
def isCapital (c : Char) : Bool := 'A' ≤ c && c ≤ 'Z'

/-- The digits. -/
def isDigit (c : Char) : Bool := '0' ≤ c && c ≤ '9'

/-- The characters that a word begins with: letters and the underscore. -/
def startsWord (c : Char) : Bool := ('a' ≤ c && c ≤ 'z') || isCapital c || c = '_'

/-- The characters of a word: letters, digits and the underscore. -/
def isWordCharacter (c : Char) : Bool := startsWord c || isDigit c

/-- The ASCII characters. -/
def isAscii (c : Char) : Bool := c.toNat < 128

/-! ## 2. One token -/

/-- The kind of a word: a keyword, a truth value, or an identifier. -/
def wordKind (word : List Char) : TokenKind :=
  let text := String.ofList word
  match Keyword.ofText? text with
  | some k => .keyword k
  | none =>
    if text = "true" ∨ text = "false" then .booleanLiteral
    else if word.head?.any isCapital then .constructorIdentifier
    else .identifier

/-- The sign that two characters make together. -/
def pairSign? : Char → Char → Option TokenKind
  | '-', '>' => some .arrow
  | '=', '=' => some .doubleEquals
  | '!', '=' => some .notEquals
  | '<', '=' => some .lessOrEqual
  | '>', '=' => some .greaterOrEqual
  | _, _ => none

/-- The sign that a character makes alone. -/
def sign? : Char → Option TokenKind
  | '(' => some .openParen
  | ')' => some .closeParen
  | '{' => some .openBrace
  | '}' => some .closeBrace
  | ';' => some .semicolon
  | ',' => some .comma
  | ':' => some .colon
  | '\\' => some .backslash
  | '.' => some .dot
  | '|' => some .pipe
  | '=' => some .equals
  | '-' => some .minus
  | '+' => some .plus
  | '*' => some .asterisk
  | '/' => some .slash
  | '%' => some .percent
  | '<' => some .lessThan
  | '>' => some .greaterThan
  | _ => none

/-- The token that begins with `c`, which `rest` follows: its kind, and how many characters behind
    `c` belong to it. -/
def lexeme? (c : Char) (rest : List Char) : Option (TokenKind × Nat) :=
  if isDigit c then some (.integerLiteral, (rest.takeWhile isDigit).length)
  else if startsWord c then
    let more := rest.takeWhile isWordCharacter
    some (wordKind (c :: more), more.length)
  else
    match rest.head?.bind (pairSign? c) with
    | some kind => some (kind, 1)
    | none => (sign? c).map fun kind => (kind, 0)

/-- Does a comment begin with `c`, which `rest` follows? -/
def startsComment (c : Char) (rest : List Char) : Bool := c = '/' && rest.head? = some '/'

/-! ## 3. Cutting a text -/

/-- A text that was cut into tokens: the tokens, and what stopped the cut before the end. -/
structure Scan where
  tokens : List Token
  stop : Option CompileError
  deriving DecidableEq, Repr

/-- The token that reaches from `k` over `cs`. -/
def Token.over (k : Cursor) (kind : TokenKind) (cs : List Char) : Token :=
  ⟨kind, String.ofList cs, k.offset, k.offset + utf8Length cs, k.position⟩

/-- The tokens of a text that stands at the cursor. -/
def scan (k : Cursor) : List Char → Scan
  | [] => ⟨[], none⟩
  | c :: rest =>
    if isSpacing c then scan (k.step c) rest
    else if startsComment c rest then
      let comment := rest.takeWhile (· ≠ '\n')
      scan ((k.step c).run comment) (rest.drop comment.length)
    else if !isAscii c then ⟨[], some ⟨.nonAsciiCharacter c, k.position⟩⟩
    else
      match lexeme? c rest with
      | none => ⟨[], some ⟨.strayCharacter c, k.position⟩⟩
      | some (kind, n) =>
        let more := scan ((k.step c).run (rest.take n)) (rest.drop n)
        ⟨Token.over k kind (c :: rest.take n) :: more.tokens, more.stop⟩
termination_by cs => cs.length

@[simp] theorem scan_nil (k : Cursor) : scan k [] = ⟨[], none⟩ := by rw [scan]

/-- Cutting a text that is not empty: spacing and comments are passed over, a token is taken, and
    what begins no token ends the cut. -/
theorem scan_cons (k : Cursor) (c : Char) (rest : List Char) :
    scan k (c :: rest) =
      if isSpacing c then scan (k.step c) rest
      else if startsComment c rest then
        scan ((k.step c).run (rest.takeWhile (· ≠ '\n')))
          (rest.drop (rest.takeWhile (· ≠ '\n')).length)
      else if !isAscii c then ⟨[], some ⟨.nonAsciiCharacter c, k.position⟩⟩
      else
        match lexeme? c rest with
        | none => ⟨[], some ⟨.strayCharacter c, k.position⟩⟩
        | some (kind, n) =>
          ⟨Token.over k kind (c :: rest.take n) ::
              (scan ((k.step c).run (rest.take n)) (rest.drop n)).tokens,
            (scan ((k.step c).run (rest.take n)) (rest.drop n)).stop⟩ := by
  rw [scan]

/-- The cut of a source. -/
def Source.scan (s : Source) : Scan := ClosureML.scan .start s.text.toList

/-- The tokens of a source, or the error at the first character that begins none. -/
def Source.tokens (s : Source) : Except CompileError (List Token) :=
  match s.scan.stop with
  | none => .ok s.scan.tokens
  | some error => .error error

end ClosureML
