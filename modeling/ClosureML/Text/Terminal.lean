/-!
# What a terminal shows

Not every character that is sent to a terminal is shown there. An escape character begins a
*control sequence*, which the terminal obeys up to its last character, and most control characters
are obeyed or passed over. Where there is no terminal, a text is written as a terminal would show
it, without what it would obey.

A control character that moves the place of the next character *interrupts* a control sequence: it
is shown, and so is the text behind it. The sequence goes on with the first character that is not
shown, unless a character beyond ASCII has ended it before.

* `Control` says in what control sequence a terminal stands, `Terminal` also whether the sequence
  is interrupted; `Terminal.step` is what one character does;
* `Terminal.shown` are the characters that a terminal shows, `shownText` is the same for a whole
  text.

Main statements: a text can be sent piece by piece (`Terminal.shown_append`), and one without
control characters is shown as it is (`Terminal.shown_of_forall`).
-/

namespace ClosureML

/-! ## 1. Characters -/

/-- The control characters that move the place where the next character is shown. They are shown
    like text. -/
def isMotion (c : Char) : Bool := c = '\t' || c = '\n' || c = '\x0c' || c = '\r'

/-- Is the character shown where text is shown? -/
def isShown (c : Char) : Bool := isMotion c || (' ' ≤ c && c ≠ '\x7f')

/-- Does the character lie beyond ASCII? -/
def isBeyondAscii (c : Char) : Bool := '\x7f' < c

/-- Does the character end a string of which the terminal shows nothing? It does when one of its
    bytes is the control character "string terminator". -/
def endsString (c : Char) : Bool := (String.utf8EncodeChar c).contains 0x9C

/-- Characters that may stand in the middle of a control sequence. -/
def isIntermediate (c : Char) : Bool := ' ' ≤ c && c ≤ '/'

/-- Characters that number what a control sequence asks for. -/
def isNumbering (c : Char) : Bool := '0' ≤ c && c ≤ '?'

/-- Characters that end a control sequence. -/
def isFinal (c : Char) : Bool := '@' ≤ c && c ≤ '~'

/-! ## 2. Control sequences -/

/-- In what control sequence a terminal stands: in none; behind an escape character (`escape`), and
    behind intermediate characters after it (`escapeMiddle`); in a sequence that an escape
    character and a bracket began; in a string for the system around the terminal (`command`), for
    a device behind it (at its start, in its numbers, in its middle), or for nobody in particular
    (`string`). -/
inductive Control where
  | none
  | escape
  | escapeMiddle
  | sequence
  | command
  | deviceStart
  | deviceNumbers
  | deviceMiddle
  | string
  deriving DecidableEq, Repr

namespace Control

/-- Where a control sequence stands behind a character that is not shown. -/
def skip : Control → Char → Control
  | none, _ => none
  | escape, c =>
    if c = '[' then sequence
    else if c = ']' then command
    else if c = 'P' then deviceStart
    else if c = 'X' ∨ c = '^' ∨ c = '_' then string
    else if isIntermediate c then escapeMiddle
    else if isNumbering c ∨ isFinal c then none
    else escape
  | escapeMiddle, c => if isNumbering c ∨ isFinal c then none else escapeMiddle
  | sequence, c => if isFinal c then none else sequence
  | command, c => if c = '\x07' then none else command
  | deviceStart, c =>
    if isIntermediate c then deviceMiddle
    else if isNumbering c then deviceNumbers
    else if isFinal c then string
    else deviceStart
  | deviceNumbers, c =>
    if isIntermediate c then deviceMiddle
    else if isFinal c ∨ (isNumbering c ∧ '<' ≤ c) then string
    else deviceNumbers
  | deviceMiddle, c => if isNumbering c ∨ isFinal c then string else deviceMiddle
  | string, c => if endsString c then none else string

/-- Is a character shown in a control sequence that is not interrupted? Strings show nothing. -/
def shows : Control → Char → Bool
  | none, c => isShown c
  | escape, c | escapeMiddle, c | sequence, c => isMotion c
  | _, _ => false

end Control

/-! ## 3. Where a terminal stands -/

/-- Where a terminal stands: in what control sequence, and whether that is interrupted. -/
structure Terminal where
  control : Control
  interrupted : Bool
  deriving DecidableEq, Repr

namespace Terminal

/-- The terminal that nothing was sent to. -/
def start : Terminal := ⟨.none, false⟩

/-- Does the terminal show the character? -/
def shows (t : Terminal) (c : Char) : Bool :=
  if t.interrupted then isShown c else t.control.shows c

/-- Where the terminal stands behind a character. An escape character always begins a control
    sequence, and the characters "cancel" and "substitute" always end one. -/
def step (t : Terminal) (c : Char) : Terminal :=
  if c = '\x1b' then ⟨.escape, false⟩
  else if c = '\x18' ∨ c = '\x1a' then start
  else if t.shows c then
    if isBeyondAscii c then start else ⟨t.control, true⟩
  else ⟨t.control.skip c, false⟩

/-! ## 4. What is shown -/

/-- Where the terminal stands behind some characters. -/
def after (t : Terminal) (cs : List Char) : Terminal := cs.foldl step t

/-- The characters that the terminal shows. -/
def shown : Terminal → List Char → List Char
  | _, [] => []
  | t, c :: cs => if t.shows c then c :: (t.step c).shown cs else (t.step c).shown cs

/-- A text can be sent piece by piece. -/
theorem shown_append (t : Terminal) (cs ds : List Char) :
    t.shown (cs ++ ds) = t.shown cs ++ (t.after cs).shown ds := by
  induction cs generalizing t with
  | nil => rfl
  | cons c cs ih =>
    by_cases h : t.shows c <;> simp [shown, after, h, ih]

/-- Outside of control sequences, what can be shown is shown. -/
theorem shows_of_none {t : Terminal} (ht : t.control = .none) (c : Char) :
    t.shows c = isShown c := by
  simp [shows, ht, Control.shows]

/-- A character that is shown begins no control sequence. -/
theorem control_step_of_isShown {t : Terminal} {c : Char} (ht : t.control = .none)
    (h : isShown c = true) : (t.step c).control = .none := by
  have he : c ≠ '\x1b' := by
    rintro rfl
    exact absurd h (by decide)
  unfold step
  rw [if_neg he]
  split
  · rfl
  · rw [if_pos ((shows_of_none ht c).trans h)]
    split
    · rfl
    · exact ht

/-- **Characters of which each is shown are shown as they are** outside of control sequences. -/
theorem shown_of_forall {t : Terminal} {cs : List Char} (ht : t.control = .none)
    (h : ∀ c ∈ cs, isShown c = true) : t.shown cs = cs := by
  induction cs generalizing t with
  | nil => rfl
  | cons c cs ih =>
    have hc : isShown c = true := h c (by simp)
    have hstep : (t.step c).control = .none := control_step_of_isShown ht hc
    have hcs : (t.step c).shown cs = cs := ih hstep fun d hd => h d (by simp [hd])
    rw [shown, if_pos ((shows_of_none ht c).trans hc), hcs]

end Terminal

/-- A text as a terminal shows it. -/
def shownText (text : String) : String := String.ofList (Terminal.start.shown text.toList)

end ClosureML
