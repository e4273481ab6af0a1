/-!
# Source texts and places in them

A source is a text with the place it came from. Offsets count bytes of its UTF-8 form. A
*position* is a line and a column, both from 1; columns count bytes too. The position `0:0` marks
what the compiler made up itself.

* `Cursor` walks over a text and knows offset and position of what comes next;
* `Source.positionAt?` is the position of an offset, `none` inside a character;
* `Source.line?` is a line without its line end, `Source.slice?` the text between two offsets.

Main statements: `Cursor.run_append` (a walk over two texts is two walks), `split?_append` and
`split?_utf8Length` (an offset splits a text exactly there).
-/

namespace ClosureML

/-! ## 1. Positions -/

/-- A line and a column, both counted from 1. -/
structure Position where
  line : Nat
  column : Nat
  deriving DecidableEq, Repr, Inhabited

namespace Position

/-- The position of what stands in no source text. -/
def synthetic : Position := ⟨0, 0⟩

/-- The position of the first character of a text. -/
def start : Position := ⟨1, 1⟩

/-- The position behind a character: a line feed begins the next line. -/
def step (p : Position) (c : Char) : Position :=
  if c = '\n' then ⟨p.line + 1, 1⟩ else ⟨p.line, p.column + c.utf8Size⟩

/-- The written form, `line:column`. -/
def text (p : Position) : String :=
  if p = synthetic then "<synthetic>" else toString p.line ++ ":" ++ toString p.column

end Position

/-! ## 2. Walking over a text -/

/-- The number of bytes of a text. -/
def utf8Length : List Char → Nat
  | [] => 0
  | c :: cs => c.utf8Size + utf8Length cs

@[simp] theorem utf8Length_nil : utf8Length [] = 0 := rfl

@[simp] theorem utf8Length_cons (c : Char) (cs : List Char) :
    utf8Length (c :: cs) = c.utf8Size + utf8Length cs := rfl

@[simp] theorem utf8Length_append (xs ys : List Char) :
    utf8Length (xs ++ ys) = utf8Length xs + utf8Length ys := by
  induction xs with
  | nil => rw [List.nil_append, utf8Length_nil, Nat.zero_add]
  | cons c xs ih => rw [List.cons_append, utf8Length_cons, utf8Length_cons, ih, Nat.add_assoc]

/-- A place in a text that is read from its start: how many bytes lie before it, and its
    position. -/
structure Cursor where
  offset : Nat
  position : Position
  deriving DecidableEq, Repr

namespace Cursor

/-- The place before the first character. -/
def start : Cursor := ⟨0, .start⟩

/-- The place behind one more character. -/
def step (k : Cursor) (c : Char) : Cursor := ⟨k.offset + c.utf8Size, k.position.step c⟩

/-- The place behind some more text. -/
def run (k : Cursor) (cs : List Char) : Cursor := cs.foldl step k

@[simp] theorem run_nil (k : Cursor) : k.run [] = k := rfl

@[simp] theorem run_cons (k : Cursor) (c : Char) (cs : List Char) :
    k.run (c :: cs) = (k.step c).run cs := rfl

/-- Walking over two texts in a row is walking over the two one after the other. -/
theorem run_append (k : Cursor) (xs ys : List Char) : k.run (xs ++ ys) = (k.run xs).run ys := by
  simp [run]

/-- The offset moves on by the bytes that were read. -/
theorem offset_run (k : Cursor) (cs : List Char) :
    (k.run cs).offset = k.offset + utf8Length cs := by
  induction cs generalizing k with
  | nil => rfl
  | cons c cs ih => rw [run_cons, ih, utf8Length_cons, step, Nat.add_assoc]

end Cursor

/-- A text split behind its first `n` bytes; `none` when the cut would fall inside a character or
    behind the end. -/
def split? : Nat → List Char → Option (List Char × List Char)
  | 0, cs => some ([], cs)
  | _ + 1, [] => none
  | n + 1, c :: cs =>
    if c.utf8Size ≤ n + 1 then
      (split? (n + 1 - c.utf8Size) cs).map fun (front, back) => (c :: front, back)
    else none

/-- The two parts of a split make up the text. -/
theorem split?_append {n : Nat} {cs front back : List Char} (h : split? n cs = some (front, back)) :
    cs = front ++ back ∧ utf8Length front = n := by
  fun_induction split? n cs generalizing front back with
  | case1 => simp_all
  | case2 => simp at h
  | case3 n c cs hc ih =>
    obtain ⟨⟨u, v⟩, hu, hv⟩ := Option.map_eq_some_iff.1 h
    obtain ⟨rfl, rfl⟩ := Prod.mk.inj hv
    obtain ⟨happ, hlen⟩ := ih hu
    exact ⟨by rw [happ, List.cons_append], by rw [utf8Length_cons, hlen]; omega⟩
  | case4 => simp at h

/-- Every front of a text can be split off. -/
theorem split?_utf8Length (front back : List Char) :
    split? (utf8Length front) (front ++ back) = some (front, back) := by
  induction front with
  | nil => simp [split?]
  | cons c cs ih =>
    have hc : 0 < c.utf8Size := Char.utf8Size_pos c
    obtain ⟨n, hn⟩ : ∃ n, utf8Length (c :: cs) = n + 1 :=
      ⟨c.utf8Size + utf8Length cs - 1, by rw [utf8Length_cons]; omega⟩
    have hsub : n + 1 - c.utf8Size = utf8Length cs := by rw [← hn, utf8Length_cons]; omega
    have hle : c.utf8Size ≤ n + 1 := by rw [← hn, utf8Length_cons]; omega
    rw [hn, List.cons_append, split?, if_pos hle, hsub, ih]
    rfl

/-! ## 3. Lines -/

/-- The lines of a text without their ends. A line ends with a line feed, before which one
    carriage return may stand; what follows the last line end is a line if it is not empty. -/
def lines : List Char → List (List Char)
  | [] => []
  | '\n' :: rest => [] :: lines rest
  | '\r' :: '\n' :: rest => [] :: lines rest
  | c :: rest =>
    match lines rest with
    | [] => [[c]]
    | line :: more => (c :: line) :: more

/-! ## 4. Sources -/

/-- Where a source text came from. -/
inductive Origin where
  | memory
  | file (path : String)
  deriving DecidableEq, Repr

/-- How an origin is named in a diagnostic. -/
def Origin.text : Origin → String
  | .memory => "<memory>"
  | .file path => path

/-- A text to compile. -/
structure Source where
  text : String
  origin : Origin
  deriving DecidableEq, Repr

namespace Source

/-- A source that stands in no file. -/
def ofText (text : String) : Source := ⟨text, .memory⟩

/-- The number of bytes. -/
def size (s : Source) : Nat := utf8Length s.text.toList

/-- The position behind the last character. -/
def endPosition (s : Source) : Position := (Cursor.start.run s.text.toList).position

/-- The position of a byte offset, `none` inside a character. An offset behind the end counts as
    the end. -/
def positionAt? (s : Source) (offset : Nat) : Option Position :=
  (split? (min offset s.size) s.text.toList).map fun (front, _) =>
    (Cursor.start.run front).position

/-- The line with the given number, counted from 1. -/
def line? (s : Source) : Nat → Option String
  | 0 => none
  | n + 1 => ((lines s.text.toList)[n]?).map String.ofList

/-- The text from byte `start` up to byte `stop`, `none` unless both lie in the text, in this
    order and not inside a character. -/
def slice? (s : Source) (start stop : Nat) : Option String := do
  let (_, back) ← split? start s.text.toList
  guard (start ≤ stop)
  let (middle, _) ← split? (stop - start) back
  return String.ofList middle

/-- The end of a text has the position behind its last character. -/
theorem positionAt?_size (s : Source) : s.positionAt? s.size = some s.endPosition := by
  have h := split?_utf8Length s.text.toList []
  rw [List.append_nil] at h
  simp [positionAt?, size, h, endPosition]

end Source

end ClosureML
