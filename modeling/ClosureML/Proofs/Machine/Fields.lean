import ClosureML.Machine.Instruction
import ClosureML.Proofs.Names.Numbered
import ClosureML.Text.Blank

/-!
# Texts taken apart

A rendered program is a text of lines, a line is made of items with separators between them, and an
item is a word, a number or a sign. Here is how such texts are taken apart, and that taking apart
what was put together gives the parts.

* `IsItem`: a text that cannot be mistaken for a separator;
* `fields`: the items between separators; `unsignedDecimal`, `signedDecimal`: the number that an
  item is;
* `indent`: a line without the blanks in front of it, and their number;
* `readLines`: what the lines of a text say, from the last one upward.

Main statements: `fields_intercalate`, `fields_trimEnd`, `signedDecimal_toString`, `indent_eq` and
`readLines_blocks`.
-/

namespace ClosureML

/-! ## 1. Items -/

/-- May the character stand in an item? -/
def isItemChar (c : Char) : Bool := !isBlank c && !(['(', ')', ',', ':'].contains c)

/-- What stands between separators: a text that is not empty, without blanks, brackets, commas and
    colons. -/
structure IsItem (text : String) : Prop where
  ne_empty : text ≠ ""
  chars : ∀ c ∈ text.toList, isItemChar c = true

instance (text : String) : Decidable (IsItem text) :=
  decidable_of_iff (text ≠ "" ∧ text.toList.all isItemChar = true)
    ⟨fun h => ⟨h.1, List.all_eq_true.1 h.2⟩, fun h => ⟨h.ne_empty, List.all_eq_true.2 h.chars⟩⟩

theorem isItemChar_of_isAlphanum {c : Char} (h : c.isAlphanum = true) : isItemChar c = true := by
  have hrange : (65 ≤ c.toNat ∧ c.toNat ≤ 90 ∨ 97 ≤ c.toNat ∧ c.toNat ≤ 122) ∨
      48 ≤ c.toNat ∧ c.toNat ≤ 57 := by
    rcases Bool.or_eq_true_iff.1 h with halpha | hdigit
    · rcases Bool.or_eq_true_iff.1 halpha with hupper | hlower
      · exact .inl (.inl (of_decide_eq_true hupper))
      · obtain ⟨hlow, hhigh⟩ := Bool.and_eq_true_iff.1 hlower
        exact .inl (.inr ⟨of_decide_eq_true hlow, of_decide_eq_true hhigh⟩)
    · obtain ⟨hlow, hhigh⟩ := Bool.and_eq_true_iff.1 hdigit
      exact .inr ⟨of_decide_eq_true hlow, of_decide_eq_true hhigh⟩
  have hblank : isBlank c = false := by
    simp only [isBlank, Bool.or_eq_false_iff, Bool.and_eq_false_iff, decide_eq_false_iff_not,
      beq_eq_false_iff_ne]
    omega
  have hsign : c ∉ ['(', ')', ',', ':'] := fun hc => by
    simp only [List.mem_cons, List.not_mem_nil, or_false] at hc
    rcases hc with rfl | rfl | rfl | rfl <;> revert h <;> decide
  simp [isItemChar, hblank, hsign]

namespace IsItem

theorem ne_nil {text : String} (h : IsItem text) : text.toList ≠ [] := fun e =>
  h.ne_empty (String.toList_eq_nil_iff.1 e)

theorem not_isBlank {text : String} (h : IsItem text) {c : Char} (hc : c ∈ text.toList) :
    isBlank c = false := by
  have := h.chars c hc
  simp only [isItemChar, Bool.and_eq_true, Bool.not_eq_true'] at this
  exact this.1

/-- A character that is not one of an item is not in it. -/
theorem not_mem {text : String} (h : IsItem text) {c : Char} (hc : isItemChar c = false) :
    c ∉ text.toList := fun hmem => by
  rw [h.chars c hmem] at hc
  cases hc

/-- Items put together are an item. -/
theorem append {text text' : String} (h : IsItem text) (h' : IsItem text') :
    IsItem (text ++ text') := by
  refine ⟨fun e => h.ne_nil ?_, fun c hc => ?_⟩
  · have hlist := congrArg String.toList e
    rw [String.toList_append] at hlist
    exact (List.append_eq_nil_iff.1 hlist).1
  · rw [String.toList_append, List.mem_append] at hc
    exact hc.elim (h.chars c) (h'.chars c)

theorem nat (n : Nat) : IsItem (toString n) := by
  refine ⟨fun e => ?_, fun c hc => isItemChar_of_isAlphanum ?_⟩
  · have hlist := congrArg String.toList e
    rw [toList_toString] at hlist
    exact Nat.toDigits_ne_nil hlist
  · rw [Char.isAlphanum, isDigit_of_mem_toString hc, Bool.or_true]

theorem int : ∀ n : Int, IsItem (toString n)
  | .ofNat n => nat n
  | .negSucc n => append (by decide) (nat (n + 1))

end IsItem

/-! ## 2. Fields -/

/-- The items between separators, without the blanks in front of them. -/
def fields (separator : Char) (cs : List Char) : List String :=
  (((cs.splitOn separator).map fun piece => piece.dropWhile (· == ' ')).filter fun piece =>
    !piece.isEmpty).map String.ofList

section Fields

variable {separator : Char}

theorem fields_append_separator (cs ds : List Char) :
    fields separator (cs ++ separator :: ds) = fields separator cs ++ fields separator ds := by
  simp only [fields, List.splitOn_append_cons_self, List.map_append, List.filter_append]

theorem fields_nil : fields separator [] = [] := rfl

/-- A blank in front of an item is not read. -/
theorem fields_blank (cs : List Char) : fields separator (' ' :: cs) = fields separator cs := by
  by_cases h : separator = ' '
  · subst h
    exact fields_append_separator [] cs
  · have hsplit : (' ' :: cs).splitOn separator = (cs.splitOn separator).modifyHead (' ' :: ·) := by
      rw [List.splitOn_cons_eq_if_modifyHead, if_neg]
      exact fun e => h (beq_iff_eq.1 e).symm
    rw [fields, fields, hsplit]
    cases hpieces : cs.splitOn separator with
    | nil => rfl
    | cons piece pieces => simp

theorem fields_blanks (n : Nat) (cs : List Char) :
    fields separator (List.replicate n ' ' ++ cs) = fields separator cs := by
  induction n with
  | zero => rfl
  | succ n ih =>
    rw [List.replicate_succ, List.cons_append, fields_blank]
    exact ih

theorem fields_item {text : String} (h : IsItem text) (hseparator : isItemChar separator = false) :
    fields separator text.toList = [text] := by
  have hblank : text.toList.dropWhile (· == ' ') = text.toList := by
    cases hcs : text.toList with
    | nil => exact absurd hcs h.ne_nil
    | cons c cs =>
      have hc : c ≠ ' ' := fun e =>
        h.not_mem (c := ' ') (by decide) (hcs ▸ e ▸ List.mem_cons_self)
      simp [hc]
  rw [fields, List.splitOn_eq_singleton (h.not_mem hseparator), List.map_singleton, hblank,
    List.filter_cons_of_pos (by simpa using h.ne_empty)]
  simp

/-- Items put together with a separator and blanks between them. -/
theorem fields_intercalate (hseparator : isItemChar separator = false) (n : Nat) :
    ∀ items : List String, (∀ item ∈ items, IsItem item) →
      fields separator ((String.ofList (separator :: List.replicate n ' ')).intercalate
        items).toList = items
  | [], _ => rfl
  | [item], h => by
    rw [String.toList_intercalate]
    simpa using fields_item (h item List.mem_cons_self) hseparator
  | item :: item' :: items, h => by
    have hrest := fields_intercalate hseparator n (item' :: items) fun i hi =>
      h i (List.mem_cons_of_mem _ hi)
    rw [String.intercalate_cons_cons, String.toList_append, String.toList_append,
      String.toList_ofList, List.append_assoc, List.cons_append, fields_append_separator,
      fields_blanks, fields_item (h item List.mem_cons_self) hseparator, hrest]
    rfl

end Fields

/-- The only blanks of the text are spaces. -/
def IsSpaced (cs : List Char) : Prop := ∀ c ∈ cs, isBlank c = true → c = ' '

instance (cs : List Char) : Decidable (IsSpaced cs) :=
  decidable_of_iff ((cs.all fun c => !isBlank c || c == ' ') = true) <| by
    simp [IsSpaced, List.all_eq_true, ← Bool.not_eq_true, imp_iff_not_or]

theorem IsSpaced.append {cs ds : List Char} (h : IsSpaced cs) (h' : IsSpaced ds) :
    IsSpaced (cs ++ ds) := fun c hc => (List.mem_append.1 hc).elim (h c) (h' c)

theorem IsSpaced.not_mem_newline {cs : List Char} (h : IsSpaced cs) : '\n' ∉ cs := fun hmem =>
  absurd (h _ hmem (by decide)) (by decide)

theorem IsItem.isSpaced {text : String} (h : IsItem text) : IsSpaced text.toList := by
  intro c hc hblank
  rw [h.not_isBlank hc] at hblank
  cases hblank

theorem isSpaced_replicate (n : Nat) : IsSpaced (List.replicate n ' ') := fun _ hc _ =>
  List.eq_of_mem_replicate hc

/-- What stands in items put together stands between them or in one of them. -/
theorem mem_intercalate {between : String} {c : Char} : ∀ {items : List String},
    c ∈ (between.intercalate items).toList →
      c ∈ between.toList ∨ ∃ item ∈ items, c ∈ item.toList
  | [], h => by simp at h
  | [item], h => by
    rw [String.toList_intercalate] at h
    exact .inr ⟨item, List.mem_cons_self, by simpa using h⟩
  | item :: item' :: items, h => by
    rw [String.intercalate_cons_cons, String.toList_append, String.toList_append, List.mem_append,
      List.mem_append] at h
    rcases h with (h | h) | h
    · exact .inr ⟨item, List.mem_cons_self, h⟩
    · exact .inl h
    · refine (mem_intercalate h).imp_right ?_
      rintro ⟨other, hother, hc⟩
      exact ⟨other, List.mem_cons_of_mem _ hother, hc⟩

theorem isSpaced_intercalate {between : String} {items : List String}
    (hbetween : IsSpaced between.toList) (hitems : ∀ item ∈ items, IsItem item) :
    IsSpaced (between.intercalate items).toList := fun c hc =>
  (mem_intercalate hc).elim (hbetween c) fun ⟨item, hitem, hc⟩ => (hitems item hitem).isSpaced c hc

/-- What is dropped at the end of a text are spaces. -/
theorem exists_trimEnd_append {text : String} (h : IsSpaced text.toList) :
    ∃ n, text.toList = (trimEnd text).toList ++ List.replicate n ' ' := by
  refine ⟨(text.toList.reverse.takeWhile isBlank).length, ?_⟩
  have hspaces : text.toList.reverse.takeWhile isBlank =
      List.replicate (text.toList.reverse.takeWhile isBlank).length ' ' := by
    refine List.eq_replicate_of_mem fun c hc => h c ?_ (List.all_eq_true.1 List.all_takeWhile c hc)
    exact List.mem_reverse.1 ((List.takeWhile_sublist _).subset hc)
  rw [trimEnd, String.toList_ofList, ← List.reverse_replicate, ← hspaces, ← List.reverse_append,
    List.takeWhile_append_dropWhile, List.reverse_reverse]

/-- **Dropping the blanks at the end of a text** leaves its fields. -/
theorem fields_trimEnd {text : String} (h : IsSpaced text.toList) :
    fields ' ' (trimEnd text).toList = fields ' ' text.toList := by
  obtain ⟨n, hn⟩ := exists_trimEnd_append h
  rw [hn]
  cases n with
  | zero => rw [List.replicate_zero, List.append_nil]
  | succ n =>
    have hblanks := @fields_blanks ' ' n []
    rw [List.append_nil] at hblanks
    rw [List.replicate_succ, fields_append_separator, hblanks, fields_nil, List.append_nil]

/-! ## 3. Numbers -/

/-- The number that digits stand for. -/
def unsignedDecimal (text : String) : Nat := Nat.ofDigitChars 10 text.toList 0

/-- The integer that digits stand for, with a sign in front of them if it is negative. -/
def signedDecimal (text : String) : Int :=
  match text.toList with
  | '-' :: cs => -(Nat.ofDigitChars 10 cs 0 : Int)
  | cs => Nat.ofDigitChars 10 cs 0

theorem unsignedDecimal_toString (n : Nat) : unsignedDecimal (toString n) = n := by
  rw [unsignedDecimal, toList_toString, Nat.ofDigitChars_ten_toDigits]

theorem signedDecimal_toString : ∀ n : Int, signedDecimal (toString n) = n
  | .ofNat n => by
    have htext : (toString (Int.ofNat n)).toList = (toString n).toList := rfl
    rw [signedDecimal, htext]
    split
    · next cs hcs =>
      have hdigit := isDigit_of_mem_toString (n := n) (c := '-') (hcs ▸ List.mem_cons_self)
      exact absurd hdigit (by decide)
    · exact congrArg Int.ofNat (unsignedDecimal_toString n)
  | .negSucc n => by
    have htext : (toString (Int.negSucc n)).toList = '-' :: (toString (n + 1)).toList :=
      String.toList_append
    rw [signedDecimal, htext]
    show -(unsignedDecimal (toString (n + 1)) : Int) = Int.negSucc n
    rw [unsignedDecimal_toString]
    rfl

/-! ## 4. Lines -/

/-- The number of blanks in front of a line, and the line behind them. -/
def indent (line : List Char) : Nat × List Char :=
  ((line.takeWhile (· == ' ')).length, line.dropWhile (· == ' '))

/-- The text does not start with a blank. -/
def StartsLine (cs : List Char) : Prop := ∃ c ds, cs = c :: ds ∧ c ≠ ' '

theorem IsItem.startsLine {text : String} (h : IsItem text) (cs : List Char) :
    StartsLine (text.toList ++ cs) := by
  cases htext : text.toList with
  | nil => exact absurd htext h.ne_nil
  | cons c ds =>
    exact ⟨c, ds ++ cs, rfl, fun e => h.not_mem (c := ' ') (by decide)
      (htext ▸ e ▸ List.mem_cons_self)⟩

/-- What does not start with a blank still does not when the blanks at its end are dropped. -/
theorem StartsLine.trimEnd {text : String} (h : StartsLine text.toList)
    (hspaced : IsSpaced text.toList) : StartsLine (trimEnd text).toList := by
  obtain ⟨c, ds, hcs, hc⟩ := h
  obtain ⟨n, hn⟩ := exists_trimEnd_append hspaced
  rw [hcs] at hn
  cases htrim : (ClosureML.trimEnd text).toList with
  | nil =>
    rw [htrim, List.nil_append] at hn
    exact absurd (List.eq_of_mem_replicate (hn ▸ List.mem_cons_self)) hc
  | cons d es =>
    rw [htrim, List.cons_append, List.cons.injEq] at hn
    exact ⟨d, es, rfl, hn.1 ▸ hc⟩

theorem indent_eq {cs : List Char} (h : StartsLine cs) (n : Nat) :
    indent (List.replicate n ' ' ++ cs) = (n, cs) := by
  obtain ⟨c, ds, rfl, hc⟩ := h
  have hblanks : ∀ d ∈ List.replicate n ' ', (d == ' ') = true := fun d hd => by
    rw [List.eq_of_mem_replicate hd]
    rfl
  rw [indent, List.takeWhile_append_of_pos hblanks, List.dropWhile_append_of_pos hblanks,
    List.takeWhile_cons_of_neg (by simp [hc]), List.dropWhile_cons_of_neg (by simp [hc]),
    List.append_nil, List.length_replicate]

/-- What is known when the lines from some line on have been read: the instructions whose block has
    not begun yet, and the blocks behind them. -/
structure Rendered where
  instructions : List Instruction
  blocks : List Block

/-- What the lines of a text say, when `read` tells what one line adds to the lines behind it. -/
def readLines (read : List Char → Rendered → Option Rendered) (text : List Char) :
    Option Rendered := (text.splitOn '\n').foldrM read ⟨[], []⟩

/-- The program that a text renders: all instructions belong to blocks. -/
def Program.ofLines? (read : List Char → Rendered → Option Rendered) (text : String) :
    Option Program :=
  match readLines read text.toList with
  | some ⟨[], blocks⟩ => some ⟨blocks⟩
  | _ => none

section Lines

variable {read : List Char → Rendered → Option Rendered} {line : Instruction → String}
  {r : Rendered}

theorem readLines_line {cs : List Char} (h : '\n' ∉ cs) (text : List Char) :
    readLines read (cs ++ '\n' :: text) = readLines read text >>= read cs := by
  rw [readLines, List.splitOn_append_cons_self_of_not_mem h, List.foldrM_cons]
  rfl

theorem readLines_nil (hempty : ∀ r, read [] r = some r) : readLines read [] = some ⟨[], []⟩ := by
  rw [readLines, List.splitOn_nil, List.foldrM_cons]
  exact hempty _

/-- A line that adds nothing. -/
theorem readLines_skip {cs text : List Char} (hread : read cs r = some r) (h : '\n' ∉ cs)
    (htext : readLines read text = some r) : readLines read (cs ++ '\n' :: text) = some r := by
  rw [readLines_line h, htext]
  exact hread

/-- Lines of instructions put the instructions in front of those behind them. -/
theorem readLines_instructions {is : List Instruction} {text : List Char}
    (hline : ∀ i ∈ is, '\n' ∉ (line i).toList)
    (hread : ∀ i ∈ is, ∀ r : Rendered,
      read (line i).toList r = some ⟨i :: r.instructions, r.blocks⟩)
    (htext : readLines read text = some r) :
    readLines read ((is.flatMap fun i => (line i).toList ++ ['\n']) ++ text) =
      some ⟨is ++ r.instructions, r.blocks⟩ := by
  induction is with
  | nil => exact htext
  | cons i is ih =>
    have hrest := ih (fun j hj => hline j (List.mem_cons_of_mem _ hj)) fun j hj =>
      hread j (List.mem_cons_of_mem _ hj)
    rw [List.flatMap_cons, List.append_assoc, List.append_assoc, List.singleton_append,
      readLines_line (hline i List.mem_cons_self), hrest]
    exact hread i List.mem_cons_self _

/-- Blocks that are separated by empty lines are read as these blocks. -/
theorem readLines_blocks {rendered : Block → String} (hempty : ∀ r, read [] r = some r) :
    ∀ {blocks : List Block},
      (∀ b ∈ blocks, ∀ {text : List Char} {behind : List Block},
        readLines read text = some ⟨[], behind⟩ →
          readLines read ((rendered b).toList ++ text) = some ⟨[], b :: behind⟩) →
      readLines read ("\n".intercalate (blocks.map rendered)).toList = some ⟨[], blocks⟩
  | [], _ => readLines_nil hempty
  | [b], h => by
    have := h b List.mem_cons_self (readLines_nil hempty)
    rw [List.append_nil] at this
    rw [String.toList_intercalate]
    simpa using this
  | b :: c :: blocks, h => by
    have hrest := readLines_blocks hempty fun d hd => h d (List.mem_cons_of_mem b hd)
    rw [List.map_cons, List.map_cons, String.intercalate_cons_cons, String.toList_append,
      String.toList_append, List.append_assoc]
    refine h b List.mem_cons_self ?_
    exact readLines_skip (hempty _) List.not_mem_nil hrest

end Lines

end ClosureML
