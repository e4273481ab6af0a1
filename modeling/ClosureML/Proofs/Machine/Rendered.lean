import ClosureML.Machine.CSource
import ClosureML.Machine.Listing
import ClosureML.Proofs.Machine.Fields

/-!
# Both renderings of a program determine it

A program is rendered as a listing or as C source. Either text can be decoded, line by line, to the
program that it was made from, as long as the labels are words: then no label can be taken for a
blank, a sign that stands between operands, or the end of a line.

* `Label.IsWord`, `Program.HasWordLabels`: letters, digits and underscores, at least one;
* `Program.ofListing?` and `Program.ofCSource?`: the decoders. Lines are read from the last one
  upward, so that the instructions of a block are known when its head comes.

Main statements: `Program.ofListing?_listing`, `Program.ofCSource?_cSource` and
`Program.renderings_determine`.
-/

namespace ClosureML

/-! ## 1. Programs with words for labels -/

/-- A letter, a digit or an underscore. -/
def isWordChar (c : Char) : Bool := c.isAlphanum || c == '_'

/-- A label of letters, digits and underscores, at least one. -/
structure Label.IsWord (l : Label) : Prop where
  ne_empty : l ≠ ""
  chars : ∀ c ∈ l.toList, isWordChar c = true

instance Label.decidableIsWord (l : Label) : Decidable l.IsWord :=
  decidable_of_iff (l ≠ "" ∧ l.toList.all isWordChar = true)
    ⟨fun h => ⟨h.1, List.all_eq_true.1 h.2⟩, fun h => ⟨h.ne_empty, List.all_eq_true.2 h.chars⟩⟩

/-- The labels that an instruction holds. -/
def Instruction.labels : Instruction → List Label
  | closure block => [block]
  | closures blocks => blocks
  | branch _ target => [target]
  | label l => [l]
  | _ => []

/-- All the labels of an instruction are words. -/
def Instruction.HasWordLabels (i : Instruction) : Prop := ∀ l ∈ i.labels, Label.IsWord l

instance (i : Instruction) : Decidable i.HasWordLabels :=
  inferInstanceAs (Decidable (∀ l ∈ i.labels, Label.IsWord l))

/-- All the labels of a block are words: its own, and those in it. -/
structure Block.HasWordLabels (b : Block) : Prop where
  label : b.label.IsWord
  instructions : ∀ i ∈ b.instructions, i.HasWordLabels

instance (b : Block) : Decidable b.HasWordLabels :=
  decidable_of_iff (b.label.IsWord ∧ ∀ i ∈ b.instructions, i.HasWordLabels)
    ⟨fun h => ⟨h.1, h.2⟩, fun h => ⟨h.label, h.instructions⟩⟩

/-- All the labels of a program are words. -/
def Program.HasWordLabels (p : Program) : Prop := ∀ b ∈ p.blocks, b.HasWordLabels

instance (p : Program) : Decidable p.HasWordLabels :=
  inferInstanceAs (Decidable (∀ b ∈ p.blocks, b.HasWordLabels))

theorem isItemChar_of_isWordChar {c : Char} (h : isWordChar c = true) : isItemChar c = true := by
  rcases Bool.or_eq_true_iff.1 h with h | h
  · exact isItemChar_of_isAlphanum h
  · rw [beq_iff_eq.1 h]
    decide

theorem Label.IsWord.isItem {l : Label} (h : l.IsWord) : IsItem l :=
  ⟨h.ne_empty, fun c hc => isItemChar_of_isWordChar (h.chars c hc)⟩

namespace IsItem

theorem binary (o : BinaryOperator) : IsItem o.text ∧ IsItem o.mnemonic := by
  cases o <;> decide

theorem unary (o : UnaryOperator) : IsItem o.text ∧ IsItem o.mnemonic := by
  cases o
  decide

theorem builtin (b : Builtin) : IsItem b.text := by cases b <;> decide

theorem branch (k : BranchKind) : IsItem k.text := by cases k <;> decide

theorem opcode (i : Instruction) : IsItem i.opcode := by
  cases i <;> simp only [Instruction.opcode] <;> decide

theorem functionName {l : Label} (h : IsItem l) : IsItem (functionName l) :=
  append (by decide) h

end IsItem

/-! ## 2. Listings -/

/-- The instruction with the given words. -/
def Instruction.ofWords? : List String → Option Instruction
  | ["halt"] => some .halt
  | ["pop", n] => some (.pop (unsignedDecimal n))
  | ["apply"] => some .apply
  | ["const", n] => some (.const (signedDecimal n))
  | ["access", n] => some (.access (unsignedDecimal n))
  | ["focus", n] => some (.focus (unsignedDecimal n))
  | ["return"] => some .leave
  | ["closure", block] => some (.closure block)
  | "closures" :: blocks => some (.closures blocks)
  | ["builtin", name] => (Builtin.ofText? name).map .builtin
  | ["br", target] => some (.branch .br target)
  | ["brfl", target] => some (.branch .brfl target)
  | [name] =>
    ((BinaryOperator.all.find? fun o => o.mnemonic = name).map Instruction.binary).or
      ((UnaryOperator.all.find? fun o => o.mnemonic = name).map Instruction.unary)
  | _ => none

/-- What a line of a listing adds: an instruction behind four blanks, a place behind two, or the
    label of a block, which takes the instructions that have been read. -/
def readListed (line : List Char) (behind : Rendered) : Option Rendered :=
  match indent line with
  | (_, []) => some behind
  | (4, cs) => (Instruction.ofWords? (fields ' ' cs)).map fun i =>
    ⟨i :: behind.instructions, behind.blocks⟩
  | (2, cs) => some ⟨.label (String.ofList cs.dropLast) :: behind.instructions, behind.blocks⟩
  | (_, cs) => some ⟨[], ⟨String.ofList cs.dropLast, behind.instructions⟩ :: behind.blocks⟩

/-- The program that a listing renders. -/
def Program.ofListing? : String → Option Program := ofLines? readListed

theorem readListed_nil (r : Rendered) : readListed [] r = some r := rfl

/-- A line with four blanks holds the instruction with the words of the line. -/
theorem readListed_instruction {cs : List Char} {i : Instruction} (h : StartsLine cs)
    (hi : Instruction.ofWords? (fields ' ' cs) = some i) (r : Rendered) :
    readListed ("    ".toList ++ cs) r = some ⟨i :: r.instructions, r.blocks⟩ := by
  have hline : indent ("    ".toList ++ cs) = (4, cs) := indent_eq h 4
  obtain ⟨c, ds, rfl, -⟩ := h
  rw [readListed, hline]
  simp only [hi, Option.map_some]

theorem ofList_dropLast_append (l : String) (c : Char) :
    String.ofList (l.toList ++ [c]).dropLast = l := by
  rw [List.dropLast_concat, String.ofList_toList]

/-- A line with two blanks, a label and a colon holds a place. -/
theorem readListed_label {l : Label} (h : IsItem l) (r : Rendered) :
    readListed ("  ".toList ++ (l.toList ++ [':'])) r =
      some ⟨.label l :: r.instructions, r.blocks⟩ := by
  have hline : indent ("  ".toList ++ (l.toList ++ [':'])) = (2, l.toList ++ [':']) :=
    indent_eq (h.startsLine _) 2
  have htext := ofList_dropLast_append l ':'
  obtain ⟨c, ds, hcs, -⟩ := h.startsLine [':']
  rw [readListed, hline]
  rw [hcs] at htext ⊢
  simp only [htext]

/-- A line with a label and a colon is the head of a block. -/
theorem readListed_block {l : Label} (h : IsItem l) (r : Rendered) :
    readListed (l.toList ++ [':']) r = some ⟨[], ⟨l, r.instructions⟩ :: r.blocks⟩ := by
  have hline : indent (l.toList ++ [':']) = (0, l.toList ++ [':']) := indent_eq (h.startsLine _) 0
  have htext := ofList_dropLast_append l ':'
  obtain ⟨c, ds, hcs, -⟩ := h.startsLine [':']
  rw [readListed, hline]
  rw [hcs] at htext ⊢
  simp only [htext]

theorem toList_padded (opcode : String) :
    (padded opcode).toList = opcode.toList ++ List.replicate (10 - opcode.length) ' ' := by
  have hpush : ∀ (n : Nat) (s : String),
      (s.pushn ' ' n).toList = s.toList ++ List.replicate n ' ' := by
    intro n s
    rw [String.pushn_eq_repeat_push]
    induction n with
    | zero => exact (List.append_nil _).symm
    | succ n ih =>
      rw [Nat.repeat, String.toList_push, ih, List.replicate_succ', List.append_assoc]
  exact hpush _ _

/-- The text of an instruction that is listed by the name of its operation: the name and the
    operands are its fields. -/
theorem fields_padded {opcode operands : String} (h : IsItem opcode) (hlength : opcode.length < 10)
    (hspaced : IsSpaced operands.toList) :
    StartsLine (trimEnd (padded opcode ++ operands)).toList ∧
      IsSpaced (trimEnd (padded opcode ++ operands)).toList ∧
      fields ' ' (trimEnd (padded opcode ++ operands)).toList =
        opcode :: fields ' ' operands.toList := by
  obtain ⟨k, hk⟩ : ∃ k, 10 - opcode.length = k + 1 := ⟨9 - opcode.length, by omega⟩
  have htext : (padded opcode ++ operands).toList =
      opcode.toList ++ ' ' :: (List.replicate k ' ' ++ operands.toList) := by
    rw [String.toList_append, toList_padded, hk, List.replicate_succ, List.append_assoc,
      List.cons_append]
  have hall : IsSpaced (padded opcode ++ operands).toList := by
    rw [String.toList_append, toList_padded]
    exact (h.isSpaced.append (isSpaced_replicate _)).append hspaced
  refine ⟨StartsLine.trimEnd ?_ hall, ?_, ?_⟩
  · rw [htext]
    exact h.startsLine _
  · obtain ⟨n, hn⟩ := exists_trimEnd_append hall
    rw [hn] at hall
    exact fun c hc => hall c (List.mem_append_left _ hc)
  · rw [fields_trimEnd hall, htext, fields_append_separator, fields_blanks,
      fields_item h (by decide), List.singleton_append]

/-- The line of an instruction, without a newline in it, is read as the instruction. -/
def ReadsListed (i : Instruction) : Prop :=
  '\n' ∉ i.listed.toList ∧
    ∀ r : Rendered, readListed i.listed.toList r = some ⟨i :: r.instructions, r.blocks⟩

/-- Behind the blanks of a line, the words are those of the instruction. -/
theorem ReadsListed.of_words {i : Instruction} {cs : List Char}
    (hlisted : i.listed.toList = "    ".toList ++ cs) (hstarts : StartsLine cs)
    (hspaced : IsSpaced cs) (hwords : Instruction.ofWords? (fields ' ' cs) = some i) :
    ReadsListed i := by
  refine ⟨?_, fun r => ?_⟩
  · rw [hlisted]
    exact ((isSpaced_replicate 4).append hspaced).not_mem_newline
  · rw [hlisted]
    exact readListed_instruction hstarts hwords r

/-- An instruction that is listed by the name of its operation. -/
theorem ReadsListed.of_padded {i : Instruction}
    (hlisted : i.listed = "    " ++ trimEnd (padded i.opcode ++ i.operands))
    (hspaced : IsSpaced i.operands.toList)
    (hwords : Instruction.ofWords? (i.opcode :: fields ' ' i.operands.toList) = some i) :
    ReadsListed i := by
  have hlength : i.opcode.length < 10 := by
    cases i <;> simp only [Instruction.opcode] <;> decide
  obtain ⟨hstarts, htrimmed, hfields⟩ := fields_padded (.opcode i) hlength hspaced
  exact .of_words (by rw [hlisted, String.toList_append]) hstarts htrimmed (hfields ▸ hwords)

/-- An instruction whose only operand is an item. -/
theorem ReadsListed.of_operand {i : Instruction} (h : IsItem i.operands)
    (hlisted : i.listed = "    " ++ trimEnd (padded i.opcode ++ i.operands))
    (hwords : Instruction.ofWords? [i.opcode, i.operands] = some i) : ReadsListed i := by
  refine .of_padded hlisted h.isSpaced ?_
  rw [fields_item h (by decide)]
  exact hwords

/-- **The line of an instruction is read as the instruction.** -/
theorem Instruction.HasWordLabels.readsListed :
    ∀ {i : Instruction}, i.HasWordLabels → ReadsListed i
  | .halt, _ | .apply, _ | .leave, _ => .of_padded rfl (fun _ h => nomatch h) rfl
  | .pop n, _ =>
    .of_operand (.nat n) rfl (congrArg (some ∘ Instruction.pop) (unsignedDecimal_toString n))
  | .access n, _ =>
    .of_operand (.nat n) rfl (congrArg (some ∘ Instruction.access) (unsignedDecimal_toString n))
  | .focus n, _ =>
    .of_operand (.nat n) rfl (congrArg (some ∘ Instruction.focus) (unsignedDecimal_toString n))
  | .const n, _ =>
    .of_operand (.int n) rfl (congrArg (some ∘ Instruction.const) (signedDecimal_toString n))
  | .closure block, h => .of_operand (h block (.head _)).isItem rfl rfl
  | .builtin b, _ =>
    .of_operand (.builtin b) rfl
      (congrArg (Option.map Instruction.builtin) (Builtin.ofText?_text b))
  | .closures blocks, h => by
    have hitems : ∀ l ∈ blocks, IsItem l := fun l hl => (h l hl).isItem
    have hspace : IsSpaced " ".toList := isSpaced_replicate 1
    refine .of_padded rfl (isSpaced_intercalate hspace hitems) ?_
    show Instruction.ofWords? ("closures" :: fields ' ' (" ".intercalate blocks).toList) = _
    rw [show (" " : String) = String.ofList (' ' :: List.replicate 0 ' ') from rfl,
      fields_intercalate (by decide) 0 blocks hitems]
    rfl
  | .binary o, _ => by
    refine .of_words (String.toList_append ..) ?_ (IsItem.binary o).2.isSpaced ?_
    · simpa using (IsItem.binary o).2.startsLine []
    · rw [fields_item (IsItem.binary o).2 (by decide)]
      cases o <;> decide
  | .unary o, _ => by
    refine .of_words (String.toList_append ..) ?_ (IsItem.unary o).2.isSpaced ?_
    · simpa using (IsItem.unary o).2.startsLine []
    · rw [fields_item (IsItem.unary o).2 (by decide)]
      cases o
      decide
  | .branch kind target, h => by
    have htarget := (h target (.head _)).isItem
    have hlisted : (Instruction.branch kind target).listed.toList =
        "    ".toList ++ (kind.text.toList ++ ' ' :: target.toList) := by
      simp [Instruction.listed]
    refine .of_words hlisted ((IsItem.branch kind).startsLine _) ?_ ?_
    · exact (IsItem.branch kind).isSpaced.append ((isSpaced_replicate 1).append htarget.isSpaced)
    · rw [fields_append_separator, fields_item (.branch kind) (by decide),
        fields_item htarget (by decide)]
      cases kind <;> rfl
  | .label l, h => by
    have hl := (h l (.head _)).isItem
    have hlisted : (Instruction.label l).listed.toList =
        "  ".toList ++ (l.toList ++ [':']) := by simp [Instruction.listed]
    have hcolon : IsSpaced [':'] := by decide
    refine ⟨?_, fun r => ?_⟩
    · rw [hlisted]
      exact ((isSpaced_replicate 2).append (hl.isSpaced.append hcolon)).not_mem_newline
    · rw [hlisted]
      exact readListed_label hl r

/-- The text of a block of a listing, line by line. -/
def Block.listedText (b : Block) : String := String.join (b.listed.map fun line => line ++ "\n")

theorem Block.HasWordLabels.readLines_listedText {b : Block} (h : b.HasWordLabels)
    {text : List Char} {behind : List Block}
    (htext : readLines readListed text = some ⟨[], behind⟩) :
    readLines readListed (b.listedText.toList ++ text) = some ⟨[], b :: behind⟩ := by
  have hlabel := h.label.isItem
  have hcolon : IsSpaced [':'] := by decide
  have hline : '\n' ∉ b.label.toList ++ [':'] := (hlabel.isSpaced.append hcolon).not_mem_newline
  have hb : b.listedText.toList ++ text = (b.label.toList ++ [':']) ++
      '\n' :: ((b.instructions.flatMap fun i => i.listed.toList ++ ['\n']) ++ text) := by
    simp [listedText, Block.listed, List.flatMap_map, Function.comp_def]
  rw [hb, readLines_line hline,
    readLines_instructions (fun i hi => (h.instructions i hi).readsListed.1)
      (fun i hi => (h.instructions i hi).readsListed.2) htext]
  have hread := readListed_block hlabel ⟨b.instructions, behind⟩
  simpa using hread

/-- **A listing is decoded to the program that it lists.** -/
theorem Program.ofListing?_listing {p : Program} (h : p.HasWordLabels) :
    Program.ofListing? p.listing = some p := by
  have hread : readLines readListed p.listing.toList = some ⟨[], p.blocks⟩ :=
    readLines_blocks readListed_nil fun b hb => (h b hb).readLines_listedText
  rw [ofListing?, ofLines?, hread]

/-! ## 3. C source -/

/-- The label of the block that a function was made from. -/
def blockOf (function : String) : Label := String.ofList (function.toList.drop 5)

/-- The instruction that is a call of a named operation. -/
def Instruction.ofOperation? : String → List String → Option Instruction
  | "halt", [] => some .halt
  | "pop", [n] => some (.pop (unsignedDecimal n))
  | "apply", [] => some .apply
  | "constint", [n] => some (.const (signedDecimal n))
  | "access", [n] => some (.access (unsignedDecimal n))
  | "focus", [n] => some (.focus (unsignedDecimal n))
  | "return", [] => some .leave
  | "closure", [function] => some (.closure (blockOf function))
  | "closures", functions => some (.closures (functions.map blockOf))
  | "builtin", [name] => (Builtin.ofText? name).map .builtin
  | "binary", [symbol] => (BinaryOperator.ofText? symbol).map .binary
  | "unary", [symbol] => (UnaryOperator.ofText? symbol).map .unary
  | "br", [target] => some (.branch .br target)
  | "br1", [_, target] => some (.branch .brfl target)
  | "label", [l] => some (.label l)
  | _, _ => none

/-- The instruction of a call: the letter `I`, the name of the operation and the arguments. -/
def Instruction.ofCall? (call : List Char) : Option Instruction :=
  ofOperation? (String.ofList ((call.drop 1).takeWhile (· != '(')))
    (fields ',' (((call.dropWhile (· != '(')).drop 1).takeWhile (· != ')')))

/-- What a line of C source adds: a call behind four blanks, or the head of a function, which takes
    the calls that have been read. -/
def readC (line : List Char) (behind : Rendered) : Option Rendered :=
  match indent line with
  | (4, call) => (Instruction.ofCall? call).map fun i => ⟨i :: behind.instructions, behind.blocks⟩
  | (_, cs) =>
    if cs.getLast? = some '\x7b' then
      let label := String.ofList ((cs.drop 10).takeWhile (· != '('))
      some ⟨[], ⟨label, behind.instructions⟩ :: behind.blocks⟩
    else some behind

/-- The program that a C source renders. -/
def Program.ofCSource? : String → Option Program := ofLines? readC

theorem readC_nil (r : Rendered) : readC [] r = some r := rfl

theorem blockOf_functionName (l : Label) : blockOf (functionName l) = l := by
  simp [blockOf, functionName]

theorem map_blockOf_functionName (ls : List Label) :
    (ls.map functionName).map blockOf = ls := by
  simp [List.map_map, Function.comp_def, blockOf_functionName]

/-- What stands before the first character of a kind, and what stands behind it. -/
theorem takeWhile_append_cons {c : Char} {cs : List Char} (h : c ∉ cs) (ds : List Char) :
    (cs ++ c :: ds).takeWhile (· != c) = cs ∧ (cs ++ c :: ds).dropWhile (· != c) = c :: ds := by
  have hall : ∀ d ∈ cs, (d != c) = true := fun d hd =>
    bne_iff_ne.2 fun e => h (e ▸ hd)
  constructor
  · rw [List.takeWhile_append_of_pos hall, List.takeWhile_cons_of_neg (by simp), List.append_nil]
  · rw [List.dropWhile_append_of_pos hall, List.dropWhile_cons_of_neg (by simp)]

/-- A call is taken apart into its operation and its arguments. -/
theorem Instruction.ofCall?_eq {operation arguments : List Char} (hoperation : '(' ∉ operation)
    (harguments : ')' ∉ arguments) :
    ofCall? ('I' :: (operation ++ '(' :: (arguments ++ ')' :: [';']))) =
      ofOperation? (String.ofList operation) (fields ',' arguments) := by
  have hI : '(' ∉ 'I' :: operation := by simpa using hoperation
  have hcall := (takeWhile_append_cons hI (arguments ++ ')' :: [';'])).2
  rw [List.cons_append] at hcall
  rw [ofCall?, hcall, List.drop_succ_cons, List.drop_zero, List.drop_succ_cons, List.drop_zero,
    (takeWhile_append_cons hoperation _).1, (takeWhile_append_cons harguments _).1]

/-- The line of a call, without a newline in it, is read as the instruction. -/
def ReadsC (i : Instruction) : Prop :=
  '\n' ∉ ("    " ++ i.call).toList ∧
    ∀ r : Rendered, readC ("    " ++ i.call).toList r = some ⟨i :: r.instructions, r.blocks⟩

/-- A call with an operation and arguments that give the instruction. -/
theorem ReadsC.of_call {i : Instruction} (operation arguments : String)
    (hcall : i.call = "I" ++ operation ++ "(" ++ arguments ++ ");") (hoperation : IsItem operation)
    (hspaced : IsSpaced arguments.toList) (harguments : ')' ∉ arguments.toList)
    (hi : Instruction.ofOperation? operation (fields ',' arguments.toList) = some i) :
    ReadsC i := by
  have htext : i.call.toList =
      'I' :: (operation.toList ++ '(' :: (arguments.toList ++ ')' :: [';'])) := by
    simp [hcall]
  have hline : ("    " ++ i.call).toList = List.replicate 4 ' ' ++ i.call.toList :=
    String.toList_append
  have hindent : indent ("    " ++ i.call).toList = (4, i.call.toList) := by
    rw [hline]
    exact indent_eq ⟨'I', _, htext, by decide⟩ 4
  refine ⟨?_, fun r => ?_⟩
  · rw [hline, htext]
    refine ((isSpaced_replicate 4).append ?_).not_mem_newline
    have hletter : IsSpaced ['I'] := by decide
    have hopen : IsSpaced ['('] := by decide
    have hclose : IsSpaced [')', ';'] := by decide
    exact hletter.append (hoperation.isSpaced.append (hopen.append (hspaced.append hclose)))
  · rw [readC, hindent]
    have hparts := Instruction.ofCall?_eq (hoperation.not_mem (by decide)) harguments
    rw [String.ofList_toList, hi] at hparts
    simp only [htext, hparts, Option.map_some]

/-- A call with one argument that is an item. -/
theorem ReadsC.of_argument {i : Instruction} (operation argument : String)
    (hcall : i.call = "I" ++ operation ++ "(" ++ argument ++ ");") (hoperation : IsItem operation)
    (h : IsItem argument) (hi : Instruction.ofOperation? operation [argument] = some i) :
    ReadsC i := by
  refine .of_call operation argument hcall hoperation h.isSpaced (h.not_mem (by decide)) ?_
  rw [fields_item h (by decide)]
  exact hi

/-- A call by the name of an operation with one argument that is an item. -/
theorem ReadsC.of_opcode {i : Instruction} (argument : String)
    (hcall : i.call = "I" ++ i.opcode ++ "(" ++ argument ++ ");") (h : IsItem argument)
    (hi : Instruction.ofOperation? i.opcode [argument] = some i) : ReadsC i :=
  .of_argument i.opcode argument hcall (.opcode i) h hi

/-- **The line of a call is read as the instruction.** -/
theorem Instruction.HasWordLabels.readsC : ∀ {i : Instruction}, i.HasWordLabels → ReadsC i
  | .halt, _ => .of_call "halt" "" rfl (.opcode .halt) (fun _ h => nomatch h) List.not_mem_nil rfl
  | .apply, _ =>
    .of_call "apply" "" rfl (.opcode .apply) (fun _ h => nomatch h) List.not_mem_nil rfl
  | .leave, _ =>
    .of_call "return" "" rfl (.opcode .leave) (fun _ h => nomatch h) List.not_mem_nil rfl
  | .pop n, _ =>
    .of_opcode (toString n) rfl (.nat n)
      (congrArg (some ∘ Instruction.pop) (unsignedDecimal_toString n))
  | .access n, _ =>
    .of_opcode (toString n) rfl (.nat n)
      (congrArg (some ∘ Instruction.access) (unsignedDecimal_toString n))
  | .focus n, _ =>
    .of_opcode (toString n) rfl (.nat n)
      (congrArg (some ∘ Instruction.focus) (unsignedDecimal_toString n))
  | .const n, _ => .of_argument "constint" (toString n) rfl (by decide) (.int n)
    (congrArg (some ∘ Instruction.const) (signedDecimal_toString n))
  | .closure block, h =>
    .of_opcode (functionName block) rfl (h block (.head _)).isItem.functionName
      (congrArg (some ∘ Instruction.closure) (blockOf_functionName block))
  | .closures blocks, h => by
    have hitems : ∀ f ∈ blocks.map functionName, IsItem f := by
      intro f hf
      obtain ⟨l, hl, rfl⟩ := List.mem_map.1 hf
      exact (h l hl).isItem.functionName
    have hcomma : IsSpaced ", ".toList := by decide
    refine .of_call "closures" (", ".intercalate (blocks.map functionName)) rfl
      (.opcode (.closures blocks)) (isSpaced_intercalate hcomma hitems) (fun hc => ?_) ?_
    · rcases mem_intercalate hc with hc | ⟨f, hf, hc⟩
      · exact absurd hc (by decide)
      · exact (hitems f hf).not_mem (by decide) hc
    · rw [show (", " : String) = String.ofList (',' :: List.replicate 1 ' ') from rfl,
        fields_intercalate (by decide) 1 _ hitems]
      exact congrArg (some ∘ Instruction.closures) (map_blockOf_functionName blocks)
  | .builtin b, _ => .of_opcode b.text rfl (.builtin b)
    (congrArg (Option.map Instruction.builtin) (Builtin.ofText?_text b))
  | .binary o, _ => .of_opcode o.text rfl (IsItem.binary o).1
    (congrArg (Option.map Instruction.binary) (BinaryOperator.ofText?_text o))
  | .unary o, _ => .of_opcode o.text rfl (IsItem.unary o).1
    (congrArg (Option.map Instruction.unary) (UnaryOperator.ofText?_text o))
  | .branch .br target, h =>
    .of_argument "br" target rfl (by decide) (h target (.head _)).isItem rfl
  | .branch .brfl target, h => by
    have htarget := (h target (.head _)).isItem
    have htest : IsSpaced "0 ==".toList := by decide
    have harguments : ("0 ==, " ++ target).toList =
        "0 ==".toList ++ ',' :: ' ' :: target.toList := String.toList_append
    refine .of_call "br1" ("0 ==, " ++ target) ?_ (by decide) ?_ ?_ ?_
    · simp only [Instruction.call, String.append_assoc]
      rfl
    · rw [harguments]
      exact htest.append (IsSpaced.append (by decide : IsSpaced [',', ' ']) htarget.isSpaced)
    · rw [harguments]
      intro hc
      rcases List.mem_append.1 hc with hc | hc
      · exact absurd hc (by decide)
      · exact htarget.not_mem (c := ')') (by decide) (by simpa using hc)
    · rw [harguments, fields_append_separator, fields_blank, fields_item htarget (by decide)]
      rfl
  | .label l, h => .of_opcode l rfl (h l (.head _)).isItem rfl

/-- The head of a function with what stands behind it on its line, taken apart. -/
theorem toList_functionHead_append (b : Block) (rest : String) :
    (b.functionHead ++ rest).toList =
      "void secd_".toList ++ (b.label.toList ++ '(' :: ("void)".toList ++ rest.toList)) := by
  simp [Block.functionHead, functionName]

theorem Block.HasWordLabels.isSpaced_functionHead {b : Block} (h : b.HasWordLabels)
    (rest : String) (hrest : IsSpaced rest.toList) :
    IsSpaced (b.functionHead ++ rest).toList := by
  have hvoid : IsSpaced "void secd_".toList := by decide
  have hopen : IsSpaced ['('] := by decide
  have hclose : IsSpaced "void)".toList := by decide
  rw [toList_functionHead_append]
  exact hvoid.append (h.label.isItem.isSpaced.append (hopen.append (hclose.append hrest)))

theorem indent_functionHead (b : Block) (rest : String) :
    indent (b.functionHead ++ rest).toList = (0, (b.functionHead ++ rest).toList) :=
  indent_eq ⟨'v', _, toList_functionHead_append b rest, by decide⟩ 0

/-- The declaration of a function adds nothing. -/
theorem readC_declaration (b : Block) (r : Rendered) :
    readC (b.functionHead ++ ";").toList r = some r := by
  have hlast : (b.functionHead ++ ";").toList.getLast? = some ';' := by simp
  rw [readC, indent_functionHead]
  simp only [hlast]
  rfl

/-- The head of the definition of a function takes the calls behind it. -/
theorem readC_definition {b : Block} (h : b.HasWordLabels) (r : Rendered) :
    readC (b.functionHead ++ " \x7b").toList r =
      some ⟨[], ⟨b.label, r.instructions⟩ :: r.blocks⟩ := by
  have hlast : (b.functionHead ++ " \x7b").toList.getLast? = some '\x7b' := by simp
  have hlabel : ((b.functionHead ++ " \x7b").toList.drop 10).takeWhile (· != '(') =
      b.label.toList := by
    rw [toList_functionHead_append]
    exact (takeWhile_append_cons (h.label.isItem.not_mem (by decide)) _).1
  rw [readC, indent_functionHead]
  simp only [hlast, hlabel, if_true, String.ofList_toList]

theorem Block.HasWordLabels.readLines_cFunction {b : Block} (h : b.HasWordLabels)
    {text : List Char} {behind : List Block}
    (htext : readLines readC text = some ⟨[], behind⟩) :
    readLines readC (b.cFunction.toList ++ text) = some ⟨[], b :: behind⟩ := by
  have hb : b.cFunction.toList ++ text = (b.functionHead ++ " \x7b").toList ++
      '\n' :: ((b.instructions.flatMap fun i => ("    " ++ i.call).toList ++ ['\n']) ++
        (['\x7d'] ++ '\n' :: text)) := by
    simp [Block.cFunction, List.flatMap_map]
  have hclosing : readLines readC (['\x7d'] ++ '\n' :: text) = some ⟨[], behind⟩ :=
    readLines_skip rfl (by decide) htext
  have hhead := (h.isSpaced_functionHead " \x7b" (by decide)).not_mem_newline
  rw [hb, readLines_line hhead,
    readLines_instructions (fun i hi => (h.instructions i hi).readsC.1)
      (fun i hi => (h.instructions i hi).readsC.2) hclosing]
  simpa using readC_definition h ⟨b.instructions, behind⟩

/-- The declarations in front of a text add nothing to it. -/
theorem readLines_declarations {text : List Char} {r : Rendered}
    (htext : readLines readC text = some r) : ∀ {blocks : List Block},
      (∀ b ∈ blocks, b.HasWordLabels) →
      readLines readC (("\n".intercalate (blocks.map fun b => b.functionHead ++ ";")).toList ++
        '\n' :: text) = some r
  | [], _ => readLines_skip rfl List.not_mem_nil htext
  | [b], h => by
    have hline := ((h b List.mem_cons_self).isSpaced_functionHead ";" (by decide)).not_mem_newline
    have hjoin : "\n".intercalate [b.functionHead ++ ";"] = b.functionHead ++ ";" := by
      rw [← String.toList_inj, String.toList_intercalate]
      simp
    rw [List.map_singleton, hjoin]
    exact readLines_skip (readC_declaration b r) hline htext
  | b :: c :: blocks, h => by
    have hline := ((h b List.mem_cons_self).isSpaced_functionHead ";" (by decide)).not_mem_newline
    have hrest := readLines_declarations htext fun d hd => h d (List.mem_cons_of_mem b hd)
    rw [List.map_cons, List.map_cons, String.intercalate_cons_cons, String.toList_append,
      String.toList_append, List.append_assoc, List.append_assoc]
    exact readLines_skip (readC_declaration b r) hline hrest

/-- The line that includes the header adds nothing. -/
theorem readC_include (r : Rendered) : readC "#include \"secd.h\"".toList r = some r := by
  have hline : indent "#include \"secd.h\"".toList = (0, "#include \"secd.h\"".toList) := by
    decide
  have hlast : "#include \"secd.h\"".toList.getLast? ≠ some '\x7b' := by decide
  rw [readC, hline]
  simp only [hlast, if_false]

/-- **C source is decoded to the program that it was made from.** -/
theorem Program.ofCSource?_cSource {p : Program} (h : p.HasWordLabels) :
    Program.ofCSource? p.cSource = some p := by
  have hfunctions : readLines readC ("\n".intercalate (p.blocks.map Block.cFunction)).toList =
      some ⟨[], p.blocks⟩ := readLines_blocks readC_nil fun b hb => (h b hb).readLines_cFunction
  have hdeclarations := readLines_declarations (readLines_skip rfl List.not_mem_nil hfunctions) h
  have htext : ∀ declared defined : String,
      ("#include \"secd.h\"\n\n" ++ declared ++ "\n\n" ++ defined).toList =
        "#include \"secd.h\"".toList ++ '\n' :: ([] ++ '\n' ::
          (declared.toList ++ '\n' :: ([] ++ '\n' :: defined.toList))) := by
    intro declared defined
    simp
  have hinclude : '\n' ∉ "#include \"secd.h\"".toList := by decide
  have hread : readLines readC p.cSource.toList = some ⟨[], p.blocks⟩ := by
    unfold cSource
    refine (congrArg (readLines readC) (htext _ _)).trans ?_
    exact readLines_skip (readC_include _) hinclude
      (readLines_skip (readC_nil _) List.not_mem_nil hdeclarations)
  rw [ofCSource?, ofLines?, hread]

/-! ## 4. Both renderings -/

/-- **Each rendering of a program determines it**, when its labels are words: there is a decoder for
    listings and one for C source, which give the program back from its renderings and so agree on
    them; and programs with the same listing, or with the same C source, are the same. -/
theorem Program.renderings_determine {p q : Program} (hp : p.HasWordLabels)
    (hq : q.HasWordLabels) :
    (Program.ofListing? p.listing = some p ∧ Program.ofCSource? p.cSource = some p) ∧
      (p.listing = q.listing → p = q) ∧ (p.cSource = q.cSource → p = q) := by
  refine ⟨⟨ofListing?_listing hp, ofCSource?_cSource hp⟩, fun h => ?_, fun h => ?_⟩
  · have hlisting := ofListing?_listing hp
    rw [h, ofListing?_listing hq] at hlisting
    exact (Option.some.inj hlisting).symm
  · have hsource := ofCSource?_cSource hp
    rw [h, ofCSource?_cSource hq] at hsource
    exact (Option.some.inj hsource).symm

/-- A program with an empty group of closures, a group of two, a negative number, both operations
    that are written as a minus sign, and a branch. -/
def branchingProgram : Program :=
  ⟨[⟨"main", [.closures [], .closures ["lam_0", "lam_1"], .const (-3), .unary .negate,
      .branch .brfl "else0", .label "else0", .halt]⟩,
    ⟨"lam_0", [.access 1, .pop 2, .binary .subtract, .builtin .print, .branch .br "end", .leave]⟩,
    ⟨"lam_1", []⟩]⟩

theorem renderings_determine_branchingProgram : branchingProgram.HasWordLabels ∧
    Program.ofListing? branchingProgram.listing = some branchingProgram ∧
      Program.ofCSource? branchingProgram.cSource = some branchingProgram := by
  have h : branchingProgram.HasWordLabels := by decide
  exact ⟨h, (Program.renderings_determine h h).1⟩

end ClosureML
