import ClosureML.Proofs.Compilation
import ClosureML.Proofs.Names.ResolutionMirrors
import ClosureML.Proofs.Syntax.ParserMirrors
import ClosureML.Proofs.Types.InferenceMirrors

/-!
# Where errors point

An error of compilation points to the start of a token, to the first character that no token begins
with, or, when a phrase is missing there, to the end of the text. Positions come into a tree from
the tokens that it is read from. That no pass makes up a position is the case of two equal runs of
what is said about runs side by side: the positions that stand for themselves are those of tokens.

* `CutReaches`: how far a text is cut into tokens;
* `Source.RejectsAt`: the offset of the first character that begins no token;
* `Source.IsErrorPlace`: the offsets that an error may point to.

Main statement: `Source.compile_error_position`.
-/

namespace ClosureML

/-! ## 1. Cursors in a text -/

theorem Position.line_le_step (p : Position) (c : Char) : p.line ≤ (p.step c).line := by
  unfold step
  split
  · exact Nat.le_succ _
  · exact Nat.le_refl _

theorem Cursor.line_le_run (k : Cursor) (cs : List Char) :
    k.position.line ≤ (k.run cs).position.line := by
  induction cs generalizing k with
  | nil => exact Nat.le_refl _
  | cons c cs ih => exact Nat.le_trans (k.position.line_le_step c) (ih (k.step c))

/-- What stands in a text has no synthetic position. -/
theorem Cursor.position_run_ne (cs : List Char) : (start.run cs).position ≠ .synthetic := by
  intro h
  have hline : 1 ≤ (start.run cs).position.line := start.line_le_run cs
  rw [h] at hline
  exact absurd hline (by decide)

/-- The position of an offset is the one that a cursor has there. -/
theorem Source.positionAt?_offset_run {s : Source} {front back : List Char}
    (h : s.text.toList = front ++ back) :
    s.positionAt? (Cursor.start.run front).offset = some (Cursor.start.run front).position := by
  have hoffset : (Cursor.start.run front).offset = utf8Length front :=
    (Cursor.start.offset_run front).trans (Nat.zero_add _)
  have hle : utf8Length front ≤ s.size := by
    rw [size, h, utf8Length_append]
    exact Nat.le_add_right _ _
  rw [positionAt?, hoffset, Nat.min_eq_left hle, h, split?_utf8Length]
  rfl

/-- A position in a text is not synthetic. -/
theorem Source.positionAt?_ne {s : Source} {b : Nat} {p : Position} (h : s.positionAt? b = some p) :
    p ≠ .synthetic := by
  obtain ⟨⟨front, back⟩, -, rfl⟩ := Option.map_eq_some_iff.1 h
  exact Cursor.position_run_ne front

/-! ## 2. The cut of a text -/

/-- The cut of a text comes from a cursor and the text behind it to another cursor and what is left
    there, over spacing, comments and tokens. -/
inductive CutReaches : Cursor → List Char → Cursor → List Char → Prop where
  | here (k : Cursor) (cs : List Char) : CutReaches k cs k cs
  | spacing {k k' : Cursor} {c : Char} {rest back : List Char} (h : isSpacing c = true)
      (hmore : CutReaches (k.step c) rest k' back) : CutReaches k (c :: rest) k' back
  | comment {k k' : Cursor} {c : Char} {rest back : List Char} (h : startsComment c rest = true)
      (hmore : CutReaches ((k.step c).run (rest.takeWhile (· ≠ '\n')))
        (rest.drop (rest.takeWhile (· ≠ '\n')).length) k' back) : CutReaches k (c :: rest) k' back
  | token {k k' : Cursor} {c : Char} {rest back : List Char} {kind : TokenKind} {n : Nat}
      (hascii : isAscii c = true) (h : lexeme? c rest = some (kind, n))
      (hmore : CutReaches ((k.step c).run (rest.take n)) (rest.drop n) k' back) :
      CutReaches k (c :: rest) k' back

/-- Neither spacing nor a comment nor a token begins with a character. -/
structure IsRejected (c : Char) (rest : List Char) : Prop where
  spacing : isSpacing c = false
  comment : startsComment c rest = false
  token : isAscii c = false ∨ lexeme? c rest = none

/-- The first character that the cut of a source rejects begins at byte `b`. -/
def Source.RejectsAt (s : Source) (b : Nat) : Prop :=
  ∃ k c rest, CutReaches .start s.text.toList k (c :: rest) ∧ IsRejected c rest ∧ k.offset = b

/-- The cut walks over the text. -/
theorem CutReaches.run {k k' : Cursor} {cs back : List Char} (h : CutReaches k cs k' back) :
    ∃ front, cs = front ++ back ∧ k' = k.run front := by
  induction h with
  | here k cs => exact ⟨[], rfl, rfl⟩
  | @spacing k _ c rest _ _ _ ih =>
    obtain ⟨front, rfl, rfl⟩ := ih
    exact ⟨c :: front, rfl, rfl⟩
  | @comment k _ c rest _ _ _ ih =>
    obtain ⟨front, hback, rfl⟩ := ih
    have hcut := List.take_append_drop (rest.takeWhile (· ≠ '\n')).length rest
    rw [take_length_takeWhile] at hcut
    refine ⟨c :: (rest.takeWhile (· ≠ '\n') ++ front), ?_, ?_⟩
    · rw [List.cons_append, List.append_assoc, ← hback, hcut]
    · rw [Cursor.run_cons, Cursor.run_append]
  | @token k _ c rest _ kind n _ _ _ ih =>
    obtain ⟨front, hback, rfl⟩ := ih
    refine ⟨c :: (rest.take n ++ front), ?_, ?_⟩
    · rw [List.cons_append, List.append_assoc, ← hback, List.take_append_drop]
    · rw [Cursor.run_cons, Cursor.run_append]

/-- Where the cut of a source comes, the offset has the position of the cursor. -/
theorem CutReaches.positionAt? {s : Source} {k : Cursor} {back : List Char}
    (h : CutReaches .start s.text.toList k back) : s.positionAt? k.offset = some k.position := by
  obtain ⟨front, hfront, rfl⟩ := h.run
  exact Source.positionAt?_offset_run hfront

/-- The cut comes to the start of every token, at which there is no spacing. -/
theorem cutReaches_of_mem_tokens (k : Cursor) (cs : List Char) {t : Token}
    (ht : t ∈ (scan k cs).tokens) :
    ∃ k' c back, CutReaches k cs k' (c :: back) ∧ isSpacing c = false ∧
      t.start = k'.offset ∧ t.position = k'.position := by
  refine scan_induction (motive := fun k cs r => t ∈ r.tokens → ∃ k' c back,
    CutReaches k cs k' (c :: back) ∧ isSpacing c = false ∧ t.start = k'.offset ∧
      t.position = k'.position) ?nil ?spacing ?comment ?foreign ?stray ?token k cs ht
  case nil => exact fun _ ht => absurd ht List.not_mem_nil
  case spacing =>
    intro k c rest r h ih ht
    obtain ⟨k', d, back, hreaches, hstands⟩ := ih ht
    exact ⟨k', d, back, .spacing h hreaches, hstands⟩
  case comment =>
    intro k c rest r h ih ht
    obtain ⟨k', d, back, hreaches, hstands⟩ := ih ht
    exact ⟨k', d, back, .comment h hreaches, hstands⟩
  case foreign | stray => exact fun _ _ _ _ _ _ ht => absurd ht List.not_mem_nil
  case token =>
    intro k c rest kind n r hspacing hascii hsome ih ht
    rcases List.mem_cons.1 ht with rfl | ht
    · exact ⟨k, c, rest, .here k _, hspacing, rfl, rfl⟩
    · obtain ⟨k', d, back, hreaches, hstands⟩ := ih ht
      exact ⟨k', d, back, .token hascii hsome hreaches, hstands⟩

/-- What stops the cut is an error at a character that is rejected. -/
theorem cutReaches_of_stop (k : Cursor) (cs : List Char) {e : CompileError}
    (he : (scan k cs).stop = some e) :
    ∃ k' c rest, CutReaches k cs k' (c :: rest) ∧ IsRejected c rest ∧
      e.position = k'.position := by
  refine scan_induction (motive := fun k cs r => r.stop = some e → ∃ k' c rest,
    CutReaches k cs k' (c :: rest) ∧ IsRejected c rest ∧ e.position = k'.position) ?nil ?spacing
      ?comment ?foreign ?stray ?token k cs he
  case nil => exact nofun
  case spacing =>
    intro k c rest r h ih he
    obtain ⟨k', d, back, hreaches, hrejected⟩ := ih he
    exact ⟨k', d, back, .spacing h hreaches, hrejected⟩
  case comment =>
    intro k c rest r h ih he
    obtain ⟨k', d, back, hreaches, hrejected⟩ := ih he
    exact ⟨k', d, back, .comment h hreaches, hrejected⟩
  case foreign =>
    intro k c rest hspacing hcomment hascii he
    cases he
    exact ⟨k, c, rest, .here k _, ⟨hspacing, hcomment, .inl hascii⟩, rfl⟩
  case stray =>
    intro k c rest hspacing hcomment hnone he
    cases he
    exact ⟨k, c, rest, .here k _, ⟨hspacing, hcomment, .inr hnone⟩, rfl⟩
  case token =>
    intro k c rest kind n r _ hascii hsome ih he
    obtain ⟨k', d, back, hreaches, hrejected⟩ := ih he
    exact ⟨k', d, back, .token hascii hsome hreaches, hrejected⟩

/-- The position of a token is that of its start. -/
theorem Source.positionAt?_start {s : Source} {tokens : List Token} (h : s.tokens = .ok tokens)
    {t : Token} (ht : t ∈ tokens) : s.positionAt? t.start = some t.position := by
  rw [Source.tokens] at h
  split at h
  · cases h
    obtain ⟨k, c, back, hreaches, -, hstart, hposition⟩ := cutReaches_of_mem_tokens _ _ ht
    rw [hstart, hposition, hreaches.positionAt?]
  · cases h

/-- A text that is not cut into tokens has its error at the first character that is rejected. -/
theorem Source.rejectsAt_of_tokens_error {s : Source} {e : CompileError}
    (h : s.tokens = .error e) : ∃ b, s.RejectsAt b ∧ s.positionAt? b = some e.position := by
  rw [Source.tokens] at h
  split at h
  · cases h
  · next hstop =>
    cases h
    obtain ⟨k, c, rest, hreaches, hrejected, hposition⟩ := cutReaches_of_stop _ _ hstop
    exact ⟨k.offset, ⟨k, c, rest, hreaches, hrejected, rfl⟩, hposition ▸ hreaches.positionAt?⟩

/-! ## 3. Positions of tokens -/

section Tokens

variable {tokens : List Token} {s : Source} {e : CompileError}

/-- The positions of tokens stand for themselves, and no other position does. -/
def IsPositionOf (tokens : List Token) (p p' : Position) : Prop :=
  p = p' ∧ ∃ t ∈ tokens, p = t.position

theorem tokensMirror_self : Parser.TokensMirror (IsPositionOf tokens) tokens tokens :=
  List.forall₂_same.2 fun t ht => ⟨rfl, rfl, rfl, t, ht, rfl⟩

/-- A tree that is read has the positions of tokens. -/
theorem Source.mirrors_of_read {parsed : Node} (htokens : s.tokens = .ok tokens)
    (h : s.read = .ok parsed) : parsed.Mirrors Eq (IsPositionOf tokens) parsed := by
  rw [read_ok_iff, parse, htokens] at h
  exact (Parser.program_mirrors tokensMirror_self).of_ok h h

/-- Where the errors of a source may point: to the start of a token, to the first character that
    the cut rejects, and, when a phrase is missing there, to the end. -/
inductive Source.IsErrorPlace (s : Source) (e : CompileError) : Nat → Prop where
  | token {tokens : List Token} {t : Token} (htokens : s.tokens = .ok tokens) (ht : t ∈ tokens) :
      s.IsErrorPlace e t.start
  | rejected {b : Nat} (h : s.RejectsAt b) : s.IsErrorPlace e b
  | atEnd {expected : Expected} (h : e.cause = .unexpectedEnd expected) : s.IsErrorPlace e s.size

/-- An error at the position of a token. -/
theorem Source.isErrorPlace_of_mirrors (htokens : s.tokens = .ok tokens)
    (h : e.Mirrors (IsPositionOf tokens) e) :
    ∃ b, s.IsErrorPlace e b ∧ s.positionAt? b = some e.position := by
  obtain ⟨-, -, t, ht, hposition⟩ := h
  exact ⟨t.start, .token htokens ht, hposition ▸ positionAt?_start htokens ht⟩

/-- Errors of reading point into the text. -/
theorem Source.read_error_position (h : s.read = .error (.error e)) :
    ∃ b, s.IsErrorPlace e b ∧ s.positionAt? b = some e.position := by
  obtain ⟨_, he, h⟩ := orFail_error.1 h
  cases h
  cases htokens : s.tokens with
  | error =>
    rw [parse, htokens] at he
    cases he
    obtain ⟨b, hb, hposition⟩ := rejectsAt_of_tokens_error htokens
    exact ⟨b, .rejected hb, hposition⟩
  | ok tokens =>
    rw [parse, htokens] at he
    obtain ⟨-, ⟨-, t, ht, hposition⟩ | ⟨⟨expected, hcause⟩, hposition, -⟩⟩ :=
      (Parser.program_mirrors tokensMirror_self).of_error he he
    · exact ⟨t.start, .token htokens ht, hposition ▸ positionAt?_start htokens ht⟩
    · exact ⟨s.size, .atEnd hcause, hposition ▸ s.positionAt?_size⟩

/-- Errors up to unification point into the text. -/
theorem Source.typed_error_position (h : s.typed = .error (.error e)) :
    ∃ b, s.IsErrorPlace e b ∧ s.positionAt? b = some e.position := by
  rcases bind_error_iff.1 h with h | ⟨parsed, hread, h⟩
  · exact read_error_position h
  cases htokens : s.tokens with
  | error =>
    rw [read_ok_iff, parse, htokens] at hread
    cases hread
  | ok tokens =>
    refine isErrorPlace_of_mirrors htokens ?_
    have hnames := (mirrors_of_read htokens hread).resolveNames
    rcases bind_error_iff.1 h with h | ⟨named, hnamed, h⟩
    · obtain ⟨_, he, h⟩ := orFail_error.1 h
      cases h
      exact hnames.of_error he he
    have htypes := (hnames.of_ok (orFail_ok.1 hnamed) (orFail_ok.1 hnamed)).inferTypes
      Types.biUnique_eq
    rcases bind_error_iff.1 h with h | ⟨typing, htyping, h⟩
    · obtain ⟨_, he, h⟩ := orFail_error.1 h
      cases h
      exact htypes.of_error he he
    · obtain ⟨_, he, h⟩ := orFail_error.1 h
      cases h
      exact (htypes.of_ok (orFail_ok.1 htyping) (orFail_ok.1 htyping)).unify.of_error he he

/-- **Every error points into the text.** Wherever compilation is to stop, the position of its error
    is not synthetic, and is that of the start of a token, or of the first character that is
    rejected, or of the end when a phrase is missing there. -/
theorem Source.compile_error_position {ink : Ink} {stopBehind : Option Stage}
    {format : OutputFormat} (h : s.compile ink stopBehind format = .error (.error e)) :
    e.position ≠ .synthetic ∧ ∃ b, s.IsErrorPlace e b ∧ s.positionAt? b = some e.position := by
  obtain ⟨b, hb, hposition⟩ := typed_error_position (typed_error_of_compile h)
  exact ⟨positionAt?_ne hposition, b, hb, hposition⟩

end Tokens

/-- A function of integers that is applied to a truth value in the second line. -/
def misapplied : Source := .ofText "let f = \\n -> n + 1 in\n  f true"

/-- The equations of its types. -/
def misappliedEquations : List Constraint :=
  [⟨.var (.ofNat 0), .int, ⟨1, 15⟩⟩, ⟨.var (.ofNat 1), .int, ⟨1, 15⟩⟩,
    ⟨.function (.var (.ofNat 1)) .int, .function .bool (.var (.ofNat 2)), ⟨2, 3⟩⟩]

set_option maxRecDepth 100000 in
theorem compile_error_position_misapplied : ∃ e,
    misapplied.compile .plain none .listing = .error (.error e) ∧ e.position = ⟨2, 3⟩ ∧
      e.position ≠ .synthetic ∧
      ∃ b, misapplied.IsErrorPlace e b ∧ misapplied.positionAt? b = some e.position := by
  have hequations : (do
      let parsed ← misapplied.read
      let named ← orFail parsed.resolveNames
      return (← orFail named.inferTypes).constraints) = .ok misappliedEquations := by
    decide +kernel
  have hsolve : solve misappliedEquations = .error ⟨.mismatch .int .bool, ⟨2, 3⟩⟩ := by cbv
  obtain ⟨parsed, hread, hequations⟩ := bind_ok_iff.1 hequations
  obtain ⟨named, hnamed, hequations⟩ := bind_ok_iff.1 hequations
  obtain ⟨typing, htyping, hequations⟩ := bind_ok_iff.1 hequations
  have hunify : typing.unify = .error ⟨.mismatch .int .bool, ⟨2, 3⟩⟩ :=
    Typing.unify_error_iff.2 (Except.ok.inj hequations ▸ hsolve)
  have htyped : misapplied.typed = .error (.error ⟨.mismatch .int .bool, ⟨2, 3⟩⟩) :=
    bind_error_iff.2 (.inr ⟨parsed, hread, bind_error_iff.2 (.inr ⟨named, hnamed,
      bind_error_iff.2 (.inr ⟨typing, htyping, orFail_error.2 ⟨_, hunify, rfl⟩⟩)⟩)⟩)
  have h : misapplied.compile .plain none .listing =
      .error (.error ⟨.mismatch .int .bool, ⟨2, 3⟩⟩) := by
    rw [Source.compile_none, htyped]
    rfl
  exact ⟨_, h, rfl, Source.compile_error_position h⟩

end ClosureML
