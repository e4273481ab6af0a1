import ClosureML.Proofs.ErrorPositions
import ClosureML.Proofs.Tokens.Lexemes
import Mathlib.Data.List.Pairwise
import Mathlib.Data.List.TakeWhile

/-!
# The cut of a text

Every text falls into pieces in one way: characters of spacing, comments, tokens, each the longest
that stands there, and stray characters, with which no token begins. The tokens of a source are
those pieces that are tokens; there is an error when one of the pieces is a stray character, and it
lies at the first of them.

* `Piece`, `Piece.Stands`: a piece of a text, and where it stands;
* `CutInto`: the pieces of a text;
* `piecesFrom`: pieces with the cursors before them;
* `Source.IsGap`: spacing or a comment between two offsets;
* `Source.IsPartitioned`: tokens with nothing but gaps between them.

Main statements: `exists_cutInto` and `CutInto.unique`, `CutInto.scan_eq` (what the cut of a text
gives, said by its pieces), and `Source.tokens_partition`.
-/

namespace ClosureML

/-! ## 1. Pieces -/

/-- A piece of a text. -/
inductive Piece where
  | spacing (c : Char)
  | comment (body : List Char)
  | token (kind : TokenKind) (cs : List Char)
  | stray (c : Char)
  deriving DecidableEq

namespace Piece

/-- The characters of a piece. -/
def text : Piece → List Char
  | spacing c => [c]
  | comment body => '/' :: '/' :: body
  | token _ cs => cs
  | stray c => [c]

/-- The piece stands in front of `rest`: a comment runs to the end of the line or of the text, a
    token is the longest one there and begins no comment, and with a stray character, which is no
    spacing, no token begins. -/
def Stands (rest : List Char) : Piece → Prop
  | spacing c => isSpacing c = true
  | comment body => '\n' ∉ body ∧ ∀ c ∈ rest.head?, c = '\n'
  | token kind cs => IsLongest kind cs rest ∧ ¬ ['/', '/'] <+: cs ++ rest
  | stray c => isSpacing c = false ∧
      (isAscii c = false ∨ ∀ kind cs, cs <+: rest → ¬ IsLexeme kind (c :: cs))

/-- Is it a stray character? -/
def isStray : Piece → Bool
  | stray _ => true
  | _ => false

end Piece

/-- The text that pieces make up. -/
def piecesText (ps : List Piece) : List Char := ps.flatMap Piece.text

/-- The text is cut into the pieces. -/
def CutInto (cs : List Char) : List Piece → Prop
  | [] => cs = []
  | p :: ps => ∃ rest, cs = p.text ++ rest ∧ p.Stands rest ∧ CutInto rest ps

section Pieces

variable {c : Char} {cs rest : List Char} {kind : TokenKind} {p : Piece} {ps : List Piece}

theorem startsComment_iff : startsComment c rest = true ↔ ['/', '/'] <+: c :: rest := by
  cases rest with
  | nil => simp [startsComment]
  | cons d rest => simp [startsComment, eq_comm (a := '/')]

/-- No token begins like a comment. -/
theorem IsLexeme.not_comment : ¬ IsLexeme kind ('/' :: '/' :: cs) := by
  intro h
  rcases signText_cases (h.of_other rfl rfl) with ⟨hnil, -⟩ | ⟨d, hd, hsign⟩
  · cases hnil
  · cases hd
    cases hsign

theorem isLexeme_slash : IsLexeme .slash ['/'] :=
  .sign (show TokenKind.slash.signText ≠ "" by decide)

theorem Piece.Stands.text_ne_nil (h : p.Stands rest) : p.text ≠ [] := by
  cases p with
  | token kind cs => exact h.1.lexeme.ne_nil
  | _ => exact List.cons_ne_nil _ _

/-- What is in front of a line feed, or of the end. -/
theorem takeWhile_line {body : List Char} (hbody : '\n' ∉ body)
    (hrest : ∀ c ∈ rest.head?, c = '\n') :
    (body ++ rest).takeWhile (· ≠ '\n') = body := by
  have hall : ∀ c ∈ body, decide (c ≠ '\n') = true := fun c hc =>
    decide_eq_true fun heq => hbody (heq ▸ hc)
  rw [List.takeWhile_append_of_pos hall]
  cases rest with
  | nil => exact List.append_nil body
  | cons c rest =>
    rw [hrest c rfl, List.takeWhile_cons_of_neg (by simp), List.append_nil]

/-- The piece that stands in front of a text is told by how it is read. -/
theorem Piece.Stands.read (h : p.Stands rest) (htext : p.text ++ rest = c :: cs) :
    match p with
    | spacing d => d = c ∧ isSpacing c = true
    | comment body => isSpacing c = false ∧ startsComment c cs = true ∧
        cs.takeWhile (· ≠ '\n') = '/' :: body
    | token kind ds => isSpacing c = false ∧ startsComment c cs = false ∧ isAscii c = true ∧
        ∃ more, ds = c :: more ∧ cs = more ++ rest ∧ lexeme? c cs = some (kind, more.length)
    | stray d => d = c ∧ isSpacing c = false ∧ startsComment c cs = false ∧
        (isAscii c = false ∨ lexeme? c cs = none) := by
  cases p with
  | spacing d =>
    obtain ⟨rfl, -⟩ := List.cons.inj htext
    exact ⟨rfl, h⟩
  | comment body =>
    obtain ⟨rfl, rfl⟩ : '/' = c ∧ '/' :: (body ++ rest) = cs := List.cons.inj htext
    refine ⟨rfl, rfl, ?_⟩
    rw [List.takeWhile_cons_of_pos (by decide), takeWhile_line h.1 h.2]
  | token kind ds =>
    obtain ⟨hlongest, hcomment⟩ := h
    obtain ⟨d, more, rfl⟩ := List.exists_cons_of_ne_nil hlongest.lexeme.ne_nil
    obtain ⟨rfl, rfl⟩ := List.cons.inj htext
    obtain ⟨hascii, hspacing⟩ := hlongest.lexeme.plain d List.mem_cons_self
    have hno : startsComment d (more ++ rest) = false :=
      Bool.eq_false_iff.2 fun h => hcomment (startsComment_iff.1 h)
    exact ⟨hspacing, hno, hascii, more, rfl, rfl, lexeme?_eq_some_iff.2 hlongest⟩
  | stray d =>
    obtain ⟨rfl, rfl⟩ := List.cons.inj htext
    obtain ⟨hspacing, hstray⟩ := h
    refine ⟨rfl, hspacing, Bool.eq_false_iff.2 fun hcomment => ?_,
      hstray.imp_right lexeme?_eq_none_iff.2⟩
    obtain ⟨more, hmore⟩ := startsComment_iff.1 hcomment
    obtain ⟨rfl, -⟩ := List.cons.inj hmore
    rcases hstray with hascii | hnone
    · cases hascii
    · exact hnone _ [] List.nil_prefix isLexeme_slash

/-- **In front of a text stands one piece** at most. -/
theorem Piece.Stands.unique {q : Piece} {rest' : List Char} (hp : p.Stands rest)
    (hq : q.Stands rest') (h : p.text ++ rest = q.text ++ rest') : p = q ∧ rest = rest' := by
  have hsame : p = q := by
    obtain ⟨c, cs, htext⟩ : ∃ c cs, p.text ++ rest = c :: cs :=
      List.exists_cons_of_ne_nil (List.append_ne_nil_of_left_ne_nil hp.text_ne_nil rest)
    have hp := hp.read htext
    have hq := hq.read (h.symm.trans htext)
    cases p with
    | token kind ds =>
      obtain ⟨hspacing, hcomment, hascii, more, rfl, hmore, hlexeme⟩ := hp
      cases q with
      | token kind' ds' =>
        obtain ⟨-, -, -, more', rfl, hmore', hlexeme'⟩ := hq
        obtain ⟨rfl, hlength⟩ := Prod.mk.inj (Option.some.inj (hlexeme.symm.trans hlexeme'))
        rw [(List.append_inj (hmore.symm.trans hmore') hlength).1]
      | _ => simp_all
    | _ => cases q <;> simp_all
  subst hsame
  exact ⟨rfl, List.append_cancel_left h⟩

/-- **A text is cut into pieces in one way** at most. -/
theorem CutInto.unique {ps' : List Piece} (h : CutInto cs ps) (h' : CutInto cs ps') : ps = ps' := by
  induction ps generalizing cs ps' with
  | nil =>
    cases ps' with
    | nil => rfl
    | cons q ps' =>
      obtain ⟨rest, hrest, hq, -⟩ := h'
      rw [h] at hrest
      exact absurd (List.append_eq_nil_iff.1 hrest.symm).1 hq.text_ne_nil
  | cons p ps ih =>
    obtain ⟨rest, rfl, hp, hmore⟩ := h
    cases ps' with
    | nil => exact absurd (List.append_eq_nil_iff.1 h').1 hp.text_ne_nil
    | cons q ps' =>
      obtain ⟨rest', heq, hq, hmore'⟩ := h'
      obtain ⟨rfl, rfl⟩ := hp.unique hq heq
      rw [ih hmore hmore']

/-- In front of a text that is not empty stands a piece. -/
theorem exists_stands (c : Char) (rest : List Char) :
    ∃ (p : Piece) (rest' : List Char), c :: rest = p.text ++ rest' ∧ p.Stands rest' := by
  by_cases hspacing : isSpacing c = true
  · exact ⟨.spacing c, rest, rfl, hspacing⟩
  by_cases hcomment : ['/', '/'] <+: c :: rest
  · obtain ⟨more, hmore⟩ := hcomment
    refine ⟨.comment (more.takeWhile (· ≠ '\n')), more.dropWhile (· ≠ '\n'), ?_, ?_, ?_⟩
    · rw [← hmore]
      exact congrArg ('/' :: '/' :: ·) List.takeWhile_append_dropWhile.symm
    · intro hmem
      simpa using List.all_eq_true.1 List.all_takeWhile _ hmem
    · intro d hd
      have hhead := List.head?_dropWhile_not (· ≠ '\n') more
      rw [Option.mem_def.1 hd] at hhead
      simpa using hhead
  match hlexeme : lexeme? c rest with
  | none =>
    exact ⟨.stray c, rest, rfl, by simpa using hspacing, .inr (lexeme?_eq_none_iff.1 hlexeme)⟩
  | some (kind, n) =>
    obtain ⟨cs, rest, rfl, -, hlongest⟩ := exists_of_lexeme? hlexeme
    exact ⟨.token kind (c :: cs), rest, rfl, hlongest, hcomment⟩

/-- **Every text is cut into pieces.** -/
theorem exists_cutInto : ∀ cs : List Char, ∃ ps, CutInto cs ps
  | [] => ⟨[], rfl⟩
  | c :: rest => by
    obtain ⟨p, rest', hrest, hp⟩ := exists_stands c rest
    have hshorter : rest'.length < (c :: rest).length := by
      rw [hrest, List.length_append]
      have := List.length_pos_iff.2 hp.text_ne_nil
      omega
    obtain ⟨ps, hps⟩ := exists_cutInto rest'
    exact ⟨p :: ps, rest', hrest, hp, hps⟩
termination_by cs => cs.length
decreasing_by exact hshorter

end Pieces

/-! ## 2. Pieces in their places -/

/-- Pieces with the cursors before them. -/
def piecesFrom (k : Cursor) : List Piece → List (Cursor × Piece)
  | [] => []
  | p :: ps => (k, p) :: piecesFrom (k.run p.text) ps

namespace Piece

/-- The token that a piece is. -/
def token? : Cursor × Piece → Option Token
  | (k, token kind cs) => some (.over k kind cs)
  | _ => none

/-- The error at a stray character. -/
def error? : Cursor × Piece → Option CompileError
  | (k, stray c) =>
    some ⟨if isAscii c then .strayCharacter c else .nonAsciiCharacter c, k.position⟩
  | _ => none

end Piece

section Places

variable {cs : List Char} {k : Cursor} {x : Cursor × Piece} {ps : List Piece}

/-- **What the cut of a text gives**: the tokens in front of the first stray character, and the
    error there. -/
theorem CutInto.scan_eq (h : CutInto cs ps) (k : Cursor) :
    scan k cs = ⟨((piecesFrom k ps).takeWhile fun x => !x.2.isStray).filterMap Piece.token?,
      (piecesFrom k ps).findSome? Piece.error?⟩ := by
  induction ps generalizing cs k with
  | nil =>
    obtain rfl : cs = [] := h
    exact scan_nil k
  | cons p ps ih =>
    obtain ⟨rest, htext, hp, hmore⟩ := h
    obtain ⟨c, cs, rfl⟩ : ∃ c cs', cs = c :: cs' := List.exists_cons_of_ne_nil
      (htext ▸ List.append_ne_nil_of_left_ne_nil hp.text_ne_nil rest)
    have hread := hp.read htext.symm
    rw [scan_cons]
    cases p with
    | spacing d =>
      obtain ⟨rfl, hspacing⟩ := hread
      obtain ⟨-, rfl⟩ := List.cons.inj htext
      rw [if_pos hspacing, ih hmore]
      rfl
    | comment body =>
      obtain ⟨hspacing, hcomment, hline⟩ := hread
      obtain ⟨rfl, rfl⟩ : c = '/' ∧ cs = '/' :: (body ++ rest) := List.cons.inj htext
      have hdrop : ('/' :: (body ++ rest)).drop ('/' :: body).length = rest := by simp
      rw [if_neg (by simp [hspacing]), if_pos hcomment, hline, hdrop, ih hmore]
      rfl
    | token kind ds =>
      obtain ⟨hspacing, hcomment, hascii, more, rfl, rfl, hlexeme⟩ := hread
      rw [if_neg (by simp [hspacing]), if_neg (by simp [hcomment]), if_neg (by simp [hascii]),
        hlexeme]
      dsimp only
      rw [List.take_left, List.drop_left, ih hmore]
      rfl
    | stray d =>
      obtain ⟨rfl, hspacing, hcomment, hstray⟩ := hread
      rw [if_neg (by simp [hspacing]), if_neg (by simp [hcomment])]
      cases hascii : isAscii d with
      | false => simp [piecesFrom, Piece.isStray, Piece.error?, hascii]
      | true =>
        have hnone := hstray.resolve_left (by simp [hascii])
        simp [piecesFrom, Piece.isStray, Piece.error?, hascii, hnone]

theorem map_snd_piecesFrom (k : Cursor) (ps : List Piece) :
    (piecesFrom k ps).map Prod.snd = ps := by
  induction ps generalizing k with
  | nil => rfl
  | cons p ps ih => rw [piecesFrom, List.map_cons, ih]

theorem piecesFrom_append (k : Cursor) (ps qs : List Piece) :
    piecesFrom k (ps ++ qs) = piecesFrom k ps ++ piecesFrom (k.run (piecesText ps)) qs := by
  induction ps generalizing k with
  | nil => rfl
  | cons p ps ih =>
    rw [List.cons_append, piecesFrom, ih, ← Cursor.run_append]
    rfl

/-- A piece stands at its place in the text. -/
theorem CutInto.of_mem_piecesFrom (h : CutInto cs ps) (hx : x ∈ piecesFrom k ps) :
    ∃ front back, cs = front ++ (x.2.text ++ back) ∧ x.1 = k.run front ∧ x.2.Stands back := by
  induction ps generalizing cs k with
  | nil => cases hx
  | cons p ps ih =>
    obtain ⟨rest, rfl, hp, hmore⟩ := h
    rcases List.mem_cons.1 hx with rfl | hx
    · exact ⟨[], rest, rfl, rfl, hp⟩
    · obtain ⟨front, back, rfl, hk, hstands⟩ := ih hmore hx
      refine ⟨p.text ++ front, back, ?_, ?_, hstands⟩
      · rw [List.append_assoc]
      · rw [hk, Cursor.run_append]

theorem le_offset_of_mem_piecesFrom (hx : x ∈ piecesFrom k ps) : k.offset ≤ x.1.offset := by
  induction ps generalizing k with
  | nil => cases hx
  | cons p ps ih =>
    rcases List.mem_cons.1 hx with rfl | hx
    · exact Nat.le_refl _
    · have := ih hx
      rw [Cursor.offset_run] at this
      omega

/-- Where a piece ends. -/
def pieceStop (x : Cursor × Piece) : Nat := x.1.offset + utf8Length x.2.text

/-- Pieces stand one behind the other. -/
theorem pairwise_piecesFrom (k : Cursor) (ps : List Piece) :
    (piecesFrom k ps).Pairwise fun x y => pieceStop x ≤ y.1.offset := by
  induction ps generalizing k with
  | nil => exact .nil
  | cons p ps ih =>
    refine .cons (fun y hy => ?_) (ih _)
    have := le_offset_of_mem_piecesFrom hy
    rwa [Cursor.offset_run] at this

/-- Different pieces have no byte in common. -/
theorem apart_of_mem_piecesFrom {y : Cursor × Piece} (hx : x ∈ piecesFrom k ps)
    (hy : y ∈ piecesFrom k ps) (hne : x ≠ y) :
    pieceStop x ≤ y.1.offset ∨ pieceStop y ≤ x.1.offset := by
  have hpairwise : (piecesFrom k ps).Pairwise fun x y =>
      pieceStop x ≤ y.1.offset ∨ pieceStop y ≤ x.1.offset := (pairwise_piecesFrom k ps).imp .inl
  have : Std.Symm fun x y : Cursor × Piece =>
      pieceStop x ≤ y.1.offset ∨ pieceStop y ≤ x.1.offset := ⟨fun _ _ => Or.symm⟩
  exact hpairwise.forall hx hy hne

/-- Every byte belongs to a piece. -/
theorem CutInto.exists_piecesFrom (h : CutInto cs ps) {b : Nat} (hle : k.offset ≤ b)
    (hlt : b < k.offset + utf8Length cs) :
    ∃ x ∈ piecesFrom k ps, x.1.offset ≤ b ∧ b < pieceStop x := by
  induction ps generalizing cs k with
  | nil =>
    obtain rfl : cs = [] := h
    rw [utf8Length_nil] at hlt
    omega
  | cons p ps ih =>
    obtain ⟨rest, rfl, -, hmore⟩ := h
    by_cases hb : b < k.offset + utf8Length p.text
    · exact ⟨(k, p), List.mem_cons_self, hle, hb⟩
    · obtain ⟨x, hx, hbyte⟩ := ih (k := k.run p.text) hmore
        (by rw [Cursor.offset_run]; omega)
        (by rw [Cursor.offset_run]; rw [utf8Length_append] at hlt; omega)
      exact ⟨x, List.mem_cons_of_mem _ hx, hbyte⟩

end Places

/-! ## 3. Tokens of a source -/

section Tokens

variable {s : Source} {ps : List Piece} {k : Cursor} {x : Cursor × Piece} {t : Token}

/-- A token and the piece that it is. -/
theorem Piece.token?_eq_some (h : Piece.token? x = some t) :
    x.2 = .token t.kind t.text.toList ∧ t.start = x.1.offset ∧ t.stop = pieceStop x ∧
      t.position = x.1.position := by
  obtain ⟨k, p⟩ := x
  cases p with
  | token kind cs =>
    cases h
    simp [Token.over, pieceStop, Piece.text]
  | _ => cases h

/-- **Every token stands at its place in the text**, and is the longest one there. -/
theorem CutInto.of_mem_tokens {cs : List Char} (h : CutInto cs ps)
    (ht : t ∈ (piecesFrom k ps).filterMap Piece.token?) :
    ∃ front back, cs = front ++ (t.text.toList ++ back) ∧
      IsLongest t.kind t.text.toList back ∧ t.start = (k.run front).offset ∧
      t.stop = t.start + utf8Length t.text.toList ∧ t.position = (k.run front).position := by
  obtain ⟨x, hx, hxt⟩ := List.mem_filterMap.1 ht
  obtain ⟨hpiece, hstart, hstop, hposition⟩ := Piece.token?_eq_some hxt
  obtain ⟨front, back, htext, hk, hstands⟩ := h.of_mem_piecesFrom hx
  rw [hpiece] at htext hstands
  rw [pieceStop, hpiece, ← hstart] at hstop
  exact ⟨front, back, htext, hstands.1, hk ▸ hstart, hstop, hk ▸ hposition⟩

/-- Tokens stand one behind the other. -/
theorem pairwise_tokens (k : Cursor) (ps : List Piece) :
    ((piecesFrom k ps).filterMap Piece.token?).Pairwise fun t u => t.stop ≤ u.start := by
  refine (pairwise_piecesFrom k ps).filterMap _ fun x y hxy t ht u hu => ?_
  rwa [(Piece.token?_eq_some ht).2.2.1, (Piece.token?_eq_some hu).2.1]

theorem utf8Length_pos {cs : List Char} (h : cs ≠ []) : 0 < utf8Length cs := by
  obtain ⟨c, cs, rfl⟩ := List.exists_cons_of_ne_nil h
  have := Char.utf8Size_pos c
  rw [utf8Length_cons]
  omega

theorem Source.slice?_of_eq {front cs back : List Char}
    (h : s.text.toList = front ++ (cs ++ back)) :
    s.slice? (utf8Length front) (utf8Length front + utf8Length cs) = some (String.ofList cs) := by
  rw [slice?, h, split?_utf8Length]
  simp [split?_utf8Length, guard]

/-- A token can be cut out in front of a blank. -/
theorem IsLexeme.isCut {w : Word} (h : IsLexeme w.kind w.text.toList) : w.IsCut := by
  obtain ⟨c, cs, htext⟩ := List.exists_cons_of_ne_nil h.ne_nil
  rw [htext] at h
  obtain ⟨hascii, hspacing⟩ := h.plain c List.mem_cons_self
  refine ⟨c, cs, htext, hspacing, hascii, fun rest hrest => ⟨?_, lexeme?_eq_some_iff.2 ⟨h, ?_⟩⟩⟩
  · refine Bool.eq_false_iff.2 fun hcomment => ?_
    obtain ⟨rfl, hhead⟩ : c = '/' ∧ (cs ++ rest).head? = some '/' := by
      simpa [startsComment] using hcomment
    cases cs with
    | nil => cases hrest '/' hhead
    | cons d cs =>
      obtain rfl : d = '/' := Option.some.inj hhead
      exact h.not_comment
  · intro kind more hne hmore hlexeme
    obtain ⟨d, more, rfl⟩ := List.exists_cons_of_ne_nil hne
    obtain ⟨after, rfl⟩ := hmore
    obtain rfl := hrest d rfl
    have := (hlexeme.plain ' ' (by simp)).2
    cases this

/-- A character of spacing, or a comment that runs to the end of its line, stands between two
    offsets. -/
inductive Source.IsGap (s : Source) : Nat → Nat → Prop where
  | spacing {front back : List Char} {c : Char} (htext : s.text.toList = front ++ c :: back)
      (hc : isSpacing c = true) : s.IsGap (utf8Length front) (utf8Length front + c.utf8Size)
  | comment {front body back : List Char}
      (htext : s.text.toList = front ++ '/' :: '/' :: (body ++ back)) (hbody : '\n' ∉ body)
      (hback : ∀ c ∈ back.head?, c = '\n') :
      s.IsGap (utf8Length front) (utf8Length front + utf8Length ('/' :: '/' :: body))

/-- Tokens partition a source: a token is the text between its two offsets, which is not empty; one
    stands behind the other; each byte that belongs to none of them belongs to a gap, which meets
    none of them; each is a token of its kind, and together with characters behind it no longer one;
    and with blanks between them the texts of the tokens are cut into the same tokens again. -/
structure Source.IsPartitioned (s : Source) (tokens : List Token) : Prop where
  span : ∀ t ∈ tokens, t.start < t.stop ∧ t.stop ≤ s.size ∧ s.slice? t.start t.stop = some t.text
  increasing : tokens.Pairwise fun t u => t.stop ≤ u.start
  between : ∀ b < s.size, (∃ t ∈ tokens, t.start ≤ b ∧ b < t.stop) ∨
    ∃ start stop, s.IsGap start stop ∧ start ≤ b ∧ b < stop ∧
      ∀ t ∈ tokens, t.stop ≤ start ∨ stop ≤ t.start
  longest : ∀ t ∈ tokens, ∃ front back, s.text.toList = front ++ (t.text.toList ++ back) ∧
    utf8Length front = t.start ∧ IsLongest t.kind t.text.toList back
  joined : ∃ again, (Source.ofText (wordsText (tokens.map Token.word))).tokens = .ok again ∧
    again.map Token.word = tokens.map Token.word

/-- A piece that is neither a token nor a stray character is a gap. -/
theorem Source.isGap_of_stands {front back : List Char} {p : Piece}
    (htext : s.text.toList = front ++ (p.text ++ back)) (hp : p.Stands back)
    (htoken : ∀ kind cs, p ≠ .token kind cs) (hstray : p.isStray = false) :
    s.IsGap (utf8Length front) (utf8Length front + utf8Length p.text) := by
  cases p with
  | spacing c => exact .spacing htext hp
  | comment body => exact .comment htext hp.1 hp.2
  | token kind cs => exact absurd rfl (htoken kind cs)
  | stray c => cases hstray

/-- **The pieces that are tokens partition a source** without stray characters. -/
theorem CutInto.isPartitioned (h : CutInto s.text.toList ps)
    (hstray : ∀ p ∈ ps, p.isStray = false) :
    s.IsPartitioned ((piecesFrom .start ps).filterMap Piece.token?) where
  span t ht := by
    obtain ⟨front, back, htext, hlongest, hstart, hstop, -⟩ := h.of_mem_tokens ht
    rw [Cursor.offset_run, Cursor.start, Nat.zero_add] at hstart
    have hpos := utf8Length_pos hlongest.lexeme.ne_nil
    have hsize : s.size = utf8Length front + (utf8Length t.text.toList + utf8Length back) := by
      rw [Source.size, htext, utf8Length_append, utf8Length_append]
    refine ⟨by omega, by omega, ?_⟩
    rw [hstop, hstart, Source.slice?_of_eq htext, String.ofList_toList]
  increasing := pairwise_tokens _ _
  between b hb := by
    obtain ⟨x, hx, hle, hlt⟩ := h.exists_piecesFrom (k := .start) (Nat.zero_le b)
      (by rw [Cursor.start, Nat.zero_add]; exact hb)
    obtain ⟨front, back, htext, hk, hstands⟩ := h.of_mem_piecesFrom hx
    by_cases htoken : ∃ t, Piece.token? x = some t
    · obtain ⟨t, ht⟩ := htoken
      obtain ⟨-, hstart, hstop, -⟩ := Piece.token?_eq_some ht
      exact .inl ⟨t, List.mem_filterMap.2 ⟨x, hx, ht⟩, hstart ▸ hle, hstop ▸ hlt⟩
    · have hoffset : x.1.offset = utf8Length front := by
        rw [hk, Cursor.offset_run, Cursor.start, Nat.zero_add]
      refine .inr ⟨x.1.offset, pieceStop x, ?_, hle, hlt, fun t ht => ?_⟩
      · rw [pieceStop, hoffset]
        refine Source.isGap_of_stands htext hstands (fun kind cs hpiece => htoken ?_) ?_
        · exact ⟨.over x.1 kind cs, congrArg (fun p => Piece.token? (x.1, p)) hpiece⟩
        · refine hstray _ ?_
          rw [← map_snd_piecesFrom .start ps]
          exact List.mem_map_of_mem hx
      · obtain ⟨y, hy, hyt⟩ := List.mem_filterMap.1 ht
        obtain ⟨-, hstart, hstop, -⟩ := Piece.token?_eq_some hyt
        rw [hstart, hstop]
        exact apart_of_mem_piecesFrom hy hx fun heq => htoken ⟨t, heq ▸ hyt⟩
  longest t ht := by
    obtain ⟨front, back, htext, hlongest, hstart, -⟩ := h.of_mem_tokens ht
    rw [Cursor.offset_run, Cursor.start, Nat.zero_add] at hstart
    exact ⟨front, back, htext, hstart.symm, hlongest⟩
  joined := by
    refine Source.tokens_wordsText fun w hw => ?_
    obtain ⟨t, ht, rfl⟩ := List.mem_map.1 hw
    obtain ⟨front, back, -, hlongest, -⟩ := h.of_mem_tokens ht
    exact IsLexeme.isCut (w := t.word) hlongest.lexeme

/-- Pieces make up the text that is cut into them. -/
theorem CutInto.text_eq {cs : List Char} (h : CutInto cs ps) : cs = piecesText ps := by
  induction ps generalizing cs with
  | nil => exact h
  | cons p ps ih =>
    obtain ⟨rest, rfl, -, hmore⟩ := h
    rw [piecesText, List.flatMap_cons, ih hmore, piecesText]

/-- **The tokens of a source are the pieces that are tokens**, unless there are stray characters:
    then there is an error at the first of them. -/
theorem CutInto.tokens_eq (h : CutInto s.text.toList ps) :
    (∀ p ∈ ps, p.isStray = false) ∧
        s.tokens = .ok ((piecesFrom .start ps).filterMap Piece.token?) ∨
      ∃ before c after, ps = before ++ .stray c :: after ∧ (∀ p ∈ before, p.isStray = false) ∧
        s.tokens = .error ⟨if isAscii c then .strayCharacter c else .nonAsciiCharacter c,
          (Cursor.start.run (piecesText before)).position⟩ := by
  have hscan := h.scan_eq .start
  have hnone : ∀ (k : Cursor) {qs : List Piece}, (∀ p ∈ qs, p.isStray = false) →
      (piecesFrom k qs).findSome? Piece.error? = none := by
    intro k qs hqs
    refine List.findSome?_eq_none_iff.2 fun x hx => ?_
    have hpiece := hqs x.2 (map_snd_piecesFrom k qs ▸ List.mem_map_of_mem hx)
    obtain ⟨j, p⟩ := x
    cases p with
    | stray c => cases hpiece
    | _ => rfl
  cases hfind : ps.find? Piece.isStray with
  | none =>
    have hstray : ∀ p ∈ ps, p.isStray = false := by simpa using List.find?_eq_none.1 hfind
    refine .inl ⟨hstray, ?_⟩
    have hall : ∀ x ∈ piecesFrom .start ps, (!x.2.isStray) = true := fun x hx => by
      rw [hstray x.2 (map_snd_piecesFrom .start ps ▸ List.mem_map_of_mem hx)]
      rfl
    rw [Source.tokens, Source.scan, hscan, hnone _ hstray, List.takeWhile_eq_self_iff.2 hall]
  | some p =>
    obtain ⟨hp, before, after, rfl, hbefore⟩ := List.find?_eq_some_iff_append.1 hfind
    cases p with
    | stray c =>
      have hbefore : ∀ p ∈ before, p.isStray = false := by simpa using hbefore
      refine .inr ⟨before, c, after, rfl, hbefore, ?_⟩
      rw [Source.tokens, Source.scan, hscan, piecesFrom_append, List.findSome?_append,
        hnone _ hbefore]
      rfl
    | _ => cases hp

end Tokens

/-- **Cutting partitions a source.** Every text is cut into pieces in one way. When there are
    tokens, they are the pieces that are tokens, and partition the source. There is an error if and
    only if one of the pieces is a stray character, and then the error is about the first of them,
    and lies there. -/
theorem Source.tokens_partition (s : Source) :
    ∃ ps, CutInto s.text.toList ps ∧ (∀ ps', CutInto s.text.toList ps' → ps' = ps) ∧
      (∀ tokens, s.tokens = .ok tokens → s.IsPartitioned tokens ∧
        tokens = (piecesFrom .start ps).filterMap Piece.token?) ∧
      ((∃ e, s.tokens = .error e) ↔ ∃ c, .stray c ∈ ps) ∧
      ∀ e, s.tokens = .error e → ∃ before c after, ps = before ++ .stray c :: after ∧
        (∀ d, .stray d ∉ before) ∧
        e.cause = (if isAscii c then .strayCharacter c else .nonAsciiCharacter c) ∧
        s.positionAt? (utf8Length (piecesText before)) = some e.position := by
  obtain ⟨ps, hps⟩ := exists_cutInto s.text.toList
  refine ⟨ps, hps, fun ps' h => h.unique hps, ?_⟩
  rcases hps.tokens_eq with ⟨hstray, htokens⟩ | ⟨before, c, after, rfl, hbefore, htokens⟩
  · refine ⟨fun tokens h => ?_, ⟨?_, ?_⟩, fun e h => ?_⟩
    · cases htokens.symm.trans h
      exact ⟨hps.isPartitioned hstray, rfl⟩
    · rintro ⟨e, h⟩
      cases htokens.symm.trans h
    · rintro ⟨c, hc⟩
      cases hstray _ hc
    · cases htokens.symm.trans h
  · refine ⟨fun tokens h => ?_, ⟨fun _ => ⟨c, by simp⟩, fun _ => ⟨_, htokens⟩⟩, fun e h => ?_⟩
    · cases htokens.symm.trans h
    · cases htokens.symm.trans h
      refine ⟨before, c, after, rfl, fun d hd => ?_, rfl, ?_⟩
      · cases hbefore _ hd
      · have htext := hps.text_eq
        rw [piecesText, List.flatMap_append] at htext
        have hposition := Source.positionAt?_offset_run htext
        rwa [Cursor.offset_run, Cursor.start, Nat.zero_add] at hposition

/-- Signs and comments that compete for their first character, and a comment that is not ASCII. -/
def crampedSigns : Source := .ofText "\\x->x/1//é\n<=-00"

set_option maxRecDepth 100000 in
theorem tokens_partition_crampedSigns : ∃ tokens, crampedSigns.tokens = .ok tokens ∧
    tokens.map Token.text = ["\\", "x", "->", "x", "/", "1", "<=", "-", "00"] ∧
      crampedSigns.IsPartitioned tokens := by
  have htexts : (do return (← crampedSigns.tokens).map Token.text) =
    Except.ok ["\\", "x", "->", "x", "/", "1", "<=", "-", "00"] := by decide +kernel
  obtain ⟨tokens, htokens, htexts⟩ := bind_ok_iff.1 htexts
  obtain ⟨ps, -, -, hpartition, -⟩ := crampedSigns.tokens_partition
  exact ⟨tokens, htokens, Except.ok.inj htexts, (hpartition tokens htokens).1⟩

end ClosureML
