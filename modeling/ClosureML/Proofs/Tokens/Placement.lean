import ClosureML.Proofs.SourceLines
import ClosureML.Proofs.Tokens.Partition

/-!
# Tokens stand where their positions say

The position of a token is found from the offset of its first byte, by counting the line feeds
before it and the bytes behind the last of them. A line is found by its number, in the text without
line ends. The two belong together: in the line with that number the token stands at that column.
Nothing is asked of the text, which can end its lines in different ways, and can hold empty lines
and comments.

* `Source.Locates`: a token stands in its line where a position says;
* `Source.before_of_lt`: offsets and positions are in the same order.

Main statement: `Source.tokens_located`.
-/

namespace ClosureML

/-! ## 1. Tokens in their lines -/

/-- What holds no spacing is a part of a line. -/
theorem restOfLine_append {cs : List Char} (h : ∀ c ∈ cs, isSpacing c = false) (rest : List Char) :
    restOfLine (cs ++ rest) = cs ++ restOfLine rest := by
  induction cs with
  | nil => rfl
  | cons c cs ih =>
    obtain ⟨hc, hcs⟩ := List.forall_mem_cons.1 h
    have hnewline : c ≠ '\n' := by
      rintro rfl
      cases hc
    have hreturn : c ≠ '\r' := by
      rintro rfl
      cases hc
    rw [List.cons_append, restOfLine_cons hnewline fun _ heq => absurd heq hreturn, ih hcs,
      List.cons_append]

/-- A token stands where a position says: the position is that of its first byte; it counts the line
    feeds before the token and the bytes of its line; and in the line with its number, the text of
    the token stands at its column. -/
structure Source.Locates (s : Source) (t : Token) (p : Position) : Prop where
  positionAt : s.positionAt? t.start = some p
  counted : ∃ front back, s.text.toList = front ++ back ∧ utf8Length front = t.start ∧
    p.line = front.count '\n' + 1 ∧ p.column = utf8Length (lastLine front) + 1
  inLine : ∃ line before after, s.line? p.line = some line ∧
    line.toList = before ++ (t.text.toList ++ after) ∧ utf8Length before = p.column - 1

section Located

variable {s : Source} {t : Token}

theorem Source.positionAt?_utf8Length {front back : List Char} (h : s.text.toList = front ++ back) :
    s.positionAt? (utf8Length front) =
      some ⟨front.count '\n' + 1, utf8Length (lastLine front) + 1⟩ := by
  have hposition := Source.positionAt?_offset_run h
  rwa [Cursor.offset_run, Cursor.start, Nat.zero_add, ← Cursor.start, Cursor.position_run]
    at hposition

/-- What is cut off in front of a text stands where its position says. -/
theorem Source.locates_of_lexeme {front back : List Char}
    (htext : s.text.toList = front ++ (t.text.toList ++ back)) (hstart : t.start = utf8Length front)
    (hlexeme : IsLexeme t.kind t.text.toList) :
    s.Locates t ⟨front.count '\n' + 1, utf8Length (lastLine front) + 1⟩ where
  positionAt := by rw [hstart, positionAt?_utf8Length htext]
  counted := ⟨front, _, htext, hstart.symm, rfl, rfl⟩
  inLine := by
    have hplain : ∀ c ∈ t.text.toList, isSpacing c = false := fun c hc => (hlexeme.plain c hc).2
    obtain ⟨c, cs, hcs⟩ := List.exists_cons_of_ne_nil hlexeme.ne_nil
    have hnewline : (t.text.toList ++ back).head? ≠ some '\n' := by
      intro hhead
      rw [hcs] at hhead hplain
      obtain rfl : c = '\n' := Option.some.inj hhead
      cases hplain '\n' List.mem_cons_self
    have hne : t.text.toList ++ back ≠ [] := by
      rw [hcs]
      exact List.cons_ne_nil _ _
    have hline : (lines (front ++ (t.text.toList ++ back)))[front.count '\n']? = _ :=
      lines_getElem? hnewline (.inl hne)
    rw [← htext, restOfLine_append hplain] at hline
    refine ⟨String.ofList _, lastLine front, restOfLine back, ?_, String.toList_ofList, rfl⟩
    rw [line?, hline]
    rfl

/-- **Offsets and positions are in the same order.** -/
theorem Source.before_of_lt {front back front' back' : List Char}
    (h : s.text.toList = front ++ back) (h' : s.text.toList = front' ++ back')
    (hlt : utf8Length front < utf8Length front') {p q : Position}
    (hp : s.positionAt? (utf8Length front) = some p)
    (hq : s.positionAt? (utf8Length front') = some q) : p.Before q := by
  rw [positionAt?_utf8Length h, ← Cursor.position_run] at hp
  rw [positionAt?_utf8Length h', ← Cursor.position_run] at hq
  obtain rfl := Option.some.inj hp
  obtain rfl := Option.some.inj hq
  rcases List.append_eq_append_iff.1 (h.symm.trans h') with ⟨more, rfl, -⟩ | ⟨more, rfl, -⟩
  · cases more with
    | nil =>
      rw [List.append_nil] at hlt
      exact absurd hlt (Nat.lt_irrefl _)
    | cons c more =>
      rw [Cursor.run_append]
      exact Cursor.before_run _ c more
  · rw [utf8Length_append] at hlt
    omega

end Located

/-! ## 2. The tokens of a source -/

/-- **Positions locate tokens.** Every token that is cut from a text, also before an error, stands
    in its line where its position says; and the positions of the tokens are in the order in which
    they are read, so that different tokens have different ones. -/
theorem Source.tokens_located (s : Source) :
    (∀ t ∈ s.scan.tokens, ∃ p, s.Locates t p) ∧
      (s.scan.tokens.Pairwise fun t u => ∃ p q, s.positionAt? t.start = some p ∧
        s.positionAt? u.start = some q ∧ p.Before q) ∧
      (s.scan.tokens.map fun t => s.positionAt? t.start).Nodup := by
  obtain ⟨ps, hps⟩ := exists_cutInto s.text.toList
  have hsublist : s.scan.tokens.Sublist ((piecesFrom .start ps).filterMap Piece.token?) := by
    rw [scan, hps.scan_eq .start]
    exact (List.takeWhile_sublist _).filterMap _
  have hplace : ∀ t ∈ s.scan.tokens, ∃ front back,
      s.text.toList = front ++ (t.text.toList ++ back) ∧ t.start = utf8Length front ∧
        IsLexeme t.kind t.text.toList ∧ t.start < t.stop := by
    intro t ht
    obtain ⟨front, back, htext, hlongest, hstart, hstop, -⟩ :=
      hps.of_mem_tokens (hsublist.subset ht)
    rw [Cursor.offset_run, Cursor.start, Nat.zero_add] at hstart
    have hpos := utf8Length_pos hlongest.lexeme.ne_nil
    exact ⟨front, back, htext, hstart, hlongest.lexeme, by omega⟩
  have hbefore : s.scan.tokens.Pairwise fun t u => ∃ p q, s.positionAt? t.start = some p ∧
      s.positionAt? u.start = some q ∧ p.Before q := by
    refine ((pairwise_tokens .start ps).sublist hsublist).imp_of_mem fun {t u} ht hu hle => ?_
    obtain ⟨front, back, htext, hstart, hlexeme, hlt⟩ := hplace t ht
    obtain ⟨front', back', htext', hstart', hlexeme', -⟩ := hplace u hu
    have hp := (locates_of_lexeme htext hstart hlexeme).positionAt
    have hq := (locates_of_lexeme htext' hstart' hlexeme').positionAt
    refine ⟨_, _, hp, hq, ?_⟩
    rw [hstart] at hp
    rw [hstart'] at hq
    exact before_of_lt htext htext' (by omega) hp hq
  refine ⟨fun t ht => ?_, hbefore, ?_⟩
  · obtain ⟨front, back, htext, hstart, hlexeme, -⟩ := hplace t ht
    exact ⟨_, locates_of_lexeme htext hstart hlexeme⟩
  · refine List.pairwise_map.2 (hbefore.imp fun {t u} h => ?_)
    obtain ⟨p, q, hp, hq, hbefore⟩ := h
    rw [hp, hq]
    exact fun heq => hbefore.ne (Option.some.inj heq)

/-- Lines that end in different ways, an empty line and a comment, which is not ASCII. -/
def crookedLines : Source := .ofText "// ä\r\n\n x\r\n\r->y1"

set_option maxRecDepth 100000 in
theorem tokens_located_crookedLines :
    crookedLines.scan.tokens.map (fun t => (t.text, t.position)) =
        [("x", ⟨3, 2⟩), ("->", ⟨4, 2⟩), ("y1", ⟨4, 4⟩)] ∧
      (∀ t ∈ crookedLines.scan.tokens, ∃ p, crookedLines.Locates t p) ∧
      (crookedLines.scan.tokens.map fun t => crookedLines.positionAt? t.start).Nodup := by
  have htokens : crookedLines.scan.tokens.map (fun t => (t.text, t.position)) =
    [("x", ⟨3, 2⟩), ("->", ⟨4, 2⟩), ("y1", ⟨4, 4⟩)] := by decide +kernel
  obtain ⟨hlocates, -, hnodup⟩ := crookedLines.tokens_located
  exact ⟨htokens, hlocates, hnodup⟩

end ClosureML
