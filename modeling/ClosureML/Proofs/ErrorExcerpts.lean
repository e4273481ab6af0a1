import ClosureML.Proofs.ErrorPositions
import ClosureML.Proofs.SourceLines

/-!
# What a report shows of the text

A report shows the line of its position, and a caret below it. Columns count bytes, and the caret is
moved by as many blanks: it stands below the reported character where only ASCII characters stand
before that character in its line. The cut of a text reads on only behind spacing and tokens, which
are made of ASCII characters; comments may hold others, but they run to the end of their line. So
carets are in their place wherever a character is reported. The end of a text is no character: there
the last line may be empty, in which case it is not shown, or may hold a comment.

* `Report.Shows`: the line of a place is shown, with a caret below the place.

Main statement: `Source.shows_of_compile_error`.
-/

namespace ClosureML

/-! ## 1. What a report shows -/

/-- The line of a place behind its number, and the line of a caret with as many blanks before it as
    characters of the line stand before the place. -/
def excerptAt (front back : List Char) : List String :=
  let number := toString (front.count '\n' + 1)
  [number ++ " | " ++ String.ofList (lastLine front ++ restOfLine back),
    "".pushn ' ' number.length ++ " | " ++ "".pushn ' ' (lastLine front).length ++ "^"]

/-- A report of a source shows the place between the two parts of its text. -/
structure Report.Shows (s : Source) (r : Report) (front back : List Char) : Prop where
  text : s.text.toList = front ++ back
  position : (Cursor.start.run front).position = r.position
  excerpt : ∃ before behind : List String, r.render .plain s =
    String.join ((before ++ excerptAt front back ++ behind).map (· ++ "\n"))
  caret : (lastLine front ++ restOfLine back)[(lastLine front).length]? = back.head?

section Shown

variable {s : Source} {r : Report} {front back : List Char}

theorem restOfLine_head? (hnewline : back.head? ≠ some '\n') (hreturn : back.head? ≠ some '\r') :
    (restOfLine back).head? = back.head? := by
  cases back with
  | nil => rfl
  | cons c rest =>
    rw [restOfLine_cons]
    · rfl
    · rintro rfl
      exact hnewline rfl
    · rintro _ rfl
      exact absurd rfl hreturn

theorem append_bar (text : String) : text ++ " " ++ "|" ++ " " = text ++ " | " := by
  rw [String.append_assoc, String.append_assoc]
  rfl

theorem utf8Length_of_isAscii {cs : List Char} (h : ∀ c ∈ cs, isAscii c = true) :
    utf8Length cs = cs.length := by
  induction cs with
  | nil => rfl
  | cons c cs ih =>
    obtain ⟨hc, hcs⟩ := List.forall_mem_cons.1 h
    have hsize : c.utf8Size = 1 := by
      rw [Char.utf8Size_eq_one_iff]
      exact Nat.le_of_lt_succ (of_decide_eq_true hc)
    rw [utf8Length_cons, ih hcs, hsize, List.length_cons, Nat.add_comm]

/-- **A place is shown** when only ASCII characters stand before it in its line, unless it is at the
    end of a text whose last line is empty. -/
theorem Report.shows_of_ascii (htext : s.text.toList = front ++ back)
    (hposition : (Cursor.start.run front).position = r.position)
    (hascii : ∀ c ∈ lastLine front, isAscii c = true) (hnewline : back.head? ≠ some '\n')
    (hreturn : back.head? ≠ some '\r') (hline : back ≠ [] ∨ lastLine front ≠ []) :
    r.Shows s front back where
  text := htext
  position := hposition
  excerpt := by
    have hreported : r.position = ⟨front.count '\n' + 1, (lastLine front).length + 1⟩ := by
      rw [← hposition, Cursor.position_run, utf8Length_of_isAscii hascii]
    have hshown : s.line? r.position.line =
        some (String.ofList (lastLine front ++ restOfLine back)) := by
      rw [hreported, Source.line?, htext, lines_getElem? hnewline hline]
      rfl
    have hsynthetic : r.position ≠ .synthetic := hposition ▸ Cursor.position_run_ne front
    rw [hreported] at hsynthetic hshown
    have hlocation : location .plain s r.position =
        ["  " ++ "-->" ++ " " ++ s.origin.text ++ ":" ++ r.position.text,
          "".pushn ' ' (toString (front.count '\n' + 1)).length ++ " " ++ "|"]
          ++ excerptAt front back := by
      rw [location, hreported, if_neg hsynthetic, hshown]
      simp only [Option.map_some, Option.getD_some, excerpt, Ink.paint_plain, append_bar,
        Nat.add_sub_cancel, excerptAt]
      rfl
    rw [render, hlocation, ← List.cons_append]
    exact ⟨_, _, rfl⟩
  caret := by
    rw [List.getElem?_append_right (Nat.le_refl _), Nat.sub_self, ← List.head?_eq_getElem?]
    exact restOfLine_head? hnewline hreturn

end Shown

/-! ## 2. What stands before a token in its line -/

theorem isAscii_of_le {c d : Char} (h : c ≤ d) (hd : isAscii d = true) : isAscii c = true :=
  decide_eq_true (Nat.lt_of_le_of_lt h (of_decide_eq_true hd))

theorem isAscii_of_isDigit {c : Char} (h : isDigit c = true) : isAscii c = true := by
  simp only [isDigit, Bool.and_eq_true, decide_eq_true_eq] at h
  exact isAscii_of_le h.2 rfl

theorem isAscii_of_isWordCharacter {c : Char} (h : isWordCharacter c = true) :
    isAscii c = true := by
  simp only [isWordCharacter, startsWord, isCapital, Bool.or_eq_true, Bool.and_eq_true,
    decide_eq_true_eq] at h
  obtain ((h | h) | rfl) | h := h
  · exact isAscii_of_le h.2 rfl
  · exact isAscii_of_le h.2 rfl
  · rfl
  · exact isAscii_of_isDigit h

theorem isAscii_of_isSpacing {c : Char} (h : isSpacing c = true) : isAscii c = true := by
  simp only [isSpacing, Bool.or_eq_true, decide_eq_true_eq] at h
  obtain (((rfl | rfl) | rfl) | rfl) | rfl := h <;> rfl

theorem isAscii_of_pairSign? {c d : Char} {kind : TokenKind} (h : pairSign? c d = some kind) :
    isAscii d = true := by
  unfold pairSign? at h
  split at h
  · rfl
  · rfl
  · rfl
  · rfl
  · rfl
  · cases h

/-- Behind its first character, a token is made of ASCII characters. -/
theorem isAscii_of_lexeme? {c : Char} {rest : List Char} {kind : TokenKind} {n : Nat}
    (h : lexeme? c rest = some (kind, n)) : ∀ d ∈ rest.take n, isAscii d = true := by
  unfold lexeme? at h
  split at h
  · cases h
    rw [take_length_takeWhile]
    exact fun d hd => isAscii_of_isDigit (List.all_eq_true.1 List.all_takeWhile d hd)
  · split at h
    · cases h
      rw [take_length_takeWhile]
      exact fun d hd => isAscii_of_isWordCharacter (List.all_eq_true.1 List.all_takeWhile d hd)
    · split at h
      · next hpair =>
        cases h
        obtain ⟨d, hd, hsign⟩ := Option.bind_eq_some_iff.1 hpair
        cases rest with
        | nil => cases hd
        | cons d' rest =>
          cases hd
          simpa using isAscii_of_pairSign? hsign
      · obtain ⟨kind', -, heq⟩ := Option.map_eq_some_iff.1 h
        cases heq
        simp

/-- No token begins with a line feed. -/
theorem lexeme?_newline (rest : List Char) : lexeme? '\n' rest = none := by
  cases rest with
  | nil => rfl
  | cons d rest => simp [lexeme?, isDigit, startsWord, isCapital, sign?, pairSign?]

/-- The cut stands between `front` and `cs` at the end of a line, or behind ASCII characters. -/
def IsCleanCut (front cs : List Char) : Prop :=
  ∀ c rest, cs = c :: rest → c ≠ '\n' → ∀ d ∈ lastLine front, isAscii d = true

/-- More ASCII characters are read. -/
theorem IsCleanCut.read {front rest more : List Char} {c : Char} (h : IsCleanCut front (c :: rest))
    (hc : isAscii c = true) (hnewline : c = '\n' → more = [])
    (hmore : ∀ d ∈ more, isAscii d = true) (cs : List Char) :
    IsCleanCut (front ++ c :: more) cs := by
  intro _ _ _ _ d hd
  by_cases heq : c = '\n'
  · rw [hnewline heq, heq, lastLine_concat_newline] at hd
    cases hd
  · rcases mem_lastLine_append hd with hd | hd
    · exact h c rest rfl heq d hd
    · rcases List.mem_cons.1 hd with rfl | hd
      · exact hc
      · exact hmore d hd

/-- **The cut reads on behind ASCII characters only**: what it comes to stands at the end of a line,
    or no other characters stand before it in its line. -/
theorem CutReaches.isCleanCut {k k' : Cursor} {cs back : List Char} (h : CutReaches k cs k' back) :
    ∀ before, IsCleanCut before cs →
      ∃ front, cs = front ++ back ∧ k' = k.run front ∧ IsCleanCut (before ++ front) back := by
  induction h with
  | here k cs => exact fun before h => ⟨[], rfl, rfl, by rwa [List.append_nil]⟩
  | @spacing k _ c rest _ hc _ ih =>
    intro before h
    obtain ⟨front, rfl, rfl, hclean⟩ := ih (before ++ [c])
      (h.read (isAscii_of_isSpacing hc) (fun _ => rfl) (fun _ h => nomatch h) _)
    exact ⟨c :: front, rfl, rfl, by rwa [List.append_cons]⟩
  | @comment k _ c rest _ _ _ ih =>
    intro before _
    have hcut := List.take_append_drop (rest.takeWhile (· ≠ '\n')).length rest
    rw [take_length_takeWhile] at hcut
    -- Whatever a comment holds, it runs to the end of its line.
    have hend : IsCleanCut (before ++ c :: rest.takeWhile (· ≠ '\n'))
        (rest.drop (rest.takeWhile (· ≠ '\n')).length) := by
      intro d more hdrop hd
      rw [List.append_cancel_left (hcut.trans List.takeWhile_append_dropWhile.symm)] at hdrop
      have := List.head?_dropWhile_not (· ≠ '\n') rest
      rw [hdrop] at this
      exact absurd hd (by simpa using this)
    obtain ⟨front, hback, rfl, hclean⟩ := ih _ hend
    refine ⟨c :: (rest.takeWhile (· ≠ '\n') ++ front), ?_, ?_, ?_⟩
    · rw [List.cons_append, List.append_assoc, ← hback, hcut]
    · rw [Cursor.run_cons, Cursor.run_append]
    · rwa [List.append_assoc, List.cons_append] at hclean
  | @token k _ c rest _ kind n hascii hlexeme _ ih =>
    intro before h
    have hnewline : c ≠ '\n' := by
      rintro rfl
      rw [lexeme?_newline] at hlexeme
      cases hlexeme
    obtain ⟨front, hback, rfl, hclean⟩ := ih (before ++ c :: rest.take n)
      (h.read hascii (fun heq => absurd heq hnewline) (isAscii_of_lexeme? hlexeme) _)
    refine ⟨c :: (rest.take n ++ front), ?_, ?_, ?_⟩
    · rw [List.cons_append, List.append_assoc, ← hback, List.take_append_drop]
    · rw [Cursor.run_cons, Cursor.run_append]
    · rwa [List.append_assoc, List.cons_append] at hclean

/-! ## 3. Reported places -/

section Errors

variable {s : Source} {e : CompileError}

/-- The cut of a source comes to a character behind ASCII characters in its line, unless a line feed
    stands there. -/
theorem CutReaches.exists_front {k : Cursor} {c : Char} {rest : List Char}
    (h : CutReaches .start s.text.toList k (c :: rest)) (hc : isSpacing c = false) :
    ∃ front, s.text.toList = front ++ c :: rest ∧ k = Cursor.start.run front ∧
      ∀ d ∈ lastLine front, isAscii d = true := by
  obtain ⟨front, htext, hk, hclean⟩ := h.isCleanCut [] fun _ _ _ _ _ hd => nomatch hd
  refine ⟨front, htext, hk, hclean c rest rfl ?_⟩
  rintro rfl
  cases hc

/-- **A reported place** is the end of the text, or stands before a character that is no spacing,
    behind ASCII characters in its line. -/
theorem Source.IsErrorPlace.exists_front {b : Nat} (h : s.IsErrorPlace e b)
    (hposition : s.positionAt? b = some e.position) :
    e.position = s.endPosition ∨
      ∃ front c rest, s.text.toList = front ++ c :: rest ∧ isSpacing c = false ∧
        (Cursor.start.run front).position = e.position ∧
        ∀ d ∈ lastLine front, isAscii d = true := by
  have hreached : ∀ {k c rest}, CutReaches .start s.text.toList k (c :: rest) →
      isSpacing c = false → k.offset = b →
      ∃ front c rest, s.text.toList = front ++ c :: rest ∧ isSpacing c = false ∧
        (Cursor.start.run front).position = e.position ∧
        ∀ d ∈ lastLine front, isAscii d = true := by
    rintro k c rest hreaches hc rfl
    obtain ⟨front, htext, hk, hascii⟩ := hreaches.exists_front hc
    refine ⟨front, c, rest, htext, hc, ?_, hascii⟩
    exact hk ▸ Option.some.inj (hreaches.positionAt?.symm.trans hposition)
  cases h with
  | @token tokens t htokens ht =>
    right
    rw [Source.tokens] at htokens
    split at htokens
    · cases htokens
      obtain ⟨k, c, rest, hreaches, hc, hstart, -⟩ := cutReaches_of_mem_tokens _ _ ht
      exact hreached hreaches hc hstart.symm
    · cases htokens
  | rejected h =>
    obtain ⟨k, c, rest, hreaches, hrejected, hoffset⟩ := h
    exact .inr (hreached hreaches hrejected.spacing hoffset)
  | atEnd => exact .inl (Option.some.inj (hposition.symm.trans s.positionAt?_size))

/-- **Reports show the place of the error.** Wherever compilation is to stop, the report of its
    error shows the line of the reported position and below it a caret with as many blanks before it
    as characters of the line stand before that position: below the reported character, or just
    behind the last one. At the end of a text, that holds when its last line is not empty and has
    only ASCII characters. -/
theorem Source.shows_of_compile_error {ink : Ink} {stopBehind : Option Stage}
    {format : OutputFormat} (h : s.compile ink stopBehind format = .error (.error e))
    (hend : e.position = s.endPosition → lastLine s.text.toList ≠ [] ∧
      ∀ c ∈ lastLine s.text.toList, isAscii c = true) :
    ∃ front back, e.report.Shows s front back := by
  obtain ⟨b, hb, hposition⟩ := typed_error_position (typed_error_of_compile h)
  obtain hatEnd | ⟨front, c, rest, htext, hc, hfront, hascii⟩ := hb.exists_front hposition
  · obtain ⟨hline, hascii⟩ := hend hatEnd
    exact ⟨s.text.toList, [], Report.shows_of_ascii (List.append_nil _).symm hatEnd.symm hascii
      (fun h => nomatch h) (fun h => nomatch h) (.inr hline)⟩
  · refine ⟨front, c :: rest, Report.shows_of_ascii htext hfront hascii ?_ ?_ (.inl (by simp))⟩
    all_goals
      rintro ⟨⟩
      cases hc

end Errors

/-- A text that ends behind an operator. -/
def cutShort : Source := .ofText "let n = 1 in\n  n +"

theorem shows_of_compile_error_cutShort : ∃ e,
    cutShort.compile .plain none .listing = .error (.error e) ∧ e.position = ⟨2, 6⟩ ∧
      (e.position = cutShort.endPosition → lastLine cutShort.text.toList ≠ [] ∧
        ∀ c ∈ lastLine cutShort.text.toList, isAscii c = true) ∧
      ∃ front back, e.report.Shows cutShort front back := by
  have h : cutShort.compile .plain none .listing =
    .error (.error ⟨.unexpectedEnd .expression, ⟨2, 6⟩⟩) := by decide +kernel
  have hline : lastLine cutShort.text.toList = [' ', ' ', 'n', ' ', '+'] := by decide +kernel
  have hend : lastLine cutShort.text.toList ≠ [] ∧
      ∀ c ∈ lastLine cutShort.text.toList, isAscii c = true := by
    rw [hline]
    simp [isAscii]
  exact ⟨_, h, rfl, fun _ => hend, Source.shows_of_compile_error h fun _ => hend⟩

/-- What is shown at the position of the end is the end. -/
theorem Report.Shows.eq_end {s : Source} {r : Report} {front back : List Char}
    (h : r.Shows s front back) (hend : r.position = s.endPosition) :
    front = s.text.toList ∧ back = [] := by
  have htext : front ++ back = s.text.toList ++ [] := by rw [List.append_nil, h.text]
  obtain rfl := Cursor.eq_of_position_run htext (h.position.trans hend)
  exact ⟨rfl, List.append_cancel_left htext⟩

/-- The lines of the place stand in the report. -/
theorem Report.Shows.isInfix {s : Source} {r : Report} {front back : List Char}
    (h : r.Shows s front back) :
    ((excerptAt front back).flatMap fun line => line.toList ++ ['\n']) <:+:
      (r.render .plain s).toList := by
  obtain ⟨before, behind, hrender⟩ := h.excerpt
  rw [hrender]
  simp only [String.toList_join, List.flatMap_map, List.flatMap_append, String.toList_append]
  exact List.infix_append _ _ _

/-- A text that ends with a comment in which a character of two bytes stands. -/
def accented : Source := .ofText "1 + // é"

/-- A text whose last line is empty. -/
def unfinished : Source := .ofText "1 +\n"

/-- At the end of a text, the caret is off its place behind characters of more than one byte, and an
    empty line is not shown. -/
theorem not_shows_accented_unfinished :
    (∃ e, accented.compile .plain none .listing = .error (.error e) ∧
      ¬ ∃ front back, e.report.Shows accented front back) ∧
    ∃ e, unfinished.compile .plain none .listing = .error (.error e) ∧
      ¬ ∃ front back, e.report.Shows unfinished front back := by
  constructor
  · have h : accented.compile .plain none .listing =
      .error (.error ⟨.unexpectedEnd .expression, ⟨1, 10⟩⟩) := by decide +kernel
    have hend : accented.endPosition = ⟨1, 10⟩ := by decide +kernel
    refine ⟨_, h, ?_⟩
    rintro ⟨front, back, hshows⟩
    obtain ⟨rfl, rfl⟩ := hshows.eq_end hend.symm
    exact absurd hshows.isInfix (by decide +kernel)
  · have h : unfinished.compile .plain none .listing =
      .error (.error ⟨.unexpectedEnd .expression, ⟨2, 1⟩⟩) := by decide +kernel
    have hend : unfinished.endPosition = ⟨2, 1⟩ := by decide +kernel
    refine ⟨_, h, ?_⟩
    rintro ⟨front, back, hshows⟩
    obtain ⟨rfl, rfl⟩ := hshows.eq_end hend.symm
    exact absurd hshows.isInfix (by decide +kernel)

end ClosureML
