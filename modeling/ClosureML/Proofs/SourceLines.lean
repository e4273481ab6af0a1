import ClosureML.Source
import Mathlib.Data.List.Induction

/-!
# Lines of a text

A place cuts a text in two. The line in which it lies is what stands behind the last line feed of
the front, and before the next line end behind it; the position of the place counts the line feeds
of the front, and the bytes of its last line.

* `lastLine front`: the part of the line that stands before the place;
* `restOfLine back`: the part that stands behind it;
* `Position.Before`: positions in the order in which they are read.

Main statements: `Cursor.position_run`, `lines_getElem?` (the line with the number of the position),
and `Cursor.eq_of_position_run` (different places have different positions).
-/

namespace ClosureML

/-! ## 1. The two parts of a line -/

/-- What stands behind the last line feed. -/
def lastLine (front : List Char) : List Char := (front.reverse.takeWhile (· ≠ '\n')).reverse

/-- What stands before the next line end. -/
def restOfLine : List Char → List Char
  | [] => []
  | '\n' :: _ => []
  | '\r' :: '\n' :: _ => []
  | c :: rest => c :: restOfLine rest

section Parts

variable {front cs ds rest : List Char} {c : Char}

@[simp] theorem lastLine_nil : lastLine [] = [] := rfl

theorem lastLine_concat_newline (front : List Char) : lastLine (front ++ ['\n']) = [] := by
  simp [lastLine]

theorem lastLine_concat (hc : c ≠ '\n') : lastLine (front ++ [c]) = lastLine front ++ [c] := by
  simp [lastLine, hc]

theorem takeWhile_reverse_append (h : '\n' ∉ ds) :
    (cs ++ ds).reverse.takeWhile (· ≠ '\n') = ds.reverse ++ cs.reverse.takeWhile (· ≠ '\n') := by
  rw [List.reverse_append, List.takeWhile_append_of_pos]
  intro c hc
  have hne : c ≠ '\n' := fun heq => h (heq ▸ List.mem_reverse.1 hc)
  exact decide_eq_true hne

/-- A text without line feeds is a part of a line. -/
theorem lastLine_eq_self (h : '\n' ∉ cs) : lastLine cs = cs := by
  rw [lastLine, ← List.nil_append cs, takeWhile_reverse_append h]
  simp

/-- What stands before a line feed is not in the last line. -/
theorem lastLine_cons_of_mem (h : '\n' ∈ cs) (c : Char) : lastLine (c :: cs) = lastLine cs := by
  obtain ⟨as, bs, hreverse, hnot⟩ := List.eq_append_cons_of_mem (List.mem_reverse.2 h)
  have hcs : cs = bs.reverse ++ '\n' :: as.reverse := by
    rw [← List.reverse_reverse cs, hreverse]
    simp
  have hcut : ∀ front : List Char, lastLine (front ++ '\n' :: as.reverse) = as.reverse := by
    intro front
    have hnot : '\n' ∉ as.reverse := mt List.mem_reverse.1 hnot
    rw [lastLine, List.append_cons, takeWhile_reverse_append hnot]
    simp
  rw [hcs, ← List.cons_append, hcut, hcut]

theorem lastLine_newline_cons (cs : List Char) : lastLine ('\n' :: cs) = lastLine cs := by
  by_cases h : '\n' ∈ cs
  · exact lastLine_cons_of_mem h _
  · rw [lastLine_eq_self h, lastLine, ← List.singleton_append, takeWhile_reverse_append h]
    simp

theorem mem_lastLine_append (h : c ∈ lastLine (cs ++ ds)) : c ∈ lastLine cs ∨ c ∈ ds := by
  rw [lastLine, List.reverse_append, List.takeWhile_append] at h
  split at h
  · rcases List.mem_append.1 (List.mem_reverse.1 h) with h | h
    · exact .inr (List.mem_reverse.1 h)
    · exact .inl (List.mem_reverse.2 h)
  · exact .inr (List.mem_reverse.1 ((List.takeWhile_sublist _).subset (List.mem_reverse.1 h)))

end Parts

/-! ## 2. Positions -/

/-- **The position of a place** counts the line feeds before it, and the bytes of its line. -/
theorem Cursor.position_run (front : List Char) :
    (start.run front).position = ⟨front.count '\n' + 1, utf8Length (lastLine front) + 1⟩ := by
  induction front using List.reverseRecOn with
  | nil => rfl
  | append_singleton front c ih =>
    rw [run_append, run_cons, run_nil, step, Position.step, ih, List.count_append]
    by_cases hc : c = '\n'
    · rw [if_pos hc, hc, lastLine_concat_newline]
      rfl
    · rw [if_neg hc, lastLine_concat hc, utf8Length_append, List.count_singleton,
        if_neg (by simpa using hc)]
      simp
      omega

/-- One position is read before another. -/
def Position.Before (p q : Position) : Prop :=
  p.line < q.line ∨ p.line = q.line ∧ p.column < q.column

theorem Position.Before.trans {p q r : Position} (h : p.Before q) (h' : q.Before r) :
    p.Before r := by
  unfold Before at *
  omega

theorem Position.Before.ne {p q : Position} (h : p.Before q) : p ≠ q := by
  rintro rfl
  unfold Before at h
  omega

theorem Position.before_step (p : Position) (c : Char) : p.Before (p.step c) := by
  rw [step]
  split
  · exact .inl (Nat.lt_succ_self _)
  · exact .inr ⟨rfl, Nat.lt_add_of_pos_right (Char.utf8Size_pos c)⟩

/-- **Positions are read in their order**: what stands behind some more text has a later one. -/
theorem Cursor.before_run (k : Cursor) (c : Char) (cs : List Char) :
    k.position.Before (k.run (c :: cs)).position := by
  induction cs generalizing k c with
  | nil => exact k.position.before_step c
  | cons d cs ih => exact (k.position.before_step c).trans (ih (k.step c) d)

/-- Different places in a text have different positions. -/
theorem Cursor.eq_of_position_run {front front' back back' : List Char}
    (h : front ++ back = front' ++ back')
    (hposition : (start.run front).position = (start.run front').position) : front = front' := by
  have hback : ∀ {xs ys : List Char}, (start.run xs).position = (start.run (xs ++ ys)).position →
      ys = [] := by
    intro xs ys heq
    cases ys with
    | nil => rfl
    | cons c cs =>
      rw [run_append] at heq
      exact absurd heq (before_run _ c cs).ne
  obtain ⟨middle, rfl, -⟩ | ⟨middle, rfl, -⟩ := List.append_eq_append_iff.1 h
  · rw [hback hposition, List.append_nil]
  · rw [hback hposition.symm, List.append_nil]

/-! ## 3. Lines -/

section Lines

theorem restOfLine_cons {c : Char} {rest : List Char} (hc : c = '\n' → False)
    (hreturn : ∀ more, c = '\r' → rest = '\n' :: more → False) :
    restOfLine (c :: rest) = c :: restOfLine rest := by
  rw [restOfLine]
  · exact hc
  · exact hreturn

theorem lines_eq_nil {cs : List Char} (h : lines cs = []) : cs = [] := by
  fun_induction lines cs with
  | case1 => rfl
  | _ => cases h

/-- A text that is not empty begins with a line. -/
theorem lines_head? {cs : List Char} (h : cs ≠ []) : (lines cs)[0]? = some (restOfLine cs) := by
  fun_induction lines cs with
  | case1 => exact absurd rfl h
  | case2 | case3 => rfl
  | case4 c rest hnewline hreturn hnil _ =>
    obtain rfl := lines_eq_nil hnil
    rw [restOfLine_cons hnewline hreturn]
    rfl
  | case5 c rest hnewline hreturn line more hlines ih =>
    have hrest : rest ≠ [] := by
      rintro rfl
      cases hlines
    obtain rfl : line = restOfLine rest := by simpa [hlines] using ih hrest
    rw [restOfLine_cons hnewline hreturn]
    rfl

/-- A carriage return before a line feed belongs to the line end. -/
theorem lines_return (rest : List Char) : lines ('\r' :: '\n' :: rest) = lines ('\n' :: rest) := by
  rw [lines, lines]

/-- Any other character is the first one of its line. -/
theorem lines_cons {c : Char} {rest line : List Char} {more : List (List Char)} (hc : c ≠ '\n')
    (hreturn : ∀ more, c = '\r' → rest = '\n' :: more → False) (h : lines rest = line :: more) :
    lines (c :: rest) = (c :: line) :: more := by
  rw [lines, h]
  · exact hc
  · exact hreturn

/-- **The line of a place** has the number that the line feeds before the place make up, unless it
    is the end of a text that is empty or ends with a line feed. -/
theorem lines_getElem? {front back : List Char} (hback : back.head? ≠ some '\n')
    (h : back ≠ [] ∨ lastLine front ≠ []) :
    (lines (front ++ back))[front.count '\n']? = some (lastLine front ++ restOfLine back) := by
  induction front with
  | nil => exact lines_head? (h.resolve_right fun h => h rfl)
  | cons c front ih =>
    by_cases hc : c = '\n'
    · subst hc
      rw [lastLine_newline_cons] at h ⊢
      rw [List.count_cons_self, List.cons_append, lines, List.getElem?_cons_succ]
      exact ih h
    have hcount : (c :: front).count '\n' = front.count '\n' := List.count_cons_of_ne hc
    rw [hcount, List.cons_append]
    by_cases hreturn : c = '\r' ∧ ∃ more, front ++ back = '\n' :: more
    · obtain ⟨rfl, more, hmore⟩ := hreturn
      have hmem : '\n' ∈ front := by
        cases front with
        | nil => exact absurd (congrArg List.head? hmore) hback
        | cons d front => exact (List.cons.inj hmore).1 ▸ List.mem_cons_self
      rw [lastLine_cons_of_mem hmem] at h ⊢
      rw [hmore, lines_return, ← hmore]
      exact ih h
    · have hreturn : ∀ more, c = '\r' → front ++ back = '\n' :: more → False :=
        fun more hr hmore => hreturn ⟨hr, more, hmore⟩
      obtain hall | ⟨line, more, hall⟩ :
          front ++ back = [] ∨ ∃ line more, lines (front ++ back) = line :: more := by
        cases hlines : lines (front ++ back) with
        | nil => exact .inl (lines_eq_nil hlines)
        | cons line more => exact .inr ⟨line, more, rfl⟩
      · obtain ⟨rfl, rfl⟩ := List.append_eq_nil_iff.1 hall
        have hline : restOfLine [c] = [c] := restOfLine_cons hc fun _ _ h => (nomatch h)
        rw [lastLine_eq_self (by simpa using Ne.symm hc), restOfLine]
        exact (lines_head? (List.cons_ne_nil c [])).trans (congrArg some hline)
      rw [lines_cons hc hreturn hall]
      by_cases hmem : '\n' ∈ front
      · rw [lastLine_cons_of_mem hmem] at h ⊢
        obtain ⟨k, hk⟩ := Nat.exists_eq_succ_of_ne_zero (Nat.ne_of_gt (List.count_pos_iff.2 hmem))
        have := ih h
        rw [hall, hk] at this
        rw [hk]
        exact this
      · have hne : back ≠ [] ∨ front ≠ [] := by
          rw [← not_and_or]
          rintro ⟨rfl, rfl⟩
          cases hall
        have := ih (by rwa [lastLine_eq_self hmem])
        rw [hall, List.count_eq_zero.2 hmem, lastLine_eq_self hmem] at this
        rw [List.count_eq_zero.2 hmem, lastLine_eq_self (by simp [hmem, Ne.symm hc])]
        simpa using this

end Lines

end ClosureML
