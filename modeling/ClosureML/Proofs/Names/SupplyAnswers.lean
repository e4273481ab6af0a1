import ClosureML.Proofs.Names.ResolutionRun
import ClosureML.Proofs.Syntax.ParserShape

/-!
# The names that one supply gives

A supply is asked for numbers, for names that no program can write and for labels, in any order and
with any stems, of which one may be the beginning of another. All of them use the same counts. What
tells names apart is their text, not the stem and the number that they were made from, so no stem
may end with a digit.

* `Supply.Request`, `Supply.Answer`: what a supply is asked for, and what it gives;
* `Supply.answers`: what it gives to requests that are made one after the other.

Main statement: `Supply.answers_apart`.
-/

namespace ClosureML

open Names (numbered)

namespace Supply

/-! ## 1. Requests -/

/-- What a supply is asked for: the next number of a stem alone, the next name with it that no
    program can write, or the next label with it. -/
inductive Request where
  | number (stem : String)
  | generated (stem : String)
  | label (stem : String)
  deriving DecidableEq, Repr

/-- What a supply gives. -/
inductive Answer where
  | number (n : Nat)
  | generated (x : String)
  | label (l : String)
  deriving DecidableEq, Repr

/-- The stem that a request names. -/
def Request.stem : Request → String
  | number stem | generated stem | label stem => stem

/-- The name that no program can write, if this is what was given. -/
def Answer.generated? : Answer → Option String
  | generated x => some x
  | _ => none

/-- The label, if this is what was given. -/
def Answer.label? : Answer → Option String
  | label l => some l
  | _ => none

/-- What a supply gives to a request, and the supply from which it is taken. -/
def answer (s : Supply) : Request → Answer × Supply
  | .number stem => let (n, s) := s.next stem; (.number n, s)
  | .generated stem => let (x, s) := s.generated stem; (.generated x, s)
  | .label stem => let (l, s) := s.label stem; (.label l, s)

/-- What a supply gives to requests that are made one after the other. -/
def answers (s : Supply) : List Request → List Answer
  | [] => []
  | r :: rs => let (a, s) := s.answer r; a :: s.answers rs

/-! ## 2. What is made -/

/-- Behind the sign of generated names, a stem ends as it does alone. -/
theorem not_endsInDigit_dollar {stem : String} (h : ¬ EndsInDigit stem.toList) :
    ¬ EndsInDigit ("$" ++ stem).toList := by
  rw [EndsInDigit, String.toList_append]
  cases hstem : stem.toList with
  | nil => decide
  | cons c cs =>
    rw [hstem, EndsInDigit] at h
    rwa [List.getLast?_append_of_ne_nil _ (List.cons_ne_nil c cs)]

/-- How names that no program can write are made. -/
def generatedFormat : NameFormat where
  name := generatedName
  IsStem stem := ¬ EndsInDigit stem.toList
  inj h h' heq := generatedName_inj (not_endsInDigit_dollar h) (not_endsInDigit_dollar h') heq

/-- How labels are made. -/
def stemFormat : NameFormat where
  name stem k := stem ++ toString k
  IsStem stem := ¬ EndsInDigit stem.toList
  inj h h' heq := stem_append_inj h h' heq

/-- One answer makes the name or the label that it gives. -/
theorem makes_answer (s : Supply) {r : Request} (h : ¬ EndsInDigit r.stem.toList) :
    s.Makes generatedFormat (s.answer r).2 (s.answer r).1.generated?.toList ∧
      s.Makes stemFormat (s.answer r).2 (s.answer r).1.label?.toList := by
  have hgenerated : s.Makes generatedFormat (s.next r.stem).2
      [generatedName r.stem (s.count r.stem)] := .next h s
  have hlabel : s.Makes stemFormat (s.next r.stem).2 [r.stem ++ toString (s.count r.stem)] :=
    .next h s
  cases r with
  | number stem => exact ⟨hgenerated.only List.nil_subperm, hlabel.only List.nil_subperm⟩
  | generated stem => exact ⟨hgenerated, hlabel.only List.nil_subperm⟩
  | label stem => exact ⟨hgenerated.only List.nil_subperm, hlabel⟩

/-- **What is given one after the other was made**, each name and each label once. -/
theorem exists_makes_answers (s : Supply) {rs : List Request}
    (h : ∀ r ∈ rs, ¬ EndsInDigit r.stem.toList) :
    ∃ s', s.Makes generatedFormat s' ((s.answers rs).filterMap Answer.generated?) ∧
      s.Makes stemFormat s' ((s.answers rs).filterMap Answer.label?) := by
  induction rs generalizing s with
  | nil => exact ⟨s, .refl s, .refl s⟩
  | cons r rs ih =>
    obtain ⟨hr, hrs⟩ := List.forall_mem_cons.1 h
    obtain ⟨hname, hlabel⟩ := s.makes_answer hr
    obtain ⟨s', hnames, hlabels⟩ := ih (s.answer r).2 hrs
    simp only [List.filterMap_eq_flatMap_toList] at hnames hlabels ⊢
    exact ⟨s', hname.append hnames, hlabel.append hlabels⟩

end Supply

/-! ## 3. Names of texts -/

/-- A name that some text holds. -/
def IsNameOfText (x : String) : Prop :=
  ∃ s : Source, ∃ t ∈ s.scan.tokens,
    (t.kind = .identifier ∨ t.kind = .constructorIdentifier) ∧ t.text = x

theorem IsNameOfText.isWord {x : String} (h : IsNameOfText x) : IsWord x := by
  obtain ⟨s, t, ht, hk, rfl⟩ := h
  exact (lexed_scan _ _ t ht hk).word

/-- A binder with a name gets its numbered name. -/
theorem Names.runs_rename {x y : String} {r r' : Registry} (h : Runs (rename x) r y r') :
    y = numbered x (r.supply.count x) := by
  simp only [rename, runs_bind, runs_get, runs_set, runs_pure] at h
  obtain ⟨_, _, ⟨rfl, rfl⟩, _, _, rfl, rfl, rfl⟩ := h
  rfl

/-! ## 4. All names are apart -/

/-- **Names and labels never repeat.** Whatever a supply is asked for, in any order, as long as no
    stem ends with a digit: the names that no program can write are different, and so are the
    labels. None of these names is a name of a text, and none is the new name of a binder with a
    name of a text. -/
theorem Supply.answers_apart (s : Supply) (rs : List Request)
    (h : ∀ r ∈ rs, ¬ EndsInDigit r.stem.toList) :
    ((s.answers rs).filterMap Answer.generated?).Nodup ∧
      ((s.answers rs).filterMap Answer.label?).Nodup ∧
      ∀ x ∈ (s.answers rs).filterMap Answer.generated?, ∀ y, IsNameOfText y →
        x ≠ y ∧ (∀ n, x ≠ numbered y n) ∧ ∀ r y' r', Runs (Names.rename y) r y' r' → x ≠ y' := by
  obtain ⟨s', hnames, hlabels⟩ := s.exists_makes_answers h
  refine ⟨hnames.nodup, hlabels.nodup, fun x hx y hy => ?_⟩
  have hnumbered : ∀ n, x ≠ numbered y n := by
    obtain ⟨stem, -, k, -, -, rfl⟩ := hnames.made x hx
    rintro n heq
    exact Names.dollar_not_mem_numbered hy.isWord n (heq ▸ dollar_mem_generatedName stem k)
  refine ⟨?_, hnumbered, fun r y' r' hrun => Names.runs_rename hrun ▸ hnumbered _⟩
  obtain ⟨stem, -, k, -, -, rfl⟩ := hnames.made x hx
  rintro rfl
  exact hy.isWord.not_dollar (dollar_mem_generatedName stem k)

/-- A stem that ends with a digit can make the name of another one. -/
example :
    ¬ ((Supply.empty.answers
      (.generated "x1" :: List.replicate 11 (.generated "x"))).filterMap
        Supply.Answer.generated?).Nodup := by decide +kernel

/-- Requests whose stems are the beginning of one another, and which mix all three sorts. -/
def mixedRequests : List Supply.Request :=
  [.generated "x", .number "x", .label "let", .generated "x", .label "letrec", .label "x",
    .generated "ptnlam", .label "let", .generated "p"]

theorem answers_apart_mixedRequests :
    (∀ r ∈ mixedRequests, ¬ EndsInDigit r.stem.toList) ∧
      (Supply.empty.answers mixedRequests).filterMap Supply.Answer.generated? =
        ["$x0", "$x2", "$ptnlam0", "$p0"] ∧
      (Supply.empty.answers mixedRequests).filterMap Supply.Answer.label? =
        ["let0", "letrec0", "x3", "let1"] ∧
      ["$x0", "$x2", "$ptnlam0", "$p0"].Nodup ∧ ["let0", "letrec0", "x3", "let1"].Nodup ∧
      ∀ y, IsNameOfText y → "$x2" ≠ y ∧ ∀ n, "$x2" ≠ numbered y n := by
  have hstems : ∀ r ∈ mixedRequests, ¬ EndsInDigit r.stem.toList := by
    simp [mixedRequests, Supply.Request.stem, EndsInDigit]
  have hnames : (Supply.empty.answers mixedRequests).filterMap Supply.Answer.generated? =
      ["$x0", "$x2", "$ptnlam0", "$p0"] := by decide +kernel
  have hlabels : (Supply.empty.answers mixedRequests).filterMap Supply.Answer.label? =
      ["let0", "letrec0", "x3", "let1"] := by decide +kernel
  obtain ⟨hapart, hlabelsApart, hforeign⟩ := Supply.answers_apart .empty mixedRequests hstems
  rw [hnames] at hapart hforeign
  rw [hlabels] at hlabelsApart
  exact ⟨hstems, hnames, hlabels, hapart, hlabelsApart, fun y hy =>
    ⟨(hforeign "$x2" (by decide) y hy).1, (hforeign "$x2" (by decide) y hy).2.1⟩⟩

end ClosureML
