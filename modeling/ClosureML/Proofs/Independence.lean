import ClosureML.Proofs.Compilation
import ClosureML.Proofs.Machine.CodeMirrors
import ClosureML.Proofs.Names.AlphaEquivalence
import ClosureML.Proofs.Names.ResolutionMirrors
import ClosureML.Proofs.Syntax.ParserMirrors
import ClosureML.Proofs.Syntax.Words
import ClosureML.Proofs.Types.InferenceMirrors

/-!
# Programs do not depend on names and layout

Compilation gives the same program for texts that are the same up to the names of variables, and for
texts that are the same up to what stands between tokens; or it ends on both with errors of one
kind. Every pass is run on both texts side by side, and keeps what it makes alike.

* `Source.SameButNames`, `Source.SameTokens`: such texts;
* `EndAlike`: how compilation of both ends.

Main statement: `Source.compile_endAlike`.
-/

namespace ClosureML

open Node (Mirrors)

variable {N : String → String → Prop} {R : Position → Position → Prop}

/-! ## 1. Passes side by side -/

theorem Together.orFail {α α' : Type} {Q : α → α' → Prop} {x : Except CompileError α}
    {x' : Except CompileError α'} (h : Together Q (CompileError.Mirrors R) x x') :
    Together Q (Failure.Mirrors R) (ClosureML.orFail x) (ClosureML.orFail x') := by
  cases h with
  | ok h => exact .ok h
  | error h => exact .error (.error h)

/-- The program of a tree with its names resolved. -/
def Node.finish (format : OutputFormat) (n : Node) : Except Failure String := do
  let typing ← orFail n.inferTypes
  let tree ← orFail typing.unify
  let tree ← tree.lower
  let tree ← orFail tree.resolveIndices
  return (← orFail tree.generate).written format

/-- **Behind the resolution of names**, trees that mirror each other have the same program. -/
theorem Node.Mirrors.finish (hN : Relator.BiUnique N) (hgenerated : Lowering.KeepsGenerated N)
    {n n' : Node} (h : Mirrors N R n n') (format : OutputFormat) :
    Together Eq (Failure.Mirrors R) (n.finish format) (n'.finish format) :=
  (h.inferTypes hN).orFail.bind fun _ _ htyping => htyping.unify.orFail.bind fun _ _ htree =>
    (htree.lower hgenerated).bind fun _ _ hlowered =>
      (hlowered.resolveIndices hN).orFail.bind fun _ _ hindexed =>
        hindexed.generate.orFail.bind fun _ _ hprogram => hprogram ▸ .pure rfl

/-- The program of a source. -/
def Source.finish (format : OutputFormat) (s : Source) : Except Failure String := do
  let named ← orFail (← s.read).resolveNames
  named.finish format

/-- Compilation that is not to stop gives the program. -/
theorem Source.compile_none_eq (s : Source) (ink : Ink) (format : OutputFormat) :
    s.compile ink none format = .program <$> s.finish format := by
  simp only [compile_none, typed, finish, Node.finish, bind_assoc, map_bind, map_pure]

/-! ## 2. Texts with the same tokens -/

/-- Texts that are cut into the same tokens. They differ only in the blanks, line ends and comments
    between tokens. -/
def Source.SameTokens (s s' : Source) : Prop :=
  ∃ tokens tokens', s.tokens = .ok tokens ∧ s'.tokens = .ok tokens' ∧
    tokens.map Token.word = tokens'.map Token.word

theorem tokensMirror_of_words {tokens tokens' : List Token}
    (h : tokens.map Token.word = tokens'.map Token.word) :
    Parser.TokensMirror Anywhere tokens tokens' := by
  have hwords : List.Forall₂ (fun t t' => Token.word t = Token.word t') tokens tokens' := by
    rw [← List.forall₂_map_right_iff, ← List.forall₂_map_left_iff, List.forall₂_eq_eq_eq]
    exact h
  exact hwords.imp fun t t' h => ⟨congrArg Word.kind h, congrArg Word.text h, trivial⟩

/-- Texts with the same tokens are read alike. -/
theorem Source.SameTokens.read {s s' : Source} (h : s.SameTokens s') :
    Together (Mirrors Eq Anywhere) (Failure.Mirrors Anywhere) s.read s'.read := by
  obtain ⟨tokens, tokens', htokens, htokens', hwords⟩ := h
  have hparse : Together (Mirrors Eq Anywhere) (CompileError.Mirrors Anywhere) s.parse
      s'.parse := by
    rw [parse, parse, htokens, htokens']
    exact (Parser.program_mirrors (tokensMirror_of_words hwords)).imp_error fun _ _ he =>
      ⟨congrArg Cause.kind he.cause, trivial⟩
  exact hparse.orFail

/-! ## 3. Compilation -/

/-- Texts that are read, have their names resolved, and are the same up to positions and to the
    names of variables. -/
def Source.SameButNames (s s' : Source) : Prop :=
  ∃ parsed parsed' named named', s.read = .ok parsed ∧ s'.read = .ok parsed' ∧
    parsed.resolveNames = .ok named ∧ parsed'.resolveNames = .ok named' ∧
    parsed.AlphaEquivalent parsed'

/-- **Compilation ends alike**: both write the same program, or both end with errors of one kind. -/
inductive EndAlike : Except Failure Output → Except Failure Output → Prop where
  | program (text : String) : EndAlike (.ok (.program text)) (.ok (.program text))
  | error {e e' : CompileError} (h : e.cause.kind = e'.cause.kind) :
      EndAlike (.error (.error e)) (.error (.error e'))

/-- Texts whose programs are the same end compilation alike. -/
theorem Source.endAlike_of_finish {s s' : Source} {format : OutputFormat} (ink ink' : Ink)
    (h : Together Eq (Failure.Mirrors R) (s.finish format) (s'.finish format)) :
    EndAlike (s.compile ink none format) (s'.compile ink' none format) := by
  have hdefect : s.compile ink none format ≠ .error .defect := compile_ne_defect
  rw [compile_none_eq] at hdefect
  rw [compile_none_eq, compile_none_eq]
  generalize s.finish format = x at h hdefect
  generalize s'.finish format = x' at h
  cases h with
  | ok h =>
    subst h
    exact .program _
  | error h =>
    cases h with
    | error h => exact .error h.kind
    | defect => exact absurd rfl hdefect

/-- The names that lowering makes up hold no sign of renamed binders. -/
theorem hash_not_mem_generatedName {stem : String} (h : stem ∈ loweringStems) (k : Nat) :
    '#' ∉ (generatedName stem k).toList := by
  have hstem : '#' ∉ stem.toList := by
    revert stem
    decide
  have hdigits : '#' ∉ (toString k).toList := fun hmem =>
    absurd (isDigit_of_mem_toString hmem) (by decide)
  simp only [generatedName, String.toList_append, List.mem_append, not_or]
  exact ⟨⟨by decide, hstem⟩, hdigits⟩

/-- **Programs do not depend on names and layout.** When two texts are the same up to positions and
    to the names of variables, and the names of both are resolved, compilation ends alike on both.
    So it does when only blanks, line ends and comments between tokens differ. -/
theorem Source.compile_endAlike (s s' : Source) (ink ink' : Ink) (format : OutputFormat) :
    (s.SameButNames s' →
      EndAlike (s.compile ink none format) (s'.compile ink' none format)) ∧
    (s.SameTokens s' →
      EndAlike (s.compile ink none format) (s'.compile ink' none format)) := by
  constructor
  · rintro ⟨parsed, parsed', named, named', hread, hread', hnamed, hnamed', hsame⟩
    obtain ⟨N, hN, hself, hmirrors⟩ := hsame.resolveNames_mirrors (isProgram_of_read hread)
      (isProgram_of_read hread') hnamed hnamed'
    have hfinish : ∀ {s : Source} {parsed named : Node}, s.read = .ok parsed →
        parsed.resolveNames = .ok named → s.finish format = named.finish format := by
      intro s parsed named hread hnamed
      rw [finish, hread]
      show orFail parsed.resolveNames >>= Node.finish format = _
      rw [hnamed]
      rfl
    have htogether : Together Eq (Failure.Mirrors Anywhere) (s.finish format)
        (s'.finish format) := by
      rw [hfinish hread hnamed, hfinish hread' hnamed']
      exact hmirrors.finish hN (fun stem hstem k => hself _ (hash_not_mem_generatedName hstem k)) _
    exact endAlike_of_finish ink ink' htogether
  · intro hsame
    refine endAlike_of_finish ink ink' (hsame.read.bind fun parsed parsed' hparsed => ?_)
    exact hparsed.resolveNames.orFail.bind fun named named' hnamed =>
      hnamed.finish Types.biUnique_eq (fun _ _ _ => rfl) format

/-- A function whose parameter hides the variable that it is applied to. -/
def hidingIdentity : Source := .ofText "let x = 1 in (\\x -> x) x"

/-- The same function, applied to a variable with another name. -/
def renamedIdentity : Source := .ofText "let n = 1 in\n  (\\x -> x) n // not hidden"

/-- The same function with the same names, written in other lines. -/
def relaidIdentity : Source := .ofText "let x=1\nin // hidden\n(\\x->x) x"

/-- The trees of the first two: the name of the outer variable, and the positions that differ. -/
def appliedIdentity (x : String) (p q r : Position) : Node :=
  .top (.at ⟨1, 1⟩) (.letIn (.at ⟨1, 1⟩) x none (.literal (.at ⟨1, 9⟩) (.integer 1))
    (.application (.at p) (.lambda (.at p) "x" none (.reference (.at q) "x"))
      (.reference (.at r) x)))

/-- Compilation ends alike on the three of them. -/
theorem compile_endAlike_hidingIdentity :
    hidingIdentity.SameButNames renamedIdentity ∧ hidingIdentity.SameTokens relaidIdentity ∧
      EndAlike (hidingIdentity.compile .plain none .cSource)
        (renamedIdentity.compile .plain none .cSource) ∧
      EndAlike (hidingIdentity.compile .plain none .cSource)
        (relaidIdentity.compile .plain none .cSource) := by
  have hnames : hidingIdentity.SameButNames renamedIdentity := by
    have hread : hidingIdentity.read = .ok (appliedIdentity "x" ⟨1, 15⟩ ⟨1, 21⟩ ⟨1, 24⟩) := by
      with_unfolding_all rfl
    have hread' : renamedIdentity.read = .ok (appliedIdentity "n" ⟨2, 4⟩ ⟨2, 10⟩ ⟨2, 13⟩) := by
      with_unfolding_all rfl
    have hm (p p' : Position) : (Mark.at p).Mirrors Anywhere (.at p') := Mark.mirrors_at trivial
    exact ⟨_, _, _, _, hread, hread', rfl, rfl, .mk (hm _ _) (.letIn (hm _ _) (.literal (hm _ _))
      (.application (hm _ _) (.lambda (hm _ _) (.reference (hm _ _) .here))
        (.reference (hm _ _) .here)))⟩
  have htokens : hidingIdentity.SameTokens relaidIdentity :=
    ⟨hidingIdentity.scan.tokens, relaidIdentity.scan.tokens, by decide +kernel, by decide +kernel,
      by decide +kernel⟩
  exact ⟨hnames, htokens,
    (Source.compile_endAlike hidingIdentity renamedIdentity .plain .plain .cSource).1 hnames,
    (Source.compile_endAlike hidingIdentity relaidIdentity .plain .plain .cSource).2 htokens⟩

end ClosureML
