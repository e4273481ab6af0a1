import ClosureML.Compile
import ClosureML.Proofs.Machine.Code
import ClosureML.Proofs.Semantics.LoweredTree
import ClosureML.Proofs.Syntax.ParserShape
import ClosureML.Proofs.Types.InferenceErrors
import ClosureML.Proofs.Types.TypedTree

/-!
# Compilation meets no defect

Once a source is read, the passes end only with errors in the program: names that are not bound as
they must be, and types that do not fit together. Once unification has succeeded, the passes behind
it succeed as well. What these passes rely on was settled by the passes before them.

* `Source.typed`: the tree of a source behind unification.

Main statements: `Source.lower_ok` (the passes behind unification succeed), `Source.compile_ok_iff`,
`Source.compile_error` and `Source.meets_no_defect`.
-/

namespace ClosureML

variable {s : Source}

/-! ## 1. Up to unification -/

theorem orFail_ok {α : Type} {x : Except CompileError α} {a : α} :
    orFail x = .ok a ↔ x = .ok a := by
  cases x with
  | ok b =>
    exact ⟨fun h => congrArg Except.ok (Except.ok.inj h),
      fun h => congrArg Except.ok (Except.ok.inj h)⟩
  | error e => exact ⟨fun h => (nomatch h), fun h => nomatch h⟩

theorem orFail_error {α : Type} {x : Except CompileError α} {f : Failure} :
    orFail x = .error f ↔ ∃ e, x = .error e ∧ f = .error e := by
  cases x with
  | ok b => exact ⟨fun h => (nomatch h), fun ⟨_, h, _⟩ => nomatch h⟩
  | error e =>
    refine ⟨fun h => ⟨e, rfl, (Except.error.inj h).symm⟩, ?_⟩
    rintro ⟨e', h, rfl⟩
    cases h
    rfl

/-- The tree of a source, behind unification. -/
def Source.typed (s : Source) : Except Failure Node := do
  let tree ← s.read
  let tree ← orFail tree.resolveNames
  let typing ← orFail tree.inferTypes
  orFail typing.unify

theorem Source.typed_ok_iff {tree : Node} : s.typed = .ok tree ↔ ∃ parsed named typing,
    s.read = .ok parsed ∧ parsed.resolveNames = .ok named ∧ named.inferTypes = .ok typing ∧
      typing.unify = .ok tree := by
  simp only [typed, bind_ok_iff, orFail_ok, exists_and_left]

theorem Source.read_ok_iff {parsed : Node} : s.read = .ok parsed ↔ s.parse = .ok parsed := orFail_ok

/-- Reading gives a program. -/
theorem Source.isProgram_of_read {parsed : Node} (h : s.read = .ok parsed) : IsProgram parsed :=
  s.isProgram_of_parse (read_ok_iff.1 h)

/-- **Behind unification**, a tree has all that the passes to come rely on. -/
theorem Source.isRoot_of_typed {tree : Node} (h : s.typed = .ok tree) :
    ∃ tags, IsRoot tags IsProgramName .matches tree := by
  obtain ⟨parsed, named, typing, hread, hnamed, htyping, hunify⟩ := typed_ok_iff.1 h
  obtain ⟨tags, -, -, hrenames, -⟩ := (isProgram_of_read hread).resolveNames_ok hnamed
  exact ⟨tags, hrenames.isRoot htyping hunify⟩

/-- **The passes behind unification succeed.** -/
theorem Source.lower_ok {tree : Node} (h : s.typed = .ok tree) :
    ∃ lowered indexed program, tree.lower = .ok lowered ∧ lowered.resolveIndices = .ok indexed ∧
      indexed.generate = .ok program ∧ ∃ m e, indexed = .top m e ∧ IsIndexed e := by
  obtain ⟨tags, hroot⟩ := isRoot_of_typed h
  obtain ⟨_, lowered, _, _, hlower, -, -, -, hcore⟩ := hroot.lower_ok fun _ => id
  obtain ⟨m, e, hindex, hindexed⟩ := hcore.resolveIndices_ok
  obtain ⟨program, hgenerate⟩ := hindexed.generate_ok
  exact ⟨lowered, _, program, hlower, hindex, hgenerate, m, e, rfl, hindexed⟩

/-- The errors of a program that was read: of names, and of types. -/
def CompileError.IsOfProgram (e : CompileError) : Prop := e.IsNameError ∨ e.IsTypeClash

theorem CompileError.IsOfProgram.kind_mem {e : CompileError} (h : e.IsOfProgram) :
    e.cause.kind ∈ [ErrorKind.nameError, .typeError, .unifyError] := by
  rcases h with h | h
  · rw [h]
    decide
  · rcases h.kind_eq with h | h
    all_goals
      rw [h]
      decide

theorem CompileError.IsOfProgram.kind_ne {e : CompileError} (h : e.IsOfProgram) {kind : ErrorKind}
    (hkind : kind ∉ [ErrorKind.nameError, .typeError, .unifyError]) : e.cause.kind ≠ kind :=
  fun heq => hkind (heq ▸ h.kind_mem)

/-- Up to unification, compilation ends only where reading does, or with an error of the program. -/
theorem Source.typed_error {f : Failure} (h : s.typed = .error f) :
    s.read = .error f ∨ ∃ e, f = .error e ∧ e.IsOfProgram := by
  rcases bind_error_iff.1 h with h | ⟨parsed, hread, h⟩
  · exact .inl h
  · right
    have hprogram := isProgram_of_read hread
    rcases bind_error_iff.1 h with h | ⟨named, hnamed, h⟩
    · obtain ⟨e, he, rfl⟩ := orFail_error.1 h
      exact ⟨e, rfl, .inl (hprogram.resolveNames_error he)⟩
    · obtain ⟨tags, -, -, hrenames, -⟩ := hprogram.resolveNames_ok (orFail_ok.1 hnamed)
      rcases bind_error_iff.1 h with h | ⟨typing, -, h⟩
      · obtain ⟨e, he, rfl⟩ := orFail_error.1 h
        exact ⟨e, rfl, .inr (hrenames.inferTypes_error he)⟩
      · obtain ⟨e, he, rfl⟩ := orFail_error.1 h
        exact ⟨e, rfl, .inr (typing.unify_error he)⟩

/-! ## 2. Compilation -/

/-- The program of a source, behind unification. -/
theorem Source.build_eq :
    s.build = (do
      let tree ← s.typed
      let tree ← tree.lower
      let tree ← orFail tree.resolveIndices
      orFail tree.generate) := by
  simp only [build, typed, bind_assoc]

theorem Source.build_ok_iff {p : Program} : s.build = .ok p ↔ ∃ tree lowered indexed,
    s.typed = .ok tree ∧ tree.lower = .ok lowered ∧ lowered.resolveIndices = .ok indexed ∧
      indexed.generate = .ok p := by
  simp only [build_eq, bind_ok_iff, orFail_ok, exists_and_left]

section Compile

variable {ink : Ink} {stopBehind : Option Stage} {format : OutputFormat} {f : Failure}

theorem Source.compile_unification :
    s.compile ink (some .unification) format = do
      let tree ← s.typed
      return .dump .unification (tree.print ink) := by
  simp only [compile, typed, reduceCtorEq, if_false, if_true, Option.some.injEq, bind_assoc]

theorem Source.compile_none :
    s.compile ink none format = do
      let tree ← s.typed
      let tree ← tree.lower
      let tree ← orFail tree.resolveIndices
      return .program ((← orFail tree.generate).written format) := by
  simp only [compile, typed, reduceCtorEq, if_false, bind_assoc]

/-- **Compilation succeeds** if and only if it does up to unification. -/
theorem Source.compile_ok_iff : (∃ o, s.compile ink none format = .ok o) ↔
    ∃ o, s.compile ink (some .unification) format = .ok o := by
  rw [compile_none, compile_unification]
  constructor
  · rintro ⟨o, h⟩
    obtain ⟨tree, htyped, -⟩ := bind_ok_iff.1 h
    exact ⟨_, bind_ok_iff.2 ⟨tree, htyped, rfl⟩⟩
  · rintro ⟨o, h⟩
    obtain ⟨tree, htyped, -⟩ := bind_ok_iff.1 h
    obtain ⟨lowered, indexed, program, hlower, hindex, hgenerate, -⟩ := lower_ok htyped
    exact ⟨_, bind_ok_iff.2 ⟨tree, htyped, bind_ok_iff.2 ⟨lowered, hlower,
      bind_ok_iff.2 ⟨indexed, orFail_ok.2 hindex,
        bind_ok_iff.2 ⟨program, orFail_ok.2 hgenerate, rfl⟩⟩⟩⟩⟩

/-- **Compilation fails only where it does up to unification**, wherever it is to stop. -/
theorem Source.typed_error_of_compile (h : s.compile ink stopBehind format = .error f) :
    s.typed = .error f := by
  rcases bind_error_iff.1 h with h | ⟨parsed, hread, h⟩
  · exact bind_error_iff.2 (.inl h)
  rcases bind_error_iff.1 h with h | ⟨named, hnamed, h⟩
  · exact bind_error_iff.2 (.inr ⟨parsed, hread, bind_error_iff.2 (.inl h)⟩)
  split at h
  · cases h
  rcases bind_error_iff.1 h with h | ⟨typing, htyping, h⟩
  · exact bind_error_iff.2 (.inr ⟨parsed, hread, bind_error_iff.2 (.inr ⟨named, hnamed,
      bind_error_iff.2 (.inl h)⟩)⟩)
  split at h
  · cases h
  rcases bind_error_iff.1 h with h | ⟨tree, hunify, h⟩
  · exact bind_error_iff.2 (.inr ⟨parsed, hread, bind_error_iff.2 (.inr ⟨named, hnamed,
      bind_error_iff.2 (.inr ⟨typing, htyping, h⟩)⟩)⟩)
  have htyped : s.typed = .ok tree := typed_ok_iff.2
    ⟨parsed, named, typing, hread, orFail_ok.1 hnamed, orFail_ok.1 htyping, orFail_ok.1 hunify⟩
  obtain ⟨lowered, indexed, program, hlower, hindex, hgenerate, -⟩ := lower_ok htyped
  split at h
  · cases h
  rcases bind_error_iff.1 h with h | ⟨tree', h', h⟩
  · rw [hlower] at h
    cases h
  rw [hlower] at h'
  cases h'
  split at h
  · cases h
  rcases bind_error_iff.1 h with h | ⟨tree', h', h⟩
  · obtain ⟨e, h, -⟩ := orFail_error.1 h
    rw [hindex] at h
    cases h
  obtain rfl : indexed = tree' := Except.ok.inj (hindex.symm.trans (orFail_ok.1 h'))
  split at h
  · cases h
  rcases bind_error_iff.1 h with h | ⟨program', -, h⟩
  · obtain ⟨e, h, -⟩ := orFail_error.1 h
    rw [hgenerate] at h
    cases h
  · cases h

/-- **Compilation fails only with errors of the program**, once the source is read. -/
theorem Source.compile_error (h : s.compile ink stopBehind format = .error f) :
    s.read = .error f ∨ ∃ e, f = .error e ∧ e.IsOfProgram :=
  typed_error (typed_error_of_compile h)

/-- Reading fails with an error of the text. -/
theorem Source.read_error (h : s.read = .error f) :
    ∃ e, f = .error e ∧ e.cause.kind = .syntaxError := by
  obtain ⟨e, he, rfl⟩ := orFail_error.1 h
  exact ⟨e, rfl, s.kind_of_parse_error he⟩

/-- **Compilation of a text breaks nothing that a pass relies on.** -/
theorem Source.compile_ne_defect : s.compile ink stopBehind format ≠ .error .defect := by
  intro h
  rcases compile_error h with h | ⟨e, h, -⟩
  · obtain ⟨e, h, -⟩ := read_error h
    cases h
  · cases h

end Compile

/-- **No defect surfaces.** Once a source is read, no pass ends with an error of its text. Once
    names are resolved, inference finds a type behind every name and every constructor. Once
    unification has succeeded, lowering, the placing of names and generation succeed. So compilation
    succeeds exactly when it does up to unification, and it never misses a name in the
    environment. -/
theorem Source.meets_no_defect (s : Source) :
    (∀ parsed, s.read = .ok parsed →
      (∀ e, parsed.resolveNames = .error e → e.cause.kind ≠ .syntaxError) ∧
      ∀ named, parsed.resolveNames = .ok named →
        (∀ e, named.inferTypes = .error e → e.cause.kind ≠ .syntaxError ∧
          ∀ x, e.cause ≠ .untypedVariable x ∧ e.cause ≠ .untypedConstructor x) ∧
        ∀ typing, named.inferTypes = .ok typing →
          (∀ e, typing.unify = .error e → e.cause.kind ≠ .syntaxError) ∧
          ∀ tree, typing.unify = .ok tree →
            ∃ lowered indexed program, tree.lower = .ok lowered ∧
              lowered.resolveIndices = .ok indexed ∧ indexed.generate = .ok program) ∧
    (∀ ink format, (∃ o, s.compile ink none format = .ok o) ↔
      ∃ o, s.compile ink (some .unification) format = .ok o) ∧
    ∀ ink stopBehind format e, s.compile ink stopBehind format = .error (.error e) →
      e.cause.kind ≠ .unboundNameError := by
  refine ⟨fun parsed hread => ?_, fun _ _ => compile_ok_iff, fun ink stopBehind format e h => ?_⟩
  · have hprogram := isProgram_of_read hread
    refine ⟨fun e he => ?_, fun named hnamed => ?_⟩
    · have hname : e.IsOfProgram := .inl (hprogram.resolveNames_error he)
      exact hname.kind_ne (by decide)
    obtain ⟨tags, -, -, hrenames, -⟩ := hprogram.resolveNames_ok hnamed
    refine ⟨fun e he => ?_, fun typing htyping => ⟨fun e he => ?_, fun tree htree => ?_⟩⟩
    · have hclash := hrenames.inferTypes_error he
      refine ⟨CompileError.IsOfProgram.kind_ne (.inr hclash) (by decide), fun x => ⟨?_, ?_⟩⟩
      all_goals
        intro hcause
        rw [CompileError.IsTypeClash, hcause] at hclash
        exact hclash
    · exact CompileError.IsOfProgram.kind_ne (.inr (typing.unify_error he)) (by decide)
    · have htyped : s.typed = .ok tree := bind_ok_iff.2 ⟨parsed, hread,
        bind_ok_iff.2 ⟨named, orFail_ok.2 hnamed,
          bind_ok_iff.2 ⟨typing, orFail_ok.2 htyping, orFail_ok.2 htree⟩⟩⟩
      obtain ⟨lowered, indexed, program, hlower, hindex, hgenerate, -⟩ := lower_ok htyped
      exact ⟨lowered, indexed, program, hlower, hindex, hgenerate⟩
  · rcases compile_error h with h | ⟨e', he', h⟩
    · obtain ⟨e', he', h⟩ := read_error h
      cases he'
      rw [h]
      decide
    · cases he'
      exact h.kind_ne (by decide)

end ClosureML
