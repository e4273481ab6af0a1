import ClosureML.Proofs.Compilation
import ClosureML.Proofs.Machine.CodeCorrect
import ClosureML.Proofs.Semantics.IndexingCorrect
import ClosureML.Proofs.Semantics.NamingCorrect
import ClosureML.Proofs.Semantics.TypeSafety
import ClosureML.Proofs.Types.Typing

/-!
# Programs behave as their sources

What a computation does is seen by how it ends: with which word, with some value that is none, or
for which reason without a value, and by all that it has printed then. The machine that runs the
program of a source ends as the evaluation of the tree that was read, when the tree that is lowered
has a typing derivation.

* `Computation.Ends` and `Node.Ends`: how a computation, and the evaluation of a program, ends;
* `Computation.Safe`: a computation that never goes wrong;
* `Source.Builds`: what the passes make of a source that they accept;
* `Source.IsWellTyped`: the tree that is lowered has a typing derivation.

Main statements: `Simulates.ends_iff` and `RunFollows.ends_iff` (what simulates a safe computation,
and what follows one, ends as it does), `Source.build_preserves` and `Source.build_safe`.
-/

namespace ClosureML

open ClosureML.Computation

/-! ## 1. How computations end -/

section Ends

variable {α β : Type} {word? : α → Option Int} {word?' : β → Option Int} {o : Outcome}
  {out : String}

/-- How a result is seen; that a bound was too small is not seen. -/
def Result.outcome? (word? : α → Option Int) : Result α → Option (Outcome × String)
  | .ok a out => some (.ofWord? (word? a), out)
  | .error e out => if e = .timeout then none else some (.stopped e, out)

namespace Computation

/-- A computation ends with an outcome, and has printed an output by then. -/
def Ends (word? : α → Option Int) (x : Computation α) (o : Outcome) (out : String) : Prop :=
  ∃ k, (x.within k "").outcome? word? = some (o, out)

/-- A computation never goes wrong. -/
def Safe (x : Computation α) : Prop := ∀ k out out', x.within k out ≠ .error .wrong out'

theorem Safe.not_ends {x : Computation α} (h : x.Safe) : ¬ x.Ends word? (.stopped .wrong) out := by
  rintro ⟨k, hk⟩
  cases hx : x.within k "" with
  | ok a out' =>
    rw [hx, Result.outcome?] at hk
    cases hw : word? a with
    | some n =>
      rw [hw] at hk
      cases hk
    | none =>
      rw [hw] at hk
      cases hk
  | error e out' =>
    rw [hx, Result.outcome?] at hk
    split at hk
    · cases hk
    · cases hk
      exact h k "" _ hx

theorem Ensures.safe {x : Computation α} {P : α → Prop} (h : ∀ k, Ensures k P x) : x.Safe :=
  fun k out => (h k out).2

namespace Simulates

variable {R : α → β → Prop} {x : Computation α} {y : Computation β}

/-- What simulates a safe computation is safe. -/
theorem safe (h : ∀ K, Simulates K R x y) (hx : x.Safe) : y.Safe := by
  intro k out out' hy
  rcases (h k).backward k (Nat.le_refl k) out with ⟨out'', htimeout⟩ | hagree
  · rw [hy] at htimeout
    cases htimeout
  · rw [hy] at hagree
    generalize hx' : x.within k out = r at hagree
    cases hagree with
    | stop => exact hx k out _ hx'
    | wrong => exact hx k out _ hx'

theorem outcome?_eq {r : Result α} {r' : Result β} (hagree : Agree R r r')
    (hword : ∀ a b, R a b → word? a = word?' b) (hr : ∀ out, r ≠ .error .wrong out) :
    r.outcome? word? = r'.outcome? word?' := by
  cases hagree with
  | value hab => rw [Result.outcome?, Result.outcome?, hword _ _ hab]
  | stop => rfl
  | wrong => exact absurd rfl (hr _)

/-- **What simulates a safe computation ends as it does.** -/
theorem ends_iff (h : ∀ K, Simulates K R x y) (hword : ∀ a b, R a b → word? a = word?' b)
    (hx : x.Safe) : y.Ends word?' o out ↔ x.Ends word? o out := by
  constructor
  · rintro ⟨k, hk⟩
    rcases (h k).backward k (Nat.le_refl k) "" with ⟨out', htimeout⟩ | hagree
    · rw [htimeout] at hk
      cases hk
    · exact ⟨k, (outcome?_eq hagree hword (hx k "")).trans hk⟩
  · rintro ⟨k, hk⟩
    rcases (h k).forward k (Nat.le_refl k) "" with ⟨out', htimeout⟩ | ⟨j, hagree⟩
    · rw [htimeout] at hk
      cases hk
    · exact ⟨j, (outcome?_eq hagree hword (hx k "")).symm.trans hk⟩

end Simulates

end Computation

/-- **A run that follows a safe computation ends as it does**, when it ends at the value of the
    computation. -/
theorem RunFollows.ends_iff {p : Program} {R : α → β → Prop} {done : β → String → MachineState}
    {x : Computation α} (h : ∀ k, RunFollows p R k p.start done (x.within k ""))
    (hdone : ∀ a b out, R a b → p.EndsFrom (done b out) (.ofWord? (word? a)) out) (hx : x.Safe) :
    p.Ends o out ↔ x.Ends word? o out := by
  constructor
  · intro hend
    obtain ⟨k, s', hsteps, hstop, -⟩ := id hend
    -- with a bound above the length of the run, the computation does not time out
    refine ⟨k + 1, ?_⟩
    have hfollows := h (k + 1)
    cases hresult : x.within (k + 1) "" with
    | ok a out' =>
      obtain ⟨b, j, hab, hrun⟩ := hfollows.value_of hresult
      obtain ⟨rfl, rfl⟩ := hend.unique ((hdone a b out' hab).after hrun)
      rfl
    | error e out' =>
      rw [hresult] at hfollows
      cases hfollows with
      | stop he hrun hstop' hout =>
        obtain ⟨rfl, rfl⟩ := hend.unique ⟨_, _, hrun, hstop', hout⟩
        exact if_neg he
      | timeout hj hrun =>
        have := hsteps.le_of_ends hstop hrun
        omega
      | wrong => exact absurd hresult (hx _ _ _)
  · rintro ⟨k, hk⟩
    cases hresult : x.within k "" with
    | ok a out' =>
      obtain ⟨b, j, hab, hrun⟩ := (h k).value_of hresult
      rw [hresult] at hk
      cases hk
      exact (hdone a b _ hab).after hrun
    | error e out' =>
      have hwrong : e ≠ .wrong := fun he => hx _ _ _ (he ▸ hresult)
      rw [hresult, Result.outcome?] at hk
      split at hk
      · cases hk
      · next htimeout =>
        cases hk
        exact (h k).ends_of hresult hwrong htimeout

end Ends

/-- The evaluation of a program ends with an outcome, and has printed an output by then. -/
def Node.Ends (n : Node) (o : Outcome) (out : String) : Prop :=
  (n.evaluate []).Ends Value.word? o out

/-! ## 2. From the tree that is lowered -/

section Lowering

variable {tags : List (String × Nat)} {P : String → Prop} {n : Node} {o : Outcome} {out : String}

/-- **Lowering keeps how a program ends.** -/
theorem IsRoot.lower_ends_iff (hP : ∀ x, P x → IsProgramName x) (hnames : (tags.map Prod.fst).Nodup)
    (htags : (tags.map Prod.snd).Nodup) (h : IsRoot tags P .matches n)
    (hsafe : (n.evaluate []).Safe) :
    ∃ lowered Q, n.lower = .ok lowered ∧ IsRoot tags Q .core lowered ∧ (lowered.evaluate []).Safe ∧
      ∀ o out, lowered.Ends o out ↔ n.Ends o out := by
  obtain ⟨matched, lowered, s, s', hlower, hmatched, htupled, herased, hcore⟩ := h.lower_ok hP
  have hmatches : ∀ K, Simulates K (LoweredValue tags) (n.evaluate []) (matched.evaluate []) := by
    cases h with
    | @mk m e he =>
      have heverywhere : (Node.top m e).Everywhere (Node.IsMatched tags) :=
        .mk trivial (List.forall_mem_singleton.2 (he.everywhere hP))
      exact fun K => (lowersFaithfully hnames htags (loweredCalls_simulate hnames htags K)
        heverywhere).1 _ ⟨heverywhere, .empty, s, trivial, hmatched⟩ [] [] .nil
  -- tuples are erased from what the lowering of matches has made
  have htuples : ∀ K, Simulates K (ErasedValue s) (matched.evaluate []) (lowered.evaluate []) := by
    cases htupled with
    | @mk m e he =>
      have heverywhere : (Node.top m e).Everywhere (Node.IsTupled s.Spares) :=
        .mk trivial (List.forall_mem_singleton.2 he.everywhere_tupled)
      have hbecomes : Erases s (.top m e) lowered := ⟨heverywhere, s, s', .refl s, herased⟩
      exact fun K => hbecomes.simulates (erasedCalls_simulate K) .nil
  have hmatchedSafe := Simulates.safe hmatches hsafe
  refine ⟨lowered, s'.Spares, hlower, hcore, Simulates.safe htuples hmatchedSafe, fun o out => ?_⟩
  have hfirst : matched.Ends o out ↔ n.Ends o out :=
    Simulates.ends_iff hmatches keepsValues_loweredValue.word?_eq hsafe
  have hsecond : lowered.Ends o out ↔ matched.Ends o out :=
    Simulates.ends_iff htuples keepsValues_erasedValue.word?_eq hmatchedSafe
  exact hsecond.trans hfirst

/-- **The machine ends as the program of core constructs.** -/
theorem IsRoot.machine_ends_iff (h : IsRoot tags P .core n) (hsafe : (n.evaluate []).Safe)
    {indexed : Node} {p : Program} (hindex : n.resolveIndices = .ok indexed)
    (hgenerate : indexed.generate = .ok p) : p.Ends o out ↔ n.Ends o out := by
  obtain ⟨m, e, hindex', hindexed⟩ := h.resolveIndices_ok
  obtain rfl := Except.ok.inj (hindex.symm.trans hindex')
  have hplaces := h.simulates_resolveIndices hindex'
  obtain ⟨code, -, hstands, hfollows⟩ := hindexed.main_follows hgenerate
  have hdone : ∀ v w out, Matches p v w →
      p.EndsFrom ⟨"main", code.length, [], [w], [], out⟩ (.ofWord? v.word?) out := by
    intro v w out hvw
    refine ⟨0, _, .refl, ?_, rfl⟩
    rw [hvw.word?_eq]
    exact (Nat.zero_add code.length ▸ hstands.right).halt
  refine Iff.trans (RunFollows.ends_iff hfollows hdone (Simulates.safe hplaces hsafe)) ?_
  exact Simulates.ends_iff hplaces (fun _ _ h => h.word?_eq) hsafe

end Lowering

/-! ## 3. Sources -/

/-- What the passes make of a source that they accept. -/
structure Source.Builds (s : Source) (parsed named : Node) (typing : Typing) (tree : Node)
    (p : Program) : Prop extends s.IsTyped parsed named typing tree where
  lower : ∃ lowered indexed, tree.lower = .ok lowered ∧ lowered.resolveIndices = .ok indexed ∧
    indexed.generate = .ok p

/-- The tree that is lowered has a typing derivation, with the numbers of components that inference
    has written into it. -/
def Source.IsWellTyped (s : Source) : Prop :=
  ∃ parsed named typing tree t, s.IsTyped parsed named typing tree ∧
    HasType named.declarations [] tree t

namespace Source

variable {s : Source} {p : Program} {parsed named tree : Node} {typing : Typing}

/-- A program is made by the passes, one after the other. -/
theorem builds_of_build (h : s.build = .ok p) : ∃ parsed named typing tree,
    s.Builds parsed named typing tree p := by
  obtain ⟨tree, lowered, indexed, htyped, hlower, hindex, hgenerate⟩ := build_ok_iff.1 h
  obtain ⟨parsed, named, typing, hread, hnamed, htyping, hunify⟩ := typed_ok_iff.1 htyped
  exact ⟨parsed, named, typing, tree, ⟨read_ok_iff.1 hread, hnamed, htyping, hunify⟩,
    lowered, indexed, hlower, hindex, hgenerate⟩

theorem IsTyped.unique {parsed' named' tree' : Node} {typing' : Typing}
    (h : s.IsTyped parsed named typing tree) (h' : s.IsTyped parsed' named' typing' tree') :
    named = named' ∧ tree = tree' := by
  obtain rfl := Except.ok.inj (h.parse.symm.trans h'.parse)
  obtain rfl := Except.ok.inj (h.resolveNames.symm.trans h'.resolveNames)
  obtain rfl := Except.ok.inj (h.inferTypes.symm.trans h'.inferTypes)
  exact ⟨rfl, Except.ok.inj (h.unify.symm.trans h'.unify)⟩

/-- A source is well typed when generalising apart makes the same tree of it, with the same numbers
    of components. -/
theorem IsTyped.isWellTyped (h : s.IsTyped parsed named typing tree) {tree' : Node}
    (hapart : named.inferredApart = .ok tree') (hsame : tree.bare = tree'.bare) :
    s.IsWellTyped := by
  obtain ⟨t, -, htype⟩ := named.hasType_of_inferredApart hapart
  exact ⟨parsed, named, typing, tree, _, h, (htype fun v => .var v.toNat).congr _ hsame⟩

/-- Types and numbers of components are all that inference writes into a tree. -/
theorem IsTyped.plain_eq (h : s.IsTyped parsed named typing tree) : tree.plain = named.plain := by
  obtain ⟨s', hinfers, -⟩ := named.infers_of_inferTypesBy h.inferTypes
  obtain ⟨σ, -, rfl⟩ := Typing.unify_ok_iff.1 h.unify
  rw [Node.applyTypes, Node.plain_mapMarks, hinfers.plain_eq]

/-- **Evaluation of a well-typed source never goes wrong**, and the machine, the tree that is
    lowered and the tree that was read end alike. -/
theorem Builds.ends_iff (h : s.Builds parsed named typing tree p) (htyped : s.IsWellTyped) :
    (tree.evaluate []).Safe ∧ ∀ o out,
      (p.Ends o out ↔ tree.Ends o out) ∧ (parsed.Ends o out ↔ tree.Ends o out) := by
  obtain ⟨_, _, _, _, t, htyped, htype⟩ := htyped
  obtain ⟨rfl, rfl⟩ := h.toIsTyped.unique htyped
  obtain ⟨tags, hnames, htags, hrenames, hdeclarations⟩ :=
    (s.isProgram_of_parse h.parse).resolveNames_ok h.resolveNames
  have hnodup : (named.declarations.map Declaration.name).Nodup := hdeclarations ▸ hnames
  have hsafe : (tree.evaluate []).Safe := Ensures.safe fun k =>
    htype.ensures hnodup (call_ensures hnodup k) (ρ := .var) .nil
  refine ⟨hsafe, fun o out => ⟨?_, ?_⟩⟩
  · have hroot := hrenames.isRoot h.inferTypes h.unify
    obtain ⟨lowered, Q, hlower, hcore, hlowered, hends⟩ :=
      hroot.lower_ends_iff (fun _ => id) hnames htags hsafe
    obtain ⟨lowered', indexed, hlower', hindex, hgenerate⟩ := h.lower
    obtain rfl := Except.ok.inj (hlower.symm.trans hlower')
    exact (hcore.machine_ends_iff hlowered hindex hgenerate).trans (hends o out)
  · exact Simulates.ends_iff (hrenames.simulates h.toIsTyped.plain_eq)
      (fun _ _ h => h.word?_eq) hsafe

/-- What unification accepts, the passes behind it make a program of. -/
theorem IsTyped.build_ok (h : s.IsTyped parsed named typing tree) :
    ∃ p lowered m e, s.build = .ok p ∧ tree.lower = .ok lowered ∧
      lowered.resolveIndices = .ok (.top m e) ∧ IsIndexed e ∧ (Node.top m e).generate = .ok p := by
  have htyped : s.typed = .ok tree := typed_ok_iff.2
    ⟨parsed, named, typing, read_ok_iff.2 h.parse, h.resolveNames, h.inferTypes, h.unify⟩
  obtain ⟨lowered, _, p, hlower, hindex, hgenerate, m, e, rfl, hindexed⟩ := lower_ok htyped
  exact ⟨p, lowered, m, e, build_ok_iff.2 ⟨tree, lowered, _, htyped, hlower, hindex, hgenerate⟩,
    hlower, hindex, hindexed, hgenerate⟩

/-- **The program of a well-typed source behaves as the source**: the machine ends with a word, with
    some value that is none, with an exit code, or for another reason, if and only if the evaluation
    of the tree that was read does, and the output is the same. -/
theorem build_preserves (hbuild : s.build = .ok p) (htyped : s.IsWellTyped) :
    ∃ parsed, s.parse = .ok parsed ∧ ∀ o out, p.Ends o out ↔ parsed.Ends o out := by
  obtain ⟨parsed, named, typing, tree, h⟩ := builds_of_build hbuild
  obtain ⟨-, hends⟩ := h.ends_iff htyped
  exact ⟨parsed, h.parse, fun o out => (hends o out).1.trans (hends o out).2.symm⟩

/-- **The program of a well-typed source gets stuck in no state that it reaches**: there is a next
    step, or the run ends at `halt`, with an exit code, with a fault of an operator on words, or at
    an equality or a call of `panic` with a value that is no word. -/
theorem build_safe (hbuild : s.build = .ok p) (htyped : s.IsWellTyped) {k : Nat} {s' : MachineState}
    (hsteps : Steps p k p.start s') :
    (∃ s'', p.step s' = .ok s'') ∨ ∃ o, p.step s' = .error o ∧ p.Stops s' o := by
  obtain ⟨parsed, named, typing, tree, h⟩ := builds_of_build hbuild
  obtain ⟨hsafe, hends⟩ := h.ends_iff htyped
  cases hstep : p.step s' with
  | ok s'' => exact .inl ⟨s'', rfl⟩
  | error o =>
    refine .inr ⟨o, rfl, Program.stops_of_step hstep ?_⟩
    rintro rfl
    have hstuck : p.Ends (.stopped .wrong) s'.output := ⟨k, s', hsteps, hstep, rfl⟩
    exact hsafe.not_ends ((hends _ _).1.1 hstuck)

end Source

/-! ## 4. Programs -/

/-- A `match` on a data type inside a function that a `let` binds; its result is printed, and a
    component is given back. -/
def printedMatch : Source :=
  .ofText ("data O = N | S (int) in let f = \\x -> match x \x7b N -> 0; S (y) -> y \x7d in "
    ++ "println (f (S 7)); (1, 2).1")

set_option maxRecDepth 100000 in
/-- It is well typed, and what it does is seen from its tree. -/
theorem printedMatch_builds : ∃ p parsed, printedMatch.build = .ok p ∧ printedMatch.IsWellTyped ∧
    printedMatch.parse = .ok parsed ∧ parsed.Ends (.word 2) "7\n" := by
  have h : (do
      let parsed ← printedMatch.parse
      let _ ← (← (← parsed.resolveNames).inferTypes).unify
      return ((parsed.evaluate []).within 1 "").outcome? Value.word?) =
      .ok (some (.word 2, "7\n")) := by cbv
  have hsame : (do return (← (← (← (← printedMatch.parse).resolveNames).inferTypes).unify).bare) =
      (do return (← (← (← printedMatch.parse).resolveNames).inferredApart).bare) := by cbv
  obtain ⟨parsed, hparsed, h⟩ := bind_ok_iff.1 h
  obtain ⟨named, hnamed, h⟩ := bind_ok_iff.1 h
  obtain ⟨typing, htyping, h⟩ := bind_ok_iff.1 h
  obtain ⟨tree, htree, h⟩ := bind_ok_iff.1 h
  have hends := Except.ok.inj h
  have htyped : printedMatch.IsTyped parsed named typing tree := ⟨hparsed, hnamed, htyping, htree⟩
  have hbare := hsame.symm.trans (bind_ok_iff.2 ⟨parsed, hparsed, bind_ok_iff.2 ⟨named, hnamed,
    bind_ok_iff.2 ⟨typing, htyping, bind_ok_iff.2 ⟨tree, htree, rfl⟩⟩⟩⟩)
  obtain ⟨parsed', hparsed', hbare⟩ := bind_ok_iff.1 hbare
  obtain rfl := Except.ok.inj (hparsed.symm.trans hparsed')
  obtain ⟨named', hnamed', hbare⟩ := bind_ok_iff.1 hbare
  obtain rfl := Except.ok.inj (hnamed.symm.trans hnamed')
  obtain ⟨tree', htree', hbare⟩ := bind_ok_iff.1 hbare
  obtain ⟨p, _, _, _, hbuild, -⟩ := htyped.build_ok
  exact ⟨p, parsed, hbuild, htyped.isWellTyped htree' (Except.ok.inj hbare).symm, hparsed, 1, hends⟩

theorem build_preserves_printedMatch : ∃ p, printedMatch.build = .ok p ∧ printedMatch.IsWellTyped ∧
    p.Ends (.word 2) "7\n" := by
  obtain ⟨p, parsed, hbuild, htyped, hparsed, hends⟩ := printedMatch_builds
  obtain ⟨parsed', hparsed', hiff⟩ := Source.build_preserves hbuild htyped
  obtain rfl := Except.ok.inj (hparsed.symm.trans hparsed')
  exact ⟨p, hbuild, htyped, (hiff _ _).2 hends⟩

/-- In the last state of this program, there is no next step, and the run ends at `halt`. -/
theorem build_safe_printedMatch : ∃ p k s', printedMatch.build = .ok p ∧ printedMatch.IsWellTyped ∧
    Steps p k p.start s' ∧ s'.output = "7\n" ∧ p.Stops s' (.word 2) := by
  obtain ⟨p, parsed, hbuild, htyped, hparsed, hparsedEnds⟩ := printedMatch_builds
  obtain ⟨parsed', _, _, _, h⟩ := Source.builds_of_build hbuild
  obtain rfl := Except.ok.inj (hparsed.symm.trans h.parse)
  obtain ⟨-, hends⟩ := h.ends_iff htyped
  obtain ⟨k, s', hsteps, hstep, hout⟩ := (hends _ _).1.2 ((hends _ _).2.1 hparsedEnds)
  refine ⟨p, k, s', hbuild, htyped, hsteps, hout, ?_⟩
  rcases Source.build_safe hbuild htyped hsteps with ⟨s'', hstep'⟩ | ⟨o, hstep', hstops⟩
  · cases hstep.symm.trans hstep'
  · obtain rfl := Except.error.inj (hstep.symm.trans hstep')
    exact hstops

/-- A component of a parameter is bound by a `let`, and used as a tuple with another number of
    components. -/
def misprojected : Source :=
  .ofText ("(\\p -> match p \x7b (a, b) -> 0 \x7d; let y = p.0 in "
    ++ "(if true then y else (1, 2, 3)).0) ((7, 8), 0)")

set_option maxRecDepth 100000 in
/-- **A program is accepted that does not behave as its source**: the name is generalised too far,
    so the projection records a number of components that the tuple has not. -/
theorem misprojected_ends : ∃ p parsed,
    misprojected.build = .ok p ∧ misprojected.parse = .ok parsed ∧
    parsed.Ends (.word 7) "" ∧ p.Ends .closure "" ∧ ¬ p.Ends (.word 7) "" := by
  have h : (do
      let parsed ← orFail misprojected.parse
      let tree ← orFail (← orFail (← orFail parsed.resolveNames).inferTypes).unify
      let indexed ← orFail (← tree.lower).resolveIndices
      return (((parsed.evaluate []).within 1 "").outcome? Value.word?,
        ((indexed.evaluateIndexed []).within 9 "").outcome? IndexedValue.word?)) =
      .ok (some (.word 7, ""), some (.closure, "")) := by cbv
  obtain ⟨parsed, hparsed, h⟩ := bind_ok_iff.1 h
  obtain ⟨named, hnamed, h⟩ := bind_ok_iff.1 h
  obtain ⟨typing, htyping, h⟩ := bind_ok_iff.1 h
  obtain ⟨tree, htree, h⟩ := bind_ok_iff.1 h
  obtain ⟨lowered, hlowered, h⟩ := bind_ok_iff.1 h
  obtain ⟨indexed, hindexed, h⟩ := bind_ok_iff.1 h
  obtain ⟨hends, houtcome⟩ := Prod.mk.inj (Except.ok.inj h)
  have htyped : misprojected.IsTyped parsed named typing tree :=
    ⟨orFail_ok.1 hparsed, orFail_ok.1 hnamed, orFail_ok.1 htyping, orFail_ok.1 htree⟩
  obtain ⟨p, lowered', m, e, hbuild, hlowered', hindexed', he, hgenerate⟩ := htyped.build_ok
  obtain rfl := Except.ok.inj (hlowered.symm.trans hlowered')
  obtain rfl := Except.ok.inj ((orFail_ok.1 hindexed).symm.trans hindexed')
  obtain ⟨code, -, hstands, hfollows⟩ := he.main_follows hgenerate
  have hclosure : p.Ends .closure "" := by
    change ((e.evaluateIndexed []).within 9 "").outcome? IndexedValue.word? = _ at houtcome
    cases hresult : (e.evaluateIndexed []).within 9 "" with
    | ok v out =>
      obtain ⟨w, j, hvw, hsteps⟩ := (hfollows 9).value_of hresult
      rw [hresult, Result.outcome?, hvw.word?_eq] at houtcome
      obtain ⟨hword, rfl⟩ := Prod.mk.inj (Option.some.inj houtcome)
      refine ⟨j, _, hsteps, ?_, rfl⟩
      rw [← hword]
      exact (Nat.zero_add code.length ▸ hstands.right).halt
    | error e out =>
      rw [hresult, Result.outcome?] at houtcome
      split at houtcome <;> cases houtcome
  refine ⟨p, parsed, hbuild, htyped.parse, ⟨1, hends⟩, hclosure, fun hword => ?_⟩
  cases (hclosure.unique hword).1

/-- Two functions are compared. -/
def compared : Source := .ofText "(\\x -> x) == (\\y -> y)"

/-- Its program: two closures are made and compared. -/
def comparedProgram : Program :=
  ⟨[⟨"main", [.closure "lam0", .closure "lam1", .binary .equals, .halt]⟩,
    ⟨"lam0", [.access 1, .leave]⟩, ⟨"lam1", [.access 1, .leave]⟩]⟩

set_option maxRecDepth 100000 in
/-- **An accepted program can reach a state in which an equality finds values that are no words**,
    so that there is no next step. -/
theorem compared_mismatch : compared.build = .ok comparedProgram ∧ ∃ k s' v w,
    Steps comparedProgram k comparedProgram.start s' ∧
      comparedProgram.instruction? s' = some (.binary .equals) ∧ s'.stack = [w, v] ∧
        v.word? = none ∧ w.word? = none ∧
          comparedProgram.step s' = .error (.stopped .mismatch) := by
  have hbuild : compared.build = .ok comparedProgram := by cbv
  have hsteps : Steps comparedProgram 2 comparedProgram.start
      ⟨"main", 2, [], [.closure "lam1" [], .closure "lam0" []], [], ""⟩ :=
    .step rfl (.step rfl .refl)
  exact ⟨hbuild, 2, _, _, _, hsteps, rfl, rfl, rfl, rfl, rfl⟩

end ClosureML
