import ClosureML.Proofs.Machine.RunsThrough
import ClosureML.Proofs.Semantics.IndexedEvaluation
import ClosureML.Proofs.Semantics.Simulation

/-!
# Generated code is correct

The code of a tree pushes the value that the tree evaluates to, wherever the code stands in the
program, whatever lies on the stack and whichever blocks wait. Values of both sides belong together
when they are the same word or builtin, or closures of a tree and of the block that runs it.

* `Matches p v w`: the value `w` of the machine belongs to the value `v` of an evaluation;
* `CodeFollows p k n env`: the code of a tree does what its evaluation in `env` does;
* `CallsFollow p k`: an application of closures does what a call of functions does;
* `Part n e`: the expression `n` is a part of `e`, or the body of a function in it.

Main statements: `IsIndexed.codeFollows` (one case for each construct), `callsFollow` (by induction
on the depth of calls), `Part.isPlaced` (the code of every part stands somewhere) and
`IsIndexed.generate_simulates`.
-/

namespace ClosureML

open ClosureML.Computation Machine

/-! ## 1. Values -/

/-- **The value of the machine belongs to the value of an evaluation.** A closure runs the block of
    its body, and a group those of its functions, in an environment that belongs to theirs. -/
inductive Matches (p : Program) : IndexedValue → MachineValue → Prop where
  | word {n : Int} : Matches p (.word n) (.word n)
  | builtin {b : Builtin} : Matches p (.builtin b) (.builtin b)
  | closure {env : List IndexedValue} {menv : List MachineValue} {body : Node} {block : Label}
      (henv : List.Forall₂ (Matches p) env menv) (hbody : IsIndexed body)
      (hblock : HasBlock p block body) : Matches p (.closure env body) (.closure block menv)
  | group {env : List IndexedValue} {menv : List MachineValue} {functions : List Node}
      {blocks : List Label} (henv : List.Forall₂ (Matches p) env menv)
      (hfunctions : AreIndexedFunctions functions)
      (hblocks : List.Forall₂ (HasBlock p) blocks functions) :
      Matches p (.group env functions) (.group blocks menv)

section Values

variable {p : Program} {env : List IndexedValue} {menv : List MachineValue} {v : IndexedValue}

/-- Values that belong together are the same words. -/
theorem Matches.word?_eq {w : MachineValue} (h : Matches p v w) : v.word? = w.word? := by
  cases h <;> rfl

theorem numbered?_forall₂ {α β : Type} {R : α → β → Prop} {as : List α} {bs : List β}
    (h : List.Forall₂ R as bs) {i : Nat} {a : α} (ha : numbered? as i = some a) :
    ∃ b, numbered? bs i = some b ∧ R a b := by
  cases i with
  | zero => cases ha
  | succ i => exact forall₂_getElem? h ha

theorem AreIndexedFunctions.of_numbered? {functions : List Node} (h : AreIndexedFunctions functions)
    {i : Nat} {n : Node} (hn : numbered? functions i = some n) :
    ∃ m f x pa ra body, n = .letRecArm m f x pa ra body ∧ IsIndexed body := by
  cases i with
  | zero => cases hn
  | succ i =>
    have hmem : n ∈ functions := List.mem_of_getElem? hn
    clear hn
    induction functions with
    | nil => cases hmem
    | cons arm rest ih =>
      cases h with
      | cons hbody hrest =>
        rcases List.mem_cons.1 hmem with rfl | hmem
        · exact ⟨_, _, _, _, _, _, rfl, hbody⟩
        · exact ih hrest hmem

theorem HasBlock.letRecArm {block : Label} {m : Mark} {f x : String} {pa ra : Option TypeExpr}
    {body : Node} (h : HasBlock p block (.letRecArm m f x pa ra body)) : HasBlock p block body := by
  obtain ⟨code, hcode, hmem⟩ := h
  exact ⟨code, hcode.letRecArm, hmem⟩

/-- A member of a group that belongs to another. -/
theorem Matches.member {functions : List Node} {blocks : List Label} {number : Nat}
    (h : Matches p (.group env functions) (.group blocks menv))
    (hv : IndexedValue.member? env functions number = some v) :
    ∃ block, numbered? blocks number = some block ∧
      Matches p v (.closure block (.group blocks menv :: menv)) := by
  have hgroup := h
  cases h with
  | group henv hfunctions hblocks =>
    cases hn : numbered? functions number with
    | none =>
      rw [IndexedValue.member?, hn] at hv
      cases hv
    | some n =>
      obtain ⟨m, f, x, pa, ra, body, rfl, hbody⟩ := hfunctions.of_numbered? hn
      obtain ⟨block, hblock, hhas⟩ := numbered?_forall₂ hblocks.flip hn
      rw [IndexedValue.member?, hn] at hv
      cases hv
      exact ⟨block, hblock, .closure (.cons hgroup henv) hbody (HasBlock.letRecArm hhas)⟩

end Values

/-! ## 2. Blocks and calls -/

section Follow

variable {p : Program} {k : Nat} {n : Node} {env : List IndexedValue} {menv : List MachineValue}
  {label : Label} {counter counter' : Nat} {code : List Instruction} {stack : List MachineValue}
  {frames : List Frame} {out : String}

/-- **The code of a tree does what its evaluation does**, wherever it stands, in an environment that
    belongs to that of the evaluation: its value is pushed, and nothing else changes. -/
def CodeFollows (p : Program) (k : Nat) (n : Node) (env : List IndexedValue) : Prop :=
  ∀ ⦃code : List Instruction⦄ ⦃label : Label⦄ ⦃counter counter' : Nat⦄ ⦃menv : List MachineValue⦄
    (stack : List MachineValue) (frames : List Frame) (out : String), HasCode p n code →
    StandsAt p label counter code → counter + code.length = counter' →
    List.Forall₂ (Matches p) env menv →
      RunFollows p (Matches p) k ⟨label, counter, menv, stack, frames, out⟩
        (fun w out => ⟨label, counter', menv, w :: stack, frames, out⟩)
        ((n.evaluateIndexed env).within k out)

/-- **An application does what a call does.** -/
def CallsFollow (p : Program) (k : Nat) : Prop :=
  ∀ ⦃f v : IndexedValue⦄ ⦃f' v' : MachineValue⦄ ⦃label : Label⦄ ⦃counter : Nat⦄
    ⦃code : List Instruction⦄ (menv stack : List MachineValue) (frames : List Frame) (out : String),
    Matches p f f' → Matches p v v' → StandsAt p label counter (.apply :: code) →
      RunFollows p (Matches p) k ⟨label, counter, menv, v' :: f' :: stack, frames, out⟩
        (fun w out => ⟨label, counter + 1, menv, w :: stack, frames, out⟩)
        ((callIndexed f v).within k out)

/-- **A block that was entered** does what its tree does, and then goes back. -/
theorem CodeFollows.block (hp : p.IsLabelled) (h : CodeFollows p k n env) {block : Label}
    (hblock : HasBlock p block n) (henv : List.Forall₂ (Matches p) env menv) {back : Frame} :
    RunFollows p (Matches p) k ⟨block, 0, menv, stack, back :: frames, out⟩
      (fun w out => ⟨back.block, back.counter, back.environment, w :: stack, frames, out⟩)
      ((n.evaluateIndexed env).within k out) := by
  obtain ⟨code, hcode, hmem⟩ := hblock
  have hstands := hp.standsAt hmem
  refine (h stack (back :: frames) out hcode hstands.left rfl henv).before fun v w out' _ => ?_
  have hstep :=
    hstands.right.step (s := ⟨block, 0 + code.length, menv, w :: stack, back :: frames, out'⟩)
  exact ⟨1, .one hstep⟩

/-- The state behind the `apply` of a block that is entered. -/
theorem StandsAt.apply_closure (h : StandsAt p label counter (.apply :: code)) {w : MachineValue}
    {block : Label} {env : List MachineValue} :
    p.step ⟨label, counter, menv, w :: .closure block env :: stack, frames, out⟩ =
      .ok ⟨block, 0, w :: env, stack, ⟨label, counter + 1, menv⟩ :: frames, out⟩ :=
  h.step (s := ⟨label, counter, menv, w :: .closure block env :: stack, frames, out⟩)

/-- What an operator or a builtin ends with, one step of the machine ends with. -/
theorem RunFollows.orStop {α : Type} {x : Except Stop α} {s : MachineState}
    (done : α → String → MachineState) (hx : ∀ e, x = .error e → e ≠ .timeout)
    (hok : ∀ a, x = .ok a → p.step s = .ok (done a s.output))
    (herror : ∀ e, x = .error e → p.step s = .error (.stopped e)) :
    RunFollows p (fun a b => a = b) k s done ((Computation.orStop x).within k s.output) := by
  cases x with
  | ok a => exact .value rfl (.one (hok a rfl))
  | error e => exact .error (hx e rfl) (herror e rfl)

/-- A builtin is called in one step. -/
theorem RunFollows.perform {b : Builtin} {v : IndexedValue} {v' : MachineValue}
    (hv : Matches p v v') (h : StandsAt p label counter (.apply :: code)) :
    RunFollows p (Matches p) k ⟨label, counter, menv, v' :: .builtin b :: stack, frames, out⟩
      (fun w out => ⟨label, counter + 1, menv, w :: stack, frames, out⟩)
      ((callIndexed (.builtin b) v).within k out) := by
  rw [callIndexed_builtin, hv.word?_eq]
  have hstep := h.step (s := ⟨label, counter, menv, v' :: .builtin b :: stack, frames, out⟩)
  refine RunFollows.bind (R := fun a b => a = b)
    (.orStop (s := ⟨label, counter, menv, v' :: .builtin b :: stack, frames, out⟩)
      (fun text out => ⟨label, counter + 1, menv, .word 0 :: stack, frames, out ++ text⟩)
      (fun e he => Builtin.perform_ne_timeout he) (fun text htext => ?_) fun e he => ?_) ?_
  · rw [hstep]
    simp only [Instruction.execute, htext]
  · rw [hstep]
    simp only [Instruction.execute, he]
  · rintro text _ out rfl
    exact .value .word .refl

/-- **Calls are followed**, when the code of bodies does what their evaluation does, with calls
    nested one less deep. -/
theorem CallsFollow.of_bodies (hp : p.IsLabelled)
    (h : ∀ j < k, ∀ n env, IsIndexed n → CodeFollows p j n env) : CallsFollow p k := by
  intro f v f' v' label counter code menv stack frames out hf hv hstands
  cases hf with
  | word =>
    rw [callIndexed_word]
    exact .wrong
  | builtin => exact .perform hv hstands
  | closure henv hbody hblock =>
    rw [callIndexed_closure]
    exact .later hstands.apply_closure fun j hj =>
      (h j hj _ _ hbody).block hp hblock (.cons hv henv)
  | group =>
    rw [callIndexed_group]
    exact .wrong

end Follow

/-! ## 3. Constructs -/

namespace CodeFollows

variable {p : Program} {k : Nat} {m : Mark} {env : List IndexedValue}

theorem literal {l : Literal} : CodeFollows p k (.literal m l) env := by
  intro code label counter counter' menv stack frames out hcode hstands hend henv
  obtain rfl := hcode.literal
  subst hend
  exact .value .word (.one (hstands.step (s := ⟨label, counter, menv, stack, frames, out⟩)))

theorem builtin {b : Builtin} : CodeFollows p k (.builtin m b) env := by
  intro code label counter counter' menv stack frames out hcode hstands hend henv
  obtain rfl := hcode.builtin
  subst hend
  exact .value .builtin (.one (hstands.step (s := ⟨label, counter, menv, stack, frames, out⟩)))

/-- A slot, or the member of the group in a slot, lies at the same place on both sides. -/
theorem indexed {depth : Nat} {sibling : Option Nat} :
    CodeFollows p k (.indexed m depth sibling) env := by
  intro code label counter counter' menv stack frames out hcode hstands hend henv
  obtain rfl := hcode.indexed
  subst hend
  rw [evaluateIndexed_indexed]
  cases hv : IndexedValue.at? env depth sibling with
  | none => exact .wrong
  | some v =>
    obtain ⟨slot, hslot, hplace⟩ := IndexedValue.of_at? hv
    obtain ⟨w, hw, hmatches⟩ := numbered?_forall₂ henv hslot
    have haccess : Instruction.execute p ⟨label, counter + 1, menv, stack, frames, out⟩
        (.access depth) = .ok ⟨label, counter + 1, menv, w :: stack, frames, out⟩ := by
      simp only [Instruction.execute, hw]
      rfl
    -- a value is fetched by `access`; a member is focused on within its group
    rcases hplace with ⟨rfl, rfl⟩ | ⟨outer, functions, number, rfl, rfl, hmember⟩
    · have hstep := hstands.step (s := ⟨label, counter, menv, stack, frames, out⟩)
      exact .value hmatches (.one (hstep.trans haccess))
    · obtain ⟨blocks, menv', rfl⟩ : ∃ blocks menv', w = .group blocks menv' := by
        cases hmatches
        exact ⟨_, _, rfl⟩
      obtain ⟨block, hblock, hv⟩ := hmatches.member hmember
      have hstep := hstands.step (s := ⟨label, counter, menv, stack, frames, out⟩)
      have hfocus := hstands.tail.step
        (s := ⟨label, counter + 1, menv, .group blocks menv' :: stack, frames, out⟩)
      refine .value hv (.step (hstep.trans haccess) (.one (hfocus.trans ?_)))
      simp only [Instruction.execute, hblock]
      rfl

theorem lambda {x : String} {a : Option TypeExpr} {body : Node} (hbody : IsIndexed body) :
    CodeFollows p k (.lambda m x a body) env := by
  intro code label counter counter' menv stack frames out hcode hstands hend henv
  obtain ⟨block, rfl, hblock⟩ := hcode.lambda
  subst hend
  exact .value (.closure henv hbody hblock)
    (.one (hstands.step (s := ⟨label, counter, menv, stack, frames, out⟩)))

theorem application {f a : Node} (hcalls : CallsFollow p k) (hf : CodeFollows p k f env)
    (ha : CodeFollows p k a env) : CodeFollows p k (.application m f a) env := by
  intro code label counter counter' menv stack frames out hcode hstands hend henv
  obtain ⟨function, argument, rfl, hfunction, hargument⟩ := hcode.application
  rw [List.append_assoc] at hstands hend
  have happly := hstands.right
  obtain rfl : counter + function.length + argument.length + 1 = counter' := by
    simpa [Nat.add_assoc] using hend
  rw [evaluateIndexed_application]
  refine (hf stack frames out hfunction hstands.left rfl henv).bind fun g g' out hg => ?_
  refine (ha (g' :: stack) frames out hargument happly.left rfl henv).bind fun v v' out hv => ?_
  exact hcalls menv stack frames out hg hv happly.right

/-- A `let` enters the block of its body with the value. -/
theorem letIn {x : String} {a : Option TypeExpr} {value body : Node} (hp : p.IsLabelled)
    (hvalue : CodeFollows p k value env) (hbody : ∀ v, CodeFollows p k body (v :: env)) :
    CodeFollows p k (.letIn m x a value body) env := by
  intro code label counter counter' menv stack frames out hcode hstands hend henv
  obtain ⟨block, valueCode, rfl, hcode, hblock⟩ := hcode.letIn
  have hrest : StandsAt p label (counter + 1) (valueCode ++ [.apply]) := StandsAt.tail hstands
  obtain rfl : counter + 1 + valueCode.length + 1 = counter' := by
    rw [← hend]
    simp only [List.length_append, List.length_cons, List.length_nil]
    omega
  have hstep := hstands.step (s := ⟨label, counter, menv, stack, frames, out⟩)
  rw [evaluateIndexed_letIn]
  -- the closure of the body is pushed before the value that it is applied to
  refine .step ?_ hstep
  refine (hvalue (.closure block menv :: stack) frames out hcode hrest.left rfl henv).bind
    fun v v' out hv => ?_
  exact ((hbody v).block hp hblock (.cons hv henv)).step hrest.right.apply_closure

/-- A group of functions is made, and the block of the body is entered with it. -/
theorem letRec {arms : List Node} {body : Node} (hp : p.IsLabelled)
    (harms : AreIndexedFunctions arms) (hbody : CodeFollows p k body (.group env arms :: env)) :
    CodeFollows p k (.letRec m arms body) env := by
  intro code label counter counter' menv stack frames out hcode hstands hend henv
  obtain ⟨block, members, rfl, hmembers, hblock⟩ := hcode.letRec
  subst hend
  have hstep := hstands.step (s := ⟨label, counter, menv, stack, frames, out⟩)
  have hstep' := hstands.tail.step
    (s := ⟨label, counter + 1, menv, .closure block menv :: stack, frames, out⟩)
  rw [evaluateIndexed_letRec]
  have hgroup : Matches p (.group env arms) (.group members menv) := .group henv harms hmembers
  exact (((hbody.block hp hblock (.cons hgroup henv)).step
    hstands.tail.tail.apply_closure).step hstep').step hstep

/-- A conditional branches to one of its two codes, and goes on behind both. -/
theorem conditional {c t e : Node} (hp : p.IsLabelled) (hc : CodeFollows p k c env)
    (ht : CodeFollows p k t env) (he : CodeFollows p k e env) :
    CodeFollows p k (.conditional m c t e) env := by
  intro code label counter counter' menv stack frames out hcode hstands hend henv
  obtain ⟨condition, thenCode, elseCode, thenLabel, elseLabel, endLabel, rfl, hcondition, hthen,
    helse⟩ := hcode.conditional
  rw [conditionalCode_eq] at hstands
  have hbranch := hstands.right
  have hthenAt := hbranch.tail.tail
  have hendBranch := hthenAt.right
  have helseAt := hendBranch.tail.tail
  have hendAt := helseAt.right
  obtain rfl : counter + condition.length + 1 + 1 + thenCode.length + 1 + 1 + elseCode.length + 1 =
      counter' := by
    rw [← hend, conditionalCode_eq]
    simp only [List.length_append, List.length_cons, List.length_nil]
    omega
  rw [evaluateIndexed_conditional]
  refine (hc stack frames out hcondition hstands.left rfl henv).bind fun v v' out hv => ?_
  rw [hv.word?_eq]
  cases v' with
  | builtin | closure | group => exact .wrong
  | word n =>
    have hstep :=
      hbranch.step (s := ⟨label, counter + condition.length, menv, .word n :: stack, frames, out⟩)
    show RunFollows p _ k _ _
      ((if n = 0 then e.evaluateIndexed env else t.evaluateIndexed env).within k out)
    by_cases hn : n = 0
    · rw [if_pos hn]
      have hjump : Instruction.execute p
          ⟨label, counter + condition.length + 1, menv, .word n :: stack, frames, out⟩
          (.branch .brfl elseLabel) =
            .ok ⟨label, counter + condition.length + 1 + 1 + thenCode.length + 1, menv, stack,
              frames, out⟩ := by
        simp only [Instruction.execute, if_pos hn]
        exact StandsAt.jump hp hendBranch.tail
      have hlabel := hendBranch.tail.step (s := ⟨label, _, menv, stack, frames, out⟩)
      refine .step (.step ?_ hlabel) (hstep.trans hjump)
      refine (he stack frames out helse helseAt.left rfl henv).before fun w w' out _ => ?_
      exact ⟨1, .one (hendAt.step (s := ⟨label, _, menv, w' :: stack, frames, out⟩))⟩
    · rw [if_neg hn]
      have hpass : Instruction.execute p
          ⟨label, counter + condition.length + 1, menv, .word n :: stack, frames, out⟩
          (.branch .brfl elseLabel) =
            .ok ⟨label, counter + condition.length + 1, menv, stack, frames, out⟩ := by
        simp only [Instruction.execute, if_neg hn]
      have hlabel := hbranch.tail.step (s := ⟨label, _, menv, stack, frames, out⟩)
      refine .step (.step ?_ hlabel) (hstep.trans hpass)
      refine (ht stack frames out hthen hthenAt.left rfl henv).before fun w w' out _ => ?_
      have hjump : p.step ⟨label, _, menv, w' :: stack, frames, out⟩ =
          .ok ⟨label, _, menv, w' :: stack, frames, out⟩ :=
        (hendBranch.step (s := ⟨label, _, menv, w' :: stack, frames, out⟩)).trans
          (StandsAt.jump hp hendAt)
      exact ⟨2, .step hjump (.one (hendAt.step (s := ⟨label, _, menv, w' :: stack, frames, out⟩)))⟩

theorem binary {o : BinaryOperator} {l r : Node} (hl : CodeFollows p k l env)
    (hr : CodeFollows p k r env) : CodeFollows p k (.binary m o l r) env := by
  intro code label counter counter' menv stack frames out hcode hstands hend henv
  obtain ⟨left, right, rfl, hleft, hright⟩ := hcode.binary
  rw [List.append_assoc] at hstands hend
  have hoperate := hstands.right
  obtain rfl : counter + left.length + right.length + 1 = counter' := by
    simpa [Nat.add_assoc] using hend
  rw [evaluateIndexed_binary]
  refine (hl stack frames out hleft hstands.left rfl henv).bind fun v v' out hv => ?_
  refine (hr (v' :: stack) frames out hright hoperate.left rfl henv).bind fun w w' out hw => ?_
  rw [hv.word?_eq, hw.word?_eq]
  have hstep := hoperate.right.step (s := ⟨label, _, menv, w' :: v' :: stack, frames, out⟩)
  refine RunFollows.bind (R := fun a b => a = b) (.orStop
    (s := ⟨label, counter + left.length + right.length, menv, w' :: v' :: stack, frames, out⟩)
    (fun n out =>
      ⟨label, counter + left.length + right.length + 1, menv, .word n :: stack, frames, out⟩)
    (fun e he => BinaryOperator.operate_ne_timeout he) (fun n hn => ?_) fun e he => ?_) ?_
  · rw [hstep]
    simp only [Instruction.execute, hn]
  · rw [hstep]
    simp only [Instruction.execute, he]
  · rintro n _ out rfl
    exact .pure .word rfl

theorem unary {o : UnaryOperator} {e : Node} (he : CodeFollows p k e env) :
    CodeFollows p k (.unary m o e) env := by
  intro code label counter counter' menv stack frames out hcode hstands hend henv
  obtain ⟨operand, rfl, hoperand⟩ := hcode.unary
  obtain rfl : counter + operand.length + 1 = counter' := by
    simpa [Nat.add_assoc] using hend
  rw [evaluateIndexed_unary]
  refine (he stack frames out hoperand hstands.left rfl henv).bind fun v v' out hv => ?_
  rw [hv.word?_eq]
  have hstep := hstands.right.step (s := ⟨label, _, menv, v' :: stack, frames, out⟩)
  refine RunFollows.bind (R := fun a b => a = b) (.orStop
    (s := ⟨label, counter + operand.length, menv, v' :: stack, frames, out⟩)
    (fun n out => ⟨label, counter + operand.length + 1, menv, .word n :: stack, frames, out⟩)
    (fun e he => UnaryOperator.operate_ne_timeout he) (fun n hn => ?_) fun e he => ?_) ?_
  · rw [hstep]
    simp only [Instruction.execute, hn]
  · rw [hstep]
    simp only [Instruction.execute, he]
  · rintro n _ out rfl
    exact .pure .word rfl

/-- Of statements in a row, the last value stays. -/
theorem statements : ∀ {es : List Node} {cs : List (List Instruction)} {label : Label}
    {counter counter' : Nat} {menv stack : List MachineValue} {frames : List Frame} {out : String},
    es ≠ [] → (∀ e ∈ es, CodeFollows p k e env) → List.Forall₂ (HasCode p) es cs →
    StandsAt p label counter (inSequence cs) → counter + (inSequence cs).length = counter' →
    List.Forall₂ (Matches p) env menv →
      RunFollows p (fun vs w => ∀ d, Matches p (vs.getLastD d) w) k
        ⟨label, counter, menv, stack, frames, out⟩
        (fun w out => ⟨label, counter', menv, w :: stack, frames, out⟩)
        ((Node.evaluateIndexedAll es env).within k out)
  | [e], [code], label, counter, counter', menv, stack, frames, out, _, hes, hcs, hstands, hend,
      henv => by
    obtain ⟨hcode, -⟩ := List.forall₂_cons.1 hcs
    have he := hes e List.mem_cons_self stack frames out hcode hstands hend henv
    rw [evaluateIndexedAll_cons]
    exact he.bind fun v w out hv => .value (fun _ => hv) .refl
  | e :: e' :: es, code :: code' :: cs, label, counter, counter', menv, stack, frames, out, _, hes,
      hcs, hstands, hend, henv => by
    obtain ⟨hcode, hcs⟩ := List.forall₂_cons.1 hcs
    obtain ⟨he, hes⟩ := List.forall_mem_cons.1 hes
    have hrest := hstands.right
    have hend' : counter + code.length + 1 + (inSequence (code' :: cs)).length = counter' := by
      rw [← hend, inSequence_cons, List.length_append, List.length_cons]
      omega
    rw [evaluateIndexedAll_cons]
    refine (he stack frames out hcode hstands.left rfl henv).bind fun v w out hv => ?_
    have hstep := hrest.step (s := ⟨label, counter + code.length, menv, w :: stack, frames, out⟩)
    refine .step ?_ hstep
    exact (statements (List.cons_ne_nil _ _) hes hcs hrest.tail hend' henv).bind
      fun vs w out hvs => .pure (fun _ => by rw [List.getLastD_cons]; exact hvs v) rfl

theorem sequence {es : List Node} (hne : es ≠ []) (hes : ∀ e ∈ es, CodeFollows p k e env) :
    CodeFollows p k (.sequence m es) env := by
  intro code label counter counter' menv stack frames out hcode hstands hend henv
  obtain ⟨cs, rfl, hcs⟩ := hcode.sequence
  rw [evaluateIndexed_sequence]
  exact (statements hne hes hcs hstands hend henv).bind fun vs w out hvs => .pure (hvs _) rfl

end CodeFollows

/-! ## 4. Trees -/

section Trees

variable {p : Program} {k : Nat}

mutual

/-- **The code of every expression does what its evaluation does**, when applications do what calls
    do. -/
theorem IsIndexed.codeFollows (hp : p.IsLabelled) (hcalls : CallsFollow p k) :
    ∀ {n : Node}, IsIndexed n → ∀ env, CodeFollows p k n env
  | _, .literal, _ => .literal
  | _, .indexed, _ => .indexed
  | _, .builtin, _ => .builtin
  | _, .lambda hbody, _ => .lambda hbody
  | _, .application hf ha, env =>
    .application hcalls (hf.codeFollows hp hcalls env) (ha.codeFollows hp hcalls env)
  | _, .letIn hvalue hbody, env =>
    .letIn hp (hvalue.codeFollows hp hcalls env) fun _ => hbody.codeFollows hp hcalls _
  | _, .letRec harms hbody, _ => .letRec hp harms (hbody.codeFollows hp hcalls _)
  | _, .conditional hc ht he, env =>
    .conditional hp (hc.codeFollows hp hcalls env) (ht.codeFollows hp hcalls env)
      (he.codeFollows hp hcalls env)
  | _, .binary hl hr, env => .binary (hl.codeFollows hp hcalls env) (hr.codeFollows hp hcalls env)
  | _, .unary he, env => .unary (he.codeFollows hp hcalls env)
  | _, .sequence hne hes, env => .sequence hne (hes.codeFollows hp hcalls env)

theorem AreIndexed.codeFollows (hp : p.IsLabelled) (hcalls : CallsFollow p k) :
    ∀ {ns : List Node}, AreIndexed ns → ∀ env, ∀ n ∈ ns, CodeFollows p k n env
  | _, .nil, _ => fun _ h => nomatch h
  | _, .cons hn hns, env =>
    List.forall_mem_cons.2 ⟨hn.codeFollows hp hcalls env, hns.codeFollows hp hcalls env⟩

end

/-- **Applications do what calls do**, however deep calls are nested. -/
theorem callsFollow (hp : p.IsLabelled) (k : Nat) : CallsFollow p k := by
  induction k using Nat.strongRecOn with
  | ind k ih => exact .of_bodies hp fun j hj n env hn => hn.codeFollows hp (ih j hj) env

end Trees

/-! ## 5. Places of parts -/

/-- A part of an expression: itself, or a part of what stands directly below it. The functions of a
    group are parts as well. -/
inductive Part (n : Node) : Node → Prop where
  | refl : Part n n
  | inside {e child : Node} (hchild : child ∈ e.children) (h : Part n child) : Part n e

/-- The code of a tree stands somewhere in a program. -/
def IsPlaced (p : Program) (n : Node) : Prop :=
  ∃ code label counter, HasCode p n code ∧ StandsAt p label counter code

namespace IsPlaced

variable {p : Program} {n : Node}

theorem of_block (hp : p.IsLabelled) {block : Label} (h : HasBlock p block n) : IsPlaced p n := by
  obtain ⟨code, hcode, hmem⟩ := h
  exact ⟨code, block, 0, hcode, (hp.standsAt hmem).left⟩

theorem of_blocks (hp : p.IsLabelled) {blocks : List Label} {ns : List Node}
    (h : List.Forall₂ (HasBlock p) blocks ns) : ∀ n ∈ ns, IsPlaced p n := by
  induction h with
  | nil => exact fun _ hn => nomatch hn
  | cons h _ ih => exact List.forall_mem_cons.2 ⟨of_block hp h, ih⟩

theorem of_inSequence {label : Label} : ∀ {ns : List Node} {cs : List (List Instruction)}
    {counter : Nat}, List.Forall₂ (HasCode p) ns cs → StandsAt p label counter (inSequence cs) →
      ∀ n ∈ ns, IsPlaced p n
  | _, _, _, .nil, _ => fun _ hn => nomatch hn
  | _, _, _, .cons hcode .nil, h =>
    List.forall_mem_cons.2 ⟨⟨_, _, _, hcode, h⟩, fun _ hn => nomatch hn⟩
  | _, _, _, .cons hcode (.cons hcode' hcs), h =>
    List.forall_mem_cons.2 ⟨⟨_, _, _, hcode, h.left⟩, of_inSequence (.cons hcode' hcs) h.right.tail⟩

/-- **What stands directly below a tree has its code somewhere**, when the tree has. -/
theorem child (hp : p.IsLabelled) {e : Node} (h : IsPlaced p e) :
    ∀ c ∈ e.children, IsPlaced p c := by
  obtain ⟨code, label, counter, hcode, hstands⟩ := h
  cases e with
  | literal | indexed | builtin | reference | dataConstructor | patternBinder | patternLiteral =>
    exact fun _ hc => nomatch hc
  | top m e =>
    obtain ⟨code', rfl, hcode'⟩ := hcode.top
    exact List.forall_mem_singleton.2 ⟨_, _, _, hcode', hstands.left⟩
  | lambda m x a body =>
    obtain ⟨block, rfl, hblock⟩ := hcode.lambda
    exact List.forall_mem_singleton.2 (of_block hp hblock)
  | letRecArm m f x pa ra body =>
    exact List.forall_mem_singleton.2 ⟨_, _, _, hcode.letRecArm, hstands⟩
  | application m f a =>
    obtain ⟨function, argument, rfl, hf, ha⟩ := hcode.application
    exact List.forall_mem_cons.2 ⟨⟨_, _, _, hf, hstands.left.left⟩,
      List.forall_mem_singleton.2 ⟨_, _, _, ha, hstands.left.right⟩⟩
  | letIn m x a value body =>
    obtain ⟨block, valueCode, rfl, hvalue, hblock⟩ := hcode.letIn
    have hrest : StandsAt p label (counter + 1) (valueCode ++ [.apply]) := StandsAt.tail hstands
    exact List.forall_mem_cons.2 ⟨⟨_, _, _, hvalue, hrest.left⟩,
      List.forall_mem_singleton.2 (of_block hp hblock)⟩
  | letRec m arms body =>
    obtain ⟨block, members, rfl, hmembers, hblock⟩ := hcode.letRec
    refine fun c hc => (List.mem_append.1 hc).elim (of_blocks hp hmembers c) fun hc => ?_
    obtain rfl := List.mem_singleton.1 hc
    exact of_block hp hblock
  | conditional m c t e =>
    obtain ⟨condition, thenCode, elseCode, thenLabel, elseLabel, endLabel, rfl, hc, ht, he⟩ :=
      hcode.conditional
    rw [conditionalCode_eq] at hstands
    have hthen := hstands.right.tail.tail
    exact List.forall_mem_cons.2 ⟨⟨_, _, _, hc, hstands.left⟩, List.forall_mem_cons.2
      ⟨⟨_, _, _, ht, hthen.left⟩, List.forall_mem_singleton.2
        ⟨_, _, _, he, hthen.right.tail.tail.left⟩⟩⟩
  | binary m o l r =>
    obtain ⟨left, right, rfl, hl, hr⟩ := hcode.binary
    exact List.forall_mem_cons.2 ⟨⟨_, _, _, hl, hstands.left.left⟩,
      List.forall_mem_singleton.2 ⟨_, _, _, hr, hstands.left.right⟩⟩
  | unary m o e =>
    obtain ⟨operand, rfl, he⟩ := hcode.unary
    exact List.forall_mem_singleton.2 ⟨_, _, _, he, hstands.left⟩
  | sequence m es =>
    obtain ⟨cs, rfl, hcs⟩ := hcode.sequence
    exact of_inSequence hcs hstands
  | tuple | projection | matchWith | matchArm | dataType | patternTuple | patternConstructor =>
    obtain ⟨s, s', hrun, -⟩ := hcode
    simp [Node.code, not_runs_fail] at hrun

end IsPlaced

/-- **The code of every part stands somewhere.** -/
theorem Part.isPlaced {p : Program} (hp : p.IsLabelled) {n e : Node} (h : Part n e)
    (he : IsPlaced p e) : IsPlaced p n := by
  induction h with
  | refl => exact he
  | inside hchild _ ih => exact ih (he.child hp _ hchild)

/-! ## 6. Programs -/

section Programs

variable {m : Mark} {e : Node} {p : Program}

/-- **The main block does what the evaluation of the program does**, and gets to its end. -/
theorem IsIndexed.main_follows (h : IsIndexed e) (hp : (Node.top m e).generate = .ok p) :
    ∃ code, HasCode p e code ∧ StandsAt p "main" 0 (code ++ [.halt]) ∧ ∀ k,
      RunFollows p (Matches p) k p.start (fun w out => ⟨"main", code.length, [], [w], [], out⟩)
        ((e.evaluateIndexed []).within k "") := by
  have hlabelled := p.isLabelled_of_generate hp
  obtain ⟨code, hcode, hmain⟩ := p.main_of_generate hp
  have hstart : p.start = ⟨"main", 0, [], [], [], ""⟩ := by
    rw [Program.start, hmain]
    rfl
  have hstands := hlabelled.standsAt (Program.mem_of_main? hmain)
  refine ⟨code, hcode, hstands, fun k => ?_⟩
  rw [hstart]
  exact h.codeFollows hlabelled (callsFollow hlabelled k) [] [] [] "" hcode hstands.left
    (Nat.zero_add _) .nil

/-- What stands at `halt` ends with what lies on top of the stack. -/
theorem StandsAt.halt {label : Label} {counter : Nat} {menv stack : List MachineValue}
    {w : MachineValue} {frames : List Frame} {out : String} (h : StandsAt p label counter [.halt]) :
    p.step ⟨label, counter, menv, w :: stack, frames, out⟩ = .error (.ofWord? w.word?) :=
  h.step (s := ⟨label, counter, menv, w :: stack, frames, out⟩)

end Programs

/-- **Generated code is correct.** A tree of core constructs whose references are places becomes a
    program in which the code of every part stands somewhere. Wherever the code of an expression
    stands, and in every environment that belongs to the one of an evaluation: if the evaluation
    gives a value, the machine pushes the value that belongs to it and gets to the end of the code,
    with the same output, while environment, frames and the rest of the stack are what they were; if
    it panics, so does the machine, with the same exit code and output. So the main block gets to
    `halt` with the result of the program on the stack, or panics as the program does. -/
theorem IsIndexed.generate_simulates {m : Mark} {e : Node} (h : IsIndexed e) :
    ∃ p, (Node.top m e).generate = .ok p ∧
      (∀ n, Part n e → ∃ code label counter, HasCode p n code ∧ StandsAt p label counter code) ∧
      (∀ n code label counter env menv stack frames out k, IsIndexed n → HasCode p n code →
        StandsAt p label counter code → List.Forall₂ (Matches p) env menv →
          (∀ v out', (n.evaluateIndexed env).within k out = .ok v out' →
            ∃ w j, Matches p v w ∧ Steps p j ⟨label, counter, menv, stack, frames, out⟩
              ⟨label, counter + code.length, menv, w :: stack, frames, out'⟩) ∧
          ∀ c out', (n.evaluateIndexed env).within k out = .error (.panic c) out' →
            p.EndsFrom ⟨label, counter, menv, stack, frames, out⟩ (.stopped (.panic c)) out') ∧
      ∀ k,
        (∀ v out, (e.evaluateIndexed []).within k "" = .ok v out →
          ∃ w j s, Matches p v w ∧ Steps p j p.start s ∧ p.instruction? s = some .halt ∧
            s.block = "main" ∧ s.stack = [w] ∧ s.output = out) ∧
        ∀ c out, (e.evaluateIndexed []).within k "" = .error (.panic c) out →
          p.Ends (.stopped (.panic c)) out := by
  obtain ⟨p, hp⟩ := h.generate_ok (m := m)
  have hlabelled := p.isLabelled_of_generate hp
  obtain ⟨code, hcode, hstands, hmain⟩ := h.main_follows hp
  refine ⟨p, hp, fun n hn => hn.isPlaced hlabelled ⟨code, _, _, hcode, hstands.left⟩, ?_,
    fun k => ?_⟩
  · intro n code label counter env menv stack frames out k hn hcode hstands henv
    have hfollows := hn.codeFollows hlabelled (callsFollow hlabelled k) env stack frames out hcode
      hstands rfl henv
    exact ⟨fun v out' hv => hfollows.value_of hv,
      fun c out' hc => hfollows.ends_of hc (nofun) nofun⟩
  · refine ⟨fun v out hv => ?_, fun c out hc => (hmain k).ends_of hc nofun nofun⟩
    obtain ⟨w, j, hw, hsteps⟩ := (hmain k).value_of hv
    refine ⟨w, j, _, hw, hsteps, ?_, rfl, rfl, rfl⟩
    exact (Nat.zero_add code.length ▸ hstands.right).instruction?

/-- A function that doubles, bound by a `let` and applied. -/
def appliedDoubling : Node :=
  .letIn default "double" none
    (.lambda default "x" none
      (.binary default .multiply (.indexed default 1 none) (.literal default (.integer 2))))
    (.application default (.indexed default 1 none) (.literal default (.integer 21)))

/-- The program of an applied function gets to `halt` with the result of the application. -/
theorem generate_simulates_appliedDoubling :
    ∃ p, (Node.top default appliedDoubling).generate = .ok p ∧
      ∃ j s, Steps p j p.start s ∧ p.instruction? s = some .halt ∧ s.stack = [.word 42] ∧
        s.output = "" := by
  have hindexed : IsIndexed appliedDoubling :=
    .letIn (.lambda (.binary .indexed .literal)) (.application .indexed .literal)
  obtain ⟨p, hp, -, -, hmain⟩ := hindexed.generate_simulates (m := default)
  obtain ⟨w, j, s, hw, hsteps, hhalt, -, hstack, hout⟩ := (hmain 1).1 (.word 42) "" rfl
  cases hw
  exact ⟨p, hp, j, s, hsteps, hhalt, hstack, hout⟩

end ClosureML
