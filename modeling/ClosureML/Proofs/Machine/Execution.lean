import ClosureML.Machine.Instruction
import ClosureML.Proofs.Semantics.Operation

/-!
# Execution

The closure machine runs a program one instruction after the other. A run ends with the value on top
of the stack, with an exit code, with a fault of an operator, or where the machine is stuck, since
an instruction finds something else than it works on.

* `MachineValue` are the values, `MachineState` the states, `Outcome` the ways to end;
* `Instruction.execute` is what an instruction does, `Program.step` one step of a program;
* `Program.Stops`: the ways in which a step ends a run and is not stuck;
* `Steps p k s s'`: from the state `s`, `k` steps of `p` lead to `s'`;
* `Program.EndsFrom` and `Program.Ends`: the outcome of a run and of a program, with all that it has
  printed.

Main statements: `Program.stops_of_step` (there are no other ways), `Steps.unique` and
`Program.EndsFrom.unique` (a program has one run, and so one outcome), and
`Program.EndsFrom.not_runs_on` (what ends does not run on).
-/

namespace ClosureML

/-! ## 1. States -/

/-- A value of the machine: a word; a builtin; a closure, which is a block with the environment that
    it was made in; a group of closures, which are blocks that share their environment. Environments
    hold the innermost slot first. -/
inductive MachineValue where
  | word (n : Int)
  | builtin (builtin : Builtin)
  | closure (block : Label) (environment : List MachineValue)
  | group (blocks : List Label) (environment : List MachineValue)

/-- The word that a value is, if it is one. -/
def MachineValue.word? : MachineValue → Option Int
  | word n => some n
  | _ => none

/-- A block that waits for a result: where to go on, and in which environment. -/
structure Frame where
  block : Label
  counter : Nat
  environment : List MachineValue

/-- A state: the block that is run and the number of its next instruction, the environment, the
    stack, the blocks that wait, and what was printed. The stack and the frames begin with what was
    pushed last. -/
structure MachineState where
  block : Label
  counter : Nat
  environment : List MachineValue
  stack : List MachineValue
  frames : List Frame
  output : String

/-- How a program ends: with a word, with a value that is none, or without a value. -/
inductive Outcome where
  | word (n : Int)
  | closure
  | stopped (e : Stop)
  deriving DecidableEq, Repr

/-- The outcome of a value, of which the word is given, if it is one. -/
def Outcome.ofWord? : Option Int → Outcome
  | some n => word n
  | none => closure

/-- What has a number that is counted from 1. -/
def numbered? {α : Type} (xs : List α) : Nat → Option α
  | 0 => none
  | i + 1 => xs[i]?

namespace MachineState

/-- The machine is stuck. -/
def stuck : Except Outcome MachineState := .error (.stopped .wrong)

/-- The state with one more value on the stack. -/
def push (s : MachineState) (v : MachineValue) : MachineState := { s with stack := v :: s.stack }

/-- The state at the first place in the block that is marked with a label. -/
def jump (s : MachineState) (p : Program) (target : Label) : Except Outcome MachineState :=
  match (p.block? s.block).bind fun b => b.instructions.findIdx? fun i => i = .label target with
  | some counter => .ok { s with counter }
  | none => stuck

end MachineState

/-! ## 2. Steps -/

open MachineState

/-- **What an instruction does**, when the counter has passed it. -/
def Instruction.execute (p : Program) (s : MachineState) : Instruction → Except Outcome MachineState
  | halt =>
    match s.stack with
    | v :: _ => .error (.ofWord? v.word?)
    | [] => stuck
  | pop n => if n ≤ s.stack.length then .ok { s with stack := s.stack.drop n } else stuck
  | const n => .ok (s.push (.word n))
  | access depth =>
    match numbered? s.environment depth with
    | some v => .ok (s.push v)
    | none => stuck
  | focus sibling =>
    match s.stack with
    | .group blocks env :: rest =>
      match numbered? blocks sibling with
      | some block => .ok { s with stack := .closure block (.group blocks env :: env) :: rest }
      | none => stuck
    | _ => stuck
  | closure block => .ok (s.push (.closure block s.environment))
  | closures blocks => .ok (s.push (.group blocks s.environment))
  | builtin b => .ok (s.push (.builtin b))
  | apply =>
    match s.stack with
    | v :: .closure block env :: rest =>
      .ok ⟨block, 0, v :: env, rest, ⟨s.block, s.counter, s.environment⟩ :: s.frames, s.output⟩
    | v :: .builtin b :: rest =>
      match b.perform v.word? with
      | .ok text => .ok { s with stack := .word 0 :: rest, output := s.output ++ text }
      | .error e => .error (.stopped e)
    | _ => stuck
  | leave =>
    match s.frames with
    | f :: frames => .ok ⟨f.block, f.counter, f.environment, s.stack, frames, s.output⟩
    | [] => stuck
  | binary o =>
    match s.stack with
    | w :: v :: rest =>
      match o.operate v.word? w.word? with
      | .ok n => .ok { s with stack := .word n :: rest }
      | .error e => .error (.stopped e)
    | _ => stuck
  | unary o =>
    match s.stack with
    | v :: rest =>
      match o.operate v.word? with
      | .ok n => .ok { s with stack := .word n :: rest }
      | .error e => .error (.stopped e)
    | _ => stuck
  | branch .br target => s.jump p target
  | branch .brfl target =>
    match s.stack with
    | .word n :: rest =>
      if n = 0 then jump { s with stack := rest } p target else .ok { s with stack := rest }
    | _ => stuck
  | label _ => .ok s

namespace Program

/-- The state in which a program starts. -/
def start (p : Program) : MachineState := ⟨(p.main?.map Block.label).getD "", 0, [], [], [], ""⟩

/-- The instruction that is next. -/
def instruction? (p : Program) (s : MachineState) : Option Instruction :=
  (p.block? s.block).bind fun b => b.instructions[s.counter]?

/-- **One step of a program**: the next instruction is executed, unless there is none. -/
def step (p : Program) (s : MachineState) : Except Outcome MachineState :=
  match p.instruction? s with
  | some i => i.execute p { s with counter := s.counter + 1 }
  | none => stuck

end Program

/-! ## 3. Ends -/

/-- The ways in which a step ends a run, other than being stuck: at `halt`, with the value on top of
    the stack; at a call of `panic` with an exit code; at an operator that has no result on two
    words; and at an equality or a call of `panic` that finds a value which is no word. -/
inductive Program.Stops (p : Program) (s : MachineState) : Outcome → Prop where
  | halt {v : MachineValue} {rest : List MachineValue} (hi : p.instruction? s = some .halt)
      (hs : s.stack = v :: rest) : Stops p s (.ofWord? v.word?)
  | panic {n : Int} {rest : List MachineValue} (hi : p.instruction? s = some .apply)
      (hs : s.stack = .word n :: .builtin .panic :: rest) : Stops p s (.stopped (.panic n))
  | fault {o : BinaryOperator} {a b : Int} {rest : List MachineValue}
      (hi : p.instruction? s = some (.binary o)) (hs : s.stack = .word b :: .word a :: rest)
      (ho : o.compute a b = none) : Stops p s (.stopped .fault)
  | equality {o : BinaryOperator} {v w : MachineValue} {rest : List MachineValue}
      (hi : p.instruction? s = some (.binary o)) (ho : o.operatorClass = .equality)
      (hs : s.stack = w :: v :: rest) (hw : v.word? = none ∨ w.word? = none) :
      Stops p s (.stopped .mismatch)
  | exitCode {v : MachineValue} {rest : List MachineValue} (hi : p.instruction? s = some .apply)
      (hs : s.stack = v :: .builtin .panic :: rest) (hv : v.word? = none) :
      Stops p s (.stopped .mismatch)

theorem MachineValue.eq_word {v : MachineValue} {n : Int} (h : v.word? = some n) : v = .word n := by
  cases v with
  | word =>
    cases h
    rfl
  | _ => cases h

namespace Program

variable {p : Program} {s : MachineState} {v w : MachineValue} {rest : List MachineValue}

theorem stops_of_operate {o : BinaryOperator} {e : Stop} (hi : p.instruction? s = some (.binary o))
    (hs : s.stack = w :: v :: rest) (h : o.operate v.word? w.word? = .error e) (hne : e ≠ .wrong) :
    p.Stops s (.stopped e) := by
  unfold BinaryOperator.operate at h
  split at h
  · next a b ha hb =>
    split at h
    · cases h
    · next hnone =>
      cases h
      rw [MachineValue.eq_word ha, MachineValue.eq_word hb] at hs
      exact .fault hi hs hnone
  · next hwords =>
    split at h
    · next ho =>
      cases h
      refine .equality hi ho hs (Decidable.byContradiction fun hw => ?_)
      obtain ⟨hv, hw⟩ := not_or.1 hw
      obtain ⟨a, ha⟩ := Option.ne_none_iff_exists'.1 hv
      obtain ⟨b, hb⟩ := Option.ne_none_iff_exists'.1 hw
      exact hwords a b ha hb
    · cases h
      exact absurd rfl hne

theorem stops_of_perform {b : Builtin} {e : Stop} (hi : p.instruction? s = some .apply)
    (hs : s.stack = v :: .builtin b :: rest) (h : b.perform v.word? = .error e) :
    p.Stops s (.stopped e) := by
  cases b with
  | println => cases h
  | print => cases h
  | panic =>
    cases hv : v.word? with
    | some code =>
      rw [hv] at h
      cases h
      rw [MachineValue.eq_word hv] at hs
      exact .panic hi hs
    | none =>
      rw [hv] at h
      cases h
      exact .exitCode hi hs hv

/-- **A step that ends a run and is not stuck** ends it in one of these ways. -/
theorem stops_of_step {o : Outcome} (h : p.step s = .error o) (hne : o ≠ .stopped .wrong) :
    p.Stops s o := by
  have hstuck : (.error (.stopped .wrong) : Except Outcome MachineState) ≠ .error o :=
    fun heq => hne (Except.error.inj heq).symm
  rw [step] at h
  split at h
  · next i hi =>
    cases i with
    | halt =>
      simp only [Instruction.execute] at h
      split at h
      · next v rest hs =>
        cases h
        exact .halt hi hs
      · exact absurd h hstuck
    | apply =>
      simp only [Instruction.execute] at h
      split at h
      · cases h
      · next v b rest hs =>
        split at h
        · cases h
        · next e he =>
          cases h
          exact stops_of_perform hi hs he
      · exact absurd h hstuck
    | binary operator =>
      simp only [Instruction.execute] at h
      split at h
      · next w v rest hs =>
        split at h
        · cases h
        · next e he =>
          cases h
          exact stops_of_operate hi hs he fun heq => hne (congrArg _ heq)
      · exact absurd h hstuck
    | unary operator =>
      simp only [Instruction.execute] at h
      split at h
      · next v rest hs =>
        split at h
        · cases h
        · next e he =>
          cases operator
          cases hv : v.word? with
          | some a =>
            rw [hv] at he
            cases he
          | none =>
            rw [hv] at he
            cases he
            exact absurd h hstuck
      · exact absurd h hstuck
    | branch kind target =>
      cases kind with
      | br =>
        simp only [Instruction.execute, MachineState.jump] at h
        split at h
        · cases h
        · exact absurd h hstuck
      | brfl =>
        simp only [Instruction.execute, MachineState.jump] at h
        split at h
        · split at h
          · split at h
            · cases h
            · exact absurd h hstuck
          · cases h
        · exact absurd h hstuck
    | focus sibling =>
      simp only [Instruction.execute] at h
      split at h
      · split at h
        · cases h
        · exact absurd h hstuck
      · exact absurd h hstuck
    | pop n | access depth | leave =>
      simp only [Instruction.execute] at h
      split at h
      · cases h
      · exact absurd h hstuck
    | const | closure | closures | builtin | label => cases h
  · exact absurd h hstuck

end Program

/-! ## 4. Runs -/

/-- From one state to another in a number of steps. -/
inductive Steps (p : Program) : Nat → MachineState → MachineState → Prop where
  | refl {s : MachineState} : Steps p 0 s s
  | step {k : Nat} {s s₁ s' : MachineState} (h : p.step s = .ok s₁) (h' : Steps p k s₁ s') :
      Steps p (k + 1) s s'

namespace Steps

variable {p : Program} {k j : Nat} {s s₁ s' t : MachineState} {o : Outcome}

theorem one (h : p.step s = .ok s') : Steps p 1 s s' := .step h .refl

theorem trans (h : Steps p k s s₁) (h' : Steps p j s₁ s') : Steps p (k + j) s s' := by
  induction h with
  | refl => rwa [Nat.zero_add]
  | @step k _ _ _ hstep _ ih =>
    rw [Nat.add_right_comm]
    exact .step hstep (ih h')

/-- **A run is determined by its length.** -/
theorem unique (h : Steps p k s s') (h' : Steps p k s t) : s' = t := by
  induction h with
  | refl =>
    cases h'
    rfl
  | step hstep _ ih =>
    cases h' with
    | step hstep' h' =>
      rw [hstep] at hstep'
      cases hstep'
      exact ih h'

/-- Behind the end of a run there are no more steps. -/
theorem le_of_ends (h : Steps p k s s') (hend : p.step s' = .error o) (h' : Steps p j s t) :
    j ≤ k := by
  induction h generalizing j with
  | refl =>
    cases h' with
    | refl => exact Nat.le_refl 0
    | step hstep _ =>
      rw [hend] at hstep
      cases hstep
  | step hstep _ ih =>
    cases h' with
    | refl => exact Nat.zero_le _
    | step hstep' h' =>
      rw [hstep] at hstep'
      cases hstep'
      exact Nat.succ_le_succ (ih hend h')

end Steps

/-- From a state, a program ends with an outcome, and has printed an output by then. -/
def Program.EndsFrom (p : Program) (s : MachineState) (o : Outcome) (out : String) : Prop :=
  ∃ k s', Steps p k s s' ∧ p.step s' = .error o ∧ s'.output = out

/-- **A program ends** with an outcome, and has printed an output by then. -/
def Program.Ends (p : Program) (o : Outcome) (out : String) : Prop := p.EndsFrom p.start o out

namespace Program

variable {p : Program} {k : Nat} {s s₁ : MachineState} {o o' : Outcome} {out out' : String}

theorem EndsFrom.after (h : p.EndsFrom s₁ o out) (hsteps : Steps p k s s₁) : p.EndsFrom s o out :=
  let ⟨_, s', hsteps', hend, hout⟩ := h
  ⟨_, s', hsteps.trans hsteps', hend, hout⟩

/-- **A program ends in one way.** -/
theorem EndsFrom.unique (h : p.EndsFrom s o out) (h' : p.EndsFrom s o' out') :
    o = o' ∧ out = out' := by
  obtain ⟨k, t, hsteps, hend, rfl⟩ := h
  obtain ⟨j, u, hsteps', hend', rfl⟩ := h'
  obtain rfl : k = j :=
    Nat.le_antisymm (hsteps'.le_of_ends hend' hsteps) (hsteps.le_of_ends hend hsteps')
  obtain rfl := hsteps.unique hsteps'
  rw [hend] at hend'
  cases hend'
  exact ⟨rfl, rfl⟩

/-- What ends does not run on. -/
theorem EndsFrom.not_runs_on (h : p.EndsFrom s o out) : ¬ ∀ k, ∃ j ≥ k, ∃ s', Steps p j s s' := by
  obtain ⟨k, t, hsteps, hend, -⟩ := h
  intro hon
  obtain ⟨j, hj, s', hsteps'⟩ := hon (k + 1)
  have := hsteps.le_of_ends hend hsteps'
  omega

end Program

end ClosureML
