import ClosureML.Proofs.Machine.ControlFlow
import ClosureML.Proofs.Machine.Execution

/-!
# Stack heights

How high the stack of a block is, counted from the start of the block. An instruction takes values
from the stack and gives values to it; a call is counted with the value that the block which is
called leaves behind. All ways to a place in code come there with one height when the heights of the
marked places can be written down beside their labels.

* `Instruction.takes`, `Instruction.gives`: how many values an instruction pops and pushes;
* `Arrives code place height`: control comes to a place with a height, from the start of some code
  and along both outcomes of every branch;
* `Levels marks height code height'`: the heights in some code, with those of the marked places;
* `Flows code height height'`: control comes to the end of some code, whatever stands around it;
* `Carries code height height'`: both.

Main statements: `Instruction.height_of_execute` (the machine agrees with the numbers),
`Levels.exists_eq_of_arrives` (heights suffice and agree), `Carries.append`,
`Carries.inSequence` and `Carries.conditional` (code is put together).
-/

namespace ClosureML

open Machine

/-! ## 1. What instructions take and give -/

namespace Instruction

/-- How many values the instruction pops. What ends a block takes the value of the block. -/
def takes : Instruction → Nat
  | pop n => n
  | apply | binary _ => 2
  | halt | leave | focus _ | unary _ | branch .brfl _ => 1
  | _ => 0

/-- How many values lie on the stack instead, when control comes to the next instruction. -/
def gives : Instruction → Nat
  | apply | const _ | access _ | focus _ | closure _ | closures _ | builtin _ | binary _ |
    unary _ => 1
  | _ => 0

/-- Control may go on at the instruction behind it. -/
def RunsOn : Instruction → Prop
  | halt | leave | branch .br _ => False
  | _ => True

theorem FallsThrough.runsOn {i : Instruction} (h : i.FallsThrough) : i.RunsOn := by
  cases i with
  | halt | leave | branch => exact h.elim
  | _ => trivial

/-- **The machine agrees with the numbers.** An instruction that is executed, unless it goes back,
    finds the values that it takes, and leaves as many as it gives; a call may enter a block, which
    has the value still to give. -/
theorem height_of_execute {p : Program} {s s' : MachineState} {i : Instruction}
    (h : i.execute p s = .ok s') (hi : i ≠ .leave) : i.takes ≤ s.stack.length ∧
      (s'.frames = s.frames ∧ s'.stack.length = s.stack.length - i.takes + i.gives ∨
        i = .apply ∧ s'.frames.length = s.frames.length + 1 ∧
          s'.stack.length = s.stack.length - i.takes) := by
  -- a jump changes the counter only
  have hjump : ∀ {t : MachineState} {target : Label}, t.jump p target = .ok s' →
      s'.frames = t.frames ∧ s'.stack = t.stack := by
    intro t target h
    rw [MachineState.jump] at h
    split at h
    · cases h
      exact ⟨rfl, rfl⟩
    · cases h
  cases i with
  | leave => exact absurd rfl hi
  | halt =>
    rw [execute] at h
    split at h <;> cases h
  | branch kind target =>
    cases kind with
    | br =>
      obtain ⟨hframes, hstack⟩ := hjump h
      exact ⟨Nat.zero_le _, .inl ⟨hframes, congrArg List.length hstack⟩⟩
    | brfl =>
      rw [execute] at h
      split at h
      · next n rest hs =>
        rw [hs]
        refine ⟨Nat.le_add_left _ _, .inl ?_⟩
        split at h
        · obtain ⟨hframes, hstack⟩ := hjump h
          exact ⟨hframes, congrArg List.length hstack⟩
        · cases h
          exact ⟨rfl, rfl⟩
      · cases h
  | apply =>
    rw [execute] at h
    split at h
    -- a closure is entered, and its block has yet to give the value
    · next v block env rest hs =>
      cases h
      rw [hs]
      exact ⟨Nat.le_add_left _ _, .inr ⟨rfl, rfl, rfl⟩⟩
    -- a builtin gives its value in this step
    · next v b rest hs =>
      rw [hs]
      split at h
      · cases h
        exact ⟨Nat.le_add_left _ _, .inl ⟨rfl, rfl⟩⟩
      · cases h
    · cases h
  | pop n =>
    rw [execute] at h
    split at h
    · next hle =>
      cases h
      exact ⟨hle, .inl ⟨rfl, List.length_drop⟩⟩
    · cases h
  | access depth =>
    rw [execute] at h
    split at h
    · cases h
      exact ⟨Nat.zero_le _, .inl ⟨rfl, rfl⟩⟩
    · cases h
  | focus | binary | unary =>
    rw [execute] at h
    split at h
    · next hs =>
      rw [hs]
      split at h
      · cases h
        exact ⟨Nat.le_add_left _ _, .inl ⟨rfl, rfl⟩⟩
      · cases h
    · cases h
  | const | closure | closures | builtin | label =>
    cases h
    exact ⟨Nat.zero_le _, .inl ⟨rfl, rfl⟩⟩

end Instruction

/-- **Control comes to a place in code with a height**, from the start and an empty stack: from an
    instruction to the next one, and from a branch to a place with its label. -/
inductive Arrives (code : List Instruction) : Nat → Nat → Prop where
  | start : Arrives code 0 0
  | next {place height : Nat} {i : Instruction} (h : Arrives code place height)
      (hi : code[place]? = some i) (hon : i.RunsOn) :
      Arrives code (place + 1) (height - i.takes + i.gives)
  | jump {place place' height : Nat} {kind : BranchKind} {target : Label}
      (h : Arrives code place height) (hi : code[place]? = some (.branch kind target))
      (htarget : code[place']? = some (.label target)) :
      Arrives code place' (height - (Instruction.branch kind target).takes)

/-! ## 2. Heights beside labels -/

/-- **From a height, code comes to another one**, where the marks hold the heights of the labels in
    it. Behind an instruction at which control does not go on, any height may stand. -/
inductive Levels (marks : List (Label × Nat)) : Nat → List Instruction → Nat → Prop where
  | nil {height : Nat} : Levels marks height [] height
  | cons {height next height' : Nat} {i : Instruction} {code : List Instruction}
      (htakes : i.takes ≤ height) (hnext : i.RunsOn → next = height - i.takes + i.gives)
      (hlabel : ∀ l, i = .label l → (l, height) ∈ marks)
      (hbranch : ∀ kind l, i = .branch kind l → (l, height - i.takes) ∈ marks)
      (hrest : Levels marks next code height') : Levels marks height (i :: code) height'

namespace Levels

variable {marks marks' : List (Label × Nat)} {code code' : List Instruction}
  {height next height' : Nat} {i : Instruction} {l : Label}

theorem mono (h : Levels marks height code height') (hsub : marks ⊆ marks') :
    Levels marks' height code height' := by
  induction h with
  | nil => exact .nil
  | cons htakes hnext hlabel hbranch _ ih =>
    exact .cons htakes hnext (fun l h => hsub (hlabel l h))
      (fun kind l h => hsub (hbranch kind l h)) ih

theorem append (h : Levels marks height code next) (h' : Levels marks next code' height') :
    Levels marks height (code ++ code') height' := by
  induction h with
  | nil => exact h'
  | cons htakes hnext hlabel hbranch _ ih => exact .cons htakes hnext hlabel hbranch (ih h')

/-- An instruction that marks no place and is no branch. -/
theorem plain (hi : i.FallsThrough) (hplaced : placed [i] = []) (htakes : i.takes ≤ height)
    (h : Levels marks (height - i.takes + i.gives) code height') :
    Levels marks height (i :: code) height' := by
  refine .cons htakes (fun _ => rfl) ?_ ?_ h
  · rintro l rfl
    cases hplaced
  · rintro kind l rfl
    exact hi.elim

theorem label (hmark : (l, height) ∈ marks) (h : Levels marks height code height') :
    Levels marks height (.label l :: code) height' := by
  refine .cons (Nat.zero_le _) (fun _ => rfl) ?_ nofun h
  rintro l' ⟨⟩
  exact hmark

theorem branchIfZero (hmark : (l, height) ∈ marks) (h : Levels marks height code height') :
    Levels marks (height + 1) (.branch .brfl l :: code) height' := by
  refine .cons (Nat.le_add_left _ _) (fun _ => rfl) nofun ?_ h
  rintro kind l' ⟨⟩
  exact hmark

theorem branch (hmark : (l, height) ∈ marks) (h : Levels marks next code height') :
    Levels marks height (.branch .br l :: code) height' := by
  refine .cons (Nat.zero_le _) nofun nofun ?_ h
  rintro kind l' ⟨⟩
  exact hmark

/-- What ends a block finds its value. -/
theorem final (hi : i = .halt ∨ i = .leave) : Levels marks 1 [i] 0 := by
  rcases hi with rfl | rfl
  all_goals exact .cons (Nat.le_refl _) nofun nofun nofun .nil

/-- The heights of the places in code. -/
theorem exists_heights (h : Levels marks height code height') : ∃ heights : Nat → Nat,
    heights 0 = height ∧ ∀ place i, code[place]? = some i → i.takes ≤ heights place ∧
      (i.RunsOn → heights (place + 1) = heights place - i.takes + i.gives) ∧
      (∀ l, i = .label l → (l, heights place) ∈ marks) ∧
      ∀ kind l, i = .branch kind l → (l, heights place - i.takes) ∈ marks := by
  induction h with
  | @nil height => exact ⟨fun _ => height, rfl, fun place i hi => by simp at hi⟩
  | @cons height next height' i code htakes hnext hlabel hbranch _ ih =>
    obtain ⟨heights, hstart, hplaces⟩ := ih
    refine ⟨fun place => place.casesOn height heights, rfl, fun place j hj => ?_⟩
    cases place with
    | zero =>
      cases hj
      exact ⟨htakes, fun hon => hstart.trans (hnext hon), hlabel, hbranch⟩
    | succ place => exact hplaces place j hj

/-- **Where control comes to, the height is that of the place**, when no label has two marks. -/
theorem exists_eq_of_arrives (h : Levels marks 0 code height')
    (hmarks : (marks.map Prod.fst).Nodup) :
    ∃ heights : Nat → Nat, (∀ place i, code[place]? = some i → i.takes ≤ heights place) ∧
      ∀ place height, Arrives code place height → height = heights place := by
  obtain ⟨heights, hstart, hplaces⟩ := h.exists_heights
  refine ⟨heights, fun place i hi => (hplaces place i hi).1, fun place height harrives => ?_⟩
  induction harrives with
  | start => exact hstart.symm
  | next _ hi hon ih => rw [ih, (hplaces _ _ hi).2.1 hon]
  | @jump place place' height kind target _ hi htarget ih =>
    have hfrom := (hplaces _ _ hi).2.2.2 kind target rfl
    have hto := (hplaces _ _ htarget).2.2.1 target rfl
    rw [ih]
    exact congrArg Prod.snd (List.inj_on_of_nodup_map hmarks hfrom hto rfl)

end Levels

/-! ## 3. Control comes to the end -/

/-- Control comes through some code, wherever it stands, from one height to another. -/
def Flows (code : List Instruction) (height height' : Nat) : Prop :=
  ∀ before after, Arrives (before ++ code ++ after) before.length height →
    Arrives (before ++ code ++ after) (before ++ code).length height'

namespace Flows

variable {code code' : List Instruction} {height next height' : Nat} {i : Instruction}

theorem append (h : Flows code height next) (h' : Flows code' next height') :
    Flows (code ++ code') height height' := by
  intro before after harrives
  have hfirst : before ++ (code ++ code') ++ after = before ++ code ++ (code' ++ after) := by simp
  have hsecond : before ++ code ++ (code' ++ after) = (before ++ code) ++ code' ++ after := by simp
  rw [hfirst] at harrives ⊢
  have := h before (code' ++ after) harrives
  rw [hsecond] at this ⊢
  rw [← List.append_assoc]
  exact h' (before ++ code) after this

theorem one (hi : i.RunsOn) : Flows [i] height (height - i.takes + i.gives) := by
  intro before after h
  rw [List.length_append]
  exact .next h (by simp) hi

/-- A branch over some code. -/
theorem past (l : Label) (code : List Instruction) :
    Flows (.branch .br l :: code ++ [.label l]) height height := by
  intro before after h
  rw [← List.append_assoc before] at h ⊢
  have hbranch : (before ++ .branch .br l :: code ++ [.label l] ++ after)[before.length]? =
      some (.branch .br l) := by simp
  have hlabel : (before ++ .branch .br l :: code ++ [.label l] ++ after)[
      (before ++ .branch .br l :: code).length]? = some (.label l) := by
    rw [List.append_assoc _ _ after, List.getElem?_append_right (Nat.le_refl _), Nat.sub_self]
    rfl
  rw [List.length_append]
  exact (h.jump hbranch hlabel).next hlabel trivial

end Flows

/-! ## 4. Pieces of code -/

/-- **From a height, a piece of code comes to another one**: the heights of its labels can be
    written down, and control comes to its end. -/
structure Carries (code : List Instruction) (height height' : Nat) : Prop where
  levels : ∃ marks : List (Label × Nat), marks.map Prod.fst = placed code ∧
    Levels marks height code height'
  flows : Flows code height height'

namespace Carries

variable {code code' : List Instruction} {height next height' : Nat} {i : Instruction}

theorem append (h : Carries code height next) (h' : Carries code' next height') :
    Carries (code ++ code') height height' := by
  obtain ⟨marks, hmarks, hlevels⟩ := h.levels
  obtain ⟨marks', hmarks', hlevels'⟩ := h'.levels
  refine ⟨⟨marks ++ marks', ?_, ?_⟩, h.flows.append h'.flows⟩
  · rw [List.map_append, hmarks, hmarks', placed_append]
  · exact (hlevels.mono (List.subset_append_left _ _)).append
      (hlevels'.mono (List.subset_append_right _ _))

/-- An instruction that marks no place and is no branch. -/
theorem one (hi : i.FallsThrough) (hplaced : placed [i] = []) (htakes : i.takes ≤ height) :
    Carries [i] height (height - i.takes + i.gives) where
  levels := ⟨[], hplaced.symm, .plain hi hplaced htakes .nil⟩
  flows := .one hi.runsOn

/-- Code that is followed by such an instruction. -/
theorem snoc (h : Carries code height next) (hi : i.FallsThrough) (hplaced : placed [i] = [])
    (htakes : i.takes ≤ next) : Carries (code ++ [i]) height (next - i.takes + i.gives) :=
  h.append (.one hi hplaced htakes)

/-- **The code of a conditional** comes with either branch to the same height. -/
theorem conditional {condition thenCode elseCode : List Instruction}
    {thenLabel elseLabel endLabel : Label} (hcondition : Carries condition height (height + 1))
    (hthen : Carries thenCode height (height + 1)) (helse : Carries elseCode height (height + 1)) :
    Carries (conditionalCode condition thenCode elseCode thenLabel elseLabel endLabel) height
      (height + 1) where
  levels := by
    obtain ⟨marks, hmarks, hlevels⟩ := hcondition.levels
    obtain ⟨marks₁, hmarks₁, hlevels₁⟩ := hthen.levels
    obtain ⟨marks₂, hmarks₂, hlevels₂⟩ := helse.levels
    refine ⟨marks ++ [(thenLabel, height)] ++ marks₁ ++ [(elseLabel, height)] ++ marks₂
      ++ [(endLabel, height + 1)], ?_, ?_⟩
    · rw [placed_conditionalCode, ← hmarks, ← hmarks₁, ← hmarks₂]
      simp
    · rw [conditionalCode_eq]
      refine .append (hlevels.mono ?_) (.branchIfZero ?_ (.label ?_ (.append (hlevels₁.mono ?_)
        (.branch ?_ (.label ?_ (.append (hlevels₂.mono ?_) (.label ?_ .nil)))))))
      all_goals simp [List.subset_def] <;> tauto
  flows := by
    have hfront :
      Flows (condition ++ ([.branch .brfl elseLabel] ++ ([.label thenLabel] ++ thenCode)))
        height (height + 1) :=
      hcondition.flows.append ((Flows.one (i := .branch .brfl elseLabel) trivial).append
        ((Flows.one (i := .label thenLabel) trivial).append hthen.flows))
    have hcode : conditionalCode condition thenCode elseCode thenLabel elseLabel endLabel =
        condition ++ ([.branch .brfl elseLabel] ++ ([.label thenLabel] ++ thenCode))
          ++ (.branch .br endLabel :: (.label elseLabel :: elseCode) ++ [.label endLabel]) := by
      simp [conditionalCode]
    rw [hcode]
    exact hfront.append (.past endLabel _)

/-- **Statements in a row**, of which there is at least one, leave the value of the last. -/
theorem inSequence : ∀ {codes : List (List Instruction)}, codes ≠ [] →
    (∀ code ∈ codes, Carries code height (height + 1)) →
      Carries (inSequence codes) height (height + 1)
  | [], hne, _ => absurd rfl hne
  | [code], _, h => h code List.mem_cons_self
  | code :: code' :: codes, _, h => by
    obtain ⟨hcode, hcodes⟩ := List.forall_mem_cons.1 h
    rw [inSequence_cons, List.append_cons]
    exact (hcode.snoc (i := .pop 1) trivial rfl (Nat.le_add_left _ _)).append
      (inSequence (List.cons_ne_nil _ _) hcodes)

end Carries

end ClosureML
