import ClosureML.Proofs.Machine.Code
import ClosureML.Proofs.Syntax.Declarations
import Mathlib.Data.List.Pairwise

/-!
# Control flow of generated programs

Where control can go in a program that was generated. Closures are made of every block but the main
one at exactly one place, so that the blocks make up a tree with the main block at its root. Inside
a block, control goes forward only: branches go to places behind them, and the block is left at its
end.

* `referenced code`: the blocks that some code makes closures of;
* `StaysInside code`: code that is left at its end only, and branches forward;
* `Reached blocks roots label`: closures lead from some labels to another one;
* `Machine.Drafts s s' codes`: what generation has made between two states, where `codes` are pieces
  of code that were not put together yet;
* `Program.Leads`: the way from the main block to another one;
* `Program.KeepsControl`: the integrity of control flow.

Main statements: `Node.code_drafts` (what generation keeps), and `Program.keepsControl_of_generate`.
-/

namespace ClosureML

open Machine Node

/-! ## 1. Pieces of code -/

/-- The blocks that some code makes closures of. -/
def referenced (code : List Instruction) : List Label := code.flatMap Instruction.references

@[simp] theorem referenced_nil : referenced [] = [] := rfl

@[simp] theorem referenced_cons (i : Instruction) (code : List Instruction) :
    referenced (i :: code) = i.references ++ referenced code := rfl

@[simp] theorem referenced_append (code code' : List Instruction) :
    referenced (code ++ code') = referenced code ++ referenced code' := List.flatMap_append

/-- Control goes from the instruction to the one behind it. -/
def Instruction.FallsThrough : Instruction → Prop
  | halt | leave | branch _ _ => False
  | _ => True

/-- Code that is left at its end only: it neither stops nor goes back, and its branches go to places
    that it marks behind them. -/
structure StaysInside (code : List Instruction) : Prop where
  halt : .halt ∉ code
  leave : .leave ∉ code
  forward : ∀ before kind target after, code = before ++ .branch kind target :: after →
    target ∈ placed after

namespace StaysInside

variable {code code' : List Instruction} {i : Instruction}

theorem nil : StaysInside [] where
  halt := List.not_mem_nil
  leave := List.not_mem_nil
  forward before _ _ _ h := by simp at h

theorem cons (hi : i.FallsThrough) (h : StaysInside code) : StaysInside (i :: code) where
  halt hmem := by
    rcases List.mem_cons.1 hmem with rfl | hmem
    · exact hi
    · exact h.halt hmem
  leave hmem := by
    rcases List.mem_cons.1 hmem with rfl | hmem
    · exact hi
    · exact h.leave hmem
  forward before kind target after heq := by
    cases before with
    | nil =>
      cases heq
      exact hi.elim
    | cons j before => exact h.forward before kind target after (List.cons.inj heq).2

theorem one (hi : i.FallsThrough) : StaysInside [i] := nil.cons hi

/-- A branch to a place behind it. -/
theorem branch {kind : BranchKind} {target : Label} (htarget : target ∈ placed code)
    (h : StaysInside code) : StaysInside (.branch kind target :: code) where
  halt hmem := h.halt ((List.mem_cons.1 hmem).resolve_left nofun)
  leave hmem := h.leave ((List.mem_cons.1 hmem).resolve_left nofun)
  forward before kind target after heq := by
    cases before with
    | nil =>
      cases heq
      exact htarget
    | cons j before => exact h.forward before kind target after (List.cons.inj heq).2

theorem append (h : StaysInside code) (h' : StaysInside code') : StaysInside (code ++ code') where
  halt hmem := (List.mem_append.1 hmem).elim h.halt h'.halt
  leave hmem := (List.mem_append.1 hmem).elim h.leave h'.leave
  forward before kind target after heq := by
    obtain ⟨middle, rfl, htail⟩ | ⟨middle, rfl, htail⟩ := List.append_eq_append_iff.1 heq
    · exact h'.forward middle kind target after htail
    · cases middle with
      | nil => exact h'.forward [] kind target after htail.symm
      | cons j middle =>
        rw [List.cons_append] at htail
        obtain ⟨rfl, rfl⟩ := List.cons.inj htail
        rw [placed_append]
        exact List.mem_append_left _ (h.forward before kind target middle rfl)

end StaysInside

/-- From some labels, closures lead to another one over some blocks. -/
inductive Reached (blocks : List Block) (roots : List Label) : Label → Prop where
  | root {label : Label} (h : label ∈ roots) : Reached blocks roots label
  | next {b : Block} {label : Label} (hb : b ∈ blocks) (h : Reached blocks roots b.label)
      (hlabel : label ∈ b.references) : Reached blocks roots label

theorem Reached.mono {blocks blocks' : List Block} {roots roots' : List Label} {label : Label}
    (h : Reached blocks roots label) (hblocks : blocks ⊆ blocks')
    (hroots : ∀ l ∈ roots, Reached blocks' roots' l) : Reached blocks' roots' label := by
  induction h with
  | root h => exact hroots _ h
  | next hb _ hlabel ih => exact .next (hblocks hb) ih hlabel

/-! ## 2. What generation makes -/

namespace Machine

/-- New blocks, made between two states of the supply of labels, and pieces of code that are not put
    together yet: the labels of places are different, and so are those of the blocks; closures are
    made of every new block at exactly one place, and lead to it from the pieces; the pieces are
    left at their end only, and the blocks at the instruction that goes back. -/
structure Wires (s s' : Supply) (new : List Block) (codes : List (List Instruction)) : Prop where
  places : s.Makes labelFormat s'
    (codes.flatMap placed ++ new.flatMap fun b => placed b.instructions)
  labels : s.Makes labelFormat s' (new.map Block.label)
  references : (codes.flatMap referenced ++ new.flatMap Block.references).Perm (new.map Block.label)
  reached : ∀ b ∈ new, Reached new (codes.flatMap referenced) b.label
  pieces : ∀ code ∈ codes, StaysInside code
  bodies : ∀ b ∈ new, ∃ code, b.instructions = code ++ [.leave] ∧ StaysInside code

/-- **What generation has made between two states**, when `codes` are pieces of code that were not
    put together yet. -/
def Drafts (s s' : CodeState) (codes : List (List Instruction)) : Prop :=
  ∃ new, s'.blocks = s.blocks ++ new ∧ Wires s.labels s'.labels new codes

namespace Drafts

variable {s s₁ s' : CodeState} {codes codes' : List (List Instruction)} {stem : String}

theorem refl (s : CodeState) : Drafts s s [] := by
  refine ⟨[], (List.append_nil _).symm, .refl _, .refl _, .refl _, ?_, ?_, ?_⟩
  all_goals exact fun _ h => nomatch h

theorem append (h : Drafts s s₁ codes) (h' : Drafts s₁ s' codes') :
    Drafts s s' (codes ++ codes') := by
  obtain ⟨new, hnew, h⟩ := h
  obtain ⟨new', hnew', h'⟩ := h'
  refine ⟨new ++ new', ?blocks, ?places, ?labels, ?references, ?reached, ?pieces, ?bodies⟩
  case blocks =>
    rw [hnew', hnew, List.append_assoc]
  case places =>
    refine (h.places.append h'.places).only (List.Perm.subperm (List.perm_iff_count.2 fun l => ?_))
    simp only [List.flatMap_append, List.count_append]
    omega
  case labels =>
    rw [List.map_append]
    exact h.labels.append h'.labels
  case references =>
    refine List.perm_iff_count.2 fun l => ?_
    have hcount := List.perm_iff_count.1 h.references l
    have hcount' := List.perm_iff_count.1 h'.references l
    simp only [List.flatMap_append, List.map_append, List.count_append] at hcount hcount' ⊢
    omega
  case reached =>
    rw [List.flatMap_append]
    intro b hb
    rcases List.mem_append.1 hb with hb | hb
    · exact (h.reached b hb).mono (List.subset_append_left _ _) fun l hl =>
        .root (List.mem_append_left _ hl)
    · exact (h'.reached b hb).mono (List.subset_append_right _ _) fun l hl =>
        .root (List.mem_append_right _ hl)
  case pieces =>
    exact fun code hcode => (List.mem_append.1 hcode).elim (h.pieces code) (h'.pieces code)
  case bodies =>
    exact fun b hb => (List.mem_append.1 hb).elim (h.bodies b) (h'.bodies b)

/-- **Pieces are put together otherwise**, with the same places and closures. -/
theorem recast (h : Drafts s s' codes)
    (hplaced : (codes'.flatMap placed).Perm (codes.flatMap placed))
    (hreferenced : (codes'.flatMap referenced).Perm (codes.flatMap referenced))
    (hpieces : (∀ code ∈ codes, StaysInside code) → ∀ code ∈ codes', StaysInside code) :
    Drafts s s' codes' := by
  obtain ⟨new, hnew, h⟩ := h
  refine ⟨new, hnew, h.places.only (hplaced.append_right _).subperm, h.labels,
    (hreferenced.append_right _).trans h.references, fun b hb => ?_, hpieces h.pieces, h.bodies⟩
  exact (h.reached b hb).mono (List.Subset.refl _) fun l hl => .root (hreferenced.mem_iff.2 hl)

theorem perm (h : Drafts s s' codes) (hperm : codes'.Perm codes) : Drafts s s' codes' :=
  h.recast (hperm.flatMap_right _) (hperm.flatMap_right _) fun hpieces code hcode =>
    hpieces code (hperm.mem_iff.1 hcode)

/-- Two pieces become one. -/
theorem join {code code' : List Instruction} (h : Drafts s s' (code :: code' :: codes)) :
    Drafts s s' ((code ++ code') :: codes) := by
  refine h.recast ?_ ?_ fun hpieces => ?_
  · simp
  · simp
  · obtain ⟨hcode, hcode', hcodes⟩ :=
      List.forall_mem_cons.1 hpieces |>.imp id List.forall_mem_cons.1
    exact List.forall_mem_cons.2 ⟨hcode.append hcode', hcodes⟩

/-- A piece of one instruction, which marks no place and makes no closure. -/
theorem instruction {i : Instruction} (h : Drafts s s' codes) (hi : i.FallsThrough)
    (hplaced : placed [i] = []) (hreferenced : i.references = []) : Drafts s s' ([i] :: codes) := by
  refine h.recast ?_ ?_ fun hpieces => List.forall_mem_cons.2 ⟨.one hi, hpieces⟩
  · simp [hplaced]
  · simp [hreferenced]

/-- A place with a new label is a piece. -/
theorem place {label : Label} (hstem : stem ∈ codeStems)
    (h : Runs (freshLabel stem) s label s') : Drafts s s' [[.label label]] := by
  have hadds := freshLabel_adds hstem h
  obtain ⟨-, rfl⟩ := runs_modifyGet.1 h
  refine ⟨[], (List.append_nil _).symm, hadds.places, hadds.places.only List.nil_subperm, .refl _,
    ?_, List.forall_mem_singleton.2 (.one trivial), ?_⟩
  all_goals exact fun _ h => nomatch h

/-- **A piece becomes a block**, of which a closure is made. -/
theorem block {label : Label} {code : List Instruction} (h : Drafts s s₁ (code :: codes))
    (hstem : stem ∈ codeStems) (hrun : Runs (addBlock stem code) s₁ label s') :
    Drafts s s' ([.closure label] :: codes) := by
  obtain ⟨new, hnew, h⟩ := h
  simp only [addBlock, runs_bind, runs_modify, runs_pure] at hrun
  obtain ⟨l, s₂, hlabel, -, s₃, rfl, rfl, rfl⟩ := hrun
  have hmade := (freshLabel_adds hstem hlabel).places
  obtain ⟨-, rfl⟩ := runs_modifyGet.1 hlabel
  refine ⟨new ++ [⟨l, code ++ [.leave]⟩], ?blocks, ?places, ?labels, ?references, ?reached, ?pieces,
    ?bodies⟩
  case blocks =>
    show s₁.blocks ++ _ = _
    rw [hnew, List.append_assoc]
  case places =>
    have hplaces := (h.places.append hmade).only (List.sublist_append_left _ _).subperm
    refine hplaces.only (List.Perm.subperm (List.perm_iff_count.2 fun l' => ?_))
    simp [placed, List.count_append]
    omega
  case labels =>
    rw [List.map_append]
    exact h.labels.append hmade
  case references =>
    refine List.perm_iff_count.2 fun l' => ?_
    have hcount := List.perm_iff_count.1 h.references l'
    simp [Block.references, Instruction.references, referenced, List.count_append, List.count_cons]
      at hcount ⊢
    omega
  case reached =>
    have hnewLabel : Reached (new ++ [⟨l, code ++ [.leave]⟩])
        (([.closure l] :: codes).flatMap referenced) l := .root (by simp [Instruction.references])
    intro b hb
    rcases List.mem_append.1 hb with hb | hb
    · refine (h.reached b hb).mono (List.subset_append_left _ _) fun l' hl' => ?_
      rw [List.flatMap_cons] at hl'
      rcases List.mem_append.1 hl' with hl' | hl'
      · refine .next (b := ⟨l, code ++ [.leave]⟩) (by simp) hnewLabel ?_
        show l' ∈ referenced (code ++ [.leave])
        rw [referenced_append]
        exact List.mem_append_left _ hl'
      · exact .root (List.mem_append_right _ hl')
    · obtain rfl := List.mem_singleton.1 hb
      exact hnewLabel
  case pieces =>
    exact List.forall_mem_cons.2 ⟨.one trivial, (List.forall_mem_cons.1 h.pieces).2⟩
  case bodies =>
    intro b hb
    rcases List.mem_append.1 hb with hb | hb
    · exact h.bodies b hb
    · obtain rfl := List.mem_singleton.1 hb
      exact ⟨code, rfl, (List.forall_mem_cons.1 h.pieces).1⟩

/-- Pieces become blocks, of which a group of closures is made. -/
theorem blocks (hstem : stem ∈ codeStems) : ∀ {cs codes : List (List Instruction)}
    {labels : List Label} {s₁ s' : CodeState}, Drafts s s₁ (cs ++ codes) →
      Runs (addBlocks stem cs) s₁ labels s' → Drafts s s' ([.closures labels] :: codes)
  | [], _, _, _, _, h, hrun => by
    obtain ⟨rfl, rfl⟩ := runs_pure.1 hrun
    exact h.instruction trivial rfl rfl
  | code :: cs, codes, _, _, _, h, hrun => by
    simp only [addBlocks, runs_bind, runs_pure] at hrun
    obtain ⟨label, s₂, hblock, labels, s₃, hblocks, rfl, rfl⟩ := hrun
    have hfirst : Drafts s s₂ (cs ++ [.closure label] :: codes) :=
      (h.block hstem hblock).perm List.perm_middle
    refine (blocks hstem hfirst hblocks).recast ?_ ?_ fun hpieces => ?_
    · simp [placed]
    · simp [Instruction.references, List.perm_middle.symm]
    · exact List.forall_mem_cons.2
        ⟨.one trivial, (List.forall_mem_cons.1 (List.forall_mem_cons.1 hpieces).2).2⟩

/-- Three pieces become the code of a conditional. -/
theorem branches {condition thenCode elseCode code : List Instruction}
    (h : Drafts s s₁ [condition, thenCode, elseCode])
    (hrun : Runs (Machine.branches condition thenCode elseCode) s₁ code s') :
    Drafts s s' [code] := by
  simp only [Machine.branches, runs_bind, runs_pure] at hrun
  obtain ⟨thenLabel, s₂, hthen, elseLabel, s₃, helse, endLabel, s₄, hend, rfl, rfl⟩ := hrun
  have hall := ((h.append (place (by decide) hthen)).append (place (by decide) helse)).append
    (place (by decide) hend)
  have hcode : condition ++ [.branch .brfl elseLabel, .label thenLabel] ++ thenCode
      ++ [.branch .br endLabel, .label elseLabel] ++ elseCode ++ [.label endLabel] =
      conditionalCode condition thenCode elseCode thenLabel elseLabel endLabel := rfl
  rw [hcode]
  refine hall.recast (List.perm_iff_count.2 fun l => ?_) (List.perm_iff_count.2 fun l => ?_)
    fun hpieces => ?_
  · simp only [List.flatMap_cons, List.flatMap_nil, List.append_nil, placed_conditionalCode,
      List.cons_append, List.nil_append, List.count_append]
    simp [placed]
    omega
  · simp [conditionalCode, Instruction.references]
  · have hcondition := hpieces condition (by simp)
    have hthen := hpieces thenCode (by simp)
    have helse := hpieces elseCode (by simp)
    rw [conditionalCode_eq]
    refine List.forall_mem_singleton.2 (hcondition.append (.branch ?_ (.cons trivial
      (hthen.append (.branch ?_ (.cons trivial (helse.append (.one trivial))))))))
    · simp [placed]
    · simp [placed]

end Drafts

end Machine

/-! ## 3. The code of trees -/

theorem referenced_inSequence : ∀ codes : List (List Instruction),
    referenced (inSequence codes) = codes.flatMap referenced
  | [] => rfl
  | [code] => by simp [inSequence]
  | code :: next :: rest => by
    rw [inSequence_cons, referenced_append, referenced_cons, referenced_inSequence (next :: rest)]
    rfl

theorem StaysInside.inSequence : ∀ {codes : List (List Instruction)},
    (∀ code ∈ codes, StaysInside code) → StaysInside (inSequence codes)
  | [], _ => .nil
  | [_], h => h _ List.mem_cons_self
  | code :: next :: rest, h => by
    obtain ⟨hcode, hrest⟩ := List.forall_mem_cons.1 h
    exact hcode.append (.cons trivial (StaysInside.inSequence hrest))

namespace Machine.Drafts

variable {s s' : CodeState} {codes : List (List Instruction)} {code : List Instruction}

/-- One more instruction behind a piece. -/
theorem behind {i : Instruction} (h : Drafts s s' (code :: codes)) (hi : i.FallsThrough)
    (hplaced : placed [i] = []) (hreferenced : i.references = []) :
    Drafts s s' ((code ++ [i]) :: codes) :=
  ((h.instruction hi hplaced hreferenced).perm (.swap _ _ _)).join

/-- Pieces become the code of statements in a row. -/
theorem inSequence (h : Drafts s s' codes) : Drafts s s' [inSequence codes] := by
  refine h.recast ?_ ?_ fun hpieces => List.forall_mem_singleton.2 (.inSequence hpieces)
  · simp [placed_inSequence]
  · simp [referenced_inSequence]

end Machine.Drafts

mutual

/-- **What generation keeps** on every tree without a program inside. -/
theorem Node.code_drafts : ∀ {n : Node} {code : List Instruction} {s s' : CodeState},
    n.Everywhere (·.kind ≠ .top) → Runs n.code s code s' → Drafts s s' [code]
  | .top .., _, _, _, hn, _ => absurd rfl hn.here
  | .literal .., _, s, _, _, h => by
    obtain ⟨rfl, rfl⟩ := runs_pure.1 h
    exact (Drafts.refl s).instruction trivial rfl rfl
  | .indexed _ depth sibling, _, s, _, _, h => by
    obtain ⟨rfl, rfl⟩ := runs_pure.1 h
    have haccess : Drafts s s [[.access depth]] := (Drafts.refl s).instruction trivial rfl rfl
    cases sibling with
    | none => exact haccess
    | some k => exact haccess.behind trivial rfl rfl
  | .builtin .., _, s, _, _, h => by
    obtain ⟨rfl, rfl⟩ := runs_pure.1 h
    exact (Drafts.refl s).instruction trivial rfl rfl
  | .application _ f a, _, _, _, hn, h => by
    simp only [Node.code, runs_bind, runs_pure] at h
    obtain ⟨function, s₁, hf, argument, s₂, ha, rfl, rfl⟩ := h
    have hfunction := code_drafts (hn.child List.mem_cons_self) hf
    have hargument := code_drafts (hn.child (List.mem_cons_of_mem _ List.mem_cons_self)) ha
    exact (hfunction.append hargument).join.behind trivial rfl rfl
  | .lambda _ _ _ body, _, _, _, hn, h => by
    simp only [Node.code, runs_bind, runs_pure] at h
    obtain ⟨code, s₁, hbody, label, s₂, hblock, rfl, rfl⟩ := h
    exact (code_drafts (hn.child List.mem_cons_self) hbody).block (by decide) hblock
  | .letIn _ _ _ value body, _, _, _, hn, h => by
    simp only [Node.code, runs_bind, runs_pure] at h
    obtain ⟨valueCode, s₁, hvalue, code, s₂, hbody, label, s₃, hblock, rfl, rfl⟩ := h
    have hvalue := code_drafts (hn.child List.mem_cons_self) hvalue
    have hbody := code_drafts (hn.child (List.mem_cons_of_mem _ List.mem_cons_self)) hbody
    -- the body goes into a block, and the code of the value stays
    have hpieces := ((hvalue.append hbody).perm (.swap _ _ _)).block (by decide) hblock
    exact hpieces.join.behind trivial rfl rfl
  | .letRecArm _ _ _ _ _ body, _, _, _, hn, h => by
    rw [Node.code] at h
    exact code_drafts (hn.child List.mem_cons_self) h
  | .letRec _ arms body, _, _, _, hn, h => by
    simp only [Node.code, runs_bind, runs_pure] at h
    obtain ⟨cs, s₁, harms, code, s₂, hbody, members, s₃, hmembers, label, s₄, hblock, rfl, rfl⟩ := h
    have harms := codes_drafts (fun n hn' => hn.child (List.mem_append_left _ hn')) harms
    have hbody := code_drafts (hn.child (List.mem_append_right _ List.mem_cons_self)) hbody
    have hgroup := ((harms.append hbody).blocks (by decide) hmembers).perm (.swap _ _ _)
    exact (hgroup.block (by decide) hblock).join.behind trivial rfl rfl
  | .sequence _ es, _, _, _, hn, h => by
    simp only [Node.code, runs_bind, runs_pure] at h
    obtain ⟨cs, s₁, hes, rfl, rfl⟩ := h
    exact (codes_drafts (fun n hn' => hn.child hn') hes).inSequence
  | .conditional _ c t e, _, _, _, hn, h => by
    simp only [Node.code, runs_bind] at h
    obtain ⟨condition, s₁, hc, thenCode, s₂, ht, elseCode, s₃, he, h⟩ := h
    have hcondition := code_drafts (hn.child List.mem_cons_self) hc
    have hthen := code_drafts (hn.child (List.mem_cons_of_mem _ List.mem_cons_self)) ht
    have helse := code_drafts
      (hn.child (List.mem_cons_of_mem _ (List.mem_cons_of_mem _ List.mem_cons_self))) he
    exact ((hcondition.append hthen).append helse).branches h
  | .binary _ _ l r, _, _, _, hn, h => by
    simp only [Node.code, runs_bind, runs_pure] at h
    obtain ⟨left, s₁, hl, right, s₂, hr, rfl, rfl⟩ := h
    have hleft := code_drafts (hn.child List.mem_cons_self) hl
    have hright := code_drafts (hn.child (List.mem_cons_of_mem _ List.mem_cons_self)) hr
    exact (hleft.append hright).join.behind trivial rfl rfl
  | .unary _ _ e, _, _, _, hn, h => by
    simp only [Node.code, runs_bind, runs_pure] at h
    obtain ⟨operand, s₁, he, rfl, rfl⟩ := h
    exact (code_drafts (hn.child List.mem_cons_self) he).behind trivial rfl rfl
  | .reference .., _, _, _, _, h | .dataConstructor .., _, _, _, _, h
  | .patternBinder .., _, _, _, _, h | .patternLiteral .., _, _, _, _, h => absurd h not_runs_fail
  | .tuple .., _, _, _, _, h | .projection .., _, _, _, _, h | .matchWith .., _, _, _, _, h
  | .matchArm .., _, _, _, _, h | .dataType .., _, _, _, _, h | .patternTuple .., _, _, _, _, h
  | .patternConstructor .., _, _, _, _, h => by
    simp [Node.code, not_runs_fail] at h

theorem Node.codes_drafts : ∀ {ns : List Node} {cs : List (List Instruction)} {s s' : CodeState},
    (∀ n ∈ ns, n.Everywhere (·.kind ≠ .top)) → Runs (codes ns) s cs s' → Drafts s s' cs
  | [], _, s, _, _, h => by
    obtain ⟨rfl, rfl⟩ := runs_pure.1 h
    exact .refl s
  | n :: ns, _, _, _, hns, h => by
    simp only [codes, runs_bind, runs_pure] at h
    obtain ⟨code, s₁, hn, cs, s₂, hrest, rfl, rfl⟩ := h
    have hfirst := code_drafts (hns n List.mem_cons_self) hn
    exact hfirst.append (codes_drafts (fun n hn => hns n (List.mem_cons_of_mem _ hn)) hrest)

end

/-! ## 4. Programs -/

namespace Program

/-- The operands of all the instructions that make closures. -/
def references (p : Program) : List Label := p.blocks.flatMap Block.references

/-- The labels of the places that are marked anywhere. -/
def places (p : Program) : List Label := p.blocks.flatMap fun b => placed b.instructions

/-- The instructions of all the blocks. -/
def instructions (p : Program) : List Instruction := p.blocks.flatMap Block.instructions

/-- **A way from the main block to another one**: the labels of the blocks that make the closures,
    the last one first. -/
inductive Leads (p : Program) : Label → List Label → Prop where
  | main : Leads p "main" []
  | next {b : Block} {label : Label} {way : List Label} (hb : b ∈ p.blocks)
      (h : Leads p b.label way) (hlabel : label ∈ b.references) : Leads p label (b.label :: way)

/-- **The integrity of control flow.** -/
structure KeepsControl (p : Program) : Prop where
  /-- The main block comes first, -/
  main : p.main?.map Block.label = some "main"
  /-- and no two blocks have the same label. -/
  labels : (p.blocks.map Block.label).Nodup
  /-- Closures are made of blocks of the program, -/
  named : ∀ label ∈ p.references, ∃ b ∈ p.blocks, b.label = label
  /-- of the main block nowhere and of every other one by one operand, -/
  once : ∀ b ∈ p.blocks, p.references.count b.label = if b.label = "main" then 0 else 1
  /-- and blocks make up a tree with the main block at its root. -/
  tree : ∀ b ∈ p.blocks, ∃! way, p.Leads b.label way
  /-- The one `halt` is the last instruction of the main block, -/
  halt : p.instructions.count .halt = 1 ∧
    ∃ b code, p.main? = some b ∧ b.instructions = code ++ [.halt]
  /-- and the one instruction of another block that goes back is its last. -/
  leave : ∀ b ∈ p.blocks, b.label ≠ "main" →
    ∃ code, b.instructions = code ++ [.leave] ∧ .leave ∉ code
  /-- A branch goes to a place behind it in its block, and no other place is marked like it. -/
  forward : ∀ b ∈ p.blocks, ∀ before kind target after,
    b.instructions = before ++ .branch kind target :: after →
      target ∈ placed after ∧ p.places.count target = 1

end Program

section Generated

variable {p : Program} {m : Mark} {e : Node}

/-- An instruction behind code that stays inside is no branch of it. -/
theorem StaysInside.forward_before {code before after : List Instruction} {i : Instruction}
    {kind : BranchKind} {target : Label} (h : StaysInside code) (hi : i ≠ .branch kind target)
    (heq : code ++ [i] = before ++ .branch kind target :: after) : target ∈ placed after := by
  rcases List.eq_nil_or_concat' after with rfl | ⟨after, last, rfl⟩
  · exact absurd (List.append_inj' heq rfl).2 fun hlast => hi (List.cons.inj hlast).1
  · rw [← List.cons_append, ← List.append_assoc] at heq
    obtain ⟨rfl, -⟩ := List.append_inj' heq rfl
    rw [placed_append]
    exact List.mem_append_left _ (h.forward _ _ _ _ rfl)

/-- One operand stands in one block. -/
theorem Program.eq_of_mem_references (hp : p.references.Nodup) {b b' : Block} {label : Label}
    (hb : b ∈ p.blocks) (hb' : b' ∈ p.blocks) (hlabel : label ∈ b.references)
    (hlabel' : label ∈ b'.references) : b = b' := by
  by_contra hne
  have : Std.Symm (Function.onFun List.Disjoint Block.references) := ⟨fun _ _ h _ ha hb => h hb ha⟩
  exact (List.nodup_flatMap.1 hp).2.forall hb hb' hne hlabel hlabel'

/-- **There is one way to a block**, when every block is named once and the main block nowhere. -/
theorem Program.Leads.unique (hp : p.references.Nodup) (hmain : "main" ∉ p.references)
    {label : Label} {way way' : List Label} (h : p.Leads label way) (h' : p.Leads label way') :
    way = way' := by
  induction h generalizing way' with
  | main =>
    cases h' with
    | main => rfl
    | next hb _ hlabel => exact absurd (List.mem_flatMap.2 ⟨_, hb, hlabel⟩) hmain
  | next hb _ hlabel ih =>
    cases h' with
    | main => exact absurd (List.mem_flatMap.2 ⟨_, hb, hlabel⟩) hmain
    | next hb' h' hlabel' =>
      obtain rfl := eq_of_mem_references hp hb hb' hlabel hlabel'
      rw [ih h']

/-- What is reached from the closures of a block has a way that leads to it. -/
theorem Program.exists_leads {main : Block} {new : List Block} (hp : p.blocks = main :: new)
    (hmain : main.label = "main") {label : Label} (h : Reached new main.references label) :
    ∃ way, p.Leads label way := by
  induction h with
  | root h =>
    refine ⟨[main.label], .next (hp ▸ List.mem_cons_self) ?_ h⟩
    rw [hmain]
    exact .main
  | next hb _ hlabel ih =>
    obtain ⟨way, hway⟩ := ih
    exact ⟨_, .next (hp ▸ List.mem_cons_of_mem _ hb) hway hlabel⟩

/-- A program that is generated has its main block, and what generation has made. -/
theorem Program.wires_of_generate (he : e.Everywhere (·.kind ≠ .top))
    (h : (Node.top m e).generate = .ok p) :
    ∃ code new s', p.blocks = ⟨"main", code ++ [.halt]⟩ :: new ∧ Wires .empty s' new [code] := by
  obtain ⟨code, s', hrun, rfl⟩ := generate_eq_ok.1 h
  obtain ⟨new, hnew, hwires⟩ := Node.code_drafts he hrun
  obtain rfl : s'.blocks = new := hnew
  exact ⟨code, _, _, rfl, hwires⟩

section Made

variable {code : List Instruction} {new : List Block} {s' : Supply} {b : Block}
variable (hp : p.blocks = ⟨"main", code ++ [.halt]⟩ :: new) (hwires : Wires .empty s' new [code])
include hp

/-- Every block but the main one was made by generation. -/
theorem Program.mem_of_ne_main (hb : b ∈ p.blocks) (hne : b.label ≠ "main") : b ∈ new :=
  (List.mem_cons.1 (hp ▸ hb)).resolve_left fun heq => hne (heq ▸ rfl)

include hwires

/-- There is a way to every block. -/
theorem Program.exists_leads_of_wires (hb : b ∈ p.blocks) : ∃ way, p.Leads b.label way := by
  rcases List.mem_cons.1 (hp ▸ hb) with rfl | hb
  · exact ⟨[], .main⟩
  · refine exists_leads hp rfl ((hwires.reached b hb).mono (List.Subset.refl _) fun l hl =>
      .root ?_)
    show l ∈ referenced (code ++ [.halt])
    simpa [Instruction.references] using hl

/-- The operands that make closures are the labels of the blocks behind the main one. -/
theorem Program.references_perm : p.references.Perm (new.map Block.label) := by
  refine .trans (.of_eq ?_) hwires.references
  rw [references, hp, List.flatMap_cons]
  show referenced (code ++ [.halt]) ++ _ = _
  simp [Instruction.references]

/-- Closures are made of the main block nowhere, and of another block by one operand. -/
theorem Program.count_references (hb : b ∈ p.blocks) :
    p.references.count b.label = if b.label = "main" then 0 else 1 := by
  rw [(references_perm hp hwires).count_eq]
  split
  · next heq =>
    rw [heq]
    exact List.count_eq_zero_of_not_mem (main_not_mem hwires.labels)
  · next hne =>
    have hb := mem_of_ne_main hp hb hne
    exact List.count_eq_one_of_mem hwires.labels.nodup (List.mem_map_of_mem hb)

/-- No two places are marked alike. -/
theorem Program.nodup_places : p.places.Nodup := by
  have hplaces : p.places = placed code ++ new.flatMap fun b => placed b.instructions := by
    simp [places, hp, placed]
  rw [hplaces]
  simpa using hwires.places.nodup

/-- The machine stops at one place only. -/
theorem Program.count_halt : p.instructions.count .halt = 1 := by
  have hnew : .halt ∉ new.flatMap Block.instructions := fun hmem => by
    obtain ⟨b, hb, hmem⟩ := List.mem_flatMap.1 hmem
    obtain ⟨body, hbody, hinside⟩ := hwires.bodies b hb
    rw [hbody] at hmem
    exact (List.mem_append.1 hmem).elim hinside.halt (by simp)
  have hcode := (hwires.pieces code List.mem_cons_self).halt
  rw [instructions, hp, List.flatMap_cons, List.count_append, List.count_append,
    List.count_eq_zero_of_not_mem hcode, List.count_eq_zero_of_not_mem hnew]
  rfl

/-- Branches go forward in their block. -/
theorem Program.mem_placed_of_branch {before after : List Instruction} {kind : BranchKind}
    {target : Label} (hb : b ∈ p.blocks)
    (heq : b.instructions = before ++ .branch kind target :: after) : target ∈ placed after := by
  rcases List.mem_cons.1 (hp ▸ hb) with rfl | hb
  · exact (hwires.pieces code List.mem_cons_self).forward_before (i := .halt) (by simp) heq
  · obtain ⟨body, hbody, hinside⟩ := hwires.bodies b hb
    exact hinside.forward_before (i := .leave) (by simp) (hbody.symm.trans heq)

end Made

/-- **Generated programs keep control.** A program that is generated from a tree, with no other
    program inside, has the integrity of control flow. -/
theorem Program.keepsControl_of_generate (he : e.Everywhere (·.kind ≠ .top))
    (h : (Node.top m e).generate = .ok p) : p.KeepsControl := by
  obtain ⟨code, new, s', hp, hwires⟩ := wires_of_generate he h
  have hperm := references_perm hp hwires
  have hmain := main_not_mem hwires.labels
  have hlabels := hwires.labels.nodup
  refine ⟨?main, ?labels, fun label hlabel => ?named, fun b hb => count_references hp hwires hb,
    fun b hb => ?tree, ⟨count_halt hp hwires, ?halt⟩, fun b hb hne => ?leave,
    fun b hb before kind target after heq => ?forward⟩
  case main =>
    rw [main?_eq_head?, hp]
    rfl
  case labels =>
    rw [hp]
    exact List.nodup_cons.2 ⟨hmain, hlabels⟩
  case named =>
    obtain ⟨b, hb, rfl⟩ := List.mem_map.1 (hperm.mem_iff.1 hlabel)
    exact ⟨b, hp ▸ List.mem_cons_of_mem _ hb, rfl⟩
  case tree =>
    obtain ⟨way, hway⟩ := exists_leads_of_wires hp hwires hb
    exact ⟨way, hway, fun way' hway' =>
      hway'.unique (hperm.nodup_iff.2 hlabels) (mt hperm.mem_iff.1 hmain) hway⟩
  case halt => exact ⟨_, code, by rw [main?_eq_head?, hp]; rfl, rfl⟩
  case leave =>
    obtain ⟨body, hbody, hinside⟩ := hwires.bodies b (mem_of_ne_main hp hb hne)
    exact ⟨body, hbody, hinside.leave⟩
  case forward =>
    have htarget := mem_placed_of_branch hp hwires hb heq
    refine ⟨htarget, List.count_eq_one_of_mem (nodup_places hp hwires)
      (List.mem_flatMap.2 ⟨b, hb, ?_⟩)⟩
    rw [heq, placed_append, placed_cons]
    exact List.mem_append_right _ (List.mem_append_right _ htarget)

end Generated

/-- Two functions that call each other, a branch inside of a function, and a function in a `let`. -/
def branchingGroup : Node :=
  .letRec default
    [.letRecArm default "f" "n" none none
      (.conditional default (.indexed default 1 none)
        (.application default (.indexed default 2 (some 2)) (.indexed default 1 none))
        (.conditional default (.literal default (.boolean true)) (.literal default (.integer 1))
          (.literal default (.integer 2)))),
      .letRecArm default "g" "m" none none
        (.application default (.indexed default 2 (some 1)) (.indexed default 1 none))]
    (.letIn default "h" none (.lambda default "x" none (.indexed default 1 none))
      (.application default (.indexed default 1 none) (.indexed default 2 (some 1))))

theorem keepsControl_branchingGroup : branchingGroup.Everywhere (·.kind ≠ .top) ∧ ∃ p,
    (Node.top default branchingGroup).generate = .ok p ∧
      p.blocks.map Block.label = ["main", "lam0", "let0", "clos0", "clos1", "letrec0"] ∧
      p.places = ["tr1", "fl1", "tr0", "fl0", "end0", "end1"] ∧ p.KeepsControl := by
  have hinside : branchingGroup.Everywhere (·.kind ≠ .top) := by decide
  have h : (Node.top default branchingGroup).generate = .ok _ := rfl
  exact ⟨hinside, _, h, by cbv, by cbv, Program.keepsControl_of_generate hinside h⟩

end ClosureML
