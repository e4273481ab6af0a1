import ClosureML.Machine.Generation
import ClosureML.Proofs.Names.Indexed
import ClosureML.Proofs.Names.Numbered
import Mathlib.Data.List.Forall2

/-!
# The code of a tree

Generation gives every tree of core constructs its code, and puts the code of bodies into blocks of
their own. Labels mark different places, since their numbers are taken from one supply.

* `placed code`: the labels of the places that are marked in some code;
* `Machine.labelFormat`: how labels are made;
* `Machine.Adds s s' labels`: what generation adds between two states;
* `HasCode p n code`: the code of a tree, as it was generated for a program;
* `HasBlock p label n`: the block of a program that runs a tree and goes back.

Main statements: `Node.code_adds` (labels mark different places), `IsIndexed.generate_ok`
(generation succeeds), `Program.isLabelled_of_generate`, and the equations of `HasCode`.
-/

namespace ClosureML

open Machine Node

/-! ## 1. Places in code -/

/-- The labels of the places that are marked in some code. -/
def placed (code : List Instruction) : List Label :=
  code.filterMap fun
    | .label l => some l
    | _ => none

/-- The code of a conditional. -/
def conditionalCode (condition thenCode elseCode : List Instruction)
    (thenLabel elseLabel endLabel : Label) : List Instruction :=
  condition ++ [.branch .brfl elseLabel, .label thenLabel] ++ thenCode
    ++ [.branch .br endLabel, .label elseLabel] ++ elseCode ++ [.label endLabel]

theorem conditionalCode_eq (condition thenCode elseCode : List Instruction)
    (thenLabel elseLabel endLabel : Label) :
    conditionalCode condition thenCode elseCode thenLabel elseLabel endLabel =
      condition ++ .branch .brfl elseLabel :: .label thenLabel ::
        (thenCode ++ .branch .br endLabel :: .label elseLabel ::
          (elseCode ++ [.label endLabel])) := by
  simp [conditionalCode]

section Placed

variable {code code' : List Instruction}

@[simp] theorem placed_append : placed (code ++ code') = placed code ++ placed code' :=
  List.filterMap_append

@[simp] theorem placed_nil : placed [] = [] := rfl

@[simp] theorem placed_cons (i : Instruction) :
    placed (i :: code) = placed [i] ++ placed code := @placed_append [i] code

theorem placed_accessPlace (depth : Nat) (sibling : Option Nat) :
    placed (accessPlace depth sibling) = [] := by
  cases sibling <;> rfl

theorem placed_conditionalCode (condition thenCode elseCode : List Instruction)
    (thenLabel elseLabel endLabel : Label) :
    placed (conditionalCode condition thenCode elseCode thenLabel elseLabel endLabel) =
      placed condition ++ [thenLabel] ++ placed thenCode ++ [elseLabel] ++ placed elseCode
        ++ [endLabel] := by
  simp [conditionalCode, placed]

theorem inSequence_cons (code code' : List Instruction) (rest : List (List Instruction)) :
    inSequence (code :: code' :: rest) = code ++ .pop 1 :: inSequence (code' :: rest) := rfl

theorem placed_inSequence : ∀ codes : List (List Instruction),
    placed (inSequence codes) = codes.flatMap placed
  | [] => rfl
  | [code] => by simp [inSequence]
  | code :: next :: rest => by
    rw [inSequence_cons, placed_append, placed_cons, placed_inSequence (next :: rest)]
    rfl

end Placed

/-! ## 2. Labels -/

namespace Machine

/-- The stems of labels. -/
def codeStems : List String := ["lam", "let", "clos", "letrec", "tr", "fl", "end"]

theorem not_endsInDigit_of_mem_codeStems {stem : String} (h : stem ∈ codeStems) :
    ¬ EndsInDigit stem.toList := by
  simp only [codeStems, List.mem_cons, List.not_mem_nil, or_false] at h
  rcases h with rfl | rfl | rfl | rfl | rfl | rfl | rfl <;> simp [EndsInDigit]

/-- How labels are made. -/
def labelFormat : NameFormat where
  name stem k := stem ++ toString k
  IsStem stem := stem ∈ codeStems
  inj h h' heq := stem_append_inj (not_endsInDigit_of_mem_codeStems h)
    (not_endsInDigit_of_mem_codeStems h') heq

/-- A label that was made is not that of the main block. -/
theorem main_not_mem {s s' : Supply} {labels : List Label} (h : s.Makes labelFormat s' labels) :
    "main" ∉ labels := by
  intro hmem
  obtain ⟨stem, hstem, k, -, -, heq⟩ := h.made _ hmem
  have hlist : "main".toList = (stem ++ toString k).toList := congrArg String.toList heq
  have hstem : stem ∈ codeStems := hstem
  simp only [codeStems, List.mem_cons, List.not_mem_nil, or_false] at hstem
  rcases hstem with rfl | rfl | rfl | rfl | rfl | rfl | rfl <;> simp at hlist

/-- Between two states, generation has made the labels of some places, and blocks with different
    labels, in each of which places have different labels. -/
structure Adds (s s' : CodeState) (labels : List Label) : Prop where
  places : s.labels.Makes labelFormat s'.labels labels
  blocks : ∃ new, s'.blocks = s.blocks ++ new ∧
    s.labels.Makes labelFormat s'.labels (new.map Block.label) ∧
    ∀ b ∈ new, (placed b.instructions).Nodup

namespace Adds

variable {s s₁ s' : CodeState} {labels labels' : List Label}

theorem refl (s : CodeState) : Adds s s [] :=
  ⟨.refl _, [], (List.append_nil _).symm, .refl _, fun _ h => nomatch h⟩

theorem only (h : Adds s s' labels) (hsub : labels'.Subperm labels) : Adds s s' labels' :=
  ⟨h.places.only hsub, h.blocks⟩

theorem append (h : Adds s s₁ labels) (h' : Adds s₁ s' labels') :
    Adds s s' (labels ++ labels') := by
  obtain ⟨new, hnew, hlabels, hplaced⟩ := h.blocks
  obtain ⟨new', hnew', hlabels', hplaced'⟩ := h'.blocks
  refine ⟨h.places.append h'.places, new ++ new', ?_, ?_, fun b hb => ?_⟩
  · rw [hnew', hnew, List.append_assoc]
  · rw [List.map_append]
    exact hlabels.append hlabels'
  · exact (List.mem_append.1 hb).elim (hplaced b) (hplaced' b)

/-- Places that were made before stay the only ones. -/
theorem trans (h : Adds s s₁ labels) (h' : Adds s₁ s' labels') : Adds s s' labels :=
  (h.append h').only (List.sublist_append_left _ _).subperm

theorem subset (h : Adds s s' labels) : s.blocks ⊆ s'.blocks := by
  obtain ⟨new, hnew, -⟩ := h.blocks
  rw [hnew]
  exact List.subset_append_left _ _

end Adds

section Steps

variable {s s' : CodeState} {stem : String}

/-- A new label is made. -/
theorem freshLabel_adds {label : Label} (hstem : stem ∈ codeStems)
    (h : Runs (freshLabel stem) s label s') : Adds s s' [label] := by
  obtain ⟨rfl, rfl⟩ := runs_modifyGet.1 h
  have hlabels : s.labels.Makes labelFormat (s.labels.next stem).2
      [labelFormat.name stem (s.labels.count stem)] := .next hstem s.labels
  exact ⟨hlabels, [], (List.append_nil _).symm, hlabels.only List.nil_subperm, fun _ h => nomatch h⟩

/-- A new block is made, which runs some code and goes back. -/
theorem addBlock_adds {label : Label} {code : List Instruction} (hstem : stem ∈ codeStems)
    (hcode : (placed code).Nodup) (h : Runs (addBlock stem code) s label s') :
    Adds s s' [] ∧ ⟨label, code ++ [.leave]⟩ ∈ s'.blocks := by
  simp only [addBlock, runs_bind, runs_modify, runs_pure] at h
  obtain ⟨l, s₁, hlabel, -, s₂, rfl, rfl, rfl⟩ := h
  have hadds := freshLabel_adds hstem hlabel
  obtain ⟨hl, rfl⟩ := runs_modifyGet.1 hlabel
  refine ⟨⟨hadds.places.only List.nil_subperm, _, rfl, hadds.places, ?_⟩, ?_⟩
  · intro b hb
    obtain rfl := List.mem_singleton.1 hb
    rw [placed_append]
    exact (List.append_nil _).symm ▸ hcode
  · exact List.mem_append_right _ List.mem_cons_self

/-- New blocks are made. -/
theorem addBlocks_adds (hstem : stem ∈ codeStems) : ∀ {codes : List (List Instruction)}
    {labels : List Label} {s s' : CodeState}, (∀ code ∈ codes, (placed code).Nodup) →
      Runs (addBlocks stem codes) s labels s' →
        Adds s s' [] ∧
        List.Forall₂ (fun label code => ⟨label, code ++ [.leave]⟩ ∈ s'.blocks) labels codes
  | [], _, s, _, _, h => by
    obtain ⟨rfl, rfl⟩ := runs_pure.1 h
    exact ⟨.refl s, .nil⟩
  | code :: codes, _, s, _, hcodes, h => by
    simp only [addBlocks, runs_bind, runs_pure] at h
    obtain ⟨label, s₁, hrun, labels, s₂, hruns, rfl, rfl⟩ := h
    obtain ⟨hcode, hcodes⟩ := List.forall_mem_cons.1 hcodes
    obtain ⟨hadds, hblock⟩ := addBlock_adds hstem hcode hrun
    obtain ⟨hadds', hblocks⟩ := addBlocks_adds hstem hcodes hruns
    exact ⟨hadds.trans hadds', .cons (hadds'.subset hblock) hblocks⟩

/-- The code of a conditional is put together. -/
theorem branches_adds {condition thenCode elseCode code : List Instruction}
    (h : Runs (branches condition thenCode elseCode) s code s') :
    ∃ thenLabel elseLabel endLabel, Adds s s' [thenLabel, elseLabel, endLabel] ∧
      code = conditionalCode condition thenCode elseCode thenLabel elseLabel endLabel := by
  simp only [branches, runs_bind, runs_pure] at h
  obtain ⟨thenLabel, s₁, hthen, elseLabel, s₂, helse, endLabel, s₃, hend, rfl, rfl⟩ := h
  have hadds := freshLabel_adds (by decide) hthen
  have hadds₁ := freshLabel_adds (by decide) helse
  have hadds₂ := freshLabel_adds (by decide) hend
  exact ⟨thenLabel, elseLabel, endLabel, (hadds.append hadds₁).append hadds₂, rfl⟩

end Steps

end Machine

/-! ## 3. Generation adds -/

section Adding

variable {s s' : CodeState}

theorem not_runs_fail {α : Type} {cause : Cause} {p : Position} {a : α} :
    ¬ Runs (fail cause p : Generate α) s a s' := runs_throw

mutual

/-- **The labels in the code of a tree mark different places**, and so do those in the blocks that
    were made for it. -/
theorem Node.code_adds : ∀ {n : Node} {code : List Instruction} {s s' : CodeState},
    Runs n.code s code s' → Adds s s' (placed code)
  | .top _ e, _, _, _, h => by
    simp only [Node.code, runs_bind, runs_pure] at h
    obtain ⟨code, s₁, he, rfl, rfl⟩ := h
    simpa [placed] using code_adds he
  | .literal .., _, s, _, h => by
    obtain ⟨rfl, rfl⟩ := runs_pure.1 h
    exact .refl s
  | .indexed .., _, s, _, h => by
    obtain ⟨rfl, rfl⟩ := runs_pure.1 h
    rw [placed_accessPlace]
    exact .refl s
  | .builtin .., _, s, _, h => by
    obtain ⟨rfl, rfl⟩ := runs_pure.1 h
    exact .refl s
  | .application _ f a, _, _, _, h => by
    simp only [Node.code, runs_bind, runs_pure] at h
    obtain ⟨function, s₁, hf, argument, s₂, ha, rfl, rfl⟩ := h
    simpa [placed] using (code_adds hf).append (code_adds ha)
  | .lambda _ _ _ body, _, _, _, h => by
    simp only [Node.code, runs_bind, runs_pure] at h
    obtain ⟨code, s₁, hbody, label, s₂, hblock, rfl, rfl⟩ := h
    have hadds := code_adds hbody
    have hadds' := (addBlock_adds (by decide) hadds.places.nodup hblock).1
    exact (hadds.only List.nil_subperm).trans hadds'
  | .letIn _ _ _ value body, _, _, _, h => by
    simp only [Node.code, runs_bind, runs_pure] at h
    obtain ⟨valueCode, s₁, hvalue, code, s₂, hbody, label, s₃, hblock, rfl, rfl⟩ := h
    have hadds := code_adds hbody
    have hadds' := (addBlock_adds (by decide) hadds.places.nodup hblock).1
    simpa [placed] using (code_adds hvalue).trans (hadds.trans hadds')
  | .letRecArm _ _ _ _ _ body, _, _, _, h => by
    rw [Node.code] at h
    exact code_adds h
  | .letRec _ arms body, _, _, _, h => by
    simp only [Node.code, runs_bind, runs_pure] at h
    obtain ⟨cs, s₁, harms, code, s₂, hbody, members, s₃, hmembers, label, s₄, hblock, rfl, rfl⟩ := h
    have hadds := codes_adds harms
    have hadds₁ := code_adds hbody
    have hcs := (List.nodup_flatMap.1 hadds.places.nodup).1
    have hadds₂ := (addBlocks_adds (by decide) hcs hmembers).1
    have hadds₃ := (addBlock_adds (by decide) hadds₁.places.nodup hblock).1
    exact (hadds.only List.nil_subperm).trans (hadds₁.trans (hadds₂.trans hadds₃))
  | .sequence _ es, _, _, _, h => by
    simp only [Node.code, runs_bind, runs_pure] at h
    obtain ⟨cs, s₁, hes, rfl, rfl⟩ := h
    rw [placed_inSequence]
    exact codes_adds hes
  | .conditional _ c t e, _, _, _, h => by
    simp only [Node.code, runs_bind] at h
    obtain ⟨condition, s₁, hc, thenCode, s₂, ht, elseCode, s₃, he, h⟩ := h
    obtain ⟨thenLabel, elseLabel, endLabel, hadds, rfl⟩ := branches_adds h
    have hall := (((code_adds hc).append (code_adds ht)).append (code_adds he)).append hadds
    -- the labels are made behind the codes, but stand between them
    refine hall.only (List.Perm.subperm (List.perm_iff_count.2 fun l => ?_))
    rw [placed_conditionalCode, show [thenLabel, elseLabel, endLabel] =
      [thenLabel] ++ ([elseLabel] ++ [endLabel]) from rfl]
    simp only [List.count_append]
    omega
  | .binary _ _ l r, _, _, _, h => by
    simp only [Node.code, runs_bind, runs_pure] at h
    obtain ⟨left, s₁, hl, right, s₂, hr, rfl, rfl⟩ := h
    simpa [placed] using (code_adds hl).append (code_adds hr)
  | .unary _ _ e, _, _, _, h => by
    simp only [Node.code, runs_bind, runs_pure] at h
    obtain ⟨operand, s₁, he, rfl, rfl⟩ := h
    simpa [placed] using code_adds he
  | .reference .., _, _, _, h | .dataConstructor .., _, _, _, h | .patternBinder .., _, _, _, h
  | .patternLiteral .., _, _, _, h => absurd h not_runs_fail
  | .tuple .., _, _, _, h | .projection .., _, _, _, h | .matchWith .., _, _, _, h
  | .matchArm .., _, _, _, h | .dataType .., _, _, _, h | .patternTuple .., _, _, _, h
  | .patternConstructor .., _, _, _, h => by
    simp [Node.code, not_runs_fail] at h

theorem Node.codes_adds : ∀ {ns : List Node} {cs : List (List Instruction)} {s s' : CodeState},
    Runs (codes ns) s cs s' → Adds s s' (cs.flatMap placed)
  | [], _, s, _, h => by
    obtain ⟨rfl, rfl⟩ := runs_pure.1 h
    exact .refl s
  | n :: ns, _, _, _, h => by
    simp only [codes, runs_bind, runs_pure] at h
    obtain ⟨code, s₁, hn, cs, s₂, hns, rfl, rfl⟩ := h
    exact (code_adds hn).append (codes_adds hns)

end

end Adding

/-! ## 4. Generation succeeds -/

theorem Machine.freshLabel_succeeds (stem : String) : Succeeds (fun _ => True) (freshLabel stem) :=
  .modifyGet fun _ => trivial

theorem Machine.addBlock_succeeds (stem : String) (code : List Instruction) :
    Succeeds (fun _ => True) (addBlock stem code) :=
  (freshLabel_succeeds stem).bind fun _ _ =>
    (Succeeds.modifyGet (p := fun _ => True) fun _ => trivial).bind fun _ _ => .pure trivial

theorem Machine.addBlocks_succeeds (stem : String) : ∀ codes : List (List Instruction),
    Succeeds (fun _ => True) (addBlocks stem codes)
  | [] => .pure trivial
  | code :: codes => by
    unfold addBlocks
    exact (addBlock_succeeds stem code).bind fun _ _ => (addBlocks_succeeds stem codes).bind
      fun _ _ => .pure trivial

theorem Machine.branches_succeeds (condition thenCode elseCode : List Instruction) :
    Succeeds (fun _ => True) (branches condition thenCode elseCode) :=
  (freshLabel_succeeds _).bind fun _ _ => (freshLabel_succeeds _).bind fun _ _ =>
    (freshLabel_succeeds _).bind fun _ _ => .pure trivial

mutual

/-- **Generation succeeds** on an expression of core constructs whose references are places. -/
theorem IsIndexed.code_succeeds : ∀ {n : Node}, IsIndexed n → Succeeds (fun _ => True) n.code
  | _, .literal => by
    unfold Node.code
    exact .pure trivial
  | _, .indexed => by
    unfold Node.code
    exact .pure trivial
  | _, .builtin => by
    unfold Node.code
    exact .pure trivial
  | _, .lambda hbody => by
    unfold Node.code
    exact hbody.code_succeeds.bind fun _ _ => (addBlock_succeeds _ _).bind fun _ _ => .pure trivial
  | _, .application hf ha => by
    unfold Node.code
    exact hf.code_succeeds.bind fun _ _ => ha.code_succeeds.bind fun _ _ => .pure trivial
  | _, .letIn hvalue hbody => by
    unfold Node.code
    exact hvalue.code_succeeds.bind fun _ _ => hbody.code_succeeds.bind fun _ _ =>
      (addBlock_succeeds _ _).bind fun _ _ => .pure trivial
  | _, .letRec harms hbody => by
    unfold Node.code
    exact harms.codes_succeeds.bind fun _ _ => hbody.code_succeeds.bind fun _ _ =>
      (addBlocks_succeeds _ _).bind fun _ _ => (addBlock_succeeds _ _).bind fun _ _ => .pure trivial
  | _, .conditional hc ht he => by
    unfold Node.code
    exact hc.code_succeeds.bind fun _ _ => ht.code_succeeds.bind fun _ _ =>
      he.code_succeeds.bind fun _ _ => branches_succeeds _ _ _
  | _, .binary hl hr => by
    unfold Node.code
    exact hl.code_succeeds.bind fun _ _ => hr.code_succeeds.bind fun _ _ => .pure trivial
  | _, .unary he => by
    unfold Node.code
    exact he.code_succeeds.bind fun _ _ => .pure trivial
  | _, .sequence _ hes => by
    unfold Node.code
    exact hes.codes_succeeds.bind fun _ _ => .pure trivial

theorem AreIndexed.codes_succeeds : ∀ {ns : List Node}, AreIndexed ns →
    Succeeds (fun _ => True) (codes ns)
  | _, .nil => by
    unfold codes
    exact .pure trivial
  | _, .cons hn hns => by
    unfold codes
    exact hn.code_succeeds.bind fun _ _ => hns.codes_succeeds.bind fun _ _ => .pure trivial

theorem AreIndexedFunctions.codes_succeeds : ∀ {arms : List Node}, AreIndexedFunctions arms →
    Succeeds (fun _ => True) (codes arms)
  | _, .nil => by
    unfold codes
    exact .pure trivial
  | _, .cons hbody hrest => by
    unfold codes Node.code
    exact hbody.code_succeeds.bind fun _ _ => hrest.codes_succeeds.bind fun _ _ => .pure trivial

end

/-! ## 5. The code of a tree in a program -/

/-- The labels of blocks are different, and so are those of the places in each of them. -/
structure Program.IsLabelled (p : Program) : Prop where
  blocks : (p.blocks.map Block.label).Nodup
  places : ∀ b ∈ p.blocks, (placed b.instructions).Nodup

/-- The code of a tree, as it was generated for a program, which has all the blocks that were made
    by then. -/
def HasCode (p : Program) (n : Node) (code : List Instruction) : Prop :=
  ∃ s s', Runs n.code s code s' ∧ s'.blocks ⊆ p.blocks

/-- The block with a label runs a tree and goes back. -/
def HasBlock (p : Program) (label : Label) (n : Node) : Prop :=
  ∃ code, HasCode p n code ∧ ⟨label, code ++ [.leave]⟩ ∈ p.blocks

/-- The program of a tree is its main block and the blocks that were made for it. -/
theorem Node.generate_eq_ok {m : Mark} {e : Node} {p : Program} :
    (Node.top m e).generate = .ok p ↔ ∃ code s', Runs e.code .empty code s' ∧
      p = ⟨⟨"main", code ++ [.halt]⟩ :: s'.blocks⟩ := by
  have hruns : ∀ code s', Runs (Node.top m e).code .empty code s' ↔
      ∃ code', Runs e.code .empty code' s' ∧ code = code' ++ [.halt] := by
    intro code s'
    simp only [Node.code, runs_bind, runs_pure]
    constructor
    · rintro ⟨code', _, hrun, rfl, rfl⟩
      exact ⟨code', hrun, rfl⟩
    · rintro ⟨code', hrun, rfl⟩
      exact ⟨code', _, hrun, rfl, rfl⟩
  unfold generate
  split
  · next code s' hrun =>
    obtain ⟨code', hcode', rfl⟩ := (hruns code s').1 hrun
    constructor
    · rintro h
      cases h
      exact ⟨code', s', hcode', rfl⟩
    · rintro ⟨code'', s'', hrun', rfl⟩
      obtain ⟨rfl, rfl⟩ := hcode'.unique hrun'
      rfl
  · next error s' hrun =>
    refine ⟨fun h => (nomatch h), ?_⟩
    rintro ⟨code, s'', hrun', -⟩
    exact absurd ⟨s', hrun⟩ (((hruns _ _).2 ⟨code, hrun', rfl⟩).not_fails)

/-- **A program of core constructs whose references are places becomes code.** -/
theorem IsIndexed.generate_ok {m : Mark} {e : Node} (h : IsIndexed e) :
    ∃ p, (Node.top m e).generate = .ok p := by
  obtain ⟨code, s', hrun, -⟩ := h.code_succeeds .empty
  exact ⟨_, generate_eq_ok.2 ⟨code, s', hrun, rfl⟩⟩

section Generated

variable {m : Mark} {e n : Node} {p : Program} {code : List Instruction}

/-- **Labels mark different places**, in a program that was generated. -/
theorem Program.isLabelled_of_generate (h : (Node.top m e).generate = .ok p) : p.IsLabelled := by
  obtain ⟨code, s', hrun, rfl⟩ := generate_eq_ok.1 h
  have hadds := code_adds hrun
  obtain ⟨new, hnew, hlabels, hplaced⟩ := hadds.blocks
  obtain rfl : s'.blocks = new := hnew
  refine ⟨List.nodup_cons.2 ⟨main_not_mem hlabels, hlabels.nodup⟩, fun b hb => ?_⟩
  rcases List.mem_cons.1 hb with rfl | hb
  · rw [placed_append]
    exact (List.append_nil _).symm ▸ hadds.places.nodup
  · exact hplaced b hb

/-- The main block of a program runs the code of the tree. -/
theorem Program.main_of_generate (h : (Node.top m e).generate = .ok p) :
    ∃ code, HasCode p e code ∧ p.main? = some ⟨"main", code ++ [.halt]⟩ := by
  obtain ⟨code, s', hrun, rfl⟩ := generate_eq_ok.1 h
  exact ⟨code, ⟨_, s', hrun, List.subset_cons_self _ _⟩, rfl⟩

end Generated

/-! ## 6. The code of each construct -/

namespace HasCode

variable {p : Program} {m : Mark} {code : List Instruction}

theorem top {e : Node} (h : HasCode p (.top m e) code) :
    ∃ code', code = code' ++ [.halt] ∧ HasCode p e code' := by
  obtain ⟨s, s', hrun, hblocks⟩ := h
  simp only [Node.code, runs_bind, runs_pure] at hrun
  obtain ⟨code', s₁, he, rfl, rfl⟩ := hrun
  exact ⟨code', rfl, s, s₁, he, hblocks⟩

theorem literal {l : Literal} (h : HasCode p (.literal m l) code) : code = [.const l.word] := by
  obtain ⟨s, s', hrun, -⟩ := h
  exact (runs_pure.1 hrun).1.symm

theorem indexed {depth : Nat} {sibling : Option Nat}
    (h : HasCode p (.indexed m depth sibling) code) :
    code = accessPlace depth sibling := by
  obtain ⟨s, s', hrun, -⟩ := h
  exact (runs_pure.1 hrun).1.symm

theorem builtin {b : Builtin} (h : HasCode p (.builtin m b) code) : code = [.builtin b] := by
  obtain ⟨s, s', hrun, -⟩ := h
  exact (runs_pure.1 hrun).1.symm

theorem lambda {x : String} {a : Option TypeExpr} {body : Node}
    (h : HasCode p (.lambda m x a body) code) :
    ∃ label, code = [.closure label] ∧ HasBlock p label body := by
  obtain ⟨s, s', hrun, hblocks⟩ := h
  simp only [Node.code, runs_bind, runs_pure] at hrun
  obtain ⟨bodyCode, s₁, hbody, label, s₂, hblock, rfl, rfl⟩ := hrun
  obtain ⟨hadds, hmem⟩ := addBlock_adds (by decide) (code_adds hbody).places.nodup hblock
  exact ⟨label, rfl, bodyCode, ⟨s, s₁, hbody, List.Subset.trans hadds.subset hblocks⟩, hblocks hmem⟩

theorem application {f a : Node} (h : HasCode p (.application m f a) code) :
    ∃ function argument, code = function ++ argument ++ [.apply] ∧ HasCode p f function ∧
      HasCode p a argument := by
  obtain ⟨s, s', hrun, hblocks⟩ := h
  simp only [Node.code, runs_bind, runs_pure] at hrun
  obtain ⟨function, s₁, hf, argument, s₂, ha, rfl, rfl⟩ := hrun
  exact ⟨function, argument, rfl, ⟨s, s₁, hf, List.Subset.trans (code_adds ha).subset hblocks⟩,
    ⟨s₁, s₂, ha, hblocks⟩⟩

theorem letIn {x : String} {a : Option TypeExpr} {value body : Node}
    (h : HasCode p (.letIn m x a value body) code) :
    ∃ label valueCode, code = .closure label :: valueCode ++ [.apply] ∧ HasCode p value valueCode ∧
      HasBlock p label body := by
  obtain ⟨s, s', hrun, hblocks⟩ := h
  simp only [Node.code, runs_bind, runs_pure] at hrun
  obtain ⟨valueCode, s₁, hvalue, bodyCode, s₂, hbody, label, s₃, hblock, rfl, rfl⟩ := hrun
  have hadds := code_adds hbody
  obtain ⟨hadds', hmem⟩ := addBlock_adds (by decide) hadds.places.nodup hblock
  have hblocks₂ := List.Subset.trans hadds'.subset hblocks
  exact ⟨label, valueCode, rfl, ⟨s, s₁, hvalue, List.Subset.trans hadds.subset hblocks₂⟩, bodyCode,
    ⟨s₁, s₂, hbody, hblocks₂⟩, hblocks hmem⟩

/-- The codes of trees that are made one after the other. -/
theorem all : ∀ {ns : List Node} {cs : List (List Instruction)} {s s' : CodeState},
    Runs (codes ns) s cs s' → s'.blocks ⊆ p.blocks → List.Forall₂ (HasCode p) ns cs
  | [], _, _, _, h, _ => by
    obtain ⟨rfl, -⟩ := runs_pure.1 h
    exact .nil
  | n :: ns, _, s, _, h, hblocks => by
    simp only [codes, runs_bind, runs_pure] at h
    obtain ⟨code, s₁, hn, cs, s₂, hns, rfl, rfl⟩ := h
    exact .cons ⟨s, s₁, hn, List.Subset.trans (codes_adds hns).subset hblocks⟩ (all hns hblocks)

theorem letRec {arms : List Node} {body : Node} (h : HasCode p (.letRec m arms body) code) :
    ∃ label members, code = [.closure label, .closures members, .apply] ∧
      List.Forall₂ (HasBlock p) members arms ∧ HasBlock p label body := by
  obtain ⟨s, s', hrun, hblocks⟩ := h
  simp only [Node.code, runs_bind, runs_pure] at hrun
  obtain ⟨cs, s₁, harms, bodyCode, s₂, hbody, members, s₃, hmembers, label, s₄, hblock, rfl, rfl⟩ :=
    hrun
  have hadds := code_adds hbody
  have hcs := (List.nodup_flatMap.1 (codes_adds harms).places.nodup).1
  obtain ⟨hadds₁, hmem⟩ := addBlocks_adds (by decide) hcs hmembers
  obtain ⟨hadds₂, hmem₂⟩ := addBlock_adds (by decide) hadds.places.nodup hblock
  have hblocks₃ := List.Subset.trans hadds₂.subset hblocks
  have hblocks₂ := List.Subset.trans hadds₁.subset hblocks₃
  have hcodes := HasCode.all harms (List.Subset.trans hadds.subset hblocks₂)
  refine ⟨label, members, rfl, ?_, bodyCode, ⟨s₁, s₂, hbody, hblocks₂⟩, hblocks hmem₂⟩
  clear hadds₁ hmembers hcs harms
  induction hcodes generalizing members with
  | nil =>
    cases hmem
    exact .nil
  | cons hcode _ ih =>
    cases hmem with
    | cons hmem hrest => exact .cons ⟨_, hcode, hblocks₃ hmem⟩ (ih _ hrest)

/-- The code of a function of a group is that of its body. -/
theorem letRecArm {f x : String} {pa ra : Option TypeExpr} {body : Node}
    (h : HasCode p (.letRecArm m f x pa ra body) code) : HasCode p body code := by
  obtain ⟨s, s', hrun, hblocks⟩ := h
  rw [Node.code] at hrun
  exact ⟨s, s', hrun, hblocks⟩

theorem conditional {c t e : Node} (h : HasCode p (.conditional m c t e) code) :
    ∃ condition thenCode elseCode thenLabel elseLabel endLabel,
      code = conditionalCode condition thenCode elseCode thenLabel elseLabel endLabel ∧
        HasCode p c condition ∧ HasCode p t thenCode ∧ HasCode p e elseCode := by
  obtain ⟨s, s', hrun, hblocks⟩ := h
  simp only [Node.code, runs_bind] at hrun
  obtain ⟨condition, s₁, hc, thenCode, s₂, ht, elseCode, s₃, he, hrun⟩ := hrun
  obtain ⟨thenLabel, elseLabel, endLabel, hadds, rfl⟩ := branches_adds hrun
  have hblocks₃ := List.Subset.trans hadds.subset hblocks
  have hblocks₂ := List.Subset.trans (code_adds he).subset hblocks₃
  exact ⟨condition, thenCode, elseCode, thenLabel, elseLabel, endLabel, rfl,
    ⟨s, s₁, hc, List.Subset.trans (code_adds ht).subset hblocks₂⟩, ⟨s₁, s₂, ht, hblocks₂⟩,
      ⟨s₂, s₃, he, hblocks₃⟩⟩

theorem binary {o : BinaryOperator} {l r : Node} (h : HasCode p (.binary m o l r) code) :
    ∃ left right, code = left ++ right ++ [.binary o] ∧ HasCode p l left ∧ HasCode p r right := by
  obtain ⟨s, s', hrun, hblocks⟩ := h
  simp only [Node.code, runs_bind, runs_pure] at hrun
  obtain ⟨left, s₁, hl, right, s₂, hr, rfl, rfl⟩ := hrun
  exact ⟨left, right, rfl, ⟨s, s₁, hl, List.Subset.trans (code_adds hr).subset hblocks⟩,
    ⟨s₁, s₂, hr, hblocks⟩⟩

theorem unary {o : UnaryOperator} {e : Node} (h : HasCode p (.unary m o e) code) :
    ∃ operand, code = operand ++ [.unary o] ∧ HasCode p e operand := by
  obtain ⟨s, s', hrun, hblocks⟩ := h
  simp only [Node.code, runs_bind, runs_pure] at hrun
  obtain ⟨operand, s₁, he, rfl, rfl⟩ := hrun
  exact ⟨operand, rfl, s, s₁, he, hblocks⟩

theorem sequence {es : List Node} (h : HasCode p (.sequence m es) code) :
    ∃ cs, code = inSequence cs ∧ List.Forall₂ (HasCode p) es cs := by
  obtain ⟨s, s', hrun, hblocks⟩ := h
  simp only [Node.code, runs_bind, runs_pure] at hrun
  obtain ⟨cs, s₁, hes, rfl, rfl⟩ := hrun
  exact ⟨cs, rfl, all hes hblocks⟩

end HasCode

end ClosureML
