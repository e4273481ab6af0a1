import ClosureML.Proofs.Names.Numbered
import ClosureML.Proofs.Names.Referents

/-!
# Names that a pass adds

A pass that takes names from the supply of lowering keeps every name of a tree where it stands or
moves it, and adds names of its own. What is given a name in a tree, and what refers to a name, is
counted: nothing is lost, nothing is there twice, and what is new has names that were made
meanwhile.

* `Occurrence` is a name that is given or referred to, `Node.occurrences` are those in a tree;
* `AddsNames s s' before after`: what a pass makes of the occurrences, with names from a supply.

Main statements: `AddsNames.append` and `AddsNames.referring` (what steps add together), and
`Node.rebuild_adds` (what every change of a node adds, rebuilding does).
-/

namespace ClosureML

open Lowering Node

/-! ## 1. Occurrences -/

/-- A name in a tree: one that is given to something, or one that is referred to. -/
inductive Occurrence where
  | given (name : String)
  | used (position : Position) (name : String)
  deriving DecidableEq

namespace Occurrence

/-- The name. -/
def name : Occurrence → String
  | given x => x
  | used _ x => x

/-- The name, when it is given. -/
def given? : Occurrence → Option String
  | given x => some x
  | used _ _ => none

/-- The place and the name, when it is referred to. -/
def used? : Occurrence → Option (Position × String)
  | given _ => none
  | used p x => some (p, x)

end Occurrence

open Occurrence

namespace Node

/-- The occurrences at a node itself. -/
def occurrencesHere (n : Node) : List Occurrence :=
  n.namesHere.map given ++ n.referenceHere.map fun r => used r.1 r.2

/-- The occurrences in a tree. -/
def occurrences (n : Node) : List Occurrence := n.collect occurrencesHere

theorem occurrences_eq (n : Node) :
    n.occurrences = n.occurrencesHere ++ n.children.flatMap occurrences := collect_eq _ n

/-- The occurrences in a node that gives no name and refers to none. -/
theorem occurrences_of_none {n : Node} (h : n.occurrencesHere = []) :
    n.occurrences = n.children.flatMap occurrences := by rw [occurrences_eq, h, List.nil_append]

/-- A part of what is found in a tree is what is found of it at the nodes. -/
theorem filterMap_collect {α β : Type} (f : Node → List α) (g : α → Option β) (n : Node) :
    (n.collect f).filterMap g = n.collect fun node => (f node).filterMap g := by
  induction n using Node.induction with | h n ih => ?_
  rw [collect_eq, collect_eq, List.filterMap_append, List.filterMap_flatMap]
  exact congrArg (_ ++ ·) (List.flatMap_congr ih)

theorem filterMap_given?_occurrences (n : Node) : n.occurrences.filterMap given? = n.names := by
  refine (filterMap_collect _ _ n).trans (congrArg (collect · n) (funext fun node => ?_))
  simp [occurrencesHere, List.filterMap_append, List.filterMap_map, Function.comp_def, given?]

theorem filterMap_used?_occurrences (n : Node) : n.occurrences.filterMap used? = n.references := by
  refine (filterMap_collect _ _ n).trans (congrArg (collect · n) (funext fun node => ?_))
  simp [occurrencesHere, List.filterMap_append, List.filterMap_map, Function.comp_def, used?]

end Node

/-! ## 2. What a pass adds -/

/-- How lowering makes its names. -/
def loweringFormat : NameFormat where
  name := generatedName
  IsStem := (· ∈ loweringStems)
  inj hx hy := generatedName_inj (not_endsInDigit_of_mem hx) (not_endsInDigit_of_mem hy)

/-- **What a pass makes of occurrences**: they are all there once, and besides them there are only
    names of lowering. Those of them that are given are different ones that were made meanwhile. -/
def AddsNames (s s' : Supply) (before after : List Occurrence) : Prop :=
  ∃ new, after.Perm (before ++ new) ∧ s.Makes loweringFormat s' (new.filterMap given?) ∧
    ∀ o ∈ new, ¬ IsProgramName o.name

namespace AddsNames

variable {s s₁ s' : Supply} {before before' middle after after' : List Occurrence}

theorem refl (s : Supply) (os : List Occurrence) : AddsNames s s os os :=
  ⟨[], by rw [List.append_nil], .refl s, nofun⟩

/-- The same occurrences in another order. -/
theorem perm (h : AddsNames s s' before after) (hbefore : before'.Perm before)
    (hafter : after'.Perm after) : AddsNames s s' before' after' := by
  obtain ⟨new, hperm, hmade⟩ := h
  exact ⟨new, hafter.trans (hperm.trans (hbefore.symm.append_right new)), hmade⟩

/-- One step after the other. -/
theorem trans (h : AddsNames s s₁ before middle) (h' : AddsNames s₁ s' middle after) :
    AddsNames s s' before after := by
  obtain ⟨new, hperm, hmade, hforeign⟩ := h
  obtain ⟨more, hperm', hmade', hforeign'⟩ := h'
  refine ⟨new ++ more, ?_, ?_, List.forall_mem_append.2 ⟨hforeign, hforeign'⟩⟩
  · rw [← List.append_assoc]
    exact hperm'.trans (hperm.append_right more)
  · rw [List.filterMap_append]
    exact hmade.append hmade'

/-- **Steps on different parts**, one after the other. -/
theorem append (h : AddsNames s s₁ before after) (h' : AddsNames s₁ s' before' after') :
    AddsNames s s' (before ++ before') (after ++ after') := by
  obtain ⟨new, hperm, hmade, hforeign⟩ := h
  obtain ⟨more, hperm', hmade', hforeign'⟩ := h'
  refine ⟨new ++ more, ?_, ?_, List.forall_mem_append.2 ⟨hforeign, hforeign'⟩⟩
  · refine List.perm_iff_count.2 fun o => ?_
    have hcount := List.perm_iff_count.1 hperm o
    have hcount' := List.perm_iff_count.1 hperm' o
    simp only [List.count_append] at hcount hcount' ⊢
    omega
  · rw [List.filterMap_append]
    exact hmade.append hmade'

/-- References to names of lowering may be added anywhere. -/
theorem referring (h : AddsNames s s' before after) {p : Position} {xs : List String}
    (hxs : ∀ x ∈ xs, ¬ IsProgramName x) (hafter : after'.Perm (after ++ xs.map (used p))) :
    AddsNames s s' before after' := by
  obtain ⟨new, hperm, hmade, hforeign⟩ := h
  refine ⟨new ++ xs.map (used p), ?_, ?_, List.forall_mem_append.2 ⟨hforeign, ?_⟩⟩
  · rw [← List.append_assoc]
    exact hafter.trans (hperm.append_right _)
  · have hnone : (xs.map (used p)).filterMap given? = [] := by
      simp [List.filterMap_map, Function.comp_def, given?]
    rwa [List.filterMap_append, hnone, List.append_nil]
  · exact List.forall_mem_map.2 hxs

end AddsNames

/-! ## 3. New names -/

section Fresh

variable {stem x : String} {xs : List String} {k : Nat} {s s' : Supply}

/-- A new name is none of the program, and may be given to something. -/
theorem freshName_adds (hstem : stem ∈ loweringStems) (h : Runs (freshName stem) s x s') :
    ¬ IsProgramName x ∧ AddsNames s s' [] [given x] := by
  obtain ⟨rfl, rfl⟩ := runs_freshName h
  have hforeign := not_isProgramName_generatedName stem (s.count stem)
  exact ⟨hforeign, _, .refl _, @Supply.Makes.next loweringFormat stem hstem s,
    List.forall_mem_singleton.2 hforeign⟩

/-- New names are none of the program, and some of them may be given to something. -/
theorem freshNames_adds (hstem : stem ∈ loweringStems) (h : Runs (freshNames stem k) s xs s') :
    (∀ x ∈ xs, ¬ IsProgramName x) ∧ ∀ names : List String, names.Sublist xs →
      AddsNames s s' [] (names.map given) := by
  have hmakes : (∀ x ∈ xs, ¬ IsProgramName x) ∧ s.Makes loweringFormat s' xs := by
    induction k generalizing s xs with
    | zero =>
      obtain ⟨rfl, rfl⟩ := runs_pure.1 h
      exact ⟨nofun, .refl s⟩
    | succ k ih =>
      simp only [freshNames, runs_bind, runs_pure] at h
      obtain ⟨x, s₁, hx, rest, s₂, hrest, rfl, rfl⟩ := h
      obtain ⟨rfl, rfl⟩ := runs_freshName hx
      obtain ⟨hforeign, hmade⟩ := ih hrest
      exact ⟨List.forall_mem_cons.2 ⟨not_isProgramName_generatedName _ _, hforeign⟩,
        (@Supply.Makes.next loweringFormat stem hstem s).append hmade⟩
  obtain ⟨hforeign, hmade⟩ := hmakes
  refine ⟨hforeign, fun names hsub => ⟨_, .refl _, ?_, ?_⟩⟩
  · have hnames : (names.map given).filterMap given? = names := by
      simp [List.filterMap_map, Function.comp_def, given?]
    rw [hnames]
    exact hmade.only hsub.subperm
  · exact List.forall_mem_map.2 fun x hx => hforeign x (hsub.subset hx)

end Fresh

/-! ## 4. Rebuilding a tree -/

/-- What a pass makes of the occurrences in trees. -/
abbrev AddsAll (s s' : Supply) (ns ns' : List Node) : Prop :=
  AddsNames s s' (ns.flatMap occurrences) (ns'.flatMap occurrences)

/-- What a pass makes of the occurrences in a tree. -/
abbrev AddsTree (s s' : Supply) (n n' : Node) : Prop := AddsNames s s' n.occurrences n'.occurrences

section Rebuild

variable {s s₁ s' : Supply} {n n' : Node} {ns ns' : List Node} {f : Node → Lower Node}

theorem AddsTree.all (h : AddsTree s s' n n') : AddsAll s s' [n] [n'] := by
  simpa [AddsAll] using h

theorem AddsTree.cons (h : AddsTree s s₁ n n') (h' : AddsAll s₁ s' ns ns') :
    AddsAll s s' (n :: ns) (n' :: ns') := h.append h'

theorem AddsAll.append {ms ms' : List Node} (h : AddsAll s s₁ ns ns') (h' : AddsAll s₁ s' ms ms') :
    AddsAll s s' (ns ++ ms) (ns' ++ ms') := by
  rw [AddsAll, List.flatMap_append, List.flatMap_append]
  exact AddsNames.append h h'

/-- Behind what happened to its children, a node is changed. -/
theorem AddsTree.behind {m : Node} (h : AddsTree s₁ s' m n')
    (hchildren : AddsAll s s₁ n.children m.children)
    (hhere : m.occurrencesHere = n.occurrencesHere) :
    AddsTree s s' n n' := by
  refine AddsNames.trans ?_ h
  rw [occurrences_eq, occurrences_eq m, hhere]
  exact (AddsNames.refl s _).append hchildren

mutual

/-- **What every change of a node adds, rebuilding does**: names of lowering, and nothing else. -/
theorem Node.rebuild_adds
    (hf : ∀ {n : Node} {s : Supply} {n' : Node} {s' : Supply}, Runs (f n) s n' s' →
      AddsTree s s' n n') :
    ∀ {n : Node} {s : Supply} {n' : Node} {s' : Supply}, Runs (n.rebuild f) s n' s' →
      AddsTree s s' n n'
  | .literal .., _, _, _, h | .reference .., _, _, _, h | .builtin .., _, _, _, h
  | .dataConstructor .., _, _, _, h | .patternBinder .., _, _, _, h
  | .patternLiteral .., _, _, _, h | .indexed .., _, _, _, h => hf h
  | .top .., _, _, _, h | .lambda .., _, _, _, h | .letRecArm .., _, _, _, h
  | .unary .., _, _, _, h | .projection .., _, _, _, h => by
    simp only [rebuild, runs_bind] at h
    obtain ⟨_, _, h₁, h⟩ := h
    exact (hf h).behind (rebuild_adds hf h₁).all rfl
  | .application .., _, _, _, h | .letIn .., _, _, _, h | .binary .., _, _, _, h
  | .matchArm .., _, _, _, h => by
    simp only [rebuild, runs_bind] at h
    obtain ⟨_, _, h₁, _, _, h₂, h⟩ := h
    exact (hf h).behind ((rebuild_adds hf h₁).cons (rebuild_adds hf h₂).all) rfl
  | .conditional .., _, _, _, h => by
    simp only [rebuild, runs_bind] at h
    obtain ⟨_, _, h₁, _, _, h₂, _, _, h₃, h⟩ := h
    exact (hf h).behind
      ((rebuild_adds hf h₁).cons ((rebuild_adds hf h₂).cons (rebuild_adds hf h₃).all)) rfl
  | .letRec .., _, _, _, h | .dataType .., _, _, _, h => by
    simp only [rebuild, runs_bind] at h
    obtain ⟨_, _, h₁, _, _, h₂, h⟩ := h
    exact (hf h).behind ((rebuildAll_adds hf h₁).append (rebuild_adds hf h₂).all) rfl
  | .matchWith .., _, _, _, h => by
    simp only [rebuild, runs_bind] at h
    obtain ⟨_, _, h₁, _, _, h₂, h⟩ := h
    exact (hf h).behind ((rebuild_adds hf h₁).cons (rebuildAll_adds hf h₂)) rfl
  | .sequence .., _, _, _, h | .tuple .., _, _, _, h | .patternTuple .., _, _, _, h
  | .patternConstructor .., _, _, _, h => by
    simp only [rebuild, runs_bind] at h
    obtain ⟨_, _, h₁, h⟩ := h
    exact (hf h).behind (rebuildAll_adds hf h₁) rfl

theorem Node.rebuildAll_adds
    (hf : ∀ {n : Node} {s : Supply} {n' : Node} {s' : Supply}, Runs (f n) s n' s' →
      AddsTree s s' n n') :
    ∀ {ns : List Node} {s : Supply} {ns' : List Node} {s' : Supply},
      Runs (rebuildAll f ns) s ns' s' → AddsAll s s' ns ns'
  | [], s, _, _, h => by
    obtain ⟨rfl, rfl⟩ := runs_pure.1 h
    exact .refl s _
  | _ :: _, _, _, _, h => by
    simp only [rebuildAll, runs_bind, runs_pure] at h
    obtain ⟨_, _, h₁, _, _, h₂, rfl, rfl⟩ := h
    exact (rebuild_adds hf h₁).cons (rebuildAll_adds hf h₂)

end

end Rebuild

end ClosureML
