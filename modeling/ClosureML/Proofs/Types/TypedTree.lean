import ClosureML.Proofs.Names.Numbered
import ClosureML.Proofs.Names.Renaming
import ClosureML.Proofs.Syntax.Levels
import ClosureML.Proofs.Types.InferenceRun

/-!
# Trees that resolution and inference make

Behind resolution and inference a tree is one of the level with everything: its names are bound, its
constructors have their numbers, and its projections record how many elements their tuples have, and
have one of them.

* `Names.scopeNames`: the names in scope behind resolution;

Main statement: `Renames.isTree`.
-/

namespace ClosureML

open Names ClosureML.Types Node

/-! ## 1. Names in scope -/

namespace Names

/-- The names in scope behind resolution, the innermost first. -/
def scopeNames (scope : NameScope) : List String := scope.toList.filterMap NameBinding.newName?

theorem mem_scopeNames_of_lookup? {scope : NameScope} {x x' : String}
    (h : lookup? scope x = some x') : x' ∈ scopeNames scope := by
  obtain ⟨b, hb, hx⟩ := List.exists_of_findSome?_eq_some h
  refine List.mem_filterMap.2 ⟨b, hb, ?_⟩
  cases b with
  | binder y y' =>
    simp only [NameBinding.value?] at hx
    split at hx
    · exact hx
    · cases hx
  | constructor c tag =>
    simp only [NameBinding.value?] at hx
    split at hx
    · exact hx
    · cases hx
  | dataType d => cases hx

theorem scopeNames_extendBinders (scope : NameScope) (pairs : List (String × String)) :
    scopeNames (extendBinders scope pairs) = (pairs.map Prod.snd).reverse ++ scopeNames scope := by
  rw [scopeNames, extendBinders, Scope.toList_extendAll, List.filterMap_append, ← List.map_reverse,
    List.filterMap_map, ← List.map_reverse, ← List.filterMap_eq_map]
  rfl

theorem scopeNames_extendConstructors (scope : NameScope) (new : List (String × Nat)) :
    scopeNames (extendConstructors scope new) = (new.map Prod.fst).reverse ++ scopeNames scope := by
  rw [scopeNames, extendConstructors, Scope.toList_extendAll, List.filterMap_append,
    ← List.map_reverse, List.filterMap_map, ← List.map_reverse, ← List.filterMap_eq_map]
  rfl

theorem FreshBinders.not_mem {scope : NameScope} : ∀ {pairs : List (String × String)},
    FreshBinders scope pairs → ∀ y ∈ pairs.map Prod.snd, Fresh scope y
  | _ :: _, ⟨hx, _⟩, _, .head _ => hx
  | _ :: _, ⟨_, hrest⟩, y, .tail _ hy => fun b hb =>
    hrest.not_mem y hy b (List.mem_cons_of_mem _ hb)

/-- Names that are fresh one after the other are different. -/
theorem FreshBinders.nodup {scope : NameScope} : ∀ {pairs : List (String × String)},
    FreshBinders scope pairs → (pairs.map Prod.snd).Nodup
  | [], _ => List.nodup_nil
  | (_, _) :: _, ⟨_, hrest⟩ => by
    refine List.nodup_cons.2 ⟨fun hx => ?_, hrest.nodup⟩
    exact hrest.not_mem _ hx _ List.mem_cons_self rfl

end Names

variable {tags : List (String × Nat)}

theorem reverse_append_subset {new names : List String} : new.reverse ++ names ⊆ new ++ names :=
  fun x hx => by simpa using hx

/-! ## 2. Lengths -/

theorem InfersAll.length_eq {g : Generalizer} {Γ : TypeEnvironment} : ∀ {ns ns' : List Node}
    {ts : List Ty} {s s' : InferState}, InfersAll g Γ ns s ns' ts s' → ns'.length = ns.length
  | _, _, _, _, _, .nil => rfl
  | _, _, _, _, _, .cons _ hns => congrArg (· + 1) hns.length_eq

theorem ne_nil_of_length_eq {α β : Type} {xs : List α} {ys : List β} (h : ys.length = xs.length)
    (hne : xs ≠ []) : ys ≠ [] := by
  rintro rfl
  exact hne (List.length_eq_zero_iff.1 h.symm)

/-! ## 3. Constructors, groups and patterns -/

theorem TagsConstructors.isTagged {d : String} {cs cs' : List Node} {new : List (String × Nat)}
    (h : TagsConstructors cs cs' new) (hnew : ∀ entry ∈ new, entry ∈ tags) :
    ∀ {Γ Γ' : TypeEnvironment} {cs'' : List Node} {s s' : InferState},
      Runs (Types.declareConstructors d Γ cs') s (cs'', Γ') s' →
      AreTaggedConstructors tags cs'' ∧ constructorNames cs'' = new.map Prod.fst := by
  induction h with
  | nil =>
    intro Γ Γ' cs'' s s' h
    obtain ⟨h, -⟩ := runs_pure.1 h
    cases h
    exact ⟨.nil, rfl⟩
  | @cons m c parameters tag cs cs' new htail ih =>
    intro Γ Γ' cs'' s s' h
    simp only [Types.declareConstructors, runs_bind, runs_modify, runs_pure] at h
    obtain ⟨⟨⟩, _, rfl, ⟨more, inner⟩, s₂, hmore, h, rfl⟩ := h
    cases h
    obtain ⟨hc, hrest⟩ := List.forall_mem_cons.1 hnew
    obtain ⟨htagged, hnames⟩ := ih hrest hmore
    exact ⟨.cons hc htagged, congrArg (c :: ·) hnames⟩

theorem InfersGroup.functionNames_eq {g : Generalizer} {Γ : TypeEnvironment} {scope : NameScope}
    {pairs : List (String × String)} {arms arms' arms'' : List Node} {types : List (Ty × Ty)}
    {s s' : InferState} (hr : RenamesGroup tags scope pairs arms arms')
    (h : InfersGroup g Γ arms' types s arms'' s') : functionNames arms'' = pairs.map Prod.snd := by
  induction arms generalizing pairs arms' arms'' types s with
  | nil =>
    cases hr
    cases h
    rfl
  | cons arm arms ih =>
    cases hr with
    | cons _ _ hrest =>
      cases h with
      | cons _ _ htail => exact congrArg (_ :: ·) (ih hrest htail)

mutual

/-- **A pattern behind resolution and inference** binds the new names, and its constructors have
    their numbers. -/
theorem RenamesPattern.isTagged : ∀ {p p' p'' : Node} {pairs : List (String × String)} {t : Ty}
    {bindings : List (String × Binding)} {s s' : InferState}, RenamesPattern tags p p' pairs →
      InfersPattern p' s p'' t bindings s' →
      IsTaggedPattern tags p'' ∧ p''.patternNames = pairs.map Prod.snd
  | _, _, _, _, _, _, _, _, .binder, h => by
    cases h with
    | binder => exact ⟨.binder, rfl⟩
  | _, _, _, _, _, _, _, _, .literal, h => by
    cases h with
    | literal => exact ⟨.literal, rfl⟩
  | _, _, _, _, _, _, _, _, .tuple _ hps, h => by
    cases h with
    | tuple hinfers =>
      obtain ⟨htagged, hnames⟩ := hps.areTagged hinfers
      exact ⟨.tuple htagged, hnames⟩
  | _, _, _, _, _, _, _, _, .constructor hc hps, h => by
    cases h with
    | constructor _ _ hinfers =>
      obtain ⟨htagged, hnames⟩ := hps.areTaggedArguments hinfers
      exact ⟨.constructor hc htagged, hnames⟩

theorem RenamesPatterns.areTagged : ∀ {ps ps' ps'' : List Node} {pairs : List (String × String)}
    {ts : List Ty} {bindings : List (String × Binding)} {s s' : InferState},
      RenamesPatterns tags ps ps' pairs → InfersPatterns ps' s ps'' ts bindings s' →
      AreTaggedPatterns tags ps'' ∧ patternNamesAll ps'' = pairs.map Prod.snd
  | _, _, _, _, _, _, _, _, .nil, h => by
    cases h
    exact ⟨.nil, rfl⟩
  | _, _, _, _, _, _, _, _, .cons hp hps, h => by
    cases h with
    | cons hinfer hinfers =>
      obtain ⟨hp, hname⟩ := hp.isTagged hinfer
      obtain ⟨hps, hnames⟩ := hps.areTagged hinfers
      refine ⟨.cons hp hps, ?_⟩
      rw [patternNamesAll, hname, hnames, List.map_append]

theorem RenamesPatterns.areTaggedArguments : ∀ {ps ps' ps'' : List Node}
    {pairs : List (String × String)} {ts : List Ty} {bindings : List (String × Binding)}
    {s s' : InferState}, RenamesPatterns tags ps ps' pairs →
      InfersArguments ps' ts s ps'' bindings s' →
      AreTaggedPatterns tags ps'' ∧ patternNamesAll ps'' = pairs.map Prod.snd
  | _, _, _, _, _, _, _, _, .nil, h => by
    cases h
    exact ⟨.nil, rfl⟩
  | _, _, _, _, _, _, _, _, .cons hp hps, h => by
    cases h with
    | cons hinfer _ hinfers =>
      obtain ⟨hp, hname⟩ := hp.isTagged hinfer
      obtain ⟨hps, hnames⟩ := hps.areTaggedArguments hinfers
      refine ⟨.cons hp hps, ?_⟩
      rw [patternNamesAll, hname, hnames, List.map_append]

end

/-! ## 4. Expressions -/

mutual

/-- **What resolution and inference make of a tree.** -/
theorem Renames.isTree : ∀ {scope : NameScope} {n n' n'' : Node} {Γ : TypeEnvironment} {t : Ty}
    {s s' : InferState}, Renames tags scope n n' → Infers generalize Γ n' s n'' t s' →
      IsTree tags IsProgramName .matches (scopeNames scope) n''
  | _, _, _, _, _, _, _, _, .literal, h => by
    cases h with
    | literal => exact .literal
  | _, _, _, _, _, _, _, _, .reference hx hplain, h => by
    have hmem := mem_scopeNames_of_lookup? hx
    cases h with
    | mono => exact .reference hmem hplain
    | poly => exact .reference hmem hplain
  | _, _, _, _, _, _, _, _, .builtin, h => by
    cases h with
    | printer => exact .builtin
    | panic => exact .builtin
  | _, _, _, _, _, _, _, _, .lambda _ hbody, h => by
    cases h with
    | lambda _ hinfers => exact .lambda (hbody.isTree hinfers)
  | _, _, _, _, _, _, _, _, .application hf ha, h => by
    cases h with
    | application hinfers hinfers' => exact .application (hf.isTree hinfers) (ha.isTree hinfers')
  | _, _, _, _, _, _, _, _, .letIn hvalue _ hbody, h => by
    cases h with
    | letIn hinfers _ _ hinfers' => exact .letIn (hvalue.isTree hinfers) (hbody.isTree hinfers')
  | _, _, _, _, _, _, _, _, .letRec _ hpairs harms hbody, h => by
    cases h with
    | letRec _ hinfers _ hinfers' =>
      have hnames := hinfers.functionNames_eq harms
      have harms := harms.areFunctions hinfers
      have hbody := hbody.isTree hinfers'
      -- the scope has the group in reverse; what counts is which names are there
      rw [scopeNames_extendBinders, ← hnames] at harms hbody
      exact .letRec (hnames ▸ hpairs.nodup) (harms.mono (fun _ => id) reverse_append_subset)
        (hbody.mono (fun _ => id) reverse_append_subset)
  | _, _, _, _, _, _, _, _, .conditional hc ha hb, h => by
    cases h with
    | conditional hinfers _ hinfers' hinfers'' =>
      exact .conditional (hc.isTree hinfers) (ha.isTree hinfers') (hb.isTree hinfers'')
  | _, _, _, _, _, _, _, _, .binary hl hr, h => by
    cases h with
    | ofInts _ hinfers hinfers' => exact .binary (hl.isTree hinfers) (hr.isTree hinfers')
    | equality _ hinfers hinfers' => exact .binary (hl.isTree hinfers) (hr.isTree hinfers')
  | _, _, _, _, _, _, _, _, .unary he, h => by
    cases h with
    | unary hinfers => exact .unary (he.isTree hinfers)
  | _, _, _, _, _, _, _, _, .sequence hne hes, h => by
    cases h with
    | sequence hinfers =>
      have hlength := hinfers.length_eq.trans hes.length_eq.symm
      exact .sequence (ne_nil_of_length_eq hlength hne) (hes.areTrees hinfers)
  | _, _, _, _, _, _, _, _, .tuple hne hes, h => by
    cases h with
    | tuple hinfers =>
      have hlength := hinfers.length_eq.trans hes.length_eq.symm
      exact .tuple (by decide) (ne_nil_of_length_eq hlength hne) (hes.areTrees hinfers)
  | _, _, _, _, _, _, _, _, .projection he, h => by
    cases h with
    | projection hinfers _ hu =>
      -- the number of components is that of the type which the target is resolved to
      obtain ⟨hindex, -⟩ := List.getElem?_eq_some_iff.1 hu
      exact .projection (by decide) hindex (he.isTree hinfers)
  | _, _, _, _, _, _, _, _, .dataType hcs hnew _ hbody, h => by
    cases h with
    | dataType hruns hinfers =>
      obtain ⟨htagged, hnames⟩ := hcs.isTagged hnew hruns
      have hbody := hbody.isTree hinfers
      rw [scopeNames_extendConstructors, ← hnames] at hbody
      exact .dataType rfl htagged (hbody.mono (fun _ => id) reverse_append_subset)
  | _, _, _, _, _, _, _, _, .matchWith he harms, h => by
    cases h with
    | matchWith hinfers _ hinfers' =>
      exact .matchWith rfl (he.isTree hinfers) (harms.areArms hinfers')

theorem RenamesAll.areTrees : ∀ {scope : NameScope} {ns ns' ns'' : List Node} {Γ : TypeEnvironment}
    {ts : List Ty} {s s' : InferState}, RenamesAll tags scope ns ns' →
      InfersAll generalize Γ ns' s ns'' ts s' →
      AreTrees tags IsProgramName .matches (scopeNames scope) ns''
  | _, _, _, _, _, _, _, _, .nil, h => by
    cases h
    exact .nil
  | _, _, _, _, _, _, _, _, .cons hn hns, h => by
    cases h with
    | cons hinfer hinfers => exact .cons (hn.isTree hinfer) (hns.areTrees hinfers)

theorem RenamesGroup.areFunctions : ∀ {scope : NameScope} {pairs : List (String × String)}
    {ns ns' ns'' : List Node} {Γ : TypeEnvironment} {types : List (Ty × Ty)} {s s' : InferState},
      RenamesGroup tags scope pairs ns ns' → InfersGroup generalize Γ ns' types s ns'' s' →
      AreFunctions tags IsProgramName .matches (scopeNames scope) ns''
  | _, _, _, _, _, _, _, _, _, .nil, h => by
    cases h
    exact .nil
  | _, _, _, _, _, _, _, _, _, .cons _ hbody hrest, h => by
    cases h with
    | cons hinfers _ hinfers' => exact .cons (hbody.isTree hinfers) (hrest.areFunctions hinfers')

theorem RenamesArms.areArms : ∀ {scope : NameScope} {ns ns' ns'' : List Node}
    {Γ : TypeEnvironment} {t r : Ty} {s s' : InferState}, RenamesArms tags scope ns ns' →
      InfersArms generalize Γ t r ns' s ns'' s' →
      AreArms tags IsProgramName .matches (scopeNames scope) ns''
  | _, _, _, _, _, _, _, _, _, .nil, h => by
    cases h
    exact .nil
  | _, _, _, _, _, _, _, _, _, .cons hp _ _ hbody hrest, h => by
    cases h with
    | cons hinfer _ hinfers _ hinfers' =>
      obtain ⟨hp, hnames⟩ := hp.isTagged hinfer
      have hbody := hbody.isTree hinfers
      rw [scopeNames_extendBinders, ← hnames] at hbody
      exact .cons hp (hbody.mono (fun _ => id) reverse_append_subset) (hrest.areArms hinfers')

end

/-- **An accepted program** is one of the level with everything. -/
theorem RenamesProgram.isRoot {n named tree : Node} {typing : Typing}
    (h : RenamesProgram tags n named) (htyping : named.inferTypes = .ok typing)
    (hunify : typing.unify = .ok tree) : IsRoot tags IsProgramName .matches tree := by
  obtain ⟨s', hinfers, -⟩ := named.infers_of_inferTypesBy htyping
  obtain ⟨σ, -, rfl⟩ := Typing.unify_ok_iff.1 hunify
  cases h with
  | mk he =>
    generalize typing.tree = typed, typing.type = type at hinfers ⊢
    cases hinfers with
    | top hinfers => exact .mk (he.isTree hinfers).mapMarks

end ClosureML
