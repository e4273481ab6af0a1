import ClosureML.Proofs.Names.Numbered
import ClosureML.Proofs.Names.Renaming
import ClosureML.Proofs.Syntax.Declarations

/-!
# Runs of name resolution

Resolution of a tree that was just read renames it, and its errors are errors about names.

* `Names.Resolves`: what a successful step of resolution has done.

Main statements: `Renames.of_run` (resolution renames), `Node.resolve_failsOnly` (its errors are
about names), and for programs `IsProgram.resolveNames_ok`.
-/

namespace ClosureML

namespace Names

/-! ## 1. Single steps -/

theorem not_endsInDigit_hash (name : String) : ¬ EndsInDigit (name ++ "#").toList := by
  rw [EndsInDigit, String.toList_append]
  simp

theorem numbered_inj {x y : String} {k j : Nat} (h : numbered x k = numbered y j) :
    x = y ∧ k = j := by
  obtain ⟨hstem, hnumber⟩ := stem_append_inj (not_endsInDigit_hash x) (not_endsInDigit_hash y) h
  refine ⟨String.toList_inj.1 ?_, hnumber⟩
  have := congrArg String.toList hstem
  rw [String.toList_append, String.toList_append] at this
  exact List.append_cancel_right this

theorem hash_mem_numbered (x : String) (k : Nat) : '#' ∈ (numbered x k).toList := by
  simp [numbered, String.toList_append]

theorem dollar_not_mem_numbered {x : String} (hx : IsWord x) (k : Nat) :
    '$' ∉ (numbered x k).toList := by
  rw [numbered, String.toList_append, String.toList_append, List.mem_append, List.mem_append]
  rintro ((h | h) | h)
  · exact hx.not_dollar h
  · exact absurd h (by decide)
  · exact absurd (isDigit_of_mem_toString h) (by decide)

/-- What is in scope does not hold the sign of generated names. -/
theorem Known.plain {r : Registry} {scope : NameScope} (h : Known r scope) {x x' : String}
    (hx : lookup? scope x = some x') : '$' ∉ x'.toList := by
  obtain ⟨b, hb, hvalue⟩ := List.exists_of_findSome?_eq_some hx
  have hknown := h b hb
  cases b with
  | binder y y' =>
    obtain ⟨hy, k, -, rfl⟩ := hknown
    simp only [NameBinding.value?] at hvalue
    split at hvalue
    · cases hvalue
      exact dollar_not_mem_numbered hy k
    · cases hvalue
  | constructor c tag =>
    simp only [NameBinding.value?] at hvalue
    split at hvalue
    · cases hvalue
      exact hknown.1.not_dollar
    · cases hvalue
  | dataType d => cases hvalue

variable {r r' : Registry} {scope : NameScope}

/-- A new name is fresh, and is entered. -/
theorem runs_bindVariable {x x' : String} {scope' : NameScope} (hx : IsWord x) (h : Known r scope)
    (hrun : Runs (bindVariable scope x) r (x', scope') r') :
    scope' = scope.extend (.binder x x') ∧ Fresh scope x' ∧ r.Grows [] r' ∧
      Known r' (scope.extend (.binder x x')) := by
  simp only [bindVariable, rename, runs_bind, runs_get, runs_set, runs_pure, Prod.mk.injEq] at hrun
  obtain ⟨_, _, ⟨_, _, ⟨rfl, rfl⟩, ⟨⟩, _, rfl, rfl, rfl⟩, ⟨rfl, rfl⟩, rfl⟩ := hrun
  have hgrows : r.Grows [] { r with supply := (r.supply.next x).2 } := by
    refine ⟨fun y => ?_, rfl, id, rfl, rfl⟩
    rw [Supply.count_next]
    split <;> omega
  refine ⟨rfl, fun b hb heq => ?_, hgrows, (h.grows hgrows).extend ⟨hx, r.supply.count x, ?_, rfl⟩⟩
  · have hknown := h b hb
    cases b with
    | binder y y' =>
      obtain ⟨-, k, hk, rfl⟩ := hknown
      obtain ⟨rfl, rfl⟩ := numbered_inj (Option.some.inj heq)
      exact Nat.lt_irrefl _ hk
    | constructor c tag =>
      obtain rfl : c = numbered x (r.supply.count x) := Option.some.inj heq
      exact hknown.1.not_hash (hash_mem_numbered x _)
    | dataType d => cases heq
  · rw [show ({ r with supply := (r.supply.next x).2 } : Registry).supply.count x = _ from
      Supply.count_next r.supply x x, if_pos rfl]
    exact Nat.lt_succ_self _

theorem runs_checkTypes {types : List TypeExpr} {position : Position}
    (h : Runs (checkTypes scope types position) r () r') : r = r' := by
  simp only [checkTypes] at h
  split at h
  · exact (runs_pure.1 h).2
  · exact absurd h runs_throw

theorem runs_constructorTag {c : String} {position : Position} {tag : Nat}
    (h : Runs (constructorTag scope c position) r tag r') :
    (c, tag) ∈ scopeTags scope ∧ r = r' := by
  rw [constructorTag] at h
  cases htag : scope.findSome? (NameBinding.tag? c) with
  | some t =>
    rw [htag] at h
    obtain ⟨rfl, rfl⟩ := runs_pure.1 h
    obtain ⟨b, hb, hvalue⟩ := List.exists_of_findSome?_eq_some htag
    refine ⟨?_, rfl⟩
    cases b with
    | constructor d tag =>
      simp only [NameBinding.tag?] at hvalue
      split at hvalue
      · next heq =>
        cases hvalue
        exact List.mem_filterMap.2 ⟨_, hb, heq ▸ rfl⟩
      · cases hvalue
    | _ => cases hvalue
  | none =>
    rw [htag] at h
    exact absurd h runs_throw

/-- The names of the functions of a group. -/
def groupNames : List Node → List String
  | [] => []
  | .letRecArm _ f _ _ _ _ :: rest => f :: groupNames rest
  | _ :: rest => groupNames rest

theorem nodup_of_repeatedFunction? {arms : List Node} {seen : List String}
    (h : repeatedFunction? seen arms = none) :
    (groupNames arms).Nodup ∧ ∀ f ∈ groupNames arms, f ∉ seen := by
  induction arms generalizing seen with
  | nil => exact ⟨List.nodup_nil, fun _ h => nomatch h⟩
  | cons arm rest ih =>
    cases arm with
    | letRecArm m f x pa ra body =>
      simp only [repeatedFunction?] at h
      split at h
      · cases h
      · next hseen =>
        obtain ⟨hrest, hnot⟩ := ih h
        refine ⟨List.nodup_cons.2 ⟨fun hf => hnot f hf List.mem_cons_self, hrest⟩, ?_⟩
        intro g hg
        rcases List.mem_cons.1 hg with rfl | hg
        · exact fun hmem => hseen (List.contains_iff_mem.2 hmem)
        · exact fun hmem => hnot g hg (List.mem_cons_of_mem _ hmem)
    | _ => exact ih h

/-- The functions of a group get fresh names, one inside the other. -/
theorem runs_bindGroup {arms : List Node} {names : List String} {scope scope' : NameScope}
    {r r' : Registry} (harms : ∀ arm ∈ arms, IsFunction arm) (h : Known r scope)
    (hrun : Runs (bindGroup scope arms) r (names, scope') r') :
    ∃ pairs, names = pairs.map Prod.snd ∧ groupNames arms = pairs.map Prod.fst ∧
      scope' = extendBinders scope pairs ∧ FreshBinders scope pairs ∧ r.Grows [] r' ∧
      Known r' (extendBinders scope pairs) := by
  induction arms generalizing names scope scope' r with
  | nil =>
    simp only [bindGroup, runs_pure, Prod.mk.injEq] at hrun
    obtain ⟨⟨rfl, rfl⟩, rfl⟩ := hrun
    exact ⟨[], rfl, rfl, rfl, trivial, .refl _, h⟩
  | cons arm rest ih =>
    obtain @⟨m, f, x, pa, ra, body, hword, -, -⟩ := harms _ List.mem_cons_self
    simp only [bindGroup, runs_bind, runs_pure, Prod.mk.injEq] at hrun
    obtain ⟨⟨f', inner⟩, r₁, hf, ⟨more, scope₂⟩, r₂, hmore, ⟨rfl, rfl⟩, rfl⟩ := hrun
    obtain ⟨rfl, hfresh, hgrows, hknown⟩ := runs_bindVariable hword h hf
    obtain ⟨pairs, rfl, hnames, rfl, hpairs, hgrows', hknown'⟩ :=
      ih (fun arm harm => harms arm (List.mem_cons_of_mem _ harm)) hknown hmore
    exact ⟨(f, f') :: pairs, rfl, congrArg (f :: ·) hnames, rfl, ⟨hfresh, hpairs⟩,
      hgrows.trans hgrows', hknown'⟩

/-- A data type is entered. -/
theorem runs_declareDataType {d : String} {position : Position} {r r' : Registry}
    (h : Runs (declareDataType d position) r () r') : r.Grows [] r' := by
  simp only [declareDataType, runs_bind, runs_get] at h
  obtain ⟨_, _, ⟨rfl, rfl⟩, h⟩ := h
  split at h
  · simp only [Names.fail, runs_bind, runs_throw, false_and, exists_false] at h
  · obtain rfl := runs_set.1 h
    exact ⟨fun _ => Nat.le_refl _, rfl, id, rfl, rfl⟩

theorem runs_declareConstructor {c : String} {position : Position} {r r' : Registry}
    (h : Runs (declareConstructor c position) r () r') :
    c ∉ r.constructors ∧ r' = { r with constructors := c :: r.constructors } := by
  simp only [declareConstructor, runs_bind, runs_get] at h
  obtain ⟨_, _, ⟨rfl, rfl⟩, h⟩ := h
  split at h
  · simp only [Names.fail, runs_bind, runs_throw, false_and, exists_false] at h
  · next hnot =>
    obtain rfl := runs_set.1 h
    exact ⟨fun hmem => hnot (List.contains_iff_mem.2 hmem), rfl⟩

/-- The constructors of a data type are entered with the next numbers, one inside the other. -/
theorem runs_declareConstructors {d : String} {cs cs' : List Node} {scope scope' : NameScope}
    {r r' : Registry} (hcs : ∀ c ∈ cs, IsConstructor c) (h : Known r scope)
    (hrun : Runs (Names.declareConstructors d scope cs) r (cs', scope') r') :
    ∃ new, TagsConstructors cs cs' new ∧ FreshConstructors scope new ∧
      scope' = extendConstructors scope new ∧ r.Grows new r' ∧
      Known r' (extendConstructors scope new) := by
  induction cs generalizing cs' scope scope' r with
  | nil =>
    simp only [Names.declareConstructors, runs_pure, Prod.mk.injEq] at hrun
    obtain ⟨⟨rfl, rfl⟩, rfl⟩ := hrun
    exact ⟨[], .nil, trivial, rfl, .refl _, h⟩
  | cons node rest ih =>
    obtain @⟨m, c, parameters, hword⟩ := hcs _ List.mem_cons_self
    simp only [Names.declareConstructors, takeTag, runs_bind, runs_modifyGet, runs_pure,
      Prod.mk.injEq] at hrun
    obtain ⟨⟨⟩, r₁, hc, ⟨⟩, r₂, htypes, _, _, ⟨rfl, rfl⟩, ⟨more, scope₂⟩, r₃, hmore, ⟨rfl, rfl⟩,
      rfl⟩ := hrun
    obtain rfl := runs_checkTypes htypes
    obtain ⟨hnot, rfl⟩ := runs_declareConstructor hc
    have hgrows : r.Grows [(c, r.nextTag)]
        { r with constructors := c :: r.constructors, nextTag := r.nextTag + 1 } :=
      ⟨fun _ => Nat.le_refl _, rfl, fun hr => List.nodup_cons.2 ⟨hnot, hr⟩, rfl, rfl⟩
    have hentered : (NameBinding.constructor c r.nextTag).Known
        { r with constructors := c :: r.constructors, nextTag := r.nextTag + 1 } :=
      ⟨hword, List.mem_cons_self⟩
    obtain ⟨new, htags, hfresh, rfl, hgrows', hknown'⟩ :=
      ih (fun c hc => hcs c (List.mem_cons_of_mem _ hc)) ((h.grows hgrows).extend hentered) hmore
    refine ⟨(c, r.nextTag) :: new, .cons htags, ⟨fun b hb heq => ?_, hfresh⟩, rfl,
      hgrows.trans hgrows', hknown'⟩
    have hb := h b hb
    cases b with
    | binder y y' =>
      obtain ⟨-, k, -, rfl⟩ := hb
      obtain rfl : numbered y k = c := Option.some.inj heq
      exact hword.not_hash (hash_mem_numbered y k)
    | constructor c' tag' =>
      obtain rfl : c' = c := Option.some.inj heq
      exact hnot hb.2
    | dataType d' => cases heq

/-! ## 2. Patterns -/

/-- What a step on patterns has bound: names, one inside the other, that are fresh. -/
structure ArmScope.Binds (arm arm' : ArmScope) (r r' : Registry) (pairs : List (String × String)) :
    Prop where
  scope_eq : arm'.scope = extendBinders arm.scope pairs
  fresh : FreshBinders arm.scope pairs
  grows : r.Grows [] r'
  known : Known r' arm'.scope

theorem ArmScope.Binds.trans {arm arm₁ arm' : ArmScope} {r r₁ r' : Registry}
    {pairs more : List (String × String)} (h : arm.Binds arm₁ r r₁ pairs)
    (h' : arm₁.Binds arm' r₁ r' more) : arm.Binds arm' r r' (pairs ++ more) where
  scope_eq := by rw [h'.scope_eq, h.scope_eq, extendBinders_append]
  fresh := freshBinders_append.2 ⟨h.fresh, h.scope_eq ▸ h'.fresh⟩
  grows := h.grows.trans h'.grows
  known := h'.known

theorem runs_bindInPattern {arm arm' : ArmScope} {x x' : String} {position : Position}
    {r r' : Registry} (hx : IsWord x) (h : Known r arm.scope)
    (hrun : Runs (bindInPattern arm x position) r (x', arm') r') :
    arm'.scope = arm.scope.extend (.binder x x') ∧ Fresh arm.scope x' ∧ r.Grows [] r' ∧
      Known r' (arm.scope.extend (.binder x x')) := by
  simp only [bindInPattern] at hrun
  split at hrun
  · simp only [Names.fail, runs_bind, runs_throw, false_and, exists_false] at hrun
  · simp only [runs_bind, runs_pure, Prod.mk.injEq] at hrun
    obtain ⟨⟨renamed, inner⟩, r₁, hbind, ⟨rfl, rfl⟩, rfl⟩ := hrun
    exact runs_bindVariable hx h hbind

end Names

open Names

mutual

/-- **Resolution renames patterns.** -/
theorem RenamesPattern.of_run {scope : NameScope} : ∀ {p p' : Node} {arm arm' : ArmScope}
    {r r' : Registry}, IsPattern p → Known r arm.scope →
    Runs (resolvePattern scope p arm) r (p', arm') r' →
    ∃ pairs, arm.Binds arm' r r' pairs ∧
      ∀ tags, scopeTags scope ⊆ tags → RenamesPattern tags p p' pairs
  | .patternBinder m x, _, arm, _, _, _, hp, h, hrun => by
    obtain ⟨hx⟩ := hp
    simp only [resolvePattern, runs_bind, runs_pure, Prod.mk.injEq] at hrun
    obtain ⟨⟨x', arm'⟩, r₁, hbind, ⟨rfl, rfl⟩, rfl⟩ := hrun
    obtain ⟨hscope, hfresh, hgrows, hknown⟩ := runs_bindInPattern hx h hbind
    exact ⟨[(x, x')], ⟨hscope, ⟨hfresh, trivial⟩, hgrows, hscope ▸ hknown⟩, fun _ _ => .binder⟩
  | .patternLiteral m v, _, arm, _, _, _, _, h, hrun => by
    simp only [resolvePattern, runs_pure, Prod.mk.injEq] at hrun
    obtain ⟨⟨rfl, rfl⟩, rfl⟩ := hrun
    exact ⟨[], ⟨rfl, trivial, .refl _, h⟩, fun _ _ => .literal⟩
  | .patternTuple m ps, _, arm, _, _, _, hp, h, hrun => by
    cases hp with
    | tuple hne hps =>
      simp only [resolvePattern, runs_bind, runs_pure, Prod.mk.injEq] at hrun
      obtain ⟨⟨ps', arm'⟩, r₁, hrest, ⟨rfl, rfl⟩, rfl⟩ := hrun
      obtain ⟨pairs, hbinds, hrenames⟩ := RenamesPatterns.of_run hps h hrest
      exact ⟨pairs, hbinds, fun tags htags => .tuple hne (hrenames tags htags)⟩
  | .patternConstructor m c ps tag, _, arm, _, _, _, hp, h, hrun => by
    cases hp with
    | constructor hc hps =>
      simp only [resolvePattern, runs_bind, runs_pure, Prod.mk.injEq] at hrun
      obtain ⟨tag, r₁, hrun, ⟨ps', arm'⟩, r₂, hrest, ⟨rfl, rfl⟩, rfl⟩ := hrun
      obtain ⟨htag, rfl⟩ := runs_constructorTag hrun
      obtain ⟨pairs, hbinds, hrenames⟩ := RenamesPatterns.of_run hps h hrest
      exact ⟨pairs, hbinds, fun tags htags => .constructor (htags htag) (hrenames tags htags)⟩

theorem RenamesPatterns.of_run {scope : NameScope} : ∀ {ps ps' : List Node}
    {arm arm' : ArmScope} {r r' : Registry}, (∀ p ∈ ps, IsPattern p) → Known r arm.scope →
    Runs (resolvePatterns scope ps arm) r (ps', arm') r' →
    ∃ pairs, arm.Binds arm' r r' pairs ∧
      ∀ tags, scopeTags scope ⊆ tags → RenamesPatterns tags ps ps' pairs
  | [], _, arm, _, _, _, _, h, hrun => by
    simp only [resolvePatterns, runs_pure, Prod.mk.injEq] at hrun
    obtain ⟨⟨rfl, rfl⟩, rfl⟩ := hrun
    exact ⟨[], ⟨rfl, trivial, .refl _, h⟩, fun _ _ => .nil⟩
  | p :: ps, _, arm, _, _, _, hps, h, hrun => by
    simp only [resolvePatterns, runs_bind, runs_pure, Prod.mk.injEq] at hrun
    obtain ⟨⟨p', arm₁⟩, r₁, hp, ⟨ps', arm₂⟩, r₂, hrest, ⟨rfl, rfl⟩, rfl⟩ := hrun
    obtain ⟨pairs, hbinds, hrenames⟩ :=
      RenamesPattern.of_run (hps p List.mem_cons_self) h hp
    obtain ⟨more, hbinds', hrenames'⟩ :=
      RenamesPatterns.of_run (fun q hq => hps q (List.mem_cons_of_mem _ hq)) hbinds.known hrest
    exact ⟨pairs ++ more, hbinds.trans hbinds', fun tags htags =>
      .cons (hrenames tags htags) (hrenames' tags htags)⟩

end

mutual

theorem RenamesPattern.declarations {tags : List (String × Nat)} {p p' : Node}
    {pairs : List (String × String)} : RenamesPattern tags p p' pairs → p'.declarations = []
  | .binder => rfl
  | .literal => rfl
  | .tuple _ hps => (Node.declarations_eq _).trans hps.declarations
  | .constructor _ hps => (Node.declarations_eq _).trans hps.declarations

theorem RenamesPatterns.declarations {tags : List (String × Nat)} {ps ps' : List Node}
    {pairs : List (String × String)} :
    RenamesPatterns tags ps ps' pairs → Node.declarationsAll ps' = []
  | .nil => rfl
  | .cons hp hps => by
    rw [Node.declarationsAll, List.flatMap_cons, hp.declarations]
    exact hps.declarations

end

/-! ## 3. Trees -/

/-- What a successful step on trees has done: the constructors `new` were entered, and the trees are
    renamed whatever numbers the other constructors have. -/
structure Names.Resolves (scope : NameScope) (r r' : Registry) (new : List (String × Nat))
    (declared : List Declaration) (renames : List (String × Nat) → Prop) : Prop where
  grows : r.Grows new r'
  declared : declared.map Declaration.name = new.map Prod.fst
  renames : ∀ tags, new ⊆ tags → scopeTags scope ⊆ tags → renames tags

namespace Names.Resolves

variable {scope : NameScope} {r r₁ r' : Registry} {new more : List (String × Nat)}
  {ds es : List Declaration} {p q : List (String × Nat) → Prop}

/-- A step that enters no constructors. -/
theorem leaf (hgrows : r.Grows [] r') (h : ∀ tags, scopeTags scope ⊆ tags → p tags) :
    Resolves scope r r' [] [] p :=
  ⟨hgrows, rfl, fun tags _ => h tags⟩

/-- Two steps, one after the other. -/
theorem both {scope' : NameScope} (h : Resolves scope r r₁ new ds p)
    (h' : Resolves scope' r₁ r' more es q) (hscope : scopeTags scope' = scopeTags scope) :
    Resolves scope r r' (new ++ more) (ds ++ es) fun tags => p tags ∧ q tags where
  grows := h.grows.trans h'.grows
  declared := by rw [List.map_append, List.map_append, h.declared, h'.declared]
  renames tags hnew htags := by
    have happend := List.append_subset.1 hnew
    exact ⟨h.renames tags happend.1 htags, h'.renames tags happend.2 (hscope ▸ htags)⟩

/-- A step behind one that enters no constructors. -/
theorem behind {scope' : NameScope} (hgrows : r.Grows [] r₁) (h : Resolves scope' r₁ r' new ds p)
    (hscope : scopeTags scope' = scopeTags scope) : Resolves scope r r' new ds p where
  grows := hgrows.trans h.grows
  declared := h.declared
  renames tags hnew htags := h.renames tags hnew (hscope ▸ htags)

/-- What was done said in another way. -/
theorem imp (h : Resolves scope r r' new ds p) (hds : es = ds) (hpq : ∀ tags, p tags → q tags) :
    Resolves scope r r' new es q :=
  ⟨h.grows, hds ▸ h.declared, fun tags hnew htags => hpq tags (h.renames tags hnew htags)⟩

end Names.Resolves

open Node (declarations_eq declarationsAll)

theorem TagsConstructors.declarations {cs cs' : List Node} {new : List (String × Nat)}
    (h : TagsConstructors cs cs' new) : cs'.flatMap Node.declarations = [] := by
  induction h with
  | nil => rfl
  | cons _ ih => exact ih

theorem TagsConstructors.declared {d : String} {cs cs' : List Node} {new : List (String × Nat)}
    (h : TagsConstructors cs cs' new) :
    (Node.declared d cs').map Declaration.name = new.map Prod.fst := by
  induction h with
  | nil => rfl
  | cons _ ih => exact congrArg (_ :: ·) ih

mutual

/-- **Resolution renames.** -/
theorem Renames.of_run : ∀ {n n' : Node} {scope : NameScope} {r r' : Registry}, IsExpression n →
    Known r scope → Runs (n.resolve scope) r n' r' →
    ∃ new, Resolves scope r r' new n'.declarations fun tags => Renames tags scope n n'
  | .literal m v, _, _, _, _, _, _, hrun => by
    obtain ⟨rfl, rfl⟩ := runs_pure.1 hrun
    exact ⟨[], .leaf (.refl _) fun _ _ => .literal⟩
  | .reference m x, _, scope, _, _, _, h, hrun => by
    simp only [Node.resolve] at hrun
    split at hrun
    · next x' hx =>
      obtain ⟨rfl, rfl⟩ := runs_pure.1 hrun
      exact ⟨[], .leaf (.refl _) fun _ _ => .reference hx (h.plain hx)⟩
    · exact absurd hrun runs_throw
  | .builtin m b, _, _, _, _, _, _, hrun => by
    obtain ⟨rfl, rfl⟩ := runs_pure.1 hrun
    exact ⟨[], .leaf (.refl _) fun _ _ => .builtin⟩
  | .lambda m x a body, _, scope, r, r', hn, h, hrun => by
    cases hn with
    | lambda hx hbody =>
      simp only [Node.resolve, runs_bind, runs_pure] at hrun
      obtain ⟨⟨⟩, r₁, htypes, ⟨x', inner⟩, r₂, hbind, body', r₃, hbody', rfl, rfl⟩ := hrun
      obtain rfl := runs_checkTypes htypes
      obtain ⟨rfl, hfresh, hgrows, hknown⟩ := runs_bindVariable hx h hbind
      obtain ⟨new, hr⟩ := Renames.of_run hbody hknown hbody'
      have hr' : Resolves scope r r₃ new _ _ := .behind hgrows hr rfl
      refine ⟨new, hr'.imp ?_ fun _ => .lambda hfresh⟩
      simp [declarations_eq (.lambda _ _ _ _), Node.declaredHere, Node.children, declarationsAll]
  | .application m f a, _, scope, _, _, hn, h, hrun => by
    cases hn with
    | application hf ha =>
      simp only [Node.resolve, runs_bind, runs_pure] at hrun
      obtain ⟨f', r₁, hf', a', r₂, ha', rfl, rfl⟩ := hrun
      obtain ⟨new, hr⟩ := Renames.of_run hf h hf'
      obtain ⟨more, hr'⟩ := Renames.of_run ha (h.grows hr.grows) ha'
      refine ⟨_, (hr.both hr' rfl).imp ?_ fun _ h => .application h.1 h.2⟩
      simp [declarations_eq (.application _ _ _), Node.declaredHere, Node.children, declarationsAll]
  | .letIn m x a value body, _, scope, r, _, hn, h, hrun => by
    cases hn with
    | letIn hx hvalue hbody =>
      simp only [Node.resolve, runs_bind, runs_pure] at hrun
      obtain ⟨⟨⟩, r₁, htypes, value', r₂, hvalue', ⟨x', inner⟩, r₃, hbind, body', r₄, hbody', rfl,
        rfl⟩ := hrun
      obtain rfl := runs_checkTypes htypes
      obtain ⟨new, hr⟩ := Renames.of_run hvalue h hvalue'
      obtain ⟨rfl, hfresh, hgrows, hknown⟩ := runs_bindVariable hx (h.grows hr.grows) hbind
      obtain ⟨more, hr'⟩ := Renames.of_run hbody hknown hbody'
      have hr'' : Resolves scope r₂ r₄ more _ _ := .behind hgrows hr' rfl
      refine ⟨_, (hr.both hr'' rfl).imp ?_ fun _ h => .letIn h.1 hfresh h.2⟩
      simp [declarations_eq (.letIn _ _ _ _ _), Node.declaredHere, Node.children, declarationsAll]
  | .letRec m arms body, _, scope, r, _, hn, h, hrun => by
    cases hn with
    | letRec harms hbody =>
      simp only [Node.resolve] at hrun
      split at hrun
      · simp only [Names.fail, runs_bind, runs_throw, false_and, exists_false] at hrun
      · next hnone =>
        have hdistinct : repeatedFunction? [] arms = none := by
          cases heq : repeatedFunction? [] arms with
          | none => rfl
          | some pair => exact (hnone pair.1 pair.2 heq).elim
        simp only [runs_bind, runs_pure] at hrun
        obtain ⟨⟨names, group⟩, r₁, hgroup, arms', r₂, harms', body', r₃, hbody', rfl, rfl⟩ := hrun
        obtain ⟨pairs, rfl, hnames, rfl, hpairs, hgrows, hknown⟩ := runs_bindGroup harms h hgroup
        -- members and body are resolved where all names of the group are bound
        obtain ⟨new, hr⟩ := RenamesGroup.of_run (each_iff.2 harms) hnames hknown harms'
        obtain ⟨more, hr'⟩ := Renames.of_run hbody (hknown.grows hr.grows) hbody'
        have hr'' : Resolves scope r r₃ (new ++ more) _ _ :=
          .behind hgrows (hr.both hr' rfl) (scopeTags_extendBinders scope pairs)
        have hnodup := hnames ▸ (nodup_of_repeatedFunction? hdistinct).1
        refine ⟨_, hr''.imp ?_ fun _ h => .letRec hnodup hpairs h.1 h.2⟩
        simp [declarations_eq (.letRec _ _ _), Node.declaredHere, Node.children, declarationsAll]
  | .conditional m c t e, _, scope, _, _, hn, h, hrun => by
    cases hn with
    | conditional hc ht he =>
      simp only [Node.resolve, runs_bind, runs_pure] at hrun
      obtain ⟨c', r₁, hc', t', r₂, ht', e', r₃, he', rfl, rfl⟩ := hrun
      obtain ⟨new, hr⟩ := Renames.of_run hc h hc'
      obtain ⟨more, hr'⟩ := Renames.of_run ht (h.grows hr.grows) ht'
      obtain ⟨last, hr''⟩ := Renames.of_run he ((h.grows hr.grows).grows hr'.grows) he'
      refine ⟨_, ((hr.both hr' rfl).both hr'' rfl).imp ?_ fun _ h => .conditional h.1.1 h.1.2 h.2⟩
      simp [declarations_eq (.conditional _ _ _ _), Node.declaredHere, Node.children,
        declarationsAll]
  | .binary m o lhs rhs, _, scope, _, _, hn, h, hrun => by
    cases hn with
    | binary hl hr =>
      simp only [Node.resolve, runs_bind, runs_pure] at hrun
      obtain ⟨l', r₁, hl', r', r₂, hr', rfl, rfl⟩ := hrun
      obtain ⟨new, hleft⟩ := Renames.of_run hl h hl'
      obtain ⟨more, hright⟩ := Renames.of_run hr (h.grows hleft.grows) hr'
      refine ⟨_, (hleft.both hright rfl).imp ?_ fun _ h => .binary h.1 h.2⟩
      simp [declarations_eq (.binary _ _ _ _), Node.declaredHere, Node.children, declarationsAll]
  | .unary m o e, _, scope, _, _, hn, h, hrun => by
    cases hn with
    | unary he =>
      simp only [Node.resolve, runs_bind, runs_pure] at hrun
      obtain ⟨e', r₁, he', rfl, rfl⟩ := hrun
      obtain ⟨new, hr⟩ := Renames.of_run he h he'
      refine ⟨_, hr.imp ?_ fun _ => .unary⟩
      simp [declarations_eq (.unary _ _ _), Node.declaredHere, Node.children, declarationsAll]
  | .sequence m es, _, scope, _, _, hn, h, hrun => by
    cases hn with
    | sequence hne hes =>
      simp only [Node.resolve, runs_bind, runs_pure] at hrun
      obtain ⟨es', r₁, hes', rfl, rfl⟩ := hrun
      obtain ⟨new, hr⟩ := RenamesAll.of_run hes h hes'
      exact ⟨_, hr.imp (declarations_eq _) fun _ => .sequence hne⟩
  | .tuple m es, _, scope, _, _, hn, h, hrun => by
    cases hn with
    | tuple hne hes =>
      simp only [Node.resolve, runs_bind, runs_pure] at hrun
      obtain ⟨es', r₁, hes', rfl, rfl⟩ := hrun
      obtain ⟨new, hr⟩ := RenamesAll.of_run hes h hes'
      exact ⟨_, hr.imp (declarations_eq _) fun _ => .tuple hne⟩
  | .projection m index arity e, _, scope, _, _, hn, h, hrun => by
    cases hn with
    | projection he =>
      simp only [Node.resolve, runs_bind, runs_pure] at hrun
      obtain ⟨e', r₁, he', rfl, rfl⟩ := hrun
      obtain ⟨new, hr⟩ := Renames.of_run he h he'
      refine ⟨_, hr.imp ?_ fun _ => .projection⟩
      simp [declarations_eq (.projection _ _ _ _), Node.declaredHere, Node.children,
        declarationsAll]
  | .dataType m d cs body, _, scope, r, _, hn, h, hrun => by
    cases hn with
    | dataType hcs hbody =>
      simp only [Node.resolve, runs_bind, runs_pure] at hrun
      obtain ⟨⟨⟩, r₁, hd, ⟨cs', inner⟩, r₂, hcs', body', r₃, hbody', rfl, rfl⟩ := hrun
      have hgrows := runs_declareDataType hd
      have hknown := (h.grows hgrows).extend (b := .dataType d) trivial
      obtain ⟨new, htags, hfresh, rfl, hgrows', hknown'⟩ := runs_declareConstructors hcs hknown hcs'
      obtain ⟨more, hr⟩ := Renames.of_run hbody hknown' hbody'
      -- `both` does not apply: the scope of the body has the new constructors as well
      refine ⟨new ++ more, (hgrows.trans hgrows').trans hr.grows, ?_, fun tags hnew hscope => ?_⟩
      · rw [declarations_eq, Node.declaredHere, Node.children, List.map_append, declarationsAll,
          List.flatMap_append, htags.declarations, htags.declared, List.map_append]
        simpa using hr.declared
      · have happend := List.append_subset.1 hnew
        refine .dataType htags happend.1 hfresh (hr.renames tags happend.2 ?_)
        rw [scopeTags_extendConstructors]
        exact List.append_subset.2 ⟨List.reverse_subset.2 happend.1, hscope⟩
  | .matchWith m e arms, _, scope, _, _, hn, h, hrun => by
    cases hn with
    | matchWith he harms =>
      simp only [Node.resolve, runs_bind, runs_pure] at hrun
      obtain ⟨e', r₁, he', arms', r₂, harms', rfl, rfl⟩ := hrun
      obtain ⟨new, hr⟩ := Renames.of_run he h he'
      obtain ⟨more, hr'⟩ := RenamesArms.of_run (each_iff.2 harms) (h.grows hr.grows) harms'
      refine ⟨_, (hr.both hr' rfl).imp ?_ fun _ h => .matchWith h.1 h.2⟩
      simp [declarations_eq (.matchWith _ _ _), Node.declaredHere, Node.children, declarationsAll]
termination_by structural n => n

theorem RenamesAll.of_run : ∀ {ns ns' : List Node} {scope : NameScope} {r r' : Registry},
    (∀ n ∈ ns, IsExpression n) → Known r scope → Runs (Node.resolveAll scope ns) r ns' r' →
    ∃ new, Resolves scope r r' new (declarationsAll ns') fun tags => RenamesAll tags scope ns ns'
  | [], _, _, _, _, _, _, hrun => by
    obtain ⟨rfl, rfl⟩ := runs_pure.1 hrun
    exact ⟨[], .leaf (.refl _) fun _ _ => .nil⟩
  | n :: ns, _, scope, _, _, hns, h, hrun => by
    simp only [Node.resolveAll, runs_bind, runs_pure] at hrun
    obtain ⟨n', r₁, hn', ns', r₂, hns', rfl, rfl⟩ := hrun
    obtain ⟨new, hr⟩ := Renames.of_run (hns n List.mem_cons_self) h hn'
    obtain ⟨more, hr'⟩ :=
      RenamesAll.of_run (fun k hk => hns k (List.mem_cons_of_mem _ hk)) (h.grows hr.grows) hns'
    exact ⟨_, (hr.both hr' rfl).imp rfl fun _ h => .cons h.1 h.2⟩
termination_by structural ns => ns

theorem RenamesGroup.of_run : ∀ {ns ns' : List Node} {scope group : NameScope}
    {pairs : List (String × String)} {r r' : Registry}, Each IsFunction ns →
    groupNames ns = pairs.map Prod.fst → Known r group →
    Runs (Node.resolveGroup scope group ns (pairs.map Prod.snd)) r ns' r' →
    ∃ new, Resolves group r r' new (declarationsAll ns') fun tags =>
      RenamesGroup tags group pairs ns ns'
  | [], _, _, _, pairs, _, _, _, hnames, _, hrun => by
    obtain ⟨rfl, rfl⟩ := runs_pure.1 hrun
    obtain rfl : pairs = [] := by
      cases pairs with
      | nil => rfl
      | cons pair pairs => cases hnames
    exact ⟨[], .leaf (.refl _) fun _ _ => .nil⟩
  | .letRecArm m f x pa ra body :: rest, _, scope, group, pairs, r, _, .cons (.mk hf hx hbody) hns,
      hnames, h, hrun => by
    cases pairs with
    | nil => cases hnames
    | cons pair pairs =>
      obtain ⟨f₀, f'⟩ := pair
      obtain ⟨rfl, hrest⟩ := List.cons.inj hnames
      simp only [Node.resolveGroup, runs_bind, runs_pure] at hrun
      obtain ⟨⟨⟩, r₁, htypes, ⟨x', inner⟩, r₂, hbind, body', r₃, hbody', rest', r₄, hrest', rfl,
        rfl⟩ := hrun
      obtain rfl := runs_checkTypes htypes
      obtain ⟨rfl, hfresh, hgrows, hknown⟩ := runs_bindVariable hx h hbind
      obtain ⟨new, hr⟩ := Renames.of_run hbody hknown hbody'
      have hr₁ : Resolves group r r₃ new _ _ := .behind hgrows hr rfl
      obtain ⟨more, hr₂⟩ := RenamesGroup.of_run hns hrest (h.grows hr₁.grows) hrest'
      refine ⟨_, (hr₁.both hr₂ rfl).imp ?_ fun _ h => .cons hfresh h.1 h.2⟩
      simp [declarations_eq (.letRecArm _ _ _ _ _ _), Node.declaredHere, Node.children,
        declarationsAll]
termination_by structural ns => ns

theorem RenamesArms.of_run : ∀ {ns ns' : List Node} {scope : NameScope} {r r' : Registry},
    Each IsArm ns → Known r scope → Runs (Node.resolveAll scope ns) r ns' r' →
    ∃ new, Resolves scope r r' new (declarationsAll ns') fun tags => RenamesArms tags scope ns ns'
  | [], _, _, _, _, _, _, hrun => by
    obtain ⟨rfl, rfl⟩ := runs_pure.1 hrun
    exact ⟨[], .leaf (.refl _) fun _ _ => .nil⟩
  | .matchArm m p body :: rest, _, scope, r, _, .cons (.mk hp hbody) hns, h, hrun => by
    simp only [Node.resolveAll, Node.resolve, runs_bind, runs_pure] at hrun
    obtain ⟨arm, r₁, ⟨⟨p', inner⟩, r₂, hp', body', r₃, hbody', rfl, rfl⟩, rest', r₄, hrest', rfl,
      rfl⟩ := hrun
    obtain ⟨pairs, hbinds, hrenames⟩ := RenamesPattern.of_run hp h hp'
    obtain ⟨new, hr⟩ := Renames.of_run hbody hbinds.known hbody'
    obtain ⟨more, hr'⟩ := RenamesArms.of_run hns
      ((h.grows hbinds.grows).grows hr.grows) hrest'
    have hscope : scopeTags inner.scope = scopeTags scope := by
      rw [hbinds.scope_eq]
      exact scopeTags_extendBinders scope pairs
    have hr₁ : Resolves scope r r₃ new _ _ := .behind hbinds.grows hr hscope
    have hp := hrenames (scopeTags scope) (List.Subset.refl _)
    refine ⟨_, (hr₁.both hr' rfl).grows, ?_, fun tags hnew htags => ?_⟩
    · rw [declarationsAll, List.flatMap_cons, declarations_eq, ← (hr₁.both hr' rfl).declared]
      simp [Node.declaredHere, Node.children, declarationsAll, hp.declarations]
    · have hboth := (hr₁.both hr' rfl).renames tags hnew htags
      exact .cons (hrenames tags htags) hp hbinds.fresh (hbinds.scope_eq ▸ hboth.1) hboth.2
termination_by structural ns => ns

end

/-! ## 4. Errors -/

/-- An error about names. -/
def CompileError.IsNameError (e : CompileError) : Prop := e.cause.kind = .nameError

namespace Names

theorem fail_failsOnly {α : Type} {cause : Cause} {position : Position}
    (h : cause.kind = .nameError) :
    FailsOnly CompileError.IsNameError (fail cause position : Resolve α) := .throw h

theorem bindVariable_failsOnly (scope : NameScope) (x : String) :
    FailsOnly CompileError.IsNameError (bindVariable scope x) :=
  .bind (.bind .get fun _ => .bind (.set _) fun _ => .pure _) fun _ => .pure _

theorem checkTypes_failsOnly (scope : NameScope) (types : List TypeExpr) (position : Position) :
    FailsOnly CompileError.IsNameError (checkTypes scope types position) := by
  unfold checkTypes
  split
  · exact .pure _
  · exact fail_failsOnly rfl

theorem constructorTag_failsOnly (scope : NameScope) (c : String) (position : Position) :
    FailsOnly CompileError.IsNameError (constructorTag scope c position) := by
  unfold constructorTag
  split
  · exact .pure _
  · exact fail_failsOnly rfl

theorem bindGroup_failsOnly (scope : NameScope) (arms : List Node) :
    FailsOnly CompileError.IsNameError (bindGroup scope arms) := by
  fun_induction bindGroup scope arms with
  | case1 => exact .pure _
  | case2 scope m f x pa ra body rest ih =>
    exact .bind (bindVariable_failsOnly _ _) fun _ => .bind (ih _) fun _ => .pure _
  | case3 scope other rest hother ih => exact ih

theorem declareDataType_failsOnly (d : String) (position : Position) :
    FailsOnly CompileError.IsNameError (declareDataType d position) := by
  refine .bind .get fun registry => ?_
  dsimp only
  split
  · exact .bind (fail_failsOnly rfl) fun _ => .set _
  · exact .set _

theorem declareConstructor_failsOnly (c : String) (position : Position) :
    FailsOnly CompileError.IsNameError (declareConstructor c position) := by
  refine .bind .get fun registry => ?_
  dsimp only
  split
  · exact .bind (fail_failsOnly rfl) fun _ => .set _
  · exact .set _

theorem declareConstructors_failsOnly (d : String) {cs : List Node}
    (hcs : ∀ c ∈ cs, IsConstructor c) (scope : NameScope) :
    FailsOnly CompileError.IsNameError (Names.declareConstructors d scope cs) := by
  induction cs generalizing scope with
  | nil => exact .pure _
  | cons c rest ih =>
    obtain @⟨m, name, parameters, -⟩ := hcs _ List.mem_cons_self
    have ih := ih fun c hc => hcs c (List.mem_cons_of_mem _ hc)
    exact .bind (declareConstructor_failsOnly _ _) fun _ =>
      .bind (checkTypes_failsOnly _ _ _) fun _ =>
      .bind (.modifyGet _) fun _ => .bind (ih _) fun _ => .pure _

theorem bindInPattern_failsOnly (arm : ArmScope) (x : String) (position : Position) :
    FailsOnly CompileError.IsNameError (bindInPattern arm x position) := by
  unfold bindInPattern
  dsimp only
  split
  · exact .bind (fail_failsOnly rfl) fun _ => .bind (bindVariable_failsOnly _ _) fun _ => .pure _
  · exact .bind (bindVariable_failsOnly _ _) fun _ => .pure _

mutual

theorem resolvePattern_failsOnly {scope : NameScope} : ∀ {p : Node} (arm : ArmScope),
    IsPattern p → FailsOnly CompileError.IsNameError (resolvePattern scope p arm)
  | .patternBinder .., _, _ => .bind (bindInPattern_failsOnly _ _ _) fun _ => .pure _
  | .patternLiteral .., _, _ => .pure _
  | .patternTuple .., arm, .tuple _ hps =>
    .bind (resolvePatterns_failsOnly arm hps) fun _ => .pure _
  | .patternConstructor _ _ _ _, arm, .constructor _ hps =>
    .bind (constructorTag_failsOnly _ _ _) fun _ =>
      .bind (resolvePatterns_failsOnly arm hps) fun _ => .pure _

theorem resolvePatterns_failsOnly {scope : NameScope} : ∀ {ps : List Node} (arm : ArmScope),
    (∀ p ∈ ps, IsPattern p) → FailsOnly CompileError.IsNameError (resolvePatterns scope ps arm)
  | [], _, _ => .pure _
  | p :: _, arm, h =>
    .bind (resolvePattern_failsOnly arm (h p List.mem_cons_self)) fun _ =>
      .bind (resolvePatterns_failsOnly _ fun q hq => h q (List.mem_cons_of_mem _ hq)) fun _ =>
      .pure _

end

end Names

mutual

/-- **Errors of resolution are about names.** -/
theorem Node.resolve_failsOnly : ∀ {n : Node} (scope : NameScope), IsExpression n →
    FailsOnly CompileError.IsNameError (n.resolve scope)
  | .literal .., _, _ => .pure _
  | .reference m x, scope, _ => by
    rw [Node.resolve]
    split
    · exact .pure _
    · exact fail_failsOnly rfl
  | .builtin .., _, _ => .pure _
  | .lambda .., _, .lambda _ hbody =>
    .bind (checkTypes_failsOnly _ _ _) fun _ => .bind (bindVariable_failsOnly _ _) fun _ =>
      .bind (Node.resolve_failsOnly _ hbody) fun _ => .pure _
  | .application .., _, .application hf ha =>
    .bind (Node.resolve_failsOnly _ hf) fun _ => .bind (Node.resolve_failsOnly _ ha) fun _ =>
      .pure _
  | .letIn .., _, .letIn _ hvalue hbody =>
    .bind (checkTypes_failsOnly _ _ _) fun _ => .bind (Node.resolve_failsOnly _ hvalue) fun _ =>
      .bind (bindVariable_failsOnly _ _) fun _ => .bind (Node.resolve_failsOnly _ hbody) fun _ =>
      .pure _
  | .letRec m arms body, scope, .letRec harms hbody => by
    have hgroup (scope : NameScope) := bindGroup_failsOnly scope arms
    have hrest (names : List String × NameScope) : FailsOnly CompileError.IsNameError (do
        let arms ← Node.resolveGroup scope names.2 arms names.1
        return Node.letRec m arms (← body.resolve names.2)) :=
      .bind (Node.resolveGroup_failsOnly scope names.2 names.1 (each_iff.2 harms)) fun _ =>
        .bind (Node.resolve_failsOnly _ hbody) fun _ => .pure _
    rw [Node.resolve]
    split
    · exact .bind (fail_failsOnly rfl) fun _ => .bind (hgroup _) fun _ => hrest _
    · exact .bind (hgroup _) fun _ => hrest _
  | .conditional .., _, .conditional hc ht he =>
    .bind (Node.resolve_failsOnly _ hc) fun _ => .bind (Node.resolve_failsOnly _ ht) fun _ =>
      .bind (Node.resolve_failsOnly _ he) fun _ => .pure _
  | .binary .., _, .binary hl hr =>
    .bind (Node.resolve_failsOnly _ hl) fun _ => .bind (Node.resolve_failsOnly _ hr) fun _ =>
      .pure _
  | .unary .., _, .unary he => .bind (Node.resolve_failsOnly _ he) fun _ => .pure _
  | .sequence .., scope, .sequence _ hes =>
    .bind (Node.resolveAll_failsOnly scope hes) fun _ => .pure _
  | .tuple .., scope, .tuple _ hes =>
    .bind (Node.resolveAll_failsOnly scope hes) fun _ => .pure _
  | .projection _ _ _ _, _, .projection he =>
    .bind (Node.resolve_failsOnly _ he) fun _ => .pure _
  | .dataType .., _, .dataType hcs hbody =>
    .bind (declareDataType_failsOnly _ _) fun _ =>
      .bind (declareConstructors_failsOnly _ hcs _) fun _ =>
      .bind (Node.resolve_failsOnly _ hbody) fun _ => .pure _
  | .matchWith .., scope, .matchWith he harms =>
    .bind (Node.resolve_failsOnly _ he) fun _ =>
      .bind (Node.resolveArms_failsOnly scope (each_iff.2 harms)) fun _ => .pure _

theorem Node.resolveAll_failsOnly : ∀ {ns : List Node} (scope : NameScope),
    (∀ n ∈ ns, IsExpression n) → FailsOnly CompileError.IsNameError (Node.resolveAll scope ns)
  | [], _, _ => .pure _
  | n :: _, scope, h =>
    .bind (Node.resolve_failsOnly scope (h n List.mem_cons_self)) fun _ =>
      .bind (Node.resolveAll_failsOnly scope fun k hk => h k (List.mem_cons_of_mem _ hk)) fun _ =>
      .pure _

theorem Node.resolveGroup_failsOnly : ∀ {ns : List Node} (scope group : NameScope)
    (names : List String), Each IsFunction ns →
    FailsOnly CompileError.IsNameError (Node.resolveGroup scope group ns names)
  | [], _, _, _, _ => .pure _
  | .letRecArm .. :: _, scope, group, _, .cons (.mk _ _ hbody) hns =>
    .bind (checkTypes_failsOnly _ _ _) fun _ => .bind (bindVariable_failsOnly _ _) fun _ =>
      .bind (Node.resolve_failsOnly _ hbody) fun _ =>
      .bind (Node.resolveGroup_failsOnly scope group _ hns) fun _ => .pure _

theorem Node.resolveArms_failsOnly : ∀ {ns : List Node} (scope : NameScope),
    Each IsArm ns → FailsOnly CompileError.IsNameError (Node.resolveAll scope ns)
  | [], _, _ => .pure _
  | .matchArm .. :: _, scope, .cons (.mk hp hbody) hns =>
    .bind (.bind (resolvePattern_failsOnly _ hp) fun _ =>
      .bind (Node.resolve_failsOnly _ hbody) fun _ => .pure _) fun _ =>
      .bind (Node.resolveArms_failsOnly scope hns) fun _ => .pure _

end

/-! ## 5. Programs -/

/-- A program is resolved by a run that begins with nothing in scope and nothing named. -/
theorem Node.resolveNames_eq_ok {n named : Node} (h : n.resolveNames = .ok named) :
    ∃ r, Runs (n.resolve .empty) .empty named r := by
  unfold Node.resolveNames at h
  split at h
  · next n' r hrun =>
    cases h
    exact ⟨r, hrun⟩
  · cases h

theorem Node.resolveNames_eq_error {n : Node} {e : CompileError} (h : n.resolveNames = .error e) :
    Fails (n.resolve .empty) .empty e := by
  unfold Node.resolveNames at h
  split at h
  · cases h
  · next e' r hrun =>
    cases h
    exact ⟨r, hrun⟩

theorem IsProgram.resolveNames_error {n : Node} {e : CompileError} (hn : IsProgram n)
    (h : n.resolveNames = .error e) : e.IsNameError := by
  cases hn with
  | @mk m body hbody =>
    have hfails := Node.resolveNames_eq_error h
    rw [Node.resolve] at hfails
    exact FailsOnly.bind (Node.resolve_failsOnly _ hbody) (fun _ => .pure _) _ _ hfails

theorem Node.runs_resolveNames {m : Mark} {e named : Node}
    (h : (Node.top m e).resolveNames = .ok named) :
    ∃ e' r, named = .top m e' ∧ Runs (e.resolve .empty) .empty e' r := by
  obtain ⟨r, hruns⟩ := Node.resolveNames_eq_ok h
  simp only [Node.resolve, runs_bind, runs_pure] at hruns
  obtain ⟨e', r₁, he', rfl, rfl⟩ := hruns
  exact ⟨e', r₁, rfl, he'⟩

/-- **What resolution of a program gives**: the same program with its names resolved, where the
    constructors are declared under different names and have different numbers. -/
theorem IsProgram.resolveNames_ok {n named : Node} (hn : IsProgram n)
    (h : n.resolveNames = .ok named) :
    ∃ tags, (tags.map Prod.fst).Nodup ∧ (tags.map Prod.snd).Nodup ∧
      RenamesProgram tags n named ∧
      named.declarations.map Declaration.name = tags.map Prod.fst := by
  cases hn with
  | @mk m body hbody =>
    obtain ⟨body', r, rfl, hbody'⟩ := Node.runs_resolveNames h
    have hknown : Known Registry.empty .empty := fun b hb => absurd hb List.not_mem_nil
    obtain ⟨new, hr⟩ := Renames.of_run hbody hknown hbody'
    refine ⟨new, ?_, ?_, .mk (hr.renames new (List.Subset.refl _) (List.nil_subset _)), ?_⟩
    · have hdistinct := hr.grows.distinct List.nodup_nil
      rw [hr.grows.constructors, Registry.empty, List.append_nil] at hdistinct
      exact (List.reverse_perm _).nodup_iff.1 hdistinct
    · rw [hr.grows.tags]
      exact List.nodup_range'
    · rw [declarations_eq, ← hr.declared]
      simp [Node.declaredHere, Node.children, declarationsAll]

end ClosureML
