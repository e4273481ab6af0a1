import ClosureML.Proofs.Names.Binding
import ClosureML.Proofs.Names.ResolutionRun
import Mathlib.Data.List.Forall2

/-!
# Renaming is sound

A program with its names resolved is the same program, but for the names of binders and references
and the numbers of constructors. All its binders have different names, and every reference sees
exactly one binder of its name, which is the one that the reference named before.

* `ScopesAgree`: what can be seen at the same place of both trees;
* `Use.Resolves`: two references that refer to the same;
* `Names.Enters`: the names that a step of resolution makes, and the constructors that it enters.

Main statements: `Renames.uses` (references keep what they refer to), `Node.resolve_enters` (names
are new and constructors are counted) and `IsProgram.resolveNames_sound`.
-/

namespace ClosureML

open Names Node

/-! ## 1. What can be seen -/

/-- **What can be seen at the same place** of a program and of the program with its names resolved:
    the same binders and constructors, where all names are different behind resolution. -/
inductive ScopesAgree : List NameBinding → Visible → Visible → Prop where
  | nil : ScopesAgree [] [] []
  | binder {bindings : List NameBinding} {visible visible' : Visible} {x x' : String} {node : Path}
      {number : Nat} (hx : Fresh ⟨bindings⟩ x') (h : ScopesAgree bindings visible visible') :
      ScopesAgree (.binder x x' :: bindings) ((x, .binder node number) :: visible)
        ((x', .binder node number) :: visible')
  | constructor {bindings : List NameBinding} {visible visible' : Visible} {c : String} {tag : Nat}
      {node : Path} (hc : Fresh ⟨bindings⟩ c) (h : ScopesAgree bindings visible visible') :
      ScopesAgree (.constructor c tag :: bindings) ((c, .constructor node) :: visible)
        ((c, .constructor node) :: visible')
  | dataType {bindings : List NameBinding} {visible visible' : Visible} {d : String}
      (h : ScopesAgree bindings visible visible') :
      ScopesAgree (.dataType d :: bindings) visible visible'

/-- **The second reference refers to what the first does**: the first one to the innermost of the
    names like it that it sees, the second one to the only such name. The name of a constructor
    stays. -/
structure Use.Resolves (u u' : Use) : Prop where
  node : u'.node = u.node
  referent : ∃ r, u.visible.lookup u.name = some r ∧
    (u'.visible.filter fun entry => entry.1 = u'.name) = [(u'.name, r)] ∧
    ∀ c, r = .constructor c → u'.name = u.name

namespace ScopesAgree

variable {bindings : List NameBinding} {visible visible' : Visible}

/-- What can be seen behind resolution has the new name of something in scope. -/
theorem exists_newName (h : ScopesAgree bindings visible visible') {entry : String × Referent}
    (hentry : entry ∈ visible') : ∃ b ∈ bindings, b.newName? = some entry.1 := by
  induction h with
  | nil => cases hentry
  | binder _ _ ih | constructor _ _ ih =>
    rcases List.mem_cons.1 hentry with rfl | hentry
    · exact ⟨_, List.mem_cons_self, rfl⟩
    · obtain ⟨b, hb, hname⟩ := ih hentry
      exact ⟨b, List.mem_cons_of_mem _ hb, hname⟩
  | dataType _ ih =>
    obtain ⟨b, hb, hname⟩ := ih hentry
    exact ⟨b, List.mem_cons_of_mem _ hb, hname⟩

/-- A fresh name cannot be seen. -/
theorem filter_eq_nil (h : ScopesAgree bindings visible visible') {x : String}
    (hx : Fresh ⟨bindings⟩ x) : (visible'.filter fun entry => entry.1 = x) = [] := by
  refine List.filter_eq_nil_iff.2 fun entry hentry heq => ?_
  obtain ⟨b, hb, hname⟩ := h.exists_newName hentry
  exact hx b hb (hname.trans (congrArg some (of_decide_eq_true heq)))

/-- A fresh name is then the only one like it. -/
theorem filter_cons (h : ScopesAgree bindings visible visible') {x : String}
    (hx : Fresh ⟨bindings⟩ x) {r : Referent} :
    (((x, r) :: visible').filter fun entry => entry.1 = x) = [(x, r)] := by
  rw [List.filter_cons, if_pos (decide_eq_true rfl), h.filter_eq_nil hx]

/-- **What a name stands for** behind resolution is the innermost of its name before. -/
theorem lookup (h : ScopesAgree bindings visible visible') {x x' : String}
    (hx : lookup? ⟨bindings⟩ x = some x') :
    ∃ r, visible.lookup x = some r ∧ (visible'.filter fun entry => entry.1 = x') = [(x', r)] ∧
      ∀ c, r = .constructor c → x' = x := by
  have hextend (b : NameBinding) (bs : List NameBinding) :
      lookup? ⟨b :: bs⟩ x = (b.value? x).or (lookup? ⟨bs⟩ x) := lookup?_extend ⟨bs⟩ b x
  induction h with
  | nil => cases hx
  | @binder bindings _ _ y y' node number hy h ih =>
    rw [hextend] at hx
    by_cases hxy : y = x
    · have hvalue : (NameBinding.binder y y').value? x = some y' := if_pos hxy
      rw [hvalue] at hx
      cases hx
      subst hxy
      exact ⟨_, List.lookup_cons_self, h.filter_cons hy, fun _ hc => nomatch hc⟩
    · have hvalue : (NameBinding.binder y y').value? x = none := if_neg hxy
      rw [hvalue, Option.none_or] at hx
      obtain ⟨r, hr, hfilter, hname⟩ := ih hx
      have hne : y' ≠ x' := by
        rintro rfl
        rw [h.filter_eq_nil hy] at hfilter
        cases hfilter
      refine ⟨r, ?_, (List.filter_cons_of_neg (by simpa using hne)).trans hfilter, hname⟩
      rwa [List.lookup_cons, beq_eq_false_iff_ne.2 (Ne.symm hxy)]
  | @constructor bindings _ _ c tag node hc h ih =>
    rw [hextend] at hx
    by_cases hxc : c = x
    · have hvalue : (NameBinding.constructor c tag).value? x = some c := if_pos hxc
      rw [hvalue] at hx
      cases hx
      subst hxc
      exact ⟨_, List.lookup_cons_self, h.filter_cons hc, fun _ _ => rfl⟩
    · have hvalue : (NameBinding.constructor c tag).value? x = none := if_neg hxc
      rw [hvalue, Option.none_or] at hx
      obtain ⟨r, hr, hfilter, hname⟩ := ih hx
      have hne : c ≠ x' := by
        rintro rfl
        rw [h.filter_eq_nil hc] at hfilter
        cases hfilter
      refine ⟨r, ?_, (List.filter_cons_of_neg (by simpa using hne)).trans hfilter, hname⟩
      rwa [List.lookup_cons, beq_eq_false_iff_ne.2 (Ne.symm hxc)]
  | @dataType bindings _ _ d h ih =>
    rw [hextend] at hx
    exact ih hx

/-- Behind a pattern, and inside a group. -/
theorem extendBinders_append {scope : NameScope} {pairs more : List (String × String)}
    (h : ScopesAgree (extendBinders (extendBinders scope pairs) more).toList visible visible') :
    ScopesAgree (extendBinders scope (pairs ++ more)).toList visible visible' := by
  rwa [Names.extendBinders_append]

/-- Inside a group of functions. -/
theorem group {tags : List (String × Nat)} {scope inner : NameScope}
    {pairs : List (String × String)} {arms arms' : List Node}
    (h : ScopesAgree scope.toList visible visible') (hpairs : FreshBinders scope pairs)
    (harms : RenamesGroup tags inner pairs arms arms') (path : Path) (i : Nat) :
    ScopesAgree (extendBinders scope pairs).toList (visibleInGroup visible path i arms)
      (visibleInGroup visible' path i arms') := by
  induction pairs generalizing scope visible visible' arms arms' i with
  | nil =>
    cases harms
    exact h
  | cons pair pairs ih =>
    cases harms with
    | cons hx hbody hrest => exact ih (.binder hpairs.1 h) hpairs.2 hrest (i + 1)

/-- Behind the constructors of a data type. -/
theorem constructors (scope : NameScope) {new : List (String × Nat)} {cs cs' : List Node}
    (h : ScopesAgree scope.toList visible visible') (hnew : FreshConstructors scope new)
    (hcs : TagsConstructors cs cs' new) (path : Path) (i : Nat) :
    ScopesAgree (extendConstructors scope new).toList (visibleBehindConstructors visible path i cs)
      (visibleBehindConstructors visible' path i cs') := by
  induction hcs generalizing scope visible visible' i with
  | nil => exact h
  | cons _ ih => exact ih _ (.constructor hnew.1 h) hnew.2 (i + 1)

mutual

/-- Behind a pattern. -/
theorem pattern {tags : List (String × Nat)} : ∀ {p p' : Node} {pairs : List (String × String)}
    {scope : NameScope} {visible visible' : Visible} (path : Path),
    RenamesPattern tags p p' pairs → FreshBinders scope pairs →
    ScopesAgree scope.toList visible visible' →
    ScopesAgree (extendBinders scope pairs).toList (p.visibleBehind visible path)
      (p'.visibleBehind visible' path)
  | _, _, _, _, _, _, _, .binder, hpairs, h => .binder hpairs.1 h
  | _, _, _, _, _, _, _, .literal, _, h => h
  | _, _, _, _, _, _, path, .tuple _ hps, hpairs, h => patterns path 0 hps hpairs h
  | _, _, _, _, _, _, path, .constructor _ hps, hpairs, h => patterns path 0 hps hpairs h

theorem patterns {tags : List (String × Nat)} : ∀ {ps ps' : List Node}
    {pairs : List (String × String)} {scope : NameScope} {visible visible' : Visible} (path : Path)
    (i : Nat), RenamesPatterns tags ps ps' pairs → FreshBinders scope pairs →
    ScopesAgree scope.toList visible visible' →
    ScopesAgree (extendBinders scope pairs).toList (visibleBehindAll visible path i ps)
      (visibleBehindAll visible' path i ps')
  | _, _, _, _, _, _, _, _, .nil, _, h => h
  | _, _, _, _, _, _, path, i, .cons hp hps, hpairs, h => by
    obtain ⟨hpairs, hmore⟩ := freshBinders_append.1 hpairs
    exact extendBinders_append (patterns path (i + 1) hps hmore (pattern (i :: path) hp hpairs h))

end

end ScopesAgree

/-! ## 2. References -/

section Uses

variable {tags : List (String × Nat)}

theorem RenamesGroup.length_eq {scope : NameScope} : ∀ {pairs : List (String × String)}
    {arms arms' : List Node}, RenamesGroup tags scope pairs arms arms' → arms.length = arms'.length
  | _, _, _, .nil => rfl
  | _, _, _, .cons _ _ hrest => congrArg (· + 1) hrest.length_eq

theorem TagsConstructors.length_eq {cs cs' : List Node} {new : List (String × Nat)}
    (h : TagsConstructors cs cs' new) : cs.length = cs'.length := by
  induction h with
  | nil => rfl
  | cons _ ih => exact congrArg (· + 1) ih

mutual

/-- **References keep what they refer to.** -/
theorem Renames.uses : ∀ {scope : NameScope} {n n' : Node} {visible visible' : Visible}
    (path : Path), Renames tags scope n n' → ScopesAgree scope.toList visible visible' →
    List.Forall₂ Use.Resolves (n.uses visible path) (n'.uses visible' path)
  | _, _, _, _, _, _, .literal, _ | _, _, _, _, _, _, .builtin, _ => .nil
  | _, _, _, _, _, _, .reference hx _, h => .cons ⟨rfl, h.lookup hx⟩ .nil
  | _, _, _, _, _, path, .lambda hx hbody, h => hbody.uses (0 :: path) (.binder hx h)
  | _, _, _, _, _, path, .application hf ha, h =>
    List.rel_append (hf.uses (0 :: path) h) (ha.uses (1 :: path) h)
  | _, _, _, _, _, path, .letIn hvalue hx hbody, h =>
    List.rel_append (hvalue.uses (0 :: path) h) (hbody.uses (1 :: path) (.binder hx h))
  | _, _, _, _, _, path, .letRec _ hpairs harms hbody, h => by
    have hgroup := h.group hpairs harms path 0
    rw [Node.uses, Node.uses, ← harms.length_eq]
    exact List.rel_append (harms.uses path 0 hgroup) (hbody.uses _ hgroup)
  | _, _, _, _, _, path, .conditional hc ht he, h =>
    List.rel_append (List.rel_append (hc.uses (0 :: path) h) (ht.uses (1 :: path) h))
      (he.uses (2 :: path) h)
  | _, _, _, _, _, path, .binary hl hr, h =>
    List.rel_append (hl.uses (0 :: path) h) (hr.uses (1 :: path) h)
  | _, _, _, _, _, path, .unary he, h => he.uses (0 :: path) h
  | _, _, _, _, _, path, .sequence _ hes, h => hes.uses path 0 h
  | _, _, _, _, _, path, .tuple _ hes, h => hes.uses path 0 h
  | _, _, _, _, _, path, .projection he, h => he.uses (0 :: path) h
  | _, _, _, _, _, path, .dataType hcs _ hfresh hbody, h => by
    have hinner := ScopesAgree.constructors (.extend _ (.dataType _)) (.dataType h) hfresh
      hcs path 0
    rw [Node.uses, Node.uses, ← hcs.length_eq]
    exact hbody.uses _ hinner
  | _, _, _, _, _, path, .matchWith he harms, h =>
    List.rel_append (he.uses (0 :: path) h) (harms.uses path 1 h)

theorem RenamesAll.uses : ∀ {scope : NameScope} {ns ns' : List Node} {visible visible' : Visible}
    (path : Path) (i : Nat), RenamesAll tags scope ns ns' →
    ScopesAgree scope.toList visible visible' →
    List.Forall₂ Use.Resolves (usesAll visible path i ns) (usesAll visible' path i ns')
  | _, _, _, _, _, _, _, .nil, _ => .nil
  | _, _, _, _, _, path, i, .cons hn hns, h =>
    List.rel_append (hn.uses (i :: path) h) (hns.uses path (i + 1) h)

theorem RenamesGroup.uses : ∀ {scope : NameScope} {pairs : List (String × String)}
    {ns ns' : List Node} {visible visible' : Visible} (path : Path) (i : Nat),
    RenamesGroup tags scope pairs ns ns' → ScopesAgree scope.toList visible visible' →
    List.Forall₂ Use.Resolves (usesAll visible path i ns) (usesAll visible' path i ns')
  | _, _, _, _, _, _, _, _, .nil, _ => .nil
  | _, _, _, _, _, _, path, i, .cons hx hbody hrest, h =>
    List.rel_append (hbody.uses (0 :: i :: path) (.binder hx h)) (hrest.uses path (i + 1) h)

theorem RenamesArms.uses : ∀ {scope : NameScope} {ns ns' : List Node} {visible visible' : Visible}
    (path : Path) (i : Nat), RenamesArms tags scope ns ns' →
    ScopesAgree scope.toList visible visible' →
    List.Forall₂ Use.Resolves (usesAll visible path i ns) (usesAll visible' path i ns')
  | _, _, _, _, _, _, _, .nil, _ => .nil
  | _, _, _, _, _, path, i, .cons hp _ hpairs hbody hrest, h =>
    List.rel_append (hbody.uses (1 :: i :: path) (.pattern (0 :: i :: path) hp hpairs h))
      (hrest.uses path (i + 1) h)

end

end Uses

/-! ## 3. New names and numbers -/

namespace Names

/-- How the new names of binders are made. -/
def binderFormat : NameFormat where
  name := numbered
  IsStem := IsWord
  inj _ _ heq := numbered_inj heq

/-- What a step of resolution has made: the new names of binders, which are all different, and the
    numbers of the constructors that it declared, which are the next ones. -/
structure Enters (r r' : Registry) (names : List String) (tags : List (String × Nat))
    (declared : List String) : Prop where
  names : r.supply.Makes binderFormat r'.supply names
  numbers : tags.map Prod.snd = List.range' r.nextTag tags.length
  nextTag : r'.nextTag = r.nextTag + tags.length
  tagged : tags.map Prod.fst = declared
  constructors : r'.constructors = declared.reverse ++ r.constructors
  words : ∀ c ∈ declared, IsWord c

namespace Enters

variable {r r₁ r' : Registry} {names names' : List String} {tags tags' : List (String × Nat)}
  {declared declared' : List String}

theorem refl (r : Registry) : Enters r r [] [] [] :=
  ⟨.refl _, rfl, rfl, rfl, rfl, fun _ hc => nomatch hc⟩

/-- One step after the other. -/
theorem append (h : Enters r r₁ names tags declared) (h' : Enters r₁ r' names' tags' declared') :
    Enters r r' (names ++ names') (tags ++ tags') (declared ++ declared') where
  names := h.names.append h'.names
  numbers := by
    rw [List.map_append, h.numbers, h'.numbers, h.nextTag, List.length_append, List.range'_append_1]
  nextTag := by rw [h'.nextTag, h.nextTag, List.length_append, Nat.add_assoc]
  tagged := by rw [List.map_append, h.tagged, h'.tagged]
  constructors := by
    rw [h'.constructors, h.constructors, List.reverse_append, List.append_assoc]
  words := List.forall_mem_append.2 ⟨h.words, h'.words⟩

/-- The same names in another order. -/
theorem perm (h : Enters r r' names tags declared) (hperm : names'.Perm names) :
    Enters r r' names' tags declared :=
  { h with names := h.names.only hperm.subperm }

end Enters

/-- What the making of trees has entered is what stands in them. -/
abbrev EntersAll (r r' : Registry) (ns : List Node) : Prop :=
  Enters r r' (ns.flatMap binders) (ns.flatMap constructorTags) (ns.flatMap allConstructors)

/-- What the making of a tree has entered is what stands in it. -/
abbrev EntersTree (r r' : Registry) (n : Node) : Prop :=
  Enters r r' n.binders n.constructorTags n.allConstructors

section Trees

variable {r r₁ r' : Registry} {n : Node} {names : List String}

theorem EntersTree.all (h : EntersTree r r' n) : EntersAll r r' [n] := by
  simpa [EntersAll] using h

theorem EntersTree.cons {ns : List Node} (h : EntersTree r r₁ n) (h' : EntersAll r₁ r' ns) :
    EntersAll r r' (n :: ns) := h.append h'

/-- **A node that declares no constructor**: what its children have, and the names it binds. -/
theorem EntersTree.of_children
    (h : Enters r r' names (n.children.flatMap constructorTags)
      (n.children.flatMap allConstructors))
    (hperm : (n.bound ++ n.children.flatMap binders).Perm names)
    (htag : n.declaredTag = []) (hname : n.declaredName = []) : EntersTree r r' n := by
  rw [EntersTree, binders, constructorTags, allConstructors, collect_eq, collect_eq, collect_eq,
    htag, hname]
  exact h.perm hperm

/-- A node that binds no name itself. -/
theorem EntersTree.of_all (h : EntersAll r r' n.children) (hbound : n.bound = [])
    (htag : n.declaredTag = []) (hname : n.declaredName = []) : EntersTree r r' n :=
  .of_children h (by rw [hbound]; exact .refl _) htag hname

/-- A new name is made. -/
theorem bindVariable_enters {scope scope' : NameScope} {x x' : String} (hx : IsWord x)
    (h : Runs (bindVariable scope x) r (x', scope') r') : Enters r r' [x'] [] [] := by
  simp only [bindVariable, rename, runs_bind, runs_get, runs_set, runs_pure, Prod.mk.injEq] at h
  obtain ⟨_, _, ⟨_, _, ⟨rfl, rfl⟩, ⟨⟩, _, rfl, rfl, rfl⟩, ⟨rfl, rfl⟩, rfl⟩ := h
  exact ⟨@Supply.Makes.next binderFormat x hx r.supply, rfl, rfl, rfl, rfl,
    fun _ hc => absurd hc List.not_mem_nil⟩

theorem bindInPattern_enters {arm arm' : ArmScope} {x x' : String} {position : Position}
    (hx : IsWord x) (h : Runs (bindInPattern arm x position) r (x', arm') r') :
    Enters r r' [x'] [] [] := by
  simp only [bindInPattern] at h
  split at h
  · simp only [Names.fail, runs_bind, runs_throw, false_and, exists_false] at h
  · simp only [runs_bind, runs_pure, Prod.mk.injEq] at h
    obtain ⟨⟨renamed, inner⟩, r₁, hbind, ⟨rfl, rfl⟩, rfl⟩ := h
    exact bindVariable_enters hx hbind

/-- The functions of a group get new names. -/
theorem bindGroup_enters {arms : List Node} {scope scope' : NameScope} {names : List String}
    {r r' : Registry} (harms : Each IsFunction arms)
    (h : Runs (bindGroup scope arms) r (names, scope') r') :
    names.length = arms.length ∧ Enters r r' names [] [] := by
  induction harms generalizing scope names r with
  | nil =>
    simp only [bindGroup, runs_pure, Prod.mk.injEq] at h
    obtain ⟨⟨rfl, rfl⟩, rfl⟩ := h
    exact ⟨rfl, .refl _⟩
  | cons hfunction _ ih =>
    obtain ⟨hf, -, -⟩ := hfunction
    simp only [bindGroup, runs_bind, runs_pure, Prod.mk.injEq] at h
    obtain ⟨⟨f', inner⟩, r₁, hbind, ⟨more, scope₂⟩, r₂, hmore, ⟨rfl, rfl⟩, rfl⟩ := h
    obtain ⟨hlength, hmore⟩ := ih hmore
    exact ⟨congrArg (· + 1) hlength, (bindVariable_enters hf hbind).append hmore⟩

/-- The constructors of a data type get the next numbers. -/
theorem declareConstructors_enters {d : String} : ∀ {cs cs' : List Node} {scope scope' : NameScope}
    {r r' : Registry}, Each IsConstructor cs →
    Runs (Names.declareConstructors d scope cs) r (cs', scope') r' → EntersAll r r' cs'
  | [], _, _, _, _, _, _, h => by
    simp only [Names.declareConstructors, runs_pure, Prod.mk.injEq] at h
    obtain ⟨⟨rfl, rfl⟩, rfl⟩ := h
    exact .refl _
  | .dataConstructor m c parameters _ :: rest, _, _, _, r, _, .cons (.mk hc) hrest, h => by
    simp only [Names.declareConstructors, takeTag, runs_bind, runs_modifyGet, runs_pure,
      Prod.mk.injEq] at h
    obtain ⟨⟨⟩, r₁, hdeclare, ⟨⟩, r₂, htypes, _, _, ⟨rfl, rfl⟩, ⟨more, scope₂⟩, r₃, hmore,
      ⟨rfl, rfl⟩, rfl⟩ := h
    obtain rfl := runs_checkTypes htypes
    obtain ⟨-, rfl⟩ := runs_declareConstructor hdeclare
    have hhere : Enters r { r with constructors := c :: r.constructors, nextTag := r.nextTag + 1 }
        [] [(c, r.nextTag)] [c] :=
      ⟨.refl _, rfl, rfl, rfl, rfl, List.forall_mem_singleton.2 hc⟩
    exact hhere.append (declareConstructors_enters hrest hmore)

theorem declareDataType_enters {d : String} {position : Position}
    (h : Runs (declareDataType d position) r () r') : Enters r r' [] [] [] := by
  simp only [declareDataType, runs_bind, runs_get] at h
  obtain ⟨_, _, ⟨rfl, rfl⟩, h⟩ := h
  split at h
  · simp only [Names.fail, runs_bind, runs_throw, false_and, exists_false] at h
  · obtain rfl := runs_set.1 h
    exact ⟨.refl _, rfl, rfl, rfl, rfl, fun _ hc => absurd hc List.not_mem_nil⟩

end Trees

mutual

/-- **Binders of patterns get new names.** -/
theorem resolvePattern_enters {scope : NameScope} : ∀ {p p' : Node} {arm arm' : ArmScope}
    {r r' : Registry}, IsPattern p → Runs (resolvePattern scope p arm) r (p', arm') r' →
    EntersTree r r' p'
  | .patternBinder m x, _, arm, _, _, _, .binder hx, h => by
    simp only [resolvePattern, runs_bind, runs_pure, Prod.mk.injEq] at h
    obtain ⟨⟨x', arm'⟩, r₁, hbind, ⟨rfl, rfl⟩, rfl⟩ := h
    exact .of_children (bindInPattern_enters hx hbind) (.refl _) rfl rfl
  | .patternLiteral m v, _, arm, _, _, _, _, h => by
    simp only [resolvePattern, runs_pure, Prod.mk.injEq] at h
    obtain ⟨⟨rfl, rfl⟩, rfl⟩ := h
    exact .of_all (.refl _) rfl rfl rfl
  | .patternTuple m ps, _, arm, _, _, _, .tuple _ hps, h => by
    simp only [resolvePattern, runs_bind, runs_pure, Prod.mk.injEq] at h
    obtain ⟨⟨ps', arm'⟩, r₁, hrest, ⟨rfl, rfl⟩, rfl⟩ := h
    exact .of_all (resolvePatterns_enters hps hrest) rfl rfl rfl
  | .patternConstructor m c ps _, _, arm, _, _, _, .constructor _ hps, h => by
    simp only [resolvePattern, runs_bind, runs_pure, Prod.mk.injEq] at h
    obtain ⟨tag, r₁, hrun, ⟨ps', arm'⟩, r₂, hrest, ⟨rfl, rfl⟩, rfl⟩ := h
    obtain ⟨-, rfl⟩ := runs_constructorTag hrun
    exact .of_all (resolvePatterns_enters hps hrest) rfl rfl rfl

theorem resolvePatterns_enters {scope : NameScope} : ∀ {ps ps' : List Node} {arm arm' : ArmScope}
    {r r' : Registry}, (∀ p ∈ ps, IsPattern p) →
    Runs (resolvePatterns scope ps arm) r (ps', arm') r' → EntersAll r r' ps'
  | [], _, arm, _, _, _, _, h => by
    simp only [resolvePatterns, runs_pure, Prod.mk.injEq] at h
    obtain ⟨⟨rfl, rfl⟩, rfl⟩ := h
    exact .refl _
  | p :: ps, _, arm, _, _, _, hps, h => by
    simp only [resolvePatterns, runs_bind, runs_pure, Prod.mk.injEq] at h
    obtain ⟨⟨p', arm₁⟩, r₁, hp, ⟨ps', arm₂⟩, r₂, hrest, ⟨rfl, rfl⟩, rfl⟩ := h
    exact (resolvePattern_enters (hps p List.mem_cons_self) hp).cons
      (resolvePatterns_enters (fun q hq => hps q (List.mem_cons_of_mem _ hq)) hrest)

end

end Names

section Resolution

open Names

mutual

/-- **Binders get new names, and constructors the next numbers.** -/
theorem Node.resolve_enters : ∀ {n n' : Node} {scope : NameScope} {r r' : Registry},
    IsExpression n → Runs (n.resolve scope) r n' r' → EntersTree r r' n'
  | .literal .., _, _, _, _, _, h | .builtin .., _, _, _, _, _, h => by
    obtain ⟨rfl, rfl⟩ := runs_pure.1 h
    exact .of_all (.refl _) rfl rfl rfl
  | .reference m x, _, _, _, _, _, h => by
    simp only [Node.resolve] at h
    split at h
    · obtain ⟨rfl, rfl⟩ := runs_pure.1 h
      exact .of_all (.refl _) rfl rfl rfl
    · exact absurd h runs_throw
  | .lambda m x a body, _, _, _, _, .lambda hx hbody, h => by
    simp only [Node.resolve, runs_bind, runs_pure] at h
    obtain ⟨⟨⟩, r₁, htypes, ⟨x', inner⟩, r₂, hbind, body', r₃, hbody', rfl, rfl⟩ := h
    obtain rfl := runs_checkTypes htypes
    exact .of_children ((bindVariable_enters hx hbind).append (resolve_enters hbody hbody').all)
      (.refl _) rfl rfl
  | .application m f a, _, _, _, _, .application hf ha, h => by
    simp only [Node.resolve, runs_bind, runs_pure] at h
    obtain ⟨f', r₁, hf', a', r₂, ha', rfl, rfl⟩ := h
    exact .of_all ((resolve_enters hf hf').cons (resolve_enters ha ha').all) rfl rfl rfl
  | .letIn m x a value body, _, _, _, _, .letIn hx hvalue hbody, h => by
    simp only [Node.resolve, runs_bind, runs_pure] at h
    obtain ⟨⟨⟩, r₁, htypes, value', r₂, hvalue', ⟨x', inner⟩, r₃, hbind, body', r₄, hbody', rfl,
      rfl⟩ := h
    obtain rfl := runs_checkTypes htypes
    refine .of_children ((resolve_enters hvalue hvalue').append
      ((bindVariable_enters hx hbind).append (resolve_enters hbody hbody').all)) ?_ rfl rfl
    -- the name is made behind those of the value, but listed before them
    exact List.perm_append_comm_assoc [x'] value'.binders ([body'].flatMap binders)
  | .letRec m arms body, _, scope, r, _, .letRec harms hbody, h => by
    simp only [Node.resolve] at h
    split at h
    · simp only [Names.fail, runs_bind, runs_throw, false_and, exists_false] at h
    · simp only [runs_bind, runs_pure] at h
      obtain ⟨⟨names, group⟩, r₁, hgroup, arms', r₂, harms', body', r₃, hbody', rfl, rfl⟩ := h
      obtain ⟨hlength, hnames⟩ := bindGroup_enters (each_iff.2 harms) hgroup
      obtain ⟨inner, hinner, hperm⟩ := resolveGroup_enters (each_iff.2 harms) hlength harms'
      have hall := (hnames.append hinner).append (resolve_enters hbody hbody').all
      refine .of_children (by simpa [Node.children] using hall) ?_ rfl rfl
      simpa [Node.children, Node.bound] using hperm.append_right body'.binders
  | .conditional m c t e, _, _, _, _, .conditional hc ht he, h => by
    simp only [Node.resolve, runs_bind, runs_pure] at h
    obtain ⟨c', r₁, hc', t', r₂, ht', e', r₃, he', rfl, rfl⟩ := h
    exact .of_all ((resolve_enters hc hc').cons ((resolve_enters ht ht').cons
      (resolve_enters he he').all)) rfl rfl rfl
  | .binary m o lhs rhs, _, _, _, _, .binary hl hr, h => by
    simp only [Node.resolve, runs_bind, runs_pure] at h
    obtain ⟨l', r₁, hl', r', r₂, hr', rfl, rfl⟩ := h
    exact .of_all ((resolve_enters hl hl').cons (resolve_enters hr hr').all) rfl rfl rfl
  | .unary m o e, _, _, _, _, .unary he, h => by
    simp only [Node.resolve, runs_bind, runs_pure] at h
    obtain ⟨e', r₁, he', rfl, rfl⟩ := h
    exact .of_all (resolve_enters he he').all rfl rfl rfl
  | .sequence m es, _, _, _, _, .sequence _ hes, h => by
    simp only [Node.resolve, runs_bind, runs_pure] at h
    obtain ⟨es', r₁, hes', rfl, rfl⟩ := h
    exact .of_all (resolveAll_enters hes hes') rfl rfl rfl
  | .tuple m es, _, _, _, _, .tuple _ hes, h => by
    simp only [Node.resolve, runs_bind, runs_pure] at h
    obtain ⟨es', r₁, hes', rfl, rfl⟩ := h
    exact .of_all (resolveAll_enters hes hes') rfl rfl rfl
  | .projection m index _ e, _, _, _, _, .projection he, h => by
    simp only [Node.resolve, runs_bind, runs_pure] at h
    obtain ⟨e', r₁, he', rfl, rfl⟩ := h
    exact .of_all (resolve_enters he he').all rfl rfl rfl
  | .dataType m d cs body, _, _, _, _, .dataType hcs hbody, h => by
    simp only [Node.resolve, runs_bind, runs_pure] at h
    obtain ⟨⟨⟩, r₁, hd, ⟨cs', inner⟩, r₂, hcs', body', r₃, hbody', rfl, rfl⟩ := h
    have hall := ((declareDataType_enters hd).append
      (declareConstructors_enters (each_iff.2 hcs) hcs')).append (resolve_enters hbody hbody').all
    exact .of_all (by simpa [EntersAll, Node.children] using hall) rfl rfl rfl
  | .matchWith m e arms, _, _, _, _, .matchWith he harms, h => by
    simp only [Node.resolve, runs_bind, runs_pure] at h
    obtain ⟨e', r₁, he', arms', r₂, harms', rfl, rfl⟩ := h
    exact .of_all ((resolve_enters he he').cons (resolveArms_enters (each_iff.2 harms) harms'))
      rfl rfl rfl
termination_by structural n => n

theorem Node.resolveAll_enters : ∀ {ns ns' : List Node} {scope : NameScope} {r r' : Registry},
    (∀ n ∈ ns, IsExpression n) → Runs (Node.resolveAll scope ns) r ns' r' → EntersAll r r' ns'
  | [], _, _, _, _, _, h => by
    obtain ⟨rfl, rfl⟩ := runs_pure.1 h
    exact .refl _
  | n :: ns, _, _, _, _, hns, h => by
    simp only [Node.resolveAll, runs_bind, runs_pure] at h
    obtain ⟨n', r₁, hn', ns', r₂, hns', rfl, rfl⟩ := h
    exact (resolve_enters (hns n List.mem_cons_self) hn').cons
      (resolveAll_enters (fun k hk => hns k (List.mem_cons_of_mem _ hk)) hns')
termination_by structural ns => ns

/-- The functions of a group have the names that were made for the group, and those that are made
    inside. -/
theorem Node.resolveGroup_enters : ∀ {ns ns' : List Node} {scope group : NameScope}
    {names : List String} {r r' : Registry}, Each IsFunction ns → names.length = ns.length →
    Runs (Node.resolveGroup scope group ns names) r ns' r' →
    ∃ inner, Enters r r' inner (ns'.flatMap constructorTags) (ns'.flatMap allConstructors) ∧
      (ns'.flatMap binders).Perm (names ++ inner)
  | [], _, _, _, names, _, _, _, hlength, h => by
    obtain ⟨rfl, rfl⟩ := runs_pure.1 h
    obtain rfl := List.eq_nil_of_length_eq_zero hlength
    exact ⟨[], .refl _, .refl _⟩
  | .letRecArm m f x pa ra body :: rest, _, _, _, f' :: names, _, _, .cons (.mk _ hx hbody) hns,
      hlength, h => by
    simp only [Node.resolveGroup, runs_bind, runs_pure] at h
    obtain ⟨⟨⟩, r₁, htypes, ⟨x', inner⟩, r₂, hbind, body', r₃, hbody', rest', r₄, hrest', rfl,
      rfl⟩ := h
    obtain rfl := runs_checkTypes htypes
    obtain ⟨more, hmore, hperm⟩ := resolveGroup_enters hns (Nat.succ.inj hlength) hrest'
    have hall :=
      ((bindVariable_enters hx hbind).append (resolve_enters hbody hbody').all).append hmore
    refine ⟨_, by simpa [constructorTags, allConstructors, collect_eq _ (letRecArm _ _ _ _ _ _),
      Node.children, declaredTag, declaredName] using hall, ?_⟩
    have hbinders : (letRecArm m f' x' pa ra body').binders = f' :: x' :: body'.binders := by
      simp [binders, collect_eq _ (letRecArm _ _ _ _ _ _), Node.children, bound]
    rw [List.flatMap_cons, List.headD_cons, hbinders]
    refine List.perm_iff_count.2 fun y => ?_
    have hcount := List.perm_iff_count.1 hperm y
    simp only [List.count_append, List.count_cons] at hcount ⊢
    omega
termination_by structural ns => ns

theorem Node.resolveArms_enters : ∀ {ns ns' : List Node} {scope : NameScope} {r r' : Registry},
    Each IsArm ns → Runs (Node.resolveAll scope ns) r ns' r' → EntersAll r r' ns'
  | [], _, _, _, _, _, h => by
    obtain ⟨rfl, rfl⟩ := runs_pure.1 h
    exact .refl _
  | .matchArm m p body :: rest, _, _, _, _, .cons (.mk hp hbody) hns, h => by
    simp only [Node.resolveAll, Node.resolve, runs_bind, runs_pure] at h
    obtain ⟨arm, r₁, ⟨⟨p', inner⟩, r₂, hp', body', r₃, hbody', rfl, rfl⟩, rest', r₄, hrest', rfl,
      rfl⟩ := h
    have harm : EntersTree _ _ (matchArm m p' body') := .of_all
      ((resolvePattern_enters hp hp').cons (resolve_enters hbody hbody').all) rfl rfl rfl
    exact harm.cons (resolveArms_enters hns hrest')
termination_by structural ns => ns

end

end Resolution

/-! ## 4. Nothing else is changed -/

section Unchanged

variable {tags : List (String × Nat)}

mutual

theorem RenamesPattern.nameless_eq : ∀ {p p' : Node} {pairs : List (String × String)},
    RenamesPattern tags p p' pairs → p'.nameless = p.nameless
  | _, _, _, .binder | _, _, _, .literal => rfl
  | _, _, _, @RenamesPattern.tuple _ m _ _ _ _ hps => congrArg (patternTuple m) hps.nameless_eq
  | _, _, _, @RenamesPattern.constructor _ m c _ _ _ _ _ hps =>
    congrArg (patternConstructor m c · none) hps.nameless_eq

theorem RenamesPatterns.nameless_eq : ∀ {ps ps' : List Node} {pairs : List (String × String)},
    RenamesPatterns tags ps ps' pairs → namelessAll ps' = namelessAll ps
  | _, _, _, .nil => rfl
  | _, _, _, .cons hp hps => congrArg₂ List.cons hp.nameless_eq hps.nameless_eq

end

theorem TagsConstructors.nameless_eq {cs cs' : List Node} {new : List (String × Nat)}
    (h : TagsConstructors cs cs' new) : namelessAll cs' = namelessAll cs := by
  induction h with
  | nil => rfl
  | cons _ ih => exact congrArg (List.cons _) ih

mutual

/-- **Resolution changes nothing but names and numbers.** -/
theorem Renames.nameless_eq : ∀ {scope : NameScope} {n n' : Node}, Renames tags scope n n' →
    n'.nameless = n.nameless
  | _, _, _, .literal | _, _, _, .reference _ _ | _, _, _, .builtin => rfl
  | _, _, _, @Renames.lambda _ _ m _ _ a _ _ _ hbody => congrArg (lambda m "" a) hbody.nameless_eq
  | _, _, _, @Renames.application _ _ m _ _ _ _ hf ha =>
    congrArg₂ (application m) hf.nameless_eq ha.nameless_eq
  | _, _, _, @Renames.letIn _ _ m _ _ a _ _ _ _ hvalue _ hbody =>
    congrArg₂ (letIn m "" a) hvalue.nameless_eq hbody.nameless_eq
  | _, _, _, @Renames.letRec _ _ m _ _ _ _ _ _ _ harms hbody =>
    congrArg₂ (letRec m) harms.nameless_eq hbody.nameless_eq
  | _, _, _, @Renames.conditional _ _ m _ _ _ _ _ _ hc ht he => by
    show conditional m _ _ _ = conditional m _ _ _
    exact congr (congrArg₂ (conditional m) hc.nameless_eq ht.nameless_eq) he.nameless_eq
  | _, _, _, @Renames.binary _ _ m o _ _ _ _ hl hr =>
    congrArg₂ (binary m o) hl.nameless_eq hr.nameless_eq
  | _, _, _, @Renames.unary _ _ m o _ _ he => congrArg (unary m o) he.nameless_eq
  | _, _, _, @Renames.sequence _ _ m _ _ _ hes => congrArg (sequence m) hes.nameless_eq
  | _, _, _, @Renames.tuple _ _ m _ _ _ hes => congrArg (tuple m) hes.nameless_eq
  | _, _, _, @Renames.projection _ _ m i _ _ he => congrArg (projection m i none) he.nameless_eq
  | _, _, _, @Renames.dataType _ _ m d _ _ _ _ _ hcs _ _ hbody =>
    congrArg₂ (dataType m d) hcs.nameless_eq hbody.nameless_eq
  | _, _, _, @Renames.matchWith _ _ m _ _ _ _ he harms =>
    congrArg₂ (matchWith m) he.nameless_eq harms.nameless_eq

theorem RenamesAll.nameless_eq : ∀ {scope : NameScope} {ns ns' : List Node},
    RenamesAll tags scope ns ns' → namelessAll ns' = namelessAll ns
  | _, _, _, .nil => rfl
  | _, _, _, .cons hn hns => congrArg₂ List.cons hn.nameless_eq hns.nameless_eq

theorem RenamesGroup.nameless_eq : ∀ {scope : NameScope} {pairs : List (String × String)}
    {ns ns' : List Node}, RenamesGroup tags scope pairs ns ns' → namelessAll ns' = namelessAll ns
  | _, _, _, _, .nil => rfl
  | _, _, _, _, @RenamesGroup.cons _ _ m _ _ _ _ pa ra _ _ _ _ _ _ hbody hrest =>
    congrArg₂ List.cons (congrArg (letRecArm m "" "" pa ra) hbody.nameless_eq) hrest.nameless_eq

theorem RenamesArms.nameless_eq : ∀ {scope : NameScope} {ns ns' : List Node},
    RenamesArms tags scope ns ns' → namelessAll ns' = namelessAll ns
  | _, _, _, .nil => rfl
  | _, _, _, @RenamesArms.cons _ _ m _ _ _ _ _ _ _ hp _ _ hbody hrest =>
    congrArg₂ List.cons (congrArg₂ (matchArm m) hp.nameless_eq hbody.nameless_eq) hrest.nameless_eq

end

/-- The constructors in the patterns of a tree are among some constructors with their numbers. -/
def PatternsTagged (tags : List (String × Nat)) (n : Node) : Prop :=
  ∀ entry ∈ n.patternTags, ∃ tag, entry.2 = some tag ∧ (entry.1, tag) ∈ tags

/-- In patterns stand the constructors that stand in the patterns below. -/
theorem PatternsTagged.of_children {n : Node} (hn : n.patternTag = [])
    (h : ∀ c ∈ n.children, PatternsTagged tags c) : PatternsTagged tags n := by
  intro entry hentry
  rw [patternTags, collect_eq, hn, List.nil_append] at hentry
  obtain ⟨c, hc, hentry⟩ := List.mem_flatMap.1 hentry
  exact h c hc entry hentry

mutual

theorem RenamesPattern.tagged : ∀ {p p' : Node} {pairs : List (String × String)},
    RenamesPattern tags p p' pairs → PatternsTagged tags p'
  | _, _, _, .binder => .of_children rfl fun _ hc => nomatch hc
  | _, _, _, .literal => .of_children rfl fun _ hc => nomatch hc
  | _, _, _, .tuple _ hps => .of_children rfl hps.tagged
  | _, _, _, @RenamesPattern.constructor _ m c _ ps' tag _ htag hps => by
    intro entry hentry
    rw [patternTags, collect_eq] at hentry
    rcases List.mem_append.1 hentry with hentry | hentry
    · obtain rfl := List.mem_singleton.1 hentry
      exact ⟨tag, rfl, htag⟩
    · obtain ⟨p, hp, hentry⟩ := List.mem_flatMap.1 hentry
      exact hps.tagged p hp entry hentry

theorem RenamesPatterns.tagged : ∀ {ps ps' : List Node} {pairs : List (String × String)},
    RenamesPatterns tags ps ps' pairs → ∀ p ∈ ps', PatternsTagged tags p
  | _, _, _, .nil => fun _ hp => nomatch hp
  | _, _, _, .cons hp hps => List.forall_mem_cons.2 ⟨hp.tagged, hps.tagged⟩

end

theorem TagsConstructors.tagged {cs cs' : List Node} {new : List (String × Nat)}
    (h : TagsConstructors cs cs' new) : ∀ c ∈ cs', PatternsTagged tags c := by
  induction h with
  | nil => exact fun _ hc => nomatch hc
  | cons _ ih => exact List.forall_mem_cons.2 ⟨.of_children rfl (fun _ hc => nomatch hc), ih⟩

mutual

/-- **Patterns have the numbers of their constructors.** -/
theorem Renames.tagged : ∀ {scope : NameScope} {n n' : Node}, Renames tags scope n n' →
    PatternsTagged tags n'
  | _, _, _, .literal | _, _, _, .reference _ _ | _, _, _, .builtin =>
    .of_children rfl fun _ hc => nomatch hc
  | _, _, _, .lambda _ hbody => .of_children rfl (List.forall_mem_singleton.2 hbody.tagged)
  | _, _, _, .application hf ha => .of_children rfl
    (List.forall_mem_cons.2 ⟨hf.tagged, List.forall_mem_singleton.2 ha.tagged⟩)
  | _, _, _, .letIn hvalue _ hbody => .of_children rfl
    (List.forall_mem_cons.2 ⟨hvalue.tagged, List.forall_mem_singleton.2 hbody.tagged⟩)
  | _, _, _, .letRec _ _ harms hbody => .of_children rfl
    (List.forall_mem_append.2 ⟨harms.tagged, List.forall_mem_singleton.2 hbody.tagged⟩)
  | _, _, _, .conditional hc ht he => .of_children rfl (List.forall_mem_cons.2 ⟨hc.tagged,
    List.forall_mem_cons.2 ⟨ht.tagged, List.forall_mem_singleton.2 he.tagged⟩⟩)
  | _, _, _, .binary hl hr => .of_children rfl
    (List.forall_mem_cons.2 ⟨hl.tagged, List.forall_mem_singleton.2 hr.tagged⟩)
  | _, _, _, .unary he => .of_children rfl (List.forall_mem_singleton.2 he.tagged)
  | _, _, _, .sequence _ hes => .of_children rfl hes.tagged
  | _, _, _, .tuple _ hes => .of_children rfl hes.tagged
  | _, _, _, .projection he => .of_children rfl (List.forall_mem_singleton.2 he.tagged)
  | _, _, _, .dataType hcs _ _ hbody => .of_children rfl
    (List.forall_mem_append.2 ⟨hcs.tagged, List.forall_mem_singleton.2 hbody.tagged⟩)
  | _, _, _, .matchWith he harms =>
    .of_children rfl (List.forall_mem_cons.2 ⟨he.tagged, harms.tagged⟩)

theorem RenamesAll.tagged : ∀ {scope : NameScope} {ns ns' : List Node},
    RenamesAll tags scope ns ns' → ∀ n ∈ ns', PatternsTagged tags n
  | _, _, _, .nil => fun _ hn => nomatch hn
  | _, _, _, .cons hn hns => List.forall_mem_cons.2 ⟨hn.tagged, hns.tagged⟩

theorem RenamesGroup.tagged : ∀ {scope : NameScope} {pairs : List (String × String)}
    {ns ns' : List Node}, RenamesGroup tags scope pairs ns ns' → ∀ n ∈ ns', PatternsTagged tags n
  | _, _, _, _, .nil => fun _ hn => nomatch hn
  | _, _, _, _, .cons _ hbody hrest => List.forall_mem_cons.2
    ⟨.of_children rfl (List.forall_mem_singleton.2 hbody.tagged), hrest.tagged⟩

theorem RenamesArms.tagged : ∀ {scope : NameScope} {ns ns' : List Node},
    RenamesArms tags scope ns ns' → ∀ n ∈ ns', PatternsTagged tags n
  | _, _, _, .nil => fun _ hn => nomatch hn
  | _, _, _, .cons hp _ _ hbody hrest => List.forall_mem_cons.2
    ⟨.of_children rfl
      (List.forall_mem_cons.2 ⟨hp.tagged, List.forall_mem_singleton.2 hbody.tagged⟩),
      hrest.tagged⟩

end

end Unchanged

/-! ## 5. Programs -/

/-- **Renaming is sound.** Whatever program has its names resolved, it stays the same but for the
    names of binders and references and the numbers of constructors. All binders, those with the
    name `_` included, get different names, and none gets that of a constructor. Every reference
    behind resolution sees exactly one binder or constructor of its name, and this is the innermost
    one of the name that stood there before, at the same place of the tree; a reference to a
    constructor keeps its name. Constructors have different names and are numbered in the order of
    their declaration, and every pattern has the number of the constructor that it names. -/
theorem IsProgram.resolveNames_sound {n named : Node} (hn : IsProgram n)
    (h : n.resolveNames = .ok named) :
    named.nameless = n.nameless ∧
      named.binders.Nodup ∧ (∀ x ∈ named.binders, x ∉ named.allConstructors) ∧
      List.Forall₂ Use.Resolves (n.uses [] []) (named.uses [] []) ∧
      named.allConstructors.Nodup ∧ named.constructorTags = named.allConstructors.zipIdx ∧
      ∀ entry ∈ named.patternTags,
        ∃ tag, entry.2 = some tag ∧ (entry.1, tag) ∈ named.constructorTags := by
  cases hn with
  | @mk m e he =>
    obtain ⟨e', r, rfl, hrun⟩ := runs_resolveNames h
    have henters : EntersTree .empty r (.top m e') :=
      .of_all (resolve_enters he hrun).all rfl rfl rfl
    have hknown : Known Registry.empty .empty := fun b hb => absurd hb List.not_mem_nil
    obtain ⟨new, hresolves⟩ := Renames.of_run he hknown hrun
    have hrenames := hresolves.renames new (List.Subset.refl _) (List.nil_subset _)
    -- the constructors that were entered are those that stand in the tree
    have hnames : new.map Prod.fst = (Node.top m e').allConstructors := by
      have hentered := hresolves.grows.constructors.symm.trans henters.constructors
      exact List.reverse_injective (List.append_cancel_right hentered)
    have htags : (Node.top m e').constructorTags = (Node.top m e').allConstructors.zipIdx := by
      rw [List.zipIdx_eq_zip_range']
      refine List.zip_of_prod henters.tagged ?_
      rw [henters.numbers, ← henters.tagged, List.length_map]
      rfl
    have hnew : new = (Node.top m e').constructorTags := by
      rw [htags, List.zipIdx_eq_zip_range']
      refine List.zip_of_prod hnames ?_
      rw [hresolves.grows.tags, ← hnames, List.length_map]
      rfl
    refine ⟨congrArg (Node.top m) hrenames.nameless_eq, henters.names.nodup, fun x hx hc => ?_,
      hrenames.uses [0] .nil, ?_, htags, ?_⟩
    · obtain ⟨y, -, k, -, -, rfl⟩ := henters.names.made x hx
      exact (henters.words _ hc).not_hash (hash_mem_numbered y k)
    · have hdistinct := hresolves.grows.distinct List.nodup_nil
      rw [henters.constructors, Registry.empty, List.append_nil] at hdistinct
      exact (List.reverse_perm _).nodup_iff.1 hdistinct
    · exact hnew ▸ PatternsTagged.of_children rfl (List.forall_mem_singleton.2 hrenames.tagged)

/-- A function that matches its parameter, in a program with two constructors; a binder of the
    second pattern has the name of the parameter. -/
def shadowingArm : Node :=
  .top default (.dataType default "T"
    [.dataConstructor default "A" [] none, .dataConstructor default "B" [.base .int] none]
    (.lambda default "x" none (.matchWith default (.reference default "x")
      [.matchArm default (.patternConstructor default "A" [] none) (.reference default "A"),
        .matchArm default (.patternConstructor default "B" [.patternBinder default "x"] none)
          (.application default (.reference default "B") (.reference default "x"))])))

/-- Its binders get different names, and the reference in the second arm means the inner one. -/
theorem resolveNames_sound_shadowingArm :
    ∃ named, shadowingArm.resolveNames = .ok named ∧ named.binders.Nodup ∧
      List.Forall₂ Use.Resolves (shadowingArm.uses [] []) (named.uses [] []) := by
  have hpattern : IsPattern (.patternConstructor default "B" [.patternBinder default "x"] none) :=
    .constructor (by decide) (List.forall_mem_singleton.2 (.binder (by decide)))
  have harms : ∀ arm ∈ [Node.matchArm default (.patternConstructor default "A" [] none)
      (.reference default "A"), .matchArm default
        (.patternConstructor default "B" [.patternBinder default "x"] none)
        (.application default (.reference default "B") (.reference default "x"))], IsArm arm :=
    List.forall_mem_cons.2 ⟨.mk (.constructor (by decide) (fun _ hp => nomatch hp))
      (.reference (by decide)), List.forall_mem_singleton.2 (.mk hpattern
        (.application (.reference (by decide)) (.reference (by decide))))⟩
  have hprogram : IsProgram shadowingArm :=
    .mk (.dataType (List.forall_mem_cons.2 ⟨.mk (by decide),
      List.forall_mem_singleton.2 (.mk (by decide))⟩)
        (.lambda (by decide) (.matchWith (.reference (by decide)) harms)))
  obtain ⟨named, hnamed⟩ : ∃ named, shadowingArm.resolveNames = .ok named := ⟨_, rfl⟩
  obtain ⟨-, hbinders, -, huses, -⟩ := hprogram.resolveNames_sound hnamed
  exact ⟨named, hnamed, hbinders, huses⟩

end ClosureML
