import ClosureML.Proofs.Runs
import ClosureML.Proofs.Syntax.Grammar
import ClosureML.Names.Resolution

/-!
# Renaming

Resolution of names gives every binder a name that nothing around it has, puts the name of the
innermost binding in place of every reference, and numbers the constructors and their patterns. It
changes nothing else.

* `Names.Fresh`: nothing in scope has the new name;
* `RenamesPattern`, `Renames`: the two trees belong together, in a scope and with the constructors'
  numbers;
* `Registry.Grows`: what every step of resolution preserves, and the constructors that it enters;
* `Known`: everything in scope was entered.
-/

namespace ClosureML

open Names

/-! ## 1. The relation -/

namespace Names

/-- The name that a binding gives to a value behind resolution. -/
def NameBinding.newName? : NameBinding → Option String
  | binder _ renamed => some renamed
  | constructor name _ => some name
  | dataType _ => none

/-- The constructor that a binding is, with its number. -/
def NameBinding.tagged? : NameBinding → Option (String × Nat)
  | constructor c tag => some (c, tag)
  | _ => none

/-- The constructors in scope with their numbers. -/
def scopeTags (scope : NameScope) : List (String × Nat) :=
  scope.toList.filterMap NameBinding.tagged?

/-- Nothing in scope has the name behind resolution. -/
def Fresh (scope : NameScope) (name : String) : Prop :=
  ∀ b ∈ scope.toList, b.newName? ≠ some name

/-- Names that are bound one inside the other, with their new names, each of them fresh. -/
def FreshBinders : NameScope → List (String × String) → Prop
  | _, [] => True
  | scope, (x, x') :: rest => Fresh scope x' ∧ FreshBinders (scope.extend (.binder x x')) rest

/-- The scope with more binders inside. -/
def extendBinders (scope : NameScope) (pairs : List (String × String)) : NameScope :=
  scope.extendAll (pairs.map fun (x, x') => .binder x x')

theorem extendBinders_append (scope : NameScope) (pairs more : List (String × String)) :
    extendBinders scope (pairs ++ more) = extendBinders (extendBinders scope pairs) more := by
  rw [extendBinders, List.map_append, Scope.extendAll, List.foldl_append]
  rfl

theorem freshBinders_append {scope : NameScope} {pairs more : List (String × String)} :
    FreshBinders scope (pairs ++ more) ↔
      FreshBinders scope pairs ∧ FreshBinders (extendBinders scope pairs) more := by
  induction pairs generalizing scope with
  | nil => exact ⟨fun h => ⟨trivial, h⟩, fun h => h.2⟩
  | cons pair pairs ih =>
    obtain ⟨x, x'⟩ := pair
    simp only [List.cons_append, FreshBinders, ih, and_assoc]
    rfl

/-- Constructors that are declared one inside the other, each of them fresh. -/
def FreshConstructors : NameScope → List (String × Nat) → Prop
  | _, [] => True
  | scope, (c, tag) :: rest =>
    Fresh scope c ∧ FreshConstructors (scope.extend (.constructor c tag)) rest

/-- The scope with more constructors inside. -/
def extendConstructors (scope : NameScope) (tags : List (String × Nat)) : NameScope :=
  scope.extendAll (tags.map fun (c, tag) => .constructor c tag)

end Names

mutual

/-- Patterns that belong together, with the names that they bind from left to right. `tags` are the
    numbers of the constructors. -/
inductive RenamesPattern (tags : List (String × Nat)) :
    Node → Node → List (String × String) → Prop where
  | binder {m : Mark} {x x' : String} :
      RenamesPattern tags (.patternBinder m x) (.patternBinder m x') [(x, x')]
  | literal {m : Mark} {v : Literal} :
      RenamesPattern tags (.patternLiteral m v) (.patternLiteral m v) []
  | tuple {m : Mark} {ps ps' : List Node} {pairs : List (String × String)} (hne : ps ≠ [])
      (hps : RenamesPatterns tags ps ps' pairs) :
      RenamesPattern tags (.patternTuple m ps) (.patternTuple m ps') pairs
  | constructor {m : Mark} {c : String} {ps ps' : List Node} {tag : Nat}
      {pairs : List (String × String)} (hc : (c, tag) ∈ tags)
      (hps : RenamesPatterns tags ps ps' pairs) :
      RenamesPattern tags (.patternConstructor m c ps none) (.patternConstructor m c ps' (some tag))
        pairs

/-- Lists of patterns that belong together. -/
inductive RenamesPatterns (tags : List (String × Nat)) :
    List Node → List Node → List (String × String) → Prop where
  | nil : RenamesPatterns tags [] [] []
  | cons {p p' : Node} {ps ps' : List Node} {pairs more : List (String × String)}
      (hp : RenamesPattern tags p p' pairs) (hps : RenamesPatterns tags ps ps' more) :
      RenamesPatterns tags (p :: ps) (p' :: ps') (pairs ++ more)

end

/-- The constructors of a data type with and without their numbers. -/
inductive TagsConstructors : List Node → List Node → List (String × Nat) → Prop where
  | nil : TagsConstructors [] [] []
  | cons {m : Mark} {c : String} {parameters : List TypeExpr} {tag : Nat} {cs cs' : List Node}
      {new : List (String × Nat)} (hcs : TagsConstructors cs cs' new) :
      TagsConstructors (.dataConstructor m c parameters none :: cs)
        (.dataConstructor m c parameters (some tag) :: cs') ((c, tag) :: new)

mutual

/-- **Trees that belong together**: the second is the first with its names resolved in a scope. -/
inductive Renames (tags : List (String × Nat)) : NameScope → Node → Node → Prop where
  | literal {scope : NameScope} {m : Mark} {v : Literal} :
      Renames tags scope (.literal m v) (.literal m v)
  | reference {scope : NameScope} {m : Mark} {x x' : String} (hx : lookup? scope x = some x')
      (hplain : '$' ∉ x'.toList) : Renames tags scope (.reference m x) (.reference m x')
  | builtin {scope : NameScope} {m : Mark} {b : Builtin} :
      Renames tags scope (.builtin m b) (.builtin m b)
  | lambda {scope : NameScope} {m : Mark} {x x' : String} {a : Option TypeExpr} {body body' : Node}
      (hx : Fresh scope x') (hbody : Renames tags (scope.extend (.binder x x')) body body') :
      Renames tags scope (.lambda m x a body) (.lambda m x' a body')
  | application {scope : NameScope} {m : Mark} {f f' a a' : Node} (hf : Renames tags scope f f')
      (ha : Renames tags scope a a') :
      Renames tags scope (.application m f a) (.application m f' a')
  | letIn {scope : NameScope} {m : Mark} {x x' : String} {a : Option TypeExpr}
      {value value' body body' : Node} (hvalue : Renames tags scope value value')
      (hx : Fresh scope x') (hbody : Renames tags (scope.extend (.binder x x')) body body') :
      Renames tags scope (.letIn m x a value body) (.letIn m x' a value' body')
  | letRec {scope : NameScope} {m : Mark} {arms arms' : List Node} {body body' : Node}
      {pairs : List (String × String)} (hdistinct : (pairs.map Prod.fst).Nodup)
      (hpairs : FreshBinders scope pairs)
      (harms : RenamesGroup tags (extendBinders scope pairs) pairs arms arms')
      (hbody : Renames tags (extendBinders scope pairs) body body') :
      Renames tags scope (.letRec m arms body) (.letRec m arms' body')
  | conditional {scope : NameScope} {m : Mark} {c c' t t' e e' : Node}
      (hc : Renames tags scope c c') (ht : Renames tags scope t t')
      (he : Renames tags scope e e') :
      Renames tags scope (.conditional m c t e) (.conditional m c' t' e')
  | binary {scope : NameScope} {m : Mark} {o : BinaryOperator} {l l' r r' : Node}
      (hl : Renames tags scope l l') (hr : Renames tags scope r r') :
      Renames tags scope (.binary m o l r) (.binary m o l' r')
  | unary {scope : NameScope} {m : Mark} {o : UnaryOperator} {e e' : Node}
      (he : Renames tags scope e e') : Renames tags scope (.unary m o e) (.unary m o e')
  | sequence {scope : NameScope} {m : Mark} {es es' : List Node} (hne : es ≠ [])
      (hes : RenamesAll tags scope es es') :
      Renames tags scope (.sequence m es) (.sequence m es')
  | tuple {scope : NameScope} {m : Mark} {es es' : List Node} (hne : es ≠ [])
      (hes : RenamesAll tags scope es es') : Renames tags scope (.tuple m es) (.tuple m es')
  | projection {scope : NameScope} {m : Mark} {index : Nat} {e e' : Node}
      (he : Renames tags scope e e') :
      Renames tags scope (.projection m index none e) (.projection m index none e')
  | dataType {scope : NameScope} {m : Mark} {d : String} {cs cs' : List Node}
      {new : List (String × Nat)} {body body' : Node} (hcs : TagsConstructors cs cs' new)
      (hnew : ∀ entry ∈ new, entry ∈ tags)
      (hfresh : FreshConstructors (scope.extend (.dataType d)) new)
      (hbody : Renames tags (extendConstructors (scope.extend (.dataType d)) new) body body') :
      Renames tags scope (.dataType m d cs body) (.dataType m d cs' body')
  | matchWith {scope : NameScope} {m : Mark} {e e' : Node} {arms arms' : List Node}
      (he : Renames tags scope e e') (harms : RenamesArms tags scope arms arms') :
      Renames tags scope (.matchWith m e arms) (.matchWith m e' arms')

/-- Lists of trees that belong together. -/
inductive RenamesAll (tags : List (String × Nat)) : NameScope → List Node → List Node → Prop where
  | nil {scope : NameScope} : RenamesAll tags scope [] []
  | cons {scope : NameScope} {n n' : Node} {ns ns' : List Node} (hn : Renames tags scope n n')
      (hns : RenamesAll tags scope ns ns') : RenamesAll tags scope (n :: ns) (n' :: ns')

/-- Groups of functions that belong together, under their old and new names. -/
inductive RenamesGroup (tags : List (String × Nat)) :
    NameScope → List (String × String) → List Node → List Node → Prop where
  | nil {scope : NameScope} : RenamesGroup tags scope [] [] []
  | cons {scope : NameScope} {m : Mark} {f f' x x' : String} {pa ra : Option TypeExpr}
      {body body' : Node} {pairs : List (String × String)} {rest rest' : List Node}
      (hx : Fresh scope x') (hbody : Renames tags (scope.extend (.binder x x')) body body')
      (hrest : RenamesGroup tags scope pairs rest rest') :
      RenamesGroup tags scope ((f, f') :: pairs) (.letRecArm m f x pa ra body :: rest)
        (.letRecArm m f' x' pa ra body' :: rest')

/-- Arms of a `match` that belong together. -/
inductive RenamesArms (tags : List (String × Nat)) : NameScope → List Node → List Node → Prop where
  | nil {scope : NameScope} : RenamesArms tags scope [] []
  | cons {scope : NameScope} {m : Mark} {p p' body body' : Node} {rest rest' : List Node}
      {pairs : List (String × String)} (hp : RenamesPattern tags p p' pairs)
      (hscope : RenamesPattern (scopeTags scope) p p' pairs)
      (hpairs : FreshBinders scope pairs)
      (hbody : Renames tags (extendBinders scope pairs) body body')
      (hrest : RenamesArms tags scope rest rest') :
      RenamesArms tags scope (.matchArm m p body :: rest) (.matchArm m p' body' :: rest')

end

/-- Programs that belong together. -/
inductive RenamesProgram (tags : List (String × Nat)) : Node → Node → Prop where
  | mk {m : Mark} {e e' : Node} (he : Renames tags .empty e e') :
      RenamesProgram tags (.top m e) (.top m e')

theorem RenamesPatterns.length_eq {tags : List (String × Nat)} : ∀ {ps ps' : List Node}
    {pairs : List (String × String)}, RenamesPatterns tags ps ps' pairs → ps.length = ps'.length
  | _, _, _, .nil => rfl
  | _, _, _, .cons _ hps => congrArg (· + 1) hps.length_eq

theorem RenamesAll.length_eq {tags : List (String × Nat)} {scope : NameScope} :
    ∀ {ns ns' : List Node}, RenamesAll tags scope ns ns' → ns.length = ns'.length
  | _, _, .nil => rfl
  | _, _, .cons _ hns => congrArg (· + 1) hns.length_eq

/-! ## 2. What every step preserves -/

namespace Names

/-- What a step of resolution preserves: counts only grow, and the constructors `new` are entered
    under names that were not entered before, with the next numbers. -/
structure Registry.Grows (new : List (String × Nat)) (r r' : Registry) : Prop where
  counts : ∀ x, r.supply.count x ≤ r'.supply.count x
  constructors : r'.constructors = (new.map Prod.fst).reverse ++ r.constructors
  distinct : r.constructors.Nodup → r'.constructors.Nodup
  tags : new.map Prod.snd = List.range' r.nextTag new.length
  nextTag : r'.nextTag = r.nextTag + new.length

namespace Registry.Grows

variable {new more : List (String × Nat)} {r r₁ r' : Registry}

theorem refl (r : Registry) : Grows [] r r := ⟨fun _ => Nat.le_refl _, rfl, id, rfl, rfl⟩

theorem trans (h : Grows new r r₁) (h' : Grows more r₁ r') : Grows (new ++ more) r r' where
  counts x := Nat.le_trans (h.counts x) (h'.counts x)
  constructors := by
    rw [h'.constructors, h.constructors, List.map_append, List.reverse_append, List.append_assoc]
  distinct := h'.distinct ∘ h.distinct
  tags := by
    rw [List.map_append, h.tags, h'.tags, h.nextTag, List.length_append, List.range'_append_1]
  nextTag := by rw [h'.nextTag, h.nextTag, List.length_append, Nat.add_assoc]

end Registry.Grows

/-- The new name of the binder number `k` of a name. -/
def numbered (name : String) (k : Nat) : String := name ++ "#" ++ toString k

/-- What is in scope was entered: binders have numbers that are used up, and constructors, which are
    words, are among the entered ones. -/
def NameBinding.Known (r : Registry) : NameBinding → Prop
  | binder x x' => IsWord x ∧ ∃ k < r.supply.count x, x' = numbered x k
  | constructor c _ => IsWord c ∧ c ∈ r.constructors
  | dataType _ => True

/-- Everything in scope was entered. -/
def Known (r : Registry) (scope : NameScope) : Prop := ∀ b ∈ scope.toList, b.Known r

theorem Known.grows {new : List (String × Nat)} {r r' : Registry} {scope : NameScope}
    (h : Known r scope) (hgrows : r.Grows new r') : Known r' scope := by
  intro b hb
  have hb' := h b hb
  cases b with
  | binder x x' =>
    obtain ⟨hx, k, hk, rfl⟩ := hb'
    exact ⟨hx, k, Nat.lt_of_lt_of_le hk (hgrows.counts x), rfl⟩
  | constructor c tag =>
    refine ⟨hb'.1, ?_⟩
    rw [hgrows.constructors]
    exact List.mem_append_right _ hb'.2
  | dataType d => trivial

theorem Known.extend {r : Registry} {scope : NameScope} {b : NameBinding} (h : Known r scope)
    (hb : b.Known r) : Known r (scope.extend b) := by
  intro b' hb'
  rcases List.mem_cons.1 hb' with rfl | hb'
  · exact hb
  · exact h b' hb'

theorem scopeTags_extendBinders (scope : NameScope) (pairs : List (String × String)) :
    scopeTags (extendBinders scope pairs) = scopeTags scope := by
  rw [scopeTags, extendBinders, Scope.toList_extendAll, List.filterMap_append, ← List.map_reverse,
    List.filterMap_map]
  exact congrArg (· ++ _) (List.filterMap_eq_nil_iff.2 fun pair _ => rfl)

theorem scopeTags_extendConstructors (scope : NameScope) (new : List (String × Nat)) :
    scopeTags (extendConstructors scope new) = new.reverse ++ scopeTags scope := by
  rw [scopeTags, extendConstructors, Scope.toList_extendAll, List.filterMap_append,
    ← List.map_reverse, List.filterMap_map]
  exact congrArg (· ++ _) List.filterMap_some

end Names

/-! ## 3. Nothing else is written down -/

open Node

mutual

theorem RenamesPattern.plain_eq {tags : List (String × Nat)} : ∀ {p p' : Node}
    {pairs : List (String × String)}, RenamesPattern tags p p' pairs → p'.plain = p'.bare
  | _, _, _, .binder => rfl
  | _, _, _, .literal => rfl
  | _, _, _, .tuple _ hps => by
    rw [plain_patternTuple, hps.plain_eq]
    rfl
  | _, _, _, .constructor _ hps => by
    rw [plain_patternConstructor, hps.plain_eq]
    rfl

theorem RenamesPatterns.plain_eq {tags : List (String × Nat)} : ∀ {ps ps' : List Node}
    {pairs : List (String × String)}, RenamesPatterns tags ps ps' pairs → plainAll ps' = bareAll ps'
  | _, _, _, .nil => rfl
  | _, _, _, .cons hp hps => by
    rw [plainAll_cons, hp.plain_eq, hps.plain_eq]
    rfl

end

theorem TagsConstructors.plain_eq {cs cs' : List Node} {new : List (String × Nat)}
    (h : TagsConstructors cs cs' new) : plainAll cs' = bareAll cs' := by
  induction h with
  | nil => rfl
  | cons _ ih =>
    rw [plainAll_cons, ih]
    rfl

mutual

/-- **No number of elements is recorded in a tree with its names resolved.** -/
theorem Renames.plain_eq {tags : List (String × Nat)} : ∀ {scope : NameScope} {n n' : Node},
    Renames tags scope n n' → n'.plain = n'.bare
  | _, _, _, .literal | _, _, _, .reference _ _ | _, _, _, .builtin => rfl
  | _, _, _, .lambda _ hbody => by
    rw [plain_lambda, hbody.plain_eq]
    rfl
  | _, _, _, .application hf ha => by
    rw [plain_application, hf.plain_eq, ha.plain_eq]
    rfl
  | _, _, _, .letIn hvalue _ hbody => by
    rw [plain_letIn, hvalue.plain_eq, hbody.plain_eq]
    rfl
  | _, _, _, .letRec _ _ harms hbody => by
    rw [plain_letRec, harms.plain_eq, hbody.plain_eq]
    rfl
  | _, _, _, .conditional hc ht he => by
    rw [plain_conditional, hc.plain_eq, ht.plain_eq, he.plain_eq]
    rfl
  | _, _, _, .binary hl hr => by
    rw [plain_binary, hl.plain_eq, hr.plain_eq]
    rfl
  | _, _, _, .unary he => by
    rw [plain_unary, he.plain_eq]
    rfl
  | _, _, _, .sequence _ hes => by
    rw [plain_sequence, hes.plain_eq]
    rfl
  | _, _, _, .tuple _ hes => by
    rw [plain_tuple, hes.plain_eq]
    rfl
  | _, _, _, .projection he => by
    rw [plain_projection, he.plain_eq]
    rfl
  | _, _, _, .dataType hcs _ _ hbody => by
    rw [plain_dataType, hcs.plain_eq, hbody.plain_eq]
    rfl
  | _, _, _, .matchWith he harms => by
    rw [plain_matchWith, he.plain_eq, harms.plain_eq]
    rfl

theorem RenamesAll.plain_eq {tags : List (String × Nat)} : ∀ {scope : NameScope}
    {ns ns' : List Node}, RenamesAll tags scope ns ns' → plainAll ns' = bareAll ns'
  | _, _, _, .nil => rfl
  | _, _, _, .cons hn hns => by
    rw [plainAll_cons, hn.plain_eq, hns.plain_eq]
    rfl

theorem RenamesGroup.plain_eq {tags : List (String × Nat)} : ∀ {scope : NameScope}
    {pairs : List (String × String)} {ns ns' : List Node}, RenamesGroup tags scope pairs ns ns' →
    plainAll ns' = bareAll ns'
  | _, _, _, _, .nil => rfl
  | _, _, _, _, .cons _ hbody hrest => by
    rw [plainAll_cons, plain_letRecArm, hbody.plain_eq, hrest.plain_eq]
    rfl

theorem RenamesArms.plain_eq {tags : List (String × Nat)} : ∀ {scope : NameScope}
    {ns ns' : List Node}, RenamesArms tags scope ns ns' → plainAll ns' = bareAll ns'
  | _, _, _, .nil => rfl
  | _, _, _, .cons hp _ _ hbody hrest => by
    rw [plainAll_cons, plain_matchArm, hp.plain_eq, hbody.plain_eq, hrest.plain_eq]
    rfl

end

theorem RenamesProgram.plain_eq {tags : List (String × Nat)} {n n' : Node}
    (h : RenamesProgram tags n n') : n'.plain = n'.bare := by
  cases h with
  | mk he =>
    rw [plain_top, he.plain_eq]
    rfl

end ClosureML
