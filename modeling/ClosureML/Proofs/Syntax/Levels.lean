import ClosureML.Proofs.Syntax.Bare

/-!
# Trees on their way down

Lowering takes constructs away: first data types and matches, then tuples. What a pass relies on is
said for the trees of each level: which constructs there are, what is recorded in them, and that
names are bound.

* `Level` are the levels;
* `IsTaggedPattern` and `AreTaggedConstructors`: patterns and constructors with their numbers;
* `IsTree tags P L names n`: an expression of level `L` in which `names` are in scope, and whose
  references fulfil `P`.

Main statements: `IsTree.mono` (more names may be in scope) and `IsTree.mapMarks`.
-/

namespace ClosureML

/-! ## 1. Patterns and constructors -/

mutual

/-- A pattern whose constructors have their numbers. -/
inductive IsTaggedPattern (tags : List (String × Nat)) : Node → Prop where
  | binder {m : Mark} {x : String} : IsTaggedPattern tags (.patternBinder m x)
  | literal {m : Mark} {l : Literal} : IsTaggedPattern tags (.patternLiteral m l)
  | tuple {m : Mark} {ps : List Node} (hps : AreTaggedPatterns tags ps) :
      IsTaggedPattern tags (.patternTuple m ps)
  | constructor {m : Mark} {c : String} {ps : List Node} {tag : Nat} (hc : (c, tag) ∈ tags)
      (hps : AreTaggedPatterns tags ps) :
      IsTaggedPattern tags (.patternConstructor m c ps (some tag))

/-- Patterns whose constructors have their numbers. -/
inductive AreTaggedPatterns (tags : List (String × Nat)) : List Node → Prop where
  | nil : AreTaggedPatterns tags []
  | cons {p : Node} {ps : List Node} (hp : IsTaggedPattern tags p)
      (hps : AreTaggedPatterns tags ps) : AreTaggedPatterns tags (p :: ps)

end

/-- The constructors of a data type, with their numbers. -/
inductive AreTaggedConstructors (tags : List (String × Nat)) : List Node → Prop where
  | nil : AreTaggedConstructors tags []
  | cons {m : Mark} {c : String} {parameters : List TypeExpr} {tag : Nat} {cs : List Node}
      (hc : (c, tag) ∈ tags) (hcs : AreTaggedConstructors tags cs) :
      AreTaggedConstructors tags (.dataConstructor m c parameters (some tag) :: cs)

namespace Node

mutual

/-- The names that a pattern binds, from left to right. -/
def patternNames : Node → List String
  | patternBinder _ x => [x]
  | patternTuple _ ps => patternNamesAll ps
  | patternConstructor _ _ ps _ => patternNamesAll ps
  | _ => []

/-- The names that several patterns bind. -/
def patternNamesAll : List Node → List String
  | [] => []
  | p :: ps => p.patternNames ++ patternNamesAll ps

end

/-- The name of a function of a group. -/
def functionName? : Node → Option String
  | letRecArm _ f _ _ _ _ => some f
  | _ => none

/-- The names of the functions of a group. -/
def functionNames (arms : List Node) : List String := arms.filterMap functionName?

/-- The name of a constructor of a data type. -/
def constructorName? : Node → Option String
  | dataConstructor _ c _ _ => some c
  | _ => none

/-- The names of the constructors of a data type. -/
def constructorNames (cs : List Node) : List String := cs.filterMap constructorName?

end Node

open Node

/-! ## 2. Expressions -/

/-- The levels: with everything, without data types and matches, and also without tuples. -/
inductive Level where
  | matches
  | tuples
  | core
  deriving DecidableEq

mutual

/-- An expression of a level, in which `names` are in scope. The references fulfil `P`. -/
inductive IsTree (tags : List (String × Nat)) (P : String → Prop) (L : Level) :
    List String → Node → Prop where
  | literal {names : List String} {m : Mark} {l : Literal} : IsTree tags P L names (.literal m l)
  | reference {names : List String} {m : Mark} {x : String} (hx : x ∈ names) (hP : P x) :
      IsTree tags P L names (.reference m x)
  | builtin {names : List String} {m : Mark} {b : Builtin} : IsTree tags P L names (.builtin m b)
  | lambda {names : List String} {m : Mark} {x : String} {a : Option TypeExpr} {body : Node}
      (hbody : IsTree tags P L (x :: names) body) : IsTree tags P L names (.lambda m x a body)
  | application {names : List String} {m : Mark} {f a : Node} (hf : IsTree tags P L names f)
      (ha : IsTree tags P L names a) : IsTree tags P L names (.application m f a)
  | letIn {names : List String} {m : Mark} {x : String} {a : Option TypeExpr} {value body : Node}
      (hvalue : IsTree tags P L names value) (hbody : IsTree tags P L (x :: names) body) :
      IsTree tags P L names (.letIn m x a value body)
  | letRec {names : List String} {m : Mark} {arms : List Node} {body : Node}
      (hdistinct : (functionNames arms).Nodup)
      (harms : AreFunctions tags P L (functionNames arms ++ names) arms)
      (hbody : IsTree tags P L (functionNames arms ++ names) body) :
      IsTree tags P L names (.letRec m arms body)
  | conditional {names : List String} {m : Mark} {c t e : Node} (hc : IsTree tags P L names c)
      (ht : IsTree tags P L names t) (he : IsTree tags P L names e) :
      IsTree tags P L names (.conditional m c t e)
  | binary {names : List String} {m : Mark} {o : BinaryOperator} {l r : Node}
      (hl : IsTree tags P L names l) (hr : IsTree tags P L names r) :
      IsTree tags P L names (.binary m o l r)
  | unary {names : List String} {m : Mark} {o : UnaryOperator} {e : Node}
      (he : IsTree tags P L names e) : IsTree tags P L names (.unary m o e)
  | sequence {names : List String} {m : Mark} {es : List Node} (hne : es ≠ [])
      (hes : AreTrees tags P L names es) : IsTree tags P L names (.sequence m es)
  | tuple {names : List String} {m : Mark} {es : List Node} (hL : L ≠ .core) (hne : es ≠ [])
      (hes : AreTrees tags P L names es) : IsTree tags P L names (.tuple m es)
  | projection {names : List String} {m : Mark} {index n : Nat} {e : Node} (hL : L ≠ .core)
      (hindex : index < n) (he : IsTree tags P L names e) :
      IsTree tags P L names (.projection m index (some n) e)
  | dataType {names : List String} {m : Mark} {d : String} {cs : List Node} {body : Node}
      (hL : L = .matches) (hcs : AreTaggedConstructors tags cs)
      (hbody : IsTree tags P L (constructorNames cs ++ names) body) :
      IsTree tags P L names (.dataType m d cs body)
  | matchWith {names : List String} {m : Mark} {e : Node} {arms : List Node} (hL : L = .matches)
      (he : IsTree tags P L names e) (harms : AreArms tags P L names arms) :
      IsTree tags P L names (.matchWith m e arms)

/-- Expressions of a level. -/
inductive AreTrees (tags : List (String × Nat)) (P : String → Prop) (L : Level) :
    List String → List Node → Prop where
  | nil {names : List String} : AreTrees tags P L names []
  | cons {names : List String} {n : Node} {ns : List Node} (hn : IsTree tags P L names n)
      (hns : AreTrees tags P L names ns) : AreTrees tags P L names (n :: ns)

/-- The functions of a group, the names of which are in scope. -/
inductive AreFunctions (tags : List (String × Nat)) (P : String → Prop) (L : Level) :
    List String → List Node → Prop where
  | nil {names : List String} : AreFunctions tags P L names []
  | cons {names : List String} {m : Mark} {f x : String} {pa ra : Option TypeExpr} {body : Node}
      {rest : List Node} (hbody : IsTree tags P L (x :: names) body)
      (hrest : AreFunctions tags P L names rest) :
      AreFunctions tags P L names (.letRecArm m f x pa ra body :: rest)

/-- The arms of a `match`. -/
inductive AreArms (tags : List (String × Nat)) (P : String → Prop) (L : Level) :
    List String → List Node → Prop where
  | nil {names : List String} : AreArms tags P L names []
  | cons {names : List String} {m : Mark} {p body : Node} {rest : List Node}
      (hp : IsTaggedPattern tags p) (hbody : IsTree tags P L (p.patternNames ++ names) body)
      (hrest : AreArms tags P L names rest) :
      AreArms tags P L names (.matchArm m p body :: rest)

end

/-- A program of a level. -/
inductive IsRoot (tags : List (String × Nat)) (P : String → Prop) (L : Level) : Node → Prop where
  | mk {m : Mark} {e : Node} (he : IsTree tags P L [] e) : IsRoot tags P L (.top m e)

/-! ## 3. More names in scope -/

section Mono

variable {tags : List (String × Nat)} {P Q : String → Prop} {L : Level}

theorem append_subset_append {new names names' : List String} (h : names ⊆ names') :
    new ++ names ⊆ new ++ names' :=
  List.append_subset.2 ⟨List.subset_append_left _ _,
    List.Subset.trans h (List.subset_append_right _ _)⟩

mutual

/-- **More names may be in scope**, and references may be allowed more. -/
theorem IsTree.mono (hP : ∀ x, P x → Q x) : ∀ {names names' : List String} {n : Node},
    IsTree tags P L names n → names ⊆ names' → IsTree tags Q L names' n
  | _, _, _, .literal, _ => .literal
  | _, _, _, .reference hx hPx, h => .reference (h hx) (hP _ hPx)
  | _, _, _, .builtin, _ => .builtin
  | _, _, _, .lambda hbody, h => .lambda (hbody.mono hP (List.cons_subset_cons _ h))
  | _, _, _, .application hf ha, h => .application (hf.mono hP h) (ha.mono hP h)
  | _, _, _, .letIn hvalue hbody, h =>
    .letIn (hvalue.mono hP h) (hbody.mono hP (List.cons_subset_cons _ h))
  | _, _, _, .letRec hdistinct harms hbody, h =>
    .letRec hdistinct (harms.mono hP (append_subset_append h))
      (hbody.mono hP (append_subset_append h))
  | _, _, _, .conditional hc ht he, h => .conditional (hc.mono hP h) (ht.mono hP h) (he.mono hP h)
  | _, _, _, .binary hl hr, h => .binary (hl.mono hP h) (hr.mono hP h)
  | _, _, _, .unary he, h => .unary (he.mono hP h)
  | _, _, _, .sequence hne hes, h => .sequence hne (hes.mono hP h)
  | _, _, _, .tuple hL hne hes, h => .tuple hL hne (hes.mono hP h)
  | _, _, _, .projection hL hindex he, h => .projection hL hindex (he.mono hP h)
  | _, _, _, .dataType hL hcs hbody, h =>
    .dataType hL hcs (hbody.mono hP (append_subset_append h))
  | _, _, _, .matchWith hL he harms, h => .matchWith hL (he.mono hP h) (harms.mono hP h)

theorem AreTrees.mono (hP : ∀ x, P x → Q x) : ∀ {names names' : List String} {ns : List Node},
    AreTrees tags P L names ns → names ⊆ names' → AreTrees tags Q L names' ns
  | _, _, _, .nil, _ => .nil
  | _, _, _, .cons hn hns, h => .cons (hn.mono hP h) (hns.mono hP h)

theorem AreFunctions.mono (hP : ∀ x, P x → Q x) : ∀ {names names' : List String} {ns : List Node},
    AreFunctions tags P L names ns → names ⊆ names' → AreFunctions tags Q L names' ns
  | _, _, _, .nil, _ => .nil
  | _, _, _, .cons hbody hrest, h =>
    .cons (hbody.mono hP (List.cons_subset_cons _ h)) (hrest.mono hP h)

theorem AreArms.mono (hP : ∀ x, P x → Q x) : ∀ {names names' : List String} {ns : List Node},
    AreArms tags P L names ns → names ⊆ names' → AreArms tags Q L names' ns
  | _, _, _, .nil, _ => .nil
  | _, _, _, .cons hp hbody hrest, h =>
    .cons hp (hbody.mono hP (append_subset_append h)) (hrest.mono hP h)

end

end Mono

/-! ## 4. Marks -/

section Marks

variable {tags : List (String × Nat)} {P : String → Prop} {L : Level} {f : Mark → Mark}

mutual

theorem patternNames_mapMarks : ∀ p : Node, (p.mapMarks f).patternNames = p.patternNames
  | .patternBinder _ _ => rfl
  | .patternTuple _ ps => patternNamesAll_mapAllMarks ps
  | .patternConstructor _ _ ps _ => patternNamesAll_mapAllMarks ps
  | .top .. | .literal .. | .reference .. | .builtin .. | .lambda .. | .application .. | .letIn ..
  | .letRec .. | .letRecArm .. | .conditional .. | .binary .. | .unary .. | .sequence ..
  | .tuple .. | .projection .. | .matchWith .. | .matchArm .. | .dataType ..
  | .dataConstructor .. | .patternLiteral .. | .indexed .. => rfl

theorem patternNamesAll_mapAllMarks :
    ∀ ps : List Node, patternNamesAll (mapAllMarks f ps) = patternNamesAll ps
  | [] => rfl
  | p :: ps => by
    rw [mapAllMarks, patternNamesAll, patternNamesAll, patternNames_mapMarks p,
      patternNamesAll_mapAllMarks ps]

end

theorem length_mapAllMarks (ns : List Node) : (mapAllMarks f ns).length = ns.length := by
  induction ns with
  | nil => rfl
  | cons n ns ih => rw [mapAllMarks, List.length_cons, List.length_cons, ih]

theorem mapAllMarks_ne_nil {ns : List Node} (h : ns ≠ []) : mapAllMarks f ns ≠ [] := by
  cases ns with
  | nil => exact absurd rfl h
  | cons n ns => exact List.cons_ne_nil _ _

theorem AreFunctions.functionNames_mapAllMarks {names : List String} {ns : List Node}
    (h : AreFunctions tags P L names ns) : functionNames (mapAllMarks f ns) = functionNames ns := by
  induction ns with
  | nil => rfl
  | cons n ns ih =>
    cases h with
    | @cons _ _ g _ _ _ _ _ _ hrest => exact congrArg (g :: ·) (ih hrest)

theorem AreTaggedConstructors.mapAllMarks {cs : List Node} (h : AreTaggedConstructors tags cs) :
    AreTaggedConstructors tags (mapAllMarks f cs) ∧
      constructorNames (Node.mapAllMarks f cs) = constructorNames cs := by
  induction h with
  | nil => exact ⟨.nil, rfl⟩
  | @cons _ c _ _ _ hc _ ih => exact ⟨.cons hc ih.1, congrArg (c :: ·) ih.2⟩

mutual

theorem IsTaggedPattern.mapMarks : ∀ {p : Node},
    IsTaggedPattern tags p → IsTaggedPattern tags (p.mapMarks f)
  | _, .binder => .binder
  | _, .literal => .literal
  | _, .tuple hps => .tuple hps.mapMarks
  | _, .constructor hc hps => .constructor hc hps.mapMarks

theorem AreTaggedPatterns.mapMarks : ∀ {ps : List Node},
    AreTaggedPatterns tags ps → AreTaggedPatterns tags (mapAllMarks f ps)
  | _, .nil => .nil
  | _, .cons hp hps => .cons hp.mapMarks hps.mapMarks

end

mutual

/-- **Marks do not matter.** -/
theorem IsTree.mapMarks : ∀ {names : List String} {n : Node},
    IsTree tags P L names n → IsTree tags P L names (n.mapMarks f)
  | _, _, .literal => .literal
  | _, _, .reference hx hP => .reference hx hP
  | _, _, .builtin => .builtin
  | _, _, .lambda hbody => .lambda hbody.mapMarks
  | _, _, .application hf ha => .application hf.mapMarks ha.mapMarks
  | _, _, .letIn hvalue hbody => .letIn hvalue.mapMarks hbody.mapMarks
  | _, _, .letRec hdistinct harms hbody => by
    have hnames := harms.functionNames_mapAllMarks (f := f)
    refine .letRec ?_ ?_ ?_
    · rw [hnames]
      exact hdistinct
    · rw [hnames]
      exact harms.mapMarks
    · rw [hnames]
      exact hbody.mapMarks
  | _, _, .conditional hc ht he => .conditional hc.mapMarks ht.mapMarks he.mapMarks
  | _, _, .binary hl hr => .binary hl.mapMarks hr.mapMarks
  | _, _, .unary he => .unary he.mapMarks
  | _, _, .sequence hne hes => .sequence (mapAllMarks_ne_nil hne) hes.mapMarks
  | _, _, .tuple hL hne hes => .tuple hL (mapAllMarks_ne_nil hne) hes.mapMarks
  | _, _, .projection hL hindex he => .projection hL hindex he.mapMarks
  | _, _, .dataType hL hcs hbody => by
    have hcs' := hcs.mapAllMarks (f := f)
    refine .dataType hL hcs'.1 ?_
    rw [hcs'.2]
    exact hbody.mapMarks
  | _, _, .matchWith hL he harms => .matchWith hL he.mapMarks harms.mapMarks

theorem AreTrees.mapMarks : ∀ {names : List String} {ns : List Node},
    AreTrees tags P L names ns → AreTrees tags P L names (mapAllMarks f ns)
  | _, _, .nil => .nil
  | _, _, .cons hn hns => .cons hn.mapMarks hns.mapMarks

theorem AreFunctions.mapMarks : ∀ {names : List String} {ns : List Node},
    AreFunctions tags P L names ns → AreFunctions tags P L names (mapAllMarks f ns)
  | _, _, .nil => .nil
  | _, _, .cons hbody hrest => .cons hbody.mapMarks hrest.mapMarks

theorem AreArms.mapMarks : ∀ {names : List String} {ns : List Node},
    AreArms tags P L names ns → AreArms tags P L names (mapAllMarks f ns)
  | _, _, .nil => .nil
  | _, _, .cons hp hbody hrest => by
    refine .cons hp.mapMarks ?_ hrest.mapMarks
    rw [patternNames_mapMarks]
    exact hbody.mapMarks

end

end Marks

end ClosureML
