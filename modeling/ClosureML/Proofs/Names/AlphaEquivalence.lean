import ClosureML.Proofs.Names.RenamingSound
import ClosureML.Proofs.Syntax.Mirrors
import Mathlib.Logic.Relator

/-!
# Programs that differ in the names of their variables

Two programs are the same up to names when their trees are, and every reference of the one refers to
what the reference at the same place of the other refers to. When the names of both are resolved,
the binders at the same places stand side by side, and the two trees mirror each other: a new name
stands for the one beside it.

* `MeanSame`: two references mean the same;
* `Node.AlphaEquivalent`: programs that are the same up to names and positions;
* `StandsFor`: names behind resolution that stand for each other.

Main statement: `Node.AlphaEquivalent.resolveNames_mirrors`.
-/

namespace ClosureML

open Names Node

/-! ## 1. The relation -/

/-- Names of two programs that stand side by side. In scope, the innermost are the first. -/
abbrev Sides := List (String × String)

/-- Positions are not looked at. -/
abbrev Anywhere : Position → Position → Prop := fun _ _ => True

/-- **References mean the same** when the innermost binders that they can refer to stand side by
    side. A name that is bound in neither program means itself. -/
inductive MeanSame : Sides → String → String → Prop where
  | free {x : String} : MeanSame [] x x
  | here {sides : Sides} {x x' : String} : MeanSame ((x, x') :: sides) x x'
  | outer {sides : Sides} {x x' y y' : String} (h : y ≠ x) (h' : y' ≠ x')
      (hmore : MeanSame sides x x') : MeanSame ((y, y') :: sides) x x'

mutual

/-- Patterns that are the same up to names, with what is in scope before and behind them. -/
inductive AlphaPattern : Sides → Node → Node → Sides → Prop where
  | binder {sides : Sides} {m m' : Mark} {x x' : String} (hm : m.Mirrors Anywhere m') :
      AlphaPattern sides (.patternBinder m x) (.patternBinder m' x') ((x, x') :: sides)
  | literal {sides : Sides} {m m' : Mark} {v : Literal} (hm : m.Mirrors Anywhere m') :
      AlphaPattern sides (.patternLiteral m v) (.patternLiteral m' v) sides
  | tuple {sides inner : Sides} {m m' : Mark} {ps ps' : List Node} (hm : m.Mirrors Anywhere m')
      (hps : AlphaPatterns sides ps ps' inner) :
      AlphaPattern sides (.patternTuple m ps) (.patternTuple m' ps') inner
  | constructor {sides inner : Sides} {m m' : Mark} {c : String} {ps ps' : List Node}
      {tag : Option Nat} (hm : m.Mirrors Anywhere m') (hps : AlphaPatterns sides ps ps' inner) :
      AlphaPattern sides (.patternConstructor m c ps tag) (.patternConstructor m' c ps' tag) inner

/-- Patterns one after the other. -/
inductive AlphaPatterns : Sides → List Node → List Node → Sides → Prop where
  | nil {sides : Sides} : AlphaPatterns sides [] [] sides
  | cons {sides middle inner : Sides} {p p' : Node} {ps ps' : List Node}
      (hp : AlphaPattern sides p p' middle) (hps : AlphaPatterns middle ps ps' inner) :
      AlphaPatterns sides (p :: ps) (p' :: ps') inner

end

/-- The functions of two groups stand side by side, in scope with what is around the groups. -/
inductive BesideInGroup : Sides → List Node → List Node → Sides → Prop where
  | nil {sides : Sides} : BesideInGroup sides [] [] sides
  | cons {sides inner : Sides} {m m' : Mark} {f f' x x' : String} {pa pa' ra ra' : Option TypeExpr}
      {body body' : Node} {rest rest' : List Node}
      (hrest : BesideInGroup ((f, f') :: sides) rest rest' inner) :
      BesideInGroup sides (.letRecArm m f x pa ra body :: rest)
        (.letRecArm m' f' x' pa' ra' body' :: rest') inner

/-- The constructors of two data types are the same, in scope with what is around them. -/
inductive AlphaConstructors : Sides → List Node → List Node → Sides → Prop where
  | nil {sides : Sides} : AlphaConstructors sides [] [] sides
  | cons {sides inner : Sides} {m m' : Mark} {c : String} {parameters : List TypeExpr}
      {tag : Option Nat} {rest rest' : List Node} (hm : m.Mirrors Anywhere m')
      (hrest : AlphaConstructors ((c, c) :: sides) rest rest' inner) :
      AlphaConstructors sides (.dataConstructor m c parameters tag :: rest)
        (.dataConstructor m' c parameters tag :: rest') inner

mutual

/-- **Trees that are the same up to names and positions**, among names that are in scope side by
    side. The names of constructors and data types are the same. -/
inductive AlphaIn : Sides → Node → Node → Prop where
  | literal {sides : Sides} {m m' : Mark} {v : Literal} (hm : m.Mirrors Anywhere m') :
      AlphaIn sides (.literal m v) (.literal m' v)
  | reference {sides : Sides} {m m' : Mark} {x x' : String} (hm : m.Mirrors Anywhere m')
      (hx : MeanSame sides x x') : AlphaIn sides (.reference m x) (.reference m' x')
  | builtin {sides : Sides} {m m' : Mark} {b : Builtin} (hm : m.Mirrors Anywhere m') :
      AlphaIn sides (.builtin m b) (.builtin m' b)
  | lambda {sides : Sides} {m m' : Mark} {x x' : String} {a : Option TypeExpr} {body body' : Node}
      (hm : m.Mirrors Anywhere m') (hbody : AlphaIn ((x, x') :: sides) body body') :
      AlphaIn sides (.lambda m x a body) (.lambda m' x' a body')
  | application {sides : Sides} {m m' : Mark} {f f' a a' : Node} (hm : m.Mirrors Anywhere m')
      (hf : AlphaIn sides f f') (ha : AlphaIn sides a a') :
      AlphaIn sides (.application m f a) (.application m' f' a')
  | letIn {sides : Sides} {m m' : Mark} {x x' : String} {a : Option TypeExpr}
      {value value' body body' : Node} (hm : m.Mirrors Anywhere m')
      (hvalue : AlphaIn sides value value') (hbody : AlphaIn ((x, x') :: sides) body body') :
      AlphaIn sides (.letIn m x a value body) (.letIn m' x' a value' body')
  | letRec {sides inner : Sides} {m m' : Mark} {arms arms' : List Node} {body body' : Node}
      (hm : m.Mirrors Anywhere m') (hgroup : BesideInGroup sides arms arms' inner)
      (harms : AlphaGroup inner arms arms') (hbody : AlphaIn inner body body') :
      AlphaIn sides (.letRec m arms body) (.letRec m' arms' body')
  | conditional {sides : Sides} {m m' : Mark} {c c' t t' e e' : Node} (hm : m.Mirrors Anywhere m')
      (hc : AlphaIn sides c c') (ht : AlphaIn sides t t') (he : AlphaIn sides e e') :
      AlphaIn sides (.conditional m c t e) (.conditional m' c' t' e')
  | binary {sides : Sides} {m m' : Mark} {o : BinaryOperator} {l l' r r' : Node}
      (hm : m.Mirrors Anywhere m') (hl : AlphaIn sides l l') (hr : AlphaIn sides r r') :
      AlphaIn sides (.binary m o l r) (.binary m' o l' r')
  | unary {sides : Sides} {m m' : Mark} {o : UnaryOperator} {e e' : Node}
      (hm : m.Mirrors Anywhere m') (he : AlphaIn sides e e') :
      AlphaIn sides (.unary m o e) (.unary m' o e')
  | sequence {sides : Sides} {m m' : Mark} {es es' : List Node} (hm : m.Mirrors Anywhere m')
      (hes : AlphaAll sides es es') : AlphaIn sides (.sequence m es) (.sequence m' es')
  | tuple {sides : Sides} {m m' : Mark} {es es' : List Node} (hm : m.Mirrors Anywhere m')
      (hes : AlphaAll sides es es') : AlphaIn sides (.tuple m es) (.tuple m' es')
  | projection {sides : Sides} {m m' : Mark} {index : Nat} {arity : Option Nat} {e e' : Node}
      (hm : m.Mirrors Anywhere m') (he : AlphaIn sides e e') :
      AlphaIn sides (.projection m index arity e) (.projection m' index arity e')
  | dataType {sides inner : Sides} {m m' : Mark} {d : String} {cs cs' : List Node}
      {body body' : Node} (hm : m.Mirrors Anywhere m') (hcs : AlphaConstructors sides cs cs' inner)
      (hbody : AlphaIn inner body body') :
      AlphaIn sides (.dataType m d cs body) (.dataType m' d cs' body')
  | matchWith {sides : Sides} {m m' : Mark} {e e' : Node} {arms arms' : List Node}
      (hm : m.Mirrors Anywhere m') (he : AlphaIn sides e e') (harms : AlphaArms sides arms arms') :
      AlphaIn sides (.matchWith m e arms) (.matchWith m' e' arms')

/-- Lists of such trees. -/
inductive AlphaAll : Sides → List Node → List Node → Prop where
  | nil {sides : Sides} : AlphaAll sides [] []
  | cons {sides : Sides} {n n' : Node} {ns ns' : List Node} (hn : AlphaIn sides n n')
      (hns : AlphaAll sides ns ns') : AlphaAll sides (n :: ns) (n' :: ns')

/-- Functions of two groups. -/
inductive AlphaGroup : Sides → List Node → List Node → Prop where
  | nil {sides : Sides} : AlphaGroup sides [] []
  | cons {sides : Sides} {m m' : Mark} {f f' x x' : String} {pa ra : Option TypeExpr}
      {body body' : Node} {rest rest' : List Node} (hm : m.Mirrors Anywhere m')
      (hbody : AlphaIn ((x, x') :: sides) body body') (hrest : AlphaGroup sides rest rest') :
      AlphaGroup sides (.letRecArm m f x pa ra body :: rest)
        (.letRecArm m' f' x' pa ra body' :: rest')

/-- Arms of two matches. -/
inductive AlphaArms : Sides → List Node → List Node → Prop where
  | nil {sides : Sides} : AlphaArms sides [] []
  | cons {sides inner : Sides} {m m' : Mark} {p p' body body' : Node} {rest rest' : List Node}
      (hm : m.Mirrors Anywhere m') (hp : AlphaPattern sides p p' inner)
      (hbody : AlphaIn inner body body') (hrest : AlphaArms sides rest rest') :
      AlphaArms sides (.matchArm m p body :: rest) (.matchArm m' p' body' :: rest')

end

/-- **Programs that are the same up to names and positions.** -/
inductive Node.AlphaEquivalent : Node → Node → Prop where
  | mk {m m' : Mark} {e e' : Node} (hm : m.Mirrors Anywhere m') (he : AlphaIn [] e e') :
      AlphaEquivalent (.top m e) (.top m' e')

/-! ## 2. The same constructors -/

section Constructors

/-- Any two names stand for each other. -/
abbrev AnyName : String → String → Prop := fun _ _ => True

mutual

theorem AlphaPattern.mirrors : ∀ {sides inner : Sides} {p p' : Node},
    AlphaPattern sides p p' inner → p.Mirrors AnyName Anywhere p'
  | _, _, _, _, .binder hm => .patternBinder hm trivial
  | _, _, _, _, .literal hm => .patternLiteral hm
  | _, _, _, _, .tuple hm hps => .patternTuple hm hps.mirrors
  | _, _, _, _, .constructor hm hps => .patternConstructor hm hps.mirrors

theorem AlphaPatterns.mirrors : ∀ {sides inner : Sides} {ps ps' : List Node},
    AlphaPatterns sides ps ps' inner → MirrorsAll AnyName Anywhere ps ps'
  | _, _, _, _, .nil => .nil
  | _, _, _, _, .cons hp hps => .cons hp.mirrors hps.mirrors

end

theorem AlphaConstructors.mirrors {sides inner : Sides} {cs cs' : List Node}
    (h : AlphaConstructors sides cs cs' inner) : MirrorsAll AnyName Anywhere cs cs' := by
  induction h with
  | nil => exact .nil
  | cons hm _ ih => exact .cons (.dataConstructor hm trivial) ih

mutual

theorem AlphaIn.mirrors : ∀ {sides : Sides} {n n' : Node}, AlphaIn sides n n' →
    n.Mirrors AnyName Anywhere n'
  | _, _, _, .literal hm => .literal hm
  | _, _, _, .reference hm _ => .reference hm trivial
  | _, _, _, .builtin hm => .builtin hm
  | _, _, _, .lambda hm hbody => .lambda hm trivial hbody.mirrors
  | _, _, _, .application hm hf ha => .application hm hf.mirrors ha.mirrors
  | _, _, _, .letIn hm hvalue hbody => .letIn hm trivial hvalue.mirrors hbody.mirrors
  | _, _, _, .letRec hm _ harms hbody => .letRec hm harms.mirrors hbody.mirrors
  | _, _, _, .conditional hm hc ht he => .conditional hm hc.mirrors ht.mirrors he.mirrors
  | _, _, _, .binary hm hl hr => .binary hm hl.mirrors hr.mirrors
  | _, _, _, .unary hm he => .unary hm he.mirrors
  | _, _, _, .sequence hm hes => .sequence hm hes.mirrors
  | _, _, _, .tuple hm hes => .tuple hm hes.mirrors
  | _, _, _, .projection hm he => .projection hm he.mirrors
  | _, _, _, .dataType hm hcs hbody => .dataType hm hcs.mirrors hbody.mirrors
  | _, _, _, .matchWith hm he harms => .matchWith hm he.mirrors harms.mirrors

theorem AlphaAll.mirrors : ∀ {sides : Sides} {ns ns' : List Node}, AlphaAll sides ns ns' →
    MirrorsAll AnyName Anywhere ns ns'
  | _, _, _, .nil => .nil
  | _, _, _, .cons hn hns => .cons hn.mirrors hns.mirrors

theorem AlphaGroup.mirrors : ∀ {sides : Sides} {ns ns' : List Node}, AlphaGroup sides ns ns' →
    MirrorsAll AnyName Anywhere ns ns'
  | _, _, _, .nil => .nil
  | _, _, _, .cons hm hbody hrest =>
    .cons (.letRecArm hm trivial trivial hbody.mirrors) hrest.mirrors

theorem AlphaArms.mirrors : ∀ {sides : Sides} {ns ns' : List Node}, AlphaArms sides ns ns' →
    MirrorsAll AnyName Anywhere ns ns'
  | _, _, _, .nil => .nil
  | _, _, _, .cons hm hp hbody hrest => .cons (.matchArm hm hp.mirrors hbody.mirrors) hrest.mirrors

end

/-- Trees that mirror each other declare the same constructors. -/
theorem Node.Mirrors.allConstructors_eq {N : String → String → Prop}
    {R : Position → Position → Prop} {n n' : Node} (h : n.Mirrors N R n') :
    n.allConstructors = n'.allConstructors :=
  h.fold_eq fun _ _ h => funext fun inner => congrArg (· ++ inner.flatten) (by cases h <;> rfl)

end Constructors

/-! ## 3. Scopes side by side -/

/-- Scopes of two programs in which names stand side by side: `N` relates the new names of binders
    that do, and those of constructors. -/
inductive ScopesBeside (N : String → String → Prop) : NameScope → NameScope → Sides → Prop where
  | empty : ScopesBeside N .empty .empty []
  | binder {scope scope' : NameScope} {sides : Sides} {x x' y y' : String} (hy : N y y')
      (h : ScopesBeside N scope scope' sides) :
      ScopesBeside N (scope.extend (.binder x y)) (scope'.extend (.binder x' y')) ((x, x') :: sides)
  | constructor {scope scope' : NameScope} {sides : Sides} {c : String} {tag tag' : Nat}
      (hc : N c c) (h : ScopesBeside N scope scope' sides) :
      ScopesBeside N (scope.extend (.constructor c tag)) (scope'.extend (.constructor c tag'))
        ((c, c) :: sides)
  | dataType {scope scope' : NameScope} {sides : Sides} {d d' : String}
      (h : ScopesBeside N scope scope' sides) :
      ScopesBeside N (scope.extend (.dataType d)) (scope'.extend (.dataType d')) sides

/-- **References that mean the same** have new names that stand for each other. -/
theorem ScopesBeside.lookup {N : String → String → Prop} {scope scope' : NameScope} {sides : Sides}
    (h : ScopesBeside N scope scope' sides) {x x' y y' : String} (hx : MeanSame sides x x')
    (hy : lookup? scope x = some y) (hy' : lookup? scope' x' = some y') : N y y' := by
  induction h with
  | empty => cases hy
  | @binder _ _ _ z z' w w' hw _ ih =>
    rw [lookup?_extend] at hy hy'
    cases hx with
    | here =>
      rw [NameBinding.value?, if_pos rfl] at hy hy'
      cases hy
      cases hy'
      exact hw
    | outer hne hne' hmore =>
      rw [NameBinding.value?, if_neg hne, Option.none_or] at hy
      rw [NameBinding.value?, if_neg hne', Option.none_or] at hy'
      exact ih hmore hy hy'
  | @constructor _ _ _ c tag tag' hc _ ih =>
    rw [lookup?_extend] at hy hy'
    cases hx with
    | here =>
      rw [NameBinding.value?, if_pos rfl] at hy hy'
      cases hy
      cases hy'
      exact hc
    | outer hne hne' hmore =>
      rw [NameBinding.value?, if_neg hne, Option.none_or] at hy
      rw [NameBinding.value?, if_neg hne', Option.none_or] at hy'
      exact ih hmore hy hy'
  | dataType _ ih =>
    rw [lookup?_extend] at hy hy'
    exact ih hx hy hy'

/-! ## 4. Binders side by side -/

/-- The binders in two lists of trees stand side by side. -/
structure BindersBeside (ns ns' : List Node) (sides : Sides) : Prop where
  left : ns.flatMap binders = sides.map Prod.fst
  right : ns'.flatMap binders = sides.map Prod.snd

namespace BindersBeside

variable {ns ns' ks ks' : List Node} {n n' : Node} {sides more : Sides}

theorem nil : BindersBeside [] [] [] := ⟨rfl, rfl⟩

theorem append (h : BindersBeside ns ns' sides) (h' : BindersBeside ks ks' more) :
    BindersBeside (ns ++ ks) (ns' ++ ks') (sides ++ more) := by
  constructor
  · rw [List.flatMap_append, List.map_append, h.left, h'.left]
  · rw [List.flatMap_append, List.map_append, h.right, h'.right]

theorem cons (h : BindersBeside [n] [n'] sides) (h' : BindersBeside ns ns' more) :
    BindersBeside (n :: ns) (n' :: ns') (sides ++ more) := h.append h'

/-- The binders of a node stand before those of its children. -/
theorem bind {own : Sides} (hbound : n.bound = own.map Prod.fst)
    (hbound' : n'.bound = own.map Prod.snd) (h : BindersBeside n.children n'.children sides) :
    BindersBeside [n] [n'] (own ++ sides) := by
  constructor
  · rw [List.flatMap_singleton, List.map_append, binders, collect_eq, ← hbound, ← h.left]
    rfl
  · rw [List.flatMap_singleton, List.map_append, binders, collect_eq, ← hbound', ← h.right]
    rfl

/-- A node that binds one name itself. -/
theorem bindOne {x x' : String} (hbound : n.bound = [x]) (hbound' : n'.bound = [x'])
    (h : BindersBeside n.children n'.children sides) :
    BindersBeside [n] [n'] ((x, x') :: sides) :=
  @bind n n' sides [(x, x')] hbound hbound' h

/-- A node that binds two names itself. -/
theorem bindTwo {f f' x x' : String} (hbound : n.bound = [f, x]) (hbound' : n'.bound = [f', x'])
    (h : BindersBeside n.children n'.children sides) :
    BindersBeside [n] [n'] ((f, f') :: (x, x') :: sides) :=
  @bind n n' sides [(f, f'), (x, x')] hbound hbound' h

/-- A node that binds nothing itself. -/
theorem node (hbound : n.bound = []) (hbound' : n'.bound = [])
    (h : BindersBeside n.children n'.children sides) : BindersBeside [n] [n'] sides :=
  @bind n n' sides [] hbound hbound' h

end BindersBeside

/-- `N` lets constructors stand for themselves, and binders for those beside them. -/
structure Links (tags : List (String × Nat)) (N : String → String → Prop) (sides : Sides) :
    Prop where
  constructors : ∀ entry ∈ tags, N entry.1 entry.1
  binders : ∀ pair ∈ sides, N pair.1 pair.2

namespace Links

variable {tags : List (String × Nat)} {N : String → String → Prop} {sides more : Sides}

theorem left (h : Links tags N (sides ++ more)) : Links tags N sides :=
  ⟨h.constructors, fun pair hpair => h.binders pair (List.mem_append_left _ hpair)⟩

theorem right (h : Links tags N (sides ++ more)) : Links tags N more :=
  ⟨h.constructors, fun pair hpair => h.binders pair (List.mem_append_right _ hpair)⟩

theorem head {x x' : String} (h : Links tags N ((x, x') :: sides)) : N x x' :=
  h.binders (x, x') List.mem_cons_self

theorem tail {pair : String × String} (h : Links tags N (pair :: sides)) : Links tags N sides :=
  ⟨h.constructors, fun other hother => h.binders other (List.mem_cons_of_mem _ hother)⟩

end Links

/-- **Trees behind resolution, from scopes side by side.** Their binders stand side by side, and the
    trees mirror each other when names that stand side by side stand for each other. -/
def MirrorsBeside (tags : List (String × Nat)) (scope scope' : NameScope) (sides : Sides)
    (n n' : Node) : Prop :=
  ∃ bound, BindersBeside [n] [n'] bound ∧ ∀ N, Links tags N bound →
    ScopesBeside N scope scope' sides → n.Mirrors N Anywhere n'

/-- Lists of such trees. -/
def MirrorAllBeside (tags : List (String × Nat)) (scope scope' : NameScope) (sides : Sides)
    (ns ns' : List Node) : Prop :=
  ∃ bound, BindersBeside ns ns' bound ∧ ∀ N, Links tags N bound →
    ScopesBeside N scope scope' sides → MirrorsAll N Anywhere ns ns'

section Renamed

variable {tags : List (String × Nat)}

/-- The number of a constructor is determined by its name. -/
theorem tag_unique (htags : (tags.map Prod.fst).Nodup) {c : String} {tag tag' : Nat}
    (h : (c, tag) ∈ tags) (h' : (c, tag') ∈ tags) : tag = tag' :=
  congrArg Prod.snd (List.inj_on_of_nodup_map htags h h' rfl)

/-- Constructors that are the same get the same numbers. -/
theorem AlphaConstructors.beside {N : String → String → Prop}
    (htags : (tags.map Prod.fst).Nodup) (hN : ∀ entry ∈ tags, N entry.1 entry.1)
    {sides inner : Sides} {cs cs' : List Node} (h : AlphaConstructors sides cs cs' inner)
    {scope scope' : NameScope} {ks ks' : List Node} {new new' : List (String × Nat)}
    (hks : TagsConstructors cs ks new) (hks' : TagsConstructors cs' ks' new')
    (hnew : ∀ entry ∈ new, entry ∈ tags) (hnew' : ∀ entry ∈ new', entry ∈ tags)
    (hscope : ScopesBeside N scope scope' sides) :
    MirrorsAll N Anywhere ks ks' ∧
      ScopesBeside N (extendConstructors scope new) (extendConstructors scope' new') inner := by
  induction h generalizing scope scope' ks ks' new new' with
  | nil =>
    cases hks
    cases hks'
    exact ⟨.nil, hscope⟩
  | @cons _ _ _ _ c _ _ _ _ hm _ ih =>
    cases hks with | @cons _ _ _ tag _ _ _ hks => ?_
    cases hks' with | @cons _ _ _ tag' _ _ _ hks' => ?_
    obtain ⟨hc, hrest⟩ := List.forall_mem_cons.1 hnew
    obtain ⟨hc', hrest'⟩ := List.forall_mem_cons.1 hnew'
    obtain rfl := tag_unique htags hc hc'
    obtain ⟨hmirrors, hinner⟩ := ih hks hks' hrest hrest' (.constructor (hN _ hc) hscope)
    exact ⟨.cons (.dataConstructor hm (hN _ hc)) hmirrors, hinner⟩

/-- Constructors bind no variables. -/
theorem TagsConstructors.bindersBeside {cs ks cs' ks' : List Node} {new new' : List (String × Nat)}
    (h : TagsConstructors cs ks new) (h' : TagsConstructors cs' ks' new') :
    BindersBeside ks ks' [] := by
  have hnone : ∀ {cs ks : List Node} {new : List (String × Nat)}, TagsConstructors cs ks new →
      ks.flatMap binders = [] := by
    intro cs ks new h
    induction h with
    | nil => rfl
    | cons _ ih => exact ih
  exact ⟨hnone h, hnone h'⟩

mutual

/-- **Patterns that are the same bind names side by side.** -/
theorem AlphaPattern.beside (htags : (tags.map Prod.fst).Nodup) :
    ∀ {sides inner : Sides} {p p' q q' : Node} {pairs pairs' : List (String × String)},
      AlphaPattern sides p p' inner → RenamesPattern tags p q pairs →
      RenamesPattern tags p' q' pairs' →
      ∃ bound, BindersBeside [q] [q'] bound ∧ ∀ {N : String → String → Prop},
        Links tags N bound → q.Mirrors N Anywhere q' ∧
          ∀ {scope scope' : NameScope}, ScopesBeside N scope scope' sides →
            ScopesBeside N (extendBinders scope pairs) (extendBinders scope' pairs') inner
  | _, _, _, _, _, _, _, _, .binder hm, .binder, .binder =>
    ⟨_, .bindOne rfl rfl .nil, fun hN =>
      ⟨.patternBinder hm hN.head, fun hscope => .binder hN.head hscope⟩⟩
  | _, _, _, _, _, _, _, _, .literal hm, .literal, .literal =>
    ⟨[], .node rfl rfl .nil, fun _ => ⟨.patternLiteral hm, fun hscope => hscope⟩⟩
  | _, _, _, _, _, _, _, _, .tuple hm hps, .tuple _ hqs, .tuple _ hqs' => by
    obtain ⟨bound, hbound, hbeside⟩ := hps.beside htags hqs hqs'
    exact ⟨bound, .node rfl rfl hbound, fun hN =>
      ⟨.patternTuple hm (hbeside hN).1, (hbeside hN).2⟩⟩
  | _, _, _, _, _, _, _, _, .constructor hm hps, .constructor hc hqs, .constructor hc' hqs' => by
    obtain ⟨bound, hbound, hbeside⟩ := hps.beside htags hqs hqs'
    obtain rfl := tag_unique htags hc hc'
    exact ⟨bound, .node rfl rfl hbound, fun hN =>
      ⟨.patternConstructor hm (hbeside hN).1, (hbeside hN).2⟩⟩

theorem AlphaPatterns.beside (htags : (tags.map Prod.fst).Nodup) :
    ∀ {sides inner : Sides} {ps ps' qs qs' : List Node} {pairs pairs' : List (String × String)},
      AlphaPatterns sides ps ps' inner → RenamesPatterns tags ps qs pairs →
      RenamesPatterns tags ps' qs' pairs' →
      ∃ bound, BindersBeside qs qs' bound ∧ ∀ {N : String → String → Prop},
        Links tags N bound → MirrorsAll N Anywhere qs qs' ∧
          ∀ {scope scope' : NameScope}, ScopesBeside N scope scope' sides →
            ScopesBeside N (extendBinders scope pairs) (extendBinders scope' pairs') inner
  | _, _, _, _, _, _, _, _, .nil, .nil, .nil => ⟨[], .nil, fun _ => ⟨.nil, fun hscope => hscope⟩⟩
  | _, _, _, _, _, _, _, _, .cons hp hps, .cons hq hqs, .cons hq' hqs' => by
    obtain ⟨bound, hbound, hbeside⟩ := hp.beside htags hq hq'
    obtain ⟨more, hmore, hbesides⟩ := hps.beside htags hqs hqs'
    refine ⟨bound ++ more, hbound.cons hmore, fun hN => ?_⟩
    obtain ⟨hmirrors, hscopes⟩ := hbeside hN.left
    obtain ⟨hmirrorAll, hinner⟩ := hbesides hN.right
    refine ⟨.cons hmirrors hmirrorAll, fun hscope => ?_⟩
    rw [extendBinders_append, extendBinders_append]
    exact hinner (hscopes hscope)

end

/-- Groups whose functions stand side by side have scopes side by side. -/
theorem BesideInGroup.beside {N : String → String → Prop} {sides inner : Sides}
    {arms arms' : List Node} (h : BesideInGroup sides arms arms' inner)
    {group group' scope scope' : NameScope} {pairs pairs' : List (String × String)}
    {ks ks' : List Node} (hks : RenamesGroup tags group pairs arms ks)
    (hks' : RenamesGroup tags group' pairs' arms' ks')
    (hnames : List.Forall₂ (fun pair pair' => N pair.2 pair'.2) pairs pairs')
    (hscope : ScopesBeside N scope scope' sides) :
    ScopesBeside N (extendBinders scope pairs) (extendBinders scope' pairs') inner := by
  induction h generalizing scope scope' pairs pairs' ks ks' with
  | nil =>
    cases hks
    cases hks'
    exact hscope
  | cons _ ih =>
    cases hks with | cons _ _ hks => ?_
    cases hks' with | cons _ _ hks' => ?_
    cases hnames with | cons hname hnames => ?_
    have hinner := ih hks hks' hnames (.binder hname hscope)
    exact hinner

mutual

/-- **Trees that are the same up to names mirror each other** when their names are resolved. -/
theorem AlphaIn.beside (htags : (tags.map Prod.fst).Nodup) :
    ∀ {sides : Sides} {n n' k k' : Node} {scope scope' : NameScope}, AlphaIn sides n n' →
      Renames tags scope n k → Renames tags scope' n' k' →
      MirrorsBeside tags scope scope' sides k k'
  | _, _, _, _, _, _, _, .literal hm, .literal, .literal =>
    ⟨[], .node rfl rfl .nil, fun _ _ _ => .literal hm⟩
  | _, _, _, _, _, _, _, .reference hm hx, .reference hy _, .reference hy' _ =>
    ⟨[], .node rfl rfl .nil, fun _ _ hscope => .reference hm (hscope.lookup hx hy hy')⟩
  | _, _, _, _, _, _, _, .builtin hm, .builtin, .builtin =>
    ⟨[], .node rfl rfl .nil, fun _ _ _ => .builtin hm⟩
  -- the new names of both sides are paired up; what mirrors is asked under every such pairing
  | _, _, _, _, _, _, _, .lambda hm hbody, .lambda _ hk, .lambda _ hk' => by
    obtain ⟨bound, hbound, hmirrors⟩ := hbody.beside htags hk hk'
    exact ⟨_, .bindOne rfl rfl hbound, fun N hN hscope =>
      .lambda hm hN.head (hmirrors N hN.tail (.binder hN.head hscope))⟩
  | _, _, _, _, _, _, _, .application hm hf ha, .application hkf hka, .application hkf' hka' => by
    obtain ⟨boundF, hboundF, hmirrorsF⟩ := hf.beside htags hkf hkf'
    obtain ⟨boundA, hboundA, hmirrorsA⟩ := ha.beside htags hka hka'
    exact ⟨_, .node rfl rfl (hboundF.cons hboundA), fun N hN hscope =>
      .application hm (hmirrorsF N hN.left hscope) (hmirrorsA N hN.right hscope)⟩
  | _, _, _, _, _, _, _, .letIn hm hvalue hbody, .letIn hkv _ hkb, .letIn hkv' _ hkb' => by
    obtain ⟨boundV, hboundV, hmirrorsV⟩ := hvalue.beside htags hkv hkv'
    obtain ⟨boundB, hboundB, hmirrorsB⟩ := hbody.beside htags hkb hkb'
    exact ⟨_, .bindOne rfl rfl (hboundV.cons hboundB), fun N hN hscope =>
      .letIn hm hN.head (hmirrorsV N hN.tail.left hscope)
        (hmirrorsB N hN.tail.right (.binder hN.head hscope))⟩
  | _, _, _, _, _, _, _, .letRec hm hgroup harms hbody, .letRec _ _ hka hkb,
    .letRec _ _ hka' hkb' => by
    obtain ⟨boundA, hboundA, hnames, hmirrorsA⟩ := harms.beside htags hka hka'
    obtain ⟨boundB, hboundB, hmirrorsB⟩ := hbody.beside htags hkb hkb'
    refine ⟨_, .node rfl rfl (hboundA.append hboundB), fun N hN hscope => ?_⟩
    have hinner := hgroup.beside hka hka' (hnames N hN.left) hscope
    exact .letRec hm (hmirrorsA N hN.left hinner) (hmirrorsB N hN.right hinner)
  | _, _, _, _, _, _, _, .conditional hm hc ht he, .conditional hkc hkt hke,
    .conditional hkc' hkt' hke' => by
    obtain ⟨boundC, hboundC, hmirrorsC⟩ := hc.beside htags hkc hkc'
    obtain ⟨boundT, hboundT, hmirrorsT⟩ := ht.beside htags hkt hkt'
    obtain ⟨boundE, hboundE, hmirrorsE⟩ := he.beside htags hke hke'
    exact ⟨_, .node rfl rfl (hboundC.cons (hboundT.cons hboundE)), fun N hN hscope =>
      .conditional hm (hmirrorsC N hN.left hscope) (hmirrorsT N hN.right.left hscope)
        (hmirrorsE N hN.right.right hscope)⟩
  | _, _, _, _, _, _, _, .binary hm hl hr, .binary hkl hkr, .binary hkl' hkr' => by
    obtain ⟨boundL, hboundL, hmirrorsL⟩ := hl.beside htags hkl hkl'
    obtain ⟨boundR, hboundR, hmirrorsR⟩ := hr.beside htags hkr hkr'
    exact ⟨_, .node rfl rfl (hboundL.cons hboundR), fun N hN hscope =>
      .binary hm (hmirrorsL N hN.left hscope) (hmirrorsR N hN.right hscope)⟩
  | _, _, _, _, _, _, _, .unary hm he, .unary hk, .unary hk' => by
    obtain ⟨bound, hbound, hmirrors⟩ := he.beside htags hk hk'
    exact ⟨_, .node rfl rfl hbound, fun N hN hscope => .unary hm (hmirrors N hN hscope)⟩
  | _, _, _, _, _, _, _, .sequence hm hes, .sequence _ hks, .sequence _ hks' => by
    obtain ⟨bound, hbound, hmirrors⟩ := hes.beside htags hks hks'
    exact ⟨_, .node rfl rfl hbound, fun N hN hscope => .sequence hm (hmirrors N hN hscope)⟩
  | _, _, _, _, _, _, _, .tuple hm hes, .tuple _ hks, .tuple _ hks' => by
    obtain ⟨bound, hbound, hmirrors⟩ := hes.beside htags hks hks'
    exact ⟨_, .node rfl rfl hbound, fun N hN hscope => .tuple hm (hmirrors N hN hscope)⟩
  | _, _, _, _, _, _, _, .projection hm he, .projection hk, .projection hk' => by
    obtain ⟨bound, hbound, hmirrors⟩ := he.beside htags hk hk'
    exact ⟨_, .node rfl rfl hbound, fun N hN hscope => .projection hm (hmirrors N hN hscope)⟩
  | _, _, _, _, _, _, _, .dataType hm hcs hbody, .dataType hkcs hnew _ hkb,
    .dataType hkcs' hnew' _ hkb' => by
    obtain ⟨bound, hbound, hmirrors⟩ := hbody.beside htags hkb hkb'
    refine ⟨_, .node rfl rfl ((hkcs.bindersBeside hkcs').append hbound), fun N hN hscope => ?_⟩
    obtain ⟨hconstructors, hinner⟩ := hcs.beside htags hN.constructors hkcs hkcs' hnew hnew'
      (.dataType hscope)
    exact .dataType hm hconstructors (hmirrors N hN hinner)
  | _, _, _, _, _, _, _, .matchWith hm he harms, .matchWith hke hka, .matchWith hke' hka' => by
    obtain ⟨boundE, hboundE, hmirrorsE⟩ := he.beside htags hke hke'
    obtain ⟨boundA, hboundA, hmirrorsA⟩ := harms.beside htags hka hka'
    exact ⟨_, .node rfl rfl (hboundE.cons hboundA), fun N hN hscope =>
      .matchWith hm (hmirrorsE N hN.left hscope) (hmirrorsA N hN.right hscope)⟩

theorem AlphaAll.beside (htags : (tags.map Prod.fst).Nodup) :
    ∀ {sides : Sides} {ns ns' ks ks' : List Node} {scope scope' : NameScope},
      AlphaAll sides ns ns' →
      RenamesAll tags scope ns ks → RenamesAll tags scope' ns' ks' →
      MirrorAllBeside tags scope scope' sides ks ks'
  | _, _, _, _, _, _, _, .nil, .nil, .nil => ⟨[], .nil, fun _ _ _ => .nil⟩
  | _, _, _, _, _, _, _, .cons hn hns, .cons hk hks, .cons hk' hks' => by
    obtain ⟨bound, hbound, hmirrors⟩ := hn.beside htags hk hk'
    obtain ⟨more, hmore, hmirrorAll⟩ := hns.beside htags hks hks'
    exact ⟨_, hbound.cons hmore, fun N hN hscope =>
      .cons (hmirrors N hN.left hscope) (hmirrorAll N hN.right hscope)⟩

theorem AlphaGroup.beside (htags : (tags.map Prod.fst).Nodup) :
    ∀ {sides : Sides} {ns ns' ks ks' : List Node} {scope scope' : NameScope}
      {pairs pairs' : List (String × String)}, AlphaGroup sides ns ns' →
      RenamesGroup tags scope pairs ns ks → RenamesGroup tags scope' pairs' ns' ks' →
      ∃ bound, BindersBeside ks ks' bound ∧
        (∀ N, Links tags N bound →
          List.Forall₂ (fun pair pair' => N pair.2 pair'.2) pairs pairs') ∧
        ∀ N, Links tags N bound → ScopesBeside N scope scope' sides → MirrorsAll N Anywhere ks ks'
  | _, _, _, _, _, _, _, _, _, .nil, .nil, .nil =>
    ⟨[], .nil, fun _ _ => .nil, fun _ _ _ => .nil⟩
  | _, _, _, _, _, _, _, _, _, .cons hm hbody hrest, .cons _ hkb hks, .cons _ hkb' hks' => by
    obtain ⟨bound, hbound, hmirrors⟩ := hbody.beside htags hkb hkb'
    obtain ⟨more, hmore, hnames, hmirrorAll⟩ := hrest.beside htags hks hks'
    refine ⟨_, .cons (.bindTwo rfl rfl hbound) hmore, fun N hN => ?_, fun N hN hscope => ?_⟩
    · exact .cons hN.left.head (hnames N hN.right)
    · have hx := hN.left.tail.head
      exact .cons (.letRecArm hm hN.left.head hx (hmirrors N hN.left.tail.tail (.binder hx hscope)))
        (hmirrorAll N hN.right hscope)

theorem AlphaArms.beside (htags : (tags.map Prod.fst).Nodup) :
    ∀ {sides : Sides} {ns ns' ks ks' : List Node} {scope scope' : NameScope},
      AlphaArms sides ns ns' → RenamesArms tags scope ns ks → RenamesArms tags scope' ns' ks' →
      MirrorAllBeside tags scope scope' sides ks ks'
  | _, _, _, _, _, _, _, .nil, .nil, .nil => ⟨[], .nil, fun _ _ _ => .nil⟩
  | _, _, _, _, _, _, _, .cons hm hp hbody hrest, .cons hq _ _ hkb hks,
    .cons hq' _ _ hkb' hks' => by
    obtain ⟨boundP, hboundP, hbeside⟩ := hp.beside htags hq hq'
    obtain ⟨boundB, hboundB, hmirrors⟩ := hbody.beside htags hkb hkb'
    obtain ⟨more, hmore, hmirrorAll⟩ := hrest.beside htags hks hks'
    refine ⟨_, .cons (.node rfl rfl (hboundP.cons hboundB)) hmore, fun N hN hscope => ?_⟩
    obtain ⟨hpattern, hinner⟩ := hbeside hN.left.left
    exact .cons (.matchArm hm hpattern (hmirrors N hN.left.right (hinner hscope)))
      (hmirrorAll N hN.right hscope)

end

end Renamed

/-! ## 5. Programs -/

/-- Names that stand for each other: binders that stand side by side, and every other name for
    itself. -/
def StandsFor (sides : Sides) (x x' : String) : Prop :=
  (x, x') ∈ sides ∨ x = x' ∧ x ∉ sides.map Prod.fst ∧ x' ∉ sides.map Prod.snd

/-- **A name stands for one name only**, when all binders have different names. -/
theorem StandsFor.biUnique {sides : Sides} (h : (sides.map Prod.fst).Nodup)
    (h' : (sides.map Prod.snd).Nodup) : Relator.BiUnique (StandsFor sides) := by
  constructor
  · rintro x y z (hx | ⟨rfl, hx, hx'⟩) (hy | ⟨rfl, hy, hy'⟩)
    · exact congrArg Prod.fst (List.inj_on_of_nodup_map h' hx hy rfl)
    · exact absurd (List.mem_map_of_mem hx) hy'
    · exact absurd (List.mem_map_of_mem hy) hx'
    · rfl
  · rintro x y z (hx | ⟨rfl, hx, hx'⟩) (hy | ⟨rfl, hy, hy'⟩)
    · exact congrArg Prod.snd (List.inj_on_of_nodup_map h hx hy rfl)
    · exact absurd (List.mem_map_of_mem hx) hy
    · exact absurd (List.mem_map_of_mem hy) hx
    · rfl

/-- **What resolution of a program has made**: the constructors are numbered in the order of their
    declaration and keep their names, and all binders have different names, which are words with
    numbers behind them. -/
theorem IsProgram.resolveNames_made {n named : Node} (hn : IsProgram n)
    (h : n.resolveNames = .ok named) :
    RenamesProgram n.allConstructors.zipIdx n named ∧
      named.allConstructors = n.allConstructors ∧ n.allConstructors.Nodup ∧
      (∀ c ∈ n.allConstructors, IsWord c) ∧
      named.binders.Nodup ∧ ∀ x ∈ named.binders, ∃ y, IsWord y ∧ ∃ k, x = numbered y k := by
  cases hn with
  | @mk m e he =>
    obtain ⟨e', r, rfl, hrun⟩ := runs_resolveNames h
    have henters : EntersTree .empty r (.top m e') :=
      .of_all (resolve_enters he hrun).all rfl rfl rfl
    have hknown : Known Registry.empty .empty := fun b hb => absurd hb List.not_mem_nil
    obtain ⟨new, hresolves⟩ := Renames.of_run he hknown hrun
    have hrenames := hresolves.renames new (List.Subset.refl _) (List.nil_subset _)
    have hsame : (Node.top m e').allConstructors = (Node.top m e).allConstructors := by
      rw [← allConstructors_nameless, ← allConstructors_nameless (.top m e)]
      exact congrArg (fun e => (Node.top m e).allConstructors) hrenames.nameless_eq
    have hnames : new.map Prod.fst = (Node.top m e).allConstructors := by
      have hentered := hresolves.grows.constructors.symm.trans henters.constructors
      exact (List.reverse_injective (List.append_cancel_right hentered)).trans hsame
    have hnew : new = (Node.top m e).allConstructors.zipIdx := by
      rw [List.zipIdx_eq_zip_range']
      refine List.zip_of_prod hnames ?_
      rw [hresolves.grows.tags, ← hnames, List.length_map]
      rfl
    have hdistinct := hresolves.grows.distinct List.nodup_nil
    rw [henters.constructors, Registry.empty, List.append_nil, hsame] at hdistinct
    refine ⟨hnew ▸ .mk hrenames, hsame, (List.reverse_perm _).nodup_iff.1 hdistinct,
      fun c hc => henters.words c (hsame ▸ hc), henters.names.nodup, fun x hx => ?_⟩
    obtain ⟨y, hy, k, -, -, rfl⟩ := henters.names.made x hx
    exact ⟨y, hy, k, rfl⟩

/-- **Programs that are the same up to names mirror each other** when their names are resolved. A
    new name stands for one name only, and names that programs and passes write for themselves. -/
theorem Node.AlphaEquivalent.resolveNames_mirrors {n n' named named' : Node}
    (h : n.AlphaEquivalent n') (hn : IsProgram n) (hn' : IsProgram n')
    (hnamed : n.resolveNames = .ok named) (hnamed' : n'.resolveNames = .ok named') :
    ∃ N : String → String → Prop, Relator.BiUnique N ∧ (∀ x, '#' ∉ x.toList → N x x) ∧
      named.Mirrors N Anywhere named' := by
  obtain ⟨hrenames, -, hdistinct, hconstructors, hnodup, hmade⟩ := hn.resolveNames_made hnamed
  obtain ⟨hrenames', -, -, -, hnodup', hmade'⟩ := hn'.resolveNames_made hnamed'
  have hhash : ∀ {x : String}, (∃ y, IsWord y ∧ ∃ k, x = numbered y k) → '#' ∈ x.toList := by
    rintro _ ⟨y, -, k, rfl⟩
    exact hash_mem_numbered y k
  cases h with
  | @mk m m' e e' hm he =>
    have hsame : (Node.top m e).allConstructors = (Node.top m' e').allConstructors :=
      (Mirrors.top hm he.mirrors).allConstructors_eq
    rw [← hsame] at hrenames'
    cases hrenames with | mk hk => ?_
    cases hrenames' with | mk hk' => ?_
    have htags : ((Node.top m e).allConstructors.zipIdx.map Prod.fst).Nodup := by
      rwa [List.zipIdx_map_fst]
    obtain ⟨sides, hsides, hmirrors⟩ := he.beside htags hk hk'
    have htop : BindersBeside [.top m _] [.top m' _] sides := .node rfl rfl hsides
    have hleft := htop.left
    have hright := htop.right
    rw [List.flatMap_singleton] at hleft hright
    have hself : ∀ x, '#' ∉ x.toList → StandsFor sides x x := fun x hx =>
      .inr ⟨rfl, fun hmem => hx (hhash (hmade x (hleft ▸ hmem))),
        fun hmem => hx (hhash (hmade' x (hright ▸ hmem)))⟩
    refine ⟨StandsFor sides, StandsFor.biUnique (hleft ▸ hnodup) (hright ▸ hnodup'), hself,
      .top hm (hmirrors _ ⟨fun entry hentry => ?_, fun _ hpair => .inl hpair⟩ .empty)⟩
    have hmem := List.mem_map_of_mem (f := Prod.fst) hentry
    rw [List.zipIdx_map_fst] at hmem
    exact hself _ (hconstructors _ hmem).not_hash

end ClosureML
