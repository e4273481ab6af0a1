import ClosureML.Proofs.Names.Binding
import ClosureML.Proofs.Syntax.Levels
import Mathlib.Data.List.Induction

/-!
# Rules of scope

What the language demands of the names in a tree: references, constructors in patterns and data
types in type expressions name something that is declared around them; no group of functions has a
name twice, nor a pattern, apart from `_`; and in the whole program no two data types and no two
constructors have the same name.

* `View` are the names that can be seen at some place, by what they stand for;
* `Demand` is what a rule demands at some node, `Node.demands` are the demands in a tree;
* `Node.introduced`: the data types and constructors that are declared anywhere in a tree;
* `Node.WellScoped`: a tree that keeps the rules, and `Node.BreaksRuleAt`: a position at which it
  breaks one.

Main statement: `Node.wellScoped_iff` (a tree keeps the rules when it breaks none at any position).
-/

namespace ClosureML

/-! ## 1. What can be seen -/

/-- The names that can be seen at some place: of values, which are variables and constructors, of
    constructors, which patterns may name, and of data types. -/
structure View where
  values : List String
  constructors : List String
  dataTypes : List String

namespace View

/-- Around a program, nothing can be seen. -/
def empty : View := ⟨[], [], []⟩

/-- What can be seen inside binders of variables, the last of them innermost. -/
def bind (v : View) (xs : List String) : View := { v with values := xs.reverse ++ v.values }

/-- What can be seen inside a declaration of constructors. -/
def construct (v : View) (cs : List String) : View :=
  { v with values := cs.reverse ++ v.values, constructors := cs.reverse ++ v.constructors }

/-- What can be seen inside a data type. -/
def declare (v : View) (d : String) : View := { v with dataTypes := d :: v.dataTypes }

theorem bind_bind (v : View) (xs ys : List String) : (v.bind xs).bind ys = v.bind (xs ++ ys) := by
  simp [bind]

theorem construct_construct (v : View) (cs ds : List String) :
    (v.construct cs).construct ds = v.construct (cs ++ ds) := by
  simp [construct]

end View

mutual

/-- The data types that a type expression names. -/
def TypeExpr.mentioned : TypeExpr → List String
  | .base _ => []
  | .named d => [d]
  | .function parameter result => parameter.mentioned ++ result.mentioned
  | .tuple elements => TypeExpr.mentionedIn elements

/-- The data types that several type expressions name. -/
def TypeExpr.mentionedIn : List TypeExpr → List String
  | [] => []
  | t :: ts => t.mentioned ++ TypeExpr.mentionedIn ts

end

/-! ## 2. Demands -/

/-- What a rule demands at the node with a position. `visible`: all of the names can be seen there.
    `distinct`: the name is none of those that stand before it in the same group or pattern. -/
inductive Demand where
  | visible (position : Position) (names seen : List String)
  | distinct (position : Position) (name : String) (before : List String)

namespace Demand

/-- The position of the node. -/
def position : Demand → Position
  | visible p _ _ => p
  | distinct p _ _ => p

/-- The demand is met. -/
def Met : Demand → Prop
  | visible _ names seen => ∀ x ∈ names, x ∈ seen
  | distinct _ name before => name ∉ before

instance : ∀ d : Demand, Decidable d.Met
  | visible _ names seen => inferInstanceAs (Decidable (∀ x ∈ names, x ∈ seen))
  | distinct _ name before => inferInstanceAs (Decidable (name ∉ before))

end Demand

namespace Node

open Demand (visible distinct)

mutual

/-- The demands of a pattern, around which `constructors` can be seen. `before` are the names that
    the patterns before it have bound. -/
def patternDemands (constructors before : List String) : Node → List Demand
  | patternBinder m x => if x = "_" then [] else [distinct m.position x before]
  | patternTuple _ ps => patternDemandsAll constructors before ps
  | patternConstructor m c ps _ =>
    visible m.position [c] constructors :: patternDemandsAll constructors before ps
  | _ => []

/-- The demands of patterns that stand side by side. -/
def patternDemandsAll (constructors before : List String) : List Node → List Demand
  | [] => []
  | p :: ps =>
    p.patternDemands constructors before ++
      patternDemandsAll constructors (p.patternNames.reverse ++ before) ps

end

/-- The functions of a group have different names. `before` are the names of those before. -/
def functionDemands (before : List String) : List Node → List Demand
  | letRecArm m f _ _ _ _ :: rest =>
    distinct m.position f before :: functionDemands (f :: before) rest
  | _ :: rest => functionDemands before rest
  | [] => []

/-- The parameters of constructors have types that are declared around them. -/
def constructorDemands (dataTypes : List String) : List Node → List Demand
  | dataConstructor m _ parameters _ :: rest =>
    visible m.position (TypeExpr.mentionedIn parameters) dataTypes ::
      constructorDemands dataTypes rest
  | _ :: rest => constructorDemands dataTypes rest
  | [] => []

mutual

/-- **The demands in a tree**, where `v` can be seen around it. The value of a `let` does not see
    the variable; ascriptions see what can be seen around their node; the parameters of constructors
    see the data type, but only what follows a data type sees the constructors; binders of a pattern
    are seen in its arm. -/
def demands (v : View) : Node → List Demand
  | reference m x => [visible m.position [x] v.values]
  | lambda m x a body =>
    visible m.position (TypeExpr.mentionedIn a.toList) v.dataTypes :: body.demands (v.bind [x])
  | letIn m x a value body =>
    visible m.position (TypeExpr.mentionedIn a.toList) v.dataTypes ::
      (value.demands v ++ body.demands (v.bind [x]))
  | letRec _ arms body =>
    functionDemands [] arms ++ (groupDemands v (v.bind (functionNames arms)) arms ++
      body.demands (v.bind (functionNames arms)))
  | dataType _ d cs body =>
    constructorDemands (v.declare d).dataTypes cs ++
      body.demands ((v.declare d).construct (constructorNames cs))
  | matchArm _ p body => p.patternDemands v.constructors [] ++ body.demands (v.bind p.patternNames)
  | top _ e => e.demands v
  | application _ f a => f.demands v ++ a.demands v
  | conditional _ c t e => c.demands v ++ (t.demands v ++ e.demands v)
  | binary _ _ l r => l.demands v ++ r.demands v
  | unary _ _ e => e.demands v
  | sequence _ es => demandsAll v es
  | tuple _ es => demandsAll v es
  | projection _ _ _ e => e.demands v
  | matchWith _ e arms => e.demands v ++ demandsAll v arms
  | letRecArm .. | literal .. | builtin .. | dataConstructor .. | patternBinder ..
  | patternTuple .. | patternLiteral .. | patternConstructor .. | indexed .. => []

/-- The demands in trees that stand side by side. -/
def demandsAll (v : View) : List Node → List Demand
  | [] => []
  | n :: ns => n.demands v ++ demandsAll v ns

/-- The demands in the functions of a group: `v` can be seen around it, and `group` inside it. -/
def groupDemands (v group : View) : List Node → List Demand
  | letRecArm m _ x pa ra body :: rest =>
    visible m.position (TypeExpr.mentionedIn (pa.toList ++ ra.toList)) v.dataTypes ::
      (body.demands (group.bind [x]) ++ groupDemands v group rest)
  | _ :: rest => groupDemands v group rest
  | [] => []

end

end Node

/-! ## 3. Declarations -/

/-- In a list of named things with a name twice, some thing has the name of one before it. -/
theorem exists_repeated {α β : Type} {l : List (α × β)} (h : ¬ (l.map Prod.snd).Nodup) :
    ∃ front a b back, l = front ++ (a, b) :: back ∧ b ∈ front.map Prod.snd := by
  induction l using List.reverseRecOn with
  | nil => exact absurd List.nodup_nil h
  | append_singleton l last ih =>
    by_cases hl : (l.map Prod.snd).Nodup
    · refine ⟨l, last.1, last.2, [], rfl, ?_⟩
      by_contra hlast
      rw [List.map_append, List.map_singleton] at h
      exact h (List.nodup_append.2 ⟨hl, List.pairwise_singleton _ _, fun b hb c hc heq =>
        hlast (List.mem_singleton.1 hc ▸ heq ▸ hb)⟩)
    · obtain ⟨front, a, b, back, rfl, hb⟩ := ih hl
      exact ⟨front, a, b, back ++ [last], by simp, hb⟩

/-- What a program declares once. -/
inductive Entity where
  | dataType (name : String)
  | constructor (name : String)
  deriving DecidableEq, Repr

namespace Node

/-- What a node itself declares, with its position. -/
def introducedHere : Node → List (Position × Entity)
  | dataType m d _ _ => [(m.position, .dataType d)]
  | dataConstructor m c _ _ => [(m.position, .constructor c)]
  | _ => []

/-- The data types and constructors that are declared anywhere in a tree, from left to right. -/
def introduced (n : Node) : List (Position × Entity) := n.collect introducedHere

/-- Those that are declared in several trees. -/
def introducedAll (ns : List Node) : List (Position × Entity) := ns.flatMap introduced

/-- What is declared in a tree is declared at its root or in its children. -/
theorem introduced_eq (n : Node) : n.introduced = n.introducedHere ++ introducedAll n.children :=
  collect_eq introducedHere n

@[simp] theorem introducedAll_nil : introducedAll [] = [] := rfl

@[simp] theorem introducedAll_cons (n : Node) (ns : List Node) :
    introducedAll (n :: ns) = n.introduced ++ introducedAll ns := rfl

@[simp] theorem introducedAll_append (ns more : List Node) :
    introducedAll (ns ++ more) = introducedAll ns ++ introducedAll more :=
  List.flatMap_append


/-! ## 4. Programs -/

/-- A program that keeps the rules of scope. -/
structure WellScoped (n : Node) : Prop where
  met : ∀ d ∈ n.demands .empty, d.Met
  distinct : (n.introduced.map Prod.snd).Nodup

instance (n : Node) : Decidable n.WellScoped :=
  decidable_of_iff ((∀ d ∈ n.demands .empty, d.Met) ∧ (n.introduced.map Prod.snd).Nodup)
    ⟨fun ⟨h, h'⟩ => ⟨h, h'⟩, fun ⟨h, h'⟩ => ⟨h, h'⟩⟩

/-- A program breaks a rule of scope at a position: a demand at a node there is not met, or a node
    there declares what was declared before it. -/
def BreaksRuleAt (n : Node) (p : Position) : Prop :=
  (∃ d ∈ n.demands .empty, d.position = p ∧ ¬ d.Met) ∨
    ∃ front e back, n.introduced = front ++ (p, e) :: back ∧ e ∈ front.map Prod.snd

/-- **A program keeps the rules of scope** when it breaks none at any position. -/
theorem wellScoped_iff {n : Node} : n.WellScoped ↔ ∀ p, ¬ n.BreaksRuleAt p := by
  constructor
  · rintro h p (⟨d, hd, -, hunmet⟩ | ⟨front, e, back, hlist, he⟩)
    · exact hunmet (h.met d hd)
    · have hdistinct := h.distinct
      rw [hlist, List.map_append, List.map_cons] at hdistinct
      exact (List.nodup_append.1 hdistinct).2.2 e he e List.mem_cons_self rfl
  · refine fun h => ⟨fun d hd => ?_, ?_⟩
    · by_contra hunmet
      exact h d.position (.inl ⟨d, hd, rfl, hunmet⟩)
    · by_contra hrepeated
      obtain ⟨front, p, e, back, hlist, he⟩ := exists_repeated hrepeated
      exact h p (.inr ⟨front, e, back, hlist, he⟩)

end Node

end ClosureML
