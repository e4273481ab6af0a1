import ClosureML.Syntax.Node

/-!
# What passes write into a tree, taken out again

Inference writes types into the marks of a tree, and numbers of elements into its projections.

* `Node.map` changes every node, from the leaves upward;
* `Node.bare` is the tree without marks, `Node.unsized` the tree whose projections record no number
  of elements, `Node.plain` the tree without either, `Node.plainBy` the one that may keep positions.

Main statements: `bare_mapMarks` and `plain_mapMarks` (types in the marks do not show).
-/

namespace ClosureML

namespace Node

/-! ## 1. Changing every node -/

/-- The tree in which every node is changed by `f`, its children first. -/
def map (f : Node → Node) (n : Node) : Node := Id.run (n.rebuild fun n => pure (f n))

/-- The trees in which every node is changed by `f`. -/
def mapAll (f : Node → Node) (ns : List Node) : List Node :=
  Id.run (rebuildAll (fun n => pure (f n)) ns)

theorem mapAll_cons (f : Node → Node) (n : Node) (ns : List Node) :
    mapAll f (n :: ns) = n.map f :: mapAll f ns := rfl

/-- Several trees are changed one by one. -/
theorem mapAll_eq_map (f : Node → Node) (ns : List Node) : mapAll f ns = ns.map (map f) := by
  induction ns with
  | nil => rfl
  | cons n ns ih => rw [mapAll_cons, ih, List.map_cons]

/-! ## 2. Trees without marks -/

/-- The tree without marks. -/
def bare (n : Node) : Node := n.mapMarks fun _ => default

/-- The trees without marks. -/
def bareAll (ns : List Node) : List Node := mapAllMarks (fun _ => default) ns

mutual

/-- Two changes of the marks in a row are one. -/
theorem mapMarks_mapMarks (f g : Mark → Mark) :
    ∀ n : Node, (n.mapMarks f).mapMarks g = n.mapMarks (g ∘ f)
  | top _ e => by simp [mapMarks, mapMarks_mapMarks f g e]
  | literal .. | reference .. | builtin .. | dataConstructor .. | patternBinder ..
  | patternLiteral .. | indexed .. => by simp [mapMarks]
  | lambda _ _ _ body => by simp [mapMarks, mapMarks_mapMarks f g body]
  | application _ h e => by simp [mapMarks, mapMarks_mapMarks f g h, mapMarks_mapMarks f g e]
  | letIn _ _ _ value body => by
    simp [mapMarks, mapMarks_mapMarks f g value, mapMarks_mapMarks f g body]
  | letRec _ arms body => by
    simp [mapMarks, mapAllMarks_mapAllMarks f g arms, mapMarks_mapMarks f g body]
  | letRecArm _ _ _ _ _ body => by simp [mapMarks, mapMarks_mapMarks f g body]
  | conditional _ c t e => by
    simp [mapMarks, mapMarks_mapMarks f g c, mapMarks_mapMarks f g t, mapMarks_mapMarks f g e]
  | binary _ _ l r => by simp [mapMarks, mapMarks_mapMarks f g l, mapMarks_mapMarks f g r]
  | unary _ _ e => by simp [mapMarks, mapMarks_mapMarks f g e]
  | sequence _ es => by simp [mapMarks, mapAllMarks_mapAllMarks f g es]
  | tuple _ es => by simp [mapMarks, mapAllMarks_mapAllMarks f g es]
  | projection _ _ _ e => by simp [mapMarks, mapMarks_mapMarks f g e]
  | matchWith _ e arms => by
    simp [mapMarks, mapMarks_mapMarks f g e, mapAllMarks_mapAllMarks f g arms]
  | matchArm _ p body => by simp [mapMarks, mapMarks_mapMarks f g p, mapMarks_mapMarks f g body]
  | dataType _ _ cs body => by
    simp [mapMarks, mapAllMarks_mapAllMarks f g cs, mapMarks_mapMarks f g body]
  | patternTuple _ ps => by simp [mapMarks, mapAllMarks_mapAllMarks f g ps]
  | patternConstructor _ _ ps _ => by simp [mapMarks, mapAllMarks_mapAllMarks f g ps]

theorem mapAllMarks_mapAllMarks (f g : Mark → Mark) :
    ∀ ns : List Node, mapAllMarks g (mapAllMarks f ns) = mapAllMarks (g ∘ f) ns
  | [] => by simp [mapAllMarks]
  | n :: ns => by simp [mapAllMarks, mapMarks_mapMarks f g n, mapAllMarks_mapAllMarks f g ns]

end

/-- Changing the marks does not change the tree without them. -/
@[simp] theorem bare_mapMarks (f : Mark → Mark) (n : Node) : (n.mapMarks f).bare = n.bare :=
  mapMarks_mapMarks f _ n

/-! ## 3. Projections without numbers of elements -/

/-- A projection without the number of elements; any other node as it is. -/
def unsizedNode : Node → Node
  | projection m index _ target => projection m index none target
  | other => other

/-- The tree whose projections record no number of elements. -/
def unsized (n : Node) : Node := n.map unsizedNode

/-- The trees whose projections record no number of elements. -/
def unsizedAll (ns : List Node) : List Node := mapAll unsizedNode ns

/-- The tree without what inference writes into it. -/
def plain (n : Node) : Node := n.bare.unsized

@[simp] theorem plain_mapMarks (f : Mark → Mark) (n : Node) : (n.mapMarks f).plain = n.plain := by
  rw [plain, bare_mapMarks, plain]

/-- The tree without what inference writes into it, where the marks are made from their
    positions. -/
def plainBy (f : Position → Mark) (n : Node) : Node := (n.mapMarks fun m => f m.position).unsized

/-- The trees without what inference writes into them, where the marks are made from their
    positions. -/
def plainAllBy (f : Position → Mark) (ns : List Node) : List Node :=
  unsizedAll (mapAllMarks (fun m => f m.position) ns)

/-- Marks that keep their positions do not show. -/
theorem plainBy_mapMarks (f : Position → Mark) {g : Mark → Mark}
    (hg : ∀ m, (g m).position = m.position) (n : Node) :
    (n.mapMarks g).plainBy f = n.plainBy f := by
  have hmarks : (fun m => f m.position) ∘ g = fun m => f m.position :=
    funext fun m => congrArg f (hg m)
  rw [plainBy, mapMarks_mapMarks, hmarks, plainBy]

/-- The trees without what inference writes into them. -/
def plainAll (ns : List Node) : List Node := unsizedAll (bareAll ns)

theorem plainAll_cons (n : Node) (ns : List Node) :
    plainAll (n :: ns) = n.plain :: plainAll ns := rfl

theorem plain_top (m : Mark) (e : Node) : (top m e).plain = top default e.plain := rfl

theorem plain_literal (m : Mark) (v : Literal) : (literal m v).plain = literal default v := rfl

theorem plain_reference (m : Mark) (x : String) : (reference m x).plain = reference default x := rfl

theorem plain_builtin (m : Mark) (b : Builtin) : (builtin m b).plain = builtin default b := rfl

theorem plain_lambda (m : Mark) (x : String) (a : Option TypeExpr) (body : Node) :
    (lambda m x a body).plain = lambda default x a body.plain := rfl

theorem plain_application (m : Mark) (g e : Node) :
    (application m g e).plain = application default g.plain e.plain := rfl

theorem plain_letIn (m : Mark) (x : String) (a : Option TypeExpr) (value body : Node) :
    (letIn m x a value body).plain = letIn default x a value.plain body.plain := rfl

theorem plain_letRec (m : Mark) (arms : List Node) (body : Node) :
    (letRec m arms body).plain = letRec default (plainAll arms) body.plain := rfl

theorem plain_letRecArm (m : Mark) (f x : String) (pa ra : Option TypeExpr) (body : Node) :
    (letRecArm m f x pa ra body).plain = letRecArm default f x pa ra body.plain := rfl

theorem plain_conditional (m : Mark) (c t e : Node) :
    (conditional m c t e).plain = conditional default c.plain t.plain e.plain := rfl

theorem plain_binary (m : Mark) (o : BinaryOperator) (l r : Node) :
    (binary m o l r).plain = binary default o l.plain r.plain := rfl

theorem plain_unary (m : Mark) (o : UnaryOperator) (e : Node) :
    (unary m o e).plain = unary default o e.plain := rfl

theorem plain_sequence (m : Mark) (es : List Node) :
    (sequence m es).plain = sequence default (plainAll es) := rfl

theorem plain_tuple (m : Mark) (es : List Node) :
    (tuple m es).plain = tuple default (plainAll es) := rfl

theorem plain_projection (m : Mark) (i : Nat) (n : Option Nat) (e : Node) :
    (projection m i n e).plain = projection default i none e.plain := rfl

theorem plain_matchWith (m : Mark) (e : Node) (arms : List Node) :
    (matchWith m e arms).plain = matchWith default e.plain (plainAll arms) := rfl

theorem plain_matchArm (m : Mark) (p body : Node) :
    (matchArm m p body).plain = matchArm default p.plain body.plain := rfl

theorem plain_dataType (m : Mark) (d : String) (cs : List Node) (body : Node) :
    (dataType m d cs body).plain = dataType default d (plainAll cs) body.plain := rfl

theorem plain_dataConstructor (m : Mark) (c : String) (ts : List TypeExpr) (tag : Option Nat) :
    (dataConstructor m c ts tag).plain = dataConstructor default c ts tag := rfl

theorem plain_patternBinder (m : Mark) (x : String) :
    (patternBinder m x).plain = patternBinder default x := rfl

theorem plain_patternTuple (m : Mark) (ps : List Node) :
    (patternTuple m ps).plain = patternTuple default (plainAll ps) := rfl

theorem plain_patternLiteral (m : Mark) (v : Literal) :
    (patternLiteral m v).plain = patternLiteral default v := rfl

theorem plain_patternConstructor (m : Mark) (c : String) (ps : List Node) (tag : Option Nat) :
    (patternConstructor m c ps tag).plain = patternConstructor default c (plainAll ps) tag := rfl

end Node

end ClosureML
