import ClosureML.Proofs.Names.Binding
import ClosureML.Proofs.Syntax.Levels
import Mathlib.Data.List.Perm.Basic

/-!
# What the references of a tree mean

A reference means the innermost binder or constructor of its name that can be seen from where it
stands. In a tree whose names are all in scope there is one for each reference.

* `Node.at?` is the node that a way leads to, `Node.nameAt` the name of what can be referred to;
* `Node.meanings` are the references of a program, each with what it means;
* `Node.names`: the names that a tree gives to something, and `Node.references`: its references as
  they stand in it;
* `Sees root visible names`: what can be seen at a place bears its name in the tree, and `names` are
  among it.

Main statements: `IsRoot.meanings_eq` (every reference has a binder of its name) and
`meanings_plainBy` (types and numbers of elements do not matter).
-/

namespace ClosureML

/-- What a reference means: where it stands, its name, and the name of the binder or constructor
    that it refers to. -/
structure Meaning where
  position : Option Position
  name : String
  referent : Option String
  deriving DecidableEq

/-- The meaning of a reference that refers to something of its name. -/
def Meaning.proper (reference : Position × String) : Meaning :=
  ⟨some reference.1, reference.2, some reference.2⟩

namespace Node

/-! ## 1. Places in a tree -/

/-- The node that a way leads to. -/
def at? (n : Node) : Path → Option Node
  | [] => some n
  | i :: path => (n.at? path).bind fun node => node.children[i]?

/-- The name of what can be referred to in a tree. -/
def nameAt (n : Node) : Referent → Option String
  | .binder path number => (n.at? path).bind fun node => node.bound[number]?
  | .constructor path => (n.at? path).bind fun node => node.declaredName.head?

/-- What a reference in the tree means. -/
def meaning (n : Node) (u : Use) : Meaning :=
  ⟨(n.at? u.node).map position, u.name, (u.visible.lookup u.name).bind n.nameAt⟩

/-- The references of a program, from left to right, with what they mean. -/
def meanings (n : Node) : List Meaning := (n.uses [] []).map n.meaning

/-- The reference that a node is. -/
def referenceHere : Node → List (Position × String)
  | reference m x => [(m.position, x)]
  | _ => []

/-- The references that stand in a tree. -/
def references (n : Node) : List (Position × String) := n.collect referenceHere

/-- The names that a node itself gives to something. -/
def namesHere (n : Node) : List String := n.bound ++ n.declaredName

/-- The names that are given in a tree: those of binders and of constructors. -/
def names (n : Node) : List String := n.collect namesHere

section Places

variable {root n : Node} {path : Path} {x : String}

/-- What is found at a place is found in the tree. -/
theorem mem_collect_of_at? {α : Type} {f : Node → List α} {a : α} : ∀ {path : Path} {n : Node},
    root.at? path = some n → a ∈ n.collect f → a ∈ root.collect f
  | [], _, hat, ha => by
    cases hat
    exact ha
  | i :: path, n, hat, ha => by
    obtain ⟨parent, hparent, hchild⟩ := Option.bind_eq_some_iff.1 hat
    refine mem_collect_of_at? hparent ?_
    rw [collect_eq]
    exact List.mem_append_right _ (List.mem_flatMap.2 ⟨n, List.mem_of_getElem? hchild, ha⟩)

/-- The names of a tree are those of its binders and those of its constructors. -/
theorem names_perm (n : Node) : n.names.Perm (n.binders ++ n.allConstructors) := by
  induction n using Node.induction with | h n ih => ?_
  have hchildren := (List.Perm.flatMap_left _ ih).trans
    (List.flatMap_append_perm n.children binders allConstructors).symm
  calc n.names
      = n.bound ++ (n.declaredName ++ n.children.flatMap names) :=
        (collect_eq _ n).trans (List.append_assoc _ _ _)
    List.Perm _ (n.bound ++ (n.declaredName ++
        (n.children.flatMap binders ++ n.children.flatMap allConstructors))) :=
      (hchildren.append_left _).append_left _
    List.Perm _ (n.bound ++ (n.children.flatMap binders ++
        (n.declaredName ++ n.children.flatMap allConstructors))) :=
      (List.perm_append_comm_assoc _ _ _).append_left _
    _ = n.binders ++ n.allConstructors := by
      rw [binders, allConstructors, collect_eq, collect_eq, List.append_assoc]
      rfl

/-- What can be referred to has one of the names of the tree. -/
theorem mem_names_of_nameAt {r : Referent} (h : root.nameAt r = some x) : x ∈ root.names := by
  have hnode : ∃ path node, root.at? path = some node ∧ x ∈ node.namesHere := by
    cases r with
    | binder path number =>
      obtain ⟨node, hat, hx⟩ := Option.bind_eq_some_iff.1 h
      exact ⟨path, node, hat, List.mem_append_left _ (List.mem_of_getElem? hx)⟩
    | constructor path =>
      obtain ⟨node, hat, hx⟩ := Option.bind_eq_some_iff.1 h
      exact ⟨path, node, hat, List.mem_append_right _ (List.mem_of_head? hx)⟩
  obtain ⟨path, node, hat, hx⟩ := hnode
  refine mem_collect_of_at? hat ?_
  rw [collect_eq]
  exact List.mem_append_left _ hx

/-- What a reference of a program refers to has one of the names of the program. -/
theorem mem_names_of_mem_meanings {r : Meaning} (hr : r ∈ n.meanings) (hx : r.referent = some x) :
    x ∈ n.names := by
  obtain ⟨u, -, rfl⟩ := List.mem_map.1 hr
  obtain ⟨s, -, hs⟩ := Option.bind_eq_some_iff.1 hx
  exact mem_names_of_nameAt hs

/-- Trees stand in another one below a node, from child number `i` on. -/
def HasBelow (root : Node) (path : Path) : Nat → List Node → Prop
  | _, [] => True
  | i, n :: ns => root.at? (i :: path) = some n ∧ HasBelow root path (i + 1) ns

theorem hasBelow_append {i : Nat} {ns ms : List Node} : HasBelow root path i (ns ++ ms) ↔
    HasBelow root path i ns ∧ HasBelow root path (i + ns.length) ms := by
  induction ns generalizing i with
  | nil => simp [HasBelow]
  | cons n ns ih => simp [HasBelow, ih, and_assoc, Nat.add_comm 1, Nat.add_assoc]

/-- The children of a node stand below it. -/
theorem hasBelow_children (hat : root.at? path = some n) : HasBelow root path 0 n.children := by
  have hdrop : ∀ {ns : List Node} {i : Nat}, n.children.drop i = ns → HasBelow root path i ns := by
    intro ns
    induction ns with
    | nil => exact fun _ => trivial
    | cons c ns ih =>
      intro i h
      have hchild : n.children[i]? = some c := by
        rw [← Nat.add_zero i, ← List.getElem?_drop, h]
        rfl
      have hmore : n.children.drop (i + 1) = ns := by rw [← List.tail_drop, h, List.tail_cons]
      exact ⟨Option.bind_eq_some_iff.2 ⟨n, hat, hchild⟩, ih hmore⟩
  exact hdrop (List.drop_zero)

end Places

end Node

open Node

/-! ## 2. What can be seen -/

/-- What can be seen at a place bears its name in the tree, and all of `names` can be seen. -/
structure Sees (root : Node) (visible : Visible) (names : List String) : Prop where
  named : ∀ entry ∈ visible, root.nameAt entry.2 = some entry.1
  covers : ∀ x ∈ names, ∃ r, visible.lookup x = some r

section Scopes

variable {root : Node} {visible : Visible} {names names' : List String} {path : Path} {i : Nat}
  {tags : List (String × Nat)} {P : String → Prop} {L : Level}

theorem sees_nil : Sees root [] [] := ⟨nofun, nofun⟩

namespace Sees

theorem mono (h : Sees root visible names) (hsub : names' ⊆ names) : Sees root visible names' :=
  ⟨h.named, fun x hx => h.covers x (hsub hx)⟩

theorem cons (h : Sees root visible names) {x : String} {r : Referent}
    (hx : root.nameAt r = some x) : Sees root ((x, r) :: visible) (x :: names) where
  named := List.forall_mem_cons.2 ⟨hx, h.named⟩
  covers y hy := by
    by_cases hyx : y = x
    · exact ⟨r, by rw [hyx, List.lookup_cons_self]⟩
    · obtain ⟨s, hs⟩ := h.covers y ((List.mem_cons.1 hy).resolve_left hyx)
      exact ⟨s, by rwa [List.lookup_cons, beq_false_of_ne hyx]⟩

/-- A name in scope refers to something of this name. -/
theorem lookup (h : Sees root visible names) {x : String} (hx : x ∈ names) :
    (visible.lookup x).bind root.nameAt = some x := by
  obtain ⟨r, hr⟩ := h.covers x hx
  obtain ⟨front, back, hvisible, -⟩ := List.lookup_eq_some_iff.1 hr
  rw [hr]
  exact h.named (x, r) (hvisible ▸ List.mem_append_right _ List.mem_cons_self)

end Sees

/-- The name that a node binds with a number is found at its place. -/
theorem nameAt_binder {n : Node} {number : Nat} {x : String} (hat : root.at? path = some n)
    (hx : n.bound[number]? = some x) : root.nameAt (.binder path number) = some x :=
  Option.bind_eq_some_iff.2 ⟨n, hat, hx⟩

mutual

/-- Behind a pattern its binders can be seen. -/
theorem IsTaggedPattern.sees : ∀ {p : Node} {visible : Visible} {names : List String} {path : Path},
    IsTaggedPattern tags p → root.at? path = some p → Sees root visible names →
      Sees root (p.visibleBehind visible path) (p.patternNames ++ names)
  | _, _, _, _, .binder, hat, h => h.cons (nameAt_binder hat rfl)
  | _, _, _, _, .literal, _, h => h
  | _, _, _, _, .tuple hps, hat, h => hps.sees (hasBelow_children hat) h
  | _, _, _, _, .constructor _ hps, hat, h => hps.sees (hasBelow_children hat) h

theorem AreTaggedPatterns.sees : ∀ {ps : List Node} {visible : Visible} {names : List String}
    {path : Path} {i : Nat}, AreTaggedPatterns tags ps → HasBelow root path i ps →
      Sees root visible names →
        Sees root (visibleBehindAll visible path i ps) (patternNamesAll ps ++ names)
  | _, _, _, _, _, .nil, _, h => h
  | p :: ps, visible, names, path, i, .cons hp hps, ⟨hat, hbelow⟩, h => by
    refine (hps.sees hbelow (hp.sees hat h)).mono fun x hx => ?_
    rw [patternNamesAll] at hx
    simpa [or_left_comm, or_assoc] using hx

end

/-- Inside a group of functions they can be seen. -/
theorem AreFunctions.sees : ∀ {arms : List Node} {visible : Visible} {names outer : List String}
    {i : Nat}, AreFunctions tags P L outer arms → HasBelow root path i arms →
      Sees root visible names →
      Sees root (visibleInGroup visible path i arms) (functionNames arms ++ names)
  | _, _, _, _, _, .nil, _, h => h
  | _, _, names, _, _, @AreFunctions.cons _ _ _ _ m f x pa ra body rest _ hrest, ⟨hat, hbelow⟩,
    h => by
    refine (hrest.sees hbelow (h.cons (nameAt_binder hat rfl))).mono fun y hy => ?_
    have hnames : functionNames (.letRecArm m f x pa ra body :: rest) = f :: functionNames rest :=
      rfl
    rw [hnames] at hy
    simpa [or_left_comm, or_assoc] using hy

/-- Behind the constructors of a data type they can be seen. -/
theorem AreTaggedConstructors.sees : ∀ {cs : List Node} {visible : Visible} {names : List String}
    {i : Nat}, AreTaggedConstructors tags cs → HasBelow root path i cs → Sees root visible names →
      Sees root (visibleBehindConstructors visible path i cs) (constructorNames cs ++ names)
  | _, _, _, _, .nil, _, h => h
  | _, _, names, _, @AreTaggedConstructors.cons _ m c parameters tag cs _ hcs, ⟨hat, hbelow⟩,
      h => by
    have hc : root.nameAt (.constructor (_ :: path)) = some c :=
      Option.bind_eq_some_iff.2 ⟨_, hat, rfl⟩
    refine (hcs.sees hbelow (h.cons hc)).mono fun y hy => ?_
    have hnames : constructorNames (.dataConstructor m c parameters (some tag) :: cs) =
        c :: constructorNames cs := rfl
    rw [hnames] at hy
    simpa [or_left_comm, or_assoc] using hy

/-! ## 3. What references mean -/

/-- The references, with what they mean, are those that stand in some trees, and each refers to
    something of its name. -/
def Properly (root : Node) (us : List Use) (ns : List Node) : Prop :=
  us.map root.meaning = (ns.flatMap references).map Meaning.proper

namespace Properly

variable {us us' : List Use} {ns ns' : List Node} {n : Node}

theorem append (h : Properly root us ns) (h' : Properly root us' ns') :
    Properly root (us ++ us') (ns ++ ns') := by
  rw [Properly, List.map_append, h, h', List.flatMap_append, List.map_append]

theorem cons (h : Properly root us [n]) (h' : Properly root us' ns) :
    Properly root (us ++ us') (n :: ns) := h.append h'

/-- A node that is no reference has those of its children. -/
theorem up (h : Properly root us n.children) (hn : n.referenceHere = []) :
    Properly root us [n] := by
  rw [Properly, List.flatMap_singleton, references, collect_eq, hn, List.nil_append]
  exact h

/-- Trees in which no reference stands. -/
theorem none (h : ns.flatMap references = []) : Properly root [] ns := by
  rw [Properly, h]
  rfl

end Properly

mutual

/-- No reference stands in a pattern. -/
theorem IsTaggedPattern.references_eq : ∀ {p : Node}, IsTaggedPattern tags p → p.references = []
  | _, .binder | _, .literal => rfl
  | .patternTuple _ _, .tuple hps => (collect_eq _ _).trans hps.references_eq
  | .patternConstructor _ _ _ _, .constructor _ hps => (collect_eq _ _).trans hps.references_eq

theorem AreTaggedPatterns.references_eq : ∀ {ps : List Node}, AreTaggedPatterns tags ps →
    ps.flatMap references = []
  | _, .nil => rfl
  | _, .cons hp hps => List.append_eq_nil_iff.2 ⟨hp.references_eq, hps.references_eq⟩

end

theorem AreTaggedConstructors.references_eq {cs : List Node} (h : AreTaggedConstructors tags cs) :
    cs.flatMap references = [] := by
  induction cs with
  | nil => rfl
  | cons c cs ih =>
    cases h with
    | cons _ hcs => exact ih hcs

mutual

/-- **Every reference refers to something of its name**, when the names in scope can be seen. -/
theorem IsTree.properly : ∀ {n : Node} {names : List String} {visible : Visible} {path : Path},
    IsTree tags P L names n → root.at? path = some n → Sees root visible names →
      Properly root (n.uses visible path) [n]
  | _, _, _, _, .literal, _, _ | _, _, _, _, .builtin, _, _ => .none rfl
  | .reference m x, _, visible, path, .reference hx _, hat, h => by
    show [root.meaning ⟨path, x, visible⟩] = [Meaning.proper (m.position, x)]
    rw [meaning, hat, h.lookup hx]
    rfl
  | _, _, _, _, .lambda hbody, hat, h =>
    have ⟨hat', _⟩ := hasBelow_children hat
    .up (hbody.properly hat' (h.cons (nameAt_binder hat rfl))) rfl
  | _, _, _, _, .application hf ha, hat, h =>
    have ⟨hatf, hata, _⟩ := hasBelow_children hat
    .up ((hf.properly hatf h).append (ha.properly hata h)) rfl
  | _, _, _, _, .letIn hvalue hbody, hat, h =>
    have ⟨hatv, hatb, _⟩ := hasBelow_children hat
    .up ((hvalue.properly hatv h).append
      (hbody.properly hatb (h.cons (nameAt_binder hat rfl)))) rfl
  | .letRec m arms body, _, visible, path, .letRec _ harms hbody, hat, h => by
    obtain ⟨hbelow, hatb, -⟩ := hasBelow_append.1 (hasBelow_children hat)
    rw [Nat.zero_add] at hatb
    have hgroup := harms.sees hbelow h
    exact .up ((harms.properly hbelow hgroup).append (hbody.properly hatb hgroup)) rfl
  | _, _, _, _, .conditional hc ht he, hat, h =>
    have ⟨hatc, hatt, hate, _⟩ := hasBelow_children hat
    .up (((hc.properly hatc h).append (ht.properly hatt h)).append (he.properly hate h)) rfl
  | _, _, _, _, .binary hl hr, hat, h =>
    have ⟨hatl, hatr, _⟩ := hasBelow_children hat
    .up ((hl.properly hatl h).append (hr.properly hatr h)) rfl
  | _, _, _, _, .unary he, hat, h =>
    have ⟨hate, _⟩ := hasBelow_children hat
    .up (he.properly hate h) rfl
  | _, _, _, _, .sequence _ hes, hat, h | _, _, _, _, .tuple _ _ hes, hat, h =>
    .up (hes.properly (hasBelow_children hat) h) rfl
  | _, _, _, _, .projection _ _ he, hat, h =>
    have ⟨hate, _⟩ := hasBelow_children hat
    .up (he.properly hate h) rfl
  | .dataType m d cs body, _, visible, path, .dataType _ hcs hbody, hat, h => by
    obtain ⟨hbelow, hatb, -⟩ := hasBelow_append.1 (hasBelow_children hat)
    rw [Nat.zero_add] at hatb
    exact .up ((Properly.none hcs.references_eq).append
      (hbody.properly hatb (hcs.sees hbelow h))) rfl
  | _, _, _, _, .matchWith _ he harms, hat, h =>
    have ⟨hate, hbelow⟩ := hasBelow_children hat
    .up ((he.properly hate h).cons (harms.properly hbelow h)) rfl

theorem AreTrees.properly : ∀ {ns : List Node} {names : List String} {visible : Visible}
    {path : Path} {i : Nat}, AreTrees tags P L names ns → HasBelow root path i ns →
      Sees root visible names → Properly root (usesAll visible path i ns) ns
  | _, _, _, _, _, .nil, _, _ => .none rfl
  | _, _, _, _, _, .cons hn hns, ⟨hat, hbelow⟩, h =>
    (hn.properly hat h).cons (hns.properly hbelow h)

theorem AreFunctions.properly : ∀ {ns : List Node} {names : List String} {visible : Visible}
    {path : Path} {i : Nat}, AreFunctions tags P L names ns → HasBelow root path i ns →
      Sees root visible names → Properly root (usesAll visible path i ns) ns
  | _, _, _, _, _, .nil, _, _ => .none rfl
  | _, _, _, _, _, .cons hbody hrest, ⟨hat, hbelow⟩, h =>
    have ⟨hatb, _⟩ := hasBelow_children hat
    .cons (.up (hbody.properly hatb (h.cons (nameAt_binder hat rfl))) rfl)
      (hrest.properly hbelow h)

theorem AreArms.properly : ∀ {ns : List Node} {names : List String} {visible : Visible}
    {path : Path} {i : Nat}, AreArms tags P L names ns → HasBelow root path i ns →
      Sees root visible names → Properly root (usesAll visible path i ns) ns
  | _, _, _, _, _, .nil, _, _ => .none rfl
  | .matchArm _ p _ :: _, _, _, _, _, .cons hp hbody hrest, ⟨hat, hbelow⟩, h =>
    have ⟨hatp, hatb, _⟩ := hasBelow_children hat
    have hpattern : Properly root [] [p] := .none (by simp [hp.references_eq])
    .cons (.up (hpattern.append (hbody.properly hatb (hp.sees hatp h))) rfl)
      (hrest.properly hbelow h)

end

/-- **In a program whose names are in scope**, the references mean something of their name each, and
    they are all that stand in it. -/
theorem IsRoot.meanings_eq {n : Node} (h : IsRoot tags P L n) :
    n.meanings = n.references.map .proper := by
  cases h with
  | @mk m e he =>
    have hat : (Node.top m e).at? [0] = some e := rfl
    have hproperly : Properly (.top m e) ((Node.top m e).uses [] []) [.top m e] :=
      .up (he.properly hat sees_nil) rfl
    rw [Properly, List.flatMap_singleton] at hproperly
    exact hproperly

/-- References refer to what has their name. -/
theorem IsRoot.referent_eq {n : Node} (h : IsRoot tags P L n) {r : Meaning} (hr : r ∈ n.meanings) :
    r.referent = some r.name := by
  rw [h.meanings_eq] at hr
  obtain ⟨reference, -, rfl⟩ := List.mem_map.1 hr
  rfl

end Scopes

/-! ## 4. Trees before and behind inference -/

namespace Node

section Plain

variable {f : Position → Mark}

theorem children_plainBy (n : Node) : (n.plainBy f).children = n.children.map (plainBy f) := by
  have hall (ns : List Node) : plainAllBy f ns = ns.map (plainBy f) := by
    induction ns with
    | nil => rfl
    | cons n ns ih => exact congrArg (n.plainBy f :: ·) ih
  cases n
  case letRec m arms body =>
    exact congrArg (· ++ [body.plainBy f]) (hall arms) |>.trans (by simp [children])
  case dataType m d cs body =>
    exact congrArg (· ++ [body.plainBy f]) (hall cs) |>.trans (by simp [children])
  case matchWith m e arms => exact congrArg (e.plainBy f :: ·) (hall arms)
  all_goals first | rfl | exact hall _

/-- Types and numbers of elements do not show in what is found without them. -/
theorem collect_plainBy {α : Type} {g : Node → List α} (hg : ∀ n, g (n.plainBy f) = g n)
    (n : Node) : (n.plainBy f).collect g = n.collect g := by
  induction n using Node.induction with | h n ih => ?_
  rw [collect_eq, collect_eq, hg, children_plainBy, List.flatMap_map]
  exact congrArg (g n ++ ·) (List.flatMap_congr ih)

theorem at?_plainBy (n : Node) :
    ∀ path : Path, (n.plainBy f).at? path = (n.at? path).map (plainBy f)
  | [] => rfl
  | i :: path => by
    rw [at?, at?, at?_plainBy n path]
    cases n.at? path with
    | none => rfl
    | some node => simp [children_plainBy]

theorem nameAt_plainBy (n : Node) (r : Referent) : (n.plainBy f).nameAt r = n.nameAt r := by
  have hbound : ∀ n : Node, (n.plainBy f).bound = n.bound := by rintro ⟨⟩ <;> rfl
  have hdeclared : ∀ n : Node, (n.plainBy f).declaredName = n.declaredName := by rintro ⟨⟩ <;> rfl
  cases r with
  | binder path number =>
    rw [nameAt, nameAt, at?_plainBy]
    cases n.at? path with
    | none => rfl
    | some node => exact congrArg (·[number]?) (hbound node)
  | constructor path =>
    rw [nameAt, nameAt, at?_plainBy]
    cases n.at? path with
    | none => rfl
    | some node => exact congrArg List.head? (hdeclared node)

mutual

theorem visibleBehind_plainBy : ∀ (p : Node) (visible : Visible) (path : Path),
    (p.plainBy f).visibleBehind visible path = p.visibleBehind visible path
  | patternTuple _ ps, visible, path => visibleBehindAll_plainBy ps visible path 0
  | patternConstructor _ _ ps _, visible, path => visibleBehindAll_plainBy ps visible path 0
  | patternBinder .., _, _ | top .., _, _ | literal .., _, _ | reference .., _, _ | builtin .., _, _
  | lambda .., _, _ | application .., _, _ | letIn .., _, _ | letRec .., _, _ | letRecArm .., _, _
  | conditional .., _, _ | binary .., _, _ | unary .., _, _ | sequence .., _, _ | tuple .., _, _
  | projection .., _, _ | matchWith .., _, _ | matchArm .., _, _ | dataType .., _, _
  | dataConstructor .., _, _ | patternLiteral .., _, _ | indexed .., _, _ => rfl

theorem visibleBehindAll_plainBy : ∀ (ps : List Node) (visible : Visible) (path : Path) (i : Nat),
    visibleBehindAll visible path i (plainAllBy f ps) = visibleBehindAll visible path i ps
  | [], _, _, _ => rfl
  | p :: ps, visible, path, i => by
    have hp := visibleBehind_plainBy p visible (i :: path)
    exact (congrArg (visibleBehindAll · path (i + 1) (plainAllBy f ps)) hp).trans
      (visibleBehindAll_plainBy ps _ path (i + 1))

end

theorem visibleInGroup_plainBy (arms : List Node) (path : Path) : ∀ (visible : Visible) (i : Nat),
    visibleInGroup visible path i (plainAllBy f arms) = visibleInGroup visible path i arms := by
  induction arms with
  | nil => exact fun _ _ => rfl
  | cons arm arms ih => cases arm <;> exact fun _ _ => ih _ _

theorem visibleBehindConstructors_plainBy (cs : List Node) (path : Path) :
    ∀ (visible : Visible) (i : Nat), visibleBehindConstructors visible path i (plainAllBy f cs) =
      visibleBehindConstructors visible path i cs := by
  induction cs with
  | nil => exact fun _ _ => rfl
  | cons c cs ih => cases c <;> exact fun _ _ => ih _ _

theorem length_plainAllBy (ns : List Node) : (plainAllBy f ns).length = ns.length := by
  induction ns with
  | nil => rfl
  | cons n ns ih => exact congrArg (· + 1) ih

mutual

theorem uses_plainBy : ∀ (n : Node) (visible : Visible) (path : Path),
    (n.plainBy f).uses visible path = n.uses visible path
  | literal .., _, _ | reference .., _, _ | builtin .., _, _ | dataConstructor .., _, _
  | patternBinder .., _, _ | patternTuple .., _, _ | patternLiteral .., _, _
  | patternConstructor .., _, _ | indexed .., _, _ => rfl
  | top _ e, _, _ | unary _ _ e, _, _ | projection _ _ _ e, _, _ => uses_plainBy e _ _
  | lambda _ _ _ body, _, _ | letRecArm _ _ _ _ _ body, _, _ => uses_plainBy body _ _
  | application _ g e, _, _ | binary _ _ g e, _, _ | letIn _ _ _ g e, _, _ =>
    congrArg₂ (· ++ ·) (uses_plainBy g _ _) (uses_plainBy e _ _)
  | conditional _ c t e, _, _ =>
    congrArg₂ (· ++ ·) (congrArg₂ (· ++ ·) (uses_plainBy c _ _) (uses_plainBy t _ _))
      (uses_plainBy e _ _)
  | sequence _ es, _, _ | tuple _ es, _, _ => usesAll_plainBy es _ _ _
  | letRec m arms body, visible, path => by
    show usesAll (visibleInGroup visible path 0 (plainAllBy f arms)) path 0 (plainAllBy f arms) ++
      (body.plainBy f).uses (visibleInGroup visible path 0 (plainAllBy f arms))
        ((plainAllBy f arms).length :: path) = _
    rw [visibleInGroup_plainBy, length_plainAllBy, usesAll_plainBy arms, uses_plainBy body, uses]
  | matchWith _ e arms, _, _ =>
    congrArg₂ (· ++ ·) (uses_plainBy e _ _) (usesAll_plainBy arms _ _ _)
  | matchArm m p body, visible, path => by
    show (body.plainBy f).uses ((p.plainBy f).visibleBehind visible (0 :: path)) (1 :: path) = _
    rw [visibleBehind_plainBy, uses_plainBy body, uses]
  | dataType m d cs body, visible, path => by
    show (body.plainBy f).uses (visibleBehindConstructors visible path 0 (plainAllBy f cs))
      ((plainAllBy f cs).length :: path) = _
    rw [visibleBehindConstructors_plainBy, length_plainAllBy, uses_plainBy body, uses]

theorem usesAll_plainBy : ∀ (ns : List Node) (visible : Visible) (path : Path) (i : Nat),
    usesAll visible path i (plainAllBy f ns) = usesAll visible path i ns
  | [], _, _, _ => rfl
  | n :: ns, _, _, _ => congrArg₂ (· ++ ·) (uses_plainBy n _ _) (usesAll_plainBy ns _ _ _)

end

/-- **Types and numbers of elements do not matter** for what references mean. -/
theorem meanings_plainBy (hf : ∀ p, (f p).position = p) (n : Node) :
    (n.plainBy f).meanings = n.meanings := by
  have hposition : ∀ n : Node, (n.plainBy f).position = n.position := by
    rintro ⟨⟩ <;> exact hf _
  rw [meanings, meanings, uses_plainBy]
  refine List.map_congr_left fun u _ => ?_
  rw [meaning, meaning, at?_plainBy, Option.map_map]
  congr 1
  · exact congrArg (Option.map · _) (funext hposition)
  · exact congrArg _ (funext (nameAt_plainBy n))

theorem names_plainBy (n : Node) : (n.plainBy f).names = n.names :=
  collect_plainBy (fun n => by cases n <;> rfl) n

end Plain

end Node

end ClosureML
