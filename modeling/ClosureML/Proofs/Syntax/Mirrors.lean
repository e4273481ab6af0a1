import ClosureML.Diagnostic.Report
import ClosureML.Proofs.Syntax.Declarations
import ClosureML.Proofs.TwoRuns
import Mathlib.Data.List.Forall2

/-!
# Trees that mirror each other

Two trees mirror each other when they are the same up to positions and up to the names of variables:
one relation says which positions may stand for each other, another one which names. A tree that
mirrors itself, when every position and every name stands for itself only, has the positions and the
names that stand for themselves.

* `Mark.Mirrors`, `CompileError.Mirrors`, `Node.Mirrors`: marks, errors and trees that mirror each
  other;
* `Node.MirrorsAll`: lists of such trees.

Main statements: `Node.Mirrors.rebuild` (rebuilding two such trees with functions that keep nodes
alike keeps the trees alike) and `Node.Mirrors.fold_eq` (they are folded to the same).
-/

namespace ClosureML

/-! ## 1. The relation -/

/-- Marks that mirror each other: `R` relates their positions, and the types are the same. -/
structure Mark.Mirrors (R : Position → Position → Prop) (m m' : Mark) : Prop where
  position : R m.position m'.position
  ty : m.ty = m'.ty

theorem Mark.mirrors_at {R : Position → Position → Prop} {p p' : Position} (h : R p p') :
    (Mark.at p).Mirrors R (Mark.at p') := ⟨h, rfl⟩

/-- Errors that mirror each other: they are of one kind, and `R` relates their positions. -/
structure CompileError.Mirrors (R : Position → Position → Prop) (e e' : CompileError) : Prop where
  kind : e.cause.kind = e'.cause.kind
  position : R e.position e'.position

namespace Node

variable {N : String → String → Prop} {R : Position → Position → Prop}

mutual

/-- **Trees that mirror each other.** `N` relates the names of their variables, `R` their positions.
    The names of constructors are the same, and stand for each other as well. -/
inductive Mirrors (N : String → String → Prop) (R : Position → Position → Prop) :
    Node → Node → Prop where
  | top {m m' : Mark} {e e' : Node} (hm : m.Mirrors R m') (he : Mirrors N R e e') :
      Mirrors N R (.top m e) (.top m' e')
  | literal {m m' : Mark} {v : Literal} (hm : m.Mirrors R m') :
      Mirrors N R (.literal m v) (.literal m' v)
  | reference {m m' : Mark} {x x' : String} (hm : m.Mirrors R m') (hx : N x x') :
      Mirrors N R (.reference m x) (.reference m' x')
  | builtin {m m' : Mark} {b : Builtin} (hm : m.Mirrors R m') :
      Mirrors N R (.builtin m b) (.builtin m' b)
  | lambda {m m' : Mark} {x x' : String} {a : Option TypeExpr} {body body' : Node}
      (hm : m.Mirrors R m') (hx : N x x') (hbody : Mirrors N R body body') :
      Mirrors N R (.lambda m x a body) (.lambda m' x' a body')
  | application {m m' : Mark} {f f' e e' : Node} (hm : m.Mirrors R m') (hf : Mirrors N R f f')
      (he : Mirrors N R e e') : Mirrors N R (.application m f e) (.application m' f' e')
  | letIn {m m' : Mark} {x x' : String} {a : Option TypeExpr} {value value' body body' : Node}
      (hm : m.Mirrors R m') (hx : N x x') (hvalue : Mirrors N R value value')
      (hbody : Mirrors N R body body') :
      Mirrors N R (.letIn m x a value body) (.letIn m' x' a value' body')
  | letRec {m m' : Mark} {arms arms' : List Node} {body body' : Node} (hm : m.Mirrors R m')
      (harms : MirrorsAll N R arms arms') (hbody : Mirrors N R body body') :
      Mirrors N R (.letRec m arms body) (.letRec m' arms' body')
  | letRecArm {m m' : Mark} {f f' x x' : String} {pa ra : Option TypeExpr} {body body' : Node}
      (hm : m.Mirrors R m') (hf : N f f') (hx : N x x') (hbody : Mirrors N R body body') :
      Mirrors N R (.letRecArm m f x pa ra body) (.letRecArm m' f' x' pa ra body')
  | conditional {m m' : Mark} {c c' t t' e e' : Node} (hm : m.Mirrors R m')
      (hc : Mirrors N R c c') (ht : Mirrors N R t t') (he : Mirrors N R e e') :
      Mirrors N R (.conditional m c t e) (.conditional m' c' t' e')
  | binary {m m' : Mark} {o : BinaryOperator} {l l' r r' : Node} (hm : m.Mirrors R m')
      (hl : Mirrors N R l l') (hr : Mirrors N R r r') :
      Mirrors N R (.binary m o l r) (.binary m' o l' r')
  | unary {m m' : Mark} {o : UnaryOperator} {e e' : Node} (hm : m.Mirrors R m')
      (he : Mirrors N R e e') : Mirrors N R (.unary m o e) (.unary m' o e')
  | sequence {m m' : Mark} {es es' : List Node} (hm : m.Mirrors R m')
      (hes : MirrorsAll N R es es') : Mirrors N R (.sequence m es) (.sequence m' es')
  | tuple {m m' : Mark} {es es' : List Node} (hm : m.Mirrors R m')
      (hes : MirrorsAll N R es es') : Mirrors N R (.tuple m es) (.tuple m' es')
  | projection {m m' : Mark} {index : Nat} {arity : Option Nat} {e e' : Node}
      (hm : m.Mirrors R m') (he : Mirrors N R e e') :
      Mirrors N R (.projection m index arity e) (.projection m' index arity e')
  | matchWith {m m' : Mark} {e e' : Node} {arms arms' : List Node} (hm : m.Mirrors R m')
      (he : Mirrors N R e e') (harms : MirrorsAll N R arms arms') :
      Mirrors N R (.matchWith m e arms) (.matchWith m' e' arms')
  | matchArm {m m' : Mark} {p p' body body' : Node} (hm : m.Mirrors R m')
      (hp : Mirrors N R p p') (hbody : Mirrors N R body body') :
      Mirrors N R (.matchArm m p body) (.matchArm m' p' body')
  | dataType {m m' : Mark} {d : String} {cs cs' : List Node} {body body' : Node}
      (hm : m.Mirrors R m') (hcs : MirrorsAll N R cs cs') (hbody : Mirrors N R body body') :
      Mirrors N R (.dataType m d cs body) (.dataType m' d cs' body')
  | dataConstructor {m m' : Mark} {c : String} {parameters : List TypeExpr} {tag : Option Nat}
      (hm : m.Mirrors R m') (hc : N c c) :
      Mirrors N R (.dataConstructor m c parameters tag) (.dataConstructor m' c parameters tag)
  | patternBinder {m m' : Mark} {x x' : String} (hm : m.Mirrors R m') (hx : N x x') :
      Mirrors N R (.patternBinder m x) (.patternBinder m' x')
  | patternTuple {m m' : Mark} {ps ps' : List Node} (hm : m.Mirrors R m')
      (hps : MirrorsAll N R ps ps') : Mirrors N R (.patternTuple m ps) (.patternTuple m' ps')
  | patternLiteral {m m' : Mark} {v : Literal} (hm : m.Mirrors R m') :
      Mirrors N R (.patternLiteral m v) (.patternLiteral m' v)
  | patternConstructor {m m' : Mark} {c : String} {ps ps' : List Node} {tag : Option Nat}
      (hm : m.Mirrors R m') (hps : MirrorsAll N R ps ps') :
      Mirrors N R (.patternConstructor m c ps tag) (.patternConstructor m' c ps' tag)
  | indexed {m m' : Mark} {depth : Nat} {sibling : Option Nat} (hm : m.Mirrors R m') :
      Mirrors N R (.indexed m depth sibling) (.indexed m' depth sibling)

/-- Lists of trees that mirror each other. -/
inductive MirrorsAll (N : String → String → Prop) (R : Position → Position → Prop) :
    List Node → List Node → Prop where
  | nil : MirrorsAll N R [] []
  | cons {n n' : Node} {ns ns' : List Node} (hn : Mirrors N R n n')
      (hns : MirrorsAll N R ns ns') : MirrorsAll N R (n :: ns) (n' :: ns')

end

variable {n n' : Node} {ns ns' : List Node}

theorem Mirrors.mark (h : Mirrors N R n n') : n.mark.Mirrors R n'.mark := by
  cases h <;> assumption

theorem Mirrors.position (h : Mirrors N R n n') : R n.position n'.position := h.mark.position

theorem MirrorsAll.length_eq : ∀ {ns ns' : List Node}, MirrorsAll N R ns ns' →
    ns.length = ns'.length
  | _, _, .nil => rfl
  | _, _, .cons _ hns => congrArg (· + 1) hns.length_eq

theorem MirrorsAll.isEmpty_eq (h : MirrorsAll N R ns ns') : ns.isEmpty = ns'.isEmpty := by
  cases h <;> rfl

theorem MirrorsAll.append : ∀ {ns ns' ks ks' : List Node}, MirrorsAll N R ns ns' →
    MirrorsAll N R ks ks' → MirrorsAll N R (ns ++ ks) (ns' ++ ks')
  | _, _, _, _, .nil, h => h
  | _, _, _, _, .cons hn hns, h => .cons hn (hns.append h)

theorem MirrorsAll.forall₂ : ∀ {ns ns' : List Node}, MirrorsAll N R ns ns' →
    List.Forall₂ (Mirrors N R) ns ns'
  | _, _, .nil => .nil
  | _, _, .cons hn hns => .cons hn hns.forall₂

/-- The children mirror each other. -/
theorem Mirrors.children (h : Mirrors N R n n') : MirrorsAll N R n.children n'.children := by
  cases h with
  | literal | reference | builtin | dataConstructor | patternBinder | patternLiteral | indexed =>
    exact .nil
  | top _ he => exact .cons he .nil
  | lambda _ _ hbody => exact .cons hbody .nil
  | application _ hf he => exact .cons hf (.cons he .nil)
  | letIn _ _ hvalue hbody => exact .cons hvalue (.cons hbody .nil)
  | letRec _ harms hbody => exact harms.append (.cons hbody .nil)
  | letRecArm _ _ _ hbody => exact .cons hbody .nil
  | conditional _ hc ht he => exact .cons hc (.cons ht (.cons he .nil))
  | binary _ hl hr => exact .cons hl (.cons hr .nil)
  | unary _ he => exact .cons he .nil
  | sequence _ hes | tuple _ hes => exact hes
  | projection _ he => exact .cons he .nil
  | matchWith _ he harms => exact .cons he harms
  | matchArm _ hp hbody => exact .cons hp (.cons hbody .nil)
  | dataType _ hcs hbody => exact hcs.append (.cons hbody .nil)
  | patternTuple _ hps | patternConstructor _ hps => exact hps

/-! ## 2. Changes of the marks -/

mutual

/-- Trees whose marks are changed alike mirror each other. -/
theorem Mirrors.mapMarks {f f' : Mark → Mark}
    (hf : ∀ m m', Mark.Mirrors R m m' → (f m).Mirrors R (f' m')) : ∀ {n n' : Node},
    Mirrors N R n n' → Mirrors N R (n.mapMarks f) (n'.mapMarks f')
  | _, _, .top hm he => .top (hf _ _ hm) (he.mapMarks hf)
  | _, _, .literal hm => .literal (hf _ _ hm)
  | _, _, .reference hm hx => .reference (hf _ _ hm) hx
  | _, _, .builtin hm => .builtin (hf _ _ hm)
  | _, _, .lambda hm hx hbody => .lambda (hf _ _ hm) hx (hbody.mapMarks hf)
  | _, _, .application hm hg he => .application (hf _ _ hm) (hg.mapMarks hf) (he.mapMarks hf)
  | _, _, .letIn hm hx hvalue hbody =>
    .letIn (hf _ _ hm) hx (hvalue.mapMarks hf) (hbody.mapMarks hf)
  | _, _, .letRec hm harms hbody => .letRec (hf _ _ hm) (harms.mapMarks hf) (hbody.mapMarks hf)
  | _, _, .letRecArm hm hg hx hbody => .letRecArm (hf _ _ hm) hg hx (hbody.mapMarks hf)
  | _, _, .conditional hm hc ht he =>
    .conditional (hf _ _ hm) (hc.mapMarks hf) (ht.mapMarks hf) (he.mapMarks hf)
  | _, _, .binary hm hl hr => .binary (hf _ _ hm) (hl.mapMarks hf) (hr.mapMarks hf)
  | _, _, .unary hm he => .unary (hf _ _ hm) (he.mapMarks hf)
  | _, _, .sequence hm hes => .sequence (hf _ _ hm) (hes.mapMarks hf)
  | _, _, .tuple hm hes => .tuple (hf _ _ hm) (hes.mapMarks hf)
  | _, _, .projection hm he => .projection (hf _ _ hm) (he.mapMarks hf)
  | _, _, .matchWith hm he harms => .matchWith (hf _ _ hm) (he.mapMarks hf) (harms.mapMarks hf)
  | _, _, .matchArm hm hp hbody => .matchArm (hf _ _ hm) (hp.mapMarks hf) (hbody.mapMarks hf)
  | _, _, .dataType hm hcs hbody => .dataType (hf _ _ hm) (hcs.mapMarks hf) (hbody.mapMarks hf)
  | _, _, .dataConstructor hm hc => .dataConstructor (hf _ _ hm) hc
  | _, _, .patternBinder hm hx => .patternBinder (hf _ _ hm) hx
  | _, _, .patternTuple hm hps => .patternTuple (hf _ _ hm) (hps.mapMarks hf)
  | _, _, .patternLiteral hm => .patternLiteral (hf _ _ hm)
  | _, _, .patternConstructor hm hps => .patternConstructor (hf _ _ hm) (hps.mapMarks hf)
  | _, _, .indexed hm => .indexed (hf _ _ hm)

theorem MirrorsAll.mapMarks {f f' : Mark → Mark}
    (hf : ∀ m m', Mark.Mirrors R m m' → (f m).Mirrors R (f' m')) : ∀ {ns ns' : List Node},
    MirrorsAll N R ns ns' → MirrorsAll N R (mapAllMarks f ns) (mapAllMarks f' ns')
  | _, _, .nil => .nil
  | _, _, .cons hn hns => .cons (hn.mapMarks hf) (hns.mapMarks hf)

end

/-! ## 3. Rebuilding -/

section Rebuild

variable {ε σ : Type} {I : σ → σ → Prop} {E : ε → ε → Prop} {f : Node → EStateM ε σ Node}

mutual

/-- **Trees that are rebuilt mirror each other**, when nodes that mirror each other are rebuilt
    so. -/
theorem Mirrors.rebuild (hf : ∀ n n', Mirrors N R n n' → InStep I (Mirrors N R) E (f n) (f n')) :
    ∀ {n n' : Node}, Mirrors N R n n' → InStep I (Mirrors N R) E (n.rebuild f) (n'.rebuild f)
  | _, _, .top hm he => .bind (he.rebuild hf) fun _ _ he => hf _ _ (.top hm he)
  | _, _, .literal hm => hf _ _ (.literal hm)
  | _, _, .reference hm hx => hf _ _ (.reference hm hx)
  | _, _, .builtin hm => hf _ _ (.builtin hm)
  | _, _, .lambda hm hx hbody => .bind (hbody.rebuild hf) fun _ _ hbody =>
    hf _ _ (.lambda hm hx hbody)
  | _, _, .application hm hg he => .bind (hg.rebuild hf) fun _ _ hg =>
    .bind (he.rebuild hf) fun _ _ he => hf _ _ (.application hm hg he)
  | _, _, .letIn hm hx hvalue hbody => .bind (hvalue.rebuild hf) fun _ _ hvalue =>
    .bind (hbody.rebuild hf) fun _ _ hbody => hf _ _ (.letIn hm hx hvalue hbody)
  | _, _, .letRec hm harms hbody => .bind (harms.rebuild hf) fun _ _ harms =>
    .bind (hbody.rebuild hf) fun _ _ hbody => hf _ _ (.letRec hm harms hbody)
  | _, _, .letRecArm hm hg hx hbody => .bind (hbody.rebuild hf) fun _ _ hbody =>
    hf _ _ (.letRecArm hm hg hx hbody)
  | _, _, .conditional hm hc ht he => .bind (hc.rebuild hf) fun _ _ hc =>
    .bind (ht.rebuild hf) fun _ _ ht => .bind (he.rebuild hf) fun _ _ he =>
      hf _ _ (.conditional hm hc ht he)
  | _, _, .binary hm hl hr => .bind (hl.rebuild hf) fun _ _ hl =>
    .bind (hr.rebuild hf) fun _ _ hr => hf _ _ (.binary hm hl hr)
  | _, _, .unary hm he => .bind (he.rebuild hf) fun _ _ he => hf _ _ (.unary hm he)
  | _, _, .sequence hm hes => .bind (hes.rebuild hf) fun _ _ hes => hf _ _ (.sequence hm hes)
  | _, _, .tuple hm hes => .bind (hes.rebuild hf) fun _ _ hes => hf _ _ (.tuple hm hes)
  | _, _, .projection hm he => .bind (he.rebuild hf) fun _ _ he => hf _ _ (.projection hm he)
  | _, _, .matchWith hm he harms => .bind (he.rebuild hf) fun _ _ he =>
    .bind (harms.rebuild hf) fun _ _ harms => hf _ _ (.matchWith hm he harms)
  | _, _, .matchArm hm hp hbody => .bind (hp.rebuild hf) fun _ _ hp =>
    .bind (hbody.rebuild hf) fun _ _ hbody => hf _ _ (.matchArm hm hp hbody)
  | _, _, .dataType hm hcs hbody => .bind (hcs.rebuild hf) fun _ _ hcs =>
    .bind (hbody.rebuild hf) fun _ _ hbody => hf _ _ (.dataType hm hcs hbody)
  | _, _, .dataConstructor hm hc => hf _ _ (.dataConstructor hm hc)
  | _, _, .patternBinder hm hx => hf _ _ (.patternBinder hm hx)
  | _, _, .patternTuple hm hps => .bind (hps.rebuild hf) fun _ _ hps =>
    hf _ _ (.patternTuple hm hps)
  | _, _, .patternLiteral hm => hf _ _ (.patternLiteral hm)
  | _, _, .patternConstructor hm hps => .bind (hps.rebuild hf) fun _ _ hps =>
    hf _ _ (.patternConstructor hm hps)
  | _, _, .indexed hm => hf _ _ (.indexed hm)

theorem MirrorsAll.rebuild
    (hf : ∀ n n', Mirrors N R n n' → InStep I (Mirrors N R) E (f n) (f n')) :
    ∀ {ns ns' : List Node}, MirrorsAll N R ns ns' →
      InStep I (MirrorsAll N R) E (rebuildAll f ns) (rebuildAll f ns')
  | _, _, .nil => .pure .nil
  | _, _, .cons hn hns => .bind (hn.rebuild hf) fun _ _ hn => .bind (hns.rebuild hf) fun _ _ hns =>
    .pure (.cons hn hns)

end

end Rebuild

/-! ## 4. Folding -/

/-- **Trees that mirror each other are folded to the same**, when their nodes are looked at
    alike. -/
theorem Mirrors.fold_eq {β : Type} {f : Node → List β → β}
    (hf : ∀ n n', Mirrors N R n n' → f n = f n') : ∀ {n n' : Node}, Mirrors N R n n' →
      n.fold f = n'.fold f := by
  intro n
  induction n using Node.induction with | h n ih => ?_
  intro n' h
  have hchildren : ∀ {cs cs' : List Node}, (∀ c ∈ cs, c ∈ n.children) →
      List.Forall₂ (Mirrors N R) cs cs' → cs.map (fold f) = cs'.map (fold f) := by
    intro cs cs' hcs hforall
    induction hforall with
    | nil => rfl
    | cons hc _ ihcs =>
      obtain ⟨hmem, hcs⟩ := List.forall_mem_cons.1 hcs
      exact congrArg₂ List.cons (ih _ hmem hc) (ihcs hcs)
  rw [Node.fold_eq, Node.fold_eq, hf _ _ h, hchildren (fun _ hc => hc) h.children.forall₂]

end Node

end ClosureML
