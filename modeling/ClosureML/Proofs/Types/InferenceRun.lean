import ClosureML.Proofs.Runs
import ClosureML.Types.Inference

/-!
# Runs of inference

Inference that succeeds goes through a tree by fixed rules, which make new variables and equations
on the way. The rules are written down as a relation, on which what a whole run preserves is proved
by induction.

* `InfersPattern`, `Infers`: the rules, with the state before and behind.

Main statement: `Infers.of_run` (a run that succeeds keeps to the rules).
-/

namespace ClosureML

open ClosureML.Types

/-! ## 1. The rules -/

/-- The equation between the type of a value and its ascription is added, if there is one. -/
def Types.Agrees (t : Ty) (position : Position) (ascription : Option TypeExpr)
    (s s' : InferState) : Prop :=
  match ascription with
  | some a => Runs (constrain t a.toTy position) s () s'
  | none => s = s'

mutual

/-- A pattern that is given types, with the type of what it matches and its bindings. -/
inductive InfersPattern :
    Node → InferState → Node → Ty → List (String × Binding) → InferState → Prop where
  | binder {m : Mark} {x : String} {t : Ty} {s s' : InferState} (ht : Runs fresh s t s') :
      InfersPattern (.patternBinder m x) s (.patternBinder (typed m t) x) t [(x, .mono t)] s'
  | literal {m : Mark} {v : Literal} {s : InferState} :
      InfersPattern (.patternLiteral m v) s (.patternLiteral (typed m (literalType v)) v)
        (literalType v) [] s
  | tuple {m : Mark} {ps ps' : List Node} {ts : List Ty} {bindings : List (String × Binding)}
      {s s' : InferState} (hps : InfersPatterns ps s ps' ts bindings s') :
      InfersPattern (.patternTuple m ps) s (.patternTuple (typed m (.tuple ts)) ps') (.tuple ts)
        bindings s'
  | constructor {m : Mark} {c : String} {ps ps' : List Node} {tag : Option Nat}
      {parameters : List Ty} {dataType : Ty} {bindings : List (String × Binding)}
      {s s' : InferState} (hc : s.signatures.lookup c = some ⟨parameters, dataType⟩)
      (hlength : ps.length = parameters.length)
      (hps : InfersArguments ps parameters s ps' bindings s') :
      InfersPattern (.patternConstructor m c ps tag) s
        (.patternConstructor (typed m dataType) c ps' tag) dataType bindings s'

/-- Patterns from left to right. -/
inductive InfersPatterns :
    List Node → InferState → List Node → List Ty → List (String × Binding) → InferState → Prop where
  | nil {s : InferState} : InfersPatterns [] s [] [] [] s
  | cons {p p' : Node} {ps ps' : List Node} {t : Ty} {ts : List Ty}
      {bindings more : List (String × Binding)} {s s₁ s' : InferState}
      (hp : InfersPattern p s p' t bindings s₁) (hps : InfersPatterns ps s₁ ps' ts more s') :
      InfersPatterns (p :: ps) s (p' :: ps') (t :: ts) (bindings ++ more) s'

/-- The arguments of a constructor's pattern. -/
inductive InfersArguments :
    List Node → List Ty → InferState → List Node → List (String × Binding) → InferState → Prop where
  | nil {s : InferState} : InfersArguments [] [] s [] [] s
  | cons {p p' : Node} {ps ps' : List Node} {t parameter : Ty} {parameters : List Ty}
      {bindings more : List (String × Binding)} {s s₁ s₂ s' : InferState}
      (hp : InfersPattern p s p' t bindings s₁)
      (ht : Runs (constrain t parameter p.position) s₁ () s₂)
      (hps : InfersArguments ps parameters s₂ ps' more s') :
      InfersArguments (p :: ps) (parameter :: parameters) s (p' :: ps') (bindings ++ more) s'

end

mutual

/-- A tree that is given types, with the type of its root. -/
inductive Infers (g : Generalizer) :
    TypeEnvironment → Node → InferState → Node → Ty → InferState → Prop where
  | top {Γ : TypeEnvironment} {m : Mark} {e e' : Node} {t : Ty} {s s' : InferState}
      (he : Infers g Γ e s e' t s') : Infers g Γ (.top m e) s (.top (typed m t) e') t s'
  | literal {Γ : TypeEnvironment} {m : Mark} {v : Literal} {s : InferState} :
      Infers g Γ (.literal m v) s (.literal (typed m (literalType v)) v) (literalType v) s
  | mono {Γ : TypeEnvironment} {m : Mark} {x : String} {t : Ty} {s : InferState}
      (hx : lookup? Γ x = some (.mono t)) :
      Infers g Γ (.reference m x) s (.reference (typed m t) x) t s
  | poly {Γ : TypeEnvironment} {m : Mark} {x : String} {schema : Schema} {t : Ty}
      {s s' : InferState} (hx : lookup? Γ x = some (.poly schema))
      (ht : Runs (instantiate schema) s t s') :
      Infers g Γ (.reference m x) s (.reference (typed m t) x) t s'
  | printer {Γ : TypeEnvironment} {m : Mark} {b : Builtin} {t : Ty} {s s' : InferState}
      (hb : b ≠ .panic) (ht : Runs fresh s t s') :
      Infers g Γ (.builtin m b) s (.builtin (typed m (.function t .unit)) b) (.function t .unit) s'
  | panic {Γ : TypeEnvironment} {m : Mark} {t u : Ty} {s s₁ s' : InferState}
      (ht : Runs fresh s t s₁) (hu : Runs fresh s₁ u s') :
      Infers g Γ (.builtin m .panic) s (.builtin (typed m (.function t u)) .panic)
        (.function t u) s'
  | lambda {Γ : TypeEnvironment} {m : Mark} {x : String} {ascription : Option TypeExpr}
      {body body' : Node} {t u : Ty} {s s₁ s' : InferState}
      (ht : Runs (ascribedOrFresh ascription) s t s₁)
      (hbody : Infers g (Γ.extend (x, .mono t)) body s₁ body' u s') :
      Infers g Γ (.lambda m x ascription body) s
        (.lambda (typed m (.function t u)) x ascription body') (.function t u) s'
  | application {Γ : TypeEnvironment} {m : Mark} {f f' a a' : Node} {t u r : Ty}
      {s s₁ s₂ s₃ s' : InferState} (hf : Infers g Γ f s f' t s₁) (ha : Infers g Γ a s₁ a' u s₂)
      (hr : Runs fresh s₂ r s₃) (hc : Runs (constrain t (.function u r) m.position) s₃ () s') :
      Infers g Γ (.application m f a) s (.application (typed m r) f' a') r s'
  | letIn {Γ : TypeEnvironment} {m : Mark} {x : String} {ascription : Option TypeExpr}
      {value value' body body' : Node} {t u : Ty} {s s₁ s₂ s' : InferState}
      {earlier since : List Constraint} (hvalue : Infers g Γ value s value' t s₁)
      (ha : Agrees t m.position ascription s₁ s₂)
      (hcs : s₂.constraints.toList.splitAt s.constraints.size = (earlier, since))
      (hbody : Infers g (Γ.extend (x, g Γ earlier since t)) body s₂ body' u s') :
      Infers g Γ (.letIn m x ascription value body) s
        (.letIn (typed m u) x ascription value' body') u s'
  | letRec {Γ : TypeEnvironment} {m : Mark} {arms arms' : List Node} {body body' : Node}
      {declared : List (String × Ty × Ty)} {u : Ty} {s s₁ s₂ s' : InferState}
      {earlier since : List Constraint} (hdeclared : Runs (declareGroup arms) s declared s₁)
      (harms : InfersGroup g
        (Γ.extendAll (declared.map fun (f, p, r) => (f, .mono (.function p r)))) arms
        (declared.map Prod.snd) s₁ arms' s₂)
      (hcs : s₂.constraints.toList.splitAt s₁.constraints.size = (earlier, since))
      (hbody : Infers g
        (Γ.extendAll (declared.map fun (f, p, r) => (f, g Γ earlier since (.function p r)))) body s₂
        body' u s') :
      Infers g Γ (.letRec m arms body) s (.letRec (typed m u) arms' body') u s'
  | conditional {Γ : TypeEnvironment} {m : Mark} {c c' a a' b b' : Node} {t u v : Ty}
      {s s₁ s₂ s₃ s₄ s' : InferState} (hc : Infers g Γ c s c' t s₁)
      (ht : Runs (constrain t .bool c.position) s₁ () s₂) (ha : Infers g Γ a s₂ a' u s₃)
      (hb : Infers g Γ b s₃ b' v s₄) (hu : Runs (constrain u v m.position) s₄ () s') :
      Infers g Γ (.conditional m c a b) s (.conditional (typed m u) c' a' b') u s'
  | ofInts {Γ : TypeEnvironment} {m : Mark} {o : BinaryOperator} {l l' r r' : Node} {t u v : Ty}
      {s s₁ s₂ s₃ s' : InferState}
      (ho : (o.operatorClass = .arithmetic ∧ v = .int) ∨
        (o.operatorClass = .relational ∧ v = .bool))
      (hl : Infers g Γ l s l' t s₁) (hr : Infers g Γ r s₁ r' u s₂)
      (ht : Runs (constrain t .int l.position) s₂ () s₃)
      (hu : Runs (constrain u .int r.position) s₃ () s') :
      Infers g Γ (.binary m o l r) s (.binary (typed m v) o l' r') v s'
  | equality {Γ : TypeEnvironment} {m : Mark} {o : BinaryOperator} {l l' r r' : Node} {t u : Ty}
      {s s₁ s₂ s' : InferState} (ho : o.operatorClass = .equality) (hl : Infers g Γ l s l' t s₁)
      (hr : Infers g Γ r s₁ r' u s₂) (ht : Runs (constrain t u m.position) s₂ () s') :
      Infers g Γ (.binary m o l r) s (.binary (typed m .bool) o l' r') .bool s'
  | unary {Γ : TypeEnvironment} {m : Mark} {o : UnaryOperator} {e e' : Node} {t : Ty}
      {s s₁ s' : InferState} (he : Infers g Γ e s e' t s₁)
      (ht : Runs (constrain t .int e.position) s₁ () s') :
      Infers g Γ (.unary m o e) s (.unary (typed m .int) o e') .int s'
  | sequence {Γ : TypeEnvironment} {m : Mark} {es es' : List Node} {ts : List Ty}
      {s s' : InferState} (hes : InfersAll g Γ es s es' ts s') :
      Infers g Γ (.sequence m es) s (.sequence (typed m (ts.getLastD .unit)) es')
        (ts.getLastD .unit) s'
  | tuple {Γ : TypeEnvironment} {m : Mark} {es es' : List Node} {ts : List Ty}
      {s s' : InferState} (hes : InfersAll g Γ es s es' ts s') :
      Infers g Γ (.tuple m es) s (.tuple (typed m (.tuple ts)) es') (.tuple ts) s'
  | projection {Γ : TypeEnvironment} {m : Mark} {index : Nat} {arity : Option Nat} {e e' : Node}
      {t u : Ty} {ts : List Ty} {s s₁ s' : InferState} (he : Infers g Γ e s e' t s₁)
      (ht : Runs (resolveNow t) s₁ (.tuple ts) s') (hu : ts[index]? = some u) :
      Infers g Γ (.projection m index arity e) s
        (.projection (typed m u) index (some ts.length) e') u s'
  | dataType {Γ Γ' : TypeEnvironment} {m : Mark} {d : String} {cs cs' : List Node}
      {body body' : Node} {u : Ty} {s s₁ s' : InferState}
      (hcs : Runs (declareConstructors d Γ cs) s (cs', Γ') s₁)
      (hbody : Infers g Γ' body s₁ body' u s') :
      Infers g Γ (.dataType m d cs body) s (.dataType (typed m u) d cs' body') u s'
  | matchWith {Γ : TypeEnvironment} {m : Mark} {e e' : Node} {arms arms' : List Node} {t r : Ty}
      {s s₁ s₂ s' : InferState} (he : Infers g Γ e s e' t s₁) (hr : Runs fresh s₁ r s₂)
      (harms : InfersArms g Γ t r arms s₂ arms' s') :
      Infers g Γ (.matchWith m e arms) s (.matchWith (typed m r) e' arms') r s'

/-- Trees from left to right. -/
inductive InfersAll (g : Generalizer) :
    TypeEnvironment → List Node → InferState → List Node → List Ty → InferState → Prop where
  | nil {Γ : TypeEnvironment} {s : InferState} : InfersAll g Γ [] s [] [] s
  | cons {Γ : TypeEnvironment} {n n' : Node} {ns ns' : List Node} {t : Ty} {ts : List Ty}
      {s s₁ s' : InferState} (hn : Infers g Γ n s n' t s₁) (hns : InfersAll g Γ ns s₁ ns' ts s') :
      InfersAll g Γ (n :: ns) s (n' :: ns') (t :: ts) s'

/-- The functions of a group, with the types that were declared for them. -/
inductive InfersGroup (g : Generalizer) :
    TypeEnvironment → List Node → List (Ty × Ty) → InferState → List Node → InferState → Prop where
  | nil {Γ : TypeEnvironment} {s : InferState} : InfersGroup g Γ [] [] s [] s
  | cons {Γ : TypeEnvironment} {m : Mark} {f x : String} {pa ra : Option TypeExpr}
      {body body' : Node} {rest rest' : List Node} {p r t : Ty} {types : List (Ty × Ty)}
      {s s₁ s₂ s' : InferState} (hbody : Infers g (Γ.extend (x, .mono p)) body s body' t s₁)
      (ht : Runs (constrain t r m.position) s₁ () s₂)
      (hrest : InfersGroup g Γ rest types s₂ rest' s') :
      InfersGroup g Γ (.letRecArm m f x pa ra body :: rest) ((p, r) :: types) s
        (.letRecArm (typed m (.function p r)) f x pa ra body' :: rest') s'

/-- The arms of a `match`, with the types of the scrutinee and of the whole. -/
inductive InfersArms (g : Generalizer) :
    TypeEnvironment → Ty → Ty → List Node → InferState → List Node → InferState → Prop where
  | nil {Γ : TypeEnvironment} {t r : Ty} {s : InferState} : InfersArms g Γ t r [] s [] s
  | cons {Γ : TypeEnvironment} {m : Mark} {p p' body body' : Node} {rest rest' : List Node}
      {t r u v : Ty} {bindings : List (String × Binding)} {s s₁ s₂ s₃ s₄ s' : InferState}
      (hp : InfersPattern p s p' u bindings s₁)
      (ht : Runs (constrain t u p.position) s₁ () s₂)
      (hbody : Infers g (Γ.extendAll bindings) body s₂ body' v s₃)
      (hr : Runs (constrain v r m.position) s₃ () s₄)
      (hrest : InfersArms g Γ t r rest s₄ rest' s') :
      InfersArms g Γ t r (.matchArm m p body :: rest) s
        (.matchArm (typed m r) p' body' :: rest') s'

end

/-! ## 2. Runs keep to the rules -/

attribute [simp] Node.infer

mutual

theorem InfersPattern.of_run : ∀ {n n' : Node} {t : Ty} {bindings : List (String × Binding)}
    {s s' : InferState}, Runs (inferPattern n) s (n', t, bindings) s' →
      InfersPattern n s n' t bindings s'
  | .patternBinder m x, _, _, _, _, _, h => by
    simp only [inferPattern, runs_bind, runs_pure] at h
    obtain ⟨t, s₁, ht, h, rfl⟩ := h
    cases h
    exact .binder ht
  | .patternLiteral m v, _, _, _, _, _, h => by
    simp only [inferPattern, runs_pure] at h
    obtain ⟨h, rfl⟩ := h
    cases h
    exact .literal
  | .patternTuple m ps, _, _, _, _, _, h => by
    simp only [inferPattern, runs_bind, runs_pure] at h
    obtain ⟨⟨ps', ts, bindings⟩, s₁, hps, h, rfl⟩ := h
    cases h
    exact .tuple (InfersPatterns.of_run hps)
  | .patternConstructor m c ps tag, _, _, _, s, _, h => by
    simp only [inferPattern, runs_bind, runs_get] at h
    obtain ⟨_, _, ⟨rfl, rfl⟩, h⟩ := h
    split at h
    · exact absurd h runs_throw
    · next parameters dataType hc =>
      split at h
      · exact absurd h runs_throw
      · next hlength =>
        simp only [runs_bind, runs_pure] at h
        obtain ⟨⟨ps', bindings⟩, s₁, hps, h, rfl⟩ := h
        cases h
        exact .constructor hc (Decidable.not_not.1 hlength)
          (InfersArguments.of_run (Decidable.not_not.1 hlength) hps)

theorem InfersPatterns.of_run : ∀ {ns ns' : List Node} {ts : List Ty}
    {bindings : List (String × Binding)} {s s' : InferState},
    Runs (inferPatterns ns) s (ns', ts, bindings) s' → InfersPatterns ns s ns' ts bindings s'
  | [], _, _, _, _, _, h => by
    simp only [inferPatterns, runs_pure] at h
    obtain ⟨h, rfl⟩ := h
    cases h
    exact .nil
  | n :: ns, _, _, _, _, _, h => by
    simp only [inferPatterns, runs_bind, runs_pure] at h
    obtain ⟨⟨p, t, bindings⟩, s₁, hp, ⟨ps, ts, more⟩, s₂, hps, h, rfl⟩ := h
    cases h
    exact .cons (InfersPattern.of_run hp) (InfersPatterns.of_run hps)

theorem InfersArguments.of_run : ∀ {ns ns' : List Node} {ts : List Ty}
    {bindings : List (String × Binding)} {s s' : InferState}, ns.length = ts.length →
    Runs (inferArguments ns ts) s (ns', bindings) s' → InfersArguments ns ts s ns' bindings s'
  | [], _, [], _, _, _, _, h => by
    simp only [inferArguments, runs_pure] at h
    obtain ⟨h, rfl⟩ := h
    cases h
    exact .nil
  | n :: ns, _, t :: ts, _, _, _, hlength, h => by
    simp only [inferArguments, runs_bind, runs_pure] at h
    obtain ⟨⟨p, u, bindings⟩, s₁, hp, ⟨⟩, s₂, ht, ⟨ps, more⟩, s₃, hps, h, rfl⟩ := h
    cases h
    exact .cons (InfersPattern.of_run hp) ht
      (InfersArguments.of_run (Nat.succ.inj hlength) hps)

end

theorem runs_constraintCount {s s' : InferState} {n : Nat} :
    Runs constraintCount s n s' ↔ s.constraints.size = n ∧ s = s' := by
  simp only [constraintCount, runs_bind, runs_get, runs_pure]
  constructor
  · rintro ⟨_, _, ⟨rfl, rfl⟩, h⟩
    exact h
  · exact fun h => ⟨s, s, ⟨rfl, rfl⟩, h⟩

theorem runs_constraintsAround {start : Nat} {s s' : InferState}
    {parts : List Constraint × List Constraint} :
    Runs (constraintsAround start) s parts s' ↔
      s.constraints.toList.splitAt start = parts ∧ s = s' := by
  simp only [constraintsAround, runs_bind, runs_get, runs_pure]
  constructor
  · rintro ⟨_, _, ⟨rfl, rfl⟩, h⟩
    exact h
  · exact fun h => ⟨s, s, ⟨rfl, rfl⟩, h⟩

/-- Every run of inference on the tree keeps to the rules. -/
def KeepsRules (g : Generalizer) (n : Node) : Prop :=
  ∀ {n' : Node} {Γ : TypeEnvironment} {t : Ty} {s s' : InferState},
    Runs (n.infer g Γ) s (n', t) s' → Infers g Γ n s n' t s'

namespace KeepsRules

variable {g : Generalizer} {m : Mark}

theorem reference {x : String} : KeepsRules g (.reference m x) := by
  intro n' Γ t s s' h
  simp only [Node.infer] at h
  split at h
  · next t hx =>
    obtain ⟨h, rfl⟩ := runs_pure.1 h
    cases h
    exact .mono hx
  · next schema hx =>
    simp only [runs_bind, runs_pure] at h
    obtain ⟨t, s₁, ht, h, rfl⟩ := h
    cases h
    exact .poly hx ht
  · exact absurd h runs_throw

theorem builtin {b : Builtin} : KeepsRules g (.builtin m b) := by
  intro n' Γ t s s' h
  simp only [Node.infer, runs_bind] at h
  obtain ⟨t, s₁, ht, h⟩ := h
  cases b with
  | panic =>
    simp only [runs_bind, runs_pure] at h
    obtain ⟨u, s₂, hu, h, rfl⟩ := h
    cases h
    exact .panic ht hu
  | println =>
    cases h
    exact .printer (by decide) ht
  | print =>
    cases h
    exact .printer (by decide) ht

theorem letIn {x : String} {ascription : Option TypeExpr} {value body : Node}
    (hvalue : KeepsRules g value) (hbody : KeepsRules g body) :
    KeepsRules g (.letIn m x ascription value body) := by
  intro n' Γ t s s' h
  simp only [Node.infer, runs_bind, runs_constraintCount] at h
  obtain ⟨_, _, ⟨rfl, rfl⟩, ⟨value', t⟩, s₁, hrun, h⟩ := h
  cases ascription with
  | none =>
    simp only [runs_bind, runs_pure, runs_constraintsAround] at h
    obtain ⟨⟨earlier, since⟩, _, ⟨hcs, rfl⟩, ⟨body', u⟩, s₂, hrun', h, rfl⟩ := h
    cases h
    exact .letIn (hvalue hrun) rfl hcs (hbody hrun')
  | some a =>
    simp only [runs_bind, runs_pure, runs_constraintsAround] at h
    obtain ⟨⟨⟩, s₂, ha, ⟨earlier, since⟩, _, ⟨hcs, rfl⟩, ⟨body', u⟩, s₃, hrun', h, rfl⟩ := h
    cases h
    exact .letIn (hvalue hrun) ha hcs (hbody hrun')

theorem conditional {c a b : Node} (hc : KeepsRules g c) (ha : KeepsRules g a)
    (hb : KeepsRules g b) : KeepsRules g (.conditional m c a b) := by
  intro n' Γ t s s' h
  simp only [Node.infer, runs_bind, runs_pure] at h
  obtain ⟨⟨c', t⟩, s₁, hrun, ⟨⟩, s₂, ht, ⟨a', u⟩, s₃, hrun', ⟨b', v⟩, s₄, hrun'', ⟨⟩, s₅, hu, h,
    rfl⟩ := h
  cases h
  exact .conditional (hc hrun) ht (ha hrun') (hb hrun'') hu

theorem binary {o : BinaryOperator} {l r : Node} (hl : KeepsRules g l) (hr : KeepsRules g r) :
    KeepsRules g (.binary m o l r) := by
  intro n' Γ t s s' h
  simp only [Node.infer, runs_bind] at h
  obtain ⟨⟨l', t⟩, s₁, hrun, ⟨r', u⟩, s₂, hrun', h⟩ := h
  cases ho : o.operatorClass with
  | arithmetic =>
    simp only [ho, runs_bind, runs_pure] at h
    obtain ⟨⟨⟩, s₃, ht, ⟨⟩, s₄, hu, h, rfl⟩ := h
    cases h
    exact .ofInts (.inl ⟨ho, rfl⟩) (hl hrun) (hr hrun') ht hu
  | relational =>
    simp only [ho, runs_bind, runs_pure] at h
    obtain ⟨⟨⟩, s₃, ht, ⟨⟩, s₄, hu, h, rfl⟩ := h
    cases h
    exact .ofInts (.inr ⟨ho, rfl⟩) (hl hrun) (hr hrun') ht hu
  | equality =>
    simp only [ho, runs_bind, runs_pure] at h
    obtain ⟨⟨⟩, s₃, ht, h, rfl⟩ := h
    cases h
    exact .equality ho (hl hrun) (hr hrun') ht

theorem projection {index : Nat} {arity : Option Nat} {e : Node} (he : KeepsRules g e) :
    KeepsRules g (.projection m index arity e) := by
  intro n' Γ t s s' h
  simp only [Node.infer, runs_bind] at h
  obtain ⟨⟨e', t⟩, s₁, hrun, t', s₂, ht, h⟩ := h
  split at h
  · split at h
    · next u hu =>
      obtain ⟨h, rfl⟩ := runs_pure.1 h
      cases h
      exact .projection (he hrun) ht hu
    · exact absurd h runs_throw
  · exact absurd h runs_throw

end KeepsRules

mutual

/-- **A run that succeeds keeps to the rules.** -/
theorem Infers.of_run {g : Generalizer} : ∀ {n n' : Node} {Γ : TypeEnvironment} {t : Ty}
    {s s' : InferState}, Runs (n.infer g Γ) s (n', t) s' → Infers g Γ n s n' t s'
  | .top m e, _, _, _, _, _, h => by
    simp only [Node.infer, runs_bind, runs_pure] at h
    obtain ⟨⟨e', t⟩, s₁, he, h, rfl⟩ := h
    cases h
    exact .top (Infers.of_run he)
  | .literal m v, _, _, _, _, _, h => by
    simp only [Node.infer, runs_pure] at h
    obtain ⟨h, rfl⟩ := h
    cases h
    exact .literal
  | .reference .., _, _, _, _, _, h => KeepsRules.reference h
  | .builtin .., _, _, _, _, _, h => KeepsRules.builtin h
  | .lambda m x ascription body, _, _, _, _, _, h => by
    simp only [Node.infer, runs_bind, runs_pure] at h
    obtain ⟨t, s₁, ht, ⟨body', u⟩, s₂, hbody, h, rfl⟩ := h
    cases h
    exact .lambda ht (Infers.of_run hbody)
  | .application m f a, _, _, _, _, _, h => by
    simp only [Node.infer, runs_bind, runs_pure] at h
    obtain ⟨⟨f', t⟩, s₁, hf, ⟨a', u⟩, s₂, ha, r, s₃, hr, ⟨⟩, s₄, hc, h, rfl⟩ := h
    cases h
    exact .application (Infers.of_run hf) (Infers.of_run ha) hr hc
  | .letIn _ _ _ _ _, _, _, _, _, _, h =>
    KeepsRules.letIn (fun h => Infers.of_run h) (fun h => Infers.of_run h) h
  | .letRec m arms body, _, _, _, _, _, h => by
    simp only [Node.infer, runs_bind, runs_pure, runs_constraintCount, runs_constraintsAround] at h
    obtain ⟨declared, s₁, hdeclared, _, _, ⟨rfl, rfl⟩, arms', s₂, harms, ⟨earlier, since⟩, _,
      ⟨hcs, rfl⟩, ⟨body', u⟩, s₃, hbody, h, rfl⟩ := h
    cases h
    exact .letRec hdeclared (InfersGroup.of_run hdeclared harms) hcs (Infers.of_run hbody)
  | .conditional _ _ _ _, _, _, _, _, _, h =>
    KeepsRules.conditional (fun h => Infers.of_run h) (fun h => Infers.of_run h)
      (fun h => Infers.of_run h) h
  | .binary _ _ _ _, _, _, _, _, _, h =>
    KeepsRules.binary (fun h => Infers.of_run h) (fun h => Infers.of_run h) h
  | .unary m o e, _, _, _, _, _, h => by
    simp only [Node.infer, runs_bind, runs_pure] at h
    obtain ⟨⟨e', t⟩, s₁, he, ⟨⟩, s₂, ht, h, rfl⟩ := h
    cases h
    exact .unary (Infers.of_run he) ht
  | .sequence m es, _, _, _, _, _, h => by
    simp only [Node.infer, runs_bind, runs_pure] at h
    obtain ⟨⟨es', ts⟩, s₁, hes, h, rfl⟩ := h
    cases h
    exact .sequence (InfersAll.of_run hes)
  | .tuple m es, _, _, _, _, _, h => by
    simp only [Node.infer, runs_bind, runs_pure] at h
    obtain ⟨⟨es', ts⟩, s₁, hes, h, rfl⟩ := h
    cases h
    exact .tuple (InfersAll.of_run hes)
  | .projection _ _ _ _, _, _, _, _, _, h => KeepsRules.projection (fun h => Infers.of_run h) h
  | .dataType m d cs body, _, _, _, _, _, h => by
    simp only [Node.infer, runs_bind, runs_pure] at h
    obtain ⟨⟨cs', Γ'⟩, s₁, hcs, ⟨body', u⟩, s₂, hbody, h, rfl⟩ := h
    cases h
    exact .dataType hcs (Infers.of_run hbody)
  | .matchWith m e arms, _, _, _, _, _, h => by
    simp only [Node.infer, runs_bind, runs_pure] at h
    obtain ⟨⟨e', t⟩, s₁, he, r, s₂, hr, arms', s₃, harms, h, rfl⟩ := h
    cases h
    exact .matchWith (Infers.of_run he) hr (InfersArms.of_run harms)
termination_by structural n => n

theorem InfersAll.of_run {g : Generalizer} : ∀ {ns ns' : List Node} {Γ : TypeEnvironment}
    {ts : List Ty} {s s' : InferState}, Runs (Node.inferAll g Γ ns) s (ns', ts) s' →
      InfersAll g Γ ns s ns' ts s'
  | [], _, _, _, _, _, h => by
    simp only [Node.inferAll, runs_pure] at h
    obtain ⟨h, rfl⟩ := h
    cases h
    exact .nil
  | n :: ns, _, _, _, _, _, h => by
    simp only [Node.inferAll, runs_bind, runs_pure] at h
    obtain ⟨⟨n', t⟩, s₁, hn, ⟨ns', ts⟩, s₂, hns, h, rfl⟩ := h
    cases h
    exact .cons (Infers.of_run hn) (InfersAll.of_run hns)
termination_by structural ns => ns

theorem InfersGroup.of_run {g : Generalizer} : ∀ {ns ns' : List Node} {Γ : TypeEnvironment}
    {declared : List (String × Ty × Ty)} {s₀ s₁ s s' : InferState},
    Runs (declareGroup ns) s₀ declared s₁ →
    Runs (Node.inferGroup g Γ ns (declared.map Prod.snd)) s ns' s' →
      InfersGroup g Γ ns (declared.map Prod.snd) s ns' s'
  | [], _, _, _, _, _, _, _, hdeclared, h => by
    obtain ⟨rfl, rfl⟩ := runs_pure.1 hdeclared
    obtain ⟨rfl, rfl⟩ := runs_pure.1 h
    exact .nil
  | .letRecArm m f x pa ra body :: rest, _, _, _, _, _, _, _, hdeclared, h => by
    simp only [declareGroup, runs_bind, runs_pure] at hdeclared
    obtain ⟨p, _, _, r, _, _, more, _, hmore, rfl, rfl⟩ := hdeclared
    simp only [List.map_cons, Node.inferGroup, runs_bind, runs_pure] at h
    obtain ⟨⟨body', t⟩, s₁, hbody, ⟨⟩, s₂, ht, rest', s₃, hrest, rfl, rfl⟩ := h
    exact .cons (Infers.of_run hbody) ht (InfersGroup.of_run hmore hrest)
termination_by structural ns => ns

theorem InfersArms.of_run {g : Generalizer} : ∀ {ns ns' : List Node} {Γ : TypeEnvironment}
    {t r : Ty} {s s' : InferState}, Runs (Node.inferArms g Γ t r ns) s ns' s' →
      InfersArms g Γ t r ns s ns' s'
  | [], _, _, _, _, _, _, h => by
    obtain ⟨rfl, rfl⟩ := runs_pure.1 h
    exact .nil
  | .matchArm m p body :: rest, _, _, _, _, _, _, h => by
    simp only [Node.inferArms, runs_bind, runs_pure] at h
    obtain ⟨⟨p', u, bindings⟩, s₁, hp, ⟨⟩, s₂, ht, ⟨body', v⟩, s₃, hbody, ⟨⟩, s₄, hr, rest', s₅,
      hrest, rfl, rfl⟩ := h
    exact .cons (InfersPattern.of_run hp) ht (Infers.of_run hbody) hr (InfersArms.of_run hrest)
termination_by structural ns => ns

end

/-! ## 3. Whole programs -/

theorem Node.infers_of_inferTypesBy {g : Generalizer} {n : Node} {typing : Typing}
    (h : n.inferTypesBy g = .ok typing) :
    ∃ s', Infers g .empty n .empty typing.tree typing.type s' ∧
      typing.constraints = s'.constraints.toList := by
  unfold inferTypesBy at h
  split at h
  · next tree type s hrun =>
    cases h
    exact ⟨s, Infers.of_run hrun, rfl⟩
  · cases h

/-- Unification applies a solution of the equations. -/
theorem Typing.unify_ok_iff {typing : Typing} {tree : Node} :
    typing.unify = .ok tree ↔
      ∃ σ, solve typing.constraints = .ok σ ∧ tree = typing.tree.applyTypes σ := by
  refine bind_ok_iff.trans (exists_congr fun σ => and_congr_right fun _ => ?_)
  exact ⟨fun h => (Except.ok.inj h).symm, fun h => h ▸ rfl⟩

theorem Typing.unify_error_iff {typing : Typing} {e : CompileError} :
    typing.unify = .error e ↔ solve typing.constraints = .error e := by
  refine bind_error_iff.trans ⟨fun h => ?_, .inl⟩
  rcases h with h | ⟨σ, -, h⟩
  · exact h
  · cases h

end ClosureML
