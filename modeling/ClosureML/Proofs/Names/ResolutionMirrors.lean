import ClosureML.Names.Resolution
import ClosureML.Proofs.Syntax.Mirrors

/-!
# Resolving names in trees that mirror each other

Resolution of names does not look at positions, but for its errors: in trees that are the same up
to positions it gives the same names, or meets the same error.

Main statement: `Node.Mirrors.resolveNames`.
-/

namespace ClosureML

open Node (Mirrors MirrorsAll)

variable {R : Position → Position → Prop} {p p' : Position}

/-! ## 1. Steps -/

namespace Names

theorem fail_mirrors {α β : Type} {Q : α → β → Prop} {cause : Cause} (h : R p p') :
    InStep Eq Q (CompileError.Mirrors R) (fail cause p : Resolve α) (fail cause p' : Resolve β) :=
  .throw ⟨rfl, h⟩

theorem bindVariable_mirrors {scope : NameScope} {x : String} :
    InStep Eq Eq (CompileError.Mirrors R) (bindVariable scope x) (bindVariable scope x) :=
  .refl (.bind (.bind .get fun _ => .bind (.set _) fun _ => .pure _) fun _ => .pure _)

theorem checkTypes_mirrors {scope : NameScope} {types : List TypeExpr} (h : R p p') :
    InStep Eq (fun _ _ => True) (CompileError.Mirrors R) (checkTypes scope types p)
      (checkTypes scope types p') := by
  unfold checkTypes
  split
  · exact .pure trivial
  · exact fail_mirrors h

theorem constructorTag_mirrors {scope : NameScope} {c : String} (h : R p p') :
    InStep Eq Eq (CompileError.Mirrors R) (constructorTag scope c p)
      (constructorTag scope c p') := by
  unfold constructorTag
  split
  · exact .pure rfl
  · exact fail_mirrors h

theorem declareDataType_mirrors {d : String} (h : R p p') :
    InStep Eq (fun _ _ => True) (CompileError.Mirrors R) (declareDataType d p)
      (declareDataType d p') := by
  refine .bind .get ?_
  rintro registry _ rfl
  dsimp only
  split
  · exact .bind (Q := fun _ _ => False) (fail_mirrors h) fun _ _ h => h.elim
  · exact .set rfl

theorem declareConstructor_mirrors {c : String} (h : R p p') :
    InStep Eq (fun _ _ => True) (CompileError.Mirrors R) (declareConstructor c p)
      (declareConstructor c p') := by
  refine .bind .get ?_
  rintro registry _ rfl
  dsimp only
  split
  · exact .bind (Q := fun _ _ => False) (fail_mirrors h) fun _ _ h => h.elim
  · exact .set rfl

theorem declareConstructors_mirrors {d : String} : ∀ {cs cs' : List Node} {scope : NameScope},
    MirrorsAll Eq R cs cs' → InStep Eq (Beside (MirrorsAll Eq R) Eq)
      (CompileError.Mirrors R) (declareConstructors d scope cs) (declareConstructors d scope cs')
  | _, _, _, .nil => .pure ⟨.nil, rfl⟩
  | _, _, scope, .cons hc hcs => by
    have hposition := hc.position
    cases hc with
    | dataConstructor hm _ =>
      refine .bind (declareConstructor_mirrors hposition) fun _ _ _ => ?_
      refine .bind (checkTypes_mirrors hposition) fun _ _ _ => ?_
      refine .bind (.refl (.modifyGet _)) ?_
      rintro tag _ rfl
      refine .bind (declareConstructors_mirrors hcs) ?_
      rintro ⟨more, inner⟩ ⟨more', _⟩ ⟨hmore, rfl⟩
      exact .pure ⟨.cons (.dataConstructor hm rfl) hmore, rfl⟩
    | _ => exact fail_mirrors hposition

theorem repeatedFunction?_mirrors : ∀ {arms arms' : List Node} {seen : List String},
    MirrorsAll Eq R arms arms' → Option.Rel (Beside Eq R)
      (repeatedFunction? seen arms) (repeatedFunction? seen arms')
  | _, _, _, .nil => .none
  | _, _, seen, .cons harm harms => by
    cases harm with
    | letRecArm hm hf =>
      subst hf
      unfold repeatedFunction?
      split
      · exact .some ⟨rfl, hm.position⟩
      · exact repeatedFunction?_mirrors harms
    | _ =>
      unfold repeatedFunction?
      exact repeatedFunction?_mirrors harms

theorem bindGroup_mirrors : ∀ {arms arms' : List Node} {scope : NameScope},
    MirrorsAll Eq R arms arms' →
      InStep Eq Eq (CompileError.Mirrors R) (bindGroup scope arms) (bindGroup scope arms')
  | _, _, _, .nil => .pure rfl
  | _, _, scope, .cons harm harms => by
    unfold bindGroup
    cases harm with
    | letRecArm _ hf =>
      subst hf
      refine .bind bindVariable_mirrors ?_
      rintro ⟨renamed, inner⟩ _ rfl
      refine .bind (bindGroup_mirrors harms) ?_
      rintro ⟨more, group⟩ _ rfl
      exact .pure rfl
    | _ => exact bindGroup_mirrors harms

theorem bindInPattern_mirrors {arm : ArmScope} {x : String} (h : R p p') :
    InStep Eq Eq (CompileError.Mirrors R) (bindInPattern arm x p) (bindInPattern arm x p') := by
  unfold bindInPattern
  split
  · exact .bind (Q := fun _ _ => False) (fail_mirrors h) fun _ _ h => h.elim
  · refine .bind bindVariable_mirrors ?_
    rintro ⟨renamed, scope⟩ _ rfl
    exact .pure rfl

mutual

theorem resolvePattern_mirrors {scope : NameScope} : ∀ {n n' : Node} {arm : ArmScope},
    Mirrors Eq R n n' → InStep Eq (Beside (Mirrors Eq R) Eq)
      (CompileError.Mirrors R) (resolvePattern scope n arm) (resolvePattern scope n' arm)
  | _, _, _, .patternBinder hm rfl => .bind (bindInPattern_mirrors hm.position)
    fun ⟨_, _⟩ _ h => h ▸ .pure ⟨.patternBinder hm rfl, rfl⟩
  | _, _, _, .patternLiteral hm => .pure ⟨.patternLiteral hm, rfl⟩
  | _, _, _, .patternTuple hm hps => .bind (resolvePatterns_mirrors hps)
    fun ⟨_, _⟩ ⟨_, _⟩ ⟨hps, h⟩ => .pure ⟨.patternTuple hm hps, h⟩
  | _, _, _, .patternConstructor hm hps => .bind (constructorTag_mirrors hm.position)
    fun _ _ htag => .bind (resolvePatterns_mirrors hps) fun ⟨_, _⟩ ⟨_, _⟩ ⟨hps, h⟩ =>
      htag ▸ .pure ⟨.patternConstructor hm hps, h⟩
  | _, _, _, .top hm _ | _, _, _, .literal hm | _, _, _, .reference hm _ | _, _, _, .builtin hm
  | _, _, _, .lambda hm _ _ | _, _, _, .application hm _ _ | _, _, _, .letIn hm _ _ _
  | _, _, _, .letRec hm _ _ | _, _, _, .letRecArm hm _ _ _ | _, _, _, .conditional hm _ _ _
  | _, _, _, .binary hm _ _ | _, _, _, .unary hm _ | _, _, _, .sequence hm _ | _, _, _, .tuple hm _
  | _, _, _, .projection hm _ | _, _, _, .matchWith hm _ _ | _, _, _, .matchArm hm _ _
  | _, _, _, .dataType hm _ _ | _, _, _, .dataConstructor hm _ | _, _, _, .indexed hm =>
    fail_mirrors hm.position

theorem resolvePatterns_mirrors {scope : NameScope} : ∀ {ns ns' : List Node} {arm : ArmScope},
    MirrorsAll Eq R ns ns' → InStep Eq (Beside (MirrorsAll Eq R) Eq)
      (CompileError.Mirrors R) (resolvePatterns scope ns arm) (resolvePatterns scope ns' arm)
  | _, _, _, .nil => .pure ⟨.nil, rfl⟩
  | _, _, _, .cons hn hns => .bind (resolvePattern_mirrors hn) fun ⟨_, _⟩ ⟨_, _⟩ ⟨hn, rfl⟩ =>
    .bind (resolvePatterns_mirrors hns) fun ⟨_, _⟩ ⟨_, _⟩ ⟨hns, h⟩ => .pure ⟨.cons hn hns, h⟩

end

end Names

/-! ## 2. Trees -/

open Names

mutual

/-- **Names are resolved alike** in trees that mirror each other. -/
theorem Node.Mirrors.resolve : ∀ {n n' : Node} {scope : NameScope}, Mirrors Eq R n n' →
    InStep Eq (Mirrors Eq R) (CompileError.Mirrors R) (n.resolve scope) (n'.resolve scope)
  | _, _, _, .top hm he => .bind he.resolve fun _ _ he => .pure (.top hm he)
  | _, _, _, .literal hm => .pure (.literal hm)
  | _, _, scope, @Mirrors.reference _ _ _ _ x _ hm rfl => by
    unfold Node.resolve
    cases Names.lookup? scope x with
    | some renamed => exact .pure (.reference hm rfl)
    | none => exact fail_mirrors hm.position
  | _, _, _, .builtin hm => .pure (.builtin hm)
  | _, _, _, .lambda hm rfl hbody => .bind (checkTypes_mirrors hm.position) fun _ _ _ =>
    .bind bindVariable_mirrors fun (_, _) _ h => h ▸ .bind hbody.resolve fun _ _ hbody =>
      .pure (.lambda hm rfl hbody)
  | _, _, _, .application hm hf he => .bind hf.resolve fun _ _ hf => .bind he.resolve fun _ _ he =>
    .pure (.application hm hf he)
  | _, _, _, .letIn hm rfl hvalue hbody => .bind (checkTypes_mirrors hm.position) fun _ _ _ =>
    .bind hvalue.resolve fun _ _ hvalue => .bind bindVariable_mirrors fun (_, _) _ h =>
      h ▸ .bind hbody.resolve fun _ _ hbody => .pure (.letIn hm rfl hvalue hbody)
  | _, _, scope, @Mirrors.letRec _ _ _ _ arms arms' _ _ hm harms hbody => by
    unfold Node.resolve
    have hrepeated : Option.Rel _ (repeatedFunction? [] arms) (repeatedFunction? [] arms') :=
      repeatedFunction?_mirrors harms
    generalize repeatedFunction? [] arms = r at hrepeated
    generalize repeatedFunction? [] arms' = r' at hrepeated
    cases hrepeated with
    | @some r r' h =>
      obtain ⟨f, p⟩ := r
      obtain ⟨_, p'⟩ := r'
      obtain ⟨rfl, hp⟩ := h
      exact .bind (Q := fun _ _ => False) (fail_mirrors hp) fun _ _ h => h.elim
    | none =>
      exact .bind (bindGroup_mirrors harms) fun (_, _) _ h => h ▸ .bind harms.resolveGroup
        fun _ _ harms => .bind hbody.resolve fun _ _ hbody => .pure (.letRec hm harms hbody)
  | _, _, _, .letRecArm hm rfl rfl hbody => .bind hbody.resolve fun _ _ hbody =>
    .pure (.letRecArm hm rfl rfl hbody)
  | _, _, _, .conditional hm hc ht he => .bind hc.resolve fun _ _ hc =>
    .bind ht.resolve fun _ _ ht => .bind he.resolve fun _ _ he => .pure (.conditional hm hc ht he)
  | _, _, _, .binary hm hl hr => .bind hl.resolve fun _ _ hl => .bind hr.resolve fun _ _ hr =>
    .pure (.binary hm hl hr)
  | _, _, _, .unary hm he => .bind he.resolve fun _ _ he => .pure (.unary hm he)
  | _, _, _, .sequence hm hes => .bind hes.resolve fun _ _ hes => .pure (.sequence hm hes)
  | _, _, _, .tuple hm hes => .bind hes.resolve fun _ _ hes => .pure (.tuple hm hes)
  | _, _, _, .projection hm he => .bind he.resolve fun _ _ he => .pure (.projection hm he)
  | _, _, _, .matchWith hm he harms => .bind he.resolve fun _ _ he => .bind harms.resolve
    fun _ _ harms => .pure (.matchWith hm he harms)
  | _, _, _, .matchArm hm hp hbody => .bind (resolvePattern_mirrors hp)
    fun (_, _) (_, _) ⟨hp, rfl⟩ => .bind hbody.resolve fun _ _ hbody =>
      .pure (.matchArm hm hp hbody)
  | _, _, _, .dataType hm hcs hbody => .bind (declareDataType_mirrors hm.position) fun _ _ _ =>
    .bind (declareConstructors_mirrors hcs) fun (_, _) (_, _) ⟨hcs, rfl⟩ =>
      .bind hbody.resolve fun _ _ hbody => .pure (.dataType hm hcs hbody)
  | _, _, _, .dataConstructor hm hc => .pure (.dataConstructor hm hc)
  | _, _, _, .patternBinder hm hx => .pure (.patternBinder hm hx)
  | _, _, _, .patternTuple hm hps => .bind hps.resolve fun _ _ hps => .pure (.patternTuple hm hps)
  | _, _, _, .patternLiteral hm => .pure (.patternLiteral hm)
  | _, _, _, .patternConstructor hm hps => .bind hps.resolve fun _ _ hps =>
    .pure (.patternConstructor hm hps)
  | _, _, _, .indexed hm => .pure (.indexed hm)

theorem Node.MirrorsAll.resolve : ∀ {ns ns' : List Node} {scope : NameScope},
    MirrorsAll Eq R ns ns' → InStep Eq (MirrorsAll Eq R) (CompileError.Mirrors R)
      (Node.resolveAll scope ns) (Node.resolveAll scope ns')
  | _, _, _, .nil => .pure .nil
  | _, _, _, .cons hn hns => .bind hn.resolve fun _ _ hn => .bind hns.resolve fun _ _ hns =>
    .pure (.cons hn hns)

theorem Node.MirrorsAll.resolveGroup : ∀ {ns ns' : List Node} {scope group : NameScope}
    {names : List String}, MirrorsAll Eq R ns ns' →
      InStep Eq (MirrorsAll Eq R) (CompileError.Mirrors R)
        (Node.resolveGroup scope group ns names) (Node.resolveGroup scope group ns' names)
  | _, _, _, _, _, .nil => .pure .nil
  | _, _, scope, group, names, .cons hn hns => by
    unfold Node.resolveGroup
    have hother := hn
    cases hn with
    | letRecArm hm hf hx hbody =>
      subst hf hx
      exact .bind (checkTypes_mirrors hm.position) fun _ _ _ =>
        .bind bindVariable_mirrors fun (_, _) _ h => h ▸ .bind hbody.resolve fun _ _ hbody =>
          .bind hns.resolveGroup fun _ _ hns => .pure (.cons (.letRecArm hm rfl rfl hbody) hns)
    | _ => exact .bind hns.resolveGroup fun _ _ hns => .pure (.cons hother hns)

end

/-- **Programs that mirror each other** have their names resolved to such programs, or end with
    errors that mirror each other. -/
theorem Node.Mirrors.resolveNames {n n' : Node} (h : Mirrors Eq R n n') :
    Together (Mirrors Eq R) (CompileError.Mirrors R) n.resolveNames n'.resolveNames := by
  unfold Node.resolveNames
  obtain ⟨m, m', t, t', hrun, hrun', -, hm⟩ | ⟨e, e', ⟨t, hfails⟩, ⟨t', hfails'⟩, he⟩ :=
    (h.resolve : InStep _ _ _ (n.resolve .empty) (n'.resolve .empty)) .empty .empty rfl
  · simp only [Runs] at hrun hrun'
    rw [hrun, hrun']
    exact .ok hm
  · rw [hfails, hfails']
    exact .error he

end ClosureML
