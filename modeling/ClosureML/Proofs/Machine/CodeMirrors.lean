import ClosureML.Lowering.Tuple
import ClosureML.Machine.Generation
import ClosureML.Names.Indexing
import ClosureML.Proofs.Names.Numbered
import ClosureML.Proofs.Syntax.Mirrors
import Mathlib.Logic.Relator

/-!
# Code of trees that mirror each other

Behind unification the passes look at names only to tell whether they are the same, and make up the
same new names for trees that mirror each other. What is left of a name is the place of its binder,
so such trees get the same code.

* `Failure.Mirrors`: failures that mirror each other;
* `Slot.Mirrors`: slots of the environment whose names stand for each other.

Main statements: `Node.Mirrors.lower`, `Node.Mirrors.index`, `Node.Mirrors.code` and
`Node.Mirrors.generate`.
-/

namespace ClosureML

open Node (Mirrors MirrorsAll)

variable {N : String → String → Prop} {R : Position → Position → Prop} {p p' : Position}

/-- Failures that mirror each other: errors that do, or defects. -/
inductive Failure.Mirrors (R : Position → Position → Prop) : Failure → Failure → Prop where
  | error {e e' : CompileError} (h : e.Mirrors R e') : Failure.Mirrors R (.error e) (.error e')
  | defect : Failure.Mirrors R .defect .defect

namespace Lowering

/-! ## 1. Nodes that lowering makes -/

section Nodes

variable {x x' : String} {e e' f f' body body' : Node}

theorem integer_mirrors (hp : R p p') (n : Int) : Mirrors N R (integer p n) (integer p' n) :=
  .literal (Mark.mirrors_at hp)

theorem reference_mirrors (hp : R p p') (hx : N x x') :
    Mirrors N R (reference p x) (reference p' x') := .reference (Mark.mirrors_at hp) hx

theorem apply_mirrors (hp : R p p') (hf : Mirrors N R f f') (he : Mirrors N R e e') :
    Mirrors N R (apply p f e) (apply p' f' e') := .application (Mark.mirrors_at hp) hf he

theorem function_mirrors (hp : R p p') (hx : N x x') (hbody : Mirrors N R body body') :
    Mirrors N R (function p x body) (function p' x' body') := .lambda (Mark.mirrors_at hp) hx hbody

theorem functions_mirrors (hp : R p p') (hbody : Mirrors N R body body') : ∀ {xs xs' : List String},
    List.Forall₂ N xs xs' → Mirrors N R (functions p xs body) (functions p' xs' body')
  | _, _, .nil => hbody
  | _, _, .cons hx hxs => function_mirrors hp hx (functions_mirrors hp hbody hxs)

theorem bind_mirrors (hp : R p p') (hx : N x x') (he : Mirrors N R e e')
    (hbody : Mirrors N R body body') : Mirrors N R (bind p x e body) (bind p' x' e' body') :=
  .letIn (Mark.mirrors_at hp) hx he hbody

theorem choose_mirrors (hp : R p p') (he : Mirrors N R e e') (hf : Mirrors N R f f')
    (hbody : Mirrors N R body body') : Mirrors N R (choose p e f body) (choose p' e' f' body') :=
  .conditional (Mark.mirrors_at hp) he hf hbody

theorem equals_mirrors (hp : R p p') (he : Mirrors N R e e') (hf : Mirrors N R f f') :
    Mirrors N R (equals p e f) (equals p' e' f') := .binary (Mark.mirrors_at hp) he hf

theorem component_mirrors (hp : R p p') (hx : N x x') (index arity : Nat) :
    Mirrors N R (component p x index arity) (component p' x' index arity) :=
  .projection (Mark.mirrors_at hp) (reference_mirrors hp hx)

theorem pair_mirrors (hp : R p p') (he : Mirrors N R e e') (hf : Mirrors N R f f') :
    Mirrors N R (pair p e f) (pair p' e' f') :=
  .tuple (Mark.mirrors_at hp) (.cons he (.cons hf .nil))

theorem success_mirrors (hp : R p p') (he : Mirrors N R e e') :
    Mirrors N R (success p e) (success p' e') := pair_mirrors hp (integer_mirrors hp _) he

theorem failure_mirrors (hp : R p p') : Mirrors N R (failure p) (failure p') :=
  pair_mirrors hp (integer_mirrors hp _) (integer_mirrors hp _)

end Nodes

/-! ## 2. Names that lowering makes up -/

/-- Two runs of lowering, with names from one supply. -/
abbrev LowersAlike {α α' : Type} (R : Position → Position → Prop) (Q : α → α' → Prop) (x : Lower α)
    (x' : Lower α') : Prop := InStep Eq Q (Failure.Mirrors R) x x'

theorem fail_mirrors {α α' : Type} {Q : α → α' → Prop} {cause : Cause} (hp : R p p') :
    LowersAlike R Q (fail cause p : Lower α) (fail cause p' : Lower α') := .throw (.error ⟨rfl, hp⟩)

/-- Names that lowering makes up stand for themselves. -/
def KeepsGenerated (N : String → String → Prop) : Prop :=
  ∀ stem ∈ loweringStems, ∀ k, N (generatedName stem k) (generatedName stem k)

theorem freshName_mirrors (hgenerated : KeepsGenerated N) {stem : String}
    (hstem : stem ∈ loweringStems) : LowersAlike R N (freshName stem) (freshName stem) :=
  .modifyGet fun s s' hs => by
    subst hs
    exact ⟨rfl, hgenerated stem hstem (s.count stem)⟩

theorem freshNames_mirrors (hgenerated : KeepsGenerated N) {stem : String}
    (hstem : stem ∈ loweringStems) : ∀ {n : Nat},
      LowersAlike R (List.Forall₂ N) (freshNames stem n) (freshNames stem n)
  | 0 => .pure .nil
  | _ + 1 => .bind (freshName_mirrors hgenerated hstem) fun _ _ hx =>
    .bind (freshNames_mirrors hgenerated hstem) fun _ _ hxs => .pure (.cons hx hxs)

/-! ## 3. Matches -/

theorem applyInTurn_mirrors {argument argument' : String} {arity : Nat} (hp : R p p')
    (hargument : N argument argument') : ∀ {names names' : List String} {f f' : Node} {step : Nat},
    Mirrors N R f f' → List.Forall₂ N names names' →
      Mirrors N R (applyInTurn p argument arity f step names)
        (applyInTurn p' argument' arity f' step names')
  | _, _, _, _, _, hf, .nil => hf
  | _, _, _, _, _, hf, .cons _ .nil => apply_mirrors hp hf (component_mirrors hp hargument _ _)
  | _, _, _, _, _, hf, .cons hr (.cons hs hrest) =>
    bind_mirrors hp hr (apply_mirrors hp hf (component_mirrors hp hargument _ _))
      (choose_mirrors hp (equals_mirrors hp (component_mirrors hp hr _ _) (integer_mirrors hp _))
        (failure_mirrors hp)
        (applyInTurn_mirrors hp hargument (component_mirrors hp hr _ _) (.cons hs hrest)))

theorem tupleFunction_mirrors (hgenerated : KeepsGenerated N) (hp : R p p') {ns ns' : List Node}
    {result result' : Node} (hns : MirrorsAll N R ns ns') (hresult : Mirrors N R result result')
    (hchained : LowersAlike R (Mirrors N R) (chainedFunction p result ns)
      (chainedFunction p' result' ns')) :
    LowersAlike R (Mirrors N R) (tupleFunction p result ns) (tupleFunction p' result' ns') := by
  unfold tupleFunction
  refine .bind (freshName_mirrors hgenerated (by decide)) fun _ _ hx => ?_
  rw [hns.isEmpty_eq, hns.length_eq]
  split
  · exact .pure (function_mirrors hp hx (success_mirrors hp hresult))
  · exact .bind hchained fun _ _ hchained =>
      .bind (freshName_mirrors hgenerated (by decide)) fun _ _ hchain =>
        .bind (freshNames_mirrors hgenerated (by decide)) fun _ _ hsteps =>
          .pure (function_mirrors hp hx (bind_mirrors hp hchain hchained
            (applyInTurn_mirrors hp hx (reference_mirrors hp hchain) hsteps)))

mutual

theorem patternFunction_mirrors (hgenerated : KeepsGenerated N) (hp : R p p') :
    ∀ {n n' result result' : Node}, Mirrors N R n n' → Mirrors N R result result' →
      LowersAlike R (Mirrors N R) (patternFunction p result n) (patternFunction p' result' n')
  | _, _, _, _, .patternBinder _ hx, hresult => by
    unfold patternFunction
    exact .pure (function_mirrors hp hx (success_mirrors hp hresult))
  | _, _, _, _, .patternLiteral _, hresult => by
    unfold patternFunction
    exact .bind (freshName_mirrors hgenerated (by decide)) fun _ _ hx =>
      .pure (function_mirrors hp hx (choose_mirrors hp
        (equals_mirrors hp (reference_mirrors hp hx) (.literal (Mark.mirrors_at hp)))
        (success_mirrors hp hresult) (failure_mirrors hp)))
  | _, _, _, _, .patternTuple _ hps, hresult => by
    unfold patternFunction
    exact tupleFunction_mirrors hgenerated hp hps hresult
      (chainedFunction_mirrors hgenerated hp hps hresult)
  | _, _, _, _, @Mirrors.patternConstructor _ _ _ _ _ _ _ tag hm hps, hresult => by
    unfold patternFunction
    cases tag with
    | none => exact fail_mirrors hm.position
    | some tag =>
      exact .bind (freshName_mirrors hgenerated (by decide)) fun _ _ hx =>
        .bind (tupleFunction_mirrors hgenerated hp hps hresult
          (chainedFunction_mirrors hgenerated hp hps hresult)) fun _ _ hpayload =>
          .pure (function_mirrors hp hx (choose_mirrors hp
            (equals_mirrors hp (component_mirrors hp hx _ _) (integer_mirrors hp _))
            (apply_mirrors hp hpayload (component_mirrors hp hx _ _)) (failure_mirrors hp)))
  | _, _, _, _, .top hm _, _ | _, _, _, _, .literal hm, _ | _, _, _, _, .reference hm _, _
  | _, _, _, _, .builtin hm, _ | _, _, _, _, .lambda hm _ _, _ | _, _, _, _, .application hm _ _, _
  | _, _, _, _, .letIn hm _ _ _, _ | _, _, _, _, .letRec hm _ _, _
  | _, _, _, _, .letRecArm hm _ _ _, _ | _, _, _, _, .conditional hm _ _ _, _
  | _, _, _, _, .binary hm _ _, _ | _, _, _, _, .unary hm _, _ | _, _, _, _, .sequence hm _, _
  | _, _, _, _, .tuple hm _, _ | _, _, _, _, .projection hm _, _ | _, _, _, _, .matchWith hm _ _, _
  | _, _, _, _, .matchArm hm _ _, _ | _, _, _, _, .dataType hm _ _, _
  | _, _, _, _, .dataConstructor hm _, _ | _, _, _, _, .indexed hm, _ => by
    unfold patternFunction
    exact fail_mirrors hm.position
termination_by structural _ _ _ _ h => h

theorem chainedFunction_mirrors (hgenerated : KeepsGenerated N) (hp : R p p') :
    ∀ {ns ns' : List Node} {result result' : Node}, MirrorsAll N R ns ns' →
      Mirrors N R result result' →
      LowersAlike R (Mirrors N R) (chainedFunction p result ns) (chainedFunction p' result' ns')
  | _, _, _, _, .nil, hresult => by
    unfold chainedFunction
    exact .pure hresult
  | _, _, _, _, .cons hn hns, hresult => by
    unfold chainedFunction
    exact .bind (chainedFunction_mirrors hgenerated hp hns hresult) fun _ _ hinner =>
      patternFunction_mirrors hgenerated hp hn hinner
termination_by structural _ _ _ _ h => h

end

theorem attempts_mirrors (hgenerated : KeepsGenerated N) (hp : R p p')
    {scrutinee scrutinee' : String} (hscrutinee : N scrutinee scrutinee') {arms arms' : List Node}
    (h : MirrorsAll N R arms arms') :
    LowersAlike R (List.Forall₂ (Beside N (Mirrors N R))) (attempts p scrutinee arms)
      (attempts p' scrutinee' arms') := by
  induction arms generalizing arms' with
  | nil =>
    cases h
    exact .pure .nil
  | cons arm rest ih =>
    obtain _ | ⟨harm, harms⟩ := h
    have hposition := harm.position
    cases harm with
    | matchArm _ hpattern hbody =>
      exact .bind (freshName_mirrors hgenerated (by decide)) fun _ _ hresult =>
        .bind (freshName_mirrors hgenerated (by decide)) fun _ _ hmatcher =>
          .bind (patternFunction_mirrors hgenerated hp hpattern hbody) fun _ _ hf =>
            .bind (ih harms) fun _ _ hmore =>
              .pure (.cons ⟨hresult, bind_mirrors hp hmatcher hf (apply_mirrors hp
                (reference_mirrors hp hmatcher) (reference_mirrors hp hscrutinee))⟩ hmore)
    | _ => exact fail_mirrors hposition

theorem firstSuccess_mirrors (hp : R p p') : ∀ {tried tried' : List (String × Node)},
    List.Forall₂ (Beside N (Mirrors N R)) tried tried' →
      Mirrors N R (firstSuccess p tried) (firstSuccess p' tried')
  | _, _, .nil => apply_mirrors hp (.builtin (Mark.mirrors_at hp)) (integer_mirrors hp _)
  | (_, _) :: _, (_, _) :: _, .cons ⟨hv, hattempt⟩ hrest =>
    bind_mirrors hp hv hattempt (choose_mirrors hp
      (equals_mirrors hp (component_mirrors hp hv _ _) (integer_mirrors hp _))
      (component_mirrors hp hv _ _) (firstSuccess_mirrors hp hrest))

/-! ## 4. Data types -/

theorem constructorValue_mirrors (hgenerated : KeepsGenerated N) (hp : R p p') {tag : Nat}
    {parameters : List TypeExpr} :
    LowersAlike R (Mirrors N R) (constructorValue p tag parameters)
      (constructorValue p' tag parameters) := by
  unfold constructorValue
  split
  · exact .pure (pair_mirrors hp (integer_mirrors hp _) (.literal (Mark.mirrors_at hp)))
  · refine .bind (freshNames_mirrors hgenerated (by decide)) fun xs xs' hxs => .pure ?_
    have hreferences : ∀ {xs xs' : List String}, List.Forall₂ N xs xs' →
        MirrorsAll N R (xs.map (reference p)) (xs'.map (reference p')) := fun hxs => by
      induction hxs with
      | nil => exact .nil
      | cons hx _ ih => exact .cons (reference_mirrors hp hx) ih
    exact functions_mirrors hp (pair_mirrors hp (integer_mirrors hp _)
      (.tuple (Mark.mirrors_at hp) (hreferences hxs))) hxs

theorem constructorValues_mirrors (hgenerated : KeepsGenerated N) (hp : R p p')
    {cs cs' : List Node} (h : MirrorsAll N R cs cs') :
    LowersAlike R (List.Forall₂ (Beside N (Mirrors N R))) (constructorValues p cs)
      (constructorValues p' cs') := by
  induction cs generalizing cs' with
  | nil =>
    cases h
    exact .pure .nil
  | cons c rest ih =>
    obtain _ | ⟨hc, hcs⟩ := h
    have hposition := hc.position
    cases hc with
    | @dataConstructor _ _ _ _ tag _ hc =>
      cases tag with
      | none => exact fail_mirrors hposition
      | some tag =>
        exact .bind (constructorValue_mirrors hgenerated hp) fun _ _ hvalue =>
          .bind (ih hcs) fun _ _ hmore =>
            .pure (.cons ⟨hc, hvalue⟩ hmore)
    | _ => exact fail_mirrors hposition

theorem lowerMatchNode_mirrors (hgenerated : KeepsGenerated N) {n n' : Node}
    (h : Mirrors N R n n') :
    LowersAlike R (Mirrors N R) (lowerMatchNode n) (lowerMatchNode n') := by
  have hother := h
  cases h with
  | dataType hm hcs hbody =>
    refine .bind (constructorValues_mirrors hgenerated hm.position hcs)
      fun values values' hvalues => .pure ?_
    induction hvalues with
    | nil => exact hbody
    | @cons value value' _ _ hvalue _ ih =>
      obtain ⟨c, v⟩ := value
      obtain ⟨c', v'⟩ := value'
      exact bind_mirrors hm.position hvalue.1 hvalue.2 ih
  | matchWith hm he harms =>
    exact .bind (freshName_mirrors hgenerated (by decide)) fun _ _ hx =>
      .bind (attempts_mirrors hgenerated hm.position hx harms) fun _ _ htried =>
        .pure (bind_mirrors hm.position hx he (firstSuccess_mirrors hm.position htried))
  | _ => exact .pure hother

/-! ## 5. Tuples -/

theorem eraseTuple_mirrors (hgenerated : KeepsGenerated N) (hp : R p p') {es es' : List Node}
    (h : MirrorsAll N R es es') :
    LowersAlike R (Mirrors N R) (eraseTuple p es) (eraseTuple p' es') := by
  unfold eraseTuple
  rw [h.isEmpty_eq, h.length_eq]
  split
  · exact .pure (.literal (Mark.mirrors_at hp))
  · refine .bind (freshNames_mirrors hgenerated (by decide)) fun ts ts' hts => ?_
    refine .bind (freshName_mirrors hgenerated (by decide)) fun s s' hs => .pure ?_
    have hhanded : ∀ {ts ts' : List String} {f f' : Node}, List.Forall₂ N ts ts' →
        Mirrors N R f f' → Mirrors N R (ts.foldl (fun f t => apply p f (reference p t)) f)
          (ts'.foldl (fun f t => apply p' f (reference p' t)) f') := by
      intro ts ts' f f' hts
      induction hts generalizing f f' with
      | nil => exact id
      | cons ht _ ih => exact fun hf => ih (apply_mirrors hp hf (reference_mirrors hp ht))
    have hbound : ∀ {ts ts' : List String} {es es' : List Node} {body body' : Node},
        List.Forall₂ N ts ts' → MirrorsAll N R es es' → Mirrors N R body body' →
          Mirrors N R ((ts.zip es).foldr (fun entry body => bind p entry.1 entry.2 body) body)
            ((ts'.zip es').foldr (fun entry body => bind p' entry.1 entry.2 body) body') := by
      intro ts ts' es es' body body' hts hes hbody
      induction hts generalizing es es' with
      | nil => exact hbody
      | cons ht _ ih =>
        cases hes with
        | nil => exact hbody
        | cons he hes => exact bind_mirrors hp ht he (ih hes)
    exact hbound hts h (function_mirrors hp hs (hhanded hts (reference_mirrors hp hs)))

/-- At one place, lists of names that stand for each other hold such names, or end both. -/
theorem getElem?_mirrors {xs xs' : List String} (h : List.Forall₂ N xs xs') (index : Nat) :
    Option.Rel N xs[index]? xs'[index]? := by
  induction h generalizing index with
  | nil => exact .none
  | cons hx _ ih =>
    cases index with
    | zero => exact .some hx
    | succ index => exact ih index

theorem selector_mirrors (hgenerated : KeepsGenerated N) (hp : R p p') {index arity : Nat} :
    LowersAlike R (Mirrors N R) (selector p index arity) (selector p' index arity) := by
  unfold selector
  refine .bind (freshNames_mirrors hgenerated (by decide)) fun xs xs' hxs => ?_
  have hget := getElem?_mirrors hxs index
  revert hget
  generalize xs[index]? = found
  generalize xs'[index]? = found'
  rintro (hx | _)
  · exact .pure (functions_mirrors hp (reference_mirrors hp hx) hxs)
  · exact .throw .defect

theorem eraseNode_mirrors (hgenerated : KeepsGenerated N) {n n' : Node} (h : Mirrors N R n n') :
    LowersAlike R (Mirrors N R) (eraseNode n) (eraseNode n') := by
  have hother := h
  cases h with
  | tuple hm hes => exact eraseTuple_mirrors hgenerated hm.position hes
  | @projection _ _ _ arity _ _ hm he =>
    cases arity with
    | none => exact fail_mirrors hm.position
    | some arity =>
      exact .bind (selector_mirrors hgenerated hm.position) fun _ _ hselector =>
        .pure (apply_mirrors hm.position he hselector)
  | _ => exact .pure hother

end Lowering

open Lowering

/-- **Trees that mirror each other are lowered to such trees.** -/
theorem Node.Mirrors.lower (hgenerated : KeepsGenerated N) {n n' : Node} (h : Mirrors N R n n') :
    Together (Mirrors N R) (Failure.Mirrors R) n.lower n'.lower := by
  have hlowered : LowersAlike R (Mirrors N R) (n.lowerMatches >>= Node.eraseTuples)
      (n'.lowerMatches >>= Node.eraseTuples) :=
    .bind (h.rebuild fun _ _ => lowerMatchNode_mirrors hgenerated) fun _ _ h =>
      h.rebuild fun _ _ => eraseNode_mirrors hgenerated
  unfold Node.lower
  dsimp only
  obtain ⟨_, _, _, _, hrun, hrun', -, h⟩ | ⟨_, _, ⟨_, hfails⟩, ⟨_, hfails'⟩, he⟩ :=
    hlowered .empty .empty rfl
  · simp only [Runs] at hrun hrun'
    rw [hrun, hrun']
    exact .ok h
  · rw [hfails, hfails']
    exact .error he

/-! ## 6. Places in the environment -/

/-- Slots that mirror each other: their names stand for each other. -/
inductive Slot.Mirrors (N : String → String → Prop) : Slot → Slot → Prop where
  | single {x x' : String} (hx : N x x') : Slot.Mirrors N (.single x) (.single x')
  | group {fs fs' : List String} (hfs : List.Forall₂ N fs fs') :
      Slot.Mirrors N (.group fs) (.group fs')

/-- Environments that mirror each other. -/
abbrev SlotsMirror (N : String → String → Prop) (slots slots' : Scope Slot) : Prop :=
  List.Forall₂ (Slot.Mirrors N) slots.toList slots'.toList

theorem SlotsMirror.extend {slots slots' : Scope Slot} (h : SlotsMirror N slots slots')
    {slot slot' : Slot} (hslot : slot.Mirrors N slot') :
    SlotsMirror N (slots.extend slot) (slots'.extend slot') := .cons hslot h

theorem Slot.Mirrors.member?_eq (hN : Relator.BiUnique N) {x x' : String} (hx : N x x')
    {slot slot' : Slot} (h : slot.Mirrors N slot') : slot.member? x = slot'.member? x' := by
  have hsame : ∀ {y y' : String}, N y y' → (y = x ↔ y' = x') := fun hy =>
    Relator.rel_eq hN hy hx
  cases h with
  | single hy => simp only [member?, hsame hy]
  | group hfs =>
    have hfind : ∀ {fs fs' : List String}, List.Forall₂ N fs fs' →
        fs.findIdx? (fun bound => decide (bound = x))
          = fs'.findIdx? fun bound => decide (bound = x') := fun hfs => by
      induction hfs with
      | nil => rfl
      | cons hf _ ih => rw
          [List.findIdx?_cons, List.findIdx?_cons, ih, decide_eq_decide.2 (hsame hf)]
    simp only [member?, hfind hfs]

/-- Names that stand for each other lie in the same place. -/
theorem place?_mirrors (hN : Relator.BiUnique N) {x x' : String} (hx : N x x')
    {slots slots' : List Slot} (h : List.Forall₂ (Slot.Mirrors N) slots slots') :
    Slot.place? x slots = Slot.place? x' slots' := by
  induction h with
  | nil => rfl
  | cons hslot _ ih => simp only [Slot.place?, hslot.member?_eq hN hx, ih]

theorem groupNames_mirrors {arms arms' : List Node} (h : MirrorsAll N R arms arms') :
    Together (List.Forall₂ N) (CompileError.Mirrors R) (Indexing.groupNames arms)
      (Indexing.groupNames arms') := by
  induction arms generalizing arms' with
  | nil =>
    cases h
    exact .pure .nil
  | cons arm rest ih =>
    obtain _ | ⟨harm, harms⟩ := h
    have hposition := harm.position
    cases harm with
    | letRecArm _ hf _ _ => exact .bind (ih harms) fun _ _ hfs => .pure (.cons hf hfs)
    | _ => exact .error ⟨rfl, hposition⟩

mutual

/-- **In environments that mirror each other, references get the same places.** -/
theorem Node.Mirrors.index (hN : Relator.BiUnique N) :
    ∀ {n n' : Node} {slots slots' : Scope Slot}, Mirrors N R n n' → SlotsMirror N slots slots' →
      Together (Mirrors N R) (CompileError.Mirrors R) (n.index slots) (n'.index slots')
  | _, _, _, _, .reference hm hx, hslots => by
    unfold Node.index
    rw [place?_mirrors hN hx hslots]
    split
    · exact .pure (.indexed hm)
    · exact .error ⟨rfl, hm.position⟩
  | _, _, _, _, .lambda hm hx hbody, hslots =>
    .bind (hbody.index hN (hslots.extend (.single hx))) fun _ _ hbody => .pure (.lambda hm hx hbody)
  | _, _, _, _, .letIn hm hx hvalue hbody, hslots => .bind
      (hvalue.index hN hslots) fun _ _ hvalue =>
    .bind (hbody.index hN (hslots.extend (.single hx))) fun _ _ hbody =>
      .pure (.letIn hm hx hvalue hbody)
  | _, _, _, _, .letRec hm harms hbody, hslots => .bind (groupNames_mirrors harms) fun _ _ hfs =>
    .bind (harms.indexGroup hN (hslots.extend (.group hfs))) fun _ _ harms =>
      .bind (hbody.index hN (hslots.extend (.group hfs))) fun _ _ hbody =>
        .pure (.letRec hm harms hbody)
  | _, _, _, _, .top hm he, hslots => .bind (he.index hN hslots) fun _ _ he => .pure (.top hm he)
  | _, _, _, _, .letRecArm hm hf hx hbody, hslots => .bind (hbody.index hN hslots) fun _ _ hbody =>
    .pure (.letRecArm hm hf hx hbody)
  | _, _, _, _, .application hm hf he, hslots => .bind (hf.index hN hslots) fun _ _ hf =>
    .bind (he.index hN hslots) fun _ _ he => .pure (.application hm hf he)
  | _, _, _, _, .conditional hm hc ht he, hslots => .bind (hc.index hN hslots) fun _ _ hc =>
    .bind (ht.index hN hslots) fun _ _ ht => .bind (he.index hN hslots) fun _ _ he =>
      .pure (.conditional hm hc ht he)
  | _, _, _, _, .binary hm hl hr, hslots => .bind (hl.index hN hslots) fun _ _ hl =>
    .bind (hr.index hN hslots) fun _ _ hr => .pure (.binary hm hl hr)
  | _, _, _, _, .unary hm he, hslots => .bind (he.index hN hslots) fun _ _ he => .pure
      (.unary hm he)
  | _, _, _, _, .sequence hm hes, hslots => .bind (hes.index hN hslots) fun _ _ hes =>
    .pure (.sequence hm hes)
  | _, _, _, _, .tuple hm hes, hslots => .bind (hes.index hN hslots) fun _ _ hes =>
    .pure (.tuple hm hes)
  | _, _, _, _, .projection hm he, hslots => .bind (he.index hN hslots) fun _ _ he =>
    .pure (.projection hm he)
  | _, _, _, _, .matchWith hm he harms, hslots => .bind (he.index hN hslots) fun _ _ he =>
    .bind (harms.index hN hslots) fun _ _ harms => .pure (.matchWith hm he harms)
  | _, _, _, _, .matchArm hm hp hbody, hslots => .bind (hp.index hN hslots) fun _ _ hp =>
    .bind (hbody.index hN hslots) fun _ _ hbody => .pure (.matchArm hm hp hbody)
  | _, _, _, _, .dataType hm hcs hbody, hslots => .bind (hcs.index hN hslots) fun _ _ hcs =>
    .bind (hbody.index hN hslots) fun _ _ hbody => .pure (.dataType hm hcs hbody)
  | _, _, _, _, .patternTuple hm hps, hslots => .bind (hps.index hN hslots) fun _ _ hps =>
    .pure (.patternTuple hm hps)
  | _, _, _, _, .patternConstructor hm hps, hslots => .bind (hps.index hN hslots) fun _ _ hps =>
    .pure (.patternConstructor hm hps)
  | _, _, _, _, .literal hm, _ => .pure (.literal hm)
  | _, _, _, _, .builtin hm, _ => .pure (.builtin hm)
  | _, _, _, _, .dataConstructor hm hc, _ => .pure (.dataConstructor hm hc)
  | _, _, _, _, .patternBinder hm hx, _ => .pure (.patternBinder hm hx)
  | _, _, _, _, .patternLiteral hm, _ => .pure (.patternLiteral hm)
  | _, _, _, _, .indexed hm, _ => .pure (.indexed hm)

theorem Node.MirrorsAll.index (hN : Relator.BiUnique N) :
    ∀ {ns ns' : List Node} {slots slots' : Scope Slot}, MirrorsAll N R ns ns' →
      SlotsMirror N slots slots' →
      Together (MirrorsAll N R) (CompileError.Mirrors R) (indexAll slots ns) (indexAll slots' ns')
  | _, _, _, _, .nil, _ => .pure .nil
  | _, _, _, _, .cons hn hns, hslots => .bind (hn.index hN hslots) fun _ _ hn =>
    .bind (hns.index hN hslots) fun _ _ hns => .pure (.cons hn hns)

theorem Node.MirrorsAll.indexGroup (hN : Relator.BiUnique N) :
    ∀ {ns ns' : List Node} {slots slots' : Scope Slot}, MirrorsAll N R ns ns' →
      SlotsMirror N slots slots' →
      Together (MirrorsAll N R) (CompileError.Mirrors R) (Node.indexGroup slots ns)
        (Node.indexGroup slots' ns')
  | _, _, _, _, .nil, _ => .pure .nil
  | _, _, _, _, .cons hn hns, hslots => by
    have hposition := hn.position
    cases hn with
    | letRecArm hm hf hx hbody =>
      exact .bind (hbody.index hN (hslots.extend (.single hx))) fun _ _ hbody =>
        .bind (hns.indexGroup hN hslots) fun _ _ hns => .pure
            (.cons (.letRecArm hm hf hx hbody) hns)
    | _ => exact .error ⟨rfl, hposition⟩

end

theorem Node.Mirrors.resolveIndices (hN : Relator.BiUnique N) {n n' : Node} (h : Mirrors N R n n') :
    Together (Mirrors N R) (CompileError.Mirrors R) n.resolveIndices n'.resolveIndices :=
  h.index hN .nil

/-! ## 7. Code -/

namespace Machine

/-- Two runs of generation, with labels from one supply. -/
abbrev GeneratesAlike {α α' : Type} (R : Position → Position → Prop) (Q : α → α' → Prop)
    (x : Generate α) (x' : Generate α') : Prop := InStep Eq Q (CompileError.Mirrors R) x x'

theorem fail_mirrors {α α' : Type} {Q : α → α' → Prop} {cause cause' : Cause}
    (hkind : cause.kind = cause'.kind) (hp : R p p') :
    GeneratesAlike R Q (fail cause p : Generate α) (fail cause' p' : Generate α') :=
  .throw ⟨hkind, hp⟩

theorem addBlock_mirrors {stem : String} {code : List Instruction} :
    GeneratesAlike R Eq (addBlock stem code) (addBlock stem code) :=
  .refl (.bind (.modifyGet _) fun _ => .bind (.modifyGet _) fun _ => .pure _)

theorem addBlocks_mirrors {stem : String} : ∀ {codes : List (List Instruction)},
    GeneratesAlike R Eq (addBlocks stem codes) (addBlocks stem codes)
  | [] => .pure rfl
  | _ :: _ => .bind addBlock_mirrors fun _ _ hlabel => .bind addBlocks_mirrors fun _ _ hlabels =>
    .pure (congrArg₂ List.cons hlabel hlabels)

theorem branches_mirrors {condition thenCode elseCode : List Instruction} :
    GeneratesAlike R Eq (branches condition thenCode elseCode)
      (branches condition thenCode elseCode) :=
  .refl (.bind (.modifyGet _) fun _ => .bind (.modifyGet _) fun _ => .bind (.modifyGet _) fun _ =>
    .pure _)

end Machine

open Machine

mutual

/-- **Trees that mirror each other have the same code**, whatever their names are. -/
theorem Node.Mirrors.code : ∀ {n n' : Node}, Mirrors N R n n' → GeneratesAlike R Eq n.code n'.code
  | _, _, .top _ he => .bind he.code fun _ _ h => h ▸ .pure rfl
  | _, _, .literal _ | _, _, .indexed _ | _, _, .builtin _ => .pure rfl
  | _, _, .application _ hf he => .bind hf.code fun _ _ hf => .bind he.code fun _ _ he =>
    hf ▸ he ▸ .pure rfl
  | _, _, .lambda _ _ hbody => .bind hbody.code fun _ _ h => h ▸ .bind addBlock_mirrors fun _ _ h =>
    h ▸ .pure rfl
  | _, _, .letIn _ _ hvalue hbody => .bind hvalue.code fun _ _ hvalue =>
    .bind hbody.code fun _ _ h => h ▸ .bind addBlock_mirrors fun _ _ h => h ▸ hvalue ▸ .pure rfl
  | _, _, .letRecArm _ _ _ hbody => hbody.code
  | _, _, .letRec _ harms hbody => .bind harms.code fun _ _ harms => .bind hbody.code
    fun _ _ hbody => harms ▸ .bind addBlocks_mirrors fun _ _ hmembers => hbody ▸
      .bind addBlock_mirrors fun _ _ hblock => hmembers ▸ hblock ▸ .pure rfl
  | _, _, .sequence _ hes => .bind hes.code fun _ _ h => h ▸ .pure rfl
  | _, _, .conditional _ hc ht he => .bind hc.code fun _ _ hc => .bind ht.code fun _ _ ht =>
    .bind he.code fun _ _ he => hc ▸ ht ▸ he ▸ branches_mirrors
  | _, _, .binary _ hl hr => .bind hl.code fun _ _ hl => .bind hr.code fun _ _ hr =>
    hl ▸ hr ▸ .pure rfl
  | _, _, .unary _ he => .bind he.code fun _ _ h => h ▸ .pure rfl
  | _, _, .reference hm _ => fail_mirrors rfl hm.position
  | _, _, .tuple hm hes => .bind hes.code fun _ _ _ => fail_mirrors rfl hm.position
  | _, _, .projection hm he => .bind he.code fun _ _ _ => fail_mirrors rfl hm.position
  | _, _, .matchWith hm he harms => .bind he.code fun _ _ _ => .bind harms.code fun _ _ _ =>
    fail_mirrors rfl hm.position
  | _, _, .matchArm hm hp hbody => .bind hp.code fun _ _ _ => .bind hbody.code fun _ _ _ =>
    fail_mirrors rfl hm.position
  | _, _, .dataType hm hcs hbody => .bind hcs.code fun _ _ _ => .bind hbody.code fun _ _ _ =>
    fail_mirrors rfl hm.position
  | _, _, .dataConstructor hm _ => fail_mirrors rfl hm.position
  | _, _, .patternBinder hm _ => fail_mirrors rfl hm.position
  | _, _, .patternTuple hm hps => .bind hps.code fun _ _ _ => fail_mirrors rfl hm.position
  | _, _, .patternLiteral hm => fail_mirrors rfl hm.position
  | _, _, .patternConstructor hm hps => .bind hps.code fun _ _ _ => fail_mirrors rfl hm.position

theorem Node.MirrorsAll.code : ∀ {ns ns' : List Node}, MirrorsAll N R ns ns' →
    GeneratesAlike R Eq (codes ns) (codes ns')
  | _, _, .nil => .pure rfl
  | _, _, .cons hn hns => .bind hn.code fun _ _ hn => .bind hns.code fun _ _ hns =>
    .pure (congrArg₂ List.cons hn hns)

end

theorem Node.Mirrors.generate {n n' : Node} (h : Mirrors N R n n') :
    Together Eq (CompileError.Mirrors R) n.generate n'.generate := by
  unfold Node.generate
  obtain ⟨_, _, _, _, hrun, hrun', ht, hcode⟩ | ⟨_, _, ⟨_, hfails⟩, ⟨_, hfails'⟩, he⟩ :=
    h.code .empty .empty rfl
  · simp only [Runs] at hrun hrun'
    rw [hrun, hrun', hcode, ht]
    exact .ok rfl
  · rw [hfails, hfails']
    exact .error he

end ClosureML
