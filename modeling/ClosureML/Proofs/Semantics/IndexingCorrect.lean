import ClosureML.Proofs.Names.Unplaced
import ClosureML.Proofs.Semantics.IndexedEvaluation
import ClosureML.Proofs.Semantics.Lockstep
import ClosureML.Proofs.Semantics.Simulation

/-!
# Places hold what names are bound to

The tree whose references are places does in a positional environment what the tree with names does
in one of names, step by step. Where the names of a group of functions are bound one by one, the
slot of the group holds all of them.

* `Places` and `PlacesGroup`: placing the names of a tree, or of a group, gives the other;
* `SlotsHold V slots env env'`: the slots describe how the values of `env` lie in `env'`;
* `PlacedValue`: what belongs together.

Main statements: `SlotsHold.lookup` (a place holds what the name is bound to),
`IsCore.parallels_index` (trees), `placedCalls_parallel` (calls), `IsRoot.simulates_resolveIndices`
(programs) and `index_preserves_binding`.
-/

namespace ClosureML

open Node ClosureML.Computation

/-! ## 1. Environments that belong together -/

/-- Placing the names of a tree of core constructs gives the other tree. -/
structure Places (slots : List Slot) (n n' : Node) : Prop where
  core : IsCore n
  index : n.index ⟨slots⟩ = .ok n'

/-- Placing the names of a group, which has a slot of its own, gives the other group. -/
structure PlacesGroup (slots : List Slot) (functions functions' : List Node) : Prop where
  distinct : (functionNames functions).Nodup
  core : AreCoreFunctions functions
  index : indexGroup ⟨.group (functionNames functions) :: slots⟩ functions = .ok functions'

/-- **Environments that belong together**: each slot holds the value of its name, or a group of
    functions. The names of a group are bound to what belongs to the members with their numbers, and
    no other name is bound with them. -/
inductive SlotsHold (V : Value → IndexedValue → Prop) :
    List Slot → Environment → List IndexedValue → Prop where
  | nil : SlotsHold V [] [] []
  | single {slots : List Slot} {env : Environment} {env' : List IndexedValue} {x : String}
      {v : Value} {v' : IndexedValue} (hv : V v v') (henv : SlotsHold V slots env env') :
      SlotsHold V (.single x :: slots) ((x, v) :: env) (v' :: env')
  | group {slots : List Slot} {env inner : Environment} {env' outer : List IndexedValue}
      {names : List String} {functions : List Node} {members : Nat → Value}
      (hsome : ∀ i < names.length, (IndexedValue.member? outer functions (i + 1)).isSome)
      (hmembers : ∀ i < names.length, ∀ v',
        IndexedValue.member? outer functions (i + 1) = some v' → V (members i) v')
      (hbound : ∀ i x, names[i]? = some x → inner.lookup x = some (members i))
      (hrest : ∀ x ∉ names, inner.lookup x = env.lookup x) (henv : SlotsHold V slots env env') :
      SlotsHold V (.group names :: slots) inner (.group outer functions :: env')

/-- A value of a tree with names, and the value of the tree with places. A member of a group has
    become a function whose environment begins with the group. -/
inductive PlacedValue : Value → IndexedValue → Prop where
  | word {n : Int} : PlacedValue (.word n) (.word n)
  | builtin {b : Builtin} : PlacedValue (.builtin b) (.builtin b)
  | closure {slots : List Slot} {env : Environment} {env' : List IndexedValue} {x : String}
      {body body' : Node} (henv : SlotsHold PlacedValue slots env env')
      (hbody : Places (.single x :: slots) body body') :
      PlacedValue (.closure env x body) (.closure env' body')
  | member {slots : List Slot} {env : Environment} {env' : List IndexedValue}
      {functions functions' : List Node} {i : Nat} {m : Mark} {f x : String}
      {pa ra : Option TypeExpr} {body' : Node} (hgroup : PlacesGroup slots functions functions')
      (henv : SlotsHold PlacedValue slots env env')
      (hi : functions'[i]? = some (.letRecArm m f x pa ra body')) :
      PlacedValue (.member env functions i) (.closure (.group env' functions' :: env') body')

theorem PlacedValue.word?_eq {v : Value} {v' : IndexedValue} (h : PlacedValue v v') :
    v.word? = v'.word? := by
  cases h <;> rfl

/-! ## 2. Groups -/

section Groups

variable {slots : List Slot} {functions functions' : List Node} {outer env : Environment}
  {env' : List IndexedValue} {x : String} {i : Nat}

/-- Placing leaves every function of a group where it is. -/
theorem indexGroup_get {group : Scope Slot} {rest rest' : List Node} (hcore : AreCoreFunctions rest)
    (h : indexGroup group rest = .ok rest') {arm' : Node} (hi : rest'[i]? = some arm') :
    ∃ m f x pa ra body body', rest[i]? = some (.letRecArm m f x pa ra body) ∧
      arm' = .letRecArm m f x pa ra body' ∧ Places (.single x :: group.toList) body body' := by
  induction rest generalizing rest' i with
  | nil =>
    cases h
    cases hi
  | cons arm rest ih =>
    cases hcore with
    | @cons m f x pa ra body _ hbody hrest =>
      rw [indexGroup] at h
      obtain ⟨body', hbody', h⟩ := bind_ok_iff.1 h
      obtain ⟨more, hmore, h⟩ := bind_ok_iff.1 h
      cases h
      cases i with
      | zero =>
        cases hi
        exact ⟨m, f, x, pa, ra, body, body', rfl, rfl, hbody, hbody'⟩
      | succ i => exact ih hrest hmore hi

theorem length_indexGroup {group : Scope Slot} {rest rest' : List Node}
    (h : indexGroup group rest = .ok rest') : rest'.length = rest.length := by
  induction rest generalizing rest' with
  | nil =>
    cases h
    rfl
  | cons arm rest ih =>
    cases arm with
    | letRecArm m f x pa ra body =>
      rw [indexGroup] at h
      obtain ⟨body', -, h⟩ := bind_ok_iff.1 h
      obtain ⟨more, hmore, h⟩ := bind_ok_iff.1 h
      cases h
      rw [List.length_cons, List.length_cons, ih hmore]
    | _ => cases h

/-- A name that a group does not bind is bound outside of it. -/
theorem lookup_bindMembers_of_not_mem {rest : List Node} (hx : x ∉ functionNames rest) :
    (bindMembers outer functions i rest env).lookup x = env.lookup x := by
  induction rest generalizing i env with
  | nil => rfl
  | cons arm rest ih =>
    cases arm with
    | letRecArm m f _ _ _ _ =>
      obtain ⟨hne, hrest⟩ :=
        not_or.1 (mt List.mem_cons.2 (show x ∉ f :: functionNames rest from hx))
      rw [bindMembers, ih hrest, lookup_cons_of_ne hne]
    | _ => exact ih hx

/-- The name of a function is bound to the member with its number, as the names are different. -/
theorem lookup_bindMembers {rest : List Node} {j : Nat} (hcore : AreCoreFunctions rest)
    (hdistinct : (functionNames rest).Nodup) (hj : (functionNames rest)[j]? = some x) :
    (bindMembers outer functions i rest env).lookup x = some (.member outer functions (i + j)) := by
  induction rest generalizing i j env with
  | nil => cases hj
  | cons arm rest ih =>
    cases hcore with
    | @cons _ f _ _ _ _ _ _ hrest =>
      obtain ⟨hnot, hdistinct⟩ :=
        List.nodup_cons.1 (show (f :: functionNames rest).Nodup from hdistinct)
      cases j with
      | zero =>
        obtain rfl : f = x := Option.some.inj hj
        rw [bindMembers, lookup_bindMembers_of_not_mem hnot, List.lookup_cons_self]
        rfl
      | succ j =>
        rw [bindMembers, ih hrest hdistinct hj, Nat.add_right_comm, Nat.add_assoc]

theorem IndexedValue.member?_eq_some {m : Mark} {f : String} {pa ra : Option TypeExpr} {body : Node}
    (h : functions[i]? = some (.letRecArm m f x pa ra body)) :
    member? env' functions (i + 1) = some (.closure (.group env' functions :: env') body) := by
  rw [member?, show numbered? functions (i + 1) = _ from h]

/-- **Inside a group** the slot of the group belongs to its names. -/
theorem SlotsHold.bindGroup (hgroup : PlacesGroup slots functions functions')
    (henv : SlotsHold PlacedValue slots env env') :
    SlotsHold PlacedValue (.group (functionNames functions) :: slots) (bindGroup env functions)
      (.group env' functions' :: env') := by
  have hmember : ∀ i < (functionNames functions).length, ∃ m f x pa ra body',
      functions'[i]? = some (.letRecArm m f x pa ra body') := by
    intro i hi
    rw [hgroup.core.length_functionNames, ← length_indexGroup hgroup.index] at hi
    obtain ⟨m, f, x, pa, ra, -, body', -, harm, -⟩ :=
      indexGroup_get hgroup.core hgroup.index (List.getElem?_eq_getElem hi)
    exact ⟨m, f, x, pa, ra, body', (List.getElem?_eq_getElem hi).trans (congrArg some harm)⟩
  have hsome : ∀ i < (functionNames functions).length,
      (IndexedValue.member? env' functions' (i + 1)).isSome := by
    intro i hi
    obtain ⟨m, f, x, pa, ra, body', harm⟩ := hmember i hi
    rw [IndexedValue.member?_eq_some harm]
    rfl
  have hplaced : ∀ i < (functionNames functions).length, ∀ v',
      IndexedValue.member? env' functions' (i + 1) = some v' →
        PlacedValue (.member env functions i) v' := by
    intro i hi v' hv'
    obtain ⟨m, f, x, pa, ra, body', harm⟩ := hmember i hi
    rw [IndexedValue.member?_eq_some harm] at hv'
    cases hv'
    exact .member hgroup henv harm
  refine .group hsome hplaced (fun i x hx => ?_) (fun x hx => ?_) henv
  · rw [ClosureML.bindGroup, lookup_bindMembers hgroup.core hgroup.distinct hx, Nat.zero_add]
  · exact lookup_bindMembers_of_not_mem hx

end Groups

/-! ## 3. Lookup -/

section Lookup

variable {V : Value → IndexedValue → Prop} {slots : List Slot} {env : Environment}
  {env' : List IndexedValue}

/-- What lies at a place lies one further out behind one more slot. -/
theorem IndexedValue.at?_outward {depth : Nat} {sibling : Option Nat} {v slot : IndexedValue}
    (h : at? env' depth sibling = some v) : at? (slot :: env') (depth + 1) sibling = some v := by
  cases depth with
  | zero => cases h
  | succ depth => exact h

/-- **A place holds what the name is bound to.** -/
theorem SlotsHold.lookup (h : SlotsHold PlacedValue slots env env') {x : String} {depth : Nat}
    {sibling : Option Nat} (hx : Slot.place? x slots = some (depth, sibling)) :
    ∃ v v', env.lookup x = some v ∧ IndexedValue.at? env' depth sibling = some v' ∧
      PlacedValue v v' := by
  induction h generalizing depth sibling with
  | nil => cases hx
  | @single slots env env' y v v' hv _ ih =>
    rw [Slot.place?, Slot.member?] at hx
    by_cases hyx : y = x
    · subst hyx
      rw [if_pos rfl] at hx
      cases hx
      refine ⟨v, v', List.lookup_cons_self, ?_, hv⟩
      cases hv <;> rfl
    · rw [if_neg hyx] at hx
      obtain ⟨⟨d, s⟩, hplace, hd⟩ := Option.map_eq_some_iff.1 hx
      cases hd
      obtain ⟨w, w', hw, hw', hww'⟩ := ih hplace
      exact ⟨w, w', (lookup_cons_of_ne (Ne.symm hyx)).trans hw, IndexedValue.at?_outward hw', hww'⟩
  | @group slots env inner env' outer names functions members hsome hmembers hbound hrest _ ih =>
    rw [Slot.place?, Slot.member?] at hx
    cases hfind : names.findIdx? fun bound => bound = x with
    | some i =>
      rw [hfind] at hx
      cases hx
      obtain ⟨hi, hname, -⟩ := List.findIdx?_eq_some_iff_getElem.1 hfind
      have hget : names[i]? = some x := by rw [List.getElem?_eq_getElem hi, of_decide_eq_true hname]
      obtain ⟨v', hv'⟩ := Option.isSome_iff_exists.1 (hsome i hi)
      exact ⟨members i, v', hbound i x hget, hv', hmembers i hi v' hv'⟩
    | none =>
      rw [hfind] at hx
      obtain ⟨⟨d, s⟩, hplace, hd⟩ := Option.map_eq_some_iff.1 hx
      cases hd
      obtain ⟨w, w', hw, hw', hww'⟩ := ih hplace
      have hnot : x ∉ names := fun hmem =>
        of_decide_eq_false (List.findIdx?_eq_none_iff.1 hfind x hmem) rfl
      exact ⟨w, w', (hrest x hnot).trans hw, IndexedValue.at?_outward hw', hww'⟩

end Lookup

/-! ## 4. Trees -/

section Trees

variable {K : Nat}

/-- Up to a bound, calls of functions that belong together run in lockstep. -/
def PlacedCallsParallel (K : Nat) : Prop :=
  ∀ f f' v v', PlacedValue f f' → PlacedValue v v' →
    Parallels K PlacedValue (call f v) (callIndexed f' v')

mutual

/-- **A tree with its names placed does what the tree does**, as long as calls do. -/
theorem IsCore.parallels_index (hcalls : PlacedCallsParallel K) :
    ∀ {n n' : Node} {slots : List Slot} {env : Environment} {env' : List IndexedValue}, IsCore n →
      n.index ⟨slots⟩ = .ok n' → SlotsHold PlacedValue slots env env' →
        Parallels K PlacedValue (n.evaluate env) (n'.evaluateIndexed env')
  | _, _, _, _, _, .top he, h, henv => by
    rw [index] at h
    obtain ⟨e', he', h⟩ := bind_ok_iff.1 h
    cases h
    rw [evaluate_top, evaluateIndexed_top]
    exact he.parallels_index hcalls he' henv
  | _, _, _, _, _, .literal, h, _ => by
    cases h
    exact .pure .word
  | _, _, slots, _, _, .reference (x := x), h, henv => by
    rw [index] at h
    cases hplace : Slot.place? x slots with
    | none =>
      simp only [Scope.toList, hplace] at h
      cases h
    | some place =>
      simp only [Scope.toList, hplace] at h
      cases h
      obtain ⟨v, v', hv, hv', hvv'⟩ := henv.lookup hplace
      rw [evaluate_reference, evaluateIndexed_indexed, hv, hv']
      exact .pure hvv'
  | _, _, _, _, _, .builtin, h, _ => by
    cases h
    exact .pure .builtin
  | _, _, _, _, _, .lambda hbody, h, henv => by
    rw [index] at h
    obtain ⟨body', hbody', h⟩ := bind_ok_iff.1 h
    cases h
    exact .pure (.closure henv ⟨hbody, hbody'⟩)
  | _, _, _, _, _, .application hf ha, h, henv => by
    rw [index] at h
    obtain ⟨f', hf', h⟩ := bind_ok_iff.1 h
    obtain ⟨a', ha', h⟩ := bind_ok_iff.1 h
    cases h
    rw [evaluate_application, evaluateIndexed_application]
    refine (hf.parallels_index hcalls hf' henv).bind fun f f' hff => ?_
    exact (ha.parallels_index hcalls ha' henv).bind fun v v' hvv => hcalls f f' v v' hff hvv
  | _, _, _, _, _, .letIn hvalue hbody, h, henv => by
    rw [index] at h
    obtain ⟨value', hvalue', h⟩ := bind_ok_iff.1 h
    obtain ⟨body', hbody', h⟩ := bind_ok_iff.1 h
    cases h
    rw [evaluate_letIn, evaluateIndexed_letIn]
    refine (hvalue.parallels_index hcalls hvalue' henv).bind fun v v' hv => ?_
    exact hbody.parallels_index hcalls hbody' (.single hv henv)
  | _, _, _, _, _, .letRec hdistinct harms hbody, h, henv => by
    rw [index] at h
    obtain ⟨group, hgroup, h⟩ := bind_ok_iff.1 h
    obtain ⟨arms', harms', h⟩ := bind_ok_iff.1 h
    obtain ⟨body', hbody', h⟩ := bind_ok_iff.1 h
    cases h
    obtain rfl := Except.ok.inj (harms.groupNames_eq.symm.trans hgroup)
    rw [evaluate_letRec, evaluateIndexed_letRec]
    exact hbody.parallels_index hcalls hbody' (.bindGroup ⟨hdistinct, harms, harms'⟩ henv)
  | _, _, _, _, _, .conditional hc ht he, h, henv => by
    rw [index] at h
    obtain ⟨c', hc', h⟩ := bind_ok_iff.1 h
    obtain ⟨t', ht', h⟩ := bind_ok_iff.1 h
    obtain ⟨e', he', h⟩ := bind_ok_iff.1 h
    cases h
    rw [evaluate_conditional, evaluateIndexed_conditional]
    refine (hc.parallels_index hcalls hc' henv).bind fun v v' hv => ?_
    -- both conditions are the same word, so that both sides take the same branch
    rw [hv.word?_eq]
    refine .bind_refl _ fun n => ?_
    split
    · exact he.parallels_index hcalls he' henv
    · exact ht.parallels_index hcalls ht' henv
  | _, _, _, _, _, .binary hl hr, h, henv => by
    rw [index] at h
    obtain ⟨l', hl', h⟩ := bind_ok_iff.1 h
    obtain ⟨r', hr', h⟩ := bind_ok_iff.1 h
    cases h
    rw [evaluate_binary, evaluateIndexed_binary]
    refine (hl.parallels_index hcalls hl' henv).bind fun v v' hv => ?_
    refine (hr.parallels_index hcalls hr' henv).bind fun w w' hw => ?_
    rw [hv.word?_eq, hw.word?_eq]
    exact .bind_refl _ fun n => .pure .word
  | _, _, _, _, _, .unary he, h, henv => by
    rw [index] at h
    obtain ⟨e', he', h⟩ := bind_ok_iff.1 h
    cases h
    rw [evaluate_unary, evaluateIndexed_unary]
    refine (he.parallels_index hcalls he' henv).bind fun v v' hv => ?_
    rw [hv.word?_eq]
    exact .bind_refl _ fun n => .pure .word
  | _, _, _, _, _, .sequence hes, h, henv => by
    rw [index] at h
    obtain ⟨es', hes', h⟩ := bind_ok_iff.1 h
    cases h
    rw [evaluate_sequence, evaluateIndexed_sequence]
    exact (hes.parallels_indexAll hcalls hes' henv).bind fun vs vs' hvs =>
      .pure (forall₂_getLastD hvs .word)

theorem AreCore.parallels_indexAll (hcalls : PlacedCallsParallel K) :
    ∀ {ns ns' : List Node} {slots : List Slot} {env : Environment} {env' : List IndexedValue},
      AreCore ns → indexAll ⟨slots⟩ ns = .ok ns' → SlotsHold PlacedValue slots env env' →
        Parallels K (List.Forall₂ PlacedValue) (evaluateAll ns env) (evaluateIndexedAll ns' env')
  | _, _, _, _, _, .nil, h, _ => by
    cases h
    exact .pure .nil
  | _, _, _, _, _, .cons hn hns, h, henv => by
    rw [indexAll] at h
    obtain ⟨n', hn', h⟩ := bind_ok_iff.1 h
    obtain ⟨ns', hns', h⟩ := bind_ok_iff.1 h
    cases h
    rw [evaluateAll_cons, evaluateIndexedAll_cons]
    refine (hn.parallels_index hcalls hn' henv).bind fun v v' hv => ?_
    exact (hns.parallels_indexAll hcalls hns' henv).bind fun vs vs' hvs => .pure (.cons hv hvs)

end

/-- **Calls of functions that belong together** run in lockstep, whenever they are called. -/
theorem placedCalls_parallel : ∀ K, PlacedCallsParallel K := by
  intro K
  induction K using Nat.strongRecOn with
  | _ K ih =>
    intro f f' v v' hf hv
    cases hf with
    | word =>
      rw [call_word, callIndexed_word]
      exact .stop
    | builtin =>
      rw [call_builtin, callIndexed_builtin, hv.word?_eq]
      exact .bind_refl _ fun text => .bind_refl _ fun _ => .pure .word
    | closure henv hbody =>
      rw [call_closure, callIndexed_closure]
      exact .later fun J hJ => hbody.core.parallels_index (ih J hJ) hbody.index (.single hv henv)
    | member hgroup henv hi =>
      obtain ⟨m, g, y, pa, ra, body, body', hfunction, harm, hbody⟩ :=
        indexGroup_get hgroup.core hgroup.index hi
      cases harm
      rw [call_member hfunction, callIndexed_closure]
      exact .later fun J hJ =>
        hbody.core.parallels_index (ih J hJ) hbody.index (.single hv (.bindGroup hgroup henv))

end Trees

/-- **A program with its names placed does what the program does.** -/
theorem IsRoot.simulates_resolveIndices {tags : List (String × Nat)} {P : String → Prop}
    {n e' : Node} {m : Mark} (h : IsRoot tags P .core n)
    (hindex : n.resolveIndices = .ok (.top m e')) (K : Nat) :
    Simulates K PlacedValue (n.evaluate []) (e'.evaluateIndexed []) := by
  cases h with
  | mk he =>
    have hparallels := (IsCore.top he.isCore).parallels_index (placedCalls_parallel K) hindex .nil
    exact hparallels.simulates

/-! ## 5. Places keep what names are bound to -/

/-- **Placing keeps bindings.** Placing the names of a tree of core constructs fails if and only if
    a reference names neither a binder around it nor a name in a slot, and then because of a name
    that is not bound. Else the tree with places does in each positional environment what the tree
    with names does in an environment of names that belongs to it: it prints the same and ends with
    what belongs together. Functions that belong together do so too, wherever they are called later
    on. -/
theorem index_preserves_binding {n : Node} (h : IsCore n) (slots : List Slot) :
    ((∃ e, n.index ⟨slots⟩ = .error e ∧ e.cause.kind = .unboundNameError) ↔
      ∃ u ∈ n.uses [] [], u.IsFree (slotNames slots)) ∧
    ((∀ u ∈ n.uses [] [], ¬ u.IsFree (slotNames slots)) →
      ∃ n', n.index ⟨slots⟩ = .ok n' ∧ ∀ env env', SlotsHold PlacedValue slots env env' →
        ∀ k out, Result.Same PlacedValue ((n.evaluate env).within k out)
          ((n'.evaluateIndexed env').within k out)) ∧
    ∀ f f' v v', PlacedValue f f' → PlacedValue v v' → ∀ k out,
      Result.Same PlacedValue ((call f v).within k out) ((callIndexed f' v').within k out) := by
  have hfinds : Finds (slotNames slots) (n.uses [] []) (n.index ⟨slots⟩) :=
    h.index_finds (.outermost slots)
  refine ⟨⟨?_, ?_⟩, ?_, ?_⟩
  · rintro ⟨e, he, -⟩
    rw [he] at hfinds
    obtain ⟨u, hu, hfree, -⟩ := hfinds
    exact ⟨u, hu, hfree⟩
  · rintro ⟨u, hu, hfree⟩
    cases hindex : n.index ⟨slots⟩ with
    | ok n' =>
      rw [hindex] at hfinds
      exact absurd hfree (hfinds u hu)
    | error e =>
      rw [hindex] at hfinds
      obtain ⟨u, -, -, hcause⟩ := hfinds
      exact ⟨e, rfl, by rw [hcause]; rfl⟩
  · intro hbound
    cases hindex : n.index ⟨slots⟩ with
    | ok n' =>
      refine ⟨n', rfl, fun env env' henv k out => ?_⟩
      exact h.parallels_index (placedCalls_parallel k) hindex henv k (Nat.le_refl k) out
    | error e =>
      rw [hindex] at hfinds
      obtain ⟨u, hu, hfree, -⟩ := hfinds
      exact absurd hfree (hbound u hu)
  · intro f f' v v' hf hv k out
    exact placedCalls_parallel k f f' v v' hf hv k (Nat.le_refl k) out

/-- Two functions that call each other: the second adds its argument to what the first gives. -/
def mutualGroup : List Node :=
  let m : Mark := ⟨⟨1, 1⟩, none⟩
  [.letRecArm m "f" "x" none none (.reference m "x"),
    .letRecArm m "g" "y" none none
      (.binary m .add (.application m (.reference m "f") (.reference m "y")) (.reference m "y"))]

/-- A tree in the scope of that group and of an outer `x`. Its own `x` is made from the outer one
    and hides it, a function keeps the outer `y`, and the group is called from inside this
    function. -/
def shadowingTree : Node :=
  let m : Mark := ⟨⟨1, 1⟩, none⟩
  .letIn m "x" none (.application m (.reference m "g") (.reference m "x"))
    (.letIn m "h" none
      (.lambda m "y" none (.application m (.reference m "g")
        (.binary m .add (.reference m "x") (.reference m "y"))))
      (.letIn m "x" none (.literal m (.integer 100))
        (.application m (.reference m "h") (.literal m (.integer 1)))))

/-- With 5 for the outer `x`, both trees end with 22. -/
theorem index_preserves_binding_shadowing : IsCore shadowingTree ∧ ∃ n',
    shadowingTree.index ⟨[.group ["f", "g"], .single "x"]⟩ = .ok n' ∧
    ∃ env env', SlotsHold PlacedValue [.group ["f", "g"], .single "x"] env env' ∧
      (shadowingTree.evaluate env).within 3 "" = .ok (.word 22) "" ∧
      Result.Same PlacedValue ((shadowingTree.evaluate env).within 3 "")
        ((n'.evaluateIndexed env').within 3 "") := by
  have hcore : IsCore shadowingTree :=
    .letIn (.application .reference .reference) (.letIn
      (.lambda (.application .reference (.binary .reference .reference)))
      (.letIn .literal (.application .reference .literal)))
  have hgroup : ∃ functions', PlacesGroup [.single "x"] mutualGroup functions' :=
    ⟨_, by decide, .cons .reference (.cons (.binary (.application .reference .reference) .reference)
      .nil), rfl⟩
  obtain ⟨functions', hgroup⟩ := hgroup
  obtain ⟨n', hn', hsame⟩ :=
    (index_preserves_binding hcore [.group ["f", "g"], .single "x"]).2.1 (by decide)
  have henv : SlotsHold PlacedValue [.single "x"] [("x", .word 5)] [.word 5] := .single .word .nil
  exact ⟨hcore, n', hn', _, _, .bindGroup hgroup henv, rfl, hsame _ _ (.bindGroup hgroup henv) _ _⟩

end ClosureML
