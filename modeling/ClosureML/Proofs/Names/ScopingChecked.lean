import ClosureML.Proofs.Names.ResolutionRun
import ClosureML.Proofs.Names.Scoping
import ClosureML.Proofs.Syntax.ParserShape

/-!
# Resolution checks the rules of scope

Resolution of names succeeds on the programs that keep the rules of scope, and on no others. When it
fails, the position of the error is one at which the program breaks a rule.

* `Names.viewOf` is what a scope shows;
* `Names.Registry.Holds`: what was declared so far;
* `Names.Checks`: a step of resolution checks demands and enters declarations.

Main statement: `Source.resolveNames_iff_wellScoped`.
-/

namespace ClosureML

namespace Names

open Demand (visible distinct)

/-! ## 1. What a scope shows -/

/-- The value that a binding names. -/
def NameBinding.valueName? : NameBinding → Option String
  | binder x _ => some x
  | constructor c _ => some c
  | dataType _ => none

/-- The constructor that a binding names. -/
def NameBinding.constructorName? : NameBinding → Option String
  | constructor c _ => some c
  | _ => none

/-- The data type that a binding names. -/
def NameBinding.dataTypeName? : NameBinding → Option String
  | dataType d => some d
  | _ => none

/-- What a scope shows. -/
def viewOf (scope : NameScope) : View where
  values := scope.toList.filterMap NameBinding.valueName?
  constructors := scope.toList.filterMap NameBinding.constructorName?
  dataTypes := scope.toList.filterMap NameBinding.dataTypeName?

section Lookups

variable {scope : NameScope}

/-- No binding answers for a name that none of them names. -/
theorem findSome?_eq_none {β : Type} {answer? : NameBinding → Option β}
    {name? : NameBinding → Option String} {x : String}
    (h : ∀ b, answer? b = none ↔ name? b ≠ some x) :
    scope.findSome? answer? = none ↔ x ∉ scope.toList.filterMap name? := by
  rw [Scope.findSome?, List.findSome?_eq_none_iff, List.mem_filterMap, not_exists]
  exact forall_congr' fun b => by rw [h, not_and]; rfl

theorem lookup?_eq_none {x : String} : lookup? scope x = none ↔ x ∉ (viewOf scope).values :=
  findSome?_eq_none fun b => by cases b <;> simp [NameBinding.value?, NameBinding.valueName?]

theorem tag?_eq_none {c : String} :
    scope.findSome? (NameBinding.tag? c) = none ↔ c ∉ (viewOf scope).constructors :=
  findSome?_eq_none fun b => by cases b <;> simp [NameBinding.tag?, NameBinding.constructorName?]

theorem declares_iff {d : String} :
    scope.toList.any (NameBinding.declares d) = true ↔ d ∈ (viewOf scope).dataTypes := by
  rw [viewOf, List.mem_filterMap, List.any_eq_true]
  refine exists_congr fun b => and_congr_right fun _ => ?_
  cases b <;> simp [NameBinding.declares, NameBinding.dataTypeName?]

mutual

/-- In a type expression, nothing is undeclared when all that it names is declared. -/
theorem undeclared?_eq_none : ∀ {t : TypeExpr},
    undeclared? scope t = none ↔ ∀ d ∈ t.mentioned, d ∈ (viewOf scope).dataTypes
  | .base _ => by simp [undeclared?, TypeExpr.mentioned]
  | .named d => by
    rw [undeclared?, TypeExpr.mentioned, List.forall_mem_singleton, ← declares_iff]
    split <;> simp_all
  | .function a b => by
    rw [undeclared?, TypeExpr.mentioned, List.forall_mem_append, Option.or_eq_none_iff,
      undeclared?_eq_none, undeclared?_eq_none]
  | .tuple ts => by rw [undeclared?, TypeExpr.mentioned, undeclaredIn?_eq_none]

theorem undeclaredIn?_eq_none : ∀ {ts : List TypeExpr},
    undeclaredIn? scope ts = none ↔ ∀ d ∈ TypeExpr.mentionedIn ts, d ∈ (viewOf scope).dataTypes
  | [] => by simp [undeclaredIn?, TypeExpr.mentionedIn]
  | t :: ts => by
    rw [undeclaredIn?, TypeExpr.mentionedIn, List.forall_mem_append, Option.or_eq_none_iff,
      undeclared?_eq_none, undeclaredIn?_eq_none]

end

end Lookups

/-! ## 2. Steps that check and enter -/

/-- A registry holds what was declared so far. -/
def Registry.Holds (r : Registry) : Entity → Prop
  | .dataType d => d ∈ r.dataTypes
  | .constructor c => c ∈ r.constructors

/-- What holds behind a step that gave something: the demands are met, and the declarations, which
    are different and were not there before, are entered. -/
structure Checked (ds : List Demand) (news : List (Position × Entity)) (r r' : Registry) :
    Prop where
  met : ∀ d ∈ ds, d.Met
  distinct : (news.map Prod.snd).Nodup
  new : ∀ e ∈ news.map Prod.snd, ¬ r.Holds e
  holds : ∀ e, r'.Holds e ↔ e ∈ news.map Prod.snd ∨ r.Holds e

/-- A rule is broken at a position: a demand is not met, or something is declared that was declared
    before. -/
def Breaks (ds : List Demand) (news : List (Position × Entity)) (r : Registry) (p : Position) :
    Prop :=
  (∃ d ∈ ds, d.position = p ∧ ¬ d.Met) ∨
    ∃ front e back, news = front ++ (p, e) :: back ∧ (e ∈ front.map Prod.snd ∨ r.Holds e)

section Rules

variable {ds ds' : List Demand} {news news' : List (Position × Entity)} {r r₁ r' : Registry}
  {p : Position}

theorem Checked.of_met (h : ∀ d ∈ ds, d.Met) (hr : r'.Holds = r.Holds) : Checked ds [] r r' where
  met := h
  distinct := List.nodup_nil
  new _ he := absurd he List.not_mem_nil
  holds e := by simp [hr]

theorem Checked.trans (h : Checked ds news r r₁) (h' : Checked ds' news' r₁ r') :
    Checked (ds ++ ds') (news ++ news') r r' where
  met d hd := (List.mem_append.1 hd).elim (h.met d) (h'.met d)
  distinct := by
    rw [List.map_append]
    exact List.nodup_append.2 ⟨h.distinct, h'.distinct, fun e he e' he' heq =>
      h'.new e' he' ((h.holds e').2 (.inl (heq ▸ he)))⟩
  new e he := by
    rw [List.map_append] at he
    rcases List.mem_append.1 he with he | he
    · exact h.new e he
    · exact fun hr => h'.new e he ((h.holds e).2 (.inr hr))
  holds e := by
    rw [h'.holds, h.holds, List.map_append, List.mem_append, or_left_comm, or_assoc]

theorem Breaks.left (h : Breaks ds news r p) : Breaks (ds ++ ds') (news ++ news') r p := by
  rcases h with ⟨d, hd, h⟩ | ⟨front, e, back, rfl, he⟩
  · exact .inl ⟨d, List.mem_append_left _ hd, h⟩
  · exact .inr ⟨front, e, back ++ news', by simp, he⟩

/-- Behind a step that gave something, a rule that is broken is broken by both steps together. -/
theorem Breaks.behind (h : Checked ds news r r₁) (h' : Breaks ds' news' r₁ p) :
    Breaks (ds ++ ds') (news ++ news') r p := by
  rcases h' with ⟨d, hd, h'⟩ | ⟨front, e, back, rfl, he⟩
  · exact .inl ⟨d, List.mem_append_right _ hd, h'⟩
  · refine .inr ⟨news ++ front, e, back, by simp, ?_⟩
    rw [List.map_append, List.mem_append, or_assoc, or_left_comm]
    rwa [h.holds] at he

end Rules

/-- A step of resolution checks the demands and enters the declarations: it fails where a rule is
    broken, and gives something with the property otherwise. -/
structure Checks {α : Type} (ds : List Demand) (news : List (Position × Entity)) (Q : α → Prop)
    (x : Resolve α) : Prop where
  runs {r : Registry} {a : α} {r' : Registry} : Runs x r a r' → Q a ∧ Checked ds news r r'
  fails {r : Registry} {e : CompileError} : Fails x r e → Breaks ds news r e.position

namespace Checks

variable {α β : Type} {ds ds' : List Demand} {news news' : List (Position × Entity)} {Q : α → Prop}
  {Q' : β → Prop} {x : Resolve α} {f : α → Resolve β}

/-- **In a row**, two steps check the demands and enter the declarations of both. -/
theorem bind (hx : Checks ds news Q x) (hf : ∀ a, Q a → Checks ds' news' Q' (f a)) :
    Checks (ds ++ ds') (news ++ news') Q' (x >>= f) where
  runs hrun := by
    obtain ⟨a, r₁, hrun, hrun'⟩ := runs_bind.1 hrun
    obtain ⟨ha, hchecked⟩ := hx.runs hrun
    obtain ⟨hb, hchecked'⟩ := (hf a ha).runs hrun'
    exact ⟨hb, hchecked.trans hchecked'⟩
  fails hfails := by
    rcases fails_bind.1 hfails with hfails | ⟨a, r₁, hrun, hfails⟩
    · exact (hx.fails hfails).left
    · obtain ⟨ha, hchecked⟩ := hx.runs hrun
      exact .behind hchecked ((hf a ha).fails hfails)

/-- A step that demands nothing, before one that does. -/
theorem entering (hx : Checks [] news Q x) (hf : ∀ a, Q a → Checks ds news' Q' (f a)) :
    Checks ds (news ++ news') Q' (x >>= f) :=
  hx.bind hf

/-- A step that neither demands nor declares anything, before one that does. -/
theorem silent (hx : Checks [] [] Q x) (hf : ∀ a, Q a → Checks ds news Q' (f a)) :
    Checks ds news Q' (x >>= f) :=
  hx.bind hf

/-- A step that meets its demands. -/
theorem met {a : α} (h : ∀ d ∈ ds, d.Met) (ha : Q a) : Checks ds [] Q (pure a : Resolve α) where
  runs hrun := by
    obtain ⟨rfl, rfl⟩ := runs_pure.1 hrun
    exact ⟨ha, .of_met h rfl⟩
  fails hfails := absurd hfails fails_pure

/-- A step that demands nothing. -/
theorem pure {a : α} (ha : Q a) : Checks [] [] Q (pure a : Resolve α) :=
  met (fun _ hd => absurd hd List.not_mem_nil) ha

/-- A step that fails where a demand is not met. -/
theorem unmet {cause : Cause} {d : Demand} (hd : d ∈ ds) (h : ¬ d.Met) :
    Checks ds news Q (fail cause d.position) where
  runs hrun := absurd hrun runs_throw
  fails hfails := fails_throw.1 hfails ▸ .inl ⟨d, hd, rfl, h⟩

/-- Behind a demand that is not met, nothing is done. -/
theorem stop {cause : Cause} {d : Demand} (hd : d ∈ ds) (h : ¬ d.Met) :
    Checks ds news Q' (fail cause d.position >>= f) where
  runs hrun := by
    obtain ⟨_, _, hrun, -⟩ := runs_bind.1 hrun
    exact absurd hrun runs_throw
  fails hfails := by
    rcases fails_bind.1 hfails with hfails | ⟨_, _, hrun, -⟩
    · exact fails_throw.1 hfails ▸ .inl ⟨d, hd, rfl, h⟩
    · exact absurd hrun runs_throw

/-- A step behind which the result is only put together. -/
theorem done {g : α → β} (hx : Checks ds news Q x) (hg : ∀ a, Q a → Q' (g a)) :
    Checks ds news Q' (x >>= fun a => Pure.pure (g a)) := by
  have := hx.bind (f := fun a => (Pure.pure (g a) : Resolve β)) fun a ha => pure (hg a ha)
  rwa [List.append_nil, List.append_nil] at this

/-- A step behind which the result is only put together, when nothing is said of it. -/
theorem finish {g : α → β} (hx : Checks ds news Q x) :
    Checks ds news (fun _ => True) (x >>= fun a => Pure.pure (g a)) :=
  hx.done fun _ _ => trivial

/-- A step that neither demands nor declares anything, and does not fail. -/
theorem quiet (hruns : ∀ {r a r'}, Runs x r a r' →
      Q a ∧ r'.dataTypes = r.dataTypes ∧ r'.constructors = r.constructors)
    (hfails : ∀ {r e}, ¬ Fails x r e) : Checks [] [] Q x where
  runs {r a r'} hrun := by
    obtain ⟨ha, hdataTypes, hconstructors⟩ := hruns hrun
    have hholds : r'.Holds = r.Holds := by
      funext e
      cases e with
      | dataType d => rw [Registry.Holds, Registry.Holds, hdataTypes]
      | constructor c => rw [Registry.Holds, Registry.Holds, hconstructors]
    exact ⟨ha, .of_met (fun _ hd => absurd hd List.not_mem_nil) hholds⟩
  fails hfail := absurd hfail hfails

/-- Demands that are met may be added. -/
theorem addMet (hx : Checks ds' news Q x) (h : ∀ d ∈ ds, d.Met) : Checks (ds ++ ds') news Q x where
  runs hrun := (hx.runs hrun).imp_right fun hchecked =>
    (Checked.of_met h rfl : Checked ds [] _ _).trans hchecked
  fails hfails := .behind (.of_met h rfl : Checked ds [] _ _) (hx.fails hfails)

/-- What a step enters is what is declared in a tree. -/
theorem tree {n : Node} (hx : Checks ds news Q x)
    (hnews : n.introducedHere ++ Node.introducedAll n.children = news) :
    Checks ds n.introduced Q x := by
  rwa [Node.introduced_eq, hnews]

end Checks

/-! ## 3. Single steps -/

variable {scope : NameScope}

/-- Inside a binder, its name can be seen. -/
theorem checks_bindVariable (scope : NameScope) (x : String) :
    Checks [] [] (fun result => viewOf result.2 = (viewOf scope).bind [x])
      (bindVariable scope x) := by
  refine .quiet (fun hrun => ?_) (fun hfails => ?_)
  · simp only [bindVariable, rename, runs_bind, runs_get, runs_set, runs_pure] at hrun
    obtain ⟨_, _, ⟨_, _, ⟨rfl, rfl⟩, ⟨⟩, _, rfl, rfl, rfl⟩, rfl, rfl⟩ := hrun
    exact ⟨rfl, rfl, rfl⟩
  · simp only [bindVariable, rename, fails_bind, fails_get, fails_set, fails_pure, and_false,
      exists_false, or_self] at hfails

theorem checks_checkTypes (scope : NameScope) (types : List TypeExpr) (position : Position) :
    Checks [visible position (TypeExpr.mentionedIn types) (viewOf scope).dataTypes] []
      (fun _ => True) (checkTypes scope types position) := by
  unfold checkTypes
  split
  · next hnone => exact .met (List.forall_mem_singleton.2 (undeclaredIn?_eq_none.1 hnone)) trivial
  · next hsome =>
    refine .unmet (List.mem_singleton_self _) fun hmet => ?_
    rw [undeclaredIn?_eq_none.2 hmet] at hsome
    cases hsome

theorem checks_constructorTag (scope : NameScope) (c : String) (position : Position) :
    Checks [visible position [c] (viewOf scope).constructors] [] (fun _ => True)
      (constructorTag scope c position) := by
  unfold constructorTag
  split
  · next tag htag =>
    refine .met (List.forall_mem_singleton.2 (List.forall_mem_singleton.2 ?_)) trivial
    by_contra hc
    rw [tag?_eq_none.2 hc] at htag
    cases htag
  · next hnone =>
    exact .unmet (List.mem_singleton_self _) fun hmet =>
      tag?_eq_none.1 hnone (hmet c (List.mem_singleton_self c))

/-- A step that enters a declaration, unless it was entered before. -/
theorem checks_enter {e : Entity} (cause : Cause) (position : Position) {held : Registry → Bool}
    {enter : Registry → Registry} (hheld : ∀ r, held r = true ↔ r.Holds e)
    (henter : ∀ r e', (enter r).Holds e' ↔ e' = e ∨ r.Holds e') :
    Checks [] [(position, e)] (fun _ => True) (do
      let registry ← get
      if held registry then fail cause position
      set (enter registry)) where
  runs hrun := by
    simp only [runs_bind, runs_get] at hrun
    obtain ⟨_, _, ⟨rfl, rfl⟩, hrun⟩ := hrun
    split at hrun
    · simp only [fail, runs_bind, runs_throw, false_and, exists_false] at hrun
    · next hnot =>
      obtain rfl := runs_set.1 hrun
      exact ⟨trivial, fun _ hd => absurd hd List.not_mem_nil, List.pairwise_singleton _ _,
        List.forall_mem_singleton.2 (mt (hheld _).2 hnot), fun e' => by simp [henter]⟩
  fails hfails := by
    simp only [fails_bind, fails_get, runs_get, false_or] at hfails
    obtain ⟨_, _, ⟨rfl, rfl⟩, hfails⟩ := hfails
    split at hfails
    · next hold =>
      obtain rfl : _ = _ := by simpa [fail] using hfails
      exact .inr ⟨[], e, [], rfl, .inr ((hheld _).1 hold)⟩
    · exact absurd hfails fails_set

theorem checks_declareDataType (d : String) (position : Position) :
    Checks [] [(position, .dataType d)] (fun _ => True) (declareDataType d position) :=
  checks_enter _ position (fun r => List.contains_iff_mem) fun r e => by
    cases e <;> simp [Registry.Holds]

theorem checks_declareConstructor (c : String) (position : Position) :
    Checks [] [(position, .constructor c)] (fun _ => True) (declareConstructor c position) :=
  checks_enter _ position (fun r => List.contains_iff_mem) fun r e => by
    cases e <;> simp [Registry.Holds]

theorem checks_takeTag : Checks [] [] (fun _ => True) takeTag := by
  refine .quiet (fun hrun => ?_) fails_modifyGet
  obtain ⟨-, rfl⟩ := runs_modifyGet.1 hrun
  exact ⟨trivial, rfl, rfl⟩

/-- The constructors of a data type are entered, and the types of their parameters are checked. -/
theorem checks_declareConstructors (d : String) : ∀ {cs : List Node} (scope : NameScope),
    (∀ c ∈ cs, IsConstructor c) →
    Checks (Node.constructorDemands (viewOf scope).dataTypes cs) (Node.introducedAll cs)
      (fun result => viewOf result.2 = (viewOf scope).construct (Node.constructorNames cs))
      (Names.declareConstructors d scope cs)
  | [], scope, _ => .pure rfl
  | c :: rest, scope, hcs => by
    obtain @⟨m, name, parameters, -⟩ := hcs _ List.mem_cons_self
    have hrest (tag : Nat) := checks_declareConstructors d (scope.extend (.constructor name tag))
      fun c hc => hcs c (List.mem_cons_of_mem _ hc)
    refine .entering (checks_declareConstructor name m.position) fun _ _ => ?_
    refine .bind (checks_checkTypes scope parameters m.position) fun _ _ => ?_
    refine .silent checks_takeTag fun tag _ => ?_
    refine .done (hrest tag) fun result hresult => ?_
    rw [hresult]
    exact View.construct_construct (viewOf scope) [name] _

/-! ## 4. Groups of functions -/

theorem functionDemands_met {arms : List Node} {before : List String}
    (h : repeatedFunction? before arms = none) : ∀ d ∈ Node.functionDemands before arms, d.Met := by
  fun_induction repeatedFunction? before arms with
  | case1 => exact fun _ hd => absurd hd List.not_mem_nil
  | case2 => cases h
  | case3 before m f _ _ _ _ rest hnew ih =>
    refine List.forall_mem_cons.2 ⟨fun hmem => hnew (List.contains_iff_mem.2 hmem), ih h⟩
  | case4 before other rest hother ih =>
    cases other <;> first | exact ih h | exact (hother _ _ _ _ _ _ rfl).elim

theorem functionDemands_unmet {arms : List Node} {before : List String} {f : String}
    {position : Position} (h : repeatedFunction? before arms = some (f, position)) :
    ∃ d ∈ Node.functionDemands before arms, d.position = position ∧ ¬ d.Met := by
  fun_induction repeatedFunction? before arms with
  | case1 => cases h
  | case2 before m f' _ _ _ _ rest hseen =>
    cases h
    exact ⟨_, List.mem_cons_self, rfl, fun hmet => hmet (List.contains_iff_mem.1 hseen)⟩
  | case3 before m f' _ _ _ _ rest hnew ih =>
    obtain ⟨d, hd, hunmet⟩ := ih h
    exact ⟨d, List.mem_cons_of_mem _ hd, hunmet⟩
  | case4 before other rest hother ih =>
    cases other <;> first | exact ih h | exact (hother _ _ _ _ _ _ rfl).elim

/-- Behind the functions of a group, their names can be seen. -/
theorem checks_bindGroup : ∀ {arms : List Node} (scope : NameScope), Each IsFunction arms →
    Checks [] [] (fun result => viewOf result.2 = (viewOf scope).bind (Node.functionNames arms))
      (bindGroup scope arms)
  | [], _, _ => .pure rfl
  | .letRecArm m f x pa ra body :: rest, scope, .cons (.mk _ _ _) hrest => by
    refine .silent (checks_bindVariable scope f) fun bound hbound => ?_
    refine .done (checks_bindGroup bound.2 hrest) fun result hresult => ?_
    rw [hresult, hbound]
    exact View.bind_bind _ [f] _

/-! ## 5. Patterns -/

/-- What a pattern has bound: its names can be seen in the arm, and count as bound. -/
structure ArmScope.Shows (arm arm' : ArmScope) (names : List String) : Prop where
  view_eq : viewOf arm'.scope = (viewOf arm.scope).bind names
  bound_eq : arm'.bound = names.reverse ++ arm.bound

theorem ArmScope.Shows.trans {arm arm₁ arm' : ArmScope} {names more : List String}
    (h : arm.Shows arm₁ names) (h' : arm₁.Shows arm' more) : arm.Shows arm' (names ++ more) where
  view_eq := by rw [h'.view_eq, h.view_eq, View.bind_bind]
  bound_eq := by rw [h'.bound_eq, h.bound_eq, List.reverse_append, List.append_assoc]

theorem checks_bindInPattern (arm : ArmScope) (x : String) (m : Mark) :
    Checks (Node.patternDemands [] arm.bound (.patternBinder m x)) []
      (fun result => arm.Shows result.2 [x]) (bindInPattern arm x m.position) := by
  have hbind : Checks [] [] (fun result : String × ArmScope => arm.Shows result.2 [x])
      (bindVariable arm.scope x >>= fun bound => pure (bound.1, ⟨bound.2, x :: arm.bound⟩)) :=
    .done (checks_bindVariable arm.scope x) fun result hresult => ⟨hresult, rfl⟩
  unfold bindInPattern
  dsimp only
  split
  · next hrepeated =>
    rw [Node.patternDemands, if_neg hrepeated.1]
    have hunmet : ¬ (distinct m.position x arm.bound).Met :=
      not_not_intro (List.contains_iff_mem.1 hrepeated.2)
    exact .stop (List.mem_singleton_self _) hunmet
  · next hnew =>
    have hmet : ∀ d ∈ Node.patternDemands [] arm.bound (.patternBinder m x), d.Met := by
      rw [Node.patternDemands]
      split
      · exact fun d hd => absurd hd List.not_mem_nil
      · next hx =>
        exact List.forall_mem_singleton.2 fun hmem => hnew ⟨hx, List.contains_iff_mem.2 hmem⟩
    have := hbind.addMet hmet
    rwa [List.append_nil] at this

mutual

theorem checks_resolvePattern (scope : NameScope) : ∀ {p : Node} (arm : ArmScope), IsPattern p →
    Checks (p.patternDemands (viewOf scope).constructors arm.bound) p.introduced
      (fun result => arm.Shows result.2 p.patternNames) (resolvePattern scope p arm)
  | .patternBinder m x, arm, _ => .done (checks_bindInPattern arm x m) fun _ h => h
  | .patternLiteral .., _, _ => .pure ⟨rfl, rfl⟩
  | .patternTuple .., arm, .tuple _ hps =>
    .tree (.done (checks_resolvePatterns scope arm hps) fun _ h => h) rfl
  | .patternConstructor m c _ _, arm, .constructor _ hps =>
    .tree (.bind (checks_constructorTag scope c m.position) fun _ _ =>
      .done (checks_resolvePatterns scope arm hps) fun _ h => h) rfl

theorem checks_resolvePatterns (scope : NameScope) : ∀ {ps : List Node} (arm : ArmScope),
    (∀ p ∈ ps, IsPattern p) →
    Checks (Node.patternDemandsAll (viewOf scope).constructors arm.bound ps) (Node.introducedAll ps)
      (fun result => arm.Shows result.2 (Node.patternNamesAll ps)) (resolvePatterns scope ps arm)
  | [], _, _ => .pure ⟨rfl, rfl⟩
  | p :: ps, arm, h => by
    -- For the patterns behind it, the names of the first count as bound.
    refine .bind (checks_resolvePattern scope arm (h p List.mem_cons_self)) fun first hfirst => ?_
    have hrest := checks_resolvePatterns scope first.2 fun q hq => h q (List.mem_cons_of_mem _ hq)
    rw [hfirst.bound_eq] at hrest
    exact .done hrest fun _ hmore => hfirst.trans hmore

end

end Names

/-! ## 6. Trees -/

open Names

mutual

/-- **Resolution checks the demands** of a tree, where it sees what its scope shows, and enters its
    declarations. -/
theorem Node.checks : ∀ {n : Node} (scope : NameScope), IsExpression n →
    Checks (n.demands (viewOf scope)) n.introduced (fun _ => True) (n.resolve scope)
  | .literal .., _, _ => .pure trivial
  | .reference m x, scope, _ => by
    rw [Node.resolve]
    split
    · next hsome =>
      refine .met (List.forall_mem_singleton.2 (List.forall_mem_singleton.2 ?_)) trivial
      by_contra hx
      rw [lookup?_eq_none.2 hx] at hsome
      cases hsome
    · next hnone =>
      exact .unmet (List.mem_singleton_self _) fun hmet =>
        lookup?_eq_none.1 hnone (hmet x (List.mem_singleton_self x))
  | .builtin .., _, _ => .pure trivial
  | .lambda m x a _, scope, .lambda _ hbody =>
    .tree (.bind (checks_checkTypes scope a.toList m.position) fun _ _ =>
      .silent (checks_bindVariable scope x) fun _ hinner =>
      .finish (hinner ▸ Node.checks _ hbody)) (by simp [introducedHere, children])
  | .application .., scope, .application hf ha =>
    .tree (.bind (Node.checks scope hf) fun _ _ => .finish (Node.checks scope ha))
      (by simp [introducedHere, children])
  | .letIn m x a _ _, scope, .letIn _ hvalue hbody =>
    .tree (.bind (checks_checkTypes scope a.toList m.position) fun _ _ =>
      .bind (Node.checks scope hvalue) fun _ _ =>
      .silent (checks_bindVariable scope x) fun _ hinner =>
      .finish (hinner ▸ Node.checks _ hbody)) (by simp [introducedHere, children])
  | .letRec m arms body, scope, .letRec harms hbody => by
    have hrest : Checks
        (groupDemands (viewOf scope) ((viewOf scope).bind (functionNames arms)) arms ++
          body.demands ((viewOf scope).bind (functionNames arms)))
        (letRec m arms body).introduced (fun _ => True) (do
          let (names, group) ← Names.bindGroup scope arms
          let arms ← Node.resolveGroup scope group arms names
          return Node.letRec m arms (← body.resolve group)) :=
      .tree (.silent (checks_bindGroup scope (each_iff.2 harms)) fun group hgroup =>
        .bind (hgroup ▸ Node.checksGroup scope group.2 group.1 (each_iff.2 harms)) fun _ _ =>
        .finish (hgroup ▸ Node.checks _ hbody))
        (by simp [introducedHere, children])
    -- Whether a name is repeated is asked before anything is bound.
    rw [Node.resolve]
    split
    · next hrepeated =>
      obtain ⟨d, hd, rfl, hunmet⟩ := functionDemands_unmet hrepeated
      exact .stop (List.mem_append_left _ hd) hunmet
    · next hnone =>
      have hnone := Option.eq_none_iff_forall_ne_some.2 fun (f, position) => hnone f position
      exact hrest.addMet (functionDemands_met hnone)
  | .conditional .., scope, .conditional hc ht he =>
    .tree (.bind (Node.checks scope hc) fun _ _ => .bind (Node.checks scope ht) fun _ _ =>
      .finish (Node.checks scope he)) (by simp [introducedHere, children])
  | .binary .., scope, .binary hl hr =>
    .tree (.bind (Node.checks scope hl) fun _ _ => .finish (Node.checks scope hr))
      (by simp [introducedHere, children])
  | .unary .., scope, .unary he =>
    .tree (.finish (Node.checks scope he)) (by simp [introducedHere, children])
  | .sequence .., scope, .sequence _ hes =>
    .tree (.finish (Node.checksAll scope hes)) rfl
  | .tuple .., scope, .tuple _ hes =>
    .tree (.finish (Node.checksAll scope hes)) rfl
  | .projection _ _ _ _, scope, .projection he =>
    .tree (.finish (Node.checks scope he)) (by simp [introducedHere, children])
  | .dataType m d _ _, scope, .dataType hcs hbody =>
    .tree (.entering (checks_declareDataType d m.position) fun _ _ =>
      .bind (checks_declareConstructors d (scope.extend (.dataType d)) hcs) fun _ hinner =>
      .finish (hinner ▸ Node.checks _ hbody)) (by simp [introducedHere, children])
  | .matchWith .., scope, .matchWith he harms =>
    .tree (.bind (Node.checks scope he) fun _ _ =>
      .finish (Node.checksArms scope (each_iff.2 harms))) rfl

theorem Node.checksAll : ∀ {ns : List Node} (scope : NameScope), (∀ n ∈ ns, IsExpression n) →
    Checks (demandsAll (viewOf scope) ns) (introducedAll ns) (fun _ => True)
      (Node.resolveAll scope ns)
  | [], _, _ => .pure trivial
  | n :: _, scope, h =>
    .bind (Node.checks scope (h n List.mem_cons_self)) fun _ _ =>
      .finish (Node.checksAll scope fun k hk => h k (List.mem_cons_of_mem _ hk))

/-- The ascriptions of functions are checked in the scope around the group, and their bodies in the
    scope inside it. -/
theorem Node.checksGroup : ∀ {ns : List Node} (scope group : NameScope) (names : List String),
    Each IsFunction ns →
    Checks (groupDemands (viewOf scope) (viewOf group) ns) (introducedAll ns) (fun _ => True)
      (Node.resolveGroup scope group ns names)
  | [], _, _, _, _ => .pure trivial
  | .letRecArm m f x pa ra body :: ns, scope, group, _, .cons (.mk _ _ hbody) hns => by
    have hintroduced : (letRecArm m f x pa ra body).introduced = body.introduced := by
      simp [introduced_eq (.letRecArm ..), introducedHere, children]
    rw [introducedAll_cons, hintroduced]
    exact .bind (checks_checkTypes scope (pa.toList ++ ra.toList) m.position) fun _ _ =>
      .silent (checks_bindVariable group x) fun _ hinner =>
      .bind (hinner ▸ Node.checks _ hbody) fun _ _ =>
      .finish (Node.checksGroup scope group _ hns)

theorem Node.checksArms : ∀ {ns : List Node} (scope : NameScope), Each IsArm ns →
    Checks (demandsAll (viewOf scope) ns) (introducedAll ns) (fun _ => True)
      (Node.resolveAll scope ns)
  | [], _, _ => .pure trivial
  | .matchArm m p body :: _, scope, .cons (.mk hp hbody) hns => by
    have harm : Checks ((matchArm m p body).demands (viewOf scope)) (matchArm m p body).introduced
        (fun _ => True) ((matchArm m p body).resolve scope) :=
      .tree (.bind (checks_resolvePattern scope ⟨scope, []⟩ hp) fun _ hshows =>
        .finish (hshows.view_eq ▸ Node.checks _ hbody))
        (by simp [introducedHere, children])
    exact .bind harm fun _ _ => .finish (Node.checksArms scope hns)

end

/-! ## 7. Programs -/

/-- Where nothing was declared before, a rule that is broken is broken by the tree. -/
theorem Node.breaksRuleAt_iff {n : Node} {p : Position} :
    Breaks (n.demands .empty) n.introduced .empty p ↔ n.BreaksRuleAt p := by
  have hempty (e : Entity) : ¬ Registry.empty.Holds e := by
    cases e <;> exact List.not_mem_nil
  simp only [Breaks, BreaksRuleAt, hempty, or_false]

/-- Resolution checks the rules of a whole program. -/
theorem IsProgram.checks {n : Node} (h : IsProgram n) :
    Checks (n.demands .empty) n.introduced (fun _ => True) (n.resolve .empty) := by
  cases h with
  | mk hbody =>
    exact .tree (.finish (Node.checks .empty hbody)) (by simp [Node.introducedHere, Node.children])

/-- **Resolution accepts the programs that keep the rules of scope**, and fails on the others with
    an error about names, at the position of a node where a rule is broken. -/
theorem Source.resolveNames_iff_wellScoped {s : Source} {n : Node} (h : s.parse = .ok n) :
    ((∃ named, n.resolveNames = .ok named) ↔ n.WellScoped) ∧
      ∀ e, n.resolveNames = .error e → e.cause.kind = .nameError ∧ n.BreaksRuleAt e.position := by
  have hprogram := s.isProgram_of_parse h
  have hbreaks (e : CompileError) (he : n.resolveNames = .error e) : n.BreaksRuleAt e.position :=
    Node.breaksRuleAt_iff.1 (hprogram.checks.fails (Node.resolveNames_eq_error he))
  refine ⟨⟨?_, fun hscoped => ?_⟩, fun e he => ⟨hprogram.resolveNames_error he, hbreaks e he⟩⟩
  · rintro ⟨named, hnamed⟩
    obtain ⟨r, hrun⟩ := Node.resolveNames_eq_ok hnamed
    obtain ⟨-, hchecked⟩ := hprogram.checks.runs hrun
    exact ⟨hchecked.met, hchecked.distinct⟩
  · cases hresult : n.resolveNames with
    | ok named => exact ⟨named, rfl⟩
    | error e => exact absurd (hbreaks e hresult) (Node.wellScoped_iff.1 hscoped e.position)

/-- A constructor has a parameter of the type that is being declared, and an arm hides the variable
    that its `match` takes apart. -/
def hidingArm : Source := .ofText
  "data T = A (T, int) | B in let x = A (B, 1) in match x \x7b A (_, x) -> x; _ -> 2 \x7d"

/-- A second data type declares the constructor of the first, inside a `let`. -/
def sharedConstructor : Source := .ofText "data T = A in let x = A in data U = A in x"

set_option maxRecDepth 100000 in
theorem sharedConstructor_breaksRule : (∃ n, hidingArm.parse = .ok n ∧ n.WellScoped) ∧
    ∃ n, sharedConstructor.parse = .ok n ∧ ¬ n.WellScoped ∧ n.BreaksRuleAt ⟨1, 37⟩ := by
  have haccepted : (do
      let named ← (← hidingArm.parse).resolveNames
      return named.kind) = .ok .top := by decide +kernel
  have hrejected : (do return (← sharedConstructor.parse).resolveNames.map Node.kind) =
      .ok (.error ⟨.repeatedConstructor "A", ⟨1, 37⟩⟩) := by decide +kernel
  constructor
  · obtain ⟨n, hn, h⟩ := bind_ok_iff.1 haccepted
    obtain ⟨named, hnamed, -⟩ := bind_ok_iff.1 h
    exact ⟨n, hn, (Source.resolveNames_iff_wellScoped hn).1.1 ⟨named, hnamed⟩⟩
  · obtain ⟨n, hn, h⟩ := bind_ok_iff.1 hrejected
    have hresult : n.resolveNames = .error ⟨.repeatedConstructor "A", ⟨1, 37⟩⟩ := by
      cases hrun : n.resolveNames with
      | ok named =>
        rw [hrun] at h
        cases h
      | error e =>
        rw [hrun] at h
        exact congrArg Except.error (Except.error.inj (Except.ok.inj h))
    obtain ⟨hiff, herror⟩ := Source.resolveNames_iff_wellScoped hn
    refine ⟨n, hn, fun hscoped => ?_, (herror _ hresult).2⟩
    obtain ⟨named, hnamed⟩ := hiff.2 hscoped
    rw [hresult] at hnamed
    cases hnamed

end ClosureML
