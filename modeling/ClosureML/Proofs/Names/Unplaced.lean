import ClosureML.Proofs.Names.Binding
import ClosureML.Proofs.Names.Indexed

/-!
# Names without a place

Placing the names of a tree of core constructs fails for one reason: some reference names neither
what is bound around it nor what lies in a slot.

* `slotNames` are the names that lie in slots;
* `Use.IsFree outer u`: the name of a reference is bound nowhere around it, and is none of `outer`;
* `Finds`: placing succeeds when no reference is free, and fails at one that is.

Main statement: `IsCore.index_finds`.
-/

namespace ClosureML

open Node

/-! ## 1. Names in slots -/

/-- The names whose values lie in a slot. -/
def Slot.names : Slot → List String
  | single x => [x]
  | group names => names

/-- The names whose values lie in slots. -/
def slotNames (slots : List Slot) : List String := slots.flatMap Slot.names

theorem Slot.member?_eq_none {x : String} {slot : Slot} :
    slot.member? x = none ↔ x ∉ slot.names := by
  cases slot with
  | single y =>
    rw [member?, names, List.mem_singleton, eq_comm (a := x)]
    by_cases h : y = x <;> simp [h]
  | group names =>
    rw [member?, Option.map_eq_none_iff, List.findIdx?_eq_none_iff]
    refine ⟨fun h hx => of_decide_eq_false (h x hx) rfl, fun h y hy => decide_eq_false ?_⟩
    rintro rfl
    exact h hy

/-- **A name has no place** when it lies in no slot. -/
theorem Slot.place?_eq_none {x : String} {slots : List Slot} :
    place? x slots = none ↔ x ∉ slotNames slots := by
  induction slots with
  | nil => simp [place?, slotNames]
  | cons slot rest ih =>
    rw [place?, slotNames, List.flatMap_cons, List.mem_append, not_or, ← member?_eq_none]
    cases slot.member? x with
    | none =>
      refine Option.map_eq_none_iff.trans (ih.trans ?_)
      exact (and_iff_right rfl).symm
    | some sibling => simp

/-! ## 2. References that are free -/

/-- The name of a reference is bound nowhere around it, and is none of the outer names. -/
def Use.IsFree (outer : List String) (u : Use) : Prop :=
  u.name ∉ u.visible.map Prod.fst ∧ u.name ∉ outer

instance (outer : List String) (u : Use) : Decidable (u.IsFree outer) :=
  inferInstanceAs (Decidable (_ ∧ _))

/-- The names in slots are those that can be seen at a place, and the outer names. -/
def SlotsCover (outer : List String) (slots : List Slot) (visible : Visible) : Prop :=
  ∀ x, x ∈ slotNames slots ↔ x ∈ visible.map Prod.fst ∨ x ∈ outer

section Cover

variable {outer : List String} {slots : List Slot} {visible : Visible}

theorem SlotsCover.outermost (slots : List Slot) : SlotsCover (slotNames slots) slots [] :=
  fun x => by simp

theorem SlotsCover.single (h : SlotsCover outer slots visible) (x : String) (r : Referent) :
    SlotsCover outer (.single x :: slots) ((x, r) :: visible) := by
  intro y
  rw [slotNames, List.flatMap_cons, Slot.names, List.mem_append, List.mem_singleton, List.map_cons,
    List.mem_cons, or_assoc]
  exact or_congr_right (h y)

/-- Inside a group, its names can be seen, and what could be seen around it. -/
theorem mem_visibleInGroup {path : Path} {i : Nat} {arms : List Node} {x : String} :
    x ∈ (visibleInGroup visible path i arms).map Prod.fst ↔
      x ∈ functionNames arms ∨ x ∈ visible.map Prod.fst := by
  induction arms generalizing visible i with
  | nil => simp [visibleInGroup, functionNames]
  | cons arm rest ih =>
    cases arm with
    | letRecArm m f _ _ _ _ =>
      rw [visibleInGroup, ih, List.map_cons, List.mem_cons,
        show functionNames (.letRecArm m f _ _ _ _ :: rest) = f :: functionNames rest from rfl,
        List.mem_cons, or_left_comm, or_assoc]
    | _ => exact ih

theorem SlotsCover.group (h : SlotsCover outer slots visible) (path : Path) (i : Nat)
    (arms : List Node) :
    SlotsCover outer (.group (functionNames arms) :: slots)
    (visibleInGroup visible path i arms) := by
  intro y
  rw [slotNames, List.flatMap_cons, Slot.names, List.mem_append, mem_visibleInGroup, or_assoc]
  exact or_congr_right (h y)

end Cover

/-! ## 3. Placing -/

/-- **How placing ends**: well, when none of the references is free; else with an error about one
    that is. -/
def Finds {α : Type} (outer : List String) (us : List Use) : Except CompileError α → Prop
  | .ok _ => ∀ u ∈ us, ¬ u.IsFree outer
  | .error e => ∃ u ∈ us, u.IsFree outer ∧ e.cause = .notInEnvironment u.name

namespace Finds

variable {α β : Type} {outer : List String} {us vs : List Use} {x : Except CompileError α}

theorem pure {a : α} : Finds outer [] (pure a : Except CompileError α) := fun _ h => nomatch h

/-- One tree after the other. -/
theorem bind {f : α → Except CompileError β} (h : Finds outer us x)
    (hf : ∀ a, Finds outer vs (f a)) : Finds outer (us ++ vs) (x >>= f) := by
  cases x with
  | ok a =>
    show Finds outer (us ++ vs) (f a)
    have hrest := hf a
    cases hfa : f a with
    | ok b =>
      rw [hfa] at hrest
      exact List.forall_mem_append.2 ⟨h, hrest⟩
    | error e =>
      rw [hfa] at hrest
      obtain ⟨u, hu, he⟩ := hrest
      exact ⟨u, List.mem_append_right _ hu, he⟩
  | error e =>
    obtain ⟨u, hu, he⟩ := h
    exact ⟨u, List.mem_append_left _ hu, he⟩

/-- What is made of a tree has its references. -/
theorem map {f : α → β} (h : Finds outer us x) :
    Finds outer us (x >>= fun a => Pure.pure (f a)) :=
  List.append_nil us ▸ h.bind fun _ => pure

end Finds

variable {outer : List String}

mutual

/-- **Placing finds the references that are free**: it fails exactly when there is one. -/
theorem IsCore.index_finds : ∀ {n : Node} {slots : List Slot} {visible : Visible} {path : Path},
    IsCore n → SlotsCover outer slots visible → Finds outer (n.uses visible path) (n.index ⟨slots⟩)
  | _, _, _, _, .top he, h => (he.index_finds h).map
  | _, _, _, _, .literal, _ | _, _, _, _, .builtin, _ => .pure
  | _, slots, visible, path, .reference (m := m) (x := x), h => by
    rw [uses, index]
    cases hplace : Slot.place? x slots with
    | some place =>
      simp only [Scope.toList, hplace]
      rintro u hu ⟨hbinder, houter⟩
      cases List.mem_singleton.1 hu
      refine absurd (Slot.place?_eq_none.2 (mt (h x).1 (not_or.2 ⟨hbinder, houter⟩))) ?_
      rw [hplace]
      exact Option.some_ne_none _
    | none =>
      simp only [Scope.toList, hplace]
      obtain ⟨hbinder, houter⟩ := not_or.1 (mt (h x).2 (Slot.place?_eq_none.1 hplace))
      exact ⟨⟨path, x, visible⟩, List.mem_singleton_self _, ⟨hbinder, houter⟩, rfl⟩
  | _, _, _, _, .lambda hbody, h => (hbody.index_finds (h.single _ _)).map
  | _, _, _, _, .application hf ha, h => (hf.index_finds h).bind fun _ => (ha.index_finds h).map
  | _, _, _, _, .letIn hvalue hbody, h =>
    (hvalue.index_finds h).bind fun _ => (hbody.index_finds (h.single _ _)).map
  | .letRec _ arms _, _, _, path, .letRec _ harms hbody, h => by
    have hgroup := h.group path 0 arms
    rw [index, harms.groupNames_eq]
    exact (harms.index_finds hgroup).bind fun _ => (hbody.index_finds hgroup).map
  | _, _, _, _, .conditional hc ht he, h => by
    rw [uses, List.append_assoc]
    exact (hc.index_finds h).bind fun _ => (ht.index_finds h).bind fun _ => (he.index_finds h).map
  | _, _, _, _, .binary hl hr, h => (hl.index_finds h).bind fun _ => (hr.index_finds h).map
  | _, _, _, _, .unary he, h => (he.index_finds h).map
  | _, _, _, _, .sequence hes, h => (hes.index_finds h).map

theorem AreCore.index_finds : ∀ {ns : List Node} {slots : List Slot} {visible : Visible}
    {path : Path} {i : Nat}, AreCore ns → SlotsCover outer slots visible →
      Finds outer (usesAll visible path i ns) (indexAll ⟨slots⟩ ns)
  | _, _, _, _, _, .nil, _ => .pure
  | _, _, _, _, _, .cons hn hns, h => (hn.index_finds h).bind fun _ => (hns.index_finds h).map

theorem AreCoreFunctions.index_finds : ∀ {arms : List Node} {slots : List Slot} {visible : Visible}
    {path : Path} {i : Nat}, AreCoreFunctions arms → SlotsCover outer slots visible →
      Finds outer (usesAll visible path i arms) (indexGroup ⟨slots⟩ arms)
  | _, _, _, _, _, .nil, _ => .pure
  | _, _, _, _, _, .cons hbody hrest, h =>
    (hbody.index_finds (h.single _ _)).bind fun _ => (hrest.index_finds h).map

end

end ClosureML
