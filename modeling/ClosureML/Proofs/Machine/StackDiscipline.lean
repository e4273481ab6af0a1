import ClosureML.Proofs.Compilation
import ClosureML.Proofs.Machine.StackHeights

/-!
# Stack and environment of generated programs

Every block of a program runs with an environment of one layout, which is found from the places
where closures of blocks are made. In this environment, and from an empty stack, the block passes a
static check: no value is missing on the stack or in the environment, and a group of closures is
never used as a value.

* `SlotShape` and `Layout`: what the slots of an environment hold;
* `entries code`: the blocks that code makes closures of, with the slots that they find in front;
* `Program.HasLayout`: the layout of the environment of a block;
* `Passes layout code`: the check;
* `Accords enters layout code`: code that is in accord with the layout of its environment;
* `Fits layout n`: a tree whose places lie in an environment of that layout;
* `Program.IsDisciplined`: what generation makes of such a tree.

Main statements: `IsTree.index_fits` (places fit), `Fits.accords` and `Fits.carries` (what the code
of a tree does), and `Source.passes_of_build`.
-/

namespace ClosureML

open Machine Node

/-! ## 1. Shapes of environments -/

/-- What a slot of the environment holds: one value, or a group of closures with so many members. -/
inductive SlotShape where
  | value
  | group (members : Nat)
  deriving DecidableEq, Repr

/-- The slots of an environment, the innermost first. -/
abbrev Layout := List SlotShape

/-- **The blocks that code makes closures of**, with the slots that lie in front of the environment
    of the code when they run. A closure beside a group is called with the group, and the members of
    the group with a value behind which the group lies; any other closure is called with a value. -/
def entries : List Instruction → List (Label × Layout)
  | [] => []
  | .closure l :: .closures members :: code =>
    (l, [.group members.length]) ::
      (members.map fun m => (m, [.value, .group members.length])) ++ entries code
  | .closure l :: code => (l, [.value]) :: entries code
  | _ :: code => entries code

/-- **The layout of the environment in which a block runs.** The main block starts with no slots. -/
inductive Program.HasLayout (p : Program) : Label → Layout → Prop where
  | main : HasLayout p "main" []
  | next {b : Block} {label : Label} {slots layout : Layout} (hb : b ∈ p.blocks)
      (h : HasLayout p b.label layout) (hentry : (label, slots) ∈ entries b.instructions) :
      HasLayout p label (slots ++ layout)

/-- **The check of a block** in an environment of some layout. -/
structure Passes (layout : Layout) (code : List Instruction) : Prop where
  /-- No instruction pops more than there is, -/
  enough : ∀ place height i, Arrives code place height → code[place]? = some i → i.takes ≤ height
  /-- all ways to a place come there with one height, -/
  agree : ∀ place height height', Arrives code place height → Arrives code place height' →
    height = height'
  /-- and control comes to the end of the block with one value. -/
  final : ∃ body i, code = body ++ [i] ∧ (i = .halt ∨ i = .leave) ∧
    ∀ height, Arrives code body.length height ↔ height = 1
  /-- Depths are those of slots, and a member is taken from a group at once; -/
  access : ∀ before depth after, code = before ++ .access depth :: after →
    1 ≤ depth ∧ depth ≤ layout.length ∧ ∀ members, numbered? layout depth = some (.group members) →
      ∃ sibling rest, after = .focus sibling :: rest ∧ 1 ≤ sibling ∧ sibling ≤ members
  /-- members are taken from groups only. -/
  focus : ∀ before sibling after, code = before ++ .focus sibling :: after →
    ∃ front depth members, before = front ++ [.access depth] ∧
      numbered? layout depth = some (.group members)

/-! ## 2. Code in accord with a layout -/

/-- Whether the environment has a layout makes no difference to the instruction. -/
def Instruction.IsFree : Instruction → Prop
  | access _ | focus _ | closure _ | closures _ => False
  | _ => True

/-- **Code in accord with the layout of its environment**: values are taken from single slots and
    members from groups, and the blocks of which closures are made enter with the slots that they
    need. -/
inductive Accords (enters : Label → Layout → Prop) (layout : Layout) : List Instruction → Prop where
  | nil : Accords enters layout []
  | free {i : Instruction} {code : List Instruction} (hi : i.IsFree)
      (hrest : Accords enters layout code) : Accords enters layout (i :: code)
  | value {depth : Nat} {code : List Instruction} (h : numbered? layout depth = some .value)
      (hrest : Accords enters layout code) : Accords enters layout (.access depth :: code)
  | member {depth members sibling : Nat} {code : List Instruction}
      (h : numbered? layout depth = some (.group members)) (hone : 1 ≤ sibling)
      (hle : sibling ≤ members) (hrest : Accords enters layout code) :
      Accords enters layout (.access depth :: .focus sibling :: code)
  | closure {l : Label} {code : List Instruction} (h : enters l (.value :: layout))
      (hrest : Accords enters layout code) : Accords enters layout (.closure l :: code)
  | group {l : Label} {members : List Label} {code : List Instruction}
      (h : enters l (.group members.length :: layout))
      (hmembers : ∀ m ∈ members, enters m (.value :: .group members.length :: layout))
      (hrest : Accords enters layout code) :
      Accords enters layout (.closure l :: .closures members :: code)

namespace Accords

variable {enters : Label → Layout → Prop} {layout : Layout} {code code' : List Instruction}

theorem append (h : Accords enters layout code) (h' : Accords enters layout code') :
    Accords enters layout (code ++ code') := by
  induction h with
  | nil => exact h'
  | free hi _ ih => exact .free hi ih
  | value hslot _ ih => exact .value hslot ih
  | member hslot hone hle _ ih => exact .member hslot hone hle ih
  | closure hl _ ih => exact .closure hl ih
  | group hl hmembers _ ih => exact .group hl hmembers ih

theorem one {i : Instruction} (hi : i.IsFree) : Accords enters layout [i] := .free hi .nil

theorem inSequence : ∀ {codes : List (List Instruction)},
    (∀ code ∈ codes, Accords enters layout code) → Accords enters layout (inSequence codes)
  | [], _ => .nil
  | [code], h => h code List.mem_cons_self
  | code :: code' :: codes, h => by
    obtain ⟨hcode, hcodes⟩ := List.forall_mem_cons.1 h
    rw [inSequence_cons]
    exact hcode.append (.free trivial (inSequence hcodes))

theorem entries_free {i : Instruction} (hi : i.IsFree) : entries (i :: code) = entries code := by
  cases i with
  | access | focus | closure | closures => exact hi.elim
  | _ => rfl

/-- A group begins with its closure, so that no group lies behind another closure. -/
theorem entries_closure (h : Accords enters layout code) (l : Label) :
    entries (.closure l :: code) = (l, [.value]) :: entries code := by
  cases h with
  | @free i code hi =>
    cases i with
    | access | focus | closure | closures => exact hi.elim
    | _ => rfl
  | _ => rfl

/-- The entries are those of all the closures. -/
theorem entries_fst (h : Accords enters layout code) :
    (entries code).map Prod.fst = referenced code := by
  induction h with
  | nil => rfl
  | @free i code hi _ ih =>
    have hreferences : i.references = [] := by
      cases i with
      | access | focus | closure | closures => exact hi.elim
      | _ => rfl
    rw [entries_free hi, referenced_cons, hreferences, List.nil_append, ih]
  | value _ _ ih => exact ih
  | member _ _ _ _ ih => exact ih
  | closure _ hrest ih =>
    rw [hrest.entries_closure, List.map_cons, ih]
    rfl
  | group _ _ _ ih =>
    rw [entries, List.map_append, ih]
    simp [Instruction.references, Function.comp_def]

/-- A block enters with the slots of its entry. -/
theorem enters_of_mem (h : Accords enters layout code) {l : Label} {slots : Layout}
    (hentry : (l, slots) ∈ entries code) : enters l (slots ++ layout) := by
  induction h with
  | nil => cases hentry
  | free hi _ ih =>
    rw [entries_free hi] at hentry
    exact ih hentry
  | value _ _ ih => exact ih hentry
  | member _ _ _ _ ih => exact ih hentry
  | closure hl hrest ih =>
    rw [hrest.entries_closure] at hentry
    rcases List.mem_cons.1 hentry with hentry | hentry
    · cases hentry
      exact hl
    · exact ih hentry
  | group hl hmembers _ ih =>
    rw [entries] at hentry
    rcases List.mem_append.1 hentry with hentry | hentry
    · rcases List.mem_cons.1 hentry with hentry | hentry
      · cases hentry
        exact hl
      · obtain ⟨m, hm, hentry⟩ := List.mem_map.1 hentry
        cases hentry
        exact hmembers _ hm
    · exact ih hentry

/-- What stands behind some code: code in accord, or an instruction that belongs to the last one. -/
inductive Stands (enters : Label → Layout → Prop) (layout : Layout) (before : List Instruction) :
    List Instruction → Prop where
  | first {code : List Instruction} (h : Accords enters layout code) :
      Stands enters layout before code
  | sibling {front after : List Instruction} {depth members sibling : Nat}
      (hbefore : before = front ++ [.access depth])
      (hslot : numbered? layout depth = some (.group members)) :
      Stands enters layout before (.focus sibling :: after)
  | members {members : List Label} {after : List Instruction} :
      Stands enters layout before (.closures members :: after)

theorem Stands.cons {before : List Instruction} (h : Stands enters layout before code)
    (i : Instruction) : Stands enters layout (i :: before) code := by
  cases h with
  | first h => exact .first h
  | @sibling front _ depth _ _ hbefore hslot =>
    have hcons : i :: before = (i :: front) ++ [.access depth] := by rw [hbefore, List.cons_append]
    exact .sibling hcons hslot
  | members => exact .members

/-- Code in accord is cut at an instruction. -/
theorem cut (h : Accords enters layout code) :
    ∀ {before after : List Instruction} {i : Instruction},
    code = before ++ i :: after → Stands enters layout before (i :: after) := by
  induction h with
  | nil => exact fun h => absurd h.symm (by simp)
  | free hi hrest ih =>
    rintro (_ | ⟨j, before⟩) after i ⟨⟩
    · exact .first (.free hi hrest)
    · exact (ih rfl).cons _
  | value hslot hrest ih =>
    rintro (_ | ⟨j, before⟩) after i ⟨⟩
    · exact .first (.value hslot hrest)
    · exact (ih rfl).cons _
  | closure hl hrest ih =>
    rintro (_ | ⟨j, before⟩) after i ⟨⟩
    · exact .first (.closure hl hrest)
    · exact (ih rfl).cons _
  | member hslot hone hle hrest ih =>
    rintro (_ | ⟨j, _ | ⟨j', before⟩⟩) after i ⟨⟩
    · exact .first (.member hslot hone hle hrest)
    · exact .sibling (List.nil_append _).symm hslot
    · exact ((ih rfl).cons _).cons _
  | group hl hmembers hrest ih =>
    rintro (_ | ⟨j, _ | ⟨j', before⟩⟩) after i ⟨⟩
    · exact .first (.group hl hmembers hrest)
    · exact .members
    · exact ((ih rfl).cons _).cons _

theorem access (h : Accords enters layout code) {before after : List Instruction} {depth : Nat}
    (hcode : code = before ++ .access depth :: after) :
    1 ≤ depth ∧ depth ≤ layout.length ∧ ∀ members, numbered? layout depth = some (.group members) →
      ∃ sibling rest, after = .focus sibling :: rest ∧ 1 ≤ sibling ∧ sibling ≤ members := by
  have hbounds : ∀ {slot}, numbered? layout depth = some slot →
      1 ≤ depth ∧ depth ≤ layout.length := by
    intro slot hslot
    cases depth with
    | zero => cases hslot
    | succ depth => exact ⟨Nat.le_add_left _ _, (List.getElem?_eq_some_iff.1 hslot).1⟩
  cases h.cut hcode with
  | first h =>
    cases h with
    | free hi => exact hi.elim
    | value hslot hrest =>
      refine ⟨(hbounds hslot).1, (hbounds hslot).2, fun members hgroup => ?_⟩
      rw [hslot] at hgroup
      cases hgroup
    | member hslot hone hle hrest =>
      refine ⟨(hbounds hslot).1, (hbounds hslot).2, fun members hgroup => ?_⟩
      rw [hslot] at hgroup
      cases hgroup
      exact ⟨_, _, rfl, hone, hle⟩

theorem focus (h : Accords enters layout code) {before after : List Instruction} {sibling : Nat}
    (hcode : code = before ++ .focus sibling :: after) : ∃ front depth members,
      before = front ++ [.access depth] ∧ numbered? layout depth = some (.group members) := by
  cases h.cut hcode with
  | first h =>
    cases h with
    | free hi => exact hi.elim
  | sibling hbefore hslot => exact ⟨_, _, _, hbefore, hslot⟩

end Accords

/-! ## 3. Trees that fit a layout -/

/-- **A tree whose places lie in an environment of some layout.** -/
inductive Fits : Layout → Node → Prop where
  | literal {layout : Layout} {m : Mark} {l : Literal} : Fits layout (.literal m l)
  | builtin {layout : Layout} {m : Mark} {b : Builtin} : Fits layout (.builtin m b)
  | value {layout : Layout} {m : Mark} {depth : Nat} (h : numbered? layout depth = some .value) :
      Fits layout (.indexed m depth none)
  | member {layout : Layout} {m : Mark} {depth members sibling : Nat}
      (h : numbered? layout depth = some (.group members)) (hone : 1 ≤ sibling)
      (hle : sibling ≤ members) : Fits layout (.indexed m depth (some sibling))
  | lambda {layout : Layout} {m : Mark} {x : String} {a : Option TypeExpr} {body : Node}
      (hbody : Fits (.value :: layout) body) : Fits layout (.lambda m x a body)
  | application {layout : Layout} {m : Mark} {f a : Node} (hf : Fits layout f)
      (ha : Fits layout a) : Fits layout (.application m f a)
  | letIn {layout : Layout} {m : Mark} {x : String} {a : Option TypeExpr} {value body : Node}
      (hvalue : Fits layout value) (hbody : Fits (.value :: layout) body) :
      Fits layout (.letIn m x a value body)
  | letRec {layout : Layout} {m : Mark} {arms : List Node} {body : Node}
      (hkind : ∀ arm ∈ arms, arm.kind = .letRecArm)
      (harms : ∀ m f x pa ra inner, .letRecArm m f x pa ra inner ∈ arms →
        Fits (.value :: .group arms.length :: layout) inner)
      (hbody : Fits (.group arms.length :: layout) body) : Fits layout (.letRec m arms body)
  | conditional {layout : Layout} {m : Mark} {c t e : Node} (hc : Fits layout c)
      (ht : Fits layout t) (he : Fits layout e) : Fits layout (.conditional m c t e)
  | binary {layout : Layout} {m : Mark} {o : BinaryOperator} {l r : Node} (hl : Fits layout l)
      (hr : Fits layout r) : Fits layout (.binary m o l r)
  | unary {layout : Layout} {m : Mark} {o : UnaryOperator} {e : Node} (he : Fits layout e) :
      Fits layout (.unary m o e)
  | sequence {layout : Layout} {m : Mark} {es : List Node} (hne : es ≠ [])
      (hes : ∀ e ∈ es, Fits layout e) : Fits layout (.sequence m es)

/-- Trees that fit have no other program inside. -/
theorem Fits.everywhere {layout : Layout} {n : Node} (h : Fits layout n) :
    n.Everywhere (·.kind ≠ .top) := by
  induction h with
  | literal | builtin | value | member => exact .mk (by simp [kind]) (by simp [children])
  | lambda _ ih | unary _ ih => exact .mk (by simp [kind]) (List.forall_mem_singleton.2 ih)
  | application _ _ ih ih' | letIn _ _ ih ih' | binary _ _ ih ih' =>
    exact .mk (by simp [kind]) (List.forall_mem_cons.2 ⟨ih, List.forall_mem_singleton.2 ih'⟩)
  | conditional _ _ _ ih ih' ih'' =>
    exact .mk (by simp [kind]) (List.forall_mem_cons.2 ⟨ih, List.forall_mem_cons.2
      ⟨ih', List.forall_mem_singleton.2 ih''⟩⟩)
  | letRec hkind _ _ ih ih' =>
    refine .mk (by simp [kind]) fun c hc => ?_
    rcases List.mem_append.1 hc with hc | hc
    · have := hkind c hc
      cases c with
      | letRecArm m f x pa ra inner =>
        exact .mk (by simp [kind]) (List.forall_mem_singleton.2 (ih _ _ _ _ _ _ hc))
      | _ => cases this
    · exact List.mem_singleton.1 hc ▸ ih'
  | sequence _ _ ih => exact .mk (by simp [kind]) ih

/-! ## 4. Places fit -/

/-- What a slot holds. -/
def Slot.shape : Slot → SlotShape
  | single _ => .value
  | group names => .group names.length

theorem numbered?_cons {α : Type} {a b : α} {as : List α} {i : Nat} (h : numbered? as i = some b) :
    numbered? (a :: as) (i + 1) = some b := by
  cases i with
  | zero => cases h
  | succ i => exact h

/-- A place in an environment is one in an environment with a slot in front. -/
theorem Fits.outward {layout : Layout} {m : Mark} {depth : Nat} {sibling : Option Nat}
    (h : Fits layout (.indexed m depth sibling)) (slot : SlotShape) :
    Fits (slot :: layout) (.indexed m (depth + 1) sibling) := by
  cases h with
  | value hslot => exact .value (numbered?_cons hslot)
  | member hslot hone hle => exact .member (numbered?_cons hslot) hone hle

/-- The place of a name fits the slots among which it was found. -/
theorem Slot.fits_of_place? {x : String} {slots : List Slot} {depth : Nat} {sibling : Option Nat}
    {m : Mark} (h : Slot.place? x slots = some (depth, sibling)) :
    Fits (slots.map shape) (.indexed m depth sibling) := by
  induction slots generalizing depth with
  | nil => cases h
  | cons slot slots ih =>
    rw [place?] at h
    cases hmember : slot.member? x with
    | none =>
      rw [hmember] at h
      obtain ⟨⟨depth', sibling'⟩, hplace, heq⟩ := Option.map_eq_some_iff.1 h
      cases heq
      exact (ih hplace).outward _
    | some found =>
      rw [hmember] at h
      cases h
      cases slot with
      | single y =>
        rw [member?] at hmember
        split at hmember
        · cases hmember
          exact .value rfl
        · cases hmember
      | group names =>
        obtain ⟨i, hi, heq⟩ := Option.map_eq_some_iff.1 hmember
        cases heq
        have hlt := (List.findIdx?_eq_some_iff_findIdx_eq.1 hi).1
        have hgroup : numbered? ((Slot.group names :: slots).map Slot.shape) 1 =
            some (.group names.length) := rfl
        exact .member hgroup (Nat.le_add_left _ _) hlt

section Indexing

variable {tags : List (String × Nat)} {P : String → Prop}

mutual

/-- **The places of a tree of the core level fit** the slots among which they were found. -/
theorem IsTree.index_fits : ∀ {names : List String} {n n' : Node} {slots : List Slot},
    IsTree tags P .core names n → n.index ⟨slots⟩ = .ok n' → Fits (slots.map Slot.shape) n'
  | _, _, _, _, .literal, h => by
    cases h
    exact .literal
  | _, _, _, slots, .reference (x := x) _ _, h => by
    rw [index] at h
    split at h
    · next depth sibling hplace =>
      cases h
      exact Slot.fits_of_place? hplace
    · cases h
  | _, _, _, _, .builtin, h => by
    cases h
    exact .builtin
  | _, _, _, _, .lambda hbody, h => by
    rw [index] at h
    obtain ⟨body', hbody', h⟩ := bind_ok_iff.1 h
    cases h
    exact .lambda (hbody.index_fits hbody')
  | _, _, _, _, .application hf ha, h => by
    rw [index] at h
    obtain ⟨f', hf', h⟩ := bind_ok_iff.1 h
    obtain ⟨a', ha', h⟩ := bind_ok_iff.1 h
    cases h
    exact .application (hf.index_fits hf') (ha.index_fits ha')
  | _, _, _, _, .letIn hvalue hbody, h => by
    rw [index] at h
    obtain ⟨value', hvalue', h⟩ := bind_ok_iff.1 h
    obtain ⟨body', hbody', h⟩ := bind_ok_iff.1 h
    cases h
    exact .letIn (hvalue.index_fits hvalue') (hbody.index_fits hbody')
  | _, .letRec _ arms _, _, slots, .letRec _ harms hbody, h => by
    rw [index] at h
    obtain ⟨group, hnames, h⟩ := bind_ok_iff.1 h
    obtain rfl := Except.ok.inj (harms.areCore.groupNames_eq.symm.trans hnames)
    obtain ⟨arms', harms', h⟩ := bind_ok_iff.1 h
    obtain ⟨body', hbody', h⟩ := bind_ok_iff.1 h
    cases h
    obtain ⟨hlength, hkind, hinner⟩ := harms.indexGroup_fits harms'
    have hgroup : (functionNames arms).length = arms'.length :=
      harms.areCore.length_functionNames.trans hlength.symm
    have hslots : (Slot.group (functionNames arms) :: slots).map Slot.shape =
        .group arms'.length :: slots.map Slot.shape := by
      rw [List.map_cons, Slot.shape, hgroup]
    exact .letRec hkind (hslots ▸ hinner) (hslots ▸ hbody.index_fits hbody')
  | _, _, _, _, .conditional hc ht he, h => by
    rw [index] at h
    obtain ⟨c', hc', h⟩ := bind_ok_iff.1 h
    obtain ⟨t', ht', h⟩ := bind_ok_iff.1 h
    obtain ⟨e', he', h⟩ := bind_ok_iff.1 h
    cases h
    exact .conditional (hc.index_fits hc') (ht.index_fits ht') (he.index_fits he')
  | _, _, _, _, .binary hl hr, h => by
    rw [index] at h
    obtain ⟨l', hl', h⟩ := bind_ok_iff.1 h
    obtain ⟨r', hr', h⟩ := bind_ok_iff.1 h
    cases h
    exact .binary (hl.index_fits hl') (hr.index_fits hr')
  | _, _, _, _, .unary he, h => by
    rw [index] at h
    obtain ⟨e', he', h⟩ := bind_ok_iff.1 h
    cases h
    exact .unary (he.index_fits he')
  | _, _, _, _, .sequence hne hes, h => by
    rw [index] at h
    obtain ⟨es', hes', h⟩ := bind_ok_iff.1 h
    cases h
    obtain ⟨hlength, hfits⟩ := hes.indexAll_fits hes'
    refine .sequence (fun hnil => hne ?_) hfits
    rwa [← List.length_eq_zero_iff, ← hlength, List.length_eq_zero_iff]
  -- the constructs that lowering takes away
  | _, _, _, _, .tuple hL _ _, _ => absurd rfl hL
  | _, _, _, _, .projection hL _ _, _ => absurd rfl hL
  | _, _, _, _, .dataType hL _ _, _ => nomatch hL
  | _, _, _, _, .matchWith hL _ _, _ => nomatch hL

theorem AreTrees.indexAll_fits : ∀ {names : List String} {ns ns' : List Node} {slots : List Slot},
    AreTrees tags P .core names ns → indexAll ⟨slots⟩ ns = .ok ns' →
      ns'.length = ns.length ∧ ∀ n ∈ ns', Fits (slots.map Slot.shape) n
  | _, _, _, _, .nil, h => by
    cases h
    exact ⟨rfl, nofun⟩
  | _, _, _, _, .cons hn hns, h => by
    rw [indexAll] at h
    obtain ⟨n', hn', h⟩ := bind_ok_iff.1 h
    obtain ⟨ns', hns', h⟩ := bind_ok_iff.1 h
    cases h
    obtain ⟨hlength, hfits⟩ := hns.indexAll_fits hns'
    exact ⟨congrArg (· + 1) hlength, List.forall_mem_cons.2 ⟨hn.index_fits hn', hfits⟩⟩

theorem AreFunctions.indexGroup_fits : ∀ {names : List String} {arms arms' : List Node}
    {slots : List Slot}, AreFunctions tags P .core names arms →
      indexGroup ⟨slots⟩ arms = .ok arms' →
      arms'.length = arms.length ∧ (∀ arm ∈ arms', arm.kind = .letRecArm) ∧
        ∀ m f x pa ra inner, .letRecArm m f x pa ra inner ∈ arms' →
          Fits (.value :: slots.map Slot.shape) inner
  | _, _, _, _, .nil, h => by
    cases h
    exact ⟨rfl, nofun, nofun⟩
  | _, _, _, _, .cons hbody hrest, h => by
    rw [indexGroup] at h
    obtain ⟨body', hbody', h⟩ := bind_ok_iff.1 h
    obtain ⟨rest', hrest', h⟩ := bind_ok_iff.1 h
    cases h
    obtain ⟨hlength, hkind, hinner⟩ := hrest.indexGroup_fits hrest'
    refine ⟨congrArg (· + 1) hlength, List.forall_mem_cons.2 ⟨rfl, hkind⟩, ?_⟩
    intro m f x pa ra inner hmem
    rcases List.mem_cons.1 hmem with heq | hmem
    · cases heq
      exact hbody.index_fits hbody'
    · exact hinner m f x pa ra inner hmem

end

theorem IsRoot.resolveIndices_fits {n n' : Node} (h : IsRoot tags P .core n)
    (hindex : n.resolveIndices = .ok n') : ∃ m e, n' = .top m e ∧ Fits [] e := by
  cases h with
  | @mk m e he =>
    rw [resolveIndices, index] at hindex
    obtain ⟨e', he', hindex⟩ := bind_ok_iff.1 hindex
    cases hindex
    exact ⟨m, e', rfl, he.index_fits he'⟩

end Indexing

/-! ## 5. The code of trees -/

section Code

variable {p : Program} {n : Node} {layout : Layout} {code : List Instruction}

/-- A block that runs a tree which fits the layout enters with it. -/
def Program.Enters (p : Program) (label : Label) (layout : Layout) : Prop :=
  ∃ n, HasBlock p label n ∧ Fits layout n

theorem exists_of_forall₂ {α β : Type} {R : α → β → Prop} {as : List α} {bs : List β}
    (h : List.Forall₂ R as bs) {b : β} (hb : b ∈ bs) : ∃ a ∈ as, R a b := by
  induction h with
  | nil => cases hb
  | cons hab _ ih =>
    rcases List.mem_cons.1 hb with rfl | hb
    · exact ⟨_, List.mem_cons_self, hab⟩
    · obtain ⟨a, ha, h⟩ := ih hb
      exact ⟨a, List.mem_cons_of_mem _ ha, h⟩

/-- **The code of a tree that fits is in accord** with the layout. -/
theorem Fits.accords (h : Fits layout n) : ∀ {code : List Instruction}, HasCode p n code →
    Accords p.Enters layout code := by
  induction h with
  | literal =>
    intro code hcode
    rw [hcode.literal]
    exact .one trivial
  | builtin =>
    intro code hcode
    rw [hcode.builtin]
    exact .one trivial
  | value hslot =>
    intro code hcode
    rw [hcode.indexed]
    exact .value hslot .nil
  | member hslot hone hle =>
    intro code hcode
    rw [hcode.indexed]
    exact .member hslot hone hle .nil
  | lambda hbody _ =>
    intro code hcode
    obtain ⟨label, rfl, hblock⟩ := hcode.lambda
    exact .closure ⟨_, hblock, hbody⟩ .nil
  | application _ _ ihf iha =>
    intro code hcode
    obtain ⟨function, argument, rfl, hf, ha⟩ := hcode.application
    exact ((ihf hf).append (iha ha)).append (.one trivial)
  -- the body is no part of this code: it stands in a block of its own
  | letIn _ hbody ihvalue _ =>
    intro code hcode
    obtain ⟨label, valueCode, rfl, hvalue, hblock⟩ := hcode.letIn
    exact .closure ⟨_, hblock, hbody⟩ ((ihvalue hvalue).append (.one trivial))
  | letRec hkind harms hbody _ _ =>
    intro code hcode
    obtain ⟨label, members, rfl, hmembers, hblock⟩ := hcode.letRec
    rw [← hmembers.length_eq] at *
    refine .group ⟨_, hblock, hbody⟩ (fun m hm => ?_) (.one trivial)
    obtain ⟨arm, harm, hblock⟩ := exists_of_forall₂ hmembers.flip hm
    have hfunction := hkind arm harm
    cases arm with
    | letRecArm mark f x pa ra inner =>
      obtain ⟨innerCode, hinner, hmem⟩ := hblock
      exact ⟨inner, ⟨innerCode, hinner.letRecArm, hmem⟩, harms _ _ _ _ _ _ harm⟩
    | _ => cases hfunction
  | conditional _ _ _ ihc iht ihe =>
    intro code hcode
    obtain ⟨condition, thenCode, elseCode, thenLabel, elseLabel, endLabel, rfl, hc, ht, he⟩ :=
      hcode.conditional
    rw [conditionalCode_eq]
    exact (ihc hc).append (.free trivial (.free trivial ((iht ht).append (.free trivial
      (.free trivial ((ihe he).append (.one trivial)))))))
  | binary _ _ ihl ihr =>
    intro code hcode
    obtain ⟨left, right, rfl, hl, hr⟩ := hcode.binary
    exact ((ihl hl).append (ihr hr)).append (.one trivial)
  | unary _ ih =>
    intro code hcode
    obtain ⟨operand, rfl, he⟩ := hcode.unary
    exact (ih he).append (.one trivial)
  | sequence _ _ ih =>
    intro code hcode
    obtain ⟨cs, rfl, hes⟩ := hcode.sequence
    refine .inSequence fun c hc => ?_
    obtain ⟨e, he, hcode⟩ := exists_of_forall₂ hes hc
    exact ih e he hcode

/-- **The code of a tree that fits pushes a value.** -/
theorem Fits.carries (h : Fits layout n) : ∀ {code : List Instruction} (height : Nat),
    HasCode p n code → Carries code height (height + 1) := by
  induction h with
  | literal =>
    intro code height hcode
    rw [hcode.literal]
    exact .one trivial rfl (Nat.zero_le _)
  | builtin =>
    intro code height hcode
    rw [hcode.builtin]
    exact .one trivial rfl (Nat.zero_le _)
  | value =>
    intro code height hcode
    rw [hcode.indexed]
    exact .one trivial rfl (Nat.zero_le _)
  | @member _ _ depth _ sibling =>
    intro code height hcode
    rw [hcode.indexed]
    have hgroup : Carries [.access depth] height (height + 1) := .one trivial rfl (Nat.zero_le _)
    exact hgroup.snoc (i := .focus sibling) trivial rfl (Nat.le_add_left _ _)
  | lambda =>
    intro code height hcode
    obtain ⟨label, rfl, -⟩ := hcode.lambda
    exact .one trivial rfl (Nat.zero_le _)
  | application _ _ ihf iha =>
    intro code height hcode
    obtain ⟨function, argument, rfl, hf, ha⟩ := hcode.application
    exact ((ihf height hf).append (iha _ ha)).snoc (i := .apply) trivial rfl (Nat.le_add_left _ _)
  | letIn _ _ ihvalue _ =>
    intro code height hcode
    obtain ⟨label, valueCode, rfl, hvalue, -⟩ := hcode.letIn
    have hclosure : Carries [.closure label] height (height + 1) := .one trivial rfl (Nat.zero_le _)
    exact (hclosure.append (ihvalue _ hvalue)).snoc (i := .apply) trivial rfl (Nat.le_add_left _ _)
  | letRec =>
    intro code height hcode
    obtain ⟨label, members, rfl, -, -⟩ := hcode.letRec
    have hclosure : Carries [.closure label] height (height + 1) := .one trivial rfl (Nat.zero_le _)
    have hgroup := hclosure.snoc (i := .closures members) trivial rfl (Nat.zero_le _)
    exact hgroup.snoc (i := .apply) trivial rfl (Nat.le_add_left _ _)
  | conditional _ _ _ ihc iht ihe =>
    intro code height hcode
    obtain ⟨condition, thenCode, elseCode, thenLabel, elseLabel, endLabel, rfl, hc, ht, he⟩ :=
      hcode.conditional
    exact .conditional (ihc _ hc) (iht _ ht) (ihe _ he)
  | @binary _ _ o _ _ _ _ ihl ihr =>
    intro code height hcode
    obtain ⟨left, right, rfl, hl, hr⟩ := hcode.binary
    exact ((ihl height hl).append (ihr _ hr)).snoc (i := .binary o) trivial rfl
      (Nat.le_add_left _ _)
  | @unary _ _ o _ _ ih =>
    intro code height hcode
    obtain ⟨operand, rfl, he⟩ := hcode.unary
    exact (ih height he).snoc (i := .unary o) trivial rfl (Nat.le_add_left _ _)
  | sequence hne _ ih =>
    intro code height hcode
    obtain ⟨cs, rfl, hes⟩ := hcode.sequence
    refine .inSequence ?_ fun c hc => ?_
    · rintro rfl
      cases hes
      exact hne rfl
    · obtain ⟨e, he, hcode⟩ := exists_of_forall₂ hes hc
      exact ih e he height hcode

end Code

/-! ## 6. Blocks -/

section Blocks

variable {p : Program} {b : Block} {label : Label} {layout layout' : Layout}

/-- A block that runs a tree which fits a layout, and then stops or goes back. -/
def Program.RunsWith (p : Program) (layout : Layout) (b : Block) : Prop :=
  ∃ n code i, Fits layout n ∧ HasCode p n code ∧ (i = .halt ∨ i = .leave) ∧
    b.instructions = code ++ [i]

theorem Program.RunsWith.accords (h : p.RunsWith layout b) :
    Accords p.Enters layout b.instructions := by
  obtain ⟨n, code, i, hfits, hcode, hi, heq⟩ := h
  rw [heq]
  refine (hfits.accords hcode).append (.one ?_)
  rcases hi with rfl | rfl
  all_goals trivial

/-- **A block that runs a tree which fits passes the check.** -/
theorem Program.RunsWith.passes (h : p.RunsWith layout b)
    (hplaces : (placed b.instructions).Nodup) :
    Passes layout b.instructions := by
  have haccords := h.accords
  obtain ⟨n, code, i, hfits, hcode, hi, heq⟩ := h
  obtain ⟨⟨marks, hmarks, hlevels⟩, hflows⟩ := hfits.carries 0 hcode
  have hplaced : placed b.instructions = placed code := by
    rcases hi with rfl | rfl
    all_goals simp [heq, placed]
  obtain ⟨heights, henough, harrives⟩ := (hlevels.append (.final hi)).exists_eq_of_arrives
    (hmarks ▸ hplaced ▸ hplaces)
  rw [← heq] at henough harrives
  have hend : Arrives b.instructions code.length 1 := heq ▸ hflows [] [i] .start
  refine ⟨fun place height j h hj => harrives _ _ h ▸ henough place j hj,
    fun place height height' h h' => (harrives _ _ h).trans (harrives _ _ h').symm,
    ⟨code, i, heq, hi, fun height => ⟨fun h => ?_, fun h => h ▸ hend⟩⟩,
    fun _ _ _ => haccords.access, fun _ _ _ => haccords.focus⟩
  rw [harrives _ _ h, ← harrives _ _ hend]

/-- What generation makes of a program that fits the empty layout. -/
structure Program.IsDisciplined (p : Program) : Prop where
  labelled : p.IsLabelled
  main : ∀ b ∈ p.blocks, b.label = "main" → p.RunsWith [] b
  references : p.references.Nodup
  mainReference : "main" ∉ p.references
  leads : ∀ b ∈ p.blocks, ∃ way, p.Leads b.label way

namespace Program.IsDisciplined

/-- Different blocks have different labels. -/
theorem eq_of_label (hp : p.IsDisciplined) {b b' : Block} (hb : b ∈ p.blocks) (hb' : b' ∈ p.blocks)
    (h : b.label = b'.label) : b = b' :=
  List.inj_on_of_nodup_map hp.labelled.blocks hb hb' h

/-- **A block runs a tree which fits the layout of its environment.** -/
theorem runsWith (hp : p.IsDisciplined) (h : p.HasLayout label layout) :
    ∀ b ∈ p.blocks, b.label = label → p.RunsWith layout b := by
  induction h with
  | main => exact hp.main
  | @next caller label slots layout hcaller _ hentry ih =>
    rintro b hb rfl
    obtain ⟨n, ⟨code, hcode, hmem⟩, hfits⟩ := (ih caller hcaller rfl).accords.enters_of_mem hentry
    have hblock := hp.eq_of_label hmem hb rfl
    exact ⟨n, code, .leave, hfits, hcode, .inr rfl, hblock ▸ rfl⟩

/-- The entries of a block are those of its closures. -/
theorem entries_fst (hp : p.IsDisciplined) (hb : b ∈ p.blocks) (h : p.HasLayout b.label layout) :
    (entries b.instructions).map Prod.fst = b.references :=
  (hp.runsWith h b hb rfl).accords.entries_fst

/-- **A block has one layout.** -/
theorem layout_unique (hp : p.IsDisciplined) (h : p.HasLayout label layout)
    (h' : p.HasLayout label layout') : layout = layout' := by
  have hmem : ∀ {b label slots layout}, b ∈ p.blocks → p.HasLayout b.label layout →
      (label, slots) ∈ entries b.instructions → label ∈ b.references := by
    intro b label slots layout hb h hentry
    rw [← hp.entries_fst hb h]
    exact List.mem_map_of_mem (f := Prod.fst) hentry
  induction h generalizing layout' with
  | main =>
    cases h' with
    | main => rfl
    | next hb h hentry =>
      exact absurd (List.mem_flatMap.2 ⟨_, hb, hmem hb h hentry⟩) hp.mainReference
  | @next b label slots layout hb h hentry ih =>
    cases h' with
    | main => exact absurd (List.mem_flatMap.2 ⟨_, hb, hmem hb h hentry⟩) hp.mainReference
    | @next b' _ slots' layout' hb' h' hentry' =>
      obtain rfl := Program.eq_of_mem_references hp.references hb hb' (hmem hb h hentry)
        (hmem hb' h' hentry')
      have hnodup : ((entries b.instructions).map Prod.fst).Nodup :=
        (hp.entries_fst hb h).symm ▸ (List.nodup_flatMap.1 hp.references).1 b hb
      cases List.inj_on_of_nodup_map hnodup hentry hentry' rfl
      rw [ih h']

/-- A block that is led to has a layout. -/
theorem exists_hasLayout (hp : p.IsDisciplined) {way : List Label} (h : p.Leads label way) :
    ∃ layout, p.HasLayout label layout := by
  induction h with
  | main => exact ⟨[], .main⟩
  | @next b label way hb _ hlabel ih =>
    obtain ⟨layout, hlayout⟩ := ih
    rw [← hp.entries_fst hb hlayout] at hlabel
    obtain ⟨⟨_, slots⟩, hentry, rfl⟩ := List.mem_map.1 hlabel
    exact ⟨slots ++ layout, .next hb hlayout hentry⟩

end Program.IsDisciplined

/-- A program that is generated from a tree which fits the empty layout. -/
theorem Program.isDisciplined_of_generate {m : Mark} {e : Node} (he : Fits [] e)
    (h : (Node.top m e).generate = .ok p) : p.IsDisciplined := by
  obtain ⟨code, new, s', hp, hwires⟩ := wires_of_generate he.everywhere h
  have hperm := references_perm hp hwires
  have hlabelled := isLabelled_of_generate h
  refine ⟨hlabelled, fun b hb hmain => ?_, hperm.nodup_iff.2 hwires.labels.nodup,
    mt hperm.mem_iff.1 (main_not_mem hwires.labels), fun b hb => exists_leads_of_wires hp hwires hb⟩
  obtain ⟨code, hcode, hblock⟩ := main_of_generate h
  have hmem := mem_of_main? hblock
  obtain rfl := List.inj_on_of_nodup_map hlabelled.blocks hb hmem hmain
  exact ⟨e, code, .halt, he, hcode, .inl rfl, rfl⟩

end Blocks

/-! ## 7. Sources -/

/-- **The blocks of a program that a source is compiled to pass the check**: every block has one
    layout of its environment, with which it passes. -/
theorem Source.passes_of_build {s : Source} {p : Program} (h : s.build = .ok p) :
    ∀ b ∈ p.blocks, ∃ layout, (∀ layout', p.HasLayout b.label layout' ↔ layout' = layout) ∧
      Passes layout b.instructions := by
  obtain ⟨parsed, hread, h⟩ := bind_ok_iff.1 h
  obtain ⟨named, hnamed, h⟩ := bind_ok_iff.1 h
  obtain ⟨typing, htyping, h⟩ := bind_ok_iff.1 h
  obtain ⟨tree, hunify, h⟩ := bind_ok_iff.1 h
  obtain ⟨lowered, hlower, h⟩ := bind_ok_iff.1 h
  obtain ⟨indexed, hindex, h⟩ := bind_ok_iff.1 h
  have htyped : s.typed = .ok tree := bind_ok_iff.2 ⟨parsed, hread, bind_ok_iff.2 ⟨named, hnamed,
    bind_ok_iff.2 ⟨typing, htyping, hunify⟩⟩⟩
  obtain ⟨tags, hroot⟩ := isRoot_of_typed htyped
  obtain ⟨_, lowered', _, _, hlower', -, -, -, hcore⟩ := hroot.lower_ok fun _ => id
  obtain rfl := Except.ok.inj (hlower'.symm.trans hlower)
  obtain ⟨m, e, rfl, hfits⟩ := hcore.resolveIndices_fits (orFail_ok.1 hindex)
  have hgenerate : (Node.top m e).generate = .ok p := orFail_ok.1 h
  have hp := Program.isDisciplined_of_generate hfits hgenerate
  intro b hb
  obtain ⟨way, hway⟩ := hp.leads b hb
  obtain ⟨layout, hlayout⟩ := hp.exists_hasLayout hway
  exact ⟨layout, fun layout' => ⟨fun h => hp.layout_unique h hlayout, fun h => h ▸ hlayout⟩,
    (hp.runsWith hlayout b hb rfl).passes (hp.labelled.places b hb)⟩

/-- A function that calls itself in a branch. -/
def retried : Source := .ofText "letrec f b = if b then 1 else f true in f false"

/-- The equations of the function, whose types are found with the variables from one on. -/
def retriedBodyEquations (n : Nat) : List Constraint :=
  [⟨.var (.ofNat n), .bool, ⟨1, 17⟩⟩,
    ⟨.function (.var (.ofNat n)) (.var (.ofNat (n + 1))),
      .function .bool (.var (.ofNat (n + 2))), ⟨1, 31⟩⟩,
    ⟨.int, .var (.ofNat (n + 2)), ⟨1, 14⟩⟩, ⟨.int, .var (.ofNat (n + 1)), ⟨1, 8⟩⟩]

/-- The equations of `retried`: those of the function to generalise its type, and once more. -/
def retriedEquations : List Constraint :=
  retriedBodyEquations 0 ++ retriedBodyEquations 3 ++
    [⟨.function (.var (.ofNat 3)) (.var (.ofNat 4)), .function .bool (.var (.ofNat 6)), ⟨1, 41⟩⟩]

/-- The types that solve them. -/
def retriedSolution : Substitution :=
  ⟨[(.ofNat 6, .int), (.ofNat 5, .int), (.ofNat 4, .int), (.ofNat 3, .bool), (.ofNat 2, .int),
    (.ofNat 1, .int), (.ofNat 0, .bool)]⟩

set_option maxRecDepth 100000 in
/-- A member finds its argument, and behind it the group. -/
theorem passes_of_build_retried : ∃ p, retried.build = .ok p ∧
    p.blocks.map (fun b => (b.label, entries b.instructions)) =
      [("main", [("letrec0", [.group 1]), ("clos0", [.value, .group 1])]), ("clos0", []),
        ("letrec0", [])] ∧
    ∀ b ∈ p.blocks, ∃ layout, (∀ layout', p.HasLayout b.label layout' ↔ layout' = layout) ∧
      Passes layout b.instructions := by
  have hrun : (do
      let parsed ← retried.read
      let named ← orFail parsed.resolveNames
      let typing ← orFail named.inferTypes
      let lowered ← (typing.tree.applyTypes retriedSolution).lower
      let indexed ← orFail lowered.resolveIndices
      let p ← orFail indexed.generate
      return decide (typing.constraints = retriedEquations ∧
        p.blocks.map (fun (b : Block) => (b.label, entries b.instructions)) =
          [("main", [("letrec0", [SlotShape.group 1]), ("clos0", [.value, .group 1])]),
            ("clos0", []), ("letrec0", [])])) = .ok true := by decide +kernel
  have hsolve : solve retriedEquations = .ok retriedSolution := by cbv
  obtain ⟨parsed, hread, hrun⟩ := bind_ok_iff.1 hrun
  obtain ⟨named, hnamed, hrun⟩ := bind_ok_iff.1 hrun
  obtain ⟨typing, htyping, hrun⟩ := bind_ok_iff.1 hrun
  obtain ⟨lowered, hlower, hrun⟩ := bind_ok_iff.1 hrun
  obtain ⟨indexed, hindex, hrun⟩ := bind_ok_iff.1 hrun
  obtain ⟨p, hgenerate, hrun⟩ := bind_ok_iff.1 hrun
  obtain ⟨hequations, hblocks⟩ := of_decide_eq_true (Except.ok.inj hrun)
  have hunify : typing.unify = .ok (typing.tree.applyTypes retriedSolution) :=
    Typing.unify_ok_iff.2 ⟨_, hequations ▸ hsolve, rfl⟩
  have htyped : retried.typed = .ok (typing.tree.applyTypes retriedSolution) :=
    Source.typed_ok_iff.2 ⟨parsed, named, typing, hread, orFail_ok.1 hnamed, orFail_ok.1 htyping,
      hunify⟩
  have hbuild : retried.build = .ok p := Source.build_ok_iff.2
    ⟨_, lowered, indexed, htyped, hlower, orFail_ok.1 hindex, orFail_ok.1 hgenerate⟩
  exact ⟨p, hbuild, hblocks, Source.passes_of_build hbuild⟩

end ClosureML
