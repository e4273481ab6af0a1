import ClosureML.Proofs.Behaviour
import ClosureML.Proofs.Names.AlphaEquivalence
import ClosureML.Proofs.Semantics.LoweredNames

/-!
# Names behind lowering

Lowering moves the bodies of arms and the elements of tuples under binders with names of its own. In
the tree that it gives, all names are different and all references are bound, and each name and each
reference of the program is there once, the reference bound as before.

* `Node.KeepsNames named lowered`: what is kept of the names of a program whose names are resolved.

Main statement: `Source.lower_keepsNames`.
-/

namespace ClosureML

open Lowering Names Node Occurrence

/-! ## 1. What is kept -/

/-- **Lowering keeps the names of a program.** Behind it there are core constructs only, no name is
    given twice, and every reference refers to what is given its name. Of the names that the
    program could have, those are given which were given before. The references to them stand where
    references stood, have the same names, and refer to what has the same name. -/
structure Node.KeepsNames (named lowered : Node) : Prop where
  core : ClosureML.IsCore lowered
  distinct : lowered.names.Nodup
  bound : ∀ r ∈ lowered.meanings, r.referent = some r.name
  names : (lowered.names.filter (IsProgramName ·)).Perm named.names
  meanings : (lowered.meanings.filter (IsProgramName ·.name)).Perm named.meanings

/-! ## 2. Before lowering -/

section Before

variable {named tree : Node} {typing : Typing}

/-- What inference and unification write into a tree are types and numbers of elements. -/
theorem Typing.plainBy_of_unify {f : Position → Mark} (htyping : named.inferTypes = .ok typing)
    (hunify : typing.unify = .ok tree) : tree.plainBy f = named.plainBy f := by
  obtain ⟨s', hinfers, -⟩ := named.infers_of_inferTypesBy htyping
  obtain ⟨σ, -, rfl⟩ := Typing.unify_ok_iff.1 hunify
  have hmarks : ∀ m : Mark, (Mark.mk m.position (m.ty.map σ.apply)).position = m.position :=
    fun _ => rfl
  exact (plainBy_mapMarks f hmarks typing.tree).trans hinfers.plainBy_eq

/-- **Resolved names** are different, and lowering makes none of them. -/
theorem IsProgram.resolveNames_names {n : Node} (hn : IsProgram n)
    (h : n.resolveNames = .ok named) :
    named.names.Nodup ∧ ∀ x ∈ named.names, IsProgramName x := by
  obtain ⟨-, hsame, hdistinct, hwords, hnodup, hmade⟩ := hn.resolveNames_made h
  rw [← hsame] at hdistinct hwords
  rw [(names_perm named).nodup_iff, List.nodup_append]
  refine ⟨⟨hnodup, hdistinct, ?_⟩, fun x hx => ?_⟩
  · rintro x hx y hy rfl
    obtain ⟨z, -, k, rfl⟩ := hmade x hx
    exact (hwords _ hy).not_hash (hash_mem_numbered z k)
  · rcases List.mem_append.1 ((names_perm named).mem_iff.1 hx) with hx | hx
    · obtain ⟨z, hz, k, rfl⟩ := hmade x hx
      exact dollar_not_mem_numbered hz k
    · exact (hwords x hx).not_dollar

end Before

/-! ## 3. Behind lowering -/

/-- What is found again among old and new things, when they can be told apart. -/
theorem filter_perm_of_append {α : Type} {p : α → Bool} {all old new : List α}
    (h : all.Perm (old ++ new)) (hold : ∀ a ∈ old, p a = true) (hnew : ∀ a ∈ new, ¬ p a = true) :
    (all.filter p).Perm old := by
  have hfilter := h.filter p
  rwa [List.filter_append, List.filter_eq_self.2 hold, List.filter_eq_nil_iff.2 hnew,
    List.append_nil] at hfilter

/-- **What lowering adds to the names of a tree** has names of its own, which are different. -/
theorem IsRoot.keepsNames {tags : List (String × Nat)} {tree lowered : Node}
    (hroot : IsRoot tags IsProgramName .matches tree) (hlower : tree.lower = .ok lowered)
    (hdistinct : tree.names.Nodup) (hnames : ∀ x ∈ tree.names, IsProgramName x) :
    tree.KeepsNames lowered := by
  obtain ⟨matched, lowered', s, s', hlower', -, -, -, hlowered⟩ := hroot.lower_ok fun _ => id
  obtain rfl := Except.ok.inj (hlower'.symm.trans hlower)
  obtain ⟨s', new, hperm, hmade, hforeign⟩ := Node.lower_adds hlower
  have hgiven : lowered'.names.Perm (tree.names ++ new.filterMap given?) := by
    rw [← filterMap_given?_occurrences, ← filterMap_given?_occurrences, ← List.filterMap_append]
    exact hperm.filterMap given?
  have hused : lowered'.meanings.Perm
      (tree.meanings ++ (new.filterMap used?).map Meaning.proper) := by
    rw [hlowered.meanings_eq, hroot.meanings_eq, ← filterMap_used?_occurrences,
      ← filterMap_used?_occurrences, ← List.map_append, ← List.filterMap_append]
    exact (hperm.filterMap used?).map _
  have hnew : ∀ x ∈ new.filterMap given?, ¬ IsProgramName x := by
    intro x hx
    obtain ⟨o, ho, hx⟩ := List.mem_filterMap.1 hx
    cases o with
    | given y => exact Option.some.inj hx ▸ hforeign _ ho
    | used p y => cases hx
  refine ⟨?core, ?distinct, fun r hr => hlowered.referent_eq hr, ?names, ?meanings⟩
  case core =>
    cases hlowered with
    | mk he => exact .top he.isCore
  case distinct =>
    rw [hgiven.nodup_iff, List.nodup_append]
    refine ⟨hdistinct, hmade.nodup, ?_⟩
    rintro x hx y hy rfl
    exact hnew x hy (hnames x hx)
  case names =>
    exact filter_perm_of_append hgiven (fun x hx => decide_eq_true (hnames x hx)) fun x hx h =>
      hnew x hx (of_decide_eq_true h)
  case meanings =>
    refine filter_perm_of_append hused (fun r hr => decide_eq_true (hnames _ ?_)) fun r hr h => ?_
    · exact mem_names_of_mem_meanings hr (hroot.referent_eq hr)
    · obtain ⟨⟨p, x⟩, hx, rfl⟩ := List.mem_map.1 hr
      obtain ⟨o, ho, hx⟩ := List.mem_filterMap.1 hx
      cases o with
      | given y => cases hx
      | used q y =>
        obtain ⟨rfl, rfl⟩ := Prod.mk.inj (Option.some.inj hx)
        exact hforeign _ ho (of_decide_eq_true h)

/-- **Lowering keeps the names of every accepted program**, and succeeds on it. -/
theorem Source.lower_keepsNames {s : Source} {parsed named tree : Node} {typing : Typing}
    (hread : s.read = .ok parsed) (hnamed : parsed.resolveNames = .ok named)
    (htyping : named.inferTypes = .ok typing) (hunify : typing.unify = .ok tree) :
    ∃ lowered, tree.lower = .ok lowered ∧ named.KeepsNames lowered := by
  have hprogram := isProgram_of_read hread
  obtain ⟨hrenames, -⟩ := hprogram.resolveNames_made hnamed
  have hroot := hrenames.isRoot htyping hunify
  obtain ⟨-, lowered, -, -, hlower, -⟩ := hroot.lower_ok fun _ => id
  have hplain : tree.plainBy Mark.at = named.plainBy Mark.at :=
    Typing.plainBy_of_unify htyping hunify
  have hat : ∀ p, (Mark.at p).position = p := fun _ => rfl
  have hnames : tree.names = named.names := by
    rw [← names_plainBy tree, hplain, names_plainBy]
  have hmeanings : tree.meanings = named.meanings := by
    rw [← meanings_plainBy hat tree, hplain, meanings_plainBy hat]
  obtain ⟨hdistinct, hprogramNames⟩ := hprogram.resolveNames_names hnamed
  have hkeeps := hroot.keepsNames hlower (hnames ▸ hdistinct) (hnames ▸ hprogramNames)
  exact ⟨lowered, hlower, hkeeps.core, hkeeps.distinct, hkeeps.bound, hnames ▸ hkeeps.names,
    hmeanings ▸ hkeeps.meanings⟩

/-- A data type with two constructors, and a `match` on it that gives a pair. -/
def unpacked : Source :=
  .ofText "data O = N | S (int) in match S 7 \x7b N -> (0, 1); S (y) -> (y, 2) \x7d"

set_option maxRecDepth 100000 in
/-- It has three names and two references, which are among many more behind lowering. -/
theorem lower_keepsNames_unpacked : ∃ parsed named typing tree lowered,
    unpacked.read = .ok parsed ∧ parsed.resolveNames = .ok named ∧
      named.inferTypes = .ok typing ∧ typing.unify = .ok tree ∧ tree.lower = .ok lowered ∧
      named.names = ["N", "S", "y#0"] ∧ named.meanings.map Meaning.name = ["S", "y#0"] ∧
      lowered.names.length = 57 ∧ named.KeepsNames lowered := by
  have h : (do
      let named ← orFail (← unpacked.read).resolveNames
      let tree ← orFail (← orFail named.inferTypes).unify
      let lowered ← tree.lower
      return (named.names, named.meanings.map Meaning.name, lowered.names.length)) =
      .ok (["N", "S", "y#0"], ["S", "y#0"], 57) := by cbv
  obtain ⟨parsed, hread, h⟩ := bind_ok_iff.1 h
  obtain ⟨named, hnamed, h⟩ := bind_ok_iff.1 h
  obtain ⟨typing, htyping, h⟩ := bind_ok_iff.1 h
  obtain ⟨tree, hunify, h⟩ := bind_ok_iff.1 h
  obtain ⟨lowered, hlower, h⟩ := bind_ok_iff.1 h
  obtain ⟨hnames, h⟩ := Prod.mk.inj (Except.ok.inj h)
  obtain ⟨hmeanings, hlength⟩ := Prod.mk.inj h
  have hnamed := orFail_ok.1 hnamed
  have htyping := orFail_ok.1 htyping
  have hunify := orFail_ok.1 hunify
  obtain ⟨lowered', hlower', hkeeps⟩ := Source.lower_keepsNames hread hnamed htyping hunify
  obtain rfl := Except.ok.inj (hlower.symm.trans hlower')
  exact ⟨parsed, named, typing, tree, lowered, hread, hnamed, htyping, hunify, hlower, hnames,
    hmeanings, hlength, hkeeps⟩

end ClosureML
