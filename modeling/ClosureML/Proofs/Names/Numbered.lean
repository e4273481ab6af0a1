import ClosureML.Lowering.Basic
import ClosureML.Proofs.Runs
import Mathlib.Data.List.Nodup
import Mathlib.Data.List.Perm.Subperm

/-!
# Numbered names

Names are made by putting a number behind a stem. As long as the stem does not end with a digit, the
name determines both.

* `EndsInDigit`: what a stem must not do;
* `generatedName`: the name with a number that no program can write;
* `IsProgramName`: the names that lowering does not make;
* `Supply.Before`: a later supply has made more names;
* `Supply.Reserves`: names that a supply can still make;
* `Supply.Makes`: names that were made between two states of a supply.

Main statements: `stem_append_inj` (the name determines stem and number), `generatedName_inj`,
`Supply.Makes.append` (names that were made one after the other are different), `runs_freshName` and
`runs_freshNames` (what names a supply gives).
-/

namespace ClosureML

/-! ## 1. Digits -/

theorem toList_toString (n : Nat) : (toString n).toList = Nat.toDigits 10 n := by
  rw [Nat.toString_eq_ofList_toDigits, String.toList_ofList]

theorem isDigit_of_mem_toString {n : Nat} {c : Char} (h : c ∈ (toString n).toList) :
    c.isDigit = true := by
  rw [toList_toString] at h
  exact Nat.isDigit_of_mem_toDigits (by decide) (by decide) h

theorem toString_nat_inj {n k : Nat} (h : (toString n).toList = (toString k).toList) : n = k := by
  rw [toList_toString, toList_toString] at h
  rw [← @Nat.ofDigitChars_ten_toDigits n, h, Nat.ofDigitChars_ten_toDigits]

/-- The last character is a digit. -/
def EndsInDigit (cs : List Char) : Prop := cs.getLast?.any Char.isDigit = true

/-- Behind characters that do not end with a digit, the digits at the end can be told apart. -/
theorem takeWhile_isDigit_reverse {cs ds : List Char} (hcs : ¬ EndsInDigit cs)
    (hds : ∀ c ∈ ds, c.isDigit = true) :
    (cs ++ ds).reverse.takeWhile Char.isDigit = ds.reverse := by
  rw [List.reverse_append, List.takeWhile_append_of_pos fun c hc => hds c (List.mem_reverse.1 hc)]
  cases hrev : cs.reverse with
  | nil => simp
  | cons c rest =>
    have hlast : cs.getLast? = some c := by
      rw [← List.reverse_reverse cs, hrev]
      simp
    have hc : c.isDigit = false := by simpa [EndsInDigit, hlast] using hcs
    simp [hc]

/-- **A numbered name determines its stem and its number.** -/
theorem stem_append_inj {stem stem' : String} {n k : Nat} (h : ¬ EndsInDigit stem.toList)
    (h' : ¬ EndsInDigit stem'.toList) (heq : stem ++ toString n = stem' ++ toString k) :
    stem = stem' ∧ n = k := by
  have hlist : stem.toList ++ (toString n).toList = stem'.toList ++ (toString k).toList := by
    rw [← String.toList_append, heq, String.toList_append]
  have hdigits := takeWhile_isDigit_reverse h fun c hc => isDigit_of_mem_toString (n := n) hc
  rw [hlist, takeWhile_isDigit_reverse h' fun c hc => isDigit_of_mem_toString (n := k) hc,
    List.reverse_inj] at hdigits
  rw [hdigits] at hlist
  exact ⟨String.toList_inj.1 (List.append_cancel_right hlist), (toString_nat_inj hdigits).symm⟩

/-! ## 2. Generated names -/

/-- The generated name with a stem and a number. -/
def generatedName (stem : String) (k : Nat) : String := "$" ++ stem ++ toString k

theorem generatedName_inj {stem stem' : String} {k j : Nat}
    (h : ¬ EndsInDigit ("$" ++ stem).toList) (h' : ¬ EndsInDigit ("$" ++ stem').toList)
    (heq : generatedName stem k = generatedName stem' j) : stem = stem' ∧ k = j := by
  obtain ⟨hstem, hk⟩ := stem_append_inj h h' heq
  refine ⟨String.toList_inj.1 ?_, hk⟩
  have := congrArg String.toList hstem
  rw [String.toList_append, String.toList_append] at this
  exact List.append_cancel_left this

/-- The stems of the names that lowering makes. -/
def loweringStems : List String := ["e", "v", "pl", "x", "ptnlam", "r", "a", "t", "s"]

theorem not_endsInDigit_of_mem {stem : String} (h : stem ∈ loweringStems) :
    ¬ EndsInDigit ("$" ++ stem).toList := by
  simp only [loweringStems, List.mem_cons, List.not_mem_nil, or_false] at h
  rcases h with rfl | rfl | rfl | rfl | rfl | rfl | rfl | rfl | rfl <;>
    simp [EndsInDigit]

/-- **Names with different stems or numbers differ.** -/
theorem generatedName_ne {stem stem' : String} {k j : Nat} (h : stem ∈ loweringStems)
    (h' : stem' ∈ loweringStems) (hne : stem ≠ stem' ∨ k ≠ j) :
    generatedName stem k ≠ generatedName stem' j := by
  intro heq
  obtain ⟨hstem, hk⟩ := generatedName_inj (not_endsInDigit_of_mem h) (not_endsInDigit_of_mem h') heq
  exact hne.elim (· hstem) (· hk)

theorem dollar_mem_generatedName (stem : String) (k : Nat) :
    '$' ∈ (generatedName stem k).toList := by
  simp [generatedName, String.toList_append]

/-- A name of the program: lowering makes no such name. -/
def IsProgramName (x : String) : Prop := '$' ∉ x.toList

instance (x : String) : Decidable (IsProgramName x) := inferInstanceAs (Decidable ('$' ∉ x.toList))

theorem not_isProgramName_generatedName (stem : String) (k : Nat) :
    ¬ IsProgramName (generatedName stem k) := fun h => h (dollar_mem_generatedName stem k)

/-- The names with a stem from a number on, as many as asked for. -/
def generatedNames (stem : String) (k n : Nat) : List String :=
  (List.range' k n).map (generatedName stem)

theorem length_generatedNames (stem : String) (k n : Nat) :
    (generatedNames stem k n).length = n := by
  rw [generatedNames, List.length_map, List.length_range']

theorem mem_generatedNames {stem : String} {k n : Nat} {x : String} :
    x ∈ generatedNames stem k n ↔ ∃ j, (k ≤ j ∧ j < k + n) ∧ generatedName stem j = x := by
  simp [generatedNames, List.mem_range'_1]

theorem nodup_generatedNames {stem : String} (h : stem ∈ loweringStems) (k n : Nat) :
    (generatedNames stem k n).Nodup :=
  List.Pairwise.map _ (fun _ _ hne => generatedName_ne h h (.inr hne)) List.nodup_range'

/-! ## 3. Supplies -/

/-- A way to make names from stems and numbers, in which a name determines both. -/
structure NameFormat where
  name : String → Nat → String
  IsStem : String → Prop
  inj : ∀ {x y : String} {k j : Nat}, IsStem x → IsStem y → name x k = name y j → x = y ∧ k = j

namespace Supply

/-- The second supply has made the names of the first, and perhaps more. -/
def Before (s s' : Supply) : Prop := ∀ stem, s.count stem ≤ s'.count stem

theorem Before.refl (s : Supply) : s.Before s := fun _ => Nat.le_refl _

theorem Before.trans {s s₁ s' : Supply} (h : s.Before s₁) (h' : s₁.Before s') : s.Before s' :=
  fun stem => Nat.le_trans (h stem) (h' stem)

/-- Among the names with a stem, the supply can still make this one. -/
def Reserves (s : Supply) (stem : String) (x : String) : Prop :=
  ∃ k, s.count stem ≤ k ∧ x = generatedName stem k

theorem Before.reserves {s s' : Supply} (h : s.Before s') {stem x : String}
    (hx : s'.Reserves stem x) : s.Reserves stem x := by
  obtain ⟨k, hk, rfl⟩ := hx
  exact ⟨k, Nat.le_trans (h stem) hk, rfl⟩

theorem before_next (s : Supply) (stem : String) : s.Before (s.next stem).2 := by
  intro other
  rw [count_next]
  split
  · exact Nat.le_succ _
  · exact Nat.le_refl _

/-- The names are different ones that were made between two states of a supply. -/
structure Makes (s : Supply) (format : NameFormat) (s' : Supply) (names : List String) : Prop where
  before : s.Before s'
  nodup : names.Nodup
  made : ∀ n ∈ names, ∃ x, format.IsStem x ∧ ∃ k, s.count x ≤ k ∧ k < s'.count x ∧
    n = format.name x k

namespace Makes

variable {format : NameFormat} {s s₁ s' : Supply} {names names' : List String}

theorem refl (s : Supply) : s.Makes format s [] := ⟨.refl s, List.nodup_nil, fun _ h => nomatch h⟩

/-- Fewer names, perhaps in another order. -/
theorem only (h : s.Makes format s' names) (hsub : names'.Subperm names) :
    s.Makes format s' names' := by
  obtain ⟨ls, hperm, hsublist⟩ := hsub
  exact ⟨h.before, hperm.nodup_iff.1 (h.nodup.sublist hsublist), fun l hl =>
    h.made l (hsublist.subset (hperm.mem_iff.2 hl))⟩

/-- **Names that were made one after the other** are different. -/
theorem append (h : s.Makes format s₁ names) (h' : s₁.Makes format s' names') :
    s.Makes format s' (names ++ names') where
  before := h.before.trans h'.before
  nodup := by
    refine List.nodup_append.2 ⟨h.nodup, h'.nodup, ?_⟩
    rintro l hl _ hl' rfl
    obtain ⟨x, hx, k, -, hk, rfl⟩ := h.made l hl
    obtain ⟨y, hy, j, hj, -, heq⟩ := h'.made _ hl'
    obtain ⟨rfl, rfl⟩ := format.inj hx hy heq
    exact Nat.not_lt_of_le hj hk
  made l hl := by
    rcases List.mem_append.1 hl with hl | hl
    · obtain ⟨x, hx, k, hle, hlt, rfl⟩ := h.made l hl
      exact ⟨x, hx, k, hle, Nat.lt_of_lt_of_le hlt (h'.before x), rfl⟩
    · obtain ⟨x, hx, k, hle, hlt, rfl⟩ := h'.made l hl
      exact ⟨x, hx, k, Nat.le_trans (h.before x) hle, hlt, rfl⟩

/-- The name with the next number of a stem. -/
theorem next {x : String} (hx : format.IsStem x) (s : Supply) :
    s.Makes format (s.next x).2 [format.name x (s.count x)] where
  before := s.before_next x
  nodup := List.nodup_singleton _
  made l hl := by
    obtain rfl := List.mem_singleton.1 hl
    refine ⟨x, hx, s.count x, Nat.le_refl _, ?_, rfl⟩
    rw [Supply.count_next, if_pos rfl]
    exact Nat.lt_succ_self _

end Makes

end Supply

open Lowering

/-- A supply gives the name with the next number of a stem. -/
theorem runs_freshName {stem x : String} {s s' : Supply} (h : Runs (freshName stem) s x s') :
    x = generatedName stem (s.count stem) ∧ s' = (s.next stem).2 := by
  obtain ⟨hx, hs⟩ := runs_modifyGet.1 h
  exact ⟨hx.symm, hs.symm⟩

theorem exists_runs_freshName (stem : String) (s : Supply) :
    Runs (freshName stem) s (generatedName stem (s.count stem)) (s.next stem).2 :=
  runs_modifyGet.2 ⟨rfl, rfl⟩

/-- **What names a supply gives**: as many as asked for, with the next numbers of the stem. -/
theorem runs_freshNames {stem : String} {n : Nat} {xs : List String} {s s' : Supply}
    (h : Runs (freshNames stem n) s xs s') :
    xs = generatedNames stem (s.count stem) n ∧ s.Before s' := by
  induction n generalizing xs s with
  | zero =>
    obtain ⟨rfl, rfl⟩ := runs_pure.1 h
    exact ⟨rfl, .refl _⟩
  | succ n ih =>
    simp only [freshNames, runs_bind, runs_pure] at h
    obtain ⟨x, s₁, hx, rest, s₂, hrest, rfl, rfl⟩ := h
    obtain ⟨rfl, rfl⟩ := runs_freshName hx
    obtain ⟨rfl, hbefore⟩ := ih hrest
    refine ⟨?_, (s.before_next stem).trans hbefore⟩
    rw [Supply.count_next, if_pos rfl]
    rfl

theorem exists_runs_freshNames (stem : String) (n : Nat) (s : Supply) :
    ∃ s', Runs (freshNames stem n) s (generatedNames stem (s.count stem) n) s' := by
  have h : ∃ xs s', Runs (freshNames stem n) s xs s' := by
    induction n generalizing s with
    | zero => exact ⟨_, _, runs_pure.2 ⟨rfl, rfl⟩⟩
    | succ n ih =>
      obtain ⟨xs, s', hxs⟩ := ih (s.next stem).2
      simp only [freshNames, runs_bind, runs_pure]
      exact ⟨_, _, _, _, exists_runs_freshName stem s, xs, s', hxs, rfl, rfl⟩
  obtain ⟨xs, s', hxs⟩ := h
  exact ⟨s', (runs_freshNames hxs).1 ▸ hxs⟩

end ClosureML
