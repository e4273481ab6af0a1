/-!
# Type variables and sets of them

A type variable is a 32-bit number. A set of variables is written as its members in ascending
order, so that a set has one form and its members come out in the order that the language uses
for quantified variables.

Main statements: `VarSet.mem_insert`, `VarSet.mem_union`, `VarSet.mem_diff` (membership),
`VarSet.Ascending.insert` (an ascending list stays one), `VarSet.length_lt` (a proper part is
smaller).
-/

namespace ClosureML

/-! ## 1. Type variables -/

/-- A type variable, known by its number. -/
structure TypeVar where
  id : UInt32
  deriving DecidableEq, Repr, Inhabited

namespace TypeVar

/-- The variable with number `n`; numbers are taken modulo 2^32. -/
def ofNat (n : Nat) : TypeVar := ⟨UInt32.ofNat n⟩

/-- The number of a variable. -/
def toNat (v : TypeVar) : Nat := v.id.toNat

/-- The written form of a variable that has no other name. -/
def text (v : TypeVar) : String := "'t" ++ toString v.toNat

theorem toNat_inj {v w : TypeVar} : v.toNat = w.toNat ↔ v = w := by
  cases v; cases w; simp [toNat, UInt32.toNat_inj]

theorem toNat_lt (v : TypeVar) : v.toNat < UInt32.size := v.id.toNat_lt_size

theorem ofNat_toNat (v : TypeVar) : ofNat v.toNat = v := by
  cases v; simp [toNat, ofNat]

end TypeVar

/-! ## 2. Sets of variables -/

/-- The members of a set of variables, ascending. -/
abbrev VarSet := List TypeVar

namespace VarSet

/-- Each variable is below all that follow it. -/
def Ascending (vs : VarSet) : Prop := vs.Pairwise fun v w => v.toNat < w.toNat

/-- The set with one more member. -/
def insert (v : TypeVar) : VarSet → VarSet
  | [] => [v]
  | w :: ws =>
    if v.toNat < w.toNat then v :: w :: ws
    else if w.toNat < v.toNat then w :: insert v ws
    else w :: ws

/-- The members of either set. -/
def union (vs ws : VarSet) : VarSet := vs.foldr insert ws

/-- The members of `vs` that are not in `ws`. -/
def diff (vs ws : VarSet) : VarSet := vs.filter fun v => !ws.contains v

/-- The set of the members of a list. -/
def ofList (vs : List TypeVar) : VarSet := union vs []

theorem mem_insert {v w : TypeVar} {vs : VarSet} : w ∈ insert v vs ↔ w = v ∨ w ∈ vs := by
  induction vs with
  | nil => simp [insert]
  | cons x xs ih =>
    simp only [insert]
    split
    · simp
    · split
      · simp only [List.mem_cons, ih]
        exact or_left_comm
      · have hx : v = x := TypeVar.toNat_inj.1 (by omega)
        subst hx
        simp

theorem mem_union {w : TypeVar} {vs ws : VarSet} : w ∈ union vs ws ↔ w ∈ vs ∨ w ∈ ws := by
  induction vs with
  | nil => simp [union]
  | cons x xs ih =>
    have : union (x :: xs) ws = insert x (union xs ws) := rfl
    rw [this, mem_insert, ih, List.mem_cons, or_assoc]

theorem mem_diff {w : TypeVar} {vs ws : VarSet} : w ∈ diff vs ws ↔ w ∈ vs ∧ w ∉ ws := by
  simp [diff]

/-- **An ascending list stays one** when a member is added. -/
theorem Ascending.insert {v : TypeVar} {vs : VarSet} (h : Ascending vs) :
    Ascending (VarSet.insert v vs) := by
  induction vs with
  | nil => exact List.pairwise_singleton _ _
  | cons x xs ih =>
    obtain ⟨hx, hxs⟩ := List.pairwise_cons.1 h
    simp only [VarSet.insert]
    split
    · next hv =>
      refine List.pairwise_cons.2 ⟨fun w hw => ?_, h⟩
      rcases List.mem_cons.1 hw with rfl | hw
      · exact hv
      · exact Nat.lt_trans hv (hx w hw)
    · split
      · next hv =>
        refine List.pairwise_cons.2 ⟨fun w hw => ?_, ih hxs⟩
        rcases mem_insert.1 hw with rfl | hw
        · exact hv
        · exact hx w hw
      · exact h

theorem mem_ofList {w : TypeVar} {vs : List TypeVar} : w ∈ ofList vs ↔ w ∈ vs := by
  simp [ofList, mem_union]

theorem ascending_ofList (vs : List TypeVar) : Ascending (ofList vs) := by
  induction vs with
  | nil => exact .nil
  | cons v vs ih => exact ih.insert

/-- An ascending list holds nothing twice. -/
theorem Ascending.nodup {vs : VarSet} (h : Ascending vs) : vs.Nodup :=
  h.imp fun hlt heq => by subst heq; omega

theorem length_le_of_nodup {vs : List TypeVar} (ws : List TypeVar) (h : vs.Nodup)
    (hsub : ∀ v ∈ vs, v ∈ ws) : vs.length ≤ ws.length := by
  induction vs generalizing ws with
  | nil => simp
  | cons v vs ih =>
    obtain ⟨hv, hvs⟩ := List.nodup_cons.1 h
    have hmem : v ∈ ws := hsub v (by simp)
    have hlen := ih (ws.erase v) hvs fun w hw =>
      (List.mem_erase_of_ne fun (heq : w = v) => hv (heq ▸ hw)).2 (hsub w (by simp [hw]))
    have := List.length_erase_of_mem hmem
    have := List.length_pos_of_mem hmem
    simp only [List.length_cons]
    omega

/-- A set is not larger than one that holds all its members. -/
theorem length_le {vs : VarSet} {ws : List TypeVar} (h : Ascending vs)
    (hsub : ∀ v ∈ vs, v ∈ ws) : vs.length ≤ ws.length :=
  length_le_of_nodup ws h.nodup hsub

/-- A set is smaller than one that holds all its members and another one. -/
theorem length_lt {vs : VarSet} {ws : List TypeVar} {v : TypeVar} (h : Ascending vs)
    (hsub : ∀ w ∈ vs, w ∈ ws) (hv : v ∈ ws) (hv' : v ∉ vs) : vs.length < ws.length := by
  have := length_le_of_nodup ws (List.nodup_cons.2 ⟨hv', h.nodup⟩) fun w hw => by
    rcases List.mem_cons.1 hw with rfl | hw
    · exact hv
    · exact hsub w hw
  rw [List.length_cons] at this
  exact this

end VarSet

end ClosureML
