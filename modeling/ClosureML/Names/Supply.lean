/-!
# Supplies of names

A supply counts, for each stem, the names that were made from it. Names made from one stem are
numbered from 0.

* `Supply.generated` makes a name that no program can write, since it begins with `$`;
* `Supply.label` makes a label of the code.

Main statements: `Supply.count_next` (one stem is counted on, the others stay).
-/

namespace ClosureML

/-- How many names were made from each stem; a stem that is not listed has none. -/
structure Supply where
  counts : List (String × Nat)
  deriving DecidableEq, Repr

namespace Supply

/-- The supply that nothing was taken from. -/
def empty : Supply := ⟨[]⟩

instance : Inhabited Supply := ⟨empty⟩

/-- The count of a stem in a list of counts. -/
def countIn (stem : String) : List (String × Nat) → Nat
  | [] => 0
  | (name, n) :: rest => if stem = name then n else countIn stem rest

/-- The number of names made from a stem. -/
def count (s : Supply) (stem : String) : Nat := countIn stem s.counts

/-- A list of counts in which the count of a stem is one higher. -/
def countOn (stem : String) : List (String × Nat) → List (String × Nat)
  | [] => [(stem, 1)]
  | (name, n) :: rest =>
    if stem = name then (name, n + 1) :: rest else (name, n) :: countOn stem rest

/-- The next number for a stem, and the supply from which it is taken. -/
def next (s : Supply) (stem : String) : Nat × Supply := (s.count stem, ⟨countOn stem s.counts⟩)

/-- The next name with a stem that no program can write. -/
def generated (s : Supply) (stem : String) : String × Supply :=
  let (n, s) := s.next stem
  ("$" ++ stem ++ toString n, s)

/-- The next label with a stem. -/
def label (s : Supply) (stem : String) : String × Supply :=
  let (n, s) := s.next stem
  (stem ++ toString n, s)

theorem countIn_countOn (stem other : String) (counts : List (String × Nat)) :
    countIn other (countOn stem counts) =
      if other = stem then countIn other counts + 1 else countIn other counts := by
  induction counts with
  | nil => simp [countOn, countIn]
  | cons entry rest ih =>
    obtain ⟨name, n⟩ := entry
    by_cases hn : stem = name
    · subst hn
      by_cases ho : other = stem <;> simp [countOn, countIn, ho]
    · by_cases ho : other = name
      · have : other ≠ stem := fun h => hn (h ▸ ho)
        simp [countOn, countIn, hn, ho, Ne.symm hn]
      · simp [countOn, countIn, hn, ho, ih]

/-- **Taking a name counts its stem on** and leaves the other stems alone. -/
theorem count_next (s : Supply) (stem other : String) :
    (s.next stem).2.count other = if other = stem then s.count other + 1 else s.count other :=
  countIn_countOn stem other s.counts

end Supply

end ClosureML
