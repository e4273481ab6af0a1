import ClosureML.Text.Quoted

/-!
# Tables addressed by 32-bit numbers

A table holds its entries in the order in which they were added, and an entry is found by its
number. Numbers have 32 bits: a larger one is taken modulo 2^32.

* `Table.push` adds an entry and gives its number, `Table.get?` and `Table.set?` read and replace
  one.

Main statements: `Table.get?_push` and `Table.size_push`.
-/

namespace ClosureML

/-- A list of entries. -/
structure Table (α : Type) where
  entries : Array α
  deriving DecidableEq, Repr

namespace Table

variable {α : Type}

/-- The table without entries. -/
def empty : Table α := ⟨#[]⟩

/-- The number of entries. -/
def size (t : Table α) : Nat := t.entries.size

/-- Has the table no entries? -/
def isEmpty (t : Table α) : Bool := t.entries.isEmpty

/-- The entries in their order. -/
def toList (t : Table α) : List α := t.entries.toList

/-- The table with one more entry, and the number of this entry. -/
def push (t : Table α) (a : α) : Table α × UInt32 :=
  (⟨t.entries.push a⟩, UInt32.ofNat t.entries.size)

/-- The entry with a number. -/
def get? (t : Table α) (i : UInt32) : Option α := t.entries[i.toNat]?

/-- The table with another entry at a number, if there is one. -/
def set? (t : Table α) (i : UInt32) (a : α) : Option (Table α) :=
  if h : i.toNat < t.entries.size then some ⟨t.entries.set i.toNat a⟩ else none

/-- The quoted form of a table of texts. -/
def quoted (t : Table String) : String := quotedList t.toList

@[simp] theorem size_push (t : Table α) (a : α) : (t.push a).1.size = t.size + 1 := by
  simp [push, size]

/-- An entry is found under the number that adding it gave, as long as numbers do not wrap. -/
theorem get?_push {t : Table α} {a : α} (h : t.size < UInt32.size) :
    (t.push a).1.get? (t.push a).2 = some a := by
  have hnumber : (UInt32.ofNat t.entries.size).toNat = t.entries.size := by
    rw [UInt32.toNat_ofNat']
    exact Nat.mod_eq_of_lt h
  rw [push, get?, hnumber]
  exact Array.getElem?_push_size

end Table

end ClosureML
