/-!
# Scopes

A scope is a chain of bindings, the innermost first. Extending a scope makes a new one and leaves
the old one as it is, so every subtree can be given its own.

Main statements: `Scope.toList_extend` and `Scope.toList_extendAll`.
-/

namespace ClosureML

/-- A chain of bindings. -/
structure Scope (α : Type) where
  bindings : List α
  deriving DecidableEq, Repr

namespace Scope

variable {α β : Type}

/-- The scope without bindings. -/
def empty : Scope α := ⟨[]⟩

/-- The bindings from the innermost outward. -/
def toList (s : Scope α) : List α := s.bindings

/-- The scope with one more binding inside. -/
def extend (s : Scope α) (a : α) : Scope α := ⟨a :: s.bindings⟩

/-- The scope with more bindings inside, the last of them innermost. -/
def extendAll (s : Scope α) (as : List α) : Scope α := as.foldl extend s

/-- The first answer that the bindings give, from the innermost outward. -/
def findSome? (s : Scope α) (f : α → Option β) : Option β := s.bindings.findSome? f

/-- The innermost binding that fulfils `p`, and how many bindings lie inside of it. -/
def find? (s : Scope α) (p : α → Bool) : Option (Nat × α) := do
  let depth ← s.bindings.findIdx? p
  let a ← s.bindings[depth]?
  return (depth, a)

@[simp] theorem toList_empty : (empty : Scope α).toList = [] := rfl

@[simp] theorem toList_extend (s : Scope α) (a : α) : (s.extend a).toList = a :: s.toList := rfl

@[simp] theorem toList_extendAll (s : Scope α) (as : List α) :
    (s.extendAll as).toList = as.reverse ++ s.toList := by
  induction as generalizing s with
  | nil => rfl
  | cons a as ih =>
    have : s.extendAll (a :: as) = (s.extend a).extendAll as := rfl
    simp [this, ih]

end Scope

end ClosureML
