/-
How deeply loops are nested. `Code.depth` says what depth is, by recursion;
`Code.nesting` finds it with a stack of loop bodies still to be looked at,
each with the number of loops around it, and so needs no room that grows
with the depth of the code. Every body looked at takes its own weight off
the stack, which is why the search ends.
-/
import Brainfuck.Code

namespace Brainfuck.Code

/-- The depth of code: nothing without a loop, else one more than the depth
of the deepest body. -/
def depth : Code → Nat
  | nil => 0
  | act _ k => k.depth
  | loop b k => max (b.depth + 1) k.depth
  | foreign _ k => k.depth

theorem depth_le_append (k l : Code) : l.depth ≤ (k ++ l).depth := by
  induction k with
  | nil => exact Nat.le_refl _
  | act a k ih => exact ih
  | loop b k _ ih => exact Nat.le_trans ih (Nat.le_max_right ..)
  | foreign f k ih => exact ih

/-- The number of instructions at all depths, and one. -/
def weight : Code → Nat
  | nil => 1
  | act _ k => k.weight + 1
  | loop b k => b.weight + k.weight
  | foreign _ k => k.weight + 1

/-- Puts the loop bodies of the top level on the stack, the last one on top,
each under the given number of loops. -/
def pushBodies (level : Nat) : Code → List (Code × Nat) → List (Code × Nat)
  | nil, pending => pending
  | act _ k, pending => pushBodies level k pending
  | loop b k, pending => pushBodies level k ((b, level) :: pending)
  | foreign _ k, pending => pushBodies level k pending

/-- The weight of everything on the stack. -/
def pendingWeight : List (Code × Nat) → Nat
  | [] => 0
  | (k, _) :: pending => k.weight + pendingWeight pending

theorem pendingWeight_pushBodies (level : Nat) (k : Code) (pending : List (Code × Nat)) :
    pendingWeight (pushBodies level k pending) < k.weight + pendingWeight pending := by
  induction k generalizing pending with
  | nil => simp [pushBodies, weight]
  | act a k ih => have := ih pending; simp only [pushBodies, weight]; omega
  | loop b k _ ih =>
    have := ih ((b, level) :: pending)
    simp only [pushBodies, weight, pendingWeight] at this ⊢
    omega
  | foreign f k ih => have := ih pending; simp only [pushBodies, weight]; omega

/-- The greatest level on the stack or below it, and at least `best`. -/
def deepest (best : Nat) : List (Code × Nat) → Nat
  | [] => best
  | (k, level) :: pending => deepest (max best level) (pushBodies (level + 1) k pending)
termination_by pending => pendingWeight pending
decreasing_by exact pendingWeight_pushBodies ..

/-- The depth of code, found with a stack of pending bodies. -/
def nesting (k : Code) : Nat :=
  deepest 0 [(k, 0)]

/-! ## The search finds the depth -/

/-- How deep the loops go on the stack, counted from the top level. -/
def pendingDepth : List (Code × Nat) → Nat
  | [] => 0
  | (k, level) :: pending => max (level + k.depth) (pendingDepth pending)

theorem pendingDepth_pushBodies (level : Nat) (k : Code) (pending : List (Code × Nat)) :
    max level (pendingDepth (pushBodies (level + 1) k pending)) =
      max (level + k.depth) (pendingDepth pending) := by
  induction k generalizing pending with
  | nil => rfl
  | act a k ih => exact ih pending
  | loop b k _ ih =>
    have := ih ((b, level + 1) :: pending)
    simp only [pushBodies, depth, pendingDepth] at this ⊢
    omega
  | foreign f k ih => exact ih pending

theorem deepest_eq (best : Nat) (pending : List (Code × Nat)) :
    deepest best pending = max best (pendingDepth pending) := by
  fun_induction deepest best pending with
  | case1 best => exact (Nat.max_zero best).symm
  | case2 best k level pending ih =>
    rw [ih, Nat.max_assoc, pendingDepth_pushBodies, pendingDepth]

theorem nesting_eq_depth (k : Code) : k.nesting = k.depth := by
  rw [nesting, deepest_eq]
  simp [pendingDepth]

end Brainfuck.Code
