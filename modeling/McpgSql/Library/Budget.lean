import Mathlib.Algebra.BigOperators.Group.List.Basic
import Mathlib.Algebra.Order.Ring.Nat

/-!
# Budgets

A budget that is tested before each cost, and not the cost against it: the last cost that
is taken may pass it. `spend_le_iff` says when it does not.
-/

namespace McpgSql.Library

/-- What is spent by costs that are taken while the budget is not reached. -/
def spend (max : Nat) : Nat → List Nat → Nat
  | spent, [] => spent
  | spent, cost :: costs => if max ≤ spent then spent else spend max (spent + cost) costs

theorem spend_of_le {max spent : Nat} (h : max ≤ spent) (costs : List Nat) :
    spend max spent costs = spent := by
  cases costs with
  | nil => rfl
  | cons cost costs => rw [spend, if_pos h]

theorem spend_lt_iff (max spent : Nat) (costs : List Nat) :
    spend max spent costs < max ↔ spent + costs.sum < max := by
  induction costs generalizing spent with
  | nil => rfl
  | cons cost costs ih =>
    rw [spend, List.sum_cons]
    split
    · omega
    · rw [ih, Nat.add_assoc]

/-- The budget is kept: the costs do not reach it, or some leading ones are just it. -/
theorem spend_le_iff (max spent : Nat) (costs : List Nat) :
    spend max spent costs ≤ max ↔
      spent + costs.sum < max ∨ ∃ k, spent + (costs.take k).sum = max := by
  induction costs generalizing spent with
  | nil =>
    simp only [spend, List.sum_nil, List.take_nil, Nat.add_zero, exists_const]
    omega
  | cons cost costs ih =>
    rw [spend]
    split
    · rename_i hspent
      constructor
      · intro hle
        exact .inr ⟨0, Nat.le_antisymm hle hspent⟩
      · rintro (hlt | ⟨k, hk⟩) <;> omega
    · rename_i hspent
      rw [ih, List.sum_cons, Nat.add_assoc]
      refine or_congr Iff.rfl ⟨fun ⟨k, hk⟩ => ⟨k + 1, ?_⟩, fun ⟨k, hk⟩ => ?_⟩
      · rw [List.take_succ_cons, List.sum_cons, ← Nat.add_assoc]
        exact hk
      · cases k with
        | zero => exact absurd hk.ge hspent
        | succ k =>
          rw [List.take_succ_cons, List.sum_cons, ← Nat.add_assoc] at hk
          exact ⟨k, hk⟩

end McpgSql.Library
