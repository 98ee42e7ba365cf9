import Mathlib.Algebra.BigOperators.Group.List.Basic
import Mathlib.Algebra.Order.BigOperators.Group.List
import Mathlib.Algebra.Order.Group.Nat
import Mathlib.Algebra.Ring.Nat

/-!
# Rounded shares

`N` things are shared out by weight, and every share is rounded down. The shares add up to `N` only if
none of them is rounded.
-/

namespace C2DN

/-- The share of the weight `w` of a total weight `T`. -/
def share (N T w : Nat) : Nat := w * N / T

section
variable {l : List Nat} {N T v w : Nat}

/-- What is shared out and what rounding takes away. -/
theorem mul_sum_share (l : List Nat) (N T : Nat) :
    T * (l.map (share N T)).sum + (l.map fun w => w * N % T).sum = l.sum * N := by
  induction l with
  | nil => simp
  | cons w l ih =>
    have hw : T * share N T w + w * N % T = w * N := Nat.div_add_mod (w * N) T
    simp only [List.map_cons, List.sum_cons]
    rw [Nat.mul_add, Nat.add_mul, ← ih]
    omega

theorem sum_share_le (h : 0 < l.sum) : (l.map (share N l.sum)).sum ≤ N := by
  have hsum := mul_sum_share l N l.sum
  exact Nat.le_of_mul_le_mul_left (by omega) h

theorem sum_share_eq_iff (h : 0 < l.sum) :
    (l.map (share N l.sum)).sum = N ↔ ∀ w ∈ l, l.sum ∣ w * N := by
  have hsum := mul_sum_share l N l.sum
  have hrest : (l.map fun w => w * N % l.sum).sum = 0 ↔ ∀ w ∈ l, l.sum ∣ w * N := by
    rw [List.sum_eq_zero_iff]
    simp [Nat.dvd_iff_mod_eq_zero]
  rw [← hrest]
  constructor
  · intro heq
    rw [heq] at hsum
    omega
  · intro h0
    rw [h0, Nat.add_zero] at hsum
    exact Nat.eq_of_mul_eq_mul_left h hsum

/-- A share that is not rounded is not 0. -/
theorem share_pos (hN : 0 < N) (hw : 0 < w) (h : T ∣ w * N) : 0 < share N T w := by
  obtain ⟨m, hm⟩ := h
  have hpos : 0 < w * N := Nat.mul_pos hw hN
  rw [hm] at hpos
  have hT : 0 < T := Nat.pos_of_mul_pos_right hpos
  rw [share, hm, Nat.mul_div_cancel_left _ hT]
  exact Nat.pos_of_mul_pos_left hpos

end

end C2DN
