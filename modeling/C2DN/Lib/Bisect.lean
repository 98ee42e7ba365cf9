import Mathlib.Algebra.Ring.Nat
import Mathlib.Data.List.Count
import Mathlib.Data.List.Pairwise

/-!
# Bisection

A list whose elements satisfy `p` from some index on, and a bisection of `0 .. n` that looks for this
index. The sums of its bounds only grow while it goes to the upper half of `low .. n`; `climb n i` is
its lower bound after `i` such rounds.
-/

namespace C2DN

section
variable {α : Type} {p : α → Bool} {l : List α}

/-- What is behind an element that satisfies `p` satisfies it, too. -/
def Rising (p : α → Bool) (l : List α) : Prop := l.Pairwise fun a b => p a = true → p b = true

theorem Rising.get_iff (h : Rising p l) {i : Nat} (hi : i < l.length) :
    p (l.get ⟨i, hi⟩) = true ↔ l.findIdx p ≤ i := by
  constructor
  · intro hp
    by_contra hlt
    have hfalse : p (l.get ⟨i, hi⟩) = false := List.not_of_lt_findIdx (Nat.lt_of_not_le hlt)
    rw [hp] at hfalse
    cases hfalse
  · intro hle
    have hfirst : l.findIdx p < l.length := Nat.lt_of_le_of_lt hle hi
    have hp : p (l.get ⟨l.findIdx p, hfirst⟩) = true := List.findIdx_getElem (w := hfirst)
    rcases Nat.eq_or_lt_of_le hle with heq | hlt
    · simp only [← heq]
      exact hp
    · exact List.pairwise_iff_get.mp h ⟨_, hfirst⟩ ⟨i, hi⟩ hlt hp

/-- The elements that satisfy `p` are those from the first one on. -/
theorem Rising.findIdx_add_countP (h : Rising p l) : l.findIdx p + l.countP p = l.length := by
  induction l with
  | nil => rfl
  | cons a l ih =>
    obtain ⟨ha, hl⟩ := List.pairwise_cons.mp h
    cases hp : p a with
    | true =>
      have hall : l.countP p = l.length := List.countP_eq_length.mpr fun b hb => ha b hb hp
      rw [List.findIdx_cons, List.countP_cons_of_pos hp, hp, hall, List.length_cons]
      exact Nat.zero_add _
    | false =>
      have := ih hl
      rw [List.findIdx_cons, List.countP_cons_of_neg (by simp [hp]), hp, List.length_cons]
      simp only [cond_false]
      omega

end

/-- The lower bound of `climb n i .. n`, after `i` rounds in the upper half. -/
def climb (n i : Nat) : Nat := n + 1 - (n + 1) / 2 ^ i

section
variable {n i : Nat}

theorem climb_zero : climb n 0 = 0 := by
  rw [climb, Nat.pow_zero, Nat.div_one, Nat.sub_self]

theorem climb_add (n i : Nat) : climb n i + (n + 1) / 2 ^ i = n + 1 :=
  Nat.sub_add_cancel (Nat.div_le_self _ _)

/-- The next round. -/
theorem climb_succ : (climb n i + n) / 2 + 1 = climb n (i + 1) := by
  have hhalf : (n + 1) / 2 ^ (i + 1) = (n + 1) / 2 ^ i / 2 := by
    rw [Nat.pow_succ, Nat.div_div_eq_div_mul]
  have hi := climb_add n i
  have hsucc := climb_add n (i + 1)
  omega

theorem climb_mono {j : Nat} (h : i ≤ j) : climb n i ≤ climb n j := by
  have hle : (n + 1) / 2 ^ j ≤ (n + 1) / 2 ^ i :=
    Nat.div_le_div_left (Nat.pow_le_pow_right (by decide) h) (Nat.two_pow_pos i)
  exact Nat.sub_le_sub_left hle (n + 1)

end

end C2DN
