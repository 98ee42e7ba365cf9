import Mathlib.Data.List.Dedup
import Mathlib.Data.List.Induction

/-!
# First occurrences

The elements of a list in the order in which they are first met, as a walk around a ring collects
them.
-/

namespace C2DN

section
variable {α : Type} [DecidableEq α] {l : List α} {x : α}

/-- The first occurrences in a list. -/
def firsts (l : List α) : List α := l.reverse.dedup.reverse

theorem nodup_firsts : (firsts l).Nodup :=
  List.nodup_reverse.mpr (List.nodup_dedup _)

theorem mem_firsts : x ∈ firsts l ↔ x ∈ l := by
  simp [firsts]

theorem firsts_concat : firsts (l ++ [x]) = if x ∈ l then firsts l else firsts l ++ [x] := by
  unfold firsts
  rw [List.reverse_append, List.reverse_singleton, List.singleton_append]
  split
  · next hx => rw [List.dedup_cons_of_mem (List.mem_reverse.mpr hx)]
  · next hx =>
    rw [List.dedup_cons_of_notMem fun hmem => hx (List.mem_reverse.mp hmem), List.reverse_cons]

/-- What comes later does not change the first occurrences. -/
theorem firsts_append (l l' : List α) : ∃ t, firsts (l ++ l') = firsts l ++ t := by
  induction l' generalizing l with
  | nil => exact ⟨[], by simp⟩
  | cons x l' ih =>
    obtain ⟨t, ht⟩ := ih (l ++ [x])
    rw [List.append_assoc, List.singleton_append, firsts_concat] at ht
    split at ht
    · exact ⟨t, ht⟩
    · exact ⟨x :: t, by rw [ht, List.append_assoc, List.singleton_append]⟩

/-- Elements that are left out leave the order of the others as it is. -/
theorem firsts_filter (q : α → Bool) (l : List α) :
    firsts (l.filter q) = (firsts l).filter q := by
  induction l using List.reverseRecOn with
  | nil => rfl
  | append_singleton l x ih =>
    rw [List.filter_append, firsts_concat]
    by_cases hq : q x = true
    · rw [List.filter_cons_of_pos hq, List.filter_nil, firsts_concat, ih]
      by_cases hx : x ∈ l
      · rw [if_pos (List.mem_filter.mpr ⟨hx, hq⟩), if_pos hx]
      · rw [if_neg fun h => hx (List.mem_filter.mp h).1, if_neg hx, List.filter_append, List.filter_cons_of_pos hq,
          List.filter_nil]
    · rw [List.filter_cons_of_neg hq, List.filter_nil, List.append_nil, ih]
      split
      · rfl
      · rw [List.filter_append, List.filter_cons_of_neg hq, List.filter_nil, List.append_nil]

end

end C2DN
