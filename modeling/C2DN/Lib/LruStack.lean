import Mathlib.Data.List.Dedup
import Mathlib.Data.List.Nodup

/-!
# LRU stacks

The stack of a trace of requests has the requested objects, the one that was requested last first. An
LRU cache for `c` objects holds the first `c` of them, so a request is a hit exactly if the objects above
its object are fewer than `c` (`hits_eq`), for every `c`.
-/

namespace C2DN.LruStack
variable {α : Type} [DecidableEq α]

/-- A request brings its object to the top. -/
def touch (s : List α) (a : α) : List α := a :: s.erase a

/-- The objects above an object that is in the stack. -/
def dist (s : List α) (a : α) : Option Nat := if a ∈ s then some (s.idxOf a) else none

/-- The distances of the requests of a trace. -/
def dists (s : List α) : List α → List (Option Nat)
  | [] => []
  | a :: tr => dist s a :: dists (touch s a) tr

/-- The hits of a cache for `c` objects that holds `l`, the last one to be evicted first. -/
def hits (c : Nat) (l : List α) : List α → Nat
  | [] => 0
  | a :: tr => (if a ∈ l then 1 else 0) + hits c ((touch l a).take c) tr

/-- A request that a cache for `c` objects serves. -/
def within (c : Nat) (d : Option Nat) : Bool := d.any (· < c)

section
variable {s mid : List α} {a b : α} {c : Nat}

theorem mem_touch : b ∈ touch s a ↔ b = a ∨ b ∈ s := by
  by_cases h : b = a
  · simp [touch, h]
  · simp [touch, h, List.mem_erase_of_ne h]

theorem nodup_touch (h : s.Nodup) : (touch s a).Nodup :=
  List.nodup_cons.mpr ⟨fun ha => (h.mem_erase_iff.mp ha).1 rfl, h.erase a⟩

/-! ## Caches -/

theorem take_erase_take (s : List α) (a : α) (c : Nat) :
    ((s.take (c + 1)).erase a).take c = (s.erase a).take c := by
  induction s generalizing c with
  | nil => rfl
  | cons b s ih =>
    rw [List.take_succ_cons]
    by_cases h : b = a
    · rw [h, List.erase_cons_head, List.erase_cons_head, List.take_take, Nat.min_self]
    · rw [List.erase_cons_tail (by simpa using h), List.erase_cons_tail (by simpa using h)]
      cases c with
      | zero => rfl
      | succ c => rw [List.take_succ_cons, List.take_succ_cons, ih]

/-- A cache holds the top of the stack. -/
theorem take_touch (s : List α) (a : α) (c : Nat) : (touch (s.take c) a).take c = (touch s a).take c := by
  cases c with
  | zero => rfl
  | succ c => rw [touch, touch, List.take_succ_cons, List.take_succ_cons, take_erase_take]

theorem within_dist : within c (dist s a) = true ↔ a ∈ s.take c := by
  unfold dist
  split
  · next h =>
    rw [within, Option.any_some, decide_eq_true_eq]
    exact (List.mem_take_iff_idxOf_lt h).symm
  · next h => exact iff_of_false nofun fun hmem => h (List.mem_of_mem_take hmem)

/-- **Stack distances.** The hits of caches of all sizes. -/
theorem hits_eq (c : Nat) (s tr : List α) :
    hits c (s.take c) tr = (dists s tr).countP (within c) := by
  induction tr generalizing s with
  | nil => rfl
  | cons a tr ih =>
    rw [hits, dists, List.countP_cons, take_touch, ih, Nat.add_comm]
    simp only [within_dist]

/-! ## The object of the first request -/

theorem touch_bottom (h : b ≠ a) : touch (s ++ [a]) b = touch s b ++ [a] := by
  have herase : (s ++ [a]).erase b = s.erase b ++ [a] := by
    rw [List.erase_append]
    split
    · rfl
    · next hb => rw [List.erase_of_not_mem hb, List.erase_of_not_mem (by simpa using h)]
  rw [touch, herase]
  rfl

/-- The object stays below the others while it is not requested. -/
theorem foldl_touch_bottom (h : a ∉ mid) : mid.foldl touch (s ++ [a]) = mid.foldl touch s ++ [a] := by
  induction mid generalizing s with
  | nil => rfl
  | cons b mid ih =>
    rw [List.mem_cons, not_or] at h
    rw [List.foldl_cons, touch_bottom (Ne.symm h.1), ih h.2]
    rfl

theorem mem_foldl_touch {x : α} : x ∈ mid.foldl touch s ↔ x ∈ s ∨ x ∈ mid := by
  induction mid generalizing s with
  | nil => simp
  | cons b mid ih =>
    rw [List.foldl_cons, ih, mem_touch, List.mem_cons]
    tauto

theorem nodup_foldl_touch (h : s.Nodup) : (mid.foldl touch s).Nodup := by
  induction mid generalizing s with
  | nil => exact h
  | cons b mid ih => exact ih (nodup_touch h)

/-- The distance of its next request counts the objects that were requested in between. -/
theorem dist_bottom (h : a ∉ mid) : dist (mid.foldl touch [a]) a = some mid.dedup.length := by
  have hstack : mid.foldl touch [a] = mid.foldl touch [] ++ [a] := foldl_touch_bottom (s := []) h
  have hnot : a ∉ mid.foldl touch [] := by
    rw [mem_foldl_touch]
    simpa using h
  have hperm : (mid.foldl touch []).Perm mid.dedup := by
    refine (List.perm_ext_iff_of_nodup (nodup_foldl_touch List.nodup_nil) (List.nodup_dedup _)).mpr ?_
    intro x
    rw [mem_foldl_touch, List.mem_dedup]
    simp
  rw [hstack, dist, if_pos (by simp), List.idxOf_append_of_notMem hnot, List.idxOf_cons_self,
    hperm.length_eq, Nat.add_zero]

theorem dists_append (s mid post : List α) :
    dists s (mid ++ post) = dists s mid ++ dists (mid.foldl touch s) post := by
  induction mid generalizing s with
  | nil => rfl
  | cons b mid ih => rw [List.cons_append, dists, dists, ih, List.foldl_cons, List.cons_append]

theorem dists_drop (s tr : List α) (n : Nat) :
    (dists s tr).drop n = dists ((tr.take n).foldl touch s) (tr.drop n) := by
  induction n generalizing s tr with
  | zero => rfl
  | succ n ih =>
    cases tr with
    | nil => rfl
    | cons a tr => exact ih (touch s a) tr

theorem length_dists (s tr : List α) : (dists s tr).length = tr.length := by
  induction tr generalizing s with
  | nil => rfl
  | cons a tr ih => rw [dists, List.length_cons, List.length_cons, ih]

end

end C2DN.LruStack
