import C2DN.Lib.LruStack

/-!
# Distances between requests for the same object

How many requests, or how many objects, lie between a request and the one before it for the same object,
or the one behind it. Read backwards, a trace has the distances to the requests behind.
-/

namespace C2DN.Reuse
variable {α : Type} [DecidableEq α]

/-- The place of `a` in a list. -/
def place (l : List α) (a : α) : Option Nat := if a ∈ l then some (l.idxOf a) else none

/-- The requests since the last one for the same object; `seen` has the former ones, the last one
first. -/
def since (seen : List α) : List α → List (Option Nat)
  | [] => []
  | a :: l => place seen a :: since (a :: seen) l

/-- The objects that were requested since the last request for the same object. -/
def distinctSince (seen : List α) : List α → List (Option Nat)
  | [] => []
  | a :: l => (if a ∈ seen then some (seen.takeWhile (· ≠ a)).dedup.length else none) ::
    distinctSince (a :: seen) l

/-- The requests since the first one for the same object; `seen` has the former ones. -/
def sinceFirst (seen : List α) : List α → List (Option Nat)
  | [] => []
  | a :: l => (place seen a).map (seen.length - 1 - ·) :: sinceFirst (seen ++ [a]) l

/-- The requests up to the next one for the same object. -/
def upTo : List α → List (Option Nat)
  | [] => []
  | a :: l => place l a :: upTo l

/-- The objects that are requested before the next request for the same object. -/
def distinctUpTo : List α → List (Option Nat)
  | [] => []
  | a :: l => (if a ∈ l then some (l.takeWhile (· ≠ a)).dedup.length else none) :: distinctUpTo l

section
variable {l l' seen : List α} {a : α}

theorem since_append : since seen (l ++ l') = since seen l ++ since (l.reverse ++ seen) l' := by
  induction l generalizing seen with
  | nil => rfl
  | cons a l ih =>
    rw [List.cons_append, since, since, ih, List.reverse_cons, List.append_assoc]
    rfl

@[simp] theorem length_upTo : (upTo l).length = l.length := by
  induction l with
  | nil => rfl
  | cons a l ih => rw [upTo, List.length_cons, ih, List.length_cons]

@[simp] theorem length_distinctUpTo : (distinctUpTo l).length = l.length := by
  induction l with
  | nil => rfl
  | cons a l ih => rw [distinctUpTo, List.length_cons, ih, List.length_cons]

/-- Backwards, what was before is behind. -/
theorem since_reverse (l : List α) : since [] l.reverse = (upTo l).reverse := by
  induction l with
  | nil => rfl
  | cons a l ih =>
    rw [List.reverse_cons, since_append, ih, upTo, List.reverse_cons, List.reverse_reverse,
      List.append_nil]
    rfl

/-- Requests for other objects stay above `a`. -/
theorem exists_foldl_touch (h : a ∉ l) (above below : List α) : ∃ below',
    l.foldl LruStack.touch (above ++ a :: below) = l.foldl LruStack.touch above ++ a :: below' := by
  induction l generalizing above below with
  | nil => exact ⟨below, rfl⟩
  | cons b l ih =>
    rw [List.mem_cons, not_or] at h
    have htouch : ∃ below', LruStack.touch (above ++ a :: below) b =
        LruStack.touch above b ++ a :: below' := by
      unfold LruStack.touch
      rw [List.erase_append]
      split
      · exact ⟨below, rfl⟩
      · next hb =>
        rw [List.erase_cons_tail (by simpa using h.1), List.erase_of_not_mem hb]
        exact ⟨below.erase b, rfl⟩
    obtain ⟨below', hbelow⟩ := htouch
    rw [List.foldl_cons, hbelow, List.foldl_cons]
    exact ih h.2 (LruStack.touch above b) below'

/-- The place of an object in the stack counts the objects that were requested after it. -/
theorem dist_of_last (h : a ∉ l) (s : List α) :
    LruStack.dist (l.foldl LruStack.touch (LruStack.touch s a)) a = some l.dedup.length := by
  obtain ⟨below, hbelow⟩ := exists_foldl_touch h [] (s.erase a)
  have hnot : a ∉ l.foldl LruStack.touch [] := by
    rw [LruStack.mem_foldl_touch]
    simpa using h
  have hperm : (l.foldl LruStack.touch []).Perm l.dedup := by
    refine (List.perm_ext_iff_of_nodup (LruStack.nodup_foldl_touch List.nodup_nil)
      (List.nodup_dedup _)).mpr fun x => ?_
    rw [LruStack.mem_foldl_touch, List.mem_dedup]
    simp
  rw [LruStack.touch, ← List.nil_append (a :: s.erase a), hbelow, LruStack.dist, if_pos (by simp),
    List.idxOf_append_of_notMem hnot, List.idxOf_cons_self, hperm.length_eq, Nat.add_zero]

theorem dist_foldl_reverse (l : List α) (a : α) :
    LruStack.dist (l.reverse.foldl LruStack.touch []) a =
      if a ∈ l then some (l.takeWhile (· ≠ a)).dedup.length else none := by
  split
  · next ha =>
    obtain ⟨mid, rest, rfl, hmid⟩ := List.eq_append_cons_of_mem ha
    have htake : (mid ++ a :: rest).takeWhile (· ≠ a) = mid := by
      rw [List.takeWhile_append_of_pos fun b hb => by
        simpa using fun h : b = a => hmid (h ▸ hb), List.takeWhile_cons_of_neg (by simp), List.append_nil]
    have hdedup : mid.reverse.dedup.length = mid.dedup.length := by
      refine ((List.perm_ext_iff_of_nodup (List.nodup_dedup _) (List.nodup_dedup _)).mpr
        fun x => ?_).length_eq
      rw [List.mem_dedup, List.mem_dedup, List.mem_reverse]
    rw [List.reverse_append, List.reverse_cons, List.append_assoc, List.foldl_append, List.foldl_append,
      List.foldl_cons, List.foldl_nil, dist_of_last (by simpa using hmid), htake, hdedup]
  · next ha =>
    have hnot : a ∉ l.reverse.foldl LruStack.touch [] := by
      rw [LruStack.mem_foldl_touch]
      simpa using ha
    rw [LruStack.dist, if_neg hnot]

/-- The stack distances count the objects since the last request. -/
theorem dists_eq (seen l : List α) :
    LruStack.dists (seen.reverse.foldl LruStack.touch []) l = distinctSince seen l := by
  induction l generalizing seen with
  | nil => rfl
  | cons a l ih =>
    have hseen := ih (a :: seen)
    rw [List.reverse_cons, List.foldl_append, List.foldl_cons, List.foldl_nil] at hseen
    rw [LruStack.dists, distinctSince, dist_foldl_reverse, hseen]

/-- Backwards, the stack distances count the objects up to the next request. -/
theorem dists_reverse (l : List α) : LruStack.dists [] l.reverse = (distinctUpTo l).reverse := by
  induction l with
  | nil => rfl
  | cons a l ih =>
    rw [List.reverse_cons, LruStack.dists_append, ih, distinctUpTo, List.reverse_cons, LruStack.dists,
      LruStack.dists, dist_foldl_reverse]

end

end C2DN.Reuse
