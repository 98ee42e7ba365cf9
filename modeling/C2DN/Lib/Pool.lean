import Mathlib.Algebra.Ring.Nat
import Mathlib.Data.List.Basic

/-!
# Pools of goroutines

The goroutines that a program has started, as the list of their states in the order in which they
were started: one more is started, or one of them takes a step.
-/

namespace C2DN

variable {α : Type} {l : List α} {n k : Nat} {a b x : α}

/-- Whose state is at `n` once `a` has been started. -/
theorem getElem?_started (h : (l ++ [a])[n]? = some x) :
    l[n]? = some x ∨ n = l.length ∧ x = a := by
  rw [List.getElem?_append] at h
  split at h
  · exact .inl h
  · rw [List.getElem?_singleton] at h
    split at h
    · exact .inr ⟨by omega, (Option.some.inj h).symm⟩
    · cases h

/-- Whose state is at `n` once the goroutine at `k` has moved on to `b`. -/
theorem getElem?_moved (h : (l.set k b)[n]? = some x) :
    n = k ∧ x = b ∨ n ≠ k ∧ l[n]? = some x := by
  rw [List.getElem?_set] at h
  split at h
  · next hk =>
    split at h
    · exact .inl ⟨hk.symm, (Option.some.inj h).symm⟩
    · cases h
  · next hk => exact .inr ⟨fun hn => hk hn.symm, h⟩

theorem getElem?_moved_self (h : l[k]? = some a) : (l.set k b)[k]? = some b := by
  obtain ⟨hk, _⟩ := List.getElem?_eq_some_iff.1 h
  rw [List.getElem?_set_self hk]

theorem forall_started {P : α → Prop} (h : ∀ x ∈ l, P x) (ha : P a) : ∀ x ∈ l ++ [a], P x := by
  intro x hx
  obtain hx | hx := List.mem_append.1 hx
  · exact h x hx
  · rw [List.mem_singleton.1 hx]
    exact ha

theorem forall_moved {P : α → Prop} (h : ∀ x ∈ l, P x) (hb : P b) : ∀ x ∈ l.set k b, P x := by
  intro x hx
  obtain hx | rfl := List.mem_or_eq_of_mem_set hx
  · exact h x hx
  · exact hb

/-- A move of one goroutine leaves those in other states. -/
theorem mem_moved (h : l[k]? = some a) (hx : x ∈ l) (hne : x ≠ a) : x ∈ l.set k b := by
  obtain ⟨n, hn⟩ := List.mem_iff_getElem?.1 hx
  have hkn : k ≠ n := by
    rintro rfl
    exact hne (Option.some.inj (hn.symm.trans h))
  exact List.mem_of_getElem? ((List.getElem?_set_ne hkn).trans hn)

theorem set_eq_self (h : l[k]? = some a) : l.set k a = l := by
  obtain ⟨hk, rfl⟩ := List.getElem?_eq_some_iff.1 h
  exact List.set_getElem_self hk

/-- Counting the goroutines in some states before and after a move. -/
theorem countP_moved {q : α → Bool} (h : l[k]? = some a) :
    (l.set k b).countP q + (q a).toNat = l.countP q + (q b).toNat := by
  obtain ⟨hk, rfl⟩ := List.getElem?_eq_some_iff.1 h
  have hle : (q l[k]).toNat ≤ l.countP q := by
    cases hq : q l[k] with
    | false => exact Nat.zero_le _
    | true => exact List.countP_pos_iff.2 ⟨_, List.getElem_mem hk, hq⟩
  rw [List.countP_set hk]
  cases ha : q l[k] <;> cases hb : q b <;> simp_all

theorem count_moved {l : List Bool} {a b : Bool} (h : l[k]? = some a) :
    (l.set k b).count true + a.toNat = l.count true + b.toNat := by
  simpa [List.count_eq_countP] using countP_moved (q := (· == true)) (b := b) h

/-- The same among the first `n`. -/
theorem count_take_moved {l : List Bool} {a b : Bool} (h : l[k]? = some a) :
    ((l.set k b).take n).count true + (a && decide (k < n)).toNat =
      (l.take n).count true + (b && decide (k < n)).toNat := by
  rw [List.take_set]
  by_cases hk : k < n
  · have ha : (l.take n)[k]? = some a := by rw [List.getElem?_take_of_lt hk, h]
    simpa [hk] using count_moved (b := b) ha
  · rw [List.set_eq_of_length_le (by rw [List.length_take]; omega)]
    simp [hk]

theorem count_take_eq {l : List Bool} (hn : n ≤ l.length) :
    (l.take n).count true = n ↔ ∀ i < n, l[i]? = some true := by
  have hlen : (l.take n).length = n := by rw [List.length_take, Nat.min_eq_left hn]
  have hiff := List.count_eq_length (l := l.take n) (a := true)
  rw [hlen] at hiff
  rw [hiff]
  constructor
  · intro h i hi
    have hi' : i < l.length := Nat.lt_of_lt_of_le hi hn
    rw [List.getElem?_eq_getElem hi', ← h l[i] (List.mem_take_iff_getElem.2 ⟨i, by omega, rfl⟩)]
  · intro h b hb
    obtain ⟨i, hi, rfl⟩ := List.mem_take_iff_getElem.1 hb
    have hget := h i (by omega)
    rw [List.getElem?_eq_getElem (by omega)] at hget
    exact (Option.some.inj hget).symm

theorem ne_of_nodup_map {β : Type} {f : α → β} (h : (l.map f).Nodup) (ha : l[n]? = some a)
    (hb : l[k]? = some b) (hne : n ≠ k) : f a ≠ f b := by
  intro heq
  apply hne
  have hn : n < (l.map f).length := by
    rw [List.length_map]
    exact (List.getElem?_eq_some_iff.1 ha).1
  refine (List.getElem?_inj hn h).1 ?_
  rw [List.getElem?_map, List.getElem?_map, ha, hb, Option.map_some, Option.map_some, heq]

/-- Two goroutines have no value of `f` in common when the values are different ones. -/
theorem eq_of_nodup_filterMap {β : Type} {f : α → Option β} {y : β} (h : (l.filterMap f).Nodup)
    (ha : l[n]? = some a) (hb : l[k]? = some b) (hfa : f a = some y) (hfb : f b = some y) :
    n = k := by
  obtain ⟨hn, rfl⟩ := List.getElem?_eq_some_iff.1 ha
  obtain ⟨hk, rfl⟩ := List.getElem?_eq_some_iff.1 hb
  have hpair := List.pairwise_iff_getElem.1 (List.pairwise_filterMap.1 h)
  obtain hlt | heq | hgt := Nat.lt_trichotomy n k
  · exact absurd rfl (hpair n k hn hk hlt y hfa y hfb)
  · exact heq
  · exact absurd rfl (hpair k n hk hn hgt y hfb y hfa)

theorem map_moved {β : Type} {f : α → β} (h : l[k]? = some a) (hf : f b = f a) :
    (l.set k b).map f = l.map f := by
  apply List.ext_getElem?
  intro n
  rw [List.getElem?_map, List.getElem?_map]
  by_cases hn : n = k
  · subst hn
    rw [getElem?_moved_self h, h, Option.map_some, Option.map_some, hf]
  · rw [List.getElem?_set_ne (Ne.symm hn)]

theorem filterMap_moved {β : Type} {f : α → Option β} (h : l[k]? = some a) (hf : f b = f a) :
    (l.set k b).filterMap f = l.filterMap f := by
  have hmap := congrArg (List.filterMap id) (map_moved (f := f) h hf)
  rwa [List.filterMap_map, List.filterMap_map] at hmap

/-- What the goroutines have, before and after a move. -/
theorem flatMap_moved_perm {β : Type} {f : α → List β} (h : l[k]? = some a) :
    (f a ++ (l.set k b).flatMap f).Perm (f b ++ l.flatMap f) := by
  induction l generalizing k with
  | nil => cases h
  | cons y l ih =>
    cases k with
    | zero =>
      obtain rfl : y = a := Option.some.inj h
      rw [List.set_cons_zero, List.flatMap_cons, List.flatMap_cons]
      exact List.perm_append_comm_assoc ..
    | succ k =>
      have := ih h
      rw [List.set_cons_succ, List.flatMap_cons, List.flatMap_cons]
      exact (List.perm_append_comm_assoc ..).trans
        ((this.append_left (f y)).trans (List.perm_append_comm_assoc ..))

theorem filterMap_moved_perm {β : Type} {f : α → Option β} (h : l[k]? = some a) :
    ((f a).toList ++ (l.set k b).filterMap f).Perm ((f b).toList ++ l.filterMap f) := by
  have := flatMap_moved_perm (f := fun x => (f x).toList) (b := b) h
  rwa [← List.filterMap_eq_flatMap_toList, ← List.filterMap_eq_flatMap_toList] at this

theorem sum_moved {l : List Nat} {a b : Nat} (h : l[k]? = some a) : (l.set k b).sum + a = l.sum + b := by
  induction l generalizing k with
  | nil => cases h
  | cons x l ih =>
    cases k with
    | zero =>
      cases h
      rw [List.set_cons_zero, List.sum_cons, List.sum_cons]
      omega
    | succ k =>
      have := ih h
      rw [List.set_cons_succ, List.sum_cons, List.sum_cons]
      omega

end C2DN
