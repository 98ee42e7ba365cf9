import Mathlib.Data.List.GetD
import C2DN.Lib.Stripe

/-!
# Systematic block codes, round by round

A code makes `n` blocks of `k` data blocks of one length, the data blocks first. `codeRounds` codes
chunks in rounds of at most `B` elements; block `r` of its chunks is the word of block `r` of the
data (`block_codeRounds`). A code that works element by element does not see the rounds
(`codeRounds_pointwise`).
-/

/-- A systematic block code: `k` data blocks, then `n - k` parity blocks of the same length. -/
structure BlockCode (α : Type _) where
  n : Nat
  k : Nat
  parity : (Nat → List α) → Nat → List α
  length_parity : ∀ {data : Nat → List α} {b : Nat}, (∀ j < k, (data j).length = b) →
    ∀ j, k ≤ j → j < n → (parity data j).length = b

namespace BlockCode

open Stripe

variable {α : Type _} {c : BlockCode α} {data : Nat → List α} {B C b m r j : Nat}

/-- The blocks of a code word. -/
def word (c : BlockCode α) (data : Nat → List α) (j : Nat) : List α :=
  if j < c.k then data j else c.parity data j

/-- The chunks whose round `r` is the word of round `r` of the data chunks. -/
def codeRounds (c : BlockCode α) (B : Nat) : Nat → (Nat → List α) → Nat → List α
  | 0, _, _ => []
  | m + 1, data, j =>
    c.word (fun i => (data i).take B) j ++ c.codeRounds B m (fun i => (data i).drop B) j

/-- `rec` restores the data blocks of a word from any `k` of its blocks. -/
def Restores (c : BlockCode α) (rec : (Nat → List α) → Option (Nat → List α)) : Prop :=
  ∀ (data : Nat → List α) (b : Nat) (avail : Nat → Bool), 0 < b → (∀ j < c.k, (data j).length = b) →
    c.k ≤ (List.range c.n).countP avail →
    ∃ out, rec (fun j => if j < c.n ∧ avail j then c.word data j else []) = some out ∧
      ∀ j < c.k, out j = data j

theorem length_word (h : ∀ j < c.k, (data j).length = b) (hj : j < c.n) :
    (c.word data j).length = b := by
  unfold word
  split
  · next hk => exact h j hk
  · next hk => exact c.length_parity h j (Nat.le_of_not_lt hk) hj

theorem length_take_drop (h : ∀ j < c.k, (data j).length = C) :
    (∀ j < c.k, ((data j).take B).length = min B C) ∧
      ∀ j < c.k, ((data j).drop B).length = C - B :=
  ⟨fun j hj => by rw [List.length_take, h j hj], fun j hj => by rw [List.length_drop, h j hj]⟩

theorem length_codeRounds (h : ∀ j < c.k, (data j).length = C) (hm : C ≤ m * B) (hj : j < c.n) :
    (c.codeRounds B m data j).length = C := by
  induction m generalizing C data with
  | zero =>
    have hC : C = 0 := by simpa using hm
    simp [codeRounds, hC]
  | succ m ih =>
    rw [Nat.succ_mul] at hm
    obtain ⟨htake, hdrop⟩ := length_take_drop (B := B) h
    rw [codeRounds, List.length_append, length_word htake hj, ih hdrop (by omega)]
    omega

/-- The data chunks are chunks of their own coding. -/
theorem codeRounds_data (hj : j < c.k) (hm : (data j).length ≤ m * B) :
    c.codeRounds B m data j = data j := by
  induction m generalizing data with
  | zero =>
    have hnil : (data j).length = 0 := by simpa using hm
    rw [List.eq_nil_of_length_eq_zero hnil, codeRounds]
  | succ m ih =>
    rw [Nat.succ_mul] at hm
    rw [codeRounds, word, if_pos hj, ih (by rw [List.length_drop]; omega), List.take_append_drop]

/-- Block `r` of the chunks is the word of block `r` of the data. -/
theorem block_codeRounds (h : ∀ j < c.k, (data j).length = C) (hm : C ≤ m * B) (hj : j < c.n)
    (hr : r * B < C) : ((c.codeRounds B m data j).drop (r * B)).take B =
      c.word (fun i => ((data i).drop (r * B)).take B) j := by
  induction m generalizing C data r with
  | zero => omega
  | succ m ih =>
    rw [Nat.succ_mul] at hm
    obtain ⟨htake, hdrop⟩ := length_take_drop (B := B) h
    have hfirst := length_word htake hj
    have hrest := length_codeRounds (B := B) (m := m) hdrop (by omega) hj
    rw [codeRounds]
    cases r with
    | zero =>
      simp only [Nat.zero_mul, List.drop_zero]
      rw [List.take_append, List.take_of_length_le (by omega)]
      rcases Nat.le_total B C with hBC | hCB
      · rw [hfirst, Nat.min_eq_left hBC, Nat.sub_self, List.take_zero, List.append_nil]
      · rw [List.eq_nil_of_length_eq_zero (by omega : (codeRounds c B m _ j).length = 0),
          List.take_nil, List.append_nil]
    | succ r =>
      rw [Nat.succ_mul] at hr
      have hB : (c.word (fun i => (data i).take B) j).length = B := by
        rw [hfirst]; omega
      rw [Nat.succ_mul, Nat.add_comm, ← List.drop_drop, List.drop_left' hB,
        ih hdrop (by omega) (by omega)]
      simp only [List.drop_drop]

/-! ## Codes that work element by element -/

/-- The elements at offset `x` of the first `k` blocks. -/
def column [Inhabited α] (k : Nat) (data : Nat → List α) (x i : Nat) : α :=
  if i < k then (data i).getD x default else default

/-- The code that applies `p` at every offset. -/
def pointwise [Inhabited α] (n k : Nat) (hk : 0 < k) (p : (Nat → α) → Nat → α) : BlockCode α where
  n := n
  k := k
  parity data j := (List.range (data 0).length).map fun x => p (column k data x) j
  length_parity h _ _ _ := by simp [h 0 hk]

section
variable [Inhabited α] {n k : Nat} {hk : 0 < k} {p : (Nat → α) → Nat → α} {d e : Nat → List α}

theorem column_append_left {x : Nat} (h : ∀ i < k, (d i).length = b) (hx : x < b) :
    column k (fun i => d i ++ e i) x = column k d x := by
  funext i
  unfold column
  split
  · next hi => rw [List.getD_append _ _ _ _ (by rw [h i hi]; exact hx)]
  · rfl

theorem column_append_right {x : Nat} (h : ∀ i < k, (d i).length = b) :
    column k (fun i => d i ++ e i) (b + x) = column k e x := by
  funext i
  unfold column
  split
  · next hi =>
    rw [List.getD_append_right _ _ _ _ (by rw [h i hi]; omega), h i hi, Nat.add_sub_cancel_left]
  · rfl

theorem pointwise_word_append (h : ∀ i < k, (d i).length = b) :
    (pointwise n k hk p).word (fun i => d i ++ e i) j =
      (pointwise n k hk p).word d j ++ (pointwise n k hk p).word e j := by
  unfold word
  split
  · rfl
  · simp only [pointwise, List.length_append, h 0 hk, List.range_add, List.map_append,
      List.map_map]
    congr 1
    · refine List.map_congr_left fun x hx => ?_
      rw [column_append_left h (List.mem_range.mp hx)]
    · refine List.map_congr_left fun x _ => ?_
      dsimp only [Function.comp]
      rw [column_append_right h]

/-- Coding whole chunks element by element is coding them round by round. -/
theorem codeRounds_pointwise (h : ∀ i < k, (data i).length = C) (hm : C ≤ m * B) :
    (pointwise n k hk p).codeRounds B m data j = (pointwise n k hk p).word data j := by
  induction m generalizing C data with
  | zero =>
    have hnil : ∀ i < k, data i = [] := fun i hi =>
      List.eq_nil_of_length_eq_zero (by rw [h i hi]; simpa using hm)
    unfold codeRounds word
    split
    · next hj => exact (hnil j hj).symm
    · simp [pointwise, hnil 0 hk]
  | succ m ih =>
    rw [Nat.succ_mul] at hm
    rw [codeRounds, ih (C := C - B) (fun i hi => by rw [List.length_drop, h i hi]) (by omega),
      ← pointwise_word_append (fun i hi => by rw [List.length_take, h i hi])]
    simp only [List.take_append_drop]

end

end BlockCode
