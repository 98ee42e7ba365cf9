import Mathlib.Data.List.Basic
import Mathlib.Tactic.Ring

/-!
# Striping a sequence over chunks, block by block

`k` chunks hold a sequence in rounds: a round takes the next block of at most `B` elements of
every chunk, in chunk order. `interleave` reads the sequence back, `stripe` cuts it, and
`interleave_stripe` says that reading undoes cutting. The reader only ever sees prefixes
(`take B`) and what is left (`drop B`), so every statement is proved by induction on the rounds.
-/

namespace Stripe

variable {α : Type _}

/-- One round of a reader: the next block of each of the first `k` chunks. -/
def row (B k : Nat) (chunks : Nat → List α) : List α :=
  (List.range k).flatMap fun j => (chunks j).take B

/-- `m` rounds of a reader. -/
def interleave (B k : Nat) : Nat → (Nat → List α) → List α
  | 0, _ => []
  | m + 1, chunks => row B k chunks ++ interleave B k m fun j => (chunks j).drop B

/-- Chunk `j` of a sequence cut in `m` rounds into `k` chunks of `C` elements. A round holds `k`
consecutive blocks of `min B C` elements, where `C` is what the chunks still lack. -/
def stripe (B k : Nat) : Nat → Nat → List α → Nat → List α
  | 0, _, _, _ => []
  | m + 1, C, p, j =>
    (p.drop (j * min B C)).take (min B C) ++ stripe B k m (C - B) (p.drop (k * min B C)) j

/-- Chunk `j` of a sequence cut into contiguous chunks of `C` elements. -/
def slab (C : Nat) (p : List α) (j : Nat) : List α := (p.drop (j * C)).take C

/-! ## Consecutive blocks -/

theorem flatMap_slab (b k : Nat) (p : List α) :
    ((List.range k).flatMap fun j => slab b p j) = p.take (k * b) := by
  induction k with
  | zero => simp
  | succ k ih =>
    rw [List.range_succ, List.flatMap_append, ih, Nat.succ_mul, List.take_add]
    simp [slab]

theorem length_slab {C k j : Nat} {p : List α} (hp : p.length = k * C) (hj : j < k) :
    (slab C p j).length = C := by
  have hle : j * C + C ≤ k * C := by
    rw [← Nat.succ_mul]; exact Nat.mul_le_mul_right C hj
  simp only [slab, List.length_take, List.length_drop, hp]
  omega

/-! ## Rows -/

theorem row_congr {B k : Nat} {c c' : Nat → List α} (h : ∀ j < k, (c j).take B = (c' j).take B) :
    row B k c = row B k c' := by
  simp only [row, List.flatMap_def]
  congr 1
  refine List.map_congr_left fun j hj => h j (List.mem_range.mp hj)

theorem length_flatMap_range {k b : Nat} {f : Nat → List α} (h : ∀ j < k, (f j).length = b) :
    ((List.range k).flatMap f).length = k * b := by
  induction k with
  | zero => simp
  | succ k ih =>
    rw [List.range_succ, List.flatMap_append, List.length_append,
      ih fun j hj => h j (Nat.lt_succ_of_lt hj)]
    simp [h k (Nat.lt_succ_self k), Nat.succ_mul]

theorem length_row {B k C : Nat} {c : Nat → List α} (h : ∀ j < k, (c j).length = C) :
    (row B k c).length = k * min B C :=
  length_flatMap_range fun j hj => by rw [List.length_take, h j hj]

/-! ## Rounds -/

theorem interleave_congr {B k m : Nat} {c c' : Nat → List α} (h : ∀ j < k, c j = c' j) :
    interleave B k m c = interleave B k m c' := by
  induction m generalizing c c' with
  | zero => rfl
  | succ m ih =>
    simp only [interleave]
    rw [row_congr fun j hj => by rw [h j hj], ih fun j hj => by rw [h j hj]]

theorem length_interleave {B k m C : Nat} {c : Nat → List α} (h : ∀ j < k, (c j).length = C)
    (hm : C ≤ m * B) : (interleave B k m c).length = k * C := by
  induction m generalizing c C with
  | zero =>
    have hC : C = 0 := by simpa using hm
    simp [interleave, hC]
  | succ m ih =>
    rw [Nat.succ_mul] at hm
    rw [interleave, List.length_append, length_row h,
      ih (C := C - B) (fun j hj => by rw [List.length_drop, h j hj]) (by omega), ← Nat.mul_add]
    congr 1; omega

theorem length_interleave_full {B k m : Nat} {c : Nat → List α}
    (h : ∀ j < k, m * B ≤ (c j).length) : (interleave B k m c).length = m * (k * B) := by
  induction m generalizing c with
  | zero => simp [interleave]
  | succ m ih =>
    have hrow : (row B k c).length = k * B := length_flatMap_range fun j hj => by
      have := h j hj
      rw [Nat.succ_mul] at this
      rw [List.length_take]; omega
    rw [interleave, List.length_append, hrow, ih fun j hj => by
      have := h j hj
      rw [Nat.succ_mul] at this
      rw [List.length_drop]; omega]
    rw [Nat.succ_mul]; omega

/-- The last of several rounds. -/
theorem interleave_succ {B k m : Nat} {c : Nat → List α} : interleave B k (m + 1) c =
    interleave B k m c ++ row B k fun j => (c j).drop (m * B) := by
  induction m generalizing c with
  | zero => simp [interleave]
  | succ m ih =>
    rw [interleave, ih, interleave, List.append_assoc]
    simp only [List.drop_drop, Nat.succ_mul, Nat.add_comm]

/-- Once the chunks are used up, further rounds read nothing. -/
theorem interleave_eq_of_le {B k m m' C : Nat} {c : Nat → List α}
    (h : ∀ j < k, (c j).length = C) (hm : C ≤ m * B) (hm' : m ≤ m') :
    interleave B k m' c = interleave B k m c := by
  induction m generalizing c C m' with
  | zero =>
    have hC : C = 0 := by simpa using hm
    have hnil : (interleave B k m' c).length = 0 := by
      rw [length_interleave h (by omega), hC, Nat.mul_zero]
    rw [List.eq_nil_of_length_eq_zero hnil, interleave]
  | succ m ih =>
    obtain ⟨m', rfl⟩ : ∃ l, m' = l + 1 := ⟨m' - 1, by omega⟩
    rw [Nat.succ_mul] at hm
    simp only [interleave]
    rw [ih (C := C - B) (fun j hj => by rw [List.length_drop, h j hj]) (by omega) (by omega)]

theorem stripe_zero (B k m : Nat) (p : List α) (j : Nat) : stripe B k m 0 p j = [] := by
  induction m generalizing p with
  | zero => rfl
  | succ m ih => simp [stripe, ih]

theorem length_stripe {B k m C j : Nat} {p : List α} (hp : p.length = k * C) (hm : C ≤ m * B)
    (hj : j < k) : (stripe B k m C p j).length = C := by
  induction m generalizing C p with
  | zero =>
    have hC : C = 0 := by simpa using hm
    simp [stripe, hC]
  | succ m ih =>
    rw [Nat.succ_mul] at hm
    have hrest : (p.drop (k * min B C)).length = k * (C - B) := by
      rw [List.length_drop, hp, ← Nat.mul_sub]; congr 1; omega
    have hle : j * min B C + min B C ≤ k * C := by
      rw [← Nat.succ_mul]; exact Nat.mul_le_mul hj (Nat.min_le_right B C)
    rw [stripe, List.length_append, ih hrest (by omega), List.length_take, List.length_drop, hp]
    omega

/-- Reading the stripes of a sequence gives the sequence back. -/
theorem interleave_stripe {B k m C : Nat} {p : List α} (hp : p.length = k * C)
    (hm : C ≤ m * B) : interleave B k m (stripe B k m C p) = p := by
  induction m generalizing C p with
  | zero =>
    have hC : C = 0 := by simpa using hm
    have hnil : p = [] := List.eq_nil_of_length_eq_zero (by rw [hp, hC, Nat.mul_zero])
    rw [interleave, hnil]
  | succ m ih =>
    rw [Nat.succ_mul] at hm
    have hrest : (p.drop (k * min B C)).length = k * (C - B) := by
      rw [List.length_drop, hp, ← Nat.mul_sub]; congr 1; omega
    have hblock : ∀ j < k, (slab (min B C) p j).length = min B C := by
      intro j hj
      have hle : j * min B C + min B C ≤ k * C := by
        rw [← Nat.succ_mul]; exact Nat.mul_le_mul hj (Nat.min_le_right B C)
      rw [slab, List.length_take, List.length_drop, hp]; omega
    -- a block shorter than `B` is the last one, so the reader stops at its end either way
    have hstep : ∀ j < k, (stripe B k (m + 1) C p j).take B = slab (min B C) p j ∧
        (stripe B k (m + 1) C p j).drop B = stripe B k m (C - B) (p.drop (k * min B C)) j := by
      intro j hj
      have hlen := hblock j hj
      change (slab (min B C) p j ++ stripe B k m (C - B) (p.drop (k * min B C)) j).take B = _ ∧
        (slab (min B C) p j ++ stripe B k m (C - B) (p.drop (k * min B C)) j).drop B = _
      rcases Nat.le_total B C with hBC | hCB
      · rw [Nat.min_eq_left hBC] at hlen ⊢
        exact ⟨List.take_left' hlen, List.drop_left' hlen⟩
      · have h0 : C - B = 0 := by omega
        rw [h0, stripe_zero, List.append_nil]
        exact ⟨List.take_of_length_le (by omega), List.drop_of_length_le (by omega)⟩
    rw [interleave, interleave_congr fun j hj => (hstep j hj).2, ih hrest (by omega)]
    have hrow : row B k (stripe B k (m + 1) C p) = p.take (k * min B C) := by
      rw [← flatMap_slab, row, List.flatMap_def, List.flatMap_def]
      congr 1
      exact List.map_congr_left fun j hj => (hstep j (List.mem_range.mp hj)).1
    rw [hrow, List.take_append_drop]

/-- The first round comes first. -/
theorem row_prefix_take {B k m S : Nat} {c : Nat → List α} (hm : 0 < m)
    (hS : (row B k c).length ≤ S) : row B k c <+: (interleave B k m c).take S := by
  obtain ⟨m, rfl⟩ : ∃ l, m = l + 1 := ⟨m - 1, by omega⟩
  rw [interleave, List.take_append, List.take_of_length_le hS]
  exact List.prefix_append _ _

/-- A single chunk is read to its end. -/
theorem interleave_one {B m : Nat} {c : Nat → List α} (hm : (c 0).length ≤ m * B) :
    interleave B 1 m c = c 0 := by
  induction m generalizing c with
  | zero =>
    have hnil : (c 0).length = 0 := by simpa using hm
    rw [interleave, List.eq_nil_of_length_eq_zero hnil]
  | succ m ih =>
    rw [Nat.succ_mul] at hm
    rw [interleave, ih (by rw [List.length_drop]; omega)]
    simp [row]

/-- After the first block of a row comes the second chunk. -/
theorem row_getElem? {B k : Nat} {c : Nat → List α} (hk : 2 ≤ k) (hB : 0 < B)
    (h0 : B ≤ (c 0).length) (h1 : 0 < (c 1).length) : (row B k c)[B]? = (c 1)[0]? := by
  obtain ⟨k, rfl⟩ : ∃ l, k = l + 2 := ⟨k - 2, by omega⟩
  have hlen : ((c 0).take B).length = B := by rw [List.length_take]; omega
  rw [row, List.range_eq_range', List.range'_succ, List.range'_succ, List.flatMap_cons,
    List.flatMap_cons, List.getElem?_append_right (le_of_eq hlen), hlen, Nat.sub_self,
    List.getElem?_append_left (by rw [List.length_take]; exact Nat.lt_min.mpr ⟨hB, h1⟩),
    List.getElem?_take_of_lt hB]

/-- In a single round a striped sequence is a contiguous one. -/
theorem interleave_slab {B k C : Nat} {p : List α} (hp : p.length = k * C) (hC : C ≤ B) :
    interleave B k 1 (slab C p) = p := by
  have htake : ∀ j < k, (slab C p j).take B = slab C p j := fun j hj =>
    List.take_of_length_le (by rw [length_slab hp hj]; exact hC)
  rw [interleave, interleave, List.append_nil, row, List.flatMap_def,
    List.map_congr_left fun j hj => htake j (List.mem_range.mp hj), ← List.flatMap_def,
    flatMap_slab, List.take_of_length_le (by omega)]

end Stripe
