import Mathlib.Data.List.Basic

/-!
# Slices of a buffer

A slice is a window `[lo, hi)` of a memory. Reslicing moves `hi` only, so a slice that has been
shortened can be given its full width back; the bytes are those of the memory.
-/

/-- The window `[lo, hi)` of a buffer. -/
structure Slice where
  lo : Nat
  hi : Nat
  deriving DecidableEq, Repr

namespace Slice

variable {α : Type _} {mem : Nat → α} {s : Slice} {p : List α} {lo n : Nat}

def len (s : Slice) : Nat := s.hi - s.lo

/-- `s[:n]`. -/
def upto (s : Slice) (n : Nat) : Slice := ⟨s.lo, s.lo + n⟩

/-- The bytes of a slice. -/
def read (mem : Nat → α) (s : Slice) : List α := (List.range s.len).map fun i => mem (s.lo + i)

/-- Copy `p` into the memory from address `lo` on. -/
def writeAt (mem : Nat → α) (lo : Nat) (p : List α) : Nat → α := fun a =>
  if h : lo ≤ a ∧ a - lo < p.length then p.get ⟨a - lo, h.2⟩ else mem a

@[simp] theorem upto_lo : (s.upto n).lo = s.lo := rfl

@[simp] theorem len_upto : (s.upto n).len = n := by simp [len, upto]

@[simp] theorem length_read : (s.read mem).length = s.len := by simp [read]

theorem read_writeAt_self : (Slice.mk lo (lo + p.length)).read (writeAt mem lo p) = p := by
  apply List.ext_getElem
  · simp [len]
  · intro i h1 h2
    simp [read, writeAt, h2]

/-- A write leaves the slices it does not meet alone. -/
theorem read_writeAt_disjoint (h : s.hi ≤ lo ∨ lo + p.length ≤ s.lo) :
    s.read (writeAt mem lo p) = s.read mem := by
  refine List.map_congr_left fun i hi => ?_
  have hi : i < s.hi - s.lo := List.mem_range.mp hi
  rw [writeAt, dif_neg (by omega)]

theorem read_upto (h : n ≤ s.len) : (s.upto n).read mem = (s.read mem).take n := by
  simp only [read, len_upto, upto_lo, ← List.map_take, List.take_range, Nat.min_eq_left h]

end Slice
