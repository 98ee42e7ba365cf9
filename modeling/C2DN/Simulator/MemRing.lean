import Mathlib.Algebra.Ring.Int.Defs
import C2DN.Lib.Bisect
import C2DN.Simulator.RingCorrect

/-!
# The ring in memory

`ch_ring_get_vnode_idx` on the array of a `ring_t`, whose entries have a value once they are written.
The bounds of the search are `int`s and its middle is a `uint64_t`. On a sorted ring of fewer than
`2 ^ 30` points it is the search of `C2DN.Simulator.Ring`. On a larger one `lowp + highp` may not be an
`int`, and from `2 ^ 31` points on the first upper bound is negative.
-/

namespace C2DN.Simulator

/-- How a call ends that does not return. -/
inductive RingFault where
  | outOfBounds
  | uninitialised
  /-- `n_server * N_VNODE_PER_SERVER` or `lowp + highp` is not an `int` -/
  | overflow
  /-- no total weight: `0.0 / 0.0` becomes an `unsigned int` -/
  | notANumber
  /-- `abort()` after all points -/
  | ringExhausted
  | noEnd
  deriving DecidableEq, Repr

/-- `ring_t`. -/
structure MemRing where
  nPoint : Nat
  nServer : Nat
  vnodes : List (Option VNode)

namespace MemRing

/-- `vnodes[i]`. -/
def vnode (ring : MemRing) (i : Nat) : Except RingFault VNode :=
  match ring.vnodes[i]? with
  | none => .error .outOfBounds
  | some none => .error .uninitialised
  | some (some v) => .ok v

/-- The conversion of an unsigned number to an `int`. -/
def toInt (x : Nat) : Int :=
  if x % 2 ^ 32 < 2 ^ 31 then (x % 2 ^ 32 : Nat) else (x % 2 ^ 32 : Nat) - 2 ^ 32

/-- The conversion to a `uint64_t`. -/
def toUInt64 (x : Int) : Nat := (x % 2 ^ 64).toNat

/-- The sum of two `int`s. -/
def addInt (a b : Int) : Except RingFault Int :=
  if -2 ^ 31 ≤ a + b ∧ a + b < 2 ^ 31 then .ok (a + b) else .error .overflow

/-- `midval_prev`. -/
def pointBefore (ring : MemRing) (midp : Nat) : Except RingFault Nat :=
  if midp = 0 then .ok 0 else (ring.vnode (midp - 1)).map VNode.point

/-- The loop of `ch_ring_get_vnode_idx`. -/
def search (ring : MemRing) (h : Nat) : Nat → Int → Int → Except RingFault Nat
  | 0, _, _ => .error .noEnd
  | fuel + 1, lowp, highp =>
    (addInt lowp highp).bind fun sum =>
      let midp := toUInt64 (sum.tdiv 2)
      if midp = ring.nPoint then .ok 0
      else
        (ring.vnode midp).bind fun mid =>
          (ring.pointBefore midp).bind fun midvalPrev =>
            if h ≤ mid.point ∧ midvalPrev < h then .ok midp
            else
              let lowp' := if mid.point < h then toInt (midp + 1) else lowp
              let highp' := if mid.point < h then highp else toInt (toUInt64 (midp - 1))
              if highp' < lowp' then .ok 0 else ring.search h fuel lowp' highp'

/-- `ch_ring_get_vnode_idx`. -/
def getVnodeIdx (hash : Nat → Nat) (ring : MemRing) (key : Nat) : Except RingFault Nat :=
  ring.search (hash key % 2 ^ 32) (ring.nPoint + 2) 0 (toInt ring.nPoint)

/-! ## Sorted rings -/

/-- A ring that has entries, all of them written, in the order of their points. `n_point` is an
`unsigned int`. -/
structure Holds (ring : MemRing) (l : List VNode) : Prop where
  vnodes : ring.vnodes = l.map some
  length : l.length = ring.nPoint
  pos : 0 < ring.nPoint
  unsigned : ring.nPoint < 2 ^ 32
  sorted : l.Pairwise fun v w => v.point ≤ w.point

/-- `i` is the smallest index of an entry at or behind `h`, or 0 if there is none. -/
def IsFirst (l : List VNode) (h i : Nat) : Prop :=
  (∃ v, l[i]? = some v ∧ h ≤ v.point ∧ ∀ w ∈ l.take i, w.point < h) ∨ i = 0 ∧ ∀ v ∈ l, v.point < h

/-- The search returns, without a read outside the entries, what it should find. -/
def Finds (ring : MemRing) (l : List VNode) (hash : Nat → Nat) (key : Nat) : Prop :=
  ∃ i, ring.getVnodeIdx hash key = .ok i ∧ IsFirst l (hash key % 2 ^ 32) i

/-- The number of entries at or behind `h`. -/
def nBehind (l : List VNode) (h : Nat) : Nat := l.countP fun v => h ≤ v.point

/-- With `m` of `n` entries at or behind `h`, the search does not come to bounds whose sum is not an
`int`. After `i` rounds in the upper half `(n + 1) / 2 ^ i` places are left, the one behind the end
included, and the sum of the bounds is `2 * n + 1` without these. -/
def Reaches (n m : Nat) : Prop := ∀ i, (n + 1) / 2 ^ i + 2 ^ 31 ≤ 2 * n + 1 → (n + 1) / 2 ^ i ≤ m

/-- `n_point` as an `int` is negative from `2 ^ 31` on. If it is -1, only the first entry is looked at,
and the answer is 0. -/
def Searchable (n m : Nat) : Prop :=
  n < 2 ^ 31 ∧ Reaches n m ∨ n = 2 ^ 32 - 1 ∧ (m = 0 ∨ m = n)

theorem reaches_of_lt {n m : Nat} (h : n < 2 ^ 30) : Reaches n m := fun i hi => by omega

theorem Reaches.mono {n m m' : Nat} (h : Reaches n m) (hle : m ≤ m') : Reaches n m' :=
  fun i hi => Nat.le_trans (h i hi) hle

section
variable {ring : MemRing} {l : List VNode} {h : Nat}

/-- The index of the first entry at or behind `h`. -/
def firstBehind (l : List VNode) (h : Nat) : Nat := l.findIdx fun v => h ≤ v.point

/-- Behind the last entry is the first one. -/
def startOf (l : List VNode) (h : Nat) : Nat :=
  if firstBehind l h = l.length then 0 else firstBehind l h

theorem firstBehind_le : firstBehind l h ≤ l.length := List.findIdx_le_length

theorem Holds.behind_iff (H : ring.Holds l) {i : Nat} (hi : i < l.length) :
    h ≤ (l.get ⟨i, hi⟩).point ↔ firstBehind l h ≤ i :=
  decide_eq_true_iff.symm.trans ((Ring.rising_behind H.sorted).get_iff hi)

theorem Holds.firstBehind_add (H : ring.Holds l) : firstBehind l h + nBehind l h = ring.nPoint :=
  (Ring.rising_behind H.sorted).findIdx_add_countP.trans H.length

theorem Holds.startOf_lt (H : ring.Holds l) : startOf l h < ring.nPoint := by
  have hpos := H.pos
  have hlength := H.length
  have hle := firstBehind_le (l := l) (h := h)
  unfold startOf
  split <;> omega

theorem Holds.vnode (H : ring.Holds l) {i : Nat} (hi : i < l.length) :
    ring.vnode i = .ok (l.get ⟨i, hi⟩) := by
  rw [MemRing.vnode, H.vnodes, List.getElem?_map, List.getElem?_eq_getElem hi]
  rfl

theorem Holds.isFirst_iff (H : ring.Holds l) {i : Nat} : IsFirst l h i ↔ i = startOf l h := by
  have hnone : (∀ v ∈ l, v.point < h) ↔ firstBehind l h = l.length := by
    rw [firstBehind, List.findIdx_eq_length]
    simp
  rw [IsFirst, hnone, startOf]
  by_cases hend : firstBehind l h = l.length
  · rw [if_pos hend]
    refine ⟨fun hi => hi.elim (fun ⟨v, hv, hle, _⟩ => ?_) And.left, fun hi => .inr ⟨hi, hend⟩⟩
    -- there is no such entry
    have := hnone.mpr hend v (List.mem_of_getElem? hv)
    omega
  · have hlt : firstBehind l h < l.length := Nat.lt_of_le_of_ne firstBehind_le hend
    rw [if_neg hend]
    constructor
    · rintro (⟨v, hv, hle, hbefore⟩ | ⟨-, hall⟩)
      · obtain ⟨hi, rfl⟩ := List.getElem?_eq_some_iff.mp hv
        have hge := (H.behind_iff hi).mp hle
        by_contra hne
        have hmem : l.get ⟨firstBehind l h, hlt⟩ ∈ l.take i :=
          List.mem_take_iff_getElem.mpr ⟨firstBehind l h, by omega, rfl⟩
        have := hbefore _ hmem
        have := (H.behind_iff hlt).mpr (Nat.le_refl (firstBehind l h))
        omega
      · exact absurd hall hend
    · rintro rfl
      refine .inl ⟨_, List.getElem?_eq_getElem hlt, (H.behind_iff hlt).mpr (Nat.le_refl _), ?_⟩
      intro w hw
      obtain ⟨j, hj, rfl⟩ := List.mem_take_iff_getElem.mp hw
      have hjl : j < l.length := by omega
      have := mt (H.behind_iff (h := h) hjl).mp (by omega)
      exact Nat.lt_of_not_le this

/-! ## Rounds -/

theorem toUInt64_natCast {n : Nat} (hn : n < 2 ^ 64) : toUInt64 n = n := by
  unfold toUInt64
  omega

theorem toInt_of_lt {n : Nat} (hn : n < 2 ^ 31) : toInt n = n := by
  rw [toInt, Nat.mod_eq_of_lt (by omega), if_pos hn]

theorem addInt_natCast {a b : Nat} : addInt a b =
    if a + b < 2 ^ 31 then .ok ((a + b : Nat) : Int) else .error .overflow := by
  unfold addInt
  by_cases h : a + b < 2 ^ 31
  · rw [if_pos h, if_pos (by omega)]
    rfl
  · rw [if_neg h, if_neg (by omega)]

/-- One round with the answer between the bounds. -/
theorem search_round (H : ring.Holds l) (fuel : Nat) {low high : Nat} (hlow : low ≤ firstBehind l h)
    (hhigh : firstBehind l h ≤ high) (hle : high ≤ ring.nPoint) (hsum : low + high < 2 ^ 31) :
    (firstBehind l h ≤ (low + high) / 2 ∧ ring.search h (fuel + 1) low high = .ok (startOf l h)) ∨
    ((low + high) / 2 < firstBehind l h ∧ ring.search h (fuel + 1) low high =
      ring.search h fuel ((low + high) / 2 + 1 : Nat) high) ∨
    (firstBehind l h < (low + high) / 2 ∧ ring.search h (fuel + 1) low high =
      ring.search h fuel low ((low + high) / 2 - 1 : Nat)) := by
  have hmid : toUInt64 (((low + high : Nat) : Int).tdiv 2) = (low + high) / 2 :=
    toUInt64_natCast (n := (low + high) / 2) (by omega)
  rw [search, addInt_natCast, if_pos hsum]
  dsimp only [Except.bind]
  rw [hmid]
  generalize hm : (low + high) / 2 = mid
  have hlength := H.length
  by_cases hend : mid = ring.nPoint
  · refine .inl ⟨by omega, ?_⟩
    rw [if_pos hend, startOf, if_pos (by omega)]
  · have hlt : mid < l.length := by omega
    have hval := H.behind_iff (h := h) hlt
    obtain ⟨prev, hprev, hprev_iff⟩ : ∃ prev, ring.pointBefore mid = .ok prev ∧
        (prev < h ↔ if mid = 0 then 0 < h else mid ≤ firstBehind l h) := by
      unfold pointBefore
      split
      · exact ⟨0, rfl, .rfl⟩
      · have hbefore : mid - 1 < l.length := by omega
        refine ⟨(l.get ⟨mid - 1, hbefore⟩).point, by rw [H.vnode hbefore]; rfl, ?_⟩
        rw [← Nat.not_le, H.behind_iff hbefore]
        omega
    rw [if_neg hend, H.vnode hlt]
    dsimp only
    rw [hprev]
    dsimp only
    by_cases hbehind : (l.get ⟨mid, hlt⟩).point < h
    · -- the answer is behind the middle
      have hgt : mid < firstBehind l h := by omega
      refine .inr (.inl ⟨hgt, ?_⟩)
      rw [if_neg (by omega), if_pos hbehind, if_pos hbehind, toInt_of_lt (by omega), if_neg (by omega)]
    · have hge : firstBehind l h ≤ mid := hval.mp (Nat.le_of_not_lt hbehind)
      by_cases hfound : prev < h
      · -- the middle is the answer
        have heq : firstBehind l h = mid := by
          have := hprev_iff.mp hfound
          split at this <;> omega
        refine .inl ⟨hge, ?_⟩
        rw [if_pos ⟨by omega, hfound⟩, startOf, if_neg (by omega), heq]
      · rw [if_neg fun hc => hfound hc.2, if_neg hbehind, if_neg hbehind]
        have hnot := mt hprev_iff.mpr hfound
        by_cases hzero : mid = 0
        · -- no point is before 0
          refine .inl ⟨hge, ?_⟩
          have hneg : toInt (toUInt64 ((mid : Int) - 1)) = -1 := by
            rw [hzero]
            decide
          rw [hneg, if_pos (by omega), startOf, if_neg (by omega)]
          exact congrArg Except.ok (show 0 = firstBehind l h by omega)
        · rw [if_neg hzero] at hnot
          refine .inr (.inr ⟨by omega, ?_⟩)
          rw [show (mid : Int) - 1 = ((mid - 1 : Nat) : Int) by omega, toUInt64_natCast (by omega),
            toInt_of_lt (by omega), if_neg (by omega)]

/-- The search between small bounds. -/
theorem search_below (H : ring.Holds l) {low high fuel : Nat} (hlow : low ≤ firstBehind l h)
    (hhigh : firstBehind l h ≤ high) (hle : high ≤ ring.nPoint) (hsmall : high < 2 ^ 30)
    (hfuel : high < low + fuel) : ring.search h fuel low high = .ok (startOf l h) := by
  induction fuel generalizing low high with
  | zero => omega
  | succ fuel ih =>
    obtain ⟨-, hdone⟩ | ⟨hgt, hupper⟩ | ⟨hlt, hlower⟩ :=
      search_round H fuel hlow hhigh hle (by omega)
    · exact hdone
    · rw [hupper]
      exact ih hgt hhigh hle hsmall (by omega)
    · rw [hlower]
      exact ih hlow (by omega) (by omega) (by omega) (by omega)

/-- The search after rounds in the upper half. It leaves the upper halves below `2 ^ 30`, or the sum of
its bounds overflows there. -/
theorem search_climb (H : ring.Holds l) (fuel : Nat) {i : Nat} (hlow : climb ring.nPoint i ≤ firstBehind l h)
    (hfuel : ring.nPoint < climb ring.nPoint i + fuel) :
    ((∀ j ≥ i, (ring.nPoint + 1) / 2 ^ j + 2 ^ 31 ≤ 2 * ring.nPoint + 1 →
        (ring.nPoint + 1) / 2 ^ j ≤ nBehind l h) ∧
      ring.search h fuel (climb ring.nPoint i) ring.nPoint = .ok (startOf l h)) ∨
    ((∃ j, (ring.nPoint + 1) / 2 ^ j + 2 ^ 31 ≤ 2 * ring.nPoint + 1 ∧
        nBehind l h < (ring.nPoint + 1) / 2 ^ j) ∧
      ring.search h fuel (climb ring.nPoint i) ring.nPoint = .error .overflow) := by
  have hcount := H.firstBehind_add (h := h)
  induction fuel generalizing i with
  | zero => omega
  | succ fuel ih =>
    have hadd := climb_add ring.nPoint i
    by_cases hsum : climb ring.nPoint i + ring.nPoint < 2 ^ 31
    · have hround := search_round H fuel hlow (by omega) (Nat.le_refl _) hsum
      -- if the answer is not behind the middle, the rounds that would overflow are above it
      have hleave : firstBehind l h ≤ (climb ring.nPoint i + ring.nPoint) / 2 → ∀ j ≥ i,
          (ring.nPoint + 1) / 2 ^ j + 2 ^ 31 ≤ 2 * ring.nPoint + 1 →
            (ring.nPoint + 1) / 2 ^ j ≤ nBehind l h := by
        intro hle j hj hover
        rcases Nat.eq_or_lt_of_le hj with rfl | hj
        · omega
        · have hmono := climb_mono (n := ring.nPoint) (show i + 1 ≤ j from hj)
          have hsucc := climb_succ (n := ring.nPoint) (i := i)
          have hj' := climb_add ring.nPoint j
          omega
      obtain ⟨hle, hdone⟩ | ⟨hgt, hupper⟩ | ⟨hlt, hlower⟩ := hround
      · exact .inl ⟨hleave hle, hdone⟩
      · rw [hupper, climb_succ]
        rw [Nat.lt_iff_add_one_le, climb_succ] at hgt
        have hsucc := climb_succ (n := ring.nPoint) (i := i)
        refine (ih hgt (by omega)).imp_left fun ⟨hrest, hok⟩ => ⟨fun j hj hover => ?_, hok⟩
        rcases Nat.eq_or_lt_of_le hj with rfl | hj
        · omega
        · exact hrest j hj hover
      · refine .inl ⟨hleave (Nat.le_of_lt hlt), ?_⟩
        rw [hlower]
        exact search_below H hlow (by omega) (by omega) (by omega) (by omega)
    · refine .inr ⟨⟨i, by omega, by omega⟩, ?_⟩
      rw [search, addInt_natCast, if_neg hsum]
      rfl

/-- Rings whose `n_point` is an `int`. -/
theorem search_int (H : ring.Holds l) (hn : ring.nPoint < 2 ^ 31) :
    (Reaches ring.nPoint (nBehind l h) ∧
      ring.search h (ring.nPoint + 2) 0 (toInt ring.nPoint) = .ok (startOf l h)) ∨
    (¬ Reaches ring.nPoint (nBehind l h) ∧
      ring.search h (ring.nPoint + 2) 0 (toInt ring.nPoint) = .error .overflow) := by
  have hclimb := search_climb H (ring.nPoint + 2) (h := h) (i := 0)
    (by rw [climb_zero]; exact Nat.zero_le _) (by omega)
  rw [climb_zero] at hclimb
  rw [toInt_of_lt hn]
  refine hclimb.imp (fun ⟨hreach, hok⟩ => ⟨fun j => hreach j (Nat.zero_le j), hok⟩) ?_
  rintro ⟨⟨j, hover, hlt⟩, herror⟩
  exact ⟨fun hreach => absurd (hreach j hover) (Nat.not_le.mpr hlt), herror⟩

/-- From `2 ^ 31` points on the middle of a negative bound is no index. -/
theorem search_negative {fuel : Nat} (H : ring.Holds l) (hn : 2 ^ 31 ≤ ring.nPoint)
    (hlast : ring.nPoint < 2 ^ 32 - 1) :
    ring.search h (fuel + 1) 0 (toInt ring.nPoint) = .error .outOfBounds := by
  have hhigh : toInt ring.nPoint = (ring.nPoint : Int) - 2 ^ 32 := by
    rw [toInt, Nat.mod_eq_of_lt (by omega), if_neg (by omega)]
  have hhalf : ((ring.nPoint : Int) - 2 ^ 32).tdiv 2 =
      -(((2 ^ 32 - ring.nPoint) / 2 : Nat) : Int) := by
    rw [show (ring.nPoint : Int) - 2 ^ 32 = -((2 ^ 32 - ring.nPoint : Nat) : Int) by omega, Int.neg_tdiv]
    rfl
  have hmid : ∃ midp, toUInt64 (((ring.nPoint : Int) - 2 ^ 32).tdiv 2) = midp ∧ 2 ^ 32 ≤ midp := by
    refine ⟨_, rfl, ?_⟩
    rw [hhalf, toUInt64]
    omega
  obtain ⟨midp, hmidp, hge⟩ := hmid
  have hread : ring.vnode midp = .error .outOfBounds := by
    have hlength := H.length
    rw [vnode, H.vnodes, List.getElem?_eq_none (by rw [List.length_map]; omega)]
  have hsum : addInt 0 (toInt ring.nPoint) = .ok ((ring.nPoint : Int) - 2 ^ 32) := by
    rw [addInt, hhigh, if_pos (by omega), Int.zero_add]
  rw [search, hsum]
  dsimp only [Except.bind]
  rw [hmidp, if_neg (by omega), hread]

/-- The largest `n_point`: the bounds are 0 and -1. -/
theorem search_minusOne {fuel : Nat} (H : ring.Holds l) (hn : ring.nPoint = 2 ^ 32 - 1) :
    ring.search h (fuel + 1) 0 (toInt ring.nPoint) = .ok 0 := by
  have hpos : 0 < l.length := H.length ▸ H.pos
  have hsum : addInt 0 (toInt ring.nPoint) = .ok (-1) := by
    rw [hn]
    decide
  have hmid : toUInt64 ((-1 : Int).tdiv 2) = 0 := by decide
  rw [search, hsum]
  dsimp only [Except.bind]
  rw [hmid, if_neg (by omega), H.vnode hpos, pointBefore, if_pos rfl]
  dsimp only
  have hhigh : toInt ring.nPoint = -1 := by
    rw [hn]
    decide
  have hone : toInt (0 + 1) = 1 := by decide
  have hminus : toInt (toUInt64 (((0 : Nat) : Int) - 1)) = -1 := by decide
  have hlow : (-1 : Int) < if (l.get ⟨0, hpos⟩).point < h then 1 else 0 := by split <;> decide
  rw [hhigh, hone, hminus, ite_self, if_pos hlow, ite_self]

theorem Holds.finds_iff (H : ring.Holds l) {hash : Nat → Nat} {key : Nat} :
    ring.Finds l hash key ↔ ring.getVnodeIdx hash key = .ok (startOf l (hash key % 2 ^ 32)) := by
  simp only [Finds, H.isFirst_iff]
  exact ⟨fun ⟨i, hi, heq⟩ => heq ▸ hi, fun hi => ⟨_, hi, rfl⟩⟩

/-- **The search.** On a sorted ring it finds the first entry at or behind the hash of the key exactly
if its bounds and their sums are `int`s, or the only entry that it looks at decides. -/
theorem getVnodeIdx_finds_iff (H : ring.Holds l) (hash : Nat → Nat) (key : Nat) :
    ring.Finds l hash key ↔ Searchable ring.nPoint (nBehind l (hash key % 2 ^ 32)) := by
  have hcount := H.firstBehind_add (h := hash key % 2 ^ 32)
  have hlength := H.length
  rw [H.finds_iff, getVnodeIdx, Searchable]
  rcases Nat.lt_or_ge ring.nPoint (2 ^ 31) with hn | hn
  · obtain ⟨hreach, hok⟩ | ⟨hreach, herror⟩ := search_int H (h := hash key % 2 ^ 32) hn
    · exact iff_of_true hok (.inl ⟨hn, hreach⟩)
    · rw [herror]
      refine iff_of_false nofun ?_
      rintro (⟨-, hc⟩ | ⟨hc, -⟩)
      · exact hreach hc
      · omega
  · rcases Nat.lt_or_ge ring.nPoint (2 ^ 32 - 1) with hlast | hlast
    · rw [search_negative H hn hlast]
      exact iff_of_false nofun (by omega)
    · have hn' : ring.nPoint = 2 ^ 32 - 1 := by
        have := H.unsigned
        omega
      rw [search_minusOne H hn', Except.ok.injEq, startOf]
      split <;> omega

/-- The search returns for every hash exactly if it does for the largest one. -/
theorem getVnodeIdx_returns_iff (H : ring.Holds l) (hn : ring.nPoint < 2 ^ 31) :
    (∀ hash key, ∃ i < ring.nPoint, ring.getVnodeIdx hash key = .ok i) ↔
      Reaches ring.nPoint (nBehind l (2 ^ 32 - 1)) := by
  constructor
  · intro hreturns
    obtain ⟨i, -, hi⟩ := hreturns (fun _ => 2 ^ 32 - 1) 0
    obtain ⟨hreach, -⟩ | ⟨-, herror⟩ := search_int H (h := 2 ^ 32 - 1) hn
    · exact hreach
    · exact absurd (herror.symm.trans hi) nofun
  · intro hlast hash key
    have hle : nBehind l (2 ^ 32 - 1) ≤ nBehind l (hash key % 2 ^ 32) := by
      apply List.countP_mono_left
      intro v _ hv
      rw [decide_eq_true_eq] at *
      omega
    obtain ⟨-, hok⟩ | ⟨hreach, -⟩ := search_int H (h := hash key % 2 ^ 32) hn
    · exact ⟨_, H.startOf_lt, hok⟩
    · exact absurd (hlast.mono hle) hreach

/-- The search between unbounded integers. -/
theorem getVnodeIdx_eq_ring {nServer : Nat} {r : Ring nServer} (H : ring.Holds r.vnodes)
    (hn : ring.nPoint < 2 ^ 30) (hash : Nat → Nat) (key : Nat) :
    ring.getVnodeIdx hash key = .ok (r.getVnodeIdx hash key) := by
  rw [Ring.getVnodeIdx_eq H.sorted]
  obtain ⟨-, hok⟩ | ⟨hreach, -⟩ := search_int H (h := hash key % 2 ^ 32) (by omega)
  · exact hok
  · exact absurd (reaches_of_lt hn) hreach

end

/-! A ring with two equal points, and a large ring that is searched for a place behind its end. -/

def fourVnodes : List VNode := [⟨10, 0⟩, ⟨20, 1⟩, ⟨20, 0⟩, ⟨30, 1⟩]

def fourPoints : MemRing := ⟨4, 2, fourVnodes.map some⟩

theorem fourPoints_holds : fourPoints.Holds fourVnodes :=
  ⟨rfl, rfl, by decide, by decide, by decide⟩

theorem fourPoints_finds : fourPoints.Finds fourVnodes id 15 ∧ fourPoints.getVnodeIdx id 15 = .ok 1 :=
  ⟨(getVnodeIdx_finds_iff fourPoints_holds id 15).mpr (.inl ⟨by decide, reaches_of_lt (by decide)⟩),
    by decide +kernel⟩

/-- `n` entries with the same point. -/
def equalPoints (n point : Nat) : MemRing := ⟨n, 1, List.replicate n (some ⟨point, 0⟩)⟩

theorem equalPoints_holds {n point : Nat} (hpos : 0 < n) (hn : n < 2 ^ 32) :
    (equalPoints n point).Holds (List.replicate n ⟨point, 0⟩) where
  vnodes := List.map_replicate.symm
  length := List.length_replicate
  pos := hpos
  unsigned := hn
  sorted := List.pairwise_replicate.mpr (.inr (Nat.le_refl _))

/-- Behind the last of `2 ^ 30` points the sum of the bounds overflows. -/
theorem not_reaches_zero {n : Nat} (h : 2 ^ 30 ≤ n) (hn : n < 2 ^ 31) : ¬ Reaches n 0 := by
  intro hreach
  have := hreach 30 (by omega)
  omega

theorem equalPoints_not_finds {n point h : Nat} (hle : 2 ^ 30 ≤ n) (hn : n < 2 ^ 31) (hpoint : point < h)
    (hh : h < 2 ^ 32) :
    ¬ (equalPoints n point).Finds (List.replicate n ⟨point, 0⟩) (fun _ => h) 0 := by
  have H : (equalPoints n point).Holds (List.replicate n ⟨point, 0⟩) :=
    equalPoints_holds (by omega) (by omega)
  have hnone : nBehind (List.replicate n ⟨point, 0⟩) (h % 2 ^ 32) = 0 := by
    rw [nBehind, List.countP_replicate, Nat.mod_eq_of_lt hh, if_neg]
    simpa using hpoint
  rw [H.finds_iff]
  obtain ⟨hreach, -⟩ | ⟨-, herror⟩ := search_int H (h := h % 2 ^ 32) hn
  · rw [hnone] at hreach
    exact absurd hreach (not_reaches_zero hle hn)
  · intro hok
    exact absurd (herror.symm.trans hok) nofun

/-- The points of 6710887 servers. -/
theorem largeRing_not_finds :
    (equalPoints 1073741920 7).Holds (List.replicate 1073741920 ⟨7, 0⟩) ∧
      ¬ (equalPoints 1073741920 7).Finds (List.replicate 1073741920 ⟨7, 0⟩) (fun _ => 8) 0 :=
  ⟨equalPoints_holds (by decide) (by decide),
    equalPoints_not_finds (by decide) (by decide) (by decide) (by decide)⟩

end MemRing

end C2DN.Simulator
