import C2DN.Lib.Bisect
import C2DN.Lib.Firsts
import C2DN.Lib.Outcome
import C2DN.Simulator.Ring

/-!
# The servers behind a point of the ring

On a sorted ring `ch_ring_get_vnode_idx` finds the first virtual node at or behind the point of a
key. `ch_ring_get_servers` returns the first servers with capacity that are met from there, each of
them once, and aborts if there are too few.
-/

namespace C2DN.Simulator.Ring

section
variable {nServer : Nat} {ring : Ring nServer} {h : Nat}

/-- The points of the ring are in order. -/
def Sorted (ring : Ring nServer) : Prop := ring.vnodes.Pairwise fun v w => v.point ≤ w.point

/-- Every server has a virtual node. -/
def Complete (ring : Ring nServer) : Prop := ∀ x < nServer, ∃ v ∈ ring.vnodes, v.serverId = x

/-- The first virtual node at or behind a point; there is none behind the last one. -/
def firstBehind (ring : Ring nServer) (h : Nat) : Nat :=
  ring.vnodes.findIdx fun v => h ≤ v.point

/-- The virtual node of a point; behind the last one is the first one. -/
def startOf (ring : Ring nServer) (h : Nat) : Nat :=
  if ring.firstBehind h = ring.nPoint then 0 else ring.firstBehind h

theorem point_eq {i : Nat} (hi : i < ring.nPoint) : ring.point i = (ring.vnodes.get ⟨i, hi⟩).point := by
  rw [point, List.getElem?_eq_getElem hi]
  rfl

theorem firstBehind_le : ring.firstBehind h ≤ ring.nPoint := List.findIdx_le_length

theorem rising_behind {l : List VNode} (hs : l.Pairwise fun v w => v.point ≤ w.point) :
    Rising (fun v : VNode => decide (h ≤ v.point)) l :=
  hs.imp fun hle hv => by
    rw [decide_eq_true_eq] at *
    exact Nat.le_trans hv hle

theorem lt_of_lt_firstBehind {i : Nat} (hi : i < ring.firstBehind h) : ring.point i < h := by
  have hlt : i < ring.nPoint := Nat.lt_of_lt_of_le hi firstBehind_le
  rw [point_eq hlt]
  have := List.not_of_lt_findIdx hi
  simpa using this

theorem le_of_firstBehind_le (hs : ring.Sorted) {i : Nat} (hi : ring.firstBehind h ≤ i)
    (hlt : i < ring.nPoint) : h ≤ ring.point i := by
  rw [point_eq hlt]
  exact of_decide_eq_true (((rising_behind hs).get_iff hlt).mpr hi)

/-- The search keeps the answer between its bounds. -/
theorem search_eq (hs : ring.Sorted) {fuel low high : Nat} (hlow : low ≤ ring.firstBehind h)
    (hhigh : ring.firstBehind h ≤ high) (hle : high ≤ ring.nPoint) (hfuel : high < low + fuel) :
    ring.search h fuel low high = ring.startOf h := by
  induction fuel generalizing low high with
  | zero => omega
  | succ fuel ih =>
    have hmid : (((low : Int) + high).tdiv 2).toNat = (low + high) / 2 := by
      rw [show (low : Int) + high = ((low + high : Nat) : Int) by omega]
      rfl
    rw [search]
    simp only [hmid]
    generalize hm : (low + high) / 2 = mid
    have hmid_lo : low ≤ mid := by omega
    have hmid_hi : mid ≤ high := by omega
    by_cases hend : mid = ring.nPoint
    · rw [if_pos hend, startOf, if_pos (by omega)]
    · have hlt : mid < ring.nPoint := by omega
      rw [if_neg hend]
      by_cases hval : ring.point mid < h
      · -- the answer is behind the middle
        have hgt : mid < ring.firstBehind h := by
          by_contra hnot
          have := le_of_firstBehind_le hs (Nat.le_of_not_lt hnot) hlt
          omega
        have hcond : ¬ (h ≤ ring.point mid ∧ (if mid = 0 then 0 else ring.point (mid - 1)) < h) :=
          fun hc => Nat.not_le.mpr hval hc.1
        rw [if_neg hcond, if_pos hval, if_pos hval, if_neg (by omega),
          show (mid : Int) + 1 = ((mid + 1 : Nat) : Int) by omega]
        exact ih hgt hhigh hle (by omega)
      · have hge : ring.firstBehind h ≤ mid := by
          by_contra hnot
          exact hval (lt_of_lt_firstBehind (Nat.lt_of_not_le hnot))
        rw [if_neg hval, if_neg hval]
        by_cases hprev : (if mid = 0 then 0 else ring.point (mid - 1)) < h
        · -- the middle is the answer
          have heq : ring.firstBehind h = mid := by
            refine Nat.le_antisymm hge (Nat.le_of_not_lt fun hbefore => ?_)
            have := le_of_firstBehind_le (h := h) hs (i := mid - 1) (by omega) (by omega)
            rw [if_neg (by omega)] at hprev
            omega
          rw [if_pos ⟨by omega, hprev⟩, startOf, if_neg (by omega), heq]
        · rw [if_neg fun hc => hprev hc.2]
          by_cases hzero : mid = 0
          · -- no point is before 0
            rw [if_pos (by omega), startOf, if_neg (by omega)]
            omega
          · rw [if_neg hzero] at hprev
            have hbefore : ring.firstBehind h ≤ mid - 1 := by
              by_contra hnot
              exact hprev (lt_of_lt_firstBehind (by omega))
            rw [if_neg (by omega), show (mid : Int) - 1 = ((mid - 1 : Nat) : Int) by omega]
            exact ih hlow hbefore (by omega) (by omega)

theorem getVnodeIdx_eq (hs : ring.Sorted) (hash : Nat → Nat) (key : Nat) :
    ring.getVnodeIdx hash key = ring.startOf (hash key % 2 ^ 32) :=
  search_eq hs (Nat.zero_le _) firstBehind_le (Nat.le_refl _) (by omega)

/-! ## The walk -/

/-- The servers of the virtual nodes from one of them on, once around. -/
def clockwise (ring : Ring nServer) (start : Nat) : List Nat :=
  (List.range ring.nPoint).map fun i => ring.serverAt (start + i)

/-- The state of the walk after the servers `xs`. -/
structure Walk.After (capacity : Nat → Nat) (xs : List Nat) (w : Walk) : Prop where
  ret : w.retIdxs = firsts (xs.filter fun x => 0 < capacity x)
  checked : ∀ x, w.checkedServer x = true ↔ x ∈ xs
  capacity : ∀ x, w.capacity x = if x ∈ xs then capacity x - 1 else capacity x

theorem Walk.After.visit {capacity : Nat → Nat} {xs : List Nat} {w : Walk}
    (H : w.After capacity xs) (x : Nat) : (w.visit x).After capacity (xs ++ [x]) := by
  have hchecked : ∀ y, (w.visit x).checkedServer y = true ↔ y ∈ xs ++ [x] := by
    intro y
    have hvisit : (w.visit x).checkedServer = Function.update w.checkedServer x true := by
      unfold Walk.visit
      split <;> rfl
    rw [hvisit, List.mem_append, List.mem_singleton, ← H.checked y]
    by_cases hy : y = x
    · simp [hy]
    · simp [hy]
  have hfilter : (xs ++ [x]).filter (fun y => decide (0 < capacity y)) =
      xs.filter (fun y => decide (0 < capacity y)) ++ if 0 < capacity x then [x] else [] := by
    rw [List.filter_append, List.filter_singleton]
    split <;> simp_all
  have hmem : x ∈ xs.filter (fun y => decide (0 < capacity y)) ↔ x ∈ xs ∧ 0 < capacity x := by
    simp
  by_cases hx : x ∈ xs
  · -- the server has been checked before
    have hvisit : (w.visit x).retIdxs = w.retIdxs ∧ (w.visit x).capacity = w.capacity := by
      unfold Walk.visit
      rw [if_neg fun hc => by rw [(H.checked x).mpr hx] at hc; cases hc.1]
      exact ⟨rfl, rfl⟩
    refine ⟨?_, hchecked, fun y => ?_⟩
    · rw [hvisit.1, H.ret, hfilter]
      split
      · next hpos => rw [firsts_concat, if_pos (hmem.mpr ⟨hx, hpos⟩)]
      · rw [List.append_nil]
    · rw [hvisit.2, H.capacity y]
      by_cases hy : y = x
      · simp [hy, hx]
      · simp [hy]
  · have hcap : w.capacity x = capacity x := by rw [H.capacity x, if_neg hx]
    have hnew : w.checkedServer x = false := by
      rw [← Bool.not_eq_true, H.checked x]
      exact hx
    by_cases hpos : 0 < capacity x
    · have hvisit : (w.visit x).retIdxs = w.retIdxs ++ [x] ∧
          (w.visit x).capacity = Function.update w.capacity x (w.capacity x - 1) := by
        unfold Walk.visit
        rw [if_pos ⟨hnew, by rw [hcap]; exact hpos⟩]
        exact ⟨rfl, rfl⟩
      refine ⟨?_, hchecked, fun y => ?_⟩
      · rw [hvisit.1, H.ret, hfilter, if_pos hpos, firsts_concat, if_neg fun hm => hx (hmem.mp hm).1]
      · rw [hvisit.2]
        by_cases hy : y = x
        · simp [hy, hcap]
        · rw [Function.update_of_ne hy, H.capacity y]
          simp [hy]
    · have hvisit : (w.visit x).retIdxs = w.retIdxs ∧ (w.visit x).capacity = w.capacity := by
        unfold Walk.visit
        rw [if_neg fun hc => hpos (by rw [← hcap]; exact hc.2)]
        exact ⟨rfl, rfl⟩
      refine ⟨?_, hchecked, fun y => ?_⟩
      · rw [hvisit.1, H.ret, hfilter, if_neg hpos, List.append_nil]
      · rw [hvisit.2, H.capacity y]
        by_cases hy : y = x
        · simp [hy, hx]
          omega
        · simp [hy]

/-- The servers with capacity, in the order in which they are met. -/
def met (ring : Ring nServer) (capacity : Nat → Nat) (start : Nat) : List Nat :=
  firsts ((ring.clockwise start).filter fun x => 0 < capacity x)

theorem walk_ok {capacity : Nat → Nat} {n start fuel pos : Nat} {w : Walk}
    (H : w.After capacity ((ring.clockwise start).take pos)) (hpos : pos ≤ ring.nPoint)
    (hn : n ≤ (ring.met capacity start).length) (hle : w.retIdxs.length ≤ n)
    (hfuel : ring.nPoint < pos + fuel) :
    ∃ w' xs, ring.walk n start fuel pos w = .ok w' ∧ w'.After capacity xs ∧
      w'.retIdxs = (ring.met capacity start).take n := by
  have hlen : (ring.clockwise start).length = ring.nPoint := by simp [clockwise]
  induction fuel generalizing pos w with
  | zero => omega
  | succ fuel ih =>
    rw [walk]
    -- what has been met so far is the start of what is met once around
    obtain ⟨t, ht⟩ := firsts_append
      (((ring.clockwise start).take pos).filter fun x => decide (0 < capacity x))
      (((ring.clockwise start).drop pos).filter fun x => decide (0 < capacity x))
    rw [← List.filter_append, List.take_append_drop, ← H.ret] at ht
    split
    · next hdone =>
      refine ⟨w, _, rfl, H, ?_⟩
      rw [met, ht, List.take_left' (Nat.le_antisymm hle hdone)]
    · next hmore =>
      have hlt : pos < ring.nPoint := by
        by_contra hnot
        have hall : (ring.clockwise start).drop pos = [] := List.drop_eq_nil_of_le (by omega)
        have htake : (ring.clockwise start).take pos = ring.clockwise start :=
          List.take_of_length_le (by omega)
        rw [met, ← htake, ← H.ret] at hn
        exact hmore hn
      have hnext : (ring.clockwise start).take (pos + 1) =
          (ring.clockwise start).take pos ++ [ring.serverAt (start + pos)] := by
        rw [List.take_succ_eq_append_getElem (by rw [hlen]; exact hlt)]
        simp [clockwise]
      dsimp only
      rw [if_neg (by omega)]
      refine ih (hnext ▸ H.visit _) hlt ?_ (by omega)
      unfold Walk.visit
      dsimp only
      split
      · simp; omega
      · exact hle

/-- A walk that fails has gone around the ring. -/
theorem walk_error {n start fuel pos : Nat} {w : Walk} {e : Fault}
    (h : ring.walk n start fuel pos w = .error e) : e = .ringExhausted := by
  induction fuel generalizing pos w with
  | zero => cases h; rfl
  | succ fuel ih =>
    rw [walk] at h
    split at h
    · cases h
    · dsimp only at h
      split at h
      · cases h; rfl
      · exact ih h

/-- **The servers of a key.** -/
theorem getServers_ok {capacity : Nat → Nat} {n key : Nat} {hash : Nat → Nat} (hs : ring.Sorted)
    (hn : n ≤ (ring.met capacity (ring.startOf (hash key % 2 ^ 32))).length) :
    ∃ lead capacity', ring.getServers hash key n capacity =
        .ok ((ring.met capacity (ring.startOf (hash key % 2 ^ 32))).take n, lead, capacity') ∧
      ∀ x, capacity x ≤ capacity' x + 1 := by
  have H₀ : Walk.After capacity ((ring.clockwise (ring.startOf (hash key % 2 ^ 32))).take 0)
      ⟨[], fun _ => false, capacity⟩ := ⟨rfl, by simp, by simp⟩
  obtain ⟨w, xs, hw, H, hret⟩ := walk_ok H₀ (Nat.zero_le _) hn (Nat.zero_le _)
    (by omega : ring.nPoint < 0 + (ring.nPoint + 2))
  refine ⟨ring.serverAt (ring.startOf (hash key % 2 ^ 32)), w.capacity, ?_, fun x => ?_⟩
  · unfold getServers
    rw [getVnodeIdx_eq hs]
    dsimp only
    rw [hw, ← hret]
    rfl
  · rw [H.capacity x]
    split <;> omega

theorem getServers_error {capacity : Nat → Nat} {n key : Nat} {hash : Nat → Nat} {e : Fault}
    (h : ring.getServers hash key n capacity = .error e) : e = .ringExhausted := by
  unfold getServers at h
  dsimp only at h
  cases hw : ring.walk n (ring.getVnodeIdx hash key) (ring.nPoint + 2) 0
      ⟨[], fun _ => false, capacity⟩ with
  | ok w => rw [hw] at h; cases h
  | error e' =>
    rw [hw] at h
    cases h
    exact walk_error hw

/-- All servers with capacity are met. -/
theorem mem_met (hc : ring.Complete) {capacity : Nat → Nat} {start x : Nat} :
    x ∈ ring.met capacity start ↔ x < nServer ∧ 0 < capacity x := by
  rw [met, mem_firsts, List.mem_filter, decide_eq_true_eq]
  refine and_congr_left fun _ => ⟨fun hx => ?_, fun hx => ?_⟩
  · obtain ⟨i, -, rfl⟩ := List.mem_map.mp hx
    exact ring.serverAt_lt _
  · obtain ⟨v, hv, rfl⟩ := hc x hx
    obtain ⟨j, hj, rfl⟩ := List.mem_iff_getElem.mp hv
    have hpos : 0 < ring.nPoint := Nat.lt_of_le_of_lt (Nat.zero_le _) hj
    -- the node `j` is met after `j - start` steps around the ring
    refine List.mem_map.mpr ⟨(j + (ring.nPoint - start % ring.nPoint)) % ring.nPoint,
      List.mem_range.mpr (Nat.mod_lt _ hpos), ?_⟩
    have hmod : (start + (j + (ring.nPoint - start % ring.nPoint)) % ring.nPoint) % ring.nPoint = j := by
      have hstart := Nat.mod_lt start hpos
      have hround : start + (j + (ring.nPoint - start % ring.nPoint)) =
          j + ring.nPoint * (start / ring.nPoint + 1) := by
        have := Nat.div_add_mod start ring.nPoint
        rw [Nat.mul_add, Nat.mul_one]
        omega
      rw [Nat.add_mod_mod, hround, Nat.add_mul_mod_self_left]
      exact Nat.mod_eq_of_lt hj
    rw [serverAt, hmod, List.getElem?_eq_getElem hj]
    rfl

end

end C2DN.Simulator.Ring
