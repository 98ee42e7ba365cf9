import Mathlib.Algebra.BigOperators.Ring.List
import Mathlib.Data.List.Count
import Mathlib.Data.List.ReduceOption
import Mathlib.Data.Nat.Cast.Basic
import C2DN.Lib.Share
import C2DN.LoadBalancer.Md5
import C2DN.Simulator.MemRing

/-!
# The ring of weighted servers

`ch_ring_create`. The ring is an array in memory (`MemRing`) whose entries have a value once they are
written, and `ch_ring_get_servers` is made on it with a fault for every other entry. The points of a
server are its share of `n_server * N_VNODE_PER_SERVER / 4` hashes, rounded down, of which each gives
four points. Here the share is computed exactly (`chRingCreate`); in `C2DN.Simulator.RingWeights` it is
rounded as a `double` and a `float`. `digest` is `md5_digest`.
-/

namespace C2DN.Simulator

/-- `N_VNODE_PER_SERVER`. -/
def nVnodePerServer : Nat := 160

/-- `qsort` with `ch_ring_compare`: the order of equal points is not given. -/
structure Qsort where
  sort : List VNode → List VNode
  perm : ∀ l, (sort l).Perm l
  sorted : ∀ l, (sort l).Pairwise fun v w => v.point ≤ w.point

/-! ## `ch_ring_create` -/

/-- `total_weight`. -/
def totalWeight (weight : List UInt32) : Nat := (weight.map UInt32.toNat).sum

/-- `ks`: the hashes of a server, the share computed exactly. -/
def nHash (weight : List UInt32) (w : UInt32) : Nat :=
  share (weight.length * (nVnodePerServer / 4)) (totalWeight weight) w.toNat

/-- `sprintf(ss, "%u-%u", i, k)`. -/
def ringKey (i k : Nat) : List Nat :=
  (Nat.toDigits 10 i ++ '-' :: Nat.toDigits 10 k).map Char.toNat

/-- Four successive bytes of a digest. -/
def digestPoint (digest : List Nat) (h : Nat) : Nat :=
  (digest.getD (3 + h * 4) 0 <<< 24) ||| (digest.getD (2 + h * 4) 0 <<< 16) |||
    (digest.getD (1 + h * 4) 0 <<< 8) ||| digest.getD (h * 4) 0

/-- The virtual nodes of a server, in the order of the loops. -/
def serverVnodes (digest : List Nat → List Nat) (i ks : Nat) : List VNode :=
  (List.range ks).flatMap fun k =>
    (List.range 4).map fun h => ⟨digestPoint (digest (ringKey i k)) h, i⟩

/-- All virtual nodes, when a server of weight `w` has `ks w` hashes. -/
def vnodesOf (digest : List Nat → List Nat) (ks : UInt32 → Nat) (weight : List UInt32) : List VNode :=
  weight.zipIdx.flatMap fun (w, i) => serverVnodes digest i (ks w)

def ringVnodes (digest : List Nat → List Nat) (weight : List UInt32) : List VNode :=
  vnodesOf digest (nHash weight) weight

/-- `vnodes[cnt] = v; cnt++`. -/
def writeVnode (st : List (Option VNode) × Nat) (v : VNode) :
    Except RingFault (List (Option VNode) × Nat) :=
  if st.2 < st.1.length then .ok (st.1.set st.2 (some v), st.2 + 1) else .error .outOfBounds

/-- `ch_ring_create` with the hashes of the servers; `qsort` sorts the entries that were written. -/
def chRingCreateOf (qsort : Qsort) (digest : List Nat → List Nat) (ks : UInt32 → Nat)
    (weight : List UInt32) : Except RingFault MemRing :=
  let nPoint := weight.length * nVnodePerServer
  if 2 ^ 31 ≤ nPoint then .error .overflow
  else if weight ≠ [] ∧ totalWeight weight = 0 then .error .notANumber
  else
    ((vnodesOf digest ks weight).foldlM writeVnode (List.replicate nPoint none, 0)).map
      fun (vnodes, cnt) =>
        { nPoint
          nServer := weight.length
          vnodes := (qsort.sort (vnodes.take cnt).reduceOption).map some ++ vnodes.drop cnt }

/-- `ch_ring_create`. -/
def chRingCreate (qsort : Qsort) (digest : List Nat → List Nat) (weight : List UInt32) :
    Except RingFault MemRing :=
  chRingCreateOf qsort digest (nHash weight) weight

/-! ## Lookups -/

namespace MemRing

/-- `while (i < n)` of `ch_ring_get_servers`; `checked_server` has `n_server` entries. -/
def walk (ring : MemRing) (n start : Nat) : Nat → Nat → Ring.Walk → Except RingFault Ring.Walk
  | 0, _, _ => .error .noEnd
  | fuel + 1, vnodePos, w =>
    if n ≤ w.retIdxs.length then .ok w
    else
      (ring.vnode ((start + vnodePos) % ring.nPoint)).bind fun v =>
        if ring.nServer ≤ v.serverId then .error .outOfBounds
        else if ring.nPoint < vnodePos + 1 then .error .ringExhausted
        else ring.walk n start fuel (vnodePos + 1) (w.visit v.serverId)

/-- `ch_ring_get_servers`: the servers and the lead server without regard to capacities. -/
def getServers (hash : Nat → Nat) (ring : MemRing) (key n : Nat) (capacity : Nat → Nat) :
    Except RingFault (List Nat × Nat) :=
  (ring.getVnodeIdx hash key).bind fun start =>
    (ring.vnode (start % ring.nPoint)).bind fun lead =>
      (ring.walk n start (ring.nPoint + 2) 0 ⟨[], fun _ => false, capacity⟩).map fun w =>
        (w.retIdxs, lead.serverId)

/-- All entries of the ring are written, in the order of their points, and every server has one. The
lookups read nothing else: they return, or `ch_ring_get_servers` aborts since servers are missing. -/
structure Filled (ring : MemRing) (nServer : Nat) (l : List VNode) : Prop where
  vnodes : ring.vnodes = l.map some
  nPoint : ring.nPoint = nServer * nVnodePerServer
  length : l.length = ring.nPoint
  sorted : l.Pairwise fun v w => v.point ≤ w.point
  servers : ∀ v ∈ l, v.serverId < nServer
  owned : ∀ x < nServer, ∃ v ∈ l, v.serverId = x
  getVnodeIdx : ∀ hash key, ∃ i < ring.nPoint, ring.getVnodeIdx hash key = .ok i
  getServers : ∀ hash key n capacity,
    Ends (ring.getServers hash key n capacity) (fun _ => True) (· = .ringExhausted)

/-! ## Reads -/

section
variable {ring : MemRing} {l : List VNode}

theorem walk_ends {n start fuel : Nat} (pos : Nat) {w : Ring.Walk} (H : ring.Holds l)
    (hservers : ∀ v ∈ l, v.serverId < ring.nServer) (hfuel : ring.nPoint + 2 ≤ fuel + pos)
    (hle : pos ≤ ring.nPoint) :
    Ends (ring.walk n start fuel pos w) (fun _ => True) (· = .ringExhausted) := by
  induction fuel generalizing pos w with
  | zero => omega
  | succ fuel ih =>
    rw [walk]
    split
    · exact trivial
    · have hlt : (start + pos) % ring.nPoint < l.length := by
        rw [H.length]
        exact Nat.mod_lt _ H.pos
      rw [H.vnode hlt]
      dsimp only [Except.bind]
      rw [if_neg (Nat.not_le.mpr (hservers _ (List.get_mem _ _)))]
      exact .guard (fun _ => rfl) fun _ => ih _ (by omega) (by omega)

theorem getServers_ends {hash : Nat → Nat} {key start : Nat} (H : ring.Holds l)
    (hservers : ∀ v ∈ l, v.serverId < ring.nServer) (hidx : ring.getVnodeIdx hash key = .ok start)
    (n : Nat) (capacity : Nat → Nat) :
    Ends (ring.getServers hash key n capacity) (fun _ => True) (· = .ringExhausted) := by
  have hlt : start % ring.nPoint < l.length := by
    rw [H.length]
    exact Nat.mod_lt _ H.pos
  rw [getServers, hidx]
  dsimp only [Except.bind]
  rw [H.vnode hlt]
  exact (walk_ends 0 H hservers (Nat.le_refl _) (Nat.zero_le _)).map
    (Q := fun _ => True) fun _ _ => trivial

end

end MemRing

/-! ## Writes -/

section
variable {qsort : Qsort} {digest : List Nat → List Nat} {ks : UInt32 → Nat} {weight : List UInt32}

theorem writeVnode_foldlM {vs : List VNode} (pre : List VNode) {m : Nat} (h : vs.length ≤ m) :
    vs.foldlM writeVnode (pre.map some ++ List.replicate m none, pre.length) =
      .ok ((pre ++ vs).map some ++ List.replicate (m - vs.length) none, (pre ++ vs).length) := by
  induction vs generalizing pre m with
  | nil => simp; rfl
  | cons v vs ih =>
    obtain ⟨m, rfl⟩ : ∃ k, m = k + 1 := Nat.exists_eq_succ_of_ne_zero (by simp at h; omega)
    have hset : (pre.map some ++ List.replicate (m + 1) none).set pre.length (some v) =
        (pre ++ [v]).map some ++ List.replicate m none := by
      rw [List.set_append_right _ _ (by simp), List.length_map, Nat.sub_self, List.replicate_succ,
        List.set_cons_zero]
      simp
    have hwrite : writeVnode (pre.map some ++ List.replicate (m + 1) none, pre.length) v =
        .ok ((pre ++ [v]).map some ++ List.replicate m none, (pre ++ [v]).length) := by
      rw [writeVnode, if_pos (by simp), hset]
      simp
    rw [foldlM_cons_ok hwrite]
    refine (ih (pre ++ [v]) (by simp at h; omega)).trans ?_
    rw [List.append_assoc, List.singleton_append, List.length_cons, Nat.add_sub_add_right]

/-- Entries are only written inside the array. -/
theorem length_le_of_foldlM {vs : List VNode} {st st' : List (Option VNode) × Nat}
    (h : vs.foldlM writeVnode st = .ok st') (hle : st.2 ≤ st.1.length) :
    st.2 + vs.length ≤ st.1.length := by
  induction vs generalizing st with
  | nil => exact hle
  | cons v vs ih =>
    rw [List.foldlM_cons] at h
    obtain ⟨st₁, hst₁, h⟩ := bind_eq_ok h
    unfold writeVnode at hst₁
    split at hst₁
    · next hlt =>
      cases hst₁
      have := ih h (by rw [List.length_set]; exact hlt)
      rw [List.length_set] at this
      rw [List.length_cons]
      omega
    · cases hst₁

theorem length_serverVnodes {i k : Nat} : (serverVnodes digest i k).length = k * 4 := by
  simp [serverVnodes, List.length_flatMap, Nat.cast_id]

theorem mem_serverVnodes {i k : Nat} {v : VNode} (h : v ∈ serverVnodes digest i k) :
    v.serverId = i := by
  simp only [serverVnodes, List.mem_flatMap, List.mem_map] at h
  obtain ⟨_, _, _, _, rfl⟩ := h
  rfl

theorem length_vnodesOf : (vnodesOf digest ks weight).length = (weight.map ks).sum * 4 := by
  have hlen : ((vnodesOf digest ks weight).length =
      (weight.zipIdx.map fun p => ks p.1 * 4).sum) := by
    rw [vnodesOf, List.length_flatMap]
    congr 1
    exact List.map_congr_left fun p _ => length_serverVnodes
  have hfst : (weight.zipIdx.map fun p => ks p.1 * 4) = weight.map fun w => ks w * 4 := by
    rw [← List.zipIdx_map_fst 0 weight, List.map_map]
    simp only [List.zipIdx_map_fst]
    rfl
  rw [hlen, hfst, List.sum_map_mul_right]

theorem length_ringVnodes :
    (ringVnodes digest weight).length = (weight.map (nHash weight)).sum * 4 := length_vnodesOf

theorem mem_ringVnodes {v : VNode} : v ∈ ringVnodes digest weight ↔
    ∃ w, weight[v.serverId]? = some w ∧ v ∈ serverVnodes digest v.serverId (nHash weight w) := by
  simp only [ringVnodes, vnodesOf, List.mem_flatMap, Prod.exists, List.mk_mem_zipIdx_iff_getElem?]
  constructor
  · rintro ⟨w, i, hw, hv⟩
    obtain rfl := mem_serverVnodes hv
    exact ⟨w, hw, hv⟩
  · rintro ⟨w, hw, hv⟩
    exact ⟨w, _, hw, hv⟩

/-- Rounding leaves room for all points. -/
theorem length_ringVnodes_le (digest : List Nat → List Nat) (h : totalWeight weight ≠ 0) :
    (ringVnodes digest weight).length ≤ weight.length * nVnodePerServer := by
  have hle : (weight.map (nHash weight)).sum ≤ weight.length * (nVnodePerServer / 4) := by
    have := sum_share_le (l := weight.map UInt32.toNat) (N := weight.length * (nVnodePerServer / 4))
      (Nat.pos_of_ne_zero h)
    rwa [List.map_map] at this
  rw [length_ringVnodes]
  unfold nVnodePerServer at *
  omega

theorem chRingCreateOf_eq (hn : weight.length * nVnodePerServer < 2 ^ 31)
    (hT : weight ≠ [] → totalWeight weight ≠ 0)
    (hle : (vnodesOf digest ks weight).length ≤ weight.length * nVnodePerServer) :
    chRingCreateOf qsort digest ks weight = .ok
      { nPoint := weight.length * nVnodePerServer
        nServer := weight.length
        vnodes := (qsort.sort (vnodesOf digest ks weight)).map some ++ List.replicate
          (weight.length * nVnodePerServer - (vnodesOf digest ks weight).length) none } := by
  have hfold : (vnodesOf digest ks weight).foldlM writeVnode
      (List.replicate (weight.length * nVnodePerServer) none, 0) = _ := writeVnode_foldlM [] hle
  unfold chRingCreateOf
  dsimp only
  rw [if_neg (by omega), if_neg fun ⟨hne, h0⟩ => hT hne h0, hfold, List.nil_append]
  have hwritten : ((vnodesOf digest ks weight).map some).length =
      (vnodesOf digest ks weight).length := List.length_map _
  have hreduce : ((vnodesOf digest ks weight).map some).reduceOption = vnodesOf digest ks weight := by
    simp [List.reduceOption]
  simp only [Except.map]
  rw [List.take_left' hwritten, List.drop_left' hwritten, hreduce]

/-- A ring is made when its size is an `int`, there is weight, and all points fit. -/
theorem chRingCreateOf_ok {ring : MemRing} (h : chRingCreateOf qsort digest ks weight = .ok ring) :
    weight.length * nVnodePerServer < 2 ^ 31 ∧ (weight ≠ [] → totalWeight weight ≠ 0) ∧
      (vnodesOf digest ks weight).length ≤ weight.length * nVnodePerServer := by
  unfold chRingCreateOf at h
  dsimp only at h
  split at h
  · cases h
  · next hn =>
    split at h
    · cases h
    · next hT =>
      obtain ⟨st, hst, -⟩ := map_eq_ok h
      have hle := length_le_of_foldlM hst (Nat.zero_le _)
      dsimp only at hle
      rw [List.length_replicate, Nat.zero_add] at hle
      exact ⟨Nat.lt_of_not_le hn, fun hne h0 => hT ⟨hne, h0⟩, hle⟩

theorem chRingCreate_eq (hn : weight.length * nVnodePerServer < 2 ^ 31)
    (hT : totalWeight weight ≠ 0) : chRingCreate qsort digest weight = .ok
      { nPoint := weight.length * nVnodePerServer
        nServer := weight.length
        vnodes := (qsort.sort (ringVnodes digest weight)).map some ++ List.replicate
          (weight.length * nVnodePerServer - (ringVnodes digest weight).length) none } :=
  chRingCreateOf_eq hn (fun _ => hT) (length_ringVnodes_le digest hT)

/-! ## Filling the ring -/

theorem totalWeight_pos (hne : weight ≠ []) (hpos : ∀ w ∈ weight, 0 < w) : totalWeight weight ≠ 0 := by
  obtain ⟨w, hw⟩ := List.exists_mem_of_ne_nil weight hne
  intro h0
  have hw0 := List.sum_eq_zero_iff.mp h0 _ (List.mem_map_of_mem hw)
  have := hpos w hw
  rw [UInt32.lt_iff_toNat_lt, hw0] at this
  exact absurd this (Nat.lt_irrefl 0)

/-- All entries are written exactly if no share is rounded. -/
theorem length_ringVnodes_eq_iff (digest : List Nat → List Nat) (h : totalWeight weight ≠ 0) :
    (ringVnodes digest weight).length = weight.length * nVnodePerServer ↔
      ∀ w ∈ weight, totalWeight weight ∣ w.toNat * (weight.length * (nVnodePerServer / 4)) := by
  have hiff := sum_share_eq_iff (l := weight.map UInt32.toNat)
    (N := weight.length * (nVnodePerServer / 4)) (Nat.pos_of_ne_zero h)
  rw [List.map_map, List.forall_mem_map] at hiff
  have hsum : (weight.map (nHash weight)).sum = weight.length * (nVnodePerServer / 4) ↔
      (ringVnodes digest weight).length = weight.length * nVnodePerServer := by
    rw [length_ringVnodes]
    unfold nVnodePerServer
    omega
  rw [← hsum]
  exact hiff

/-- An entry that was not written would be missing in a filled ring. -/
theorem length_of_filled {ring : MemRing} {l : List VNode}
    (hring : chRingCreate qsort digest weight = .ok ring) (hfilled : ring.Filled weight.length l) :
    weight.length * nVnodePerServer < 2 ^ 31 ∧
      (ringVnodes digest weight).length = weight.length * nVnodePerServer := by
  obtain ⟨hn, hT, hle⟩ := chRingCreateOf_ok hring
  rw [chRingCreate, chRingCreateOf_eq hn hT hle, ← ringVnodes] at hring
  rw [← ringVnodes] at hle
  cases hring
  refine ⟨hn, Nat.le_antisymm hle (Nat.le_of_not_lt fun hlt => ?_)⟩
  have hnone : none ∈ l.map some := by
    rw [← hfilled.vnodes, List.mem_append]
    exact .inr (List.mem_replicate.mpr ⟨by omega, rfl⟩)
  simp at hnone

/-- A ring without rounded shares holds all its entries. -/
theorem chRingCreate_holds (qsort : Qsort) (hne : weight ≠ [])
    (hn : weight.length * nVnodePerServer < 2 ^ 31)
    (hT : totalWeight weight ≠ 0)
    (hlen : (ringVnodes digest weight).length = weight.length * nVnodePerServer) :
    ∃ ring, chRingCreate qsort digest weight = .ok ring ∧
      ring.nPoint = weight.length * nVnodePerServer ∧ ring.nServer = weight.length ∧
      ring.Holds (qsort.sort (ringVnodes digest weight)) := by
  have hvnodes : (qsort.sort (ringVnodes digest weight)).map some ++ List.replicate
      (weight.length * nVnodePerServer - (ringVnodes digest weight).length) none =
      (qsort.sort (ringVnodes digest weight)).map some := by
    rw [hlen, Nat.sub_self, List.replicate_zero, List.append_nil]
  have hpoint : 0 < weight.length * nVnodePerServer :=
    Nat.mul_pos (List.length_pos_iff.mpr hne) (by decide)
  exact ⟨_, chRingCreate_eq hn hT, rfl, rfl, hvnodes,
    (qsort.perm (ringVnodes digest weight)).length_eq.trans hlen, hpoint,
    Nat.lt_trans hn (by decide), qsort.sorted _⟩

/-- **Ring creation.** The ring is filled exactly if its size is an `int`, no share of a server is
rounded, and the search can return for the largest hash. -/
theorem chRingCreate_filled_iff (qsort : Qsort) (digest : List Nat → List Nat)
    (weight : List UInt32) (hne : weight ≠ []) (hpos : ∀ w ∈ weight, 0 < w) :
    (∃ ring l, chRingCreate qsort digest weight = .ok ring ∧ ring.Filled weight.length l) ↔
      weight.length * nVnodePerServer < 2 ^ 31 ∧
      (∀ w ∈ weight, totalWeight weight ∣ w.toNat * (weight.length * (nVnodePerServer / 4))) ∧
      MemRing.Reaches (weight.length * nVnodePerServer)
        ((ringVnodes digest weight).countP fun v => 2 ^ 32 - 1 ≤ v.point) := by
  have hT := totalWeight_pos hne hpos
  have hperm := qsort.perm (ringVnodes digest weight)
  have hbehind : MemRing.nBehind (qsort.sort (ringVnodes digest weight)) (2 ^ 32 - 1) =
      (ringVnodes digest weight).countP fun v => 2 ^ 32 - 1 ≤ v.point := hperm.countP_eq _
  rw [← length_ringVnodes_eq_iff digest hT, ← hbehind]
  constructor
  · rintro ⟨ring, l, hring, hfilled⟩
    obtain ⟨hn, hlen⟩ := length_of_filled hring hfilled
    obtain ⟨ring', hring', hpoint, -, H⟩ := chRingCreate_holds qsort hne hn hT hlen
    obtain rfl : ring = ring' := Except.ok.inj (hring.symm.trans hring')
    have hreach := (MemRing.getVnodeIdx_returns_iff H (hpoint ▸ hn)).mp hfilled.getVnodeIdx
    exact ⟨hn, hlen, hpoint ▸ hreach⟩
  · rintro ⟨hn, hlen, hreach⟩
    have hdvd := (length_ringVnodes_eq_iff digest hT).mp hlen
    obtain ⟨ring, hring, hpoint, hserver, H⟩ := chRingCreate_holds qsort hne hn hT hlen
    have hservers : ∀ v ∈ qsort.sort (ringVnodes digest weight), v.serverId < weight.length := by
      intro v hv
      obtain ⟨w, hw, -⟩ := mem_ringVnodes.mp (hperm.mem_iff.mp hv)
      exact (List.getElem?_eq_some_iff.mp hw).1
    have hidx := (MemRing.getVnodeIdx_returns_iff H (hpoint.symm ▸ hn)).mpr (hpoint.symm ▸ hreach)
    refine ⟨ring, qsort.sort (ringVnodes digest weight), hring, H.vnodes, hpoint, H.length, H.sorted,
      hservers, fun x hx => ?_, hidx, fun hash key n capacity => ?_⟩
    · obtain ⟨w, hw⟩ : ∃ w, weight[x]? = some w := ⟨_, List.getElem?_eq_getElem hx⟩
      have hwmem := List.mem_of_getElem? hw
      have hN : 0 < weight.length * (nVnodePerServer / 4) :=
        Nat.mul_pos (List.length_pos_iff.mpr hne) (by decide)
      have hw0 : 0 < w.toNat := UInt32.lt_iff_toNat_lt.mp (hpos w hwmem)
      have hks : 0 < nHash weight w := share_pos hN hw0 (hdvd w hwmem)
      obtain ⟨v, hv⟩ : ∃ v, v ∈ serverVnodes digest x (nHash weight w) :=
        List.exists_mem_of_length_pos (by rw [length_serverVnodes]; omega)
      obtain rfl := mem_serverVnodes hv
      exact ⟨v, hperm.mem_iff.mpr (mem_ringVnodes.mpr ⟨w, hw, hv⟩), rfl⟩
    · obtain ⟨start, -, hstart⟩ := hidx hash key
      exact MemRing.getServers_ends H (hserver ▸ hservers) hstart n capacity

/-- `qsort` as a stable sort. -/
def stableQsort : Qsort where
  sort l := l.mergeSort fun v w => decide (v.point ≤ w.point)
  perm l := List.mergeSort_perm l _
  sorted l := by
    have h : (l.mergeSort fun v w => decide (v.point ≤ w.point)).Pairwise _ :=
      List.pairwise_mergeSort (fun a b c hab hbc => by simp at *; omega)
        (fun a b => by simp; omega) l
    simpa using h

/-- Two servers with the same weight. -/
theorem equalWeights_filled : ([1, 1] ≠ ([] : List UInt32) ∧ ∀ w ∈ [1, 1], (0 : UInt32) < w) ∧
    ∃ ring l, chRingCreate stableQsort LoadBalancer.md5Sum [1, 1] = .ok ring ∧ ring.Filled 2 l :=
  have hdvd : totalWeight [1, 1] ∣ (1 : UInt32).toNat * (2 * (nVnodePerServer / 4)) := by decide
  ⟨by simp, (chRingCreate_filled_iff stableQsort LoadBalancer.md5Sum [1, 1] (by simp)
    (by simp)).mpr ⟨by decide, List.forall_mem_cons.mpr ⟨hdvd, List.forall_mem_cons.mpr
      ⟨hdvd, List.forall_mem_nil _⟩⟩, MemRing.reaches_of_lt (by decide)⟩⟩

/-- Shares of 26 and 53 of 80 hashes: the last four entries are not written. -/
theorem unequalWeights_not_filled :
    ¬ ∃ ring l, chRingCreate stableQsort LoadBalancer.md5Sum [1, 2] = .ok ring ∧ ring.Filled 2 l := by
  rintro ⟨ring, l, hring, hfilled⟩
  have hlen := (length_of_filled hring hfilled).2
  rw [length_ringVnodes] at hlen
  exact absurd hlen (by decide)

end

end C2DN.Simulator
