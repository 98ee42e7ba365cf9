import Mathlib.Logic.Function.Basic
import C2DN.Simulator.Cache

/-!
# The consistent hash ring

`ch_ring_get_vnode_idx` and `ch_ring_get_servers`. The ring is any list of virtual nodes of the
servers; `hash` is `get_hash_value_int_64`. The bounds of the search are integers without a limit;
`C2DN.Simulator.MemRing` has the `int`s of the source, which agree on rings below `2 ^ 30` points.
-/

namespace C2DN.Simulator

structure VNode where
  point : Nat
  serverId : Nat

/-- A ring of `n_point` virtual nodes. -/
structure Ring (nServer : Nat) where
  vnodes : List VNode
  ne : vnodes ≠ []
  servers : ∀ v ∈ vnodes, v.serverId < nServer

namespace Ring
variable {nServer : Nat}

def nPoint (ring : Ring nServer) : Nat := ring.vnodes.length

def point (ring : Ring nServer) (i : Nat) : Nat := ((ring.vnodes[i]?).map VNode.point).getD 0

/-- The server of `vnodes[i % n_point]`. -/
def serverAt (ring : Ring nServer) (i : Nat) : Nat :=
  ((ring.vnodes[i % ring.nPoint]?).map VNode.serverId).getD 0

/-- The search of `ch_ring_get_vnode_idx`, which halves `lowp .. highp` in every round. -/
def search (ring : Ring nServer) (h : Nat) : Nat → Int → Int → Nat
  | 0, _, _ => 0
  | fuel + 1, lowp, highp =>
    let midp := ((lowp + highp).tdiv 2).toNat
    if midp = ring.nPoint then 0
    else
      let midval := ring.point midp
      let midvalPrev := if midp = 0 then 0 else ring.point (midp - 1)
      if h ≤ midval ∧ midvalPrev < h then midp
      else
        let lowp' : Int := if midval < h then midp + 1 else lowp
        let highp' : Int := if midval < h then highp else midp - 1
        if highp' < lowp' then 0 else ring.search h fuel lowp' highp'

def getVnodeIdx (hash : Nat → Nat) (ring : Ring nServer) (key : Nat) : Nat :=
  ring.search (hash key % 2 ^ 32) (ring.nPoint + 2) 0 ring.nPoint

/-- The loop variables of `ch_ring_get_servers`. -/
structure Walk where
  retIdxs : List Nat
  checkedServer : Nat → Bool
  capacity : Nat → Nat

/-- One round of the loop. -/
def Walk.visit (w : Walk) (serverId : Nat) : Walk :=
  let w :=
    if w.checkedServer serverId = false ∧ 0 < w.capacity serverId then
      { w with
        retIdxs := w.retIdxs ++ [serverId]
        capacity := Function.update w.capacity serverId (w.capacity serverId - 1) }
    else w
  { w with checkedServer := Function.update w.checkedServer serverId true }

/-- `while (i < n)`: it ends with `abort()` when `vnode_pos` has passed all points. -/
def walk (ring : Ring nServer) (n start : Nat) : Nat → Nat → Walk → Except Fault Walk
  | 0, _, _ => .error .ringExhausted
  | fuel + 1, vnodePos, w =>
    if n ≤ w.retIdxs.length then .ok w
    else
      let w := w.visit (ring.serverAt (start + vnodePos))
      if ring.nPoint < vnodePos + 1 then .error .ringExhausted
      else ring.walk n start fuel (vnodePos + 1) w

/-- `ch_ring_get_servers`: the servers, the lead server without regard to capacities, and what is
left of the capacities. -/
def getServers (hash : Nat → Nat) (ring : Ring nServer) (key n : Nat) (capacity : Nat → Nat) :
    Except Fault (List Nat × Nat × (Nat → Nat)) :=
  let start := ring.getVnodeIdx hash key
  (ring.walk n start (ring.nPoint + 2) 0 ⟨[], fun _ => false, capacity⟩).map fun w =>
    (w.retIdxs, ring.serverAt start, w.capacity)

/-! ## What `ch_ring_get_servers` returns -/

theorem serverAt_lt (ring : Ring nServer) (i : Nat) : ring.serverAt i < nServer := by
  have hpos : 0 < ring.nPoint := List.length_pos_iff.mpr ring.ne
  have hlt : i % ring.nPoint < ring.vnodes.length := Nat.mod_lt _ hpos
  rw [serverAt, List.getElem?_eq_getElem hlt]
  exact ring.servers _ (List.getElem_mem hlt)

/-- The picked servers are different servers that had capacity left; no capacity grows. -/
structure Walk.Inv (nServer : Nat) (capacity : Nat → Nat) (w : Walk) : Prop where
  nodup : w.retIdxs.Nodup
  checked : ∀ x ∈ w.retIdxs, w.checkedServer x = true
  lt : ∀ x ∈ w.retIdxs, x < nServer
  picked : ∀ x ∈ w.retIdxs, 0 < capacity x
  shrinks : ∀ x, w.capacity x ≤ capacity x

theorem Walk.Inv.visit {capacity : Nat → Nat} {w : Walk} (H : w.Inv nServer capacity) {x : Nat}
    (hx : x < nServer) : (w.visit x).Inv nServer capacity := by
  unfold Walk.visit
  dsimp only
  split
  · next h =>
    have hnew : x ∉ w.retIdxs := fun hmem => by
      have := H.checked x hmem
      rw [h.1] at this
      cases this
    refine ⟨?_, fun y hy => ?_, fun y hy => ?_, fun y hy => ?_, fun y => ?_⟩
    · exact List.nodup_append.mpr ⟨H.nodup, by simp, by
        rintro a ha b hb rfl
        obtain rfl : a = x := by simpa using hb
        exact hnew ha⟩
    all_goals dsimp only at *
    · by_cases hyx : y = x
      · simp [hyx]
      · rw [Function.update_of_ne hyx]
        exact H.checked y ((List.mem_append.mp hy).resolve_right (by simpa using hyx))
    · rcases List.mem_append.mp hy with hy | hy
      · exact H.lt y hy
      · rw [List.mem_singleton.mp hy]; exact hx
    · rcases List.mem_append.mp hy with hy | hy
      · exact H.picked y hy
      · rw [List.mem_singleton.mp hy]
        exact Nat.lt_of_lt_of_le h.2 (H.shrinks x)
    · by_cases hyx : y = x
      · subst hyx
        rw [Function.update_self]
        exact Nat.le_trans (Nat.sub_le _ _) (H.shrinks y)
      · rw [Function.update_of_ne hyx]
        exact H.shrinks y
  · refine ⟨H.nodup, fun y hy => ?_, H.lt, H.picked, H.shrinks⟩
    dsimp only at *
    by_cases hyx : y = x
    · simp [hyx]
    · rw [Function.update_of_ne hyx]
      exact H.checked y hy

theorem walk_inv {ring : Ring nServer} {n start fuel pos : Nat} {capacity : Nat → Nat} {w w' : Walk}
    (H : w.Inv nServer capacity) (hle : w.retIdxs.length ≤ n)
    (h : ring.walk n start fuel pos w = .ok w') :
    w'.Inv nServer capacity ∧ w'.retIdxs.length = n := by
  induction fuel generalizing pos w with
  | zero => cases h
  | succ fuel ih =>
    rw [walk] at h
    split at h
    · next hn =>
      cases h
      exact ⟨H, Nat.le_antisymm hle hn⟩
    · next hn =>
      dsimp only at h
      split at h
      · cases h
      · refine ih (H.visit (ring.serverAt_lt _)) ?_ h
        unfold Walk.visit
        dsimp only
        split
        · simp; omega
        · exact hle

/-- `ch_ring_get_servers` returns `n` different servers with capacity. -/
theorem getServers_spec {ring : Ring nServer} {hash : Nat → Nat} {key n lead : Nat}
    {capacity capacity' : Nat → Nat} {idxs : List Nat}
    (h : ring.getServers hash key n capacity = .ok (idxs, lead, capacity')) :
    idxs.length = n ∧ idxs.Nodup ∧ (∀ x ∈ idxs, x < nServer ∧ 0 < capacity x) ∧
      ∀ x, capacity' x ≤ capacity x := by
  unfold getServers at h
  dsimp only at h
  cases hw : ring.walk n (ring.getVnodeIdx hash key) (ring.nPoint + 2) 0
      ⟨[], fun _ => false, capacity⟩ with
  | error e => rw [hw] at h; cases h
  | ok w =>
    rw [hw] at h
    cases h
    have H₀ : Walk.Inv nServer capacity ⟨[], fun _ => false, capacity⟩ :=
      ⟨List.nodup_nil, by simp, by simp, by simp, fun _ => Nat.le_refl _⟩
    obtain ⟨H, hlen⟩ := walk_inv H₀ (Nat.zero_le n) hw
    exact ⟨hlen, H.nodup, fun x hx => ⟨H.lt x hx, H.picked x hx⟩, H.shrinks⟩

end Ring

end C2DN.Simulator
