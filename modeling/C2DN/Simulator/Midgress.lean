import C2DN.Simulator.ChunkHits
import C2DN.Simulator.Ledger

/-!
# The midgress of partial hits

A miss is charged with the object, a partial hit with the missing chunks. The size of a chunk is rounded
up, so `k - 1` missing chunks of a small object can be larger than the object: by `k - 2` bytes at most,
and by nothing when `(k - 1) * ceil(size / k)` is not larger than the size.
-/

namespace C2DN.Simulator.Cluster

/-- `k - 1` chunks of an object with this size are not larger than the object. -/
def Fine (p : Params) (size : Nat) : Prop := (p.k - 1) * p.chunkObjSize size ≤ size

/-- The requests on the chunk path are for objects of such a size. -/
def FineStep (p : Params) (s : Cluster) : Op → Prop
  | .get req d => ∀ m, ChunkPath p s req d m → Fine p req.objSize
  | _ => True

/-- What the requests have been charged with is covered by their bytes, up to `slack` bytes a request. -/
def Covered (slack : Nat) (s : Cluster) : Prop :=
  s.stat.midgressBytes ≤ s.stat.clusterReqBytes + slack * s.stat.clusterReqCnt

section
variable {p : Params} {s s₀ s' : Cluster} {m : Mapped} {req : Request} {d : Draws}

/-! ## Sizes of chunks -/

theorem chunkObjSize_pos (p : Params) (req : Request) (hk : 0 < p.k) :
    0 < p.chunkObjSize req.objSize := by
  have := req.pos
  exact Nat.div_pos (by omega) hk

/-- Rounding adds less than `k` bytes to all chunks, and one chunk has been found. -/
theorem missing_le (p : Params) (req : Request) :
    (p.k - 1) * p.chunkObjSize req.objSize ≤ req.objSize + (p.k - 2) := by
  rcases Nat.eq_zero_or_pos p.k with hk | hk
  · rw [hk]
    omega
  · have hpos := chunkObjSize_pos p req hk
    have hround : p.k * p.chunkObjSize req.objSize ≤ req.objSize + p.k - 1 := Nat.mul_div_le _ _
    rw [Nat.sub_one_mul]
    omega

/-- Objects that are large enough. -/
theorem fine_of_le {size : Nat} (h : (p.k - 1) * (p.k - 2) ≤ size) : Fine p size := by
  have hround : p.k * p.chunkObjSize size ≤ size + p.k - 1 := Nat.mul_div_le _ _
  unfold Fine
  by_cases hc : p.chunkObjSize size ≤ p.k - 2
  · exact (Nat.mul_le_mul_left _ hc).trans h
  · rw [Nat.sub_one_mul]
    omega

/-! ## Requests -/

theorem charge_le (p : Params) (req : Request) {nChunkHit : Nat} (h : 0 < nChunkHit) :
    (p.k - nChunkHit) * p.chunkObjSize req.objSize ≤ (p.k - 1) * p.chunkObjSize req.objSize :=
  Nat.mul_le_mul_right _ (by omega)

/-- What a request adds to the counters: it is charged with no more than the object, or it is on the
chunk path and charged with the chunks that are missing. -/
theorem get_charged {r : Cluster × ClusterHit} (h : s.get p req d = .ok r) : ∃ charge,
    r.1.stat.midgressBytes = s.stat.midgressBytes + charge ∧
    r.1.stat.clusterReqBytes = s.stat.clusterReqBytes + req.objSize ∧
    r.1.stat.clusterReqCnt = s.stat.clusterReqCnt + 1 ∧
    (charge ≤ req.objSize ∨ (∃ m, ChunkPath p s req d m) ∧ 0 < r.2.nChunkHit ∧
      charge = (p.k - r.2.nChunkHit) * p.chunkObjSize req.objSize) := by
  obtain ⟨m, found, hm, hfound, ⟨o, ho, hcounted⟩ | ⟨x, t, rfl, ht, hquiet⟩⟩ := get_cases h
  · obtain ⟨intra, hstat⟩ := hcounted.stat
    refine ⟨o.charge p req r.2.nChunkHit, by rw [hstat], by rw [hstat], by rw [hstat], ?_⟩
    have hpath : o.chunkPath = true → (∃ m, ChunkPath p s req d m) ∧ 0 < r.2.nChunkHit := by
      intro hpath
      have hchunk : found.map Prod.snd = some .chunkObj := by
        cases o with
        | chunkHit | partialHit => exact ho.1
        | fullHit | miss => cases hpath
      obtain ⟨⟨x, t⟩, rfl, rfl⟩ := Option.map_eq_some_iff.mp hchunk
      exact ⟨⟨m, hm, x, hfound⟩, (hcounted.hits hpath).1⟩
    cases o with
    | fullHit => exact .inl (Nat.zero_le _)
    | miss => exact .inl (Nat.le_refl _)
    | chunkHit | partialHit => exact .inr ⟨(hpath rfl).1, (hpath rfl).2, rfl⟩
  · obtain ⟨n, hn⟩ := hquiet.stat
    refine ⟨0, by rw [hn]; rfl, by rw [hn]; rfl, by rw [hn]; rfl, .inl (Nat.zero_le _)⟩

/-- The same counters after a step that serves no request. -/
theorem step_idle {op : Op} (hop : ∀ req d, op ≠ .get req d) (h : step p s op = .ok s') :
    ∃ n, s'.stat = { s.stat with nAvailServer := n } := by
  cases op with
  | get req d => exact absurd rfl (hop req d)
  | failOneServer x => exact (failOneServer_keepsCounts h).stat
  | recoverOneServer x => exact (recoverOneServer_keepsCounts h).stat
  | populateHashMapping => exact (populateHashMapping_keepsCounts h).stat

theorem covered_step {slack : Nat} {op : Op} (H : Covered slack s)
    (hop : ∀ req d r, op = .get req d → s.get p req d = .ok r →
      r.1.stat.midgressBytes ≤ s.stat.midgressBytes + (req.objSize + slack))
    (h : step p s op = .ok s') : Covered slack s' := by
  unfold Covered at H ⊢
  by_cases hget : ∃ req d, op = .get req d
  · obtain ⟨req, d, rfl⟩ := hget
    obtain ⟨hit, hr⟩ := get_of_step h
    have hmid := hop req d _ rfl hr
    obtain ⟨-, -, hbytes, hcnt, -⟩ := get_charged hr
    dsimp only at hmid hbytes hcnt
    rw [hbytes, hcnt, Nat.mul_succ]
    omega
  · obtain ⟨n, hn⟩ := step_idle (fun req d heq => hget ⟨req, d, heq⟩) h
    rw [hn]
    exact H

theorem new_covered (hnew : new p = .ok s₀) (slack : Nat) : Covered slack s₀ := by
  obtain ⟨n, hn⟩ := (populateHashMapping_keepsCounts hnew).stat
  unfold Covered
  rw [hn]
  exact Nat.zero_le _

/-- A request is charged with at most `k - 2` bytes more than the object has, and with no more than the
object if its size is fine or it is not on the chunk path. -/
theorem get_midgress {r : Cluster × ClusterHit} (h : s.get p req d = .ok r) :
    r.1.stat.midgressBytes ≤ s.stat.midgressBytes + (req.objSize + (p.k - 2)) ∧
      (FineStep p s (.get req d) → r.1.stat.midgressBytes ≤ s.stat.midgressBytes + req.objSize) := by
  obtain ⟨charge, hmid, -, -, hle | ⟨⟨m, hpath⟩, hhit, hcharge⟩⟩ := get_charged h
  · rw [hmid]
    omega
  · have hmissing := charge_le p req hhit
    have hround := missing_le p req
    rw [hmid, hcharge]
    refine ⟨by omega, fun hfine => ?_⟩
    have hfine : (p.k - 1) * p.chunkObjSize req.objSize ≤ req.objSize := hfine m hpath
    omega

/-- **Midgress.** In every reachable state a request on the chunk path is charged with at most `k - 2`
bytes more than a miss, and with no more than a miss if the size of the object is fine, as every size
from `(k - 1) * (k - 2)` on is. So along every run the midgress is covered by the requested bytes, with
`k - 2` further bytes a request, or without if all sizes on the chunk path are fine. -/
theorem midgress_le_run {ops : List Op} (hnew : new p = .ok s₀) (hrun : run p ops s₀ = .ok s) :
    (∀ req d m r, ChunkPath p s req d m → s.get p req d = .ok r →
      r.1.stat.midgressBytes ≤ s.stat.midgressBytes + (req.objSize + (p.k - 2)) ∧
      (Fine p req.objSize → r.1.stat.midgressBytes ≤ s.stat.midgressBytes + req.objSize)) ∧
    (∀ size, (p.k - 1) * (p.k - 2) ≤ size → Fine p size) ∧
    s.stat.midgressBytes ≤ s.stat.clusterReqBytes + (p.k - 2) * s.stat.clusterReqCnt ∧
    (Steps (step p) (fun s op _ => FineStep p s op) ops s₀ →
      s.stat.midgressBytes ≤ s.stat.clusterReqBytes) := by
  refine ⟨fun req d m r hpath hr => ?_, fun size => fine_of_le, ?_, fun hfine => ?_⟩
  · obtain ⟨hle, hfine⟩ := get_midgress hr
    exact ⟨hle, fun h => hfine fun m' _ => h⟩
  · exact inv_of_run (I := Covered (p.k - 2)) (fun s op s' H h =>
      covered_step H (fun req d r _ hr => (get_midgress hr).1) h) (new_covered hnew _) hrun
  · have hcovered : Covered 0 s := Steps.inv_of_run (I := Covered 0)
      (C := fun s op _ => FineStep p s op) (fun s op s' H h hop => covered_step H
        (fun req d r heq hr => (get_midgress hr).2 (heq ▸ hop)) h) (new_covered hnew 0) hfine hrun
    unfold Covered at hcovered
    omega

end

/-! ## One chunk is left

An object is stored in four chunks, and three of their servers fail. -/

def smallReq : Request := .ofSize 0 5 (.refl true)

def fineReq : Request := .ofSize 0 8 (.refl true)

def failThree (req : Request) : List Op :=
  [.get req ⟨0, 0, 0⟩, .failOneServer 1, .failOneServer 2, .failOneServer 3, .populateHashMapping]

/-- The states before and after the failures, what the next request finds, and the state after it. -/
def leftOutcome (p : Params) (req : Request) :
    Except Fault (Cluster × Cluster × Mapped × Option (Nat × ObjType) × Cluster × ClusterHit) := do
  let s₀ ← new p
  let s ← run p (failThree req) s₀
  let m ← findMappedServers p s req ⟨0, 0, 0⟩
  let found ← s.findObj p m req.objId
  let r ← s.get p req ⟨0, 0, 0⟩
  .ok (s₀, s, m, found, r)

theorem leftOutcome_eq_ok {p : Params} {req : Request}
    {r : Cluster × Cluster × Mapped × Option (Nat × ObjType) × Cluster × ClusterHit}
    (h : leftOutcome p req = .ok r) : new p = .ok r.1 ∧ run p (failThree req) r.1 = .ok r.2.1 ∧
      findMappedServers p r.2.1 req ⟨0, 0, 0⟩ = .ok r.2.2.1 ∧
      findObj p r.2.1 r.2.2.1 req.objId = .ok r.2.2.2.1 ∧
      r.2.1.get p req ⟨0, 0, 0⟩ = .ok r.2.2.2.2 := by
  obtain ⟨s₀, hs₀, h⟩ := bind_eq_ok h
  obtain ⟨s, hs, h⟩ := bind_eq_ok h
  obtain ⟨m, hm, h⟩ := bind_eq_ok h
  obtain ⟨found, hfound, h⟩ := bind_eq_ok h
  obtain ⟨r', hr', h⟩ := bind_eq_ok h
  cases h
  exact ⟨hs₀, hs, hm, hfound, hr'⟩

set_option maxRecDepth 100000 in
/-- 8 bytes in chunks of 2: the request is charged with 6 bytes. -/
theorem fineReq_midgress_le : ∃ s₀ s r, new (lineParams .c2dn 5 4 10 (by decide)) = .ok s₀ ∧
    run (lineParams .c2dn 5 4 10 (by decide)) (failThree fineReq) s₀ = .ok s ∧
    s.get (lineParams .c2dn 5 4 10 (by decide)) fineReq ⟨0, 0, 0⟩ = .ok r ∧
    s.stat.midgressBytes = 8 ∧ r.1.stat.midgressBytes = 14 ∧
    r.1.stat.midgressBytes ≤ s.stat.midgressBytes + 8 := by
  obtain ⟨r, hr, hq⟩ := exists_ok_of_any
    (q := fun r : Cluster × Cluster × Mapped × Option (Nat × ObjType) × Cluster × ClusterHit =>
      decide (r.2.2.2.1 = some (0, .chunkObj) ∧ r.2.1.stat.midgressBytes = 8 ∧
        r.2.2.2.2.1.stat.midgressBytes = 14))
    (x := leftOutcome (lineParams .c2dn 5 4 10 (by decide)) fineReq) (by decide +kernel)
  obtain ⟨hs₀, hs, hm, hfound, hget⟩ := leftOutcome_eq_ok hr
  obtain ⟨hchunk, hbefore, hafter⟩ := of_decide_eq_true hq
  rw [hchunk] at hfound
  obtain ⟨hpath, -⟩ := midgress_le_run hs₀ hs
  exact ⟨r.1, r.2.1, r.2.2.2.2, hs₀, hs, hget, hbefore, hafter,
    (hpath _ _ _ _ ⟨hm, 0, hfound⟩ hget).2 (by unfold Fine; decide)⟩

set_option maxRecDepth 100000 in
/-- 5 bytes in chunks of 2: the request is charged with 6 bytes. -/
theorem smallReq_midgress_gt : ∃ s₀ s m r, new (lineParams .c2dn 5 4 10 (by decide)) = .ok s₀ ∧
    run (lineParams .c2dn 5 4 10 (by decide)) (failThree smallReq) s₀ = .ok s ∧
    ChunkPath (lineParams .c2dn 5 4 10 (by decide)) s smallReq ⟨0, 0, 0⟩ m ∧
    s.get (lineParams .c2dn 5 4 10 (by decide)) smallReq ⟨0, 0, 0⟩ = .ok r ∧
    s.stat.midgressBytes + smallReq.objSize < r.1.stat.midgressBytes ∧
    r.1.stat.clusterReqBytes < r.1.stat.midgressBytes := by
  obtain ⟨r, hr, hq⟩ := exists_ok_of_any
    (q := fun r : Cluster × Cluster × Mapped × Option (Nat × ObjType) × Cluster × ClusterHit =>
      decide (r.2.2.2.1 = some (0, .chunkObj) ∧
        r.2.1.stat.midgressBytes + smallReq.objSize < r.2.2.2.2.1.stat.midgressBytes ∧
        r.2.2.2.2.1.stat.clusterReqBytes < r.2.2.2.2.1.stat.midgressBytes))
    (x := leftOutcome (lineParams .c2dn 5 4 10 (by decide)) smallReq) (by decide +kernel)
  obtain ⟨hs₀, hs, hm, hfound, hget⟩ := leftOutcome_eq_ok hr
  obtain ⟨hchunk, hcharge, htotal⟩ := of_decide_eq_true hq
  rw [hchunk] at hfound
  exact ⟨r.1, r.2.1, r.2.2.1, r.2.2.2.2, hs₀, hs, ⟨hm, 0, hfound⟩, hget, hcharge, htotal⟩

end C2DN.Simulator.Cluster
