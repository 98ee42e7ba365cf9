import C2DN.Simulator.GetLemmas

/-!
# The number of chunk hits

`n_chunk_hit` is the number of different chunk ids on the servers at which a request looks, unless
two of the further servers hold the same new id: a look at one of them does not count the id that it
finds. Then a request can be a hit with less than `k` different chunks.
-/

namespace C2DN.Simulator.Cluster

section
variable {p : Params} {s s' : Cluster} {m : Mapped} {id : Nat}

theorem perm_dedup_append {l l' : List Nat} :
    (l ++ l').dedup.Perm (l.dedup ++ (l'.filter fun j => j ∉ l).dedup) := by
  refine (List.perm_ext_iff_of_nodup (List.nodup_dedup _) ?_).mpr fun j => ?_
  · refine List.nodup_append.mpr ⟨List.nodup_dedup _, List.nodup_dedup _, ?_⟩
    rintro a ha b hb rfl
    rw [List.mem_dedup] at ha hb
    simp [ha] at hb
  · simp only [List.mem_dedup, List.mem_append, List.mem_filter, decide_eq_true_eq]
    constructor
    · rintro (h | h)
      · exact .inl h
      · by_cases hj : j ∈ l
        · exact .inl hj
        · exact .inr ⟨h, hj⟩
    · rintro (h | h)
      · exact .inl h
      · exact .inr h.1

theorem length_dedup_eq_iff {l : List Nat} : l.length = l.dedup.length ↔ l.Nodup := by
  constructor
  · intro h
    rw [← List.dedup_eq_self]
    exact (List.dedup_sublist l).eq_of_length h.symm
  · intro h
    rw [h.dedup]

/-- All servers at which `_cache_hit_chunk_obj` looks. -/
def consulted (p : Params) (s : Cluster) (m : Mapped) (id : Nat) : List Nat :=
  m.serverIdxs.take p.n ++ consultedExtras p s m id

/-- The different chunk ids that they hold. -/
def foundIds (p : Params) (s : Cluster) (m : Mapped) (id : Nat) : List Nat :=
  (heldIds s id (consulted p s m id)).dedup

theorem hits_eq_iff : hitsWith p s m id (consultedExtras p s m id) = (foundIds p s m id).length ↔
    (newIds s id (m.serverIdxs.take p.n) (consultedExtras p s m id)).Nodup := by
  rw [foundIds, consulted, heldIds, List.filterMap_append, perm_dedup_append.length_eq,
    List.length_append]
  exact (Nat.add_right_inj).trans length_dedup_eq_iff

/-- A request is served on the chunk path. -/
def ChunkPath (p : Params) (s : Cluster) (req : Request) (d : Draws) (m : Mapped) : Prop :=
  findMappedServers p s req d = .ok m ∧ ∃ x, s.findObj p m req.objId = .ok (some (x, .chunkObj))

/-- The chunk hits of a call are the different chunk ids on the servers at which it looks. -/
def CountExact (p : Params) (s : Cluster) : Op → Prop
  | .get req d => ∀ m r, ChunkPath p s req d m → s.get p req d = .ok r →
    r.2.nChunkHit = (foundIds p s m req.objId).length
  | _ => True

/-- There are `k` different chunks when a call is a hit. -/
def HitSound (p : Params) (s : Cluster) : Op → Prop
  | .get req d => ∀ m r, ChunkPath p s req d m → s.get p req d = .ok r → r.2.isHit = true →
    p.k ≤ (foundIds p s m req.objId).length
  | _ => True

/-- No two of the further servers hold the same chunk id that is not on the mapped servers. -/
def NoRepeats (p : Params) (s : Cluster) : Op → Prop
  | .get req d => ∀ m, ChunkPath p s req d m →
    (newIds s req.objId (m.serverIdxs.take p.n) (consultedExtras p s m req.objId)).Nodup
  | _ => True

/-- What `get` returns on the chunk path. -/
theorem get_of_chunkPath {req : Request} {d : Draws} {r : Cluster × ClusterHit}
    (hpath : ChunkPath p s req d m) (h : s.get p req d = .ok r) :
    r.2.nChunkHit = hitsWith p s m req.objId (consultedExtras p s m req.objId) ∧
      r.2.isHit = decide (p.k ≤ r.2.nChunkHit) := by
  obtain ⟨hm, x, hx⟩ := hpath
  obtain ⟨m', hm', hserved⟩ := get_ends.ok h
  obtain rfl := Except.ok.inj (hm.symm.trans hm')
  generalize r.1 = s', r.2 = hit at hserved
  cases hserved with
  | chunkHit found hit same => exact ⟨hit.hits, hit.isHit⟩
  | fullHit found _ _ | refused found _ _ | fullMiss found _ _ _ | chunkMiss found _ _ =>
    rw [hx] at found; cases found
  | uncounted found unknown _ =>
    rw [hx] at found
    cases found
    rcases unknown with h | h <;> cases h

/-- **Chunk hits.** At every step of a run the count is exact if and only if the further servers do
not repeat a new chunk id, and then hits have `k` different chunks. -/
theorem run_countExact_iff (ops : List Op) (s : Cluster) :
    Steps (step p) (fun s op _ => (CountExact p s op ↔ NoRepeats p s op) ∧
      (NoRepeats p s op → HitSound p s op)) ops s := by
  refine Steps.of_forall fun s op s' hstep => ?_
  cases op with
  | get req d =>
    obtain ⟨hit, hr⟩ := get_of_step hstep
    refine ⟨⟨fun h m hpath => ?_, fun h m r' hpath hr' => ?_⟩, fun h m r' hpath hr' hhit => ?_⟩
    · rw [← hits_eq_iff, ← (get_of_chunkPath hpath hr).1]
      exact h m _ hpath hr
    · rw [(get_of_chunkPath hpath hr').1]
      exact hits_eq_iff.mpr (h m hpath)
    · obtain ⟨hhits, hisHit⟩ := get_of_chunkPath hpath hr'
      rw [hhit, hhits, hits_eq_iff.mpr (h m hpath)] at hisHit
      exact of_decide_eq_true hisHit.symm
  | failOneServer | recoverOneServer | populateHashMapping => exact ⟨Iff.rfl, fun _ => trivial⟩

end

/-! ## A repeated chunk

The chunk with id 1 is stored on server 5 while servers 1 to 4 are down. Then server 4 is up and
server 5 is down, and the chunk is restored on server 4. When all servers are up, the servers 0 to 3
serve the object, and both 4 and 5 are looked at. -/

/-- Object 0 with three chunks of ten bytes. -/
def repeatedReq : Request := .ofSize 0 30 (.refl true)

def repeatedTrace : List Op :=
  [.failOneServer 1, .failOneServer 2, .failOneServer 3, .failOneServer 4, .populateHashMapping,
    .get repeatedReq ⟨0, 0, 0⟩,
    .recoverOneServer 4, .failOneServer 5, .populateHashMapping,
    .get repeatedReq ⟨0, 0, 0⟩,
    .recoverOneServer 1, .recoverOneServer 2, .recoverOneServer 3, .recoverOneServer 5,
    .populateHashMapping]

/-- What the request after the trace finds: its type, whether it is a hit, `n_chunk_hit` and the
number of different chunks. -/
def repeatedOutcome (p : Params) : Except Fault (Option (Nat × ObjType) × Bool × Nat × Nat) := do
  let s₀ ← new p
  let s ← run p repeatedTrace s₀
  let m ← findMappedServers p s repeatedReq ⟨0, 0, 0⟩
  let found ← s.findObj p m 0
  let r ← s.get p repeatedReq ⟨0, 0, 0⟩
  .ok (found, r.2.isHit, r.2.nChunkHit, (foundIds p s m 0).length)

theorem not_exact_of_outcome {p : Params}
    (h : repeatedOutcome p = .ok (some (0, .chunkObj), true, 3, 2)) (hk : p.k = 3) :
    ∃ s₀ s, new p = .ok s₀ ∧ run p repeatedTrace s₀ = .ok s ∧
      ¬ CountExact p s (.get repeatedReq ⟨0, 0, 0⟩) ∧
      ¬ HitSound p s (.get repeatedReq ⟨0, 0, 0⟩) := by
  obtain ⟨s₀, hs₀, h⟩ := bind_eq_ok h
  obtain ⟨s, hs, h⟩ := bind_eq_ok h
  obtain ⟨m, hm, h⟩ := bind_eq_ok h
  obtain ⟨found, hfound, h⟩ := bind_eq_ok h
  obtain ⟨r, hr, h⟩ := bind_eq_ok h
  obtain ⟨rfl, hhit, hcount, hids⟩ : found = some (0, .chunkObj) ∧ r.2.isHit = true ∧
      r.2.nChunkHit = 3 ∧ (foundIds p s m 0).length = 2 := by
    simpa using Except.ok.inj h
  refine ⟨s₀, s, hs₀, hs, fun h => ?_, fun h => ?_⟩
  · have h := h m r ⟨hm, 0, hfound⟩ hr
    rw [hcount] at h
    exact absurd (h.trans hids) (by decide)
  · have h := h m r ⟨hm, 0, hfound⟩ hr hhit
    rw [hk] at h
    exact absurd (Nat.le_trans h (Nat.le_of_eq hids)) (by decide)

set_option maxRecDepth 100000 in
/-- A hit with two of three chunks. -/
theorem repeatedTrace_not_exact : ∃ s₀ s, new (lineParams .c2dn 4 3 10 (by decide)) = .ok s₀ ∧
    run (lineParams .c2dn 4 3 10 (by decide)) repeatedTrace s₀ = .ok s ∧
    ¬ CountExact (lineParams .c2dn 4 3 10 (by decide)) s (.get repeatedReq ⟨0, 0, 0⟩) ∧
    ¬ HitSound (lineParams .c2dn 4 3 10 (by decide)) s (.get repeatedReq ⟨0, 0, 0⟩) :=
  not_exact_of_outcome (eq_ok_of_toOption (by decide +kernel)) rfl

end C2DN.Simulator.Cluster
