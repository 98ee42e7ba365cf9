import Mathlib.Data.List.Dedup
import C2DN.Simulator.ClusterLemmas

/-!
# What `_cache_hit_chunk_obj` finds out

The looks at the servers change no server. After the looks at the mapped servers the counts, the
number of hits and the status of every server are those of the chunk ids that the servers hold
(`Looked`). The looks at further servers only add hits.
-/

namespace C2DN.Simulator.Cluster

section
variable {p : Params} {s : Cluster} {id size : Nat}

/-- The chunk id of the copy on a server, if it is up. -/
def heldChunk (s : Cluster) (id x : Nat) : Option Nat :=
  if (s.servers x).available then ((s.servers x).cache.getObj id).map fun o => o.info.chunkId
  else none

/-- The chunk ids that are found on a list of servers. -/
def heldIds (s : Cluster) (id : Nat) (l : List Nat) : List Nat := l.filterMap (heldChunk s id)

theorem check_eq_none {x : Nat} : (s.servers x).check id = none ↔ heldChunk s id x = none := by
  unfold CacheServer.check heldChunk
  split <;> simp

theorem getChunkId_of_held {x j : Nat} (h : heldChunk s id x = some j) :
    (s.servers x).getChunkId id = .ok j := by
  unfold heldChunk at h
  split at h
  · obtain ⟨o, ho, rfl⟩ := Option.map_eq_some_iff.mp h
    rw [CacheServer.getChunkId, ho]
  · cases h

/-- The status of the `i`th server of a list. -/
def statusAt (s : Cluster) (id : Nat) (idxs : List Nat) (i : Nat) : ChunkStat :=
  match idxs[i]? with
  | none => .hasNotChecked
  | some x =>
    match heldChunk s id x with
    | none => .noChunk
    | some j => if j ∈ heldIds s id (idxs.take i) then .incorrectChunk else .correctChunk

/-- The variables after a look at the servers of a list. -/
structure Looked (p : Params) (s : Cluster) (id : Nat) (idxs : List Nat) (c : ChunkInfo) :
    Prop where
  nodup : idxs.Nodup
  lt : ∀ x ∈ idxs, x < p.nServer
  length : idxs.length ≤ maxEcN
  small : ∀ j ∈ heldIds s id idxs, j < maxEcN
  checked : ∀ x, c.checkedServers x = true ↔ x ∈ idxs
  count : ∀ j, c.chunkCnt j = (heldIds s id idxs).count j
  hits : c.nChunkHit = (heldIds s id idxs).dedup.length
  status : ∀ i, c.status i = statusAt s id idxs i

/-- The servers that can be looked at without a fault. -/
structure Lookable (p : Params) (s : Cluster) (id : Nat) (idxs : List Nat) : Prop where
  nodup : idxs.Nodup
  lt : ∀ x ∈ idxs, x < p.nServer
  length : idxs.length ≤ maxEcN
  small : ∀ j ∈ heldIds s id idxs, j < maxEcN

theorem looked_init : Looked p s id [] (ChunkInfo.init s) where
  nodup := List.nodup_nil
  lt := by simp
  length := Nat.zero_le _
  small := by simp [heldIds]
  checked x := by simp [ChunkInfo.init]
  count j := by simp [ChunkInfo.init, heldIds]
  hits := rfl
  status i := by simp [ChunkInfo.init, statusAt]

theorem heldIds_append_none {idxs : List Nat} {x : Nat} (h : heldChunk s id x = none) :
    heldIds s id (idxs ++ [x]) = heldIds s id idxs := by
  simp [heldIds, h]

theorem heldIds_append_some {idxs : List Nat} {x j : Nat} (h : heldChunk s id x = some j) :
    heldIds s id (idxs ++ [x]) = heldIds s id idxs ++ [j] := by
  simp [heldIds, h]

theorem length_dedup_append {l : List Nat} {j : Nat} :
    (l ++ [j]).dedup.length = l.dedup.length + if j ∈ l then 0 else 1 := by
  rw [(List.perm_append_singleton j l).dedup.length_eq]
  by_cases h : j ∈ l
  · rw [List.dedup_cons_of_mem h, if_pos h]; rfl
  · rw [List.dedup_cons_of_notMem h, if_neg h]; rfl

theorem statusAt_append {idxs : List Nat} {x : Nat} :
    statusAt s id (idxs ++ [x]) = Function.update (statusAt s id idxs) idxs.length
      (match heldChunk s id x with
      | none => .noChunk
      | some j => if j ∈ heldIds s id idxs then .incorrectChunk else .correctChunk) := by
  funext i
  unfold statusAt
  rcases Nat.lt_trichotomy i idxs.length with h | h | h
  · rw [Function.update_of_ne (Nat.ne_of_lt h), List.getElem?_append_left h,
      List.take_append_of_le_length (Nat.le_of_lt h)]
  · subst h
    rw [Function.update_self, List.getElem?_concat_length, List.take_left]
  · rw [Function.update_of_ne (Nat.ne_of_gt h), List.getElem?_eq_none (by simp; omega),
      List.getElem?_eq_none (Nat.le_of_lt h)]

/-- One round of `_get_chunk_info`. -/
theorem getChunkInfo_looked {idxs post : List Nat} {x : Nat} {c : ChunkInfo}
    (H : Looked p s id idxs c) :
    Ends (getChunkInfo p s id size c x idxs.length) (Looked p s id (idxs ++ [x]))
      fun e => NoTypeFault e ∧ ¬ Lookable p s id (idxs ++ x :: post) := by
  unfold getChunkInfo
  refine Ends.guard (fun h => ⟨⟨nofun, nofun⟩, fun hl => ?_⟩) fun hbound =>
    Ends.guard (fun h => ⟨⟨nofun, nofun⟩, fun hl => ?_⟩) fun hnew => ?_
  · rcases h with h | h
    · exact Nat.not_lt.mpr h (hl.lt x (by simp))
    · have := hl.length
      simp only [List.length_append, List.length_cons] at this
      omega
  · have hmem := (H.checked x).mp h
    exact (List.nodup_append.mp hl.nodup).2.2 x hmem x (by simp) rfl
  · have hx : x ∉ idxs := fun hmem => hnew ((H.checked x).mpr hmem)
    have hnodup : (idxs ++ [x]).Nodup := List.nodup_append.mpr ⟨H.nodup, by simp, by
      rintro a ha b hb rfl
      obtain rfl : a = x := by simpa using hb
      exact hx ha⟩
    have hlt : ∀ y ∈ idxs ++ [x], y < p.nServer := by
      intro y hy
      rcases List.mem_append.mp hy with hy | hy
      · exact H.lt y hy
      · rw [List.mem_singleton.mp hy]; omega
    have hlength : (idxs ++ [x]).length ≤ maxEcN := by simp; omega
    have hchecked : ∀ y, Function.update c.checkedServers x true y = true ↔ y ∈ idxs ++ [x] := by
      intro y
      by_cases hyx : y = x
      · simp [hyx]
      · rw [Function.update_of_ne hyx, H.checked]; simp [hyx]
    dsimp only
    by_cases hheld : heldChunk s id x = none
    · rw [if_pos (check_eq_none.mpr hheld)]
      have hids : heldIds s id (idxs ++ [x]) = heldIds s id idxs := heldIds_append_none hheld
      refine ⟨hnodup, hlt, hlength, by rw [hids]; exact H.small, hchecked, ?_, ?_, fun i => ?_⟩
      · rw [hids]; exact H.count
      · rw [hids]; exact H.hits
      · rw [statusAt_append, hheld, ← funext H.status]
    · obtain ⟨j, hj⟩ := Option.ne_none_iff_exists'.mp hheld
      rw [if_neg (fun h => hheld (check_eq_none.mp h)), getChunkId_of_held hj]
      have hids : heldIds s id (idxs ++ [x]) = heldIds s id idxs ++ [j] := heldIds_append_some hj
      refine Ends.guard (fun h => ⟨⟨nofun, nofun⟩, fun hl => ?_⟩) fun hsmall => ?_
      · refine Nat.not_lt.mpr h (hl.small j ?_)
        simp [heldIds, hj]
      · have hzero : c.chunkCnt j = 0 ↔ j ∉ heldIds s id idxs := by
          rw [H.count, List.count_eq_zero]
        refine ⟨hnodup, hlt, hlength, ?_, hchecked, fun i => ?_, ?_, fun i => ?_⟩
        · rw [hids]
          intro i hi
          rcases List.mem_append.mp hi with hi | hi
          · exact H.small i hi
          · rw [List.mem_singleton.mp hi]; omega
        · rw [hids]
          dsimp only [ChunkInfo.found, addAt]
          by_cases hij : i = j
          · subst hij; simp [H.count]
          · rw [Function.update_of_ne hij, H.count]
            simp [List.count_append, Ne.symm hij]
        · rw [hids, length_dedup_append, ← H.hits]
          dsimp only [ChunkInfo.found]
          by_cases hmem : j ∈ heldIds s id idxs
          · rw [if_neg (by rw [hzero]; simpa using hmem), if_pos hmem]; rfl
          · rw [if_pos (hzero.mpr hmem), if_neg hmem]
        · rw [statusAt_append, hj, ← funext H.status]
          dsimp only [ChunkInfo.found]
          by_cases hmem : j ∈ heldIds s id idxs
          · rw [if_neg (by rw [hzero]; simpa using hmem), if_pos hmem]
          · rw [if_pos (hzero.mpr hmem), if_neg hmem]

theorem zipIdx_split {l : List Nat} {pre post : List (Nat × Nat)} {x i : Nat}
    (h : l.zipIdx = pre ++ (x, i) :: post) :
    i = (pre.map Prod.fst).length ∧ l = pre.map Prod.fst ++ x :: post.map Prod.fst := by
  have hget : l.zipIdx[pre.length]? = some (x, i) := by rw [h]; simp
  have hmap := congrArg (List.map Prod.fst) h
  rw [List.zipIdx_map_fst, List.map_append, List.map_cons] at hmap
  refine ⟨?_, hmap⟩
  rw [List.getElem?_zipIdx] at hget
  obtain ⟨a, -, heq⟩ := Option.map_eq_some_iff.mp hget
  rw [List.length_map]
  have := congrArg Prod.snd heq
  dsimp only at this
  omega

/-- **`_get_chunk_info`.** -/
theorem getChunkInfo_loop {idxs : List Nat} :
    Ends (idxs.zipIdx.foldlM (fun c (x, i) => getChunkInfo p s id size c x i) (ChunkInfo.init s))
      (Looked p s id idxs) fun e => NoTypeFault e ∧ ¬ Lookable p s id idxs := by
  have h := Ends.foldlM (l := idxs.zipIdx) (s := ChunkInfo.init s)
    (f := fun c (a : Nat × Nat) => getChunkInfo p s id size c a.1 a.2)
    (E := fun e => NoTypeFault e ∧ ¬ Lookable p s id idxs) (fun pre c => Looked p s id (pre.map Prod.fst) c)
    looked_init ?_
  · rw [List.zipIdx_map_fst] at h
    exact h
  · rintro pre ⟨x, i⟩ post c hl H
    obtain ⟨rfl, hidxs⟩ := zipIdx_split hl
    rw [hidxs, List.map_append]
    exact getChunkInfo_looked H

/-! ## Further servers -/

/-- The chunk ids on further servers that no mapped server holds. -/
def newIds (s : Cluster) (id : Nat) (idxs xs : List Nat) : List Nat :=
  (heldIds s id xs).filter fun j => j ∉ heldIds s id idxs

/-- The variables after looks at the mapped servers and at further servers `xs`. -/
structure LookedOn (s : Cluster) (id : Nat) (idxs xs : List Nat) (c : ChunkInfo) : Prop where
  checked : ∀ x, c.checkedServers x = true ↔ x ∈ idxs ∨ x ∈ xs
  count : ∀ j, c.chunkCnt j = (heldIds s id idxs).count j
  hits : c.nChunkHit = (heldIds s id idxs).dedup.length + (newIds s id idxs xs).length
  status : ∀ i, c.status i = statusAt s id idxs i

theorem Looked.lookedOn {idxs : List Nat} {c : ChunkInfo} (H : Looked p s id idxs c) :
    LookedOn s id idxs [] c :=
  ⟨by simpa using H.checked, H.count, by simpa [newIds, heldIds] using H.hits, H.status⟩

/-- A look at one more server, if it is not one of those before. -/
def consult (idxs xs : List Nat) (x : Nat) : List Nat :=
  if x ∈ idxs ∨ x ∈ xs then xs else xs ++ [x]

/-- The faults of a look at a further server. -/
def ExtraFault (p : Params) (s : Cluster) (id x : Nat) (e : Fault) : Prop :=
  (e = .outOfBounds ∧ (p.nServer ≤ x ∨ ∃ j, heldChunk s id x = some j ∧ maxEcN ≤ j)) ∨
    (e = .notChunk ∧ ∃ o, (s.servers x).cache.getObj id = some o ∧ o.info.objType ≠ .chunkObj)

theorem checkExtra_lookedOn {idxs xs : List Nat} {x : Nat} {c : ChunkInfo}
    (H : LookedOn s id idxs xs c) :
    Ends (checkExtra p s id size c x) (LookedOn s id idxs (consult idxs xs x))
      (ExtraFault p s id x) := by
  unfold checkExtra
  refine Ends.guard (fun h => .inl ⟨rfl, .inl h⟩) fun _ => ?_
  unfold consult
  by_cases hx : x ∈ idxs ∨ x ∈ xs
  · rw [if_pos ((H.checked x).mpr hx), if_pos hx]
    exact H
  · rw [if_neg (fun h => hx ((H.checked x).mp h)), if_neg hx]
    have hchecked : ∀ y, Function.update c.checkedServers x true y = true ↔
        y ∈ idxs ∨ y ∈ xs ++ [x] := by
      intro y
      by_cases hyx : y = x
      · simp [hyx]
      · rw [Function.update_of_ne hyx, H.checked]; simp [hyx]
    dsimp only
    cases hcheck : (s.servers x).check id with
    | none =>
      have hheld := check_eq_none.mp hcheck
      refine ⟨hchecked, H.count, ?_, H.status⟩
      rw [newIds, heldIds_append_none hheld]
      exact H.hits
    | some objType =>
      obtain ⟨j, hj⟩ := Option.ne_none_iff_exists'.mp fun h =>
        Option.some_ne_none objType (hcheck.symm.trans (check_eq_none.mpr h))
      dsimp only
      refine Ends.guard (fun htype => .inr ⟨rfl, ?_⟩) fun _ => ?_
      · unfold CacheServer.check at hcheck
        split at hcheck
        · obtain ⟨o, ho, rfl⟩ := Option.map_eq_some_iff.mp hcheck
          exact ⟨o, ho, htype⟩
        · cases hcheck
      · rw [getChunkId_of_held hj]
        refine Ends.guard (fun h => .inl ⟨rfl, .inr ⟨j, hj, h⟩⟩) fun _ => ?_
        have hnew : newIds s id idxs (xs ++ [x]) =
            newIds s id idxs xs ++ if j ∈ heldIds s id idxs then [] else [j] := by
          rw [newIds, heldIds_append_some hj, List.filter_append, newIds]
          by_cases hmem : j ∈ heldIds s id idxs <;> simp [hmem]
        have hzero : c.chunkCnt j = 0 ↔ j ∉ heldIds s id idxs := by
          rw [H.count, List.count_eq_zero]
        by_cases hmem : j ∈ heldIds s id idxs
        · rw [if_neg (by rw [hzero]; simpa using hmem)]
          refine ⟨hchecked, H.count, ?_, H.status⟩
          rw [hnew, if_pos hmem, List.append_nil]
          exact H.hits
        · rw [if_pos (hzero.mpr hmem)]
          refine ⟨hchecked, H.count, ?_, H.status⟩
          rw [hnew, if_neg hmem, List.length_append, List.length_singleton, ← Nat.add_assoc, ← H.hits]

/-- The servers behind the mapped ones. -/
def extraServers (p : Params) (m : Mapped) : List Nat :=
  (List.range' p.n maxNUnavail).map fun i => m.serverIdxs.getD i 0

/-- The number of hits after looks at further servers `xs`. -/
def hitsWith (p : Params) (s : Cluster) (m : Mapped) (id : Nat) (xs : List Nat) : Nat :=
  (heldIds s id (m.serverIdxs.take p.n)).dedup.length +
    (newIds s id (m.serverIdxs.take p.n) xs).length

/-- The servers behind the mapped ones at which `_cache_hit_chunk_obj` looks. -/
def consultedBehind (p : Params) (s : Cluster) (m : Mapped) (id : Nat) : List Nat :=
  if hitsWith p s m id [] < p.k ∧ (p.checkOneMore || p.parityRebalance) then
    (extraServers p m).foldl (consult (m.serverIdxs.take p.n)) []
  else []

/-- All further servers at which it looks. -/
def consultedExtras (p : Params) (s : Cluster) (m : Mapped) (id : Nat) : List Nat :=
  match s.prevChMapping m.bucketId with
  | some prevServerIdxs =>
    if hitsWith p s m id (consultedBehind p s m id) < p.k ∧ p.parityRebalance then
      consult (m.serverIdxs.take p.n) (consultedBehind p s m id) (prevServerIdxs.getD (p.n - 1) 0)
    else consultedBehind p s m id
  | none => consultedBehind p s m id

/-- The faults of all looks at further servers. -/
def ExtrasFault (p : Params) (s : Cluster) (m : Mapped) (id : Nat) (e : Fault) : Prop :=
  (e = .outOfBounds ∧ (m.serverIdxs.length < p.n + maxNUnavail ∨
    ∃ prev, s.prevChMapping m.bucketId = some prev ∧ prev.length ≤ p.n - 1)) ∨
  ∃ x, (x ∈ extraServers p m ∨ ∃ prev, s.prevChMapping m.bucketId = some prev ∧
    prev.getD (p.n - 1) 0 = x) ∧ ExtraFault p s id x e

theorem checkBehind_lookedOn {m : Mapped} {c : ChunkInfo}
    (H : LookedOn s id (m.serverIdxs.take p.n) [] c) (hlt : hitsWith p s m id [] < p.k) :
    Ends (checkBehind p s m id size c)
      (LookedOn s id (m.serverIdxs.take p.n) (consultedBehind p s m id))
      (ExtrasFault p s m id) := by
  unfold checkBehind consultedBehind
  by_cases hflag : (p.checkOneMore || p.parityRebalance) = true
  · rw [if_pos hflag, if_pos ⟨hlt, hflag⟩, extraServers, List.foldl_map]
    refine Ends.foldlM (fun pre c => LookedOn s id (m.serverIdxs.take p.n)
      (pre.foldl (fun xs i => consult (m.serverIdxs.take p.n) xs (m.serverIdxs.getD i 0)) []) c)
      H ?_
    intro pre i post c hl H
    have hi : i ∈ List.range' p.n maxNUnavail := by rw [hl]; simp
    rw [List.foldl_append]
    change Ends ((idxAt m.serverIdxs i).bind _) _ _
    by_cases hlt : i < m.serverIdxs.length
    · rw [idxAt_of_lt hlt]
      exact (checkExtra_lookedOn H).mono (fun _ h => h) fun e he =>
        .inr ⟨_, .inl (List.mem_map.mpr ⟨i, hi, rfl⟩), he⟩
    · rw [idxAt, List.getElem?_eq_none (Nat.le_of_not_lt hlt)]
      refine .inl ⟨rfl, .inl ?_⟩
      simp only [List.mem_range'_1] at hi
      omega
  · rw [if_neg hflag, if_neg fun h => hflag h.2]
    exact H

theorem checkPrevParity_lookedOn {m : Mapped} {c : ChunkInfo}
    (H : LookedOn s id (m.serverIdxs.take p.n) (consultedBehind p s m id) c) :
    Ends (checkPrevParity p s m id size c)
      (LookedOn s id (m.serverIdxs.take p.n) (consultedExtras p s m id))
      (ExtrasFault p s m id) := by
  unfold checkPrevParity consultedExtras
  cases hprev : s.prevChMapping m.bucketId with
  | none => exact H
  | some prev =>
    have hhits : c.nChunkHit = hitsWith p s m id (consultedBehind p s m id) := H.hits
    dsimp only
    rw [hhits]
    split
    · change Ends ((idxAt prev (p.n - 1)).bind _) _ _
      by_cases hlen : p.n - 1 < prev.length
      · rw [idxAt_of_lt hlen]
        exact (checkExtra_lookedOn H).mono (fun _ h => h) fun e he =>
          .inr ⟨_, .inr ⟨prev, hprev, rfl⟩, he⟩
      · rw [idxAt, List.getElem?_eq_none (Nat.le_of_not_lt hlen)]
        exact .inl ⟨rfl, .inr ⟨prev, hprev, Nat.le_of_not_lt hlen⟩⟩
    · exact H

/-- **The looks at further servers.** -/
theorem checkExtras_lookedOn {m : Mapped} {c : ChunkInfo}
    (H : LookedOn s id (m.serverIdxs.take p.n) [] c) :
    Ends (checkExtras p s m id size c)
      (LookedOn s id (m.serverIdxs.take p.n) (consultedExtras p s m id))
      (ExtrasFault p s m id) := by
  have hhits : c.nChunkHit = hitsWith p s m id [] := H.hits
  unfold checkExtras
  rw [hhits]
  by_cases hlt : hitsWith p s m id [] < p.k
  · rw [if_pos hlt]
    exact (checkBehind_lookedOn H hlt).bind fun c' H' => checkPrevParity_lookedOn H'
  · have hbehind : consultedBehind p s m id = [] := if_neg fun h => hlt h.1
    have hextras : consultedExtras p s m id = [] := by
      unfold consultedExtras
      rw [hbehind]
      split
      · exact if_neg fun h => hlt h.1
      · rfl
    rw [if_neg hlt, hextras]
    exact H

end

end C2DN.Simulator.Cluster
