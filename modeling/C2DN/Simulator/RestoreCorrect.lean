import C2DN.Simulator.Restore

/-!
# Chunk restoration is correct

On different servers that are up and hold chunk ids below `n`, `_cache_hit_chunk_obj` leaves all
chunks on the mapped servers if it returns. It returns when the further servers at which it looks
are valid and evictions do not reach the chunks that it writes.
-/

namespace C2DN.Simulator.Cluster

open CacheServer

section
variable {p : Params} {s s' : Cluster} {m : Mapped} {id size : Nat}

/-- The chunks of an object can be restored on the mapped servers. -/
structure Restorable (p : Params) (s : Cluster) (m : Mapped) (id size : Nat) : Prop where
  ecn : p.n ≤ maxEcN
  length : p.n ≤ m.serverIdxs.length
  nodup : (m.serverIdxs.take p.n).Nodup
  lt : ∀ x ∈ m.serverIdxs.take p.n, x < p.nServer
  available : ∀ x ∈ m.serverIdxs.take p.n, (s.servers x).available = true
  small : ∀ j ∈ heldIds s id (m.serverIdxs.take p.n), j < p.n
  pos : 0 < size
  fits : ∀ x ∈ m.serverIdxs.take p.n, size ≤ (s.servers x).cache.cacheSize

theorem Restorable.lookable (H : Restorable p s m id size) :
    Lookable p s id (m.serverIdxs.take p.n) :=
  ⟨H.nodup, H.lt, by rw [length_mapped H.length]; exact H.ecn,
    fun j hj => Nat.lt_of_lt_of_le (H.small j hj) H.ecn⟩

theorem Restorable.of_same {s₁ : Cluster} (hsame : SameServers s s₁)
    (H : Restorable p s m id size) : Restorable p s₁ m id size := by
  obtain ⟨servers, mapping, prev, _, _, _, _, _, _⟩ := s₁
  obtain ⟨rfl, rfl, rfl⟩ := hsame
  exact ⟨H.ecn, H.length, H.nodup, H.lt, H.available, H.small, H.pos, H.fits⟩

/-- The place of a write. -/
theorem lt_of_mem_zip (hlen : p.n ≤ m.serverIdxs.length) {ij : Nat × Nat}
    (hij : ij ∈ (wrongAt s id (m.serverIdxs.take p.n)).zip
      (missingIds s id (m.serverIdxs.take p.n))) : ij.1 < p.n := by
  have hi := List.mem_range.mp (List.mem_filter.mp (List.of_mem_zip hij).1).1
  rwa [length_mapped hlen] at hi

/-! ## Faults -/

/-- The writes end with an assert of a cache, if at all. -/
theorem restoreAt_fault (H : Restorable p s m id size) {s₁ : Cluster} (hsame : SameServers s s₁) :
    Ends (((wrongAt s id (m.serverIdxs.take p.n)).zip
      (missingIds s id (m.serverIdxs.take p.n))).foldlM (restoreAt p m id size) s₁)
      (fun _ => True) fun e => e = .objectLost ∨ e = .nullPointer := by
  have h := Ends.foldlM (s := s₁) (f := restoreAt p m id size)
    (E := fun e => e = .objectLost ∨ e = .nullPointer)
    (l := (wrongAt s id (m.serverIdxs.take p.n)).zip (missingIds s id (m.serverIdxs.take p.n)))
    (fun _ s' => ∀ x, (s'.servers x).available = (s.servers x).available)
    (fun x => by rw [hsame.servers]) ?_
  · exact h.imp fun _ _ => trivial
  · intro pre ij post s' hl hav
    have hij : ij ∈ (wrongAt s id (m.serverIdxs.take p.n)).zip
        (missingIds s id (m.serverIdxs.take p.n)) := by rw [hl]; simp
    have hmem := mem_mapped_of_lt H.length (lt_of_mem_zip H.length hij)
    cases hres : restoreAt p m id size s' ij with
    | ok s'' =>
      intro x
      rw [(restoreAt_effect hres).writes.available, hav]
    | error e =>
      unfold restoreAt storeChunk at hres
      have hup : (s'.servers (m.serverIdxs.getD ij.1 0)).available = true := by
        rw [hav, H.available _ hmem]
      rcases put_fault (onServer_eq_error (H.lt _ hmem) hres) with h | h | ⟨-, hdown⟩
      · exact .inl h
      · exact .inr h
      · rw [hup] at hdown; cases hdown

theorem fault_of_extrasFault {e : Fault} (h : ExtrasFault p s m id e) :
    e = .outOfBounds ∨ e = .notChunk := by
  rcases h with ⟨rfl, -⟩ | ⟨x, -, ⟨rfl, -⟩ | ⟨rfl, -⟩⟩
  · exact .inl rfl
  · exact .inl rfl
  · exact .inr rfl

/-! ## Returns -/

/-- All further servers that may be looked at. -/
def furtherServers (p : Params) (s : Cluster) (m : Mapped) : List Nat :=
  extraServers p m ++ ((s.prevChMapping m.bucketId).map fun prev => prev.getD (p.n - 1) 0).toList

/-- The further servers can be looked at. -/
structure Further (p : Params) (s : Cluster) (m : Mapped) (id : Nat) : Prop where
  length : p.n + maxNUnavail ≤ m.serverIdxs.length
  prev : ∀ prev ∈ s.prevChMapping m.bucketId, p.n - 1 < prev.length
  lt : ∀ x ∈ furtherServers p s m, x < p.nServer
  chunk : ∀ x ∈ furtherServers p s m, ∀ o ∈ (s.servers x).cache.getObj id,
    o.info.objType = .chunkObj ∧ o.info.chunkId < maxEcN

theorem Further.not_extrasFault (H : Further p s m id) {e : Fault} : ¬ ExtrasFault p s m id e := by
  rintro (⟨-, hlen | ⟨prev, hprev, hlen⟩⟩ | ⟨x, hx, hfault⟩)
  · have := H.length
    omega
  · have := H.prev prev hprev
    omega
  · have hmem : x ∈ furtherServers p s m := by
      rcases hx with hx | ⟨prev, hprev, rfl⟩
      · exact List.mem_append_left _ hx
      · exact List.mem_append_right _ (by simp [hprev])
    rcases hfault with ⟨-, hle | ⟨j, hj, hle⟩⟩ | ⟨-, o, ho, hne⟩
    · exact absurd (H.lt x hmem) (Nat.not_lt.mpr hle)
    · unfold heldChunk at hj
      split at hj
      · obtain ⟨o, ho, rfl⟩ := Option.map_eq_some_iff.mp hj
        exact absurd (H.chunk x hmem o ho).2 (Nat.not_lt.mpr hle)
      · cases hj
    · exact hne (H.chunk x hmem o ho).1

theorem Further.of_same {s₁ : Cluster} (hsame : SameServers s s₁) (H : Further p s m id) :
    Further p s₁ m id := by
  obtain ⟨servers, mapping, prev, _, _, _, _, _, _⟩ := s₁
  obtain ⟨rfl, rfl, rfl⟩ := hsame
  exact ⟨H.length, H.prev, H.lt, H.chunk⟩

theorem length_newIds_le {idxs xs : List Nat} : (newIds s id idxs xs).length ≤ xs.length :=
  Nat.le_trans (List.length_filter_le _ _) (List.length_filterMap_le _ _)

theorem length_consult_le {idxs xs : List Nat} {x : Nat} :
    (consult idxs xs x).length ≤ xs.length + 1 := by
  unfold consult
  split <;> simp

theorem length_foldl_consult_le {idxs xs l : List Nat} :
    (l.foldl (consult idxs) xs).length ≤ xs.length + l.length := by
  induction l generalizing xs with
  | nil => simp
  | cons x l ih =>
    calc (l.foldl (consult idxs) (consult idxs xs x)).length
        ≤ (consult idxs xs x).length + l.length := ih
      _ ≤ xs.length + 1 + l.length := Nat.add_le_add_right length_consult_le _
      _ = xs.length + (x :: l).length := by rw [List.length_cons]; omega

theorem length_newIds_consult_le {idxs xs : List Nat} {x : Nat} :
    (newIds s id idxs (consult idxs xs x)).length ≤ (newIds s id idxs xs).length + 1 := by
  unfold consult
  split
  · exact Nat.le_succ _
  · simp only [newIds, heldIds, List.filterMap_append, List.filter_append, List.length_append]
    refine Nat.add_le_add_left (Nat.le_trans (List.length_filter_le _ _) ?_) _
    exact List.length_filterMap_le _ _

theorem hitsWith_eq {xs : List Nat} : hitsWith p s m id xs =
    hitsWith p s m id [] + (newIds s id (m.serverIdxs.take p.n) xs).length := rfl

theorem hitsWith_nil_le : hitsWith p s m id [] ≤ p.n :=
  calc hitsWith p s m id []
      ≤ (heldIds s id (m.serverIdxs.take p.n)).length := (List.dedup_sublist _).length_le
    _ ≤ (m.serverIdxs.take p.n).length := List.length_filterMap_le _ _
    _ ≤ p.n := List.length_take_le _ _

theorem hitsWith_behind_le (hk : p.k < p.n) :
    hitsWith p s m id (consultedBehind p s m id) ≤ p.n := by
  unfold consultedBehind
  split
  · next hlt =>
    have hnew : (newIds s id (m.serverIdxs.take p.n)
        ((extraServers p m).foldl (consult (m.serverIdxs.take p.n)) [])).length ≤ maxNUnavail :=
      Nat.le_trans length_newIds_le (Nat.le_trans length_foldl_consult_le (by simp [extraServers]))
    rw [hitsWith_eq]
    have : maxNUnavail = 2 := rfl
    omega
  · exact hitsWith_nil_le

/-- There are never more than `n` hits. -/
theorem hits_le (hk : p.k < p.n) : hitsWith p s m id (consultedExtras p s m id) ≤ p.n := by
  unfold consultedExtras
  split
  · split
    · next prev _ hlt =>
      have hnew : (newIds s id (m.serverIdxs.take p.n) (consult (m.serverIdxs.take p.n)
          (consultedBehind p s m id) (prev.getD (p.n - 1) 0))).length ≤ _ :=
        length_newIds_consult_le
      have := hlt.1
      rw [hitsWith_eq] at this ⊢
      omega
    · exact hitsWith_behind_le hk
  · exact hitsWith_behind_le hk

theorem hits_pos {x : Nat} (hx : x ∈ m.serverIdxs.take p.n) (hheld : heldChunk s id x ≠ none)
    {xs : List Nat} : 0 < hitsWith p s m id xs := by
  obtain ⟨j, hj⟩ := Option.ne_none_iff_exists'.mp hheld
  have hmem := List.mem_dedup.mpr (mem_heldIds.mpr ⟨x, hx, hj⟩)
  have := List.length_pos_of_mem hmem
  rw [hitsWith]
  omega

/-- The writes return if no eviction reaches their chunks. -/
theorem restoreAt_returns (H : Restorable p s m id size) {s₁ : Cluster} (hsame : SameServers s s₁)
    (hsafe : ∀ i ∈ wrongAt s id (m.serverIdxs.take p.n),
      (s.servers (m.serverIdxs.getD i 0)).cache.Safe id size) :
    ∃ s', ((wrongAt s id (m.serverIdxs.take p.n)).zip
      (missingIds s id (m.serverIdxs.take p.n))).foldlM (restoreAt p m id size) s₁ = .ok s' := by
  refine foldlM_returns (w := restoreWrite m size)
    (Q := fun x c => x < p.nServer ∧ c.available = true ∧ c.cache.Safe id size)
    (fun s ij s' _ h => restoreAt_effect h) ?_ ?_ ?_
  · intro ij hij
    have hmem := mem_mapped_of_lt H.length (lt_of_mem_zip H.length hij)
    rw [hsame.servers]
    exact ⟨H.lt _ hmem, H.available _ hmem, hsafe _ (List.of_mem_zip hij).1⟩
  · rintro s ij - ⟨hlt, hav, hsafe⟩
    obtain ⟨c, hc⟩ := put_ok (f := chunkInfo ij.2) (t := .unknownCache) (by decide) hav hsafe
    exact onServer_returns (f := fun c => c.putChunk id size ij.2 .unknownCache) hlt hc
  · have hnodup : ((restoreWrites p s m id size).map Write.server).Nodup :=
      nodup_restoreWrites H.length H.nodup H.small
    rwa [restoreWrites, List.map_map] at hnodup

theorem cacheHitChunkObj_returns {req : Request}
    (H : Restorable p s m req.objId (p.chunkObjSize req.objSize)) (hserver : p.nServer ≤ maxNServer)
    (hk : p.k < p.n) (hfurther : Further p s m req.objId)
    (hheld : ∃ x ∈ m.serverIdxs.take p.n, heldChunk s req.objId x ≠ none)
    (hsafe : ∀ i ∈ wrongAt s req.objId (m.serverIdxs.take p.n),
      (s.servers (m.serverIdxs.getD i 0)).cache.Safe req.objId (p.chunkObjSize req.objSize)) :
    ∃ r, cacheHitChunkObj p s m req = .ok r := by
  cases hres : cacheHitChunkObj p s m req with
  | ok r => exact ⟨r, rfl⟩
  | error e =>
    exfalso
    obtain ⟨x, hx, hheld⟩ := hheld
    rcases cacheHitChunkObj_ends.error hres with
      hextra | ⟨-, ⟨-, h | h | h | h⟩ | hlook | ⟨j, hj, hle⟩ | ⟨s₁, hsame, hloop⟩⟩
    · exact hfurther.not_extrasFault hextra
    · omega
    · exact absurd H.length (Nat.not_le.mpr h)
    · exact absurd h (Nat.ne_of_gt (hits_pos hx hheld))
    · exact absurd (hits_le hk) (Nat.not_le.mpr h)
    · exact hlook H.lookable
    · exact absurd (H.small j hj) (Nat.not_lt.mpr hle)
    · obtain ⟨s', hs'⟩ := restoreAt_returns H hsame hsafe
      rw [hloop] at hs'
      cases hs'

/-- **Chunk restoration.** The scan for a server finds one, and afterwards the mapped servers have
all chunks. -/
theorem cacheHitChunkObj_restores (req : Request)
    (H : Restorable p s m req.objId (p.chunkObjSize req.objSize)) :
    Ends (cacheHitChunkObj p s m req)
      (fun r => Restored s req.objId (m.serverIdxs.take p.n) r.1)
      (fun e => e = .outOfBounds ∨ e = .notChunk ∨ e = .objectLost ∨ e = .nullPointer) ∧
    (p.nServer ≤ maxNServer → p.k < p.n → Further p s m req.objId →
      (∃ x ∈ m.serverIdxs.take p.n, heldChunk s req.objId x ≠ none) →
      (∀ x ∈ m.serverIdxs.take p.n,
        (s.servers x).cache.Safe req.objId (p.chunkObjSize req.objSize)) →
      ∃ r, cacheHitChunkObj p s m req = .ok r) := by
  refine ⟨cacheHitChunkObj_ends.mono (fun r h => ?_) fun e h => ?_, fun hserver hk hfurther hheld
    hsafe => ?_⟩
  · exact restored_of_effect H.length H.nodup H.small H.ecn H.available h.effect
  · rcases h with hextra | ⟨-, ⟨rfl, -⟩ | hlook | ⟨j, hj, hle⟩ | ⟨s₁, hsame, hloop⟩⟩
    · exact (fault_of_extrasFault hextra).imp_right .inl
    · exact .inl rfl
    · exact absurd H.lookable hlook
    · exact absurd (H.small j hj) (Nat.not_lt.mpr hle)
    · exact .inr (.inr ((restoreAt_fault H hsame).error hloop))
  · refine cacheHitChunkObj_returns H hserver hk hfurther hheld fun i hi => ?_
    have hi := List.mem_range.mp (List.mem_filter.mp hi).1
    rw [length_mapped H.length] at hi
    exact hsafe _ (mem_mapped_of_lt H.length hi)

end

/-- Restored servers hold every chunk once. -/
theorem Restored.perm_heldIds {s s' : Cluster} {id : Nat} {idxs : List Nat}
    (H : Restored s id idxs s') : (heldIds s' id idxs).Perm (List.range idxs.length) := by
  have h := H.perm.filterMap fun j => j
  rw [List.filterMap_map, List.filterMap_map] at h
  simpa [heldIds, Function.comp_def] using h

/-- A server with a chunk of object 0. -/
def chunkServer (j : Nat) : CacheServer :=
  ⟨((Cache.init .lru 100).holding 0 10).setInfo 0 (chunkInfo j), true⟩

/-- Chunk 1 twice, no copy, and chunk 3 on the first servers of a cluster. -/
def scattered : Cluster where
  servers i := if i ≤ 1 then chunkServer 1 else if i = 3 then chunkServer 3 else
    ⟨Cache.init .lru 100, true⟩
  chMapping _ := some (List.range 6)
  prevChMapping _ := none
  oriLeadMapping _ := 0
  nBucketPerServer _ := 0
  objFreqMap _ := 0
  readLoadByte _ := 0
  writeLoadByte _ := 0
  stat := ⟨10, 0, 0, 0, 0, 0, 0, 0, 0, fun _ => 0, 0, 0⟩
  bucketStat _ := ⟨0, 0, 0, 0⟩

theorem scattered_restores :
    ∃ r, cacheHitChunkObj (lineParams .c2dn 4 3 10 (by decide)) scattered
        ⟨0, List.range 6, 0, 0, 1⟩ ⟨0, 30, 0, by decide, by decide⟩ = .ok r ∧
      Restored scattered 0 (List.range 4) r.1 := by
  have H : Restorable (lineParams .c2dn 4 3 10 (by decide)) scattered ⟨0, List.range 6, 0, 0, 1⟩ 0
      10 := ⟨by decide, by decide, by decide, by decide, by decide, by decide, by decide, by decide⟩
  obtain ⟨hends, hreturns⟩ :=
    cacheHitChunkObj_restores ⟨0, 30, 0, by decide, by decide⟩ H
  obtain ⟨r, hr⟩ := hreturns (by decide) (by decide)
    ⟨by decide, by decide, by decide, by decide⟩ ⟨0, by decide, by decide⟩
    fun x hx => ⟨H.fits x hx, .inl (by revert x; decide)⟩
  exact ⟨r, hr, hends.ok hr⟩

end C2DN.Simulator.Cluster
