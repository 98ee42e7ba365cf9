import Mathlib.Data.List.GetD
import C2DN.Simulator.ChunkInfo

/-!
# Chunk restoration

The loop that restores missing chunks has a cursor on the missing chunk ids and one on the servers
without a correct chunk. It is the loop over both lists in parallel (`restoreChunk_loop`), and the
lists have the same length: the servers with a correct chunk hold every present chunk id once
(`correctIds`). So afterwards the servers hold all chunk ids.
-/

namespace C2DN.Simulator.Cluster

open CacheServer

section
variable {p : Params} {s s' : Cluster} {m : Mapped} {id size : Nat} {c : ChunkInfo}

/-! ## The two cursors -/

/-- The servers from the `i`th on that have no correct chunk. -/
def wrongFrom (status : Nat → ChunkStat) (n i : Nat) : List Nat :=
  (List.range' i (n - i)).filter fun i => status i ≠ .correctChunk

theorem range'_cons {i n : Nat} (h : i < n) :
    List.range' i (n - i) = i :: List.range' (i + 1) (n - (i + 1)) := by
  rw [show n - i = (n - (i + 1)) + 1 by omega, List.range'_succ]

theorem wrongFrom_of_correct {status : Nat → ChunkStat} {n i : Nat} (h : i < n)
    (hc : status i = .correctChunk) : wrongFrom status n i = wrongFrom status n (i + 1) := by
  rw [wrongFrom, range'_cons h, List.filter_cons_of_neg (by simp [hc])]; rfl

theorem wrongFrom_of_wrong {status : Nat → ChunkStat} {n i : Nat} (h : i < n)
    (hc : status i ≠ .correctChunk) : wrongFrom status n i = i :: wrongFrom status n (i + 1) := by
  rw [wrongFrom, range'_cons h, List.filter_cons_of_pos (by simpa using hc)]; rfl

theorem le_of_scan {status : Nat → ChunkStat} {fuel i a : Nat}
    (h : scan status fuel i = .ok a) : i ≤ a := by
  induction fuel generalizing i with
  | zero => cases h
  | succ fuel ih =>
    rw [scan] at h
    split at h
    · exact Nat.le_of_succ_le (ih h)
    · cases h; exact Nat.le_refl _

/-- The scan stops at the first server without a correct chunk. -/
theorem scan_eq_ok {status : Nat → ChunkStat} {n fuel i a : Nat}
    (h : scan status fuel i = .ok a) (ha : a < n) :
    wrongFrom status n i = a :: wrongFrom status n (a + 1) := by
  induction fuel generalizing i with
  | zero => cases h
  | succ fuel ih =>
    rw [scan] at h
    split at h
    · next hc =>
      have := le_of_scan h
      rw [wrongFrom_of_correct (by omega) hc]
      exact ih h
    · next hc =>
      cases h
      exact wrongFrom_of_wrong ha hc

theorem scan_of_wrong {status : Nat → ChunkStat} {n i a : Nat} {rest : List Nat}
    (hn : n ≤ maxEcN) (h : wrongFrom status n i = a :: rest) :
    scan status (maxEcN - i) i = .ok a ∧ a < n := by
  generalize hd : n - i = d
  induction d generalizing i with
  | zero => rw [wrongFrom, hd] at h; cases h
  | succ d ih =>
    have hlt : i < n := by omega
    rw [show maxEcN - i = (maxEcN - (i + 1)) + 1 by omega, scan]
    by_cases hc : status i = .correctChunk
    · rw [if_pos hc]
      rw [wrongFrom_of_correct hlt hc] at h
      exact ih h (by omega)
    · rw [if_neg hc]
      rw [wrongFrom_of_wrong hlt hc] at h
      cases h
      exact ⟨rfl, hlt⟩

/-- The missing chunk ids of a list. -/
def missing (c : ChunkInfo) (js : List Nat) : List Nat := js.filter fun j => c.chunkCnt j = 0

/-- The write that restores chunk `ij.2` on the `ij.1`th server. -/
def restoreWrite (m : Mapped) (size : Nat) (ij : Nat × Nat) : Write :=
  ⟨m.serverIdxs.getD ij.1 0, size, chunkInfo ij.2⟩

/-- The write of one round. -/
def restoreAt (p : Params) (m : Mapped) (id size : Nat) (s : Cluster) (ij : Nat × Nat) :
    Except Fault Cluster :=
  storeChunk p id size .unknownCache s (m.serverIdxs.getD ij.1 0) ij.2

theorem restoreAt_effect {ij : Nat × Nat} (h : restoreAt p m id size s ij = .ok s') :
    Effect p id [restoreWrite m size ij] s s' :=
  onServer_effect (w := restoreWrite m size ij) (t := .unknownCache) h

/-- A loop that returns has written the missing chunks to the servers without a correct one. -/
theorem restore_effect {js : List Nat} {i i' : Nat}
    (h : js.foldlM (restoreChunk p m id size c) (s, i) = .ok (s', i')) :
    Effect p id (((wrongFrom c.status p.n i).zip (missing c js)).map (restoreWrite m size)) s s' ∧
      (missing c js).length ≤ (wrongFrom c.status p.n i).length := by
  induction js generalizing s i with
  | nil =>
    cases h
    simp only [missing, List.filter_nil, List.zip_nil_right, List.map_nil, List.length_nil,
      Nat.zero_le, and_true]
    exact SameServers.effect ⟨rfl, rfl, rfl⟩
  | cons j js ih =>
    rw [List.foldlM_cons] at h
    obtain ⟨⟨s₁, i₁⟩, hround, h⟩ := bind_eq_ok h
    obtain ⟨heff, hlen⟩ := ih h
    unfold restoreChunk at hround
    split at hround
    · cases hround
    · split at hround
      · next hzero =>
        obtain ⟨a, ha, hround⟩ := bind_eq_ok hround
        split at hround
        · cases hround
        · next han =>
          obtain ⟨x, hx, hround⟩ := bind_eq_ok hround
          obtain ⟨s₂, hs₂, hround⟩ := bind_eq_ok hround
          cases hround
          rw [← getD_of_idxAt hx] at hs₂
          have hwrite : Effect p id [restoreWrite m size (a, j)] s s₁ := restoreAt_effect hs₂
          rw [scan_eq_ok ha (Nat.lt_of_not_le han), missing, List.filter_cons_of_pos (by simpa using hzero)]
          exact ⟨hwrite.trans heff, Nat.succ_le_succ hlen⟩
      · next hzero =>
        cases hround
        rw [missing, List.filter_cons_of_neg (by simpa using hzero)]
        exact ⟨heff, hlen⟩

/-- The round of a missing chunk. -/
theorem restoreChunk_of_missing {i j a : Nat} (hj : j < maxEcN) (hzero : c.chunkCnt j = 0)
    (hscan : scan c.status (maxEcN - i) i = .ok a) (ha : a < p.n)
    (hidx : p.n ≤ m.serverIdxs.length) :
    restoreChunk p m id size c (s, i) j =
      (restoreAt p m id size s (a, j)).map fun s => (s, a + 1) := by
  rw [restoreChunk, if_neg (Nat.not_le.mpr hj), if_pos hzero]
  dsimp only
  rw [hscan]
  change (if p.n ≤ a then _ else _) = _
  rw [if_neg (Nat.not_le.mpr ha), idxAt_of_lt (Nat.lt_of_lt_of_le ha hidx)]
  change (storeChunk p id size .unknownCache s (m.serverIdxs.getD a 0) j).bind _ = _
  unfold restoreAt
  cases storeChunk p id size .unknownCache s (m.serverIdxs.getD a 0) j <;> rfl

/-- The loop as a loop over both lists, if there are enough servers. -/
theorem restoreChunk_loop {js : List Nat} {i : Nat} (hn : p.n ≤ maxEcN)
    (hidx : p.n ≤ m.serverIdxs.length) (hjs : ∀ j ∈ js, j < maxEcN)
    (hlen : (missing c js).length ≤ (wrongFrom c.status p.n i).length) :
    (js.foldlM (restoreChunk p m id size c) (s, i)).map Prod.fst =
      ((wrongFrom c.status p.n i).zip (missing c js)).foldlM (restoreAt p m id size) s := by
  induction js generalizing s i with
  | nil => simp [missing, pure, Except.pure, Except.map]
  | cons j js ih =>
    have hj := hjs j List.mem_cons_self
    have hjs' := fun j hj => hjs j (List.mem_cons_of_mem _ hj)
    rw [List.foldlM_cons]
    by_cases hzero : c.chunkCnt j = 0
    · rw [missing, List.filter_cons_of_pos (by simpa using hzero)] at hlen ⊢
      cases hw : wrongFrom c.status p.n i with
      | nil => rw [hw] at hlen; simp at hlen
      | cons a rest =>
        obtain ⟨hscan, ha⟩ := scan_of_wrong hn hw
        have hrest : rest = wrongFrom c.status p.n (a + 1) := by
          have := scan_eq_ok hscan ha
          rw [hw] at this
          exact (List.cons.inj this).2
        rw [hw] at hlen
        subst hrest
        rw [restoreChunk_of_missing hj hzero hscan ha hidx, List.zip_cons_cons, List.foldlM_cons]
        cases restoreAt p m id size s (a, j) with
        | error e => rfl
        | ok s₁ => exact ih hjs' (Nat.le_of_succ_le_succ hlen)
    · rw [missing, List.filter_cons_of_neg (by simpa using hzero)] at hlen ⊢
      rw [restoreChunk, if_neg (Nat.not_le.mpr hj), if_neg hzero]
      exact ih hjs' hlen

/-! ## The count of servers and chunk ids -/

/-- The places of the servers with a correct chunk. -/
def correctAt (s : Cluster) (id : Nat) (idxs : List Nat) : List Nat :=
  (List.range idxs.length).filter fun i => statusAt s id idxs i = .correctChunk

/-- The places of the others. -/
def wrongAt (s : Cluster) (id : Nat) (idxs : List Nat) : List Nat :=
  (List.range idxs.length).filter fun i => statusAt s id idxs i ≠ .correctChunk

/-- The chunk ids below `n` that no server holds. -/
def missingIds (s : Cluster) (id : Nat) (idxs : List Nat) : List Nat :=
  (List.range idxs.length).filter fun j => j ∉ heldIds s id idxs

theorem statusAt_eq_correct {idxs : List Nat} {i : Nat} :
    statusAt s id idxs i = .correctChunk ↔ ∃ x j, idxs[i]? = some x ∧
      heldChunk s id x = some j ∧ j ∉ heldIds s id (idxs.take i) := by
  unfold statusAt
  constructor
  · intro h
    split at h
    · cases h
    · next x hx =>
      split at h
      · cases h
      · next j hj =>
        split at h
        · cases h
        · next hmem => exact ⟨x, j, hx, hj, hmem⟩
  · rintro ⟨x, j, hx, hj, hmem⟩
    rw [hx]
    dsimp only
    rw [hj]
    exact if_neg hmem

theorem mem_heldIds {l : List Nat} {j : Nat} :
    j ∈ heldIds s id l ↔ ∃ x ∈ l, heldChunk s id x = some j := List.mem_filterMap

/-- The `i`th server of a list, as the code indexes it. -/
theorem getD_of_getElem? {idxs : List Nat} {i x : Nat} (h : idxs[i]? = some x) :
    idxs.getD i 0 = x := by
  rw [List.getD_eq_getElem?_getD, h, Option.getD_some]

/-- Correct chunks have different ids. -/
theorem nodup_correct {idxs : List Nat} :
    ((correctAt s id idxs).map fun i => heldChunk s id (idxs.getD i 0)).Nodup := by
  have hlt : ∀ {i i'}, i < i' → i ∈ correctAt s id idxs → i' ∈ correctAt s id idxs →
      heldChunk s id (idxs.getD i 0) ≠ heldChunk s id (idxs.getD i' 0) := by
    intro i i' hii hi hi' heq
    obtain ⟨x, j, hx, hj, -⟩ := statusAt_eq_correct.mp (by simpa using (List.mem_filter.mp hi).2)
    obtain ⟨x', j', hx', hj', hmem⟩ :=
      statusAt_eq_correct.mp (by simpa using (List.mem_filter.mp hi').2)
    rw [getD_of_getElem? hx, getD_of_getElem? hx', hj, hj'] at heq
    obtain rfl := Option.some.inj heq
    refine hmem (mem_heldIds.mpr ⟨x, ?_, hj⟩)
    exact List.mem_of_getElem? ((List.getElem?_take_of_lt hii).trans hx)
  refine List.Nodup.map_on (fun i hi i' hi' heq => ?_) (List.nodup_range.filter _)
  rcases Nat.lt_trichotomy i i' with h | h | h
  · exact absurd heq (hlt h hi hi')
  · exact h
  · exact absurd heq.symm (hlt h hi' hi)

/-- Every present chunk id has a first server, whose chunk is correct. -/
theorem exists_correct {idxs : List Nat} {j : Nat} (h : j ∈ heldIds s id idxs) :
    ∃ i ∈ correctAt s id idxs, heldChunk s id (idxs.getD i 0) = some j := by
  obtain ⟨x, hx, hj⟩ := mem_heldIds.mp h
  have hlt : idxs.findIdx (fun x => heldChunk s id x = some j) < idxs.length :=
    List.findIdx_lt_length_of_exists ⟨x, hx, by simpa using hj⟩
  have hfirst := List.findIdx_getElem (w := hlt)
  simp only [decide_eq_true_eq] at hfirst
  have hget := List.getElem?_eq_getElem hlt
  refine ⟨_, List.mem_filter.mpr ⟨List.mem_range.mpr hlt, ?_⟩, ?_⟩
  · rw [decide_eq_true_eq, statusAt_eq_correct]
    refine ⟨_, j, hget, hfirst, fun hmem => ?_⟩
    obtain ⟨y, hy, hyj⟩ := mem_heldIds.mp hmem
    obtain ⟨k, hk, rfl⟩ := List.mem_iff_getElem.mp hy
    rw [List.length_take] at hk
    rw [List.getElem_take] at hyj
    have hlt' : k < idxs.findIdx (fun x => heldChunk s id x = some j) := by omega
    have hnot := List.not_of_lt_findIdx hlt'
    simp [hyj] at hnot
  · rw [getD_of_getElem? hget]
    exact hfirst

/-- The ids of the correct chunks and the missing ids are all chunk ids. -/
theorem perm_chunkIds {idxs : List Nat} (hsmall : ∀ j ∈ heldIds s id idxs, j < idxs.length) :
    (((correctAt s id idxs).map fun i => heldChunk s id (idxs.getD i 0)) ++
      (missingIds s id idxs).map some).Perm ((List.range idxs.length).map some) := by
  have hheld : ∀ i ∈ correctAt s id idxs, ∃ j ∈ heldIds s id idxs,
      heldChunk s id (idxs.getD i 0) = some j := by
    intro i hi
    obtain ⟨x, j, hx, hj, -⟩ := statusAt_eq_correct.mp (by simpa using (List.mem_filter.mp hi).2)
    exact ⟨j, mem_heldIds.mpr ⟨x, List.mem_of_getElem? hx, hj⟩, by rw [getD_of_getElem? hx, hj]⟩
  have hinj : Function.Injective (some : Nat → Option Nat) := fun _ _ => Option.some.inj
  refine (List.perm_ext_iff_of_nodup ?_ (List.nodup_range.map hinj)).mpr fun y => ?_
  · refine List.nodup_append.mpr ⟨nodup_correct, (List.nodup_range.filter _).map hinj, ?_⟩
    rintro a ha b hb rfl
    obtain ⟨i, hi, rfl⟩ := List.mem_map.mp ha
    obtain ⟨j, hj, heq⟩ := List.mem_map.mp hb
    obtain ⟨j', hj', heq'⟩ := hheld i hi
    rw [heq'] at heq
    obtain rfl := Option.some.inj heq
    have := (List.mem_filter.mp hj).2
    simp [hj'] at this
  · simp only [List.mem_append, List.mem_map, List.mem_range]
    constructor
    · rintro (⟨i, hi, rfl⟩ | ⟨j, hj, rfl⟩)
      · obtain ⟨j, hj, heq⟩ := hheld i hi
        exact ⟨j, hsmall j hj, heq.symm⟩
      · exact ⟨j, List.mem_range.mp (List.mem_filter.mp hj).1, rfl⟩
    · rintro ⟨j, hj, rfl⟩
      by_cases hmem : j ∈ heldIds s id idxs
      · exact .inl (exists_correct hmem)
      · exact .inr ⟨j, List.mem_filter.mpr ⟨List.mem_range.mpr hj, by simpa using hmem⟩, rfl⟩

theorem perm_places (s : Cluster) (id : Nat) (idxs : List Nat) :
    (correctAt s id idxs ++ wrongAt s id idxs).Perm (List.range idxs.length) := by
  have h := List.filter_append_perm (fun i => decide (statusAt s id idxs i = .correctChunk))
    (List.range idxs.length)
  simpa [correctAt, wrongAt] using h

/-- The cursors run out together. -/
theorem length_wrongAt {idxs : List Nat} (hsmall : ∀ j ∈ heldIds s id idxs, j < idxs.length) :
    (wrongAt s id idxs).length = (missingIds s id idxs).length := by
  have h₁ := (perm_chunkIds hsmall).length_eq
  have h₂ := (perm_places s id idxs).length_eq
  simp only [List.length_append, List.length_map] at h₁ h₂
  omega

theorem LookedOn.missing_eq {idxs xs : List Nat} (H : LookedOn s id idxs xs c) :
    missing c (List.range idxs.length) = missingIds s id idxs :=
  List.filter_congr fun j _ => by simp [H.count, List.count_eq_zero]

theorem LookedOn.wrongFrom_eq {idxs xs : List Nat} (H : LookedOn s id idxs xs c) :
    wrongFrom c.status idxs.length 0 = wrongAt s id idxs := by
  rw [wrongFrom, Nat.sub_zero, ← List.range_eq_range', wrongAt, ← funext H.status]

/-! ## `_cache_hit_chunk_obj` -/

/-- The writes of missing chunks to servers without a correct one. -/
def restoreWrites (p : Params) (s : Cluster) (m : Mapped) (id size : Nat) : List Write :=
  ((wrongAt s id (m.serverIdxs.take p.n)).zip (missingIds s id (m.serverIdxs.take p.n))).map
    (restoreWrite m size)

/-- What `_cache_hit_chunk_obj` has done where it returns. -/
structure ChunkHit (p : Params) (s : Cluster) (m : Mapped) (id size : Nat)
    (r : Cluster × Bool × Nat) : Prop where
  nServer : p.nServer ≤ maxNServer
  length : p.n ≤ m.serverIdxs.length
  lookable : Lookable p s id (m.serverIdxs.take p.n)
  hits : r.2.2 = hitsWith p s m id (consultedExtras p s m id)
  isHit : r.2.1 = decide (p.k ≤ r.2.2)
  pos : 0 < r.2.2
  le : r.2.2 ≤ p.n
  effect : Effect p id (restoreWrites p s m id size) s r.1

/-- What has gone wrong where it does not return. -/
def HitFault (p : Params) (s : Cluster) (m : Mapped) (id size : Nat) (e : Fault) : Prop :=
  ExtrasFault p s m id e ∨ NoTypeFault e ∧
    (e = .outOfBounds ∧ (maxNServer < p.nServer ∨ m.serverIdxs.length < p.n ∨
      hitsWith p s m id (consultedExtras p s m id) = 0 ∨
      p.n < hitsWith p s m id (consultedExtras p s m id)) ∨
    ¬ Lookable p s id (m.serverIdxs.take p.n) ∨
    (∃ j ∈ heldIds s id (m.serverIdxs.take p.n), p.n ≤ j) ∨
    ∃ s₁, SameServers s s₁ ∧
      ((wrongAt s id (m.serverIdxs.take p.n)).zip (missingIds s id (m.serverIdxs.take p.n))).foldlM
        (restoreAt p m id size) s₁ = .error e)

theorem restoreChunk_noTypeFault {js : List Nat} {i : Nat} :
    Ends (js.foldlM (restoreChunk p m id size c) (s, i)) (fun _ => True) NoTypeFault := by
  refine Ends.foldlM (fun _ _ => True) trivial fun pre j post si _ _ => ?_
  refine Ends.guard (fun _ => ⟨nofun, nofun⟩) fun _ => ?_
  split
  · have hscan : Ends (scan c.status (maxEcN - si.2) si.2) (fun _ => True) NoTypeFault := by
      generalize maxEcN - si.2 = fuel
      generalize si.2 = i
      induction fuel generalizing i with
      | zero => exact ⟨nofun, nofun⟩
      | succ fuel ih =>
        rw [scan]
        split
        · exact ih _
        · trivial
    refine hscan.bind fun a _ => Ends.guard (fun _ => ⟨nofun, nofun⟩) fun _ => ?_
    refine (idxAt_ends.imp fun x _ => trivial).bind fun x (_ : True) => ?_
    exact (onServer_ends (w := ⟨x, size, chunkInfo j⟩)).bind fun s' _ => trivial
  · trivial

/-- The restoration, after the looks. -/
theorem restore_ends {xs : List Nat} {s₁ : Cluster} (hsame : SameServers s s₁)
    (hlook : Lookable p s id (m.serverIdxs.take p.n)) (hlen : p.n ≤ m.serverIdxs.length)
    (H : LookedOn s id (m.serverIdxs.take p.n) xs c) :
    Ends ((List.range p.n).foldlM (restoreChunk p m id size c) (s₁, 0))
      (fun si => Effect p id (restoreWrites p s m id size) s si.1) (HitFault p s m id size) := by
  have hn : (m.serverIdxs.take p.n).length = p.n := by rw [List.length_take]; omega
  have hmissing := H.missing_eq
  have hwrong := H.wrongFrom_eq
  rw [hn] at hmissing hwrong
  cases hloop : (List.range p.n).foldlM (restoreChunk p m id size c) (s₁, 0) with
  | ok si =>
    obtain ⟨heff, -⟩ := restore_effect hloop
    rw [hmissing, hwrong] at heff
    exact hsame.trans_effect heff
  | error e =>
    have hfault := restoreChunk_noTypeFault.error hloop
    by_cases hsmall : ∀ j ∈ heldIds s id (m.serverIdxs.take p.n), j < p.n
    · refine .inr ⟨hfault, .inr (.inr (.inr ⟨s₁, hsame, ?_⟩))⟩
      have hcount := length_wrongAt (by rwa [hn])
      have hecn := hlook.length
      rw [hn] at hecn
      rw [← hmissing, ← hwrong, ← restoreChunk_loop hecn hlen
        (fun j hj => Nat.lt_of_lt_of_le (List.mem_range.mp hj) hecn)
        (Nat.le_of_eq (by rw [hmissing, hwrong, hcount])), hloop]
      rfl
    · simp only [not_forall, Nat.not_lt] at hsmall
      obtain ⟨j, hj, hle⟩ := hsmall
      exact .inr ⟨hfault, .inr (.inr (.inl ⟨j, hj, hle⟩))⟩

/-- **`_cache_hit_chunk_obj`.** -/
theorem cacheHitChunkObj_ends {req : Request} :
    Ends (cacheHitChunkObj p s m req) (ChunkHit p s m req.objId (p.chunkObjSize req.objSize))
      (HitFault p s m req.objId (p.chunkObjSize req.objSize)) := by
  unfold cacheHitChunkObj
  refine Ends.guard (fun h => .inr ⟨⟨nofun, nofun⟩, .inl ⟨rfl, .inl h⟩⟩) fun hserver => ?_
  dsimp only
  by_cases hlen : m.serverIdxs.length < p.n
  · rw [firstIdxs, if_pos hlen]
    exact .inr ⟨⟨nofun, nofun⟩, .inl ⟨rfl, .inr (.inl hlen)⟩⟩
  · rw [firstIdxs, if_neg hlen]
    refine Ends.bind (P := fun idxs => idxs = m.serverIdxs.take p.n) rfl ?_
    rintro _ rfl
    refine Ends.bind (getChunkInfo_loop.mono (fun _ h => h) fun _ h =>
      Or.inr ⟨h.1, .inr (.inl h.2)⟩) fun c hlooked => ?_
    have hlook : Lookable p s req.objId (m.serverIdxs.take p.n) :=
      ⟨hlooked.nodup, hlooked.lt, hlooked.length, hlooked.small⟩
    refine Ends.bind ((checkExtras_lookedOn hlooked.lookedOn).mono (fun _ h => h) fun _ h =>
      .inl h) fun c H => ?_
    have hhits : c.nChunkHit = hitsWith p s m req.objId (consultedExtras p s m req.objId) := H.hits
    refine Ends.bind (restore_ends ⟨rfl, rfl, rfl⟩ hlook (Nat.le_of_not_lt hlen) H)
      fun ⟨s', i⟩ heff => ?_
    refine Ends.guard (fun h => .inr ⟨⟨nofun, nofun⟩, .inl ⟨rfl, .inr (.inr ?_)⟩⟩) fun hbound => ?_
    · rwa [← hhits]
    · have hbound := not_or.mp hbound
      refine ⟨Nat.le_of_not_lt hserver, Nat.le_of_not_lt hlen, hlook, hhits, rfl,
        Nat.pos_of_ne_zero hbound.1, Nat.le_of_not_lt hbound.2, heff.trans_same ?_⟩
      split <;> exact ⟨rfl, rfl, rfl⟩

/-! ## The servers afterwards -/

/-- All chunks are on the servers `idxs`; correct ones are where they were, and other servers are
as they were. -/
structure Restored (s : Cluster) (id : Nat) (idxs : List Nat) (s' : Cluster) : Prop where
  perm : (idxs.map (heldChunk s' id)).Perm ((List.range idxs.length).map some)
  correct : ∀ i x j, idxs[i]? = some x → heldChunk s id x = some j →
    j ∉ heldIds s id (idxs.take i) → heldChunk s' id x = some j
  outside : ∀ x, x ∉ idxs → s'.servers x = s.servers x

theorem map_getD_range (idxs : List Nat) :
    (List.range idxs.length).map (fun i => idxs.getD i 0) = idxs := by
  refine List.ext_getElem (by simp) fun i h₁ h₂ => ?_
  rw [List.getElem_map, List.getElem_range, List.getD_eq_getElem _ _ h₂]

theorem getD_take {idxs : List Nat} {n i : Nat} (h : i < n) :
    (idxs.take n).getD i 0 = idxs.getD i 0 := by
  rw [List.getD_eq_getElem?_getD, List.getElem?_take_of_lt h, List.getD_eq_getElem?_getD]

section
variable (hlen : p.n ≤ m.serverIdxs.length) (hnodup : (m.serverIdxs.take p.n).Nodup)
include hlen

theorem length_mapped : (m.serverIdxs.take p.n).length = p.n := by
  rw [List.length_take]; omega

theorem mem_mapped_of_lt {i : Nat} (h : i < p.n) :
    m.serverIdxs.getD i 0 ∈ m.serverIdxs.take p.n := by
  rw [← getD_take h, List.getD_eq_getElem _ _ (by rw [length_mapped hlen]; exact h)]
  exact List.getElem_mem _

/-- A write is to a mapped server without a correct chunk. -/
theorem wrong_of_mem {w : Write} (hw : w ∈ restoreWrites p s m id size) :
    ∃ i < p.n, statusAt s id (m.serverIdxs.take p.n) i ≠ .correctChunk ∧
      m.serverIdxs.getD i 0 = w.server := by
  obtain ⟨⟨i, j⟩, hij, rfl⟩ := List.mem_map.mp hw
  obtain ⟨hlt, hwrong⟩ := List.mem_filter.mp (List.of_mem_zip hij).1
  rw [List.mem_range, length_mapped hlen] at hlt
  exact ⟨i, hlt, by simpa using hwrong, rfl⟩

include hnodup

theorem mapped_inj {i i' : Nat} (hi : i < p.n) (hi' : i' < p.n)
    (h : m.serverIdxs.getD i 0 = m.serverIdxs.getD i' 0) : i = i' := by
  have hn := length_mapped hlen
  rw [← getD_take hi, ← getD_take hi', List.getD_eq_getElem _ _ (by rw [hn]; exact hi),
    List.getD_eq_getElem _ _ (by rw [hn]; exact hi')] at h
  exact (List.Nodup.getElem_inj_iff hnodup).mp h

/-- A server with a correct chunk is not written. -/
theorem servers_of_correct (heff : Effect p id (restoreWrites p s m id size) s s') {i : Nat}
    (hi : i < p.n) (hc : statusAt s id (m.serverIdxs.take p.n) i = .correctChunk) :
    s'.servers (m.serverIdxs.getD i 0) = s.servers (m.serverIdxs.getD i 0) := by
  refine heff.writes.unwritten fun w hw heq => ?_
  obtain ⟨i', hi', hwrong, hserver⟩ := wrong_of_mem hlen hw
  obtain rfl := mapped_inj hlen hnodup hi' hi (hserver.trans heq)
  exact hwrong hc

variable (hsmall : ∀ j ∈ heldIds s id (m.serverIdxs.take p.n), j < p.n)
include hsmall

omit hnodup in
theorem map_server_restoreWrites : (restoreWrites p s m id size).map Write.server =
    (wrongAt s id (m.serverIdxs.take p.n)).map fun i => m.serverIdxs.getD i 0 := by
  have hcount := length_wrongAt (by rwa [length_mapped hlen])
  conv_rhs => rw [← List.map_fst_zip (Nat.le_of_eq hcount), List.map_map]
  rw [restoreWrites, List.map_map]
  rfl

theorem nodup_restoreWrites : ((restoreWrites p s m id size).map Write.server).Nodup := by
  rw [map_server_restoreWrites hlen hsmall]
  refine List.Nodup.map_on (fun i hi i' hi' heq => ?_) (List.nodup_range.filter _)
  have hi := List.mem_range.mp (List.mem_filter.mp hi).1
  have hi' := List.mem_range.mp (List.mem_filter.mp hi').1
  rw [length_mapped hlen] at hi hi'
  exact mapped_inj hlen hnodup hi hi' heq

/-- The others are written once. -/
theorem put_of_wrong (heff : Effect p id (restoreWrites p s m id size) s s') {i j : Nat}
    (hij : (i, j) ∈ (wrongAt s id (m.serverIdxs.take p.n)).zip
      (missingIds s id (m.serverIdxs.take p.n))) :
    ∃ t, (s.servers (m.serverIdxs.getD i 0)).put id size t (chunkInfo j) =
      .ok (s'.servers (m.serverIdxs.getD i 0)) :=
  heff.writes.written (nodup_restoreWrites hlen hnodup hsmall)
    (List.mem_map_of_mem (f := restoreWrite m size) hij)

theorem restored_of_effect (hecn : p.n ≤ maxEcN)
    (hav : ∀ x ∈ m.serverIdxs.take p.n, (s.servers x).available = true)
    (heff : Effect p id (restoreWrites p s m id size) s s') :
    Restored s id (m.serverIdxs.take p.n) s' := by
  have hn := length_mapped hlen
  have hcorrect : ∀ i ∈ correctAt s id (m.serverIdxs.take p.n),
      heldChunk s' id (m.serverIdxs.getD i 0) =
        heldChunk s id ((m.serverIdxs.take p.n).getD i 0) := by
    intro i hi
    obtain ⟨hlt, hc⟩ := List.mem_filter.mp hi
    rw [List.mem_range, hn] at hlt
    rw [heldChunk, servers_of_correct hlen hnodup heff hlt (by simpa using hc), getD_take hlt,
      heldChunk]
  have hwrong : ∀ ij ∈ (wrongAt s id (m.serverIdxs.take p.n)).zip
      (missingIds s id (m.serverIdxs.take p.n)),
      heldChunk s' id (m.serverIdxs.getD ij.1 0) = some ij.2 := by
    rintro ⟨i, j⟩ hij
    obtain ⟨hi, hj⟩ := List.of_mem_zip hij
    have hi := List.mem_range.mp (List.mem_filter.mp hi).1
    have hj := List.mem_range.mp (List.mem_filter.mp hj).1
    rw [hn] at hi hj
    obtain ⟨t, hput⟩ := put_of_wrong hlen hnodup hsmall heff hij
    have hup := hav _ (mem_mapped_of_lt hlen hi)
    have hput := put_available hup hput
    rw [heldChunk, hput.available, hup, if_pos rfl, hput.self, Option.map_some]
    refine congrArg some (Nat.mod_eq_of_lt ?_)
    have : maxEcN = 16 := rfl
    omega
  refine ⟨?_, ?_, ?_⟩
  · have hcount := length_wrongAt (by rwa [hn])
    have hwrong' : ((wrongAt s id (m.serverIdxs.take p.n)).map fun i =>
        heldChunk s' id (m.serverIdxs.getD i 0)) =
        (missingIds s id (m.serverIdxs.take p.n)).map some := by
      conv_lhs => rw [← List.map_fst_zip (Nat.le_of_eq hcount), List.map_map]
      conv_rhs => rw [← List.map_snd_zip (Nat.le_of_eq hcount.symm), List.map_map]
      exact List.map_congr_left hwrong
    calc (m.serverIdxs.take p.n).map (heldChunk s' id)
        = (List.range (m.serverIdxs.take p.n).length).map
            (fun i => heldChunk s' id (m.serverIdxs.getD i 0)) := by
          conv_lhs => rw [← map_getD_range (m.serverIdxs.take p.n), List.map_map]
          refine List.map_congr_left fun i hi => ?_
          rw [List.mem_range, hn] at hi
          rw [Function.comp_apply, getD_take hi]
      List.Perm _ (((correctAt s id (m.serverIdxs.take p.n)) ++
          (wrongAt s id (m.serverIdxs.take p.n))).map
            fun i => heldChunk s' id (m.serverIdxs.getD i 0)) := ((perm_places _ _ _).map _).symm
      _ = ((correctAt s id (m.serverIdxs.take p.n)).map fun i =>
            heldChunk s id ((m.serverIdxs.take p.n).getD i 0)) ++
            (missingIds s id (m.serverIdxs.take p.n)).map some := by
          rw [List.map_append, List.map_congr_left hcorrect, hwrong']
      List.Perm _ _ := perm_chunkIds (by rwa [hn])
  · intro i x j hx hj hfirst
    have hlt := (List.getElem?_eq_some_iff.mp hx).1
    have hc := statusAt_eq_correct.mpr ⟨x, j, hx, hj, hfirst⟩
    have hmem : i ∈ correctAt s id (m.serverIdxs.take p.n) :=
      List.mem_filter.mpr ⟨List.mem_range.mpr hlt, by simpa using hc⟩
    have hheld := hcorrect i hmem
    rwa [← getD_take (by omega : i < p.n), getD_of_getElem? hx, hj] at hheld
  · intro x hx
    refine heff.writes.unwritten ?_
    rintro w hw rfl
    obtain ⟨i, hi, -, heq⟩ := wrong_of_mem hlen hw
    exact hx (heq ▸ mem_mapped_of_lt hlen hi)

end

end

end C2DN.Simulator.Cluster
