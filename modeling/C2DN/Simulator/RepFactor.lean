import C2DN.Simulator.Recency
import C2DN.Simulator.Ledger

/-!
# The number of copies of an object

`find_rep_factor` counts for every object the available servers that have a copy of it, and then the
objects with 1, ..., `n` copies, in an array of `n` counters. Requests write copies to the servers of
the current mapping only, but copies on servers of earlier mappings stay, also while these are down. If
a requested object has few of them on servers that can come up again (`FewElsewhere`), no object has
more than `n` copies.
-/

namespace C2DN.Simulator

/-! ## `find_rep_factor` -/

/-- The conversion to `int8_t`. -/
def asInt8 (i : Int) : Int := (i + 128) % 256 - 128

/-- `_objmap_aux`: an entry has the id, the size and the count of an object. -/
def objmapAux (objmap : List (Nat × Nat × Int)) (o : CacheObj) : List (Nat × Nat × Int) :=
  let cnt := match objmap.find? fun e => e.1 == o.objId with
    | some e => asInt8 (e.2.2 + 1)
    | none => 1
  (o.objId, o.objSize, cnt) :: objmap.filter fun e => e.1 != o.objId

/-- The results of `find_rep_factor`; the two coefficients are quotients of the last four. -/
structure RepFactor where
  nChunkCnt : Nat → Nat
  nServerObj : Nat
  nServerByte : Nat
  nClusterObj : Nat
  nClusterByte : Nat

namespace Cluster

/-- `n_chunk_cnt[kv.second.second - 1] += 1`. -/
def countChunk (p : Params) (nChunkCnt : Nat → Nat) (e : Nat × Nat × Int) :
    Except Fault (Nat → Nat) :=
  let i := e.2.2 - 1
  if 0 ≤ i ∧ i < p.n then .ok (addAt nChunkCnt i.toNat 1) else .error .outOfBounds

def findRepFactor (p : Params) (s : Cluster) : Except Fault RepFactor := do
  let caches := (availableServers p s).map fun x => (s.servers x).cache
  let objmap := caches.foldl (fun objmap c => c.objs.foldl objmapAux objmap) []
  let nChunkCnt ← objmap.foldlM (countChunk p) fun _ => 0
  .ok {
    nChunkCnt
    nServerObj := (caches.map fun c => c.objs.length).sum
    nServerByte := (caches.map fun c => c.occupiedSize).sum
    nClusterObj := objmap.length
    nClusterByte := (objmap.map fun e => e.2.1).sum }

/-- The available servers that have a copy of the object. -/
def copiesOf (p : Params) (s : Cluster) (id : Nat) : List Nat :=
  (availableServers p s).filter fun x => (s.servers x).cache.getObj id |>.isSome

/-- No object has more than `n` copies. -/
def AtMostN (p : Params) (s : Cluster) : Prop := ∀ id, (copiesOf p s id).length ≤ p.n

end Cluster

/-! ## The counts -/

theorem asInt8_asInt8_add {i : Int} : asInt8 (asInt8 i + 1) = asInt8 (i + 1) := by
  unfold asInt8
  omega

theorem asInt8_of_le {n : Nat} (h : n < 128) : asInt8 n = n := by
  unfold asInt8
  omega

/-- The entries for a list of objects. -/
structure Objmap (os : List CacheObj) (objmap : List (Nat × Nat × Int)) : Prop where
  cnt : ∀ e ∈ objmap, 0 < os.countP (·.objId == e.1) ∧ e.2.2 = asInt8 (os.countP (·.objId == e.1))
  mem : ∀ o ∈ os, ∃ e ∈ objmap, e.1 = o.objId

theorem Objmap.aux {os : List CacheObj} {objmap : List (Nat × Nat × Int)} (H : Objmap os objmap)
    (o : CacheObj) : Objmap (os ++ [o]) (objmapAux objmap o) := by
  refine ⟨fun e he => ?_, fun o' ho' => ?_⟩
  · rw [List.countP_append, List.countP_singleton]
    rcases List.mem_cons.mp he with rfl | he
    · rw [if_pos (beq_self_eq_true _)]
      refine ⟨Nat.succ_pos _, ?_⟩
      dsimp only
      split
      · next e' he' =>
        obtain ⟨-, hcnt⟩ := H.cnt e' (List.mem_of_find?_eq_some he')
        have hid : e'.1 = o.objId := by simpa using List.find?_some he'
        rw [hcnt, hid, asInt8_asInt8_add]
        rfl
      · next hnone =>
        -- the object is new
        have hzero : os.countP (·.objId == o.objId) = 0 := by
          rw [List.countP_eq_zero]
          intro o' ho' heq
          obtain ⟨e', he', hid⟩ := H.mem o' ho'
          refine List.find?_eq_none.mp hnone e' he' ?_
          rw [hid]
          exact heq
        rw [hzero]
        decide
    · obtain ⟨he, hne⟩ := List.mem_filter.mp he
      have hne : e.1 ≠ o.objId := by simpa using hne
      rw [if_neg (by simpa using hne.symm)]
      exact H.cnt e he
  · rcases List.mem_append.mp ho' with ho' | ho'
    · obtain ⟨e, he, hid⟩ := H.mem o' ho'
      by_cases heq : e.1 = o.objId
      · exact ⟨_, List.mem_cons_self, (heq.symm.trans hid : o.objId = o'.objId)⟩
      · exact ⟨e, List.mem_cons_of_mem _ (List.mem_filter.mpr ⟨he, by simpa using heq⟩), hid⟩
    · rw [List.mem_singleton.mp ho']
      exact ⟨_, List.mem_cons_self, rfl⟩

theorem Objmap.foldl {os os' : List CacheObj} {objmap : List (Nat × Nat × Int)} (H : Objmap os objmap) :
    Objmap (os ++ os') (os'.foldl objmapAux objmap) := by
  induction os' generalizing os objmap with
  | nil => rwa [List.append_nil]
  | cons o os' ih =>
    rw [← List.singleton_append, ← List.append_assoc]
    exact ih (H.aux o)

theorem objmap_caches {caches : List Cache} : Objmap (caches.flatMap Cache.objs)
    (caches.foldl (fun objmap c => c.objs.foldl objmapAux objmap) []) := by
  induction caches using List.reverseRecOn with
  | nil => exact ⟨nofun, nofun⟩
  | append_singleton caches c ih =>
    rw [List.flatMap_append, List.foldl_append, List.flatMap_singleton]
    exact ih.foldl

/-- A cache has an object once. -/
theorem Cache.countP_objs (c : Cache) (id : Nat) :
    c.objs.countP (·.objId == id) = if (c.getObj id).isSome then 1 else 0 := by
  have hcount : c.objs.countP (·.objId == id) = c.ids.count id := by
    rw [Cache.ids, List.count, List.countP_map]
    rfl
  rw [hcount]
  by_cases h : id ∈ c.ids
  · obtain ⟨o, ho⟩ := Cache.mem_ids.mp h
    rw [List.count_eq_one_of_mem (show c.ids.Nodup from c.nodup) h, ho]
    rfl
  · rw [List.count_eq_zero_of_not_mem h, Cache.getObj_eq_none.mpr h]
    rfl

namespace Cluster

section
variable {p : Params} {s s' : Cluster}

/-- The count of an object is the number of its copies. -/
theorem countP_caches (id : Nat) :
    (((availableServers p s).map fun x => (s.servers x).cache).flatMap Cache.objs).countP
      (·.objId == id) = (copiesOf p s id).length := by
  rw [copiesOf, ← List.countP_eq_length_filter, List.countP_flatMap, List.map_map]
  generalize availableServers p s = xs
  induction xs with
  | nil => rfl
  | cons x xs ih =>
    rw [List.map_cons, List.sum_cons, ih, List.countP_cons, Function.comp_apply, Function.comp_apply,
      Cache.countP_objs]
    exact Nat.add_comm _ _

/-- **`find_rep_factor` stays in its array** when no object has more than `n` copies. -/
theorem findRepFactor_ok (hn : p.n < 128) (h : AtMostN p s) :
    ∃ r, findRepFactor p s = .ok r := by
  have H : Objmap (((availableServers p s).map fun x => (s.servers x).cache).flatMap Cache.objs) _ :=
    objmap_caches
  unfold findRepFactor
  dsimp only
  generalize ((availableServers p s).map fun x => (s.servers x).cache).foldl _ [] = objmap at H
  have hloop : ∀ nChunkCnt, Ends (objmap.foldlM (countChunk p) nChunkCnt) (fun _ => True)
      fun _ => False := by
    intro nChunkCnt
    refine Ends.foldlM (fun _ _ => True) trivial fun pre e post cnt hsplit _ => ?_
    obtain ⟨hpos, hcnt⟩ := H.cnt e (by rw [hsplit]; simp)
    rw [countP_caches] at hpos hcnt
    have hle := h e.1
    rw [asInt8_of_le (by omega)] at hcnt
    unfold countChunk
    dsimp only
    rw [if_pos (by omega)]
    trivial
  obtain ⟨nChunkCnt, hok, -⟩ := (hloop fun _ => 0).returns
  rw [hok]
  exact ⟨_, rfl⟩

/-! ## Requests -/

/-- The object is afterwards where it has been or where it has been written. -/
theorem Writes.isSome_getObj_iff {id : Nat} {ws : List Write} {f g : Nat → CacheServer}
    (h : Writes p id ws f g) (x : Nat) : ((g x).cache.getObj id).isSome ↔
      ((f x).cache.getObj id).isSome ∨ x ∈ ws.map Write.server := by
  induction h with
  | nil => simp
  | @cons w ws f c t g _ hput _ ih =>
    rw [ih, List.map_cons, List.mem_cons]
    by_cases hx : x = w.server
    · have hc : (c.cache.getObj id).isSome := by
        cases hav : (f w.server).available with
        | true =>
          rw [(CacheServer.put_available hav hput).self]
          rfl
        | false =>
          obtain ⟨⟨o, ho⟩, rfl⟩ := CacheServer.put_unavailable hav hput
          rw [Cache.getObj_setInfo_self ho]
          rfl
      rw [hx, Function.update_self]
      simp [hc]
    · rw [Function.update_of_ne hx]
      simp [hx]

/-- A requested object is in chunks: it is coded, or a server has a chunk of it. -/
def inChunks (p : Params) (s : Cluster) (req : Request) : Bool :=
  codes p req.objSize || (List.range p.nServer).any fun x =>
    ((s.servers x).cache.getObj req.objId).any fun o => o.info.objType == .chunkObj

/-- The servers that the bucket of a requested object has for its copies: two, or one for each chunk. -/
def homes (p : Params) (s : Cluster) (req : Request) : List Nat :=
  match bucketOf p req with
  | .error _ => []
  | .ok b => ((s.chMapping b).getD []).take (if s.inChunks p req then max 2 (max p.k p.n) else 2)

theorem inChunks_of_found {m : Mapped} {req : Request} {x : Nat}
    (h : s.findObj p m req.objId = .ok (some (x, .chunkObj))) : s.inChunks p req = true := by
  obtain ⟨o, ho, htype⟩ := findObj_some h
  refine (Bool.or_eq_true _ _).mpr (.inr (List.any_eq_true.mpr ⟨x, ?_, ?_⟩))
  · exact List.mem_range.mpr (findObj_lt h)
  · rw [ho, Option.any_some, htype]
    rfl

theorem lt_max_of_mem_missPlaces {i : Nat} (hi : i ∈ missPlaces p) : i < max 2 (max p.k p.n) := by
  rcases List.mem_append.mp hi with hi | hi
  · have := List.mem_range.mp hi
    omega
  · split at hi
    · have := List.mem_range'_1.mp hi
      omega
    · exact absurd hi List.not_mem_nil

/-- **A request** writes copies to the homes of its object only. -/
theorem get_homes (hmode : p.mode = .c2dn ∨ p.mode = .c2dnAddN) {req : Request} {d : Draws}
    {r : Cluster × ClusterHit} (h : s.get p req d = .ok r) :
    ∃ ws : List Write, (∀ w ∈ ws, w.server ∈ homes p s req) ∧
      Writes p req.objId ws s.servers r.1.servers := by
  obtain ⟨m, hm, hserved⟩ := get_ends.ok h
  obtain ⟨hbucket, hrow⟩ := mapped_row hm
  have hhomes : homes p s req = m.serverIdxs.take
      (if s.inChunks p req then max 2 (max p.k p.n) else 2) := by
    rw [homes, hbucket]
    dsimp only
    rw [hrow]
    rfl
  have htwo : ∀ w ∈ (m.serverIdxs.take 2).map (fullWrite req), w.server ∈ homes p s req := by
    intro w hw
    obtain ⟨x, hx, rfl⟩ := List.mem_map.mp hw
    rw [hhomes]
    refine List.take_subset_take_left _ ?_ hx
    split <;> omega
  have hplace : s.inChunks p req = true → ∀ i < max 2 (max p.k p.n), i < m.serverIdxs.length →
      m.serverIdxs.getD i 0 ∈ homes p s req := by
    intro hchunks i hi hlt
    rw [hhomes, if_pos hchunks, List.getD_eq_getElem _ _ hlt]
    exact List.mem_take_iff_getElem.mpr ⟨i, by omega, rfl⟩
  generalize r.1 = s', r.2 = hit at hserved
  cases hserved with
  | fullHit found copies effect =>
    obtain rfl := replicas_eq hmode (copies (by rcases hmode with h | h <;> rw [h] <;> nofun)
      (by rcases hmode with h | h <;> rw [h] <;> nofun))
    exact ⟨_, htwo, effect.writes⟩
  | chunkHit found hit same =>
    refine ⟨_, fun w hw => ?_, (hit.effect.trans_same same).writes⟩
    obtain ⟨i, hi, -, heq⟩ := wrong_of_mem hit.length hw
    have hlen := hit.length
    rw [← heq]
    exact hplace (inChunks_of_found found) i (by omega) (by omega)
  | uncounted _ _ same | refused _ _ same =>
    exact ⟨[], fun w hw => absurd hw List.not_mem_nil, same.effect.writes⟩
  | fullMiss found policy copies effect =>
    obtain rfl := replicas_eq hmode copies
    exact ⟨_, htwo, effect.writes⟩
  | chunkMiss found policy effect places =>
    refine ⟨_, fun w hw => ?_, effect.writes⟩
    obtain ⟨i, hi, rfl⟩ := List.mem_map.mp hw
    have hchunks : s.inChunks p req = true := by
      rw [inChunks, codes_of_policy policy, Bool.true_or]
    exact hplace hchunks i (lt_max_of_mem_missPlaces hi) (places i hi)

/-- **A chunk hit** restores a chunk on each of the `n` mapped servers. With a copy on another server
that is up, the object has more than `n` copies. -/
theorem lt_copiesOf_of_restore {m : Mapped} {id size x : Nat} (H : Restorable p s m id size)
    (heff : Effect p id (restoreWrites p s m id size) s s') (hx : x ∉ m.serverIdxs.take p.n)
    (hlt : x < p.nServer) (hup : (s.servers x).available = true)
    (hcopy : ((s.servers x).cache.getObj id).isSome) : p.n < (copiesOf p s' id).length := by
  have R := restored_of_effect H.length H.nodup H.small H.ecn H.available heff
  have hmem : ∀ y, y < p.nServer → (s.servers y).available = true →
      ((s'.servers y).cache.getObj id).isSome → y ∈ copiesOf p s' id := by
    intro y hy hav hget
    refine List.mem_filter.mpr ⟨List.mem_filter.mpr ⟨List.mem_range.mpr hy, ?_⟩, hget⟩
    rw [heff.writes.available, hav]
  have hmapped : ∀ y ∈ m.serverIdxs.take p.n, y ∈ copiesOf p s' id := by
    intro y hy
    refine hmem y (H.lt y hy) (H.available y hy) ?_
    obtain ⟨j, -, hj⟩ := List.mem_map.mp (R.perm.subset (List.mem_map_of_mem hy))
    have hheld : heldChunk s' id y = some j := hj.symm
    unfold heldChunk at hheld
    split at hheld
    · obtain ⟨o, ho, -⟩ := Option.map_eq_some_iff.mp hheld
      rw [ho]
      rfl
    · cases hheld
  have hother : x ∈ copiesOf p s' id := by
    refine hmem x hlt hup ?_
    rw [R.outside x hx]
    exact hcopy
  have hsub : (x :: m.serverIdxs.take p.n).Subperm (copiesOf p s' id) :=
    (List.nodup_cons.mpr ⟨hx, H.nodup⟩).subperm fun y hy => by
      rcases List.mem_cons.mp hy with rfl | hy
      · exact hother
      · exact hmapped y hy
  have hle := hsub.length_le
  rw [List.length_cons, length_mapped H.length] at hle
  exact hle

end

end Cluster

/-! ## Runs -/

namespace Thread

/-- What `run` does for a request of the trace, one after the other. -/
inductive Event
  | update (now : Nat)
  | get (req : Request) (draws : Cluster.Draws)
  | log (now : Nat)

def act (p : Params) (logInterval : Nat) (t : Thread) : Event → Except Fault Thread
  | .update now => t.updateAvailability p now
  | .get req draws => (t.cluster.get p req draws).map fun r =>
      { t with cluster := r.1, vtime := t.vtime + 1 }
  | .log now => .ok (t.log p logInterval now)

def eventsOf (a : Arrival) : List Event := [.update a.realTime, .get a.req a.draws, .log a.realTime]

/-- The server stays down: it is in the list in force and in all further ones. -/
def staysDown (t : Thread) (x : Nat) : Bool :=
  decide (x ∈ t.prevFailedServers) &&
    t.failureVectorDeque.all fun failedServers => decide (x ∈ failedServers)

/-- The servers with a copy of the object that are up or can come up again. -/
def holders (p : Params) (t : Thread) (id : Nat) : List Nat :=
  (List.range p.nServer).filter fun x =>
    !t.staysDown x && ((t.cluster.servers x).cache.getObj id).isSome

/-- A requested object has few copies on other servers than its homes. If it is in chunks, these are `n`
servers, and it has no other copies. -/
def FewElsewhere (p : Params) (t : Thread) (req : Request) : Prop :=
  ((t.holders p req.objId).filter fun x => decide (x ∉ t.cluster.homes p req)).length +
    (t.cluster.homes p req).length ≤ p.n

instance (p : Params) (t : Thread) (req : Request) : Decidable (FewElsewhere p t req) :=
  Nat.decLe _ _

/-- The condition on the state in which a request is served. -/
def Few (p : Params) (t : Thread) : Event → Prop
  | .get req _ => FewElsewhere p t req
  | _ => True

instance (p : Params) (t : Thread) : ∀ e, Decidable (Few p t e)
  | .get req _ => inferInstanceAs (Decidable (FewElsewhere p t req))
  | .update _ | .log _ => isTrue trivial

/-- No object has more than `n` copies on servers that are up or can come up again. -/
def Bounded (p : Params) (t : Thread) : Prop := ∀ id, (t.holders p id).length ≤ p.n

section
variable {p : Params} {t t' : Thread} {logInterval startTime now : Nat} {failures : List (List Nat)}

/-- Runs of the thread are runs of events. -/
theorem run_eq_acts {arrivals : List Arrival} : run p logInterval arrivals t =
    (arrivals.flatMap eventsOf).foldlM (act p logInterval) t := by
  have hstep : ∀ (t : Thread) (a : Arrival),
      t.step p logInterval a = (eventsOf a).foldlM (act p logInterval) t := by
    intro t a
    refine bind_congr fun t₁ => ?_
    rw [List.foldlM_cons, act]
    cases t₁.cluster.get p a.req a.draws <;> rfl
  unfold run
  induction arrivals generalizing t with
  | nil => rfl
  | cons a as ih =>
    rw [List.flatMap_cons, List.foldlM_append, List.foldlM_cons, hstep]
    exact bind_congr fun t' => ih

theorem staysDown_updateAvailability (h : t.updateAvailability p now = .ok t') {x : Nat}
    (hx : t.staysDown x = true) : t'.staysDown x = true := by
  unfold updateAvailability at h
  split at h
  · cases h
    exact hx
  · next failedServers rest hdeque =>
    split at h
    · cases h
      exact hx
    · obtain ⟨cluster, -, rfl⟩ := map_eq_ok h
      unfold staysDown at hx ⊢
      rw [hdeque, List.all_cons] at hx
      exact ((Bool.and_eq_true _ _).mp hx).2

/-- Servers that are up do not stay down. -/
theorem length_copiesOf_le (H : Inv p t) (id : Nat) :
    (t.cluster.copiesOf p id).length ≤ (t.holders p id).length := by
  rw [Cluster.copiesOf, Cluster.availableServers, List.filter_filter, holders,
    ← List.countP_eq_length_filter, ← List.countP_eq_length_filter]
  refine List.countP_mono_left fun x hx h => ?_
  obtain ⟨hcopy, hup⟩ := (Bool.and_eq_true _ _).mp h
  refine (Bool.and_eq_true _ _).mpr ⟨?_, hcopy⟩
  rw [H.available x (List.mem_range.mp hx)] at hup
  rw [staysDown, decide_eq_false (of_decide_eq_true hup)]
  rfl

theorem Bounded.atMostN (B : Bounded p t) (H : Inv p t) : t.cluster.AtMostN p := fun id =>
  (length_copiesOf_le H id).trans (B id)

/-- An update leaves the copies where they are. -/
theorem Bounded.updateAvailability (B : Bounded p t) (h : t.updateAvailability p now = .ok t') :
    Bounded p t' := by
  intro id
  refine Nat.le_trans (List.Sublist.length_le (List.monotone_filter_right _ fun x hx => ?_)) (B id)
  rw [(updateAvailability_keepsCounts h).cache] at hx
  obtain ⟨hdown, hcopy⟩ := (Bool.and_eq_true _ _).mp hx
  refine (Bool.and_eq_true _ _).mpr ⟨?_, hcopy⟩
  cases hstays : t.staysDown x with
  | false => rfl
  | true =>
    rw [staysDown_updateAvailability h hstays] at hdown
    exact absurd hdown Bool.false_ne_true

/-- A request adds copies at home only. -/
theorem Bounded.get (B : Bounded p t) (hmode : p.mode = .c2dn ∨ p.mode = .c2dnAddN) {req : Request}
    {d : Cluster.Draws} {r : Cluster × ClusterHit} (hfew : FewElsewhere p t req)
    (h : t.cluster.get p req d = .ok r) :
    Bounded p { t with cluster := r.1, vtime := t.vtime + 1 } := by
  obtain ⟨ws, hhomes, hwrites⟩ := Cluster.get_homes hmode h
  intro id
  by_cases hid : id = req.objId
  · have hsub : (holders p { t with cluster := r.1, vtime := t.vtime + 1 } id).Subperm
        ((t.holders p req.objId).filter (fun x => decide (x ∉ t.cluster.homes p req)) ++
          t.cluster.homes p req) := by
      refine (List.nodup_range.filter _).subperm fun x hx => ?_
      obtain ⟨hrange, hx⟩ := List.mem_filter.mp hx
      obtain ⟨hdown, hcopy⟩ := (Bool.and_eq_true _ _).mp hx
      by_cases hhome : x ∈ t.cluster.homes p req
      · exact List.mem_append_right _ hhome
      · -- the copy has been there before
        rw [hid, hwrites.isSome_getObj_iff] at hcopy
        have hold := hcopy.resolve_right fun hwritten => by
          obtain ⟨w, hw, heq⟩ := List.mem_map.mp hwritten
          exact hhome (heq ▸ hhomes w hw)
        refine List.mem_append_left _ (List.mem_filter.mpr ⟨?_, decide_eq_true hhome⟩)
        exact List.mem_filter.mpr ⟨hrange, (Bool.and_eq_true _ _).mpr ⟨hdown, hold⟩⟩
    have hle := hsub.length_le
    rw [List.length_append] at hle
    exact hle.trans hfew
  · refine Nat.le_trans (List.Sublist.length_le (List.monotone_filter_right _ fun x hx => ?_)) (B id)
    obtain ⟨hdown, hcopy⟩ := (Bool.and_eq_true _ _).mp hx
    obtain ⟨o, ho⟩ := Option.isSome_iff_exists.mp hcopy
    refine (Bool.and_eq_true _ _).mpr ⟨hdown, ?_⟩
    rw [hwrites.other hid ho]
    rfl

theorem Bounded.log (B : Bounded p t) (now : Nat) : Bounded p (t.log p logInterval now) := by
  unfold Thread.log
  split
  · exact B
  · exact B

theorem start_bounded {t₀ : Thread} (hstart : start p failures startTime = .ok t₀) :
    Bounded p t₀ := by
  obtain ⟨cluster, hnew, rfl⟩ := map_eq_ok hstart
  intro id
  rw [holders, List.filter_eq_nil_iff.mpr fun x _ => ?_]
  · exact Nat.zero_le _
  · dsimp only
    rw [Cluster.new_servers hnew, Bool.and_eq_true]
    exact fun h => absurd h.2 Bool.false_ne_true

/-- **One event.** -/
theorem act_bounded (hmode : p.mode = .c2dn ∨ p.mode = .c2dnAddN) {e : Event}
    (H : Inv p t ∧ Bounded p t) (h : t.act p logInterval e = .ok t') (hfew : Few p t e) :
    Inv p t' ∧ Bounded p t' := by
  cases e with
  | update now => exact ⟨H.1.updateAvailability h, H.2.updateAvailability h⟩
  | get req draws =>
    obtain ⟨r, hr, rfl⟩ := map_eq_ok h
    exact ⟨H.1.get hr, H.2.get hmode hfew hr⟩
  | log now =>
    cases h
    exact ⟨H.1.log logInterval now, H.2.log now⟩

/-- **The number of copies.** In every run of updates and requests, in any order, in which requested
objects have few copies elsewhere, no object ever has more than `n` copies, and `find_rep_factor` stays in
its array. -/
theorem atMostN_run (hmode : p.mode = .c2dn ∨ p.mode = .c2dnAddN) {t₀ : Thread}
    (hstart : start p failures startTime = .ok t₀) {events : List Event}
    (hfew : Steps (act p logInterval) (fun t e _ => Few p t e) events t₀) :
    Steps (act p logInterval) (fun _ _ t' => t'.cluster.AtMostN p) events t₀ ∧
    ∀ t, events.foldlM (act p logInterval) t₀ = .ok t → t.cluster.AtMostN p ∧
      (p.n < 128 → ∃ r, t.cluster.findRepFactor p = .ok r) := by
  have H₀ : Inv p t₀ ∧ Bounded p t₀ := ⟨inv_start hstart, start_bounded hstart⟩
  have hact : ∀ t e t', Inv p t ∧ Bounded p t → act p logInterval t e = .ok t' → Few p t e →
      Inv p t' ∧ Bounded p t' := fun _ _ _ H h hC => act_bounded hmode H h hC
  refine ⟨Steps.of_inv (I := fun t => Inv p t ∧ Bounded p t) (fun t e t' H h hC => ?_) H₀ hfew,
    fun t hrun => ?_⟩
  · have H' := hact t e t' H h hC
    exact ⟨H', H'.2.atMostN H'.1⟩
  · obtain ⟨H, B⟩ := Steps.inv_of_run (I := fun t => Inv p t ∧ Bounded p t) hact H₀ hfew hrun
    have hmost := B.atMostN H
    exact ⟨hmost, fun hn => Cluster.findRepFactor_ok hn hmost⟩

end

/-- Server 0 fails for good: its copy stays there, and object 1 gets another one on server 3. -/
theorem zeroStays_atMostN : ∃ t₀ t,
    start (lineParams .c2dnAddN 3 2 6 (by decide)) [[0]] 0 = .ok t₀ ∧
    run (lineParams .c2dnAddN 3 2 6 (by decide)) 0 ([0, 300, 600].map arrivalAt) t₀ = .ok t ∧
    t.cluster.AtMostN (lineParams .c2dnAddN 3 2 6 (by decide)) ∧
    ∃ r, t.cluster.findRepFactor (lineParams .c2dnAddN 3 2 6 (by decide)) = .ok r := by
  obtain ⟨r, hr, hsteps⟩ := exists_ok_of_any
    (q := fun r : Thread × Thread × Thread =>
      decide (Steps (act (lineParams .c2dnAddN 3 2 6 (by decide)) 0)
        (fun t e _ => Few (lineParams .c2dnAddN 3 2 6 (by decide)) t e)
        (([0, 300, 600].map arrivalAt).flatMap eventsOf) r.1))
    (x := upTo (lineParams .c2dnAddN 3 2 6 (by decide)) [[0]] [0, 300, 600] 900)
    (by decide +kernel)
  obtain ⟨hstart, hrun, -⟩ := upTo_eq_ok hr
  obtain ⟨-, hend⟩ := atMostN_run (.inr rfl) hstart (of_decide_eq_true hsteps)
  obtain ⟨hmost, hindex⟩ := hend _ (run_eq_acts.symm.trans hrun)
  exact ⟨r.1, r.2.1, hstart, hrun, hmost, hindex (by decide)⟩

/-- Object 1 is stored on servers 1, 2 and 3 while server 0 is down, and restored on server 0. -/
theorem zeroFails_not_atMostN : ∃ t₀ t,
    start (lineParams .c2dnAddN 3 2 6 (by decide)) [[0], []] 0 = .ok t₀ ∧
    run (lineParams .c2dnAddN 3 2 6 (by decide)) 0 ([300, 600].map arrivalAt) t₀ = .ok t ∧
    t.cluster.copiesOf (lineParams .c2dnAddN 3 2 6 (by decide)) 1 = [0, 1, 2, 3] ∧
    ¬ t.cluster.AtMostN (lineParams .c2dnAddN 3 2 6 (by decide)) ∧
    t.cluster.findRepFactor (lineParams .c2dnAddN 3 2 6 (by decide)) = .error .outOfBounds := by
  obtain ⟨r, hr, hq⟩ := exists_ok_of_any
    (q := fun r : Thread × Thread × Thread => decide (r.2.1.cluster.copiesOf
      (lineParams .c2dnAddN 3 2 6 (by decide)) 1 = [0, 1, 2, 3]) &&
      match r.2.1.cluster.findRepFactor (lineParams .c2dnAddN 3 2 6 (by decide)) with
      | .error .outOfBounds => true
      | _ => false)
    (x := upTo (lineParams .c2dnAddN 3 2 6 (by decide)) [[0], []] [300, 600] 900)
    (by decide +kernel)
  obtain ⟨hstart, hrun, -⟩ := upTo_eq_ok hr
  obtain ⟨hcopies, hindex⟩ := (Bool.and_eq_true _ _).mp hq
  have hcopies := of_decide_eq_true hcopies
  refine ⟨r.1, r.2.1, hstart, hrun, hcopies, fun h => ?_, ?_⟩
  · have hle := h 1
    rw [hcopies] at hle
    exact absurd hle (by decide)
  · split at hindex
    · assumption
    · cases hindex

end Thread

end C2DN.Simulator
