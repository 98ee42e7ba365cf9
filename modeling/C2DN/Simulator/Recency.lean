import C2DN.Simulator.ChunkHits
import C2DN.Simulator.Repeat

/-!
# The order of evictions

With LRU a server that is written has the object as its newest one. On the chunk path the servers
with a correct chunk are not written, so the object is the newest one on all mapped servers if and
only if it was the newest one on those (`Fresh`). In runs with this property every cache has its
objects in the order of their last accesses (`traceStep`).
-/

namespace C2DN.Simulator.Cluster

open CacheServer

section
variable {p : Params} {s s₀ s' : Cluster} {m : Mapped} {req : Request} {d : Draws} {id size : Nat}

/-! ## Chunk ids -/

/-- All copies on a server have chunk ids below `n`. -/
def SmallIds (p : Params) (c : CacheServer) : Prop :=
  ∀ id o, c.cache.getObj id = some o → o.info.chunkId < p.n

/-- A write that keeps chunk ids below `n`. -/
def SmallWrite (p : Params) (w : Write) : Prop :=
  ∀ info, info.chunkId < p.n → (w.info info).chunkId < p.n

theorem smallIds_put {c c' : CacheServer} {w : Write} {t : CacheType} (hn : 0 < p.n)
    (H : SmallIds p c) (hw : SmallWrite p w) (h : c.put id w.size t w.info = .ok c') :
    SmallIds p c' := by
  intro id' o ho
  cases hav : c.available with
  | true =>
    have h := put_available hav h
    by_cases hid : id' = id
    · subst hid
      rw [h.self] at ho
      cases ho
      refine hw _ ?_
      cases hget : c.cache.getObj id' with
      | none => rw [Cache.gotten, hget]; exact hn
      | some o => rw [Cache.gotten_eq_of_some hget]; exact H id' o hget
    · exact H id' o (h.other id' o hid ho)
  | false =>
    obtain ⟨⟨o₀, ho₀⟩, rfl⟩ := put_unavailable hav h
    by_cases hid : id' = id
    · subst hid
      rw [Cache.getObj_setInfo_self ho₀] at ho
      cases ho
      exact hw _ (H id' o₀ ho₀)
    · rw [Cache.getObj_setInfo_other hid] at ho
      exact H id' o ho

theorem smallWrite_full {x : Nat} : SmallWrite p (fullWrite req x) := fun _ h => h

theorem smallWrite_chunk {x size j : Nat} (hj : j < p.n) : SmallWrite p ⟨x, size, chunkInfo j⟩ :=
  fun _ _ => Nat.lt_of_le_of_lt (Nat.mod_le _ _) hj

theorem Served.smallWrites {hit : ClusterHit} (hk : p.k ≤ p.n) (h : Served p s req m s' hit) :
    ∃ ws, (∀ w ∈ ws, SmallWrite p w) ∧ Effect p req.objId ws s s' := by
  cases h with
  | fullHit _ _ effect | fullMiss _ _ _ effect =>
    refine ⟨_, fun w hw => ?_, effect⟩
    obtain ⟨x, -, rfl⟩ := List.mem_map.mp hw
    exact smallWrite_full
  | chunkHit _ hit same =>
    refine ⟨_, fun w hw => ?_, hit.effect.trans_same same⟩
    obtain ⟨⟨i, j⟩, hij, rfl⟩ := List.mem_map.mp hw
    have hj := List.mem_range.mp (List.mem_filter.mp (List.of_mem_zip hij).2).1
    rw [length_mapped hit.length] at hj
    exact smallWrite_chunk hj
  | uncounted _ _ same | refused _ _ same => exact ⟨[], by simp, same.effect⟩
  | chunkMiss _ _ effect =>
    refine ⟨_, fun w hw => ?_, effect⟩
    obtain ⟨i, hi, rfl⟩ := List.mem_map.mp hw
    exact smallWrite_chunk (lt_of_mem_missPlaces hk hi)

theorem smallIds_step (hn : 0 < p.n) (hk : p.k ≤ p.n) {op : Op}
    (H : ∀ x, SmallIds p (s.servers x)) (h : step p s op = .ok s') (x : Nat) :
    SmallIds p (s'.servers x) := by
  rcases step_cases h with ⟨req, d, m, hit, rfl, -, -, hserved⟩ | ⟨-, hcache⟩
  · obtain ⟨ws, hws, heff⟩ := hserved.smallWrites hk
    exact heff.writes.induct (fun w hw _ _ _ H h => smallIds_put hn H (hws w hw) h) (H x)
  · intro id o ho
    rw [hcache] at ho
    exact H x id o ho

/-! ## Accesses -/

/-- The servers at which a request accesses its object. -/
def accessed (p : Params) (s : Cluster) (req : Request) (d : Draws) : List Nat :=
  match findMappedServers p s req d with
  | .error _ => []
  | .ok m =>
    match s.findObj p m req.objId with
    | .ok (some (_, .fullObj)) => m.serverIdxs.take 2
    | .ok (some (_, .chunkObj)) => m.serverIdxs.take p.n
    | .ok none =>
      if (s.shouldAdmit p req).2 then
        if codes p req.objSize then (missPlaces p).map fun i => m.serverIdxs.getD i 0
        else m.serverIdxs.take 2
      else []
    | _ => []

/-- A step of the cluster and of a log: for every server the objects in the order of accesses. -/
def traceStep (p : Params) (sl : Cluster × (Nat → List Nat)) (op : Op) :
    Except Fault (Cluster × (Nat → List Nat)) :=
  (step p sl.1 op).map fun s' => (s', fun x =>
    match op with
    | .get req d => if x ∈ accessed p sl.1 req d then sl.2 x ++ [req.objId] else sl.2 x
    | _ => sl.2 x)

/-- The object is the newest one of a cache. -/
def Newest (id : Nat) (c : CacheServer) : Prop := c.cache.ids.getLast? = some id

/-- After a request on the chunk path the object is the newest one on all mapped servers. -/
def Refreshed (p : Params) (s : Cluster) (op : Op) (s' : Cluster) : Prop :=
  match op with
  | .get req d => ∀ m, ChunkPath p s req d m →
    ∀ x ∈ m.serverIdxs.take p.n, Newest req.objId (s'.servers x)
  | _ => True

/-- When a request comes that is served on the chunk path, the object is the newest one on the
mapped servers that have a correct chunk. -/
def Fresh (p : Params) (s : Cluster) (op : Op) : Prop :=
  match op with
  | .get req d => ∀ m, ChunkPath p s req d m → ∀ i < p.n,
    statusAt s req.objId (m.serverIdxs.take p.n) i = .correctChunk →
    Newest req.objId (s.servers (m.serverIdxs.getD i 0))
  | _ => True

/-- The object of an access goes to the end of the list; others are evicted from its start. -/
def Touched (id : Nat) (c c' : CacheServer) : Prop :=
  ∃ d, c'.cache.ids = (c.cache.ids.filter (· ≠ id)).drop d ++ [id]

theorem Touched.newest {c c' : CacheServer} (h : Touched id c c') : Newest id c' := by
  obtain ⟨d, h⟩ := h
  rw [Newest, h, List.getLast?_concat]

theorem touched_of_newest {c : CacheServer} (h : Newest id c) : Touched id c c := by
  obtain ⟨pre, hpre⟩ : ∃ pre, c.cache.ids = pre ++ [id] := List.getLast?_eq_some_iff.mp h
  have hnodup : c.cache.ids.Nodup := c.cache.nodup
  rw [hpre] at hnodup
  have hnot : id ∉ pre := fun hmem => (List.nodup_append.mp hnodup).2.2 id hmem id (by simp) rfl
  refine ⟨0, ?_⟩
  rw [hpre, List.drop_zero, List.filter_append, List.filter_eq_self.mpr fun y hy => ?_]
  · simp
  · rw [decide_eq_true_eq]
    rintro rfl
    exact hnot hy

theorem touched_of_put {c c' : CacheServer} {t : CacheType} {f : ObjInfo → ObjInfo}
    (hlru : c.cache.alg = .lru) (hav : c.available = true) (h : c.put id size t f = .ok c') :
    Touched id c c' := (put_available hav h).recent hlru

/-- Writes to different servers touch them and no others. -/
theorem touched_of_effect {ws : List Write} (hlru : ∀ x, (s.servers x).cache.alg = .lru)
    (hnodup : (ws.map Write.server).Nodup)
    (hav : ∀ x ∈ ws.map Write.server, (s.servers x).available = true) (heff : Effect p id ws s s')
    (x : Nat) : (x ∈ ws.map Write.server → Touched id (s.servers x) (s'.servers x)) ∧
      (x ∉ ws.map Write.server → s'.servers x = s.servers x) := by
  constructor
  · intro hx
    have hup := hav x hx
    obtain ⟨w, hw, rfl⟩ := List.mem_map.mp hx
    obtain ⟨t, hput⟩ := heff.writes.written hnodup hw
    exact touched_of_put (hlru _) hup hput
  · intro hx
    exact heff.writes.unwritten fun w hw heq => hx (List.mem_map.mpr ⟨w, hw, heq⟩)

/-- The modes and codes of the chunk path. -/
structure Coded (p : Params) : Prop where
  mode : p.mode = .c2dn ∨ p.mode = .c2dnAddN
  two : 2 < p.n
  le : p.k ≤ p.n

/-- Objects that are not coded have two copies. -/
theorem replicas_eq (hmode : p.mode = .c2dn ∨ p.mode = .c2dnAddN) {l : List Nat}
    (h : replicas p m = .ok l) : l = m.serverIdxs.take 2 := by
  unfold replicas at h
  rcases hmode with hm | hm <;> rw [hm] at h <;> exact (firstIdxs_eq_ok h).2

/-- What a request on a mapped bucket relies on. -/
structure Mapped.Ok (p : Params) (s : Cluster) (m : Mapped) : Prop where
  row : Row p s m.serverIdxs
  lru : ∀ x, (s.servers x).cache.alg = .lru
  small : ∀ x, SmallIds p (s.servers x)

theorem Mapped.Ok.length (M : m.Ok p s) : p.n ≤ m.serverIdxs.length := by
  rw [M.row.length]
  exact Nat.le_add_right _ _

theorem Mapped.Ok.full (M : m.Ok p s) (C : Coded p)
    (heff : Effect p req.objId ((m.serverIdxs.take 2).map (fullWrite req)) s s') (x : Nat) :
    (x ∈ m.serverIdxs.take 2 → Touched req.objId (s.servers x) (s'.servers x)) ∧
      (x ∉ m.serverIdxs.take 2 → s'.servers x = s.servers x) := by
  have hmap : ((m.serverIdxs.take 2).map (fullWrite req)).map Write.server =
      m.serverIdxs.take 2 := by
    rw [List.map_map]
    exact List.map_id _
  have h := touched_of_effect M.lru (hmap.symm ▸ M.row.nodup.sublist
    (List.take_prefix_take_left (Nat.le_of_lt C.two)).sublist) (fun y hy => ?_) heff x
  · rwa [hmap] at h
  · rw [hmap] at hy
    exact M.row.available y (List.mem_of_mem_take hy)

theorem Mapped.Ok.miss (M : m.Ok p s) (C : Coded p)
    (heff : Effect p id ((missPlaces p).map (chunkWrite m size)) s s') (x : Nat) :
    (x ∈ (missPlaces p).map (fun i => m.serverIdxs.getD i 0) →
        Touched id (s.servers x) (s'.servers x)) ∧
      (x ∉ (missPlaces p).map (fun i => m.serverIdxs.getD i 0) → s'.servers x = s.servers x) := by
  have hplace : ∀ i ∈ missPlaces p, i < p.n := fun i hi => lt_of_mem_missPlaces C.le hi
  have hmap : ((missPlaces p).map (chunkWrite m size)).map Write.server =
      (missPlaces p).map fun i => m.serverIdxs.getD i 0 := by
    rw [List.map_map]
    rfl
  have h := touched_of_effect M.lru ?_ (fun y hy => ?_) heff x
  · rwa [hmap] at h
  · rw [hmap]
    refine List.Nodup.map_on (fun i hi i' hi' heq => ?_) nodup_missPlaces
    exact mapped_inj M.length M.row.nodup (hplace i hi) (hplace i' hi') heq
  · rw [hmap] at hy
    obtain ⟨i, hi, rfl⟩ := List.mem_map.mp hy
    exact M.row.available _ (List.mem_of_mem_take (mem_mapped_of_lt M.length (hplace i hi)))

/-- On the chunk path the servers without a correct chunk are touched, the others are as before. -/
theorem Mapped.Ok.hit (M : m.Ok p s) (heff : Effect p id (restoreWrites p s m id size) s s') :
    (∀ i < p.n, statusAt s id (m.serverIdxs.take p.n) i ≠ .correctChunk →
      Touched id (s.servers (m.serverIdxs.getD i 0)) (s'.servers (m.serverIdxs.getD i 0))) ∧
    (∀ i < p.n, statusAt s id (m.serverIdxs.take p.n) i = .correctChunk →
      s'.servers (m.serverIdxs.getD i 0) = s.servers (m.serverIdxs.getD i 0)) ∧
    ∀ x, x ∉ m.serverIdxs.take p.n → s'.servers x = s.servers x := by
  have hsmall : ∀ j ∈ heldIds s id (m.serverIdxs.take p.n), j < p.n := by
    intro j hj
    obtain ⟨x, -, hx⟩ := mem_heldIds.mp hj
    unfold heldChunk at hx
    split at hx
    · obtain ⟨o, ho, rfl⟩ := Option.map_eq_some_iff.mp hx
      exact M.small x id o ho
    · cases hx
  have hmapped : ∀ y ∈ (restoreWrites p s m id size).map Write.server,
      y ∈ m.serverIdxs.take p.n := by
    intro y hy
    obtain ⟨w, hw, rfl⟩ := List.mem_map.mp hy
    obtain ⟨i, hi, -, heq⟩ := wrong_of_mem M.length hw
    exact heq ▸ mem_mapped_of_lt M.length hi
  have htouched := touched_of_effect M.lru (nodup_restoreWrites M.length M.row.nodup hsmall)
    (fun y hy => M.row.available y (List.mem_of_mem_take (hmapped y hy))) heff
  refine ⟨fun i hi hwrong => (htouched _).1 ?_, fun i hi hc =>
    servers_of_correct M.length M.row.nodup heff hi hc, fun x hx =>
    (htouched x).2 fun hmem => hx (hmapped x hmem)⟩
  rw [map_server_restoreWrites M.length hsmall]
  refine List.mem_map.mpr ⟨i, List.mem_filter.mpr ⟨?_, by simpa using hwrong⟩, rfl⟩
  rw [List.mem_range, length_mapped M.length]
  exact hi

/-! ## Requests -/

/-- A request that misses and is not admitted changes no server. -/
theorem get_of_refused {r : Cluster × ClusterHit} (hm : findMappedServers p s req d = .ok m)
    (hfound : s.findObj p m req.objId = .ok none) (hpass : (s.shouldAdmit p req).2 = false)
    (h : s.get p req d = .ok r) : r.1.servers = s.servers := by
  have hadmitted : ((s.countReq m req).shouldAdmit p req).2 = false := by
    rw [← hpass]
    unfold shouldAdmit
    split <;> rfl
  unfold get at h
  rw [hm] at h
  change ((s.findObj p m req.objId).bind _) = _ at h
  rw [hfound] at h
  change Except.bind (serveMiss p ((s.countReq m req).shouldAdmit p req).1 m req
    ((s.countReq m req).shouldAdmit p req).2) _ = _ at h
  rw [hadmitted] at h
  cases h
  exact (shouldAdmit_same (s := s.countReq m req)).servers

theorem exists_place (hlen : p.n ≤ m.serverIdxs.length) {x : Nat}
    (hx : x ∈ m.serverIdxs.take p.n) : ∃ i < p.n, m.serverIdxs.getD i 0 = x := by
  obtain ⟨i, hi, rfl⟩ := List.mem_iff_getElem.mp hx
  have hi' : i < p.n := length_mapped hlen ▸ hi
  exact ⟨i, hi', by rw [List.getElem_take, List.getD_eq_getElem]⟩

/-- The writes of a request on the chunk path. -/
theorem effect_of_chunkPath {r : Cluster × ClusterHit} (hpath : ChunkPath p s req d m)
    (h : s.get p req d = .ok r) :
    Effect p req.objId (restoreWrites p s m req.objId (p.chunkObjSize req.objSize)) s r.1 := by
  obtain ⟨hm, x, hx⟩ := hpath
  obtain ⟨m', hm', hserved⟩ := get_ends.ok h
  obtain rfl := Except.ok.inj (hm.symm.trans hm')
  generalize r.1 = s', r.2 = hit at hserved
  cases hserved with
  | chunkHit found hit same => exact hit.effect.trans_same same
  | fullHit found _ _ | refused found _ _ | fullMiss found _ _ _ | chunkMiss found _ _ =>
    rw [hx] at found; cases found
  | uncounted found unknown _ =>
    rw [hx] at found
    cases found
    rcases unknown with h | h <;> cases h

/-- What a request does to a server. -/
structure Accesses (p : Params) (s : Cluster) (req : Request) (d : Draws) (s' : Cluster) (x : Nat) :
    Prop where
  same : x ∉ accessed p s req d → s'.servers x = s.servers x
  touched : Fresh p s (.get req d) → x ∈ accessed p s req d →
    Touched req.objId (s.servers x) (s'.servers x)

theorem accesses_of_list {l : List Nat} (hl : accessed p s req d = l) {x : Nat}
    (h : (x ∈ l → Touched req.objId (s.servers x) (s'.servers x)) ∧
      (x ∉ l → s'.servers x = s.servers x)) : Accesses p s req d s' x :=
  ⟨fun hx => h.2 (hl ▸ hx), fun _ hx => h.1 (hl ▸ hx)⟩

theorem accesses_of_same (h : s'.servers = s.servers) (hl : accessed p s req d = []) {x : Nat} :
    Accesses p s req d s' x :=
  accesses_of_list hl ⟨nofun, fun _ => congrFun h x⟩

theorem get_accesses (C : Coded p) (M : m.Ok p s) (hm : findMappedServers p s req d = .ok m)
    {r : Cluster × ClusterHit} (h : s.get p req d = .ok r) (x : Nat) :
    Accesses p s req d r.1 x := by
  obtain ⟨m', hm', hserved⟩ := get_ends.ok h
  obtain rfl := Except.ok.inj (hm.symm.trans hm')
  have hrefused := fun hfound hpass => get_of_refused hm hfound hpass h
  generalize r.1 = s', r.2 = hit at hserved hrefused
  have hmiss : s.findObj p m req.objId = .ok none → accessed p s req d =
      if (s.shouldAdmit p req).2 then
        if codes p req.objSize then (missPlaces p).map fun i => m.serverIdxs.getD i 0
        else m.serverIdxs.take 2
      else [] := fun hfound => by rw [accessed, hm]; simp only [hfound]
  cases hserved with
  | fullHit found copies effect =>
    obtain rfl := replicas_eq C.mode (copies (by rcases C.mode with h | h <;> rw [h] <;> nofun)
      (by rcases C.mode with h | h <;> rw [h] <;> nofun))
    exact accesses_of_list (by rw [accessed, hm]; simp only [found]) (M.full C effect x)
  | chunkHit found hit same =>
    have hl : accessed p s req d = m.serverIdxs.take p.n := by
      rw [accessed, hm]; simp only [found]
    obtain ⟨hwrong, hcorrect, hother⟩ := M.hit (hit.effect.trans_same same)
    refine ⟨fun hx => hother x (hl ▸ hx), fun hfresh hx => ?_⟩
    rw [hl] at hx
    obtain ⟨i, hi, rfl⟩ := exists_place M.length hx
    by_cases hstat : statusAt s req.objId (m.serverIdxs.take p.n) i = .correctChunk
    · rw [hcorrect i hi hstat]
      exact touched_of_newest (hfresh m ⟨hm, _, found⟩ i hi hstat)
    · exact hwrong i hi hstat
  | uncounted found unknown same =>
    refine accesses_of_same same.servers ?_
    rcases unknown with rfl | rfl <;> (rw [accessed, hm]; simp only [found])
  | refused found refused same =>
    exact accesses_of_same same.servers (by rw [hmiss found, refused]; rfl)
  | fullMiss found policy copies effect =>
    obtain rfl := replicas_eq C.mode copies
    cases hpass : (s.shouldAdmit p req).2 with
    | true =>
      refine accesses_of_list ?_ (M.full C effect x)
      rw [hmiss found, hpass, codes_of_policy policy]
      rfl
    | false =>
      exact accesses_of_same (hrefused found hpass) (by rw [hmiss found, hpass]; rfl)
  | chunkMiss found policy effect =>
    cases hpass : (s.shouldAdmit p req).2 with
    | true =>
      refine accesses_of_list ?_ (M.miss C effect x)
      rw [hmiss found, hpass, codes_of_policy policy]
      rfl
    | false =>
      exact accesses_of_same (hrefused found hpass) (by rw [hmiss found, hpass]; rfl)

/-! ## The order -/

theorem dedup_concat {l : List Nat} {a : Nat} :
    (l ++ [a]).dedup = l.dedup.filter (· ≠ a) ++ [a] := by
  induction l with
  | nil => rfl
  | cons b l ih =>
    by_cases hba : b = a
    · subst hba
      rw [List.cons_append, List.dedup_cons_of_mem (by simp), ih]
      by_cases hb : b ∈ l
      · rw [List.dedup_cons_of_mem hb]
      · rw [List.dedup_cons_of_notMem hb, List.filter_cons_of_neg (by simp)]
    · by_cases hb : b ∈ l
      · rw [List.cons_append, List.dedup_cons_of_mem (by simp [hb]), ih, List.dedup_cons_of_mem hb]
      · rw [List.cons_append, List.dedup_cons_of_notMem (by simp [hb, hba]), ih,
          List.dedup_cons_of_notMem hb, List.filter_cons_of_pos (by simp [hba]), List.cons_append]

/-- A cache has its objects in the order of their last accesses. -/
def InOrder (c : CacheServer) (log : List Nat) : Prop := c.cache.ids.Sublist log.dedup

theorem Touched.inOrder {c c' : CacheServer} {log : List Nat} (h : Touched id c c')
    (H : InOrder c log) : InOrder c' (log ++ [id]) := by
  obtain ⟨d, h⟩ := h
  rw [InOrder, h, dedup_concat]
  exact ((List.drop_sublist _ _).trans (H.filter _)).append (List.Sublist.refl _)

/-- What holds of every reachable state. -/
structure Reached (p : Params) (s : Cluster) : Prop where
  mapping : MappingOk p s
  lru : ∀ x, (s.servers x).cache.alg = .lru
  small : ∀ x, SmallIds p (s.servers x)

theorem Reached.mapped (R : Reached p s) (hm : findMappedServers p s req d = .ok m) : m.Ok p s :=
  ⟨R.mapping.row _ _ (mapped_row hm).2, R.lru, R.small⟩

section
variable (C : Coded p) (hflow : p.parityRebalance = true → FindsFlow p.maxFlow)
include C

theorem Coded.pos : 0 < p.n := Nat.lt_trans (by decide) C.two

include hflow in
theorem reached_step {op : Op} (R : Reached p s) (h : step p s op = .ok s') : Reached p s' := by
  refine ⟨mappingOk_step C.pos hflow R.mapping h, fun x => ?_,
    smallIds_step C.pos C.le R.small h⟩
  rcases step_cases h with ⟨req, d, m, hit, -, -, -, hserved⟩ | ⟨-, hcache⟩
  · obtain ⟨ws, heff⟩ := hserved.effect
    exact (cachesOk_writes heff.writes x).1.trans (R.lru x)
  · rw [hcache]
    exact R.lru x

include hflow in
theorem reached_new (hlru : p.alg = .lru) (h : new p = .ok s) : Reached p s := by
  have hservers := new_servers h
  refine ⟨mappingOk_run C.pos hflow h (rfl : run p [] s = .ok s), fun x => ?_, fun x id o ho => ?_⟩
  · rw [hservers]
    exact hlru
  · rw [hservers] at ho
    cases ho

/-- A request refreshes the mapped servers if and only if the correct chunks are fresh. -/
theorem refreshed_iff {op : Op} (R : Reached p s) (h : step p s op = .ok s') :
    Refreshed p s op s' ↔ Fresh p s op := by
  cases op with
  | get req d =>
    obtain ⟨hit, hget⟩ := get_of_step h
    refine ⟨fun href m hpath i hi hstat => ?_, fun hfresh m hpath x hx => ?_⟩
    · have M := R.mapped hpath.1
      have hcorrect := (M.hit (effect_of_chunkPath hpath hget)).2.1 i hi hstat
      rw [← hcorrect]
      exact href m hpath _ (mem_mapped_of_lt M.length hi)
    · refine ((get_accesses C (R.mapped hpath.1) hpath.1 hget x).touched hfresh ?_).newest
      obtain ⟨hm, y, hfound⟩ := hpath
      rw [accessed, hm]
      simpa only [hfound] using hx
  | failOneServer | recoverOneServer | populateHashMapping => exact Iff.rfl

theorem inOrder_step {sl sl' : Cluster × (Nat → List Nat)} {op : Op} (R : Reached p sl.1)
    (H : ∀ x, InOrder (sl.1.servers x) (sl.2 x)) (hfresh : Fresh p sl.1 op)
    (h : traceStep p sl op = .ok sl') (x : Nat) : InOrder (sl'.1.servers x) (sl'.2 x) := by
  obtain ⟨s', hs', rfl⟩ := map_eq_ok h
  rcases step_cases hs' with ⟨req, d, m, hit, rfl, hm, hget, -⟩ | ⟨hop, hcache⟩
  · have hacc := get_accesses C (R.mapped hm) hm hget x
    dsimp only
    split
    · next hx => exact (hacc.touched hfresh hx).inOrder (H x)
    · next hx =>
      rw [hacc.same hx]
      exact H x
  · have hx : InOrder (s'.servers x) (sl.2 x) := by
      rw [InOrder, hcache]
      exact H x
    cases op with
    | get req d => exact absurd rfl (hop req d)
    | failOneServer | recoverOneServer | populateHashMapping => exact hx

include hflow in
/-- **The order of evictions.** At every step of a run the object is the newest one on all mapped
servers if and only if the correct chunks are fresh. In runs with fresh chunks the caches are in the
order of the last accesses. -/
theorem run_refreshed_iff (hlru : p.alg = .lru) (hnew : new p = .ok s₀) (ops : List Op) :
    Steps (traceStep p) (fun sl op sl' => Refreshed p sl.1 op sl'.1 ↔ Fresh p sl.1 op) ops
      (s₀, fun _ => []) ∧
    (Steps (traceStep p) (fun sl op _ => Fresh p sl.1 op) ops (s₀, fun _ => []) →
      Steps (traceStep p) (fun _ _ sl' => ∀ x, InOrder (sl'.1.servers x) (sl'.2 x)) ops
        (s₀, fun _ => [])) := by
  have R₀ := reached_new C hflow hlru hnew
  refine ⟨?_, fun hfresh => ?_⟩
  · refine Steps.of_inv (I := fun sl => Reached p sl.1) (C := fun _ _ _ => True)
      (fun sl op sl' R h _ => ?_) R₀ (Steps.of_forall fun _ _ _ _ => trivial)
    obtain ⟨s', hs', rfl⟩ := map_eq_ok h
    exact ⟨reached_step C hflow R hs', refreshed_iff C R hs'⟩
  · refine Steps.of_inv
      (I := fun sl => Reached p sl.1 ∧ ∀ x, InOrder (sl.1.servers x) (sl.2 x))
      (fun sl op sl' H h hfresh => ?_) ⟨R₀, fun x => ?_⟩ hfresh
    · have horder := inOrder_step C H.1 H.2 hfresh h
      obtain ⟨s', hs', rfl⟩ := map_eq_ok h
      exact ⟨⟨reached_step C hflow H.1 hs', horder⟩, horder⟩
    · rw [InOrder, new_servers hnew]
      exact List.nil_sublist _

end

end

/-! ## Two objects

After requests for objects 0 and 100 of the same bucket, a further request for object 0 leaves object
100 as the newest one. -/

def otherReq : Request := .ofSize 100 30 (.refl true)

/-- What a request for object 0 after `ops` finds, and the newest object of server 0 after it. -/
def newestAfter (p : Params) (ops : List Op) :
    Except Fault (Option (Nat × ObjType) × List Nat × Option Nat) := do
  let s₀ ← new p
  let s ← run p ops s₀
  let m ← findMappedServers p s repeatReq ⟨0, 0, 0⟩
  let found ← s.findObj p m 0
  let r ← s.get p repeatReq ⟨0, 0, 0⟩
  .ok (found, m.serverIdxs.take p.n, (r.1.servers 0).cache.ids.getLast?)

set_option maxRecDepth 100000 in
theorem twoObjects_refreshed_iff : ∃ s₀, new (lineParams .c2dnAddN 3 2 5 (by decide)) = .ok s₀ ∧
    Steps (traceStep (lineParams .c2dnAddN 3 2 5 (by decide)))
      (fun sl op sl' => Refreshed (lineParams .c2dnAddN 3 2 5 (by decide)) sl.1 op sl'.1 ↔
        Fresh (lineParams .c2dnAddN 3 2 5 (by decide)) sl.1 op)
      [.get repeatReq ⟨0, 0, 0⟩, .get otherReq ⟨0, 0, 0⟩, .get repeatReq ⟨0, 0, 0⟩]
      (s₀, fun _ => []) := by
  have hout : repeatOutcome (lineParams .c2dnAddN 3 2 5 (by decide)) [] = .ok (true, some true) :=
    eq_ok_of_toOption (by decide +kernel)
  obtain ⟨s₀, -, -, hnew, -⟩ := repeatOutcome_eq_ok hout
  exact ⟨s₀, hnew, (run_refreshed_iff ⟨.inr rfl, by decide, by decide⟩ (fun h => by cases h) rfl
    hnew _).1⟩

theorem not_refreshed_of_newest {p : Params} {ops : List Op}
    (h : newestAfter p ops = .ok (some (0, .chunkObj), [0, 1, 2], some 100)) :
    ∃ s₀ s s', new p = .ok s₀ ∧ run p ops s₀ = .ok s ∧
      step p s (.get repeatReq ⟨0, 0, 0⟩) = .ok s' ∧
      ¬ Refreshed p s (.get repeatReq ⟨0, 0, 0⟩) s' := by
  obtain ⟨s₀, hs₀, h⟩ := bind_eq_ok h
  obtain ⟨s, hs, h⟩ := bind_eq_ok h
  obtain ⟨m, hm, h⟩ := bind_eq_ok h
  obtain ⟨found, hfound, h⟩ := bind_eq_ok h
  obtain ⟨r, hr, h⟩ := bind_eq_ok h
  obtain ⟨rfl, hidxs, hnewest⟩ : found = some (0, .chunkObj) ∧ m.serverIdxs.take p.n = [0, 1, 2] ∧
      (r.1.servers 0).cache.ids.getLast? = some 100 := by
    simpa using Except.ok.inj h
  refine ⟨s₀, s, r.1, hs₀, hs, by rw [step, hr]; rfl, fun h => ?_⟩
  have h : (r.1.servers 0).cache.ids.getLast? = some 0 :=
    h m ⟨hm, 0, hfound⟩ 0 (by rw [hidxs]; decide)
  rw [hnewest] at h
  cases h

set_option maxRecDepth 100000 in
theorem twoObjects_not_refreshed : ∃ s₀ s s',
    new (lineParams .c2dnAddN 3 2 5 (by decide)) = .ok s₀ ∧
    run (lineParams .c2dnAddN 3 2 5 (by decide))
      [.get repeatReq ⟨0, 0, 0⟩, .get otherReq ⟨0, 0, 0⟩] s₀ = .ok s ∧
    step (lineParams .c2dnAddN 3 2 5 (by decide)) s (.get repeatReq ⟨0, 0, 0⟩) = .ok s' ∧
    ¬ Refreshed (lineParams .c2dnAddN 3 2 5 (by decide)) s (.get repeatReq ⟨0, 0, 0⟩) s' :=
  not_refreshed_of_newest (eq_ok_of_toOption (by decide +kernel))

end C2DN.Simulator.Cluster
