import C2DN.Simulator.Restore

/-!
# The cases of `get`

A call of `get` that returns has served its request in one of six ways (`Served`). In each of them
the servers have changed by a list of writes of the requested object.
-/

namespace C2DN.Simulator.Cluster

open CacheServer

section
variable {p : Params} {s s₁ s' : Cluster} {m : Mapped} {req : Request} {d : Draws} {id size : Nat}

/-! ## Full objects -/

/-- The write of a full copy. -/
def fullWrite (req : Request) (server : Nat) : Write := ⟨server, req.objSize, fullInfo⟩

theorem storeFull_ends {server : Nat} :
    Ends (storeFull p req s server) (Effect p req.objId [fullWrite req server] s) NoTypeFault :=
  onServer_ends (w := fullWrite req server)

theorem replicas_ends : Ends (replicas p m) (fun l => replicas p m = .ok l) NoTypeFault := by
  have hfirst : ∀ {r : Nat} {e : Fault}, firstIdxs m.serverIdxs r = .error e → NoTypeFault e := by
    intro r e h
    unfold firstIdxs at h
    split at h
    · cases h; exact ⟨nofun, nofun⟩
    · cases h
  cases h : replicas p m with
  | ok l => rfl
  | error e =>
    unfold replicas at h
    split at h
    case h_1 | h_2 => cases h
    case h_9 | h_10 => cases h; exact ⟨nofun, nofun⟩
    all_goals exact hfirst h

/-- Full copies go to the replicas; a mode with a gutter cache may write others. -/
theorem cacheHitFullObj_ends : Ends (cacheHitFullObj p s m req d)
    (fun s' => ∃ l, (p.mode ≠ .twoRepAlwaysGutter → p.mode ≠ .erft → replicas p m = .ok l) ∧
      Effect p req.objId (l.map (fullWrite req)) s s') NoTypeFault := by
  unfold cacheHitFullObj
  have hreplicas : Ends ((replicas p m).bind fun l => l.foldlM (storeFull p req) s)
      (fun s' => ∃ l, (p.mode ≠ .twoRepAlwaysGutter → p.mode ≠ .erft → replicas p m = .ok l) ∧
        Effect p req.objId (l.map (fullWrite req)) s s') NoTypeFault := by
    refine replicas_ends.bind fun l hl => ?_
    refine (foldlM_ends (w := fullWrite req) fun s x _ => ?_).imp fun s' heff =>
      ⟨l, fun _ _ => hl, heff⟩
    exact storeFull_ends
  have hgutter : p.mode = .twoRepAlwaysGutter ∨ p.mode = .erft →
      Ends ((idxAt m.serverIdxs 0).bind fun x => (storeFull p req s x).bind fun s =>
        if p.mode = .erft ∨ d.gutter % 100 < 100 then
          (idxAt m.serverIdxs 1).bind fun y =>
            s.onServer p y fun c => c.putFull req.objId req.objSize .gutterCache
        else .ok s)
      (fun s' => ∃ l, (p.mode ≠ .twoRepAlwaysGutter → p.mode ≠ .erft → replicas p m = .ok l) ∧
        Effect p req.objId (l.map (fullWrite req)) s s') NoTypeFault := by
    intro hmode
    have hany : ∀ l : List Nat,
        p.mode ≠ .twoRepAlwaysGutter → p.mode ≠ .erft → replicas p m = .ok l :=
      fun l h₁ h₂ => absurd hmode (not_or.mpr ⟨h₁, h₂⟩)
    refine idxAt_ends.bind fun x _ => storeFull_ends.bind fun s₁ heff => ?_
    split
    · refine idxAt_ends.bind fun y _ => ?_
      refine (onServer_ends (w := fullWrite req y)).imp fun s' heff' => ?_
      exact ⟨[x, y], hany _, heff.trans heff'⟩
    · exact ⟨[x], hany _, heff⟩
  split
  · next h => exact hgutter (.inl h)
  · next h => exact hgutter (.inr h)
  · exact idxAt_ends.bind fun x _ => storeFull_ends.bind fun s₁ _ => ⟨nofun, nofun⟩
  · exact hreplicas

theorem cacheMissFullObj_ends : Ends (cacheMissFullObj p s m req)
    (fun s' => ∃ l, replicas p m = .ok l ∧ Effect p req.objId (l.map (fullWrite req)) s s')
    NoTypeFault := by
  refine replicas_ends.bind fun l hl => ?_
  refine (foldlM_ends (w := fullWrite req) fun s x _ => ?_).imp fun s' heff => ⟨l, hl, heff⟩
  have hsame : SameServers s (s.addWriteLoad x req.objSize) := ⟨rfl, rfl, rfl⟩
  exact storeFull_ends.imp fun s' heff => hsame.trans_effect heff

/-! ## Chunks -/

/-- The write of the chunk with the place of the server as its id. -/
def chunkWrite (m : Mapped) (size i : Nat) : Write := ⟨m.serverIdxs.getD i 0, size, chunkInfo i⟩

theorem storeChunks_ends {is : List Nat} : Ends (storeChunks p m id size is s)
    (Effect p id (is.map (chunkWrite m size)) s) NoTypeFault := by
  refine foldlM_ends fun s i _ => ?_
  refine idxAt_ends.bind fun x hx => ?_
  have hsame : SameServers s (s.addWriteLoad x size) := ⟨rfl, rfl, rfl⟩
  rw [← getD_of_getElem? hx.2] at hsame ⊢
  exact (onServer_ends (w := chunkWrite m size i)).imp fun s' heff => hsame.trans_effect heff

/-- The places of the servers to which a miss writes chunks. -/
def missPlaces (p : Params) : List Nat :=
  List.range p.k ++
    if p.mode = .c2dnAddN ∨ p.mode = .c2dnAddNThreeRep then List.range' p.k (p.n - p.k) else []

theorem cacheMissChunkObj_ends : Ends (cacheMissChunkObj p s m req)
    (Effect p req.objId ((missPlaces p).map (chunkWrite m (p.chunkObjSize req.objSize))) s)
    NoTypeFault := by
  unfold cacheMissChunkObj missPlaces
  rw [List.map_append]
  refine Ends.bind storeChunks_ends fun s₁ heff => ?_
  have hsame : ∀ s d, SameServers s (s.addIntraCluster d) := fun _ _ => ⟨rfl, rfl, rfl⟩
  have heff := (hsame s _).trans_effect heff
  split
  · exact storeChunks_ends.imp fun s' heff' => heff.trans ((hsame s₁ _).trans_effect heff')
  · rw [List.map_nil, List.append_nil]
    exact heff

theorem storeChunks_places {is : List Nat} (h : storeChunks p m id size is s = .ok s') :
    ∀ i ∈ is, i < m.serverIdxs.length := by
  induction is generalizing s with
  | nil => exact fun i hi => absurd hi List.not_mem_nil
  | cons i is ih =>
    unfold storeChunks at h
    rw [List.foldlM_cons] at h
    obtain ⟨s₁, hs₁, h⟩ := bind_eq_ok h
    obtain ⟨x, hx, -⟩ := bind_eq_ok hs₁
    intro j hj
    rcases List.mem_cons.mp hj with rfl | hj
    · exact (idxAt_eq_ok hx).1
    · exact ih h j hj

/-- The row is long enough for a miss that returns. -/
theorem cacheMissChunkObj_places (h : cacheMissChunkObj p s m req = .ok s') :
    ∀ i ∈ missPlaces p, i < m.serverIdxs.length := by
  unfold cacheMissChunkObj at h
  obtain ⟨s₁, hs₁, h⟩ := bind_eq_ok h
  intro i hi
  rcases List.mem_append.mp hi with hi | hi
  · exact storeChunks_places hs₁ i hi
  · split at hi
    · next hmode =>
      rw [if_pos hmode] at h
      exact storeChunks_places h i hi
    · exact absurd hi List.not_mem_nil

theorem heldChunk_of_same (hsame : SameServers s s₁) : heldChunk s₁ = heldChunk s := by
  funext id x
  rw [heldChunk, hsame.servers]; rfl

/-- What a chunk hit does depends on the servers and the mappings only. -/
theorem ChunkHit.of_same {r : Cluster × Bool × Nat} (hsame : SameServers s s₁)
    (h : ChunkHit p s₁ m id size r) : ChunkHit p s m id size r := by
  have heff := hsame.trans_effect h.effect
  obtain ⟨servers, mapping, prev, _, _, _, _, _, _, _⟩ := s
  obtain ⟨rfl, rfl, rfl⟩ := hsame
  exact ⟨h.nServer, h.length,
    ⟨h.lookable.nodup, h.lookable.lt, h.lookable.length, h.lookable.small⟩,
    h.hits, h.isHit, h.pos, h.le, heff⟩

theorem ExtrasFault.of_same {e : Fault} (hsame : SameServers s s₁)
    (h : ExtrasFault p s₁ m id e) : ExtrasFault p s m id e := by
  unfold ExtrasFault ExtraFault at *
  rwa [heldChunk_of_same hsame, hsame.servers, hsame.prevChMapping] at h

/-! ## Requests -/

/-- How `get` has served a request: the cluster and the result. -/
inductive Served (p : Params) (s : Cluster) (req : Request) (m : Mapped) :
    Cluster → ClusterHit → Prop
  | fullHit {x : Nat} {l : List Nat} {s' : Cluster}
      (found : s.findObj p m req.objId = .ok (some (x, .fullObj)))
      (copies : p.mode ≠ .twoRepAlwaysGutter → p.mode ≠ .erft → replicas p m = .ok l)
      (effect : Effect p req.objId (l.map (fullWrite req)) s s') :
      Served p s req m s' ⟨true, false, false, 0, m.leadServer, .fullObj⟩
  | chunkHit {x : Nat} {r : Cluster × Bool × Nat} {s' : Cluster}
      (found : s.findObj p m req.objId = .ok (some (x, .chunkObj)))
      (hit : ChunkHit p s m req.objId (p.chunkObjSize req.objSize) r) (same : SameServers r.1 s') :
      Served p s req m s' ⟨r.2.1, false, false, r.2.2, m.leadServer, .chunkObj⟩
  | uncounted {x : Nat} {objType : ObjType} {s' : Cluster}
      (found : s.findObj p m req.objId = .ok (some (x, objType)))
      (unknown : objType = .unset ∨ objType = .invalidObj) (same : SameServers s s') :
      Served p s req m s' ⟨false, false, false, 0, m.leadServer, objType⟩
  | refused {s' : Cluster} (found : s.findObj p m req.objId = .ok none)
      (refused : (s.shouldAdmit p req).2 = false) (same : SameServers s s') :
      Served p s req m s' ⟨false, false, false, 0, m.leadServer, .unset⟩
  | fullMiss {l : List Nat} {s' : Cluster} (found : s.findObj p m req.objId = .ok none)
      (policy : checkCodingPolicy p req = .ok false) (copies : replicas p m = .ok l)
      (effect : Effect p req.objId (l.map (fullWrite req)) s s') :
      Served p s req m s' ⟨false, false, false, 0, m.leadServer, .unset⟩
  | chunkMiss {s' : Cluster} (found : s.findObj p m req.objId = .ok none)
      (policy : checkCodingPolicy p req = .ok true)
      (effect : Effect p req.objId
        ((missPlaces p).map (chunkWrite m (p.chunkObjSize req.objSize))) s s')
      (places : ∀ i ∈ missPlaces p, i < m.serverIdxs.length) :
      Served p s req m s' ⟨false, false, false, 0, m.leadServer, .unset⟩

/-- A fault that comes from the type of a copy. -/
def TypeFault (p : Params) (s : Cluster) (req : Request) (m : Mapped) (e : Fault) : Prop :=
  ∃ x objType, s.findObj p m req.objId = .ok (some (x, objType)) ∧
    (objType = .unknownObjType ∨ objType = .chunkObj ∧ ExtrasFault p s m req.objId e)

theorem findMappedServers_ends : Ends (findMappedServers p s req d)
    (fun m => findMappedServers p s req d = .ok m) NoTypeFault := by
  cases h : findMappedServers p s req d with
  | ok m => rfl
  | error e =>
    have hends : Ends (findMappedServers p s req d) (fun _ => True) NoTypeFault := by
      have hbucket : Ends (bucketOf p req) (fun _ => True) NoTypeFault := by
        unfold bucketOf
        split
        · split
          · trivial
          · exact ⟨nofun, nofun⟩
        · trivial
      refine hbucket.bind fun b _ => ?_
      split
      · exact ⟨nofun, nofun⟩
      · exact idxAt_ends.bind fun x _ => idxAt_ends.bind fun y _ => trivial
    exact hends.error h

theorem findObj_ends : Ends (s.findObj p m id) (fun found => s.findObj p m id = .ok found)
    NoTypeFault := by
  cases h : s.findObj p m id with
  | ok found => rfl
  | error e =>
    have hcheck : ∀ x, Ends (s.checkAt p x id) (fun _ => True) NoTypeFault := by
      intro x
      unfold checkAt
      split
      · trivial
      · exact ⟨nofun, nofun⟩
    have hends : Ends (s.findObj p m id) (fun _ => True) NoTypeFault := by
      refine (hcheck _).bind fun t _ => ?_
      split
      · trivial
      · split
        · exact (hcheck _).bind fun t _ => trivial
        · trivial
    exact hends.error h

theorem shouldAdmit_same : SameServers s (s.shouldAdmit p req).1 := by
  unfold shouldAdmit
  split <;> exact ⟨rfl, rfl, rfl⟩

theorem countHit_ends {hit : ClusterHit} (htype : hit.isHit = true →
    hit.objType = .fullObj ∨ hit.objType = .chunkObj) :
    Ends (countHit p s m req hit) (SameServers s) NoTypeFault := by
  unfold countHit
  split
  · next h =>
    refine Ends.guard (fun _ => ⟨nofun, nofun⟩) fun _ => ?_
    rcases htype h with h | h <;> rw [h] <;> exact ⟨rfl, rfl, rfl⟩
  · exact ⟨rfl, rfl, rfl⟩

theorem serveMiss_ends {admitted : Bool} (hfound : s.findObj p m req.objId = .ok none)
    (hadmitted : (s.shouldAdmit p req).2 = admitted) (hsame : SameServers s s₁) :
    Ends (s₁.serveMiss p m req admitted)
      (fun s' => Served p s req m s' ⟨false, false, false, 0, m.leadServer, .unset⟩)
      NoTypeFault := by
  have hread : SameServers s
      ((s₁.addMidgress m.originalServer req.objSize).addReadLoad m.leadServer req.objSize) :=
    hsame.trans ⟨rfl, rfl, rfl⟩
  unfold serveMiss
  dsimp only
  split
  · next h =>
    have hpolicy : Ends (checkCodingPolicy p req) (fun b => checkCodingPolicy p req = .ok b)
        NoTypeFault := by
      cases h : checkCodingPolicy p req with
      | ok b => rfl
      | error e =>
        unfold checkCodingPolicy at h
        split at h
        case h_9 | h_10 => cases h; exact ⟨nofun, nofun⟩
        all_goals cases h
    refine hpolicy.bind fun b hb => ?_
    split
    · next hb' =>
      obtain rfl : b = true := hb'
      cases hmiss : cacheMissChunkObj p ((s₁.addMidgress m.originalServer req.objSize).addReadLoad
          m.leadServer req.objSize) m req with
      | ok s' =>
        have heff := cacheMissChunkObj_ends.ok hmiss
        exact .chunkMiss hfound hb (hread.trans_effect heff) (cacheMissChunkObj_places hmiss)
      | error e => exact cacheMissChunkObj_ends.error hmiss
    · next hb' =>
      obtain rfl : b = false := by simpa using hb'
      refine cacheMissFullObj_ends.imp ?_
      rintro s' ⟨l, hl, heff⟩
      exact .fullMiss hfound hb hl (hread.trans_effect heff)
  · next h =>
    exact .refused hfound (by rw [hadmitted]; simpa using h) (hsame.trans ⟨rfl, rfl, rfl⟩)

/-- **The cases of `get`.** -/
theorem get_ends : Ends (s.get p req d)
    (fun r => ∃ m, findMappedServers p s req d = .ok m ∧ Served p s req m r.1 r.2)
    (fun e => NoTypeFault e ∨
      ∃ m, findMappedServers p s req d = .ok m ∧ TypeFault p s req m e) := by
  unfold get
  refine (findMappedServers_ends.mono (fun _ h => h) fun _ h => Or.inl h).bind fun m hm => ?_
  have hfind : (s.countReq m req).findObj p m req.objId = s.findObj p m req.objId := rfl
  have hadmitted : ((s.countReq m req).shouldAdmit p req).2 = (s.shouldAdmit p req).2 := by
    unfold shouldAdmit
    split <;> rfl
  dsimp only
  rw [hfind]
  refine (findObj_ends.mono (fun _ h => h) fun _ h => Or.inl h).bind fun found hfound => ?_
  have hcount : SameServers s (s.countReq m req) := ⟨rfl, rfl, rfl⟩
  have hsame : SameServers s ((s.countReq m req).shouldAdmit p req).1 :=
    hcount.trans shouldAdmit_same
  generalize (s.countReq m req).shouldAdmit p req = sa at hadmitted hsame
  obtain ⟨s₁, admitted⟩ := sa
  dsimp only at hadmitted hsame ⊢
  cases found with
  | none =>
    refine ((serveMiss_ends hfound hadmitted.symm hsame).mono (fun _ h => h) fun _ h => Or.inl h).bind
      fun s' hserved => ?_
    exact ⟨m, hm, hserved⟩
  | some xt =>
    obtain ⟨x, objType⟩ := xt
    dsimp only
    cases objType with
    | fullObj =>
      have hread : SameServers s (s₁.addReadLoad x req.objSize) :=
        hsame.trans ⟨rfl, rfl, rfl⟩
      refine Ends.bind (P := fun r => (∃ l, (p.mode ≠ .twoRepAlwaysGutter → p.mode ≠ .erft →
        replicas p m = .ok l) ∧ Effect p req.objId (l.map (fullWrite req)) s r.1) ∧
        r.2 = (true, 0)) ?_ ?_
      · refine (cacheHitFullObj_ends.mono (fun _ h => h) fun _ h => Or.inl h).bind ?_
        rintro s' ⟨l, hl, heff⟩
        exact ⟨⟨l, hl, hread.trans_effect heff⟩, rfl⟩
      · rintro ⟨s₂, isHit, hits⟩ ⟨⟨l, hl, heff⟩, heq⟩
        cases heq
        refine ((countHit_ends fun _ => .inl rfl).mono (fun _ h => h) fun _ h => Or.inl h).bind
          fun s' hs' => ?_
        exact ⟨m, hm, .fullHit hfound hl (heff.trans_same hs')⟩
    | chunkObj =>
      refine Ends.bind (cacheHitChunkObj_ends.mono (fun _ h => h) fun e h => ?_) ?_
      · rcases h with h | h
        · exact .inr ⟨m, hm, x, _, hfound, .inr ⟨rfl, h.of_same hsame⟩⟩
        · exact .inl h.1
      · rintro ⟨s₂, isHit, hits⟩ hhit
        refine ((countHit_ends fun _ => .inr rfl).mono (fun _ h => h) fun _ h => Or.inl h).bind
          fun s' hs' => ?_
        exact ⟨m, hm, .chunkHit hfound (hhit.of_same hsame) hs'⟩
    | unknownObjType => exact .inr ⟨m, hm, x, _, hfound, .inl rfl⟩
    | unset => exact ⟨m, hm, .uncounted hfound (.inl rfl) hsame⟩
    | invalidObj => exact ⟨m, hm, .uncounted hfound (.inr rfl) hsame⟩

theorem Served.effect {hit : ClusterHit} (h : Served p s req m s' hit) :
    ∃ ws, Effect p req.objId ws s s' := by
  cases h with
  | fullHit _ _ effect | fullMiss _ _ _ effect | chunkMiss _ _ effect => exact ⟨_, effect⟩
  | chunkHit _ hit same => exact ⟨_, hit.effect.trans_same same⟩
  | uncounted _ _ same | refused _ _ same => exact ⟨_, same.effect⟩

/-! ## The other operations -/

theorem populateBucket_servers {cap : Nat → Nat} {bucket : Nat} {r : Cluster × (Nat → Nat)}
    (h : populateBucket p (s, cap) bucket = .ok r) :
    r.1.servers = s.servers ∧ r.1.prevChMapping = s.prevChMapping := by
  unfold populateBucket at h
  cases hget : p.ring.getServers p.hash bucket (p.n + maxNUnavail) cap with
  | error e => rw [hget] at h; cases h
  | ok r' => rw [hget] at h; cases h; exact ⟨rfl, rfl⟩

theorem populateBuckets_servers {l : List Nat} {cap : Nat → Nat} {r : Cluster × (Nat → Nat)}
    (h : l.foldlM (populateBucket p) (s, cap) = .ok r) :
    r.1.servers = s.servers ∧ r.1.prevChMapping = s.prevChMapping := by
  induction l generalizing s cap with
  | nil => cases h; exact ⟨rfl, rfl⟩
  | cons b l ih =>
    rw [List.foldlM_cons] at h
    obtain ⟨⟨s₁, cap₁⟩, hs₁, h⟩ := bind_eq_ok h
    obtain ⟨hservers, hprev⟩ := populateBucket_servers hs₁
    obtain ⟨hservers', hprev'⟩ := ih h
    exact ⟨hservers'.trans hservers, hprev'.trans hprev⟩

theorem populateHashMapping_servers (h : populateHashMapping p s = .ok s') :
    s'.servers = s.servers ∧ s'.prevChMapping = s.prevChMapping := by
  obtain ⟨sc, hsc, h⟩ := bind_eq_ok h
  have hloop := populateBuckets_servers hsc
  split at h
  · unfold findParityMapping at h
    split at h
    · cases h
    · dsimp only at h
      split at h
      · cases h
      · cases h; exact hloop
  · cases h; exact hloop

/-- `s'` is `s` with another availability of a server and without a mapping. -/
structure Switched (s : Cluster) (server : Nat) (b : Bool) (s' : Cluster) : Prop where
  servers : s'.servers =
    Function.update s.servers server { s.servers server with available := b }
  chMapping : s'.chMapping = fun _ => none
  prevChMapping : s'.prevChMapping = s.chMapping

theorem Switched.cache {server : Nat} {b : Bool} (h : Switched s server b s') (x : Nat) :
    (s'.servers x).cache = (s.servers x).cache := by
  rw [h.servers]
  by_cases hx : x = server
  · subst hx; rw [Function.update_self]
  · rw [Function.update_of_ne hx]

theorem switched_of_onServer {server : Nat} {b : Bool}
    (h : s.resetConsistentHashMapping.onServer p server
      (fun c => .ok { c with available := b }) = .ok s') :
    Switched s server b s' := by
  obtain ⟨-, c, hc, rfl⟩ := onServer_eq_ok h
  cases hc
  exact ⟨rfl, rfl, rfl⟩

theorem failOneServer_switched {server : Nat} (h : s.failOneServer p server = .ok s') :
    Switched s server false s' := by
  obtain ⟨s₁, hs₁, h⟩ := bind_eq_ok h
  cases h
  obtain ⟨hservers, hmapping, hprev⟩ := switched_of_onServer hs₁
  exact ⟨hservers, hmapping, hprev⟩

theorem recoverOneServer_switched {server : Nat} (h : s.recoverOneServer p server = .ok s') :
    s' = s ∨ Switched s server true s' := by
  unfold recoverOneServer at h
  split at h
  · split at h
    · cases h; exact .inl rfl
    · obtain ⟨s₁, hs₁, h⟩ := bind_eq_ok h
      cases h
      obtain ⟨hservers, hmapping, hprev⟩ := switched_of_onServer hs₁
      exact .inr ⟨hservers, hmapping, hprev⟩
  · cases h

theorem get_of_step {req : Request} {d : Draws} (h : step p s (.get req d) = .ok s') :
    ∃ hit, s.get p req d = .ok (s', hit) := by
  cases hget : s.get p req d with
  | error e => rw [step, hget] at h; cases h
  | ok r => rw [step, hget] at h; cases h; exact ⟨r.2, rfl⟩

/-- The cases of a step: a request, or an operation that does not change the caches. -/
theorem step_cases {op : Op} (h : step p s op = .ok s') :
    (∃ req d m hit, op = .get req d ∧ findMappedServers p s req d = .ok m ∧
      s.get p req d = .ok (s', hit) ∧ Served p s req m s' hit) ∨
    (∀ req d, op ≠ .get req d) ∧ ∀ x, (s'.servers x).cache = (s.servers x).cache := by
  cases op with
  | get req d =>
    obtain ⟨hit, hget⟩ := get_of_step h
    obtain ⟨m, hm, hserved⟩ := get_ends.ok hget
    exact .inl ⟨req, d, m, hit, rfl, hm, hget, hserved⟩
  | failOneServer server => exact .inr ⟨nofun, (failOneServer_switched h).cache⟩
  | recoverOneServer server =>
    refine .inr ⟨nofun, ?_⟩
    rcases recoverOneServer_switched h with rfl | h
    · exact fun _ => rfl
    · exact h.cache
  | populateHashMapping =>
    refine .inr ⟨nofun, fun x => ?_⟩
    rw [(populateHashMapping_servers h).1]

/-- The servers of a new cluster are empty and up. -/
theorem new_servers (h : new p = .ok s) (x : Nat) :
    s.servers x = ⟨.init p.alg (p.cacheSizes x), true⟩ := by
  rw [(populateHashMapping_servers h).1]

end

end C2DN.Simulator.Cluster
