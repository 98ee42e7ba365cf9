import C2DN.Simulator.CacheRuns
import C2DN.Simulator.Server

/-!
# A cache server in memory

`cacheServer` without a gutter cache over the cache in memory. It refines the server of
`C2DN.Simulator.Server`, on which the cluster is built, for requests of a positive size below
`2 ^ 32`. The assertion at the end of `get` holds for LRU if the request fits, and for FIFO if the
object also fits together with the objects behind it on the list. A request of size 0 looks like an
empty place of the hash table, and one that is larger than the cache is not stored, or, if its object
is in the cache, makes the cache overfull.
-/

namespace C2DN.Simulator

structure MemServer (hash : Nat → Nat) where
  cache : MemCache hash
  available : Bool

namespace MemServer
variable {hash : Nat → Nat}

def init (alg : Alg) (cacheSize hashPower : Nat) : MemServer hash :=
  ⟨.init alg cacheSize hashPower, true⟩

/-- `check(req, nullptr)`. -/
def check (s : MemServer hash) (req : ObjRequest hash) : Bool :=
  s.available && (s.cache.table.find req).isSome

def get (s : MemServer hash) (req : ObjRequest hash) : Except MemFault (MemServer hash × Bool) :=
  if s.available then
    (s.cache.get req).bind fun (cache, hit) =>
      let s := { s with cache }
      if s.check req then .ok (s, hit) else .error .objectLost
  else .ok (s, false)

/-- Write the metadata of the object. -/
def setInfo (s : MemServer hash) (req : ObjRequest hash) (f : ObjInfo → ObjInfo) :
    Except MemFault (MemServer hash) :=
  match s.cache.table.find req with
  | none => .error .noObject
  | some a =>
    let o := s.cache.table.objs a
    let table := s.cache.table.setObj a { o with info := f o.info }
    .ok { s with cache := { s.cache with table } }

def setObjType (s : MemServer hash) (req : ObjRequest hash) (objType : ObjType) :
    Except MemFault (MemServer hash) :=
  s.setInfo req fun info => { info with objType }

/-- `set_chunk_id`; the id is stored in a byte. -/
def setChunkId (s : MemServer hash) (req : ObjRequest hash) (chunkId : Nat) :
    Except MemFault (MemServer hash) :=
  s.setInfo req fun _ => ⟨.chunkObj, chunkId % 256⟩

/-! ## Refinement -/

structure Rep (s : MemServer hash) (l : List Addr) (v : CacheServer) : Prop where
  cache : s.cache.Rep l v.cache
  available : s.available = v.available

section
variable {s : MemServer hash} {l : List Addr} {v v' : CacheServer} {req : ObjRequest hash}

theorem Rep.check_iff (h : s.Rep l v) (hup : s.available = true) :
    s.check req = true ↔ req.objId ∈ v.cache.ids := by
  rw [check, hup, Bool.true_and, Cache.mem_ids, h.cache.find, Option.isSome_iff_exists]
  simp

/-- A request to the server in memory does what it does to its specification. -/
theorem get_refines {cacheType : CacheType} {hit : Bool} (h : s.Rep l v)
    (hsize : MemCache.Sized req) (hv : v.get req.objId req.objSize cacheType = .ok (v', hit)) :
    ∃ s' l', s.get req = .ok (s', hit) ∧ s'.Rep l' v' := by
  cases hup : s.available with
  | false =>
    have hv' : v.get req.objId req.objSize cacheType = .ok (v, false) :=
      if_neg (by rw [← h.available, hup]; simp)
    rw [hv'] at hv
    cases hv
    exact ⟨s, l, if_neg (by simp [hup]), h⟩
  | true =>
    obtain ⟨c, hc, hne, rfl⟩ := CacheServer.get_eq_ok (h.available ▸ hup) hv
    obtain ⟨cache, l', hcache, hrep⟩ := MemCache.get_refines h.cache hsize hc
    have hrep' : Rep { s with cache } l' { v with cache := c } := ⟨hrep, h.available⟩
    have hcheck : check { s with cache } req = true :=
      (hrep'.check_iff hup).mpr (Cache.mem_ids.mpr (Option.ne_none_iff_exists'.mp hne))
    refine ⟨{ s with cache }, l', ?_, hrep'⟩
    rw [get, if_pos hup, hcache]
    exact if_pos hcheck

theorem setInfo_refines {f : ObjInfo → ObjInfo} (h : s.Rep l v)
    (hv : v.setInfo req.objId f = .ok v') : ∃ s', s.setInfo req f = .ok s' ∧ s'.Rep l v' := by
  obtain ⟨⟨o, ho⟩, rfl⟩ := CacheServer.setInfo_eq_ok hv
  rw [h.cache.find] at ho
  obtain ⟨a, ha, rfl⟩ := Option.map_eq_some_iff.mp ho
  obtain ⟨hal, hid⟩ := h.cache.holds.stored.find_eq_some.mp ha
  have hset : s.setInfo req f = .ok { s with cache := { s.cache with
      table := s.cache.table.setObj a
        { s.cache.table.objs a with info := f (s.cache.table.objs a).info } } } := by
    rw [setInfo, ha]
  refine ⟨_, hset, ⟨?_, ?_, h.cache.alg, h.cache.cacheSize, h.cache.occupiedSize, h.cache.nObj⟩,
    h.available⟩
  · exact Hashtable.Stored.holds (h.cache.holds.stored.setObj hal rfl (h.cache.holds.pos a hal))
  · exact h.cache.map_setObj (g := fun o => { o with info := f o.info }) ha

/-- The assertion at the end of `get`. -/
theorem get_ok_iff {cache : MemCache hash} {c : Cache} {hit : Bool} (hup : s.available = true)
    (hget : s.cache.get req = .ok (cache, hit)) (h : cache.Rep l c) :
    (∃ r, s.get req = .ok r) ↔ req.objId ∈ c.ids := by
  have hrep : Rep { s with cache } l ⟨c, s.available⟩ := ⟨h, rfl⟩
  have hcheck : check { s with cache } req = true ↔ req.objId ∈ c.ids := hrep.check_iff hup
  have hbranch : s.get req =
      if check { s with cache } req then .ok ({ s with cache }, hit) else .error .objectLost := by
    rw [get, if_pos hup, hget]
    rfl
  rw [hbranch]
  split
  · next hc => exact iff_of_true ⟨_, rfl⟩ (hcheck.mp hc)
  · next hc => exact iff_of_false nofun (mt hcheck.mpr hc)

end

end MemServer

/-! ## FIFO -/

namespace MemCache
variable {hash : Nat → Nat}

/-- The object of a request and the objects behind it on the list fit into the cache. -/
def Kept (s : MemCache hash) (req : ObjRequest hash) : Prop :=
  req.objSize + Cache.total (Cache.behind s.objs req.objId) ≤ s.cacheSize

instance {s : MemCache hash} {req : ObjRequest hash} : Decidable (s.Kept req) :=
  inferInstanceAs (Decidable (_ ≤ _))

/-- A request to a FIFO cache that keeps its object: a server with this cache returns. -/
structure FifoGet (s : MemCache hash) (req : ObjRequest hash) (s' : MemCache hash) : Prop where
  served : s'.Served req
  sound : s'.Sound
  asserted : ∃ r, MemServer.get ⟨s, true⟩ req = .ok r

theorem get_fifo {s : MemCache hash} {l : List Addr} {c : Cache} {req : ObjRequest hash}
    (h : s.Inv l c) (halg : c.alg = .fifo) (hreq : Fits c.cacheSize req) :
    ∃ s' l' c', s.step req = .ok s' ∧ (s'.Inv l' c' ∧ c'.alg = .fifo ∧ c'.cacheSize = c.cacheSize) ∧
      s'.Sound ∧ (s.FifoGet req s' ↔ s.Kept req) := by
  obtain ⟨s', l', c', hit, hs', hget, h', halg', hcap'⟩ := get_inv h hreq
  have hkept : req.objId ∈ c'.ids ↔ s.Kept req := by
    rw [Cache.mem_ids_get_iff hget hreq.2.1, halg, Kept, h.objs_eq, h.cacheSize]
    simp
  refine ⟨s', l', c', by rw [step, hs']; rfl, ⟨h', halg'.trans halg, hcap'⟩, h'.sound h'.fits, ?_⟩
  rw [← hkept]
  constructor
  · exact fun hfifo => (served_iff h'.toRep hget).mp hfifo.served
  · exact fun hmem => ⟨(served_iff h'.toRep hget).mpr hmem, h'.sound h'.fits,
      (MemServer.get_ok_iff rfl hs' h'.toRep).mpr hmem⟩

/-- **FIFO.** In every run of a FIFO cache that starts empty, on requests of any ids that fit, no
request meets a null pointer or a failed assertion of the cache, and the counters stay right. Every
request leaves its object in the cache, with the requested size, if and only if at every request the
object fits together with the objects behind it on the list. -/
theorem fifo_run {cacheSize hashPower : Nat} {reqs : List (ObjRequest hash)}
    (h : ∀ req ∈ reqs, Fits cacheSize req) :
    (∃ s, reqs.foldlM step (init .fifo cacheSize hashPower) = .ok s) ∧
      Steps step (fun _ _ s' => s'.Sound) reqs (init .fifo cacheSize hashPower) ∧
      (Steps step FifoGet reqs (init .fifo cacheSize hashPower) ↔
        Steps step (fun s req _ => s.Kept req) reqs (init .fifo cacheSize hashPower)) := by
  have hstep : ∀ (s : MemCache hash) req,
      (∃ l c, s.Inv l c ∧ c.alg = .fifo ∧ c.cacheSize = cacheSize) → Fits cacheSize req →
      ∃ s', s.step req = .ok s' ∧ (∃ l c, s'.Inv l c ∧ c.alg = .fifo ∧ c.cacheSize = cacheSize) ∧
        s'.Sound ∧ (s.FifoGet req s' ↔ s.Kept req) := by
    rintro s req ⟨l, c, hinv, halg, rfl⟩ hreq
    obtain ⟨s', l', c', hs', hinv', hP⟩ := get_fifo hinv halg hreq
    exact ⟨s', hs', ⟨l', c', hinv'⟩, hP⟩
  obtain ⟨⟨s, hs, -⟩, hsteps⟩ := Steps.of_total (s := init .fifo cacheSize hashPower) hstep
    ⟨[], _, init_inv, rfl, rfl⟩ h
  exact ⟨⟨s, hs⟩, hsteps.imp fun _ _ _ hP => hP.1, (hsteps.imp fun _ _ _ hP => hP.2).congr⟩

def fifoReqs : List (ObjRequest sameHash) := [sizedReq 1 3, sizedReq 2 3, sizedReq 2 4, sizedReq 1 3]

theorem fifoReqs_run : (∀ req ∈ fifoReqs, Fits 10 req) ∧
    Steps step FifoGet fifoReqs (init .fifo 10 0) :=
  ⟨by decide, (fifo_run (by decide)).2.2.mpr (by decide +kernel)⟩

/-- An object of size 3 before another one, in a cache of size 10, is evicted by a request for it with
size 8. -/
theorem largerReq_evicted : (∀ req ∈ [sizedReq 1 3, sizedReq 2 3, sizedReq 1 8], Fits 10 req) ∧
    ∃ s, [sizedReq 1 3, sizedReq 2 3].foldlM step (init .fifo 10 0) = .ok s ∧
      (∃ s', s.step (sizedReq 1 8) = .ok s' ∧ s'.getObj (sizedReq 1 8) = none) ∧
      MemServer.get ⟨s, true⟩ (sizedReq 1 8) = .error .objectLost := by
  refine ⟨by decide, ?_⟩
  obtain ⟨s, hs, hq⟩ := exists_ok_of_any (x := [sizedReq 1 3, sizedReq 2 3].foldlM step (init .fifo 10 0))
    (q := fun s => (s.step (sizedReq 1 8)).toOption.any (fun s' => (s'.getObj (sizedReq 1 8)).isNone) &&
      failsWith (MemServer.get ⟨s, true⟩ (sizedReq 1 8)) .objectLost) (by decide +kernel)
  obtain ⟨hstep, hserver⟩ := Bool.and_eq_true_iff.mp hq
  obtain ⟨s', hs', hnone⟩ := exists_ok_of_any hstep
  exact ⟨s, hs, ⟨s', hs', Option.isNone_iff_eq_none.mp hnone⟩, eq_error_of_failsWith hserver⟩

end MemCache

/-! ## The server -/

namespace MemServer
variable {hash : Nat → Nat}

/-- The cluster asks a server for an object and then may set its type and its chunk id. -/
structure Round (hash : Nat → Nat) where
  req : ObjRequest hash
  objType : Option ObjType
  chunkId : Option Nat

def serve (s : MemServer hash) (r : Round hash) : Except MemFault (MemServer hash) :=
  (s.get r.req).bind fun (s, _) =>
    (r.objType.elim (.ok s) fun objType => s.setObjType r.req objType).bind fun s =>
      r.chunkId.elim (.ok s) fun chunkId => s.setChunkId r.req chunkId

/-- What the callers of `get` rely on: the object is there, its metadata can be set, and the cache is
not overfull. -/
structure Stored (s : MemServer hash) (req : ObjRequest hash) : Prop where
  found : s.check req = true
  setObjType : ∀ objType, ∃ s', s.setObjType req objType = .ok s'
  setChunkId : ∀ chunkId, ∃ s', s.setChunkId req chunkId = .ok s'
  fits : s.cache.occupiedSize ≤ s.cache.cacheSize

section
variable {s : MemServer hash} {l : List Addr} {c : Cache} {req : ObjRequest hash}

/-- What holds of a server that is up and got requests that fit. -/
structure Inv (s : MemServer hash) (cacheSize : Nat) : Prop where
  up : s.available = true
  cache : ∃ l c, s.cache.Inv l c ∧ c.alg = .lru ∧ c.cacheSize = cacheSize

theorem init_inv {cacheSize hashPower : Nat} :
    (init .lru cacheSize hashPower : MemServer hash).Inv cacheSize :=
  ⟨rfl, [], _, MemCache.init_inv, rfl, rfl⟩

theorem setInfo_inv {cacheSize : Nat} (f : ObjInfo → ObjInfo) (h : s.Inv cacheSize)
    (hc : s.check req = true) :
    ∃ s', s.setInfo req f = .ok s' ∧ s'.Inv cacheSize ∧ s'.check req = true := by
  obtain ⟨hup, l, c, hinv, halg, hcap⟩ := h
  have hrep : s.Rep l ⟨c, s.available⟩ := ⟨hinv.toRep, rfl⟩
  have hmem := (hrep.check_iff hup).mp hc
  obtain ⟨o, ho⟩ := Cache.mem_ids.mp hmem
  have hset : CacheServer.setInfo ⟨c, s.available⟩ req.objId f =
      .ok ⟨c.setInfo req.objId f, s.available⟩ := if_neg (by rw [ho]; simp)
  obtain ⟨s', hs', hrep'⟩ := setInfo_refines hrep hset
  have hup' : s'.available = true := hrep'.available.trans hup
  refine ⟨s', hs', ⟨hup', l, c.setInfo req.objId f, ?_, halg, hcap⟩, ?_⟩
  · refine { hrep'.cache with fits := hinv.fits, sizes := fun o ho => ?_ }
    obtain ⟨o₀, ho₀, rfl⟩ := List.mem_map.mp ho
    have hsize : (if o₀.objId = req.objId then { o₀ with info := f o₀.info } else o₀).objSize =
        o₀.objSize := by split <;> rfl
    rw [hsize]
    exact hinv.sizes o₀ ho₀
  · rw [hrep'.check_iff hup', Cache.ids_setInfo]
    exact hmem

theorem get_stored {cacheSize : Nat} (h : s.Inv cacheSize) (hreq : MemCache.Fits cacheSize req) :
    ∃ s' hit, s.get req = .ok (s', hit) ∧ s'.Inv cacheSize ∧ s'.Stored req := by
  obtain ⟨hup, l, c, hinv, halg, rfl⟩ := h
  obtain ⟨cache, l', c', hit, hcache, hget, hinv', halg', hcap'⟩ := MemCache.get_inv hinv hreq
  have hmem : req.objId ∈ c'.ids := (Cache.mem_ids_get_iff hget hreq.2.1).mpr (.inl halg)
  have hrep' : Rep { s with cache } l' ⟨c', s.available⟩ := ⟨hinv'.toRep, rfl⟩
  have hcheck : check { s with cache } req = true := (hrep'.check_iff hup).mpr hmem
  have hinv'' : Inv { s with cache } c.cacheSize := ⟨hup, l', c', hinv', halg'.trans halg, hcap'⟩
  refine ⟨{ s with cache }, hit, ?_, hinv'', hcheck, ?_, ?_, (hinv'.sound hinv'.fits).fits⟩
  · rw [get, if_pos hup, hcache]
    exact if_pos hcheck
  · intro objType
    obtain ⟨s', hs', -⟩ := setInfo_inv _ hinv'' hcheck
    exact ⟨s', hs'⟩
  · intro chunkId
    obtain ⟨s', hs', -⟩ := setInfo_inv _ hinv'' hcheck
    exact ⟨s', hs'⟩

theorem serve_inv {cacheSize : Nat} {r : Round hash} (h : s.Inv cacheSize)
    (hreq : MemCache.Fits cacheSize r.req) : ∃ s', s.serve r = .ok s' ∧ s'.Inv cacheSize := by
  obtain ⟨s₁, hit, hs₁, hinv₁, hstored⟩ := get_stored h hreq
  obtain ⟨s₂, hs₂, hinv₂, hfound₂⟩ : ∃ s₂,
      (r.objType.elim (.ok s₁) fun objType => s₁.setObjType r.req objType) = .ok s₂ ∧
      s₂.Inv cacheSize ∧ s₂.check r.req = true := by
    cases r.objType with
    | none => exact ⟨s₁, rfl, hinv₁, hstored.found⟩
    | some objType => exact setInfo_inv (fun info => { info with objType }) hinv₁ hstored.found
  obtain ⟨s₃, hs₃, hinv₃⟩ : ∃ s₃,
      (r.chunkId.elim (.ok s₂) fun chunkId => s₂.setChunkId r.req chunkId) = .ok s₃ ∧
      s₃.Inv cacheSize := by
    cases r.chunkId with
    | none => exact ⟨s₂, rfl, hinv₂⟩
    | some chunkId =>
      obtain ⟨s₃, hs₃, hinv₃, -⟩ := setInfo_inv (fun _ => ⟨.chunkObj, chunkId % 256⟩) hinv₂ hfound₂
      exact ⟨s₃, hs₃, hinv₃⟩
  refine ⟨s₃, ?_, hinv₃⟩
  rw [serve, hs₁]
  dsimp only [Except.bind]
  rw [hs₂]
  exact hs₃

/-- **The server.** In every run of an LRU server that starts empty, on requests of any ids that fit,
every request returns with its object in the cache, its metadata can be set, and the cache is never
overfull. -/
theorem server_run {cacheSize hashPower : Nat} {rounds : List (Round hash)}
    (h : ∀ r ∈ rounds, MemCache.Fits cacheSize r.req) :
    (∃ s, rounds.foldlM serve (init .lru cacheSize hashPower) = .ok s) ∧
      Steps serve (fun s r _ => ∃ s' hit, s.get r.req = .ok (s', hit) ∧ s'.Stored r.req) rounds
        (init .lru cacheSize hashPower) := by
  refine (Steps.of_total (I := fun s => s.Inv cacheSize)
    (D := fun r => MemCache.Fits cacheSize r.req) ?_ init_inv h).imp_left fun ⟨s, hs, _⟩ => ⟨s, hs⟩
  intro s r hinv hreq
  obtain ⟨s₁, hit, hs₁, -, hstored⟩ := get_stored hinv hreq
  obtain ⟨s', hs', hinv'⟩ := serve_inv hinv hreq
  exact ⟨s', hs', hinv', s₁, hit, hs₁, hstored⟩

end

def idReq (objId objSize : Nat) : ObjRequest id := ⟨objId, objSize, 0, .inl rfl⟩

/-- Object 1 comes again with another size, and then object 3 takes the place of object 2. -/
def fourRounds : List (Round id) :=
  [⟨idReq 1 3, some .fullObj, none⟩, ⟨idReq 2 6, none, some 1⟩, ⟨idReq 1 4, none, none⟩,
    ⟨idReq 3 5, none, some 2⟩]

theorem fourRounds_run : ∃ s, fourRounds.foldlM serve (init .lru 10 2) = .ok s ∧
    [1, 2, 3].map (fun objId => s.check (idReq objId 1)) = [true, false, true] ∧
    s.cache.occupiedSize = 9 ∧
    Steps serve (fun s r _ => ∃ s' hit, s.get r.req = .ok (s', hit) ∧ s'.Stored r.req) fourRounds
      (init .lru 10 2) := by
  obtain ⟨s, hs, hq⟩ := exists_ok_of_any (x := fourRounds.foldlM serve (init .lru 10 2))
    (q := fun s => [1, 2, 3].map (fun objId => s.check (idReq objId 1)) == [true, false, true] &&
      s.cache.occupiedSize == 9) (by decide +kernel)
  obtain ⟨hcheck, hsize⟩ := Bool.and_eq_true_iff.mp hq
  exact ⟨s, hs, eq_of_beq hcheck, eq_of_beq hsize, (server_run (by decide)).2⟩

/-! Requests that do not fit: after a request for an object of size 3 to a server of size 10, one of
size 0 or 11 for another object is lost, and one of size 11 for this object makes the cache
overfull. -/

def oneRound : List (Round id) := [⟨idReq 1 3, some .fullObj, none⟩]

theorem notFitting_lost : ∃ s, oneRound.foldlM serve (init .lru 10 2) = .ok s ∧
    s.get (idReq 2 0) = .error .objectLost ∧ s.get (idReq 2 11) = .error .objectLost ∧
    ∃ s' hit, s.get (idReq 1 11) = .ok (s', hit) ∧ s'.cache.cacheSize < s'.cache.occupiedSize := by
  obtain ⟨s, hs, hq⟩ := exists_ok_of_any (x := oneRound.foldlM serve (init .lru 10 2))
    (q := fun s => failsWith (s.get (idReq 2 0)) .objectLost &&
      (failsWith (s.get (idReq 2 11)) .objectLost &&
        (s.get (idReq 1 11)).toOption.any fun r => r.1.cache.cacheSize < r.1.cache.occupiedSize))
    (by decide +kernel)
  obtain ⟨hzero, hq⟩ := Bool.and_eq_true_iff.mp hq
  obtain ⟨hmiss, hq⟩ := Bool.and_eq_true_iff.mp hq
  obtain ⟨⟨s', hit⟩, hs', hover⟩ := exists_ok_of_any hq
  exact ⟨s, hs, eq_error_of_failsWith hzero, eq_error_of_failsWith hmiss, s', hit, hs',
    of_decide_eq_true hover⟩

end MemServer

end C2DN.Simulator
