import Mathlib.Algebra.Ring.Nat
import Mathlib.Data.List.Nodup
import C2DN.Lib.Outcome

/-!
# The cache of a server

The LRU and FIFO caches of `libCacheSim`: the list from `list_head`, the next object to evict, to
`list_tail`, and the counter `occupied_size`. The hash table is the map from the ids on the list to
their objects. A cache carries the facts that ids are unique on the list and that `occupied_size`
is the sum of the sizes. Sizes are positive, as the hash table takes size 0 for an empty slot.
-/

namespace C2DN.Simulator

/-- How a call ends that does not return. -/
inductive Fault where
  /-- `assert(obj_type == chunk_obj)` in `_cache_hit_chunk_obj` -/
  | notChunk
  /-- `abort()` on an object without a type in `get` -/
  | unknownType
  /-- `assert(i < ec_params.n)` behind the scan for a server without a correct chunk -/
  | scanPast
  /-- `assert(checked_servers[server_idx] == false)` -/
  | checkedTwice
  /-- `assert(cluster_check.n_chunk_hit <= ec_params.n)` -/
  | tooManyHits
  /-- `assert(check(req, nullptr))` at the end of `cacheServer::get` -/
  | objectLost
  /-- an access to the object of a request that is not in the cache -/
  | noObject
  /-- a null pointer: the successor of the only object on the list, the gutter cache -/
  | nullPointer
  /-- an index behind the end of an array -/
  | outOfBounds
  /-- `assert(false)` in `get_consistent_hash_mapping` -/
  | noMapping
  /-- `abort()` of `ch_ring_get_servers` when it has searched all points -/
  | ringExhausted
  /-- `assert(cache_servers.at(i)->is_available() == false)` in `find_parity_mapping` -/
  | idleServer
  /-- a division by zero -/
  | divideByZero
  /-- `abort()` on a cluster mode that a function does not know -/
  | unknownMode
  /-- the assertion on the bucket of a trace with buckets -/
  | badBucket
  deriving DecidableEq, Repr

/-- `obj_type_e`; the metadata of a new object is zero. -/
inductive ObjType where
  | unset
  | fullObj
  | chunkObj
  | unknownObjType
  | invalidObj
  deriving DecidableEq, Repr

/-- `extra_metadata_u8` of a cached object: its type and its chunk id. -/
structure ObjInfo where
  objType : ObjType
  chunkId : Nat
  deriving DecidableEq, Repr

/-- The metadata of a new object. -/
def ObjInfo.fresh : ObjInfo := ⟨.unset, 0⟩

structure CacheObj where
  objId : Nat
  objSize : Nat
  info : ObjInfo
  deriving DecidableEq, Repr

/-- The two eviction algorithms of a server. -/
inductive Alg where
  | lru
  | fifo
  deriving DecidableEq, Repr

structure Cache where
  alg : Alg
  cacheSize : Nat
  /-- from `list_head` to `list_tail` -/
  objs : List CacheObj
  occupiedSize : Nat
  nodup : (objs.map CacheObj.objId).Nodup
  occupied : occupiedSize = (objs.map CacheObj.objSize).sum

namespace Cache

def init (alg : Alg) (cacheSize : Nat) : Cache where
  alg
  cacheSize
  objs := []
  occupiedSize := 0
  nodup := List.nodup_nil
  occupied := rfl

def ids (c : Cache) : List Nat := c.objs.map CacheObj.objId

/-- `cache_get_obj`. -/
def getObj (c : Cache) (objId : Nat) : Option CacheObj := c.objs.find? fun o => o.objId == objId

theorem getObj_eq_some {c : Cache} {id : Nat} {o : CacheObj} :
    c.getObj id = some o ↔ o ∈ c.objs ∧ o.objId = id := by
  constructor
  · intro h
    exact ⟨List.mem_of_find?_eq_some h, by simpa using List.find?_some h⟩
  · rintro ⟨hmem, rfl⟩
    cases h : c.getObj o.objId with
    | none => exact absurd (List.find?_eq_none.mp h o hmem) (by simp)
    | some o' =>
      have hmem' := List.mem_of_find?_eq_some h
      have hid : o'.objId = o.objId := by simpa using List.find?_some h
      rw [List.inj_on_of_nodup_map c.nodup hmem' hmem hid]

theorem getObj_eq_none {c : Cache} {id : Nat} : c.getObj id = none ↔ id ∉ c.ids := by
  simp [getObj, ids]

theorem mem_ids {c : Cache} {id : Nat} : id ∈ c.ids ↔ ∃ o, c.getObj id = some o := by
  rw [← not_iff_not, ← getObj_eq_none, ← Option.not_isSome_iff_eq_none, Option.isSome_iff_exists]

/-! ## Operations -/

/-- Change the metadata of an object. -/
def setInfo (c : Cache) (objId : Nat) (f : ObjInfo → ObjInfo) : Cache where
  alg := c.alg
  cacheSize := c.cacheSize
  objs := c.objs.map fun o => if o.objId = objId then { o with info := f o.info } else o
  occupiedSize := c.occupiedSize
  nodup := by
    have h : CacheObj.objId ∘ (fun o : CacheObj =>
        if o.objId = objId then { o with info := f o.info } else o) = CacheObj.objId := by
      funext o; simp only [Function.comp_apply]; split <;> rfl
    rw [List.map_map, h]
    exact c.nodup
  occupied := by
    have h : CacheObj.objSize ∘ (fun o : CacheObj =>
        if o.objId = objId then { o with info := f o.info } else o) = CacheObj.objSize := by
      funext o; simp only [Function.comp_apply]; split <;> rfl
    rw [List.map_map, h]
    exact c.occupied

theorem le_sum_of_mem {l : List Nat} {x : Nat} (h : x ∈ l) : x ≤ l.sum := by
  induction h with
  | head l => simp
  | tail y _ ih => rw [List.sum_cons]; omega

theorem sum_resize {l : List CacheObj} {id size : Nat} (hnodup : (l.map CacheObj.objId).Nodup) :
    ((l.map fun o => if o.objId = id then { o with objSize := size } else o).map
      CacheObj.objSize).sum =
    (l.find? fun o => o.objId == id).elim (l.map CacheObj.objSize).sum
      fun o => (l.map CacheObj.objSize).sum - o.objSize + size := by
  induction l with
  | nil => rfl
  | cons o l ih =>
    rw [List.map_cons, List.nodup_cons] at hnodup
    by_cases h : o.objId = id
    · have hid : ∀ x ∈ l, x.objId ≠ id := by
        rintro x hx rfl
        exact hnodup.1 (List.mem_map.mpr ⟨x, hx, h.symm⟩)
      have hmap : (l.map fun x => if x.objId = id then { x with objSize := size } else x) = l :=
        (List.map_congr_left fun x hx => if_neg (hid x hx)).trans (List.map_id l)
      rw [List.map_cons, hmap, List.find?_cons_of_pos (by simpa using h), if_pos h]
      simp only [List.map_cons, List.sum_cons, Option.elim_some]
      omega
    · rw [List.find?_cons_of_neg (by simpa using h)]
      simp only [List.map_cons, List.sum_cons, if_neg h, ih hnodup.2]
      cases hfind : l.find? fun o => o.objId == id with
      | none => rfl
      | some o' =>
        have := le_sum_of_mem (List.mem_map_of_mem (f := CacheObj.objSize)
          (List.mem_of_find?_eq_some hfind))
        simp only [Option.elim_some]
        omega

/-- The size of an object that is in the cache changes with the request. -/
def resize (c : Cache) (objId objSize : Nat) : Cache where
  alg := c.alg
  cacheSize := c.cacheSize
  objs := c.objs.map fun o => if o.objId = objId then { o with objSize } else o
  occupiedSize :=
    (c.getObj objId).elim c.occupiedSize fun o => c.occupiedSize - o.objSize + objSize
  nodup := by
    have h : CacheObj.objId ∘ (fun o : CacheObj =>
        if o.objId = objId then { o with objSize } else o) = CacheObj.objId := by
      funext o; simp only [Function.comp_apply]; split <;> rfl
    rw [List.map_map, h]
    exact c.nodup
  occupied := by rw [sum_resize c.nodup, ← c.occupied]; rfl

theorem perm_toTail {c : Cache} {id : Nat} :
    ((c.objs.filter fun o => o.objId != id) ++ (c.getObj id).toList).Perm c.objs := by
  cases h : c.getObj id with
  | none =>
    have hid := getObj_eq_none.mp h
    rw [Option.toList_none, List.append_nil, List.filter_eq_self.mpr]
    intro o ho
    simp only [bne_iff_ne]
    rintro rfl
    exact hid (List.mem_map.mpr ⟨o, ho, rfl⟩)
  | some o =>
    obtain ⟨hmem, hid⟩ := getObj_eq_some.mp h
    refine (List.perm_ext_iff_of_nodup ?_ c.nodup.of_map).mpr fun x => ?_
    · refine List.nodup_append.mpr ⟨c.nodup.of_map.filter _, by simp, ?_⟩
      rintro a ha b hb rfl
      obtain rfl : a = o := by simpa using hb
      simp [hid] at ha
    · simp only [Option.toList_some, List.mem_append, List.mem_filter, bne_iff_ne,
        List.mem_singleton]
      constructor
      · rintro (⟨hx, -⟩ | rfl)
        · exact hx
        · exact hmem
      · intro hx
        by_cases hxid : x.objId = id
        · exact .inr (List.inj_on_of_nodup_map c.nodup hx hmem (hxid.trans hid.symm))
        · exact .inl ⟨hx, hxid⟩

/-- `move_obj_to_tail`. -/
def moveObjToTail (c : Cache) (objId : Nat) : Cache where
  alg := c.alg
  cacheSize := c.cacheSize
  objs := (c.objs.filter fun o => o.objId != objId) ++ (c.getObj objId).toList
  occupiedSize := c.occupiedSize
  nodup := (perm_toTail.map _).nodup_iff.mpr c.nodup
  occupied := by rw [(perm_toTail.map _).sum_nat]; exact c.occupied

/-- `cache->check(cache, req, true)`: `LRU_check` also makes the object the newest one. -/
def check (c : Cache) (objId objSize : Nat) : Cache :=
  match c.alg with
  | .lru => (c.resize objId objSize).moveObjToTail objId
  | .fifo => c.resize objId objSize

/-- `cache_insert_LRU`. -/
def insert (c : Cache) (objId objSize : Nat) (h : c.getObj objId = none) : Cache where
  alg := c.alg
  cacheSize := c.cacheSize
  objs := c.objs ++ [⟨objId, objSize, .fresh⟩]
  occupiedSize := c.occupiedSize + objSize
  nodup := by
    rw [List.map_append, List.nodup_append]
    refine ⟨c.nodup, by simp, ?_⟩
    rintro a ha b hb rfl
    obtain rfl : a = objId := by simpa using hb
    exact getObj_eq_none.mp h ha
  occupied := by simp [c.occupied]

/-- The list without its head. -/
def pop (c : Cache) : Cache where
  alg := c.alg
  cacheSize := c.cacheSize
  objs := c.objs.tail
  occupiedSize := c.occupiedSize - (c.objs.head?.elim 0 CacheObj.objSize)
  nodup := by rw [List.map_tail]; exact c.nodup.tail
  occupied := by
    rw [c.occupied]
    cases c.objs with
    | nil => rfl
    | cons o l => simp

/-- `cache_evict`: the only object has no successor to become the head. -/
def evict (c : Cache) : Except Fault Cache :=
  if c.objs.length < 2 then .error .nullPointer else .ok c.pop

/-- `while (cache->occupied_size > cache->cache_size) cache->evict(cache, req, NULL);`, which ends
after at most as many rounds as there are objects. -/
def evictLoop : Nat → Cache → Except Fault Cache
  | 0, _ => .error .nullPointer
  | fuel + 1, c => if c.cacheSize < c.occupiedSize then c.evict.bind (evictLoop fuel) else .ok c

/-- The cache of `cache_get` before evictions: the object is in it. -/
def holding (c : Cache) (objId objSize : Nat) : Cache :=
  let c := c.check objId objSize
  if h : c.getObj objId = none then c.insert objId objSize h else c

/-- `cache_get`: the cache and whether the object was in it. -/
def get (c : Cache) (objId objSize : Nat) : Except Fault (Cache × Bool) :=
  let hit := (c.getObj objId).isSome
  if objSize ≤ c.cacheSize then
    let c := c.holding objId objSize
    (evictLoop (c.objs.length + 1) c).map (·, hit)
  else .ok (c.check objId objSize, hit)

end Cache

end C2DN.Simulator
