import C2DN.Simulator.CacheLemmas

/-!
# A cache server

`cacheServer` without a gutter cache (`gutter_space` is 0). The cluster always asks a server for an
object and then sets its type or its chunk id (`put`). A server that is down is not asked but can
have an old copy, whose metadata is set.
-/

namespace C2DN.Simulator

/-- `cache_type_e`. -/
inductive CacheType where
  | mainCache
  | gutterCache
  | unknownCache
  deriving DecidableEq, Repr

structure CacheServer where
  cache : Cache
  available : Bool

namespace CacheServer

/-- `check`: the type of the object, if it is found. -/
def check (s : CacheServer) (objId : Nat) : Option ObjType :=
  if s.available then (s.cache.getObj objId).map fun o => o.info.objType else none

def get (s : CacheServer) (objId objSize : Nat) (cacheType : CacheType) :
    Except Fault (CacheServer × Bool) :=
  if s.available then
    match cacheType with
    | .gutterCache => .error .nullPointer
    | .mainCache | .unknownCache =>
      (s.cache.get objId objSize).bind fun (cache, hit) =>
        if cache.getObj objId = none then .error .objectLost else .ok ({ s with cache }, hit)
  else .ok (s, false)

def getChunkId (s : CacheServer) (objId : Nat) : Except Fault Nat :=
  match s.cache.getObj objId with
  | some o => .ok o.info.chunkId
  | none => .error .noObject

/-- Write the metadata of the object. -/
def setInfo (s : CacheServer) (objId : Nat) (f : ObjInfo → ObjInfo) : Except Fault CacheServer :=
  if s.cache.getObj objId = none then .error .noObject
  else .ok { s with cache := s.cache.setInfo objId f }

def setObjType (s : CacheServer) (objId : Nat) (objType : ObjType) : Except Fault CacheServer :=
  s.setInfo objId fun info => { info with objType }

/-- `set_chunk_id`; the id is stored in a byte. -/
def setChunkId (s : CacheServer) (objId chunkId : Nat) : Except Fault CacheServer :=
  s.setInfo objId fun _ => ⟨.chunkObj, chunkId % 256⟩

/-- Ask for an object, then set its type: `get` and `set_obj_type`. -/
def putFull (s : CacheServer) (objId objSize : Nat) (cacheType : CacheType) :
    Except Fault CacheServer :=
  (s.get objId objSize cacheType).bind fun (s, _) => s.setObjType objId .fullObj

/-- Ask for an object, then set its chunk id: `get` and `set_chunk_id`. -/
def putChunk (s : CacheServer) (objId objSize chunkId : Nat) (cacheType : CacheType) :
    Except Fault CacheServer :=
  (s.get objId objSize cacheType).bind fun (s, _) => s.setChunkId objId chunkId

end CacheServer

/-! ## Lemmas -/

namespace Cache
variable {c : Cache} {id : Nat} {f : ObjInfo → ObjInfo}

theorem ids_setInfo : (c.setInfo id f).ids = c.ids := by
  simp only [ids, setInfo, List.map_map]
  refine List.map_congr_left fun o _ => ?_
  simp only [Function.comp_apply]
  split <;> rfl

theorem getObj_setInfo_self {o : CacheObj} (h : c.getObj id = some o) :
    (c.setInfo id f).getObj id = some { o with info := f o.info } := by
  obtain ⟨hmem, hid⟩ := getObj_eq_some.mp h
  exact getObj_eq_some.mpr ⟨List.mem_map.mpr ⟨o, hmem, if_pos hid⟩, hid⟩

theorem getObj_setInfo_other {id' : Nat} (h : id' ≠ id) :
    (c.setInfo id f).getObj id' = c.getObj id' := by
  cases hget : c.getObj id' with
  | none =>
    rw [getObj_eq_none, ids_setInfo]
    exact getObj_eq_none.mp hget
  | some o =>
    obtain ⟨hmem, rfl⟩ := getObj_eq_some.mp hget
    exact getObj_eq_some.mpr ⟨List.mem_map.mpr ⟨o, hmem, if_neg h⟩, rfl⟩

end Cache

namespace CacheServer
variable {s s' : CacheServer} {id size : Nat} {f : ObjInfo → ObjInfo} {t : CacheType}

/-- `get`, then write the metadata. -/
def put (s : CacheServer) (id size : Nat) (t : CacheType) (f : ObjInfo → ObjInfo) :
    Except Fault CacheServer :=
  (s.get id size t).bind fun (s, _) => s.setInfo id f

/-- The server `s'` after `put`, where `s` was up. -/
structure Put (s : CacheServer) (id size : Nat) (f : ObjInfo → ObjInfo) (s' : CacheServer) :
    Prop where
  available : s'.available = s.available
  alg : s'.cache.alg = s.cache.alg
  cacheSize : s'.cache.cacheSize = s.cache.cacheSize
  self : s'.cache.getObj id =
    some { s.cache.gotten id size with info := f (s.cache.gotten id size).info }
  other : ∀ id' o, id' ≠ id → s'.cache.getObj id' = some o → s.cache.getObj id' = some o
  recent : s.cache.alg = .lru →
    ∃ d, s'.cache.ids = (s.cache.ids.filter (· ≠ id)).drop d ++ [id]
  fits : size ≤ s.cache.cacheSize → s'.cache.occupiedSize ≤ s'.cache.cacheSize

theorem setInfo_eq_ok (h : s.setInfo id f = .ok s') :
    (∃ o, s.cache.getObj id = some o) ∧ s' = { s with cache := s.cache.setInfo id f } := by
  unfold setInfo at h
  split at h
  · cases h
  · next hne =>
    cases h
    exact ⟨Option.ne_none_iff_exists'.mp hne, rfl⟩

theorem get_eq_ok {hit : Bool} (hav : s.available = true) (h : s.get id size t = .ok (s', hit)) :
    ∃ c, s.cache.get id size = .ok (c, hit) ∧ c.getObj id ≠ none ∧ s' = { s with cache := c } := by
  unfold get at h
  rw [if_pos hav] at h
  split at h
  · cases h
  all_goals
    obtain ⟨⟨c, b⟩, hc, h⟩ := bind_eq_ok h
    dsimp only at h
    split at h
    · cases h
    · next hne =>
      cases h
      exact ⟨c, hc, hne, rfl⟩

theorem put_available (hav : s.available = true) (h : s.put id size t f = .ok s') :
    Put s id size f s' := by
  obtain ⟨⟨s₁, b⟩, hget, hset⟩ := bind_eq_ok h
  obtain ⟨c, hc, hne, rfl⟩ := get_eq_ok hav hget
  have hgot := Cache.get_got hc (Cache.mem_ids.mpr (Option.ne_none_iff_exists'.mp hne))
  obtain ⟨-, rfl⟩ := setInfo_eq_ok hset
  refine ⟨rfl, hgot.alg, hgot.cacheSize, Cache.getObj_setInfo_self hgot.self, ?_, ?_, hgot.fits⟩
  · intro id' o hne' ho
    rw [Cache.getObj_setInfo_other hne'] at ho
    exact hgot.other id' o hne' ho
  · intro hlru
    dsimp only
    rw [Cache.ids_setInfo]
    exact hgot.recent hlru

/-- A server that is down keeps its copies, with new metadata. -/
theorem put_unavailable (hav : s.available = false) (h : s.put id size t f = .ok s') :
    (∃ o, s.cache.getObj id = some o) ∧ s' = { s with cache := s.cache.setInfo id f } := by
  obtain ⟨⟨s₁, b⟩, hget, hset⟩ := bind_eq_ok h
  unfold get at hget
  rw [if_neg (by simp [hav])] at hget
  cases hget
  exact setInfo_eq_ok hset

theorem put_ok (ht : t ≠ .gutterCache) (hav : s.available = true) (h : s.cache.Safe id size) :
    ∃ s', s.put id size t f = .ok s' := by
  obtain ⟨c, b, hc, hmem⟩ := Cache.get_ok h
  obtain ⟨o, ho⟩ := Cache.mem_ids.mp hmem
  have hget : s.get id size t = .ok ({ s with cache := c }, b) := by
    unfold get
    rw [if_pos hav, hc]
    cases t with
    | gutterCache => exact absurd rfl ht
    | mainCache | unknownCache => simp [Except.bind, ho]
  refine ⟨{ s with cache := c.setInfo id f }, ?_⟩
  rw [put, hget]
  simp [Except.bind, setInfo, ho]

theorem get_fault {e : Fault} (h : s.get id size t = .error e) :
    e = .objectLost ∨ e = .nullPointer := by
  unfold get at h
  split at h
  · split at h
    · cases h
      exact .inr rfl
    all_goals
      cases hget : s.cache.get id size with
      | error e' =>
        rw [hget] at h
        cases h
        exact .inr (Cache.get_fault hget)
      | ok cb =>
        rw [hget] at h
        simp only [Except.bind] at h
        split at h
        · cases h
          exact .inl rfl
        · cases h
  · cases h

/-- The faults of a `put`; only a server that is down does not have the object after `get`. -/
theorem put_fault {e : Fault} (h : s.put id size t f = .error e) :
    e = .objectLost ∨ e = .nullPointer ∨ e = .noObject ∧ s.available = false := by
  unfold put at h
  cases hget : s.get id size t with
  | error e' =>
    rw [hget] at h
    cases h
    exact (get_fault hget).imp_right .inl
  | ok sb =>
    rw [hget] at h
    simp only [Except.bind, setInfo] at h
    split at h
    · next hnone =>
      cases h
      refine .inr (.inr ⟨rfl, ?_⟩)
      unfold get at hget
      split at hget
      · split at hget
        · cases hget
        all_goals
          obtain ⟨⟨c, b⟩, -, hget⟩ := bind_eq_ok hget
          dsimp only at hget
          split at hget
          · cases hget
          · next hne => cases hget; exact absurd hnone hne
      · next hav => simpa using hav
    · cases h

end CacheServer

end C2DN.Simulator
