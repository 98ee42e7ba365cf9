import C2DN.Simulator.CacheLemmas
import C2DN.Simulator.HashtableLemmas

/-!
# A cache in memory

`cache.c` with `LRU.c` and `FIFO.c`, over the hash table and the list in memory. The cache of
`C2DN.Simulator.Cache` is its specification: `Rep s l c` says that the cache `s` in memory, with the
list `l` of addresses, holds the objects of `c`, and every operation keeps it (`get_refines`). The
size of an object has 32 bits in memory, and size 0 marks an empty place of the table, so requests
have a positive size below `2 ^ 32`.
-/

namespace C2DN.Simulator

/-- `cache_t`. -/
structure MemCache (hash : Nat → Nat) where
  alg : Alg
  cacheSize : Nat
  occupiedSize : Nat
  nObj : Nat
  table : Hashtable hash

namespace MemCache
variable {hash : Nat → Nat}

/-- `cache_struct_init`. -/
def init (alg : Alg) (cacheSize hashPower : Nat) : MemCache hash where
  alg
  cacheSize
  occupiedSize := 0
  nObj := 0
  table := .create hashPower

/-- `cache_check` with `update_cache`: the cache and the object. -/
def cacheCheck (s : MemCache hash) (req : ObjRequest hash) : MemCache hash × Option Addr :=
  match s.table.find req with
  | none => (s, none)
  | some a =>
    let o := s.table.objs a
    if o.objSize ≠ req.objSize then
      ({ s with
        occupiedSize := s.occupiedSize - o.objSize + req.objSize
        table := s.table.setObj a { o with objSize := req.objSize % 2 ^ 32 } }, some a)
    else (s, some a)

/-- `cache->check(cache, req, true)`: `LRU_check` or `FIFO_check`. -/
def check (s : MemCache hash) (req : ObjRequest hash) : Except MemFault (MemCache hash × Bool) :=
  match s.alg, s.cacheCheck req with
  | .lru, (s, some a) => (ObjList.moveObjToTail s.table.links a).map fun links =>
    ({ s with table := s.table.setLinks links }, true)
  | _, (s, obj) => .ok (s, obj.isSome)

/-- `cache_insert_LRU`. -/
def insert (s : MemCache hash) (req : ObjRequest hash) : Except MemFault (MemCache hash) :=
  let (table, a) := s.table.insert req
  (ObjList.insertObj table.links a).map fun links =>
    { s with
      occupiedSize := s.occupiedSize + req.objSize
      nObj := s.nObj + 1
      table := table.setLinks links }

/-- `cache_evict`. -/
def evict (s : MemCache hash) : Except MemFault (MemCache hash) :=
  (ObjList.evictHead s.table.links).bind fun (links, a) =>
    ((s.table.setLinks links).delete a).map fun table =>
      { s with
        occupiedSize := s.occupiedSize - (s.table.objs a).objSize
        nObj := s.nObj - 1
        table }

/-- `while (cache->occupied_size > cache->cache_size) cache->evict(cache, req, NULL);` -/
def evictLoop : Nat → MemCache hash → Except MemFault (MemCache hash)
  | 0, _ => .error .unended
  | fuel + 1, s => if s.cacheSize < s.occupiedSize then s.evict.bind (evictLoop fuel) else .ok s

/-- `cache_get`: the cache and whether the object was in it. -/
def get (s : MemCache hash) (req : ObjRequest hash) : Except MemFault (MemCache hash × Bool) :=
  (s.check req).bind fun (s, hit) =>
    if req.objSize ≤ s.cacheSize then
      (if hit then .ok s else s.insert req).bind fun s => (evictLoop (s.nObj + 1) s).map (·, hit)
    else .ok (s, hit)

/-! ## Refinement -/

/-- The cache in memory has the objects of `c`, at the addresses `l`. -/
structure Rep (s : MemCache hash) (l : List Addr) (c : Cache) : Prop where
  holds : s.table.Holds l
  objs : l.map s.table.objs = c.objs
  alg : s.alg = c.alg
  cacheSize : s.cacheSize = c.cacheSize
  occupiedSize : s.occupiedSize = c.occupiedSize
  nObj : s.nObj = l.length

/-- The sizes that the cache in memory represents. -/
def Sized (req : ObjRequest hash) : Prop := 0 < req.objSize ∧ req.objSize < 2 ^ 32

section
variable {s : MemCache hash} {l : List Addr} {c c' : Cache} {req : ObjRequest hash}

theorem init_rep {alg : Alg} {cacheSize hashPower : Nat} :
    (init alg cacheSize hashPower : MemCache hash).Rep [] (.init alg cacheSize) :=
  ⟨Hashtable.create_stored.holds, rfl, rfl, rfl, rfl, rfl⟩

theorem Rep.find (h : s.Rep l c) : c.getObj req.objId = (s.table.find req).map s.table.objs := by
  cases hf : s.table.find req with
  | none =>
    rw [Option.map_none, Cache.getObj_eq_none, Cache.ids, ← h.objs, List.map_map, List.mem_map]
    rintro ⟨a, ha, hid⟩
    exact h.holds.stored.find_eq_none.mp hf a ha hid
  | some a =>
    obtain ⟨ha, hid⟩ := h.holds.stored.find_eq_some.mp hf
    exact Cache.getObj_eq_some.mpr ⟨h.objs ▸ List.mem_map_of_mem ha, hid⟩

/-- Ids tell the addresses on the list apart. -/
theorem Rep.objId_eq_iff {a x : Addr} (h : s.Rep l c) (ha : s.table.find req = some a) (hx : x ∈ l) :
    (s.table.objs x).objId = req.objId ↔ x = a := by
  obtain ⟨hal, hid⟩ := h.holds.stored.find_eq_some.mp ha
  constructor
  · exact fun heq => h.holds.stored.eq_of_objId hx hal (heq.trans hid.symm)
  · rintro rfl
    exact hid

/-- The object that is found changes. -/
theorem Rep.map_setObj {a : Addr} {g : CacheObj → CacheObj} (h : s.Rep l c)
    (ha : s.table.find req = some a) : l.map (s.table.setObj a (g (s.table.objs a))).objs =
      c.objs.map fun o => if o.objId = req.objId then g o else o := by
  rw [← h.objs, List.map_map]
  refine List.map_congr_left fun x hx => ?_
  simp only [Hashtable.setObj, Function.comp_apply, h.objId_eq_iff ha hx]
  split
  · next heq => rw [heq]
  · rfl

/-- The object that `cache_check` finds has the requested size. -/
theorem cacheCheck_some {a : Addr} (h : s.Rep l c) (hsize : Sized req)
    (ha : s.table.find req = some a) : ∃ s', s.cacheCheck req = (s', some a) ∧
      s'.Rep l (c.resize req.objId req.objSize) ∧ s'.table.find req = some a := by
  obtain ⟨hal, hid⟩ := h.holds.stored.find_eq_some.mp ha
  have hget : c.getObj req.objId = some (s.table.objs a) := by rw [h.find, ha]; rfl
  have hle : (s.table.objs a).objSize ≤ c.occupiedSize := by
    rw [c.occupied]
    exact Cache.le_sum_of_mem (List.mem_map_of_mem (Cache.getObj_eq_some.mp hget).1)
  have hcheck : s.cacheCheck req = ({ s with
      occupiedSize := s.occupiedSize - (s.table.objs a).objSize + req.objSize
      table := s.table.setObj a { s.table.objs a with objSize := req.objSize } }, some a) := by
    rw [cacheCheck, ha]
    dsimp only
    split
    · rw [Nat.mod_eq_of_lt hsize.2]
    · next heq =>
      -- nothing changes
      have hocc : s.occupiedSize - (s.table.objs a).objSize + req.objSize = s.occupiedSize := by
        rw [← not_not.mp heq, h.occupiedSize]
        omega
      rw [hocc, ← not_not.mp heq, Hashtable.setObj_self]
  have hholds : (s.table.setObj a { s.table.objs a with objSize := req.objSize }).Holds l :=
    Hashtable.Stored.holds
      (h.holds.stored.setObj hal rfl (show req.objSize ≠ 0 from Nat.pos_iff_ne_zero.mp hsize.1))
  refine ⟨_, hcheck, ⟨hholds, ?_, h.alg, h.cacheSize, ?_, h.nObj⟩, ?_⟩
  · exact h.map_setObj (g := fun o => { o with objSize := req.objSize }) ha
  · have hocc : (c.resize req.objId req.objSize).occupiedSize =
        c.occupiedSize - (s.table.objs a).objSize + req.objSize := by
      change (c.getObj req.objId).elim _ _ = _
      rw [hget]
      rfl
    rw [hocc, ← h.occupiedSize]
  · refine hholds.stored.find_eq_some.mpr ⟨hal, ?_⟩
    simpa [Hashtable.setObj] using hid

/-- The object that was found goes to the tail. -/
theorem moveObjToTail_rep {a : Addr} (h : s.Rep l c) (ha : s.table.find req = some a) :
    ∃ links, ObjList.moveObjToTail s.table.links a = .ok links ∧
      Rep { s with table := s.table.setLinks links } (l.filter (· ≠ a) ++ [a])
        (c.moveObjToTail req.objId) := by
  obtain ⟨hal, hid⟩ := h.holds.stored.find_eq_some.mp ha
  obtain ⟨links, hmove, hlinked, hframe⟩ := ObjList.moveObjToTail_spec h.holds.linked hal
  have hperm : (l.filter (· ≠ a) ++ [a]).Perm l := by
    refine (List.perm_ext_iff_of_nodup hlinked.nodup h.holds.linked.nodup).mpr fun x => ?_
    by_cases hx : x = a <;> simp [hx, hal]
  have hget : c.getObj req.objId = some (s.table.objs a) := by rw [h.find, ha]; rfl
  refine ⟨links, hmove, Hashtable.setLinks_holds h.holds hperm hlinked hframe, ?_, h.alg, h.cacheSize,
    h.occupiedSize, h.nObj.trans hperm.length_eq.symm⟩
  have hobjs : (c.moveObjToTail req.objId).objs =
      c.objs.filter (fun o => o.objId != req.objId) ++ (c.getObj req.objId).toList := rfl
  have hfilter : l.filter (· ≠ a) = l.filter ((fun o : CacheObj => o.objId != req.objId) ∘ s.table.objs) := by
    refine List.filter_congr fun x hx => ?_
    rw [Bool.eq_iff_iff]
    simp [h.objId_eq_iff ha hx]
  rw [hobjs, hget, ← h.objs, List.filter_map, ← hfilter]
  exact List.map_append

theorem check_none (h : s.Rep l c) (hnone : c.getObj req.objId = none) :
    s.check req = .ok (s, false) ∧ s.Rep l (c.check req.objId req.objSize) := by
  have hf : s.table.find req = none := by
    rw [h.find] at hnone
    exact Option.map_eq_none_iff.mp hnone
  have hcheck : s.cacheCheck req = (s, none) := by rw [cacheCheck, hf]
  refine ⟨?_, h.holds, ?_, ?_, ?_, ?_, h.nObj⟩
  · rw [check, hcheck]
    cases s.alg <;> rfl
  · rw [Cache.objs_check_none hnone, h.objs]
  · rw [Cache.check_alg, h.alg]
  · rw [Cache.check_cacheSize, h.cacheSize]
  · rw [h.occupiedSize, Cache.occupied, Cache.occupied, Cache.objs_check_none hnone]

theorem check_some {a : Addr} (h : s.Rep l c) (hsize : Sized req)
    (ha : s.table.find req = some a) : ∃ s' l', s.check req = .ok (s', true) ∧
      s'.Rep l' (c.check req.objId req.objSize) := by
  obtain ⟨s₁, hs₁, h₁, ha₁⟩ := cacheCheck_some h hsize ha
  cases halg : s.alg with
  | fifo =>
    have hc : c.check req.objId req.objSize = c.resize req.objId req.objSize := by
      rw [Cache.check, ← h.alg, halg]
    refine ⟨s₁, l, ?_, hc ▸ h₁⟩
    rw [check, hs₁, halg]
    rfl
  | lru =>
    have hc : c.check req.objId req.objSize =
        (c.resize req.objId req.objSize).moveObjToTail req.objId := by
      rw [Cache.check, ← h.alg, halg]
    obtain ⟨links, hmove, h₂⟩ := moveObjToTail_rep h₁ ha₁
    refine ⟨_, _, ?_, hc ▸ h₂⟩
    rw [check, hs₁, halg]
    dsimp only
    rw [hmove]
    rfl

theorem check_refines (h : s.Rep l c) (hsize : Sized req) :
    ∃ s' l', s.check req = .ok (s', (c.getObj req.objId).isSome) ∧
      s'.Rep l' (c.check req.objId req.objSize) := by
  rw [h.find]
  cases ha : s.table.find req with
  | none =>
    exact ⟨s, l, check_none h (by rw [h.find, ha]; rfl)⟩
  | some a => exact check_some h hsize ha

theorem insert_refines (h : s.Rep l c) (hsize : Sized req) (hnone : c.getObj req.objId = none) :
    ∃ s' l', s.insert req = .ok s' ∧ s'.Rep l' (c.insert req.objId req.objSize hnone) := by
  have hid : ∀ a ∈ l, (s.table.objs a).objId ≠ req.objId := by
    intro a ha heq
    exact Cache.getObj_eq_none.mp hnone
      (List.mem_map.mpr ⟨s.table.objs a, h.objs ▸ List.mem_map_of_mem ha, heq⟩)
  have hmod : req.objSize % 2 ^ 32 = req.objSize := Nat.mod_eq_of_lt hsize.2
  obtain ⟨t', a, l', hinsert, hins, hobjs⟩ := Hashtable.insert_inserted h.holds hid
    (by rw [hmod]; exact Nat.pos_iff_ne_zero.mp hsize.1)
  obtain ⟨links, hlinks, hlinked, hframe⟩ :=
    ObjList.insertObj_spec hins.linked hins.fresh hins.prev hins.next
  have hlength : l'.length = l.length := by simpa using congrArg List.length hobjs
  refine ⟨⟨s.alg, s.cacheSize, s.occupiedSize + req.objSize, s.nObj + 1, t'.setLinks links⟩, l' ++ [a],
    ?_, hins.holds links hlinked hframe, ?_, h.alg, h.cacheSize, ?_, ?_⟩
  · rw [insert, hinsert]
    dsimp only
    rw [hlinks]
    rfl
  · have hself : (t'.setLinks links).objs a = _ := hins.self
    have hrest : l'.map (t'.setLinks links).objs = l.map s.table.objs := hobjs
    rw [List.map_append, List.map_singleton, hself, hrest, h.objs, hmod]
    rfl
  · exact congrArg (· + req.objSize) h.occupiedSize
  · rw [List.length_append, hlength, ← h.nObj]
    rfl

theorem evict_refines (h : s.Rep l c) (hc : c.evict = .ok c') :
    ∃ s' l', s.evict = .ok s' ∧ s'.Rep l' c' := by
  unfold Cache.evict at hc
  split at hc
  · cases hc
  · next hlength =>
    cases hc
    rw [← h.objs, List.length_map] at hlength
    obtain _ | ⟨a, l⟩ := l
    · simp at hlength
    · have hl : l ≠ [] := by
        rintro rfl
        simp at hlength
      obtain ⟨links, hlinks, hlinked, hframe, hprev, hnext⟩ :=
        ObjList.evictHead_spec h.holds.linked hl
      obtain ⟨t', l', hdelete, hholds, hobjs⟩ :=
        Hashtable.delete_holds h.holds hlinked hframe hprev hnext
      refine ⟨⟨s.alg, s.cacheSize, s.occupiedSize - (s.table.objs a).objSize, s.nObj - 1, t'⟩, l', ?_,
        hholds, ?_, h.alg, h.cacheSize, ?_, ?_⟩
      · rw [evict, hlinks]
        dsimp only [Except.bind]
        rw [hdelete]
        rfl
      · rw [Cache.pop_objs, ← h.objs, hobjs]
        rfl
      · have hocc : c.pop.occupiedSize = c.occupiedSize - c.objs.head?.elim 0 CacheObj.objSize := rfl
        rw [hocc, ← h.objs, ← h.occupiedSize]
        rfl
      · have hlength' : l'.length = l.length := by simpa using congrArg List.length hobjs
        rw [hlength']
        exact congrArg (· - 1) h.nObj

theorem evictLoop_refines {fuel : Nat} (h : s.Rep l c) (hc : Cache.evictLoop fuel c = .ok c') :
    ∃ s' l', evictLoop fuel s = .ok s' ∧ s'.Rep l' c' := by
  induction fuel generalizing s l c with
  | zero => cases hc
  | succ fuel ih =>
    rw [Cache.evictLoop, ← h.cacheSize, ← h.occupiedSize] at hc
    rw [evictLoop]
    split at hc
    · next hgt =>
      rw [if_pos hgt]
      obtain ⟨c₁, hc₁, hc⟩ := bind_eq_ok hc
      obtain ⟨s₁, l₁, hs₁, h₁⟩ := evict_refines h hc₁
      rw [hs₁]
      exact ih h₁ hc
    · next hle =>
      rw [if_neg hle]
      cases hc
      exact ⟨s, l, rfl, h⟩

/-- The object is in the cache before evictions. -/
theorem holding_refines (h : s.Rep l c) (hsize : Sized req) :
    ∃ s₁ s₂ l₂, s.check req = .ok (s₁, (c.getObj req.objId).isSome) ∧ s₁.cacheSize = c.cacheSize ∧
      (if (c.getObj req.objId).isSome then .ok s₁ else s₁.insert req) = .ok s₂ ∧
      s₂.Rep l₂ (c.holding req.objId req.objSize) := by
  obtain ⟨s₁, l₁, hs₁, h₁⟩ := check_refines h hsize
  have hsize₁ : s₁.cacheSize = c.cacheSize := by rw [h₁.cacheSize, Cache.check_cacheSize]
  unfold Cache.holding
  dsimp only
  cases hget : c.getObj req.objId with
  | none =>
    rw [hget] at hs₁
    have hnone : (c.check req.objId req.objSize).getObj req.objId = none := by
      rw [Cache.getObj_check, hget]; rfl
    obtain ⟨s₂, l₂, hs₂, h₂⟩ := insert_refines h₁ hsize hnone
    rw [dif_pos hnone]
    exact ⟨s₁, s₂, l₂, hs₁, hsize₁, hs₂, h₂⟩
  | some o =>
    rw [hget] at hs₁
    rw [dif_neg (by rw [Cache.getObj_check, hget]; simp)]
    exact ⟨s₁, s₁, l₁, hs₁, hsize₁, rfl, h₁⟩

/-- **Refinement.** A request to the cache in memory does what it does to its specification. -/
theorem get_refines {hit : Bool} (h : s.Rep l c) (hsize : Sized req)
    (hc : c.get req.objId req.objSize = .ok (c', hit)) :
    ∃ s' l', s.get req = .ok (s', hit) ∧ s'.Rep l' c' := by
  unfold Cache.get at hc
  dsimp only at hc
  unfold get
  split at hc
  · next hle =>
    obtain ⟨s₁, s₂, l₂, hs₁, hsize₁, hs₂, h₂⟩ := holding_refines h hsize
    obtain ⟨c₁, hloop, heq⟩ := map_eq_ok hc
    cases heq
    have hlength : (c.holding req.objId req.objSize).objs.length = s₂.nObj := by
      rw [← h₂.objs, List.length_map, h₂.nObj]
    rw [hlength] at hloop
    obtain ⟨s₃, l₃, hs₃, h₃⟩ := evictLoop_refines h₂ hloop
    refine ⟨s₃, l₃, ?_, h₃⟩
    rw [hs₁]
    change (if req.objSize ≤ s₁.cacheSize then _ else _) = _
    rw [hsize₁, if_pos hle, hs₂]
    change (evictLoop (s₂.nObj + 1) s₂).map _ = _
    rw [hs₃]
    rfl
  · next hgt =>
    cases hc
    obtain ⟨s₁, l₁, hs₁, h₁⟩ := check_refines h hsize
    refine ⟨s₁, l₁, ?_, h₁⟩
    rw [hs₁]
    change (if req.objSize ≤ s₁.cacheSize then _ else _) = _
    rw [if_neg]
    rwa [h₁.cacheSize, Cache.check_cacheSize]

end

end MemCache

end C2DN.Simulator
