import Mathlib.Data.List.TakeWhile
import C2DN.Lib.Run
import C2DN.Simulator.MemCache

/-!
# Runs of a cache in memory

A cache in memory that starts empty and gets requests that fit into it, of any ids and sizes. The
objects on its list (`objs`) are read from memory. With LRU a request makes its object the newest one
and evicts the shortest prefix of the others that makes room for it. With FIFO the object keeps its
place on the list, so a request that makes it larger evicts it together with the objects before it
unless it fits together with those behind it.
-/

namespace C2DN.Simulator

namespace Cache
variable {c c' : Cache} {id size : Nat} {hit : Bool}

/-- What a request that fits evicts. -/
theorem get_shortest (h : c.get id size = .ok (c', hit)) (hsize : size ≤ c.cacheSize) :
    hit = (c.getObj id).isSome ∧ ∃ d, c'.objs = (c.holding id size).objs.drop d ∧
      ∀ j < d, c.cacheSize < total ((c.holding id size).objs.drop j) := by
  unfold get at h
  dsimp only at h
  rw [if_pos hsize] at h
  obtain ⟨c₁, hloop, heq⟩ := map_eq_ok h
  cases heq
  obtain ⟨-, -, -, d, hd, hmin⟩ := evictLoop_shortest hloop
  rw [holding_cacheSize] at hmin
  exact ⟨rfl, d, hd, hmin⟩

/-- Requests that fit are served when every object fits. -/
theorem get_of_sizes (h : ∀ o ∈ c.objs, o.objSize ≤ c.cacheSize) (hsize : size ≤ c.cacheSize) :
    ∃ c' hit, c.get id size = .ok (c', hit) ∧ c'.alg = c.alg ∧ c'.cacheSize = c.cacheSize ∧
      c'.occupiedSize ≤ c'.cacheSize ∧ ∀ o ∈ c'.objs, o.objSize ≤ c'.cacheSize := by
  have hsizes : ∀ o ∈ (c.holding id size).objs, o.objSize ≤ (c.holding id size).cacheSize := by
    intro o ho
    rw [holding_cacheSize]
    rcases mem_holding.mp ho with ⟨-, ho⟩ | rfl
    · exact h o ho
    · exact hsize
  obtain ⟨c', hloop⟩ := evictLoop_ok hsizes (Nat.lt_succ_self _)
  have hget : c.get id size = .ok (c', (c.getObj id).isSome) := by
    unfold get
    dsimp only
    rw [if_pos hsize, hloop]
    rfl
  obtain ⟨halg, hcap, hocc, d, hd⟩ := evictLoop_drop hloop
  rw [holding_alg] at halg
  rw [holding_cacheSize] at hcap
  refine ⟨c', _, hget, halg, hcap, hocc, fun o ho => ?_⟩
  rw [hd] at ho
  have hle := hsizes o (List.mem_of_mem_drop ho)
  rwa [holding_cacheSize, ← hcap] at hle

/-- The objects behind an object on the list. -/
def behind (l : List CacheObj) (id : Nat) : List CacheObj :=
  (l.dropWhile fun o => o.objId != id).tail

theorem behind_middle {pre post : List CacheObj} {o : CacheObj}
    (h : ((pre ++ o :: post).map CacheObj.objId).Nodup) : behind (pre ++ o :: post) o.objId = post := by
  have hpre : ∀ x ∈ pre, x.objId != o.objId := by
    intro x hx
    rw [List.map_append, List.map_cons] at h
    have := (List.nodup_append.mp h).2.2 x.objId (List.mem_map_of_mem hx) o.objId List.mem_cons_self
    simpa using this
  rw [behind, List.dropWhile_append_of_pos hpre, List.dropWhile_cons_of_neg (by simp), List.tail_cons]

/-- An object is evicted unless it fits together with the objects behind it. -/
theorem mem_drop_iff {pre post l' : List CacheObj} {o : CacheObj} {d cap : Nat}
    (h : ((pre ++ o :: post).map CacheObj.objId).Nodup) (hl' : l' = (pre ++ o :: post).drop d)
    (hfits : total l' ≤ cap) (hmin : ∀ j < d, cap < total ((pre ++ o :: post).drop j)) :
    o ∈ l' ↔ o.objSize + total post ≤ cap := by
  have hsuffix : (pre ++ o :: post).drop pre.length = o :: post := List.drop_left
  have htotal : total (o :: post) = o.objSize + total post := List.sum_cons
  rw [← htotal, ← hsuffix]
  rcases Nat.lt_or_ge pre.length d with hd | hd
  · -- the loop went past the object
    refine iff_of_false (fun hmem => ?_) (Nat.not_le.mpr (hmin _ hd))
    obtain ⟨k, rfl⟩ := Nat.exists_eq_add_of_lt hd
    rw [hl', Nat.add_assoc, ← List.drop_drop, hsuffix, List.drop_succ_cons] at hmem
    rw [List.map_append, List.map_cons] at h
    have hpost := (List.nodup_cons.mp (List.nodup_append.mp h).2.1).1
    exact hpost (List.mem_map_of_mem (List.mem_of_mem_drop hmem))
  · refine iff_of_true ?_ (Nat.le_trans (total_drop_le hd) (hl' ▸ hfits))
    rw [hl', List.drop_append_of_le_length hd]
    simp

theorem resize_middle {pre post : List CacheObj} {o : CacheObj} (h : c.objs = pre ++ o :: post) :
    (c.resize o.objId size).objs = pre ++ { o with objSize := size } :: post := by
  have hids := c.nodup
  rw [h, List.map_append, List.map_cons] at hids
  obtain ⟨-, hids, hdisj⟩ := List.nodup_append.mp hids
  have hpre : ∀ x ∈ pre, x.objId ≠ o.objId := fun x hx =>
    hdisj x.objId (List.mem_map_of_mem hx) o.objId List.mem_cons_self
  have hpost : ∀ x ∈ post, x.objId ≠ o.objId := fun x hx heq =>
    (List.nodup_cons.mp hids).1 (heq ▸ List.mem_map_of_mem hx)
  have hobjs : (c.resize o.objId size).objs = c.objs.map _ := rfl
  rw [hobjs, h, List.map_append, List.map_cons, if_pos rfl]
  congr 1
  · exact (List.map_congr_left fun x hx => if_neg (hpre x hx)).trans (List.map_id _)
  · congr 1
    exact (List.map_congr_left fun x hx => if_neg (hpost x hx)).trans (List.map_id _)

/-- The place of the object before evictions. -/
theorem holding_middle (c : Cache) (id size : Nat) :
    ∃ pre post, (c.holding id size).objs = pre ++ c.gotten id size :: post ∧
    (c.alg = .lru ∧ post = [] ∨ c.alg = .fifo ∧ post = behind c.objs id) := by
  cases hget : c.getObj id with
  | none =>
    refine ⟨c.others id, [], objs_holding (.inr hget), ?_⟩
    have hbehind : behind c.objs id = [] := by
      have hall : c.objs.dropWhile (fun o => o.objId != id) = [] := by
        rw [List.dropWhile_eq_nil_iff]
        intro o ho
        rw [bne_iff_ne]
        rintro rfl
        exact getObj_eq_none.mp hget (List.mem_map_of_mem ho)
      rw [behind, hall]
      rfl
    cases c.alg with
    | lru => exact .inl ⟨rfl, rfl⟩
    | fifo => exact .inr ⟨rfl, hbehind.symm⟩
  | some o =>
    cases halg : c.alg with
    | lru => exact ⟨c.others id, [], objs_holding (.inl halg), .inl ⟨rfl, rfl⟩⟩
    | fifo =>
      obtain ⟨hmem, rfl⟩ := getObj_eq_some.mp hget
      obtain ⟨pre, post, hobjs⟩ := List.append_of_mem hmem
      have hholding : c.holding o.objId size = c.resize o.objId size := by
        unfold holding
        dsimp only
        rw [dif_neg (by rw [getObj_check, hget]; simp), check, halg]
      refine ⟨pre, post, ?_, .inr ⟨rfl, ?_⟩⟩
      · rw [hholding, resize_middle hobjs, gotten_eq_of_some hget]
      · rw [hobjs, behind_middle (hobjs ▸ c.nodup)]

/-- Which requests find their object in the cache afterwards. -/
theorem mem_ids_get_iff (h : c.get id size = .ok (c', hit)) (hsize : size ≤ c.cacheSize) :
    id ∈ c'.ids ↔ c.alg = .lru ∨ size + total (behind c.objs id) ≤ c.cacheSize := by
  obtain ⟨-, d, hd, hmin⟩ := get_shortest h hsize
  obtain ⟨-, hcap, ⟨-, hocc, -⟩ | ⟨hgt, -⟩⟩ := get_cases h
  · obtain ⟨pre, post, hholding, hpost⟩ := holding_middle c id size
    have hmem : id ∈ c'.ids ↔ c.gotten id size ∈ c'.objs := by
      refine ⟨fun hid => ?_, fun hmem => List.mem_map.mpr ⟨_, hmem, rfl⟩⟩
      obtain ⟨o, ho, hid⟩ := List.mem_map.mp hid
      rcases mem_get h ho with ⟨hne, -⟩ | rfl
      · exact absurd hid hne
      · exact ho
    have hnodup := (c.holding id size).nodup
    rw [hholding] at hnodup hd hmin
    rw [hcap, c'.occupied] at hocc
    rw [hmem, mem_drop_iff hnodup hd hocc hmin]
    rcases hpost with ⟨halg, rfl⟩ | ⟨halg, rfl⟩
    · exact iff_of_true hsize (.inl halg)
    · rw [halg]
      simp [gotten]
  · omega

end Cache

/-! ## The cache in memory -/

namespace MemCache
variable {hash : Nat → Nat}

/-- The objects from `list_head` along `list_next`. The walk may go one object further than `n_obj`
says. -/
def objs (s : MemCache hash) : List CacheObj :=
  (s.table.links.walk (s.nObj + 1) s.table.links.head).map s.table.objs

/-- `cache_get_obj`. -/
def getObj (s : MemCache hash) (req : ObjRequest hash) : Option CacheObj :=
  (s.table.find req).map s.table.objs

/-- The counters of the cache and of the hash table agree with the list, and the cache is not
overfull. -/
structure Sound (s : MemCache hash) : Prop where
  occupiedSize : s.occupiedSize = Cache.total s.objs
  fits : s.occupiedSize ≤ s.cacheSize
  nObj : s.nObj = s.objs.length
  nCurItem : s.table.nCurItem = s.objs.length

/-- The object of a request is in the cache, with the requested size. -/
def Served (s : MemCache hash) (req : ObjRequest hash) : Prop :=
  ∃ o ∈ s.objs, s.getObj req = some o ∧ o.objId = req.objId ∧ o.objSize = req.objSize

/-- A request that fits. -/
def Fits (cacheSize : Nat) (req : ObjRequest hash) : Prop :=
  1 ≤ req.objSize ∧ req.objSize ≤ cacheSize ∧ req.objSize < 2 ^ 32

instance {cacheSize : Nat} {req : ObjRequest hash} : Decidable (Fits cacheSize req) :=
  inferInstanceAs (Decidable (_ ∧ _ ∧ _))

/-- The objects of a request to an LRU cache before evictions, the newest one last. -/
def touch (l : List CacheObj) (req : ObjRequest hash) : List CacheObj :=
  l.filter (fun o => o.objId != req.objId) ++
    [⟨req.objId, req.objSize,
      ((l.find? fun o => o.objId == req.objId).map CacheObj.info).getD .fresh⟩]

/-- A request to an LRU cache. -/
structure LruGet (s : MemCache hash) (req : ObjRequest hash) (hit : Bool) (s' : MemCache hash) :
    Prop where
  hit_iff : hit = true ↔ ∃ o ∈ s.objs, o.objId = req.objId
  served : s'.Served req
  newest : ∃ o, s'.objs.getLast? = some o ∧ o.objId = req.objId ∧ o.objSize = req.objSize
  evicted : ∃ d, d < (touch s.objs req).length ∧ s'.objs = (touch s.objs req).drop d ∧
    ∀ j < d, s.cacheSize < Cache.total ((touch s.objs req).drop j)
  sound : s'.Sound

/-- A request, for its effect on the cache. -/
def step (s : MemCache hash) (req : ObjRequest hash) : Except MemFault (MemCache hash) :=
  (s.get req).map Prod.fst

section
variable {s : MemCache hash} {l : List Addr} {c : Cache} {req : ObjRequest hash}

theorem Rep.objs_eq (h : s.Rep l c) : s.objs = c.objs := by
  rw [MemCache.objs, h.holds.linked.walk_head (by rw [h.nObj]; exact Nat.le_succ _), h.objs]

theorem Rep.getObj_eq (h : s.Rep l c) : s.getObj req = c.getObj req.objId := h.find.symm

theorem Rep.sound (h : s.Rep l c) (hfits : c.occupiedSize ≤ c.cacheSize) : s.Sound where
  occupiedSize := by rw [h.occupiedSize, c.occupied, h.objs_eq]; rfl
  fits := by rw [h.occupiedSize, h.cacheSize]; exact hfits
  nObj := by rw [h.objs_eq, ← h.objs, List.length_map, h.nObj]
  nCurItem := by rw [h.objs_eq, ← h.objs, List.length_map, h.holds.count]

/-- What holds of a cache that got requests that fit. -/
structure Inv (s : MemCache hash) (l : List Addr) (c : Cache) : Prop extends s.Rep l c where
  fits : c.occupiedSize ≤ c.cacheSize
  sizes : ∀ o ∈ c.objs, o.objSize ≤ c.cacheSize

theorem init_inv {alg : Alg} {cacheSize hashPower : Nat} :
    (init alg cacheSize hashPower : MemCache hash).Inv [] (.init alg cacheSize) :=
  { init_rep with fits := Nat.zero_le _, sizes := nofun }

/-- A request that fits returns. -/
theorem get_inv (h : s.Inv l c) (hreq : Fits c.cacheSize req) :
    ∃ s' l' c' hit, s.get req = .ok (s', hit) ∧ c.get req.objId req.objSize = .ok (c', hit) ∧
      s'.Inv l' c' ∧ c'.alg = c.alg ∧ c'.cacheSize = c.cacheSize := by
  obtain ⟨c', hit, hget, halg, hcap, hfits, hsizes⟩ := Cache.get_of_sizes h.sizes hreq.2.1
  obtain ⟨s', l', hs', h'⟩ := get_refines h.toRep ⟨hreq.1, hreq.2.2⟩ hget
  exact ⟨s', l', c', hit, hs', hget, { h' with fits := hfits, sizes := hsizes }, halg, hcap⟩

/-- The object is found exactly if the specification has it. -/
theorem served_iff {s' : MemCache hash} {l' : List Addr} {c' : Cache} {hit : Bool} (h' : s'.Rep l' c')
    (hget : c.get req.objId req.objSize = .ok (c', hit)) : s'.Served req ↔ req.objId ∈ c'.ids := by
  constructor
  · rintro ⟨o, ho, -, hid, -⟩
    rw [h'.objs_eq] at ho
    exact List.mem_map.mpr ⟨o, ho, hid⟩
  · intro hmem
    have hself := (Cache.get_got hget hmem).self
    refine ⟨_, ?_, h'.getObj_eq.trans hself, rfl, rfl⟩
    rw [h'.objs_eq]
    exact (Cache.getObj_eq_some.mp hself).1

theorem get_lru (h : s.Inv l c) (halg : c.alg = .lru) (hreq : Fits c.cacheSize req) :
    ∃ s' l' c' hit, s.get req = .ok (s', hit) ∧ s.LruGet req hit s' ∧ s'.Inv l' c' ∧
      c'.alg = c.alg ∧ c'.cacheSize = c.cacheSize := by
  obtain ⟨s', l', c', hit, hs', hget, h', halg', hcap'⟩ := get_inv h hreq
  obtain ⟨hhit, d, hd, hmin⟩ := Cache.get_shortest hget hreq.2.1
  have htouch : touch s.objs req = (c.holding req.objId req.objSize).objs := by
    rw [Cache.objs_holding (.inl halg), h.objs_eq]
    rfl
  have hserved : s'.Served req :=
    (served_iff h'.toRep hget).mpr ((Cache.mem_ids_get_iff hget hreq.2.1).mpr (.inl halg))
  have hobjs : s'.objs = (touch s.objs req).drop d := by rw [h'.objs_eq, hd, htouch]
  have hlt : d < (touch s.objs req).length := by
    by_contra hle
    obtain ⟨o, ho, -⟩ := hserved
    rw [hobjs, List.drop_eq_nil_of_le (Nat.le_of_not_lt hle)] at ho
    exact absurd ho List.not_mem_nil
  refine ⟨s', l', c', hit, hs', ⟨?_, hserved, ?_, ⟨d, hlt, hobjs, ?_⟩, h'.sound h'.fits⟩, h', halg',
    hcap'⟩
  · rw [hhit, h.objs_eq, Option.isSome_iff_exists]
    simp only [Cache.getObj_eq_some]
  · refine ⟨c.gotten req.objId req.objSize, ?_, rfl, rfl⟩
    rw [hobjs, List.getLast?_drop, if_neg (Nat.not_le.mpr hlt), htouch,
      Cache.objs_holding (.inl halg)]
    exact List.getLast?_concat
  · rw [htouch, h.cacheSize]
    exact hmin

/-- **LRU.** In every run of an LRU cache that starts empty, on requests of any ids that fit, no
request meets a null pointer or a failed assertion, and every request finds its object exactly if the
list has it, makes it the newest object with the requested size, evicts the shortest prefix of the
list that makes room for it and keeps the counters right. -/
theorem lru_run {cacheSize hashPower : Nat} {reqs : List (ObjRequest hash)}
    (h : ∀ req ∈ reqs, Fits cacheSize req) :
    (∃ s, reqs.foldlM step (init .lru cacheSize hashPower) = .ok s) ∧
      Steps step (fun s req s' => ∃ hit, s.get req = .ok (s', hit) ∧ s.LruGet req hit s') reqs
        (init .lru cacheSize hashPower) := by
  refine (Steps.of_total (D := Fits cacheSize)
    (I := fun s : MemCache hash => ∃ l c, s.Inv l c ∧ c.alg = .lru ∧ c.cacheSize = cacheSize) ?_
    ⟨[], _, init_inv, rfl, rfl⟩ h).imp_left fun ⟨s, hs, _⟩ => ⟨s, hs⟩
  rintro s req ⟨l, c, hinv, halg, rfl⟩ hreq
  obtain ⟨s', l', c', hit, hs', hlru, hinv', halg', hcap'⟩ := get_lru hinv halg hreq
  refine ⟨s', ?_, ⟨l', c', hinv', halg'.trans halg, hcap'⟩, hit, hs', hlru⟩
  rw [step, hs']
  rfl

end

/-! Objects of one bucket: the second request makes a chain, the third one expands the table, and the
fourth one makes an object larger. -/

def sameHash : Nat → Nat := fun _ => 1

def sizedReq (objId objSize : Nat) : ObjRequest sameHash := ⟨objId, objSize, 0, .inl rfl⟩

def lruReqs : List (ObjRequest sameHash) :=
  [sizedReq 1 3, sizedReq 2 3, sizedReq 3 3, sizedReq 1 5, sizedReq 4 5]

theorem lruReqs_run : (∀ req ∈ lruReqs, Fits 10 req) ∧
    ((∃ s, lruReqs.foldlM step (init .lru 10 0) = .ok s) ∧
      Steps step (fun s req s' => ∃ hit, s.get req = .ok (s', hit) ∧ s.LruGet req hit s') lruReqs
        (init .lru 10 0)) ∧
    (lruReqs.foldlM step (init .lru 10 0)).toOption.map
      (fun s => s.objs.map fun o => (o.objId, o.objSize)) = some [(1, 5), (4, 5)] :=
  ⟨by decide, lru_run (by decide), by decide +kernel⟩

end MemCache

end C2DN.Simulator
