import C2DN.Simulator.Cache

/-!
# Lemmas for the cache

What a request leaves in a cache (`Got`): its object, with the requested size and the metadata it
had, and other objects as they were. With LRU the object is the newest one. An object that fits
stays in the cache, with FIFO if it is found with the requested size in a cache that is not overfull
(`get_ok`).
-/

namespace C2DN.Simulator

namespace Cache

section
variable {c c' : Cache} {id size : Nat} {o : CacheObj}

@[simp] theorem pop_objs : c.pop.objs = c.objs.tail := rfl

@[simp] theorem insert_objs {h : c.getObj id = none} :
    (c.insert id size h).objs = c.objs ++ [⟨id, size, .fresh⟩] := rfl

@[simp] theorem check_alg : (c.check id size).alg = c.alg := by
  unfold check; split <;> rfl

@[simp] theorem check_cacheSize : (c.check id size).cacheSize = c.cacheSize := by
  unfold check; split <;> rfl

@[simp] theorem holding_alg : (c.holding id size).alg = c.alg := by
  unfold holding; dsimp only; split <;> simp [insert]

@[simp] theorem holding_cacheSize : (c.holding id size).cacheSize = c.cacheSize := by
  unfold holding; dsimp only; split <;> simp [insert]

theorem mem_check : o ∈ (c.check id size).objs ↔
    (o.objId ≠ id ∧ o ∈ c.objs) ∨ ∃ o₀, c.getObj id = some o₀ ∧ o = { o₀ with objSize := size } := by
  have hresize : o ∈ (c.resize id size).objs ↔ (o.objId ≠ id ∧ o ∈ c.objs) ∨
      ∃ o₀, c.getObj id = some o₀ ∧ o = { o₀ with objSize := size } := by
    simp only [resize, List.mem_map, getObj_eq_some]
    constructor
    · rintro ⟨o₀, ho₀, rfl⟩
      by_cases h : o₀.objId = id
      · exact .inr ⟨o₀, ⟨ho₀, h⟩, if_pos h⟩
      · rw [if_neg h]; exact .inl ⟨h, ho₀⟩
    · rintro (⟨h, ho⟩ | ⟨o₀, ⟨ho₀, h⟩, rfl⟩)
      · exact ⟨o, ho, if_neg h⟩
      · exact ⟨o₀, ho₀, if_pos h⟩
  unfold check
  split
  · exact perm_toTail.mem_iff.trans hresize
  · exact hresize

theorem getObj_check : (c.check id size).getObj id =
    (c.getObj id).map fun o => { o with objSize := size } := by
  cases h : c.getObj id with
  | none =>
    rw [Option.map_none, getObj_eq_none, ids, List.mem_map]
    rintro ⟨o, ho, rfl⟩
    rcases mem_check.mp ho with ⟨h', -⟩ | ⟨o₀, ho₀, -⟩
    · exact h' rfl
    · rw [h] at ho₀; cases ho₀
  | some o =>
    exact getObj_eq_some.mpr ⟨mem_check.mpr (.inr ⟨o, h, rfl⟩), (getObj_eq_some.mp h).2⟩

/-- The object of a request after `cache_get`. -/
def gotten (c : Cache) (id size : Nat) : CacheObj :=
  ⟨id, size, ((c.getObj id).map CacheObj.info).getD .fresh⟩

theorem gotten_eq_of_some (h : c.getObj id = some o) :
    c.gotten id size = { o with objSize := size } := by
  rw [gotten, h, ← (getObj_eq_some.mp h).2]; rfl

theorem mem_holding : o ∈ (c.holding id size).objs ↔
    (o.objId ≠ id ∧ o ∈ c.objs) ∨ o = c.gotten id size := by
  unfold holding
  dsimp only
  cases h : c.getObj id with
  | none =>
    rw [dif_pos (by rw [getObj_check, h]; rfl)]
    simp only [insert, List.mem_append, mem_check, h, List.mem_singleton, gotten, reduceCtorEq,
      false_and, exists_false, or_false, Option.map_none, Option.getD_none]
  | some o₀ =>
    rw [dif_neg (by rw [getObj_check, h]; simp), mem_check, gotten_eq_of_some h]
    simp [h]

/-- The other objects, in their order. -/
def others (c : Cache) (id : Nat) : List CacheObj := c.objs.filter fun o => o.objId != id

theorem others_of_none (h : c.getObj id = none) : c.others id = c.objs := by
  rw [others, List.filter_eq_self]
  intro o ho
  rw [bne_iff_ne]
  rintro rfl
  exact getObj_eq_none.mp h (List.mem_map_of_mem ho)

theorem others_resize : (c.resize id size).others id = c.others id := by
  have hid : ((fun o : CacheObj => o.objId != id) ∘ fun o : CacheObj =>
      if o.objId = id then { o with objSize := size } else o) = fun o => o.objId != id := by
    funext o
    simp only [Function.comp_apply]
    split <;> rfl
  rw [others, resize, List.filter_map, hid]
  refine (List.map_congr_left fun o ho => ?_).trans (List.map_id _)
  exact if_neg (by simpa using (List.mem_filter.mp ho).2)

/-- With LRU the object goes to the tail. -/
theorem objs_check_lru (hlru : c.alg = .lru) (h : c.getObj id = some o) :
    (c.check id size).objs = c.others id ++ [{ o with objSize := size }] := by
  obtain ⟨hmem, hid⟩ := getObj_eq_some.mp h
  have hget : (c.resize id size).getObj id = some { o with objSize := size } :=
    getObj_eq_some.mpr ⟨List.mem_map.mpr ⟨o, hmem, if_pos hid⟩, hid⟩
  have htail : (c.check id size).objs =
      (c.resize id size).others id ++ ((c.resize id size).getObj id).toList := by
    rw [check, hlru]; rfl
  rw [htail, others_resize, hget]
  rfl

theorem objs_check_none (h : c.getObj id = none) : (c.check id size).objs = c.objs := by
  have hget : (c.resize id size).getObj id = none := by
    rw [getObj_eq_none] at h ⊢
    refine fun hmem => h ?_
    obtain ⟨o, ho, hid⟩ := List.mem_map.mp hmem
    obtain ⟨o₀, ho₀, rfl⟩ := List.mem_map.mp ho
    refine List.mem_map.mpr ⟨o₀, ho₀, ?_⟩
    rw [← hid]
    split <;> rfl
  have hresize : (c.resize id size).objs = c.objs := by
    rw [← others_of_none hget, others_resize, others_of_none h]
  unfold check
  split
  · change (c.resize id size).others id ++ ((c.resize id size).getObj id).toList = c.objs
    rw [hget, others_resize, others_of_none h]
    exact List.append_nil _
  · exact hresize

/-- A new object, and with LRU every object, is at the tail. -/
theorem objs_holding (h : c.alg = .lru ∨ c.getObj id = none) :
    (c.holding id size).objs = c.others id ++ [c.gotten id size] := by
  unfold holding
  dsimp only
  cases hget : c.getObj id with
  | none =>
    rw [dif_pos (by rw [getObj_check, hget]; rfl), insert_objs, objs_check_none hget,
      others_of_none hget, gotten, hget]
    rfl
  | some o =>
    rw [dif_neg (by rw [getObj_check, hget]; simp), gotten_eq_of_some hget]
    exact objs_check_lru (h.resolve_right (by rw [hget]; simp)) hget

/-! ## Evictions -/

/-- The sizes of a list of objects. -/
def total (l : List CacheObj) : Nat := (l.map CacheObj.objSize).sum

theorem total_append {l r : List CacheObj} : total (l ++ r) = total l + total r := by
  rw [total, List.map_append, List.sum_append]; rfl

theorem total_drop_le {l : List CacheObj} {i j : Nat} (h : i ≤ j) :
    total (l.drop j) ≤ total (l.drop i) := by
  rw [← List.take_append_drop (j - i) (l.drop i), total_append, List.drop_drop,
    Nat.add_sub_cancel' h]
  exact Nat.le_add_left _ _

/-- The evicted objects are the shortest prefix whose removal makes the rest fit. -/
theorem evictLoop_shortest {fuel : Nat} (h : evictLoop fuel c = .ok c') :
    c'.alg = c.alg ∧ c'.cacheSize = c.cacheSize ∧ c'.occupiedSize ≤ c'.cacheSize ∧
      ∃ d, c'.objs = c.objs.drop d ∧ ∀ j < d, c.cacheSize < total (c.objs.drop j) := by
  induction fuel generalizing c with
  | zero => cases h
  | succ fuel ih =>
    rw [evictLoop] at h
    split at h
    · next hgt =>
      obtain ⟨c₁, hc₁, h⟩ := bind_eq_ok h
      unfold evict at hc₁
      split at hc₁
      · cases hc₁
      · cases hc₁
        obtain ⟨halg, hsize, hocc, d, hd, hmin⟩ := ih h
        have hpop : ∀ j, c.pop.objs.drop j = c.objs.drop (j + 1) := by
          intro j
          rw [pop_objs, ← List.drop_one, List.drop_drop, Nat.add_comm]
        refine ⟨halg, hsize, hocc, d + 1, hd.trans (hpop d), fun j hj => ?_⟩
        cases j with
        | zero => rw [List.drop_zero, total, ← c.occupied]; exact hgt
        | succ j => rw [← hpop]; exact hmin j (Nat.lt_of_succ_lt_succ hj)
    · next hle =>
      cases h
      exact ⟨rfl, rfl, Nat.le_of_not_lt hle, 0, rfl, fun _ hj => absurd hj (Nat.not_lt_zero _)⟩

theorem evictLoop_drop {fuel : Nat} (h : evictLoop fuel c = .ok c') :
    c'.alg = c.alg ∧ c'.cacheSize = c.cacheSize ∧ c'.occupiedSize ≤ c'.cacheSize ∧
      ∃ d, c'.objs = c.objs.drop d := by
  obtain ⟨halg, hsize, hocc, d, hd, -⟩ := evictLoop_shortest h
  exact ⟨halg, hsize, hocc, d, hd⟩

theorem evictLoop_fault {fuel : Nat} {e : Fault} (h : evictLoop fuel c = .error e) :
    e = .nullPointer := by
  induction fuel generalizing c with
  | zero => cases h; rfl
  | succ fuel ih =>
    rw [evictLoop] at h
    split at h
    · unfold evict at h
      split at h
      · cases h; rfl
      · exact ih h
    · cases h

/-- The loop stops before an object at the tail that fits. -/
theorem evictLoop_tail {fuel : Nat} {pre : List CacheObj} (hobjs : c.objs = pre ++ [o])
    (ho : o.objSize ≤ c.cacheSize) (hfuel : pre.length < fuel) :
    ∃ c', evictLoop fuel c = .ok c' ∧ o ∈ c'.objs := by
  induction fuel generalizing c pre with
  | zero => omega
  | succ fuel ih =>
    rw [evictLoop]
    split
    · next hgt =>
      cases pre with
      | nil =>
        have hocc := c.occupied
        rw [hobjs] at hocc
        simp at hocc
        omega
      | cons p pre =>
        have hevict : c.evict = .ok c.pop := if_neg (by rw [hobjs]; simp)
        rw [hevict]
        exact ih (by rw [pop_objs, hobjs]; rfl) ho (by simpa using hfuel)
    · exact ⟨c, rfl, by rw [hobjs]; simp⟩

/-- The loop does not get to the last object if every object fits. -/
theorem evictLoop_ok {fuel : Nat} (hsizes : ∀ o ∈ c.objs, o.objSize ≤ c.cacheSize)
    (hfuel : c.objs.length < fuel) : ∃ c', evictLoop fuel c = .ok c' := by
  induction fuel generalizing c with
  | zero => omega
  | succ fuel ih =>
    rw [evictLoop]
    split
    · next hgt =>
      have hlength : ¬ c.objs.length < 2 := by
        intro hlt
        rw [c.occupied] at hgt
        obtain hobjs | ⟨o, hobjs⟩ : c.objs = [] ∨ ∃ o, c.objs = [o] := by
          match hobjs : c.objs with
          | [] => exact .inl rfl
          | [o] => exact .inr ⟨o, rfl⟩
          | _ :: _ :: _ => rw [hobjs, List.length_cons, List.length_cons] at hlt; omega
        · rw [hobjs] at hgt
          simp at hgt
        · have hle := hsizes o (by rw [hobjs]; simp)
          rw [hobjs] at hgt
          simp at hgt
          omega
      have hevict : c.evict = .ok c.pop := if_neg hlength
      rw [hevict]
      refine ih (fun o ho => hsizes o (List.mem_of_mem_tail ho)) ?_
      rw [pop_objs, List.length_tail]
      omega
    · exact ⟨c, rfl⟩

theorem evictLoop_fits {fuel : Nat} (h : c.occupiedSize ≤ c.cacheSize) :
    evictLoop (fuel + 1) c = .ok c := by
  rw [evictLoop, if_neg (Nat.not_lt.mpr h)]

/-! ## `cache_get` -/

/-- The cache `c'` after a request that has left its object in it. -/
structure Got (c : Cache) (id size : Nat) (c' : Cache) : Prop where
  alg : c'.alg = c.alg
  cacheSize : c'.cacheSize = c.cacheSize
  self : c'.getObj id = some (c.gotten id size)
  other : ∀ id' o, id' ≠ id → c'.getObj id' = some o → c.getObj id' = some o
  recent : c.alg = .lru → ∃ d, c'.ids = (c.ids.filter (· ≠ id)).drop d ++ [id]
  fits : size ≤ c.cacheSize → c'.occupiedSize ≤ c'.cacheSize

theorem map_others : (c.others id).map CacheObj.objId = c.ids.filter (· ≠ id) := by
  rw [ids, List.filter_map, others]
  congr 1
  refine List.filter_congr fun o _ => ?_
  by_cases h : o.objId = id <;> simp [h]

/-- What `cache_get` returns: the cache before evictions less a prefix, or, if the object does not
fit, the checked cache. -/
theorem get_cases {b : Bool} (h : c.get id size = .ok (c', b)) :
    c'.alg = c.alg ∧ c'.cacheSize = c.cacheSize ∧
      ((size ≤ c.cacheSize ∧ c'.occupiedSize ≤ c'.cacheSize ∧
        ∃ d, c'.objs = (c.holding id size).objs.drop d) ∨
      (c.cacheSize < size ∧ c'.objs = (c.check id size).objs)) := by
  unfold get at h
  dsimp only at h
  split at h
  · next hle =>
    cases hloop : evictLoop ((c.holding id size).objs.length + 1) (c.holding id size) with
    | error e => rw [hloop] at h; cases h
    | ok c₁ =>
      rw [hloop] at h
      cases h
      obtain ⟨halg, hsize, hocc, hd⟩ := evictLoop_drop hloop
      exact ⟨by rw [halg, holding_alg], by rw [hsize, holding_cacheSize], .inl ⟨hle, hocc, hd⟩⟩
  · next hgt =>
    cases h
    exact ⟨check_alg, check_cacheSize, .inr ⟨Nat.lt_of_not_le hgt, rfl⟩⟩

/-- Whatever happens, the cache has old objects and the requested one. -/
theorem mem_get {b : Bool} (h : c.get id size = .ok (c', b)) (ho : o ∈ c'.objs) :
    (o.objId ≠ id ∧ o ∈ c.objs) ∨ o = c.gotten id size := by
  obtain ⟨-, -, ⟨-, -, d, hd⟩ | ⟨-, hd⟩⟩ := get_cases h
  · rw [hd] at ho
    exact mem_holding.mp (List.mem_of_mem_drop ho)
  · rw [hd] at ho
    refine (mem_check.mp ho).imp_right ?_
    rintro ⟨o₀, ho₀, rfl⟩
    exact (gotten_eq_of_some ho₀).symm

theorem get_got {b : Bool} (h : c.get id size = .ok (c', b)) (hmem : id ∈ c'.ids) :
    Got c id size c' := by
  obtain ⟨halg, hsize, hcase⟩ := get_cases h
  refine ⟨halg, hsize, ?_, ?_, ?_, ?_⟩
  · obtain ⟨o, ho⟩ := mem_ids.mp hmem
    obtain ⟨ho, hid⟩ := getObj_eq_some.mp ho
    rcases mem_get h ho with ⟨hne, -⟩ | rfl
    · exact absurd hid hne
    · exact getObj_eq_some.mpr ⟨ho, rfl⟩
  · intro id' o hne hget
    obtain ⟨ho, rfl⟩ := getObj_eq_some.mp hget
    rcases mem_get h ho with ⟨-, ho⟩ | rfl
    · exact getObj_eq_some.mpr ⟨ho, rfl⟩
    · exact absurd rfl hne
  · intro hlru
    rw [← map_others]
    rcases hcase with ⟨-, -, d, hd⟩ | ⟨-, hd⟩
    · rw [objs_holding (.inl hlru)] at hd
      refine ⟨d, ?_⟩
      -- the drop does not reach the tail, where the object is
      have hle : d ≤ (c.others id).length := by
        by_contra hlt
        rw [List.drop_eq_nil_of_le (by simp; omega)] at hd
        simp [ids, hd] at hmem
      rw [ids, hd, List.drop_append_of_le_length hle, List.map_append, ← List.map_drop]
      rfl
    · refine ⟨0, ?_⟩
      cases hget : c.getObj id with
      | none =>
        rw [ids, hd, objs_check_none hget] at hmem
        exact absurd hmem (getObj_eq_none.mp hget)
      | some o =>
        rw [ids, hd, objs_check_lru hlru hget, List.map_append, List.drop_zero]
        simp [(getObj_eq_some.mp hget).2]
  · intro hle
    rcases hcase with ⟨-, hocc, -⟩ | ⟨hgt, -⟩
    · exact hocc
    · omega

theorem get_fault {e : Fault} (h : c.get id size = .error e) : e = .nullPointer := by
  unfold get at h
  dsimp only at h
  split at h
  · cases hloop : evictLoop ((c.holding id size).objs.length + 1) (c.holding id size) with
    | error e' =>
      rw [hloop] at h
      cases h
      exact evictLoop_fault hloop
    | ok c₁ => rw [hloop] at h; cases h
  · cases h

/-- The object of a request of this size is not evicted by the request. -/
structure Safe (c : Cache) (id size : Nat) : Prop where
  fits : size ≤ c.cacheSize
  fifo : c.alg = .lru ∨
    c.occupiedSize ≤ c.cacheSize ∧ ∀ o, c.getObj id = some o → o.objSize = size

/-- `cache_get` returns with the object in the cache. -/
theorem get_ok (h : c.Safe id size) :
    ∃ c' b, c.get id size = .ok (c', b) ∧ id ∈ c'.ids := by
  obtain ⟨hsize, h⟩ := h
  obtain ⟨c', hc', hmem⟩ : ∃ c', evictLoop ((c.holding id size).objs.length + 1) (c.holding id size) =
      .ok c' ∧ c.gotten id size ∈ c'.objs := by
    by_cases htail : c.alg = .lru ∨ c.getObj id = none
    · have hobjs : (c.holding id size).objs = _ := objs_holding htail
      refine evictLoop_tail hobjs (by rw [holding_cacheSize]; exact hsize) ?_
      rw [hobjs, List.length_append]
      exact Nat.lt_succ_of_le (Nat.le_add_right _ _)
    · -- FIFO finds the object with this size, and nothing changes
      obtain ⟨halg, hne⟩ := not_or.mp htail
      obtain ⟨hocc, hsame⟩ := h.resolve_left halg
      obtain ⟨o, ho⟩ := Option.ne_none_iff_exists'.mp hne
      have hfifo : c.alg = .fifo := by
        cases halg' : c.alg with
        | lru => exact absurd halg' halg
        | fifo => rfl
      have hholding : c.holding id size = c.resize id size := by
        unfold holding
        dsimp only
        rw [dif_neg (by rw [getObj_check, ho]; simp), check, hfifo]
      have hle : o.objSize ≤ c.occupiedSize := by
        rw [c.occupied]
        exact le_sum_of_mem (List.mem_map_of_mem (getObj_eq_some.mp ho).1)
      refine ⟨_, evictLoop_fits ?_, mem_holding.mpr (.inr rfl)⟩
      have hocc' : (c.resize id size).occupiedSize = c.occupiedSize - o.objSize + size := by
        change (c.getObj id).elim _ _ = _
        rw [ho]
        rfl
      rw [holding_cacheSize, hholding, hocc', hsame o ho]
      rw [hsame o ho] at hle
      omega
  refine ⟨c', (c.getObj id).isSome, ?_, List.mem_map.mpr ⟨_, hmem, rfl⟩⟩
  rw [get]
  dsimp only
  rw [if_pos hsize, hc']
  rfl

end

end Cache

end C2DN.Simulator
