import C2DN.Simulator.DistancesCorrect
import C2DN.Simulator.MissRatioCurveRuns

/-!
# The curve and the profile

`get_miss_ratio_curve` on a binary trace with LRU caches, for objects of size 1. A request behind the
warm-up misses in a cache for `x` objects if `x` objects or more were requested since the last request for
its object. `_get_lru_miss_cnt` has the same numbers for a size unless the object of the first request is
requested again while it is still in the cache.
-/

namespace C2DN.Simulator

/-- `clone_reader`: the trace is set up once more. -/
def BinaryReader.clone (reader : BinaryReader) : BinaryReader := { reader with mmapOffset := 0 }

/-- `_get_lru_miss_cnt`, for a trace of `nReq` requests. -/
def LruProfile.getLruMissCnt (T : CountedSet Int) (nReq size : Nat) (trace : List Nat) :
    Except Fault (List Nat) :=
  (getLruHitCnt T size trace).map fun cnt => cnt.map (nReq - ·)

namespace MissRatioCurve

/-- `get_miss_ratio_curve(reader, cache, num_of_sizes, cache_sizes, NULL, …)`, for an LRU cache. -/
def lruParams (hash : Nat → Nat) (hashPower : Nat) (reader : BinaryReader) (nWarmupReq : Nat)
    (cacheSizes : List Nat) : Params BinaryReader (MemCache hash) where
  readOneReq := BinaryReader.readOneReq
  cloneReader := BinaryReader.clone
  createCacheWithNewSize size := .init .lru size hashPower
  get cache objId objSize := cache.get ⟨objId, objSize, 0, .inl rfl⟩
  reader
  warmupReader := none
  nWarmupReq
  cacheSizes

/-- The objects of the records of a trace. -/
def traceObjs (fields : List (Char × Nat)) (idx : TraceField → Nat) (file : List UInt8) :
    List (Nat × Nat) :=
  (List.range (file.length / widthOf fields)).map fun j =>
    ((fieldValue fields file j (idx .objId)).toNat, (fieldValue fields file j (idx .objSize)).toNat)

/-- The counters of an LRU cache for `size` objects of size 1. -/
def lruCounts (nWarmupReq : Nat) (ids : List Nat) (size : Nat) : Counts where
  reqCnt := (ids.drop nWarmupReq).length
  reqBytes := (ids.drop nWarmupReq).length
  missCnt := ((LruStack.dists [] ids).drop nWarmupReq).countP fun d => !LruStack.within size d
  missBytes := ((LruStack.dists [] ids).drop nWarmupReq).countP fun d => !LruStack.within size d

section
variable {initParams : TraceField → Int} {items : List FmtItem} {file : List UInt8} {j : Nat}
  {reader : BinaryReader} {idx : TraceField → Nat} {hash : Nat → Nat} {hashPower nWarmupReq : Nat}
  {sizes : List Nat}

/-! ## The reader -/

theorem readerAt_pending (H : ReaderAt initParams items file j reader)
    (C : Chosen (fieldsOf items) initParams idx) (hne : items ≠ []) {r₀ : BinaryReader} (n : Nat)
    (hn : j + n = reader.nTotalReq) (req : TraceReq) : ∃ reader' req',
      reader.readOneReq req = .ok (reader', req') ∧
        Pending (lruParams hash hashPower r₀ nWarmupReq sizes) reader' req' ((List.range' j n).map fun i =>
          ((fieldValue (fieldsOf items) file i (idx .objId)).toNat,
            (fieldValue (fieldsOf items) file i (idx .objSize)).toNat)) := by
  induction n generalizing j reader req with
  | zero => exact ⟨_, _, readOneReq_end H (by omega) req, .nil rfl⟩
  | succ n ih =>
    obtain ⟨reader', q, hread, H', hq⟩ := readOneReq_record H C hne (by omega) req
    have htotal : reader'.nTotalReq = reader.nTotalReq := by
      rw [H'.nTotalReq, H.nTotalReq, H'.itemSize, H.itemSize]
    obtain ⟨reader'', q', hread', hpending⟩ := ih H' (by omega) q
    refine ⟨reader', q, hread, ?_⟩
    rw [List.range'_succ, List.map_cons, ← hq.objId, ← hq.objSize]
    exact .cons hq.valid hread' hpending

theorem readerAt_delivers (H : ReaderAt initParams items file j reader)
    (C : Chosen (fieldsOf items) initParams idx) (hne : items ≠ []) :
    Delivers (lruParams hash hashPower reader nWarmupReq sizes) reader.clone
      (traceObjs (fieldsOf items) idx file) := by
  intro req
  rw [traceObjs, ← H.total, List.range_eq_range']
  exact readerAt_pending H.reset C hne _ (Nat.zero_add _) req

/-! ## The caches -/

/-- An LRU cache with the top of a stack. -/
def HasTop (size : Nat) (stack : List Nat) (s : MemCache hash) : Prop :=
  ∃ l c, s.Inv l c ∧ c.alg = .lru ∧ c.cacheSize = size ∧ s.Unit ∧ s.stack = stack.take size

variable {size id : Nat} {stack ids : List Nat} {s : MemCache hash} {p : Params BinaryReader (MemCache hash)}

theorem HasTop.get (h : HasTop size stack s) (hsize : 1 ≤ size) (id : Nat) : ∃ s' hit,
    s.get ⟨id, 1, 0, .inl rfl⟩ = .ok (s', hit) ∧ HasTop size (LruStack.touch stack id) s' ∧
      hit = LruStack.within size (LruStack.dist stack id) := by
  obtain ⟨l, c, hinv, halg, rfl, hunit, hstack⟩ := h
  have hfits : MemCache.Fits c.cacheSize (MemCache.unitReq ⟨id, 1, 0, .inl rfl⟩ : ObjRequest hash) :=
    ⟨Nat.le_refl 1, hsize, Nat.one_lt_two_pow (by decide)⟩
  obtain ⟨s', l', c', hit, hget, hlru, hinv', halg', hcap⟩ := MemCache.get_lru hinv halg hfits
  have hcap' : s'.cacheSize = s.cacheSize := by rw [hinv'.cacheSize, hcap, hinv.cacheSize]
  obtain ⟨hunit', hstack'⟩ := hlru.unit hunit hinv.nodup_stack hcap'
  refine ⟨s', hit, hget, ⟨l', c', hinv', halg'.trans halg, hcap, hunit', ?_⟩, ?_⟩
  · rw [hstack', hstack, hinv.cacheSize, LruStack.take_touch]
  · have hhit := hlru.hit_eq
    have hmem : id ∈ s.stack ↔ LruStack.within c.cacheSize (LruStack.dist stack id) = true := by
      rw [hstack, LruStack.within_dist]
    cases hwithin : LruStack.within c.cacheSize (LruStack.dist stack id) with
    | true =>
      rw [if_pos (hmem.mpr hwithin)] at hhit
      cases hit with
      | true => rfl
      | false => cases hhit
    | false =>
      rw [if_neg fun h => nomatch hwithin.symm.trans (hmem.mp h)] at hhit
      cases hit with
      | true => cases hhit
      | false => rfl

theorem init_hasTop (size hashPower : Nat) :
    HasTop size [] (MemCache.init .lru size hashPower : MemCache hash) :=
  ⟨[], _, MemCache.init_inv, rfl, rfl, nofun, List.take_nil.symm⟩

theorem HasTop.warmUp (h : HasTop size stack s) (hsize : 1 ≤ size) {objs : List (Nat × Nat)}
    (hobjs : ∀ obj ∈ objs, obj.2 = 1) : ∃ s',
      MissRatioCurve.warmUp (lruParams hash hashPower reader nWarmupReq sizes) s objs = .ok s' ∧
        HasTop size ((objs.map Prod.fst).foldl LruStack.touch stack) s' := by
  induction objs generalizing s stack with
  | nil => exact ⟨s, rfl, h⟩
  | cons obj objs ih =>
    obtain ⟨id, objSize⟩ := obj
    obtain rfl : objSize = 1 := hobjs _ List.mem_cons_self
    obtain ⟨s₁, hit, hget, h₁, -⟩ := h.get hsize id
    obtain ⟨s', hwarm, h'⟩ := ih h₁ fun o ho => hobjs o (List.mem_cons_of_mem _ ho)
    refine ⟨s', ?_, h'⟩
    have hstep : (s.get ⟨id, 1, 0, .inl rfl⟩).map (·.1) = .ok s₁ := by rw [hget]; rfl
    exact (foldlM_cons_ok hstep).trans hwarm

theorem HasTop.measure (h : HasTop size stack s) (hsize : 1 ≤ size) {objs : List (Nat × Nat)}
    (hobjs : ∀ obj ∈ objs, obj.2 = 1) (k : Counts) :
    MissRatioCurve.measure (lruParams hash hashPower reader nWarmupReq sizes) s k objs = .ok
      { reqCnt := k.reqCnt + objs.length
        reqBytes := k.reqBytes + objs.length
        missCnt := k.missCnt +
          (LruStack.dists stack (objs.map Prod.fst)).countP fun d => !LruStack.within size d
        missBytes := k.missBytes +
          (LruStack.dists stack (objs.map Prod.fst)).countP fun d => !LruStack.within size d } := by
  induction objs generalizing s stack k with
  | nil => rfl
  | cons obj objs ih =>
    obtain ⟨id, objSize⟩ := obj
    obtain rfl : objSize = 1 := hobjs _ List.mem_cons_self
    obtain ⟨s₁, hit, hget, h₁, rfl⟩ := h.get hsize id
    have hstep : (lruParams hash hashPower reader nWarmupReq sizes).get s id 1 =
        .ok (s₁, LruStack.within size (LruStack.dist stack id)) := hget
    rw [MissRatioCurve.measure, hstep]
    dsimp only [Except.bind]
    rw [ih h₁ fun o ho => hobjs o (List.mem_cons_of_mem _ ho), List.map_cons, LruStack.dists,
      List.countP_cons, List.length_cons, Counts.add]
    cases LruStack.within size (LruStack.dist stack id) with
    | true =>
      simp only [Bool.not_true, Bool.false_eq_true, if_true, if_false, Nat.add_zero]
      rw [Nat.add_assoc, Nat.add_assoc, Nat.add_comm 1]
    | false =>
      simp only [Bool.not_false, Bool.false_eq_true, if_true, if_false]
      rw [Nat.add_assoc, Nat.add_assoc, Nat.add_assoc, Nat.add_assoc, Nat.add_comm 1, Nat.add_comm 1]

/-- A simulation with a warm-up. -/
theorem simulate_lru {objs : List (Nat × Nat)} (hobjs : ∀ obj ∈ objs, obj.2 = 1) (hsize : 1 ≤ size) :
    simulate (lruParams hash hashPower reader nWarmupReq sizes) [] objs size =
      .ok (lruCounts nWarmupReq (objs.map Prod.fst) size) := by
  have hinit : HasTop size [] (MemCache.init .lru size hashPower : MemCache hash) := init_hasTop size hashPower
  obtain ⟨s', hwarm, h'⟩ : ∃ s', MissRatioCurve.warmUp (lruParams hash hashPower reader nWarmupReq sizes)
      (.init .lru size hashPower) (objs.take nWarmupReq) = .ok s' ∧
        HasTop size (((objs.take nWarmupReq).map Prod.fst).foldl LruStack.touch []) s' :=
    hinit.warmUp hsize fun o ho => hobjs o (List.mem_of_mem_take ho)
  have hmeasure : MissRatioCurve.measure (lruParams hash hashPower reader nWarmupReq sizes) s' ⟨0, 0, 0, 0⟩
      (objs.drop nWarmupReq) = _ :=
    h'.measure hsize (fun o ho => hobjs o (List.mem_of_mem_drop ho)) _
  have hempty : simulate (lruParams hash hashPower reader nWarmupReq sizes) [] objs size =
      (MissRatioCurve.warmUp (lruParams hash hashPower reader nWarmupReq sizes)
        (.init .lru size hashPower) (objs.take nWarmupReq)).bind fun cache =>
          MissRatioCurve.measure (lruParams hash hashPower reader nWarmupReq sizes) cache ⟨0, 0, 0, 0⟩
            (objs.drop nWarmupReq) := rfl
  rw [hempty, hwarm]
  dsimp only [Except.bind]
  rw [hmeasure, lruCounts, LruStack.dists_drop, ← List.map_take, ← List.map_drop, List.length_map,
    Nat.zero_add, Nat.zero_add]

theorem map_fst_traceObjs : (traceObjs (fieldsOf items) idx file).map Prod.fst =
    traceIds (fieldsOf items) idx file := by
  rw [traceObjs, List.map_map]
  rfl

/-- The curve of a binary trace with objects of size 1. -/
theorem setting_lru (H : ReaderAt initParams items file j reader)
    (C : Chosen (fieldsOf items) initParams idx) (hne : items ≠ [])
    (hunit : ∀ obj ∈ traceObjs (fieldsOf items) idx file, obj.2 = 1) (hsizes : ∀ size ∈ sizes, 1 ≤ size) :
    Setting (lruParams hash hashPower reader nWarmupReq sizes) [] (traceObjs (fieldsOf items) idx file)
      (lruCounts nWarmupReq (traceIds (fieldsOf items) idx file)) where
  reads := readerAt_delivers H C hne
  warms := nofun
  noWarm _ := rfl
  simulates size hsize := map_fst_traceObjs ▸ simulate_lru hunit (hsizes size hsize)

/-! ## The profile -/

theorem length_distsOf (ids : List Nat) : (LruProfile.distsOf ids).length = ids.length := by
  have hprof : ∀ (z : Option Nat) (stack tail : List Nat),
      (LruProfile.profDists z stack tail).length = tail.length := by
    intro z stack tail
    induction tail generalizing z stack with
    | nil => rfl
    | cons a tail ih => rw [LruProfile.profDists, List.length_cons, List.length_cons, ih]
  cases ids with
  | nil => rfl
  | cons a ids => rw [LruProfile.distsOf, List.length_cons, List.length_cons, hprof]

/-- The requests of the profile that miss beside those of a simulation without warm-up. -/
theorem missCnt_iff : ids.length - (LruProfile.distsOf ids).countP (LruStack.within size) =
      (lruCounts 0 ids size).missCnt ↔ LruProfile.LeavesFirst size ids := by
  have hprofile : (LruProfile.distsOf ids).countP (LruStack.within size) ≤ ids.length :=
    length_distsOf ids ▸ List.countP_le_length
  have hsplit := List.length_eq_countP_add_countP (LruStack.within size) (l := LruStack.dists [] ids)
  rw [LruStack.length_dists] at hsplit
  rw [← LruProfile.countP_distsOf_iff, lruCounts]
  dsimp only
  rw [List.drop_zero]
  have hmissed : (LruStack.dists [] ids).countP (fun d => !LruStack.within size d) =
      (LruStack.dists [] ids).countP fun d => decide ¬LruStack.within size d = true :=
    List.countP_congr fun d _ => by simp
  omega

/-- **Two ways to the curve.** On a binary trace with objects of size 1, `get_miss_ratio_curve` counts for
every LRU cache the requests behind the warm-up that come at least its size after the last request for
their object, in every run of the threads. Without a warm-up these are the counts of `_get_lru_miss_cnt`
exactly for the sizes at which the object of the first request has left the cache when it is requested
again. -/
theorem lruCurve_profile (lead : List Char) (hlead : ∀ c ∈ lead, c.isAlphanum = false) (hne : items ≠ [])
    (hwidth : widthOf (fieldsOf items) < 2 ^ 31) (C : Chosen (fieldsOf items) initParams idx)
    (file : List UInt8) (hunit : ∀ obj ∈ traceObjs (fieldsOf items) idx file, obj.2 = 1)
    (hash : Nat → Nat) (hashPower nWarmupReq : Nat) (sizes : List Nat) (hsizes : ∀ x ∈ sizes, 1 ≤ x)
    (hfits : SizesFit sizes) (numOfThreads size : Nat) :
    ∃ reader miss, binaryReaderSetup initParams (fmtText lead items) file = .ok reader ∧
      LruProfile.getLruMissCnt splayTree reader.nTotalReq size (traceIds (fieldsOf items) idx file) =
        .ok miss ∧
      ∀ (ts : List Tid) s, ts.foldlM (step (lruParams hash hashPower reader nWarmupReq sizes))
          (start (lruParams hash hashPower reader nWarmupReq sizes) numOfThreads) = .ok s →
        s.main = .returned → ∀ (i x : Nat), sizes[i]? = some x → ∃ r, s.shared.result[i]? = some r ∧
          r.cacheSize = x ∧ r.toCounts = lruCounts nWarmupReq (traceIds (fieldsOf items) idx file) x ∧
          (nWarmupReq = 0 → x ≤ size → (miss[x]? = some r.missCnt ↔
            LruProfile.LeavesFirst x (traceIds (fieldsOf items) idx file))) := by
  obtain ⟨reader, hreader, H⟩ := readerAt_setup hlead hne hwidth C file
  obtain ⟨cnt, hcnt, hcounts⟩ :=
    LruProfile.getLruHitCnt_ok splayTree size (traceIds (fieldsOf items) idx file)
  have htotal : (traceIds (fieldsOf items) idx file).length = reader.nTotalReq := by
    rw [H.total, traceIds, List.length_map, List.length_range]
  refine ⟨reader, cnt.map (reader.nTotalReq - ·), hreader, ?_, fun ts s hrun hmain i x hx => ?_⟩
  · rw [LruProfile.getLruMissCnt, hcnt]
    rfl
  · have S : Setting (lruParams hash hashPower reader nWarmupReq sizes) []
        (traceObjs (fieldsOf items) idx file) (lruCounts nWarmupReq (traceIds (fieldsOf items) idx file)) :=
      setting_lru H C hne hunit hsizes
    obtain ⟨-, ws, Hinv, -⟩ := (Inv.init _ _ _ _ numOfThreads).run S hfits hrun
    refine ⟨⟨lruCounts nWarmupReq (traceIds (fieldsOf items) idx file) x, x⟩, ?_, rfl, rfl, ?_⟩
    · rw [Hinv.result_eq hmain, List.getElem?_map]
      change sizes[i]?.map _ = _
      rw [hx]
      rfl
    · rintro rfl hle
      rw [List.getElem?_map, hcounts x hle, Option.map_some, Option.some.injEq, ← htotal]
      exact missCnt_iff

end

/-! ## Two sizes -/

/-- `QQ`: records of sixteen bytes, for the object id and, as time and size, a number. -/
def unitItems : List FmtItem := [.of [] 'Q' (.refl true), .of [] 'Q' (.refl true)]

def unitParams : TraceField → Int
  | .objId => 1
  | .realTime | .objSize => 2
  | _ => 0

def unitIdx : TraceField → Nat
  | .objId => 0
  | _ => 1

/-- The ids 5, 7, 5 and 7. -/
def fivesSevens : List UInt8 :=
  [5, 7, 5, 7].flatMap fun id => id :: List.replicate 7 0 ++ 1 :: List.replicate 7 0

theorem chosen_unit : Chosen (fieldsOf unitItems) unitParams unitIdx := by
  refine ⟨fun fld hfld => ?_, fun fld hfld => ?_⟩
  · cases fld with
    | objId | realTime | objSize => exact ⟨rfl, 'Q', 8, rfl, by decide⟩
    | op | ttl | extra1 | extra2 => exact absurd hfld (by decide)
  · cases fld with
    | op | ttl | extra1 | extra2 => rfl
    | realTime | objId | objSize => exact absurd hfld (by decide)

def unitReader : BinaryReader :=
  match binaryReaderSetup unitParams (fmtText [] unitItems) fivesSevens with
  | .ok reader => reader
  | .error _ => ⟨[], 0, 0, 0, fun _ => ⟨0, 0, none⟩⟩

/-- LRU caches for one and for two objects. -/
def unitCurve : Params BinaryReader (MemCache MemCache.sameHash) :=
  lruParams MemCache.sameHash 0 unitReader 0 [1, 2]

/-- The second of two threads finishes first. -/
def crossing : List Tid :=
  List.replicate 5 .main ++ .thread 0 :: .thread 0 :: List.replicate 16 (.thread 1) ++
    List.replicate 14 (.thread 0) ++ List.replicate 3 .main

set_option maxRecDepth 100000 in
theorem crossing_profile : ∃ miss s,
    LruProfile.getLruMissCnt splayTree 4 2 [5, 7, 5, 7] = .ok miss ∧
      crossing.foldlM (step unitCurve) (start unitCurve 2) = .ok s ∧ s.main = .returned ∧
      s.shared.result.map (·.missCnt) = [4, 2] ∧ miss[1]? = some 4 ∧ miss[2]? ≠ some 2 := by
  obtain ⟨s, hrun, hs⟩ := exists_ok_of_any
    (x := crossing.foldlM (step unitCurve) (start unitCurve 2))
    (q := fun s => s.main == .returned && s.shared.result.map (·.missCnt) == [4, 2]) (by decide +kernel)
  rw [Bool.and_eq_true, beq_iff_eq, beq_iff_eq] at hs
  obtain ⟨hmain, hmisses⟩ := hs
  obtain ⟨reader, miss, hreader, hmiss, h⟩ := lruCurve_profile [] (by simp) (by decide) (by decide)
    chosen_unit fivesSevens (by decide) MemCache.sameHash 0 0 [1, 2] (by decide) (by decide) 2 2
  have hsetup : binaryReaderSetup unitParams (fmtText [] unitItems) fivesSevens = .ok unitReader := rfl
  cases hsetup.symm.trans hreader
  have hids : traceIds (fieldsOf unitItems) unitIdx fivesSevens = [5, 7, 5, 7] := by decide
  rw [hids] at hmiss h
  obtain ⟨r₁, hr₁, -, -, hone⟩ := h crossing s hrun hmain 0 1 rfl
  obtain ⟨r₂, hr₂, -, -, htwo⟩ := h crossing s hrun hmain 1 2 rfl
  have hcounts : [some r₁.missCnt, some r₂.missCnt] = [some 4, some 2] := by
    have hget : ∀ i : Nat, (s.shared.result.map (·.missCnt))[i]? = [4, 2][i]? := fun i => by rw [hmisses]
    have h₀ := hget 0
    have h₁ := hget 1
    rw [List.getElem?_map, hr₁] at h₀
    rw [List.getElem?_map, hr₂] at h₁
    exact congrArg₂ (fun a b => [a, b]) h₀ h₁
  obtain ⟨hr₁', hr₂'⟩ := List.cons.inj hcounts
  refine ⟨miss, s, hmiss, hrun, hmain, hmisses, ?_, ?_⟩
  · rw [← hr₁']
    exact (hone rfl (by decide)).mpr (by decide)
  · rw [← (List.cons.inj hr₂').1]
    exact mt (htwo rfl (by decide)).mp (by decide)

end MissRatioCurve

end C2DN.Simulator
