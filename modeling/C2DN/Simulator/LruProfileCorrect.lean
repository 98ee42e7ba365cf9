import C2DN.Simulator.CacheRuns
import C2DN.Simulator.LruProfile
import C2DN.Simulator.SplayTreeCorrect

/-!
# The profile and the caches

The counts of `_get_lru_hit_cnt` beside the hits of `LRU_get` on a cache in memory. The list of an LRU
cache for `x` objects of size 1 is the top of the LRU stack. The profiler takes all distances from this
stack but one: the second request for the object of the first request counts as a first one, as the
timestamp 0 of the first request is the null pointer.
-/

namespace C2DN.Simulator

namespace MemCache
variable {hash : Nat → Nat}

/-- The hits of a run of `cache_get`. -/
def countHits (s : MemCache hash) : List (ObjRequest hash) → Except MemFault Nat
  | [] => .ok 0
  | req :: reqs => (s.get req).bind fun (s, hit) => (s.countHits reqs).map (hit.toNat + ·)

/-- The request for an object of size 1. -/
def unitReq (req : ObjRequest hash) : ObjRequest hash := { req with objSize := 1 }

section
variable {s s' : MemCache hash} {l : List Addr} {c : Cache} {req : ObjRequest hash}

/-- The ids on the list, the one that is evicted last first. -/
def stack (s : MemCache hash) : List Nat := (s.objs.map CacheObj.objId).reverse

/-- All objects have size 1. -/
def Unit (s : MemCache hash) : Prop := ∀ o ∈ s.objs, o.objSize = 1

theorem total_unit {objs : List CacheObj} (h : ∀ o ∈ objs, o.objSize = 1) :
    Cache.total objs = objs.length := by
  induction objs with
  | nil => rfl
  | cons o objs ih =>
    have hrest := ih fun o' ho' => h o' (List.mem_cons_of_mem _ ho')
    rw [Cache.total, List.map_cons, List.sum_cons, h o List.mem_cons_self]
    rw [Cache.total] at hrest
    rw [hrest, List.length_cons]
    omega

theorem touch_unit (h : s.Unit) (req : ObjRequest hash) : ∀ o ∈ touch s.objs (unitReq req), o.objSize = 1 := by
  intro o ho
  rcases List.mem_append.mp ho with ho | ho
  · exact h o (List.mem_of_mem_filter ho)
  · rw [List.mem_singleton.mp ho]
    rfl

theorem stack_touch (h : s.stack.Nodup) :
    ((touch s.objs (unitReq req)).map CacheObj.objId).reverse = LruStack.touch s.stack req.objId := by
  have hids : (touch s.objs (unitReq req)).map CacheObj.objId =
      (s.objs.map CacheObj.objId).filter (· != req.objId) ++ [req.objId] := by
    rw [touch, List.map_append, List.filter_map]
    rfl
  rw [hids, List.reverse_append, LruStack.touch, h.erase_eq_filter, stack, List.filter_reverse]
  rfl

/-- With objects of size 1 a request leaves the top of the stack. -/
theorem LruGet.unit {hit : Bool} (h : s.LruGet (unitReq req) hit s') (hunit : s.Unit)
    (hnodup : s.stack.Nodup) (hcap : s'.cacheSize = s.cacheSize) :
    s'.Unit ∧ s'.stack = (LruStack.touch s.stack req.objId).take s.cacheSize := by
  obtain ⟨d, -, hobjs, hmin⟩ := h.evicted
  have hsizes := touch_unit hunit req
  have hdrop : ∀ j, Cache.total ((touch s.objs (unitReq req)).drop j) =
      (touch s.objs (unitReq req)).length - j := by
    intro j
    rw [total_unit fun o ho => hsizes o (List.mem_of_mem_drop ho), List.length_drop]
  have hfits : (touch s.objs (unitReq req)).length - d ≤ s.cacheSize := by
    have hle := h.sound.fits
    rw [h.sound.occupiedSize, hobjs, hdrop, hcap] at hle
    exact hle
  have hlen : (touch s.objs (unitReq req)).length = (LruStack.touch s.stack req.objId).length := by
    rw [← stack_touch hnodup, List.length_reverse, List.length_map]
  refine ⟨fun o ho => hsizes o (List.mem_of_mem_drop (hobjs ▸ ho)), ?_⟩
  rw [stack, hobjs, List.map_drop, List.reverse_drop, stack_touch hnodup, List.length_map]
  rcases Nat.eq_zero_or_pos d with rfl | hd
  · rw [Nat.sub_zero, hlen, List.take_length, List.take_of_length_le (by omega)]
  · have hlast := hmin (d - 1) (by omega)
    rw [hdrop] at hlast
    congr 1
    omega

theorem LruGet.hit_eq {hit : Bool} (h : s.LruGet (unitReq req) hit s') :
    hit.toNat = if req.objId ∈ s.stack then 1 else 0 := by
  have hmem : req.objId ∈ s.stack ↔ hit = true := by
    rw [h.hit_iff, stack, List.mem_reverse, List.mem_map]
    rfl
  cases hit with
  | true => exact (if_pos (hmem.mpr rfl)).symm
  | false => exact (if_neg fun hin => nomatch hmem.mp hin).symm

theorem Inv.nodup_stack (h : s.Inv l c) : s.stack.Nodup := by
  rw [stack, List.nodup_reverse, h.objs_eq]
  exact c.nodup

/-- The hits of an LRU cache with objects of size 1. -/
theorem countHits_ok (h : s.Inv l c) (halg : c.alg = .lru) (hpos : 1 ≤ c.cacheSize) (hunit : s.Unit)
    (reqs : List (ObjRequest hash)) : s.countHits (reqs.map unitReq) =
      .ok (LruStack.hits c.cacheSize s.stack (reqs.map ObjRequest.objId)) := by
  induction reqs generalizing s l c with
  | nil => rfl
  | cons req reqs ih =>
    have hfits : Fits c.cacheSize (unitReq req) := ⟨Nat.le_refl 1, hpos, Nat.one_lt_two_pow (by decide)⟩
    obtain ⟨s', l', c', hit, hget, hlru, hinv, halg', hcap⟩ := get_lru h halg hfits
    have hsize : s'.cacheSize = s.cacheSize := by rw [hinv.cacheSize, hcap, h.cacheSize]
    obtain ⟨hunit', hstack⟩ := hlru.unit hunit h.nodup_stack hsize
    rw [List.map_cons, countHits, hget]
    dsimp only [Except.bind]
    rw [ih hinv (halg'.trans halg) (hcap ▸ hpos) hunit', List.map_cons, LruStack.hits, hlru.hit_eq,
      hstack, hcap, h.cacheSize]
    rfl

end

end MemCache

namespace LruProfile

/-- The distances that the profiler takes for a trace from its start. -/
def distsOf : List Nat → List (Option Nat)
  | [] => []
  | a :: trace => none :: profDists (some a) [a] trace

section
variable {T : CountedSet Int}

/-- The counts are those of the distances within every size. -/
theorem getLruHitCnt_ok (T : CountedSet Int) (size : Nat) (trace : List Nat) :
    ∃ cnt, getLruHitCnt T size trace = .ok cnt ∧
      ∀ x ≤ size, cnt[x]? = some ((distsOf trace).countP (LruStack.within x)) := by
  obtain ⟨tree, table, ts, hrun⟩ : ∃ tree table ts, trace.foldlM (step T size) (start T size) =
      .ok ⟨tree, table, ts, (distsOf trace).foldl (record size) (List.replicate (size + 1) 0)⟩ := by
    cases trace with
    | nil => exact ⟨_, _, _, rfl⟩
    | cons a trace =>
      obtain ⟨tree, table, hfirst, H⟩ := first_ok (T := T) size a
      rw [foldlM_cons_ok hfirst]
      exact run_ok H Nat.one_pos List.length_replicate
  have hlen : ((distsOf trace).foldl (record size) (List.replicate (size + 1) 0)).length = size + 1 :=
    (length_foldl_record _).trans List.length_replicate
  obtain ⟨cnt, hcnt, -, hsums, -⟩ := addPrev_ok (k := size) (by rw [hlen]; exact Nat.lt_succ_self _)
  refine ⟨cnt, ?_, fun x hx => ?_⟩
  · rw [getLruHitCnt, hrun]
    exact hcnt
  · have hzero : ((List.replicate (size + 1) 0).take (x + 1)).sum = 0 :=
      List.sum_eq_zero_iff_forall_eq_nat.mpr fun y hy => List.eq_of_mem_replicate (List.mem_of_mem_take hy)
    rw [hsums x hx, sum_take_foldl_record List.length_replicate hx, hzero, Nat.zero_add]

end

/-! ## The one distance that is missed -/

section
variable {x a : Nat} {s trace mid post : List Nat}

theorem profDists_none : profDists none s trace = LruStack.dists s trace := by
  induction trace generalizing s with
  | nil => rfl
  | cons b trace ih =>
    have hne : none ≠ some b := (Option.some_ne_none b).symm
    rw [profDists, LruStack.dists, profDist, leaveZero, if_neg hne, if_neg hne, ih]

theorem profDists_append (h : a ∉ mid) (s trace : List Nat) : profDists (some a) s (mid ++ trace) =
    LruStack.dists s mid ++ profDists (some a) (mid.foldl LruStack.touch s) trace := by
  induction mid generalizing s with
  | nil => rfl
  | cons b mid ih =>
    rw [List.mem_cons, not_or] at h
    have hne : some a ≠ some b := fun heq => h.1 (Option.some.inj heq)
    rw [List.cons_append, profDists, LruStack.dists, profDist, leaveZero, if_neg hne, if_neg hne,
      ih h.2]
    rfl

/-- The objects that are requested before the object of the first request is requested again are at
least `x`. -/
def LeavesFirst (x : Nat) : List Nat → Prop
  | [] => True
  | a :: trace => a ∈ trace → x ≤ (trace.takeWhile (· != a)).dedup.length

instance : Decidable (LeavesFirst x trace) :=
  match trace with
  | [] => isTrue trivial
  | _ :: _ => inferInstanceAs (Decidable (_ → _))

/-- The counts agree unless the missed distance is within the size. -/
theorem countP_distsOf_iff :
    (distsOf trace).countP (LruStack.within x) = (LruStack.dists [] trace).countP (LruStack.within x) ↔
      LeavesFirst x trace := by
  cases trace with
  | nil => exact iff_of_true rfl trivial
  | cons a trace =>
    have hfirst : LruStack.dists [] (a :: trace) = none :: LruStack.dists [a] trace := rfl
    rw [hfirst, distsOf, LeavesFirst]
    by_cases hmem : a ∈ trace
    · obtain ⟨mid, post, rfl, hnot⟩ := List.eq_append_cons_of_mem hmem
      have htake : (mid ++ a :: post).takeWhile (· != a) = mid := by
        rw [List.takeWhile_append_of_pos fun b hb => by simpa using ne_of_mem_of_not_mem hb hnot,
          List.takeWhile_cons_of_neg (by simp), List.append_nil]
      have hwithin : LruStack.within x (some mid.dedup.length) = true ↔ mid.dedup.length < x := by
        simp [LruStack.within]
      have hmissed : profDists (some a) (mid.foldl LruStack.touch [a]) (a :: post) =
          none :: LruStack.dists (LruStack.touch (mid.foldl LruStack.touch [a]) a) post := by
        rw [profDists, profDist, leaveZero, if_pos rfl, if_pos rfl, profDists_none]
      rw [profDists_append hnot [a], hmissed, LruStack.dists_append, LruStack.dists,
        LruStack.dist_bottom hnot, htake, imp_iff_right hmem]
      simp only [List.countP_cons, List.countP_append, hwithin]
      have hnone : (if LruStack.within x none = true then 1 else 0) = 0 := rfl
      rw [hnone]
      by_cases hlt : mid.dedup.length < x
      · rw [if_pos hlt]
        exact iff_of_false (by omega) (by omega)
      · rw [if_neg hlt]
        exact iff_of_true rfl (by omega)
    · have hall := profDists_append hmem [a] []
      rw [List.append_nil, profDists, List.append_nil] at hall
      rw [hall]
      exact iff_of_true rfl fun h => absurd h hmem

end

/-! ## All sizes at once -/

section
variable {hash : Nat → Nat}

/-- At size `x` the profile of a trace has the hits of an LRU cache for `x` objects, and its entry 0
is 0. -/
def Profiles (T : CountedSet Int) (size x hashPower : Nat) (trace : List (ObjRequest hash)) : Prop :=
  ∃ cnt hits, getLruHitCnt T size (trace.map ObjRequest.objId) = .ok cnt ∧
    (MemCache.init .lru x hashPower).countHits (trace.map MemCache.unitReq) = .ok hits ∧
    cnt[0]? = some 0 ∧ cnt[x]? = some hits

/-- **Stack distances.** The profile has the hits of an LRU cache exactly if the object of the first
request is not requested again while it is still in the cache. -/
theorem getLruHitCnt_iff (T : CountedSet Int) {size x : Nat} (hx : 1 ≤ x) (hsize : x ≤ size)
    (hashPower : Nat) (trace : List (ObjRequest hash)) :
    Profiles T size x hashPower trace ↔ LeavesFirst x (trace.map ObjRequest.objId) := by
  obtain ⟨cnt, hcnt, hcounts⟩ := getLruHitCnt_ok T size (trace.map ObjRequest.objId)
  have hhits : (MemCache.init .lru x hashPower : MemCache hash).countHits (trace.map MemCache.unitReq) =
      .ok ((LruStack.dists [] (trace.map ObjRequest.objId)).countP (LruStack.within x)) := by
    rw [← LruStack.hits_eq, List.take_nil]
    exact MemCache.countHits_ok MemCache.init_inv rfl hx nofun trace
  have hzero : cnt[0]? = some 0 := by
    rw [hcounts 0 (Nat.zero_le _), Option.some.injEq, List.countP_eq_zero]
    intro d _
    cases d <;> simp [LruStack.within]
  rw [← countP_distsOf_iff]
  constructor
  · rintro ⟨cnt', hits, hcnt', hhits', -, heq⟩
    obtain rfl : cnt = cnt' := Except.ok.inj (hcnt.symm.trans hcnt')
    obtain rfl := Except.ok.inj (hhits.symm.trans hhits')
    exact Option.some.inj ((hcounts x hsize).symm.trans heq)
  · intro heq
    exact ⟨cnt, _, hcnt, hhits, hzero, (hcounts x hsize).trans (congrArg some heq)⟩

open MemCache (sizedReq)

/-- A cache for two objects has lost the first one when it is requested again. -/
theorem threeObjects_profiles :
    Profiles splayTree 3 2 0 [sizedReq 1 7, sizedReq 2 7, sizedReq 3 7, sizedReq 2 7, sizedReq 1 7] ∧
      getLruHitCnt splayTree 3 [1, 2, 3, 2, 1] = .ok [0, 0, 1, 1] :=
  ⟨(getLruHitCnt_iff splayTree (by decide) (by decide) 0 _).mpr (by decide), rfl⟩

/-- The second of two requests for one object is taken for a first request. -/
theorem sameObject_not_profiles : ¬ Profiles splayTree 1 1 0 [sizedReq 7 1, sizedReq 7 1] := by
  rintro ⟨cnt, hits, hcnt, hhits, -, heq⟩
  have hprofile : getLruHitCnt splayTree 1 [7, 7] = .ok [0, 0] := rfl
  have hcache : (MemCache.init .lru 1 0).countHits
      ([sizedReq 7 1, sizedReq 7 1].map MemCache.unitReq) = .ok 1 := rfl
  obtain rfl := Except.ok.inj (hprofile.symm.trans hcnt)
  obtain rfl := Except.ok.inj (hcache.symm.trans hhits)
  exact nomatch heq

end

end LruProfile

end C2DN.Simulator
