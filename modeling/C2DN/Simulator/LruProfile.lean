import Mathlib.Data.List.Pairwise
import Mathlib.Logic.Function.Basic
import C2DN.Lib.CountedSet
import C2DN.Lib.LruStack
import C2DN.Lib.Outcome
import C2DN.Simulator.Cache

/-!
# The profile of an LRU cache

`_get_lru_hit_cnt`: the hit counts of LRU caches of all sizes up to a limit, from the stack distances of
one trace. The hash table has the last timestamp of every id, stored as a pointer, and the tree has
these timestamps, so the distance of a request is the number of timestamps behind the last one of its
id. A timestamp 0 is the null pointer, which also stands for an id that was not requested before. The
tree is any ordered set with counts. Timestamps and counts are natural numbers, as a trace has fewer
than `2 ^ 63` requests.
-/

namespace C2DN.Simulator.LruProfile

/-- `g_hash_table_lookup`: the null pointer for a missing key. GLib's table is taken to be what it is
documented to be, a map from keys to the values that `g_hash_table_insert` gave them last. -/
def lookup (hashTable : Nat → Option Nat) (objId : Nat) : Nat := (hashTable objId).getD 0

/-- `hit_count_array[i] += 1`. -/
def countHit (a : List Nat) (i : Int) : Except Fault (List Nat) :=
  if 0 ≤ i ∧ i < a.length then .ok (a.modify i.toNat (· + 1)) else .error .outOfBounds

/-- `hit_count_array[i] = hit_count_array[i] + hit_count_array[i - 1]`. -/
def addPrev (a : List Nat) (i : Nat) : Except Fault (List Nat) :=
  match a[i]?, a[i - 1]? with
  | some x, some y => .ok (a.set i (x + y))
  | _, _ => .error .outOfBounds

section
variable (T : CountedSet Int)

/-- `get_stack_dist_add_req`: the tree, the hash table and the distance. -/
def getStackDistAddReq (objId : Nat) (splayTree : T.Tree) (hashTable : Nat → Option Nat) (ts : Nat) :
    Except Fault (T.Tree × (Nat → Option Nat) × Int) :=
  let gp := lookup hashTable objId
  let found : Except Fault (T.Tree × Int) :=
    if gp = 0 then .ok (T.insert ts splayTree, -1)
    else
      let newtree := T.splay gp splayTree
      match T.countRight newtree with
      | none => .error .nullPointer
      | some stackDist => .ok (T.insert ts (T.delete gp newtree), stackDist)
  found.map fun (newtree, stackDist) =>
    (newtree, Function.update hashTable objId (some ts), stackDist)

/-- The variables of the loop of `_get_lru_hit_cnt`. -/
structure State where
  splayTree : T.Tree
  hashTable : Nat → Option Nat
  ts : Nat
  hitCountArray : List Nat

def start (size : Nat) : State T := ⟨T.empty, fun _ => none, 0, List.replicate (size + 1) 0⟩

/-- One round. -/
def step (size : Nat) (s : State T) (objId : Nat) : Except Fault (State T) :=
  (getStackDistAddReq T objId s.splayTree s.hashTable s.ts).bind
    fun (splayTree, hashTable, stackDist) =>
      let counted : Except Fault (List Nat) :=
        if stackDist = -1 then .ok s.hitCountArray
        else if stackDist + 1 ≤ size then countHit s.hitCountArray (stackDist + 1)
        else .ok s.hitCountArray
      counted.map fun hitCountArray => ⟨splayTree, hashTable, s.ts + 1, hitCountArray⟩

/-- `_get_lru_hit_cnt`; the reader delivers requests for the ids `trace`. -/
def getLruHitCnt (size : Nat) (trace : List Nat) : Except Fault (List Nat) :=
  (trace.foldlM (step T size) (start T size)).bind fun s =>
    (List.range' 1 size).foldlM addPrev s.hitCountArray

end

/-! ## The histogram -/

/-- A distance, for the histogram. -/
def record (size : Nat) (a : List Nat) : Option Nat → List Nat
  | none => a
  | some d => if d + 1 ≤ size then a.modify (d + 1) (· + 1) else a

section
variable {size : Nat} {a : List Nat}

theorem record_some {d : Nat} :
    record size a (some d) = if d + 1 ≤ size then a.modify (d + 1) (· + 1) else a := rfl

theorem length_record (d : Option Nat) : (record size a d).length = a.length := by
  cases d with
  | none => rfl
  | some d =>
    rw [record_some]
    split
    · exact List.length_modify ..
    · rfl

theorem sum_take_modify {n x : Nat} (h : n < a.length) :
    ((a.modify n (· + 1)).take x).sum = (a.take x).sum + if n < x then 1 else 0 := by
  induction a generalizing n x with
  | nil => simp at h
  | cons b a ih =>
    cases x with
    | zero => rfl
    | succ x =>
      cases n with
      | zero =>
        rw [List.modify_zero_cons, List.take_succ_cons, List.take_succ_cons, List.sum_cons, List.sum_cons,
          if_pos (Nat.succ_pos x)]
        omega
      | succ n =>
        rw [List.modify_succ_cons, List.take_succ_cons, List.take_succ_cons, List.sum_cons, List.sum_cons,
          ih (Nat.lt_of_succ_lt_succ h), Nat.add_assoc]
        simp only [Nat.add_lt_add_iff_right]

/-- Below every limit the histogram has the distances within it. -/
theorem sum_take_record {x : Nat} (ha : a.length = size + 1) (hx : x ≤ size) (d : Option Nat) :
    ((record size a d).take (x + 1)).sum =
      (a.take (x + 1)).sum + if LruStack.within x d = true then 1 else 0 := by
  cases d with
  | none => rfl
  | some d =>
    have hwithin : LruStack.within x (some d) = true ↔ d < x := by simp [LruStack.within]
    rw [record_some]
    by_cases hd : d + 1 ≤ size
    · rw [if_pos hd, sum_take_modify (by omega)]
      simp only [hwithin, Nat.add_lt_add_iff_right]
    · rw [if_neg hd, if_neg (by rw [hwithin]; omega)]
      rfl

theorem sum_take_foldl_record {x : Nat} (ha : a.length = size + 1) (hx : x ≤ size)
    (ds : List (Option Nat)) : ((ds.foldl (record size) a).take (x + 1)).sum =
      (a.take (x + 1)).sum + ds.countP (LruStack.within x) := by
  induction ds generalizing a with
  | nil => rfl
  | cons d ds ih =>
    rw [List.foldl_cons, ih ((length_record d).trans ha), sum_take_record ha hx, List.countP_cons]
    omega

theorem length_foldl_record (ds : List (Option Nat)) :
    (ds.foldl (record size) a).length = a.length := by
  induction ds generalizing a with
  | nil => rfl
  | cons d ds ih => exact ih.trans (length_record d)

/-- The second loop makes sums of the array. -/
theorem addPrev_ok {k : Nat} (hk : k < a.length) : ∃ b, (List.range' 1 k).foldlM addPrev a = .ok b ∧
    b.length = a.length ∧ (∀ x ≤ k, b[x]? = some (a.take (x + 1)).sum) ∧ ∀ x > k, b[x]? = a[x]? := by
  induction k with
  | zero =>
    refine ⟨a, rfl, rfl, fun x hx => ?_, fun x _ => rfl⟩
    obtain rfl : x = 0 := Nat.le_zero.mp hx
    cases a with
    | nil => simp at hk
    | cons y a => simp
  | succ k ih =>
    obtain ⟨b, hb, hlen, hdone, hrest⟩ := ih (by omega)
    have hcur : b[1 + k]? = some (a.get ⟨k + 1, hk⟩) := by
      rw [hrest (1 + k) (by omega), Nat.add_comm]
      exact List.getElem?_eq_getElem hk
    have hprev : b[1 + k - 1]? = some (a.take (k + 1)).sum := by
      rw [Nat.add_sub_cancel_left]
      exact hdone k (Nat.le_refl k)
    have hadd : addPrev b (1 + k) = .ok (b.set (1 + k) (a.get ⟨k + 1, hk⟩ + (a.take (k + 1)).sum)) := by
      rw [addPrev, hcur, hprev]
    refine ⟨b.set (1 + k) (a.get ⟨k + 1, hk⟩ + (a.take (k + 1)).sum), ?_, List.length_set.trans hlen,
      fun x hx => ?_, fun x hx => ?_⟩
    · rw [List.range'_1_concat, foldlM_concat hb]
      exact hadd
    · by_cases hxk : x = k + 1
      · subst hxk
        rw [Nat.add_comm 1 k, List.getElem?_set_self (by omega), List.take_succ_eq_append_getElem hk,
          List.sum_append, List.sum_singleton, Nat.add_comm]
        rfl
      · rw [List.getElem?_set_ne (by omega)]
        exact hdone x (by omega)
    · rw [List.getElem?_set_ne (by omega)]
      exact hrest x (by omega)

end

/-! ## Timestamps and the LRU stack -/

section
variable {T : CountedSet Int}

/-- The timestamps of the ids on the stack `s` decrease downwards. `z` is the id that has the timestamp
0. The tree has all these timestamps, and perhaps a 0 that belongs to no id any more. -/
structure Inv (z : Option Nat) (s : List Nat) (tree : T.Tree) (table : Nat → Option Nat) (ts : Nat) :
    Prop where
  missing : ∀ a, a ∉ s → lookup table a = 0
  later : s.Pairwise fun a b => lookup table b < lookup table a
  before : ∀ a ∈ s, lookup table a < ts
  zero : ∀ a, z = some a ↔ a ∈ s ∧ lookup table a = 0
  keys : ∀ k ∈ T.keys tree, k = 0 ∨ ∃ a ∈ s, k = lookup table a
  mem : ∀ a ∈ s, (lookup table a : Int) ∈ T.keys tree

/-- The distance that the profiler takes for a request. -/
def profDist (z : Option Nat) (s : List Nat) (objId : Nat) : Option Nat :=
  if z = some objId then none else LruStack.dist s objId

/-- The id that has the timestamp 0 after a request. -/
def leaveZero (z : Option Nat) (objId : Nat) : Option Nat := if z = some objId then none else z

variable {z : Option Nat} {s : List Nat} {tree : T.Tree} {table : Nat → Option Nat} {ts objId : Nat}

@[simp] theorem lookup_update_self : lookup (Function.update table objId (some ts)) objId = ts := by
  simp [lookup]

theorem lookup_update_ne {a : Nat} (h : a ≠ objId) :
    lookup (Function.update table objId (some ts)) a = lookup table a := by
  simp [lookup, h]

theorem Inv.nodup (H : Inv z s tree table ts) : s.Nodup := H.later.imp fun hlt heq => by
  rw [heq] at hlt
  exact Nat.lt_irrefl _ hlt

/-- Ids on the stack have different timestamps. -/
theorem Inv.lookup_ne (H : Inv z s tree table ts) {a b : Nat} (ha : a ∈ s) (hb : b ∈ s) (h : a ≠ b) :
    lookup table a ≠ lookup table b := by
  have hsymm : Std.Symm fun a b => lookup table a ≠ lookup table b := ⟨fun _ _ => Ne.symm⟩
  exact (H.later.imp Nat.ne_of_gt).forall ha hb h

/-- A timestamp is 0 if the id was not requested before or only by the first request. -/
theorem Inv.lookup_eq_zero_iff (H : Inv z s tree table ts) :
    lookup table objId = 0 ↔ objId ∉ s ∨ z = some objId := by
  rw [H.zero]
  constructor
  · intro h
    by_cases hmem : objId ∈ s
    · exact .inr ⟨hmem, h⟩
    · exact .inl hmem
  · rintro (h | ⟨-, h⟩)
    · exact H.missing _ h
    · exact h

/-- The later timestamps are those of the ids above. -/
theorem Inv.card_later (H : Inv z s tree table ts) (hmem : objId ∈ s) :
    ((T.keys tree).filter ((lookup table objId : Int) < ·)).card = s.idxOf objId := by
  obtain ⟨above, below, hs, hnot⟩ := List.eq_append_cons_of_mem hmem
  have hlater := H.later
  rw [hs, List.pairwise_append, List.pairwise_cons] at hlater
  obtain ⟨habove, ⟨hbelow, -⟩, hacross⟩ := hlater
  have hfilter : (T.keys tree).filter ((lookup table objId : Int) < ·) =
      (above.map fun a => (lookup table a : Int)).toFinset := by
    ext k
    rw [Finset.mem_filter, List.mem_toFinset, List.mem_map]
    constructor
    · rintro ⟨hk, hlt⟩
      obtain rfl | ⟨a, ha, rfl⟩ := H.keys k hk
      · omega
      · rw [hs, List.mem_append, List.mem_cons] at ha
        obtain ha | rfl | ha := ha
        · exact ⟨a, ha, rfl⟩
        · exact absurd hlt (Int.lt_irrefl _)
        · have := hbelow a ha
          omega
    · rintro ⟨a, ha, rfl⟩
      have hlt := hacross a ha objId List.mem_cons_self
      exact ⟨H.mem a (by rw [hs]; exact List.mem_append_left _ ha), by omega⟩
  have hnodup : (above.map fun a => (lookup table a : Int)).Nodup := by
    rw [List.Nodup, List.pairwise_map]
    exact habove.imp fun hlt heq => by omega
  rw [hfilter, List.toFinset_card_of_nodup hnodup, List.length_map, hs,
    List.idxOf_append_of_notMem hnot, List.idxOf_cons_self, Nat.add_zero]

/-- A request behind the first one. -/
theorem Inv.touch {tree' : T.Tree} (H : Inv z s tree table ts) (hts : 0 < ts)
    (hkeys : ∀ k, k ∈ T.keys tree' ↔
      k = ts ∨ k ∈ T.keys tree ∧ (k ≠ lookup table objId ∨ lookup table objId = 0)) :
    Inv (leaveZero z objId) (LruStack.touch s objId) tree'
      (Function.update table objId (some ts)) (ts + 1) where
  missing a ha := by
    rw [LruStack.mem_touch, not_or] at ha
    rw [lookup_update_ne ha.1]
    exact H.missing a ha.2
  later := by
    have hne : ∀ a ∈ s.erase objId, a ≠ objId := fun a ha => (H.nodup.mem_erase_iff.mp ha).1
    refine List.pairwise_cons.mpr ⟨fun a ha => ?_, ?_⟩
    · rw [lookup_update_self, lookup_update_ne (hne a ha)]
      exact H.before a (List.mem_of_mem_erase ha)
    · refine (H.later.sublist List.erase_sublist).imp_of_mem fun ha hb hlt => ?_
      rw [lookup_update_ne (hne _ ha), lookup_update_ne (hne _ hb)]
      exact hlt
  before a ha := by
    by_cases hself : a = objId
    · rw [hself, lookup_update_self]
      exact Nat.lt_succ_self ts
    · rw [lookup_update_ne hself]
      exact Nat.lt_succ_of_lt (H.before a ((LruStack.mem_touch.mp ha).resolve_left hself))
  zero a := by
    unfold leaveZero
    by_cases hself : a = objId
    · subst hself
      rw [lookup_update_self]
      refine iff_of_false ?_ fun h => by omega
      split
      · nofun
      · next h => exact h
    · rw [lookup_update_ne hself, LruStack.mem_touch, or_iff_right hself, ← H.zero a]
      split
      · next h =>
        rw [h]
        exact iff_of_false nofun fun heq => hself (Option.some.inj heq).symm
      · exact .rfl
  keys k hk := by
    obtain rfl | ⟨hk, hne⟩ := (hkeys k).mp hk
    · exact .inr ⟨objId, LruStack.mem_touch.mpr (.inl rfl), by rw [lookup_update_self]⟩
    · obtain rfl | ⟨a, ha, rfl⟩ := H.keys k hk
      · exact .inl rfl
      · by_cases hself : a = objId
        · subst hself
          obtain hne | hzero := hne
          · exact absurd rfl hne
          · exact .inl (by omega)
        · refine .inr ⟨a, LruStack.mem_touch.mpr (.inr ha), ?_⟩
          rw [lookup_update_ne hself]
  mem a ha := by
    rw [hkeys]
    by_cases hself : a = objId
    · rw [hself, lookup_update_self]
      exact .inl rfl
    · have hmem := (LruStack.mem_touch.mp ha).resolve_left hself
      rw [lookup_update_ne hself]
      refine .inr ⟨H.mem a hmem, ?_⟩
      by_cases hobj : objId ∈ s
      · refine .inl fun heq => H.lookup_ne hmem hobj hself ?_
        omega
      · exact .inr (H.missing objId hobj)

/-- A round behind the first one. -/
theorem step_ok {size : Nat} {a : List Nat} (H : Inv z s tree table ts) (hts : 0 < ts)
    (ha : a.length = size + 1) (objId : Nat) : ∃ tree' table',
      step T size ⟨tree, table, ts, a⟩ objId =
        .ok ⟨tree', table', ts + 1, record size a (profDist z s objId)⟩ ∧
      Inv (leaveZero z objId) (LruStack.touch s objId) tree' table' (ts + 1) := by
  by_cases hzero : lookup table objId = 0
  · -- not seen before
    refine ⟨T.insert ts tree, _, ?_, H.touch hts fun k => ?_⟩
    · have hdist : profDist z s objId = none := by
        rw [profDist, LruStack.dist]
        obtain hnot | hz := H.lookup_eq_zero_iff.mp hzero
        · rw [if_neg hnot, ite_self]
        · rw [if_pos hz]
      rw [step, getStackDistAddReq]
      dsimp only
      rw [if_pos hzero, hdist]
      rfl
    · rw [T.keys_insert, Finset.mem_insert]
      simp [hzero]
  · have hseen := mt H.lookup_eq_zero_iff.mpr hzero
    rw [not_or, not_not] at hseen
    have hdist : profDist z s objId = some (s.idxOf objId) := by
      rw [profDist, if_neg hseen.2, LruStack.dist, if_pos hseen.1]
    have hcount : T.countRight (T.splay (lookup table objId) tree) = some ((s.idxOf objId : Nat) : Int) := by
      rw [T.countRight_splay _ _ (H.mem objId hseen.1), H.card_later hseen.1]
    refine ⟨T.insert ts (T.delete (lookup table objId) (T.splay (lookup table objId) tree)), _, ?_,
      H.touch hts fun k => ?_⟩
    · rw [step, getStackDistAddReq]
      dsimp only
      rw [if_neg hzero, hcount, hdist, record_some]
      dsimp only [Except.map, Except.bind]
      rw [if_neg (by omega)]
      by_cases hsize : s.idxOf objId + 1 ≤ size
      · rw [if_pos (by omega), if_pos hsize, countHit, if_pos (by omega)]
        rfl
      · rw [if_neg (by omega), if_neg hsize]
    · rw [T.keys_insert, T.keys_delete, T.keys_splay, Finset.mem_insert, Finset.mem_erase]
      simp only [hzero, or_false]
      exact or_congr_right And.comm

/-- The distances that the profiler takes for a trace. -/
def profDists (z : Option Nat) (s : List Nat) : List Nat → List (Option Nat)
  | [] => []
  | a :: trace => profDist z s a :: profDists (leaveZero z a) (LruStack.touch s a) trace

theorem run_ok {size : Nat} {a trace : List Nat} (H : Inv z s tree table ts) (hts : 0 < ts)
    (ha : a.length = size + 1) : ∃ tree' table' ts',
      trace.foldlM (step T size) ⟨tree, table, ts, a⟩ =
        .ok ⟨tree', table', ts', (profDists z s trace).foldl (record size) a⟩ := by
  induction trace generalizing z s tree table ts a with
  | nil => exact ⟨tree, table, ts, rfl⟩
  | cons b trace ih =>
    obtain ⟨tree', table', hstep, H'⟩ := step_ok H hts ha b
    rw [foldlM_cons_ok hstep]
    exact ih H' (Nat.succ_pos ts) ((length_record _).trans ha)

/-- The first round. -/
theorem first_ok (size a : Nat) : ∃ tree table,
    step T size (start T size) a = .ok ⟨tree, table, 1, List.replicate (size + 1) 0⟩ ∧
      Inv (some a) [a] tree table 1 := by
  refine ⟨T.insert 0 T.empty, Function.update (fun _ => none) a (some 0), rfl, ?_⟩
  have hself : lookup (Function.update (fun _ => none) a (some 0)) a = 0 := lookup_update_self
  have hkeys : T.keys (T.insert 0 T.empty) = {0} := by
    rw [T.keys_insert, T.keys_empty]
    rfl
  exact
    { missing := fun b hb => by
        rw [lookup_update_ne (by simpa using hb)]
        rfl
      later := List.pairwise_singleton _ _
      before := fun b hb => by
        rw [List.mem_singleton.mp hb, hself]
        exact Nat.one_pos
      zero := fun b => by
        rw [List.mem_singleton, Option.some.injEq]
        refine ⟨fun h => ⟨h.symm, h ▸ hself⟩, fun h => h.1.symm⟩
      keys := fun k hk => by
        rw [hkeys] at hk
        exact .inl (Finset.mem_singleton.mp hk)
      mem := fun b hb => by
        rw [List.mem_singleton.mp hb, hself, hkeys]
        exact Finset.mem_singleton_self 0 }

end

end C2DN.Simulator.LruProfile
