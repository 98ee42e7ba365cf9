import C2DN.Lib.Firsts
import C2DN.LoadBalancer.HashRing

/-!
# Minimal disruption

If no two virtual nodes have the same point, then the points of a ring from which hosts have been
removed are those of the full ring without the points of these hosts, in the same order from every
key on. So `GetNodes` returns the hosts of the full ring without the removed ones.
-/

namespace C2DN.LoadBalancer.HashRing

section
variable {keys : List Nat} {key : Nat}

/-- The points behind a key, and then those from the start of the ring on. -/
def around (keys : List Nat) (key : Nat) : List Nat :=
  keys.filter (fun k => key < k) ++ keys.filter fun k => k ≤ key

theorem around_filter (q : Nat → Bool) : around (keys.filter q) key = (around keys key).filter q := by
  simp only [around, List.filter_append, List.filter_filter, Bool.and_comm]

theorem mem_around {k : Nat} : k ∈ around keys key ↔ k ∈ keys := by
  rw [around, List.mem_append, List.mem_filter, List.mem_filter, ← and_or_left]
  refine and_iff_left_of_imp fun _ => ?_
  rw [decide_eq_true_iff, decide_eq_true_iff]
  exact Nat.lt_or_ge key k

/-- `sort.Search` splits the points at the key. -/
theorem split_findIdx (key : Nat) (hs : keys.Pairwise (· ≤ ·)) :
    keys.drop (keys.findIdx fun k => key < k) = keys.filter (fun k => key < k) ∧
      keys.take (keys.findIdx fun k => key < k) = keys.filter fun k => k ≤ key := by
  induction keys with
  | nil => exact ⟨rfl, rfl⟩
  | cons a keys ih =>
    obtain ⟨ha, hs⟩ := List.pairwise_cons.mp hs
    rw [List.findIdx_cons]
    by_cases hlt : key < a
    · -- all points are behind the key
      have hall : ∀ k ∈ a :: keys, key < k := by
        intro k hk
        rcases List.mem_cons.mp hk with rfl | hk
        · exact hlt
        · exact Nat.lt_of_lt_of_le hlt (ha k hk)
      rw [decide_eq_true hlt, cond_true, List.drop_zero, List.take_zero]
      constructor
      · exact (List.filter_eq_self.mpr fun k hk => decide_eq_true (hall k hk)).symm
      · refine (List.filter_eq_nil_iff.mpr fun k hk => ?_).symm
        rw [decide_eq_true_iff]
        exact Nat.not_le.mpr (hall k hk)
    · obtain ⟨hdrop, htake⟩ := ih hs
      rw [decide_eq_false hlt, cond_false, List.drop_succ_cons, List.take_succ_cons, hdrop, htake,
        List.filter_cons_of_neg (by simpa using hlt),
        List.filter_cons_of_pos (by simpa using hlt)]
      exact ⟨rfl, rfl⟩

/-- The order in which `GetNodes` reads the points. -/
theorem rotate_eq (hs : keys.Pairwise (· ≤ ·)) {pos : Nat}
    (hpos : pos = if (keys.findIdx fun k => key < k) = keys.length then 0
      else keys.findIdx fun k => key < k) :
    keys.drop pos ++ keys.take pos = around keys key := by
  obtain ⟨hdrop, htake⟩ := split_findIdx key hs
  rw [around, ← hdrop, ← htake, hpos]
  split
  · next hend => rw [hend]; simp
  · rfl

end

section
variable {α : Type} [DecidableEq α] [HostName α] {digest : List Nat → List Nat} {nodes : List α}

omit [HostName α] in
/-- The hosts after one more point. -/
theorem next_eq {seen : List α} {x : α} :
    (if x ∈ firsts seen then firsts seen else firsts seen ++ [x]) = firsts (seen ++ [x]) := by
  rw [firsts_concat]
  simp only [mem_firsts]

/-- The loop of `GetNodes` collects the first hosts that it meets. -/
theorem collect_eq (ring : Nat → Option α) {size : Nat} (keys : List Nat) (seen : List α)
    (hlt : (firsts seen).length < size) :
    collect ring size keys (firsts seen) =
      (firsts (seen ++ keys.map fun k => (ring k).getD default)).take size := by
  induction keys generalizing seen with
  | nil => rw [collect, List.map_nil, List.append_nil, List.take_of_length_le (Nat.le_of_lt hlt)]
  | cons k keys ih =>
    have hle : (firsts (seen ++ [(ring k).getD default])).length ≤ size := by
      rw [firsts_concat]
      split
      · exact Nat.le_of_lt hlt
      · rw [List.length_append]
        exact hlt
    rw [collect, next_eq, List.map_cons, List.append_cons seen ((ring k).getD default)
      (keys.map fun k => (ring k).getD default)]
    split
    · next hfull =>
      obtain ⟨t, ht⟩ := firsts_append (seen ++ [(ring k).getD default])
        (keys.map fun k => (ring k).getD default)
      rw [ht, List.take_left' hfull]
    · next hmore => exact ih _ (Nat.lt_of_le_of_ne hle hmore)

theorem collect_zero (ring : Nat → Option α) (keys : List Nat) (seen : List α) :
    collect ring 0 keys (firsts seen) =
      firsts (seen ++ keys.map fun k => (ring k).getD default) := by
  induction keys generalizing seen with
  | nil => rw [collect, List.map_nil, List.append_nil]
  | cons k keys ih =>
    have hne : (firsts (seen ++ [(ring k).getD default])).length ≠ 0 := fun hlen =>
      List.ne_nil_of_mem (mem_firsts.mpr (List.mem_append_right _ List.mem_cons_self))
        (List.length_eq_zero_iff.mp hlen)
    rw [collect, next_eq, if_neg hne, ih, List.append_assoc]
    rfl

/-! ## Rings with fewer hosts -/

/-- No two virtual nodes have the same point. -/
def Distinct (digest : List Nat → List Nat) (nodes : List α) : Prop :=
  ((points digest nodes).map Prod.fst).Nodup

/-- The host of a point. -/
def owner (digest : List Nat → List Nat) (nodes : List α) (k : Nat) : α :=
  ((newRing digest nodes).ring k).getD default

/-- The hosts in the order in which they are met from a key on. -/
def hostsFrom (digest : List Nat → List Nat) (nodes : List α) (stringKey : List Nat) : List α :=
  firsts ((around (newRing digest nodes).sortedKeys (hashVal (digest stringKey))).map
    (owner digest nodes))

omit [DecidableEq α] in
theorem points_filter (q : α → Bool) :
    points digest (nodes.filter q) = (points digest nodes).filter fun p => q p.2 := by
  have hnode : ∀ node : α, (nodePoints digest 40 node).filter (fun p => q p.2) =
      if q node = true then nodePoints digest 40 node else [] := by
    intro node
    have hsnd : ∀ p ∈ nodePoints digest 40 node, p.2 = node := by
      intro p hp
      obtain ⟨j, -, hp⟩ := List.mem_flatMap.mp hp
      obtain ⟨k, -, rfl⟩ := List.mem_map.mp hp
      rfl
    split
    · next hq => exact List.filter_eq_self.mpr fun p hp => by rw [hsnd p hp]; exact hq
    · next hq => exact List.filter_eq_nil_iff.mpr fun p hp => by rw [hsnd p hp]; exact hq
  unfold points
  rw [List.filter_flatMap, List.flatMap_congr fun node _ => hnode node]
  induction nodes with
  | nil => rfl
  | cons node nodes ih =>
    rw [List.filter_cons, List.flatMap_cons, ← ih]
    split
    · rw [List.flatMap_cons]
    · rfl

omit [DecidableEq α] in
theorem Distinct.filter (hd : Distinct digest nodes) (q : α → Bool) :
    Distinct digest (nodes.filter q) := by
  rw [Distinct, points_filter]
  exact hd.sublist (List.filter_sublist.map _)

theorem owner_eq (hd : Distinct digest nodes) {p : Nat × α} (hp : p ∈ points digest nodes) :
    owner digest nodes p.1 = p.2 := by
  have hkey : p.1 ∈ (newRing digest nodes).sortedKeys := by
    rw [newRing_eq, List.mem_insertionSort]
    exact List.mem_map_of_mem hp
  obtain ⟨v, -, hring, hv⟩ := ring_mem hkey
  rw [owner, hring, Option.getD_some]
  exact congrArg Prod.snd (List.inj_on_of_nodup_map hd hv hp rfl)

theorem sortedKeys_filter (hd : Distinct digest nodes) (q : α → Bool) :
    (newRing digest (nodes.filter q)).sortedKeys =
      (newRing digest nodes).sortedKeys.filter fun k => q (owner digest nodes k) := by
  have hkeys : (points digest (nodes.filter q)).map Prod.fst =
      ((points digest nodes).map Prod.fst).filter fun k => q (owner digest nodes k) := by
    rw [points_filter, List.filter_map]
    refine congrArg _ (List.filter_congr fun p hp => ?_)
    rw [Function.comp_apply, owner_eq hd hp]
  rw [newRing_eq, newRing_eq]
  dsimp only
  rw [hkeys]
  refine List.Perm.eq_of_pairwise' (List.pairwise_insertionSort _ _)
    ((List.pairwise_insertionSort _ _).filter _) ?_
  exact (List.perm_insertionSort _ _).trans ((List.perm_insertionSort _ _).filter _).symm

/-- **Removing hosts** leaves the order of the others as it is. -/
theorem hostsFrom_filter (hd : Distinct digest nodes) (q : α → Bool) (stringKey : List Nat) :
    hostsFrom digest (nodes.filter q) stringKey =
      (hostsFrom digest nodes stringKey).filter q := by
  have howner : ∀ k ∈ around (newRing digest (nodes.filter q)).sortedKeys
      (hashVal (digest stringKey)), owner digest (nodes.filter q) k = owner digest nodes k := by
    intro k hk
    obtain ⟨v, hv, hring, hmem⟩ := ring_mem (mem_around.mp hk)
    rw [owner_eq (hd.filter q) hmem]
    rw [points_filter] at hmem
    exact (owner_eq hd (List.mem_filter.mp hmem).1).symm
  rw [hostsFrom, List.map_congr_left howner, sortedKeys_filter hd, around_filter, hostsFrom,
    ← firsts_filter, List.filter_map]
  rfl

theorem mem_hostsFrom (hd : Distinct digest nodes) {stringKey : List Nat} {x : α} :
    x ∈ hostsFrom digest nodes stringKey ↔ x ∈ nodes := by
  rw [hostsFrom, mem_firsts, List.mem_map]
  constructor
  · rintro ⟨k, hk, rfl⟩
    obtain ⟨v, hv, hring, -⟩ := ring_mem (mem_around.mp hk)
    rw [owner, hring, Option.getD_some]
    exact hv
  · intro hx
    have hp : (hashVal (digest (HostName.name x ++ 45 :: itoa 0)), x) ∈ points digest nodes :=
      mem_points.mpr ⟨hx, 0, by decide, List.mem_cons_self⟩
    refine ⟨_, mem_around.mpr ?_, owner_eq hd hp⟩
    rw [newRing_eq, List.mem_insertionSort]
    exact List.mem_map_of_mem hp

theorem length_hostsFrom (hd : Distinct digest nodes) (hnodup : nodes.Nodup)
    (stringKey : List Nat) : (hostsFrom digest nodes stringKey).length = nodes.length :=
  ((List.perm_ext_iff_of_nodup nodup_firsts hnodup).mpr fun _ => mem_hostsFrom hd).length_eq

/-- `GetNodes` before its loop. -/
theorem getNodes_collect (hd : Distinct digest nodes) (hnodup : nodes.Nodup) {stringKey : List Nat}
    {n : Nat} (h0 : 0 < nodes.length) (hn : n ≤ nodes.length) :
    (newRing digest nodes).getNodes digest stringKey n =
      let result := collect (newRing digest nodes).ring n
        (around (newRing digest nodes).sortedKeys (hashVal (digest stringKey))) (firsts [])
      .ok (result, decide (result.length = n)) := by
  have hne : (newRing digest nodes).sortedKeys ≠ [] := by
    intro hnil
    have hlen := length_hostsFrom hd hnodup stringKey
    rw [hostsFrom, hnil] at hlen
    exact Nat.ne_of_lt h0 hlen
  have hsorted : (newRing digest nodes).sortedKeys.Pairwise (· ≤ ·) := by
    rw [newRing_eq]
    exact List.pairwise_insertionSort _ _
  unfold getNodes getNodePos
  rw [if_neg hne]
  dsimp only
  rw [show (newRing digest nodes).nodes = nodes by rw [newRing_eq], if_neg (by omega),
    rotate_eq hsorted rfl]
  rfl

/-- What `GetNodes` returns on a new ring. -/
theorem getNodes_eq (hd : Distinct digest nodes) (hnodup : nodes.Nodup) {stringKey : List Nat}
    {n : Nat} (h0 : 0 < n) (hn : n ≤ nodes.length) :
    (newRing digest nodes).getNodes digest stringKey n =
      .ok ((hostsFrom digest nodes stringKey).take n, true) := by
  have hlen := length_hostsFrom hd hnodup stringKey
  have hcollect : collect (newRing digest nodes).ring n
      (around (newRing digest nodes).sortedKeys (hashVal (digest stringKey))) (firsts []) =
      (hostsFrom digest nodes stringKey).take n :=
    collect_eq (newRing digest nodes).ring _ [] h0
  rw [getNodes_collect hd hnodup (by omega) hn, hcollect]
  dsimp only
  rw [decide_eq_true (by rw [List.length_take]; omega)]

/-- The loop stops at no number of hosts if it is asked for none. -/
theorem getNodes_zero (hd : Distinct digest nodes) (hnodup : nodes.Nodup) {stringKey : List Nat}
    (h0 : 0 < nodes.length) : (newRing digest nodes).getNodes digest stringKey 0 =
      .ok (hostsFrom digest nodes stringKey, false) := by
  have hlen := length_hostsFrom hd hnodup stringKey
  have hcollect : collect (newRing digest nodes).ring 0
      (around (newRing digest nodes).sortedKeys (hashVal (digest stringKey))) (firsts []) =
      hostsFrom digest nodes stringKey :=
    collect_zero (newRing digest nodes).ring _ []
  rw [getNodes_collect hd hnodup h0 (Nat.zero_le _), hcollect]
  dsimp only
  rw [decide_eq_false (by omega)]

/-- **Minimal disruption.** The order in which hosts are removed does not matter, and a key keeps
the hosts that are left. -/
theorem getNodes_removed (hnodup : nodes.Nodup) (hd : Distinct digest nodes) (removed : List α)
    (stringKey : List Nat) {n : Nat} (h0 : 0 < n)
    (hn : n ≤ (nodes.filter fun x => x ∉ removed).length) :
    ∃ full before,
      (newRing digest nodes).getNodes digest stringKey nodes.length = .ok (full, true) ∧
      (newRing digest nodes).getNodes digest stringKey n = .ok (before, true) ∧
      (∀ removed' : List α, (∀ x, x ∈ removed' ↔ x ∈ removed) →
        (removed'.foldl (removeNode digest) (newRing digest nodes)).getNodes digest stringKey n =
          .ok ((full.filter fun x => x ∉ removed).take n, true)) ∧
      ∀ x ∈ before, x ∉ removed → x ∈ (full.filter fun x => x ∉ removed).take n := by
  have hle : (nodes.filter fun x => decide (x ∉ removed)).length ≤ nodes.length :=
    List.length_filter_le _ _
  have hall : (hostsFrom digest nodes stringKey).take nodes.length =
      hostsFrom digest nodes stringKey :=
    List.take_of_length_le (Nat.le_of_eq (length_hostsFrom hd hnodup stringKey))
  refine ⟨hostsFrom digest nodes stringKey, (hostsFrom digest nodes stringKey).take n, ?_,
    getNodes_eq hd hnodup h0 (by omega), fun removed' hmem => ?_, fun x hx hout => ?_⟩
  · rw [getNodes_eq hd hnodup (by omega) (Nat.le_refl _), hall]
  · rw [foldl_removeNode_congr hmem, foldl_removeNode,
      getNodes_eq (hd.filter _) (hnodup.filter _) h0 hn, hostsFrom_filter hd]
  · -- the hosts before `x` are fewer in the smaller ring
    have hsplit : (hostsFrom digest nodes stringKey).filter (fun x => decide (x ∉ removed)) =
        ((hostsFrom digest nodes stringKey).take n).filter (fun x => decide (x ∉ removed)) ++
        ((hostsFrom digest nodes stringKey).drop n).filter fun x => decide (x ∉ removed) := by
      rw [← List.filter_append, List.take_append_drop]
    have hshort : (((hostsFrom digest nodes stringKey).take n).filter
        fun x => decide (x ∉ removed)).length ≤ n :=
      Nat.le_trans (List.length_filter_le _ _) (List.length_take_le _ _)
    rw [hsplit, List.take_append, List.take_of_length_le hshort]
    exact List.mem_append_left _ (List.mem_filter.mpr ⟨hx, decide_eq_true hout⟩)

end

/-- A digest whose points grow with the numbers of the virtual nodes. -/
def tagDigest (s : List Nat) : List Nat :=
  [1, 2, 3].flatMap fun tag =>
    let v := s.foldl (fun v c => 16 * v + c % 16) 0 * 4 + tag
    [v % 256, v / 256 % 256, v / 65536 % 256, 0]

theorem tagDigest_distinct : Distinct tagDigest [0, 10] := by
  have hchain : ((points tagDigest [0, 10]).map Prod.fst).IsChain (· < ·) := by decide +kernel
  exact (List.isChain_iff_pairwise.mp hchain).imp Nat.ne_of_lt

theorem tagDigest_removed : ∃ full before,
    (newRing tagDigest [0, 10]).getNodes tagDigest (itoa 7) 2 = .ok (full, true) ∧
    (newRing tagDigest [0, 10]).getNodes tagDigest (itoa 7) 1 = .ok (before, true) ∧
    (∀ removed' : List Nat, (∀ x, x ∈ removed' ↔ x ∈ [0]) →
      (removed'.foldl (removeNode tagDigest) (newRing tagDigest [0, 10])).getNodes tagDigest
        (itoa 7) 1 = .ok ((full.filter fun x => x ∉ [0]).take 1, true)) ∧
    ∀ x ∈ before, x ∉ [0] → x ∈ (full.filter fun x => x ∉ [0]).take 1 :=
  getNodes_removed (by decide) tagDigest_distinct [0] (itoa 7) (by decide) (by decide)

/-- Asked for no host at all, `GetNodes` returns all of them and reports a failure. -/
theorem tagDigest_getNodes_zero : Distinct tagDigest [0, 10] ∧ ∃ hosts,
    (newRing tagDigest [0, 10]).getNodes tagDigest (itoa 7) 0 = .ok (hosts, false) ∧
    hosts.length = 2 :=
  ⟨tagDigest_distinct, _, getNodes_zero tagDigest_distinct (by decide) (by decide),
    length_hostsFrom tagDigest_distinct (by decide) _⟩

end C2DN.LoadBalancer.HashRing
