import Mathlib.Data.Finset.Basic
import Mathlib.Data.List.Nodup
import Mathlib.Data.List.Pairwise
import Mathlib.Order.Basic
import C2DN.Lib.CountedSet
import C2DN.Lib.Outcome
import C2DN.Simulator.SplayTree

/-!
# What splay trees implement

The trees that `insert` and `splay_delete` make of the empty one are ordered and have exact counts
(`STree.IsSet`). On such trees no call fails, and they implement an ordered set (`splayTree`).
-/

namespace C2DN.Simulator

namespace STree

/-! ## Ordered trees with exact counts -/

/-- The keys in order. -/
def toList : STree → List Int
  | null => []
  | node l k _ r => l.toList ++ k :: r.toList

/-- Every node has the count of its subtree. -/
def Exact : STree → Prop
  | null => True
  | node l _ v r => l.Exact ∧ r.Exact ∧ v = nodeValue l + nodeValue r + 1

structure IsSet (t : STree) : Prop where
  exact : t.Exact
  sorted : t.toList.Pairwise (· < ·)

section
variable {i k v : Int} {t l r : STree} {p : Paths}

theorem Exact.nodeValue_eq (h : t.Exact) : nodeValue t = t.toList.length := by
  induction t with
  | null => rfl
  | node l k v r ihl ihr =>
    obtain ⟨hl, hr, hv⟩ := h
    rw [toList, List.length_append, List.length_cons, nodeValue, hv, ihl hl, ihr hr]
    omega

theorem sorted_node : (node l k v r).toList.Pairwise (· < ·) ↔
    l.toList.Pairwise (· < ·) ∧ r.toList.Pairwise (· < ·) ∧ (∀ x ∈ l.toList, x < k) ∧
      ∀ x ∈ r.toList, k < x := by
  rw [toList, List.pairwise_append, List.pairwise_cons]
  constructor
  · rintro ⟨hl, ⟨hk, hr⟩, hlr⟩
    exact ⟨hl, hr, fun x hx => hlr x hx k List.mem_cons_self, hk⟩
  · rintro ⟨hl, hr, hlk, hk⟩
    refine ⟨hl, ⟨hk, hr⟩, fun x hx y hy => ?_⟩
    rcases List.mem_cons.mp hy with rfl | hy
    · exact hlk x hx
    · exact Int.lt_trans (hlk x hx) (hk y hy)

theorem isSet_node : (node l k v r).IsSet ↔ l.IsSet ∧ r.IsSet ∧ (∀ x ∈ l.toList, x < k) ∧
    (∀ x ∈ r.toList, k < x) ∧ v = nodeValue l + nodeValue r + 1 := by
  constructor
  · rintro ⟨⟨hl, hr, hv⟩, hsorted⟩
    obtain ⟨hsl, hsr, hlk, hkr⟩ := sorted_node.mp hsorted
    exact ⟨⟨hl, hsl⟩, ⟨hr, hsr⟩, hlk, hkr, hv⟩
  · rintro ⟨hl, hr, hlk, hkr, hv⟩
    exact ⟨⟨hl.exact, hr.exact, hv⟩, sorted_node.mpr ⟨hl.sorted, hr.sorted, hlk, hkr⟩⟩

theorem node_ne_null : node l k v r ≠ null := nofun

/-- The root without the keys before it. -/
theorem IsSet.cutLeft (h : (node l k v r).IsSet) : (node null k (1 + nodeValue r) r).IsSet := by
  obtain ⟨-, hr, -, hkr, -⟩ := isSet_node.mp h
  refine isSet_node.mpr ⟨⟨trivial, .nil⟩, hr, fun x hx => absurd hx List.not_mem_nil, hkr, ?_⟩
  rw [nodeValue, Int.zero_add, Int.add_comm]

/-- The root without the keys behind it. -/
theorem IsSet.cutRight (h : (node l k v r).IsSet) : (node l k (1 + nodeValue l) null).IsSet := by
  obtain ⟨hl, -, hlk, -, -⟩ := isSet_node.mp h
  refine isSet_node.mpr ⟨hl, ⟨trivial, .nil⟩, hlk, fun x hx => absurd hx List.not_mem_nil, ?_⟩
  rw [nodeValue, Int.add_zero, Int.add_comm]

theorem keyCmp_neg {j : Int} : keyCmp i j < 0 ↔ i < j := by
  unfold keyCmp
  omega

theorem keyCmp_pos {j : Int} : 0 < keyCmp i j ↔ j < i := Int.sub_pos

/-- The node that a rotation to the right brings down. -/
theorem IsSet.rotateRight {ll lr : STree} {lk lv : Int} (h : (node (node ll lk lv lr) k v r).IsSet) :
    (node lr k (nodeValue lr + nodeValue r + 1) r).IsSet ∧
      ∀ x ∈ (node lr k (nodeValue lr + nodeValue r + 1) r).toList, lk < x := by
  obtain ⟨hl, hr, hlk, hkr, -⟩ := isSet_node.mp h
  obtain ⟨-, hlr, -, hlklr, -⟩ := isSet_node.mp hl
  have hk : lk < k := hlk lk (by simp [toList])
  refine ⟨isSet_node.mpr ⟨hlr, hr, fun x hx => hlk x (by simp [toList, hx]), hkr, rfl⟩, fun x hx => ?_⟩
  rcases List.mem_append.mp hx with hx | hx
  · exact hlklr x hx
  · obtain rfl | hx := List.mem_cons.mp hx
    · exact hk
    · exact Int.lt_trans hk (hkr x hx)

/-- The node that a rotation to the left brings down. -/
theorem IsSet.rotateLeft {rl rr : STree} {rk rv : Int} (h : (node l k v (node rl rk rv rr)).IsSet) :
    (node l k (nodeValue l + nodeValue rl + 1) rl).IsSet ∧
      ∀ x ∈ (node l k (nodeValue l + nodeValue rl + 1) rl).toList, x < rk := by
  obtain ⟨hl, hr, hlk, hkr, -⟩ := isSet_node.mp h
  obtain ⟨hrl, -, hrlrk, -, -⟩ := isSet_node.mp hr
  have hk : k < rk := hkr rk (by simp [toList])
  refine ⟨isSet_node.mpr ⟨hl, hrl, hlk, fun x hx => hkr x (by simp [toList, hx]), rfl⟩, fun x hx => ?_⟩
  rcases List.mem_append.mp hx with hx | hx
  · exact Int.lt_trans (hlk x hx) hk
  · obtain rfl | hx := List.mem_cons.mp hx
    · exact hk
    · exact hrlrk x hx

/-! ## The loop -/

/-- The keys of the tree on the left. -/
def leftKeys (ys : List LeftNode) : List Int := ys.flatMap fun y => y.left.toList ++ [y.key]

/-- The keys of the tree on the right, whose lowest node is the last one. -/
def rightKeys (ys : List RightNode) : List Int := ys.reverse.flatMap fun y => y.key :: y.right.toList

@[simp] theorem leftKeys_link : leftKeys (p.linkLeft l k v).left = leftKeys p.left ++ (l.toList ++ [k]) := by
  simp [leftKeys, Paths.linkLeft]

@[simp] theorem rightKeys_link :
    rightKeys (p.linkRight k v r).right = k :: r.toList ++ rightKeys p.right := by
  simp [rightKeys, Paths.linkRight]

/-- What has been hung into the two trees so far. -/
structure Paths.Sound (i : Int) (p : Paths) : Prop where
  leftExact : ∀ y ∈ p.left, y.left.Exact
  rightExact : ∀ y ∈ p.right, y.right.Exact
  lSize : p.lSize = (leftKeys p.left).length
  rSize : p.rSize = (rightKeys p.right).length
  below : ∀ x ∈ leftKeys p.left, x < i
  above : ∀ x ∈ rightKeys p.right, i < x

theorem Paths.Sound.linkLeft (h : p.Sound i) (hl : l.Exact) (hk : k < i)
    (hbelow : ∀ x ∈ l.toList, x < k) : (p.linkLeft l k v).Sound i where
  leftExact y hy := by
    rcases List.mem_append.mp hy with hy | hy
    · exact h.leftExact y hy
    · rw [List.mem_singleton.mp hy]
      exact hl
  rightExact := h.rightExact
  lSize := by
    rw [leftKeys_link, Paths.linkLeft, h.lSize, hl.nodeValue_eq]
    simp
    omega
  rSize := h.rSize
  below x hx := by
    rw [leftKeys_link, List.mem_append, List.mem_append, List.mem_singleton] at hx
    obtain hx | hx | rfl := hx
    · exact h.below x hx
    · exact Int.lt_trans (hbelow x hx) hk
    · exact hk
  above := h.above

theorem Paths.Sound.linkRight (h : p.Sound i) (hr : r.Exact) (hk : i < k)
    (habove : ∀ x ∈ r.toList, k < x) : (p.linkRight k v r).Sound i where
  leftExact := h.leftExact
  rightExact y hy := by
    rcases List.mem_append.mp hy with hy | hy
    · exact h.rightExact y hy
    · rw [List.mem_singleton.mp hy]
      exact hr
  lSize := h.lSize
  rSize := by
    rw [rightKeys_link, Paths.linkRight, h.rSize, hr.nodeValue_eq]
    simp
    omega
  below := h.below
  above x hx := by
    rw [rightKeys_link, List.mem_append, List.mem_cons] at hx
    obtain (rfl | hx) | hx := hx
    · exact hk
    · exact Int.lt_trans hk (habove x hx)
    · exact h.above x hx

/-- The loop ends at a node that has the key or whose subtree on the side of the key is empty. The value
of the node may be an old one. -/
structure Reached (i : Int) (keys : List Int) (t : STree) (p : Paths) : Prop where
  sound : p.Sound i
  keys : leftKeys p.left ++ t.toList ++ rightKeys p.right = keys
  root : ∃ l k v r, t = node l k v r ∧ l.Exact ∧ r.Exact ∧ (i < k → l = null) ∧ (k < i → r = null)

/-- The loop hangs the nodes that it leaves where their keys belong. -/
theorem splayLoop_reached (hp : p.Sound i) (hnull : t ≠ null) (ht : t.IsSet) :
    Reached i (leftKeys p.left ++ t.toList ++ rightKeys p.right) (splayLoop i t p).1
      (splayLoop i t p).2 := by
  fun_induction splayLoop i t p with
  | case1 => exact absurd rfl hnull
  | case2 k v r p hlt =>
    obtain ⟨-, hr, -⟩ := isSet_node.mp ht
    refine ⟨hp, rfl, null, k, v, r, rfl, trivial, hr.exact, fun _ => rfl, fun hgt => ?_⟩
    exact absurd (keyCmp_neg.mp hlt) (Int.lt_asymm hgt)
  | case3 k v r p hlt lk lv lr hllt t' =>
    obtain ⟨hrot, -⟩ := ht.rotateRight
    refine ⟨hp, by simp [t', toList], null, lk, lv, t', rfl, trivial, hrot.exact, fun _ => rfl, ?_⟩
    exact fun hgt => absurd (keyCmp_neg.mp hllt) (Int.lt_asymm hgt)
  | case4 k v r p hlt lk lv lr hllt t' a b c d ih =>
    obtain ⟨hrot, habove⟩ := ht.rotateRight
    have hll := (isSet_node.mp (isSet_node.mp ht).1).1
    have hreached := ih (hp.linkRight hrot.exact (keyCmp_neg.mp hllt) habove) node_ne_null hll
    rw [rightKeys_link] at hreached
    simpa [t', toList, Paths.linkRight] using hreached
  | case5 k v r p hlt a b c d hllt ih =>
    obtain ⟨hl, hr, -, hkr, -⟩ := isSet_node.mp ht
    have hreached := ih (hp.linkRight hr.exact (keyCmp_neg.mp hlt) hkr) node_ne_null hl
    rw [rightKeys_link] at hreached
    simpa [toList, Paths.linkRight] using hreached
  | case6 l k v p hnlt hgt =>
    obtain ⟨hl, -, -⟩ := isSet_node.mp ht
    refine ⟨hp, rfl, l, k, v, null, rfl, hl.exact, trivial, fun hlt => ?_, fun _ => rfl⟩
    exact absurd (keyCmp_pos.mp hgt) (Int.lt_asymm hlt)
  | case7 l k v p hnlt hgt rl rk rv hrgt t' =>
    obtain ⟨hrot, -⟩ := ht.rotateLeft
    refine ⟨hp, by simp [t', toList], t', rk, rv, null, rfl, hrot.exact, trivial, ?_, fun _ => rfl⟩
    exact fun hlt => absurd (keyCmp_pos.mp hrgt) (Int.lt_asymm hlt)
  | case8 l k v p hnlt hgt rl rk rv hrgt t' a b c d ih =>
    obtain ⟨hrot, hbelow⟩ := ht.rotateLeft
    have hrr := (isSet_node.mp (isSet_node.mp ht).2.1).2.1
    have hreached := ih (hp.linkLeft hrot.exact (keyCmp_pos.mp hrgt) hbelow) node_ne_null hrr
    rw [leftKeys_link] at hreached
    simpa [t', toList, Paths.linkLeft] using hreached
  | case9 l k v p hnlt hgt a b c d hrgt ih =>
    obtain ⟨hl, hr, hlk, -, -⟩ := isSet_node.mp ht
    have hreached := ih (hp.linkLeft hl.exact (keyCmp_pos.mp hgt) hlk) node_ne_null hr
    rw [leftKeys_link] at hreached
    simpa [toList, Paths.linkLeft] using hreached
  | case10 l k v r p hnlt hngt =>
    obtain ⟨hl, hr, -⟩ := isSet_node.mp ht
    refine ⟨hp, rfl, l, k, v, r, rfl, hl.exact, hr.exact, fun hlt => ?_, fun hgt => ?_⟩
    · exact absurd (keyCmp_neg.mpr hlt) hnlt
    · exact absurd (keyCmp_pos.mpr hgt) hngt

/-! ## Hanging the trees below the root -/

theorem toList_hangLeft {ys : List LeftNode} {n : Int} :
    (hangLeft (correctLeft n ys) t).toList = leftKeys ys ++ t.toList := by
  induction ys generalizing n with
  | nil => rfl
  | cons y ys ih =>
    change y.left.toList ++ y.key :: (hangLeft (correctLeft _ ys) t).toList = _
    rw [ih]
    simp [leftKeys]

theorem toList_hangRight {ys : List RightNode} {n : Int} :
    (hangRight (correctRight n ys) t).toList = t.toList ++ rightKeys ys := by
  induction ys generalizing n with
  | nil => simp [correctRight, hangRight, rightKeys]
  | cons y ys ih =>
    change (hangRight (correctRight _ ys) t).toList ++ y.key :: y.right.toList = _
    rw [ih]
    simp [rightKeys]

theorem exact_hangLeft {ys : List LeftNode} {n : Int} (ht : t.Exact) (hys : ∀ y ∈ ys, y.left.Exact)
    (hn : n = (leftKeys ys ++ t.toList).length) : (hangLeft (correctLeft n ys) t).Exact := by
  induction ys generalizing n with
  | nil => exact ht
  | cons y ys ih =>
    have hy := hys y List.mem_cons_self
    have hlen : n = y.left.toList.length + 1 + (leftKeys ys ++ t.toList).length := by
      rw [hn]
      simp [leftKeys]
      omega
    have hrest : (hangLeft (correctLeft (n - (1 + nodeValue y.left)) ys) t).Exact := by
      refine ih (fun y' hy' => hys y' (List.mem_cons_of_mem _ hy')) ?_
      rw [hy.nodeValue_eq, hlen]
      omega
    refine ⟨hy, hrest, ?_⟩
    change n = nodeValue y.left + nodeValue (hangLeft (correctLeft (n - (1 + nodeValue y.left)) ys) t) + 1
    rw [hrest.nodeValue_eq, toList_hangLeft, hy.nodeValue_eq, hlen]
    omega

theorem exact_hangRight {ys : List RightNode} {n : Int} (ht : t.Exact) (hys : ∀ y ∈ ys, y.right.Exact)
    (hn : n = (t.toList ++ rightKeys ys).length) : (hangRight (correctRight n ys) t).Exact := by
  induction ys generalizing n with
  | nil => exact ht
  | cons y ys ih =>
    have hy := hys y List.mem_cons_self
    have hlen : n = (t.toList ++ rightKeys ys).length + (y.right.toList.length + 1) := by
      rw [hn]
      simp [rightKeys]
      omega
    have hrest : (hangRight (correctRight (n - (1 + nodeValue y.right)) ys) t).Exact := by
      refine ih (fun y' hy' => hys y' (List.mem_cons_of_mem _ hy')) ?_
      rw [hy.nodeValue_eq, hlen]
      omega
    refine ⟨hrest, hy, ?_⟩
    change n =
      nodeValue (hangRight (correctRight (n - (1 + nodeValue y.right)) ys) t) + nodeValue y.right + 1
    rw [hrest.nodeValue_eq, toList_hangRight, hy.nodeValue_eq, hlen]
    omega

/-- After `splay` the root separates the keys before `i` from those behind it. -/
structure Splayed (i : Int) (t : STree) (l : STree) (k v : Int) (r : STree) : Prop where
  eq : splay i t = node l k v r
  toList : (node l k v r).toList = t.toList
  isSet : (node l k v r).IsSet
  before : i < k → ∀ x ∈ l.toList, x < i
  behind : k < i → ∀ x ∈ r.toList, i < x

theorem splay_spec (i : Int) (ht : t.IsSet) (hnull : t ≠ null) : ∃ l k v r, Splayed i t l k v r := by
  have hstart : Paths.Sound i ⟨[], [], 0, 0⟩ := ⟨nofun, nofun, rfl, rfl, nofun, nofun⟩
  obtain ⟨hp, hkeys, l, k, v, r, hroot, hl, hr, hlnull, hrnull⟩ := splayLoop_reached hstart hnull ht
  generalize hloop : splayLoop i t ⟨[], [], 0, 0⟩ = result at hp hkeys hroot
  obtain ⟨t', p⟩ := result
  dsimp only at hp hkeys hroot
  subst hroot
  have hkeys' : leftKeys p.left ++ (node l k v r).toList ++ rightKeys p.right = t.toList := by
    rw [hkeys]
    exact List.append_nil _
  have hlist : (node (hangLeft (correctLeft (p.lSize + nodeValue l) p.left) l) k
      (p.lSize + nodeValue l + (p.rSize + nodeValue r) + 1)
      (hangRight (correctRight (p.rSize + nodeValue r) p.right) r)).toList = t.toList := by
    rw [← hkeys', STree.toList, STree.toList, toList_hangLeft, toList_hangRight]
    simp
  have hlSize : p.lSize + nodeValue l = (leftKeys p.left ++ l.toList).length := by
    rw [hp.lSize, hl.nodeValue_eq, List.length_append]
    omega
  have hrSize : p.rSize + nodeValue r = (r.toList ++ rightKeys p.right).length := by
    rw [hp.rSize, hr.nodeValue_eq, List.length_append]
    omega
  have hlExact := exact_hangLeft hl hp.leftExact hlSize
  have hrExact := exact_hangRight hr hp.rightExact hrSize
  refine ⟨_, _, _, _, by rw [splay, hloop], hlist, ⟨⟨hlExact, hrExact, ?_⟩, hlist ▸ ht.sorted⟩, ?_, ?_⟩
  · rw [hlExact.nodeValue_eq, hrExact.nodeValue_eq, toList_hangLeft, toList_hangRight, ← hlSize,
      ← hrSize]
  · intro hlt x hx
    rw [toList_hangLeft, hlnull hlt, STree.toList, List.append_nil] at hx
    exact hp.below x hx
  · intro hgt x hx
    rw [toList_hangRight, hrnull hgt, STree.toList, List.nil_append] at hx
    exact hp.above x hx

theorem Splayed.mem_iff (h : Splayed i t l k v r) {x : Int} :
    x ∈ t.toList ↔ x ∈ l.toList ∨ x = k ∨ x ∈ r.toList := by
  rw [← h.toList, STree.toList, List.mem_append, List.mem_cons]

/-- A key of the tree comes to the root. -/
theorem Splayed.root_eq (h : Splayed i t l k v r) (hi : i ∈ t.toList) : k = i := by
  obtain ⟨-, -, hlk, hkr, -⟩ := isSet_node.mp h.isSet
  rw [h.mem_iff] at hi
  rcases Int.lt_trichotomy i k with hlt | rfl | hgt
  · obtain hi | rfl | hi := hi
    · exact absurd (h.before hlt i hi) (Int.lt_irrefl i)
    · rfl
    · exact absurd (hkr i hi) (Int.lt_asymm hlt)
  · rfl
  · obtain hi | rfl | hi := hi
    · exact absurd (hlk i hi) (Int.lt_asymm hgt)
    · rfl
    · exact absurd (h.behind hgt i hi) (Int.lt_irrefl i)

/-- If all keys are before `i`, the last one comes to the root. -/
theorem Splayed.right_eq_nil (h : Splayed i t l k v r) (hbefore : ∀ x ∈ t.toList, x < i) :
    r.toList = [] := by
  apply List.eq_nil_iff_forall_not_mem.mpr
  intro x hx
  have hk : k < i := hbefore k (h.mem_iff.mpr (.inr (.inl rfl)))
  have hxi : x < i := hbefore x (h.mem_iff.mpr (.inr (.inr hx)))
  exact absurd hxi (Int.lt_asymm (h.behind hk x hx))

/-! ## The set of the keys -/

theorem splay_isSet (i : Int) (ht : t.IsSet) : (splay i t).IsSet ∧ (splay i t).toList = t.toList := by
  by_cases hnull : t = null
  · subst hnull
    exact ⟨ht, rfl⟩
  · obtain ⟨l, k, v, r, h⟩ := splay_spec i ht hnull
    rw [h.eq]
    exact ⟨h.isSet, h.toList⟩

theorem insert_isSet (i : Int) (ht : t.IsSet) : ∃ t', insert i t = .ok t' ∧ t'.IsSet ∧
    ∀ x, x ∈ t'.toList ↔ x = i ∨ x ∈ t.toList := by
  cases t with
  | null => exact ⟨_, rfl, ⟨⟨trivial, trivial, rfl⟩, List.pairwise_singleton _ _⟩, fun x => by simp [toList]⟩
  | node a b c d =>
    obtain ⟨l, k, v, r, h⟩ := splay_spec i ht node_ne_null
    obtain ⟨hl, hr, hlk, hkr, hv⟩ := isSet_node.mp h.isSet
    rw [insert, h.eq]
    dsimp only
    by_cases hlt : i < k
    · -- the root is the next key
      refine ⟨_, if_pos (keyCmp_neg.mpr hlt), isSet_node.mpr ⟨hl, h.isSet.cutLeft, h.before hlt, ?_, ?_⟩,
        ?_⟩
      · intro x hx
        obtain rfl | hx := List.mem_cons.mp hx
        · exact hlt
        · exact Int.lt_trans hlt (hkr x hx)
      · omega
      · intro x
        rw [h.mem_iff]
        simp only [toList, List.mem_append, List.mem_cons, List.nil_append]
        tauto
    · rw [if_neg (mt keyCmp_neg.mp hlt)]
      by_cases hgt : k < i
      · -- the root is the key before
        refine ⟨_, if_pos (keyCmp_pos.mpr hgt), isSet_node.mpr ⟨h.isSet.cutRight, hr, ?_, h.behind hgt,
          ?_⟩, ?_⟩
        · intro x hx
          obtain hx | hx := List.mem_append.mp hx
          · exact Int.lt_trans (hlk x hx) hgt
          · rw [List.mem_singleton.mp hx]
            exact hgt
        · omega
        · intro x
          rw [h.mem_iff]
          simp only [toList, List.mem_append, List.mem_cons, List.not_mem_nil, or_false]
          tauto
      · obtain rfl : i = k := by omega
        rw [if_neg (mt keyCmp_pos.mp hgt), if_pos (by omega)]
        refine ⟨_, rfl, h.isSet, fun x => ?_⟩
        rw [h.toList, h.mem_iff]
        tauto

theorem setValue_isSet {n : Int} (ht : t.IsSet) (hn : n = t.toList.length) : (setValue n t).IsSet ∧
    (setValue n t).toList = t.toList := by
  cases t with
  | null => exact ⟨ht, rfl⟩
  | node l k v r =>
    obtain ⟨hl, hr, hlk, hkr, hv⟩ := isSet_node.mp ht
    refine ⟨isSet_node.mpr ⟨hl, hr, hlk, hkr, ?_⟩, rfl⟩
    rw [hn, ← hv]
    exact ht.exact.nodeValue_eq.symm

theorem splayDelete_isSet (i : Int) (ht : t.IsSet) : ∃ t', splayDelete i t = .ok t' ∧ t'.IsSet ∧
    ∀ x, x ∈ t'.toList ↔ x ≠ i ∧ x ∈ t.toList := by
  cases t with
  | null => exact ⟨_, rfl, ht, fun x => by simp [toList]⟩
  | node a b c d =>
    obtain ⟨l, k, v, r, h⟩ := splay_spec i ht node_ne_null
    obtain ⟨hl, hr, hlk, hkr, hv⟩ := isSet_node.mp h.isSet
    rw [splayDelete, h.eq]
    dsimp only
    by_cases hik : i = k
    · subst hik
      have hcount : c - 1 = (l.toList ++ r.toList).length := by
        have := ht.exact.nodeValue_eq
        rw [nodeValue, ← h.toList, toList] at this
        simp at this ⊢
        omega
      have hkeys : ∀ x, x ∈ l.toList ++ r.toList ↔ x ≠ i ∧ x ∈ (node a b c d).toList := by
        intro x
        rw [h.mem_iff, List.mem_append]
        constructor
        · rintro (hx | hx)
          · exact ⟨Int.ne_of_lt (hlk x hx), .inl hx⟩
          · exact ⟨Int.ne_of_gt (hkr x hx), .inr (.inr hx)⟩
        · rintro ⟨hne, hx | hx | hx⟩
          · exact .inl hx
          · exact absurd hx hne
          · exact .inr hx
      rw [if_pos (show keyCmp i i = 0 from Int.sub_self i)]
      cases l with
      | null =>
        obtain ⟨hset, hlist⟩ := setValue_isSet hr hcount
        exact ⟨_, rfl, hset, fun x => by rw [hlist]; exact hkeys x⟩
      | node a' b' c' d' =>
        -- all keys on the left are before `i`, so nothing is right of the new root
        obtain ⟨l', k', v', r', h'⟩ := splay_spec i hl node_ne_null
        obtain ⟨hl', -, hlk', -⟩ := isSet_node.mp h'.isSet
        have hk' : k' < i := hlk k' (h'.mem_iff.mpr (.inr (.inl rfl)))
        have hlist : (node l' k' (nodeValue l' + nodeValue r + 1) r).toList =
            (node a' b' c' d').toList ++ r.toList := by
          rw [← h'.toList, toList, toList, h'.right_eq_nil hlk]
          simp
        have hset : (node l' k' (nodeValue l' + nodeValue r + 1) r).IsSet :=
          isSet_node.mpr ⟨hl', hr, hlk', fun x hx => Int.lt_trans hk' (hkr x hx), rfl⟩
        obtain ⟨hset', hlist'⟩ := setValue_isSet hset (n := c - 1) (by rw [hlist]; exact hcount)
        refine ⟨_, by dsimp only; rw [h'.eq]; rfl, hset', fun x => ?_⟩
        rw [hlist', hlist]
        exact hkeys x
    · rw [if_neg (by unfold keyCmp; omega)]
      refine ⟨_, rfl, h.isSet, fun x => ?_⟩
      rw [h.toList]
      refine ⟨fun hx => ⟨?_, hx⟩, And.right⟩
      rintro rfl
      exact hik (h.root_eq hx).symm

theorem countRight_splay {i : Int} (ht : t.IsSet) (hi : i ∈ t.toList) :
    countRight (splay i t) = some ((t.toList.toFinset.filter (i < ·)).card : Int) := by
  have hnull : t ≠ null := by
    rintro rfl
    exact List.not_mem_nil hi
  obtain ⟨l, k, v, r, h⟩ := splay_spec i ht hnull
  obtain rfl := h.root_eq hi
  obtain ⟨-, hr, hlk, hkr, -⟩ := isSet_node.mp h.isSet
  have hfilter : t.toList.toFinset.filter (k < ·) = r.toList.toFinset := by
    ext x
    rw [Finset.mem_filter, List.mem_toFinset, List.mem_toFinset, h.mem_iff]
    constructor
    · rintro ⟨hx | rfl | hx, hlt⟩
      · exact absurd (hlk x hx) (Int.lt_asymm hlt)
      · exact absurd hlt (Int.lt_irrefl x)
      · exact hx
    · exact fun hx => ⟨.inr (.inr hx), hkr x hx⟩
  have hnodup : r.toList.Nodup := hr.sorted.imp Int.ne_of_lt
  rw [h.eq, countRight, hr.exact.nodeValue_eq, hfilter, List.toFinset_card_of_nodup hnodup]

end

end STree

/-- **Splay trees** implement an ordered set with exact subtree counts. -/
def splayTree : CountedSet Int where
  Tree := { t : STree // t.IsSet }
  keys t := t.val.toList.toFinset
  empty := ⟨.null, trivial, .nil⟩
  insert i t :=
    let t' := valueOf (t.val.insert i) (STree.insert_isSet i t.property)
    ⟨t'.val, t'.property.1⟩
  delete i t :=
    let t' := valueOf (t.val.splayDelete i) (STree.splayDelete_isSet i t.property)
    ⟨t'.val, t'.property.1⟩
  splay i t := ⟨t.val.splay i, (STree.splay_isSet i t.property).1⟩
  countRight t := t.val.countRight
  keys_empty := rfl
  keys_insert i t := by
    ext x
    rw [List.mem_toFinset, Finset.mem_insert, List.mem_toFinset]
    exact (valueOf (t.val.insert i) (STree.insert_isSet i t.property)).property.2 x
  keys_delete i t := by
    ext x
    rw [List.mem_toFinset, Finset.mem_erase, List.mem_toFinset]
    exact (valueOf (t.val.splayDelete i) (STree.splayDelete_isSet i t.property)).property.2 x
  keys_splay i t := congrArg List.toFinset (STree.splay_isSet i t.property).2
  countRight_splay i t hi := STree.countRight_splay t.property (List.mem_toFinset.mp hi)

end C2DN.Simulator
