import Mathlib.Data.List.Sort
import C2DN.LoadBalancer.Md5

/-!
# The hash ring

`HashRing` of `src/loadbalancer/consistenthash.go`. The nodes are any hosts with names, which go
into the hashed keys; those of a balancer are the host numbers with their decimal names (`Itoa` and
`Atoi` undo each other). `digest` is `md5.Sum`; nothing here depends on its values except through
`Separates`, which says that no host loses all its points to the points of another one.

A ring that `NewRing` and `RemoveNode` build is the new ring of its nodes (`foldl_removeNode`), so it
depends only on the set of hosts that have been removed.
-/

namespace C2DN.LoadBalancer

/-- How a call ends that does not return. -/
inductive Fault where
  /-- `slogger.Fatal` -/
  | fatal
  | indexOutOfRange
  | divideByZero
  deriving DecidableEq, Repr

/-- `strconv.Itoa`, as bytes. -/
def itoa (n : Nat) : List Nat := (Nat.toDigits 10 n).map Char.toNat

def hashVal (bKey : List Nat) : Nat :=
  (bKey.getD 3 0 <<< 24) ||| (bKey.getD 2 0 <<< 16) ||| (bKey.getD 1 0 <<< 8) ||| bKey.getD 0 0

/-- Hosts with a name; a missing entry of the ring map is the host without one. -/
class HostName (α : Type) extends Inhabited α where
  name : α → List Nat

instance : HostName Nat := ⟨itoa⟩

structure HashRing (α : Type) where
  ring : Nat → Option α
  sortedKeys : List Nat
  nodes : List α
  weights : α → Option Nat

section
variable {α : Type} [DecidableEq α] [HostName α] (digest : List Nat → List Nat)

/-- The three points of a node that come from the digest of `node-j`. -/
def nodeKeys (node : α) (j : Nat) : List Nat :=
  let bKey := digest (HostName.name node ++ 45 :: itoa j)
  [hashVal bKey, hashVal (bKey.drop 4), hashVal (bKey.drop 8)]

/-- The points of a node, with the node. -/
def nodePoints (factor : Nat) (node : α) : List (Nat × α) :=
  (List.range factor).flatMap fun j => (nodeKeys digest node j).map fun key => (key, node)

namespace HashRing

/-- A node without a weight gets the weight 1. -/
def setWeights (nodes : List α) (weights : α → Option Nat) (node : α) : Option Nat :=
  match weights node with
  | some w => some w
  | none => if node ∈ nodes then some 1 else none

/-- The points in the order in which they are made. -/
def circlePoints (nodes : List α) (weights : α → Option Nat) : List (Nat × α) :=
  let totalWeight := (nodes.map fun node => (weights node).getD 0).sum
  nodes.flatMap fun node =>
    nodePoints digest (40 * nodes.length * (weights node).getD 0 / totalWeight) node

def generateCircle (h : HashRing α) : HashRing α :=
  let weights := setWeights h.nodes h.weights
  let points := circlePoints digest h.nodes weights
  { h with
    weights
    -- a later point takes the key of an earlier one
    ring := fun key => ((points.reverse.find? fun p => p.1 == key).map Prod.snd) <|> h.ring key
    sortedKeys := (h.sortedKeys ++ points.map Prod.fst).insertionSort (· ≤ ·) }

def newRing (nodes : List α) : HashRing α :=
  generateCircle digest
    { ring := fun _ => none, sortedKeys := [], nodes, weights := fun _ => none }

def removeNode (h : HashRing α) (node : α) : HashRing α :=
  if h.weights node = none then h
  else generateCircle digest
    { ring := fun _ => none, sortedKeys := [], nodes := h.nodes.filter fun n => n != node,
      weights := fun n => if n = node then none else h.weights n }

/-- `GetNodePos`: the first point behind the key, around the ring; `none` is `(0, false)`. -/
def getNodePos (h : HashRing α) (stringKey : List Nat) : Option Nat :=
  if h.sortedKeys = [] then none
  else
    let key := hashVal (digest stringKey)
    let pos := h.sortedKeys.findIdx fun k => key < k
    some (if pos = h.sortedKeys.length then 0 else pos)

/-- The loop of `GetNodes` over the points from the given ones on. -/
def collect (ring : Nat → Option α) (size : Nat) : List Nat → List α → List α
  | [], result => result
  | key :: keys, result =>
    let val := (ring key).getD default
    let result := if val ∈ result then result else result ++ [val]
    if result.length = size then result else collect ring size keys result

def getNodes (h : HashRing α) (stringKey : List Nat) (size : Nat) :
    Except Fault (List α × Bool) :=
  match h.getNodePos digest stringKey with
  | none => .error .fatal
  | some pos =>
    if h.nodes.length < size then .error .fatal
    else
      let result := collect h.ring size (h.sortedKeys.drop pos ++ h.sortedKeys.take pos) []
      .ok (result, decide (result.length = size))

end HashRing

/-- Every host below `n` has a point that no other one has. -/
def Separates (n : Nat) : Prop :=
  ∀ h < n, ∃ j < 40, ∃ key ∈ nodeKeys digest h j,
    ∀ h' < n, h' ≠ h → ∀ j' < 40, key ∉ nodeKeys digest h' j'

end

/-! ## Rings of equal weights -/

section
variable {α : Type} [DecidableEq α] [HostName α] {digest : List Nat → List Nat} {nodes : List α}
  {node : α}

namespace HashRing

/-- The points of a ring in which all nodes weigh the same. -/
def points (digest : List Nat → List Nat) (nodes : List α) : List (Nat × α) :=
  nodes.flatMap (nodePoints digest 40)

/-- Every node weighs 1. -/
def ones (nodes : List α) (node : α) : Option Nat := if node ∈ nodes then some 1 else none

omit [HostName α] in
theorem setWeights_eq {w : α → Option Nat} (hw : ∀ n, w n = none ∨ (n ∈ nodes ∧ w n = some 1)) :
    setWeights nodes w = ones nodes := by
  funext n
  unfold setWeights ones
  rcases hw n with h | ⟨hn, h⟩
  · rw [h]
  · rw [h, if_pos hn]

theorem circlePoints_ones : circlePoints digest nodes (ones nodes) = points digest nodes := by
  have htotal : (nodes.map fun n => (ones nodes n).getD 0).sum = nodes.length := by
    rw [List.map_congr_left (g := fun _ => 1) fun n hn => by rw [ones, if_pos hn]; rfl]
    simp
  unfold circlePoints points
  dsimp only
  rw [htotal, List.flatMap_def, List.flatMap_def]
  congr 1
  refine List.map_congr_left fun n hn => ?_
  have hpos : 0 < nodes.length := List.length_pos_of_mem hn
  rw [ones, if_pos hn, Option.getD_some, Nat.mul_one, Nat.mul_div_cancel _ hpos]

theorem generateCircle_eq {w : α → Option Nat}
    (hw : ∀ n, w n = none ∨ (n ∈ nodes ∧ w n = some 1)) :
    generateCircle digest { ring := fun _ => none, sortedKeys := [], nodes, weights := w } =
      { ring := fun key => ((points digest nodes).reverse.find? fun p => p.1 == key).map Prod.snd
        sortedKeys := ((points digest nodes).map Prod.fst).insertionSort (· ≤ ·)
        nodes
        weights := ones nodes } := by
  unfold generateCircle
  dsimp only
  rw [setWeights_eq hw, circlePoints_ones]
  simp

theorem newRing_eq : newRing digest nodes =
      { ring := fun key => ((points digest nodes).reverse.find? fun p => p.1 == key).map Prod.snd
        sortedKeys := ((points digest nodes).map Prod.fst).insertionSort (· ≤ ·)
        nodes
        weights := ones nodes } :=
  generateCircle_eq fun _ => .inl rfl

theorem removeNode_newRing :
    (newRing digest nodes).removeNode digest node =
      newRing digest (nodes.filter fun n => n != node) := by
  rw [newRing_eq, newRing_eq, removeNode]
  dsimp only
  by_cases h : node ∈ nodes
  · rw [if_neg (by simp [ones, h]), generateCircle_eq]
    intro n
    by_cases hn : n = node
    · exact .inl (if_pos hn)
    · by_cases hm : n ∈ nodes
      · exact .inr ⟨by simp [hn, hm], by simp [ones, hn, hm]⟩
      · exact .inl (by simp [ones, hm])
  · have hfilter : nodes.filter (fun n => n != node) = nodes := by
      rw [List.filter_eq_self]
      intro n hn
      simp only [bne_iff_ne]
      rintro rfl
      exact h hn
    rw [if_pos (by simp [ones, h]), hfilter]

/-- The ring after removals depends only on the set of the removed nodes. -/
theorem foldl_removeNode (removed : List α) :
    removed.foldl (removeNode digest) (newRing digest nodes) =
      newRing digest (nodes.filter fun n => n ∉ removed) := by
  induction removed generalizing nodes with
  | nil => simp
  | cons x xs ih =>
    rw [List.foldl_cons, removeNode_newRing, ih, List.filter_filter]
    congr 1
    refine List.filter_congr fun n _ => ?_
    by_cases h : n = x <;> simp [h]

theorem foldl_removeNode_congr {removed removed' : List α} (h : ∀ x, x ∈ removed ↔ x ∈ removed') :
    removed.foldl (removeNode digest) (newRing digest nodes) =
      removed'.foldl (removeNode digest) (newRing digest nodes) := by
  rw [foldl_removeNode, foldl_removeNode]
  congr 1
  exact List.filter_congr fun n _ => by simp [h]

/-! ## What `GetNodes` returns -/

/-- The loop of `GetNodes` keeps a list of different nodes, and stops early only when it is
complete. -/
theorem collect_spec (ring : Nat → Option α) (size : Nat) (keys : List Nat) {result : List α}
    (hnodup : result.Nodup) (hlt : result.length < size) :
    (collect ring size keys result).Nodup ∧ (collect ring size keys result).length ≤ size ∧
    (∀ x ∈ collect ring size keys result, x ∈ result ∨ ∃ k ∈ keys, (ring k).getD default = x) ∧
    ((collect ring size keys result).length = size ∨
      (∀ x ∈ result, x ∈ collect ring size keys result) ∧
        ∀ k ∈ keys, (ring k).getD default ∈ collect ring size keys result) := by
  induction keys generalizing result with
  | nil => exact ⟨hnodup, le_of_lt hlt, fun x hx => .inl hx, .inr ⟨fun x hx => hx, by simp⟩⟩
  | cons key keys ih =>
    rw [collect]
    -- the result after this key
    obtain ⟨next, hnext, hnodup', hle, hmem⟩ : ∃ next,
        (if (ring key).getD default ∈ result then result else result ++ [(ring key).getD default]) = next ∧
        next.Nodup ∧ next.length ≤ size ∧ ∀ x, x ∈ next ↔ x ∈ result ∨ x = (ring key).getD default := by
      by_cases h : (ring key).getD default ∈ result
      · refine ⟨result, if_pos h, hnodup, le_of_lt hlt, fun x => ⟨.inl, ?_⟩⟩
        rintro (hx | rfl)
        · exact hx
        · exact h
      · refine ⟨_, if_neg h, ?_, ?_, by simp⟩
        · exact List.nodup_append.mpr ⟨hnodup, by simp, by
            intro a ha b hb
            rw [List.mem_singleton.mp hb]
            rintro rfl
            exact h ha⟩
        · rw [List.length_append, List.length_singleton]; exact hlt
    rw [hnext]
    by_cases hsize : next.length = size
    · rw [if_pos hsize]
      refine ⟨hnodup', hle, fun x hx => ?_, .inl hsize⟩
      rcases (hmem x).mp hx with hx | rfl
      · exact .inl hx
      · exact .inr ⟨key, by simp, rfl⟩
    · rw [if_neg hsize]
      obtain ⟨h1, h2, h3, h4⟩ := ih hnodup' (by omega)
      refine ⟨h1, h2, fun x hx => ?_, ?_⟩
      · rcases h3 x hx with hx | ⟨k, hk, hx⟩
        · rcases (hmem x).mp hx with hx | rfl
          · exact .inl hx
          · exact .inr ⟨key, by simp, rfl⟩
        · exact .inr ⟨k, List.mem_cons_of_mem _ hk, hx⟩
      · refine h4.imp id fun ⟨h5, h6⟩ => ⟨fun x hx => h5 x ((hmem x).mpr (.inl hx)), ?_⟩
        intro k hk
        rcases List.mem_cons.mp hk with rfl | hk
        · exact h5 _ ((hmem _).mpr (.inr rfl))
        · exact h6 k hk

omit [DecidableEq α] in
theorem mem_points {p : Nat × α} :
    p ∈ points digest nodes ↔ p.2 ∈ nodes ∧ ∃ j < 40, p.1 ∈ nodeKeys digest p.2 j := by
  obtain ⟨key, node⟩ := p
  simp only [points, nodePoints, List.mem_flatMap, List.mem_map, List.mem_range, Prod.mk.injEq]
  constructor
  · rintro ⟨n, hn, j, hj, k, hk, rfl, rfl⟩
    exact ⟨hn, j, hj, hk⟩
  · rintro ⟨hn, j, hj, hk⟩
    exact ⟨node, hn, j, hj, key, hk, rfl, rfl⟩

/-- The keys on the ring belong to nodes of it. -/
theorem ring_mem {key : Nat} (h : key ∈ (newRing digest nodes).sortedKeys) :
    ∃ v ∈ nodes, (newRing digest nodes).ring key = some v ∧ (key, v) ∈ points digest nodes := by
  rw [newRing_eq] at h ⊢
  rw [List.mem_insertionSort, List.mem_map] at h
  obtain ⟨p, hp, rfl⟩ := h
  cases hfind : (points digest nodes).reverse.find? fun q => q.1 == p.1 with
  | none =>
    have := List.find?_eq_none.mp hfind p (List.mem_reverse.mpr hp)
    simp at this
  | some q =>
    have hq : q ∈ points digest nodes := List.mem_reverse.mp (List.mem_of_find?_eq_some hfind)
    have hkey : q.1 = p.1 := by simpa using List.find?_some hfind
    refine ⟨q.2, (mem_points.mp hq).1, by simp [hfind], ?_⟩
    rw [← hkey]
    exact hq

/-- A host with a point of its own is on the ring. -/
theorem exists_key {nodes : List Nat} {n v : Nat} (hsep : Separates digest n) (hnodes : ∀ x ∈ nodes, x < n)
    (hv : v ∈ nodes) : ∃ key ∈ (newRing digest nodes).sortedKeys,
      (newRing digest nodes).ring key = some v := by
  obtain ⟨j, hj, key, hkey, hown⟩ := hsep v (hnodes v hv)
  have hmem : key ∈ (newRing digest nodes).sortedKeys := by
    rw [newRing_eq, List.mem_insertionSort]
    exact List.mem_map.mpr ⟨(key, v), mem_points.mpr ⟨hv, j, hj, hkey⟩, rfl⟩
  obtain ⟨v', hv', hring, hpoint⟩ := ring_mem hmem
  obtain ⟨-, j', hj', hkey'⟩ := mem_points.mp hpoint
  refine ⟨key, hmem, ?_⟩
  by_cases h : v' = v
  · rw [hring, h]
  · exact absurd hkey' (hown v' (hnodes v' hv') h j' hj')

/-- `GetNodes` on a new ring returns as many different nodes of the ring as it is asked for. -/
theorem getNodes_newRing {nodes : List Nat} {n size : Nat} {key : List Nat} (hsep : Separates digest n)
    (hnodes : ∀ x ∈ nodes, x < n) (hnodup : nodes.Nodup) (h0 : 0 < size) (hsize : size ≤ nodes.length) :
    ∃ result, (newRing digest nodes).getNodes digest key size = .ok (result, true) ∧
      result.length = size ∧ result.Nodup ∧ ∀ x ∈ result, x ∈ nodes := by
  obtain ⟨v, hv⟩ := List.exists_mem_of_length_pos (l := nodes) (by omega)
  obtain ⟨k₀, hk₀, -⟩ := exists_key hsep hnodes hv
  have hne : (newRing digest nodes).sortedKeys ≠ [] := List.ne_nil_of_mem hk₀
  have hlen : (newRing digest nodes).nodes = nodes := by rw [newRing_eq]
  obtain ⟨pos, hpos⟩ : ∃ pos, (newRing digest nodes).getNodePos digest key = some pos :=
    ⟨_, if_neg hne⟩
  unfold getNodes
  rw [hpos]
  dsimp only
  rw [hlen, if_neg (by omega)]
  have hmem : ∀ k, k ∈ (newRing digest nodes).sortedKeys.drop pos ++
      (newRing digest nodes).sortedKeys.take pos ↔ k ∈ (newRing digest nodes).sortedKeys := by
    intro k
    rw [List.mem_append, or_comm, ← List.mem_append, List.take_append_drop]
  obtain ⟨h1, h2, h3, h4⟩ := collect_spec (newRing digest nodes).ring size
    ((newRing digest nodes).sortedKeys.drop pos ++ (newRing digest nodes).sortedKeys.take pos)
    List.nodup_nil (by simpa using h0)
  generalize collect (newRing digest nodes).ring size _ [] = result at h1 h2 h3 h4 ⊢
  have hfull : result.length = size := by
    rcases h4 with h | ⟨-, h⟩
    · exact h
    · have hsub : nodes ⊆ result := by
        intro x hx
        obtain ⟨k, hk, hring⟩ := exists_key hsep hnodes hx
        have := h k ((hmem k).mpr hk)
        rwa [hring] at this
      have := (List.subperm_of_subset hnodup hsub).length_le
      omega
  refine ⟨result, by simp [hfull], hfull, h1, fun x hx => ?_⟩
  rcases h3 x hx with hx | ⟨k, hk, rfl⟩
  · cases hx
  · obtain ⟨v, hv, hring, -⟩ := ring_mem ((hmem k).mp hk)
    rwa [hring]

end HashRing

end

end C2DN.LoadBalancer
