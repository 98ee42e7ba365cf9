import C2DN.Lib.Rounding
import C2DN.Simulator.RingCreate

/-!
# Cache sizes as weights

The part of `parse_cmd_arg` that makes weights of the cache sizes, and the ring that `ch_ring_create`
makes of them with its own arithmetic: shares are of type `double`, and `floorf` is given the nearest
`float`. This rounds to 24 bits, sometimes up to the next integer, but it keeps the order of the weights.
The order of the sizes is lost when they are truncated to 32 bits.
-/

namespace C2DN.Simulator

/-- The nearest `double`. -/
def toDouble (x : ℚ) : ℚ := roundTo 53 x

/-- The nearest `float`. -/
def toFloat (x : ℚ) : ℚ := roundTo 24 x

/-- `total_weight`. -/
def doubleTotal (weight : List UInt32) : ℚ :=
  weight.foldl (fun total w => toDouble (total + w.toNat)) 0

/-- The argument of `floorf`:
`(double) weight[i] / total_weight * n_server * (N_VNODE_PER_SERVER / 4)`. -/
def floatShare (weight : List UInt32) (w : UInt32) : ℚ :=
  toFloat (toDouble (toDouble (toDouble (w.toNat / doubleTotal weight) * weight.length) *
    (nVnodePerServer / 4 : Nat)))

/-- `ks`, as `ch_ring_create` computes it. -/
def floatHash (weight : List UInt32) (w : UInt32) : Nat := ⌊floatShare weight w⌋₊

/-- `ch_ring_create` with its own arithmetic. -/
def chRingCreateFloat (qsort : Qsort) (digest : List Nat → List Nat) (weight : List UInt32) :
    Except RingFault MemRing :=
  chRingCreateOf qsort digest (floatHash weight) weight

/-- A share that is less than 40 is rounded to 40. -/
example : nHash [999000000, 999999999, 1001000001] 999999999 = 39 ∧
    floatHash [999000000, 999999999, 1001000001] 999999999 = 40 := by decide +kernel

/-- `server_weight` of `parse_cmd_arg`: the sizes become weights of 32 bits when their sum, a `long`,
is within 1000 of `server_cache_size * n_server`; otherwise the process ends. -/
def parseServerWeight (serverCacheSize : UInt64) (cacheSizes : List UInt64) : Option (List UInt32) :=
  let sum : Int := (cacheSizes.map UInt64.toNat).sum
  let diff := (sum - serverCacheSize.toNat * cacheSizes.length).bmod (2 ^ 64)
  if 1000 < diff.natAbs then none else some (cacheSizes.map UInt64.toUInt32)

/-- The points of a server. -/
def MemRing.nPointOf (ring : MemRing) (server : Nat) : Nat :=
  ring.vnodes.countP fun v => v.any fun v => v.serverId == server

/-- Larger caches have no fewer points. -/
def MonotonePoints (qsort : Qsort) (digest : List Nat → List Nat) (weight : List UInt32)
    (cacheSizes : List UInt64) : Prop :=
  ∃ ring, chRingCreateFloat qsort digest weight = .ok ring ∧
    ∀ (i j : Nat) (si sj : UInt64), cacheSizes[i]? = some si → cacheSizes[j]? = some sj →
      sj ≤ si → ring.nPointOf j ≤ ring.nPointOf i

/-- Truncated to 32 bits, the size `sj` is larger than `si`, and there is an integer between their shares
of the hashes. -/
def Overtakes (weight : List UInt32) (sj si : UInt64) : Prop :=
  si.toUInt32 < sj.toUInt32 ∧
    ∃ m : Nat, floatShare weight si.toUInt32 < m ∧ m ≤ floatShare weight sj.toUInt32

section
variable {qsort : Qsort} {digest : List Nat → List Nat} {weight : List UInt32} {v w : UInt32}

/-! ## Shares -/

theorem toDouble_nonneg {x : ℚ} (hx : 0 ≤ x) : 0 ≤ toDouble x := roundTo_nonneg (by decide) hx

theorem toDouble_mono {x y : ℚ} (hx : 0 ≤ x) (h : x ≤ y) : toDouble x ≤ toDouble y :=
  roundTo_mono (by decide) hx h

theorem doubleTotal_nonneg (weight : List UInt32) : 0 ≤ doubleTotal weight := by
  unfold doubleTotal
  suffices ∀ t : ℚ, 0 ≤ t → 0 ≤ weight.foldl (fun total w => toDouble (total + w.toNat)) t from
    this 0 le_rfl
  induction weight with
  | nil => exact fun _ h => h
  | cons w ws ih => exact fun t ht => ih _ (toDouble_nonneg (add_nonneg ht (Nat.cast_nonneg _)))

/-- The order of the weights is the order of their shares. -/
theorem floatShare_mono (h : v ≤ w) : floatShare weight v ≤ floatShare weight w := by
  have hle : (v.toNat : ℚ) ≤ w.toNat := Nat.cast_le.mpr (UInt32.le_iff_toNat_le.mp h)
  have hT := doubleTotal_nonneg weight
  have hn : (0 : ℚ) ≤ weight.length := Nat.cast_nonneg _
  have hv : (0 : ℚ) ≤ (nVnodePerServer / 4 : Nat) := Nat.cast_nonneg _
  have h0 : 0 ≤ (v.toNat : ℚ) / doubleTotal weight := div_nonneg (Nat.cast_nonneg _) hT
  have h1 := toDouble_mono h0 (div_le_div_of_nonneg_right hle hT)
  have h1' := mul_nonneg (toDouble_nonneg h0) hn
  have h2 := toDouble_mono h1' (mul_le_mul_of_nonneg_right h1 hn)
  have h2' := mul_nonneg (toDouble_nonneg h1') hv
  have h3 := toDouble_mono h2' (mul_le_mul_of_nonneg_right h2 hv)
  exact roundTo_mono (by decide) (toDouble_nonneg h2') h3

theorem floatShare_nonneg (weight : List UInt32) (w : UInt32) : 0 ≤ floatShare weight w := by
  have h0 : 0 ≤ (w.toNat : ℚ) / doubleTotal weight :=
    div_nonneg (Nat.cast_nonneg _) (doubleTotal_nonneg weight)
  have h1 := toDouble_nonneg (mul_nonneg (toDouble_nonneg h0) (Nat.cast_nonneg weight.length))
  have h2 := toDouble_nonneg (mul_nonneg h1 (Nat.cast_nonneg (nVnodePerServer / 4)))
  exact roundTo_nonneg (by decide) h2

/-- What rounding adds to a share. -/
theorem floatShare_le (weight : List UInt32) (w : UInt32) : floatShare weight w ≤
    w.toNat / doubleTotal weight * weight.length * (nVnodePerServer / 4 : Nat) *
      ((1 + 1 / 2 ^ 53) ^ 3 * (1 + 1 / 2 ^ 24)) := by
  have hn : (0 : ℚ) ≤ weight.length := Nat.cast_nonneg _
  have hv : (0 : ℚ) ≤ (nVnodePerServer / 4 : Nat) := Nat.cast_nonneg _
  unfold floatShare
  generalize hx : (w.toNat : ℚ) / doubleTotal weight = x
  have h0 : 0 ≤ x := hx ▸ div_nonneg (Nat.cast_nonneg _) (doubleTotal_nonneg weight)
  have h1 : toDouble x ≤ x * (1 + 1 / 2 ^ 53) := roundTo_le 53 h0
  have h1' := mul_nonneg (toDouble_nonneg h0) hn
  have h2 : toDouble (toDouble x * weight.length) ≤ toDouble x * weight.length * (1 + 1 / 2 ^ 53) :=
    roundTo_le 53 h1'
  have h2' := mul_nonneg (toDouble_nonneg h1') hv
  have h3 : toDouble (toDouble (toDouble x * weight.length) * (nVnodePerServer / 4 : Nat)) ≤
      toDouble (toDouble x * weight.length) * (nVnodePerServer / 4 : Nat) * (1 + 1 / 2 ^ 53) :=
    roundTo_le 53 h2'
  calc toFloat (toDouble (toDouble (toDouble x * weight.length) * (nVnodePerServer / 4 : Nat)))
      ≤ toDouble (toDouble (toDouble x * weight.length) * (nVnodePerServer / 4 : Nat)) *
          (1 + 1 / 2 ^ 24) := roundTo_le 24 (toDouble_nonneg h2')
    _ ≤ toDouble (toDouble x * weight.length) * (nVnodePerServer / 4 : Nat) * (1 + 1 / 2 ^ 53) *
          (1 + 1 / 2 ^ 24) := by gcongr
    _ ≤ toDouble x * weight.length * (1 + 1 / 2 ^ 53) * (nVnodePerServer / 4 : Nat) *
          (1 + 1 / 2 ^ 53) * (1 + 1 / 2 ^ 24) := by gcongr
    _ ≤ x * (1 + 1 / 2 ^ 53) * weight.length * (1 + 1 / 2 ^ 53) * (nVnodePerServer / 4 : Nat) *
          (1 + 1 / 2 ^ 53) * (1 + 1 / 2 ^ 24) := by gcongr
    _ = _ := by ring

theorem totalWeight_le (weight : List UInt32) : totalWeight weight ≤ weight.length * 2 ^ 32 := by
  have := List.sum_le_card_nsmul (weight.map UInt32.toNat) (2 ^ 32) fun x hx => by
    obtain ⟨w, -, rfl⟩ := List.mem_map.mp hx
    exact (UInt32.toNat_lt w).le
  rwa [List.length_map] at this

/-- A total of at most 53 bits is exact. -/
theorem doubleTotal_eq (h : totalWeight weight < 2 ^ 53) : doubleTotal weight = totalWeight weight := by
  unfold doubleTotal totalWeight at *
  suffices ∀ t : Nat, t + (weight.map UInt32.toNat).sum < 2 ^ 53 →
      weight.foldl (fun total w => toDouble (total + w.toNat)) (t : ℚ) =
        (t + (weight.map UInt32.toNat).sum : Nat) by
    simpa using this 0 (by rwa [Nat.zero_add])
  clear h
  induction weight with
  | nil => exact fun t _ => rfl
  | cons w ws ih =>
    intro t ht
    rw [List.map_cons, List.sum_cons, ← Nat.add_assoc] at ht ⊢
    have hround : toDouble ((t : ℚ) + w.toNat) = ((t + w.toNat : Nat) : ℚ) := by
      rw [← Nat.cast_add]
      exact roundTo_natCast (by omega)
    rw [List.foldl_cons, hround]
    exact ih _ ht

theorem sum_floor_le {f : UInt32 → ℚ} {c : ℚ} (l : List UInt32) (h0 : ∀ w, 0 ≤ f w)
    (h : ∀ w, f w ≤ w.toNat * c) :
    ((l.map fun w => ⌊f w⌋₊).sum : ℚ) ≤ (l.map UInt32.toNat).sum * c := by
  induction l with
  | nil => simp
  | cons w l ih =>
    rw [List.map_cons, List.sum_cons, List.map_cons, List.sum_cons]
    push_cast at ih ⊢
    rw [add_mul]
    exact add_le_add ((Nat.floor_le (h0 w)).trans (h w)) ih

/-- **Rounding up** does not add a hash on a ring of 400000 servers. -/
theorem sum_floatHash_le (hT : totalWeight weight ≠ 0) (hn : weight.length ≤ 400000) :
    (weight.map (floatHash weight)).sum ≤ weight.length * (nVnodePerServer / 4) := by
  have htotal := totalWeight_le weight
  have hexact : doubleTotal weight = totalWeight weight := doubleTotal_eq (by omega)
  have hpos : 0 < (totalWeight weight : ℚ) := Nat.cast_pos.mpr (Nat.pos_of_ne_zero hT)
  have hshare := sum_floor_le weight (floatShare_nonneg weight)
    (c := (totalWeight weight : ℚ)⁻¹ * weight.length * (nVnodePerServer / 4 : Nat) *
      ((1 + 1 / 2 ^ 53) ^ 3 * (1 + 1 / 2 ^ 24))) fun w => by
    refine (floatShare_le weight w).trans (le_of_eq ?_)
    rw [hexact]
    ring
  have hbound : ((weight.map (floatHash weight)).sum : ℚ) <
      (weight.length * (nVnodePerServer / 4) + 1 : Nat) := by
    calc ((weight.map (floatHash weight)).sum : ℚ)
        ≤ totalWeight weight * ((totalWeight weight : ℚ)⁻¹ * weight.length *
            (nVnodePerServer / 4 : Nat) * ((1 + 1 / 2 ^ 53) ^ 3 * (1 + 1 / 2 ^ 24))) := hshare
      _ = weight.length * (nVnodePerServer / 4 : Nat) * ((1 + 1 / 2 ^ 53) ^ 3 * (1 + 1 / 2 ^ 24)) := by
        have hcancel := mul_inv_cancel₀ hpos.ne'
        simp only [← mul_assoc]
        rw [hcancel, one_mul]
      _ < (weight.length * (nVnodePerServer / 4) + 1 : Nat) := by
        have hlen : (weight.length : ℚ) ≤ 400000 := by exact_mod_cast hn
        have hv : ((nVnodePerServer / 4 : Nat) : ℚ) = 40 := by decide +kernel
        push_cast
        rw [hv]
        norm_num
        linarith
  exact Nat.lt_succ_iff.mp (Nat.cast_lt.mp hbound)

/-! ## Points -/

theorem sum_zipIdx_single {α : Type} {g : α → Nat} {l : List α} {i k : Nat} :
    ((l.zipIdx k).map fun p => if p.2 = k + i then g p.1 else 0).sum = (l[i]?.map g).getD 0 := by
  induction l generalizing i k with
  | nil => simp
  | cons a l ih =>
    cases i with
    | zero =>
      have hrest : ((l.zipIdx (k + 1)).map fun p => if p.2 = k + 0 then g p.1 else 0).sum = 0 := by
        rw [List.sum_eq_zero_iff, List.forall_mem_map]
        rintro ⟨x, j⟩ hmem
        have := List.le_snd_of_mem_zipIdx hmem
        exact if_neg (by omega)
      rw [List.zipIdx_cons, List.map_cons, List.sum_cons, hrest]
      simp
    | succ i =>
      rw [List.zipIdx_cons, List.map_cons, List.sum_cons, if_neg (by omega), Nat.zero_add]
      have := ih (i := i) (k := k + 1)
      rw [Nat.add_assoc, Nat.add_comm 1 i] at this
      rw [this]
      rfl

theorem countP_serverVnodes {i j k : Nat} :
    (serverVnodes digest i k).countP (fun v => v.serverId == j) = if i = j then k * 4 else 0 := by
  split
  · next hij =>
    rw [← length_serverVnodes, List.countP_eq_length]
    exact fun v hv => beq_iff_eq.mpr ((mem_serverVnodes hv).trans hij)
  · next hij =>
    rw [List.countP_eq_zero]
    intro v hv hid
    exact hij ((mem_serverVnodes hv).symm.trans (beq_iff_eq.mp hid))

/-- Every server has the points of its share. -/
theorem nPointOf_eq {ring : MemRing} {i : Nat}
    (hring : chRingCreateFloat qsort digest weight = .ok ring) (hw : weight[i]? = some w) :
    ring.nPointOf i = floatHash weight w * 4 := by
  obtain ⟨hn, hT, hle⟩ := chRingCreateOf_ok hring
  rw [chRingCreateFloat, chRingCreateOf_eq hn hT hle] at hring
  cases hring
  have hrest : ∀ k, (List.replicate k (none : Option VNode)).countP
      (fun v => v.any fun v => v.serverId == i) = 0 := by
    intro k
    rw [List.countP_eq_zero]
    intro v hv
    rw [(List.mem_replicate.mp hv).2]
    simp
  rw [MemRing.nPointOf, List.countP_append, hrest, Nat.add_zero, List.countP_map,
    (qsort.perm _).countP_eq]
  change (vnodesOf digest (floatHash weight) weight).countP (fun v => v.serverId == i) = _
  rw [vnodesOf, List.countP_flatMap]
  have hsum := sum_zipIdx_single (g := fun w => floatHash weight w * 4) (l := weight) (i := i) (k := 0)
  rw [hw, Nat.zero_add] at hsum
  rw [← show _ = floatHash weight w * 4 from hsum]
  congr 1
  exact List.map_congr_left fun p _ => countP_serverVnodes

theorem floatHash_toUInt32_le_iff {si sj : UInt64} :
    floatHash weight sj.toUInt32 ≤ floatHash weight si.toUInt32 ↔ ¬ Overtakes weight sj si := by
  constructor
  · rintro h ⟨-, m, hlt, hle⟩
    have hj : m ≤ floatHash weight sj.toUInt32 := Nat.le_floor hle
    have hi : floatHash weight si.toUInt32 < m := (Nat.floor_lt (floatShare_nonneg weight _)).mpr hlt
    omega
  · intro h
    by_contra hlt
    have hlt := Nat.lt_of_not_le hlt
    have htruncated : si.toUInt32 < sj.toUInt32 := by
      by_contra hle
      exact absurd (Nat.floor_mono (floatShare_mono (UInt32.not_lt.mp hle))) (Nat.not_le.mpr hlt)
    refine h ⟨htruncated, floatHash weight sj.toUInt32, ?_, Nat.floor_le (floatShare_nonneg weight _)⟩
    exact (Nat.floor_lt (floatShare_nonneg weight _)).mp hlt

/-- A size below `2 ^ 32` is not overtaken by smaller ones. -/
theorem not_overtakes_of_lt {si sj : UInt64} (hi : si.toNat < 2 ^ 32) (h : sj ≤ si) :
    ¬ Overtakes weight sj si := by
  have hle := UInt64.le_iff_toNat_le.mp h
  rintro ⟨hlt, -⟩
  rw [UInt32.lt_iff_toNat_lt, UInt64.toNat_toUInt32, UInt64.toNat_toUInt32, Nat.mod_eq_of_lt hi,
    Nat.mod_eq_of_lt (Nat.lt_of_le_of_lt hle hi)] at hlt
  omega

/-- **Cache sizes.** Larger caches have no fewer points exactly if the size of the ring is an `int`,
not all sizes are multiples of `2 ^ 32` (if there are any), the rounded shares do not add up to more than
all hashes, and no size overtakes a larger one. -/
theorem parseServerWeight_monotone_iff (qsort : Qsort) (digest : List Nat → List Nat)
    (serverCacheSize : UInt64) (cacheSizes : List UInt64) (weight : List UInt32)
    (h : parseServerWeight serverCacheSize cacheSizes = some weight) :
    MonotonePoints qsort digest weight cacheSizes ↔
      cacheSizes.length * nVnodePerServer < 2 ^ 31 ∧ (weight ≠ [] → totalWeight weight ≠ 0) ∧
      (weight.map (floatHash weight)).sum ≤ cacheSizes.length * (nVnodePerServer / 4) ∧
      ∀ si ∈ cacheSizes, ∀ sj ∈ cacheSizes, sj ≤ si → ¬ Overtakes weight sj si := by
  obtain rfl : cacheSizes.map UInt64.toUInt32 = weight := by
    unfold parseServerWeight at h
    dsimp only at h
    split at h
    · cases h
    · exact Option.some.inj h
  have hlen : (cacheSizes.map UInt64.toUInt32).length = cacheSizes.length := List.length_map _
  generalize hweight : cacheSizes.map UInt64.toUInt32 = weight at hlen ⊢
  have hw : ∀ {i : Nat} {s : UInt64}, cacheSizes[i]? = some s → weight[i]? = some s.toUInt32 := by
    intro i s hs
    rw [← hweight, List.getElem?_map, hs]
    rfl
  have hshare : ∀ {ring : MemRing} {i j : Nat} {si sj : UInt64},
      chRingCreateFloat qsort digest weight = .ok ring →
      cacheSizes[i]? = some si → cacheSizes[j]? = some sj →
      (ring.nPointOf j ≤ ring.nPointOf i ↔ ¬ Overtakes weight sj si) := by
    intro ring i j si sj hring hi hj
    rw [nPointOf_eq hring (hw hi), nPointOf_eq hring (hw hj), Nat.mul_le_mul_right_iff (by decide),
      floatHash_toUInt32_le_iff]
  have hroom : (vnodesOf digest (floatHash weight) weight).length ≤ weight.length * nVnodePerServer ↔
      (weight.map (floatHash weight)).sum ≤ weight.length * (nVnodePerServer / 4) := by
    rw [length_vnodesOf]
    unfold nVnodePerServer
    omega
  rw [← hlen]
  constructor
  · rintro ⟨ring, hring, hmono⟩
    obtain ⟨hn, hT, hle⟩ := chRingCreateOf_ok hring
    refine ⟨hn, hT, hroom.mp hle, fun si hsi sj hsj hle => ?_⟩
    obtain ⟨i, hi⟩ := List.getElem?_of_mem hsi
    obtain ⟨j, hj⟩ := List.getElem?_of_mem hsj
    exact (hshare hring hi hj).mp (hmono i j si sj hi hj hle)
  · rintro ⟨hn, hT, hle, hno⟩
    have hring : chRingCreateFloat qsort digest weight = .ok _ :=
      chRingCreateOf_eq hn hT (hroom.mpr hle)
    refine ⟨_, hring, fun i j si sj hi hj hle => (hshare hring hi hj).mpr ?_⟩
    exact hno si (List.mem_of_getElem? hi) sj (List.mem_of_getElem? hj) hle

/-- Sizes below `2 ^ 32` overtake nothing. -/
theorem smallSizes_monotone : parseServerWeight 25 [10, 40] = some [10, 40] ∧
    MonotonePoints stableQsort LoadBalancer.md5Sum [10, 40] [10, 40] := by
  have hparse : parseServerWeight 25 [10, 40] = some [10, 40] := by decide
  have hT : totalWeight [10, 40] ≠ 0 := by decide
  refine ⟨hparse, (parseServerWeight_monotone_iff stableQsort LoadBalancer.md5Sum 25 [10, 40] [10, 40]
    hparse).mpr ⟨by decide, fun _ => hT, sum_floatHash_le hT (by decide), ?_⟩⟩
  have hlt : ∀ s ∈ ([10, 40] : List UInt64), s.toNat < 2 ^ 32 := by simp
  exact fun si hsi sj _ hle => not_overtakes_of_lt (hlt si hsi) hle

/-- 5 GiB and 3 GiB: the larger size is truncated to 1 GiB, and the smaller cache has three quarters of
the points. -/
theorem truncatedSize_not_monotone :
    parseServerWeight 4294967296 [5368709120, 3221225472] = some [1073741824, 3221225472] ∧
    ¬ MonotonePoints stableQsort LoadBalancer.md5Sum [1073741824, 3221225472]
      [5368709120, 3221225472] := by
  refine ⟨by decide, ?_⟩
  rintro ⟨ring, hring, hmono⟩
  have hle := hmono 0 1 5368709120 3221225472 rfl rfl (by decide)
  rw [nPointOf_eq (i := 0) hring rfl, nPointOf_eq (i := 1) hring rfl] at hle
  exact absurd hle (by decide +kernel)

end

end C2DN.Simulator
