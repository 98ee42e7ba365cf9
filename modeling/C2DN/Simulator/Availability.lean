import Mathlib.Data.Rat.Floor
import C2DN.Simulator.Schedule

/-!
# The number of available servers

An availability update recovers all servers and fails those of the line. `recover_one_server` counts a
server only if it is down; `fail_one_server` counts it in any case. So `n_avail_server` is the number
of available servers as long as no line that is applied lists a server twice.
-/

namespace C2DN.Simulator

namespace Cluster

/-- The servers of the list are down, no others, and the others are counted. -/
structure Accounted (p : Params) (s : Cluster) (failed : List Nat) : Prop where
  unavailable : ∀ x, x < p.nServer ∧ (s.servers x).available = false ↔ x ∈ failed
  count : s.stat.nAvailServer = (availableServers p s).length

/-- The cluster whose buckets an update maps. -/
def markFailedServers (p : Params) (s : Cluster) (failedServers : List Nat) :
    Except Fault Cluster := do
  let s ← (List.range p.nServer).foldlM (recoverOneServer p) s
  failedServers.foldlM (failOneServer p) s

section
variable {p : Params} {s s' : Cluster} {x : Nat} {failed : List Nat}

theorem changeFailedServers_eq :
    s.changeFailedServers p failed = (s.markFailedServers p failed).bind (populateHashMapping p) := by
  unfold changeFailedServers markFailedServers
  cases (List.range p.nServer).foldlM (recoverOneServer p) s <;> rfl

/-- One more server is available. -/
theorem perm_availableServers (hlt : x < p.nServer) (hdown : (s.servers x).available = false)
    (hup : (s'.servers x).available = true)
    (hother : ∀ y, y ≠ x → (s'.servers y).available = (s.servers y).available) :
    (availableServers p s').Perm (x :: availableServers p s) := by
  have hx : x ∉ availableServers p s := by
    intro h
    exact nomatch hdown.symm.trans (List.mem_filter.mp h).2
  refine (List.perm_ext_iff_of_nodup (List.nodup_range.filter _)
    (List.nodup_cons.mpr ⟨hx, List.nodup_range.filter _⟩)).mpr fun y => ?_
  simp only [availableServers, List.mem_cons, List.mem_filter]
  by_cases hy : y = x
  · rw [hy]
    exact iff_of_true ⟨List.mem_range.mpr hlt, hup⟩ (.inl rfl)
  · rw [hother y hy, or_iff_right hy]

theorem length_availableServers_le : (availableServers p s).length ≤ p.nServer := by
  have hle := List.length_filter_le (fun x => (s.servers x).available) (List.range p.nServer)
  rwa [List.length_range] at hle

theorem recoverOneServer_count (hsize : p.nServer < 2 ^ 64)
    (hcount : s.stat.nAvailServer = (availableServers p s).length)
    (h : s.recoverOneServer p x = .ok s') :
    s'.stat.nAvailServer = (availableServers p s').length := by
  rcases recoverOneServer_switched h with rfl | hsw
  · exact hcount
  · unfold recoverOneServer at h
    split at h
    · next hlt =>
      split at h
      · cases h
        exact hcount
      · next hdown =>
        have hdown : (s.servers x).available = false := by simpa using hdown
        have hup : (s'.servers x).available = true := by rw [hsw.available, if_pos rfl]
        have hperm := perm_availableServers (p := p) hlt hdown hup fun y hy => by
          rw [hsw.available, if_neg hy]
        have hlen := hperm.length_eq
        rw [List.length_cons] at hlen
        have hle := length_availableServers_le (p := p) (s := s')
        obtain ⟨s₁, hs₁, h⟩ := bind_eq_ok h
        obtain ⟨-, c, -, rfl⟩ := onServer_eq_ok hs₁
        cases h
        change (s.stat.nAvailServer + 1) % 2 ^ 64 = _
        rw [hcount, Nat.mod_eq_of_lt (by omega), hlen]
    · cases h

/-- A server that is available is counted when it fails. -/
theorem failOneServer_count (hsize : p.nServer < 2 ^ 64)
    (hcount : s.stat.nAvailServer = (availableServers p s).length)
    (hup : (s.servers x).available = true) (h : s.failOneServer p x = .ok s') :
    s'.stat.nAvailServer = (availableServers p s').length := by
  have hsw := failOneServer_switched h
  obtain ⟨s₁, hs₁, h⟩ := bind_eq_ok h
  obtain ⟨hlt, c, -, rfl⟩ := onServer_eq_ok hs₁
  have hdown : (s'.servers x).available = false := by rw [hsw.available, if_pos rfl]
  have hperm := perm_availableServers (p := p) hlt hdown hup fun y hy => by
    rw [hsw.available, if_neg hy]
  have hlen := hperm.length_eq
  rw [List.length_cons] at hlen
  have hle := length_availableServers_le (p := p) (s := s)
  cases h
  change (s.stat.nAvailServer + 2 ^ 64 - 1) % 2 ^ 64 = _
  rw [hcount, hlen]
  omega

theorem recoverAll_count (hsize : p.nServer < 2 ^ 64)
    (hcount : s.stat.nAvailServer = (availableServers p s).length) {l : List Nat}
    (h : l.foldlM (recoverOneServer p) s = .ok s') :
    s'.stat.nAvailServer = (availableServers p s').length :=
  inv_of_run (fun _ _ _ hcount h => recoverOneServer_count hsize hcount h) hcount h

/-- Different servers that are available are counted when they fail. -/
theorem failAll_count (hsize : p.nServer < 2 ^ 64)
    (hcount : s.stat.nAvailServer = (availableServers p s).length) (hnodup : failed.Nodup)
    (hup : ∀ x ∈ failed, (s.servers x).available = true)
    (h : failed.foldlM (failOneServer p) s = .ok s') :
    s'.stat.nAvailServer = (availableServers p s').length := by
  induction failed generalizing s with
  | nil => cases h; exact hcount
  | cons x failed ih =>
    rw [List.foldlM_cons] at h
    obtain ⟨s₁, hs₁, h⟩ := bind_eq_ok h
    obtain ⟨hx, hnodup⟩ := List.nodup_cons.mp hnodup
    refine ih (failOneServer_count hsize hcount (hup x List.mem_cons_self) hs₁) hnodup
      (fun y hy => ?_) h
    rw [(failOneServer_switched hs₁).available, if_neg (ne_of_mem_of_not_mem hy hx)]
    exact hup y (List.mem_cons_of_mem _ hy)

/-- What an update does before it maps the buckets. -/
theorem markFailedServers_accounted (hsize : p.nServer < 2 ^ 64)
    (hcount : s.stat.nAvailServer = (availableServers p s).length) (hnodup : failed.Nodup)
    (hlt : ∀ x ∈ failed, x < p.nServer) :
    ∃ s', s.markFailedServers p failed = .ok s' ∧ Accounted p s' failed := by
  obtain ⟨s₁, hs₁, -, hav₁⟩ := recoverAll_ok (Nat.le_refl p.nServer) s
  obtain ⟨s₂, hs₂, -, hav₂⟩ := failAll_ok hlt s₁
  have hup : ∀ x < p.nServer, (s₁.servers x).available = true := by
    intro x hx
    rw [hav₁, decide_eq_true hx, Bool.true_or]
  refine ⟨s₂, ?_, fun x => ?_, ?_⟩
  · unfold markFailedServers
    rw [hs₁]
    exact hs₂
  · rw [hav₂]
    constructor
    · rintro ⟨hx, hdown⟩
      rw [hup x hx] at hdown
      simpa using hdown
    · intro hx
      refine ⟨hlt x hx, ?_⟩
      rw [decide_eq_false (not_not.mpr hx), Bool.and_false]
  · exact failAll_count hsize (recoverAll_count hsize hcount hs₁) hnodup
      (fun x hx => hup x (hlt x hx)) hs₂

/-! ## The mapping -/

theorem populateBuckets_stat {l : List Nat} {sc r : Cluster × (Nat → Nat)}
    (h : l.foldlM (populateBucket p) sc = .ok r) : r.1.stat = sc.1.stat := by
  refine inv_of_run (I := fun sc' : Cluster × (Nat → Nat) => sc'.1.stat = sc.1.stat)
    (fun sc b sc' hsc h => ?_) rfl h
  obtain ⟨r, -, rfl⟩ := map_eq_ok h
  exact hsc

theorem populateHashMapping_stat (h : populateHashMapping p s = .ok s') : s'.stat = s.stat := by
  obtain ⟨sc, hsc, h⟩ := bind_eq_ok h
  have hloop : sc.1.stat = s.stat := populateBuckets_stat hsc
  split at h
  · unfold findParityMapping at h
    split at h
    · cases h
    · dsimp only at h
      split at h
      · cases h
      · cases h
        exact hloop
  · cases h
    exact hloop

/-- A division by zero is one by `n_avail_server`. -/
theorem populateHashMapping_divideByZero (h : populateHashMapping p s = .error .divideByZero) :
    s.stat.nAvailServer = 0 := by
  have hbuckets : ∀ (l : List Nat) sc, Ends (l.foldlM (populateBucket p) sc) (fun _ => True)
      (· = .ringExhausted) := by
    intro l sc
    refine Ends.foldlM (fun _ _ => True) trivial fun pre b post sc _ _ => ?_
    refine Ends.map (P := fun _ => True) ?_ fun _ _ => trivial
    cases hget : p.ring.getServers p.hash b (p.n + maxNUnavail) sc.2 with
    | ok r => trivial
    | error e => exact Ring.getServers_error hget
  unfold populateHashMapping at h
  dsimp only at h
  cases hsc : (List.range nBucket).foldlM (populateBucket p) ({ s with nBucketPerServer := fun _ => 0 },
      fun i => if (s.servers i).available then nBucket * p.n else 0) with
  | error e =>
    rw [hsc] at h
    obtain rfl := (hbuckets _ _).error hsc
    cases h
  | ok sc =>
    rw [hsc] at h
    have hloop : sc.1.stat = s.stat := populateBuckets_stat hsc
    change (if p.parityRebalance = true then findParityMapping p sc.1 else .ok sc.1) = _ at h
    split at h
    · unfold findParityMapping at h
      split at h
      · next hzero => rwa [hloop] at hzero
      · dsimp only at h
        split at h <;> cases h
    · cases h

theorem ceilDiv_eq_ceil (a c : Nat) : ((a + c - 1) / c : Int) = ⌈(a : ℚ) / c⌉ := by
  rw [Rat.ceil_natCast_div_natCast]
  rcases Nat.eq_zero_or_pos c with rfl | hc
  · simp
  · have hc : (0 : Int) < c := Int.natCast_pos.mpr hc
    have hdiv := Int.emod_add_mul_ediv (-a) c
    have hnonneg := Int.emod_nonneg (-a) (Int.ne_of_gt hc)
    have hlt := Int.emod_lt_of_pos (-a) hc
    have hsplit : (a + c - 1 : Int) = (c - 1 - -a % c) + c * -(-a / c) := by
      rw [mul_neg]
      omega
    rw [hsplit, Int.add_mul_ediv_left _ _ (Int.ne_of_gt hc), Int.ediv_eq_zero_of_lt (by omega) (by omega),
      zero_add]

end

end Cluster

/-! ## Runs of the thread -/

namespace Thread

/-- A line that is applied before a request at `now` does not list a server twice. -/
def DistinctLine (t : Thread) (now : Nat) : Prop :=
  ∀ failed rest, t.failureVectorDeque = failed :: rest →
    clusterUpdateInterval ≤ elapsed now t.lastClusterUnavailabilityUpdate →
    failed ≠ t.prevFailedServers → failed.Nodup

section
variable {p : Params} {t t' : Thread} {startTime logInterval : Nat} {failures : List (List Nat)}

theorem updateAvailability_count {now : Nat} (hsize : p.nServer < 2 ^ 64)
    (hcount : t.cluster.stat.nAvailServer = (Cluster.availableServers p t.cluster).length)
    (hC : DistinctLine t now) (h : t.updateAvailability p now = .ok t') :
    t'.cluster.stat.nAvailServer = (Cluster.availableServers p t'.cluster).length := by
  rcases updateAvailability_cases h with rfl | ⟨failed, rest, hdeque, hdue, hprev, h⟩
  · exact hcount
  · rcases h with ⟨-, hcluster⟩ | ⟨hne, hchange⟩
    · rwa [hcluster]
    · obtain ⟨-, hlt, -⟩ := Cluster.changeFailedServers_prev hchange
      obtain ⟨s, hs, hacc⟩ := Cluster.markFailedServers_accounted hsize hcount
        (hC failed rest hdeque hdue hne) hlt
      rw [Cluster.changeFailedServers_eq, hs] at hchange
      rw [Cluster.populateHashMapping_stat hchange, hacc.count, Cluster.availableServers,
        Cluster.availableServers, (Cluster.populateHashMapping_servers hchange).1]

theorem step_count {a : Arrival} (hsize : p.nServer < 2 ^ 64)
    (hcount : t.cluster.stat.nAvailServer = (Cluster.availableServers p t.cluster).length)
    (hC : DistinctLine t a.realTime) (h : t.step p logInterval a = .ok t') :
    t'.cluster.stat.nAvailServer = (Cluster.availableServers p t'.cluster).length := by
  obtain ⟨t₁, ht₁, h⟩ := bind_eq_ok h
  obtain ⟨r, hr, h⟩ := bind_eq_ok h
  cases h
  have hcount₁ := updateAvailability_count hsize hcount hC ht₁
  have havail : Cluster.availableServers p r.1 = Cluster.availableServers p t₁.cluster := by
    obtain ⟨m, -, hserved⟩ := Cluster.get_ends.ok hr
    obtain ⟨ws, heff⟩ := hserved.effect
    exact List.filter_congr fun x _ => heff.writes.available x
  have hcount₂ : r.1.stat.nAvailServer = (Cluster.availableServers p r.1).length := by
    rw [Cluster.get_nAvailServer hr, havail, hcount₁]
  unfold log
  split
  · exact hcount₂
  · exact hcount₂

/-- An update takes lines away, and adds none. -/
theorem mem_deque_updateAvailability {now : Nat} (h : t.updateAvailability p now = .ok t')
    {failed : List Nat} (hmem : failed ∈ t'.failureVectorDeque) : failed ∈ t.failureVectorDeque := by
  unfold updateAvailability at h
  split at h
  · cases h
    exact hmem
  · next hdeque =>
    split at h
    · cases h
      exact hmem
    · obtain ⟨cluster, -, rfl⟩ := map_eq_ok h
      rw [hdeque]
      exact List.mem_cons_of_mem _ hmem

/-- Where no line of the file lists a server twice, no line that is applied does. -/
theorem steps_distinctLine {t₀ : Thread} {arrivals : List Arrival}
    (hstart : start p failures startTime = .ok t₀) (hnodup : ∀ failed ∈ failures, failed.Nodup) :
    Steps (step p logInterval) (fun t a _ => DistinctLine t a.realTime) arrivals t₀ := by
  refine Steps.of_inv (I := fun t : Thread => ∀ failed ∈ t.failureVectorDeque, failed.Nodup)
    (C := fun _ _ _ => True) (fun t a t' hnodup h _ => ⟨fun failed hmem => ?_, ?_⟩) ?_
    (Steps.of_forall fun _ _ _ _ => trivial)
  · obtain ⟨t₁, ht₁, h⟩ := bind_eq_ok h
    obtain ⟨r, -, h⟩ := bind_eq_ok h
    cases h
    refine hnodup failed (mem_deque_updateAvailability ht₁ ?_)
    unfold log at hmem
    split at hmem
    · exact hmem
    · exact hmem
  · exact fun failed rest hdeque _ _ => hnodup failed (hdeque ▸ List.mem_cons_self)
  · obtain ⟨cluster, -, rfl⟩ := map_eq_ok hstart
    exact hnodup

/-- **Availability accounting** in every run in which no line that is applied lists a server twice. -/
theorem accounted_run {t₀ : Thread} {arrivals : List Arrival} (hsize : p.nServer < 2 ^ 64)
    (hstart : start p failures startTime = .ok t₀)
    (hC : Steps (step p logInterval) (fun t a _ => DistinctLine t a.realTime) arrivals t₀)
    (hrun : run p logInterval arrivals t₀ = .ok t) :
    t.cluster.Accounted p t.prevFailedServers ∧
    ∀ failed : List Nat, failed.Nodup → (∀ x ∈ failed, x < p.nServer) →
      ∃ s, t.cluster.markFailedServers p failed = .ok s ∧
        t.cluster.changeFailedServers p failed = s.populateHashMapping p ∧ s.Accounted p failed ∧
        ((nBucket * p.n : Nat) + s.stat.nAvailServer - 1 : Int) / s.stat.nAvailServer =
          ⌈((nBucket * p.n : Nat) : ℚ) / (Cluster.availableServers p s).length⌉ ∧
        (Cluster.availableServers p s ≠ [] → s.populateHashMapping p ≠ .error .divideByZero) := by
  have H := inv_run hstart hrun
  have hcount : t.cluster.stat.nAvailServer = (Cluster.availableServers p t.cluster).length := by
    refine Steps.inv_of_run (I := fun t : Thread => t.cluster.stat.nAvailServer =
      (Cluster.availableServers p t.cluster).length) (C := fun t a _ => DistinctLine t a.realTime)
      (fun t a t' hcount h hC => step_count hsize hcount hC h) ?_ hC hrun
    obtain ⟨cluster, hnew, rfl⟩ := map_eq_ok hstart
    dsimp only
    rw [Cluster.populateHashMapping_stat hnew, Cluster.availableServers, List.filter_eq_self.mpr,
      List.length_range]
    exact fun x _ => by rw [Cluster.new_servers hnew]
  refine ⟨⟨H.unavailable_iff, hcount⟩, fun failed hnodup hlt => ?_⟩
  obtain ⟨s, hs, hacc⟩ := Cluster.markFailedServers_accounted hsize hcount hnodup hlt
  refine ⟨s, hs, ?_, hacc, ?_, fun hne hzero => ?_⟩
  · rw [Cluster.changeFailedServers_eq, hs]
    rfl
  · rw [Cluster.ceilDiv_eq_ceil, hacc.count]
  · have hlen := Cluster.populateHashMapping_divideByZero hzero
    rw [hacc.count] at hlen
    exact hne (List.length_eq_zero_iff.mp hlen)

end

/-- Servers 0 and 1 fail one after the other. -/
theorem differentLines_accounted : ∃ t₀ t t₁,
    start (lineParams .c2dn 3 2 7 (by decide)) [[0], [1], [0, 1]] 0 = .ok t₀ ∧
    run (lineParams .c2dn 3 2 7 (by decide)) 0 ([0, 300, 600].map arrivalAt) t₀ = .ok t ∧
    t.updateAvailability (lineParams .c2dn 3 2 7 (by decide)) 900 = .ok t₁ ∧
    t.cluster.Accounted (lineParams .c2dn 3 2 7 (by decide)) t.prevFailedServers := by
  obtain ⟨r, hr, -⟩ := exists_ok_of_any (q := fun _ => true)
    (x := upTo (lineParams .c2dn 3 2 7 (by decide)) [[0], [1], [0, 1]] [0, 300, 600] 900)
    (by decide +kernel)
  obtain ⟨hstart, hrun, hupdate⟩ := upTo_eq_ok hr
  refine ⟨r.1, r.2.1, r.2.2, hstart, hrun, hupdate, (accounted_run (by decide) hstart ?_ hrun).1⟩
  exact steps_distinctLine hstart (by simp)

/-- Server 0 is listed twice: six of seven servers are available, and five are counted. -/
theorem twice_not_accounted : ∃ t₀ t t₁,
    start (lineParams .c2dn 3 2 7 (by decide)) [[0, 0]] 0 = .ok t₀ ∧
    run (lineParams .c2dn 3 2 7 (by decide)) 0 ([0].map arrivalAt) t₀ = .ok t ∧
    t.updateAvailability (lineParams .c2dn 3 2 7 (by decide)) 300 = .ok t₁ ∧
    t₁.cluster.stat.nAvailServer = 5 ∧
    (Cluster.availableServers (lineParams .c2dn 3 2 7 (by decide)) t₁.cluster).length = 6 ∧
    ¬ t₁.cluster.Accounted (lineParams .c2dn 3 2 7 (by decide)) [0, 0] := by
  obtain ⟨r, hr, hq⟩ := exists_ok_of_any
    (q := fun r : Thread × Thread × Thread => decide (r.2.2.cluster.stat.nAvailServer = 5 ∧
      (Cluster.availableServers (lineParams .c2dn 3 2 7 (by decide)) r.2.2.cluster).length = 6))
    (x := upTo (lineParams .c2dn 3 2 7 (by decide)) [[0, 0]] [0] 300) (by decide +kernel)
  obtain ⟨hstart, hrun, hupdate⟩ := upTo_eq_ok hr
  obtain ⟨hfive, hsix⟩ := of_decide_eq_true hq
  refine ⟨r.1, r.2.1, r.2.2, hstart, hrun, hupdate, hfive, hsix, fun h => ?_⟩
  have hcount := h.count
  rw [hfive, hsix] at hcount
  exact absurd hcount (by decide)

end Thread

end C2DN.Simulator
