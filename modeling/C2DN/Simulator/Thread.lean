import C2DN.Simulator.Contract

/-!
# The cluster thread

`cacheClusterThread::run` serves the requests of a trace. Before a request it may take the next list
of failed servers: then it recovers all servers, fails those of the list and maps the buckets again.
Every one of these calls that changes a server puts the current mapping in the place of the previous
one and clears it. So after two such calls the mapping from before the update is lost, and it is the
previous one if and only if a single call has changed a server.

Left out are the log files and the requests of size 0.
-/

namespace C2DN.Simulator

/-- `cluster_update_interval`, in seconds. -/
def clusterUpdateInterval : Nat := 5 * 60

/-- A request of the trace with its `real_time`. -/
structure Arrival where
  realTime : Nat
  req : Request
  draws : Cluster.Draws

/-- The variables of `cacheClusterThread` and of its loop. -/
structure Thread where
  cluster : Cluster
  failureVectorDeque : List (List Nat)
  prevFailedServers : List Nat
  lastClusterUnavailabilityUpdate : Nat
  lastLogOtime : Nat
  vtime : Nat

/-- The difference of two times of type `unsigned long`. -/
def elapsed (now last : Nat) : Nat := (now + 2 ^ 64 - last) % 2 ^ 64

namespace Cluster

/-- The calls of an update that changes the failed servers. -/
def changeFailedServers (p : Params) (s : Cluster) (failedServers : List Nat) :
    Except Fault Cluster := do
  let s ← (List.range p.nServer).foldlM (recoverOneServer p) s
  let s ← failedServers.foldlM (failOneServer p) s
  s.populateHashMapping p

/-- `bucket_stat[i].clear()` for every server. -/
def clearBucketStat (p : Params) (s : Cluster) : Cluster :=
  { s with bucketStat := fun i => if i < p.nServer then ⟨0, 0, 0, 0⟩ else s.bucketStat i }

end Cluster

namespace Thread

/-- The availability update before a request. -/
def updateAvailability (p : Params) (t : Thread) (now : Nat) : Except Fault Thread :=
  match t.failureVectorDeque with
  | [] => .ok t
  | failedServers :: rest =>
    if elapsed now t.lastClusterUnavailabilityUpdate < clusterUpdateInterval then .ok t
    else
      (if failedServers ≠ t.prevFailedServers then t.cluster.changeFailedServers p failedServers
        else .ok t.cluster).map fun cluster =>
        { t with
          cluster
          failureVectorDeque := rest
          prevFailedServers := failedServers
          lastClusterUnavailabilityUpdate := now }

/-- The counters are cleared when they have been logged. -/
def log (p : Params) (logInterval : Nat) (t : Thread) (now : Nat) : Thread :=
  if logInterval ≠ 0 ∧ logInterval ≤ elapsed now t.lastLogOtime then
    { t with lastLogOtime := now, cluster := t.cluster.clearBucketStat p }
  else t

/-- One round of the loop. -/
def step (p : Params) (logInterval : Nat) (t : Thread) (a : Arrival) : Except Fault Thread := do
  let t ← t.updateAvailability p a.realTime
  let r ← t.cluster.get p a.req a.draws
  .ok (log p logInterval { t with cluster := r.1, vtime := t.vtime + 1 } a.realTime)

/-- The thread before the first request, which is at `startTime`. -/
def start (p : Params) (failures : List (List Nat)) (startTime : Nat) : Except Fault Thread :=
  (Cluster.new p).map fun cluster => ⟨cluster, failures, [], startTime, startTime, 0⟩

def run (p : Params) (logInterval : Nat) (arrivals : List Arrival) (t : Thread) :
    Except Fault Thread :=
  arrivals.foldlM (step p logInterval) t

end Thread

/-! ## Mappings after resets -/

namespace Cluster

section
variable {p : Params} {s s₁ s' : Cluster}

/-- The mappings after `m` calls of `reset_consistent_hash_mapping`. -/
structure Reset (s : Cluster) (m : Nat) (s' : Cluster) : Prop where
  chMapping : s'.chMapping = if m = 0 then s.chMapping else fun _ => none
  prevChMapping : s'.prevChMapping =
    if m = 0 then s.prevChMapping else if m = 1 then s.chMapping else fun _ => none

theorem Reset.refl (s : Cluster) : Reset s 0 s := ⟨rfl, rfl⟩

theorem Reset.succ {m : Nat} (h : Reset s m s₁) (hch : s'.chMapping = fun _ => none)
    (hprev : s'.prevChMapping = s₁.chMapping) : Reset s (m + 1) s' := by
  refine ⟨by rw [hch, if_neg (Nat.succ_ne_zero m)], ?_⟩
  rw [hprev, h.chMapping, if_neg (Nat.succ_ne_zero m)]
  by_cases hm : m = 0
  · rw [if_pos hm, if_pos (by omega)]
  · rw [if_neg hm, if_neg (by omega)]

theorem Reset.trans {m m' : Nat} (h : Reset s m s₁) (h' : Reset s₁ m' s') :
    Reset s (m + m') s' := by
  cases m' with
  | zero =>
    refine ⟨h'.chMapping.trans ?_, h'.prevChMapping.trans ?_⟩
    · exact h.chMapping
    · exact h.prevChMapping
  | succ m' =>
    refine ⟨h'.chMapping, h'.prevChMapping.trans ?_⟩
    rw [if_neg (Nat.succ_ne_zero m'), if_neg (by omega : m + (m' + 1) ≠ 0)]
    cases m with
    | zero =>
      rw [h.chMapping, Nat.zero_add]
      rfl
    | succ m =>
      rw [h.chMapping, if_neg (Nat.succ_ne_zero m), if_neg (by omega : m + 1 + (m' + 1) ≠ 1),
        ite_self]

theorem onServer_switched (s : Cluster) {server : Nat} (hlt : server < p.nServer) (b : Bool) :
    ∃ s', s.resetConsistentHashMapping.onServer p server
      (fun c => .ok { c with available := b }) = .ok s' ∧ Switched s server b s' := by
  unfold onServer
  rw [if_pos hlt]
  exact ⟨_, rfl, rfl, rfl, rfl⟩

theorem failOneServer_ok {server : Nat} (hlt : server < p.nServer) :
    ∃ s', s.failOneServer p server = .ok s' ∧ Switched s server false s' := by
  obtain ⟨s₁, hs₁, -⟩ := onServer_switched s hlt false
  have hok : ∃ s', s.failOneServer p server = .ok s' := by
    unfold failOneServer
    dsimp only
    rw [hs₁]
    exact ⟨_, rfl⟩
  obtain ⟨s', hs'⟩ := hok
  exact ⟨s', hs', failOneServer_switched hs'⟩

theorem recoverOneServer_ok {server : Nat} (hlt : server < p.nServer)
    (hdown : (s.servers server).available = false) :
    ∃ s', s.recoverOneServer p server = .ok s' ∧ Switched s server true s' := by
  obtain ⟨s₁, hs₁, hsw⟩ := onServer_switched s hlt true
  unfold recoverOneServer
  rw [if_pos hlt, if_neg (by rw [hdown]; exact Bool.false_ne_true)]
  dsimp only
  rw [hs₁]
  exact ⟨_, rfl, hsw.servers, hsw.chMapping, hsw.prevChMapping⟩

theorem recoverOneServer_up {server : Nat} (hlt : server < p.nServer)
    (hup : (s.servers server).available = true) : s.recoverOneServer p server = .ok s := by
  unfold recoverOneServer
  rw [if_pos hlt, if_pos hup]

theorem Switched.available {server : Nat} {b : Bool} (h : Switched s server b s') (x : Nat) :
    (s'.servers x).available = if x = server then b else (s.servers x).available := by
  rw [h.servers]
  by_cases hx : x = server
  · rw [hx, Function.update_self, if_pos rfl]
  · rw [Function.update_of_ne hx, if_neg hx]

/-- The servers below `k` that are down. -/
def downServers (s : Cluster) (k : Nat) : List Nat :=
  (List.range k).filter fun x => !(s.servers x).available

/-- Every server that is down is recovered. -/
theorem recoverAll_ok {k : Nat} (hk : k ≤ p.nServer) (s : Cluster) :
    ∃ s', (List.range k).foldlM (recoverOneServer p) s = .ok s' ∧
      Reset s (downServers s k).length s' ∧
      ∀ x, (s'.servers x).available = (decide (x < k) || (s.servers x).available) := by
  induction k with
  | zero => exact ⟨s, rfl, .refl s, fun x => rfl⟩
  | succ k ih =>
    obtain ⟨s₁, hs₁, hreset, hav⟩ := ih (by omega)
    have hk₁ : (s₁.servers k).available = (s.servers k).available := by
      rw [hav, decide_eq_false (Nat.lt_irrefl k), Bool.false_or]
    have hsplit : ∀ x, decide (x < k + 1) = (decide (x < k) || decide (x = k)) := by
      intro x
      rw [← Bool.decide_or]
      exact decide_eq_decide.mpr (by omega)
    rw [List.range_succ, foldlM_concat hs₁, downServers, List.range_succ, List.filter_append,
      List.length_append]
    cases hdown : (s.servers k).available with
    | true =>
      refine ⟨s₁, ?_, ?_, fun x => ?_⟩
      · exact recoverOneServer_up hk (hk₁.trans hdown)
      · rw [List.filter_cons_of_neg (by simp [hdown])]
        exact hreset
      · rw [hav, hsplit]
        by_cases hx : x = k
        · rw [hx, hdown, Bool.or_true, Bool.or_true]
        · rw [decide_eq_false hx, Bool.or_false]
    | false =>
      obtain ⟨s', hs', hsw⟩ := recoverOneServer_ok hk (hk₁.trans hdown)
      refine ⟨s', hs', ?_, fun x => ?_⟩
      · rw [List.filter_cons_of_pos (by simp [hdown])]
        exact hreset.succ hsw.chMapping hsw.prevChMapping
      · rw [hsw.available, hav, hsplit]
        by_cases hx : x = k
        · rw [if_pos hx, decide_eq_true hx, Bool.or_true, Bool.true_or]
        · rw [if_neg hx, decide_eq_false hx, Bool.or_false]

/-- Every server of the list is failed, as often as it is in the list. -/
theorem failAll_ok {failed : List Nat} (hlt : ∀ x ∈ failed, x < p.nServer) (s : Cluster) :
    ∃ s', failed.foldlM (failOneServer p) s = .ok s' ∧ Reset s failed.length s' ∧
      ∀ x, (s'.servers x).available = ((s.servers x).available && decide (x ∉ failed)) := by
  induction failed using List.reverseRecOn with
  | nil => exact ⟨s, rfl, .refl s, fun x => by simp⟩
  | append_singleton failed y ih =>
    obtain ⟨s₁, hs₁, hreset, hav⟩ := ih fun x hx => hlt x (List.mem_append_left _ hx)
    obtain ⟨s', hs', hsw⟩ := failOneServer_ok (s := s₁)
      (hlt y (List.mem_append_right _ List.mem_cons_self))
    refine ⟨s', ?_, ?_, fun x => ?_⟩
    · rw [foldlM_concat hs₁]
      exact hs'
    · rw [List.length_append]
      exact hreset.succ hsw.chMapping hsw.prevChMapping
    · rw [hsw.available, hav]
      by_cases hx : x = y
      · rw [if_pos hx, hx]
        simp
      · rw [if_neg hx]
        simp [hx]

theorem lt_of_failAll {failed : List Nat} (h : failed.foldlM (failOneServer p) s = .ok s') :
    ∀ x ∈ failed, x < p.nServer := by
  induction failed generalizing s with
  | nil => nofun
  | cons y failed ih =>
    rw [List.foldlM_cons] at h
    obtain ⟨s₁, hs₁, h⟩ := bind_eq_ok h
    obtain ⟨s₂, hs₂, -⟩ := bind_eq_ok hs₁
    intro x hx
    rcases List.mem_cons.mp hx with rfl | hx
    · exact (onServer_eq_ok hs₂).1
    · exact ih h x hx

/-! ## Complete mappings -/

/-- Every bucket has servers. -/
def Complete (s : Cluster) : Prop := ∀ b < nBucket, ∃ idxs, s.chMapping b = some idxs

theorem populateBuckets_complete {l : List Nat} (sc : Cluster × (Nat → Nat))
    {r : Cluster × (Nat → Nat)} (h : l.foldlM (populateBucket p) sc = .ok r) {b : Nat}
    (hb : b ∈ l ∨ ∃ idxs, sc.1.chMapping b = some idxs) :
    ∃ idxs, r.1.chMapping b = some idxs := by
  induction l generalizing sc with
  | nil =>
    cases h
    exact hb.resolve_left (by simp)
  | cons c l ih =>
    rw [List.foldlM_cons] at h
    obtain ⟨sc₁, hsc₁, h⟩ := bind_eq_ok h
    obtain ⟨r₁, -, rfl⟩ := map_eq_ok hsc₁
    refine ih _ h ?_
    dsimp only
    by_cases hbc : b = c
    · rw [hbc, Function.update_self]
      exact .inr ⟨_, rfl⟩
    · rw [Function.update_of_ne hbc]
      exact hb.imp_left fun hmem => (List.mem_cons.mp hmem).resolve_left hbc

theorem applyFlow_complete {flow : Nat → Int} {arcs : List Arc} {mapping : Nat → Option (List Nat)}
    {b : Nat} (h : ∃ idxs, mapping b = some idxs) :
    ∃ idxs, applyFlow p flow arcs mapping b = some idxs := by
  rw [applyFlow_eq]
  refine List.foldlRecOn (motive := fun row : Option (List Nat) => ∃ idxs, row = some idxs) _ _ h ?_
  rintro _ ⟨idxs, rfl⟩ arc -
  exact ⟨_, rfl⟩

theorem populateHashMapping_complete (h : populateHashMapping p s = .ok s') : s'.Complete := by
  intro b hb
  obtain ⟨sc, hsc, h⟩ := bind_eq_ok h
  have hloop := populateBuckets_complete _ hsc (.inl (List.mem_range.mpr hb))
  split at h
  · unfold findParityMapping at h
    split at h
    · cases h
    · dsimp only at h
      split at h
      · cases h
      · cases h
        exact applyFlow_complete hloop
  · cases h
    exact hloop

/-- The mapping from before an update, after it. -/
theorem changeFailedServers_prev {failed : List Nat}
    (h : s.changeFailedServers p failed = .ok s') :
    s'.Complete ∧ (∀ x ∈ failed, x < p.nServer) ∧
    (∀ x < p.nServer, (s'.servers x).available = decide (x ∉ failed)) ∧
    s'.prevChMapping = if (downServers s p.nServer).length + failed.length = 0 then s.prevChMapping
      else if (downServers s p.nServer).length + failed.length = 1 then s.chMapping
      else fun _ => none := by
  obtain ⟨s₁, hs₁, hreset₁, hav₁⟩ := recoverAll_ok (Nat.le_refl p.nServer) s
  obtain ⟨s₁', hs₁', h⟩ := bind_eq_ok h
  obtain rfl : s₁ = s₁' := Except.ok.inj (hs₁.symm.trans hs₁')
  obtain ⟨s₂, hs₂, h⟩ := bind_eq_ok h
  have hlt := lt_of_failAll hs₂
  obtain ⟨s₂', hs₂', hreset₂, hav₂⟩ := failAll_ok hlt s₁
  obtain rfl : s₂ = s₂' := Except.ok.inj (hs₂.symm.trans hs₂')
  obtain ⟨hservers, hprev⟩ := populateHashMapping_servers h
  refine ⟨populateHashMapping_complete h, hlt, fun x hx => ?_, ?_⟩
  · rw [hservers, hav₂, hav₁, decide_eq_true hx, Bool.true_or, Bool.true_and]
  · rw [hprev]
    exact (hreset₁.trans hreset₂).prevChMapping

/-- An update that leaves enough servers up returns. -/
theorem changeFailedServers_ok {failed : List Nat} (hn : 0 < p.n) (hs : p.ring.Sorted)
    (hc : p.ring.Complete) (hreb : p.parityRebalance = false) (hlt : ∀ x ∈ failed, x < p.nServer)
    (henough : p.n + maxNUnavail ≤ ((List.range p.nServer).filter fun x => x ∉ failed).length)
    (s : Cluster) : ∃ s', s.changeFailedServers p failed = .ok s' := by
  obtain ⟨s₁, hs₁, -, hav₁⟩ := recoverAll_ok (Nat.le_refl p.nServer) s
  obtain ⟨s₂, hs₂, -, hav₂⟩ := failAll_ok hlt s₁
  have havail : availableServers p s₂ = (List.range p.nServer).filter fun x => x ∉ failed := by
    refine List.filter_congr fun x hx => ?_
    rw [hav₂, hav₁, decide_eq_true (List.mem_range.mp hx), Bool.true_or, Bool.true_and]
  obtain ⟨s', hs', -⟩ := populateHashMapping_plain hn hs hc (by rw [havail]; exact henough) hreb
  refine ⟨s', ?_⟩
  unfold changeFailedServers
  rw [hs₁]
  change (failed.foldlM (failOneServer p) s₁).bind _ = _
  rw [hs₂]
  exact hs'

end

end Cluster

/-! ## Runs of the thread -/

namespace Thread

section
variable {p : Params} {t t' : Thread}

/-- The servers that are down are those of the last list. -/
structure Inv (p : Params) (t : Thread) : Prop where
  complete : t.cluster.Complete
  lt : ∀ x ∈ t.prevFailedServers, x < p.nServer
  available : ∀ x < p.nServer,
    (t.cluster.servers x).available = decide (x ∉ t.prevFailedServers)

theorem Inv.unavailable_iff (H : Inv p t) (x : Nat) :
    x < p.nServer ∧ (t.cluster.servers x).available = false ↔ x ∈ t.prevFailedServers := by
  constructor
  · rintro ⟨hx, hdown⟩
    rw [H.available x hx] at hdown
    simpa using hdown
  · intro hx
    refine ⟨H.lt x hx, ?_⟩
    rw [H.available x (H.lt x hx)]
    simpa using hx

theorem Inv.length_downServers (H : Inv p t) :
    (t.cluster.downServers p.nServer).length = t.prevFailedServers.dedup.length := by
  refine ((List.perm_ext_iff_of_nodup (List.nodup_range.filter _) (List.nodup_dedup _)).mpr
    fun x => ?_).length_eq
  rw [List.mem_filter, List.mem_range, List.mem_dedup, ← H.unavailable_iff, Bool.not_eq_true']

/-- The cases of an availability update. -/
theorem updateAvailability_cases {now : Nat} (h : t.updateAvailability p now = .ok t') :
    t' = t ∨ ∃ failed rest, t.failureVectorDeque = failed :: rest ∧
      clusterUpdateInterval ≤ elapsed now t.lastClusterUnavailabilityUpdate ∧
      t'.prevFailedServers = failed ∧
      (failed = t.prevFailedServers ∧ t'.cluster = t.cluster ∨
        failed ≠ t.prevFailedServers ∧
          t.cluster.changeFailedServers p failed = .ok t'.cluster) := by
  unfold updateAvailability at h
  split at h
  · cases h; exact .inl rfl
  · next failed rest hdeque =>
    split at h
    · cases h; exact .inl rfl
    · next hdue =>
      obtain ⟨cluster, hcluster, rfl⟩ := map_eq_ok h
      refine .inr ⟨failed, rest, hdeque, Nat.le_of_not_lt hdue, rfl, ?_⟩
      by_cases hne : failed = t.prevFailedServers
      · rw [if_neg fun h => h hne] at hcluster
        cases hcluster
        exact .inl ⟨hne, rfl⟩
      · rw [if_pos hne] at hcluster
        exact .inr ⟨hne, hcluster⟩

theorem Inv.updateAvailability {now : Nat} (H : Inv p t)
    (h : t.updateAvailability p now = .ok t') : Inv p t' := by
  rcases updateAvailability_cases h with rfl | ⟨failed, rest, -, -, hprev, h⟩
  · exact H
  · rcases h with ⟨rfl, hcluster⟩ | ⟨-, hchange⟩
    · refine ⟨?_, ?_, ?_⟩
      · rw [hcluster]; exact H.complete
      · rw [hprev]; exact H.lt
      · rw [hcluster, hprev]; exact H.available
    · obtain ⟨hcomplete, hlt, hav, -⟩ := Cluster.changeFailedServers_prev hchange
      rw [← hprev] at hlt hav
      exact ⟨hcomplete, hlt, hav⟩

/-- A request leaves the servers up or down as they are. -/
theorem Inv.get (H : Inv p t) {req : Request} {d : Cluster.Draws} {r : Cluster × ClusterHit}
    (h : t.cluster.get p req d = .ok r) : Inv p { t with cluster := r.1, vtime := t.vtime + 1 } := by
  obtain ⟨m, -, hserved⟩ := Cluster.get_ends.ok h
  obtain ⟨ws, heff⟩ := hserved.effect
  refine ⟨fun b hb => ?_, H.lt, fun x hx => ?_⟩
  · rw [heff.chMapping]
    exact H.complete b hb
  · rw [heff.writes.available]
    exact H.available x hx

theorem Inv.log (H : Inv p t) (logInterval now : Nat) : Inv p (t.log p logInterval now) := by
  unfold Thread.log
  split
  · exact ⟨H.complete, H.lt, H.available⟩
  · exact H

theorem Inv.step {logInterval : Nat} {a : Arrival} (H : Inv p t)
    (h : t.step p logInterval a = .ok t') : Inv p t' := by
  obtain ⟨t₁, ht₁, h⟩ := bind_eq_ok h
  obtain ⟨r, hr, h⟩ := bind_eq_ok h
  cases h
  exact ((H.updateAvailability ht₁).get hr).log logInterval a.realTime

theorem inv_start {failures : List (List Nat)} {startTime : Nat} {t₀ : Thread}
    (hstart : start p failures startTime = .ok t₀) : Inv p t₀ := by
  obtain ⟨cluster, hnew, rfl⟩ := map_eq_ok hstart
  refine ⟨Cluster.populateHashMapping_complete hnew, nofun, fun x _ => ?_⟩
  dsimp only
  rw [Cluster.new_servers hnew]
  rfl

theorem inv_run {failures : List (List Nat)} {startTime logInterval : Nat} {t₀ : Thread}
    {arrivals : List Arrival} (hstart : start p failures startTime = .ok t₀)
    (hrun : run p logInterval arrivals t₀ = .ok t) : Inv p t :=
  inv_of_run (fun _ _ _ H h => H.step h) (inv_start hstart) hrun

/-- **The previous mapping** after an update is the one from before it if and only if the update
fails one server while none is down, or recovers the only one that is down. -/
theorem prevChMapping_iff {failures : List (List Nat)} {startTime logInterval now : Nat}
    {t₀ : Thread} {arrivals : List Arrival}
    (hstart : start p failures startTime = .ok t₀)
    (hrun : run p logInterval arrivals t₀ = .ok t)
    (hupdate : t.updateAvailability p now = .ok t')
    (hchanged : t'.prevFailedServers ≠ t.prevFailedServers) :
    t.cluster.Complete ∧
    (t'.cluster.prevChMapping = t.cluster.chMapping ↔
      t.prevFailedServers.dedup.length + t'.prevFailedServers.length = 1) := by
  have H := inv_run hstart hrun
  refine ⟨H.complete, ?_⟩
  rcases updateAvailability_cases hupdate with rfl | ⟨failed, rest, -, -, hprev, h⟩
  · exact absurd rfl hchanged
  · rw [hprev] at hchanged ⊢
    rcases h with ⟨heq, -⟩ | ⟨-, hchange⟩
    · exact absurd heq hchanged
    · obtain ⟨-, -, -, hmapping⟩ := Cluster.changeFailedServers_prev hchange
      rw [H.length_downServers] at hmapping
      rw [hmapping]
      -- a mapping that has been reset is not complete
      obtain ⟨idxs, hidxs⟩ := H.complete 0 (by decide)
      split
      · next hzero =>
        have hnil : t.prevFailedServers.dedup = [] := List.length_eq_zero_iff.mp (by omega)
        have hfailed : failed = [] := List.length_eq_zero_iff.mp (by omega)
        exact absurd (hfailed.trans ((List.dedup_eq_nil _).mp hnil).symm) hchanged
      · split
        · next hone => exact ⟨fun _ => hone, fun _ => rfl⟩
        · next hmany =>
          refine ⟨fun h => ?_, fun h => absurd h hmany⟩
          rw [← h] at hidxs
          cases hidxs

/-- The first update of a thread whose cluster has enough servers. -/
theorem exists_update (failed : List Nat) (hn : 0 < p.n) (hs : p.ring.Sorted)
    (hc : p.ring.Complete) (hreb : p.parityRebalance = false) (hne : failed ≠ [])
    (hlt : ∀ x ∈ failed, x < p.nServer)
    (henough : p.n + maxNUnavail ≤ ((List.range p.nServer).filter fun x => x ∉ failed).length) :
    ∃ t₀ t₁, start p [failed] 0 = .ok t₀ ∧
      t₀.updateAvailability p clusterUpdateInterval = .ok t₁ ∧ t₀.prevFailedServers = [] ∧
      t₁.prevFailedServers = failed ∧
      t₀.cluster.changeFailedServers p failed = .ok t₁.cluster := by
  have hall : p.n + maxNUnavail ≤ (List.range p.nServer).length :=
    Nat.le_trans henough (List.length_filter_le _ _)
  obtain ⟨s₀, hs₀, -⟩ := Cluster.populateHashMapping_plain hn hs hc
    (s := { servers := fun i => ⟨.init p.alg (p.cacheSizes i), true⟩
            chMapping := fun _ => none
            prevChMapping := fun _ => none
            oriLeadMapping := fun _ => 0
            nBucketPerServer := fun _ => 0
            objFreqMap := fun _ => 0
            readLoadByte := fun _ => 0
            writeLoadByte := fun _ => 0
            stat := ⟨p.nServer, 0, 0, 0, 0, 0, 0, 0, 0, fun _ => 0, 0, 0⟩
            bucketStat := fun _ => ⟨0, 0, 0, 0⟩ })
    (by rw [Cluster.availableServers, List.filter_eq_self.mpr fun _ _ => rfl]; exact hall) hreb
  obtain ⟨s₁, hs₁⟩ := Cluster.changeFailedServers_ok hn hs hc hreb hlt henough s₀
  have hstart : start p [failed] 0 = .ok ⟨s₀, [failed], [], 0, 0, 0⟩ := by
    unfold start Cluster.new
    rw [hs₀]
    rfl
  refine ⟨_, ⟨s₁, [], failed, clusterUpdateInterval, 0, 0⟩, hstart, ?_, rfl, rfl, hs₁⟩
  unfold updateAvailability
  dsimp only
  rw [if_neg (by decide), if_pos hne, hs₁]
  rfl

end

/-- One of seven servers fails: the mapping from before is the previous one. -/
theorem one_failure_prevChMapping : ∃ t₀ t₁,
    start (lineParams .c2dn 3 2 7 (by decide)) [[0]] 0 = .ok t₀ ∧
    t₀.updateAvailability (lineParams .c2dn 3 2 7 (by decide)) clusterUpdateInterval = .ok t₁ ∧
    t₀.cluster.Complete ∧ t₁.cluster.prevChMapping = t₀.cluster.chMapping := by
  obtain ⟨t₀, t₁, hstart, hupdate, hprev₀, hprev₁, -⟩ := exists_update [0]
    (p := lineParams .c2dn 3 2 7 (by decide)) (by decide) (Cluster.sorted_lineRing (by decide))
    (Cluster.complete_lineRing (by decide)) rfl (by decide) (by decide) (by decide)
  obtain ⟨hcomplete, hiff⟩ := prevChMapping_iff hstart
    (rfl : run (lineParams .c2dn 3 2 7 (by decide)) 0 [] t₀ = .ok t₀) hupdate
    (by rw [hprev₀, hprev₁]; decide)
  refine ⟨t₀, t₁, hstart, hupdate, hcomplete, hiff.mpr ?_⟩
  rw [hprev₀, hprev₁]
  rfl

/-- Two servers fail: nothing is left of the mapping from before. -/
theorem two_failures_prevChMapping : ∃ t₀ t₁,
    start (lineParams .c2dn 3 2 7 (by decide)) [[0, 1]] 0 = .ok t₀ ∧
    t₀.updateAvailability (lineParams .c2dn 3 2 7 (by decide)) clusterUpdateInterval = .ok t₁ ∧
    t₀.cluster.Complete ∧ t₁.cluster.prevChMapping ≠ t₀.cluster.chMapping ∧
    t₁.cluster.prevChMapping = fun _ => none := by
  obtain ⟨t₀, t₁, hstart, hupdate, hprev₀, -, hchange⟩ := exists_update [0, 1]
    (p := lineParams .c2dn 3 2 7 (by decide)) (by decide) (Cluster.sorted_lineRing (by decide))
    (Cluster.complete_lineRing (by decide)) rfl (by decide) (by decide) (by decide)
  have H := inv_run hstart (rfl : run (lineParams .c2dn 3 2 7 (by decide)) 0 [] t₀ = .ok t₀)
  obtain ⟨-, -, -, hmapping⟩ := Cluster.changeFailedServers_prev hchange
  rw [H.length_downServers, hprev₀] at hmapping
  refine ⟨t₀, t₁, hstart, hupdate, H.complete, fun heq => ?_, hmapping⟩
  obtain ⟨idxs, hidxs⟩ := H.complete 0 (by decide)
  rw [← heq, hmapping] at hidxs
  cases hidxs

end Thread

end C2DN.Simulator
