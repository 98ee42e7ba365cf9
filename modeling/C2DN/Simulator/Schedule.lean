import C2DN.Simulator.Statistics
import C2DN.Simulator.Thread

/-!
# The failure schedule

Line `i` of the failure file lists the servers that are down in the `i`th interval of five minutes.
`cacheClusterThread::run` takes the lines one by one: it takes the next line at the first request that
comes an interval after the request at which it has taken the last one. So the first line is in force
from the second interval on, and every gap between requests delays all lines behind it. What is in
force at a request is said here by the times of the trace alone (`lineInForce`).
-/

namespace C2DN.Simulator

/-! ## The failure file -/

/-- `isspace`. -/
def isSpace (c : Char) : Bool := c = ' ' ∨ 9 ≤ c.toNat ∧ c.toNat ≤ 13

/-- `std::stoi`: an exception without a digit and outside the range of `int`. What follows the digits
is ignored. -/
def stoi (text : List Char) : Option Int :=
  let (neg, text) := match text.dropWhile isSpace with
    | '-' :: text => (true, text)
    | '+' :: text => (false, text)
    | text => (false, text)
  let digits := text.takeWhile Char.isDigit
  let value := digits.foldl (fun n d => 10 * n + (d.toNat - '0'.toNat)) 0
  if digits = [] then none
  else if neg then if value ≤ 2 ^ 31 then some (-value) else none
  else if value < 2 ^ 31 then some value else none

/-- A line of the file; `fail_one_server` takes an id as `unsigned int`. -/
def failedServersOf (line : List Char) : Option (List Nat) :=
  if line = [] then some []
  else (line.splitOn ' ').mapM fun text => (stoi text).map fun id => (id % 2 ^ 32).toNat

/-- `load_failure_data`. -/
def loadFailureData (lines : List (List Char)) : Option (List (List Nat)) :=
  lines.mapM failedServersOf

namespace Thread

/-! ## The lines that a trace takes -/

/-- A request at `now`: the number of lines that have been taken, and when the last one was. -/
def takeLine (taken : Nat × Nat) (now : Nat) : Nat × Nat :=
  if clusterUpdateInterval ≤ now - taken.2 then (taken.1 + 1, now) else taken

def linesTaken (startTime : Nat) (times : List Nat) : Nat × Nat := times.foldl takeLine (0, startTime)

/-- The line that has been taken last, which is empty before the first one. -/
def lastLine (failures : List (List Nat)) : Nat → List Nat
  | 0 => []
  | n + 1 => failures.getD n []

/-- The line that is in force after requests at these times. -/
def lineInForce (failures : List (List Nat)) (startTime : Nat) (times : List Nat) : List Nat :=
  lastLine failures (linesTaken startTime times).1

/-- The servers that are down at `now` are those of the line of the interval of `now`, if there is
such a line. -/
def OnSchedule (p : Params) (failures : List (List Nat)) (startTime now : Nat) (t : Thread) : Prop :=
  ∀ line, failures[(now - startTime) / clusterUpdateInterval]? = some line →
    ∀ x, x < p.nServer ∧ (t.cluster.servers x).available = false ↔ x ∈ line

/-- The thread before the first request, with the lines of the failure file. -/
structure Begins (p : Params) (lines : List (List Char)) (failures : List (List Nat))
    (startTime : Nat) (t : Thread) : Prop where
  load : loadFailureData lines = some failures
  start : Thread.start p failures startTime = .ok t

section
variable {p : Params} {t t' : Thread} {failures : List (List Nat)} {startTime logInterval now : Nat}
  {taken : Nat × Nat} {times : List Nat}

theorem elapsed_eq {last : Nat} (hle : last ≤ now) (hlt : now < 2 ^ 64) :
    elapsed now last = now - last := by
  unfold elapsed
  omega

/-- The thread has taken these lines. When all lines are taken, `n` goes on without it. -/
structure Taken (failures : List (List Nat)) (taken : Nat × Nat) (t : Thread) : Prop where
  deque : t.failureVectorDeque = failures.drop taken.1
  prev : t.prevFailedServers = lastLine failures (min taken.1 failures.length)
  last : taken.1 < failures.length → t.lastClusterUnavailabilityUpdate = taken.2

theorem Taken.updateAvailability (H : Taken failures taken t) (hle : taken.2 ≤ now)
    (hlt : now < 2 ^ 64) (h : t.updateAvailability p now = .ok t') :
    Taken failures (takeLine taken now) t' := by
  unfold Thread.updateAvailability at h
  split at h
  · next hnil =>
    cases h
    -- nothing is left to take
    have hlen : failures.length ≤ taken.1 := by
      rw [H.deque] at hnil
      exact List.drop_eq_nil_iff.mp hnil
    unfold takeLine
    split
    · refine ⟨?_, ?_, fun h => ?_⟩
      · rw [hnil]
        exact (List.drop_eq_nil_iff.mpr (Nat.le_succ_of_le hlen)).symm
      · rw [H.prev, Nat.min_eq_right hlen, Nat.min_eq_right (Nat.le_succ_of_le hlen)]
      · exact absurd (Nat.lt_of_succ_lt h) (Nat.not_lt.mpr hlen)
    · exact H
  · next failed rest hcons =>
    have hdrop := H.deque.symm.trans hcons
    have hlen : taken.1 < failures.length := by
      by_contra hlen
      rw [List.drop_eq_nil_iff.mpr (Nat.not_lt.mp hlen)] at hdrop
      cases hdrop
    rw [H.last hlen, elapsed_eq hle hlt] at h
    unfold takeLine
    split at h
    · next hdue =>
      cases h
      rw [if_neg (Nat.not_le.mpr hdue)]
      exact H
    · next hdue =>
      rw [if_pos (Nat.le_of_not_lt hdue)]
      obtain ⟨cluster, -, rfl⟩ := map_eq_ok h
      rw [List.drop_eq_getElem_cons hlen] at hdrop
      obtain ⟨hfailed, hrest⟩ := List.cons.inj hdrop
      refine ⟨hrest.symm, ?_, fun _ => rfl⟩
      rw [Nat.min_eq_left hlen, lastLine, List.getD_eq_getElem?_getD, List.getElem?_eq_getElem hlen]
      exact hfailed.symm

theorem Taken.step {a : Arrival} (H : Taken failures taken t) (hle : taken.2 ≤ a.realTime)
    (hlt : a.realTime < 2 ^ 64) (h : t.step p logInterval a = .ok t') :
    Taken failures (takeLine taken a.realTime) t' := by
  obtain ⟨t₁, ht₁, h⟩ := bind_eq_ok h
  obtain ⟨r, -, h⟩ := bind_eq_ok h
  cases h
  have H₁ := H.updateAvailability hle hlt ht₁
  unfold log
  split
  · exact ⟨H₁.deque, H₁.prev, H₁.last⟩
  · exact ⟨H₁.deque, H₁.prev, H₁.last⟩

/-- The last line was taken at one of the times. -/
theorem takeLine_le (hle : taken.2 ≤ now) : (takeLine taken now).2 ≤ now := by
  unfold takeLine
  split
  · exact Nat.le_refl _
  · exact hle

theorem Taken.run {arrivals : List Arrival} (H : Taken failures taken t)
    (hsorted : (taken.2 :: arrivals.map (·.realTime)).Pairwise (· ≤ ·))
    (hlt : ∀ a ∈ arrivals, a.realTime < 2 ^ 64) (h : run p logInterval arrivals t = .ok t') :
    Taken failures ((arrivals.map (·.realTime)).foldl takeLine taken) t' := by
  induction arrivals generalizing t taken with
  | nil => cases h; exact H
  | cons a arrivals ih =>
    unfold Thread.run at h
    rw [List.foldlM_cons] at h
    obtain ⟨t₁, ht₁, h⟩ := bind_eq_ok h
    rw [List.map_cons, List.pairwise_cons, List.pairwise_cons] at hsorted
    obtain ⟨hfirst, hnext, hrest⟩ := hsorted
    have hle := hfirst _ List.mem_cons_self
    refine ih (H.step hle (hlt a List.mem_cons_self) ht₁) (List.pairwise_cons.mpr ⟨?_, hrest⟩)
      (fun b hb => hlt b (List.mem_cons_of_mem _ hb)) h
    exact fun now hnow => Nat.le_trans (takeLine_le hle) (hnext now hnow)

theorem le_of_sorted (hsorted : (startTime :: (times ++ [now])).Pairwise (· ≤ ·)) {b : Nat}
    (hb : b ∈ startTime :: times) : b ≤ now := by
  rw [← List.cons_append, List.pairwise_append] at hsorted
  exact hsorted.2.2 b hb now List.mem_cons_self

theorem linesTaken_snd_le (hsorted : (startTime :: (times ++ [now])).Pairwise (· ≤ ·)) :
    (linesTaken startTime times).2 ≤ now := by
  refine List.foldlRecOn (motive := fun taken : Nat × Nat => taken.2 ≤ now) _ _
    (le_of_sorted hsorted List.mem_cons_self) fun taken h b hb => ?_
  unfold takeLine
  split
  · exact le_of_sorted hsorted (List.mem_cons_of_mem _ hb)
  · exact h

/-- Every line that has been taken has cost an interval. -/
theorem takeLine_cost (h : taken.1 * clusterUpdateInterval + startTime ≤ taken.2) :
    (takeLine taken now).1 * clusterUpdateInterval + startTime ≤ (takeLine taken now).2 := by
  unfold takeLine
  split
  · next hdue =>
    have hpos : 0 < clusterUpdateInterval := by decide
    rw [Nat.succ_mul]
    dsimp only
    omega
  · exact h

/-- **A line is late.** Only lines of earlier intervals have been taken. -/
theorem linesTaken_le (hsorted : (startTime :: (times ++ [now])).Pairwise (· ≤ ·)) :
    (linesTaken startTime (times ++ [now])).1 ≤ (now - startTime) / clusterUpdateInterval := by
  have hcost : (linesTaken startTime (times ++ [now])).1 * clusterUpdateInterval + startTime ≤
      (linesTaken startTime (times ++ [now])).2 :=
    List.foldlRecOn (motive := fun taken : Nat × Nat =>
      taken.1 * clusterUpdateInterval + startTime ≤ taken.2) _ _ (by simp)
      fun taken h now _ => takeLine_cost h
  have hnow : (linesTaken startTime (times ++ [now])).2 ≤ now := by
    rw [linesTaken, List.foldl_append]
    exact takeLine_le (linesTaken_snd_le hsorted)
  exact (Nat.le_div_iff_mul_le (by decide)).mpr (by omega)

/-- The servers that are down at a request are those of the line in force. -/
theorem unavailable_iff {t₀ t₁ : Thread} {arrivals : List Arrival}
    (hstart : start p failures startTime = .ok t₀)
    (hsorted : (startTime :: (arrivals.map (·.realTime) ++ [now])).Pairwise (· ≤ ·))
    (hlt : now < 2 ^ 64) (hrun : run p logInterval arrivals t₀ = .ok t)
    (hupdate : t.updateAvailability p now = .ok t₁)
    (hline : (now - startTime) / clusterUpdateInterval < failures.length) (x : Nat) :
    x < p.nServer ∧ (t₁.cluster.servers x).available = false ↔
      x ∈ lineInForce failures startTime (arrivals.map (·.realTime) ++ [now]) := by
  have H₁ := (inv_run hstart hrun).updateAvailability hupdate
  have htaken : Taken failures (linesTaken startTime (arrivals.map (·.realTime) ++ [now])) t₁ := by
    obtain ⟨cluster, -, rfl⟩ := map_eq_ok hstart
    have htaken := Taken.run (⟨rfl, by rw [Nat.zero_min]; rfl, fun _ => rfl⟩ :
        Taken failures (0, startTime) ⟨cluster, failures, [], startTime, startTime, 0⟩)
      (List.pairwise_append.mp (List.cons_append .. ▸ hsorted)).1
      (fun a ha => Nat.lt_of_le_of_lt
        (le_of_sorted hsorted (List.mem_cons_of_mem _ (List.mem_map_of_mem ha))) hlt) hrun
    rw [linesTaken, List.foldl_append]
    exact htaken.updateAvailability (linesTaken_snd_le hsorted) hlt hupdate
  have hle := linesTaken_le hsorted
  have hprev := htaken.prev
  rw [Nat.min_eq_left (by omega)] at hprev
  rw [lineInForce, ← hprev]
  exact H₁.unavailable_iff x

/-- **The schedule.** A request is served on schedule if and only if the line in force lists the same
servers as the line of its interval. -/
theorem onSchedule_iff {t₀ t₁ : Thread} {lines : List (List Char)} {arrivals : List Arrival}
    (hbegin : Begins p lines failures startTime t₀)
    (hsorted : (startTime :: (arrivals.map (·.realTime) ++ [now])).Pairwise (· ≤ ·))
    (hlt : now < 2 ^ 64) (hrun : run p logInterval arrivals t₀ = .ok t)
    (hupdate : t.updateAvailability p now = .ok t₁) :
    OnSchedule p failures startTime now t₁ ↔
      ∀ line, failures[(now - startTime) / clusterUpdateInterval]? = some line →
        ∀ x, x ∈ lineInForce failures startTime (arrivals.map (·.realTime) ++ [now]) ↔ x ∈ line := by
  refine forall_congr' fun line => forall_congr' fun hline => forall_congr' fun x => ?_
  rw [unavailable_iff hbegin.start hsorted hlt hrun hupdate (List.getElem?_eq_some_iff.mp hline).1]

end

/-- A request at this time. -/
def arrivalAt (realTime : Nat) : Arrival := ⟨realTime, .ofSize 1 10 (.refl true), ⟨0, 0, 0⟩⟩

/-- The threads after the start, after requests at `times` and before a request at `now`. -/
def upTo (p : Params) (failures : List (List Nat)) (times : List Nat) (now : Nat) :
    Except Fault (Thread × Thread × Thread) := do
  let t₀ ← start p failures 0
  let t ← run p 0 (times.map arrivalAt) t₀
  let t₁ ← t.updateAvailability p now
  .ok (t₀, t, t₁)

theorem upTo_eq_ok {p : Params} {failures : List (List Nat)} {times : List Nat} {now : Nat}
    {r : Thread × Thread × Thread} (h : upTo p failures times now = .ok r) :
    start p failures 0 = .ok r.1 ∧ run p 0 (times.map arrivalAt) r.1 = .ok r.2.1 ∧
      r.2.1.updateAvailability p now = .ok r.2.2 := by
  obtain ⟨t₀, ht₀, h⟩ := bind_eq_ok h
  obtain ⟨t, ht, h⟩ := bind_eq_ok h
  obtain ⟨t₁, ht₁, h⟩ := bind_eq_ok h
  cases h
  exact ⟨ht₀, ht, ht₁⟩

/-- Server 0 is down in all intervals: the third one is on schedule. -/
theorem sameLine_onSchedule : ∃ t₀ t t₁,
    Begins (lineParams .c2dn 3 2 7 (by decide)) [['0'], ['0'], ['0']] [[0], [0], [0]] 0 t₀ ∧
    run (lineParams .c2dn 3 2 7 (by decide)) 0 ([0, 300].map arrivalAt) t₀ = .ok t ∧
    t.updateAvailability (lineParams .c2dn 3 2 7 (by decide)) 600 = .ok t₁ ∧
    OnSchedule (lineParams .c2dn 3 2 7 (by decide)) [[0], [0], [0]] 0 600 t₁ := by
  obtain ⟨r, hr, -⟩ := exists_ok_of_any (q := fun _ => true)
    (x := upTo (lineParams .c2dn 3 2 7 (by decide)) [[0], [0], [0]] [0, 300] 600) (by decide +kernel)
  obtain ⟨hstart, hrun, hupdate⟩ := upTo_eq_ok hr
  have hbegin : Begins _ [['0'], ['0'], ['0']] _ 0 r.1 := ⟨by decide +kernel, hstart⟩
  refine ⟨r.1, r.2.1, r.2.2, hbegin, hrun, hupdate, ?_⟩
  refine (onSchedule_iff hbegin (by decide) (by decide) hrun hupdate).mpr fun line hline x => ?_
  obtain rfl : [0] = line := Option.some.inj hline
  exact Iff.rfl

/-- Two traces that start at 0: at 600 one finds server 1 down, the other one server 0, and line 2
lists server 2. -/
theorem lines_drift : ∃ t₀ t t₁ u u₁,
    Begins (lineParams .c2dn 3 2 7 (by decide)) [['0'], ['1'], ['2']] [[0], [1], [2]] 0 t₀ ∧
    run (lineParams .c2dn 3 2 7 (by decide)) 0 ([0, 300].map arrivalAt) t₀ = .ok t ∧
    t.updateAvailability (lineParams .c2dn 3 2 7 (by decide)) 600 = .ok t₁ ∧
    run (lineParams .c2dn 3 2 7 (by decide)) 0 ([0].map arrivalAt) t₀ = .ok u ∧
    u.updateAvailability (lineParams .c2dn 3 2 7 (by decide)) 600 = .ok u₁ ∧
    (t₁.cluster.servers 0).available ≠ (u₁.cluster.servers 0).available ∧
    ¬ OnSchedule (lineParams .c2dn 3 2 7 (by decide)) [[0], [1], [2]] 0 600 t₁ ∧
    ¬ OnSchedule (lineParams .c2dn 3 2 7 (by decide)) [[0], [1], [2]] 0 600 u₁ := by
  obtain ⟨r, hr, hrq⟩ := exists_ok_of_any
    (q := fun r : Thread × Thread × Thread =>
      decide ((r.2.2.cluster.servers 0).available = true ∧ (r.2.2.cluster.servers 2).available = true))
    (x := upTo (lineParams .c2dn 3 2 7 (by decide)) [[0], [1], [2]] [0, 300] 600) (by decide +kernel)
  obtain ⟨r', hr', hrq'⟩ := exists_ok_of_any
    (q := fun r : Thread × Thread × Thread =>
      decide ((r.2.2.cluster.servers 0).available = false ∧ (r.2.2.cluster.servers 2).available = true))
    (x := upTo (lineParams .c2dn 3 2 7 (by decide)) [[0], [1], [2]] [0] 600) (by decide +kernel)
  obtain ⟨hstart, hrun, hupdate⟩ := upTo_eq_ok hr
  obtain ⟨hstart', hrun', hupdate'⟩ := upTo_eq_ok hr'
  obtain ⟨h0, h2⟩ := of_decide_eq_true hrq
  obtain ⟨h0', h2'⟩ := of_decide_eq_true hrq'
  have heq : r'.1 = r.1 := Except.ok.inj (hstart'.symm.trans hstart)
  have hlate : ∀ t₁ : Thread, (t₁.cluster.servers 2).available = true →
      ¬ OnSchedule (lineParams .c2dn 3 2 7 (by decide)) [[0], [1], [2]] 0 600 t₁ := by
    intro t₁ hup hon
    obtain ⟨-, hdown⟩ := (hon [2] rfl 2).mpr List.mem_cons_self
    exact nomatch hdown.symm.trans hup
  refine ⟨r.1, r.2.1, r.2.2, r'.2.1, r'.2.2, ⟨by decide +kernel, hstart⟩, hrun, hupdate,
    heq ▸ hrun', hupdate', ?_, hlate _ h2, hlate _ h2'⟩
  rw [h0, h0']
  exact Bool.false_ne_true.symm

end Thread

end C2DN.Simulator
