import C2DN.Lib.Pool
import C2DN.Simulator.MissRatioCurve

/-!
# Runs of the miss ratio curve

Whatever the order in which the threads take their steps, a simulation gives what it gives on its own. A
task is in the queue, with one thread, or done; the threads write to elements of `result` of their own, and
`progress` counts the tasks that are neither queued nor with a thread that has yet to count. Every step of
a thread uses up a part of a budget, so the threads end, and `main` gets past its loop.
-/

namespace C2DN.Simulator.MissRatioCurve

open Monitor

section
variable {R C : Type} {p : Params R C} {warm trace : List (Nat × Nat)} {res : Nat → Counts}

/-! ## The sizes in the message -/

/-- The largest unit that a size reaches. -/
def sizeUnit (size : Nat) : Nat :=
  if tiB ≤ size then tiB else if giB ≤ size then giB else if miB ≤ size then miB else kiB

theorem roundEven_lt_thousand {x : ℚ} : roundEven x < 1000 ↔ 2 * x < 1999 := by
  constructor
  · intro h
    by_contra! hx
    have htie : roundEven (1999 / 2) = 1000 := by decide +kernel
    have hmono : roundEven (1999 / 2) ≤ roundEven x := roundEven_mono (by linarith)
    omega
  · intro h
    have hle : (roundEven x : ℚ) < (1000 : Int) := by
      push_cast
      linarith [roundEven_le x]
    exact Int.cast_lt.mp hle

/-- A size of 2 ^ 53 or more is rounded, but has more than three digits in every unit. -/
theorem roundTo_div_lt {size unit : Nat} (hpos : 0 < unit) (hunit : 1000 * unit ≤ 2 ^ 53) :
    2 * (roundTo 53 size / unit) < 1999 ↔ 2 * size < 1999 * unit := by
  have hpos' : (0 : ℚ) < unit := Nat.cast_pos.mpr hpos
  rw [← mul_div_assoc, div_lt_iff₀ hpos']
  by_cases hsize : size < 2 ^ 53
  · rw [roundTo_natCast hsize]
    exact_mod_cast Iff.rfl
  · refine iff_of_false ?_ (by omega)
    have hmono : roundTo 53 (2 ^ 53 : Nat) ≤ roundTo 53 size :=
      roundTo_mono (by decide) (Nat.cast_nonneg _) (Nat.cast_le.mpr (Nat.le_of_not_lt hsize))
    have hexact : roundTo 53 (2 ^ 53 : Nat) = (2 ^ 53 : Nat) := by decide +kernel
    have hunit' : (1000 : ℚ) * unit ≤ (2 ^ 53 : Nat) := by exact_mod_cast hunit
    rw [hexact] at hmono
    linarith

theorem length_sprintfUnit {size unit : Nat} (hpos : 0 < unit) (hunit : 1000 * unit ≤ 2 ^ 53)
    {name : List Char} (hname : name.length = 3) :
    (sprintfUnit size unit name).length + 1 ≤ 8 ↔ 2 * size < 1999 * unit := by
  rw [← roundTo_div_lt hpos hunit, ← roundEven_lt_thousand, sprintfUnit, if_neg (by omega), List.nil_append,
    List.length_append, List.length_cons, hname]
  have hdigits := Nat.length_toDigits_le_iff (n := (roundEven (roundTo 53 size / unit)).toNat)
    (by decide : 1 < 10) (by decide : 0 < 3)
  rw [Int.natAbs_natCast]
  omega

/-- What fits: a size below 1 KiB, and a size that is less than 999.5 of its unit. -/
theorem fitsStr_iff {size : Nat} (hsize : size < 2 ^ 63) :
    fitsStr size = true ↔ size < kiB ∨ 2 * size < 1999 * sizeUnit size := by
  have hbmod : (size : Int).bmod (2 ^ 64) = size := Int.bmod_eq_of_le (by omega) (by omega)
  have hmod : ((size : Int) % 2 ^ 64).toNat = size := by omega
  rw [fitsStr, decide_eq_true_iff, hbmod, convertSizeToStr, hmod, sizeUnit]
  split_ifs with htiB hgiB hmiB hkiB
  · rw [length_sprintfUnit (by decide) (by decide) rfl]
    exact (or_iff_right (by unfold tiB kiB at *; omega)).symm
  · rw [length_sprintfUnit (by decide) (by decide) rfl]
    exact (or_iff_right (by unfold giB kiB at *; omega)).symm
  · rw [length_sprintfUnit (by decide) (by decide) rfl]
    exact (or_iff_right (by unfold miB kiB at *; omega)).symm
  · rw [length_sprintfUnit (by decide) (by decide) rfl]
    exact (or_iff_right (by omega)).symm
  · have hlt : size < kiB := by omega
    have hdigits : (Nat.toDigits 10 size).length ≤ 4 :=
      (Nat.length_toDigits_le_iff (by decide) (by decide)).mpr (hlt.trans (by decide))
    exact iff_of_true (by omega) (.inl hlt)

/-! ## What a reader delivers -/

/-- The objects of the requests from the current one on. -/
inductive Pending (p : Params R C) : R → TraceReq → List (Nat × Nat) → Prop
  | nil {reader : R} {req : TraceReq} (h : req.valid = false) : Pending p reader req []
  | cons {reader reader' : R} {req req' : TraceReq} {objs : List (Nat × Nat)} (h : req.valid = true)
      (hread : p.readOneReq reader req = .ok (reader', req')) (hobjs : Pending p reader' req' objs) :
      Pending p reader req ((req.objId.toNat, req.objSize.toNat) :: objs)

def Delivers (p : Params R C) (reader : R) (objs : List (Nat × Nat)) : Prop :=
  ∀ req, ∃ reader' req', p.readOneReq reader req = .ok (reader', req') ∧ Pending p reader' req' objs

/-- What a trace does to a cache after its warm-up with other requests. -/
def onTrace (p : Params R C) (nWarmup : Nat) (cache : C) (objs : List (Nat × Nat)) :
    Except MemFault Counts :=
  (warmUp p cache (objs.take nWarmup)).bind fun cache => measure p cache ⟨0, 0, 0, 0⟩ (objs.drop nWarmup)

/-- The readers deliver `warm` and `trace`, and `res` has the counters for every size. -/
structure Setting (p : Params R C) (warm trace : List (Nat × Nat)) (res : Nat → Counts) : Prop where
  reads : Delivers p (p.cloneReader p.reader) trace
  warms : ∀ reader ∈ p.warmupReader, Delivers p (p.cloneReader reader) warm
  noWarm : p.warmupReader = none → warm = []
  simulates : ∀ size ∈ p.cacheSizes, simulate p warm trace size = .ok (res size)

theorem read_ok {reader reader' : R} {req req' : TraceReq}
    (h : p.readOneReq reader req = .ok (reader', req')) : p.read reader req = .ok (reader', req') := by
  rw [Params.read, h]
  rfl

theorem request_ok {cache cache' : C} {req : TraceReq} {hit : Bool}
    (h : p.get cache req.objId.toNat req.objSize.toNat = .ok (cache', hit)) :
    p.request cache req = .ok (cache', hit) := by
  rw [Params.request, h]
  rfl

theorem warmUp_cons {cache c : C} {obj : Nat × Nat} {objs : List (Nat × Nat)}
    (h : warmUp p cache (obj :: objs) = .ok c) :
    ∃ cache' hit, p.get cache obj.1 obj.2 = .ok (cache', hit) ∧ warmUp p cache' objs = .ok c := by
  cases hget : p.get cache obj.1 obj.2 with
  | error e =>
    rw [warmUp, List.foldlM_cons, hget] at h
    cases h
  | ok x =>
    rw [warmUp, List.foldlM_cons, hget] at h
    exact ⟨x.1, x.2, rfl, h⟩

theorem measure_cons {cache : C} {k k' : Counts} {obj : Nat × Nat} {objs : List (Nat × Nat)}
    (h : measure p cache k (obj :: objs) = .ok k') :
    ∃ cache' hit, p.get cache obj.1 obj.2 = .ok (cache', hit) ∧
      measure p cache' (k.add obj.2 hit) objs = .ok k' := by
  obtain ⟨⟨cache', hit⟩, hget, h⟩ := bind_eq_ok h
  exact ⟨cache', hit, hget, h⟩

/-! ## One thread -/

/-- The element of `result` that a thread works for. -/
def Pc.idx? : Pc R C → Option Nat
  | .idle => none
  | .create idx | .warmupReader idx _ _ _ _ | .warmup idx _ _ _ _ | .count idx _ _ _ _
  | .missBytes idx _ | .missCnt idx _ | .reqCnt idx _ | .reqBytes idx _
  | .lock idx | .load idx | .store idx _ | .unlock idx => some idx

/-- A thread with a task that `progress` does not count. -/
def Pc.uncounted : Pc R C → Bool
  | .idle | .unlock _ => false
  | _ => true

/-- A thread between `g_mutex_lock` and `g_mutex_unlock`. -/
def Pc.critical : Pc R C → Bool
  | .load _ | .store _ _ | .unlock _ => true
  | _ => false

/-- A thread on the way to the counters `k`, with `r` in its element of `result` and at most `w` steps to
go. -/
def PcOk (p : Params R C) (warm trace : List (Nat × Nat)) (k : Counts) (r : SimRes) :
    Pc R C → Nat → Prop
  | .idle, w => w = 0
  | .create _, w => simulate p warm trace r.cacheSize = .ok k ∧ w = warm.length + trace.length + 12
  | .warmupReader _ reader warmup cache req, w => reader = p.cloneReader p.reader ∧
    ∃ objs, Pending p warmup req objs ∧
      (warmUp p cache objs).bind (onTrace p p.nWarmupReq · trace) = .ok k ∧
      w = objs.length + trace.length + 11
  | .warmup _ reader cache req n, w => ∃ objs, Pending p reader req objs ∧
    onTrace p (p.nWarmupReq - n) cache objs = .ok k ∧ w = objs.length + 10
  | .count _ reader cache req counts, w => ∃ objs, Pending p reader req objs ∧
    measure p cache counts objs = .ok k ∧ w = objs.length + 9
  | .missBytes _ counts, w => counts = k ∧ w = 8
  | .missCnt _ counts, w => counts = k ∧ r.missBytes = k.missBytes ∧ w = 7
  | .reqCnt _ counts, w => counts = k ∧ r.missBytes = k.missBytes ∧ r.missCnt = k.missCnt ∧ w = 6
  | .reqBytes _ counts, w => counts = k ∧ r.missBytes = k.missBytes ∧ r.missCnt = k.missCnt ∧
    r.reqCnt = k.reqCnt ∧ w = 5
  | .lock _, w => r.toCounts = k ∧ w = 4
  | .load _, w => r.toCounts = k ∧ w = 3
  | .store _ _, w => r.toCounts = k ∧ w = 2
  | .unlock _, w => r.toCounts = k ∧ w = 1

/-- A step within a task: from `pc` with budget `w`, in the element `idx` of `result`. -/
structure Within (p : Params R C) (warm trace : List (Nat × Nat)) (k : Counts) (n idx w : Nat)
    (pc pc' : Pc R C) (s s' : Shared) : Prop where
  task : pc'.idx? = some idx
  before : pc.uncounted = true
  after : pc'.uncounted = true
  queue : s'.queue = s.queue
  progress : s'.progress = s.progress
  live : s'.live = s.live
  mtx : Move n (pc.critical = true) (pc'.critical = true) s.mtx s'.mtx
  held : ∀ m, s'.mtx.holder = some m → s.mtx.holder = some m ∨ m = n ∧ pc'.critical = true
  keeps : pc.critical = true → pc'.critical = true
  loaded : ∀ v, pc' = .store idx v → v = s.progress
  result : ∃ r r' w', s.result[idx]? = some r ∧ r'.cacheSize = r.cacheSize ∧
    s'.result = s.result.set idx r' ∧ PcOk p warm trace k r' pc' w' ∧ w' < w

/-- What a thread does in a step. -/
inductive Effect (p : Params R C) (warm trace : List (Nat × Nat)) (k : Counts) (n w : Nat) :
    Pc R C → Shared → Pc R C → Shared → Prop
  | take {s : Shared} {data : Nat} {queue : List Nat} (h : s.queue = data :: queue) :
      Effect p warm trace k n w .idle s (.create (data - 1)) { s with queue }
  | within {s s' : Shared} {pc pc' : Pc R C} {idx : Nat} (hidx : pc.idx? = some idx)
      (h : Within p warm trace k n idx w pc pc' s s') : Effect p warm trace k n w pc s pc' s'
  | counted {s : Shared} {idx progress : Nat} :
      Effect p warm trace k n w (.store idx progress) s (.unlock idx)
        { s with progress := progress + 1 }
  | finish {s : Shared} {idx : Nat} (h : s.mtx.holder = some n) :
      Effect p warm trace k n w (.unlock idx) s .idle { s with mtx := { s.mtx with holder := none } }

variable {k : Counts} {n idx w : Nat} {pc pc' : Pc R C} {s : Shared} {r : SimRes}

/-- A step that leaves what the threads share. -/
theorem Within.local {w' : Nat} (hr : s.result[idx]? = some r) (hidx : pc'.idx? = some idx)
    (hbefore : pc.uncounted = true ∧ pc.critical = false)
    (hafter : pc'.uncounted = true ∧ pc'.critical = false)
    (hpc : PcOk p warm trace k r pc' w') (hw : w' < w) :
    Within p warm trace k n idx w pc pc' s s where
  task := hidx
  before := hbefore.1
  after := hafter.1
  queue := rfl
  progress := rfl
  live := rfl
  mtx := .keep rfl fun h => nomatch hafter.2.symm.trans h
  held _ h := .inl h
  keeps h := nomatch hbefore.2.symm.trans h
  loaded v h := by
    rw [h] at hafter
    cases hafter.2
  result := ⟨r, r, w', hr, rfl, (set_eq_self hr).symm, hpc, hw⟩

/-- The trace is entered with its first request. -/
theorem Setting.enter (S : Setting p warm trace res) {cache : C} (req : TraceReq)
    (h : onTrace p p.nWarmupReq cache trace = .ok k) :
    ∃ pc', p.enter idx (p.cloneReader p.reader) cache req = .ok pc' ∧ pc'.idx? = some idx ∧
      pc'.uncounted = true ∧ pc'.critical = false ∧ PcOk p warm trace k r pc' (trace.length + 10) := by
  obtain ⟨reader, req', hread, hpending⟩ := S.reads req
  refine ⟨.warmup idx reader cache req' 0, ?_, rfl, rfl, rfl, trace, hpending, h, rfl⟩
  rw [Params.enter, read_ok hread]
  rfl

theorem Setting.create_step (S : Setting p warm trace res) (hr : s.result[idx]? = some r)
    (h : PcOk p warm trace k r (.create idx) w) :
    ∃ pc', threadStep p n (.create idx) s = .ok (pc', s) ∧
      Within p warm trace k n idx w (.create idx) pc' s s := by
  obtain ⟨hsim, rfl⟩ := h
  cases hwarm : p.warmupReader with
  | none =>
    obtain rfl := S.noWarm hwarm
    obtain ⟨pc', henter, hidx, huncounted, hcritical, hpc⟩ := S.enter newRequest hsim
    refine ⟨pc', ?_, .local hr hidx ⟨rfl, rfl⟩ ⟨huncounted, hcritical⟩ hpc (by omega)⟩
    simp only [threadStep, hr, hwarm, henter]
    rfl
  | some warmup =>
    obtain ⟨warmup', req, hread, hpending⟩ := S.warms warmup hwarm newRequest
    refine ⟨.warmupReader idx (p.cloneReader p.reader) warmup' (p.createCacheWithNewSize r.cacheSize) req,
      ?_, .local hr rfl ⟨rfl, rfl⟩ ⟨rfl, rfl⟩ ⟨rfl, warm, hpending, hsim, rfl⟩ (by omega)⟩
    simp only [threadStep, hr, hwarm, read_ok hread]
    rfl

theorem Setting.warmupReader_step (S : Setting p warm trace res) {reader warmup : R} {cache : C}
    {req : TraceReq} (hr : s.result[idx]? = some r)
    (h : PcOk p warm trace k r (.warmupReader idx reader warmup cache req) w) :
    ∃ pc', threadStep p n (.warmupReader idx reader warmup cache req) s = .ok (pc', s) ∧
      Within p warm trace k n idx w (.warmupReader idx reader warmup cache req) pc' s s := by
  obtain ⟨rfl, objs, hpending, hrest, rfl⟩ := h
  cases hpending with
  | nil hvalid =>
    obtain ⟨pc', henter, hidx, huncounted, hcritical, hpc⟩ := S.enter req hrest
    refine ⟨pc', ?_, .local hr hidx ⟨rfl, rfl⟩ ⟨huncounted, hcritical⟩ hpc (by omega)⟩
    rw [threadStep, if_neg (by rw [hvalid]; exact Bool.false_ne_true), henter]
    rfl
  | @cons _ warmup' _ req' objs hvalid hread hobjs =>
    obtain ⟨c, hc, hrest⟩ := bind_eq_ok hrest
    obtain ⟨cache', hit, hget, hc⟩ := warmUp_cons hc
    refine ⟨.warmupReader idx (p.cloneReader p.reader) warmup' cache' req', ?_,
      .local hr rfl ⟨rfl, rfl⟩ ⟨rfl, rfl⟩ ⟨rfl, objs, hobjs, ?_, rfl⟩ ?_⟩
    · rw [threadStep, if_pos hvalid, request_ok hget, read_ok hread]
      rfl
    · rw [hc]
      exact hrest
    · rw [List.length_cons]
      omega

theorem warmup_step {reader : R} {cache : C} {req : TraceReq} {nWarmup : Nat}
    (hr : s.result[idx]? = some r) (h : PcOk p warm trace k r (.warmup idx reader cache req nWarmup) w) :
    ∃ pc', threadStep p n (.warmup idx reader cache req nWarmup) s = .ok (pc', s) ∧
      Within p warm trace k n idx w (.warmup idx reader cache req nWarmup) pc' s s := by
  obtain ⟨objs, hpending, hrest, rfl⟩ := h
  by_cases hloop : req.valid = true ∧ nWarmup < p.nWarmupReq
  · cases hpending with
    | nil hvalid => exact nomatch hvalid.symm.trans hloop.1
    | @cons _ reader' _ req' objs _ hread hobjs =>
      have hsucc : p.nWarmupReq - nWarmup = p.nWarmupReq - (nWarmup + 1) + 1 := by omega
      rw [onTrace, hsucc, List.take_succ_cons, List.drop_succ_cons] at hrest
      obtain ⟨c, hc, hrest⟩ := bind_eq_ok hrest
      obtain ⟨cache', hit, hget, hc⟩ := warmUp_cons hc
      refine ⟨.warmup idx reader' cache' req' (nWarmup + 1), ?_,
        .local hr rfl ⟨rfl, rfl⟩ ⟨rfl, rfl⟩ ⟨objs, hobjs, ?_, rfl⟩ ?_⟩
      · rw [threadStep, if_pos hloop, request_ok hget, read_ok hread]
        rfl
      · rw [onTrace, hc]
        exact hrest
      · rw [List.length_cons]
        omega
  · refine ⟨.count idx reader cache req ⟨0, 0, 0, 0⟩, ?_,
      .local hr rfl ⟨rfl, rfl⟩ ⟨rfl, rfl⟩ ⟨objs, hpending, ?_, rfl⟩ (by omega)⟩
    · rw [threadStep, if_neg hloop]
    · -- there is no request, or none is left for the warm-up
      cases hpending with
      | nil _ =>
        rw [onTrace, List.take_nil, List.drop_nil] at hrest
        exact hrest
      | cons hvalid _ _ =>
        rw [onTrace, Nat.sub_eq_zero_of_le (Nat.le_of_not_lt fun hlt => hloop ⟨hvalid, hlt⟩),
          List.take_zero, List.drop_zero] at hrest
        exact hrest

theorem count_step {reader : R} {cache : C} {req : TraceReq} {counts : Counts}
    (hr : s.result[idx]? = some r) (h : PcOk p warm trace k r (.count idx reader cache req counts) w) :
    ∃ pc', threadStep p n (.count idx reader cache req counts) s = .ok (pc', s) ∧
      Within p warm trace k n idx w (.count idx reader cache req counts) pc' s s := by
  obtain ⟨objs, hpending, hrest, rfl⟩ := h
  cases hpending with
  | nil hvalid =>
    refine ⟨.missBytes idx counts, ?_,
      .local hr rfl ⟨rfl, rfl⟩ ⟨rfl, rfl⟩ ⟨Except.ok.inj hrest, rfl⟩ (by rw [List.length_nil]; omega)⟩
    rw [threadStep, if_neg (by rw [hvalid]; exact Bool.false_ne_true)]
  | @cons _ reader' _ req' objs hvalid hread hobjs =>
    obtain ⟨cache', hit, hget, hrest⟩ := measure_cons hrest
    refine ⟨.count idx reader' cache' req' (counts.add req.objSize.toNat hit), ?_,
      .local hr rfl ⟨rfl, rfl⟩ ⟨rfl, rfl⟩ ⟨objs, hobjs, hrest, rfl⟩ ?_⟩
    · rw [threadStep, if_pos hvalid, request_ok hget, read_ok hread]
      rfl
    · rw [List.length_cons]
      omega

/-- A counter is written. -/
theorem Within.write (pc pc' : Pc R C) (f : SimRes → SimRes) (w' : Nat) (hr : s.result[idx]? = some r)
    (hidx : pc'.idx? = some idx) (hbefore : pc.uncounted = true ∧ pc.critical = false)
    (hafter : pc'.uncounted = true ∧ pc'.critical = false) (hsize : (f r).cacheSize = r.cacheSize)
    (hpc : PcOk p warm trace k (f r) pc' w') (hw : w' < w) :
    ∃ s', s.setResult idx f = .ok s' ∧ Within p warm trace k n idx w pc pc' s s' := by
  obtain ⟨hlt, hget⟩ := List.getElem?_eq_some_iff.1 hr
  refine ⟨_, if_pos hlt, ?_⟩
  have hset : s.result.modify idx f = s.result.set idx (f r) := by
    rw [List.modify_eq_set_getElem? f idx s.result, hr]
    rfl
  exact
    { task := hidx
      before := hbefore.1
      after := hafter.1
      queue := rfl
      progress := rfl
      live := rfl
      mtx := .keep rfl fun h => nomatch hafter.2.symm.trans h
      held := fun _ h => .inl h
      keeps := fun h => nomatch hbefore.2.symm.trans h
      loaded := fun v h => by
        rw [h] at hafter
        cases hafter.2
      result := ⟨r, f r, w', hr, hsize, hset, hpc, hw⟩ }

/-- **A thread.** It waits for a task or for the mutex, or it takes a step. -/
theorem Setting.threadStep (S : Setting p warm trace res) (hidx : ∀ i, pc.idx? = some i → s.result[i]? = some r)
    (h : PcOk p warm trace k r pc w) (hcrit : pc.critical = true → s.mtx.holder = some n) :
    (pc.isIdle = true ∧ s.queue = [] ∨ (∃ i, pc = .lock i) ∧ s.mtx.holder ≠ none) ∧
        MissRatioCurve.threadStep p n pc s = .error .blocked ∨
      ∃ pc' s', MissRatioCurve.threadStep p n pc s = .ok (pc', s') ∧
        Effect p warm trace k n w pc s pc' s' := by
  cases pc with
  | idle =>
    cases hqueue : s.queue with
    | nil => exact .inl ⟨.inl ⟨rfl, rfl⟩, by rw [MissRatioCurve.threadStep, hqueue]⟩
    | cons data queue =>
      refine .inr ⟨_, _, ?_, .take hqueue⟩
      rw [MissRatioCurve.threadStep, hqueue]
  | create i =>
    obtain ⟨pc', hstep, hw⟩ := S.create_step (hidx i rfl) h
    exact .inr ⟨pc', s, hstep, .within rfl hw⟩
  | warmupReader i reader warmup cache req =>
    obtain ⟨pc', hstep, hw⟩ := S.warmupReader_step (hidx i rfl) h
    exact .inr ⟨pc', s, hstep, .within rfl hw⟩
  | warmup i reader cache req m =>
    obtain ⟨pc', hstep, hw⟩ := warmup_step (hidx i rfl) h
    exact .inr ⟨pc', s, hstep, .within rfl hw⟩
  | count i reader cache req counts =>
    obtain ⟨pc', hstep, hw⟩ := count_step (hidx i rfl) h
    exact .inr ⟨pc', s, hstep, .within rfl hw⟩
  | missBytes i counts =>
    obtain ⟨rfl, rfl⟩ := h
    obtain ⟨s', hset, hw⟩ := Within.write (w := 8) (n := n) (.missBytes i counts) (.missCnt i counts)
      (fun r => { r with missBytes := counts.missBytes }) 7 (hidx i rfl) rfl
      ⟨rfl, rfl⟩ ⟨rfl, rfl⟩ rfl ⟨rfl, rfl, rfl⟩ (by omega)
    exact .inr ⟨_, s', by rw [MissRatioCurve.threadStep, hset]; rfl, .within rfl hw⟩
  | missCnt i counts =>
    obtain ⟨rfl, h₁, rfl⟩ := h
    obtain ⟨s', hset, hw⟩ := Within.write (w := 7) (n := n) (.missCnt i counts) (.reqCnt i counts)
      (fun r => { r with missCnt := counts.missCnt }) 6 (hidx i rfl) rfl
      ⟨rfl, rfl⟩ ⟨rfl, rfl⟩ rfl ⟨rfl, h₁, rfl, rfl⟩ (by omega)
    exact .inr ⟨_, s', by rw [MissRatioCurve.threadStep, hset]; rfl, .within rfl hw⟩
  | reqCnt i counts =>
    obtain ⟨rfl, h₁, h₂, rfl⟩ := h
    obtain ⟨s', hset, hw⟩ := Within.write (w := 6) (n := n) (.reqCnt i counts) (.reqBytes i counts)
      (fun r => { r with reqCnt := counts.reqCnt }) 5 (hidx i rfl) rfl
      ⟨rfl, rfl⟩ ⟨rfl, rfl⟩ rfl ⟨rfl, h₁, h₂, rfl, rfl⟩ (by omega)
    exact .inr ⟨_, s', by rw [MissRatioCurve.threadStep, hset]; rfl, .within rfl hw⟩
  | reqBytes i counts =>
    obtain ⟨rfl, h₁, h₂, h₃, rfl⟩ := h
    have hcounts : ({ r with reqBytes := counts.reqBytes } : SimRes).toCounts = counts := by
      cases counts
      cases h₁
      cases h₂
      cases h₃
      rfl
    obtain ⟨s', hset, hw⟩ := Within.write (w := 5) (n := n) (.reqBytes i counts) (.lock i)
      (fun r => { r with reqBytes := counts.reqBytes }) 4 (hidx i rfl) rfl
      ⟨rfl, rfl⟩ ⟨rfl, rfl⟩ rfl ⟨hcounts, rfl⟩ (by omega)
    exact .inr ⟨_, s', by rw [MissRatioCurve.threadStep, hset]; rfl, .within rfl hw⟩
  | lock i =>
    obtain ⟨hcounts, rfl⟩ := h
    by_cases hfree : s.mtx.holder = none
    · have hlock : s.mtx.lock n = .ok ⟨some n, s.mtx.sleeping⟩ := lock_eq_ok.2 ⟨hfree, rfl⟩
      refine .inr ⟨.load i, { s with mtx := ⟨some n, s.mtx.sleeping⟩ }, ?_, .within rfl ?_⟩
      · rw [MissRatioCurve.threadStep, hlock]
        rfl
      · exact
          { task := rfl
            before := rfl
            after := rfl
            queue := rfl
            progress := rfl
            live := rfl
            mtx := .enter hfree rfl
            held := fun m hm => .inr ⟨(Option.some.inj hm).symm, rfl⟩
            keeps := nofun
            loaded := nofun
            result := ⟨r, r, 3, hidx i rfl, rfl, (set_eq_self (hidx i rfl)).symm, ⟨hcounts, rfl⟩, by omega⟩ }
    · refine .inl ⟨.inr ⟨⟨i, rfl⟩, hfree⟩, ?_⟩
      rw [MissRatioCurve.threadStep, Monitor.lock, if_neg hfree]
      rfl
  | load i =>
    obtain ⟨hcounts, rfl⟩ := h
    refine .inr ⟨.store i s.progress, s, rfl, .within rfl ?_⟩
    exact
      { task := rfl
        before := rfl
        after := rfl
        queue := rfl
        progress := rfl
        live := rfl
        mtx := .keep rfl fun _ => rfl
        held := fun m hm => .inl hm
        keeps := fun _ => rfl
        loaded := fun v hv => by injection hv with _ hv; exact hv.symm
        result := ⟨r, r, 2, hidx i rfl, rfl, (set_eq_self (hidx i rfl)).symm, ⟨hcounts, rfl⟩, by omega⟩ }
  | store i v => exact .inr ⟨_, _, rfl, .counted⟩
  | unlock i =>
    have hheld := hcrit rfl
    have hunlock : s.mtx.unlock = .ok ⟨none, s.mtx.sleeping⟩ :=
      unlock_eq_ok.2 ⟨by rw [hheld]; exact Option.some_ne_none n, rfl⟩
    refine .inr ⟨_, _, ?_, .finish hheld⟩
    rw [MissRatioCurve.threadStep, hunlock]
    rfl

end

/-! ## The invariant -/

section
variable {R C : Type} {p : Params R C} {warm trace : List (Nat × Nat)} {res : Nat → Counts}

/-- The data of the task that a thread has. -/
def Pc.task (pc : Pc R C) : Option Nat := pc.idx?.map (· + 1)

/-- The tasks that are not done. -/
def State.tasks (s : State R C) : List Nat := s.shared.queue ++ s.threads.filterMap Pc.task

/-- The tasks that `main` has pushed, of `n`. -/
def MainPc.pushed (n : Nat) : MainPc → Nat
  | .push i => i - 1
  | _ => n

/-- A thread and its element of `result`. -/
def Entry (p : Params R C) (warm trace : List (Nat × Nat)) (res : Nat → Counts) (result : List SimRes)
    (pc : Pc R C) (w : Nat) : Prop :=
  ∃ r, (∀ i, pc.idx? = some i → result[i]? = some r) ∧ PcOk p warm trace (res r.cacheSize) r pc w

def State.Critical (s : State R C) (n : Nat) : Prop := ∃ pc, s.threads[n]? = some pc ∧ pc.critical = true

/-- The threads have the budgets `ws`. -/
structure Inv (p : Params R C) (warm trace : List (Nat × Nat)) (res : Nat → Counts) (ws : List Nat)
    (s : State R C) : Prop where
  sizes : s.shared.result.map SimRes.cacheSize = p.cacheSizes
  nodup : s.tasks.Nodup
  below : ∀ i ∈ s.tasks, 1 ≤ i ∧ i ≤ s.main.pushed p.cacheSizes.length
  done : ∀ idx < s.main.pushed p.cacheSizes.length, idx + 1 ∈ s.tasks ∨
    ∃ r, s.shared.result[idx]? = some r ∧ r.toCounts = res r.cacheSize
  length : ws.length = s.threads.length
  threads : ∀ (n : Nat) (pc : Pc R C) (w : Nat), s.threads[n]? = some pc → ws[n]? = some w →
    Entry p warm trace res s.shared.result pc w
  counted : s.shared.progress + s.shared.queue.length + s.threads.countP Pc.uncounted =
    s.main.pushed p.cacheSizes.length
  guarded : Guarded s.Critical s.shared.mtx
  held : ∀ n, s.shared.mtx.holder = some n → s.Critical n
  loaded : ∀ (n idx v : Nat), s.threads[n]? = some (.store idx v) → v = s.shared.progress
  live : s.shared.live = true ↔ s.main ≠ .returned
  pushing : ∀ i, s.main = .push i → 1 ≤ i ∧ i ≤ p.cacheSizes.length + 1
  ended : s.main = .clear ∨ s.main = .returned → s.shared.queue = [] ∧ ∀ pc ∈ s.threads, pc.isIdle = true

/-- The steps that a task takes. -/
def taskSteps (warm trace : List (Nat × Nat)) : Nat := warm.length + trace.length + 13

/-- The steps that the threads can take. -/
def budget (p : Params R C) (warm trace : List (Nat × Nat)) (ws : List Nat) (s : State R C) : Nat :=
  ws.sum + (s.shared.queue.length + (p.cacheSizes.length - s.main.pushed p.cacheSizes.length)) *
    taskSteps warm trace

section
variable {ws : List Nat} {s : State R C} {n w w' : Nat} {pc pc' : Pc R C}

theorem uncounted_of_critical : pc.isIdle = true → pc.critical = false := by
  cases pc <;> first | exact fun _ => rfl | nofun

theorem idx?_eq_none : pc.idx? = none ↔ pc.isIdle = true := by
  cases pc <;> simp [Pc.idx?, Pc.isIdle]

/-- Two threads have different tasks. -/
theorem Inv.idx_ne (H : Inv p warm trace res ws s) {m i : Nat} {q : Pc R C} (hpc : s.threads[n]? = some pc)
    (hq : s.threads[m]? = some q) (hne : m ≠ n) (hi : q.idx? = some i) : pc.idx? ≠ some i := by
  intro hpi
  refine hne (eq_of_nodup_filterMap (f := Pc.task) (y := i + 1) (List.nodup_append.mp H.nodup).2.1 hq hpc ?_ ?_)
  · rw [Pc.task, hi]
    rfl
  · rw [Pc.task, hpi]
    rfl

/-- The other threads keep their elements of `result`. -/
theorem Inv.threads_moved (H : Inv p warm trace res ws s) {result : List SimRes}
    (hpc : s.threads[n]? = some pc) (hentry : Entry p warm trace res result pc' w')
    (hother : ∀ i, pc.idx? ≠ some i → result[i]? = s.shared.result[i]?) (m : Nat) (q : Pc R C) (v : Nat)
    (hq : (s.threads.set n pc')[m]? = some q) (hv : (ws.set n w')[m]? = some v) :
    Entry p warm trace res result q v := by
  obtain ⟨rfl, rfl⟩ | ⟨hne, hq⟩ := getElem?_moved hq
  · obtain ⟨-, rfl⟩ | ⟨hne, -⟩ := getElem?_moved hv
    · exact hentry
    · exact absurd rfl hne
  · obtain ⟨rfl, -⟩ | ⟨-, hv⟩ := getElem?_moved hv
    · exact absurd rfl hne
    · obtain ⟨r, hr, hok⟩ := H.threads m q v hq hv
      refine ⟨r, fun i hi => ?_, hok⟩
      rw [hother i (H.idx_ne hpc hq hne hi)]
      exact hr i hi

theorem Inv.guarded_moved (H : Inv p warm trace res ws s) {sh : Shared} (hpc : s.threads[n]? = some pc)
    (hmove : Move n (pc.critical = true) (pc'.critical = true) s.shared.mtx sh.mtx) :
    Guarded (State.Critical { s with threads := s.threads.set n pc', shared := sh }) sh.mtx := by
  refine H.guarded.move (hmove.imp (fun h => ⟨pc, hpc, h⟩) ?_) ?_
  · rintro ⟨q, hq, hcrit⟩
    obtain ⟨-, rfl⟩ | ⟨hne, -⟩ := getElem?_moved hq
    · exact hcrit
    · exact absurd rfl hne
  · rintro m hne ⟨q, hq, hcrit⟩
    obtain ⟨rfl, -⟩ | ⟨-, hq⟩ := getElem?_moved hq
    · exact absurd rfl hne
    · exact ⟨q, hq, hcrit⟩

theorem Inv.held_moved (H : Inv p warm trace res ws s) {sh : Shared} (hpc : s.threads[n]? = some pc)
    (hheld : ∀ m, sh.mtx.holder = some m → s.shared.mtx.holder = some m ∧
      (pc.critical = true → pc'.critical = true) ∨ m = n ∧ pc'.critical = true) (m : Nat)
    (hm : sh.mtx.holder = some m) :
    State.Critical { s with threads := s.threads.set n pc', shared := sh } m := by
  obtain ⟨hold, hkeeps⟩ | ⟨rfl, hcrit⟩ := hheld m hm
  · obtain ⟨q, hq, hcrit⟩ := H.held m hold
    by_cases hne : m = n
    · subst hne
      cases hpc.symm.trans hq
      exact ⟨pc', getElem?_moved_self hpc, hkeeps hcrit⟩
    · exact ⟨q, (List.getElem?_set_ne (Ne.symm hne)).trans hq, hcrit⟩
  · exact ⟨pc', getElem?_moved_self hpc, hcrit⟩

theorem Inv.pushed_le (H : Inv p warm trace res ws s) :
    s.main.pushed p.cacheSizes.length ≤ p.cacheSizes.length := by
  cases hmain : s.main with
  | push i =>
    have := (H.pushing i hmain).2
    rw [MainPc.pushed]
    omega
  | sizes | wait | free | clear | returned => exact Nat.le_refl _

/-- While a task is left, `main` waits. -/
theorem Inv.waits (H : Inv p warm trace res ws s)
    (h : s.shared.queue ≠ [] ∨ ∃ pc ∈ s.threads, pc.isIdle = false) :
    ¬ (s.main = .clear ∨ s.main = .returned) := by
  intro hmain
  obtain ⟨hqueue, hidle⟩ := H.ended hmain
  obtain h | ⟨pc, hpc, hbusy⟩ := h
  · exact h hqueue
  · exact nomatch hbusy.symm.trans (hidle pc hpc)

theorem Inv.take (S : Setting p warm trace res) (H : Inv p warm trace res ws s) {data : Nat}
    {queue : List Nat} (hpc : s.threads[n]? = some .idle) (hqueue : s.shared.queue = data :: queue) :
    Inv p warm trace res (ws.set n (warm.length + trace.length + 12))
      { s with threads := s.threads.set n (.create (data - 1)), shared := { s.shared with queue } } := by
  have hwait := H.waits (.inl (by rw [hqueue]; exact List.cons_ne_nil _ _))
  have hmem : data ∈ s.tasks := List.mem_append_left _ (by rw [hqueue]; exact List.mem_cons_self)
  obtain ⟨hone, hpushed⟩ := H.below data hmem
  have hperm : (queue ++ (s.threads.set n (.create (data - 1))).filterMap Pc.task).Perm s.tasks := by
    have hmoved := filterMap_moved_perm (f := Pc.task) (b := .create (data - 1)) hpc
    have htask : (Pc.create (data - 1) : Pc R C).task = some data := congrArg some (Nat.sub_add_cancel hone)
    rw [htask] at hmoved
    rw [State.tasks, hqueue]
    exact (List.Perm.append_left queue hmoved).trans List.perm_middle
  have hlt : data - 1 < s.shared.result.length := by
    have hlen := congrArg List.length H.sizes
    rw [List.length_map] at hlen
    have := H.pushed_le
    omega
  have hmove := countP_moved (q := Pc.uncounted) (b := .create (data - 1)) hpc
  exact
    { sizes := H.sizes
      nodup := hperm.nodup_iff.mpr H.nodup
      below := fun i hi => H.below i (hperm.mem_iff.mp hi)
      done := fun idx hidx => (H.done idx hidx).imp_left hperm.mem_iff.mpr
      length := by rw [List.length_set, List.length_set, H.length]
      threads := H.threads_moved hpc
        ⟨s.shared.result[data - 1], fun i hi => by
          cases hi
          exact List.getElem?_eq_getElem hlt,
          S.simulates _ (H.sizes ▸ List.mem_map_of_mem (List.getElem_mem hlt)), rfl⟩ fun _ _ => rfl
      counted := by
        have hcount := H.counted
        rw [hqueue, List.length_cons] at hcount
        simp only [Pc.uncounted, Bool.toNat_true, Bool.toNat_false] at hmove
        dsimp only
        omega
      guarded := H.guarded_moved hpc (.keep rfl nofun)
      held := H.held_moved hpc fun m hm => .inl ⟨hm, nofun⟩
      loaded := fun m idx v hm => by
        obtain ⟨-, h⟩ | ⟨-, hm⟩ := getElem?_moved hm
        · cases h
        · exact H.loaded m idx v hm
      live := H.live
      pushing := H.pushing
      ended := fun h => absurd h hwait }

theorem Inv.within (H : Inv p warm trace res ws s) {idx : Nat} {sh : Shared} {r : SimRes}
    (hpc : s.threads[n]? = some pc) (hidx : pc.idx? = some idx) (hr : s.shared.result[idx]? = some r)
    (h : Within p warm trace (res r.cacheSize) n idx w pc pc' s.shared sh) : ∃ w' < w,
    Inv p warm trace res (ws.set n w') { s with threads := s.threads.set n pc', shared := sh } := by
  obtain ⟨r₀, r', w', hr₀, hsize, hresult, hok, hlt⟩ := h.result
  cases hr.symm.trans hr₀
  have hbusy : pc.isIdle = false := by
    cases hidle : pc.isIdle with
    | false => rfl
    | true => exact nomatch hidx.symm.trans (idx?_eq_none.mpr hidle)
  have hwait := H.waits (.inr ⟨pc, List.mem_of_getElem? hpc, hbusy⟩)
  have htasks : State.tasks { s with threads := s.threads.set n pc', shared := sh } = s.tasks := by
    rw [State.tasks, State.tasks, h.queue, filterMap_moved hpc (by rw [Pc.task, Pc.task, h.task, hidx])]
  have hmem : idx + 1 ∈ s.tasks :=
    List.mem_append_right _ (List.mem_filterMap.mpr ⟨pc, List.mem_of_getElem? hpc, by rw [Pc.task, hidx]; rfl⟩)
  have hself : sh.result[idx]? = some r' := by
    rw [hresult]
    exact getElem?_moved_self hr
  have hother : ∀ i ≠ idx, sh.result[i]? = s.shared.result[i]? := fun i hi => by
    rw [hresult, List.getElem?_set_ne (Ne.symm hi)]
  have hmove := countP_moved (q := Pc.uncounted) (b := pc') hpc
  refine ⟨w', hlt, ?_⟩
  exact
    { sizes := by
        rw [← H.sizes, hresult]
        exact map_moved hr hsize
      nodup := htasks ▸ H.nodup
      below := fun i hi => H.below i (htasks ▸ hi)
      done := fun i hi => by
        rw [htasks]
        by_cases hself : i = idx
        · exact .inl (hself ▸ hmem)
        · dsimp only
          rw [hother i hself]
          exact H.done i hi
      length := by rw [List.length_set, List.length_set, H.length]
      threads := H.threads_moved hpc
        ⟨r', fun i hi => by cases h.task.symm.trans hi; exact hself, hsize ▸ hok⟩
        fun i hi => hother i fun heq => hi (heq ▸ hidx)
      counted := by
        have hcount := H.counted
        rw [h.before, h.after] at hmove
        dsimp only
        rw [h.progress, h.queue]
        omega
      guarded := H.guarded_moved hpc h.mtx
      held := H.held_moved hpc fun m hm => (h.held m hm).imp_left fun hm => ⟨hm, h.keeps⟩
      loaded := fun m i v hm => by
        dsimp only
        rw [h.progress]
        obtain ⟨-, hstore⟩ | ⟨-, hm⟩ := getElem?_moved hm
        · have htask := h.task
          rw [← hstore] at htask
          cases htask
          exact h.loaded v hstore.symm
        · exact H.loaded m i v hm
      live := h.live ▸ H.live
      pushing := H.pushing
      ended := fun hmain => absurd hmain hwait }

theorem Inv.count (H : Inv p warm trace res ws s) {idx progress : Nat}
    (hpc : s.threads[n]? = some (.store idx progress)) (hw : ws[n]? = some w) : w = 2 ∧
    Inv p warm trace res (ws.set n 1) { s with
      threads := s.threads.set n (.unlock idx), shared := { s.shared with progress := progress + 1 } } := by
  have hwait := H.waits (.inr ⟨_, List.mem_of_getElem? hpc, rfl⟩)
  obtain ⟨r, hr, hcounts, rfl⟩ := H.threads n _ w hpc hw
  have htasks : State.tasks { s with
      threads := s.threads.set n (.unlock idx)
      shared := { s.shared with progress := progress + 1 } } = s.tasks := by
    rw [State.tasks, State.tasks]
    dsimp only
    rw [filterMap_moved (f := Pc.task) (b := .unlock idx) hpc rfl]
  have hloaded := H.loaded n idx progress hpc
  have hmove := countP_moved (q := Pc.uncounted) (b := .unlock idx) hpc
  refine ⟨rfl, ?_⟩
  exact
    { sizes := H.sizes
      nodup := htasks ▸ H.nodup
      below := fun i hi => H.below i (htasks ▸ hi)
      done := fun i hi => htasks ▸ H.done i hi
      length := by rw [List.length_set, List.length_set, H.length]
      threads := H.threads_moved hpc ⟨r, hr, hcounts, rfl⟩ fun _ _ => rfl
      counted := by
        have hcount := H.counted
        simp only [Pc.uncounted, Bool.toNat_true, Bool.toNat_false] at hmove
        dsimp only
        omega
      guarded := H.guarded_moved hpc (.keep rfl fun _ => rfl)
      held := H.held_moved hpc fun m hm => .inl ⟨hm, fun _ => rfl⟩
      loaded := fun m i v hm => by
        -- the mutex keeps every other thread from having read `progress`
        obtain ⟨-, hstore⟩ | ⟨hne, hm⟩ := getElem?_moved hm
        · cases hstore
        · exact absurd (H.guarded.eq ⟨_, hm, rfl⟩ ⟨_, hpc, rfl⟩) hne
      live := H.live
      pushing := H.pushing
      ended := fun hmain => absurd hmain hwait }

theorem Inv.finish (H : Inv p warm trace res ws s) {idx : Nat}
    (hpc : s.threads[n]? = some (.unlock idx)) (hw : ws[n]? = some w) : w = 1 ∧
    Inv p warm trace res (ws.set n 0) { s with
      threads := s.threads.set n .idle
      shared := { s.shared with mtx := { s.shared.mtx with holder := none } } } := by
  have hwait := H.waits (.inr ⟨_, List.mem_of_getElem? hpc, rfl⟩)
  obtain ⟨r, hr, hcounts, rfl⟩ := H.threads n _ w hpc hw
  have hmoved := filterMap_moved_perm (f := Pc.task) (b := .idle) hpc
  have hperm : ((idx + 1) :: (s.shared.queue ++ (s.threads.set n .idle).filterMap Pc.task)).Perm s.tasks :=
    List.perm_middle.symm.trans (List.Perm.append_left s.shared.queue hmoved)
  have hmove := countP_moved (q := Pc.uncounted) (b := .idle) hpc
  refine ⟨rfl, ?_⟩
  exact
    { sizes := H.sizes
      nodup := (List.nodup_cons.mp (hperm.nodup_iff.mpr H.nodup)).2
      below := fun i hi => H.below i (hperm.mem_iff.mp (List.mem_cons_of_mem _ hi))
      done := fun i hi => by
        by_cases hself : i = idx
        · exact .inr ⟨r, hself ▸ hr idx rfl, hcounts⟩
        · refine (H.done i hi).imp_left fun hmem => ?_
          obtain heq | hmem := List.mem_cons.mp (hperm.mem_iff.mpr hmem)
          · exact absurd (Nat.succ.inj heq) hself
          · exact hmem
      length := by rw [List.length_set, List.length_set, H.length]
      threads := H.threads_moved hpc ⟨r, nofun, rfl⟩ fun _ _ => rfl
      counted := by
        have hcount := H.counted
        simp only [Pc.uncounted, Bool.toNat_false] at hmove
        dsimp only
        omega
      guarded := H.guarded_moved hpc (.leave rfl nofun)
      held := H.held_moved hpc nofun
      loaded := fun m i v hm => by
        obtain ⟨-, hstore⟩ | ⟨-, hm⟩ := getElem?_moved hm
        · cases hstore
        · exact H.loaded m i v hm
      live := H.live
      pushing := H.pushing
      ended := fun hmain => absurd hmain hwait }

/-- **A step of a thread** uses up a part of the budget. -/
theorem Inv.thread (S : Setting p warm trace res) (H : Inv p warm trace res ws s)
    (hpc : s.threads[n]? = some pc) :
    (pc.isIdle = true ∧ s.shared.queue = [] ∨ (∃ i, pc = .lock i) ∧ s.shared.mtx.holder ≠ none) ∧
        step p s (.thread n) = .error .blocked ∨
      ∃ s' ws', step p s (.thread n) = .ok s' ∧ s'.main = s.main ∧ Inv p warm trace res ws' s' ∧
        budget p warm trace ws' s' < budget p warm trace ws s := by
  obtain ⟨hn, -⟩ := List.getElem?_eq_some_iff.1 hpc
  obtain ⟨w, hw⟩ : ∃ w, ws[n]? = some w := ⟨_, List.getElem?_eq_getElem (H.length ▸ hn)⟩
  obtain ⟨r, hr, hok⟩ := H.threads n pc _ hpc hw
  have hlive : ¬ (¬ pc.isIdle = true ∧ ¬ s.shared.live = true) := by
    rintro ⟨hbusy, hdead⟩
    refine hdead (H.live.mpr fun hmain => hbusy ((H.ended (.inr hmain)).2 pc (List.mem_of_getElem? hpc)))
  obtain ⟨hwhy, hblocked⟩ | ⟨pc', sh, hstep, heffect⟩ :=
    S.threadStep (n := n) hr hok fun hcrit => H.guarded n ⟨pc, hpc, hcrit⟩
  · refine .inl ⟨hwhy, ?_⟩
    simp only [step, hpc, if_neg hlive, hblocked]
    rfl
  · have hstep' : step p s (.thread n) =
        .ok { s with threads := s.threads.set n pc', shared := sh } := by
      simp only [step, hpc, if_neg hlive, hstep]
      rfl
    have hsum : ∀ w', (ws.set n w').sum + w = ws.sum + w' := fun w' => sum_moved hw
    right
    cases heffect with
    | @take _ data queue hqueue =>
      refine ⟨_, _, hstep', rfl, H.take S hpc hqueue, ?_⟩
      have hzero : w = 0 := hok
      have := hsum (warm.length + trace.length + 12)
      rw [budget, budget, hqueue, List.length_cons]
      dsimp only
      rw [Nat.add_right_comm queue.length 1, Nat.succ_mul, taskSteps]
      omega
    | @within _ _ _ _ idx hidx hwithin =>
      obtain ⟨w', hlt, H'⟩ := H.within hpc hidx (hr idx hidx) hwithin
      refine ⟨_, _, hstep', rfl, H', ?_⟩
      have := hsum w'
      rw [budget, budget]
      dsimp only
      rw [hwithin.queue]
      omega
    | counted =>
      obtain ⟨htwo, H'⟩ := H.count hpc hw
      refine ⟨_, _, hstep', rfl, H', ?_⟩
      have := hsum 1
      rw [budget, budget]
      dsimp only
      omega
    | finish _ =>
      obtain ⟨hone, H'⟩ := H.finish hpc hw
      refine ⟨_, _, hstep', rfl, H', ?_⟩
      have := hsum 0
      rw [budget, budget]
      dsimp only
      omega

/-! ## `main` -/

/-- The places that `main` goes through before it returns. -/
def MainPc.rank (n : Nat) : MainPc → Nat
  | .push i => n + 6 - i
  | .sizes => 4
  | .wait => 3
  | .free => 2
  | .clear => 1
  | .returned => 0

theorem Inv.push (H : Inv p warm trace res ws s) {i : Nat} (hmain : s.main = .push i)
    (hi : i < p.cacheSizes.length + 1) : Inv p warm trace res ws
      { s with main := .push (i + 1), shared.queue := s.shared.queue ++ [i] } := by
  obtain ⟨hone, -⟩ := H.pushing i hmain
  have hperm : (s.shared.queue ++ [i] ++ s.threads.filterMap Pc.task).Perm (i :: s.tasks) := by
    rw [List.append_assoc]
    exact List.perm_middle
  have hpushed : s.main.pushed p.cacheSizes.length = i - 1 := by rw [hmain, MainPc.pushed]
  have hnew : i ∉ s.tasks := fun hmem => by
    have := (H.below i hmem).2
    omega
  exact
    { sizes := H.sizes
      nodup := hperm.nodup_iff.mpr (List.nodup_cons.mpr ⟨hnew, H.nodup⟩)
      below := fun j hj => by
        rw [MainPc.pushed, Nat.add_sub_cancel]
        obtain rfl | hj := List.mem_cons.mp (hperm.mem_iff.mp hj)
        · exact ⟨hone, Nat.le_refl j⟩
        · have := H.below j hj
          omega
      done := fun idx hidx => by
        rw [MainPc.pushed, Nat.add_sub_cancel] at hidx
        by_cases hlast : idx + 1 = i
        · exact .inl (hperm.mem_iff.mpr (hlast ▸ List.mem_cons_self))
        · exact (H.done idx (by omega)).imp_left fun hmem => hperm.mem_iff.mpr (List.mem_cons_of_mem _ hmem)
      length := H.length
      threads := H.threads
      counted := by
        have hcount := H.counted
        rw [hpushed] at hcount
        rw [MainPc.pushed, List.length_append, List.length_singleton]
        dsimp only
        omega
      guarded := H.guarded
      held := H.held
      loaded := H.loaded
      live := iff_of_true (H.live.mpr (by rw [hmain]; nofun)) nofun
      pushing := fun j hj => by
        cases hj
        omega
      ended := fun h => by
        obtain h | h := h
        · cases h
        · cases h }

/-- `main` goes on, and the tasks stay as they are. -/
theorem Inv.goTo (H : Inv p warm trace res ws s) {main : MainPc} {live : Bool}
    (hpushed : main.pushed p.cacheSizes.length = s.main.pushed p.cacheSizes.length)
    (hpush : ∀ i, main ≠ .push i) (hlive : live = true ↔ main ≠ .returned)
    (hended : main = .clear ∨ main = .returned → s.shared.queue = [] ∧ ∀ pc ∈ s.threads, pc.isIdle = true) :
    Inv p warm trace res ws { s with main, shared.live := live } where
  sizes := H.sizes
  nodup := H.nodup
  below i hi := hpushed ▸ H.below i hi
  done idx hidx := H.done idx (hpushed ▸ hidx)
  length := H.length
  threads := H.threads
  counted := hpushed ▸ H.counted
  guarded := H.guarded
  held := H.held
  loaded := H.loaded
  live := hlive
  pushing i hi := absurd hi (hpush i)
  ended := hended

/-- No thread has the mutex when all are idle. -/
theorem Inv.free_of_idle (H : Inv p warm trace res ws s) (h : ∀ pc ∈ s.threads, pc.isIdle = true) :
    s.shared.mtx.holder = none := by
  cases hholder : s.shared.mtx.holder with
  | none => rfl
  | some m =>
    obtain ⟨pc, hpc, hcrit⟩ := H.held m hholder
    exact nomatch (uncounted_of_critical (h pc (List.mem_of_getElem? hpc))).symm.trans hcrit

/-- **A step of `main`.** It looks at `progress` again, or it waits for the threads, or it goes on. -/
theorem Inv.main (H : Inv p warm trace res ws s) (hsizes : SizesFit p.cacheSizes) :
    (s.main = .wait ∧ s.shared.progress < p.cacheSizes.length - 1 ∧ step p s .main = .ok s) ∨
    (s.main = .free ∧ (s.shared.queue ≠ [] ∨ ∃ pc ∈ s.threads, pc.isIdle = false) ∨ s.main = .returned) ∧
      step p s .main = .error .blocked ∨
    ∃ s', step p s .main = .ok s' ∧ Inv p warm trace res ws s' ∧
      budget p warm trace ws s' = budget p warm trace ws s ∧
      s'.main.rank p.cacheSizes.length < s.main.rank p.cacheSizes.length := by
  have hrun : step p s .main = mainStep p s := rfl
  rw [hrun, mainStep]
  cases hmain : s.main with
  | push i =>
    dsimp only
    have hi := H.pushing i hmain
    by_cases hlt : i < p.cacheSizes.length + 1
    · rw [if_pos hlt]
      refine .inr (.inr ⟨_, rfl, H.push hmain hlt, ?_, ?_⟩)
      · have hqueue : (s.shared.queue ++ [i]).length + (p.cacheSizes.length - (i + 1 - 1)) =
            s.shared.queue.length + (p.cacheSizes.length - (i - 1)) := by
          rw [List.length_append, List.length_singleton]
          omega
        rw [budget, budget, hmain, MainPc.pushed, MainPc.pushed, hqueue]
      · rw [MainPc.rank, MainPc.rank]
        omega
    · rw [if_neg hlt]
      have hpushed : MainPc.sizes.pushed p.cacheSizes.length = s.main.pushed p.cacheSizes.length := by
        have hlast : p.cacheSizes.length = i - 1 := by omega
        rw [hmain]
        exact hlast
      refine .inr (.inr ⟨_, rfl, H.goTo hpushed nofun (iff_of_true (H.live.mpr (by rw [hmain]; nofun)) nofun)
        nofun, ?_, ?_⟩)
      · rw [budget, budget, hpushed]
      · rw [MainPc.rank, MainPc.rank]
        omega
  | sizes =>
    dsimp only
    rw [if_pos hsizes]
    refine .inr (.inr ⟨_, rfl, H.goTo (hmain ▸ rfl) nofun
      (iff_of_true (H.live.mpr (by rw [hmain]; nofun)) nofun) nofun, ?_, ?_⟩)
    · rw [budget, budget, hmain]
      rfl
    · exact Nat.lt_succ_self 3
  | wait =>
    dsimp only
    by_cases hlt : s.shared.progress < p.cacheSizes.length - 1
    · rw [if_pos hlt]
      exact .inl ⟨rfl, hlt, rfl⟩
    · rw [if_neg hlt]
      refine .inr (.inr ⟨_, rfl, H.goTo (hmain ▸ rfl) nofun
        (iff_of_true (H.live.mpr (by rw [hmain]; nofun)) nofun) nofun, ?_, ?_⟩)
      · rw [budget, budget, hmain]
        rfl
      · exact Nat.lt_succ_self 2
  | free =>
    dsimp only
    by_cases hready : s.shared.queue.isEmpty = true ∧ s.threads.all Pc.isIdle = true
    · rw [if_pos hready]
      refine .inr (.inr ⟨_, rfl, H.goTo (hmain ▸ rfl) nofun
        (iff_of_true (H.live.mpr (by rw [hmain]; nofun)) nofun)
        (fun _ => ⟨List.isEmpty_iff.mp hready.1, List.all_eq_true.mp hready.2⟩), ?_, ?_⟩)
      · rw [budget, budget, hmain]
        rfl
      · exact Nat.lt_succ_self 1
    · rw [if_neg hready]
      refine .inr (.inl ⟨.inl ⟨rfl, ?_⟩, rfl⟩)
      by_cases hqueue : s.shared.queue = []
      · rw [hqueue] at hready
        have hbusy : ¬ s.threads.all Pc.isIdle = true := fun h => hready ⟨rfl, h⟩
        rw [List.all_eq_true] at hbusy
        push Not at hbusy
        obtain ⟨pc, hpc, hidle⟩ := hbusy
        exact .inr ⟨pc, hpc, Bool.eq_false_of_not_eq_true hidle⟩
      · exact .inl hqueue
  | clear =>
    dsimp only
    obtain ⟨hqueue, hidle⟩ := H.ended (.inl hmain)
    rw [if_pos (H.free_of_idle hidle)]
    refine .inr (.inr ⟨_, rfl, H.goTo (hmain ▸ rfl) nofun (iff_of_false nofun fun h => h rfl)
      (fun _ => ⟨hqueue, hidle⟩), ?_, ?_⟩)
    · rw [budget, budget, hmain]
      rfl
    · exact Nat.lt_succ_self 0
  | returned => exact .inr (.inl ⟨.inr rfl, rfl⟩)

/-! ## Runs -/

def Tid.isThread : Tid → Bool
  | .main => false
  | .thread _ => true

theorem step_length {s' : State R C} {t : Tid} (h : step p s t = .ok s') :
    s'.threads.length = s.threads.length := by
  cases t with
  | main =>
    have h : mainStep p s = .ok s' := h
    unfold mainStep at h
    split at h
    all_goals (try split at h) <;> cases h <;> rfl
  | thread n =>
    unfold step at h
    dsimp only at h
    split at h
    · cases h
    · split at h
      · cases h
      · obtain ⟨⟨pc', sh⟩, -, rfl⟩ := map_eq_ok h
        exact List.length_set ..

/-- **A step.** -/
theorem Inv.step (S : Setting p warm trace res) (H : Inv p warm trace res ws s) (hsizes : SizesFit p.cacheSizes)
    {s' : State R C} {t : Tid} (h : step p s t = .ok s') : ∃ ws', Inv p warm trace res ws' s' ∧
      t.isThread.toNat + budget p warm trace ws' s' ≤ budget p warm trace ws s := by
  cases t with
  | main =>
    obtain ⟨-, -, hstep⟩ | ⟨-, hstep⟩ | ⟨s₁, hstep, H', hbudget, -⟩ := H.main hsizes
    · cases hstep.symm.trans h
      exact ⟨ws, H, Nat.le_of_eq (Nat.zero_add _)⟩
    · cases hstep.symm.trans h
    · cases hstep.symm.trans h
      exact ⟨ws, H', Nat.le_of_eq ((Nat.zero_add _).trans hbudget)⟩
  | thread n =>
    cases hpc : s.threads[n]? with
    | none =>
      rw [MissRatioCurve.step, hpc] at h
      cases h
    | some pc =>
      obtain ⟨-, hstep⟩ | ⟨s₁, ws', hstep, -, H', hbudget⟩ := H.thread S hpc
      · cases hstep.symm.trans h
      · cases hstep.symm.trans h
        exact ⟨ws', H', by rw [Tid.isThread, Bool.toNat_true]; omega⟩

theorem Inv.run (S : Setting p warm trace res) (H : Inv p warm trace res ws s) (hsizes : SizesFit p.cacheSizes)
    {s' : State R C} {ts : List Tid} (h : ts.foldlM (MissRatioCurve.step p) s = .ok s') :
    s'.threads.length = s.threads.length ∧ ∃ ws', Inv p warm trace res ws' s' ∧
      ts.countP Tid.isThread + budget p warm trace ws' s' ≤ budget p warm trace ws s := by
  induction ts generalizing s ws with
  | nil =>
    cases h
    exact ⟨rfl, ws, H, Nat.le_of_eq (Nat.zero_add _)⟩
  | cons t ts ih =>
    obtain ⟨s₁, hstep, h⟩ := bind_eq_ok ((List.foldlM_cons ..).symm.trans h)
    obtain ⟨ws₁, H₁, hbudget₁⟩ := H.step S hsizes hstep
    obtain ⟨hlen, ws', H', hbudget'⟩ := ih H₁ h
    refine ⟨hlen.trans (step_length hstep), ws', H', ?_⟩
    rw [List.countP_cons]
    cases ht : t.isThread with
    | false =>
      rw [ht] at hbudget₁
      simp only [Bool.toNat_false] at hbudget₁
      rw [if_neg Bool.false_ne_true]
      omega
    | true =>
      rw [ht] at hbudget₁
      simp only [Bool.toNat_true] at hbudget₁
      rw [if_pos rfl]
      omega

/-- With a task that is not done some thread can take a step. -/
theorem Inv.busy (S : Setting p warm trace res) (H : Inv p warm trace res ws s) (hpos : 0 < s.threads.length)
    (h : s.shared.queue ≠ [] ∨ ∃ pc ∈ s.threads, pc.isIdle = false) : ∃ n s' ws',
      MissRatioCurve.step p s (.thread n) = .ok s' ∧ s'.main = s.main ∧ Inv p warm trace res ws' s' ∧
        budget p warm trace ws' s' < budget p warm trace ws s := by
  cases hholder : s.shared.mtx.holder with
  | some m =>
    -- the thread that has the mutex does not wait
    obtain ⟨pc, hpc, hcrit⟩ := H.held m hholder
    obtain ⟨hidle | ⟨⟨i, rfl⟩, -⟩, -⟩ | hstep := H.thread S hpc
    · exact nomatch (uncounted_of_critical hidle.1).symm.trans hcrit
    · cases hcrit
    · exact ⟨m, hstep⟩
  | none =>
    by_cases hbusy : ∃ pc ∈ s.threads, pc.isIdle = false
    · obtain ⟨pc, hmem, hidle⟩ := hbusy
      obtain ⟨n, hpc⟩ := List.mem_iff_getElem?.1 hmem
      obtain ⟨hwhy | ⟨-, hlock⟩, -⟩ | hstep := H.thread S hpc
      · exact nomatch hidle.symm.trans hwhy.1
      · exact absurd hholder hlock
      · exact ⟨n, hstep⟩
    · obtain ⟨⟨-, hqueue⟩ | ⟨-, hlock⟩, -⟩ | hstep := H.thread S (List.getElem?_eq_getElem hpos)
      · exact absurd hqueue (h.resolve_right hbusy)
      · exact absurd hholder hlock
      · exact ⟨0, hstep⟩

/-- Until `main` returns some step brings its return closer. -/
theorem Inv.advance (S : Setting p warm trace res) (H : Inv p warm trace res ws s) (hsizes : SizesFit p.cacheSizes)
    (hpos : 0 < s.threads.length) (hmain : s.main ≠ .returned) : ∃ t s' ws',
      MissRatioCurve.step p s t = .ok s' ∧ Inv p warm trace res ws' s' ∧
        budget p warm trace ws' s' + s'.main.rank p.cacheSizes.length <
          budget p warm trace ws s + s.main.rank p.cacheSizes.length := by
  obtain hbusy | ⟨s', hstep, H', hbudget, hrank⟩ :
      (s.shared.queue ≠ [] ∨ ∃ pc ∈ s.threads, pc.isIdle = false) ∨
        ∃ s', MissRatioCurve.step p s .main = .ok s' ∧ Inv p warm trace res ws s' ∧
          budget p warm trace ws s' = budget p warm trace ws s ∧
          s'.main.rank p.cacheSizes.length < s.main.rank p.cacheSizes.length := by
    obtain ⟨hwait, hlt, -⟩ | ⟨⟨-, hbusy⟩ | hreturned, -⟩ | hstep := H.main hsizes
    · left
      by_cases hqueue : s.shared.queue = []
      · have hcount := H.counted
        have hpushed : MainPc.wait.pushed p.cacheSizes.length = p.cacheSizes.length := rfl
        rw [hqueue, hwait, List.length_nil, hpushed] at hcount
        obtain ⟨pc, hmem, hpc⟩ := List.countP_pos_iff.1 (by omega : 0 < s.threads.countP Pc.uncounted)
        refine .inr ⟨pc, hmem, ?_⟩
        cases pc <;> first | rfl | cases hpc
      · exact .inl hqueue
    · exact .inl hbusy
    · exact absurd hreturned hmain
    · exact .inr hstep
  · obtain ⟨n, s', ws', hstep, hsame, H', hlt⟩ := H.busy S hpos hbusy
    exact ⟨.thread n, s', ws', hstep, H', by rw [hsame]; exact Nat.add_lt_add_right hlt _⟩
  · exact ⟨.main, s', ws, hstep, H', by rw [hbudget]; exact Nat.add_lt_add_left hrank _⟩

theorem Inv.returns (S : Setting p warm trace res) (hsizes : SizesFit p.cacheSizes) (m : Nat) {ws : List Nat}
    {s : State R C} (H : Inv p warm trace res ws s) (hpos : 0 < s.threads.length)
    (hm : budget p warm trace ws s + s.main.rank p.cacheSizes.length < m) :
    ∃ (ts : List Tid) (s' : State R C), ts.foldlM (MissRatioCurve.step p) s = .ok s' ∧
      s'.main = .returned := by
  induction m generalizing s ws with
  | zero => exact absurd hm (Nat.not_lt_zero _)
  | succ m ih =>
    by_cases hmain : s.main = .returned
    · exact ⟨[], s, rfl, hmain⟩
    · obtain ⟨t, s₁, ws₁, hstep, H₁, hlt⟩ := H.advance S hsizes hpos hmain
      obtain ⟨ts, s', hrun, hret⟩ := ih H₁ (step_length hstep ▸ hpos) (by omega)
      exact ⟨t :: ts, s', (foldlM_cons_ok hstep).trans hrun, hret⟩

theorem Inv.init (p : Params R C) (warm trace : List (Nat × Nat)) (res : Nat → Counts)
    (numOfThreads : Nat) :
    Inv p warm trace res (List.replicate numOfThreads 0) (start p numOfThreads) := by
  have hidle : ∀ (n : Nat) (pc : Pc R C), (start p numOfThreads).threads[n]? = some pc → pc = .idle :=
    fun n pc h => List.eq_of_mem_replicate (List.mem_of_getElem? h)
  have htasks : (start p numOfThreads).tasks = [] := by
    rw [State.tasks, List.append_eq_nil_iff]
    refine ⟨rfl, List.filterMap_eq_nil_iff.mpr fun pc hpc => ?_⟩
    rw [List.eq_of_mem_replicate hpc]
    rfl
  exact
    { sizes := by rw [MissRatioCurve.start, List.map_map]; exact List.map_id _
      nodup := by rw [htasks]; exact List.nodup_nil
      below := fun i hi => by rw [htasks] at hi; cases hi
      done := nofun
      length := by rw [MissRatioCurve.start, List.length_replicate, List.length_replicate]
      threads := fun n pc w hpc hw => by
        obtain rfl := hidle n pc hpc
        exact ⟨⟨⟨0, 0, 0, 0⟩, 0⟩, nofun, List.eq_of_mem_replicate (List.mem_of_getElem? hw)⟩
      counted := by
        have hnone : (start p numOfThreads).threads.countP Pc.uncounted = 0 := by
          rw [List.countP_eq_zero]
          intro pc hpc
          rw [List.eq_of_mem_replicate hpc]
          exact Bool.false_ne_true
        rw [hnone]
        rfl
      guarded := fun n ⟨pc, hpc, hcrit⟩ => by
        cases hidle n pc hpc
        cases hcrit
      held := nofun
      loaded := fun n idx v hpc => nomatch hidle n _ hpc
      live := iff_of_true rfl nofun
      pushing := fun i hi => by
        cases hi
        omega
      ended := fun h => by
        obtain h | h := h
        · cases h
        · cases h }

/-- When `main` has returned every element of `result` has its counters. -/
theorem Inv.result_eq (H : Inv p warm trace res ws s) (hmain : s.main = .returned) :
    s.shared.result = p.cacheSizes.map fun size => ⟨res size, size⟩ := by
  obtain ⟨hqueue, hidle⟩ := H.ended (.inr hmain)
  have htasks : s.tasks = [] := by
    rw [State.tasks, hqueue, List.nil_append]
    refine List.filterMap_eq_nil_iff.mpr fun pc hpc => ?_
    rw [Pc.task, idx?_eq_none.mpr (hidle pc hpc)]
    rfl
  have hlen := congrArg List.length H.sizes
  rw [List.length_map] at hlen
  rw [← H.sizes, List.map_map]
  refine (List.map_id _).symm.trans (List.map_congr_left fun r hr => ?_)
  obtain ⟨idx, hidx, hget⟩ := List.getElem_of_mem hr
  have hpushed : s.main.pushed p.cacheSizes.length = p.cacheSizes.length := by rw [hmain]; rfl
  obtain hmem | ⟨r', hr', hcounts⟩ := H.done idx (by omega)
  · rw [htasks] at hmem
    cases hmem
  · rw [List.getElem?_eq_getElem hidx, hget] at hr'
    cases hr'
    exact congrArg (SimRes.mk · r.cacheSize) hcounts

end

end

end C2DN.Simulator.MissRatioCurve
