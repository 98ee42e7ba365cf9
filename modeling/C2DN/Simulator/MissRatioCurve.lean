import C2DN.Lib.Monitor
import C2DN.Lib.Rounding
import C2DN.Lib.Run
import C2DN.Simulator.BinaryReader
import C2DN.Simulator.ObjList

/-!
# The miss ratio curve

`get_miss_ratio_curve` (`simulator.c`): one simulation for each cache size, run by the threads of a GLib
thread pool. The threads share `result`, the queue of the pool, and `progress` under `mtx`; `main` waits
for `progress` without the mutex. A step is one access to what they share or one round of a loop over a
trace, and a run is the list of the threads that take its steps.

Caches read the id and the size of a request. `cache_state`, which caches with a TTL fill in, and `sleep`
are left out, and of the messages all but the sizes, whose texts have eight bytes each; `n_warmup_req` is
any number. Counters are natural numbers.

GLib is taken to do what it documents: `g_thread_pool_push` appends to a queue, from which each of
`num_of_threads` threads takes a task when it has none, `g_thread_pool_free(pool, FALSE, TRUE)` waits until
all tasks are done, and a `GMutex` has one holder.
-/

namespace C2DN.Simulator.MissRatioCurve

/-- The counters of a simulation. -/
structure Counts where
  reqCnt : Nat
  reqBytes : Nat
  missCnt : Nat
  missBytes : Nat
  deriving DecidableEq, Repr

/-- `sim_res_t`. -/
structure SimRes extends Counts where
  cacheSize : Nat
  deriving DecidableEq, Repr

/-- `sim_mt_params_t`, with the functions of its readers and its cache. -/
structure Params (R C : Type) where
  readOneReq : R → TraceReq → Except BinFault (R × TraceReq)
  cloneReader : R → R
  createCacheWithNewSize : Nat → C
  /-- `get` of a cache, with the id and the size of the request -/
  get : C → Nat → Nat → Except MemFault (C × Bool)
  reader : R
  warmupReader : Option R
  nWarmupReq : Nat
  cacheSizes : List Nat

section
variable {R C : Type}

/-! ## `_get_mrc_thread` -/

/-- Where a thread of the pool is. -/
inductive Pc (R C : Type) where
  | idle
  | create (idx : Nat)
  | warmupReader (idx : Nat) (reader warmup : R) (cache : C) (req : TraceReq)
  | warmup (idx : Nat) (reader : R) (cache : C) (req : TraceReq) (nWarmup : Nat)
  | count (idx : Nat) (reader : R) (cache : C) (req : TraceReq) (counts : Counts)
  | missBytes (idx : Nat) (counts : Counts)
  | missCnt (idx : Nat) (counts : Counts)
  | reqCnt (idx : Nat) (counts : Counts)
  | reqBytes (idx : Nat) (counts : Counts)
  | lock (idx : Nat)
  | load (idx : Nat)
  | store (idx : Nat) (progress : Nat)
  | unlock (idx : Nat)

def Pc.isIdle : Pc R C → Bool
  | .idle => true
  | _ => false

/-- What the threads share. -/
structure Shared where
  /-- the data of the tasks that no thread has taken -/
  queue : List Nat
  mtx : Monitor Nat
  progress : Nat
  result : List SimRes
  /-- `params` and `mtx` are not freed -/
  live : Bool
  deriving DecidableEq, Repr

/-- `result[idx].x = …`. -/
def Shared.setResult (s : Shared) (idx : Nat) (f : SimRes → SimRes) : Except Halt Shared :=
  if idx < s.result.length then .ok { s with result := s.result.modify idx f } else .error .panic

/-- The counters after a request. -/
def Counts.add (k : Counts) (objSize : Nat) (hit : Bool) : Counts where
  reqCnt := k.reqCnt + 1
  reqBytes := k.reqBytes + objSize
  missCnt := if hit then k.missCnt else k.missCnt + 1
  missBytes := if hit then k.missBytes else k.missBytes + objSize

variable (p : Params R C)

def Params.read (reader : R) (req : TraceReq) : Except Halt (R × TraceReq) :=
  (p.readOneReq reader req).mapError fun _ => .panic

def Params.request (cache : C) (req : TraceReq) : Except Halt (C × Bool) :=
  (p.get cache req.objId.toNat req.objSize.toNat).mapError fun _ => .panic

/-- The first request of the trace is read. -/
def Params.enter (idx : Nat) (reader : R) (cache : C) (req : TraceReq) : Except Halt (Pc R C) :=
  (p.read reader req).map fun (reader, req) => .warmup idx reader cache req 0

/-- `new_request`. -/
def newRequest : TraceReq := ⟨0, 0, 1, 0, 0, true⟩

/-- A step of the `n`-th thread. -/
def threadStep (n : Nat) : Pc R C → Shared → Except Halt (Pc R C × Shared)
  | .idle, s =>
    match s.queue with
    | [] => .error .blocked
    | data :: queue => .ok (.create (data - 1), { s with queue })
  | .create idx, s =>
    match s.result[idx]? with
    | none => .error .panic
    | some r =>
      let reader := p.cloneReader p.reader
      let cache := p.createCacheWithNewSize r.cacheSize
      match p.warmupReader with
      | none => (p.enter idx reader cache newRequest).map fun pc => (pc, s)
      | some warmup => (p.read (p.cloneReader warmup) newRequest).map fun (warmup, req) =>
        (.warmupReader idx reader warmup cache req, s)
  | .warmupReader idx reader warmup cache req, s =>
    if req.valid then
      (p.request cache req).bind fun (cache, _) => (p.read warmup req).map fun (warmup, req) =>
        (.warmupReader idx reader warmup cache req, s)
    else (p.enter idx reader cache req).map fun pc => (pc, s)
  | .warmup idx reader cache req nWarmup, s =>
    if req.valid ∧ nWarmup < p.nWarmupReq then
      (p.request cache req).bind fun (cache, _) => (p.read reader req).map fun (reader, req) =>
        (.warmup idx reader cache req (nWarmup + 1), s)
    else .ok (.count idx reader cache req ⟨0, 0, 0, 0⟩, s)
  | .count idx reader cache req counts, s =>
    if req.valid then
      (p.request cache req).bind fun (cache, hit) => (p.read reader req).map fun (reader, req') =>
        (.count idx reader cache req' (counts.add req.objSize.toNat hit), s)
    else .ok (.missBytes idx counts, s)
  | .missBytes idx counts, s =>
    (s.setResult idx fun r => { r with missBytes := counts.missBytes }).map (.missCnt idx counts, ·)
  | .missCnt idx counts, s =>
    (s.setResult idx fun r => { r with missCnt := counts.missCnt }).map (.reqCnt idx counts, ·)
  | .reqCnt idx counts, s =>
    (s.setResult idx fun r => { r with reqCnt := counts.reqCnt }).map (.reqBytes idx counts, ·)
  | .reqBytes idx counts, s =>
    (s.setResult idx fun r => { r with reqBytes := counts.reqBytes }).map (.lock idx, ·)
  | .lock idx, s => (s.mtx.lock n).map fun mtx => (.load idx, { s with mtx })
  | .load idx, s => .ok (.store idx s.progress, s)
  | .store idx progress, s => .ok (.unlock idx, { s with progress := progress + 1 })
  | .unlock _, s => s.mtx.unlock.map fun mtx => (.idle, { s with mtx })

/-! ## `convert_size_to_str` -/

def kiB : Nat := 1024
def miB : Nat := 1048576
def giB : Nat := 1073741824
def tiB : Nat := 1099511627776

/-- `sprintf(str, "%.0lf …", (double)size / unit)`. The quotient is exact, as `unit` is a power of two. -/
def sprintfUnit (size : Int) (unit : Nat) (name : List Char) : List Char :=
  let x := roundTo 53 size.natAbs / unit
  (if size < 0 then ['-'] else []) ++ Nat.toDigits 10 (roundEven x).toNat ++ ' ' :: name

/-- `convert_size_to_str`. The units are of type `unsigned long long`, and `size` is compared as such. -/
def convertSizeToStr (size : Int) : List Char :=
  let n := (size % 2 ^ 64).toNat
  if tiB ≤ n then sprintfUnit size tiB ['T', 'i', 'B']
  else if giB ≤ n then sprintfUnit size giB ['G', 'i', 'B']
  else if miB ≤ n then sprintfUnit size miB ['M', 'i', 'B']
  else if kiB ≤ n then sprintfUnit size kiB ['K', 'i', 'B']
  else Nat.toDigits 10 n

/-- The text of a `uint64_t`, which becomes a `long long`, and its null byte fit into a `char[8]`. -/
def fitsStr (size : Nat) : Bool := (convertSizeToStr ((size : Int).bmod (2 ^ 64))).length + 1 ≤ 8

/-- There is a first and a last cache size, and their texts fit. -/
def SizesFit (cacheSizes : List Nat) : Prop :=
  cacheSizes.head?.any fitsStr = true ∧ cacheSizes.getLast?.any fitsStr = true

instance (cacheSizes : List Nat) : Decidable (SizesFit cacheSizes) := inferInstanceAs (Decidable (_ ∧ _))

example : fitsStr 1048576 = true ∧ fitsStr 1048576000 = false := by decide +kernel

/-! ## `get_miss_ratio_curve` -/

inductive MainPc where
  | push (i : Nat)
  | sizes
  | wait
  | free
  | clear
  | returned
  deriving DecidableEq, Repr

structure State (R C : Type) where
  main : MainPc
  threads : List (Pc R C)
  shared : Shared

inductive Tid where
  | main
  | thread (n : Nat)
  deriving DecidableEq, Repr

/-- The thread pool has been created. -/
def start (numOfThreads : Nat) : State R C where
  main := .push 1
  threads := List.replicate numOfThreads .idle
  shared := ⟨[], .free, 0, p.cacheSizes.map fun size => ⟨⟨0, 0, 0, 0⟩, size⟩, true⟩

/-- A step of `get_miss_ratio_curve`. -/
def mainStep (s : State R C) : Except Halt (State R C) :=
  match s.main with
  | .push i =>
    if i < p.cacheSizes.length + 1 then
      .ok { s with main := .push (i + 1), shared.queue := s.shared.queue ++ [i] }
    else .ok { s with main := .sizes }
  -- `cache_sizes[0]` and `cache_sizes[num_of_sizes - 1]` are written to arrays of eight bytes
  | .sizes => if SizesFit p.cacheSizes then .ok { s with main := .wait } else .error .panic
  | .wait =>
    if s.shared.progress < p.cacheSizes.length - 1 then .ok s else .ok { s with main := .free }
  -- `g_thread_pool_free(gthread_pool, FALSE, TRUE)` waits for all tasks
  | .free =>
    if s.shared.queue.isEmpty ∧ s.threads.all Pc.isIdle then .ok { s with main := .clear }
    else .error .blocked
  | .clear =>
    if s.shared.mtx.holder = none then .ok { s with main := .returned, shared.live := false }
    else .error .panic
  | .returned => .error .blocked

def step (s : State R C) : Tid → Except Halt (State R C)
  | .main => mainStep p s
  | .thread n =>
    match s.threads[n]? with
    | none => .error .blocked
    | some pc =>
      if ¬ pc.isIdle ∧ ¬ s.shared.live then .error .panic
      else (threadStep p n pc s.shared).map fun (pc, shared) =>
        { s with threads := s.threads.set n pc, shared }

/-! ## A simulation on its own -/

/-- A cache gets the objects with these ids and sizes. -/
def warmUp (cache : C) (objs : List (Nat × Nat)) : Except MemFault C :=
  objs.foldlM (fun cache obj => (p.get cache obj.1 obj.2).map (·.1)) cache

/-- The counters over the same requests. -/
def measure : C → Counts → List (Nat × Nat) → Except MemFault Counts
  | _, counts, [] => .ok counts
  | cache, counts, obj :: objs =>
    (p.get cache obj.1 obj.2).bind fun (cache, hit) => measure cache (counts.add obj.2 hit) objs

/-- A simulation with a cache of size `size`. -/
def simulate (warm trace : List (Nat × Nat)) (size : Nat) : Except MemFault Counts :=
  (warmUp p (p.createCacheWithNewSize size) warm).bind fun cache =>
    (warmUp p cache (trace.take p.nWarmupReq)).bind fun cache =>
      measure p cache ⟨0, 0, 0, 0⟩ (trace.drop p.nWarmupReq)

end

end C2DN.Simulator.MissRatioCurve
