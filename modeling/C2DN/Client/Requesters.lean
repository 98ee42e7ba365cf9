import Mathlib.Logic.Function.Basic
import C2DN.Lib.Chan
import C2DN.Client.Ending

/-!
# The goroutines of a replay

`RunAkamai` (`cmd/client`) starts a `DumpLatencyResultChan` for each latency channel, `dumpClientStat`, the
requesters (`RequesterHTTP`) and `LoadAkamaiBinData`, and waits for them. A step is one operation on what
they share: a channel, a metric, the wait group or `replayFinished`. A run is the list of the goroutines
that take its steps, with the answers to the requests and the times at which lines are written.

A panic of a goroutine ends the process, and so does `DPanicf` with the development logger. Latencies are
in nanoseconds, and the quotient of the two counters in `HandleFailedReq` is compared without rounding. The
choice of the host, sleeping, the lines of `client.stat` and of the log, and errors of files are left out.
-/

namespace C2DN.Client.Replay

/-- `myconst.ChanBufLen`. -/
def chanBufLen : Nat := 2000

/-- The buffer of a `bufio.Writer`. -/
def bufSize : Nat := 4096

/-- Why a goroutine takes no step, or how it ends the process. -/
inductive Stop where
  | chan (h : Chan.Halt)
  /-- it has returned, or it waits for the wait group -/
  | wait
  | negativeWaitGroup
  | indexOutOfRange
  | dpanic
  | tooManyFailed
  | fatal
  deriving DecidableEq, Repr

inductive HitType where
  | ramHit
  | hit
  | miss
  deriving DecidableEq, Repr

/-- The labels of `clientReqMetric` and `clientTrafficMetric`. -/
inductive ReqType where
  | all
  | ramHit
  | hit
  | miss
  | failed
  deriving DecidableEq, Repr

def HitType.reqType : HitType → ReqType
  | .ramHit => .ramHit
  | .hit => .hit
  | .miss => .miss

/-- `LatencyResult`; the text of `Req` is made of the id and the size of the request. -/
structure LatencyResult where
  latency : Nat
  id : UInt32
  size : UInt32
  deriving DecidableEq, Repr

/-- `ClientLatencyChans`. -/
inductive Lat where
  | firstByte (t : HitType)
  | fullResp (t : HitType)
  deriving DecidableEq, Repr

structure Param where
  /-- `InitLogger` makes the development logger -/
  development : Bool
  /-- `Mode` is `replayCloseloop` -/
  closeloop : Bool
  /-- a line of a latency file, with the time -/
  line : Nat → LatencyResult → List UInt8
  /-- the last line -/
  endOfOutput : Nat → List UInt8

/-! ## A request -/

/-- `reader.Read(buf)`, with the time since the request was sent. -/
structure Read where
  readSize : Nat
  elapsed : Nat
  deriving DecidableEq, Repr

/-- The error of the last `reader.Read(buf)`. -/
inductive Ending where
  | eof (elapsed : Nat)
  | err
  deriving DecidableEq, Repr

structure Response where
  via : List Char
  /-- without an error -/
  reads : List Read
  last : Read
  ending : Ending
  deriving DecidableEq, Repr

/-- What a requester meets with a request. -/
inductive Outcome where
  | noRequest
  | sendErr
  | response (r : Response)
  deriving DecidableEq, Repr

/-- What a requester does for a request. -/
inductive Act where
  | send (c : Lat) (r : LatencyResult)
  | count (t : ReqType)
  | traffic (t : ReqType) (bodySize : UInt32)
  /-- `HandleFailedReq` compares its counters -/
  | limit
  | stop (e : Stop)
  deriving DecidableEq, Repr

section
variable (p : Param)

/-- `slogger.DPanicf`. -/
def dPanicf : List Act := if p.development then [.stop .dpanic] else []

def handleFailedReq : List Act := [.count .failed, .limit]

/-- `ProcessHeader`, with `none` for -1. -/
def processHeader (headerStr : List Char) : List Act × Option HitType :=
  if headerStr.isEmpty then ([], none)
  else
    let viaStr := (headerStr.reverse.takeWhile (· ≠ '[')).reverse
    let idx2 := viaStr.findIdx (· = 'c')
    match viaStr[if idx2 < viaStr.length then idx2 + 1 else 0]? with
    | none => ([.stop .indexOutOfRange], none)
    | some 'R' => ([], some .ramHit)
    | some 'H' => ([], some .hit)
    | some 'A' | some 'M' | some 'S' => ([], some .miss)
    | some _ => (dPanicf p, some .ramHit)

variable (req : FullRequest) (hitType : Option HitType)

/-- The latency of the first byte, which is 0 until it is known. -/
def firstByte (latencyFirstByte : Nat) (r : Read) : List Act :=
  if latencyFirstByte = 0 then
    match hitType with
    | some t => [.send (.firstByte t) ⟨r.elapsed, req.id, req.size⟩]
    | none => dPanicf p
  else []

/-- The end of the body. -/
def endOfBody (bodySize : UInt32) : Ending → List Act
  | .eof elapsed =>
    (match hitType with
      | some t => [.send (.fullResp t) ⟨elapsed, req.id, req.size⟩, .count t.reqType,
        .traffic t.reqType bodySize]
      | none => dPanicf p) ++ [.count .all, .traffic .all bodySize]
  | .err => handleFailedReq

/-- The loop over the body, and what follows it. -/
def readBody (last : Read) (ending : Ending) (bodySize : UInt32) (latencyFirstByte : Nat) :
    List Read → List Act
  | [] =>
    let bodySize := bodySize + UInt32.ofNat last.readSize
    firstByte p req hitType latencyFirstByte last ++ endOfBody p req hitType bodySize ending ++
      if 16 < bodySize - req.size then handleFailedReq else []
  | r :: reads =>
    firstByte p req hitType latencyFirstByte r ++ (if r.readSize = 0 then dPanicf p else []) ++
      readBody last ending (bodySize + UInt32.ofNat r.readSize)
        (if latencyFirstByte = 0 then r.elapsed else latencyFirstByte) reads

/-- What `RequesterHTTP` does with a request that it has received. -/
def serve : Outcome → List Act
  | .noRequest => dPanicf p
  | .sendErr => handleFailedReq
  | .response r =>
    let (acts, hitType) := processHeader p r.via
    acts ++ readBody p req hitType r.last r.ending 0 0 r.reads

end

/-! ## The goroutines -/

/-- What the goroutines share. -/
structure Shared where
  reqChan : Chan FullRequest
  latChans : Lat → Chan LatencyResult
  /-- `clientStateMetric` with the label `running_worker` -/
  running : Int
  reqMetric : ReqType → Nat
  trafficMetric : ReqType → Nat
  replayFinished : Bool
  wg : Int

/-- `wg.Add`. -/
def Shared.add (s : Shared) (delta : Int) : Except Stop Shared :=
  if s.wg + delta < 0 then .error .negativeWaitGroup else .ok { s with wg := s.wg + delta }

def Shared.setLat (s : Shared) (c : Lat) (ch : Chan LatencyResult) : Shared :=
  { s with latChans := Function.update s.latChans c ch }

@[simp] theorem latChans_setLat_self (s : Shared) (c : Lat) (ch : Chan LatencyResult) :
    (s.setLat c ch).latChans c = ch := by
  unfold Shared.setLat
  exact Function.update_self ..

theorem latChans_setLat_of_ne (s : Shared) {c c' : Lat} (ch : Chan LatencyResult) (h : c' ≠ c) :
    (s.setLat c ch).latChans c' = s.latChans c' := by
  unfold Shared.setLat
  exact Function.update_of_ne h ..

/-- The order in which a requester closes the latency channels. -/
def latChans : List Lat :=
  [.firstByte .ramHit, .firstByte .hit, .firstByte .miss,
    .fullResp .ramHit, .fullResp .hit, .fullResp .miss]

/-- Where a requester is. -/
inductive ReqPc where
  | start
  | inc
  | recv
  | serving (acts : List Act)
  | limit (nFailed : Nat) (acts : List Act)
  | dec
  | check
  | closing (chans : List Lat)
  | wgDone
  | returned
  deriving DecidableEq, Repr

/-- The first of the operations for a request. -/
def actStep (s : Shared) (acts : List Act) : Act → Except Stop (ReqPc × Shared)
  | .send c r => (((s.latChans c).send chanBufLen r).mapError .chan).map fun ch =>
    (.serving acts, s.setLat c ch)
  | .count t => .ok (.serving acts,
    { s with reqMetric := Function.update s.reqMetric t (s.reqMetric t + 1) })
  | .traffic t bodySize => .ok (.serving acts,
    { s with trafficMetric := Function.update s.trafficMetric t (s.trafficMetric t + bodySize.toNat) })
  | .limit => .ok (.limit (s.reqMetric .failed) acts, s)
  | .stop e => .error e

/-- A step of `RequesterHTTP`; `o` is what it meets with a request that it receives in this step. -/
def requesterStep (p : Param) (o : Outcome) : ReqPc → Shared → Except Stop (ReqPc × Shared)
  | .start, s => (s.add 1).map (.inc, ·)
  | .inc, s => .ok (.recv, { s with running := s.running + 1 })
  | .recv, s => (s.reqChan.recv.mapError .chan).bind fun (req, reqChan) =>
    match req with
    | none => .ok (.dec, { s with reqChan })
    | some req =>
      if p.closeloop then .error .fatal else .ok (.serving (serve p req o), { s with reqChan })
  | .serving [], s => .ok (.recv, s)
  | .serving (act :: acts), s => actStep s acts act
  | .limit nFailed acts, s =>
    if s.reqMetric .all < 10 * nFailed ∧ 2000 < s.reqMetric .all then .error .tooManyFailed
    else .ok (.serving acts, s)
  | .dec, s => .ok (.check, { s with running := s.running - 1 })
  | .check, s => .ok (if s.running = 0 then .closing latChans else .wgDone, s)
  | .closing (c :: chans), s => ((s.latChans c).close.mapError .chan).map fun ch =>
    (.closing chans, s.setLat c ch)
  | .closing [], s => .ok (.wgDone, { s with replayFinished := true })
  | .wgDone, s => (s.add (-1)).map (.returned, ·)
  | .returned, _ => .error .wait

inductive LoaderPc where
  | start (ops : List ChanOp)
  | loop (ops : List ChanOp)
  | returned
  deriving DecidableEq, Repr

/-- A step of `LoadAkamaiBinData`, with the operations on `reqChan` that are left. -/
def loaderStep : LoaderPc → Shared → Except Stop (LoaderPc × Shared)
  | .start ops, s => (s.add 1).map (.loop ops, ·)
  | .loop (.send req :: ops), s => ((s.reqChan.send chanBufLen req).mapError .chan).map fun reqChan =>
    (.loop ops, { s with reqChan })
  | .loop (.close :: ops), s => (s.reqChan.close.mapError .chan).map fun reqChan =>
    (.loop ops, { s with reqChan })
  | .loop [], s => (s.add (-1)).map (.returned, ·)
  | .returned, _ => .error .wait

inductive Pc where
  | start
  | loop
  | wgDone
  | returned
  deriving DecidableEq, Repr

structure Dumper where
  pc : Pc
  writer : BufWriter UInt8
  deriving DecidableEq, Repr

/-- A step of `DumpLatencyResultChan` at the time `t`. The writer is not flushed at the end. -/
def dumperStep (p : Param) (c : Lat) (t : Nat) (d : Dumper) (s : Shared) :
    Except Stop (Dumper × Shared) :=
  match d.pc with
  | .start => (s.add 1).map ({ d with pc := .loop }, ·)
  | .loop => ((s.latChans c).recv.mapError .chan).map fun (e, ch) =>
    match e with
    | none => ({ pc := .wgDone, writer := d.writer.writeString bufSize (p.endOfOutput t) }, s.setLat c ch)
    | some e =>
      let writer := d.writer.writeString bufSize (p.line t e)
      ({ d with writer := if t % 10 = 0 then writer.flush else writer }, s.setLat c ch)
  | .wgDone => (s.add (-1)).map ({ d with pc := .returned }, ·)
  | .returned => .error .wait

/-- A step of `dumpClientStat`. -/
def statStep : Pc → Shared → Except Stop (Pc × Shared)
  | .start, s => (s.add 1).map (.loop, ·)
  | .loop, s => .ok (if s.replayFinished then .wgDone else .loop, s)
  | .wgDone, s => (s.add (-1)).map (.returned, ·)
  | .returned, _ => .error .wait

/-! ## `RunAkamai` -/

structure State where
  /-- `RunAkamai` is past `wg.Wait()` -/
  returned : Bool
  loader : LoaderPc
  requesters : List ReqPc
  dumpers : Lat → Dumper
  stat : Pc
  shared : Shared

/-- Whose step it is. -/
inductive Event where
  | main
  | loader
  | requester (n : Nat) (o : Outcome)
  | dumper (c : Lat) (t : Nat)
  | stat
  deriving DecidableEq, Repr

/-- The goroutines are about to begin. -/
def start (concurrency : Nat) (ops : List ChanOp) : State where
  returned := false
  loader := .start ops
  requesters := List.replicate concurrency .start
  dumpers := fun _ => ⟨.start, ⟨[], []⟩⟩
  stat := .start
  shared := ⟨.make, fun _ => .make, 0, fun _ => 0, fun _ => 0, false, 0⟩

def step (p : Param) (s : State) (ev : Event) : Except Stop State :=
  if s.returned then .error .wait
  else match ev with
    | .main => if s.shared.wg = 0 then .ok { s with returned := true } else .error .wait
    | .loader => (loaderStep s.loader s.shared).map fun (loader, shared) => { s with loader, shared }
    | .requester n o =>
      match s.requesters[n]? with
      | none => .error .wait
      | some pc => (requesterStep p o pc s.shared).map fun (pc, shared) =>
        { s with requesters := s.requesters.set n pc, shared }
    | .dumper c t => (dumperStep p c t (s.dumpers c) s.shared).map fun (d, shared) =>
      { s with dumpers := Function.update s.dumpers c d, shared }
    | .stat => (statStep s.stat s.shared).map fun (stat, shared) => { s with stat, shared }

def LoaderPc.begun : LoaderPc → Bool
  | .start _ => false
  | _ => true

/-- Every goroutine has called `wg.Add`. -/
def State.Started (s : State) : Prop :=
  s.loader.begun = true ∧ .start ∉ s.requesters ∧ (∀ c ∈ latChans, (s.dumpers c).pc ≠ .start) ∧
    s.stat ≠ .start

instance (s : State) : Decidable s.Started := inferInstanceAs (Decidable (_ ∧ _ ∧ _ ∧ _))

/-- `time.Sleep(2 * time.Second)` before `wg.Wait()`: every goroutine has begun by then. -/
def Slept (s : State) (ev : Event) : Prop := ev = .main → s.Started

instance (s : State) (ev : Event) : Decidable (Slept s ev) := inferInstanceAs (Decidable (_ → _))

end C2DN.Client.Replay
