import C2DN.Lib.Monitor
import C2DN.Lib.Run
import C2DN.Frontend.Stream

/-!
# The goroutines of a frontend transaction

`FrontendMain` and `handleFullObj` (`cmd/frontend/frontend.go`), `checkPeerHit`, `_checkOnePeerHit`,
`handleChunk`, `fetchChunk` and `chunkGetCleanupTxn` (`cmd/frontend/get.go`) as goroutines that share
one `FrontendTxnData`. A step is one access to what they share: a field, an atomic counter, `Mtx` or
`Cond`. A run is the list of the goroutines that take its steps; what the peers answer and how
`rand.Intn` falls is in `Env`.

`appendDebugString` takes `Mtx` and gives it back, with nothing but the debug string under it: it is
one step that has to wait for a free `Mtx`, and no step below `PerReqLogging`. `TxnFinishCache` is a
flag: `Get` succeeds from `Set` on. Sending the object (`PipeDataChunkToClient`, `Decode`) is one
step here. Delays, metrics and texts are left out. `DPanicf` is logging; with the development
logger it ends the process, and the states after it are not reached.
-/

namespace C2DN.Frontend.Goroutines

inductive Mode where
  | c2dn
  | naiveCoding
  | twoRepAlways
  | noRep
  deriving DecidableEq, Repr

/-- `feParam`, with `myconst.DebugLevel >= myconst.PerReqLogging`. -/
structure Param extends FrontendParam where
  mode : Mode
  nodeIdx : Int
  debug : Bool
  /-- the code has `ECN - ECK` parity chunks -/
  le : ECK ≤ ECN

/-- The header `Obj-Type` and `feTxn.ObjType`. -/
inductive ObjType where
  | empty
  | full
  | chunk
  | other (text : String)
  deriving DecidableEq, Repr

/-- What `_checkOnePeerHit` reads of the answer to its HEAD request. -/
structure CheckReply where
  cacheHit : Bool
  objType : ObjType
  deriving DecidableEq, Repr

/-- The answer to the GET request of `handleFullObj`: a transport error, a status other than 200, or
the object. -/
inductive FullReply where
  | err
  | status
  | ok (cacheHit : Bool) (objType : ObjType)
  deriving DecidableEq, Repr

/-- The answer to the GET request of `fetchChunk`. -/
inductive ChunkReply where
  | err
  | status
  | ok
  deriving DecidableEq, Repr

/-- What a transaction meets. Calls of `FrontendMain` are numbered from 1. -/
structure Env where
  /-- `feTxn.PeerIdx`: the hosts of the chunks and, at `ECN`, of the previous parity chunk, or -1 -/
  peerIdx : Nat → Int
  /-- `rand.Intn(2)` is 1 in this call of `FrontendMain` -/
  intn : Nat → Bool
  /-- the answer to the check of this chunk in this call; `none`: a transport error -/
  check : Nat → Nat → Option CheckReply
  full : Nat → FullReply
  chunk : Nat → ChunkReply

inductive Tid where
  | main
  | check (n : Nat)
  | fetch (n : Nat)
  | pipe
  deriving DecidableEq, Repr

/-- `appendDebugString`. -/
def appendDebugString (p : Param) (m : Monitor Tid) : Except Halt Unit :=
  if p.debug ∧ m.holder ≠ none then .error .blocked else .ok ()

/-! ## `_checkOnePeerHit` -/

/-- The peer check results of `FrontendTxnData`. -/
structure Peer where
  peerCheckFinished : Nat
  nPeerHit : Nat
  isPeerHit : List Bool
  objType : ObjType
  deriving DecidableEq, Repr

inductive CheckPc where
  | request
  | report (r : CheckReply)
  | count (objType : ObjType)
  | lockType (objType : ObjType)
  | setType (objType : ObjType)
  | debugType
  | unlockType
  | finish
  | signal
  | debugEnd
  | returned (completed : Bool)
  deriving DecidableEq, Repr

structure Checker where
  /-- the call of `FrontendMain` that started it -/
  round : Nat
  chunkIdx : Nat
  pc : CheckPc
  deriving DecidableEq, Repr

/-- A step of `_checkOnePeerHit(feTxn, url, i)`. -/
def checkStep (p : Param) (reply : Option CheckReply) (t : Tid) (i : Nat) :
    CheckPc → Peer → Monitor Tid → Except Halt (CheckPc × Peer × Monitor Tid)
  | .request, q, m =>
    match reply with
    | none => .ok (.returned false, q, m)
    | some r => .ok (.report r, q, m)
  | .report r, q, m =>
    if i < q.isPeerHit.length then
      .ok (if r.cacheHit then .count r.objType else .finish,
        { q with isPeerHit := q.isPeerHit.set i r.cacheHit }, m)
    else .ok (.returned false, q, m) -- the panic is recovered by `CatchPanicWithFeTxn`
  | .count ty, q, m => .ok (.lockType ty, { q with nPeerHit := q.nPeerHit + 1 }, m)
  | .lockType ty, q, m => (m.lock t).map fun m => (.setType ty, q, m)
  | .setType ty, q, m =>
    if q.objType = .empty then .ok (.debugType, { q with objType := ty }, m)
    else .ok (.unlockType, q, m)
  -- here the goroutine holds `Mtx` already
  | .debugType, q, m => (appendDebugString p m).map fun _ => (.unlockType, q, m)
  | .unlockType, q, m => m.unlock.map fun m => (.finish, q, m)
  | .finish, q, m =>
    .ok (if p.ECN ≤ q.peerCheckFinished + 1 then .signal else .debugEnd,
      { q with peerCheckFinished := q.peerCheckFinished + 1 }, m)
  | .signal, q, m => .ok (.debugEnd, q, m.signal)
  | .debugEnd, q, m => (appendDebugString p m).map fun _ => (.returned true, q, m)
  | .returned _, _, _ => .error .blocked

/-! ## `fetchChunk` -/

/-- `feTxn.ChunkStat` and `feTxn.Resps`. A response is the number of the goroutine that got it. -/
structure Chunks where
  resps : List (Option Nat)
  isAvailable : List Bool
  numAvailable : Nat
  numDataAvailable : Nat
  numSkipped : Nat
  numFailed : Nat
  missingPChunkIdx : List Nat
  /-- `TxnFinishCache` has an entry for the transaction -/
  finished : Bool
  /-- the response bodies that have been closed, and by whom -/
  closed : List (Tid × Nat)
  deriving DecidableEq, Repr

/-- How a `fetchChunk` goroutine has ended: with enough chunks there, with a transport error or a
status other than 200, with its response in `feTxn.Resps`, or after the transaction's decision. -/
inductive FetchEnd where
  | skipped
  | failed
  | kept
  | discarded
  deriving DecidableEq, Repr

inductive FetchPc where
  | start
  | spin
  | check
  | debugSkip
  | skip
  | request
  | debugFetch
  | lock
  | get
  | store
  | mark
  | count
  | countData
  | loadFailed
  | loadAvailable (nFailed : Nat)
  | signal
  | unlock
  | discard
  | unlockDiscard
  | returned (r : FetchEnd)
  deriving DecidableEq, Repr

def FetchPc.hasReturned : FetchPc → Bool
  | .returned _ => true
  | _ => false

structure Fetcher where
  chunkIdx : Nat
  pc : FetchPc
  deriving DecidableEq, Repr

/-- A step of the `n`-th `fetchChunk` goroutine, for chunk `i`. -/
def fetchStep (p : Param) (reply : ChunkReply) (n i : Nat) :
    FetchPc → Chunks → Monitor Tid → Except Halt (FetchPc × Chunks × Monitor Tid)
  | .start, c, m =>
    if i < c.isAvailable.length then
      .ok (if p.ECK ≤ i then .spin else .check,
        { c with isAvailable := c.isAvailable.set i false }, m)
    else .error .panic
  | .spin, c, m => .ok (if c.numAvailable = 0 then .spin else .check, c, m)
  | .check, c, m => .ok (if p.ECK ≤ c.numAvailable then .debugSkip else .request, c, m)
  | .debugSkip, c, m => (appendDebugString p m).map fun _ => (.skip, c, m)
  | .skip, c, m => .ok (.returned .skipped, { c with numSkipped := c.numSkipped + 1 }, m)
  | .request, c, m =>
    match reply with
    -- neither kind of failure counts in `NumFailed`
    | .err => .ok (.returned .failed, c, m)
    | .status => .ok (.returned .failed, { c with closed := c.closed ++ [(.fetch n, n)] }, m)
    | .ok => .ok (.debugFetch, c, m)
  | .debugFetch, c, m => (appendDebugString p m).map fun _ => (.lock, c, m)
  | .lock, c, m => (m.lock (.fetch n)).map fun m => (.get, c, m)
  | .get, c, m => .ok (if c.finished then .discard else .store, c, m)
  | .store, c, m => .ok (.mark, { c with resps := c.resps.set i (some n) }, m)
  | .mark, c, m => .ok (.count, { c with isAvailable := c.isAvailable.set i true }, m)
  | .count, c, m =>
    .ok (if i < p.ECK then .countData else .loadFailed,
      { c with numAvailable := c.numAvailable + 1 }, m)
  | .countData, c, m =>
    .ok (.loadFailed, { c with numDataAvailable := c.numDataAvailable + 1 }, m)
  | .loadFailed, c, m => .ok (.loadAvailable c.numFailed, c, m)
  | .loadAvailable nFailed, c, m =>
    .ok (if p.ECK ≤ c.numAvailable ∨ p.ECN < nFailed + p.ECK then .signal else .unlock, c, m)
  | .signal, c, m => .ok (.unlock, c, m.signal)
  | .unlock, c, m => m.unlock.map fun m => (.returned .kept, c, m)
  | .discard, c, m => .ok (.unlockDiscard, { c with closed := c.closed ++ [(.fetch n, n)] }, m)
  | .unlockDiscard, c, m => m.unlock.map fun m => (.returned .discarded, c, m)
  | .returned _, _, _ => .error .blocked

/-! ## `FrontendMain`, `handleFullObj`, `checkPeerHit` and `handleChunk` -/

inductive MainPc where
  | frontendMain
  -- `checkPeerHit`
  | resetCheck
  | makeIsPeerHit
  | startCheck (i : Nat)
  | lockCheck
  | loadCheck
  | waitCheck
  | sleepCheck
  | unlockCheck
  -- the rest of `FrontendMain`
  | debugLocal
  | readLocalHit
  | readAlternateHit
  | dispatch
  -- `handleFullObj`
  | fullObj (peerCheckIsMiss : Bool)
  | markHit (objType : ObjType)
  | setObjType
  | restart
  | serveFull (cacheHit : Bool)
  -- `handleChunk`
  | handleChunk
  | fetchLoop (i : Nat)
  | missLock (i : Nat)
  | missAppend (i : Nat)
  | lockAvail
  | loadAvail
  | loadFailed
  | waitAvail
  | sleepAvail
  | unlockAvail
  | checkFailed
  | tooManyFailed
  | debugReady
  | lockFinish
  | setFinish
  | unlockFinish
  | answer
  | choose
  | startPipe (noDecode : Bool)
  | returned
  deriving DecidableEq, Repr

/-- The goroutine that sends the object: `chunkGetCleanupTxn` closes the bodies one by one. -/
inductive PipePc where
  | idle
  | sending
  | cleanup (i : Nat)
  | done
  deriving DecidableEq, Repr

/-- Which of `handleFullObj` and `handleChunk` has answered, with Via `[cH]` or `[cM]`. -/
inductive Answer where
  | full (hit : Bool)
  | chunk (hit : Bool)
  deriving DecidableEq, Repr

structure State where
  main : MainPc
  mon : Monitor Tid
  peer : Peer
  checkers : List Checker
  chunk : Chunks
  fetchers : List Fetcher
  pipe : PipePc
  nFrontendMain : Nat
  localECIdx : Nat
  localHit : Bool
  alternateLeadHit : Bool
  firstReqHostIdx : Int
  answer : Option Answer
  /-- the way in which the object is sent: without decoding or through `Decode` -/
  noDecode : Option Bool
  deriving DecidableEq, Repr

/-- A transaction as `akamaiHandler` makes it. -/
def start : State where
  main := .frontendMain
  mon := .free
  peer := ⟨0, 0, [], .empty⟩
  checkers := []
  chunk := ⟨[], [], 0, 0, 0, 0, [], false, []⟩
  fetchers := []
  pipe := .idle
  nFrontendMain := 0
  localECIdx := 0
  localHit := false
  alternateLeadHit := false
  firstReqHostIdx := 0
  answer := none
  noDecode := none

/-- The index among the chunks that `FrontendMain` takes for its own. -/
def localIdx (p : Param) (e : Env) (s : State) : Nat :=
  if p.mode = .noRep then s.localECIdx
  else if e.peerIdx 0 = p.nodeIdx then 0
  else if e.peerIdx 1 = p.nodeIdx then 1
  else if e.intn (s.nFrontendMain + 1) then 1 else 0

/-- The number of peers that `checkPeerHit` asks. -/
def nCheck (p : Param) (e : Env) : Nat :=
  if p.mode = .c2dn ∧ e.peerIdx p.ECN ≠ -1 ∧ e.peerIdx p.ECN ≠ e.peerIdx (p.ECN - 1) then p.ECN + 1
  else p.ECN

/-- The number of finished checks that `checkPeerHit` waits for. -/
def Param.needed (p : Param) : Nat :=
  match p.mode with
  | .twoRepAlways | .noRep => p.ECN
  | .c2dn | .naiveCoding => p.ECK

/-- The chunk that `fetchChunk` fetches when called for `chunkIdx`. -/
def Param.fetchIdx (p : Param) (chunkIdx : Nat) : Nat :=
  if p.ECN ≤ chunkIdx then p.ECN - 1 else chunkIdx

def State.setPeerHit (s : State) (i : Nat) : Except Halt State :=
  if i < s.peer.isPeerHit.length then
    .ok { s with peer := { s.peer with isPeerHit := s.peer.isPeerHit.set i true } }
  else .error .panic

def State.fetch (p : Param) (s : State) (i : Nat) : State :=
  { s with fetchers := s.fetchers ++ [⟨p.fetchIdx i, .start⟩], main := .fetchLoop (i + 1) }

/-- A step of the goroutine that calls `FrontendMain`. -/
def mainStep (p : Param) (e : Env) (s : State) : Except Halt State :=
  match s.main with
  | .frontendMain =>
    if 6 < s.nFrontendMain + 1 then
      .ok { s with nFrontendMain := s.nFrontendMain + 1, main := .returned }
    else
      .ok { s with
        nFrontendMain := s.nFrontendMain + 1, localECIdx := localIdx p e s, main := .resetCheck }
  | .resetCheck =>
    .ok { s with peer := { s.peer with peerCheckFinished := 0 }, main := .makeIsPeerHit }
  | .makeIsPeerHit =>
    .ok { s with
      peer := { s.peer with isPeerHit := List.replicate (nCheck p e) false }, main := .startCheck 0 }
  | .startCheck i =>
    if i < nCheck p e then
      if e.peerIdx i = -1 then .ok { s with main := .startCheck (i + 1) }
      else
        .ok { s with
          peer := { s.peer with isPeerHit := s.peer.isPeerHit.set i false }
          checkers := s.checkers ++ [⟨s.nFrontendMain, i, .request⟩]
          main := .startCheck (i + 1) }
    else .ok { s with main := .lockCheck }
  | .lockCheck => (s.mon.lock .main).map fun m => { s with mon := m, main := .loadCheck }
  | .loadCheck =>
    .ok { s with
      main := if s.peer.peerCheckFinished < p.needed then .waitCheck else .unlockCheck }
  | .waitCheck => (s.mon.wait .main).map fun m => { s with mon := m, main := .sleepCheck }
  | .sleepCheck => (s.mon.wake .main).map fun m => { s with mon := m, main := .loadCheck }
  | .unlockCheck => s.mon.unlock.map fun m => { s with mon := m, main := .debugLocal }
  | .debugLocal => (appendDebugString p s.mon).map fun _ => { s with main := .readLocalHit }
  | .readLocalHit =>
    match s.peer.isPeerHit[s.localECIdx]? with
    | none => .error .panic
    | some hit =>
      .ok { s with
        localHit := hit, main := if p.mode = .noRep then .dispatch else .readAlternateHit }
  | .readAlternateHit =>
    match s.peer.isPeerHit[1 - s.localECIdx]? with
    | none => .error .panic
    | some hit => .ok { s with alternateLeadHit := hit, main := .dispatch }
  | .dispatch =>
    .ok { s with
      firstReqHostIdx :=
        e.peerIdx (if !s.localHit && s.alternateLeadHit then 1 - s.localECIdx else s.localECIdx)
      main :=
        if s.localHit || s.alternateLeadHit then
          match s.peer.objType with
          | .full => .fullObj false
          | .chunk => .handleChunk
          | _ => .returned
        else .fullObj true }
  | .fullObj peerCheckIsMiss =>
    match e.full s.nFrontendMain with
    | .err => .ok { s with main := .returned }
    | .status => (appendDebugString p s.mon).map fun _ => { s with main := .frontendMain }
    | .ok cacheHit objType =>
      (appendDebugString p s.mon).map fun _ =>
        { s with main := if cacheHit && peerCheckIsMiss then .markHit objType else .serveFull cacheHit }
  | .markHit objType =>
    let next := if objType = .chunk then MainPc.setObjType else .serveFull true
    if s.firstReqHostIdx = p.nodeIdx then
      (s.setPeerHit s.localECIdx).map fun s => { s with localHit := true, main := next }
    else
      (s.setPeerHit (1 - s.localECIdx)).map fun s => { s with alternateLeadHit := true, main := next }
  | .setObjType => .ok { s with peer := { s.peer with objType := .chunk }, main := .restart }
  | .restart => (appendDebugString p s.mon).map fun _ => { s with main := .frontendMain }
  | .serveFull cacheHit =>
    if s.localHit || s.alternateLeadHit then
      if cacheHit then .ok { s with answer := some (.full true), main := .returned }
      else .ok { s with main := .restart }
    else .ok { s with answer := some (.full false), main := .returned }
  | .handleChunk =>
    .ok { s with
      chunk := { s.chunk with
        resps := List.replicate (p.ECN + 1) none, isAvailable := List.replicate (p.ECN + 1) false }
      main := .fetchLoop 0 }
  | .fetchLoop i =>
    match s.peer.isPeerHit[i]? with
    | none => .ok { s with main := .lockAvail }
    | some chunkHit =>
      if i < p.ECK then .ok (s.fetch p i)
      else if i < p.ECN then
        if chunkHit then .ok (s.fetch p i) else .ok { s with main := .missLock i }
      else .ok { s with main := .fetchLoop (i + 1) }
  | .missLock i => (s.mon.lock .main).map fun m => { s with mon := m, main := .missAppend i }
  | .missAppend i =>
    s.mon.unlock.map fun m =>
      { s with
        chunk := { s.chunk with missingPChunkIdx := s.chunk.missingPChunkIdx ++ [i] }
        mon := m, main := .fetchLoop (i + 1) }
  | .lockAvail => (s.mon.lock .main).map fun m => { s with mon := m, main := .loadAvail }
  | .loadAvail =>
    .ok { s with main := if s.chunk.numAvailable < p.ECK then .loadFailed else .unlockAvail }
  | .loadFailed =>
    .ok { s with main := if s.chunk.numFailed + p.ECK ≤ p.ECN then .waitAvail else .unlockAvail }
  | .waitAvail => (s.mon.wait .main).map fun m => { s with mon := m, main := .sleepAvail }
  | .sleepAvail => (s.mon.wake .main).map fun m => { s with mon := m, main := .loadAvail }
  | .unlockAvail => s.mon.unlock.map fun m => { s with mon := m, main := .checkFailed }
  | .checkFailed =>
    .ok { s with main := if p.ECN < s.chunk.numFailed + p.ECK then .tooManyFailed else .debugReady }
  | .tooManyFailed =>
    let resps := (s.chunk.resps.zip s.chunk.isAvailable).filterMap fun (r, a) => if a then r else none
    .ok { s with
      chunk := { s.chunk with closed := s.chunk.closed ++ resps.map (.main, ·) }, main := .returned }
  | .debugReady => (appendDebugString p s.mon).map fun _ => { s with main := .lockFinish }
  | .lockFinish => (s.mon.lock .main).map fun m => { s with mon := m, main := .setFinish }
  | .setFinish => .ok { s with chunk := { s.chunk with finished := true }, main := .unlockFinish }
  | .unlockFinish => s.mon.unlock.map fun m => { s with mon := m, main := .answer }
  | .answer => .ok { s with answer := some (.chunk (p.ECK ≤ s.peer.nPeerHit)), main := .choose }
  | .choose => .ok { s with main := .startPipe (s.chunk.numDataAvailable = p.ECK) }
  | .startPipe noDecode =>
    (appendDebugString p s.mon).map fun _ =>
      { s with noDecode := some noDecode, pipe := .sending, main := .returned }
  | .returned => .error .blocked

/-- A step of the goroutine that sends the object. -/
def pipeStep (p : Param) (s : State) : Except Halt State :=
  match s.pipe with
  | .sending => (appendDebugString p s.mon).map fun _ => { s with pipe := .cleanup 0 }
  | .cleanup i =>
    match s.chunk.resps[i]?, s.chunk.isAvailable[i]? with
    | some r, some true =>
      match r with
      | some n =>
        .ok { s with
          chunk := { s.chunk with closed := s.chunk.closed ++ [(.pipe, n)] }, pipe := .cleanup (i + 1) }
      | none => .error .panic
    | some _, some false => .ok { s with pipe := .cleanup (i + 1) }
    | some _, none => .error .panic
    | none, _ => .ok { s with pipe := .done }
  | .idle | .done => .error .blocked

/-- A step of goroutine `t`. -/
def step (p : Param) (e : Env) (s : State) : Tid → Except Halt State
  | .main => mainStep p e s
  | .check n =>
    match s.checkers[n]? with
    | none => .error .blocked
    | some c =>
      (checkStep p (e.check c.round c.chunkIdx) (.check n) c.chunkIdx c.pc s.peer s.mon).map
        fun (pc, q, m) =>
          { s with checkers := s.checkers.set n { c with pc := pc }, peer := q, mon := m }
  | .fetch n =>
    match s.fetchers[n]? with
    | none => .error .blocked
    | some f =>
      (fetchStep p (e.chunk f.chunkIdx) n f.chunkIdx f.pc s.chunk s.mon).map fun (pc, c, m) =>
        { s with fetchers := s.fetchers.set n { f with pc := pc }, chunk := c, mon := m }
  | .pipe => pipeStep p s

/-- The state after the goroutines of `ts` have taken a step each, in this order. -/
def run (p : Param) (e : Env) (ts : List Tid) (s : State) : Except Halt State :=
  ts.foldlM (step p e) s

end C2DN.Frontend.Goroutines
