import Mathlib.Data.List.GetD
import C2DN.Client.Workload
import C2DN.LoadBalancer.BalancerLemmas

/-!
# The clients partition a trace

Every client reads the whole trace, and its counter of requests is the position in the trace. So all
clients choose the same host for a request, and the request goes to the client of this host, or to the
remote client (`owner`).
-/

namespace C2DN.Client

open LoadBalancer

/-! ## Records -/

/-- The complete records of a file. -/
def records : List UInt8 → List Request
  | a₀ :: a₁ :: a₂ :: a₃ :: b₀ :: b₁ :: b₂ :: b₃ :: c₀ :: c₁ :: c₂ :: c₃ :: rest =>
    ⟨ofLeBytes a₀ a₁ a₂ a₃, ofLeBytes b₀ b₁ b₂ b₃, ofLeBytes c₀ c₁ c₂ c₃⟩ :: records rest
  | _ => []

theorem ofLeBytes_leBytes (x : UInt32) :
    ofLeBytes x.toUInt8 (x >>> 8).toUInt8 (x >>> 16).toUInt8 (x >>> 24).toUInt8 = x := by
  unfold ofLeBytes
  apply UInt32.eq_of_toBitVec_eq
  simp only [UInt32.toBitVec_or, UInt32.toBitVec_shiftLeft, UInt32.toBitVec_shiftRight,
    UInt8.toBitVec_toUInt32, UInt32.toBitVec_toUInt8, UInt32.toBitVec_ofNat]
  apply BitVec.eq_of_getLsbD_eq
  intro i hi
  simp only [BitVec.ofNat_eq_ofNat, BitVec.reduceMod, BitVec.ushiftRight_eq', BitVec.toNat_ofNat,
    Nat.reducePow, Nat.reduceMod, BitVec.shiftLeft_eq', BitVec.getLsbD_or, BitVec.getLsbD_setWidth,
    BitVec.getLsbD_shiftLeft, BitVec.getLsbD_ushiftRight]
  grind

/-- The records of a file are read one after the other. -/
theorem readRequest_fileOf (r : Request) (rs : List Request) :
    readRequest (fileOf (r :: rs)) = .ok (r, fileOf rs) := by
  change Except.ok (Request.mk (ofLeBytes _ _ _ _) (ofLeBytes _ _ _ _) (ofLeBytes _ _ _ _), _) = _
  rw [ofLeBytes_leBytes, ofLeBytes_leBytes, ofLeBytes_leBytes]
  rfl

theorem length_fileOf (rs : List Request) : (fileOf rs).length = 12 * rs.length := by
  induction rs with
  | nil => rfl
  | cons r rs ih =>
    rw [fileOf, List.flatMap_cons, List.length_append]
    change 12 + (fileOf rs).length = _
    rw [ih, List.length_cons]
    omega

theorem records_fileOf (rs : List Request) : records (fileOf rs) = rs := by
  induction rs with
  | nil => rfl
  | cons r rs ih =>
    change Request.mk (ofLeBytes _ _ _ _) (ofLeBytes _ _ _ _) (ofLeBytes _ _ _ _) ::
      records (fileOf rs) = _
    rw [ofLeBytes_leBytes, ofLeBytes_leBytes, ofLeBytes_leBytes, ih]

/-- A record is read, or less than a record is left. -/
theorem readRequest_cases (bytes : List UInt8) :
    (∃ r rest, readRequest bytes = .ok (r, rest) ∧ records bytes = r :: records rest ∧
      bytes.length = rest.length + 12) ∨
    ∃ e, readRequest bytes = .error e ∧ records bytes = [] ∧ (e = .eof ↔ 12 ∣ bytes.length) := by
  match bytes with
  | a₀ :: a₁ :: a₂ :: a₃ :: b₀ :: b₁ :: b₂ :: b₃ :: c₀ :: c₁ :: c₂ :: c₃ :: rest =>
    exact .inl ⟨_, _, rfl, rfl, rfl⟩
  | [] => exact .inr ⟨_, rfl, rfl, by decide⟩
  | [_] | [_, _] | [_, _, _] | [_, _, _, _] | [_, _, _, _, _] | [_, _, _, _, _, _]
  | [_, _, _, _, _, _, _] | [_, _, _, _, _, _, _, _] | [_, _, _, _, _, _, _, _, _]
  | [_, _, _, _, _, _, _, _, _, _] | [_, _, _, _, _, _, _, _, _, _, _] =>
    refine .inr ⟨.unexpectedEof, rfl, rfl, ?_⟩
    simp

/-! ## The hosts of a bucket -/

/-- A balancer without failures, with two of `m` hosts for every bucket. -/
structure Hosts (m : Nat) (lb : ChBalancer) : Prop where
  fixed : lb.base.updateIntvl < 0
  row : ∀ b < nBuckets, ∃ x y, lb.bucketMapping.getD b [] = [x, y] ∧
    (0 ≤ x ∧ x < m) ∧ (0 ≤ y ∧ y < m)

section
variable (digest : List Nat → List Nat) {m : Nat}

/-- Two nodes are asked for, and none is found that is not on the ring. -/
theorem getNodes_two (hm : 2 ≤ m) (key : List Nat) : ∃ nodes b,
    (HashRing.newRing digest (List.range m)).getNodes digest key 2 = .ok (nodes, b) ∧
      nodes.length ≤ 2 ∧ ∀ x ∈ nodes, x < m := by
  have hne : (HashRing.newRing digest (List.range m)).sortedKeys ≠ [] := by
    rw [HashRing.newRing_eq]
    have hpoint : (hashVal (digest (itoa 0 ++ 45 :: itoa 0)), 0) ∈
        HashRing.points digest (List.range m) :=
      HashRing.mem_points.mpr ⟨List.mem_range.mpr (by omega), 0, by decide, List.mem_cons_self⟩
    exact List.ne_nil_of_mem ((List.mem_insertionSort _).mpr (List.mem_map.mpr ⟨_, hpoint, rfl⟩))
  have hnodes : (HashRing.newRing digest (List.range m)).nodes = List.range m := by
    rw [HashRing.newRing_eq]
  obtain ⟨pos, hpos⟩ : ∃ pos,
      (HashRing.newRing digest (List.range m)).getNodePos digest key = some pos := ⟨_, if_neg hne⟩
  unfold HashRing.getNodes
  rw [hpos]
  dsimp only
  rw [hnodes, List.length_range, if_neg (by omega)]
  obtain ⟨-, hlen, hmem, -⟩ := HashRing.collect_spec
    (HashRing.newRing digest (List.range m)).ring 2
    ((HashRing.newRing digest (List.range m)).sortedKeys.drop pos ++
      (HashRing.newRing digest (List.range m)).sortedKeys.take pos) List.nodup_nil (by decide)
  refine ⟨_, _, rfl, hlen, fun x hx => ?_⟩
  obtain hx | ⟨k, hk, rfl⟩ := hmem x hx
  · cases hx
  · have hk : k ∈ (HashRing.newRing digest (List.range m)).sortedKeys := by
      rcases List.mem_append.mp hk with hk | hk
      · exact List.mem_of_mem_drop hk
      · exact List.mem_of_mem_take hk
    obtain ⟨v, hv, hring, -⟩ := HashRing.ring_mem hk
    rw [hring]
    exact List.mem_range.mp hv

theorem hashMapping_two (hm : 2 ≤ m) (bs : List Nat) : ∃ rows,
    hashMapping digest (.newRing digest (List.range m)) 2 2 bs = .ok rows ∧
      rows.length = bs.length ∧
      ∀ row ∈ rows, ∃ x y, row = [x, y] ∧ (0 ≤ x ∧ x < (m : Int)) ∧ (0 ≤ y ∧ y < (m : Int)) := by
  induction bs with
  | nil => exact ⟨[], rfl, rfl, nofun⟩
  | cons b bs ih =>
    obtain ⟨rows, hrows, hlen, hrange⟩ := ih
    obtain ⟨nodes, ok, hnodes, hle, hlt⟩ := getNodes_two digest hm (itoa b)
    have hfill : ∃ x y, fillSlice 2 nodes = .ok [x, y] ∧ (0 ≤ x ∧ x < (m : Int)) ∧
        (0 ≤ y ∧ y < (m : Int)) := by
      -- missing nodes are zeros
      match nodes, hle, hlt with
      | [], _, _ => exact ⟨0, 0, rfl, by omega, by omega⟩
      | [u], _, hlt =>
        have := hlt u (by simp)
        exact ⟨u, 0, rfl, by omega, by omega⟩
      | [u, v], _, hlt =>
        have := hlt u (by simp)
        have := hlt v (by simp)
        exact ⟨u, v, rfl, by omega, by omega⟩
      | _ :: _ :: _ :: _, hle, _ => simp at hle
    obtain ⟨x, y, hslice, hx, hy⟩ := hfill
    refine ⟨[x, y] :: rows, ?_, by rw [List.length_cons, hlen, List.length_cons], ?_⟩
    · rw [hashMapping, hnodes]
      change (fillSlice 2 nodes).bind _ = _
      rw [hslice]
      change Except.map _ (hashMapping digest _ 2 2 bs) = _
      rw [hrows]
      rfl
    · intro row hrow
      rcases List.mem_cons.mp hrow with rfl | hrow
      · exact ⟨x, y, rfl, hx, hy⟩
      · exact hrange row hrow

/-- The balancer of a client with at least two servers. -/
theorem new_hosts (hm : 2 ≤ m) :
    ∃ lb, ChBalancer.new digest m [] (-1) 2 = .ok lb ∧ Hosts m lb := by
  obtain ⟨rows, hrows, hlen, hrange⟩ := hashMapping_two digest hm (List.range nBuckets)
  rw [List.length_range] at hlen
  refine ⟨⟨.new m [] (-1) 2, .newRing digest (List.range m), rows⟩, ?_,
    (by decide : (-1 : Int) < 0), fun b hb => ?_⟩
  · unfold ChBalancer.new ChBalancer.createMapping
    dsimp only [BaseBalancer.new]
    rw [hrows]
    rfl
  · dsimp only
    rw [List.getD_eq_getElem _ _ (by omega)]
    exact hrange _ (List.getElem_mem _)

end

/-! ## The requests of a client -/

/-- A request as it is read: the times are those since `start`. -/
def fullOf (lb : ChBalancer) (start : UInt32) (r : Request) : FullRequest :=
  let bucket := r.id % UInt32.ofNat nBuckets
  let peers := lb.bucketMapping.getD bucket.toNat []
  { timestamp := r.timestamp - start
    id := r.id
    size := r.size
    bucket
    originalHostIdx := peers.getD 0 0
    alternateHostIdx := peers.getD 1 0
    remote := isRemote r.id }

/-- The host that is chosen for the request at a position of the trace. -/
def chosenHost (lb : ChBalancer) (randomRoute : Bool) (a : Request × Nat) : Int :=
  if randomRoute && (a.2 + 1) % 2 == 0 then (fullOf lb 0 a.1).alternateHostIdx
  else (fullOf lb 0 a.1).originalHostIdx

/-- The client of a request. -/
def owner (lb : ChBalancer) (randomRoute : Bool) (a : Request × Nat) : Int :=
  if isRemote a.1.id then -1 else chosenHost lb randomRoute a

/-- The relative time of a request is in the window of the replay. -/
def InWindow (cp : ClientParam) (start : UInt32) (r : Request) : Prop :=
  cp.replayStartTs ≤ r.timestamp - start ∧ r.timestamp - start ≤ cp.replayEndTs

instance (cp : ClientParam) (start : UInt32) (r : Request) : Decidable (InWindow cp start r) :=
  inferInstanceAs (Decidable (_ ∧ _))

/-- Whether a client takes the request at a position. -/
def takes (cp : ClientParam) (lb : ChBalancer) (start : UInt32) (a : Request × Nat) : Bool :=
  decide (InWindow cp start a.1) && owner lb cp.randomRoute a == cp.clientID

/-- The time of the first request. -/
def startTs (rs : List Request) : UInt32 := (rs.headD ⟨0, 0, 0⟩).timestamp

/-- The requests that a client takes, with their positions. -/
def taken (cp : ClientParam) (lb : ChBalancer) (rs : List Request) : List (Request × Nat) :=
  rs.zipIdx.filter (takes cp lb (startTs rs))

/-- A request on `reqChan`: it has a new time, and at least 11 bytes. -/
def Sent (lb : ChBalancer) (start : UInt32) (a : Request × Nat) (q : FullRequest) : Prop :=
  q = { fullOf lb start a.1 with
    timestamp := q.timestamp, size := if a.1.size < 11 then 11 else a.1.size }

/-! ## One round -/

/-- The loader before the round for the first of the requests that are left. -/
structure At (lb : ChBalancer) (start : UInt32) (rest : List Request) (i : Nat) (st : Loader) :
    Prop where
  balancer : st.lb = lb
  traceStartTs : st.traceStartTs = start
  nReq : st.nReq = i
  head : match rest with
    | [] => st.err = some .eof
    | r :: rs => st.err = none ∧ st.req = fullOf lb start r ∧ st.reader = fileOf rs

/-- The loader after it has read from `bytes`. -/
structure ReadFrom (lb : ChBalancer) (start : UInt32) (bytes : List UInt8) (st : Loader) : Prop where
  balancer : st.lb = lb
  traceStartTs : st.traceStartTs = start
  read : match readRequest bytes with
    | .ok (r, rest) => st.err = none ∧ st.req = fullOf lb start r ∧ st.reader = rest
    | .error e => st.err = some e

section
variable (digest : List Nat → List Nat) {m : Nat} {lb : ChBalancer} {start : UInt32} {cp : ClientParam}
  {r : Request} {rs rest : List Request} {i : Nat}

theorem bucket_lt (r : Request) : (r.id % UInt32.ofNat nBuckets).toNat < nBuckets := by
  rw [UInt32.toNat_mod]
  exact Nat.mod_lt _ (by decide)

/-- The next request is read, or the error for it. -/
theorem readOneReq_from (st : Loader) (H : Hosts m st.lb) :
    ∃ st', st.readOneReq digest = .ok st' ∧ ReadFrom st.lb st.traceStartTs st.reader st' ∧
      st'.nReq = st.nReq ∧ st'.reqChan = st.reqChan := by
  unfold Loader.readOneReq
  cases hread : readRequest st.reader with
  | error e => exact ⟨_, rfl, ⟨rfl, rfl, by rw [hread]⟩, rfl, rfl⟩
  | ok p =>
    obtain ⟨r, rest⟩ := p
    obtain ⟨x, y, hrow, -, -⟩ := H.row _ (bucket_lt r)
    have hpeers : st.lb.getNodesFromMapping digest 0 (r.id % UInt32.ofNat nBuckets).toNat =
        .ok (st.lb, [x, y]) := by
      rw [ChBalancer.getNodesFromMapping, ChBalancer.checkUpdate, if_pos H.fixed]
      exact congrArg (fun row => Except.ok (st.lb, row)) hrow
    dsimp only
    rw [hpeers]
    refine ⟨_, rfl, ⟨rfl, rfl, ?_⟩, rfl, rfl⟩
    rw [hread]
    refine ⟨rfl, ?_, rfl⟩
    rw [fullOf]
    dsimp only
    rw [hrow]
    rfl

/-- A file of records is read without an error before its end. -/
theorem ReadFrom.at {st : Loader} (h : ReadFrom lb start (fileOf rest) st) :
    At lb start rest st.nReq st := by
  obtain ⟨hlb, hstart, hread⟩ := h
  cases rest with
  | nil => exact ⟨hlb, hstart, rfl, hread⟩
  | cons r rs =>
    rw [readRequest_fileOf] at hread
    exact ⟨hlb, hstart, rfl, hread⟩

theorem pace_eq (cp : ClientParam) (st : Loader) : ∃ ts fakeTs bytes, st.pace cp =
    { st with req := { st.req with timestamp := ts }, fakeTs, reqByteCurTs := bytes } := by
  unfold Loader.pace
  split
  · exact ⟨_, _, _, rfl⟩
  · dsimp only
    split
    · exact ⟨_, _, _, rfl⟩
    · exact ⟨_, _, _, rfl⟩

/-- The request may be put on the channel, with a new time and at least 11 bytes. It is if it is not too
large. -/
theorem use_from (cp : ClientParam) (st : Loader) (H : Hosts m st.lb) :
    ∃ st' sent, st.use digest cp = .ok st' ∧ ReadFrom st.lb st.traceStartTs st.reader st' ∧
      st'.nReq = st.nReq ∧ st'.reqChan = st.reqChan ++ sent ∧
      (∀ q ∈ sent, q = { st.req with
        timestamp := q.timestamp, size := if st.req.size < 11 then 11 else st.req.size }) ∧
      (st.req.size ≤ 100000000 → ∃ q, sent = [q]) := by
  obtain ⟨ts, fakeTs, nByte, hpace⟩ := pace_eq cp st
  have hsize : (if st.req.size < 11 then
      { st with req := { st.req with timestamp := ts, size := 11 }, fakeTs, reqByteCurTs := nByte }
      else { st with req := { st.req with timestamp := ts }, fakeTs, reqByteCurTs := nByte }) =
      { st with
        req := { st.req with timestamp := ts, size := if st.req.size < 11 then 11 else st.req.size }
        fakeTs
        reqByteCurTs := nByte } := by
    split <;> rfl
  unfold Loader.use
  rw [hpace]
  dsimp only
  rw [hsize]
  have hlarge : (100000000 : UInt32) < (if st.req.size < 11 then 11 else st.req.size) →
      ¬ st.req.size ≤ 100000000 := by
    intro hlarge hle
    split at hlarge
    · exact absurd hlarge (by decide)
    · exact UInt32.not_lt.mpr hle hlarge
  generalize hreq : ({ st.req with
    timestamp := ts, size := if st.req.size < 11 then 11 else st.req.size } : FullRequest) = req
  have hsent : req = { st.req with
      timestamp := req.timestamp, size := if st.req.size < 11 then 11 else st.req.size } := by
    rw [← hreq]
  -- whatever `lastSeenTs` becomes
  have hput : ∀ seen, ∃ st' sent, Loader.put digest { st with
      req, fakeTs, reqByteCurTs := nByte, lastSeenTs := seen } = .ok st' ∧
      ReadFrom st.lb st.traceStartTs st.reader st' ∧ st'.nReq = st.nReq ∧
      st'.reqChan = st.reqChan ++ sent ∧ (∀ q ∈ sent, q = { st.req with
        timestamp := q.timestamp, size := if st.req.size < 11 then 11 else st.req.size }) ∧
      (st.req.size ≤ 100000000 → ∃ q, sent = [q]) := by
    intro seen
    obtain ⟨st', hst', hread, hn, hchan⟩ := readOneReq_from digest { st with
      req, fakeTs, reqByteCurTs := nByte, lastSeenTs := seen, reqChan := st.reqChan ++ [req] } H
    refine ⟨st', [req], hst', hread, hn, hchan, fun q hq => ?_, fun _ => ⟨req, rfl⟩⟩
    rw [List.mem_singleton.mp hq]
    exact hsent
  have hreqSize : req.size = if st.req.size < 11 then 11 else st.req.size := by rw [← hreq]
  rw [← hreqSize] at hlarge
  dsimp only
  split
  · next hbig =>
    split
    · split
      · obtain ⟨st', hst', hread, hn, hchan⟩ := readOneReq_from digest { st with
          req, fakeTs, reqByteCurTs := nByte } H
        exact ⟨st', [], hst', hread, hn, by rw [hchan, List.append_nil],
          fun q hq => absurd hq List.not_mem_nil, fun hle => absurd hle (hlarge hbig)⟩
      · exact hput _
    · exact hput _
  · exact hput _

/-- A client of a server ignores remote requests, the remote one does not. -/
structure Replays (cp : ClientParam) : Prop where
  ignoreRemoteReq : cp.ignoreRemoteReq = decide (cp.clientID ≠ -1)
  uniqueObj : cp.uniqueObj = false

theorem chosenHost_range (H : Hosts m lb) (randomRoute : Bool) (a : Request × Nat) :
    0 ≤ chosenHost lb randomRoute a ∧ chosenHost lb randomRoute a < m := by
  obtain ⟨x, y, hrow, hx, hy⟩ := H.row _ (bucket_lt a.1)
  unfold chosenHost fullOf
  dsimp only
  rw [hrow]
  split
  · exact hy
  · exact hx

/-- In the window the request is used by its owner, and skipped by the others. -/
theorem serve_eq (C : Replays cp) (H : Hosts m lb) (st : Loader) (hreq : st.req = fullOf lb start r)
    (hn : st.nReq = i + 1) : st.serve digest cp =
      if owner lb cp.randomRoute (r, i) == cp.clientID then st.use digest cp
      else st.readOneReq digest := by
  have hid : st.req.id = r.id := by rw [hreq]; rfl
  have hhost : (if cp.randomRoute && st.nReq % 2 == 0 then st.req.alternateHostIdx
      else st.req.originalHostIdx) = chosenHost lb cp.randomRoute (r, i) := by
    rw [hreq, hn]
    rfl
  have hne : chosenHost lb cp.randomRoute (r, i) ≠ -1 := by
    have := (chosenHost_range H cp.randomRoute (r, i)).1
    omega
  unfold Loader.serve Loader.differentClient owner
  dsimp only
  rw [hid, hhost, C.ignoreRemoteReq, C.uniqueObj]
  cases hremote : isRemote r.id with
  | true =>
    by_cases hclient : cp.clientID = -1
    · simp [hclient]
    · simp [hclient, Ne.symm hclient]
  | false =>
    by_cases hclient : cp.clientID = -1
    · simp [hclient, hne]
    · by_cases hown : chosenHost lb cp.randomRoute (r, i) = cp.clientID
      · simp [hown, hclient]
      · simp [hown, hclient]

theorem round_of_read {st : Loader} (herr : st.err = none) : st.round digest cp =
    if st.req.timestamp < cp.replayStartTs then
      ({ st with nReq := st.nReq + 1 }.readOneReq digest).map some
    else if cp.replayEndTs < st.req.timestamp then .ok none
    else ({ st with nReq := st.nReq + 1 }.serve digest cp).map some := by
  unfold Loader.round
  split
  · next h => rw [herr] at h; cases h
  · next h => rw [herr] at h; cases h
  · rfl

/-- A round before the end of the window. -/
theorem round_ok {st : Loader} (C : Replays cp) (H : Hosts m lb) (hat : At lb start (r :: rs) i st)
    (hsize : r.size ≤ 100000000)
    (hend : r.timestamp - start < cp.replayStartTs ∨ r.timestamp - start ≤ cp.replayEndTs) :
    ∃ st' sent, st.round digest cp = .ok (some st') ∧ At lb start rs (i + 1) st' ∧
      st'.reqChan = st.reqChan ++ sent ∧
      List.Forall₂ (Sent lb start) ([(r, i)].filter (takes cp lb start)) sent := by
  obtain ⟨hbalancer, hstart, hn, herr, hreq, hreader⟩ := hat
  have hts : st.req.timestamp = r.timestamp - start := by rw [hreq]; rfl
  subst hbalancer hstart hn
  have hskip : takes cp st.lb st.traceStartTs (r, st.nReq) = false →
      ∃ st' sent, ({ st with nReq := st.nReq + 1 }.readOneReq digest).map some = .ok (some st') ∧
        At st.lb st.traceStartTs rs (st.nReq + 1) st' ∧ st'.reqChan = st.reqChan ++ sent ∧
        List.Forall₂ (Sent st.lb st.traceStartTs)
          ([(r, st.nReq)].filter (takes cp st.lb st.traceStartTs)) sent := by
    intro htakes
    obtain ⟨st', hst', hread, hn, hchan⟩ := readOneReq_from digest { st with nReq := st.nReq + 1 } H
    dsimp only at hread hn hchan
    rw [hreader] at hread
    refine ⟨st', [], by rw [hst']; rfl, hn ▸ hread.at, by rw [hchan, List.append_nil], ?_⟩
    rw [List.filter_cons_of_neg (by simp [htakes])]
    exact .nil
  rw [round_of_read digest herr, hts]
  by_cases hbefore : r.timestamp - st.traceStartTs < cp.replayStartTs
  · rw [if_pos hbefore]
    refine hskip ?_
    rw [takes, decide_eq_false fun h => UInt32.not_le.mpr hbefore h.1, Bool.false_and]
  · have hend := hend.resolve_left hbefore
    have hwindow : InWindow cp st.traceStartTs r := ⟨UInt32.not_lt.mp hbefore, hend⟩
    rw [if_neg hbefore, if_neg (UInt32.not_lt.mpr hend),
      serve_eq digest C H { st with nReq := st.nReq + 1 } hreq rfl]
    cases hown : owner st.lb cp.randomRoute (r, st.nReq) == cp.clientID with
    | false =>
      refine hskip ?_
      rw [takes, hown, Bool.and_false]
    | true =>
      have hreqSize : st.req.size ≤ 100000000 := by rw [hreq]; exact hsize
      obtain ⟨st', sent, hst', hread, hn, hchan, hsent, hone⟩ := use_from digest cp
        { st with nReq := st.nReq + 1 } H
      obtain ⟨q, rfl⟩ := hone hreqSize
      have hq := hsent q List.mem_cons_self
      dsimp only at hread hn
      rw [hreader] at hread
      refine ⟨st', [q], ?_, hn ▸ hread.at, hchan, ?_⟩
      · rw [if_pos rfl, hst']
        rfl
      · rw [List.filter_cons_of_pos (by rw [takes, hown, decide_eq_true hwindow]; rfl)]
        refine .cons ?_ .nil
        dsimp only at hq
        rw [hreq] at hq
        exact hq

/-! ## The loop -/

theorem sub_le_sub {a b : UInt32} (hstart : start ≤ a) (hab : a ≤ b) : a - start ≤ b - start := by
  have hb : start ≤ b := UInt32.le_trans hstart hab
  rw [UInt32.le_iff_toNat_le] at *
  rw [UInt32.toNat_sub_of_le _ _ (UInt32.le_iff_toNat_le.mpr hstart),
    UInt32.toNat_sub_of_le _ _ (UInt32.le_iff_toNat_le.mpr hb)]
  omega

/-- **The loop** puts the requests of its client on the channel, in the order of the trace. -/
theorem loop_ok {st : Loader} (C : Replays cp) (H : Hosts m lb) {fuel : Nat} (hfuel : rest.length < fuel)
    (hsorted : (start :: rest.map Request.timestamp).Pairwise (· ≤ ·))
    (hsize : ∀ r ∈ rest, r.size ≤ 100000000) (hat : At lb start rest i st) :
    ∃ st' sent, Loader.loop digest cp fuel st = .ok st' ∧ st'.reqChan = st.reqChan ++ sent ∧
      List.Forall₂ (Sent lb start) ((rest.zipIdx i).filter (takes cp lb start)) sent := by
  induction rest generalizing i st fuel with
  | nil =>
    obtain ⟨fuel, rfl⟩ := Nat.exists_eq_succ_of_ne_zero (Nat.ne_of_gt hfuel)
    refine ⟨st, [], ?_, (List.append_nil _).symm, .nil⟩
    rw [Loader.loop, Loader.round, hat.head]
    rfl
  | cons r rs ih =>
    obtain ⟨fuel, rfl⟩ := Nat.exists_eq_succ_of_ne_zero (Nat.ne_zero_of_lt hfuel)
    rw [List.map_cons, List.pairwise_cons, List.pairwise_cons] at hsorted
    obtain ⟨hfirst, hnext, hrest⟩ := hsorted
    rw [Loader.loop]
    by_cases hend : r.timestamp - start < cp.replayStartTs ∨ r.timestamp - start ≤ cp.replayEndTs
    · obtain ⟨st₁, sent₁, hround, hat₁, hchan₁, hsent₁⟩ := round_ok digest C H hat
        (hsize r List.mem_cons_self) hend
      obtain ⟨st', sent, hloop, hchan, hsent⟩ := ih (Nat.lt_of_succ_lt_succ hfuel)
        (List.pairwise_cons.mpr ⟨fun t ht => hfirst t (List.mem_cons_of_mem _ ht), hrest⟩)
        (fun r hr => hsize r (List.mem_cons_of_mem _ hr)) hat₁
      refine ⟨st', sent₁ ++ sent, ?_, by rw [hchan, hchan₁, List.append_assoc], ?_⟩
      · rw [hround]
        exact hloop
      · rw [List.zipIdx_cons, ← List.singleton_append, List.filter_append]
        exact List.rel_append hsent₁ hsent
    · -- no later request is in the window
      obtain ⟨hbefore, hafter⟩ := not_or.mp hend
      obtain ⟨herr, hreq, -⟩ := hat.head
      refine ⟨st, [], ?_, (List.append_nil _).symm, ?_⟩
      · have hts : st.req.timestamp = r.timestamp - start := by rw [hreq]; rfl
        rw [round_of_read digest herr, hts, if_neg hbefore, if_pos (UInt32.not_le.mp hafter)]
        rfl
      · rw [List.filter_eq_nil_iff.mpr fun a ha => ?_]
        · exact .nil
        · have hle : r.timestamp ≤ a.1.timestamp := by
            rcases List.mem_cons.mp (List.fst_mem_of_mem_zipIdx ha) with heq | hmem
            · rw [heq]
              exact UInt32.le_refl _
            · exact hnext _ (List.mem_map_of_mem hmem)
          have hlate := sub_le_sub (hfirst _ List.mem_cons_self) hle
          rw [takes, decide_eq_false fun h => hafter (UInt32.le_trans hlate h.2)]
          exact Bool.false_ne_true

/-- The loader when it has read for the first time. -/
theorem start_from (H : Hosts m lb) (file : List UInt8) :
    ∃ st, Loader.start digest lb file = .ok st ∧
      ReadFrom lb (startTs (records file)) file st ∧ st.nReq = 0 ∧ st.reqChan = [] := by
  rcases readRequest_cases file with ⟨r, rest, hr, hrecords, -⟩ | ⟨e, he, hrecords, -⟩
  · obtain ⟨st, hst, ⟨hlb, -, hread⟩, hn, hchan⟩ := readOneReq_from digest ⟨file, lb, 0,
      ⟨0, 0, 0, 0, 0, 0, false⟩, none, 0, 0, [], fun _ => none, 0, []⟩ H
    dsimp only at hread
    rw [hr] at hread
    obtain ⟨herr, hreq, hreader⟩ := hread
    unfold Loader.start
    rw [hst, hrecords]
    refine ⟨_, rfl, ⟨hlb, ?_, ?_⟩, hn, hchan⟩
    · dsimp only
      rw [hreq]
      exact UInt32.sub_zero _
    · rw [hr]
      refine ⟨herr, ?_, hreader⟩
      dsimp only
      rw [hreq, fullOf, fullOf, startTs, List.headD_cons, UInt32.sub_self]
  · unfold Loader.start Loader.readOneReq
    rw [hrecords, he]
    exact ⟨_, rfl, ⟨rfl, rfl, by rw [he]⟩, rfl, rfl⟩

theorem start_ok (H : Hosts m lb) (rs : List Request) :
    ∃ st, Loader.start digest lb (fileOf rs) = .ok st ∧ At lb (startTs rs) rs 0 st ∧
      st.reqChan = [] := by
  obtain ⟨st, hst, hread, hn, hchan⟩ := start_from digest H (fileOf rs)
  rw [records_fileOf] at hread
  exact ⟨st, hst, hn ▸ hread.at, hchan⟩

/-! ## All clients -/

/-- The remote client and those of `m` servers. -/
def clients (m : Nat) : List Int := -1 :: (List.range m).map Int.ofNat

/-- The parameters of clients that replay one trace. -/
structure Clients (m : Nat) (cp : Int → ClientParam) : Prop where
  clientID : ∀ c ∈ clients m, (cp c).clientID = c
  ignoreRemoteReq : ∀ c ∈ clients m, (cp c).ignoreRemoteReq = decide (c ≠ -1)
  uniqueObj : ∀ c ∈ clients m, (cp c).uniqueObj = false
  replayStartTs : ∀ c ∈ clients m, (cp c).replayStartTs = (cp (-1)).replayStartTs
  replayEndTs : ∀ c ∈ clients m, (cp c).replayEndTs = (cp (-1)).replayEndTs
  randomRoute : ∀ c ∈ clients m, (cp c).randomRoute = (cp (-1)).randomRoute

theorem owner_mem (H : Hosts m lb) (randomRoute : Bool) (a : Request × Nat) :
    owner lb randomRoute a ∈ clients m := by
  unfold owner
  split
  · exact List.mem_cons_self
  · obtain ⟨hpos, hlt⟩ := chosenHost_range H randomRoute a
    refine List.mem_cons_of_mem _ (List.mem_map.mpr ⟨(chosenHost lb randomRoute a).toNat, ?_, ?_⟩)
    · rw [List.mem_range]
      omega
    · exact Int.toNat_of_nonneg hpos

theorem mem_taken {cp : Int → ClientParam} (C : Clients m cp) {c : Int} (hc : c ∈ clients m)
    {a : Request × Nat} (ha : a ∈ rs.zipIdx) : a ∈ taken (cp c) lb rs ↔
      InWindow (cp (-1)) (startTs rs) a.1 ∧ owner lb (cp (-1)).randomRoute a = c := by
  have hwindow : InWindow (cp c) (startTs rs) a.1 ↔ InWindow (cp (-1)) (startTs rs) a.1 := by
    unfold InWindow
    rw [C.replayStartTs c hc, C.replayEndTs c hc]
  rw [taken, List.mem_filter, takes, C.clientID c hc, C.randomRoute c hc, Bool.and_eq_true,
    decide_eq_true_iff, hwindow, beq_iff_eq]
  exact and_iff_right ha

/-- **The trace is partitioned among the clients.** -/
theorem trace_partitioned (hm : 2 ≤ m) {cp : Int → ClientParam} (C : Clients m cp)
    (hsorted : (rs.map Request.timestamp).Pairwise (· ≤ ·))
    (hsize : ∀ r ∈ rs, r.size ≤ 100000000) :
    ∃ lb, ChBalancer.new digest m [] (-1) 2 = .ok lb ∧
      (∀ c ∈ clients m, (taken (cp c) lb rs).Sublist rs.zipIdx ∧
        ∃ st, loadAkamaiBinData digest (cp c) lb (fileOf rs) = .ok st ∧
          List.Forall₂ (Sent lb (startTs rs)) (taken (cp c) lb rs) st.reqChan) ∧
      ∀ a ∈ rs.zipIdx,
        (InWindow (cp (-1)) (startTs rs) a.1 →
          ∃! c, c ∈ clients m ∧ a ∈ taken (cp c) lb rs) ∧
        (¬ InWindow (cp (-1)) (startTs rs) a.1 → ∀ c ∈ clients m, a ∉ taken (cp c) lb rs) := by
  obtain ⟨lb, hlb, H⟩ := new_hosts digest hm
  refine ⟨lb, hlb, fun c hc => ⟨List.filter_sublist, ?_⟩, fun a ha => ⟨fun hwindow => ?_,
    fun hwindow c hc hmem => hwindow ((mem_taken C hc ha).mp hmem).1⟩⟩
  · have hreplays : Replays (cp c) := by
      refine ⟨?_, C.uniqueObj c hc⟩
      rw [C.ignoreRemoteReq c hc, C.clientID c hc]
    obtain ⟨st, hst, hat, hchan⟩ := start_ok digest H rs
    have hfirst : (startTs rs :: rs.map Request.timestamp).Pairwise (· ≤ ·) := by
      refine List.pairwise_cons.mpr ⟨fun t ht => ?_, hsorted⟩
      cases rs with
      | nil => cases ht
      | cons r rs =>
        rcases List.mem_cons.mp ht with rfl | ht
        · exact UInt32.le_refl _
        · exact (List.pairwise_cons.mp hsorted).1 t ht
    obtain ⟨st', sent, hloop, hchan', hsent⟩ := loop_ok digest hreplays H
      (by rw [length_fileOf]; omega : rs.length < (fileOf rs).length + 2) hfirst hsize hat
    refine ⟨st', ?_, ?_⟩
    · rw [loadAkamaiBinData, hst]
      exact hloop
    · rw [hchan', hchan]
      exact hsent
  · refine ⟨owner lb (cp (-1)).randomRoute a, ⟨owner_mem H _ a, ?_⟩, ?_⟩
    · exact (mem_taken C (owner_mem H _ a) ha).mpr ⟨hwindow, rfl⟩
    · rintro c ⟨hc, hmem⟩
      exact ((mem_taken C hc ha).mp hmem).2.symm

end

/-- A replay of the first hundred seconds. -/
def firstHundred (c : Int) : ClientParam := ⟨c, 0, true, 0, 100, false, decide (c ≠ -1), id⟩

/-- A request for a remote object, one for a local object, and one after the window. -/
def threeRecords : List Request := [⟨5, 1001, 20⟩, ⟨6, 7, 100⟩, ⟨300, 8, 50⟩]

theorem threeRecords_partitioned : ∃ lb, ChBalancer.new md5Sum 2 [] (-1) 2 = .ok lb ∧
    (∀ c ∈ clients 2, ∃ st,
      loadAkamaiBinData md5Sum (firstHundred c) lb (fileOf threeRecords) = .ok st) ∧
    (∃! c, c ∈ clients 2 ∧ (⟨6, 7, 100⟩, 1) ∈ taken (firstHundred c) lb threeRecords) ∧
    ∀ c ∈ clients 2, (⟨300, 8, 50⟩, 2) ∉ taken (firstHundred c) lb threeRecords := by
  have C : Clients 2 firstHundred := ⟨fun _ _ => rfl, fun _ _ => rfl, fun _ _ => rfl,
    fun _ _ => rfl, fun _ _ => rfl, fun _ _ => rfl⟩
  obtain ⟨lb, hlb, hload, htaken⟩ := trace_partitioned md5Sum (by decide) C
    (by decide : (threeRecords.map Request.timestamp).Pairwise (· ≤ ·)) (by decide)
  refine ⟨lb, hlb, fun c hc => ?_, (htaken _ (by decide)).1 (by decide),
    (htaken _ (by decide)).2 (by decide)⟩
  obtain ⟨-, st, hst, -⟩ := hload c hc
  exact ⟨st, hst⟩

end C2DN.Client
