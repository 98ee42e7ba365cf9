import Mathlib.Data.List.Count
import C2DN.Client.Partition

/-!
# The end of a trace

`LoadAkamaiBinData` leaves its loop at the end of the file or after the window of the replay, and then
closes `reqChan`. The error for a record that is cut off is only logged: no further request is read, and
the next round finds the same error.
-/

namespace C2DN.Client

open LoadBalancer

/-- What is done to `reqChan`. -/
inductive ChanOp where
  | send (req : FullRequest)
  | close
  deriving DecidableEq, Repr

section
variable (digest : List Nat → List Nat) (cp : ClientParam) (lb : ChBalancer) (file : List UInt8)

/-- `LoadAkamaiBinData` returns after these operations on `reqChan`; `close(reqChan)` is its last
statement. -/
def LoadReturns (ops : List ChanOp) : Prop :=
  ∃ fuel st, (Loader.start digest lb file).bind (Loader.loop digest cp fuel) = .ok st ∧
    ops = st.reqChan.map .send ++ [.close]

/-- The loader returns, it has closed the channel once, and every request on the channel is a complete
record of the file. -/
def LoadEnds : Prop :=
  ∃ ops, LoadReturns digest cp lb file ops ∧ ops.count .close = 1 ∧
    ∀ q, .send q ∈ ops → ∃ a ∈ (records file).zipIdx, Sent lb (startTs (records file)) a q

/-- The relative time of a request is after the window of the replay. -/
def PastWindow (start : UInt32) (r : Request) : Prop :=
  cp.replayStartTs ≤ r.timestamp - start ∧ cp.replayEndTs < r.timestamp - start

end

/-! ## One round -/

/-- The next request is read, and the one before may be on the channel, with a new time and at least
11 bytes. -/
structure Advances (st st' : Loader) : Prop where
  next : ReadFrom st.lb st.traceStartTs st.reader st'
  sent : ∃ sent, st'.reqChan = st.reqChan ++ sent ∧ ∀ q ∈ sent, q = { st.req with
    timestamp := q.timestamp, size := if st.req.size < 11 then 11 else st.req.size }

section
variable (digest : List Nat → List Nat) {m : Nat} {lb : ChBalancer} {start : UInt32} {cp : ClientParam}
  {bytes rest : List UInt8} {r : Request}

/-- `continue`. -/
theorem skip_advances (st : Loader) (H : Hosts m st.lb) :
    ∃ st', st.readOneReq digest = .ok st' ∧ Advances st st' := by
  obtain ⟨st', hst', hread, -, hchan⟩ := readOneReq_from digest st H
  exact ⟨st', hst', hread, [], by rw [hchan, List.append_nil], fun q hq => absurd hq (by simp)⟩

theorem use_advances (cp : ClientParam) (st : Loader) (H : Hosts m st.lb) :
    ∃ st', st.use digest cp = .ok st' ∧ Advances st st' := by
  obtain ⟨st', sent, hst', hread, -, hchan, hsent, -⟩ := use_from digest cp st H
  exact ⟨st', hst', hread, sent, hchan, hsent⟩

theorem serve_advances (cp : ClientParam) (st : Loader) (H : Hosts m st.lb) :
    ∃ st', st.serve digest cp = .ok st' ∧ Advances st st' := by
  unfold Loader.serve
  split
  · exact skip_advances digest st H
  · split
    · exact skip_advances digest st H
    · split
      · split
        · exact skip_advances digest st H
        · obtain ⟨st', hst', hread, hsent⟩ := use_advances digest cp
            { st with seenObj := st.req.id :: st.seenObj } H
          exact ⟨st', hst', hread, hsent⟩
      · exact use_advances digest cp st H

/-- A round for a request that is not after the window. -/
theorem round_advances (cp : ClientParam) (st : Loader) (H : Hosts m st.lb) (herr : st.err = none)
    (hin : ¬ (cp.replayStartTs ≤ st.req.timestamp ∧ cp.replayEndTs < st.req.timestamp)) :
    ∃ st', st.round digest cp = .ok (some st') ∧ Advances st st' := by
  rw [round_of_read digest herr]
  by_cases hbefore : st.req.timestamp < cp.replayStartTs
  · obtain ⟨st', hst', hread, hsent⟩ := skip_advances digest { st with nReq := st.nReq + 1 } H
    rw [if_pos hbefore, hst']
    exact ⟨st', rfl, hread, hsent⟩
  · have hend : ¬ cp.replayEndTs < st.req.timestamp := fun h => hin ⟨UInt32.not_lt.mp hbefore, h⟩
    obtain ⟨st', hst', hread, hsent⟩ := serve_advances digest cp { st with nReq := st.nReq + 1 } H
    rw [if_neg hbefore, if_neg hend, hst']
    exact ⟨st', rfl, hread, hsent⟩

/-- A round for a request after the window. -/
theorem round_past {st : Loader} (herr : st.err = none)
    (hpast : cp.replayStartTs ≤ st.req.timestamp ∧ cp.replayEndTs < st.req.timestamp) :
    st.round digest cp = .ok none := by
  rw [round_of_read digest herr, if_neg (UInt32.not_lt.mpr hpast.1), if_pos hpast.2]

/-! ## The loop -/

/-- The loop will be left: the file has no partial record, or a request is after the window. -/
def WillLeave (cp : ClientParam) (start : UInt32) (bytes : List UInt8) : Prop :=
  12 ∣ bytes.length ∨ ∃ r ∈ records bytes, PastWindow cp start r

/-- What is left to read after a request that is not after the window. -/
theorem willLeave_rest (hrecords : records bytes = r :: records rest)
    (hlen : bytes.length = rest.length + 12) (hin : ¬ PastWindow cp start r) :
    WillLeave cp start rest ↔ WillLeave cp start bytes := by
  unfold WillLeave
  rw [hlen, Nat.dvd_add_self_right, hrecords, List.exists_mem_cons_iff]
  simp only [hin, false_or]

theorem loop_ends {st : Loader} (H : Hosts m lb) (hst : ReadFrom lb start bytes st)
    (h : WillLeave cp start bytes) : ∃ fuel st' sent, Loader.loop digest cp fuel st = .ok st' ∧
      st'.reqChan = st.reqChan ++ sent ∧ ∀ q ∈ sent, ∃ r ∈ records bytes, Sent lb start (r, 0) q := by
  induction hn : bytes.length using Nat.strong_induction_on generalizing bytes st with
  | _ n ih =>
  obtain ⟨hlb, hstart, hread⟩ := hst
  have hleave : st.round digest cp = .ok none →
      ∃ fuel st' sent, Loader.loop digest cp fuel st = .ok st' ∧ st'.reqChan = st.reqChan ++ sent ∧
        ∀ q ∈ sent, ∃ r ∈ records bytes, Sent lb start (r, 0) q := by
    intro hround
    refine ⟨1, st, [], ?_, (List.append_nil _).symm, fun q hq => absurd hq (by simp)⟩
    rw [Loader.loop, hround]
    rfl
  rcases readRequest_cases bytes with ⟨r, rest, hr, hrecords, hlen⟩ | ⟨e, he, hrecords, heof⟩
  · rw [hr] at hread
    obtain ⟨herr, hreq, hreader⟩ := hread
    have hts : st.req.timestamp = r.timestamp - start := by rw [hreq]; rfl
    by_cases hpast : PastWindow cp start r
    · exact hleave (round_past digest herr (by rw [hts]; exact hpast))
    · obtain ⟨st₁, hround, hnext, sent₁, hchan₁, hsent₁⟩ := round_advances digest cp st
        (by rw [hlb]; exact H) herr (by rw [hts]; exact hpast)
      rw [hlb, hstart, hreader] at hnext
      obtain ⟨fuel, st', sent, hloop, hchan, hsent⟩ := ih rest.length (by omega) hnext
        ((willLeave_rest hrecords hlen hpast).mpr h) rfl
      refine ⟨fuel + 1, st', sent₁ ++ sent, ?_, by rw [hchan, hchan₁, List.append_assoc], ?_⟩
      · rw [Loader.loop, hround]
        exact hloop
      · intro q hq
        rw [hrecords]
        rcases List.mem_append.mp hq with hq | hq
        · refine ⟨r, List.mem_cons_self, ?_⟩
          have hq := hsent₁ q hq
          rw [hreq] at hq
          exact hq
        · obtain ⟨r', hr', hq⟩ := hsent q hq
          exact ⟨r', List.mem_cons_of_mem _ hr', hq⟩
  · rw [he] at hread
    have hdvd : 12 ∣ bytes.length := by
      rcases h with hdvd | ⟨r, hr, -⟩
      · exact hdvd
      · rw [hrecords] at hr
        cases hr
    refine hleave ?_
    rw [Loader.round, show st.err = some .eof from heof.mpr hdvd ▸ hread]

/-- Every round finds the partial record again. -/
theorem loop_noEnd {st : Loader} (H : Hosts m lb) (hst : ReadFrom lb start bytes st)
    (h : ¬ WillLeave cp start bytes) (fuel : Nat) : Loader.loop digest cp fuel st = .error .noEnd := by
  induction fuel generalizing bytes st with
  | zero => rfl
  | succ fuel ih =>
    rw [Loader.loop]
    rcases readRequest_cases bytes with ⟨r, rest, hr, hrecords, hlen⟩ | ⟨e, he, hrecords, heof⟩
    · have hpast : ¬ PastWindow cp start r := fun hp => h (.inr ⟨r, by rw [hrecords]; simp, hp⟩)
      obtain ⟨hlb, hstart, hread⟩ := hst
      rw [hr] at hread
      obtain ⟨herr, hreq, hreader⟩ := hread
      have hts : st.req.timestamp = r.timestamp - start := by rw [hreq]; rfl
      obtain ⟨st₁, hround, hnext, -⟩ := round_advances digest cp st
        (by rw [hlb]; exact H) herr (by rw [hts]; exact hpast)
      rw [hlb, hstart, hreader] at hnext
      rw [hround]
      exact ih hnext fun hrest => h ((willLeave_rest hrecords hlen hpast).mp hrest)
    · have hread := hst.read
      rw [he] at hread
      have hpartial : e = .unexpectedEof := by
        cases e with
        | eof => exact absurd (.inl (heof.mp rfl)) h
        | unexpectedEof => rfl
      rw [Loader.round, show st.err = some .unexpectedEof from hpartial ▸ hread]
      exact ih hst h

/-! ## The loader -/

/-- Two hosts for every bucket need two hosts. -/
theorem two_le_of_new (h : ChBalancer.new digest m [] (-1) 2 = .ok lb) : 2 ≤ m := by
  by_contra hm
  have hnodes : (HashRing.newRing digest (List.range m)).nodes = List.range m := by
    rw [HashRing.newRing_eq]
  have hfatal : ∀ key, (HashRing.newRing digest (List.range m)).getNodes digest key 2 =
      .error .fatal := by
    intro key
    unfold HashRing.getNodes
    split
    · rfl
    · rw [hnodes, List.length_range, if_pos (by omega)]
  obtain ⟨bs, hbs⟩ : ∃ bs, List.range nBuckets = 0 :: bs := ⟨_, List.range_succ_eq_map⟩
  unfold ChBalancer.new ChBalancer.createMapping at h
  dsimp only [BaseBalancer.new] at h
  rw [hbs, hashMapping, hfatal] at h
  cases h

/-- **The end.** The loader does its work exactly if the file has no partial record, or a request after
the window comes before it. -/
theorem loadAkamaiBinData_ends_iff (h : ChBalancer.new digest m [] (-1) 2 = .ok lb) (cp : ClientParam)
    (file : List UInt8) : LoadEnds digest cp lb file ↔
      12 ∣ file.length ∨ ∃ r ∈ records file, PastWindow cp (startTs (records file)) r := by
  obtain ⟨lb', hlb', H⟩ := new_hosts digest (two_le_of_new digest h)
  obtain rfl : lb = lb' := Except.ok.inj (h.symm.trans hlb')
  obtain ⟨st, hst, hread, -, hchan⟩ := start_from digest H file
  constructor
  · rintro ⟨ops, ⟨fuel, st', hst', -⟩, -⟩
    by_contra hleave
    rw [hst] at hst'
    have hloop := loop_noEnd digest H hread hleave fuel
    rw [show Loader.loop digest cp fuel st = .ok st' from hst'] at hloop
    cases hloop
  · intro hleave
    obtain ⟨fuel, st', sent, hloop, hchan', hsent⟩ := loop_ends digest H hread hleave
    rw [hchan, List.nil_append] at hchan'
    refine ⟨sent.map .send ++ [.close], ⟨fuel, st', by rw [hst]; exact hloop, by rw [hchan']⟩, ?_, ?_⟩
    · rw [List.count_append, List.count_eq_zero_of_not_mem (by simp)]
      rfl
    · intro q hq
      have hq : q ∈ sent := by simpa using hq
      obtain ⟨r, hr, hq⟩ := hsent q hq
      obtain ⟨i, hi⟩ := List.getElem?_of_mem hr
      exact ⟨(r, i), List.mk_mem_zipIdx_iff_getElem?.mpr hi, hq⟩

end

/-- The window ends before the partial record. -/
theorem threeRecords_ends : ∃ lb, ChBalancer.new md5Sum 2 [] (-1) 2 = .ok lb ∧
    LoadEnds md5Sum (firstHundred (-1)) lb (fileOf threeRecords ++ [0, 0]) := by
  obtain ⟨lb, hlb, -⟩ := new_hosts md5Sum (Nat.le_refl 2)
  refine ⟨lb, hlb, (loadAkamaiBinData_ends_iff md5Sum hlb _ _).mpr (.inr ⟨⟨300, 8, 50⟩, ?_, ?_⟩)⟩
  · decide
  · exact ⟨by decide, by decide⟩

/-- A record and the first byte of the next one. -/
def cutOff : List UInt8 := fileOf [⟨5, 1001, 20⟩] ++ [6]

theorem cutOff_noEnd : ∃ lb, ChBalancer.new md5Sum 2 [] (-1) 2 = .ok lb ∧
    (∀ fuel, (Loader.start md5Sum lb cutOff).bind (Loader.loop md5Sum (firstHundred (-1)) fuel) =
      .error .noEnd) ∧ ¬ LoadEnds md5Sum (firstHundred (-1)) lb cutOff := by
  obtain ⟨lb, hlb, H⟩ := new_hosts md5Sum (Nat.le_refl 2)
  have hrecords : records cutOff = [⟨5, 1001, 20⟩] := by decide
  have hnoEnd : ∀ fuel, (Loader.start md5Sum lb cutOff).bind
      (Loader.loop md5Sum (firstHundred (-1)) fuel) = .error .noEnd := by
    intro fuel
    obtain ⟨st, hst, hread, -, -⟩ := start_from md5Sum H cutOff
    rw [hst]
    refine loop_noEnd md5Sum H hread ?_ fuel
    rintro (hdvd | ⟨r, hr, hpast⟩)
    · exact absurd hdvd (by decide)
    · rw [hrecords] at hr hpast
      obtain rfl := List.mem_singleton.mp hr
      exact absurd hpast.2 (by decide)
  refine ⟨lb, hlb, hnoEnd, ?_⟩
  rintro ⟨ops, ⟨fuel, st', hst', -⟩, -⟩
  rw [hnoEnd] at hst'
  cases hst'

end C2DN.Client
