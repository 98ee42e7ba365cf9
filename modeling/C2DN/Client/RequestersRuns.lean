import C2DN.Lib.Pool
import C2DN.Lib.Run
import C2DN.Client.Requesters

/-!
# Runs of a replay

A requester leaves its loop when `reqChan` is closed and empty. One that reads 0 from `running_worker`
after that finds no other one with a request, so nothing is sent on a latency channel once one of them is
closed; but two requesters can read 0, and then the second one closes a closed channel. `Closing` is the
invariant for this, `Books` that for the requests and what is recorded of them.
-/

namespace C2DN.Client.Replay

/-! ## The places of a requester -/

namespace ReqPc

/-- What is left to do for a request. -/
def acts : ReqPc → List Act
  | .serving acts | .limit _ acts => acts
  | _ => []

def holding : ReqPc → Bool
  | .serving _ | .limit _ _ => true
  | _ => false

/-- `running_worker` counts it. -/
def counted : ReqPc → Bool
  | .recv | .serving _ | .limit _ _ | .dec => true
  | _ => false

/-- It has left its loop. -/
def past : ReqPc → Bool
  | .dec | .check | .closing _ | .wgDone | .returned => true
  | _ => false

/-- It is no longer counted. -/
def left : ReqPc → Bool
  | .check | .closing _ | .wgDone | .returned => true
  | _ => false

/-- The latency channels that it is about to close. -/
def closing? : ReqPc → Option (List Lat)
  | .closing chans => some chans
  | _ => none

/-- The wait group counts it. -/
def waitedFor : ReqPc → Bool
  | .start | .returned => false
  | _ => true

end ReqPc

/-- What a requester does in a step; `o` is what it meets with a request that it receives. -/
inductive ReqStep (p : Param) (o : Outcome) : ReqPc → Shared → ReqPc → Shared → Prop
  | start {s : Shared} : ReqStep p o .start s .inc { s with wg := s.wg + 1 }
  | inc {s : Shared} : ReqStep p o .inc s .recv { s with running := s.running + 1 }
  | leave {s : Shared} (h : s.reqChan.Drained) : ReqStep p o .recv s .dec s
  | take {s : Shared} {req : FullRequest} {reqChan : Chan FullRequest}
      (h : s.reqChan.buf = req :: reqChan.buf) (hclosed : reqChan.closed = s.reqChan.closed) :
      ReqStep p o .recv s (.serving (serve p req o)) { s with reqChan }
  | served {s : Shared} : ReqStep p o (.serving []) s .recv s
  | send {s : Shared} {c : Lat} {r : LatencyResult} {acts : List Act}
      (h : (s.latChans c).closed = false) :
      ReqStep p o (.serving (.send c r :: acts)) s (.serving acts)
        (s.setLat c ⟨(s.latChans c).buf ++ [r], false⟩)
  | count {s : Shared} {t : ReqType} {acts : List Act} :
      ReqStep p o (.serving (.count t :: acts)) s (.serving acts)
        { s with reqMetric := Function.update s.reqMetric t (s.reqMetric t + 1) }
  | traffic {s : Shared} {t : ReqType} {bodySize : UInt32} {acts : List Act} :
      ReqStep p o (.serving (.traffic t bodySize :: acts)) s (.serving acts)
        { s with trafficMetric :=
          Function.update s.trafficMetric t (s.trafficMetric t + bodySize.toNat) }
  | limit {s : Shared} {acts : List Act} :
      ReqStep p o (.serving (.limit :: acts)) s (.limit (s.reqMetric .failed) acts) s
  | within {s : Shared} {nFailed : Nat} {acts : List Act} :
      ReqStep p o (.limit nFailed acts) s (.serving acts) s
  | dec {s : Shared} : ReqStep p o .dec s .check { s with running := s.running - 1 }
  | zero {s : Shared} (h : s.running = 0) : ReqStep p o .check s (.closing latChans) s
  | others {s : Shared} (h : s.running ≠ 0) : ReqStep p o .check s .wgDone s
  | close {s : Shared} {c : Lat} {chans : List Lat} (h : (s.latChans c).closed = false) :
      ReqStep p o (.closing (c :: chans)) s (.closing chans) (s.setLat c ⟨(s.latChans c).buf, true⟩)
  | finish {s : Shared} : ReqStep p o (.closing []) s .wgDone { s with replayFinished := true }
  | done {s : Shared} : ReqStep p o .wgDone s .returned { s with wg := s.wg + -1 }

section
variable {p : Param} {o : Outcome} {pc pc' : ReqPc} {s s' : Shared}

theorem add_eq_ok {delta : Int} (h : s.add delta = .ok s') : s' = { s with wg := s.wg + delta } := by
  unfold Shared.add at h
  split at h
  · cases h
  · exact (Except.ok.inj h).symm

theorem mapError_eq_ok {ε ε' α : Type} {f : ε → ε'} {x : Except ε α} {a : α}
    (h : x.mapError f = .ok a) : x = .ok a := by
  cases x with
  | ok b => cases h; rfl
  | error e => cases h

theorem actStep_ok {act : Act} {acts : List Act} (h : actStep s acts act = .ok (pc', s')) :
    ReqStep p o (.serving (act :: acts)) s pc' s' := by
  cases act with
  | send c r =>
    obtain ⟨ch, hch, heq⟩ := map_eq_ok h
    obtain ⟨hopen, rfl⟩ := Chan.send_eq_ok (mapError_eq_ok hch)
    cases heq
    exact .send hopen
  | count t => cases h; exact .count
  | traffic t bodySize => cases h; exact .traffic
  | limit => cases h; exact .limit
  | stop e => cases h

theorem requesterStep_ok (h : requesterStep p o pc s = .ok (pc', s')) : ReqStep p o pc s pc' s' := by
  cases pc with
  | start =>
    obtain ⟨s₁, hs₁, heq⟩ := map_eq_ok h
    cases heq
    obtain rfl := add_eq_ok hs₁
    exact .start
  | inc => cases h; exact .inc
  | recv =>
    obtain ⟨⟨req, reqChan⟩, hreq, h⟩ := bind_eq_ok h
    cases req with
    | none =>
      obtain ⟨hdrained, rfl⟩ := Chan.recv_none (mapError_eq_ok hreq)
      cases h
      exact .leave hdrained
    | some req =>
      obtain ⟨hbuf, hclosed⟩ := Chan.recv_some (mapError_eq_ok hreq)
      dsimp only at h
      split at h
      · cases h
      · cases h
        exact .take hbuf hclosed
  | serving acts =>
    cases acts with
    | nil => cases h; exact .served
    | cons act acts => exact actStep_ok h
  | limit nFailed acts =>
    rw [requesterStep] at h
    split at h
    · cases h
    · cases h
      exact .within
  | dec => cases h; exact .dec
  | check =>
    rw [requesterStep] at h
    cases h
    split
    · next hzero => exact .zero hzero
    · next hothers => exact .others hothers
  | closing chans =>
    cases chans with
    | nil => cases h; exact .finish
    | cons c chans =>
      obtain ⟨ch, hch, heq⟩ := map_eq_ok h
      obtain ⟨hopen, rfl⟩ := Chan.close_eq_ok (mapError_eq_ok hch)
      cases heq
      exact .close hopen
  | wgDone =>
    obtain ⟨s₁, hs₁, heq⟩ := map_eq_ok h
    cases heq
    obtain rfl := add_eq_ok hs₁
    exact .done
  | returned => cases h

end

/-! ## Closing the latency channels -/

/-- The channels that the requester in front has yet to close, when `j` steps of the closing have been
made. -/
def front (j : Nat) : List (List Lat) := if j = 0 ∨ j = 7 then [] else [latChans.drop j]

/-- How far the closing is, with `zeros` requesters that have read 0 and the lists of those that have not
yet finished. -/
structure Stage (zeros j k : Nat) (closers : List (List Lat)) (s : Shared) : Prop where
  le : j ≤ 7
  closed : ∀ c, (s.latChans c).closed = decide (c ∈ latChans.take j)
  finished : s.replayFinished = decide (j = 7)
  closers : closers.Perm (front j ++ List.replicate k latChans)
  zeros : zeros = k + if j = 0 then 0 else 1

structure Closing (zeros : Nat) (rs : List ReqPc) (s : Shared) : Prop where
  running : s.running = (rs.countP ReqPc.counted : Nat)
  past : ∀ pc ∈ rs, pc.past = true → s.reqChan.Drained
  stage : ∃ j k, Stage zeros j k (rs.filterMap ReqPc.closing?) s
  quiet : 0 < zeros → s.reqChan.Drained ∧ ∀ pc ∈ rs, pc.holding = false
  /-- the last one to be counted out reads 0 -/
  last : (∀ pc ∈ rs, pc.left = true) → rs = [] ∨ .check ∈ rs ∨ 0 < zeros

/-- What the other goroutines leave as it is. -/
structure Frame (s s' : Shared) : Prop where
  running : s'.running = s.running
  finished : s'.replayFinished = s.replayFinished
  closed : ∀ c, (s'.latChans c).closed = (s.latChans c).closed
  drained : s.reqChan.Drained → s'.reqChan.Drained

section
variable {zeros j k : Nat} {closers : List (List Lat)} {rs : List ReqPc} {s s' : Shared}

theorem Stage.frame (H : Stage zeros j k closers s) (h : Frame s s') : Stage zeros j k closers s' where
  le := H.le
  closed c := (h.closed c).trans (H.closed c)
  finished := h.finished.trans H.finished
  closers := H.closers
  zeros := H.zeros

theorem Closing.frame (H : Closing zeros rs s) (h : Frame s s') : Closing zeros rs s' where
  running := h.running.trans H.running
  past pc hpc hpast := h.drained (H.past pc hpc hpast)
  stage := by
    obtain ⟨j, k, hstage⟩ := H.stage
    exact ⟨j, k, hstage.frame h⟩
  quiet hzeros := (H.quiet hzeros).imp_left h.drained
  last := H.last

/-- While a requester has a request, nobody has read 0. -/
theorem Closing.zeros_eq (H : Closing zeros rs s) {pc : ReqPc} (hpc : pc ∈ rs)
    (hholding : pc.holding = true) : zeros = 0 := by
  apply Nat.eq_zero_of_not_pos
  intro hzeros
  exact nomatch hholding.symm.trans ((H.quiet hzeros).2 pc hpc)

/-- **Nothing is sent on a closed latency channel.** -/
theorem Closing.open_of_holding (H : Closing zeros rs s) {pc : ReqPc} (hpc : pc ∈ rs)
    (hholding : pc.holding = true) (c : Lat) : (s.latChans c).closed = false := by
  obtain ⟨j, k, hstage⟩ := H.stage
  have hzeros := hstage.zeros
  rw [H.zeros_eq hpc hholding] at hzeros
  have hj : j = 0 := by
    split at hzeros
    · assumption
    · omega
  rw [hstage.closed, hj]
  rfl

/-- One more requester has read 0. -/
theorem Stage.zero {closers' : List (List Lat)} (H : Stage zeros j k closers s)
    (h : closers'.Perm (latChans :: closers)) : Stage (zeros + 1) j (k + 1) closers' s where
  le := H.le
  closed := H.closed
  finished := H.finished
  closers := by
    rw [List.replicate_succ]
    exact h.trans ((H.closers.cons _).trans List.perm_middle.symm)
  zeros := by
    rw [H.zeros]
    omega

theorem latChans_nodup : latChans.Nodup := by decide

theorem mem_latChans (c : Lat) : c ∈ latChans := by
  cases c with
  | firstByte t => cases t <;> decide
  | fullResp t => cases t <;> decide

/-- A requester that is about to close channels is in front, or it has closed none. -/
theorem Stage.mem (H : Stage zeros j k closers s) {chans : List Lat} (h : chans ∈ closers) :
    (1 ≤ j ∧ j ≤ 6 ∧ chans = latChans.drop j) ∨ 0 < k ∧ chans = latChans := by
  obtain h | h := List.mem_append.mp (H.closers.mem_iff.mp h)
  · left
    unfold front at h
    split at h
    · cases h
    · next hj =>
      have := H.le
      exact ⟨by omega, by omega, List.mem_singleton.mp h⟩
  · obtain ⟨hk, rfl⟩ := List.mem_replicate.mp h
    exact .inr ⟨by omega, rfl⟩

/-- A channel is closed. -/
theorem Stage.close {c : Lat} {chans : List Lat} {closers' : List (List Lat)}
    (H : Stage zeros j k closers s) (hmem : (c :: chans) ∈ closers)
    (hopen : (s.latChans c).closed = false)
    (h : ((c :: chans) :: closers').Perm (chans :: closers)) :
    ∃ j' k', Stage zeros j' k' closers' (s.setLat c ⟨(s.latChans c).buf, true⟩) := by
  rw [H.closed, decide_eq_false_iff_not] at hopen
  -- the requester is in front after this step
  have hfront : ∀ (i k' : Nat), i ≤ 5 → c :: chans = latChans.drop i → latChans.take (i + 1) = latChans.take i ++ [c] →
      (∀ c, (s.latChans c).closed = decide (c ∈ latChans.take i)) → s.replayFinished = false →
      closers.Perm ((c :: chans) :: List.replicate k' latChans) → zeros = k' + 1 →
      Stage zeros (i + 1) k' closers' (s.setLat c ⟨(s.latChans c).buf, true⟩) := by
    intro i k' hi hdrop htake hclosed hfinished hclosers hzeros
    refine ⟨by omega, fun c' => ?_, ?_, ?_, ?_⟩
    · rw [htake]
      by_cases hc : c' = c
      · subst hc
        simp
      · simp [latChans_setLat_of_ne, hclosed, hc]
    · rw [decide_eq_false (by omega)]
      exact hfinished
    · rw [front, if_neg (by omega), ← List.tail_drop, ← hdrop]
      exact (List.perm_cons _).mp (h.trans ((hclosers.cons chans).trans (.swap ..)))
    · rw [if_neg (by omega)]
      exact hzeros
  obtain ⟨hj, hj', hdrop⟩ | ⟨hk, hall⟩ := H.mem hmem
  · have hlt : j < latChans.length := by
      by_contra hge
      rw [List.drop_eq_nil_of_le (Nat.le_of_not_lt hge)] at hdrop
      cases hdrop
    have hget : latChans[j] = c := by
      rw [List.drop_eq_getElem_cons hlt] at hdrop
      exact (List.cons.inj hdrop).1.symm
    have hlen : latChans.length = 6 := rfl
    refine ⟨j + 1, k, hfront j k (by omega) hdrop ?_ H.closed ?_ ?_ ?_⟩
    · rw [List.take_succ_eq_append_getElem hlt, hget]
    · rw [H.finished, decide_eq_false (by omega)]
    · have := H.closers
      rwa [front, if_neg (by omega), ← hdrop] at this
    · rw [H.zeros, if_neg (by omega)]
  · -- it closes the first channel
    have hc : c = .firstByte .ramHit := (List.cons.inj hall).1
    have hj : j = 0 := by
      by_contra hne
      obtain ⟨i, rfl⟩ := Nat.exists_eq_succ_of_ne_zero hne
      exact hopen (hc ▸ List.mem_cons_self)
    subst hj
    obtain ⟨k', rfl⟩ := Nat.exists_eq_succ_of_ne_zero (Nat.ne_of_gt hk)
    refine ⟨1, k', hfront 0 k' (by omega) hall (by rw [hc]; rfl) H.closed H.finished ?_ H.zeros⟩
    have := H.closers
    rw [front, if_pos (.inl rfl), List.nil_append, List.replicate_succ] at this
    rwa [hall]

/-- All channels are closed. -/
theorem Stage.finish {closers' : List (List Lat)} (H : Stage zeros j k closers s) (hmem : [] ∈ closers)
    (h : ([] :: closers').Perm closers) :
    Stage zeros 7 k closers' { s with replayFinished := true } := by
  obtain ⟨hj, hj', hdrop⟩ | ⟨-, hall⟩ := H.mem hmem
  · have hj : j = 6 := by
      have : latChans.length ≤ j := List.drop_eq_nil_iff.mp hdrop.symm
      have : latChans.length = 6 := rfl
      omega
    subst hj
    refine ⟨Nat.le_refl 7, H.closed, rfl, ?_, ?_⟩
    · exact (List.perm_cons _).mp (h.trans H.closers)
    · exact H.zeros
  · cases hall

variable {n : Nat} {pc pc' : ReqPc}

theorem ReqPc.counted_of_holding (h : pc.holding = true) : pc.counted = true := by
  cases pc <;> first | rfl | cases h

theorem ReqPc.not_counted_of_left (h : pc.left = true) : pc.counted = false := by
  cases pc <;> first | rfl | cases h

/-- Nobody is counted. -/
theorem Closing.not_counted (H : Closing zeros rs s) (hzero : s.running = 0) :
    ∀ pc ∈ rs, pc.counted = false := by
  have hcount : rs.countP ReqPc.counted = 0 := Int.ofNat_eq_zero.mp (H.running.symm.trans hzero)
  exact fun pc hpc => Bool.eq_false_iff.mpr (List.countP_eq_zero.mp hcount pc hpc)

/-- A requester goes on that does not close a channel. -/
theorem Closing.stage_keep (H : Closing zeros rs s) (hn : rs[n]? = some pc)
    (hclosing : pc'.closing? = pc.closing?) (hclosed : ∀ c, (s'.latChans c).closed = (s.latChans c).closed)
    (hfinished : s'.replayFinished = s.replayFinished) :
    ∃ j k, Stage zeros j k ((rs.set n pc').filterMap ReqPc.closing?) s' := by
  obtain ⟨j, k, hstage⟩ := H.stage
  rw [filterMap_moved hn hclosing]
  exact ⟨j, k, hstage.le, fun c => (hclosed c).trans (hstage.closed c),
    hfinished.trans hstage.finished, hstage.closers, hstage.zeros⟩

/-- A requester goes on, and does not read 0. -/
theorem Closing.move (H : Closing zeros rs s) (hn : rs[n]? = some pc)
    (hrunning : s'.running + pc.counted.toNat = s.running + pc'.counted.toNat)
    (hdrained : s.reqChan.Drained → s'.reqChan.Drained)
    (hpast : pc'.past = true → pc.past = true ∨ s.reqChan.Drained)
    (hstage : ∃ j k, Stage zeros j k ((rs.set n pc').filterMap ReqPc.closing?) s')
    (hholding : pc'.holding = true → zeros = 0)
    (hleft : pc'.left = true → pc' = .check ∨ pc.left = true ∧ (pc ≠ .check ∨ s.running ≠ 0)) :
    Closing zeros (rs.set n pc') s' where
  running := by
    have hcount := countP_moved (q := ReqPc.counted) (b := pc') hn
    have := H.running
    omega
  past := by
    apply forall_moved
    · exact fun x hx hxpast => hdrained (H.past x hx hxpast)
    · intro hpast'
      obtain h | h := hpast hpast'
      · exact hdrained (H.past pc (List.mem_of_getElem? hn) h)
      · exact hdrained h
  stage := hstage
  quiet hzeros := by
    obtain ⟨hd, hq⟩ := H.quiet hzeros
    refine ⟨hdrained hd, forall_moved hq ?_⟩
    exact Bool.eq_false_iff.mpr fun h => Nat.ne_of_gt hzeros (hholding h)
  last hall := by
    have hpc' : pc' ∈ rs.set n pc' := List.mem_of_getElem? (getElem?_moved_self hn)
    obtain rfl | ⟨hpcleft, hwhy⟩ := hleft (hall pc' hpc')
    · exact .inr (.inl hpc')
    · have hbefore : ∀ x ∈ rs, x.left = true := by
        intro x hx
        by_cases hxpc : x = pc
        · rw [hxpc]
          exact hpcleft
        · exact hall x (mem_moved hn hx hxpc)
      have hzero : s.running = 0 := by
        rw [H.running, List.countP_eq_zero.mpr]
        · rfl
        · exact fun x hx => Bool.eq_false_iff.mp (ReqPc.not_counted_of_left (hbefore x hx))
      obtain rfl | hcheck | hzeros := H.last hbefore
      · cases hn
      · refine .inr (.inl (mem_moved hn hcheck ?_))
        rintro rfl
        exact hwhy.elim (fun h => h rfl) fun h => h hzero
      · exact .inr (.inr hzeros)

/-- A requester reads 0. -/
theorem Closing.zero (H : Closing zeros rs s) (hn : rs[n]? = some .check) (hzero : s.running = 0) :
    Closing (zeros + 1) (rs.set n (.closing latChans)) s where
  running := by
    have hcount := countP_moved (q := ReqPc.counted) (b := .closing latChans) hn
    rw [H.running]
    exact congrArg _ hcount.symm
  past := forall_moved H.past fun _ => H.past .check (List.mem_of_getElem? hn) rfl
  stage := by
    obtain ⟨j, k, hstage⟩ := H.stage
    exact ⟨j, k + 1, hstage.zero (filterMap_moved_perm (f := ReqPc.closing?) hn)⟩
  quiet _ := by
    refine ⟨H.past .check (List.mem_of_getElem? hn) rfl, forall_moved (fun x hx => ?_) rfl⟩
    exact Bool.eq_false_iff.mpr fun h =>
      nomatch (ReqPc.counted_of_holding h).symm.trans (H.not_counted hzero x hx)
  last _ := .inr (.inr (Nat.succ_pos zeros))

/-- A requester goes on without a word about the latency channels. -/
theorem Closing.keep (H : Closing zeros rs s) (hn : rs[n]? = some pc) (h : Frame s s')
    (hcounted : pc'.counted = pc.counted) (hpast : pc'.past = true → pc.past = true)
    (hclosing : pc'.closing? = pc.closing?) (hholding : pc'.holding = true → pc.holding = true)
    (hleft : pc'.left = true → pc.left = true ∧ pc ≠ .check) : Closing zeros (rs.set n pc') s' := by
  apply H.move hn
  · rw [h.running, hcounted]
  · exact h.drained
  · exact fun h => .inl (hpast h)
  · exact H.stage_keep hn hclosing h.closed h.finished
  · exact fun h => H.zeros_eq (List.mem_of_getElem? hn) (hholding h)
  · exact fun h => .inr ((hleft h).imp_right .inl)

theorem Frame.refl (s : Shared) : Frame s s := ⟨rfl, rfl, fun _ => rfl, id⟩

/-- A latency channel gets or gives a value. -/
theorem frame_setLat {c : Lat} {ch : Chan LatencyResult} (h : ch.closed = (s.latChans c).closed) :
    Frame s (s.setLat c ch) where
  running := rfl
  finished := rfl
  closed c' := by
    by_cases hc : c' = c
    · subst hc
      rw [latChans_setLat_self, h]
    · rw [latChans_setLat_of_ne s ch hc]
  drained := id

/-- The steps of a requester, and whether it reads 0 in it. -/
theorem Closing.step {p : Param} {o : Outcome} (H : Closing zeros rs s) (hn : rs[n]? = some pc)
    (h : ReqStep p o pc s pc' s') :
    Closing (zeros + if pc = .check ∧ s.running = 0 then 1 else 0) (rs.set n pc') s' := by
  cases h with
  | start => exact H.keep hn ⟨rfl, rfl, fun _ => rfl, id⟩ rfl id rfl id nofun
  | inc =>
    apply H.move hn
    · exact Int.add_zero (s.running + 1)
    · exact id
    · exact nofun
    · exact H.stage_keep hn rfl (fun _ => rfl) rfl
    · exact nofun
    · exact nofun
  | leave hdrained =>
    apply H.move hn
    · exact rfl
    · exact id
    · exact fun _ => .inr hdrained
    · exact H.stage_keep hn rfl (fun _ => rfl) rfl
    · exact nofun
    · exact nofun
  | @take _ req reqChan hbuf hclosed =>
    have hnot : ¬ s.reqChan.Drained := fun hdrained => nomatch hdrained.2.symm.trans hbuf
    apply H.move hn
    · exact rfl
    · exact fun hdrained => absurd hdrained hnot
    · exact nofun
    · exact H.stage_keep hn rfl (fun _ => rfl) rfl
    · exact fun _ => Nat.eq_zero_of_not_pos fun hzeros => hnot (H.quiet hzeros).1
    · exact nofun
  | served => exact H.keep hn (.refl s) rfl nofun rfl nofun nofun
  | send hopen => exact H.keep hn (frame_setLat hopen.symm) rfl nofun rfl id nofun
  | count => exact H.keep hn ⟨rfl, rfl, fun _ => rfl, id⟩ rfl nofun rfl id nofun
  | traffic => exact H.keep hn ⟨rfl, rfl, fun _ => rfl, id⟩ rfl nofun rfl id nofun
  | limit => exact H.keep hn (.refl s) rfl nofun rfl id nofun
  | within => exact H.keep hn (.refl s) rfl nofun rfl id nofun
  | dec =>
    apply H.move hn
    · exact (Int.sub_add_cancel s.running 1).trans (Int.add_zero s.running).symm
    · exact id
    · exact fun _ => .inl rfl
    · exact H.stage_keep hn rfl (fun _ => rfl) rfl
    · exact nofun
    · exact fun _ => .inl rfl
  | zero hzero =>
    rw [if_pos ⟨rfl, hzero⟩]
    exact H.zero hn hzero
  | others hne =>
    rw [if_neg fun h => hne h.2]
    apply H.move hn
    · exact rfl
    · exact id
    · exact fun _ => .inl rfl
    · exact H.stage_keep hn rfl (fun _ => rfl) rfl
    · exact nofun
    · exact fun _ => .inr ⟨rfl, .inr hne⟩
  | @close _ c chans hopen =>
    obtain ⟨j, k, hstage⟩ := H.stage
    have hmem : (c :: chans) ∈ rs.filterMap ReqPc.closing? :=
      List.mem_filterMap.mpr ⟨_, List.mem_of_getElem? hn, rfl⟩
    apply H.move hn
    · exact rfl
    · exact id
    · exact fun _ => .inl rfl
    · exact hstage.close hmem hopen (filterMap_moved_perm (f := ReqPc.closing?) hn)
    · exact nofun
    · exact fun _ => .inr ⟨rfl, .inl nofun⟩
  | finish =>
    obtain ⟨j, k, hstage⟩ := H.stage
    have hmem : [] ∈ rs.filterMap ReqPc.closing? :=
      List.mem_filterMap.mpr ⟨_, List.mem_of_getElem? hn, rfl⟩
    apply H.move hn
    · exact rfl
    · exact id
    · exact fun _ => .inl rfl
    · exact ⟨7, k, hstage.finish hmem (filterMap_moved_perm (f := ReqPc.closing?) hn)⟩
    · exact nofun
    · exact fun _ => .inr ⟨rfl, .inl nofun⟩
  | done =>
    exact H.keep hn ⟨rfl, rfl, fun _ => rfl, id⟩ rfl id rfl id fun _ => ⟨rfl, nofun⟩

end

/-! ## What is recorded of a request -/

def Act.lat? (c : Lat) : Act → Option LatencyResult
  | .send c' r => if c' = c then some r else none
  | _ => none

def Act.bytes? (t : ReqType) : Act → Option Nat
  | .traffic t' bodySize => if t' = t then some bodySize.toNat else none
  | _ => none

/-- The operations for the requests that have been received are done or left to a requester, and the
metrics are the sums over those that are done. -/
structure Books (p : Param) (served : List (FullRequest × Outcome)) (done : List Act)
    (rs : List ReqPc) (s : Shared) : Prop where
  acts : (done ++ rs.flatMap ReqPc.acts).Perm (served.flatMap fun a => serve p a.1 a.2)
  reqMetric : ∀ t, s.reqMetric t = done.count (.count t)
  trafficMetric : ∀ t, s.trafficMetric t = (done.filterMap (Act.bytes? t)).sum
  /-- the process goes on -/
  going : ∀ e, .stop e ∉ done

/-- What a requester's step adds to the books: the request that it receives and the operation that it
does. -/
structure Entry (p : Param) (served : List (FullRequest × Outcome)) (done : List Act) (rs : List ReqPc)
    (got : List (FullRequest × Outcome)) (did : List Act) (s s' : Shared) : Prop where
  books : Books p (served ++ got) (done ++ did) rs s'
  reqChan : s.reqChan.buf = got.map Prod.fst ++ s'.reqChan.buf
  closed : s'.reqChan.closed = s.reqChan.closed
  latChans : ∀ c, (s'.latChans c).buf = (s.latChans c).buf ++ did.filterMap (Act.lat? c)
  drained : ∀ c, (s.latChans c).Drained → (s'.latChans c).Drained

section
variable {p : Param} {served : List (FullRequest × Outcome)} {done : List Act} {rs : List ReqPc}
  {s s' : Shared} {n : Nat} {pc pc' : ReqPc}

open scoped List in
/-- The books when a requester does the operations `did` and receives what is in `got`. -/
theorem Books.acts_moved (H : Books p served done rs s) (hn : rs[n]? = some pc) (did : List Act)
    (got : List (FullRequest × Outcome))
    (h : did ++ pc'.acts ~ pc.acts ++ got.flatMap fun a => serve p a.1 a.2) :
    done ++ did ++ (rs.set n pc').flatMap ReqPc.acts ~
      (served ++ got).flatMap fun a => serve p a.1 a.2 := by
  have hmoved := flatMap_moved_perm (f := ReqPc.acts) (b := pc') hn
  rw [List.flatMap_append]
  refine (List.perm_append_left_iff pc.acts).mp ?_
  calc pc.acts ++ (done ++ did ++ (rs.set n pc').flatMap ReqPc.acts)
    _ ~ done ++ did ++ (pc.acts ++ (rs.set n pc').flatMap ReqPc.acts) :=
        List.perm_append_comm_assoc ..
    _ ~ done ++ did ++ (pc'.acts ++ rs.flatMap ReqPc.acts) := hmoved.append_left _
    _ ~ did ++ pc'.acts ++ (done ++ rs.flatMap ReqPc.acts) := by
        rw [List.append_assoc, List.append_assoc]
        refine (List.perm_append_comm_assoc done did _).trans (.append_left did ?_)
        exact List.perm_append_comm_assoc ..
    _ ~ pc.acts ++ got.flatMap (fun a => serve p a.1 a.2) ++
        served.flatMap (fun a => serve p a.1 a.2) := h.append H.acts
    _ ~ pc.acts ++ (served.flatMap (fun a => serve p a.1 a.2) ++
        got.flatMap fun a => serve p a.1 a.2) := by
        rw [List.append_assoc]
        exact List.perm_append_comm.append_left _

/-- Nothing is done for a request. -/
theorem Books.keep (H : Books p served done rs s) (hn : rs[n]? = some pc) (hacts : pc'.acts = pc.acts)
    (hreq : s'.reqMetric = s.reqMetric) (htraffic : s'.trafficMetric = s.trafficMetric)
    (hchan : s'.reqChan = s.reqChan) (hlat : ∀ c, (s'.latChans c).buf = (s.latChans c).buf)
    (hclosed : ∀ c, (s.latChans c).closed = true → (s'.latChans c).closed = true) :
    Entry p served done (rs.set n pc') [] [] s s' where
  books := by
    refine ⟨H.acts_moved hn [] [] ?_, ?_, ?_, by rw [List.append_nil]; exact H.going⟩
    · rw [hacts, List.flatMap_nil, List.append_nil]
      exact .refl _
    · rw [hreq, List.append_nil]
      exact H.reqMetric
    · rw [htraffic, List.append_nil]
      exact H.trafficMetric
  reqChan := by rw [hchan]; rfl
  closed := by rw [hchan]
  latChans c := by rw [hlat c, List.filterMap_nil, List.append_nil]
  drained c h := ⟨hclosed c h.1, (hlat c).trans h.2⟩

/-- The first operation for a request is done. -/
theorem Books.act {act : Act} {acts : List Act} (H : Books p served done rs s)
    (hn : rs[n]? = some (.serving (act :: acts))) (hacts : pc'.acts = acts) (hgoing : ∀ e, act ≠ .stop e)
    (hreq : ∀ t, s'.reqMetric t = s.reqMetric t + [act].count (.count t))
    (htraffic : ∀ t, s'.trafficMetric t = s.trafficMetric t + ([act].filterMap (Act.bytes? t)).sum)
    (hchan : s'.reqChan = s.reqChan)
    (hlat : ∀ c, (s'.latChans c).buf = (s.latChans c).buf ++ [act].filterMap (Act.lat? c))
    (hdrained : ∀ c, (s.latChans c).Drained → (s'.latChans c).Drained) :
    Entry p served done (rs.set n pc') [] [act] s s' where
  books := by
    refine ⟨H.acts_moved hn [act] [] ?_, fun t => ?_, fun t => ?_, fun e he => ?_⟩
    · rw [hacts, List.flatMap_nil, List.append_nil]
      exact .refl _
    · rw [hreq, H.reqMetric, List.count_append]
    · rw [htraffic, H.trafficMetric, List.filterMap_append, List.sum_append]
    · obtain he | he := List.mem_append.mp he
      · exact H.going e he
      · exact hgoing e (List.mem_singleton.mp he).symm
  reqChan := by rw [hchan]; rfl
  closed := by rw [hchan]
  latChans := hlat
  drained := hdrained

/-- The steps of a requester. -/
theorem Books.step {o : Outcome} (H : Books p served done rs s) (hn : rs[n]? = some pc)
    (h : ReqStep p o pc s pc' s') : ∃ got did, Entry p served done (rs.set n pc') got did s s' := by
  cases h with
  | start => exact ⟨[], [], H.keep hn rfl rfl rfl rfl (fun _ => rfl) fun _ => id⟩
  | inc => exact ⟨[], [], H.keep hn rfl rfl rfl rfl (fun _ => rfl) fun _ => id⟩
  | leave => exact ⟨[], [], H.keep hn rfl rfl rfl rfl (fun _ => rfl) fun _ => id⟩
  | @take _ req reqChan hbuf hclosed =>
    refine ⟨[(req, o)], [], ⟨H.acts_moved hn [] [(req, o)] ?_, ?_, ?_, ?_⟩, hbuf, hclosed, ?_, fun _ => id⟩
    · rw [List.flatMap_singleton]
      exact .refl _
    · rw [List.append_nil]
      exact H.reqMetric
    · rw [List.append_nil]
      exact H.trafficMetric
    · rw [List.append_nil]
      exact H.going
    · exact fun c => (List.append_nil _).symm
  | served => exact ⟨[], [], H.keep hn rfl rfl rfl rfl (fun _ => rfl) fun _ => id⟩
  | @send _ c r acts hopen =>
    refine ⟨[], [.send c r], H.act hn rfl nofun (fun _ => rfl) (fun _ => rfl) rfl (fun c' => ?_) fun c' hd => ?_⟩
    · by_cases hc : c' = c
      · subst hc
        simp [Act.lat?]
      · rw [latChans_setLat_of_ne s _ hc]
        simp [Act.lat?, Ne.symm hc]
    · have hc : c' ≠ c := by
        rintro rfl
        exact nomatch hopen.symm.trans hd.1
      rwa [latChans_setLat_of_ne s _ hc]
  | @count _ t acts =>
    refine ⟨[], [.count t], H.act hn rfl nofun (fun t' => ?_) (fun _ => rfl) rfl
      (fun c => (List.append_nil _).symm) fun _ => id⟩
    by_cases ht : t' = t
    · subst ht
      simp
    · simp [ht, Ne.symm ht]
  | @traffic _ t bodySize acts =>
    refine ⟨[], [.traffic t bodySize], H.act hn rfl nofun (fun _ => rfl) (fun t' => ?_) rfl
      (fun c => (List.append_nil _).symm) fun _ => id⟩
    by_cases ht : t' = t
    · subst ht
      simp [Act.bytes?]
    · simp [ht, Ne.symm ht, Act.bytes?]
  | limit =>
    exact ⟨[], [.limit], H.act hn rfl nofun (fun _ => rfl) (fun _ => rfl) rfl
      (fun c => (List.append_nil _).symm) fun _ => id⟩
  | within => exact ⟨[], [], H.keep hn rfl rfl rfl rfl (fun _ => rfl) fun _ => id⟩
  | dec => exact ⟨[], [], H.keep hn rfl rfl rfl rfl (fun _ => rfl) fun _ => id⟩
  | zero => exact ⟨[], [], H.keep hn rfl rfl rfl rfl (fun _ => rfl) fun _ => id⟩
  | others => exact ⟨[], [], H.keep hn rfl rfl rfl rfl (fun _ => rfl) fun _ => id⟩
  | @close _ c chans hopen =>
    refine ⟨[], [], H.keep hn rfl rfl rfl rfl (fun c' => ?_) fun c' hc' => ?_⟩
    · by_cases hc : c' = c
      · subst hc
        rw [latChans_setLat_self]
      · rw [latChans_setLat_of_ne s _ hc]
    · by_cases hc : c' = c
      · subst hc
        rw [latChans_setLat_self]
      · rwa [latChans_setLat_of_ne s _ hc]
  | finish => exact ⟨[], [], H.keep hn rfl rfl rfl rfl (fun _ => rfl) fun _ => id⟩
  | done => exact ⟨[], [], H.keep hn rfl rfl rfl rfl (fun _ => rfl) fun _ => id⟩

end

/-! ## The loader and the files -/

/-- What the loader has yet to send. -/
inductive Loading : LoaderPc → Chan FullRequest → List FullRequest → Prop
  | start {ch : Chan FullRequest} {rs : List FullRequest} (h : ch.closed = false) :
      Loading (.start (rs.map .send ++ [.close])) ch rs
  | loop {ch : Chan FullRequest} {rs : List FullRequest} (h : ch.closed = false) :
      Loading (.loop (rs.map .send ++ [.close])) ch rs
  | closed {ch : Chan FullRequest} (h : ch.closed = true) : Loading (.loop []) ch []
  | returned {ch : Chan FullRequest} (h : ch.closed = true) : Loading .returned ch []

/-- What a step of the loader does to what the goroutines share. -/
inductive LoaderStep : LoaderPc → Shared → LoaderPc → Shared → Prop
  | start {s : Shared} {ops : List ChanOp} :
      LoaderStep (.start ops) s (.loop ops) { s with wg := s.wg + 1 }
  | send {s : Shared} {req : FullRequest} {ops : List ChanOp} (h : s.reqChan.closed = false) :
      LoaderStep (.loop (.send req :: ops)) s (.loop ops)
        { s with reqChan := ⟨s.reqChan.buf ++ [req], false⟩ }
  | close {s : Shared} {ops : List ChanOp} (h : s.reqChan.closed = false) :
      LoaderStep (.loop (.close :: ops)) s (.loop ops) { s with reqChan := ⟨s.reqChan.buf, true⟩ }
  | done {s : Shared} : LoaderStep (.loop []) s .returned { s with wg := s.wg + -1 }

def Pc.ended : Pc → Bool
  | .wgDone | .returned => true
  | _ => false

/-- A latency file: a line for each result that its channel has delivered. -/
structure Lines (p : Param) (done : List Act) (c : Lat) (lines : List (Nat × LatencyResult)) (d : Dumper)
    (ch : Chan LatencyResult) : Prop where
  order : lines.map Prod.snd ++ ch.buf = done.filterMap (Act.lat? c)
  written : d.pc.ended = false → d.writer.text = lines.flatMap fun a => p.line a.1 a.2
  ended : d.pc.ended = true → ch.Drained ∧
    ∃ t, d.writer.text = lines.flatMap (fun a => p.line a.1 a.2) ++ p.endOfOutput t
  buffered : d.writer.buf.length ≤ bufSize

/-- What a step of a `DumpLatencyResultChan` does. -/
inductive DumperStep (p : Param) (c : Lat) (t : Nat) : Dumper → Shared → Dumper → Shared → Prop
  | start {s : Shared} {w : BufWriter UInt8} :
      DumperStep p c t ⟨.start, w⟩ s ⟨.loop, w⟩ { s with wg := s.wg + 1 }
  | line {s : Shared} {w w' : BufWriter UInt8} {e : LatencyResult} {ch : Chan LatencyResult}
      (hbuf : (s.latChans c).buf = e :: ch.buf) (hclosed : ch.closed = (s.latChans c).closed)
      (htext : w'.text = w.text ++ p.line t e) (hlen : w'.buf.length ≤ bufSize) :
      DumperStep p c t ⟨.loop, w⟩ s ⟨.loop, w'⟩ (s.setLat c ch)
  | endOfOutput {s : Shared} {w : BufWriter UInt8} (h : (s.latChans c).Drained) :
      DumperStep p c t ⟨.loop, w⟩ s ⟨.wgDone, w.writeString bufSize (p.endOfOutput t)⟩
        (s.setLat c (s.latChans c))
  | done {s : Shared} {w : BufWriter UInt8} :
      DumperStep p c t ⟨.wgDone, w⟩ s ⟨.returned, w⟩ { s with wg := s.wg + -1 }

section
variable {p : Param} {s s' : Shared}

theorem loaderStep_ok {pc pc' : LoaderPc} (h : loaderStep pc s = .ok (pc', s')) :
    LoaderStep pc s pc' s' := by
  cases pc with
  | start ops =>
    obtain ⟨s₁, hs₁, heq⟩ := map_eq_ok h
    cases heq
    obtain rfl := add_eq_ok hs₁
    exact .start
  | loop ops =>
    cases ops with
    | nil =>
      obtain ⟨s₁, hs₁, heq⟩ := map_eq_ok h
      cases heq
      obtain rfl := add_eq_ok hs₁
      exact .done
    | cons op ops =>
      cases op with
      | send req =>
        obtain ⟨ch, hch, heq⟩ := map_eq_ok h
        obtain ⟨hopen, rfl⟩ := Chan.send_eq_ok (mapError_eq_ok hch)
        cases heq
        exact .send hopen
      | close =>
        obtain ⟨ch, hch, heq⟩ := map_eq_ok h
        obtain ⟨hopen, rfl⟩ := Chan.close_eq_ok (mapError_eq_ok hch)
        cases heq
        exact .close hopen
  | returned => cases h

theorem dumperStep_ok {c : Lat} {t : Nat} {d d' : Dumper} (h : dumperStep p c t d s = .ok (d', s')) :
    DumperStep p c t d s d' s' := by
  obtain ⟨pc, w⟩ := d
  cases pc with
  | start =>
    obtain ⟨s₁, hs₁, heq⟩ := map_eq_ok h
    cases heq
    obtain rfl := add_eq_ok hs₁
    exact .start
  | loop =>
    obtain ⟨⟨e, ch⟩, hch, heq⟩ := map_eq_ok h
    cases e with
    | none =>
      obtain ⟨hdrained, rfl⟩ := Chan.recv_none (mapError_eq_ok hch)
      cases heq
      exact .endOfOutput hdrained
    | some e =>
      obtain ⟨hbuf, hclosed⟩ := Chan.recv_some (mapError_eq_ok hch)
      cases heq
      apply DumperStep.line hbuf hclosed
      · split
        · rw [BufWriter.text_flush, BufWriter.text_writeString]
        · exact BufWriter.text_writeString ..
      · split
        · exact Nat.zero_le _
        · exact BufWriter.length_buf_writeString (by decide) ..
  | wgDone =>
    obtain ⟨s₁, hs₁, heq⟩ := map_eq_ok h
    cases heq
    obtain rfl := add_eq_ok hs₁
    exact .done
  | returned => cases h

theorem Loading.congr {pc : LoaderPc} {ch ch' : Chan FullRequest} {pending : List FullRequest}
    (H : Loading pc ch pending) (h : ch'.closed = ch.closed) : Loading pc ch' pending := by
  cases H with
  | start hopen => exact .start (h.trans hopen)
  | loop hopen => exact .loop (h.trans hopen)
  | closed hclosed => exact .closed (h.trans hclosed)
  | returned hclosed => exact .returned (h.trans hclosed)

theorem Loading.step {pc pc' : LoaderPc} {pending : List FullRequest}
    (H : Loading pc s.reqChan pending) (h : LoaderStep pc s pc' s') :
    Frame s s' ∧ s'.latChans = s.latChans ∧ s'.reqMetric = s.reqMetric ∧
      s'.trafficMetric = s.trafficMetric ∧
      ∃ pending', Loading pc' s'.reqChan pending' ∧
        s'.reqChan.buf ++ pending' = s.reqChan.buf ++ pending := by
  cases h with
  | start =>
    cases H with
    | start hopen =>
      exact ⟨⟨rfl, rfl, fun _ => rfl, id⟩, rfl, rfl, rfl, pending, .loop hopen, rfl⟩
  | @send _ req ops hopen =>
    have hframe : Frame s { s with reqChan := ⟨s.reqChan.buf ++ [req], false⟩ } :=
      ⟨rfl, rfl, fun _ => rfl, fun hd => nomatch hopen.symm.trans hd.1⟩
    generalize hpc : LoaderPc.loop (.send req :: ops) = pc at H
    cases H with
    | start _ => cases hpc
    | loop _ =>
      cases pending with
      | nil => cases hpc
      | cons r pending =>
        cases hpc
        exact ⟨hframe, rfl, rfl, rfl, pending, .loop rfl, List.append_assoc ..⟩
    | closed _ => cases hpc
    | returned _ => cases hpc
  | @close _ ops hopen =>
    have hframe : Frame s { s with reqChan := ⟨s.reqChan.buf, true⟩ } :=
      ⟨rfl, rfl, fun _ => rfl, fun hd => ⟨rfl, hd.2⟩⟩
    generalize hpc : LoaderPc.loop (.close :: ops) = pc at H
    cases H with
    | start _ => cases hpc
    | loop _ =>
      cases pending with
      | nil =>
        cases hpc
        exact ⟨hframe, rfl, rfl, rfl, [], .closed rfl, rfl⟩
      | cons r pending => cases hpc
    | closed _ => cases hpc
    | returned _ => cases hpc
  | done =>
    generalize hpc : LoaderPc.loop [] = pc at H
    cases H with
    | start _ => cases hpc
    | loop _ => cases pending <;> cases hpc
    | closed hclosed =>
      exact ⟨⟨rfl, rfl, fun _ => rfl, id⟩, rfl, rfl, rfl, [], .returned hclosed, rfl⟩
    | returned _ => cases hpc

theorem Lines.step {c : Lat} {t : Nat} {d d' : Dumper} {done : List Act}
    {lines : List (Nat × LatencyResult)} (H : Lines p done c lines d (s.latChans c))
    (h : DumperStep p c t d s d' s') :
    Frame s s' ∧ s'.reqChan = s.reqChan ∧ s'.reqMetric = s.reqMetric ∧
      s'.trafficMetric = s.trafficMetric ∧ (∀ c', c' ≠ c → s'.latChans c' = s.latChans c') ∧
      ∃ lines', Lines p done c lines' d' (s'.latChans c) := by
  cases h with
  | start =>
    exact ⟨⟨rfl, rfl, fun _ => rfl, id⟩, rfl, rfl, rfl, fun _ _ => rfl, lines,
      H.order, fun _ => H.written rfl, nofun, H.buffered⟩
  | @line _ w w' e ch hbuf hclosed htext hlen =>
    refine ⟨frame_setLat hclosed, rfl, rfl, rfl, fun c' hc => latChans_setLat_of_ne s _ hc,
      lines ++ [(t, e)], ?_, fun _ => ?_, nofun, hlen⟩
    · have horder := H.order
      rw [hbuf] at horder
      rw [latChans_setLat_self, List.map_append, List.append_assoc]
      exact horder
    · rw [htext, H.written rfl, List.flatMap_append, List.flatMap_singleton]
  | endOfOutput hdrained =>
    refine ⟨frame_setLat rfl, rfl, rfl, rfl, fun c' hc => latChans_setLat_of_ne s _ hc,
      lines, ?_, nofun, fun _ => ⟨?_, t, ?_⟩, ?_⟩
    · rw [latChans_setLat_self]
      exact H.order
    · rw [latChans_setLat_self]
      exact hdrained
    · rw [BufWriter.text_writeString, H.written rfl]
    · exact BufWriter.length_buf_writeString (by decide) ..
  | done =>
    exact ⟨⟨rfl, rfl, fun _ => rfl, id⟩, rfl, rfl, rfl, fun _ _ => rfl, lines,
      H.order, nofun, fun _ => H.ended rfl, H.buffered⟩

end

/-! ## The wait group -/

def LoaderPc.waitedFor : LoaderPc → Bool
  | .loop _ => true
  | _ => false

def Pc.waitedFor : Pc → Bool
  | .loop | .wgDone => true
  | _ => false

/-- The sum over the dumpers. -/
def sumLat (f : Lat → Nat) : Nat := (latChans.map f).sum

theorem sumLat_update {β : Type} (f : Lat → β → Nat) (d : Lat → β) (c : Lat) (x : β) :
    sumLat (fun c' => f c' (Function.update d c x c')) + f c (d c) = sumLat (fun c' => f c' (d c')) + f c x := by
  have hother : ∀ c', c' ≠ c → f c' (Function.update d c x c') = f c' (d c') := fun c' hc =>
    congrArg (f c') (Function.update_of_ne hc x d)
  have hself : f c (Function.update d c x c) = f c x := congrArg (f c) (Function.update_self c x d)
  generalize hg : (fun c' => f c' (Function.update d c x c')) = g
  replace hother : ∀ c', c' ≠ c → g c' = f c' (d c') := fun c' hc => hg ▸ hother c' hc
  replace hself : g c = f c x := hg ▸ hself
  simp only [sumLat, latChans, List.map_cons, List.map_nil, List.sum_cons, List.sum_nil]
  cases c with
  | firstByte t =>
    rw [hother (.fullResp .ramHit) nofun, hother (.fullResp .hit) nofun, hother (.fullResp .miss) nofun]
    cases t with
    | ramHit => rw [hself, hother (.firstByte .hit) nofun, hother (.firstByte .miss) nofun]; omega
    | hit => rw [hself, hother (.firstByte .ramHit) nofun, hother (.firstByte .miss) nofun]; omega
    | miss => rw [hself, hother (.firstByte .ramHit) nofun, hother (.firstByte .hit) nofun]; omega
  | fullResp t =>
    rw [hother (.firstByte .ramHit) nofun, hother (.firstByte .hit) nofun, hother (.firstByte .miss) nofun]
    cases t with
    | ramHit => rw [hself, hother (.fullResp .hit) nofun, hother (.fullResp .miss) nofun]; omega
    | hit => rw [hself, hother (.fullResp .ramHit) nofun, hother (.fullResp .miss) nofun]; omega
    | miss => rw [hself, hother (.fullResp .ramHit) nofun, hother (.fullResp .hit) nofun]; omega

/-- The goroutines that have begun and not yet called `wg.Done`. -/
def State.waitedFor (s : State) : Nat :=
  s.loader.waitedFor.toNat + s.requesters.countP ReqPc.waitedFor +
    sumLat (fun c => (s.dumpers c).pc.waitedFor.toNat) + s.stat.waitedFor.toNat

section
variable {p : Param} {s s' : Shared}

theorem ReqStep.wg {o : Outcome} {pc pc' : ReqPc} (h : ReqStep p o pc s pc' s') :
    s'.wg + pc.waitedFor.toNat = s.wg + pc'.waitedFor.toNat := by
  cases h with
  | start => exact Int.add_zero (s.wg + 1)
  | done => exact (Int.neg_add_cancel_right s.wg 1).trans (Int.add_zero s.wg).symm
  | _ => rfl

theorem LoaderStep.wg {pc pc' : LoaderPc} (h : LoaderStep pc s pc' s') :
    s'.wg + pc.waitedFor.toNat = s.wg + pc'.waitedFor.toNat := by
  cases h with
  | start => exact Int.add_zero (s.wg + 1)
  | done => exact (Int.neg_add_cancel_right s.wg 1).trans (Int.add_zero s.wg).symm
  | _ => rfl

theorem DumperStep.wg {c : Lat} {t : Nat} {d d' : Dumper} (h : DumperStep p c t d s d' s') :
    s'.wg + d.pc.waitedFor.toNat = s.wg + d'.pc.waitedFor.toNat := by
  cases h with
  | start => exact Int.add_zero (s.wg + 1)
  | done => exact (Int.neg_add_cancel_right s.wg 1).trans (Int.add_zero s.wg).symm
  | _ => rfl

/-- What a step of `dumpClientStat` does. -/
theorem statStep_ok {pc pc' : Pc} (h : statStep pc s = .ok (pc', s')) :
    s' = { s with wg := s'.wg } ∧ s'.wg + pc.waitedFor.toNat = s.wg + pc'.waitedFor.toNat ∧
      (pc'.ended = true → pc.ended = true ∨ s.replayFinished = true) := by
  cases pc with
  | start =>
    obtain ⟨s₁, hs₁, heq⟩ := map_eq_ok h
    cases heq
    obtain rfl := add_eq_ok hs₁
    exact ⟨rfl, Int.add_zero (s.wg + 1), nofun⟩
  | loop =>
    rw [statStep] at h
    cases h
    split
    · next hfinished => exact ⟨rfl, rfl, fun _ => .inr hfinished⟩
    · exact ⟨rfl, rfl, nofun⟩
  | wgDone =>
    obtain ⟨s₁, hs₁, heq⟩ := map_eq_ok h
    cases heq
    obtain rfl := add_eq_ok hs₁
    exact ⟨rfl, (Int.neg_add_cancel_right s.wg 1).trans (Int.add_zero s.wg).symm, fun _ => .inl rfl⟩
  | returned => cases h

end

/-! ## The invariant -/

/-- What has happened so far: how many requesters have read 0, what they have met, what they have done,
and what is in the latency files. -/
structure History where
  zeros : Nat
  served : List (FullRequest × Outcome)
  done : List Act
  lines : Lat → List (Nat × LatencyResult)

/-- Every goroutine has returned. -/
structure State.Ended (s : State) : Prop where
  loader : s.loader = .returned
  requesters : ∀ pc ∈ s.requesters, pc = .returned
  dumpers : ∀ c, (s.dumpers c).pc = .returned
  stat : s.stat = .returned

structure Inv (p : Param) (n : Nat) (reqs : List FullRequest) (g : History) (s : State) : Prop where
  size : s.requesters.length = n
  requests : ∃ pending, Loading s.loader s.shared.reqChan pending ∧
    g.served.map Prod.fst ++ s.shared.reqChan.buf ++ pending = reqs
  closing : Closing g.zeros s.requesters s.shared
  books : Books p g.served g.done s.requesters s.shared
  lines : ∀ c, Lines p g.done c (g.lines c) (s.dumpers c) (s.shared.latChans c)
  stat : s.stat.ended = true → s.shared.replayFinished = true
  wg : s.shared.wg = s.waitedFor
  ended : s.returned = true → s.Ended

/-- The requester reads 0 in this step. -/
def readsZero (s : State) : Event → Bool
  | .requester n _ => s.requesters[n]? == some .check && s.shared.running == 0
  | _ => false

section
variable {p : Param} {n : Nat} {reqs : List FullRequest} {g : History} {s s' : State}

theorem readsZero_requester {i : Nat} {o : Outcome} {pc : ReqPc} (hi : s.requesters[i]? = some pc) :
    (readsZero s (.requester i o)).toNat = if pc = .check ∧ s.shared.running = 0 then 1 else 0 := by
  dsimp only [readsZero]
  rw [hi]
  by_cases hread : pc = .check ∧ s.shared.running = 0
  · rw [if_pos hread, hread.1, hread.2]
    rfl
  · rw [if_neg hread, Bool.toNat_eq_zero, Bool.and_eq_false_iff, beq_eq_false_iff_ne, beq_eq_false_iff_ne]
    by_cases hpc : pc = .check
    · exact .inr fun hzero => hread ⟨hpc, hzero⟩
    · exact .inl fun heq => hpc (Option.some.inj heq)

theorem start_inv (p : Param) (n : Nat) (reqs : List FullRequest) :
    Inv p n reqs ⟨0, [], [], fun _ => []⟩ (start n (reqs.map .send ++ [.close])) where
  size := List.length_replicate
  requests := ⟨reqs, .start rfl, rfl⟩
  closing :=
    { running := by
        rw [List.countP_eq_zero.mpr]
        · rfl
        · intro pc hpc
          rw [List.eq_of_mem_replicate hpc]
          exact Bool.false_ne_true
      past := fun pc hpc h => by
        rw [List.eq_of_mem_replicate hpc] at h
        cases h
      stage := by
        refine ⟨0, 0, by omega, fun _ => rfl, rfl, ?_, rfl⟩
        rw [List.filterMap_eq_nil_iff.mpr]
        · exact .refl _
        · intro pc hpc
          rw [List.eq_of_mem_replicate hpc]
          rfl
      quiet := fun h => absurd h (Nat.lt_irrefl 0)
      last := fun h => by
        cases n with
        | zero => exact .inl rfl
        | succ n => exact nomatch h .start (List.mem_replicate.mpr ⟨Nat.succ_ne_zero n, rfl⟩) }
  books :=
    { acts := by
        rw [List.flatMap_eq_nil_iff.mpr]
        · exact .refl _
        · intro pc hpc
          rw [List.eq_of_mem_replicate hpc]
          rfl
      reqMetric := fun _ => rfl
      trafficMetric := fun _ => rfl
      going := fun _ h => nomatch h }
  lines _ := ⟨rfl, fun _ => rfl, nofun, Nat.zero_le _⟩
  stat := nofun
  wg := by
    have hcount : (List.replicate n ReqPc.start).countP ReqPc.waitedFor = 0 := by
      rw [List.countP_eq_zero]
      intro pc hpc
      rw [List.eq_of_mem_replicate hpc]
      exact Bool.false_ne_true
    rw [State.waitedFor, start, hcount]
    rfl
  ended := nofun

/-- Every goroutine that has begun has returned when the wait group is at 0. -/
theorem Inv.ended_of_wg (H : Inv p n reqs g s) (hstarted : s.Started) (hwg : s.shared.wg = 0) :
    s.Ended := by
  have hzero : s.waitedFor = 0 := Int.ofNat_eq_zero.mp (H.wg.symm.trans hwg)
  unfold State.waitedFor at hzero
  have hsum : sumLat (fun c => (s.dumpers c).pc.waitedFor.toNat) = 0 := by omega
  obtain ⟨hloader, hrequesters, hdumpers, hstat⟩ := hstarted
  refine ⟨?_, fun pc hpc => ?_, fun c => ?_, ?_⟩
  · cases h : s.loader with
    | start ops => rw [h] at hloader; cases hloader
    | loop ops => rw [h] at hzero; simp [LoaderPc.waitedFor] at hzero
    | returned => rfl
  · have hnone : pc.waitedFor ≠ true := List.countP_eq_zero.mp (by omega) pc hpc
    cases pc <;> first | rfl | exact absurd rfl hnone | exact absurd hpc hrequesters
  · have hc : (s.dumpers c).pc.waitedFor.toNat = 0 :=
      List.sum_eq_zero_iff_forall_eq_nat.mp hsum _ (List.mem_map.mpr ⟨c, mem_latChans c, rfl⟩)
    cases h : (s.dumpers c).pc with
    | start => exact absurd h (hdumpers c (mem_latChans c))
    | returned => rfl
    | _ => rw [h] at hc; cases hc
  · cases h : s.stat with
    | start => exact absurd h hstat
    | returned => rfl
    | _ => rw [h] at hzero; simp [Pc.waitedFor] at hzero

/-- A goroutine other than the requesters goes on. -/
theorem Inv.other (H : Inv p n reqs g s) (lines : Lat → List (Nat × LatencyResult))
    (hsize : s'.requesters = s.requesters) (hframe : Frame s.shared s'.shared)
    (hreq : s'.shared.reqMetric = s.shared.reqMetric)
    (htraffic : s'.shared.trafficMetric = s.shared.trafficMetric)
    (hrequests : ∃ pending, Loading s'.loader s'.shared.reqChan pending ∧
      g.served.map Prod.fst ++ s'.shared.reqChan.buf ++ pending = reqs)
    (hlines : ∀ c, Lines p g.done c (lines c) (s'.dumpers c) (s'.shared.latChans c))
    (hstat : s'.stat.ended = true → s'.shared.replayFinished = true)
    (hwg : s'.shared.wg = s'.waitedFor) (hreturned : s'.returned = false) :
    Inv p n reqs { g with lines } s' where
  size := by rw [hsize]; exact H.size
  requests := hrequests
  closing := by rw [hsize]; exact H.closing.frame hframe
  books := by
    rw [hsize]
    exact ⟨H.books.acts, by rw [hreq]; exact H.books.reqMetric,
      by rw [htraffic]; exact H.books.trafficMetric, H.books.going⟩
  lines := hlines
  stat := hstat
  wg := hwg
  ended h := nomatch hreturned.symm.trans h

theorem Inv.loader_step (H : Inv p n reqs g s) {pc : LoaderPc} {sh : Shared} (hreturned : s.returned = false)
    (h : LoaderStep s.loader s.shared pc sh) : Inv p n reqs g { s with loader := pc, shared := sh } := by
  obtain ⟨pending, hloading, hreqs⟩ := H.requests
  obtain ⟨hframe, hlat, hreq, htraffic, pending', hloading', hbuf⟩ := hloading.step h
  refine H.other g.lines rfl hframe hreq htraffic ⟨pending', hloading', ?_⟩ ?_ ?_ ?_ hreturned
  · rw [List.append_assoc]
    dsimp only
    rw [hbuf, ← List.append_assoc]
    exact hreqs
  · dsimp only
    rw [hlat]
    exact H.lines
  · exact fun hended => hframe.finished.trans (H.stat hended)
  · have hstep := h.wg
    have hwg := H.wg
    unfold State.waitedFor at hwg ⊢
    dsimp only
    omega

theorem Inv.dumper_step (H : Inv p n reqs g s) {c : Lat} {t : Nat} {d : Dumper} {sh : Shared}
    (hreturned : s.returned = false) (h : DumperStep p c t (s.dumpers c) s.shared d sh) :
    ∃ lines, Inv p n reqs { g with lines }
      { s with dumpers := Function.update s.dumpers c d, shared := sh } := by
  obtain ⟨pending, hloading, hreqs⟩ := H.requests
  obtain ⟨hframe, hchan, hreq, htraffic, hother, lines', hlines'⟩ := (H.lines c).step h
  refine ⟨Function.update g.lines c lines', H.other _ rfl hframe hreq htraffic ⟨pending, ?_⟩ ?_ ?_ ?_ hreturned⟩
  · dsimp only
    rw [hchan]
    exact ⟨hloading, hreqs⟩
  · intro c'
    dsimp only
    by_cases hc : c' = c
    · subst hc
      rw [Function.update_self, Function.update_self]
      exact hlines'
    · rw [Function.update_of_ne hc, Function.update_of_ne hc, hother c' hc]
      exact H.lines c'
  · exact fun hended => hframe.finished.trans (H.stat hended)
  · have hstep := h.wg
    have hwg := H.wg
    have hsum := sumLat_update (fun _ d => d.pc.waitedFor.toNat) s.dumpers c d
    unfold State.waitedFor at hwg ⊢
    dsimp only at hsum ⊢
    omega

theorem Inv.stat_step (H : Inv p n reqs g s) {pc : Pc} {sh : Shared} (hreturned : s.returned = false)
    (h : statStep s.stat s.shared = .ok (pc, sh)) :
    Inv p n reqs g { s with stat := pc, shared := sh } := by
  obtain ⟨hsh, hstep, hended⟩ := statStep_ok h
  obtain ⟨pending, hloading, hreqs⟩ := H.requests
  generalize sh.wg = wg at hsh hstep
  subst hsh
  refine H.other g.lines rfl ⟨rfl, rfl, fun _ => rfl, id⟩ rfl rfl ⟨pending, hloading, hreqs⟩
    H.lines ?_ ?_ hreturned
  · exact fun hpc => (hended hpc).elim H.stat id
  · have hwg := H.wg
    unfold State.waitedFor at hwg ⊢
    dsimp only at hstep ⊢
    omega

theorem Inv.requester_step (H : Inv p n reqs g s) {i : Nat} {o : Outcome} {pc pc' : ReqPc} {sh : Shared}
    (hreturned : s.returned = false) (hi : s.requesters[i]? = some pc)
    (h : ReqStep p o pc s.shared pc' sh) : ∃ g', Inv p n reqs g'
      { s with requesters := s.requesters.set i pc', shared := sh } ∧
      g'.zeros = g.zeros + if pc = .check ∧ s.shared.running = 0 then 1 else 0 := by
  obtain ⟨pending, hloading, hreqs⟩ := H.requests
  obtain ⟨got, did, hentry⟩ := H.books.step hi h
  have hclosing := H.closing.step hi h
  refine ⟨⟨_, g.served ++ got, g.done ++ did, g.lines⟩, ⟨?_, ⟨pending, ?_, ?_⟩, hclosing, hentry.books,
    fun c => ⟨?_, (H.lines c).written, fun hended => ?_, (H.lines c).buffered⟩, fun hended => ?_, ?_, ?_⟩, rfl⟩
  · rw [List.length_set]
    exact H.size
  · exact hloading.congr hentry.closed
  · rw [List.map_append, List.append_assoc (g.served.map Prod.fst), ← hentry.reqChan]
    exact hreqs
  · rw [hentry.latChans, ← List.append_assoc, (H.lines c).order, List.filterMap_append]
  · exact ((H.lines c).ended hended).imp_left (hentry.drained c)
  · have hfinished := H.stat hended
    cases h with
    | finish => rfl
    | _ => exact hfinished
  · have hstep := h.wg
    have hwg := H.wg
    have hcount := countP_moved (q := ReqPc.waitedFor) (b := pc') hi
    unfold State.waitedFor at hwg ⊢
    dsimp only
    omega
  · exact fun hr => nomatch hreturned.symm.trans hr

/-- **A step** keeps the invariant. -/
theorem Inv.step {ev : Event} (H : Inv p n reqs g s) (hslept : Slept s ev)
    (h : Replay.step p s ev = .ok s') :
    ∃ g', Inv p n reqs g' s' ∧ g'.zeros = g.zeros + (readsZero s ev).toNat := by
  unfold Replay.step at h
  split at h
  · cases h
  · next hrunning =>
    have hreturned : s.returned = false := Bool.eq_false_iff.mpr hrunning
    cases ev with
    | main =>
      dsimp only at h
      split at h
      · next hwg =>
        cases h
        have hended := H.ended_of_wg (hslept rfl) hwg
        exact ⟨g, ⟨H.size, H.requests, H.closing, H.books, H.lines, H.stat, H.wg,
          fun _ => ⟨hended.loader, hended.requesters, hended.dumpers, hended.stat⟩⟩, rfl⟩
      · cases h
    | loader =>
      obtain ⟨⟨pc, sh⟩, hstep, rfl⟩ := map_eq_ok h
      exact ⟨g, H.loader_step hreturned (loaderStep_ok hstep), rfl⟩
    | requester i o =>
      dsimp only at h
      split at h
      · cases h
      · next pc hi =>
        obtain ⟨⟨pc', sh⟩, hstep, rfl⟩ := map_eq_ok h
        obtain ⟨g', H', hzeros⟩ := H.requester_step hreturned hi (requesterStep_ok hstep)
        exact ⟨g', H', hzeros.trans (congrArg _ (readsZero_requester hi).symm)⟩
    | dumper c t =>
      obtain ⟨⟨d, sh⟩, hstep, rfl⟩ := map_eq_ok h
      obtain ⟨lines, H'⟩ := H.dumper_step hreturned (dumperStep_ok hstep)
      exact ⟨_, H', rfl⟩
    | stat =>
      obtain ⟨⟨pc, sh⟩, hstep, rfl⟩ := map_eq_ok h
      exact ⟨g, H.stat_step hreturned hstep, rfl⟩

end

end C2DN.Client.Replay
