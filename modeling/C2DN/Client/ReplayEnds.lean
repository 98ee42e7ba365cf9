import C2DN.Client.RequestersRuns

/-!
# The end of a replay

Every step leaves less to do, and while `RunAkamai` waits some goroutine can take a step or ends the
process: because of what a request meets, or because two requesters have read 0. When `RunAkamai` is past
`wg.Wait()`, every request of the loader has been served once and its results are in the files.
-/

namespace C2DN.Client.Replay

/-! ## What is left to do -/

/-- The steps that a requester has yet to take, if it receives no other request. -/
def ReqPc.steps : ReqPc → Nat
  | .start => 13
  | .inc => 12
  | .recv => 11
  -- a result that is sent has to be received
  | .serving acts => 2 * acts.length + 12
  | .limit _ acts => 2 * acts.length + 13
  | .dec => 10
  | .check => 9
  | .closing chans => chans.length + 2
  | .wgDone => 1
  | .returned => 0

def Pc.steps : Pc → Nat
  | .start => 3
  | .loop => 2
  | .wgDone => 1
  | .returned => 0

def LoaderPc.steps : LoaderPc → Nat
  | .start ops => ops.length + 2
  | .loop ops => ops.length + 1
  | .returned => 0

section
variable {p : Param} {s s' : Shared}

theorem statStep_work {pc pc' : Pc} (h : statStep pc s = .ok (pc', s')) :
    (s.replayFinished = false ∧ pc' = pc ∧ s' = s) ∨ pc'.steps < pc.steps := by
  cases pc with
  | start =>
    obtain ⟨s₁, _, heq⟩ := map_eq_ok h
    cases heq
    exact .inr (by decide)
  | loop =>
    rw [statStep] at h
    cases h
    split
    · exact .inr (by decide)
    · next hfinished => exact .inl ⟨Bool.eq_false_iff.mpr hfinished, rfl, rfl⟩
  | wgDone =>
    obtain ⟨s₁, _, heq⟩ := map_eq_ok h
    cases heq
    exact .inr (by decide)
  | returned => cases h

end

/-- How a request can end the process. -/
def Stop.byRequest : Stop → Bool
  | .indexOutOfRange | .dpanic | .tooManyFailed | .fatal => true
  | _ => false

/-- The operations of `acts` that end the process are those of a request. -/
def StopsByRequest (acts : List Act) : Prop := ∀ e, .stop e ∈ acts → e.byRequest = true

section
variable {p : Param}

theorem StopsByRequest.append {as bs : List Act} (ha : StopsByRequest as) (hb : StopsByRequest bs) :
    StopsByRequest (as ++ bs) := fun e he => (List.mem_append.mp he).elim (ha e) (hb e)

theorem stops_nil : StopsByRequest [] := fun _ he => nomatch he

theorem stops_dPanicf : StopsByRequest (dPanicf p) := by
  intro e he
  unfold dPanicf at he
  split at he
  · cases List.mem_singleton.mp he
    rfl
  · cases he

theorem stops_handleFailedReq : StopsByRequest handleFailedReq := by
  intro e he
  simp [handleFailedReq] at he

theorem stops_processHeader (via : List Char) : StopsByRequest (processHeader p via).1 := by
  unfold processHeader
  split
  · exact stops_nil
  · dsimp only
    split
    · intro e he
      cases List.mem_singleton.mp he
      rfl
    · exact stops_nil
    · exact stops_nil
    · exact stops_nil
    · exact stops_nil
    · exact stops_nil
    · exact stops_dPanicf

section
variable {req : FullRequest} {hitType : Option HitType}

theorem stops_firstByte (latency : Nat) (r : Read) :
    StopsByRequest (firstByte p req hitType latency r) := by
  unfold firstByte
  split
  · cases hitType with
    | none => exact stops_dPanicf
    | some t => exact fun e he => nomatch List.mem_singleton.mp he
  · exact stops_nil

theorem stops_endOfBody (bodySize : UInt32) (ending : Ending) :
    StopsByRequest (endOfBody p req hitType bodySize ending) := by
  cases ending with
  | err => exact stops_handleFailedReq
  | eof elapsed =>
    apply StopsByRequest.append
    · cases hitType with
      | none => exact stops_dPanicf
      | some t => intro e he; simp at he
    · intro e he
      simp at he

theorem stops_readBody (last : Read) (ending : Ending) (bodySize : UInt32) (latency : Nat)
    (reads : List Read) : StopsByRequest (readBody p req hitType last ending bodySize latency reads) := by
  induction reads generalizing bodySize latency with
  | nil =>
    apply StopsByRequest.append ((stops_firstByte _ _).append (stops_endOfBody _ _))
    split
    · exact stops_handleFailedReq
    · exact stops_nil
  | cons r reads ih =>
    apply StopsByRequest.append ((stops_firstByte _ _).append _) (ih _ _)
    split
    · exact stops_dPanicf
    · exact stops_nil

end

theorem stops_serve (req : FullRequest) (o : Outcome) : StopsByRequest (serve p req o) := by
  cases o with
  | noRequest => exact stops_dPanicf
  | sendErr => exact stops_handleFailedReq
  | response r => exact (stops_processHeader r.via).append (stops_readBody _ _ _ _ _)

end

theorem map_eq_error {ε α β : Type} {f : α → β} {x : Except ε α} {e : ε} (h : x.map f = .error e) :
    x = .error e := by
  cases x with
  | ok a => cases h
  | error e' => cases h; rfl

theorem mapError_eq_error {ε ε' α : Type} {f : ε → ε'} {x : Except ε α} {e : ε'}
    (h : x.mapError f = .error e) : ∃ e', x = .error e' ∧ e = f e' := by
  cases x with
  | ok a => cases h
  | error e' => cases h; exact ⟨e', rfl, rfl⟩

/-- Why a requester takes no step. -/
inductive ReqHalt (s : Shared) : ReqPc → Stop → Prop
  | request {pc : ReqPc} {e : Stop} (h : e.byRequest = true) : ReqHalt s pc e
  | closed {c : Lat} {chans : List Lat} (h : (s.latChans c).closed = true) :
      ReqHalt s (.closing (c :: chans)) (.chan .closeOfClosed)
  | empty (h : s.reqChan.buf = []) (hopen : s.reqChan.closed = false) :
      ReqHalt s .recv (.chan .blocked)
  | full {c : Lat} {r : LatencyResult} {acts : List Act} (h : chanBufLen ≤ (s.latChans c).buf.length) :
      ReqHalt s (.serving (.send c r :: acts)) (.chan .blocked)
  | returned : ReqHalt s .returned .wait

section
variable {p : Param} {s : Shared} {e : Stop}

theorem add_error {delta : Int} (h : s.add delta = .error e) : s.wg + delta < 0 := by
  unfold Shared.add at h
  split at h
  · assumption
  · cases h

theorem requesterStep_error {o : Outcome} {pc : ReqPc} (h : requesterStep p o pc s = .error e)
    (hopen : pc.holding = true → ∀ c, (s.latChans c).closed = false) (hstops : StopsByRequest pc.acts)
    (hwg : (pc.waitedFor.toNat : Int) ≤ s.wg) : ReqHalt s pc e := by
  cases pc with
  | start =>
    have := add_error (map_eq_error h)
    have : (0 : Int) ≤ s.wg := hwg
    omega
  | inc => cases h
  | recv =>
    cases hrecv : s.reqChan.recv with
    | error e' =>
      obtain ⟨rfl, hbuf, hclosed⟩ := Chan.recv_error hrecv
      rw [requesterStep, hrecv] at h
      cases h
      exact .empty hbuf hclosed
    | ok x =>
      obtain ⟨req, reqChan⟩ := x
      rw [requesterStep, hrecv] at h
      cases req with
      | none => cases h
      | some req =>
        replace h : (if p.closeloop = true then .error .fatal
          else .ok (ReqPc.serving (serve p req o), { s with reqChan })) = Except.error e := h
        split at h
        · cases h
          exact .request rfl
        · cases h
  | serving acts =>
    cases acts with
    | nil => cases h
    | cons act acts =>
      cases act with
      | send c r =>
        obtain ⟨e', he', rfl⟩ := mapError_eq_error (map_eq_error h)
        obtain ⟨hclosed, -⟩ | ⟨hfull, rfl⟩ := Chan.send_error he'
        · exact absurd (hclosed.symm.trans (hopen rfl c)) Bool.noConfusion
        · exact .full hfull
      | count t => cases h
      | traffic t bodySize => cases h
      | limit => cases h
      | stop e' =>
        cases h
        exact .request (hstops e List.mem_cons_self)
  | limit nFailed acts =>
    rw [requesterStep] at h
    split at h
    · cases h
      exact .request rfl
    · cases h
  | dec => cases h
  | check => cases h
  | closing chans =>
    cases chans with
    | nil => cases h
    | cons c chans =>
      obtain ⟨e', he', rfl⟩ := mapError_eq_error (map_eq_error h)
      obtain ⟨hclosed, rfl⟩ := Chan.close_error he'
      exact .closed hclosed
  | wgDone =>
    have := add_error (map_eq_error h)
    have : (1 : Int) ≤ s.wg := hwg
    omega
  | returned => cases h; exact .returned

/-- Why the loader takes no step. -/
theorem loaderStep_error {pc : LoaderPc} {pending : List FullRequest} (H : Loading pc s.reqChan pending)
    (h : loaderStep pc s = .error e) (hwg : (pc.waitedFor.toNat : Int) ≤ s.wg) :
    (pc = .returned ∧ e = .wait) ∨ chanBufLen ≤ s.reqChan.buf.length ∧ e = .chan .blocked := by
  cases H with
  | start _ =>
    have := add_error (map_eq_error h)
    have : (0 : Int) ≤ s.wg := hwg
    omega
  | loop hopen =>
    cases pending with
    | nil =>
      obtain ⟨e', he', rfl⟩ := mapError_eq_error (map_eq_error h)
      exact nomatch (Chan.close_error he').1.symm.trans hopen
    | cons req pending =>
      obtain ⟨e', he', rfl⟩ := mapError_eq_error (map_eq_error h)
      obtain ⟨hclosed, -⟩ | ⟨hfull, rfl⟩ := Chan.send_error he'
      · exact nomatch hclosed.symm.trans hopen
      · exact .inr ⟨hfull, rfl⟩
  | closed _ =>
    have := add_error (map_eq_error h)
    have : (1 : Int) ≤ s.wg := hwg
    omega
  | returned _ => cases h; exact .inl ⟨rfl, rfl⟩

/-- Why a dumper takes no step. -/
theorem dumperStep_error {c : Lat} {t : Nat} {d : Dumper} (h : dumperStep p c t d s = .error e)
    (hwg : (d.pc.waitedFor.toNat : Int) ≤ s.wg) :
    (d.pc = .returned ∧ e = .wait) ∨
      d.pc = .loop ∧ (s.latChans c).buf = [] ∧ (s.latChans c).closed = false ∧ e = .chan .blocked := by
  obtain ⟨pc, w⟩ := d
  cases pc with
  | start =>
    have := add_error (map_eq_error h)
    have : (0 : Int) ≤ s.wg := hwg
    omega
  | loop =>
    obtain ⟨e', he', rfl⟩ := mapError_eq_error (map_eq_error h)
    obtain ⟨rfl, hbuf, hclosed⟩ := Chan.recv_error he'
    exact .inr ⟨rfl, hbuf, hclosed, rfl⟩
  | wgDone =>
    have := add_error (map_eq_error h)
    have : (1 : Int) ≤ s.wg := hwg
    omega
  | returned => cases h; exact .inl ⟨rfl, rfl⟩

theorem statStep_error {pc : Pc} (h : statStep pc s = .error e)
    (hwg : (pc.waitedFor.toNat : Int) ≤ s.wg) : pc = .returned ∧ e = .wait := by
  cases pc with
  | start =>
    have := add_error (map_eq_error h)
    have : (0 : Int) ≤ s.wg := hwg
    omega
  | loop => cases h
  | wgDone =>
    have := add_error (map_eq_error h)
    have : (1 : Int) ≤ s.wg := hwg
    omega
  | returned => cases h; exact ⟨rfl, rfl⟩

end

/-- The goroutine takes no step, and the process goes on. -/
def Stop.halts : Stop → Bool
  | .chan .blocked | .wait => true
  | _ => false

/-- A requester that finds a channel closed is not the only one that has read 0. -/
theorem Stage.two_le {zeros j k : Nat} {closers : List (List Lat)} {s : Shared} {c : Lat}
    {chans : List Lat} (H : Stage zeros j k closers s) (hmem : (c :: chans) ∈ closers)
    (hclosed : (s.latChans c).closed = true) : 2 ≤ zeros := by
  rw [H.closed, decide_eq_true_iff] at hclosed
  obtain ⟨-, -, hdrop⟩ | ⟨hk, -⟩ := H.mem hmem
  · have hnodup := latChans_nodup
    rw [← List.take_append_drop j latChans, ← hdrop] at hnodup
    exact absurd rfl ((List.nodup_append.mp hnodup).2.2 c hclosed c List.mem_cons_self)
  · have hj : j ≠ 0 := by
      rintro rfl
      cases hclosed
    rw [H.zeros, if_neg hj]
    omega

section
variable {p : Param} {n : Nat} {reqs : List FullRequest} {g : History} {s s' : State}

theorem Inv.wg_loader (H : Inv p n reqs g s) : (s.loader.waitedFor.toNat : Int) ≤ s.shared.wg := by
  have := H.wg
  unfold State.waitedFor at this
  omega

theorem Inv.wg_requester (H : Inv p n reqs g s) {i : Nat} {pc : ReqPc} (hi : s.requesters[i]? = some pc) :
    (pc.waitedFor.toNat : Int) ≤ s.shared.wg := by
  have hwg := H.wg
  have hcount := countP_moved (q := ReqPc.waitedFor) (b := .returned) hi
  have hreturned : ReqPc.waitedFor .returned = false := rfl
  unfold State.waitedFor at hwg
  rw [hreturned, Bool.toNat_false, Nat.add_zero] at hcount
  omega

theorem Inv.wg_dumper (H : Inv p n reqs g s) (c : Lat) :
    ((s.dumpers c).pc.waitedFor.toNat : Int) ≤ s.shared.wg := by
  have hwg := H.wg
  have hsum := sumLat_update (fun _ (d : Dumper) => d.pc.waitedFor.toNat) s.dumpers c
    ⟨.returned, (s.dumpers c).writer⟩
  have hreturned : Pc.waitedFor .returned = false := rfl
  unfold State.waitedFor at hwg
  dsimp only at hsum
  rw [hreturned, Bool.toNat_false, Nat.add_zero] at hsum
  omega

theorem Inv.wg_stat (H : Inv p n reqs g s) : (s.stat.waitedFor.toNat : Int) ≤ s.shared.wg := by
  have := H.wg
  unfold State.waitedFor at this
  omega

theorem Inv.stops (H : Inv p n reqs g s) {pc : ReqPc} (hpc : pc ∈ s.requesters) :
    StopsByRequest pc.acts := by
  intro e he
  have hmem : Act.stop e ∈ g.done ++ s.requesters.flatMap ReqPc.acts :=
    List.mem_append_right _ (List.mem_flatMap.mpr ⟨pc, hpc, he⟩)
  obtain ⟨a, -, ha⟩ := List.mem_flatMap.mp (H.books.acts.mem_iff.mp hmem)
  exact stops_serve a.1 a.2 e ha

/-- A requester's step, where it does not return. -/
theorem Inv.requester_error (H : Inv p n reqs g s) {i : Nat} {o : Outcome} {pc : ReqPc} {e : Stop}
    (hi : s.requesters[i]? = some pc) (h : requesterStep p o pc s.shared = .error e) :
    ReqHalt s.shared pc e :=
  have hmem := List.mem_of_getElem? hi
  requesterStep_error h (fun hholding => H.closing.open_of_holding hmem hholding) (H.stops hmem)
    (H.wg_requester hi)

/-- **How a step fails.** -/
theorem Inv.error {ev : Event} {e : Stop} (H : Inv p n reqs g s) (h : Replay.step p s ev = .error e) :
    e.halts = true ∨ e.byRequest = true ∨ e = .chan .closeOfClosed ∧ 2 ≤ g.zeros := by
  obtain ⟨pending, hloading, -⟩ := H.requests
  unfold Replay.step at h
  split at h
  · cases h
    exact .inl rfl
  · cases ev with
    | main =>
      dsimp only at h
      split at h
      · cases h
      · cases h
        exact .inl rfl
    | loader =>
      obtain ⟨-, rfl⟩ | ⟨-, rfl⟩ := loaderStep_error hloading (map_eq_error h) H.wg_loader
      · exact .inl rfl
      · exact .inl rfl
    | requester i o =>
      dsimp only at h
      split at h
      · cases h
        exact .inl rfl
      · next pc hi =>
        cases H.requester_error hi (map_eq_error h) with
        | request hrequest => exact .inr (.inl hrequest)
        | @closed c chans hclosed =>
          obtain ⟨j, k, hstage⟩ := H.closing.stage
          have hmem : (c :: chans) ∈ s.requesters.filterMap ReqPc.closing? :=
            List.mem_filterMap.mpr ⟨_, List.mem_of_getElem? hi, rfl⟩
          exact .inr (.inr ⟨rfl, hstage.two_le hmem hclosed⟩)
        | empty _ _ => exact .inl rfl
        | full _ => exact .inl rfl
        | returned => exact .inl rfl
    | dumper c t =>
      obtain ⟨-, rfl⟩ | ⟨-, -, -, rfl⟩ := dumperStep_error (map_eq_error h) (H.wg_dumper c)
      · exact .inl rfl
      · exact .inl rfl
    | stat =>
      obtain ⟨-, rfl⟩ := statStep_error (map_eq_error h) H.wg_stat
      exact .inl rfl

/-! ## Progress -/

/-- Nobody takes a step other than `dumpClientStat` in its loop, and nobody ends the process. -/
def Stuck (p : Param) (s : State) : Prop :=
  ∀ ev, (∀ s', step p s ev = .ok s' → ev = .stat ∧ s' = s) ∧
    ∀ e, step p s ev = .error e → e.halts = true

theorem Stuck.requester (h : Stuck p s) (hrunning : s.returned = false) {i : Nat} {pc : ReqPc}
    (hi : s.requesters[i]? = some pc) (o : Outcome) :
    ∃ e, requesterStep p o pc s.shared = .error e ∧ e.halts = true := by
  have hstep : step p s (.requester i o) = (requesterStep p o pc s.shared).map fun x =>
      { s with requesters := s.requesters.set i x.1, shared := x.2 } := by
    unfold step
    rw [if_neg (by rw [hrunning]; exact Bool.false_ne_true)]
    dsimp only
    rw [hi]
  cases hres : requesterStep p o pc s.shared with
  | ok x =>
    rw [hres] at hstep
    cases ((h _).1 _ hstep).1
  | error e =>
    rw [hres] at hstep
    exact ⟨e, rfl, (h _).2 e hstep⟩

theorem Stuck.loader (h : Stuck p s) (hrunning : s.returned = false) :
    ∃ e, loaderStep s.loader s.shared = .error e := by
  have hstep : step p s .loader = (loaderStep s.loader s.shared).map fun x =>
      { s with loader := x.1, shared := x.2 } := by
    unfold step
    rw [if_neg (by rw [hrunning]; exact Bool.false_ne_true)]
  cases hres : loaderStep s.loader s.shared with
  | ok x =>
    rw [hres] at hstep
    cases ((h _).1 _ hstep).1
  | error e => exact ⟨e, rfl⟩

theorem Stuck.dumper (h : Stuck p s) (hrunning : s.returned = false) (c : Lat) :
    ∃ e, dumperStep p c 0 (s.dumpers c) s.shared = .error e := by
  have hstep : step p s (.dumper c 0) = (dumperStep p c 0 (s.dumpers c) s.shared).map fun x =>
      { s with dumpers := Function.update s.dumpers c x.1, shared := x.2 } := by
    unfold step
    rw [if_neg (by rw [hrunning]; exact Bool.false_ne_true)]
  cases hres : dumperStep p c 0 (s.dumpers c) s.shared with
  | ok x =>
    rw [hres] at hstep
    cases ((h _).1 _ hstep).1
  | error e => exact ⟨e, rfl⟩

theorem Stuck.stat (h : Stuck p s) (hrunning : s.returned = false) (hfinished : s.shared.replayFinished = true) :
    ∃ e, statStep s.stat s.shared = .error e := by
  have hstep : step p s .stat = (statStep s.stat s.shared).map fun x =>
      { s with stat := x.1, shared := x.2 } := by
    unfold step
    rw [if_neg (by rw [hrunning]; exact Bool.false_ne_true)]
  cases hres : statStep s.stat s.shared with
  | ok x =>
    rw [hres] at hstep
    have hstat : x.1 = s.stat := congrArg State.stat ((h _).1 _ hstep).2
    obtain ⟨hnot, -⟩ | hlt := statStep_work hres
    · exact absurd (hnot.symm.trans hfinished) Bool.noConfusion
    · rw [hstat] at hlt
      exact absurd hlt (Nat.lt_irrefl _)
  | error e => exact ⟨e, rfl⟩

/-- When all requesters have returned, one of them has closed the channels. -/
theorem Closing.finished {zeros : Nat} {rs : List ReqPc} {s : Shared} (H : Closing zeros rs s)
    (hne : rs ≠ []) (hrs : ∀ pc ∈ rs, pc = .returned) :
    zeros = 1 ∧ s.replayFinished = true ∧ ∀ c, (s.latChans c).closed = true := by
  obtain ⟨j, k, hstage⟩ := H.stage
  have hnone : rs.filterMap ReqPc.closing? = [] := by
    rw [List.filterMap_eq_nil_iff]
    intro pc hpc
    rw [hrs pc hpc]
    rfl
  have hempty := hstage.closers
  rw [hnone, List.nil_perm, List.append_eq_nil_iff, List.replicate_eq_nil_iff] at hempty
  obtain ⟨hfront, rfl⟩ := hempty
  have hzeros : 0 < zeros := by
    obtain h | h | h := H.last fun pc hpc => by rw [hrs pc hpc]; rfl
    · exact absurd h hne
    · exact nomatch hrs .check h
    · exact h
  have hj : j = 7 := by
    rw [hstage.zeros] at hzeros
    unfold front at hfront
    split at hfront
    · split at hzeros
      · omega
      · omega
    · cases hfront
  subst hj
  refine ⟨hstage.zeros, hstage.finished, fun c => ?_⟩
  rw [hstage.closed, decide_eq_true_iff]
  exact mem_latChans c

end

/-! ## What is recorded -/

/-- Every request that counts counts in one class, if the process goes on. -/
def OneClass (acts : List Act) : Prop :=
  (∀ e, .stop e ∉ acts) → acts.count (.count .all) =
    acts.count (.count .ramHit) + acts.count (.count .hit) + acts.count (.count .miss)

section
variable {p : Param}

theorem OneClass.append {as bs : List Act} (ha : OneClass as) (hb : OneClass bs) : OneClass (as ++ bs) := by
  intro h
  have ha := ha fun e he => h e (List.mem_append_left _ he)
  have hb := hb fun e he => h e (List.mem_append_right _ he)
  simp only [List.count_append]
  omega

theorem oneClass_stop {e : Stop} : OneClass [.stop e] := fun h => absurd List.mem_cons_self (h e)

theorem oneClass_dPanicf : OneClass (dPanicf p) := by
  unfold dPanicf
  split
  · exact oneClass_stop
  · exact fun _ => rfl

section
variable {req : FullRequest} {hitType : Option HitType}

theorem oneClass_firstByte (latency : Nat) (r : Read) : OneClass (firstByte p req hitType latency r) := by
  unfold firstByte
  split
  · cases hitType with
    | none => exact oneClass_dPanicf
    | some t => exact fun _ => rfl
  · exact fun _ => rfl

theorem oneClass_endOfBody (hdev : p.development = true) (bodySize : UInt32) (ending : Ending) :
    OneClass (endOfBody p req hitType bodySize ending) := by
  cases ending with
  | err => exact fun _ => rfl
  | eof elapsed =>
    cases hitType with
    | none =>
      intro h
      refine absurd (List.mem_append_left _ ?_) (h .dpanic)
      change Act.stop .dpanic ∈ dPanicf p
      rw [dPanicf, if_pos hdev]
      exact List.mem_cons_self
    | some t => cases t <;> exact fun _ => rfl

theorem oneClass_readBody (hdev : p.development = true) (last : Read) (ending : Ending)
    (bodySize : UInt32) (latency : Nat) (reads : List Read) :
    OneClass (readBody p req hitType last ending bodySize latency reads) := by
  induction reads generalizing bodySize latency with
  | nil =>
    apply OneClass.append ((oneClass_firstByte _ _).append (oneClass_endOfBody hdev _ _))
    split
    · exact fun _ => rfl
    · exact fun _ => rfl
  | cons r reads ih =>
    apply OneClass.append ((oneClass_firstByte _ _).append _) (ih _ _)
    split
    · exact oneClass_dPanicf
    · exact fun _ => rfl

end

theorem oneClass_processHeader (via : List Char) : OneClass (processHeader p via).1 := by
  unfold processHeader
  split
  · exact fun _ => rfl
  · dsimp only
    split
    · exact oneClass_stop
    · exact fun _ => rfl
    · exact fun _ => rfl
    · exact fun _ => rfl
    · exact fun _ => rfl
    · exact fun _ => rfl
    · exact oneClass_dPanicf

theorem oneClass_serve (hdev : p.development = true) (req : FullRequest) (o : Outcome) :
    OneClass (serve p req o) := by
  cases o with
  | noRequest => exact oneClass_dPanicf
  | sendErr => exact fun _ => rfl
  | response r =>
    exact (oneClass_processHeader r.via).append (oneClass_readBody hdev _ _ _ _ _)

theorem oneClass_flatMap (hdev : p.development = true) (served : List (FullRequest × Outcome)) :
    OneClass (served.flatMap fun a => serve p a.1 a.2) := by
  induction served with
  | nil => exact fun _ => rfl
  | cons a served ih =>
    rw [List.flatMap_cons]
    exact (oneClass_serve hdev a.1 a.2).append ih

end

/-- The metrics and the files of a replay in which `acts` has been done. The last part of a file that is
in the buffer of its writer is lost. -/
structure Recorded (p : Param) (acts : List Act) (s : State) : Prop where
  reqMetric : ∀ t, s.shared.reqMetric t = acts.count (.count t)
  trafficMetric : ∀ t, s.shared.trafficMetric t = (acts.filterMap (Act.bytes? t)).sum
  classes : p.development = true → s.shared.reqMetric .all =
    s.shared.reqMetric .ramHit + s.shared.reqMetric .hit + s.shared.reqMetric .miss
  files : ∀ c, ∃ (lines : List (Nat × LatencyResult)) (t : Nat),
    (lines.map Prod.snd).Perm (acts.filterMap (Act.lat? c)) ∧
      (s.dumpers c).writer.file ++ (s.dumpers c).writer.buf =
        lines.flatMap (fun a => p.line a.1 a.2) ++ p.endOfOutput t ∧
      (s.dumpers c).writer.buf.length ≤ bufSize

/-- Every request has been served once. -/
def Replayed (p : Param) (reqs : List FullRequest) (s : State) : Prop :=
  ∃ os : List Outcome, os.length = reqs.length ∧
    Recorded p ((reqs.zip os).flatMap fun a => serve p a.1 a.2) s

theorem zip_map_fst_snd {α β : Type} (l : List (α × β)) : (l.map Prod.fst).zip (l.map Prod.snd) = l := by
  induction l with
  | nil => rfl
  | cons a l ih => rw [List.map_cons, List.map_cons, List.zip_cons_cons, ih]

section
variable {p : Param} {n : Nat} {reqs : List FullRequest} {g : History} {s s' : State}

theorem Inv.replayed (H : Inv p n reqs g s) (hn : 0 < n) (hreturned : s.returned = true) :
    g.zeros = 1 ∧ Replayed p reqs s := by
  have hended := H.ended hreturned
  obtain ⟨pending, hloading, hreqs⟩ := H.requests
  have hne : s.requesters ≠ [] := by
    intro hnil
    have hsize := H.size
    rw [hnil] at hsize
    exact Nat.ne_of_lt hn hsize
  obtain ⟨pc, hpc⟩ := List.exists_mem_of_ne_nil _ hne
  have hdrained := H.closing.past pc hpc (by rw [hended.requesters pc hpc]; rfl)
  obtain rfl : pending = [] := by
    rw [hended.loader] at hloading
    cases hloading with
    | returned _ => rfl
  rw [hdrained.2, List.append_nil, List.append_nil] at hreqs
  refine ⟨(H.closing.finished hne hended.requesters).1, g.served.map Prod.snd, ?_, ?_⟩
  · rw [← hreqs, List.length_map, List.length_map]
  · have hperm := H.books.acts
    rw [List.flatMap_eq_nil_iff.mpr fun pc hpc => by rw [hended.requesters pc hpc]; rfl,
      List.append_nil] at hperm
    have hgoing : ∀ e, .stop e ∉ g.served.flatMap fun a => serve p a.1 a.2 := fun e he =>
      H.books.going e (hperm.mem_iff.mpr he)
    rw [← hreqs, zip_map_fst_snd]
    have hcount : ∀ t, s.shared.reqMetric t =
        (g.served.flatMap fun a => serve p a.1 a.2).count (.count t) := fun t =>
      (H.books.reqMetric t).trans (hperm.count_eq _)
    refine ⟨hcount, fun t => ?_, fun hdev => ?_, fun c => ?_⟩
    · exact (H.books.trafficMetric t).trans (hperm.filterMap _).sum_nat
    · rw [hcount, hcount, hcount, hcount]
      exact oneClass_flatMap hdev g.served hgoing
    · have hpc : (s.dumpers c).pc.ended = true := by
        rw [hended.dumpers c]
        rfl
      obtain ⟨hch, t, htext⟩ := (H.lines c).ended hpc
      have horder := (H.lines c).order
      rw [hch.2, List.append_nil] at horder
      refine ⟨g.lines c, t, ?_, htext, (H.lines c).buffered⟩
      rw [horder]
      exact hperm.filterMap _

/-- How often a requester reads 0 in a run. -/
def zeroReads (p : Param) : List Event → State → Nat
  | [], _ => 0
  | ev :: evs, s =>
    match step p s ev with
    | .ok s' => (readsZero s ev).toNat + zeroReads p evs s'
    | .error _ => 0

/-- **Runs** keep the invariant. -/
theorem Inv.run {evs : List Event} (H : Inv p n reqs g s) (hslept : Meets (Replay.step p) Slept evs s)
    (hrun : evs.foldlM (Replay.step p) s = .ok s') :
    ∃ g', Inv p n reqs g' s' ∧ g'.zeros = g.zeros + zeroReads p evs s := by
  induction evs generalizing g s with
  | nil =>
    cases hrun
    exact ⟨g, H, rfl⟩
  | cons ev evs ih =>
    rw [List.foldlM_cons] at hrun
    obtain ⟨s₁, hs₁, hrun⟩ := bind_eq_ok hrun
    obtain ⟨g₁, H₁, hzeros₁⟩ := H.step hslept.1 hs₁
    obtain ⟨g', H', hzeros⟩ := ih H₁ (hslept.2 s₁ hs₁) hrun
    refine ⟨g', H', ?_⟩
    rw [hzeros, hzeros₁, zeroReads, hs₁]
    exact Nat.add_assoc ..

end

/-- Lines that begin with the latency. -/
def plainText : Param where
  development := true
  closeloop := false
  line _ r := [r.latency.toUInt8, 10]
  endOfOutput _ := [35, 10]

/-- The files of the latency channels begin. -/
def dumpersBegin : List Event := latChans.map fun c => .dumper c 0

/-- It has not yet been counted, or it has been counted out and is about to read the gauge. -/
def ReqPc.unsettled : ReqPc → Bool
  | .start | .inc | .check => true
  | _ => false

/-- When a requester counts itself out, all the others have been counted, and none is between its `Dec`
and its reading of the gauge. -/
def Apart (s : State) : Event → Prop
  | .requester n _ => s.requesters[n]? = some .dec → ∀ pc ∈ s.requesters, pc.unsettled = false
  | _ => True

/-- What holds as long as that is so. -/
structure Orderly (zeros : Nat) (rs : List ReqPc) : Prop where
  alone : ∀ i : Nat, rs[i]? = some ReqPc.check → ∀ m, m ≠ i →
    ∀ pc : ReqPc, rs[m]? = some pc → pc.unsettled = false
  once : zeros ≤ 1
  after : zeros = 1 → ∀ pc ∈ rs, pc.left = true ∧ pc ≠ .check

section
variable {p : Param} {zeros n : Nat} {rs : List ReqPc} {s s' : Shared} {pc pc' : ReqPc}

theorem ReqPc.left_of_settled (hcounted : pc.counted = false) (hsettled : pc.unsettled = false) :
    pc.left = true ∧ pc ≠ .check := by
  cases pc with
  | start | inc | check => cases hsettled
  | recv | serving _ | limit _ _ | dec => cases hcounted
  | closing _ | wgDone | returned => exact ⟨rfl, nofun⟩

/-- Where a step of a requester can come from. -/
theorem ReqStep.before {o : Outcome} (h : ReqStep p o pc s pc' s') :
    (pc'.unsettled = true → pc = .start ∨ pc' = .check ∧ pc = .dec) ∧
      (pc.left = true ∧ pc ≠ .check → pc'.left = true ∧ pc' ≠ .check) := by
  cases h with
  | start => exact ⟨fun _ => .inl rfl, fun h => nomatch h.1⟩
  | dec => exact ⟨fun _ => .inr ⟨rfl, rfl⟩, fun h => nomatch h.1⟩
  | close _ => exact ⟨nofun, fun _ => ⟨rfl, nofun⟩⟩
  | finish => exact ⟨nofun, fun _ => ⟨rfl, nofun⟩⟩
  | done => exact ⟨nofun, fun _ => ⟨rfl, nofun⟩⟩
  | zero _ => exact ⟨nofun, fun h => absurd rfl h.2⟩
  | others _ => exact ⟨nofun, fun h => absurd rfl h.2⟩
  | _ => exact ⟨nofun, fun h => nomatch h.1⟩

theorem Orderly.step {o : Outcome} (J : Orderly zeros rs) (H : Closing zeros rs s)
    (hn : rs[n]? = some pc) (h : ReqStep p o pc s pc' s')
    (hapart : pc = .dec → ∀ x ∈ rs, x.unsettled = false) :
    Orderly (zeros + if pc = .check ∧ s.running = 0 then 1 else 0) (rs.set n pc') := by
  obtain ⟨hunsettled, hleft⟩ := h.before
  have halone : ∀ i : Nat, (rs.set n pc')[i]? = some ReqPc.check → ∀ m, m ≠ i → ∀ x : ReqPc,
      (rs.set n pc')[m]? = some x → x.unsettled = false := by
    intro i hi m hm x hx
    apply Bool.eq_false_iff.mpr
    intro htrue
    obtain ⟨rfl, hcheck⟩ | ⟨hne, hcheck⟩ := getElem?_moved hi
    · -- this requester has just been counted out
      obtain ⟨rfl, -⟩ | ⟨-, hx⟩ := getElem?_moved hx
      · exact hm rfl
      · obtain rfl | ⟨-, hdec⟩ := hunsettled (hcheck ▸ rfl)
        · cases h
          cases hcheck
        · exact nomatch htrue.symm.trans (hapart hdec x (List.mem_of_getElem? hx))
    · obtain ⟨rfl, rfl⟩ | ⟨-, hx⟩ := getElem?_moved hx
      · obtain rfl | ⟨-, hdec⟩ := hunsettled htrue
        · exact nomatch J.alone i hcheck m hm .start hn
        · exact nomatch hapart hdec .check (List.mem_of_getElem? hcheck)
      · exact nomatch htrue.symm.trans (J.alone i hcheck m hm x hx)
  by_cases hzero : pc = .check ∧ s.running = 0
  · obtain ⟨rfl, hrunning⟩ := hzero
    have hzeros : zeros = 0 := by
      by_contra hne
      have := J.once
      exact (J.after (by omega) .check (List.mem_of_getElem? hn)).2 rfl
    subst hzeros
    rw [if_pos ⟨rfl, hrunning⟩]
    refine ⟨halone, Nat.le_refl 1, fun _ x hx => ?_⟩
    obtain ⟨m, hm⟩ := List.mem_iff_getElem?.mp hx
    obtain ⟨-, rfl⟩ | ⟨hne, hm⟩ := getElem?_moved hm
    · cases h with
      | zero _ => exact ⟨rfl, nofun⟩
      | others _ => exact ⟨rfl, nofun⟩
    · -- the others are neither counted nor unsettled
      exact ReqPc.left_of_settled (H.not_counted hrunning x (List.mem_of_getElem? hm))
        (J.alone n hn m hne x hm)
  · rw [if_neg hzero]
    refine ⟨halone, J.once, fun hzeros => forall_moved (J.after hzeros) ?_⟩
    exact hleft (J.after hzeros pc (List.mem_of_getElem? hn))

end

section
variable {p : Param} {n : Nat} {reqs : List FullRequest} {g g' : History} {s s' : State}

theorem start_orderly (n : Nat) (ops : List ChanOp) : Orderly 0 (start n ops).requesters where
  alone _ hi := nomatch List.eq_of_mem_replicate (List.mem_of_getElem? hi)
  once := Nat.zero_le 1
  after h := nomatch h

/-- A run in which requesters count themselves out one at a time. -/
theorem Inv.run_orderly {evs : List Event} (H : Inv p n reqs g s) (J : Orderly g.zeros s.requesters)
    (hslept : Meets (Replay.step p) Slept evs s) (hapart : Meets (Replay.step p) Apart evs s)
    (hrun : evs.foldlM (Replay.step p) s = .ok s') : g.zeros + zeroReads p evs s ≤ 1 := by
  induction evs generalizing g s with
  | nil => exact J.once
  | cons ev evs ih =>
    rw [List.foldlM_cons] at hrun
    obtain ⟨s₁, hs₁, hrun⟩ := bind_eq_ok hrun
    obtain ⟨g₁, H₁, hzeros₁⟩ := H.step hslept.1 hs₁
    have hrec : ∀ zeros, g₁.zeros = zeros → Orderly zeros s₁.requesters →
        g.zeros + zeroReads p (ev :: evs) s ≤ 1 := by
      intro zeros hzeros hJ
      have := ih H₁ (hzeros ▸ hJ) (hslept.2 s₁ hs₁) (hapart.2 s₁ hs₁) hrun
      rw [zeroReads, hs₁]
      dsimp only
      omega
    have hsame : s₁.requesters = s.requesters → readsZero s ev = false →
        g.zeros + zeroReads p (ev :: evs) s ≤ 1 := by
      intro hrequesters hread
      refine hrec g.zeros ?_ (hrequesters ▸ J)
      rw [hzeros₁, hread]
      rfl
    have hstep := hs₁
    unfold Replay.step at hstep
    split at hstep
    · cases hstep
    · cases ev with
      | main =>
        dsimp only at hstep
        split at hstep
        · cases hstep
          exact hsame rfl rfl
        · cases hstep
      | loader =>
        obtain ⟨x, -, rfl⟩ := map_eq_ok hstep
        exact hsame rfl rfl
      | requester i o =>
        dsimp only at hstep
        split at hstep
        · cases hstep
        · next pc hi =>
          obtain ⟨⟨pc', sh⟩, hreq, rfl⟩ := map_eq_ok hstep
          refine hrec _ ?_ (J.step H.closing hi (requesterStep_ok hreq) fun hdec => hapart.1 (hdec ▸ hi))
          rw [hzeros₁, readsZero_requester hi]
      | dumper c t =>
        obtain ⟨x, -, rfl⟩ := map_eq_ok hstep
        exact hsame rfl rfl
      | stat =>
        obtain ⟨x, -, rfl⟩ := map_eq_ok hstep
        exact hsame rfl rfl

/-- **A second close.** A requester closes a closed channel only if two of them have read 0, which lets
no run come to its end; it cannot happen if they count themselves out one at a time. -/
theorem closed_twice {evs : List Event} (hn : 0 < n)
    (hslept : Meets (step p) Slept evs (start n (reqs.map .send ++ [.close])))
    (hrun : evs.foldlM (step p) (start n (reqs.map .send ++ [.close])) = .ok s) :
    (∀ ev, step p s ev = .error (.chan .closeOfClosed) →
      2 ≤ zeroReads p evs (start n (reqs.map .send ++ [.close]))) ∧
    (s.returned = true → zeroReads p evs (start n (reqs.map .send ++ [.close])) = 1) ∧
    (Meets (step p) Apart evs (start n (reqs.map .send ++ [.close])) →
      zeroReads p evs (start n (reqs.map .send ++ [.close])) ≤ 1 ∧
        ∀ ev, step p s ev ≠ .error (.chan .closeOfClosed)) := by
  obtain ⟨g, H, hzeros⟩ := (start_inv p n reqs).run hslept hrun
  rw [Nat.zero_add] at hzeros
  have htwo : ∀ ev, step p s ev = .error (.chan .closeOfClosed) →
      2 ≤ zeroReads p evs (start n (reqs.map .send ++ [.close])) := by
    intro ev hev
    obtain h | h | ⟨-, h⟩ := H.error hev
    · cases h
    · cases h
    · rwa [← hzeros]
  refine ⟨htwo, fun h => hzeros.symm.trans (H.replayed hn h).1, fun hapart => ?_⟩
  have hone := (start_inv p n reqs).run_orderly (start_orderly n _) hslept hapart hrun
  rw [Nat.zero_add] at hone
  refine ⟨hone, fun ev hev => ?_⟩
  have := htwo ev hev
  omega

end

/-- Two requesters count themselves out before either reads the gauge. -/
def bothOut : List Event :=
  [.loader, .stat] ++ dumpersBegin ++
    [.requester 0 .sendErr, .requester 1 .sendErr, .requester 0 .sendErr, .requester 1 .sendErr, .loader] ++
    [.requester 0 .sendErr, .requester 1 .sendErr, .requester 0 .sendErr, .requester 1 .sendErr] ++
    [.requester 0 .sendErr, .requester 1 .sendErr, .requester 0 .sendErr]

theorem bothOut_closes : ∃ s, bothOut.foldlM (step plainText) (start 2 ([].map .send ++ [.close])) = .ok s ∧
    step plainText s (.requester 1 .sendErr) = .error (.chan .closeOfClosed) ∧
    2 ≤ zeroReads plainText bothOut (start 2 ([].map .send ++ [.close])) := by
  obtain ⟨s, hrun, hfails⟩ := exists_ok_of_any
    (q := fun s => failsWith (step plainText s (.requester 1 .sendErr)) (.chan .closeOfClosed))
    (x := bothOut.foldlM (step plainText) (start 2 ([].map .send ++ [.close]))) (by decide +kernel)
  exact ⟨s, hrun, eq_error_of_failsWith hfails,
    (closed_twice (by decide) (by decide +kernel) hrun).1 _ (eq_error_of_failsWith hfails)⟩

end C2DN.Client.Replay
