import C2DN.Lib.Run
import C2DN.LoadBalancer.Routing

/-!
# The bounds of the unavailability trace

A balancer computes its position in `unavailableList` from the time since its first call, and reads
the list there without a check. `reads` has the positions that a call of `GetNodesFromMapping` reads,
and outside the trace they make it panic; the later reads of `update` and those of `rebalanceParity` are
at the first of them. Every call is in bounds exactly if the trace has a line for its time (`InTime`),
whatever the calls before it were.
-/

namespace C2DN.LoadBalancer

namespace BaseBalancer

/-- The position has a line of the trace. -/
def InTrace (bl : BaseBalancer) (pos : Int) : Prop := 0 ≤ pos ∧ pos < bl.unavailableList.length

instance {bl : BaseBalancer} {pos : Int} : Decidable (bl.InTrace pos) :=
  inferInstanceAs (Decidable (_ ∧ _))

/-- `checkUpdate` divides and calls `update`. -/
def Moves (bl : BaseBalancer) (currTs : Int) : Prop :=
  0 < bl.updateIntvl ∧ (bl.start currTs).currUnavailPos < (bl.start currTs).posAt currTs

instance {bl : BaseBalancer} {currTs : Int} : Decidable (bl.Moves currTs) :=
  inferInstanceAs (Decidable (_ ∧ _))

end BaseBalancer

/-- When the clock of a balancer started, after calls at these times: `-1` is not a start. -/
def clock (ts : List Int) : Int := (ts.find? (· ≠ -1)).getD (-1)

/-- After calls at `ts`, the trace of `nLine` lines has a line for the time `currTs`. -/
def InTime (nLine : Nat) (updateIntvl : Int) (ts : List Int) (currTs : Int) : Prop :=
  updateIntvl < 0 ∨ 0 < updateIntvl ∧
    (clock ts = -1 ∨ wrap64 (currTs - clock ts) < updateIntvl * nLine)

section
variable (digest : List Nat → List Nat) (gl : GraphLib)

namespace ChBalancer

def reads (bl : ChBalancer) (currTs : Int) : List Int :=
  let pos := (bl.base.start currTs).posAt currTs
  if bl.base.Moves currTs then [pos, pos - 1] else []

/-- The call stays inside the trace and does not divide by zero. -/
def Safe (bl : ChBalancer) (currTs : Int) : Prop :=
  (∀ pos ∈ bl.reads currTs, bl.base.InTrace pos) ∧
    ∀ id, bl.getNodesFromMapping digest currTs id ≠ .error .divideByZero

/-- The balancer after these calls. -/
def callAll (nHost : Nat) (unavailableList : List (List Nat)) (updateIntvl : Int) (nHostPerBucket : Nat)
    (calls : List (Int × Nat)) : Except Fault ChBalancer :=
  (new digest nHost unavailableList updateIntvl nHostPerBucket).bind fun bl =>
    calls.foldlM (fun bl call => (bl.getNodesFromMapping digest call.1 call.2).map Prod.fst) bl

end ChBalancer

namespace ParityBalancer

def reads (bl : ParityBalancer) (currTs : Int) : List Int :=
  let base := bl.base.start currTs
  if bl.base.Moves currTs then [base.posAt currTs, base.currUnavailPos] else []

/-- The call stays inside the trace and does not divide by zero. -/
def Safe (bl : ParityBalancer) (currTs : Int) : Prop :=
  (∀ pos ∈ bl.reads currTs, bl.base.InTrace pos) ∧
    ∀ id, bl.getNodesFromMapping digest gl currTs id ≠ .error .divideByZero

/-- The balancer after these calls. -/
def callAll (nHost : Nat) (unavailableList : List (List Nat)) (updateIntvl : Int) (nHostPerBucket : Nat)
    (rebalance : Bool) (calls : List (Int × Nat)) : Except Fault ParityBalancer :=
  (new digest gl nHost unavailableList updateIntvl nHostPerBucket rebalance).bind fun bl =>
    calls.foldlM (fun bl call => (bl.getNodesFromMapping digest gl call.1 call.2).map Prod.fst) bl

end ParityBalancer

end

/-! ## One call -/

namespace BaseBalancer

/-- The trace and the interval are those of the constructor, and the position is in the trace. -/
structure At (lists : List (List Nat)) (intvl : Int) (ts : List Int) (bl : BaseBalancer) : Prop where
  unavailableList : bl.unavailableList = lists
  updateIntvl : bl.updateIntvl = intvl
  startTs : 0 < intvl → bl.startTs = clock ts
  currUnavailPos : bl.InTrace bl.currUnavailPos

section
variable {bl : BaseBalancer} {lists : List (List Nat)} {intvl currTs pos : Int} {ts : List Int}

theorem unavailAt_ends : Ends (bl.unavailAt pos) (fun _ => bl.InTrace pos) (· ≠ .divideByZero) := by
  cases h : bl.unavailAt pos with
  | ok l =>
    obtain ⟨h0, hl⟩ := unavailAt_eq_ok.mp h
    have hlt := (List.getElem?_eq_some_iff.mp hl).1
    exact ⟨h0, by omega⟩
  | error e =>
    unfold unavailAt at h
    split at h
    · cases h; exact nofun
    · split at h
      · cases h
      · cases h; exact nofun

theorem start_lists : (bl.start currTs).unavailableList = bl.unavailableList := by
  unfold start; split <;> rfl

theorem start_intvl : (bl.start currTs).updateIntvl = bl.updateIntvl := by
  unfold start; split <;> rfl

theorem clock_append : clock (ts ++ [currTs]) =
    if clock ts = -1 then currTs else clock ts := by
  unfold clock
  rw [List.find?_append]
  cases h : ts.find? (· ≠ -1) with
  | none =>
    by_cases hc : currTs = -1 <;> simp [hc]
  | some t =>
    have ht : t ≠ -1 := by simpa using List.find?_some h
    simp [ht]

/-- The first call starts the clock. -/
theorem At.start (h : bl.At lists intvl ts) (currTs : Int) :
    (bl.start currTs).At lists intvl (ts ++ [currTs]) where
  unavailableList := start_lists.trans h.unavailableList
  updateIntvl := start_intvl.trans h.updateIntvl
  startTs h0 := by
    rw [clock_append, ← h.startTs h0]
    unfold BaseBalancer.start
    split <;> rfl
  currUnavailPos := by
    have hpos := h.currUnavailPos
    unfold BaseBalancer.start
    split
    · exact ⟨le_refl _, lt_of_le_of_lt hpos.1 hpos.2⟩
    · exact hpos

theorem At.move (h : bl.At lists intvl ts) (hpos : bl.InTrace pos) :
    At lists intvl ts { bl with currUnavailPos := pos } :=
  ⟨h.unavailableList, h.updateIntvl, h.startTs, hpos⟩

/-- Without an interval the clock does not matter. -/
theorem At.fixed (h : bl.At lists intvl ts) (hneg : bl.updateIntvl < 0) :
    bl.At lists intvl (ts ++ [currTs]) :=
  ⟨h.unavailableList, h.updateIntvl, fun h0 => absurd (h.updateIntvl ▸ hneg) (Int.not_lt.mpr (Int.le_of_lt h0)), h.currUnavailPos⟩

theorem tdiv_lt_iff {x c : Int} {n : Nat} (hc : 0 < c) (hn : 0 < n) :
    x.tdiv c < n ↔ x < c * n := by
  rcases Int.lt_or_le x 0 with hx | hx
  · have hle : x.tdiv c ≤ 0 := by
      rw [← Int.neg_neg x, Int.neg_tdiv]
      have := Int.tdiv_nonneg (a := -x) (b := c) (by omega) (Int.le_of_lt hc)
      omega
    have hpos : (0 : Int) < c * n := Int.mul_pos hc (by omega)
    exact iff_of_true (by omega) (by omega)
  · rw [Int.tdiv_eq_ediv_of_nonneg hx, Int.ediv_lt_iff_lt_mul hc, Int.mul_comm]

/-- A move ends inside the trace exactly if the trace has a line for the time. -/
theorem At.moves_iff (h : bl.At lists intvl ts) (h0 : 0 < intvl) :
    (bl.Moves currTs → bl.InTrace ((bl.start currTs).posAt currTs)) ↔
      InTime lists.length intvl ts currTs := by
  have hs := h.start currTs
  have hn : 0 < lists.length := by
    have := h.currUnavailPos
    rw [InTrace, h.unavailableList] at this
    omega
  have hlt : (bl.start currTs).posAt currTs < lists.length ↔
      wrap64 (currTs - clock (ts ++ [currTs])) < intvl * lists.length := by
    rw [posAt, hs.updateIntvl, hs.startTs h0]
    exact tdiv_lt_iff h0 hn
  have htime : InTime lists.length intvl ts currTs ↔
      wrap64 (currTs - clock (ts ++ [currTs])) < intvl * lists.length := by
    have hpos : (0 : Int) < intvl * lists.length := Int.mul_pos h0 (by omega)
    have hneg : ¬ intvl < 0 := by omega
    rw [InTime, clock_append]
    by_cases hc : clock ts = -1
    · simp [hc, h0, wrap64, hpos]
    · simp [hc, h0, hneg]
  rw [htime, ← hlt]
  have hcurr := hs.currUnavailPos
  rw [InTrace, hs.unavailableList] at hcurr
  constructor
  · intro hmove
    by_cases hm : (bl.start currTs).currUnavailPos < (bl.start currTs).posAt currTs
    · have := (hmove ⟨h.updateIntvl.symm ▸ h0, hm⟩).2
      rwa [h.unavailableList] at this
    · omega
  · intro hpos hmove
    refine ⟨?_, by rwa [h.unavailableList]⟩
    have := hmove.2
    omega

end

end BaseBalancer

section
variable {digest : List Nat → List Nat} {gl : GraphLib} {lists : List (List Nat)}
  {intvl currTs : Int} {ts : List Int}

/-! Nothing but `checkUpdate` divides. -/

theorem Fault.indexOutOfRange_ne : Fault.indexOutOfRange ≠ .divideByZero := by decide

theorem removeNodes_ends {nHost : Nat} {l : List Nat} {ring : HashRing Nat} :
    Ends (removeNodes digest nHost l ring) (fun _ => True) (· ≠ .divideByZero) := by
  induction l generalizing ring with
  | nil => exact trivial
  | cons x l ih =>
    rw [removeNodes]
    split
    · exact ih
    · exact Fault.indexOutOfRange_ne

theorem getNodes_ends {ring : HashRing Nat} {key : List Nat} {size : Nat} :
    Ends (ring.getNodes digest key size) (fun _ => True) (· ≠ .divideByZero) := by
  unfold HashRing.getNodes
  split
  · exact nofun
  · exact .guard (fun _ => nofun) fun _ => trivial

theorem hashMapping_ends {ring : HashRing Nat} {n room : Nat} {buckets : List Nat} :
    Ends (hashMapping digest ring n room buckets) (fun _ => True) (· ≠ .divideByZero) := by
  induction buckets with
  | nil => exact trivial
  | cons b buckets ih =>
    rw [hashMapping]
    refine getNodes_ends.bind fun r _ => ?_
    have hfill : Ends (fillSlice room r.1) (fun _ => True) (· ≠ .divideByZero) :=
      .guard (fun _ => Fault.indexOutOfRange_ne) fun _ => trivial
    exact hfill.bind fun _ _ => ih.map fun _ _ => trivial

theorem assignParity_ends {nHost last : Nat} {calls : List (Nat × Nat × Int)}
    {st : List (List Int) × (Nat → Option Int)} :
    Ends (ParityBalancer.assignParity nHost last calls st) (fun _ => True) (· ≠ .divideByZero) := by
  induction calls generalizing st with
  | nil => exact trivial
  | cons call calls ih =>
    obtain ⟨left, right, c⟩ := call
    obtain ⟨m, parity⟩ := st
    rw [ParityBalancer.assignParity]
    split
    · exact .guard (fun _ => Fault.indexOutOfRange_ne) fun _ => ih
    · exact ih

/-! The mapping is built for the balancer as it is. -/

theorem ChBalancer.createMapping_ends {bl : ChBalancer} :
    Ends (bl.createMapping digest) (fun bl' => bl'.base = bl.base) (· ≠ .divideByZero) :=
  hashMapping_ends.map fun _ _ => rfl

theorem ParityBalancer.createMapping_ends {bl : ParityBalancer} :
    Ends (bl.createMapping digest gl) (fun bl' => bl'.base = bl.base) (· ≠ .divideByZero) := by
  unfold createMapping
  refine hashMapping_ends.bind fun m _ => ?_
  dsimp only
  split
  · have hread : Ends (if bl.base.unavailableList = [] then .ok []
        else bl.base.unavailAt bl.base.currUnavailPos) (fun _ => True) (· ≠ .divideByZero) := by
      split
      · exact trivial
      · exact BaseBalancer.unavailAt_ends.imp fun _ _ => trivial
    refine Ends.map (P := fun bl' => bl'.base = bl.base) ?_ fun bl' h => addPrevious_base.trans h
    exact hread.bind fun l _ => assignParity_ends.map fun _ _ => rfl
  · exact rfl

theorem ChBalancer.checkUpdate_ends {bl : ChBalancer} (h : bl.base.At lists intvl ts)
    (h0 : intvl ≠ 0) : Ends (bl.checkUpdate digest currTs)
      (fun bl' => bl'.base.At lists intvl (ts ++ [currTs])) (· ≠ .divideByZero) := by
  have hs := h.start currTs
  unfold checkUpdate
  split
  · next hneg => exact h.fixed hneg
  · dsimp only
    rw [if_neg (by rw [hs.updateIntvl]; exact h0)]
    split
    · refine BaseBalancer.unavailAt_ends.bind fun curr hpos => ?_
      refine BaseBalancer.unavailAt_ends.bind fun prev _ => ?_
      have hmove := hs.move hpos
      split
      · exact hmove
      · refine removeNodes_ends.bind fun ring _ => ?_
        exact createMapping_ends.imp fun bl' hbl' => hbl' ▸ hmove
    · exact hs

theorem ParityBalancer.checkUpdate_ends {bl : ParityBalancer} (h : bl.base.At lists intvl ts)
    (h0 : intvl ≠ 0) : Ends (bl.checkUpdate digest gl currTs)
      (fun bl' => bl'.base.At lists intvl (ts ++ [currTs])) (· ≠ .divideByZero) := by
  have hs := h.start currTs
  unfold checkUpdate
  split
  · next hneg => exact h.fixed hneg
  · dsimp only
    rw [if_neg (by rw [hs.updateIntvl]; exact h0)]
    split
    · refine BaseBalancer.unavailAt_ends.bind fun next hpos => ?_
      refine BaseBalancer.unavailAt_ends.bind fun curr _ => ?_
      have hmove := hs.move hpos
      split
      · exact hmove
      · refine removeNodes_ends.bind fun ring _ => ?_
        exact createMapping_ends.imp fun bl' hbl' => hbl' ▸ hmove
    · exact hs

/-- Where the interval is 0 the first call divides by it. -/
theorem ChBalancer.checkUpdate_zero {bl : ChBalancer} (h : bl.base.updateIntvl = 0) :
    bl.checkUpdate digest currTs = .error .divideByZero := by
  unfold checkUpdate
  rw [if_neg (by omega)]
  exact if_pos (BaseBalancer.start_intvl.trans h)

theorem ParityBalancer.checkUpdate_zero {bl : ParityBalancer} (h : bl.base.updateIntvl = 0) :
    bl.checkUpdate digest gl currTs = .error .divideByZero := by
  unfold checkUpdate
  rw [if_neg (by omega)]
  exact if_pos (BaseBalancer.start_intvl.trans h)

/-! The positions of `reads` are those at which `update` reads. -/

theorem BaseBalancer.unavailAt_outside {bl : BaseBalancer} {pos : Int} (h : ¬ bl.InTrace pos) :
    bl.unavailAt pos = .error .indexOutOfRange := by
  unfold unavailAt
  split
  · rfl
  · next h0 =>
    rw [List.getElem?_eq_none (Nat.le_of_not_lt fun hlt => h ⟨by omega, by omega⟩)]

/-- Two lists are read. -/
theorem BaseBalancer.bind_outside {bl : BaseBalancer} {a b : Int} {α : Type}
    {f : List Nat → List Nat → Except Fault α} (h : ∃ pos ∈ [a, b], ¬ bl.InTrace pos) :
    ((bl.unavailAt a).bind fun x => (bl.unavailAt b).bind fun y => f x y) = .error .indexOutOfRange := by
  by_cases ha : bl.InTrace a
  · obtain ⟨pos, hpos, hout⟩ := h
    obtain rfl | rfl := List.mem_pair.mp hpos
    · exact absurd ha hout
    · rw [unavailAt_outside hout]
      cases hx : bl.unavailAt a with
      | ok x => rfl
      | error e =>
        obtain ⟨h0, hlt⟩ := ha
        rw [unavailAt_eq_ok.mpr ⟨h0, List.getElem?_eq_getElem (by omega)⟩] at hx
        cases hx
  · rw [unavailAt_outside ha]
    rfl

/-- A call that reads outside the trace moves. -/
theorem BaseBalancer.moves_of_outside {bl : BaseBalancer} {prev : Int}
    (h : ∃ pos ∈ if bl.Moves currTs then [(bl.start currTs).posAt currTs, prev] else [],
      ¬ bl.InTrace pos) :
    bl.Moves currTs ∧
      ∃ pos ∈ [(bl.start currTs).posAt currTs, prev], ¬ (bl.start currTs).InTrace pos := by
  split at h
  · next hmove =>
    unfold InTrace at h ⊢
    rw [start_lists]
    exact ⟨hmove, h⟩
  · obtain ⟨pos, hpos, -⟩ := h
    exact absurd hpos List.not_mem_nil

theorem ChBalancer.checkUpdate_outside {bl : ChBalancer}
    (h : ∃ pos ∈ bl.reads currTs, ¬ bl.base.InTrace pos) :
    bl.checkUpdate digest currTs = .error .indexOutOfRange := by
  obtain ⟨⟨h0, hlt⟩, hout⟩ := BaseBalancer.moves_of_outside h
  unfold checkUpdate
  dsimp only
  rw [if_neg (by omega), if_neg (by rw [BaseBalancer.start_intvl]; omega), if_pos hlt]
  exact BaseBalancer.bind_outside hout

theorem ParityBalancer.checkUpdate_outside {bl : ParityBalancer}
    (h : ∃ pos ∈ bl.reads currTs, ¬ bl.base.InTrace pos) :
    bl.checkUpdate digest gl currTs = .error .indexOutOfRange := by
  obtain ⟨⟨h0, hlt⟩, hout⟩ := BaseBalancer.moves_of_outside h
  unfold checkUpdate
  dsimp only
  rw [if_neg (by omega), if_neg (by rw [BaseBalancer.start_intvl]; omega), if_pos hlt]
  exact BaseBalancer.bind_outside hout

theorem BaseBalancer.panics {bl : BaseBalancer} {reads : List Int} {α : Type}
    {outcome : Nat → Except Fault α}
    (hreads : (∃ pos ∈ reads, ¬ bl.InTrace pos) → ∀ id, outcome id = .error .indexOutOfRange)
    (h : ¬ ((∀ pos ∈ reads, bl.InTrace pos) ∧ ∀ id, outcome id ≠ .error .divideByZero)) :
    ∃ id, outcome id = .error .indexOutOfRange ∨ outcome id = .error .divideByZero := by
  by_cases hout : ∃ pos ∈ reads, ¬ bl.InTrace pos
  · exact ⟨0, .inl (hreads hout 0)⟩
  · push Not at hout
    obtain ⟨id, hid⟩ := not_forall.mp fun hdiv => h ⟨hout, hdiv⟩
    exact ⟨id, .inr (not_not.mp hid)⟩

/-- A call that is not safe panics. -/
theorem ChBalancer.panics_of_not_safe {bl : ChBalancer} (h : ¬ bl.Safe digest currTs) :
    ∃ id, bl.getNodesFromMapping digest currTs id = .error .indexOutOfRange ∨
      bl.getNodesFromMapping digest currTs id = .error .divideByZero := by
  refine BaseBalancer.panics (fun hout id => ?_) h
  rw [getNodesFromMapping, checkUpdate_outside hout]
  rfl

theorem ParityBalancer.panics_of_not_safe {bl : ParityBalancer} (h : ¬ bl.Safe digest gl currTs) :
    ∃ id, bl.getNodesFromMapping digest gl currTs id = .error .indexOutOfRange ∨
      bl.getNodesFromMapping digest gl currTs id = .error .divideByZero := by
  refine BaseBalancer.panics (fun hout id => ?_) h
  rw [getNodesFromMapping, checkUpdate_outside hout]
  rfl

/-- What both balancers have in common: the second position that `update` reads is in the trace when
the first one is. -/
theorem BaseBalancer.At.safe_iff {bl : BaseBalancer} {prev : Int} {α : Type}
    {outcome : Nat → Except Fault α} (h : bl.At lists intvl ts)
    (hprev : bl.Moves currTs → bl.InTrace ((bl.start currTs).posAt currTs) → bl.InTrace prev)
    (hzero : intvl = 0 → outcome 0 = .error .divideByZero)
    (hdiv : intvl ≠ 0 → ∀ id, outcome id ≠ .error .divideByZero) :
    ((∀ pos ∈ if bl.Moves currTs then [(bl.start currTs).posAt currTs, prev] else [],
        bl.InTrace pos) ∧ ∀ id, outcome id ≠ .error .divideByZero) ↔
      InTime lists.length intvl ts currTs := by
  rcases Int.lt_trichotomy intvl 0 with hneg | rfl | hpos
  · have hstay : ¬ bl.Moves currTs := fun hm => by
      have := hm.1
      rw [h.updateIntvl] at this
      omega
    rw [if_neg hstay]
    exact iff_of_true ⟨fun pos hmem => absurd hmem List.not_mem_nil, hdiv (by omega)⟩ (.inl hneg)
  · refine iff_of_false (fun hs => hs.2 0 (hzero rfl)) ?_
    rintro (hneg | ⟨hpos, -⟩)
    · exact Int.lt_irrefl 0 hneg
    · exact Int.lt_irrefl 0 hpos
  · rw [← h.moves_iff hpos, and_iff_left (hdiv (by omega))]
    constructor
    · intro hreads hmove
      rw [if_pos hmove] at hreads
      exact hreads _ List.mem_cons_self
    · intro hin pos hmem
      split at hmem
      · next hmove =>
        rcases List.mem_pair.mp hmem with rfl | rfl
        · exact hin hmove
        · exact hprev hmove (hin hmove)
      · exact absurd hmem List.not_mem_nil

theorem ChBalancer.safe_iff {bl : ChBalancer} (h : bl.base.At lists intvl ts) :
    bl.Safe digest currTs ↔ InTime lists.length intvl ts currTs := by
  refine h.safe_iff (fun hmove hpos => ?_) (fun h0 => ?_) fun h0 id => ?_
  · have hcurr := (h.start currTs).currUnavailPos.1
    have := hmove.2
    exact ⟨by omega, by have := hpos.2; omega⟩
  · rw [getNodesFromMapping, checkUpdate_zero (h.updateIntvl.trans h0)]
    rfl
  · have hends : Ends (bl.getNodesFromMapping digest currTs id) (fun _ => True) (· ≠ .divideByZero) :=
      (checkUpdate_ends h h0).map fun _ _ => trivial
    exact fun herr => hends.error herr rfl

theorem ParityBalancer.safe_iff {bl : ParityBalancer} (h : bl.base.At lists intvl ts) :
    bl.Safe digest gl currTs ↔ InTime lists.length intvl ts currTs := by
  refine h.safe_iff (fun _ _ => ?_) (fun h0 => ?_) fun h0 id => ?_
  · have hcurr := (h.start currTs).currUnavailPos
    rwa [BaseBalancer.InTrace, BaseBalancer.start_lists] at hcurr
  · rw [getNodesFromMapping, checkUpdate_zero (h.updateIntvl.trans h0)]
    rfl
  · have hends : Ends (bl.getNodesFromMapping digest gl currTs id) (fun _ => True)
        (· ≠ .divideByZero) := (checkUpdate_ends h h0).map fun _ _ => trivial
    exact fun herr => hends.error herr rfl

/-! ## All calls -/

/-- A call of either balancer. -/
theorem BaseBalancer.At.call_ends {α : Type} {base : α → BaseBalancer} {update : Except Fault α}
    {b : BaseBalancer} (peers : α → List Int) (h : b.At lists intvl ts)
    (hzero : b.updateIntvl = 0 → update = .error .divideByZero)
    (hends : intvl ≠ 0 → Ends update (fun bl => (base bl).At lists intvl (ts ++ [currTs]))
      (· ≠ .divideByZero)) :
    Ends ((update.map fun bl => (bl, peers bl)).map Prod.fst)
      (fun bl => (base bl).At lists intvl (ts ++ [currTs])) fun _ => True := by
  by_cases h0 : intvl = 0
  · rw [hzero (h.updateIntvl.trans h0)]
    trivial
  · have hends := (hends h0).mono (fun _ h => h) fun _ _ => trivial
    exact (hends.map (Q := fun r => (base r.1).At lists intvl (ts ++ [currTs])) fun _ h => h).map
      fun _ h => h

/-- Calls of either balancer, one after the other. -/
theorem BaseBalancer.foldlM_at {α : Type} {base : α → BaseBalancer} {new : Except Fault α}
    {call : α → Int × Nat → Except Fault α} {calls : List (Int × Nat)} {bl : α}
    (hnew : Ends new (fun bl => (base bl).At lists intvl []) fun _ => True)
    (hcall : ∀ bl c ts, (base bl).At lists intvl ts →
      Ends (call bl c) (fun bl' => (base bl').At lists intvl (ts ++ [c.1])) fun _ => True)
    (hrun : (new.bind fun bl => calls.foldlM call bl) = .ok bl) :
    (base bl).At lists intvl (calls.map Prod.fst) := by
  refine (hnew.bind (Q := fun bl => (base bl).At lists intvl (calls.map Prod.fst))
    fun bl₀ h₀ => ?_).ok hrun
  refine Ends.foldlM (fun pre bl => (base bl).At lists intvl (pre.map Prod.fst)) h₀ ?_
  intro pre c post bl _ hat
  rw [List.map_append]
  exact hcall bl c _ hat

theorem BaseBalancer.new_at {nHost n : Nat} (h : lists ≠ []) :
    (BaseBalancer.new nHost lists intvl n).At lists intvl [] :=
  ⟨rfl, rfl, fun _ => rfl, Int.le_refl 0, Int.natCast_pos.mpr (List.length_pos_iff.mpr h)⟩

section
variable {nHost n : Nat} {calls : List (Int × Nat)}

theorem ChBalancer.callAll_at {bl : ChBalancer} (h : lists ≠ [])
    (hrun : callAll digest nHost lists intvl n calls = .ok bl) :
    bl.base.At lists intvl (calls.map Prod.fst) :=
  BaseBalancer.foldlM_at
    (createMapping_ends.mono (fun _ hbl => hbl ▸ BaseBalancer.new_at h) fun _ _ => trivial)
    (fun _ _ _ hat => hat.call_ends _ checkUpdate_zero (checkUpdate_ends hat)) hrun

theorem ParityBalancer.callAll_at {rebalance : Bool} {bl : ParityBalancer} (h : lists ≠ [])
    (hrun : callAll digest gl nHost lists intvl n rebalance calls = .ok bl) :
    bl.base.At lists intvl (calls.map Prod.fst) :=
  BaseBalancer.foldlM_at
    (createMapping_ends.mono (fun _ hbl => hbl ▸ BaseBalancer.new_at h) fun _ _ => trivial)
    (fun _ _ _ hat => hat.call_ends _ checkUpdate_zero (checkUpdate_ends hat)) hrun

end

end

/-- **Bounds.** After any calls, the next call of either balancer stays inside the trace and does not
divide by zero exactly if the interval is not 0 and the trace has a line for its time. -/
theorem getNodesFromMapping_safe_iff (digest : List Nat → List Nat) (gl : GraphLib) (nHost n : Nat)
    (lists : List (List Nat)) (intvl : Int) (rebalance : Bool) (calls : List (Int × Nat))
    (currTs : Int) (h : lists ≠ []) :
    (∀ bl, ChBalancer.callAll digest nHost lists intvl n calls = .ok bl →
      (bl.Safe digest currTs ↔ InTime lists.length intvl (calls.map Prod.fst) currTs)) ∧
    ∀ bl, ParityBalancer.callAll digest gl nHost lists intvl n rebalance calls = .ok bl →
      (bl.Safe digest gl currTs ↔ InTime lists.length intvl (calls.map Prod.fst) currTs) :=
  ⟨fun _ hrun => ChBalancer.safe_iff (ChBalancer.callAll_at h hrun),
    fun _ hrun => ParityBalancer.safe_iff (ParityBalancer.callAll_at h hrun)⟩

/-! Two hosts, of which one is down in the second of two intervals. -/

/-- Both constructors return. -/
theorem new_two (lists : List (List Nat)) (intvl : Int) :
    (∃ bl, ChBalancer.new md5Sum 2 lists intvl 1 = .ok bl ∧ bl.base = .new 2 lists intvl 1) ∧
      ∃ bl, ParityBalancer.new md5Sum noFlow 2 lists intvl 1 false = .ok bl ∧
        bl.base = .new 2 lists intvl 1 := by
  have hn : 1 ≤ ((List.range 2).filter fun x => x ∉ ([] : List Nat)).length := by decide
  constructor
  · rw [ChBalancer.new, ChBalancer.createMapping_eq separates_two Nat.one_pos hn rfl]
    exact ⟨_, rfl, rfl⟩
  · rw [ParityBalancer.new, ParityBalancer.createMapping_eq separates_two Nat.one_pos hn rfl]
    exact ⟨_, rfl, rfl⟩

/-- Both balancers after a call at 100, which starts the clock. -/
theorem callAll_two : (∃ bl, ChBalancer.callAll md5Sum 2 [[], [1]] 60 1 [(100, 0)] = .ok bl ∧
      bl.base = (BaseBalancer.new 2 [[], [1]] 60 1).start 100) ∧
    ∃ bl, ParityBalancer.callAll md5Sum noFlow 2 [[], [1]] 60 1 false [(100, 0)] = .ok bl ∧
      bl.base = (BaseBalancer.new 2 [[], [1]] 60 1).start 100 := by
  obtain ⟨⟨cl, hcl, hclb⟩, fr, hfr, hfrb⟩ := new_two [[], [1]] 60
  constructor
  · have hcall : cl.checkUpdate md5Sum 100 =
        .ok { cl with base := (BaseBalancer.new 2 [[], [1]] 60 1).start 100 } := by
      simp only [ChBalancer.checkUpdate, hclb]
      rfl
    refine ⟨{ cl with base := (BaseBalancer.new 2 [[], [1]] 60 1).start 100 }, ?_, rfl⟩
    rw [ChBalancer.callAll, hcl]
    change Except.bind ((cl.getNodesFromMapping md5Sum 100 0).map Prod.fst) _ = _
    rw [ChBalancer.getNodesFromMapping, hcall]
    rfl
  · have hcall : fr.checkUpdate md5Sum noFlow 100 =
        .ok { fr with base := (BaseBalancer.new 2 [[], [1]] 60 1).start 100 } := by
      simp only [ParityBalancer.checkUpdate, hfrb]
      rfl
    refine ⟨{ fr with base := (BaseBalancer.new 2 [[], [1]] 60 1).start 100 }, ?_, rfl⟩
    rw [ParityBalancer.callAll, hfr]
    change Except.bind ((fr.getNodesFromMapping md5Sum noFlow 100 0).map Prod.fst) _ = _
    rw [ParityBalancer.getNodesFromMapping, hcall]
    rfl

/-- An interval after the first call the second line is taken. -/
theorem twoLines_safe : [[], [1]] ≠ ([] : List (List Nat)) ∧
    (∃ bl, ChBalancer.callAll md5Sum 2 [[], [1]] 60 1 [(100, 0)] = .ok bl ∧ bl.Safe md5Sum 160 ∧
      bl.reads 160 = [1, 0]) ∧
    ∃ bl, ParityBalancer.callAll md5Sum noFlow 2 [[], [1]] 60 1 false [(100, 0)] = .ok bl ∧
      bl.Safe md5Sum noFlow 160 ∧ bl.reads 160 = [1, 0] := by
  have hne : [[], [1]] ≠ ([] : List (List Nat)) := by decide
  have htime : InTime [[], [1]].length 60 ([(100, 0)].map Prod.fst) 160 :=
    .inr ⟨by decide, .inr (by decide)⟩
  obtain ⟨⟨cl, hcl, hclb⟩, fr, hfr, hfrb⟩ := callAll_two
  obtain ⟨hch, hparity⟩ :=
    getNodesFromMapping_safe_iff md5Sum noFlow 2 1 [[], [1]] 60 false [(100, 0)] 160 hne
  refine ⟨hne, ⟨cl, hcl, (hch cl hcl).mpr htime, ?_⟩, fr, hfr, (hparity fr hfr).mpr htime, ?_⟩
  · rw [ChBalancer.reads, hclb]
    decide
  · rw [ParityBalancer.reads, hfrb]
    decide

/-- The interval 0, and a call two intervals after the first one. -/
theorem notInTime_unsafe :
    (∃ bl, ChBalancer.callAll md5Sum 2 [[], [1]] 0 1 [] = .ok bl ∧
      bl.getNodesFromMapping md5Sum 100 0 = .error .divideByZero) ∧
    (∃ bl, ParityBalancer.callAll md5Sum noFlow 2 [[], [1]] 0 1 false [] = .ok bl ∧
      bl.getNodesFromMapping md5Sum noFlow 100 0 = .error .divideByZero) ∧
    (∃ bl, ChBalancer.callAll md5Sum 2 [[], [1]] 60 1 [(100, 0)] = .ok bl ∧
      ¬ bl.Safe md5Sum 220 ∧ bl.getNodesFromMapping md5Sum 220 0 = .error .indexOutOfRange) ∧
    ∃ bl, ParityBalancer.callAll md5Sum noFlow 2 [[], [1]] 60 1 false [(100, 0)] = .ok bl ∧
      ¬ bl.Safe md5Sum noFlow 220 ∧
      bl.getNodesFromMapping md5Sum noFlow 220 0 = .error .indexOutOfRange := by
  obtain ⟨⟨cl, hcl, hclb⟩, fr, hfr, hfrb⟩ := new_two [[], [1]] 0
  obtain ⟨⟨cl', hcl', hclb'⟩, fr', hfr', hfrb'⟩ := callAll_two
  have hout : ∀ b : BaseBalancer, b = (BaseBalancer.new 2 [[], [1]] 60 1).start 100 → ¬ b.InTrace 2 := by
    rintro b rfl
    decide
  refine ⟨⟨cl, by rw [ChBalancer.callAll, hcl]; rfl, ?_⟩,
    ⟨fr, by rw [ParityBalancer.callAll, hfr]; rfl, ?_⟩, ⟨cl', hcl', ?_⟩, fr', hfr', ?_⟩
  · rw [ChBalancer.getNodesFromMapping, ChBalancer.checkUpdate_zero (by rw [hclb]; rfl)]
    rfl
  · rw [ParityBalancer.getNodesFromMapping, ParityBalancer.checkUpdate_zero (by rw [hfrb]; rfl)]
    rfl
  · have hmem : (2 : Int) ∈ cl'.reads 220 := by
      rw [ChBalancer.reads, hclb']
      decide
    refine ⟨fun hsafe => hout _ hclb' (hsafe.1 2 hmem), ?_⟩
    rw [ChBalancer.getNodesFromMapping, ChBalancer.checkUpdate_outside ⟨2, hmem, hout _ hclb'⟩]
    rfl
  · have hmem : (2 : Int) ∈ fr'.reads 220 := by
      rw [ParityBalancer.reads, hfrb']
      decide
    refine ⟨fun hsafe => hout _ hfrb' (hsafe.1 2 hmem), ?_⟩
    rw [ParityBalancer.getNodesFromMapping, ParityBalancer.checkUpdate_outside ⟨2, hmem, hout _ hfrb'⟩]
    rfl

end C2DN.LoadBalancer
