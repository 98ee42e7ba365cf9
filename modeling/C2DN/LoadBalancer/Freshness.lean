import C2DN.LoadBalancer.BalancerLemmas

/-!
# The mapping of a parity balancer is the one of its position

The mapping is built for the list at the current position (`Inv`). Construction ignores the first
list and `Reset` moves to it without a rebuild, so the invariant needs a first list without hosts
and a list without hosts at every `Reset`.
-/

namespace C2DN.LoadBalancer

namespace ParityBalancer

/-- The calls on a balancer. -/
inductive Call where
  | getNodesFromMapping (currTs : Int) (id : Nat)
  | reset

section
variable (digest : List Nat → List Nat) (gl : GraphLib)

def step (bl : ParityBalancer) : Call → Except Fault ParityBalancer
  | .getNodesFromMapping currTs id => (bl.getNodesFromMapping digest gl currTs id).map Prod.fst
  | .reset => .ok bl.reset

def run : List Call → ParityBalancer → Except Fault ParityBalancer
  | [], bl => .ok bl
  | call :: calls, bl => (bl.step digest gl call).bind (run calls)

/-- The position that a call moves to is inside the trace. -/
def Inside (bl : ParityBalancer) : Call → Prop
  | .getNodesFromMapping currTs _ =>
    (bl.base.start currTs).currUnavailPos < (bl.base.start currTs).posAt currTs →
      (bl.base.start currTs).posAt currTs < bl.base.unavailableList.length
  | .reset => True

/-- `Reset` is called where no host is unavailable. -/
def Careful (bl : ParityBalancer) : Call → Prop
  | .getNodesFromMapping _ _ => True
  | .reset => bl.base.unavailAt bl.base.currUnavailPos = .ok []

/-- A condition on every call of a run. -/
def Along (P : ParityBalancer → Call → Prop) : List Call → ParityBalancer → Prop
  | [], _ => True
  | call :: calls, bl =>
    P bl call ∧ ∀ bl', bl.step digest gl call = .ok bl' → Along P calls bl'

/-- The served mapping is one for the list at the current position. -/
def Current (bl : ParityBalancer) : Prop :=
  ∃ l, bl.base.unavailAt bl.base.currUnavailPos = .ok l ∧
    (∀ b < nBuckets, ∃ nodes,
      (ringWithout digest bl.base.nHost l).getNodes digest (itoa b) bl.base.nHostPerBucket =
        .ok (nodes, true) ∧
      (bl.bucketMapping.getD b []).take bl.ringEntries =
        (nodes.map Int.ofNat).take bl.ringEntries) ∧
    ∀ b < nBuckets, ∀ h, bl.base.isUnavailable h = .ok true →
      (h : Int) ∉ (bl.bucketMapping.getD b []).take bl.base.nHostPerBucket

end

/-- The invariant of a balancer for a trace. -/
structure Inv (digest : List Nat → List Nat) {nHost n : Nat} (tr : Trace nHost n)
    (bl : ParityBalancer) : Prop where
  lists : bl.base.unavailableList = tr.lists
  hosts : bl.base.nHost = nHost
  perBucket : bl.base.nHostPerBucket = n
  intvl : 0 < bl.base.updateIntvl
  pos : 0 ≤ bl.base.currUnavailPos
  clock : bl.base.startTs = -1 → bl.base.currUnavailPos = 0
  built : ∃ l ∈ tr.lists, bl.base.unavailAt bl.base.currUnavailPos = .ok l ∧
    BuiltFor digest nHost n bl.ringEntries l bl.bucketMapping

section
variable {digest : List Nat → List Nat} {gl : GraphLib} {nHost n : Nat} {tr : Trace nHost n}
  {bl : ParityBalancer}

theorem unavailAt_ok {base : BaseBalancer} {pos : Int} (h0 : 0 ≤ pos)
    (h : pos < base.unavailableList.length) :
    ∃ l ∈ base.unavailableList, base.unavailAt pos = .ok l := by
  have hlt : pos.toNat < base.unavailableList.length := by omega
  exact ⟨base.unavailableList[pos.toNat], List.getElem_mem hlt,
    BaseBalancer.unavailAt_eq_ok.mpr ⟨h0, List.getElem?_eq_getElem hlt⟩⟩

theorem Inv.current (H : Inv digest tr bl) (hsep : Separates digest nHost) (h0 : 0 < n) :
    Current digest bl := by
  obtain ⟨l, hl, hat, hbuilt⟩ := H.built
  refine ⟨l, hat, fun b hb => ?_, fun b hb h hun => ?_⟩
  · rw [H.hosts, H.perBucket]
    exact ⟨_, (bucketNodes_spec hsep h0 (tr.enough l hl) b).1, hbuilt.nodes b hb⟩
  · rw [BaseBalancer.isUnavailable, if_neg (by rw [H.lists]; exact tr.ne), hat] at hun
    rw [H.perBucket]
    exact hbuilt.avail b hb h (by simpa [Except.map] using hun)

/-- The first call starts the clock; the position does not move. -/
theorem Inv.start (H : Inv digest tr bl) (currTs : Int) :
    Inv digest tr { bl with base := bl.base.start currTs } ∧
      (bl.base.start currTs).currUnavailPos = bl.base.currUnavailPos := by
  unfold BaseBalancer.start
  split
  · next h =>
    have h0 := H.clock h
    refine ⟨⟨H.lists, H.hosts, H.perBucket, H.intvl, le_refl _, fun _ => rfl, ?_⟩, h0.symm⟩
    have hb := H.built
    rw [h0] at hb
    exact hb
  · exact ⟨H, rfl⟩

/-- A clock that moves the position has been started. -/
theorem start_ne {base : BaseBalancer} {currTs : Int} (h0 : 0 ≤ (base.start currTs).currUnavailPos)
    (h : (base.start currTs).currUnavailPos < (base.start currTs).posAt currTs) :
    (base.start currTs).startTs ≠ -1 := by
  intro heq
  have hts : currTs = -1 := by
    unfold BaseBalancer.start at heq
    split at heq
    · exact heq
    · next hne => exact absurd heq hne
  have hzero : (base.start currTs).posAt currTs = 0 := by
    rw [BaseBalancer.posAt, heq, hts]
    simp [wrap64]
  omega

/-- A move of the position. -/
theorem Inv.update (H : Inv digest tr bl) (hgl : gl.Lawful) (hsep : Separates digest nHost)
    (h0 : 0 < n) {currTs : Int} (hclock : bl.base.startTs ≠ -1)
    (hgt : bl.base.currUnavailPos < bl.base.posAt currTs)
    (hin : bl.base.posAt currTs < bl.base.unavailableList.length) :
    ∃ bl', bl.update digest gl currTs = .ok bl' ∧ Inv digest tr bl' := by
  obtain ⟨curr, hmem, hcurr, hbuilt⟩ := H.built
  have hpos := H.pos
  obtain ⟨next, hnext, hat⟩ := unavailAt_ok (by omega) hin
  rw [H.lists] at hnext
  unfold ParityBalancer.update
  dsimp only
  rw [hat, hcurr]
  dsimp only [Except.bind]
  by_cases hcmp : cmpSlice next curr = true
  · rw [if_pos hcmp]
    obtain rfl := cmpSlice_iff.mp hcmp
    exact ⟨_, rfl, H.lists, H.hosts, H.perBucket, H.intvl, by dsimp only; omega,
      fun h => absurd h hclock, next, hnext, hat, hbuilt⟩
  · rw [if_neg hcmp, removeNodes_eq (by rw [H.hosts]; exact tr.hosts next hnext)]
    dsimp only
    obtain ⟨bl', hbl', hbase, hreb, hbuilt'⟩ := createMapping_ok (l := next)
      { bl with
        ring := ringWithout digest bl.base.nHost next
        base := { bl.base with currUnavailPos := bl.base.posAt currTs } } hgl
      (by rw [H.hosts]; exact hsep) (by rw [H.perBucket]; exact h0)
      (by rw [H.hosts, H.perBucket]; exact tr.enough next hnext) rfl
      (by rw [H.lists]; exact tr.ne) hat
    refine ⟨bl', hbl', ?_⟩
    have hentries : bl'.ringEntries = bl.ringEntries := by rw [ringEntries, ringEntries, hbase, hreb]
    rw [H.hosts, H.perBucket] at hbuilt'
    refine ⟨?_, ?_, ?_, ?_, ?_, ?_, next, hnext, ?_, by rw [hentries]; exact hbuilt'⟩
    all_goals rw [hbase]
    · exact H.lists
    · exact H.hosts
    · exact H.perBucket
    · exact H.intvl
    · dsimp only; omega
    · exact fun h => absurd h hclock
    · exact hat

/-- **One call keeps the invariant**, if it stays inside the trace and does not reset a balancer
that has hosts to leave out. -/
theorem Inv.step (H : Inv digest tr bl) (hgl : gl.Lawful) (hsep : Separates digest nHost)
    (h0 : 0 < n) (hfirst : tr.lists[0]? = some []) {call : Call} (hin : Inside bl call)
    (hcare : Careful bl call) :
    ∃ bl', bl.step digest gl call = .ok bl' ∧ Inv digest tr bl' := by
  cases call with
  | reset =>
    obtain ⟨l, hl, hat, hbuilt⟩ := H.built
    have hl0 : l = [] := by
      change bl.base.unavailAt bl.base.currUnavailPos = .ok [] at hcare
      rw [hat] at hcare
      exact Except.ok.inj hcare
    subst hl0
    refine ⟨bl.reset, rfl, H.lists, H.hosts, H.perBucket, H.intvl, le_refl _, fun _ => rfl, [], hl,
      ?_, hbuilt⟩
    change bl.base.unavailAt 0 = _
    rw [BaseBalancer.unavailAt, H.lists, if_neg (by omega), Int.toNat_zero, hfirst]
  | getNodesFromMapping currTs id =>
    obtain ⟨H', hpos⟩ := H.start currTs
    have hupdate : ∃ bl', bl.checkUpdate digest gl currTs = .ok bl' ∧ Inv digest tr bl' := by
      unfold checkUpdate
      have hintvl := H'.intvl
      rw [if_neg (by have := H.intvl; omega)]
      dsimp only at hintvl ⊢
      rw [if_neg (by omega)]
      split
      · next hgt =>
        have hlists : (bl.base.start currTs).unavailableList = bl.base.unavailableList :=
          H'.lists.trans H.lists.symm
        exact H'.update hgl hsep h0 (start_ne H'.pos hgt) hgt (by
          dsimp only; rw [hlists]; exact hin hgt)
      · exact ⟨_, rfl, H'⟩
    obtain ⟨bl', hbl', H''⟩ := hupdate
    refine ⟨bl', ?_, H''⟩
    change ((bl.checkUpdate digest gl currTs).map _).map _ = _
    rw [hbl']
    rfl

theorem Inv.run (H : Inv digest tr bl) (hgl : gl.Lawful) (hsep : Separates digest nHost)
    (h0 : 0 < n) (hfirst : tr.lists[0]? = some []) (calls : List Call)
    (hin : Along digest gl Inside calls bl) (hcare : Along digest gl Careful calls bl) :
    ∃ bl', run digest gl calls bl = .ok bl' ∧ Inv digest tr bl' := by
  induction calls generalizing bl with
  | nil => exact ⟨bl, rfl, H⟩
  | cons call calls ih =>
    obtain ⟨bl₁, hbl₁, H₁⟩ := H.step hgl hsep h0 hfirst hin.1 hcare.1
    obtain ⟨bl', hbl', H'⟩ := ih H₁ (hin.2 bl₁ hbl₁) (hcare.2 bl₁ hbl₁)
    refine ⟨bl', ?_, H'⟩
    rw [ParityBalancer.run, hbl₁]
    exact hbl'

theorem new_inv (hgl : gl.Lawful) (hsep : Separates digest nHost) (h0 : 0 < n)
    (hfirst : tr.lists[0]? = some []) {intvl : Int} (hintvl : 0 < intvl) (rebalance : Bool) :
    ∃ bl, new digest gl nHost tr.lists intvl n rebalance = .ok bl ∧ Inv digest tr bl := by
  have hmem : [] ∈ tr.lists := List.mem_of_getElem? hfirst
  have hat : (BaseBalancer.new nHost tr.lists intvl n).unavailAt 0 = .ok [] := by
    rw [BaseBalancer.unavailAt, if_neg (by omega), Int.toNat_zero]
    dsimp only [BaseBalancer.new]
    rw [hfirst]
  obtain ⟨bl, hbl, hbase, hreb, hbuilt⟩ := createMapping_ok (l := [])
    { base := .new nHost tr.lists intvl n, ring := .newRing digest (List.range nHost)
      bucketMapping := [], rebalance, currParityMapping := none
      prevParityMapping := none } hgl hsep h0 (tr.enough [] hmem) rfl tr.ne hat
  refine ⟨bl, hbl, ?_, ?_, ?_, ?_, ?_, ?_, [], hmem, ?_, ?_⟩
  · rw [hbase]; rfl
  · rw [hbase]; rfl
  · rw [hbase]; rfl
  · rw [hbase]; exact hintvl
  · rw [hbase]; exact le_refl _
  · rw [hbase]; exact fun _ => rfl
  · rw [hbase]; exact hat
  · have hentries : bl.ringEntries = if rebalance then n - 1 else n := by
      rw [ringEntries, hbase, hreb]; rfl
    rw [hentries]
    exact hbuilt

end

/-- **Freshness.** On a trace whose first list has no hosts, after every sequence of calls inside
the trace in which `Reset` is only called where no host is unavailable, the served mapping is one
for the list at the current position. -/
theorem current_of_careful (digest : List Nat → List Nat) (gl : GraphLib) (nHost n : Nat)
    (tr : Trace nHost n) (intvl : Int) (rebalance : Bool) (calls : List Call) (hgl : gl.Lawful)
    (hsep : Separates digest nHost) (h0 : 0 < n) (hintvl : 0 < intvl)
    (hfirst : tr.lists[0]? = some []) :
    ∃ bl₀, new digest gl nHost tr.lists intvl n rebalance = .ok bl₀ ∧
      (Along digest gl Inside calls bl₀ → Along digest gl Careful calls bl₀ →
        ∃ bl, run digest gl calls bl₀ = .ok bl ∧ Current digest bl) := by
  obtain ⟨bl₀, hbl₀, H₀⟩ := new_inv hgl hsep h0 hfirst hintvl rebalance
  refine ⟨bl₀, hbl₀, fun hin hcare => ?_⟩
  obtain ⟨bl, hbl, H⟩ := H₀.run hgl hsep h0 hfirst calls hin hcare
  exact ⟨bl, hbl, H.current hsep h0⟩

/-- Host 0 goes down one interval after the start. -/
def lateTrace : Trace 2 1 where
  lists := [[], [0]]
  ne := by decide
  hosts := by decide
  enough := by decide

/-- Both positions of `lateTrace`, behind a `Reset` at the start. -/
theorem lateTrace_current :
    ∃ bl₀, new md5Sum noFlow 2 lateTrace.lists 60 1 false = .ok bl₀ ∧
      ∃ bl, run md5Sum noFlow
          [.reset, .getNodesFromMapping 100 1, .getNodesFromMapping 160 1] bl₀ = .ok bl ∧
        Current md5Sum bl := by
  obtain ⟨bl₀, hbl₀, H⟩ := current_of_careful md5Sum noFlow 2 1 lateTrace 60 false
    [.reset, .getNodesFromMapping 100 1, .getNodesFromMapping 160 1] noFlow_lawful separates_two
    (by decide) (by decide) rfl
  refine ⟨bl₀, hbl₀, ?_⟩
  rw [new, createMapping_eq (l := []) separates_two Nat.one_pos (by decide) rfl] at hbl₀
  obtain rfl := Except.ok.inj hbl₀
  refine H ⟨trivial, ?_⟩ ⟨rfl, fun _ _ => ⟨trivial, fun _ _ => ⟨trivial, fun _ _ => trivial⟩⟩⟩
  rintro _ ⟨⟩
  refine ⟨fun h => absurd h (by decide), ?_⟩
  rintro _ ⟨⟩
  exact ⟨fun _ => by decide, fun _ _ => trivial⟩

/-- Host 0 is down from the start, and bucket 1 goes to it. -/
theorem downAtStart_not_current :
    ∃ bl₀, new md5Sum noFlow 2 [[0]] 60 1 false = .ok bl₀ ∧
      Along md5Sum noFlow Inside [.getNodesFromMapping 100 1] bl₀ ∧
      ∃ bl, run md5Sum noFlow [.getNodesFromMapping 100 1] bl₀ = .ok bl ∧
        ¬ Current md5Sum bl := by
  refine ⟨_, createMapping_eq (l := []) separates_two Nat.one_pos (by decide) rfl, ?_⟩
  refine ⟨⟨fun h => absurd h (by decide), fun _ _ => trivial⟩, _, rfl, ?_⟩
  rintro ⟨-, -, -, h⟩
  refine h 1 (by decide) 0 rfl ?_
  change (0 : Int) ∈ ((plainMapping md5Sum 2 1 []).getD 1 []).take 1
  rw [plainMapping, getD_map_range (by decide), bucketNodes_two]
  decide

end ParityBalancer

end C2DN.LoadBalancer
