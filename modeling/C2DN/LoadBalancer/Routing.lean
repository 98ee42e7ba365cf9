import C2DN.LoadBalancer.Freshness

/-!
# Client and frontend route alike

The client rebuilds its mapping when the list at the new position differs from the one before it in
the trace, the frontend when it differs from the one at the position it comes from. Both start from
the mapping of all hosts. As long as the moves of the position agree with both rules (`Agrees`), the
two mappings are built for the same hosts (`Alike`).
-/

namespace C2DN.LoadBalancer

namespace BaseBalancer

/-- The list at a position of the trace. -/
def listAt (lists : List (List Nat)) (pos : Int) : List Nat := lists.getD pos.toNat []

/-- The position after a call. -/
def moved (base : BaseBalancer) (currTs : Int) : BaseBalancer :=
  let base := base.start currTs
  if base.currUnavailPos < base.posAt currTs then { base with currUnavailPos := base.posAt currTs }
  else base

/-- A condition on every move of the position. It is told whether the frontend has rebuilt its
mapping before, and the positions. -/
def OnMoves (P : Bool → Int → Int → Prop) : Bool → List Int → BaseBalancer → Prop
  | _, [], _ => True
  | settled, currTs :: rest, base =>
    let cur := (base.start currTs).currUnavailPos
    let new := (base.moved currTs).currUnavailPos
    (cur < new → P settled cur new) ∧
      OnMoves P (settled || decide (listAt base.unavailableList new ≠ listAt base.unavailableList cur))
        rest (base.moved currTs)

end BaseBalancer

open BaseBalancer

/-- The moves on which both sides serve the same hosts. A frontend that still serves all hosts must
rebuild together with the client, unless no host is unavailable at the new position. -/
def Agrees (lists : List (List Nat)) (settled : Bool) (cur new : Int) : Prop :=
  if settled then
    listAt lists new = listAt lists (new - 1) → ∀ x, x ∈ listAt lists new ↔ x ∈ listAt lists cur
  else if listAt lists new = listAt lists cur then listAt lists new = listAt lists (new - 1)
  else listAt lists new = listAt lists (new - 1) → listAt lists new = []

section
variable (digest : List Nat → List Nat) (gl : GraphLib)

/-- Every bucket has the same first `n` hosts on both sides. -/
def SameRoutes (n : Nat) (cl : ChBalancer) (fr : ParityBalancer) : Prop :=
  ∀ b < nBuckets, (cl.bucketMapping.getD b []).take n = (fr.bucketMapping.getD b []).take n

/-- The calls return on both sides, with the same first `n` hosts, and every bucket has the same
first `n` hosts after every call. -/
def RouteAlike (n : Nat) : List (Int × Nat) → ChBalancer → ParityBalancer → Prop
  | [], _, _ => True
  | (currTs, b) :: calls, cl, fr => ∃ cl' nodes fr' nodes',
    cl.getNodesFromMapping digest currTs b = .ok (cl', nodes) ∧
      fr.getNodesFromMapping digest gl currTs b = .ok (fr', nodes') ∧
      (b < nBuckets → nodes.take n = nodes'.take n) ∧ SameRoutes n cl' fr' ∧
      RouteAlike n calls cl' fr'

end

/-! ## The mappings -/

section
variable {digest : List Nat → List Nat} {nHost n : Nat} {l l' : List Nat}

/-- The mapping of the client. -/
def clientMapping (digest : List Nat → List Nat) (nHost n : Nat) (l : List Nat) :
    List (List Int) :=
  (List.range nBuckets).map fun b => (bucketNodes digest nHost n l b).map Int.ofNat

theorem bucketNodes_congr (h : ∀ x, x ∈ l ↔ x ∈ l') :
    bucketNodes digest nHost n l = bucketNodes digest nHost n l' := by
  funext b
  rw [bucketNodes, bucketNodes, ringWithout_congr h]

theorem ChBalancer.createMapping_eq {bl : ChBalancer} (hsep : Separates digest bl.base.nHost)
    (h0 : 0 < bl.base.nHostPerBucket)
    (hn : bl.base.nHostPerBucket ≤ ((List.range bl.base.nHost).filter fun x => x ∉ l).length)
    (hring : bl.ring = ringWithout digest bl.base.nHost l) :
    bl.createMapping digest = .ok
      { bl with bucketMapping := clientMapping digest bl.base.nHost bl.base.nHostPerBucket l } := by
  have hmap := hashMapping_eq bl.ring bl.base.nHostPerBucket (le_refl _) (List.range nBuckets)
    fun b _ => by
      obtain ⟨h1, h2, -⟩ := bucketNodes_spec hsep h0 hn b
      rw [hring]
      exact ⟨h1, h2⟩
  unfold ChBalancer.createMapping
  dsimp only
  rw [hmap, clientMapping]
  simp [Except.map]

/-- Without rebalancing the frontend only has one more entry. -/
theorem take_plainMapping (hsep : Separates digest nHost) (h0 : 0 < n)
    (hn : n ≤ ((List.range nHost).filter fun x => x ∉ l).length) {b : Nat} (hb : b < nBuckets) :
    ((clientMapping digest nHost n l).getD b []).take n =
      ((ParityBalancer.plainMapping digest nHost n l).getD b []).take n := by
  have hlen := (bucketNodes_spec hsep h0 hn b).2.1
  rw [clientMapping, ParityBalancer.plainMapping, getD_map_range hb, getD_map_range hb,
    List.take_append_of_le_length (by simp [hlen])]

/-! ## The invariant -/

/-- Both sides are at the same position, and their mappings are built for the same hosts: those of
the current list once the frontend has rebuilt, all hosts before. -/
structure Alike (digest : List Nat → List Nat) {nHost n : Nat} (tr : Trace nHost n)
    (settled : Bool) (base : BaseBalancer) (cl : ChBalancer) (fr : ParityBalancer) : Prop where
  client : cl.base = base
  frontend : fr.base = base
  plain : fr.rebalance = false
  lists : base.unavailableList = tr.lists
  hosts : base.nHost = nHost
  perBucket : base.nHostPerBucket = n
  intvl : 0 < base.updateIntvl
  pos : 0 ≤ base.currUnavailPos ∧ base.currUnavailPos < tr.lists.length
  clock : base.startTs = -1 → base.currUnavailPos = 0
  built : ∃ l, n ≤ ((List.range nHost).filter fun x => x ∉ l).length ∧
    cl.bucketMapping = clientMapping digest nHost n l ∧
    fr.bucketMapping = ParityBalancer.plainMapping digest nHost n l ∧
    if settled then ∀ x, x ∈ l ↔ x ∈ listAt tr.lists base.currUnavailPos else l = []

variable {tr : Trace nHost n} {settled : Bool} {base : BaseBalancer} {cl : ChBalancer}
  {fr : ParityBalancer}

theorem Alike.sameRoutes (H : Alike digest tr settled base cl fr) (hsep : Separates digest nHost)
    (h0 : 0 < n) : SameRoutes n cl fr := by
  obtain ⟨l, hn, hcl, hfr, -⟩ := H.built
  intro b hb
  rw [hcl, hfr]
  exact take_plainMapping hsep h0 hn hb

theorem unavailAt_eq {pos : Int} (h0 : 0 ≤ pos) (h : pos < base.unavailableList.length) :
    base.unavailAt pos = .ok (listAt base.unavailableList pos) := by
  have hlt : pos.toNat < base.unavailableList.length := by omega
  refine unavailAt_eq_ok.mpr ⟨h0, ?_⟩
  rw [listAt, List.getD_eq_getElem?_getD, List.getElem?_eq_getElem hlt]
  rfl

theorem listAt_mem {lists : List (List Nat)} {pos : Int} (h0 : 0 ≤ pos) (h : pos < lists.length) :
    listAt lists pos ∈ lists := by
  have hlt : pos.toNat < lists.length := by omega
  rw [listAt, List.getD_eq_getElem?_getD, List.getElem?_eq_getElem hlt]
  exact List.getElem_mem hlt

/-- The first call starts the clock; the position does not move. -/
theorem Alike.start (H : Alike digest tr settled base cl fr) (currTs : Int) :
    Alike digest tr settled (base.start currTs) { cl with base := base.start currTs }
      { fr with base := base.start currTs } := by
  unfold BaseBalancer.start
  split
  · next h =>
    have hpos := H.clock h
    have hb := H.built
    rw [hpos] at hb
    exact ⟨rfl, rfl, H.plain, H.lists, H.hosts, H.perBucket, H.intvl,
      ⟨le_refl _, by have := H.pos; dsimp only; omega⟩, fun _ => rfl, hb⟩
  · exact ⟨rfl, rfl, H.plain, H.lists, H.hosts, H.perBucket, H.intvl, H.pos, H.clock, H.built⟩

section
variable (currTs : Int) (H : Alike digest tr settled base cl fr)
  (hgt : base.currUnavailPos < base.posAt currTs) (hin : base.posAt currTs < tr.lists.length)
include H hgt hin

theorem Alike.enough : n ≤ ((List.range nHost).filter fun x =>
    x ∉ listAt tr.lists (base.posAt currTs)).length :=
  tr.enough _ (listAt_mem (by have := H.pos; omega) hin)

theorem Alike.removed : removeNodes digest nHost (listAt tr.lists (base.posAt currTs))
      (.newRing digest (List.range nHost)) =
    .ok (ringWithout digest nHost (listAt tr.lists (base.posAt currTs))) :=
  removeNodes_eq (tr.hosts _ (listAt_mem (by have := H.pos; omega) hin))

variable (hsep : Separates digest nHost) (h0 : 0 < n)
include hsep h0

/-- The client rebuilds when the list differs from the one before it in the trace. -/
theorem Alike.update_client : ∃ cl', cl.update digest currTs = .ok cl' ∧
    cl'.base = { base with currUnavailPos := base.posAt currTs } ∧
    cl'.bucketMapping =
      if listAt tr.lists (base.posAt currTs) = listAt tr.lists (base.posAt currTs - 1) then
        cl.bucketMapping
      else clientMapping digest nHost n (listAt tr.lists (base.posAt currTs)) := by
  obtain rfl := H.hosts
  obtain rfl := H.perBucket
  have hpos := H.pos
  unfold ChBalancer.update
  dsimp only
  rw [H.client, unavailAt_eq (by omega) (by dsimp only; rw [H.lists]; exact hin),
    unavailAt_eq (by omega) (by dsimp only; rw [H.lists]; omega), H.lists]
  dsimp only [Except.bind]
  by_cases heq : listAt tr.lists (base.posAt currTs) = listAt tr.lists (base.posAt currTs - 1)
  · rw [if_pos (cmpSlice_iff.mpr heq), if_pos heq]
    exact ⟨_, rfl, rfl, rfl⟩
  · rw [if_neg (fun h => heq (cmpSlice_iff.mp h)), if_neg heq, H.removed currTs hgt hin]
    dsimp only
    rw [ChBalancer.createMapping_eq hsep h0 (H.enough currTs hgt hin) rfl]
    exact ⟨_, rfl, rfl, rfl⟩

/-- The frontend rebuilds when the list differs from the one at the position it comes from. -/
theorem Alike.update_frontend (gl : GraphLib) : ∃ fr', fr.update digest gl currTs = .ok fr' ∧
    fr'.base = { base with currUnavailPos := base.posAt currTs } ∧ fr'.rebalance = false ∧
    fr'.bucketMapping =
      if listAt tr.lists (base.posAt currTs) = listAt tr.lists base.currUnavailPos then
        fr.bucketMapping
      else ParityBalancer.plainMapping digest nHost n (listAt tr.lists (base.posAt currTs)) := by
  obtain rfl := H.hosts
  obtain rfl := H.perBucket
  have hpos := H.pos
  unfold ParityBalancer.update
  dsimp only
  rw [H.frontend, unavailAt_eq (by omega) (by rw [H.lists]; exact hin),
    unavailAt_eq (by omega) (by rw [H.lists]; omega), H.lists]
  dsimp only [Except.bind]
  by_cases heq : listAt tr.lists (base.posAt currTs) = listAt tr.lists base.currUnavailPos
  · rw [if_pos (cmpSlice_iff.mpr heq), if_pos heq]
    exact ⟨_, rfl, rfl, H.plain, rfl⟩
  · rw [if_neg (fun h => heq (cmpSlice_iff.mp h)), if_neg heq, H.removed currTs hgt hin]
    dsimp only
    rw [ParityBalancer.createMapping_eq hsep h0 (H.enough currTs hgt hin) rfl]
    dsimp only
    rw [H.plain, if_neg (by simp)]
    exact ⟨_, rfl, rfl, rfl, rfl⟩

/-- **A move on which both rules agree** keeps the invariant. -/
theorem Alike.update (hclock : base.startTs ≠ -1)
    (hagree : Agrees tr.lists settled base.currUnavailPos (base.posAt currTs)) :
    ∃ cl' fr', cl.update digest currTs = .ok cl' ∧ fr.update digest gl currTs = .ok fr' ∧
      Alike digest tr
        (settled || decide (listAt tr.lists (base.posAt currTs) ≠
          listAt tr.lists base.currUnavailPos))
        { base with currUnavailPos := base.posAt currTs } cl' fr' := by
  obtain ⟨cl', hcl', hclb, hclm⟩ := H.update_client currTs hgt hin hsep h0
  obtain ⟨fr', hfr', hfrb, hreb, hfrm⟩ := H.update_frontend currTs hgt hin hsep h0 gl
  refine ⟨cl', fr', hcl', hfr', hclb, hfrb, hreb, H.lists, H.hosts, H.perBucket, H.intvl,
    ⟨by have := H.pos; dsimp only; omega, hin⟩, fun h => absurd h hclock, ?_⟩
  have henough := H.enough currTs hgt hin
  obtain ⟨l, hn, hcl, hfr, hl⟩ := H.built
  rw [hclm, hfrm, hcl, hfr]
  dsimp only
  unfold Agrees at hagree
  generalize listAt tr.lists (base.posAt currTs) = next at *
  generalize listAt tr.lists (base.posAt currTs - 1) = prev at *
  generalize listAt tr.lists base.currUnavailPos = cur at *
  cases settled with
  | true =>
    replace hl : ∀ x, x ∈ l ↔ x ∈ cur := hl
    replace hagree : next = prev → ∀ x, x ∈ next ↔ x ∈ cur := hagree
    -- the frontend serves `next`, by a rebuild or because it served `cur = next` before
    have hfr_next : (if next = cur then ParityBalancer.plainMapping digest nHost n l else
        ParityBalancer.plainMapping digest nHost n next) =
        ParityBalancer.plainMapping digest nHost n next := by
      split
      · next h =>
        subst h
        rw [ParityBalancer.plainMapping, ParityBalancer.plainMapping, bucketNodes_congr hl]
      · rfl
    have hcl_next : (if next = prev then clientMapping digest nHost n l else
        clientMapping digest nHost n next) = clientMapping digest nHost n next := by
      split
      · next h =>
        rw [clientMapping, clientMapping,
          bucketNodes_congr fun x => (hl x).trans (hagree h x).symm]
      · rfl
    exact ⟨next, henough, hcl_next, hfr_next, fun x => Iff.rfl⟩
  | false =>
    obtain rfl : l = [] := hl
    replace hagree : if next = cur then next = prev else next = prev → next = [] := hagree
    by_cases hcur : next = cur
    · rw [if_pos hcur] at hagree
      rw [if_pos hcur, if_pos hagree]
      exact ⟨[], hn, rfl, rfl, by simp [hcur]⟩
    · rw [if_neg hcur] at hagree
      rw [if_neg hcur]
      refine ⟨next, henough, ?_, rfl, by simp [hcur]⟩
      split
      · next h => rw [hagree h]
      · rfl
end

/-! ## Runs -/

/-- A call moves both sides only when its time is behind the current position. -/
theorem Alike.checkUpdate_eq (H : Alike digest tr settled base cl fr) (gl : GraphLib)
    (currTs : Int) :
    cl.checkUpdate digest currTs =
      (if (base.start currTs).currUnavailPos < (base.start currTs).posAt currTs then
        ChBalancer.update digest { cl with base := base.start currTs } currTs
      else .ok { cl with base := base.start currTs }) ∧
    fr.checkUpdate digest gl currTs =
      (if (base.start currTs).currUnavailPos < (base.start currTs).posAt currTs then
        ParityBalancer.update digest gl { fr with base := base.start currTs } currTs
      else .ok { fr with base := base.start currTs }) := by
  have hneg : ¬ base.updateIntvl < 0 := by have := H.intvl; omega
  have hzero : (base.start currTs).updateIntvl ≠ 0 := by
    have := (H.start currTs).intvl; omega
  unfold ChBalancer.checkUpdate ParityBalancer.checkUpdate
  rw [H.client, H.frontend]
  simp only [if_neg hneg, if_neg hzero, and_self]

section
variable (hsep : Separates digest nHost) (h0 : 0 < n)
include hsep h0

/-- **One call on both sides.** -/
theorem Alike.call (H : Alike digest tr settled base cl fr) (gl : GraphLib) (currTs : Int)
    (hin : (base.start currTs).currUnavailPos < (base.moved currTs).currUnavailPos →
      (base.moved currTs).currUnavailPos < tr.lists.length)
    (hagree : (base.start currTs).currUnavailPos < (base.moved currTs).currUnavailPos →
      Agrees tr.lists settled (base.start currTs).currUnavailPos
        (base.moved currTs).currUnavailPos) :
    ∃ cl' fr', cl.checkUpdate digest currTs = .ok cl' ∧ fr.checkUpdate digest gl currTs = .ok fr' ∧
      Alike digest tr (settled || decide (listAt tr.lists (base.moved currTs).currUnavailPos ≠
        listAt tr.lists (base.start currTs).currUnavailPos)) (base.moved currTs) cl' fr' := by
  have H' := H.start currTs
  rw [(H.checkUpdate_eq gl currTs).1, (H.checkUpdate_eq gl currTs).2]
  unfold BaseBalancer.moved at hin hagree ⊢
  dsimp only at hin hagree ⊢
  by_cases hgt : (base.start currTs).currUnavailPos < (base.start currTs).posAt currTs
  · simp only [if_pos hgt] at hin hagree ⊢
    exact H'.update currTs hgt (hin hgt) hsep h0 (ParityBalancer.start_ne H'.pos.1 hgt) (hagree hgt)
  · simp only [if_neg hgt]
    refine ⟨_, _, rfl, rfl, ?_⟩
    simpa using H'

theorem Alike.routeAlike (H : Alike digest tr settled base cl fr) (gl : GraphLib)
    (calls : List (Int × Nat))
    (hin : OnMoves (fun _ _ new => new < tr.lists.length) settled (calls.map Prod.fst) base)
    (hagree : OnMoves (Agrees tr.lists) settled (calls.map Prod.fst) base) :
    RouteAlike digest gl n calls cl fr := by
  induction calls generalizing settled base cl fr with
  | nil => trivial
  | cons call calls ih =>
    obtain ⟨currTs, b⟩ := call
    obtain ⟨hin₁, hin⟩ := hin
    obtain ⟨hagree₁, hagree⟩ := hagree
    obtain ⟨cl', fr', hcl, hfr, H'⟩ := H.call hsep h0 gl currTs hin₁ hagree₁
    rw [H.lists] at hin hagree
    have hsame := H'.sameRoutes hsep h0
    refine ⟨cl', cl'.bucketMapping.getD b [], fr', fr'.bucketMapping.getD b [], ?_, ?_, hsame b,
      hsame, ih H' hin hagree⟩
    · rw [ChBalancer.getNodesFromMapping, hcl]; rfl
    · rw [ParityBalancer.getNodesFromMapping, hfr]; rfl

/-- Both constructors build the mapping of all hosts. -/
theorem new_alike (gl : GraphLib) {intvl : Int} (hintvl : 0 < intvl) :
    ∃ cl fr, ChBalancer.new digest nHost tr.lists intvl n = .ok cl ∧
      ParityBalancer.new digest gl nHost tr.lists intvl n false = .ok fr ∧
      Alike digest tr (decide (listAt tr.lists 0 = [])) (.new nHost tr.lists intvl n) cl fr := by
  have hlen := List.length_pos_iff.mpr tr.ne
  have hn : n ≤ ((List.range nHost).filter fun x => x ∉ ([] : List Nat)).length := by
    obtain ⟨l, hl⟩ := List.exists_mem_of_length_pos hlen
    refine (tr.enough l hl).trans ?_
    simpa using List.length_filter_le (fun x => decide (x ∉ l)) (List.range nHost)
  refine ⟨_, _, ChBalancer.createMapping_eq (l := []) hsep h0 hn rfl,
    ParityBalancer.createMapping_eq (l := []) hsep h0 hn rfl,
    rfl, rfl, rfl, rfl, rfl, rfl, hintvl, ⟨le_refl _, Int.natCast_pos.mpr hlen⟩, fun _ => rfl,
    [], hn, rfl, rfl, ?_⟩
  by_cases h : listAt tr.lists 0 = []
  · simp [h, BaseBalancer.new]
  · simp [h]

end

/-- **Routing.** When both rules agree on every move of the position, the client and the frontend
return the same hosts after every call. -/
theorem routes_alike (digest : List Nat → List Nat) (gl : GraphLib) (nHost n : Nat)
    (tr : Trace nHost n) (intvl : Int) (calls : List (Int × Nat)) (hsep : Separates digest nHost)
    (h0 : 0 < n) (hintvl : 0 < intvl)
    (hin : OnMoves (fun _ _ new => new < tr.lists.length) (decide (listAt tr.lists 0 = []))
      (calls.map Prod.fst) (.new nHost tr.lists intvl n))
    (hagree : OnMoves (Agrees tr.lists) (decide (listAt tr.lists 0 = []))
      (calls.map Prod.fst) (.new nHost tr.lists intvl n)) :
    ∃ cl fr, ChBalancer.new digest nHost tr.lists intvl n = .ok cl ∧
      ParityBalancer.new digest gl nHost tr.lists intvl n false = .ok fr ∧
      RouteAlike digest gl n calls cl fr := by
  obtain ⟨cl, fr, hcl, hfr, H⟩ := new_alike hsep h0 gl hintvl
  exact ⟨cl, fr, hcl, hfr, H.routeAlike hsep h0 gl calls hin hagree⟩

end

/-- `lateTrace`, called at both of its positions. -/
theorem lateTrace_routes_alike :
    ∃ cl fr, ChBalancer.new md5Sum 2 ParityBalancer.lateTrace.lists 60 1 = .ok cl ∧
      ParityBalancer.new md5Sum noFlow 2 ParityBalancer.lateTrace.lists 60 1 false = .ok fr ∧
      RouteAlike md5Sum noFlow 1 [(100, 1), (160, 1)] cl fr :=
  routes_alike md5Sum noFlow 2 1 ParityBalancer.lateTrace 60 [(100, 1), (160, 1)] separates_two
    (by decide) (by decide)
    ⟨fun h => absurd h (by decide), fun _ => by decide, trivial⟩
    ⟨fun h => absurd h (by decide), fun _ h => absurd h (by decide), trivial⟩

/-- Host 0 goes down one interval after the start and stays down. -/
def downTrace : Trace 2 1 where
  lists := [[], [0], [0]]
  ne := by decide
  hosts := by decide
  enough := by decide

/-- A call that skips the interval in which host 0 goes down: the client keeps bucket 1 on it. -/
theorem downTrace_not_routes_alike :
    ∃ cl fr, ChBalancer.new md5Sum 2 downTrace.lists 60 1 = .ok cl ∧
      ParityBalancer.new md5Sum noFlow 2 downTrace.lists 60 1 false = .ok fr ∧
      OnMoves (fun _ _ new => new < downTrace.lists.length) true [100, 220]
        (.new 2 downTrace.lists 60 1) ∧
      ¬ RouteAlike md5Sum noFlow 1 [(100, 1), (220, 1)] cl fr := by
  obtain ⟨cl, fr, hcl, hfr, H⟩ : ∃ cl fr, _ ∧ _ ∧ Alike md5Sum downTrace true _ cl fr :=
    new_alike separates_two Nat.one_pos noFlow (show (0 : Int) < 60 by decide)
  refine ⟨cl, fr, hcl, hfr, ⟨fun h => absurd h (by decide), fun _ => by decide, trivial⟩, ?_⟩
  rintro ⟨cl₁, _, fr₁, _, hcl₁, hfr₁, -, -, cl₂, _, fr₂, _, hcl₂, hfr₂, -, hsame, -⟩
  -- the first call starts the clock
  obtain ⟨cl₁', fr₁', h1, h2, H₁⟩ := H.call separates_two Nat.one_pos noFlow 100
    (fun h => absurd h (by decide)) (fun h => absurd h (by decide))
  rw [ChBalancer.getNodesFromMapping, h1] at hcl₁
  rw [ParityBalancer.getNodesFromMapping, h2] at hfr₁
  cases hcl₁
  cases hfr₁
  -- the second one is at position 2: only the frontend rebuilds
  have hmove := H₁.checkUpdate_eq noFlow 220
  rw [if_pos (by decide), if_pos (by decide)] at hmove
  have H₂ := H₁.start 220
  obtain ⟨cl₂', h1, -, hclm⟩ := H₂.update_client 220 (by decide) (by decide) separates_two
    Nat.one_pos
  obtain ⟨fr₂', h2, -, -, hfrm⟩ := H₂.update_frontend 220 (by decide) (by decide)
    separates_two Nat.one_pos noFlow
  rw [ChBalancer.getNodesFromMapping, hmove.1, h1] at hcl₂
  rw [ParityBalancer.getNodesFromMapping, hmove.2, h2] at hfr₂
  cases hcl₂
  cases hfr₂
  rw [if_pos (by decide)] at hclm
  rw [if_neg (by decide)] at hfrm
  obtain ⟨l, -, hl, -, hempty⟩ := H₁.built
  have hempty : ∀ x, x ∈ l ↔ x ∈ [] := hempty
  have h := hsame 1 (by decide)
  have hn : 1 ≤ ((List.range 2).filter fun x => x ∉ [0]).length := by decide
  obtain ⟨-, hlen, hmem⟩ := bucketNodes_spec separates_two Nat.one_pos hn 1
  rw [hclm, hfrm, hl] at h
  change _ = ((ParityBalancer.plainMapping md5Sum 2 1 [0]).getD 1 []).take 1 at h
  rw [← take_plainMapping separates_two Nat.one_pos hn (by decide), clientMapping, clientMapping,
    getD_map_range (by decide), getD_map_range (by decide), bucketNodes_congr hempty,
    bucketNodes_two, List.take_of_length_le (by simp), List.take_of_length_le (by simp [hlen])] at h
  refine hmem 0 ?_ (by simp)
  rw [← List.map_injective_iff.mpr (fun _ _ => Int.ofNat.inj) h]
  simp

end C2DN.LoadBalancer
