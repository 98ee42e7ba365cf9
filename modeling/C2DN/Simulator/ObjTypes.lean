import C2DN.Simulator.GetLemmas

/-!
# The types of cached objects

An object that is always requested with one size has copies of one kind (`Piece`): in the modes with
chunks these are chunks if it is larger than the threshold, else full copies. All writes of `get`
keep this, whatever the server does with them, and the other operations do not change caches.
-/

namespace C2DN.Simulator.Cluster

open CacheServer

section
variable {p : Params} {s s₀ s' : Cluster} {m : Mapped} {req : Request} {d : Draws} {id size : Nat}

/-- Whether objects of this size are stored in chunks. -/
def codes (p : Params) (size : Nat) : Bool :=
  match p.mode with
  | .c2dn | .c2dnAddN | .c2dnAddNThreeRep => decide (p.sizeThreshold < size)
  | _ => false

theorem codes_of_policy {b : Bool} (h : checkCodingPolicy p req = .ok b) :
    codes p req.objSize = b := by
  unfold checkCodingPolicy at h
  unfold codes
  split at h <;> first | cases h; simp [*] | cases h

/-- A copy of an object with this size. -/
def Piece (p : Params) (size : Nat) (o : CacheObj) : Prop :=
  if codes p size then
    o.info.objType = .chunkObj ∧ o.info.chunkId < p.n ∧ o.objSize = p.chunkObjSize size
  else o.info.objType = .fullObj ∧ o.objSize = size

/-- The size of its copies. -/
def pieceSize (p : Params) (size : Nat) : Nat := if codes p size then p.chunkObjSize size else size

theorem Piece.objSize {o : CacheObj} (h : Piece p size o) : o.objSize = pieceSize p size := by
  unfold Piece at h
  unfold pieceSize
  split at h
  · next hc => rw [if_pos hc]; exact h.2.2
  · next hc => rw [if_neg hc]; exact h.2

theorem Piece.objType {o : CacheObj} (h : Piece p size o) :
    o.info.objType = if codes p size then .chunkObj else .fullObj := by
  unfold Piece at h
  split at h
  · next hc => rw [if_pos hc]; exact h.1
  · next hc => rw [if_neg hc]; exact h.1

/-- All copies of an object are pieces of it. -/
def TypedFor (p : Params) (id size : Nat) (c : CacheServer) : Prop :=
  ∀ o, c.cache.getObj id = some o → Piece p size o

/-- A write after which a copy is a piece. -/
structure GoodWrite (p : Params) (size : Nat) (w : Write) : Prop where
  sized : w.size = pieceSize p size
  piece : ∀ o : CacheObj, o.objSize = pieceSize p size → Piece p size { o with info := w.info o.info }

theorem goodWrite_full (h : codes p req.objSize = false) (x : Nat) :
    GoodWrite p req.objSize (fullWrite req x) where
  sized := by simp [pieceSize, h, fullWrite]
  piece o ho := by
    rw [pieceSize, if_neg (by simp [h])] at ho
    rw [Piece, if_neg (by simp [h])]
    exact ⟨rfl, ho⟩

theorem goodWrite_chunk (h : codes p size = true) {x j : Nat} (hj : j < p.n) :
    GoodWrite p size ⟨x, p.chunkObjSize size, chunkInfo j⟩ where
  sized := by rw [pieceSize, if_pos h]
  piece o ho := by
    rw [pieceSize, if_pos h] at ho
    rw [Piece, if_pos h]
    exact ⟨rfl, Nat.lt_of_le_of_lt (Nat.mod_le _ _) hj, ho⟩

theorem typedFor_put {c c' : CacheServer} {w : Write} {t : CacheType} (H : TypedFor p id size c)
    (hw : GoodWrite p size w) (h : c.put id w.size t w.info = .ok c') : TypedFor p id size c' := by
  intro o ho
  cases hav : c.available with
  | true =>
    rw [(put_available hav h).self] at ho
    cases ho
    exact hw.piece _ hw.sized
  | false =>
    obtain ⟨⟨o₀, ho₀⟩, rfl⟩ := put_unavailable hav h
    rw [Cache.getObj_setInfo_self ho₀] at ho
    cases ho
    exact hw.piece _ (H o₀ ho₀).objSize

theorem typedFor_writes {ws : List Write} {f g : Nat → CacheServer} (h : Writes p id ws f g)
    (hws : ∀ w ∈ ws, GoodWrite p size w) (H : ∀ x, TypedFor p id size (f x)) (x : Nat) :
    TypedFor p id size (g x) :=
  h.induct (fun w hw _ _ _ H h => typedFor_put H (hws w hw) h) (H x)

/-! ## `get` -/

theorem findObj_checkAt {x : Nat} {objType : ObjType}
    (h : s.findObj p m id = .ok (some (x, objType))) : s.checkAt p x id = .ok (some objType) := by
  obtain ⟨t, ht, h⟩ := bind_eq_ok h
  cases t with
  | some t => cases h; exact ht
  | none =>
    dsimp only at h
    split at h
    · obtain ⟨t, ht, h⟩ := bind_eq_ok h
      obtain ⟨t', rfl, heq⟩ := Option.map_eq_some_iff.mp (Except.ok.inj h)
      cases heq
      exact ht
    · cases h

theorem findObj_lt {x : Nat} {objType : ObjType} (h : s.findObj p m id = .ok (some (x, objType))) :
    x < p.nServer := by
  have hcheck := findObj_checkAt h
  unfold checkAt at hcheck
  split at hcheck
  · assumption
  · cases hcheck

theorem findObj_some {x : Nat} {objType : ObjType} (h : s.findObj p m id = .ok (some (x, objType))) :
    ∃ o, (s.servers x).cache.getObj id = some o ∧ o.info.objType = objType := by
  have hcheck := findObj_checkAt h
  unfold checkAt CacheServer.check at hcheck
  split at hcheck
  · have hcheck := Except.ok.inj hcheck
    split at hcheck
    · exact Option.map_eq_some_iff.mp hcheck
    · cases hcheck
  · cases hcheck

theorem lt_of_mem_missPlaces (hk : p.k ≤ p.n) {i : Nat} (hi : i ∈ missPlaces p) : i < p.n := by
  rcases List.mem_append.mp hi with hi | hi
  · have := List.mem_range.mp hi
    omega
  · split at hi
    · have := List.mem_range'_1.mp hi
      omega
    · cases hi

/-- The writes of a request, wherever they come from, make pieces. -/
theorem Served.goodWrites {hit : ClusterHit} (hk : p.k ≤ p.n)
    (H : ∀ x, TypedFor p req.objId req.objSize (s.servers x))
    (h : Served p s req m s' hit) :
    ∃ ws, (∀ w ∈ ws, GoodWrite p req.objSize w) ∧ Effect p req.objId ws s s' := by
  have htype : ∀ {x t}, s.findObj p m req.objId = .ok (some (x, t)) →
      t = if codes p req.objSize then .chunkObj else .fullObj := by
    intro x t hfound
    obtain ⟨o, ho, rfl⟩ := findObj_some hfound
    exact (H x o ho).objType
  cases h with
  | fullHit found copies effect =>
    refine ⟨_, fun w hw => ?_, effect⟩
    obtain ⟨x, -, rfl⟩ := List.mem_map.mp hw
    refine goodWrite_full ?_ x
    cases hc : codes p req.objSize with
    | false => rfl
    | true => have := htype found; rw [if_pos hc] at this; cases this
  | chunkHit found hit same =>
    refine ⟨_, fun w hw => ?_, hit.effect.trans_same same⟩
    obtain ⟨⟨i, j⟩, hij, rfl⟩ := List.mem_map.mp hw
    have hj := List.mem_range.mp (List.mem_filter.mp (List.of_mem_zip hij).2).1
    rw [length_mapped hit.length] at hj
    refine goodWrite_chunk ?_ hj
    cases hc : codes p req.objSize with
    | true => rfl
    | false => have := htype found; rw [hc] at this; cases this
  | uncounted found unknown same | refused found unknown same =>
    exact ⟨[], by simp, same.effect⟩
  | fullMiss found policy copies effect =>
    refine ⟨_, fun w hw => ?_, effect⟩
    obtain ⟨x, -, rfl⟩ := List.mem_map.mp hw
    exact goodWrite_full (codes_of_policy policy) x
  | chunkMiss found policy effect =>
    refine ⟨_, fun w hw => ?_, effect⟩
    obtain ⟨i, hi, rfl⟩ := List.mem_map.mp hw
    exact goodWrite_chunk (codes_of_policy policy) (lt_of_mem_missPlaces hk hi)

/-- The type of a found copy is that of its object, so no assert on types fails. -/
theorem get_noTypeFault (H : ∀ x, TypedFor p req.objId req.objSize (s.servers x)) {e : Fault}
    (h : s.get p req d = .error e) : NoTypeFault e := by
  rcases get_ends.error h with h | ⟨m, -, x, t, hfound, hfault⟩
  · exact h
  · obtain ⟨o, ho, rfl⟩ := findObj_some hfound
    have htype := (H x o ho).objType
    rcases hfault with hunknown | ⟨hchunk, hextra⟩
    · rw [hunknown] at htype
      split at htype <;> cases htype
    · rw [hchunk] at htype
      rcases hextra with ⟨rfl, -⟩ | ⟨y, -, ⟨rfl, -⟩ | ⟨-, o', ho', hne⟩⟩
      · exact ⟨nofun, nofun⟩
      · exact ⟨nofun, nofun⟩
      · rw [(H y o' ho').objType, ← htype] at hne
        exact absurd rfl hne

/-- A found object is served as what it is, and counted. -/
theorem get_counts (H : ∀ x, TypedFor p req.objId req.objSize (s.servers x)) {x : Nat}
    {objType : ObjType} {r : Cluster × ClusterHit} (hm : findMappedServers p s req d = .ok m)
    (hfound : s.findObj p m req.objId = .ok (some (x, objType))) (h : s.get p req d = .ok r) :
    r.2.objType = objType ∧
      (objType = .fullObj ∧ r.2.isHit = true ∨ objType = .chunkObj ∧ 0 < r.2.nChunkHit) := by
  obtain ⟨m', hm', hserved⟩ := get_ends.ok h
  obtain rfl := Except.ok.inj (hm.symm.trans hm')
  generalize r.1 = s', r.2 = hit at hserved
  cases hserved with
  | fullHit found _ _ => rw [hfound] at found; cases found; exact ⟨rfl, .inl ⟨rfl, rfl⟩⟩
  | chunkHit found hit _ => rw [hfound] at found; cases found; exact ⟨rfl, .inr ⟨rfl, hit.pos⟩⟩
  | uncounted found unknown _ =>
    obtain ⟨o, ho, rfl⟩ := findObj_some found
    have htype := (H _ o ho).objType
    rcases unknown with h | h <;> rw [h] at htype <;> split at htype <;> cases htype
  | refused found _ _ | fullMiss found _ _ _ | chunkMiss found _ _ =>
    rw [hfound] at found; cases found

/-! ## Runs -/

/-- The requests for an object have this size. -/
def SizedFor (id size : Nat) : Op → Prop
  | .get req _ => req.objId = id → req.objSize = size
  | _ => True

theorem typedFor_step (hk : p.k ≤ p.n) {op : Op}
    (H : ∀ x, TypedFor p id size (s.servers x)) (hop : SizedFor id size op)
    (h : step p s op = .ok s') (x : Nat) : TypedFor p id size (s'.servers x) := by
  rcases step_cases h with ⟨req, d, m, hit, rfl, -, -, hserved⟩ | ⟨-, hcache⟩
  · by_cases hid : req.objId = id
    · subst hid
      obtain rfl := hop rfl
      obtain ⟨ws, hws, heff⟩ := hserved.goodWrites hk H
      exact typedFor_writes heff.writes hws H x
    · obtain ⟨ws, heff⟩ := hserved.effect
      exact fun o ho => H x o (heff.writes.other (Ne.symm hid) ho)
  · intro o ho
    rw [hcache] at ho
    exact H x o ho

/-- The copies of an object with one size, along any run. -/
theorem typedFor_run (hk : p.k ≤ p.n) {ops : List Op} (hnew : new p = .ok s₀)
    (hops : ∀ op ∈ ops, SizedFor id size op) (hrun : run p ops s₀ = .ok s) (x : Nat) :
    TypedFor p id size (s.servers x) := by
  refine Steps.inv_of_run (I := fun s => ∀ x, TypedFor p id size (s.servers x))
    (C := fun _ op _ => SizedFor id size op) (fun s op s' H h hop => typedFor_step hk H hop h)
    (fun x o ho => ?_) (Steps.of_mem hops) hrun x
  rw [new_servers hnew] at ho
  cases ho

/-- **Object types.** If every object is requested with one size, every copy is of the kind of its
object. So no assert on types fails, and no found object is passed over. -/
theorem run_typed (hmode : p.mode = .c2dn ∨ p.mode = .c2dnAddN) (hk : p.k ≤ p.n)
    (sizes : Nat → Nat) {ops : List Op} (hnew : new p = .ok s₀)
    (hops : ∀ op ∈ ops, ∀ id, SizedFor id (sizes id) op) (hrun : run p ops s₀ = .ok s) :
    (∀ x id o, (s.servers x).cache.getObj id = some o →
      if p.sizeThreshold < sizes id then
        o.info.objType = .chunkObj ∧ o.info.chunkId < p.n ∧ o.objSize = p.chunkObjSize (sizes id)
      else o.info.objType = .fullObj ∧ o.objSize = sizes id) ∧
    ∀ req d, req.objSize = sizes req.objId →
      (∀ e, s.get p req d = .error e → e ≠ .notChunk ∧ e ≠ .unknownType) ∧
      ∀ m x objType r, findMappedServers p s req d = .ok m →
        s.findObj p m req.objId = .ok (some (x, objType)) → s.get p req d = .ok r →
        r.2.objType = objType ∧
          (objType = .fullObj ∧ r.2.isHit = true ∨ objType = .chunkObj ∧ 0 < r.2.nChunkHit) := by
  have H : ∀ id x, TypedFor p id (sizes id) (s.servers x) := fun id x =>
    typedFor_run hk hnew (fun op hop => hops op hop id) hrun x
  refine ⟨fun x id o ho => ?_, fun req d hsize => ?_⟩
  · have hpiece := H id x o ho
    unfold Piece codes at hpiece
    rcases hmode with hmode | hmode <;> rw [hmode] at hpiece <;> simpa using hpiece
  · have H' : ∀ x, TypedFor p req.objId req.objSize (s.servers x) := by
      rw [hsize]
      exact H req.objId
    exact ⟨fun e h => get_noTypeFault H' h, fun m x objType r hm hfound h =>
      get_counts H' hm hfound h⟩

end

/-! ## One request -/

/-- The copy on a server after one request for object 0 with 30 bytes. -/
def copyAfterGet (p : Params) (x : Nat) : Except Fault (Option CacheObj) := do
  let s₀ ← new p
  let s ← run p [.get (.ofSize 0 30 (.refl true)) ⟨0, 0, 0⟩] s₀
  .ok ((s.servers x).cache.getObj 0)

theorem copyAfterGet_eq_ok {p : Params} {x : Nat} {o : Option CacheObj}
    (h : copyAfterGet p x = .ok o) : ∃ s₀ s, new p = .ok s₀ ∧
      run p [.get ⟨0, 30, 0, by decide, by decide⟩ ⟨0, 0, 0⟩] s₀ = .ok s ∧
      (s.servers x).cache.getObj 0 = o := by
  obtain ⟨s₀, hs₀, h⟩ := bind_eq_ok h
  obtain ⟨s, hs, h⟩ := bind_eq_ok h
  exact ⟨s₀, s, hs₀, hs, Except.ok.inj h⟩

set_option maxRecDepth 100000 in
theorem oneGet_typed : ∃ s₀ s, new (lineParams .c2dn 3 2 5 (by decide)) = .ok s₀ ∧
    run (lineParams .c2dn 3 2 5 (by decide))
      [.get ⟨0, 30, 0, by decide, by decide⟩ ⟨0, 0, 0⟩] s₀ = .ok s ∧
    ∃ o, (s.servers 1).cache.getObj 0 = some o ∧ o.info.objType = .chunkObj := by
  obtain ⟨s₀, s, hnew, hrun, ho⟩ := copyAfterGet_eq_ok (p := lineParams .c2dn 3 2 5 (by decide))
    (x := 1) (o := some ⟨0, 15, ⟨.chunkObj, 1⟩⟩) (eq_ok_of_toOption (by decide +kernel))
  refine ⟨s₀, s, hnew, hrun, _, ho, ?_⟩
  refine ((run_typed (.inl rfl) (by decide) (fun _ => 30) hnew ?_ hrun).1 1 0 _ ho).1
  intro op hop id
  cases List.mem_singleton.mp hop
  exact fun _ => rfl

set_option maxRecDepth 100000 in
/-- With more data chunks than chunks, a miss stores an id that is not below `n`. -/
theorem wideCode_not_typed : ∃ s₀ s, new (lineParams .c2dn 3 4 5 (by decide)) = .ok s₀ ∧
    run (lineParams .c2dn 3 4 5 (by decide))
      [.get ⟨0, 30, 0, by decide, by decide⟩ ⟨0, 0, 0⟩] s₀ = .ok s ∧
    ∃ o, (s.servers 3).cache.getObj 0 = some o ∧ ¬ o.info.chunkId < 3 := by
  obtain ⟨s₀, s, hnew, hrun, ho⟩ := copyAfterGet_eq_ok (p := lineParams .c2dn 3 4 5 (by decide))
    (x := 3) (o := some ⟨0, 8, ⟨.chunkObj, 3⟩⟩) (eq_ok_of_toOption (by decide +kernel))
  exact ⟨s₀, s, hnew, hrun, _, ho, by decide⟩

end C2DN.Simulator.Cluster
