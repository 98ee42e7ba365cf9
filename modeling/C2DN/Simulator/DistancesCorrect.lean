import C2DN.Simulator.Distances
import C2DN.Simulator.LruProfileCorrect

/-!
# What the distances count

Forwards, the distances are those of the trace without its first request: the requests, or the objects,
since the last request for the same object. Backwards, they are those of the trace without its last
request, up to the next request for the same object.
-/

namespace C2DN.Simulator

/-- A distance as it is stored. -/
def toDist : Option Nat → Int
  | none => -1
  | some d => d

/-- `next` delivers these requests, and then one that is not valid. -/
inductive Delivers (next : BinaryReader → TraceReq → Except BinFault (BinaryReader × TraceReq)) :
    BinaryReader → TraceReq → List TraceReq → BinaryReader → Prop where
  | done {reader : BinaryReader} {req : TraceReq} (h : req.valid = false) :
    Delivers next reader req [] reader
  | more {reader reader' final : BinaryReader} {req req' : TraceReq} {reqs : List TraceReq}
    (h : req.valid = true) (hnext : next reader req = .ok (reader', req'))
    (rest : Delivers next reader' req' reqs final) : Delivers next reader req (req :: reqs) final

/-- The distances of these requests, one after the other. -/
def distsOf {σ : Type} (add : σ → TraceReq → Nat → Except DistFault (σ × Int)) :
    σ → Nat → List TraceReq → Except DistFault (List Int)
  | _, _, [] => .ok []
  | s, ts, req :: reqs => (add s req ts).bind fun (s, dist) =>
    (distsOf add s (ts + 1) reqs).map (dist :: ·)

/-- The object ids of requests. -/
def idsOf (reqs : List TraceReq) : List Nat := reqs.map fun req => req.objId.toNat

@[simp] theorem idsOf_cons (req : TraceReq) (reqs : List TraceReq) :
    idsOf (req :: reqs) = req.objId.toNat :: idsOf reqs := rfl

section
variable {σ : Type} {next : BinaryReader → TraceReq → Except BinFault (BinaryReader × TraceReq)}
  {add : σ → TraceReq → Nat → Except DistFault (σ × Int)} {idx : Nat → Int}
  {reader final : BinaryReader} {req : TraceReq} {reqs : List TraceReq} {s : σ} {ts fuel : Nat}

/-! ## The array -/

/-- One turn of the loop. -/
theorem distLoop_more {reader' : BinaryReader} {req' : TraceReq} {s' : σ} {dist : Int}
    {a a' : List (Option Int)} (h : req.valid = true) (hadd : add s req ts = .ok (s', dist))
    (hstore : storeDist a (idx ts) dist = .ok a') (hnext : next reader req = .ok (reader', req')) :
    distLoop next add idx (fuel + 1) reader req s ts a =
      distLoop next add idx fuel reader' req' s' (ts + 1) a' := by
  rw [distLoop, if_pos h, hadd]
  dsimp only [Except.bind]
  rw [hstore]
  dsimp only [Except.bind]
  rw [hnext]
  rfl

/-- The array is filled from the front. -/
theorem distLoop_forwards (D : Delivers next reader req reqs final) (pre : List Int) {ds : List Int}
    (hds : distsOf add s pre.length reqs = .ok ds) (hfuel : reqs.length < fuel) :
    distLoop next add (fun ts => ts) fuel reader req s pre.length
        (pre.map some ++ List.replicate reqs.length none) =
      .ok ((pre ++ ds).map some, final.reset) := by
  induction D generalizing s pre ds fuel with
  | done h =>
    cases hds
    obtain ⟨fuel, rfl⟩ := Nat.exists_eq_succ_of_ne_zero (Nat.ne_of_gt hfuel)
    rw [distLoop, h, if_neg Bool.false_ne_true, List.length_nil, List.replicate_zero, List.append_nil,
      List.append_nil]
  | @more reader reader' final req req' reqs h hnext rest ih =>
    obtain ⟨⟨s', dist⟩, hadd, hds⟩ := bind_eq_ok hds
    obtain ⟨ds', hds', rfl⟩ := map_eq_ok hds
    obtain ⟨fuel, rfl⟩ := Nat.exists_eq_succ_of_ne_zero (Nat.ne_of_gt (Nat.lt_of_le_of_lt (Nat.zero_le _) hfuel))
    have hstore : storeDist (pre.map some ++ List.replicate (req :: reqs).length none) pre.length dist =
        .ok ((pre ++ [dist]).map some ++ List.replicate reqs.length none) := by
      have hset : (pre.map some ++ List.replicate (req :: reqs).length none).set pre.length (some dist) =
          (pre ++ [dist]).map some ++ List.replicate reqs.length none := by
        rw [List.set_append_right _ _ (Nat.le_of_eq (List.length_map _)), List.length_map, Nat.sub_self,
          List.length_cons, List.replicate_succ, List.set_cons_zero, List.map_append, List.append_assoc]
        rfl
      rw [storeDist, if_pos, Int.toNat_natCast, hset]
      rw [List.length_append, List.length_map, List.length_replicate, List.length_cons]
      omega
    rw [distLoop_more h hadd hstore hnext]
    have hlen : (pre ++ [dist]).length = pre.length + 1 := List.length_append
    rw [← hlen] at hds' ⊢
    rw [ih (pre ++ [dist]) hds' (Nat.lt_of_succ_lt_succ hfuel), List.append_assoc]
    rfl

/-- The array is filled from the back. -/
theorem distLoop_backwards (D : Delivers next reader req reqs final) (post : List Int) {ds : List Int}
    {n : Nat} (hds : distsOf add s post.length reqs = .ok ds) (hn : n = reqs.length + post.length)
    (hfuel : reqs.length < fuel) :
    distLoop next add (fun ts => n - 1 - ts) fuel reader req s post.length
        (List.replicate reqs.length none ++ post.map some) =
      .ok ((ds.reverse ++ post).map some, final.reset) := by
  induction D generalizing s post ds fuel with
  | done h =>
    cases hds
    obtain ⟨fuel, rfl⟩ := Nat.exists_eq_succ_of_ne_zero (Nat.ne_of_gt hfuel)
    rw [distLoop, h, if_neg Bool.false_ne_true, List.length_nil, List.replicate_zero, List.nil_append,
      List.reverse_nil, List.nil_append]
  | @more reader reader' final req req' reqs h hnext rest ih =>
    obtain ⟨⟨s', dist⟩, hadd, hds⟩ := bind_eq_ok hds
    obtain ⟨ds', hds', rfl⟩ := map_eq_ok hds
    obtain ⟨fuel, rfl⟩ := Nat.exists_eq_succ_of_ne_zero (Nat.ne_of_gt (Nat.lt_of_le_of_lt (Nat.zero_le _) hfuel))
    rw [List.length_cons] at hn
    have hidx : (n : Int) - 1 - post.length = reqs.length := by omega
    have hstore : storeDist (List.replicate (req :: reqs).length none ++ post.map some)
        (n - 1 - post.length) dist =
        .ok (List.replicate reqs.length none ++ (dist :: post).map some) := by
      have hset : (List.replicate (req :: reqs).length none ++ post.map some).set reqs.length (some dist) =
          List.replicate reqs.length none ++ (dist :: post).map some := by
        rw [List.length_cons, List.replicate_succ', List.append_assoc,
          List.set_append_right _ _ (Nat.le_of_eq List.length_replicate), List.length_replicate,
          Nat.sub_self]
        rfl
      rw [storeDist, hidx, if_pos, Int.toNat_natCast, hset]
      rw [List.length_append, List.length_map, List.length_replicate, List.length_cons]
      omega
    rw [distLoop_more h hadd hstore hnext]
    rw [← List.length_cons (a := dist)] at hds' ⊢
    rw [ih (dist :: post) hds' (by rw [List.length_cons]; omega) (Nat.lt_of_succ_lt_succ hfuel), List.reverse_cons,
      List.append_assoc]
    rfl

end

/-! ## The distances of a trace -/

open LruProfile (lookup getStackDistAddReq Inv profDist profDists leaveZero)

section
variable {reqs : List TraceReq}

theorem place_some {l : List Nat} {a d : Nat} (h : Reuse.place l a = some d) : d < l.length := by
  unfold Reuse.place at h
  split at h
  · next ha =>
    cases h
    exact List.idxOf_lt_length_of_mem ha
  · cases h

/-- Behind the first request the table has the last timestamps. -/
theorem lastDists_ok (seen : List Nat) (table : Nat → Option Nat)
    (ht : ∀ a, lookup table a = ((Reuse.place seen a).map (seen.length - ·)).getD 0) :
    distsOf lastDistAddReq table (seen.length + 1) reqs =
      .ok ((Reuse.since seen (idsOf reqs)).map toDist) := by
  induction reqs generalizing seen table with
  | nil => rfl
  | cons req reqs ih =>
    have htable : ∀ a, lookup (Function.update table req.objId.toNat (some (seen.length + 1))) a =
        ((Reuse.place (req.objId.toNat :: seen) a).map ((req.objId.toNat :: seen).length - ·)).getD 0 := by
      intro a
      by_cases ha : a = req.objId.toNat
      · rw [ha, LruProfile.lookup_update_self, Reuse.place, if_pos List.mem_cons_self,
          List.idxOf_cons_self]
        rfl
      · rw [LruProfile.lookup_update_ne ha, ht, Reuse.place, Reuse.place]
        by_cases hmem : a ∈ seen
        · rw [if_pos hmem, if_pos (List.mem_cons_of_mem _ hmem), List.idxOf_cons_ne _ (Ne.symm ha)]
          simp only [Option.map_some, Option.getD_some, List.length_cons]
          omega
        · rw [if_neg hmem, if_neg (by rw [List.mem_cons, not_or]; exact ⟨ha, hmem⟩)]
          rfl
    have hdist : (if lookup table req.objId.toNat = 0 then (-1 : Int)
        else ((seen.length + 1 : Nat) : Int) - lookup table req.objId.toNat - 1) =
          toDist (Reuse.place seen req.objId.toNat) := by
      rw [ht]
      cases hplace : Reuse.place seen req.objId.toNat with
      | none => rfl
      | some d =>
        have hlt := place_some hplace
        simp only [Option.map_some, Option.getD_some, toDist]
        rw [if_neg (by omega)]
        omega
    rw [distsOf, lastDistAddReq]
    dsimp only [Except.bind]
    rw [hdist]
    have hrest := ih (req.objId.toNat :: seen) _ htable
    rw [List.length_cons] at hrest
    rw [hrest]
    rfl

/-- Behind the first request the table has the first timestamps. -/
theorem firstDists_ok (seen : List Nat) (table : Nat → Option Nat)
    (ht : ∀ a, lookup table a = ((Reuse.place seen a).map (· + 1)).getD 0) :
    distsOf firstDistAddReq table (seen.length + 1) reqs =
      .ok ((Reuse.sinceFirst seen (idsOf reqs)).map toDist) := by
  induction reqs generalizing seen table with
  | nil => rfl
  | cons req reqs ih =>
    have hlen : (seen ++ [req.objId.toNat]).length = seen.length + 1 := List.length_append
    rw [distsOf, firstDistAddReq]
    dsimp only [Except.bind]
    cases hplace : Reuse.place seen req.objId.toNat with
    | none =>
      have hnot : req.objId.toNat ∉ seen := fun h => by
        rw [Reuse.place, if_pos h] at hplace
        cases hplace
      have hzero : lookup table req.objId.toNat = 0 := by
        rw [ht, hplace]
        rfl
      rw [if_pos hzero]
      have hrest := ih (seen ++ [req.objId.toNat])
        (Function.update table req.objId.toNat (some (seen.length + 1))) fun a => by
          by_cases ha : a = req.objId.toNat
          · rw [ha, LruProfile.lookup_update_self, Reuse.place, if_pos (by simp),
              List.idxOf_append_of_notMem hnot, List.idxOf_cons_self]
            rfl
          · rw [LruProfile.lookup_update_ne ha, ht, Reuse.place, Reuse.place]
            by_cases hmem : a ∈ seen
            · rw [if_pos hmem, if_pos (List.mem_append_left _ hmem), List.idxOf_append_of_mem hmem]
            · rw [if_neg hmem, if_neg (by simp [ha, hmem])]
      rw [hlen] at hrest
      rw [hrest, idsOf_cons, Reuse.sinceFirst, hplace]
      rfl
    | some d =>
      have hmem : req.objId.toNat ∈ seen := by
        by_contra h
        rw [Reuse.place, if_neg h] at hplace
        cases hplace
      have hlt := place_some hplace
      have hval : lookup table req.objId.toNat = d + 1 := by
        rw [ht, hplace]
        rfl
      rw [if_neg (by omega)]
      have hrest := ih (seen ++ [req.objId.toNat]) table fun a => by
        rw [ht, Reuse.place, Reuse.place]
        by_cases ha : a ∈ seen
        · rw [if_pos ha, if_pos (List.mem_append_left _ ha), List.idxOf_append_of_mem ha]
        · have hne : a ≠ req.objId.toNat := fun h => ha (h ▸ hmem)
          rw [if_neg ha, if_neg (by simp [ha, hne])]
      rw [hlen] at hrest
      rw [hrest, idsOf_cons, Reuse.sinceFirst, hplace]
      have hdist : ((seen.length + 1 : Nat) : Int) - lookup table req.objId.toNat - 1 =
          toDist (some (seen.length - 1 - d)) := by
        rw [hval]
        simp only [toDist]
        omega
      rw [hdist]
      rfl

end

section
variable {T : CountedSet Int} {z : Option Nat} {s l : List Nat} {tree : T.Tree}
  {table : Nat → Option Nat} {ts objId a : Nat} {reqs : List TraceReq}

/-- A request behind the first one. -/
theorem getStackDistAddReq_ok (H : Inv z s tree table ts) (hts : 0 < ts) (objId : Nat) :
    ∃ tree' table', getStackDistAddReq T objId tree table ts =
        .ok (tree', table', toDist (profDist z s objId)) ∧
      Inv (leaveZero z objId) (LruStack.touch s objId) tree' table' (ts + 1) := by
  by_cases hzero : lookup table objId = 0
  · refine ⟨T.insert ts tree, _, ?_, H.touch hts fun k => ?_⟩
    · have hdist : profDist z s objId = none := by
        rw [profDist, LruStack.dist]
        obtain hnot | hz := H.lookup_eq_zero_iff.mp hzero
        · rw [if_neg hnot, ite_self]
        · rw [if_pos hz]
      rw [getStackDistAddReq]
      dsimp only
      rw [if_pos hzero, hdist]
      rfl
    · rw [T.keys_insert, Finset.mem_insert]
      simp [hzero]
  · have hseen := mt H.lookup_eq_zero_iff.mpr hzero
    rw [not_or, not_not] at hseen
    have hdist : profDist z s objId = some (s.idxOf objId) := by
      rw [profDist, if_neg hseen.2, LruStack.dist, if_pos hseen.1]
    have hcount : T.countRight (T.splay (lookup table objId) tree) = some ((s.idxOf objId : Nat) : Int) := by
      rw [T.countRight_splay _ _ (H.mem objId hseen.1), H.card_later hseen.1]
    refine ⟨T.insert ts (T.delete (lookup table objId) (T.splay (lookup table objId) tree)), _, ?_,
      H.touch hts fun k => ?_⟩
    · rw [getStackDistAddReq]
      dsimp only
      rw [if_neg hzero, hcount, hdist]
      rfl
    · rw [T.keys_insert, T.keys_delete, T.keys_splay, Finset.mem_insert, Finset.mem_erase]
      simp only [hzero, or_false]
      exact or_congr_right And.comm

theorem stackDists_ok (H : Inv z s tree table ts) (hts : 0 < ts) :
    distsOf (stackDistAddReq T) (tree, table) ts reqs =
      .ok ((profDists z s (idsOf reqs)).map toDist) := by
  induction reqs generalizing z s tree table ts with
  | nil => rfl
  | cons req reqs ih =>
    obtain ⟨tree', table', hadd, H'⟩ := getStackDistAddReq_ok H hts req.objId.toNat
    rw [distsOf, stackDistAddReq, hadd]
    dsimp only [Except.bind, Except.map, Except.mapError]
    rw [ih H' (Nat.succ_pos ts)]
    rfl

/-- The object of the first request is found at the bottom of the stack, and taken for a missing one. -/
theorem profDists_bottom (ha : a ∉ s) (l : List Nat) :
    profDists (some a) (s ++ [a]) l = LruStack.dists s l := by
  induction l generalizing s with
  | nil => rfl
  | cons b l ih =>
    rw [profDists, LruStack.dists, profDist, leaveZero]
    by_cases hb : b = a
    · subst hb
      have hdist : LruStack.dist s b = none := by rw [LruStack.dist, if_neg ha]
      have htouch : LruStack.touch (s ++ [b]) b = LruStack.touch s b := by
        rw [LruStack.touch, LruStack.touch, List.erase_append_right _ ha, List.erase_of_not_mem ha,
          List.erase_cons_head, List.append_nil]
      rw [if_pos rfl, if_pos rfl, hdist, htouch, LruProfile.profDists_none]
    · have hne : ¬ some a = some b := fun h => hb (Option.some.inj h).symm
      have hdist : LruStack.dist (s ++ [a]) b = LruStack.dist s b := by
        unfold LruStack.dist
        by_cases hmem : b ∈ s
        · rw [if_pos hmem, if_pos (List.mem_append_left _ hmem), List.idxOf_append_of_mem hmem]
        · rw [if_neg hmem, if_neg (by simp [hmem, hb])]
      have hnot : a ∉ LruStack.touch s b := by
        rw [LruStack.mem_touch, not_or]
        exact ⟨fun h => hb h.symm, ha⟩
      rw [if_neg hne, if_neg hne, hdist, LruStack.touch_bottom hb, ih hnot]

/-- The distances behind a request that comes first. -/
theorem distsOf_first {σ : Type} {add : σ → TraceReq → Nat → Except DistFault (σ × Int)} {s s' : σ}
    {req : TraceReq} {ds : List Int} (hadd : add s req 0 = .ok (s', -1))
    (hrest : distsOf add s' 1 reqs = .ok ds) : distsOf add s 0 (req :: reqs) = .ok (-1 :: ds) := by
  rw [distsOf, hadd]
  dsimp only [Except.bind]
  rw [hrest]
  rfl

theorem lookup_first {req : TraceReq} (a : Nat) :
    lookup (Function.update (fun _ => none) req.objId.toNat (some 0)) a = 0 := by
  by_cases ha : a = req.objId.toNat
  · rw [ha, LruProfile.lookup_update_self]
  · rw [LruProfile.lookup_update_ne ha]
    rfl

theorem lastDistsOf (req : TraceReq) (reqs : List TraceReq) :
    distsOf lastDistAddReq (fun _ => none) 0 (req :: reqs) =
      .ok (-1 :: (Reuse.since [] (idsOf reqs)).map toDist) :=
  distsOf_first rfl (lastDists_ok [] _ fun a => lookup_first a)

theorem firstDistsOf (req : TraceReq) (reqs : List TraceReq) :
    distsOf firstDistAddReq (fun _ => none) 0 (req :: reqs) =
      .ok (-1 :: (Reuse.sinceFirst [] (idsOf reqs)).map toDist) :=
  distsOf_first rfl (firstDists_ok [] _ fun a => lookup_first a)

theorem stackDistsOf (T : CountedSet Int) (req : TraceReq) (reqs : List TraceReq) :
    distsOf (stackDistAddReq T) (T.empty, fun _ => none) 0 (req :: reqs) =
      .ok (-1 :: (LruStack.dists [] (idsOf reqs)).map toDist) := by
  obtain ⟨tree, table, hstep, H⟩ := LruProfile.first_ok (T := T) 0 req.objId.toNat
  have hadd : stackDistAddReq T (T.empty, fun _ => none) req 0 = .ok ((tree, table), -1) := by
    have hstate : (⟨T.insert 0 T.empty, Function.update (fun _ => none) req.objId.toNat (some 0), 1,
        List.replicate 1 0⟩ : LruProfile.State T) = ⟨tree, table, 1, List.replicate 1 0⟩ :=
      Except.ok.inj hstep
    cases hstate
    rfl
  refine distsOf_first hadd ((stackDists_ok H Nat.one_pos).trans ?_)
  rw [← List.nil_append [req.objId.toNat], profDists_bottom List.not_mem_nil]

end

/-! ## The trace, forwards and backwards -/

/-- The object ids of a file. -/
def traceIds (fields : List (Char × Nat)) (idx : TraceField → Nat) (file : List UInt8) : List Nat :=
  (List.range (file.length / widthOf fields)).map fun j =>
    (fieldValue fields file j (idx .objId)).toNat

section
variable {initParams : TraceField → Int} {items : List FmtItem} {file : List UInt8} {j : Nat}
  {reader : BinaryReader} {req : TraceReq} {idx : TraceField → Nat}

theorem ReaderAt.move (H : ReaderAt initParams items file j reader) (i : Nat) :
    ReaderAt initParams items file i { reader with mmapOffset := i * reader.itemSize } :=
  ⟨H.mappedFile, rfl, H.itemSize, H.nTotalReq, H.absent, H.params⟩

theorem ReaderAt.reset (H : ReaderAt initParams items file j reader) :
    ReaderAt initParams items file 0 reader.reset :=
  ⟨H.mappedFile, (Nat.zero_mul _).symm, H.itemSize, H.nTotalReq, H.absent, H.params⟩

theorem ReaderAt.total (H : ReaderAt initParams items file j reader) :
    reader.nTotalReq = file.length / widthOf (fieldsOf items) := by
  rw [H.nTotalReq, H.itemSize]

/-- The records from the `j`th one on. -/
theorem delivers_forwards (C : Chosen (fieldsOf items) initParams idx) (hne : items ≠ []) {k : Nat}
    (H : ReaderAt initParams items file j reader) (hk : reader.nTotalReq = j + k) (req : TraceReq) :
    ∃ reader' req' reqs final, reader.readOneReq req = .ok (reader', req') ∧
      Delivers BinaryReader.readOneReq reader' req' reqs final ∧
      idsOf reqs = (List.range' j k).map (fun i =>
        (fieldValue (fieldsOf items) file i (idx .objId)).toNat) ∧
      reader'.nTotalReq = reader.nTotalReq ∧ ReaderAt initParams items file 0 final.reset := by
  induction k generalizing j reader req with
  | zero =>
    exact ⟨reader, _, [], reader, readOneReq_end H (Nat.le_of_eq hk) req, .done rfl, rfl, rfl, H.reset⟩
  | succ k ih =>
    obtain ⟨reader', req', hread, H', hreq⟩ := readOneReq_record H C hne (by omega) req
    have htotal : reader'.nTotalReq = reader.nTotalReq := H'.total.trans H.total.symm
    obtain ⟨reader'', req'', reqs, final, hread', D, hids, -, hfinal⟩ := ih H' (by omega) req'
    refine ⟨reader', req', req' :: reqs, final, hread, .more hreq.valid hread' D, ?_, htotal, hfinal⟩
    rw [idsOf_cons, hids, List.range'_succ, List.map_cons, hreq.objId]

/-- A record that has been read, and those before it. -/
theorem delivers_backwards (C : Chosen (fieldsOf items) initParams idx) (hne : items ≠ [])
    (H : ReaderAt initParams items file (j + 1) reader) (hj : j < reader.nTotalReq)
    (hreq : Decoded (fieldsOf items) idx file j req) :
    ∃ reqs final, Delivers BinaryReader.readOneReqAbove reader req reqs final ∧
      idsOf reqs = (List.range (j + 1)).reverse.map (fun i =>
        (fieldValue (fieldsOf items) file i (idx .objId)).toNat) ∧
      ReaderAt initParams items file 0 final.reset := by
  have hpos : 0 < reader.itemSize := H.itemSize ▸ widthOf_pos hne
  induction j generalizing reader req with
  | zero =>
    have hback : reader.goBackTwoLines = (reader, -1) := by
      rw [BinaryReader.goBackTwoLines, H.mmapOffset, if_neg (by omega)]
    have habove : reader.readOneReqAbove req = .ok (reader, { req with valid := false }) := by
      rw [BinaryReader.readOneReqAbove, hback]
      rfl
    refine ⟨[req], reader, .more hreq.valid habove (.done rfl), ?_, H.reset⟩
    rw [idsOf_cons, hreq.objId]
    rfl
  | succ j ih =>
    have hoffset : reader.mmapOffset = j * reader.itemSize + reader.itemSize * 2 := by
      rw [H.mmapOffset, Nat.mul_comm reader.itemSize 2, ← Nat.add_mul]
    have hback : reader.goBackTwoLines = ({ reader with mmapOffset := j * reader.itemSize }, 0) := by
      rw [BinaryReader.goBackTwoLines, hoffset, if_pos (Nat.le_add_left _ _), Nat.add_sub_cancel]
    obtain ⟨reader', req', hread, H', hreq'⟩ := readOneReq_record (H.move j) C hne (by
      change j < reader.nTotalReq
      omega) req
    have habove : reader.readOneReqAbove req = .ok (reader', req') := by
      rw [BinaryReader.readOneReqAbove, hback]
      exact hread
    have htotal : reader'.nTotalReq = reader.nTotalReq := H'.total.trans H.total.symm
    have hpos' : 0 < reader'.itemSize := H'.itemSize ▸ widthOf_pos hne
    obtain ⟨reqs, final, D, hids, hfinal⟩ := ih H' (by omega) hreq' hpos'
    refine ⟨req :: reqs, final, .more hreq.valid habove D, ?_, hfinal⟩
    rw [idsOf_cons, hids, hreq.objId, List.range_succ (n := j + 1), List.reverse_append]
    rfl

/-- Forwards, the array has the distances of the trace. -/
theorem distForwards_ok {σ : Type} {add : σ → TraceReq → Nat → Except DistFault (σ × Int)} {s : σ}
    {dists : List Nat → List (Option Nat)}
    (hadd : ∀ req reqs, distsOf add s 0 (req :: reqs) = .ok (-1 :: (dists (idsOf reqs)).map toDist))
    (C : Chosen (fieldsOf items) initParams idx) (hne : items ≠ [])
    (H : ReaderAt initParams items file 0 reader) {fuel : Nat}
    (hfuel : (traceIds (fieldsOf items) idx file).length < fuel)
    (hids : traceIds (fieldsOf items) idx file ≠ []) (req : TraceReq) :
    ∃ reader', distForwards add s fuel reader req =
        .ok ((-1 :: (dists (traceIds (fieldsOf items) idx file).tail).map toDist).map some, reader') ∧
      ReaderAt initParams items file 0 reader' := by
  obtain ⟨reader', req', reqs, final, hread, D, hreqs, htotal, hfinal⟩ :=
    delivers_forwards C hne H (Nat.zero_add _).symm req
  have htrace : idsOf reqs = traceIds (fieldsOf items) idx file := by
    rw [hreqs, H.total, traceIds, List.range_eq_range']
  have hlen : reqs.length = reader.nTotalReq := by
    have := congrArg List.length hreqs
    rwa [idsOf, List.length_map, List.length_map, List.length_range'] at this
  rw [← htrace] at hids hfuel ⊢
  rw [idsOf, List.length_map] at hfuel
  refine ⟨final.reset, ?_, hfinal⟩
  cases reqs with
  | nil => exact absurd rfl hids
  | cons req₁ reqs =>
    have hloop := distLoop_forwards D [] (hadd req₁ reqs) hfuel
    rw [distForwards, hread]
    dsimp only [Except.mapError, Except.bind]
    rw [htotal, ← hlen]
    exact hloop

/-- Backwards, the array has the distances of the reversed trace, reversed. -/
theorem distBackwards_ok {σ : Type} {add : σ → TraceReq → Nat → Except DistFault (σ × Int)} {s : σ}
    {dists : List Nat → List (Option Nat)}
    (hadd : ∀ req reqs, distsOf add s 0 (req :: reqs) = .ok (-1 :: (dists (idsOf reqs)).map toDist))
    (C : Chosen (fieldsOf items) initParams idx) (hne : items ≠ [])
    (H : ReaderAt initParams items file 0 reader) {fuel : Nat}
    (hfuel : (traceIds (fieldsOf items) idx file).length < fuel)
    (hwhole : widthOf (fieldsOf items) ∣ file.length)
    (hids : traceIds (fieldsOf items) idx file ≠ []) (req : TraceReq) :
    ∃ reader', distBackwards add s fuel reader req =
        .ok ((((dists (traceIds (fieldsOf items) idx file).dropLast.reverse).reverse).map toDist ++
          [-1]).map some, reader') ∧
      ReaderAt initParams items file 0 reader' := by
  have hpos := widthOf_pos hne
  obtain ⟨n, hn⟩ := hwhole
  have htotal : reader.nTotalReq = n := by
    rw [H.total, hn, Nat.mul_div_cancel_left _ hpos]
  cases n with
  | zero =>
    refine absurd ?_ hids
    rw [traceIds, hn, Nat.mul_zero, Nat.zero_div]
    rfl
  | succ n =>
    -- the reader at the last record
    have hback : reader.setReadPosEnd.goBackOneLine.1 =
        { reader with mmapOffset := n * reader.itemSize } := by
      have hoffset : reader.mappedFile.length = n * reader.itemSize + reader.itemSize := by
        rw [H.mappedFile, hn, H.itemSize, Nat.mul_comm, Nat.succ_mul]
      unfold BinaryReader.goBackOneLine BinaryReader.setReadPosEnd
      dsimp only
      rw [hoffset, if_pos (Nat.le_add_left _ _), Nat.add_sub_cancel]
    obtain ⟨reader', req', hread, H', hreq⟩ := readOneReq_record (H.move n) C hne (by
      change n < reader.nTotalReq
      omega) req
    have htotal' : reader'.nTotalReq = n + 1 := (H'.total.trans H.total.symm).trans htotal
    obtain ⟨reqs, final, D, hreqs, hfinal⟩ := delivers_backwards C hne H' (by omega) hreq
    have htrace : idsOf reqs = (traceIds (fieldsOf items) idx file).reverse := by
      rw [hreqs, traceIds, List.map_reverse, hn, Nat.mul_div_cancel_left _ hpos]
    have hlen : reqs.length = n + 1 := by
      have := congrArg List.length hreqs
      rwa [idsOf, List.length_map, List.length_map, List.length_reverse, List.length_range] at this
    refine ⟨final.reset, ?_, hfinal⟩
    cases reqs with
    | nil => cases hlen
    | cons req₁ reqs =>
      have hrest : idsOf reqs = (traceIds (fieldsOf items) idx file).dropLast.reverse := by
        have := congrArg List.tail htrace
        rwa [idsOf_cons, List.tail_cons, List.tail_reverse] at this
      have hfuel' : (req₁ :: reqs).length < fuel := by
        rw [traceIds, List.length_map, List.length_range, hn, Nat.mul_div_cancel_left _ hpos] at hfuel
        omega
      have hloop := distLoop_backwards D [] (hadd req₁ reqs) rfl hfuel'
      rw [hrest, List.reverse_cons, List.append_nil, ← List.map_reverse] at hloop
      rw [distBackwards, hback, hread]
      dsimp only [Except.mapError, Except.bind]
      rw [htotal', ← hlen, ← hloop, List.map_nil, List.append_nil]
      rfl

theorem readerAt_setup {lead : List Char} (hlead : ∀ c ∈ lead, c.isAlphanum = false) (hne : items ≠ [])
    (hsize : widthOf (fieldsOf items) < 2 ^ 31) (C : Chosen (fieldsOf items) initParams idx)
    (file : List UInt8) : ∃ reader, binaryReaderSetup initParams (fmtText lead items) file = .ok reader ∧
      ReaderAt initParams items file 0 reader := by
  have hid : initParams .objId ≠ -1 := by
    have := (C.chosen .objId (by decide)).1
    omega
  obtain ⟨st, N, hsetup⟩ := binaryReaderSetup_ok hlead hne hsize hid file
  exact ⟨_, hsetup, rfl, (Nat.zero_mul _).symm, N.itemSize, rfl, N.absent, N.params⟩

theorem traceIds_ne_nil (idx : TraceField → Nat) (hne : items ≠ []) (hfile : widthOf (fieldsOf items) ≤ file.length) :
    traceIds (fieldsOf items) idx file ≠ [] := by
  refine List.ne_nil_of_length_pos ?_
  rw [traceIds, List.length_map, List.length_range]
  exact Nat.div_pos hfile (widthOf_pos hne)

/-- **Forwards.** The distance functions count the objects or the requests since the last request for the
same object, or the requests since the first one, without the request that comes first. -/
theorem forwards_dists (lead : List Char) (hlead : ∀ c ∈ lead, c.isAlphanum = false) (hne : items ≠ [])
    (hsize : widthOf (fieldsOf items) < 2 ^ 31) (C : Chosen (fieldsOf items) initParams idx)
    (file : List UInt8) (hfile : widthOf (fieldsOf items) ≤ file.length) : ∃ reader,
    binaryReaderSetup initParams (fmtText lead items) file = .ok reader ∧
      ∀ fuel req, (traceIds (fieldsOf items) idx file).length < fuel →
        (∃ reader', getStackDist splayTree fuel reader req = .ok ((-1 :: (Reuse.distinctSince []
          (traceIds (fieldsOf items) idx file).tail).map toDist).map some, reader')) ∧
        (∃ reader', getLastAccessDist fuel reader req = .ok ((-1 :: (Reuse.since []
          (traceIds (fieldsOf items) idx file).tail).map toDist).map some, reader')) ∧
        ∃ reader', getFirstAccessDist fuel reader req = .ok ((-1 :: (Reuse.sinceFirst []
          (traceIds (fieldsOf items) idx file).tail).map toDist).map some, reader') := by
  obtain ⟨reader, hreader, H⟩ := readerAt_setup hlead hne hsize C file
  have hids := traceIds_ne_nil idx hne hfile
  refine ⟨reader, hreader, fun fuel req hfuel => ⟨?_, ?_, ?_⟩⟩
  · obtain ⟨reader', h, -⟩ := distForwards_ok (stackDistsOf splayTree) C hne H hfuel hids req
    refine ⟨reader', ?_⟩
    rw [← Reuse.dists_eq []]
    exact h
  · obtain ⟨reader', h, -⟩ := distForwards_ok lastDistsOf C hne H hfuel hids req
    exact ⟨reader', h⟩
  · obtain ⟨reader', h, -⟩ := distForwards_ok firstDistsOf C hne H hfuel hids req
    exact ⟨reader', h⟩

/-- **Backwards.** The trace is read from its end, and the arrays count the objects or the requests up to
the next request for the same object, without the request that comes last. -/
theorem backwards_dists (lead : List Char) (hlead : ∀ c ∈ lead, c.isAlphanum = false) (hne : items ≠ [])
    (hsize : widthOf (fieldsOf items) < 2 ^ 31) (C : Chosen (fieldsOf items) initParams idx)
    (file : List UInt8) (hfile : file ≠ []) (hwhole : widthOf (fieldsOf items) ∣ file.length) : ∃ reader,
    binaryReaderSetup initParams (fmtText lead items) file = .ok reader ∧
      ∀ fuel req, (traceIds (fieldsOf items) idx file).length < fuel →
        (∃ reader', getFutureStackDist splayTree fuel reader req = .ok (((Reuse.distinctUpTo
          (traceIds (fieldsOf items) idx file).dropLast).map toDist ++ [-1]).map some, reader')) ∧
        ∃ reader', getNextAccessDist fuel reader req = .ok (((Reuse.upTo
          (traceIds (fieldsOf items) idx file).dropLast).map toDist ++ [-1]).map some, reader') := by
  obtain ⟨reader, hreader, H⟩ := readerAt_setup hlead hne hsize C file
  have hids := traceIds_ne_nil idx hne
    (Nat.le_of_dvd (List.length_pos_iff.mpr hfile) hwhole)
  refine ⟨reader, hreader, fun fuel req hfuel => ⟨?_, ?_⟩⟩
  · obtain ⟨reader', h, -⟩ := distBackwards_ok (stackDistsOf splayTree) C hne H hfuel hwhole hids req
    rw [Reuse.dists_reverse, List.reverse_reverse] at h
    exact ⟨reader', h⟩
  · obtain ⟨reader', h, -⟩ := distBackwards_ok lastDistsOf C hne H hfuel hwhole hids req
    rw [Reuse.since_reverse, List.reverse_reverse] at h
    exact ⟨reader', h⟩

end

/-! ## A trace -/

/-- `IQI`: records of sixteen bytes, for the time, the object id and the size. -/
def recordItems : List FmtItem := [.of [] 'I' (.refl true), .of [] 'Q' (.refl true), .of [] 'I' (.refl true)]

def recordParams : TraceField → Int
  | .realTime => 1
  | .objId => 2
  | .objSize => 3
  | _ => 0

def recordIdx : TraceField → Nat
  | .objId => 1
  | .objSize => 2
  | _ => 0

/-- The ids 9, 5, 7, 5, 5, 7 and 9, of objects of 1, 2 and 3 bytes. -/
def fives : List UInt8 :=
  [(0, 9, 3), (1, 5, 1), (1, 7, 2), (2, 5, 1), (4, 5, 1), (4, 7, 2), (5, 9, 3)].flatMap
    fun (time, id, size) =>
      time :: List.replicate 3 0 ++ id :: List.replicate 7 0 ++ size :: List.replicate 3 0

theorem chosen_record : Chosen (fieldsOf recordItems) recordParams recordIdx := by
  refine ⟨fun fld hfld => ?_, fun fld hfld => ?_⟩
  · cases fld with
    | objId => exact ⟨rfl, 'Q', 8, rfl, by decide⟩
    | realTime | objSize => exact ⟨rfl, 'I', 4, rfl, by decide⟩
    | op | ttl | extra1 | extra2 => exact absurd hfld (by decide)
  · cases fld with
    | op | ttl | extra1 | extra2 => rfl
    | realTime | objId | objSize => exact absurd hfld (by decide)

theorem traceIds_fives : traceIds (fieldsOf recordItems) recordIdx fives = [9, 5, 7, 5, 5, 7, 9] := by
  decide

theorem fives_forwards : ∃ reader stack last first,
    binaryReaderSetup recordParams (fmtText [] recordItems) fives = .ok reader ∧
      getStackDist splayTree 8 reader ⟨0, 0, 0, 0, 0, true⟩ =
        .ok ([some (-1), some (-1), some (-1), some 1, some 0, some 1, some (-1)], stack) ∧
      getLastAccessDist 8 reader ⟨0, 0, 0, 0, 0, true⟩ =
        .ok ([some (-1), some (-1), some (-1), some 1, some 0, some 2, some (-1)], last) ∧
      getFirstAccessDist 8 reader ⟨0, 0, 0, 0, 0, true⟩ =
        .ok ([some (-1), some (-1), some (-1), some 1, some 2, some 2, some (-1)], first) := by
  obtain ⟨reader, hreader, h⟩ := forwards_dists [] (by simp) (by decide) (by decide) chosen_record fives
    (by decide)
  obtain ⟨⟨stack, hstack⟩, ⟨last, hlast⟩, first, hfirst⟩ := h 8 ⟨0, 0, 0, 0, 0, true⟩ (by decide)
  rw [traceIds_fives] at hstack hlast hfirst
  exact ⟨reader, stack, last, first, hreader, hstack, hlast, hfirst⟩

theorem fives_backwards : ∃ reader future next,
    binaryReaderSetup recordParams (fmtText [] recordItems) fives = .ok reader ∧
      getFutureStackDist splayTree 8 reader ⟨0, 0, 0, 0, 0, true⟩ =
        .ok ([some (-1), some 1, some 1, some 0, some (-1), some (-1), some (-1)], future) ∧
      getNextAccessDist 8 reader ⟨0, 0, 0, 0, 0, true⟩ =
        .ok ([some (-1), some 1, some 2, some 0, some (-1), some (-1), some (-1)], next) := by
  obtain ⟨reader, hreader, h⟩ := backwards_dists [] (by simp) (by decide) (by decide) chosen_record fives
    (by decide) (by decide)
  obtain ⟨⟨future, hfuture⟩, next, hnext⟩ := h 8 ⟨0, 0, 0, 0, 0, true⟩ (by decide)
  rw [traceIds_fives] at hfuture hnext
  exact ⟨reader, future, next, hreader, hfuture, hnext⟩

end C2DN.Simulator
