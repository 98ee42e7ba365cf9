import C2DN.Frontend.GoroutineLemmas

/-!
# Fetching the chunks of an object

What the `fetchChunk` goroutines and `handleChunk` keep true of `feTxn.ChunkStat` and `feTxn.Resps`.
A goroutine adds its response in four writes under `Mtx` (`store`, `mark`, `count`, `countData`), and
none of them is made after `TxnFinishCache.Set`.
-/

namespace C2DN.Frontend.Goroutines

open Monitor

/-! ## One goroutine -/

namespace FetchPc

/-- Its response is in `feTxn.Resps`. -/
@[simp] def stored : FetchPc → Bool
  | .mark | .count | .countData | .loadFailed | .loadAvailable _ | .signal | .unlock
  | .returned .kept => true
  | _ => false

/-- Its chunk is in `IsAvailable`. -/
@[simp] def marked : FetchPc → Bool
  | .mark => false
  | pc => pc.stored

/-- Its chunk is in `NumAvailable`. -/
@[simp] def counted : FetchPc → Bool
  | .count => false
  | pc => pc.marked

/-- Its chunk is in `NumDataAvailable`, if it is a data chunk. -/
@[simp] def dataCounted : FetchPc → Bool
  | .countData => false
  | pc => pc.counted

/-- The places from which the four writes are made. -/
@[simp] def writing : FetchPc → Bool
  | .store | .mark | .count | .countData => true
  | _ => false

/-- It has got a response with status 200. -/
@[simp] def answered : FetchPc → Bool
  | .debugFetch | .lock | .get | .store | .discard | .unlockDiscard | .returned .discarded => true
  | pc => pc.stored

/-- It has found enough chunks without its own. -/
@[simp] def skipping : FetchPc → Bool
  | .debugSkip | .skip | .returned .skipped => true
  | _ => false

/-- It has found the transaction decided. -/
@[simp] def late : FetchPc → Bool
  | .discard | .unlockDiscard | .returned .discarded => true
  | _ => false

/-- It has closed the body of its response. -/
@[simp] def closing : FetchPc → Bool
  | .unlockDiscard | .returned .discarded => true
  | _ => false

/-- The entry of `feTxn.Resps` for its chunk. -/
@[simp] def resp (n : Nat) (pc : FetchPc) : Option Nat := if pc.stored then some n else none

theorem critical_of_writing {pc : FetchPc} (h : pc.writing = true) : pc.critical = true := by
  cases pc <;> first | rfl | cases h

theorem stored_of_marked {pc : FetchPc} (h : pc.marked = true) : pc.stored = true := by
  cases pc <;> first | exact h | cases h

theorem not_closing_of_marked {pc : FetchPc} (h : pc.marked = true) :
    ¬ (pc.closing = true ∨ pc = .returned .failed) := by
  rintro (hc | rfl)
  · unfold closing at hc
    split at hc
    · cases h
    · cases h
    · cases hc
  · cases h

theorem counted_eq {pc : FetchPc} (h : pc.writing = false) : pc.counted = pc.marked := by
  cases pc <;> first | rfl | cases h

theorem dataCounted_eq {pc : FetchPc} (h : pc.writing = false) : pc.dataCounted = pc.marked := by
  cases pc <;> first | rfl | cases h

end FetchPc

/-- The `n`-th goroutine, for chunk `i`, between its steps. -/
structure FetchOk (p : Param) (reply : ChunkReply) (c : Chunks) (n i : Nat) (pc : FetchPc) :
    Prop where
  lt : i < p.ECN
  isAvailable : c.isAvailable[i]? = some pc.marked
  resps : c.resps[i]? = some (pc.resp n)
  data : pc = .countData → i < p.ECK
  answered : pc.answered = true → reply = .ok
  failed : pc = .returned .failed → reply ≠ .ok
  skipping : pc.skipping = true → p.ECK ≤ c.numAvailable
  late : pc.late = true → c.finished = true

/-- A step of the goroutine. -/
structure FetchEffect (p : Param) (reply : ChunkReply) (n i : Nat) (pc pc' : FetchPc)
    (c c' : Chunks) : Prop where
  isAvailable : c'.isAvailable = c.isAvailable.set i pc'.marked
  resps : c'.resps = c.resps.set i (pc'.resp n)
  numAvailable : c'.numAvailable + pc.counted.toNat = c.numAvailable + pc'.counted.toNat
  numDataAvailable : c'.numDataAvailable + (pc.dataCounted && decide (i < p.ECK)).toNat =
    c.numDataAvailable + (pc'.dataCounted && decide (i < p.ECK)).toNat
  numFailed : c'.numFailed = c.numFailed
  finished : c'.finished = c.finished
  grows : c.numAvailable ≤ c'.numAvailable
  data : pc' = .countData → i < p.ECK
  answered : pc'.answered = true → reply = .ok
  failed : pc' = .returned .failed → reply ≠ .ok
  skipping : pc'.skipping = true → p.ECK ≤ c'.numAvailable
  late : pc'.late = true → c'.finished = true
  /-- after the decision there are no more writes -/
  writing : c.finished = true → pc.writing = false → pc'.writing = false
  still : pc.writing = false → pc'.marked = pc.marked ∧ pc'.stored = pc.stored
  marked : pc.marked = true → pc'.marked = true
  closing : (pc.closing = true → pc'.closing = true) ∧ pc ≠ .returned .failed
  closed : c'.closed = c.closed ∧ (pc'.closing = true → pc.closing = true) ∨
    c'.closed = c.closed ++ [(.fetch n, n)] ∧ (pc'.closing = true ∨ pc' = .returned .failed)

section
variable {p : Param} {e : Env} {s s' : State} {n i : Nat} {t : Tid} {m m' : Monitor Tid}
  {reply : ChunkReply} {pc pc' : FetchPc} {c c' : Chunks}

theorem fetchStep_effect (h : fetchStep p reply n i pc c m = .ok (pc', c', m'))
    (hok : FetchOk p reply c n i pc) : FetchEffect p reply n i pc pc' c c' := by
  have hsame := set_eq_self hok.isAvailable
  have hresps := set_eq_self hok.resps
  have hdata := hok.data
  have hans := hok.answered
  have hskip := hok.skipping
  have hlate := hok.late
  clear hok
  cases pc
  all_goals
    simp only [fetchStep, map_eq_ok_iff, lock_eq_ok, unlock_eq_ok, appendDebugString_eq_ok] at h
  case start =>
    split at h
    · cases h
      split <;> constructor <;> simp_all
    · cases h
  case request =>
    cases reply
    all_goals cases h; constructor <;> simp_all
  case spin | check | get | count | loadAvailable =>
    cases h
    split <;> constructor <;> simp_all
  case debugSkip | debugFetch =>
    obtain ⟨_, _, h⟩ := h
    cases h
    constructor <;> simp_all
  case lock | unlock | unlockDiscard =>
    obtain ⟨_, ⟨hm, rfl⟩, h⟩ := h
    cases h
    constructor <;> simp_all
  case returned => cases h
  all_goals
    cases h
    constructor <;> simp_all

/-! ## All goroutines -/

/-- The chunks of a transaction and the goroutines that fetch them. -/
structure ChunkOk (p : Param) (e : Env) (c : Chunks) (fs : List Fetcher) : Prop where
  fetch : ∀ n f, fs[n]? = some f → FetchOk p (e.chunk f.chunkIdx) c n f.chunkIdx f.pc
  nodup : (fs.map (·.chunkIdx)).Nodup
  rest : ∀ i, i ∉ fs.map (·.chunkIdx) →
    c.isAvailable[i]? ≠ some true ∧ ∀ n, c.resps[i]? ≠ some (some n)
  numAvailable : c.numAvailable = fs.countP (·.pc.counted)
  numDataAvailable : c.numDataAvailable =
    fs.countP fun f => f.pc.dataCounted && decide (f.chunkIdx < p.ECK)
  count : c.isAvailable.count true = fs.countP (·.pc.marked)
  countData : (c.isAvailable.take p.ECK).count true =
    fs.countP fun f => f.pc.marked && decide (f.chunkIdx < p.ECK)
  numFailed : c.numFailed = 0
  frozen : c.finished = true → ∀ f ∈ fs, f.pc.writing = false

/-- Who closes the body of the response of goroutine `n`: the goroutine itself, or the one that has
sent the object. -/
def Closer (t : Tid) (n : Nat) (pc : FetchPc) : Prop :=
  t = .fetch n ∧ (pc.closing = true ∨ pc = .returned .failed) ∨ t = .pipe ∧ pc.marked = true

/-- The bodies that have been closed. -/
structure BodiesOk (c : Chunks) (fs : List Fetcher) : Prop where
  closed : ∀ t n, (t, n) ∈ c.closed → ∃ f, fs[n]? = some f ∧ Closer t n f.pc
  closing : ∀ n f, fs[n]? = some f → f.pc.closing = true → (.fetch n, n) ∈ c.closed

variable {fs : List Fetcher} {f : Fetcher}

/-- The goroutines other than the one that takes the step. -/
theorem FetchOk.of_other {k j : Nat} {g : FetchPc} {reply' : ChunkReply}
    (hok : FetchOk p reply' c k j g) (heff : FetchEffect p reply n i pc pc' c c') (hj : i ≠ j) :
    FetchOk p reply' c' k j g where
  lt := hok.lt
  isAvailable := by rw [heff.isAvailable, List.getElem?_set_ne hj]; exact hok.isAvailable
  resps := by rw [heff.resps, List.getElem?_set_ne hj]; exact hok.resps
  data := hok.data
  answered := hok.answered
  failed := hok.failed
  skipping h := Nat.le_trans (hok.skipping h) heff.grows
  late h := by rw [heff.finished]; exact hok.late h

theorem FetchOk.of_effect (hok : FetchOk p reply c n i pc)
    (heff : FetchEffect p reply n i pc pc' c c') : FetchOk p reply c' n i pc' where
  lt := hok.lt
  isAvailable := by rw [heff.isAvailable]; exact getElem?_moved_self hok.isAvailable
  resps := by rw [heff.resps]; exact getElem?_moved_self hok.resps
  data := heff.data
  answered := heff.answered
  failed := heff.failed
  skipping := heff.skipping
  late := heff.late

/-- A step of one `fetchChunk` goroutine. -/
theorem ChunkOk.fetchStep (hI : ChunkOk p e c fs) (hf : fs[n]? = some f)
    (h : fetchStep p (e.chunk f.chunkIdx) n f.chunkIdx f.pc c m = .ok (pc', c', m')) :
    ChunkOk p e c' (fs.set n { f with pc := pc' }) := by
  have hok := hI.fetch n f hf
  have heff := fetchStep_effect h hok
  have hmap := map_moved (f := (·.chunkIdx)) (b := { f with pc := pc' }) hf rfl
  refine ⟨?_, ?_, ?_, ?_, ?_, ?_, ?_, ?_, ?_⟩
  · intro k g hg
    obtain ⟨rfl, rfl⟩ | ⟨hk, hg⟩ := getElem?_moved hg
    · exact hok.of_effect heff
    · exact (hI.fetch k g hg).of_other heff (ne_of_nodup_map hI.nodup hf hg (Ne.symm hk))
  · rw [hmap]; exact hI.nodup
  · intro i hi
    rw [hmap] at hi
    have hne : f.chunkIdx ≠ i := by
      rintro rfl
      exact hi (List.mem_map_of_mem (List.mem_of_getElem? hf))
    rw [heff.isAvailable, heff.resps, List.getElem?_set_ne hne, List.getElem?_set_ne hne]
    exact hI.rest i hi
  · have hmoved := countP_moved (q := fun f => f.pc.counted) (b := { f with pc := pc' }) hf
    have hnum := heff.numAvailable
    rw [hI.numAvailable] at hnum
    exact Nat.add_right_cancel (hnum.trans hmoved.symm)
  · have hmoved := countP_moved (q := fun f => f.pc.dataCounted && decide (f.chunkIdx < p.ECK))
      (b := { f with pc := pc' }) hf
    have hnum := heff.numDataAvailable
    rw [hI.numDataAvailable] at hnum
    exact Nat.add_right_cancel (hnum.trans hmoved.symm)
  · have hmoved := countP_moved (q := fun f => f.pc.marked) (b := { f with pc := pc' }) hf
    have hnum := count_moved (b := pc'.marked) hok.isAvailable
    rw [hI.count, ← heff.isAvailable] at hnum
    exact Nat.add_right_cancel (hnum.trans hmoved.symm)
  · have hmoved := countP_moved (q := fun f => f.pc.marked && decide (f.chunkIdx < p.ECK))
      (b := { f with pc := pc' }) hf
    have hnum := count_take_moved (n := p.ECK) (b := pc'.marked) hok.isAvailable
    rw [hI.countData, ← heff.isAvailable] at hnum
    exact Nat.add_right_cancel (hnum.trans hmoved.symm)
  · rw [heff.numFailed]; exact hI.numFailed
  · intro hfin g hg
    rw [heff.finished] at hfin
    obtain hg | rfl := List.mem_or_eq_of_mem_set hg
    · exact hI.frozen hfin g hg
    · exact heff.writing hfin (hI.frozen hfin f (List.mem_of_getElem? hf))

theorem Closer.of_effect (h : Closer t n pc) (heff : FetchEffect p reply n i pc pc' c c') :
    Closer t n pc' := by
  obtain ⟨ht, hpc | hpc⟩ | ⟨ht, hpc⟩ := h
  · exact .inl ⟨ht, .inl (heff.closing.1 hpc)⟩
  · exact absurd hpc heff.closing.2
  · exact .inr ⟨ht, heff.marked hpc⟩

theorem BodiesOk.fetchStep (hB : BodiesOk c fs) (hf : fs[n]? = some f)
    (heff : FetchEffect p reply n i f.pc pc' c c') :
    BodiesOk c' (fs.set n { f with pc := pc' }) := by
  have hold : ∀ t k, (t, k) ∈ c.closed →
      ∃ g, (fs.set n { f with pc := pc' })[k]? = some g ∧ Closer t k g.pc := by
    intro t k hk
    obtain ⟨g, hg, hwho⟩ := hB.closed t k hk
    by_cases hkn : k = n
    · subst hkn
      obtain rfl : f = g := Option.some.inj (hf.symm.trans hg)
      exact ⟨_, getElem?_moved_self hf, hwho.of_effect heff⟩
    · exact ⟨g, (List.getElem?_set_ne (Ne.symm hkn)).trans hg, hwho⟩
  obtain ⟨hclosed, hpc'⟩ | ⟨hclosed, hpc'⟩ := heff.closed
  · refine ⟨fun t k hk => hold t k (hclosed ▸ hk), fun k g hg hpc => ?_⟩
    rw [hclosed]
    obtain ⟨rfl, rfl⟩ | ⟨_, hg⟩ := getElem?_moved hg
    · exact hB.closing k f hf (hpc' hpc)
    · exact hB.closing k g hg hpc
  · refine ⟨fun t k hk => ?_, fun k g hg hpc => ?_⟩
    · obtain hk | hk := List.mem_append.1 (hclosed ▸ hk)
      · exact hold t k hk
      · obtain ⟨rfl, rfl⟩ := Prod.mk.inj (List.mem_singleton.1 hk)
        exact ⟨_, getElem?_moved_self hf, .inl ⟨rfl, hpc'⟩⟩
    · rw [hclosed]
      obtain ⟨rfl, rfl⟩ | ⟨_, hg⟩ := getElem?_moved hg
      · exact List.mem_append_right _ (List.mem_singleton.2 rfl)
      · exact List.mem_append_left _ (hB.closing k g hg hpc)

/-! ## `handleChunk` -/

structure Sized (p : Param) (c : Chunks) : Prop where
  isAvailable : c.isAvailable.length = p.ECN + 1
  resps : c.resps.length = p.ECN + 1

/-- `handleChunk` starts one more goroutine. -/
theorem ChunkOk.start (hI : ChunkOk p e c fs) (hsize : Sized p c) (hi : i < p.ECN)
    (hlt : ∀ f ∈ fs, f.chunkIdx < i) : ChunkOk p e c (fs ++ [⟨i, .start⟩]) := by
  have hnew : i ∉ fs.map (·.chunkIdx) := by
    intro h
    obtain ⟨f, hf, rfl⟩ := List.mem_map.1 h
    exact Nat.lt_irrefl _ (hlt f hf)
  obtain ⟨havail, hresp⟩ := hI.rest i hnew
  have hok : FetchOk p (e.chunk i) c fs.length i .start := by
    refine ⟨hi, ?_, ?_, nofun, nofun, nofun, nofun, nofun⟩
    · have hlen : i < c.isAvailable.length := by rw [hsize.isAvailable]; omega
      rw [List.getElem?_eq_getElem hlen] at havail ⊢
      simpa using havail
    · have hlen : i < c.resps.length := by rw [hsize.resps]; omega
      rw [List.getElem?_eq_getElem hlen] at hresp ⊢
      cases hget : c.resps[i] with
      | none => rfl
      | some n => exact absurd (congrArg some hget) (hresp n)
  refine ⟨?_, ?_, ?_, ?_, ?_, ?_, ?_, hI.numFailed, ?_⟩
  · intro n f hf
    obtain hf | ⟨rfl, rfl⟩ := getElem?_started hf
    · exact hI.fetch n f hf
    · exact hok
  · rw [List.map_append, List.map_singleton]
    exact List.nodup_append.2 ⟨hI.nodup, List.pairwise_singleton _ _, by
      intro a ha b hb
      rw [List.mem_singleton.1 hb]
      rintro rfl
      exact hnew ha⟩
  · intro j hj
    rw [List.map_append, List.mem_append, not_or] at hj
    exact hI.rest j hj.1
  · simpa using hI.numAvailable
  · simpa using hI.numDataAvailable
  · simpa using hI.count
  · simpa using hI.countData
  · intro hfin f hf
    obtain hf | hf := List.mem_append.1 hf
    · exact hI.frozen hfin f hf
    · rw [List.mem_singleton.1 hf]; rfl

theorem BodiesOk.start (hB : BodiesOk c fs) : BodiesOk c (fs ++ [⟨i, .start⟩]) := by
  refine ⟨fun t n hn => ?_, fun n f hf hpc => ?_⟩
  · obtain ⟨f, hf, hwho⟩ := hB.closed t n hn
    have hlt := (List.getElem?_eq_some_iff.1 hf).1
    exact ⟨f, (List.getElem?_append_left hlt).trans hf, hwho⟩
  · obtain hf | ⟨_, rfl⟩ := getElem?_started hf
    · exact hB.closing n f hf hpc
    · cases hpc

/-- `handleChunk` has not made its slices. -/
structure Before (s : State) : Prop where
  fetchers : s.fetchers = []
  finished : s.chunk.finished = false
  noDecode : s.noDecode = none

/-- `handleChunk` has not decided yet. -/
structure Open (p : Param) (s : State) : Prop where
  sized : Sized p s.chunk
  finished : s.chunk.finished = false
  noDecode : s.noDecode = none

/-- `handleChunk` has decided: enough chunks are there. -/
structure Decided (p : Param) (s : State) : Prop where
  sized : Sized p s.chunk
  finished : s.chunk.finished = true
  enough : p.ECK ≤ s.chunk.numAvailable

/-- How far `handleChunk` has come. -/
def Phase (p : Param) (s : State) : Prop :=
  match s.main with
  | .fetchLoop i | .missLock i | .missAppend i => Open p s ∧ ∀ f ∈ s.fetchers, f.chunkIdx < i
  | .lockAvail | .loadAvail | .loadFailed | .waitAvail | .sleepAvail => Open p s
  | .unlockAvail | .checkFailed | .debugReady | .lockFinish | .setFinish =>
    Open p s ∧ p.ECK ≤ s.chunk.numAvailable
  | .tooManyFailed => False
  | .unlockFinish | .answer | .choose => Decided p s ∧ s.noDecode = none
  | .startPipe b =>
    Decided p s ∧ s.noDecode = none ∧ b = decide (s.chunk.numDataAvailable = p.ECK)
  | .returned =>
    Before s ∨ Decided p s ∧ s.noDecode = some (decide (s.chunk.numDataAvailable = p.ECK))
  | _ => Before s

theorem mainStep_phase (h : mainStep p e s = .ok s') (hI : ChunkOk p e s.chunk s.fetchers)
    (hph : Phase p s) : Phase p s' := by
  cases hpc : s.main
  all_goals
    simp only [mainStep, hpc, map_eq_ok_iff, lock_eq_ok, unlock_eq_ok, wait_eq_ok, wake_eq_ok,
      appendDebugString_eq_ok] at h
    simp only [Phase, hpc] at hph
  -- before `handleChunk` nothing touches the chunks
  case frontendMain | serveFull =>
    split at h
    all_goals try split at h
    all_goals
      cases h
      first
      | exact .inl ⟨hph.1, hph.2, hph.3⟩
      | exact ⟨hph.1, hph.2, hph.3⟩
  case startCheck =>
    split at h
    all_goals try split at h
    all_goals cases h; exact ⟨hph.1, hph.2, hph.3⟩
  case resetCheck | makeIsPeerHit | setObjType => cases h; exact ⟨hph.1, hph.2, hph.3⟩
  case loadCheck =>
    cases h
    split <;> exact ⟨hph.1, hph.2, hph.3⟩
  case lockCheck | waitCheck | unlockCheck =>
    obtain ⟨_, ⟨_, rfl⟩, rfl⟩ := h
    exact ⟨hph.1, hph.2, hph.3⟩
  case sleepCheck =>
    obtain ⟨_, ⟨_, _, rfl⟩, rfl⟩ := h
    exact ⟨hph.1, hph.2, hph.3⟩
  case debugLocal | restart =>
    obtain ⟨_, _, rfl⟩ := h
    exact ⟨hph.1, hph.2, hph.3⟩
  case readLocalHit =>
    split at h
    · cases h
    · cases h
      split <;> exact ⟨hph.1, hph.2, hph.3⟩
  case readAlternateHit =>
    split at h
    · cases h
    · cases h; exact ⟨hph.1, hph.2, hph.3⟩
  case dispatch =>
    cases h
    split
    · split
      · exact ⟨hph.1, hph.2, hph.3⟩
      · exact ⟨hph.1, hph.2, hph.3⟩
      · exact .inl ⟨hph.1, hph.2, hph.3⟩
    · exact ⟨hph.1, hph.2, hph.3⟩
  case fullObj =>
    split at h
    · cases h
      exact .inl ⟨hph.1, hph.2, hph.3⟩
    · obtain ⟨_, _, rfl⟩ := map_eq_ok_iff.1 h
      exact ⟨hph.1, hph.2, hph.3⟩
    · obtain ⟨_, _, rfl⟩ := map_eq_ok_iff.1 h
      split <;> exact ⟨hph.1, hph.2, hph.3⟩
  case markHit =>
    split at h
    all_goals
      obtain ⟨s₁, hs₁, rfl⟩ := map_eq_ok_iff.1 h
      obtain ⟨_, rfl⟩ := setPeerHit_eq_ok.1 hs₁
      split <;> exact ⟨hph.1, hph.2, hph.3⟩
  -- `handleChunk`
  case handleChunk =>
    cases h
    refine ⟨⟨⟨List.length_replicate, List.length_replicate⟩, hph.finished, hph.noDecode⟩, ?_⟩
    intro f hf
    rw [show s.fetchers = [] from hph.fetchers] at hf
    cases hf
  case fetchLoop i =>
    obtain ⟨hopen, hlt⟩ := hph
    have hfetch (hi : i < p.ECN) : Phase p (s.fetch p i) := by
      refine ⟨⟨hopen.1, hopen.2, hopen.3⟩, fun f hf => ?_⟩
      obtain hf | hf := List.mem_append.1 hf
      · exact Nat.lt_succ_of_lt (hlt f hf)
      · rw [List.mem_singleton.1 hf, Param.fetchIdx, if_neg (by omega)]
        exact Nat.lt_succ_self i
    split at h
    · cases h; exact ⟨hopen.1, hopen.2, hopen.3⟩
    · split at h
      · next hi => cases h; exact hfetch (Nat.lt_of_lt_of_le hi p.le)
      · split at h
        · next hi =>
          split at h
          · cases h; exact hfetch hi
          · cases h; exact ⟨⟨hopen.1, hopen.2, hopen.3⟩, hlt⟩
        · cases h
          exact ⟨⟨hopen.1, hopen.2, hopen.3⟩, fun f hf => Nat.lt_succ_of_lt (hlt f hf)⟩
  case missLock =>
    obtain ⟨_, ⟨_, rfl⟩, rfl⟩ := h
    exact ⟨⟨hph.1.1, hph.1.2, hph.1.3⟩, hph.2⟩
  case missAppend =>
    obtain ⟨_, ⟨_, rfl⟩, rfl⟩ := h
    exact ⟨⟨⟨hph.1.1.1, hph.1.1.2⟩, hph.1.2, hph.1.3⟩, fun f hf => Nat.lt_succ_of_lt (hph.2 f hf)⟩
  case lockAvail | waitAvail =>
    obtain ⟨_, ⟨_, rfl⟩, rfl⟩ := h
    exact ⟨hph.1, hph.2, hph.3⟩
  case sleepAvail =>
    obtain ⟨_, ⟨_, _, rfl⟩, rfl⟩ := h
    exact ⟨hph.1, hph.2, hph.3⟩
  case loadAvail =>
    cases h
    split
    · exact ⟨hph.1, hph.2, hph.3⟩
    · next hnum => exact ⟨⟨hph.1, hph.2, hph.3⟩, Nat.le_of_not_lt hnum⟩
  case loadFailed =>
    cases h
    split
    · exact ⟨hph.1, hph.2, hph.3⟩
    · next hnum =>
      -- no failure is ever counted
      rw [hI.numFailed, Nat.zero_add] at hnum
      exact absurd p.le hnum
  case unlockAvail | lockFinish =>
    obtain ⟨_, ⟨_, rfl⟩, rfl⟩ := h
    exact ⟨⟨hph.1.1, hph.1.2, hph.1.3⟩, hph.2⟩
  case checkFailed =>
    cases h
    split
    · next hnum =>
      rw [hI.numFailed, Nat.zero_add] at hnum
      exact absurd p.le (Nat.not_le.2 hnum)
    · exact ⟨⟨hph.1.1, hph.1.2, hph.1.3⟩, hph.2⟩
  case debugReady =>
    obtain ⟨_, _, rfl⟩ := h
    exact ⟨⟨hph.1.1, hph.1.2, hph.1.3⟩, hph.2⟩
  case setFinish =>
    cases h
    exact ⟨⟨⟨hph.1.1.1, hph.1.1.2⟩, rfl, hph.2⟩, hph.1.3⟩
  case unlockFinish =>
    obtain ⟨_, ⟨_, rfl⟩, rfl⟩ := h
    exact ⟨⟨hph.1.1, hph.1.2, hph.1.3⟩, hph.2⟩
  case answer => cases h; exact ⟨⟨hph.1.1, hph.1.2, hph.1.3⟩, hph.2⟩
  case choose => cases h; exact ⟨⟨hph.1.1, hph.1.2, hph.1.3⟩, hph.2, rfl⟩
  case startPipe =>
    obtain ⟨_, _, rfl⟩ := h
    exact .inr ⟨⟨hph.1.1, hph.1.2, hph.1.3⟩, congrArg some hph.2.2⟩
  case returned => cases h

theorem ChunkOk.make (hI : ChunkOk p e c []) :
    ChunkOk p e { c with
      resps := List.replicate (p.ECN + 1) none
      isAvailable := List.replicate (p.ECN + 1) false } [] := by
  refine ⟨nofun, List.nodup_nil, ?_, hI.numAvailable, hI.numDataAvailable, ?_, ?_, hI.numFailed, nofun⟩
  · intro i _
    refine ⟨?_, fun n => ?_⟩
    all_goals rw [List.getElem?_replicate]; split <;> nofun
  · rw [List.count_replicate]; rfl
  · rw [List.take_replicate, List.count_replicate]; rfl

/-- A step that touches none of the four variables, with the decision perhaps. -/
theorem ChunkOk.congr (hI : ChunkOk p e c fs) (havail : c'.isAvailable = c.isAvailable)
    (hresps : c'.resps = c.resps) (hnum : c'.numAvailable = c.numAvailable)
    (hdata : c'.numDataAvailable = c.numDataAvailable) (hfailed : c'.numFailed = c.numFailed)
    (hfin : c.finished = true → c'.finished = true)
    (hfrozen : c'.finished = true → ∀ f ∈ fs, f.pc.writing = false) : ChunkOk p e c' fs where
  fetch n f hf := by
    have hok := hI.fetch n f hf
    exact ⟨hok.lt, havail ▸ hok.isAvailable, hresps ▸ hok.resps, hok.data, hok.answered, hok.failed,
      hnum ▸ hok.skipping, fun hl => hfin (hok.late hl)⟩
  nodup := hI.nodup
  rest := by rw [havail, hresps]; exact hI.rest
  numAvailable := hnum.trans hI.numAvailable
  numDataAvailable := hdata.trans hI.numDataAvailable
  count := by rw [havail]; exact hI.count
  countData := by rw [havail]; exact hI.countData
  numFailed := hfailed.trans hI.numFailed
  frozen := hfrozen

/-- Everything that is true of the chunks between the steps of the transaction. -/
structure ChunkInv (p : Param) (e : Env) (s : State) : Prop where
  mutex : MutexHeld s
  chunks : ChunkOk p e s.chunk s.fetchers
  bodies : BodiesOk s.chunk s.fetchers
  phase : Phase p s

theorem start_chunkInv : ChunkInv p e Goroutines.start where
  mutex := mutexHeld_of_alone rfl rfl rfl
  chunks := ⟨nofun, List.nodup_nil, fun _ _ => ⟨nofun, nofun⟩, rfl, rfl, rfl, by simp [Goroutines.start], rfl, nofun⟩
  bodies := ⟨nofun, nofun⟩
  phase := ⟨rfl, rfl, rfl⟩

theorem mainStep_chunks (h : mainStep p e s = .ok s') (hI : ChunkInv p e s) :
    ChunkOk p e s'.chunk s'.fetchers ∧ BodiesOk s'.chunk s'.fetchers := by
  have hph := hI.phase
  cases (mainStep_frame h).chunks with
  | same hc hf =>
    rw [hc, hf]
    exact ⟨hI.chunks, hI.bodies⟩
  | make hpc hf hc =>
    simp only [Phase, hpc] at hph
    have hnil := hph.fetchers
    rw [hc, hf]
    have hchunks := hI.chunks
    have hbodies := hI.bodies
    rw [hnil] at hchunks hbodies ⊢
    exact ⟨hchunks.make, ⟨hbodies.1, hbodies.2⟩⟩
  | fetch i hpc hi hc hf =>
    simp only [Phase, hpc] at hph
    rw [hc, hf]
    exact ⟨hI.chunks.start hph.1.sized hi hph.2, hI.bodies.start⟩
  | miss i hf hc =>
    rw [hc, hf]
    exact ⟨hI.chunks.congr rfl rfl rfl rfl rfl id hI.chunks.frozen, ⟨hI.bodies.1, hI.bodies.2⟩⟩
  | finish hpc hf hc =>
    rw [hc, hf]
    refine ⟨hI.chunks.congr rfl rfl rfl rfl rfl (fun _ => rfl) fun _ f hf => ?_, ⟨hI.bodies.1, hI.bodies.2⟩⟩
    -- `Set` is called under `Mtx`, when no goroutine is at its writes
    obtain ⟨n, hn⟩ := List.mem_iff_getElem?.1 hf
    cases hw : f.pc.writing with
    | false => rfl
    | true =>
      have hmain : s.Critical .main := by change s.main.critical = true; rw [hpc]; rfl
      have hfetch : s.Critical (.fetch n) := ⟨f, hn, FetchPc.critical_of_writing hw⟩
      cases hI.mutex.eq hmain hfetch
  | failed hpc =>
    simp only [Phase, hpc] at hph

/-- What the other goroutines leave of what `handleChunk` has found. -/
structure PhaseFrame (p : Param) (s s' : State) : Prop where
  main : s'.main = s.main
  noDecode : s'.noDecode = s.noDecode
  chunkIdx : s'.fetchers.map (·.chunkIdx) = s.fetchers.map (·.chunkIdx)
  sized : Sized p s.chunk → Sized p s'.chunk
  finished : s'.chunk.finished = s.chunk.finished
  numAvailable : s.chunk.numAvailable ≤ s'.chunk.numAvailable
  numDataAvailable : s.chunk.finished = true →
    s'.chunk.numDataAvailable = s.chunk.numDataAvailable

namespace PhaseFrame

theorem before (hfr : PhaseFrame p s s') (h : Before s) : Before s' where
  fetchers := List.map_eq_nil_iff.1 (hfr.chunkIdx.trans (by rw [h.fetchers]; rfl))
  finished := hfr.finished.trans h.finished
  noDecode := hfr.noDecode.trans h.noDecode

theorem opened (hfr : PhaseFrame p s s') (h : Open p s) : Open p s' where
  sized := hfr.sized h.sized
  finished := hfr.finished.trans h.finished
  noDecode := hfr.noDecode.trans h.noDecode

theorem decided (hfr : PhaseFrame p s s') (h : Decided p s) : Decided p s' where
  sized := hfr.sized h.sized
  finished := hfr.finished.trans h.finished
  enough := Nat.le_trans h.enough hfr.numAvailable

theorem phase (hfr : PhaseFrame p s s') (h : Phase p s) : Phase p s' := by
  have hlt : ∀ i, (∀ f ∈ s.fetchers, f.chunkIdx < i) → ∀ f ∈ s'.fetchers, f.chunkIdx < i := by
    intro i h f hf
    have hmem := List.mem_map_of_mem (f := (·.chunkIdx)) hf
    rw [hfr.chunkIdx] at hmem
    obtain ⟨g, hg, heq⟩ := List.mem_map.1 hmem
    exact heq ▸ h g hg
  unfold Phase at h ⊢
  rw [hfr.main]
  cases hpc : s.main
  all_goals simp only [hpc] at h ⊢
  case fetchLoop | missLock | missAppend => exact ⟨hfr.opened h.1, hlt _ h.2⟩
  case lockAvail | loadAvail | loadFailed | waitAvail | sleepAvail => exact hfr.opened h
  case unlockAvail | checkFailed | debugReady | lockFinish | setFinish =>
    exact ⟨hfr.opened h.1, Nat.le_trans h.2 hfr.numAvailable⟩
  case unlockFinish | answer | choose => exact ⟨hfr.decided h.1, hfr.noDecode.trans h.2⟩
  case startPipe =>
    rw [hfr.numDataAvailable h.1.finished, hfr.noDecode]
    exact ⟨hfr.decided h.1, h.2⟩
  case returned =>
    obtain h | ⟨hdec, h⟩ := h
    · exact .inl (hfr.before h)
    · rw [hfr.numDataAvailable hdec.finished, hfr.noDecode]
      exact .inr ⟨hfr.decided hdec, h⟩
  all_goals exact hfr.before h

end PhaseFrame

/-- After the decision a goroutine changes none of the four variables. -/
theorem FetchEffect.still_eq (heff : FetchEffect p reply n i pc pc' c c')
    (hok : FetchOk p reply c n i pc) (hw : pc.writing = false) (hw' : pc'.writing = false) :
    c'.isAvailable = c.isAvailable ∧ c'.resps = c.resps ∧ c'.numAvailable = c.numAvailable ∧
      c'.numDataAvailable = c.numDataAvailable := by
  obtain ⟨hmarked, hstored⟩ := heff.still hw
  have hnum := heff.numAvailable
  have hdata := heff.numDataAvailable
  rw [FetchPc.counted_eq hw, FetchPc.counted_eq hw', hmarked] at hnum
  rw [FetchPc.dataCounted_eq hw, FetchPc.dataCounted_eq hw', hmarked] at hdata
  refine ⟨?_, ?_, Nat.add_right_cancel hnum, Nat.add_right_cancel hdata⟩
  · rw [heff.isAvailable, hmarked]; exact set_eq_self hok.isAvailable
  · rw [heff.resps, FetchPc.resp, hstored]; exact set_eq_self hok.resps

theorem fetchStep_phaseFrame (hI : ChunkOk p e s.chunk s.fetchers) (hf : s.fetchers[n]? = some f)
    (heff : FetchEffect p (e.chunk f.chunkIdx) n f.chunkIdx f.pc pc' s.chunk c') :
    PhaseFrame p s
      { s with fetchers := s.fetchers.set n { f with pc := pc' }, chunk := c', mon := m' } where
  main := rfl
  noDecode := rfl
  chunkIdx := map_moved (f := (·.chunkIdx)) (b := { f with pc := pc' }) hf rfl
  sized h := ⟨by rw [heff.isAvailable, List.length_set]; exact h.isAvailable,
    by rw [heff.resps, List.length_set]; exact h.resps⟩
  finished := heff.finished
  numAvailable := heff.grows
  numDataAvailable hfin := by
    have hw := hI.frozen hfin f (List.mem_of_getElem? hf)
    exact (heff.still_eq (hI.fetch n f hf) hw (heff.writing hfin hw)).2.2.2

/-- Whose response an entry of `feTxn.Resps` is. -/
theorem ChunkOk.resp_eq (hI : ChunkOk p e c fs) (h : c.resps[i]? = some (some n)) :
    ∃ f, fs[n]? = some f ∧ f.chunkIdx = i ∧ f.pc.stored = true := by
  have hmem : i ∈ fs.map (·.chunkIdx) := by
    by_contra hi
    exact (hI.rest i hi).2 n h
  obtain ⟨f, hf, rfl⟩ := List.mem_map.1 hmem
  obtain ⟨k, hk⟩ := List.mem_iff_getElem?.1 hf
  have hresp := (hI.fetch k f hk).resps.symm.trans h
  rw [FetchPc.resp, Option.some.injEq] at hresp
  split at hresp
  · next hst => cases hresp; exact ⟨f, hk, rfl, hst⟩
  · cases hresp

/-- The goroutine that sends the object closes the bodies of available chunks. -/
theorem pipeStep_bodies (hI : ChunkInv p e s) (h : pipeStep p s = .ok s') :
    BodiesOk s'.chunk s'.fetchers := by
  unfold pipeStep at h
  split at h
  · obtain ⟨_, _, rfl⟩ := map_eq_ok_iff.1 h
    exact ⟨hI.bodies.1, hI.bodies.2⟩
  · split at h
    · next r hr ha =>
      split at h
      · next k =>
        cases h
        refine ⟨fun t n hn => ?_, fun n f hf hpc => ?_⟩
        · obtain hn | hn := List.mem_append.1 hn
          · exact hI.bodies.closed t n hn
          · obtain ⟨rfl, rfl⟩ := Prod.mk.inj (List.mem_singleton.1 hn)
            obtain ⟨f, hf, rfl, _⟩ := hI.chunks.resp_eq hr
            refine ⟨f, hf, .inr ⟨rfl, ?_⟩⟩
            exact Option.some.inj ((hI.chunks.fetch _ f hf).isAvailable.symm.trans ha)
        · exact List.mem_append_left _ (hI.bodies.closing n f hf hpc)
      · cases h
    · cases h; exact ⟨hI.bodies.1, hI.bodies.2⟩
    · cases h
    · cases h; exact ⟨hI.bodies.1, hI.bodies.2⟩
  · cases h
  · cases h

theorem step_chunkInv (hI : ChunkInv p e s) (h : step p e s t = .ok s') : ChunkInv p e s' := by
  have hmutex := step_mutexHeld hI.mutex h
  cases stepOf h with
  | main hstep =>
    obtain ⟨hchunks, hbodies⟩ := mainStep_chunks hstep hI
    exact ⟨hmutex, hchunks, hbodies, mainStep_phase hstep hI.chunks hI.phase⟩
  | check =>
    refine ⟨hmutex, hI.chunks, hI.bodies, PhaseFrame.phase ?_ hI.phase⟩
    exact ⟨rfl, rfl, rfl, id, rfl, Nat.le_refl _, fun _ => rfl⟩
  | fetch hf hstep =>
    have heff := fetchStep_effect hstep (hI.chunks.fetch _ _ hf)
    exact ⟨hmutex, hI.chunks.fetchStep hf hstep, hI.bodies.fetchStep hf heff,
      (fetchStep_phaseFrame hI.chunks hf heff).phase hI.phase⟩
  | pipe hstep =>
    have hbodies := pipeStep_bodies hI hstep
    obtain ⟨pipe, closed, rfl⟩ := pipeStep_eq hstep
    refine ⟨hmutex, hI.chunks.congr rfl rfl rfl rfl rfl id hI.chunks.frozen, hbodies,
      PhaseFrame.phase ?_ hI.phase⟩
    exact ⟨rfl, rfl, rfl, fun h => ⟨h.1, h.2⟩, rfl, Nat.le_refl _, fun _ => rfl⟩

theorem run_chunkInv {ts : List Tid} (hI : ChunkInv p e s) (h : run p e ts s = .ok s') :
    ChunkInv p e s' :=
  inv_of_run (fun _ _ _ hI h => step_chunkInv hI h) hI h

end

end C2DN.Frontend.Goroutines
