import C2DN.Lib.Run
import C2DN.Simulator.Cluster

/-!
# What the operations of a cluster do to the servers

`get` changes servers only by writes of the requested object: it asks a server for the object and
sets the metadata of the copy (`Writes`). What a list of writes does to a server, whatever the path
of `get` they come from, is proved here once.
-/

namespace C2DN.Simulator

namespace CacheServer

/-- The metadata of a full object. -/
def fullInfo (info : ObjInfo) : ObjInfo := { info with objType := .fullObj }

/-- The metadata of a chunk. -/
def chunkInfo (chunkId : Nat) (_ : ObjInfo) : ObjInfo := ⟨.chunkObj, chunkId % 256⟩

end CacheServer

namespace Cluster
open CacheServer

theorem onServer_eq_ok {p : Params} {s s' : Cluster} {server : Nat}
    {f : CacheServer → Except Fault CacheServer} (h : s.onServer p server f = .ok s') :
    server < p.nServer ∧ ∃ c, f (s.servers server) = .ok c ∧
      s' = { s with servers := Function.update s.servers server c } := by
  unfold onServer at h
  split at h
  · next hlt =>
    cases hf : f (s.servers server) with
    | error e => rw [hf] at h; cases h
    | ok c =>
      rw [hf] at h
      cases h
      exact ⟨hlt, c, rfl, rfl⟩
  · cases h

theorem onServer_eq_error {p : Params} {s : Cluster} {server : Nat}
    {f : CacheServer → Except Fault CacheServer} {e : Fault} (hlt : server < p.nServer)
    (h : s.onServer p server f = .error e) : f (s.servers server) = .error e := by
  unfold onServer at h
  rw [if_pos hlt] at h
  cases hf : f (s.servers server) with
  | error e' => rw [hf] at h; cases h; rfl
  | ok c => rw [hf] at h; cases h

/-- None of the faults that come from the type of a copy. -/
def NoTypeFault (e : Fault) : Prop := e ≠ .notChunk ∧ e ≠ .unknownType

theorem noTypeFault_of_put {s : CacheServer} {id size : Nat} {t : CacheType}
    {f : ObjInfo → ObjInfo} {e : Fault} (h : s.put id size t f = .error e) : NoTypeFault e := by
  rcases put_fault h with rfl | rfl | ⟨rfl, -⟩ <;> exact ⟨nofun, nofun⟩

/-- A write of an object to a server. -/
structure Write where
  server : Nat
  size : Nat
  info : ObjInfo → ObjInfo

/-- The servers after a list of writes of the object `id`. -/
inductive Writes (p : Params) (id : Nat) :
    List Write → (Nat → CacheServer) → (Nat → CacheServer) → Prop
  | nil {f} : Writes p id [] f f
  | cons {w ws f c t g} : w.server < p.nServer → (f w.server).put id w.size t w.info = .ok c →
    Writes p id ws (Function.update f w.server c) g → Writes p id (w :: ws) f g

namespace Writes
variable {p : Params} {id : Nat} {ws ws' : List Write} {f g g' : Nat → CacheServer}

theorem append (h : Writes p id ws f g) (h' : Writes p id ws' g g') :
    Writes p id (ws ++ ws') f g' := by
  induction h with
  | nil => exact h'
  | cons hlt hput _ ih => exact .cons hlt hput (ih h')

theorem available (h : Writes p id ws f g) (x : Nat) : (g x).available = (f x).available := by
  induction h with
  | nil => rfl
  | @cons w _ f c _ _ _ hput _ ih =>
    rw [ih]
    by_cases hx : x = w.server
    · subst hx
      rw [Function.update_self]
      cases hav : (f w.server).available with
      | true => rw [(put_available hav hput).available, hav]
      | false => rw [(put_unavailable hav hput).2]; exact hav
    · rw [Function.update_of_ne hx]

/-- A property of servers that single writes keep. -/
theorem induct {P : CacheServer → Prop} (h : Writes p id ws f g)
    (hput : ∀ w ∈ ws, ∀ s t c, P s → s.put id w.size t w.info = .ok c → P c) {x : Nat}
    (hx : P (f x)) : P (g x) := by
  induction h with
  | nil => exact hx
  | @cons w _ f c t _ _ hw _ ih =>
    refine ih (fun w' hw' => hput w' (List.mem_cons_of_mem _ hw')) ?_
    by_cases hxw : x = w.server
    · subst hxw
      rw [Function.update_self]
      exact hput w List.mem_cons_self _ t c hx hw
    · rw [Function.update_of_ne hxw]
      exact hx

theorem unwritten (h : Writes p id ws f g) {x : Nat} (hx : ∀ w ∈ ws, w.server ≠ x) :
    g x = f x := by
  induction h with
  | nil => rfl
  | cons _ _ _ ih =>
    rw [ih fun w hw => hx w (List.mem_cons_of_mem _ hw),
      Function.update_of_ne (hx _ List.mem_cons_self).symm]

/-- On different servers, every server is written once. -/
theorem written (h : Writes p id ws f g) (hnodup : (ws.map Write.server).Nodup) {w : Write}
    (hw : w ∈ ws) : ∃ t, (f w.server).put id w.size t w.info = .ok (g w.server) := by
  induction h with
  | nil => cases hw
  | @cons w' ws f c t g hlt hput hrest ih =>
    rw [List.map_cons, List.nodup_cons] at hnodup
    have hne : ∀ v ∈ ws, v.server ≠ w'.server := by
      rintro v hv heq
      exact hnodup.1 (List.mem_map.mpr ⟨v, hv, heq⟩)
    rcases List.mem_cons.mp hw with rfl | hw
    · refine ⟨t, ?_⟩
      rw [hrest.unwritten hne, Function.update_self]
      exact hput
    · obtain ⟨t', ht'⟩ := ih hnodup.2 hw
      rw [Function.update_of_ne (hne w hw)] at ht'
      exact ⟨t', ht'⟩

/-- Copies of other objects are kept or evicted. -/
theorem other (h : Writes p id ws f g) {x id' : Nat} {o : CacheObj} (hne : id' ≠ id)
    (ho : (g x).cache.getObj id' = some o) : (f x).cache.getObj id' = some o := by
  induction h with
  | nil => exact ho
  | @cons w _ f c _ _ _ hput _ ih =>
    have ho := ih ho
    by_cases hx : x = w.server
    · subst hx
      rw [Function.update_self] at ho
      cases hav : (f w.server).available with
      | true => exact (put_available hav hput).other id' o hne ho
      | false =>
        rw [(put_unavailable hav hput).2, Cache.getObj_setInfo_other hne] at ho
        exact ho
    · rwa [Function.update_of_ne hx] at ho

end Writes

/-- `s'` is `s` after a list of writes; the mappings are the same. -/
structure Effect (p : Params) (id : Nat) (ws : List Write) (s s' : Cluster) : Prop where
  writes : Writes p id ws s.servers s'.servers
  chMapping : s'.chMapping = s.chMapping
  prevChMapping : s'.prevChMapping = s.prevChMapping

section
variable {α : Type} {p : Params} {id : Nat} {ws ws' : List Write} {s s₁ s' : Cluster}

/-- Nothing but counters, loads and frequencies has changed. -/
structure SameServers (s s' : Cluster) : Prop where
  servers : s'.servers = s.servers
  chMapping : s'.chMapping = s.chMapping
  prevChMapping : s'.prevChMapping = s.prevChMapping

theorem SameServers.effect (h : SameServers s s') : Effect p id [] s s' :=
  ⟨by rw [h.servers]; exact .nil, h.chMapping, h.prevChMapping⟩

theorem Effect.trans (h : Effect p id ws s s₁) (h' : Effect p id ws' s₁ s') :
    Effect p id (ws ++ ws') s s' :=
  ⟨h.writes.append h'.writes, h'.chMapping.trans h.chMapping,
    h'.prevChMapping.trans h.prevChMapping⟩

theorem SameServers.trans (h : SameServers s s₁) (h' : SameServers s₁ s') : SameServers s s' :=
  ⟨h'.servers.trans h.servers, h'.chMapping.trans h.chMapping,
    h'.prevChMapping.trans h.prevChMapping⟩

theorem SameServers.trans_effect (h : SameServers s s₁) (h' : Effect p id ws s₁ s') :
    Effect p id ws s s' :=
  ⟨by rw [← h.servers]; exact h'.writes, h'.chMapping.trans h.chMapping,
    h'.prevChMapping.trans h.prevChMapping⟩

theorem Effect.trans_same (h : Effect p id ws s s₁) (h' : SameServers s₁ s') :
    Effect p id ws s s' :=
  ⟨by rw [h'.servers]; exact h.writes, h'.chMapping.trans h.chMapping,
    h'.prevChMapping.trans h.prevChMapping⟩

/-- A write to one server. -/
theorem onServer_effect {w : Write} {t : CacheType}
    (h : s.onServer p w.server (fun c => c.put id w.size t w.info) = .ok s') :
    Effect p id [w] s s' := by
  obtain ⟨hlt, c, hc, rfl⟩ := onServer_eq_ok h
  exact ⟨.cons hlt hc .nil, rfl, rfl⟩

/-- **A write.** -/
theorem onServer_ends {w : Write} {t : CacheType} :
    Ends (s.onServer p w.server fun c => c.put id w.size t w.info) (Effect p id [w] s)
      NoTypeFault := by
  cases h : s.onServer p w.server (fun c => c.put id w.size t w.info) with
  | ok s' => exact onServer_effect h
  | error e =>
    by_cases hlt : w.server < p.nServer
    · exact noTypeFault_of_put (onServer_eq_error hlt h)
    · rw [onServer, if_neg hlt] at h
      cases h
      exact ⟨nofun, nofun⟩

theorem onServer_returns {server : Nat} {f : CacheServer → Except Fault CacheServer} {c : CacheServer}
    (hlt : server < p.nServer) (hc : f (s.servers server) = .ok c) :
    ∃ s', s.onServer p server f = .ok s' := by
  unfold onServer
  rw [if_pos hlt, hc]
  exact ⟨_, rfl⟩

/-- A loop whose rounds write. -/
theorem foldlM_ends {F : Cluster → α → Except Fault Cluster} {w : α → Write} {l : List α}
    {E : Fault → Prop} (hF : ∀ s, ∀ a ∈ l, Ends (F s a) (Effect p id [w a] s) E) :
    Ends (l.foldlM F s) (Effect p id (l.map w) s) E := by
  refine Ends.foldlM (fun pre s' => Effect p id (pre.map w) s s') ?_ ?_
  · exact SameServers.effect ⟨rfl, rfl, rfl⟩
  · intro pre a post s' hl heff
    refine (hF s' a (by rw [hl]; simp)).imp fun s'' heff' => ?_
    rw [List.map_append]
    exact heff.trans heff'

/-- Such a loop over different servers returns if every server can be written. -/
theorem foldlM_returns {F : Cluster → α → Except Fault Cluster} {w : α → Write} {l : List α}
    (hF : ∀ s a s', a ∈ l → F s a = .ok s' → Effect p id [w a] s s')
    {Q : Nat → CacheServer → Prop} (hQ : ∀ a ∈ l, Q (w a).server (s.servers (w a).server))
    (hret : ∀ s a, a ∈ l → Q (w a).server (s.servers (w a).server) → ∃ s', F s a = .ok s')
    (hnodup : (l.map fun a => (w a).server).Nodup) : ∃ s', l.foldlM F s = .ok s' := by
  induction l generalizing s with
  | nil => exact ⟨s, rfl⟩
  | cons a l ih =>
    rw [List.map_cons, List.nodup_cons] at hnodup
    obtain ⟨s₁, hs₁⟩ := hret s a List.mem_cons_self (hQ a List.mem_cons_self)
    have heff := hF s a s₁ List.mem_cons_self hs₁
    obtain ⟨s', hs'⟩ := ih (s := s₁) (fun s a s' ha => hF s a s' (List.mem_cons_of_mem _ ha))
      (fun b hb => by
        have hne : (w a).server ≠ (w b).server := fun heq =>
          hnodup.1 (List.mem_map.mpr ⟨b, hb, heq.symm⟩)
        rw [heff.writes.unwritten (by simpa using hne)]
        exact hQ b (List.mem_cons_of_mem _ hb))
      (fun s b hb => hret s b (List.mem_cons_of_mem _ hb)) hnodup.2
    refine ⟨s', ?_⟩
    rw [foldlM_cons_ok hs₁]
    exact hs'

theorem idxAt_eq_ok {idxs : List Nat} {i x : Nat} (h : idxAt idxs i = .ok x) :
    i < idxs.length ∧ idxs[i]? = some x := by
  unfold idxAt at h
  split at h
  · next y hy =>
    cases h
    exact ⟨(List.getElem?_eq_some_iff.mp hy).1, hy⟩
  · cases h

theorem idxAt_ends {idxs : List Nat} {i : Nat} :
    Ends (idxAt idxs i) (fun x => i < idxs.length ∧ idxs[i]? = some x) NoTypeFault := by
  cases h : idxAt idxs i with
  | ok x => exact idxAt_eq_ok h
  | error e =>
    unfold idxAt at h
    split at h
    · cases h
    · cases h; exact ⟨nofun, nofun⟩

theorem idxAt_of_lt {idxs : List Nat} {i : Nat} (h : i < idxs.length) :
    idxAt idxs i = .ok (idxs.getD i 0) := by
  unfold idxAt
  rw [List.getElem?_eq_getElem h, List.getD_eq_getElem?_getD, List.getElem?_eq_getElem h]
  rfl

theorem getD_of_idxAt {idxs : List Nat} {i x : Nat} (h : idxAt idxs i = .ok x) :
    idxs.getD i 0 = x := by
  rw [List.getD_eq_getElem?_getD, (idxAt_eq_ok h).2, Option.getD_some]

theorem firstIdxs_eq_ok {idxs l : List Nat} {r : Nat} (h : firstIdxs idxs r = .ok l) :
    r ≤ idxs.length ∧ l = idxs.take r := by
  unfold firstIdxs at h
  split at h
  · cases h
  · next hlt =>
    cases h
    exact ⟨Nat.le_of_not_lt hlt, rfl⟩

end

end Cluster

/-! ## Small clusters -/

/-- The ring whose points are the servers. -/
def lineRing (nServer : Nat) (h : 0 < nServer) : Ring nServer where
  vnodes := (List.range nServer).map fun i => ⟨i, i⟩
  ne := by simp; omega
  servers := by simp

/-- A cluster with this ring, on which every bucket starts at server 0. -/
def lineParams (mode : ClusterMode) (n k nServer : Nat) (h : 0 < nServer) : Params where
  mode
  n
  k
  sizeThreshold := 0
  admission := 0
  checkOneMore := true
  parityRebalance := false
  withBucket := false
  nServer
  alg := .lru
  cacheSizes _ := 100
  ring := lineRing nServer h
  hash _ := 0
  maxFlow _ _ := 0

end C2DN.Simulator
