import C2DN.Simulator.ChainedHashtable
import C2DN.Simulator.HashtableLemmas

/-!
# The hash table with its pointers refines the hash table with its lists

`Refines m t`: the chains that `hash_next` leads along in `m` are the lists of `t`, and the rest of the
memory is the same. Every operation of `m` ends and refines the operation of `t`. An expansion moves
the objects of a bucket while their old structs still point at each other, so its lemmas also say that
structs outside the buckets of the new table stay as they are.
-/

namespace C2DN.Simulator

namespace Hashtable
variable {hash : Nat → Nat} {t : Hashtable hash} {l s todo c : List Addr} {a b x : Addr} {i j n : Nat}

/-- No struct is in two places. -/
structure Apart (t : Hashtable hash) : Prop where
  table : ∀ i j, t.table i ∉ t.chain j
  chain : ∀ i j, ∀ x ∈ t.chain i, x ∈ t.chain j → i = j
  nodup : ∀ i, (t.chain i).Nodup
  length : ∀ i, (t.chain i).length ≤ t.nodes

theorem Apart.ne (h : t.Apart) (hij : i ≠ j) (ha : a ∈ t.table i :: t.chain i)
    (hb : b ∈ t.table j :: t.chain j) : a ≠ b := by
  rintro rfl
  rcases List.mem_cons.mp ha with rfl | ha <;> rcases List.mem_cons.mp hb with heq | hb
  · exact hij (table_inj heq)
  · exact h.table i j hb
  · exact h.table j i (heq ▸ ha)
  · exact hij (h.chain i j a ha hb)

theorem Apart.bucket_nodup (h : t.Apart) : (t.table i :: t.chain i).Nodup :=
  List.nodup_cons.mpr ⟨h.table i i, h.nodup i⟩

theorem Stored.not_empty_of_chain (h : t.Stored l s todo) (hx : x ∈ t.chain i) : ¬ t.empty i := by
  intro he
  rw [(h.blank i he).1] at hx
  cases hx

/-- A struct of its own that is in no bucket. -/
theorem Stored.node_not_mem (h : t.Stored l s todo) (hn : ∀ j, .node n ∉ t.bucket j) (j : Nat) :
    .node n ∉ t.table j :: t.chain j := by
  intro hmem
  rcases List.mem_cons.mp hmem with heq | hmem
  · cases heq
  · exact hn j (mem_bucket.mpr ⟨h.not_empty_of_chain hmem, .inr hmem⟩)

theorem length_le_nodes (hc : c.Nodup) (hnode : ∀ a ∈ c, ∃ k < n, a = .node k) :
    c.length ≤ n := by
  have hsub : c ⊆ (List.range n).map .node := by
    intro x hx
    obtain ⟨k, hk, rfl⟩ := hnode x hx
    exact List.mem_map_of_mem (List.mem_range.mpr hk)
  have hlength := hc.length_le_of_subset hsub
  rwa [List.length_map, List.length_range] at hlength

theorem Stored.apart (h : t.Stored l s todo) : t.Apart where
  table i j := h.table_not_mem_chain
  chain i j x hi hj := by
    have hi' : x ∈ t.bucket i := mem_bucket.mpr ⟨h.not_empty_of_chain hi, .inr hi⟩
    have hj' : x ∈ t.bucket j := mem_bucket.mpr ⟨h.not_empty_of_chain hj, .inr hj⟩
    exact (h.home i x hi').symm.trans (h.home j x hj')
  nodup := h.chain_nodup
  length i := length_le_nodes (h.chain_nodup i) (h.chain_node i)

/-- Objects stay in the buckets of the new table. -/
theorem moveIntoNewTable_mono {part : Bool} (h : t.Stored l s (a :: todo))
    (hpart : part = false → ∃ n, a = .node n) (hx : x ∈ t.bucket j) :
    x ∈ (t.moveIntoNewTable a part).bucket j := by
  obtain ⟨-, hj, -⟩ := moveIntoNewTable_joined h hpart
  exact (hj.mem_bucket (h.pos a (h.mem_of_todo List.mem_cons_self)) fun he => (h.blank _ he).1).mpr
    (.inl hx)

/-- The rest of a bucket moves. -/
def moveRest (t : Hashtable hash) (c : List Addr) : Hashtable hash :=
  c.foldl (fun t obj => t.moveIntoNewTable obj false) t

theorem moveRest_mono (h : t.Stored l s (c ++ todo)) (hc : ∀ a ∈ c, ∃ n, a = .node n)
    (hx : x ∈ t.bucket j) : x ∈ (t.moveRest c).bucket j := by
  induction c generalizing t l s with
  | nil => exact hx
  | cons a c ih =>
    obtain ⟨f, h₁, -⟩ := moveIntoNewTable_kept false h fun _ => hc a List.mem_cons_self
    exact ih h₁ (fun b hb => hc b (List.mem_cons_of_mem _ hb))
      (moveIntoNewTable_mono h (fun _ => hc a List.mem_cons_self) hx)

theorem moveIntoNewTable_hashPower {part : Bool} :
    (t.moveIntoNewTable a part).hashPower = t.hashPower := by
  unfold moveIntoNewTable
  dsimp only
  split
  · rfl
  · split <;> rfl

theorem moveRest_hashPower : (t.moveRest c).hashPower = t.hashPower := by
  induction c generalizing t with
  | nil => rfl
  | cons a c ih => exact (ih (t := t.moveIntoNewTable a false)).trans moveIntoNewTable_hashPower

theorem moveBucket_eq {old : Hashtable hash} (hne : ¬ old.empty i) :
    moveBucket old t i = (t.moveIntoNewTable (old.table i) true).moveRest (old.chain i) := if_neg hne

theorem moveBucket_hashPower {old : Hashtable hash} : (moveBucket old t i).hashPower = t.hashPower := by
  by_cases he : old.empty i
  · rw [moveBucket, if_pos he]
  · rw [moveBucket_eq he, moveRest_hashPower, moveIntoNewTable_hashPower]

end Hashtable

namespace ChainedHashtable
variable {hash : Nat → Nat} {m m' : ChainedHashtable hash} {t : Hashtable hash}
  {l s todo c : List Addr} {a b x : Addr} {i j n : Nat} {o : Option Addr}

/-- The table with the lists `c` behind its places. -/
def along (m : ChainedHashtable hash) (c : Nat → List Addr) : Hashtable hash where
  objs := m.objs
  links := m.links
  hashPower := m.hashPower
  chain := c
  nCurItem := m.nCurItem
  nodes := m.nodes

/-- `hash_next` leads along the lists of `t`. -/
def Refines (m : ChainedHashtable hash) (t : Hashtable hash) : Prop :=
  ∃ c, t = m.along c ∧ ∀ i, Chain m.hashNext (m.hashNext (m.table i)) (c i)

/-- The structs that satisfy `p` stay as they are. -/
def Same (m m' : ChainedHashtable hash) (p : Addr → Prop) : Prop :=
  ∀ x, p x → m'.objs x = m.objs x ∧ m'.hashNext x = m.hashNext x

theorem create_refines {hashPower : Nat} :
    (create hashPower : ChainedHashtable hash).Refines (.create hashPower) :=
  ⟨fun _ => [], rfl, fun _ => rfl⟩

namespace Refines

theorem objs (h : m.Refines t) : m.objs = t.objs := by
  obtain ⟨c, rfl, -⟩ := h; rfl

theorem links (h : m.Refines t) : m.links = t.links := by
  obtain ⟨c, rfl, -⟩ := h; rfl

theorem hashPower (h : m.Refines t) : m.hashPower = t.hashPower := by
  obtain ⟨c, rfl, -⟩ := h; rfl

theorem nCurItem (h : m.Refines t) : m.nCurItem = t.nCurItem := by
  obtain ⟨c, rfl, -⟩ := h; rfl

theorem nodes (h : m.Refines t) : m.nodes = t.nodes := by
  obtain ⟨c, rfl, -⟩ := h; rfl

theorem table (h : m.Refines t) (i : Nat) : m.table i = t.table i := by
  obtain ⟨c, rfl, -⟩ := h; rfl

theorem empty (h : m.Refines t) (i : Nat) : m.empty i = t.empty i := by
  obtain ⟨c, rfl, -⟩ := h; rfl

theorem chain (h : m.Refines t) (i : Nat) :
    Chain m.hashNext (m.hashNext (m.table i)) (t.chain i) := by
  obtain ⟨c, rfl, hc⟩ := h; exact hc i

end Refines

theorem Refines.bucket (h : m.Refines t) (i : Nat) :
    Chain m.hashNext (some (t.table i)) (t.table i :: t.chain i) := ⟨rfl, h.table i ▸ h.chain i⟩

theorem Refines.length_lt (h : m.Refines t) (hap : t.Apart) (hnodes : m.nodes ≤ m'.nodes) (i : Nat) :
    (t.table i :: t.chain i).length < m'.turns := by
  have := h.nodes ▸ hap.length i
  rw [turns, List.length_cons]
  omega

/-- The pointers in one bucket change. -/
theorem Refines.setBucket (m' : ChainedHashtable hash) (h : m.Refines t)
    (hpower : m'.hashPower = m.hashPower)
    (hnext : ∀ j, j ≠ i → ∀ x ∈ t.table j :: t.chain j, m'.hashNext x = m.hashNext x)
    (hc : Chain m'.hashNext (some (t.table i)) (t.table i :: c)) :
    m'.Refines (m'.along fun j => if j = i then c else t.chain j) := by
  refine ⟨_, rfl, fun j => ?_⟩
  have htable : m'.table j = t.table j := by rw [← h.table, ChainedHashtable.table, hpower]; rfl
  rw [htable]
  split
  · next hji =>
    subst hji
    exact hc.2
  · next hji => exact ((h.bucket j).congr (hnext j hji)).2

/-- The last struct of bucket `i`, in a memory where only `b` is new. When `b` is linked behind it, `b`
is the last one of the bucket. -/
theorem lastObjInBucket_spec (m' : ChainedHashtable hash) (h : m.Refines t) (hap : t.Apart) (i : Nat)
    (hb : ∀ j, b ∉ t.table j :: t.chain j) (hpower : m'.hashPower = m.hashPower)
    (hnodes : m.nodes ≤ m'.nodes) (hnext : ∀ x, x ≠ b → m'.hashNext x = m.hashNext x) :
    ∃ last, m'.lastObjInBucket i = .ok last ∧ last ∈ t.table i :: t.chain i ∧ last ≠ b ∧
      ∀ m'' : ChainedHashtable hash, m''.hashPower = m.hashPower → m''.hashNext b = none →
        m''.hashNext last = some b → (∀ x, x ≠ b → x ≠ last → m''.hashNext x = m.hashNext x) →
        m''.Refines (m''.along fun j => if j = i then t.chain i ++ [b] else t.chain j) := by
  have hne : ∀ j, ∀ x ∈ t.table j :: t.chain j, x ≠ b := fun j x hx => ne_of_mem_of_not_mem hx (hb j)
  obtain ⟨last, hlast⟩ : ∃ last, (t.table i :: t.chain i).getLast? = some last :=
    ⟨_, List.getLast?_eq_some_getLast (List.cons_ne_nil _ _)⟩
  have hmem := List.mem_of_getLast? hlast
  refine ⟨last, ?_, hmem, hne i last hmem, fun m'' hpower' hnb hnl hnext' => ?_⟩
  · have htable : m'.table i = t.table i := by rw [← h.table, ChainedHashtable.table, hpower]; rfl
    have hchain := (h.bucket i).congr fun x hx => hnext x (hne i x hx)
    rw [lastObjInBucket, htable, hchain.lastFrom_eq (Nat.le_of_lt (h.length_lt hap hnodes i)), hlast]
    rfl
  · refine h.setBucket m'' hpower' (fun j hji x hx => hnext' x (hne j x hx) (hap.ne hji hx hmem)) ?_
    exact (h.bucket i).push hap.bucket_nodup hlast hnl hnb fun x hx => hnext' x (hne i x hx)

/-- The pointer of a place of the table changes. -/
theorem Refines.setPlace (m' : ChainedHashtable hash) (h : m.Refines t) (hap : t.Apart)
    (hpower : m'.hashPower = m.hashPower)
    (hnext : ∀ x, x ≠ t.table i → m'.hashNext x = m.hashNext x)
    (hc : Chain m.hashNext (m'.hashNext (t.table i)) c) (hi : t.table i ∉ c) :
    m'.Refines (m'.along fun j => if j = i then c else t.chain j) := by
  refine h.setBucket m' hpower (fun j hji x hx => hnext x (hap.ne hji hx List.mem_cons_self)) ⟨rfl, ?_⟩
  exact hc.congr fun x hx => hnext x (ne_of_mem_of_not_mem hx hi)

/-! ## Expansion -/

/-- One object moves into the new table. -/
theorem moveIntoNewTable_refines (part : Bool) (h : m.Refines t) (hs : t.Stored l s (a :: todo))
    (hpart : part = false → ∃ n, a = .node n) : ∃ m', m.moveIntoNewTable a part = .ok m' ∧
      m'.Refines (t.moveIntoNewTable a part) ∧
      m.Same m' fun x => ∀ j, x ∉ (t.moveIntoNewTable a part).bucket j := by
  obtain ⟨-, hj, -⟩ := Hashtable.moveIntoNewTable_joined hs hpart
  have hpos : (t.objs a).objSize ≠ 0 := hs.pos a (hs.mem_of_todo List.mem_cons_self)
  -- what changes is in the bucket of the object
  have hself : ∀ x, (∀ j, x ∉ (t.moveIntoNewTable a part).bucket j) → x ≠ t.newLoc a part := by
    rintro x hx rfl
    exact hx (t.home a) ((hj.mem_bucket hpos fun he => (hs.blank _ he).1).mpr (.inr ⟨rfl, rfl⟩))
  have hbucket : ∀ x, (∀ j, x ∉ (t.moveIntoNewTable a part).bucket j) → ∀ j, x ∉ t.bucket j :=
    fun x hx j hmem => hx j (Hashtable.moveIntoNewTable_mono hs hpart hmem)
  obtain ⟨c, rfl, hc⟩ := h
  have h : m.Refines (m.along c) := ⟨c, rfl, hc⟩
  generalize hi : (m.along c).home a = i at hj
  have hplace : m.place (hash (m.objs a).objId) = i := hi
  have hloc : (m.along c).newLoc a part = if (m.along c).empty i then m.table i
      else if part then .node m.nodes else a := by
    rw [Hashtable.newLoc, hi]; rfl
  unfold moveIntoNewTable
  rw [hplace]
  dsimp only
  have hmove : (m.along c).place (hash ((m.along c).objs a).objId) = i := hi
  unfold Hashtable.moveIntoNewTable at hself hbucket ⊢
  rw [hmove] at hself hbucket ⊢
  dsimp only
  by_cases he : m.empty i
  · have he' : (m.along c).empty i := he
    rw [if_pos he'] at hloc hself hbucket ⊢
    rw [hloc] at hself
    rw [if_pos he]
    refine ⟨_, rfl, ?_, fun x hx => ?_⟩
    · exact h.setPlace _ hs.apart rfl (fun x hx => (if_neg hx).trans (if_neg hx)) (if_pos rfl)
        List.not_mem_nil
    · exact ⟨if_neg (hself x hx), (if_neg (hself x hx)).trans (if_neg (hself x hx))⟩
  · have he' : ¬ (m.along c).empty i := he
    rw [if_neg he'] at hloc hself hbucket ⊢
    rw [if_neg he]
    have hmem : ∀ x ∈ m.table i :: c i, x ∈ (m.along c).bucket i := fun x hx =>
      Hashtable.mem_bucket.mpr ⟨he', List.mem_cons.mp hx⟩
    cases part with
    | true =>
      have hb := hs.node_not_mem fun j hmem => hs.fresh (hs.mem_of_bucket hmem)
      have hnext : ∀ x, x ≠ .node m.nodes →
          (m.alloc.1.moveObjToNewLoc (.node m.nodes) a).hashNext x = m.hashNext x :=
        fun x hx => (if_neg hx).trans (if_neg hx)
      obtain ⟨last, hlast, hlmem, hlb, hrefines⟩ := lastObjInBucket_spec
        (m.alloc.1.moveObjToNewLoc (.node m.nodes) a) h hs.apart i hb rfl (Nat.le_succ _) hnext
      refine ⟨_, congrArg (Except.map _) hlast, ?_, fun x hx => ?_⟩
      · refine hrefines _ ?_ ?_ ?_ ?_
        · rfl
        · exact if_pos rfl
        · exact (if_neg hlb).trans (if_pos rfl)
        · exact fun x hxb hxl => (if_neg hxb).trans ((if_neg hxl).trans (hnext x hxb))
      · have hxb : x ≠ .node m.nodes := fun heq => hself x hx (heq.trans hloc.symm)
        have hxl : x ≠ last := fun heq => hbucket x hx i (hmem x (heq ▸ hlmem))
        refine ⟨(if_neg hxb).trans (if_neg hxb), ?_⟩
        exact (if_neg hxb).trans ((if_neg hxl).trans (hnext x hxb))
    | false =>
      have hb : ∀ j, a ∉ m.table j :: c j := by
        obtain ⟨n, rfl⟩ := hpart rfl
        exact hs.node_not_mem (hs.todo_apart _ List.mem_cons_self)
      obtain ⟨last, hlast, hlmem, hlb, hrefines⟩ := lastObjInBucket_spec
        m h hs.apart i hb rfl (Nat.le_refl _) fun _ _ => rfl
      refine ⟨_, congrArg (Except.map _) hlast, ?_, fun x hx => ?_⟩
      · refine hrefines _ ?_ ?_ ?_ ?_
        · rfl
        · exact if_pos rfl
        · exact (if_neg hlb).trans (if_pos rfl)
        · exact fun x hxb hxl => (if_neg hxb).trans (if_neg hxl)
      · have hxb : x ≠ a := fun heq => hself x hx (heq.trans hloc.symm)
        have hxl : x ≠ last := fun heq => hbucket x hx i (hmem x (heq ▸ hlmem))
        exact ⟨rfl, (if_neg hxb).trans (if_neg hxl)⟩

theorem moveChain_refines (h : m.Refines t) (hs : t.Stored l s (c ++ todo))
    (hc : ∀ a ∈ c, ∃ n, a = .node n) (hchain : Chain m.hashNext o c) (hn : c.length < n) :
    ∃ m', moveChain n o m = .ok m' ∧ m'.Refines (t.moveRest c) ∧
      m.Same m' fun x => ∀ j, x ∉ (t.moveRest c).bucket j := by
  induction c generalizing m t l s o n with
  | nil =>
    obtain ⟨n, rfl⟩ : ∃ k, n = k + 1 := Nat.exists_eq_add_one.mpr hn
    cases chain_nil.mp hchain
    exact ⟨m, rfl, h, fun x _ => ⟨rfl, rfl⟩⟩
  | cons a c ih =>
    obtain ⟨n, rfl⟩ : ∃ k, n = k + 1 := Nat.exists_eq_add_one.mpr (Nat.lt_of_le_of_lt (Nat.zero_le _) hn)
    obtain ⟨rfl, hchain⟩ := hchain
    have hpart : false = false → ∃ n, a = .node n := fun _ => hc a List.mem_cons_self
    have hc' : ∀ b ∈ c, ∃ n, b = .node n := fun b hb => hc b (List.mem_cons_of_mem _ hb)
    obtain ⟨m₁, hm₁, h₁, hsame₁⟩ := moveIntoNewTable_refines false h hs hpart
    obtain ⟨f, hs₁, -⟩ := Hashtable.moveIntoNewTable_kept false hs hpart
    -- the structs that are left still point at each other
    have hchain₁ : Chain m₁.hashNext (m.hashNext a) c := hchain.congr fun x hx =>
      (hsame₁ x (hs₁.todo_apart x (List.mem_append_left _ hx))).2
    obtain ⟨m₂, hm₂, h₂, hsame₂⟩ := ih h₁ hs₁ hc' hchain₁ (Nat.lt_of_succ_lt_succ hn)
    refine ⟨m₂, ?_, h₂, fun x hx => ?_⟩
    · rw [moveChain, hm₁]
      exact hm₂
    · obtain ⟨hobj₁, hnext₁⟩ := hsame₁ x fun j hmem =>
        hx j (Hashtable.moveRest_mono (t := t.moveIntoNewTable a false) hs₁ hc' hmem)
      obtain ⟨hobj₂, hnext₂⟩ := hsame₂ x hx
      exact ⟨hobj₂.trans hobj₁, hnext₂.trans hnext₁⟩

theorem moveBucket_refines {old : Hashtable hash} (h : m.Refines t)
    (hs : t.Stored l s (old.bucket i ++ todo)) (hc : ∀ a ∈ old.chain i, ∃ n, a = .node n)
    (hobj : m.objs (old.table i) = old.objs (old.table i))
    (hchain : Chain m.hashNext (m.hashNext (old.table i)) (old.chain i)) :
    ∃ m', moveBucket old.hashPower m i = .ok m' ∧ m'.Refines (Hashtable.moveBucket old t i) ∧
      m.Same m' fun x => ∀ j, x ∉ (Hashtable.moveBucket old t i).bucket j := by
  have hcond : (m.objs (.slot old.hashPower i)).objSize = 0 ↔ old.empty i := by
    rw [Hashtable.empty_iff, ← hobj]
    rfl
  unfold moveBucket
  dsimp only
  by_cases he : old.empty i
  · rw [if_pos (hcond.mpr he), Hashtable.moveBucket, if_pos he]
    exact ⟨m, rfl, h, fun x _ => ⟨rfl, rfl⟩⟩
  · rw [if_neg (mt hcond.mp he), Hashtable.moveBucket_eq he]
    rw [Hashtable.bucket, if_neg he] at hs
    have hpart : true = false → ∃ n, old.table i = .node n := fun heq => absurd heq.symm Bool.false_ne_true
    obtain ⟨m₁, hm₁, h₁, hsame₁⟩ := moveIntoNewTable_refines true h hs hpart
    obtain ⟨f, hs₁, -⟩ := Hashtable.moveIntoNewTable_kept true hs hpart
    have hchain₁ : Chain m₁.hashNext (m.hashNext (old.table i)) (old.chain i) := hchain.congr
      fun x hx => (hsame₁ x (hs₁.todo_apart x (List.mem_append_left _ hx))).2
    have hlength : (old.chain i).length < m.turns := by
      have hnode : ∀ a ∈ old.chain i, ∃ k < m.nodes, a = .node k := by
        intro a ha
        obtain ⟨k, rfl⟩ := hc a ha
        exact ⟨k, h.nodes ▸ hs.todo_old _ (List.mem_cons_of_mem _ (List.mem_append_left _ ha)), rfl⟩
      have hnodup := (List.nodup_append'.mp hs.todo_nodup.tail).1
      have := Hashtable.length_le_nodes hnodup hnode
      rw [turns]
      omega
    obtain ⟨m₂, hm₂, h₂, hsame₂⟩ := moveChain_refines h₁ hs₁ hc hchain₁ hlength
    refine ⟨m₂, ?_, h₂, fun x hx => ?_⟩
    · rw [show m.moveIntoNewTable (.slot old.hashPower i) true = .ok m₁ from hm₁]
      exact hm₂
    · obtain ⟨hobj₁, hnext₁⟩ := hsame₁ x fun j hmem => hx j (Hashtable.moveRest_mono hs₁ hc hmem)
      obtain ⟨hobj₂, hnext₂⟩ := hsame₂ x hx
      exact ⟨hobj₂.trans hobj₁, hnext₂.trans hnext₁⟩

theorem newTable_refines (h : m.Refines t) : m.newTable.Refines t.newTable := by
  obtain ⟨c, rfl, -⟩ := h
  exact ⟨fun _ => [], rfl, fun i => if_pos (by simp [isNew, table, newTable])⟩

theorem expand_refines (h : m.Refines t) (hs : t.Stored l s []) :
    ∃ m', m.expand = .ok m' ∧ m'.Refines t.expand := by
  obtain ⟨f, hs₀, -⟩ := Hashtable.newTable_kept hs
  have hc : ∀ i, ∀ a ∈ t.chain i, ∃ n, a = .node n := fun i a ha =>
    (hs.chain_node i a ha).imp fun _ hn => hn.2
  have hold : ∀ i, m.newTable.objs (t.table i) = t.objs (t.table i) ∧
      Chain m.newTable.hashNext (m.newTable.hashNext (t.table i)) (t.chain i) := by
    intro i
    have hnew : ∀ x ∈ t.table i :: t.chain i, m.isNew x = false := by
      intro x hx
      rcases List.mem_cons.mp hx with rfl | hx
      · simp [isNew, Hashtable.table, h.hashPower]
      · obtain ⟨n, rfl⟩ := hc i x hx
        rfl
    have hnext : ∀ x ∈ t.table i :: t.chain i, m.newTable.hashNext x = m.hashNext x :=
      fun x hx => if_neg (by simp [hnew x hx])
    refine ⟨(if_neg (by simp [hnew _ List.mem_cons_self])).trans (congrFun h.objs _), ?_⟩
    rw [hnext _ List.mem_cons_self, ← h.table]
    exact (h.chain i).congr fun x hx => hnext x (List.mem_cons_of_mem _ hx)
  have hne : ∀ i, ∀ x ∈ t.chain i, x ∈ t.bucket i := fun i x hx =>
    Hashtable.mem_bucket.mpr ⟨hs.not_empty_of_chain hx, .inr hx⟩
  have hpower : t.newTable.hashPower = t.hashPower + 1 := rfl
  have h₀ := newTable_refines h
  unfold expand Hashtable.expand
  rw [h.hashPower]
  -- over the buckets that are left
  have hold : ∀ i ∈ List.range (2 ^ t.hashPower), m.newTable.objs (t.table i) = t.objs (t.table i) ∧
      Chain m.newTable.hashNext (m.newTable.hashNext (t.table i)) (t.chain i) := fun i _ => hold i
  generalize l.map f = l₀ at hs₀
  generalize s.map f = s₀ at hs₀
  generalize List.range (2 ^ t.hashPower) = is at hs₀ hold ⊢
  generalize t.newTable = t₀ at hs₀ h₀ hpower ⊢
  generalize m.newTable = m₀ at h₀ hold ⊢
  clear h hs
  induction is generalizing m₀ t₀ l₀ s₀ with
  | nil => exact ⟨m₀, rfl, h₀⟩
  | cons i is ih =>
    rw [List.flatMap_cons] at hs₀
    obtain ⟨hobj, hchain⟩ := hold i List.mem_cons_self
    obtain ⟨m₁, hm₁, h₁, hsame⟩ := moveBucket_refines h₀ hs₀ (hc i) hobj hchain
    obtain ⟨g, hs₁, -⟩ := Hashtable.moveBucket_kept hs₀ (hc i)
    have hpower₁ : (Hashtable.moveBucket t t₀ i).hashPower = t.hashPower + 1 :=
      Hashtable.moveBucket_hashPower.trans hpower
    have happart : ∀ k ∈ is, ∀ x ∈ t.table k :: t.chain k, ∀ j,
        x ∉ (Hashtable.moveBucket t t₀ i).bucket j := by
      intro k hk x hx j hmem
      rcases List.mem_cons.mp hx with rfl | hx
      · rcases (Hashtable.mem_bucket.mp hmem).2 with heq | hchain
        · have := (Addr.slot.inj heq).1
          omega
        · obtain ⟨n, -, hn⟩ := hs₁.chain_node j _ hchain
          cases hn
      · exact hs₁.todo_apart x (List.mem_flatMap.mpr ⟨k, hk, hne k x hx⟩) j hmem
    rw [foldlM_cons_ok hm₁]
    refine ih _ _ _ hs₁ hpower₁ m₁ h₁ fun k hk => ?_
    obtain ⟨hobj, hchain⟩ := hold k (List.mem_cons_of_mem _ hk)
    have hsame' := fun x hx => hsame x (happart k hk x hx)
    rw [(hsame' _ List.mem_cons_self).1, (hsame' _ List.mem_cons_self).2]
    exact ⟨hobj, hchain.congr fun x hx => (hsame' x (List.mem_cons_of_mem _ hx)).2⟩

/-! ## Operations -/

section
variable {req : ObjRequest hash}

theorem find_refines (h : m.Refines t) (hap : t.Apart) : m.find req = .ok (t.find req) := by
  have hbucket := h.bucket
  have hlength := h.length_lt hap (Nat.le_refl m.nodes)
  obtain ⟨c, rfl, -⟩ := h
  unfold find Hashtable.find
  generalize (if req.hv = 0 then hash req.objId else req.hv) = hv
  dsimp only
  by_cases he : m.empty (m.place hv)
  · have he' : (m.along c).empty ((m.along c).place hv) := he
    rw [if_pos he, if_pos he']
  · have he' : ¬ (m.along c).empty ((m.along c).place hv) := he
    rw [if_neg he, if_neg he']
    exact congrArg ended ((hbucket (m.place hv)).findFrom_eq (hlength _))

/-- An object joins the end of a bucket. -/
theorem insertInChain_refines (req : ObjRequest hash) (h : m.Refines t) (hs : t.Stored l s [])
    (i : Nat) :
    ∃ m', m.insertInChain i req = .ok (m', .node m.nodes) ∧
      m'.Refines { (t.alloc.1.copyRequestToCacheObj t.alloc.2 req).setChain i
          (t.alloc.1.chain i ++ [t.alloc.2]) with nCurItem := t.nCurItem + 1 } := by
  have hb := h.nodes ▸ hs.node_not_mem fun j hmem => hs.fresh (hs.mem_of_bucket hmem)
  have hnext : ∀ x, x ≠ .node m.nodes →
      (m.alloc.1.copyRequestToCacheObj (.node m.nodes) req).hashNext x = m.hashNext x :=
    fun x hx => if_neg hx
  obtain ⟨last, hlast, -, hlb, hrefines⟩ := lastObjInBucket_spec
    (m.alloc.1.copyRequestToCacheObj (.node m.nodes) req) h hs.apart i hb rfl (Nat.le_succ _)
    hnext
  obtain ⟨c, rfl, -⟩ := h
  refine ⟨_, congrArg (Except.map _) hlast, ?_⟩
  refine hrefines { (m.alloc.1.copyRequestToCacheObj (.node m.nodes) req).setHashNext last
    (some (.node m.nodes)) with nCurItem := m.nCurItem + 1 } rfl ?_ (if_pos rfl) ?_
  · exact (if_neg hlb.symm).trans (if_pos rfl)
  · exact fun x hxb hxl => (if_neg hxl).trans (hnext x hxb)

theorem insert_refines (req : ObjRequest hash) (h : m.Refines t) (hs : t.Stored l s []) :
    ∃ m', m.insert req = .ok (m', (t.insert req).2) ∧ m'.Refines (t.insert req).1 := by
  unfold insert Hashtable.insert
  obtain ⟨m₁, hm₁, h₁⟩ : ∃ m₁,
      (if 2 ^ m.hashPower * 4 / 5 < m.nCurItem then m.expand else .ok m) = .ok m₁ ∧
        m₁.Refines (if 2 ^ t.hashPower * 4 / 5 < t.nCurItem then t.expand else t) := by
    rw [h.hashPower, h.nCurItem]
    split
    · exact expand_refines h hs
    · exact ⟨m, rfl, h⟩
  obtain ⟨f, hs₁, -⟩ : t.Kept (if 2 ^ t.hashPower * 4 / 5 < t.nCurItem then t.expand else t) l s [] := by
    split
    · exact Hashtable.expand_kept hs
    · exact hs.kept fun _ _ => rfl
  rw [hm₁]
  generalize (if 2 ^ t.hashPower * 4 / 5 < t.nCurItem then t.expand else t) = t₁ at h₁ hs₁ ⊢
  have hchain := insertInChain_refines req h₁ hs₁ (t₁.place (hash req.objId))
  obtain ⟨c, rfl, hc⟩ := h₁
  dsimp only [Except.bind]
  by_cases he : m₁.empty (m₁.place (hash req.objId))
  · have he' : (m₁.along c).empty ((m₁.along c).place (hash req.objId)) := he
    rw [if_pos he, if_pos he']
    exact ⟨_, rfl, c, rfl, hc⟩
  · have he' : ¬ (m₁.along c).empty ((m₁.along c).place (hash req.objId)) := he
    rw [if_neg he, if_neg he']
    exact hchain

theorem deleteFirst_refines (h : m.Refines t) (hap : t.Apart) (i : Nat) :
    (m.deleteFirst i).Refines (t.deleteFirst i) := by
  obtain ⟨-, hbucket⟩ := h.bucket i
  obtain ⟨c, rfl, hc⟩ := h
  have h : m.Refines (m.along c) := ⟨c, rfl, hc⟩
  change Chain m.hashNext (m.hashNext (m.table i)) ((m.along c).chain i) at hbucket
  unfold deleteFirst Hashtable.deleteFirst
  cases hci : (m.along c).chain i with
  | nil =>
    rw [hci, chain_nil] at hbucket
    rw [hbucket]
    have hsame : (fun j => if j = i then [] else c j) = c := by
      funext j
      split
      · next hji => exact hji ▸ hci.symm
      · rfl
    have hset := h.setPlace (i := i) (c := []) (((m.setObj (m.table i) .zero).setHashNext
      (m.table i) none).setLinks (((ObjList.deleteObjInTable m.links (m.table i)).setPrev
        (m.table i) none).setNext (m.table i) none)) hap rfl (fun x hx => if_neg hx) (if_pos rfl)
      List.not_mem_nil
    exact (congrArg (Refines _) (congrArg (along _) hsame)).mp hset
  | cons b rest =>
    rw [hci] at hbucket
    obtain ⟨hb, hrest⟩ := hbucket
    rw [hb]
    have hnot : m.table i ∉ rest := fun hmem =>
      hap.table i i (show m.table i ∈ (m.along c).chain i by
        rw [hci]; exact List.mem_cons_of_mem _ hmem)
    refine h.setPlace _ hap rfl (fun x hx => if_neg hx) ?_ hnot
    have hself : (m.moveObjToNewLoc (m.table i) b).hashNext (m.table i) = m.hashNext b := if_pos rfl
    exact hself ▸ hrest

theorem deleteInChain_refines (h : m.Refines t) (hap : t.Apart) (ha : a ∈ t.chain i) :
    ∃ m', m.deleteInChain i a = .ok m' ∧ m'.Refines (t.deleteInChain i a) := by
  obtain ⟨c₁, c₂, hsplit⟩ := List.append_of_mem ha
  obtain ⟨l₁, p, hp⟩ : ∃ l₁ p, t.table i :: c₁ = l₁ ++ [p] :=
    (List.eq_nil_or_concat' (t.table i :: c₁)).resolve_left (List.cons_ne_nil _ _)
  have hwhole : t.table i :: t.chain i = l₁ ++ p :: a :: c₂ := by
    rw [hsplit, ← List.cons_append, hp, List.append_assoc]
    rfl
  have hnodup := hap.bucket_nodup (i := i)
  have hbucket := h.bucket i
  have hlength := h.length_lt hap (Nat.le_refl m.nodes) i
  have hpmem : p ∈ t.table i :: t.chain i := by rw [hwhole]; simp
  rw [hwhole] at hnodup hbucket hlength
  have hbefore := hbucket.beforeFrom_eq hnodup (n := m.turns) (by simp at hlength; omega)
  have herase : (t.chain i).erase a = c₁ ++ c₂ := by
    have hac : a ∉ c₁ := by
      have hnodup' := hap.nodup i
      rw [hsplit] at hnodup'
      exact fun hmem => (List.nodup_append'.mp hnodup').2.2 hmem List.mem_cons_self
    rw [hsplit, List.erase_append_right _ hac, List.erase_cons_head]
  obtain ⟨hnodup₁, hnodup₂, hdisj⟩ := List.nodup_append.mp hnodup
  have hother : ∀ x ∈ l₁ ++ c₂, x ≠ p := by
    rintro x hx rfl
    rcases List.mem_append.mp hx with hx | hx
    · exact hdisj x hx x List.mem_cons_self rfl
    · exact (List.nodup_cons.mp hnodup₂).1 (List.mem_cons_of_mem _ hx)
  have hdelete : m.deleteInChain i a = .ok ((m.setHashNext p (m.hashNext a)).setLinks
      (ObjList.deleteObjInTable m.links a)) := by
    rw [deleteInChain, h.table, hbefore]
    rfl
  refine ⟨_, hdelete, ?_⟩
  have hset := h.setBucket (i := i) (c := c₁ ++ c₂) ((m.setHashNext p (m.hashNext a)).setLinks
    (ObjList.deleteObjInTable m.links a)) rfl
    (fun j hji x hx => if_neg (hap.ne hji hx hpmem)) (by
      rw [← List.cons_append, hp, List.append_assoc]
      exact hbucket.unlink (if_pos rfl) fun x hx => if_neg (hother x hx))
  obtain ⟨c, rfl, -⟩ := h
  rw [← herase] at hset
  exact hset

theorem delete_refines {t' : Hashtable hash} (h : m.Refines t) (hap : t.Apart)
    (ht' : t.delete a = .ok t') : ∃ m', m.delete a = .ok m' ∧ m'.Refines t' := by
  have h' : m.decItem.Refines t.decItem := by
    obtain ⟨c, rfl, hc⟩ := h
    exact ⟨c, rfl, hc⟩
  have hap' : t.decItem.Apart := ⟨hap.table, hap.chain, hap.nodup, hap.length⟩
  have hplace : m.decItem.place (hash (m.decItem.objs a).objId) =
      t.decItem.place (hash (t.decItem.objs a).objId) := by
    obtain ⟨c, rfl, -⟩ := h
    rfl
  unfold Hashtable.delete at ht'
  unfold delete
  dsimp only at ht' ⊢
  rw [hplace, h'.empty, h'.table]
  split at ht'
  · cases ht'
  · next hne =>
    rw [if_neg hne]
    split at ht'
    · next ha =>
      cases ht'
      rw [if_pos ha]
      exact ⟨_, rfl, deleteFirst_refines h' hap' _⟩
    · next hna =>
      rw [if_neg hna]
      split at ht'
      · next ha =>
        cases ht'
        exact deleteInChain_refines h' hap' ha
      · cases ht'

end

end ChainedHashtable

end C2DN.Simulator
