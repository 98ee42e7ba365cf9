import C2DN.Simulator.Hashtable

/-!
# Lemmas for the hash table

`Stored t l s todo`: the objects are at the addresses `s`, in the buckets of their hash values, except
for those in `todo`, which an expansion has not moved yet. The list of the cache is `l`, and an object
that is not on the list has no links. Every operation keeps this; if it moves objects, their
addresses in `l` and `s` change in the same way and the objects stay as they are.

In a cache every object is on the list (`Filed`); with an empty `todo` this is the invariant of its
table (`Holds`).
-/

namespace C2DN.Simulator

namespace Hashtable
variable {hash : Nat → Nat} {t : Hashtable hash} {l s todo : List Addr} {a b : Addr} {i : Nat}

/-- The addresses of a bucket. -/
def bucket (t : Hashtable hash) (i : Nat) : List Addr :=
  if t.empty i then [] else t.table i :: t.chain i

/-- The place of the object at an address. -/
def home (t : Hashtable hash) (a : Addr) : Nat := t.place (hash (t.objs a).objId)

/-- A struct that is not in use: it has no metadata and no links. -/
structure Blank (t : Hashtable hash) (a : Addr) : Prop where
  info : (t.objs a).info = .fresh
  prev : t.links.prev a = none
  next : t.links.next a = none

/-- An address of an older table or of an allocated struct. -/
def Old (t : Hashtable hash) : Addr → Prop
  | .slot p _ => p < t.hashPower
  | .node n => n < t.nodes

structure Stored (t : Hashtable hash) (l s todo : List Addr) : Prop where
  linked : t.links.Linked l
  sub : ∀ a ∈ l, a ∈ s
  off : ∀ a ∈ s, a ∉ l → t.links.prev a = none ∧ t.links.next a = none
  mem : ∀ a, a ∈ s ↔ a ∈ todo ∨ ∃ i, a ∈ t.bucket i
  todo_nodup : todo.Nodup
  todo_apart : ∀ a ∈ todo, ∀ i, a ∉ t.bucket i
  todo_old : ∀ a ∈ todo, t.Old a
  home : ∀ i, ∀ a ∈ t.bucket i, t.home a = i
  chain_node : ∀ i, ∀ a ∈ t.chain i, ∃ n < t.nodes, a = .node n
  chain_nodup : ∀ i, (t.chain i).Nodup
  blank : ∀ i, t.empty i → t.chain i = [] ∧ t.Blank (t.table i)
  pos : ∀ a ∈ s, (t.objs a).objSize ≠ 0
  ids : ((s.map t.objs).map CacheObj.objId).Nodup
  count : t.nCurItem = s.length

structure Filed (t : Hashtable hash) (l todo : List Addr) : Prop where
  linked : t.links.Linked l
  mem : ∀ a, a ∈ l ↔ a ∈ todo ∨ ∃ i, a ∈ t.bucket i
  todo_nodup : todo.Nodup
  todo_apart : ∀ a ∈ todo, ∀ i, a ∉ t.bucket i
  todo_old : ∀ a ∈ todo, t.Old a
  home : ∀ i, ∀ a ∈ t.bucket i, t.home a = i
  chain_node : ∀ i, ∀ a ∈ t.chain i, ∃ n < t.nodes, a = .node n
  chain_nodup : ∀ i, (t.chain i).Nodup
  blank : ∀ i, t.empty i → t.chain i = [] ∧ t.Blank (t.table i)
  pos : ∀ a ∈ l, (t.objs a).objSize ≠ 0
  ids : ((l.map t.objs).map CacheObj.objId).Nodup
  count : t.nCurItem = l.length

theorem filed_iff : t.Filed l todo ↔ t.Stored l l todo :=
  ⟨fun h => { h with sub := fun _ => id, off := fun _ ha hal => absurd ha hal }, fun h => { h with }⟩

@[simp] theorem mem_bucket : a ∈ t.bucket i ↔ ¬ t.empty i ∧ (a = t.table i ∨ a ∈ t.chain i) := by
  unfold bucket
  split <;> simp_all

theorem empty_iff : t.empty i ↔ (t.objs (t.table i)).objSize = 0 := beq_iff_eq

theorem table_inj {j : Nat} (h : t.table i = t.table j) : i = j := (Addr.slot.inj h).2

namespace Stored

theorem mem_of_bucket (h : t.Stored l s todo) (ha : a ∈ t.bucket i) : a ∈ s := (h.mem a).mpr (.inr ⟨i, ha⟩)

theorem mem_of_todo (h : t.Stored l s todo) (ha : a ∈ todo) : a ∈ s := (h.mem a).mpr (.inl ha)

/-- No object is at an empty place of the table. -/
theorem not_empty (h : t.Stored l s todo) (hi : t.empty i) : t.table i ∉ s :=
  fun hmem => h.pos _ hmem (empty_iff.mp hi)

/-- The objects are in allocated structs. -/
theorem lt_nodes {n : Nat} (h : t.Stored l s todo) (hn : .node n ∈ s) : n < t.nodes := by
  rcases (h.mem _).mp hn with hn | ⟨i, hn⟩
  · exact h.todo_old _ hn
  · obtain ⟨-, hn | hn⟩ := mem_bucket.mp hn
    · cases hn
    · obtain ⟨m, hm, heq⟩ := h.chain_node i _ hn
      cases heq
      exact hm

theorem fresh (h : t.Stored l s todo) : .node t.nodes ∉ s :=
  fun hmem => Nat.lt_irrefl _ (h.lt_nodes hmem)

theorem nodup (h : t.Stored l s todo) : s.Nodup := (h.ids.of_map _).of_map _

theorem table_not_mem_chain {j : Nat} (h : t.Stored l s todo) : t.table i ∉ t.chain j := by
  intro hmem
  obtain ⟨n, -, hn⟩ := h.chain_node j _ hmem
  cases hn

end Stored

/-! ## An object joins a bucket -/

/-- The object `o` joins bucket `i` at the address `b`: in the table, if the place is empty, or at the
end of the chain. -/
structure Joined (t : Hashtable hash) (i : Nat) (b : Addr) (o : CacheObj) (t' : Hashtable hash) :
    Prop where
  power : t'.hashPower = t.hashPower
  nodes : t.nodes ≤ t'.nodes
  self : t'.objs b = o
  objs : ∀ x, x ≠ b → t'.objs x = t.objs x
  chain : ∀ j, j ≠ i → t'.chain j = t.chain j
  place : t.empty i ∧ b = t.table i ∧ t'.chain i = [] ∨
    ¬ t.empty i ∧ (∃ n < t'.nodes, b = .node n ∧ b ∉ t.chain i) ∧ t'.chain i = t.chain i ++ [b]

namespace Joined
variable {t' : Hashtable hash} {o : CacheObj}

theorem table (h : t.Joined i b o t') (j : Nat) : t'.table j = t.table j := by
  rw [Hashtable.table, h.power]; rfl

theorem table_ne {j : Nat} (h : t.Joined i b o t') (hj : j ≠ i) : t.table j ≠ b := by
  rcases h.place with ⟨-, rfl, -⟩ | ⟨-, ⟨n, -, rfl, -⟩, -⟩
  · exact fun heq => hj (table_inj heq)
  · exact nofun

theorem empty_other {j : Nat} (h : t.Joined i b o t') (hj : j ≠ i) : t'.empty j = t.empty j := by
  rw [empty, h.table, h.objs _ (h.table_ne hj)]; rfl

theorem not_empty_self (h : t.Joined i b o t') (ho : o.objSize ≠ 0) : ¬ t'.empty i := by
  rw [empty_iff, h.table]
  rcases h.place with ⟨-, rfl, -⟩ | ⟨hne, ⟨n, -, rfl, -⟩, -⟩
  · rwa [h.self]
  · rwa [h.objs (t.table i) nofun, ← empty_iff]

theorem mem_bucket {j : Nat} {x : Addr} (h : t.Joined i b o t') (ho : o.objSize ≠ 0)
    (hchain : t.empty i → t.chain i = []) :
    x ∈ t'.bucket j ↔ x ∈ t.bucket j ∨ j = i ∧ x = b := by
  by_cases hj : j = i
  · subst hj
    simp only [Hashtable.mem_bucket, h.not_empty_self ho, h.table]
    rcases h.place with ⟨he, rfl, hc⟩ | ⟨hne, -, hc⟩
    · simp [he, hc]
    · simp [hne, hc, or_assoc]
  · simp only [Hashtable.mem_bucket, h.empty_other hj, h.table, h.chain j hj, hj, false_and, or_false]

/-- The objects in the table after an object joined a bucket. -/
theorem stored {l' s' todo' : List Addr} (h : t.Stored l s todo) (hj : t.Joined i b o t')
    (ho : o.objSize ≠ 0) (hi : t.place (hash o.objId) = i) (hlinked : t'.links.Linked l')
    (hsub : ∀ x ∈ l', x ∈ s')
    (hoff : ∀ x ∈ s', x ∉ l' → t'.links.prev x = none ∧ t'.links.next x = none)
    (hframe : t.links.Frame (b :: s) t'.links)
    (hmem : ∀ x, x ∈ s' ↔ x = b ∨ x ∈ todo' ∨ ∃ j, x ∈ t.bucket j) (htodo : todo'.Sublist todo)
    (hb : b ∉ todo') (hb' : ∀ j, b ∉ t.bucket j)
    (hids : ((s'.map t'.objs).map CacheObj.objId).Nodup) (hcount : t'.nCurItem = s'.length) :
    t'.Stored l' s' todo' := by
  have hbucket : ∀ j x, x ∈ t'.bucket j ↔ x ∈ t.bucket j ∨ j = i ∧ x = b :=
    fun j x => hj.mem_bucket ho fun he => (h.blank i he).1
  have hplace : ∀ hv, t'.place hv = t.place hv := fun hv => by
    rw [Hashtable.place, hj.power]; rfl
  refine ⟨hlinked, hsub, hoff, ?_, htodo.nodup h.todo_nodup, ?_, ?_, ?_, ?_, ?_, ?_, ?_, hids,
    hcount⟩
  · intro x
    simp only [hmem, hbucket]
    constructor
    · rintro (rfl | hx | ⟨j, hx⟩)
      · exact .inr ⟨i, .inr ⟨rfl, rfl⟩⟩
      · exact .inl hx
      · exact .inr ⟨j, .inl hx⟩
    · rintro (hx | ⟨j, hx | ⟨-, hx⟩⟩)
      · exact .inr (.inl hx)
      · exact .inr (.inr ⟨j, hx⟩)
      · exact .inl hx
  · intro x hx j hxj
    rcases (hbucket j x).mp hxj with hxj | ⟨-, rfl⟩
    · exact h.todo_apart x (htodo.subset hx) j hxj
    · exact hb hx
  · intro x hx
    have hold := h.todo_old x (htodo.subset hx)
    cases x with
    | slot p k => exact Nat.lt_of_lt_of_eq hold hj.power.symm
    | node n => exact Nat.lt_of_lt_of_le hold hj.nodes
  · intro j x hx
    rw [Hashtable.home, hplace]
    rcases (hbucket j x).mp hx with hx | ⟨rfl, rfl⟩
    · rw [hj.objs x fun heq => hb' j (heq ▸ hx)]
      exact h.home j x hx
    · rw [hj.self]
      exact hi
  · intro j x hx
    obtain ⟨n, hn, rfl⟩ | ⟨n, hn, rfl, -⟩ : (∃ n < t.nodes, x = .node n) ∨
        ∃ n < t'.nodes, x = .node n ∧ x ∉ t.chain i := by
      by_cases hji : j = i
      · subst hji
        rcases hj.place with ⟨-, -, hc⟩ | ⟨-, hn, hc⟩
        · rw [hc] at hx; cases hx
        · rw [hc, List.mem_append, List.mem_singleton] at hx
          rcases hx with hx | rfl
          · exact .inl (h.chain_node j x hx)
          · exact .inr hn
      · rw [hj.chain j hji] at hx
        exact .inl (h.chain_node j x hx)
    · exact ⟨n, Nat.lt_of_lt_of_le hn hj.nodes, rfl⟩
    · exact ⟨n, hn, rfl⟩
  · intro j
    by_cases hji : j = i
    · subst hji
      rcases hj.place with ⟨-, -, hc⟩ | ⟨-, ⟨n, -, -, hn⟩, hc⟩
      · rw [hc]; exact List.nodup_nil
      · rw [hc]
        exact List.nodup_append'.mpr ⟨h.chain_nodup j, List.nodup_singleton b, by simpa using hn⟩
    · rw [hj.chain j hji]
      exact h.chain_nodup j
  · intro j he
    have hji : j ≠ i := fun heq => hj.not_empty_self ho (heq ▸ he)
    rw [hj.empty_other hji] at he
    obtain ⟨hc, hblank⟩ := h.blank j he
    have hne : t.table j ≠ b := hj.table_ne hji
    obtain ⟨hp, hn⟩ := hframe (t.table j) (by simp [hne, h.not_empty he])
    rw [hj.chain j hji, hj.table]
    refine ⟨hc, ?_, ?_, ?_⟩
    · rw [hj.objs _ hne]; exact hblank.info
    · rw [hp]; exact hblank.prev
    · rw [hn]; exact hblank.next
  · intro x hx
    by_cases hxb : x = b
    · rw [hxb, hj.self]; exact ho
    · rw [hj.objs x hxb]
      refine h.pos x ((h.mem x).mpr ?_)
      exact (((hmem x).mp hx).resolve_left hxb).imp_left fun hx => htodo.subset hx

end Joined

/-! ## Expansion -/

/-- The objects of `t` at the addresses `s` are in `t'` at the addresses that `f` gives. -/
def Moved (t t' : Hashtable hash) (s : List Addr) (f : Addr → Addr) : Prop :=
  ∀ x ∈ s, t'.objs (f x) = t.objs x

theorem Moved.map {t' : Hashtable hash} {f : Addr → Addr} (h : t.Moved t' s f) :
    (s.map f).map t'.objs = s.map t.objs := by
  rw [List.map_map]
  exact List.map_congr_left h

theorem Moved.trans {t' t'' : Hashtable hash} {f g : Addr → Addr} (h : t.Moved t' s f)
    (h' : t'.Moved t'' (s.map f) g) : t.Moved t'' s (g ∘ f) :=
  fun x hx => (h' (f x) (List.mem_map_of_mem hx)).trans (h x hx)

/-- Objects keep what they have when one of them moves to a new address. -/
theorem moved_of_self {t' : Hashtable hash} (hab : b = a ∨ b ∉ s) (hself : t'.objs b = t.objs a)
    (hobjs : ∀ x, x ≠ b → t'.objs x = t.objs x) :
    t.Moved t' s fun x => if x = a then b else x := by
  intro x hx
  dsimp only
  split
  · next heq => rw [hself, heq]
  · next hne =>
    refine hobjs x ?_
    rintro rfl
    exact hab.elim hne fun hb => hb hx

theorem mem_move {x : Addr} (ha : a ∈ l) :
    (x ∈ l.map fun x => if x = a then b else x) ↔ x = b ∨ x ∈ l ∧ x ≠ a := by
  simp only [List.mem_map]
  constructor
  · rintro ⟨y, hy, rfl⟩
    by_cases hya : y = a
    · exact .inl (if_pos hya)
    · rw [if_neg hya]; exact .inr ⟨hy, hya⟩
  · rintro (rfl | ⟨hx, hxa⟩)
    · exact ⟨a, ha, if_pos rfl⟩
    · exact ⟨x, hx, if_neg hxa⟩

/-- A new struct is not on the list. -/
theorem alloc_linked (h : t.Stored l s todo) : t.alloc.1.links.Linked l := by
  have hfresh : .node t.nodes ∉ l := mt (h.sub _) h.fresh
  exact h.linked.congr rfl rfl (fun _ hx => if_neg (ne_of_mem_of_not_mem hx hfresh))
    fun _ hx => if_neg (ne_of_mem_of_not_mem hx hfresh)

theorem moveIntoNewTable_nCurItem {part : Bool} :
    (t.moveIntoNewTable a part).nCurItem = t.nCurItem := by
  unfold moveIntoNewTable
  dsimp only
  split
  · rfl
  · split <;> rfl

/-- Where an object moves to. -/
def newLoc (t : Hashtable hash) (obj : Addr) (partOfOldTable : Bool) : Addr :=
  if t.empty (t.home obj) then t.table (t.home obj)
  else if partOfOldTable then .node t.nodes
  else obj

theorem moveIntoNewTable_joined {part : Bool} (h : t.Stored l s (a :: todo))
    (hpart : part = false → ∃ n, a = .node n) : (t.newLoc a part = a ∨ t.newLoc a part ∉ s) ∧
      t.Joined (t.home a) (t.newLoc a part) (t.objs a) (t.moveIntoNewTable a part) ∧
      (t.moveIntoNewTable a part).links.Linked
        (l.map fun x => if x = a then t.newLoc a part else x) ∧
      t.links.Frame (t.newLoc a part :: l) (t.moveIntoNewTable a part).links ∧
      (a ∉ l → (t.moveIntoNewTable a part).links.prev (t.newLoc a part) = none ∧
        (t.moveIntoNewTable a part).links.next (t.newLoc a part) = none) := by
  have ha : a ∈ s := h.mem_of_todo List.mem_cons_self
  have hoff := h.off a ha
  have hi : t.place (hash (t.objs a).objId) = t.home a := rfl
  unfold moveIntoNewTable newLoc
  rw [hi]
  dsimp only
  split
  · next he =>
    have hb := h.not_empty he
    obtain ⟨hlinked, hframe, hnone⟩ :=
      ObjList.moveObjToNewLoc_linked h.linked hoff (mt (h.sub _) hb)
    exact ⟨.inr hb, ⟨rfl, Nat.le_refl _, if_pos rfl, fun x hx => if_neg hx,
      fun j hj => if_neg hj, .inl ⟨he, rfl, if_pos rfl⟩⟩, hlinked, hframe, hnone⟩
  · next hne =>
    split
    · have hane : a ≠ .node t.nodes := ne_of_mem_of_not_mem ha h.fresh
      have hoff' : a ∉ l → t.alloc.1.links.prev a = none ∧ t.alloc.1.links.next a = none :=
        fun hal => (hoff hal).imp (if_neg hane).trans (if_neg hane).trans
      obtain ⟨hlinked, hframe, hnone⟩ :=
        ObjList.moveObjToNewLoc_linked (alloc_linked h) hoff' (mt (h.sub _) h.fresh)
      refine ⟨.inr h.fresh, ⟨rfl, Nat.le_succ _, ?_, ?_, fun j hj => if_neg hj,
        .inr ⟨hne, ⟨t.nodes, Nat.lt_succ_self _, rfl, ?_⟩, if_pos rfl⟩⟩, hlinked, ?_, hnone⟩
      · exact (if_pos rfl).trans (if_neg hane)
      · exact fun x hx => (if_neg hx).trans (if_neg hx)
      · exact fun hmem => h.fresh (h.mem_of_bucket (mem_bucket.mpr ⟨hne, .inr hmem⟩))
      · intro x hx
        have hxn : x ≠ .node t.nodes := List.ne_of_not_mem_cons hx
        obtain ⟨hp, hn⟩ := hframe x hx
        exact ⟨hp.trans (if_neg hxn), hn.trans (if_neg hxn)⟩
    · next hpart' =>
      obtain ⟨n, rfl⟩ := hpart (by simpa using hpart')
      have hn : n < t.nodes := h.lt_nodes ha
      have hmap : (l.map fun x => if x = .node n then .node n else x) = l := by
        refine (List.map_congr_left fun x _ => ?_).trans (List.map_id l)
        by_cases hx : x = .node n <;> simp [hx]
      refine ⟨.inl rfl, ⟨rfl, Nat.le_refl _, rfl, fun x _ => rfl, fun j hj => if_neg hj,
        .inr ⟨hne, ⟨n, hn, rfl, ?_⟩, if_pos rfl⟩⟩, ?_, fun x _ => ⟨rfl, rfl⟩, hoff⟩
      · exact fun hmem => h.todo_apart _ List.mem_cons_self (t.home (.node n))
          (mem_bucket.mpr ⟨hne, .inr hmem⟩)
      · rw [hmap]; exact h.linked

/-- The objects of `t` are in `t'`, except for `todo`, and an object that moved is followed by the
list. -/
def Kept (t t' : Hashtable hash) (l s todo : List Addr) : Prop :=
  ∃ f, t'.Stored (l.map f) (s.map f) todo ∧ t.Moved t' s f

theorem Stored.kept {t' : Hashtable hash} (h : t'.Stored l s todo) (hobjs : ∀ x ∈ s, t'.objs x = t.objs x) :
    t.Kept t' l s todo :=
  ⟨id, by rwa [List.map_id, List.map_id], hobjs⟩

theorem Kept.trans {t' t'' : Hashtable hash} {todo' : List Addr} (h : t.Kept t' l s todo)
    (h' : ∀ l s, t'.Stored l s todo → t'.Kept t'' l s todo') : t.Kept t'' l s todo' := by
  obtain ⟨f, hf, hmoved⟩ := h
  obtain ⟨g, hg, hmoved'⟩ := h' _ _ hf
  rw [List.map_map, List.map_map] at hg
  exact ⟨g ∘ f, hg, hmoved.trans hmoved'⟩

/-- One object moves into the new table. -/
theorem moveIntoNewTable_kept (part : Bool) (h : t.Stored l s (a :: todo))
    (hpart : part = false → ∃ n, a = .node n) : t.Kept (t.moveIntoNewTable a part) l s todo := by
  obtain ⟨hab, hj, hlinked, hframe, hnone⟩ := moveIntoNewTable_joined h hpart
  generalize t.newLoc a part = b at hab hj hlinked hframe hnone
  have ha : a ∈ s := h.mem_of_todo List.mem_cons_self
  obtain ⟨hatodo, -⟩ := List.nodup_cons.mp h.todo_nodup
  have hmoved := moved_of_self hab hj.self hj.objs
  have hmem : ∀ x, x ∈ s ∧ x ≠ a ↔ x ∈ todo ∨ ∃ j, x ∈ t.bucket j := by
    intro x
    rw [h.mem, List.mem_cons]
    constructor
    · rintro ⟨(rfl | hx) | hx, hxa⟩
      · exact absurd rfl hxa
      · exact .inl hx
      · exact .inr hx
    · rintro (hx | ⟨j, hx⟩)
      · exact ⟨.inl (.inr hx), ne_of_mem_of_not_mem hx hatodo⟩
      · refine ⟨.inr ⟨j, hx⟩, ?_⟩
        rintro rfl
        exact h.todo_apart x List.mem_cons_self j hx
  have hb : ¬ (b ∈ s ∧ b ≠ a) := fun ⟨hbs, hba⟩ => hab.elim hba fun hb => hb hbs
  refine ⟨_, hj.stored h (h.pos a ha) rfl hlinked (fun x hx => List.map_subset _ h.sub hx) ?_ ?_ ?_
    (List.sublist_cons_self a todo) ?_ ?_ ?_ ?_, hmoved⟩
  · intro x hx hxl
    rcases (mem_move ha).mp hx with rfl | ⟨hxs, hxa⟩
    · exact hnone fun hal => hxl ((mem_move hal).mpr (.inl rfl))
    · have hxl' : x ∉ l := fun hmem => hxl (List.mem_map.mpr ⟨x, hmem, if_neg hxa⟩)
      have hxb : x ≠ b := fun heq => hb ⟨heq ▸ hxs, heq ▸ hxa⟩
      obtain ⟨hp, hn⟩ := hframe x (by simp [hxb, hxl'])
      obtain ⟨hp', hn'⟩ := h.off x hxs hxl'
      exact ⟨hp.trans hp', hn.trans hn'⟩
  · exact fun x hx => hframe x (mt (fun hmem => List.cons_subset_cons b h.sub hmem) hx)
  · intro x
    rw [mem_move ha, hmem]
  · exact fun hbt => hb ((hmem b).mpr (.inl hbt))
  · exact fun j hbj => hb ((hmem b).mpr (.inr ⟨j, hbj⟩))
  · rw [hmoved.map]; exact h.ids
  · rw [moveIntoNewTable_nCurItem, List.length_map]; exact h.count

/-- The rest of a bucket moves. -/
theorem moveChain_kept {c : List Addr} (h : t.Stored l s (c ++ todo))
    (hc : ∀ a ∈ c, ∃ n, a = .node n) :
    t.Kept (c.foldl (fun t a => t.moveIntoNewTable a false) t) l s todo := by
  induction c generalizing t l s with
  | nil => exact h.kept fun _ _ => rfl
  | cons a c ih =>
    refine (moveIntoNewTable_kept false h fun _ => hc a List.mem_cons_self).trans fun l s h₁ => ?_
    exact ih h₁ fun x hx => hc x (List.mem_cons_of_mem _ hx)

theorem moveBucket_kept {old : Hashtable hash} (h : t.Stored l s (old.bucket i ++ todo))
    (hc : ∀ a ∈ old.chain i, ∃ n, a = .node n) : t.Kept (moveBucket old t i) l s todo := by
  unfold moveBucket
  unfold bucket at h
  split
  · next he =>
    rw [if_pos he] at h
    exact h.kept fun _ _ => rfl
  · next hne =>
    rw [if_neg hne] at h
    exact (moveIntoNewTable_kept true h nofun).trans fun l s h₁ => moveChain_kept h₁ hc

theorem Stored.bucket_nodup (h : t.Stored l s todo) : (t.bucket i).Nodup := by
  unfold bucket
  split
  · exact List.nodup_nil
  · exact List.nodup_cons.mpr ⟨h.table_not_mem_chain, h.chain_nodup i⟩

theorem Stored.mem_iff_bucket (h : t.Stored l s []) : a ∈ s ↔ ∃ i, a ∈ t.bucket i := by
  simpa using h.mem a

/-- The buckets one after the other have all objects. -/
theorem Stored.objects_perm (h : t.Stored l s []) :
    ((List.range (2 ^ t.hashPower)).flatMap t.bucket).Perm s := by
  refine (List.perm_ext_iff_of_nodup ?_ h.nodup).mpr fun a => ?_
  · refine List.nodup_flatMap.mpr ⟨fun i _ => h.bucket_nodup, ?_⟩
    refine List.nodup_range.imp fun {i j} hij => ?_
    exact fun a hi hj => hij ((h.home i a hi).symm.trans (h.home j a hj))
  · rw [h.mem_iff_bucket, List.mem_flatMap]
    refine ⟨fun ⟨i, _, ha⟩ => ⟨i, ha⟩, fun ⟨i, ha⟩ => ⟨i, ?_, ha⟩⟩
    rw [List.mem_range, ← h.home i a ha]
    exact Nat.mod_lt _ (Nat.two_pow_pos _)

/-- All objects have to move into a new table. -/
theorem newTable_kept (h : t.Stored l s []) :
    t.Kept t.newTable l s ((List.range (2 ^ t.hashPower)).flatMap t.bucket) := by
  have hkept : ∀ a ∈ s, t.isNew a = false ∧ t.newTable.Old a := by
    intro a ha
    obtain ⟨i, ha⟩ := h.mem_iff_bucket.mp ha
    obtain ⟨-, rfl | ha⟩ := mem_bucket.mp ha
    · exact ⟨by simp [isNew, Hashtable.table], Nat.lt_succ_self t.hashPower⟩
    · obtain ⟨n, hn, rfl⟩ := h.chain_node i a ha
      exact ⟨rfl, hn⟩
  have hobjs : ∀ a ∈ s, t.newTable.objs a = t.objs a :=
    fun a ha => if_neg (by simp [(hkept a ha).1])
  have hprev : ∀ a ∈ s, t.newTable.links.prev a = t.links.prev a :=
    fun a ha => if_neg (by simp [(hkept a ha).1])
  have hnext : ∀ a ∈ s, t.newTable.links.next a = t.links.next a :=
    fun a ha => if_neg (by simp [(hkept a ha).1])
  have hnew : ∀ i, t.isNew (t.newTable.table i) := fun i => by simp [isNew, Hashtable.table, newTable]
  have hempty : ∀ i, t.newTable.empty i := by
    intro i
    rw [empty_iff]
    exact congrArg CacheObj.objSize (if_pos (hnew i))
  have hbucket : ∀ i, t.newTable.bucket i = [] := fun i => if_pos (hempty i)
  have hmap : s.map t.newTable.objs = s.map t.objs := List.map_congr_left hobjs
  have htodo := h.objects_perm
  refine Stored.kept ⟨?_, h.sub, ?_, ?_, ?_, ?_, ?_, ?_, ?_, ?_, ?_, ?_, ?_, h.count⟩ hobjs
  · exact h.linked.congr rfl rfl (fun a ha => hprev a (h.sub a ha)) fun a ha => hnext a (h.sub a ha)
  · intro a ha hal
    rw [hprev a ha, hnext a ha]
    exact h.off a ha hal
  · simp [htodo.mem_iff, hbucket]
  · exact htodo.nodup_iff.mpr h.nodup
  · simp [hbucket]
  · exact fun a ha => (hkept a (htodo.mem_iff.mp ha)).2
  · simp [hbucket]
  · exact fun i a ha => nomatch ha
  · exact fun i => List.nodup_nil
  · exact fun i _ => ⟨rfl, congrArg CacheObj.info (if_pos (hnew i)), if_pos (hnew i), if_pos (hnew i)⟩
  · exact fun a ha => by rw [hobjs a ha]; exact h.pos a ha
  · rw [hmap]; exact h.ids

theorem expand_kept (h : t.Stored l s []) : t.Kept t.expand l s [] := by
  refine (newTable_kept h).trans fun l s h₀ => ?_
  have hc : ∀ i, ∀ a ∈ t.chain i, ∃ n, a = .node n := fun i a ha =>
    (h.chain_node i a ha).imp fun _ hn => hn.2
  unfold expand
  -- over the buckets that are left
  generalize List.range (2 ^ t.hashPower) = is at h₀ ⊢
  generalize t.newTable = t₀ at h₀ ⊢
  clear h
  induction is generalizing t₀ l s with
  | nil => exact h₀.kept fun _ _ => rfl
  | cons i is ih =>
    rw [List.flatMap_cons] at h₀
    exact (moveBucket_kept h₀ (hc i)).trans fun l s h₁ => ih l s _ h₁

/-- The invariant of the table of a cache. -/
def Holds (t : Hashtable hash) (l : List Addr) : Prop := t.Filed l []

theorem Holds.stored (h : t.Holds l) : t.Stored l l [] := filed_iff.mp h

theorem Stored.holds (h : t.Stored l l []) : t.Holds l := filed_iff.mpr h

/-! ## Operations -/

/-- A write that keeps the id of its object. -/
theorem setObj_objId {o : CacheObj} (hid : o.objId = (t.objs a).objId) (x : Addr) :
    ((t.setObj a o).objs x).objId = (t.objs x).objId := by
  simp only [setObj]
  split
  · next heq => rw [hid, heq]
  · rfl

section
variable {req : ObjRequest hash}

theorem hv_objRequest : (if req.hv = 0 then hash req.objId else req.hv) = hash req.objId := by
  rcases req.hv_eq with h | h
  · rw [if_pos h]
  · rw [h]; split <;> rfl

theorem create_stored {hashPower : Nat} : (create hashPower : Hashtable hash).Stored [] [] [] := by
  have hbucket : ∀ i, (create hashPower : Hashtable hash).bucket i = [] := fun i => rfl
  refine ⟨.nil rfl rfl, nofun, nofun, by simp [hbucket], List.nodup_nil, nofun, nofun,
    by simp [hbucket], fun i a ha => (nomatch ha), fun i => List.nodup_nil,
    fun i _ => ⟨rfl, rfl, rfl, rfl⟩, nofun, List.nodup_nil, rfl⟩

namespace Stored

theorem mem_iff (h : t.Stored l s []) : a ∈ s ↔ a ∈ t.bucket (t.home a) := by
  constructor
  · intro ha
    obtain ⟨i, hi⟩ := h.mem_iff_bucket.mp ha
    exact (h.home i a hi).symm ▸ hi
  · exact h.mem_of_bucket

/-- Ids are unique. -/
theorem eq_of_objId (h : t.Stored l s todo) (ha : a ∈ s) (hb : b ∈ s)
    (hid : (t.objs a).objId = (t.objs b).objId) : a = b := by
  have hids := h.ids
  rw [List.map_map] at hids
  exact List.inj_on_of_nodup_map hids ha hb hid

/-- Buckets are apart. -/
theorem ne_of_bucket {j : Nat} (h : t.Stored l s todo) (ha : a ∈ t.bucket i) (hb : b ∈ t.bucket j)
    (hij : i ≠ j) : a ≠ b := by
  rintro rfl
  exact hij ((h.home i a ha).symm.trans (h.home j a hb))

/-- The order of the objects does not matter. -/
theorem perm {s' : List Addr} (h : t.Stored l s todo) (hs : s'.Perm s) : t.Stored l s' todo :=
  { h with
    sub := fun x hx => hs.mem_iff.mpr (h.sub x hx)
    off := fun x hx => h.off x (hs.mem_iff.mp hx)
    mem := fun x => hs.mem_iff.trans (h.mem x)
    pos := fun x hx => h.pos x (hs.mem_iff.mp hx)
    ids := ((hs.map _).map _).nodup_iff.mpr h.ids
    count := h.count.trans hs.length_eq.symm }

/-- A lookup finds the object of the id. -/
theorem find_eq_some (h : t.Stored l s []) :
    t.find req = some a ↔ a ∈ s ∧ (t.objs a).objId = req.objId := by
  have hfind : t.find req = (t.bucket (t.place (hash req.objId))).find?
      fun a => (t.objs a).objId == req.objId := by
    rw [find, hv_objRequest]
    unfold bucket
    split <;> rfl
  rw [hfind]
  constructor
  · intro hf
    exact ⟨h.mem_of_bucket (List.mem_of_find?_eq_some hf), by simpa using List.find?_some hf⟩
  · rintro ⟨ha, hid⟩
    have hbucket := h.mem_iff.mp ha
    rw [Hashtable.home, hid] at hbucket
    cases hf : (t.bucket (t.place (hash req.objId))).find? fun a => (t.objs a).objId == req.objId with
    | none => exact absurd (List.find?_eq_none.mp hf a hbucket) (by simp [hid])
    | some b =>
      have hb := h.mem_of_bucket (List.mem_of_find?_eq_some hf)
      have hidb : (t.objs b).objId = req.objId := by simpa using List.find?_some hf
      rw [h.eq_of_objId hb ha (hidb.trans hid.symm)]

theorem find_eq_none (h : t.Stored l s []) :
    t.find req = none ↔ ∀ a ∈ s, (t.objs a).objId ≠ req.objId := by
  rw [Option.eq_none_iff_forall_ne_some]
  constructor
  · exact fun hf a ha hid => hf a (h.find_eq_some.mpr ⟨ha, hid⟩)
  · exact fun hs a hf => hs a (h.find_eq_some.mp hf).1 (h.find_eq_some.mp hf).2

/-- An object changes its size or its metadata. -/
theorem setObj {o : CacheObj} (h : t.Stored l s []) (ha : a ∈ s) (hid : o.objId = (t.objs a).objId)
    (hsize : o.objSize ≠ 0) : (t.setObj a o).Stored l s [] := by
  have hids := setObj_objId hid
  have hpos : ∀ x ∈ s, ((t.setObj a o).objs x).objSize ≠ 0 := by
    intro x hx
    simp only [Hashtable.setObj]
    split
    · exact hsize
    · exact h.pos x hx
  have hother : ∀ x, x ∉ s → (t.setObj a o).objs x = t.objs x :=
    fun x hx => if_neg (ne_of_mem_of_not_mem ha hx).symm
  have hempty : ∀ i, (t.setObj a o).empty i = t.empty i := by
    intro i
    by_cases hi : t.table i ∈ s
    · rw [Bool.eq_iff_iff, empty_iff, empty_iff]
      exact ⟨fun he => absurd he (hpos _ hi), fun he => absurd he (h.pos _ hi)⟩
    · rw [empty, empty]
      exact congrArg (fun o : CacheObj => o.objSize == 0) (hother _ hi)
  have hbucket : ∀ i, (t.setObj a o).bucket i = t.bucket i := fun i => by
    rw [bucket, hempty]; rfl
  have hhome : ∀ x, (t.setObj a o).home x = t.home x := fun x => by
    rw [Hashtable.home, hids]; rfl
  refine ⟨h.linked, h.sub, h.off, ?_, h.todo_nodup, nofun, nofun, ?_, h.chain_node, h.chain_nodup, ?_,
    hpos, ?_, h.count⟩
  · simpa only [hbucket] using h.mem
  · simpa only [hbucket, hhome] using h.home
  · intro i he
    rw [hempty] at he
    obtain ⟨hc, hblank⟩ := h.blank i he
    refine ⟨hc, ?_, hblank.prev, hblank.next⟩
    rw [show (t.setObj a o).table i = t.table i from rfl, hother _ (h.not_empty he)]
    exact hblank.info
  · have hsame : (s.map (t.setObj a o).objs).map CacheObj.objId =
        (s.map t.objs).map CacheObj.objId := by
      rw [List.map_map, List.map_map]
      exact List.map_congr_left fun x _ => hids x
    rw [hsame]
    exact h.ids

/-- The list is rearranged. -/
theorem setLinks {links : Links Addr} {l' : List Addr} (h : t.Stored l s [])
    (hlinked : links.Linked l') (hsub : ∀ x ∈ l', x ∈ s)
    (hoff : ∀ x ∈ s, x ∉ l' → links.prev x = none ∧ links.next x = none)
    (hframe : t.links.Frame s links) : (t.setLinks links).Stored l' s [] := by
  refine ⟨hlinked, hsub, hoff, h.mem, h.todo_nodup, nofun, nofun, h.home, h.chain_node,
    h.chain_nodup, ?_, h.pos, h.ids, h.count⟩
  intro i he
  obtain ⟨hc, hblank⟩ := h.blank i he
  obtain ⟨hp, hn⟩ := hframe _ (h.not_empty he)
  exact ⟨hc, hblank.info, hp.trans hblank.prev, hn.trans hblank.next⟩

end Stored

theorem setObj_self : t.setObj a (t.objs a) = t := by
  have hobjs : (fun x => if x = a then t.objs a else t.objs x) = t.objs := by
    funext x
    split
    · next heq => rw [heq]
    · rfl
  rw [setObj, hobjs]

/-! ### Insertion -/

/-- A new object is in the table and has no links. -/
theorem Joined.inserted {t' : Hashtable hash} {o : CacheObj} (h : t.Stored l s [])
    (hj : t.Joined i a o t') (ho : o.objSize ≠ 0) (hi : t.place (hash o.objId) = i) (ha : a ∉ s)
    (hid : ∀ x ∈ s, (t.objs x).objId ≠ o.objId) (hlinked : t'.links.Linked l)
    (hframe : t.links.Frame [a] t'.links) (hprev : t'.links.prev a = none)
    (hnext : t'.links.next a = none) (hcount : t'.nCurItem = t.nCurItem + 1) :
    t'.Stored l (s ++ [a]) [] ∧ s.map t'.objs = s.map t.objs := by
  have hobjs : s.map t'.objs = s.map t.objs :=
    List.map_congr_left fun x hx => hj.objs x (ne_of_mem_of_not_mem hx ha)
  refine ⟨hj.stored h ho hi hlinked (fun x hx => List.mem_append_left _ (h.sub x hx)) ?_ ?_ ?_
    (.refl _) List.not_mem_nil (fun j hmem => ha (h.mem_of_bucket hmem)) ?_ ?_, hobjs⟩
  · intro x hx hxl
    rcases List.mem_append.mp hx with hx | hx
    · obtain ⟨hp, hn⟩ := hframe x (by simpa using ne_of_mem_of_not_mem hx ha)
      obtain ⟨hp', hn'⟩ := h.off x hx hxl
      exact ⟨hp.trans hp', hn.trans hn'⟩
    · rw [List.mem_singleton.mp hx]
      exact ⟨hprev, hnext⟩
  · exact fun x hx => hframe x (by simpa using List.ne_of_not_mem_cons hx)
  · intro x
    rw [List.mem_append, List.mem_singleton, h.mem, or_comm]
  · rw [List.map_append, List.map_append, hobjs, List.map_singleton, List.map_singleton, hj.self]
    refine List.nodup_append'.mpr ⟨h.ids, List.nodup_singleton _, ?_⟩
    simpa using fun x hx heq => hid x hx heq
  · exact hcount.trans (by rw [h.count, List.length_append]; rfl)

theorem insert_stored (h : t.Stored l s []) (hid : ∀ a ∈ s, (t.objs a).objId ≠ req.objId)
    (hsize : req.objSize % 2 ^ 32 ≠ 0) : ∃ t' a f, t.insert req = (t', a) ∧
      t'.Stored (l.map f) (s.map f ++ [a]) [] ∧ t.Moved t' s f ∧
      t'.objs a = ⟨req.objId, req.objSize % 2 ^ 32, .fresh⟩ := by
  unfold insert
  obtain ⟨f, h₁, hmoved⟩ : t.Kept (if 2 ^ t.hashPower * 4 / 5 < t.nCurItem then t.expand else t)
      l s [] := by
    split
    · exact expand_kept h
    · exact h.kept fun _ _ => rfl
  generalize (if 2 ^ t.hashPower * 4 / 5 < t.nCurItem then t.expand else t) = t₁ at h₁ hmoved ⊢
  have hid₁ : ∀ a ∈ s.map f, (t₁.objs a).objId ≠ req.objId := by
    intro a ha
    obtain ⟨x, hx, rfl⟩ := List.mem_map.mp ha
    rw [hmoved x hx]
    exact hid x hx
  have hobjs : ∀ {t' : Hashtable hash}, (s.map f).map t'.objs = (s.map f).map t₁.objs →
      t.Moved t' s f := by
    intro t' hmap x hx
    exact (List.map_inj_left.mp hmap (f x) (List.mem_map_of_mem hx)).trans (hmoved x hx)
  dsimp only
  split
  · next he =>
    -- the place of the table is blank
    obtain ⟨hc, hblank⟩ := h₁.blank _ he
    have hj : t₁.Joined (t₁.place (hash req.objId)) (t₁.table (t₁.place (hash req.objId)))
        ⟨req.objId, req.objSize % 2 ^ 32, .fresh⟩
        { t₁.copyRequestToCacheObj (t₁.table (t₁.place (hash req.objId))) req with
          nCurItem := t₁.nCurItem + 1 } := by
      refine ⟨rfl, Nat.le_refl _, (if_pos rfl).trans ?_, fun x hx => if_neg hx, fun j hj => rfl,
        .inl ⟨he, rfl, hc⟩⟩
      rw [hblank.info]
    obtain ⟨h', hmap⟩ := hj.inserted h₁ hsize rfl (h₁.not_empty he) hid₁ h₁.linked
      (fun x _ => ⟨rfl, rfl⟩) hblank.prev hblank.next rfl
    exact ⟨_, _, f, rfl, h', hobjs hmap, hj.self⟩
  · next hne =>
    have hj : t₁.Joined (t₁.place (hash req.objId)) t₁.alloc.2
        ⟨req.objId, req.objSize % 2 ^ 32, .fresh⟩
        { (t₁.alloc.1.copyRequestToCacheObj t₁.alloc.2 req).setChain (t₁.place (hash req.objId))
            (t₁.alloc.1.chain (t₁.place (hash req.objId)) ++ [t₁.alloc.2]) with
          nCurItem := t₁.alloc.1.nCurItem + 1 } := by
      refine ⟨rfl, Nat.le_succ _, ?_, fun x hx => (if_neg hx).trans (if_neg hx), fun j hj => if_neg hj,
        .inr ⟨hne, ⟨t₁.nodes, Nat.lt_succ_self _, rfl, ?_⟩, if_pos rfl⟩⟩
      · simp [copyRequestToCacheObj, alloc, setObj, setChain, CacheObj.zero]
      · exact fun hmem => h₁.fresh (h₁.mem_of_bucket (mem_bucket.mpr ⟨hne, .inr hmem⟩))
    obtain ⟨h', hmap⟩ := hj.inserted h₁ hsize rfl h₁.fresh hid₁ (alloc_linked h₁)
      (fun x hx => ⟨if_neg (mt List.mem_singleton.mpr hx), if_neg (mt List.mem_singleton.mpr hx)⟩)
      (if_pos rfl) (if_pos rfl) rfl
    exact ⟨_, _, f, rfl, h', hobjs hmap, hj.self⟩

/-! ### Deletion -/

/-- What has to be shown of a table from which one object was deleted. -/
theorem Stored.shrink {t' : Hashtable hash} {l' s' : List Addr} (h : t.Stored l (a :: s) [])
    (hnodes : t'.nodes = t.nodes) (hlinked : t'.links.Linked l') (hsub : ∀ x ∈ l', x ∈ s')
    (hoff : ∀ x ∈ s', x ∉ l' → t'.links.prev x = none ∧ t'.links.next x = none)
    (hmem : ∀ x, x ∈ s' ↔ ∃ j, x ∈ t'.bucket j) (hhome : ∀ j, ∀ x ∈ t'.bucket j, t'.home x = j)
    (hchain : ∀ j, (t'.chain j).Sublist (t.chain j))
    (hblank : ∀ j, t'.empty j → t'.chain j = [] ∧ t'.Blank (t'.table j))
    (hobjs : s'.map t'.objs = s.map t.objs) (hcount : t'.nCurItem = t.nCurItem - 1) :
    t'.Stored l' s' [] := by
  refine ⟨hlinked, hsub, hoff, by simpa using hmem, List.nodup_nil, nofun, nofun, hhome, ?_, ?_,
    hblank, ?_, ?_, ?_⟩
  · rw [hnodes]
    exact fun j x hx => h.chain_node j x ((hchain j).subset hx)
  · exact fun j => (hchain j).nodup (h.chain_nodup j)
  · intro x hx
    have hx' : t'.objs x ∈ s.map t.objs := hobjs ▸ List.mem_map_of_mem hx
    obtain ⟨y, hy, heq⟩ := List.mem_map.mp hx'
    exact heq ▸ h.pos y (List.mem_cons_of_mem _ hy)
  · rw [hobjs]
    have hids := h.ids
    rw [List.map_cons, List.map_cons] at hids
    exact hids.tail
  · have hlength := congrArg List.length hobjs
    rw [List.length_map, List.length_map] at hlength
    rw [hcount, h.count, hlength]
    rfl

/-- An object leaves the table and no other object moves. -/
theorem Stored.leave {t' : Hashtable hash} {l' : List Addr} (h : t.Stored l (a :: s) [])
    (hpower : t'.hashPower = t.hashPower) (hnodes : t'.nodes = t.nodes)
    (hlinked : t'.links.Linked l') (hsub : ∀ x ∈ l', x ∈ s)
    (hoff : ∀ x ∈ s, x ∉ l' → t'.links.prev x = none ∧ t'.links.next x = none)
    (hbucket : ∀ j x, x ∈ t'.bucket j ↔ x ∈ t.bucket j ∧ x ≠ a)
    (hobjs : ∀ x, x ≠ a → t'.objs x = t.objs x) (hchain : ∀ j, (t'.chain j).Sublist (t.chain j))
    (hblank : ∀ j, t'.empty j → t'.chain j = [] ∧ t'.Blank (t'.table j))
    (hcount : t'.nCurItem = t.nCurItem - 1) : t.Kept t' l' s [] := by
  have has : a ∉ s := (List.nodup_cons.mp h.nodup).1
  have hsame : ∀ x ∈ s, t'.objs x = t.objs x := fun x hx => hobjs x (ne_of_mem_of_not_mem hx has)
  refine (h.shrink hnodes hlinked hsub hoff ?_ ?_ hchain hblank (List.map_congr_left hsame)
    hcount).kept hsame
  · intro x
    simp only [hbucket, exists_and_right]
    rw [← h.mem_iff_bucket, List.mem_cons]
    constructor
    · exact fun hx => ⟨.inr hx, ne_of_mem_of_not_mem hx has⟩
    · exact fun ⟨hx, hxa⟩ => hx.resolve_left hxa
  · intro j x hx
    obtain ⟨hx, hxa⟩ := (hbucket j x).mp hx
    rw [Hashtable.home, place, hpower, hobjs x hxa]
    exact h.home j x hx

/-- The empty places of the table are as blank as before. -/
theorem Stored.blank_frame {links : Links Addr} (h : t.Stored l (a :: s) [])
    (hframe : t.links.Frame (a :: s) links) (he : t.empty i) :
    t.chain i = [] ∧ (t.objs (t.table i)).info = .fresh ∧ t.table i ≠ a ∧ t.table i ∉ s ∧
      links.prev (t.table i) = none ∧ links.next (t.table i) = none := by
  obtain ⟨hc, hblank⟩ := h.blank i he
  have hi := h.not_empty he
  obtain ⟨hp, hn⟩ := hframe _ hi
  exact ⟨hc, hblank.info, List.ne_of_not_mem_cons hi, List.not_mem_of_not_mem_cons hi,
    hp.trans hblank.prev, hn.trans hblank.next⟩

section
variable {links : Links Addr} {l' : List Addr} (h : t.Stored l (a :: s) [])
  (hlinked : links.Linked l') (hsub : ∀ x ∈ l', x ∈ s)
  (hoff : ∀ x ∈ s, x ∉ l' → links.prev x = none ∧ links.next x = none)
  (hframe : t.links.Frame (a :: s) links)
include h hlinked hsub hoff hframe

/-- The first object of a bucket is deleted, and the next one moves to its address. -/
theorem deleteFirst_chain {rest : List Addr} (ha : a = t.table i) (hne : ¬ t.empty i)
    (hc : t.chain i = b :: rest) : t.Kept ((t.setLinks links).decItem.deleteFirst i) l' s [] := by
  have has : a ∉ s := (List.nodup_cons.mp h.nodup).1
  have hb : b ∈ t.chain i := by rw [hc]; exact List.mem_cons_self
  have hbi : b ∈ t.bucket i := mem_bucket.mpr ⟨hne, .inr hb⟩
  have hba : b ≠ a := fun heq => h.table_not_mem_chain (i := i) (j := i) (ha ▸ heq ▸ hb)
  have hbs : b ∈ s := (List.mem_cons.mp (h.mem_of_bucket hbi)).resolve_left hba
  have hrest : ∀ x, x ∈ rest ↔ x ∈ t.chain i ∧ x ≠ b := by
    intro x
    have hnodup := h.chain_nodup i
    rw [hc] at hnodup ⊢
    have hbr := (List.nodup_cons.mp hnodup).1
    rw [List.mem_cons]
    exact ⟨fun hx => ⟨.inr hx, ne_of_mem_of_not_mem hx hbr⟩, fun ⟨hx, hxb⟩ => hx.resolve_left hxb⟩
  have ht' : (t.setLinks links).decItem.deleteFirst i =
      ((t.setLinks links).decItem.moveObjToNewLoc a b).setChain i rest := by
    unfold deleteFirst
    rw [show (t.setLinks links).decItem.chain i = b :: rest from hc, ha]
    rfl
  rw [ht']
  obtain ⟨hlinked', hframe', hnone⟩ :=
    ObjList.moveObjToNewLoc_linked hlinked (hoff b hbs) (mt (hsub a) has)
  generalize hs : ((t.setLinks links).decItem.moveObjToNewLoc a b).setChain i rest = t'
  have hself : t'.objs a = t.objs b := by rw [← hs]; exact if_pos rfl
  have hobjs : ∀ x, x ≠ a → t'.objs x = t.objs x := fun x hx => by rw [← hs]; exact if_neg hx
  have hlinks : t'.links = ObjList.moveObjToNewLoc links a b := by rw [← hs]; rfl
  have hchain : ∀ j, t'.chain j = if j = i then rest else t.chain j := fun j => by rw [← hs]; rfl
  have htable : ∀ j, t'.table j = t.table j := fun j => by rw [← hs]; rfl
  have hempty : ∀ j, t'.empty j = t.empty j := by
    intro j
    rw [Bool.eq_iff_iff, empty_iff, empty_iff, htable]
    by_cases hj : t.table j = a
    · rw [hj, hself]
      rw [empty_iff, ← ha] at hne
      exact ⟨fun he => absurd he (h.pos b (h.mem_of_bucket hbi)), fun he => absurd he hne⟩
    · rw [hobjs _ hj]
  have hbucket : ∀ j x, x ∈ t'.bucket j ↔ x ∈ t.bucket j ∧ x ≠ b := by
    intro j x
    rw [mem_bucket, mem_bucket, hempty, htable, hchain]
    by_cases hj : j = i
    · subst hj
      rw [if_pos rfl, hrest, ← ha]
      constructor
      · rintro ⟨he, rfl | ⟨hx, hxb⟩⟩
        · exact ⟨⟨he, .inl rfl⟩, hba.symm⟩
        · exact ⟨⟨he, .inr hx⟩, hxb⟩
      · rintro ⟨⟨he, rfl | hx⟩, hxb⟩
        · exact ⟨he, .inl rfl⟩
        · exact ⟨he, .inr ⟨hx, hxb⟩⟩
    · rw [if_neg hj, iff_self_and]
      exact fun hx => h.ne_of_bucket (mem_bucket.mpr hx) hbi hj
  have hmoved : t.Moved t' s fun x => if x = b then a else x := moved_of_self (.inr has) hself hobjs
  refine ⟨_, h.shrink (by rw [← hs]; rfl) (hlinks ▸ hlinked')
    (fun x hx => List.map_subset _ hsub hx) ?_ ?_ ?_ ?_ ?_ hmoved.map (by rw [← hs]; rfl), hmoved⟩
  · intro x hx hxl
    rw [hlinks]
    rcases (mem_move hbs).mp hx with rfl | ⟨hxs, hxb⟩
    · exact hnone fun hbl => hxl ((mem_move hbl).mpr (.inl rfl))
    · have hxl' : x ∉ l' := fun hmem => hxl (List.mem_map.mpr ⟨x, hmem, if_neg hxb⟩)
      obtain ⟨hp, hn⟩ := hframe' x (by simp [hxl', ne_of_mem_of_not_mem hxs has])
      obtain ⟨hp', hn'⟩ := hoff x hxs hxl'
      exact ⟨hp.trans hp', hn.trans hn'⟩
  · intro x
    simp only [hbucket, exists_and_right]
    rw [mem_move hbs, ← h.mem_iff_bucket, List.mem_cons]
    constructor
    · rintro (rfl | ⟨hx, hxb⟩)
      · exact ⟨.inl rfl, hba.symm⟩
      · exact ⟨.inr hx, hxb⟩
    · rintro ⟨rfl | hx, hxb⟩
      · exact .inl rfl
      · exact .inr ⟨hx, hxb⟩
  · intro j x hx
    obtain ⟨hx, hxb⟩ := (hbucket j x).mp hx
    have hplace : ∀ hv, t'.place hv = t.place hv := fun hv => by rw [← hs]; rfl
    rw [home, hplace]
    by_cases hxa : x = a
    · subst hxa
      have hij : i = j := (h.home i x (mem_bucket.mpr ⟨hne, .inl ha⟩)).symm.trans (h.home j x hx)
      rw [hself, ← hij]
      exact h.home i b hbi
    · rw [hobjs x hxa]
      exact h.home j x hx
  · intro j
    rw [hchain]
    split
    · next hj => rw [hj, hc]; exact List.sublist_cons_self b rest
    · exact .refl _
  · intro j he
    rw [hempty] at he
    obtain ⟨hc, hinfo, hja, hjs, hp, hn⟩ := h.blank_frame hframe he
    obtain ⟨hp', hn'⟩ := hframe' (t.table j) (by simp [hja, mt (hsub _) hjs])
    have hji : j ≠ i := by
      rintro rfl
      exact hne he
    rw [htable, hchain, if_neg hji]
    refine ⟨hc, ?_, ?_, ?_⟩
    · rw [hobjs _ hja]; exact hinfo
    · rw [hlinks]; exact hp'.trans hp
    · rw [hlinks]; exact hn'.trans hn

/-- The only object of a bucket is deleted. -/
theorem deleteFirst_alone (hpass : links.Bypassed a) (ha : a = t.table i) (hne : ¬ t.empty i)
    (hc : t.chain i = []) : t.Kept ((t.setLinks links).decItem.deleteFirst i) l' s [] := by
  have has : a ∉ s := (List.nodup_cons.mp h.nodup).1
  have hal : a ∉ l' := mt (hsub a) has
  have ht' : (t.setLinks links).decItem.deleteFirst i =
      ((t.setLinks links).decItem.setObj a .zero).setLinks
        (((ObjList.deleteObjInTable links a).setPrev a none).setNext a none) := by
    unfold deleteFirst
    rw [show (t.setLinks links).decItem.chain i = [] from hc, ha]
    rfl
  rw [ht', ObjList.deleteObjInTable_eq hlinked hal hpass]
  generalize hs : ((t.setLinks links).decItem.setObj a .zero).setLinks
    ((links.setPrev a none).setNext a none) = t'
  have hself : t'.objs a = .zero := by rw [← hs]; exact if_pos rfl
  have hobjs : ∀ x, x ≠ a → t'.objs x = t.objs x := fun x hx => by rw [← hs]; exact if_neg hx
  have hchain : ∀ j, t'.chain j = t.chain j := fun j => by rw [← hs]; rfl
  have htable : ∀ j, t'.table j = t.table j := fun j => by rw [← hs]; rfl
  have hprev : ∀ x, t'.links.prev x = if x = a then none else links.prev x := fun x => by rw [← hs]; rfl
  have hnext : ∀ x, t'.links.next x = if x = a then none else links.next x := fun x => by rw [← hs]; rfl
  have hemptyi : t'.empty i := by rw [empty_iff, htable, ← ha, hself]; rfl
  have hempty : ∀ j, j ≠ i → t'.empty j = t.empty j := by
    intro j hj
    have hja : t.table j ≠ a := fun heq => hj (table_inj (heq.trans ha))
    rw [Bool.eq_iff_iff, empty_iff, empty_iff, htable, hobjs _ hja]
  refine h.leave (by rw [← hs]; rfl) (by rw [← hs]; rfl) ?_ hsub ?_ ?_ hobjs ?_ ?_ (by rw [← hs]; rfl)
  · refine hlinked.congr (by rw [← hs]; rfl) (by rw [← hs]; rfl) (fun x hx => ?_) fun x hx => ?_
    · rw [hprev, if_neg (ne_of_mem_of_not_mem hx hal)]
    · rw [hnext, if_neg (ne_of_mem_of_not_mem hx hal)]
  · intro x hx hxl
    rw [hprev, hnext, if_neg (ne_of_mem_of_not_mem hx has), if_neg (ne_of_mem_of_not_mem hx has)]
    exact hoff x hx hxl
  · intro j x
    by_cases hj : j = i
    · subst hj
      simp [mem_bucket, hemptyi, hc, ha]
    · rw [mem_bucket, mem_bucket, hempty j hj, htable, hchain, iff_self_and]
      exact fun hx => h.ne_of_bucket (mem_bucket.mpr hx) (mem_bucket.mpr ⟨hne, .inl ha⟩) hj
  · exact fun j => hchain j ▸ .refl _
  · intro j he
    rw [hchain, htable]
    by_cases hj : j = i
    · subst hj
      refine ⟨hc, ?_, ?_, ?_⟩
      · rw [← ha, hself]; rfl
      · rw [← ha, hprev, if_pos rfl]
      · rw [← ha, hnext, if_pos rfl]
    · rw [hempty j hj] at he
      obtain ⟨hc, hinfo, hja, -, hp, hn⟩ := h.blank_frame hframe he
      refine ⟨hc, ?_, ?_, ?_⟩
      · rw [hobjs _ hja]; exact hinfo
      · rw [hprev, if_neg hja]; exact hp
      · rw [hnext, if_neg hja]; exact hn

theorem deleteInChain_kept (hpass : links.Bypassed a) (hne : ¬ t.empty i) (ha : a ∈ t.chain i) :
    t.Kept ((t.setLinks links).decItem.deleteInChain i a) l' s [] := by
  have has : a ∉ s := (List.nodup_cons.mp h.nodup).1
  have hlinks : ((t.setLinks links).decItem.deleteInChain i a).links = links :=
    ObjList.deleteObjInTable_eq hlinked (mt (hsub a) has) hpass
  have hchain : ∀ j, ((t.setLinks links).decItem.deleteInChain i a).chain j =
      if j = i then (t.chain i).erase a else t.chain j := fun j => rfl
  refine h.leave rfl rfl (by rw [hlinks]; exact hlinked) hsub (by rw [hlinks]; exact hoff) ?_
    (fun x _ => rfl) ?_ ?_ rfl
  · intro j x
    have hempty : ((t.setLinks links).decItem.deleteInChain i a).empty j = t.empty j := rfl
    have htable : ((t.setLinks links).decItem.deleteInChain i a).table j = t.table j := rfl
    rw [mem_bucket, mem_bucket, hempty, htable, hchain]
    by_cases hj : j = i
    · subst hj
      rw [if_pos rfl, (h.chain_nodup j).mem_erase_iff]
      have : t.table j ≠ a := fun heq => h.table_not_mem_chain (heq ▸ ha)
      constructor
      · rintro ⟨he, rfl | ⟨hxa, hx⟩⟩
        · exact ⟨⟨he, .inl rfl⟩, this⟩
        · exact ⟨⟨he, .inr hx⟩, hxa⟩
      · rintro ⟨⟨he, rfl | hx⟩, hxa⟩
        · exact ⟨he, .inl rfl⟩
        · exact ⟨he, .inr ⟨hxa, hx⟩⟩
    · rw [if_neg hj, iff_self_and]
      exact fun hx => h.ne_of_bucket (mem_bucket.mpr hx) (mem_bucket.mpr ⟨hne, .inr ha⟩) hj
  · intro j
    rw [hchain]
    split
    · next hj => exact hj ▸ List.erase_sublist
    · exact .refl _
  · intro j he
    obtain ⟨hc, hinfo, -, -, hp, hn⟩ := h.blank_frame hframe he
    refine ⟨?_, hinfo, ?_, ?_⟩
    · rw [hchain]
      split
      · next hj => rw [← hj, hc]; rfl
      · exact hc
    · rw [hlinks]; exact hp
    · rw [hlinks]; exact hn

/-- An object that was taken off the list leaves the table. -/
theorem delete_kept (hpass : links.Bypassed a) :
    ∃ t', (t.setLinks links).delete a = .ok t' ∧ t.Kept t' l' s [] := by
  obtain ⟨hne, hplace⟩ := mem_bucket.mp (h.mem_iff.mp List.mem_cons_self)
  have hdelete : (t.setLinks links).delete a =
      if a = t.table (t.home a) then .ok ((t.setLinks links).decItem.deleteFirst (t.home a))
      else if a ∈ t.chain (t.home a) then .ok ((t.setLinks links).decItem.deleteInChain (t.home a) a)
      else .error .notInBucket := if_neg hne
  rw [hdelete]
  rcases hplace with ha | ha
  · rw [if_pos ha]
    cases hc : t.chain (t.home a) with
    | nil => exact ⟨_, rfl, deleteFirst_alone h hlinked hsub hoff hframe hpass ha hne hc⟩
    | cons b rest => exact ⟨_, rfl, deleteFirst_chain h hlinked hsub hoff hframe ha hne hc⟩
  · have hnot : a ≠ t.table (t.home a) := fun heq => h.table_not_mem_chain (heq ▸ ha)
    rw [if_neg hnot, if_pos ha]
    exact ⟨_, rfl, deleteInChain_kept h hlinked hsub hoff hframe hpass hne ha⟩

end

/-! ## The table of a cache -/

/-- A new object is in the table before it is on the list. -/
structure Inserted (t : Hashtable hash) (l : List Addr) (a : Addr) (o : CacheObj) : Prop where
  linked : t.links.Linked l
  self : t.objs a = o
  fresh : a ∉ l
  prev : t.links.prev a = none
  next : t.links.next a = none
  holds : ∀ links, links.Linked (l ++ [a]) → t.links.Frame (l ++ [a]) links →
    (t.setLinks links).Holds (l ++ [a])

theorem insert_inserted (h : t.Holds l) (hid : ∀ a ∈ l, (t.objs a).objId ≠ req.objId)
    (hsize : req.objSize % 2 ^ 32 ≠ 0) : ∃ t' a l', t.insert req = (t', a) ∧
      t'.Inserted l' a ⟨req.objId, req.objSize % 2 ^ 32, .fresh⟩ ∧ l'.map t'.objs = l.map t.objs := by
  obtain ⟨t', a, f, hinsert, h', hmoved, hself⟩ := insert_stored h.stored hid hsize
  have ha : a ∉ l.map f := by simpa using (List.nodup_append'.mp h'.nodup).2.2
  obtain ⟨hp, hn⟩ := h'.off a (by simp) ha
  refine ⟨t', a, l.map f, hinsert, ⟨h'.linked, hself, ha, hp, hn, fun links hlinked hframe => ?_⟩,
    hmoved.map⟩
  exact (h'.setLinks hlinked (fun _ => id) (fun _ hx hxl => absurd hx hxl) hframe).holds

/-- The list is rearranged. -/
theorem setLinks_holds {links : Links Addr} {l' : List Addr} (h : t.Holds l) (hperm : l'.Perm l)
    (hlinked : links.Linked l') (hframe : t.links.Frame l links) : (t.setLinks links).Holds l' := by
  have hsub : ∀ x, x ∈ l' ↔ x ∈ l := fun x => hperm.mem_iff
  exact ((h.stored.setLinks hlinked (fun x => (hsub x).mp)
    (fun x hx hxl => absurd ((hsub x).mpr hx) hxl) hframe).perm hperm).holds

/-- The old head of the list leaves the table. -/
theorem delete_holds {links : Links Addr} (h : t.Holds (a :: l)) (hlinked : links.Linked l)
    (hframe : t.links.Frame l links) (hprev : links.prev a = none) (hnext : links.next a = links.head) :
    ∃ t' l', (t.setLinks links).delete a = .ok t' ∧ t'.Holds l' ∧ l'.map t'.objs = l.map t.objs := by
  obtain ⟨t', ht', f, h', hmoved⟩ := delete_kept h.stored hlinked (fun _ => id)
    (fun _ hx hxl => absurd hx hxl) (fun x hx => hframe x (List.not_mem_of_not_mem_cons hx))
    (hlinked.bypassed_of_head hprev hnext)
  exact ⟨t', l.map f, ht', h'.holds, hmoved.map⟩

end

end Hashtable

end C2DN.Simulator
