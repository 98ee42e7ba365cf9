import C2DN.Lib.Run
import C2DN.Simulator.ChainedHashtableLemmas

/-!
# Runs of the hash table

The hash table as a finite map from ids to objects (`Contents`). In a run, objects are inserted and
deleted, the table expands, and the cache in between writes into objects and arranges its list, which
need not have all objects. An object is deleted after it was taken off the list; its own list fields may
still have the old neighbours (`cache_evict` leaves them). The table represents its contents in every
state of a run (`Represents`), whatever the hash function is and wherever the objects move.
-/

namespace C2DN.Simulator

/-- The objects of a table, in the order of insertion, and the ids of those on the list. -/
structure Contents where
  objs : List CacheObj
  order : List Nat

/-- The object of an id. -/
def Contents.get (c : Contents) (objId : Nat) : Option CacheObj := c.objs.find? fun o => o.objId == objId

namespace ChainedHashtable
variable {hash : Nat → Nat}

/-- What a table and its user do. -/
inductive TableOp (hash : Nat → Nat) where
  | insert (req : ObjRequest hash)
  | expand
  /-- the list is arranged anew -/
  | relink (l : List Addr)
  /-- the object at an address is overwritten, except for its pointers -/
  | write (obj : Addr) (o : CacheObj)
  /-- an object is taken off the list, which is `l` then, and deleted with these list fields -/
  | delete (l : List Addr) (obj : Addr) (prev next : Option Addr)

/-- The list is `l`, and the other objects have no links. -/
def relinked (m : ChainedHashtable hash) (l : List Addr) : Links Addr where
  prev a := if a ∈ m.objects then (Links.ofList l).prev a else m.links.prev a
  next a := if a ∈ m.objects then (Links.ofList l).next a else m.links.next a
  head := l.head?
  tail := l.getLast?

/-- The list is `l`, and `obj` has these list fields. -/
def detached (m : ChainedHashtable hash) (l : List Addr) (obj : Addr) (prev next : Option Addr) :
    Links Addr :=
  ((m.relinked l).setPrev obj prev).setNext obj next

def TableOp.run (m : ChainedHashtable hash) :
    TableOp hash → Except MemFault (ChainedHashtable hash)
  | insert req => (m.insert req).map Prod.fst
  | expand => m.expand
  | relink l => .ok (m.setLinks (m.relinked l))
  | write obj o => .ok (m.setObj obj o)
  | delete l obj prev next => (m.setLinks (m.detached l obj prev next)).delete obj

/-- What `copy_request_to_cache_obj` makes of a struct that is all zero. -/
def copied (req : ObjRequest hash) : CacheObj := ⟨req.objId, req.objSize % 2 ^ 32, .fresh⟩

/-- What an operation is for. -/
def TableOp.effect (m : ChainedHashtable hash) (c : Contents) : TableOp hash → Contents
  | insert req => { c with objs := c.objs ++ [copied req] }
  | expand => c
  | relink l => { c with order := l.map fun a => (m.objs a).objId }
  | write obj o => { c with objs := c.objs.map fun x => if x.objId = (m.objs obj).objId then o else x }
  | delete l obj _ _ =>
    { objs := c.objs.filter fun x => x.objId ≠ (m.objs obj).objId
      order := l.map fun a => (m.objs a).objId }

def step (s : ChainedHashtable hash × Contents) (op : TableOp hash) :
    Except MemFault (ChainedHashtable hash × Contents) :=
  (op.run s.1).map fun m => (m, op.effect s.1 s.2)

/-- A list of objects. -/
def IsListed (m : ChainedHashtable hash) (l : List Addr) : Prop := l.Nodup ∧ ∀ a ∈ l, a ∈ m.objects

/-- What the user of a table keeps to: ids are inserted once, with a size, and an object is off the
list when it is deleted. -/
def Allowed (s : ChainedHashtable hash × Contents) : TableOp hash → Prop
  | .insert req => s.2.get req.objId = none ∧ 0 < req.objSize
  | .expand => True
  | .relink l => s.1.IsListed l
  | .write obj o => obj ∈ s.1.objects ∧ o.objId = (s.1.objs obj).objId ∧ o.objSize ≠ 0
  | .delete l obj prev next => s.1.IsListed l ∧ obj ∈ s.1.objects ∧ obj ∉ l ∧
      (s.1.detached l obj prev next).Bypassed obj

/-- The size of a new object is not 0 in 32 bits. -/
def TableOp.Fits : TableOp hash → Prop
  | .insert req => ¬ 2 ^ 32 ∣ req.objSize
  | _ => True

instance {m : ChainedHashtable hash} {l : List Addr} : Decidable (m.IsListed l) :=
  inferInstanceAs (Decidable (_ ∧ _))

instance {op : TableOp hash} : Decidable op.Fits :=
  match op with
  | .insert _ => inferInstanceAs (Decidable (¬ _))
  | .expand | .relink _ | .write _ _ | .delete _ _ _ _ => isTrue trivial

instance {s : ChainedHashtable hash × Contents} {op : TableOp hash} : Decidable (Allowed s op) :=
  match op with
  | .insert _ => inferInstanceAs (Decidable (_ ∧ _))
  | .expand => isTrue trivial
  | .relink _ => inferInstanceAs (Decidable (IsListed _ _))
  | .write _ _ => inferInstanceAs (Decidable (_ ∧ _ ∧ _))
  | .delete _ _ _ _ => inferInstanceAs (Decidable (_ ∧ _ ∧ _ ∧ _))

/-- The table has the contents `c`. -/
structure Represents (m : ChainedHashtable hash) (c : Contents) : Prop where
  /-- the table is a finite map -/
  find : ∀ req : ObjRequest hash, ∃ obj, m.find req = .ok obj ∧ obj.map m.objs = c.get req.objId
  ids : (c.objs.map CacheObj.objId).Nodup
  /-- a bucket begins in the table, and `hash_next` leads along it to a null pointer -/
  chain : ∀ i, ¬ m.empty i → Chain m.hashNext (some (m.table i)) (m.bucketObjs i)
  home : ∀ i, ∀ a ∈ m.bucketObjs i, m.place (hash (m.objs a).objId) = i
  /-- every object is in the buckets once -/
  objs : (m.objects.map m.objs).Perm c.objs
  count : m.nCurItem = c.objs.length
  /-- the list is linked in both directions, with its ends, and has the same ids -/
  list : ∃ l, m.links.Linked l ∧ (∀ a ∈ l, a ∈ m.objects) ∧
    l.map (fun a => (m.objs a).objId) = c.order

/-- A step of a run: a new object is found where the insertion says. -/
structure TableStep (s : ChainedHashtable hash × Contents) (op : TableOp hash)
    (s' : ChainedHashtable hash × Contents) : Prop where
  represents : s'.1.Represents s'.2
  inserted : ∀ req, op = .insert req → ∃ a, s.1.insert req = .ok (s'.1, a) ∧ s'.1.find req = .ok (some a)

section
variable {m : ChainedHashtable hash} {t : Hashtable hash} {c : Contents} {l s : List Addr}

/-- The table refines one with the objects `s` and the list `l`. -/
structure Inv (m : ChainedHashtable hash) (c : Contents) (t : Hashtable hash) (l s : List Addr) :
    Prop where
  refines : m.Refines t
  stored : t.Stored l s []
  objs : s.map t.objs = c.objs
  order : l.map (fun a => (t.objs a).objId) = c.order

namespace Inv

theorem bucketObjs (h : m.Inv c t l s) (i : Nat) : m.bucketObjs i = t.bucket i := by
  have hap := h.stored.apart
  have hchain := h.refines.bucket i
  have hlength := h.refines.length_lt hap (Nat.le_refl m.nodes) i
  rw [ChainedHashtable.bucketObjs, h.refines.empty, h.refines.table, Hashtable.bucket]
  split
  · rfl
  · exact hchain.walkFrom_eq (Nat.le_of_lt hlength)

theorem objects_perm (h : m.Inv c t l s) : m.objects.Perm s := by
  have hbuckets : m.bucketObjs = t.bucket := funext h.bucketObjs
  rw [objects, hbuckets, h.refines.hashPower]
  exact h.stored.objects_perm

theorem mem_objects (h : m.Inv c t l s) {a : Addr} : a ∈ m.objects ↔ a ∈ s := h.objects_perm.mem_iff

theorem get_eq (h : m.Inv c t l s) (req : ObjRequest hash) :
    (t.find req).map t.objs = c.get req.objId := by
  rw [Contents.get, ← h.objs, List.find?_map]
  cases hf : t.find req with
  | none =>
    have hnone := h.stored.find_eq_none.mp hf
    rw [List.find?_eq_none.mpr fun a ha => by simpa using hnone a ha]
  | some a =>
    obtain ⟨ha, hid⟩ := h.stored.find_eq_some.mp hf
    have hfind : s.find? ((fun o => o.objId == req.objId) ∘ t.objs) = some a := by
      cases hs : s.find? ((fun o => o.objId == req.objId) ∘ t.objs) with
      | none => exact absurd (List.find?_eq_none.mp hs a ha) (by simp [hid])
      | some b =>
        have hidb : (t.objs b).objId = req.objId := by simpa using List.find?_some hs
        rw [h.stored.eq_of_objId (List.mem_of_find?_eq_some hs) ha (hidb.trans hid.symm)]
    rw [hfind]

theorem represents (h : m.Inv c t l s) : m.Represents c := by
  have hobjs := h.refines.objs
  refine ⟨fun req => ⟨t.find req, find_refines h.refines h.stored.apart, ?_⟩, ?_, ?_, ?_, ?_, ?_, l, ?_,
    ?_, ?_⟩
  · rw [hobjs]; exact h.get_eq req
  · rw [← h.objs]; exact h.stored.ids
  · intro i hne
    rw [h.bucketObjs, Hashtable.bucket, if_neg (h.refines.empty i ▸ hne), h.refines.table]
    exact h.refines.bucket i
  · intro i a ha
    rw [h.bucketObjs] at ha
    rw [place, h.refines.hashPower, hobjs]
    exact h.stored.home i a ha
  · rw [hobjs, ← h.objs]
    exact h.objects_perm.map _
  · rw [h.refines.nCurItem, h.stored.count, ← h.objs, List.length_map]
  · rw [h.refines.links]; exact h.stored.linked
  · exact fun a ha => h.mem_objects.mpr (h.stored.sub a ha)
  · rw [hobjs]; exact h.order

theorem create {hashPower : Nat} :
    (create hashPower : ChainedHashtable hash).Inv ⟨[], []⟩ (.create hashPower) [] [] :=
  ⟨create_refines, Hashtable.create_stored, rfl, rfl⟩

end Inv

/-! ## Steps -/

/-- The ids on the list stay the same when objects move. -/
theorem order_of_moved {t' : Hashtable hash} {f : Addr → Addr} (h : t.Moved t' s f)
    (hsub : ∀ x ∈ l, x ∈ s) : (l.map f).map (fun a => (t'.objs a).objId) =
      l.map fun a => (t.objs a).objId := by
  rw [List.map_map]
  exact List.map_congr_left fun x hx => congrArg CacheObj.objId (h x (hsub x hx))

theorem inv_of_kept {m' : ChainedHashtable hash} {t' : Hashtable hash} (hk : t.Kept t' l s [])
    (hsub : ∀ x ∈ l, x ∈ s) (hm' : m'.Refines t') :
    ∃ l' s', m'.Inv ⟨s.map t.objs, l.map fun a => (t.objs a).objId⟩ t' l' s' := by
  obtain ⟨f, hf, hmoved⟩ := hk
  exact ⟨l.map f, s.map f, hm', hf, hmoved.map, order_of_moved hmoved hsub⟩

theorem insert_inv {req : ObjRequest hash} (h : m.Inv c t l s) (hnone : c.get req.objId = none)
    (hsize : ¬ 2 ^ 32 ∣ req.objSize) : ∃ m' a t' l' s', m.insert req = .ok (m', a) ∧
      m'.Inv { c with objs := c.objs ++ [copied req] } t' l' s' ∧ m'.find req = .ok (some a) := by
  have hid : ∀ a ∈ s, (t.objs a).objId ≠ req.objId := by
    rw [← h.stored.find_eq_none, ← Option.map_eq_none_iff (f := t.objs), h.get_eq, hnone]
  obtain ⟨t', a, f, ht', h', hmoved, hself⟩ := Hashtable.insert_stored h.stored hid
    (mt Nat.dvd_of_mod_eq_zero hsize)
  obtain ⟨m', hm', hrefines⟩ := insert_refines req h.refines h.stored
  rw [ht'] at hm' hrefines
  refine ⟨m', a, t', l.map f, s.map f ++ [a], hm', ⟨hrefines, h', ?_, ?_⟩, ?_⟩
  · rw [List.map_append, hmoved.map, h.objs, List.map_singleton, hself]
    rfl
  · rw [order_of_moved hmoved h.stored.sub]
    exact h.order
  · rw [find_refines hrefines h'.apart]
    exact congrArg Except.ok (h'.find_eq_some.mpr ⟨by simp, by rw [hself]⟩)

theorem expand_inv (h : m.Inv c t l s) : ∃ m' t' l' s', m.expand = .ok m' ∧ m'.Inv c t' l' s' := by
  obtain ⟨m', hm', hrefines⟩ := expand_refines h.refines h.stored
  obtain ⟨l', s', h'⟩ := inv_of_kept (Hashtable.expand_kept h.stored) h.stored.sub hrefines
  rw [h.objs, h.order] at h'
  exact ⟨m', _, l', s', hm', h'⟩

/-- The list is what the user says. -/
theorem Inv.relinked {l' : List Addr} (h : m.Inv c t l s) (hl' : m.IsListed l') :
    (m.relinked l').Linked l' ∧ (∀ x ∈ l', x ∈ s) ∧
      (∀ x ∈ s, x ∉ l' → (m.relinked l').prev x = none ∧ (m.relinked l').next x = none) ∧
      t.links.Frame s (m.relinked l') := by
  have hlinked := Links.ofList_linked hl'.1
  refine ⟨hlinked.congr rfl rfl (fun a ha => if_pos (hl'.2 a ha)) fun a ha => if_pos (hl'.2 a ha),
    fun x hx => h.mem_objects.mp (hl'.2 x hx), fun x hx hxl => ?_, fun x hx => ?_⟩
  · have hobj : x ∈ m.objects := h.mem_objects.mpr hx
    obtain ⟨hp, hn⟩ := Links.ofList_eq_none hxl
    exact ⟨(if_pos hobj).trans hp, (if_pos hobj).trans hn⟩
  · have hobj : x ∉ m.objects := mt h.mem_objects.mp hx
    rw [← h.refines.links]
    exact ⟨if_neg hobj, if_neg hobj⟩

theorem relink_inv {l' : List Addr} (h : m.Inv c t l s) (hl' : m.IsListed l') :
    (m.setLinks (m.relinked l')).Inv { c with order := l'.map fun a => (m.objs a).objId }
      (t.setLinks (m.relinked l')) l' s := by
  obtain ⟨hlinked, hsub, hoff, hframe⟩ := h.relinked hl'
  refine ⟨?_, h.stored.setLinks hlinked hsub hoff hframe, h.objs, by rw [h.refines.objs]; rfl⟩
  obtain ⟨chains, rfl, hchain⟩ := h.refines
  exact ⟨chains, rfl, hchain⟩

theorem write_inv {obj : Addr} {o : CacheObj} (h : m.Inv c t l s) (hobj : obj ∈ m.objects)
    (hid : o.objId = (m.objs obj).objId) (hsize : o.objSize ≠ 0) :
    (m.setObj obj o).Inv
      { c with objs := c.objs.map fun x => if x.objId = (m.objs obj).objId then o else x }
      (t.setObj obj o) l s := by
  have hmem := h.mem_objects.mp hobj
  rw [h.refines.objs] at hid ⊢
  refine ⟨?_, h.stored.setObj hmem hid hsize, ?_, ?_⟩
  · obtain ⟨chains, rfl, hchain⟩ := h.refines
    exact ⟨chains, rfl, hchain⟩
  · rw [← h.objs, List.map_map]
    refine List.map_congr_left fun x hx => ?_
    have hiff : (t.objs x).objId = (t.objs obj).objId ↔ x = obj :=
      ⟨h.stored.eq_of_objId hx hmem, fun heq => by rw [heq]⟩
    simp only [Hashtable.setObj, Function.comp_apply, hiff]
  · rw [← h.order]
    exact List.map_congr_left fun x _ => Hashtable.setObj_objId hid x

theorem delete_inv {l' : List Addr} {obj : Addr} {prev next : Option Addr} (h : m.Inv c t l s)
    (hl' : m.IsListed l') (hobj : obj ∈ m.objects) (hoffl : obj ∉ l')
    (hpass : (m.detached l' obj prev next).Bypassed obj) :
    ∃ m' t' l'' s', (m.setLinks (m.detached l' obj prev next)).delete obj = .ok m' ∧
      m'.Inv ⟨c.objs.filter fun x => x.objId ≠ (m.objs obj).objId,
        l'.map fun a => (m.objs a).objId⟩ t' l'' s' := by
  have hmem := h.mem_objects.mp hobj
  have herase : ∀ x, x ∈ s.erase obj ↔ x ≠ obj ∧ x ∈ s := fun x => h.stored.nodup.mem_erase_iff
  obtain ⟨hlinked, hsub, hoff, hframe⟩ := h.relinked hl'
  -- the fields of the other objects
  have hprev : ∀ x, x ≠ obj → (m.detached l' obj prev next).prev x = (m.relinked l').prev x :=
    fun x hx => if_neg hx
  have hnext : ∀ x, x ≠ obj → (m.detached l' obj prev next).next x = (m.relinked l').next x :=
    fun x hx => if_neg hx
  have hlinked' : (m.detached l' obj prev next).Linked l' := hlinked.congr rfl rfl
    (fun x hx => hprev x (ne_of_mem_of_not_mem hx hoffl))
    fun x hx => hnext x (ne_of_mem_of_not_mem hx hoffl)
  have hsub' : ∀ x ∈ l', x ∈ s.erase obj :=
    fun x hx => (herase x).mpr ⟨ne_of_mem_of_not_mem hx hoffl, hsub x hx⟩
  have hoff' : ∀ x ∈ s.erase obj, x ∉ l' → (m.detached l' obj prev next).prev x = none ∧
      (m.detached l' obj prev next).next x = none := by
    intro x hx hxl
    obtain ⟨hxo, hxs⟩ := (herase x).mp hx
    rw [hprev x hxo, hnext x hxo]
    exact hoff x hxs hxl
  have hframe' : t.links.Frame (obj :: s.erase obj) (m.detached l' obj prev next) := by
    intro x hx
    obtain ⟨hxo, hxe⟩ := not_or.mp (mt List.mem_cons.mpr hx)
    rw [hprev x hxo, hnext x hxo]
    exact hframe x fun hxs => hxe ((herase x).mpr ⟨hxo, hxs⟩)
  obtain ⟨t', ht', hkept⟩ := Hashtable.delete_kept
    (h.stored.perm (List.perm_cons_erase hmem).symm) hlinked' hsub' hoff' hframe' hpass
  have hrefines : (m.setLinks (m.detached l' obj prev next)).Refines
      (t.setLinks (m.detached l' obj prev next)) := by
    obtain ⟨chains, rfl, hchain⟩ := h.refines
    exact ⟨chains, rfl, hchain⟩
  have hap := h.stored.apart
  obtain ⟨m', hm', hrefines'⟩ :=
    delete_refines hrefines ⟨hap.table, hap.chain, hap.nodup, hap.length⟩ ht'
  obtain ⟨l'', s', h'⟩ := inv_of_kept hkept hsub' hrefines'
  have hobjs : (s.erase obj).map t.objs =
      c.objs.filter fun x => x.objId ≠ (t.objs obj).objId := by
    rw [h.stored.nodup.erase_eq_filter, ← h.objs, List.filter_map]
    refine congrArg (List.map t.objs) (List.filter_congr fun x hx => ?_)
    have hiff : (t.objs x).objId = (t.objs obj).objId ↔ x = obj :=
      ⟨h.stored.eq_of_objId hx hmem, fun heq => by rw [heq]⟩
    simp only [Function.comp_apply, bne, ne_eq, hiff, decide_not]
    rfl
  rw [hobjs] at h'
  rw [h.refines.objs]
  exact ⟨m', t', l'', s', hm', h'⟩

/-! ### The list of a cache -/

theorem Inv.isListed (h : m.Inv c t l s) : m.IsListed l :=
  ⟨h.stored.linked.nodup, fun a ha => h.mem_objects.mpr (h.stored.sub a ha)⟩

/-- A list determines all list fields that a cache may write. -/
theorem Inv.relinked_eq {l' : List Addr} {links : Links Addr} (h : m.Inv c t l s) (hl' : m.IsListed l')
    (hlinked : links.Linked l')
    (hoff : ∀ x ∈ m.objects, x ∉ l' → links.prev x = none ∧ links.next x = none)
    (hframe : m.links.Frame m.objects links) : m.relinked l' = links := by
  obtain ⟨hlinked', -, hoff', -⟩ := h.relinked hl'
  have hfields : ∀ x, (m.relinked l').prev x = links.prev x ∧ (m.relinked l').next x = links.next x := by
    intro x
    by_cases hx : x ∈ m.objects
    · by_cases hxl : x ∈ l'
      · exact hlinked.fields_eq hlinked' hxl
      · obtain ⟨hp, hn⟩ := hoff x hx hxl
        rw [hp, hn]
        exact hoff' x (h.mem_objects.mp hx) hxl
    · obtain ⟨hp, hn⟩ := hframe x hx
      rw [hp, hn]
      exact ⟨if_neg hx, if_neg hx⟩
  obtain ⟨prev, next, head, tail⟩ := links
  obtain rfl : l'.head? = head := hlinked.head.symm
  obtain rfl : l'.getLast? = tail := hlinked.tail.symm
  obtain rfl : (m.relinked l').prev = prev := funext fun x => (hfields x).1
  obtain rfl : (m.relinked l').next = next := funext fun x => (hfields x).2
  rfl

/-- `cache_insert_LRU` puts a new object at the end of the list. -/
theorem insertObj_eq {a : Addr} (h : m.Inv c t l s) (ha : a ∈ m.objects) (hal : a ∉ l) :
    Allowed (m, c) (.relink (l ++ [a])) ∧
      ObjList.insertObj m.links a = .ok (m.relinked (l ++ [a])) := by
  have hl : m.IsListed (l ++ [a]) := by
    obtain ⟨hnodup, hobjs⟩ := h.isListed
    refine ⟨List.nodup_append'.mpr ⟨hnodup, List.nodup_singleton a, by simpa using hal⟩, fun x hx => ?_⟩
    rcases List.mem_append.mp hx with hx | hx
    · exact hobjs x hx
    · exact List.mem_singleton.mp hx ▸ ha
  have hoff : ∀ x ∈ m.objects, x ∉ l → m.links.prev x = none ∧ m.links.next x = none := by
    rw [h.refines.links]
    exact fun x hx => h.stored.off x (h.mem_objects.mp hx)
  obtain ⟨hp, hn⟩ := hoff a ha hal
  obtain ⟨links, hlinks, hlinked, hframe⟩ :=
    ObjList.insertObj_spec (h.refines.links ▸ h.stored.linked) hal hp hn
  refine ⟨hl, ?_⟩
  rw [hlinks, h.relinked_eq hl hlinked]
  · intro x hx hxl
    obtain ⟨hp, hn⟩ := hframe x hxl
    rw [hp, hn]
    exact hoff x hx fun hmem => hxl (List.mem_append_left _ hmem)
  · exact fun x hx => hframe x (mt (hl.2 x) hx)

/-- `cache_evict` takes the head off the list, which keeps its list fields, and deletes it. -/
theorem evictHead_eq {a b : Addr} {r : List Addr} (h : m.Inv c t (a :: b :: r) s) :
    Allowed (m, c) (.delete (b :: r) a none (some b)) ∧
      ObjList.evictHead m.links = .ok (m.detached (b :: r) a none (some b), a) := by
  have hlinked : m.links.Linked (a :: b :: r) := h.refines.links ▸ h.stored.linked
  obtain ⟨hnodup, hobjs⟩ := h.isListed
  obtain ⟨hab, hnodup'⟩ := List.nodup_cons.mp hnodup
  obtain ⟨links, hlinks, hlinked', hframe, hprev, hnext⟩ :=
    ObjList.evictHead_spec hlinked (List.cons_ne_nil b r)
  have hl : m.IsListed (b :: r) := ⟨hnodup', fun x hx => hobjs x (List.mem_cons_of_mem _ hx)⟩
  have hne : ∀ x ∈ b :: r, x ≠ a := fun x hx => ne_of_mem_of_not_mem hx hab
  have hrelinked : m.relinked (b :: r) = (links.setPrev a none).setNext a none := by
    refine h.relinked_eq hl (hlinked'.congr rfl rfl (fun x hx => if_neg (hne x hx))
      fun x hx => if_neg (hne x hx)) (fun x hx hxl => ?_) fun x hx => ?_
    · by_cases hxa : x = a
      · exact ⟨if_pos hxa, if_pos hxa⟩
      · obtain ⟨hp, hn⟩ := hframe x hxl
        obtain ⟨hp', hn'⟩ := h.stored.off x (h.mem_objects.mp hx)
          fun hmem => (List.mem_cons.mp hmem).elim hxa hxl
        rw [h.refines.links] at hp hn
        exact ⟨(if_neg hxa).trans (hp.trans hp'), (if_neg hxa).trans (hn.trans hn')⟩
    · have hxa : x ≠ a := fun heq => hx (heq ▸ hobjs a List.mem_cons_self)
      obtain ⟨hp, hn⟩ := hframe x (mt (hl.2 x) hx)
      exact ⟨(if_neg hxa).trans hp, (if_neg hxa).trans hn⟩
  have hhead : links.head = some b := hlinked'.head
  have hdetached : m.detached (b :: r) a none (some b) = links := by
    have hprev' : (fun x => if x = a then none else if x = a then none else links.prev x) =
        links.prev := by
      funext x
      split
      · next hxa => rw [hxa, hprev]
      · rfl
    have hnext' : (fun x => if x = a then some b else if x = a then none else links.next x) =
        links.next := by
      funext x
      split
      · next hxa => rw [hxa, hnext, hhead]
      · rfl
    rw [detached, hrelinked]
    exact (congrArg (fun prev => Links.mk prev _ links.head links.tail) hprev').trans
      (congrArg (fun next => Links.mk links.prev next links.head links.tail) hnext')
  rw [hdetached]
  refine ⟨⟨hl, hobjs a List.mem_cons_self, hab, ?_⟩, hlinks⟩
  rw [hdetached]
  exact hlinked'.bypassed_of_head hprev hnext

/-- **The table in a run.** Whatever the hash function is, a run of allowed operations whose new objects
have a size in 32 bits returns, and in every state that it reaches the table is a finite map with its
objects in their buckets, and the list has the ids that it is given, wherever the objects move. -/
theorem tableRun_represents {hashPower : Nat} {ops : List (TableOp hash)}
    (hallowed : Meets step Allowed ops ((create hashPower, ⟨[], []⟩) :
      ChainedHashtable hash × Contents)) (hfits : ∀ op ∈ ops, op.Fits) :
    (∃ s, ops.foldlM step ((create hashPower, ⟨[], []⟩) : ChainedHashtable hash × Contents) = .ok s ∧
        s.1.Represents s.2) ∧
      Steps step TableStep ops ((create hashPower, ⟨[], []⟩) : ChainedHashtable hash × Contents) := by
  have hstep : ∀ s : ChainedHashtable hash × Contents, ∀ op ∈ ops,
      (∃ t l x, s.1.Inv s.2 t l x) → Allowed s op →
      ∃ s', step s op = .ok s' ∧ (∃ t l x, Inv s'.1 s'.2 t l x) ∧ TableStep s op s' := by
    rintro ⟨m, c⟩ op hop ⟨t, l, x, h⟩ hallowed
    cases op with
    | insert req =>
      obtain ⟨m', a, t', l', s', hm', h', hfind⟩ := insert_inv h hallowed.1 (hfits _ hop)
      refine ⟨(m', _), congrArg (Except.map _) (congrArg (Except.map Prod.fst) hm'), ⟨t', l', s', h'⟩,
        h'.represents, fun req' heq => ?_⟩
      cases heq
      exact ⟨a, hm', hfind⟩
    | expand =>
      obtain ⟨m', t', l', s', hm', h'⟩ := expand_inv h
      exact ⟨(m', _), congrArg (Except.map _) hm', ⟨t', l', s', h'⟩, h'.represents, nofun⟩
    | relink l' =>
      have h' := relink_inv h hallowed
      exact ⟨_, rfl, ⟨_, _, _, h'⟩, h'.represents, nofun⟩
    | write obj o =>
      obtain ⟨hobj, hid, hsize⟩ := hallowed
      have h' := write_inv h hobj hid hsize
      exact ⟨_, rfl, ⟨_, _, _, h'⟩, h'.represents, nofun⟩
    | delete l' obj prev next =>
      obtain ⟨hl', hobj, hoffl, hpass⟩ := hallowed
      obtain ⟨m', t', l'', s', hm', h'⟩ := delete_inv h hl' hobj hoffl hpass
      exact ⟨(m', _), congrArg (Except.map _) hm', ⟨t', l'', s', h'⟩, h'.represents, nofun⟩
  obtain ⟨⟨s, hs, t, l, x, h⟩, hsteps⟩ :=
    Meets.run hstep ⟨.create hashPower, [], [], Inv.create⟩ hallowed
  exact ⟨⟨s, hs, h.represents⟩, hsteps⟩

end

/-! All objects have the same hash value. The second and the third insertion expand the table and put an
object behind the first one; the head of the list, which is the first object of the bucket, is evicted,
and the next object moves to its place. -/

def oneBucket : Nat → Nat := fun _ => 1

def newReq (objId objSize : Nat) : ObjRequest oneBucket := ⟨objId, objSize, 0, .inl rfl⟩

def moveOps : List (TableOp oneBucket) :=
  [.insert (newReq 1 3), .relink [.slot 0 0], .insert (newReq 2 3), .relink [.slot 1 1, .node 0],
    .insert (newReq 3 3), .relink [.slot 2 1, .node 0, .node 1], .write (.node 1) ⟨3, 5, .fresh⟩,
    .delete [.node 0, .node 1] (.slot 2 1) none (some (.node 0))]

set_option maxRecDepth 4096 in
theorem moveOps_represents :
    (Meets step Allowed moveOps (create 0, ⟨[], []⟩) ∧ ∀ op ∈ moveOps, op.Fits) ∧
    ((∃ s, moveOps.foldlM step (create 0, ⟨[], []⟩) = .ok s ∧ s.1.Represents s.2) ∧
      Steps step TableStep moveOps (create 0, ⟨[], []⟩)) ∧
    (moveOps.foldlM step (create 0, ⟨[], []⟩)).toOption.map
      (fun s => (s.1.objects, s.1.links.walk 3 s.1.links.head, s.2.order)) =
        some ([.slot 2 1, .node 1], [.slot 2 1, .node 1], [2, 3]) :=
  ⟨⟨by decide, by decide⟩, tableRun_represents (by decide) (by decide), by decide⟩

/-- An object of 4 GiB has size 0 in memory: its place of the table is empty and it is not found. -/
theorem fourGiB_not_represents :
    Meets step Allowed [.insert (newReq 1 4294967296)] (create 0, ⟨[], []⟩) ∧
    ¬ ((∃ s, [TableOp.insert (newReq 1 4294967296)].foldlM step (create 0, ⟨[], []⟩) = .ok s ∧
        s.1.Represents s.2) ∧
      Steps step TableStep [.insert (newReq 1 4294967296)] (create 0, ⟨[], []⟩)) := by
  refine ⟨by decide, ?_⟩
  rintro ⟨⟨s, hs, hrepresents⟩, -⟩
  cases hs
  obtain ⟨obj, hfind, hmap⟩ := hrepresents.find (newReq 1 4294967296)
  cases hfind
  cases hmap

end ChainedHashtable

end C2DN.Simulator
