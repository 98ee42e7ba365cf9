import C2DN.Simulator.CacheRuns

/-!
# Removing one object from a cache in memory

`LRU_remove_obj` and `FIFO_remove_obj`. They look the object up with `chained_hashtable_find_obj_id`,
which walks along the bucket of the id but does not return what it finds. So a call leaves every
cache as it is, whether the object is in it or not.
-/

namespace C2DN.Simulator

namespace MemCache
variable {hash : Nat → Nat}

/-- `cache->remove_obj(cache, obj)`: `LRU_remove_obj` or `FIFO_remove_obj`, which are the same. The
size is read after the deletion, and `n_obj` is not changed. -/
def removeObj (s : MemCache hash) (objId : Nat) : Except MemFault (MemCache hash) :=
  match s.table.findObjId objId with
  | none => .ok s
  | some a =>
    (ObjList.removeObjFromList s.table.links a).bind fun links =>
      ((s.table.setLinks links).delete a).bind fun table =>
        if s.occupiedSize < (table.objs a).objSize then .error .negativeSize
        else .ok { s with occupiedSize := s.occupiedSize - (table.objs a).objSize, table }

/-- The object with this id is on the list. -/
def Present (s : MemCache hash) (objId : Nat) : Prop := ∃ o ∈ s.objs, o.objId = objId

/-- `o` has left the cache and nothing else has changed: `l` is the list of what is left, from
`list_head` to `list_tail`, which are both `NULL` if it is empty. -/
structure Removed (s : MemCache hash) (o : CacheObj) (s' : MemCache hash) (l : List Addr) :
    Prop where
  linked : s'.table.links.Linked l
  objs : l.map s'.table.objs = s.objs.filter fun x => x.objId != o.objId
  occupiedSize : s'.occupiedSize + o.objSize = s.occupiedSize
  nObj : s'.nObj + 1 = s.nObj

/-- What `remove_obj` is for: an object that is in the cache leaves it, and for an object that is not
nothing changes. -/
def RemovesObj (s : MemCache hash) (objId : Nat) : Prop :=
  ∃ s', s.removeObj objId = .ok s' ∧
    (∀ o ∈ s.objs, o.objId = objId → ∃ l, s.Removed o s' l) ∧ (¬ s.Present objId → s' = s)

section
variable (s : MemCache hash) (objId : Nat)

theorem findObjId_eq_none (t : Hashtable hash) : t.findObjId objId = none := by
  unfold Hashtable.findObjId
  dsimp only
  split <;> rfl

theorem removeObj_eq : s.removeObj objId = .ok s := by
  rw [removeObj, findObjId_eq_none]

/-- **Removal.** `remove_obj` does what it is for exactly when the object is not in the cache. -/
theorem removesObj_iff : s.RemovesObj objId ↔ ¬ s.Present objId := by
  constructor
  · rintro ⟨s', hs', hpresent, -⟩ ⟨o, ho, hid⟩
    rw [removeObj_eq] at hs'
    cases hs'
    obtain ⟨l, hl⟩ := hpresent o ho hid
    have := hl.nObj
    omega
  · intro habsent
    refine ⟨s, removeObj_eq s objId, fun o ho hid => ?_, fun _ => rfl⟩
    exact absurd ⟨o, ho, hid⟩ habsent

end

/-- Object 2 of an LRU cache with three objects. -/
theorem lruReqs_not_removed : ∃ s, (lruReqs.take 3).foldlM step (init .lru 10 0) = .ok s ∧
    s.Present 2 ∧ ¬ s.RemovesObj 2 := by
  obtain ⟨s, hs, hids⟩ : ∃ s, (lruReqs.take 3).foldlM step (init .lru 10 0) = .ok s ∧
      s.objs.map CacheObj.objId = [1, 2, 3] := by
    refine ⟨_, rfl, ?_⟩
    decide +kernel
  have hpresent : s.Present 2 := by
    have hmem : 2 ∈ s.objs.map CacheObj.objId := by rw [hids]; decide
    exact List.mem_map.mp hmem
  refine ⟨s, hs, hpresent, ?_⟩
  rintro ⟨s', hs', hleaves, -⟩
  obtain ⟨o, ho, hid⟩ := hpresent
  obtain ⟨l, hl⟩ := hleaves o ho hid
  rw [removeObj_eq] at hs'
  cases hs'
  have := hl.nObj
  omega

end MemCache

end C2DN.Simulator
