import C2DN.Simulator.Cache
import C2DN.Simulator.ObjList

/-!
# The hash table of a cache in memory

`chainedHashtable.c`. The objects of a cache are structs in memory: the first object of a bucket lies
in the table itself and the others behind it, in structs of their own. An object of size 0 marks an
empty place of the table (`OBJ_EMPTY`). Objects change their addresses when the table expands and
when the first object of a bucket is deleted, and then the list of the cache is patched.

Memory is a map for each field: `objs` has the id, the size and the metadata of the struct at an
address, `links` its list fields with the two ends of the list, and `chain i` lists the structs that
`hash_next` leads to from place `i` of the table. No struct is used after it is freed, so freed
structs stay as they are. Counters are natural numbers.
-/

namespace C2DN.Simulator

/-- Where a struct lies: place `i` of the table of this hash power, or alone. A new table has a hash
power that no table had before. -/
inductive Addr where
  | slot (hashPower i : Nat)
  | node (n : Nat)
  deriving DecidableEq, Repr

/-- A request for an object. Its hash value is computed by the first lookup and kept in `hv`. -/
structure ObjRequest (hash : Nat → Nat) where
  objId : Nat
  objSize : Nat
  hv : Nat
  hv_eq : hv = 0 ∨ hv = hash objId

/-- The struct after `memset`. -/
def CacheObj.zero : CacheObj := ⟨0, 0, .fresh⟩

/-- `hash` is `get_hash_value_int_64`. -/
structure Hashtable (hash : Nat → Nat) where
  objs : Addr → CacheObj
  links : Links Addr
  hashPower : Nat
  chain : Nat → List Addr
  nCurItem : Nat
  /-- the number of structs that were allocated -/
  nodes : Nat

namespace Hashtable
variable {hash : Nat → Nat}

/-- `create_chained_hashtable`. -/
def create (hashPower : Nat) : Hashtable hash where
  objs _ := .zero
  links := ⟨fun _ => none, fun _ => none, none, none⟩
  hashPower
  chain _ := []
  nCurItem := 0
  nodes := 0

def setObj (t : Hashtable hash) (a : Addr) (o : CacheObj) : Hashtable hash :=
  { t with objs := fun x => if x = a then o else t.objs x }

def setChain (t : Hashtable hash) (i : Nat) (l : List Addr) : Hashtable hash :=
  { t with chain := fun j => if j = i then l else t.chain j }

def setLinks (t : Hashtable hash) (links : Links Addr) : Hashtable hash := { t with links }

/-- A hash value in the table: `hv & hashmask(hash_power)`. -/
def place (t : Hashtable hash) (hv : Nat) : Nat := hv % 2 ^ t.hashPower

/-- `&hashtable->table[i]`. -/
def table (t : Hashtable hash) (i : Nat) : Addr := .slot t.hashPower i

/-- `OBJ_EMPTY(&hashtable->table[i])`. -/
def empty (t : Hashtable hash) (i : Nat) : Bool := (t.objs (t.table i)).objSize == 0

/-- `_move_obj_to_new_loc`, except for `hash_next`. -/
def moveObjToNewLoc (t : Hashtable hash) (newObj oldObj : Addr) : Hashtable hash :=
  (t.setObj newObj (t.objs oldObj)).setLinks (ObjList.moveObjToNewLoc t.links newObj oldObj)

/-- The struct of `create_cache_obj_from_request`, all zero. -/
def alloc (t : Hashtable hash) : Hashtable hash × Addr :=
  let a := .node t.nodes
  ({ t.setObj a .zero with
    links := (t.links.setPrev a none).setNext a none
    nodes := t.nodes + 1 }, a)

/-- `_move_into_new_table`. -/
def moveIntoNewTable (t : Hashtable hash) (obj : Addr) (partOfOldTable : Bool) : Hashtable hash :=
  let i := t.place (hash (t.objs obj).objId)
  if t.empty i then (t.moveObjToNewLoc (t.table i) obj).setChain i []
  else if partOfOldTable then
    let (t, newObj) := t.alloc
    let t := t.moveObjToNewLoc newObj obj
    t.setChain i (t.chain i ++ [newObj])
  else t.setChain i (t.chain i ++ [obj])

/-- The addresses of the next table. -/
def isNew (t : Hashtable hash) : Addr → Bool
  | .slot p _ => p == t.hashPower + 1
  | .node _ => false

/-- A new table of twice the size, all zero. -/
def newTable (t : Hashtable hash) : Hashtable hash :=
  { t with
    objs := fun a => if t.isNew a then .zero else t.objs a
    links :=
      { t.links with
        prev := fun a => if t.isNew a then none else t.links.prev a
        next := fun a => if t.isNew a then none else t.links.next a }
    hashPower := t.hashPower + 1
    chain := fun _ => [] }

/-- The bucket `i` of the old table moves. -/
def moveBucket (old t : Hashtable hash) (i : Nat) : Hashtable hash :=
  if old.empty i then t
  else (old.chain i).foldl (fun t obj => t.moveIntoNewTable obj false)
    (t.moveIntoNewTable (old.table i) true)

/-- `_chained_hashtable_expand`. -/
def expand (t : Hashtable hash) : Hashtable hash :=
  (List.range (2 ^ t.hashPower)).foldl (moveBucket t) t.newTable

/-- `chained_hashtable_find`. -/
def find (t : Hashtable hash) (req : ObjRequest hash) : Option Addr :=
  let hv := if req.hv = 0 then hash req.objId else req.hv
  let i := t.place hv
  if t.empty i then none
  else (t.table i :: t.chain i).find? fun a => (t.objs a).objId == req.objId

/-- `chained_hashtable_find_obj_id`: the object that the walk along the bucket stops at is `ret`, and
what is returned is `NULL`. -/
def findObjId (t : Hashtable hash) (objId : Nat) : Option Addr :=
  let i := t.place (hash objId)
  if t.empty i then none
  else
    let _ret := (t.table i :: t.chain i).find? fun a => (t.objs a).objId == objId
    none

/-- `copy_request_to_cache_obj`; the size of an object has 32 bits. -/
def copyRequestToCacheObj (t : Hashtable hash) (a : Addr) (req : ObjRequest hash) :
    Hashtable hash :=
  t.setObj a { t.objs a with objId := req.objId, objSize := req.objSize % 2 ^ 32 }

/-- `chained_hashtable_insert`: the table expands when more than four fifths of it would be used. -/
def insert (t : Hashtable hash) (req : ObjRequest hash) : Hashtable hash × Addr :=
  let t := if 2 ^ t.hashPower * 4 / 5 < t.nCurItem then t.expand else t
  let i := t.place (hash req.objId)
  if t.empty i then
    ({ t.copyRequestToCacheObj (t.table i) req with nCurItem := t.nCurItem + 1 }, t.table i)
  else
    let (t, newObj) := t.alloc
    let t := (t.copyRequestToCacheObj newObj req).setChain i (t.chain i ++ [newObj])
    ({ t with nCurItem := t.nCurItem + 1 }, newObj)

def decItem (t : Hashtable hash) : Hashtable hash := { t with nCurItem := t.nCurItem - 1 }

/-- The object in the table leaves its bucket, and the next one takes its place. -/
def deleteFirst (t : Hashtable hash) (i : Nat) : Hashtable hash :=
  match t.chain i with
  | oldObj :: rest => (t.moveObjToNewLoc (t.table i) oldObj).setChain i rest
  | [] =>
    let links := ObjList.deleteObjInTable t.links (t.table i)
    (t.setObj (t.table i) .zero).setLinks
      ((links.setPrev (t.table i) none).setNext (t.table i) none)

/-- An object leaves the chain of its bucket. -/
def deleteInChain (t : Hashtable hash) (i : Nat) (obj : Addr) : Hashtable hash :=
  (t.setChain i ((t.chain i).erase obj)).setLinks (ObjList.deleteObjInTable t.links obj)

/-- `chained_hashtable_delete`. -/
def delete (t : Hashtable hash) (obj : Addr) : Except MemFault (Hashtable hash) :=
  let t := t.decItem
  let i := t.place (hash (t.objs obj).objId)
  if t.empty i then .error .emptyBucket
  else if obj = t.table i then .ok (t.deleteFirst i)
  else if obj ∈ t.chain i then .ok (t.deleteInChain i obj)
  else .error .notInBucket

end Hashtable

end C2DN.Simulator
