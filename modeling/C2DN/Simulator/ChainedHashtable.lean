import C2DN.Lib.Chain
import C2DN.Simulator.Hashtable

/-!
# The hash table with its pointers

`chainedHashtable.c` over memory in which every struct has its field `hash_next`. The loops along a
bucket follow this field to a null pointer; they are bounded by the number of structs, and
`MemFault.unended` is a loop that would go on. `Hashtable`, where the structs behind a place of the
table are given as lists, is the specification (`Refines`).
-/

namespace C2DN.Simulator

/-- `hashtable_t`, with the memory of its objects. `hash` is `get_hash_value_int_64`. -/
structure ChainedHashtable (hash : Nat → Nat) where
  objs : Addr → CacheObj
  links : Links Addr
  hashNext : Addr → Option Addr
  hashPower : Nat
  nCurItem : Nat
  nodes : Nat

namespace ChainedHashtable
variable {hash : Nat → Nat}

/-- `create_chained_hashtable`. -/
def create (hashPower : Nat) : ChainedHashtable hash where
  objs _ := .zero
  links := ⟨fun _ => none, fun _ => none, none, none⟩
  hashNext _ := none
  hashPower
  nCurItem := 0
  nodes := 0

def setObj (m : ChainedHashtable hash) (a : Addr) (o : CacheObj) : ChainedHashtable hash :=
  { m with objs := fun x => if x = a then o else m.objs x }

def setLinks (m : ChainedHashtable hash) (links : Links Addr) : ChainedHashtable hash :=
  { m with links }

def setHashNext (m : ChainedHashtable hash) (a : Addr) (o : Option Addr) : ChainedHashtable hash :=
  { m with hashNext := fun x => if x = a then o else m.hashNext x }

/-- A hash value in the table: `hv & hashmask(hash_power)`. -/
def place (m : ChainedHashtable hash) (hv : Nat) : Nat := hv % 2 ^ m.hashPower

/-- `&hashtable->table[i]`. -/
def table (m : ChainedHashtable hash) (i : Nat) : Addr := .slot m.hashPower i

/-- `OBJ_EMPTY(&hashtable->table[i])`. -/
def empty (m : ChainedHashtable hash) (i : Nat) : Bool := (m.objs (m.table i)).objSize == 0

/-- What a loop along a bucket ends with. -/
def ended {β : Type} : Option β → Except MemFault β
  | none => .error .unended
  | some b => .ok b

/-- More turns than a loop along a bucket takes. -/
def turns (m : ChainedHashtable hash) : Nat := m.nodes + 2

/-- `_last_obj_in_bucket`. -/
def lastObjInBucket (m : ChainedHashtable hash) (i : Nat) : Except MemFault Addr :=
  ended (lastFrom m.hashNext m.turns (m.table i))

/-- `_move_obj_to_new_loc`. -/
def moveObjToNewLoc (m : ChainedHashtable hash) (newObj oldObj : Addr) : ChainedHashtable hash :=
  ((m.setObj newObj (m.objs oldObj)).setHashNext newObj (m.hashNext oldObj)).setLinks
    (ObjList.moveObjToNewLoc m.links newObj oldObj)

/-- The struct of `create_cache_obj_from_request`, all zero. -/
def alloc (m : ChainedHashtable hash) : ChainedHashtable hash × Addr :=
  let a := .node m.nodes
  ({ (m.setObj a .zero).setHashNext a none with
    links := (m.links.setPrev a none).setNext a none
    nodes := m.nodes + 1 }, a)

/-- `_move_into_new_table`. -/
def moveIntoNewTable (m : ChainedHashtable hash) (obj : Addr) (partOfOldTable : Bool) :
    Except MemFault (ChainedHashtable hash) :=
  let i := m.place (hash (m.objs obj).objId)
  if m.empty i then .ok ((m.moveObjToNewLoc (m.table i) obj).setHashNext (m.table i) none)
  else
    let (m, obj) :=
      if partOfOldTable then
        let (m, newObj) := m.alloc
        (m.moveObjToNewLoc newObj obj, newObj)
      else (m, obj)
    (m.lastObjInBucket i).map fun last => (m.setHashNext last (some obj)).setHashNext obj none

/-- The addresses of the next table. -/
def isNew (m : ChainedHashtable hash) : Addr → Bool
  | .slot p _ => p == m.hashPower + 1
  | .node _ => false

/-- A new table of twice the size, all zero. -/
def newTable (m : ChainedHashtable hash) : ChainedHashtable hash :=
  { m with
    objs := fun a => if m.isNew a then .zero else m.objs a
    links :=
      { m.links with
        prev := fun a => if m.isNew a then none else m.links.prev a
        next := fun a => if m.isNew a then none else m.links.next a }
    hashNext := fun a => if m.isNew a then none else m.hashNext a
    hashPower := m.hashPower + 1 }

/-- `while (next_obj)` in `_chained_hashtable_expand`: `hash_next` is read before the object moves. -/
def moveChain : Nat → Option Addr → ChainedHashtable hash → Except MemFault (ChainedHashtable hash)
  | 0, _, _ => .error .unended
  | _ + 1, none, m => .ok m
  | n + 1, some obj, m => (m.moveIntoNewTable obj false).bind (moveChain n (m.hashNext obj))

/-- The bucket `i` of the old table moves. -/
def moveBucket (oldPower : Nat) (m : ChainedHashtable hash) (i : Nat) :
    Except MemFault (ChainedHashtable hash) :=
  let obj := .slot oldPower i
  if (m.objs obj).objSize = 0 then .ok m
  else (m.moveIntoNewTable obj true).bind (moveChain m.turns (m.hashNext obj))

/-- `_chained_hashtable_expand`. -/
def expand (m : ChainedHashtable hash) : Except MemFault (ChainedHashtable hash) :=
  (List.range (2 ^ m.hashPower)).foldlM (moveBucket m.hashPower) m.newTable

/-- `chained_hashtable_find`. -/
def find (m : ChainedHashtable hash) (req : ObjRequest hash) : Except MemFault (Option Addr) :=
  let hv := if req.hv = 0 then hash req.objId else req.hv
  let i := m.place hv
  if m.empty i then .ok none
  else ended (findFrom m.hashNext (fun a => (m.objs a).objId == req.objId) m.turns (some (m.table i)))

/-- `copy_request_to_cache_obj`; the size of an object has 32 bits. -/
def copyRequestToCacheObj (m : ChainedHashtable hash) (a : Addr) (req : ObjRequest hash) :
    ChainedHashtable hash :=
  m.setObj a { m.objs a with objId := req.objId, objSize := req.objSize % 2 ^ 32 }

/-- The object of a request at the end of bucket `i`. -/
def insertInChain (m : ChainedHashtable hash) (i : Nat) (req : ObjRequest hash) :
    Except MemFault (ChainedHashtable hash × Addr) :=
  let (m, newObj) := m.alloc
  let m := m.copyRequestToCacheObj newObj req
  (m.lastObjInBucket i).map fun last =>
    ({ m.setHashNext last (some newObj) with nCurItem := m.nCurItem + 1 }, newObj)

/-- `chained_hashtable_insert`: the table expands when more than four fifths of it would be used. -/
def insert (m : ChainedHashtable hash) (req : ObjRequest hash) :
    Except MemFault (ChainedHashtable hash × Addr) :=
  (if 2 ^ m.hashPower * 4 / 5 < m.nCurItem then m.expand else .ok m).bind fun m =>
    let i := m.place (hash req.objId)
    if m.empty i then
      .ok ({ m.copyRequestToCacheObj (m.table i) req with nCurItem := m.nCurItem + 1 }, m.table i)
    else m.insertInChain i req

def decItem (m : ChainedHashtable hash) : ChainedHashtable hash := { m with nCurItem := m.nCurItem - 1 }

/-- The object in the table leaves its bucket, and the next one takes its place. -/
def deleteFirst (m : ChainedHashtable hash) (i : Nat) : ChainedHashtable hash :=
  match m.hashNext (m.table i) with
  | some oldObj => m.moveObjToNewLoc (m.table i) oldObj
  | none =>
    let links := ObjList.deleteObjInTable m.links (m.table i)
    ((m.setObj (m.table i) .zero).setHashNext (m.table i) none).setLinks
      ((links.setPrev (m.table i) none).setNext (m.table i) none)

/-- An object leaves the chain of its bucket. -/
def deleteInChain (m : ChainedHashtable hash) (i : Nat) (obj : Addr) :
    Except MemFault (ChainedHashtable hash) :=
  (ended (beforeFrom m.hashNext obj m.turns (m.table i))).bind fun
    | none => .error .notInBucket
    | some prev =>
      .ok ((m.setHashNext prev (m.hashNext obj)).setLinks (ObjList.deleteObjInTable m.links obj))

/-- `chained_hashtable_delete`. -/
def delete (m : ChainedHashtable hash) (obj : Addr) : Except MemFault (ChainedHashtable hash) :=
  let m := m.decItem
  let i := m.place (hash (m.objs obj).objId)
  if m.empty i then .error .emptyBucket
  else if obj = m.table i then .ok (m.deleteFirst i)
  else m.deleteInChain i obj

/-- The objects that `chained_hashtable_foreach` visits in bucket `i`. -/
def bucketObjs (m : ChainedHashtable hash) (i : Nat) : List Addr :=
  if m.empty i then [] else walkFrom m.hashNext m.turns (some (m.table i))

/-- `chained_hashtable_foreach`: the objects in the order of the visits. -/
def objects (m : ChainedHashtable hash) : List Addr :=
  (List.range (2 ^ m.hashPower)).flatMap m.bucketObjs

end ChainedHashtable

end C2DN.Simulator
