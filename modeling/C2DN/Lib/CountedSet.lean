import Mathlib.Data.Finset.Filter
import Mathlib.Data.Finset.Card
import Mathlib.Data.Finset.Insert

/-!
# Ordered sets with counts

The interface of a tree that implements a set of keys. After a key has been splayed, the keys behind it
can be counted.
-/

namespace C2DN

structure CountedSet (κ : Type) [LinearOrder κ] where
  Tree : Type
  keys : Tree → Finset κ
  empty : Tree
  insert : κ → Tree → Tree
  delete : κ → Tree → Tree
  splay : κ → Tree → Tree
  /-- the count of the right subtree of the root; a null pointer has no subtree -/
  countRight : Tree → Option Int
  keys_empty : keys empty = ∅
  keys_insert : ∀ i t, keys (insert i t) = Insert.insert i (keys t)
  keys_delete : ∀ i t, keys (delete i t) = (keys t).erase i
  keys_splay : ∀ i t, keys (splay i t) = keys t
  countRight_splay : ∀ i t, i ∈ keys t →
    countRight (splay i t) = some (((keys t).filter (i < ·)).card : Int)

end C2DN
