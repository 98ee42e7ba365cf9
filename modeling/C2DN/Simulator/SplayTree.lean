/-!
# Splay trees

`splay.c`, the top-down splaying with subtree counts. While `splay` goes down, the nodes that it leaves
are hung into two trees on the left and on the right of the rest (`Paths`); their counts are corrected
at the end. Keys and counts are integers without a limit.
-/

namespace C2DN.Simulator

/-- `sTree`. -/
inductive STree where
  | null
  | node (left : STree) (key value : Int) (right : STree)
  deriving DecidableEq

/-- How a call ends that does not return. -/
inductive SplayFault where
  | nullPointer
  /-- `assert` in `insert` -/
  | assertion
  deriving DecidableEq

/-- `key_cmp`. -/
def keyCmp (i j : Int) : Int := i - j

namespace STree

/-- `node_value`. -/
def nodeValue : STree → Int
  | null => 0
  | node _ _ value _ => value

/-! ## `splay` -/

/-- A node of the tree on the left, without its right child. -/
structure LeftNode where
  left : STree
  key : Int
  value : Int

/-- A node of the tree on the right, without its left child. -/
structure RightNode where
  key : Int
  value : Int
  right : STree

/-- The trees below `N`, from the root on. The next node is hung below the last one. -/
structure Paths where
  left : List LeftNode
  right : List RightNode
  lSize : Int
  rSize : Int

def Paths.linkLeft (p : Paths) (left : STree) (key value : Int) : Paths :=
  { p with left := p.left ++ [⟨left, key, value⟩], lSize := p.lSize + (1 + nodeValue left) }

def Paths.linkRight (p : Paths) (key value : Int) (right : STree) : Paths :=
  { p with right := p.right ++ [⟨key, value, right⟩], rSize := p.rSize + (1 + nodeValue right) }

/-- The loop of `splay`; `t` is not null. -/
def splayLoop (i : Int) : STree → Paths → STree × Paths
  | null, p => (null, p)
  | node l k v r, p =>
    if keyCmp i k < 0 then
      match l with
      | null => (node null k v r, p)
      | node ll lk lv lr =>
        if keyCmp i lk < 0 then
          -- rotate right
          let t := node lr k (nodeValue lr + nodeValue r + 1) r
          match ll with
          | null => (node null lk lv t, p)
          | node a b c d => splayLoop i (node a b c d) (p.linkRight lk lv t)
        else splayLoop i (node ll lk lv lr) (p.linkRight k v r)
    else if 0 < keyCmp i k then
      match r with
      | null => (node l k v null, p)
      | node rl rk rv rr =>
        if 0 < keyCmp i rk then
          -- rotate left
          let t := node l k (nodeValue l + nodeValue rl + 1) rl
          match rr with
          | null => (node t rk rv null, p)
          | node a b c d => splayLoop i (node a b c d) (p.linkLeft t rk rv)
        else splayLoop i (node rl rk rv rr) (p.linkLeft l k v)
    else (node l k v r, p)

/-- `for (y = N.right; y != NULL; y = y->right)`. -/
def correctLeft : Int → List LeftNode → List LeftNode
  | _, [] => []
  | lSize, y :: ys => { y with value := lSize } :: correctLeft (lSize - (1 + nodeValue y.left)) ys

/-- `for (y = N.left; y != NULL; y = y->left)`. -/
def correctRight : Int → List RightNode → List RightNode
  | _, [] => []
  | rSize, y :: ys => { y with value := rSize } :: correctRight (rSize - (1 + nodeValue y.right)) ys

def hangLeft (ys : List LeftNode) (t : STree) : STree :=
  ys.foldr (fun y t => node y.left y.key y.value t) t

def hangRight (ys : List RightNode) (t : STree) : STree :=
  ys.foldr (fun y t => node t y.key y.value y.right) t

def splay (i : Int) (t : STree) : STree :=
  match splayLoop i t ⟨[], [], 0, 0⟩ with
  | (null, _) => null
  | (node l k _ r, p) =>
    let lSize := p.lSize + nodeValue l
    let rSize := p.rSize + nodeValue r
    node (hangLeft (correctLeft lSize p.left) l) k (lSize + rSize + 1)
      (hangRight (correctRight rSize p.right) r)

/-! ## `insert` and `splay_delete` -/

def insert (i : Int) : STree → Except SplayFault STree
  | null => .ok (node null i 1 null)
  | node a b c d =>
    match splay i (node a b c d) with
    | null => .error .nullPointer
    | node l k v r =>
      if keyCmp i k < 0 then
        let t := node null k (1 + nodeValue r) r
        .ok (node l i (1 + nodeValue l + nodeValue t) t)
      else if 0 < keyCmp i k then
        let t := node l k (1 + nodeValue l) null
        .ok (node t i (1 + nodeValue t + nodeValue r) r)
      else if v = 1 + nodeValue l + nodeValue r then .ok (node l k v r)
      else .error .assertion

/-- `if (x != NULL) x->value = value;` -/
def setValue (value : Int) : STree → STree
  | null => null
  | node l k _ r => node l k value r

/-- `splay_delete`. -/
def splayDelete (i : Int) : STree → Except SplayFault STree
  | null => .ok null
  | node a b rootValue d =>
    match splay i (node a b rootValue d) with
    | null => .error .nullPointer
    | node l k v r =>
      if keyCmp i k = 0 then
        match l with
        | null => .ok (setValue (rootValue - 1) r)
        | node a b c d =>
          match splay i (node a b c d) with
          | null => .error .nullPointer
          | node l k v _ => .ok (setValue (rootValue - 1) (node l k v r))
      else .ok (node l k v r)

/-- `node_value(t->right)`. -/
def countRight : STree → Option Int
  | null => none
  | node _ _ _ r => some (nodeValue r)

end STree

end C2DN.Simulator
