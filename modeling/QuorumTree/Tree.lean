import QuorumTree.Hash.Tagged

/-!
Merkle trees, level by level. Nodes are paired from the left, and a node left over at the end of a
level is paired with itself; the levels end with the root.
-/

namespace QuorumTree

/-- The level above: the branch of each pair, and of a last node with itself. -/
def pairUp : List Bytes32 → List Bytes32
  | a :: b :: rest => branchHash a b :: pairUp rest
  | [a] => [branchHash a a]
  | [] => []

@[simp] theorem length_pairUp (nodes : List Bytes32) :
    (pairUp nodes).length = (nodes.length + 1) / 2 := by
  fun_induction pairUp nodes with
  | case1 a b rest ih => simp only [List.length_cons, ih]; omega
  | case2 a => simp
  | case3 => simp

/-- The levels of a tree, the widest first. -/
inductive Levels
  | top (root : Bytes32)
  | level (nodes : List Bytes32) (above : Levels)
  deriving DecidableEq

namespace Levels

def toList : Levels → List (List Bytes32)
  | top root => [[root]]
  | level nodes above => nodes :: above.toList

def root : Levels → Bytes32
  | top root => root
  | level _ above => above.root

/-- The number of levels below the root. -/
def depth : Levels → Nat
  | top _ => 0
  | level _ above => above.depth + 1

/-- The levels over the nodes `first :: rest`. The first argument bounds the number of levels; the
number of nodes in `rest` is always enough. -/
def grow : Nat → Bytes32 → List Bytes32 → Levels
  | _, first, [] => top first
  | 0, first, _ :: _ => top first
  | bound + 1, first, second :: rest =>
    level (first :: second :: rest) (grow bound (branchHash first second) (pairUp rest))

end Levels

structure MerkleTree where
  first : Bytes32
  rest : List Bytes32
  levels : Levels
  levels_eq : levels = Levels.grow rest.length first rest
  deriving DecidableEq

structure MerkleNode where
  level : Number
  index : Number
  hash : Bytes32
  deriving DecidableEq

def MerkleNode.isLeaf (node : MerkleNode) : Bool :=
  node.level.same (.whole 0)

namespace MerkleTree

def build (first : Bytes32) (rest : List Bytes32) : MerkleTree :=
  ⟨first, rest, Levels.grow rest.length first rest, rfl⟩

def ofLeaves? : List Bytes32 → Option MerkleTree
  | [] => none
  | first :: rest => some (build first rest)

def ofLeaves (leaves : List Bytes32) : Except Fault MerkleTree :=
  match ofLeaves? leaves with
  | some tree => .ok tree
  | none => .error .noLeaves

def leaves (tree : MerkleTree) : List Bytes32 :=
  tree.first :: tree.rest

def leafCount (tree : MerkleTree) : Nat :=
  tree.leaves.length

def root (tree : MerkleTree) : Bytes32 :=
  tree.levels.root

def depth (tree : MerkleTree) : Nat :=
  tree.levels.depth

def nodeCount (tree : MerkleTree) : Nat :=
  tree.levels.toList.flatten.length

def summary (tree : MerkleTree) : String :=
  s!"<MastTree(leaves={tree.leafCount}, depth={tree.depth}, root=" ++ Hex.encode tree.root.bytes ++
    ")>"

def levelAt? (tree : MerkleTree) (level : Int) : Option (List Bytes32) :=
  if 0 ≤ level then tree.levels.toList[level.toNat]? else none

/-- The nodes of a level, which has to be one of the tree and to be counted. -/
def levelAt (tree : MerkleTree) (level : Number) : Except Fault (List Bytes32) :=
  if (Number.whole 0).le level && level.lt (.whole tree.levels.toList.length) then
    match level.toInt?.bind tree.levelAt? with
    | some nodes => .ok nodes
    | none => .error .wrongType
  else .error (.telling [level] (.levelRange level tree.depth))

def nodeIn (nodes : List Bytes32) (level index : Number) : Except Fault MerkleNode :=
  if (Number.whole 0).le index && index.lt (.whole nodes.length) then
    match index.toInt?.bind fun i => nodes[i.toNat]? with
    | some hash => .ok ⟨level, index, hash⟩
    | none => .error .wrongType
  else .error (.telling [index, level] (.indexRange index level nodes.length))

def node (tree : MerkleTree) (level index : Number) : Except Fault MerkleNode := do
  nodeIn (← tree.levelAt level) level index

def leaf (tree : MerkleTree) (index : Number) : Except Fault Bytes32 :=
  (tree.node (.whole 0) index).map (·.hash)

/-- The level under a given one, where levels are counted from the top when the number is
negative. -/
def levelUnder? (tree : MerkleTree) (level : Int) : Option (List Bytes32) :=
  let below := level - 1
  let levels := tree.levels.toList
  if 0 ≤ below then levels[below.toNat]?
  else if 0 ≤ levels.length + below then levels[(levels.length + below).toNat]?
  else none

def levelUnder (tree : MerkleTree) (level : Number) :
    Except Fault (Option (Number × List Bytes32)) :=
  if level.same (.whole 0) then .ok none
  else match level.toInt? with
    | none => .error .wrongType
    | some n =>
      match tree.levelUnder? n with
      | none => .error .noSuchPosition
      | some nodes => .ok (some (.whole (n - 1), nodes))

/-- The two nodes that the node at an index of a level was hashed from, where the level under it has
the given number and nodes. -/
def childrenIn (tree : MerkleTree) (below : Number) (nodes : List Bytes32) (index : Number) :
    Except Fault (MerkleNode × MerkleNode) := do
  let left := (index.add? index).getD index
  let next := (left.add? (.whole 1)).getD left
  let right := if next.lt (.whole nodes.length) then next else left
  return (← tree.node below left, ← tree.node below right)

/-- The two nodes that the node at a place was hashed from; a leaf has none. -/
def children (tree : MerkleTree) (level index : Number) :
    Except Fault (Option (MerkleNode × MerkleNode)) := do
  match ← tree.levelUnder level with
  | none => return none
  | some (below, nodes) => some <$> tree.childrenIn below nodes index

end MerkleTree

/-- The depth of a tree with the given number of leaves: the least `d` with `leafCount ≤ 2 ^ d`. -/
def treeDepth (leafCount : Nat) : Nat :=
  if leafCount ≤ 1 then 0 else (leafCount - 1).log2 + 1

def treeDepthOf (leafCount : Number) : Except Fault Nat :=
  if leafCount.lt (.whole 1) then .error .noLeafCount
  else match leafCount.toInt? with
    | some n => .ok (treeDepth n.toNat)
    | none => .error .noSuchField

end QuorumTree
