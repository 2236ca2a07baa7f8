/-!
# The layout tree

The blocks of a tab are tiled by a tree: a leaf shows a block, a group lays its children
out in a row or in a column.  A group may have lost all of its children or all but one,
and may have the direction of the group above it, until `balanceNode` has walked the tree.

The walk visits a group before its children.  There it hoists: a child whose only child
is a group is replaced by the children of that group, a child without children leaves
`undefined` in the list.  After the children it drops what is `undefined`, and a group
with a single leaf becomes that leaf.
-/

namespace Layout

/-- How a group lays its children out. -/
inductive FlexDirection where
  | row
  | column
deriving DecidableEq

/-- The other direction. -/
def reverseFlexDirection (flexDirection : FlexDirection) : FlexDirection :=
  if flexDirection = .row then .column else .row

/-- What a leaf shows. -/
structure TabLayoutData where
  blockId : String
deriving DecidableEq

/-- A node of the tree has either data or children. -/
inductive LayoutNode where
  | leaf (id : String) (data : TabLayoutData) (flexDirection : FlexDirection) (size : Rat)
  | group (id : String) (children : List LayoutNode) (flexDirection : FlexDirection) (size : Rat)

namespace LayoutNode

@[induction_eliminator]
theorem induct {motive : LayoutNode → Prop}
    (leaf : ∀ id data flexDirection size, motive (.leaf id data flexDirection size))
    (group : ∀ id children flexDirection size, (∀ child ∈ children, motive child) →
      motive (.group id children flexDirection size)) :
    ∀ node, motive node
  | .leaf id data flexDirection size => leaf id data flexDirection size
  | .group id children flexDirection size =>
    group id children flexDirection size fun child _ => induct leaf group child

/-- The id of a node. -/
def id : LayoutNode → String
  | .leaf id _ _ _ => id
  | .group id _ _ _ => id

/-- The direction of a node. -/
def flexDirection : LayoutNode → FlexDirection
  | .leaf _ _ flexDirection _ => flexDirection
  | .group _ _ flexDirection _ => flexDirection

/-- The node with another direction. -/
def setFlexDirection (flexDirection : FlexDirection) : LayoutNode → LayoutNode
  | .leaf id data _ size => .leaf id data flexDirection size
  | .group id children _ size => .group id children flexDirection size

/-- The children of a node; a leaf has none. -/
def children : LayoutNode → List LayoutNode
  | .leaf _ _ _ _ => []
  | .group _ children _ _ => children

/-- Whether the node is a leaf. -/
def isLeaf : LayoutNode → Bool
  | .leaf _ _ _ _ => true
  | .group _ _ _ _ => false

@[simp] theorem children_setFlexDirection (flex : FlexDirection) (node : LayoutNode) :
    (node.setFlexDirection flex).children = node.children := by
  cases node <;> rfl

mutual

/-- The leaves of a tree from left to right, with what they show. -/
def leaves : LayoutNode → List (String × TabLayoutData)
  | .leaf id data _ _ => [(id, data)]
  | .group _ children _ _ => leavesAll children

/-- The leaves of a list of trees. -/
def leavesAll : List LayoutNode → List (String × TabLayoutData)
  | [] => []
  | child :: rest => child.leaves ++ leavesAll rest

end

mutual

/-- The number of nodes of a tree. -/
def count : LayoutNode → Nat
  | .leaf _ _ _ _ => 1
  | .group _ children _ _ => countAll children + 1

/-- The number of nodes of a list of trees. -/
def countAll : List LayoutNode → Nat
  | [] => 0
  | child :: rest => child.count + countAll rest

end

theorem leavesAll_eq (nodes : List LayoutNode) : leavesAll nodes = nodes.flatMap leaves := by
  induction nodes with
  | nil => rfl
  | cons child rest ih => rw [leavesAll, ih, List.flatMap_cons]

theorem leaves_setFlexDirection (flex : FlexDirection) (node : LayoutNode) :
    (node.setFlexDirection flex).leaves = node.leaves := by
  cases node <;> simp only [setFlexDirection, leaves]

theorem count_setFlexDirection (flex : FlexDirection) (node : LayoutNode) :
    (node.setFlexDirection flex).count = node.count := by
  cases node <;> simp only [setFlexDirection, count]

theorem count_pos (node : LayoutNode) : 0 < node.count := by
  cases node <;> simp only [count] <;> omega

theorem count_le_countAll {nodes : List LayoutNode} {node : LayoutNode} (h : node ∈ nodes) :
    node.count ≤ countAll nodes := by
  induction nodes with
  | nil => cases h
  | cons child rest ih =>
    rw [countAll]
    rcases List.mem_cons.mp h with rfl | h
    · omega
    · have := ih h
      omega

end LayoutNode

/-- What a failing operation throws. -/
inductive LayoutError where
  /-- `Invalid node`. -/
  | invalidNode
  /-- A property of `undefined` is read. -/
  | undefinedNode
deriving DecidableEq

/-- A group may not have an empty array of children; that a node has not both data and
children is its type. -/
def validateNode : LayoutNode → Bool
  | .leaf _ _ _ _ => true
  | .group _ children _ _ => !children.isEmpty

/-- What the callbacks of a walk read of a node: of its children the ids.  In the middle of
a balancing walk some of the children may be `undefined`. -/
structure Visit where
  id : String
  data : Option TabLayoutData
  children : Option (List (Option String))

section Walks

variable {σ : Type}

/-- Walks over a list of children.  What is `undefined` is passed over, and it is not in
the list that comes back. -/
def forEach (walk : LayoutNode → σ → Except LayoutError (LayoutNode × σ)) :
    List (Option LayoutNode) → σ → Except LayoutError (List LayoutNode × σ)
  | [], s => .ok ([], s)
  | none :: rest, s => forEach walk rest s
  | some child :: rest, s => do
      let (child, s) ← walk child s
      let (rest, s) ← forEach walk rest s
      return (child :: rest, s)

mutual

/-- Shows every node to the callback, parents first. -/
def walkNodes (before : Visit → σ → Except LayoutError σ) :
    LayoutNode → σ → Except LayoutError σ
  | .leaf id data _ _, s => before ⟨id, some data, none⟩ s
  | .group id children _ _, s => do
      let s ← before ⟨id, none, some (children.map fun child => some child.id)⟩ s
      walkEach before children s

/-- Walks over the children of a node. -/
def walkEach (before : Visit → σ → Except LayoutError σ) :
    List LayoutNode → σ → Except LayoutError σ
  | [], s => .ok s
  | child :: rest, s => do
      let s ← walkNodes before child s
      walkEach before rest s

end

/-- A child that has the direction of its parent is turned. -/
def turned (flexDirection : FlexDirection) (child : LayoutNode) : LayoutNode :=
  if child.flexDirection = flexDirection then
    child.setFlexDirection (reverseFlexDirection flexDirection)
  else child

/-- What replaces a child in the children of a group: the children of its only child, if
that is a group; `undefined`, if it has no children; else the child itself. -/
def hoist (flexDirection : FlexDirection) (child : LayoutNode) : List (Option LayoutNode) :=
  match turned flexDirection child with
  | .group _ [.group _ grandchildren _ _] _ _ => grandchildren.map some
  | .group _ [] _ _ => [none]
  | child => [some child]

/-- A group whose only child is a leaf becomes that leaf. -/
def collapse (id : String) (flexDirection : FlexDirection) (size : Rat) :
    List LayoutNode → LayoutNode
  | [.leaf leafId data _ _] => .leaf leafId data flexDirection size
  | children => .group id children flexDirection size

/-- The balancing walk; `fuel` bounds the depth of the tree. -/
def balanceWalk (before : Visit → σ → Except LayoutError σ) :
    Nat → LayoutNode → σ → Except LayoutError (LayoutNode × σ)
  | 0, node, s => .ok (node, s)
  | _ + 1, .leaf id data flexDirection size, s => do
      let s ← before ⟨id, some data, none⟩ s
      return (.leaf id data flexDirection size, s)
  | fuel + 1, .group id children flexDirection size, s => do
      if validateNode (.group id children flexDirection size) = false then
        throw .invalidNode
      let children := children.flatMap (hoist flexDirection)
      let s ← before ⟨id, none, some (children.map fun child => child.map LayoutNode.id)⟩ s
      let (children, s) ← forEach (balanceWalk before fuel) children s
      return (collapse id flexDirection size children, s)

/-- Balances the tree below a node; the callback sees every node before its children. -/
def balanceNodeWith (before : Visit → σ → Except LayoutError σ) (node : LayoutNode) (s : σ) :
    Except LayoutError (LayoutNode × σ) :=
  balanceWalk before node.count node s

/-- Balances the tree below a node, without a callback. -/
def balanceNode (node : LayoutNode) : Except LayoutError LayoutNode :=
  (balanceNodeWith (fun _ => .ok) node ()).map Prod.fst

end Walks

end Layout
