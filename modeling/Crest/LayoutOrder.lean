import Crest.CodeUnits
import Crest.JsonCanonical
import Crest.LayoutBalance

/-!
# The order of the leaves of a layout

`updateTree` walks the tree, with or without balancing it, and gives every node a tree key:
the key of its parent and behind it its own index in decimal.  The leaves are then sorted
by their keys, and the number of a block is its place in this order.

The indexes have no separators and no fixed width, so the eleventh child of a group, with
the index `10`, is sorted between its second and its third child.
-/

namespace Layout

open CodeUnit (decimal)

/-! ## The update -/

/-- What a walk over the tree gathers: the tree keys of the nodes by their ids, and the
nodes that it takes for leaves. -/
structure TreeUpdate where
  additionalProps : JsMap String JsString
  leafs : List (String × Option TabLayoutData)

/-- The key of a node that has none. -/
def rootTreeKey : JsString := [0x30]

/-- Gives the children of a group their keys, from the index `i` on. -/
def setTreeKeys (treeKey : JsString) : Nat → List (Option String) → JsMap String JsString →
    Except LayoutError (JsMap String JsString)
  | _, [], props => .ok props
  | _, none :: _, _ => .error .undefinedNode
  | i, some id :: rest, props =>
    setTreeKeys treeKey (i + 1) rest (props.set id (treeKey ++ decimal i))

/-- The callback of the walk. -/
def updateTreeHelper (node : Visit) (s : TreeUpdate) : Except LayoutError TreeUpdate :=
  match node.children.getD [] with
  | [] => .ok { s with leafs := s.leafs ++ [(node.id, node.data)] }
  | children => do
      let treeKey := (s.additionalProps.get node.id).getD rootTreeKey
      let props ← setTreeKeys treeKey 0 children s.additionalProps
      return { s with additionalProps := props.set node.id treeKey }

/-- An entry of the leaf order. -/
structure LeafOrderEntry where
  nodeid : String
  blockid : String
deriving DecidableEq

/-- The entry of a leaf. -/
def leafOrderEntry : String × Option TabLayoutData → Except LayoutError LeafOrderEntry
  | (_, none) => .error .undefinedNode
  | (id, some data) => .ok ⟨id, data.blockId⟩

/-- Whether the comparison of two tree keys leaves their entries in place; on strings of
digits `localeCompare` is the order of their code units. -/
def inPlace : Option JsString → Option JsString → Bool
  | some treeKeyA, some treeKeyB => Json.codeUnitsLE treeKeyA treeKeyB
  | _, _ => true

/-- The leaves, sorted by their tree keys. -/
def getLeafOrder (leafs : List (String × Option TabLayoutData))
    (additionalProps : JsMap String JsString) : Except LayoutError (List LeafOrderEntry) := do
  let entries ← leafs.mapM leafOrderEntry
  return entries.mergeSort fun a b =>
    inPlace (additionalProps.get a.nodeid) (additionalProps.get b.nodeid)

/-- The walk of an update, with balancing or without. -/
def updateWalk (balanceTree : Bool) (rootNode : LayoutNode) :
    Except LayoutError (LayoutNode × TreeUpdate) :=
  if balanceTree then balanceNodeWith updateTreeHelper rootNode ⟨.empty, []⟩
  else (walkNodes updateTreeHelper rootNode ⟨.empty, []⟩).map fun s => (rootNode, s)

/-- The new tree and the order of its leaves, while no ephemeral node is shown. -/
def updateTree (balanceTree : Bool) (rootNode : LayoutNode) :
    Except LayoutError (LayoutNode × List LeafOrderEntry) := do
  let (rootNode, s) ← updateWalk balanceTree rootNode
  let leafOrder ← getLeafOrder s.leafs s.additionalProps
  return (rootNode, leafOrder)

/-- The leaves of a tree in reading order. -/
def readingOrder (rootNode : LayoutNode) : List LeafOrderEntry :=
  rootNode.leaves.map fun leaf => ⟨leaf.1, leaf.2.blockId⟩

namespace LayoutNode

/-! ## Valid trees -/

/-- Every node of the tree is valid. -/
inductive Valid : LayoutNode → Prop
  | leaf (id : String) (data : TabLayoutData) (flex : FlexDirection) (size : Rat) :
      Valid (.leaf id data flex size)
  | group {id : String} {children : List LayoutNode} {flex : FlexDirection} {size : Rat}
      (hvalid : validateNode (.group id children flex size) = true)
      (hbelow : ∀ child ∈ children, Valid child) :
      Valid (.group id children flex size)

mutual

/-- The ids of the nodes of a tree. -/
def ids : LayoutNode → List String
  | .leaf id _ _ _ => [id]
  | .group id children _ _ => id :: idsAll children

/-- The ids of the nodes of a list of trees. -/
def idsAll : List LayoutNode → List String
  | [] => []
  | child :: rest => child.ids ++ idsAll rest

end

/-- The children of a node as the walk goes on with them. -/
def walked (balanceTree : Bool) (node : LayoutNode) : List LayoutNode :=
  if balanceTree then node.kept else node.children

/-- No group that the walk comes to has more than ten children. -/
inductive Narrow (balanceTree : Bool) : LayoutNode → Prop
  | intro {node : LayoutNode} (hwidth : (node.walked balanceTree).length ≤ 10)
      (hbelow : ∀ child ∈ node.walked balanceTree, Narrow balanceTree child) :
      Narrow balanceTree node

theorem Valid.child {node child : LayoutNode} (h : node.Valid)
    (hchild : child ∈ node.children) :
    child.Valid := by
  cases h with
  | leaf id data flex size => cases hchild
  | group hvalid hbelow => exact hbelow child hchild

theorem Valid.setFlexDirection {node : LayoutNode} (h : node.Valid) (flex : FlexDirection) :
    (node.setFlexDirection flex).Valid := by
  cases h with
  | leaf id data _ size => exact .leaf id data flex size
  | group hvalid hbelow => exact .group hvalid hbelow

theorem Valid.turned {node : LayoutNode} (h : node.Valid) (flex : FlexDirection) :
    (turned flex node).Valid := by
  rw [Layout.turned]
  split
  · exact h.setFlexDirection _
  · exact h

theorem Valid.walked {balanceTree : Bool} {node child : LayoutNode} (h : node.Valid)
    (hchild : child ∈ node.walked balanceTree) :
    child.Valid := by
  rw [LayoutNode.walked] at hchild
  split at hchild
  · obtain ⟨entry, hentry, rfl⟩ := List.mem_filterMap.mp hchild
    obtain ⟨original, horiginal, hhoist⟩ := List.mem_flatMap.mp hentry
    have hvalid := h.child horiginal
    rcases mem_hoist hhoist with rfl | ⟨grandchild, hgrandchild, hkid⟩
    · exact hvalid.turned _
    · exact (hvalid.child hgrandchild).child hkid
  · exact h.child hchild

theorem count_walked {balanceTree : Bool} {node child : LayoutNode}
    (h : child ∈ node.walked balanceTree) :
    child.count < node.count := by
  rw [walked] at h
  split at h
  · exact count_kept h
  · exact count_child h

theorem walked_induct {balanceTree : Bool} {motive : LayoutNode → Prop}
    (step : ∀ node, (∀ child ∈ node.walked balanceTree, motive child) → motive node)
    (node : LayoutNode) :
    motive node :=
  step node fun child _ => walked_induct step child
termination_by node.count
decreasing_by exact count_walked (by assumption)

theorem hoist_of_valid {child : LayoutNode} (h : child.Valid) (flex : FlexDirection) :
    hoist flex child = ((hoist flex child).filterMap fun child => child).map some := by
  have hturned := h.turned flex
  rw [hoist]
  split
  · rw [List.filterMap_map]
    exact congrArg _ List.filterMap_some.symm
  · rename_i heq
    rw [heq] at hturned
    cases hturned with
    | group hvalid _ => cases hvalid
  · rfl

theorem flatMap_hoist {id : String} {children : List LayoutNode} {flex : FlexDirection}
    {size : Rat} (h : Valid (.group id children flex size)) :
    children.flatMap (hoist flex) = (kept (.group id children flex size)).map some := by
  have hbelow : ∀ child ∈ children, child.Valid := fun child hchild => h.child hchild
  show _ = ((children.flatMap (hoist flex)).filterMap fun child => child).map some
  clear h
  induction children with
  | nil => rfl
  | cons child rest ih =>
    rw [List.flatMap_cons, List.filterMap_append, List.map_append,
      ← hoist_of_valid (hbelow child List.mem_cons_self) flex,
      ← ih fun other hother => hbelow other (List.mem_cons_of_mem _ hother)]

theorem Valid.walkable {node : LayoutNode} (h : node.Valid) :
    node.Walkable := by
  induction node using kept_induct with
  | step node ih =>
    refine .intro ?_ fun child hchild => ih child hchild (@Valid.walked true _ _ h hchild)
    cases h with
    | leaf id data flex size => rfl
    | group hvalid hbelow => exact hvalid

theorem idsAll_append (first second : List LayoutNode) :
    idsAll (first ++ second) = idsAll first ++ idsAll second := by
  induction first with
  | nil => rfl
  | cons child rest ih => rw [List.cons_append, idsAll, idsAll, ih, List.append_assoc]

theorem idsAll_eq (nodes : List LayoutNode) : idsAll nodes = nodes.flatMap ids := by
  induction nodes with
  | nil => rfl
  | cons child rest ih => rw [idsAll, ih, List.flatMap_cons]

theorem ids_turned (flex : FlexDirection) (child : LayoutNode) :
    (turned flex child).ids = child.ids := by
  rw [turned]
  split
  · cases child <;> rfl
  · rfl

theorem sublist_idsAll_hoist (flex : FlexDirection) (child : LayoutNode) :
    (idsAll ((hoist flex child).filterMap fun child => child)).Sublist child.ids := by
  rw [← ids_turned flex child, hoist]
  split
  · rename_i id grandchildren flex' size _ _ heq
    rw [heq, ids, idsAll, ids, List.filterMap_map]
    refine List.Sublist.cons _ (List.Sublist.trans ?_ (List.sublist_append_left _ _))
    have hsome : grandchildren.filterMap ((fun child => child) ∘ some) = grandchildren :=
      List.filterMap_some
    rw [hsome]
    exact List.sublist_cons_self _ _
  · exact List.nil_sublist _
  · show (idsAll [turned flex child]).Sublist _
    rw [idsAll, idsAll, List.append_nil]

theorem sublist_idsAll_walked (balanceTree : Bool) (node : LayoutNode) :
    (idsAll (node.walked balanceTree)).Sublist (idsAll node.children) := by
  rw [walked]
  split
  · rw [kept]
    induction node.children with
    | nil => exact List.nil_sublist _
    | cons child rest ih =>
      rw [List.flatMap_cons, List.filterMap_append, idsAll_append, idsAll]
      exact (sublist_idsAll_hoist _ child).append ih
  · exact List.Sublist.refl _

theorem leaves_walked (balanceTree : Bool)
    (id : String) (children : List LayoutNode) (flex : FlexDirection) (size : Rat) :
    (walked balanceTree (.group id children flex size)).flatMap leaves =
      leaves (.group id children flex size) := by
  rw [walked, leaves]
  split
  · exact leaves_kept id children flex size
  · exact (leavesAll_eq children).symm

theorem Valid.leaves_ne_nil {node : LayoutNode} (h : node.Valid) :
    node.leaves ≠ [] := by
  induction h with
  | leaf id data flex size => exact List.cons_ne_nil _ _
  | @group id children flex size hvalid hbelow ih =>
    cases children with
    | nil => cases hvalid
    | cons child rest =>
      rw [leaves, leavesAll]
      exact List.append_ne_nil_of_left_ne_nil (ih child List.mem_cons_self) _

theorem Valid.walked_ne_nil {node : LayoutNode} (h : node.Valid)
    (hgroup : node.isLeaf = false) (balanceTree : Bool) :
    node.walked balanceTree ≠ [] := by
  cases node with
  | leaf id data flex size => cases hgroup
  | group id children flex size =>
    intro hnil
    have hleaves := leaves_walked balanceTree id children flex size
    rw [hnil] at hleaves
    exact h.leaves_ne_nil hleaves.symm

/-! ## What the callback sees of a valid tree -/

/-- The nodes that the walk shows to its callback. -/
def shown (balanceTree : Bool) : LayoutNode → List Visit
  | .leaf id data _ _ => [⟨id, some data, none⟩]
  | .group id children flex size =>
    ⟨id, none, some ((walked balanceTree (.group id children flex size)).map
      fun child => some child.id)⟩ ::
      (walked balanceTree (.group id children flex size)).attach.flatMap
        fun child => shown balanceTree child.1
termination_by node => node.count
decreasing_by exact count_walked child.2

theorem shown_group (balanceTree : Bool)
    (id : String) (children : List LayoutNode) (flex : FlexDirection) (size : Rat) :
    shown balanceTree (.group id children flex size) =
      ⟨id, none, some ((walked balanceTree (.group id children flex size)).map
        fun child => some child.id)⟩ ::
        (walked balanceTree (.group id children flex size)).flatMap (shown balanceTree) := by
  have hbelow : ∀ nodes : List LayoutNode,
      (nodes.attach.flatMap fun child => shown balanceTree child.1) =
        nodes.flatMap (shown balanceTree) := by
    intro nodes
    rw [List.flatMap_def, List.flatMap_def, List.attach_map_val]
  rw [shown, hbelow]

theorem visits_eq_shown {node : LayoutNode} (h : node.Valid) :
    node.visits = node.shown true := by
  induction node using kept_induct with
  | step node ih =>
    cases node with
    | leaf id data flex size => rw [visits, shown]
    | group id children flex size =>
      rw [visits_group, shown_group, flatMap_hoist h, List.map_map]
      refine congrArg _ (List.flatMap_congr ?_)
      intro child hchild
      exact ih child hchild (@Valid.walked true _ _ h hchild)

/-- The ids of the nodes that the walk shows. -/
def walkIds (balanceTree : Bool) (node : LayoutNode) : List String :=
  (node.shown balanceTree).map Visit.id

theorem walkIds_group (balanceTree : Bool)
    (id : String) (children : List LayoutNode) (flex : FlexDirection) (size : Rat) :
    walkIds balanceTree (.group id children flex size) =
      id :: (walked balanceTree (.group id children flex size)).flatMap
        (walkIds balanceTree) := by
  rw [walkIds, shown_group, List.map_cons, List.map_flatMap]
  rfl

theorem id_mem_walkIds (balanceTree : Bool) (node : LayoutNode) :
    node.id ∈ node.walkIds balanceTree := by
  cases node with
  | leaf id data flex size =>
    rw [walkIds, shown]
    exact List.mem_singleton_self _
  | group id children flex size =>
    rw [walkIds_group]
    exact List.mem_cons_self

theorem sublist_flatMap {nodes : List LayoutNode} {f g : LayoutNode → List String}
    (h : ∀ node ∈ nodes, (f node).Sublist (g node)) :
    (nodes.flatMap f).Sublist (nodes.flatMap g) := by
  induction nodes with
  | nil => exact List.Sublist.refl _
  | cons node rest ih =>
    rw [List.flatMap_cons, List.flatMap_cons]
    exact (h node List.mem_cons_self).append
      (ih fun other hother => h other (List.mem_cons_of_mem _ hother))

theorem sublist_flatMap_of_mem {nodes : List LayoutNode} {f : LayoutNode → List String}
    {node : LayoutNode} (h : node ∈ nodes) :
    (f node).Sublist (nodes.flatMap f) := by
  obtain ⟨front, back, rfl⟩ := List.append_of_mem h
  rw [List.flatMap_append, List.flatMap_cons]
  exact (List.sublist_append_left _ _).trans (List.sublist_append_right _ _)

theorem sublist_map_id {balanceTree : Bool} (nodes : List LayoutNode) :
    (nodes.map LayoutNode.id).Sublist (nodes.flatMap (walkIds balanceTree)) := by
  rw [List.map_eq_flatMap]
  refine sublist_flatMap fun node _ => ?_
  exact List.singleton_sublist.mpr (node.id_mem_walkIds balanceTree)

theorem sublist_walkIds (balanceTree : Bool) (node : LayoutNode) :
    (node.walkIds balanceTree).Sublist node.ids := by
  induction node using @walked_induct balanceTree with
  | step node ih =>
    cases node with
    | leaf id data flex size =>
      rw [walkIds, shown]
      exact List.Sublist.refl _
    | group id children flex size =>
      rw [walkIds_group, ids]
      refine List.Sublist.cons_cons _ ?_
      refine List.Sublist.trans ?_
        (sublist_idsAll_walked balanceTree (.group id children flex size))
      rw [idsAll_eq]
      exact sublist_flatMap ih

/-! ## The tree keys -/

/-- The leaves below a node in reading order, with their tree keys. -/
def treeKeys (balanceTree : Bool) (treeKey : JsString) : LayoutNode → List (String × JsString)
  | .leaf id _ _ _ => [(id, treeKey)]
  | .group id children flex size =>
    (List.finRange (walked balanceTree (.group id children flex size)).length).flatMap
      fun i => treeKeys balanceTree (treeKey ++ decimal i.val)
        ((walked balanceTree (.group id children flex size)).get i)
termination_by node => node.count
decreasing_by exact count_walked (List.get_mem _ _)

theorem flatMap_finRange {β : Type} (nodes : List LayoutNode) (f : LayoutNode → List β) :
    (List.finRange nodes.length).flatMap (fun i => f (nodes.get i)) = nodes.flatMap f := by
  conv_rhs => rw [← List.map_get_finRange nodes, List.flatMap_map]

theorem treeKeys_ids (balanceTree : Bool) (node : LayoutNode) :
    ∀ treeKey, (node.treeKeys balanceTree treeKey).map Prod.fst = node.leaves.map Prod.fst := by
  induction node using @walked_induct balanceTree with
  | step node ih =>
    intro treeKey
    cases node with
    | leaf id data flex size =>
      rw [treeKeys]
      rfl
    | group id children flex size =>
      rw [treeKeys, ← leaves_walked balanceTree, List.map_flatMap, List.map_flatMap,
        ← flatMap_finRange _ fun child => child.leaves.map Prod.fst]
      refine List.flatMap_congr ?_
      intro i _
      exact ih _ (List.get_mem _ _) _

theorem Valid.treeKeys_ne_nil {node : LayoutNode} (h : node.Valid) (balanceTree : Bool)
    (treeKey : JsString) :
    node.treeKeys balanceTree treeKey ≠ [] := by
  intro hnil
  have hids := treeKeys_ids balanceTree node treeKey
  rw [hnil, List.map_nil] at hids
  exact h.leaves_ne_nil (List.map_eq_nil_iff.mp hids.symm)

theorem mem_walkIds_of_treeKeys {balanceTree : Bool} {node : LayoutNode}
    {treeKey : JsString} {entry : String × JsString}
    (h : entry ∈ node.treeKeys balanceTree treeKey) :
    entry.1 ∈ node.walkIds balanceTree := by
  induction node using @walked_induct balanceTree generalizing treeKey with
  | step node ih =>
    cases node with
    | leaf id data flex size =>
      rw [treeKeys] at h
      rw [List.mem_singleton.mp h, walkIds, shown]
      exact List.mem_singleton_self _
    | group id children flex size =>
      rw [treeKeys] at h
      obtain ⟨i, -, hentry⟩ := List.mem_flatMap.mp h
      rw [walkIds_group]
      refine List.mem_cons_of_mem _ (List.mem_flatMap.mpr ⟨_, List.get_mem _ i, ?_⟩)
      exact ih _ (List.get_mem _ _) hentry

theorem treeKey_front {balanceTree : Bool} {node : LayoutNode} {treeKey : JsString}
    {entry : String × JsString} (h : entry ∈ node.treeKeys balanceTree treeKey) :
    ∃ tail, entry.2 = treeKey ++ tail := by
  induction node using @walked_induct balanceTree generalizing treeKey with
  | step node ih =>
    cases node with
    | leaf id data flex size =>
      rw [treeKeys] at h
      rw [List.mem_singleton.mp h]
      exact ⟨[], (List.append_nil _).symm⟩
    | group id children flex size =>
      rw [treeKeys] at h
      obtain ⟨i, -, hentry⟩ := List.mem_flatMap.mp h
      obtain ⟨tail, htail⟩ := ih _ (List.get_mem _ _) hentry
      exact ⟨decimal i.val ++ tail, htail.trans (List.append_assoc _ _ _)⟩

/-! ## The order of the tree keys -/

theorem codeUnitsLE_append (treeKey a b : JsString) :
    Json.codeUnitsLE (treeKey ++ a) (treeKey ++ b) = Json.codeUnitsLE a b := by
  induction treeKey with
  | nil => rfl
  | cons u rest ih => simp [Json.codeUnitsLE, ih]

theorem decimal_digit {i : Nat} (h : i < 10) :
    (decimal i : JsString) = [UInt16.ofNat (0x30 + i)] := by
  have hall : ∀ i : Fin 10, (decimal i.val : JsString) = [UInt16.ofNat (0x30 + i.val)] := by
    decide
  exact hall ⟨i, h⟩

theorem codeUnitsLE_decimal {i j : Nat} (hij : i < j) (hj : j < 10) (a b : JsString) :
    Json.codeUnitsLE (decimal i ++ a) (decimal j ++ b) = true := by
  rw [decimal_digit (by omega), decimal_digit hj]
  have hlt : UInt16.ofNat (0x30 + i) < UInt16.ofNat (0x30 + j) := by
    rw [UInt16.lt_iff_toNat_lt, UInt16.toNat_ofNat', UInt16.toNat_ofNat']
    omega
  show (decide (UInt16.ofNat (0x30 + i) < UInt16.ofNat (0x30 + j)) || _) = true
  rw [decide_eq_true hlt]
  rfl

theorem not_codeUnitsLE_ten (a b : JsString) :
    Json.codeUnitsLE (decimal 2 ++ a) (decimal 10 ++ b) = false := by
  have htwo : (decimal 2 : JsString) = [0x32] := by decide
  have hten : (decimal 10 : JsString) = [0x31, 0x30] := by decide
  rw [htwo, hten]
  simp [Json.codeUnitsLE]

theorem rel_finRange {n : Nat} {R : Fin n → Fin n → Prop} (h : (List.finRange n).Pairwise R)
    {i j : Fin n} (hij : i.val < j.val) :
    R i j := by
  have hall := List.pairwise_iff_getElem.mp h i.val j.val (by simp) (by simp) hij
  simpa using hall

/-- **The keys of the leaves are in order exactly if no group has an eleventh child.** -/
theorem pairwise_treeKeys_iff {balanceTree : Bool} {node : LayoutNode}
    (hvalid : node.Valid) :
    ∀ treeKey, (node.treeKeys balanceTree treeKey).Pairwise
        (fun a b => Json.codeUnitsLE a.2 b.2 = true) ↔ node.Narrow balanceTree := by
  induction node using @walked_induct balanceTree with
  | step node ih =>
    intro treeKey
    cases node with
    | leaf id data flex size =>
      rw [treeKeys]
      refine ⟨fun _ => .intro ?_ ?_, fun _ => List.pairwise_singleton _ _⟩
      · cases balanceTree <;> exact Nat.zero_le _
      · intro child hchild
        cases balanceTree <;> cases hchild
    | group id children flex size =>
      rw [treeKeys, List.pairwise_flatMap]
      constructor
      · intro h
        obtain ⟨hbelow, hbetween⟩ := h
        refine .intro (Nat.le_of_not_lt fun hwide => ?_) ?_
        · -- the third child and the eleventh are out of order
          have hvalid' : ∀ i, Valid ((walked balanceTree (.group id children flex size)).get i) :=
            fun i => hvalid.walked (List.get_mem _ _)
          let two : Fin (walked balanceTree (.group id children flex size)).length :=
            ⟨2, by omega⟩
          let ten : Fin (walked balanceTree (.group id children flex size)).length :=
            ⟨10, hwide⟩
          obtain ⟨a, ha⟩ := List.exists_mem_of_ne_nil _
            ((hvalid' two).treeKeys_ne_nil balanceTree (treeKey ++ decimal 2))
          obtain ⟨b, hb⟩ := List.exists_mem_of_ne_nil _
            ((hvalid' ten).treeKeys_ne_nil balanceTree (treeKey ++ decimal 10))
          have hlt : two.val < ten.val := show 2 < 10 by decide
          have hle := rel_finRange hbetween hlt a ha b hb
          obtain ⟨atail, ha'⟩ := treeKey_front ha
          obtain ⟨btail, hb'⟩ := treeKey_front hb
          rw [ha', hb', List.append_assoc, List.append_assoc, codeUnitsLE_append,
            not_codeUnitsLE_ten] at hle
          cases hle
        · intro child hchild
          obtain ⟨i, rfl⟩ := List.get_of_mem hchild
          exact (ih _ hchild (hvalid.walked hchild) _).mp (hbelow i (List.mem_finRange i))
      · intro h
        cases h with
        | intro hwidth hbelow =>
          refine ⟨?_, ?_⟩
          · intro i _
            have hmem := List.get_mem (walked balanceTree (.group id children flex size)) i
            exact (ih _ hmem (hvalid.walked hmem) _).mpr (hbelow _ hmem)
          · refine (List.pairwise_lt_finRange _).imp ?_
            intro i j hij a ha b hb
            obtain ⟨atail, ha'⟩ := treeKey_front ha
            obtain ⟨btail, hb'⟩ := treeKey_front hb
            rw [ha', hb', List.append_assoc, List.append_assoc, codeUnitsLE_append]
            exact codeUnitsLE_decimal hij (by omega) _ _

end LayoutNode

/-! ## The walk of an update -/

theorem setTreeKeys_some (treeKey : JsString) (ids : List String) (hnodup : ids.Nodup)
    (i : Nat) (props : JsMap String JsString) :
    ∃ props', setTreeKeys treeKey i (ids.map some) props = .ok props' ∧
      (∀ id, id ∉ ids → props'.get id = props.get id) ∧
      (∀ j id, ids[j]? = some id → props'.get id = some (treeKey ++ decimal (i + j))) := by
  induction ids generalizing i props with
  | nil =>
    refine ⟨props, rfl, fun _ _ => rfl, ?_⟩
    intro j id h
    cases h
  | cons first rest ih =>
    obtain ⟨hfirst, hrest⟩ := List.nodup_cons.mp hnodup
    obtain ⟨props', hok, hother, hset⟩ :=
      ih hrest (i + 1) (props.set first (treeKey ++ decimal i))
    refine ⟨props', hok, ?_, ?_⟩
    · intro id hid
      rw [hother id (fun hmem => hid (List.mem_cons_of_mem _ hmem)), JsMap.get_set, if_neg]
      rintro rfl
      exact hid List.mem_cons_self
    · intro j id h
      cases j with
      | zero =>
        cases h
        rw [hother _ hfirst, JsMap.get_set, if_pos rfl]
        rfl
      | succ j =>
        rw [hset j id h, Nat.add_assoc, Nat.add_comm 1 j]

/-- What the walk below a node has gathered: its leaves, and their keys, while the keys of
all nodes outside are as before. -/
structure Gathered (s s' : TreeUpdate) (leaves : List (String × TabLayoutData))
    (inside : List String) : Prop where
  leafs : s'.leafs = s.leafs ++ leaves.map fun leaf => (leaf.1, some leaf.2)
  outside : ∀ id, id ∉ inside → s'.additionalProps.get id = s.additionalProps.get id

section Each

variable {balanceTree : Bool}

theorem replay_each {nodes : List LayoutNode}
    (hstep : ∀ node ∈ nodes, ∀ treeKey s, s.additionalProps.get node.id = some treeKey →
      ∃ s', replay updateTreeHelper (node.shown balanceTree) s = .ok s' ∧
        Gathered s s' node.leaves (node.walkIds balanceTree) ∧
        ∀ entry ∈ node.treeKeys balanceTree treeKey,
          s'.additionalProps.get entry.1 = some entry.2)
    (hnodup : (nodes.flatMap (LayoutNode.walkIds balanceTree)).Nodup) {keys : Nat → JsString}
    {s : TreeUpdate}
    (hkeys : ∀ (i : Nat) (node : LayoutNode), nodes[i]? = some node →
      s.additionalProps.get node.id = some (keys i)) :
    ∃ s', replay updateTreeHelper (nodes.flatMap (LayoutNode.shown balanceTree)) s = .ok s' ∧
      Gathered s s' (nodes.flatMap LayoutNode.leaves)
        (nodes.flatMap (LayoutNode.walkIds balanceTree)) ∧
      ∀ (i : Nat) (node : LayoutNode), nodes[i]? = some node →
        ∀ entry ∈ node.treeKeys balanceTree (keys i),
          s'.additionalProps.get entry.1 = some entry.2 := by
  induction nodes generalizing keys s with
  | nil =>
    refine ⟨s, rfl, ⟨?_, fun _ _ => rfl⟩, ?_⟩
    · exact (List.append_nil _).symm
    · intro i node h
      cases h
  | cons first rest ih =>
    rw [List.flatMap_cons, List.nodup_append] at hnodup
    obtain ⟨-, hrest, hdisjoint⟩ := hnodup
    obtain ⟨s₁, hok₁, hgathered₁, hset₁⟩ :=
      hstep first List.mem_cons_self (keys 0) s (hkeys 0 first rfl)
    have hkeys' : ∀ i node, rest[i]? = some node →
        s₁.additionalProps.get node.id = some (keys (i + 1)) := by
      intro i node h
      have hmem : node.id ∈ rest.flatMap (LayoutNode.walkIds balanceTree) :=
        List.mem_flatMap.mpr ⟨node, List.mem_of_getElem? h, node.id_mem_walkIds balanceTree⟩
      rw [hgathered₁.outside _ fun hfirst => hdisjoint _ hfirst _ hmem rfl]
      exact hkeys (i + 1) node h
    obtain ⟨s₂, hok₂, hgathered₂, hset₂⟩ :=
      ih (fun node hnode => hstep node (List.mem_cons_of_mem _ hnode)) hrest hkeys'
    refine ⟨s₂, ?_, ⟨?_, ?_⟩, ?_⟩
    · rw [List.flatMap_cons, replay_append, hok₁]
      exact hok₂
    · rw [hgathered₂.leafs, hgathered₁.leafs, List.flatMap_cons, List.map_append,
        List.append_assoc]
    · intro id hid
      rw [List.flatMap_cons, List.mem_append, not_or] at hid
      rw [hgathered₂.outside id hid.2, hgathered₁.outside id hid.1]
    · intro i node h entry hentry
      cases i with
      | zero =>
        cases h
        have hinside := LayoutNode.mem_walkIds_of_treeKeys hentry
        rw [hgathered₂.outside _ fun hmem => hdisjoint _ hinside _ hmem rfl]
        exact hset₁ entry hentry
      | succ i => exact hset₂ i node h entry hentry

theorem updateTreeHelper_group {id : String} {data : Option TabLayoutData}
    {ids : List String} (hne : ids ≠ []) (hnodup : (id :: ids).Nodup) (s : TreeUpdate) :
    ∃ props, updateTreeHelper ⟨id, data, some (ids.map some)⟩ s = .ok ⟨props, s.leafs⟩ ∧
      (∀ other, other ∉ id :: ids → props.get other = s.additionalProps.get other) ∧
      (∀ j child, ids[j]? = some child → props.get child =
        some ((s.additionalProps.get id).getD rootTreeKey ++ decimal j)) := by
  obtain ⟨hid, hids⟩ := List.nodup_cons.mp hnodup
  obtain ⟨props, hok, hother, hset⟩ := setTreeKeys_some
    ((s.additionalProps.get id).getD rootTreeKey) ids hids 0 s.additionalProps
  refine ⟨props.set id ((s.additionalProps.get id).getD rootTreeKey), ?_, ?_, ?_⟩
  · cases ids with
    | nil => exact absurd rfl hne
    | cons first rest =>
      show (setTreeKeys _ 0 ((first :: rest).map some) s.additionalProps >>= _) = _
      rw [hok]
      rfl
  · intro other hnot
    rw [List.mem_cons, not_or] at hnot
    rw [JsMap.get_set, if_neg hnot.1, hother other hnot.2]
  · intro j child h
    have hmem : child ∈ ids := List.mem_of_getElem? h
    have hne : child ≠ id := fun heq => hid (heq ▸ hmem)
    rw [JsMap.get_set, if_neg hne, hset j child h, Nat.zero_add]

/-- **The walk below a valid node gathers its leaves in reading order, with their keys.** -/
theorem replay_shown {node : LayoutNode} (hvalid : node.Valid)
    (hnodup : (node.walkIds balanceTree).Nodup) {treeKey : JsString} {s : TreeUpdate}
    (hkey : s.additionalProps.get node.id = some treeKey ∨
      node.isLeaf = false ∧ s.additionalProps.get node.id = none ∧ treeKey = rootTreeKey) :
    ∃ s', replay updateTreeHelper (node.shown balanceTree) s = .ok s' ∧
      Gathered s s' node.leaves (node.walkIds balanceTree) ∧
      ∀ entry ∈ node.treeKeys balanceTree treeKey,
        s'.additionalProps.get entry.1 = some entry.2 := by
  induction node using @LayoutNode.walked_induct balanceTree generalizing treeKey s with
  | step node ih =>
    cases node with
    | leaf id data flex size =>
      refine ⟨⟨s.additionalProps, s.leafs ++ [(id, some data)]⟩, ?_, ⟨rfl, fun _ _ => rfl⟩, ?_⟩
      · rw [LayoutNode.shown]
        rfl
      · intro entry hentry
        rw [LayoutNode.treeKeys] at hentry
        rw [List.mem_singleton.mp hentry]
        rcases hkey with hkey | ⟨hleaf, -⟩
        · exact hkey
        · cases hleaf
    | group id children flex size =>
      have hgetD : (s.additionalProps.get id).getD rootTreeKey = treeKey := by
        rcases hkey with hkey | ⟨-, hnone, rfl⟩
        · rw [show s.additionalProps.get id = some treeKey from hkey]
          rfl
        · rw [show s.additionalProps.get id = none from hnone]
          rfl
      rw [LayoutNode.walkIds_group] at hnodup
      obtain ⟨hid, hnodup'⟩ := List.nodup_cons.mp hnodup
      obtain ⟨props, hok, hother, hset⟩ := @updateTreeHelper_group id none
        ((LayoutNode.walked balanceTree (.group id children flex size)).map LayoutNode.id)
        (by
          rw [ne_eq, List.map_eq_nil_iff]
          exact hvalid.walked_ne_nil rfl balanceTree)
        (hnodup.sublist (List.Sublist.cons_cons _ (LayoutNode.sublist_map_id _))) s
      obtain ⟨s', hok', hgathered, hset'⟩ := @replay_each balanceTree
        (LayoutNode.walked balanceTree (.group id children flex size))
        (by
          intro node hnode treeKey s hkey
          exact ih node hnode (hvalid.walked hnode)
            (hnodup'.sublist (LayoutNode.sublist_flatMap_of_mem hnode)) (Or.inl hkey))
        hnodup' (fun i => treeKey ++ decimal i) ⟨props, s.leafs⟩
        (by
          intro i node h
          rw [← hgetD]
          exact hset i node.id (by rw [List.getElem?_map, h]; rfl))
      refine ⟨s', ?_, ⟨?_, ?_⟩, ?_⟩
      · rw [List.map_map] at hok
        rw [LayoutNode.shown_group, replay_cons]
        show (updateTreeHelper ⟨id, none, some ((LayoutNode.walked balanceTree
          (.group id children flex size)).map (some ∘ LayoutNode.id))⟩ s >>= _) = _
        rw [hok]
        exact hok'
      · rw [hgathered.leafs, LayoutNode.leaves_walked]
      · intro other hnot
        rw [LayoutNode.walkIds_group, List.mem_cons, not_or] at hnot
        rw [hgathered.outside other hnot.2]
        refine hother other ?_
        rw [List.mem_cons, not_or]
        exact ⟨hnot.1, fun hmem => hnot.2 ((LayoutNode.sublist_map_id _).subset hmem)⟩
      · intro entry hentry
        rw [LayoutNode.treeKeys] at hentry
        obtain ⟨i, -, hmem⟩ := List.mem_flatMap.mp hentry
        exact hset' i.val _ (List.getElem?_eq_getElem i.isLt) entry hmem

end Each

/-! ## The order of the leaves -/

/-- A tree of the layout: every node is valid, and no two nodes have the same id. -/
structure ValidTree (rootNode : LayoutNode) : Prop where
  valid : rootNode.Valid
  ids : rootNode.ids.Nodup

theorem mapM_leafOrderEntry (leaves : List (String × TabLayoutData)) :
    (leaves.map fun leaf => (leaf.1, some leaf.2)).mapM leafOrderEntry =
      .ok (leaves.map fun leaf => ⟨leaf.1, leaf.2.blockId⟩) := by
  induction leaves with
  | nil => rfl
  | cons leaf rest ih =>
    rw [List.map_cons, List.mapM_cons, ih]
    rfl

theorem walkNodes_eq {σ : Type} (before : Visit → σ → Except LayoutError σ)
    (node : LayoutNode) :
    ∀ s, walkNodes before node s = replay before (node.shown false) s := by
  induction node with
  | leaf id data flex size =>
    intro s
    rw [walkNodes, LayoutNode.shown, replay_cons]
    show _ = (before _ s >>= fun s => .ok s)
    cases before ⟨id, some data, none⟩ s <;> rfl
  | group id children flex size ih =>
    intro s
    have heach : ∀ (nodes : List LayoutNode) s, (∀ child ∈ nodes, child ∈ children) →
        walkEach before nodes s = replay before (nodes.flatMap (LayoutNode.shown false)) s := by
      intro nodes
      induction nodes with
      | nil =>
        intro s _
        rfl
      | cons child rest ihnodes =>
        intro s hmem
        rw [walkEach, List.flatMap_cons, replay_append, ih child (hmem child List.mem_cons_self)]
        cases replay before (child.shown false) s with
        | error e => rfl
        | ok s' => exact ihnodes s' fun other hother => hmem other (List.mem_cons_of_mem _ hother)
    rw [walkNodes, LayoutNode.shown_group, replay_cons]
    show (before _ s >>= _) =
      before ⟨id, none, some (children.map fun child => some child.id)⟩ s >>= _
    cases before ⟨id, none, some (children.map fun child => some child.id)⟩ s with
    | error e => rfl
    | ok s' => exact heach children s' fun _ hmem => hmem

theorem updateWalk_eq {rootNode : LayoutNode} (h : rootNode.Valid) (balanceTree : Bool) :
    updateWalk balanceTree rootNode =
      (replay updateTreeHelper (rootNode.shown balanceTree) ⟨.empty, []⟩).map fun s =>
        (if balanceTree then rootNode.balanced else rootNode, s) := by
  cases balanceTree with
  | false =>
    rw [updateWalk, if_neg (by decide), walkNodes_eq]
    rfl
  | true =>
    rw [updateWalk, if_pos rfl, balanceNodeWith, balanceWalk_eq h.walkable (Nat.le_refl _),
      LayoutNode.visits_eq_shown h]
    cases replay updateTreeHelper (rootNode.shown true) ⟨.empty, []⟩ <;> rfl

theorem mergeSort_eq_iff {props : JsMap String JsString} {keys : List (String × JsString)}
    {entries : List LeafOrderEntry} (hids : keys.map Prod.fst = entries.map LeafOrderEntry.nodeid)
    (hset : ∀ entry ∈ keys, props.get entry.1 = some entry.2) :
    entries.mergeSort (fun a b => inPlace (props.get a.nodeid) (props.get b.nodeid)) = entries ↔
      keys.Pairwise fun a b => Json.codeUnitsLE a.2 b.2 = true := by
  let withKey := fun entry : LeafOrderEntry => (entry.nodeid, (props.get entry.nodeid).getD [])
  have hmap : entries.map withKey = keys := by
    have hkeys : keys.map (fun entry => (entry.1, (props.get entry.1).getD [])) = keys := by
      refine (List.map_congr_left ?_).trans (List.map_id _)
      intro entry hentry
      rw [hset entry hentry]
      rfl
    rw [← hkeys]
    have h := congrArg (List.map fun id => (id, (props.get id).getD [])) hids
    rw [List.map_map, List.map_map] at h
    exact h.symm
  have hkeyed : ∀ entry ∈ entries, ∃ key, props.get entry.nodeid = some key := by
    intro entry hentry
    have hmem := List.mem_map_of_mem (f := LeafOrderEntry.nodeid) hentry
    rw [← hids] at hmem
    obtain ⟨pair, hpair, hfst⟩ := List.mem_map.mp hmem
    exact ⟨pair.2, hfst ▸ hset pair hpair⟩
  have hcompare : ∀ a ∈ entries, ∀ b ∈ entries,
      inPlace (props.get a.nodeid) (props.get b.nodeid) =
        Json.codeUnitsLE (withKey a).2 (withKey b).2 := by
    intro a ha b hb
    obtain ⟨keyA, hkeyA⟩ := hkeyed a ha
    obtain ⟨keyB, hkeyB⟩ := hkeyed b hb
    show _ = Json.codeUnitsLE ((props.get a.nodeid).getD []) ((props.get b.nodeid).getD [])
    rw [hkeyA, hkeyB]
    rfl
  constructor
  · intro h
    have hsorted := @List.map_mergeSort _ _
      (fun a b : LeafOrderEntry => inPlace (props.get a.nodeid) (props.get b.nodeid))
      (fun a b : String × JsString => Json.codeUnitsLE a.2 b.2) withKey entries hcompare
    rw [h, hmap] at hsorted
    rw [hsorted]
    refine List.pairwise_mergeSort ?_ ?_ keys
    · intro a b c
      exact Json.codeUnitsLE_trans
    · intro a b
      rw [Bool.or_eq_true]
      exact Json.codeUnitsLE_total a.2 b.2
  · intro h
    rw [← hmap, List.pairwise_map] at h
    refine List.mergeSort_of_pairwise (h.imp_of_mem ?_)
    intro a b ha hb hab
    rw [hcompare a ha b hb]
    exact hab

theorem narrow_of_isLeaf {balanceTree : Bool} {node : LayoutNode} (h : node.isLeaf = true) :
    node.Narrow balanceTree := by
  cases node with
  | leaf id data flex size =>
    refine .intro ?_ ?_
    · cases balanceTree <;> exact Nat.zero_le _
    · intro child hchild
      cases balanceTree <;> cases hchild
  | group id children flex size => cases h

theorem updateTree_of_replay {rootNode : LayoutNode} (h : rootNode.Valid)
    {balanceTree : Bool} {s : TreeUpdate}
    (hok : replay updateTreeHelper (rootNode.shown balanceTree) ⟨.empty, []⟩ = .ok s)
    (hleafs : s.leafs = rootNode.leaves.map fun leaf => (leaf.1, some leaf.2)) :
    updateTree balanceTree rootNode =
      .ok (if balanceTree then rootNode.balanced else rootNode,
        (readingOrder rootNode).mergeSort fun a b =>
          inPlace (s.additionalProps.get a.nodeid) (s.additionalProps.get b.nodeid)) := by
  rw [updateTree, updateWalk_eq h, hok]
  show (getLeafOrder s.leafs s.additionalProps >>= _) = _
  rw [getLeafOrder, hleafs, mapM_leafOrderEntry]
  rfl

theorem updateTree_eq {rootNode : LayoutNode} (h : ValidTree rootNode)
    (balanceTree : Bool) :
    ∃ rootNode' leafOrder, updateTree balanceTree rootNode = .ok (rootNode', leafOrder) ∧
      (leafOrder = readingOrder rootNode ↔ rootNode.Narrow balanceTree) := by
  cases hleaf : rootNode.isLeaf with
  | true =>
    cases rootNode with
    | group id children flex size => cases hleaf
    | leaf id data flex size =>
      have hok : replay updateTreeHelper (LayoutNode.shown balanceTree (.leaf id data flex size))
          ⟨.empty, []⟩ = .ok ⟨.empty, [(id, some data)]⟩ := by
        rw [LayoutNode.shown]
        rfl
      refine ⟨_, _, updateTree_of_replay h.valid hok rfl, fun _ => narrow_of_isLeaf rfl, ?_⟩
      intro _
      exact List.mergeSort_singleton _
  | false =>
    have hnodup : (rootNode.walkIds balanceTree).Nodup :=
      h.ids.sublist (LayoutNode.sublist_walkIds balanceTree rootNode)
    obtain ⟨s, hok, hgathered, hset⟩ := @replay_shown balanceTree rootNode h.valid hnodup
      rootTreeKey ⟨.empty, []⟩ (Or.inr ⟨hleaf, rfl, rfl⟩)
    refine ⟨_, _, updateTree_of_replay h.valid hok hgathered.leafs, ?_⟩
    rw [mergeSort_eq_iff ?_ hset]
    · exact LayoutNode.pairwise_treeKeys_iff h.valid rootTreeKey
    · rw [LayoutNode.treeKeys_ids, readingOrder, List.map_map]
      rfl

/-- **The leaf order is the reading order exactly if no group has an eleventh child.** -/
theorem leafOrder_iff_narrow
    {rootNode : LayoutNode} (h : ValidTree rootNode) (balanceTree : Bool) :
    (∃ rootNode', updateTree balanceTree rootNode = .ok (rootNode', readingOrder rootNode)) ↔
      rootNode.Narrow balanceTree := by
  obtain ⟨rootNode', leafOrder, hok, hiff⟩ := updateTree_eq h balanceTree
  rw [← hiff, hok]
  constructor
  · intro h
    obtain ⟨other, hother⟩ := h
    cases hother
    rfl
  · intro h
    exact ⟨rootNode', by rw [h]⟩

/-- A row with a leaf for each of the names. -/
def rowOf (names : List String) : LayoutNode :=
  .group "root" (names.map fun name => .leaf name ⟨name⟩ .column 10) .row 10

theorem validTree_rowOf {names : List String} (hne : names ≠ [])
    (hnodup : ("root" :: names).Nodup) :
    ValidTree (rowOf names) := by
  refine ⟨.group ?_ ?_, ?_⟩
  · cases names with
    | nil => exact absurd rfl hne
    | cons name rest => rfl
  · intro child hchild
    obtain ⟨name, -, rfl⟩ := List.mem_map.mp hchild
    exact .leaf _ _ _ _
  · have hids : (rowOf names).ids = "root" :: names := by
      rw [rowOf, LayoutNode.ids, LayoutNode.idsAll_eq, List.flatMap_map]
      exact congrArg _ (List.flatMap_singleton' names)
    rw [hids]
    exact hnodup

/-- Two leaves in a row. -/
theorem rowOf_two_leafOrder :
    (∃ rootNode', updateTree true (rowOf ["a", "b"]) =
      .ok (rootNode', readingOrder (rowOf ["a", "b"]))) ↔
      (rowOf ["a", "b"]).Narrow true :=
  leafOrder_iff_narrow (validTree_rowOf (by decide) (by decide)) true

/-- Eleven leaves in a row are not in order. -/
theorem rowOf_eleven_leafOrder :
    ¬ ∀ rootNode balanceTree, ValidTree rootNode →
      ∃ rootNode', updateTree balanceTree rootNode = .ok (rootNode', readingOrder rootNode) := by
  intro h
  have hvalid : ValidTree (rowOf ["a", "b", "c", "d", "e", "f", "g", "h", "i", "j", "k"]) :=
    validTree_rowOf (by decide) (by decide)
  obtain ⟨rootNode', hok⟩ := h _ false hvalid
  obtain ⟨_, leafOrder, hother, hiff⟩ := updateTree_eq hvalid false
  rw [hok] at hother
  cases hother
  cases hiff.mp rfl with
  | intro hwidth hbelow => exact absurd hwidth (by decide)

end Layout
