import Crest.Layout
import Mathlib.Data.List.Basic

/-!
# What balancing a layout tree leaves

`balanced` is what the walk of `balanceNode` makes of a tree, without fuel, callback and
errors: a group is replaced by what its kept children become.  `visits` is what the
callback sees on the way, and `Walkable` says that no group without children is come to.

The walk looks one level down when it hoists, and never again at what it has hoisted.  So
a chain of groups with single children comes out shorter, but not always short enough, and
a hoisted group may be empty or have the direction of its new parent.  `Settles` says for
which trees none of this happens.
-/

namespace Layout

namespace LayoutNode

/-- The children of a node after hoisting, without those that are `undefined`. -/
def kept (node : LayoutNode) : List LayoutNode :=
  (node.children.flatMap (hoist node.flexDirection)).filterMap fun child => child

variable {node : LayoutNode}

theorem mem_hoist {flex : FlexDirection} {child : LayoutNode}
    (h : some node ∈ hoist flex child) :
    node = turned flex child ∨
      ∃ grandchild ∈ child.children, node ∈ grandchild.children := by
  have hchildren : (turned flex child).children = child.children := by
    rw [turned]
    split
    · exact children_setFlexDirection _ _
    · rfl
  rw [hoist] at h
  split at h
  · rename_i id grandchildren flex' size _ _ heq
    rw [heq] at hchildren
    obtain ⟨kid, hkid, hsome⟩ := List.mem_map.mp h
    cases hsome
    refine Or.inr ⟨.group id grandchildren flex' size, ?_, hkid⟩
    rw [← hchildren]
    exact List.mem_singleton_self _
  · cases List.mem_singleton.mp h
  · cases List.mem_singleton.mp h
    exact Or.inl rfl

theorem count_turned (flex : FlexDirection) (child : LayoutNode) :
    (turned flex child).count = child.count := by
  rw [turned]
  split
  · exact count_setFlexDirection _ _
  · rfl

theorem count_child {child : LayoutNode} (h : child ∈ node.children) :
    child.count < node.count := by
  cases node with
  | leaf id data flex size => cases h
  | group id children flex size =>
    have hle : child.count ≤ countAll children := count_le_countAll h
    rw [count]
    omega

theorem count_kept {child : LayoutNode} (h : child ∈ node.kept) :
    child.count < node.count := by
  obtain ⟨entry, hentry, rfl⟩ := List.mem_filterMap.mp h
  obtain ⟨original, horiginal, hhoist⟩ := List.mem_flatMap.mp hentry
  have hle := count_child horiginal
  rcases mem_hoist hhoist with rfl | ⟨grandchild, hgrandchild, hchild⟩
  · rw [count_turned]
    exact hle
  · have hmiddle := count_child hgrandchild
    have hlast := count_child hchild
    omega

/-- Induction along the walk: a node is reached from all of its kept children. -/
theorem kept_induct {motive : LayoutNode → Prop}
    (step : ∀ node, (∀ child ∈ node.kept, motive child) → motive node) (node : LayoutNode) :
    motive node :=
  step node fun child _ => kept_induct step child
termination_by node.count
decreasing_by exact count_kept (by assumption)

/-- What the balancing walk makes of a tree. -/
def balanced : LayoutNode → LayoutNode
  | .leaf id data flex size => .leaf id data flex size
  | .group id children flex size =>
    collapse id flex size
      ((kept (.group id children flex size)).attach.map fun child => balanced child.1)
termination_by node => node.count
decreasing_by exact count_kept child.2

theorem balanced_leaf
    (id : String) (data : TabLayoutData) (flex : FlexDirection) (size : Rat) :
    balanced (.leaf id data flex size) = .leaf id data flex size := by
  rw [balanced]

theorem balanced_group
    (id : String) (children : List LayoutNode) (flex : FlexDirection) (size : Rat) :
    balanced (.group id children flex size) =
      collapse id flex size ((kept (.group id children flex size)).map balanced) := by
  rw [balanced, List.attach_map_val]

/-- What the callback of the balancing walk sees, in this order. -/
def visits : LayoutNode → List Visit
  | .leaf id data _ _ => [⟨id, some data, none⟩]
  | .group id children flex size =>
    ⟨id, none, some ((children.flatMap (hoist flex)).map fun child => child.map LayoutNode.id)⟩
      :: (kept (.group id children flex size)).attach.flatMap fun child => visits child.1
termination_by node => node.count
decreasing_by exact count_kept child.2

theorem visits_group
    (id : String) (children : List LayoutNode) (flex : FlexDirection) (size : Rat) :
    visits (.group id children flex size) =
      ⟨id, none, some ((children.flatMap (hoist flex)).map fun child => child.map LayoutNode.id)⟩
        :: (kept (.group id children flex size)).flatMap visits := by
  have hbelow : ∀ nodes : List LayoutNode,
      (nodes.attach.flatMap fun child => visits child.1) = nodes.flatMap visits := by
    intro nodes
    rw [List.flatMap_def, List.flatMap_def, List.attach_map_val]
  rw [visits, hbelow]

/-- The walk comes to no group without children. -/
inductive Walkable : LayoutNode → Prop
  | intro {node : LayoutNode} (hvalid : validateNode node = true)
      (hbelow : ∀ child ∈ node.kept, Walkable child) : Walkable node

/-- Single kept children lead from the node down to a leaf. -/
inductive Shrinks : LayoutNode → Prop
  | leaf (id : String) (data : TabLayoutData) (flex : FlexDirection) (size : Rat) :
      Shrinks (.leaf id data flex size)
  | group {node child : LayoutNode} (honly : node.kept = [child]) (hchild : Shrinks child) :
      Shrinks node

/-- Every group that the walk comes to keeps a child, and its kept children have the other
direction; where a group below keeps a single child, this leads down to a leaf. -/
inductive Settles : LayoutNode → Prop
  | shrinks {node : LayoutNode} (h : node.Shrinks) : Settles node
  | group {node : LayoutNode}
      (hkept : node.kept ≠ [])
      (hturned : ∀ child ∈ node.kept, child.flexDirection ≠ node.flexDirection)
      (hsingle : ∀ child ∈ node.kept, child.kept.length = 1 → child.Shrinks)
      (hbelow : ∀ child ∈ node.kept, Settles child) :
      Settles node

/-- The normal form of a tree.  No group has an empty array of children, or a leaf as its
only child; no group below the root has a single child; and the children of a group have
the other direction. -/
inductive Normal : LayoutNode → Prop
  | leaf (id : String) (data : TabLayoutData) (flex : FlexDirection) (size : Rat) :
      Normal (.leaf id data flex size)
  | group {id : String} {children : List LayoutNode} {flex : FlexDirection} {size : Rat}
      (hnonempty : children ≠ [])
      (honly : ∀ child, children = [child] → child.isLeaf = false)
      (hsingle : ∀ child ∈ children, child.children.length ≠ 1)
      (hturned : ∀ child ∈ children, child.flexDirection ≠ flex)
      (hbelow : ∀ child ∈ children, Normal child) :
      Normal (.group id children flex size)

end LayoutNode

/-! ## The walk -/

section Walk

variable {σ : Type} {before : Visit → σ → Except LayoutError σ}

/-- Shows the visits to the callback, one after the other. -/
def replay (before : Visit → σ → Except LayoutError σ) (visits : List Visit) (s : σ) :
    Except LayoutError σ :=
  visits.foldlM (fun s visit => before visit s) s

theorem replay_append (first second : List Visit) (s : σ) :
    replay before (first ++ second) s = replay before first s >>= replay before second := by
  rw [replay, List.foldlM_append]
  rfl

theorem replay_cons (visit : Visit) (rest : List Visit) (s : σ) :
    replay before (visit :: rest) s = before visit s >>= replay before rest := by
  rw [replay, List.foldlM_cons]
  rfl

theorem forEach_eq {walk : LayoutNode → σ → Except LayoutError (LayoutNode × σ)}
    {children : List (Option LayoutNode)}
    (h : ∀ child, some child ∈ children → ∀ s, walk child s =
      replay before child.visits s >>= fun s => .ok (child.balanced, s))
    (s : σ) :
    forEach walk children s =
      replay before ((children.filterMap fun child => child).flatMap LayoutNode.visits) s >>=
        fun s => .ok ((children.filterMap fun child => child).map LayoutNode.balanced, s) := by
  induction children generalizing s with
  | nil => rfl
  | cons child rest ih =>
    have hrest := ih fun other hother => h other (List.mem_cons_of_mem _ hother)
    cases child with
    | none => exact hrest s
    | some child =>
      have hsome : (some child :: rest).filterMap (fun child => child) =
          child :: rest.filterMap fun child => child := rfl
      rw [forEach, h child List.mem_cons_self, hsome, List.flatMap_cons, List.map_cons,
        replay_append]
      cases hwalk : replay before child.visits s with
      | error e => rfl
      | ok s' =>
        show (forEach walk rest s' >>= fun result =>
          .ok (child.balanced :: result.1, result.2)) = _
        rw [hrest s']
        show _ = (replay before ((rest.filterMap fun child => child).flatMap
          LayoutNode.visits) s' >>= _)
        cases replay before ((rest.filterMap fun child => child).flatMap
          LayoutNode.visits) s' <;> rfl

theorem balanceWalk_group (fuel : Nat) {id : String} {children : List LayoutNode}
    {flex : FlexDirection} {size : Rat}
    (hvalid : validateNode (.group id children flex size) = true) (s : σ) :
    balanceWalk before (fuel + 1) (.group id children flex size) s =
      (before ⟨id, none, some ((children.flatMap (hoist flex)).map
        fun child => child.map LayoutNode.id)⟩ s >>=
          forEach (balanceWalk before fuel) (children.flatMap (hoist flex))) >>=
        fun walked => .ok (collapse id flex size walked.1, walked.2) := by
  rw [balanceWalk, hvalid]
  show (before _ s >>= _) = (before _ s >>= _) >>= _
  cases before ⟨id, none, some ((children.flatMap (hoist flex)).map
    fun child => child.map LayoutNode.id)⟩ s <;> rfl

theorem balanceWalk_eq {node : LayoutNode} (h : node.Walkable) {fuel : Nat}
    (hfuel : node.count ≤ fuel) (s : σ) :
    balanceWalk before fuel node s =
      replay before node.visits s >>= fun s => .ok (node.balanced, s) := by
  induction h generalizing fuel s with
  | @intro node hvalid hbelow ih =>
    have hpos := node.count_pos
    obtain ⟨fuel, rfl⟩ : ∃ n, fuel = n + 1 := ⟨fuel - 1, by omega⟩
    cases node with
    | leaf id data flex size =>
      rw [balanceWalk, LayoutNode.visits, LayoutNode.balanced_leaf, replay_cons]
      cases before ⟨id, some data, none⟩ s <;> rfl
    | group id children flex size =>
      rw [balanceWalk_group fuel hvalid, LayoutNode.visits_group, LayoutNode.balanced_group,
        replay_cons]
      cases before ⟨id, none, some ((children.flatMap (hoist flex)).map
        fun child => child.map LayoutNode.id)⟩ s with
      | error e => rfl
      | ok s' =>
        have hchildren := @forEach_eq σ before (balanceWalk before fuel)
          (children.flatMap (hoist flex))
          (by
            intro child hchild s
            have hkept : child ∈ LayoutNode.kept (.group id children flex size) :=
              List.mem_filterMap.mpr ⟨some child, hchild, rfl⟩
            have hcount := LayoutNode.count_kept hkept
            exact ih child hkept (by omega) s)
          s'
        show forEach (balanceWalk before fuel) (children.flatMap (hoist flex)) s' >>= _ = _
        rw [hchildren]
        show (replay before ((LayoutNode.kept (.group id children flex size)).flatMap
          LayoutNode.visits) s' >>= _) >>= _ = replay before _ s' >>= _
        cases replay before ((LayoutNode.kept (.group id children flex size)).flatMap
          LayoutNode.visits) s' <;> rfl

theorem bind_ok {α β : Type} {x : Except LayoutError α} {f : α → Except LayoutError β}
    {b : β} (h : x >>= f = .ok b) :
    ∃ a, x = .ok a ∧ f a = .ok b := by
  cases x with
  | error e => cases h
  | ok a => exact ⟨a, rfl, h⟩

theorem forEach_ok {walk : LayoutNode → σ → Except LayoutError (LayoutNode × σ)}
    {children : List (Option LayoutNode)} {s : σ} {result : List LayoutNode × σ}
    (h : forEach walk children s = .ok result) {child : LayoutNode}
    (hchild : some child ∈ children) :
    ∃ s result, walk child s = .ok result := by
  induction children generalizing s result with
  | nil => cases hchild
  | cons entry rest ih =>
    cases entry with
    | none =>
      rcases List.mem_cons.mp hchild with heq | hmem
      · cases heq
      · exact ih h hmem
    | some first =>
      obtain ⟨walked, hwalk, hrest⟩ := bind_ok h
      rcases List.mem_cons.mp hchild with heq | hmem
      · cases heq
        exact ⟨s, walked, hwalk⟩
      · obtain ⟨others, hothers, -⟩ := bind_ok hrest
        exact ih hothers hmem

theorem walkable_of_ok {fuel : Nat} {node : LayoutNode} (hfuel : node.count ≤ fuel) {s : σ}
    {result : LayoutNode × σ} (h : balanceWalk before fuel node s = .ok result) :
    node.Walkable := by
  induction fuel generalizing node s result with
  | zero =>
    have := node.count_pos
    omega
  | succ fuel ih =>
    cases node with
    | leaf id data flex size =>
      refine .intro rfl ?_
      intro child hchild
      cases hchild
    | group id children flex size =>
      cases hvalid : validateNode (.group id children flex size) with
      | false =>
        rw [balanceWalk, hvalid, if_pos rfl] at h
        cases h
      | true =>
        rw [balanceWalk_group fuel hvalid] at h
        refine .intro hvalid ?_
        intro child hchild
        have hcount := LayoutNode.count_kept hchild
        obtain ⟨entry, hentry, rfl⟩ := List.mem_filterMap.mp hchild
        cases hloop : before ⟨id, none, some ((children.flatMap (hoist flex)).map
            fun child => child.map LayoutNode.id)⟩ s >>=
              forEach (balanceWalk before fuel) (children.flatMap (hoist flex)) with
        | error e =>
          rw [hloop] at h
          cases h
        | ok walked =>
          obtain ⟨s', -, hloop'⟩ := bind_ok hloop
          obtain ⟨s'', walkedChild, hwalked⟩ := forEach_ok hloop' hentry
          exact ih (by omega) hwalked

theorem replay_silent (visits : List Visit) (s : σ) :
    replay (fun _ => .ok) visits s = .ok s := by
  induction visits with
  | nil => rfl
  | cons visit rest ih =>
    rw [replay_cons]
    exact ih

end Walk

theorem balanceNode_ok_iff {node result : LayoutNode} :
    balanceNode node = .ok result ↔ node.Walkable ∧ result = node.balanced := by
  constructor
  · intro h
    rw [balanceNode, balanceNodeWith] at h
    cases hwalk : balanceWalk (fun _ => .ok) node.count node () with
    | error e =>
      rw [hwalk] at h
      cases h
    | ok walked =>
      rw [hwalk] at h
      have hwalkable := walkable_of_ok (Nat.le_refl _) hwalk
      refine ⟨hwalkable, ?_⟩
      rw [balanceWalk_eq hwalkable (Nat.le_refl _), replay_silent] at hwalk
      rw [← hwalk] at h
      cases h
      rfl
  · intro h
    obtain ⟨hwalkable, rfl⟩ := h
    rw [balanceNode, balanceNodeWith, balanceWalk_eq hwalkable (Nat.le_refl _), replay_silent]
    rfl

/-! ## The leaves -/

namespace LayoutNode

theorem leaves_turned (flex : FlexDirection) (child : LayoutNode) :
    (turned flex child).leaves = child.leaves := by
  rw [turned]
  split
  · exact leaves_setFlexDirection _ _
  · rfl

theorem leaves_hoist (flex : FlexDirection) (child : LayoutNode) :
    ((hoist flex child).filterMap fun child => child).flatMap leaves = child.leaves := by
  rw [← leaves_turned flex child, hoist]
  split
  · rename_i grandchildren _ _ heq
    rw [heq, leaves, leavesAll, leaves, leavesAll, List.append_nil, leavesAll_eq,
      List.filterMap_map]
    exact congrArg _ List.filterMap_some
  · rename_i heq
    rw [heq]
    rfl
  · exact List.append_nil _

theorem leaves_kept
    (id : String) (children : List LayoutNode) (flex : FlexDirection) (size : Rat) :
    (kept (.group id children flex size)).flatMap leaves = leavesAll children := by
  show ((children.flatMap (hoist flex)).filterMap fun child => child).flatMap leaves = _
  induction children with
  | nil => rfl
  | cons child rest ih =>
    rw [List.flatMap_cons, List.filterMap_append, List.flatMap_append, ih, leaves_hoist,
      leavesAll]

theorem leaves_collapse
    (id : String) (flex : FlexDirection) (size : Rat) (children : List LayoutNode) :
    (collapse id flex size children).leaves = children.flatMap leaves := by
  rw [collapse.eq_def]
  split
  · rfl
  · rw [leaves, leavesAll_eq]

theorem leaves_balanced (node : LayoutNode) : node.balanced.leaves = node.leaves := by
  induction node using kept_induct with
  | step node ih =>
    cases node with
    | leaf id data flex size => rw [balanced_leaf]
    | group id children flex size =>
      rw [balanced_group, leaves_collapse, List.flatMap_map, leaves,
        ← leaves_kept id children flex size]
      exact List.flatMap_congr ih

/-! ## The shape of the result -/

theorem flexDirection_collapse
    (id : String) (flex : FlexDirection) (size : Rat) (children : List LayoutNode) :
    (collapse id flex size children).flexDirection = flex := by
  rw [collapse.eq_def]
  split <;> rfl

theorem flexDirection_balanced (node : LayoutNode) :
    node.balanced.flexDirection = node.flexDirection := by
  cases node with
  | leaf id data flex size => rw [balanced_leaf]
  | group id children flex size =>
    rw [balanced_group]
    exact flexDirection_collapse _ _ _ _

theorem collapse_cases
    (id : String) (flex : FlexDirection) (size : Rat) (children : List LayoutNode) :
    (∃ child, children = [child] ∧ child.isLeaf = true ∧
      (collapse id flex size children).isLeaf = true) ∨
    ((∀ child, children = [child] → child.isLeaf = false) ∧
      collapse id flex size children = .group id children flex size) := by
  rw [collapse.eq_def]
  split
  · exact Or.inl ⟨_, rfl, rfl, rfl⟩
  · rename_i hother
    refine Or.inr ⟨?_, rfl⟩
    intro child honly
    cases child with
    | leaf id data flex size => exact absurd honly (hother id data flex size)
    | group id children flex size => rfl

theorem isLeaf_balanced_iff (node : LayoutNode) :
    node.balanced.isLeaf = true ↔ node.Shrinks := by
  induction node using kept_induct with
  | step node ih =>
    cases node with
    | leaf id data flex size =>
      rw [balanced_leaf]
      exact ⟨fun _ => .leaf id data flex size, fun _ => rfl⟩
    | group id children flex size =>
      rw [balanced_group]
      constructor
      · intro hleaf
        rcases collapse_cases id flex size
          ((kept (.group id children flex size)).map balanced) with
          ⟨result, honly, hresult, -⟩ | ⟨-, hgroup⟩
        · obtain ⟨child, hchild, rfl⟩ := List.map_eq_singleton_iff.mp honly
          have hmem : child ∈ kept (.group id children flex size) := by
            rw [hchild]
            exact List.mem_singleton_self _
          exact .group hchild ((ih child hmem).mp hresult)
        · rw [hgroup] at hleaf
          cases hleaf
      · intro hshrinks
        cases hshrinks with
        | @group _ child honly hchild =>
          have hmem : child ∈ kept (.group id children flex size) := by
            rw [honly]
            exact List.mem_singleton_self _
          have hleaf := (ih child hmem).mpr hchild
          rw [honly, List.map_singleton]
          rcases collapse_cases id flex size [child.balanced] with
            ⟨_, _, _, hresult⟩ | ⟨hno, -⟩
          · exact hresult
          · rw [hno _ rfl] at hleaf
            cases hleaf

theorem balanced_eq_group {id : String} {children : List LayoutNode} {flex : FlexDirection}
    {size : Rat} (h : ¬ Shrinks (.group id children flex size)) :
    balanced (.group id children flex size) =
      .group id ((kept (.group id children flex size)).map balanced) flex size := by
  rw [← isLeaf_balanced_iff, balanced_group] at h
  rw [balanced_group]
  rcases collapse_cases id flex size
    ((kept (.group id children flex size)).map balanced) with ⟨_, _, _, hleaf⟩ | ⟨-, hgroup⟩
  · exact absurd hleaf h
  · exact hgroup

variable {node : LayoutNode}

theorem children_of_isLeaf (h : node.isLeaf = true) :
    node.children = [] := by
  cases node with
  | leaf id data flex size => rfl
  | group id children flex size => cases h

theorem length_children_balanced (node : LayoutNode) :
    node.balanced.children.length = 1 ↔ node.kept.length = 1 ∧ ¬ node.Shrinks := by
  by_cases hshrinks : node.Shrinks
  · rw [children_of_isLeaf ((isLeaf_balanced_iff node).mpr hshrinks)]
    simp [hshrinks]
  · cases node with
    | leaf id data flex size => exact absurd (.leaf id data flex size) hshrinks
    | group id children flex size =>
      rw [balanced_eq_group hshrinks]
      show (List.map balanced _).length = 1 ↔ _
      rw [List.length_map]
      simp [hshrinks]

theorem validateNode_of_kept (h : node.kept ≠ []) :
    validateNode node = true := by
  cases node with
  | leaf id data flex size => rfl
  | group id children flex size =>
    cases children with
    | nil => exact absurd rfl h
    | cons child rest => rfl

theorem normal_of_isLeaf (h : node.isLeaf = true) :
    node.Normal := by
  cases node with
  | leaf id data flex size => exact .leaf id data flex size
  | group id children flex size => cases h

theorem Shrinks.walkable (h : node.Shrinks) :
    node.Walkable := by
  induction h with
  | leaf id data flex size =>
    refine .intro rfl ?_
    intro child hchild
    cases hchild
  | @group node child honly hchild ih =>
    refine .intro ?_ ?_
    · exact validateNode_of_kept (by rw [honly]; exact List.cons_ne_nil _ _)
    · intro other hother
      rw [honly] at hother
      rw [List.mem_singleton.mp hother]
      exact ih

/-- **What settles is balanced into the normal form.** -/
theorem Settles.normal (h : node.Settles) :
    node.Walkable ∧ node.balanced.Normal := by
  induction h with
  | shrinks h =>
    refine ⟨h.walkable, ?_⟩
    exact normal_of_isLeaf ((isLeaf_balanced_iff _).mpr h)
  | @group node hkept hturned hsingle hbelow ih =>
    refine ⟨.intro (validateNode_of_kept hkept) fun child hchild => (ih child hchild).1, ?_⟩
    by_cases hshrinks : node.Shrinks
    · exact normal_of_isLeaf ((isLeaf_balanced_iff _).mpr hshrinks)
    · cases node with
      | leaf id data flex size => exact absurd (.leaf id data flex size) hshrinks
      | group id children flex size =>
        rw [balanced_eq_group hshrinks]
        refine .group ?_ ?_ ?_ ?_ ?_
        · simpa using hkept
        · intro result honly
          obtain ⟨child, hchild, rfl⟩ := List.map_eq_singleton_iff.mp honly
          cases hleaf : child.balanced.isLeaf with
          | false => rfl
          | true =>
            exact absurd (.group hchild ((isLeaf_balanced_iff child).mp hleaf)) hshrinks
        · intro result hresult
          obtain ⟨child, hchild, rfl⟩ := List.mem_map.mp hresult
          intro hone
          obtain ⟨hlength, hnot⟩ := (length_children_balanced child).mp hone
          exact hnot (hsingle child hchild hlength)
        · intro result hresult
          obtain ⟨child, hchild, rfl⟩ := List.mem_map.mp hresult
          rw [flexDirection_balanced]
          exact hturned child hchild
        · intro result hresult
          obtain ⟨child, hchild, rfl⟩ := List.mem_map.mp hresult
          exact (ih child hchild).2

/-- **Only what settles is balanced into the normal form.** -/
theorem settles_of_normal (hnormal : node.balanced.Normal) :
    node.Settles := by
  induction node using kept_induct with
  | step node ih =>
    by_cases hshrinks : node.Shrinks
    · exact .shrinks hshrinks
    · cases node with
      | leaf id data flex size => exact absurd (.leaf id data flex size) hshrinks
      | group id children flex size =>
        rw [balanced_eq_group hshrinks] at hnormal
        cases hnormal with
        | group hnonempty honly hsingle hturned hbelow =>
          refine .group ?_ ?_ ?_ ?_
          · simpa using hnonempty
          · intro child hchild
            rw [← flexDirection_balanced child]
            exact hturned _ (List.mem_map_of_mem hchild)
          · intro child hchild hlength
            refine Classical.byContradiction fun hnot => ?_
            exact hsingle _ (List.mem_map_of_mem hchild)
              ((length_children_balanced child).mpr ⟨hlength, hnot⟩)
          · intro child hchild
            exact ih child hchild (hbelow _ (List.mem_map_of_mem hchild))

/-! ## Balancing again -/

theorem hoist_eq {flex : FlexDirection} {child : LayoutNode}
    (hturned : child.flexDirection ≠ flex) (hvalid : validateNode child = true)
    (hsingle : child.children.length ≠ 1) :
    hoist flex child = [some child] := by
  rw [hoist, turned, if_neg hturned]
  split
  · exact absurd rfl hsingle
  · cases hvalid
  · rfl

theorem Normal.validateNode (h : node.Normal) :
    validateNode node = true := by
  cases h with
  | leaf id data flex size => rfl
  | group hnonempty honly hsingle hturned hbelow =>
    rw [Layout.validateNode]
    simpa using hnonempty

theorem Normal.kept_eq (h : node.Normal) :
    node.kept = node.children := by
  cases h with
  | leaf id data flex size => rfl
  | @group id children flex size hnonempty honly hsingle hturned hbelow =>
    show (children.flatMap (hoist flex)).filterMap (fun child => child) = children
    have hall : ∀ child ∈ children, hoist flex child = [some child] := by
      intro child hchild
      exact hoist_eq (hturned child hchild) (hbelow child hchild).validateNode
        (hsingle child hchild)
    rw [List.flatMap_congr hall, ← List.map_eq_flatMap, List.filterMap_map]
    exact List.filterMap_some

/-- **Balancing the normal form changes nothing.** -/
theorem Normal.balanced_eq (h : node.Normal) :
    node.Walkable ∧ node.balanced = node := by
  induction h with
  | leaf id data flex size =>
    exact ⟨(Shrinks.leaf id data flex size).walkable, balanced_leaf id data flex size⟩
  | @group id children flex size hnonempty honly hsingle hturned hbelow ih =>
    have hnormal : Normal (.group id children flex size) :=
      .group hnonempty honly hsingle hturned hbelow
    have hkept := hnormal.kept_eq
    refine ⟨.intro hnormal.validateNode ?_, ?_⟩
    · intro child hchild
      rw [hkept] at hchild
      exact (ih child hchild).1
    · have hmap : children.map balanced = children :=
        (List.map_congr_left fun child hchild => (ih child hchild).2).trans (List.map_id' _)
      rw [balanced_group, hkept]
      show collapse id flex size (children.map balanced) = _
      rw [hmap]
      rcases collapse_cases id flex size children with ⟨child, hchild, hleaf, -⟩ | ⟨-, hgroup⟩
      · rw [honly child hchild] at hleaf
        cases hleaf
      · exact hgroup

end LayoutNode

/-! ## When balancing reaches the normal form -/

/-- What balancing a tree is for: it comes back with the normal form of the tree, with the
same leaves in the same order, and balancing that changes nothing. -/
def BalancesWell (rootNode : LayoutNode) : Prop :=
  ∃ result, balanceNode rootNode = .ok result ∧ result.leaves = rootNode.leaves ∧
    result.Normal ∧ balanceNode result = .ok result

/-- **Balancing reaches the normal form exactly for the trees that settle.** -/
theorem balancesWell_iff_settles (rootNode : LayoutNode) :
    BalancesWell rootNode ↔ rootNode.Settles := by
  constructor
  · intro h
    obtain ⟨result, hok, -, hnormal, -⟩ := h
    obtain ⟨-, rfl⟩ := balanceNode_ok_iff.mp hok
    exact LayoutNode.settles_of_normal hnormal
  · intro h
    obtain ⟨hwalkable, hnormal⟩ := h.normal
    obtain ⟨hagain, hsame⟩ := hnormal.balanced_eq
    exact ⟨rootNode.balanced, balanceNode_ok_iff.mpr ⟨hwalkable, rfl⟩,
      rootNode.leaves_balanced, hnormal, balanceNode_ok_iff.mpr ⟨hagain, hsame.symm⟩⟩

/-- A tree of single children whose directions alternate, four groups deep below the root. -/
def tower : LayoutNode :=
  .group "root"
    [.group "a"
      [.group "b"
        [.group "c"
          [.group "d"
            [.leaf "x" ⟨"block-x"⟩ .column 10, .leaf "y" ⟨"block-y"⟩ .column 10] .row 10]
          .column 10]
        .row 10]
      .column 10]
    .row 10

/-- The walk hoists `c` to the root and leaves it with its single child. -/
theorem tower_not_balancesWell :
    ¬ ∀ rootNode, validateNode rootNode = true → BalancesWell rootNode := by
  intro h
  obtain ⟨result, hok, -, hnormal, -⟩ := h tower rfl
  have hresult : balanceNode tower = .ok (.group "root"
      [.group "c"
        [.group "d"
          [.leaf "x" ⟨"block-x"⟩ .column 10, .leaf "y" ⟨"block-y"⟩ .column 10] .row 10]
        .column 10]
      .row 10) := rfl
  rw [hresult] at hok
  cases hok
  cases hnormal with
  | group hnonempty honly hsingle hturned hbelow =>
    exact hsingle _ (List.mem_singleton_self _) rfl

end Layout
