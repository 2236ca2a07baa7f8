import Crest.LayoutOrder

/-!
# Where a block is inserted

A block is inserted where an array of indexes leads, or at the first place that has room.  The
array is followed from the root on, and an index that is too large means the last child.  A
negative index ought to count from the end; but its magnitude is added to the number of the
children, and leads out of the tree.

The places that have room are ranked by a power of their depth.  A place that is deeper but has
fewer children may then rank before one that is not as deep.
-/

namespace Layout

section FirstLeast

variable {α P : Type*} [LinearOrder P] {key : α → P} {items : List α} {a b : α}

/-- `a` has the least key in a list, and stands before the others that have it. -/
def FirstLeast (key : α → P) (items : List α) (a : α) : Prop :=
  ∃ before after, items = before ++ a :: after ∧ (∀ b ∈ before, key a < key b) ∧
    ∀ b ∈ after, key a ≤ key b

section

variable (h : FirstLeast key items a)
include h

theorem FirstLeast.mem : a ∈ items := by
  obtain ⟨before, after, rfl, -, -⟩ := h
  exact List.mem_append_right before List.mem_cons_self

theorem FirstLeast.le (hb : b ∈ items) : key a ≤ key b := by
  obtain ⟨before, after, rfl, hbefore, hafter⟩ := h
  rcases List.mem_append.mp hb with hb | hb
  · exact (hbefore b hb).le
  · rcases List.mem_cons.mp hb with rfl | hb
    · exact le_refl _
    · exact hafter b hb

theorem FirstLeast.append_left {others : List α}
    (hothers : ∀ b ∈ others, key a ≤ key b) : FirstLeast key (items ++ others) a := by
  obtain ⟨before, after, rfl, hbefore, hafter⟩ := h
  refine ⟨before, after ++ others, by simp, hbefore, fun b hb => ?_⟩
  rcases List.mem_append.mp hb with hb | hb
  · exact hafter b hb
  · exact hothers b hb

theorem FirstLeast.append_right {others : List α}
    (hothers : ∀ b ∈ others, key a < key b) : FirstLeast key (others ++ items) a := by
  obtain ⟨before, after, rfl, hbefore, hafter⟩ := h
  refine ⟨others ++ before, after, by simp, fun b hb => ?_, hafter⟩
  rcases List.mem_append.mp hb with hb | hb
  · exact hothers b hb
  · exact hbefore b hb

end

theorem exists_firstLeast_sort (hne : items ≠ []) :
    ∃ a, (items.insertionSort fun a b => key a ≤ key b).head? = some a ∧
      FirstLeast key items a := by
  induction items with
  | nil => exact absurd rfl hne
  | cons b items ih =>
    rcases items.eq_nil_or_concat with rfl | hcons
    · exact ⟨b, rfl, [], [], rfl, by simp, by simp⟩
    · obtain ⟨a, hhead, hleast⟩ := ih (by rintro rfl; simp at hcons)
      obtain ⟨rest, hsorted⟩ := List.head?_eq_some_iff.mp hhead
      rw [List.insertionSort_cons, hsorted, List.orderedInsert_cons]
      split
      next hle =>
        exact ⟨b, rfl, [], items, rfl, by simp, fun c hc => hle.trans (hleast.le hc)⟩
      next hlt =>
        have hothers : ∀ c ∈ [b], key a < key c := by
          simpa using lt_of_not_ge hlt
        exact ⟨a, rfl, hleast.append_right hothers⟩

theorem exists_le_of_firstLeasts {lists : List (List α)}
    (h : List.Forall₂ (FirstLeast key) lists items) (hb : b ∈ lists.flatten) :
    ∃ a ∈ items, key a ≤ key b := by
  induction h with
  | nil => cases hb
  | cons hfirst _ ih =>
    rcases List.mem_append.mp hb with hb | hb
    · exact ⟨_, List.mem_cons_self, hfirst.le hb⟩
    · obtain ⟨a, ha, hle⟩ := ih hb
      exact ⟨a, List.mem_cons_of_mem _ ha, hle⟩

theorem FirstLeast.flatten {lists : List (List α)} (h : FirstLeast key items a)
    (hlists : List.Forall₂ (FirstLeast key) lists items) :
    FirstLeast key lists.flatten a := by
  induction hlists with
  | nil => exact absurd h.mem List.not_mem_nil
  | cons hfirst hrest ih =>
    obtain ⟨before, after, heq, hbefore, hafter⟩ := h
    cases before with
    | nil =>
      obtain ⟨rfl, rfl⟩ := List.cons.inj heq
      refine hfirst.append_left fun c hc => ?_
      obtain ⟨least, hleast, hle⟩ := exists_le_of_firstLeasts hrest hc
      exact (hafter least hleast).trans hle
    | cons first before =>
      obtain ⟨rfl, rfl⟩ := List.cons.inj heq
      refine (ih ⟨before, after, rfl, fun c hc => hbefore c (List.mem_cons_of_mem _ hc),
        hafter⟩).append_right fun c hc => ?_
      exact (hbefore _ List.mem_cons_self).trans_le (hfirst.le hc)

end FirstLeast

/-- `children?.length ?? 1`. -/
def LayoutNode.childrenLength (node : LayoutNode) : Nat :=
  if node.isLeaf then 1 else node.children.length

def normalizeIndex (node : LayoutNode) (index : Int) : Int :=
  if index < 0 then node.childrenLength - max index (-node.childrenLength)
  else min index (node.childrenLength - 1)

/-- `node.children[index]`. -/
def LayoutNode.childAt (node : LayoutNode) (index : Int) : Option LayoutNode :=
  if index < 0 then none else node.children[index.toNat]?

/-- `findInsertLocationFromIndexArr`.  The node may be `undefined`. -/
def findInsertLocationFromIndexArr :
    Option LayoutNode → List Int → Except LayoutError (Option (LayoutNode × Int))
  | _, [] => .ok none
  | none, _ :: _ => .error .undefinedNode
  | some node, index :: rest =>
    let nextIndex := normalizeIndex node index
    if rest = [] ∨ node.isLeaf then .ok (some (node, nextIndex))
    else findInsertLocationFromIndexArr (node.childAt nextIndex) rest

/-- The place that an index means: a negative one counts from the end. -/
def LayoutNode.position (node : LayoutNode) (index : Int) : Nat :=
  if index < 0 then (node.childrenLength + index).toNat
  else min index.toNat (node.childrenLength - 1)

/-- The array leads as far as the tree goes, to a place in a node of the tree. -/
inductive Leads : LayoutNode → List Int → LayoutNode → Nat → Prop
  | stop {node : LayoutNode} {index : Int} {rest : List Int}
      (hstop : rest = [] ∨ node.isLeaf = true) :
      Leads node (index :: rest) node (node.position index)
  | down {node child target : LayoutNode} {index : Int} {rest : List Int} {place : Nat}
      (hrest : ¬ (rest = [] ∨ node.isLeaf = true))
      (hchild : node.children[node.position index]? = some child)
      (hleads : Leads child rest target place) :
      Leads node (index :: rest) target place

/-- The array leads to a node, and the place in it is one where a child may be inserted. -/
def FollowsIndexes (tree : LayoutNode) (indexArr : List Int) : Prop :=
  ∃ (node : LayoutNode) (place : Nat),
    findInsertLocationFromIndexArr (some tree) indexArr = .ok (some (node, place)) ∧
      Leads tree indexArr node place ∧ place ≤ node.children.length

/-- No index that is used before the array or the tree ends is negative. -/
def Forward : LayoutNode → List Int → Prop
  | _, [] => True
  | node, index :: rest => 0 ≤ index ∧ (rest = [] ∨ node.isLeaf = true ∨
      ∀ child, node.children[node.position index]? = some child → Forward child rest)

section Indexes

variable {tree node child : LayoutNode} {index : Int} {rest indexArr : List Int}

theorem LayoutNode.Valid.childrenLength_pos (h : node.Valid) : 0 < node.childrenLength := by
  cases h with
  | leaf => exact Nat.one_pos
  | group hvalid =>
    simpa [validateNode, LayoutNode.childrenLength, LayoutNode.isLeaf, LayoutNode.children,
      List.length_pos_iff] using hvalid

theorem normalizeIndex_of_nonneg (h : node.Valid) (hindex : 0 ≤ index) :
    normalizeIndex node index = node.position index := by
  have hpos := h.childrenLength_pos
  simp only [normalizeIndex, LayoutNode.position, if_neg (Int.not_lt.mpr hindex)]
  omega

theorem lt_normalizeIndex (h : node.Valid) (hindex : index < 0) :
    node.children.length < normalizeIndex node index := by
  have hpos := h.childrenLength_pos
  have hle : node.children.length ≤ node.childrenLength := by
    unfold LayoutNode.childrenLength
    cases node <;> simp [LayoutNode.isLeaf, LayoutNode.children]
  simp only [normalizeIndex, if_pos hindex]
  omega

theorem childrenLength_le (node : LayoutNode) :
    node.childrenLength ≤ node.children.length + 1 := by
  unfold LayoutNode.childrenLength
  split <;> omega

theorem followsIndexes_down (hvalid : tree.Valid) (hindex : 0 ≤ index)
    (hrest : ¬ (rest = [] ∨ tree.isLeaf = true))
    (hchild : tree.children[tree.position index]? = some child) :
    FollowsIndexes tree (index :: rest) ↔ FollowsIndexes child rest := by
  have hat : tree.childAt (tree.position index) = some child := by
    rw [LayoutNode.childAt, if_neg (by omega), Int.toNat_natCast, hchild]
  have hfind : findInsertLocationFromIndexArr (some tree) (index :: rest) =
      findInsertLocationFromIndexArr (some child) rest := by
    rw [findInsertLocationFromIndexArr, normalizeIndex_of_nonneg hvalid hindex, if_neg hrest, hat]
  unfold FollowsIndexes
  rw [hfind]
  refine exists_congr fun node => exists_congr fun place => and_congr_right fun _ =>
    and_congr_left fun _ => ⟨fun hleads => ?_, fun hleads => .down hrest hchild hleads⟩
  cases hleads with
  | stop hstop => exact absurd hstop hrest
  | down _ hother hleads =>
    rw [hchild] at hother
    cases hother
    exact hleads

theorem not_followsIndexes_of_neg (hvalid : tree.Valid) (hindex : index < 0) :
    ¬ FollowsIndexes tree (index :: rest) := by
  rintro ⟨node, place, hfind, -, hplace⟩
  have hout := lt_normalizeIndex hvalid hindex
  rw [findInsertLocationFromIndexArr] at hfind
  split at hfind
  next =>
    obtain ⟨rfl, hsame⟩ := Prod.mk.inj (Option.some.inj (Except.ok.inj hfind))
    omega
  next hstop =>
    have hnone : tree.childAt (normalizeIndex tree index) = none := by
      rw [LayoutNode.childAt, if_neg (by omega), List.getElem?_eq_none (by omega)]
    rw [hnone] at hfind
    cases rest with
    | nil => exact hstop (Or.inl rfl)
    | cons => cases hfind

/-- **Followed indexes.**  The array leads to a place in the tree exactly if no index that is used
is negative. -/
theorem followsIndexes_iff (hvalid : tree.Valid) (hne : indexArr ≠ []) :
    FollowsIndexes tree indexArr ↔ Forward tree indexArr := by
  induction indexArr generalizing tree with
  | nil => exact absurd rfl hne
  | cons index rest ih =>
    rw [Forward]
    rcases Int.lt_or_le index 0 with hneg | hindex
    · exact iff_of_false (not_followsIndexes_of_neg hvalid hneg) fun h => by omega
    · have hpos := hvalid.childrenLength_pos
      have hposition : tree.position index ≤ tree.childrenLength - 1 := by
        rw [LayoutNode.position, if_neg (by omega)]
        exact Nat.min_le_right _ _
      by_cases hstop : rest = [] ∨ tree.isLeaf = true
      · refine iff_of_true ⟨tree, tree.position index, ?_, .stop hstop, ?_⟩
          ⟨hindex, hstop.imp_right Or.inl⟩
        · rw [findInsertLocationFromIndexArr, if_pos hstop, normalizeIndex_of_nonneg hvalid hindex]
        · have hle := childrenLength_le tree
          omega
      · obtain ⟨hrest, hleaf⟩ := not_or.mp hstop
        have hlength : tree.childrenLength = tree.children.length := if_neg hleaf
        obtain ⟨child, hchild⟩ : ∃ child, tree.children[tree.position index]? = some child :=
          ⟨_, List.getElem?_eq_getElem (by omega)⟩
        rw [followsIndexes_down hvalid hindex hstop hchild,
          ih (hvalid.child (List.mem_of_getElem? hchild)) hrest]
        simp [hindex, hrest, hleaf, hchild]

end Indexes

/-- A place for a new node that `findNextInsertLocationHelper` has found. -/
structure InsertLocation where
  node : LayoutNode
  index : Nat
  depth : Nat

/-- A group that is not full offers the place behind its last child. -/
def ownLocation (maxChildren : Nat) (node : LayoutNode) (curDepth : Nat) : List InsertLocation :=
  if node.children.length < maxChildren then [⟨node, node.children.length, curDepth⟩] else []

section Ranked

variable {P : Type*} [LinearOrder P] (pow : Nat → Nat → P) (maxChildren : Nat)

/-- What the places are sorted by; `pow` is `Math.pow`. -/
def rank (location : InsertLocation) : P := pow location.depth (location.index + maxChildren)

mutual

def findNextInsertLocationHelper : LayoutNode → Nat → Option InsertLocation
  | node@(.leaf _ _ _ _), curDepth => some ⟨node, 1, curDepth⟩
  | node@(.group _ children _ _), curDepth =>
    let insertLocs := (ownLocation maxChildren node curDepth).map some ++
      (helperBelow children (curDepth + 1)).reverse
    ((insertLocs.filterMap fun a => a).insertionSort fun a b =>
      rank pow maxChildren a ≤ rank pow maxChildren b).head?

/-- What the helper finds in each of the children. -/
def helperBelow : List LayoutNode → Nat → List (Option InsertLocation)
  | [], _ => []
  | child :: rest, curDepth =>
    findNextInsertLocationHelper child curDepth :: helperBelow rest curDepth

end

def findNextInsertLocation (node : LayoutNode) : Option LayoutNode × Option Nat :=
  let insertLoc := findNextInsertLocationHelper pow maxChildren node 1
  (insertLoc.map (·.node), insertLoc.map (·.index))

mutual

/-- All places of a tree that have room, in the order in which they are looked at. -/
def locations : LayoutNode → Nat → List InsertLocation
  | node@(.leaf _ _ _ _), curDepth => [⟨node, 1, curDepth⟩]
  | node@(.group _ children _ _), curDepth =>
    ownLocation maxChildren node curDepth ++ (locationsBelow children (curDepth + 1)).reverse.flatten

/-- The places of each of the children. -/
def locationsBelow : List LayoutNode → Nat → List (List InsertLocation)
  | [], _ => []
  | child :: rest, curDepth => locations child curDepth :: locationsBelow rest curDepth

end

/-- A node stands in a tree, whose root has a depth, at a depth. -/
inductive Occurs : LayoutNode → Nat → LayoutNode → Nat → Prop
  | here (node : LayoutNode) (depth : Nat) : Occurs node depth node depth
  | child {tree child node : LayoutNode} {top depth : Nat} (hchild : child ∈ tree.children)
      (h : Occurs child (top + 1) node depth) : Occurs tree top node depth

/-- A node has room for another one. -/
def HasRoom (node : LayoutNode) : Prop :=
  node.isLeaf = true ∨ node.children.length < maxChildren

/-- The node that is found has room, and no node with room is less deep than the place where it
was found. -/
def FillsShallowest (tree : LayoutNode) : Prop :=
  ∃ location, findNextInsertLocationHelper pow maxChildren tree 1 = some location ∧
    findNextInsertLocation pow maxChildren tree = (some location.node, some location.index) ∧
    Occurs tree 1 location.node location.depth ∧ HasRoom maxChildren location.node ∧
    ∀ other depth, Occurs tree 1 other depth → HasRoom maxChildren other → location.depth ≤ depth

/-- Some place of the smallest depth ranks before every deeper one. -/
def ShallowFirst (tree : LayoutNode) : Prop :=
  ∃ before location after, locations maxChildren tree 1 = before ++ location :: after ∧
    (∀ other ∈ locations maxChildren tree 1, location.depth ≤ other.depth) ∧
    (∀ other ∈ before, location.depth < other.depth →
      rank pow maxChildren location < rank pow maxChildren other) ∧
    ∀ other ∈ after, location.depth < other.depth →
      rank pow maxChildren location ≤ rank pow maxChildren other

end Ranked

section Places

variable {P : Type*} [LinearOrder P] {pow : Nat → Nat → P} {maxChildren : Nat}
variable {tree node : LayoutNode} {depth top : Nat}

theorem locationsBelow_eq (children : List LayoutNode) (depth : Nat) :
    locationsBelow maxChildren children depth =
      children.map fun child => locations maxChildren child depth := by
  induction children with
  | nil => rfl
  | cons child rest ih => rw [locationsBelow, ih, List.map_cons]

theorem occurs_of_mem_locations {location : InsertLocation} :
    ∀ {top}, location ∈ locations maxChildren tree top →
      Occurs tree top location.node location.depth ∧ HasRoom maxChildren location.node := by
  induction tree with
  | leaf id data flex size =>
    intro top h
    rw [locations, List.mem_singleton] at h
    subst h
    exact ⟨.here _ _, Or.inl rfl⟩
  | group id children flex size ih =>
    intro top h
    rw [locations, locationsBelow_eq, List.mem_append, ownLocation] at h
    rcases h with h | h
    · split at h
      next hroom =>
        rw [List.mem_singleton] at h
        subst h
        exact ⟨.here _ _, Or.inr hroom⟩
      next => cases h
    · simp only [List.mem_flatten, List.mem_reverse, List.mem_map, exists_exists_and_eq_and] at h
      obtain ⟨child, hchild, h⟩ := h
      obtain ⟨hoccurs, hroom⟩ := ih child hchild h
      exact ⟨.child hchild hoccurs, hroom⟩

theorem exists_mem_locations (h : Occurs tree top node depth) (hroom : HasRoom maxChildren node) :
    ∃ location ∈ locations maxChildren tree top, location.depth = depth := by
  induction h with
  | here node depth =>
    cases node with
    | leaf id data flex size => exact ⟨_, List.mem_singleton_self _, rfl⟩
    | group id children flex size =>
      have hlt := hroom.resolve_left Bool.false_ne_true
      refine ⟨⟨.group id children flex size, children.length, depth⟩, ?_, rfl⟩
      rw [locations, ownLocation, if_pos hlt]
      exact List.mem_append_left _ (List.mem_singleton_self _)
  | @child tree child node top depth hchild _ ih =>
    obtain ⟨location, hlocation, hdepth⟩ := ih hroom
    cases tree with
    | leaf => cases hchild
    | group id children flex size =>
      refine ⟨location, ?_, hdepth⟩
      rw [locations, locationsBelow_eq]
      refine List.mem_append_right _ (List.mem_flatten_of_mem (List.mem_reverse.mpr ?_) hlocation)
      exact List.mem_map_of_mem hchild

/-- **The helper finds the first of the places that rank lowest.** -/
theorem exists_firstLeast_helper (hvalid : tree.Valid) :
    ∀ top, ∃ location, findNextInsertLocationHelper pow maxChildren tree top = some location ∧
      FirstLeast (rank pow maxChildren) (locations maxChildren tree top) location := by
  induction tree with
  | leaf id data flex size => exact fun top => ⟨_, rfl, [], [], rfl, by simp, by simp⟩
  | group id children flex size ih =>
    intro top
    have hbelow : ∀ nodes : List LayoutNode, (∀ child ∈ nodes, child ∈ children) →
        ∃ found, helperBelow pow maxChildren nodes (top + 1) = found.map some ∧
          List.Forall₂ (FirstLeast (rank pow maxChildren))
            (locationsBelow maxChildren nodes (top + 1)) found := by
      intro nodes
      induction nodes with
      | nil => exact fun _ => ⟨[], rfl, .nil⟩
      | cons child rest ihrest =>
        intro hnodes
        have hchild := hnodes child List.mem_cons_self
        obtain ⟨location, hlocation, hleast⟩ := ih child hchild (hvalid.child hchild) (top + 1)
        obtain ⟨found, hfound, hleasts⟩ :=
          ihrest fun other hother => hnodes other (List.mem_cons_of_mem _ hother)
        exact ⟨location :: found, by rw [helperBelow, hlocation, hfound, List.map_cons],
          .cons hleast hleasts⟩
    obtain ⟨found, hfound, hleasts⟩ := hbelow children fun _ h => h
    have hne : found ≠ [] := by
      rintro rfl
      have hlength := hleasts.length_eq
      rw [locationsBelow_eq, List.length_map, List.length_nil, List.length_eq_zero_iff] at hlength
      cases hvalid with
      | group hvalid => simp [validateNode, hlength] at hvalid
    generalize hown : ownLocation maxChildren (.group id children flex size) top = own
    have hsome : own ++ found.reverse ≠ [] := by simp [hne]
    obtain ⟨location, hhead, hleast⟩ := @exists_firstLeast_sort _ _ _ (rank pow maxChildren) _ hsome
    refine ⟨location, ?_, ?_⟩
    · simpa [findNextInsertLocationHelper, hown, hfound, ← List.map_reverse,
        List.filterMap_map] using hhead
    · have hlists : List.Forall₂ (FirstLeast (rank pow maxChildren))
          (own.map ([·]) ++ (locationsBelow maxChildren children (top + 1)).reverse)
          (own ++ found.reverse) := by
        refine List.rel_append ?_ (List.forall₂_reverse_iff.mpr hleasts)
        rw [List.forall₂_map_left_iff, List.forall₂_same]
        exact fun own _ => ⟨[], [], rfl, by simp, by simp⟩
      have hflat := hleast.flatten hlists
      rw [List.flatten_append, ← List.flatMap_def, List.flatMap_singleton'] at hflat
      rw [locations, hown]
      exact hflat

theorem FirstLeast.eq_of_split {α : Type*} {key : α → P} {items before after : List α} {a b : α}
    (h : FirstLeast key items a) (hsplit : items = before ++ b :: after)
    (hbefore : a ∈ before → key b < key a) (hafter : a ∈ after → key b ≤ key a) : a = b := by
  have hle : key a ≤ key b := h.le (by simp [hsplit])
  obtain ⟨front, back, rfl, hfront, -⟩ := h
  rcases List.append_eq_append_iff.mp hsplit with ⟨mid, rfl, hmid⟩ | ⟨mid, rfl, hmid⟩
  · cases mid with
    | nil => exact (List.cons.inj hmid).1
    | cons c mid =>
      obtain ⟨rfl, rfl⟩ := List.cons.inj hmid
      exact absurd (hbefore (by simp)) (not_lt_of_ge hle)
  · cases mid with
    | nil => exact (List.cons.inj hmid).1.symm
    | cons c mid =>
      obtain ⟨rfl, rfl⟩ := List.cons.inj hmid
      exact absurd (hfront _ (by simp)) (not_lt_of_ge (hafter (by simp)))

/-- **The shallowest node with room.**  It is found exactly if some place of the smallest depth
ranks before every deeper one. -/
theorem fillsShallowest_iff (hvalid : tree.Valid) :
    FillsShallowest pow maxChildren tree ↔ ShallowFirst pow maxChildren tree := by
  obtain ⟨found, hfound, hleast⟩ :=
    @exists_firstLeast_helper _ _ pow maxChildren _ hvalid 1
  constructor
  · rintro ⟨location, hlocation, -, -, -, hshallow⟩
    rw [hfound] at hlocation
    cases hlocation
    obtain ⟨before, after, hsplit, hbefore, hafter⟩ := hleast
    refine ⟨before, found, after, hsplit, fun other hother => ?_,
      fun other hother _ => hbefore other hother, fun other hother _ => hafter other hother⟩
    obtain ⟨hoccurs, hroom⟩ := occurs_of_mem_locations hother
    exact hshallow _ _ hoccurs hroom
  · rintro ⟨before, location, after, hsplit, hshallow, hbefore, hafter⟩
    have hdepth : ∀ other ∈ locations maxChildren tree 1, found.depth ≤ other.depth := by
      by_contra hdeep
      have hlt : location.depth < found.depth := by
        by_contra hle
        exact hdeep fun other hother => (Nat.le_of_not_lt hle).trans (hshallow other hother)
      have hsame := hleast.eq_of_split hsplit (fun h => hbefore found h hlt)
        fun h => hafter found h hlt
      exact absurd hlt (by rw [hsame]; exact lt_irrefl _)
    obtain ⟨hoccurs, hroom⟩ := occurs_of_mem_locations hleast.mem
    refine ⟨found, hfound, by simp [findNextInsertLocation, hfound], hoccurs, hroom, ?_⟩
    intro other depth hother hotherRoom
    obtain ⟨location, hlocation, rfl⟩ := exists_mem_locations hother hotherRoom
    exact hdepth location hlocation

end Places

/-- **Insert locations.**  Both searches come to what they promise exactly if no used index is
negative and no deeper place ranks before all of the smallest depth. -/
theorem insertLocations_usable_iff {P : Type*} [LinearOrder P] (pow : Nat → Nat → P)
    {tree : LayoutNode} (hvalid : tree.Valid) {indexArr : List Int} (hne : indexArr ≠ [])
    (maxChildren : Nat) :
    (FollowsIndexes tree indexArr ↔ Forward tree indexArr) ∧
      (FillsShallowest pow maxChildren tree ↔ ShallowFirst pow maxChildren tree) :=
  ⟨followsIndexes_iff hvalid hne, fillsShallowest_iff hvalid⟩

/-- A leaf of a tree for a test. -/
def block (i : Nat) : LayoutNode := .leaf (Nat.repr i) ⟨Nat.repr i⟩ .row 10

/-- Two blocks in a row. -/
def blockPair : LayoutNode := .group (Nat.repr 2) [block 0, block 1] .row 10

theorem blockPair_valid : blockPair.Valid :=
  .group rfl (List.forall_mem_cons.mpr ⟨.leaf _ _ _ _, List.forall_mem_singleton.mpr (.leaf _ _ _ _)⟩)

theorem insertLocations_usable_blockPair :
    FollowsIndexes blockPair [0, 7, -3] ∧
      (FillsShallowest Nat.pow 5 blockPair ↔ ShallowFirst Nat.pow 5 blockPair) := by
  have h := insertLocations_usable_iff Nat.pow blockPair_valid (List.cons_ne_nil 0 [7, -3]) 5
  refine ⟨h.1.mpr ⟨by decide, Or.inr (Or.inr ?_)⟩, h.2⟩
  intro child hchild
  obtain rfl : block 0 = child := Option.some.inj hchild
  exact ⟨by decide, Or.inr (Or.inl rfl)⟩

/-- A row of five columns, each of five rows of four blocks. -/
def crowded : LayoutNode :=
  .group (Nat.repr 100) ((List.range 5).map fun i =>
    .group (Nat.repr (110 + i)) ((List.range 5).map fun j =>
      .group (Nat.repr (120 + 5 * i + j)) ((List.range 4).map fun k =>
        block (20 * i + 4 * j + k)) .row 10) .column 10) .row 10

/-- Counted from the end, the last of two blocks is no place in the tree; and a block of the
crowded tree is found, although the row that it is in has room. -/
theorem insertLocations_not_usable :
    ¬ FollowsIndexes blockPair [-1] ∧ ¬ FillsShallowest Nat.pow 5 crowded := by
  refine ⟨not_followsIndexes_of_neg blockPair_valid (by decide), ?_⟩
  rintro ⟨location, hfound, -, -, -, hshallow⟩
  have hdepth : (findNextInsertLocationHelper Nat.pow 5 crowded 1).map (·.depth) = some 4 := by
    decide +kernel
  rw [hfound] at hdepth
  have hrow := hshallow (.group (Nat.repr 120) ((List.range 4).map block) .row 10) 3
    (.child (List.mem_map.mpr ⟨0, by decide, rfl⟩)
      (.child (List.mem_map.mpr ⟨0, by decide, rfl⟩) (.here _ _))) (Or.inr (by decide))
  have hdeep : location.depth = 4 := Option.some.inj hdepth
  omega

end Layout
