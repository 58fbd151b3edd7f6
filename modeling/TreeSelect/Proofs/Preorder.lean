import TreeSelect.Proofs.Chains

/-!
The elements below a node of a linked tree, in document order. The walk keeps its own list of
pending nodes and a budget; here it is shown to be the plain recursion over lists of children,
and what it gives is told apart by the chain of parents.
-/

namespace TreeSelect.Tree

/-- The nodes that are taken off a pending list, in order. Below a node that is no element
nothing is pending. -/
inductive Visits (tree : Tree) : List NodeId → List NodeId → Prop where
  | done : Visits tree [] []
  | past {id : NodeId} {pending visited : List NodeId} :
      tree.isElement id = false → Visits tree pending visited →
      Visits tree (id :: pending) (id :: visited)
  | into {id : NodeId} {pending visited : List NodeId} :
      tree.isElement id = true → Visits tree (tree.children id ++ pending) visited →
      Visits tree (id :: pending) (id :: visited)

namespace Visits

variable {tree : Tree} {pending visited : List NodeId}

theorem walk_eq (visits : Visits tree pending visited) {budget : Nat}
    (enough : visited.length ≤ budget) :
    tree.walk budget pending = visited.filter tree.isElement := by
  induction visits generalizing budget with
  | done => cases budget <;> rfl
  | past skipped _ ih =>
      cases budget with
      | zero => exact absurd enough (Nat.not_succ_le_zero _)
      | succ budget =>
          have later := ih (Nat.le_of_succ_le_succ enough)
          simp [walk, skipped, later]
  | into element _ ih =>
      cases budget with
      | zero => exact absurd enough (Nat.not_succ_le_zero _)
      | succ budget =>
          have later := ih (Nat.le_of_succ_le_succ enough)
          simp [walk, element, later]

theorem append {pending' visited' : List NodeId} (first : Visits tree pending visited)
    (second : Visits tree pending' visited') :
    Visits tree (pending ++ pending') (visited ++ visited') := by
  induction first with
  | done => exact second
  | past skipped _ ih => exact .past skipped ih
  | into element _ ih =>
      rw [List.append_assoc] at ih
      exact .into element ih

/-- A walk is one course of visits. -/
theorem functional {other : List NodeId} (first : Visits tree pending visited)
    (second : Visits tree pending other) : visited = other := by
  induction first generalizing other with
  | done =>
      cases second
      rfl
  | past skipped _ ih =>
      cases second with
      | past _ later => rw [ih later]
      | into element _ =>
          rw [skipped] at element
          cases element
  | into element _ ih =>
      cases second with
      | past skipped _ =>
          rw [skipped] at element
          cases element
      | into _ later => rw [ih later]

/-- A node with everything that is visited below it. -/
def block (tree : Tree) (below : NodeId → List NodeId) (id : NodeId) : List NodeId :=
  id :: if tree.isElement id then below id else []

theorem blocks {ids : List NodeId} {below : NodeId → List NodeId}
    (each : ∀ id ∈ ids, Visits tree (tree.children id) (below id)) :
    Visits tree ids (ids.flatMap (block tree below)) := by
  induction ids with
  | nil => exact .done
  | cons id ids ih =>
      have later := ih fun other member => each other (List.mem_cons_of_mem id member)
      rw [List.flatMap_cons, block, List.cons_append]
      by_cases element : tree.isElement id = true
      · rw [if_pos element]
        exact .into element ((each id List.mem_cons_self).append later)
      · rw [if_neg element]
        exact .past (Bool.eq_false_iff.mpr element) later

end Visits

namespace Linked

variable {tree : Tree}

/-- Every walk ends, and what is visited is gathered child by child. -/
theorem exists_visited (linked : Linked tree) :
    ∃ below : NodeId → List NodeId, (∀ id, Visits tree (tree.children id) (below id)) ∧
      ∀ id, below id = (tree.children id).flatMap (Visits.block tree below) := by
  have ends : ∀ id, ∃ visited, Visits tree (tree.children id) visited := by
    intro id
    apply linked.down_induction _ id
    intro id ih
    -- Choose the visits below each child, and put the blocks of all children together.
    classical
    let below := fun id => if ends : ∃ visited, Visits tree (tree.children id) visited
      then ends.choose else []
    have each : ∀ child ∈ tree.children id, Visits tree (tree.children child) (below child) := by
      intro child member
      have ends := ih child member
      simp only [below, dif_pos ends]
      exact ends.choose_spec
    exact ⟨_, Visits.blocks each⟩
  refine ⟨fun id => (ends id).choose, fun id => (ends id).choose_spec, fun id => ?_⟩
  exact (ends id).choose_spec.functional (Visits.blocks fun child _ => (ends child).choose_spec)

section
variable {below : NodeId → List NodeId}

theorem mem_block {id other : NodeId} (member : other ∈ Visits.block tree below id) :
    other = id ∨ tree.isElement id = true ∧ other ∈ below id := by
  rw [Visits.block, List.mem_cons] at member
  rcases member with same | member
  · exact .inl same
  · split at member
    · next element => exact .inr ⟨element, member⟩
    · cases member

theorem visited_below (linked : Linked tree)
    (gathers : ∀ id, below id = (tree.children id).flatMap (Visits.block tree below))
    (id : NodeId) : ∀ other ∈ below id, id ∈ tree.ancestors other := by
  apply linked.down_induction _ id
  intro id ih other member
  rw [gathers, List.mem_flatMap] at member
  obtain ⟨child, isChild, member⟩ := member
  have link := (linked.mem_children_iff id child).mp isChild
  have above : id ∈ tree.ancestors child := by rw [linked.ancestors_some link]; simp
  rcases mem_block member with rfl | ⟨-, deeper⟩
  · exact above
  · exact linked.ancestor_trans (ih child isChild other deeper) above

/-- On one chain there is one child of a node. -/
theorem one_child_above (linked : Linked tree) {id first second : NodeId}
    (isFirst : tree.parent? first = some id) (isSecond : tree.parent? second = some id)
    (other : NodeId) : (other = first ∨ first ∈ tree.ancestors other) →
      (other = second ∨ second ∈ tree.ancestors other) → first = second := by
  -- Were one child above the other, the node would be above itself.
  have apart : ∀ {low high}, tree.parent? low = some id → tree.parent? high = some id →
      high ∉ tree.ancestors low := by
    intro low high isLow isHigh member
    rw [linked.ancestors_some isLow, List.mem_cons] at member
    have above : id ∈ tree.ancestors high := by rw [linked.ancestors_some isHigh]; simp
    rcases member with rfl | member
    · exact linked.not_ancestor_self high above
    · exact linked.not_ancestor_self id (linked.ancestor_trans member above)
  apply linked.up_induction _ other
  intro other ih onFirst onSecond
  rcases onFirst with rfl | onFirst
  · rcases onSecond with same | onSecond
    · exact same
    · exact absurd onSecond (apart isFirst isSecond)
  · rcases onSecond with rfl | onSecond
    · exact absurd onFirst (apart isSecond isFirst)
    · obtain ⟨parent, link, onFirst⟩ := linked.mem_ancestors_iff.mp onFirst
      obtain ⟨_, same, onSecond⟩ := linked.mem_ancestors_iff.mp onSecond
      rw [link] at same
      obtain rfl := Option.some.inj same
      exact ih parent link (onFirst.imp_left Eq.symm) (onSecond.imp_left Eq.symm)

theorem visited_once (linked : Linked tree)
    (gathers : ∀ id, below id = (tree.children id).flatMap (Visits.block tree below))
    (id : NodeId) : (below id).Nodup := by
  have above := linked.visited_below gathers
  apply linked.down_induction _ id
  intro id ih
  rw [gathers, List.nodup_iff_pairwise_ne, List.pairwise_flatMap]
  constructor
  · intro child isChild
    rw [Visits.block, ← List.nodup_iff_pairwise_ne, List.nodup_cons]
    split
    · constructor
      · exact fun member => linked.not_ancestor_self child (above child child member)
      · exact ih child isChild
    · exact ⟨List.not_mem_nil, List.nodup_nil⟩
  · -- A node in the blocks of two children would have both on its chain of parents.
    apply (List.nodup_iff_pairwise_ne.mp (linked.nodup id)).imp_of_mem
    intro first second isFirst isSecond different other inFirst _ inSecond same
    subst same
    apply different
    apply linked.one_child_above ((linked.mem_children_iff id first).mp isFirst)
      ((linked.mem_children_iff id second).mp isSecond) other
    · exact (mem_block inFirst).imp_right fun member => above first other member.2
    · exact (mem_block inSecond).imp_right fun member => above second other member.2

end

/-! The budget. -/

theorem child_entries_eq (tree : Tree) :
    tree.childEntries = (tree.nodes.toList.flatMap Node.children).length := by
  have counts : ∀ (nodes : List Node) (start : Nat),
      nodes.foldl (fun count node => count + node.children.length) start =
        start + (nodes.flatMap Node.children).length := by
    intro nodes
    induction nodes with
    | nil => intro start; rfl
    | cons node nodes ih =>
        intro start
        rw [List.foldl_cons, ih, List.flatMap_cons, List.length_append, Nat.add_assoc]
  rw [childEntries, ← Array.foldl_toList, counts, Nat.zero_add]

theorem mem_child_entries {id child : NodeId} (member : child ∈ tree.children id) :
    child ∈ tree.nodes.toList.flatMap Node.children := by
  rw [children] at member
  cases found : tree.get? id with
  | none =>
      rw [found] at member
      cases member
  | some node =>
      rw [found] at member
      rw [List.mem_flatMap]
      exact ⟨node, Array.mem_toList_iff.mpr (Array.mem_of_getElem? found), member⟩

/-- A course of visits without repeats takes every entry of a list of children at most once. -/
theorem visits_length {visited : List NodeId} (once : visited.Nodup)
    (entries : ∀ id ∈ visited, ∃ parent, id ∈ tree.children parent) :
    visited.length ≤ tree.childEntries := by
  rw [child_entries_eq]
  apply once.length_le_of_subset
  intro id member
  obtain ⟨parent, child⟩ := entries id member
  exact mem_child_entries child

/-- Every walk below a node ends, and no node is visited twice on it. -/
theorem exists_walk (linked : Linked tree) :
    ∃ below : NodeId → List NodeId,
      (∀ id, below id = (tree.children id).flatMap (Visits.block tree below)) ∧
      ∀ id, Visits tree (tree.children id) (below id) ∧ (below id).Nodup ∧
        (below id).length ≤ tree.childEntries := by
  obtain ⟨below, visits, gathers⟩ := linked.exists_visited
  refine ⟨below, gathers, fun id => ?_⟩
  have once := linked.visited_once gathers id
  have entries : ∀ other ∈ below id, ∃ parent, other ∈ tree.children parent := by
    intro other member
    have above := linked.visited_below gathers id other member
    obtain ⟨parent, link, -⟩ := linked.mem_ancestors_iff.mp above
    exact ⟨parent, (linked.mem_children_iff parent other).mpr link⟩
  exact ⟨visits id, once, visits_length once entries⟩

/-- The budget of the walk suffices. -/
theorem descendants_of_visits {id : NodeId} {visited : List NodeId}
    (visits : Visits tree (tree.children id) visited)
    (enough : visited.length ≤ tree.childEntries) :
    tree.descendants id = visited.filter tree.isElement :=
  visits.walk_eq (Nat.le_trans enough (Nat.le_of_lt Nat.lt_two_pow_self))

theorem nodup_descendants (linked : Linked tree) (id : NodeId) : (tree.descendants id).Nodup := by
  obtain ⟨below, -, walked⟩ := linked.exists_walk
  obtain ⟨visits, once, enough⟩ := walked id
  rw [descendants_of_visits visits enough]
  exact once.filter tree.isElement

/-- The elements below a node: child by child, each element before what is below it. -/
theorem descendants_eq (linked : Linked tree) (id : NodeId) :
    tree.descendants id = (tree.children id).flatMap fun child =>
      if tree.isElement child then child :: tree.descendants child else [] := by
  obtain ⟨below, gathers, walked⟩ := linked.exists_walk
  have found : ∀ other, tree.descendants other = (below other).filter tree.isElement :=
    fun other => descendants_of_visits (walked other).1 (walked other).2.2
  rw [found, gathers, List.filter_flatMap]
  congr 1
  funext child
  by_cases element : tree.isElement child = true
  · simp [Visits.block, element, found]
  · simp [Visits.block, element]

theorem mem_descendants_iff (linked : Linked tree) {id other : NodeId} :
    other ∈ tree.descendants id ↔
      ∃ child ∈ tree.children id, tree.isElement child = true ∧
        (other = child ∨ other ∈ tree.descendants child) := by
  rw [linked.descendants_eq, List.mem_flatMap]
  constructor
  · rintro ⟨child, isChild, member⟩
    split at member
    · next element => exact ⟨child, isChild, element, List.mem_cons.mp member⟩
    · cases member
  · rintro ⟨child, isChild, element, member⟩
    refine ⟨child, isChild, ?_⟩
    rw [if_pos element]
    exact List.mem_cons.mpr member

/-- Among the elements below a node are its own element children, and with each of them the
element children of it. -/
theorem mem_descendants_parent_iff (linked : Linked tree) {id other : NodeId} :
    other ∈ tree.descendants id ↔
      tree.isElement other = true ∧
        ∃ parent, tree.parent? other = some parent ∧
          (parent = id ∨ parent ∈ tree.descendants id) := by
  apply linked.down_induction _ id
  intro id ih
  constructor
  · intro member
    obtain ⟨child, isChild, element, rfl | deeper⟩ := linked.mem_descendants_iff.mp member
    · exact ⟨element, id, (linked.mem_children_iff id other).mp isChild, .inl rfl⟩
    · obtain ⟨element', parent, link, above⟩ := (ih child isChild).mp deeper
      exact ⟨element', parent, link, .inr (linked.mem_descendants_iff.mpr
        ⟨child, isChild, element, above⟩)⟩
  · rintro ⟨element, parent, link, rfl | above⟩
    · have isChild := (linked.mem_children_iff parent other).mpr link
      exact linked.mem_descendants_iff.mpr ⟨other, isChild, element, .inl rfl⟩
    · obtain ⟨child, isChild, element', above⟩ := linked.mem_descendants_iff.mp above
      have deeper := (ih child isChild).mpr ⟨element, parent, link, above⟩
      exact linked.mem_descendants_iff.mpr ⟨child, isChild, element', .inr deeper⟩

theorem element_of_descendant (linked : Linked tree) {id other : NodeId}
    (member : other ∈ tree.descendants id) : tree.isElement other = true :=
  (linked.mem_descendants_parent_iff.mp member).1

theorem ancestor_of_descendant (linked : Linked tree) {id other : NodeId}
    (member : other ∈ tree.descendants id) : id ∈ tree.ancestors other := by
  revert member
  apply linked.up_induction _ other
  intro other ih member
  obtain ⟨-, parent, link, above⟩ := linked.mem_descendants_parent_iff.mp member
  rw [linked.mem_ancestors_iff]
  exact ⟨parent, link, above.imp Eq.symm (ih parent link)⟩

theorem top_of_descendant (linked : Linked tree) {id other : NodeId}
    (member : other ∈ tree.descendants id) : tree.top other = tree.top id := by
  revert member
  apply linked.up_induction _ other
  intro other ih member
  obtain ⟨-, parent, link, place⟩ := linked.mem_descendants_parent_iff.mp member
  rw [linked.top_some link]
  rcases place with rfl | place
  · rfl
  · exact ih parent link place

theorem not_own_descendant (linked : Linked tree) (id : NodeId) : id ∉ tree.descendants id :=
  fun member => linked.not_ancestor_self id (linked.ancestor_of_descendant member)

theorem descendants_trans (linked : Linked tree) {id middle low : NodeId}
    (first : middle ∈ tree.descendants id) (second : low ∈ tree.descendants middle) :
    low ∈ tree.descendants id := by
  revert second
  apply linked.up_induction _ low
  intro low ih second
  obtain ⟨element, parent, link, above⟩ := linked.mem_descendants_parent_iff.mp second
  refine linked.mem_descendants_parent_iff.mpr ⟨element, parent, link, .inr ?_⟩
  rcases above with rfl | above
  · exact first
  · exact ih parent link above

/-- Of two elements below one node, one is below the other where its chain of parents says so:
all between them are elements. -/
theorem descendant_iff_ancestor (linked : Linked tree) {root high low : NodeId}
    (inHigh : high ∈ tree.descendants root) (inLow : low ∈ tree.descendants root) :
    low ∈ tree.descendants high ↔ high ∈ tree.ancestors low := by
  constructor
  · exact linked.ancestor_of_descendant
  · revert inLow
    apply linked.up_induction _ low
    intro low ih inLow above
    obtain ⟨element, parent, link, place⟩ := linked.mem_descendants_parent_iff.mp inLow
    refine linked.mem_descendants_parent_iff.mpr ⟨element, parent, link, ?_⟩
    obtain ⟨_, same, above⟩ := linked.mem_ancestors_iff.mp above
    rw [link] at same
    obtain rfl := Option.some.inj same
    rcases above with rfl | above
    · exact .inl rfl
    · rcases place with rfl | place
      · -- The chain would lead from the root to an element below the root.
        have circle := linked.ancestor_trans above (linked.ancestor_of_descendant inHigh)
        exact absurd circle (linked.not_ancestor_self parent)
      · exact .inr (ih parent link place above)

/-- Below a node are the elements with no other kind of node between them and it. -/
theorem mem_descendants_iff_between (linked : Linked tree) {id other : NodeId} :
    other ∈ tree.descendants id ↔
      tree.isElement other = true ∧ id ∈ tree.ancestors other ∧
        ∀ middle ∈ tree.ancestors other, id ∈ tree.ancestors middle →
          tree.isElement middle = true := by
  apply linked.up_induction _ other
  intro other ih
  constructor
  · intro member
    obtain ⟨element, parent, link, place⟩ := linked.mem_descendants_parent_iff.mp member
    refine ⟨element, linked.ancestor_of_descendant member, ?_⟩
    intro middle above between
    rw [linked.ancestors_some link, List.mem_cons] at above
    rcases place with rfl | place
    · -- The node itself is the parent, and what is above it has it not above.
      rcases above with rfl | above
      · exact absurd between (linked.not_ancestor_self middle)
      · exact absurd (linked.ancestor_trans between above) (linked.not_ancestor_self middle)
    · rcases above with rfl | above
      · exact linked.element_of_descendant place
      · exact ((ih parent link).mp place).2.2 middle above between
  · rintro ⟨element, above, elements⟩
    obtain ⟨parent, link, place⟩ := linked.mem_ancestors_iff.mp above
    refine linked.mem_descendants_parent_iff.mpr ⟨element, parent, link, ?_⟩
    rw [linked.ancestors_some link, List.forall_mem_cons] at elements
    rcases place with rfl | place
    · exact .inl rfl
    · exact .inr ((ih parent link).mpr ⟨elements.1 place, place, elements.2⟩)

/-! Order: an element and all that is below it stand together. -/

theorem block_of_child (linked : Linked tree) {id child : NodeId}
    (isChild : child ∈ tree.children id) (element : tree.isElement child = true) :
    (child :: tree.descendants child) <:+: tree.descendants id := by
  obtain ⟨before, after, split⟩ := List.append_of_mem isChild
  rw [linked.descendants_eq id, split, List.flatMap_append, List.flatMap_cons, if_pos element,
    ← List.append_assoc]
  exact List.infix_append _ _ _

theorem block_of_descendant (linked : Linked tree) {id other : NodeId}
    (member : other ∈ tree.descendants id) :
    (other :: tree.descendants other) <:+: tree.descendants id := by
  revert member
  apply linked.up_induction _ other
  intro other ih member
  obtain ⟨element, parent, link, place⟩ := linked.mem_descendants_parent_iff.mp member
  have here := linked.block_of_child ((linked.mem_children_iff parent other).mpr link) element
  rcases place with rfl | place
  · exact here
  · exact (List.infix_cons here).trans (ih parent link place)

/-- The block of an element comes before the blocks of its later siblings. -/
theorem blocks_in_order (linked : Linked tree) {id first second : NodeId}
    (member : first ∈ tree.descendants id) (later : second ∈ tree.followingSiblings first)
    (element : tree.isElement second = true) :
    ((first :: tree.descendants first) ++ (second :: tree.descendants second)).Sublist
      (tree.descendants id) := by
  obtain ⟨isElement, parent, link, place⟩ := linked.mem_descendants_parent_iff.mp member
  obtain ⟨between, after, split⟩ := List.append_of_mem later
  have whole := linked.children_split link
  rw [split] at whole
  have inParent : ((first :: tree.descendants first) ++
      (second :: tree.descendants second)).Sublist (tree.descendants parent) := by
    rw [linked.descendants_eq parent, whole]
    simp only [List.flatMap_append, List.flatMap_cons, if_pos isElement, if_pos element]
    apply List.Sublist.trans _ (List.sublist_append_right _ _)
    apply (List.Sublist.refl _).append
    apply List.Sublist.trans _ (List.sublist_append_right _ _)
    exact List.sublist_append_left _ _
  rcases place with rfl | place
  · exact inParent
  · exact inParent.trans
      ((List.sublist_cons_self _ _).trans (linked.block_of_descendant place).sublist)

end Linked

/-- The walk ends by itself, whatever more it is given, and lists the elements below a node in
pre-order: those that are reached through elements alone, each of them once, each before all
that is below it and that before its later siblings. -/
theorem descendants_in_preorder {tree : Tree} (built : tree.Built) (id : NodeId) :
    (∃ visited, Visits tree (tree.children id) visited ∧ ∀ budget, visited.length ≤ budget →
      tree.walk budget (tree.children id) = tree.descendants id) ∧
    (tree.descendants id = (tree.children id).flatMap fun child =>
      if tree.isElement child then child :: tree.descendants child else []) ∧
    (∀ other, other ∈ tree.descendants id ↔
      tree.isElement other = true ∧ tree.isDescendantOf other id = true ∧
        ∀ middle, tree.isDescendantOf other middle = true →
          tree.isDescendantOf middle id = true → tree.isElement middle = true) ∧
    (tree.descendants id).Nodup ∧
    ∀ first ∈ tree.descendants id,
      (first :: tree.descendants first) <:+: tree.descendants id ∧
      ∀ second ∈ tree.followingSiblings first, tree.isElement second = true →
        ((first :: tree.descendants first) ++ (second :: tree.descendants second)).Sublist
          (tree.descendants id) := by
  have linked := built.linked
  constructor
  · obtain ⟨below, -, walked⟩ := linked.exists_walk
    obtain ⟨visits, -, enough⟩ := walked id
    refine ⟨below id, visits, fun budget more => ?_⟩
    rw [visits.walk_eq more, Linked.descendants_of_visits visits enough]
  constructor
  · exact linked.descendants_eq id
  constructor
  · intro other
    simp only [is_descendant_of_iff]
    exact linked.mem_descendants_iff_between
  constructor
  · exact linked.nodup_descendants id
  · intro first member
    constructor
    · exact linked.block_of_descendant member
    · exact fun second later element => linked.blocks_in_order member later element

/-- The element in the text is not listed, and the list as a whole was attached late. -/
theorem grafted_list_in_preorder :
    graftedList.Built ∧ graftedList.descendants 0 = [1, 2, 5] ∧
      graftedList.isDescendantOf 4 0 = true ∧ 4 ∉ graftedList.descendants 0 ∧
      ([2] ++ [5]).Sublist (graftedList.descendants 0) := by
  obtain ⟨-, -, reached, -, ordered⟩ := descendants_in_preorder grafted_list_built 0
  have below : graftedList.isDescendantOf 4 0 = true := by decide
  have skipped : 4 ∉ graftedList.descendants 0 := by
    intro member
    have elements := ((reached 4).mp member).2.2 3 (by decide) (by decide)
    exact absurd elements (by decide)
  have blocks := (ordered 2 (by decide)).2 5 (by decide) (by decide)
  exact ⟨grafted_list_built, by decide, below, skipped, blocks⟩

end TreeSelect.Tree
