import TreeSelect.Proofs.Linked

/-!
The walks over parents and siblings of a linked tree, freed of their budgets: a chain of
links visits no node twice, so as many steps as there are nodes are always enough. With the
chain of parents come the two inductions over a tree, toward its top and away from it.
-/

namespace TreeSelect.Tree

/-- Each entry links to the one behind it, and the last one to none. -/
def Threaded (link : NodeId → Option NodeId) (ids : List NodeId) : Prop :=
  ∀ before id after, ids = before ++ id :: after → link id = after.head?

namespace Threaded

variable {link : NodeId → Option NodeId} {first : NodeId} {rest : List NodeId}

theorem head (threaded : Threaded link (first :: rest)) : link first = rest.head? :=
  threaded [] first rest rfl

theorem tail (threaded : Threaded link (first :: rest)) : Threaded link rest := by
  intro before id after same
  exact threaded (first :: before) id after (congrArg (first :: ·) same)

theorem cons (starts : link first = rest.head?) (threaded : Threaded link rest) :
    Threaded link (first :: rest) := by
  intro before id after same
  cases before with
  | nil =>
      obtain ⟨rfl, rfl⟩ := List.cons.inj same
      exact starts
  | cons second before =>
      obtain ⟨rfl, later⟩ := List.cons.inj same
      exact threaded before id after later

end Threaded

/-- Taking one link after the other comes to an end, behind these nodes. -/
inductive Course (link : NodeId → Option NodeId) : Option NodeId → List NodeId → Prop where
  | ended : Course link none []
  | step {id : NodeId} {ids : List NodeId} :
      Course link (link id) ids → Course link (some id) (id :: ids)

namespace Course

variable {link : NodeId → Option NodeId} {start : Option NodeId} {ids : List NodeId}

theorem functional {other : List NodeId} (first : Course link start ids)
    (second : Course link start other) : ids = other := by
  induction first generalizing other with
  | ended =>
      cases second
      rfl
  | step _ ih =>
      cases second with
      | step later => rw [ih later]

theorem follow_eq (course : Course link start ids) {budget : Nat} (enough : ids.length ≤ budget) :
    follow link budget start = ids := by
  induction course generalizing budget with
  | ended => cases budget <;> rfl
  | step _ ih =>
      cases budget with
      | zero => exact absurd enough (Nat.not_succ_le_zero _)
      | succ budget => rw [follow, ih (Nat.le_of_succ_le_succ enough)]

end Course

namespace Threaded

variable {link : NodeId → Option NodeId} {ids : List NodeId}

theorem course (threaded : Threaded link ids) : Course link ids.head? ids := by
  induction ids with
  | nil => exact .ended
  | cons first rest ih =>
      have later := ih threaded.tail
      rw [← threaded.head] at later
      exact .step later

theorem follow_eq (threaded : Threaded link ids) {budget : Nat} (enough : ids.length ≤ budget) :
    follow link budget ids.head? = ids :=
  threaded.course.follow_eq enough

end Threaded

theorem length_le_size {tree : Tree} {ids : List NodeId} (once : ids.Nodup)
    (inside : ∀ id ∈ ids, id < tree.size) : ids.length ≤ tree.size := by
  have bound := once.length_le_of_subset fun id member => List.mem_range.mpr (inside id member)
  rwa [List.length_range] at bound

namespace Linked

variable {tree : Tree}

theorem inside_of_member (linked : Linked tree) {parent child : NodeId}
    (member : child ∈ tree.children parent) : child < tree.size :=
  inside_of_parent ((linked.mem_children_iff parent child).mp member)

theorem children_length (linked : Linked tree) (parent : NodeId) :
    (tree.children parent).length ≤ tree.size :=
  length_le_size (linked.nodup parent) fun _ member => linked.inside_of_member member

/-! Siblings. -/

section
variable {parent id : NodeId} {before after : List NodeId}

theorem next_threaded (linked : Linked tree)
    (split : tree.children parent = before ++ id :: after) :
    Threaded tree.next? (id :: after) := by
  intro front sibling back same
  apply linked.next_eq parent (before ++ front) sibling back
  rw [split, same, List.append_assoc]

theorem prev_threaded (linked : Linked tree)
    (split : tree.children parent = before ++ id :: after) :
    Threaded tree.prev? (id :: before.reverse) := by
  intro front sibling back same
  have turned : before ++ [id] = back.reverse ++ sibling :: front.reverse := by
    rw [← List.reverse_reverse (before ++ [id]), List.reverse_append, List.reverse_singleton,
      List.singleton_append, same]
    simp
  rw [← List.getLast?_reverse]
  apply linked.prev_eq parent back.reverse sibling (front.reverse ++ after)
  rw [split, List.append_cons, turned, List.append_assoc, List.cons_append]

theorem following_siblings_eq (linked : Linked tree)
    (split : tree.children parent = before ++ id :: after) :
    tree.followingSiblings id = after := by
  have threaded := linked.next_threaded split
  have bound := linked.children_length parent
  rw [split, List.length_append, List.length_cons] at bound
  rw [followingSiblings, threaded.head]
  exact threaded.tail.follow_eq (by omega)

theorem preceding_siblings_eq (linked : Linked tree)
    (split : tree.children parent = before ++ id :: after) :
    tree.precedingSiblings id = before.reverse := by
  have threaded := linked.prev_threaded split
  have bound := linked.children_length parent
  rw [split, List.length_append] at bound
  rw [precedingSiblings, threaded.head]
  exact threaded.tail.follow_eq (by rw [List.length_reverse]; omega)

theorem siblings_alone (linked : Linked tree) (noParent : tree.parent? id = none) :
    tree.followingSiblings id = [] ∧ tree.precedingSiblings id = [] := by
  have lone := linked.alone id noParent
  rw [followingSiblings, precedingSiblings, lone.1, lone.2]
  constructor <;> cases tree.size <;> rfl

/-- A node with a parent divides the children of that parent. -/
theorem children_split (linked : Linked tree) (link : tree.parent? id = some parent) :
    tree.children parent =
      (tree.precedingSiblings id).reverse ++ id :: tree.followingSiblings id := by
  obtain ⟨before, after, split⟩ :=
    List.append_of_mem ((linked.mem_children_iff parent id).mpr link)
  rw [linked.preceding_siblings_eq split, linked.following_siblings_eq split,
    List.reverse_reverse, split]

theorem parent_of_following (linked : Linked tree) {other : NodeId}
    (member : other ∈ tree.followingSiblings id) :
    ∃ parent, tree.parent? id = some parent ∧ tree.parent? other = some parent := by
  cases link : tree.parent? id with
  | none =>
      rw [(linked.siblings_alone link).1] at member
      cases member
  | some parent =>
      refine ⟨parent, rfl, (linked.mem_children_iff parent other).mp ?_⟩
      rw [linked.children_split link]
      simp [member]

theorem parent_of_preceding (linked : Linked tree) {other : NodeId}
    (member : other ∈ tree.precedingSiblings id) :
    ∃ parent, tree.parent? id = some parent ∧ tree.parent? other = some parent := by
  cases link : tree.parent? id with
  | none =>
      rw [(linked.siblings_alone link).2] at member
      cases member
  | some parent =>
      refine ⟨parent, rfl, (linked.mem_children_iff parent other).mp ?_⟩
      rw [linked.children_split link]
      simp [member]

theorem elements_split (linked : Linked tree)
    (link : tree.parent? id = some parent) (element : tree.isElement id = true) :
    tree.elementChildren parent =
      (tree.precedingSiblings id).reverse.filter tree.isElement ++
        id :: (tree.followingSiblings id).filter tree.isElement := by
  rw [elementChildren, linked.children_split link, List.filter_append,
    List.filter_cons_of_pos element]

theorem nodup_elements (linked : Linked tree) (id : NodeId) : (tree.elementChildren id).Nodup :=
  (linked.nodup id).filter tree.isElement

theorem parent_of_element (linked : Linked tree)
    (member : id ∈ tree.elementChildren parent) :
    tree.parent? id = some parent ∧ tree.isElement id = true := by
  obtain ⟨isChild, element⟩ := List.mem_filter.mp member
  exact ⟨(linked.mem_children_iff parent id).mp isChild, element⟩

/-- Where a node stands behind another, the siblings of both lie in one list. -/
theorem following_split (linked : Linked tree) {other : NodeId} {between after : List NodeId}
    (split : tree.followingSiblings id = between ++ other :: after) :
    tree.precedingSiblings other = between.reverse ++ id :: tree.precedingSiblings id ∧
      tree.followingSiblings other = after := by
  have member : other ∈ tree.followingSiblings id := by rw [split]; simp
  obtain ⟨parent, link, -⟩ := linked.parent_of_following member
  have whole := linked.children_split link
  rw [split, ← List.cons_append, ← List.append_assoc] at whole
  rw [linked.preceding_siblings_eq whole, linked.following_siblings_eq whole]
  simp

theorem preceding_split (linked : Linked tree) {other : NodeId} {between before : List NodeId}
    (split : tree.precedingSiblings id = between ++ other :: before) :
    tree.followingSiblings other = between.reverse ++ id :: tree.followingSiblings id := by
  have member : other ∈ tree.precedingSiblings id := by rw [split]; simp
  obtain ⟨parent, link, -⟩ := linked.parent_of_preceding member
  have whole := linked.children_split link
  rw [split, List.reverse_append, List.reverse_cons, List.append_assoc, List.append_assoc] at whole
  exact linked.following_siblings_eq whole

/-- Before and behind are the two views of one order. -/
theorem mem_preceding_iff (linked : Linked tree) {other : NodeId} :
    other ∈ tree.precedingSiblings id ↔ id ∈ tree.followingSiblings other := by
  constructor
  · intro member
    obtain ⟨between, before, split⟩ := List.append_of_mem member
    rw [linked.preceding_split split]
    simp
  · intro member
    obtain ⟨between, after, split⟩ := List.append_of_mem member
    rw [(linked.following_split split).1]
    simp

theorem following_trans (linked : Linked tree) {middle last : NodeId}
    (first : middle ∈ tree.followingSiblings id) (second : last ∈ tree.followingSiblings middle) :
    last ∈ tree.followingSiblings id := by
  obtain ⟨between, after, split⟩ := List.append_of_mem first
  rw [(linked.following_split split).2] at second
  rw [split]
  simp [second]

/-- The nearest sibling of a kind looks back to the node that it is nearest to. -/
theorem nearest_sibling_iff (linked : Linked tree) (kind : NodeId → Bool) {other : NodeId}
    (here : kind id = true) (there : kind other = true) :
    (tree.followingSiblings id).find? kind = some other ↔
      (tree.precedingSiblings other).find? kind = some id := by
  constructor
  · intro found
    obtain ⟨-, between, after, split, skipped⟩ := List.find?_eq_some_iff_append.mp found
    rw [(linked.following_split split).1, List.find?_eq_some_iff_append]
    refine ⟨here, between.reverse, _, rfl, ?_⟩
    exact fun sibling member => skipped sibling (List.mem_reverse.mp member)
  · intro found
    obtain ⟨-, between, before, split, skipped⟩ := List.find?_eq_some_iff_append.mp found
    rw [linked.preceding_split split, List.find?_eq_some_iff_append]
    refine ⟨there, between.reverse, _, rfl, ?_⟩
    exact fun sibling member => skipped sibling (List.mem_reverse.mp member)

end

/-! Ancestors. -/

/-- The chain from a node to the top of its tree. -/
theorem exists_path (linked : Linked tree) {rank : NodeId → Nat}
    (climbs : ∀ id parent, tree.parent? id = some parent → rank parent < rank id) (id : NodeId) :
    ∃ path, tree.parent? id = path.head? ∧ Threaded tree.parent? path ∧ path.Nodup ∧
      ∀ above ∈ path, rank above < rank id ∧ above < tree.size := by
  induction height : rank id using Nat.strongRecOn generalizing id with
  | ind height ih =>
      -- The path of the parent has smaller ranks than the parent, so the parent is not on it.
      cases link : tree.parent? id with
      | none =>
          have empty : Threaded tree.parent? [] := fun before id after same => by simp at same
          exact ⟨[], rfl, empty, List.nodup_nil, by simp⟩
      | some parent =>
          have lower := climbs id parent link
          obtain ⟨path, starts, threaded, once, above⟩ := ih _ (height ▸ lower) parent rfl
          have inside : parent < tree.size :=
            inside_of_child ((linked.mem_children_iff parent id).mpr link)
          refine ⟨parent :: path, rfl, .cons starts threaded, ?_, ?_⟩
          · rw [List.nodup_cons]
            exact ⟨fun member => Nat.lt_irrefl _ (above parent member).1, once⟩
          · intro other member
            rcases List.mem_cons.mp member with rfl | member
            · exact ⟨height ▸ lower, inside⟩
            · exact ⟨height ▸ Nat.lt_trans (above other member).1 lower, (above other member).2⟩

theorem ancestors_path (linked : Linked tree) (id : NodeId) :
    tree.parent? id = (tree.ancestors id).head? ∧ Threaded tree.parent? (tree.ancestors id) ∧
      (tree.ancestors id).Nodup ∧ id ∉ tree.ancestors id ∧
      ∀ above ∈ tree.ancestors id, above < tree.size := by
  obtain ⟨rank, climbs⟩ := linked.acyclic
  obtain ⟨path, starts, threaded, once, above⟩ := linked.exists_path climbs id
  have same : tree.ancestors id = path := by
    rw [ancestors, starts]
    exact threaded.follow_eq (length_le_size once fun other member => (above other member).2)
  rw [same]
  exact ⟨starts, threaded, once, fun member => Nat.lt_irrefl _ (above id member).1,
    fun other member => (above other member).2⟩

theorem ancestors_none (linked : Linked tree) {id : NodeId} (link : tree.parent? id = none) :
    tree.ancestors id = [] := by
  have starts := (linked.ancestors_path id).1
  rw [link] at starts
  exact List.head?_eq_none_iff.mp starts.symm

theorem ancestors_some (linked : Linked tree) {id parent : NodeId}
    (link : tree.parent? id = some parent) :
    tree.ancestors id = parent :: tree.ancestors parent := by
  have path := linked.ancestors_path id
  cases above : tree.ancestors id with
  | nil =>
      rw [above, link] at path
      cases path.1
  | cons first rest =>
      rw [above, link] at path
      obtain rfl : parent = first := Option.some.inj path.1
      have once := length_le_size path.2.2.1 path.2.2.2.2
      rw [List.length_cons] at once
      rw [ancestors, path.2.1.head, path.2.1.tail.follow_eq (by omega)]

theorem ancestors_length (linked : Linked tree) (id : NodeId) :
    (tree.ancestors id).length ≤ tree.size := by
  have path := linked.ancestors_path id
  exact length_le_size path.2.2.1 path.2.2.2.2

theorem top_some (linked : Linked tree) {id parent : NodeId}
    (link : tree.parent? id = some parent) : tree.top id = tree.top parent := by
  rw [top, linked.ancestors_some link, List.getLast?_cons]
  rfl

/-- What passes from parents to children holds of every node. -/
theorem up_induction (linked : Linked tree) {property : NodeId → Prop}
    (step : ∀ id, (∀ parent, tree.parent? id = some parent → property parent) → property id)
    (id : NodeId) : property id := by
  obtain ⟨rank, climbs⟩ := linked.acyclic
  induction height : rank id using Nat.strongRecOn generalizing id with
  | ind height ih =>
      apply step
      intro parent link
      exact ih _ (height ▸ climbs id parent link) parent rfl

/-- What passes from children to parents holds of every node. -/
theorem down_induction (linked : Linked tree) {property : NodeId → Prop}
    (step : ∀ id, (∀ child ∈ tree.children id, property child) → property id)
    (id : NodeId) : property id := by
  induction left : tree.size - (tree.ancestors id).length using Nat.strongRecOn
    generalizing id with
  | ind left ih =>
      -- The chain of a child is longer by one, and no chain is longer than the tree is large.
      apply step
      intro child member
      have longer := linked.ancestors_some ((linked.mem_children_iff id child).mp member)
      have bound := linked.ancestors_length child
      rw [longer, List.length_cons] at bound
      apply ih _ _ child rfl
      rw [longer, List.length_cons]
      omega

theorem mem_ancestors_iff (linked : Linked tree) {id above : NodeId} :
    above ∈ tree.ancestors id ↔
      ∃ parent, tree.parent? id = some parent ∧
        (above = parent ∨ above ∈ tree.ancestors parent) := by
  cases link : tree.parent? id with
  | none => simp [linked.ancestors_none link]
  | some parent => simp [linked.ancestors_some link]

theorem ancestor_trans (linked : Linked tree) {low middle high : NodeId}
    (first : middle ∈ tree.ancestors low) (second : high ∈ tree.ancestors middle) :
    high ∈ tree.ancestors low := by
  revert first
  apply @up_induction tree linked fun low =>
    middle ∈ tree.ancestors low → high ∈ tree.ancestors low
  intro low ih member
  rcases linked.mem_ancestors_iff.mp member with ⟨parent, link, rfl | above⟩
  · exact linked.mem_ancestors_iff.mpr ⟨middle, link, .inr second⟩
  · exact linked.mem_ancestors_iff.mpr ⟨parent, link, .inr (ih parent link above)⟩

theorem not_ancestor_self (linked : Linked tree) (id : NodeId) : id ∉ tree.ancestors id :=
  (linked.ancestors_path id).2.2.2.1

end Linked

theorem is_descendant_of_iff (tree : Tree) (id ancestor : NodeId) :
    tree.isDescendantOf id ancestor = true ↔ ancestor ∈ tree.ancestors id :=
  List.contains_iff_mem

end TreeSelect.Tree
