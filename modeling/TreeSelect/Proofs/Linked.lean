import TreeSelect.Tree.Build
import TreeSelect.Tree.Navigation

/-!
Trees whose links agree. A tree is built by allocating nodes, by appending new ones and by
attaching detached ones outside their own subtree; reading a dump does nothing else. In such
a tree the lists of children, the parents and the links between siblings tell one story, and
no chain of parents runs in a circle. Nothing is said of trees put together by hand.
-/

namespace TreeSelect.Tree

/-- The node itself and everything that hangs below it. -/
inductive Within (tree : Tree) (top : NodeId) : NodeId → Prop where
  | top : Within tree top top
  | child {id below : NodeId} :
      Within tree top id → below ∈ tree.children id → Within tree top below

/-- What a tree can be built by. A node that is attached is detached before, and the parent
that it is attached to does not lie in its subtree. -/
inductive Built : Tree → Prop where
  | empty : Built empty
  | loaded {text : String} {tree : Tree} : load text = .ok tree → Built tree
  | alloc {tree : Tree} (content : Content) : Built tree → Built (tree.alloc content)
  | append {tree : Tree} {parent : NodeId} (content : Content) :
      Built tree → parent < tree.size → Built (tree.append parent content)
  | attach {tree : Tree} {parent child : NodeId} :
      Built tree → parent < tree.size → child < tree.size → tree.parent? child = none →
      ¬ Within tree child parent → Built (tree.attach parent child)

structure Linked (tree : Tree) : Prop where
  mem_children_iff : ∀ parent child,
    child ∈ tree.children parent ↔ tree.parent? child = some parent
  nodup : ∀ id, (tree.children id).Nodup
  next_eq : ∀ parent before id after,
    tree.children parent = before ++ id :: after → tree.next? id = after.head?
  prev_eq : ∀ parent before id after,
    tree.children parent = before ++ id :: after → tree.prev? id = before.getLast?
  alone : ∀ id, tree.parent? id = none → tree.next? id = none ∧ tree.prev? id = none
  acyclic : ∃ rank : NodeId → Nat, ∀ id parent, tree.parent? id = some parent →
    rank parent < rank id

/-! One step at a time: what becomes of each node. -/

theorem get_modify (tree : Tree) (id : NodeId) (change : Node → Node) (other : NodeId) :
    (tree.modify id change).get? other =
      (tree.get? other).map fun node => if other = id then change node else node := by
  have here : (tree.modify id change).get? other =
      if id = other then (tree.get? other).map change else tree.get? other :=
    Array.getElem?_modify
  rw [here]
  by_cases same : other = id
  · simp [same]
  · have different : ¬ id = other := fun equal => same equal.symm
    simp [same, different]

theorem size_modify (tree : Tree) (id : NodeId) (change : Node → Node) :
    (tree.modify id change).size = tree.size :=
  Array.size_modify

/-- The four links of a node after the child was attached to the parent. -/
theorem get_attach (tree : Tree) (parent child id : NodeId) :
    (tree.attach parent child).get? id = (tree.get? id).map fun node =>
      { content := node.content
        parent := if id = child then some parent else node.parent
        children := if id = parent then node.children ++ [child] else node.children
        next := if tree.lastChild? parent = some id then some child else node.next
        prev := if id = child then tree.lastChild? parent else node.prev } := by
  unfold attach
  cases tree.lastChild? parent with
  | none =>
      simp only [get_modify, Option.map_map]
      congr 1
      funext node
      simp only [Function.comp_apply, reduceCtorEq, if_false]
      split <;> split <;> rfl
  | some last =>
      simp only [get_modify, Option.map_map]
      congr 1
      funext node
      simp only [Function.comp_apply, Option.some.injEq, eq_comm]
      split <;> split <;> split <;> rfl

theorem size_attach (tree : Tree) (parent child : NodeId) :
    (tree.attach parent child).size = tree.size := by
  unfold attach
  cases tree.lastChild? parent with
  | none => simp only [size_modify]
  | some last => simp only [size_modify]

theorem size_alloc (tree : Tree) (content : Content) :
    (tree.alloc content).size = tree.size + 1 :=
  Array.size_push ..

theorem size_append (tree : Tree) (parent : NodeId) (content : Content) :
    (tree.append parent content).size = tree.size + 1 := by
  rw [append, size_attach, size_alloc]

theorem get_none {tree : Tree} {id : NodeId} (outside : tree.size ≤ id) : tree.get? id = none :=
  Array.getElem?_eq_none outside

theorem get_some {tree : Tree} {id : NodeId} (inside : id < tree.size) :
    ∃ node, tree.get? id = some node :=
  ⟨_, Array.getElem?_eq_getElem inside⟩

theorem inside_of_parent {tree : Tree} {id parent : NodeId}
    (parentOf : tree.parent? id = some parent) : id < tree.size := by
  apply Nat.lt_of_not_le
  intro outside
  rw [parent?, get_none outside] at parentOf
  cases parentOf

theorem inside_of_child {tree : Tree} {id child : NodeId} (member : child ∈ tree.children id) :
    id < tree.size := by
  apply Nat.lt_of_not_le
  intro outside
  rw [children, get_none outside] at member
  cases member

/-! The links after the child was attached to the parent, both of them in the tree. -/

section
variable {tree : Tree} {parent child : NodeId}

theorem parent_attach (inside : child < tree.size) (id : NodeId) :
    (tree.attach parent child).parent? id =
      if id = child then some parent else tree.parent? id := by
  simp only [parent?, get_attach]
  by_cases same : id = child
  · obtain ⟨node, found⟩ := get_some inside
    simp [same, found]
  · cases tree.get? id <;> simp [same]

theorem children_attach (inside : parent < tree.size) (id : NodeId) :
    (tree.attach parent child).children id =
      if id = parent then tree.children parent ++ [child] else tree.children id := by
  simp only [children, get_attach]
  by_cases same : id = parent
  · obtain ⟨node, found⟩ := get_some inside
    simp [same, found]
  · cases tree.get? id <;> simp [same]

theorem prev_attach (inside : child < tree.size) (id : NodeId) :
    (tree.attach parent child).prev? id =
      if id = child then tree.lastChild? parent else tree.prev? id := by
  simp only [prev?, get_attach]
  by_cases same : id = child
  · obtain ⟨node, found⟩ := get_some inside
    simp [same, found]
  · cases tree.get? id <;> simp [same]

theorem next_attach (id : NodeId)
    (inside : ∀ last, tree.lastChild? parent = some last → last < tree.size) :
    (tree.attach parent child).next? id =
      if tree.lastChild? parent = some id then some child else tree.next? id := by
  simp only [next?, get_attach]
  by_cases last : tree.lastChild? parent = some id
  · obtain ⟨node, found⟩ := get_some (inside id last)
    simp [last, found]
  · cases tree.get? id <;> simp [last]

end

/-! A detached node has the links of no node at all, so allocation changes none. -/

theorem get_alloc (tree : Tree) (content : Content) (id : NodeId) :
    (tree.alloc content).get? id =
      if id = tree.size then some (Node.detached content) else tree.get? id :=
  Array.getElem?_push

section
variable (tree : Tree) (content : Content) (id : NodeId)

theorem bind_alloc {Value : Type} (link : Node → Option Value)
    (bare : link (Node.detached content) = none) :
    ((tree.alloc content).get? id).bind link = (tree.get? id).bind link := by
  rw [get_alloc]
  by_cases new : id = tree.size
  · rw [if_pos new, get_none (Nat.le_of_eq new.symm)]
    exact bare
  · rw [if_neg new]

theorem parent_alloc : (tree.alloc content).parent? id = tree.parent? id :=
  bind_alloc tree content id Node.parent rfl

theorem next_alloc : (tree.alloc content).next? id = tree.next? id :=
  bind_alloc tree content id Node.next rfl

theorem prev_alloc : (tree.alloc content).prev? id = tree.prev? id :=
  bind_alloc tree content id Node.prev rfl

theorem children_alloc : (tree.alloc content).children id = tree.children id := by
  rw [children, children, get_alloc]
  by_cases new : id = tree.size
  · rw [if_pos new, get_none (Nat.le_of_eq new.symm)]
    rfl
  · rw [if_neg new]

end

/-- What is put below the document: its children, or a top that is no document by itself. -/
def belowDocument : Dump → List Dump
  | .document children => children
  | other => [other]

theorem of_dump_eq (dump : Dump) : ofDump dump = empty.addDumps rootId (belowDocument dump) := by
  have alone : ∀ other, empty.addDumps rootId [other] = empty.addDump rootId other := by
    intro other
    rw [addDumps]
    cases empty.addDump rootId other <;> rfl
  cases dump with
  | document children => rfl
  | element tag attributes children => exact (alone _).symm
  | text content => exact (alone _).symm
  | comment content => exact (alone _).symm

namespace Linked

theorem empty : Linked Tree.empty := by
  have bare : ∀ id, Tree.empty.get? id = none ∨
      Tree.empty.get? id = some (Node.detached .document) := by
    intro id
    cases id with
    | zero => exact .inr rfl
    | succ id => exact .inl (get_none (Nat.le_add_left 1 id))
  have noChildren : ∀ id, Tree.empty.children id = [] := by
    intro id
    rcases bare id with found | found <;> rw [children, found] <;> rfl
  have noParent : ∀ id, Tree.empty.parent? id = none := by
    intro id
    rcases bare id with found | found <;> rw [parent?, found] <;> rfl
  constructor
  · intro parent child
    simp [noChildren, noParent]
  · intro id
    rw [noChildren]
    exact List.nodup_nil
  · intro parent before id after split
    simp [noChildren] at split
  · intro parent before id after split
    simp [noChildren] at split
  · intro id _
    rcases bare id with found | found <;> rw [next?, prev?, found] <;> exact ⟨rfl, rfl⟩
  · exact ⟨fun _ => 0, fun id parent link => by rw [noParent] at link; cases link⟩

theorem alloc {tree : Tree} (linked : Linked tree) (content : Content) :
    Linked (tree.alloc content) where
  mem_children_iff parent child := by
    rw [children_alloc, parent_alloc]
    exact linked.mem_children_iff parent child
  nodup id := by
    rw [children_alloc]
    exact linked.nodup id
  next_eq parent before id after split := by
    rw [children_alloc] at split
    rw [next_alloc]
    exact linked.next_eq parent before id after split
  prev_eq parent before id after split := by
    rw [children_alloc] at split
    rw [prev_alloc]
    exact linked.prev_eq parent before id after split
  alone id noParent := by
    rw [parent_alloc] at noParent
    rw [next_alloc, prev_alloc]
    exact linked.alone id noParent
  acyclic := by
    obtain ⟨rank, climbs⟩ := linked.acyclic
    refine ⟨rank, fun id parent link => climbs id parent ?_⟩
    rwa [parent_alloc] at link

/-! Attaching. -/

section
variable {tree : Tree} {parent child : NodeId}

theorem last_parent (linked : Linked tree) {last : NodeId}
    (found : tree.lastChild? parent = some last) : tree.parent? last = some parent :=
  (linked.mem_children_iff parent last).mp (List.mem_of_getLast? found)

theorem not_last (linked : Linked tree) {id : NodeId}
    (elsewhere : tree.parent? id ≠ some parent) : tree.lastChild? parent ≠ some id :=
  fun found => elsewhere (linked.last_parent found)

theorem absent (linked : Linked tree) (detached : tree.parent? child = none) (id : NodeId) :
    child ∉ tree.children id := by
  intro member
  have link := (linked.mem_children_iff id child).mp member
  rw [detached] at link
  cases link

theorem within_parent (linked : Linked tree) {id above : NodeId} (within : Within tree child id)
    (below : id ≠ child) (link : tree.parent? id = some above) : Within tree child above := by
  cases within with
  | top => exact absurd rfl below
  | @child middle _ within member =>
      have same := (linked.mem_children_iff middle id).mp member
      rw [link] at same
      rwa [Option.some.inj same]

/-- The subtree that is moved is lifted above all ranks of the place that it is moved to. -/
theorem acyclic_attach (linked : Linked tree) (inChild : child < tree.size)
    (apart : ¬ Within tree child parent) :
    ∃ rank : NodeId → Nat, ∀ id above,
      (tree.attach parent child).parent? id = some above → rank above < rank id := by
  classical
  obtain ⟨rank, climbs⟩ := linked.acyclic
  refine ⟨fun id => if Within tree child id then rank id + rank parent + 1 else rank id, ?_⟩
  intro id above link
  rw [parent_attach inChild] at link
  by_cases isChild : id = child
  · rw [if_pos isChild] at link
    obtain rfl : parent = above := Option.some.inj link
    have within : Within tree child id := isChild ▸ .top
    simp only [within, apart, if_true, if_false]
    omega
  · rw [if_neg isChild] at link
    have lower := climbs id above link
    by_cases within : Within tree child id
    · have above' := linked.within_parent within isChild link
      simp only [within, above', if_true]
      omega
    · have outside : ¬ Within tree child above := by
        intro inside
        exact within (.child inside ((linked.mem_children_iff above id).mpr link))
      simpa only [within, outside, if_false] using lower

/-- The last entry of a longer list is the new one, and every other entry is an old one. -/
theorem split_concat {ids before after : List NodeId} {last id : NodeId}
    (split : ids ++ [last] = before ++ id :: after) :
    (after = [] ∧ id = last ∧ before = ids) ∨
      ∃ rest, after = rest ++ [last] ∧ ids = before ++ id :: rest := by
  rcases List.eq_nil_or_concat after with rfl | ⟨rest, final, rfl⟩
  · have both := List.append_inj' split rfl
    exact .inl ⟨rfl, (List.cons.inj both.2).1.symm, both.1.symm⟩
  · rw [List.concat_eq_append, ← List.cons_append, ← List.append_assoc] at split
    have both := List.append_inj' split rfl
    have same := (List.cons.inj both.2).1
    exact .inr ⟨rest, by rw [List.concat_eq_append, same], both.1⟩

theorem next_eq_attach (linked : Linked tree) (inParent : parent < tree.size)
    (detached : tree.parent? child = none) (id : NodeId) (before : List NodeId)
    (sibling : NodeId) (after : List NodeId)
    (split : (tree.attach parent child).children id = before ++ sibling :: after) :
    (tree.attach parent child).next? sibling = after.head? := by
  rw [children_attach inParent] at split
  rw [next_attach sibling fun last found => inside_of_parent (linked.last_parent found)]
  by_cases isParent : id = parent
  · rw [if_pos isParent] at split
    rcases split_concat split with ⟨rfl, rfl, -⟩ | ⟨rest, rfl, old⟩
    · -- The new child is the last entry and had no siblings.
      rw [if_neg (linked.not_last (by simp [detached]))]
      exact (linked.alone sibling detached).1
    · cases rest with
      | nil =>
          -- What was the last child is linked to the new one.
          have last : tree.lastChild? parent = some sibling := by simp [lastChild?, old]
          rw [if_pos last]
          rfl
      | cons second rest =>
          -- A child with others behind it is not the last, since no child is listed twice.
          have other : tree.lastChild? parent ≠ some sibling := by
            intro found
            have once := linked.nodup parent
            rw [old, List.nodup_append, List.nodup_cons] at once
            rw [lastChild?, old] at found
            have later : (second :: rest).getLast? = some sibling := by simpa using found
            exact once.2.1.1 (List.mem_of_getLast? later)
          rw [if_neg other, linked.next_eq parent before sibling _ old]
          rfl
  · rw [if_neg isParent] at split
    have link : tree.parent? sibling = some id := by
      apply (linked.mem_children_iff id sibling).mp
      rw [split]
      simp
    have elsewhere : tree.parent? sibling ≠ some parent := by
      rw [link]
      exact fun same => isParent (Option.some.inj same)
    rw [if_neg (linked.not_last elsewhere)]
    exact linked.next_eq id before sibling after split

theorem prev_eq_attach (linked : Linked tree) (inParent : parent < tree.size)
    (inChild : child < tree.size) (detached : tree.parent? child = none) (id : NodeId)
    (before : List NodeId) (sibling : NodeId) (after : List NodeId)
    (split : (tree.attach parent child).children id = before ++ sibling :: after) :
    (tree.attach parent child).prev? sibling = before.getLast? := by
  -- Only the new child is linked back anew, and it was in no list of children before.
  have old : ∀ above rest, tree.children above = before ++ sibling :: rest → sibling ≠ child := by
    rintro above rest found rfl
    exact linked.absent detached above (by rw [found]; simp)
  rw [children_attach inParent] at split
  rw [prev_attach inChild]
  by_cases isParent : id = parent
  · rw [if_pos isParent] at split
    rcases split_concat split with ⟨-, isChild, same⟩ | ⟨rest, -, found⟩
    · rw [if_pos isChild, same]
      rfl
    · rw [if_neg (old parent rest found)]
      exact linked.prev_eq parent before sibling rest found
  · rw [if_neg isParent] at split
    rw [if_neg (old id after split)]
    exact linked.prev_eq id before sibling after split

theorem attach (linked : Linked tree) (inParent : parent < tree.size)
    (inChild : child < tree.size) (detached : tree.parent? child = none)
    (apart : ¬ Within tree child parent) : Linked (tree.attach parent child) where
  mem_children_iff id member := by
    rw [children_attach inParent, parent_attach inChild]
    by_cases isParent : id = parent <;> by_cases isChild : member = child
    · simp [isParent, isChild]
    · simp [isParent, isChild, linked.mem_children_iff]
    · have no := linked.absent detached id
      have other : ¬ parent = id := fun same => isParent same.symm
      simp [isParent, isChild, no, other]
    · simp [isParent, isChild, linked.mem_children_iff]
  nodup id := by
    rw [children_attach inParent]
    by_cases isParent : id = parent
    · rw [if_pos isParent, List.nodup_append]
      refine ⟨linked.nodup parent, by simp, ?_⟩
      intro old member new isNew
      rw [List.mem_singleton.mp isNew]
      rintro rfl
      exact linked.absent detached parent member
    · rw [if_neg isParent]
      exact linked.nodup id
  next_eq := linked.next_eq_attach inParent detached
  prev_eq := linked.prev_eq_attach inParent inChild detached
  alone id noParent := by
    rw [parent_attach inChild] at noParent
    by_cases isChild : id = child
    · rw [if_pos isChild] at noParent
      cases noParent
    · rw [if_neg isChild] at noParent
      have other := @not_last tree parent linked id (by simp [noParent])
      rw [next_attach id fun last found => inside_of_parent (linked.last_parent found),
        prev_attach inChild, if_neg isChild, if_neg other]
      exact linked.alone id noParent
  acyclic := linked.acyclic_attach inChild apart

/-- A detached node lies in no subtree but its own. -/
theorem within_detached (linked : Linked tree) {top id : NodeId}
    (detached : tree.parent? id = none) (within : Within tree top id) : id = top := by
  cases within with
  | top => rfl
  | @child middle _ _ member => exact absurd member (linked.absent detached middle)

theorem within_leaf {top id : NodeId} (leaf : tree.children top = [])
    (within : Within tree top id) : id = top := by
  induction within with
  | top => rfl
  | child _ member ih =>
      rw [ih, leaf] at member
      cases member

/-- A node that was just allocated has neither a parent nor a subtree. -/
theorem append (linked : Linked tree) (content : Content) (inParent : parent < tree.size) :
    Linked (tree.append parent content) := by
  have grown := size_alloc tree content
  have inParent' : parent < (tree.alloc content).size := grown ▸ Nat.lt_succ_of_lt inParent
  have inChild : tree.size < (tree.alloc content).size := by omega
  apply (linked.alloc content).attach inParent' inChild
  · rw [parent_alloc, parent?, get_none (Nat.le_refl _)]
    rfl
  · intro within
    have leaf : (tree.alloc content).children tree.size = [] := by
      rw [children_alloc, children, get_none (Nat.le_refl _)]
      rfl
    have same := within_leaf leaf within
    exact Nat.lt_irrefl _ (same ▸ inParent)

end

/-! Reading a dump appends, and nothing else. -/

mutual
theorem add_dump {tree result : Tree} {parent : NodeId} (linked : Linked tree)
    (inParent : parent < tree.size) : (dump : Dump) → tree.addDump parent dump = .ok result →
      Linked result ∧ tree.size ≤ result.size
  | .document _, added => by
      rw [addDump] at added
      cases added
  | .element tag attributes children, added => by
      rw [addDump] at added
      split at added
      · cases added
      · next attributes _ =>
        have grown := size_append tree parent (.element ⟨tag, attributes⟩)
        have inside : tree.size < (tree.append parent (.element ⟨tag, attributes⟩)).size := by
          omega
        have below := (linked.append _ inParent).add_dumps inside children added
        exact ⟨below.1, by omega⟩
  | .text content, added => by
      rw [addDump] at added
      cases added
      exact ⟨linked.append _ inParent, by rw [size_append]; omega⟩
  | .comment content, added => by
      rw [addDump] at added
      cases added
      exact ⟨linked.append _ inParent, by rw [size_append]; omega⟩

theorem add_dumps {tree result : Tree} {parent : NodeId} (linked : Linked tree)
    (inParent : parent < tree.size) : (dumps : List Dump) →
      tree.addDumps parent dumps = .ok result → Linked result ∧ tree.size ≤ result.size
  | [], added => by
      rw [addDumps] at added
      cases added
      exact ⟨linked, Nat.le_refl _⟩
  | first :: rest, added => by
      rw [addDumps] at added
      split at added
      · cases added
      · next middle here =>
        have step := linked.add_dump inParent first here
        have later := step.1.add_dumps (Nat.lt_of_lt_of_le inParent step.2) rest added
        exact ⟨later.1, Nat.le_trans step.2 later.2⟩
end

theorem of_dump {dump : Dump} {tree : Tree} (read : ofDump dump = .ok tree) : Linked tree := by
  have inRoot : rootId < Tree.empty.size := Nat.zero_lt_one
  rw [of_dump_eq] at read
  exact (empty.add_dumps inRoot _ read).1

theorem loaded {text : String} {tree : Tree} (read : load text = .ok tree) : Linked tree := by
  unfold load at read
  split at read
  · cases read
  · exact of_dump read

end Linked

/-- Every tree that was built is linked, by the steps that it was built by. -/
theorem Built.linked {tree : Tree} (built : Built tree) : Linked tree := by
  induction built with
  | empty => exact .empty
  | loaded read => exact .loaded read
  | alloc content _ ih => exact ih.alloc content
  | append content _ inParent ih => exact ih.append content inParent
  | attach _ inParent inChild detached apart ih =>
      exact ih.attach inParent inChild detached apart

/-- A list that is put together first and hung below the document then. Its text holds an
element, which nothing forbids. -/
def graftedList : Tree :=
  (((((Tree.empty.alloc (.element ⟨"ul", []⟩)).append 1 (.element ⟨"li", []⟩)).append 1
    (.text "and")).append 3 (.element ⟨"b", []⟩)).append 1 (.element ⟨"li", []⟩)).attach rootId 1

theorem grafted_list_built : graftedList.Built := by
  have list : Built _ :=
    ((((Built.empty.alloc (.element ⟨"ul", []⟩)).append (.element ⟨"li", []⟩)
      (show 1 < _ by decide)).append (.text "and") (show 1 < _ by decide)).append
      (.element ⟨"b", []⟩) (show 3 < _ by decide)).append (.element ⟨"li", []⟩)
      (show 1 < _ by decide)
  apply list.attach (by decide) (by decide) (by decide)
  intro within
  exact absurd (list.linked.within_detached (by decide) within) (by decide)

end TreeSelect.Tree
