import TreeSelect.Proofs.Chains

/-!
Trees over their whole history. A history starts with the bare document or with a dump that was
read, and each edit is made on a tree that admits it. Whatever the edits were, every link of a
node agrees with those of its neighbours. One link is not settled by that: the document node is
the top and should have no parent, but it is detached, and nothing keeps an edit from attaching
it like any other node.
-/

namespace TreeSelect.Tree

inductive Edit where
  | alloc (content : Content)
  | append (parent : NodeId) (content : Content)
  | attach (parent child : NodeId)

def Edit.apply (tree : Tree) : Edit → Tree
  | .alloc content => tree.alloc content
  | .append parent content => tree.append parent content
  | .attach parent child => tree.attach parent child

/-- Only nodes of the tree are named, and a child is detached and does not hold the parent. -/
def Edit.Admitted (tree : Tree) : Edit → Prop
  | .alloc _ => True
  | .append parent _ => parent < tree.size
  | .attach parent child =>
      parent < tree.size ∧ child < tree.size ∧ tree.parent? child = none ∧
        ¬ Within tree child parent

def edited (tree : Tree) : List Edit → Tree
  | [] => tree
  | edit :: rest => (edit.apply tree).edited rest

/-- Each edit is admitted by the tree as the edits before it left it. -/
def Admits (tree : Tree) : List Edit → Prop
  | [] => True
  | edit :: rest => edit.Admitted tree ∧ (edit.apply tree).Admits rest

/-- What the links of a tree say about one another. -/
structure Consistent (tree : Tree) : Prop where
  document : (tree.get? rootId).map Node.content = some .document
  inside : ∀ id node, tree.get? id = some node → ∀ other,
    (node.parent = some other ∨ other ∈ node.children ∨ node.next = some other ∨
      node.prev = some other) → other < tree.size
  mem_children_iff : ∀ parent child,
    child ∈ tree.children parent ↔ tree.parent? child = some parent
  once : ∀ parent child, child ∈ tree.children parent →
    (tree.children parent).count child = 1 ∧
      ∀ other, child ∈ tree.children other → other = parent
  neighbours : ∀ parent before first second after,
    tree.children parent = before ++ first :: second :: after →
      tree.next? first = some second ∧ tree.prev? second = some first
  first : ∀ parent id, (tree.children parent).head? = some id → tree.prev? id = none
  last : ∀ parent id, (tree.children parent).getLast? = some id → tree.next? id = none
  alone : ∀ id, tree.parent? id = none → tree.next? id = none ∧ tree.prev? id = none
  /-- From each node the parents lead up without a repeat to one that has none. -/
  chain : ∀ id, Threaded tree.parent? (id :: tree.ancestors id) ∧
    (id :: tree.ancestors id).Nodup

/-! Linked trees are consistent. -/

namespace Linked

variable {tree : Tree}

theorem sibling_inside (linked : Linked tree) {id other : NodeId}
    (found : tree.next? id = some other ∨ tree.prev? id = some other) : other < tree.size := by
  cases link : tree.parent? id with
  | none => simp [linked.alone id link] at found
  | some parent =>
      -- Both siblings stand in the list that the node stands in.
      have whole := linked.children_split link
      apply @inside_of_member tree linked parent other
      rw [whole]
      rcases found with next | prev
      · rw [linked.next_eq parent _ id _ whole] at next
        exact List.mem_append_right _ (List.mem_cons_of_mem id (List.mem_of_head? next))
      · rw [linked.prev_eq parent _ id _ whole] at prev
        exact List.mem_append_left _ (List.mem_of_getLast? prev)

theorem links_inside (linked : Linked tree) {id other : NodeId} {node : Node}
    (found : tree.get? id = some node)
    (named : node.parent = some other ∨ other ∈ node.children ∨ node.next = some other ∨
      node.prev = some other) : other < tree.size := by
  have links : tree.parent? id = node.parent ∧ tree.children id = node.children ∧
      tree.next? id = node.next ∧ tree.prev? id = node.prev := by
    simp [parent?, children, next?, prev?, found]
  rcases named with parent | child | next | prev
  · rw [← links.1] at parent
    exact inside_of_child ((linked.mem_children_iff other id).mpr parent)
  · rw [← links.2.1] at child
    exact linked.inside_of_member child
  · exact linked.sibling_inside (.inl (links.2.2.1.trans next))
  · exact linked.sibling_inside (.inr (links.2.2.2.trans prev))

theorem consistent (linked : Linked tree)
    (document : (tree.get? rootId).map Node.content = some .document) : Consistent tree where
  document := document
  inside _ _ found _ named := linked.links_inside found named
  mem_children_iff := linked.mem_children_iff
  once parent child member := by
    constructor
    · rw [(linked.nodup parent).count, if_pos member]
    · intro other member'
      rw [linked.mem_children_iff] at member member'
      exact Option.some.inj (member'.symm.trans member)
  neighbours parent before first second after split := by
    constructor
    · exact linked.next_eq parent before first (second :: after) split
    · have back := linked.prev_eq parent (before ++ [first]) second after (by simp [split])
      simpa using back
  first parent id found := by
    obtain ⟨rest, split⟩ := List.head?_eq_some_iff.mp found
    exact linked.prev_eq parent [] id rest split
  last parent id found := by
    obtain ⟨before, split⟩ := List.getLast?_eq_some_iff.mp found
    exact linked.next_eq parent before id [] split
  alone := linked.alone
  chain id := by
    obtain ⟨starts, threaded, once, above, -⟩ := linked.ancestors_path id
    exact ⟨threaded.cons starts, List.nodup_cons.mpr ⟨above, once⟩⟩

end Linked

/-! What was there stays what it was. -/

section
variable {tree : Tree}

theorem content_alloc {id : NodeId} {known : Content} (content : Content)
    (found : (tree.get? id).map Node.content = some known) :
    ((tree.alloc content).get? id).map Node.content = some known := by
  rw [get_alloc]
  by_cases new : id = tree.size
  · rw [get_none (Nat.le_of_eq new.symm)] at found
    cases found
  · rwa [if_neg new]

theorem content_attach (parent child id : NodeId) :
    ((tree.attach parent child).get? id).map Node.content =
      (tree.get? id).map Node.content := by
  rw [get_attach, Option.map_map]
  rfl

theorem content_apply {id : NodeId} {known : Content} (edit : Edit)
    (found : (tree.get? id).map Node.content = some known) :
    ((edit.apply tree).get? id).map Node.content = some known := by
  cases edit with
  | alloc content => exact content_alloc content found
  | append parent content => exact (content_attach _ _ id).trans (content_alloc content found)
  | attach parent child => exact (content_attach parent child id).trans found

end

/-- Appending leaves every node that was there with its content and its parent. -/
structure Extends (before after : Tree) : Prop where
  size : before.size ≤ after.size
  content : ∀ id known, (before.get? id).map Node.content = some known →
    (after.get? id).map Node.content = some known
  parent : ∀ id, id < before.size → after.parent? id = before.parent? id

namespace Extends

theorem refl (tree : Tree) : Extends tree tree :=
  ⟨Nat.le_refl _, fun _ _ found => found, fun _ _ => rfl⟩

theorem trans {first second third : Tree} (before : Extends first second)
    (after : Extends second third) : Extends first third where
  size := Nat.le_trans before.size after.size
  content id known found := after.content id known (before.content id known found)
  parent id inside := by
    rw [after.parent id (Nat.lt_of_lt_of_le inside before.size), before.parent id inside]

theorem append (tree : Tree) (parent : NodeId) (content : Content) :
    Extends tree (tree.append parent content) where
  size := by
    rw [size_append]
    exact Nat.le_succ _
  content _ _ found := content_apply (.append parent content) found
  parent id inside := by
    have isChild : tree.size < (tree.alloc content).size := by
      rw [size_alloc]
      exact Nat.lt_succ_self _
    rw [Tree.append, parent_attach isChild, if_neg (Nat.ne_of_lt inside), parent_alloc]

mutual
theorem add_dump {tree result : Tree} {parent : NodeId} : (dump : Dump) →
    tree.addDump parent dump = .ok result → Extends tree result
  | .document _, added => by
      rw [addDump] at added
      cases added
  | .element tag attributes children, added => by
      rw [addDump] at added
      split at added
      · cases added
      · exact (append tree parent _).trans (add_dumps children added)
  | .text content, added => by
      rw [addDump] at added
      cases added
      exact append tree parent _
  | .comment content, added => by
      rw [addDump] at added
      cases added
      exact append tree parent _

theorem add_dumps {tree result : Tree} {parent : NodeId} : (dumps : List Dump) →
    tree.addDumps parent dumps = .ok result → Extends tree result
  | [], added => by
      rw [addDumps] at added
      cases added
      exact refl tree
  | first :: rest, added => by
      rw [addDumps] at added
      split at added
      · cases added
      · next middle here => exact (add_dump first here).trans (add_dumps rest added)
end

theorem loaded {text : String} {tree : Tree} (read : load text = .ok tree) :
    Extends Tree.empty tree := by
  unfold load at read
  split at read
  · cases read
  · rw [of_dump_eq] at read
    exact add_dumps _ read

end Extends

/-- The node that every tree starts with is a document and stays one. -/
theorem Built.document {tree : Tree} (built : Built tree) :
    (tree.get? rootId).map Node.content = some .document := by
  induction built with
  | empty => rfl
  | loaded read => exact (Extends.loaded read).content rootId _ rfl
  | alloc content _ ih => exact content_alloc content ih
  | append content _ _ ih => exact content_apply (.append _ content) ih
  | attach _ _ _ _ _ ih => exact (content_attach _ _ _).trans ih

/-! Histories. -/

theorem Built.apply {tree : Tree} (built : Built tree) {edit : Edit}
    (admitted : edit.Admitted tree) : Built (edit.apply tree) := by
  cases edit with
  | alloc content => exact built.alloc content
  | append parent content => exact built.append content admitted
  | attach parent child =>
      obtain ⟨inParent, inChild, detached, apart⟩ := admitted
      exact built.attach inParent inChild detached apart

theorem Built.edited {tree : Tree} {edits : List Edit} (built : Built tree)
    (admitted : tree.Admits edits) : Built (tree.edited edits) := by
  induction edits generalizing tree with
  | nil => exact built
  | cons edit rest ih => exact ih (built.apply admitted.1) admitted.2

/-- Only by being attached itself does the document node get a parent. -/
theorem parent_apply {tree : Tree} {edit : Edit} (inside : rootId < tree.size)
    (admitted : edit.Admitted tree) :
    (edit.apply tree).parent? rootId = none ↔
      tree.parent? rootId = none ∧ ∀ parent, edit ≠ .attach parent rootId := by
  cases edit with
  | alloc content => simp [Edit.apply, parent_alloc]
  | append parent content =>
      have same := (Extends.append tree parent content).parent rootId inside
      simp [Edit.apply, same]
  | attach parent child =>
      rw [Edit.apply, parent_attach admitted.2.1]
      by_cases isRoot : rootId = child
      · simp [isRoot]
      · have other : ¬ child = rootId := fun same => isRoot same.symm
        simp [isRoot, other]

theorem parent_edited {tree : Tree} {edits : List Edit} (inside : rootId < tree.size)
    (admitted : tree.Admits edits) :
    (tree.edited edits).parent? rootId = none ↔
      tree.parent? rootId = none ∧ ∀ parent, Edit.attach parent rootId ∉ edits := by
  induction edits generalizing tree with
  | nil => simp [edited]
  | cons edit rest ih =>
      have grown : tree.size ≤ (edit.apply tree).size := by
        cases edit <;> simp [Edit.apply, size_alloc, size_append, size_attach]
      rw [edited, ih (Nat.lt_of_lt_of_le inside grown) admitted.2,
        parent_apply inside admitted.1]
      simp only [List.mem_cons, not_or, forall_and, and_assoc, ne_eq, eq_comm]

/-- After every history the links of all nodes agree, and the document node is without a parent
exactly where it was never attached itself. -/
theorem edited_consistent {start : Tree}
    (fresh : start = Tree.empty ∨ ∃ text, load text = .ok start) (edits : List Edit)
    (admitted : start.Admits edits) :
    (start.edited edits).Consistent ∧
      ((start.edited edits).parent? rootId = none ↔
        ∀ parent, Edit.attach parent rootId ∉ edits) := by
  have begun : Built start ∧ Extends Tree.empty start := by
    rcases fresh with rfl | ⟨text, read⟩
    · exact ⟨.empty, .refl _⟩
    · exact ⟨.loaded read, .loaded read⟩
  have built := begun.1.edited admitted
  constructor
  · exact built.linked.consistent built.document
  · have inside : rootId < start.size := Nat.lt_of_lt_of_le Nat.zero_lt_one begun.2.size
    have bare : start.parent? rootId = none := begun.2.parent rootId Nat.zero_lt_one
    rw [parent_edited inside admitted]
    exact and_iff_right bare

/-- A list that grows after it was hung below the document. -/
def growingList : List Edit :=
  [.alloc (.element ⟨"ul", []⟩), .append 1 (.element ⟨"li", []⟩), .attach rootId 1,
    .append 1 (.text "and"), .append 1 (.element ⟨"li", []⟩)]

/-- The document itself is hung below an element. -/
def documentAttached : List Edit := [.alloc (.element ⟨"a", []⟩), .attach 1 rootId]

theorem growing_list_admitted : Tree.empty.Admits growingList := by
  have list : Linked ((Tree.empty.alloc (.element ⟨"ul", []⟩)).append 1 (.element ⟨"li", []⟩)) :=
    (Linked.empty.alloc _).append _ (by decide)
  have apart : ¬ Within _ 1 rootId := fun within =>
    absurd (list.within_detached (by decide) within) (by decide)
  refine ⟨True.intro, show 1 < _ from ?_, ⟨?_, ?_, ?_, apart⟩, show 1 < _ from ?_,
    show 1 < _ from ?_, True.intro⟩
  all_goals decide

theorem document_attached_admitted : Tree.empty.Admits documentAttached := by
  have linked : Linked (Tree.empty.alloc (.element ⟨"a", []⟩)) := Linked.empty.alloc _
  have apart : ¬ Within (Tree.empty.alloc (.element ⟨"a", []⟩)) rootId 1 := fun within =>
    absurd (linked.within_detached (by decide) within) (by decide)
  refine ⟨True.intro, ⟨?_, ?_, ?_, apart⟩, True.intro⟩
  all_goals decide

/-- The document node keeps its place above the growing list, and loses it below an element. -/
theorem growing_list_consistent :
    (Tree.empty.Admits growingList ∧ (Tree.empty.edited growingList).Consistent ∧
      (Tree.empty.edited growingList).parent? rootId = none) ∧
    (Tree.empty.Admits documentAttached ∧ (Tree.empty.edited documentAttached).Consistent ∧
      (Tree.empty.edited documentAttached).parent? rootId = some 1) := by
  have growing := edited_consistent (.inl rfl) growingList growing_list_admitted
  have attached := edited_consistent (.inl rfl) documentAttached document_attached_admitted
  refine ⟨⟨growing_list_admitted, growing.1, growing.2.mpr ?_⟩,
    document_attached_admitted, attached.1, by decide⟩
  simp [growingList, rootId]

end TreeSelect.Tree
