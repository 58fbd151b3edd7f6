import Mathlib.Data.List.Nodup
import TreeSelect.Proofs.Chains

/-!
Siblings by links and by lists. Each node has links to the nodes before and behind it, and its
parent has a list of all of them; combinators go along the links, and positions are counted in the
list. In a tree that was built the links lead along the list and end where it ends.
-/

namespace TreeSelect.Tree

namespace Linked

variable {tree : Tree} {parent id : NodeId} {before after : List NodeId}

theorem next_course_iff (linked : Linked tree)
    (split : tree.children parent = before ++ id :: after) (ids : List NodeId) :
    Course tree.next? (tree.next? id) ids ↔ ids = after := by
  have threaded := linked.next_threaded split
  have course : Course tree.next? (tree.next? id) after := threaded.head ▸ threaded.tail.course
  exact ⟨fun other => other.functional course, fun same => same ▸ course⟩

theorem prev_course_iff (linked : Linked tree)
    (split : tree.children parent = before ++ id :: after) (ids : List NodeId) :
    Course tree.prev? (tree.prev? id) ids ↔ ids = before.reverse := by
  have threaded := linked.prev_threaded split
  have course : Course tree.prev? (tree.prev? id) before.reverse :=
    threaded.head ▸ threaded.tail.course
  exact ⟨fun other => other.functional course, fun same => same ▸ course⟩

/-- The list of elements is divided by an element in one way, and the nearest one behind it is the
first of the second part. -/
theorem next_element_eq (linked : Linked tree) (link : tree.parent? id = some parent)
    (split : tree.elementChildren parent = before ++ id :: after) :
    tree.nextElementSibling? id = after.head? := by
  have member : id ∈ tree.elementChildren parent := by rw [split]; simp
  have whole := linked.elements_split link (linked.parent_of_element member).2
  have once := linked.nodup_elements parent
  rw [split] at whole once
  have absent : id ∉ before ++ after := (List.nodup_cons.mp (List.nodup_middle.mp once)).1
  rw [List.mem_append, not_or] at absent
  obtain ⟨-, -, same⟩ := (List.append_cons_inj_of_notMem absent.1 absent.2).mp whole
  rw [nextElementSibling?, same, List.head?_filter]

end Linked

/-! Main result. -/

/-- For a child of a parent, wherever the list of children is divided by it, the walks along the
links come to an end, having given the children behind it and those before it from the nearest
on, and nothing else; the next element sibling of an element is the one that follows in the
list of elements, if one follows. A node without a parent has no siblings of any kind. -/
theorem siblings_along_children {tree : Tree} (built : tree.Built) (id : NodeId) :
    (∀ parent, tree.parent? id = some parent →
      id ∈ tree.children parent ∧
      (∀ before after, tree.children parent = before ++ id :: after →
        (∀ ids, Course tree.next? (tree.next? id) ids ↔ ids = after) ∧
        tree.followingSiblings id = after ∧
        (∀ ids, Course tree.prev? (tree.prev? id) ids ↔ ids = before.reverse) ∧
        tree.precedingSiblings id = before.reverse) ∧
      (tree.isElement id = true →
        id ∈ tree.elementChildren parent ∧
        ∀ before after, tree.elementChildren parent = before ++ id :: after →
          tree.nextElementSibling? id = after.head?)) ∧
    (tree.parent? id = none →
      (∀ ids, Course tree.next? (tree.next? id) ids ↔ ids = []) ∧
      (∀ ids, Course tree.prev? (tree.prev? id) ids ↔ ids = []) ∧
      tree.followingSiblings id = [] ∧ tree.precedingSiblings id = [] ∧
      tree.nextElementSibling? id = none) := by
  have linked := built.linked
  constructor
  · intro parent link
    have child : id ∈ tree.children parent := (linked.mem_children_iff parent id).mpr link
    refine ⟨child, ?_, ?_⟩
    · intro before after split
      exact ⟨linked.next_course_iff split, linked.following_siblings_eq split,
        linked.prev_course_iff split, linked.preceding_siblings_eq split⟩
    · intro element
      refine ⟨List.mem_filter.mpr ⟨child, element⟩, ?_⟩
      exact fun before after => linked.next_element_eq link
  · intro noParent
    have lone := linked.alone id noParent
    obtain ⟨following, preceding⟩ := linked.siblings_alone noParent
    have ended (link : NodeId → Option NodeId) (ids : List NodeId) :
        Course link none ids ↔ ids = [] :=
      ⟨fun course => course.functional .ended, fun same => same ▸ .ended⟩
    rw [lone.1, lone.2, nextElementSibling?, following]
    exact ⟨ended _, ended _, rfl, preceding, rfl⟩

/-- The items of the grafted list have a text between them. -/
theorem items_beside_text :
    graftedList.Built ∧ graftedList.parent? 2 = some 1 ∧ graftedList.isElement 2 = true ∧
      graftedList.children 1 = [] ++ 2 :: [3, 5] ∧
      graftedList.elementChildren 1 = [] ++ 2 :: [5] ∧
      graftedList.followingSiblings 2 = [3, 5] ∧ graftedList.nextElementSibling? 2 = some 5 ∧
      graftedList.precedingSiblings 5 = [3, 2] ∧ graftedList.parent? 0 = none ∧
      graftedList.followingSiblings 0 = [] := by
  have first : graftedList.children 1 = [] ++ 2 :: [3, 5] := by decide
  have last : graftedList.children 1 = [2, 3] ++ 5 :: [] := by decide
  have elements : graftedList.elementChildren 1 = [] ++ 2 :: [5] := by decide
  have built := grafted_list_built
  obtain ⟨-, behind, element⟩ := (siblings_along_children built 2).1 1 (by decide)
  obtain ⟨-, before, -⟩ := (siblings_along_children built 5).1 1 (by decide)
  obtain ⟨-, -, alone, -⟩ := (siblings_along_children built 0).2 (by decide)
  exact ⟨built, by decide, by decide, first, elements, (behind _ _ first).2.1,
    (element (by decide)).2 _ _ elements, (before _ _ last).2.2.2, by decide, alone⟩

end TreeSelect.Tree
