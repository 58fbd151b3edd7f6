import Mathlib.Data.List.Basic
import TreeSelect.Proofs.Histories
import TreeSelect.Proofs.Preorder

/-!
Attaching, seen from above. The attached child is written into three nodes, and all that the
listing of another node shows of it is one block: the child with everything below it, behind
everything that was below the parent before. A child that is no element has an empty block, and
a root from which other nodes hide the parent lists what it listed before.
-/

namespace TreeSelect.Tree

/-- What a listing shows for a node: the element with all that is below it, and else nothing. -/
def block (tree : Tree) (id : NodeId) : List NodeId :=
  if tree.isElement id then id :: tree.descendants id else []

theorem block_element {tree : Tree} {id : NodeId} (element : tree.isElement id = true) :
    tree.block id = id :: tree.descendants id :=
  if_pos element

theorem block_other {tree : Tree} {id : NodeId} (other : tree.isElement id = false) :
    tree.block id = [] :=
  if_neg (Bool.eq_false_iff.mp other)

/-! What attaching leaves as it was. -/

theorem is_element_attach (tree : Tree) (parent child id : NodeId) :
    (tree.attach parent child).isElement id = tree.isElement id := by
  rw [isElement, isElement, element?, element?, content_attach]

theorem get_attach_elsewhere {tree : Tree} {parent child id : NodeId} (notParent : id ≠ parent)
    (notChild : id ≠ child) (notLast : tree.lastChild? parent ≠ some id) :
    (tree.attach parent child).get? id = tree.get? id := by
  simp only [get_attach, notParent, notChild, notLast, if_false]
  cases tree.get? id <;> rfl

namespace Linked

variable {tree : Tree} {parent child root : NodeId}

theorem blocks_eq (linked : Linked tree) (id : NodeId) :
    tree.descendants id = (tree.children id).flatMap tree.block :=
  linked.descendants_eq id

theorem within_of_descendant (linked : Linked tree) {top id : NodeId}
    (member : id ∈ tree.descendants top) : Within tree top id := by
  revert member
  apply linked.up_induction _ id
  intro id ih member
  obtain ⟨-, above, link, place⟩ := linked.mem_descendants_parent_iff.mp member
  have isChild := (linked.mem_children_iff above id).mpr link
  rcases place with rfl | place
  · exact .child .top isChild
  · exact .child (ih above link place) isChild

section
variable (linked : Linked tree) (admitted : (Edit.attach parent child).Admitted tree)
include linked admitted

theorem attached : Linked (tree.attach parent child) :=
  linked.attach admitted.1 admitted.2.1 admitted.2.2.1 admitted.2.2.2

theorem parent_not_moved : parent ∉ tree.block child := by
  have apart := admitted.2.2.2
  intro member
  by_cases element : tree.isElement child = true
  · rw [block_element element, List.mem_cons] at member
    rcases member with rfl | below
    · exact apart .top
    · exact apart (linked.within_of_descendant below)
  · rw [block_other (Bool.eq_false_iff.mpr element)] at member
    cases member

/-- A block without the parent in it is the block that it was. -/
theorem block_elsewhere {id : NodeId} (absent : parent ∉ tree.block id) :
    (tree.attach parent child).block id = tree.block id := by
  have linked' := linked.attached admitted
  revert absent
  apply linked.down_induction _ id
  intro id ih absent
  have kind := is_element_attach tree parent child id
  by_cases element : tree.isElement id = true
  · rw [block_element element, linked.blocks_eq, List.mem_cons, List.mem_flatMap, not_or] at absent
    rw [block_element (kind.trans element), block_element element, linked'.blocks_eq,
      linked.blocks_eq, children_attach admitted.1, if_neg (Ne.symm absent.1)]
    refine congrArg (id :: ·) (List.flatMap_congr fun other isChild => ?_)
    exact ih other isChild fun member => absent.2 ⟨other, isChild, member⟩
  · have other := Bool.eq_false_iff.mpr element
    rw [block_other (kind.trans other), block_other other]

theorem blocks_elsewhere {ids : List NodeId} (absent : parent ∉ ids.flatMap tree.block) :
    ids.flatMap (tree.attach parent child).block = ids.flatMap tree.block := by
  apply List.flatMap_congr
  intro id member
  apply linked.block_elsewhere admitted
  exact fun inBlock => absent (List.mem_flatMap.mpr ⟨id, member, inBlock⟩)

/-- A root that does not list the parent lists what it did. -/
theorem descendants_elsewhere (notParent : parent ≠ root)
    (notListed : parent ∉ tree.descendants root) :
    (tree.attach parent child).descendants root = tree.descendants root := by
  have linked' := linked.attached admitted
  rw [linked.blocks_eq] at notListed
  rw [linked'.blocks_eq, linked.blocks_eq, children_attach admitted.1,
    if_neg (Ne.symm notParent), linked.blocks_elsewhere admitted notListed]

/-- Below the parent the block of the child comes last. -/
theorem descendants_parent :
    (tree.attach parent child).descendants parent =
      tree.descendants parent ++ tree.block child := by
  have linked' := linked.attached admitted
  have absent := linked.not_own_descendant parent
  have moved := linked.block_elsewhere admitted (linked.parent_not_moved admitted)
  rw [linked.blocks_eq] at absent
  rw [linked'.blocks_eq, linked.blocks_eq, children_attach admitted.1, if_pos rfl,
    List.flatMap_append, linked.blocks_elsewhere admitted absent, List.flatMap_singleton, moved]

/-- Where the parent is listed with its block, the block of the child comes behind that. -/
theorem descendants_above (listed : parent ∈ tree.descendants root) :
    ∃ before behind,
      tree.descendants root = before ++ (parent :: tree.descendants parent) ++ behind ∧
      (tree.attach parent child).descendants root =
        before ++ (parent :: tree.descendants parent) ++ tree.block child ++ behind := by
  have linked' := linked.attached admitted
  revert listed
  apply linked.down_induction _ root
  intro root ih listed
  have notParent : root ≠ parent := fun same => linked.not_own_descendant root (same ▸ listed)
  obtain ⟨top, isChild, element, place⟩ := linked.mem_descendants_iff.mp listed
  have element' := (is_element_attach tree parent child top).trans element
  obtain ⟨front, back, split⟩ := List.append_of_mem isChild
  have old : tree.descendants root =
      front.flatMap tree.block ++ (top :: tree.descendants top) ++ back.flatMap tree.block := by
    rw [linked.blocks_eq root, split, List.flatMap_append, List.flatMap_cons,
      block_element element, List.append_assoc]
  -- The parent is listed once, so the blocks beside that of the top are kept.
  have once := linked.nodup_descendants root
  rw [old, List.append_assoc, List.nodup_append, List.nodup_append] at once
  obtain ⟨-, ⟨-, -, apartBack⟩, apartFront⟩ := once
  have inTop : parent ∈ top :: tree.descendants top := List.mem_cons.mpr place
  have absentBack : parent ∉ back.flatMap tree.block := fun member =>
    apartBack parent inTop parent member rfl
  have absentFront : parent ∉ front.flatMap tree.block := fun member =>
    apartFront parent member parent (List.mem_append_left _ inTop) rfl
  have new : (tree.attach parent child).descendants root = front.flatMap tree.block ++
      (top :: (tree.attach parent child).descendants top) ++ back.flatMap tree.block := by
    rw [linked'.blocks_eq root, children_attach admitted.1, if_neg notParent, split,
      List.flatMap_append, List.flatMap_cons, block_element element',
      linked.blocks_elsewhere admitted absentFront, linked.blocks_elsewhere admitted absentBack,
      List.append_assoc]
  rcases place with rfl | deeper
  · refine ⟨_, _, old, ?_⟩
    rw [new, linked.descendants_parent admitted]
    simp
  · obtain ⟨before, behind, old', new'⟩ := ih top isChild deeper
    refine ⟨front.flatMap tree.block ++ top :: before, behind ++ back.flatMap tree.block, ?_, ?_⟩
    · rw [old, old']
      simp
    · rw [new, new']
      simp

end

end Linked

/-- After an admitted attachment of an element every listing with the parent in it, and that of
the parent itself, has the child with its own listing inserted behind the last element below the
parent, or behind the parent where there was none. No other listing has changed, none at all where
the child is no element, and three nodes at most have been written to. -/
theorem attached_in_document_order {tree : Tree} (built : tree.Built) {parent child : NodeId}
    (admitted : (Edit.attach parent child).Admitted tree) :
    ∃ after, tree.attach? parent child = some after ∧
      (tree.isElement child = true →
        after.descendants parent = tree.descendants parent ++ (child :: tree.descendants child) ∧
        ∀ root, parent ∈ tree.descendants root → ∃ before behind,
          tree.descendants root = before ++ (parent :: tree.descendants parent) ++ behind ∧
          after.descendants root = before ++ (parent :: tree.descendants parent) ++
            (child :: tree.descendants child) ++ behind) ∧
      (∀ root, tree.isElement child = false ∨
          (parent ≠ root ∧ parent ∉ tree.descendants root) →
        after.descendants root = tree.descendants root) ∧
      ∀ id, id ≠ parent → id ≠ child → tree.lastChild? parent ≠ some id →
        after.get? id = tree.get? id := by
  have linked := built.linked
  have above := fun root => @Linked.descendants_above tree parent child root linked admitted
  have here := linked.descendants_parent admitted
  refine ⟨tree.attach parent child, if_pos ⟨admitted.1, admitted.2.1⟩, ?_, ?_, ?_⟩
  · intro element
    rw [block_element element] at above here
    exact ⟨here, above⟩
  · rintro root (other | ⟨notParent, notListed⟩)
    · rw [block_other other] at above here
      by_cases same : parent = root
      · rw [← same, here, List.append_nil]
      · by_cases listed : parent ∈ tree.descendants root
        · obtain ⟨before, behind, old, new⟩ := above root listed
          rw [new, old, List.append_nil]
        · exact linked.descendants_elsewhere admitted same listed
    · exact linked.descendants_elsewhere admitted notParent notListed
  · exact fun id notParent notChild notLast => get_attach_elsewhere notParent notChild notLast

/-- The list that was hung below the document, and beside it a loose element that holds another. -/
def listAndLoose : Tree :=
  (graftedList.alloc (.element ⟨"i", []⟩)).append 6 (.element ⟨"em", []⟩)

theorem list_and_loose_built : listAndLoose.Built :=
  (grafted_list_built.alloc _).append _ (by decide)

/-- The loose element goes into the first item, before the second one. What hangs below the text
is not listed from above and is not touched. -/
theorem loose_in_document_order :
    listAndLoose.Built ∧ (Edit.attach 2 6).Admitted listAndLoose ∧
      listAndLoose.isElement 6 = true ∧ 2 ∈ listAndLoose.descendants 0 ∧
      ∃ after, listAndLoose.attach? 2 6 = some after ∧ after.descendants 2 = [6, 7] ∧
        (∃ before behind, [1, 2, 5] = before ++ [2] ++ behind ∧
          after.descendants 0 = before ++ [2] ++ [6, 7] ++ behind) ∧
        after.descendants 3 = [4] ∧ after.get? 5 = listAndLoose.get? 5 := by
  have built := list_and_loose_built
  have loose : listAndLoose.parent? 6 = none := by decide
  have apart : ¬ Within listAndLoose 6 2 := by
    intro within
    have above := built.linked.within_parent within (by decide) (show _ = some 1 by decide)
    have document := built.linked.within_parent above (by decide) (show _ = some 0 by decide)
    exact absurd (built.linked.within_detached (by decide) document) (by decide)
  have admitted : (Edit.attach 2 6).Admitted listAndLoose :=
    ⟨by decide, by decide, loose, apart⟩
  have listed : 2 ∈ listAndLoose.descendants 0 := by decide
  obtain ⟨after, done, moved, kept, frame⟩ := attached_in_document_order built admitted
  refine ⟨built, admitted, rfl, listed, after, done, (moved rfl).1, (moved rfl).2 0 listed, ?_, ?_⟩
  · exact kept 3 (.inr ⟨by decide, by decide⟩)
  · exact frame 5 (by decide) (by decide) (by decide)

end TreeSelect.Tree
