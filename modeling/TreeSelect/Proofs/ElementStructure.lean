import Mathlib.Data.List.Zip
import TreeSelect.Proofs.Correspondence
import TreeSelect.Proofs.Evaluation
import TreeSelect.Proofs.Histories

/-!
What evaluation sees of a tree. Two trees may number their nodes differently, hold other texts and
comments and other nodes that hang nowhere; where the elements below their documents have the
same order, nesting, tags and attributes, every selector finds the same elements in both, told by
their places in document order. Whether the document itself was attached to another node is seen
too, by `:root` alone.
-/

namespace TreeSelect

open TreeSelect.Tree (rootId)

/-- The elements in two lists of nodes are the same, down to the last one below them. Nodes of
other kinds are passed over with everything that they hold. -/
inductive SameElements (left right : Tree) : List NodeId → List NodeId → Prop where
  | done : SameElements left right [] []
  | pastLeft {id : NodeId} {ids ids' : List NodeId} :
      left.isElement id = false → SameElements left right ids ids' →
      SameElements left right (id :: ids) ids'
  | pastRight {id : NodeId} {ids ids' : List NodeId} :
      right.isElement id = false → SameElements left right ids ids' →
      SameElements left right ids (id :: ids')
  | both {id id' : NodeId} {ids ids' : List NodeId} {data : Element} :
      left.element? id = some data → right.element? id' = some data →
      SameElements left right (left.children id) (right.children id') →
      SameElements left right ids ids' → SameElements left right (id :: ids) (id' :: ids')

/-- The nodes at the same place in two trees: the documents, and below two counterparts the
element children with the same number. -/
inductive Counterparts (left right : Tree) : NodeId → NodeId → Prop where
  | root : Counterparts left right rootId rootId
  | child {high high' low low' : NodeId} :
      Counterparts left right high high' →
      (low, low') ∈ (left.elementChildren high).zip (right.elementChildren high') →
      Counterparts left right low low'

/-! Pairs in lists. -/

theorem zip_unique {ids others : List NodeId} {id first second : NodeId} (once : ids.Nodup)
    (isFirst : (id, first) ∈ ids.zip others) (isSecond : (id, second) ∈ ids.zip others) :
    first = second := by
  induction ids generalizing others with
  | nil => simp at isFirst
  | cons head ids ih =>
      cases others with
      | nil => simp at isFirst
      | cons other others =>
          obtain ⟨absent, once⟩ := List.nodup_cons.mp once
          rw [List.zip_cons_cons, List.mem_cons, Prod.mk.injEq] at isFirst isSecond
          rcases isFirst with ⟨rfl, rfl⟩ | isFirst
          · rcases isSecond with ⟨-, same⟩ | isSecond
            · exact same.symm
            · exact absurd (List.of_mem_zip isSecond).1 absent
          · rcases isSecond with ⟨rfl, -⟩ | isSecond
            · exact absurd (List.of_mem_zip isFirst).1 absent
            · exact ih once isFirst isSecond

theorem mem_zip_swap {ids others : List NodeId} {first second : NodeId}
    (member : (first, second) ∈ ids.zip others) : (second, first) ∈ others.zip ids := by
  rw [← List.zip_swap, List.mem_map]
  exact ⟨(first, second), member, rfl⟩

section
variable {twin : NodeId → NodeId → Prop} {ids ids' : List NodeId} {first second : NodeId}

end

/-! One tree. -/

namespace Tree.Linked

variable {tree : Tree}

/-! The document element, from the document. -/

end Tree.Linked

/-! Two trees with the same elements. -/

section
variable {left right : Tree}

namespace Counterparts

theorem swap {first second : NodeId} (pair : Counterparts left right first second) :
    Counterparts right left second first := by
  induction pair with
  | root => exact .root
  | child _ member ih => exact .child ih (mem_zip_swap member)

theorem inside (linked : left.Linked) {first second : NodeId}
    (pair : Counterparts left right first second) :
    first = rootId ∨ first ∈ left.descendants rootId := by
  induction pair with
  | root => exact .inl rfl
  | child _ member ih =>
      obtain ⟨link, element⟩ := linked.parent_of_element (List.of_mem_zip member).1
      exact .inr (linked.mem_descendants_parent_iff.mpr ⟨element, _, link, ih⟩)

theorem not_root (linked : left.Linked) {high high' low : NodeId}
    (pair : Counterparts left right high high') (member : low ∈ left.elementChildren high) :
    low ≠ rootId := by
  rintro rfl
  obtain ⟨link, element⟩ := linked.parent_of_element member
  have below := linked.mem_descendants_parent_iff.mpr ⟨element, high, link, pair.inside linked⟩
  exact linked.not_own_descendant rootId below

theorem right_unique (linked : left.Linked) : Relator.RightUnique (Counterparts left right) := by
  intro first second third pair other
  induction pair generalizing third with
  | root =>
      generalize start : rootId = id at other
      cases other with
      | root => rfl
      | child above member =>
          exact absurd start.symm (above.not_root linked (List.of_mem_zip member).1)
  | @child high high' low low' above member ih =>
      have isChild := (List.of_mem_zip member).1
      cases other with
      | root => exact absurd rfl (above.not_root linked isChild)
      | @child high₂ high₂' _ _ above₂ member₂ =>
          -- The parent is one, and so by induction is its counterpart.
          have link := (linked.parent_of_element isChild).1
          rw [(linked.parent_of_element (List.of_mem_zip member₂).1).1] at link
          obtain rfl := Option.some.inj link
          obtain rfl := ih above₂
          exact zip_unique (linked.nodup_elements high₂) member member₂

theorem unique (linked : left.Linked) (linked' : right.Linked) :
    Relator.BiUnique (Counterparts left right) := by
  constructor
  · intro first second third pair other
    exact right_unique linked' pair.swap other.swap
  · exact right_unique linked

end Counterparts

/-- Linked trees with the same elements below their documents. -/
structure Similar (left right : Tree) : Prop where
  linked : left.Linked
  linked' : right.Linked
  top : left.element? rootId = right.element? rootId
  elements : SameElements left right (left.children rootId) (right.children rootId)

namespace Similar

variable {first second : NodeId}

theorem unique (similar : Similar left right) : Relator.BiUnique (Counterparts left right) :=
  Counterparts.unique similar.linked similar.linked'

end Similar
end

end TreeSelect
