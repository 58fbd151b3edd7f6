import TreeSelect.Proofs.DocumentOrder
import TreeSelect.Proofs.Preorder

/-!
The steps along combinators, taken from a set of elements in one go, against the relations
between two elements that they stand for. Evaluation goes down and forward through lists of
children and skips what it has already reached; the relations look up and back through the
links of one element. On the elements below a root both are the same.
-/

namespace TreeSelect

namespace Combinator

/-- What evaluation goes along: from one element to those that it leads to. -/
def Reaches (tree : Tree) (high low : NodeId) : Combinator → Prop
  | .descendant => low ∈ tree.descendants high
  | .child => low ∈ tree.elementChildren high
  | .nextSibling => tree.nextElementSibling? high = some low
  | .subsequentSibling => low ∈ tree.followingSiblings high ∧ tree.isElement low = true

instance (tree : Tree) (high low : NodeId) (combinator : Combinator) :
    Decidable (combinator.Reaches tree high low) :=
  match combinator with
  | .descendant => inferInstanceAs (Decidable (low ∈ tree.descendants high))
  | .child => inferInstanceAs (Decidable (low ∈ tree.elementChildren high))
  | .nextSibling => inferInstanceAs (Decidable (tree.nextElementSibling? high = some low))
  | .subsequentSibling =>
      inferInstanceAs (Decidable (low ∈ tree.followingSiblings high ∧ tree.isElement low = true))

/-- What an element is matched by: from it up or back to the element on the other side. -/
def Climbs (tree : Tree) (low high : NodeId) : Combinator → Prop
  | .descendant => high ∈ tree.ancestors low
  | .child => tree.parent? low = some high
  | .nextSibling => (tree.precedingSiblings low).find? tree.isElement = some high
  | .subsequentSibling => high ∈ tree.precedingSiblings low

end Combinator

section
variable {tree : Tree} {root : NodeId}

theorem scope_listed (linked : tree.Linked) (root : NodeId) : (Scope.of tree root).Listed where
  once := linked.nodup_descendants root
  inside id member := by
    obtain ⟨-, parent, link, -⟩ := linked.mem_descendants_parent_iff.mp member
    exact Tree.inside_of_parent link

/-- The elements below a root are closed under going on to elements with the same parent. -/
theorem sibling_in_scope (linked : tree.Linked) {id parent other : NodeId}
    (member : id ∈ tree.descendants root) (link : tree.parent? id = some parent)
    (beside : tree.parent? other = some parent) (element : tree.isElement other = true) :
    other ∈ tree.descendants root := by
  obtain ⟨-, _, same, above⟩ := linked.mem_descendants_parent_iff.mp member
  rw [link] at same
  obtain rfl := Option.some.inj same
  exact linked.mem_descendants_parent_iff.mpr ⟨element, parent, beside, above⟩

theorem later_sibling_iff (linked : tree.Linked) {high low : NodeId}
    (member : high ∈ tree.descendants root) :
    (low ∈ tree.followingSiblings high ∧ tree.isElement low = true) ↔
      low ∈ tree.descendants root ∧ high ∈ tree.precedingSiblings low := by
  constructor
  · rintro ⟨behind, element⟩
    obtain ⟨parent, link, beside⟩ := linked.parent_of_following behind
    exact ⟨sibling_in_scope linked member link beside element, linked.mem_preceding_iff.mpr behind⟩
  · rintro ⟨inside, before⟩
    exact ⟨linked.mem_preceding_iff.mp before, linked.element_of_descendant inside⟩

theorem reaches_iff_climbs (linked : tree.Linked) (combinator : Combinator) {high low : NodeId}
    (member : high ∈ tree.descendants root) :
    combinator.Reaches tree high low ↔
      low ∈ tree.descendants root ∧ combinator.Climbs tree low high := by
  have element := linked.element_of_descendant member
  cases combinator with
  | descendant =>
      constructor
      · intro below
        exact ⟨linked.descendants_trans member below, linked.ancestor_of_descendant below⟩
      · rintro ⟨inside, above⟩
        exact (linked.descendant_iff_ancestor member inside).mpr above
  | child =>
      constructor
      · intro below
        obtain ⟨isChild, element'⟩ := List.mem_filter.mp below
        have link := (linked.mem_children_iff high low).mp isChild
        exact ⟨linked.mem_descendants_parent_iff.mpr ⟨element', high, link, .inr member⟩, link⟩
      · rintro ⟨inside, link⟩
        have isChild := (linked.mem_children_iff high low).mpr link
        exact List.mem_filter.mpr ⟨isChild, linked.element_of_descendant inside⟩
  | nextSibling =>
      constructor
      · intro next
        have element' := List.find?_some next
        have behind := List.mem_of_find?_eq_some next
        refine ⟨((later_sibling_iff linked member).mp ⟨behind, element'⟩).1, ?_⟩
        exact (linked.nearest_sibling_iff tree.isElement element element').mp next
      · rintro ⟨inside, nearest⟩
        have element' := linked.element_of_descendant inside
        exact (linked.nearest_sibling_iff tree.isElement element element').mpr nearest
  | subsequentSibling => exact later_sibling_iff linked member

end

/-! What is skipped adds nothing. -/

section
variable {scope : Scope} {root : NodeId}

theorem mem_below_uncovered (linked : scope.tree.Linked) {left : List NodeId}
    (members : ∀ id ∈ left, id ∈ scope.tree.descendants root) (covered : Option NodeId)
    (inside : ∀ top ∈ covered, top ∈ scope.tree.descendants root) (low : NodeId) :
    (low ∈ scope.belowUncovered covered left ∨
        ∃ top ∈ covered, low ∈ scope.tree.descendants top) ↔
      (∃ high ∈ left, low ∈ scope.tree.descendants high) ∨
        ∃ top ∈ covered, low ∈ scope.tree.descendants top := by
  induction left generalizing covered with
  | nil => simp [Scope.belowUncovered]
  | cons id rest ih =>
      have here := members id List.mem_cons_self
      have later : ∀ other ∈ rest, other ∈ scope.tree.descendants root :=
        fun other member => members other (List.mem_cons_of_mem id member)
      simp only [Scope.belowUncovered, List.mem_cons, exists_eq_or_imp]
      by_cases skip : covered.any (scope.tree.isDescendantOf id) = true
      · -- Everything below this element is below the covered one that it lies in.
        obtain ⟨top, same, descends⟩ := (Option.any_eq_true _ _).mp skip
        have above := (Tree.is_descendant_of_iff scope.tree id top).mp descends
        have below := (linked.descendant_iff_ancestor (inside top same) here).mpr above
        have absorbed : low ∈ scope.tree.descendants id →
            ∃ top ∈ covered, low ∈ scope.tree.descendants top :=
          fun member => ⟨top, same, linked.descendants_trans below member⟩
        rw [if_pos skip, ih later covered inside]
        constructor
        · exact fun found => found.imp_left .inr
        · rintro ((member | member) | member)
          · exact .inr (absorbed member)
          · exact .inl member
          · exact .inr member
      · have step := ih later (some id) (by simpa using here)
        simp only [Option.mem_some_iff, exists_eq_left'] at step
        rw [if_neg skip, List.mem_append]
        exact or_congr_left (Or.comm.trans (step.trans Or.comm))

/-- Whatever was reached came with all later siblings of its own. -/
theorem mem_later_siblings (linked : scope.tree.Linked) {left reached : List NodeId}
    (closed : ∀ high ∈ reached, ∀ low ∈ scope.tree.followingSiblings high,
      scope.tree.isElement low = true → low ∈ reached) (low : NodeId) :
    low ∈ scope.laterSiblings reached left ↔
      low ∈ reached ∨ ∃ high ∈ left,
        low ∈ scope.tree.followingSiblings high ∧ scope.tree.isElement low = true := by
  induction left generalizing reached with
  | nil => simp [Scope.laterSiblings]
  | cons id rest ih =>
      simp only [Scope.laterSiblings, List.mem_cons, exists_eq_or_imp]
      by_cases skip : id ∈ reached
      · have absorbed : low ∈ scope.tree.followingSiblings id ∧ scope.tree.isElement low = true →
            low ∈ reached := fun found => closed id skip low found.1 found.2
        rw [if_pos (List.contains_iff_mem.mpr skip), ih closed]
        constructor
        · exact fun found => found.imp_right .inr
        · rintro (member | found | found)
          · exact .inl member
          · exact .inl (absorbed found)
          · exact .inr found
      · -- What is new brings all its later siblings, so the grown list is closed as well.
        let new := (scope.tree.followingSiblings id).filter fun sibling =>
          scope.tree.isElement sibling && !reached.contains sibling
        have mem_grown : ∀ other, other ∈ reached ++ new ↔ other ∈ reached ∨
            (other ∈ scope.tree.followingSiblings id ∧ scope.tree.isElement other = true) := by
          intro other
          by_cases known : other ∈ reached <;> simp [new, known]
        have grown : ∀ high ∈ reached ++ new, ∀ low ∈ scope.tree.followingSiblings high,
            scope.tree.isElement low = true → low ∈ reached ++ new := by
          intro high member low behind element
          rw [mem_grown] at member ⊢
          rcases member with known | ⟨isNew, -⟩
          · exact .inl (closed high known low behind element)
          · exact .inr ⟨linked.following_trans isNew behind, element⟩
        rw [if_neg fun found => skip (List.contains_iff_mem.mp found)]
        exact (ih grown).trans ((or_congr_left (mem_grown low)).trans or_assoc)

theorem mem_reach (linked : scope.tree.Linked) (combinator : Combinator) {left : List NodeId}
    (members : ∀ id ∈ left, id ∈ scope.tree.descendants root) (low : NodeId) :
    low ∈ scope.reach combinator left ↔
      ∃ high ∈ left, combinator.Reaches scope.tree high low := by
  cases combinator with
  | descendant =>
      have found := mem_below_uncovered linked members none (by simp) low
      simpa [Scope.reach, Combinator.Reaches] using found
  | child => simp [Scope.reach, Combinator.Reaches]
  | nextSibling => simp [Scope.reach, Combinator.Reaches]
  | subsequentSibling =>
      have found := @mem_later_siblings scope linked left [] (by simp) low
      simpa [Scope.reach, Combinator.Reaches] using found

end

/-! The frontier. -/

section
variable {tree : Tree} {root : NodeId}

theorem reach_in_scope (linked : tree.Linked) (combinator : Combinator) {left : List NodeId}
    (members : ∀ id ∈ left, id ∈ tree.descendants root) :
    ∀ low ∈ (Scope.of tree root).reach combinator left, low ∈ tree.descendants root := by
  intro low member
  have reached := @mem_reach (Scope.of tree root) root linked combinator left members low
  obtain ⟨high, isLeft, reaches⟩ := reached.mp member
  exact ((reaches_iff_climbs linked combinator (members high isLeft)).mp reaches).1

theorem frontier_eq (linked : tree.Linked) (combinator : Combinator) {left : List NodeId}
    (members : ∀ id ∈ left, id ∈ tree.descendants root) :
    (Scope.of tree root).frontier combinator left =
      (tree.descendants root).filter
        (((Scope.of tree root).reach combinator left).contains ·) :=
  Scope.in_document_order_eq (scope_listed linked root) (reach_in_scope linked combinator members)

/-- The frontier of a set is the part of the scope that the combinator leads to from it. -/
theorem mem_frontier_iff (linked : tree.Linked) (combinator : Combinator) {left : List NodeId}
    (members : ∀ id ∈ left, id ∈ tree.descendants root) (low : NodeId) :
    low ∈ (Scope.of tree root).frontier combinator left ↔
      ∃ high ∈ left, combinator.Reaches tree high low := by
  have inScope := reach_in_scope linked combinator members
  rw [frontier_eq linked combinator members, List.mem_filter, List.contains_iff_mem]
  have reached := @mem_reach (Scope.of tree root) root linked combinator left members low
  exact ⟨fun member => reached.mp member.2,
    fun found => ⟨inScope low (reached.mpr found), reached.mpr found⟩⟩

theorem frontier_sublist (linked : tree.Linked) (combinator : Combinator) {left : List NodeId}
    (members : ∀ id ∈ left, id ∈ tree.descendants root) :
    ((Scope.of tree root).frontier combinator left).Sublist (tree.descendants root) := by
  rw [frontier_eq linked combinator members]
  exact List.filter_sublist

theorem rank_of_reached (linked : tree.Linked) (combinator : Combinator) {left : List NodeId}
    (members : ∀ id ∈ left, id ∈ tree.descendants root) :
    ∀ low ∈ (Scope.of tree root).reach combinator left,
      ∃ rank < (tree.descendants root).length,
        (Scope.of tree root).ranks[low]? = some (some rank) := by
  intro low member
  have inScope := reach_in_scope linked combinator members low member
  refine ⟨(tree.descendants root).idxOf low, List.idxOf_lt_length_of_mem inScope, ?_⟩
  rw [Scope.ranks_eq (scope_listed linked root)]
  exact if_pos inScope

end

/-! Main results. -/

/-- One step along a combinator gives what the combinator leads to from some candidate, in the
order of the document and once each, whatever the order of the candidates and however often
they come. What is skipped on the way adds nothing, and nothing is sorted without a place. -/
theorem frontier_of_reached {tree : Tree} (built : tree.Built) (root : NodeId)
    (combinator : Combinator) (left : List NodeId)
    (members : ∀ id ∈ left, id ∈ (Scope.of tree root).fullSet) :
    (Scope.of tree root).frontier combinator left =
        (Scope.of tree root).fullSet.filter
          (fun low => decide (∃ high ∈ left, combinator.Reaches tree high low)) ∧
      ((Scope.of tree root).frontier combinator left).Nodup ∧
      (∀ low, low ∈ (Scope.of tree root).reach combinator left ↔
        ∃ high ∈ left, combinator.Reaches tree high low) ∧
      ∀ low ∈ (Scope.of tree root).reach combinator left,
        ∃ rank < (Scope.of tree root).fullSet.length,
          (Scope.of tree root).ranks[low]? = some (some rank) := by
  have linked := built.linked
  have reached := @mem_reach (Scope.of tree root) root linked combinator left members
  refine ⟨?_, ?_, reached, rank_of_reached linked combinator members⟩
  · rw [frontier_eq linked combinator members]
    apply List.filter_congr
    intro low _
    rw [Bool.eq_iff_iff, List.contains_iff_mem, decide_eq_true_iff]
    exact reached low
  · exact (frontier_sublist linked combinator members).nodup (linked.nodup_descendants root)

/-- The items come before the list that they are in, and one of them twice. -/
theorem items_reached_once :
    Tree.graftedList.Built ∧
      (Scope.of Tree.graftedList 0).frontier .descendant [5, 2, 1, 2] = [2, 5] ∧
      (Scope.of Tree.graftedList 0).frontier .subsequentSibling [5, 2, 1, 2] = [5] := by
  have built := Tree.grafted_list_built
  have below := frontier_of_reached built 0 .descendant [5, 2, 1, 2] (by decide)
  have behind := frontier_of_reached built 0 .subsequentSibling [5, 2, 1, 2] (by decide)
  exact ⟨built, below.1.trans (by decide), behind.1.trans (by decide)⟩

end TreeSelect
