import TreeSelect.Matching
import TreeSelect.Proofs.Combinators

/-!
What evaluation finds. Evaluation narrows and moves whole sets of elements; a selector also
stands for a relation between two elements, the one that its leftmost compound is tested on
and the one that its rightmost compound is tested on, and the relation looks up and back from
each element by itself. An element is found exactly where the relation ends in it. Of the
order of what is found only this much holds: without groups it is the order of the document.

Selectors need not have come from a text; chains may be nested to the right and hold groups.
-/

namespace TreeSelect

/-- An element passes a compound with its base and each of its filters. -/
def Scope.Passes (scope : Scope) (base : Option Base) (filters : List Simple) (id : NodeId) :
    Prop :=
  scope.passesBase id base = true ∧
    ∀ filter ∈ filters, filter.accepts scope (Base.hint? base) id = true

inductive Selector.Relates (scope : Scope) : Selector → NodeId → NodeId → Prop where
  | compound {base : Option Base} {filters : List Simple} {id : NodeId} :
      id ∈ scope.fullSet → scope.Passes base filters id →
      Relates scope (.compound base filters) id id
  | joined {left right : Selector} {combinator : Combinator} {start high low final : NodeId} :
      Relates scope left start high → combinator.Climbs scope.tree low high →
      Relates scope right low final →
      Relates scope (.joined left combinator right) start final
  | group {alternatives : List Selector} {alternative : Selector} {start final : NodeId} :
      alternative ∈ alternatives → Relates scope alternative start final →
      Relates scope (.group alternatives) start final

/-- No group is evaluated. What stands inside `:has()` is not, and does not count. -/
def Selector.isGroupFree : Selector → Bool
  | .group _ => false
  | .joined left _ right => left.isGroupFree && right.isGroupFree
  | .compound _ _ => true

theorem Selector.Relates.in_scope {scope : Scope} {selector : Selector} {start final : NodeId}
    (relates : selector.Relates scope start final) :
    start ∈ scope.fullSet ∧ final ∈ scope.fullSet := by
  induction relates with
  | compound member _ => exact ⟨member, member⟩
  | joined _ _ _ left right => exact ⟨left.1, right.2⟩
  | group _ _ ih => exact ih

/-! Compounds. -/

section
variable {scope : Scope} {base : Option Base} {filters : List Simple}

theorem passing_sublist (hint : Option String) (candidates : List NodeId) :
    (scope.passing hint filters candidates).Sublist candidates := by
  unfold Scope.passing
  induction filters generalizing candidates with
  | nil => exact List.Sublist.refl candidates
  | cons first rest ih =>
      rw [List.foldl_cons]
      exact (ih _).trans List.filter_sublist

theorem mem_passing_iff (hint : Option String) (candidates : List NodeId) (id : NodeId) :
    id ∈ scope.passing hint filters candidates ↔
      id ∈ candidates ∧ ∀ filter ∈ filters, filter.accepts scope hint id = true := by
  unfold Scope.passing
  induction filters generalizing candidates with
  | nil => simp
  | cons first rest ih =>
      rw [List.foldl_cons, ih, List.mem_filter, List.forall_mem_cons, and_assoc]

theorem compound_sublist (candidates : List NodeId) :
    (scope.compound base filters candidates).Sublist candidates :=
  (passing_sublist (Base.hint? base) _).trans List.filter_sublist

theorem mem_compound_iff (candidates : List NodeId) (id : NodeId) :
    id ∈ scope.compound base filters candidates ↔
      id ∈ candidates ∧ scope.Passes base filters id := by
  rw [Scope.compound, mem_passing_iff, List.mem_filter, Scope.Passes, and_assoc]

end

theorem nodup_eraseDups (ids : List NodeId) : ids.eraseDups.Nodup := by
  induction size : ids.length using Nat.strongRecOn generalizing ids with
  | ind size ih =>
      cases ids with
      | nil => exact List.nodup_nil
      | cons first rest =>
          rw [List.eraseDups_cons, List.nodup_cons]
          constructor
          · rw [List.mem_eraseDups, List.mem_filter]
            simp
          · apply ih _ _ _ rfl
            rw [← size, List.length_cons]
            exact Nat.lt_succ_of_le (List.length_filter_le _ _)

/-! Evaluation, one constructor at a time. -/

section
variable {tree : Tree} {root : NodeId}

/-- From the matches of the left side the frontier holds the other ends of all steps up or
back along the combinator, as long as these ends lie in the scope. -/
theorem mem_frontier_climbs (linked : tree.Linked) (combinator : Combinator)
    {left : List NodeId} (members : ∀ id ∈ left, id ∈ tree.descendants root) (low : NodeId) :
    low ∈ (Scope.of tree root).frontier combinator left ↔
      low ∈ tree.descendants root ∧ ∃ high ∈ left, combinator.Climbs tree low high := by
  rw [mem_frontier_iff linked combinator members]
  constructor
  · rintro ⟨high, member, reaches⟩
    have climbs := (reaches_iff_climbs linked combinator (members high member)).mp reaches
    exact ⟨climbs.1, high, member, climbs.2⟩
  · rintro ⟨inside, high, member, climbs⟩
    exact ⟨high, member,
      (reaches_iff_climbs linked combinator (members high member)).mpr ⟨inside, climbs⟩⟩

mutual
theorem mem_select_iff (linked : tree.Linked) : (selector : Selector) →
    (candidates : List NodeId) → (∀ id ∈ candidates, id ∈ tree.descendants root) →
      ∀ final, final ∈ (Scope.of tree root).select selector candidates ↔
        ∃ start ∈ candidates, selector.Relates (Scope.of tree root) start final
  | .group alternatives, candidates, members, final => by
      rw [Scope.select, List.mem_eraseDups, mem_select_each_iff linked alternatives _ members]
      constructor
      · rintro ⟨alternative, listed, start, member, relates⟩
        exact ⟨start, member, .group listed relates⟩
      · rintro ⟨start, member, relates⟩
        cases relates with
        | group listed relates => exact ⟨_, listed, start, member, relates⟩
  | .joined left combinator right, candidates, members, final => by
      -- The right side starts from the frontier, which stays within the scope.
      have before := mem_select_iff linked left candidates members
      have inScope : ∀ high ∈ (Scope.of tree root).select left candidates,
          high ∈ tree.descendants root := by
        intro high member
        obtain ⟨start, -, relates⟩ := (before high).mp member
        exact relates.in_scope.2
      have step := mem_frontier_climbs linked combinator inScope
      rw [Scope.select, mem_select_iff linked right _ fun low member => ((step low).mp member).1]
      constructor
      · rintro ⟨low, member, after⟩
        obtain ⟨-, high, found, climbs⟩ := (step low).mp member
        obtain ⟨start, isStart, relates⟩ := (before high).mp found
        exact ⟨start, isStart, .joined relates climbs after⟩
      · rintro ⟨start, isStart, relates⟩
        cases relates with
        | @joined _ _ _ _ high low _ relates climbs after =>
            have found := (before high).mpr ⟨start, isStart, relates⟩
            exact ⟨low, (step low).mpr ⟨after.in_scope.1, high, found, climbs⟩, after⟩
  | .compound base filters, candidates, members, final => by
      rw [Scope.select, mem_compound_iff]
      constructor
      · rintro ⟨member, passes⟩
        exact ⟨final, member, .compound (members final member) passes⟩
      · rintro ⟨start, member, relates⟩
        cases relates with
        | compound _ passes => exact ⟨member, passes⟩

theorem mem_select_each_iff (linked : tree.Linked) : (alternatives : List Selector) →
    (candidates : List NodeId) → (∀ id ∈ candidates, id ∈ tree.descendants root) →
      ∀ final, final ∈ (Scope.of tree root).selectEach alternatives candidates ↔
        ∃ alternative ∈ alternatives, ∃ start ∈ candidates,
          alternative.Relates (Scope.of tree root) start final
  | [], _, _, final => by simp [Scope.selectEach]
  | first :: rest, candidates, members, final => by
      rw [Scope.selectEach, List.mem_append, mem_select_iff linked first candidates members,
        mem_select_each_iff linked rest candidates members]
      simp
end

theorem select_in_scope (linked : tree.Linked) (selector : Selector) {candidates : List NodeId}
    (members : ∀ id ∈ candidates, id ∈ tree.descendants root) :
    ∀ id ∈ (Scope.of tree root).select selector candidates, id ∈ tree.descendants root := by
  intro id member
  obtain ⟨start, -, relates⟩ := (mem_select_iff linked selector candidates members id).mp member
  exact relates.in_scope.2

theorem frontier_of_left (linked : tree.Linked) (left : Selector) (combinator : Combinator)
    {candidates : List NodeId} (members : ∀ id ∈ candidates, id ∈ tree.descendants root) :
    ((Scope.of tree root).frontier combinator
      ((Scope.of tree root).select left candidates)).Sublist (tree.descendants root) :=
  frontier_sublist linked combinator (select_in_scope linked left members)

/-- A frontier holds no element twice, whatever it was reached from. -/
theorem select_nodup (linked : tree.Linked) : (selector : Selector) →
    (candidates : List NodeId) → (∀ id ∈ candidates, id ∈ tree.descendants root) →
      candidates.Nodup → ((Scope.of tree root).select selector candidates).Nodup
  | .group _, _, _, _ => by
      rw [Scope.select]
      exact nodup_eraseDups _
  | .joined left combinator right, candidates, members, _ => by
      have frontier := frontier_of_left linked left combinator members
      rw [Scope.select]
      exact select_nodup linked right _ (fun _ member => frontier.subset member)
        (frontier.nodup (linked.nodup_descendants root))
  | .compound _ _, candidates, _, once => by
      rw [Scope.select]
      exact (compound_sublist candidates).nodup once

/-- A frontier is in order, whatever it was reached from, and compounds keep the order. -/
theorem select_sublist (linked : tree.Linked) : (selector : Selector) →
    selector.isGroupFree = true → (candidates : List NodeId) →
      candidates.Sublist (tree.descendants root) →
        ((Scope.of tree root).select selector candidates).Sublist (tree.descendants root)
  | .group _, free, _, _ => by cases free
  | .joined left combinator right, free, candidates, ordered => by
      rw [Selector.isGroupFree, Bool.and_eq_true] at free
      rw [Scope.select]
      have frontier := frontier_of_left linked left combinator fun _ member =>
        ordered.subset member
      exact select_sublist linked right free.2 _ frontier
  | .compound _ _, _, candidates, ordered => by
      rw [Scope.select]
      exact (compound_sublist candidates).trans ordered

end

/-- A list of two items with a text between them. -/
def shortList : Tree :=
  (((Tree.empty.append Tree.rootId (.element ⟨"ul", []⟩)).append 1 (.element ⟨"li", []⟩)).append 1
    (.text "and")).append 1 (.element ⟨"li", []⟩)

theorem short_list_built : shortList.Built := by
  apply Tree.Built.append _ _ (by decide)
  apply Tree.Built.append _ _ (by decide)
  apply Tree.Built.append _ _ (by decide)
  exact Tree.Built.append _ .empty (by decide)

/-! Main results. -/

/-- An element below the root is found exactly where some element below the root leads to it,
compound by compound, each looking up and back from itself. -/
theorem mem_evaluate_iff_relates {tree : Tree} (built : tree.Built) (root : NodeId)
    (selector : Selector) (id : NodeId) :
    id ∈ evaluate selector tree root ↔
      ∃ start ∈ tree.descendants root, selector.Relates (Scope.of tree root) start id := by
  apply mem_select_iff built.linked selector
  exact fun _ member => member

/-- `ul > (li + :nth-child(2))`, nested to the right and with a group in the middle. -/
def secondItem : Selector :=
  .joined (.compound (some (.type "ul")) []) .child
    (.joined (.group [.compound (some (.type "li")) []]) .nextSibling
      (.compound none [.functional "nth-child" (.integer 2)]))

theorem second_item_related :
    shortList.Built ∧ 4 ∈ evaluate secondItem shortList 0 ∧
      ∃ start ∈ shortList.descendants 0, secondItem.Relates (Scope.of shortList 0) start 4 := by
  have list : (Selector.compound (some (.type "ul")) []).Relates (Scope.of shortList 0) 1 1 :=
    .compound (by decide) ⟨by decide +kernel, by simp⟩
  have first : (Selector.group [.compound (some (.type "li")) []]).Relates
      (Scope.of shortList 0) 2 2 :=
    .group List.mem_cons_self (.compound (by decide) ⟨by decide +kernel, by simp⟩)
  have second : (Selector.compound none [.functional "nth-child" (.integer 2)]).Relates
      (Scope.of shortList 0) 4 4 := by
    refine .compound (by decide) ⟨by decide, ?_⟩
    intro filter member
    rw [List.mem_singleton.mp member]
    decide +kernel
  have steps : Combinator.child.Climbs shortList 2 1 ∧
      Combinator.nextSibling.Climbs shortList 4 2 := ⟨rfl, rfl⟩
  have relates : ∃ start ∈ shortList.descendants 0,
      secondItem.Relates (Scope.of shortList 0) start 4 :=
    ⟨1, by decide, .joined list steps.1 (.joined first steps.2 second)⟩
  exact ⟨short_list_built,
    (mem_evaluate_iff_relates short_list_built 0 secondItem 4).mpr relates, relates⟩

/-- Only elements below the root are found, each of them once, and where no group is evaluated
in the order of the document. -/
theorem evaluate_in_document_order {tree : Tree} (built : tree.Built) (root : NodeId)
    (selector : Selector) :
    (∀ id ∈ evaluate selector tree root, id ∈ tree.descendants root) ∧
      (evaluate selector tree root).Nodup ∧
      (selector.isGroupFree = true →
        (evaluate selector tree root).Sublist (tree.descendants root)) := by
  have linked := built.linked
  have members : ∀ id ∈ tree.descendants root, id ∈ tree.descendants root :=
    fun _ member => member
  constructor
  · exact select_in_scope linked selector members
  constructor
  · exact select_nodup linked selector _ members (linked.nodup_descendants root)
  · intro free
    exact select_sublist linked selector free _ (List.Sublist.refl _)

/-- `* li`, where `*` leads to the items from three elements. -/
def itemsBelow : Selector :=
  .joined (.compound (some .universal) []) .descendant (.compound (some (.type "li")) [])

theorem items_in_document_order :
    shortList.Built ∧ itemsBelow.isGroupFree = true ∧ evaluate itemsBelow shortList 0 = [2, 4] ∧
      (∀ id ∈ evaluate itemsBelow shortList 0, id ∈ shortList.descendants 0) ∧
      (evaluate itemsBelow shortList 0).Nodup ∧
      (evaluate itemsBelow shortList 0).Sublist (shortList.descendants 0) := by
  have result := evaluate_in_document_order short_list_built 0 itemsBelow
  let scope := Scope.of shortList 0
  have every : scope.compound (some .universal) [] scope.fullSet = [1, 2, 4] := by decide
  -- The order is not computed but known: what is reached, as the document lists it.
  have reached : scope.frontier .descendant [1, 2, 4] = [2, 4] := by
    have listed := scope_listed short_list_built.linked 0
    exact (Scope.in_document_order_eq listed (by decide)).trans (by decide)
  have items : scope.compound (some (.type "li")) [] [2, 4] = [2, 4] := by decide +kernel
  have found : evaluate itemsBelow shortList 0 = [2, 4] := by
    rw [evaluate, Scope.evaluate, itemsBelow, Scope.select, Scope.select, Scope.select, every,
      reached, items]
  exact ⟨short_list_built, rfl, found, result.1, result.2.1, result.2.2 rfl⟩

end TreeSelect
