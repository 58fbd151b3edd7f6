import Mathlib
import TreeSelect.Proofs.Evaluation
import TreeSelect.Proofs.Judgement

/-!
Evaluation below an inner root. The elements below an element are a part of those below any
root that it lies under, in the same order; whether one of them passes a test does not depend
on the root at all, since siblings are counted from their parent and `:root` is looked for
from the top of the tree. So a smaller root loses matches, namely those that were reached from
outside of it, and never makes new ones.
-/

namespace TreeSelect

/-! Tests do not see which elements a scope covers. -/

/-- The same tree and the same document element, with other elements to start from. -/
def Scope.covering (scope : Scope) (ids : List NodeId) : Scope := { scope with fullSet := ids }

section
variable (scope : Scope) (ids : List NodeId) (hint : Option String) (id : NodeId)

theorem judges_covering :
    (scope.covering ids).JudgesAlike scope hint hint id id where
  data := rfl
  inClass name := by
    have same (tag : String) (pseudoClass : PseudoClass) :
        (scope.covering ids).inClass id tag pseudoClass = scope.inClass id tag pseudoClass := by
      cases pseudoClass <;> rfl
    simp only [Scope.inPseudoClass, same]
    rfl
  inFunction _ _ := rfl

theorem passes_covering (base : Option Base) (filters : List Simple) :
    (scope.covering ids).Passes base filters id ↔ scope.Passes base filters id := by
  have accepts := (judges_covering scope ids (Base.hint? base) id).accepts
  simp only [Scope.Passes, accepts]
  rfl

end

/-! An inner root. -/

section
variable {tree : Tree} {root inner : NodeId}

theorem descendants_narrowed (linked : tree.Linked) (below : inner ∈ tree.descendants root) :
    (tree.descendants inner).Sublist (tree.descendants root) :=
  (List.sublist_cons_self _ _).trans (linked.block_of_descendant below).sublist

/-- The scope of an inner root differs from that of the outer one in what it covers alone. -/
theorem scope_narrowed (linked : tree.Linked) (below : inner ∈ tree.descendants root) :
    Scope.of tree inner = (Scope.of tree root).covering (tree.descendants inner) := by
  have top := linked.top_of_descendant below
  rw [Scope.of, Scope.of, Scope.covering, Tree.documentElement?, Tree.documentElement?, top]

theorem relates_narrowed (linked : tree.Linked) (below : inner ∈ tree.descendants root)
    {selector : Selector} {start final : NodeId}
    (relates : selector.Relates (Scope.of tree inner) start final) :
    selector.Relates (Scope.of tree root) start final := by
  induction relates with
  | compound member passes =>
      rw [scope_narrowed linked below, passes_covering] at passes
      exact .compound ((descendants_narrowed linked below).subset member) passes
  | joined _ climbs _ before after => exact .joined before climbs after
  | group listed _ ih => exact .group listed ih

/-- A part of a list without repeats is told by its members. -/
theorem filter_part {part whole : List NodeId} (kept : part.Sublist whole)
    (once : whole.Nodup) : whole.filter part.contains = part := by
  induction kept with
  | slnil => rfl
  | @cons part whole first kept ih =>
      obtain ⟨absent, once⟩ := List.nodup_cons.mp once
      have skipped : ¬ part.contains first = true := fun member =>
        absent (kept.subset (List.contains_iff_mem.mp member))
      rw [List.filter_cons_of_neg skipped, ih once]
  | @cons_cons part whole first kept ih =>
      obtain ⟨absent, once⟩ := List.nodup_cons.mp once
      rw [List.filter_cons_of_pos (by simp)]
      refine congrArg (first :: ·) (Eq.trans ?_ (ih once))
      apply List.filter_congr
      intro id member
      have other : id ≠ first := fun same => absent (same ▸ member)
      simp [other]

/-- Of two parts of one list without repeats, the smaller one is a part of the other. -/
theorem sublist_of_subset {part other whole : List NodeId} (once : whole.Nodup)
    (kept : part.Sublist whole) (kept' : other.Sublist whole) (subset : part ⊆ other) :
    part.Sublist other := by
  have same : other.filter part.contains = part := by
    rw [← filter_part kept' once, List.filter_filter]
    refine Eq.trans (List.filter_congr fun id _ => ?_) (filter_part kept once)
    rw [Bool.eq_iff_iff, Bool.and_eq_true, List.contains_iff_mem, List.contains_iff_mem]
    exact ⟨And.left, fun member => ⟨member, subset member⟩⟩
  rw [← same]
  exact List.filter_sublist

theorem eq_of_members {part other whole : List NodeId} (once : whole.Nodup)
    (kept : part.Sublist whole) (kept' : other.Sublist whole)
    (same : ∀ id, id ∈ part ↔ id ∈ other) : part = other := by
  have smaller := sublist_of_subset once kept kept' fun id => (same id).mp
  exact smaller.eq_of_length_le (sublist_of_subset once kept' kept fun id => (same id).mpr).length_le

theorem compound_narrowed (linked : tree.Linked) (below : inner ∈ tree.descendants root)
    (base : Option Base) (filters : List Simple) :
    evaluate (.compound base filters) tree inner =
      (evaluate (.compound base filters) tree root).filter (tree.descendants inner).contains := by
  have parts := descendants_narrowed linked below
  have once := linked.nodup_descendants root
  have found : ∀ top id, id ∈ evaluate (.compound base filters) tree top ↔
      id ∈ tree.descendants top ∧ (Scope.of tree top).Passes base filters id := by
    intro top id
    rw [evaluate, Scope.evaluate, Scope.select]
    exact mem_compound_iff _ id
  have kept : ∀ top, (evaluate (.compound base filters) tree top).Sublist
      (tree.descendants top) := by
    intro top
    rw [evaluate, Scope.evaluate, Scope.select]
    exact compound_sublist _
  -- Both sides are parts of the outer list, so it is enough that they have the same members.
  have same : ∀ id, id ∈ evaluate (.compound base filters) tree inner ↔
      id ∈ (evaluate (.compound base filters) tree root).filter
        (tree.descendants inner).contains := by
    intro id
    rw [List.mem_filter, List.contains_iff_mem, found, found, scope_narrowed linked below,
      passes_covering]
    constructor
    · rintro ⟨member, passes⟩
      exact ⟨⟨parts.subset member, passes⟩, member⟩
    · rintro ⟨⟨-, passes⟩, member⟩
      exact ⟨member, passes⟩
  have inner' := (kept inner).trans parts
  have outer' := (kept root).filter (tree.descendants inner).contains |>.trans List.filter_sublist
  exact eq_of_members once inner' outer' same

end

/-- Below an inner element a selector finds nothing that it does not find below the root, and
without groups in the same order; a compound by itself finds all of that which lies below the
inner element. -/
theorem evaluate_narrowed {tree : Tree} (built : tree.Built) {root inner : NodeId}
    (below : inner ∈ tree.descendants root) :
    (∀ selector, (∀ id ∈ evaluate selector tree inner, id ∈ evaluate selector tree root) ∧
      (selector.isGroupFree = true →
        (evaluate selector tree inner).Sublist (evaluate selector tree root))) ∧
    ∀ base filters, evaluate (.compound base filters) tree inner =
      (evaluate (.compound base filters) tree root).filter (tree.descendants inner).contains := by
  have linked := built.linked
  have parts := descendants_narrowed linked below
  have all : ∀ top, ∀ id ∈ tree.descendants top, id ∈ tree.descendants top :=
    fun _ _ member => member
  refine ⟨fun selector => ?_, compound_narrowed linked below⟩
  have subset : ∀ id ∈ evaluate selector tree inner, id ∈ evaluate selector tree root := by
    intro id member
    obtain ⟨start, isStart, relates⟩ := (mem_select_iff linked selector _ (all inner) id).mp member
    exact (mem_select_iff linked selector _ (all root) id).mpr
      ⟨start, parts.subset isStart, relates_narrowed linked below relates⟩
  refine ⟨subset, fun free => ?_⟩
  exact sublist_of_subset (linked.nodup_descendants root)
    ((select_sublist linked selector free _ (List.Sublist.refl _)).trans parts)
    (select_sublist linked selector free _ (List.Sublist.refl _)) subset

/-- A list whose first item holds a list of one item. -/
def nestedList : Tree :=
  ((((Tree.empty.append Tree.rootId (.element ⟨"ul", []⟩)).append 1 (.element ⟨"li", []⟩)).append
    2 (.element ⟨"ul", []⟩)).append 3 (.element ⟨"li", []⟩)).append 1 (.element ⟨"li", []⟩)

/-- `ul li`, below the document and below the first item. -/
def nestedItems : Selector :=
  .joined (.compound (some (.type "ul")) []) .descendant (.compound (some (.type "li")) [])

theorem nested_items_narrowed :
    nestedList.Built ∧ 2 ∈ nestedList.descendants 0 ∧ nestedItems.isGroupFree = true ∧
      evaluate nestedItems nestedList 0 = [2, 4, 5] ∧ evaluate nestedItems nestedList 2 = [4] ∧
      (evaluate nestedItems nestedList 2).Sublist (evaluate nestedItems nestedList 0) ∧
      evaluate (.compound (some (.type "li")) []) nestedList 2 = [4] := by
  have built : nestedList.Built := by
    apply Tree.Built.append _ _ (by decide)
    apply Tree.Built.append _ _ (by decide)
    apply Tree.Built.append _ _ (by decide)
    apply Tree.Built.append _ _ (by decide)
    exact Tree.Built.append _ .empty (by decide)
  have below : 2 ∈ nestedList.descendants 0 := by decide
  have result := evaluate_narrowed built below
  have items : evaluate (.compound (some (.type "li")) []) nestedList 2 = [4] := by
    rw [result.2]
    decide +kernel
  exact ⟨built, below, rfl, by cbv, by cbv, (result.1 nestedItems).2 rfl, items⟩

end TreeSelect
