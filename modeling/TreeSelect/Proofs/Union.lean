import Mathlib.Data.List.Basic
import Mathlib.Data.List.Induction
import TreeSelect.Proofs.Evaluation

/-!
Groups as unions. A group gives what its alternatives find by themselves, one behind the other,
without what was seen before. So of the alternatives of a group only this counts: what each of
them adds to those before it. That an alternative by itself finds nothing twice is part of it,
and rests on the tree.
-/

namespace TreeSelect

/-- The entries of a list, each at the place of its first occurrence. -/
structure FirstSeen (all seen : List NodeId) : Prop where
  mem_iff : ∀ id, id ∈ seen ↔ id ∈ all
  in_order : seen.Pairwise fun first second => all.idxOf first < all.idxOf second

/-! Lists without their later repeats. -/

theorem erase_dups_concat (all : List NodeId) (last : NodeId) :
    (all ++ [last]).eraseDups =
      if last ∈ all then all.eraseDups else all.eraseDups ++ [last] := by
  rw [List.eraseDups_append, List.removeAll]
  by_cases known : last ∈ all
  · simp [known]
  · simp [known, List.eraseDups_cons]

theorem first_seen_erase_dups (all : List NodeId) : FirstSeen all all.eraseDups := by
  induction all using List.reverseRecOn with
  | nil => exact ⟨fun id => Iff.rfl, .nil⟩
  | append_singleton all last ih =>
      refine ⟨fun id => List.mem_eraseDups, ?_⟩
      -- What was seen keeps its first place, and what is new stands behind all of it.
      have place : ∀ id ∈ all.eraseDups, (all ++ [last]).idxOf id = all.idxOf id :=
        fun id member => List.idxOf_append_of_mem ((ih.mem_iff id).mp member)
      have old : all.eraseDups.Pairwise fun first second =>
          (all ++ [last]).idxOf first < (all ++ [last]).idxOf second := by
        apply ih.in_order.imp_of_mem
        intro first second isFirst isSecond earlier
        rwa [place first isFirst, place second isSecond]
      rw [erase_dups_concat]
      by_cases known : last ∈ all
      · rwa [if_pos known]
      · rw [if_neg known, List.pairwise_append]
        refine ⟨old, List.pairwise_singleton _ last, ?_⟩
        intro id member other isLast
        rw [List.mem_singleton.mp isLast, place id member, List.idxOf_append_of_notMem known]
        exact Nat.lt_of_lt_of_le (List.idxOf_lt_length_of_mem ((ih.mem_iff id).mp member))
          (Nat.le_add_right _ _)

theorem erase_dups_filter (all : List NodeId) (test : NodeId → Bool) :
    (all.filter test).eraseDups = all.eraseDups.filter test := by
  induction all using List.reverseRecOn with
  | nil => rfl
  | append_singleton all last ih =>
      rw [List.filter_append, erase_dups_concat]
      by_cases kept : test last = true <;> by_cases known : last ∈ all
      · simp [kept, known, erase_dups_concat, ih]
      · simp [kept, known, erase_dups_concat, ih]
      · simp [kept, known, ih]
      · simp [kept, known, ih]

theorem erase_dups_alone {ids : List NodeId} (once : ids.Nodup) : ids.eraseDups = ids := by
  induction ids using List.reverseRecOn with
  | nil => rfl
  | append_singleton ids last ih =>
      rw [List.nodup_append] at once
      have new : last ∉ ids := fun member => once.2.2 last member last List.mem_cons_self rfl
      rw [erase_dups_concat, if_neg new, ih once.1]

/-- What is seen of two lists depends on what is seen of each. -/
theorem erase_dups_append_congr {front front' back back' : List NodeId}
    (sameFront : front.eraseDups = front'.eraseDups)
    (sameBack : back.eraseDups = back'.eraseDups) :
    (front ++ back).eraseDups = (front' ++ back').eraseDups := by
  have known : ∀ id, front.contains id = front'.contains id := by
    intro id
    rw [Bool.eq_iff_iff, List.contains_iff_mem, List.contains_iff_mem, ← List.mem_eraseDups,
      sameFront, List.mem_eraseDups]
  rw [List.eraseDups_append, List.eraseDups_append, sameFront, List.removeAll, List.removeAll,
    erase_dups_filter, erase_dups_filter, sameBack]
  simp only [List.elem_eq_contains, known]

theorem erase_dups_known {front back : List NodeId} (known : ∀ id ∈ back, id ∈ front) :
    (front ++ back).eraseDups = front.eraseDups := by
  have nothing : back.removeAll front = [] := by
    rw [List.removeAll, List.filter_eq_nil_iff]
    intro id member
    simp [known id member]
  rw [List.eraseDups_append, nothing]
  simp

/-! Groups inside groups. -/

mutual
/-- The alternatives of a group, and theirs in the place of those that are groups. -/
def Selector.leaves : Selector → List Selector
  | .group alternatives => leavesOfEach alternatives
  | .joined left combinator right => [.joined left combinator right]
  | .compound base filters => [.compound base filters]

def leavesOfEach : List Selector → List Selector
  | [] => []
  | first :: rest => first.leaves ++ leavesOfEach rest
end

mutual
theorem leaves_no_group : (selector : Selector) → ∀ leaf ∈ selector.leaves, ∀ inner,
    leaf ≠ .group inner
  | .group alternatives, leaf, member, inner =>
      leaves_of_each_no_group alternatives leaf member inner
  | .joined _ _ _, leaf, member, inner => by
      rw [List.mem_singleton.mp member]
      exact Selector.noConfusion
  | .compound _ _, leaf, member, inner => by
      rw [List.mem_singleton.mp member]
      exact Selector.noConfusion

theorem leaves_of_each_no_group : (alternatives : List Selector) →
    ∀ leaf ∈ leavesOfEach alternatives, ∀ inner, leaf ≠ .group inner
  | first :: rest, leaf, member, inner => by
      rcases List.mem_append.mp member with here | later
      · exact leaves_no_group first leaf here inner
      · exact leaves_of_each_no_group rest leaf later inner
end

theorem leaves_of_each_append (front back : List Selector) :
    leavesOfEach (front ++ back) = leavesOfEach front ++ leavesOfEach back := by
  induction front with
  | nil => rfl
  | cons first rest ih => rw [List.cons_append, leavesOfEach, leavesOfEach, ih, List.append_assoc]

section
variable {scope : Scope}

theorem select_each_append (front back : List Selector) (candidates : List NodeId) :
    scope.selectEach (front ++ back) candidates =
      scope.selectEach front candidates ++ scope.selectEach back candidates := by
  induction front with
  | nil => rfl
  | cons first rest ih =>
      rw [List.cons_append, Scope.selectEach, Scope.selectEach, ih, List.append_assoc]

mutual
theorem select_leaves : (selector : Selector) → (candidates : List NodeId) →
    (scope.selectEach selector.leaves candidates).eraseDups =
      (scope.select selector candidates).eraseDups
  | .group alternatives, candidates => by
      rw [Scope.select, Selector.leaves, select_leaves_of_each alternatives candidates,
        erase_dups_alone (nodup_eraseDups _)]
  | .joined left combinator right, candidates => by
      rw [Selector.leaves, Scope.selectEach, Scope.selectEach, List.append_nil]
  | .compound base filters, candidates => by
      rw [Selector.leaves, Scope.selectEach, Scope.selectEach, List.append_nil]

theorem select_leaves_of_each : (alternatives : List Selector) → (candidates : List NodeId) →
    (scope.selectEach (leavesOfEach alternatives) candidates).eraseDups =
      (scope.selectEach alternatives candidates).eraseDups
  | [], _ => rfl
  | first :: rest, candidates => by
      rw [leavesOfEach, select_each_append, Scope.selectEach]
      exact erase_dups_append_congr (select_leaves first candidates)
        (select_leaves_of_each rest candidates)
end

end

/-! Groups. -/

section
variable {tree : Tree} {root : NodeId}

/-- What the selectors find by themselves, one behind the other. -/
def foundByEach (tree : Tree) (root : NodeId) (selectors : List Selector) : List NodeId :=
  selectors.flatMap fun selector => evaluate selector tree root

theorem found_by_each_append (front back : List Selector) :
    foundByEach tree root (front ++ back) =
      foundByEach tree root front ++ foundByEach tree root back :=
  List.flatMap_append

theorem found_by_each_cons (first : Selector) (rest : List Selector) :
    foundByEach tree root (first :: rest) =
      evaluate first tree root ++ foundByEach tree root rest :=
  List.flatMap_cons

theorem mem_found_by_each {selectors : List Selector} {id : NodeId} :
    id ∈ foundByEach tree root selectors ↔
      ∃ selector ∈ selectors, id ∈ evaluate selector tree root :=
  List.mem_flatMap

theorem select_each_eq (alternatives : List Selector) :
    (Scope.of tree root).selectEach alternatives (Scope.of tree root).fullSet =
      foundByEach tree root alternatives := by
  induction alternatives with
  | nil => rfl
  | cons first rest ih => rw [Scope.selectEach, ih, found_by_each_cons]; rfl

theorem evaluate_group (alternatives : List Selector) :
    evaluate (.group alternatives) tree root = (foundByEach tree root alternatives).eraseDups := by
  rw [evaluate, Scope.evaluate, Scope.select, select_each_eq]

theorem mem_evaluate_group {alternatives : List Selector} {id : NodeId} :
    id ∈ evaluate (.group alternatives) tree root ↔
      ∃ alternative ∈ alternatives, id ∈ evaluate alternative tree root := by
  rw [evaluate_group, List.mem_eraseDups, mem_found_by_each]

/-- An alternative that adds nothing to those before it is not missed. -/
theorem group_without {before after : List Selector} {alternative : Selector}
    (known : ∀ id ∈ evaluate alternative tree root,
      ∃ earlier ∈ before, id ∈ evaluate earlier tree root) :
    evaluate (.group (before ++ after)) tree root =
      evaluate (.group (before ++ alternative :: after)) tree root := by
  have nothing := erase_dups_known fun id member => mem_found_by_each.mpr (known id member)
  rw [evaluate_group, evaluate_group, found_by_each_append, found_by_each_append,
    found_by_each_cons, ← List.append_assoc]
  exact erase_dups_append_congr nothing.symm rfl

theorem group_of_leaves (alternatives : List Selector) :
    evaluate (.group (leavesOfEach alternatives)) tree root =
      evaluate (.group alternatives) tree root := by
  rw [evaluate_group, evaluate_group, ← select_each_eq, ← select_each_eq]
  exact select_leaves_of_each alternatives _

theorem group_flattened (before inner after : List Selector) :
    evaluate (.group (before ++ inner ++ after)) tree root =
      evaluate (.group (before ++ .group inner :: after)) tree root := by
  rw [← group_of_leaves, ← group_of_leaves (before ++ .group inner :: after),
    leaves_of_each_append, leaves_of_each_append, leaves_of_each_append, List.append_assoc]
  rfl

theorem group_permuted {alternatives other : List Selector} (permuted : alternatives.Perm other) :
    (evaluate (.group other) tree root).Perm (evaluate (.group alternatives) tree root) := by
  rw [List.perm_ext_iff_of_nodup]
  · intro id
    simp only [mem_evaluate_group, permuted.mem_iff]
  · rw [evaluate_group]
    exact nodup_eraseDups _
  · rw [evaluate_group]
    exact nodup_eraseDups _

/-- Only what an alternative finds twice by itself could come twice, and there is no such thing. -/
theorem group_repeated (built : tree.Built) (selector : Selector) (count : Nat) :
    evaluate (.group (List.replicate (count + 1) selector)) tree root =
      evaluate selector tree root := by
  have linked := built.linked
  have once : (evaluate selector tree root).Nodup :=
    select_nodup linked selector _ (fun _ member => member) (linked.nodup_descendants root)
  induction count with
  | zero =>
      rw [evaluate_group, List.replicate_one, found_by_each_cons]
      exact (congrArg List.eraseDups (List.append_nil _)).trans (erase_dups_alone once)
  | succ count ih =>
      have known : ∀ id ∈ evaluate selector tree root,
          ∃ earlier ∈ [selector], id ∈ evaluate earlier tree root :=
        fun id member => ⟨selector, List.mem_cons_self, member⟩
      calc evaluate (.group ([selector] ++ selector :: List.replicate count selector)) tree root
        _ = evaluate (.group ([selector] ++ List.replicate count selector)) tree root :=
          (group_without known).symm
        _ = evaluate selector tree root := ih

end

/-- A group lists what its alternatives find by themselves, each element where it is first seen.
So an alternative that adds nothing may be left out, a repeated one counts once, groups among the
alternatives may be opened, one or all of them, and the order of the alternatives decides on the
order of the result alone. -/
theorem group_unites_alternatives {tree : Tree} (built : tree.Built) (root : NodeId)
    (alternatives : List Selector) :
    evaluate (.group alternatives) tree root =
        (foundByEach tree root alternatives).eraseDups ∧
      FirstSeen (foundByEach tree root alternatives) (evaluate (.group alternatives) tree root) ∧
      (∀ before alternative after, alternatives = before ++ alternative :: after →
        (∀ id ∈ evaluate alternative tree root,
          ∃ earlier ∈ before, id ∈ evaluate earlier tree root) →
        evaluate (.group (before ++ after)) tree root =
          evaluate (.group alternatives) tree root) ∧
      (∀ selector count, 1 ≤ count →
        evaluate (.group (List.replicate count selector)) tree root =
          evaluate selector tree root) ∧
      (∀ before inner after, alternatives = before ++ .group inner :: after →
        evaluate (.group (before ++ inner ++ after)) tree root =
          evaluate (.group alternatives) tree root) ∧
      ((∀ leaf ∈ leavesOfEach alternatives, ∀ inner, leaf ≠ .group inner) ∧
        evaluate (.group (leavesOfEach alternatives)) tree root =
          evaluate (.group alternatives) tree root) ∧
      ∀ other, alternatives.Perm other →
        (evaluate (.group other) tree root).Perm (evaluate (.group alternatives) tree root) := by
  refine ⟨evaluate_group alternatives, ?_, ?_, ?_, ?_, ?_, ?_⟩
  · rw [evaluate_group]
    exact first_seen_erase_dups _
  · rintro before alternative after rfl known
    exact group_without known
  · intro selector count atLeastOne
    obtain ⟨more, rfl⟩ := Nat.exists_eq_add_of_le' atLeastOne
    exact group_repeated built selector more
  · rintro before inner after rfl
    exact group_flattened before inner after
  · exact ⟨leaves_of_each_no_group alternatives, group_of_leaves alternatives⟩
  · exact fun other permuted => group_permuted permuted

def listItem : Selector := .compound (some (.type "li")) []

def wholeList : Selector := .compound (some (.type "ul")) []

/-- `li, (ul, li)`: the items come before the list that holds them. -/
theorem items_before_list :
    shortList.Built ∧
      evaluate (.group [listItem, .group [wholeList, listItem]]) shortList 0 = [2, 4, 1] ∧
      evaluate (.group [listItem, wholeList, listItem]) shortList 0 = [2, 4, 1] ∧
      evaluate (.group [listItem, wholeList]) shortList 0 = [2, 4, 1] ∧
      evaluate (.group [listItem, listItem, listItem]) shortList 0 = [2, 4] ∧
      (evaluate (.group [wholeList, listItem]) shortList 0).Perm [2, 4, 1] := by
  have items : evaluate listItem shortList 0 = [2, 4] := by decide +kernel
  have list : evaluate wholeList shortList 0 = [1] := by decide +kernel
  have both := group_unites_alternatives short_list_built 0 [listItem, wholeList]
  have again := group_unites_alternatives short_list_built 0 [listItem, wholeList, listItem]
  have nested := group_unites_alternatives short_list_built 0
    [listItem, .group [wholeList, listItem]]
  have two : evaluate (.group [listItem, wholeList]) shortList 0 = [2, 4, 1] := by
    rw [both.1, foundByEach, List.flatMap_cons, List.flatMap_singleton, items, list]
    decide
  have three : evaluate (.group [listItem, wholeList, listItem]) shortList 0 = [2, 4, 1] := by
    rw [← two]
    exact (again.2.2.1 [listItem, wholeList] listItem [] rfl fun id member =>
      ⟨listItem, List.mem_cons_self, member⟩).symm
  have opened := nested.2.2.2.2.1 [listItem] [wholeList, listItem] [] rfl
  have repeated := both.2.2.2.1 listItem 3 (by decide)
  have turned := both.2.2.2.2.2.2 [wholeList, listItem] (.swap _ _ _)
  rw [two] at turned
  exact ⟨short_list_built, opened.symm.trans three, three, two, repeated.trans items, turned⟩

end TreeSelect
