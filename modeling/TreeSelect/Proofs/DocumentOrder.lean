import TreeSelect.Matching.Frontier

/-!
Sorting into document order. Where the elements of a scope are listed once each, the table of
ranks holds the place of every one of them, and putting any of them in order, in whatever
order and how often they come, gives the part of the listing that they make up.
-/

namespace TreeSelect.Scope

/-- The listing of a scope as it comes from a tree: nodes of the tree, once each. -/
structure Listed (scope : Scope) : Prop where
  once : scope.fullSet.Nodup
  inside : ∀ id ∈ scope.fullSet, id < scope.tree.size

/-! Ranks. -/

theorem fold_ranks (ids : List NodeId) (first : Nat) (table : Array (Option Nat)) (id : NodeId)
    (once : ids.Nodup) (inside : ∀ other ∈ ids, other < table.size) :
    ((ids.zipIdx first).foldl (fun ranks entry => ranks.setIfInBounds entry.1 (some entry.2))
        table)[id]? =
      if id ∈ ids then some (some (first + ids.idxOf id)) else table[id]? := by
  induction ids generalizing first table with
  | nil => simp
  | cons head ids ih =>
      have bound := inside head List.mem_cons_self
      have later : ∀ other ∈ ids, other < (table.setIfInBounds head (some first)).size := by
        intro other member
        rw [Array.size_setIfInBounds]
        exact inside other (List.mem_cons_of_mem head member)
      rw [List.nodup_cons] at once
      rw [List.zipIdx_cons, List.foldl_cons, ih (first + 1) _ once.2 later]
      by_cases same : head = id
      · subst same
        simp [once.1, bound]
      · have other : ¬ id = head := fun equal => same equal.symm
        have place : (head :: ids).idxOf id = ids.idxOf id + 1 := by
          simp [List.idxOf_cons, beq_eq_false_iff_ne.mpr same]
        by_cases member : id ∈ ids
        · simp [member, place, Nat.add_assoc, Nat.add_comm 1]
        · simp [member, other, Array.getElem?_setIfInBounds_ne same]

theorem ranks_eq {scope : Scope} (listed : scope.Listed) (id : NodeId) :
    scope.ranks[id]? =
      if id ∈ scope.fullSet then some (some (scope.fullSet.idxOf id))
      else (Array.replicate scope.tree.size none)[id]? := by
  have inside : ∀ other ∈ scope.fullSet,
      other < (Array.replicate scope.tree.size (none : Option Nat)).size := by
    intro other member
    rw [Array.size_replicate]
    exact listed.inside other member
  rw [ranks, fold_ranks scope.fullSet 0 _ id listed.once inside, Nat.zero_add]

/-- A node that is not listed has the place behind the last one. -/
theorem rank_eq {scope : Scope} (listed : scope.Listed) (id : NodeId) :
    scope.rankIn scope.ranks id = scope.fullSet.idxOf id := by
  rw [rankIn, ranks_eq listed]
  by_cases member : id ∈ scope.fullSet
  · simp [member]
  · rw [if_neg member, List.idxOf_eq_length member, Array.getElem?_replicate]
    split <;> rfl

/-! Order. -/

/-- Earlier in the listing. -/
def Before (scope : Scope) (first second : NodeId) : Prop :=
  scope.fullSet.idxOf first < scope.fullSet.idxOf second

theorem listing_in_order {scope : Scope} (listed : scope.Listed) :
    scope.fullSet.Pairwise scope.Before := by
  rw [List.pairwise_iff_getElem]
  intro first second inFirst inSecond earlier
  rw [Before, listed.once.idxOf_getElem, listed.once.idxOf_getElem]
  exact earlier

theorem eq_of_place {scope : Scope} {first second : NodeId} (member : first ∈ scope.fullSet)
    (same : scope.fullSet.idxOf first = scope.fullSet.idxOf second) : first = second := by
  have inFirst := List.idxOf_lt_length_of_mem member
  have inSecond : scope.fullSet.idxOf second < scope.fullSet.length := same ▸ inFirst
  rw [← List.getElem_idxOf inFirst, ← List.getElem_idxOf inSecond]
  simp only [same]

theorem mem_drop_repeats {ids : List NodeId} {id : NodeId} : id ∈ dropRepeats ids ↔ id ∈ ids := by
  fun_induction dropRepeats ids with
  | case1 first rest ih => simp [ih]
  | case2 first second rest different ih => simp [ih]
  | case3 ids short => rfl

theorem drop_repeats_in_order {scope : Scope} {ids : List NodeId}
    (sorted : ids.Pairwise fun first second =>
      scope.fullSet.idxOf first ≤ scope.fullSet.idxOf second)
    (members : ∀ id ∈ ids, id ∈ scope.fullSet) : (dropRepeats ids).Pairwise scope.Before := by
  fun_induction dropRepeats ids with
  | case1 first rest ih =>
      exact ih (List.pairwise_cons.mp sorted).2
        fun id member => members id (List.mem_cons_of_mem first member)
  | case2 first second rest different ih =>
      obtain ⟨least, later⟩ := List.pairwise_cons.mp sorted
      have tail := ih later fun id member => members id (List.mem_cons_of_mem first member)
      refine List.pairwise_cons.mpr ⟨?_, tail⟩
      intro id member
      rw [mem_drop_repeats] at member
      -- Strictly before the second entry, and the second entry is before all others.
      have step : scope.fullSet.idxOf first < scope.fullSet.idxOf second := by
        apply Nat.lt_of_le_of_ne (least second List.mem_cons_self)
        exact fun same => different (eq_of_place (members first List.mem_cons_self) same)
      rcases List.mem_cons.mp member with rfl | member
      · exact step
      · exact Nat.lt_of_lt_of_le step ((List.pairwise_cons.mp later).1 id member)
  | case3 ids short =>
      match ids, short with
      | [], _ => exact .nil
      | [single], _ => exact List.pairwise_singleton _ single
      | first :: second :: rest, short => exact absurd rfl (short first second rest)

/-- Elements of a scope in its order are determined by which they are. -/
theorem eq_filter_of_in_order {scope : Scope} (listed : scope.Listed) {ids : List NodeId}
    (ordered : ids.Pairwise scope.Before) (members : ∀ id ∈ ids, id ∈ scope.fullSet) :
    ids = scope.fullSet.filter (ids.contains ·) := by
  have distinct : ∀ {ids : List NodeId}, ids.Pairwise scope.Before → ids.Nodup := by
    intro ids ordered
    rw [List.nodup_iff_pairwise_ne]
    apply ordered.imp
    rintro first _ earlier rfl
    exact Nat.lt_irrefl _ earlier
  have kept := (listing_in_order listed).filter (ids.contains ·)
  apply List.Perm.eq_of_pairwise _ ordered kept
  · rw [List.perm_ext_iff_of_nodup (distinct ordered) (distinct kept)]
    intro id
    rw [List.mem_filter, List.contains_iff_mem]
    exact ⟨fun member => ⟨members id member, member⟩, And.right⟩
  · exact fun first second _ _ earlier later => absurd later (Nat.lt_asymm earlier)

theorem in_document_order_eq {scope : Scope} (listed : scope.Listed) {ids : List NodeId}
    (members : ∀ id ∈ ids, id ∈ scope.fullSet) :
    scope.inDocumentOrder ids = scope.fullSet.filter (ids.contains ·) := by
  have sorted := @List.pairwise_mergeSort NodeId
    (fun left right => decide (scope.fullSet.idxOf left ≤ scope.fullSet.idxOf right))
    (by simpa using fun _ _ _ => Nat.le_trans) (by simpa using fun _ _ => Nat.le_total _ _) ids
  have ordered := drop_repeats_in_order (sorted.imp of_decide_eq_true)
    fun id member => members id (List.mem_mergeSort.mp member)
  have kept := eq_filter_of_in_order listed ordered
    fun id member => members id (List.mem_mergeSort.mp (mem_drop_repeats.mp member))
  simp only [inDocumentOrder, rank_eq listed]
  rw [kept]
  apply List.filter_congr
  intro id _
  rw [Bool.eq_iff_iff, List.contains_iff_mem, List.contains_iff_mem, mem_drop_repeats,
    List.mem_mergeSort]

end TreeSelect.Scope
