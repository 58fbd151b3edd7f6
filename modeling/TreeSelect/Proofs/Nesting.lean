import Mathlib.Data.List.Induction
import TreeSelect.Proofs.Composition
import TreeSelect.Proofs.Narrowing

/-!
Chains nested in any way. The canonical text of a chain does not tell how the chain was
nested, and what is read back from it is nested to the left. It still means the same: a
combinator asks for no more than the elements directly before and behind it, so the relation
of a chain is a composition of steps, and both nestings find the same elements in the same
order. Groups inside chains are not covered, since a comma in the text takes the whole chain
apart.
-/

namespace TreeSelect
namespace Selector

/-- The first compound of a chain, and every later one with the combinator before it. -/
def links : Selector → Selector × List (Combinator × Selector)
  | .joined left combinator right =>
      (left.links.1, left.links.2 ++ (combinator, right.links.1) :: right.links.2)
  | other => (other, [])

/-- Each link joined to all that stands before it. -/
def chained (first : Selector) (links : List (Combinator × Selector)) : Selector :=
  links.foldl (fun left link => .joined left link.1 link.2) first

def leftNested (selector : Selector) : Selector := chained selector.links.1 selector.links.2

/-- A chain nested in any way, each compound of which is accepted by itself. -/
inductive Chained : Selector → Prop where
  | compound {text : String} {base : Option Base} {filters : List Simple} :
      parse text = .ok (.compound base filters) → Chained (.compound base filters)
  | joined {left right : Selector} {combinator : Combinator} :
      Chained left → Chained right → Chained (.joined left combinator right)

theorem first_link_alone (left : Selector) (combinator : Combinator) : (selector : Selector) →
    left.join combinator selector.links.1 = .joined left combinator selector.links.1
  | .group _ => rfl
  | .joined first _ _ => first_link_alone left combinator first
  | .compound _ _ => rfl

theorem join_chained {left first : Selector} {combinator : Combinator}
    (alone : left.join combinator first = .joined left combinator first)
    (links : List (Combinator × Selector)) :
    left.join combinator (chained first links) = chained left ((combinator, first) :: links) := by
  induction links using List.reverseRecOn with
  | nil => exact alone
  | append_singleton links last ih =>
      simp only [chained, List.foldl_append, List.foldl_cons, List.foldl_nil, join] at ih ⊢
      rw [ih]

theorem left_nested_joined (left : Selector) (combinator : Combinator) (right : Selector) :
    (joined left combinator right).leftNested =
      left.leftNested.join combinator right.leftNested := by
  have behind := join_chained (first_link_alone left.leftNested combinator right) right.links.2
  rw [leftNested, leftNested, links, chained, List.foldl_append]
  exact behind.symm

theorem join_group_free (left : Selector) (combinator : Combinator) : (right : Selector) →
    (left.join combinator right).isGroupFree = (left.isGroupFree && right.isGroupFree)
  | .group _ => rfl
  | .joined first _ last => by
      rw [join, isGroupFree, join_group_free left combinator first, isGroupFree, Bool.and_assoc]
  | .compound _ _ => rfl

namespace Chained

theorem group_free {selector : Selector} (chain : selector.Chained) :
    selector.isGroupFree = true := by
  induction chain with
  | compound _ => rfl
  | joined _ _ left right => rw [isGroupFree, left, right, Bool.and_self]

theorem left_nested_group_free {selector : Selector} (chain : selector.Chained) :
    selector.leftNested.isGroupFree = true := by
  induction chain with
  | compound _ => rfl
  | joined _ _ left right => rw [left_nested_joined, join_group_free, left, right, Bool.and_self]

end Chained

theorem no_group_of_free {selector : Selector} (free : selector.isGroupFree = true) :
    selector.isGroup = false := by
  cases selector with
  | group alternatives => cases free
  | _ => rfl

end Selector

/-! What the text of a chain is read back as. -/

theorem joint_written (combinator : Combinator) : combinator.Written combinator.joint := by
  have space : Text.Blank " ".toList := by decide
  cases combinator with
  | descendant => exact ⟨by decide, space⟩
  | _ => exact ⟨" ", " ", space, space, rfl⟩

/-- The trees of two chains with a combinator between their texts. -/
theorem parse_chain_joined {first second : String} {left right : Selector}
    (here : parse first = .ok left) (there : parse second = .ok right)
    (alone : left.isGroup = false) (alone' : right.isGroup = false) (combinator : Combinator) :
    parse (first ++ combinator.joint ++ second) = .ok (left.join combinator right) := by
  have ending : left.alternatives = [] ++ [left] := Selector.alternatives_alone alone
  exact parse_joined here there ending (Selector.alternatives_alone alone')
    (joint_written combinator)

theorem parse_chained {selector : Selector} (chain : selector.Chained) :
    parse selector.text = .ok selector.leftNested := by
  induction chain with
  | compound parsed => exact canonical_text_parses_back parsed
  | joined first second here there =>
      rw [Selector.text, Selector.left_nested_joined]
      exact parse_chain_joined here there
        (Selector.no_group_of_free first.left_nested_group_free)
        (Selector.no_group_of_free second.left_nested_group_free) _

/-! What the two nestings mean. -/

section
variable {scope : Scope} {start final : NodeId}

theorem relates_joined_iff {left right : Selector} {combinator : Combinator} :
    (Selector.joined left combinator right).Relates scope start final ↔
      ∃ high low, left.Relates scope start high ∧ combinator.Climbs scope.tree low high ∧
        right.Relates scope low final := by
  constructor
  · intro relates
    cases relates with
    | joined before climbs after => exact ⟨_, _, before, climbs, after⟩
  · rintro ⟨high, low, before, climbs, after⟩
    exact .joined before climbs after

/-- Steps of a chain are composed, and composition is associative. -/
theorem relates_join_iff (left : Selector) (combinator : Combinator) :
    (right : Selector) → {final : NodeId} →
      ((left.join combinator right).Relates scope start final ↔
        (Selector.joined left combinator right).Relates scope start final)
  | .group _, _ => Iff.rfl
  | .joined first inner last, final => by
      simp only [Selector.join, relates_joined_iff, relates_join_iff left combinator first]
      constructor
      · rintro ⟨high, low, ⟨top, next, before, climbs, between⟩, climbs', after⟩
        exact ⟨top, next, before, climbs, high, low, between, climbs', after⟩
      · rintro ⟨top, next, before, climbs, high, low, between, climbs', after⟩
        exact ⟨high, low, ⟨top, next, before, climbs, between⟩, climbs', after⟩
  | .compound _ _, _ => Iff.rfl

theorem relates_left_nested_iff : (selector : Selector) → {start final : NodeId} →
    (selector.leftNested.Relates scope start final ↔ selector.Relates scope start final)
  | .group _, _, _ => Iff.rfl
  | .joined left combinator right, _, _ => by
      rw [Selector.left_nested_joined, relates_join_iff, relates_joined_iff, relates_joined_iff]
      simp only [relates_left_nested_iff left, relates_left_nested_iff right]
  | .compound _ _, _, _ => Iff.rfl

end

/-- Without groups the relation of a selector determines the order of what is found, too. -/
theorem evaluate_of_relates {tree : Tree} (built : tree.Built) {root : NodeId}
    {selector other : Selector} (free : selector.isGroupFree = true)
    (free' : other.isGroupFree = true)
    (same : ∀ start final, selector.Relates (Scope.of tree root) start final ↔
      other.Relates (Scope.of tree root) start final) :
    evaluate selector tree root = evaluate other tree root := by
  have linked := built.linked
  have all : ∀ id ∈ tree.descendants root, id ∈ tree.descendants root := fun _ member => member
  apply eq_of_members (linked.nodup_descendants root)
    (select_sublist linked selector free _ (List.Sublist.refl _))
    (select_sublist linked other free' _ (List.Sublist.refl _))
  intro id
  have found := mem_select_iff linked selector _ all id
  simp only [same] at found
  exact found.trans (mem_select_iff linked other _ all id).symm

/-- However a chain of accepted compounds is nested, its text is read back as the same chain
nested to the left, and that finds the same elements in the same order below every root. -/
theorem text_read_left_nested {selector : Selector} (chain : selector.Chained) :
    parse selector.text = .ok selector.leftNested ∧
      ∀ tree root, Tree.Built tree →
        evaluate selector.leftNested tree root = evaluate selector tree root :=
  ⟨parse_chained chain, fun _ _ built =>
    evaluate_of_relates built chain.left_nested_group_free chain.group_free
      fun _ _ => relates_left_nested_iff selector⟩

/-- `ul > (li + :nth-child(2))`, nested to the right. -/
def rightNested : Selector :=
  .joined (.compound (some (.type "ul")) []) .child
    (.joined (.compound (some (.type "li")) []) .nextSibling
      (.compound none [.functional "nth-child" (.integer 2)]))

theorem right_nested_read_left_nested :
    rightNested.Chained ∧ shortList.Built ∧
      parse rightNested.text = .ok (.joined (.joined (.compound (some (.type "ul")) []) .child
        (.compound (some (.type "li")) [])) .nextSibling
          (.compound none [.functional "nth-child" (.integer 2)])) ∧
      evaluate rightNested.leftNested shortList 0 = evaluate rightNested shortList 0 := by
  have list : parse "ul" = .ok (.compound (some (.type "ul")) []) :=
    ok_of_to_option (by decide +kernel)
  have item : parse "li" = .ok (.compound (some (.type "li")) []) :=
    ok_of_to_option (by decide +kernel)
  have second : parse ":nth-child(2)" =
      .ok (.compound none [.functional "nth-child" (.integer 2)]) :=
    ok_of_to_option (by decide +kernel)
  have chain : rightNested.Chained := .joined (.compound list) (.joined (.compound item)
    (.compound second))
  have result := text_read_left_nested chain
  exact ⟨chain, short_list_built, result.1, result.2 shortList 0 short_list_built⟩

end TreeSelect
