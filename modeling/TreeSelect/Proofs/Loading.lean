import Mathlib
import TreeSelect.Proofs.Preorder

/-!
Reading a tree back from what was built of a dump. An outline is what a node and everything
below it hold, with no numbers in it; the outline of the document is that of the dump. The
numbers are settled apart from it: nodes are numbered as they are come upon, so the numbers
of a node and of all that is below it stand together, and a node comes before its children.
Dumps that cannot be loaded are left out here, and so is the way from a text to its dump.
-/

namespace TreeSelect

/-- A node and what is below it, by content alone. -/
inductive Outline where
  | node (content : Content) (below : List Outline)

namespace Outline

mutual
def size : Outline → Nat
  | .node _ below => sizes below + 1

def sizes : List Outline → Nat
  | [] => 0
  | first :: rest => first.size + sizes rest
end

/-- Numbers for outlines side by side, where each of them takes as many as it has nodes. -/
def places (next : Nat) : List Outline → List NodeId
  | [] => []
  | first :: rest => next :: places (next + first.size) rest

end Outline

/-! What a dump means. -/

def AttributeDump.Textual : AttributeDump → Prop
  | .pairs _ => True
  | .record entries => ∀ entry ∈ entries, entry.2.isSome = true

/-- The attributes in the order of the dump, repeated names included. -/
def AttributeDump.listed : AttributeDump → List Attribute
  | .pairs entries => entries.map fun entry => ⟨entry.1, entry.2⟩
  | .record entries => entries.filterMap fun entry => entry.2.map fun value => ⟨entry.1, value⟩

/-- The first name, in the order of the entries, that has no text as its value. -/
def AttributeDump.gap? : AttributeDump → Option String
  | .pairs _ => none
  | .record entries => (entries.find? fun entry => entry.2.isNone).map Prod.fst

theorem AttributeDump.gap_eq_none_iff (attributes : AttributeDump) :
    attributes.gap? = none ↔ attributes.Textual := by
  cases attributes with
  | pairs entries => exact iff_of_true rfl trivial
  | record entries =>
      simp only [gap?, Textual, Option.map_eq_none_iff, List.find?_eq_none,
        Bool.not_eq_true, Option.isNone_eq_false_iff]

namespace Dump

mutual
/-- There is no document in the dump, and every attribute has a text as its value. -/
def Sound : Dump → Prop
  | .document _ => False
  | .element _ attributes children => attributes.Textual ∧ AllSound children
  | .text _ => True
  | .comment _ => True

def AllSound : List Dump → Prop
  | [] => True
  | first :: rest => first.Sound ∧ AllSound rest
end

mutual
def outline : Dump → Outline
  | .document children => .node .document (outlines children)
  | .element tag attributes children =>
      .node (.element ⟨tag, attributes.listed⟩) (outlines children)
  | .text content => .node (.text content) []
  | .comment content => .node (.comment content) []

def outlines : List Dump → List Outline
  | [] => []
  | first :: rest => first.outline :: outlines rest
end

/-- Only the top may be a document. -/
def Loadable (dump : Dump) : Prop := AllSound (Tree.belowDocument dump)

end Dump

namespace Tree

/-- What stands at a node and below it, along the lists of children; `none` where the number
of a child is out of range or something is nested too deep. -/
def outline? (tree : Tree) : Nat → NodeId → Option Outline
  | 0, _ => none
  | depth + 1, id => do
      let node ← tree.get? id
      return .node node.content (← node.children.mapM (tree.outline? depth))

/-- A node, then everything below it child by child. -/
def preorder (tree : Tree) : Nat → NodeId → List NodeId
  | 0, _ => []
  | depth + 1, id => id :: (tree.children id).flatMap (tree.preorder depth)

mutual
/-- The node is the top of the outline, and what is below it has the numbers behind its own. -/
def Holds (tree : Tree) (id : Nat) : Outline → Prop
  | .node content below =>
      (tree.get? id).map Node.content = some content ∧
        tree.children id = Outline.places (id + 1) below ∧ tree.HoldsAll (id + 1) below

def HoldsAll (tree : Tree) (next : Nat) : List Outline → Prop
  | [] => True
  | first :: rest => tree.Holds next first ∧ tree.HoldsAll (next + first.size) rest
end

/-! Building: each step adds nodes behind all others and entries to one list of children. -/

structure Appended (before after : Tree) (parent : NodeId) (new : List NodeId) : Prop where
  grown : before.size ≤ after.size
  content : ∀ id < before.size, (after.get? id).map Node.content =
    (before.get? id).map Node.content
  children : ∀ id < before.size, after.children id =
    if id = parent then before.children parent ++ new else before.children id

namespace Appended

theorem refl (tree : Tree) (parent : NodeId) : Appended tree tree parent [] where
  grown := Nat.le_refl _
  content _ _ := rfl
  children id _ := by
    by_cases same : id = parent <;> simp [same]

theorem trans {first second third : Tree} {parent : NodeId} {new later : List NodeId}
    (here : Appended first second parent new) (there : Appended second third parent later) :
    Appended first third parent (new ++ later) where
  grown := Nat.le_trans here.grown there.grown
  content id inside := by
    rw [there.content id (Nat.lt_of_lt_of_le inside here.grown), here.content id inside]
  children id inside := by
    rw [there.children id (Nat.lt_of_lt_of_le inside here.grown), here.children id inside]
    by_cases same : id = parent
    · have again := here.children parent (same ▸ inside)
      rw [if_pos rfl] at again
      rw [if_pos same, if_pos same, again, List.append_assoc]
    · rw [if_neg same, if_neg same, if_neg same]

/-- What is appended below a new node is not seen among the old ones. -/
theorem below {first second third : Tree} {parent : NodeId} {new later : List NodeId}
    (here : Appended first second parent new) (there : Appended second third first.size later) :
    Appended first third parent new where
  grown := Nat.le_trans here.grown there.grown
  content id inside := by
    rw [there.content id (Nat.lt_of_lt_of_le inside here.grown), here.content id inside]
  children id inside := by
    rw [there.children id (Nat.lt_of_lt_of_le inside here.grown), if_neg (Nat.ne_of_lt inside),
      here.children id inside]

theorem append {tree : Tree} {parent : NodeId} (inside : parent < tree.size)
    (content : Content) : Appended tree (tree.append parent content) parent [tree.size] where
  grown := by
    rw [size_append]
    exact Nat.le_succ _
  content id member := by
    rw [Tree.append, get_attach, Option.map_map, get_alloc, if_neg (Nat.ne_of_lt member)]
    rfl
  children id member := by
    have inParent : parent < (tree.alloc content).size := by
      rw [size_alloc]
      exact Nat.lt_succ_of_lt inside
    rw [Tree.append, children_attach inParent, children_alloc, children_alloc]

end Appended

/-- The node that was appended last. -/
theorem last_appended (tree : Tree) {parent : NodeId} (inside : parent < tree.size)
    (content : Content) :
    ((tree.append parent content).get? tree.size).map Node.content = some content ∧
      (tree.append parent content).children tree.size = [] := by
  have inParent : parent < (tree.alloc content).size := by
    rw [size_alloc]
    exact Nat.lt_succ_of_lt inside
  constructor
  · rw [append, get_attach, Option.map_map, get_alloc, if_pos rfl]
    rfl
  · rw [append, children_attach inParent, if_neg (Nat.ne_of_gt inside), children_alloc, children,
      get_none (Nat.le_refl _)]
    rfl

/-! An outline stays where it is when its own nodes keep their content and their children. -/

def Unchanged (before after : Tree) (id : NodeId) : Prop :=
  (after.get? id).map Node.content = (before.get? id).map Node.content ∧
    after.children id = before.children id

mutual
theorem holds_kept {before after : Tree} : (outline : Outline) → {id : Nat} →
    before.Holds id outline →
    (∀ other, id ≤ other → other < id + outline.size → Unchanged before after other) →
      after.Holds id outline
  | .node content below, id, holds, kept => by
      rw [Holds] at holds ⊢
      rw [Outline.size] at kept
      have here := kept id (Nat.le_refl _) (by omega)
      refine ⟨here.1.trans holds.1, here.2.trans holds.2.1, ?_⟩
      exact holds_all_kept below holds.2.2 fun other low high =>
        kept other (by omega) (by omega)

theorem holds_all_kept {before after : Tree} : (outlines : List Outline) → {next : Nat} →
    before.HoldsAll next outlines →
    (∀ other, next ≤ other → other < next + Outline.sizes outlines →
      Unchanged before after other) → after.HoldsAll next outlines
  | [], _, _, _ => True.intro
  | first :: rest, next, holds, kept => by
      rw [HoldsAll] at holds ⊢
      rw [Outline.sizes] at kept
      constructor
      · exact holds_kept first holds.1 fun other low high => kept other low (by omega)
      · exact holds_all_kept rest holds.2 fun other low high =>
          kept other (by omega) (by omega)
end

theorem Appended.unchanged {before after : Tree} {parent : Nat} {new : List NodeId}
    (appended : Appended before after parent new) (id : Nat) (behind : parent < id)
    (inside : id < before.size) : Unchanged before after id :=
  ⟨appended.content id inside, by rw [appended.children id inside, if_neg (Nat.ne_of_gt behind)]⟩

/-! Appending a dump. -/

/-- Attributes have a list exactly where there is no gap among them. -/
theorem attributes_eq (attributes : AttributeDump) :
    attributes.attributes = match attributes.gap? with
      | none => .ok attributes.listed
      | some name => .error (.attributeValue name) := by
  cases attributes with
  | pairs entries => rfl
  | record entries =>
      induction entries with
      | nil => rfl
      | cons entry rest ih =>
          obtain ⟨name, value⟩ := entry
          simp only [AttributeDump.attributes, AttributeDump.gap?, AttributeDump.listed,
            List.mapM_cons, List.find?_cons, List.filterMap_cons] at ih ⊢
          cases value with
          | none => rfl
          | some value =>
              simp only [Option.isNone_some, Option.map_some, ih]
              cases List.find? (fun entry => entry.2.isNone) rest <;> rfl

theorem attributes_listed {attributes : AttributeDump} (textual : attributes.Textual) :
    attributes.attributes = .ok attributes.listed := by
  rw [attributes_eq, attributes.gap_eq_none_iff.mpr textual]

/-- The tree has grown by the outlines, which are listed below the parent from the left. -/
structure Grows (before after : Tree) (parent : NodeId) (outlines : List Outline) : Prop where
  appended : Appended before after parent (Outline.places before.size outlines)
  size : after.size = before.size + Outline.sizes outlines
  holds : after.HoldsAll before.size outlines

theorem Grows.trans {first second third : Tree} {parent : NodeId} {outline : Outline}
    {outlines : List Outline} (inside : parent < first.size)
    (here : Grows first second parent [outline]) (there : Grows second third parent outlines) :
    Grows first third parent (outline :: outlines) := by
  have step := here.size
  simp only [Outline.sizes, Nat.add_zero] at step
  have new := there.appended
  have rest := there.holds
  rw [step] at new rest
  refine ⟨here.appended.trans new, ?_, ?_, rest⟩
  · rw [there.size, step, Outline.sizes, Nat.add_assoc]
  · -- The parent of what was appended later is not among the nodes of the first outline.
    apply holds_kept outline here.holds.1
    exact fun other low high =>
      there.appended.unchanged other (Nat.lt_of_lt_of_le inside low) (step ▸ high)

theorem Grows.node {tree after : Tree} {parent : NodeId} (inside : parent < tree.size)
    {content : Content} {below : List Outline}
    (grown : Grows (tree.append parent content) after tree.size below) :
    Grows tree after parent [.node content below] := by
  have size := size_append tree parent content
  have last := last_appended tree inside content
  have here := grown.appended.content tree.size (by omega)
  have children := grown.appended.children tree.size (by omega)
  have holds := grown.holds
  -- The new node had no children, so those it has now are all that was appended below it.
  rw [if_pos rfl, last.2, List.nil_append, size] at children
  rw [size] at holds
  refine ⟨(Appended.append inside content).below grown.appended, ?_, ?_, True.intro⟩
  · rw [grown.size, size, Outline.sizes, Outline.sizes, Outline.size]
    omega
  · rw [Holds]
    exact ⟨here.trans last.1, children, holds⟩

theorem Grows.leaf {tree : Tree} {parent : NodeId} (inside : parent < tree.size)
    (content : Content) : Grows tree (tree.append parent content) parent [.node content []] :=
  .node inside ⟨.refl _ _, rfl, True.intro⟩

mutual
theorem add_dump_grows {tree : Tree} {parent : NodeId} (inside : parent < tree.size) :
    (dump : Dump) → dump.Sound →
      ∃ result, tree.addDump parent dump = .ok result ∧ Grows tree result parent [dump.outline]
  | .document _, sound => by
      rw [Dump.Sound] at sound
      exact sound.elim
  | .element tag attributes children, sound => by
      rw [Dump.Sound] at sound
      have new : tree.size < (tree.append parent (.element ⟨tag, attributes.listed⟩)).size := by
        rw [size_append]
        exact Nat.lt_succ_self _
      obtain ⟨result, added, grown⟩ := add_dumps_grows new children sound.2
      refine ⟨result, ?_, ?_⟩
      · rw [addDump, attributes_listed sound.1]
        exact added
      · rw [Dump.outline]
        exact grown.node inside
  | .text content, _ => by
      refine ⟨_, by rw [addDump], ?_⟩
      rw [Dump.outline]
      exact .leaf inside _
  | .comment content, _ => by
      refine ⟨_, by rw [addDump], ?_⟩
      rw [Dump.outline]
      exact .leaf inside _

theorem add_dumps_grows {tree : Tree} {parent : NodeId} (inside : parent < tree.size) :
    (dumps : List Dump) → Dump.AllSound dumps →
      ∃ result, tree.addDumps parent dumps = .ok result ∧
        Grows tree result parent (Dump.outlines dumps)
  | [], _ => by
      refine ⟨tree, by rw [addDumps], ?_⟩
      rw [Dump.outlines]
      exact ⟨.refl _ _, rfl, True.intro⟩
  | first :: rest, sound => by
      rw [Dump.AllSound] at sound
      obtain ⟨middle, here, grown⟩ := add_dump_grows inside first sound.1
      obtain ⟨result, there, grown'⟩ :=
        add_dumps_grows (Nat.lt_of_lt_of_le inside grown.appended.grown) rest sound.2
      refine ⟨result, ?_, ?_⟩
      · rw [addDumps, here]
        exact there
      · rw [Dump.outlines]
        exact grown.trans inside grown'
end

/-! What an outline says of the nodes that it stands at. -/

mutual
theorem holds_read {tree : Tree} : (outline : Outline) → {id depth : Nat} →
    tree.Holds id outline → outline.size ≤ depth → tree.outline? depth id = some outline
  | .node content below, id, 0, _, enough => by
      rw [Outline.size] at enough
      exact absurd enough (Nat.not_succ_le_zero _)
  | .node content below, id, depth + 1, holds, enough => by
      rw [Holds] at holds
      rw [Outline.size] at enough
      obtain ⟨found, children, rest⟩ := holds
      obtain ⟨node, here, rfl⟩ := Option.map_eq_some_iff.mp found
      have listed : node.children = Outline.places (id + 1) below := by
        rw [← children, Tree.children, here]
        rfl
      have later := holds_all_read below rest (Nat.le_of_succ_le_succ enough)
      rw [← listed] at later
      simp [outline?, here, later]

theorem holds_all_read {tree : Tree} : (outlines : List Outline) → {next depth : Nat} →
    tree.HoldsAll next outlines → Outline.sizes outlines ≤ depth →
      (Outline.places next outlines).mapM (tree.outline? depth) = some outlines
  | [], _, _, _, _ => rfl
  | first :: rest, next, depth, holds, enough => by
      rw [HoldsAll] at holds
      rw [Outline.sizes] at enough
      have here := holds_read first holds.1 (Nat.le_trans (Nat.le_add_right _ _) enough)
      have there := holds_all_read rest holds.2 (Nat.le_trans (Nat.le_add_left _ _) enough)
      simp [Outline.places, here, there]
end

mutual
theorem holds_preorder {tree : Tree} : (outline : Outline) → {id depth : Nat} →
    tree.Holds id outline → outline.size ≤ depth →
      tree.preorder depth id = List.range' id outline.size
  | .node content below, id, 0, _, enough => by
      rw [Outline.size] at enough
      exact absurd enough (Nat.not_succ_le_zero _)
  | .node content below, id, depth + 1, holds, enough => by
      rw [Holds] at holds
      rw [Outline.size] at enough ⊢
      rw [preorder, holds.2.1, List.range'_succ,
        holds_all_preorder below holds.2.2 (Nat.le_of_succ_le_succ enough)]

theorem holds_all_preorder {tree : Tree} : (outlines : List Outline) → {next depth : Nat} →
    tree.HoldsAll next outlines → Outline.sizes outlines ≤ depth →
      (Outline.places next outlines).flatMap (tree.preorder depth) =
        List.range' next (Outline.sizes outlines)
  | [], _, _, _, _ => rfl
  | first :: rest, next, depth, holds, enough => by
      rw [HoldsAll] at holds
      rw [Outline.sizes] at enough ⊢
      rw [Outline.places, List.flatMap_cons,
        holds_preorder first holds.1 (Nat.le_trans (Nat.le_add_right _ _) enough),
        holds_all_preorder rest holds.2 (Nat.le_trans (Nat.le_add_left _ _) enough),
        List.range'_append_1]
end

/-- The numbers lie between the bounds, each of them larger than the one before it. -/
structure Rises (low high : Nat) (ids : List Nat) : Prop where
  ordered : ids.Pairwise (· < ·)
  bounds : ∀ id ∈ ids, low ≤ id ∧ id < high

namespace Rises

variable {low middle high : Nat} {ids others : List Nat}

theorem nil : Rises low high [] := ⟨.nil, by simp⟩

theorem cons (rises : Rises (low + 1) high ids) (room : low < high) :
    Rises low high (low :: ids) where
  ordered := List.pairwise_cons.mpr ⟨fun id member => (rises.bounds id member).1, rises.ordered⟩
  bounds := by
    refine List.forall_mem_cons.mpr ⟨⟨Nat.le_refl _, room⟩, fun id member => ?_⟩
    exact ⟨Nat.le_of_succ_le (rises.bounds id member).1, (rises.bounds id member).2⟩

theorem append (first : Rises low middle ids) (second : Rises middle high others)
    (lower : low ≤ middle) (upper : middle ≤ high) : Rises low high (ids ++ others) where
  ordered := by
    refine List.pairwise_append.mpr ⟨first.ordered, second.ordered, fun id here other there => ?_⟩
    exact Nat.lt_of_lt_of_le (first.bounds id here).2 (second.bounds other there).1
  bounds := by
    refine List.forall_mem_append.mpr ⟨fun id here => ?_, fun id there => ?_⟩
    · exact ⟨(first.bounds id here).1, Nat.lt_of_lt_of_le (first.bounds id here).2 upper⟩
    · exact ⟨Nat.le_trans lower (second.bounds id there).1, (second.bounds id there).2⟩

end Rises

mutual
/-- Below a node are numbers behind its own, in their order. -/
theorem holds_rises {tree : Tree} (linked : tree.Linked) : (outline : Outline) → {id : Nat} →
    tree.Holds id outline → Rises (id + 1) (id + outline.size) (tree.descendants id)
  | .node content below, id, holds => by
      rw [Holds] at holds
      have inside := holds_all_rises linked below holds.2.2
      rw [linked.descendants_eq, holds.2.1, Outline.size]
      rwa [Nat.add_right_comm, Nat.add_assoc] at inside

theorem holds_all_rises {tree : Tree} (linked : tree.Linked) : (outlines : List Outline) →
    {next : Nat} → tree.HoldsAll next outlines →
      Rises next (next + Outline.sizes outlines) ((Outline.places next outlines).flatMap fun child =>
        if tree.isElement child then child :: tree.descendants child else [])
  | [], _, _ => .nil
  | first :: rest, next, holds => by
      rw [HoldsAll] at holds
      have there := holds_all_rises linked rest holds.2
      have filled : next < next + first.size := by
        cases first
        rw [Outline.size]
        omega
      -- A node that is no element is left out with all that is below it.
      have here : Rises next (next + first.size)
          (if tree.isElement next then next :: tree.descendants next else []) := by
        split
        · exact (holds_rises linked first holds.1).cons filled
        · exact .nil
      rw [Nat.add_assoc] at there
      exact here.append there (Nat.le_of_lt filled) (by rw [Outline.sizes]; omega)
end

mutual
/-- Every number that an outline takes up is that of a node in it. -/
theorem holds_within {tree : Tree} : (outline : Outline) → {id : Nat} → tree.Holds id outline →
    ∀ other, id ≤ other → other < id + outline.size → ∃ within, tree.Holds other within
  | .node content below, id, holds, other, low, high => by
      rw [Outline.size] at high
      rcases Nat.lt_or_eq_of_le low with behind | rfl
      · rw [Holds] at holds
        exact holds_all_within below holds.2.2 other behind (by omega)
      · exact ⟨_, holds⟩

theorem holds_all_within {tree : Tree} : (outlines : List Outline) → {next : Nat} →
    tree.HoldsAll next outlines → ∀ other, next ≤ other →
      other < next + Outline.sizes outlines → ∃ within, tree.Holds other within
  | [], next, _, other, low, high => absurd high (Nat.not_lt_of_le low)
  | first :: rest, next, holds, other, low, high => by
      rw [HoldsAll] at holds
      rw [Outline.sizes] at high
      by_cases inFirst : other < next + first.size
      · exact holds_within first holds.1 other low inFirst
      · exact holds_all_within rest holds.2 other (by omega) (by omega)
end

/-! Whole dumps. -/

/-- The document holds all that the dump says, and the tree has no other nodes. -/
theorem of_dump_holds {dump : Dump} (loadable : dump.Loadable) :
    ∃ tree, ofDump dump = .ok tree ∧
      tree.Holds rootId (.node .document (Dump.outlines (belowDocument dump))) ∧
      tree.size = (Outline.node .document (Dump.outlines (belowDocument dump))).size := by
  obtain ⟨tree, added, grown⟩ := @add_dumps_grows empty rootId Nat.zero_lt_one _ loadable
  refine ⟨tree, (of_dump_eq dump).trans added, ?_, ?_⟩
  · rw [Holds]
    exact ⟨grown.appended.content 0 Nat.zero_lt_one, grown.appended.children 0 Nat.zero_lt_one,
      grown.holds⟩
  · rw [grown.size, Outline.size, Nat.add_comm]
    rfl

/-- A dump without a document below its top and with texts for all attributes is loaded; read
from the document, the tree holds what the dump says and nothing else. Its nodes are numbered
in pre-order, so that the elements below each node are listed in the order of their numbers. -/
theorem loaded_as_dumped {dump : Dump} (loadable : dump.Loadable) :
    ∃ tree, ofDump dump = .ok tree ∧
      (∀ text, (Json.read? text).bind Dump.ofJson? = some dump → load text = .ok tree) ∧
      tree.outline? tree.size rootId =
        some (.node .document (Dump.outlines (belowDocument dump))) ∧
      tree.preorder tree.size rootId = List.range tree.size ∧
      ∀ id, (tree.descendants id).Pairwise (· < ·) := by
  obtain ⟨tree, built, holds, size⟩ := of_dump_holds loadable
  have linked := Linked.of_dump built
  refine ⟨tree, built, fun text decoded => ?_, ?_, ?_, fun id => ?_⟩
  · rw [load, decoded]
    exact built
  · exact holds_read _ holds (Nat.le_of_eq size.symm)
  · rw [holds_preorder _ holds (Nat.le_of_eq size.symm), size, List.range_eq_range']
    rfl
  · -- A number out of range has nothing below it; every other one is that of some outline.
    by_cases inside : id < tree.size
    · obtain ⟨within, here⟩ := holds_within _ holds id (Nat.zero_le _)
        (by rwa [rootId, Nat.zero_add, ← size])
      exact (holds_rises linked within here).ordered
    · have leaf : tree.children id = [] := by
        rw [children, get_none (Nat.le_of_not_lt inside)]
        rfl
      rw [linked.descendants_eq, leaf]
      exact .nil

/-- A list with the name of one attribute twice, and an item with its attributes as an object. -/
def listText : String :=
  "\x7b\"type\":\"element\",\"tagName\":\"ul\",\"attributes\":[[\"class\",\"a\"],[\"class\",\"b\"]]," ++
    "\"children\":[\x7b\"type\":\"text\",\"content\":\"and\"\x7d,\x7b\"type\":\"element\"," ++
    "\"tagName\":\"li\",\"attributes\":\x7b\"id\":\"last\"\x7d\x7d]\x7d"

def listDump : Dump :=
  .element "ul" (.pairs [("class", "a"), ("class", "b")])
    [.text "and", .element "li" (.record [("id", some "last")]) []]

theorem list_loaded_as_dumped :
    listDump.Loadable ∧ (Json.read? listText).bind Dump.ofJson? = some listDump ∧
      ∃ tree, load listText = .ok tree ∧
        tree.outline? tree.size rootId = some (.node .document [
          .node (.element ⟨"ul", [⟨"class", "a"⟩, ⟨"class", "b"⟩]⟩)
            [.node (.text "and") [], .node (.element ⟨"li", [⟨"id", "last"⟩]⟩) []]]) ∧
        tree.preorder tree.size rootId = List.range tree.size := by
  have loadable : listDump.Loadable := by
    have texts : (AttributeDump.record [("id", some "last")]).Textual := by
      simp [AttributeDump.Textual]
    exact ⟨⟨True.intro, True.intro, ⟨texts, True.intro⟩, True.intro⟩, True.intro⟩
  have decoded : (Json.read? listText).bind Dump.ofJson? = some listDump := by cbv
  obtain ⟨tree, -, loaded, read, numbered, -⟩ := loaded_as_dumped loadable
  exact ⟨loadable, decoded, tree, loaded _ decoded, read, numbered⟩

end Tree

end TreeSelect
