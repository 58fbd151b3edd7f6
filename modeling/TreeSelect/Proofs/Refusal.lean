import TreeSelect.Proofs.Loading

/-!
Dumps that are refused. A node offends by itself, whatever is above or below it: a document that
is not the top, or an element with an attribute whose value is no string. Building stops at the
first offence in pre-order, where an element comes before its children, and tells that one; a dump
without any offence is built. The place where building goes on has no part in it.
-/

namespace TreeSelect

namespace Dump

mutual
/-- A node, then everything below it child by child. -/
def nodes : Dump → List Dump
  | .document children => .document children :: nodesOfAll children
  | .element tag attributes children => .element tag attributes children :: nodesOfAll children
  | .text content => [.text content]
  | .comment content => [.comment content]

def nodesOfAll : List Dump → List Dump
  | [] => []
  | first :: rest => first.nodes ++ nodesOfAll rest
end

/-- What is wrong with a node below the top, apart from the nodes below it. -/
inductive Offends : Dump → DumpFault → Prop where
  | nested {children : List Dump} : Offends (.document children) .nestedDocument
  | untold {tag name : String} {before after : List (String × Option String)}
      {children : List Dump} : (∀ entry ∈ before, entry.2.isSome = true) →
      Offends (.element tag (.record (before ++ (name, none) :: after)) children)
        (.attributeValue name)

/-- The same, found by looking. -/
def offence? : Dump → Option DumpFault
  | .document _ => some .nestedDocument
  | .element _ attributes _ => attributes.gap?.map .attributeValue
  | .text _ => none
  | .comment _ => none

theorem offence_eq_some_iff (node : Dump) (fault : DumpFault) :
    node.offence? = some fault ↔ node.Offends fault := by
  constructor
  · intro found
    cases node with
    | document children =>
        cases found
        exact .nested
    | element tag attributes children =>
        obtain ⟨name, gap, rfl⟩ := Option.map_eq_some_iff.mp found
        cases attributes with
        | pairs entries => cases gap
        | record entries =>
            obtain ⟨⟨_, value⟩, first, rfl⟩ := Option.map_eq_some_iff.mp gap
            obtain ⟨empty, before, after, rfl, filled⟩ := List.find?_eq_some_iff_append.mp first
            obtain rfl := Option.isNone_iff_eq_none.mp empty
            exact .untold fun entry member => by simpa using filled entry member
    | text content => cases found
    | comment content => cases found
  · rintro (_ | filled)
    · rfl
    · next tag name before after children =>
      have first : (before ++ (name, none) :: after).find? (fun entry => entry.2.isNone) =
          some (name, none) :=
        List.find?_eq_some_iff_append.mpr
          ⟨rfl, before, after, rfl, fun entry member => by simpa using filled entry member⟩
      simp only [offence?, AttributeDump.gap?, first, Option.map_some]

theorem offence_eq_none_iff (node : Dump) :
    node.offence? = none ↔ ∀ fault, ¬ node.Offends fault := by
  simp only [← offence_eq_some_iff, Option.eq_none_iff_forall_ne_some, ne_eq]

/-- A node offends where it is a document, or has an attribute without a text. -/
theorem exists_offends_iff (node : Dump) :
    (∃ fault, node.Offends fault) ↔
      (∃ children, node = .document children) ∨
        ∃ tag entries children name, node = .element tag (.record entries) children ∧
          (name, none) ∈ entries := by
  constructor
  · rintro ⟨fault, _ | filled⟩
    · exact .inl ⟨_, rfl⟩
    · exact .inr ⟨_, _, _, _, rfl, List.mem_append_right _ List.mem_cons_self⟩
  · rintro (⟨children, rfl⟩ | ⟨tag, entries, children, name, rfl, member⟩)
    · exact ⟨_, .nested⟩
    · -- There is a gap, so there is a first one.
      cases first : entries.find? fun entry => entry.2.isNone with
      | none => exact absurd (List.find?_eq_none.mp first _ member) (by simp)
      | some entry =>
          refine ⟨.attributeValue entry.1, (offence_eq_some_iff _ _).mp ?_⟩
          simp only [offence?, AttributeDump.gap?, first, Option.map_some]

mutual
/-- A dump is sound where no node of it offends. -/
theorem sound_iff : (dump : Dump) → (dump.Sound ↔ ∀ node ∈ dump.nodes, node.offence? = none)
  | .document children => by
      rw [nodes, List.forall_mem_cons]
      exact iff_of_false id fun none => Option.some_ne_none _ none.1
  | .element tag attributes children => by
      rw [Sound, nodes, List.forall_mem_cons, offence?, Option.map_eq_none_iff,
        attributes.gap_eq_none_iff, all_sound_iff children]
  | .text content => iff_of_true trivial (by simp [nodes, offence?])
  | .comment content => iff_of_true trivial (by simp [nodes, offence?])

theorem all_sound_iff : (dumps : List Dump) →
    (AllSound dumps ↔ ∀ node ∈ nodesOfAll dumps, node.offence? = none)
  | [] => iff_of_true trivial (List.forall_mem_nil _)
  | first :: rest => by
      rw [AllSound, nodesOfAll, List.forall_mem_append, sound_iff first, all_sound_iff rest]
end

end Dump

namespace Tree

/-- The fault of a building that has come to one. -/
def faultOf : Except DumpFault Tree → Option DumpFault
  | .ok _ => none
  | .error fault => some fault

theorem fault_of_eq_some_iff (result : Except DumpFault Tree) (fault : DumpFault) :
    faultOf result = some fault ↔ result = .error fault := by
  cases result <;> simp [faultOf]

theorem fault_of_eq_none_iff (result : Except DumpFault Tree) :
    faultOf result = none ↔ ∃ tree, result = .ok tree := by
  cases result <;> simp [faultOf]

mutual
/-- What is told of a dump is its first offence, wherever it is added. -/
theorem fault_of_add_dump (tree : Tree) (parent : NodeId) : (dump : Dump) →
    faultOf (tree.addDump parent dump) = dump.nodes.findSome? Dump.offence?
  | .document children => by rw [addDump, Dump.nodes]; rfl
  | .element tag attributes children => by
      rw [addDump, attributes_eq, Dump.nodes, List.findSome?_cons, Dump.offence?]
      cases attributes.gap? with
      | some name => rfl
      | none => exact fault_of_add_dumps _ _ children
  | .text content => by rw [addDump, Dump.nodes]; rfl
  | .comment content => by rw [addDump, Dump.nodes]; rfl

theorem fault_of_add_dumps (tree : Tree) (parent : NodeId) : (dumps : List Dump) →
    faultOf (tree.addDumps parent dumps) = (Dump.nodesOfAll dumps).findSome? Dump.offence?
  | [] => by rw [addDumps, Dump.nodesOfAll]; rfl
  | first :: rest => by
      have here := fault_of_add_dump tree parent first
      rw [addDumps, Dump.nodesOfAll, List.findSome?_append, ← here]
      cases tree.addDump parent first with
      | error fault => rfl
      | ok grown => exact fault_of_add_dumps grown parent rest
end

theorem of_dump_error_iff (dump : Dump) (fault : DumpFault) :
    ofDump dump = .error fault ↔
      ∃ before node after, Dump.nodesOfAll (belowDocument dump) = before ++ node :: after ∧
        (∀ earlier ∈ before, ∀ other, ¬ earlier.Offends other) ∧ node.Offends fault := by
  rw [← fault_of_eq_some_iff, of_dump_eq, fault_of_add_dumps, List.findSome?_eq_some_iff]
  simp only [Dump.offence_eq_some_iff, Dump.offence_eq_none_iff]
  constructor
  · rintro ⟨before, node, after, whole, offends, sound⟩
    exact ⟨before, node, after, whole, sound, offends⟩
  · rintro ⟨before, node, after, whole, sound, offends⟩
    exact ⟨before, node, after, whole, offends, sound⟩

theorem exists_tree_iff (dump : Dump) :
    (∃ tree, ofDump dump = .ok tree) ↔
      ∀ node ∈ Dump.nodesOfAll (belowDocument dump), ∀ fault, ¬ node.Offends fault := by
  rw [← fault_of_eq_none_iff, of_dump_eq, fault_of_add_dumps, List.findSome?_eq_none_iff]
  simp only [Dump.offence_eq_none_iff]

/-- The loadable dumps are those that a tree is built of. -/
theorem loadable_iff (dump : Dump) : dump.Loadable ↔ ∃ tree, ofDump dump = .ok tree := by
  rw [Dump.Loadable, Dump.all_sound_iff, exists_tree_iff]
  simp only [Dump.offence_eq_none_iff]

theorem exists_error_iff (dump : Dump) :
    (∃ fault, ofDump dump = .error fault) ↔
      ∃ node ∈ Dump.nodesOfAll (belowDocument dump), ∃ fault, node.Offends fault := by
  have told : (∃ fault, ofDump dump = .error fault) ↔ ¬ ∃ tree, ofDump dump = .ok tree := by
    cases ofDump dump <;> simp
  rw [told, exists_tree_iff]
  simp only [not_forall, not_not, exists_prop]

/-- A dump is refused exactly where there is a document below its top, or an attribute of an
element that is no string. What is told is the first of these in pre-order, and of an element the
first such attribute. There is a tree only where nothing of this kind is in the dump. -/
theorem refused_at_first_offence (dump : Dump) :
    ((∃ fault, ofDump dump = .error fault) ↔
        ∃ node ∈ Dump.nodesOfAll (belowDocument dump),
          (∃ children, node = .document children) ∨
            ∃ tag entries children name, node = .element tag (.record entries) children ∧
              (name, none) ∈ entries) ∧
      (∀ fault, ofDump dump = .error fault ↔
        ∃ before node after, Dump.nodesOfAll (belowDocument dump) = before ++ node :: after ∧
          (∀ earlier ∈ before, ∀ other, ¬ earlier.Offends other) ∧ node.Offends fault) ∧
      ∀ text, (Json.read? text).bind Dump.ofJson? = some dump →
        (∀ fault, load text = .error fault ↔ ofDump dump = .error fault) ∧
          ((∃ tree, load text = .ok tree) ↔
            ∀ node ∈ Dump.nodesOfAll (belowDocument dump), ∀ fault, ¬ node.Offends fault) := by
  refine ⟨?_, of_dump_error_iff dump, fun text decoded => ?_⟩
  · rw [exists_error_iff]
    simp only [Dump.exists_offends_iff]
  · have built : load text = ofDump dump := by rw [load, decoded]
    rw [built]
    exact ⟨fun fault => Iff.rfl, exists_tree_iff dump⟩

/-- A list with faults in its item. The document comes first in the text, but the attributes of an
item are looked at before what is in the item, and only the first of the two that are no text is
told. -/
def faultyText : String :=
  "[\"element\",\"ul\",[],[\x7b\"type\":\"element\",\"children\":[[\"document\"]]," ++
    "\"tagName\":\"li\",\"attributes\":\x7b\"id\":\"a\",\"value\":true,\"class\":null\x7d\x7d]]"

def faultyItem : Dump :=
  .element "li" (.record [("id", some "a"), ("value", none), ("class", none)]) [.document []]

def faultyDump : Dump := .element "ul" (.pairs []) [faultyItem]

theorem attribute_refused_before_document :
    (Json.read? faultyText).bind Dump.ofJson? = some faultyDump ∧
      load faultyText = .error (.attributeValue "value") ∧ ¬ ∃ tree, load faultyText = .ok tree := by
  have decoded : (Json.read? faultyText).bind Dump.ofJson? = some faultyDump := by cbv
  have sound : ∀ earlier ∈ [faultyDump], ∀ other, ¬ earlier.Offends other := by
    rintro earlier member other offends
    obtain rfl := List.mem_singleton.mp member
    cases offends
  have offends : faultyItem.Offends (.attributeValue "value") :=
    @Dump.Offends.untold "li" "value" [("id", some "a")] [("class", none)] _ (by simp)
  have nodes : Dump.nodesOfAll (belowDocument faultyDump) =
      [faultyDump] ++ faultyItem :: [.document []] := rfl
  obtain ⟨-, first, loads⟩ := refused_at_first_offence faultyDump
  obtain ⟨told, given⟩ := loads faultyText decoded
  refine ⟨decoded, (told _).mpr ((first _).mpr ⟨_, _, _, nodes, sound, offends⟩), ?_⟩
  rw [given]
  exact fun none => none faultyItem (by simp [nodes]) _ offends

end Tree
end TreeSelect
