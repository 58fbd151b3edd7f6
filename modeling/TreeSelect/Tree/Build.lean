import TreeSelect.Tree
import TreeSelect.Tree.Dump

/-!
Building a tree from a node dump, in the order of the dump. A dump that is no document
becomes the only child of a fresh document node. A document below the top and an attribute
whose value is no string are found on the way, the first one in that order.
-/

namespace TreeSelect

inductive DumpFault where
  | notADump
  | nestedDocument
  | attributeValue (name : String)
  deriving DecidableEq

/-- The words for a text that is no dump at all stop short of saying what is wrong with it. -/
def DumpFault.message : DumpFault → String
  | .notADump => "invalid document JSON"
  | .nestedDocument => "document node nested inside another node"
  | .attributeValue name => "attribute `" ++ name ++ "` must have a string value"

def AttributeDump.attributes : AttributeDump → Except DumpFault (List Attribute)
  | .pairs entries => .ok (entries.map fun entry => ⟨entry.1, entry.2⟩)
  | .record entries => entries.mapM fun entry =>
      match entry.2 with
      | some value => .ok ⟨entry.1, value⟩
      | none => .error (.attributeValue entry.1)

namespace Tree

mutual
def addDump (tree : Tree) (parent : NodeId) : Dump → Except DumpFault Tree
  | .document _ => .error .nestedDocument
  | .element tag attributes children =>
      match attributes.attributes with
      | .error fault => .error fault
      | .ok attributes =>
          (tree.append parent (.element ⟨tag, attributes⟩)).addDumps tree.size children
  | .text content => .ok (tree.append parent (.text content))
  | .comment content => .ok (tree.append parent (.comment content))

def addDumps (tree : Tree) (parent : NodeId) : List Dump → Except DumpFault Tree
  | [] => .ok tree
  | first :: rest =>
      match tree.addDump parent first with
      | .error fault => .error fault
      | .ok tree => tree.addDumps parent rest
end

def ofDump : Dump → Except DumpFault Tree
  | .document children => empty.addDumps rootId children
  | other => empty.addDump rootId other

def load (text : String) : Except DumpFault Tree :=
  match (Json.read? text).bind Dump.ofJson? with
  | none => .error .notADump
  | some dump => ofDump dump

end Tree
end TreeSelect
