import TreeSelect.Json.Reader

/-!
Node dumps: trees written as JSON. A node is an object with the member `type`, or an array
of its type and its fields in order. Members without a meaning are ignored, members with
one may not be repeated. Attributes are an object or an array of pairs; of an object a
repeated name keeps its first place and its last value, and a value that is no string is
kept as a gap, to be found when the tree is built.

Below the top a type may also be given by its number.
-/

namespace TreeSelect

inductive AttributeDump where
  | pairs (entries : List (String × String))
  | record (entries : List (String × Option String))

inductive Dump where
  | document (children : List Dump)
  | element (tag : String) (attributes : AttributeDump) (children : List Dump)
  | text (content : String)
  | comment (content : String)

namespace Dump

inductive Kind where
  | document
  | element
  | text
  | comment

def Kind.fields : Kind → List String
  | .document => ["children"]
  | .element => ["tagName", "attributes", "children"]
  | .text => ["content"]
  | .comment => ["content"]

def Kind.ofName? : String → Option Kind
  | "document" => some .document
  | "element" => some .element
  | "text" => some .text
  | "comment" => some .comment
  | _ => none

def Kind.ofNumber? : String → Option Kind
  | "0" => some .document
  | "1" => some .element
  | "2" => some .text
  | "3" => some .comment
  | _ => none

def Kind.ofJson? (top : Bool) : Json → Option Kind
  | .string name => Kind.ofName? name
  | .number spelling => if top then none else Kind.ofNumber? spelling
  | _ => none

/-- A field by name: `none` where it is repeated, `some none` where it is missing. -/
def field? (members : List (String × Json)) (name : String) : Option (Option Json) :=
  match Json.named name members with
  | [] => some none
  | [value] => some (some value)
  | _ => none

/-- The type of a node and its fields in order, `none` for a field that is left out. -/
def parts? (top : Bool) : Json → Option (Kind × List (Option Json))
  | .object members => do
      let tag ← (← field? members "type")
      let kind ← Kind.ofJson? top tag
      let fields ← kind.fields.mapM (field? members)
      return (kind, fields)
  | .array (tag :: given) => do
      let kind ← Kind.ofJson? top tag
      let missing := kind.fields.length - given.length
      if kind.fields.length < given.length then none
      else return (kind, given.map some ++ List.replicate missing none)
  | _ => none

def string? : Json → Option String
  | .string value => some value
  | _ => none

def pair? : Json → Option (String × String)
  | .array [.string name, .string value] => some (name, value)
  | _ => none

/-- The last value of a name, at its first place. -/
def setEntry (entries : List (String × Option String)) (name : String) (value : Option String) :
    List (String × Option String) :=
  if entries.any fun entry => entry.1 == name then
    entries.map fun entry => if entry.1 == name then (name, value) else entry
  else entries ++ [(name, value)]

def attributes? : Option Json → Option AttributeDump
  | none => some (.pairs [])
  | some .null => some (.pairs [])
  | some (.array items) => (items.mapM pair?).map .pairs
  | some (.object members) =>
      some (.record (members.foldl (fun entries member =>
        setEntry entries member.1 (string? member.2)) []))
  | some _ => none

def content? : Option Json → Option String
  | none => some ""
  | some value => string? value

def children? (node? : Json → Option Dump) : Option Json → Option (List Dump)
  | none => some []
  | some (.array items) => items.mapM node?
  | some _ => none

/-- A node that is nested at most `depth` deep. -/
def node? (top : Bool) : Nat → Json → Option Dump
  | 0, _ => none
  | depth + 1, json => do
      match ← parts? top json with
      | (.document, [children]) =>
          return .document (← children? (node? false depth) children)
      | (.element, [some tag, attributes, children]) =>
          return .element (← string? tag) (← attributes? attributes)
            (← children? (node? false depth) children)
      | (.text, [content]) => return .text (← content? content)
      | (.comment, [content]) => return .comment (← content? content)
      | _ => none

/-- No text that can be read is nested deeper. -/
def ofJson? (json : Json) : Option Dump := node? true (Json.nestingLimit + 1) json

end Dump
end TreeSelect
