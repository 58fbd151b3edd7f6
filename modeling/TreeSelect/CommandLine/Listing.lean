import TreeSelect.Json.Printer
import TreeSelect.Log
import TreeSelect.Text.Plain
import TreeSelect.Tree

/-!
What is printed: tokens and matches as lines, with colours or without, matches as JSON,
log records, and a failure with its causes.
-/

namespace TreeSelect.CommandLine

structure Paint where
  on : String
  off : String

def Paint.cyan : Paint := ⟨"36", "39"⟩
def Paint.yellow : Paint := ⟨"33", "39"⟩
def Paint.green : Paint := ⟨"32", "39"⟩
def Paint.blue : Paint := ⟨"34", "39"⟩
def Paint.bold : Paint := ⟨"1", "0"⟩
def Paint.dimmed : Paint := ⟨"2", "0"⟩

def Paint.apply (paint : Paint) (colored : Bool) (text : String) : String :=
  if colored then "\x1b[" ++ paint.on ++ "m" ++ text ++ "\x1b[" ++ paint.off ++ "m" else text

def padded (width : Nat) (text : String) : String :=
  text ++ String.ofList (List.replicate (width - text.length) ' ')

def lines (texts : List String) : String := String.join (texts.map (· ++ "\n"))

def tokenLine (colored : Bool) (token : Token) : String :=
  Paint.cyan.apply colored (padded 16 token.kind.describe) ++ " "
    ++ Paint.yellow.apply colored token.literal

def tokenListing (colored : Bool) (selector : String) : String :=
  lines ((tokens selector).map (tokenLine colored))

def matchLine (colored : Bool) (id : NodeId) (element : Element) : String :=
  Paint.bold.apply colored element.tag
    ++ (match element.id? with
        | none => ""
        | some value => Paint.green.apply colored ("#" ++ value))
    ++ String.join (element.classes.map fun name => Paint.blue.apply colored ("." ++ name))
    ++ " " ++ Paint.dimmed.apply colored ("[node " ++ id.repr ++ "]")

/-- The elements among some nodes, each with its index. -/
def elementsOf (tree : Tree) (ids : List NodeId) : List (NodeId × Element) :=
  ids.filterMap fun id => (tree.element? id).map fun element => (id, element)

def matchListing (colored : Bool) (tree : Tree) (ids : List NodeId) : String :=
  lines ((elementsOf tree ids).map fun entry => matchLine colored entry.1 entry.2)

def matchRecord (id : NodeId) (element : Element) : Json := .object [
  ("node", .ofNat id),
  ("tag", .string element.tag),
  ("attributes", .array (element.attributes.map fun entry =>
    .array [.string entry.name, .string entry.value]))]

def matchRecords (tree : Tree) (ids : List NodeId) : List Json :=
  (elementsOf tree ids).map fun entry => matchRecord entry.1 entry.2

def jsonListing (json : Json) : String := json.pretty 0 ++ "\n"

/-- Further lines of a text are set in under the first. -/
def hanging (indent : String) (text : String) : String :=
  String.join (text.toList.map fun c => if c = '\n' then "\n" ++ indent else c.toString)

def recordLine (record : Record) : String :=
  "[" ++ padded 5 record.level.name ++ " " ++ record.target ++ "] "
    ++ hanging "    " record.message ++ "\n"

/-- Escape sequences in a message do not reach the terminal. -/
def logListing (limit : Level) (records : List Record) : String :=
  String.join ((records.filter fun record => limit.admits record.level).map fun record =>
    Text.plain (recordLine record))

def numberedCauses : Nat → List String → List String
  | _, [] => []
  | number, cause :: rest =>
      ("    " ++ number.repr ++ ": " ++ hanging "       " cause)
        :: numberedCauses (number + 1) rest

/-- Causes are numbered where there are several. -/
def causeLines : List String → List String
  | [cause] => ["    " ++ hanging "    " cause]
  | causes => numberedCauses 0 causes

def failureListing (what : String) (causes : List String) : String :=
  lines (["Error: " ++ what, "", "Caused by:"] ++ causeLines causes)

end TreeSelect.CommandLine
