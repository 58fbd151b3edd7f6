import TreeSelect.CommandLine.Help
import TreeSelect.CommandLine.Listing
import TreeSelect.CommandLine.Options
import TreeSelect.Selector.Serial
import TreeSelect.Tree.Build
import TreeSelect.Warnings

/-!
The command: what it prints and how it exits, as a function of its arguments and of the
document text. A document is asked for only when the selector has been read, and neither
for tokens nor for an explanation.
-/

namespace TreeSelect.CommandLine

structure Outcome where
  code : Nat
  stdout : String
  stderr : String
  deriving DecidableEq

inductive Source where
  | standardInput
  | file (path : String)

def Source.ofPath : Option String → Source
  | none => .standardInput
  | some path => .file path

def Source.name : Source → String
  | .standardInput => "<stdin>"
  | .file path => path

def Source.readFailure : Source → String
  | .standardInput => "failed to read stdin"
  | .file path => "failed to read " ++ path

/-- Either all is said, or a text is needed first; reading it may fail for a reason. -/
inductive Plan where
  | done (outcome : Outcome)
  | reading (source : Source) (answer : Except String String → Outcome)

def levelOf : Nat → Level
  | 0 => .warn
  | 1 => .info
  | 2 => .debug
  | _ => .trace

def note (level : Level) (message : String) : Record := ⟨level, "sift", message⟩

def usageFailure (fault : UsageFault) : Outcome where
  code := 2
  stdout := ""
  stderr := "error: " ++ fault.message ++ "\n\n" ++ usageText
    ++ "\nFor more information, try '--help'.\n"

/-- A failure prints nothing on standard output. -/
def failure (options : Options) (records : List Record) (what : String) (causes : List String) :
    Outcome where
  code := 1
  stdout := ""
  stderr := logListing (levelOf options.verbosity) records ++ failureListing what causes

def success (options : Options) (records : List Record) (stdout : String) : Outcome where
  code := 0
  stdout := stdout
  stderr := logListing (levelOf options.verbosity) records

def printed (options : Options) (tree : Tree) (ids : List NodeId) : String :=
  if options.json then jsonListing (.array (matchRecords tree ids))
  else matchListing options.colored tree ids

def onTree (options : Options) (records : List Record) (source : Source) (selector : Selector)
    (tree : Tree) : Outcome :=
  let scope := Scope.of tree Tree.rootId
  let ids := scope.evaluate selector
  let (_, reported) := WarningMemory.empty.log (scope.report selector)
  success options
    (records
      ++ [note .debug ("loaded " ++ tree.size.repr ++ " nodes from " ++ source.name)]
      ++ reported
      ++ [note .info (ids.length.repr ++ " element(s) matched")])
    (printed options tree ids)

def onText (options : Options) (records : List Record) (source : Source) (selector : Selector)
    (text : Except String String) : Outcome :=
  match text with
  | .error reason => failure options records source.readFailure [reason]
  | .ok text =>
      match Tree.load text with
      | .error fault =>
          failure options records ("failed to load document from " ++ source.name) [fault.message]
      | .ok tree => onTree options records source selector tree

def onSelector (options : Options) (selector : Selector) : Plan :=
  let records := [parseRecord (.ok selector), note .info ("parsed selector: " ++ selector.text)]
  if options.explain then .done (success options records (jsonListing selector.json))
  else
    let source := Source.ofPath options.document
    .reading source (onText options records source selector)

def onOptions (options : Options) : Plan :=
  if options.tokens then .done (success options [] (tokenListing options.colored options.selector))
  else match parse options.selector with
    | .ok selector => onSelector options selector
    | .error cause =>
        .done (failure options [parseRecord (.error cause)]
          ("invalid selector `" ++ options.selector ++ "`")
          [faultsMessage [cause], cause.message])

def plan (arguments : List String) : Plan :=
  match readRequest arguments with
  | .error fault => .done (usageFailure fault)
  | .ok .help => .done ⟨0, helpText, ""⟩
  | .ok .version => .done ⟨0, versionText, ""⟩
  | .ok (.run options) => onOptions options

/-- The command, given what every source holds. -/
def run (arguments : List String) (contents : Source → Except String String) : Outcome :=
  match plan arguments with
  | .done outcome => outcome
  | .reading source answer => answer (contents source)

end TreeSelect.CommandLine
