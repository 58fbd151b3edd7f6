/-!
Command-line arguments. Long options take a value after `=` or as the next argument,
short ones also directly behind their letter; short switches may be bundled. `--` ends the
options. Help and version are answered where they are met, before anything behind them is
looked at.
-/

namespace TreeSelect.CommandLine

structure Options where
  selector : String
  document : Option String
  json : Bool
  explain : Bool
  tokens : Bool
  verbosity : Nat
  colored : Bool
  deriving DecidableEq

inductive Request where
  | help
  | version
  | run (options : Options)
  deriving DecidableEq

inductive UsageFault where
  | unknown (argument : String)
  | surplus (argument : String)
  | unwantedValue (name : String)
  | missingValue
  | repeated (name : String)
  | conflict
  | missingSelector
  deriving DecidableEq

def UsageFault.message : UsageFault → String
  | .unknown argument => "unexpected argument '" ++ argument ++ "' found"
  | .surplus argument => "unexpected argument '" ++ argument ++ "' found"
  | .unwantedValue name => "unexpected value for '--" ++ name ++ "' found; no more were expected"
  | .missingValue => "a value is required for '--document <PATH>' but none was supplied"
  | .repeated name => "the argument '--" ++ name ++ "' cannot be used multiple times"
  | .conflict => "the argument '--explain' cannot be used with '--tokens'"
  | .missingSelector => "the following required arguments were not provided:\n  <SELECTOR>"

inductive Switch where
  | document
  | json
  | explain
  | tokens
  | verbose
  | noColor
  | help
  | version

def Switch.ofName? : String → Option Switch
  | "document" => some .document
  | "json" => some .json
  | "explain" => some .explain
  | "tokens" => some .tokens
  | "verbose" => some .verbose
  | "no-color" => some .noColor
  | "help" => some .help
  | "version" => some .version
  | _ => none

def Switch.ofLetter? : Char → Option Switch
  | 'd' => some .document
  | 'v' => some .verbose
  | 'h' => some .help
  | 'V' => some .version
  | _ => none

/-- What the arguments up to some point have said. -/
structure Given where
  selector : Option String
  document : Option String
  json : Bool
  explain : Bool
  tokens : Bool
  verbosity : Nat
  noColor : Bool

def Given.nothing : Given := ⟨none, none, false, false, false, 0, false⟩

inductive Step where
  | onward (given : Given)
  | document (given : Given)
  | stop (request : Request)

namespace Given

def setDocument (given : Given) (path : String) : Except UsageFault Given :=
  if given.document.isSome then .error (.repeated "document")
  else if path = "" then .error .missingValue
  else .ok { given with document := some path }

def setSelector (given : Given) (text : String) : Except UsageFault Given :=
  if given.selector.isSome then .error (.surplus text)
  else .ok { given with selector := some text }

def once (given : Given) (name : String) (already : Bool) (change : Given → Given) :
    Except UsageFault Step :=
  if already then .error (.repeated name) else .ok (.onward (change given))

def set (given : Given) : Switch → Except UsageFault Step
  | .document => .ok (.document given)
  | .json => given.once "json" given.json fun given => { given with json := true }
  | .explain => given.once "explain" given.explain fun given => { given with explain := true }
  | .tokens => given.once "tokens" given.tokens fun given => { given with tokens := true }
  | .noColor => given.once "no-color" given.noColor fun given => { given with noColor := true }
  | .verbose => .ok (.onward { given with verbosity := given.verbosity + 1 })
  | .help => .ok (.stop .help)
  | .version => .ok (.stop .version)

def finish (given : Given) : Except UsageFault Request :=
  if given.explain && given.tokens then .error .conflict
  else match given.selector with
    | none => .error .missingSelector
    | some selector => .ok (.run {
        selector := selector
        document := given.document
        json := given.json
        explain := given.explain
        tokens := given.tokens
        verbosity := given.verbosity
        colored := !given.noColor })

end Given

/-- An argument that is not taken for a value: a dash and something behind it. -/
def looksLikeOption : List Char → Bool
  | '-' :: _ :: _ => true
  | _ => false

def readLong (given : Given) (body : List Char) : Except UsageFault Step :=
  let name := String.ofList (body.takeWhile (· != '='))
  match Switch.ofName? name, body.dropWhile (· != '=') with
  | none, _ => .error (.unknown ("--" ++ name))
  | some switch, [] => given.set switch
  | some .document, _ :: value => (given.setDocument (String.ofList value)).map .onward
  | some _, _ :: _ => .error (.unwantedValue name)

def readLetters (given : Given) : List Char → Except UsageFault Step
  | [] => .ok (.onward given)
  | letter :: rest =>
      match Switch.ofLetter? letter with
      | none => .error (.unknown ("-" ++ letter.toString))
      | some .document =>
          match rest with
          | [] => .ok (.document given)
          | '=' :: value => (given.setDocument (String.ofList value)).map .onward
          | value => (given.setDocument (String.ofList value)).map .onward
      | some switch =>
          match given.set switch with
          | .ok (.onward given) => readLetters given rest
          | other => other

/-- One argument before `--`. -/
def readOne (given : Given) (argument : String) : Except UsageFault Step :=
  match argument.toList with
  | '-' :: '-' :: body => readLong given body
  | '-' :: first :: rest => readLetters given (first :: rest)
  | _ => (given.setSelector argument).map .onward

def readValues (given : Given) : List String → Except UsageFault Request
  | [] => given.finish
  | text :: rest =>
      match given.setSelector text with
      | .error fault => .error fault
      | .ok given => readValues given rest

def readArguments (given : Given) : List String → Except UsageFault Request
  | [] => given.finish
  | argument :: rest =>
      if argument = "--" then readValues given rest
      else match readOne given argument with
        | .error fault => .error fault
        | .ok (.stop request) => .ok request
        | .ok (.onward given) => readArguments given rest
        | .ok (.document given) =>
            match rest with
            | [] => .error .missingValue
            | path :: rest =>
                if looksLikeOption path.toList then .error .missingValue
                else match given.setDocument path with
                  | .error fault => .error fault
                  | .ok given => readArguments given rest

def readRequest (arguments : List String) : Except UsageFault Request :=
  readArguments Given.nothing arguments

end TreeSelect.CommandLine
