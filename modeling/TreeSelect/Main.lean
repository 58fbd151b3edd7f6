import TreeSelect.CommandLine

/-!
The program: reads what the plan of the command asks for and prints its outcome.
-/

open TreeSelect.CommandLine

/-- The words of the operating system, with its number for the error. -/
def describeIOError (reason : IO.Error) : String :=
  match reason with
  | .noFileOrDirectory _ code details => details ++ " (os error " ++ toString code ++ ")"
  | .permissionDenied _ code details => details ++ " (os error " ++ toString code ++ ")"
  | .inappropriateType _ code details => details ++ " (os error " ++ toString code ++ ")"
  | .invalidArgument _ code details => details ++ " (os error " ++ toString code ++ ")"
  | other => other.toString

def decodeText (bytes : ByteArray) : Except String String :=
  match String.fromUTF8? bytes with
  | some text => .ok text
  | none => .error "stream did not contain valid UTF-8"

def readSource (source : Source) : IO (Except String String) := do
  let attempt : IO ByteArray := match source with
    | .standardInput => do (← IO.getStdin).readBinToEnd
    | .file path => IO.FS.readBinFile path
  match ← attempt.toBaseIO with
  | .ok bytes => return decodeText bytes
  | .error reason => return .error (describeIOError reason)

def emit (outcome : Outcome) : IO UInt32 := do
  (← IO.getStderr).putStr outcome.stderr
  (← IO.getStdout).putStr outcome.stdout
  return UInt32.ofNat outcome.code

def main (arguments : List String) : IO UInt32 := do
  match plan arguments with
  | .done outcome => emit outcome
  | .reading source answer => emit (answer (← readSource source))
